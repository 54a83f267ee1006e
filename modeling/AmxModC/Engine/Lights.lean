import AmxModC.Foundation.Block
import AmxModC.Foundation.CString
import AmxModC.Foundation.Run
import Mathlib.Order.Defs.LinearOrder

namespace AmxModC.Engine.Lights

open Foundation

/-! The light styles: what `set_lights` has last set, and what the engine has. -/

/-- `buffers` is `szLastLights` and, behind it, `szRealLights`, of 512 bytes each: 128 pointers of
four bytes.  `startFrame` is whether `StartFrame_Post` is in the function table. -/
structure GlobalInfo (Time : Type) where
  fNextLights : Time
  buffers : List Byte
  bCheckLights : Bool
  startFrame : Bool

abbrev szLastLights : Nat := 0
abbrev szRealLights : Nat := 512

/-- `memset(buffer, 0x0, 128)` -/
def clear (buffers : List Byte) (start : Nat) : Option (List Byte) :=
  Block.write buffers start (List.replicate 128 0)

/-- `memcpy(buffer, s, strlen(s))`, which must stay inside the buffers -/
def copy (buffers : List Byte) (start : Nat) (s : CString) : Option (List Byte) :=
  Block.write buffers start s.bytes

def sent (buffers : List Byte) (start : Nat) : Option CString :=
  if 0 ∈ buffers.drop start then some (.ofMemory (buffers.drop start)) else none

/-- `"#OFF"` -/
def off : CString := ⟨[35, 79, 70, 70], by decide⟩

section

variable {Time : Type} [Zero Time] [One Time] [Add Time] [LinearOrder Time]

namespace GlobalInfo

/-- `set_lights`, with the light style that is sent -/
def setLights (info : GlobalInfo Time) (szLights : CString) :
    Option (GlobalInfo Time × Option CString) := do
  if szLights = off then
    let buffers ← clear info.buffers szLastLights
    some ({ info with bCheckLights := false, startFrame := false, buffers },
      sent buffers szRealLights)
  else
    let buffers ← clear info.buffers szLastLights
    let buffers ← copy buffers szLastLights szLights
    some ({ info with bCheckLights := true, startFrame := true, buffers }, some szLights)

/-- `LightStyle` -/
def lightStyle (info : GlobalInfo Time) (style : Int) (val : CString) :
    Option (GlobalInfo Time) := do
  if style = 0 then
    let buffers ← clear info.buffers szRealLights
    let buffers ← copy buffers szRealLights val
    some { info with buffers }
  else some info

/-- `ServerDeactivate` -/
def serverDeactivate (info : GlobalInfo Time) : Option (GlobalInfo Time) := do
  let buffers ← clear info.buffers szLastLights
  let buffers ← clear buffers szRealLights
  some { buffers, bCheckLights := false, fNextLights := 0, startFrame := false }

def Due (info : GlobalInfo Time) (time : Time) : Prop :=
  info.startFrame = true ∧ info.bCheckLights = true ∧ info.fNextLights < time

instance (info : GlobalInfo Time) (time : Time) : Decidable (info.Due time) :=
  inferInstanceAs (Decidable (_ ∧ _ ∧ _))

/-- `StartFrame_Post`, where it is in the function table -/
def startFramePost (info : GlobalInfo Time) (time : Time) :
    GlobalInfo Time × Option (Option CString) :=
  if info.Due time then
    ({ info with fNextLights := time + 1 }, some (sent info.buffers szLastLights))
  else (info, none)

end GlobalInfo

end

inductive Event (Time : Type)
  | setLights (szLights : CString)
  | lightStyle (style : Int) (val : CString)
  | frame (time : Time)
  | serverDeactivate

/-! What a buffer remembers. -/

def overlay : List CString → Nat → Byte
  | [], _ => 0
  | s :: rest, i => s.bytes[i]?.getD (overlay rest i)

/-- Of the 512 bytes of a buffer the first 128 are those of the string it is for; the others are
what all strings have left. -/
structure Holds (buffers : List Byte) (start : Nat) (shown : CString) (history : List CString) :
    Prop where
  latest : shown.bytes = [] ∨ history.head? = some shown
  low : ∀ i < 128, buffers[start + i]? = some (shown.bytes[i]?.getD 0)
  high : ∀ i, 128 ≤ i → i < 512 → buffers[start + i]? = some (overlay history i)

def Remembered (shown : CString) (history : List CString) : Prop :=
  shown.size < 128 ∨ ∀ s ∈ history, s.size ≤ shown.size

instance (shown : CString) (history : List CString) : Decidable (Remembered shown history) :=
  inferInstanceAs (Decidable (_ ∨ _))

section

variable {buffers buffers' : List Byte} {start other i : Nat} {shown s : CString}
  {history : List CString}

theorem overlay_eq_zero : overlay history i = 0 ↔ ∀ s ∈ history, s.size ≤ i := by
  induction history with
  | nil => simp [overlay]
  | cons s rest ih =>
      rw [List.forall_mem_cons, ← ih, overlay]
      cases hbyte : s.bytes[i]? with
      | none => simp [CString.size, List.getElem?_eq_none_iff.mp hbyte]
      | some byte =>
          have hlt : ¬ s.size ≤ i :=
            Nat.not_le.mpr (List.getElem?_eq_some_iff.mp hbyte).1
          have hbyte : ¬ byte = 0 := fun hzero => s.noNul (hzero ▸ List.mem_of_getElem? hbyte)
          rw [Option.getD_some]
          exact iff_of_false hbyte fun hall => hlt hall.1

theorem sent_eq_some_iff (h : ∀ i < s.size, buffers[start + i]? = s.bytes[i]?) :
    sent buffers start = some s ↔ buffers[start + s.size]? = some 0 := by
  constructor
  · intro hsent
    unfold sent at hsent
    split at hsent
    next hmem =>
      have hbytes : (buffers.drop start).takeWhile (· ≠ 0) = s.bytes :=
        congrArg CString.bytes (Option.some.inj hsent)
      have hsplit := List.takeWhile_append_dropWhile (p := (· ≠ 0)) (l := buffers.drop start)
      cases hrest : (buffers.drop start).dropWhile (· ≠ 0) with
      | nil =>
          have hnonzero := List.dropWhile_eq_nil_iff.mp hrest 0 hmem
          simp at hnonzero
      | cons c rest =>
          have hc : c = 0 := by
            have hhead := List.head?_dropWhile_not (· ≠ 0) (buffers.drop start)
            rw [hrest] at hhead
            simpa using hhead
          rw [hbytes, hrest, hc] at hsplit
          rw [← List.getElem?_drop, ← hsplit, CString.size, List.getElem?_append_right le_rfl,
            Nat.sub_self]
          rfl
    next => cases hsent
  · intro hzero
    have hstring : StringAt buffers start s.bytes := by
      intro i hi
      rcases Nat.lt_or_eq_of_le hi with hlt | rfl
      · rw [h i hlt, List.getElem?_append_left hlt]
      · simpa [CString.size] using hzero
    have hmem : (0 : Byte) ∈ buffers.drop start := by
      rw [← List.getElem?_drop] at hzero
      exact List.mem_of_getElem? hzero
    rw [sent, if_pos hmem]
    exact congrArg some (CString.ext (hstring.takeWhile s.noNul))

namespace Holds

theorem sent_iff (h : Holds buffers start shown history) (hsize : shown.size < 512) :
    sent buffers start = some shown ↔ Remembered shown history := by
  have hagree : ∀ i < shown.size, buffers[start + i]? = shown.bytes[i]? := by
    intro i hi
    have hbyte : shown.bytes[i]? = some shown.bytes[i] := List.getElem?_eq_getElem hi
    rcases Nat.lt_or_ge i 128 with hlow | hhigh
    · rw [h.low i hlow, hbyte]
      rfl
    · rw [h.high i hhigh (hi.trans hsize)]
      rcases h.latest with hempty | hhead
      · simp [CString.size, hempty] at hi
      · obtain ⟨rest, rfl⟩ := List.head?_eq_some_iff.mp hhead
        rw [overlay, hbyte]
        rfl
  rw [sent_eq_some_iff hagree]
  unfold Remembered
  rcases Nat.lt_or_ge shown.size 128 with hlow | hhigh
  · have hend : shown.bytes[shown.size]? = none := List.getElem?_eq_none le_rfl
    rw [h.low _ hlow, hend]
    exact iff_of_true rfl (.inl hlow)
  · rw [h.high _ hhigh hsize, Option.some_inj, overlay_eq_zero]
    exact (or_iff_right hhigh.not_gt).symm

theorem congr (h : Holds buffers start shown history)
    (hsame : ∀ i < 512, buffers'[start + i]? = buffers[start + i]?) :
    Holds buffers' start shown history where
  latest := h.latest
  low i hi := (hsame i (by omega)).trans (h.low i hi)
  high i hi hi' := (hsame i hi').trans (h.high i hi hi')

theorem clear (h : Holds buffers start shown history)
    (hclear : clear buffers start = some buffers') : Holds buffers' start default history where
  latest := .inl rfl
  low i hi := by
    rw [Block.getElem?_of_write hclear, if_pos (by simp; omega), Nat.add_sub_cancel_left,
      List.getElem?_replicate_of_lt hi]
    rfl
  high i hi hi' := by
    rw [Block.getElem?_of_write hclear, if_neg (by simp; omega)]
    exact h.high i hi hi'

theorem getElem?_copy (hcopy : Lights.copy buffers start s = some buffers') (i : Nat) :
    buffers'[start + i]? = if i < s.size then s.bytes[i]? else buffers[start + i]? := by
  rw [Block.getElem?_of_write hcopy, Nat.add_sub_cancel_left]
  have hrange : start ≤ start + i ∧ start + i < start + s.bytes.length ↔ i < s.size := by
    rw [CString.size]
    omega
  simp only [hrange]

theorem copy (h : Holds buffers start default history)
    (hcopy : copy buffers start s = some buffers') : Holds buffers' start s (s :: history) where
  latest := .inr rfl
  low i hi := by
    rw [getElem?_copy hcopy]
    split
    next hlt => simp [List.getElem?_eq_getElem hlt]
    next hge =>
      rw [h.low i hi, List.getElem?_eq_none (Nat.not_lt.mp hge)]
      rfl
  high i hi hi' := by
    rw [getElem?_copy hcopy, overlay]
    split
    next hlt => simp [List.getElem?_eq_getElem hlt]
    next hge =>
      rw [h.high i hi hi', List.getElem?_eq_none (Nat.not_lt.mp hge)]
      rfl

theorem write (h : Holds buffers start shown history) {source : List Byte}
    (hwrite : Block.write buffers other source = some buffers')
    (hapart : other + source.length ≤ start ∨ start + 512 ≤ other) :
    Holds buffers' start shown history :=
  h.congr fun _ hi => Block.getElem?_of_write_outside hwrite (by omega)

theorem size_lt (h : Holds buffers start shown history) (hshort : ∀ s ∈ history, s.size < 512) :
    shown.size < 512 := by
  rcases h.latest with hempty | hhead
  · simp [CString.size, hempty]
  · exact hshort shown (List.mem_of_head? hhead)

theorem new (hstart : start ≤ 512) : Holds (List.replicate 1024 0) start default [] where
  latest := .inl rfl
  low _ hi := List.getElem?_replicate_of_lt (by omega)
  high _ _ hi := List.getElem?_replicate_of_lt (by omega)

end Holds

theorem exists_clear (hlength : buffers.length = 1024) (hstart : start ≤ 512) :
    ∃ buffers', clear buffers start = some buffers' ∧ buffers'.length = 1024 := by
  have hsome : (clear buffers start).isSome := Block.write_isSome.mpr (by simp; omega)
  obtain ⟨buffers', hclear⟩ := Option.isSome_iff_exists.mp hsome
  exact ⟨buffers', hclear, (Block.length_of_write hclear).trans hlength⟩

theorem exists_size (n : Nat) : ∃ s : CString, s.size = n :=
  ⟨⟨List.replicate n 97, fun hmem => absurd (List.eq_of_mem_replicate hmem) (by decide)⟩,
    List.length_replicate⟩

theorem copy_isSome (hlength : buffers.length = 1024) :
    (copy buffers start s).isSome ↔ start + s.size ≤ 1024 := by
  rw [copy, Block.write_isSome, hlength, CString.size]

end

/-! Runs. -/

/-- The module, the string that each buffer is for, and all strings it was given, the latest
first. -/
structure Session (Time : Type) where
  info : GlobalInfo Time
  lastLights : CString
  lastHistory : List CString
  realLights : CString
  realHistory : List CString

namespace Session

variable {Time : Type} [Zero Time] [One Time] [Add Time] [LinearOrder Time]

def start : Session Time where
  info :=
    { fNextLights := 0, buffers := List.replicate 1024 0, bCheckLights := false
      startFrame := false }
  lastLights := default
  lastHistory := []
  realLights := default
  realHistory := []

def step (σ : Session Time) : Event Time → Option (Session Time)
  | .setLights szLights => do
      let (info, _) ← σ.info.setLights szLights
      if szLights = off then some { σ with info, lastLights := default }
      else some { σ with info, lastLights := szLights, lastHistory := szLights :: σ.lastHistory }
  | .lightStyle style val => do
      let info ← σ.info.lightStyle style val
      if style = 0 then some { σ with info, realLights := val, realHistory := val :: σ.realHistory }
      else some { σ with info }
  | .frame time => some { σ with info := (σ.info.startFramePost time).1 }
  | .serverDeactivate => do
      let info ← σ.info.serverDeactivate
      some { σ with info, lastLights := default, realLights := default }

def Short (σ : Session Time) : Prop := ∀ s ∈ σ.lastHistory ++ σ.realHistory, s.size < 512

/-- What is sent is the string that was set, if all strings were short; no event writes outside
the buffers. -/
def Right (σ : Session Time) : Event Time → Prop
  | .setLights szLights => ∃ result, σ.info.setLights szLights = some result ∧
      (szLights = off → σ.Short → result.2 = some σ.realLights)
  | .frame time => ∀ lights, (σ.info.startFramePost time).2 = some lights → σ.Short →
      lights = some σ.lastLights
  | event => (σ.step event).isSome

def Fits (σ : Session Time) : Event Time → Prop
  | .setLights szLights =>
      if szLights = off then σ.Short → Remembered σ.realLights σ.realHistory
      else szLights.size ≤ 1024
  | .lightStyle style val => style = 0 → val.size ≤ 512
  | .frame time => σ.info.Due time → σ.Short → Remembered σ.lastLights σ.lastHistory
  | .serverDeactivate => True

structure Inv (σ : Session Time) : Prop where
  length : σ.info.buffers.length = 1024
  last : σ.Short → Holds σ.info.buffers szLastLights σ.lastLights σ.lastHistory
  real : σ.Short → Holds σ.info.buffers szRealLights σ.realLights σ.realHistory

omit [One Time] [Add Time] [LinearOrder Time] in
theorem inv_start : (start : Session Time).Inv where
  length := List.length_replicate
  last _ := .new (Nat.zero_le _)
  real _ := .new le_rfl

variable {σ σ' : Session Time} {info : GlobalInfo Time} {buffers : List Byte} {s : CString}

omit [Zero Time] [One Time] [Add Time] [LinearOrder Time] in
theorem Short.last (h : σ.Short) : ∀ s ∈ σ.lastHistory, s.size < 512 :=
  fun s hs => h s (List.mem_append_left _ hs)

omit [Zero Time] [One Time] [Add Time] [LinearOrder Time] in
theorem Short.real (h : σ.Short) : ∀ s ∈ σ.realHistory, s.size < 512 :=
  fun s hs => h s (List.mem_append_right _ hs)

omit [Zero Time] [One Time] [Add Time] [LinearOrder Time] in
theorem setLights_off (hclear : clear info.buffers szLastLights = some buffers) :
    info.setLights off = some ({ info with bCheckLights := false, startFrame := false, buffers },
      sent buffers szRealLights) := by
  simp [GlobalInfo.setLights, hclear]

omit [Zero Time] [One Time] [Add Time] [LinearOrder Time] in
theorem setLights_other (hoff : s ≠ off)
    (hclear : clear info.buffers szLastLights = some buffers) :
    info.setLights s = (copy buffers szLastLights s).map fun buffers =>
      ({ info with bCheckLights := true, startFrame := true, buffers }, some s) := by
  cases hcopy : copy buffers szLastLights s <;> simp [GlobalInfo.setLights, hoff, hclear, hcopy]

omit [Zero Time] [One Time] [Add Time] [LinearOrder Time] in
theorem lightStyle_zero (hclear : clear info.buffers szRealLights = some buffers) :
    info.lightStyle 0 s = (copy buffers szRealLights s).map fun buffers =>
      { info with buffers } := by
  cases hcopy : copy buffers szRealLights s <;> simp [GlobalInfo.lightStyle, hclear, hcopy]

theorem Inv.right_iff (h : σ.Inv) {event : Event Time} : σ.Right event ↔ σ.Fits event := by
  cases event with
  | setLights szLights =>
      obtain ⟨buffers, hclear, hlength⟩ := exists_clear h.length (Nat.zero_le 512)
      by_cases hoff : szLights = off
      · subst hoff
        have hright : σ.Right (.setLights off) ↔
            (σ.Short → sent buffers szRealLights = some σ.realLights) := by
          simp [Right, setLights_off hclear]
        have hfits : σ.Fits (.setLights off) ↔
            (σ.Short → Remembered σ.realLights σ.realHistory) := by simp [Fits]
        rw [hright, hfits]
        refine forall_congr' fun hshort => ?_
        have hreal := (h.real hshort).write hclear (.inl (by simp [szRealLights]))
        exact hreal.sent_iff (hreal.size_lt hshort.real)
      · have hfits : szLights.size ≤ 1024 ↔ (copy buffers szLastLights szLights).isSome := by
          rw [copy_isSome hlength, Nat.zero_add]
        simp [Right, Fits, hoff, setLights_other hoff hclear, hfits, Option.isSome_iff_exists]
  | lightStyle style val =>
      obtain ⟨buffers, hclear, hlength⟩ := exists_clear h.length (le_refl 512)
      by_cases hstyle : style = 0
      · subst hstyle
        have hfits : val.size ≤ 512 ↔ (copy buffers szRealLights val).isSome := by
          rw [copy_isSome hlength, show szRealLights = 512 from rfl]
          omega
        cases hcopy : copy buffers szRealLights val <;>
          simp [Right, Fits, Session.step, lightStyle_zero hclear, hfits, hcopy]
      · simp [Right, Fits, Session.step, GlobalInfo.lightStyle, hstyle]
  | frame time =>
      by_cases hdue : σ.info.Due time
      · have hright : σ.Right (.frame time) ↔
            (σ.Short → sent σ.info.buffers szLastLights = some σ.lastLights) := by
          simp [Right, GlobalInfo.startFramePost, hdue]
        have hfits : σ.Fits (.frame time) ↔
            (σ.Short → Remembered σ.lastLights σ.lastHistory) := by simp [Fits, hdue]
        rw [hright, hfits]
        refine forall_congr' fun hshort => ?_
        exact (h.last hshort).sent_iff ((h.last hshort).size_lt hshort.last)
      · simp [Right, Fits, GlobalInfo.startFramePost, hdue]
  | serverDeactivate =>
      obtain ⟨buffers, hclear, hlength⟩ := exists_clear h.length (Nat.zero_le 512)
      obtain ⟨buffers', hclear', -⟩ := exists_clear hlength (le_refl 512)
      simp [Right, Fits, Session.step, GlobalInfo.serverDeactivate, hclear, hclear']

theorem Inv.step (h : σ.Inv) {event : Event Time} (hstep : σ.step event = some σ') : σ'.Inv := by
  cases event with
  | setLights szLights =>
      obtain ⟨buffers, hclear, hlength⟩ := exists_clear h.length (Nat.zero_le 512)
      by_cases hoff : szLights = off
      · subst hoff
        simp only [Session.step, setLights_off hclear] at hstep
        cases hstep
        refine ⟨hlength, fun hshort => ?_, fun hshort => ?_⟩
        · exact (h.last hshort).clear hclear
        · exact (h.real hshort).write hclear (.inl (by simp [szRealLights]))
      · simp only [Session.step, setLights_other hoff hclear] at hstep
        cases hcopy : copy buffers szLastLights szLights with
        | none => simp [hcopy] at hstep
        | some buffers' =>
            simp only [hcopy, Option.map_some, Option.bind_eq_bind, Option.bind_some,
              if_neg hoff] at hstep
            cases hstep
            refine ⟨(Block.length_of_write hcopy).trans hlength, fun hshort => ?_,
              fun hshort => ?_⟩
            · have hbefore : σ.Short := fun s hs => hshort s (List.mem_cons_of_mem _ hs)
              exact ((h.last hbefore).clear hclear).copy hcopy
            · have hbefore : σ.Short := fun s hs => hshort s (List.mem_cons_of_mem _ hs)
              have hsize : szLights.size < 512 := hshort szLights List.mem_cons_self
              have hapart : szLastLights + szLights.bytes.length ≤ szRealLights := by
                rw [Nat.zero_add]
                exact hsize.le
              exact ((h.real hbefore).write hclear (.inl (by simp [szRealLights]))).write hcopy (.inl hapart)
  | lightStyle style val =>
      obtain ⟨buffers, hclear, hlength⟩ := exists_clear h.length (le_refl 512)
      by_cases hstyle : style = 0
      · subst hstyle
        simp only [Session.step, lightStyle_zero hclear] at hstep
        cases hcopy : copy buffers szRealLights val with
        | none => simp [hcopy] at hstep
        | some buffers' =>
            simp only [hcopy, Option.map_some, Option.bind_eq_bind, Option.bind_some,
              if_true] at hstep
            cases hstep
            refine ⟨(Block.length_of_write hcopy).trans hlength, fun hshort => ?_,
              fun hshort => ?_⟩
            all_goals
              have hbefore : σ.Short := fun s hs => by
                apply hshort
                rcases List.mem_append.mp hs with hs | hs
                · exact List.mem_append_left _ hs
                · exact List.mem_append_right _ (List.mem_cons_of_mem _ hs)
            · exact ((h.last hbefore).write hclear (.inr (by simp))).write hcopy (.inr (by simp))
            · exact ((h.real hbefore).clear hclear).copy hcopy
      · simp only [Session.step, GlobalInfo.lightStyle, if_neg hstyle, Option.bind_eq_bind,
          Option.bind_some] at hstep
        cases hstep
        exact ⟨h.length, h.last, h.real⟩
  | frame time =>
      cases hstep
      have hbuffers : (σ.info.startFramePost time).1.buffers = σ.info.buffers := by
        unfold GlobalInfo.startFramePost
        split <;> rfl
      refine ⟨?_, fun hshort => ?_, fun hshort => ?_⟩
      · rw [hbuffers]
        exact h.length
      · rw [hbuffers]
        exact h.last hshort
      · rw [hbuffers]
        exact h.real hshort
  | serverDeactivate =>
      obtain ⟨buffers, hclear, hlength⟩ := exists_clear h.length (Nat.zero_le 512)
      obtain ⟨buffers', hclear', hlength'⟩ := exists_clear hlength (le_refl 512)
      simp only [Session.step, GlobalInfo.serverDeactivate, hclear, hclear', Option.bind_eq_bind,
        Option.bind_some] at hstep
      cases hstep
      refine ⟨hlength', fun hshort => ?_, fun hshort => ?_⟩
      · exact ((h.last hshort).clear hclear).write hclear' (.inr (by simp))
      · exact ((h.real hshort).write hclear (.inl (by simp [szRealLights]))).clear hclear'

/-- Every frame and every `#OFF` sends what was set, and nothing outside the buffers is written,
exactly as long as no string is too long for that and none that is sent ends in front of an
earlier one. -/
theorem meets_right_iff_fits (events : List (Event Time)) :
    Meets step Right (start : Session Time) events ↔ Meets step Fits (start : Session Time) events :=
  meets_congr (fun h _ hstep => h.step hstep) (fun h => h.right_iff) inv_start

theorem step_setLights (h : σ.Inv) (hoff : s ≠ off) (hsize : s.size ≤ 1024) :
    ∃ buffers, σ.step (.setLights s) = some
      { σ with
        info := { σ.info with bCheckLights := true, startFrame := true, buffers }
        lastLights := s
        lastHistory := s :: σ.lastHistory } := by
  obtain ⟨buffers, hclear, hlength⟩ := exists_clear h.length (Nat.zero_le 512)
  have hsome : (copy buffers szLastLights s).isSome := by
    rw [copy_isSome hlength, Nat.zero_add]
    exact hsize
  obtain ⟨buffers', hcopy⟩ := Option.isSome_iff_exists.mp hsome
  exact ⟨buffers', by simp [Session.step, setLights_other hoff hclear, hcopy, hoff]⟩

/-- A style of 150 letters after one of 200: the frame sends 200 letters. -/
theorem not_meets_right_shorter :
    ¬ ∀ events : List (Event Nat), Meets step Right (start : Session Nat) events := by
  intro h
  obtain ⟨first, hfirst⟩ := exists_size 200
  obtain ⟨second, hsecond⟩ := exists_size 150
  have hoff : off.size = 4 := rfl
  have hne : first ≠ off := fun heq => by rw [heq, hoff] at hfirst; cases hfirst
  have hne' : second ≠ off := fun heq => by rw [heq, hoff] at hsecond; cases hsecond
  have hmeets := h [.setLights first, .setLights second, .frame 1]
  have hinv : (start : Session Nat).Inv := inv_start
  obtain ⟨buffers, hstep⟩ := step_setLights hinv hne (by omega)
  have hinv := hinv.step hstep
  obtain ⟨buffers', hstep'⟩ := step_setLights hinv hne' (by omega)
  have hright := ((hmeets.2 _ hstep).2 _ hstep').1
  rw [(hinv.step hstep').right_iff] at hright
  have hshort : ∀ s ∈ [second, first], s.size < 512 := by simp [hfirst, hsecond]
  rcases hright ⟨rfl, rfl, Nat.zero_lt_one⟩ hshort with hsize | hall
  · change second.size < 128 at hsize
    omega
  · have hle : first.size ≤ second.size := hall first (by simp)
    omega

end Session

end AmxModC.Engine.Lights
