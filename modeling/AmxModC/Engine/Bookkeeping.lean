import Mathlib.Data.List.Basic
import AmxModC.Engine.Camera

namespace AmxModC.Engine.Camera

open Foundation

/-! What the bookkeeping of the cameras comes to over a run. -/

/-- A slot in the normal view has nothing saved; one in another view has a camera, and how the
player was rendered. -/
structure Slot.Sound (slot : Slot) : Prop where
  normal : slot.info.iViewType = .none → slot.info = .clear
  camera : slot.info.iViewType ≠ .none → slot.info.pViewEnt.isSome
  saved : slot.info.iViewType ≠ .none →
    slot.before = ⟨slot.info.iRenderMode, slot.info.fRenderAmt⟩
  present : slot.info.iViewType ≠ .none → slot.presence ≠ .away

namespace State

def camera? (s : State) (index : Nat) : Option Nat :=
  (s.slots[index]?).bind fun slot => slot.info.pViewEnt

structure Sound (s : State) : Prop where
  slots : ∀ slot ∈ s.slots, slot.Sound
  count : s.cameraCount = s.slots.countP Slot.modified
  hook : s.addToFullPack = true ↔ 0 < s.cameraCount
  cameras : ∀ {entity index}, ⟨entity, index⟩ ∈ s.cameras ↔ s.camera? index = some entity
  once : ∀ {entity index index'}, s.camera? index = some entity →
    s.camera? index' = some entity → index = index'
  fresh : ∀ {entity index}, s.camera? index = some entity → entity < s.created

variable {s : State} {index : Nat} {slot slot' : Slot}

theorem mem_of_slot (hslot : s.slots[index]? = some slot) : slot ∈ s.slots :=
  List.mem_of_getElem? hslot

theorem Sound.kept (h : s.Sound) : s.Kept where
  count := h.count
  hook := h.hook
  holds slot hmem := by
    have hslot := h.slots slot hmem
    refine ⟨fun hsome hnone => ?_, hslot.camera⟩
    simp [hslot.normal hnone, PlayerInfo.clear] at hsome
  exists_camera index slot entity hslot hentity := by
    refine h.cameras.mpr ?_
    simp [camera?, hslot, hentity]
  removed camera hmem := by
    obtain ⟨slot, hslot, hentity⟩ := Option.bind_eq_some_iff.mp (h.cameras.mp hmem)
    have hsound := h.slots slot (mem_of_slot hslot)
    have hview : slot.info.iViewType ≠ .none := fun hnone => by
      simp [hsound.normal hnone, PlayerInfo.clear] at hentity
    exact ⟨slot, hslot, hentity, hview, hsound.present hview⟩

theorem sound_initial (h : s.Initial) : s.Sound := by
  have hcamera : ∀ index, s.camera? index = none := by
    intro index
    refine Option.bind_eq_none_iff.mpr fun slot hslot => ?_
    rw [h.info slot (mem_of_slot hslot)]
    rfl
  have hmodified : s.slots.countP Slot.modified = 0 := by
    refine List.countP_eq_zero.mpr fun slot hmem => ?_
    simp [Slot.modified, h.info slot hmem, PlayerInfo.clear]
  constructor
  case slots =>
    intro slot hmem
    have hclear := h.info slot hmem
    have hview : slot.info.iViewType = .none := by simp [hclear, PlayerInfo.clear]
    exact ⟨fun _ => hclear, (absurd hview ·), (absurd hview ·), (absurd hview ·)⟩
  case count => simp [h.cameraCount, hmodified]
  case hook => simp [h.addToFullPack, h.cameraCount]
  case cameras => simp [h.cameras, hcamera]
  case once => simp [hcamera]
  case fresh => simp [hcamera]

theorem forall_put {P : Slot → Prop} (h : ∀ slot ∈ s.slots, P slot) (hnew : P slot') :
    ∀ slot ∈ (s.put index slot').slots, P slot := by
  intro other hmem
  rcases List.mem_or_eq_of_mem_set hmem with hold | rfl
  · exact h other hold
  · exact hnew

section

variable (hslot : s.slots[index]? = some slot)

include hslot

theorem getElem?_put (index' : Nat) :
    (s.put index slot').slots[index']? = if index' = index then some slot' else s.slots[index']? := by
  have hlt := (List.getElem?_eq_some_iff.mp hslot).1
  rw [put, List.getElem?_set]
  split
  next heq => rw [← heq, if_pos rfl]
  next hne => rw [if_neg (Ne.symm hne)]

theorem camera?_put (index' : Nat) :
    (s.put index slot').camera? index' =
      if index' = index then slot'.info.pViewEnt else s.camera? index' := by
  rw [camera?, getElem?_put hslot]
  split
  · rfl
  · rfl

theorem countP_put (slot' : Slot) :
    ((s.put index slot').slots.countP Slot.modified : Int) =
      s.slots.countP Slot.modified - (if slot.modified then 1 else 0) +
        if slot'.modified then 1 else 0 := by
  obtain ⟨hlt, heq⟩ := List.getElem?_eq_some_iff.mp hslot
  have hle : (if slot.modified then 1 else 0) ≤ s.slots.countP Slot.modified := by
    split
    next hmodified => exact List.countP_pos_iff.mpr ⟨slot, mem_of_slot hslot, hmodified⟩
    next => exact Nat.zero_le _
  rw [put, List.countP_set hlt, heq]
  split at hle <;> split <;> simp_all

theorem Sound.put (h : s.Sound) (hcamera : slot'.info.pViewEnt = slot.info.pViewEnt)
    (hmodified : slot'.modified = slot.modified) (hnew : slot'.Sound) :
    (s.put index slot').Sound := by
  have hsame : ∀ index', (s.put index slot').camera? index' = s.camera? index' := by
    intro index'
    rw [camera?_put hslot]
    split
    next heq => rw [hcamera, heq, camera?, hslot]; rfl
    next => rfl
  constructor
  case slots => exact forall_put h.slots hnew
  case count =>
    rw [countP_put hslot, hmodified, ← h.count]
    exact (sub_add_cancel _ _).symm
  case hook => exact h.hook
  case cameras =>
    intro entity index'
    rw [hsame]
    exact h.cameras
  case once =>
    intro entity first second
    rw [hsame, hsame]
    exact h.once
  case fresh =>
    intro entity index'
    rw [hsame]
    exact h.fresh

theorem Sound.takeOut (h : s.Sound) (hnormal : slot.info.iViewType = .none)
    (hgame : slot.presence = .inGame) {view : ViewType} (hview : view ≠ .none) :
    (s.setViewCamera index slot view).Sound := by
  have hsound := h.slots slot (mem_of_slot hslot)
  let taken : Slot := { slot with
    info := ⟨some s.created, view, slot.v.rendermode, slot.v.renderamt⟩
    before := slot.v }
  have hstep : s.setViewCamera index slot view = { s.put index taken with
      cameras := ⟨s.created, index⟩ :: s.cameras
      created := s.created + 1
      cameraCount := s.cameraCount + 1
      addToFullPack := true
      playerPostThink := true } := if_neg (not_not.mpr hnormal)
  have hcamera : ∀ index', (s.setViewCamera index slot view).camera? index' =
      if index' = index then some s.created else s.camera? index' := by
    rw [hstep]
    exact camera?_put hslot
  have hold : s.camera? index = none := by
    rw [camera?, hslot]
    simp [hsound.normal hnormal, PlayerInfo.clear]
  have hnew : ∀ index', s.camera? index' ≠ some s.created := fun index' hentity =>
    absurd (h.fresh hentity) (lt_irrefl _)
  constructor
  case slots =>
    rw [hstep]
    refine forall_put h.slots ⟨(absurd · hview), fun _ => rfl, fun _ => rfl, fun _ => ?_⟩
    rw [hgame]
    decide
  case count =>
    have hcount := countP_put hslot taken
    have hmodified : slot.modified = false := by simp [Slot.modified, hnormal]
    have htaken : taken.modified = true := by simpa [Slot.modified, taken] using hview
    rw [hmodified, htaken, ← h.count] at hcount
    rw [hstep]
    simpa using hcount.symm
  case hook =>
    have hpos : 0 ≤ s.cameraCount := h.count ▸ Int.natCast_nonneg _
    rw [hstep]
    exact iff_of_true rfl (Int.lt_add_one_of_le hpos)
  case cameras =>
    intro entity index'
    rw [hcamera, hstep, List.mem_cons, VexdCam.mk.injEq]
    split
    next heq =>
      subst heq
      rw [h.cameras, hold]
      simp [eq_comm]
    next hne => simp [hne, h.cameras]
  case once =>
    intro entity first second
    rw [hcamera, hcamera]
    split <;> split
    next hfirst hsecond => exact fun _ _ => hfirst.trans hsecond.symm
    next hfirst hsecond =>
      intro hentity hsame
      exact absurd (hsame.trans hentity.symm) (hnew second)
    next hfirst hsecond =>
      intro hsame hentity
      exact absurd (hsame.trans hentity.symm) (hnew first)
    next hfirst hsecond => exact h.once
  case fresh =>
    intro entity index'
    rw [hcamera, hstep]
    split
    next => exact fun hentity => Option.some.inj hentity ▸ Nat.lt_succ_self _
    next => exact fun hentity => (h.fresh hentity).trans (Nat.lt_succ_self _)

theorem Sound.takeBack (h : s.Sound) (hview : slot.info.iViewType ≠ .none) :
    (s.setViewNone index slot).Sound := by
  have hsound := h.slots slot (mem_of_slot hslot)
  obtain ⟨entity, hentity⟩ := Option.isSome_iff_exists.mp (hsound.camera hview)
  let back : Slot := { slot with
    info := .clear
    v := ⟨slot.info.iRenderMode, slot.info.fRenderAmt⟩ }
  have hstep : s.setViewNone index slot = (s.removeEntity entity).countDown.put index back := by
    simp only [setViewNone, hentity, if_pos hview]
    rfl
  have hheld : s.camera? index = some entity := by
    rw [camera?, hslot]
    exact hentity
  have hcamera : ∀ index', (s.setViewNone index slot).camera? index' =
      if index' = index then none else s.camera? index' := by
    rw [hstep]
    exact camera?_put hslot
  have hmodified : slot.modified = true := by simpa [Slot.modified] using hview
  have hpos : 0 < s.cameraCount := by
    rw [h.count]
    exact_mod_cast List.countP_pos_iff.mpr ⟨slot, mem_of_slot hslot, hmodified⟩
  have hcount : (s.setViewNone index slot).cameraCount = s.cameraCount - 1 := by
    rw [hstep]
    exact if_neg (by change ¬ s.cameraCount - 1 < 0; omega)
  constructor
  case slots =>
    rw [hstep]
    exact forall_put h.slots ⟨fun _ => rfl, (absurd rfl ·), (absurd rfl ·), (absurd rfl ·)⟩
  case count =>
    have hput := countP_put hslot back
    have hback : back.modified = false := rfl
    rw [hmodified, hback, ← h.count] at hput
    simp only [if_true, Bool.false_eq_true, if_false, add_zero] at hput
    rw [hcount, hstep]
    exact hput.symm
  case hook =>
    have hhook : (s.setViewNone index slot).addToFullPack =
        if (s.setViewNone index slot).cameraCount = 0 then false else s.addToFullPack := by
      rw [hstep]
      rfl
    rw [hhook, hcount, h.hook.mpr hpos]
    split
    next hzero => exact iff_of_false Bool.false_ne_true (by omega)
    next hmore => exact iff_of_true rfl (by omega)
  case cameras =>
    intro entity' index'
    have hfilter : ⟨entity', index'⟩ ∈ (s.setViewNone index slot).cameras ↔
        s.camera? index' = some entity' ∧ entity' ≠ entity := by
      rw [hstep, ← h.cameras]
      change _ ∈ s.cameras.filter _ ↔ _
      simp [List.mem_filter]
    rw [hfilter, hcamera]
    split
    next heq =>
      subst heq
      refine iff_of_false ?_ nofun
      rintro ⟨hsame, hne⟩
      exact hne (Option.some.inj (hsame.symm.trans hheld))
    next hne =>
      refine and_iff_left_of_imp ?_
      rintro hother rfl
      exact hne (h.once hother hheld)
  case once =>
    intro entity' first second
    rw [hcamera, hcamera]
    split
    · exact nofun
    · split
      · exact fun _ => nofun
      · exact h.once
  case fresh =>
    intro entity' index'
    rw [hcamera, hstep]
    split
    · exact nofun
    · exact h.fresh

end

end State

theorem Slot.sound_of_normal {slot : Slot} (hclear : slot.info = .clear) : slot.Sound := by
  have hview : slot.info.iViewType = .none := by
    rw [hclear]
    rfl
  exact ⟨fun _ => hclear, (absurd hview ·), (absurd hview ·), (absurd hview ·)⟩

namespace State

variable {s next : State} {index : Nat} {slot slot' : Slot} {event : Event}

theorem Sound.put_v (h : s.Sound) (hslot : s.slots[index]? = some slot) (v : Entvars) :
    (s.put index { slot with v := v }).Sound := by
  have hsound := h.slots slot (mem_of_slot hslot)
  exact h.put hslot rfl rfl ⟨hsound.normal, hsound.camera, hsound.saved, hsound.present⟩

theorem setViewNone_normal (h : slot.info = .clear) (s : State) (index : Nat) :
    s.setViewNone index slot = s.put index { slot with v := ⟨0, 0⟩ } := by
  obtain ⟨presence, info, v, before⟩ := slot
  cases h
  rfl

theorem Sound.setView (h : s.Sound) (index : Nat) (iCameraType : Cell) :
    (s.setView index iCameraType).Sound := by
  unfold State.setView
  cases hslot : s.slots[index]? with
  | none => exact h
  | some slot =>
      have hsound := h.slots slot (mem_of_slot hslot)
      dsimp only
      split
      next hgame =>
        cases hview : viewType? iCameraType with
        | none => exact h
        | some view =>
            by_cases hnormal : slot.info.iViewType = .none
            · cases view with
              | none =>
                  dsimp only
                  rw [setViewNone_normal (hsound.normal hnormal)]
                  exact h.put_v hslot _
              | thirdPerson => exact h.takeOut hslot hnormal hgame (by decide)
              | upLeft => exact h.takeOut hslot hnormal hgame (by decide)
              | topDown => exact h.takeOut hslot hnormal hgame (by decide)
            · have hother : ∀ view : ViewType, view ≠ .none →
                  (s.setViewCamera index slot view).Sound := by
                intro view hne
                rw [setViewCamera, if_pos hnormal]
                refine h.put hslot rfl ?_ ⟨(absurd · hne), fun _ => hsound.camera hnormal,
                  fun _ => hsound.saved hnormal, fun _ => hsound.present hnormal⟩
                simp [Slot.modified, hnormal, hne]
              cases view with
              | none => exact h.takeBack hslot hnormal
              | thirdPerson => exact hother _ (by decide)
              | upLeft => exact hother _ (by decide)
              | topDown => exact hother _ (by decide)
      next => exact h

theorem Sound.step (h : s.Sound) (hallowed : s.Allowed event) (hstep : s.step event = some next) :
    next.Sound := by
  cases event with
  | setView index iCameraType =>
      obtain rfl := Option.some.inj hstep
      exact h.setView index iCameraType
  | addToFullPack ent host =>
      obtain rfl := Option.some.inj hstep
      unfold addToFullPackOf
      split
      next =>
        cases ent with
        | other => exact h
        | player index =>
            cases hslot : s.slots[index]? with
            | none => simpa [hslot] using h
            | some slot =>
                simp only [hslot]
                split
                · split
                  · exact h.put_v hslot _
                  · exact h.put_v hslot _
                · exact h
      next => exact h
  | playerPostThink index =>
      obtain rfl := Option.some.inj hstep
      unfold playerPostThinkPost
      split
      next =>
        cases hslot : s.slots[index]? with
        | none => exact h
        | some slot =>
            have hsound := h.slots slot (mem_of_slot hslot)
            cases hentity : slot.info.pViewEnt with
            | none => simpa [hentity] using h
            | some entity =>
                cases hview : slot.info.iViewType with
                | none => simp [hsound.normal hview, PlayerInfo.clear] at hentity
                | thirdPerson => simpa [hentity, hview] using h
                | upLeft => simpa [hentity, hview] using h
                | topDown => simpa [hentity, hview] using h
      next => exact h
  | clientDisconnect index =>
      obtain ⟨slot, hslot, hnext⟩ := Option.bind_eq_some_iff.mp hstep
      split at hnext
      next => cases hnext
      next hpresent =>
        obtain rfl := Option.some.inj hnext
        have hnormal := hallowed slot hslot hpresent
        have hclear := (h.slots slot (mem_of_slot hslot)).normal hnormal
        rw [State.clientDisconnect, if_neg (not_not.mpr hnormal)]
        refine h.put hslot rfl ?_ (Slot.sound_of_normal ?_)
        · simp [Slot.modified, hnormal]
        · simp [hclear, PlayerInfo.clear]
  | clientConnect index =>
      obtain ⟨slot, hslot, hnext⟩ := Option.bind_eq_some_iff.mp hstep
      split at hnext
      next haway =>
        obtain rfl := Option.some.inj hnext
        have hsound := h.slots slot (mem_of_slot hslot)
        have hnormal : slot.info.iViewType = .none := by
          by_contra hview
          exact hsound.present hview haway
        refine h.put hslot ?_ ?_ (Slot.sound_of_normal rfl)
        · simp [hsound.normal hnormal]
        · simp [Slot.modified, hnormal, PlayerInfo.clear]
      next => cases hnext
  | putInServer index =>
      obtain ⟨slot, hslot, hnext⟩ := Option.bind_eq_some_iff.mp hstep
      split at hnext
      next =>
        obtain rfl := Option.some.inj hnext
        have hsound := h.slots slot (mem_of_slot hslot)
        exact h.put hslot rfl rfl ⟨hsound.normal, hsound.camera, hsound.saved, fun _ => nofun⟩
      next => cases hnext
  | render index v =>
      obtain ⟨slot, hslot, hnext⟩ := Option.bind_eq_some_iff.mp hstep
      obtain rfl := Option.some.inj hnext
      exact h.put_v hslot v

theorem setViewNone_slots (s : State) (index : Nat) (slot : Slot) :
    (s.setViewNone index slot).slots = s.slots.set index { slot with
      info := .clear
      v := ⟨slot.info.iRenderMode, slot.info.fRenderAmt⟩ } := by
  unfold setViewNone
  dsimp only
  split <;> split <;> rfl

theorem setView_none {iCameraType : Cell} (hslot : s.slots[index]? = some slot)
    (hgame : slot.presence = .inGame) (htype : viewType? iCameraType = some .none) :
    (s.setView index iCameraType).slots[index]?.map Slot.v =
      some ⟨slot.info.iRenderMode, slot.info.fRenderAmt⟩ := by
  have hlt := (List.getElem?_eq_some_iff.mp hslot).1
  simp only [State.setView, hslot, htype, if_pos hgame]
  rw [setViewNone_slots, List.getElem?_set_self hlt]
  rfl

theorem Sound.right_iff (h : s.Sound) : s.Right event ↔ s.Allowed event := by
  constructor
  · intro hright
    cases event with
    | setView index iCameraType =>
        intro htype slot hslot hgame hnormal
        have hrestored := (hright _ rfl).2 htype slot hslot hgame
        rw [setView_none hslot hgame htype, if_neg (not_not.mpr hnormal),
          (h.slots slot (mem_of_slot hslot)).normal hnormal] at hrestored
        exact (Option.some.inj hrestored).symm
    | clientDisconnect index =>
        intro slot hslot hpresent
        by_contra hview
        have hlt := (List.getElem?_eq_some_iff.mp hslot).1
        have hstep : s.step (.clientDisconnect index) = some (s.clientDisconnect index slot) := by
          simp [State.step, hslot, hpresent]
        have hkept := (hright _ hstep).1
        have hslots : (s.clientDisconnect index slot).slots = s.slots.set index { slot with
            presence := .away
            info := { slot.info with iViewType := .none, iRenderMode := 0, fRenderAmt := 0 } } := by
          rw [State.clientDisconnect, if_pos hview]
          rfl
        have hmem := List.mem_of_getElem? ((congrArg (·[index]?) hslots).trans
          (List.getElem?_set_self hlt))
        exact (hkept.holds _ hmem).mp ((h.slots slot (mem_of_slot hslot)).camera hview) rfl
    | addToFullPack ent host => trivial
    | playerPostThink index => trivial
    | clientConnect index => trivial
    | putInServer index => trivial
    | render index v => trivial
  · intro hallowed next hstep
    refine ⟨(h.step hallowed hstep).kept, ?_⟩
    cases event with
    | setView index iCameraType =>
        obtain rfl := Option.some.inj hstep
        intro htype slot hslot hgame
        have hsound := h.slots slot (mem_of_slot hslot)
        rw [setView_none hslot hgame htype]
        split
        next hview => rw [hsound.saved hview]
        next hview =>
          rw [hsound.normal (not_not.mp hview), hallowed htype slot hslot hgame (not_not.mp hview)]
          rfl
    | addToFullPack ent host => trivial
    | playerPostThink index => trivial
    | clientDisconnect index => trivial
    | clientConnect index => trivial
    | putInServer index => trivial
    | render index v => trivial

/-- The bookkeeping is right after every step of a run exactly if players leave the server in
the normal view, and are set to it out of it or with nothing to restore. -/
theorem meets_right_iff (h : s.Initial) (events : List Event) :
    Meets step Right s events ↔ Meets step Allowed s events := by
  refine meets_congr ?_ ?_ (sound_initial h)
  · intro s event next hsound hright hstep
    exact hsound.step (hsound.right_iff.mp hright) hstep
  · intro s event hsound
    exact hsound.right_iff

def twoPlayers : State where
  slots := [⟨.inGame, .clear, ⟨2, hundred⟩, ⟨0, 0⟩⟩, ⟨.inGame, .clear, ⟨0, 0⟩, ⟨0, 0⟩⟩]
  cameras := []
  created := 0
  cameraCount := 0
  addToFullPack := false
  playerPostThink := false

theorem initial_twoPlayers : twoPlayers.Initial := ⟨by decide, rfl, rfl, rfl⟩

instance (s : State) : (event : Event) → Decidable (s.Allowed event)
  | .setView index _ => inferInstanceAs (Decidable (_ → ∀ slot ∈ s.slots[index]?, _))
  | .clientDisconnect index => inferInstanceAs (Decidable (∀ slot ∈ s.slots[index]?, _))
  | .addToFullPack _ _ | .playerPostThink _ | .clientConnect _ | .putInServer _ | .render _ _ =>
      isTrue trivial

/-- The transparent player looks from above, comes back and leaves. -/
theorem meets_right_above : Meets step Right twoPlayers
    [.setView 0 3, .addToFullPack (.player 0) (.player 0), .setView 0 0, .clientDisconnect 0,
      .clientConnect 0] :=
  (meets_right_iff initial_twoPlayers _).mpr (by decide)

/-- A player leaves the server in the third person, and his camera stays. -/
theorem not_meets_right : ¬ ∀ (s : State), s.Initial → ∀ events, Meets step Right s events := by
  intro h
  have hallowed := (meets_right_iff initial_twoPlayers _).mp
    (h twoPlayers initial_twoPlayers [.setView 1 1, .clientDisconnect 1])
  exact absurd hallowed (by decide)

end State

end AmxModC.Engine.Camera
