import AmxModC.Plugin
import AmxModC.Format.Follow

namespace AmxModC.Format

open Foundation

/-! Formatting into a buffer of its own: where the text is cut, and what an error leaves. -/

section

variable {d : Nat}

def Inputs.buffer (inputs : Inputs d) (room : Nat) : Access (Nat → BitVec d) d where
  fmt := fun _ => inputs.fmt
  arg := fun _ => inputs.arg
  vector := fun _ => inputs.vector
  put := fun cells i ch => if i < room then some (Function.update cells i ch) else none
  float := inputs.float

def fill (cells : Nat → BitVec d) (text : List (BitVec d)) : Nat → BitVec d :=
  fun i => text[i]?.getD (cells i)

theorem fill_of_lt (cells : Nat → BitVec d) {text : List (BitVec d)} {i : Nat}
    (h : i < text.length) : fill cells text i = text[i] := by
  rw [fill, List.getElem?_eq_getElem h, Option.getD_some]

theorem fill_of_le (cells : Nat → BitVec d) {text : List (BitVec d)} {i : Nat}
    (h : text.length ≤ i) : fill cells text i = cells i := by
  rw [fill, List.getElem?_eq_none h, Option.getD_none]

theorem fill_concat (cells : Nat → BitVec d) (text : List (BitVec d)) (ch : BitVec d) :
    fill cells (text ++ [ch]) = Function.update (fill cells text) text.length ch := by
  funext i
  rcases lt_trichotomy i text.length with hlt | heq | hgt
  · rw [Function.update_of_ne hlt.ne, fill, fill, List.getElem?_append_left hlt]
  · rw [heq, Function.update_self, fill, List.getElem?_append_right le_rfl, Nat.sub_self]
    rfl
  · rw [Function.update_of_ne hgt.ne', fill_of_le _ hgt.le, fill_of_le]
    rw [List.length_append, List.length_singleton]
    exact hgt

theorem tracks_buffer (inputs : Inputs d) (room : Nat) (cells : Nat → BitVec d) :
    Tracks inputs (inputs.buffer room) room (fill cells) where
  fmt := fun _ _ _ _ h => h
  arg := fun _ _ _ _ _ h => h
  vector := fun _ _ _ _ _ h => h
  put := fun text ch h => (if_pos h).trans (congrArg some (fill_concat cells text ch).symm)
  full := fun text ch h => if_neg (by rw [h]; exact lt_irrefl room)
  float := rfl

variable {inputs : Inputs d} {fuel : Nat} {args : Int} {params : Int → Cell} {param : Int}
  {ps : List (Piece d)} {ending : Ending} {cells : Nat → BitVec d} {room n m : Nat}

theorem atcprintf_follows (room n : Nat) (cells : Nat → BitVec d)
    (hpieces : inputs.pieces args params fuel 0 param = some (ps, ending)) :
    Follows (fill cells) room n [] n ps ending
      ((inputs.buffer room).atcprintf fuel n args params param cells) :=
  (tracks_buffer inputs room cells).loop_follows args params n hpieces (Nat.zero_le room)

theorem withinInt_of_lt {llen : Nat} (h : llen < 2 ^ 31) : WithinInt ps llen := by
  induction ps generalizing llen with
  | nil => trivial
  | cons piece ps ih => exact Or.inr ⟨fun _ => h, ih (by omega)⟩

theorem WithinInt.mono (hle : n ≤ m) (h : WithinInt ps m) : WithinInt ps n := by
  induction ps generalizing n m with
  | nil => trivial
  | cons piece ps ih =>
      obtain hzero | ⟨hstring, hrest⟩ := h
      · exact Or.inl (by omega)
      · exact Or.inr ⟨fun hpiece => hle.trans_lt (hstring hpiece), ih (by omega) hrest⟩

def Holds (cells before : Nat → BitVec d) (text : List (BitVec d)) : Prop :=
  (∀ i, (h : i < text.length) → cells i = text[i]) ∧ cells text.length = 0 ∧
    ∀ i, text.length < i → cells i = before i

theorem holds_fill (cells : Nat → BitVec d) (text : List (BitVec d)) :
    Holds (fill cells (text ++ [0])) cells text := by
  refine ⟨fun i h => ?_, ?_, fun i h => ?_⟩
  · rw [fill, List.getElem?_append_left h, List.getElem?_eq_getElem h, Option.getD_some]
  · rw [fill, List.getElem?_append_right le_rfl, Nat.sub_self]
    rfl
  · rw [fill_of_le]
    rw [List.length_append, List.length_singleton]
    exact h

theorem atcprintf_done (cells : Nat → BitVec d)
    (hpieces : inputs.pieces args params fuel 0 param = some (ps, ending))
    (hwithin : WithinInt ps n) (hending : ending = .finished ∨ n ≤ (text ps).length)
    (hroom : n < room) :
    ∃ out param', (inputs.buffer room).atcprintf fuel n args params param cells =
        some (.done out ((text ps).take n).length param') ∧
      Holds out cells ((text ps).take n) := by
  have hlength : ((text ps).take n).length = n - (n - (text ps).length) := by
    rw [List.length_take]
    omega
  have hfits : ([] : List (BitVec d)).length + ((text ps).take n).length < room := by
    rw [List.length_nil, List.length_take]
    omega
  obtain ⟨param', hrun⟩ := (atcprintf_follows room n cells hpieces).finished hwithin hending hfits
  rw [List.nil_append, ← hlength] at hrun
  exact ⟨_, param', hrun, holds_fill cells _⟩

theorem atcprintf_error (cells : Nat → BitVec d)
    (hpieces : inputs.pieces args params fuel 0 param = some (ps, .failed))
    (hwithin : WithinInt ps n) (hlt : (text ps).length < n) (hroom : n < room) :
    (inputs.buffer room).atcprintf fuel n args params param cells =
      some (.error (fill cells (text ps))) := by
  have hrun := (atcprintf_follows room n cells hpieces).failed hwithin rfl hlt
  rwa [if_pos (by rw [List.length_nil]; omega), List.nil_append] at hrun

/-- Both limits give a text, with its terminator behind it and the cells beyond untouched, and
the shorter limit the beginning of the other's. -/
def Truncates (inputs : Inputs d) (fuel : Nat) (args : Int) (params : Int → Cell) (param : Int)
    (cells : Nat → BitVec d) (n m : Nat) : Prop :=
  ∃ long : List (BitVec d), long.length ≤ m ∧ ∀ limit ∈ [n, m], ∀ room, limit < room →
    ∃ out param', (inputs.buffer room).atcprintf fuel limit args params param cells =
        some (.done out (long.take limit).length param') ∧
      Holds out cells (long.take limit)

theorem atcprintf_truncates_iff (inputs : Inputs d) (fuel : Nat) (args : Int)
    (params : Int → Cell) (param : Int) (ps : List (Piece d)) (ending : Ending)
    (cells : Nat → BitVec d) (n m : Nat)
    (hpieces : inputs.pieces args params fuel 0 param = some (ps, ending))
    (hending : ending = .finished ∨ m ≤ (text ps).length) (hle : n ≤ m) :
    (Truncates inputs fuel args params param cells n m ↔ WithinInt ps m) ∧
      (m < 2 ^ 31 → WithinInt ps m) := by
  refine ⟨⟨fun ⟨long, hlong, hall⟩ => ?_, fun hwithin => ?_⟩, withinInt_of_lt⟩
  · by_contra hnot
    obtain ⟨out, param', hrun, _⟩ := hall m (by simp) (m + 1) (Nat.lt_succ_self m)
    rw [(atcprintf_follows (m + 1) m cells hpieces).beyond hnot] at hrun
    cases hrun
  · refine ⟨(text ps).take m, List.length_take_le m _, fun limit hlimit room hroom => ?_⟩
    have hlimit' : limit ≤ m := by
      simp only [List.mem_cons, List.not_mem_nil, or_false] at hlimit
      omega
    rw [List.take_take, min_eq_left hlimit']
    exact atcprintf_done cells hpieces (hwithin.mono hlimit') (hending.imp_right hlimit'.trans)
      hroom

end

/-- A format that lies in a list, and arguments that are all the string `ab`. -/
def sample (format : List Byte) : Inputs 32 where
  fmt := fun i => ((format ++ [0])[i]?).map (BitVec.setWidth 32)
  arg := fun _ i => ([97, 98, 0] : List Cell)[i]?
  vector := fun _ _ => none
  float := fun _ _ _ _ => []

theorem atcprintf_truncates_sample :
    Truncates (sample [37, 115]) 9 1 (fun _ => 0) 1 (fun _ => 7) 1 5 :=
  (atcprintf_truncates_iff (sample [37, 115]) 9 1 (fun _ => 0) 1 [⟨true, [97, 98]⟩] .finished
    (fun _ => 7) 1 5 (by decide +kernel) (Or.inl rfl) (by decide)).1.mpr
    (withinInt_of_lt (by decide))

/-- With a limit of -1 the size of a string is compared with a negative number. -/
theorem atcprintf_counts_with_a_sign :
    ¬ ∀ (inputs : Inputs 32) (fuel : Nat) (args : Int) (params : Int → Cell) (param : Int)
      (ps : List (Piece 32)) (cells : Nat → BitVec 32) (n m : Nat),
      inputs.pieces args params fuel 0 param = some (ps, .finished) → n ≤ m → m < 2 ^ 32 →
      Truncates inputs fuel args params param cells n m := by
  intro hall
  obtain ⟨long, _, hruns⟩ := hall (sample [37, 115]) 9 1 (fun _ => 0) 1 [⟨true, [97, 98]⟩]
    (fun _ => 7) 1 (2 ^ 32 - 1) (by decide +kernel) (by decide) (by decide)
  obtain ⟨out, param', hrun, _⟩ := hruns (2 ^ 32 - 1) (by simp) (2 ^ 32) (by decide)
  have hnone : (((sample [37, 115]).buffer (2 ^ 32)).atcprintf 9 (2 ^ 32 - 1) 1 (fun _ => 0) 1
      (fun _ => 7)).isNone = true := by decide +kernel
  rw [hrun] at hnone
  cases hnone

/-! Errors. -/

section

variable {d : Nat}

structure Terminated (cells before : Nat → BitVec d) (limit : Nat) : Prop where
  terminator : ∃ i, i ≤ limit ∧ cells i = 0
  beyond : ∀ i, limit < i → cells i = before i

theorem terminated_fill_iff {cells : Nat → BitVec d} {text : List (BitVec d)} {limit : Nat}
    (h : text.length < limit) :
    Terminated (fill cells text) cells limit ↔
      0 ∈ text ∨ ∃ i, text.length ≤ i ∧ i ≤ limit ∧ cells i = 0 := by
  constructor
  · intro ⟨⟨i, hi, hzero⟩, _⟩
    obtain hlt | hle := lt_or_ge i text.length
    · rw [fill_of_lt cells hlt] at hzero
      exact Or.inl (hzero ▸ List.getElem_mem hlt)
    · rw [fill_of_le cells hle] at hzero
      exact Or.inr ⟨i, hle, hi, hzero⟩
  · intro hcases
    refine ⟨?_, fun i hi => fill_of_le cells (by omega)⟩
    obtain hmem | ⟨i, hle, hi, hzero⟩ := hcases
    · obtain ⟨i, hlt, hzero⟩ := List.getElem_of_mem hmem
      exact ⟨i, by omega, (fill_of_lt cells hlt).trans hzero⟩
    · exact ⟨i, hi, (fill_of_le cells hle).trans hzero⟩

/-- An error leaves the text in front of it without a terminator. -/
theorem atcprintf_error_terminated_iff (inputs : Inputs d) (fuel : Nat) (args : Int)
    (params : Int → Cell) (param : Int) (ps : List (Piece d)) (ending : Ending)
    (cells out : Nat → BitVec d) (limit room : Nat)
    (hpieces : inputs.pieces args params fuel 0 param = some (ps, ending))
    (hroom : limit < room)
    (herror : (inputs.buffer room).atcprintf fuel limit args params param cells =
      some (.error out)) :
    Terminated out cells limit ↔
      0 ∈ text ps ∨ ∃ i, (text ps).length ≤ i ∧ i ≤ limit ∧ cells i = 0 := by
  have hwithin : WithinInt ps limit := by
    by_contra hnot
    rw [(atcprintf_follows room limit cells hpieces).beyond hnot] at herror
    cases herror
  by_cases hend : ending = .failed ∧ (text ps).length < limit
  · obtain ⟨rfl, hlt⟩ := hend
    rw [atcprintf_error cells hpieces hwithin hlt hroom] at herror
    cases herror
    exact terminated_fill_iff hlt
  · have hend' : ending = .finished ∨ limit ≤ (text ps).length := by
      cases ending with
      | finished => exact Or.inl rfl
      | failed => exact Or.inr (not_lt.mp fun hlt => hend ⟨rfl, hlt⟩)
    obtain ⟨out', param', hrun, _⟩ := atcprintf_done cells hpieces hwithin hend' hroom
    rw [herror] at hrun
    cases hrun

end

theorem atcprintf_error_terminated_sample :
    ∃ out, ((sample [97, 37, 115]).buffer 6).atcprintf 9 5 0 (fun _ => 0) 1 (fun _ => 0) =
        some (.error out) ∧
      Terminated out (fun _ => 0) 5 := by
  have hpieces : (sample [97, 37, 115]).pieces 0 (fun _ => 0) 9 0 1 =
      some ([⟨false, [97]⟩], .failed) := by decide +kernel
  have herror := atcprintf_error (fun _ => 0) hpieces
    (withinInt_of_lt (show 5 < 2 ^ 31 by decide)) (by decide) (show 5 < 6 by decide)
  refine ⟨_, herror, ?_⟩
  exact (atcprintf_error_terminated_iff _ 9 0 _ 1 _ .failed _ _ 5 6 hpieces (by decide)
    herror).mpr (Or.inr ⟨1, by decide, by decide, rfl⟩)

theorem atcprintf_error_unterminated :
    ¬ ∀ (inputs : Inputs 32) (fuel : Nat) (args : Int) (params : Int → Cell) (param : Int)
      (cells out : Nat → BitVec 32) (limit room : Nat), limit < room →
      (inputs.buffer room).atcprintf fuel limit args params param cells = some (.error out) →
      Terminated out cells limit := by
  intro hall
  have hpieces : (sample [97, 37, 115]).pieces 0 (fun _ => 0) 9 0 1 =
      some ([⟨false, [97]⟩], .failed) := by decide +kernel
  have herror := atcprintf_error (fun _ => 7) hpieces
    (withinInt_of_lt (show 5 < 2 ^ 31 by decide)) (by decide) (show 5 < 6 by decide)
  have hterminated := hall _ _ _ _ _ _ _ 5 6 (by decide) herror
  rw [terminated_fill_iff (by decide)] at hterminated
  obtain hmem | ⟨i, _, _, hzero⟩ := hterminated
  · exact absurd hmem (by decide)
  · exact absurd hzero (by decide)

/-! The natives that format into plugin memory, in place or through a static buffer. -/

/-- The memory behind `%a`, and the text of `%f`. -/
structure Host where
  vector : Cell → Nat → Option Cell
  float : Cell → Cell → Cell → Flags → List (BitVec 32)

structure Memories where
  data : Memory
  cpbuf : Nat → Cell

def cpbufSize : Nat := 4096

/-- Parameters as `params[0]` counts them. -/
structure Params where
  count : Int
  get : Int → Cell

structure Source where
  fmtOwner : Amx
  fmt : Cell
  owner : Amx
  params : Params
  param : Int

def Source.inputs (source : Source) (host : Host) (data : Memory) (hidden : Amx → Nat → Bool) :
    Inputs 32 where
  fmt := fun i =>
    let cell := cellNumber source.fmt + i
    if hidden source.fmtOwner cell then none else some (data source.fmtOwner cell)
  arg := fun address i =>
    let cell := cellNumber address + i
    if hidden source.owner cell then none else some (data source.owner cell)
  vector := host.vector
  float := host.float

def Source.snapshot (source : Source) (host : Host) (data : Memory) : Inputs 32 :=
  source.inputs host data fun _ _ => false

def Source.inPlace (source : Source) (host : Host) (amx : Amx) (dest : Cell) (maxlen : Nat) :
    Access Memory 32 where
  fmt := fun data i => some (data source.fmtOwner (cellNumber source.fmt + i))
  arg := fun data address i => some (data source.owner (cellNumber address + i))
  vector := fun _ => host.vector
  put := fun data i ch =>
    if i ≤ maxlen then some (data.store amx (cellNumber dest + i) [ch]) else none
  float := host.float

section

variable (host : Host) (fuel : Nat)

def formatInPlace (source : Source) (amx : Amx) (dest : Cell) (maxlen : Nat) (m : Memories) :
    Option (Nat × Memories) := do
  let result ← (source.inPlace host amx dest maxlen).atcprintf fuel maxlen source.params.count
    source.params.get source.param m.data
  match result with
  | .done data total _ => return (total, { m with data := data })
  | .error data => return (0, { m with data := data })

def formatCopy (source : Source) (amx : Amx) (dest : Cell) (maxlen : Nat) (m : Memories) :
    Option (Nat × Memories) := do
  let result ← ((source.snapshot host m.data).buffer cpbufSize).atcprintf fuel maxlen
    source.params.count source.params.get source.param m.cpbuf
  let (total, cpbuf) := match result with
    | .done cpbuf total _ => (total, cpbuf)
    | .error cpbuf => (0, cpbuf)
  let copied := (List.range (total + 1)).map cpbuf
  return (total, { data := m.data.store amx (cellNumber dest) copied, cpbuf := cpbuf })

/-- Does a parameter from `first` to `last` point between the two addresses? -/
def clips (get : Int → Cell) (first last : Int) (addrStart addrEnd : Cell) : Bool :=
  (List.range (last + 1 - first).toNat).any fun k =>
    addrStart.sle (get (first + k)) && (get (first + k)).sle addrEnd

def formatSource (amx : Amx) (params : Params) : Source :=
  ⟨amx, params.get 3, amx, params, 4⟩

def formatClips (params : Params) : Bool :=
  clips params.get 3 params.count (params.get 1) (params.get 1 + 4 * params.get 2)

def format (amx : Amx) (params : Params) (m : Memories) : Option (Nat × Memories) :=
  let source := formatSource amx params
  let dest := params.get 1
  let maxlen := (params.get 2).toNat
  if formatClips params then formatCopy host fuel source amx dest maxlen m
  else formatInPlace host fuel source amx dest maxlen m

def vformatSource (amx : Amx) (params parent : Params) : Source :=
  ⟨amx, params.get 3, amx, parent, (params.get 4).toInt⟩

def vformatClips (params parent : Params) : Bool :=
  clips parent.get (params.get 4).toInt parent.count (params.get 1) (params.get 1 + params.get 2)

/-- `vformat`, with the parameters of the function that calls it. -/
def vformat (amx : Amx) (params parent : Params) (m : Memories) : Option (Nat × Memories) :=
  let source := vformatSource amx params parent
  let dest := params.get 1
  let maxlen := (params.get 2).toNat
  if parent.count + 1 < (params.get 4).toInt then some (0, m)
  else if vformatClips params parent then formatCopy host fuel source amx dest maxlen m
  else formatInPlace host fuel source amx dest maxlen m

structure CurNative where
  amx : Amx
  style : Bool
  caller : Amx
  params : Params

def vdformatSource (amx : Amx) (params : Params) (native : CurNative) : Source :=
  if (params.get 3).toInt = 0 then
    ⟨amx, params.get 5, native.caller, native.params, (params.get 4).toInt⟩
  else
    ⟨native.caller, native.params.get (params.get 3).toInt, native.caller, native.params,
      (params.get 4).toInt⟩

/-- The ways in which `vdformat` gives up before it formats. -/
def vdformatRefuses (amx : Amx) (params : Params) : Option CurNative → Bool
  | none => true
  | some native =>
      native.amx != amx || native.style ||
        decide (native.params.count + 1 < (params.get 4).toInt) ||
        decide (native.params.count + 1 < (params.get 3).toInt) ||
        decide ((params.get 3).toInt = 0 ∧ params.count ≠ 5)

def vdformat (amx : Amx) (params : Params) (current : Option CurNative) (m : Memories) :
    Option (Nat × Memories) :=
  match current with
  | none => some (0, m)
  | some native =>
      if vdformatRefuses amx params (some native) then some (0, m)
      else
        formatCopy host fuel (vdformatSource amx params native) amx (params.get 1)
          (params.get 2).toNat m

end

end AmxModC.Format
