import AmxModC.Foundation.Block
import AmxModC.Foundation.Run
import Mathlib.Data.List.InsertIdx

namespace AmxModC.Util.Vector

open Foundation

/-! `CVector<T>` over `new` and `delete`. -/

variable {T : Type}

/-- What fits into a `size_t`. -/
def wrap (n : Nat) : Nat := n % 2 ^ 32

/-- `--n` -/
def decrement (n : Nat) : Nat := if n = 0 then 2 ^ 32 - 1 else n - 1

/-- What `new T[n]` has memory for, during an operation.  No array is larger than half of what
can be addressed. -/
structure Memory where
  grants : Nat → Bool
  fits : ∀ n, grants n → n < 2 ^ 31

/-- `new T[n]`; nothing was assigned yet to an element that is `none`. -/
def Memory.new (m : Memory) (n : Nat) : Option (List (Option T)) :=
  if m.grants n then some (List.replicate n none) else none

/-- `m_Data`, `m_Size` and `m_CurrentUsedSize` -/
structure CVector (T : Type) where
  data : Option (List (Option T))
  size : Nat
  used : Nat

namespace CVector

def empty : CVector T := ⟨none, 0, 0⟩

def cells (v : CVector T) : List (Option T) := v.data.getD []

/-- `while (m_CurrentUsedSize + amount > newSize) newSize *= 2;`.  A size is 0 after 32 turns, and
stays so. -/
def double (needed : Nat) : Nat → Nat → Option Nat
  | 0, _ => none
  | turns + 1, newSize =>
      if needed > newSize then double needed turns (wrap (newSize * 2)) else some newSize

/-- The first size that `Grow` takes. -/
def twice (v : CVector T) : Nat := if wrap (v.size * 2) = 0 then 8 else wrap (v.size * 2)

/-- The elements up to `last`, where there are elements. -/
def copied (v : CVector T) (last : Nat) (newData : List (Option T)) :
    Option (List (Option T)) :=
  match v.data with
  | none => some newData
  | some data => Block.copy data 0 last newData

/-- `Grow` -/
def grow (m : Memory) (v : CVector T) (amount : Nat) : Option (CVector T × Bool) := do
  let newSize ← double (wrap (v.used + amount)) 33 v.twice
  match m.new newSize with
  | none => some (v, false)
  | some newData => do
      let newData ← v.copied v.used newData
      some (⟨some newData, newSize, v.used⟩, true)

/-- `GrowIfNeeded` -/
def growIfNeeded (m : Memory) (v : CVector T) (amount : Nat) : Option (CVector T × Bool) :=
  if wrap (v.used + amount) ≥ v.size then v.grow m amount else some (v, true)

/-- `ChangeSize` -/
def changeSize (m : Memory) (v : CVector T) (size : Nat) : Option (CVector T × Bool) :=
  if size = v.size then some (v, true)
  else if size = 0 then
    match v.data with
    | none => some (v, true)
    | some _ => some ({ v with data := none, size := 0 }, true)
  else
    match m.new size with
    | none => some (v, false)
    | some newData => do
        let newData ← v.copied (if v.used < size then v.used else size) newData
        some (⟨some newData, size, if v.used > size then size else v.used⟩, true)

/-- `while (m_CurrentUsedSize <= newSize / 2) newSize /= 2;`, which a used size above 0 ends
within 32 turns. -/
def halve (used : Nat) : Nat → Nat → Option Nat
  | 0, _ => none
  | turns + 1, newSize =>
      if used ≤ newSize / 2 then halve used turns (newSize / 2) else some newSize

/-- `FreeMemIfPossible` -/
def freeMemIfPossible (m : Memory) (v : CVector T) : Option (CVector T) :=
  match v.data with
  | none => some v
  | some _ =>
      if v.used = 0 then (v.changeSize m 0).map Prod.fst
      else do
        let newSize ← halve v.used 33 v.size
        if newSize ≠ v.size then (v.changeSize m newSize).map Prod.fst else some v

def reserve (m : Memory) (v : CVector T) (newSize : Nat) : Option (CVector T × Bool) :=
  if newSize > v.size then v.changeSize m newSize else some (v, true)

def pushBack (m : Memory) (v : CVector T) (elem : T) : Option (CVector T × Bool) := do
  let (v, grown) ← v.growIfNeeded m 1
  if grown then
    let data ← v.data
    let data ← Block.write data v.used [some elem]
    some (⟨some data, v.size, wrap (v.used + 1)⟩, true)
  else some (v, false)

def popBack (m : Memory) (v : CVector T) : Option (CVector T) :=
  { v with used := decrement v.used }.freeMemIfPossible m

/-- How far `m_Data + m_CurrentUsedSize` is behind `m_Data`, if that is no further than the
elements. -/
def theend (v : CVector T) : Option Nat := if v.used ≤ v.cells.length then some v.used else none

/-- `insert` at an offset to `m_Data`; `false` where `iterator(0)` is returned. -/
def insert (m : Memory) (v : CVector T) (place : Int) (value : T) :
    Option (CVector T × Bool) := do
  let last ← v.theend
  if place < 0 ∨ place > last then some (v, false)
  else
    let ofs := place.toNat
    let (v, grown) ← v.growIfNeeded m 1
    if grown then
      let used := wrap (v.used + 1)
      let data ← v.data
      -- from `used - 2` down to the place
      let data ← Block.moveUp data ofs (used - 1 - ofs)
      let data ← Block.write data ofs [some value]
      some (⟨some data, v.size, used⟩, true)
    else some (v, false)

/-- `erase` at an offset to `m_Data`; `false` where `iterator(0)` is returned. -/
def erase (m : Memory) (v : CVector T) (place : Int) : Option (CVector T × Bool) := do
  let last ← v.theend
  if place < 0 ∨ place ≥ last then some (v, false)
  else
    let ofs := place.toNat
    let data ← v.data
    let data ← if v.used > 1 then Block.moveDown data (ofs + 1) (last - (ofs + 1)) else some data
    let v ← CVector.freeMemIfPossible m ⟨some data, v.size, decrement v.used⟩
    some (v, true)

def clear (_ : CVector T) : CVector T := ⟨none, 0, 0⟩

end CVector

inductive Op (T : Type)
  | pushBack (elem : T)
  | popBack
  | reserve (newSize : Nat)
  | insert (place : Int) (value : T)
  | erase (place : Int)
  | clear

structure Call (T : Type) where
  op : Op T
  memory : Memory

def perform (v : CVector T) (call : Call T) : Option (CVector T × Bool) :=
  match call.op with
  | .pushBack elem => v.pushBack call.memory elem
  | .popBack => (v.popBack call.memory).map (·, true)
  | .reserve newSize => v.reserve call.memory newSize
  | .insert place value => v.insert call.memory place value
  | .erase place => v.erase call.memory place
  | .clear => some (v.clear, true)

def step (v : CVector T) (call : Call T) : Option (CVector T) := (perform v call).map Prod.fst

namespace Op

def Valid (l : List T) : Op T → Prop
  | insert place _ => 0 ≤ place ∧ place ≤ l.length
  | erase place => 0 ≤ place ∧ place < l.length
  | _ => True

def apply (l : List T) : Op T → List T
  | pushBack elem => l ++ [elem]
  | popBack => l.dropLast
  | reserve _ => l
  | insert place value => l.insertIdx place.toNat value
  | erase place => l.eraseIdx place.toNat
  | clear => []

def asks (v : CVector T) : Op T → Nat
  | reserve newSize => newSize
  | _ => if v.size = 0 then 8 else v.size * 2

end Op

structure Holds (v : CVector T) (l : List T) : Prop where
  used : v.used = l.length
  size : v.size = v.cells.length
  used_le : v.used ≤ v.size
  written : l.map some <+: v.cells
  fits : v.size < 2 ^ 31

/-- After each call the vector has the elements of the list.  A call that fails was for no place
of the list, or for more memory than there was. -/
def Follows : CVector T → List T → List (Call T) → Prop
  | v, l, [] => Holds v l
  | v, l, call :: rest =>
      Holds v l ∧ ∃ v' done, perform v call = some (v', done) ∧
        (done = false → ¬ call.op.Valid l ∨ call.memory.grants (call.op.asks v) = false) ∧
        Follows v' (if done then call.op.apply l else l) rest

section

variable {v : CVector T} {l : List T} {m : Memory} {data : List (Option T)}

theorem written_iff {cells : List (Option T)} :
    l.map some <+: cells ↔ ∀ i < l.length, cells[i]? = some l[i]? := by
  rw [List.prefix_iff_getElem?]
  constructor
  · intro h i hi
    rw [h i (by rwa [List.length_map]), List.getElem_map, List.getElem?_eq_getElem hi]
  · intro h i hi
    rw [List.length_map] at hi
    rw [h i hi, List.getElem_map, List.getElem?_eq_getElem hi]

theorem holds_empty : Holds (.empty : CVector T) [] :=
  ⟨rfl, rfl, Nat.le_refl _, List.nil_prefix, Nat.two_pow_pos 31⟩

theorem Holds.of_data {size : Nat} (hlength : data.length = size) (hle : l.length ≤ size)
    (hwritten : ∀ i < l.length, data[i]? = some l[i]?) (hfits : size < 2 ^ 31) :
    Holds ⟨some data, size, l.length⟩ l :=
  ⟨rfl, hlength.symm, hle, written_iff.mpr hwritten, hfits⟩

theorem Holds.length_le (h : Holds v l) : l.length ≤ v.size := h.used ▸ h.used_le

theorem Holds.get (h : Holds v l) : ∀ i < l.length, v.cells[i]? = some l[i]? :=
  written_iff.mp h.written

theorem Holds.exists_data (h : Holds v l) (hsize : 0 < v.size) : v.data = some v.cells := by
  have hcells := h.size
  unfold CVector.cells at hcells ⊢
  cases hdata : v.data with
  | none =>
      rw [hdata] at hcells
      exact absurd hcells (Nat.ne_of_gt hsize)
  | some data => rfl

theorem length_new {n : Nat} (h : m.new n = some data) : data.length = n := by
  unfold Memory.new at h
  split at h
  · obtain rfl := Option.some.inj h
    exact List.length_replicate
  · cases h

theorem fits_of_new {n : Nat} (h : m.new n = some data) : n < 2 ^ 31 := by
  unfold Memory.new at h
  split at h
  · exact m.fits n ‹_›
  · cases h

theorem grants_of_new {n : Nat} (h : (m.new n : Option (List (Option T))) = none) :
    m.grants n = false := by
  unfold Memory.new at h
  split at h
  · cases h
  · exact Bool.eq_false_of_not_eq_true ‹_›

theorem Holds.exists_copied (h : Holds v l) (data : List (Option T))
    (hle : l.length ≤ data.length) :
    ∃ data', v.copied l.length data = some data' ∧ data'.length = data.length ∧
      ∀ i < l.length, data'[i]? = some l[i]? := by
  rw [CVector.copied]
  have hlength := h.length_le
  have hsize := h.size
  have hget := h.get
  unfold CVector.cells at hsize hget
  cases hdata : v.data with
  | none =>
      rw [hdata] at hsize
      refine ⟨data, rfl, rfl, fun i hi => ?_⟩
      rw [hsize] at hlength
      exact absurd (hi.trans_le hlength) (Nat.not_lt_zero i)
  | some cells =>
      rw [hdata] at hsize hget
      rw [Option.getD_some] at hsize hget
      obtain ⟨data', hcopy, hlength', hcopied⟩ :=
        Block.exists_copy cells data 0 l.length (by omega) (by omega)
      refine ⟨data', hcopy, hlength', fun i hi => ?_⟩
      rw [hcopied, if_pos ⟨Nat.zero_le i, by omega⟩, hget i hi]

theorem Holds.exists_moved (h : Holds v l) {size : Nat} (hnew : m.new size = some data)
    (hle : l.length ≤ size) :
    ∃ data', v.copied l.length data = some data' ∧ Holds ⟨some data', size, l.length⟩ l := by
  have hlength := length_new hnew
  obtain ⟨data', hcopied, hlength', hget⟩ := h.exists_copied data (by omega)
  exact ⟨data', hcopied, .of_data (hlength'.trans hlength) hle hget (fits_of_new hnew)⟩

theorem Holds.room (h : Holds v l) (hroom : l.length < v.size) :
    v.data = some v.cells ∧ l.length < v.cells.length :=
  ⟨h.exists_data (Nat.zero_lt_of_lt hroom), h.size ▸ hroom⟩

/-! Growing and shrinking. -/

theorem Holds.twice_eq (h : Holds v l) :
    v.twice = if v.size = 0 then 8 else v.size * 2 := by
  have hfits := h.fits
  unfold CVector.twice wrap
  rw [Nat.mod_eq_of_lt (by omega)]
  split <;> split <;> omega

theorem Holds.wrap_used (h : Holds v l) : wrap (v.used + 1) = l.length + 1 := by
  have hfits := h.fits
  have hle := h.length_le
  rw [h.used, wrap, Nat.mod_eq_of_lt (by omega)]

theorem Holds.growIfNeeded (h : Holds v l) (m : Memory) :
    (v.growIfNeeded m 1 = some (v, false) ∧
        m.grants (if v.size = 0 then 8 else v.size * 2) = false) ∨
      ∃ v', v.growIfNeeded m 1 = some (v', true) ∧ Holds v' l ∧ l.length < v'.size := by
  have hle := h.length_le
  rw [CVector.growIfNeeded, h.wrap_used]
  by_cases hgrow : l.length + 1 ≥ v.size
  · rw [if_pos hgrow, CVector.grow, h.wrap_used, h.twice_eq]
    generalize hnew : (if v.size = 0 then 8 else v.size * 2) = newSize
    have hroom : l.length + 1 ≤ newSize := by
      rw [← hnew]
      split <;> omega
    have hdouble : CVector.double (l.length + 1) 33 newSize = some newSize :=
      if_neg (Nat.not_lt.mpr hroom)
    rw [hdouble]
    cases hdata : (m.new newSize : Option (List (Option T))) with
    | none => exact .inl ⟨by simp [hdata], grants_of_new hdata⟩
    | some data =>
        obtain ⟨data', hcopied, hholds⟩ := h.exists_moved hdata (Nat.le_of_succ_le hroom)
        refine .inr ⟨⟨some data', newSize, l.length⟩, ?_, hholds, hroom⟩
        simp [hdata, h.used, hcopied]
  · rw [if_neg hgrow]
    exact .inr ⟨v, rfl, h, by omega⟩

theorem Holds.changeSize (h : Holds v l) (m : Memory) {size : Nat} (hle : l.length ≤ size) :
    ∃ v' done, v.changeSize m size = some (v', done) ∧ Holds v' l ∧
      (done = false → m.grants size = false) := by
  rw [CVector.changeSize]
  by_cases hsame : size = v.size
  · rw [if_pos hsame]
    exact ⟨v, true, rfl, h, fun hdone => by cases hdone⟩
  rw [if_neg hsame]
  by_cases hzero : size = 0
  · rw [if_pos hzero]
    cases hdata : v.data with
    | none => exact ⟨v, true, rfl, h, fun hdone => by cases hdone⟩
    | some data =>
        refine ⟨_, true, rfl, ?_, fun hdone => by cases hdone⟩
        obtain rfl := List.length_eq_zero_iff.mp (Nat.le_zero.mp (hzero ▸ hle))
        exact ⟨h.used, rfl, h.used.le, List.nil_prefix, Nat.two_pow_pos 31⟩
  rw [if_neg hzero]
  cases hdata : (m.new size : Option (List (Option T))) with
  | none => exact ⟨v, false, by simp, h, fun _ => grants_of_new hdata⟩
  | some data =>
      obtain ⟨data', hcopied, hholds⟩ := h.exists_moved hdata hle
      have hend : (if v.used < size then v.used else size) = l.length := by
        rw [h.used]
        split <;> omega
      have hused : (if v.used > size then size else v.used) = l.length := by
        rw [h.used]
        split <;> omega
      refine ⟨⟨some data', size, l.length⟩, true, ?_, hholds, fun hdone => by cases hdone⟩
      simp [hend, hused, hcopied]

theorem exists_halve (turns : Nat) {used newSize : Nat} (hused : 0 < used) (hle : used ≤ newSize)
    (hturns : newSize < 2 ^ turns) :
    ∃ size, CVector.halve used (turns + 1) newSize = some size ∧ used ≤ size := by
  induction turns generalizing newSize with
  | zero => omega
  | succ turns ih =>
      rw [CVector.halve]
      split
      · exact ih ‹_› (by rw [Nat.pow_succ] at hturns; omega)
      · exact ⟨newSize, rfl, hle⟩

theorem Holds.freeMemIfPossible (h : Holds v l) (m : Memory) :
    ∃ v', v.freeMemIfPossible m = some v' ∧ Holds v' l := by
  rw [CVector.freeMemIfPossible]
  cases hdata : v.data with
  | none => exact ⟨v, rfl, h⟩
  | some data =>
      by_cases hzero : v.used = 0
      · have hle : l.length ≤ 0 := by rw [← h.used, hzero]
        obtain ⟨v', done, hchange, hholds, -⟩ := h.changeSize m hle
        refine ⟨v', ?_, hholds⟩
        simp [hzero, hchange]
      · have hfits := h.fits
        obtain ⟨size, hhalve, hle⟩ :=
          exists_halve 32 (Nat.pos_of_ne_zero hzero) h.used_le (by omega)
        rw [h.used] at hle
        obtain ⟨v', done, hchange, hholds, -⟩ := h.changeSize m hle
        by_cases hsame : size = v.size
        · exact ⟨v, by simp [hzero, hhalve, hsame], h⟩
        · exact ⟨v', by simp [hzero, hhalve, hsame, hchange], hholds⟩

/-! The operations. -/

/-- One step of `Follows`. -/
def Does (v : CVector T) (l : List T) (call : Call T) : Prop :=
  ∃ v' done, perform v call = some (v', done) ∧
    (done = false → ¬ call.op.Valid l ∨ call.memory.grants (call.op.asks v) = false) ∧
    Holds v' (if done then call.op.apply l else l)

theorem Does.done {call : Call T} (v' : CVector T) (hperform : perform v call = some (v', true))
    (hholds : Holds v' (call.op.apply l)) : Does v l call :=
  ⟨v', true, hperform, fun hfalse => Bool.noConfusion hfalse, hholds⟩

theorem Does.failed {call : Call T} (h : Holds v l) (hperform : perform v call = some (v, false))
    (hwhy : ¬ call.op.Valid l ∨ call.memory.grants (call.op.asks v) = false) : Does v l call :=
  ⟨v, false, hperform, fun _ => hwhy, h⟩

theorem Holds.does_pushBack (h : Holds v l) (elem : T) : Does v l ⟨.pushBack elem, m⟩ := by
  rcases h.growIfNeeded m with ⟨hgrow, hrefused⟩ | ⟨v', hgrow, hholds, hroom⟩
  · refine .failed h ?_ (.inr hrefused)
    simp [perform, CVector.pushBack, hgrow]
  · obtain ⟨hdata, hlength⟩ := hholds.room hroom
    obtain ⟨data, hwrite, hsame, hget⟩ := Block.exists_write_cell (some elem) hlength
    have hused : (l ++ [elem]).length = l.length + 1 := List.length_append
    have hwrap := hholds.wrap_used
    rw [hholds.used] at hwrap
    refine .done ⟨some data, v'.size, (l ++ [elem]).length⟩ ?_ ?_
    · simp [perform, CVector.pushBack, hgrow, hdata, hholds.used, hwrite, hwrap]
    · refine .of_data (hsame.trans hholds.size.symm) (by omega) (fun i hi => ?_) hholds.fits
      rw [hget]
      by_cases hlast : i = l.length
      · subst hlast
        simp
      · rw [if_neg hlast, List.getElem?_append_left (by omega)]
        exact hholds.get i (by omega)

theorem Holds.decrement_used (h : Holds v l) (hl : l ≠ []) :
    decrement v.used = l.length - 1 := by
  rw [h.used, decrement, if_neg (Nat.ne_of_gt (List.length_pos_iff.mpr hl))]

theorem Holds.does_popBack (h : Holds v l) (hl : l ≠ []) : Does v l ⟨.popBack, m⟩ := by
  have hle := h.length_le
  have hshort : Holds { v with used := decrement v.used } l.dropLast := by
    rw [h.decrement_used hl]
    refine ⟨List.length_dropLast.symm, h.size, by simp only; omega, ?_, h.fits⟩
    exact ((List.dropLast_prefix l).map some).trans h.written
  obtain ⟨v', hfree, hholds⟩ := hshort.freeMemIfPossible m
  refine .done v' ?_ hholds
  rw [perform, CVector.popBack, hfree, Option.map_some]

theorem Holds.does_reserve (h : Holds v l) (newSize : Nat) : Does v l ⟨.reserve newSize, m⟩ := by
  have hle := h.length_le
  by_cases hmore : newSize > v.size
  · obtain ⟨v', done, hchange, hholds, hrefused⟩ :=
      h.changeSize m (show l.length ≤ newSize by omega)
    refine ⟨v', done, ?_, fun hdone => .inr (hrefused hdone), ?_⟩
    · simp [perform, CVector.reserve, hmore, hchange]
    · cases done <;> exact hholds
  · refine .done v ?_ h
    simp [perform, CVector.reserve, hmore]

theorem Holds.theend_eq (h : Holds v l) : v.theend = some l.length := by
  have hle := h.used_le
  rw [CVector.theend, if_pos (h.size ▸ hle), h.used]

theorem getElem?_insertIdx_of_le {ofs : Nat} (hofs : ofs ≤ l.length) (value : T) (i : Nat) :
    (l.insertIdx ofs value)[i]? =
      if i < ofs then l[i]? else if i = ofs then some value else l[i - 1]? := by
  rw [List.getElem?_insertIdx]
  refine if_congr Iff.rfl rfl (if_ctx_congr Iff.rfl (fun heq => ?_) fun _ => rfl)
  exact if_pos (heq ▸ hofs)

theorem Holds.exists_inserted (h : Holds v l) (hroom : l.length < v.size) {ofs : Nat}
    (hofs : ofs ≤ l.length) (value : T) :
    ∃ moved data, Block.moveUp v.cells ofs (l.length - ofs) = some moved ∧
      Block.write moved ofs [some value] = some data ∧
      Holds ⟨some data, v.size, l.length + 1⟩ (l.insertIdx ofs value) := by
  have hlength := (h.room hroom).2
  obtain ⟨moved, hmove, hsame, hmoved⟩ :=
    Block.exists_moveUp (show ofs + (l.length - ofs) < v.cells.length by omega)
  obtain ⟨data, hwrite, hsame', hget⟩ :=
    Block.exists_write_cell (some value) (show ofs < moved.length by omega)
  have hused : (l.insertIdx ofs value).length = l.length + 1 :=
    List.length_insertIdx_of_le_length hofs value
  refine ⟨moved, data, hmove, hwrite, ?_⟩
  rw [← hused]
  refine .of_data (by rw [hsame', hsame, h.size]) (by omega) (fun i hi => ?_) h.fits
  rw [hget, hmoved]
  rw [getElem?_insertIdx_of_le hofs]
  rcases Nat.lt_trichotomy i ofs with hlt | rfl | hgt
  · rw [if_neg (by omega), if_neg (by omega), if_pos hlt, h.get i (by omega)]
  · rw [if_pos rfl, if_neg (Nat.lt_irrefl i), if_pos rfl]
  · rw [if_neg (by omega), if_pos ⟨hgt, by omega⟩, if_neg (by omega), if_neg (by omega),
      h.get (i - 1) (by omega)]

theorem Holds.does_insert (h : Holds v l) (place : Int) (value : T) :
    Does v l ⟨.insert place value, m⟩ := by
  by_cases hplace : place < 0 ∨ place > l.length
  · refine .failed h ?_ (.inl fun hvalid => ?_)
    · simp [perform, CVector.insert, h.theend_eq, hplace]
    · obtain ⟨hlow, hhigh⟩ := hvalid
      omega
  obtain ⟨ofs, rfl⟩ : ∃ ofs : Nat, place = ofs := ⟨place.toNat, by omega⟩
  have hofs : ofs ≤ l.length := by omega
  rcases h.growIfNeeded m with ⟨hgrow, hrefused⟩ | ⟨v', hgrow, hholds, hroom⟩
  · refine .failed h ?_ (.inr hrefused)
    simp [perform, CVector.insert, h.theend_eq, hgrow]
  · have hdata := (hholds.room hroom).1
    obtain ⟨moved, data, hmove, hwrite, hinserted⟩ := hholds.exists_inserted hroom hofs value
    refine .done ⟨some data, v'.size, l.length + 1⟩ ?_ hinserted
    simp [perform, CVector.insert, h.theend_eq, hofs, hgrow, hdata, hholds.wrap_used, hmove, hwrite]

theorem Holds.exists_erased (h : Holds v l) {ofs : Nat} (hofs : ofs < l.length) :
    ∃ data, (if v.used > 1 then Block.moveDown v.cells (ofs + 1) (l.length - (ofs + 1))
      else some v.cells) = some data ∧
      Holds ⟨some data, v.size, decrement v.used⟩ (l.eraseIdx ofs) := by
  have hle := h.length_le
  have hsize := h.size
  have hshorter : (l.eraseIdx ofs).length = l.length - 1 := List.length_eraseIdx_of_lt hofs
  obtain ⟨data, hmove, hsame, hmoved⟩ := Block.exists_moveDown (Nat.succ_pos ofs)
    (show ofs + 1 + (l.length - (ofs + 1)) ≤ v.cells.length by omega)
  refine ⟨data, ?_, ?_⟩
  · rw [h.used]
    split
    · exact hmove
    · -- the loop has no turn for the only element
      have hturns : l.length - (ofs + 1) = 0 := by omega
      rwa [hturns] at hmove
  · rw [h.decrement_used (List.length_pos_iff.mp (Nat.zero_lt_of_lt hofs)), ← hshorter]
    refine .of_data (hsame.trans hsize.symm) (by omega) (fun i hi => ?_) h.fits
    rw [hmoved, List.getElem?_eraseIdx]
    by_cases hlow : i < ofs
    · rw [if_neg (by omega), if_pos hlow, h.get i (by omega)]
    · rw [if_pos ⟨by omega, by omega⟩, if_neg hlow, h.get (i + 1) (by omega)]

theorem Holds.does_erase (h : Holds v l) (place : Int) : Does v l ⟨.erase place, m⟩ := by
  by_cases hplace : place < 0 ∨ place ≥ l.length
  · refine .failed h ?_ (.inl fun hvalid => ?_)
    · simp [perform, CVector.erase, h.theend_eq, hplace]
    · obtain ⟨hlow, hhigh⟩ := hvalid
      omega
  obtain ⟨ofs, rfl⟩ : ∃ ofs : Nat, place = ofs := ⟨place.toNat, by omega⟩
  have hofs : ofs < l.length := by omega
  have hdata := h.exists_data (Nat.zero_lt_of_lt (hofs.trans_le h.length_le))
  obtain ⟨data, hloop, herased⟩ := h.exists_erased hofs
  obtain ⟨v', hfree, hholds⟩ := herased.freeMemIfPossible m
  refine .done v' ?_ hholds
  have hinside : ¬ ((ofs : Int) < 0 ∨ l.length ≤ ofs) := by omega
  by_cases hmore : v.used > 1
  · rw [if_pos hmore] at hloop
    simp [perform, CVector.erase, h.theend_eq, hinside, hdata, hmore, hloop, hfree]
  · rw [if_neg hmore] at hloop
    obtain rfl := Option.some.inj hloop
    simp [perform, CVector.erase, h.theend_eq, hinside, hdata, hmore, hfree]

theorem Holds.does (h : Holds v l) (call : Call T) (hpop : call.op = .popBack → l ≠ []) :
    Does v l call := by
  obtain ⟨op, m⟩ := call
  cases op with
  | pushBack elem => exact h.does_pushBack elem
  | popBack => exact h.does_popBack (hpop rfl)
  | reserve newSize => exact h.does_reserve newSize
  | insert place value => exact h.does_insert place value
  | erase place => exact h.does_erase place
  | clear => exact .done .empty rfl holds_empty

theorem two_pow_le_decrement_zero : 2 ^ 31 ≤ decrement 0 := by decide

theorem Holds.popBack_nil (h : Holds v []) (m : Memory) :
    perform v ⟨.popBack, m⟩ = some ({ v with used := decrement 0 }, true) := by
  have hzero : v.used = 0 := h.used
  have hfits := h.fits
  have hbig := two_pow_le_decrement_zero
  rw [perform, CVector.popBack, hzero]
  generalize decrement 0 = used at hbig ⊢
  have hfree : CVector.freeMemIfPossible m { v with used := used } =
      some { v with used := used } := by
    rw [CVector.freeMemIfPossible]
    cases hdata : v.data with
    | none => rfl
    | some data =>
        have hhalve : CVector.halve used 33 v.size = some v.size := if_neg (by omega)
        have hused : used ≠ 0 := by omega
        simp [hused, hhalve]
  rw [hfree, Option.map_some]

end

theorem not_holds_wrapped {v : CVector T} : ¬ Holds { v with used := decrement 0 } [] := by
  intro h
  have hused : decrement 0 = 0 := h.used
  have hbig := two_pow_le_decrement_zero
  omega

theorem Follows.holds {v : CVector T} {l : List T} {calls : List (Call T)}
    (h : Follows v l calls) : Holds v l := by
  cases calls with
  | nil => exact h
  | cons call rest => exact h.1

theorem follows_of_holds {v : CVector T} {l : List T} (h : Holds v l) (calls : List (Call T)) :
    Follows v l calls ↔ Meets step (fun v call => call.op = .popBack → v.used ≠ 0) v calls := by
  induction calls generalizing v l with
  | nil => exact iff_of_true h trivial
  | cons call rest ih =>
      by_cases hpop : call.op = .popBack ∧ l = []
      · obtain ⟨hop, rfl⟩ := hpop
        refine iff_of_false ?_ fun hmeets => hmeets.1 hop h.used
        rintro ⟨-, v', done, hperform, -, hfollows⟩
        obtain ⟨op, m⟩ := call
        cases hop
        rw [h.popBack_nil m] at hperform
        cases hperform
        exact not_holds_wrapped hfollows.holds
      · have hne : call.op = .popBack → l ≠ [] := fun hop hnil => hpop ⟨hop, hnil⟩
        obtain ⟨v', done, hperform, hwhy, hholds⟩ := h.does call hne
        have hstep : step v call = some v' := by rw [step, hperform, Option.map_some]
        have hused : call.op = .popBack → v.used ≠ 0 := fun hop hzero =>
          hne hop (List.length_eq_zero_iff.mp (h.used ▸ hzero))
        constructor
        · rintro ⟨-, v'', done', hperform', -, hfollows⟩
          obtain ⟨rfl, rfl⟩ := Prod.mk.inj (Option.some.inj (hperform.symm.trans hperform'))
          exact .cons hused hstep ((ih hholds).mp hfollows)
        · intro hmeets
          exact ⟨h, v', done, hperform, hwhy, (ih hholds).mpr (hmeets.2 v' hstep)⟩

/-- A vector refines a list as long as nothing is popped from an empty one. -/
theorem follows_iff (calls : List (Call T)) :
    Follows .empty [] calls ↔
      Meets step (fun v call => call.op = .popBack → v.used ≠ 0) .empty calls :=
  follows_of_holds holds_empty calls

def plenty : Memory := ⟨fun n => n < 2 ^ 31, fun _ h => of_decide_eq_true h⟩

/-- The first call of all. -/
theorem not_follows_popBack : ¬ Follows (.empty : CVector Nat) [] [⟨.popBack, plenty⟩] := by
  intro h
  exact ((follows_of_holds holds_empty _).mp h).1 rfl rfl

end AmxModC.Util.Vector
