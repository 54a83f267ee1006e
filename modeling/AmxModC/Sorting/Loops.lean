import AmxModC.Foundation.Sorting
import Mathlib.Data.BitVec
import Mathlib.Tactic.Common

namespace AmxModC.Sorting

open Foundation

section

/-! Sorting the rows of a two-dimensional array, which are reached through distances from the
cells of its first dimension. Addresses count cells where nothing else is said; a distance counts
bytes. `none` is an access outside of the memory of the plugin. -/

abbrev Memory := List Int

namespace Memory

variable (m : Memory)

def cell (address : Int) : Option Int := if 0 ≤ address then m[address.toNat]? else none

def write (address : Nat) (value : Int) : Option Memory :=
  if address < m.length then some (m.set address value) else none

def stringFrom (address : Int) : Option (List Int) :=
  if 0 ≤ address ∧ address % 4 = 0 then some (m.drop (address / 4).toNat) else none

/-- The array of `qsort` in the memory. -/
def store (array : Nat) (current : List Int) (m : Memory) : Memory :=
  m.take array ++ current ++ m.drop (array + current.length)

def vector (array size : Nat) : List Int := (m.drop array).take size

end Memory

structure Plugin where
  memory : Memory
  hea : Nat
  stk : Nat

namespace Plugin

variable (s : Plugin)

def stkMargin : Int := 16

/-- `amx_Allot` compares without sign, so that too little room counts as more than enough. -/
def Allots (cells : Nat) : Prop :=
  ¬(0 ≤ (s.stk : Int) - s.hea - cells ∧ (s.stk : Int) - s.hea - cells < stkMargin)

instance (cells : Nat) : Decidable (s.Allots cells) := inferInstanceAs (Decidable (¬_))

def allot (cells : Nat) : Plugin := { s with hea := s.hea + cells }

def release (address : Nat) : Plugin := if s.hea > address then { s with hea := address } else s

end Plugin

/-! What the natives share. -/

def loop (body : Nat → Memory → Option Memory) (size : Nat) (m : Memory) : Option Memory :=
  (List.range size).foldlM (fun m i => body i m) m

def backUp (array remap : Nat) (i : Nat) (m : Memory) : Option Memory := do
  let offset ← m[array + i]?
  let m ← m.write (remap + i) offset
  m.write (array + i) i

def fixUp (array remap : Nat) (i : Nat) (m : Memory) : Option Memory := do
  let index ← m[array + i]?
  let offset ← m.cell (remap + index)
  m.write (array + i) (4 * (array + index) + offset - 4 * (array + i))

/-- What a native does between `amx_Allot` and `amx_Release`. -/
def arrange (qsort : List Int → Sorting Int) (array remap size : Nat)
    (cmp : Int → Int → Memory → Option (Int × Memory)) (m : Memory) : Option Memory := do
  let m ← loop (backUp array remap) size m
  let m ← (qsort (m.vector array size)).perform (Memory.store array) cmp m
  loop (fixUp array remap) size m

/-! `SortStrings`. -/

def differ : List Int → List Int → Option (Int × Int)
  | c1 :: str1, c2 :: str2 =>
      if c1 = c2 then if c1 = 0 then some (0, 0) else differ str1 str2 else some (c1, c2)
  | _, _ => none

/-- The string that a `reloc` stands for. -/
def stringAt (array remap : Nat) (reloc : Int) (m : Memory) : Option (List Int) := do
  let offset ← m.cell (remap + reloc)
  m.stringFrom (4 * (array + reloc) + offset)

def sortStringsBy (array remap : Nat) (answer : Int → Int → Int) (reloc1 reloc2 : Int) (m : Memory) :
    Option (Int × Memory) := do
  let str1 ← stringAt array remap reloc1 m
  let str2 ← stringAt array remap reloc2 m
  let (c1, c2) ← differ str1 str2
  return (answer c1 c2, m)

def sortStringsAsc (array remap : Nat) : Int → Int → Memory → Option (Int × Memory) :=
  sortStringsBy array remap fun c1 c2 => (c1 - c2).bmod (2 ^ 32)

def sortStringsDesc (array remap : Nat) : Int → Int → Memory → Option (Int × Memory) :=
  sortStringsBy array remap fun c1 c2 => (c2 - c1).bmod (2 ^ 32)

def sortStrings (qsort : List Int → Sorting Int) (s : Plugin) (array size : Nat) (type : Int) :
    Option (Int × Plugin) :=
  if s.Allots size then do
    let cmp := if type = 0 then sortStringsAsc array s.hea else sortStringsDesc array s.hea
    let memory ← arrange qsort array s.hea size cmp s.memory
    return (1, { s.allot size with memory }.release s.hea)
  else some (0, s)

/-! `SortCustom2D`. -/

abbrev Callback := Int → Int → Int → Int → Int → Memory → Int × Memory

structure Data where
  addr : Int
  size : Int

def sort2dAmxCustom (callback : Callback) (array remap : Nat) (data : Data) (c1 c2 : Int)
    (m : Memory) : Option (Int × Memory) := do
  let offset1 ← m.cell (remap + c1)
  let offset2 ← m.cell (remap + c2)
  return callback (4 * array + 4 * c1 + offset1) (4 * array + 4 * c2 + offset2) (4 * array)
    data.addr data.size m

def sortCustom2D (qsort : List Int → Sorting Int) (s : Plugin) (array size : Nat)
    (callback : Option Callback) (data : Data) : Option (Int × Plugin) :=
  if s.Allots size then
    match callback with
    | none => some (0, (s.allot size).release s.hea)
    | some callback => do
        let memory ← arrange qsort array s.hea size (sort2dAmxCustom callback array s.hea data)
          s.memory
        return (1, { s.allot size with memory }.release s.hea)
  else some (0, s)

end

section

/-! The loops around `qsort`. -/

namespace Memory

theorem write_eq_some {m m' : Memory} {address : Nat} {value : Int} :
    m.write address value = some m' ↔ address < m.length ∧ m' = m.set address value := by
  unfold write
  split
  next h => simp [h, eq_comm]
  next h => simp [h]

theorem cell_ofNat (m : Memory) (address : Nat) : m.cell address = m[address]? := by
  unfold cell
  rw [if_pos (Int.natCast_nonneg address), Int.toNat_natCast]

end Memory

section

variable {body : Nat → Memory → Option Memory} {size : Nat} {m m' : Memory}

theorem loop_succ : loop body (size + 1) m = (loop body size m).bind (body size) := by
  unfold loop
  rw [List.range_succ, List.foldlM_append]
  cases (List.range size).foldlM (fun m i => body i m) m with
  | none => rfl
  | some m' => simp

theorem loop_invariant {I : Nat → Memory → Prop}
    (hkeep : ∀ {i m m'}, i < size → I i m → body i m = some m' → I (i + 1) m')
    (hinv : I 0 m) (hloop : loop body size m = some m') : I size m' := by
  induction size generalizing m' with
  | zero =>
      cases hloop
      exact hinv
  | succ size ih =>
      rw [loop_succ] at hloop
      obtain ⟨middle, hmiddle, hlast⟩ := Option.bind_eq_some_iff.mp hloop
      exact hkeep (Nat.lt_succ_self size) (ih (fun hi => hkeep (Nat.lt_succ_of_lt hi)) hmiddle) hlast

theorem loop_isSome {I : Nat → Memory → Prop}
    (hkeep : ∀ {i m}, i < size → I i m → ∃ m', body i m = some m' ∧ I (i + 1) m')
    (hinv : I 0 m) : ∃ m', loop body size m = some m' ∧ I size m' := by
  induction size with
  | zero => exact ⟨m, rfl, hinv⟩
  | succ size ih =>
      obtain ⟨middle, hmiddle, hmiddleInv⟩ := ih fun hi => hkeep (Nat.lt_succ_of_lt hi)
      obtain ⟨m', hlast, hlastInv⟩ := hkeep (Nat.lt_succ_self size) hmiddleInv
      refine ⟨m', ?_, hlastInv⟩
      rw [loop_succ, hmiddle]
      exact hlast

end

structure Apart (array remap size length : Nat) : Prop where
  arrayInside : array + size ≤ length
  remapInside : remap + size ≤ length
  apart : array + size ≤ remap ∨ remap + size ≤ array

section

variable {array remap size : Nat} {m m' : Memory}

structure BackedUp (array remap count : Nat) (m m' : Memory) : Prop where
  length : m'.length = m.length
  index : ∀ i < count, m'[array + i]? = some (i : Int)
  offset : ∀ i < count, m'[remap + i]? = m[array + i]?
  others : ∀ x, ¬(array ≤ x ∧ x < array + count) → ¬(remap ≤ x ∧ x < remap + count) →
    m'[x]? = m[x]?

theorem backUp_apart (h : Apart array remap size m.length) :
    ∃ m', loop (backUp array remap) size m = some m' ∧ BackedUp array remap size m m' := by
  apply loop_isSome (I := fun count m' => BackedUp array remap count m m')
  · intro i m' hi hinv
    have harray := h.arrayInside
    have hremap := h.remapInside
    have hapart := h.apart
    have hlength := hinv.length
    have hcell : m'[array + i]? = m[array + i]? := hinv.others _ (by omega) (by omega)
    have hlt : array + i < m.length := by omega
    refine ⟨(m'.set (remap + i) m[array + i]).set (array + i) i, ?_, ?_, ?_, ?_, ?_⟩
    · have hremap' : remap + i < m'.length := by omega
      have harray' : array + i < m'.length := by omega
      simp only [backUp, hcell, List.getElem?_eq_getElem hlt, Memory.write, hremap', harray',
        List.length_set, Option.bind_eq_bind, Option.bind_some, if_true]
    · simp [hlength]
    · intro j hj
      have := hinv.index j
      grind
    · intro j hj
      have := hinv.offset j
      grind
    · intro x hx hx'
      have := hinv.others x
      grind
  · refine ⟨rfl, ?_, ?_, fun _ _ _ => rfl⟩
    · intro i hi
      omega
    · intro i hi
      omega

structure FixedUp (array remap size count : Nat) (m m' : Memory) : Prop where
  length : m'.length = m.length
  distance : ∀ i < count, ∀ index : Int, m[array + i]? = some index →
    (∀ x < size, remap + index ≠ ((array + x : Nat) : Int)) →
      ∃ offset, m.cell (remap + index) = some offset ∧
        m'[array + i]? = some (4 * (array + index) + offset - 4 * (array + i))
  others : ∀ x, ¬(array ≤ x ∧ x < array + count) → m'[x]? = m[x]?

theorem FixedUp.cell {count : Nat} (h : FixedUp array remap size count m m') (hcount : count ≤ size)
    {address : Int} (houtside : ∀ x < size, address ≠ ((array + x : Nat) : Int)) :
    m'.cell address = m.cell address := by
  unfold Memory.cell
  split
  next hpos =>
    apply h.others
    intro hwithin
    apply houtside (address.toNat - array) (by omega)
    omega
  next => rfl

theorem FixedUp.succ {i : Nat} {next : Memory} (h : FixedUp array remap size i m m')
    (hi : i < size) (hstep : fixUp array remap i m' = some next) :
    FixedUp array remap size (i + 1) m next := by
  obtain ⟨found, hfound, hrest⟩ := Option.bind_eq_some_iff.mp hstep
  obtain ⟨offset, hoffset, hwrite⟩ := Option.bind_eq_some_iff.mp hrest
  obtain ⟨hlt, rfl⟩ := Memory.write_eq_some.mp hwrite
  have hkept : m'[array + i]? = m[array + i]? := h.others _ (by omega)
  refine ⟨?_, ?_, ?_⟩
  · rw [List.length_set]
    exact h.length
  · intro j hj index hindex houtside
    by_cases heq : j = i
    next =>
      subst heq
      have hsame : found = index := Option.some.inj (hfound.symm.trans (hkept.trans hindex))
      subst hsame
      rw [h.cell (Nat.le_of_lt hi) houtside] at hoffset
      exact ⟨offset, hoffset, List.getElem?_set_self hlt⟩
    next =>
      obtain ⟨before, hbefore, hdistance⟩ := h.distance j (by omega) index hindex houtside
      refine ⟨before, hbefore, ?_⟩
      rw [List.getElem?_set_ne (by omega)]
      exact hdistance
  · intro x hx
    rw [List.getElem?_set_ne (by omega)]
    exact h.others x (by omega)

theorem fixedUp_start : FixedUp array remap size 0 m m :=
  ⟨rfl, fun i hi => absurd hi (Nat.not_lt_zero i), fun _ _ => rfl⟩

theorem fixedUp_of_loop (h : loop (fixUp array remap) size m = some m') :
    FixedUp array remap size size m m' :=
  loop_invariant (I := fun count m' => FixedUp array remap size count m m')
    (fun hi hinv hstep => hinv.succ hi hstep) fixedUp_start h

theorem fixUp_isSome (harray : array + size ≤ m.length)
    (hindices : ∀ i < size, ∃ index : Int, m[array + i]? = some index ∧
      (∀ x < size, remap + index ≠ ((array + x : Nat) : Int)) ∧
        (m.cell (remap + index)).isSome) :
    ∃ m', loop (fixUp array remap) size m = some m' ∧ FixedUp array remap size size m m' := by
  apply loop_isSome (I := fun count m' => FixedUp array remap size count m m')
  · intro i m' hi hinv
    obtain ⟨index, hindex, houtside, hcell⟩ := hindices i hi
    obtain ⟨offset, hoffset⟩ := Option.isSome_iff_exists.mp hcell
    have hkept : m'[array + i]? = some index := (hinv.others _ (by omega)).trans hindex
    have hread : m'.cell (remap + index) = some offset :=
      (hinv.cell (Nat.le_of_lt hi) houtside).trans hoffset
    have hlt : array + i < m'.length := by
      rw [hinv.length]
      omega
    have hstep : fixUp array remap i m' =
        some (m'.set (array + i) (4 * (array + index) + offset - 4 * (array + i))) := by
      simp only [fixUp, hkept, hread, Memory.write, hlt, Option.bind_eq_bind, Option.bind_some,
        if_true]
    exact ⟨_, hstep, hinv.succ hi hstep⟩
  · exact fixedUp_start

/-! The array of `qsort`. -/

namespace Memory

theorem length_store (harray : array + size ≤ m.length) {current : List Int}
    (hlength : current.length = size) : (store array current m).length = m.length := by
  simp only [store, List.length_append, List.length_take, List.length_drop, hlength]
  omega

theorem store_inside (harray : array + size ≤ m.length) {current : List Int}
    (hlength : current.length = size) {i : Nat} (hi : i < size) :
    (store array current m)[array + i]? = current[i]? := by
  have htake : (m.take array).length = array := by
    rw [List.length_take]
    omega
  unfold store
  rw [List.append_assoc, List.getElem?_append_right (by omega), htake, Nat.add_sub_cancel_left,
    List.getElem?_append_left (by omega)]

theorem store_outside (harray : array + size ≤ m.length) {current : List Int}
    (hlength : current.length = size) {x : Nat} (hx : ¬(array ≤ x ∧ x < array + size)) :
    (store array current m)[x]? = m[x]? := by
  have htake : (m.take array).length = array := by
    rw [List.length_take]
    omega
  unfold store
  by_cases hbefore : x < array
  next =>
    rw [List.append_assoc, List.getElem?_append_left (by omega), List.getElem?_take,
      if_pos hbefore]
  next =>
    rw [List.getElem?_append_right (by rw [List.length_append]; omega), List.getElem?_drop,
      List.length_append, htake, hlength]
    congr 1
    omega

theorem getElem?_vector {i : Nat} (hi : i < size) : (m.vector array size)[i]? = m[array + i]? := by
  rw [vector, List.getElem?_take, if_pos hi, List.getElem?_drop]

end Memory

end

end

end AmxModC.Sorting
