import Mathlib.Data.List.Basic
import AmxModC.Machine

namespace AmxModC

inductive Status
  | badLoad
  | error
  | locked
  | paused
  | stopped
  | running
deriving DecidableEq

namespace Status

def isValid : Status → Bool
  | paused | stopped | running => true
  | badLoad | error | locked => false

def isPaused (status : Status) : Bool := status = paused || status = stopped

def isExecutable (status : Status) : Bool := status.isValid && !status.isPaused

end Status

abbrev callfuncMaxparams : Nat := 16

instance : NeZero callfuncMaxparams := ⟨by decide⟩

abbrev Memory := Amx → Nat → Cell

def cellNumber (address : Cell) : Nat := address.toNat / 4

namespace Memory

def fetch (memory : Memory) (amx : Amx) (first count : Nat) : List Cell :=
  (List.range count).map fun i => memory amx (first + i)

def store (memory : Memory) (amx : Amx) (first : Nat) (cells : List Cell) : Memory :=
  fun owner i =>
    if owner = amx ∧ first ≤ i then cells[i - first]?.getD (memory owner i) else memory owner i

section

variable {memory : Memory} {amx : Amx} {first : Nat} {cells : List Cell}

@[simp] theorem length_fetch (memory : Memory) (amx : Amx) (first count : Nat) :
    (memory.fetch amx first count).length = count := by
  simp [fetch]

theorem getElem?_fetch (memory : Memory) (amx : Amx) (first : Nat) {count i : Nat}
    (hi : i < count) : (memory.fetch amx first count)[i]? = some (memory amx (first + i)) := by
  simp [fetch, hi]

theorem fetch_add (memory : Memory) (amx : Amx) (first m n : Nat) :
    memory.fetch amx first (m + n) = memory.fetch amx first m ++ memory.fetch amx (first + m) n := by
  rw [fetch, List.range_add, List.map_append, List.map_map]
  congr 1
  exact List.map_congr_left fun i _ => congrArg (memory amx) (Nat.add_assoc first m i).symm

theorem fetch_part (memory : Memory) (amx : Amx) (first : Nat) {total m n : Nat}
    (h : m + n ≤ total) :
    memory.fetch amx (first + m) n = ((memory.fetch amx first total).drop m).take n := by
  obtain ⟨rest, rfl⟩ := Nat.exists_eq_add_of_le h
  rw [Nat.add_assoc, fetch_add, fetch_add _ _ (first + m)]
  simp

theorem fetch_congr {memory' : Memory} {count : Nat}
    (h : ∀ i, i < count → memory amx (first + i) = memory' amx (first + i)) :
    memory.fetch amx first count = memory'.fetch amx first count :=
  List.map_congr_left fun i hi => h i (List.mem_range.mp hi)

theorem store_of_lt {i : Nat} (hi : i < cells.length) :
    memory.store amx first cells amx (first + i) = cells[i] := by
  rw [store, if_pos ⟨rfl, Nat.le_add_right _ _⟩, Nat.add_sub_cancel_left,
    List.getElem?_eq_getElem hi, Option.getD_some]

theorem store_of_not {owner : Amx} {i : Nat}
    (h : ¬ (owner = amx ∧ first ≤ i ∧ i < first + cells.length)) :
    memory.store amx first cells owner i = memory owner i := by
  rw [store]
  split
  next hin =>
      have hout : cells.length ≤ i - first := by
        have hlt : ¬ i < first + cells.length := fun hlt => h ⟨hin.1, hin.2, hlt⟩
        omega
      rw [List.getElem?_eq_none hout, Option.getD_none]
  next => rfl

@[simp] theorem store_one (memory : Memory) (amx : Amx) (first : Nat) (cell : Cell) :
    memory.store amx first [cell] amx first = cell := by
  simp [store]

theorem store_one_of_ne {owner : Amx} {i : Nat} (cell : Cell) (h : ¬ (owner = amx ∧ i = first)) :
    memory.store amx first [cell] owner i = memory owner i := by
  refine store_of_not fun hin => h ⟨hin.1, ?_⟩
  rw [List.length_singleton] at hin
  omega

theorem fetch_succ (memory : Memory) (amx : Amx) (first n : Nat) :
    memory.fetch amx first (n + 1) = memory amx first :: memory.fetch amx (first + 1) n := by
  rw [Nat.add_comm, fetch_add]
  rfl

theorem store_cons (memory : Memory) (amx : Amx) (first : Nat) (cell : Cell) (rest : List Cell) :
    memory.store amx first (cell :: rest) =
      (memory.store amx first [cell]).store amx (first + 1) rest := by
  funext owner i
  have hone : [cell].length = 1 := rfl
  by_cases hin : owner = amx ∧ first ≤ i ∧ i < first + (cell :: rest).length
  · obtain ⟨rfl, hle, hlt⟩ := hin
    obtain ⟨j, rfl⟩ := Nat.exists_eq_add_of_le hle
    have hj := Nat.lt_of_add_lt_add_left hlt
    rw [store_of_lt hj]
    cases j with
    | zero =>
        rw [store_of_not fun h => absurd h.2.1 (Nat.not_succ_le_self (first + 0)),
          store_of_lt (hone ▸ Nat.one_pos)]
        rfl
    | succ j =>
        have hrest : j < rest.length := Nat.lt_of_succ_lt_succ hj
        have hplace : first + (j + 1) = first + 1 + j := by omega
        rw [hplace, store_of_lt hrest]
        rfl
  · rw [List.length_cons] at hin
    rw [store_of_not (by rwa [List.length_cons]), store_of_not fun h => hin ⟨h.1, by omega, by omega⟩,
      store_of_not fun h => hin ⟨h.1, h.2.1, by omega⟩]

theorem store_same (memory : Memory) (amx : Amx) (first : Nat) :
    memory.store amx first [memory amx first] = memory := by
  funext owner i
  by_cases hin : owner = amx ∧ i = first
  · obtain ⟨rfl, rfl⟩ := hin
    exact store_one memory owner i _
  · exact store_one_of_ne _ hin

theorem fetch_store_self (memory : Memory) (amx : Amx) (first : Nat) (cells : List Cell) :
    (memory.store amx first cells).fetch amx first cells.length = cells := by
  refine List.ext_getElem (by simp) fun i _ hi => ?_
  have hfetched := getElem?_fetch (memory.store amx first cells) amx first hi
  rw [store_of_lt hi] at hfetched
  exact (List.getElem?_eq_some_iff.mp hfetched).2

end

/-- `get_amxstring`, for a string that fits its buffer. -/
def getString (memory : Memory) (amx : Amx) (first : Nat) : List (BitVec 8) :=
  ((memory.fetch amx first 3071).map fun cell => cell.setWidth 8).takeWhile (· ≠ 0)

/-- `set_amxstring`: a negative `max` is no limit. -/
def setString (memory : Memory) (amx : Amx) (first : Nat) (source : List (BitVec 8)) (max : Int) :
    Memory × Nat :=
  let written := if max < 0 then source else source.take max.toNat
  (memory.store amx first (written.map (·.signExtend 32) ++ [0]), written.length)

end Memory

end AmxModC
