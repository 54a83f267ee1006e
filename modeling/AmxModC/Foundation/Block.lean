import Mathlib.Data.List.Basic
import Mathlib.Data.List.Range
import Mathlib.Data.List.InsertIdx
import Mathlib.Tactic.Ring
import Mathlib.Tactic.Linarith

namespace AmxModC.Foundation.Block

/-! A block of memory is the list of its cells.  Reads and writes outside it
are not possible; windows of one fixed width are its records. -/

variable {α : Type*}

def read (block : List α) (start size : Nat) : Option (List α) :=
  if start + size ≤ block.length then some ((block.drop start).take size) else none

def write (block : List α) (start : Nat) (source : List α) : Option (List α) :=
  if start + source.length ≤ block.length then
    some (block.take start ++ source ++ block.drop (start + source.length))
  else none

/-- Record `index` of the block, for records of `width` cells. -/
def record (width : Nat) (block : List α) (index : Nat) : List α :=
  (block.drop (index * width)).take width

def records (width count : Nat) (block : List α) : List (List α) :=
  (List.range count).map (record width block)

theorem read_of_le {block : List α} {start size : Nat}
    (h : start + size ≤ block.length) :
    read block start size = some ((block.drop start).take size) := if_pos h

theorem read_eq_some {block result : List α} {start size : Nat} :
    read block start size = some result ↔
      start + size ≤ block.length ∧ (block.drop start).take size = result := by
  unfold read
  split <;> simp [*]

theorem write_eq_some {block source result : List α} {start : Nat} :
    write block start source = some result ↔
      start + source.length ≤ block.length ∧
        block.take start ++ source ++ block.drop (start + source.length) = result := by
  unfold write
  split <;> simp [*]

theorem write_isSome {block source : List α} {start : Nat} :
    (write block start source).isSome ↔ start + source.length ≤ block.length := by
  unfold write
  split <;> simp [*]

theorem length_of_write {block source result : List α} {start : Nat}
    (h : write block start source = some result) : result.length = block.length := by
  obtain ⟨hle, rfl⟩ := write_eq_some.mp h
  simp
  omega

theorem getElem?_of_write {block source result : List α} {start : Nat}
    (h : write block start source = some result) (index : Nat) :
    result[index]? =
      if start ≤ index ∧ index < start + source.length then source[index - start]?
      else block[index]? := by
  obtain ⟨hle, rfl⟩ := write_eq_some.mp h
  have htake : (block.take start).length = start := by simp; omega
  by_cases hlow : index < start
  · rw [List.append_assoc, List.getElem?_append_left (by omega)]
    simp [hlow]
  · by_cases hhigh : index < start + source.length
    · rw [List.append_assoc, List.getElem?_append_right (by omega), htake,
        List.getElem?_append_left (by omega), if_pos ⟨by omega, hhigh⟩]
    · rw [List.getElem?_append_right (by simp; omega), if_neg (by omega)]
      simp only [List.length_append, htake, List.getElem?_drop]
      congr 1
      omega

theorem getElem?_of_write_outside {block source result : List α} {start index : Nat}
    (h : write block start source = some result)
    (houtside : index < start ∨ start + source.length ≤ index) :
    result[index]? = block[index]? := by
  rw [getElem?_of_write h, if_neg (by omega)]

theorem isPrefix_of_write {before block source result : List α} {start : Nat}
    (h : write block start source = some result) (hbefore : before <+: block)
    (hle : before.length ≤ start) : before <+: result := by
  obtain ⟨-, rfl⟩ := write_eq_some.mp h
  rw [List.append_assoc]
  exact (List.prefix_take_iff.mpr ⟨hbefore, hle⟩).trans (List.prefix_append _ _)

theorem write_middle (front rest : List α) (old cell : α) :
    write (front ++ old :: rest) front.length [cell] = some (front ++ cell :: rest) := by
  have hle : front.length + [cell].length ≤ (front ++ old :: rest).length := by simp
  rw [write, if_pos hle, List.take_left, List.length_singleton, List.append_assoc,
    List.singleton_append, ← List.drop_drop, List.drop_left]
  rfl

theorem exists_write_behind {before block : List α} (hbefore : before <+: block) (cell : α)
    (h : before.length < block.length) :
    ∃ rest, write block before.length [cell] = some (before ++ cell :: rest) ∧
      (before ++ cell :: rest).length = block.length := by
  obtain ⟨behind, rfl⟩ := hbefore
  cases behind with
  | nil => exact absurd h (by rw [List.append_nil]; exact Nat.lt_irrefl _)
  | cons old rest =>
      have hwrite := write_middle before rest old cell
      exact ⟨rest, hwrite, length_of_write hwrite⟩

/-! Records. -/

@[simp] theorem length_records (width count : Nat) (block : List α) :
    (records width count block).length = count := by simp [records]

@[simp] theorem getElem_records {width count index : Nat} {block : List α}
    (h : index < (records width count block).length) :
    (records width count block)[index] = record width block index := by
  simp [records]

theorem getElem?_record (width : Nat) (block : List α) (index offset : Nat) :
    (record width block index)[offset]? =
      if offset < width then block[index * width + offset]? else none := by
  simp [record, List.getElem?_take, List.getElem?_drop]

theorem record_end_le (width : Nat) {count index : Nat} (h : index < count) :
    index * width + width ≤ count * width := by
  calc
    index * width + width = (index + 1) * width := by ring
    _ ≤ count * width := Nat.mul_le_mul_right width h

theorem length_record {width count index : Nat} {block : List α}
    (hblock : count * width ≤ block.length) (h : index < count) :
    (record width block index).length = width := by
  have := record_end_le width h
  simp [record]
  omega

theorem eq_flatMap_of_record {β : Type*} {f : β → List α} {width : Nat} {items : List β}
    {block : List α} (hlength : block.length = items.length * width)
    (h : ∀ index (hindex : index < items.length), record width block index = f items[index]) :
    block = items.flatMap f := by
  induction items generalizing block with
  | nil => simpa using hlength
  | cons item rest ih =>
      rw [List.length_cons, Nat.succ_mul] at hlength
      have hfirst : block.take width = f item := by
        simpa [record] using h 0 (Nat.zero_lt_succ _)
      have hrest : block.drop width = rest.flatMap f := by
        refine ih (by rw [List.length_drop]; omega) fun index hindex => ?_
        have hrecord := h (index + 1) (Nat.succ_lt_succ hindex)
        rw [record, Nat.succ_mul, Nat.add_comm, ← List.drop_drop] at hrecord
        exact hrecord
      rw [List.flatMap_cons, ← hfirst, ← hrest, List.take_append_drop]

theorem record_congr {width index : Nat} {first second : List α}
    (h : ∀ offset < width,
      first[index * width + offset]? = second[index * width + offset]?) :
    record width first index = record width second index := by
  apply List.ext_getElem?
  intro offset
  simp only [getElem?_record]
  split
  · exact h offset ‹_›
  · rfl

theorem record_of_initial (count : Nat) {width index : Nat} {first second : List α}
    (hsame : ∀ cell < count * width, first[cell]? = second[cell]?)
    (h : index < count) : record width first index = record width second index := by
  have := record_end_le width h
  exact record_congr fun offset hoffset => hsame _ (by omega)

theorem record_disjoint {width first second offset : Nat} (hne : second ≠ first)
    (hoffset : offset < width) :
    ¬ (first * width ≤ second * width + offset ∧
      second * width + offset < first * width + width) := by
  rintro ⟨hlow, hhigh⟩
  rcases Nat.lt_or_gt_of_ne hne with hlt | hgt
  · have := record_end_le width hlt
    omega
  · have := record_end_le width hgt
    omega

theorem record_of_write {width index : Nat} {block source result : List α}
    (hsource : source.length = width)
    (h : write block (index * width) source = some result) (other : Nat) :
    record width result other =
      if other = index then source else record width block other := by
  split
  · subst other
    apply List.ext_getElem?
    intro offset
    rw [getElem?_record, getElem?_of_write h]
    by_cases hoffset : offset < width
    · rw [if_pos hoffset, if_pos ⟨by omega, by omega⟩]
      congr 1
      omega
    · rw [if_neg hoffset, List.getElem?_eq_none (by omega)]
  · rename_i hne
    apply record_congr
    intro offset hoffset
    rw [getElem?_of_write h, hsource, if_neg (record_disjoint hne hoffset)]

theorem record_of_write_cell {width index offset : Nat} {block result : List α} {cell : α}
    (hoffset : offset < width)
    (h : write block (index * width + offset) [cell] = some result) (other : Nat) :
    record width result other =
      if other = index then (record width block index).set offset cell
      else record width block other := by
  have hlength := (write_eq_some.mp h).1
  simp only [List.length_singleton] at hlength
  split
  · subst other
    apply List.ext_getElem?
    intro position
    rw [getElem?_record, getElem?_of_write h, List.getElem?_set, getElem?_record]
    by_cases hposition : position < width
    · rw [if_pos hposition, if_pos hposition]
      by_cases heq : offset = position
      · subst heq
        rw [if_pos (by simp), if_pos rfl, if_pos]
        · simp
        · simp [record]
          omega
      · rw [if_neg heq, if_neg (by simp; omega)]
    · rw [if_neg hposition, if_neg (by omega), if_neg hposition]
  · rename_i hne
    apply record_congr
    intro position hposition
    rw [getElem?_of_write h, if_neg]
    have := record_disjoint hne hposition
    simp only [List.length_singleton]
    omega

theorem record_of_shift {width start size : Nat} {block moved result : List α}
    (hread : read block (start * width) (size * width) = some moved)
    (hwrite : write block ((start + 1) * width) moved = some result) (other : Nat) :
    record width result other =
      if start < other ∧ other ≤ start + size then record width block (other - 1)
      else record width block other := by
  obtain ⟨hle, rfl⟩ := read_eq_some.mp hread
  have hmoved : ((block.drop (start * width)).take (size * width)).length =
      size * width := by
    simp
    omega
  have hstart : (start + 1) * width = start * width + width := by ring
  split
  · rename_i hother
    obtain ⟨previous, rfl⟩ : ∃ previous, other = previous + 1 :=
      ⟨other - 1, by omega⟩
    apply List.ext_getElem?
    intro offset
    simp only [getElem?_record, Nat.add_sub_cancel]
    split
    · rename_i hoffset
      obtain ⟨shift, rfl⟩ : ∃ shift, previous = start + shift :=
        ⟨previous - start, by omega⟩
      have hshift := record_end_le width (show shift < size by omega)
      have hcell : (start + shift + 1) * width + offset =
          (start + 1) * width + (shift * width + offset) := by ring
      rw [getElem?_of_write hwrite, hcell, hmoved, if_pos ⟨by omega, by omega⟩,
        Nat.add_sub_cancel_left, List.getElem?_take, if_pos (by omega),
        List.getElem?_drop]
      congr 1
      ring
    · rfl
  · rename_i hother
    apply record_congr
    intro offset hoffset
    rw [getElem?_of_write hwrite, hmoved, if_neg]
    rintro ⟨hlow, hhigh⟩
    apply hother
    have hend : (start + 1) * width + size * width = (start + size + 1) * width := by
      ring
    constructor
    · by_contra hbelow
      have := record_end_le width (show other < start + 1 by omega)
      omega
    · by_contra habove
      have := Nat.mul_le_mul_right width (show start + size + 1 ≤ other by omega)
      omega

/-! Cell by cell. -/

/-- The cell at `source`, to `target`. -/
def move (block : List α) (target source : Nat) : Option (List α) :=
  block[source]?.bind fun cell => write block target [cell]

/-- The `count` cells from `start` on, the last of them first, each to the place behind it. -/
def moveUp (block : List α) (start : Nat) : Nat → Option (List α)
  | 0 => some block
  | count + 1 =>
      (move block (start + count + 1) (start + count)).bind fun block => moveUp block start count

/-- The `count` cells from `start` on, each to the place in front of it. -/
def moveDown : List α → Nat → Nat → Option (List α)
  | block, _, 0 => some block
  | block, start, count + 1 =>
      (move block (start - 1) start).bind fun block => moveDown block (start + 1) count

/-- The `count` cells of another block from `start` on, each to its place here. -/
def copy (source : List α) : Nat → Nat → List α → Option (List α)
  | _, 0, target => some target
  | start, count + 1, target =>
      source[start]?.bind fun cell =>
        (write target start [cell]).bind (copy source (start + 1) count)

theorem getElem?_of_write_cell {block result : List α} {place : Nat} {cell : α}
    (h : write block place [cell] = some result) (index : Nat) :
    result[index]? = if index = place then some cell else block[index]? := by
  rw [getElem?_of_write h]
  by_cases hindex : index = place
  · subst hindex
    simp
  · rw [if_neg hindex, if_neg (by rw [List.length_singleton]; omega)]

theorem exists_write_cell {block : List α} {place : Nat} (cell : α) (h : place < block.length) :
    ∃ result, write block place [cell] = some result ∧ result.length = block.length ∧
      ∀ index, result[index]? = if index = place then some cell else block[index]? := by
  have hwrite : (write block place [cell]).isSome := write_isSome.mpr h
  obtain ⟨result, hresult⟩ := Option.isSome_iff_exists.mp hwrite
  exact ⟨result, hresult, length_of_write hresult, getElem?_of_write_cell hresult⟩

theorem exists_move (block : List α) (target source : Nat) (htarget : target < block.length)
    (hsource : source < block.length) :
    ∃ result, move block target source = some result ∧ result.length = block.length ∧
      ∀ index, result[index]? = if index = target then block[source]? else block[index]? := by
  obtain ⟨result, hwrite, hresult⟩ := exists_write_cell block[source] htarget
  refine ⟨result, ?_, ?_⟩
  · rw [move, List.getElem?_eq_getElem hsource, Option.bind_some, hwrite]
  · rw [List.getElem?_eq_getElem hsource]
    exact hresult

theorem exists_moveUp {block : List α} {start count : Nat} (h : start + count < block.length) :
    ∃ result, moveUp block start count = some result ∧ result.length = block.length ∧
      ∀ index, result[index]? =
        if start < index ∧ index ≤ start + count then block[index - 1]? else block[index]? := by
  induction count generalizing block with
  | zero => exact ⟨block, rfl, rfl, fun index => (if_neg (by omega)).symm⟩
  | succ count ih =>
      obtain ⟨moved, hmove, hlength, hmoved⟩ :=
        exists_move block (start + count + 1) (start + count) h (by omega)
      obtain ⟨result, hresult, hlength', hget⟩ := @ih moved (by omega)
      refine ⟨result, ?_, hlength'.trans hlength, fun index => ?_⟩
      · rw [moveUp, hmove, Option.bind_some, hresult]
      · rw [hget, hmoved, hmoved]
        grind

theorem exists_moveDown {block : List α} {start count : Nat} (hstart : 0 < start)
    (h : start + count ≤ block.length) :
    ∃ result, moveDown block start count = some result ∧ result.length = block.length ∧
      ∀ index, result[index]? =
        if start ≤ index + 1 ∧ index + 1 < start + count then block[index + 1]?
        else block[index]? := by
  induction count generalizing block start with
  | zero => exact ⟨block, rfl, rfl, fun index => (if_neg (by omega)).symm⟩
  | succ count ih =>
      obtain ⟨moved, hmove, hlength, hmoved⟩ :=
        exists_move block (start - 1) start (by omega) (by omega)
      obtain ⟨result, hresult, hlength', hget⟩ :=
        @ih moved (start + 1) (Nat.succ_pos start) (by omega)
      refine ⟨result, ?_, hlength'.trans hlength, fun index => ?_⟩
      · rw [moveDown, hmove, Option.bind_some, hresult]
      · rw [hget, hmoved, hmoved]
        grind

theorem exists_copy (source target : List α) (start count : Nat)
    (hsource : start + count ≤ source.length) (htarget : start + count ≤ target.length) :
    ∃ result, copy source start count target = some result ∧ result.length = target.length ∧
      ∀ index, result[index]? =
        if start ≤ index ∧ index < start + count then source[index]? else target[index]? := by
  induction count generalizing start target with
  | zero => exact ⟨target, rfl, rfl, fun index => (if_neg (by omega)).symm⟩
  | succ count ih =>
      have hstart : start < source.length := by omega
      obtain ⟨written, hwrite, hlength, hwritten⟩ :=
        exists_write_cell source[start] (show start < target.length by omega)
      obtain ⟨result, hresult, hlength', hget⟩ := ih written (start + 1) (by omega) (by omega)
      refine ⟨result, ?_, hlength'.trans hlength, fun index => ?_⟩
      · rw [copy, List.getElem?_eq_getElem hstart, Option.bind_some, hwrite, Option.bind_some,
          hresult]
      · rw [hget, hwritten]
        grind

end AmxModC.Foundation.Block
