import AmxModC.Foundation.Occurrence
import AmxModC.Plugin

namespace AmxModC.Strings

open Foundation

/-! Strings that are used where they are, by whole cells. -/

def HoldsCells (memory : Memory) (amx : Amx) (first : Nat) (s : List Cell) : Prop :=
  0 ∉ s ∧ ∀ i ≤ s.length, (s ++ [0])[i]? = some (memory amx (first + i))

instance (memory : Memory) (amx : Amx) (first : Nat) (s : List Cell) :
    Decidable (HoldsCells memory amx first s) :=
  inferInstanceAs (Decidable (0 ∉ s ∧ ∀ i ≤ s.length, (s ++ [0])[i]? = some (memory amx (first + i))))

def readCell (memory : Memory) (amx : Amx) (first : Nat) (inside : Nat → Bool) (i : Nat) :
    Option Cell :=
  if inside i then some (memory amx (first + i)) else none

/-- `amxstring_len`, from the cell number `c` on.  `none` is a read outside the array, and
also a loop that is not done with its `fuel`. -/
def amxstringLen (read : Nat → Option Cell) : Nat → Nat → Option Nat
  | 0, _ => none
  | fuel + 1, c =>
      (read c).bind fun cell => if cell = 0 then some c else amxstringLen read fuel (c + 1)

namespace HoldsCells

variable {memory memory' : Memory} {amx : Amx} {first : Nat} {s s' : List Cell}

theorem cell (h : HoldsCells memory amx first s) {i : Nat} (hi : i < s.length) :
    memory amx (first + i) = s[i] := by
  have hcell := h.2 i (Nat.le_of_lt hi)
  rw [List.getElem?_append_left hi, List.getElem?_eq_getElem hi] at hcell
  exact (Option.some.inj hcell).symm

theorem terminator (h : HoldsCells memory amx first s) : memory amx (first + s.length) = 0 := by
  have hcell := h.2 s.length le_rfl
  rw [List.getElem?_concat_length] at hcell
  exact (Option.some.inj hcell).symm

theorem ne_zero (h : HoldsCells memory amx first s) {i : Nat} (hi : i < s.length) :
    memory amx (first + i) ≠ 0 := by
  rw [h.cell hi]
  exact fun hzero => h.1 (hzero ▸ List.getElem_mem hi)

theorem eq_zero_iff (h : HoldsCells memory amx first s) {i : Nat} (hi : i ≤ s.length) :
    memory amx (first + i) = 0 ↔ i = s.length := by
  constructor
  · intro hzero
    by_contra hne
    exact h.ne_zero (Nat.lt_of_le_of_ne hi hne) hzero
  · rintro rfl
    exact h.terminator

theorem of_cells (hzero : 0 ∉ s) (hcell : ∀ i (hi : i < s.length), memory amx (first + i) = s[i])
    (hend : memory amx (first + s.length) = 0) : HoldsCells memory amx first s := by
  refine ⟨hzero, fun i hi => ?_⟩
  rcases Nat.lt_or_eq_of_le hi with hlt | rfl
  · rw [List.getElem?_append_left hlt, List.getElem?_eq_getElem hlt, hcell i hlt]
  · rw [List.getElem?_concat_length, hend]

theorem length_eq (h : HoldsCells memory amx first s) (h' : HoldsCells memory amx first s') :
    s.length = s'.length := by
  rcases Nat.lt_trichotomy s.length s'.length with hlt | heq | hlt
  · exact absurd h.terminator (h'.ne_zero hlt)
  · exact heq
  · exact absurd h'.terminator (h.ne_zero hlt)

theorem unique (h : HoldsCells memory amx first s) (h' : HoldsCells memory amx first s') :
    s = s' :=
  List.ext_getElem (h.length_eq h') fun _ hi hi' => by rw [← h.cell hi, ← h'.cell hi']

theorem fetch_eq (h : HoldsCells memory amx first s) : memory.fetch amx first s.length = s := by
  refine List.ext_getElem (by rw [Memory.length_fetch]) fun i _ hi => ?_
  have hfetched := Memory.getElem?_fetch memory amx first hi
  rw [h.cell hi] at hfetched
  exact (List.getElem?_eq_some_iff.mp hfetched).2

theorem amxstringLen_eq (h : HoldsCells memory amx first s) (inside : Nat → Bool)
    (hinside : ∀ i ≤ s.length, inside s.length = true → inside i = true) {c fuel : Nat}
    (hc : c ≤ s.length) (hfuel : s.length < c + fuel) :
    amxstringLen (readCell memory amx first inside) fuel c =
      if inside s.length then some s.length else none := by
  induction fuel generalizing c with
  | zero => exact absurd hfuel (not_lt.mpr hc)
  | succ fuel ih =>
      rw [amxstringLen, readCell]
      by_cases hat : inside c = true
      · rw [if_pos hat, Option.bind_some]
        rcases Nat.lt_or_eq_of_le hc with hlt | rfl
        · rw [if_neg (h.ne_zero hlt)]
          exact ih hlt (by omega)
        · rw [if_pos h.terminator, if_pos hat]
      · rw [if_neg hat, if_neg fun hend => hat (hinside c hc hend), Option.bind_none]

end HoldsCells

end AmxModC.Strings
