import AmxModC.Foundation.Sorting
import AmxModC.Machine
import Mathlib.Data.List.Sort

namespace AmxModC.Sorting

open Foundation

/-! Sorting integers. The comparison functions subtract in 32 bits. -/

def sortIntsAsc (int1 int2 : Cell) : Int := (int1 - int2).toInt

def sortIntsDesc (int1 int2 : Cell) : Int := (int2 - int1).toInt

def sortAscending : Cell := 0

/-- The array behind `SortIntegers`, with the `qsort` of the C library. -/
def sortIntegers (qsort : List Cell → Sorting Cell) (array : List Cell) (type : Cell) : List Cell :=
  if type = sortAscending then (qsort array).result sortIntsAsc
  else (qsort array).result sortIntsDesc

def Ordered (type : Cell) (before after : List Cell) : Prop :=
  after.Perm before ∧
    if type = sortAscending then after.Pairwise fun x y => x.toInt ≤ y.toInt
    else after.Pairwise fun x y => y.toInt ≤ x.toInt

instance (type : Cell) (before after : List Cell) : Decidable (Ordered type before after) := by
  unfold Ordered
  infer_instance

def Near (array : List Cell) : Prop :=
  ∀ x ∈ array, ∀ y ∈ array, x.toInt - y.toInt < 2 ^ 31

instance (array : List Cell) : Decidable (Near array) :=
  inferInstanceAs (Decidable (∀ x ∈ array, ∀ y ∈ array, _))

/-! A comparison function that subtracts keys. -/

/-- A difference as an `int` has it. -/
def difference (key : Cell → Int) (x y : Cell) : Int := (key x - key y).bmod (2 ^ 32)

theorem sortIntsAsc_eq_difference : sortIntsAsc = difference BitVec.toInt := by
  funext x y
  exact BitVec.toInt_sub

theorem sortIntsDesc_eq_difference : sortIntsDesc = difference fun x => -x.toInt := by
  funext x y
  have hneg : -x.toInt - -y.toInt = y.toInt - x.toInt := by omega
  rw [difference, hneg]
  exact BitVec.toInt_sub

variable {key : Cell → Int} {array : List Cell}

theorem sorted_of_near {qsort : List Cell → Sorting Cell} (hqsort : Sorts qsort)
    (hnear : ∀ x ∈ array, ∀ y ∈ array, key x - key y < 2 ^ 31) :
    ((qsort array).result (difference key)).Pairwise fun x y => key x ≤ key y := by
  have hagree : ∀ x ∈ array, ∀ y ∈ array, difference key x y = key x - key y := by
    intro x hx y hy
    have hxy := hnear x hx y hy
    have hyx := hnear y hy x hx
    unfold difference
    rw [Int.bmod_eq_of_le] <;> omega
  rw [(hqsort.honest array).result_congr hagree]
  apply (hqsort.sorted (consistent_key key) array).imp
  intro x y hle
  omega

def contrary (key : Cell → Int) (far near : Cell) (cmp : Cell → Cell → Int) (xs : List Cell) :
    List Cell :=
  let sorted := Sorting.search cmp xs
  if far ∈ xs ∧ near ∈ xs ∧ cmp far near < 0 ∧ sorted.Pairwise (fun x y => key x ≤ key y) then
    sorted.reverse
  else sorted

theorem contrary_perm (far near : Cell) (cmp : Cell → Cell → Int) (xs : List Cell) :
    (contrary key far near cmp xs).Perm xs := by
  unfold contrary
  simp only
  split
  next => exact (List.reverse_perm _).trans (Sorting.search_perm cmp xs)
  next => exact Sorting.search_perm cmp xs

theorem contrary_congr (far near : Cell) (cmp cmp' : Cell → Cell → Int) (xs : List Cell)
    (hagree : ∀ x ∈ xs, ∀ y ∈ xs, cmp x y = cmp' x y) :
    contrary key far near cmp xs = contrary key far near cmp' xs := by
  unfold contrary
  rw [Sorting.search_congr cmp cmp' xs hagree]
  by_cases hmem : far ∈ xs ∧ near ∈ xs
  next => rw [hagree far hmem.1 near hmem.2]
  next => simp only [← and_assoc, hmem, false_and]

theorem rel_or_rel_of_pairwise {r : Cell → Cell → Prop} {xs : List Cell} {x y : Cell}
    (h : xs.Pairwise r) (hx : x ∈ xs) (hy : y ∈ xs) (hne : x ≠ y) : r x y ∨ r y x := by
  induction xs with
  | nil => cases hx
  | cons head tail ih =>
      obtain ⟨hhead, htail⟩ := List.pairwise_cons.mp h
      cases hx with
      | head =>
          cases hy with
          | head => exact absurd rfl hne
          | tail _ hy => exact .inl (hhead y hy)
      | tail _ hx =>
          cases hy with
          | head => exact .inr (hhead x hx)
          | tail _ hy => exact ih htail hx hy

section

variable {far near : Cell} (hlt : key near < key far) {cmp : Cell → Cell → Int}
include hlt

theorem contrary_sorted (h : Consistent cmp) (xs : List Cell) :
    (contrary key far near cmp xs).Pairwise fun x y => cmp x y ≤ 0 := by
  have hsorted := Sorting.search_sorted h xs
  unfold contrary
  simp only
  split
  next hcond =>
    obtain ⟨hfar, hnear, hcmp, hkeys⟩ := hcond
    have hmem := fun x => (Sorting.search_perm cmp xs).mem_iff (a := x)
    have hne : near ≠ far := fun heq => absurd hlt (heq ▸ lt_irrefl _)
    have hswap := (h.swap far near).mp hcmp
    have horder := rel_or_rel_of_pairwise (hkeys.and hsorted) ((hmem near).mpr hnear)
      ((hmem far).mpr hfar) hne
    omega
  next => exact hsorted

theorem not_sorted_contrary (hfar : far ∈ array) (hnear : near ∈ array) (hcmp : cmp far near < 0) :
    ¬(contrary key far near cmp array).Pairwise fun x y => key x ≤ key y := by
  intro h
  unfold contrary at h
  simp only [hfar, hnear, hcmp, true_and] at h
  split at h
  next hkeys =>
    have hmem := fun x => (Sorting.search_perm cmp array).mem_iff (a := x)
    have hne : near ≠ far := fun heq => absurd hlt (heq ▸ lt_irrefl _)
    have horder := rel_or_rel_of_pairwise (hkeys.and (List.pairwise_reverse.mp h))
      ((hmem near).mpr hnear) ((hmem far).mpr hfar) hne
    omega
  next hkeys => exact hkeys h

theorem sorts_contrary : Sorts fun xs =>
    Sorting.asking xs (contrary key far near · xs) (xs ×ˢ xs) fun _ _ => 0 :=
  Sorting.sorts_of_local (contrary_perm far near) (contrary_congr far near)
    fun hcmp xs => contrary_sorted hlt hcmp xs

end

theorem difference_neg {x y : Cell} (hfar : 2 ^ 31 ≤ key x - key y)
    (hrange : key x - key y < 2 ^ 32) : difference key x y < 0 := by
  unfold difference
  rw [← Int.sub_bmod_right, Int.bmod_eq_of_le] <;> omega

theorem near_of_sorted (hrange : ∀ x y, key x - key y < 2 ^ 32)
    (h : ∀ qsort, Sorts qsort →
      ((qsort array).result (difference key)).Pairwise fun x y => key x ≤ key y) :
    ∀ x ∈ array, ∀ y ∈ array, key x - key y < 2 ^ 31 := by
  intro far hfar near hnear
  by_contra hfurther
  have hlt : key near < key far := by omega
  have hcmp : difference key far near < 0 := difference_neg (by omega) (hrange far near)
  have hsorted := h _ (sorts_contrary hlt)
  have hasked : contrary key far near
      (fun x y => if (x, y) ∈ array ×ˢ array then difference key x y else 0) array =
        contrary key far near (difference key) array :=
    contrary_congr far near _ _ array fun x hx y hy => if_pos (List.mem_product.mpr ⟨hx, hy⟩)
  rw [Sorting.result_asking, hasked] at hsorted
  exact not_sorted_contrary hlt hfar hnear hcmp hsorted

theorem sorted_iff_near (array : List Cell) (hrange : ∀ x y, key x - key y < 2 ^ 32) :
    (∀ qsort, Sorts qsort →
      ((qsort array).result (difference key)).Pairwise fun x y => key x ≤ key y) ↔
    ∀ x ∈ array, ∀ y ∈ array, key x - key y < 2 ^ 31 :=
  ⟨near_of_sorted hrange, fun h _ hqsort => sorted_of_near hqsort h⟩

/-- Whatever sorts with consistent comparison functions sorts the array by value exactly if its
values are near. -/
theorem ordered_iff_near (array : List Cell) (type : Cell) :
    (∀ qsort, Sorts qsort → Ordered type array (sortIntegers qsort array type)) ↔ Near array := by
  unfold Ordered sortIntegers
  by_cases htype : type = sortAscending
  next =>
    have hrange : ∀ x y : Cell, x.toInt - y.toInt < 2 ^ 32 := by
      intro x y
      have := x.toInt_lt
      have := y.le_toInt
      omega
    simp only [htype, if_true, sortIntsAsc_eq_difference]
    refine Iff.trans ?_ (sorted_iff_near array hrange)
    exact forall₂_congr fun qsort hqsort =>
      and_iff_right ((hqsort.honest array).result_perm _)
  next =>
    have hrange : ∀ x y : Cell, -x.toInt - -y.toInt < 2 ^ 32 := by
      intro x y
      have := x.le_toInt
      have := y.toInt_lt
      omega
    simp only [htype, if_false, sortIntsDesc_eq_difference]
    have hkeys := sorted_iff_near array hrange
    simp only [neg_le_neg_iff, neg_sub_neg] at hkeys
    refine Iff.trans ?_ (hkeys.trans ⟨fun h x hx y hy => h y hy x hx, fun h x hx y hy => h y hy x hx⟩)
    exact forall₂_congr fun qsort hqsort =>
      and_iff_right ((hqsort.honest array).result_perm _)

theorem not_ordered_extremes : Sorts (Sorting.searching (α := Cell)) ∧
    ¬Ordered sortAscending [0x80000000, 0x7FFFFFFF]
      (sortIntegers Sorting.searching [0x80000000, 0x7FFFFFFF] sortAscending) :=
  ⟨Sorting.sorts_searching, by decide +kernel⟩

end AmxModC.Sorting
