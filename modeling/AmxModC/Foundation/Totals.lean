import Mathlib.Algebra.BigOperators.Group.Finset.Basic
import Mathlib.Data.Fintype.Basic

namespace AmxModC.Foundation

/-! Tables that keep the total of their entries in an entry of their own. -/

variable {ι α M : Type*} [DecidableEq ι]

def change (table : ι → α) (i : ι) (f : α → α) : ι → α :=
  fun j => if j = i then f (table j) else table j

def book (total : ι) (table : ι → α) (i : ι) (f : α → α) : ι → α :=
  change (change table i f) total f

section

variable {table : ι → α} {i j : ι} {f : α → α}

theorem change_same : change table i f i = f (table i) := if_pos rfl

theorem change_other (h : j ≠ i) : change table i f j = table j := if_neg h

theorem field_change (field : α → M) (hf : ∀ a, field (f a) = field a) :
    field (change table i f j) = field (table j) := by
  unfold change
  split
  next => exact hf _
  next => rfl

end

section

variable [Fintype ι] [AddCommMonoid M] {total : ι} {table table' : ι → α} {i : ι} {f : α → α}
  {field : α → M} {c : M}

def Balanced (total : ι) (field : α → M) (table : ι → α) : Prop :=
  field (table total) = ∑ i ∈ Finset.univ.erase total, field (table i)

theorem Balanced.congr (h : Balanced total field table)
    (hsame : ∀ i, field (table' i) = field (table i)) : Balanced total field table' := by
  unfold Balanced
  rw [hsame, Finset.sum_congr rfl fun i _ => hsame i]
  exact h

theorem balanced_const {a : α} (h : field a = 0) : Balanced total field fun _ => a := by
  simp [Balanced, h]

theorem Balanced.book (h : Balanced total field table)
    (hf : ∀ a, field (f a) = field a + c) (hi : i ≠ total) :
    Balanced total field (book total table i f) := by
  have hmem : i ∈ Finset.univ.erase total := Finset.mem_erase.mpr ⟨hi, Finset.mem_univ i⟩
  have hrest : ∀ j ∈ (Finset.univ.erase total).erase i,
      field (Foundation.book total table i f j) = field (table j) := by
    intro j hj
    obtain ⟨hji, hj⟩ := Finset.mem_erase.mp hj
    have hjtotal := (Finset.mem_erase.mp hj).1
    rw [Foundation.book, change_other hjtotal, change_other hji]
  have hself : field (Foundation.book total table i f i) = field (table i) + c := by
    rw [Foundation.book, change_other hi, change_same, hf]
  unfold Balanced
  rw [Foundation.book, change_same, change_other hi.symm, hf, h,
    ← Finset.add_sum_erase _ _ hmem, ← Finset.add_sum_erase _ _ hmem]
  change _ = field (Foundation.book total table i f i) +
    ∑ j ∈ (Finset.univ.erase total).erase i, field (Foundation.book total table i f j)
  rw [hself, Finset.sum_congr rfl hrest]
  exact add_right_comm _ _ _

end

theorem Balanced.not_book_total {M : Type*} [Fintype ι] [AddCommGroup M] {total : ι}
    {table : ι → α} {f : α → α} {field : α → M} {c : M} (h : Balanced total field table)
    (hf : ∀ a, field (f a) = field a + c) (hc : c + c ≠ 0) :
    ¬ Balanced total field (Foundation.book total table total f) := by
  have hrest : ∀ j ∈ Finset.univ.erase total,
      field (Foundation.book total table total f j) = field (table j) := by
    intro j hj
    have hjtotal := (Finset.mem_erase.mp hj).1
    rw [Foundation.book, change_other hjtotal, change_other hjtotal]
  unfold Balanced
  rw [Finset.sum_congr rfl hrest, ← h, Foundation.book, change_same, change_same, hf, hf,
    add_assoc]
  exact fun heq => hc (add_eq_left.mp heq)

end AmxModC.Foundation
