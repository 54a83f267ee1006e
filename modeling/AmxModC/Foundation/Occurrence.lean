import Mathlib.Data.List.Basic
import Mathlib.Data.List.Infix

namespace AmxModC.Foundation

/-! The places at which a list occurs in another, and the first of them. -/

section

variable {α : Type} {a : α} {needle text text' : List α} {k : Nat}

def OccursAt (needle text : List α) (k : Nat) : Prop := needle <+: text.drop k

instance [DecidableEq α] (needle text : List α) (k : Nat) : Decidable (OccursAt needle text k) :=
  inferInstanceAs (Decidable (needle <+: text.drop k))

theorem OccursAt.length_le (h : OccursAt needle text k) (hne : needle ≠ []) :
    k + needle.length ≤ text.length := by
  have hle := List.IsPrefix.length_le h
  have hpos := List.length_pos_iff.mpr hne
  rw [List.length_drop] at hle
  omega

theorem occursAt_iff :
    OccursAt needle text k ↔ ∀ i < needle.length, text[k + i]? = needle[i]? := by
  rw [OccursAt, List.prefix_iff_getElem?]
  refine forall₂_congr fun i hi => ?_
  rw [List.getElem?_drop, List.getElem?_eq_getElem hi]

theorem OccursAt.getElem? (h : OccursAt needle text k) {i : Nat} (hi : i < needle.length) :
    text[k + i]? = needle[i]? := by
  exact occursAt_iff.mp h i hi

theorem OccursAt.split (h : OccursAt needle text k) (hk : k ≤ text.length) :
    ∃ front back, text = front ++ needle ++ back ∧ front.length = k := by
  obtain ⟨back, hback⟩ := h
  refine ⟨text.take k, back, ?_, ?_⟩
  · rw [List.append_assoc, hback, List.take_append_drop]
  · rw [List.length_take, Nat.min_eq_left hk]

theorem occursAt_append (front needle back : List α) :
    OccursAt needle (front ++ needle ++ back) front.length := by
  rw [OccursAt, List.append_assoc, List.drop_left]
  exact List.prefix_append _ _

end

section

variable {P Q : Nat → Prop} {start k k' : Nat} {result : Int}

/-- The first place from `start` on with a property. -/
def FirstFrom (P : Nat → Prop) (start k : Nat) : Prop :=
  start ≤ k ∧ P k ∧ ∀ j, start ≤ j → j < k → ¬ P j

theorem FirstFrom.unique (h : FirstFrom P start k) (h' : FirstFrom P start k') : k = k' := by
  obtain ⟨hle, hk, hbefore⟩ := h
  obtain ⟨hle', hk', hbefore'⟩ := h'
  rcases Nat.lt_trichotomy k k' with hlt | heq | hlt
  · exact absurd hk (hbefore' k hle hlt)
  · exact heq
  · exact absurd hk' (hbefore k' hle' hlt)

theorem exists_firstFrom (hle : start ≤ k) (hk : P k) : ∃ first, FirstFrom P start first := by
  induction k using Nat.strong_induction_on with
  | _ k ih =>
      by_cases hbefore : ∃ j, start ≤ j ∧ j < k ∧ P j
      · obtain ⟨j, hj, hlt, hPj⟩ := hbefore
        exact ih j hlt hj hPj
      · exact ⟨k, hle, hk, fun j hj hlt hPj => hbefore ⟨j, hj, hlt, hPj⟩⟩

def IsFirst (P : Nat → Prop) (start : Nat) (result : Int) : Prop :=
  (∃ k : Nat, FirstFrom P start k ∧ result = k) ∨ (∀ k, start ≤ k → ¬ P k) ∧ result = -1

theorem IsFirst.of_succ (h : IsFirst P (start + 1) result) (hstart : ¬ P start) :
    IsFirst P start result := by
  rcases h with ⟨k, ⟨hle, hk, hbefore⟩, rfl⟩ | ⟨hnone, rfl⟩
  · refine .inl ⟨k, ⟨by omega, hk, fun j hj hlt => ?_⟩, rfl⟩
    rcases Nat.lt_or_eq_of_le hj with hgt | rfl
    · exact hbefore j hgt hlt
    · exact hstart
  · refine .inr ⟨fun k hle => ?_, rfl⟩
    rcases Nat.lt_or_eq_of_le hle with hgt | rfl
    · exact hnone k hgt
    · exact hstart

theorem isFirst_shift (P : Nat → Prop) (start : Nat) {found : Option Nat}
    (h : IsFirst P 0 (found.elim (-1) fun k => k)) :
    IsFirst (fun k => P (k - start)) start (found.elim (-1) fun k => (start + k : Nat)) := by
  cases found with
  | none =>
      rcases h with ⟨k, _, hk⟩ | ⟨hnone, _⟩
      · exact absurd hk (by simp)
      · exact .inr ⟨fun k _ => hnone (k - start) (Nat.zero_le _), rfl⟩
  | some found =>
      rcases h with ⟨k, ⟨_, hk, hbefore⟩, heq⟩ | ⟨_, hneg⟩
      · obtain rfl : found = k := Int.ofNat.inj heq
        refine .inl ⟨start + found, ⟨Nat.le_add_right _ _, ?_, fun j hj hlt => ?_⟩, rfl⟩
        · dsimp only
          rwa [Nat.add_sub_cancel_left]
        · exact hbefore (j - start) (Nat.zero_le _) (by omega)
      · exact absurd hneg (by simp)

theorem isFirst_iff (hresult : IsFirst P start result) :
    IsFirst Q start result ↔
      ∀ k, start ≤ k → (∀ j, start ≤ j → j < k → ¬ Q j) → (P k ↔ Q k) := by
  constructor
  · intro hQ k hle hbefore
    rcases hQ with ⟨q, ⟨hqle, hq, hqbefore⟩, rfl⟩ | ⟨hnone, rfl⟩
    · rcases hresult with ⟨p, ⟨hple, hp, hpbefore⟩, hpq⟩ | ⟨_, hpq⟩
      · obtain rfl : q = p := Int.ofNat.inj hpq
        rcases Nat.lt_trichotomy k q with hlt | rfl | hlt
        · exact iff_of_false (hpbefore k hle hlt) (hqbefore k hle hlt)
        · exact iff_of_true hp hq
        · exact absurd hq (hbefore q hqle hlt)
      · omega
    · rcases hresult with ⟨p, _, hpq⟩ | ⟨hpnone, _⟩
      · omega
      · exact iff_of_false (hpnone k hle) (hnone k hle)
  · intro hagree
    rcases hresult with ⟨p, ⟨hple, hp, hpbefore⟩, rfl⟩ | ⟨hpnone, rfl⟩
    · have hbefore : ∀ j, start ≤ j → j < p → ¬ Q j := by
        intro j
        induction j using Nat.strong_induction_on with
        | _ j ih =>
            intro hj hlt
            rw [← hagree j hj fun i hi hij => ih i hij hi (hij.trans hlt)]
            exact hpbefore j hj hlt
      exact .inl ⟨p, ⟨hple, (hagree p hple hbefore).mp hp, hbefore⟩, rfl⟩
    · refine .inr ⟨fun k hle hk => ?_, rfl⟩
      obtain ⟨first, hfirst⟩ := exists_firstFrom hle hk
      exact hpnone first hfirst.1 ((hagree first hfirst.1 hfirst.2.2).mpr hfirst.2.1)

end

end AmxModC.Foundation
