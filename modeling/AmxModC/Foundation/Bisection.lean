import Mathlib.Data.Int.Order.Basic

namespace AmxModC.Foundation

/-! Binary search with a comparison that is `0` at what is looked for, positive where that lies
below and negative where it lies above; `none` is a comparison that goes wrong. -/

/-- `while (first<=last)`: the index where the search ends, if it is found at all. -/
def bisect (compare : Nat → Option Int) (first last : Int) : Option (Option Nat) :=
  if first ≤ last then do
    let mid := (first + last) / 2
    let result ← compare mid.toNat
    if 0 < result then bisect compare first (mid - 1)
    else if result < 0 then bisect compare (mid + 1) last
    else some (some mid.toNat)
  else some none
termination_by (last + 1 - first).toNat

section

variable {compare : Nat → Option Int} {first last : Int} {i : Nat}

theorem compare_of_bisect (h : bisect compare first last = some (some i)) :
    compare i = some 0 := by
  fun_induction bisect with
  | case1 first last hle mid ih ih' =>
      cases hcompare : compare mid.toNat with
      | none => simp [hcompare] at h
      | some result =>
          simp only [hcompare, Option.bind_eq_bind, Option.bind_some] at h
          split at h
          next => exact ih h
          next hpos =>
            split at h
            next => exact ih' h
            next hneg =>
              have hzero : result = 0 := by omega
              cases h
              rw [hcompare, hzero]
  | case2 => cases h

/-- The entries are in order: those in front of one that is not below compare below it. -/
def Ascending (compare : Nat → Option Int) (count : Nat) : Prop :=
  ∀ i < count, ∃ result, compare i = some result ∧
    (result ≤ 0 → ∀ j < i, ∃ r < 0, compare j = some r) ∧
    (0 ≤ result → ∀ j, i < j → j < count → ∃ r > 0, compare j = some r)

theorem bisect_of_ascending {count : Nat} (h : Ascending compare count) (hfirst : 0 ≤ first)
    (hlast : last < count)
    (hbelow : ∀ j : Nat, j < first → ∃ r < 0, compare j = some r)
    (habove : ∀ j : Nat, last < j → j < count → ∃ r > 0, compare j = some r) :
    (∃ i < count, bisect compare first last = some (some i) ∧ compare i = some 0) ∨
      bisect compare first last = some none ∧ ∀ i < count, compare i ≠ some 0 := by
  fun_induction bisect with
  | case1 first last hle mid ih ih' =>
      have hmid : 0 ≤ mid ∧ first ≤ mid ∧ mid ≤ last := by omega
      obtain ⟨result, hcompare, hlow, hhigh⟩ := h mid.toNat (by omega)
      simp only [hcompare, Option.bind_eq_bind, Option.bind_some]
      split
      next hpos =>
        refine ih hfirst (by omega) hbelow fun j hj hcount => ?_
        rcases Nat.lt_or_eq_of_le (show mid.toNat ≤ j by omega) with hlt | rfl
        · exact hhigh (le_of_lt hpos) j hlt hcount
        · exact ⟨result, hpos, hcompare⟩
      next hpos =>
        split
        next hneg =>
          refine ih' (by omega) hlast (fun j hj => ?_) habove
          rcases Nat.lt_or_eq_of_le (show j ≤ mid.toNat by omega) with hlt | rfl
          · exact hlow (le_of_lt hneg) j hlt
          · exact ⟨result, hneg, hcompare⟩
        next hneg =>
          have hzero : result = 0 := by omega
          exact .inl ⟨mid.toNat, by omega, rfl, hzero ▸ hcompare⟩
  | case2 first last hgt =>
      refine .inr ⟨rfl, fun i hi hzero => ?_⟩
      rcases lt_or_ge (i : Int) first with hlt | hge
      · obtain ⟨r, hr, hcompare⟩ := hbelow i hlt
        rw [hcompare] at hzero
        cases hzero
        exact lt_irrefl _ hr
      · obtain ⟨r, hr, hcompare⟩ := habove i (by omega) hi
        rw [hcompare] at hzero
        cases hzero
        exact lt_irrefl _ hr

end

/-- `while (low<high)`: the first index that is not below what is looked for. -/
def lowerBound (below : Nat → Bool) (low high : Nat) : Nat :=
  if low < high then
    let mid := (low + high) / 2
    if below mid then lowerBound below (mid + 1) high else lowerBound below low mid
  else low
termination_by high - low

theorem lowerBound_spec (below : Nat → Bool) {low high : Nat} (hle : low ≤ high)
    (hmono : ∀ i j, low ≤ i → i ≤ j → j < high → below j → below i) :
    low ≤ lowerBound below low high ∧ lowerBound below low high ≤ high ∧
      (∀ i, low ≤ i → i < lowerBound below low high → below i) ∧
      ∀ i, lowerBound below low high ≤ i → i < high → below i = false := by
  fun_induction lowerBound with
  | case1 low high hlt mid hbelow ih =>
      have hmid : low ≤ mid ∧ mid < high := by omega
      obtain ⟨h1, h2, h3, h4⟩ := ih (by omega) fun i j hi => hmono i j (by omega)
      refine ⟨by omega, h2, fun i hi hr => ?_, h4⟩
      rcases Nat.lt_or_ge mid i with hgt | hge
      · exact h3 i hgt hr
      · exact hmono i mid hi hge hmid.2 hbelow
  | case2 low high hlt mid hbelow ih =>
      have hmid : low ≤ mid ∧ mid < high := by omega
      obtain ⟨h1, h2, h3, h4⟩ := ih hmid.1 fun i j hi hij hj => hmono i j hi hij (by omega)
      refine ⟨h1, by omega, h3, fun i hi hlast => ?_⟩
      rcases Nat.lt_or_ge i mid with hlt' | hge
      · exact h4 i hi hlt'
      · refine Bool.eq_false_iff.mpr fun htrue => hbelow ?_
        exact hmono mid i hmid.1 hge hlast htrue
  | case3 low high hge => exact ⟨Nat.le_refl _, hle, fun i h1 h2 => by omega, fun i h1 h2 => by omega⟩

end AmxModC.Foundation
