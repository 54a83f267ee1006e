import Mathlib.Data.List.TakeWhile
import Mathlib.Order.Lattice
import Mathlib.Data.List.Permutation
import Mathlib.Data.List.ProdSigma
import Mathlib.Tactic.Common

namespace AmxModC.Foundation

section

/-! Sorting with a comparison function of the caller. -/

variable {α State : Type*}

/-- What the array holds when two of its elements are compared, and how the sort goes on with any
answer. -/
inductive Sorting (α : Type*) where
  | done (result : List α)
  | compare (current : List α) (left right : α) (next : Int → Sorting α)

namespace Sorting

def result (cmp : α → α → Int) : Sorting α → List α
  | done result => result
  | compare _ left right next => (next (cmp left right)).result cmp

def perform (store : List α → State → State) (cmp : α → α → State → Option (Int × State)) :
    Sorting α → State → Option State
  | done result, s => some (store result s)
  | compare current left right next, s =>
      (cmp left right (store current s)).bind fun (answer, s) => (next answer).perform store cmp s

/-- Only elements of the array are compared, and it ends with them all, whatever the answers. -/
def Honest (xs : List α) : Sorting α → Prop
  | done result => result.Perm xs
  | compare current left right next =>
      current.length = xs.length ∧ left ∈ xs ∧ right ∈ xs ∧ ∀ answer, (next answer).Honest xs

def after : Sorting α → List Int → Sorting α
  | compare _ _ _ next, answer :: answers => (next answer).after answers
  | sorting, _ => sorting

def Ends (sorting : Sorting α) : Prop :=
  ∀ answers : Nat → Int, ∃ n result, sorting.after ((List.range n).map answers) = done result

theorem ends (sorting : Sorting α) : sorting.Ends := by
  induction sorting with
  | done result => exact fun _ => ⟨0, result, by simp [after]⟩
  | compare current left right next ih =>
      intro answers
      obtain ⟨n, result, hafter⟩ := ih (answers 0) fun i => answers (i + 1)
      refine ⟨n + 1, result, ?_⟩
      rw [List.range_succ_eq_map, List.map_cons, List.map_map]
      exact hafter

namespace Honest

variable {xs : List α} {sorting : Sorting α}

theorem result_perm (h : sorting.Honest xs) (cmp : α → α → Int) :
    (sorting.result cmp).Perm xs := by
  induction sorting with
  | done result => exact h
  | compare current left right next ih => exact ih _ (h.2.2.2 _)

theorem result_congr (h : sorting.Honest xs) {cmp cmp' : α → α → Int}
    (hagree : ∀ x ∈ xs, ∀ y ∈ xs, cmp x y = cmp' x y) : sorting.result cmp = sorting.result cmp' := by
  induction sorting with
  | done result => rfl
  | compare current left right next ih =>
      rw [result, result, hagree left h.2.1 right h.2.2.1]
      exact ih _ (h.2.2.2 _)

variable {store : List α → State → State} {cmp : α → α → State → Option (Int × State)}
  {I : State → Prop}

theorem perform_invariant (h : sorting.Honest xs)
    (hkeep : ∀ {current left right s answer s'}, I s → current.length = xs.length →
      left ∈ xs → right ∈ xs → cmp left right (store current s) = some (answer, s') → I s')
    {s final : State} (hinv : I s) (hperform : sorting.perform store cmp s = some final) :
    ∃ result s', result.Perm xs ∧ I s' ∧ final = store result s' := by
  induction sorting generalizing s with
  | done result =>
      cases hperform
      exact ⟨result, s, h, hinv, rfl⟩
  | compare current left right next ih =>
      obtain ⟨⟨answer, s'⟩, hcmp, hrest⟩ := Option.bind_eq_some_iff.mp hperform
      exact ih answer (h.2.2.2 answer) (hkeep hinv h.1 h.2.1 h.2.2.1 hcmp) hrest

theorem perform_isSome (h : sorting.Honest xs)
    (hkeep : ∀ {current left right s}, I s → current.length = xs.length → left ∈ xs →
      right ∈ xs → ∃ answer s', cmp left right (store current s) = some (answer, s') ∧ I s')
    {s : State} (hinv : I s) : ∃ final, sorting.perform store cmp s = some final := by
  induction sorting generalizing s with
  | done result => exact ⟨_, rfl⟩
  | compare current left right next ih =>
      obtain ⟨answer, s', hcmp, hinv'⟩ := hkeep hinv h.1 h.2.1 h.2.2.1
      obtain ⟨final, hfinal⟩ := ih answer (h.2.2.2 answer) hinv'
      refine ⟨final, ?_⟩
      rw [perform, hcmp]
      exact hfinal

end Honest

end Sorting

structure Consistent (cmp : α → α → Int) : Prop where
  swap : ∀ x y, cmp x y < 0 ↔ 0 < cmp y x
  trans : ∀ {x y z}, cmp x y ≤ 0 → cmp y z ≤ 0 → cmp x z ≤ 0

theorem Consistent.total {cmp : α → α → Int} (h : Consistent cmp) (x y : α) :
    cmp x y ≤ 0 ∨ cmp y x ≤ 0 := by
  have := h.swap y x
  omega

theorem consistent_key (key : α → Int) : Consistent fun x y => key x - key y where
  swap x y := by omega
  trans := by omega

structure Sorts (qsort : List α → Sorting α) : Prop where
  honest : ∀ xs, (qsort xs).Honest xs
  sorted : ∀ {cmp}, Consistent cmp → ∀ xs, ((qsort xs).result cmp).Pairwise fun x y => cmp x y ≤ 0

namespace Sorting

section

variable [DecidableEq α]

def asking (xs : List α) (f : (α → α → Int) → List α) :
    List (α × α) → (α → α → Int) → Sorting α
  | [], known => .done (f known)
  | (left, right) :: rest, known =>
      .compare xs left right fun answer =>
        asking xs f rest fun x y => if x = left ∧ y = right then answer else known x y

theorem honest_asking {xs : List α} {f : (α → α → Int) → List α} {pairs : List (α × α)}
    (hpairs : ∀ pair ∈ pairs, pair.1 ∈ xs ∧ pair.2 ∈ xs) (hperm : ∀ cmp, (f cmp).Perm xs)
    (known : α → α → Int) : (asking xs f pairs known).Honest xs := by
  induction pairs generalizing known with
  | nil => exact hperm known
  | cons pair rest ih =>
      rw [List.forall_mem_cons] at hpairs
      exact ⟨rfl, hpairs.1.1, hpairs.1.2, fun answer => ih hpairs.2 _⟩

theorem result_asking {xs : List α} {f : (α → α → Int) → List α} {pairs : List (α × α)}
    (cmp known : α → α → Int) :
    (asking xs f pairs known).result cmp =
      f fun x y => if (x, y) ∈ pairs then cmp x y else known x y := by
  induction pairs generalizing known with
  | nil => simp [asking, result]
  | cons pair rest ih =>
      rw [asking, result, ih]
      congr 1
      funext x y
      by_cases hrest : (x, y) ∈ rest
      · simp [hrest]
      · by_cases hpair : x = pair.1 ∧ y = pair.2
        · obtain ⟨rfl, rfl⟩ := hpair
          simp [hrest]
        · have hne : (x, y) ≠ pair := fun heq => hpair ⟨congrArg Prod.fst heq, congrArg Prod.snd heq⟩
          simp [hrest, hpair, hne]

theorem sorts_of_local {f : (α → α → Int) → List α → List α}
    (hperm : ∀ cmp xs, (f cmp xs).Perm xs)
    (hlocal : ∀ (cmp cmp' : α → α → Int) (xs : List α),
      (∀ x ∈ xs, ∀ y ∈ xs, cmp x y = cmp' x y) → f cmp xs = f cmp' xs)
    (hsorted : ∀ {cmp}, Consistent cmp → ∀ xs, (f cmp xs).Pairwise fun x y => cmp x y ≤ 0) :
    Sorts fun xs => asking xs (f · xs) (xs ×ˢ xs) fun _ _ => 0 where
  honest xs := by
    refine honest_asking (fun pair hpair => ?_) (hperm · xs) _
    exact List.mem_product.mp hpair
  sorted := by
    intro cmp hcmp xs
    have hasked := hlocal (fun x y => if (x, y) ∈ xs ×ˢ xs then cmp x y else 0) cmp xs
      fun x hx y hy => if_pos (List.mem_product.mpr ⟨hx, hy⟩)
    rw [result_asking, hasked]
    exact hsorted hcmp xs

end

def search (cmp : α → α → Int) (xs : List α) : List α :=
  (xs.permutations'.find? fun ys => decide (ys.Pairwise fun x y => cmp x y ≤ 0)).getD xs

theorem search_perm (cmp : α → α → Int) (xs : List α) : (search cmp xs).Perm xs := by
  unfold search
  cases hfind : xs.permutations'.find? fun ys => decide (ys.Pairwise fun x y => cmp x y ≤ 0) with
  | none => exact List.Perm.refl xs
  | some ys => exact List.mem_permutations'.mp (List.mem_of_find?_eq_some hfind)

theorem search_congr (cmp cmp' : α → α → Int) (xs : List α)
    (hagree : ∀ x ∈ xs, ∀ y ∈ xs, cmp x y = cmp' x y) : search cmp xs = search cmp' xs := by
  have hpred : ∀ ys ∈ xs.permutations',
      decide (ys.Pairwise fun x y => cmp x y ≤ 0) =
        decide (ys.Pairwise fun x y => cmp' x y ≤ 0) := by
    intro ys hys
    have hmem := fun x => (List.mem_permutations'.mp hys).mem_iff (a := x)
    apply decide_eq_decide.mpr
    apply List.Pairwise.iff_of_mem
    intro x y hx hy
    rw [hagree x ((hmem x).mp hx) y ((hmem y).mp hy)]
  unfold search
  rw [← List.head?_filter, ← List.head?_filter, List.filter_congr hpred]

theorem search_sorted {cmp : α → α → Int} (h : Consistent cmp) (xs : List α) :
    (search cmp xs).Pairwise fun x y => cmp x y ≤ 0 := by
  unfold search
  cases hfind : xs.permutations'.find? fun ys => decide (ys.Pairwise fun x y => cmp x y ≤ 0) with
  | some ys =>
      have hfound := List.find?_some hfind
      exact of_decide_eq_true hfound
  | none =>
      have htrans : ∀ x y z, decide (cmp x y ≤ 0) = true → decide (cmp y z ≤ 0) = true →
          decide (cmp x z ≤ 0) = true := by
        simp only [decide_eq_true_eq]
        exact fun x y z => h.trans
      have htotal : ∀ x y, (decide (cmp x y ≤ 0) || decide (cmp y x ≤ 0)) = true := by
        simp only [Bool.or_eq_true, decide_eq_true_eq]
        exact h.total
      have hmerge := List.pairwise_mergeSort htrans htotal xs
      have hmem := List.mem_permutations'.mpr
        (List.mergeSort_perm xs fun x y => decide (cmp x y ≤ 0))
      have hnot := List.find?_eq_none.mp hfind _ hmem
      exact absurd (decide_eq_true (hmerge.imp of_decide_eq_true)) hnot

def searching [DecidableEq α] (xs : List α) : Sorting α :=
  asking xs (search · xs) (xs ×ˢ xs) fun _ _ => 0

theorem sorts_searching [DecidableEq α] : Sorts (searching (α := α)) :=
  sorts_of_local search_perm search_congr search_sorted

end Sorting

end

section

/-! Insertion into a list that is sorted by a key, behind what has the same key. -/

variable {α κ : Type*} [LinearOrder κ] (key : α → κ)

def insertBehind (a : α) (l : List α) : List α :=
  l.takeWhile (fun b => decide (key b ≤ key a)) ++
    a :: l.dropWhile (fun b => decide (key b ≤ key a))

section

variable {key} {a b : α} {l : List α} {R : α → α → Prop}

theorem insertBehind_perm (key : α → κ) (a : α) (l : List α) :
    (insertBehind key a l).Perm (a :: l) := by
  refine List.perm_middle.trans ?_
  rw [List.takeWhile_append_dropWhile]

theorem lt_of_mem_dropWhile (hsorted : l.Pairwise fun b c => key b ≤ key c)
    (hb : b ∈ l.dropWhile fun b => decide (key b ≤ key a)) : key a < key b := by
  induction l with
  | nil => cases hb
  | cons c l ih =>
      obtain ⟨hfirst, hrest⟩ := List.pairwise_cons.mp hsorted
      by_cases hc : key c ≤ key a
      · rw [List.dropWhile_cons, if_pos (decide_eq_true hc)] at hb
        exact ih hrest hb
      · rw [List.dropWhile_cons, if_neg fun htrue => hc (of_decide_eq_true htrue)] at hb
        rcases List.mem_cons.mp hb with rfl | hmem
        · exact not_le.mp hc
        · exact lt_of_lt_of_le (not_le.mp hc) (hfirst b hmem)

theorem pairwise_insertBehind (hsorted : l.Pairwise fun b c => key b ≤ key c)
    (hl : l.Pairwise R) (hbefore : ∀ b ∈ l, key b ≤ key a → R b a)
    (hafter : ∀ b ∈ l, key a < key b → R a b) : (insertBehind key a l).Pairwise R := by
  have hkept := hl
  rw [← List.takeWhile_append_dropWhile (p := fun b => decide (key b ≤ key a)) (l := l),
    List.pairwise_append] at hkept
  obtain ⟨hfront, hback, hcross⟩ := hkept
  rw [insertBehind, List.pairwise_append, List.pairwise_cons]
  refine ⟨hfront, ⟨fun b hb => ?_, hback⟩, fun b hb c hc => ?_⟩
  · exact hafter b ((List.dropWhile_sublist _).subset hb) (lt_of_mem_dropWhile hsorted hb)
  · rcases List.mem_cons.mp hc with rfl | hmem
    · have hle := List.mem_takeWhile_imp (p := fun b => decide (key b ≤ key c)) hb
      exact hbefore b ((List.takeWhile_sublist _).subset hb) (of_decide_eq_true hle)
    · exact hcross b hb c hmem

theorem sorted_insertBehind (a : α) (hsorted : l.Pairwise fun b c => key b ≤ key c) :
    (insertBehind key a l).Pairwise fun b c => key b ≤ key c :=
  pairwise_insertBehind hsorted hsorted (fun _ _ => id) fun _ _ => le_of_lt

end

end

end AmxModC.Foundation
