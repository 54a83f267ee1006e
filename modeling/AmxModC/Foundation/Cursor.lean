import Mathlib.Data.List.TakeWhile
import Mathlib.Data.List.Basic

namespace AmxModC.Foundation

section

/-! The element with a given number among those that count, looked for from where
an earlier search has stopped. -/

variable {α : Type*} {counts : α → Bool}

def seek (counts : α → Bool) : List α → Nat → List α
  | [], _ => []
  | x :: list, 0 => if counts x then x :: list else seek counts list 0
  | x :: list, n + 1 => seek counts list (if counts x then n else n + 1)

/-- The part `front` of a list is passed in a search that has stopped at number `n`:
there, or at the end of the list. -/
structure StandsAt (counts : α → Bool) (front rest : List α) (n : Nat) : Prop where
  le : front.countP counts ≤ n
  eq : rest ≠ [] → front.countP counts = n

section

variable {front rest passed left list : List α} {x : α} {n m : Nat}

theorem takeWhile_congr {p q : α → Bool} (h : ∀ x ∈ list, p x = q x) :
    list.takeWhile p = list.takeWhile q := by
  induction list with
  | nil => rfl
  | cons x list ih =>
      obtain ⟨hx, hlist⟩ := List.forall_mem_cons.mp h
      rw [List.takeWhile_cons, List.takeWhile_cons, hx, ih hlist]

theorem head?_seek (list : List α) (n : Nat) :
    (seek counts list n).head? = (list.filter counts)[n]? := by
  induction list generalizing n with
  | nil => rfl
  | cons x list ih =>
      cases hx : counts x with
      | false =>
          rw [List.filter_cons_of_neg (by simp [hx]), ← ih]
          cases n <;> simp [seek, hx]
      | true =>
          rw [List.filter_cons_of_pos hx]
          cases n with
          | zero => simp [seek, hx]
          | succ n =>
              rw [List.getElem?_cons_succ, ← ih]
              simp [seek, hx]

theorem seek_split (list : List α) (n : Nat) :
    ∃ passed, list = passed ++ seek counts list n ∧
      StandsAt counts passed (seek counts list n) n := by
  induction list generalizing n with
  | nil => exact ⟨[], rfl, ⟨Nat.zero_le _, fun hne => absurd rfl hne⟩⟩
  | cons x list ih =>
      cases hx : counts x with
      | false =>
          obtain ⟨passed, hlist, hstands⟩ := ih n
          have hseek : seek counts (x :: list) n = seek counts list n := by
            cases n <;> simp [seek, hx]
          rw [hseek]
          refine ⟨x :: passed, congrArg (x :: ·) hlist, ?_, ?_⟩
          · simpa [hx] using hstands.le
          · simpa [hx] using hstands.eq
      | true =>
          cases n with
          | zero =>
              have hseek : seek counts (x :: list) 0 = x :: list := by simp [seek, hx]
              rw [hseek]
              exact ⟨[], rfl, ⟨Nat.zero_le _, fun _ => rfl⟩⟩
          | succ n =>
              obtain ⟨passed, hlist, hstands⟩ := ih n
              have hseek : seek counts (x :: list) (n + 1) = seek counts list n := by
                simp [seek, hx]
              rw [hseek]
              refine ⟨x :: passed, congrArg (x :: ·) hlist, ?_, ?_⟩
              · simpa [hx] using hstands.le
              · simpa [hx] using hstands.eq

theorem StandsAt.head?_seek (h : StandsAt counts front rest n) (hle : n ≤ m) :
    (seek counts rest (m - n)).head? = ((front ++ rest).filter counts)[m]? := by
  rw [Foundation.head?_seek, List.filter_append]
  have hlength : (front.filter counts).length ≤ m :=
    List.countP_eq_length_filter ▸ h.le.trans hle
  rw [List.getElem?_append_right hlength, ← List.countP_eq_length_filter]
  cases hrest : rest with
  | nil => rfl
  | cons x left => rw [h.eq (by simp [hrest])]

theorem StandsAt.seek (h : StandsAt counts front rest n) (hle : n ≤ m) :
    ∃ passed, rest = passed ++ seek counts rest (m - n) ∧
      StandsAt counts (front ++ passed) (seek counts rest (m - n)) m := by
  obtain ⟨passed, hrest, hstands⟩ := @seek_split _ counts rest (m - n)
  refine ⟨passed, hrest, ?_, fun hne => ?_⟩
  · rw [List.countP_append]
    have hfront := h.le
    have hpassed := hstands.le
    omega
  · have hfront : front.countP counts = n := h.eq fun hnil => hne (by simp [hnil, Foundation.seek])
    rw [List.countP_append, hfront, hstands.eq hne]
    omega

theorem StandsAt.insert_behind (h : StandsAt counts front (passed ++ left) n)
    (hpassed : passed ≠ []) : StandsAt counts front (passed ++ x :: left) n :=
  ⟨h.le, fun _ => h.eq (by simp [hpassed])⟩

theorem StandsAt.insert_before (h : StandsAt counts (passed ++ left) rest n)
    (hx : counts x = true → rest = [] ∧ (passed ++ left).countP counts < n) :
    StandsAt counts (passed ++ x :: left) rest n := by
  have hcount : (passed ++ x :: left).countP counts =
      (passed ++ left).countP counts + if counts x = true then 1 else 0 := by
    rw [List.countP_append, List.countP_append, List.countP_cons, Nat.add_assoc]
  cases hcounts : counts x with
  | false =>
      rw [hcounts] at hcount
      exact ⟨hcount ▸ h.le, fun hne => hcount.trans (h.eq hne)⟩
  | true =>
      obtain ⟨hrest, hlt⟩ := hx hcounts
      refine ⟨?_, fun hne => absurd hrest hne⟩
      rw [hcount, hcounts]
      exact hlt

end

end

section

/-! Chains of handlers: each in turn, up to the first that takes the event. -/

variable {α : Type*}

/-- The elements up to the first that satisfies `p`, with it. -/
def upTo (p : α → Bool) : List α → List α
  | [] => []
  | a :: rest => if p a then [a] else a :: upTo p rest

variable {p : α → Bool} {runs : α → Bool} {a : α} {list : List α}

@[simp] theorem upTo_nil : upTo p [] = [] := rfl

theorem upTo_cons_pos (h : p a = true) : upTo p (a :: list) = [a] := if_pos h

theorem upTo_cons_neg (h : p a = false) : upTo p (a :: list) = a :: upTo p list :=
  if_neg (by simp [h])

theorem upTo_cons_ne_nil : upTo p (a :: list) ≠ [] := by
  unfold upTo
  split <;> exact List.cons_ne_nil _ _

theorem upTo_ne_nil (h : list.any p = true) : upTo p list ≠ [] := by
  cases list with
  | nil => simp at h
  | cons a rest => exact upTo_cons_ne_nil

theorem mem_of_mem_upTo (h : a ∈ upTo p list) : a ∈ list := by
  induction list with
  | nil => exact h
  | cons b rest ih =>
      cases hp : p b with
      | true =>
          rw [upTo_cons_pos hp, List.mem_singleton] at h
          exact h ▸ List.mem_cons_self
      | false =>
          rw [upTo_cons_neg hp] at h
          rcases List.mem_cons.mp h with rfl | hrest
          · exact List.mem_cons_self
          · exact List.mem_cons_of_mem _ (ih hrest)

theorem upTo_map {β : Type*} {f : β → α} {list : List β} :
    upTo p (list.map f) = (upTo (p ∘ f) list).map f := by
  induction list with
  | nil => rfl
  | cons b rest ih =>
      cases hp : p (f b) with
      | false =>
          have hcomp : (p ∘ f) b = false := hp
          rw [List.map_cons, upTo_cons_neg hp, upTo_cons_neg hcomp, ih, List.map_cons]
      | true =>
          have hcomp : (p ∘ f) b = true := hp
          rw [List.map_cons, upTo_cons_pos hp, upTo_cons_pos hcomp, List.map_singleton]

theorem upTo_congr {q : α → Bool} (h : ∀ a ∈ list, p a = q a) : upTo p list = upTo q list := by
  induction list with
  | nil => rfl
  | cons a rest ih =>
      obtain ⟨hhead, htail⟩ := List.forall_mem_cons.mp h
      rw [upTo, upTo, hhead, ih htail]

theorem any_congr_of_mem {q : α → Bool} (h : ∀ a ∈ list, p a = q a) : list.any p = list.any q := by
  induction list with
  | nil => rfl
  | cons a rest ih =>
      obtain ⟨hhead, htail⟩ := List.forall_mem_cons.mp h
      rw [List.any_cons, List.any_cons, hhead, ih htail]

theorem any_upTo {q : α → Bool} (h : ∀ a ∈ list, p a = true → q a = true) :
    (upTo p list).any q = list.any q := by
  induction list with
  | nil => rfl
  | cons a rest ih =>
      obtain ⟨hhead, htail⟩ := List.forall_mem_cons.mp h
      cases hp : p a with
      | false => rw [upTo_cons_neg hp, List.any_cons, List.any_cons, ih htail]
      | true => simp [upTo_cons_pos hp, hhead hp]

theorem upTo_filter_iff {β : Type*} (f : α → β) {rest : List β} (hrest : rest ≠ []) :
    ((upTo p list).filter runs).map f ++ (if list.any p then [] else rest) =
        (upTo p (list.filter runs)).map f ++ (if (list.filter runs).any p then [] else rest) ↔
      ∀ a ∈ list.takeWhile (fun a => !(runs a && p a)), p a = true → runs a = true := by
  induction list with
  | nil => simp
  | cons a list ih =>
      cases hp : p a with
      | false =>
          cases hruns : runs a with
          | false => simpa [upTo_cons_neg hp, hp, hruns] using ih
          | true => simpa [upTo_cons_neg hp, hp, hruns] using ih
      | true =>
          cases hruns : runs a with
          | true => simp [upTo_cons_pos hp, hp, hruns]
          | false =>
              have hne : (upTo p (list.filter runs)).map f ++
                  (if (list.filter runs).any p then [] else rest) ≠ [] := by
                intro h
                obtain ⟨hfirst, hsecond⟩ := List.append_eq_nil_iff.mp h
                cases hany : (list.filter runs).any p with
                | false => exact hrest (by simpa [hany] using hsecond)
                | true => exact upTo_ne_nil hany (List.map_eq_nil_iff.mp hfirst)
              simpa [upTo_cons_pos hp, hp, hruns] using hne.symm

end

end AmxModC.Foundation
