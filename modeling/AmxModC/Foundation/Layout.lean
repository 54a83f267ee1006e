import Mathlib.Data.List.Basic
import Mathlib.Algebra.BigOperators.Group.List.Basic
import Mathlib.Algebra.GroupWithZero.Nat

namespace AmxModC.Foundation

/-! Blocks of given sizes, one above the other and the last one lowest. -/

def offset (sizes : List Nat) (i : Nat) : Nat := (sizes.drop (i + 1)).sum

section

variable {sizes : List Nat} {i size : Nat}

theorem offset_cons_zero (size : Nat) (sizes : List Nat) : offset (size :: sizes) 0 = sizes.sum :=
  rfl

theorem offset_cons_succ (size : Nat) (sizes : List Nat) (i : Nat) :
    offset (size :: sizes) (i + 1) = offset sizes i := rfl

theorem offset_le_sum (sizes : List Nat) (i : Nat) : offset sizes i ≤ sizes.sum := by
  have hsum := List.sum_take_add_sum_drop sizes (i + 1)
  rw [offset]
  omega

theorem offset_add_le_sum (h : sizes[i]? = some size) : offset sizes i + size ≤ sizes.sum := by
  induction sizes generalizing i with
  | nil => cases h
  | cons first sizes ih =>
      rw [List.sum_cons]
      cases i with
      | zero =>
          cases h
          rw [offset_cons_zero]
          omega
      | succ i =>
          have hrest := ih h
          rw [offset_cons_succ]
          omega

end

theorem foldl_overwrite {σ α β : Type*} {step : σ → α → σ} {get : σ → β} {value : α → Option β}
    {I : σ → Prop} {list : List α} (hkeep : ∀ {s x}, I s → x ∈ list → I (step s x))
    (hget : ∀ {s x}, I s → x ∈ list → get (step s x) = (value x).getD (get s)) {s : σ} (hs : I s) :
    get (list.foldl step s) = (list.reverse.findSome? value).getD (get s) := by
  induction list generalizing s with
  | nil => rfl
  | cons x list ih =>
      have hstep := ih (fun hI hmem => hkeep hI (List.mem_cons_of_mem x hmem))
        (fun hI hmem => hget hI (List.mem_cons_of_mem x hmem)) (hkeep hs List.mem_cons_self)
      rw [List.foldl_cons, hstep, hget hs List.mem_cons_self, List.reverse_cons,
        List.findSome?_append]
      cases list.reverse.findSome? value with
      | none => simp
      | some written => rfl

end AmxModC.Foundation
