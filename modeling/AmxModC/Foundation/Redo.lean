import Mathlib.Data.Option.Basic
import Mathlib.Data.List.Basic

namespace AmxModC.Foundation

/-! A log of operations over a partial map.  Every operation acts on each key by
itself; an action that either ignores what it finds or makes nothing of nothing
can be done once more over its own result. -/

variable {K E Op : Type*}

def Redoable (f : Option E → Option E) : Prop :=
  (∀ x y, f x = f y) ∨ f none = none

namespace Redoable

variable {f g : Option E → Option E}

theorem id : Redoable (fun x : Option E => x) := .inr rfl

theorem comp (hg : Redoable g) (hf : Redoable f) : Redoable fun x => g (f x) := by
  rcases hg with hconst | hnone
  · exact .inl fun x y => hconst _ _
  · rcases hf with hconst | hnone'
    · exact .inl fun x y => congrArg g (hconst x y)
    · exact .inr ((congrArg g hnone').trans hnone)

theorem again (h : Redoable f) : f (f none) = f none := by
  rcases h with hconst | hnone
  · exact hconst _ _
  · rw [hnone, hnone]

theorem merged (h : Redoable f) (x : Option E) : f (x.or (f x)) = f x := by
  cases x with
  | none => exact h.again
  | some _ => rfl

end Redoable

def Sieving (f : Option E → Option E) : Prop :=
  (∀ x y, f x = f y) ∨ ∀ x, f x = x ∨ f x = none

namespace Sieving

variable {f g : Option E → Option E}

end Sieving

def redo (effect : Op → K → Option E → Option E) (log : List Op) (key : K) (x : Option E) :
    Option E :=
  log.foldl (fun x op => effect op key x) x

section

variable {effect : Op → K → Option E → Option E} {log : List Op} {op : Op} {key : K}
  {x : Option E}

@[simp] theorem redo_cons :
    redo effect (op :: log) key x = redo effect log key (effect op key x) := rfl

theorem redo_concat : redo effect (log ++ [op]) key x = effect op key (redo effect log key x) := by
  rw [redo, List.foldl_append]
  rfl

theorem redoable_redo (h : ∀ op key, Redoable (effect op key)) (log : List Op) (key : K) :
    Redoable (redo effect log key) := by
  induction log with
  | nil => exact Redoable.id
  | cons op log ih => exact ih.comp (h op key)

theorem redo_induction
    {P : Option E → Prop}
    (hkeep : ∀ op ∈ log, ∀ x, P x → P (effect op key x))
    (hx : P x) :
    P (redo effect log key x) := by
  induction log generalizing x with
  | nil => exact hx
  | cons op log ih =>
      obtain ⟨hop, hlog⟩ := List.forall_mem_cons.mp hkeep
      exact ih hlog (hop x hx)

end

end AmxModC.Foundation
