import Mathlib.Logic.Equiv.Basic

namespace AmxModC.Foundation

/-! Two families of places that trade places, one pair after the other. -/

variable {ι α : Type} {f g : ι → α} {a : ι} {family : List ι} {x : α}

structure Exchangeable (f g : ι → α) (family : List ι) : Prop where
  nodup : family.Nodup
  left : ∀ {a b}, f a = f b → a = b
  right : ∀ {a b}, g a = g b → a = b
  apart : ∀ a ∈ family, ∀ b ∈ family, f a ≠ g b

theorem Exchangeable.symm (h : Exchangeable f g family) : Exchangeable g f family where
  nodup := h.nodup
  left := h.right
  right := h.left
  apart := fun a ha b hb hab => h.apart b hb a ha hab.symm

theorem Exchangeable.tail (h : Exchangeable f g (a :: family)) : Exchangeable f g family where
  nodup := h.nodup.of_cons
  left := h.left
  right := h.right
  apart := fun b hb b' hb' => h.apart b (List.mem_cons_of_mem _ hb) b' (List.mem_cons_of_mem _ hb')

variable [DecidableEq α]

def exchange (f g : ι → α) : List ι → Equiv.Perm α
  | [] => Equiv.refl α
  | a :: family => (Equiv.swap (f a) (g a)).trans (exchange f g family)

theorem exchange_cons_apply (f g : ι → α) (a : ι) (family : List ι) (x : α) :
    exchange f g (a :: family) x = exchange f g family (Equiv.swap (f a) (g a) x) := rfl

theorem exchange_comm (f g : ι → α) (family : List ι) :
    exchange f g family = exchange g f family := by
  induction family with
  | nil => rfl
  | cons a family ih => rw [exchange, exchange, ih, Equiv.swap_comm]

theorem exchange_of_ne (hf : ∀ a ∈ family, x ≠ f a) (hg : ∀ a ∈ family, x ≠ g a) :
    exchange f g family x = x := by
  induction family with
  | nil => rfl
  | cons a family ih =>
      rw [List.forall_mem_cons] at hf hg
      rw [exchange_cons_apply, Equiv.swap_apply_of_ne_of_ne hf.1 hg.1]
      exact ih hf.2 hg.2

theorem Exchangeable.exchange_left (h : Exchangeable f g family) (ha : a ∈ family) :
    exchange f g family (f a) = g a := by
  induction family with
  | nil => cases ha
  | cons b family ih =>
      rw [exchange_cons_apply]
      rcases List.mem_cons.mp ha with rfl | hmem
      · rw [Equiv.swap_apply_left]
        refine exchange_of_ne (fun b hb hab => ?_) fun b hb hab => ?_
        · exact h.apart b (List.mem_cons_of_mem _ hb) a List.mem_cons_self hab.symm
        · exact (List.nodup_cons.mp h.nodup).1 (h.right hab ▸ hb)
      · have hleft : f a ≠ f b := by
          intro hab
          exact (List.nodup_cons.mp h.nodup).1 (h.left hab ▸ hmem)
        rw [Equiv.swap_apply_of_ne_of_ne hleft (h.apart a ha b List.mem_cons_self)]
        exact ih h.tail hmem

theorem Exchangeable.exchange_right (h : Exchangeable f g family) (ha : a ∈ family) :
    exchange f g family (g a) = f a := by
  rw [exchange_comm]
  exact h.symm.exchange_left ha

end AmxModC.Foundation
