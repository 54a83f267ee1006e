import Mathlib.Data.List.Basic
import Mathlib.Data.Nat.ModEq

namespace AmxModC.Foundation

/-! A queue in a ring of places. -/

/-- `count` entries from the place `head` on; `tail` is the place for the next one. -/
structure RingQueue (α : Type*) where
  places : List (Option α)
  head : Nat
  tail : Nat
  count : Nat

namespace RingQueue

variable {α : Type*}

def empty (size : Nat) : RingQueue α where
  places := List.replicate size none
  head := 0
  tail := 0
  count := 0

def front (r : RingQueue α) : Option α := r.places[r.head]?.join

def push (r : RingQueue α) (a : α) : Option (RingQueue α) :=
  if r.count < r.places.length then
    some
      { r with
        places := r.places.set r.tail (some a)
        tail := (r.tail + 1) % r.places.length
        count := r.count + 1 }
  else none

def pop (r : RingQueue α) : RingQueue α :=
  { r with head := (r.head + 1) % r.places.length, count := r.count - 1 }

structure Holds (r : RingQueue α) (queue : List α) : Prop where
  count : r.count = queue.length
  fits : queue.length ≤ r.places.length
  head : r.head < r.places.length
  tail : r.tail = (r.head + queue.length) % r.places.length
  places : ∀ i (h : i < queue.length),
    r.places[(r.head + i) % r.places.length]? = some (some queue[i])

variable {r r' : RingQueue α} {a : α} {queue : List α} {size : Nat}

theorem holds_empty (hsize : 0 < size) : Holds (empty size : RingQueue α) [] where
  count := rfl
  fits := Nat.zero_le _
  head := by simpa [empty] using hsize
  tail := by simp [empty]
  places _ h := absurd h (Nat.not_lt_zero _)

theorem add_mod_ne {head first second : Nat} (hlt : first < second) (hsecond : second < size) :
    (head + first) % size ≠ (head + second) % size := by
  intro heq
  have hmod : first ≡ second [MOD size] := Nat.ModEq.add_left_cancel' head heq
  have hfirst := Nat.mod_eq_of_lt (hlt.trans hsecond)
  have hsecond := Nat.mod_eq_of_lt hsecond
  rw [Nat.ModEq, hfirst, hsecond] at hmod
  exact absurd hmod hlt.ne

namespace Holds

theorem front (h : r.Holds (a :: queue)) : r.front = some a := by
  have hplace := h.places 0 (Nat.zero_lt_succ _)
  rw [Nat.add_zero, Nat.mod_eq_of_lt h.head] at hplace
  rw [RingQueue.front, hplace]
  rfl

theorem pop (h : r.Holds (a :: queue)) : r.pop.Holds queue where
  count := by
    rw [RingQueue.pop, h.count]
    rfl
  fits := Nat.le_of_succ_le h.fits
  head := Nat.mod_lt _ (Nat.zero_lt_of_lt h.head)
  tail := by
    change r.tail = ((r.head + 1) % r.places.length + queue.length) % r.places.length
    rw [h.tail, Nat.mod_add_mod, List.length_cons]
    congr 1
    omega
  places i hi := by
    change r.places[((r.head + 1) % r.places.length + i) % r.places.length]? = _
    rw [Nat.mod_add_mod, Nat.add_assoc, Nat.add_comm 1 i, h.places (i + 1) (Nat.succ_lt_succ hi)]
    rfl

theorem push (h : r.Holds queue) (hroom : queue.length < r.places.length) :
    ∃ r', r.push a = some r' ∧ r'.places.length = r.places.length ∧ r'.Holds (queue ++ [a]) := by
  refine ⟨_, if_pos (h.count ▸ hroom), List.length_set, ?_⟩
  have htail : r.tail < r.places.length := h.tail ▸ Nat.mod_lt _ (Nat.zero_lt_of_lt h.head)
  constructor
  · simp [h.count]
  · simpa using Nat.succ_le_of_lt hroom
  · simpa using h.head
  · simp only [List.length_set, List.length_append, List.length_singleton]
    rw [h.tail, Nat.mod_add_mod, Nat.add_assoc]
  · intro i hi
    simp only [List.length_set]
    rcases Nat.lt_succ_iff_lt_or_eq.mp (by simpa using hi) with hlt | rfl
    · have hne : r.tail ≠ (r.head + i) % r.places.length :=
        h.tail ▸ (add_mod_ne hlt hroom).symm
      rw [List.getElem?_set_ne hne, h.places i hlt, List.getElem_append_left hlt]
    · rw [← h.tail, List.getElem?_set_self htail, List.getElem_append_right le_rfl]
      simp

end Holds

end RingQueue

end AmxModC.Foundation
