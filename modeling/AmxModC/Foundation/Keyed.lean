import Mathlib.Data.Set.Card
import Mathlib.Data.List.Nodup
import Mathlib.Data.List.Perm.Basic

namespace AmxModC.Foundation

section

/-! A finite map kept as a list of records, each key in at most one of them. -/

variable {α K : Type*}

def Distinct (key : α → K) (l : List α) : Prop := (l.map key).Nodup

section

variable {key : α → K} {l l' : List α} {a b : α}

theorem distinct_nil : Distinct key [] := List.nodup_nil

theorem distinct_cons : Distinct key (a :: l) ↔ (∀ b ∈ l, key b ≠ key a) ∧ Distinct key l := by
  simp [Distinct, eq_comm]

theorem Distinct.perm (h : Distinct key l) (hperm : l.Perm l') : Distinct key l' :=
  (hperm.map key).nodup_iff.mp h

theorem Distinct.filter (h : Distinct key l) (p : α → Bool) : Distinct key (l.filter p) :=
  h.sublist (List.filter_sublist.map key)

theorem Distinct.map (h : Distinct key l) {f : α → α} (hf : ∀ a, key (f a) = key a) :
    Distinct key (l.map f) := by
  have hkeys : key ∘ f = key := funext hf
  rw [Distinct, List.map_map, hkeys]
  exact h

theorem Distinct.eq (h : Distinct key l) (ha : a ∈ l) (hb : b ∈ l) (heq : key a = key b) :
    a = b :=
  List.inj_on_of_nodup_map h ha hb heq

def Numbered (number : α → Nat) : List α → Prop
  | [] => True
  | a :: l => number a = l.length + 1 ∧ Numbered number l

variable {number : α → Nat}

theorem Numbered.le (h : Numbered number l) (ha : a ∈ l) : number a ≤ l.length := by
  induction l with
  | nil => cases ha
  | cons b rest ih =>
      rcases List.mem_cons.mp ha with rfl | hrest
      · exact Nat.le_of_eq h.1
      · exact Nat.le_succ_of_le (ih h.2 hrest)

theorem Numbered.distinct (h : Numbered number l) : Distinct number l := by
  induction l with
  | nil => exact distinct_nil
  | cons b rest ih =>
      refine distinct_cons.mpr ⟨fun a ha => ?_, ih h.2⟩
      have hle := h.2.le ha
      have hnumber := h.1
      omega

end

section

variable [DecidableEq K] {key : α → K} {l l' : List α} {a : α} {k : K}

instance : Decidable (Distinct key l) := inferInstanceAs (Decidable (l.map key).Nodup)

def lookup (key : α → K) (l : List α) (k : K) : Option α :=
  l.find? fun a => key a = k

theorem lookup_cons : lookup key (a :: l) k = if key a = k then some a else lookup key l k := by
  by_cases hkey : key a = k <;> simp [lookup, hkey]

theorem lookup_eq_none : lookup key l k = none ↔ ∀ a ∈ l, key a ≠ k := by
  simp [lookup]

theorem isSome_lookup : (lookup key l k).isSome ↔ k ∈ l.map key := by
  simp [lookup, List.find?_isSome]

theorem lookup_eq_some (h : Distinct key l) :
    lookup key l k = some a ↔ a ∈ l ∧ key a = k := by
  constructor
  · intro hfind
    exact ⟨List.mem_of_find?_eq_some hfind, by simpa using List.find?_some hfind⟩
  · rintro ⟨hmem, rfl⟩
    cases hfind : lookup key l (key a) with
    | none => exact absurd rfl (lookup_eq_none.mp hfind a hmem)
    | some b =>
        have hb : key b = key a := by simpa using List.find?_some hfind
        rw [h.eq (List.mem_of_find?_eq_some hfind) hmem hb]

theorem lookup_perm (h : Distinct key l) (hperm : l.Perm l') :
    lookup key l k = lookup key l' k := by
  refine Option.ext fun a => ?_
  rw [lookup_eq_some h, lookup_eq_some (h.perm hperm), hperm.mem_iff]

theorem lookup_filter (h : Distinct key l) (p : α → Bool) :
    lookup key (l.filter p) k = (lookup key l k).filter p := by
  refine Option.ext fun a => ?_
  rw [lookup_eq_some (h.filter p), Option.filter_eq_some_iff, lookup_eq_some h, List.mem_filter]
  exact and_right_comm

theorem Distinct.eraseP_eq_filter (h : Distinct key l) :
    l.eraseP (fun a => key a = k) = l.filter fun a => key a ≠ k := by
  induction l with
  | nil => rfl
  | cons b rest ih =>
      obtain ⟨hb, hrest⟩ := distinct_cons.mp h
      by_cases hkey : key b = k
      · have hfilter : rest.filter (fun a => key a ≠ k) = rest := by
          refine List.filter_eq_self.mpr fun a ha => ?_
          simpa [← hkey] using hb a ha
        rw [List.eraseP_cons_of_pos (by simpa using hkey),
          List.filter_cons_of_neg (by simpa using hkey), hfilter]
      · rw [List.eraseP_cons_of_neg (by simpa using hkey),
          List.filter_cons_of_pos (by simpa using hkey), ih hrest]

theorem lookup_map {f : α → α} (hf : ∀ a, key (f a) = key a) :
    lookup key (l.map f) k = (lookup key l k).map f := by
  induction l with
  | nil => rfl
  | cons b rest ih =>
      rw [List.map_cons, lookup_cons, lookup_cons, hf, ih]
      split <;> rfl

end

end

section

/-! Partial maps and how many keys they have. -/

variable {α β : Type} {map : α → Option β} {a : α}

def keys (map : α → Option β) : Set α := {a | (map a).isSome}

@[simp] theorem mem_keys : a ∈ keys map ↔ (map a).isSome := Iff.rfl

/-- A map with `n` keys. -/
def HasCard (map : α → Option β) (n : Nat) : Prop := (keys map).Finite ∧ (keys map).ncard = n

theorem hasCard_none : HasCard (fun _ : α => (none : Option β)) 0 := by
  have hkeys : keys (fun _ : α => (none : Option β)) = ∅ := by
    ext a
    simp
  rw [HasCard, hkeys]
  exact ⟨Set.finite_empty, Set.ncard_empty α⟩

section

variable [DecidableEq α]

theorem HasCard.of_list {l : List α} (hnodup : l.Nodup) (hmem : ∀ a, a ∈ l ↔ (map a).isSome) :
    HasCard map l.length := by
  have hkeys : keys map = ↑l.toFinset := by
    ext a
    simpa using (hmem a).symm
  rw [HasCard, hkeys, Set.ncard_coe_finset, List.toFinset_card_of_nodup hnodup]
  exact ⟨l.toFinset.finite_toSet, rfl⟩

theorem Distinct.hasCard {γ : Type} {key : γ → α} {l : List γ} (h : Distinct key l)
    (value : γ → β) : HasCard (fun a => (lookup key l a).map value) l.length := by
  have hcard := @HasCard.of_list _ _ (fun a => (lookup key l a).map value) _ _ h fun a => by
    rw [Option.isSome_map, isSome_lookup]
  rw [List.length_map] at hcard
  exact hcard

theorem keys_update_some (map : α → Option β) (a : α) (b : β) :
    keys (Function.update map a (some b)) = insert a (keys map) := by
  ext other
  by_cases h : other = a
  · simp [h]
  · simp [h]

theorem keys_update_none (map : α → Option β) (a : α) :
    keys (Function.update map a none) = keys map \ {a} := by
  ext other
  by_cases h : other = a
  · simp [h]
  · simp [h]

theorem HasCard.insert {n : Nat} (h : HasCard map n) (ha : map a = none) (b : β) :
    HasCard (Function.update map a (some b)) (n + 1) := by
  have hnotMem : a ∉ keys map := by simp [ha]
  rw [HasCard, keys_update_some, Set.ncard_insert_of_notMem hnotMem h.1, h.2]
  exact ⟨h.1.insert a, rfl⟩

theorem HasCard.overwrite {n : Nat} (h : HasCard map n) (ha : (map a).isSome) (b : β) :
    HasCard (Function.update map a (some b)) n := by
  have hmem : a ∈ keys map := ha
  rw [HasCard, keys_update_some, Set.insert_eq_of_mem hmem]
  exact h

theorem HasCard.erase {n : Nat} (h : HasCard map n) (ha : (map a).isSome) :
    HasCard (Function.update map a none) (n - 1) ∧ 0 < n := by
  have hmem : a ∈ keys map := ha
  have hpos := (Set.ncard_pos h.1).mpr ⟨a, hmem⟩
  rw [HasCard, keys_update_none, Set.ncard_sdiff_singleton_of_mem hmem]
  rw [h.2] at hpos ⊢
  exact ⟨⟨h.1.sdiff, rfl⟩, hpos⟩

end

end

end AmxModC.Foundation
