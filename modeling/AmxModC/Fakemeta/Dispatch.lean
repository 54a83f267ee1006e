import AmxModC.Fakemeta.Tables
import Mathlib.Data.List.Nodup
import Mathlib.Data.List.Perm.Subperm
import Mathlib.Order.Nat

namespace AmxModC.Fakemeta.Dispatch

open Tables

/-! The loop of `FM_ENG_HANDLE` and `FM_ENG_HANDLE_POST`, while the callbacks that it executes
register and unregister others. -/

/-- A callback in the list; `place` is its place when the loop began, if it was there. -/
structure Callback where
  id : Int
  place : Option Nat
deriving DecidableEq

inductive Change
  | register (id : Int)
  | unregister (id : Int)
deriving DecidableEq

def Change.run (list : List Callback) : Change → List Callback
  | register id => list ++ [⟨id, none⟩]
  | unregister id => list.eraseP (·.id = id)

/-- The callbacks executed in a number of turns from an index on; `changes` is what happens in
the turn of an index. -/
def loop (changes : Nat → List Change) : Nat → Nat → List Callback → List Callback
  | 0, _, _ => []
  | turns + 1, i, list =>
      match list[i]? with
      | none => []
      | some callback =>
          callback :: loop changes turns (i + 1) ((changes i).foldl Change.run list)

def atStart (ids : List Int) : List Callback :=
  ids.zipIdx.map fun element => ⟨element.1, some element.2⟩

/-! What should be executed: the callbacks of the beginning in their order, as far as they are
still registered in their turn. -/

def due (changes : Nat → List Change) : List Callback → Nat → List Callback → List Callback
  | [], _, _ => []
  | callback :: rest, i, list =>
      if callback ∈ list then
        callback :: due changes rest (i + 1) ((changes i).foldl Change.run list)
      else due changes rest i list

/-- No turn takes the callback that runs, or one in front of it, out of the list, unless no
callback of the beginning is left behind it. -/
def Undisturbed (changes : Nat → List Change) : List Callback → Nat → List Callback → Prop
  | [], _, _ => True
  | callback :: rest, i, list =>
      if callback ∈ list then
        let list' := (changes i).foldl Change.run list
        ((∀ passed ∈ list.take (i + 1), passed ∈ list') ∨ ∀ later ∈ rest, later ∉ list') ∧
          Undisturbed changes rest (i + 1) list'
      else Undisturbed changes rest i list

/-- Once every callback of the beginning can have had its turn, those that are due have been
executed, and no other one of the beginning is ever executed. -/
def Dispatched (changes : Nat → List Change) (ids : List Int) : Prop :=
  ∀ turns ≥ ids.length,
    (loop changes turns 0 (atStart ids)).filter (·.place.isSome) =
      due changes (atStart ids) 0 (atStart ids)

/-! What changes leave of a list. -/

theorem run_parts (change : Change) (a b c : List Callback) :
    ∃ a' b' c', change.run (a ++ b ++ c) = a' ++ b' ++ c' ∧ a'.Sublist a ∧ b'.Sublist b ∧
      ∀ callback ∈ c', callback ∈ c ∨ callback.place = none := by
  cases change with
  | register id =>
      refine ⟨a, b, c ++ [⟨id, none⟩], (List.append_assoc ..), .refl a, .refl b,
        fun callback hmem => ?_⟩
      rw [List.mem_append, List.mem_singleton] at hmem
      exact hmem.imp_right fun hnew => congrArg Callback.place hnew
  | unregister id =>
      rw [Change.run, List.eraseP_append, List.eraseP_append]
      split
      · split
        · exact ⟨_, b, c, rfl, List.eraseP_sublist, .refl b, fun _ hmem => .inl hmem⟩
        · exact ⟨a, _, c, rfl, .refl a, List.eraseP_sublist, fun _ hmem => .inl hmem⟩
      · exact ⟨a, b, _, rfl, .refl a, .refl b, fun _ hmem => .inl (List.mem_of_mem_eraseP hmem)⟩

theorem foldl_parts (changes : List Change) (a b c : List Callback) :
    ∃ a' b' c', changes.foldl Change.run (a ++ b ++ c) = a' ++ b' ++ c' ∧ a'.Sublist a ∧
      b'.Sublist b ∧ ∀ callback ∈ c', callback ∈ c ∨ callback.place = none := by
  induction changes generalizing a b c with
  | nil => exact ⟨a, b, c, rfl, .refl a, .refl b, fun _ hmem => .inl hmem⟩
  | cons change changes ih =>
      obtain ⟨a₁, b₁, c₁, hrun, ha, hb, hc⟩ := run_parts change a b c
      obtain ⟨a₂, b₂, c₂, hfold, ha', hb', hc'⟩ := ih a₁ b₁ c₁
      refine ⟨a₂, b₂, c₂, ?_, ha'.trans ha, hb'.trans hb, fun callback hmem => ?_⟩
      · rw [List.foldl_cons, hrun, hfold]
      · exact (hc' callback hmem).elim (hc callback) .inr

theorem mem_drop_foldl {changes : List Change} {list : List Callback} {i : Nat}
    {callback : Callback} (hmem : callback ∈ (changes.foldl Change.run list).drop i) :
    callback ∈ list.drop i ∨ callback.place = none := by
  induction changes generalizing list with
  | nil => exact .inl hmem
  | cons change changes ih =>
      rcases ih hmem with hmem | hnew
      · cases change with
        | register id =>
            rw [Change.run, List.drop_append, List.mem_append] at hmem
            refine hmem.imp_right fun hnew => ?_
            rw [List.mem_singleton.mp (List.mem_of_mem_drop hnew)]
        | unregister id => exact .inl ((List.eraseP_sublist.drop i).subset hmem)
      · exact .inr hnew

theorem mem_of_mem_loop {changes : Nat → List Change} {turns i : Nat} {list : List Callback}
    {callback : Callback} (hmem : callback ∈ loop changes turns i list) :
    callback ∈ list.drop i ∨ callback.place = none := by
  induction turns generalizing i list with
  | zero => cases hmem
  | succ turns ih =>
      rw [loop] at hmem
      cases hhead : list[i]? with
      | none =>
          rw [hhead] at hmem
          cases hmem
      | some head =>
          rw [hhead] at hmem
          obtain ⟨hi, rfl⟩ := List.getElem?_eq_some_iff.mp hhead
          rw [List.drop_eq_getElem_cons hi, List.mem_cons]
          rcases List.mem_cons.mp hmem with hfirst | hrest
          · exact .inl (.inl hfirst)
          · rcases ih hrest with hdrop | hnew
            · exact (mem_drop_foldl hdrop).imp_left .inr
            · exact .inr hnew

/-! Callbacks that are not there are not due. -/

theorem due_of_forall_not_mem {changes : Nat → List Change} {rest list : List Callback} {i : Nat}
    (h : ∀ later ∈ rest, later ∉ list) : due changes rest i list = [] := by
  induction rest with
  | nil => rfl
  | cons callback rest ih =>
      obtain ⟨hhead, htail⟩ := List.forall_mem_cons.mp h
      rw [due, if_neg hhead, ih htail]

theorem undisturbed_of_forall_not_mem {changes : Nat → List Change} {rest list : List Callback}
    {i : Nat} (h : ∀ later ∈ rest, later ∉ list) : Undisturbed changes rest i list := by
  induction rest with
  | nil => trivial
  | cons callback rest ih =>
      obtain ⟨hhead, htail⟩ := List.forall_mem_cons.mp h
      rw [Undisturbed, if_neg hhead]
      exact ih htail

theorem mem_due {changes : Nat → List Change} {rest list left : List Callback} {i : Nat}
    {callback : Callback} (h : rest.filter (· ∈ list) = callback :: left) :
    callback ∈ due changes rest i list := by
  induction rest with
  | nil => cases h
  | cons head rest ih =>
      by_cases hhead : head ∈ list
      · rw [List.filter_cons, if_pos (decide_eq_true hhead)] at h
        rw [due, if_pos hhead, (List.cons.inj h).1]
        exact List.mem_cons_self
      · rw [List.filter_cons, if_neg (by simp [hhead])] at h
        rw [due, if_neg hhead]
        exact ih h

/-! The loop against what is due. -/

theorem filter_mem_of_sublist {α : Type} [DecidableEq α] {l l' : List α} (h : l'.Sublist l)
    (hnodup : l.Nodup) : l.filter (· ∈ l') = l' := by
  have hsub : l'.Sublist (l.filter (· ∈ l')) := by
    have hfilter := h.filter (· ∈ l')
    rwa [List.filter_eq_self.mpr fun a ha => decide_eq_true ha] at hfilter
  have hperm : (l.filter (· ∈ l')).Subperm l' := List.Nodup.subperm (hnodup.filter _)
    fun a ha => of_decide_eq_true (List.mem_filter.mp ha).2
  exact (hsub.eq_of_length_le hperm.length_le).symm

structure At (rest list passed news : List Callback) : Prop where
  list_eq : list = passed ++ rest.filter (· ∈ list) ++ news
  nodup : (passed ++ rest).Nodup
  old : ∀ callback ∈ passed ++ rest, callback.place.isSome = true
  fresh : ∀ callback ∈ news, callback.place = none

namespace At

variable {rest list passed news : List Callback} {callback : Callback}

theorem skip (h : At (callback :: rest) list passed news) (hmem : callback ∉ list) :
    At rest list passed news := by
  have hsub : (passed ++ rest).Sublist (passed ++ callback :: rest) :=
    (List.Sublist.refl passed).append (List.sublist_cons_self callback rest)
  refine ⟨?_, h.nodup.sublist hsub, fun other hother => h.old other (hsub.subset hother), h.fresh⟩
  have hlist := h.list_eq
  rwa [List.filter_cons, if_neg (by simp [hmem])] at hlist

theorem turn (h : At (callback :: rest) list passed news) (hmem : callback ∈ list)
    (changes : List Change) :
    ∃ passed' news', passed'.Sublist (passed ++ [callback]) ∧
      At rest (changes.foldl Change.run list) passed' news' := by
  have hlist := h.list_eq
  rw [List.filter_cons, if_pos (decide_eq_true hmem)] at hlist
  obtain ⟨a, b, c, hfold, ha, hb, hc⟩ := foldl_parts changes (passed ++ [callback])
    (rest.filter (· ∈ list)) news
  have hlist' : changes.foldl Change.run list = a ++ b ++ c := by
    rw [← hfold, List.append_assoc passed]
    exact congrArg (changes.foldl Change.run) hlist
  have hold := h.old
  have hnodup := h.nodup
  rw [← List.singleton_append, ← List.append_assoc] at hold hnodup
  have hsub : (a ++ rest).Sublist (passed ++ [callback] ++ rest) := ha.append (.refl rest)
  have hfresh (other : Callback) (hother : other ∈ c) : other.place = none :=
    (hc other hother).elim (h.fresh other) id
  have hleft : rest.filter (· ∈ a ++ b ++ c) = b := by
    have hsame (other : Callback) (hother : other ∈ rest) : other ∈ a ++ b ++ c ↔ other ∈ b := by
      have hnota : other ∉ a := fun hmem =>
        List.disjoint_of_nodup_append (hnodup.sublist hsub) hmem hother
      have hnotc : other ∉ c := fun hmem => by
        have hplace := hold other (List.mem_append_right _ hother)
        rw [hfresh other hmem] at hplace
        cases hplace
      rw [List.mem_append, List.mem_append, or_iff_left hnotc, or_iff_right hnota]
    rw [List.filter_congr fun other hother => decide_eq_decide.mpr (hsame other hother)]
    exact filter_mem_of_sublist (hb.trans List.filter_sublist)
      (hnodup.sublist (List.sublist_append_right _ rest))
  refine ⟨a, c, ha, ?_, hnodup.sublist hsub, fun other hother => hold other (hsub.subset hother),
    hfresh⟩
  rw [hlist', hleft]

theorem loop_nothing {changes : Nat → List Change} {i : Nat} (h : At rest list passed news)
    (hpassed : passed.length ≤ i) (hnone : ∀ later ∈ rest, later ∉ list) (turns : Nat) :
    (loop changes turns i list).filter (·.place.isSome) = [] := by
  refine List.filter_eq_nil_iff.mpr fun other hother hplace => ?_
  have hleft : rest.filter (· ∈ list) = [] :=
    List.filter_eq_nil_iff.mpr fun later hlater => by simpa using hnone later hlater
  have hnew : other.place = none := by
    rcases mem_of_mem_loop hother with hdrop | hnew
    · rw [h.list_eq, hleft, List.append_nil, List.drop_append, List.drop_of_length_le hpassed,
        List.nil_append] at hdrop
      exact h.fresh other (List.mem_of_mem_drop hdrop)
    · exact hnew
  rw [hnew] at hplace
  cases hplace

theorem not_mem_loop {changes : Nat → List Change} {i : Nat} {left : List Callback}
    (h : At rest list passed news) (hpassed : passed.length < i)
    (hleft : rest.filter (· ∈ list) = callback :: left) (turns : Nat) :
    callback ∉ loop changes turns i list := by
  intro hmem
  have hrest : callback ∈ rest :=
    (List.mem_filter.mp (hleft ▸ List.mem_cons_self : callback ∈ rest.filter (· ∈ list))).1
  have hplace := h.old callback (List.mem_append_right _ hrest)
  have hnotnew {other : List Callback} (hother : ∀ x ∈ other, x.place = none) :
      callback ∉ other := fun hmem => by
    rw [hother callback hmem] at hplace
    cases hplace
  rcases mem_of_mem_loop hmem with hdrop | hnew
  · obtain ⟨k, rfl⟩ := Nat.exists_eq_add_of_lt hpassed
    have hdropped : list.drop (passed.length + k + 1) = (left ++ news).drop k := by
      rw [h.list_eq, hleft, List.append_assoc, Nat.add_assoc, List.drop_append,
        List.drop_of_length_le (Nat.le_add_right _ _), List.nil_append, Nat.add_sub_cancel_left,
        List.cons_append, List.drop_succ_cons]
    rw [hdropped] at hdrop
    have hnodup : (callback :: left).Nodup :=
      hleft ▸ (h.nodup.sublist (List.sublist_append_right _ rest)).filter _
    rcases List.mem_append.mp (List.mem_of_mem_drop hdrop) with hold | hnew
    · exact (List.nodup_cons.mp hnodup).1 hold
    · exact hnotnew h.fresh hnew
  · rw [hnew] at hplace
    cases hplace

theorem forall_mem_iff {front : List Callback} (h : At rest list passed news)
    (hfront : passed.Sublist front) (hnodup : (front ++ rest).Nodup)
    (hold : ∀ other ∈ front, other.place.isSome = true) :
    (∀ other ∈ front, other ∈ list) ↔ passed = front := by
  constructor
  · intro hall
    refine hfront.eq_of_length_le (List.Subperm.length_le (List.Nodup.subperm
      (hnodup.sublist (List.sublist_append_left front rest)) fun other hother => ?_))
    have hmem := hall other hother
    rw [h.list_eq, List.mem_append, List.mem_append] at hmem
    rcases hmem with (hpassed | hleft) | hnew
    · exact hpassed
    · exact (List.disjoint_of_nodup_append hnodup hother (List.mem_filter.mp hleft).1).elim
    · have hplace := hold other hother
      rw [h.fresh other hnew] at hplace
      cases hplace
  · rintro rfl other hother
    rw [h.list_eq, List.append_assoc]
    exact List.mem_append_left _ hother

end At

theorem filter_loop_iff {changes : Nat → List Change} {rest list passed news : List Callback}
    (h : At rest list passed news) {turns : Nat} (hturns : rest.length ≤ turns) :
    (loop changes turns passed.length list).filter (·.place.isSome) =
        due changes rest passed.length list ↔
      Undisturbed changes rest passed.length list := by
  induction rest generalizing turns list passed news with
  | nil => exact iff_of_true (h.loop_nothing le_rfl (fun _ hmem => by cases hmem) turns) trivial
  | cons callback rest ih =>
      by_cases hmem : callback ∈ list
      · obtain ⟨turns, rfl⟩ := Nat.exists_eq_add_of_le' (Nat.one_le_of_lt hturns)
        have hlist := h.list_eq
        rw [List.filter_cons, if_pos (decide_eq_true hmem), List.append_assoc,
          List.cons_append] at hlist
        have hat : list[passed.length]? = some callback := by
          rw [hlist, List.getElem?_append_right le_rfl, Nat.sub_self]
          rfl
        have htake : list.take (passed.length + 1) = passed ++ [callback] := by
          rw [hlist, List.take_append, List.take_of_length_le (Nat.le_succ _),
            Nat.add_sub_cancel_left]
          rfl
        have hplace := h.old callback (List.mem_append_right _ List.mem_cons_self)
        obtain ⟨passed', news', hsub, hat'⟩ := h.turn hmem (changes passed.length)
        have hnodup := h.nodup
        have hold := h.old
        rw [← List.singleton_append, ← List.append_assoc] at hnodup hold
        rw [loop, hat, due, if_pos hmem, Undisturbed, if_pos hmem]
        dsimp only
        rw [List.filter_cons, if_pos hplace, List.cons.injEq, and_iff_right rfl, htake,
          hat'.forall_mem_iff hsub hnodup fun other hother =>
            hold other (List.mem_append_left _ hother)]
        by_cases hkept : passed' = passed ++ [callback]
        · subst hkept
          have hih := ih hat' (Nat.le_of_succ_le_succ hturns)
          rw [List.length_append, List.length_singleton] at hih
          rw [hih, and_iff_right (.inl rfl)]
        · -- the rest of the list has moved to smaller indices
          have hshort : passed'.length < passed.length + 1 := by
            have hle := hsub.length_le
            rw [List.length_append, List.length_singleton] at hle
            refine lt_of_le_of_ne hle fun heq => hkept (hsub.eq_of_length ?_)
            rw [heq, List.length_append, List.length_singleton]
          rw [or_iff_right hkept]
          by_cases hnone : ∀ later ∈ rest,
              later ∉ (changes passed.length).foldl Change.run list
          · rw [hat'.loop_nothing hshort.le hnone, due_of_forall_not_mem hnone]
            exact iff_of_true rfl ⟨hnone, undisturbed_of_forall_not_mem hnone⟩
          · refine iff_of_false (fun heq => hnone ?_) fun hand => hnone hand.1
            cases hleft : rest.filter (· ∈ (changes passed.length).foldl Change.run list) with
            | nil =>
                intro later hlater
                simpa using List.filter_eq_nil_iff.mp hleft later hlater
            | cons next left =>
                have hdue := heq ▸ mem_due hleft
                exact (hat'.not_mem_loop hshort hleft turns (List.mem_filter.mp hdue).1).elim
      · rw [due, if_neg hmem, Undisturbed, if_neg hmem]
        exact ih (h.skip hmem) (Nat.le_of_succ_le hturns)

theorem nodup_atStart (ids : List Int) : (atStart ids).Nodup := by
  have hplaces : (atStart ids).map Callback.place = (List.range ids.length).map some := by
    rw [atStart, List.map_map, List.range_eq_range', ← List.zipIdx_map_snd, List.map_map]
    rfl
  refine List.Nodup.of_map Callback.place (hplaces ▸ ?_)
  exact List.nodup_range.map (Option.some_injective Nat)

theorem at_atStart (ids : List Int) : At (atStart ids) (atStart ids) [] [] := by
  refine ⟨?_, nodup_atStart ids, fun callback hmem => ?_, fun _ hmem => by cases hmem⟩
  · rw [List.filter_eq_self.mpr fun callback hmem => decide_eq_true hmem, List.append_nil]
    rfl
  · obtain ⟨element, -, rfl⟩ := List.mem_map.mp hmem
    rfl

/-- Every callback that is due is executed once, in order, exactly where no turn takes its own
callback or one in front of it out of the list while another one is due. -/
theorem dispatched_iff (changes : Nat → List Change) (ids : List Int) :
    Dispatched changes ids ↔ Undisturbed changes (atStart ids) 0 (atStart ids) := by
  have hstart := at_atStart ids
  have hlength : (atStart ids).length = ids.length := by
    rw [atStart, List.length_map, List.length_zipIdx]
  constructor
  · intro h
    exact (filter_loop_iff hstart hlength.le).mp (h ids.length le_rfl)
  · intro h turns hturns
    exact (filter_loop_iff hstart (hlength.le.trans hturns)).mpr h

/-- The first of two callbacks unregisters itself. -/
theorem next_skipped : ¬ Dispatched (fun i => if i = 0 then [.unregister 5] else []) [5, 6] := by
  intro h
  have htwo := h 2 le_rfl
  revert htwo
  decide

end AmxModC.Fakemeta.Dispatch
