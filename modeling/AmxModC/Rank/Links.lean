import AmxModC.Rank.Model

namespace AmxModC.Rank

open Foundation

/-! What the pointer operations do to a list that is linked as it should be. -/

def links : Neighbours Nat RankStats := ⟨RankStats.next, RankStats.prev⟩

structure Linked (s : RankSystem) (list : List Nat) : Prop where
  nodup : list.Nodup
  head : s.head = list.head?
  tail : s.tail = list.getLast?
  segment : Segment links s.heap none list none

namespace Linked

variable {s : RankSystem} {a : Nat} {before after : List Nat}

theorem middle (h : Linked s (before ++ a :: after)) :
    ∃ node, s.heap a = some node ∧ node.next = before.getLast? ∧ node.prev = after.head? := by
  obtain ⟨node, hnode, hnext, hprev⟩ := h.segment.middle
  exact ⟨node, hnode, hnext.trans (Option.or_none), hprev.trans (Option.or_none)⟩

theorem next_prev (h : Linked s (before ++ a :: after)) {node : RankStats}
    (hnode : s.heap a = some node) : node.next = before.getLast? ∧ node.prev = after.head? := by
  obtain ⟨other, hother, hlinks⟩ := h.middle
  rw [hnode] at hother
  exact Option.some.inj hother ▸ hlinks

theorem last (h : Linked s (before ++ [a] ++ after)) :
    ∃ node, s.heap a = some node ∧ node.next = before.getLast? ∧ node.prev = after.head? := by
  rw [List.append_assoc] at h
  exact h.middle

theorem isSome {list : List Nat} (h : Linked s list) (hmem : a ∈ list) : (s.heap a).isSome :=
  h.segment.isSome hmem

theorem ne (h : Linked s (before ++ after)) {x y : Nat} (hx : x ∈ before) (hy : y ∈ after) :
    x ≠ y :=
  (List.nodup_append.mp h.nodup).2.2 x hx y hy

end Linked

structure SameEntries (s s' : RankSystem) : Prop where
  rankNum : s'.rankNum = s.rankNum
  fresh : s'.fresh = s.fresh
  entry : ∀ a, (s'.heap a).map RankStats.toEntry = (s.heap a).map RankStats.toEntry
  id : ∀ a, (s'.heap a).map RankStats.id = (s.heap a).map RankStats.id

namespace SameEntries

variable {s s' s'' : RankSystem}

theorem refl (s : RankSystem) : SameEntries s s := ⟨rfl, rfl, fun _ => rfl, fun _ => rfl⟩

theorem trans (h : SameEntries s s') (h' : SameEntries s' s'') : SameEntries s s'' where
  rankNum := h'.rankNum.trans h.rankNum
  fresh := h'.fresh.trans h.fresh
  entry a := (h'.entry a).trans (h.entry a)
  id a := (h'.id a).trans (h.id a)

theorem isSome (h : SameEntries s s') (a : Nat) : (s'.heap a).isSome = (s.heap a).isSome := by
  rw [← Option.isSome_map (f := RankStats.toEntry), h.entry, Option.isSome_map]

end SameEntries

namespace RankSystem

variable {s : RankSystem} {a : Nat} {before after : List Nat} {change : RankStats → RankStats}

theorem modify_eq (h : (s.heap a).isSome) :
    s.modify a change = some { s with heap := write s.heap (some a) change } := if_pos h

def linkedIn (heap : Nat → Option RankStats) (before : List Nat) (a : Nat) (after : List Nat) :
    Nat → Option RankStats :=
  write (write (write heap (some a) fun node =>
    { node with next := before.getLast?, prev := after.head? })
    before.getLast? fun node => { node with prev := some a })
    after.head? fun node => { node with next := some a }

theorem write_write (heap : Nat → Option RankStats) (pointer : Option Nat)
    (first second : RankStats → RankStats) :
    write (write heap pointer first) pointer second =
      write heap pointer fun node => second (first node) := by
  funext address
  unfold write
  split
  next => exact Option.map_map second first (heap address)
  next => rfl

theorem write_comm (heap : Nat → Option RankStats) {p q : Option Nat} (hne : p ≠ q)
    (first second : RankStats → RankStats) :
    write (write heap p first) q second = write (write heap q second) p first := by
  funext address
  unfold write
  split
  next hq =>
    have hp : p ≠ some address := fun hp => hne (hp.trans hq.symm)
    simp [hp]
  next => rfl

theorem putBefore_eq (h : Linked s (before ++ after)) (ha : a ∉ before ++ after)
    (hsome : (s.heap a).isSome) :
    s.putBefore a before.getLast? =
      some { s with
        heap := linkedIn s.heap before a after
        head := (before ++ [a]).head?
        tail := (a :: after).getLast? } := by
  obtain ⟨node, hnode⟩ := Option.isSome_iff_exists.mp hsome
  have hnotBefore : ∀ x ∈ before, a ≠ x := fun x hx heq => ha (heq ▸ List.mem_append_left _ hx)
  have hnotAfter : ∀ x ∈ after, a ≠ x := fun x hx heq => ha (heq ▸ List.mem_append_right _ hx)
  obtain rfl | ⟨first, p, rfl⟩ := List.eq_nil_or_concat' before
  · have hhead : s.head = after.head? := h.head
    cases after with
    | nil => simp [putBefore, modify, hnode, write_same, linkedIn, write_none, hhead, write_write]
    | cons q rest =>
        have hq := hnotAfter q List.mem_cons_self
        obtain ⟨above, habove⟩ := Option.isSome_iff_exists.mp (h.isSome (a := q) (by simp))
        have htail : s.tail = (q :: rest).getLast? := h.tail
        simp [putBefore, modify, hnode, write_same, write_other, linkedIn, write_none, hhead,
          habove, hq, write_write, htail]
  · have hp := hnotBefore p List.mem_concat_self
    obtain ⟨above, habove, -, hprev⟩ := h.last
    have hhead : s.head = (first ++ [p]).head? := by simpa using h.head
    cases after with
    | nil =>
        simp [putBefore, modify, hnode, write_same, write_other, linkedIn, write_none,
          habove, hp, hp.symm, write_write, hprev, hhead]
    | cons q rest =>
        have hq := hnotAfter q List.mem_cons_self
        have hpq := h.ne List.mem_concat_self List.mem_cons_self
        obtain ⟨below, hbelow, -⟩ := h.middle
        have htail : s.tail = (q :: rest).getLast? := by
          rw [h.tail, List.getLast?_append_of_ne_nil _ (List.cons_ne_nil _ _)]
        simp [putBefore, modify, hnode, write_same, write_other, linkedIn, habove, hp, hp.symm,
          hq, write_write, hprev, hhead, hbelow, htail, hpq]

theorem putAfter_eq (h : Linked s (before ++ after)) (ha : a ∉ before ++ after)
    (hsome : (s.heap a).isSome) :
    s.putAfter a after.head? =
      some { s with
        heap := linkedIn s.heap before a after
        head := (before ++ [a]).head?
        tail := (a :: after).getLast? } := by
  obtain ⟨node, hnode⟩ := Option.isSome_iff_exists.mp hsome
  have hnotBefore : ∀ x ∈ before, a ≠ x := fun x hx heq => ha (heq ▸ List.mem_append_left _ hx)
  have hnotAfter : ∀ x ∈ after, a ≠ x := fun x hx heq => ha (heq ▸ List.mem_append_right _ hx)
  cases after with
  | nil =>
      have htail : s.tail = before.getLast? := by simpa using h.tail
      obtain rfl | ⟨first, p, rfl⟩ := List.eq_nil_or_concat' before
      · simp [putAfter, modify, hnode, write_same, linkedIn, write_none, htail, write_write]
      · have hp := hnotBefore p List.mem_concat_self
        obtain ⟨above, habove, -⟩ := h.last
        have hhead : s.head = (first ++ [p]).head? := by simpa using h.head
        simp [putAfter, modify, hnode, write_same, write_other, linkedIn, write_none, htail,
          habove, hp, write_write, hhead]
  | cons q rest =>
      have hq := hnotAfter q List.mem_cons_self
      obtain ⟨below, hbelow, hnext, -⟩ := h.middle
      have htail : s.tail = (q :: rest).getLast? := by
        rw [h.tail, List.getLast?_append_of_ne_nil _ (List.cons_ne_nil _ _)]
      obtain rfl | ⟨first, p, rfl⟩ := List.eq_nil_or_concat' before
      · simp [putAfter, modify, hnode, write_same, write_other, linkedIn, write_none, hbelow,
          hnext, hq, hq.symm, write_write, htail]
      · have hp := hnotBefore p List.mem_concat_self
        have hpq := h.ne List.mem_concat_self List.mem_cons_self
        obtain ⟨above, habove, -⟩ := h.last
        have hhead : s.head = (first ++ [p]).head? := by simpa using h.head
        have hswap : some p ≠ some q := fun heq => hpq (Option.some.inj heq)
        simp [putAfter, modify, hnode, write_same, write_other, linkedIn, hbelow, hnext, hq,
          hq.symm, hp, habove, hpq.symm, write_write, htail, hhead]
        rw [write_comm _ hswap]

def linkedOut (heap : Nat → Option RankStats) (before after : List Nat) :
    Nat → Option RankStats :=
  write (write heap after.head? fun node => { node with next := before.getLast? })
    before.getLast? fun node => { node with prev := after.head? }

theorem unlink_eq (h : Linked s (before ++ a :: after)) :
    s.unlink a =
      some { s with
        heap := linkedOut s.heap before after
        head := (before ++ after).head?
        tail := (before ++ after).getLast? } := by
  obtain ⟨node, hnode, hnext, hprev⟩ := h.middle
  have hnotBefore : ∀ x ∈ before, x ≠ a := fun x hx => h.ne hx List.mem_cons_self
  have hnotAfter : ∀ x ∈ after, a ≠ x := by
    intro x hx heq
    have hnodup := (List.nodup_append.mp h.nodup).2.1
    exact (List.nodup_cons.mp hnodup).1 (heq ▸ hx)
  cases after with
  | nil =>
      obtain rfl | ⟨first, p, rfl⟩ := List.eq_nil_or_concat' before
      · simp_all [unlink, linkedOut, write_none]
      · have hp := hnotBefore p List.mem_concat_self
        obtain ⟨above, habove, -⟩ := h.last
        have hhead : s.head = (first ++ [p]).head? := by simpa using h.head
        simp [unlink, modify, hnode, linkedOut, write_none, hnext, hprev, habove, hhead]
  | cons q rest =>
      have hq := hnotAfter q List.mem_cons_self
      obtain ⟨below, hbelow⟩ := Option.isSome_iff_exists.mp (h.isSome (a := q) (by simp))
      have htail : s.tail = (q :: rest).getLast? := by
        rw [h.tail, List.getLast?_append_of_ne_nil _ (List.cons_ne_nil _ _)]
        simp [List.getLast?_cons]
      rw [List.getLast?_append_of_ne_nil _ (List.cons_ne_nil _ _)]
      obtain rfl | ⟨first, p, rfl⟩ := List.eq_nil_or_concat' before
      · simp [unlink, modify, hnode, write_other, linkedOut, write_none, hbelow, hnext, hprev,
          hq.symm, htail]
      · have hp := hnotBefore p List.mem_concat_self
        have hpq := h.ne List.mem_concat_self (List.mem_cons_of_mem a List.mem_cons_self)
        obtain ⟨above, habove, -⟩ := h.last
        have hhead : s.head = (first ++ [p]).head? := by simpa using h.head
        simp [unlink, modify, hnode, write_other, linkedOut, hbelow, hnext, hprev, hq.symm,
          habove, hpq.symm, htail, hhead]

theorem sameEntries_write (s : RankSystem) (heap : Nat → Option RankStats)
    (head tail pointer : Option Nat) (h : SameEntries s { s with heap, head, tail })
    (hentry : ∀ node, (change node).toEntry = node.toEntry)
    (hid : ∀ node, (change node).id = node.id) :
    SameEntries s { s with heap := write heap pointer change, head, tail } where
  rankNum := rfl
  fresh := rfl
  entry x := (map_write hentry).trans (h.entry x)
  id x := (map_write hid).trans (h.id x)

theorem linked_linkedIn (h : Linked s (before ++ after)) (ha : a ∉ before ++ after)
    (hsome : (s.heap a).isSome) :
    Linked
      { s with
        heap := linkedIn s.heap before a after
        head := (before ++ [a]).head?
        tail := (a :: after).getLast? } (before ++ a :: after) where
  nodup := (List.nodup_middle).mpr (List.nodup_cons.mpr ⟨ha, h.nodup⟩)
  head := by simp
  tail := (List.getLast?_append_of_ne_nil _ (List.cons_ne_nil _ _)).symm
  segment := by
    obtain ⟨node, hnode⟩ := Option.isSome_iff_exists.mp hsome
    obtain ⟨hbefore, hafter⟩ := Segment.append_iff.mp h.segment
    obtain ⟨hnodupBefore, hnodupAfter, -⟩ := List.nodup_append.mp h.nodup
    have hlast : ∀ x ∈ after, before.getLast? ≠ some x := fun x hx heq =>
      h.ne (List.mem_of_getLast? heq) hx rfl
    have hfirst : ∀ x ∈ before, after.head? ≠ some x := fun x hx heq =>
      h.ne hx (List.mem_of_head? heq) rfl
    have hout : ∀ list : List Nat, a ∉ list → ∀ x ∈ list, some a ≠ some x := by
      intro list hnot x hx heq
      cases heq
      exact hnot hx
    rw [List.mem_append, not_or] at ha
    refine Segment.append_iff.mpr ⟨?_,
      ⟨{ node with next := before.getLast?, prev := after.head? }, ?_, ?_, ?_⟩, ?_⟩
    · apply Segment.write_outside _ hfirst
      exact (hbefore.write_outside (hout before ha.1)).write_getLast? hnodupBefore
        (fun _ => rfl) (fun _ => rfl)
    · change linkedIn s.heap before a after a = _
      rw [linkedIn, write_other, write_other, write_same, hnode, Option.map_some]
      · exact fun heq => ha.1 (List.mem_of_getLast? heq)
      · exact fun heq => ha.2 (List.mem_of_head? heq)
    · exact Option.or_none.symm
    · exact Option.or_none.symm
    · exact ((hafter.write_outside (hout after ha.2)).write_outside hlast).write_head?
        hnodupAfter (fun _ => rfl) (fun _ => rfl)

theorem linked_linkedOut (h : Linked s (before ++ a :: after)) :
    Linked
      { s with
        heap := linkedOut s.heap before after
        head := (before ++ after).head?
        tail := (before ++ after).getLast? } (before ++ after) where
  nodup := (List.nodup_cons.mp (List.nodup_middle.mp h.nodup)).2
  head := rfl
  tail := rfl
  segment := by
    obtain ⟨hbefore, -, hafter⟩ := Segment.append_iff.mp h.segment
    obtain ⟨hnodupBefore, hnodupAfter, hdisjoint⟩ := List.nodup_append.mp
      (List.nodup_cons.mp (List.nodup_middle.mp h.nodup)).2
    have hlast : ∀ x ∈ after, before.getLast? ≠ some x := fun x hx heq =>
      hdisjoint x (List.mem_of_getLast? heq) x hx rfl
    have hfirst : ∀ x ∈ before, after.head? ≠ some x := fun x hx heq =>
      hdisjoint x hx x (List.mem_of_head? heq) rfl
    refine Segment.append_iff.mpr ⟨?_, ?_⟩
    · exact (hbefore.write_outside hfirst).write_getLast? hnodupBefore (fun _ => rfl)
        (fun _ => Option.or_none.symm)
    · apply Segment.write_outside _ hlast
      exact hafter.write_head? hnodupAfter (fun _ => Option.or_none.symm) (fun _ => rfl)

theorem sameEntries_linkedIn (s : RankSystem) (before : List Nat) (a : Nat) (after : List Nat)
    (head tail : Option Nat) :
    SameEntries s { s with heap := linkedIn s.heap before a after, head, tail } := by
  have hsame : SameEntries s { s with head, tail } := ⟨rfl, rfl, fun _ => rfl, fun _ => rfl⟩
  refine sameEntries_write s _ _ _ _ (sameEntries_write s _ _ _ _
    (sameEntries_write s _ _ _ _ hsame ?_ ?_) ?_ ?_) ?_ ?_
  all_goals exact fun _ => rfl

theorem sameEntries_linkedOut (s : RankSystem) (before after : List Nat)
    (head tail : Option Nat) :
    SameEntries s { s with heap := linkedOut s.heap before after, head, tail } := by
  have hsame : SameEntries s { s with head, tail } := ⟨rfl, rfl, fun _ => rfl, fun _ => rfl⟩
  refine sameEntries_write s _ _ _ _ (sameEntries_write s _ _ _ _ hsame ?_ ?_) ?_ ?_
  all_goals exact fun _ => rfl

theorem unlink_then {s : RankSystem} {a : Nat} {before after before' after' : List Nat}
    (h : Linked s (before ++ a :: after)) (hlist : before ++ after = before' ++ after') :
    ∃ s₁, s.unlink a = some s₁ ∧ Linked s₁ (before' ++ after') ∧ a ∉ before' ++ after' ∧
      (s₁.heap a).isSome ∧ SameEntries s s₁ := by
  have hsame := sameEntries_linkedOut s before after (before ++ after).head?
    (before ++ after).getLast?
  refine ⟨_, unlink_eq h, ?_, ?_, ?_, hsame⟩
  · rw [← hlist]
    exact linked_linkedOut h
  · rw [← hlist]
    exact (List.nodup_cons.mp (List.nodup_middle.mp h.nodup)).1
  · rw [hsame.isSome]
    exact h.isSome (List.mem_append_right _ List.mem_cons_self)

theorem unlink_putBefore {s : RankSystem} {a : Nat} {before after before' after' : List Nat}
    (h : Linked s (before ++ a :: after)) (hlist : before ++ after = before' ++ after') :
    ∃ s', ((s.unlink a).bind fun s => s.putBefore a before'.getLast?) = some s' ∧
      Linked s' (before' ++ a :: after') ∧ SameEntries s s' := by
  obtain ⟨s₁, hunlink, hlinked, hnot, hsome, hsame⟩ := unlink_then h hlist
  refine ⟨_, ?_, linked_linkedIn hlinked hnot hsome,
    hsame.trans (sameEntries_linkedIn s₁ before' a after' _ _)⟩
  rw [hunlink, Option.bind_some, putBefore_eq hlinked hnot hsome]

theorem unlink_putAfter {s : RankSystem} {a : Nat} {before after before' after' : List Nat}
    (h : Linked s (before ++ a :: after)) (hlist : before ++ after = before' ++ after') :
    ∃ s', ((s.unlink a).bind fun s => s.putAfter a after'.head?) = some s' ∧
      Linked s' (before' ++ a :: after') ∧ SameEntries s s' := by
  obtain ⟨s₁, hunlink, hlinked, hnot, hsome, hsame⟩ := unlink_then h hlist
  refine ⟨_, ?_, linked_linkedIn hlinked hnot hsome,
    hsame.trans (sameEntries_linkedIn s₁ before' a after' _ _)⟩
  rw [hunlink, Option.bind_some, putAfter_eq hlinked hnot hsome]

end RankSystem

end AmxModC.Rank
