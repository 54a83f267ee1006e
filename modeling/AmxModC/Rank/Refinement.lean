import Mathlib.Data.List.DropRight
import AmxModC.Foundation.Run
import AmxModC.Rank.Links

namespace AmxModC.Rank

open Foundation

/-! The ranking without its pointers: the entries in order, and what each records. -/

structure Ranking where
  order : List Nat
  entry : Nat → Entry
  fresh : Nat

def place (score : Nat → Int) (before : List Nat) (rr : Nat) (after : List Nat) : List Nat :=
  let passed := before.rtakeWhile fun a => score a ≤ score rr
  if passed ≠ [] then
    before.rdropWhile (fun a => score a ≤ score rr) ++ rr :: (passed ++ after)
  else
    before ++ after.takeWhile (fun a => score a > score rr) ++
      rr :: after.dropWhile fun a => score a > score rr

def Entry.update (entry : Entry) (stats : Stats) (script : Option Int) : Entry :=
  let stats := entry.toStats.commit stats
  { entry with
    toStats := stats
    score := script.getD (stats.kills - stats.deaths).toInt }

namespace Ranking

def empty : Ranking := ⟨[], fun _ => Entry.new ⟨[], CString.noNul_nil⟩ ⟨[], CString.noNul_nil⟩, 0⟩

def score (r : Ranking) (a : Nat) : Int := (r.entry a).score

def find? (r : Ranking) (isip : Bool) (unique : CString) : Option Nat :=
  r.order.find? fun a => isEntry isip unique (r.entry a).unique

def findEntryInRank (r : Ranking) (unique name : CString) (isip : Bool) : Ranking :=
  match r.find? isip unique with
  | some _ => r
  | none =>
      { order := r.order ++ [r.fresh]
        entry := Function.update r.entry r.fresh (Entry.new unique name)
        fresh := r.fresh + 1 }

def updatePos (r : Ranking) (rr : Nat) (stats : Stats) (script : Option Int) : Ranking :=
  let entry := Function.update r.entry rr ((r.entry rr).update stats script)
  { r with
    order := place (fun a => (entry a).score) (r.order.takeWhile (· ≠ rr)) rr
      (r.order.dropWhile (· ≠ rr)).tail
    entry }

def step (r : Ranking) : Event → Option Ranking
  | .findEntryInRank unique name isip => some (r.findEntryInRank unique name isip)
  | .updatePosition a stats script => if a ∈ r.order then some (r.updatePos a stats script) else none

end Ranking

def Numbered (heap : Nat → Option RankStats) : Int → List Nat → Prop
  | _, [] => True
  | k, a :: rest => (heap a).map RankStats.id = some k ∧ Numbered heap (k + 1) rest

namespace Numbered

variable {heap other : Nat → Option RankStats} {k : Int} {first second list : List Nat}

theorem append_iff : Numbered heap k (first ++ second) ↔
    Numbered heap k first ∧ Numbered heap (k + first.length) second := by
  induction first generalizing k with
  | nil => simp [Numbered]
  | cons a rest ih =>
      have hk : k + 1 + (rest.length : Int) = k + ((a :: rest).length : Int) := by
        simp only [List.length_cons, Int.natCast_add]
        omega
      rw [List.cons_append, Numbered, Numbered, ih, hk, and_assoc]

theorem congr (h : Numbered heap k list)
    (hagree : ∀ a ∈ list, (other a).map RankStats.id = (heap a).map RankStats.id) :
    Numbered other k list := by
  induction list generalizing k with
  | nil => trivial
  | cons a rest ih =>
      rw [List.forall_mem_cons] at hagree
      exact ⟨hagree.1.trans h.1, ih h.2 hagree.2⟩

end Numbered

structure Represents (s : RankSystem) (r : Ranking) : Prop where
  linked : Linked s r.order
  numbered : Numbered s.heap 1 r.order
  rankNum : s.rankNum = r.order.length
  fresh : s.fresh = r.fresh
  entry : ∀ a ∈ r.order, (s.heap a).map RankStats.toEntry = some (r.entry a)
  listed : ∀ a, (s.heap a).isSome → a ∈ r.order
  below : ∀ a ∈ r.order, a < r.fresh

def exchange (heap : Nat → Option RankStats) (x y : Nat) : Nat → Option RankStats :=
  write (write heap (some x) fun node => { node with id := node.id + 1 })
    (some y) fun node => { node with id := node.id - 1 }

theorem exchange_entry (heap : Nat → Option RankStats) (x y a : Nat) :
    (exchange heap x y a).map RankStats.toEntry = (heap a).map RankStats.toEntry := by
  simp only [exchange, write]
  split <;> split <;> simp [Function.comp_def]

theorem exchange_isSome (heap : Nat → Option RankStats) (x y a : Nat) :
    (exchange heap x y a).isSome = (heap a).isSome := by
  rw [← Option.isSome_map (f := RankStats.toEntry), exchange_entry, Option.isSome_map]

theorem exchange_segment {heap : Nat → Option RankStats} {above below : Option Nat}
    {list : List Nat} (h : Segment links heap above list below) (x y : Nat) :
    Segment links (exchange heap x y) above list below := by
  refine Segment.write_links (Segment.write_links h ?_ ?_) ?_ ?_
  all_goals exact fun _ => rfl

theorem Numbered.exchange {heap : Nat → Option RankStats} {k : Int} {first rest : List Nat}
    {x y : Nat} (h : Numbered heap k (first ++ x :: y :: rest))
    (hnodup : (first ++ x :: y :: rest).Nodup) :
    Numbered (exchange heap x y) k (first ++ y :: x :: rest) := by
  obtain ⟨hfirst, hx, hy, hrest⟩ := Numbered.append_iff.mp h
  obtain ⟨-, htail, hdisjoint⟩ := List.nodup_append.mp hnodup
  obtain ⟨hxnot, hynot, -⟩ := List.nodup_cons.mp htail |>.imp_right List.nodup_cons.mp
  have hxy : x ≠ y := fun heq => hxnot (heq ▸ List.mem_cons_self)
  have hother : ∀ a, a ≠ x → a ≠ y → Rank.exchange heap x y a = heap a := by
    intro a hax hay
    rw [Rank.exchange, write_other, write_other]
    · exact fun heq => hax (Option.some.inj heq).symm
    · exact fun heq => hay (Option.some.inj heq).symm
  refine Numbered.append_iff.mpr ⟨hfirst.congr ?_, ?_, ?_, hrest.congr ?_⟩
  · intro a ha
    rw [hother a (hdisjoint a ha x List.mem_cons_self)
      (hdisjoint a ha y (List.mem_cons_of_mem x List.mem_cons_self))]
  · rw [Rank.exchange, write_same, write_other fun heq => hxy (Option.some.inj heq),
      Option.map_map]
    obtain ⟨node, hnode, hid⟩ := Option.map_eq_some_iff.mp hy
    rw [hnode, Option.map_some, Function.comp_apply, hid]
    simp
  · rw [Rank.exchange, write_other fun heq => hxy (Option.some.inj heq).symm, write_same,
      Option.map_map]
    obtain ⟨node, hnode, hid⟩ := Option.map_eq_some_iff.mp hx
    rw [hnode, Option.map_some, Function.comp_apply, hid]
  · intro a ha
    rw [hother a]
    · exact fun heq => hxnot (heq ▸ List.mem_cons_of_mem y ha)
    · exact fun heq => hynot (heq ▸ ha)

theorem RankSystem.nominate_step {s : RankSystem} {rr aa : Nat} {node above : RankStats}
    (hnode : s.heap rr = some node) (habove : s.heap aa = some above) (hne : rr ≠ aa)
    (fuel : Nat) :
    s.nominate rr (fuel + 1) (some aa) =
      if above.score ≤ node.score then
        nominate rr fuel { s with heap := exchange s.heap aa rr } above.next
      else some (s, some aa) := by
  have hswap : some rr ≠ some aa := fun heq => hne (Option.some.inj heq)
  simp [nominate, hnode, habove, goUp, goDown, modify, write_same, write_other, hswap]
  rw [write_comm _ hswap]
  rfl

theorem RankSystem.descend_step {s : RankSystem} {rr aa : Nat} {node below : RankStats}
    (hnode : s.heap rr = some node) (hbelow : s.heap aa = some below) (hne : rr ≠ aa)
    (fuel : Nat) :
    descend rr (fuel + 1) s (some aa) =
      if below.score > node.score then
        descend rr fuel { s with heap := exchange s.heap rr aa } below.prev
      else some (s, some aa) := by
  have hswap : some rr ≠ some aa := fun heq => hne (Option.some.inj heq)
  simp [descend, hnode, hbelow, goUp, goDown, modify, write_same, write_other, hswap]
  rfl

structure Walking (s : RankSystem) (entry : Nat → Entry) (list ids : List Nat) : Prop where
  linked : Linked s list
  perm : ids.Perm list
  numbered : Numbered s.heap 1 ids
  entry : ∀ a ∈ list, (s.heap a).map RankStats.toEntry = some (entry a)

namespace Walking

variable {s : RankSystem} {entry : Nat → Entry} {list ids first rest : List Nat} {x y rr : Nat}

theorem exchange (h : Walking s entry list (first ++ x :: y :: rest)) :
    Walking { s with heap := exchange s.heap x y } entry list (first ++ y :: x :: rest) where
  linked :=
    { nodup := h.linked.nodup
      head := h.linked.head
      tail := h.linked.tail
      segment := exchange_segment h.linked.segment x y }
  perm := ((List.Perm.swap x y rest).append_left first).trans h.perm
  numbered := h.numbered.exchange (h.perm.nodup_iff.mpr h.linked.nodup)
  entry a ha := (exchange_entry s.heap x y a).trans (h.entry a ha)

theorem heap_eq (h : Walking s entry list ids) {a : Nat} (ha : a ∈ list) :
    ∃ node, s.heap a = some node ∧ node.toEntry = entry a :=
  Option.map_eq_some_iff.mp (h.entry a ha)

theorem nominate (after : List Nat) (fuel : Nat) (keep passed : List Nat) (s : RankSystem)
    (h : Walking s entry (keep ++ passed ++ rr :: after) (keep ++ rr :: (passed ++ after)))
    (hfuel : keep.length ≤ fuel) :
    ∃ heap, RankSystem.nominate rr fuel s keep.getLast? =
        some ({ s with heap },
          (keep.rdropWhile fun a => (entry a).score ≤ (entry rr).score).getLast?) ∧
      Walking { s with heap } entry (keep ++ passed ++ rr :: after)
        (keep.rdropWhile (fun a => (entry a).score ≤ (entry rr).score) ++
          rr :: (keep.rtakeWhile (fun a => (entry a).score ≤ (entry rr).score) ++
            (passed ++ after))) ∧
      ∀ a, (heap a).isSome = (s.heap a).isSome := by
  induction keep using List.reverseRecOn generalizing fuel passed s with
  | nil => exact ⟨s.heap, by cases fuel <;> rfl, h, fun _ => rfl⟩
  | append_singleton keep aa ih =>
      rw [List.length_append, List.length_singleton] at hfuel
      obtain ⟨fuel, rfl⟩ := Nat.exists_eq_add_of_le' (Nat.le_trans (Nat.le_add_left 1 _) hfuel)
      have hlist : keep ++ [aa] ++ passed ++ rr :: after =
          keep ++ (aa :: passed) ++ rr :: after := by simp
      rw [hlist] at h ⊢
      obtain ⟨node, hnode, hentry⟩ := h.heap_eq (a := rr) (by simp)
      obtain ⟨above, habove, hentryAbove⟩ := h.heap_eq (a := aa) (by simp)
      have hne : rr ≠ aa := h.linked.ne (by simp) (by simp) |>.symm
      have hnext : above.next = keep.getLast? :=
        (Linked.next_prev (by simpa using h.linked) habove).1
      have hscore : above.score ≤ node.score ↔ (entry aa).score ≤ (entry rr).score := by
        rw [← hentry, ← hentryAbove]
      rw [List.getLast?_concat, RankSystem.nominate_step hnode habove hne, hnext]
      by_cases hpass : above.score ≤ node.score
      · rw [if_pos hpass, List.rdropWhile_concat_pos _ _ _ (by simpa using hscore.mp hpass),
          List.rtakeWhile_concat_pos _ _ _ (by simpa using hscore.mp hpass)]
        have hwalk := Walking.exchange (List.append_assoc keep [aa] _ ▸ h)
        obtain ⟨heap, hheap, hwalking, hsome⟩ := ih fuel (aa :: passed) _ hwalk (by omega)
        refine ⟨heap, hheap, ?_, fun a => (hsome a).trans (exchange_isSome s.heap aa rr a)⟩
        simpa using hwalking
      · rw [if_neg hpass, List.rdropWhile_concat_neg _ _ _ (by simpa using hscore.not.mp hpass),
          List.rtakeWhile_concat_neg _ _ _ (by simpa using hscore.not.mp hpass)]
        exact ⟨s.heap, by rw [List.getLast?_concat], h, fun _ => rfl⟩

theorem descend (before : List Nat) (fuel : Nat) (keep passed : List Nat) (s : RankSystem)
    (h : Walking s entry (before ++ rr :: (passed ++ keep)) (before ++ passed ++ rr :: keep))
    (hfuel : keep.length ≤ fuel) :
    ∃ heap, RankSystem.descend rr fuel s keep.head? =
        some ({ s with heap },
          (keep.dropWhile fun a => (entry a).score > (entry rr).score).head?) ∧
      Walking { s with heap } entry (before ++ rr :: (passed ++ keep))
        (before ++ (passed ++ keep.takeWhile fun a => (entry a).score > (entry rr).score) ++
          rr :: keep.dropWhile fun a => (entry a).score > (entry rr).score) ∧
      ∀ a, (heap a).isSome = (s.heap a).isSome := by
  induction keep generalizing fuel passed s with
  | nil => exact ⟨s.heap, by cases fuel <;> rfl, by simpa using h, fun _ => rfl⟩
  | cons aa keep ih =>
      rw [List.length_cons] at hfuel
      obtain ⟨fuel, rfl⟩ := Nat.exists_eq_add_of_le' (Nat.le_trans (Nat.le_add_left 1 _) hfuel)
      obtain ⟨node, hnode, hentry⟩ := h.heap_eq (a := rr) (by simp)
      obtain ⟨below, hbelow, hentryBelow⟩ := h.heap_eq (a := aa) (by simp)
      have hne : rr ≠ aa := by
        intro heq
        have hnodup := h.linked.nodup
        simp [heq, List.nodup_append] at hnodup
      have hlinked : Linked s ((before ++ rr :: passed) ++ aa :: keep) := by
        simpa using h.linked
      have hprev : below.prev = keep.head? := (hlinked.next_prev hbelow).2
      have hscore : below.score > node.score ↔ (entry aa).score > (entry rr).score := by
        rw [← hentry, ← hentryBelow]
      rw [List.head?_cons, RankSystem.descend_step hnode hbelow hne, hprev]
      by_cases hpass : below.score > node.score
      · rw [if_pos hpass, List.dropWhile_cons_of_pos (by simpa using hscore.mp hpass),
          List.takeWhile_cons_of_pos (by simpa using hscore.mp hpass)]
        have hwalk := Walking.exchange h
        obtain ⟨heap, hheap, hwalking, hsome⟩ :=
          ih fuel (passed ++ [aa]) _ (by simpa using hwalk) (by omega)
        refine ⟨heap, hheap, ?_, fun a => (hsome a).trans (exchange_isSome s.heap rr aa a)⟩
        simpa using hwalking
      · rw [if_neg hpass, List.dropWhile_cons_of_neg (by simpa using hscore.not.mp hpass),
          List.takeWhile_cons_of_neg (by simpa using hscore.not.mp hpass)]
        exact ⟨s.heap, rfl, by simpa using h, fun _ => rfl⟩

end Walking

theorem getLast?_ne_of_nodup {first second : List Nat} (hnodup : (first ++ second).Nodup)
    (h : second ≠ []) : first.getLast? ≠ (first ++ second).getLast? := by
  rw [List.getLast?_append_of_ne_nil _ h]
  intro heq
  obtain ⟨x, hx⟩ := Option.isSome_iff_exists.mp (List.getLast?_isSome.mpr h)
  exact (List.nodup_append.mp hnodup).2.2 x (List.mem_of_getLast? (heq.trans hx)) x
    (List.mem_of_getLast? hx) rfl

theorem head?_ne_of_nodup {first second : List Nat} (hnodup : (first ++ second).Nodup)
    (h : first ≠ []) : second.head? ≠ (first ++ second).head? := by
  rw [List.head?_append_of_ne_nil _ h]
  intro heq
  obtain ⟨x, hx⟩ := Option.isSome_iff_exists.mp (List.isSome_head?.mpr h)
  exact (List.nodup_append.mp hnodup).2.2 x (List.mem_of_head? hx) x
    (List.mem_of_head? (heq.trans hx)) rfl

theorem Walking.move {s : RankSystem} {entry : Nat → Entry} {before after : List Nat} {rr : Nat}
    (h : Walking s entry (before ++ rr :: after) (before ++ rr :: after))
    (hrankNum : s.rankNum = (before ++ rr :: after).length) :
    ∃ heap s', s.move rr = some s' ∧
      Walking { s with heap } entry (before ++ rr :: after)
        (place (fun a => (entry a).score) before rr after) ∧
      (∀ a, (heap a).isSome = (s.heap a).isSome) ∧
      Linked s' (place (fun a => (entry a).score) before rr after) ∧
      SameEntries { s with heap } s' := by
  obtain ⟨node, hnode, -⟩ := h.heap_eq (a := rr) (by simp)
  obtain ⟨hnext, hprev⟩ := h.linked.next_prev hnode
  have hlength : (before ++ rr :: after).length = before.length + (after.length + 1) := by simp
  have hfuel : s.rankNum.toNat = before.length + (after.length + 1) := by
    rw [hrankNum, hlength, Int.toNat_natCast]
  have hstart : Walking s entry (before ++ [] ++ rr :: after) (before ++ rr :: ([] ++ after)) := by
    simpa using h
  obtain ⟨heap₁, hnominate, hwalk₁, hsome₁⟩ := hstart.nominate after s.rankNum.toNat before []
    s (by omega)
  have hsplit := List.rdropWhile_append_rtakeWhile (l := before)
    (p := fun a => decide ((entry a).score ≤ (entry rr).score))
  simp only [RankSystem.move, hnode, Option.bind_eq_bind, Option.bind_some, hnext, hprev,
    hnominate]
  rw [List.append_nil, List.nil_append] at hwalk₁
  unfold place
  generalize before.rdropWhile (fun a => decide ((entry a).score ≤ (entry rr).score)) = kept at *
  generalize before.rtakeWhile (fun a => decide ((entry a).score ≤ (entry rr).score)) = passed
    at *
  have hnodup := (List.nodup_append.mp h.linked.nodup).1
  by_cases hpassed : passed = []
  · subst hpassed
    rw [List.append_nil] at hsplit
    subst hsplit
    rw [if_neg (by simp), if_neg (by simp)]
    have hmiddle : Walking { s with heap := heap₁ } entry (kept ++ rr :: ([] ++ after))
        (kept ++ [] ++ rr :: after) := by
      simpa using hwalk₁
    obtain ⟨heap₂, hdescend, hwalk₂, hsome₂⟩ := hmiddle.descend kept s.rankNum.toNat after []
      _ (by omega)
    have hsome : ∀ a, (heap₂ a).isSome = (s.heap a).isSome := fun a =>
      (hsome₂ a).trans (hsome₁ a)
    have hsplit := List.takeWhile_append_dropWhile (l := after)
      (p := fun a => decide ((entry a).score > (entry rr).score))
    rw [hdescend, Option.bind_some]
    simp only [List.nil_append] at hwalk₂
    have hnodup := (List.nodup_cons.mp (List.nodup_append.mp h.linked.nodup).2.1).2
    generalize after.takeWhile (fun a => decide ((entry a).score > (entry rr).score)) = passed
      at *
    generalize after.dropWhile (fun a => decide ((entry a).score > (entry rr).score)) = rest at *
    by_cases hpassed : passed = []
    · subst hpassed hsplit
      rw [if_neg (by simp)]
      exact ⟨heap₂, _, rfl, hwalk₂, hsome, by simpa using hwalk₂.linked, .refl _⟩
    · have hmoves : rest.head? ≠ after.head? :=
        hsplit ▸ head?_ne_of_nodup (hsplit ▸ hnodup) hpassed
      rw [if_pos hmoves]
      have hlist : kept ++ after = (kept ++ passed) ++ rest := by
        rw [← hsplit, List.append_assoc]
      obtain ⟨s', hs', hlinked, hsame⟩ := RankSystem.unlink_putAfter hwalk₂.linked hlist
      exact ⟨heap₂, s', hs', hwalk₂, hsome, hlinked, hsame⟩
  · have hmoves : kept.getLast? ≠ before.getLast? :=
      hsplit ▸ getLast?_ne_of_nodup (hsplit ▸ hnodup) hpassed
    rw [if_pos hmoves, if_pos hpassed]
    have hlist : before ++ after = kept ++ (passed ++ after) := by
      rw [← hsplit, List.append_assoc]
    obtain ⟨s', hs', hlinked, hsame⟩ := RankSystem.unlink_putBefore hwalk₁.linked hlist
    exact ⟨heap₁, s', hs', hwalk₁, hsome₁, hlinked, hsame⟩

theorem Ranking.split {list : List Nat} {a : Nat} (h : a ∈ list) :
    list.takeWhile (· ≠ a) ++ a :: (list.dropWhile (· ≠ a)).tail = list := by
  induction list with
  | nil => cases h
  | cons x rest ih =>
      by_cases hx : x = a
      · simp [hx]
      · have hrest : a ∈ rest := (List.mem_cons.mp h).resolve_left (Ne.symm hx)
        rw [List.takeWhile_cons_of_pos (by simpa using hx),
          List.dropWhile_cons_of_pos (by simpa using hx), List.cons_append, ih hrest]

theorem place_perm (score : Nat → Int) (before : List Nat) (rr : Nat) (after : List Nat) :
    (place score before rr after).Perm (before ++ rr :: after) := by
  have hmiddle : ∀ first second : List Nat, first ++ second = before ++ after →
      (first ++ rr :: second).Perm (before ++ rr :: after) := by
    intro first second hlist
    exact (List.perm_middle.trans (hlist ▸ .refl _)).trans List.perm_middle.symm
  simp only [place]
  split
  next =>
    apply hmiddle
    rw [← List.append_assoc, List.rdropWhile_append_rtakeWhile]
  next =>
    apply hmiddle
    rw [List.append_assoc, List.takeWhile_append_dropWhile]

theorem getLast?_rdropWhile_not {α : Type*} {p : α → Bool} {list : List α} {x : α}
    (h : x ∈ (list.rdropWhile p).getLast?) : p x = false := by
  have hne : list.rdropWhile p ≠ [] := by
    intro hnil
    rw [hnil] at h
    cases h
  have hnot := List.rdropWhile_last_not p list hne
  rw [List.getLast?_eq_some_getLast hne] at h
  cases h
  simpa using hnot

theorem pairwise_insert {α : Type*} {R : α → α → Prop} {first second : List α} {x : α}
    (h : (first ++ second).Pairwise R) :
    (first ++ x :: second).Pairwise R ↔ (∀ a ∈ first, R a x) ∧ ∀ b ∈ second, R x b := by
  obtain ⟨hfirst, hsecond, hcross⟩ := List.pairwise_append.mp h
  rw [List.pairwise_append, List.pairwise_cons]
  constructor
  · intro hall
    exact ⟨fun a ha => hall.2.2 a ha x List.mem_cons_self, hall.2.1.1⟩
  · intro hx
    refine ⟨hfirst, ⟨hx.2, hsecond⟩, ?_⟩
    intro a ha b hb
    obtain rfl | hb := List.mem_cons.mp hb
    · exact hx.1 a ha
    · exact hcross a ha b hb

namespace Represents

variable {s : RankSystem} {r : Ranking}

theorem empty : Represents .empty .empty where
  linked := ⟨List.nodup_nil, rfl, rfl, trivial⟩
  numbered := trivial
  rankNum := rfl
  fresh := rfl
  entry _ ha := absurd ha List.not_mem_nil
  listed _ ha := absurd ha Bool.false_ne_true
  below _ ha := absurd ha List.not_mem_nil

theorem change (h : Represents s r) (rr : Nat) (f : Entry → Entry) :
    Walking { s with heap := write s.heap (some rr) fun node =>
        { node with toEntry := f node.toEntry } }
      (Function.update r.entry rr (f (r.entry rr))) r.order r.order where
  linked :=
    { nodup := h.linked.nodup
      head := h.linked.head
      tail := h.linked.tail
      segment := h.linked.segment.write_links (fun _ => rfl) (fun _ => rfl) }
  perm := .refl _
  numbered := by
    apply h.numbered.congr
    intro a _
    simp only [write]
    split
    next => simp [Function.comp_def]
    next => rfl
  entry a ha := by
    obtain ⟨node, hnode, hsame⟩ := Option.map_eq_some_iff.mp (h.entry a ha)
    by_cases heq : a = rr
    · subst heq
      simp [write_same, hnode, hsame]
    · have hother : some rr ≠ some a := fun hrr => heq (Option.some.inj hrr).symm
      simp [write_other hother, hnode, hsame, Function.update_of_ne heq]

theorem updatePos (h : Represents s r) {rr : Nat} (hrr : rr ∈ r.order) (stats : Stats)
    (script : Option Int) :
    ∃ s', s.updatePos rr stats script = some s' ∧
      Represents s' (r.updatePos rr stats script) := by
  have hsome : (s.heap rr).isSome := h.linked.isSome hrr
  have hsplit := Ranking.split hrr
  have hchange := h.change rr fun entry => entry.update stats script
  have hperm := place_perm
    (fun a => (Function.update r.entry rr ((r.entry rr).update stats script) a).score)
    (r.order.takeWhile (· ≠ rr)) rr (r.order.dropWhile (· ≠ rr)).tail
  rw [← hsplit] at hchange
  obtain ⟨heap, s', hmove, hwalk, hkept, hlinked, hsame⟩ := hchange.move (by
    rw [hsplit]
    exact h.rankNum)
  rw [hsplit] at hperm hwalk
  refine ⟨s', ?_, ?_⟩
  · have hsome' : (write s.heap (some rr) (fun node =>
        { node with toStats := node.toStats.commit stats }) rr).isSome := by
      rw [write_same, Option.isSome_map]
      exact hsome
    rw [← hmove, RankSystem.updatePos, RankSystem.modify_eq hsome, Option.bind_eq_bind,
      Option.bind_some, RankSystem.modify_eq hsome', Option.bind_some]
    simp only [RankSystem.write_write]
    rfl
  · exact
      { linked := hlinked
        numbered := hwalk.numbered.congr fun a _ => hsame.id a
        rankNum := by
          rw [hsame.rankNum]
          exact h.rankNum.trans (congrArg Nat.cast hperm.length_eq.symm)
        fresh := hsame.fresh.trans h.fresh
        entry := fun a ha => (hsame.entry a).trans (hwalk.entry a (hperm.mem_iff.mp ha))
        listed := by
          intro a ha
          rw [hsame.isSome, hkept a] at ha
          apply hperm.mem_iff.mpr
          apply h.listed a
          simpa [write, apply_ite Option.isSome] using ha
        below := fun a ha => h.below a (hperm.mem_iff.mp ha) }

theorem search (h : Represents s r) (isip : Bool) (unique : CString) (fuel : Nat)
    (before list : List Nat) (hlist : before ++ list = r.order) (hfuel : list.length ≤ fuel) :
    s.search isip unique fuel list.head? =
      some (list.find? fun a => isEntry isip unique (r.entry a).unique) := by
  induction list generalizing before fuel with
  | nil => cases fuel <;> rfl
  | cons a rest ih =>
      rw [List.length_cons] at hfuel
      obtain ⟨fuel, rfl⟩ := Nat.exists_eq_add_of_le' (Nat.le_trans (Nat.le_add_left 1 _) hfuel)
      have ha : a ∈ r.order := hlist ▸ List.mem_append_right _ List.mem_cons_self
      obtain ⟨node, hnode, hentry⟩ := Option.map_eq_some_iff.mp (h.entry a ha)
      have hlinked : Linked s (before ++ a :: rest) := hlist ▸ h.linked
      rw [List.head?_cons, RankSystem.search, hnode, Option.bind_eq_bind, Option.bind_some,
        (hlinked.next_prev hnode).2, List.find?_cons, ← hentry]
      cases isEntry isip unique node.unique with
      | true => rfl
      | false =>
          exact ih fuel (before ++ [a]) (by simpa using hlist) (by omega)

theorem append (h : Represents s r) (unique name : CString) :
    ∃ s', (s.alloc unique name).putAfter s.fresh none = some s' ∧
      Represents s'
        { order := r.order ++ [r.fresh]
          entry := Function.update r.entry r.fresh (Entry.new unique name)
          fresh := r.fresh + 1 } := by
  have hfresh : s.fresh ∉ r.order := fun ha =>
    Nat.lt_irrefl _ (h.fresh ▸ h.below s.fresh ha)
  have hother : ∀ a ∈ r.order, a ≠ s.fresh := fun a ha heq => hfresh (heq ▸ ha)
  have hkept : ∀ a ∈ r.order, (s.alloc unique name).heap a = s.heap a := fun a ha =>
    if_neg (hother a ha)
  obtain ⟨node, hnode, hentry, hid⟩ : ∃ node, (s.alloc unique name).heap s.fresh = some node ∧
      node.toEntry = Entry.new unique name ∧ node.id = s.rankNum + 1 := by
    exact ⟨_, if_pos rfl, rfl, rfl⟩
  have hlinked : Linked (s.alloc unique name) (r.order ++ []) := by
    rw [List.append_nil]
    exact ⟨h.linked.nodup, h.linked.head, h.linked.tail, h.linked.segment.congr hkept⟩
  have hnot : s.fresh ∉ r.order ++ [] := by simpa using hfresh
  have hsome : ((s.alloc unique name).heap s.fresh).isSome := by
    rw [hnode]
    rfl
  have hsame := RankSystem.sameEntries_linkedIn (s.alloc unique name) r.order s.fresh []
    (r.order ++ [s.fresh]).head? [s.fresh].getLast?
  refine ⟨_, RankSystem.putAfter_eq hlinked hnot hsome, ?_⟩
  rw [← h.fresh]
  exact
    { linked := RankSystem.linked_linkedIn hlinked hnot hsome
      numbered := by
        refine Numbered.congr (Numbered.append_iff.mpr
          ⟨h.numbered.congr fun a ha => congrArg _ (hkept a ha), ?_, trivial⟩)
          fun a _ => hsame.id a
        rw [hnode, Option.map_some, hid, h.rankNum, Int.add_comm]
      rankNum := by
        rw [hsame.rankNum]
        simp [RankSystem.alloc, h.rankNum]
      fresh := hsame.fresh
      entry := by
        intro a ha
        rw [hsame.entry]
        obtain ha | ha := List.mem_append.mp ha
        · simp [hkept a ha, h.entry a ha, Function.update_of_ne (hother a ha)]
        · simp [List.mem_singleton.mp ha, hnode, hentry]
      listed := by
        intro a ha
        rw [hsame.isSome] at ha
        by_cases heq : a = s.fresh
        · exact List.mem_append_right _ (List.mem_singleton.mpr heq)
        · exact List.mem_append_left _ (h.listed a (by simpa [RankSystem.alloc, heq] using ha))
      below := by
        intro a ha
        obtain ha | ha := List.mem_append.mp ha
        · exact Nat.lt_succ_of_lt (h.fresh ▸ h.below a ha)
        · rw [List.mem_singleton.mp ha]
          exact Nat.lt_succ_self _ }

theorem findEntryInRank (h : Represents s r) (unique name : CString) (isip : Bool) :
    ∃ s', s.findEntryInRank unique name isip =
        some (s', (r.find? isip unique).getD r.fresh) ∧
      Represents s' (r.findEntryInRank unique name isip) := by
  have hsearch := h.search isip unique s.rankNum.toNat [] r.order rfl (by
    rw [h.rankNum, Int.toNat_natCast])
  rw [← h.linked.head] at hsearch
  rw [RankSystem.findEntryInRank, hsearch, Option.bind_eq_bind, Option.bind_some,
    Ranking.findEntryInRank, Ranking.find?]
  cases r.order.find? fun a => isEntry isip unique (r.entry a).unique with
  | some a => exact ⟨s, rfl, h⟩
  | none =>
      obtain ⟨s', hput, hrepresents⟩ := h.append unique name
      exact ⟨s', by simp [← h.fresh, hput], hrepresents⟩

theorem step (h : Represents s r) (event : Event) :
    Option.Rel Represents (Rank.step s event) (r.step event) := by
  cases event with
  | findEntryInRank unique name isip =>
      obtain ⟨s', hfind, hrepresents⟩ := h.findEntryInRank unique name isip
      rw [Rank.step, hfind]
      exact .some hrepresents
  | updatePosition a stats script =>
      by_cases ha : a ∈ r.order
      · obtain ⟨s', hupdate, hrepresents⟩ := h.updatePos ha stats script
        rw [Rank.step, hupdate, Ranking.step, if_pos ha]
        exact .some hrepresents
      · have hnone : (s.heap a).isSome = false := by
          simpa using mt (h.listed a) ha
        rw [Rank.step, RankSystem.updatePos, RankSystem.modify, Ranking.step, if_neg ha]
        simp only [hnone, Bool.false_eq_true, if_false]
        exact .none

theorem follow (h : Represents s r) (fuel : Nat) (before list : List Nat)
    (hlist : before ++ list = r.order) (hfuel : list.length ≤ fuel) :
    s.follow fuel list.head? = list := by
  induction list generalizing before fuel with
  | nil => cases fuel <;> rfl
  | cons a rest ih =>
      rw [List.length_cons] at hfuel
      obtain ⟨fuel, rfl⟩ := Nat.exists_eq_add_of_le' (Nat.le_trans (Nat.le_add_left 1 _) hfuel)
      have hlinked : Linked s (before ++ a :: rest) := hlist ▸ h.linked
      obtain ⟨node, hnode, -, hprev⟩ := hlinked.middle
      rw [List.head?_cons, RankSystem.follow, hnode]
      simp only [hprev]
      rw [ih fuel (before ++ [a]) (by simpa using hlist) (by omega)]

theorem toList (h : Represents s r) : s.toList = r.order := by
  rw [RankSystem.toList, h.linked.head, h.rankNum, Int.toNat_natCast]
  exact h.follow _ [] _ rfl (Nat.le_refl _)

theorem run (events : List Event) :
    Option.Rel Represents (run Rank.step .empty events) (run Ranking.step .empty events) :=
  run_related (fun h _ => h.step _) empty (meets_of_forall fun _ _ => trivial)

end Represents

end AmxModC.Rank
