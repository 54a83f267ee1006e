import AmxModC.Rank.WellFormed

namespace AmxModC.Rank

open Foundation

/-! The order of the players that have been updated, among those that have not. -/

section

variable {score : Nat → Int} {updated : Nat → Prop} {before after kept passed list : List Nat}
  {a rr u : Nat}

def InOrder (score : Nat → Int) (updated : Nat → Prop) (list : List Nat) : Prop :=
  list.Pairwise fun a b => updated a → updated b → score b ≤ score a

def NegativeBelow (score : Nat → Int) (updated : Nat → Prop) (list : List Nat) : Prop :=
  list.Pairwise fun a b => ¬ updated a → updated b → score b < 0

def ZeroUntil (score : Nat → Int) (updated : Nat → Prop) (list : List Nat) : Prop :=
  ∀ a ∈ list, ¬ updated a → score a = 0

def Blocked (score : Nat → Int) (updated : Nat → Prop) (before : List Nat) (limit : Int) : Prop :=
  ∃ x n, [x, n].Sublist before ∧ updated x ∧ ¬ updated n ∧ score x < limit ∧ limit < 0

theorem le_of_head (horder : InOrder score updated (u :: list))
    (hnegative : NegativeBelow score updated (u :: list))
    (hzero : ZeroUntil score updated (u :: list)) {limit : Int} (hu : score u ≤ limit)
    (ha : a ∈ list) (hupdated : updated a) : score a ≤ limit := by
  by_cases hhead : updated u
  · exact Int.le_trans (List.rel_of_pairwise_cons horder ha hhead hupdated) hu
  · have hbelow := List.rel_of_pairwise_cons hnegative ha hhead hupdated
    have hscore := hzero u List.mem_cons_self hhead
    omega

theorem le_kept_iff (horder : InOrder score updated (kept ++ passed))
    (hnegative : NegativeBelow score updated (kept ++ passed))
    (hzero : ZeroUntil score updated (kept ++ passed)) {limit : Int}
    (hlast : ∀ y ∈ kept.getLast?, limit < score y) (hpassed : ∀ y ∈ passed, score y ≤ limit) :
    (∀ x ∈ kept, updated x → limit ≤ score x) ↔
      ¬ Blocked score updated (kept ++ passed) limit := by
  constructor
  · intro hkept hblocked
    obtain ⟨x, n, hsub, hx, hn, hless, hlimit⟩ := hblocked
    obtain ⟨first, second, heq, hfirst, hsecond⟩ := List.sublist_append_iff.mp hsub
    have hnzero := hzero n (hsub.subset (by simp)) hn
    have hnil : second = [] := by
      obtain rfl | ⟨front, last, rfl⟩ := List.eq_nil_or_concat' second
      · rfl
      · have hlast : n = last := by simpa [← List.append_assoc] using congrArg List.getLast? heq
        have hn := hpassed last (hsecond.subset (by simp))
        rw [← hlast] at hn
        omega
    rw [hnil, List.append_nil] at heq
    have := hkept x (hfirst.subset (heq ▸ List.mem_cons_self)) hx
    omega
  · intro hfree x hx hupdated
    by_contra hless
    obtain rfl | ⟨first, y, rfl⟩ := List.eq_nil_or_concat' kept
    · cases hx
    · have hy := hlast y (by simp)
      have hxfirst : x ∈ first := by
        obtain hx | hx := List.mem_append.mp hx
        · exact hx
        · rw [List.mem_singleton.mp hx] at hless
          omega
      have hsub : [x, y].Sublist (first ++ [y] ++ passed) :=
        ((List.singleton_sublist.mpr hxfirst).append (.refl [y])).trans
          (List.sublist_append_left _ _)
      by_cases hyupdated : updated y
      · have := List.pairwise_iff_forall_sublist.mp horder hsub hupdated hyupdated
        omega
      · have := hzero y (by simp) hyupdated
        exact hfree ⟨x, y, hsub, hupdated, hyupdated, by omega, by omega⟩

theorem place_split (score : Nat → Int) (before : List Nat) (rr : Nat) (after : List Nat) :
    ∃ kept passed first second, before = kept ++ passed ∧
      place score before rr after = first ++ rr :: second ∧ first ++ second = before ++ after ∧
      (∀ y ∈ kept.getLast?, score rr < score y) ∧ (∀ y ∈ passed, score y ≤ score rr) ∧
      (∃ down, first = kept ++ down ∧ ∀ y ∈ down, score rr < score y) ∧
      ∀ y ∈ second.head?, score y ≤ score rr := by
  have hsplit := List.rdropWhile_append_rtakeWhile (l := before)
    (p := fun a => decide (score a ≤ score rr))
  have hkept : ∀ y ∈ (before.rdropWhile fun a => decide (score a ≤ score rr)).getLast?,
      score rr < score y := by
    intro y hy
    simpa using getLast?_rdropWhile_not hy
  have hpassed : ∀ y ∈ before.rtakeWhile fun a => decide (score a ≤ score rr),
      score y ≤ score rr := by
    intro y hy
    simpa using List.mem_rtakeWhile_imp hy
  simp only [place]
  generalize before.rdropWhile (fun a => decide (score a ≤ score rr)) = kept at *
  generalize before.rtakeWhile (fun a => decide (score a ≤ score rr)) = passed at *
  split
  next hne =>
    refine ⟨kept, passed, kept, passed ++ after, hsplit.symm, rfl, ?_, hkept, hpassed,
      ⟨[], by simp, by simp⟩, ?_⟩
    · rw [← hsplit, List.append_assoc]
    · intro y hy
      rw [List.head?_append_of_ne_nil _ hne] at hy
      exact hpassed y (List.mem_of_head? hy)
  next hnil =>
    rw [not_not.mp hnil, List.append_nil] at hsplit
    subst hsplit
    refine ⟨kept, [], _, _, (List.append_nil _).symm, rfl, ?_, hkept, by simp,
      ⟨_, rfl, ?_⟩, ?_⟩
    · rw [List.append_assoc, List.takeWhile_append_dropWhile]
    · intro y hy
      simpa using List.mem_takeWhile_imp hy
    · intro y hy
      have hnot := List.head?_dropWhile_not (fun a => decide (score a > score rr)) after
      rw [hy] at hnot
      simpa using hnot

theorem inOrder_place_iff (horder : InOrder score updated (before ++ after))
    (hnegative : NegativeBelow score updated (before ++ after))
    (hzero : ZeroUntil score updated (before ++ after)) (hrr : updated rr) :
    InOrder score updated (place score before rr after) ↔
      ¬ Blocked score updated before (score rr) := by
  obtain ⟨kept, passed, first, second, hbefore, hplace, hlist, hkept, hpassed,
    ⟨down, hfirst, hdown⟩, hsecond⟩ := place_split score before rr after
  rw [hplace]
  have hbelow : ∀ b ∈ second, updated rr → updated b → score b ≤ score rr := by
    intro b hb _ hupdated
    rw [← hlist] at horder hnegative hzero
    cases second with
    | nil => cases hb
    | cons u rest =>
        have hu := hsecond u rfl
        obtain rfl | hb := List.mem_cons.mp hb
        · exact hu
        · exact le_of_head (List.pairwise_append.mp horder).2.1
            (List.pairwise_append.mp hnegative).2.1
            (fun a ha => hzero a (List.mem_append_right _ ha)) hu hb hupdated
  have habove : (∀ a ∈ first, updated a → updated rr → score rr ≤ score a) ↔
      ∀ a ∈ kept, updated a → score rr ≤ score a := by
    constructor
    · intro h a ha hupdated
      exact h a (hfirst ▸ List.mem_append_left _ ha) hupdated hrr
    · intro h a ha hupdated _
      obtain ha | ha := List.mem_append.mp (hfirst ▸ ha)
      · exact h a ha hupdated
      · exact Int.le_of_lt (hdown a ha)
  rw [hbefore] at horder hnegative hzero ⊢
  rw [InOrder, pairwise_insert (by rw [hlist, hbefore]; exact horder), habove,
    le_kept_iff (List.pairwise_append.mp horder).1 (List.pairwise_append.mp hnegative).1
      (fun a ha => hzero a (List.mem_append_left _ ha)) hkept hpassed]
  exact and_iff_left hbelow

theorem negativeBelow_place (hnegative : NegativeBelow score updated (before ++ after))
    (hzero : ZeroUntil score updated (before ++ after)) (hrr : updated rr) :
    NegativeBelow score updated (place score before rr after) := by
  obtain ⟨kept, passed, first, second, hbefore, hplace, hlist, hkept, -, ⟨down, hfirst, hdown⟩,
    -⟩ := place_split score before rr after
  rw [hplace]
  refine (pairwise_insert (hlist ▸ hnegative)).mpr ⟨?_, fun b _ hnot => absurd hrr hnot⟩
  intro a ha hnot _
  have hmem : a ∈ before ++ after := hlist ▸ List.mem_append_left _ ha
  have hscore := hzero a hmem hnot
  obtain ha | ha := List.mem_append.mp (hfirst ▸ ha)
  · by_contra hsign
    obtain rfl | ⟨front, y, rfl⟩ := List.eq_nil_or_concat' kept
    · cases ha
    · have hy := hkept y (by simp)
      have hyupdated : updated y := by
        by_contra hynot
        have := hzero y (by simp [hbefore]) hynot
        omega
      have hfront : a ∈ front := by
        obtain ha | ha := List.mem_append.mp ha
        · exact ha
        · exact absurd (List.mem_singleton.mp ha ▸ hyupdated) hnot
      have hsub : [a, y].Sublist (before ++ after) := by
        have hkeptSub := (List.singleton_sublist.mpr hfront).append (.refl [y])
        rw [hbefore, List.append_assoc]
        exact hkeptSub.trans (List.sublist_append_left _ _)
      have := List.pairwise_iff_forall_sublist.mp hnegative hsub hnot hyupdated
      omega
  · have := hdown a ha
    omega

end

namespace RankSystem

def score (s : RankSystem) (a : Nat) : Int := ((s.heap a).map fun node => node.score).getD 0

end RankSystem

structure Season where
  s : RankSystem
  updated : List Nat

namespace Season

def start : Season := ⟨.empty, []⟩

def step (season : Season) (event : Event) : Option Season :=
  (Rank.step season.s event).map fun s =>
    match event with
    | .findEntryInRank .. => ⟨s, season.updated⟩
    | .updatePosition a _ _ => ⟨s, a :: season.updated⟩

def Ordered (season : Season) : Prop :=
  InOrder season.s.score (· ∈ season.updated) season.s.toList

instance (season : Season) : Decidable season.Ordered :=
  inferInstanceAs (Decidable (List.Pairwise _ _))

/-- Nothing keeps the entry from its place: there is no updated entry with a lesser score
above an entry that has not been updated and stands above it, or its new score is not
negative. -/
def Free (season : Season) : Event → Prop
  | .findEntryInRank .. => True
  | .updatePosition a stats script =>
      ∀ node ∈ season.s.heap a, ¬ Blocked season.s.score (· ∈ season.updated)
        (season.s.toList.takeWhile (· ≠ a)) (node.toEntry.update stats script).score

end Season

namespace Represents

variable {s : RankSystem} {r : Ranking}

theorem score (h : Represents s r) {a : Nat} (ha : a ∈ r.order) : s.score a = r.score a := by
  obtain ⟨node, hnode, hentry⟩ := Option.map_eq_some_iff.mp (h.entry a ha)
  rw [RankSystem.score, hnode, Ranking.score, ← hentry]
  rfl

end Represents

section

variable {score score' : Nat → Int} {updated updated' : Nat → Prop} {list : List Nat}

theorem InOrder.congr (hscore : ∀ a ∈ list, score a = score' a)
    (hupdated : ∀ a ∈ list, updated a ↔ updated' a) :
    InOrder score updated list ↔ InOrder score' updated' list := by
  apply List.Pairwise.iff_of_mem
  intro a b ha hb
  rw [hscore a ha, hscore b hb, hupdated a ha, hupdated b hb]

theorem NegativeBelow.congr (hscore : ∀ a ∈ list, score a = score' a)
    (hupdated : ∀ a ∈ list, updated a ↔ updated' a) :
    NegativeBelow score updated list ↔ NegativeBelow score' updated' list := by
  apply List.Pairwise.iff_of_mem
  intro a b ha hb
  rw [hscore b hb, hupdated a ha, hupdated b hb]

theorem ZeroUntil.congr (hscore : ∀ a ∈ list, score a = score' a)
    (hupdated : ∀ a ∈ list, updated a ↔ updated' a) :
    ZeroUntil score updated list ↔ ZeroUntil score' updated' list := by
  refine forall₂_congr fun a ha => ?_
  rw [hscore a ha, hupdated a ha]

theorem Blocked.congr (hscore : ∀ a ∈ list, score a = score' a)
    (hupdated : ∀ a ∈ list, updated a ↔ updated' a) (limit : Int) :
    Blocked score updated list limit ↔ Blocked score' updated' list limit := by
  unfold Blocked
  refine exists₂_congr fun x n => and_congr_right fun hsub => ?_
  have hx : x ∈ list := hsub.subset (by simp)
  have hn : n ∈ list := hsub.subset (by simp)
  rw [hscore x hx, hupdated x hx, hupdated n hn]

end

structure Tracked (r : Ranking) (updated : List Nat) : Prop where
  subset : ∀ a ∈ updated, a ∈ r.order
  negative : NegativeBelow r.score (· ∈ updated) r.order
  zero : ZeroUntil r.score (· ∈ updated) r.order

namespace Tracked

variable {r : Ranking} {updated : List Nat} {a : Nat}

theorem append (h : Tracked r updated) (hfresh : r.fresh ∉ r.order) (unique name : CString) :
    let r' : Ranking :=
      { order := r.order ++ [r.fresh]
        entry := Function.update r.entry r.fresh (Entry.new unique name)
        fresh := r.fresh + 1 }
    Tracked r' updated ∧
      (InOrder r.score (· ∈ updated) r.order → InOrder r'.score (· ∈ updated) r'.order) := by
  intro r'
  have hscore : ∀ b ∈ r.order, r.score b = r'.score b := by
    intro b hb
    have hne : b ≠ r.fresh := fun heq => hfresh (heq ▸ hb)
    simp [r', Ranking.score, Function.update_of_ne hne]
  have hnot : r.fresh ∉ updated := fun hmem => hfresh (h.subset _ hmem)
  refine ⟨⟨?_, ?_, ?_⟩, ?_⟩
  · intro b hb
    exact List.mem_append_left _ (h.subset b hb)
  · refine List.pairwise_append.mpr ⟨(NegativeBelow.congr hscore fun _ _ => .rfl).mp h.negative,
      List.pairwise_singleton _ _, ?_⟩
    intro b _ c hc _ hmem
    exact absurd (List.mem_singleton.mp hc ▸ hmem) hnot
  · intro b hb hb'
    obtain hb | hb := List.mem_append.mp hb
    · exact ((ZeroUntil.congr hscore fun _ _ => .rfl).mp h.zero) b hb hb'
    · rw [List.mem_singleton.mp hb]
      simp [r', Ranking.score, Entry.new]
  · intro horder
    refine List.pairwise_append.mpr ⟨(InOrder.congr hscore fun _ _ => .rfl).mp horder,
      List.pairwise_singleton _ _, ?_⟩
    intro b _ c hc _ hmem
    exact absurd (List.mem_singleton.mp hc ▸ hmem) hnot

theorem findEntryInRank (h : Tracked r updated) (hfresh : r.fresh ∉ r.order)
    (horder : InOrder r.score (· ∈ updated) r.order) (unique name : CString) (isip : Bool) :
    Tracked (r.findEntryInRank unique name isip) updated ∧
      InOrder (r.findEntryInRank unique name isip).score (· ∈ updated)
        (r.findEntryInRank unique name isip).order := by
  unfold Ranking.findEntryInRank
  split
  next => exact ⟨h, horder⟩
  next =>
    obtain ⟨htracked, hkept⟩ := h.append hfresh unique name
    exact ⟨htracked, hkept horder⟩

theorem updatePos (h : Tracked r updated) (hnodup : r.order.Nodup) (ha : a ∈ r.order)
    (stats : Stats) (script : Option Int) :
    let r' := r.updatePos a stats script
    Tracked r' (a :: updated) ∧
      (InOrder r.score (· ∈ updated) r.order →
        (InOrder r'.score (· ∈ a :: updated) r'.order ↔
          ¬ Blocked r.score (· ∈ updated) (r.order.takeWhile (· ≠ a))
            ((r.entry a).update stats script).score)) := by
  intro r'
  have hsplit := Ranking.split ha
  have hplace : r'.order = place r'.score (r.order.takeWhile (· ≠ a)) a
      (r.order.dropWhile (· ≠ a)).tail := rfl
  have hself : r'.score a = ((r.entry a).update stats script).score := by
    simp [r', Ranking.score, Ranking.updatePos]
  have hsame : ∀ b, b ≠ a → r.score b = r'.score b := by
    intro b hb
    simp [r', Ranking.score, Ranking.updatePos, Function.update_of_ne hb]
  generalize r.order.takeWhile (· ≠ a) = before at *
  generalize (r.order.dropWhile (· ≠ a)).tail = after at *
  have hothers : (before ++ after).Sublist r.order :=
    hsplit ▸ (List.Sublist.refl before).append (List.sublist_cons_self a after)
  have hnot : a ∉ before ++ after :=
    (List.nodup_cons.mp (List.nodup_middle.mp (hsplit ▸ hnodup))).1
  have hne : ∀ b ∈ before ++ after, b ≠ a := fun b hb heq => hnot (heq ▸ hb)
  have hscore : ∀ b ∈ before ++ after, r.score b = r'.score b := fun b hb => hsame b (hne b hb)
  have hupdated : ∀ b ∈ before ++ after, b ∈ updated ↔ b ∈ a :: updated := fun b hb => by
    simp [hne b hb]
  have hnegative : NegativeBelow r'.score (· ∈ a :: updated) (before ++ after) :=
    (NegativeBelow.congr hscore hupdated).mp (h.negative.sublist hothers)
  have hzero : ZeroUntil r'.score (· ∈ a :: updated) (before ++ after) :=
    (ZeroUntil.congr hscore hupdated).mp fun b hb => h.zero b (hothers.subset hb)
  have hperm := place_perm r'.score before a after
  rw [hsplit] at hperm
  refine ⟨⟨?_, ?_, ?_⟩, ?_⟩
  · intro b hb
    rw [hplace, hperm.mem_iff]
    obtain rfl | hb := List.mem_cons.mp hb
    · exact ha
    · exact h.subset b hb
  · rw [hplace]
    exact negativeBelow_place hnegative hzero List.mem_cons_self
  · intro b hb hb'
    rw [hplace, hperm.mem_iff] at hb
    have hb' : b ≠ a ∧ b ∉ updated := by simpa using hb'
    rw [← hsame b hb'.1]
    exact h.zero b hb hb'.2
  · intro horder
    have horder' : InOrder r'.score (· ∈ a :: updated) (before ++ after) :=
      (InOrder.congr hscore hupdated).mp (horder.sublist hothers)
    rw [hplace, inOrder_place_iff horder' hnegative hzero List.mem_cons_self, hself,
      Blocked.congr (fun b hb => hscore b (List.mem_append_left _ hb))
        fun b hb => hupdated b (List.mem_append_left _ hb)]

end Tracked

namespace Season

def Sound (season : Season) : Prop :=
  ∃ r, Represents season.s r ∧ Tracked r season.updated ∧
    InOrder r.score (· ∈ season.updated) r.order

theorem ordered_iff {season : Season} {r : Ranking} (h : Represents season.s r) :
    season.Ordered ↔ InOrder r.score (· ∈ season.updated) r.order := by
  rw [Ordered, h.toList]
  exact InOrder.congr (fun a ha => h.score ha) fun _ _ => .rfl

theorem sound_start : start.Sound :=
  ⟨.empty, .empty, ⟨by simp [start], .nil, by simp [ZeroUntil, Ranking.empty]⟩, .nil⟩

theorem step_ordered_iff {season next : Season} {event : Event} (h : season.Sound)
    (hstep : season.step event = some next) :
    (next.Ordered ↔ season.Free event) ∧ (next.Ordered → next.Sound) := by
  obtain ⟨r, hr, htracked, horder⟩ := h
  cases event with
  | findEntryInRank unique name isip =>
      have hfresh : r.fresh ∉ r.order := fun hmem => Nat.lt_irrefl _ (hr.below _ hmem)
      obtain ⟨s', hfind, hr'⟩ := hr.findEntryInRank unique name isip
      obtain ⟨htracked', horder'⟩ := htracked.findEntryInRank hfresh horder unique name isip
      rw [step, Rank.step, hfind] at hstep
      cases hstep
      exact ⟨iff_of_true ((ordered_iff hr').mpr horder') trivial,
        fun _ => ⟨_, hr', htracked', horder'⟩⟩
  | updatePosition a stats script =>
      have hsome : (season.s.updatePos a stats script).isSome := by
        rw [← Option.isSome_map]
        exact Option.isSome_of_mem hstep
      have ha := (hr.isSome_updatePos a stats script).mp hsome
      obtain ⟨s', hupdate, hr'⟩ := hr.updatePos ha stats script
      obtain ⟨htracked', hiff⟩ := htracked.updatePos hr.linked.nodup ha stats script
      rw [step, Rank.step, hupdate] at hstep
      cases hstep
      refine ⟨?_, fun hordered => ⟨_, hr', htracked', (ordered_iff hr').mp hordered⟩⟩
      rw [ordered_iff hr', hiff horder, Free, hr.toList]
      obtain ⟨node, hnode, hentry⟩ := Option.map_eq_some_iff.mp (hr.entry a ha)
      rw [hnode, ← hentry]
      have hcongr : Blocked season.s.score (· ∈ season.updated) (r.order.takeWhile (· ≠ a))
            (node.toEntry.update stats script).score ↔
          Blocked r.score (· ∈ season.updated) (r.order.takeWhile (· ≠ a))
            (node.toEntry.update stats script).score :=
        Blocked.congr (fun b hb => hr.score ((List.takeWhile_sublist _).subset hb))
          (fun _ _ => .rfl) _
      simp only [Option.mem_def, Option.some_inj, forall_eq', hcongr]

theorem free_of_step_eq_none {season : Season} {event : Event} (h : season.Sound)
    (hstep : season.step event = none) : season.Free event := by
  obtain ⟨r, hr, -⟩ := h
  cases event with
  | findEntryInRank unique name isip => trivial
  | updatePosition a stats script =>
      intro node hnode
      have ha := hr.listed a (Option.isSome_of_mem hnode)
      obtain ⟨s', hupdate, -⟩ := hr.updatePos ha stats script
      rw [step, Rank.step, hupdate] at hstep
      cases hstep

/-- After every call of a sequence the updated entries are in order exactly if no call of it
meets an entry that is kept from its place. -/
theorem meets_ordered_iff (events : List Event) :
    Meets step (fun season event => ∀ next, season.step event = some next → next.Ordered) start
        events ↔
      Meets step Free start events := by
  refine meets_congr ?_ ?_ sound_start
  · intro season event next h hallowed hstep
    exact (step_ordered_iff h hstep).2 (hallowed next hstep)
  · intro season event h
    cases hstep : season.step event with
    | none =>
        refine iff_of_true ?_ (free_of_step_eq_none h hstep)
        intro next hnext
        cases hnext
    | some next =>
        rw [← (step_ordered_iff h hstep).1]
        exact ⟨fun hall => hall next rfl, fun hordered _ heq => Option.some.inj heq ▸ hordered⟩

/-- The second player keeps the third from its place, before it has played at all. -/
theorem not_ordered : ¬ ∀ events final, run step start events = some final → final.Ordered := by
  intro h
  let events : List Event :=
    [.findEntryInRank (.ofMemory [65]) (.ofMemory [65]) false,
      .updatePosition 0 { Stats.zero with deaths := 5 } none,
      .findEntryInRank (.ofMemory [66]) (.ofMemory [66]) false,
      .findEntryInRank (.ofMemory [67]) (.ofMemory [67]) false,
      .updatePosition 2 { Stats.zero with deaths := 2 } none]
  have hview : ((run step start events).map fun final => decide final.Ordered) = some false := by
    decide
  obtain ⟨final, hrun, hfinal⟩ := Option.map_eq_some_iff.mp hview
  exact absurd (h events final hrun) (of_decide_eq_false hfinal)

end Season

end AmxModC.Rank
