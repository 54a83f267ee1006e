import AmxModC.Rank.Refinement

namespace AmxModC.Rank

open Foundation

/-! The list of the ranking after any calls. -/

structure RankSystem.WellFormed (s : RankSystem) (list : List Nat) : Prop where
  linked : Linked s list
  created : list.Perm (List.range s.fresh)
  ids : list.map (fun a => (s.heap a).map RankStats.id) =
    (List.range s.rankNum.toNat).map fun i : Nat => some (1 + (i : Int))
  rankNum : s.rankNum = list.length

namespace Ranking

variable {r r' : Ranking}

def Complete (r : Ranking) : Prop := r.order.Perm (List.range r.fresh)

theorem Complete.step (h : r.Complete) {event : Event} (hstep : r.step event = some r') :
    r'.Complete := by
  cases event with
  | findEntryInRank unique name isip =>
      cases hstep
      unfold Ranking.findEntryInRank
      split
      next => exact h
      next =>
        unfold Complete
        rw [List.range_succ]
        exact h.append_right _
  | updatePosition a stats script =>
      simp only [Ranking.step] at hstep
      split at hstep
      next ha =>
        cases hstep
        refine (place_perm _ _ _ _).trans ?_
        rw [split ha]
        exact h
      next => cases hstep

theorem complete_run {events : List Event} (hrun : run step empty events = some r) :
    r.Complete := by
  have hempty : empty.Complete := .refl []
  have hmeets : Meets step (fun _ _ => True) empty events := meets_of_forall fun _ _ => trivial
  exact run_invariant (fun h _ hstep => h.step hstep) hempty hmeets hrun

end Ranking

theorem Numbered.map_id {heap : Nat → Option RankStats} {k : Int} {list : List Nat}
    (h : Numbered heap k list) :
    list.map (fun a => (heap a).map RankStats.id) =
      (List.range list.length).map fun i : Nat => some (k + (i : Int)) := by
  induction list generalizing k with
  | nil => rfl
  | cons a rest ih =>
      rw [List.map_cons, h.1, ih h.2, List.length_cons, List.range_succ_eq_map, List.map_cons,
        List.map_map]
      congr 1
      · simp
      · apply List.map_congr_left
        intro i _
        simp only [Function.comp_apply, Nat.succ_eq_add_one, Int.natCast_add, Option.some_inj]
        omega

theorem Represents.wellFormed {s : RankSystem} {r : Ranking} (h : Represents s r)
    (hcomplete : r.Complete) : s.WellFormed r.order where
  linked := h.linked
  created := h.fresh ▸ hcomplete
  ids := by
    rw [h.rankNum, Int.toNat_natCast]
    exact h.numbered.map_id
  rankNum := h.rankNum

theorem Represents.isSome_updatePos {s : RankSystem} {r : Ranking} (h : Represents s r) (a : Nat)
    (stats : Stats) (script : Option Int) :
    (s.updatePos a stats script).isSome ↔ a ∈ r.order := by
  have hstep := h.step (.updatePosition a stats script)
  rw [Rank.step, Ranking.step] at hstep
  generalize s.updatePos a stats script = next at hstep
  split at hstep
  next ha =>
    cases hstep
    exact iff_of_true rfl ha
  next ha =>
    cases hstep
    exact iff_of_false Bool.false_ne_true ha

/-- After any calls the list is well formed and its ids count up to `rankNum`; and no call
fails, as long as a position is updated for an entry that has been created. -/
theorem run_wellFormed {s : RankSystem} {events : List Event}
    (hrun : run step .empty events = some s) :
    (∃ list, s.WellFormed list) ∧
      (∀ unique name isip, (s.findEntryInRank unique name isip).isSome) ∧
      ∀ a stats script, (s.updatePos a stats script).isSome ↔ a < s.fresh := by
  have hrelated := Represents.run events
  rw [hrun] at hrelated
  generalize habstract : run Ranking.step .empty events = abstract at hrelated
  cases hrelated with
  | some h =>
      have hcomplete := Ranking.complete_run habstract
      refine ⟨⟨_, h.wellFormed hcomplete⟩, ?_, ?_⟩
      · intro unique name isip
        obtain ⟨s', hfind, -⟩ := h.findEntryInRank unique name isip
        exact Option.isSome_of_mem hfind
      · intro a stats script
        rw [h.isSome_updatePos, hcomplete.mem_iff, List.mem_range, h.fresh]

def overtaking : List Event :=
  [.findEntryInRank (.ofMemory [65]) (.ofMemory [65]) false,
    .findEntryInRank (.ofMemory [66]) (.ofMemory [66]) false,
    .updatePosition 1 { Stats.zero with kills := 2 } none]

theorem run_wellFormed_overtaking :
    ∃ s list, run step .empty overtaking = some s ∧ s.WellFormed list := by
  have hsome : (run step .empty overtaking).isSome := by decide
  obtain ⟨s, hs⟩ := Option.isSome_iff_exists.mp hsome
  obtain ⟨list, hlist⟩ := (run_wellFormed hs).1
  exact ⟨s, list, hs, hlist⟩

end AmxModC.Rank
