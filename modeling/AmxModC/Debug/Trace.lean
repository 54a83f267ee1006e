import AmxModC.Debug.Tracer

namespace AmxModC.Debug

open Foundation

/-! The abstract machine as a tracer sees it. -/

/-- The frames of the pending calls, innermost first, as they are now and as they were at the last
debug step. The stack grows downwards. -/
structure Machine where
  tracer : Tracer
  pending : List Int
  seen : List Int
  ordered : pending.Pairwise (· < ·)

inductive MachineEvent where
  | exec (frm : Int)
  | call (frm : Int)
  | ret
  | line (cip : Int)
  | halt

namespace Machine

def idle : Machine := ⟨Tracer.new, [], [], .nil⟩

variable (s : Machine)

/-- `BeginExec` resets the tracer before the first function is called, `EndExec` after it. -/
def step : MachineEvent → Option Machine
  | .exec frm =>
      if s.pending = [] then some ⟨s.tracer.resetCalls, [frm], [], List.pairwise_singleton _ _⟩
      else none
  | .call frm =>
      if h : s.pending ≠ [] ∧ ∀ caller ∈ s.pending, frm < caller then
        some ⟨s.tracer, frm :: s.pending, s.seen, List.pairwise_cons.mpr ⟨h.2, s.ordered⟩⟩
      else none
  | .ret =>
      if s.pending.tail ≠ [] then some ⟨s.tracer, s.pending.tail, s.seen, s.ordered.tail⟩
      else none
  | .line cip => do
      let frm ← s.pending.head?
      let tracer ← s.tracer.stepI frm cip
      return ⟨tracer, s.pending, s.pending, s.ordered⟩
  | .halt =>
      if s.pending ≠ [] then some ⟨s.tracer.resetCalls, [], [], .nil⟩ else none

def Mirrors (tracer : Tracer) (pending : List Int) : Prop :=
  tracer.trace.reverse = pending.reverse ∧ tracer.trace.reverse.Pairwise (· > ·) ∧
    tracer.trace.reverse.getLast? = pending.head?

instance (tracer : Tracer) (pending : List Int) : Decidable (Mirrors tracer pending) :=
  inferInstanceAs (Decidable (_ ∧ _ ∧ _))

def Right : MachineEvent → Prop
  | .line cip => ∀ frm ∈ s.pending.head?, ∃ t ∈ s.tracer.stepI frm cip, Mirrors t s.pending
  | _ => True

def Followed : MachineEvent → Prop
  | .line _ => s.pending = s.seen ∨ s.pending.tail = s.seen ∨ s.pending = s.seen.tail
  | _ => True

instance (event : MachineEvent) : Decidable (s.Right event) := by
  cases event <;> unfold Right <;> infer_instance

instance (event : MachineEvent) : Decidable (s.Followed event) := by
  cases event <;> unfold Followed <;> infer_instance

structure Sound : Prop where
  tracer : s.tracer.Sound
  frames : s.tracer.frames = s.seen
  ordered : s.seen.Pairwise (· < ·)
  idle : s.pending = [] → s.seen = []

theorem sound_idle : idle.Sound := ⟨Tracer.sound_new, rfl, .nil, fun _ => rfl⟩

variable {s}

theorem mirrors_iff {tracer : Tracer} (h : tracer.Sound) (hordered : s.pending.Pairwise (· < ·)) :
    Mirrors tracer s.pending ↔ tracer.frames = s.pending := by
  unfold Mirrors
  rw [h.trace_eq_frames, List.reverse_inj]
  refine ⟨fun hmirrors => hmirrors.1, fun hframes => ⟨hframes, ?_, ?_⟩⟩
  · rw [hframes, List.pairwise_reverse]
    exact hordered
  · rw [hframes, List.getLast?_reverse]

theorem follow_eq_some_iff {frm : Int} {rest seen : List Int}
    (hpending : (frm :: rest).Pairwise (· < ·)) (hseen : seen.Pairwise (· < ·)) :
    Tracer.follow frm seen = some (frm :: rest) ↔
      frm :: rest = seen ∨ rest = seen ∨ frm :: rest = seen.tail := by
  cases seen with
  | nil => simp [Tracer.follow]
  | cons last before =>
      have hbelow := (List.pairwise_cons.mp hpending).1
      have habove := (List.pairwise_cons.mp hseen).1
      rw [Tracer.follow]
      split
      next hcall =>
        simp only [Option.some.injEq, List.cons.injEq, true_and, List.tail_cons]
        constructor
        · intro hrest
          exact .inr (.inl hrest.symm)
        · rintro (⟨rfl, -⟩ | hrest | hreturned)
          · omega
          · exact hrest.symm
          · have := habove frm (hreturned ▸ List.mem_cons_self)
            omega
      next hnot =>
        split
        next hreturn =>
          have hother : ¬(frm = last ∧ rest = before) := by
            rintro ⟨rfl, -⟩
            omega
          have hdeeper : rest ≠ last :: before := by
            rintro rfl
            have := hbelow last List.mem_cons_self
            omega
          simp only [List.cons.injEq, hother, hdeeper, false_or, List.tail_cons]
          split
          next hnil => simp [hnil]
          next => rw [Option.some.injEq, eq_comm]
        next hsame =>
          have heq : frm = last := by omega
          subst heq
          have hdeeper : rest ≠ frm :: before := by
            rintro rfl
            have := hbelow frm List.mem_cons_self
            omega
          have hreturned : frm :: rest ≠ before := by
            rintro rfl
            have := habove frm List.mem_cons_self
            omega
          simp only [Option.some.injEq, List.cons.injEq, true_and, List.tail_cons, hdeeper,
            hreturned, or_false]
          exact eq_comm

namespace Sound

theorem right_line_iff (h : s.Sound) {frm cip : Int} {rest : List Int}
    (hpending : s.pending = frm :: rest) :
    s.Right (.line cip) ↔ Tracer.follow frm s.seen = some (frm :: rest) := by
  obtain ⟨hfollow, hsound⟩ := h.tracer.stepI frm cip
  rw [h.frames] at hfollow
  have hordered := s.ordered
  simp only [Right, hpending, List.head?_cons, Option.mem_def, Option.some.injEq, forall_eq']
  rw [hpending] at hordered
  rw [← hfollow, Option.map_eq_some_iff]
  refine exists_congr fun t => and_congr_right fun hstep => ?_
  rw [← hpending]
  exact mirrors_iff (hsound t hstep) s.ordered

theorem right_iff (h : s.Sound) {event : MachineEvent} : s.Right event ↔ s.Followed event := by
  cases event with
  | line cip =>
      cases hpending : s.pending with
      | nil =>
          have hseen := h.idle hpending
          simp [Right, Followed, hpending, hseen]
      | cons frm rest =>
          rw [h.right_line_iff hpending, Followed, hpending, List.tail_cons]
          exact follow_eq_some_iff (hpending ▸ s.ordered) h.ordered
  | exec | call | ret | halt => rfl

theorem step (h : s.Sound) {event : MachineEvent} {next : Machine} (hright : s.Right event)
    (hstep : s.step event = some next) : next.Sound := by
  cases event with
  | exec frm =>
      dsimp only [Machine.step] at hstep
      split at hstep
      next =>
        cases hstep
        obtain ⟨hsound, hframes⟩ := h.tracer.resetCalls
        exact ⟨hsound, hframes, .nil, fun _ => rfl⟩
      next => cases hstep
  | call frm =>
      dsimp only [Machine.step] at hstep
      split at hstep
      next =>
        cases hstep
        exact ⟨h.tracer, h.frames, h.ordered, fun hnil => nomatch hnil⟩
      next => cases hstep
  | ret =>
      dsimp only [Machine.step] at hstep
      split at hstep
      next htail =>
        cases hstep
        exact ⟨h.tracer, h.frames, h.ordered, fun hnil => absurd hnil htail⟩
      next => cases hstep
  | line cip =>
      obtain ⟨frm, hfrm, hrest⟩ := Option.bind_eq_some_iff.mp hstep
      obtain ⟨t, ht, hnext⟩ := Option.bind_eq_some_iff.mp hrest
      cases hnext
      obtain ⟨t', ht', hmirrors⟩ := hright frm hfrm
      cases ht.symm.trans ht'
      have hsound := (h.tracer.stepI frm cip).2 t ht
      exact ⟨hsound, (mirrors_iff hsound s.ordered).mp hmirrors, s.ordered, id⟩
  | halt =>
      dsimp only [Machine.step] at hstep
      split at hstep
      next =>
        cases hstep
        obtain ⟨hsound, hframes⟩ := h.tracer.resetCalls
        exact ⟨hsound, hframes, .nil, fun _ => rfl⟩
      next => cases hstep

end Sound

/-- In every run the tracer has the pending calls after each debug step exactly if each of them
finds at most one call or one return. -/
theorem meets_right_iff_followed (events : List MachineEvent) :
    Meets step Right idle events ↔ Meets step Followed idle events :=
  meets_congr (fun h hright hstep => h.step hright hstep) (fun h => h.right_iff) sound_idle

def twoReturns : List MachineEvent :=
  [.exec 100, .line 0, .call 80, .line 8, .call 60, .line 16, .ret, .ret, .line 4]

theorem not_meets_right_twoReturns :
    ((run step idle twoReturns).map fun s => (s.tracer.trace.reverse, s.pending.reverse)) =
        some ([100, 80], [100]) ∧
      ¬Meets step Right idle twoReturns := by
  decide +kernel

end Machine

end AmxModC.Debug
