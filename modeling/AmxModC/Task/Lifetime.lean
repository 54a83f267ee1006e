import AmxModC.Task.Schedule

namespace AmxModC.Task

open Foundation

/-! A frame in progress can always be brought to its end. -/

def Event.Quiet : Event → Prop
  | .startFrame _ | .visit | .callbackReturn => True
  | _ => False

namespace State

variable {s s' : State} {events : List Event}

theorem meets_of_quiet (registration : Nat) (hquiet : ∀ event ∈ events, event.Quiet) :
    Meets State.step (fun s event => ¬ event.Touches s registration) s events := by
  induction events generalizing s with
  | nil => trivial
  | cons event rest ih =>
      refine ⟨?_, fun next _ => ih fun event hevent => hquiet event (by simp [hevent])⟩
      have := hquiet event (by simp)
      cases event with
      | startFrame | visit | callbackReturn => exact id
      | registerTask | removeTasks | changeTasks => cases this

theorem visit_progress (s : State) (slot : Nat) :
    (s.visit slot).frames = s.frames ∧
      ((s.visit slot).phase = .idle ∨
        (s.visit slot).tasks.length = s.tasks.length ∧ slot < s.tasks.length ∧
          ((s.visit slot).phase = .scanning (slot + 1) ∨
            (s.visit slot).phase = .inCallback slot)) := by
  unfold visit
  cases htask : s.tasks[slot]? with
  | none => exact ⟨rfl, .inl rfl⟩
  | some task =>
      have hlt := (List.getElem?_eq_some_iff.mp htask).1
      dsimp only
      split
      · exact ⟨rfl, .inr ⟨rfl, hlt, .inl rfl⟩⟩
      split
      · exact ⟨rfl, .inr ⟨rfl, hlt, .inl rfl⟩⟩
      split
      · exact ⟨rfl, .inr ⟨by simp, hlt, .inr rfl⟩⟩
      · exact ⟨rfl, .inr ⟨by simp, hlt, .inl rfl⟩⟩

theorem visit_currentTime (s : State) (slot : Nat) :
    (s.visit slot).currentTime = s.currentTime := by
  unfold visit
  repeat' split
  all_goals rfl

theorem finish_scan (turns : Nat) {slot : Nat} (hphase : s.phase = .scanning slot)
    (hturns : s.tasks.length ≤ slot + turns) :
    ∃ events final, run State.step s events = some final ∧ final.phase = .idle ∧
      final.frames = s.frames ∧ ∀ event ∈ events, event.Quiet := by
  induction turns generalizing s slot with
  | zero =>
      refine ⟨[.visit], { s with phase := .idle }, ?_, rfl, rfl, by simp [Event.Quiet]⟩
      have hnone : s.tasks[slot]? = none := List.getElem?_eq_none (by omega)
      simp [State.step, hphase, visit, hnone]
  | succ turns ih =>
      have hvisit : s.step .visit = some (s.visit slot) := by simp [State.step, hphase]
      obtain ⟨hframes, hidle | ⟨hlength, -, hscanning | hcallback⟩⟩ := s.visit_progress slot
      · exact ⟨[.visit], _, by simp [hvisit], hidle, hframes, by simp [Event.Quiet]⟩
      · obtain ⟨events, final, hrun, hidle, hsame, hquiet⟩ := ih hscanning (by omega)
        refine ⟨.visit :: events, final, by simp [hvisit, hrun], hidle, hsame.trans hframes, ?_⟩
        simpa [Event.Quiet] using hquiet
      · have hreturn : (s.visit slot).step .callbackReturn =
            some ((s.visit slot).callbackReturn slot) := by
          simp [State.step, hcallback]
        obtain ⟨events, final, hrun, hidle, hsame, hquiet⟩ :=
          @ih ((s.visit slot).callbackReturn slot) (slot + 1) rfl
            (by simp only [callbackReturn, List.length_modify]; omega)
        refine ⟨.visit :: .callbackReturn :: events, final, by simp [hvisit, hreturn, hrun], hidle,
          hsame.trans hframes, ?_⟩
        simpa [Event.Quiet] using hquiet

theorem finish_frame (s : State) :
    ∃ events final, run State.step s events = some final ∧ final.phase = .idle ∧
      final.frames = s.frames ∧ ∀ event ∈ events, event.Quiet := by
  cases hphase : s.phase with
  | idle => exact ⟨[], s, rfl, hphase, rfl, by simp⟩
  | scanning slot => exact finish_scan s.tasks.length hphase (by omega)
  | inCallback slot =>
      have hreturn : s.step .callbackReturn = some (s.callbackReturn slot) := by
        simp [State.step, hphase]
      obtain ⟨events, final, hrun, hidle, hsame, hquiet⟩ :=
        finish_scan (s := s.callbackReturn slot) s.tasks.length rfl
          (by simp only [callbackReturn, List.length_modify]; omega)
      exact ⟨.callbackReturn :: events, final, by simp [hreturn, hrun], hidle, hsame,
        by simpa [Event.Quiet] using hquiet⟩

theorem more_frames (s : State) (times : List ℚ) :
    ∃ events final, run State.step s events = some final ∧ final.phase = .idle ∧
      final.frames = s.frames ++ times ∧ ∀ event ∈ events, event.Quiet := by
  induction times generalizing s with
  | nil => simpa using s.finish_frame
  | cons time rest ih =>
      obtain ⟨ending, idle, hending, hidle, hsame, hquiet⟩ := s.finish_frame
      obtain ⟨events, final, hrun, hfinal, hframes, hquiet'⟩ :=
        ih { idle with
          currentTime := time
          phase := .scanning 0
          frames := idle.frames ++ [time] }
      refine ⟨ending ++ .startFrame time :: events, final, ?_, hfinal, ?_, ?_⟩
      · rw [run_append, hending]
        simp [State.step, hidle, hrun]
      · simp [hframes, hsame]
      · simp only [List.mem_append, List.mem_cons]
        rintro event (hevent | rfl | hevent)
        · exact hquiet event hevent
        · trivial
        · exact hquiet' event hevent

/-! (a) A removed task does not run again. -/

theorem Consistent.onlyAt (hs : s.Consistent) {slot : Nat} {task : CTask}
    (htask : s.tasks[slot]? = some task) : s.OnlyAt slot task.registration where
  bound := (List.getElem?_eq_some_iff.mp htask).1
  past := hs.fresh htask
  only := fun hother heq => hs.distinct hother htask heq

def Gone (runs : List Nat) (v : View) : Prop := v.task = none ∧ v.runs = runs

theorem gone_step {runs : List Nat} {v v' : View} (h : Gone runs v) (hstep : v.Step v') :
    Gone runs v' := by
  obtain ⟨htask, hruns⟩ := h
  cases hstep with
  | call task hposition hlive => exact absurd (htask.symm.trans hlive) (by simp)
  | leave => exact ⟨by simp [htask], hruns⟩
  | drop => exact ⟨rfl, hruns⟩
  | stay | start | finish | skip | enter => exact ⟨htask, hruns⟩

theorem gone_change {runs : List Nat} {v : View} (newBase : ℚ) (h : Gone runs v) :
    Gone runs (v.change newBase) :=
  ⟨by simp [View.change, h.1], h.2⟩

theorem runs_of_removed (hs : s.Consistent) {id : Cell} {amx : Option Amx} {task : CTask}
    (hremove : s.step (.removeTasks id amx) = some s') (hmem : task ∈ s.tasks)
    (hmatches : task.Matches id amx) {final : State}
    (hrun : run State.step s' events = some final) :
    final.runs task.registration = s.runs task.registration := by
  obtain ⟨slot, htask⟩ := List.mem_iff_getElem?.mp hmem
  have honly := hs.onlyAt htask
  have hview := view_of_removes honly hremove ⟨task, hmem, rfl, hmatches⟩
  have hgone : Gone (s.runs task.registration) (s'.view slot task.registration) := by
    rw [hview]
    exact ⟨rfl, rfl⟩
  have hmeets : Meets State.step (fun _ _ => True) s' events := by
    clear hrun hgone hview hremove
    induction events generalizing s' with
    | nil => trivial
    | cons event rest ih => exact ⟨trivial, fun next _ => ih⟩
  exact (run_invariant (I := fun s =>
    s.OnlyAt slot task.registration ∧ Gone _ (s.view slot task.registration))
    (fun hinv _ hstep => keep_of_any gone_step (fun newBase => gone_change newBase)
      (fun h => ⟨rfl, h.2⟩) hinv.1 hinv.2 hstep)
    ⟨honly.step hremove, hgone⟩ hmeets hrun).2.2

/-! (b) A slot freed during its own callback is left alone until the callback returns. -/

theorem step_inCallback (hs : s.Consistent) {slot : Nat} {task : CTask}
    (hphase : s.phase = .inCallback slot) (htask : s.tasks[slot]? = some task)
    (hfree : task.free = true) {event : Event} (hevent : event ≠ .callbackReturn)
    (hstep : s.step event = some s') :
    s'.phase = .inCallback slot ∧ s'.tasks[slot]? = some task := by
  have hmatches : ∀ id amx, ¬ task.Matches id amx := fun id amx h =>
    absurd h.1 (by simp [hfree])
  cases Took.of_step hstep with
  | registerTask request =>
      refine ⟨hphase, ?_⟩
      obtain ⟨target, hreusable, -, hget⟩ :=
        registerTask_spec s.tasks s.registrations request s.currentTime
      rw [hget, if_neg ?_, htask]
      rintro rfl
      have hmark := (hs.marked htask).mpr hphase
      simpa [CTask.reusable, hmark] using hreusable task htask
  | removeTasks id amx =>
      refine ⟨hphase, ?_⟩
      simp [removeTasks, updateMatching_getElem?, htask, hmatches]
  | changeTasks id amx newBase =>
      refine ⟨hphase, ?_⟩
      simp [changeTasks, updateMatching_getElem?, htask, hmatches]
  | startFrame time hidle => simp [hphase] at hidle
  | visit target hscanning => simp [hphase] at hscanning
  | callbackReturn => exact absurd rfl hevent

theorem run_inCallback (hs : s.Consistent) {slot : Nat} {task : CTask}
    (hphase : s.phase = .inCallback slot) (htask : s.tasks[slot]? = some task)
    (hfree : task.free = true) (hevents : .callbackReturn ∉ events)
    (hrun : run State.step s events = some s') : s'.tasks[slot]? = some task := by
  induction events generalizing s with
  | nil =>
      cases hrun
      exact htask
  | cons event rest ih =>
      obtain ⟨next, hnext, hrest⟩ := run_cons_eq_some.mp hrun
      have hevent : event ≠ .callbackReturn := fun h => hevents (by simp [h])
      obtain ⟨hphase', htask'⟩ := step_inCallback hs hphase htask hfree hevent hnext
      exact ih (hs.step hnext) hphase' htask' (fun h => hevents (by simp [h])) hrest

/-! (c) No registration runs twice in one frame. -/

def AllDated (s : State) : Prop :=
  ∀ registration < s.registrations,
    ∃ slot, s.OnlyAt slot registration ∧ (s.view slot registration).Dated

theorem Consistent.view_ahead (hs : s.Consistent) {slot registration : Nat}
    (hahead : (s.view slot registration).position = .ahead) :
    ∃ earlier, s.frames = earlier ++ [s.currentTime] :=
  hs.clock fun hidle => by simp [view, hidle, Phase.position] at hahead

theorem allDated_step (hs : s.Consistent) (h : s.AllDated) {event : Event}
    (hstep : s.step event = some s') : s'.AllDated := by
  have hold : ∀ registration < s.registrations,
      ∃ slot, s'.OnlyAt slot registration ∧ (s'.view slot registration).Dated := by
    intro registration hpast
    obtain ⟨slot, honly, hdated⟩ := h registration hpast
    exact ⟨slot, keep_of_any View.Dated.step (fun newBase => View.Dated.change newBase)
      View.Dated.remove honly hdated hstep⟩
  intro registration hpast
  cases Took.of_step hstep with
  | registerTask request =>
      rcases Nat.lt_succ_iff_lt_or_eq.mp hpast with hearlier | rfl
      · exact hold registration hearlier
      · obtain ⟨slot, -, honly, hview⟩ := view_registered hs request
        refine ⟨slot, honly, ?_⟩
        rw [hview]
        refine ⟨List.nodup_nil, by simp, by simp, fun hahead => ?_⟩
        obtain ⟨earlier, hframes⟩ := hs.view_ahead (show (s.view slot 0).position = .ahead from hahead)
        simp [hframes]
  | removeTasks | changeTasks | startFrame => exact hold registration hpast
  | visit target => exact hold registration ((s.visit_cases target).2 ▸ hpast)
  | callbackReturn target => exact hold registration hpast

theorem run_allDated (hrun : run State.step {} events = some s) :
    s.Consistent ∧ s.AllDated := by
  have hkeep : ∀ {s events final}, s.Consistent → s.AllDated →
      run State.step s events = some final → final.Consistent ∧ final.AllDated := by
    intro s events final hs h hrun
    induction events generalizing s with
    | nil =>
        cases hrun
        exact ⟨hs, h⟩
    | cons event rest ih =>
        obtain ⟨next, hnext, hrest⟩ := run_cons_eq_some.mp hrun
        exact ih (hs.step hnext) (allDated_step hs h hnext) hrest
  exact hkeep Consistent.init (fun registration h => absurd h (Nat.not_lt_zero _)) hrun

theorem runs_nodup (hs : s.Consistent) (h : s.AllDated) (registration : Nat) :
    (s.runs registration).Nodup := by
  rcases Nat.lt_or_ge registration s.registrations with hpast | hnew
  · obtain ⟨slot, -, hdated⟩ := h registration hpast
    exact hdated.nodup
  · have hnone : s.runs registration = [] := by
      simp only [runs, List.map_eq_nil_iff, List.filter_eq_nil_iff, decide_eq_true_eq]
      exact fun execution hmem heq => absurd (hs.past hmem) (by omega)
    rw [hnone]
    exact List.nodup_nil

end State

/-! (d) How often a registration runs. -/

/-- The number of runs a registration asks for: `n` with flag 1, one without flags 1
and 2.  With flag 2 there is no such number. -/
def Request.Total (request : Request) (n : Nat) : Prop :=
  request.flags &&& 2 = 0 ∧
    if request.flags &&& 1 = 0 then n = 1 else 1 ≤ n ∧ request.repeatCount = n

theorem Request.Total.runsLeft {request : Request} {n : Nat} (h : request.Total n)
    (registration : Nat) (now : ℚ) :
    (({} : CTask).set registration request now).runsLeft = some n ∧ 1 ≤ n := by
  obtain ⟨hendless, htotal⟩ := h
  simp only [BitVec.ofNat_eq_ofNat] at hendless htotal
  split at htotal
  case isTrue honce =>
    subst htotal
    simp [CTask.runsLeft, CTask.set, hendless, honce]
  case isFalse hloop =>
    obtain ⟨hpos, hrepeat⟩ := htotal
    have hset : (({} : CTask).set registration request now).repeatCount = n := by
      simp [CTask.set, hendless, hloop, hrepeat]
    have hloops : (({} : CTask).set registration request now).loop = true := by
      simp [CTask.set, hloop]
    refine ⟨?_, hpos⟩
    rw [CTask.runsLeft, if_pos hloops, hset, if_neg (by omega), if_neg (by omega)]
    congr 1
    omega

theorem Request.runsLeft_endless {request : Request} (h : request.flags &&& 2 ≠ 0)
    (registration : Nat) (now : ℚ) :
    (({} : CTask).set registration request now).runsLeft = none := by
  simp only [BitVec.ofNat_eq_ofNat, ne_eq] at h
  simp [CTask.runsLeft, CTask.set, h]

namespace View

variable {v v' : View}

def NotBeforeEnd (v : View) : Prop :=
  ∀ task ∈ v.task, task.beforeEnd = true → task.afterStart = true

theorem leave_flags {task : CTask} (hlive : task.leave.free = false) :
    task.leave.beforeEnd = task.beforeEnd ∧ task.leave.afterStart = task.afterStart := by
  revert hlive
  unfold CTask.leave CTask.finish
  repeat' split
  all_goals simp

theorem NotBeforeEnd.step (h : v.NotBeforeEnd) (hstep : v.Step v') : v'.NotBeforeEnd := by
  cases hstep with
  | stay | start | finish | skip | enter => exact h
  | call task hposition htask =>
      intro other hother
      obtain rfl := Option.some.inj hother
      exact h task htask
  | drop => exact fun task htask => absurd htask (by simp)
  | leave =>
      intro task htask
      obtain ⟨old, hold, hguard⟩ := Option.bind_eq_some_iff.mp htask
      obtain ⟨rfl, hlive⟩ := Option.guard_eq_some_iff.mp hguard
      obtain ⟨hbefore, hafter⟩ := leave_flags (show old.leave.free = false by simpa using hlive)
      rw [hbefore, hafter]
      exact h old hold

theorem NotBeforeEnd.change (newBase : ℚ) (h : v.NotBeforeEnd) :
    (v.change newBase).NotBeforeEnd := by
  intro task htask
  obtain ⟨old, hold, rfl⟩ := Option.map_eq_some_iff.mp htask
  exact h old hold

end View

namespace State

variable {s s' : State} {events : List Event}

def NeverRemoved (registration : Nat) (s : State) (events : List Event) : Prop :=
  Meets State.step (fun s event => ¬ event.Removes s registration) s events

def LeftAlone (registration : Nat) (s : State) (events : List Event) : Prop :=
  Meets State.step (fun s event => ¬ event.Touches s registration) s events

/-- From `s` to `s'` the run holds as many finished frames, all of them late enough,
as the registration has runs left. -/
def LongEnough (registration : Nat) (s s' : State) : Prop :=
  ∀ task ∈ s.tasks, task.free = false → task.registration = registration →
    task.runsLeft.getD 0 ≤ lateFrames s.frames.length task.lateTime s'.finishedFrames

theorem finishedFrames_le (slot registration first : Nat) (time : ℚ) :
    lateFrames first time s.finishedFrames ≤
      lateFrames first time (s.view slot registration).reached := by
  unfold finishedFrames View.reached
  by_cases hidle : s.phase = .idle
  · simp [hidle, view, Phase.position]
  · rw [if_neg hidle]
    split
    · exact le_rfl
    · exact lateFrames_dropLast first time s.frames

theorem run_registered (hs : s.Consistent) {request : Request} {P : View → Prop}
    (hkeep : ∀ {v v'}, P v → v.Step v' → P v')
    (hchange : ∀ {v} (newBase : ℚ), P v → P (v.change newBase))
    (hstart : ∀ position, position ≠ .running →
      P { task := some (({} : CTask).set s.registrations request s.currentTime)
          position := position, time := s.currentTime, frames := s.frames, runs := [] })
    (hstep : s.step (.registerTask request) = some s')
    (hkept : NeverRemoved s.registrations s' events) {final : State}
    (hrun : run State.step s' events = some final) :
    ∃ slot, final.OnlyAt slot s.registrations ∧ P (final.view slot s.registrations) := by
  cases Took.of_step hstep with
  | registerTask _ _ =>
      obtain ⟨slot, hposition, honly, hview⟩ := view_registered hs request
      refine ⟨slot, run_view_of_kept hkeep hchange honly ?_ hkept hrun⟩
      rw [hview]
      exact hstart _ hposition

theorem endless_kept (hs : s.Consistent) {request : Request}
    (hflag : request.flags &&& 2 ≠ 0)
    (hstep : s.step (.registerTask request) = some s')
    (hkept : NeverRemoved s.registrations s' events) {final : State}
    (hrun : run State.step s' events = some final) :
    ∃ task ∈ final.tasks, task.free = false ∧ task.registration = s.registrations := by
  obtain ⟨slot, -, task, htask, -, -⟩ :=
    run_registered hs View.Endless.step (fun newBase => View.Endless.change newBase)
      (fun _ _ => ⟨_, rfl, rfl, request.runsLeft_endless hflag _ _⟩) hstep hkept hrun
  exact ⟨task, mem_of_view htask⟩

theorem budget_of_registered (hs : s.Consistent) {request : Request} {total : Nat}
    (htotal : request.Total total) (hstep : s.step (.registerTask request) = some s')
    (hkept : NeverRemoved s.registrations s' events) {final : State}
    (hrun : run State.step s' events = some final) :
    ∃ slot, final.OnlyAt slot s.registrations ∧
      View.Budget total (final.view slot s.registrations) ∧
      ((request.flags &&& 8 ≠ 0 → request.flags &&& 4 ≠ 0) →
        (final.view slot s.registrations).NotBeforeEnd) := by
  refine run_registered (P := fun v => View.Budget total v ∧
    ((request.flags &&& 8 ≠ 0 → request.flags &&& 4 ≠ 0) → v.NotBeforeEnd)) hs
    (fun h hstep => ⟨h.1.step hstep, fun hplain => (h.2 hplain).step hstep⟩)
    (fun newBase h => ⟨h.1.change newBase, fun hplain => (h.2 hplain).change newBase⟩)
    ?_ hstep hkept hrun
  intro position hposition
  obtain ⟨hleft, hpos⟩ := htotal.runsLeft s.registrations s.currentTime
  refine ⟨.live _ (total - 1) rfl rfl (by rw [hleft]; congr 1; omega) ?_, ?_⟩
  · simp only [hposition, List.length_nil, if_false]
    omega
  · intro hplain task htask hbefore
    obtain rfl := Option.some.inj htask
    simp only [CTask.set, decide_eq_true_eq] at hbefore ⊢
    exact hplain hbefore

theorem punctual_now (hs : s.Consistent) {slot registration : Nat} {task : CTask}
    (htask : (s.view slot registration).task = some task)
    (hplain : (s.view slot registration).NotBeforeEnd) :
    View.Punctual s.frames.length (s.runs registration).length task.lateTime
      (s.view slot registration) := by
  refine ⟨hs.view_ahead, fun other hother => ?_⟩
  obtain rfl : task = other := Option.some.inj (htask.symm.trans hother)
  refine ⟨(mem_of_view htask).2.1, hplain task htask, le_rfl, ?_⟩
  have hnone : lateFrames s.frames.length task.lateTime (s.view slot registration).reached = 0 := by
    unfold View.reached
    split
    · have hold := lateFrames_dropLast s.frames.length task.lateTime s.frames
      rw [lateFrames_new] at hold
      exact Nat.le_zero.mp hold
    · exact lateFrames_new task.lateTime s.frames
  rw [hnone]
  rfl

theorem runs_eq_total (hs : s.Consistent) {slot registration total : Nat}
    (honly : s.OnlyAt slot registration)
    (hbudget : View.Budget total (s.view slot registration))
    (hplain : (s.view slot registration).NotBeforeEnd)
    (halone : LeftAlone registration s events) (hrun : run State.step s events = some s')
    (hlong : LongEnough registration s s') : (s'.runs registration).length = total := by
  cases hbudget with
  | spent htask hruns =>
      have hgone := run_view (P := Gone (s.runs registration)) gone_step honly ⟨htask, rfl⟩
        halone hrun
      have hsame : s'.runs registration = s.runs registration := hgone.2.2
      exact hsame ▸ hruns
  | live task left htask hfree hleft hruns =>
      obtain ⟨hmem, -, hregistration⟩ := mem_of_view htask
      have hbudget : View.Budget total (s.view slot registration) :=
        .live task left htask hfree hleft hruns
      obtain ⟨-, hpunctual, hbudget'⟩ := run_view
        (P := fun v => View.Punctual s.frames.length (s.runs registration).length task.lateTime v ∧
          View.Budget total v)
        (fun h hstep => ⟨h.1.step h.2.left_pos hstep, h.2.step hstep⟩) honly
        ⟨punctual_now hs htask hplain, hbudget⟩ halone hrun
      have hle : (s'.runs registration).length ≤ total := hbudget'.runs_le
      have hruns' : (s.runs registration).length + left +
          (if (s.view slot registration).position = .running then 0 else 1) = total := hruns
      cases hbudget' with
      | spent htask' hruns'' => exact hruns''
      | live task' left' htask' hfree' hleft' hruns'' =>
          have hlate := hlong task hmem hfree hregistration
          rw [hleft, Option.getD_some] at hlate
          have hreached := finishedFrames_le (s := s') slot registration s.frames.length
            task.lateTime
          have hkept := (hpunctual.kept task' htask').2.2.2
          have hcount : (s'.runs registration).length =
            ((s'.view slot registration).runs).length := rfl
          split at hruns' <;> omega

theorem exists_longEnough (hs : s.Consistent) (registration : Nat) :
    ∃ events final, run State.step s events = some final ∧
      LeftAlone registration s events ∧ LongEnough registration s final := by
  by_cases hlive : ∃ task ∈ s.tasks, task.free = false ∧ task.registration = registration
  case neg =>
    exact ⟨[], s, rfl, trivial, fun task hmem hfree heq => absurd ⟨task, hmem, hfree, heq⟩ hlive⟩
  case pos =>
    obtain ⟨task, hmem, hfree, heq⟩ := hlive
    obtain ⟨events, final, hrun, hidle, hframes, hquiet⟩ :=
      s.more_frames (List.replicate (task.runsLeft.getD 0) task.lateTime)
    refine ⟨events, final, hrun, meets_of_quiet registration hquiet, ?_⟩
    intro other hother _ heq'
    obtain ⟨slot, hslot⟩ := List.mem_iff_getElem?.mp hmem
    obtain ⟨slot', hslot'⟩ := List.mem_iff_getElem?.mp hother
    obtain rfl := hs.distinct hslot hslot' (heq.trans heq'.symm)
    obtain rfl := Option.some.inj (hslot.symm.trans hslot')
    simp [finishedFrames, hidle, hframes, lateFrames, List.countP_replicate]

/-- What the manager promises about a reached state and every run from it.  A task
that waits for an end (flag 8 without 4) is promised no run. -/
structure Schedules (s : State) : Prop where
  removed : ∀ {id amx task s' after final}, s.step (.removeTasks id amx) = some s' →
    task ∈ s.tasks → task.Matches id amx → run State.step s' after = some final →
      final.runs task.registration = s.runs task.registration
  held : ∀ {slot task inside final}, s.phase = .inCallback slot →
    s.tasks[slot]? = some task → task.free = true → .callbackReturn ∉ inside →
      run State.step s inside = some final → final.tasks[slot]? = some task
  once : ∀ registration, (s.runs registration).Nodup
  endless : ∀ {request s' during middle}, s.step (.registerTask request) = some s' →
    NeverRemoved s.registrations s' during → run State.step s' during = some middle →
      request.flags &&& 2 ≠ 0 →
        ∃ task ∈ middle.tasks, task.free = false ∧ task.registration = s.registrations
  counted : ∀ {request s' during middle total}, s.step (.registerTask request) = some s' →
    NeverRemoved s.registrations s' during → run State.step s' during = some middle →
      request.Total total → (middle.runs s.registrations).length ≤ total
  exhausted : ∀ {request s' during middle total}, s.step (.registerTask request) = some s' →
    NeverRemoved s.registrations s' during → run State.step s' during = some middle →
      request.Total total → (request.flags &&& 8 ≠ 0 → request.flags &&& 4 ≠ 0) →
        (∃ after final, run State.step middle after = some final ∧
          LeftAlone s.registrations middle after ∧
          LongEnough s.registrations middle final) ∧
        ∀ {after final}, run State.step middle after = some final →
          LeftAlone s.registrations middle after →
          LongEnough s.registrations middle final →
            (final.runs s.registrations).length = total

def Expired (time : ℚ) (runs : List Nat) (v : View) : Prop :=
  v.position ≠ .running ∧ v.runs = runs ∧ ∃ task, v.task = some task ∧
    task.beforeEnd = true ∧ task.afterStart = false ∧ task.base + 1 < time

theorem expired_step {time : ℚ} {runs : List Nat} {v v' : View} (h : Expired time runs v)
    (hnow : time ≤ v.time) (hstep : v.Step v') : Expired time runs v' := by
  obtain ⟨hposition, hruns, task, htask, hbefore, hafter, hbase⟩ := h
  have hdue : ∀ other, v.task = some other → ¬ other.Due v.time := by
    intro other hother
    obtain rfl : task = other := Option.some.inj (htask.symm.trans hother)
    simp only [CTask.Due, hbefore, hafter, Bool.false_eq_true, if_false, if_true]
    linarith
  cases hstep with
  | stay => exact ⟨hposition, hruns, task, htask, hbefore, hafter, hbase⟩
  | start | finish | skip =>
      exact ⟨by simp, hruns, task, htask, hbefore, hafter, hbase⟩
  | enter _ hnone => exact absurd (htask.symm.trans hnone) (by simp)
  | call other _ hother hdue' => exact absurd hdue' (hdue other hother)
  | drop other _ hother hdue' => exact absurd hdue' (hdue other hother)
  | leave hrunning => exact absurd hrunning hposition

/-- The event does not set the clock to a time before `time`. -/
def NotBefore (time : ℚ) : Event → Prop
  | .startFrame now => time ≤ now
  | _ => True

theorem step_currentTime {time : ℚ} {event : Event} (hevent : NotBefore time event)
    (hnow : time ≤ s.currentTime) (hstep : s.step event = some s') : time ≤ s'.currentTime := by
  cases Took.of_step hstep with
  | startFrame now => exact hevent
  | visit target => exact hnow.trans_eq (s.visit_currentTime target).symm
  | registerTask | removeTasks | changeTasks | callbackReturn => exact hnow

theorem runs_of_expired {slot registration : Nat} {time : ℚ}
    (honly : s.OnlyAt slot registration)
    (hexpired : Expired time (s.runs registration) (s.view slot registration))
    (hnow : time ≤ s.currentTime) (halone : LeftAlone registration s events)
    (htimes : ∀ event ∈ events, NotBefore time event)
    (hrun : run State.step s events = some s') :
    s'.runs registration = s.runs registration := by
  induction events generalizing s with
  | nil =>
      cases hrun
      rfl
  | cons event rest ih =>
      obtain ⟨next, hnext, hrest⟩ := run_cons_eq_some.mp hrun
      have hview := expired_step hexpired hnow (view_step_of_untouched honly hnext halone.1)
      have hruns : next.runs registration = s.runs registration := hview.2.1
      rw [← hruns]
      exact ih (honly.step hnext) (hruns ▸ hview)
        (step_currentTime (htimes event (by simp)) hnow hnext) (halone.2 next hnext)
        (fun event hevent => htimes event (by simp [hevent])) hrest

end State

end AmxModC.Task
