import AmxModC.Task.Lifetime

namespace AmxModC.Task

open Foundation

/-! The first run after a change of the base. -/

/-- Since frame number `first` the registration, which had run `before`, has run next in
the first frame whose time is at least `due`, or no such frame has come to its end. -/
def NextRunDue (first : Nat) (due : ℚ) (before : List Nat) (registration : Nat)
    (s : State) : Prop :=
  ∃ later, s.runs registration = before ++ later ∧
    match later with
    | [] => ∀ frame time, first ≤ frame → s.finishedFrames[frame]? = some time → time < due
    | frame :: _ =>
        first ≤ frame ∧ (∃ time, s.frames[frame]? = some time ∧ due ≤ time) ∧
          ∀ earlier time, first ≤ earlier → earlier < frame →
            s.frames[earlier]? = some time → time < due

namespace View

variable {first : Nat} {due : ℚ} {before : List Nat} {v v' : View}

/-- A task that runs next in the first frame from `first` on that is not before `due`.
Inside its own call, the time that counts is the one the end of the call writes. -/
inductive Awaits (first : Nat) (due : ℚ) (before : List Nat) (v : View) : Prop where
  | waiting (task : CTask) (htask : v.task = some task)
      (hfree : task.free = false) (hafter : task.afterStart = false)
      (hbefore : task.beforeEnd = false) (hcall : task.HasCall)
      (hnext : task.nextExecTime = due) (hruns : v.runs = before)
      (hposition : v.position ≠ .running) (hfirst : first ≤ v.frames.length)
      (hpast : ∀ frame time, first ≤ frame → v.reached[frame]? = some time → time < due)
      (hnow : v.position = .ahead → v.frames.length ≤ first → v.time < due)
  | inside (task : CTask) (htask : v.task = some task)
      (hfree : task.free = false) (hafter : task.afterStart = false)
      (hbefore : task.beforeEnd = false) (hcall : task.HasCall)
      (hleft : task.runsLeft ≠ some 1)
      (hnext : task.nextExecTime + task.base = due) (hruns : v.runs = before)
      (hposition : v.position = .running) (hfirst : first = v.frames.length)
  | ran (frame : Nat) (rest : List Nat) (hruns : v.runs = before ++ frame :: rest)
      (hfirst : first ≤ frame) (hlate : ∃ time, v.frames[frame]? = some time ∧ due ≤ time)
      (hpast : ∀ earlier time, first ≤ earlier → earlier < frame →
        v.frames[earlier]? = some time → time < due)

theorem reached_ahead {earlier : List ℚ} {now : ℚ} (hposition : v.position = .ahead)
    (hframes : v.frames = earlier ++ [now]) : v.reached = earlier := by
  simp [reached, hposition, hframes]

theorem past_concat {earlier : List ℚ} {now : ℚ}
    (hpast : ∀ frame time, first ≤ frame → earlier[frame]? = some time → time < due)
    (hnow : now < due) :
    ∀ frame time, first ≤ frame → (earlier ++ [now])[frame]? = some time → time < due := by
  intro frame time hfirst htime
  rcases Nat.lt_or_ge frame earlier.length with hlt | hge
  · rw [List.getElem?_append_left hlt] at htime
    exact hpast frame time hfirst htime
  · rw [List.getElem?_append_right hge] at htime
    rw [List.getElem?_singleton] at htime
    split at htime
    · exact Option.some.inj htime ▸ hnow
    · cases htime

theorem leave_next {task : CTask} (hfree : task.free = false) (hcall : task.HasCall)
    (hleft : task.runsLeft ≠ some 1) :
    task.leave.free = false ∧ task.leave.afterStart = task.afterStart ∧
      task.leave.beforeEnd = task.beforeEnd ∧ task.leave.HasCall ∧
      task.leave.nextExecTime = task.nextExecTime + task.base := by
  cases hruns : task.runsLeft with
  | none =>
      have hleave := CTask.leave_of_endless hfree hruns
      have hendless : task.leave.runsLeft = none := by rw [hleave]; exact hruns
      refine ⟨by rw [hleave]; exact hfree, by rw [hleave], by rw [hleave], ?_, by rw [hleave]⟩
      exact CTask.hasCall_iff.mpr (by simp [hendless])
  | some left =>
      match left with
      | 0 => exact absurd hruns (CTask.hasCall_iff.mp hcall)
      | 1 => exact absurd hruns hleft
      | left + 2 =>
          obtain ⟨hleave, hmore⟩ := CTask.leave_of_more hfree hruns
          refine ⟨by rw [hleave]; exact hfree, by rw [hleave], by rw [hleave], ?_, by rw [hleave]⟩
          exact CTask.hasCall_iff.mpr (by simp [hmore])

def Clocked (v : View) : Prop :=
  v.position = .ahead → ∃ earlier, v.frames = earlier ++ [v.time]

theorem Clocked.step (h : v.Clocked) (hstep : v.Step v') : v'.Clocked := by
  cases hstep with
  | stay => exact h
  | start now => exact fun _ => ⟨v.frames, rfl⟩
  | finish | skip | enter | call | drop | leave => exact fun hahead => by simp at hahead

theorem Awaits.step (hclock : v.Clocked) (h : Awaits first due before v) (hstep : v.Step v') : Awaits first due before v' := by
  cases h with
  | waiting task htask hfree hafter hbefore hcall hnext hruns hposition hfirst hpast hnow =>
      have hdue : ∀ now, task.Due now ↔ due ≤ now := fun now => by
        simp [CTask.Due, hafter, hbefore, hnext]
      cases hstep with
      | stay =>
          exact .waiting task htask hfree hafter hbefore hcall hnext hruns hposition hfirst hpast
            hnow
      | start now hbetween =>
          refine .waiting task htask hfree hafter hbefore hcall hnext hruns (by simp) ?_ ?_ ?_
          · simp only [List.length_append]
            omega
          · rw [reached_ahead rfl rfl]
            simpa [reached, hbetween] using hpast
          · intro _ hlength
            simp only [List.length_append, List.length_singleton] at hlength
            omega
      | finish hpassed =>
          refine .waiting task htask hfree hafter hbefore hcall hnext hruns (by simp) hfirst ?_
            (by simp)
          simpa [reached, hpassed] using hpast
      | skip hahead hskip =>
          obtain ⟨earlier, hframes⟩ := hclock hahead
          rw [reached_ahead hahead hframes] at hpast
          refine .waiting task htask hfree hafter hbefore hcall hnext hruns (by simp) hfirst ?_
            (by simp)
          have hearly : v.time < due := by
            have := hskip task htask
            rw [hdue] at this
            exact not_le.mp this
          have hall := past_concat hpast hearly
          rw [← hframes] at hall
          simpa [reached] using hall
      | enter hahead hnone => exact absurd (htask.symm.trans hnone) (by simp)
      | call other hahead hother hdue' hcall' =>
          obtain rfl : task = other := Option.some.inj (htask.symm.trans hother)
          obtain ⟨earlier, hframes⟩ := hclock hahead
          rw [reached_ahead hahead hframes] at hpast
          have hlate := (hdue v.time).mp hdue'
          have hlength : v.frames.length = earlier.length + 1 := by simp [hframes]
          have hlast : ¬ v.frames.length ≤ first := fun h =>
            absurd (hnow hahead h) (not_lt.mpr hlate)
          refine .ran (v.frames.length - 1) [] (by simp [hruns]) (by omega) ?_ ?_
          · exact ⟨v.time, by simp [hframes], hlate⟩
          · intro frame time hge hlt htime
            refine hpast frame time hge ?_
            change v.frames[frame]? = some time at htime
            rwa [hframes, List.getElem?_append_left (by omega)] at htime
      | drop other hahead hother hdue' hcall' =>
          obtain rfl : task = other := Option.some.inj (htask.symm.trans hother)
          exact absurd hcall hcall'
      | leave hrunning => exact absurd hrunning hposition
  | inside task htask hfree hafter hbefore hcall hleft hnext hruns hposition hfirst =>
      cases hstep with
      | stay =>
          exact .inside task htask hfree hafter hbefore hcall hleft hnext hruns hposition hfirst
      | leave =>
          obtain ⟨hfree', hafter', hbefore', hcall', hnext'⟩ := leave_next hfree hcall hleft
          refine .waiting task.leave ?_ hfree' (hafter'.trans hafter) (hbefore'.trans hbefore)
            hcall' (hnext'.trans hnext) hruns (by simp) hfirst.le ?_ (by simp)
          · simp [htask, Option.guard, hfree']
          · intro frame time hge htime
            have hlt := (List.getElem?_eq_some_iff.mp htime).1
            simp only [reached, reduceCtorEq, if_false] at hlt
            omega
      | start _ h | finish h | skip h | enter h | call _ h | drop _ h =>
          rw [hposition] at h
          cases h
  | ran frame rest hruns hfirst hlate hpast =>
      cases hstep with
      | start now =>
          obtain ⟨time, htime, hlate⟩ := hlate
          have hlt := (List.getElem?_eq_some_iff.mp htime).1
          refine .ran frame rest hruns hfirst ⟨time, ?_, hlate⟩ ?_
          · rw [List.getElem?_append_left hlt]
            exact htime
          · intro earlier time' hge hearlier htime'
            rw [List.getElem?_append_left (by omega)] at htime'
            exact hpast earlier time' hge hearlier htime'
      | call task hahead =>
          exact .ran frame (rest ++ [v.frames.length - 1]) (by simp [hruns]) hfirst hlate hpast
      | stay | finish | skip | enter | drop | leave => exact .ran frame rest hruns hfirst hlate hpast

def Mute (runs : List Nat) (v : View) : Prop :=
  v.runs = runs ∧ ∀ task ∈ v.task, task.free = false ∧ ¬ task.HasCall

theorem leave_of_mute {task : CTask} (hcall : ¬ task.HasCall) : task.leave.free = true := by
  rw [CTask.leave]
  exact CTask.finish_of_not_hasCall hcall

theorem Mute.step {runs : List Nat} (h : Mute runs v) (hstep : v.Step v') : Mute runs v' := by
  obtain ⟨hruns, hmute⟩ := h
  cases hstep with
  | stay | start | finish | skip | enter => exact ⟨hruns, hmute⟩
  | call task hahead htask hdue hcall => exact absurd hcall (hmute task htask).2
  | drop => exact ⟨hruns, fun task htask => absurd htask (by simp)⟩
  | leave =>
      refine ⟨hruns, fun task htask => ?_⟩
      obtain ⟨old, hold, hguard⟩ := Option.bind_eq_some_iff.mp htask
      obtain ⟨rfl, hlive⟩ := Option.guard_eq_some_iff.mp hguard
      simp [leave_of_mute (hmute old hold).2] at hlive

end View

namespace State

variable {s s' : State} {events : List Event} {slot registration : Nat}

theorem frames_of_finished {frame : Nat} {time : ℚ}
    (htime : s.finishedFrames[frame]? = some time) : s.frames[frame]? = some time := by
  unfold finishedFrames at htime
  split at htime
  · exact htime
  · rw [List.getElem?_dropLast] at htime
    split at htime
    · exact htime
    · cases htime

theorem reached_of_finished {frame : Nat} {time : ℚ}
    (htime : s.finishedFrames[frame]? = some time) :
    (s.view slot registration).reached[frame]? = some time := by
  unfold View.reached
  split
  case isTrue hahead =>
    have hbusy : s.phase ≠ .idle := fun hidle => by simp [view, hidle, Phase.position] at hahead
    rw [finishedFrames, if_neg hbusy] at htime
    exact htime
  case isFalse => exact frames_of_finished htime

theorem nextRunDue_of_awaits {first : Nat} {due : ℚ} {before : List Nat}
    (h : View.Awaits first due before (s.view slot registration)) :
    NextRunDue first due before registration s := by
  cases h with
  | waiting task htask hfree hafter hbefore hcall hnext hruns hposition hfirst hpast hnow =>
      refine ⟨[], hruns.trans (List.append_nil before).symm, fun frame time hge htime => ?_⟩
      exact hpast frame time hge (reached_of_finished htime)
  | inside task htask hfree hafter hbefore hcall hleft hnext hruns hposition hfirst =>
      refine ⟨[], hruns.trans (List.append_nil before).symm, fun frame time hge htime => ?_⟩
      have hlt := (List.getElem?_eq_some_iff.mp (frames_of_finished htime)).1
      have hlength : first = s.frames.length := hfirst
      omega
  | ran frame rest hruns hfirst hlate hpast =>
      exact ⟨frame :: rest, hruns, hfirst, hlate, hpast⟩

theorem run_awaits {first : Nat} {due : ℚ} {before : List Nat} (hs : s.Consistent)
    (honly : s.OnlyAt slot registration)
    (h : View.Awaits first due before (s.view slot registration))
    (halone : LeftAlone registration s events) (hrun : run State.step s events = some s') :
    NextRunDue first due before registration s' := by
  have hclock : (s.view slot registration).Clocked := hs.view_ahead
  obtain ⟨-, -, hawaits⟩ := run_view (P := fun v => v.Clocked ∧ View.Awaits first due before v)
    (fun h hstep => ⟨h.1.step hstep, h.2.step h.1 hstep⟩) honly ⟨hclock, h⟩ halone hrun
  exact nextRunDue_of_awaits hawaits

/-- A change of the base that reaches a task without the after-start and before-end
flags.  If the task is executing, it has executions left. -/
structure Rebased (s : State) (task : CTask) (slot : Nat) (id : Cell) (amx : Option Amx)
    (newBase : ℚ) (s' : State) : Prop where
  here : s.tasks[slot]? = some task
  found : task.Matches id amx
  plain : task.afterStart = false ∧ task.beforeEnd = false
  more : task.inExecute = true → task.runsLeft ≠ some 1
  taken : s.step (.changeTasks id amx newBase) = some s'

/-- The change is not made in the task's own call, unless it writes a base of 0, and not
in a call earlier in the same frame, unless the new base is positive; and the task has
something to call. -/
def OnTime (s : State) (task : CTask) (slot : Nat) (newBase : ℚ) : Prop :=
  task.HasCall ∧ (s.phase = .inCallback slot → newBase = 0) ∧
    ∀ caller, s.phase = .inCallback caller → caller < slot → 0 < newBase

theorem exists_run_of_due {first frame : Nat} {due time : ℚ} {before : List Nat}
    (h : NextRunDue first due before registration s) (hge : first ≤ frame)
    (htime : s.finishedFrames[frame]? = some time) (hdue : due ≤ time) :
    ∃ run rest, s.runs registration = before ++ run :: rest ∧ first ≤ run ∧
      ∃ time, s.frames[run]? = some time ∧ due ≤ time := by
  obtain ⟨later, hruns, hlater⟩ := h
  cases later with
  | nil => exact absurd (hlater frame time hge htime) (not_lt.mpr hdue)
  | cons run rest => exact ⟨run, rest, hruns, hlater.1, hlater.2.1⟩

theorem run_of_nextRunDue {first run : Nat} {due : ℚ} {before rest : List Nat}
    (h : NextRunDue first due before registration s)
    (hruns : s.runs registration = before ++ run :: rest) :
    first ≤ run ∧ ∃ time, s.frames[run]? = some time ∧ due ≤ time := by
  obtain ⟨later, hruns', hlater⟩ := h
  obtain rfl := List.append_cancel_left (hruns.symm.trans hruns')
  exact ⟨hlater.1, hlater.2.1⟩

theorem due_le_of_frame {first : Nat} {due due' : ℚ} {before : List Nat}
    (h : NextRunDue first due before registration s)
    (h' : NextRunDue first due' before registration s)
    (hlength : s.frames.length = first + 1) (htime : s.finishedFrames[first]? = some due) :
    due' ≤ due := by
  obtain ⟨run, rest, hruns, hge, -⟩ := exists_run_of_due h le_rfl htime le_rfl
  obtain ⟨-, time, hrun, hdue⟩ := run_of_nextRunDue h' hruns
  have hlt := (List.getElem?_eq_some_iff.mp hrun).1
  obtain rfl : run = first := by omega
  rw [frames_of_finished htime] at hrun
  exact Option.some.inj hrun ▸ hdue

section

variable {task : CTask} {id : Cell} {amx : Option Amx} {newBase : ℚ}

theorem Rebased.view (h : s.Rebased task slot id amx newBase s') (hs : s.Consistent) :
    s'.Consistent ∧ s'.OnlyAt slot task.registration ∧
      s'.view slot task.registration =
        { task := some ((task.changeBase newBase).resetNextExecTime s.currentTime)
          position := s.phase.position slot
          time := s.currentTime
          frames := s.frames
          runs := s.runs task.registration } := by
  have honly := hs.onlyAt h.here
  have hview : (s.view slot task.registration).task = some task :=
    view_task_eq_some.mpr ⟨h.here, h.found.1, rfl⟩
  refine ⟨hs.step h.taken, honly.step h.taken, ?_⟩
  cases Took.of_step h.taken with
  | changeTasks _ _ _ hcallable =>
      rw [view_of_changed honly newBase ⟨task, List.mem_of_getElem? h.here, rfl, h.found⟩,
        View.change, hview]
      rfl

theorem position_of_callable (slot : Nat) (hcallable : s.phase.callable) :
    s.phase.position slot = .between ∨ s.phase.position slot = .passed ∨
      (s.phase = .inCallback slot ∧ s.phase.position slot = .running) ∨
      ∃ caller, s.phase = .inCallback caller ∧ caller < slot ∧
        s.phase.position slot = .ahead := by
  cases hphase : s.phase with
  | idle => exact .inl rfl
  | scanning => simp [hphase, Phase.callable] at hcallable
  | inCallback caller =>
      rcases Nat.lt_trichotomy slot caller with hlt | rfl | hgt
      · exact .inr (.inl (by simp [Phase.position, hlt]))
      · exact .inr (.inr (.inl ⟨rfl, by simp [Phase.position]⟩))
      · refine .inr (.inr (.inr ⟨caller, rfl, hgt, ?_⟩))
        simp only [Phase.position]
        rw [if_neg (by omega), if_neg (by omega)]

theorem Rebased.awaits_outside (h : s.Rebased task slot id amx newBase s') (hs : s.Consistent)
    (hcall : task.HasCall) (hposition : s.phase.position slot ≠ .running) {first : Nat}
    (hfirst : first ≤ s.frames.length)
    (hreached : (s.view slot task.registration).reached.length ≤ first)
    (hnow : s.phase.position slot = .ahead → s.frames.length ≤ first → 0 < newBase) :
    View.Awaits first (s.currentTime + newBase) (s.runs task.registration)
      (s'.view slot task.registration) := by
  obtain ⟨-, -, hview⟩ := h.view hs
  rw [hview]
  refine .waiting _ rfl h.found.1 h.plain.1 h.plain.2 hcall rfl rfl hposition hfirst ?_ ?_
  · intro frame time hge htime
    have hlt := (List.getElem?_eq_some_iff.mp htime).1
    change frame < (s.view slot task.registration).reached.length at hlt
    omega
  · intro hahead hlength
    have := hnow hahead hlength
    change s.currentTime < s.currentTime + newBase
    linarith

theorem Rebased.awaits_inside (h : s.Rebased task slot id amx newBase s') (hs : s.Consistent)
    (hcall : task.HasCall) (hphase : s.phase = .inCallback slot) :
    View.Awaits s.frames.length (s.currentTime + newBase + newBase) (s.runs task.registration)
      (s'.view slot task.registration) := by
  obtain ⟨-, -, hview⟩ := h.view hs
  rw [hview]
  refine .inside _ rfl h.found.1 h.plain.1 h.plain.2 hcall (h.more ?_) rfl rfl ?_ rfl
  · exact (hs.marked h.here).mpr hphase
  · simp [hphase, Phase.position]

theorem Rebased.callable (h : s.Rebased task slot id amx newBase s') : s.phase.callable := by
  cases Took.of_step h.taken with
  | changeTasks _ _ _ hcallable => exact hcallable

theorem reached_length_le (s : State) (slot registration : Nat) :
    (s.view slot registration).reached.length ≤ s.frames.length := by
  unfold View.reached
  split
  · simp [view]
  · exact le_rfl

theorem Rebased.nextRunDue (h : s.Rebased task slot id amx newBase s') (hs : s.Consistent)
    (htime : s.OnTime task slot newBase) {after : List Event} {final : State}
    (halone : LeftAlone task.registration s' after)
    (hrun : run State.step s' after = some final) :
    NextRunDue s.frames.length (s.currentTime + newBase) (s.runs task.registration)
      task.registration final := by
  obtain ⟨hcall, hown, hearlier⟩ := htime
  obtain ⟨hs', honly, -⟩ := h.view hs
  refine run_awaits hs' honly ?_ halone hrun
  have hreached := s.reached_length_le slot task.registration
  obtain hbetween | hpassed | ⟨hphase, hrunning⟩ | ⟨caller, hphase, hlt, hahead⟩ :=
    position_of_callable slot h.callable
  · exact h.awaits_outside hs hcall (by simp [hbetween]) le_rfl hreached (by simp [hbetween])
  · exact h.awaits_outside hs hcall (by simp [hpassed]) le_rfl hreached (by simp [hpassed])
  · obtain rfl := hown hphase
    simpa using h.awaits_inside hs hcall hphase
  · exact h.awaits_outside hs hcall (by simp [hahead]) le_rfl hreached
      (fun _ _ => hearlier caller hphase hlt)

/-! The condition is needed: runs in which the next execution comes at another time. -/

theorem Rebased.frames (h : s.Rebased task slot id amx newBase s') : s'.frames = s.frames := by
  cases Took.of_step h.taken with
  | changeTasks => rfl

def RunsWhenDue (s : State) (registration : Nat) (newBase : ℚ) (s' : State) : Prop :=
  ∀ after final, LeftAlone registration s' after → run State.step s' after = some final →
    NextRunDue s.frames.length (s.currentTime + newBase) (s.runs registration) registration final

theorem Rebased.one_frame (h : s.Rebased task slot id amx newBase s') (registration : Nat)
    (time : ℚ) :
    ∃ after final, LeftAlone registration s' after ∧ run State.step s' after = some final ∧
      final.frames.length = s.frames.length + 1 ∧
      final.finishedFrames[s.frames.length]? = some time := by
  obtain ⟨after, final, hrun, hidle, hframes, hquiet⟩ := s'.more_frames [time]
  rw [h.frames] at hframes
  exact ⟨after, final, meets_of_quiet registration hquiet, hrun, by simp [hframes],
    by simp [finishedFrames, hidle, hframes]⟩

theorem Rebased.hasCall (h : s.Rebased task slot id amx newBase s') (hs : s.Consistent)
    (hdue : s.RunsWhenDue task.registration newBase s') : task.HasCall := by
  by_contra hcall
  obtain ⟨hs', honly, hview⟩ := h.view hs
  obtain ⟨after, final, halone, hrun, -, htime⟩ :=
    h.one_frame task.registration (s.currentTime + newBase)
  have hmute : View.Mute (s.runs task.registration) (s'.view slot task.registration) := by
    rw [hview]
    refine ⟨rfl, fun other hother => ?_⟩
    obtain rfl := Option.some.inj hother
    exact ⟨h.found.1, hcall⟩
  obtain ⟨-, hsame, -⟩ := run_view View.Mute.step honly hmute halone hrun
  obtain ⟨run, rest, hruns, -⟩ :=
    exists_run_of_due (hdue after final halone hrun) le_rfl htime le_rfl
  have hnone : s.runs task.registration = s.runs task.registration ++ run :: rest :=
    hsame.symm.trans hruns
  simp at hnone

theorem Rebased.newBase_eq_zero (h : s.Rebased task slot id amx newBase s') (hs : s.Consistent)
    (hdue : s.RunsWhenDue task.registration newBase s')
    (hphase : s.phase = .inCallback slot) : newBase = 0 := by
  have hcall := h.hasCall hs hdue
  obtain ⟨hs', honly, -⟩ := h.view hs
  have hagain : ∀ after final, LeftAlone task.registration s' after →
      run State.step s' after = some final →
      NextRunDue s.frames.length (s.currentTime + newBase + newBase)
        (s.runs task.registration) task.registration final := fun after final halone hrun =>
    run_awaits hs' honly (h.awaits_inside hs hcall hphase) halone hrun
  obtain ⟨after, final, halone, hrun, hlength, htime⟩ :=
    h.one_frame task.registration (s.currentTime + newBase)
  have hle := due_le_of_frame (hdue after final halone hrun) (hagain after final halone hrun)
    hlength htime
  obtain ⟨after', final', halone', hrun', hlength', htime'⟩ :=
    h.one_frame task.registration (s.currentTime + newBase + newBase)
  have hge := due_le_of_frame (hagain after' final' halone' hrun')
    (hdue after' final' halone' hrun') hlength' htime'
  linarith

theorem Rebased.newBase_pos (h : s.Rebased task slot id amx newBase s') (hs : s.Consistent)
    (hdue : s.RunsWhenDue task.registration newBase s') {caller : Nat}
    (hphase : s.phase = .inCallback caller) (hlt : caller < slot) : 0 < newBase := by
  by_contra hneg
  have hcall := h.hasCall hs hdue
  obtain ⟨hs', honly, -⟩ := h.view hs
  have hahead : s.phase.position slot = .ahead := by
    simp only [hphase, Phase.position]
    rw [if_neg (by omega), if_neg (by omega)]
  obtain ⟨earlier, hframes⟩ := hs.clock (by simp [hphase])
  have hlength : s.frames.length = earlier.length + 1 := by simp [hframes]
  have hawaits : View.Awaits earlier.length (s.currentTime + newBase)
      (s.runs task.registration) (s'.view slot task.registration) := by
    refine h.awaits_outside hs hcall (by simp [hahead]) (by omega) ?_ (fun _ hle => by omega)
    rw [View.reached_ahead hahead hframes]
  obtain ⟨after, final, hrun, hidle, hsame, hquiet⟩ := s'.finish_frame
  have halone := meets_of_quiet (s := s') task.registration hquiet
  rw [h.frames, hframes] at hsame
  have htime : final.finishedFrames[earlier.length]? = some s.currentTime := by
    simp [finishedFrames, hidle, hsame]
  obtain ⟨run, rest, hruns, -, time, hin, -⟩ :=
    exists_run_of_due (run_awaits hs' honly hawaits halone hrun) le_rfl htime (by linarith)
  have hlate := (run_of_nextRunDue (hdue after final halone hrun) hruns).1
  have hearly := (List.getElem?_eq_some_iff.mp hin).1
  simp only [hsame, List.length_append, List.length_singleton] at hearly
  omega

/-- After a change of the base the next execution comes in the first later frame that is
not before the time of the change plus the new base, whatever follows, exactly if the
change is on time. -/
theorem runsWhenDue_iff (hrun : run State.step {} events = some s)
    (h : s.Rebased task slot id amx newBase s') :
    s.RunsWhenDue task.registration newBase s' ↔ s.OnTime task slot newBase := by
  have hs := (run_allDated hrun).1
  constructor
  · intro hdue
    exact ⟨h.hasCall hs hdue, h.newBase_eq_zero hs hdue,
      fun _ hphase hlt => h.newBase_pos hs hdue hphase hlt⟩
  · exact fun htime after final halone hafter => h.nextRunDue hs htime halone hafter

end

def ticking (inExecute : Bool) (base nextExecTime : ℚ) : CTask where
  plugin := some 0
  id := 7
  func := 1
  repeatCount := -1
  inExecute := inExecute
  loop := true
  base := base
  free := false
  nextExecTime := nextExecTime

theorem runsWhenDue_iff_between :
    ∃ s s' : State, s.Rebased (ticking false 1 2) 0 7 none 3 s' ∧
      (s.RunsWhenDue 0 3 s' ↔ s.OnTime (ticking false 1 2) 0 3) := by
  obtain ⟨s, hrun, hstate⟩ := Option.map_eq_some_iff.mp
    (show (run State.step {} [.registerTask ⟨0, 1, 2, 7, 1, [], 0⟩, .startFrame 1, .visit,
        .callbackReturn, .visit]).map (fun s => (s.phase, s.tasks)) =
      some (.idle, [ticking false 1 2]) by decide +kernel)
  obtain ⟨hphase, htasks⟩ := Prod.mk.inj hstate
  have hrebased : s.Rebased (ticking false 1 2) 0 7 none 3
      { s with tasks := (changeTasks s.tasks 7 none 3 s.currentTime).2 } :=
    ⟨by simp [htasks], by decide, by decide, by decide,
      by simp [State.step, hphase, Phase.callable]⟩
  exact ⟨s, _, hrebased, runsWhenDue_iff hrun hrebased⟩

/-- Moved by 2 from its own call at time 1, the task does not run at time 3. -/
theorem not_runsWhenDue_own_call :
    ∃ s s' : State,
      run State.step {} [.registerTask ⟨0, 1, 2, 7, 1, [], 0⟩, .startFrame 1, .visit] = some s ∧
      s.Rebased (ticking true 1 1) 0 7 none 2 s' ∧ ¬ s.RunsWhenDue 0 2 s' := by
  let s : State := ⟨[ticking true 1 1], 1, .inCallback 0, 1, [1], [⟨0, 0, 1, none, 7⟩]⟩
  let s' : State := ⟨[ticking true 2 3], 1, .inCallback 0, 1, [1], [⟨0, 0, 1, none, 7⟩]⟩
  let final : State := ⟨[ticking false 2 5], 3, .idle, 1, [1, 3], [⟨0, 0, 1, none, 7⟩]⟩
  let after : List Event := [.callbackReturn, .visit, .startFrame 3, .visit, .visit]
  have hafter : run State.step s' after = some final := by decide +kernel
  have halone : LeftAlone 0 s' after :=
    meets_of_quiet 0 (by simp [after, Event.Quiet])
  refine ⟨s, s', by decide +kernel, ⟨rfl, by decide, by decide, by decide, ?_⟩, ?_⟩
  · decide +kernel
  · intro hdue
    obtain ⟨later, hruns, hlater⟩ := hdue after final halone hafter
    obtain rfl : later = [] := List.append_right_eq_self.mp hruns.symm
    have hearly : (3 : ℚ) < 1 + 2 := hlater 1 3 le_rfl rfl
    norm_num at hearly

end State

end AmxModC.Task
