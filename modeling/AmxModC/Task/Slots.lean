import AmxModC.Task.Model

namespace AmxModC.Task

open Foundation

/-! What a step can do. -/

inductive Took (s : State) : Event → State → Prop where
  | registerTask (request : Request) (hcallable : s.phase.callable) :
      Took s (.registerTask request)
        { s with
          tasks := registerTask s.tasks s.registrations request s.currentTime
          registrations := s.registrations + 1 }
  | removeTasks (id : Cell) (amx : Option Amx) (hcallable : s.phase.callable) :
      Took s (.removeTasks id amx) { s with tasks := (removeTasks s.tasks id amx).2 }
  | changeTasks (id : Cell) (amx : Option Amx) (newBase : ℚ)
      (hcallable : s.phase.callable) :
      Took s (.changeTasks id amx newBase)
        { s with tasks := (changeTasks s.tasks id amx newBase s.currentTime).2 }
  | startFrame (time : ℚ) (hidle : s.phase = .idle) :
      Took s (.startFrame time)
        { s with currentTime := time, phase := .scanning 0, frames := s.frames ++ [time] }
  | visit (target : Nat) (hphase : s.phase = .scanning target) :
      Took s .visit (s.visit target)
  | callbackReturn (target : Nat) (hphase : s.phase = .inCallback target) :
      Took s .callbackReturn (s.callbackReturn target)

theorem Took.of_step {s s' : State} {event : Event} (hstep : s.step event = some s') :
    Took s event s' := by
  cases event with
  | registerTask request =>
      simp only [State.step, Option.ite_none_right_eq_some, Option.some.injEq] at hstep
      exact hstep.2 ▸ .registerTask request hstep.1
  | removeTasks id amx =>
      simp only [State.step, Option.ite_none_right_eq_some, Option.some.injEq] at hstep
      exact hstep.2 ▸ .removeTasks id amx hstep.1
  | changeTasks id amx newBase =>
      simp only [State.step, Option.ite_none_right_eq_some, Option.some.injEq] at hstep
      exact hstep.2 ▸ .changeTasks id amx newBase hstep.1
  | startFrame time =>
      simp only [State.step, Option.ite_none_right_eq_some, Option.some.injEq] at hstep
      exact hstep.2 ▸ .startFrame time hstep.1
  | visit =>
      cases hphase : s.phase with
      | scanning target =>
          simp only [State.step, hphase, Option.some.injEq] at hstep
          exact hstep ▸ .visit target hphase
      | idle | inCallback => simp [State.step, hphase] at hstep
  | callbackReturn =>
      cases hphase : s.phase with
      | inCallback target =>
          simp only [State.step, hphase, Option.some.injEq] at hstep
          exact hstep ▸ .callbackReturn target hphase
      | idle | scanning => simp [State.step, hphase] at hstep

/-! The slots against the frame: which are marked as running, and that no two hold
the same registration. -/

structure State.Consistent (s : State) : Prop where
  marked : ∀ {slot : Nat} {task : CTask}, s.tasks[slot]? = some task →
    (task.inExecute = true ↔ s.phase = .inCallback slot)
  bounded : ∀ {slot : Nat}, s.phase = .inCallback slot → slot < s.tasks.length
  fresh : ∀ {slot : Nat} {task : CTask}, s.tasks[slot]? = some task →
    task.registration < s.registrations
  distinct : ∀ {slot other : Nat} {task task' : CTask}, s.tasks[slot]? = some task →
    s.tasks[other]? = some task' → task.registration = task'.registration → slot = other
  past : ∀ {execution : Execution}, execution ∈ s.executions →
    execution.registration < s.registrations
  clock : s.phase ≠ .idle → ∃ earlier, s.frames = earlier ++ [s.currentTime]

namespace CTask

variable {task : CTask}

@[simp] theorem clear_free : task.clear.free = true := rfl

@[simp] theorem clear_registration : task.clear.registration = task.registration := rfl

@[simp] theorem set_inExecute (registration : Nat) (request : Request) (now : ℚ) :
    (task.set registration request now).inExecute = false := rfl

theorem set_eq (registration : Nat) (request : Request) (now : ℚ) :
    task.set registration request now = ({} : CTask).set registration request now := rfl

@[simp] theorem finish_registration : task.finish.registration = task.registration := by
  unfold finish
  repeat' split
  all_goals rfl

@[simp] theorem finish_inExecute : task.finish.inExecute = task.inExecute := by
  unfold finish
  repeat' split
  all_goals rfl

@[simp] theorem leave_registration : task.leave.registration = task.registration :=
  finish_registration

@[simp] theorem leave_inExecute : task.leave.inExecute = false := finish_inExecute

theorem leave_of_free (h : task.free = true) : task.leave.free = true := by
  rw [leave, finish, if_pos (by exact h)]
  exact h

theorem finish_of_not_hasCall (h : ¬ task.HasCall) : task.finish.free = true := by
  obtain ⟨hloop, hrepeat⟩ := not_not.mp h
  unfold finish
  split
  · assumption
  · simp [hloop, hrepeat]

end CTask

/-! A new task goes to the first reusable slot, or behind the last one. -/

theorem registerTask_spec (tasks : List CTask) (registration : Nat) (request : Request)
    (now : ℚ) :
    ∃ target,
      (∀ old, tasks[target]? = some old → old.reusable = true) ∧
      target ≤ tasks.length ∧
      ∀ slot, (registerTask tasks registration request now)[slot]? =
        if slot = target then some (({} : CTask).set registration request now)
        else tasks[slot]? := by
  unfold registerTask
  cases hfind : tasks.findIdx? CTask.reusable with
  | some target =>
      obtain ⟨hlt, hreusable, -⟩ := List.findIdx?_eq_some_iff_getElem.mp hfind
      refine ⟨target, ?_, hlt.le, fun slot => ?_⟩
      · intro old hold
        obtain ⟨-, rfl⟩ := List.getElem?_eq_some_iff.mp hold
        exact hreusable
      · rw [List.getElem?_modify]
        by_cases hslot : slot = target
        · subst hslot
          simp only [List.getElem?_eq_getElem hlt, if_true, Option.map_eq_map,
            Option.map_some, CTask.set_eq]
        · simp [hslot, Ne.symm hslot]
  | none =>
      refine ⟨tasks.length, by simp, le_rfl, fun slot => ?_⟩
      rw [List.getElem?_append]
      rcases Nat.lt_trichotomy slot tasks.length with hlt | heq | hgt
      · simp [hlt, hlt.ne]
      · simp [heq]
      · rw [if_neg (by omega), if_neg (by omega), List.getElem?_eq_none (by simp; omega),
          List.getElem?_eq_none (by omega)]

theorem registerTask_length (tasks : List CTask) (registration : Nat) (request : Request)
    (now : ℚ) : tasks.length ≤ (registerTask tasks registration request now).length := by
  unfold registerTask
  split
  · simp
  · simp

theorem updateMatching_getElem? (tasks : List CTask) (id : Cell) (amx : Option Amx)
    (update : CTask → CTask) (slot : Nat) :
    (updateMatching tasks id amx update).2[slot]? =
      tasks[slot]?.map fun task => if task.Matches id amx then update task else task := by
  simp [updateMatching]

theorem modified_getElem? (tasks : List CTask) (target : Nat) (f : CTask → CTask)
    (slot : Nat) :
    (tasks.modify target f)[slot]? =
      tasks[slot]?.map fun task => if target = slot then f task else task := by
  rw [List.getElem?_modify]
  split <;> simp

namespace State.Consistent

variable {s : State}

theorem init : ({} : State).Consistent where
  marked := by simp
  bounded := by simp
  fresh := by simp
  distinct := by simp
  past := by simp
  clock := by simp

theorem of_update {s' : State} (hs : s.Consistent) (update : Nat → CTask → CTask)
    (htasks : ∀ slot, s'.tasks[slot]? = s.tasks[slot]?.map (update slot))
    (hregistration : ∀ slot task, (update slot task).registration = task.registration)
    (hmark : ∀ slot task, s.tasks[slot]? = some task →
      ((update slot task).inExecute = true ↔ s'.phase = .inCallback slot))
    (hbounded : ∀ slot, s'.phase = .inCallback slot → slot < s.tasks.length)
    (hregistrations : s'.registrations = s.registrations)
    (hpast : ∀ execution ∈ s'.executions, execution.registration < s.registrations)
    (hclock : s'.phase ≠ .idle → ∃ earlier, s'.frames = earlier ++ [s'.currentTime]) :
    s'.Consistent where
  marked := by
    intro slot task htask
    obtain ⟨old, hold, rfl⟩ := Option.map_eq_some_iff.mp ((htasks slot).symm.trans htask)
    exact hmark slot old hold
  bounded := by
    intro slot hphase
    have hsome : (s.tasks[slot]?).isSome := by simpa using hbounded slot hphase
    have hnew : (s'.tasks[slot]?).isSome := by rw [htasks, Option.isSome_map, hsome]
    simpa using hnew
  fresh := by
    intro slot task htask
    obtain ⟨old, hold, rfl⟩ := Option.map_eq_some_iff.mp ((htasks slot).symm.trans htask)
    rw [hregistration, hregistrations]
    exact hs.fresh hold
  distinct := by
    intro slot other task task' htask htask' heq
    obtain ⟨old, hold, rfl⟩ := Option.map_eq_some_iff.mp ((htasks slot).symm.trans htask)
    obtain ⟨old', hold', rfl⟩ :=
      Option.map_eq_some_iff.mp ((htasks other).symm.trans htask')
    rw [hregistration, hregistration] at heq
    exact hs.distinct hold hold' heq
  past := fun {execution} hmem => hregistrations ▸ hpast execution hmem
  clock := hclock

theorem register (hs : s.Consistent) (request : Request) :
    ({ s with
        tasks := registerTask s.tasks s.registrations request s.currentTime
        registrations := s.registrations + 1 } : State).Consistent := by
  obtain ⟨target, hreusable, hbound, hget⟩ :=
    registerTask_spec s.tasks s.registrations request s.currentTime
  constructor
  case marked =>
    intro slot task htask
    simp only [hget] at htask
    split at htask
    case isTrue heq =>
      obtain rfl := Option.some.inj htask
      subst heq
      simp only [CTask.set_inExecute, Bool.false_eq_true, false_iff]
      intro hphase
      have hold := List.getElem?_eq_getElem (hs.bounded hphase)
      have hmark := (hs.marked hold).mpr hphase
      simpa [CTask.reusable, hmark] using hreusable _ hold
    case isFalse => exact hs.marked htask
  case bounded =>
    intro slot hphase
    exact (hs.bounded hphase).trans_le (registerTask_length ..)
  case fresh =>
    intro slot task htask
    simp only [hget] at htask
    split at htask
    case isTrue =>
      obtain rfl := Option.some.inj htask
      exact Nat.lt_succ_self _
    case isFalse => exact (hs.fresh htask).trans (Nat.lt_succ_self _)
  case distinct =>
    intro slot other task task' htask htask' heq
    simp only [hget] at htask htask'
    split at htask <;> split at htask'
    case isTrue.isTrue h h' => exact h.trans h'.symm
    case isTrue.isFalse =>
      obtain rfl := Option.some.inj htask
      exact absurd heq.symm (hs.fresh htask').ne
    case isFalse.isTrue =>
      obtain rfl := Option.some.inj htask'
      exact absurd heq (hs.fresh htask).ne
    case isFalse.isFalse => exact hs.distinct htask htask' heq
  case past => exact fun hmem => (hs.past hmem).trans (Nat.lt_succ_self _)
  case clock => exact hs.clock

theorem update (hs : s.Consistent) (id : Cell) (amx : Option Amx) {f : CTask → CTask}
    (hregistration : ∀ task, (f task).registration = task.registration)
    (hmark : ∀ task, (f task).inExecute = task.inExecute) :
    { s with tasks := (updateMatching s.tasks id amx f).2 }.Consistent := by
  refine of_update hs (fun _ task => if task.Matches id amx then f task else task)
    (updateMatching_getElem? s.tasks id amx f) ?_ ?_ (fun _ => hs.bounded) rfl
    (fun _ => hs.past) hs.clock
  · intro slot task
    split
    · exact hregistration task
    · rfl
  · intro slot task htask
    rw [← hs.marked htask]
    split
    · rw [hmark]
    · rfl

theorem startFrame (hs : s.Consistent) (hidle : s.phase = .idle) (time : ℚ) :
    ({ s with
        currentTime := time
        phase := .scanning 0
        frames := s.frames ++ [time] } : State).Consistent := by
  refine of_update hs (fun _ task => task) (by simp) (fun _ _ => rfl) ?_ (by simp) rfl
    (fun _ => hs.past) (fun _ => ⟨s.frames, rfl⟩)
  intro slot task htask
  simpa [hidle] using hs.marked htask

theorem visit (hs : s.Consistent) {target : Nat} (hphase : s.phase = .scanning target) :
    (s.visit target).Consistent := by
  have hclock := hs.clock (by simp [hphase])
  have hidle : ∀ {slot : Nat} {task : CTask}, s.tasks[slot]? = some task →
      task.inExecute = false := by
    intro slot task htask
    simpa [hphase] using hs.marked htask
  have hmove : ∀ phase : Phase, (∀ slot, phase ≠ .inCallback slot) →
      ({ s with phase := phase } : State).Consistent := by
    intro phase hnot
    refine of_update hs (fun _ task => task) (by simp) (fun _ _ => rfl) ?_ ?_ rfl
      (fun _ => hs.past) (fun _ => hclock)
    · intro slot task htask
      simp [hidle htask, hnot slot]
    · intro slot h
      exact absurd h (hnot slot)
  unfold State.visit
  cases htask : s.tasks[target]? with
  | none => exact hmove .idle (by simp)
  | some task =>
      dsimp only
      split
      · exact hmove _ (by simp)
      split
      · exact hmove _ (by simp)
      split
      · refine of_update hs _ (modified_getElem? s.tasks target _) ?_ ?_ ?_ rfl ?_
          (fun _ => hclock)
        · intro slot task
          split <;> rfl
        · intro slot other hother
          split
          case isTrue heq => simp [heq]
          case isFalse hne => simp [hidle hother, hne]
        · intro slot h
          obtain rfl := Phase.inCallback.inj h
          exact (List.getElem?_eq_some_iff.mp htask).1
        · intro execution hmem
          rcases List.mem_append.mp hmem with hold | hnew
          · exact hs.past hold
          · obtain rfl := List.mem_singleton.mp hnew
            exact hs.fresh htask
      · refine of_update hs _ (modified_getElem? s.tasks target _) ?_ ?_ (by simp) rfl
          (fun _ => hs.past) (fun _ => hclock)
        · intro slot task
          split <;> simp
        · intro slot other hother
          split <;> simp [hidle hother]

theorem callbackReturn (hs : s.Consistent) {target : Nat}
    (hphase : s.phase = .inCallback target) : (s.callbackReturn target).Consistent := by
  refine of_update hs _ (modified_getElem? s.tasks target _) ?_ ?_ (by simp [State.callbackReturn])
    rfl (fun _ => hs.past) (fun _ => hs.clock (by simp [hphase]))
  · intro slot task
    split <;> simp
  · intro slot task htask
    have hmark := hs.marked htask
    rw [hphase] at hmark
    split
    case isTrue => simp [State.callbackReturn]
    case isFalse hne =>
      have hother : task.inExecute = false := by simpa [hne] using hmark
      simp [State.callbackReturn, hother]

theorem step (hs : s.Consistent) {event : Event} {s' : State}
    (hstep : s.step event = some s') : s'.Consistent := by
  cases Took.of_step hstep with
  | registerTask request => exact hs.register request
  | removeTasks id amx => exact hs.update id amx (fun _ => rfl) (fun _ => rfl)
  | changeTasks id amx => exact hs.update id amx (fun _ => rfl) (fun _ => rfl)
  | startFrame time hidle => exact hs.startFrame hidle time
  | visit target hphase => exact hs.visit hphase
  | callbackReturn target hphase => exact hs.callbackReturn hphase

theorem run (hs : s.Consistent) {events : List Event} {s' : State}
    (hrun : Foundation.run State.step s events = some s') : s'.Consistent := by
  induction events generalizing s with
  | nil =>
      cases hrun
      exact hs
  | cons event rest ih =>
      obtain ⟨next, hnext, hrest⟩ := run_cons_eq_some.mp hrun
      exact ih (hs.step hnext) hrest

end State.Consistent

end AmxModC.Task
