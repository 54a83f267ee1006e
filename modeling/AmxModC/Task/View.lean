import AmxModC.Task.Slots

namespace AmxModC.Task

open Foundation

/-! One registration and the frame in progress, as its slot sees them. -/

inductive Position where
  | between
  | ahead
  | running
  | passed
deriving DecidableEq

def Phase.position : Phase → Nat → Position
  | .idle, _ => .between
  | .scanning target, slot => if slot < target then .passed else .ahead
  | .inCallback target, slot =>
      if slot < target then .passed else if slot = target then .running else .ahead

/-- `task` is `none` once the registration has lost its slot. -/
structure View where
  task : Option CTask
  position : Position
  time : ℚ
  frames : List ℚ
  runs : List Nat

namespace View

inductive Step (v : View) : View → Prop where
  | stay : Step v v
  | start (time : ℚ) (hposition : v.position = .between) :
      Step v { v with position := .ahead, time := time, frames := v.frames ++ [time] }
  | finish (hposition : v.position = .passed) : Step v { v with position := .between }
  | skip (hposition : v.position = .ahead) (hdue : ∀ task ∈ v.task, ¬ task.Due v.time) :
      Step v { v with position := .passed }
  | enter (hposition : v.position = .ahead) (hnone : v.task = none) :
      Step v { v with position := .running }
  | call (task : CTask) (hposition : v.position = .ahead) (htask : v.task = some task)
      (hdue : task.Due v.time) (hcall : task.HasCall) :
      Step v
        { v with
          task := some { task with inExecute := true }
          position := .running
          runs := v.runs ++ [v.frames.length - 1] }
  | drop (task : CTask) (hposition : v.position = .ahead) (htask : v.task = some task)
      (hdue : task.Due v.time) (hcall : ¬ task.HasCall) :
      Step v { v with task := none, position := .passed }
  | leave (hposition : v.position = .running) :
      Step v
        { v with
          task := v.task.bind fun task => Option.guard (fun task => !task.free) task.leave
          position := .passed }

def change (v : View) (newBase : ℚ) : View :=
  { v with task := v.task.map fun task =>
      (task.changeBase newBase).resetNextExecTime v.time }

def remove (v : View) : View := { v with task := none }

end View

def CTask.ofRegistration (task : CTask) (registration : Nat) : Option CTask :=
  if task.free = false ∧ task.registration = registration then some task else none

def State.view (s : State) (slot registration : Nat) : View where
  task := s.tasks[slot]?.bind fun task => task.ofRegistration registration
  position := s.phase.position slot
  time := s.currentTime
  frames := s.frames
  runs := s.runs registration

structure State.OnlyAt (s : State) (slot registration : Nat) : Prop where
  bound : slot < s.tasks.length
  past : registration < s.registrations
  only : ∀ {other : Nat} {task : CTask}, s.tasks[other]? = some task →
    task.registration = registration → other = slot

def Event.Touches (event : Event) (s : State) (registration : Nat) : Prop :=
  match event with
  | .removeTasks id amx | .changeTasks id amx _ =>
      ∃ task ∈ s.tasks, task.registration = registration ∧ task.Matches id amx
  | _ => False

def Event.Removes (event : Event) (s : State) (registration : Nat) : Prop :=
  match event with
  | .removeTasks id amx =>
      ∃ task ∈ s.tasks, task.registration = registration ∧ task.Matches id amx
  | _ => False

namespace CTask

variable {task : CTask} {registration : Nat}

theorem ofRegistration_eq_some {live : CTask} :
    task.ofRegistration registration = some live ↔
      task = live ∧ live.free = false ∧ live.registration = registration := by
  unfold ofRegistration
  split
  case isTrue h =>
    constructor
    · rintro ⟨rfl⟩
      exact ⟨rfl, h⟩
    · rintro ⟨rfl, -⟩
      rfl
  case isFalse h =>
    constructor
    · intro hsome
      cases hsome
    · rintro ⟨rfl, hlive⟩
      exact absurd hlive h

theorem ofRegistration_eq_none :
    task.ofRegistration registration = none ↔
      (task.registration = registration → task.free = true) := by
  unfold ofRegistration
  split
  case isTrue h => simp [h]
  case isFalse h =>
    simp only [true_iff]
    intro hregistration
    simpa [hregistration] using h

theorem ofRegistration_eq_guard (hregistration : task.registration = registration) :
    task.ofRegistration registration = Option.guard (fun task => !task.free) task := by
  simp [ofRegistration, Option.guard, hregistration]

end CTask

namespace State

variable {s : State} {slot registration : Nat}

theorem view_task_eq_some {task : CTask} :
    (s.view slot registration).task = some task ↔
      s.tasks[slot]? = some task ∧ task.free = false ∧ task.registration = registration := by
  simp only [view, Option.bind_eq_some_iff, CTask.ofRegistration_eq_some]
  constructor
  · rintro ⟨_, hslot, rfl, hlive⟩
    exact ⟨hslot, hlive⟩
  · rintro ⟨hslot, hlive⟩
    exact ⟨task, hslot, rfl, hlive⟩

theorem view_updateMatching (id : Cell) (amx : Option Amx) {f : CTask → CTask}
    (hf : ∀ task, (f task).registration = task.registration) :
    ({ s with tasks := (updateMatching s.tasks id amx f).2 } : State).view slot registration =
      { s.view slot registration with
        task := (s.view slot registration).task.bind fun task =>
          if task.Matches id amx then (f task).ofRegistration registration else some task } := by
  simp only [view, updateMatching_getElem?]
  congr 1
  cases htask : s.tasks[slot]? with
  | none => rfl
  | some task =>
      simp only [Option.map_some, Option.bind_some]
      by_cases hlive : task.free = false ∧ task.registration = registration
      · rw [show task.ofRegistration registration = some task from if_pos hlive,
          Option.bind_some]
        split
        · rfl
        · exact if_pos hlive
      · rw [show task.ofRegistration registration = none from if_neg hlive]
        split
        case isTrue hmatches =>
          refine if_neg fun h => hlive ⟨hmatches.1, ?_⟩
          rw [← hf]
          exact h.2
        case isFalse => exact if_neg hlive

theorem OnlyAt.of_update {s' : State} (honly : s.OnlyAt slot registration)
    (update : Nat → CTask → CTask)
    (htasks : ∀ slot, s'.tasks[slot]? = s.tasks[slot]?.map (update slot))
    (hregistration : ∀ slot task, (update slot task).registration = task.registration)
    (hregistrations : s'.registrations = s.registrations) :
    s'.OnlyAt slot registration where
  bound := by
    have hsome : (s.tasks[slot]?).isSome := by simpa using honly.bound
    have hnew : (s'.tasks[slot]?).isSome := by rw [htasks, Option.isSome_map, hsome]
    simpa using hnew
  past := hregistrations ▸ honly.past
  only := by
    intro other task htask heq
    obtain ⟨old, hold, rfl⟩ := Option.map_eq_some_iff.mp ((htasks other).symm.trans htask)
    rw [hregistration] at heq
    exact honly.only hold heq

theorem visit_cases (s : State) (target : Nat) :
    (∃ update : CTask → CTask, (∀ task, (update task).registration = task.registration) ∧
      (s.visit target).tasks = s.tasks.modify target update) ∧
      (s.visit target).registrations = s.registrations := by
  unfold visit
  cases htask : s.tasks[target]? with
  | none => exact ⟨⟨id, fun _ => rfl, by simp⟩, rfl⟩
  | some task =>
      dsimp only
      split
      · exact ⟨⟨id, fun _ => rfl, by simp⟩, rfl⟩
      split
      · exact ⟨⟨id, fun _ => rfl, by simp⟩, rfl⟩
      split
      · exact ⟨⟨fun task => { task with inExecute := true }, fun _ => rfl, rfl⟩, rfl⟩
      · exact ⟨⟨_, fun _ => CTask.finish_registration, rfl⟩, rfl⟩

theorem OnlyAt.step (honly : s.OnlyAt slot registration) {event : Event} {s' : State}
    (hstep : s.step event = some s') : s'.OnlyAt slot registration := by
  cases Took.of_step hstep with
  | registerTask request =>
      obtain ⟨target, -, -, hget⟩ :=
        registerTask_spec s.tasks s.registrations request s.currentTime
      refine ⟨honly.bound.trans_le (registerTask_length ..),
        honly.past.trans (Nat.lt_succ_self _), ?_⟩
      intro other task htask heq
      simp only [hget] at htask
      split at htask
      · obtain rfl := Option.some.inj htask
        exact absurd heq honly.past.ne'
      · exact honly.only htask heq
  | removeTasks id amx =>
      refine honly.of_update (fun _ task => if task.Matches id amx then task.clear else task)
        (updateMatching_getElem? s.tasks id amx CTask.clear) (fun _ task => ?_) rfl
      split <;> rfl
  | changeTasks id amx newBase =>
      refine honly.of_update _ (updateMatching_getElem? s.tasks id amx _) (fun _ task => ?_) rfl
      split <;> rfl
  | startFrame time =>
      exact honly.of_update (fun _ task => task) (by simp) (fun _ _ => rfl) rfl
  | visit target =>
      obtain ⟨⟨update, hkeep, htasks⟩, hregistrations⟩ := s.visit_cases target
      refine honly.of_update (fun slot task => if target = slot then update task else task)
        (fun slot => ?_) (fun slot task => ?_) hregistrations
      · rw [htasks, modified_getElem?]
      · split
        · exact hkeep task
        · rfl
  | callbackReturn target =>
      refine honly.of_update _ (modified_getElem? s.tasks target _) (fun _ task => ?_) rfl
      split <;> simp

/-! How the steps of the manager look from the slot. -/

theorem view_of_registerTask (honly : s.OnlyAt slot registration)
    (request : Request) :
    ({ s with
        tasks := registerTask s.tasks s.registrations request s.currentTime
        registrations := s.registrations + 1 } : State).view slot registration =
      s.view slot registration := by
  obtain ⟨target, hreusable, -, hget⟩ :=
    registerTask_spec s.tasks s.registrations request s.currentTime
  simp only [view, hget]
  congr 1
  split
  case isFalse => rfl
  case isTrue heq =>
    subst heq
    have hold := List.getElem?_eq_getElem honly.bound
    have hfree := (Bool.and_eq_true _ _ ▸ hreusable _ hold).1
    rw [hold, Option.bind_some, Option.bind_some,
      CTask.ofRegistration_eq_none.mpr fun _ => hfree]
    exact CTask.ofRegistration_eq_none.mpr fun h => absurd h honly.past.ne'

theorem mem_of_view {task : CTask} (htask : (s.view slot registration).task = some task) :
    task ∈ s.tasks ∧ task.free = false ∧ task.registration = registration := by
  obtain ⟨hslot, hlive⟩ := view_task_eq_some.mp htask
  exact ⟨List.mem_of_getElem? hslot, hlive⟩

theorem view_of_touched (honly : s.OnlyAt slot registration) {id : Cell} {amx : Option Amx}
    (htouch : ∃ task ∈ s.tasks, task.registration = registration ∧ task.Matches id amx) :
    ∃ task, (s.view slot registration).task = some task ∧ task.Matches id amx := by
  obtain ⟨task, hmem, hregistration, hmatches⟩ := htouch
  obtain ⟨other, hother⟩ := List.mem_iff_getElem?.mp hmem
  obtain rfl := honly.only hother hregistration
  exact ⟨task, view_task_eq_some.mpr ⟨hother, hmatches.1, hregistration⟩, hmatches⟩

theorem view_of_untouched {id : Cell} {amx : Option Amx} {f : CTask → CTask}
    (hf : ∀ task, (f task).registration = task.registration)
    (htouch : ¬ ∃ task ∈ s.tasks, task.registration = registration ∧ task.Matches id amx) :
    ({ s with tasks := (updateMatching s.tasks id amx f).2 } : State).view slot registration =
      s.view slot registration := by
  have hkeep : ((s.view slot registration).task.bind fun task =>
      if task.Matches id amx then (f task).ofRegistration registration else some task) =
      (s.view slot registration).task := by
    cases htask : (s.view slot registration).task with
    | none => rfl
    | some task =>
        obtain ⟨hmem, -, hregistration⟩ := mem_of_view htask
        exact if_neg fun h => htouch ⟨task, hmem, hregistration, h⟩
  rw [view_updateMatching id amx hf, hkeep]

theorem view_of_removed (honly : s.OnlyAt slot registration) {id : Cell} {amx : Option Amx}
    (htouch : ∃ task ∈ s.tasks, task.registration = registration ∧ task.Matches id amx) :
    ({ s with tasks := (removeTasks s.tasks id amx).2 } : State).view slot registration =
      (s.view slot registration).remove := by
  obtain ⟨task, htask, hmatches⟩ := view_of_touched honly htouch
  rw [removeTasks, view_updateMatching id amx fun _ => CTask.clear_registration, htask,
    Option.bind_some, if_pos hmatches, CTask.ofRegistration_eq_none.mpr fun _ => rfl]
  rfl

theorem view_of_changed (honly : s.OnlyAt slot registration) {id : Cell} {amx : Option Amx}
    (newBase : ℚ)
    (htouch : ∃ task ∈ s.tasks, task.registration = registration ∧ task.Matches id amx) :
    ({ s with tasks := (changeTasks s.tasks id amx newBase s.currentTime).2 } : State).view
        slot registration =
      (s.view slot registration).change newBase := by
  obtain ⟨task, htask, hmatches⟩ := view_of_touched honly htouch
  have hlive : ((task.changeBase newBase).resetNextExecTime s.currentTime).ofRegistration
      registration = some ((task.changeBase newBase).resetNextExecTime s.currentTime) :=
    if_pos (mem_of_view htask).2
  rw [changeTasks, view_updateMatching id amx (by exact fun _ => rfl), htask,
    Option.bind_some, if_pos hmatches, hlive, View.change, htask]
  rfl

theorem runs_of_other {s' : State} {execution : Execution}
    (hexecutions : s'.executions = s.executions ++ [execution])
    (hne : execution.registration ≠ registration) :
    s'.runs registration = s.runs registration := by
  simp [runs, hexecutions, hne]

theorem runs_of_own {s' : State} {execution : Execution}
    (hexecutions : s'.executions = s.executions ++ [execution])
    (heq : execution.registration = registration) :
    s'.runs registration = s.runs registration ++ [execution.frame] := by
  simp [runs, hexecutions, heq]

theorem step_of_other {s' : State} (update : CTask → CTask) {target : Nat} (hne : target ≠ slot)
    (htasks : s'.tasks = s.tasks.modify target update)
    (hposition : s'.phase.position slot = s.phase.position slot)
    (htime : s'.currentTime = s.currentTime) (hframes : s'.frames = s.frames)
    (hruns : s'.runs registration = s.runs registration) :
    (s.view slot registration).Step (s'.view slot registration) := by
  have hslot : s'.tasks[slot]? = s.tasks[slot]? := by
    rw [htasks, modified_getElem?]
    simp [hne]
  have hview : s'.view slot registration = s.view slot registration := by
    simp only [view, hslot, hposition, htime, hframes, hruns]
  exact hview ▸ .stay

theorem step_visit_of_other (honly : s.OnlyAt slot registration) {target : Nat}
    (hphase : s.phase = .scanning target) (hslot : target ≠ slot) :
    (s.view slot registration).Step ((s.visit target).view slot registration) := by
  have hscan : (Phase.scanning (target + 1)).position slot = s.phase.position slot := by
    simp only [hphase, Phase.position]
    grind
  have hcall : (Phase.inCallback target).position slot = s.phase.position slot := by
    simp only [hphase, Phase.position]
    grind
  unfold visit
  cases htask : s.tasks[target]? with
  | none =>
      have hle : s.tasks.length ≤ target := List.getElem?_eq_none_iff.mp htask
      have hpassed : (s.view slot registration).position = .passed := by
        simp [view, hphase, Phase.position, honly.bound.trans_le hle]
      exact .finish hpassed
  | some task =>
      have hregistration : task.registration ≠ registration := fun h =>
        hslot (honly.only htask h)
      dsimp only
      split
      · exact step_of_other id hslot (by simp) hscan rfl rfl rfl
      split
      · exact step_of_other id hslot (by simp) hscan rfl rfl rfl
      split
      · exact step_of_other _ hslot rfl hcall rfl rfl
          (runs_of_other rfl (show (task.execution _).registration ≠ _ from hregistration))
      · exact step_of_other _ hslot rfl hscan rfl rfl rfl

theorem step_of_own {s' : State} {task : CTask} {position : Position} {shown : Option CTask}
    {runs : List Nat} (update : CTask → CTask) (htask : s.tasks[slot]? = some task)
    (hstep : (s.view slot registration).Step
      { s.view slot registration with task := shown, position := position, runs := runs })
    (htasks : s'.tasks = s.tasks.modify slot update)
    (hshown : (update task).ofRegistration registration = shown)
    (hposition : s'.phase.position slot = position)
    (htime : s'.currentTime = s.currentTime) (hframes : s'.frames = s.frames)
    (hruns : s'.runs registration = runs) :
    (s.view slot registration).Step (s'.view slot registration) := by
  have hview : s'.view slot registration =
      { s.view slot registration with task := shown, position := position, runs := runs } := by
    simp [view, htasks, hposition, htime, hframes, hruns, htask, hshown]
  exact hview ▸ hstep

theorem scanning_position : (Phase.scanning (slot + 1)).position slot = .passed := by
  simp [Phase.position]

theorem inCallback_position : (Phase.inCallback slot).position slot = .running := by
  simp [Phase.position]

theorem ahead_of_scanning (hphase : s.phase = .scanning slot) :
    (s.view slot registration).position = .ahead := by
  simp [view, hphase, Phase.position]

theorem step_visit_of_gone {task : CTask} (hphase : s.phase = .scanning slot)
    (htask : s.tasks[slot]? = some task) (hgone : task.ofRegistration registration = none) :
    (s.view slot registration).Step ((s.visit slot).view slot registration) := by
  have hahead : (s.view slot registration).position = .ahead := ahead_of_scanning hphase
  have hnone : (s.view slot registration).task = none := by simp [view, htask, hgone]
  have hskip : (s.view slot registration).Step
      { s.view slot registration with
        task := none, position := .passed, runs := s.runs registration } := by
    have hstep := View.Step.skip hahead (by simp [hnone])
    rwa [hnone] at hstep
  have henter : (s.view slot registration).Step
      { s.view slot registration with
        task := none, position := .running, runs := s.runs registration } := by
    have hstep := View.Step.enter hahead hnone
    rwa [hnone] at hstep
  unfold visit
  rw [htask]
  dsimp only
  split
  · exact step_of_own id htask hskip (by simp) hgone scanning_position rfl rfl rfl
  case isFalse hfree =>
    have hother : task.registration ≠ registration := fun h =>
      hfree (CTask.ofRegistration_eq_none.mp hgone h)
    split
    · exact step_of_own id htask hskip (by simp) hgone scanning_position rfl rfl rfl
    split
    · exact step_of_own _ htask henter rfl
        (CTask.ofRegistration_eq_none.mpr fun h => absurd h hother) inCallback_position rfl rfl
        (runs_of_other rfl (show (task.execution _).registration ≠ _ from hother))
    · exact step_of_own _ htask hskip rfl
        (CTask.ofRegistration_eq_none.mpr fun h =>
          absurd (CTask.finish_registration.symm.trans h) hother)
        scanning_position rfl rfl rfl

theorem step_visit_of_live {task : CTask} (hphase : s.phase = .scanning slot)
    (htask : s.tasks[slot]? = some task) (hfree : task.free = false)
    (hregistration : task.registration = registration) :
    (s.view slot registration).Step ((s.visit slot).view slot registration) := by
  have hahead : (s.view slot registration).position = .ahead := ahead_of_scanning hphase
  have hlive : task.ofRegistration registration = some task := if_pos ⟨hfree, hregistration⟩
  have hview : (s.view slot registration).task = some task := by simp [view, htask, hlive]
  unfold visit
  rw [htask]
  dsimp only
  rw [if_neg (by simp [hfree])]
  split
  case isTrue hdue =>
    refine step_of_own id htask ?_ (by simp) hlive scanning_position rfl rfl rfl
    have hstep := View.Step.skip hahead fun live hlive => by
      obtain rfl := Option.some.inj (hview.symm.trans hlive)
      exact hdue
    rwa [hview] at hstep
  case isFalse hdue =>
    split
    case isTrue hcall =>
      exact step_of_own _ htask (.call task hahead hview (not_not.mp hdue) hcall) rfl
        (if_pos ⟨hfree, hregistration⟩) inCallback_position rfl rfl
        (runs_of_own rfl (show (task.execution _).registration = _ from hregistration))
    case isFalse hcall =>
      exact step_of_own _ htask (.drop task hahead hview (not_not.mp hdue) hcall) rfl
        (CTask.ofRegistration_eq_none.mpr fun _ => CTask.finish_of_not_hasCall hcall)
        scanning_position rfl rfl rfl

theorem step_visit (honly : s.OnlyAt slot registration) {target : Nat}
    (hphase : s.phase = .scanning target) :
    (s.view slot registration).Step ((s.visit target).view slot registration) := by
  by_cases hslot : target = slot
  case neg => exact step_visit_of_other honly hphase hslot
  case pos =>
    subst hslot
    obtain ⟨task, htask⟩ : ∃ task, s.tasks[target]? = some task :=
      ⟨_, List.getElem?_eq_getElem honly.bound⟩
    by_cases hlive : task.free = false ∧ task.registration = registration
    · exact step_visit_of_live hphase htask hlive.1 hlive.2
    · exact step_visit_of_gone hphase htask (if_neg hlive)

theorem step_callbackReturn (honly : s.OnlyAt slot registration) {target : Nat}
    (hphase : s.phase = .inCallback target) :
    (s.view slot registration).Step ((s.callbackReturn target).view slot registration) := by
  by_cases hslot : target = slot
  case neg =>
    refine step_of_other _ hslot rfl ?_ rfl rfl rfl
    simp only [callbackReturn, hphase, Phase.position]
    grind
  case pos =>
    subst hslot
    have hrunning : (s.view target registration).position = .running := by
      simp [view, hphase, Phase.position]
    obtain ⟨task, htask⟩ : ∃ task, s.tasks[target]? = some task :=
      ⟨_, List.getElem?_eq_getElem honly.bound⟩
    refine step_of_own _ htask (.leave hrunning) rfl ?_ scanning_position rfl rfl rfl
    rw [show (s.view target registration).task = task.ofRegistration registration by
      simp [view, htask]]
    by_cases hregistration : task.registration = registration
    case neg =>
      rw [show task.ofRegistration registration = none from if_neg fun h => hregistration h.2]
      exact CTask.ofRegistration_eq_none.mpr fun h =>
        absurd (CTask.leave_registration.symm.trans h) hregistration
    case pos =>
      cases hfree : task.free with
      | false =>
          rw [show task.ofRegistration registration = some task from
            if_pos ⟨hfree, hregistration⟩, Option.bind_some]
          exact CTask.ofRegistration_eq_guard (CTask.leave_registration.trans hregistration)
      | true =>
          rw [CTask.ofRegistration_eq_none.mpr fun _ => hfree, Option.bind_none]
          exact CTask.ofRegistration_eq_none.mpr fun _ => CTask.leave_of_free hfree

/-! The three ways a step of the manager looks from the slot. -/

theorem view_of_removes (honly : s.OnlyAt slot registration) {event : Event} {s' : State}
    (hstep : s.step event = some s') (hremoves : event.Removes s registration) :
    s'.view slot registration = (s.view slot registration).remove := by
  cases Took.of_step hstep with
  | removeTasks id amx => exact view_of_removed honly hremoves
  | registerTask | changeTasks | startFrame | visit | callbackReturn => cases hremoves

theorem view_step_of_untouched (honly : s.OnlyAt slot registration) {event : Event} {s' : State}
    (hstep : s.step event = some s') (htouch : ¬ event.Touches s registration) :
    (s.view slot registration).Step (s'.view slot registration) := by
  cases Took.of_step hstep with
  | registerTask request => exact view_of_registerTask honly request ▸ .stay
  | removeTasks id amx =>
      have hview : ({ s with tasks := (Task.removeTasks s.tasks id amx).2 } : State).view
          slot registration = s.view slot registration :=
        view_of_untouched (fun _ => rfl) htouch
      exact hview ▸ .stay
  | changeTasks id amx newBase =>
      have hview : ({ s with tasks :=
            (Task.changeTasks s.tasks id amx newBase s.currentTime).2 } : State).view
          slot registration = s.view slot registration :=
        view_of_untouched (fun _ => rfl) htouch
      exact hview ▸ .stay
  | startFrame time hidle =>
      have hbetween : (s.view slot registration).position = .between := by
        simp [view, hidle, Phase.position]
      exact .start time hbetween
  | visit target hphase => exact step_visit honly hphase
  | callbackReturn target hphase => exact step_callbackReturn honly hphase

theorem view_step_of_kept (honly : s.OnlyAt slot registration) {event : Event} {s' : State}
    (hstep : s.step event = some s') (hkept : ¬ event.Removes s registration) :
    (s.view slot registration).Step (s'.view slot registration) ∨
      ∃ newBase, s'.view slot registration = (s.view slot registration).change newBase := by
  by_cases htouch : event.Touches s registration
  case neg => exact .inl (view_step_of_untouched honly hstep htouch)
  case pos =>
    cases Took.of_step hstep with
    | changeTasks id amx newBase => exact .inr ⟨newBase, view_of_changed honly newBase htouch⟩
    | removeTasks => exact absurd htouch hkept
    | registerTask | startFrame | visit | callbackReturn => cases htouch

/-! Invariants of one registration over a run. -/

theorem run_view {P : View → Prop} (hkeep : ∀ {v v'}, P v → v.Step v' → P v')
    {events : List Event} {s' : State} (honly : s.OnlyAt slot registration)
    (hview : P (s.view slot registration))
    (hmeets : Meets State.step (fun s event => ¬ event.Touches s registration) s events)
    (hrun : Foundation.run State.step s events = some s') :
    s'.OnlyAt slot registration ∧ P (s'.view slot registration) :=
  run_invariant (I := fun s => s.OnlyAt slot registration ∧ P (s.view slot registration))
    (fun hinv hallowed hstep =>
      ⟨hinv.1.step hstep, hkeep hinv.2 (view_step_of_untouched hinv.1 hstep hallowed)⟩)
    ⟨honly, hview⟩ hmeets hrun

theorem run_view_of_kept {P : View → Prop} (hkeep : ∀ {v v'}, P v → v.Step v' → P v')
    (hchange : ∀ {v} (newBase : ℚ), P v → P (v.change newBase))
    {events : List Event} {s' : State} (honly : s.OnlyAt slot registration)
    (hview : P (s.view slot registration))
    (hmeets : Meets State.step (fun s event => ¬ event.Removes s registration) s events)
    (hrun : Foundation.run State.step s events = some s') :
    s'.OnlyAt slot registration ∧ P (s'.view slot registration) := by
  refine run_invariant (I := fun s => s.OnlyAt slot registration ∧ P (s.view slot registration))
    (fun {s event s'} hinv hallowed hstep => ⟨hinv.1.step hstep, ?_⟩) ⟨honly, hview⟩ hmeets hrun
  obtain hstep | ⟨newBase, hview⟩ := view_step_of_kept hinv.1 hstep hallowed
  · exact hkeep hinv.2 hstep
  · exact hview ▸ hchange newBase hinv.2

theorem view_step_of_any (honly : s.OnlyAt slot registration) {event : Event} {s' : State}
    (hstep : s.step event = some s') :
    (s.view slot registration).Step (s'.view slot registration) ∨
      (∃ newBase, s'.view slot registration = (s.view slot registration).change newBase) ∨
      s'.view slot registration = (s.view slot registration).remove := by
  by_cases hremoves : event.Removes s registration
  case pos => exact .inr (.inr (view_of_removes honly hstep hremoves))
  case neg =>
    obtain hstep | hchange := view_step_of_kept honly hstep hremoves
    · exact .inl hstep
    · exact .inr (.inl hchange)

theorem keep_of_any {P : View → Prop} (hkeep : ∀ {v v'}, P v → v.Step v' → P v')
    (hchange : ∀ {v} (newBase : ℚ), P v → P (v.change newBase))
    (hremove : ∀ {v : View}, P v → P v.remove) {event : Event} {s' : State}
    (honly : s.OnlyAt slot registration) (hview : P (s.view slot registration))
    (hstep : s.step event = some s') :
    s'.OnlyAt slot registration ∧ P (s'.view slot registration) := by
  refine ⟨honly.step hstep, ?_⟩
  obtain htook | ⟨newBase, htook⟩ | htook := view_step_of_any honly hstep
  · exact hkeep hview htook
  · exact htook ▸ hchange newBase hview
  · exact htook ▸ hremove hview

theorem view_registered (hs : s.Consistent) (request : Request) :
    ∃ slot, (s.phase.position slot ≠ .running) ∧
      (({ s with
          tasks := registerTask s.tasks s.registrations request s.currentTime
          registrations := s.registrations + 1 } : State).OnlyAt slot s.registrations) ∧
      ({ s with
          tasks := registerTask s.tasks s.registrations request s.currentTime
          registrations := s.registrations + 1 } : State).view slot s.registrations =
        { task := some (({} : CTask).set s.registrations request s.currentTime)
          position := s.phase.position slot
          time := s.currentTime
          frames := s.frames
          runs := [] } := by
  obtain ⟨target, hreusable, hbound, hget⟩ :=
    registerTask_spec s.tasks s.registrations request s.currentTime
  have htarget := hget target
  rw [if_pos rfl] at htarget
  refine ⟨target, ?_, ⟨?_, Nat.lt_succ_self _, ?_⟩, ?_⟩
  · intro hrunning
    have hphase : s.phase = .inCallback target := by
      revert hrunning
      cases s.phase <;> simp only [Phase.position] <;> grind
    have hold := List.getElem?_eq_getElem (hs.bounded hphase)
    simpa [CTask.reusable, (hs.marked hold).mpr hphase] using hreusable _ hold
  · exact (List.getElem?_eq_some_iff.mp htarget).1
  · intro other task htask heq
    simp only [hget] at htask
    split at htask
    case isTrue h => exact h
    case isFalse => exact absurd heq (hs.fresh htask).ne
  · have hnone : s.runs s.registrations = [] := by
      simp only [runs, List.map_eq_nil_iff, List.filter_eq_nil_iff, decide_eq_true_eq]
      exact fun execution hmem heq => (hs.past hmem).ne heq
    simp only [view, htarget, Option.bind_some]
    rw [show (({} : CTask).set s.registrations request s.currentTime).ofRegistration
      s.registrations = some _ from if_pos ⟨rfl, rfl⟩]
    congr 1

end State

end AmxModC.Task
