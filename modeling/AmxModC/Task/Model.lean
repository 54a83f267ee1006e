import Mathlib.Data.Rat.Defs
import Mathlib.Algebra.Order.Field.Rat
import AmxModC.Foundation.Run
import AmxModC.Machine

namespace AmxModC.Task

/-! The task manager: its slots, the calls on them and the frame that runs them.
Times are exact rationals where the source has `float` and `double`. -/

/-- One slot of the task list.  `registration` is history: the number of the
`registerTask` call that last filled the slot. -/
structure CTask where
  plugin : Option Amx := none
  id : Cell := 0
  func : Int := -1
  repeatCount : Int := 0
  inExecute : Bool := false
  loop : Bool := false
  afterStart : Bool := false
  beforeEnd : Bool := false
  base : ℚ := 0
  paramLen : Nat := 0
  params : Option (List Cell) := none
  free : Bool := true
  nextExecTime : ℚ := 0
  registration : Nat := 0
deriving DecidableEq, Repr

structure Request where
  plugin : Amx
  func : Int
  flags : BitVec 32
  id : Cell
  base : ℚ
  params : List Cell
  repeatCount : Int
deriving DecidableEq, Repr

namespace CTask

/-- `CTask::clear`.  The mark of a running callback and the parameter length stay. -/
def clear (task : CTask) : CTask :=
  { task with
    free := true
    func := if 0 ≤ task.func then -1 else task.func
    params := none
    plugin := none
    id := 0
    base := 0
    repeatCount := 0
    loop := false
    afterStart := false
    beforeEnd := false
    nextExecTime := 0 }

def set (task : CTask) (registration : Nat) (request : Request) (currentTime : ℚ) : CTask :=
  let task := task.clear
  { task with
    free := false
    plugin := some request.plugin
    func := request.func
    id := request.id
    base := request.base
    inExecute := false
    loop := request.flags &&& 2 ≠ 0 ∨ request.flags &&& 1 ≠ 0
    repeatCount :=
      if request.flags &&& 2 ≠ 0 then -1
      else if request.flags &&& 1 ≠ 0 then request.repeatCount
      else task.repeatCount
    afterStart := request.flags &&& 4 ≠ 0
    beforeEnd := request.flags &&& 8 ≠ 0
    nextExecTime := currentTime + request.base
    paramLen := if request.params = [] then 0 else request.params.length + 1
    params := if request.params = [] then none else some (request.params ++ [0])
    registration := registration }

def changeBase (task : CTask) (newBase : ℚ) : CTask :=
  { task with base := newBase }

def resetNextExecTime (task : CTask) (currentTime : ℚ) : CTask :=
  { task with nextExecTime := currentTime + task.base }

/-- The first half of `executeIfRequired`: does the task run at this time? -/
def Due (task : CTask) (currentTime : ℚ) : Prop :=
  if task.afterStart then task.base ≤ currentTime + 1
  else if task.beforeEnd then currentTime - 1 ≤ task.base
  else task.nextExecTime ≤ currentTime

instance (task : CTask) (currentTime : ℚ) : Decidable (task.Due currentTime) := by
  unfold Due
  infer_instance

def HasCall (task : CTask) : Prop := ¬ (task.loop = true ∧ task.repeatCount = 0)

instance (task : CTask) : Decidable task.HasCall :=
  inferInstanceAs (Decidable (¬ _))

def finish (task : CTask) : CTask :=
  if task.free then task
  else if task.loop then
    if task.repeatCount = -1 then
      { task with nextExecTime := task.nextExecTime + task.base }
    else if task.repeatCount - 1 ≤ 0 then
      { task with repeatCount := task.repeatCount - 1 }.clear
    else
      { task with
        repeatCount := task.repeatCount - 1
        nextExecTime := task.nextExecTime + task.base }
  else task.clear

def leave (task : CTask) : CTask := { task with inExecute := false }.finish

/-- `CTaskDescriptor(id, amx)` against a slot; no `amx` matches every plugin. -/
def Matches (task : CTask) (id : Cell) (amx : Option Amx) : Prop :=
  task.free = false ∧ (∀ wanted ∈ amx, task.plugin = some wanted) ∧ task.id = id

instance (task : CTask) (id : Cell) (amx : Option Amx) : Decidable (task.Matches id amx) := by
  unfold Matches
  infer_instance

/-- `CTaskDescriptor(0, NULL, true)`: a slot that may be given to a new task. -/
def reusable (task : CTask) : Bool := task.free && !task.inExecute

end CTask

/-! The list operations of the manager. -/

def registerTask (tasks : List CTask) (registration : Nat) (request : Request)
    (currentTime : ℚ) : List CTask :=
  match tasks.findIdx? CTask.reusable with
  | some slot => tasks.modify slot fun task => task.set registration request currentTime
  | none => tasks ++ [({} : CTask).set registration request currentTime]

/-- What `removeTasks` and `changeTasks` share: the matching slots are updated one
after another and counted. -/
def updateMatching (tasks : List CTask) (id : Cell) (amx : Option Amx)
    (update : CTask → CTask) : Nat × List CTask :=
  (tasks.countP fun task => task.Matches id amx,
    tasks.map fun task => if task.Matches id amx then update task else task)

def removeTasks (tasks : List CTask) (id : Cell) (amx : Option Amx) : Nat × List CTask :=
  updateMatching tasks id amx CTask.clear

def changeTasks (tasks : List CTask) (id : Cell) (amx : Option Amx) (newBase currentTime : ℚ) :
    Nat × List CTask :=
  updateMatching tasks id amx fun task =>
    (task.changeBase newBase).resetNextExecTime currentTime

/-! The manager between two calls into it. -/

/-- Where `startFrame` is in its loop over the list. -/
inductive Phase where
  | idle
  | scanning (slot : Nat)
  | inCallback (slot : Nat)
deriving DecidableEq, Repr

structure Execution where
  registration : Nat
  frame : Nat
  func : Int
  params : Option (List Cell)
  id : Cell
deriving DecidableEq, Repr

/-- The manager's list and clock, the place of the frame in progress, and the history:
how many registrations were made, the times of the frames started and what ran. -/
structure State where
  tasks : List CTask := []
  currentTime : ℚ := 0
  phase : Phase := .idle
  registrations : Nat := 0
  frames : List ℚ := []
  executions : List Execution := []
deriving DecidableEq, Repr

inductive Event where
  | registerTask (request : Request)
  | removeTasks (id : Cell) (amx : Option Amx)
  | changeTasks (id : Cell) (amx : Option Amx) (newBase : ℚ)
  | startFrame (time : ℚ)
  | visit
  | callbackReturn
deriving DecidableEq, Repr

def Phase.callable : Phase → Bool
  | .scanning _ => false
  | _ => true

def CTask.execution (task : CTask) (frame : Nat) : Execution where
  registration := task.registration
  frame := frame
  func := task.func
  params := if task.paramLen = 0 then none else task.params
  id := task.id

namespace State

/-- One turn of the loop in `startFrame`, up to the call of the task's function. -/
def visit (s : State) (slot : Nat) : State :=
  match s.tasks[slot]? with
  | none => { s with phase := .idle }
  | some task =>
      if task.free then { s with phase := .scanning (slot + 1) }
      else if ¬ task.Due s.currentTime then { s with phase := .scanning (slot + 1) }
      else if task.HasCall then
        { s with
          tasks := s.tasks.modify slot fun task => { task with inExecute := true }
          phase := .inCallback slot
          executions := s.executions ++ [task.execution (s.frames.length - 1)] }
      else
        { s with
          tasks := s.tasks.modify slot CTask.finish
          phase := .scanning (slot + 1) }

def callbackReturn (s : State) (slot : Nat) : State :=
  { s with
    tasks := s.tasks.modify slot CTask.leave
    phase := .scanning (slot + 1) }

def step (s : State) : Event → Option State
  | .registerTask request =>
      if s.phase.callable then
        some { s with
          tasks := Task.registerTask s.tasks s.registrations request s.currentTime
          registrations := s.registrations + 1 }
      else none
  | .removeTasks id amx =>
      if s.phase.callable then
        some { s with tasks := (Task.removeTasks s.tasks id amx).2 }
      else none
  | .changeTasks id amx newBase =>
      if s.phase.callable then
        some { s with tasks := (Task.changeTasks s.tasks id amx newBase s.currentTime).2 }
      else none
  | .startFrame time =>
      if s.phase = .idle then
        some { s with currentTime := time, phase := .scanning 0, frames := s.frames ++ [time] }
      else none
  | .visit =>
      match s.phase with
      | .scanning slot => some (s.visit slot)
      | _ => none
  | .callbackReturn =>
      match s.phase with
      | .inCallback slot => some (s.callbackReturn slot)
      | _ => none

def runs (s : State) (registration : Nat) : List Nat :=
  (s.executions.filter fun execution => execution.registration = registration).map
    Execution.frame

def finishedFrames (s : State) : List ℚ :=
  if s.phase = .idle then s.frames else s.frames.dropLast

end State

end AmxModC.Task
