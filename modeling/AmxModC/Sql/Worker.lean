import Mathlib.Logic.Function.Basic

namespace AmxModC.Sql

/-! `ThreadWorker`: its own thread, and the calls that other threads make of it.  A
step runs up to the next place where another thread can come between; a section
under a lock is one step. -/

inductive WorkerState where
  | invalid
  | stopped
  | paused
  | running
  deriving DecidableEq, Repr

/-- Where the worker's thread is in `RunThread` and in the `RunFrame` that it calls. -/
inductive WorkerPc (Item : Type*) where
  /-- The head of the loop, before the state is read. -/
  | top
  /-- The state was read, the queue not yet. -/
  | queueCheck (thisState : WorkerState)
  /-- Announced as waiting, and not yet in `m_AddSignal->Wait`. -/
  | addGap
  | addWait
  /-- Signalled, and still announced as waiting. -/
  | addWoken
  | stateCheck
  /-- The state was read as paused, and `m_PauseSignal->Wait` is still to come. -/
  | pauseGap
  | pauseWait
  | frame (done : Nat) (draining : Bool)
  | runThread (item : Item) (done : Nat) (draining : Bool)
  | onTerminate (item : Item) (done : Nat) (draining : Bool)
  /-- The head of the loop that empties the queue before the thread ends. -/
  | drain
  | exited
  deriving DecidableEq, Repr

/-- `locks` says that the mutexes and the signals exist. -/
structure ThreadWorker (Item : Type*) where
  threadQueue : List Item
  state : WorkerState
  waiting : Bool
  flushType : Bool
  locks : Bool
  perFrame : Nat
  thread : WorkerPc Item
  deriving DecidableEq

variable {Item : Type*}

namespace ThreadWorker

def smDefaultThreadsPerFrame : Nat := 1

/-- A worker that `Start` has just given its thread. -/
def started : ThreadWorker Item :=
  ⟨[], .running, false, false, true, smDefaultThreadsPerFrame, .top⟩

/-- `BaseWorker::AddThreadToQueue` -/
def push (w : ThreadWorker Item) (item : Item) : ThreadWorker Item :=
  { w with threadQueue := w.threadQueue ++ [item] }

/-! The signals wake who waits for them, and are forgotten otherwise. -/

def wakeAdd (w : ThreadWorker Item) : ThreadWorker Item :=
  match w.thread with
  | .addWait => { w with thread := .addWoken }
  | _ => w

/-- `if (m_Waiting) m_AddSignal->Signal();` -/
def signalWaiting (w : ThreadWorker Item) : ThreadWorker Item :=
  if w.waiting then w.wakeAdd else w

theorem wakeAdd_of_ne {w : ThreadWorker Item} (hthread : w.thread ≠ .addWait) :
    w.wakeAdd = w := by
  unfold wakeAdd
  split
  next hwait => exact absurd hwait hthread
  next => rfl

theorem signalWaiting_of_ne {w : ThreadWorker Item} (hthread : w.thread ≠ .addWait) :
    w.signalWaiting = w := by
  rw [signalWaiting, wakeAdd_of_ne hthread, ite_self]

theorem signalWaiting_of_addWait {w : ThreadWorker Item} (hthread : w.thread = .addWait)
    (hannounced : w.waiting = true) : w.signalWaiting = { w with thread := .addWoken } := by
  simp [signalWaiting, hannounced, wakeAdd, hthread]

/-- After `m_PauseSignal->Wait` the local copy of the state is still paused, and the
thread goes on to the frame. -/
def wakePause (w : ThreadWorker Item) : ThreadWorker Item :=
  match w.thread with
  | .pauseWait => { w with thread := .frame 0 false }
  | _ => w

/-- The place after a `RunFrame`. -/
def afterFrame (draining : Bool) : WorkerPc Item := if draining then .drain else .top

def runThread (w : ThreadWorker Item) : Option (ThreadWorker Item) :=
  match w.thread with
  | .top =>
      if w.state = .stopped then some { w with thread := .stateCheck }
      else some { w with thread := .queueCheck w.state }
  | .queueCheck thisState =>
      if w.threadQueue = [] then
        -- the state tested here is the copy read before
        if thisState = .stopped then some { w with waiting := true, thread := .exited }
        else some { w with waiting := true, thread := .addGap }
      else some { w with thread := .stateCheck }
  | .addGap => some { w with thread := .addWait }
  | .addWait => none
  | .addWoken => some { w with waiting := false, thread := .stateCheck }
  | .stateCheck =>
      match w.state with
      | .paused => some { w with thread := .pauseGap }
      | .stopped =>
          if w.flushType then some { w with thread := .exited }
          else some { w with thread := .drain }
      | .running | .invalid => some { w with thread := .frame 0 false }
  | .pauseGap => some { w with thread := .pauseWait }
  | .pauseWait => none
  | .frame done draining =>
      if done < w.perFrame then
        match w.threadQueue with
        | [] => some { w with thread := afterFrame draining }
        | item :: rest =>
            some { w with threadQueue := rest, thread := .runThread item done draining }
      else some { w with thread := afterFrame draining }
  | .runThread item done draining => some { w with thread := .onTerminate item done draining }
  | .onTerminate _ done draining => some { w with thread := .frame (done + 1) draining }
  | .drain =>
      if w.threadQueue = [] then some { w with thread := .exited }
      else some { w with thread := .frame 0 true }
  | .exited => none

end ThreadWorker

/-- Where a thread is in a call of the worker's methods.  `stopping` marks the
`Unpause` that `Stop` makes. -/
inductive WorkerCall (Item : Type*) where
  | makeThread (item : Item)
  | addThreadToQueue (item : Item)
  | enqueue (item : Item)
  | pause
  | setPaused
  | unpause (stopping : Bool)
  | setRunning (stopping : Bool)
  | signalPause (stopping : Bool)
  | checkWaiting (stopping : Bool)
  | signalAdd (stopping : Bool)
  | stop (flushCancel : Bool)
  | setStopped (flushCancel : Bool)
  | signalStop
  | waitForThread
  | flush
  | returned (result : Bool)
  deriving DecidableEq, Repr

namespace WorkerCall

/-- The end of `Unpause`. -/
def unpaused (stopping result : Bool) : WorkerCall Item :=
  if stopping then .waitForThread else .returned result

theorem unpaused_ne_flush (stopping result : Bool) :
    (unpaused stopping result : WorkerCall Item) ≠ .flush := by
  cases stopping with
  | true => simp [unpaused]
  | false => simp [unpaused]

/-- One step of a call; none where it has returned, waits for the worker's thread, or
uses a lock that is gone. -/
def step (call : WorkerCall Item) (w : ThreadWorker Item) :
    Option (WorkerCall Item × ThreadWorker Item) :=
  match call with
  | .makeThread item =>
      if w.state = .running then some (.addThreadToQueue item, w) else some (.returned false, w)
  | .addThreadToQueue item =>
      if w.state = .stopped ∨ w.state = .invalid then some (.returned true, w)
      else some (.enqueue item, w)
  | .enqueue item =>
      if w.locks then some (.returned true, (w.push item).signalWaiting) else none
  | .pause => some (if w.state = .running then .setPaused else .returned false, w)
  | .setPaused => if w.locks then some (.returned true, { w with state := .paused }) else none
  | .unpause stopping =>
      some (if w.state = .paused then .setRunning stopping else unpaused stopping false, w)
  | .setRunning stopping =>
      if w.locks then some (.signalPause stopping, { w with state := .running }) else none
  | .signalPause stopping => if w.locks then some (.checkWaiting stopping, w.wakePause) else none
  | .checkWaiting stopping =>
      some (if w.waiting then .signalAdd stopping else unpaused stopping true, w)
  | .signalAdd stopping => if w.locks then some (unpaused stopping true, w.wakeAdd) else none
  | .stop flushCancel =>
      some (if w.state = .invalid ∨ w.state = .stopped then .returned false
        else .setStopped flushCancel, w)
  | .setStopped flushCancel =>
      if w.locks then
        some (if w.state = .paused then .unpause true else .signalStop,
          { w with state := .stopped, flushType := flushCancel })
      else none
  | .signalStop =>
      if w.locks then some (.waitForThread, w.signalWaiting) else none
  | .waitForThread =>
      match w.thread with
      | .exited => some (.flush, w)
      | _ => none
  -- the rest of `Stop`: what is left in the queue is cancelled, the locks are destroyed
  | .flush => some (.returned true, { w with threadQueue := [], locks := false })
  | .returned _ => none

end WorkerCall

end AmxModC.Sql
