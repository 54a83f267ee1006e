import AmxModC.Sql.Ledger
import AmxModC.Sql.Requests

namespace AmxModC.Sql

/-! What a step of the two threads can do, and where it leaves the queries. -/

variable {Item : Type*}

def WorkerPc.Steady : WorkerPc Item → Prop
  | .drain | .exited => False
  | .frame _ draining => draining = false
  | .runThread _ _ draining => draining = false
  | .onTerminate _ _ draining => draining = false
  | _ => True

def WorkerPc.Free : WorkerPc Item → Prop
  | .runThread .. | .onTerminate .. => False
  | _ => True

def WorkerPc.Plain : WorkerPc Item → Prop
  | .queueCheck _ | .addGap | .addWait | .pauseGap | .pauseWait | .exited => False
  | _ => True

namespace ThreadWorker

structure Sound (w : ThreadWorker Item) : Prop where
  locks : w.locks = true
  flushType : w.flushType = false
  perFrame : w.perFrame = 1
  state : w.state = .running ∨ w.state = .stopped
  steady : w.state = .running → w.thread.Steady
  check : ∀ thisState, w.thread = .queueCheck thisState → thisState = .running
  pauseGap : w.thread ≠ .pauseGap
  pauseWait : w.thread ≠ .pauseWait
  announcedGap : w.thread = .addGap → w.waiting = true
  announcedWait : w.thread = .addWait → w.waiting = true
  empty : w.thread = .exited → w.threadQueue = []

theorem sound_started : (started : ThreadWorker Item).Sound where
  locks := rfl
  flushType := rfl
  perFrame := rfl
  state := .inl rfl
  steady := fun _ => trivial
  check := fun thisState hthread => by simp [started] at hthread
  pauseGap := by simp [started]
  pauseWait := by simp [started]
  announcedGap := by simp [started]
  announcedWait := by simp [started]
  empty := fun _ => rfl

section

variable {w after : ThreadWorker Item}

theorem Sound.not_paused (h : w.Sound) : w.state ≠ .paused := by
  rcases h.state with hstate | hstate
  · simp [hstate]
  · simp [hstate]

theorem Sound.steady_at (h : w.Sound) {thread : WorkerPc Item} (hthread : w.thread = thread)
    (hrunning : w.state = .running) : thread.Steady :=
  hthread ▸ h.steady hrunning

def ahead (w : ThreadWorker Item) : List Item :=
  match w.thread with
  | .runThread item _ _ => item :: w.threadQueue
  | _ => w.threadQueue

def behind (w : ThreadWorker Item) : List Item :=
  match w.thread with
  | .onTerminate item _ _ => [item]
  | _ => []

theorem ahead_of_free (hfree : w.thread.Free) : w.ahead = w.threadQueue := by
  unfold ahead
  split
  next hthread => simp [WorkerPc.Free, hthread] at hfree
  next => rfl

theorem behind_of_free (hfree : w.thread.Free) : w.behind = [] := by
  unfold behind
  split
  next hthread => simp [WorkerPc.Free, hthread] at hfree
  next => rfl

inductive Ran : ThreadWorker Item → ThreadWorker Item → Prop where
  | quiet {w after : ThreadWorker Item} (hfree : w.thread.Free) (hahead : after.ahead = w.ahead)
      (hbehind : after.behind = []) : Ran w after
  | runThread {w : ThreadWorker Item} {item : Item} {done : Nat} {draining : Bool}
      (hthread : w.thread = .runThread item done draining) :
      Ran w { w with thread := .onTerminate item done draining }
  | onTerminate {w : ThreadWorker Item} {item : Item} {done : Nat} {draining : Bool}
      (hthread : w.thread = .onTerminate item done draining) :
      Ran w { w with thread := .frame (done + 1) draining }

theorem Sound.of_plain (hlocks : w.locks = true) (hflushType : w.flushType = false)
    (hperFrame : w.perFrame = 1) (hstate : w.state = .running ∨ w.state = .stopped)
    (hsteady : w.state = .running → w.thread.Steady) (hplain : w.thread.Plain) : w.Sound := by
  have hne : ∀ thread : WorkerPc Item, ¬thread.Plain → w.thread ≠ thread :=
    fun thread hnot heq => hnot (heq ▸ hplain)
  refine ⟨hlocks, hflushType, hperFrame, hstate, hsteady, fun thisState hcheck => ?_,
    hne _ not_false, hne _ not_false, fun hgap => ?_, fun hwait => ?_, fun hexited => ?_⟩
  · exact absurd hcheck (hne _ not_false)
  · exact absurd hgap (hne _ not_false)
  · exact absurd hwait (hne _ not_false)
  · exact absurd hexited (hne _ not_false)

theorem Ran.move {thread : WorkerPc Item} (waiting : Bool) (hfree : w.thread.Free)
    (hfree' : thread.Free) : Ran w { w with waiting := waiting, thread := thread } := by
  refine .quiet hfree ?_ (behind_of_free hfree')
  rw [ahead_of_free hfree, ahead_of_free hfree']

theorem Sound.move (h : w.Sound) {thread : WorkerPc Item} (waiting : Bool)
    (hfree : w.thread.Free) (hfree' : thread.Free) (hplain : thread.Plain)
    (hsteady : w.state = .running → thread.Steady) :
    Sound { w with waiting := waiting, thread := thread } ∧
      Ran w { w with waiting := waiting, thread := thread } :=
  ⟨.of_plain h.locks h.flushType h.perFrame h.state hsteady hplain, .move waiting hfree hfree'⟩

theorem Sound.afterFrame (h : w.Sound) {done : Nat} {draining : Bool}
    (hthread : w.thread = .frame done draining) :
    Sound { w with thread := afterFrame draining } ∧
      Ran w { w with thread := afterFrame draining } := by
  have hfree : w.thread.Free := by simp [WorkerPc.Free, hthread]
  cases draining with
  | false => exact h.move w.waiting hfree trivial trivial fun _ => trivial
  | true =>
      refine h.move w.waiting hfree trivial trivial fun hrunning => ?_
      exact absurd (h.steady_at hthread hrunning).symm Bool.false_ne_true

theorem Sound.runThread (h : w.Sound) (hstep : w.runThread = some after) :
    after.Sound ∧ Ran w after := by
  cases hthread : w.thread with
  | top =>
      have hfree : w.thread.Free := by simp [WorkerPc.Free, hthread]
      simp only [ThreadWorker.runThread, hthread] at hstep
      split at hstep
      next =>
        obtain rfl := Option.some.inj hstep
        exact h.move w.waiting hfree trivial trivial fun _ => trivial
      next hstate =>
        obtain rfl := Option.some.inj hstep
        refine ⟨⟨h.locks, h.flushType, h.perFrame, h.state, fun _ => trivial,
          fun thisState hcheck => ?_, nofun, nofun, nofun, nofun, nofun⟩,
          .move w.waiting hfree trivial⟩
        rw [← WorkerPc.queueCheck.inj hcheck]
        exact h.state.resolve_right hstate
  | queueCheck thisState =>
      have hfree : w.thread.Free := by simp [WorkerPc.Free, hthread]
      simp only [ThreadWorker.runThread, hthread] at hstep
      split at hstep
      next =>
        split at hstep
        next hstopped => simp [h.check thisState hthread] at hstopped
        next =>
          obtain rfl := Option.some.inj hstep
          exact ⟨⟨h.locks, h.flushType, h.perFrame, h.state, fun _ => trivial, nofun, nofun, nofun,
            fun _ => rfl, nofun, nofun⟩, .move true hfree trivial⟩
      next =>
        obtain rfl := Option.some.inj hstep
        exact h.move w.waiting hfree trivial trivial fun _ => trivial
  | addGap =>
      have hfree : w.thread.Free := by simp [WorkerPc.Free, hthread]
      simp only [ThreadWorker.runThread, hthread] at hstep
      obtain rfl := Option.some.inj hstep
      exact ⟨⟨h.locks, h.flushType, h.perFrame, h.state, fun _ => trivial, nofun, nofun, nofun,
        nofun, fun _ => h.announcedGap hthread, nofun⟩, .move w.waiting hfree trivial⟩
  | addWait => simp [ThreadWorker.runThread, hthread] at hstep
  | addWoken =>
      have hfree : w.thread.Free := by simp [WorkerPc.Free, hthread]
      simp only [ThreadWorker.runThread, hthread] at hstep
      obtain rfl := Option.some.inj hstep
      exact h.move false hfree trivial trivial fun _ => trivial
  | stateCheck =>
      have hfree : w.thread.Free := by simp [WorkerPc.Free, hthread]
      simp only [ThreadWorker.runThread, hthread] at hstep
      split at hstep
      next hstate => exact absurd hstate h.not_paused
      next hstate =>
        split at hstep
        next hflush => simp [h.flushType] at hflush
        next =>
          obtain rfl := Option.some.inj hstep
          refine h.move w.waiting hfree trivial trivial fun hrunning => ?_
          simp [hstate] at hrunning
      next =>
        obtain rfl := Option.some.inj hstep
        exact h.move w.waiting hfree trivial trivial fun _ => rfl
      next =>
        obtain rfl := Option.some.inj hstep
        exact h.move w.waiting hfree trivial trivial fun _ => rfl
  | pauseGap => exact absurd hthread h.pauseGap
  | pauseWait => exact absurd hthread h.pauseWait
  | frame done draining =>
      simp only [ThreadWorker.runThread, hthread] at hstep
      split at hstep
      next =>
        split at hstep
        next =>
          obtain rfl := Option.some.inj hstep
          exact h.afterFrame hthread
        next item rest hqueue =>
          obtain rfl := Option.some.inj hstep
          have hfree : w.thread.Free := by simp [WorkerPc.Free, hthread]
          refine ⟨.of_plain h.locks h.flushType h.perFrame h.state (fun hrunning => ?_) trivial,
            .quiet hfree ?_ rfl⟩
          · have hkept := h.steady_at hthread hrunning
            exact hkept
          · rw [ahead_of_free hfree, hqueue]
            rfl
      next =>
        obtain rfl := Option.some.inj hstep
        exact h.afterFrame hthread
  | runThread item done draining =>
      simp only [ThreadWorker.runThread, hthread] at hstep
      obtain rfl := Option.some.inj hstep
      refine ⟨.of_plain h.locks h.flushType h.perFrame h.state (fun hrunning => ?_) trivial,
        .runThread hthread⟩
      have hkept := h.steady_at hthread hrunning
      exact hkept
  | onTerminate item done draining =>
      simp only [ThreadWorker.runThread, hthread] at hstep
      obtain rfl := Option.some.inj hstep
      refine ⟨.of_plain h.locks h.flushType h.perFrame h.state (fun hrunning => ?_) trivial,
        .onTerminate hthread⟩
      have hkept := h.steady_at hthread hrunning
      exact hkept
  | drain =>
      have hfree : w.thread.Free := by simp [WorkerPc.Free, hthread]
      have hstopped : w.state ≠ .running := by
        exact h.steady_at hthread
      simp only [ThreadWorker.runThread, hthread] at hstep
      split at hstep
      next hqueue =>
        obtain rfl := Option.some.inj hstep
        exact ⟨⟨h.locks, h.flushType, h.perFrame, h.state,
          fun hrunning => absurd hrunning hstopped, nofun, nofun, nofun, nofun, nofun,
          fun _ => hqueue⟩, .move w.waiting hfree trivial⟩
      next =>
        obtain rfl := Option.some.inj hstep
        exact h.move w.waiting hfree trivial trivial fun hrunning => absurd hrunning hstopped
  | exited => simp [ThreadWorker.runThread, hthread] at hstep

end

theorem state_runThread {w after : ThreadWorker Item} (hstep : w.runThread = some after) :
    after.state = w.state := by
  unfold runThread at hstep
  grind

theorem Sound.stop {w : ThreadWorker Item} (h : w.Sound) :
    Sound { w with state := .stopped, flushType := false } where
  locks := h.locks
  flushType := rfl
  perFrame := h.perFrame
  state := .inr rfl
  steady := nofun
  check := h.check
  pauseGap := h.pauseGap
  pauseWait := h.pauseWait
  announcedGap := h.announcedGap
  announcedWait := h.announcedWait
  empty := h.empty

theorem signalWaiting_eq (w : ThreadWorker Item) :
    w.signalWaiting = w ∨
      (w.thread = .addWait ∧ w.signalWaiting = { w with thread := .addWoken }) := by
  by_cases hthread : w.thread = .addWait
  · cases hwaiting : w.waiting with
    | false => exact .inl (by simp [signalWaiting, hwaiting])
    | true => exact .inr ⟨hthread, hwaiting ▸ signalWaiting_of_addWait hthread hwaiting⟩
  · exact .inl (signalWaiting_of_ne hthread)

theorem Sound.signalWaiting {w : ThreadWorker Item} (h : w.Sound) : w.signalWaiting.Sound := by
  rcases w.signalWaiting_eq with hsame | ⟨-, hwoken⟩
  · exact hsame.symm ▸ h
  · rw [hwoken]
    exact .of_plain h.locks h.flushType h.perFrame h.state (fun _ => trivial) trivial

theorem ahead_signalWaiting (w : ThreadWorker Item) : w.signalWaiting.ahead = w.ahead := by
  rcases w.signalWaiting_eq with hsame | ⟨hthread, hwoken⟩
  · rw [hsame]
  · simp [hwoken, ahead, hthread]

theorem behind_signalWaiting (w : ThreadWorker Item) : w.signalWaiting.behind = w.behind := by
  rcases w.signalWaiting_eq with hsame | ⟨hthread, hwoken⟩
  · rw [hsame]
  · simp [hwoken, behind, hthread]

@[simp] theorem state_signalWaiting (w : ThreadWorker Item) :
    w.signalWaiting.state = w.state := by
  rcases w.signalWaiting_eq with hsame | ⟨-, hwoken⟩
  · rw [hsame]
  · rw [hwoken]

theorem Sound.push {w : ThreadWorker Item} (h : w.Sound) (hrunning : w.state = .running)
    (item : Item) : (w.push item).Sound := by
  have hexited : w.thread ≠ .exited := by
    intro hthread
    exact h.steady_at hthread hrunning
  exact ⟨h.locks, h.flushType, h.perFrame, h.state, h.steady, h.check, h.pauseGap, h.pauseWait,
    h.announcedGap, h.announcedWait, fun hthread => absurd hthread hexited⟩

theorem ahead_push (w : ThreadWorker Item) (item : Item) :
    (w.push item).ahead = w.ahead ++ [item] := by
  cases hthread : w.thread with
  | runThread item' done draining => simp [ahead, push, hthread]
  | _ => simp [ahead, push, hthread]

@[simp] theorem behind_push (w : ThreadWorker Item) (item : Item) :
    (w.push item).behind = w.behind := rfl

end ThreadWorker

/-- The methods that `SQL_ThreadQuery` can be in. -/
inductive Adds : WorkerCall Nat → Prop where
  | makeThread (object : Nat) : Adds (.makeThread object)
  | addThreadToQueue (object : Nat) : Adds (.addThreadToQueue object)
  | enqueue (object : Nat) : Adds (.enqueue object)

/-- How far `Stop(false)` can be. -/
inductive Stops (w : ThreadWorker Nat) : WorkerCall Nat → Prop where
  | stop (hstate : w.state = .running) : Stops w (.stop false)
  | setStopped (hstate : w.state = .running) : Stops w (.setStopped false)
  | signalStop (hstate : w.state = .stopped) : Stops w .signalStop
  | waitForThread (hstate : w.state = .stopped) : Stops w .waitForThread
  | flush (hstate : w.state = .stopped) (hexited : w.thread = .exited) : Stops w .flush

namespace MainFrame

inductive Works : MainFrame → Prop where
  | idle : Works .idle
  | drain : Works (.drain false)
  | handler (object : Nat) (calls : List QueryCall) : Works (.handler false object calls)

inductive Outlives : MainFrame → Prop where
  | idle : Outlives .idle
  | drain (unloading : Bool) : Outlives (.drain unloading)
  | handler (unloading : Bool) (object : Nat) (calls : List QueryCall) :
      Outlives (.handler unloading object calls)

inductive Asks : MainFrame → QueryCall → MainFrame → Prop where
  | plugin (call : QueryCall) : Asks .idle call .idle
  | handler (unloading : Bool) (object : Nat) (call : QueryCall) (calls : List QueryCall) :
      Asks (.handler unloading object (call :: calls)) call (.handler unloading object calls)

theorem Asks.ne_stopping {frame frame' : MainFrame} {call : QueryCall}
    (h : frame.Asks call frame') (stop : WorkerCall Nat) : frame' ≠ .stopping stop := by
  cases h with
  | plugin => simp
  | handler => simp

end MainFrame

namespace Threading

inductive Phase : Option (ThreadWorker Nat) → MainFrame → Option (WorkerCall Nat) → Prop where
  | gone {frame : MainFrame} (hframe : frame.Outlives) : Phase none frame none
  | working {w : ThreadWorker Nat} {frame : MainFrame} {adding : Option (WorkerCall Nat)}
      (hsound : w.Sound) (hrunning : w.state = .running) (hframe : frame.Works)
      (hadding : ∀ call, adding = some call → Adds call) : Phase (some w) frame adding
  | stopping {w : ThreadWorker Nat} {call : WorkerCall Nat} (hsound : w.Sound)
      (hstops : Stops w call) : Phase (some w) (.stopping call) none

def Controlled (s : Threading) : Prop := Phase s.worker s.frame s.adding

theorem controlled_start : start.Controlled := .gone .idle

/-- The call of `SQL_ThreadQuery` that a step makes. -/
def asked (s : Threading) : Event → Option QueryCall
  | .threadQuery call => some call
  | .main _ =>
      match s.adding, s.frame with
      | none, .handler _ _ (call :: _) => some call
      | _, _ => none
  | _ => none

inductive Took (s : Threading) : Event → Threading → Prop where
  | stay {event : Event} (hidle : s.Idle) : Took s event s
  | load (hidle : s.Idle) (hworker : s.worker = none) :
      Took s .onPluginsLoaded { s with worker := some .started }
  | accept {event : Event} {w : ThreadWorker Nat} {frame : MainFrame} {info : ConnectInfo}
      {call : QueryCall} (hworker : s.worker = some w) (hadding : s.adding = none)
      (hasks : s.frame.Asks call frame) (hasked : s.asked event = some call)
      (hcn : call.cn = some info) (hfwd : ¬call.fwd < 1) :
      Took s event ({ s with frame := frame }.accept info call)
  | refuse {event : Event} {frame : MainFrame} {call : QueryCall}
      (hasks : s.frame.Asks call frame) : Took s event { s with frame := frame }
  | startFrame (hframe : s.frame = .idle) : Took s .startFrame { s with frame := .drain false }
  | unload (hframe : s.frame = .idle) :
      Took s .onPluginsUnloading { s with frame := .stopping (.stop false) }
  | made {calls : List QueryCall} {object : Nat} (hadding : s.adding = some (.makeThread object)) :
      Took s (.main calls) { s with adding := some (.addThreadToQueue object) }
  | checked {calls : List QueryCall} {object : Nat}
      (hadding : s.adding = some (.addThreadToQueue object)) :
      Took s (.main calls) { s with adding := some (.enqueue object) }
  | enqueued {calls : List QueryCall} {w : ThreadWorker Nat} {object : Nat}
      (hworker : s.worker = some w) (hadding : s.adding = some (.enqueue object)) :
      Took s (.main calls) { s with worker := some (w.push object).signalWaiting, adding := none }
  | stopChecked {calls : List QueryCall} (hframe : s.frame = .stopping (.stop false)) :
      Took s (.main calls) { s with frame := .stopping (.setStopped false) }
  | stopSet {calls : List QueryCall} {w : ThreadWorker Nat} (hworker : s.worker = some w)
      (hframe : s.frame = .stopping (.setStopped false)) :
      Took s (.main calls)
        { s with
          worker := some { w with state := .stopped, flushType := false }
          frame := .stopping .signalStop }
  | stopSignalled {calls : List QueryCall} {w : ThreadWorker Nat} (hworker : s.worker = some w)
      (hframe : s.frame = .stopping .signalStop) :
      Took s (.main calls)
        { s with worker := some w.signalWaiting, frame := .stopping .waitForThread }
  | joined {calls : List QueryCall} {w : ThreadWorker Nat} (hworker : s.worker = some w)
      (hframe : s.frame = .stopping .waitForThread) (hexited : w.thread = .exited) :
      Took s (.main calls) { s with frame := .stopping .flush }
  | deleted {calls : List QueryCall} {w : ThreadWorker Nat} (hworker : s.worker = some w)
      (hframe : s.frame = .stopping .flush) (hexited : w.thread = .exited)
      (hqueue : w.threadQueue = []) :
      Took s (.main calls) { s with worker := none, frame := .drain true }
  | drained {calls : List QueryCall} {unloading : Bool} (hframe : s.frame = .drain unloading)
      (hqueue : s.threadQueue = []) : Took s (.main calls) { s with frame := .idle }
  | popped {calls : List QueryCall} {unloading : Bool} {object : Nat} {rest : List Nat}
      (hframe : s.frame = .drain unloading) (hqueue : s.threadQueue = object :: rest) :
      Took s (.main calls)
        { s with
          books := s.books.execute object
          threadQueue := rest
          frame := .handler unloading object calls }
  | handled {calls : List QueryCall} {unloading : Bool} {object : Nat}
      (hframe : s.frame = .handler unloading object []) :
      Took s (.main calls)
        { s with
          books := s.books.invalidate object
          freeThreads := object :: s.freeThreads
          frame := .drain unloading }
  | quiet {answer : DriverAnswer} {w after : ThreadWorker Nat} (hworker : s.worker = some w)
      (hfree : w.thread.Free) (hahead : after.ahead = w.ahead) (hbehind : after.behind = [])
      (hstep : w.runThread = some after) : Took s (.worker answer) { s with worker := some after }
  | answered {answer : DriverAnswer} {w : ThreadWorker Nat} {object done : Nat} {draining : Bool}
      (hworker : s.worker = some w) (hthread : w.thread = .runThread object done draining) :
      Took s (.worker answer)
        { s with
          worker := some { w with thread := .onTerminate object done draining }
          books := s.books.run object answer }
  | terminated {answer : DriverAnswer} {w : ThreadWorker Nat} {object done : Nat} {draining : Bool}
      (hworker : s.worker = some w) (hthread : w.thread = .onTerminate object done draining) :
      Took s (.worker answer)
        { s with
          worker := some { w with thread := .frame (done + 1) draining }
          threadQueue := object :: s.threadQueue }

section

variable {s s' : Threading}

@[simp] theorem take_worker : s.take.2.worker = s.worker := by
  unfold take
  split
  next => rfl
  next => rfl

@[simp] theorem take_frame : s.take.2.frame = s.frame := by
  unfold take
  split
  next => rfl
  next => rfl

@[simp] theorem take_threadQueue : s.take.2.threadQueue = s.threadQueue := by
  unfold take
  split
  next => rfl
  next => rfl

@[simp] theorem accept_worker (info : ConnectInfo) (call : QueryCall) :
    (s.accept info call).worker = s.worker := take_worker

@[simp] theorem accept_frame (info : ConnectInfo) (call : QueryCall) :
    (s.accept info call).frame = s.frame := take_frame

@[simp] theorem accept_threadQueue (info : ConnectInfo) (call : QueryCall) :
    (s.accept info call).threadQueue = s.threadQueue := take_threadQueue

theorem Phase.asks {worker : Option (ThreadWorker Nat)} {frame frame' : MainFrame}
    {adding : Option (WorkerCall Nat)} {call : QueryCall} (h : Phase worker frame adding)
    (hasks : frame.Asks call frame') : Phase worker frame' adding := by
  cases hasks with
  | plugin => exact h
  | handler unloading object call calls =>
      cases h with
      | gone => exact .gone (.handler ..)
      | working hsound hrunning hframe hadding =>
          cases hframe with
          | handler => exact .working hsound hrunning (.handler ..) hadding

theorem Phase.idle {w : ThreadWorker Nat} {adding : Option (WorkerCall Nat)}
    (h : Phase (some w) .idle adding) : w.Sound ∧ w.state = .running := by
  cases h with
  | working hsound hrunning => exact ⟨hsound, hrunning⟩

theorem Phase.sound {w : ThreadWorker Nat} {frame : MainFrame} {adding : Option (WorkerCall Nat)}
    (h : Phase (some w) frame adding) : w.Sound := by
  cases h with
  | working hsound => exact hsound
  | stopping hsound => exact hsound

theorem Controlled.of_stopping (h : s.Controlled) {call : WorkerCall Nat}
    (hframe : s.frame = .stopping call) :
    s.adding = none ∧ ∃ w, s.worker = some w ∧ w.Sound ∧ Stops w call := by
  unfold Controlled at h
  rw [hframe] at h
  generalize s.worker = worker at h ⊢
  generalize s.adding = adding at h ⊢
  cases h with
  | gone hframe => cases hframe
  | working _ _ hframe => cases hframe
  | stopping hsound hstops => exact ⟨rfl, _, rfl, hsound, hstops⟩

theorem Phase.ran {w after : ThreadWorker Nat} {frame : MainFrame}
    {adding : Option (WorkerCall Nat)} (h : Phase (some w) frame adding) (hsound : after.Sound)
    (hstate : after.state = w.state) (hexited : w.thread ≠ .exited) :
    Phase (some after) frame adding := by
  cases h with
  | working _ hrunning hframe hadding =>
      exact .working hsound (hstate.trans hrunning) hframe hadding
  | stopping _ hstops =>
      refine .stopping hsound ?_
      cases hstops with
      | stop hrunning => exact .stop (hstate.trans hrunning)
      | setStopped hrunning => exact .setStopped (hstate.trans hrunning)
      | signalStop hstopped => exact .signalStop (hstate.trans hstopped)
      | waitForThread hstopped => exact .waitForThread (hstate.trans hstopped)
      | flush _ hended => exact absurd hended hexited

theorem Phase.loop {worker : Option (ThreadWorker Nat)} {frame frame' : MainFrame}
    {adding : Option (WorkerCall Nat)} (h : Phase worker frame adding)
    (hstopping : ∀ call, frame ≠ .stopping call) (houtlives : frame'.Outlives)
    (hworks : frame.Works → frame'.Works) : Phase worker frame' adding := by
  cases h with
  | gone => exact .gone houtlives
  | working hsound hrunning hframe hadding =>
      exact .working hsound hrunning (hworks hframe) hadding
  | stopping => exact absurd rfl (hstopping _)

theorem Phase.accepts {w : ThreadWorker Nat} {frame frame' : MainFrame}
    {adding : Option (WorkerCall Nat)} {call : QueryCall} (h : Phase (some w) frame adding)
    (hasks : frame.Asks call frame') (object : Nat) :
    Phase (some w) frame' (some (.makeThread object)) := by
  cases h.asks hasks with
  | working hsound hrunning hframe =>
      refine .working hsound hrunning hframe fun next hnext => ?_
      obtain rfl := Option.some.inj hnext
      exact .makeThread object
  | stopping => cases hasks

theorem Controlled.threadQuery (h : s.Controlled) (hadding : s.adding = none) {frame : MainFrame}
    {call : QueryCall} (hasks : s.frame.Asks call frame) {event : Event}
    (hasked : s.asked event = some call) :
    Took s event ({ s with frame := frame }.threadQuery call) ∧
      ({ s with frame := frame }.threadQuery call).Controlled := by
  have hrefused : Took s event { s with frame := frame } ∧
      Controlled { s with frame := frame } := ⟨.refuse hasks, Phase.asks h hasks⟩
  unfold Threading.threadQuery
  split
  next w info hworker hcn =>
    split
    next => exact hrefused
    next hfwd =>
      refine ⟨.accept hworker hadding hasks hasked hcn hfwd, ?_⟩
      have hphase : Phase s.worker s.frame s.adding := h
      change s.worker = some w at hworker
      rw [hworker] at hphase
      unfold Controlled
      rw [accept_worker, accept_frame, hworker]
      exact hphase.accepts hasks _
  next => exact hrefused

theorem Controlled.add (h : s.Controlled) {call : WorkerCall Nat} (hadding : s.adding = some call)
    (calls : List QueryCall) (hstep : s.add call = some s') :
    Took s (.main calls) s' ∧ s'.Controlled := by
  obtain ⟨worker, books, threadQueue, freeThreads, frame, adding⟩ := s
  change adding = some call at hadding
  subst hadding
  cases (h : Phase worker frame (some call)) with
  | @working w _ _ hsound hrunning hframe hadds =>
      simp only [Threading.add, Option.bind_some] at hstep
      cases hadds call rfl with
      | makeThread object =>
          simp only [WorkerCall.step, hrunning, if_true, Option.map_some, Option.some.injEq]
            at hstep
          subst hstep
          refine ⟨.made rfl, .working hsound hrunning hframe fun next hnext => ?_⟩
          obtain rfl := Option.some.inj hnext
          exact .addThreadToQueue object
      | addThreadToQueue object =>
          simp only [WorkerCall.step, hrunning, reduceCtorEq, or_self, if_false, Option.map_some,
            Option.some.injEq] at hstep
          subst hstep
          refine ⟨.checked rfl, .working hsound hrunning hframe fun next hnext => ?_⟩
          obtain rfl := Option.some.inj hnext
          exact .enqueue object
      | enqueue object =>
          simp only [WorkerCall.step, hsound.locks, if_true, Option.map_some, Option.some.injEq]
            at hstep
          subst hstep
          refine ⟨.enqueued rfl rfl, .working (hsound.push hrunning object).signalWaiting ?_ hframe
            nofun⟩
          rw [ThreadWorker.state_signalWaiting]
          exact hrunning

theorem Controlled.stop (h : s.Controlled) {call : WorkerCall Nat} {calls : List QueryCall}
    (hframe : s.frame = .stopping call) (hstep : s.stop call = some s') :
    Took s (.main calls) s' ∧ s'.Controlled := by
  obtain ⟨worker, books, threadQueue, freeThreads, frame, adding⟩ := s
  change frame = .stopping call at hframe
  subst hframe
  obtain ⟨hadding, w, hworker, hsound, hstops⟩ := h.of_stopping rfl
  change adding = none at hadding
  change worker = some w at hworker
  subst hadding hworker
  simp only [Threading.stop, Option.bind_some] at hstep
  cases hstops with
  | stop hstate =>
      simp only [WorkerCall.step, hstate, reduceCtorEq, or_self, if_false, Option.map_some,
        Option.some.injEq] at hstep
      subst hstep
      exact ⟨.stopChecked rfl, .stopping hsound (.setStopped hstate)⟩
  | setStopped hstate =>
      simp only [WorkerCall.step, hstate, reduceCtorEq, if_false] at hstep
      rw [if_pos hsound.locks, Option.map_some, Option.some.injEq] at hstep
      subst hstep
      exact ⟨.stopSet rfl rfl, .stopping hsound.stop (.signalStop rfl)⟩
  | signalStop hstate =>
      simp only [WorkerCall.step, hsound.locks, if_true, Option.map_some, Option.some.injEq]
        at hstep
      subst hstep
      refine ⟨.stopSignalled rfl rfl, .stopping hsound.signalWaiting (.waitForThread ?_)⟩
      rw [ThreadWorker.state_signalWaiting]
      exact hstate
  | waitForThread hstate =>
      simp only [WorkerCall.step] at hstep
      split at hstep
      next hexited =>
        simp only [Option.map_some, Option.some.injEq] at hstep
        subst hstep
        exact ⟨.joined rfl rfl hexited, .stopping hsound (.flush hstate hexited)⟩
      next => simp at hstep
  | flush hstate hexited =>
      have hqueue : w.threadQueue = [] := hsound.empty hexited
      simp only [WorkerCall.step, Option.map_some, hqueue, List.foldl_nil, Option.some.injEq]
        at hstep
      subst hstep
      exact ⟨.deleted rfl rfl hexited hqueue, .gone (.drain true)⟩

theorem Controlled.mainStep (h : s.Controlled) {calls : List QueryCall}
    (hstep : s.mainStep calls = some s') : Took s (.main calls) s' ∧ s'.Controlled := by
  unfold Threading.mainStep at hstep
  split at hstep
  next call hadding => exact h.add hadding _ hstep
  next hadding =>
    split at hstep
    next => simp at hstep
    next unloading hframe =>
      split at hstep
      next hqueue =>
        obtain rfl := Option.some.inj hstep
        exact ⟨.drained hframe hqueue, h.loop (by simp [hframe]) .idle fun _ => .idle⟩
      next object rest hqueue =>
        obtain rfl := Option.some.inj hstep
        refine ⟨.popped hframe hqueue, h.loop (by simp [hframe]) (.handler ..) fun hworks => ?_⟩
        rw [hframe] at hworks
        cases hworks
        exact .handler object calls
    next unloading object hframe =>
      obtain rfl := Option.some.inj hstep
      refine ⟨.handled hframe, h.loop (by simp [hframe]) (.drain _) fun hworks => ?_⟩
      rw [hframe] at hworks
      cases hworks
      exact .drain
    next unloading object call rest hframe =>
      obtain rfl := Option.some.inj hstep
      have hasked : s.asked (.main calls) = some call := by simp [asked, hadding, hframe]
      exact h.threadQuery hadding (hframe ▸ .handler unloading object call rest) hasked
    next call hframe => exact h.stop hframe hstep

theorem Controlled.workerStep (h : s.Controlled) {answer : DriverAnswer}
    (hstep : s.workerStep answer = some s') : Took s (.worker answer) s' ∧ s'.Controlled := by
  obtain ⟨w, hworker, hstep⟩ := Option.bind_eq_some_iff.mp hstep
  obtain ⟨after, hafter, rfl⟩ := Option.map_eq_some_iff.mp hstep
  have hphase : Phase (some w) s.frame s.adding := hworker ▸ h
  obtain ⟨hsound, hran⟩ := hphase.sound.runThread hafter
  have hstays := hphase.ran hsound (w.state_runThread hafter) fun hexited => by
    simp [ThreadWorker.runThread, hexited] at hafter
  cases hran with
  | quiet hfree hahead hbehind =>
      have htook : Took s (.worker answer) _ := .quiet hworker hfree hahead hbehind hafter
      split
      next hthread => simp [WorkerPc.Free, hthread] at hfree
      next hthread => simp [WorkerPc.Free, hthread] at hfree
      next => exact ⟨htook, hstays⟩
  | runThread hthread =>
      simp only [hthread]
      exact ⟨.answered hworker hthread, hstays⟩
  | onTerminate hthread =>
      simp only [hthread]
      exact ⟨.terminated hworker hthread, hstays⟩

theorem Controlled.step (h : s.Controlled) {event : Event} (hstep : s.step event = some s') :
    Took s event s' ∧ s'.Controlled := by
  cases event with
  | onPluginsLoaded =>
      simp only [Threading.step] at hstep
      split at hstep
      next hidle =>
        split at hstep
        next =>
          obtain rfl := Option.some.inj hstep
          exact ⟨.stay hidle, h⟩
        next hworker =>
          obtain rfl := Option.some.inj hstep
          refine ⟨.load hidle hworker, ?_⟩
          unfold Controlled
          rw [hidle.1, hidle.2]
          exact .working ThreadWorker.sound_started rfl .idle nofun
      next => simp at hstep
  | threadQuery call =>
      simp only [Threading.step] at hstep
      split at hstep
      next hidle =>
        obtain rfl := Option.some.inj hstep
        have hasks : s.frame.Asks call s.frame := hidle.1 ▸ .plugin call
        exact h.threadQuery hidle.2 hasks rfl
      next => simp at hstep
  | startFrame =>
      simp only [Threading.step] at hstep
      split at hstep
      next hidle =>
        split at hstep
        next w hworker =>
          obtain rfl := Option.some.inj hstep
          exact ⟨.startFrame hidle.1, h.loop (by simp [hidle.1]) (.drain false) fun _ => .drain⟩
        next =>
          obtain rfl := Option.some.inj hstep
          exact ⟨.stay hidle, h⟩
      next => simp at hstep
  | onPluginsUnloading =>
      simp only [Threading.step] at hstep
      split at hstep
      next hidle =>
        split at hstep
        next w hworker =>
          obtain rfl := Option.some.inj hstep
          have hphase : Phase (some w) .idle s.adding := hworker ▸ hidle.1 ▸ h
          obtain ⟨hsound, hrunning⟩ := hphase.idle
          refine ⟨.unload hidle.1, ?_⟩
          unfold Controlled
          rw [hworker, hidle.2]
          exact .stopping hsound (.stop hrunning)
        next =>
          obtain rfl := Option.some.inj hstep
          exact ⟨.stay hidle, h⟩
      next => simp at hstep
  | main calls => exact h.mainStep hstep
  | worker answer => exact h.workerStep hstep

end

end Threading

end AmxModC.Sql
