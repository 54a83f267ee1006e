import AmxModC.Foundation.Run
import AmxModC.Sql.Worker

namespace AmxModC.Sql

open Foundation

/-! The worker's thread among any number of threads that call its methods. -/

variable {Item : Type*}

inductive WorkerRequest (Item : Type*) where
  | addThreadToQueue (item : Item)
  | pause
  | unpause
  | stop (flushCancel : Bool)
  deriving DecidableEq, Repr

def WorkerRequest.call : WorkerRequest Item → WorkerCall Item
  | .addThreadToQueue item => .addThreadToQueue item
  | .pause => .pause
  | .unpause => .unpause false
  | .stop flushCancel => .stop flushCancel

structure WorkerThreads (Item : Type*) where
  worker : ThreadWorker Item
  calls : Nat → WorkerCall Item

inductive WorkerEvent (Item : Type*) where
  | invoke (thread : Nat) (request : WorkerRequest Item)
  | advance (thread : Nat)
  | worker

namespace WorkerThreads

def start : WorkerThreads Item := ⟨.started, fun _ => .returned true⟩

def step (s : WorkerThreads Item) : WorkerEvent Item → Option (WorkerThreads Item)
  | .invoke thread request =>
      match s.calls thread with
      | .returned _ => some { s with calls := Function.update s.calls thread request.call }
      | _ => none
  | .advance thread =>
      ((s.calls thread).step s.worker).map fun stepped =>
        ⟨stepped.2, Function.update s.calls thread stepped.1⟩
  | .worker => s.worker.runThread.map fun worker => { s with worker := worker }

def Settled (call : WorkerCall Item) : Prop :=
  (∃ result, call = .returned result) ∨ call = .waitForThread

/-- The worker is blocked in a wait that nobody is about to end, with work to do or an
end to come to. -/
def SleepsThrough (s : WorkerThreads Item) : Prop :=
  (s.worker.thread = .addWait ∨ s.worker.thread = .pauseWait) ∧
    (∀ thread, Settled (s.calls thread)) ∧
    ((s.worker.threadQueue ≠ [] ∧ s.worker.state = .running) ∨ s.worker.state = .stopped)

end WorkerThreads

namespace ThreadWorker

def PastLastLook (w : ThreadWorker Item) : Prop :=
  w.thread = .addGap ∨ (w.threadQueue = [] ∧ ∃ thisState, w.thread = .queueCheck thisState)

def BoundToWait (w : ThreadWorker Item) : Prop :=
  w.PastLastLook ∨ w.thread = .addWait ∨ w.thread = .pauseGap ∨ w.thread = .pauseWait

end ThreadWorker

namespace WorkerThreads

/-- No signal is sent between the thread's last look and its wait, and `Stop` does not
find the worker paused and bound to wait. -/
def SignalsArrive (s : WorkerThreads Item) : WorkerEvent Item → Prop
  | .advance thread =>
      match s.calls thread with
      | .enqueue _ => s.worker.thread ≠ .addGap
      | .signalStop => ¬s.worker.PastLastLook
      | .signalPause _ => s.worker.thread = .pauseGap → s.worker.state = .paused
      | .setStopped _ => s.worker.state = .paused → ¬s.worker.BoundToWait
      | _ => True
  | _ => True

structure Watched (s : WorkerThreads Item) : Prop where
  announced : s.worker.thread = .addGap ∨ s.worker.thread = .addWait → s.worker.waiting = true
  looked : ∀ thisState, s.worker.thread = .queueCheck thisState → thisState ≠ .stopped
  empty : s.worker.thread = .addGap ∨ s.worker.thread = .addWait → s.worker.threadQueue = []
  stopping : s.worker.state = .stopped →
    s.worker.PastLastLook ∨ s.worker.thread = .addWait →
    ∃ thread, s.calls thread = .signalStop
  unpausing : s.worker.thread = .pauseGap ∨ s.worker.thread = .pauseWait →
    s.worker.state = .paused ∨ ∃ thread stop, s.calls thread = .signalPause stop
  ended : ∀ thread, s.calls thread = .flush → s.worker.thread = .exited

theorem watched_start : (start : WorkerThreads Item).Watched where
  announced := fun hthread => by simp [start, ThreadWorker.started] at hthread
  looked := fun thisState hthread => by simp [start, ThreadWorker.started] at hthread
  empty := fun _ => rfl
  stopping := fun hstate => by simp [start, ThreadWorker.started] at hstate
  unpausing := fun hthread => by simp [start, ThreadWorker.started] at hthread
  ended := fun thread hcall => by simp [start] at hcall

theorem Watched.not_sleepsThrough {s : WorkerThreads Item} (h : s.Watched) :
    ¬s.SleepsThrough := by
  intro hsleeps
  obtain ⟨hwaits, hsettled, hneeded⟩ := hsleeps
  have hsettledStop : ∀ thread, s.calls thread ≠ .signalStop := by
    intro thread hcall
    simpa [Settled, hcall] using hsettled thread
  have hsettledPause : ∀ thread stop, s.calls thread ≠ .signalPause stop := by
    intro thread stop hcall
    simpa [Settled, hcall] using hsettled thread
  rcases hwaits with hadd | hpause
  · rcases hneeded with hwork | hstopped
    · exact hwork.1 (h.empty (.inr hadd))
    · obtain ⟨thread, hcall⟩ := h.stopping hstopped (.inr hadd)
      exact hsettledStop thread hcall
  · rcases h.unpausing (.inr hpause) with hpaused | hsignal
    · simp [hpaused] at hneeded
    · obtain ⟨thread, stop, hcall⟩ := hsignal
      exact hsettledPause thread stop hcall

def Awake : WorkerPc Item → Prop
  | .queueCheck _ | .addGap | .addWait | .pauseGap | .pauseWait => False
  | _ => True

theorem watched_of_awake {w : ThreadWorker Item} {calls : Nat → WorkerCall Item}
    (hawake : Awake w.thread) (hended : ∀ thread, calls thread = .flush → w.thread = .exited) :
    Watched ⟨w, calls⟩ := by
  have hgap : ¬(w.thread = .addGap ∨ w.thread = .addWait) := by
    intro hthread
    rcases hthread with hthread | hthread
    · simp [Awake, hthread] at hawake
    · simp [Awake, hthread] at hawake
  have hcheck : ∀ thisState, w.thread ≠ .queueCheck thisState := by
    intro thisState hthread
    simp [Awake, hthread] at hawake
  refine ⟨fun hthread => absurd hthread hgap,
    fun thisState hthread => absurd hthread (hcheck thisState),
    fun hthread => absurd hthread hgap, fun hstate hlooked => ?_, fun hthread => ?_, hended⟩
  · rcases hlooked with (hgap' | ⟨-, thisState, hthread⟩) | hwait
    · exact absurd (.inl hgap') hgap
    · exact absurd hthread (hcheck thisState)
    · exact absurd (.inr hwait) hgap
  · change w.thread = .pauseGap ∨ w.thread = .pauseWait at hthread
    rcases hthread with hthread | hthread
    · simp [Awake, hthread] at hawake
    · simp [Awake, hthread] at hawake

theorem Watched.runThread {s : WorkerThreads Item} (h : s.Watched) {w : ThreadWorker Item}
    (hstep : s.worker.runThread = some w) : Watched ⟨w, s.calls⟩ := by
  have hnotFlush : ∀ thread, s.calls thread ≠ .flush := by
    intro thread hcall
    simp [ThreadWorker.runThread, h.ended thread hcall] at hstep
  have hended : ∀ thread, s.calls thread = .flush → w.thread = .exited :=
    fun thread hcall => absurd hcall (hnotFlush thread)
  have hdone : ∀ {after : ThreadWorker Item}, some after = some w → Awake after.thread →
      Watched ⟨w, s.calls⟩ :=
    fun hsome hawake => watched_of_awake (Option.some.inj hsome ▸ hawake) hended
  unfold ThreadWorker.runThread at hstep
  split at hstep
  next hthread =>
    split at hstep
    next => exact hdone hstep trivial
    next hstate =>
      obtain rfl := Option.some.inj hstep
      refine ⟨by simp, fun thisState hcheck => ?_, by simp, fun hstopped => absurd hstopped hstate,
        by simp, hended⟩
      rw [← WorkerPc.queueCheck.inj hcheck]
      exact hstate
  next thisState hthread =>
    split at hstep
    next hqueue =>
      split at hstep
      next hstopped => exact absurd hstopped (h.looked thisState hthread)
      next =>
        obtain rfl := Option.some.inj hstep
        exact ⟨fun _ => rfl, by simp, fun _ => hqueue,
          fun hstate _ => h.stopping hstate (.inl (.inr ⟨hqueue, thisState, hthread⟩)), by simp,
          hended⟩
    next => exact hdone hstep trivial
  next hthread =>
    obtain rfl := Option.some.inj hstep
    exact ⟨fun _ => h.announced (.inl hthread), by simp, fun _ => h.empty (.inl hthread),
      fun hstate _ => h.stopping hstate (.inl (.inl hthread)), by simp, hended⟩
  next => simp at hstep
  next => exact hdone hstep trivial
  next hthread =>
    split at hstep
    next hstate =>
      obtain rfl := Option.some.inj hstep
      exact ⟨by simp, by simp, by simp, by simp [ThreadWorker.PastLastLook], fun _ => .inl hstate,
        hended⟩
    next =>
      split at hstep
      next => exact hdone hstep trivial
      next => exact hdone hstep trivial
    next => exact hdone hstep trivial
    next => exact hdone hstep trivial
  next hthread =>
    obtain rfl := Option.some.inj hstep
    exact ⟨by simp, by simp, by simp, by simp [ThreadWorker.PastLastLook],
      fun _ => h.unpausing (.inl hthread), hended⟩
  next => simp at hstep
  next done draining hthread =>
    have hafter : Awake (ThreadWorker.afterFrame draining : WorkerPc Item) := by
      cases draining with
      | true => trivial
      | false => trivial
    split at hstep
    next =>
      split at hstep
      next => exact hdone hstep hafter
      next => exact hdone hstep trivial
    next => exact hdone hstep hafter
  next => exact hdone hstep trivial
  next => exact hdone hstep trivial
  next =>
    split at hstep
    next => exact hdone hstep trivial
    next => exact hdone hstep trivial
  next => simp at hstep

/-! What the step of a call leaves pending. -/

theorem exists_update {P : WorkerCall Item → Prop} {calls : Nat → WorkerCall Item} {thread : Nat}
    (hpending : ∃ other, P (calls other)) (hthis : ¬P (calls thread)) (call : WorkerCall Item) :
    ∃ other, P (Function.update calls thread call other) := by
  obtain ⟨other, hother⟩ := hpending
  have hne : other ≠ thread := fun heq => hthis (heq ▸ hother)
  exact ⟨other, by rwa [Function.update_of_ne hne]⟩

theorem ended_update {calls : Nat → WorkerCall Item} {thread : Nat} {call : WorkerCall Item}
    {P : Prop} (hended : ∀ other, calls other = .flush → P) (hcall : call = .flush → P) :
    ∀ other, Function.update calls thread call other = .flush → P := by
  intro other hother
  by_cases heq : other = thread
  · subst heq
    rw [Function.update_self] at hother
    exact hcall hother
  · rw [Function.update_of_ne heq] at hother
    exact hended other hother

section

variable {s : WorkerThreads Item} {thread : Nat} {next : WorkerCall Item}

theorem Watched.stillStopping (h : s.Watched) (hstop : s.calls thread ≠ .signalStop)
    (hstate : s.worker.state = .stopped)
    (hbound : s.worker.PastLastLook ∨ s.worker.thread = .addWait) (next : WorkerCall Item) :
    ∃ other, Function.update s.calls thread next other = .signalStop :=
  exists_update (P := fun call => call = .signalStop) (h.stopping hstate hbound) hstop next

theorem Watched.stillUnpausing (h : s.Watched)
    (hpause : ∀ stopping, s.calls thread ≠ .signalPause stopping)
    (hbound : s.worker.thread = .pauseGap ∨ s.worker.thread = .pauseWait)
    (next : WorkerCall Item) :
    s.worker.state = .paused ∨
      ∃ other stopping, Function.update s.calls thread next other = .signalPause stopping := by
  rcases h.unpausing hbound with hpaused | hpending
  · exact .inl hpaused
  · right
    refine exists_update (P := fun call => ∃ stopping, call = .signalPause stopping) hpending ?_ next
    intro hthis
    obtain ⟨stopping, hthis⟩ := hthis
    exact hpause stopping hthis

theorem Watched.call (h : s.Watched) (hstop : s.calls thread ≠ .signalStop)
    (hpause : ∀ stopping, s.calls thread ≠ .signalPause stopping)
    (hflush : next = .flush → s.worker.thread = .exited) :
    Watched ⟨s.worker, Function.update s.calls thread next⟩ where
  announced := h.announced
  looked := h.looked
  empty := h.empty
  stopping := fun hstate hbound => h.stillStopping hstop hstate hbound next
  unpausing := fun hbound => h.stillUnpausing hpause hbound next
  ended := ended_update h.ended hflush

theorem Watched.ended_of_ne (h : s.Watched) (thread : Nat) (hflush : next ≠ .flush) :
    ∀ other, Function.update s.calls thread next other = .flush → s.worker.thread = .exited :=
  ended_update h.ended fun hcall => absurd hcall hflush

theorem Watched.woken (h : s.Watched) (thread : Nat) (hflush : next ≠ .flush)
    {w : ThreadWorker Item} (hawake : Awake w.thread) (hwait : s.worker.thread ≠ .exited) :
    Watched ⟨w, Function.update s.calls thread next⟩ :=
  watched_of_awake hawake
    fun other hother => absurd (h.ended_of_ne thread hflush other hother) hwait

theorem Watched.wakeAdd (h : s.Watched) (hstop : s.calls thread ≠ .signalStop)
    (hpause : ∀ stopping, s.calls thread ≠ .signalPause stopping) (hflush : next ≠ .flush) :
    Watched ⟨s.worker.wakeAdd, Function.update s.calls thread next⟩ := by
  unfold ThreadWorker.wakeAdd
  split
  next hthread => exact h.woken thread hflush trivial (by simp [hthread])
  next => exact h.call hstop hpause fun hnext => absurd hnext hflush

theorem Watched.enqueue (h : s.Watched) {item : Item} (hcall : s.calls thread = .enqueue item)
    (harrives : s.worker.thread ≠ .addGap) (result : Bool) :
    Watched ⟨(s.worker.push item).signalWaiting,
      Function.update s.calls thread (.returned result)⟩ := by
  by_cases hwait : s.worker.thread = .addWait
  · rw [ThreadWorker.signalWaiting_of_addWait (w := s.worker.push item) hwait
      (h.announced (.inr hwait))]
    exact h.woken thread (by simp) trivial (by simp [hwait])
  · have hgap : ¬(s.worker.thread = .addGap ∨ s.worker.thread = .addWait) := by
      simp [harrives, hwait]
    rw [ThreadWorker.signalWaiting_of_ne (w := s.worker.push item) hwait]
    refine ⟨fun hthread => absurd hthread hgap, h.looked, fun hthread => absurd hthread hgap,
      fun hstate hbound => ?_, fun hbound => h.stillUnpausing (by simp [hcall]) hbound _,
      h.ended_of_ne thread (by simp)⟩
    simp [ThreadWorker.PastLastLook, ThreadWorker.push, harrives, hwait] at hbound

theorem Watched.signalPause (h : s.Watched) {stopping : Bool}
    (hcall : s.calls thread = .signalPause stopping)
    (harrives : s.worker.thread = .pauseGap → s.worker.state = .paused) :
    Watched ⟨s.worker.wakePause, Function.update s.calls thread (.checkWaiting stopping)⟩ := by
  unfold ThreadWorker.wakePause
  split
  next hthread => exact h.woken thread (by simp) trivial (by simp [hthread])
  next hthread =>
    refine ⟨h.announced, h.looked, h.empty,
      fun hstate hbound => h.stillStopping (by simp [hcall]) hstate hbound _, fun hbound => ?_,
      h.ended_of_ne thread (by simp)⟩
    rcases hbound with hgap | hwait
    · exact .inl (harrives hgap)
    · exact absurd hwait hthread

theorem Watched.setStopped (h : s.Watched) {flushCancel : Bool}
    (hcall : s.calls thread = .setStopped flushCancel)
    (harrives : s.worker.state = .paused → ¬s.worker.BoundToWait) :
    Watched ⟨{ s.worker with state := .stopped, flushType := flushCancel },
      Function.update s.calls thread
        (if s.worker.state = .paused then .unpause true else .signalStop)⟩ := by
  refine ⟨h.announced, h.looked, h.empty, fun _ hbound => ?_, fun hbound => ?_, ?_⟩
  · split
    next hpaused =>
      exact absurd (hbound.elim .inl fun hwait => .inr (.inl hwait)) (harrives hpaused)
    next => exact ⟨thread, Function.update_self ..⟩
  · by_cases hpaused : s.worker.state = .paused
    · exact absurd (.inr (.inr hbound)) (harrives hpaused)
    · exact .inr ((h.stillUnpausing (by simp [hcall]) hbound _).resolve_left hpaused)
  · refine h.ended_of_ne thread ?_
    split
    next => simp
    next => simp

theorem Watched.signalStop (h : s.Watched) (hcall : s.calls thread = .signalStop)
    (harrives : ¬s.worker.PastLastLook) :
    Watched ⟨s.worker.signalWaiting, Function.update s.calls thread .waitForThread⟩ := by
  by_cases hwait : s.worker.thread = .addWait
  · rw [ThreadWorker.signalWaiting_of_addWait hwait (h.announced (.inr hwait))]
    exact h.woken thread (by simp) trivial (by simp [hwait])
  · rw [ThreadWorker.signalWaiting_of_ne hwait]
    refine ⟨h.announced, h.looked, h.empty, fun _ hbound => ?_,
      fun hbound => h.stillUnpausing (by simp [hcall]) hbound _, h.ended_of_ne thread (by simp)⟩
    exact absurd hbound (by simp [harrives, hwait])

theorem Watched.advance (h : s.Watched) (harrives : s.SignalsArrive (.advance thread))
    {stepped : WorkerCall Item × ThreadWorker Item}
    (hstep : (s.calls thread).step s.worker = some stepped) :
    Watched ⟨stepped.2, Function.update s.calls thread stepped.1⟩ := by
  cases hcall : s.calls thread with
  | makeThread item =>
      simp only [hcall, WorkerCall.step] at hstep
      split at hstep
      next =>
        obtain rfl := Option.some.inj hstep
        exact h.call (by simp [hcall]) (by simp [hcall]) (by simp)
      next =>
        obtain rfl := Option.some.inj hstep
        exact h.call (by simp [hcall]) (by simp [hcall]) (by simp)
  | addThreadToQueue item =>
      simp only [hcall, WorkerCall.step] at hstep
      split at hstep
      next =>
        obtain rfl := Option.some.inj hstep
        exact h.call (by simp [hcall]) (by simp [hcall]) (by simp)
      next =>
        obtain rfl := Option.some.inj hstep
        exact h.call (by simp [hcall]) (by simp [hcall]) (by simp)
  | enqueue item =>
      simp only [SignalsArrive, hcall] at harrives
      simp only [hcall, WorkerCall.step, Option.ite_none_right_eq_some, Option.some.injEq] at hstep
      obtain ⟨-, rfl⟩ := hstep
      exact h.enqueue hcall harrives true
  | pause =>
      simp only [hcall, WorkerCall.step, Option.some.injEq] at hstep
      obtain rfl := hstep
      exact h.call (by simp [hcall]) (by simp [hcall]) fun hnext => by split at hnext <;> simp at hnext
  | setPaused =>
      simp only [hcall, WorkerCall.step, Option.ite_none_right_eq_some, Option.some.injEq] at hstep
      obtain ⟨-, rfl⟩ := hstep
      exact ⟨h.announced, h.looked, h.empty, fun hstate => absurd hstate (by simp),
        fun _ => .inl rfl, h.ended_of_ne thread (by simp)⟩
  | unpause stopping =>
      simp only [hcall, WorkerCall.step, Option.some.injEq] at hstep
      obtain rfl := hstep
      refine h.call (by simp [hcall]) (by simp [hcall]) fun hnext => ?_
      split at hnext
      next => simp at hnext
      next => exact absurd hnext (WorkerCall.unpaused_ne_flush stopping false)
  | setRunning stopping =>
      simp only [hcall, WorkerCall.step, Option.ite_none_right_eq_some, Option.some.injEq] at hstep
      obtain ⟨-, rfl⟩ := hstep
      exact ⟨h.announced, h.looked, h.empty, fun hstate => absurd hstate (by simp),
        fun _ => .inr ⟨thread, stopping, Function.update_self ..⟩, h.ended_of_ne thread (by simp)⟩
  | signalPause stopping =>
      simp only [SignalsArrive, hcall] at harrives
      simp only [hcall, WorkerCall.step, Option.ite_none_right_eq_some, Option.some.injEq] at hstep
      obtain ⟨-, rfl⟩ := hstep
      exact h.signalPause hcall harrives
  | checkWaiting stopping =>
      simp only [hcall, WorkerCall.step, Option.some.injEq] at hstep
      obtain rfl := hstep
      refine h.call (by simp [hcall]) (by simp [hcall]) fun hnext => ?_
      split at hnext
      next => simp at hnext
      next => exact absurd hnext (WorkerCall.unpaused_ne_flush stopping true)
  | signalAdd stopping =>
      simp only [hcall, WorkerCall.step, Option.ite_none_right_eq_some, Option.some.injEq] at hstep
      obtain ⟨-, rfl⟩ := hstep
      exact h.wakeAdd (by simp [hcall]) (by simp [hcall])
        (WorkerCall.unpaused_ne_flush stopping true)
  | stop flushCancel =>
      simp only [hcall, WorkerCall.step, Option.some.injEq] at hstep
      obtain rfl := hstep
      exact h.call (by simp [hcall]) (by simp [hcall]) fun hnext => by split at hnext <;> simp at hnext
  | setStopped flushCancel =>
      simp only [SignalsArrive, hcall] at harrives
      simp only [hcall, WorkerCall.step, Option.ite_none_right_eq_some, Option.some.injEq] at hstep
      obtain ⟨-, rfl⟩ := hstep
      exact h.setStopped hcall harrives
  | signalStop =>
      simp only [SignalsArrive, hcall] at harrives
      simp only [hcall, WorkerCall.step, Option.ite_none_right_eq_some, Option.some.injEq] at hstep
      obtain ⟨-, rfl⟩ := hstep
      exact h.signalStop hcall harrives
  | waitForThread =>
      simp only [hcall, WorkerCall.step] at hstep
      split at hstep
      next hexited =>
        obtain rfl := Option.some.inj hstep
        exact h.call (by simp [hcall]) (by simp [hcall]) fun _ => hexited
      next => simp at hstep
  | flush =>
      simp only [hcall, WorkerCall.step, Option.some.injEq] at hstep
      obtain rfl := hstep
      have hexited : s.worker.thread = .exited := h.ended thread hcall
      refine watched_of_awake ?_ (h.ended_of_ne thread (by simp))
      simp [Awake, hexited]
  | returned result => simp [hcall, WorkerCall.step] at hstep

theorem Watched.step (h : s.Watched) {event : WorkerEvent Item} (harrives : s.SignalsArrive event)
    {after : WorkerThreads Item} (hstep : s.step event = some after) : after.Watched := by
  cases event with
  | invoke thread request =>
      simp only [WorkerThreads.step] at hstep
      split at hstep
      next result hcall =>
        obtain rfl := Option.some.inj hstep
        refine h.call (by simp [hcall]) (by simp [hcall]) fun hrequest => ?_
        cases request with
        | addThreadToQueue | pause | unpause | stop => simp [WorkerRequest.call] at hrequest
      next => simp at hstep
  | advance thread =>
      obtain ⟨stepped, hstepped, rfl⟩ := Option.map_eq_some_iff.mp hstep
      exact h.advance harrives hstepped
  | worker =>
      obtain ⟨w, hw, rfl⟩ := Option.map_eq_some_iff.mp hstep
      exact h.runThread hw

end

/-- In every run in which the signals arrive, the worker never sleeps through work. -/
theorem not_sleepsThrough_of_signalsArrive (events : List (WorkerEvent Item))
    {final : WorkerThreads Item} (harrive : Meets step SignalsArrive start events)
    (hrun : run step start events = some final) : ¬final.SleepsThrough :=
  (run_invariant (fun h harrives hstep => Watched.step h harrives hstep) watched_start harrive
    hrun).not_sleepsThrough

/-- The worker waits, and an item comes in. -/
theorem not_sleepsThrough_of_item :
    ¬(⟨⟨[5], .running, true, false, true, 1, .addWoken⟩,
        Function.update (Function.update (Function.update (fun _ => .returned true) 0
          (.addThreadToQueue 5)) 0 (.enqueue 5)) 0 (.returned true)⟩ :
      WorkerThreads Nat).SleepsThrough := by
  refine not_sleepsThrough_of_signalsArrive [.worker, .worker, .worker,
    .invoke 0 (.addThreadToQueue 5), .advance 0, .advance 0] ?_ rfl
  exact .cons trivial rfl <| .cons trivial rfl <| .cons trivial rfl <| .cons trivial rfl <|
    .cons trivial rfl <| .cons nofun rfl trivial

/-- An item comes in between the announcement and the wait. -/
theorem sleepsThrough_of_lost_signal :
    ¬∀ (events : List (WorkerEvent Nat)) (final : WorkerThreads Nat),
      run step start events = some final → ¬final.SleepsThrough := by
  intro hall
  refine hall [.worker, .worker, .invoke 0 (.addThreadToQueue 5), .advance 0, .advance 0, .worker]
    _ rfl ⟨.inl rfl, fun thread => .inl ⟨true, ?_⟩, .inl ⟨List.cons_ne_nil _ _, rfl⟩⟩
  by_cases hthread : thread = 0
  · subst hthread
    rfl
  · change Function.update (Function.update (Function.update _ 0 _) 0 _) 0 _ thread = _
    rw [Function.update_of_ne hthread, Function.update_of_ne hthread,
      Function.update_of_ne hthread]
    rfl

end WorkerThreads

end AmxModC.Sql
