import Mathlib.Data.Prod.Lex
import AmxModC.Foundation.Run
import AmxModC.Sql.Interleaving
import AmxModC.Sql.Sleep

namespace AmxModC.Sql

open Foundation

/-! `OnPluginsUnloading` comes to its end where `Stop` sends its signal to a thread that
hears it. -/

variable {Item : Type*}

namespace ThreadWorker

def distance (w : ThreadWorker Item) : Nat :=
  match w.thread with
  | .runThread .. => 10
  | .onTerminate .. => 9
  | .frame (_ + 1) _ => 8
  | .addWoken => 7
  | .addWait => 1
  | .exited => 0
  | .pauseGap | .pauseWait => 0
  | .top => if w.state = .stopped then 6 else 4
  | .queueCheck _ => if w.state = .stopped then 5 else 3
  | .addGap => if w.state = .stopped then 3 else 2
  | .drain => 2
  | .stateCheck => if w.state = .stopped then 4 else if w.threadQueue = [] then 6 else 2
  | .frame 0 draining =>
      if draining then if w.threadQueue = [] then 3 else 1
      else if w.state = .stopped then 7
      else if w.threadQueue = [] then 5 else 1

def rank (w : ThreadWorker Item) : Nat := 11 * w.threadQueue.length + w.distance

theorem Sound.rank_lt {w after : ThreadWorker Item} (h : w.Sound)
    (hstep : w.runThread = some after) : after.rank < w.rank := by
  cases hthread : w.thread with
  | top =>
      simp only [ThreadWorker.runThread, hthread] at hstep
      split at hstep
      next hstate =>
        obtain rfl := Option.some.inj hstep
        simp [rank, distance, hthread, hstate]
      next hstate =>
        obtain rfl := Option.some.inj hstep
        simp [rank, distance, hthread, hstate]
  | queueCheck thisState =>
      simp only [ThreadWorker.runThread, hthread] at hstep
      split at hstep
      next hqueue =>
        split at hstep
        next hstopped => simp [h.check thisState hthread] at hstopped
        next =>
          obtain rfl := Option.some.inj hstep
          rcases h.state with hstate | hstate
          · simp [rank, distance, hthread, hstate]
          · simp [rank, distance, hthread, hstate]
      next hqueue =>
        obtain rfl := Option.some.inj hstep
        rcases h.state with hstate | hstate
        · simp [rank, distance, hthread, hqueue, hstate]
        · simp [rank, distance, hthread, hstate]
  | addGap =>
      simp only [ThreadWorker.runThread, hthread] at hstep
      obtain rfl := Option.some.inj hstep
      rcases h.state with hstate | hstate
      · simp [rank, distance, hthread, hstate]
      · simp [rank, distance, hthread, hstate]
  | addWait => simp [ThreadWorker.runThread, hthread] at hstep
  | addWoken =>
      simp only [ThreadWorker.runThread, hthread] at hstep
      obtain rfl := Option.some.inj hstep
      simp only [rank, distance, hthread]
      split
      next => omega
      next => split <;> omega
  | stateCheck =>
      simp only [ThreadWorker.runThread, hthread] at hstep
      split at hstep
      next hstate => exact absurd hstate h.not_paused
      next hstate =>
        rw [h.flushType] at hstep
        obtain rfl := Option.some.inj hstep
        simp [rank, distance, hthread, hstate]
      next hstate =>
        obtain rfl := Option.some.inj hstep
        simp only [rank, distance, hthread, hstate, reduceCtorEq, if_false]
        split <;> simp
      next hstate =>
        exact absurd h.state (by simp [hstate])
  | pauseGap => exact absurd hthread h.pauseGap
  | pauseWait => simp [ThreadWorker.runThread, hthread] at hstep
  | frame done draining =>
      simp only [ThreadWorker.runThread, hthread] at hstep
      split at hstep
      next hdone =>
        rw [h.perFrame, Nat.lt_one_iff] at hdone
        subst hdone
        split at hstep
        next hqueue =>
          obtain rfl := Option.some.inj hstep
          cases draining with
          | true => simp [rank, distance, hthread, hqueue, ThreadWorker.afterFrame]
          | false =>
              rcases h.state with hstate | hstate
              · simp [rank, distance, hthread, hqueue, ThreadWorker.afterFrame, hstate]
              · simp [rank, distance, hthread, hqueue, ThreadWorker.afterFrame, hstate]
        next item rest hqueue =>
          obtain rfl := Option.some.inj hstep
          simp only [rank, distance, hthread, hqueue, List.length_cons]
          grind
      next hdone =>
        obtain rfl := Option.some.inj hstep
        rw [h.perFrame, Nat.lt_one_iff] at hdone
        obtain ⟨done, rfl⟩ := Nat.exists_eq_succ_of_ne_zero hdone
        cases draining with
        | true => simp [rank, distance, hthread, ThreadWorker.afterFrame]
        | false =>
            rcases h.state with hstate | hstate
            · simp [rank, distance, hthread, ThreadWorker.afterFrame, hstate]
            · simp [rank, distance, hthread, ThreadWorker.afterFrame, hstate]
  | runThread item done draining =>
      simp only [ThreadWorker.runThread, hthread] at hstep
      obtain rfl := Option.some.inj hstep
      simp [rank, distance, hthread]
  | onTerminate item done draining =>
      simp only [ThreadWorker.runThread, hthread] at hstep
      obtain rfl := Option.some.inj hstep
      simp [rank, distance, hthread]
  | drain =>
      simp only [ThreadWorker.runThread, hthread] at hstep
      split at hstep
      next hqueue =>
        obtain rfl := Option.some.inj hstep
        simp [rank, distance, hthread]
      next hqueue =>
        obtain rfl := Option.some.inj hstep
        simp [rank, distance, hthread, hqueue]
  | exited => simp [ThreadWorker.runThread, hthread] at hstep

def Hears (w : ThreadWorker Item) : Prop := ¬w.PastLastLook ∧ w.thread ≠ .addWait

theorem Hears.runThread {w after : ThreadWorker Item} (h : w.Hears) (hstate : w.state = .stopped)
    (hstep : w.runThread = some after) : after.Hears := by
  unfold ThreadWorker.runThread at hstep
  grind [Hears, PastLastLook, afterFrame]

theorem exists_runThread {w : ThreadWorker Item} (haddWait : w.thread ≠ .addWait)
    (hpauseWait : w.thread ≠ .pauseWait) (hexited : w.thread ≠ .exited) :
    ∃ after, w.runThread = some after := by
  refine Option.isSome_iff_exists.mp ?_
  unfold ThreadWorker.runThread
  grind

end ThreadWorker

/-- The places of the main thread in `OnPluginsUnloading`. -/
def MainFrame.Unloading : MainFrame → Prop
  | .idle => False
  | .drain unloading => unloading = true
  | .handler unloading _ _ => unloading = true
  | .stopping _ => True

def WorkerCall.stopRank : WorkerCall Item → Nat
  | .stop _ => 5
  | .setStopped _ => 4
  | .signalStop => 3
  | .waitForThread => 2
  | .flush => 1
  | _ => 0

namespace Threading

/-- `Stop` does not send its signal between the thread's last look and its wait. -/
def StopArrives (s : Threading) : Event → Prop
  | .main _ =>
      match s.frame, s.worker with
      | .stopping .signalStop, some w => ¬w.PastLastLook
      | _, _ => True
  | _ => True

/-- Once `Stop` has sent its signal, the worker's thread goes on to its end. -/
def Heard (s : Threading) : Prop :=
  s.frame = .stopping .waitForThread → ∀ w, s.worker = some w → w.Hears

/-- Nothing is left of `OnPluginsUnloading`. -/
def Unloaded (s : Threading) : Prop := s.Idle ∧ s.worker = none

/-- What is left to do: the call of `Stop`, then the worker's steps, then the finished
queries and what their handlers ask for. -/
def rank (s : Threading) : Nat × Nat × Nat :=
  match s.frame, s.worker with
  | .stopping call, some w => (call.stopRank, w.rank, 0)
  | .handler _ _ calls, _ => (0, s.threadQueue.length, calls.length + 1)
  | .drain _, _ => (0, s.threadQueue.length, 0)
  | _, _ => (0, 0, 0)

def Lower : Nat × Nat × Nat → Nat × Nat × Nat → Prop :=
  Prod.Lex (· < ·) (Prod.Lex (· < ·) (· < ·))

theorem lower_wellFounded : WellFounded Lower :=
  WellFounded.prod_lex Nat.lt_wfRel.wf (WellFounded.prod_lex Nat.lt_wfRel.wf Nat.lt_wfRel.wf)

section

variable {s s' : Threading} {event : Event}

theorem heard_start : start.Heard := nofun

theorem Controlled.stopped {w : ThreadWorker Nat} (h : s.Controlled) (hworker : s.worker = some w)
    (hframe : s.frame = .stopping .waitForThread) : w.state = .stopped := by
  obtain ⟨-, other, hother, -, hstops⟩ := h.of_stopping hframe
  obtain rfl := Option.some.inj (hworker.symm.trans hother)
  cases hstops with
  | waitForThread hstate => exact hstate

theorem Heard.runThread {w after : ThreadWorker Nat} (h : s.Heard) (hcontrolled : s.Controlled)
    (hworker : s.worker = some w) (hstep : w.runThread = some after) {books : Books}
    {threadQueue : List Nat} :
    Heard { s with worker := some after, books := books, threadQueue := threadQueue } := by
  intro hframe other hother
  obtain rfl := Option.some.inj hother
  exact (h hframe w hworker).runThread (hcontrolled.stopped hworker hframe) hstep

theorem hears_signalWaiting {w : ThreadWorker Nat} (hsound : w.Sound) (harrives : ¬w.PastLastLook) :
    w.signalWaiting.Hears := by
  by_cases hwait : w.thread = .addWait
  · rw [ThreadWorker.signalWaiting_of_addWait hwait (hsound.announcedWait hwait)]
    simp [ThreadWorker.Hears, ThreadWorker.PastLastLook]
  · rw [ThreadWorker.signalWaiting_of_ne hwait]
    exact ⟨harrives, hwait⟩

theorem Took.heard (htook : Took s event s') (hcontrolled : s.Controlled)
    (harrives : s.StopArrives event) (h : s.Heard) : s'.Heard := by
  cases htook with
  | stay => exact h
  | load hidle => exact fun hframe => absurd (hidle.1.symm.trans hframe) (by simp)
  | accept hworker hadding hasks hcn =>
      intro hframe
      rw [accept_frame] at hframe
      exact absurd hframe (hasks.ne_stopping _)
  | refuse hasks => exact fun hframe => absurd hframe (hasks.ne_stopping _)
  | made | checked => exact h
  | enqueued hworker hadding =>
      intro hframe
      obtain ⟨hnone, -⟩ := hcontrolled.of_stopping hframe
      simp [hadding] at hnone
  | stopSignalled hworker hframe =>
      intro _ other hother
      obtain rfl := Option.some.inj hother
      obtain ⟨-, w, hw, hsound, -⟩ := hcontrolled.of_stopping hframe
      obtain rfl := Option.some.inj (hworker.symm.trans hw)
      simp only [StopArrives, hframe, hworker] at harrives
      exact hears_signalWaiting hsound harrives
  | quiet hworker hfree hahead hbehind hstep => exact h.runThread hcontrolled hworker hstep
  | answered hworker hthread =>
      exact h.runThread hcontrolled hworker (by simp [ThreadWorker.runThread, hthread])
  | terminated hworker hthread =>
      exact h.runThread hcontrolled hworker (by simp [ThreadWorker.runThread, hthread])
  | _ =>
      intro hframe
      simp at hframe

/-- What holds while `OnPluginsUnloading` is under way. -/
structure Leaving (s : Threading) : Prop where
  controlled : s.Controlled
  heard : s.Heard
  unloading : s.frame.Unloading

theorem Leaving.places (h : s.Leaving) : s.adding = none ∧
    ((∃ w call, s.worker = some w ∧ s.frame = .stopping call) ∨
      (s.worker = none ∧ ∀ call, s.frame ≠ .stopping call)) := by
  obtain ⟨hcontrolled, -, hunloading⟩ := h
  obtain ⟨worker, books, threadQueue, freeThreads, frame, adding⟩ := s
  cases (hcontrolled : Phase worker frame adding) with
  | gone hframe =>
      refine ⟨rfl, .inr ⟨rfl, ?_⟩⟩
      intro call hcall
      change frame = .stopping call at hcall
      subst hcall
      cases hframe
  | working _ _ hframe =>
      cases hframe with
      | idle => exact hunloading.elim
      | drain => exact absurd hunloading Bool.false_ne_true
      | handler => exact absurd hunloading Bool.false_ne_true
  | stopping => exact ⟨rfl, .inl ⟨_, _, rfl, rfl⟩⟩

theorem Leaving.stopping (h : s.Leaving) {w : ThreadWorker Nat} (hworker : s.worker = some w) :
    ∃ call, s.frame = .stopping call := by
  rcases h.places.2 with ⟨_, call, -, hframe⟩ | ⟨hnone, -⟩
  · exact ⟨call, hframe⟩
  · simp [hworker] at hnone

theorem Leaving.gone (h : s.Leaving) (hframe : ∀ call, s.frame ≠ .stopping call) :
    s.worker = none := by
  rcases h.places.2 with ⟨_, call, -, hcall⟩ | ⟨hnone, -⟩
  · exact absurd hcall (hframe call)
  · exact hnone

theorem rank_stopping {w : ThreadWorker Nat} {call : WorkerCall Nat}
    (hframe : s.frame = .stopping call) (hworker : s.worker = some w) :
    s.rank = (call.stopRank, w.rank, 0) := by
  simp [rank, hworker, hframe]

theorem rank_handler {unloading : Bool} {object : Nat} {calls : List QueryCall}
    (hframe : s.frame = .handler unloading object calls) :
    s.rank = (0, s.threadQueue.length, calls.length + 1) := by
  simp [rank, hframe]

theorem rank_drain {unloading : Bool} (hframe : s.frame = .drain unloading) :
    s.rank = (0, s.threadQueue.length, 0) := by
  simp [rank, hframe]

theorem lower_of_stopRank {w w' : ThreadWorker Nat} {call call' : WorkerCall Nat}
    (hframe : s.frame = .stopping call) (hworker : s.worker = some w)
    (hframe' : s'.frame = .stopping call') (hworker' : s'.worker = some w')
    (hlt : call'.stopRank < call.stopRank) : Lower s'.rank s.rank := by
  rw [rank_stopping hframe hworker, rank_stopping hframe' hworker']
  exact .left _ _ hlt

theorem Leaving.lower_runThread (h : s.Leaving) {w after : ThreadWorker Nat}
    (hworker : s.worker = some w) (hstep : w.runThread = some after)
    (hframe' : s'.frame = s.frame) (hworker' : s'.worker = some after) :
    Lower s'.rank s.rank := by
  obtain ⟨call, hframe⟩ := h.stopping hworker
  obtain ⟨-, other, hother, hsound, -⟩ := h.controlled.of_stopping hframe
  obtain rfl := Option.some.inj (hworker.symm.trans hother)
  rw [rank_stopping hframe hworker, rank_stopping (hframe'.trans hframe) hworker']
  exact .right _ (.left _ _ (hsound.rank_lt hstep))

theorem Leaving.lower (h : s.Leaving) (harrives : s.StopArrives event)
    (hstep : s.step event = some s') : s'.Unloaded ∨ (s'.Leaving ∧ Lower s'.rank s.rank) := by
  obtain ⟨htook, hcontrolled⟩ := h.controlled.step hstep
  have hheard := htook.heard h.controlled harrives h.heard
  have hadding := h.places.1
  have hunloading := h.unloading
  have hlower : s'.frame.Unloading → Lower s'.rank s.rank →
      s'.Unloaded ∨ (s'.Leaving ∧ Lower s'.rank s.rank) :=
    fun hframe hrank => .inr ⟨⟨hcontrolled, hheard, hframe⟩, hrank⟩
  cases htook with
  | stay hidle => simp [MainFrame.Unloading, hidle.1] at hunloading
  | load hidle => simp [MainFrame.Unloading, hidle.1] at hunloading
  | startFrame hidle => simp [MainFrame.Unloading, hidle] at hunloading
  | unload hidle => simp [MainFrame.Unloading, hidle] at hunloading
  | accept hworker _ hasks =>
      obtain ⟨call, hframe⟩ := h.stopping hworker
      rw [hframe] at hasks
      cases hasks
  | refuse hasks =>
      generalize hframe : s.frame = frame at hasks
      rw [hframe] at hunloading
      cases hasks with
      | plugin => exact hunloading.elim
      | handler unloading object call calls =>
          refine hlower hunloading ?_
          rw [rank_handler hframe, rank_handler rfl]
          exact .right _ (.right _ (Nat.lt_succ_self _))
  | made hmade => simp [hadding] at hmade
  | checked hchecked => simp [hadding] at hchecked
  | enqueued _ henqueued => simp [hadding] at henqueued
  | stopChecked hframe =>
      obtain ⟨-, w, hworker, -⟩ := h.controlled.of_stopping hframe
      exact hlower trivial (lower_of_stopRank hframe hworker rfl hworker (by decide))
  | stopSet hworker hframe =>
      exact hlower trivial (lower_of_stopRank hframe hworker rfl rfl (by decide))
  | stopSignalled hworker hframe =>
      exact hlower trivial (lower_of_stopRank hframe hworker rfl rfl (by decide))
  | joined hworker hframe hexited =>
      exact hlower trivial (lower_of_stopRank hframe hworker rfl hworker (by decide))
  | deleted hworker hframe hexited hqueue =>
      refine hlower rfl ?_
      rw [rank_stopping hframe hworker, rank_drain rfl]
      exact .left _ _ (by decide)
  | drained hframe hqueue => exact .inl ⟨⟨rfl, hadding⟩, h.gone (by simp [hframe])⟩
  | popped hframe hqueue =>
      rw [hframe] at hunloading
      refine hlower hunloading ?_
      rw [rank_drain hframe, rank_handler rfl, hqueue]
      exact .right _ (.left _ _ (Nat.lt_succ_self _))
  | handled hframe =>
      rw [hframe] at hunloading
      refine hlower hunloading ?_
      rw [rank_handler hframe, rank_drain rfl]
      exact .right _ (.right _ Nat.zero_lt_one)
  | quiet hworker hfree hahead hbehind hafter =>
      exact hlower hunloading (h.lower_runThread hworker hafter rfl rfl)
  | answered hworker hthread =>
      refine hlower hunloading (h.lower_runThread hworker ?_ rfl rfl)
      simp [ThreadWorker.runThread, hthread]
  | terminated hworker hthread =>
      refine hlower hunloading (h.lower_runThread hworker ?_ rfl rfl)
      simp [ThreadWorker.runThread, hthread]

theorem exists_workerStep {w after : ThreadWorker Nat} (hworker : s.worker = some w)
    (hstep : w.runThread = some after) :
    ∃ event next, s.StopArrives event ∧ s.step event = some next := by
  have hnext : ∃ next, s.step (.worker (.succeeds none)) = some next := by
    simp [step, workerStep, hworker, hstep]
  obtain ⟨next, hnext⟩ := hnext
  exact ⟨.worker (.succeeds none), next, trivial, hnext⟩

theorem exists_mainStep (harrives : s.StopArrives (.main [])) (hstep : (s.mainStep []).isSome) :
    ∃ event next, s.StopArrives event ∧ s.step event = some next := by
  obtain ⟨next, hnext⟩ := Option.isSome_iff_exists.mp hstep
  exact ⟨_, next, harrives, hnext⟩

theorem Leaving.possible (h : s.Leaving) :
    ∃ event next, s.StopArrives event ∧ s.step event = some next := by
  have hadding := h.places.1
  have hunloading := h.unloading
  cases hframe : s.frame with
  | idle => simp [MainFrame.Unloading, hframe] at hunloading
  | drain unloading =>
      refine exists_mainStep (by simp [StopArrives, hframe]) ?_
      simp only [mainStep, hadding, hframe]
      split
      next => rfl
      next => rfl
  | handler unloading object calls =>
      refine exists_mainStep (by simp [StopArrives, hframe]) ?_
      cases calls with
      | nil => simp [mainStep, hadding, hframe]
      | cons call calls => simp [mainStep, hadding, hframe]
  | stopping call =>
      obtain ⟨-, w, hworker, hsound, hstops⟩ := h.controlled.of_stopping hframe
      cases hstops with
      | stop =>
          refine exists_mainStep (by simp [StopArrives, hframe]) ?_
          simp [mainStep, hadding, hframe, Threading.stop, hworker, WorkerCall.step]
      | setStopped =>
          refine exists_mainStep (by simp [StopArrives, hframe]) ?_
          simp [mainStep, hadding, hframe, Threading.stop, hworker, WorkerCall.step, hsound.locks]
      | signalStop =>
          by_cases hlooked : w.PastLastLook
          · have hthread : w.thread ≠ .addWait ∧ w.thread ≠ .pauseWait ∧ w.thread ≠ .exited := by
              rcases hlooked with hgap | ⟨-, thisState, hcheck⟩
              · simp [hgap]
              · simp [hcheck]
            obtain ⟨after, hafter⟩ := w.exists_runThread hthread.1 hthread.2.1 hthread.2.2
            exact exists_workerStep hworker hafter
          · refine exists_mainStep (by simpa [StopArrives, hframe, hworker] using hlooked) ?_
            simp [mainStep, hadding, hframe, Threading.stop, hworker, WorkerCall.step, hsound.locks]
      | waitForThread =>
          by_cases hexited : w.thread = .exited
          · refine exists_mainStep (by simp [StopArrives, hframe]) ?_
            simp [mainStep, hadding, hframe, Threading.stop, hworker, WorkerCall.step, hexited]
          · have hhears := h.heard hframe w hworker
            obtain ⟨after, hafter⟩ := w.exists_runThread hhears.2 hsound.pauseWait hexited
            exact exists_workerStep hworker hafter
      | flush =>
          refine exists_mainStep (by simp [StopArrives, hframe]) ?_
          simp [mainStep, hadding, hframe, Threading.stop, hworker, WorkerCall.step]

theorem Leaving.inevitable (h : s.Leaving) : Inevitable step StopArrives Unloaded s :=
  inevitable_of_measure lower_wellFounded rank (fun _ => Leaving.possible)
    (fun hleaving harrives hstep => hleaving.lower harrives hstep) h

end

end Threading

end AmxModC.Sql
