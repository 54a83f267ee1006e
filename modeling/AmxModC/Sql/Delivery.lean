import AmxModC.Sql.Interleaving

namespace AmxModC.Sql

/-! Where each object is while the two threads run: what a step moves, and to where. -/

namespace Threading

def adds (s : Threading) : List Nat :=
  match s.adding with
  | some (.makeThread object) | some (.addThreadToQueue object) | some (.enqueue object) => [object]
  | _ => []

def waiting (s : Threading) : List Nat :=
  match s.worker with
  | some w => w.ahead ++ s.adds
  | none => s.adds

def finished (s : Threading) : List Nat :=
  match s.worker with
  | some w => s.threadQueue ++ w.behind
  | none => s.threadQueue

def resting (s : Threading) : List Nat :=
  match s.frame with
  | .handler _ object _ => object :: s.freeThreads
  | _ => s.freeThreads

inductive Moved (s : Threading) : Event → Threading → Prop where
  | still {event : Event} {s' : Threading} (hbooks : s'.books = s.books)
      (hwaiting : s'.waiting = s.waiting) (hfinished : s'.finished = s.finished)
      (hresting : s'.resting = s.resting) : Moved s event s'
  | issued {event : Event} {s' : Threading} {info : ConnectInfo} {call : QueryCall}
      (hworker : s.worker ≠ none) (hadding : s.adding = none) (hasked : s.asked event = some call)
      (hcn : call.cn = some info) (hfwd : ¬call.fwd < 1)
      (hbooks : s'.books = s.take.2.books.issue s.take.1 info call)
      (hwaiting : s'.waiting = s.waiting ++ [s.take.1]) (hfinished : s'.finished = s.finished)
      (hresting : s'.resting = s.take.2.resting) : Moved s event s'
  | answered {answer : DriverAnswer} {s' : Threading} {object : Nat}
      (hbooks : s'.books = s.books.run object answer) (hwaiting : s.waiting = object :: s'.waiting)
      (hfinished : s'.finished = s.finished ++ [object]) (hresting : s'.resting = s.resting) :
      Moved s (.worker answer) s'
  | terminated {answer : DriverAnswer} {s' : Threading} {w : ThreadWorker Nat} {object done : Nat}
      {draining : Bool} (hworker : s.worker = some w)
      (hthread : w.thread = .onTerminate object done draining) (hbooks : s'.books = s.books)
      (hwaiting : s'.waiting = s.waiting) (hfinished : s.finished = s.threadQueue ++ [object])
      (hfinished' : s'.finished = object :: s.threadQueue) (hresting : s'.resting = s.resting) :
      Moved s (.worker answer) s'
  | executed {event : Event} {s' : Threading} {object : Nat}
      (hbooks : s'.books = s.books.execute object) (hwaiting : s'.waiting = s.waiting)
      (hfinished : s.finished = object :: s'.finished)
      (hresting : s'.resting = object :: s.resting) : Moved s event s'
  | invalidated {event : Event} {s' : Threading} {object : Nat} {rest : List Nat}
      (hbooks : s'.books = s.books.invalidate object) (hwaiting : s'.waiting = s.waiting)
      (hfinished : s'.finished = s.finished) (hresting : s.resting = object :: rest)
      (hresting' : s'.resting = s.resting) : Moved s event s'

section

variable {s s' : Threading} {event : Event}

theorem waiting_of_worker {w : ThreadWorker Nat} (hworker : s.worker = some w) :
    s.waiting = w.ahead ++ s.adds := by
  simp [waiting, hworker]

theorem finished_of_worker {w : ThreadWorker Nat} (hworker : s.worker = some w) :
    s.finished = s.threadQueue ++ w.behind := by
  simp [finished, hworker]

theorem take_of_frame (frame : MainFrame) :
    take { s with frame := frame } = (s.take.1, { s.take.2 with frame := frame }) := by
  cases hfree : s.freeThreads with
  | nil => simp [take, hfree]
  | cons object rest => simp [take, hfree]

theorem accept_of_frame (frame : MainFrame) (info : ConnectInfo) (call : QueryCall) :
    accept { s with frame := frame } info call =
      { s.take.2 with
        books := s.take.2.books.issue s.take.1 info call
        frame := frame
        adding := some (.makeThread s.take.1) } := by
  simp only [accept, take_of_frame]

theorem resting_of_asks {frame : MainFrame} {call : QueryCall} (hasks : s.frame.Asks call frame)
    {books : Books} {adding : Option (WorkerCall Nat)} :
    resting { s with books := books, frame := frame, adding := adding } = s.resting := by
  generalize hframe : s.frame = frame at hasks
  cases hasks with
  | plugin => simp [resting, hframe]
  | handler => simp [resting, hframe]

theorem Took.moved (htook : Took s event s') : Moved s event s' := by
  cases htook with
  | stay => exact .still rfl rfl rfl rfl
  | load hidle hworker =>
      refine .still rfl ?_ ?_ rfl
      · simp [waiting, hworker, ThreadWorker.ahead, ThreadWorker.started, adds, hidle.2]
      · simp [finished, hworker, ThreadWorker.behind, ThreadWorker.started]
  | startFrame hframe => exact .still rfl rfl rfl (by simp [resting, hframe])
  | unload hframe => exact .still rfl rfl rfl (by simp [resting, hframe])
  | accept hworker hadding hasks hasked hcn hfwd =>
      rw [accept_of_frame]
      refine .issued (by simp [hworker]) hadding hasked hcn hfwd rfl ?_ ?_
        (resting_of_asks (take_frame ▸ hasks))
      · simp [waiting, hworker, adds, hadding]
      · simp [finished, hworker]
  | refuse hasks => exact .still rfl rfl rfl (resting_of_asks hasks)
  | made hadding => exact .still rfl (by simp [waiting, adds, hadding]) rfl rfl
  | checked hadding => exact .still rfl (by simp [waiting, adds, hadding]) rfl rfl
  | enqueued hworker hadding =>
      refine .still rfl ?_ ?_ rfl
      · rw [waiting_of_worker rfl, waiting_of_worker hworker, ThreadWorker.ahead_signalWaiting,
          ThreadWorker.ahead_push]
        simp [adds, hadding]
      · rw [finished_of_worker rfl, finished_of_worker hworker, ThreadWorker.behind_signalWaiting,
          ThreadWorker.behind_push]
  | stopChecked hframe => exact .still rfl rfl rfl (by simp [resting, hframe])
  | stopSet hworker hframe =>
      refine .still rfl ?_ ?_ (by simp [resting, hframe])
      · rw [waiting_of_worker rfl, waiting_of_worker hworker]
        rfl
      · rw [finished_of_worker rfl, finished_of_worker hworker]
        rfl
  | stopSignalled hworker hframe =>
      refine .still rfl ?_ ?_ (by simp [resting, hframe])
      · rw [waiting_of_worker rfl, waiting_of_worker hworker, ThreadWorker.ahead_signalWaiting]
        rfl
      · rw [finished_of_worker rfl, finished_of_worker hworker, ThreadWorker.behind_signalWaiting]
  | joined hworker hframe hexited => exact .still rfl rfl rfl (by simp [resting, hframe])
  | @deleted _ w hworker hframe hexited hqueue =>
      have hfree : w.thread.Free := by simp [WorkerPc.Free, hexited]
      refine .still rfl ?_ ?_ (by simp [resting, hframe])
      · rw [waiting_of_worker hworker, ThreadWorker.ahead_of_free hfree, hqueue]
        rfl
      · rw [finished_of_worker hworker, ThreadWorker.behind_of_free hfree, List.append_nil]
        rfl
  | drained hframe hqueue => exact .still rfl rfl rfl (by simp [resting, hframe])
  | popped hframe hqueue =>
      refine .executed rfl rfl ?_ (by simp [resting, hframe])
      cases hworker : s.worker with
      | none => simp [finished, hqueue, hworker]
      | some w => simp [finished, hqueue, hworker]
  | @handled _ _ object hframe =>
      have hresting : s.resting = object :: s.freeThreads := by simp [resting, hframe]
      exact .invalidated rfl rfl rfl hresting hresting.symm
  | quiet hworker hfree hahead hbehind hstep =>
      refine .still rfl ?_ ?_ rfl
      · rw [waiting_of_worker rfl, waiting_of_worker hworker, hahead]
        rfl
      · rw [finished_of_worker rfl, finished_of_worker hworker, hbehind,
          ThreadWorker.behind_of_free hfree]
  | answered hworker hthread =>
      refine .answered rfl ?_ ?_ rfl
      · rw [waiting_of_worker hworker, waiting_of_worker rfl]
        simp [ThreadWorker.ahead, hthread, adds]
      · rw [finished_of_worker rfl, finished_of_worker hworker]
        simp [ThreadWorker.behind, hthread]
  | terminated hworker hthread =>
      refine .terminated hworker hthread rfl ?_ ?_ ?_ rfl
      · rw [waiting_of_worker rfl, waiting_of_worker hworker]
        simp [ThreadWorker.ahead, hthread, adds]
      · rw [finished_of_worker hworker]
        simp [ThreadWorker.behind, hthread]
      · rw [finished_of_worker rfl]
        simp [ThreadWorker.behind]

def Kept (s : Threading) : Prop := s.books.Tracked s.waiting s.finished s.resting

theorem kept_start : start.Kept := Books.tracked_empty

theorem Kept.take (h : s.Kept) :
    s.take.2.books.Tracked s.waiting s.finished (s.take.1 :: s.take.2.resting) := by
  unfold Kept at h
  cases hfree : s.freeThreads with
  | nil => simpa [Threading.take, resting, hfree] using h.allocate
  | cons object rest =>
      have hresting : s.resting.Perm (object :: resting { s with freeThreads := rest }) := by
        cases hframe : s.frame with
        | handler unloading other calls =>
            simp only [resting, hframe, hfree]
            exact .swap ..
        | _ => simp [resting, hframe, hfree]
      simpa [Threading.take, hfree] using h.perm (.refl _) (.refl _) hresting

theorem Kept.take_objects (h : s.Kept) :
    ∀ other ∈ s.waiting ++ s.finished,
      s.take.2.books.objects[other]? = s.books.objects[other]? := by
  intro other hmem
  cases hfree : s.freeThreads with
  | nil => simpa [Threading.take, hfree] using Books.Tracked.allocate_objects h other hmem
  | cons object rest => simp [Threading.take, hfree]

@[simp] theorem take_issued : s.take.2.books.issued = s.books.issued := by
  unfold Threading.take
  split
  next => rfl
  next => rfl

@[simp] theorem take_executed : s.take.2.books.executed = s.books.executed := by
  unfold Threading.take
  split
  next => rfl
  next => rfl

theorem Kept.issue_objects (h : s.Kept) (info : ConnectInfo) (call : QueryCall) :
    ∀ other ∈ s.waiting ++ s.finished,
      (s.take.2.books.issue s.take.1 info call).objects[other]? = s.books.objects[other]? :=
  fun other hmem => (h.take.modify_objects _ other hmem).trans (h.take_objects other hmem)

theorem Moved.kept (hmoved : Moved s event s') (h : s.Kept) : s'.Kept := by
  unfold Kept
  cases hmoved with
  | still hbooks hwaiting hfinished hresting =>
      rw [hbooks, hwaiting, hfinished, hresting]
      exact h
  | issued hworker hadding hasked hcn hfwd hbooks hwaiting hfinished hresting =>
      rw [hbooks, hwaiting, hfinished, hresting]
      exact (h.take.issue hcn).perm (List.perm_append_singleton ..).symm (.refl _) (.refl _)
  | answered hbooks hwaiting hfinished hresting =>
      unfold Kept at h
      rw [hwaiting] at h
      rw [hbooks, hfinished, hresting]
      exact (h.run _).perm (.refl _) (List.perm_append_singleton ..).symm (.refl _)
  | terminated _ _ hbooks hwaiting hfinished hfinished' hresting =>
      unfold Kept at h
      rw [hfinished] at h
      rw [hbooks, hwaiting, hfinished', hresting]
      exact h.perm (.refl _) (List.perm_append_singleton ..) (.refl _)
  | executed hbooks hwaiting hfinished hresting =>
      unfold Kept at h
      rw [hfinished] at h
      rw [hbooks, hwaiting, hresting]
      exact h.execute
  | invalidated hbooks hwaiting hfinished hresting hresting' =>
      unfold Kept at h
      rw [hresting] at h
      rw [hbooks, hwaiting, hfinished, hresting', hresting]
      exact h.invalidate

end

end Threading

end AmxModC.Sql
