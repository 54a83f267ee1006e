import AmxModC.Foundation.Run
import AmxModC.Sql.Delivery
import AmxModC.Sql.Unload

namespace AmxModC.Sql

open Foundation

/-! Threaded queries over whole runs of the two threads. -/

namespace Threading

/-- Every handler ran once, for a query of its own and with what the driver answered to
it; none is outstanding after `OnPluginsUnloading`, and that returns whichever of the
`allowed` steps come. -/
structure NeitherLostNorDoubled (allowed : Threading → Event → Prop) (s : Threading) : Prop where
  once : (s.books.executed.map (·.serial)).Nodup
  answer : ∀ handler ∈ s.books.executed, ∃ call, s.books.issued[handler.serial]? = some call ∧
    handler.fwd = call.fwd ∧ ∃ asked ∈ s.books.ran, asked.serial = handler.serial ∧
      call.cn = some asked.info ∧ call.query = asked.query ∧ handler.told = asked.answer.told
  ofNoOther : (s.books.ran.map (·.serial)).Nodup
  noneOutstanding : s.Unloaded →
    ∀ serial < s.books.issued.length, serial ∈ s.books.executed.map (·.serial)
  returns : s.frame.Unloading → Inevitable step allowed Unloaded s

section

variable {s s' : Threading} {event : Event}

theorem Kept.answer (h : s.Kept) {handler : HandlerRun} (hmem : handler ∈ s.books.executed) :
    ∃ call, s.books.issued[handler.serial]? = some call ∧ handler.fwd = call.fwd ∧
      ∃ asked ∈ s.books.ran, asked.serial = handler.serial ∧ call.cn = some asked.info ∧
        call.query = asked.query ∧ handler.told = asked.answer.told := by
  obtain ⟨call, hcall, hfwd, asked, hasked, hserial, htold⟩ := h.answered handler hmem
  obtain ⟨call', hcall', hcn, hquery⟩ := h.asked asked hasked
  rw [hserial, hcall] at hcall'
  obtain rfl := Option.some.inj hcall'
  exact ⟨call, hcall, hfwd, asked, hasked, hserial, hcn, hquery, htold⟩

theorem Kept.noneOutstanding (h : s.Kept) (hidle : s.Idle) (hworker : s.worker = none)
    (hqueue : s.threadQueue = []) {serial : Nat} (hserial : serial < s.books.issued.length) :
    serial ∈ s.books.executed.map (·.serial) := by
  unfold Kept at h
  have hwaiting : s.waiting = [] := by simp [waiting, adds, hworker, hidle.2]
  have hfinished : s.finished = [] := by simp [finished, hworker, hqueue]
  rw [hwaiting, hfinished] at h
  exact h.executed_perm.mem_iff.mpr (List.mem_range.mpr hserial)

theorem Took.empty (htook : Took s event s') (h : s.Unloaded → s.threadQueue = [])
    (hunloaded : s'.Unloaded) : s'.threadQueue = [] := by
  obtain ⟨⟨hframe', hadding'⟩, hworker'⟩ := hunloaded
  cases htook with
  | stay hidle => exact h ⟨hidle, hworker'⟩
  | load => simp at hworker'
  | startFrame | unload | popped | handled => simp at hframe'
  | accept hworker => simp [hworker] at hworker'
  | refuse hasks =>
      generalize hframe : s.frame = frame at hasks
      cases hasks with
      | plugin => exact h ⟨⟨hframe, hadding'⟩, hworker'⟩
      | handler => simp at hframe'
  | made | checked => simp at hadding'
  | enqueued => simp at hworker'
  | stopChecked | stopSet | stopSignalled | joined | deleted => simp at hframe'
  | drained _ hqueue => exact hqueue
  | quiet | answered | terminated => simp at hworker'

structure Sound (s : Threading) : Prop where
  controlled : s.Controlled
  kept : s.Kept
  heard : s.Heard
  empty : s.Unloaded → s.threadQueue = []

theorem sound_start : start.Sound := ⟨controlled_start, kept_start, heard_start, fun _ => rfl⟩

theorem Sound.step (h : s.Sound) (harrives : s.StopArrives event)
    (hstep : s.step event = some s') : s'.Sound := by
  obtain ⟨htook, hcontrolled⟩ := h.controlled.step hstep
  exact ⟨hcontrolled, htook.moved.kept h.kept, htook.heard h.controlled harrives h.heard,
    htook.empty h.empty⟩

theorem Sound.neitherLostNorDoubled (h : s.Sound) : s.NeitherLostNorDoubled StopArrives where
  once := h.kept.executed_nodup
  answer := fun _ => h.kept.answer
  ofNoOther := h.kept.ran_nodup
  noneOutstanding := fun hunloaded _ =>
    h.kept.noneOutstanding hunloaded.1 hunloaded.2 (h.empty hunloaded)
  returns := fun hunloading => (Leaving.mk h.controlled h.heard hunloading).inevitable

end

/-- In every run in which `Stop` is heard, queries are neither lost nor doubled. -/
theorem neitherLostNorDoubled_of_stopArrives (events : List Event) {final : Threading}
    (harrive : Meets step StopArrives start events) (hrun : run step start events = some final) :
    final.NeitherLostNorDoubled StopArrives :=
  (run_invariant (fun h harrives hstep => Sound.step h harrives hstep) sound_start harrive
    hrun).neitherLostNorDoubled

def oneRun : List Event :=
  [.onPluginsLoaded, .threadQuery oneQuery, .main [], .main [], .main [], .worker oneAnswer,
    .worker oneAnswer, .worker oneAnswer, .worker oneAnswer, .worker oneAnswer,
    .onPluginsUnloading, .main [], .main [], .main [], .worker oneAnswer, .worker oneAnswer,
    .worker oneAnswer, .worker oneAnswer, .worker oneAnswer, .main [], .main [], .main [],
    .main [], .main []]

/-- One query from `SQL_ThreadQuery` to its handler, in `OnPluginsUnloading`. -/
theorem neitherLostNorDoubled_of_oneQuery : ∃ final,
    run step start oneRun = some final ∧
    final.NeitherLostNorDoubled StopArrives := by
  obtain ⟨final, hrun⟩ : ∃ final, run step start oneRun = some final := ⟨_, rfl⟩
  refine ⟨final, hrun, neitherLostNorDoubled_of_stopArrives oneRun ?_ hrun⟩
  refine .cons trivial rfl (.cons trivial rfl (.cons trivial rfl (.cons trivial rfl ?_)))
  refine .cons trivial rfl (.cons trivial rfl (.cons trivial rfl (.cons trivial rfl ?_)))
  refine .cons trivial rfl (.cons trivial rfl (.cons trivial rfl (.cons trivial rfl ?_)))
  refine .cons trivial rfl (.cons ?_ rfl (.cons trivial rfl (.cons trivial rfl ?_)))
  · intro hlooked
    rcases hlooked with hgap | ⟨-, thisState, hcheck⟩
    · cases hgap
    · cases hcheck
  refine .cons trivial rfl (.cons trivial rfl (.cons trivial rfl (.cons trivial rfl ?_)))
  exact .cons trivial rfl (.cons trivial rfl (.cons trivial rfl (.cons trivial rfl trivial)))

/-- `Stop` sends its signal after the thread's last look at the state. -/
theorem lost_of_lost_signal :
    ¬∀ (events : List Event) (final : Threading), run step start events = some final →
      final.NeitherLostNorDoubled fun _ _ => True := by
  intro hall
  have hreturns := (hall [.onPluginsLoaded, .worker oneAnswer, .worker oneAnswer,
    .threadQuery oneQuery, .main [], .main [], .main [], .onPluginsUnloading, .main [], .main [],
    .main [], .worker oneAnswer] _ rfl).returns trivial
  have hidle := (hreturns.of_stuck fun event => by cases event <;> rfl).1.1
  exact MainFrame.noConfusion hidle

end Threading

/-! The order in which the handlers run. -/

namespace Threading

/-- `OnTerminate` finds `g_ThreadQueue` empty: a stack that never holds two has no order to
turn round. -/
def PushesOnEmpty (s : Threading) : Event → Prop
  | .worker _ =>
      match s.worker with
      | none => True
      | some w =>
          match w.thread with
          | .onTerminate .. => s.threadQueue = []
          | _ => True
  | _ => True

def InIssueOrder (s : Threading) : Prop :=
  ∀ (i j : Nat) (first second : HandlerRun), s.books.executed[i]? = some first →
    s.books.executed[j]? = some second → first.serial < second.serial → i < j

/-- The queries in the order of their calls: those whose handler ran, those that the driver
has answered, those that wait for it. -/
def Ordered (s : Threading) : Prop :=
  s.books.executed.map (·.serial) ++ (s.finished ++ s.waiting).map s.books.serial =
    List.range s.books.issued.length

theorem ordered_start : start.Ordered := rfl

section

variable {s s' : Threading} {event : Event}

theorem Ordered.inIssueOrder (h : s.Ordered) : s.InIssueOrder := by
  have hserial : ∀ (i : Nat) (handler : HandlerRun), s.books.executed[i]? = some handler →
      handler.serial = i := by
    intro i handler hhandler
    obtain ⟨hlt, rfl⟩ := List.getElem?_eq_some_iff.mp hhandler
    have hmap : (s.books.executed.map (·.serial))[i]? = some s.books.executed[i].serial := by
      simp [hlt]
    have hrange : (List.range s.books.issued.length)[i]? = some s.books.executed[i].serial := by
      rw [← (h : _ = _), List.getElem?_append_left (by simpa using hlt), hmap]
    obtain ⟨hlt', heq⟩ := List.getElem?_eq_some_iff.mp hrange
    simpa using heq.symm
  intro i j first second hfirst hsecond hlt
  rwa [hserial i first hfirst, hserial j second hsecond] at hlt

theorem Moved.ordered (hmoved : Moved s event s') (hkept : s.Kept) (hempty : s.PushesOnEmpty event)
    (h : s.Ordered) : s'.Ordered := by
  unfold Ordered at h ⊢
  cases hmoved with
  | still hbooks hwaiting hfinished =>
      rw [hbooks, hwaiting, hfinished]
      exact h
  | @issued _ _ info call _ _ _ _ _ hbooks hwaiting hfinished =>
      obtain ⟨thread, -, hself⟩ := hkept.take.issue_self info call
      have hserial := Books.serial_eq hself
      rw [MysqlThread.fill_serial, take_issued] at hserial
      have hsame : (s.finished ++ s.waiting).map s'.books.serial =
          (s.finished ++ s.waiting).map s.books.serial := by
        refine Books.map_serial_congr fun other hmem => ?_
        rw [hbooks]
        exact hkept.issue_objects info call other (by
          rw [List.mem_append] at hmem ⊢
          exact hmem.symm)
      have hexecuted : s'.books.executed = s.books.executed := by rw [hbooks]; exact take_executed
      have hissued : s'.books.issued = s.books.issued ++ [call] := by
        rw [hbooks]
        exact congrArg (· ++ [call]) take_issued
      rw [hwaiting, hfinished, ← List.append_assoc, List.map_append, hsame, hexecuted, hissued,
        List.length_append, List.length_singleton, List.range_succ, ← h, List.append_assoc,
        hbooks, List.map_singleton, hserial]
  | answered hbooks hwaiting hfinished =>
      rw [hwaiting] at h
      rw [hbooks, hfinished, Books.run_serial, Books.run_executed, Books.run_issued,
        List.append_assoc, List.singleton_append]
      exact h
  | terminated hworker hthread hbooks hwaiting hfinished hfinished' =>
      have hqueue : s.threadQueue = [] := by
        simpa [PushesOnEmpty, hworker, hthread] using hempty
      rw [hfinished, hqueue] at h
      rw [hbooks, hwaiting, hfinished', hqueue]
      exact h
  | @executed _ _ object hbooks hwaiting hfinished =>
      obtain ⟨thread, hobject⟩ := hkept.exists_object (by simp [hfinished] : object ∈ _)
      have hserial : thread.execute.serial = s.books.serial object :=
        (Books.serial_eq hobject).symm
      rw [hfinished, List.cons_append, List.map_cons, ← hserial] at h
      rw [hbooks, Books.execute_eq hobject, hwaiting, List.map_append, List.map_singleton,
        List.append_assoc, List.singleton_append]
      exact h
  | @invalidated _ _ object rest hbooks hwaiting hfinished => 
      have hserial : s'.books.serial = s.books.serial := by
        rw [hbooks]
        exact Books.serial_modify (f := MysqlThread.invalidate) (fun _ => rfl) object
      rw [hserial, hbooks, hwaiting, hfinished]
      exact h

structure InLine (s : Threading) : Prop where
  controlled : s.Controlled
  kept : s.Kept
  ordered : s.Ordered

theorem inLine_start : start.InLine := ⟨controlled_start, kept_start, ordered_start⟩

theorem InLine.step (h : s.InLine) (hempty : s.PushesOnEmpty event)
    (hstep : s.step event = some s') : s'.InLine := by
  obtain ⟨htook, hcontrolled⟩ := h.controlled.step hstep
  exact ⟨hcontrolled, htook.moved.kept h.kept, htook.moved.ordered h.kept hempty h.ordered⟩

end

/-- One query, and its handler in `StartFrame`. -/
def oneAtATime : List Event :=
  [.onPluginsLoaded, .threadQuery oneQuery, .main [], .main [], .main [], .worker oneAnswer,
    .worker oneAnswer, .worker oneAnswer, .worker oneAnswer, .worker oneAnswer,
    .worker oneAnswer, .startFrame, .main []]

end Threading

end AmxModC.Sql
