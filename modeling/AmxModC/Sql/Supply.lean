import AmxModC.Foundation.Run
import AmxModC.Sql.Delivery

namespace AmxModC.Sql

open Foundation

/-! The data that a query takes to its handler, in the buffer of the object it gets. -/

namespace MysqlThread

def Supplied (thread : MysqlThread) (call : QueryCall) : Prop :=
  thread.datalen = call.data.length ∧ thread.data.take thread.datalen = call.data

variable {thread : MysqlThread} {call : QueryCall}

theorem supplied_fill (info : ConnectInfo) (serial : Nat)
    (hfresh : call.data = [] → thread.datalen = 0) :
    (thread.fill info call serial).Supplied call := by
  unfold Supplied fill setCellData
  by_cases hdata : call.data = []
  · simp [hdata, hfresh hdata]
  · have hlength : call.data.length ≠ 0 := by simpa using hdata
    simp [hlength]

theorem supplied_runThread (answer : DriverAnswer) :
    (thread.runThread answer).Supplied call ↔ thread.Supplied call := by
  cases answer with
  | noConnection => rfl
  | queryFails => rfl
  | succeeds rs => cases rs <;> rfl

end MysqlThread

def HandlerRun.Gets (handler : HandlerRun) (call : QueryCall) : Prop :=
  handler.data = (if call.data = [] then [0] else call.data) ∧ handler.size = call.data.length

theorem MysqlThread.Supplied.execute {thread : MysqlThread} {call : QueryCall}
    (h : thread.Supplied call) : thread.execute.Gets call := by
  refine ⟨?_, h.1⟩
  by_cases hdata : call.data = []
  · simp [MysqlThread.execute, h.1, hdata]
  · have hlength : thread.datalen ≠ 0 := by
      rw [h.1]
      simpa using hdata
    simp [MysqlThread.execute, hlength, h.2, hdata]

namespace Threading

/-- A query without data gets an object whose `m_datalen` is 0. -/
def TakesFresh (s : Threading) (event : Event) : Prop :=
  ∀ call thread, s.asked event = some call → s.worker ≠ none → s.adding = none →
    call.cn ≠ none → ¬call.fwd < 1 → call.data = [] →
    s.take.2.books.objects[s.take.1]? = some thread → thread.datalen = 0

def DataBelongs (s : Threading) : Prop :=
  ∀ handler ∈ s.books.executed, ∃ call, s.books.issued[handler.serial]? = some call ∧
    handler.fwd = call.fwd ∧ handler.Gets call

structure Supplied (s : Threading) : Prop where
  held : ∀ object ∈ s.waiting ++ s.finished, ∃ thread call,
    s.books.objects[object]? = some thread ∧ s.books.issued[thread.serial]? = some call ∧
      thread.Supplied call
  told : ∀ handler ∈ s.books.executed, ∃ call, s.books.issued[handler.serial]? = some call ∧
    handler.Gets call

theorem supplied_start : start.Supplied where
  held := by simp [waiting, finished, adds, start]
  told := by simp [start, Books.empty]

section

variable {s s' : Threading} {event : Event}

theorem Supplied.of_same (h : s.Supplied) (hissued : s'.books.issued = s.books.issued)
    (hexecuted : s'.books.executed = s.books.executed)
    (hobjects : ∀ object ∈ s'.waiting ++ s'.finished, object ∈ s.waiting ++ s.finished ∧
      s'.books.objects[object]? = s.books.objects[object]?) : s'.Supplied where
  held := by
    intro object hmem
    obtain ⟨hmem', hsame⟩ := hobjects object hmem
    rw [hsame, hissued]
    exact h.held object hmem'
  told := by
    rw [hexecuted, hissued]
    exact h.told

theorem Moved.supplied (hmoved : Moved s event s') (hkept : s.Kept) (hfresh : s.TakesFresh event)
    (h : s.Supplied) : s'.Supplied := by
  cases hmoved with
  | still hbooks hwaiting hfinished =>
      refine h.of_same (by rw [hbooks]) (by rw [hbooks]) fun object hmem => ?_
      rw [hwaiting, hfinished] at hmem
      exact ⟨hmem, by rw [hbooks]⟩
  | @issued _ _ info call hworker hadding hasked hcn hfwd hbooks hwaiting hfinished =>
      obtain ⟨thread, hthread, hself⟩ := hkept.take.issue_self info call
      have hempty : call.data = [] → thread.datalen = 0 := fun hdata =>
        hfresh call thread hasked hworker hadding (by simp [hcn]) hfwd hdata hthread
      have hissued : s'.books.issued = s.books.issued ++ [call] := by
        rw [hbooks]
        exact congrArg (· ++ [call]) take_issued
      have hold : ∀ {serial : Nat} {old : QueryCall}, s.books.issued[serial]? = some old →
          s'.books.issued[serial]? = some old := by
        intro serial old hcall
        rw [hissued]
        exact Books.getElem?_concat_of_some _ hcall
      refine ⟨fun object hmem => ?_, fun handler hmem => ?_⟩
      · have hmem' : object = s.take.1 ∨ object ∈ s.waiting ++ s.finished := by
          rw [hwaiting, hfinished] at hmem
          simp only [List.mem_append, List.mem_singleton] at hmem ⊢
          tauto
        rcases hmem' with rfl | hmem'
        · refine ⟨_, call, hbooks ▸ hself, ?_, MysqlThread.supplied_fill info _ hempty⟩
          rw [MysqlThread.fill_serial, take_issued, hissued]
          exact List.getElem?_concat_length
        · obtain ⟨thread', call', hobject, hcall, hsupplied⟩ := h.held object hmem'
          have hsame := hkept.issue_objects info call object hmem'
          exact ⟨thread', call', hbooks ▸ hsame.trans hobject, hold hcall, hsupplied⟩
      · have hexecuted : s'.books.executed = s.books.executed := hbooks ▸ take_executed
        obtain ⟨call', hcall, hgets⟩ := h.told handler (hexecuted ▸ hmem)
        exact ⟨call', hold hcall, hgets⟩
  | @answered answer _ object hbooks hwaiting hfinished =>
      obtain ⟨thread, call, hobject, hcall, hsupplied⟩ := h.held object (by simp [hwaiting])
      have hself : s'.books.objects[object]? = some (thread.runThread answer) := by
        rw [hbooks, Books.run_eq hobject]
        exact Books.modify_objects_self _ hobject
      have hother : ∀ other, object ≠ other →
          s'.books.objects[other]? = s.books.objects[other]? := by
        intro other hne
        rw [hbooks, Books.run_eq hobject]
        exact Books.modify_objects_ne _ hne
      refine ⟨fun other hmem => ?_, by simpa [hbooks] using h.told⟩
      by_cases heq : object = other
      · subst heq
        refine ⟨_, call, hself, ?_, (MysqlThread.supplied_runThread answer).mpr hsupplied⟩
        simpa [hbooks] using hcall
      · have hmem' : other ∈ s.waiting ++ s.finished := by
          rw [hfinished] at hmem
          rw [hwaiting]
          simp only [List.mem_append, List.mem_cons] at hmem ⊢
          tauto
        rw [hother other heq, hbooks, Books.run_issued]
        exact h.held other hmem'
  | terminated hworker hthread hbooks hwaiting hfinished hfinished' =>
      refine h.of_same (by rw [hbooks]) (by rw [hbooks]) fun object hmem => ?_
      refine ⟨?_, by rw [hbooks]⟩
      rw [hwaiting, hfinished'] at hmem
      rw [hfinished]
      simp only [List.mem_append, List.mem_cons] at hmem ⊢
      tauto
  | @executed _ _ object hbooks hwaiting hfinished =>
      obtain ⟨thread, call, hobject, hcall, hsupplied⟩ := h.held object (by simp [hfinished])
      rw [Books.execute_eq hobject] at hbooks
      refine ⟨fun other hmem => ?_, fun handler hmem => ?_⟩
      · have hmem' : other ∈ s.waiting ++ s.finished := by
          rw [hwaiting] at hmem
          rw [hfinished]
          simp only [List.mem_append, List.mem_cons] at hmem ⊢
          tauto
        simpa [hbooks] using h.held other hmem'
      · rw [hbooks] at hmem ⊢
        rcases List.mem_append.mp hmem with hmem' | hmem'
        · exact h.told handler hmem'
        · obtain rfl := List.mem_singleton.mp hmem'
          exact ⟨call, hcall, hsupplied.execute⟩
  | invalidated hbooks hwaiting hfinished hresting => 
      unfold Kept at hkept
      rw [hresting] at hkept
      refine h.of_same (by rw [hbooks]; rfl) (by rw [hbooks]; rfl) fun object hmem => ?_
      rw [hwaiting, hfinished] at hmem
      exact ⟨hmem, by rw [hbooks]; exact hkept.modify_objects _ object hmem⟩

structure InStock (s : Threading) : Prop where
  controlled : s.Controlled
  kept : s.Kept
  supplied : s.Supplied

theorem inStock_start : start.InStock := ⟨controlled_start, kept_start, supplied_start⟩

theorem InStock.step (h : s.InStock) (hfresh : s.TakesFresh event)
    (hstep : s.step event = some s') : s'.InStock := by
  obtain ⟨htook, hcontrolled⟩ := h.controlled.step hstep
  exact ⟨hcontrolled, htook.moved.kept h.kept, htook.moved.supplied h.kept hfresh h.supplied⟩

theorem InStock.dataBelongs (h : s.InStock) : s.DataBelongs := by
  intro handler hmem
  obtain ⟨call, hcall, hfwd, -⟩ := h.kept.answered handler hmem
  obtain ⟨call', hcall', hgets⟩ := h.supplied.told handler hmem
  obtain rfl := Option.some.inj (hcall.symm.trans hcall')
  exact ⟨call, hcall, hfwd, hgets⟩

end

/-- In every run in which queries without data get objects that never had any, each
handler is told the data of its own query. -/
theorem dataBelongs_of_takesFresh (events : List Event) {final : Threading}
    (hfresh : Meets step TakesFresh start events) (hrun : run step start events = some final) :
    final.DataBelongs :=
  (run_invariant (fun h hfresh hstep => InStock.step h hfresh hstep) inStock_start hfresh
    hrun).dataBelongs

theorem takesFresh_of_asked {s : Threading} {event : Event} (hasked : s.asked event = none) :
    s.TakesFresh event := by
  intro call thread hcall
  rw [hasked] at hcall
  cases hcall

def dataQuery : QueryCall := { oneQuery with data := [7, 8] }

/-- A query with data, and its handler in `StartFrame`. -/
def oneSupply : List Event :=
  [.onPluginsLoaded, .threadQuery dataQuery, .main [], .main [], .main [], .worker oneAnswer,
    .worker oneAnswer, .worker oneAnswer, .worker oneAnswer, .worker oneAnswer,
    .worker oneAnswer, .startFrame, .main []]

theorem dataBelongs_of_oneSupply : ∃ final,
    run step start oneSupply = some final ∧ final.DataBelongs := by
  obtain ⟨final, hrun⟩ : ∃ final, run step start oneSupply = some final := ⟨_, rfl⟩
  refine ⟨final, hrun, dataBelongs_of_takesFresh oneSupply ?_ hrun⟩
  refine .cons (takesFresh_of_asked rfl) rfl (.cons ?_ rfl ?_)
  · intro call thread hcall _ _ _ _ hdata
    obtain rfl := Option.some.inj hcall
    cases hdata
  refine .cons (takesFresh_of_asked rfl) rfl (.cons (takesFresh_of_asked rfl) rfl ?_)
  refine .cons (takesFresh_of_asked rfl) rfl (.cons (takesFresh_of_asked rfl) rfl ?_)
  refine .cons (takesFresh_of_asked rfl) rfl (.cons (takesFresh_of_asked rfl) rfl ?_)
  refine .cons (takesFresh_of_asked rfl) rfl (.cons (takesFresh_of_asked rfl) rfl ?_)
  refine .cons (takesFresh_of_asked rfl) rfl (.cons (takesFresh_of_asked rfl) rfl ?_)
  exact .cons (takesFresh_of_asked rfl) rfl trivial

/-- A query without data gets the object of one with two cells. -/
theorem not_dataBelongs_of_recycled :
    ¬∀ (events : List Event) (final : Threading), run step start events = some final →
      final.DataBelongs := by
  intro hall
  have hbelongs := hall (oneSupply ++ [.main [], .main [], .threadQuery oneQuery, .main [],
    .main [], .main [], .worker oneAnswer, .worker oneAnswer, .worker oneAnswer,
    .worker oneAnswer, .worker oneAnswer, .worker oneAnswer, .worker oneAnswer, .startFrame,
    .main []]) _ rfl
  obtain ⟨call, hcall, -, hgets⟩ := hbelongs _ (List.mem_of_getElem? (i := 1) rfl)
  obtain rfl := Option.some.inj hcall
  exact absurd hgets.2 (by decide)

end Threading

end AmxModC.Sql
