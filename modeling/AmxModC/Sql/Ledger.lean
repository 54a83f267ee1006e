import Mathlib.Data.List.Perm.Lattice
import AmxModC.Sql.Requests

namespace AmxModC.Sql

/-! Every object of the books in one place: waiting for the driver with a query, finished
by it, or resting without one. -/

namespace MysqlThread

variable (thread : MysqlThread)

theorem setCellData_serial (data : List Cell) : (thread.setCellData data).serial = thread.serial := by
  unfold setCellData
  split
  next => split <;> rfl
  next => split <;> rfl

theorem setCellData_carries {call : QueryCall} (data : List Cell) :
    (thread.setCellData data).Carries call ↔ thread.Carries call := by
  unfold setCellData
  split
  next => split <;> rfl
  next => split <;> rfl

theorem fill_serial (info : ConnectInfo) (call : QueryCall) (serial : Nat) :
    (thread.fill info call serial).serial = serial := setCellData_serial ..

theorem fill_carries {info : ConnectInfo} {call : QueryCall} (hcn : call.cn = some info)
    (serial : Nat) : (thread.fill info call serial).Carries call :=
  (setCellData_carries ..).mpr ⟨hcn, rfl, rfl⟩

@[simp] theorem runThread_serial (answer : DriverAnswer) :
    (thread.runThread answer).serial = thread.serial := by
  cases answer with
  | noConnection => rfl
  | queryFails => rfl
  | succeeds rs => cases rs <;> rfl

theorem runThread_carries {call : QueryCall} (answer : DriverAnswer) :
    (thread.runThread answer).Carries call ↔ thread.Carries call := by
  cases answer with
  | noConnection => rfl
  | queryFails => rfl
  | succeeds rs => cases rs <;> rfl

end MysqlThread

namespace Books

variable {books : Books} {object other : Nat} {thread : MysqlThread}

theorem modify_objects_self (f : MysqlThread → MysqlThread)
    (hobject : books.objects[object]? = some thread) :
    (books.modify object f).objects[object]? = some (f thread) := by
  simp [modify, hobject]

theorem modify_objects_ne (f : MysqlThread → MysqlThread) (hne : object ≠ other) :
    (books.modify object f).objects[other]? = books.objects[other]? := by
  simp [modify, hne]

theorem serial_eq (hobject : books.objects[object]? = some thread) :
    books.serial object = thread.serial := by
  simp [serial, hobject]

theorem map_serial_congr {books' : Books} {objects : List Nat}
    (hsame : ∀ object ∈ objects, books'.objects[object]? = books.objects[object]?) :
    objects.map books'.serial = objects.map books.serial := by
  refine List.map_congr_left fun object hmem => ?_
  simp [serial, hsame object hmem]

theorem serial_modify {f : MysqlThread → MysqlThread}
    (hf : ∀ thread, (f thread).serial = thread.serial) (object : Nat) :
    (books.modify object f).serial = books.serial := by
  funext other
  by_cases heq : object = other
  · subst heq
    cases hobject : books.objects[object]? with
    | none => simp [serial, modify, hobject]
    | some thread => rw [serial_eq (modify_objects_self f hobject), serial_eq hobject, hf]
  · simp [serial, modify_objects_ne f heq]

theorem run_serial (object : Nat) (answer : DriverAnswer) :
    (books.run object answer).serial = books.serial := by
  unfold run
  split
  next => rfl
  next => exact serial_modify (fun _ => MysqlThread.runThread_serial _ answer) object

@[simp] theorem run_executed (object : Nat) (answer : DriverAnswer) :
    (books.run object answer).executed = books.executed := by
  unfold run
  split
  next => rfl
  next => rfl

@[simp] theorem run_issued (object : Nat) (answer : DriverAnswer) :
    (books.run object answer).issued = books.issued := by
  unfold run
  split
  next => rfl
  next => rfl

theorem execute_eq (hobject : books.objects[object]? = some thread) :
    books.execute object = { books with executed := books.executed ++ [thread.execute] } := by
  simp [execute, hobject]

theorem run_eq {answer : DriverAnswer} (hobject : books.objects[object]? = some thread) :
    books.run object answer =
      { books.modify object (·.runThread answer) with
        ran := books.ran ++ [⟨thread.serial, thread.info, thread.query, answer⟩] } := by
  simp [run, hobject]

theorem getElem?_concat_of_some {α : Type*} {l : List α} {i : Nat} {a : α} (b : α)
    (h : l[i]? = some a) : (l ++ [b])[i]? = some a := by
  rw [List.getElem?_append_left (List.getElem?_eq_some_iff.mp h).1, h]

structure Tracked (books : Books) (waiting finished resting : List Nat) : Prop where
  places : (waiting ++ finished ++ resting).Perm (List.range books.objects.length)
  serials : (books.executed.map (·.serial) ++ (waiting ++ finished).map books.serial).Perm
    (List.range books.issued.length)
  ran : (books.ran.map (·.serial)).Perm
    (books.executed.map (·.serial) ++ finished.map books.serial)
  carries : ∀ object ∈ waiting ++ finished, ∃ thread call,
    books.objects[object]? = some thread ∧ books.issued[thread.serial]? = some call ∧
      thread.Carries call
  holds : ∀ object ∈ finished, ∃ thread, books.objects[object]? = some thread ∧
    ∃ asked ∈ books.ran, asked.serial = thread.serial ∧
      thread.execute.told = asked.answer.told
  asked : ∀ asked ∈ books.ran, ∃ call, books.issued[asked.serial]? = some call ∧
    call.cn = some asked.info ∧ call.query = asked.query
  answered : ∀ handler ∈ books.executed, ∃ call, books.issued[handler.serial]? = some call ∧
    handler.fwd = call.fwd ∧ ∃ asked ∈ books.ran, asked.serial = handler.serial ∧
      handler.told = asked.answer.told

theorem tracked_empty : empty.Tracked [] [] [] where
  places := List.Perm.nil
  serials := List.Perm.nil
  ran := List.Perm.nil
  carries := by simp
  holds := by simp
  asked := by simp [empty]
  answered := by simp [empty]

section

variable {waiting finished resting : List Nat}

theorem Tracked.perm (h : books.Tracked waiting finished resting)
    {waiting' finished' resting' : List Nat} (hwaiting : waiting.Perm waiting')
    (hfinished : finished.Perm finished') (hresting : resting.Perm resting') :
    books.Tracked waiting' finished' resting' where
  places := ((hwaiting.append hfinished).append hresting).symm.trans h.places
  serials := (((hwaiting.append hfinished).map _).append_left _).symm.trans h.serials
  ran := h.ran.trans ((hfinished.map _).append_left _)
  carries := fun object hmem =>
    h.carries object ((hwaiting.append hfinished).mem_iff.mpr hmem)
  holds := fun object hmem => h.holds object (hfinished.mem_iff.mpr hmem)
  asked := h.asked
  answered := h.answered

theorem Tracked.nodup (h : books.Tracked waiting finished resting) :
    (waiting ++ finished ++ resting).Nodup :=
  h.places.nodup_iff.mpr List.nodup_range

theorem Tracked.exists_object (h : books.Tracked waiting finished resting)
    (hmem : object ∈ waiting ++ finished ++ resting) :
    ∃ thread, books.objects[object]? = some thread :=
  ⟨_, List.getElem?_eq_getElem (List.mem_range.mp (h.places.mem_iff.mp hmem))⟩

theorem Tracked.executed_nodup (h : books.Tracked waiting finished resting) :
    (books.executed.map (·.serial)).Nodup :=
  (List.nodup_append.mp (h.serials.nodup_iff.mpr List.nodup_range)).1

theorem Tracked.ran_nodup (h : books.Tracked waiting finished resting) :
    (books.ran.map (·.serial)).Nodup := by
  refine h.ran.nodup_iff.mpr ?_
  have hserials := h.serials.nodup_iff.mpr List.nodup_range
  rw [List.map_append, ← List.append_assoc] at hserials
  exact hserials.sublist
    ((List.sublist_append_left _ _).append (List.Sublist.refl _))

theorem Tracked.executed_perm (h : books.Tracked [] [] resting) :
    (books.executed.map (·.serial)).Perm (List.range books.issued.length) := by
  simpa using h.serials

/-! What the objects that carry a query say, in books that leave these objects alone. -/

theorem Tracked.carries_of_same (h : books.Tracked waiting finished resting) {books' : Books}
    (hsame : ∀ other ∈ waiting ++ finished, books'.objects[other]? = books.objects[other]?)
    (hissued : ∀ {serial : Nat} {call : QueryCall}, books.issued[serial]? = some call →
      books'.issued[serial]? = some call) :
    ∀ other ∈ waiting ++ finished, ∃ thread call,
      books'.objects[other]? = some thread ∧ books'.issued[thread.serial]? = some call ∧
        thread.Carries call := by
  intro other hmem
  obtain ⟨thread, call, hobject, hcall, hcarries⟩ := h.carries other hmem
  exact ⟨thread, call, (hsame other hmem).trans hobject, hissued hcall, hcarries⟩

theorem Tracked.holds_of_same (h : books.Tracked waiting finished resting) {books' : Books}
    (hsame : ∀ other ∈ waiting ++ finished, books'.objects[other]? = books.objects[other]?)
    (hran : books'.ran = books.ran) :
    ∀ other ∈ finished, ∃ thread, books'.objects[other]? = some thread ∧
      ∃ asked ∈ books'.ran, asked.serial = thread.serial ∧
        thread.execute.told = asked.answer.told := by
  intro other hmem
  obtain ⟨thread, hobject, hasked⟩ := h.holds other hmem
  rw [hran]
  exact ⟨thread, (hsame other (List.mem_append_right _ hmem)).trans hobject, hasked⟩

theorem Tracked.map_serial_of_same (h : books.Tracked waiting finished resting) {books' : Books}
    (hsame : ∀ other ∈ waiting ++ finished, books'.objects[other]? = books.objects[other]?) :
    (books.ran.map (·.serial)).Perm
      (books.executed.map (·.serial) ++ finished.map books'.serial) := by
  rw [map_serial_congr fun other hmem => hsame other (List.mem_append_right _ hmem)]
  exact h.ran

/-! How an object moves. -/

theorem Tracked.allocate_objects (h : books.Tracked waiting finished resting) :
    ∀ other ∈ waiting ++ finished,
      books.allocate.objects[other]? = books.objects[other]? := by
  intro other hmem
  obtain ⟨thread, call, hobject, -⟩ := h.carries other hmem
  have hold : books.allocate.objects[other]? = some thread := getElem?_concat_of_some _ hobject
  rw [hold, hobject]

theorem Tracked.allocate (h : books.Tracked waiting finished resting) :
    books.allocate.Tracked waiting finished (books.objects.length :: resting) := by
  have hsame := h.allocate_objects
  refine ⟨?_, ?_, h.map_serial_of_same hsame, h.carries_of_same hsame id,
    h.holds_of_same hsame rfl, h.asked, h.answered⟩
  · have hlength : books.allocate.objects.length = books.objects.length + 1 := by simp [Books.allocate]
    rw [hlength, List.range_succ]
    exact List.perm_middle.trans ((h.places.cons _).trans (List.perm_append_singleton ..).symm)
  · rw [map_serial_congr hsame]
    exact h.serials

theorem Tracked.modify_objects (h : books.Tracked waiting finished (object :: resting))
    (f : MysqlThread → MysqlThread) :
    ∀ other ∈ waiting ++ finished,
      (books.modify object f).objects[other]? = books.objects[other]? := by
  intro other hmem
  refine modify_objects_ne f fun heq => ?_
  have hnodup := List.nodup_middle.mp h.nodup
  exact (List.nodup_cons.mp hnodup).1 (List.mem_append_left _ (heq ▸ hmem))

theorem Tracked.issue_self (h : books.Tracked waiting finished (object :: resting))
    (info : ConnectInfo) (call : QueryCall) :
    ∃ thread, books.objects[object]? = some thread ∧
      (books.issue object info call).objects[object]? =
        some (thread.fill info call books.issued.length) := by
  have hmem : object ∈ waiting ++ finished ++ object :: resting := by simp
  obtain ⟨thread, hobject⟩ := h.exists_object hmem
  exact ⟨thread, hobject, modify_objects_self _ hobject⟩

theorem Tracked.issue (h : books.Tracked waiting finished (object :: resting))
    {info : ConnectInfo} {call : QueryCall} (hcn : call.cn = some info) :
    (books.issue object info call).Tracked (object :: waiting) finished resting := by
  obtain ⟨thread, hobject, hself⟩ := h.issue_self info call
  have hother : ∀ other ∈ waiting ++ finished,
      (books.issue object info call).objects[other]? = books.objects[other]? :=
    h.modify_objects _
  have hissued : ∀ {serial : Nat} {old : QueryCall}, books.issued[serial]? = some old →
      (books.issue object info call).issued[serial]? = some old := getElem?_concat_of_some _
  have hserial : (books.issue object info call).serial object = books.issued.length := by
    rw [serial_eq hself, MysqlThread.fill_serial]
  refine ⟨?_, ?_, h.map_serial_of_same hother, ?_, h.holds_of_same hother rfl,
    ?_, ?_⟩
  · simpa [Books.issue, modify] using List.perm_middle.symm.trans h.places
  · have hlength : (books.issue object info call).issued.length = books.issued.length + 1 := by
      simp [Books.issue]
    rw [List.cons_append, List.map_cons, hserial, map_serial_congr hother, hlength, List.range_succ]
    exact List.perm_middle.trans ((h.serials.cons _).trans (List.perm_append_singleton ..).symm)
  · intro other hmem
    rw [List.cons_append, List.mem_cons] at hmem
    rcases hmem with rfl | hmem
    · refine ⟨_, call, hself, ?_, MysqlThread.fill_carries _ hcn _⟩
      rw [MysqlThread.fill_serial]
      exact List.getElem?_concat_length
    · exact h.carries_of_same hother hissued other hmem
  · intro asked hmem
    obtain ⟨call', hcall, hcarried⟩ := h.asked asked hmem
    exact ⟨call', hissued hcall, hcarried⟩
  · intro handler hmem
    obtain ⟨call', hcall, htold⟩ := h.answered handler hmem
    exact ⟨call', hissued hcall, htold⟩

theorem Tracked.run (h : books.Tracked (object :: waiting) finished resting)
    (answer : DriverAnswer) :
    (books.run object answer).Tracked waiting (object :: finished) resting := by
  obtain ⟨thread, call, hobject, hcall, hcarries⟩ := h.carries object (by simp)
  have hnotMem : object ∉ waiting ++ finished := by
    have hnodup : (object :: (waiting ++ finished ++ resting)).Nodup := h.nodup
    exact fun hmem => (List.nodup_cons.mp hnodup).1 (List.mem_append_left _ hmem)
  rw [run_eq hobject]
  have hself := modify_objects_self (·.runThread answer) hobject
  have hother : ∀ other ∈ waiting ++ finished,
      (books.modify object (·.runThread answer)).objects[other]? = books.objects[other]? :=
    fun other hmem => modify_objects_ne _ fun heq => hnotMem (heq ▸ hmem)
  have hserial : (books.modify object (·.runThread answer)).serial = books.serial :=
    serial_modify (fun _ => MysqlThread.runThread_serial _ answer) object
  refine ⟨?_, ?_, ?_, ?_, ?_, ?_, ?_⟩
  · have hplaces : (object :: waiting ++ finished ++ resting).Perm
        (List.range (books.modify object (·.runThread answer)).objects.length) := by
      simpa [modify] using h.places
    exact (List.perm_middle.append_right resting).trans hplaces
  · change (books.executed.map _ ++ (waiting ++ object :: finished).map
      (books.modify object _).serial).Perm (List.range books.issued.length)
    rw [hserial]
    exact ((List.perm_middle.map _).append_left _).trans h.serials
  · change ((books.ran ++ [_]).map _).Perm (books.executed.map _ ++
      (object :: finished).map (books.modify object _).serial)
    rw [List.map_append, hserial, List.map_cons (f := books.serial), serial_eq hobject]
    exact (List.perm_append_singleton ..).trans ((h.ran.cons _).trans List.perm_middle.symm)
  · intro other hmem
    by_cases heq : other = object
    · subst heq
      have hcall' : books.issued[(thread.runThread answer).serial]? = some call := by
        simpa using hcall
      exact ⟨_, call, hself, hcall', (MysqlThread.runThread_carries ..).mpr hcarries⟩
    · have hmem' : other ∈ waiting ++ finished := by simpa [heq] using hmem
      obtain ⟨thread', call', hobject', hcall', hcarries'⟩ :=
        h.carries other (List.mem_cons_of_mem _ hmem')
      exact ⟨thread', call', (hother other hmem').trans hobject', hcall', hcarries'⟩
  · intro other hmem
    rcases List.mem_cons.mp hmem with rfl | hmem'
    · exact ⟨_, hself, _, List.mem_append_right _ (List.mem_singleton_self _), by simp,
        MysqlThread.execute_runThread ..⟩
    · obtain ⟨thread', hobject', asked, hasked, htold⟩ := h.holds other hmem'
      exact ⟨thread', (hother other (List.mem_append_right _ hmem')).trans hobject', asked,
        List.mem_append_left _ hasked, htold⟩
  · intro asked hmem
    rcases List.mem_append.mp hmem with hold | hnew
    · exact h.asked asked hold
    · obtain rfl := List.mem_singleton.mp hnew
      exact ⟨call, hcall, hcarries.1, hcarries.2.2.symm⟩
  · intro handler hmem
    obtain ⟨call', hcall', hfwd, asked, hasked, htold⟩ := h.answered handler hmem
    exact ⟨call', hcall', hfwd, asked, List.mem_append_left _ hasked, htold⟩

theorem Tracked.execute (h : books.Tracked waiting (object :: finished) resting) :
    (books.execute object).Tracked waiting finished (object :: resting) := by
  obtain ⟨thread, call, hobject, hcall, hcarries⟩ := h.carries object (by simp)
  rw [execute_eq hobject]
  have hserial : books.serial object = thread.execute.serial := serial_eq hobject
  refine ⟨?_, ?_, ?_, ?_, ?_, h.asked, ?_⟩
  · refine List.Perm.trans ?_ h.places
    rw [List.append_assoc, List.append_assoc]
    exact List.Perm.append_left _ List.perm_middle
  · refine List.Perm.trans ?_ h.serials
    rw [List.perm_iff_count]
    intro serial
    change List.count serial ((books.executed ++ [_]).map _ ++ (waiting ++ finished).map
      books.serial) = _
    simp only [List.map_append, List.map_cons, List.map_nil, List.count_append, List.count_cons,
      List.count_nil, hserial]
    omega
  · refine h.ran.trans ?_
    rw [List.perm_iff_count]
    intro serial
    change _ = List.count serial ((books.executed ++ [_]).map _ ++ finished.map books.serial)
    simp only [List.map_append, List.map_cons, List.map_nil, List.count_append, List.count_cons,
      List.count_nil, hserial]
    omega
  · intro other hmem
    have hmem' : other ∈ waiting ++ object :: finished := by
      rw [List.mem_append] at hmem ⊢
      exact hmem.imp_right (List.mem_cons_of_mem _)
    exact h.carries other hmem'
  · exact fun other hmem => h.holds other (List.mem_cons_of_mem _ hmem)
  · intro handler hmem
    rcases List.mem_append.mp hmem with hold | hnew
    · exact h.answered handler hold
    · obtain rfl := List.mem_singleton.mp hnew
      obtain ⟨thread', hobject', asked, hasked, hsame, htold⟩ := h.holds object List.mem_cons_self
      rw [hobject, Option.some.injEq] at hobject'
      subst hobject'
      exact ⟨call, hcall, hcarries.2.1, asked, hasked, hsame, htold⟩

theorem Tracked.invalidate (h : books.Tracked waiting finished (object :: resting)) :
    (books.invalidate object).Tracked waiting finished (object :: resting) := by
  have hother : ∀ other ∈ waiting ++ finished,
      (books.invalidate object).objects[other]? = books.objects[other]? := h.modify_objects _
  refine ⟨?_, ?_, h.map_serial_of_same hother, h.carries_of_same hother id,
    h.holds_of_same hother rfl, h.asked, h.answered⟩
  · simpa [Books.invalidate, modify] using h.places
  · rw [map_serial_congr hother]
    exact h.serials

end

end Books

end AmxModC.Sql
