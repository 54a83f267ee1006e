import AmxModC.Sql.Lifetimes

namespace AmxModC.Sql

open Foundation

/-! Whole runs of the natives, ended by `FreeHandleTable`. -/

namespace SqlState

variable {s : SqlState}

/-- A query is executed, or deleted with a result set, only while its database is
there, and the queries of `dbi_query` and `dbi_query2` succeed. -/
def Allowed (s : SqlState) : SqlCall → Prop
  | .sqlExecute num _ => ∀ query q, s.table.getHandle num .query = some (.queryInfo query) →
      s.heap.queries[query]? = some q → s.heap.Alive (.database q.database)
  | .sqlFreeHandle num => s.Freeable num
  | .dbiFreeResult num => s.table.getHandle num .oldResult ≠ none → s.Freeable num
  | .dbiQuery num outcome => s.table.getHandle num .oldDb ≠ none → outcome.info.success = true
  | .dbiQuery2 num outcome => s.table.getHandle num .oldDb ≠ none → outcome.info.success = true
  | _ => True

theorem Owned.step (h : s.Owned) {call : SqlCall} (hallowed : s.Allowed call) :
    ∃ next, s.step call = some next ∧ next.Owned := by
  cases call with
  | sqlMakeDbTuple =>
      obtain ⟨answer, hanswer, hnext⟩ := h.sqlMakeDbTuple
      exact ⟨answer.1, by simp [SqlState.step, hanswer], hnext⟩
  | sqlConnect num connected =>
      obtain ⟨answer, hanswer, hnext⟩ := h.sqlConnect num connected
      exact ⟨answer.1, by simp [SqlState.step, hanswer], hnext⟩
  | sqlPrepareQuery num =>
      obtain ⟨answer, hanswer, hnext⟩ := h.sqlPrepareQuery num
      exact ⟨answer.1, by simp [SqlState.step, hanswer], hnext⟩
  | sqlExecute num outcome =>
      obtain ⟨answer, hanswer, hnext⟩ := h.sqlExecute outcome hallowed
      exact ⟨answer.1, by simp [SqlState.step, hanswer], hnext⟩
  | sqlFreeHandle num =>
      obtain ⟨answer, hanswer, hnext⟩ := h.sqlFreeHandle hallowed
      exact ⟨answer.1, by simp [SqlState.step, hanswer], hnext⟩
  | dbiConnect connected =>
      obtain ⟨answer, hanswer, hnext⟩ := h.dbiConnect connected
      exact ⟨answer.1, by simp [SqlState.step, hanswer], hnext⟩
  | dbiQuery num outcome =>
      obtain ⟨answer, hanswer, hnext⟩ := h.dbiQueryInfo outcome hallowed
      exact ⟨answer.1.1, by simp [SqlState.step, SqlState.dbiQuery, hanswer], hnext⟩
  | dbiQuery2 num outcome =>
      obtain ⟨answer, hanswer, hnext⟩ := h.dbiQueryInfo outcome hallowed
      exact ⟨answer.1.1, by simp [SqlState.step, SqlState.dbiQuery2, hanswer], hnext⟩
  | dbiFreeResult num =>
      obtain ⟨answer, hanswer, hnext⟩ := h.dbiFreeResult hallowed
      exact ⟨answer.1, by simp [SqlState.step, hanswer], hnext⟩
  | dbiClose num =>
      obtain ⟨answer, hanswer, hnext⟩ := h.dbiClose num
      exact ⟨answer.1, by simp [SqlState.step, hanswer], hnext⟩

/-- The table as `FreeHandleTable` has to find it: above every handle that owns an
object another one is live, and a database comes after its queries with results. -/
structure ClearsInOrder (s : SqlState) : Prop where
  neighbour : ∀ num object, s.table.live num = some object → object.ptr.target ≠ none →
    s.table.live (num + 1) ≠ none
  order : ∀ num object query q rs, s.table.live num = some object →
    object.ptr.target = some (.query query) → s.heap.queries[query]? = some q →
    q.lastRes = some rs → ∃ later object', num < later ∧ s.table.live later = some object' ∧
      object'.ptr.target = some (.database rs.mysql)

/-- The state in which the loop over the table comes to slot `i`. -/
structure Swept (s : SqlState) (i : Nat)
    (swept : HandleTable SqlPtr FreeFunc × List (FreeCall SqlPtr FreeFunc)) (reached : SqlState) :
    Prop where
  table : swept.1 = reached.table
  heap : swept.2.foldlM SqlHeap.runCall s.heap = some reached.heap
  owned : reached.Owned
  live : ∀ num, reached.table.live num =
    if num < i ∧ (s.table.live (num + 1)).isSome then none else s.table.live num
  results : s.heap.SameResults reached.heap

theorem Swept.live_of_le {i : Nat}
    {swept : HandleTable SqlPtr FreeFunc × List (FreeCall SqlPtr FreeFunc)} {reached : SqlState}
    (h : s.Swept i swept reached) {num : Nat} (hle : i ≤ num) :
    reached.table.live num = s.table.live num := by
  rw [h.live, if_neg fun hlt => absurd hlt.1 (Nat.not_lt.mpr hle)]

theorem Swept.skip {i : Nat}
    {swept : HandleTable SqlPtr FreeFunc × List (FreeCall SqlPtr FreeFunc)} {reached : SqlState}
    (h : s.Swept i swept reached)
    (hskip : (s.table.live (i + 1)).isSome → s.table.live i = none) :
    s.Swept (i + 1) swept reached := by
  refine ⟨h.table, h.heap, h.owned, fun num => ?_, h.results⟩
  rcases Nat.lt_trichotomy num i with hlt | rfl | hgt
  · simp [h.live, hlt, Nat.lt_succ_of_lt hlt]
  · rw [h.live_of_le (Nat.le_refl _)]
    split
    next hfreed => exact hskip hfreed.2
    next => rfl
  · rw [h.live_of_le (Nat.le_of_lt hgt), if_neg]
    exact fun hfreed => absurd hfreed.1 (Nat.not_lt.mpr hgt)

theorem Swept.freeable (horder : s.ClearsInOrder) {i : Nat}
    {swept : HandleTable SqlPtr FreeFunc × List (FreeCall SqlPtr FreeFunc)} {reached : SqlState}
    (h : s.Swept i swept reached) : reached.Freeable i := by
  intro object target hlive htarget
  cases target with
  | database db => trivial
  | query query =>
      intro q' rs hquery hrs
      obtain ⟨q, hq, hresults, -⟩ := h.results hquery
      rw [h.live_of_le (Nat.le_refl _)] at hlive
      obtain ⟨later, object', hlater, hlive', htarget'⟩ :=
        horder.order i object query q rs hlive htarget hq (hresults.trans hrs)
      rw [← h.live_of_le (Nat.le_of_lt hlater)] at hlive'
      exact h.owned.alive_iff.mpr ⟨later, object', hlive', htarget'⟩

theorem Swept.visit (horder : s.ClearsInOrder) {i : Nat}
    {swept : HandleTable SqlPtr FreeFunc × List (FreeCall SqlPtr FreeFunc)} {reached : SqlState}
    (h : s.Swept i swept reached) :
    ∃ next, s.Swept (i + 1) (HandleTable.visit (fun _ => true) swept i) next := by
  have hwf : swept.1.WellFormed := h.table ▸ h.owned.wellFormed
  have hnext : swept.1.live (i + 1) = s.table.live (i + 1) := by
    rw [h.table, h.live_of_le (Nat.le_succ i)]
  rw [HandleTable.visit_eq hwf, hnext]
  cases hneighbour : s.table.live (i + 1) with
  | none => exact ⟨reached, by simpa using h.skip (by simp [hneighbour])⟩
  | some neighbour =>
      cases hlive : s.table.live i with
      | none =>
          have hfree : swept.1.freeHandle i = none := by
            refine hwf.freeHandle_none ?_
            rw [h.table, h.live_of_le (Nat.le_refl _), hlive]
          exact ⟨reached, by simpa [hfree] using h.skip fun _ => hlive⟩
      | some object =>
          have hreached : reached.table.live i = some object := by
            rw [h.live_of_le (Nat.le_refl _), hlive]
          obtain ⟨freed, call, hfree, hrun, -, howned, hupdate, hsame⟩ :=
            h.owned.free_of_some hreached (h.freeable horder)
          have hvisit : swept.1.freeHandle i = some (freed.table, call) := h.table ▸ hfree
          refine ⟨freed, by simp [hvisit], ?_, howned, fun num => ?_, fun hquery => ?_⟩
          · simp [hvisit, List.foldlM_append, h.heap, hrun]
          · rw [hupdate]
            rcases Nat.lt_trichotomy num i with hlt | rfl | hgt
            · simp [Function.update_of_ne (Nat.ne_of_lt hlt), h.live, hlt, Nat.lt_succ_of_lt hlt]
            · simp [hneighbour]
            · rw [Function.update_of_ne (Nat.ne_of_gt hgt), h.live_of_le (Nat.le_of_lt hgt),
                if_neg fun hfreed => absurd hfreed.1 (Nat.not_lt.mpr hgt)]
          · obtain ⟨q', hq', hresults', hdatabase'⟩ := hsame hquery
            obtain ⟨q, hq, hresults, hdatabase⟩ := h.results hq'
            exact ⟨q, hq, hresults.trans hresults', hdatabase.trans hdatabase'⟩

theorem Owned.swept (h : s.Owned) (horder : s.ClearsInOrder) (i : Nat) :
    ∃ reached, s.Swept i
      ((List.range i).foldl (HandleTable.visit fun _ => true) (s.table, [])) reached := by
  induction i with
  | zero => exact ⟨s, rfl, rfl, h, fun num => by simp, fun hquery => ⟨_, hquery, rfl, rfl⟩⟩
  | succ i ih =>
      obtain ⟨reached, hreached⟩ := ih
      rw [List.range_succ, List.foldl_append]
      exact hreached.visit horder

theorem Owned.freeHandleTable (h : s.Owned) (horder : s.ClearsInOrder) :
    ∃ final, s.freeHandleTable = some final ∧ final.heap.Clear := by
  obtain ⟨reached, hreached⟩ := h.swept horder s.table.handles.length
  have hcalls : s.table.freeHandleTable.2.foldlM SqlHeap.runCall s.heap = some reached.heap :=
    hreached.heap
  refine ⟨⟨s.table.freeHandleTable.1, reached.heap⟩,
    by simp [SqlState.freeHandleTable, hcalls], fun target halive => ?_⟩
  obtain ⟨num, object, hlive, htarget⟩ := hreached.owned.alive_iff.mp halive
  rw [hreached.live] at hlive
  split at hlive
  next => simp at hlive
  next hkept =>
    have hneighbour := horder.neighbour num object hlive (by simp [htarget])
    obtain ⟨next, hnext⟩ := Option.ne_none_iff_exists'.mp hneighbour
    have hbound : num + 1 ≤ s.table.handles.length := HandleTable.le_of_live hnext
    exact hkept ⟨hbound, by simp [hnext]⟩

/-- Every object is deleted once and none is used after its deletion, in every run of
allowed calls that leaves the table in order. -/
theorem clear_of_allowed (calls : List SqlCall)
    (hallowed : Meets SqlState.step Allowed start calls)
    (horder : ∀ last, run SqlState.step start calls = some last → last.ClearsInOrder) :
    ∃ last final, run SqlState.step start calls = some last ∧
      last.freeHandleTable = some final ∧ final.heap.Clear := by
  obtain ⟨last, hlast, howned⟩ :=
    run_total (fun howned hallowed => Owned.step howned hallowed) owned_start hallowed
  obtain ⟨final, hfinal, hclear⟩ := howned.freeHandleTable (horder last hlast)
  exact ⟨last, final, hlast, hfinal, hclear⟩

/-- A database, a query of it that has no result set, and a connection tuple above them. -/
theorem clear_of_allowed_tuple_above :
    ∃ last final, run SqlState.step start [.sqlMakeDbTuple, .sqlConnect 1 true,
        .sqlPrepareQuery 2, .sqlExecute 3 (.noResult 1 0), .sqlMakeDbTuple] = some last ∧
      last.freeHandleTable = some final ∧ final.heap.Clear := by
  refine clear_of_allowed _ ⟨trivial, fun s₁ h₁ => ?_⟩ fun last hlast => ?_
  · obtain rfl := Option.some.inj h₁
    refine ⟨trivial, fun s₂ h₂ => ?_⟩
    obtain rfl := Option.some.inj h₂
    refine ⟨trivial, fun s₃ h₃ => ?_⟩
    obtain rfl := Option.some.inj h₃
    refine ⟨fun query q hget hq => ?_, fun s₄ h₄ => ?_⟩
    · obtain rfl := SqlPtr.queryInfo.inj (Option.some.inj hget)
      obtain rfl := Option.some.inj hq
      rfl
    · obtain rfl := Option.some.inj h₄
      exact ⟨trivial, fun _ _ => trivial⟩
  · obtain rfl := Option.some.inj hlast
    refine ⟨fun num object hlive htarget => ?_, fun num object query q rs hlive htarget hq => ?_⟩
    · have hbound := HandleTable.le_of_live hlive
      match num, hbound with
      | 0, _ => simp at hlive
      | 1, _ =>
          obtain rfl := Option.some.inj hlive
          exact absurd rfl htarget
      | 2, _ => decide
      | 3, _ => decide
      | 4, _ =>
          obtain rfl := Option.some.inj hlive
          exact absurd rfl htarget
    · match query with
      | 0 =>
          obtain rfl := Option.some.inj hq
          exact fun hrs => nomatch hrs
      | query + 1 =>
          have hbound : query + 1 < 1 := (List.getElem?_eq_some_iff.mp hq).1
          omega

/-- A query is executed after its database was freed. -/
theorem not_clear_of_freed_database :
    ¬∀ calls : List SqlCall, ∃ last final, run SqlState.step start calls = some last ∧
      last.freeHandleTable = some final ∧ final.heap.Clear := by
  intro hall
  obtain ⟨last, final, hrun, -, -⟩ := hall [.sqlMakeDbTuple, .sqlConnect 1 true,
    .sqlPrepareQuery 2, .sqlFreeHandle 2, .sqlExecute 3 (.noResult 1 0)]
  have hnone : run SqlState.step start [.sqlMakeDbTuple, .sqlConnect 1 true,
    .sqlPrepareQuery 2, .sqlFreeHandle 2, .sqlExecute 3 (.noResult 1 0)] = none := by decide
  exact Option.some_ne_none last (hrun.symm.trans hnone)

end SqlState

end AmxModC.Sql
