import AmxModC.Foundation.Run
import AmxModC.Sql.Objects

namespace AmxModC.Sql

open Foundation

/-! The objects that are alive against the handles that are live. -/

namespace SqlHeap

variable {heap : SqlHeap} {target other : SqlObject}

def Linked (heap : SqlHeap) : Prop :=
  ∀ (query : Nat) (q : MysqlQuery) (rs : MysqlResultSet), heap.queries[query]? = some q →
    q.lastRes = some rs → rs.mysql = q.database

def Releasable (heap : SqlHeap) : SqlObject → Prop
  | .database _ => True
  | .query query => ∀ {q : MysqlQuery} {rs : MysqlResultSet}, heap.queries[query]? = some q →
      q.lastRes = some rs → heap.Alive (.database rs.mysql)

def delete (heap : SqlHeap) : SqlObject → Option SqlHeap
  | .database db => heap.deleteDatabase db
  | .query query => heap.deleteQuery query

theorem runCall_object (heap : SqlHeap) (ptr : SqlPtr) (num : Nat) :
    heap.runCall (ptr.object.call num) =
      match ptr.target with
      | none => some heap
      | some target => heap.delete target := by
  cases ptr with
  | connection | database | queryInfo | oldDb | oldResult => rfl

theorem useDatabase_of_alive {db : Nat} (halive : heap.Alive (.database db)) :
    heap.useDatabase db = some () := if_pos halive

theorem deleteResultSet_of_alive {lastRes : Option MysqlResultSet}
    (halive : ∀ rs, lastRes = some rs → heap.Alive (.database rs.mysql)) :
    heap.deleteResultSet lastRes = some () := by
  cases lastRes with
  | none => rfl
  | some rs => simp [deleteResultSet, useDatabase_of_alive (halive rs rfl)]

/-! The objects that an allocation adds. -/

theorem not_alive_connect : ¬heap.Alive (.database heap.connect.2) := by
  simp [Alive, connect]

theorem alive_connect :
    heap.connect.1.Alive other ↔ other = .database heap.connect.2 ∨ heap.Alive other := by
  cases other with
  | query query => simp [Alive, connect]
  | database db =>
      rcases Nat.lt_trichotomy db heap.databases.length with hlt | rfl | hgt
      · simp [Alive, connect, List.getElem?_append_left hlt, Nat.ne_of_lt hlt]
      · simp [Alive, connect]
      · simp [Alive, connect, List.getElem?_append_right (Nat.le_of_lt hgt), Nat.ne_of_gt hgt,
          Nat.sub_ne_zero_of_lt hgt, Nat.le_of_lt hgt]

theorem Linked.connect (hlinked : heap.Linked) : heap.connect.1.Linked := hlinked

theorem prepareQuery_of_alive {db : Nat} (halive : heap.Alive (.database db)) :
    heap.prepareQuery db =
      some ({ heap with queries := heap.queries ++ [⟨db, none, false⟩] },
        heap.queries.length) := by
  simp [prepareQuery, useDatabase_of_alive halive]

theorem not_alive_newQuery : ¬heap.Alive (.query heap.queries.length) := by
  simp [Alive]

theorem alive_newQuery {q : MysqlQuery} (hq : q.deleted = false) :
    { heap with queries := heap.queries ++ [q] }.Alive other ↔
      other = .query heap.queries.length ∨ heap.Alive other := by
  cases other with
  | database db => simp [Alive]
  | query query =>
      rcases Nat.lt_trichotomy query heap.queries.length with hlt | rfl | hgt
      · simp [Alive, List.getElem?_append_left hlt, Nat.ne_of_lt hlt]
      · simp [Alive, hq]
      · simp [Alive, List.getElem?_append_right (Nat.le_of_lt hgt), Nat.ne_of_gt hgt,
          Nat.sub_ne_zero_of_lt hgt, Nat.le_of_lt hgt]

theorem Linked.newQuery (hlinked : heap.Linked) {q : MysqlQuery}
    (hq : ∀ rs, q.lastRes = some rs → rs.mysql = q.database) :
    { heap with queries := heap.queries ++ [q] }.Linked := by
  intro query q' rs hquery hrs
  rw [List.getElem?_append] at hquery
  split at hquery
  · exact hlinked query q' rs hquery hrs
  · rw [List.getElem?_singleton] at hquery
    split at hquery
    · obtain rfl := Option.some.inj hquery
      exact hq rs hrs
    · simp at hquery

/-! The object that a deletion takes away. -/

def SameResults (heap heap' : SqlHeap) : Prop :=
  ∀ {query : Nat} {q' : MysqlQuery}, heap'.queries[query]? = some q' →
    ∃ q, heap.queries[query]? = some q ∧ q.lastRes = q'.lastRes ∧ q.database = q'.database

theorem SameResults.linked {heap' : SqlHeap} (hsame : heap.SameResults heap')
    (hlinked : heap.Linked) : heap'.Linked := by
  intro query q' rs hquery hrs
  obtain ⟨q, hq, hresults, hdatabase⟩ := hsame hquery
  rw [← hdatabase]
  exact hlinked query q rs hq (hresults.trans hrs)

theorem delete_of_alive (halive : heap.Alive target) (hreleasable : heap.Releasable target) :
    ∃ heap', heap.delete target = some heap' ∧
      (∀ {other : SqlObject}, heap'.Alive other ↔ heap.Alive other ∧ other ≠ target) ∧
      heap.SameResults heap' := by
  cases target with
  | database db =>
      have hbound := (List.getElem?_eq_some_iff.mp halive).1
      refine ⟨{ heap with databases := heap.databases.set db ⟨true⟩ },
        by simp [delete, deleteDatabase, useDatabase_of_alive halive],
        fun {other} => ?_, fun {query q'} hquery => ⟨q', hquery, rfl, rfl⟩⟩
      cases other with
      | query query => simp [Alive]
      | database db' =>
          by_cases hdb : db = db'
          · subst hdb
            simp [Alive, hbound]
          · simp [Alive, hdb, Ne.symm hdb]
  | query query =>
      obtain ⟨q, hq, hdeleted⟩ := halive
      have hbound := (List.getElem?_eq_some_iff.mp hq).1
      have hrelease : heap.deleteResultSet q.lastRes = some () :=
        deleteResultSet_of_alive fun rs hrs => hreleasable hq hrs
      refine ⟨{ heap with queries := heap.queries.set query { q with deleted := true } },
        by simp [delete, deleteQuery, hq, hdeleted, hrelease],
        fun {other} => ?_, fun {query' q'} hquery => ?_⟩
      · cases other with
        | database db => simp [Alive]
        | query query' =>
            by_cases hquery : query = query'
            · subst hquery
              simp [Alive, hbound]
            · simp [Alive, List.getElem?_set_ne hquery, Ne.symm hquery]
      · by_cases hsame : query = query'
        · subst hsame
          rw [List.getElem?_set_self hbound, Option.some.injEq] at hquery
          exact ⟨q, hq, hquery ▸ rfl, hquery ▸ rfl⟩
        · rw [List.getElem?_set_ne hsame] at hquery
          exact ⟨q', hquery, rfl, rfl⟩

theorem execute2_of_alive {query : Nat} {q : MysqlQuery} (hq : heap.queries[query]? = some q)
    (hdeleted : q.deleted = false) (hlinked : heap.Linked)
    (halive : heap.Alive (.database q.database)) (outcome : QueryOutcome) :
    ∃ heap', heap.execute2 query outcome = some (heap', outcome.info) ∧
      (∀ {other : SqlObject}, heap'.Alive other ↔ heap.Alive other) ∧ heap'.Linked ∧
      heap'.queries = heap.queries.set query
        { q with lastRes := outcome.info.rs.map fun _ => ⟨true, q.database⟩ } ∧
      heap'.databases = heap.databases := by
  have hbound := (List.getElem?_eq_some_iff.mp hq).1
  have hrelease : heap.deleteResultSet q.lastRes = some () :=
    deleteResultSet_of_alive fun rs hrs => (hlinked query q rs hq hrs).symm ▸ halive
  let executed : MysqlQuery :=
    { q with lastRes := outcome.info.rs.map fun _ => ⟨true, q.database⟩ }
  refine ⟨{ heap with queries := heap.queries.set query executed },
    by simp [execute2, hq, hdeleted, useDatabase_of_alive halive, hrelease, executed],
    fun {other} => ?_, ?_, rfl, rfl⟩
  · cases other with
    | database db => simp [Alive]
    | query query' =>
        by_cases hquery : query = query'
        · subst hquery
          exact ⟨fun _ => ⟨q, hq, hdeleted⟩,
            fun _ => ⟨executed, List.getElem?_set_self hbound, hdeleted⟩⟩
        · simp [Alive, List.getElem?_set_ne hquery]
  · intro query' q' rs hquery hrs
    by_cases hsame : query = query'
    · subst hsame
      rw [List.getElem?_set_self hbound, Option.some.injEq] at hquery
      subst hquery
      obtain ⟨rows, -, rfl⟩ := Option.map_eq_some_iff.mp hrs
      rfl
    · rw [List.getElem?_set_ne hsame] at hquery
      exact hlinked query' q' rs hquery hrs

theorem prepare_execute {db : Nat} (halive : heap.Alive (.database db)) (hlinked : heap.Linked)
    (outcome : QueryOutcome) :
    ∃ prepared query executed, heap.prepareQuery db = some (prepared, query) ∧
      prepared.execute2 query outcome = some (executed, outcome.info) ∧
      ¬heap.Alive (.query query) ∧
      (∀ {other : SqlObject}, executed.Alive other ↔ other = .query query ∨ heap.Alive other) ∧
      executed.Linked ∧ executed.Releasable (.query query) := by
  let q : MysqlQuery := ⟨db, none, false⟩
  let prepared : SqlHeap := { heap with queries := heap.queries ++ [q] }
  have hnew : ∀ {other : SqlObject}, prepared.Alive other ↔
      other = .query heap.queries.length ∨ heap.Alive other := alive_newQuery rfl
  have hprepared : prepared.Linked := hlinked.newQuery fun rs hrs => nomatch hrs
  have hq : prepared.queries[heap.queries.length]? = some q := List.getElem?_concat_length
  have hbound := (List.getElem?_eq_some_iff.mp hq).1
  obtain ⟨executed, hexecute, hexecuted, hlinked', hqueries, -⟩ :=
    execute2_of_alive hq rfl hprepared (hnew.mpr (.inr halive)) outcome
  refine ⟨prepared, _, executed, prepareQuery_of_alive halive, hexecute, not_alive_newQuery,
    hexecuted.trans hnew, hlinked', fun {q' rs} hquery hrs => ?_⟩
  have hdatabase := hlinked' _ q' rs hquery hrs
  rw [hqueries, List.getElem?_set_self hbound, Option.some.injEq] at hquery
  rw [hdatabase, ← hquery, hexecuted]
  exact hnew.mpr (.inr halive)

end SqlHeap

namespace SqlState

variable {s : SqlState} {num : Nat} {object : Object SqlPtr FreeFunc}

structure Owned (s : SqlState) : Prop where
  wellFormed : s.table.WellFormed
  typed : ∀ {num : Nat} {object : Object SqlPtr FreeFunc}, s.table.live num = some object →
    object = object.ptr.object
  alive_iff : ∀ {target : SqlObject}, s.heap.Alive target ↔
    ∃ num object, s.table.live num = some object ∧ object.ptr.target = some target
  unique : ∀ {num other : Nat} {object object' : Object SqlPtr FreeFunc} {target : SqlObject},
    s.table.live num = some object → object.ptr.target = some target →
    s.table.live other = some object' → object'.ptr.target = some target → num = other
  linked : s.heap.Linked

theorem owned_start : start.Owned where
  wellFormed := HandleTable.wellFormed_empty
  typed := fun hlive => by simp [start] at hlive
  alive_iff := fun {target} => by cases target <;> simp [start, SqlHeap.Alive]
  unique := fun hlive => by simp [start] at hlive
  linked := fun query q rs hquery => by simp [start] at hquery

theorem Owned.getHandle (h : s.Owned) {type : HandleType} {ptr : SqlPtr}
    (hget : s.table.getHandle num type = some ptr) :
    s.table.live num = some ptr.object ∧ ptr.type = type := by
  rw [h.wellFormed.getHandle_eq, Option.map_eq_some_iff] at hget
  obtain ⟨object, hfilter, rfl⟩ := hget
  obtain ⟨hlive, htype⟩ := Option.filter_eq_some_iff.mp hfilter
  have hobject := h.typed hlive
  refine ⟨hobject ▸ hlive, ?_⟩
  rw [hobject] at htype
  exact of_decide_eq_true htype

theorem Owned.make (h : s.Owned) {heap : SqlHeap} {ptr : SqlPtr} (hlinked : heap.Linked)
    (hfresh : ∀ target, ptr.target = some target → ¬s.heap.Alive target)
    (halive : ∀ {other : SqlObject}, heap.Alive other ↔
      ptr.target = some other ∨ s.heap.Alive other) :
    (SqlState.make { s with heap := heap } ptr).1.Owned := by
  obtain ⟨hnone, hlive⟩ := h.wellFormed.live_makeHandle ptr ptr.type ptr.func
  generalize hnum : (s.table.makeHandle ptr ptr.type ptr.func).2 = made at hnone hlive
  have hcases : ∀ {num : Nat} {object : Object SqlPtr FreeFunc},
      (SqlState.make { s with heap := heap } ptr).1.table.live num = some object →
      (num = made ∧ object = ptr.object) ∨ (num ≠ made ∧ s.table.live num = some object) := by
    intro num object hobject
    change (s.table.makeHandle ptr ptr.type ptr.func).1.live num = some object at hobject
    rw [hlive] at hobject
    by_cases heq : num = made
    · subst heq
      rw [Function.update_self, Option.some.injEq] at hobject
      exact .inl ⟨rfl, hobject.symm⟩
    · rw [Function.update_of_ne heq] at hobject
      exact .inr ⟨heq, hobject⟩
  have hold : ∀ {num : Nat} {object : Object SqlPtr FreeFunc}, s.table.live num = some object →
      (SqlState.make { s with heap := heap } ptr).1.table.live num = some object := by
    intro num object hobject
    change (s.table.makeHandle ptr ptr.type ptr.func).1.live num = some object
    have hne : num ≠ made := by
      intro heq
      rw [heq, hnone] at hobject
      exact Option.some_ne_none _ hobject.symm
    rw [hlive, Function.update_of_ne hne, hobject]
  have hnew : (SqlState.make { s with heap := heap } ptr).1.table.live made = some ptr.object := by
    change (s.table.makeHandle ptr ptr.type ptr.func).1.live made = some ptr.object
    rw [hlive, Function.update_self]
    rfl
  refine ⟨h.wellFormed.makeHandle .., ?_, ?_, ?_, hlinked⟩
  · intro num object hobject
    rcases hcases hobject with ⟨-, rfl⟩ | ⟨-, hobject⟩
    · rfl
    · exact h.typed hobject
  · intro target
    change heap.Alive target ↔ _
    rw [halive]
    constructor
    · intro howner
      rcases howner with htarget | holder
      · exact ⟨made, ptr.object, hnew, htarget⟩
      · obtain ⟨num, object, hobject, htarget⟩ := h.alive_iff.mp holder
        exact ⟨num, object, hold hobject, htarget⟩
    · intro howner
      obtain ⟨num, object, hobject, htarget⟩ := howner
      rcases hcases hobject with ⟨-, rfl⟩ | ⟨-, hobject⟩
      · exact .inl htarget
      · exact .inr (h.alive_iff.mpr ⟨num, object, hobject, htarget⟩)
  · intro num other object object' target hobject htarget hobject' htarget'
    rcases hcases hobject with ⟨rfl, rfl⟩ | ⟨-, hobject⟩
    · rcases hcases hobject' with ⟨rfl, -⟩ | ⟨-, hobject'⟩
      · rfl
      · exact absurd (h.alive_iff.mpr ⟨other, object', hobject', htarget'⟩) (hfresh _ htarget)
    · rcases hcases hobject' with ⟨rfl, rfl⟩ | ⟨-, hobject'⟩
      · exact absurd (h.alive_iff.mpr ⟨num, object, hobject, htarget⟩) (hfresh _ htarget')
      · exact h.unique hobject htarget hobject' htarget'

/-- What the handle `num` owns can be deleted. -/
def Freeable (s : SqlState) (num : Nat) : Prop :=
  ∀ object target, s.table.live num = some object → object.ptr.target = some target →
    s.heap.Releasable target

theorem Owned.free_of_none (h : s.Owned) (hlive : s.table.live num = none) :
    s.free num = some (s, false) := by
  simp [free, h.wellFormed.freeHandle_none hlive]

theorem Owned.free_of_some (h : s.Owned) (hlive : s.table.live num = some object)
    (hfreeable : s.Freeable num) :
    ∃ freed call, s.table.freeHandle num = some (freed.table, call) ∧
      s.heap.runCall call = some freed.heap ∧ s.free num = some (freed, true) ∧ freed.Owned ∧
      freed.table.live = Function.update s.table.live num none ∧
      s.heap.SameResults freed.heap := by
  obtain ⟨table, hfree, hwf, hupdate, -, -⟩ := h.wellFormed.freeHandle_some hlive
  have hcases : ∀ {other : Nat} {object' : Object SqlPtr FreeFunc},
      table.live other = some object' ↔ other ≠ num ∧ s.table.live other = some object' := by
    intro other object'
    rw [hupdate]
    by_cases heq : other = num
    · simp [heq]
    · simp [heq]
  have hcall := s.heap.runCall_object object.ptr num
  rw [← h.typed hlive] at hcall
  obtain ⟨heap, hrun, halive, hsame⟩ : ∃ heap, s.heap.runCall (object.call num) = some heap ∧
      (∀ {other : SqlObject}, heap.Alive other ↔
        s.heap.Alive other ∧ object.ptr.target ≠ some other) ∧ s.heap.SameResults heap := by
    cases htarget : object.ptr.target with
    | none =>
        rw [htarget] at hcall
        exact ⟨s.heap, hcall, by simp, fun hquery => ⟨_, hquery, rfl, rfl⟩⟩
    | some target =>
        rw [htarget] at hcall
        obtain ⟨heap, hdelete, halive, hsame⟩ :=
          SqlHeap.delete_of_alive (h.alive_iff.mpr ⟨num, object, hlive, htarget⟩)
            (hfreeable object target hlive htarget)
        refine ⟨heap, hcall.trans hdelete, fun {other} => ?_, hsame⟩
        rw [halive, ne_eq, ne_eq, Option.some.injEq, eq_comm]
  refine ⟨⟨table, heap⟩, object.call num, hfree, hrun, by simp [SqlState.free, hfree, hrun],
    ⟨hwf, ?_, ?_, ?_, hsame.linked h.linked⟩, hupdate, hsame⟩
  · intro other object' hobject'
    exact h.typed (hcases.mp hobject').2
  · intro target
    rw [halive, h.alive_iff]
    constructor
    · intro howner
      obtain ⟨⟨other, object', hobject', htarget⟩, hne⟩ := howner
      have hother : other ≠ num := by
        intro heq
        rw [heq, hlive, Option.some.injEq] at hobject'
        exact hne (hobject' ▸ htarget)
      exact ⟨other, object', hcases.mpr ⟨hother, hobject'⟩, htarget⟩
    · intro howner
      obtain ⟨other, object', hobject', htarget⟩ := howner
      obtain ⟨hother, hobject'⟩ := hcases.mp hobject'
      refine ⟨⟨other, object', hobject', htarget⟩, fun hsome => ?_⟩
      exact hother (h.unique hobject' htarget hlive hsome)
  · intro other other' object' object'' target hobject' htarget hobject'' htarget'
    exact h.unique (hcases.mp hobject').2 htarget (hcases.mp hobject'').2 htarget'

/-! The natives. -/

theorem Owned.of_alive_iff (h : s.Owned) {heap : SqlHeap} (hlinked : heap.Linked)
    (halive : ∀ {other : SqlObject}, heap.Alive other ↔ s.heap.Alive other) :
    Owned { s with heap := heap } where
  wellFormed := h.wellFormed
  typed := h.typed
  alive_iff := halive.trans h.alive_iff
  unique := h.unique
  linked := hlinked

theorem Owned.connect (h : s.Owned) {ptr : SqlPtr}
    (hptr : ptr.target = some (.database s.heap.connect.2)) :
    (SqlState.make { s with heap := s.heap.connect.1 } ptr).1.Owned := by
  refine h.make h.linked.connect (fun target htarget => ?_) fun {other} => ?_
  · rw [hptr, Option.some.injEq] at htarget
    exact htarget ▸ SqlHeap.not_alive_connect
  · rw [SqlHeap.alive_connect, hptr, Option.some.injEq, eq_comm]

theorem Owned.sqlMakeDbTuple (h : s.Owned) :
    ∃ answer, s.sqlMakeDbTuple = some answer ∧ answer.1.Owned :=
  ⟨_, rfl, h.make h.linked (fun target htarget => nomatch htarget)
    fun {other} => by simp [SqlPtr.target]⟩

theorem Owned.sqlConnect (h : s.Owned) (num : Nat) (connected : Bool) :
    ∃ answer, s.sqlConnect num connected = some answer ∧ answer.1.Owned := by
  unfold SqlState.sqlConnect
  split
  next => exact ⟨_, rfl, h⟩
  next =>
    cases connected with
    | false => exact ⟨_, rfl, h⟩
    | true => exact ⟨_, rfl, h.connect rfl⟩

theorem Owned.dbiConnect (h : s.Owned) (connected : Bool) :
    ∃ answer, s.dbiConnect connected = some answer ∧ answer.1.Owned := by
  cases connected with
  | false => exact ⟨_, rfl, h⟩
  | true => exact ⟨_, rfl, h.connect rfl⟩

theorem Owned.alive_of_live (h : s.Owned) {ptr : SqlPtr} {target : SqlObject}
    (hlive : s.table.live num = some ptr.object) (htarget : ptr.target = some target) :
    s.heap.Alive target :=
  h.alive_iff.mpr ⟨num, ptr.object, hlive, htarget⟩

theorem Owned.sqlPrepareQuery (h : s.Owned) (num : Nat) :
    ∃ answer, s.sqlPrepareQuery num = some answer ∧ answer.1.Owned := by
  cases hget : s.table.getHandle num .database with
  | none => exact ⟨(s, 0), by simp [SqlState.sqlPrepareQuery, hget], h⟩
  | some ptr =>
      obtain ⟨hlive, htype⟩ := h.getHandle hget
      cases ptr with
      | connection | queryInfo | oldDb | oldResult => simp [SqlPtr.type] at htype
      | database db =>
          have halive := h.alive_of_live hlive rfl
          refine ⟨_, by
            simp only [SqlState.sqlPrepareQuery, hget, SqlHeap.prepareQuery_of_alive halive]
            rfl, ?_⟩
          refine h.make (h.linked.newQuery fun rs hrs => nomatch hrs) (fun target htarget => ?_)
            fun {other} => ?_
          · rw [SqlPtr.target, Option.some.injEq] at htarget
            exact htarget ▸ SqlHeap.not_alive_newQuery
          · rw [SqlHeap.alive_newQuery rfl, SqlPtr.target, Option.some.injEq, eq_comm]

theorem Owned.sqlExecute (h : s.Owned) (outcome : QueryOutcome)
    (hallowed : ∀ query q, s.table.getHandle num .query = some (.queryInfo query) →
      s.heap.queries[query]? = some q → s.heap.Alive (.database q.database)) :
    ∃ answer, s.sqlExecute num outcome = some answer ∧ answer.1.Owned := by
  cases hget : s.table.getHandle num .query with
  | none => exact ⟨(s, 0), by simp [SqlState.sqlExecute, hget], h⟩
  | some ptr =>
      obtain ⟨hlive, htype⟩ := h.getHandle hget
      cases ptr with
      | connection | database | oldDb | oldResult => simp [SqlPtr.type] at htype
      | queryInfo query =>
          obtain ⟨q, hq, hdeleted⟩ := h.alive_of_live hlive rfl
          obtain ⟨heap, hexecute, halive, hlinked, -, -⟩ :=
            SqlHeap.execute2_of_alive hq hdeleted h.linked (hallowed query q hget hq) outcome
          exact ⟨_, by simp only [SqlState.sqlExecute, hget, hexecute]; rfl,
            h.of_alive_iff hlinked halive⟩

theorem Owned.free (h : s.Owned) (hfreeable : s.Freeable num) :
    ∃ answer, s.free num = some answer ∧ answer.1.Owned := by
  cases hlive : s.table.live num with
  | none => exact ⟨_, h.free_of_none hlive, h⟩
  | some object =>
      obtain ⟨freed, call, -, -, hfree, hfreed, -⟩ := h.free_of_some hlive hfreeable
      exact ⟨_, hfree, hfreed⟩

theorem Owned.sqlFreeHandle (h : s.Owned) (hfreeable : s.Freeable num) :
    ∃ answer, s.sqlFreeHandle num = some answer ∧ answer.1.Owned := by
  obtain ⟨answer, hfree, hfreed⟩ := h.free hfreeable
  exact ⟨_, by simp only [SqlState.sqlFreeHandle, hfree]; rfl, hfreed⟩

theorem Owned.dbiFreeResult (h : s.Owned)
    (hfreeable : s.table.getHandle num .oldResult ≠ none → s.Freeable num) :
    ∃ answer, s.dbiFreeResult num = some answer ∧ answer.1.Owned := by
  unfold SqlState.dbiFreeResult
  split
  next => exact ⟨_, rfl, h⟩
  next =>
    split
    next => exact ⟨_, rfl, h⟩
    next hget =>
      obtain ⟨answer, hfree, hfreed⟩ := h.free (hfreeable (by simp [hget]))
      exact ⟨_, by rw [hfree]; rfl, hfreed⟩

theorem Owned.dbiClose (h : s.Owned) (num : Nat) :
    ∃ answer, s.dbiClose num = some answer ∧ answer.1.Owned := by
  unfold SqlState.dbiClose
  split
  next => exact ⟨_, rfl, h⟩
  next ptr hget =>
    obtain ⟨hlive, htype⟩ := h.getHandle hget
    have hfreeable : s.Freeable num := by
      intro object target hobject htarget
      rw [hlive, Option.some.injEq] at hobject
      subst hobject
      cases ptr with
      | connection | database | queryInfo | oldResult => simp [SqlPtr.type] at htype
      | oldDb db =>
          obtain rfl := Option.some.inj htarget
          trivial
    obtain ⟨answer, hfree, hfreed⟩ := h.free hfreeable
    exact ⟨_, by rw [hfree]; rfl, hfreed⟩

theorem Owned.dbiQueryInfo (h : s.Owned) (outcome : QueryOutcome)
    (hsuccess : s.table.getHandle num .oldDb ≠ none → outcome.info.success = true) :
    ∃ answer, s.dbiQueryInfo num outcome = some answer ∧ answer.1.1.Owned := by
  cases hget : s.table.getHandle num .oldDb with
  | none => exact ⟨((s, -1), none), by simp [SqlState.dbiQueryInfo, hget], h⟩
  | some ptr =>
      obtain ⟨hlive, htype⟩ := h.getHandle hget
      cases ptr with
      | connection | database | queryInfo | oldResult => simp [SqlPtr.type] at htype
      | oldDb db =>
          have halive := h.alive_of_live hlive rfl
          obtain ⟨prepared, query, executed, hprepare, hexecute, hfresh, hexecuted, hlinked,
            hreleasable⟩ := SqlHeap.prepare_execute halive h.linked outcome
          have hinfo : outcome.info.success = true := hsuccess (by simp [hget])
          simp only [SqlState.dbiQueryInfo, hget, hprepare, hexecute, hinfo, Option.bind_some,
            if_true]
          split
          next =>
            refine ⟨_, rfl, h.make hlinked (fun target htarget => ?_) fun {other} => ?_⟩
            · rw [SqlPtr.target, Option.some.injEq] at htarget
              exact htarget ▸ hfresh
            · rw [hexecuted, SqlPtr.target, Option.some.injEq, eq_comm]
          next =>
            obtain ⟨heap, hdelete, hdeleted, hsame⟩ :=
              SqlHeap.delete_of_alive (hexecuted.mpr (.inl rfl)) hreleasable
            change executed.deleteQuery query = some heap at hdelete
            refine ⟨_, by rw [hdelete]; rfl, h.of_alive_iff (hsame.linked hlinked) fun {other} => ?_⟩
            rw [hdeleted, hexecuted]
            constructor
            · intro hother
              exact hother.1.resolve_left hother.2
            · intro hother
              exact ⟨.inr hother, fun heq => hfresh (heq ▸ hother)⟩

end SqlState

end AmxModC.Sql
