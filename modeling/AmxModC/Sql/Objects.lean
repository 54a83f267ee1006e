import AmxModC.Sql.Ownership

namespace AmxModC.Sql

section

/-! `MysqlThread::Execute`: the handle it makes for its query, the handler's own calls
on the table, and the handle it frees by number afterwards. -/

inductive FreeFunc where
  | freeConnection
  | freeDatabase
  | freeQuery
  | freeOldDb
  | freeOldResult
  | nullFunc
  deriving DecidableEq, Repr

variable {Obj : Type*}

structure Handles (Obj : Type*) extends HandleTable Obj FreeFunc where
  wellFormed : toHandleTable.WellFormed

namespace Handles

variable (handles : Handles Obj)

def empty : Handles Obj := ⟨.empty, HandleTable.wellFormed_empty⟩

def perform (op : HandleOp Obj FreeFunc) : Handles Obj :=
  ⟨(handles.toHandleTable.perform op).table, handles.wellFormed.perform op⟩

end Handles

/-- What a query handler does to the table.  `connect` and `prepareQuery` name the
handle they are given and carry the object the driver returns, if any. -/
inductive HandlerOp (Obj : Type*) where
  | freeHandle (num : Nat)
  | makeDbTuple (sql : Obj)
  | connect (num : Nat) (db : Option Obj)
  | prepareQuery (num : Nat) (query : Option Obj)
  deriving DecidableEq

namespace Handles

/-- `SQL_FreeHandle`, `SQL_MakeDbTuple`, `SQL_Connect` and `SQL_PrepareQuery`. -/
def handlerStep (handles : Handles Obj) : HandlerOp Obj → Handles Obj
  | .freeHandle num => handles.perform (.freeHandle num)
  | .makeDbTuple sql => handles.perform (.makeHandle sql .connection .freeConnection)
  | .connect num db =>
      match handles.getHandle num .connection, db with
      | some _, some db => handles.perform (.makeHandle db .database .freeDatabase)
      | _, _ => handles
  | .prepareQuery num query =>
      match handles.getHandle num .database, query with
      | some _, some query => handles.perform (.makeHandle query .query .freeQuery)
      | _, _ => handles

structure Execution (Obj : Type*) where
  hndl : Nat
  /-- What the handler did, given `hndl`. -/
  ops : List (HandlerOp Obj)
  returned : Handles Obj
  final : Handles Obj

def execute (handles : Handles Obj) (amxinfo : Obj) (handler : Nat → List (HandlerOp Obj)) :
    Execution Obj :=
  let hndl := (handles.makeHandle amxinfo .query .nullFunc).2
  let made := handles.perform (.makeHandle amxinfo .query .nullFunc)
  let returned := (handler hndl).foldl handlerStep made
  ⟨hndl, handler hndl, returned, returned.perform (.freeHandle hndl)⟩

namespace Execution

def Kept (execution : Execution Obj) : Prop :=
  HandlerOp.freeHandle execution.hndl ∉ execution.ops

/-- Every handle that was live when the handler returned, other than the one made for
the query, designates the same object at the end. -/
def SparesOthers (execution : Execution Obj) : Prop :=
  ∀ num object, execution.returned.live num = some object →
    (num = execution.hndl ∧ execution.Kept) ∨ execution.final.live num = some object

def NumberNotReused (execution : Execution Obj) : Prop :=
  ¬execution.Kept → execution.returned.live execution.hndl = none

end Execution

theorem live_perform_freeHandle (handles : Handles Obj) (num : Nat) :
    (handles.perform (.freeHandle num)).live = Function.update handles.live num none := by
  cases hlive : handles.live num with
  | none =>
      have hfree := handles.wellFormed.freeHandle_none hlive
      rw [← hlive, Function.update_eq_self]
      simp [perform, HandleTable.perform, hfree]
  | some object =>
      obtain ⟨freed, hfree, -, hfreed, -, -⟩ := handles.wellFormed.freeHandle_some hlive
      simpa [perform, HandleTable.perform, hfree] using hfreed

/-- Running a handler frees no other handle exactly when the number of a query handle
that the handler freed is not in use again when it returns. -/
theorem sparesOthers_execute_iff (handles : Handles Obj) (amxinfo : Obj)
    (handler : Nat → List (HandlerOp Obj)) :
    (handles.execute amxinfo handler).SparesOthers ↔
      (handles.execute amxinfo handler).NumberNotReused := by
  have hfinal : (handles.execute amxinfo handler).final.live =
      Function.update (handles.execute amxinfo handler).returned.live
        (handles.execute amxinfo handler).hndl none := live_perform_freeHandle ..
  generalize handles.execute amxinfo handler = execution at hfinal
  constructor
  · intro hspares hfreed
    cases hlive : execution.returned.live execution.hndl with
    | none => rfl
    | some object =>
        rcases hspares _ _ hlive with hown | hstill
        · exact absurd hown.2 hfreed
        · simp [hfinal] at hstill
  · intro hnotReused num object hlive
    by_cases hnum : num = execution.hndl
    · subst hnum
      by_cases hkept : execution.Kept
      · exact .inl ⟨rfl, hkept⟩
      · rw [hnotReused hkept] at hlive
        exact absurd hlive.symm (Option.some_ne_none object)
    · right
      rw [hfinal, Function.update_of_ne hnum, hlive]

/-- A handler that frees its query handle and makes a connection tuple. -/
theorem not_sparesOthers_execute :
    ¬∀ (handles : Handles Nat) (amxinfo : Nat) (handler : Nat → List (HandlerOp Nat)),
      (handles.execute amxinfo handler).SparesOthers := by
  intro hall
  have hspares := hall .empty 5 fun hndl => [.freeHandle hndl, .makeDbTuple 9]
  rcases hspares 1 ⟨9, .connection, .freeConnection⟩ rfl with hown | hstill
  · exact hown.2 List.mem_cons_self
  · exact absurd hstill (by decide)

end Handles

end

section

/-! The driver's objects and the natives that own them.  Objects are named by the
order in which they were allocated; `none` is a use of freed memory. -/

structure MysqlDatabase where
  deleted : Bool
  deriving DecidableEq, Repr

/-- `mysql` is the connection, named by the database object that opened it. -/
structure MysqlResultSet where
  pRes : Bool
  mysql : Nat
  deriving DecidableEq, Repr

structure MysqlQuery where
  database : Nat
  lastRes : Option MysqlResultSet
  deleted : Bool
  deriving DecidableEq, Repr

structure QueryInfo where
  errorcode : Nat
  success : Bool
  affectedRows : Nat
  insertId : Nat
  /-- The number of rows of the result set, if there is one. -/
  rs : Option Nat
  deriving DecidableEq, Repr

inductive QueryOutcome where
  | queryFails (errno : Nat)
  | storeFails (errno : Nat)
  | noResult (affected insertId : Nat)
  | result (affected insertId rows : Nat)
  deriving DecidableEq, Repr

def QueryOutcome.info : QueryOutcome → QueryInfo
  | .queryFails errno => ⟨errno, false, 0, 0, none⟩
  | .storeFails errno => ⟨errno, false, 0, 0, none⟩
  | .noResult affected insertId => ⟨0, true, affected, insertId, none⟩
  | .result affected insertId rows => ⟨0, true, affected, insertId, some rows⟩

structure SqlHeap where
  databases : List MysqlDatabase
  queries : List MysqlQuery
  deriving DecidableEq, Repr

inductive SqlObject where
  | database (db : Nat)
  | query (query : Nat)
  deriving DecidableEq, Repr

namespace SqlHeap

def Alive (heap : SqlHeap) : SqlObject → Prop
  | .database db => heap.databases[db]? = some ⟨false⟩
  | .query query => ∃ q, heap.queries[query]? = some q ∧ q.deleted = false

def Clear (heap : SqlHeap) : Prop := ∀ target, ¬heap.Alive target

def useDatabase (heap : SqlHeap) (db : Nat) : Option Unit :=
  if heap.databases[db]? = some ⟨false⟩ then some () else none

def connect (heap : SqlHeap) : SqlHeap × Nat :=
  ({ heap with databases := heap.databases ++ [⟨false⟩] }, heap.databases.length)

def deleteDatabase (heap : SqlHeap) (db : Nat) : Option SqlHeap :=
  (heap.useDatabase db).map fun _ => { heap with databases := heap.databases.set db ⟨true⟩ }

def prepareQuery (heap : SqlHeap) (db : Nat) : Option (SqlHeap × Nat) :=
  (heap.useDatabase db).map fun _ =>
    ({ heap with queries := heap.queries ++ [⟨db, none, false⟩] }, heap.queries.length)

/-- `MysqlResultSet::~MysqlResultSet` -/
def deleteResultSet (heap : SqlHeap) : Option MysqlResultSet → Option Unit
  | none => some ()
  | some rs => if rs.pRes then heap.useDatabase rs.mysql else some ()

def deleteQuery (heap : SqlHeap) (query : Nat) : Option SqlHeap :=
  match heap.queries[query]? with
  | none => none
  | some q =>
      if q.deleted then none
      else
        (heap.deleteResultSet q.lastRes).map fun _ =>
          { heap with queries := heap.queries.set query { q with deleted := true } }

/-- `MysqlQuery::Execute2` -/
def execute2 (heap : SqlHeap) (query : Nat) (outcome : QueryOutcome) :
    Option (SqlHeap × QueryInfo) :=
  match heap.queries[query]? with
  | none => none
  | some q =>
      if q.deleted then none
      else
        (heap.useDatabase q.database).bind fun _ =>
          (heap.deleteResultSet q.lastRes).map fun _ =>
            let lastRes := outcome.info.rs.map fun _ => ⟨true, q.database⟩
            ({ heap with queries := heap.queries.set query { q with lastRes := lastRes } },
              outcome.info)

end SqlHeap

/-- What a handle points at.  `queryInfo` and `oldResult` hold a query, `oldDb` a
database. -/
inductive SqlPtr where
  | connection
  | database (db : Nat)
  | queryInfo (query : Nat)
  | oldDb (db : Nat)
  | oldResult (query : Nat)
  deriving DecidableEq, Repr

namespace SqlPtr

def type : SqlPtr → HandleType
  | .connection => .connection
  | .database _ => .database
  | .queryInfo _ => .query
  | .oldDb _ => .oldDb
  | .oldResult _ => .oldResult

def func : SqlPtr → FreeFunc
  | .connection => .freeConnection
  | .database _ => .freeDatabase
  | .queryInfo _ => .freeQuery
  | .oldDb _ => .freeOldDb
  | .oldResult _ => .freeOldResult

def target : SqlPtr → Option SqlObject
  | .connection => none
  | .database db => some (.database db)
  | .queryInfo query => some (.query query)
  | .oldDb db => some (.database db)
  | .oldResult query => some (.query query)

def object (ptr : SqlPtr) : Object SqlPtr FreeFunc := ⟨ptr, ptr.type, ptr.func⟩

end SqlPtr

/-- `FreeConnection`, `FreeDatabase`, `FreeQuery`, `FreeOldDb` and `FreeOldResult`; a
function that is handed another kind of pointer is undefined. -/
def SqlHeap.runCall (heap : SqlHeap) (call : FreeCall SqlPtr FreeFunc) : Option SqlHeap :=
  match call.func, call.ptr with
  | some .freeConnection, some .connection => some heap
  | some .freeDatabase, some (.database db) => heap.deleteDatabase db
  | some .freeQuery, some (.queryInfo query) => heap.deleteQuery query
  | some .freeOldDb, some (.oldDb db) => heap.deleteDatabase db
  | some .freeOldResult, some (.oldResult query) => heap.deleteQuery query
  | some .nullFunc, some _ => some heap
  | _, _ => none

structure SqlState where
  table : HandleTable SqlPtr FreeFunc
  heap : SqlHeap
  deriving DecidableEq

namespace SqlState

def start : SqlState := ⟨.empty, ⟨[], []⟩⟩

def make (s : SqlState) (ptr : SqlPtr) : SqlState × Int :=
  let made := s.table.makeHandle ptr ptr.type ptr.func
  ({ s with table := made.1 }, made.2)

def free (s : SqlState) (num : Nat) : Option (SqlState × Bool) :=
  match s.table.freeHandle num with
  | none => some (s, false)
  | some (table, call) => (s.heap.runCall call).map fun heap => (⟨table, heap⟩, true)

/-! Each native returns the new state and its own return value. -/

def sqlMakeDbTuple (s : SqlState) : Option (SqlState × Int) := some (s.make .connection)

def sqlConnect (s : SqlState) (num : Nat) (connected : Bool) : Option (SqlState × Int) :=
  match s.table.getHandle num .connection with
  | none => some (s, 0)
  | some _ =>
      if connected then
        some (make { s with heap := s.heap.connect.1 } (.database s.heap.connect.2))
      else some (s, 0)

def sqlPrepareQuery (s : SqlState) (num : Nat) : Option (SqlState × Int) :=
  match s.table.getHandle num .database with
  | none => some (s, 0)
  | some (.database db) =>
      (s.heap.prepareQuery db).map fun prepared =>
        make { s with heap := prepared.1 } (.queryInfo prepared.2)
  | some _ => none

def sqlExecute (s : SqlState) (num : Nat) (outcome : QueryOutcome) : Option (SqlState × Int) :=
  match s.table.getHandle num .query with
  | none => some (s, 0)
  | some (.queryInfo query) =>
      (s.heap.execute2 query outcome).map fun executed =>
        ({ s with heap := executed.1 }, if executed.2.success then 1 else 0)
  | some _ => none

def sqlFreeHandle (s : SqlState) (num : Nat) : Option (SqlState × Int) :=
  (s.free num).map fun freed => (freed.1, if freed.2 then 1 else 0)

def dbiConnect (s : SqlState) (connected : Bool) : Option (SqlState × Int) :=
  if connected then some (make { s with heap := s.heap.connect.1 } (.oldDb s.heap.connect.2))
  else some (s, 0)

/-- `dbi_query`, with the query information that `dbi_query2` reads the affected rows
from.  The failing exit leaves the query behind. -/
def dbiQueryInfo (s : SqlState) (num : Nat) (outcome : QueryOutcome) :
    Option ((SqlState × Int) × Option QueryInfo) :=
  match s.table.getHandle num .oldDb with
  | none => some ((s, -1), none)
  | some (.oldDb db) =>
      (s.heap.prepareQuery db).bind fun prepared =>
        (prepared.1.execute2 prepared.2 outcome).bind fun executed =>
          if executed.2.success then
            if executed.2.rs.any (· ≠ 0) then
              some (make { s with heap := executed.1 } (.oldResult prepared.2), some executed.2)
            else
              (executed.1.deleteQuery prepared.2).map fun heap =>
                (({ s with heap := heap }, 0), some executed.2)
          else some (({ s with heap := executed.1 }, -1), some executed.2)
  | some _ => none

def dbiQuery (s : SqlState) (num : Nat) (outcome : QueryOutcome) : Option (SqlState × Int) :=
  (s.dbiQueryInfo num outcome).map (·.1)

/-- Also what is written to the `rows` argument. -/
def dbiQuery2 (s : SqlState) (num : Nat) (outcome : QueryOutcome) :
    Option ((SqlState × Int) × Option Nat) :=
  (s.dbiQueryInfo num outcome).map fun answer =>
    (answer.1, (answer.2.filter (·.success)).map (·.affectedRows))

def dbiFreeResult (s : SqlState) (num : Nat) : Option (SqlState × Int) :=
  if num = 0 then some (s, 1)
  else
    match s.table.getHandle num .oldResult with
    | none => some (s, 0)
    | some _ => (s.free num).map fun freed => (freed.1, 1)

def dbiClose (s : SqlState) (num : Nat) : Option (SqlState × Int) :=
  match s.table.getHandle num .oldDb with
  | none => some (s, 0)
  | some _ => (s.free num).map fun freed => (freed.1, 1)

/-- `FreeHandleTable`, the free functions called in the order of the table. -/
def freeHandleTable (s : SqlState) : Option SqlState :=
  (s.table.freeHandleTable.2.foldlM SqlHeap.runCall s.heap).map
    fun heap => ⟨s.table.freeHandleTable.1, heap⟩

end SqlState

inductive SqlCall where
  | sqlMakeDbTuple
  | sqlConnect (num : Nat) (connected : Bool)
  | sqlPrepareQuery (num : Nat)
  | sqlExecute (num : Nat) (outcome : QueryOutcome)
  | sqlFreeHandle (num : Nat)
  | dbiConnect (connected : Bool)
  | dbiQuery (num : Nat) (outcome : QueryOutcome)
  | dbiQuery2 (num : Nat) (outcome : QueryOutcome)
  | dbiFreeResult (num : Nat)
  | dbiClose (num : Nat)
  deriving DecidableEq, Repr

def SqlState.step (s : SqlState) : SqlCall → Option SqlState
  | .sqlMakeDbTuple => s.sqlMakeDbTuple.map (·.1)
  | .sqlConnect num connected => (s.sqlConnect num connected).map (·.1)
  | .sqlPrepareQuery num => (s.sqlPrepareQuery num).map (·.1)
  | .sqlExecute num outcome => (s.sqlExecute num outcome).map (·.1)
  | .sqlFreeHandle num => (s.sqlFreeHandle num).map (·.1)
  | .dbiConnect connected => (s.dbiConnect connected).map (·.1)
  | .dbiQuery num outcome => (s.dbiQuery num outcome).map (·.1)
  | .dbiQuery2 num outcome => (s.dbiQuery2 num outcome).map (·.1.1)
  | .dbiFreeResult num => (s.dbiFreeResult num).map (·.1)
  | .dbiClose num => (s.dbiClose num).map (·.1)

end

end AmxModC.Sql
