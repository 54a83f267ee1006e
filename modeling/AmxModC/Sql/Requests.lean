import AmxModC.Machine
import AmxModC.Sql.Worker
import Mathlib.Data.List.Range

namespace AmxModC.Sql

/-! The objects that carry threaded queries, and the books on them: which queries were
issued, run by the driver and answered by their handler. -/

abbrev Rows := List (List String)

structure ConnectInfo where
  host : String
  user : String
  pass : String
  db : String
  port : Int
  maxTimeout : Nat
  deriving DecidableEq, Repr

/-- The arguments of one `SQL_ThreadQuery`: `cn` is what its handle designates, `fwd` the
forward registered for its handler, `data` the array of `dataSize` cells. -/
structure QueryCall where
  cn : Option ConnectInfo
  fwd : Int
  query : String
  data : List Cell
  deriving DecidableEq

inductive DriverAnswer where
  | noConnection (errorcode : Int) (error : String)
  | queryFails (errorcode : Int) (error : String)
  | succeeds (rs : Option Rows)
  deriving DecidableEq, Repr

/-- `rs` says whether the result pointer is set; it then points at `m_atomicResult`. -/
structure QueuedResultInfo where
  connectSuccess : Bool
  querySuccess : Bool
  errorcode : Int
  error : String
  rs : Bool
  deriving DecidableEq, Repr

/-- `serial` is not a field of the source: it counts the accepted calls, and names the
one that the object carries. -/
structure MysqlThread where
  info : ConnectInfo
  fwd : Int
  query : String
  data : List Cell
  datalen : Nat
  maxdatalen : Nat
  qrInfo : QueuedResultInfo
  atomicResult : Option Rows
  serial : Nat
  deriving DecidableEq

structure HandlerRun where
  serial : Nat
  fwd : Int
  state : Int
  rs : Option Rows
  error : String
  errorcode : Int
  data : List Cell
  size : Nat
  deriving DecidableEq

namespace MysqlThread

def new : MysqlThread :=
  ⟨⟨"", "", "", "", 0, 0⟩, 0, "", [], 0, 0, ⟨false, false, 0, "", false⟩, none, 0⟩

def setCellData (thread : MysqlThread) (data : List Cell) : MysqlThread :=
  let grown :=
    if data.length > thread.maxdatalen then
      { thread with data := List.replicate data.length 0, maxdatalen := data.length }
    else thread
  if data.length ≠ 0 then
    { grown with datalen := data.length, data := data ++ grown.data.drop data.length }
  else grown

/-- The `Set` calls of `SQL_ThreadQuery`. -/
def fill (thread : MysqlThread) (info : ConnectInfo) (call : QueryCall) (serial : Nat) :
    MysqlThread :=
  { thread with info := info, fwd := call.fwd, query := call.query, serial := serial }.setCellData
    call.data

/-- `RunThread`; the result set is copied only where there is one. -/
def runThread (thread : MysqlThread) : DriverAnswer → MysqlThread
  | .noConnection errorcode error =>
      { thread with qrInfo := ⟨false, false, errorcode, error, false⟩ }
  | .queryFails errorcode error =>
      { thread with qrInfo := ⟨true, false, errorcode, error, false⟩ }
  | .succeeds none => { thread with qrInfo := ⟨true, true, 0, "", false⟩ }
  | .succeeds (some rows) =>
      { thread with qrInfo := ⟨true, true, 0, "", true⟩, atomicResult := some rows }

def state (thread : MysqlThread) : Int :=
  if !thread.qrInfo.connectSuccess then -2 else if !thread.qrInfo.querySuccess then -1 else 0

/-- `Execute` -/
def execute (thread : MysqlThread) : HandlerRun where
  serial := thread.serial
  fwd := thread.fwd
  state := thread.state
  rs := if thread.qrInfo.rs then thread.atomicResult else none
  error := if thread.state ≠ 0 then thread.qrInfo.error else ""
  errorcode := if thread.state ≠ 0 then thread.qrInfo.errorcode else 0
  data := if thread.datalen ≠ 0 then thread.data.take thread.datalen else [0]
  size := thread.datalen

def invalidate (thread : MysqlThread) : MysqlThread := { thread with atomicResult := none }

def Carries (thread : MysqlThread) (call : QueryCall) : Prop :=
  call.cn = some thread.info ∧ thread.fwd = call.fwd ∧ thread.query = call.query

end MysqlThread

def DriverAnswer.told : DriverAnswer → Int × Option Rows × String × Int
  | .noConnection errorcode error => (-2, none, error, errorcode)
  | .queryFails errorcode error => (-1, none, error, errorcode)
  | .succeeds rs => (0, rs, "", 0)

def HandlerRun.told (handler : HandlerRun) : Int × Option Rows × String × Int :=
  (handler.state, handler.rs, handler.error, handler.errorcode)

theorem MysqlThread.execute_runThread (thread : MysqlThread) (answer : DriverAnswer) :
    (thread.runThread answer).execute.told = answer.told := by
  cases answer with
  | noConnection errorcode error => rfl
  | queryFails errorcode error => rfl
  | succeeds rs =>
      cases rs with
      | none => rfl
      | some rows => rfl

structure DriverRun where
  serial : Nat
  info : ConnectInfo
  query : String
  answer : DriverAnswer
  deriving DecidableEq

structure Books where
  objects : List MysqlThread
  issued : List QueryCall
  ran : List DriverRun
  executed : List HandlerRun
  deriving DecidableEq

namespace Books

def empty : Books := ⟨[], [], [], []⟩

def modify (books : Books) (object : Nat) (f : MysqlThread → MysqlThread) : Books :=
  { books with objects := books.objects.modify object f }

def allocate (books : Books) : Books :=
  { books with objects := books.objects ++ [.new] }

def issue (books : Books) (object : Nat) (info : ConnectInfo) (call : QueryCall) : Books :=
  { books.modify object (·.fill info call books.issued.length) with
    issued := books.issued ++ [call] }

def run (books : Books) (object : Nat) (answer : DriverAnswer) : Books :=
  match books.objects[object]? with
  | none => books
  | some thread =>
      { books.modify object (·.runThread answer) with
        ran := books.ran ++ [⟨thread.serial, thread.info, thread.query, answer⟩] }

def execute (books : Books) (object : Nat) : Books :=
  match books.objects[object]? with
  | none => books
  | some thread => { books with executed := books.executed ++ [thread.execute] }

def invalidate (books : Books) (object : Nat) : Books := books.modify object (·.invalidate)

def serial (books : Books) (object : Nat) : Nat :=
  match books.objects[object]? with
  | none => 0
  | some thread => thread.serial

end Books

/-! The module's two threads: the main thread in `SQL_ThreadQuery`, `StartFrame`,
`OnPluginsLoaded` and `OnPluginsUnloading`, and the worker's. -/

/-- Where the main thread is.  `unloading` tells the loop of `OnPluginsUnloading` from that
of `StartFrame`; a handler is listed with the calls of `SQL_ThreadQuery` it is still to
make. -/
inductive MainFrame where
  | idle
  /-- Before the section that takes the next finished query. -/
  | drain (unloading : Bool)
  | handler (unloading : Bool) (object : Nat) (calls : List QueryCall)
  | stopping (call : WorkerCall Nat)
  deriving DecidableEq

/-- `worker` is `g_pWorker`; `adding` is the worker's method that `SQL_ThreadQuery` has
called.  Both stacks are listed from the top. -/
structure Threading where
  worker : Option (ThreadWorker Nat)
  books : Books
  threadQueue : List Nat
  freeThreads : List Nat
  frame : MainFrame
  adding : Option (WorkerCall Nat)
  deriving DecidableEq

namespace Threading

def start : Threading := ⟨none, .empty, [], [], .idle, none⟩

/-- An object from `g_FreeThreads`, or a new one. -/
def take (s : Threading) : Nat × Threading :=
  match s.freeThreads with
  | [] => (s.books.objects.length, { s with books := s.books.allocate })
  | object :: rest => (object, { s with freeThreads := rest })

/-- `SQL_ThreadQuery` once its arguments are in order. -/
def accept (s : Threading) (info : ConnectInfo) (call : QueryCall) : Threading :=
  { s.take.2 with
    books := s.take.2.books.issue s.take.1 info call
    adding := some (.makeThread s.take.1) }

/-- `SQL_ThreadQuery` up to the worker's method; the exits before that return 0. -/
def threadQuery (s : Threading) (call : QueryCall) : Threading :=
  match s.worker, call.cn with
  | some _, some info => if call.fwd < 1 then s else s.accept info call
  | _, _ => s

/-- The next step of the method that `SQL_ThreadQuery` is in. -/
def add (s : Threading) (call : WorkerCall Nat) : Option Threading :=
  s.worker.bind fun w =>
    (call.step w).map fun stepped =>
      { s with
        worker := some stepped.2
        adding := match stepped.1 with
          | .returned _ => none
          | next => some next }

/-- `OnTerminate` with `cancel` set -/
def cancel (s : Threading) (object : Nat) : Threading :=
  { s with books := s.books.invalidate object, freeThreads := object :: s.freeThreads }

/-- The next step of `Stop(false)`, and `delete g_pWorker` where it has returned.  What is
left in the worker's queue is cancelled. -/
def stop (s : Threading) (call : WorkerCall Nat) : Option Threading :=
  s.worker.bind fun w =>
    (call.step w).map fun stepped =>
      match stepped.1 with
      | .returned _ =>
          w.threadQueue.foldl cancel { s with worker := none, frame := .drain true }
      | next => { s with worker := some stepped.2, frame := .stopping next }

/-- The next step of the main thread.  `calls` is what the handler will ask for, where one
is started. -/
def mainStep (s : Threading) (calls : List QueryCall) : Option Threading :=
  match s.adding with
  | some call => s.add call
  | none =>
      match s.frame with
      | .idle => none
      | .drain unloading =>
          match s.threadQueue with
          | [] => some { s with frame := .idle }
          | object :: rest =>
              some { s with
                books := s.books.execute object
                threadQueue := rest
                frame := .handler unloading object calls }
      | .handler unloading object [] =>
          some { s with
            books := s.books.invalidate object
            freeThreads := object :: s.freeThreads
            frame := .drain unloading }
      | .handler unloading object (call :: calls) =>
          some ({ s with frame := .handler unloading object calls }.threadQuery call)
      | .stopping call => s.stop call

/-- The next step of the worker's thread.  `answer` is what the driver gives, where it is
asked. -/
def workerStep (s : Threading) (answer : DriverAnswer) : Option Threading :=
  s.worker.bind fun w =>
    w.runThread.map fun stepped =>
      let s := { s with worker := some stepped }
      match w.thread with
      | .runThread object _ _ => { s with books := s.books.run object answer }
      | .onTerminate object _ _ => { s with threadQueue := object :: s.threadQueue }
      | _ => s

inductive Event where
  | onPluginsLoaded
  | threadQuery (call : QueryCall)
  | startFrame
  | onPluginsUnloading
  | main (calls : List QueryCall)
  | worker (answer : DriverAnswer)

def Idle (s : Threading) : Prop := s.frame = .idle ∧ s.adding = none

instance (s : Threading) : Decidable s.Idle :=
  inferInstanceAs (Decidable (s.frame = .idle ∧ s.adding = none))

def step (s : Threading) : Event → Option Threading
  | .onPluginsLoaded =>
      if s.Idle then
        match s.worker with
        | some _ => some s
        | none => some { s with worker := some .started }
      else none
  | .threadQuery call => if s.Idle then some (s.threadQuery call) else none
  | .startFrame =>
      if s.Idle then
        match s.worker with
        | some _ => some { s with frame := .drain false }
        | none => some s
      else none
  | .onPluginsUnloading =>
      if s.Idle then
        match s.worker with
        | some _ => some { s with frame := .stopping (.stop false) }
        | none => some s
      else none
  | .main calls => s.mainStep calls
  | .worker answer => s.workerStep answer

/-! A query and an answer for concrete runs. -/

def oneQuery : QueryCall := ⟨some ⟨"localhost", "root", "", "amx", 3306, 60⟩, 1, "SELECT 1", []⟩

def oneAnswer : DriverAnswer := .succeeds (some [["1"]])

end Threading

end AmxModC.Sql
