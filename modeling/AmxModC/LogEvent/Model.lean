import Mathlib.Data.List.Infix
import Mathlib.Logic.Function.Basic
import AmxModC.Foundation.CString
import AmxModC.Foundation.Run

namespace AmxModC.LogEvent

open Foundation

/-! CLogEvent.cpp: events for the log strings of the server, with conditions that
remember their last result. -/

def maxLogArgs : Nat := 12

structure CLogCmp where
  text : List Byte
  logid : BitVec 32
  pos : Nat
  result : Int
  isIn : Bool
deriving DecidableEq

structure LogCond where
  argnum : Nat
  list : List Nat
deriving DecidableEq

structure CLogEvent where
  func : Int
  filters : List LogCond
deriving DecidableEq

/-- `logcmplist` is in the order of allocation, so its head in the source is last
here; `logevents` has a list for every number of arguments. -/
structure LogEventsMngr where
  logString : List Byte
  logArgs : Nat → List Byte
  logArgc : Nat
  logCounter : BitVec 32
  logcmplist : List CLogCmp
  logevents : Nat → List CLogEvent

namespace CLogCmp

def evaluate (cmp : CLogCmp) (string : List Byte) : Int :=
  if cmp.isIn then if cmp.text <:+: string then 0 else 1 else strcmp string cmp.text

end CLogCmp

namespace LogEventsMngr

def create : LogEventsMngr :=
  ⟨List.replicate 256 0, fun _ => [], 0, 0, [], fun _ => []⟩

/-! Log strings. -/

/-- `vsnprintf` returns the length of the whole text, also where it has cut it;
`none` is a write behind `logString`. -/
def setLogString (mngr : LogEventsMngr) (text : CString) : Option LogEventsMngr :=
  let written := text.bytes.take 254
  let logString := written ++ 0 :: mngr.logString.drop (written.length + 1)
  let len := text.size
  let mngr := { mngr with logCounter := mngr.logCounter + 1, logArgc := 0 }
  if len = 0 then some { mngr with logString }
  else if len - 1 < logString.length then
    some { mngr with logString := logString.set (len - 1) 0 }
  else none

def argument (stop : Byte → Bool) (b : List Byte) : List Byte :=
  (b.takeWhile fun c => c ≠ 0 && !stop c).take 127

/-- `if (*b) b += 2` -/
def skip (b : List Byte) : List Byte := if b.headD 0 ≠ 0 then b.drop 2 else b

/-- One turn of the loop of `parseLogString`: the argument and the rest of the
string.  The character before a quote or a bracket is dropped. -/
def parseArg (b : List Byte) : List Byte × List Byte :=
  if b.headD 0 = 34 then
    let arg := argument (· = 34) b.tail
    (arg, skip (b.tail.drop arg.length))
  else if b.headD 0 = 40 then
    let arg := argument (· = 41) b.tail
    (arg, skip (b.tail.drop arg.length))
  else
    let arg := argument (fun c => c = 40 || c = 34) b
    let b := b.drop arg.length
    (if b.headD 0 ≠ 0 then arg.dropLast else arg, b)

def parseArgs (mngr : LogEventsMngr) : Nat → List Byte → LogEventsMngr
  | 0, _ => mngr
  | turns + 1, b =>
      if b.headD 0 ≠ 0 then
        parseArgs
          { mngr with
            logArgs := Function.update mngr.logArgs mngr.logArgc (parseArg b).1
            logArgc := mngr.logArgc + 1 } turns (parseArg b).2
      else mngr

def parseLogString (mngr : LogEventsMngr) : LogEventsMngr :=
  mngr.parseArgs (maxLogArgs - mngr.logArgc) mngr.logString

/-! Registration. -/

/-- A filter such as `0=say` or `0&say`, and what lies behind its terminator: the
text is read from there when no character follows the number. -/
structure Filter where
  string : CString
  behind : CString
deriving DecidableEq

def isdigit (c : Byte) : Bool := 48 ≤ c.toNat && c.toNat ≤ 57

def atoi (digits : List Byte) : Nat := digits.foldl (fun n c => n * 10 + (c.toNat - 48)) 0

def registerCondition (mngr : LogEventsMngr) (filter : Filter) : LogEventsMngr × Nat :=
  let digits := filter.string.bytes.takeWhile isdigit
  let rest := filter.string.bytes.drop digits.length
  let isIn := rest.headD 0 = 38
  let text := if rest = [] then filter.behind.bytes else rest.tail
  let pos := if atoi digits < maxLogArgs then atoi digits else 0
  let same := fun (cmp : CLogCmp) => cmp.pos = pos ∧ cmp.isIn = isIn ∧ cmp.text = text
  match mngr.logcmplist.findIdx? same with
  | some cmp => (mngr, cmp)
  | none =>
      ({ mngr with logcmplist := mngr.logcmplist ++ [⟨text, 0, pos, 0, isIn⟩] },
        mngr.logcmplist.length)

/-- `registerFilter`, once the comparison is known: to the conditions on its
argument, or to a new list of them. -/
def addFilter (cmp argnum : Nat) : List LogCond → Option (List LogCond)
  | [] => none
  | cond :: filters =>
      if cond.argnum = argnum then some ({ cond with list := cmp :: cond.list } :: filters)
      else (addFilter cmp argnum filters).map (cond :: ·)

def registerFilter (mngr : LogEventsMngr) (filters : List LogCond) (filter : Filter) :
    LogEventsMngr × List LogCond :=
  let (mngr, cmp) := mngr.registerCondition filter
  let pos := (mngr.logcmplist[cmp]?.map CLogCmp.pos).getD 0
  (mngr, (addFilter cmp pos filters).getD (⟨pos, [cmp]⟩ :: filters))

def registerFilters (mngr : LogEventsMngr) (filters : List LogCond) :
    List Filter → LogEventsMngr × List LogCond
  | [] => (mngr, filters)
  | filter :: rest =>
      let (mngr, filters) := mngr.registerFilter filters filter
      mngr.registerFilters filters rest

/-- `register_logevent`, for a function that exists. -/
def registerLogEvent (mngr : LogEventsMngr) (func pos : Int) (filters : List Filter) :
    LogEventsMngr :=
  if pos < 1 ∨ pos > maxLogArgs then mngr
  else
    let (mngr, filters) := mngr.registerFilters [] filters
    let events := mngr.logevents pos.toNat ++ [⟨func, filters⟩]
    { mngr with logevents := Function.update mngr.logevents pos.toNat events }

def clearLogEvents (mngr : LogEventsMngr) : LogEventsMngr :=
  { mngr with logCounter := 0, logevents := fun _ => [], logcmplist := [] }

/-! Evaluation.  The loops take the comparison of a condition as a parameter. -/

abbrev Compare := LogEventsMngr → Nat → List Byte → LogEventsMngr × Int

def compareCondition : Compare := fun mngr i string =>
  match mngr.logcmplist[i]? with
  | none => (mngr, 1)
  | some cmp =>
      if cmp.logid = mngr.logCounter then (mngr, cmp.result)
      else
        let result := cmp.evaluate string
        ({ mngr with
            logcmplist := mngr.logcmplist.set i { cmp with logid := mngr.logCounter, result } },
          result)

def compareAnew : Compare := fun mngr i string =>
  match mngr.logcmplist[i]? with
  | none => (mngr, 1)
  | some cmp => (mngr, cmp.evaluate string)

variable (compare : Compare)

def anyHolds (mngr : LogEventsMngr) (argnum : Nat) : List Nat → LogEventsMngr × Bool
  | [] => (mngr, false)
  | i :: list =>
      let (mngr, result) := compare mngr i (mngr.logArgs argnum)
      if result = 0 then (mngr, true) else anyHolds mngr argnum list

def isValid (mngr : LogEventsMngr) : List LogCond → LogEventsMngr × Bool
  | [] => (mngr, true)
  | cond :: filters =>
      let (mngr, valid) := anyHolds compare mngr cond.argnum cond.list
      if valid then isValid mngr filters else (mngr, false)

/-- The loop of `executeLogEvents` up to the next event to fire, from the event
number `index`. -/
def nextEvent (mngr : LogEventsMngr) (index : Nat) :
    List CLogEvent → LogEventsMngr × Option (Nat × Int)
  | [] => (mngr, none)
  | event :: events =>
      let (mngr, valid) := isValid compare mngr event.filters
      if valid then (mngr, some (index, event.func)) else nextEvent mngr (index + 1) events

end LogEventsMngr

/-! The manager with the handlers that are running. -/

structure Cursor where
  argc : Nat
  index : Nat
deriving DecidableEq

inductive Event
  | registerLogEvent (func pos : Int) (filters : List LogEventsMngr.Filter)
  | log (text : CString)
  | handlerReturn
  | clearLogEvents
deriving DecidableEq

structure State where
  mngr : LogEventsMngr
  running : List Cursor
  fired : List Int

namespace State

def create : State := ⟨.create, [], []⟩

variable (compare : LogEventsMngr.Compare)

/-- `executeLogEvents` from an event on, up to the call of a handler. -/
def execute (s : State) (argc index : Nat) : State :=
  match LogEventsMngr.nextEvent compare s.mngr index ((s.mngr.logevents argc).drop index) with
  | (mngr, none) => { s with mngr }
  | (mngr, some (index, func)) =>
      { mngr, running := ⟨argc, index⟩ :: s.running, fired := func :: s.fired }

def step (s : State) : Event → Option State
  | .registerLogEvent func pos filters =>
      some { s with mngr := s.mngr.registerLogEvent func pos filters }
  | .log text =>
      (s.mngr.setLogString text).map fun mngr =>
        let mngr := mngr.parseLogString
        execute compare { s with mngr } mngr.logArgc 0
  | .handlerReturn =>
      match s.running with
      | [] => none
      | cursor :: running => some (execute compare { s with running } cursor.argc (cursor.index + 1))
  | .clearLogEvents => if s.running = [] then some { s with mngr := s.mngr.clearLogEvents } else none

end State

end AmxModC.LogEvent
