import Mathlib.Logic.Function.Basic
import AmxModC.Plugin

namespace AmxModC.Native

/-! natives.cpp: natives that plugins register for one another, and the natives that
read the parameters of the current call. -/

def null : Amx := 0

structure Regnative where
  amx : Amx
  func : Int
  style : Int
deriving DecidableEq

/-- An array of `CALLFUNC_MAXPARAMS` cells. -/
abbrev Params := Fin callfuncMaxparams → Cell

/-- The globals, with what of the plugins they are used on.  A plugin and its machine
have one number. -/
structure State where
  regNatives : List Regnative
  status : Amx → Status
  memory : Memory
  caller : Amx
  curNative : Option Regnative
  params : Params
  curError : Cell

def count (first : Cell) : Nat := first.toNat / 4

/-- The loops that copy the cells up to number `n`; `none` is an access behind the arrays. -/
def copyParams (n : Nat) (source target : Params) : Option Params :=
  if n < callfuncMaxparams then some fun i => if i ≤ n then source i else target i else none

namespace State

def create (status : Amx → Status) (memory : Memory) : State :=
  ⟨[], status, memory, null, none, fun _ => 0, 0⟩

/-! The natives for the current call. -/

def param (s : State) (p : Int) : Option Cell :=
  if h : 0 ≤ p ∧ p.toNat < callfuncMaxparams then some (s.params ⟨p.toNat, h.2⟩) else none

def current (s : State) (amx : Amx) : Bool :=
  s.curNative.any fun native => native.amx = amx && native.style = 0

/-- The natives refuse outside of a call with parameters to ask for; `logError` is what
runs in the plugin for that error. -/
def withParam (s : State) (amx : Amx) (logError : State → Option State) (p : Int)
    (access : Cell → State × Cell) : Option (State × Cell) :=
  if s.current amx then (s.param p).map access else (logError s).map (·, 0)

variable (s : State) (amx : Amx) (logError : State → Option State) (p : Int)

def getString (dest : Cell) (len : Int) : Option (State × Cell) :=
  s.withParam amx logError p fun param =>
    let str := s.memory.getString s.caller (cellNumber param)
    let result := s.memory.setString amx (cellNumber dest) str len
    ({ s with memory := result.1 }, BitVec.ofNat 32 result.2)

def setString (source : Cell) (maxlen : Int) : Option (State × Cell) :=
  s.withParam amx logError p fun param =>
    let str := s.memory.getString amx (cellNumber source)
    let result := s.memory.setString s.caller (cellNumber param) str maxlen
    ({ s with memory := result.1 }, BitVec.ofNat 32 result.2)

def getParam : Option (State × Cell) :=
  s.withParam amx logError p fun param => (s, param)

def getParamByref : Option (State × Cell) :=
  s.withParam amx logError p fun param => (s, s.memory s.caller (cellNumber param))

def setParamByref (value : Cell) : Option (State × Cell) :=
  s.withParam amx logError p fun param =>
    ({ s with memory := s.memory.store s.caller (cellNumber param) [value] }, 1)

/-- The size is not negative: `memcpy` does not return from such a one. -/
def getArray (dest : Cell) (size : Nat) : Option (State × Cell) :=
  s.withParam amx logError p fun param =>
    let cells := s.memory.fetch s.caller (cellNumber param) size
    ({ s with memory := s.memory.store amx (cellNumber dest) cells }, 1)

def setArray (source : Cell) (size : Nat) : Option (State × Cell) :=
  s.withParam amx logError p fun param =>
    let cells := s.memory.fetch amx (cellNumber source) size
    ({ s with memory := s.memory.store s.caller (cellNumber param) cells }, 1)

end State

/-- A use of one of these natives, or of `log_error`. -/
inductive NativeCall
  | logError (code : Cell)
  | getString (p : Int) (dest : Cell) (len : Int)
  | setString (p : Int) (source : Cell) (maxlen : Int)
  | getParam (p : Int)
  | getParamByref (p : Int)
  | setParamByref (p : Int) (value : Cell)
  | getArray (p : Int) (dest : Cell) (size : Nat)
  | setArray (p : Int) (source : Cell) (size : Nat)
deriving DecidableEq

def NativeCall.run (s : State) (amx : Amx) (logError : State → Option State) :
    NativeCall → Option (State × Cell)
  | .logError code => some ({ s with curError := code }, 1)
  | .getString p dest len => s.getString amx logError p dest len
  | .setString p source maxlen => s.setString amx logError p source maxlen
  | .getParam p => s.getParam amx logError p
  | .getParamByref p => s.getParamByref amx logError p
  | .setParamByref p value => s.setParamByref amx logError p value
  | .getArray p dest size => s.getArray amx logError p dest size
  | .setArray p source size => s.setArray amx logError p source size

/-! The calls of the natives that plugins have registered. -/

/-- What the machines of the plugins do in a call: `amx_Exec` of the handler, and what
runs for an error logged in the plugin of the handler and in that of the caller.  `traced`
is an error that the debugger of the handler has already got. -/
structure Execution where
  exec : State → Option State
  err : Int
  ret : Cell
  traced : Bool
  logNative : State → Option State
  logCaller : State → Option State

def Execution.run (execution : Execution) (s : State) : Option State :=
  (execution.exec s).bind fun s =>
    if execution.err ≠ 0 then
      (if execution.traced ∨ execution.err = -1 then some s else execution.logNative s).bind
        execution.logCaller
    else if s.curError ≠ 0 then execution.logCaller s else some s

namespace State

def registered (s : State) (idx : Int) : Option Regnative :=
  if 0 ≤ idx then s.regNatives[idx.toNat]? else none

/-- `saveParams`, which begins as what stands on the stack. -/
def saveParams (s : State) : Option Params :=
  if s.curNative.isSome then copyParams (count (s.params 0)) s.params fun _ => 0xCDCDCDCD
  else some fun _ => 0xCDCDCDCD

def enter (s : State) (amx : Amx) (native : Regnative) (params : Nat → Cell) : Option State :=
  let s := { s with curError := 0, caller := amx, curNative := some native }
  if native.style = 0 then
    (copyParams (count (params 0)) (fun i => params i) s.params).map fun params => { s with params }
  else some s

def leave (s saved : State) (saveParams : Params) : Option State :=
  let s := { s with
    curNative := saved.curNative
    curError := saved.curError
    caller := saved.caller }
  if saved.curNative.isSome then
    (copyParams (count (saveParams 0)) saveParams s.params).map fun params => { s with params }
  else some s

def dynaCallback (execution : Execution) (s : State) (idx : Int) (amx : Amx)
    (params : Nat → Cell) : Option (State × Cell) :=
  match s.registered idx with
  | none => (execution.logCaller s).map (·, 0)
  | some native =>
      if count (params 0) > callfuncMaxparams then (execution.logCaller s).map (·, 0)
      else if !(s.status native.amx).isExecutable then
        (execution.logCaller s).map fun s =>
          ({ s with status := Function.update s.status amx .paused }, 0)
      else
        s.saveParams.bind fun saveParams =>
          ((s.enter amx native params).bind execution.run).bind fun next =>
            (next.leave s saveParams).map (·, execution.ret)

end State

/-! What runs in the plugins, as a tree of calls. -/

/-- `body` is what a handler does, `logNative` and `logCaller` what the error filters of
the two plugins do. -/
inductive Trace
  | done
  | store (amx : Amx) (cell : Nat) (value : Cell) (rest : Trace)
  | setStatus (plugin : Amx) (status : Status) (rest : Trace)
  | registerNative (amx : Amx) (func style : Int) (rest : Trace)
  | native (amx : Amx) (use : NativeCall) (logError rest : Trace)
  | call (idx : Int) (amx : Amx) (params : Nat → Cell) (err : Int) (ret : Cell) (traced : Bool)
      (body logNative logCaller rest : Trace)

namespace Trace

def exec : Trace → State → Option State
  | done, s => some s
  | store amx cell value rest, s =>
      exec rest { s with memory := s.memory.store amx cell [value] }
  | setStatus plugin status rest, s =>
      exec rest { s with status := Function.update s.status plugin status }
  | registerNative amx func style rest, s =>
      exec rest { s with regNatives := s.regNatives ++ [⟨amx, func, style⟩] }
  | native amx use logError rest, s =>
      (use.run s amx (exec logError)).bind fun result => exec rest result.1
  | call idx amx params err ret traced body logNative logCaller rest, s =>
      (s.dynaCallback ⟨exec body, err, ret, traced, exec logNative, exec logCaller⟩ idx amx
        params).bind fun result => exec rest result.1

end Trace

end AmxModC.Native
