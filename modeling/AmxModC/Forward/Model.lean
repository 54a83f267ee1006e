import AmxModC.Foundation.Run
import AmxModC.Foundation.Block
import AmxModC.Machine

namespace AmxModC.Forward

open Foundation

/-! Forwards: the slots of `CForwardMngr`, its table of prepared arrays, and the calls
into plugins that are in progress. -/

inductive ForwardExecType where
  | ignore
  | stop
  | stop2
  | continue
deriving DecidableEq, Repr

inductive ForwardParam where
  | cell
  | float
  | string
  | stringEx
  | array
deriving DecidableEq, Repr

inductive ForwardArrayElemType where
  | cell
  | char
deriving DecidableEq, Repr

structure Memory where
  cells : List Cell
  chars : List (BitVec 8)
deriving DecidableEq, Repr

structure ForwardPreparedArray where
  ptr : Nat
  type : ForwardArrayElemType
  size : Nat
  copyBack : Bool
deriving DecidableEq, Repr

namespace ForwardPreparedArray

def load (array : ForwardPreparedArray) (memory : Memory) : Option (List Cell) :=
  match array.type with
  | .cell => Block.read memory.cells array.ptr array.size
  | .char => (Block.read memory.chars array.ptr array.size).map
      (List.map fun char => char.zeroExtend 32)

def store (array : ForwardPreparedArray) (contents : List Cell) (memory : Memory) :
    Option Memory :=
  if contents.length < array.size then none
  else
    match array.type with
    | .cell => (Block.write memory.cells array.ptr (contents.take array.size)).map
        fun cells => { memory with cells := cells }
    | .char => (Block.write memory.chars array.ptr
        ((contents.take array.size).map (BitVec.truncate 8))).map
        fun chars => { memory with chars := chars }

end ForwardPreparedArray

/-- `amx_SetStringOld`, unpacked: the C string at an address, `""` for a null pointer. -/
def setStringOld (memory : Memory) (ptr : Cell) : List Cell :=
  let source := if ptr = 0 then []
    else (memory.chars.drop ptr.toNat).takeWhile fun char => char ≠ 0
  source.map (BitVec.signExtend 32) ++ [0]

/-- The bytes `amx_GetStringOld` writes for a string that ends inside `source`. -/
def getStringOld (source : List Cell) : List (BitVec 8) :=
  if 0x00FFFFFF < (source.headD 0).toNat then
    let bytes := source.flatMap fun (cell : Cell) =>
      [(cell >>> 24).truncate 8, (cell >>> 16).truncate 8, (cell >>> 8).truncate 8,
        cell.truncate 8]
    (bytes.takeWhile fun byte => byte ≠ 0) ++ [0, 0]
  else (source.takeWhile fun cell => cell ≠ 0).map (BitVec.truncate 8) ++ [0]

structure AMXForward where
  plugin : Amx
  func : Int
deriving DecidableEq, Repr

structure CForward where
  execType : ForwardExecType
  paramTypes : List ForwardParam
  funcs : List AMXForward
deriving DecidableEq, Repr

structure CSPForward where
  paramTypes : List ForwardParam
  amx : Amx
  func : Int
  hasFunc : Bool
  inExec : Bool
  toDelete : Bool
  isFree : Bool
deriving DecidableEq, Repr

namespace CSPForward

def setFunc (func : Int) (amx : Amx) (paramTypes : List ForwardParam) : CSPForward where
  paramTypes := paramTypes
  amx := amx
  func := func
  hasFunc := true
  inExec := false
  toDelete := false
  isFree := false

/-- `Set` by name, given what `amx_FindPublic` answers; it writes `INT_MAX` where it
finds nothing. -/
def setName (found : Option Int) (amx : Amx) (paramTypes : List ForwardParam) :
    CSPForward where
  paramTypes := paramTypes
  amx := amx
  func := found.getD (2 ^ 31 - 1)
  hasFunc := found.isSome
  inExec := false
  toDelete := false
  isFree := false

end CSPForward

/-- An actual parameter of `executeForwards`.  For an array that is the index
`prepareArray` returned; `prepared` is history, the array of that call. -/
inductive Arg where
  | value (value : Cell)
  | array (index : Int) (prepared : ForwardPreparedArray)
deriving DecidableEq, Repr

def Arg.index : Arg → Option Int
  | .value _ => none
  | .array index _ => some index

inductive Passed where
  | value (value : Cell)
  | block (contents : List Cell)
deriving DecidableEq, Repr

abbrev Lookup := Int → ForwardPreparedArray → Option ForwardPreparedArray

def passOne (lookup : Lookup) (memory : Memory) : ForwardParam → Arg → Option Passed
  | .cell, .value value | .float, .value value => some (.value value)
  | .string, .value value | .stringEx, .value value =>
      some (.block (setStringOld memory value))
  | .array, .array index prepared => do
      let array ← lookup index prepared
      let contents ← array.load memory
      return .block contents
  | _, _ => none

def pass (lookup : Lookup) (memory : Memory) :
    List ForwardParam → List Arg → Option (List Passed)
  | [], _ => some []
  | _ :: _, [] => none
  | type :: types, arg :: args => do
      let passed ← passOne lookup memory type arg
      let rest ← pass lookup memory types args
      return passed :: rest

def cleanupOne (lookup : Lookup) (contents : List Cell) (memory : Memory) :
    ForwardParam → Arg → Option Memory
  | .stringEx, .value value =>
      (Block.write memory.chars value.toNat (getStringOld contents)).map
        fun chars => { memory with chars := chars }
  | .array, .array index prepared => do
      let array ← lookup index prepared
      if array.copyBack then array.store contents memory else return memory
  | _, _ => some memory

def cleanup (lookup : Lookup) :
    List ForwardParam → List Arg → List (List Cell) → Memory → Option Memory
  | type :: types, arg :: args, contents :: rest, memory => do
      let memory ← cleanupOne lookup contents memory type arg
      cleanup lookup types args rest memory
  | _, _, _, memory => some memory

/-- Decide what to do with a return value: `.inl` ends the execution with a result. -/
def afterReturn (execType : ForwardExecType) (retVal globRetVal : Cell) : Cell ⊕ Cell :=
  let larger := if globRetVal.slt retVal then retVal else globRetVal
  match execType with
  | .ignore => .inr globRetVal
  | .stop =>
      if (0 : Cell).slt retVal then .inl retVal
      else if retVal = 1 then .inl 1 else .inr larger
  | .stop2 => if retVal = 1 then .inl 1 else .inr larger
  | .continue => .inr larger

/-- One `executeForwards` in progress.  `call` is what the plugin now running was given;
`next` and `globRetVal` are those of `CForward::execute`. -/
structure Activation where
  id : Int
  args : List Arg
  next : Nat := 0
  globRetVal : Cell := 0
  call : Option (List Passed) := none
deriving DecidableEq, Repr

/-- `CForwardMngr` with the host memory and the executions in progress, innermost first.
`returned` is the result of the last call that has returned.  The rest is history: the
calls of `prepareArray`, the ids handed out and pushed on the free stack, and those that
are registered and not unregistered since. -/
structure State where
  forwards : List CForward := []
  spForwards : List CSPForward := []
  freeSPForwards : List Int := []
  tmpArrays : List ForwardPreparedArray :=
    List.replicate 32 ⟨0, .cell, 0, false⟩
  tmpArraysNum : Nat := 0
  memory : Memory := ⟨[], []⟩
  activations : List Activation := []
  returned : Int := 0
  prepared : List (Int × ForwardPreparedArray) := []
  handedOut : List Int := []
  pushed : List Int := []
  outstanding : List Int := []
deriving DecidableEq, Repr

/-- A parameter as the caller gives it: a value, or the result of an earlier call of
`prepareArray`. -/
inductive Given where
  | value (value : Cell)
  | prepared (call : Nat)
deriving DecidableEq, Repr

inductive Event where
  | registerForward (forward : CForward)
  | registerSPForward (func : Int) (amx : Amx) (paramTypes : List ForwardParam)
  | registerSPForwardByName (found : Option Int) (amx : Amx) (paramTypes : List ForwardParam)
  | duplicateSPForward (id : Int)
  | unregisterSPForward (id : Int)
  | prepareArray (array : ForwardPreparedArray)
  | executeForwards (id : Int) (params : List Given) (executable : Bool)
  | nextPlugin (executable : Bool)
  | callbackReturn (contents : List (List Cell)) (retVal : Cell)
  | hostWrite (memory : Memory)
deriving DecidableEq, Repr

def slotOf (id : Int) : Nat := id.toNat / 2

def spId (slot : Nat) : Int := 2 * slot + 1

namespace State

def callable (s : State) : Bool :=
  match s.activations with
  | [] => true
  | activation :: _ => activation.call.isSome

def isIdValid (s : State) (id : Int) : Bool :=
  0 ≤ id && if id % 2 = 1 then slotOf id < s.spForwards.length else slotOf id < s.forwards.length

/-- `registerSPForward` with the forward that `Set` makes. -/
def registerSPForward (s : State) (forward : CSPForward) : State :=
  match s.freeSPForwards with
  | id :: rest =>
      let s := { s with spForwards := s.spForwards.set (slotOf id) forward }
      if forward.hasFunc then
        { s with
          freeSPForwards := rest
          returned := id
          handedOut := id :: s.handedOut
          outstanding := id :: s.outstanding }
      else { s with returned := -1 }
  | [] =>
      if forward.hasFunc then
        let id := spId s.spForwards.length
        { s with
          spForwards := s.spForwards ++ [forward]
          returned := id
          handedOut := id :: s.handedOut
          outstanding := id :: s.outstanding }
      else { s with returned := -1 }

/-- `unregisterSPForward`; `m_SPForwards.at` is asked for any valid id. -/
def unregisterSPForward (s : State) (id : Int) : Option State :=
  if s.isIdValid id then do
    let forward ← s.spForwards[slotOf id]?
    if forward.isFree then return s
    else if forward.inExec then
      return { s with spForwards := s.spForwards.set (slotOf id) { forward with toDelete := true } }
    else
      return { s with
        spForwards := s.spForwards.set (slotOf id) { forward with isFree := true }
        freeSPForwards := id :: s.freeSPForwards
        pushed := id :: s.pushed }
  else some s

def duplicateSPForward (s : State) (id : Int) : Option State :=
  if s.isIdValid id then do
    let forward ← s.spForwards[slotOf id]?
    if forward.isFree then return { s with returned := -1 }
    else
      return s.registerSPForward (.setFunc forward.func forward.amx forward.paramTypes)
  else some { s with returned := -1 }

def prepareArray (s : State) (array : ForwardPreparedArray) : State :=
  if 32 ≤ s.tmpArraysNum then
    { s with tmpArraysNum := 0, returned := -1, prepared := s.prepared ++ [(-1, array)] }
  else
    { s with
      tmpArrays := s.tmpArrays.set s.tmpArraysNum array
      tmpArraysNum := s.tmpArraysNum + 1
      returned := s.tmpArraysNum
      prepared := s.prepared ++ [((s.tmpArraysNum : Int), array)] }

def resolve (s : State) : List Given → Option (List Arg)
  | [] => some []
  | .value value :: rest => do
      let args ← s.resolve rest
      return .value value :: args
  | .prepared call :: rest => do
      let (index, array) ← s.prepared[call]?
      let args ← s.resolve rest
      return .array index array :: args

def tmpArray (s : State) (index : Int) : Option ForwardPreparedArray :=
  if 0 ≤ index then s.tmpArrays[index.toNat]? else none

def leave (s : State) (result : Cell) : State :=
  { s with tmpArraysNum := 0, returned := result.toInt }

/-- The end of `executeForwards` for a single-plugin forward: act on a deferred
unregister first. -/
def leaveSP (s : State) (id : Int) (result : Cell) : Option State := do
  let forward ← s.spForwards[slotOf id]?
  if forward.toDelete then
    let s ← { s with
      spForwards := s.spForwards.set (slotOf id) { forward with toDelete := false }
      }.unregisterSPForward id
    return s.leave result
  else return s.leave result

/-- `executeForwards` up to the call of the plugin, or to the loop over the plugins. -/
def enter (lookup : State → Lookup) (s : State) (id : Int) (args : List Arg)
    (executable : Bool) : Option State :=
  if id % 2 = 1 then do
    let forward ← s.spForwards[slotOf id]?
    if forward.isFree || (!forward.hasFunc || forward.toDelete) || !executable then
      s.leaveSP id 0
    else
      let passed ← pass (lookup s) s.memory forward.paramTypes args
      return { s with
        spForwards := s.spForwards.set (slotOf id) { forward with inExec := true }
        activations := { id := id, args := args, call := some passed } :: s.activations }
  else some { s with activations := { id := id, args := args } :: s.activations }

/-- One turn of the loop in `CForward::execute`, up to the call. -/
def nextPlugin (lookup : State → Lookup) (s : State) (activation : Activation)
    (rest : List Activation) (executable : Bool) : Option State := do
  let forward ← s.forwards[slotOf activation.id]?
  if activation.next < forward.funcs.length then
    if executable then
      let passed ← pass (lookup s) s.memory forward.paramTypes activation.args
      return { s with activations := { activation with call := some passed } :: rest }
    else
      return { s with activations := { activation with next := activation.next + 1 } :: rest }
  else return { s with activations := rest }.leave activation.globRetVal

/-- The rest of that turn, or of `CSPForward::execute`, after the plugin has returned. -/
def callbackReturn (lookup : State → Lookup) (s : State) (activation : Activation)
    (rest : List Activation) (contents : List (List Cell)) (retVal : Cell) : Option State :=
  if activation.id % 2 = 1 then do
    let forward ← s.spForwards[slotOf activation.id]?
    let memory ← cleanup (lookup s) forward.paramTypes activation.args contents s.memory
    { s with
      memory := memory
      spForwards := s.spForwards.set (slotOf activation.id) { forward with inExec := false }
      activations := rest }.leaveSP activation.id retVal
  else do
    let forward ← s.forwards[slotOf activation.id]?
    let memory ← cleanup (lookup s) forward.paramTypes activation.args contents s.memory
    let s := { s with memory := memory }
    match afterReturn forward.execType retVal activation.globRetVal with
    | .inl result => return { s with activations := rest }.leave result
    | .inr globRetVal =>
        return { s with
          activations :=
            { activation with next := activation.next + 1, globRetVal := globRetVal, call := none }
              :: rest }

def stepWith (lookup : State → Lookup) (s : State) : Event → Option State
  | .registerForward forward =>
      if s.callable then
        some { s with
          forwards := s.forwards ++ [forward]
          returned := 2 * s.forwards.length }
      else none
  | .registerSPForward func amx paramTypes =>
      if s.callable then some (s.registerSPForward (.setFunc func amx paramTypes)) else none
  | .registerSPForwardByName found amx paramTypes =>
      if s.callable then some (s.registerSPForward (.setName found amx paramTypes)) else none
  | .duplicateSPForward id => if s.callable then s.duplicateSPForward id else none
  | .unregisterSPForward id =>
      if s.callable then
        (s.unregisterSPForward id).map fun next =>
          { next with outstanding := next.outstanding.filter fun other => other ≠ id }
      else none
  | .prepareArray array => if s.callable then some (s.prepareArray array) else none
  | .executeForwards id params executable =>
      if s.callable then
        if s.isIdValid id then do
          let args ← s.resolve params
          s.enter lookup id args executable
        else some { s with returned := -1 }
      else none
  | .nextPlugin executable =>
      match s.activations with
      | activation :: rest =>
          if activation.call.isNone then s.nextPlugin lookup activation rest executable else none
      | [] => none
  | .callbackReturn contents retVal =>
      match s.activations with
      | activation :: rest =>
          if activation.call.isSome then s.callbackReturn lookup activation rest contents retVal
          else none
      | [] => none
  | .hostWrite memory => if s.callable then some { s with memory := memory } else none

def step : State → Event → Option State :=
  stepWith fun s index _ => s.tmpArray index

end State

end AmxModC.Forward
