import AmxModC.Plugin
import AmxModC.Forward.Execute

namespace AmxModC.Forward

open Foundation

/-! The heap of a plugin during a call: the blocks that `execute` allots for strings and
arrays, and what is left of them afterwards. -/

structure Registers where
  hea : Cell
  stk : Cell
  stp : Cell
  paramcount : Nat
deriving DecidableEq, Repr

namespace Registers

/-- `amx_Allot`; what is left is compared without its sign. -/
def allot (registers : Registers) (cells : Nat) : Option (Cell × Registers) :=
  if registers.stk - registers.hea - BitVec.ofNat 32 (4 * cells) < 64 then none
  else
    some (registers.hea,
      { registers with hea := registers.hea + BitVec.ofNat 32 (4 * cells) })

/-- `amx_Release`, which never raises the top of the heap. -/
def release (registers : Registers) (address : Cell) : Registers :=
  if address.slt registers.hea then { registers with hea := address } else registers

end Registers

/-- The machines of the plugins with their data, the memory of the host and the table of
prepared arrays. -/
structure Server where
  registers : Amx → Registers
  data : AmxModC.Memory
  memory : Memory
  tmpArrays : List ForwardPreparedArray

/-- An entry of `realParams`, with the block behind it and what is copied there. -/
inductive RealParam where
  | value (value : Cell)
  | block (address : Cell) (cells : Nat) (contents : List Cell)
deriving DecidableEq, Repr

namespace RealParam

def pushed : RealParam → Cell
  | .value cell => cell
  | .block address _ _ => address

def address? : RealParam → Option Cell
  | .value _ => none
  | .block address _ _ => some address

def Inside : RealParam → Prop
  | .value _ => True
  | .block _ cells contents => contents.length ≤ cells

end RealParam

def strlen (memory : Memory) (ptr : Cell) : Nat :=
  if ptr = 0 then 0
  else ((memory.chars.drop ptr.toNat).takeWhile fun char => char ≠ 0).length

/-- The number of cells asked for; 128 is `STRINGEX_MAXLENGTH`. -/
def cellsFor (lookup : Lookup) (memory : Memory) : ForwardParam → Arg → Nat
  | .string, .value value => strlen memory value + 1
  | .stringEx, _ => 128
  | .array, .array index prepared =>
      ((lookup index prepared).map ForwardPreparedArray.size).getD 0
  | _, _ => 0

def errSleep : Nat := 12

/-- What becomes of `amx_Exec`: it refuses in front of the first instruction, or the public
function runs; then `*retval` is written only where the run gets to its end. -/
inductive Ran where
  | refused (error : Nat)
  | ran (server : Server) (retVal : Option Cell) (error : Nat)

abbrev Run := Server → Amx → Int → Ran

namespace Server

def lookup (server : Server) : Lookup :=
  fun index _ => if 0 ≤ index then server.tmpArrays[index.toNat]? else none

def setRegisters (server : Server) (amx : Amx) (registers : Registers) : Server :=
  { server with registers := Function.update server.registers amx registers }

def prepareOne (server : Server) (amx : Amx) (type : ForwardParam) (arg : Arg) :
    Option (RealParam × Server) := do
  match ← passOne server.lookup server.memory type arg with
  | .value value => return (.value value, server)
  | .block contents =>
      let cells := cellsFor server.lookup server.memory type arg
      let (address, registers) ← (server.registers amx).allot cells
      return (.block address cells contents,
        { server.setRegisters amx registers with
          data := server.data.store amx (cellNumber address) contents })

def prepare (server : Server) (amx : Amx) :
    List ForwardParam → List Arg → Option (List RealParam × Server)
  | [], _ => some ([], server)
  | _ :: _, [] => none
  | type :: types, arg :: args => do
      let (param, server) ← server.prepareOne amx type arg
      let (params, server) ← server.prepare amx types args
      return (param :: params, server)

/-- `amx_Push`, whose refusal the callers do not see. -/
def push (server : Server) (amx : Amx) (value : Cell) : Server :=
  let registers := server.registers amx
  if registers.stk.slt (registers.hea + 64) then server
  else
    { server.setRegisters amx
        { registers with
          stk := registers.stk - 4
          paramcount := registers.paramcount + 1 } with
      data := server.data.store amx (cellNumber (registers.stk - 4)) [value] }

def pushAll (server : Server) (amx : Amx) (params : List RealParam) : Server :=
  params.foldr (fun param server => server.push amx param.pushed) server

/-- `amx_Exec` around the run: unless the plugin goes to sleep, heap and stack are taken
back to where they were, less the parameters. -/
def exec (run : Run) (server : Server) (amx : Amx) (func : Int) : Option Cell × Server :=
  match run server amx func with
  | .refused _ => (none, server)
  | .ran left retVal error =>
      if error = errSleep then (retVal, left)
      else
        let entered := server.registers amx
        (retVal, left.setRegisters amx
          { left.registers amx with
            hea := entered.hea
            stk := entered.stk + BitVec.ofNat 32 (4 * entered.paramcount) })

def contents (server : Server) (amx : Amx) : RealParam → List Cell
  | .value _ => []
  | .block address _ _ =>
      server.data.fetch amx (cellNumber address)
        (cellNumber (server.registers amx).stp - cellNumber address)

def releaseAll (server : Server) (amx : Amx) (params : List RealParam) : Server :=
  server.setRegisters amx
    ((params.filterMap RealParam.address?).foldl Registers.release (server.registers amx))

def call (run : Run) (types : List ForwardParam) (args : List Arg) (server : Server)
    (amx : Amx) (func : Int) : Option (Option Cell × Server) := do
  let (params, server) ← server.prepare amx types args
  let (retVal, server) := exec run (server.pushAll amx params) amx func
  let memory ← cleanup server.lookup types args (params.map (server.contents amx)) server.memory
  return (retVal, { server.releaseAll amx params with memory := memory })

end Server

namespace CForward

def turn (run : Run) (types : List ForwardParam) (args : List Arg) (server : Server)
    (func : AMXForward) : Option (Cell × Server) := do
  let (retVal, server) ← server.call run types args func.plugin func.func
  return (retVal.getD 0, server)

/-- `CForward::execute` on the machines of the plugins. -/
def executeOn (forward : CForward) (isExecutable : Server → AMXForward → Bool) (run : Run)
    (args : List Arg) (server : Server) : Option (Outcome Server) :=
  forward.execute isExecutable (turn run forward.paramTypes args) server

end CForward

namespace CSPForward

/-- Whether `execute` gets to the call. -/
def calls (forward : CSPForward) (isExecutable : Server → AMXForward → Bool)
    (server : Server) : Bool :=
  !forward.isFree && !(!forward.hasFunc || forward.toDelete) &&
    isExecutable server ⟨forward.amx, forward.func⟩

/-- `CSPForward::execute`; the variable for the result has no first value. -/
def executeOn (forward : CSPForward) (isExecutable : Server → AMXForward → Bool) (run : Run)
    (uninitialised : Cell) (args : List Arg) (server : Server) : Option (Cell × Server) :=
  if forward.calls isExecutable server then do
    let (retVal, server) ← server.call run forward.paramTypes args forward.amx forward.func
    return (retVal.getD uninitialised, server)
  else some (0, server)

end CSPForward

end AmxModC.Forward
