import Mathlib.Data.Int.Notation

namespace AmxModC.Ham

/-! The callbacks that stand for a hooked function: its pre forwards, the original, its
post forwards, and the choice between the two return values. -/

inductive ReturnType where
  | integer
  | float
  | vector
  | string
  | cbase
  deriving DecidableEq, Repr

/-- A return value; floats by their bits, strings by their characters, entities by their
private data. -/
inductive Value where
  | integer (value : Int)
  | float (bits : Nat)
  | vector (x y z : Nat)
  | string (chars : List Nat)
  | cbase (privateData : Nat)
  deriving DecidableEq, Repr

def Value.type : Value → ReturnType
  | .integer _ => .integer
  | .float _ => .float
  | .vector .. => .vector
  | .string _ => .string
  | .cbase _ => .cbase

/-! `ham_const.h` -/

def hamUnset : Int := 0

def hamOverride : Int := 3

def hamSupercede : Int := 4

/-- The stacks that the natives read, from the top; `none` is the data of a function that
returns nothing.  A pointer that is pushed is modelled by the variable that it points to. -/
structure Stacks where
  returnStack : List (Option Value)
  origReturnStack : List (Option Value)
  returnStatus : List Int
  doForwards : Bool
  deriving DecidableEq

/-- `SetHamReturnInteger` and its relatives, which refuse another type. -/
def Stacks.setReturn (s : Stacks) (value : Value) : Stacks :=
  match s.returnStack with
  | some old :: rest =>
      if value.type = old.type then { s with returnStack := some value :: rest } else s
  | _ => s

structure Inner where
  run : Stacks → Stacks
  returnStack : ∀ s, (run s).returnStack = s.returnStack
  origReturnStack : ∀ s, (run s).origReturnStack = s.origReturnStack
  returnStatus : ∀ s, (run s).returnStatus = s.returnStatus

inductive Action where
  | setReturn (value : Value)
  | inner (call : Inner)

def Action.run (s : Stacks) : Action → Stacks
  | .setReturn value => s.setReturn value
  | .inner call => call.run s

inductive FwdState where
  | invalid
  | ok
  | pause
  | stop
  | destroy
  deriving DecidableEq, Repr

structure Forward where
  id : Nat
  state : FwdState
  body : List Action
  result : Int

def Forward.Enabled (forward : Forward) : Prop := forward.state = .ok

instance (forward : Forward) : Decidable forward.Enabled :=
  inferInstanceAs (Decidable (forward.state = .ok))

structure Original where
  body : List Action
  result : Value

structure Hook where
  pre : List Forward
  post : List Forward
  original : Original

inductive Ran where
  | forward (id : Nat)
  | original
  deriving DecidableEq

structure Frame where
  globals : Stacks
  result : Int
  thisResult : Int
  ran : List Ran

namespace Frame

/-- `MF_ExecuteForward` -/
def execute (frame : Frame) (forward : Forward) : Frame :=
  { frame with
    globals := forward.body.foldl Action.run frame.globals
    ran := frame.ran ++ [.forward forward.id] }

/-- `result` is what `GetHamReturnStatus` reads. -/
def setResult (frame : Frame) (result : Int) : Frame :=
  { frame with
    result := result
    globals := { frame.globals with returnStatus := result :: frame.globals.returnStatus.tail } }

/-- The loop between `PRE_START` and `PRE_END`. -/
def pre (frame : Frame) (forward : Forward) : Frame :=
  let frame :=
    if forward.Enabled then { frame.execute forward with thisResult := forward.result }
    else frame
  if frame.thisResult > frame.result then frame.setResult frame.thisResult else frame

/-- The loop between `POST_START` and `POST_END`; the results are not looked at. -/
def post (frame : Frame) (forward : Forward) : Frame :=
  if forward.Enabled then frame.execute forward else frame

/-- The call of the hooked function; `origret` is assigned when it returns. -/
def callOriginal (frame : Frame) (original : Original) : Frame :=
  let globals := original.body.foldl Action.run frame.globals
  { frame with
    globals :=
      { globals with
        origReturnStack :=
          match globals.origReturnStack with
          | some _ :: rest => some original.result :: rest
          | other => other }
    ran := frame.ran ++ [.original] }

end Frame

/-- `PUSH_*`, and `PRE_START` up to its loop. -/
def push (s : Stacks) (zero : Option Value) : Frame where
  globals :=
    { s with
      returnStack := zero :: s.returnStack
      origReturnStack := zero :: s.origReturnStack
      returnStatus := hamUnset :: s.returnStatus
      doForwards := true }
  result := hamUnset
  thisResult := hamUnset
  ran := []

/-- From `PRE_START` to `POST_END`, before the stacks are popped. -/
def Hook.body (hook : Hook) (s : Stacks) (zero : Option Value) : Frame :=
  let frame := push s zero
  let frame := if s.doForwards then hook.pre.foldl Frame.pre frame else frame
  let frame := if frame.result < hamSupercede then frame.callOriginal hook.original else frame
  if s.doForwards then hook.post.foldl Frame.post frame else frame

/-- `ReturnStatus.pop()` and `POP()` -/
def Frame.pop (frame : Frame) : Stacks :=
  { frame.globals with
    returnStack := frame.globals.returnStack.tail
    origReturnStack := frame.globals.origReturnStack.tail
    returnStatus := frame.globals.returnStatus.tail }

/-- `CHECK_RETURN` and its relatives -/
def Frame.checkReturn (frame : Frame) : Option Value :=
  if frame.thisResult < hamOverride then frame.globals.origReturnStack.head?.join
  else frame.globals.returnStack.head?.join

/-- `Hook_Void_*` -/
def hookVoid (hook : Hook) (s : Stacks) : Stacks := (hook.body s none).pop

structure Outcome where
  globals : Stacks
  value : Option Value
  ran : List Ran

/-- A callback that returns a value; `zero` is what `ret` and `origret` start with. -/
def hookValue (zero : Value) (hook : Hook) (s : Stacks) : Outcome :=
  let frame := hook.body s (some zero)
  ⟨frame.pop, frame.checkReturn, frame.ran⟩

/-- `Hook_Int_*` -/
def hookInt : Hook → Stacks → Outcome := hookValue (.integer 0)

/-- `Hook_Float_Void` -/
def hookFloat : Hook → Stacks → Outcome := hookValue (.float 0)

/-- `Hook_Vector_Void` and `Hook_Vector_pVector` -/
def hookVector : Hook → Stacks → Outcome := hookValue (.vector 0 0 0)

/-- `Hook_Str_Void` -/
def hookStr : Hook → Stacks → Outcome := hookValue (.string [])

/-- `Hook_Cbase_Void` -/
def hookCbase : Hook → Stacks → Outcome := hookValue (.cbase 0)

/-! `ExecuteHam` and `ExecuteHamB`: which of the hooked calls made below them run their
forwards. -/

/-- The two natives; they differ in what they leave in `gDoForwards` for the call. -/
inductive Execute where
  | executeHam
  | executeHamB
  deriving DecidableEq, Repr

def Execute.doForwards : Execute → Bool
  | .executeHam => false
  | .executeHamB => true

/-! Code by the hooked calls and requests in it, in order; everything between them leaves
`gDoForwards` alone.  `func` is an index of `hooklist`. -/

mutual
inductive Code where
  | done
  | engine (call : Call) (rest : Code)
  | execute (native : Execute) (request : Request) (rest : Code)

inductive Call where
  | mk (pre : Forwards) (original : Code) (post : Forwards)

inductive Forwards where
  | nil
  | cons (state : FwdState) (body : Code) (result : Int) (rest : Forwards)

/-- A call of either native, with what it runs. A refused one runs the plugin's handler:
`__fatal_ham_error` where the function is refused, the error filter elsewhere. -/
inductive Request where
  | badFunction (handler : Code)
  /-- An argument count, a target entity or a deprecated function. -/
  | rejected (handler : Code)
  /-- An argument read after `GetFunction`; `tramp` as for `made`. -/
  | badParameter (func : Nat) (tramp : Option Nat) (handler : Code)
  | made (func : Nat) (entry : Entry)

/-- What the entity's virtual table holds: the function itself, or the trampoline of a
hook that stands in `hooks[owner]`. -/
inductive Entry where
  | original (body : Code)
  | trampoline (owner : Nat) (call : Call)
end

/-- A hooked call: whether it is the one that an `ExecuteHam` makes, and whether its forwards
run. -/
structure Hooked where
  own : Bool
  forwards : Bool
  deriving DecidableEq, Repr

/-- `log` is the hooked calls so far. -/
structure Globals where
  doForwards : Bool
  log : List Hooked
  deriving DecidableEq, Repr

def Globals.initial : Globals := ⟨true, []⟩

def Entry.owner : Entry → Option Nat
  | .original _ => none
  | .trampoline owner _ => some owner

/-- `istramp` of `GetFunction`, which searches `hooks[func]` alone. -/
def istramp (func : Nat) (tramp : Option Nat) : Bool := tramp == some func

/-- The end of `SETUP`. -/
def Globals.setup (globals : Globals) (func : Nat) (tramp : Option Nat) : Globals :=
  if !istramp func tramp && !globals.doForwards then { globals with doForwards := true }
  else globals

/-- The variables of a callback, between `PRE_START` and `PRE_END`. -/
structure PreLoop where
  globals : Globals
  result : Int
  thisResult : Int

/-- `PRE_END` -/
def PreLoop.keep (loop : PreLoop) : PreLoop :=
  if loop.thisResult > loop.result then { loop with result := loop.thisResult } else loop

mutual
def Code.run : Code → Globals → Globals
  | .done, globals => globals
  | .engine call rest, globals => rest.run (call.run false globals)
  | .execute native request rest, globals => rest.run (request.run native globals)

def Call.run (own : Bool) : Call → Globals → Globals
  | .mk pre original post, globals =>
      let doForwards := globals.doForwards
      let globals := { doForwards := true, log := globals.log ++ [⟨own, doForwards⟩] }
      let loop : PreLoop :=
        if doForwards then pre.runPre ⟨globals, hamUnset, hamUnset⟩
        else ⟨globals, hamUnset, hamUnset⟩
      let globals :=
        if loop.result < hamSupercede then original.run loop.globals else loop.globals
      if doForwards then post.runPost globals else globals

def Forwards.runPre : Forwards → PreLoop → PreLoop
  | .nil, loop => loop
  | .cons state body result rest, loop =>
      let loop : PreLoop :=
        if state = .ok then ⟨body.run loop.globals, loop.result, result⟩ else loop
      rest.runPre loop.keep

def Forwards.runPost : Forwards → Globals → Globals
  | .nil, globals => globals
  | .cons state body _ rest, globals =>
      rest.runPost (if state = .ok then body.run globals else globals)

def Request.run (native : Execute) : Request → Globals → Globals
  | .badFunction handler, globals => handler.run globals
  | .rejected handler, globals =>
      handler.run { globals with doForwards := native.doForwards }
  | .badParameter func tramp handler, globals =>
      handler.run ({ globals with doForwards := native.doForwards }.setup func tramp)
  | .made func entry, globals =>
      entry.run native
        ({ globals with doForwards := native.doForwards }.setup func entry.owner)

def Entry.run (native : Execute) : Entry → Globals → Globals
  | .original body, globals => body.run globals
  | .trampoline _ call, globals => call.run (native == .executeHam) globals
end

/-- The forwards of a hooked call are skipped exactly where an `ExecuteHam` makes it. -/
def Hooked.Right (hooked : Hooked) : Prop := hooked.forwards = !hooked.own

instance (hooked : Hooked) : Decidable hooked.Right :=
  inferInstanceAs (Decidable (hooked.forwards = !hooked.own))

/-! The same code as it is meant to run, by the places where the flag is written or read. -/

inductive Step where
  /-- An `ExecuteHam`, which clears the flag. -/
  | clear
  /-- An `ExecuteHamB`, or a target that is not hooked, which set it. -/
  | set
  /-- The hooked call that an `ExecuteHam` makes. -/
  | own
  /-- Any other hooked call. -/
  | other
  deriving DecidableEq, Repr

def Execute.step : Execute → Step
  | .executeHam => .clear
  | .executeHamB => .set

def setupSteps (func : Nat) (tramp : Option Nat) : List Step :=
  if istramp func tramp then [] else [.set]

def Forwards.result : Forwards → Int
  | .nil => hamUnset
  | .cons state _ result rest => if state = .ok then max result rest.result else rest.result

mutual
def Code.order : Code → List Step
  | .done => []
  | .engine call rest => .other :: call.order true ++ rest.order
  | .execute native request rest => request.order native ++ rest.order

def Call.order (forwards : Bool) : Call → List Step
  | .mk pre original post =>
      (if forwards then pre.order else []) ++
        (if forwards && decide (hamSupercede ≤ pre.result) then [] else original.order) ++
        (if forwards then post.order else [])

def Forwards.order : Forwards → List Step
  | .nil => []
  | .cons state body _ rest => (if state = .ok then body.order else []) ++ rest.order

def Request.order (native : Execute) : Request → List Step
  | .badFunction handler => handler.order
  | .rejected handler => native.step :: handler.order
  | .badParameter func tramp handler =>
      native.step :: setupSteps func tramp ++ handler.order
  | .made func entry => native.step :: setupSteps func entry.owner ++ entry.order native

def Entry.order (native : Execute) : Entry → List Step
  | .original body => body.order
  | .trampoline _ call =>
      match native with
      | .executeHam => .own :: call.order false
      | .executeHamB => .other :: call.order true
end

/-- What may follow what: an own call comes straight after its `ExecuteHam`, and no other
call does. -/
def Fits : Step → Step → Prop
  | last, .own => last = .clear
  | last, .other => last ≠ .clear
  | _, _ => True

instance (last step : Step) : Decidable (Fits last step) :=
  match step with
  | .own => inferInstanceAs (Decidable (last = .clear))
  | .other => inferInstanceAs (Decidable (last ≠ .clear))
  | .clear => inferInstanceAs (Decidable True)
  | .set => inferInstanceAs (Decidable True)

end AmxModC.Ham
