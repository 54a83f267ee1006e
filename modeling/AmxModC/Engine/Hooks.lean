import AmxModC.Foundation.Cursor
import AmxModC.Foundation.CString
import AmxModC.Forward.Slots
import AmxModC.Plugin

namespace AmxModC.Engine

open Foundation Forward

/-! Touches, thinks and commands: the handlers that plugins have registered for them, and
the three functions that run the handlers. -/

structure EntClass where
  cls : CString
  forward : Int
deriving DecidableEq

structure Impulse where
  check : Cell
  forward : Int
deriving DecidableEq

structure Touch where
  toucher : CString
  touched : CString
  forward : Int
deriving DecidableEq

inductive Registration where
  | registerThink (clsname : CString)
  | registerImpulse (check : Cell)
  | registerTouch (toucher touched : CString)
deriving DecidableEq

/-- A call of one of the natives; `found` is the public function that it names. -/
structure Request where
  amx : Amx
  registration : Registration
  found : Option Int
deriving DecidableEq

structure Handler where
  request : Request
  forward : Int
deriving DecidableEq

/-- `host` is the forwards of the core; `handlers` is history, the requests so far. -/
structure Module where
  host : Forward.State
  touches : List Touch := []
  thinks : List EntClass := []
  impulses : List Impulse := []
  pfnThinkForward : Int
  cmdStartForward : Int
  pfnTouchForward : Int
  vexdTouchForward : Int
  handlers : List Handler := []

/-- `registerForward`, given the functions that it finds. -/
def registerForward (host : Forward.State) (execType : ForwardExecType)
    (paramTypes : List ForwardParam) (funcs : List AMXForward) : Forward.State :=
  { host with
    forwards := host.forwards ++ [⟨execType, paramTypes, funcs⟩]
    returned := 2 * host.forwards.length }

/-- The forwards of the three events, in the order of `OnPluginsLoaded`. -/
def onPluginsLoaded (host : Forward.State) (funcs : String → List AMXForward) : Module :=
  let think := registerForward host .stop [.cell] (funcs "pfn_think")
  let cmdStart := registerForward think .stop [.cell, .cell] (funcs "client_impulse")
  let touch := registerForward cmdStart .stop [.cell, .cell] (funcs "pfn_touch")
  let vexdTouch := registerForward touch .ignore [.cell, .cell] (funcs "vexd_pfntouch")
  { host := vexdTouch
    pfnThinkForward := think.returned
    cmdStartForward := cmdStart.returned
    pfnTouchForward := touch.returned
    vexdTouchForward := vexdTouch.returned }

def registerSPForwardByName (host : Forward.State) (request : Request)
    (paramTypes : List ForwardParam) : Forward.State :=
  host.registerSPForward (.setName request.found request.amx paramTypes)

def anyClass : CString := .ofMemory []

def star : CString := .ofMemory [42]

/-- What `register_touch` keeps of a class name. -/
def touchClass (name : CString) : CString :=
  if name.size = 0 ∨ strcmp name.bytes star.bytes = 0 then anyClass else name

namespace Module

/-- Each native keeps its registration, whatever `registerSPForwardByName` answers. -/
def register (module : Module) (request : Request) : Module :=
  match request.registration with
  | .registerThink clsname =>
      let host := registerSPForwardByName module.host request [.cell]
      { module with
        host := host
        thinks := module.thinks ++ [⟨clsname, host.returned⟩]
        handlers := module.handlers ++ [⟨request, host.returned⟩] }
  | .registerImpulse check =>
      let host := registerSPForwardByName module.host request [.cell, .cell]
      { module with
        host := host
        impulses := module.impulses ++ [⟨check, host.returned⟩]
        handlers := module.handlers ++ [⟨request, host.returned⟩] }
  | .registerTouch toucher touched =>
      let host := registerSPForwardByName module.host request [.cell, .cell]
      { module with
        host := host
        touches := module.touches ++ [⟨touchClass toucher, touchClass touched, host.returned⟩]
        handlers := module.handlers ++ [⟨request, host.returned⟩] }

end Module

/-- The plugins in an event: how they stand, and what a call of a forward makes its
functions return. -/
structure Plugins where
  status : Amx → Status
  result : Int → Cell

/-- `executeForwards`: whether the call comes through, and what it returns. -/
def executeForwards (host : Forward.State) (plugins : Plugins) (id : Int) : Bool × Cell :=
  if host.isIdValid id then
    if id % 2 = 1 then
      match host.spForwards[slotOf id]? with
      | some forward =>
          if forward.isFree || (!forward.hasFunc || forward.toDelete) ||
              !(plugins.status forward.amx).isExecutable then (false, 0)
          else (true, plugins.result id)
      | none => (false, 0)
    else (true, plugins.result id)
  else (false, -1)

inductive MetaRes where
  | ignored
  | supercede
deriving DecidableEq, Repr

structure Called where
  forward : Int
  params : List Cell
deriving DecidableEq, Repr

/-- `ran` is the calls that have come through so far. -/
structure Progress where
  ran : List Called
  res : MetaRes
deriving DecidableEq, Repr

def Progress.start : Progress := ⟨[], .ignored⟩

namespace Progress

def log (progress : Progress) (ran : Bool) (called : Called) : Progress :=
  if ran then { progress with ran := progress.ran ++ [called] } else progress

def supercede (progress : Progress) : Progress := { progress with res := .supercede }

end Progress

/-- `PLUGIN_HANDLED_MAIN` -/
def handledMain : Cell := 2

section

variable (execute : Int → Bool × Cell) (params : List Cell)

/-! `.error` is a `RETURN_META` before the end. -/

def runHandler (forward : Int) (progress : Progress) : Except Progress Progress :=
  let (ran, retVal) := execute forward
  let progress := progress.log ran ⟨forward, params⟩
  if retVal &&& handledMain ≠ 0 then .error progress.supercede
  else if retVal ≠ 0 then .ok progress.supercede
  else .ok progress

/-- What `pfnTouch` and `CmdStart` do with a forward of the event. -/
def runForward (forward : Int) (progress : Progress) : Except Progress Progress :=
  if forward ≠ -1 then
    let (ran, retVal) := execute forward
    let progress := progress.log ran ⟨forward, params⟩
    if retVal ≠ 0 then .error progress.supercede else .ok progress
  else .ok progress

def touchLoop (ptrClass ptdClass : CString) : List Touch → Progress → Except Progress Progress
  | [], progress => .ok progress
  | touch :: rest, progress =>
      if touch.toucher.size = 0 then
        if touch.touched.size = 0 then do
          let progress ← runHandler execute params touch.forward progress
          touchLoop ptrClass ptdClass rest progress
        else if strcmp touch.touched.bytes ptdClass.bytes = 0 then do
          let progress ← runHandler execute params touch.forward progress
          touchLoop ptrClass ptdClass rest progress
        else touchLoop ptrClass ptdClass rest progress
      else if strcmp touch.toucher.bytes ptrClass.bytes = 0 then
        if touch.touched.size = 0 then do
          let progress ← runHandler execute params touch.forward progress
          touchLoop ptrClass ptdClass rest progress
        else if strcmp touch.touched.bytes ptdClass.bytes = 0 then do
          let progress ← runHandler execute params touch.forward progress
          touchLoop ptrClass ptdClass rest progress
        else touchLoop ptrClass ptdClass rest progress
      else touchLoop ptrClass ptdClass rest progress

def thinkLoop (cls : CString) : List EntClass → Progress → Except Progress Progress
  | [], progress => .ok progress
  | think :: rest, progress =>
      if strcmp think.cls.bytes cls.bytes = 0 then do
        let progress ← runHandler execute params think.forward progress
        thinkLoop cls rest progress
      else thinkLoop cls rest progress

def impulseLoop (impulse : BitVec 8) : List Impulse → Progress → Except Progress Progress
  | [], progress => .ok progress
  | registered :: rest, progress =>
      if registered.check = impulse.zeroExtend 32 then do
        let progress ← runHandler execute params registered.forward progress
        impulseLoop impulse rest progress
      else impulseLoop impulse rest progress

end

structure Outcome where
  ran : List Called
  res : MetaRes
  impulse : Option (BitVec 8)
deriving DecidableEq

def Progress.outcome (progress : Progress) (impulse : Option (BitVec 8)) : Outcome :=
  ⟨progress.ran, progress.res, impulse⟩

namespace Module

variable (module : Module) (plugins : Plugins)

def pfnTouch (ptrClass ptdClass : CString) (ptrIndex ptdIndex : Cell) : Outcome :=
  let execute := executeForwards module.host plugins
  let params := [ptrIndex, ptdIndex]
  let progress : Except Progress Progress := do
    let progress ← touchLoop execute params ptrClass ptdClass module.touches .start
    let progress ← runForward execute params module.pfnTouchForward progress
    runForward execute params module.vexdTouchForward progress
  match progress with
  | .error progress => progress.outcome none
  | .ok progress => progress.outcome none

def think (cls : CString) (index : Cell) : Outcome :=
  let execute := executeForwards module.host plugins
  match thinkLoop execute [index] cls module.thinks .start with
  | .error progress => progress.outcome none
  | .ok progress =>
      let (ran, retVal) := execute module.pfnThinkForward
      let progress := progress.log ran ⟨module.pfnThinkForward, [index]⟩
      if retVal ≠ 0 then progress.supercede.outcome none else progress.outcome none

def cmdStart (index : Cell) (impulse : BitVec 8) : Outcome :=
  let execute := executeForwards module.host plugins
  let params := [index, impulse.zeroExtend 32]
  let progress : Except Progress Progress := do
    let progress ← impulseLoop execute params impulse module.impulses .start
    runForward execute params module.cmdStartForward progress
  match progress with
  | .error progress => progress.outcome (some 0)
  | .ok progress =>
      progress.outcome (some (if progress.res = .supercede then 0 else impulse))

end Module

inductive Event where
  | touch (ptrClass ptdClass : CString) (ptrIndex ptdIndex : Cell)
  | think (cls : CString) (index : Cell)
  | command (index : Cell) (impulse : BitVec 8)
deriving DecidableEq

def Module.dispatch (module : Module) (plugins : Plugins) : Event → Outcome
  | .touch ptrClass ptdClass ptrIndex ptdIndex =>
      module.pfnTouch plugins ptrClass ptdClass ptrIndex ptdIndex
  | .think cls index => module.think plugins cls index
  | .command index impulse => module.cmdStart plugins index impulse

/-! What a dispatch should do. -/

namespace Event

def params : Event → List Cell
  | .touch _ _ ptrIndex ptdIndex => [ptrIndex, ptdIndex]
  | .think _ index => [index]
  | .command index impulse => [index, impulse.zeroExtend 32]

def impulse? : Event → Option (BitVec 8)
  | .command _ impulse => some impulse
  | _ => none

/-- The class names of a touch are exact, empty or `*`. -/
def matchesClass (name cls : CString) : Bool := name = anyClass || name = star || name = cls

def matchesRegistration : Event → Registration → Bool
  | .touch ptrClass ptdClass _ _, .registerTouch toucher touched =>
      matchesClass toucher ptrClass && matchesClass touched ptdClass
  | .think cls _, .registerThink clsname => clsname = cls
  | .command _ impulse, .registerImpulse check => check = impulse.zeroExtend 32
  | _, _ => false

end Event

namespace Module

variable (module : Module) (plugins : Plugins) (event : Event)

def matching : List Handler :=
  module.handlers.filter fun handler => event.matchesRegistration handler.request.registration

/-- The forwards of the event itself; `vexd_pfntouch` is the older name of `pfn_touch`. -/
def general : Event → List Int
  | .touch .. => [module.pfnTouchForward, module.vexdTouchForward]
  | .think .. => [module.pfnThinkForward]
  | .command .. => [module.cmdStartForward]

end Module

def Handler.live (handler : Handler) (plugins : Plugins) : Bool :=
  handler.request.found.isSome && (plugins.status handler.request.amx).isExecutable

namespace Plugins

variable (plugins : Plugins)

def handled (forward : Int) : Bool := plugins.result forward &&& handledMain ≠ 0

def nonzero (forward : Int) : Bool := plugins.result forward ≠ 0

end Plugins

def Module.expected (module : Module) (plugins : Plugins) (event : Event) : List Int :=
  let live := ((module.matching event).filter fun handler => handler.live plugins).map
    Handler.forward
  upTo plugins.handled live ++
    if live.any plugins.handled then [] else upTo plugins.nonzero (module.general event)

structure Outcome.Right (outcome : Outcome) (module : Module) (plugins : Plugins)
    (event : Event) : Prop where
  ran : outcome.ran = (module.expected plugins event).map fun forward => ⟨forward, event.params⟩
  superceded : outcome.res = .supercede ↔
    ∃ called ∈ outcome.ran, plugins.result called.forward ≠ 0
  impulse : outcome.impulse = event.impulse?.map fun impulse =>
    if outcome.res = .supercede then 0 else impulse

/-- No registration that has failed and matches stands before the first handler that can run
and has handled the event. -/
def Module.Unobstructed (module : Module) (plugins : Plugins) (event : Event) : Prop :=
  ∀ handler ∈ (module.matching event).takeWhile fun handler =>
      !(handler.live plugins && plugins.handled handler.forward),
    handler.request.found.isSome = true

instance (module : Module) (plugins : Plugins) (event : Event) :
    Decidable (module.Unobstructed plugins event) :=
  inferInstanceAs (Decidable (∀ _ ∈ List.takeWhile _ _, _))

end AmxModC.Engine
