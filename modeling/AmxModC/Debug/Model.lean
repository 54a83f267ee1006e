import AmxModC.Foundation.CString
import Mathlib.Tactic.Linarith

namespace AmxModC.Debug

open Foundation

/-! The debugger and the handler of a plugin, as far as a call of its native filter touches
them. `none` stands for a failed assertion, behind which the code reads outside of `m_pCalls`. -/

def amxErrNone : Int := 0
def amxErrInvnative : Int := 14

abbrev RuntimeError := { err : Int // 0 < err }

/-- `Debugger`: the errors of its tracers, and `m_Top`. -/
structure Debugger where
  calls : List Int
  top : Int
  low : -1 ≤ top
  high : top < calls.length
deriving DecidableEq

namespace Debugger

variable (d : Debugger)

def beginExec : Debugger where
  calls := (if d.calls.length ≤ d.top + 1 then d.calls ++ [amxErrNone] else d.calls).set
    (d.top + 1).toNat amxErrNone
  top := d.top + 1
  low := by
    have := d.low
    omega
  high := by
    have := d.high
    rw [List.length_set]
    split
    next =>
      rw [List.length_append, List.length_singleton]
      omega
    next => omega

def endExec : Option Debugger :=
  if h : 0 ≤ d.top then
    some {
      calls := d.calls.set d.top.toNat amxErrNone
      top := d.top - 1
      low := by omega
      high := by
        have := d.high
        rw [List.length_set]
        omega }
  else none

def setTracedError (err : Int) : Option Debugger :=
  if 0 ≤ d.top then
    some {
      calls := d.calls.set d.top.toNat err
      top := d.top
      low := d.low
      high := by
        rw [List.length_set]
        exact d.high }
  else none

def errorExists : Option Bool :=
  if 0 ≤ d.top then d.calls[d.top.toNat]?.map fun err => err ≠ amxErrNone else none

end Debugger

/-- The fields of the `AMX` and of the `Handler` of a plugin. `attached` is whether
`userdata[UD_DEBUGGER]` points to the debugger, `hooked` whether the debug callback is set, and
`errorBlocks` what the error filter of the plugin would answer. -/
structure Plugin where
  prenit : Bool
  debug : Bool
  hooked : Bool
  attached : Bool
  debugger : Debugger
  stk : Int
  hea : Int
  paramcount : Nat
  error : Int
  inNativeFilter : Bool
  handling : Bool
  natFunc : Int
  errFunc : Int
  errorBlocks : Bool

def sizeofCell : Int := 4

def stkMargin : Int := 16 * sizeofCell

namespace Plugin

variable (s : Plugin)

/-! The heap and the stack. -/

def push : Plugin :=
  if s.hea + stkMargin > s.stk then s
  else { s with stk := s.stk - sizeofCell, paramcount := s.paramcount + 1 }

def cells (string : CString) : Int := string.size + 1

def Allots (cells : Int) : Prop :=
  ¬(0 ≤ s.stk - s.hea - cells * sizeofCell ∧ s.stk - s.hea - cells * sizeofCell < stkMargin)

instance (cells : Int) : Decidable (s.Allots cells) := inferInstanceAs (Decidable (¬_))

/-- `amx_PushString`, with the address that it sets, unless it fails. -/
def pushString (string : CString) : Option Int × Plugin :=
  if s.Allots (cells string) then
    (some s.hea, { s with hea := s.hea + cells string * sizeofCell }.push)
  else (none, s)

def release (addr : Int) : Plugin := if s.hea > addr then { s with hea := addr } else s

/-- `amx_Exec`, around what the code of the plugin does. -/
def exec (body : Plugin → Option (Int × Int × Plugin)) : Option (Int × Int × Plugin) :=
  (body { s with paramcount := 0 }).map fun (err, retval, s') =>
    (err, retval, { s' with stk := s.stk + s.paramcount * sizeofCell, hea := s.hea })

/-! The debug handler. -/

def disableDebugHandler : Plugin := { s with attached := false, debug := false, hooked := false }

def enableDebugHandler : Plugin := { s with debug := true, attached := true, hooked := true }

def withDebugger (f : Debugger → Option Debugger) : Option Plugin :=
  (f s.debugger).map fun debugger => { s with debugger }

/-- Only when `pDebugger` is not null. -/
def ifAttached (f : Debugger → Option Debugger) : Option Plugin :=
  if s.attached then s.withDebugger f else some s

def handleError : Option (Bool × Plugin) :=
  if s.errFunc ≤ 0 then some (false, s)
  else do
    let s := { s with handling := true }
    let s ← s.ifAttached fun d => d.setTracedError s.error
    let s ← s.ifAttached fun d => some d.beginExec
    let s ← s.ifAttached Debugger.endExec
    return (s.errorBlocks, { s with handling := false })

/-- The end of `LogError`, which displays the error. -/
def display (err : Int) : Option Plugin :=
  (s.ifAttached fun d => d.setTracedError err).map fun s => { s with error := -1 }

def logError (err : Int) : Option Plugin :=
  let s := { s with error := err }
  if s.inNativeFilter then (s.ifAttached Debugger.endExec).bind fun s => s.display err
  else if s.handling then some s
  else
    s.handleError.bind fun (blocked, s) =>
      if blocked then some { s with error := -1 } else s.display err

/-! The native filter. -/

/-- `HandleNative` up to the call of the filter, with the address of the name. -/
def enter (trap : Bool) (native : CString) : Option Int × Plugin :=
  let s := { s with inNativeFilter := true }
  let s :=
    if s.attached then
      if trap then { s with debugger := s.debugger.beginExec } else s.disableDebugHandler
    else s
  let s := if trap then s else { s with prenit := true }
  s.push.push.pushString native

/-- `HandleNative` behind the call of the filter, for the debugger that it began with. -/
def leave (trap pDebugger : Bool) (heaAddr err retval : Int) : Option (Int × Plugin) :=
  if err = -1 then some (1, { s with inNativeFilter := false }.release heaAddr)
  else if err ≠ amxErrNone ∧ ¬trap then some (0, s)
  else do
    let (retval, s) ←
      if err ≠ amxErrNone then do
        let handled ← if pDebugger then s.debugger.errorExists else some false
        let s ← if handled then some s else s.logError err
        pure (0, s)
      else some (retval, s)
    let s := if trap then s else { s with prenit := false }
    let s ←
      if pDebugger then
        if trap then s.withDebugger Debugger.endExec else some s.enableDebugHandler
      else some s
    return (retval, { s.release heaAddr with inNativeFilter := false })

/-- `stale` is where the address of the name was never set. -/
def handleNative (trap : Bool) (native : CString) (stale : Int)
    (body : Plugin → Option (Int × Int × Plugin)) : Option (Int × Plugin) :=
  if s.natFunc > -1 then
    let (heaAddr, entered) := s.enter trap native
    (entered.exec body).bind fun (err, retval, s') =>
      s'.leave trap s.attached (heaAddr.getD stale) err retval
  else some (0, s)

end Plugin

/-- What the code of a filter does until its call ends: it returns, it fails with an error of the
machine, a native that it calls reports an error, or it calls an invalid native and goes on. -/
inductive Run where
  | returns (retval : Int)
  | fails (err : RuntimeError)
  | aborts (err : RuntimeError)
  | calls (native : CString) (stale : Int) (inner rest : Run)

/-- The native behind an invalid one is `invalid_native`, which asks the filter again. -/
def Run.body : Run → Plugin → Option (Int × Int × Plugin)
  | returns retval, s => some (amxErrNone, retval, s)
  | fails err, s => some (err, 0, s)
  | aborts err, s => (s.logError err).map fun s => (s.error, 0, s)
  | calls native stale inner rest, s =>
      (s.handleNative true native stale inner.body).bind fun (result, s) =>
        if result = 0 then (s.logError amxErrInvnative).map fun s => (s.error, 0, s)
        else rest.body s

end AmxModC.Debug
