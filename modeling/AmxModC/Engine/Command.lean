import AmxModC.Machine
import AmxModC.Foundation.Run

namespace AmxModC.Engine.Command

open Foundation

/-! The current user command, between `CmdStart` and the natives that read and change it. -/

structure Vector where
  x : Cell
  y : Cell
  z : Cell
  deriving DecidableEq

/-- `usercmd_s`; the floats by their bits, which `amx_ftoc` and `amx_ctof` keep. -/
structure UserCmd where
  lerp_msec : BitVec 16
  msec : BitVec 8
  viewangles : Vector
  forwardmove : Cell
  sidemove : Cell
  upmove : Cell
  lightlevel : BitVec 8
  buttons : BitVec 16
  impulse : BitVec 8
  weaponselect : BitVec 8
  impact_index : Cell
  impact_position : Vector
  deriving DecidableEq

/-! The types that the natives are called with. -/

abbrev usercmdFloatStart : Int := 0
abbrev usercmdForwardmove : Int := 1
abbrev usercmdSidemove : Int := 2
abbrev usercmdUpmove : Int := 3
abbrev usercmdFloatEnd : Int := 4
abbrev usercmdIntStart : Int := 5
abbrev usercmdLerpMsec : Int := 6
abbrev usercmdMsec : Int := 7
abbrev usercmdLightlevel : Int := 8
abbrev usercmdButtons : Int := 9
abbrev usercmdImpulse : Int := 10
abbrev usercmdWeaponselect : Int := 11
abbrev usercmdImpactIndex : Int := 12
abbrev usercmdIntEnd : Int := 13
abbrev usercmdVecStart : Int := 14
abbrev usercmdViewangles : Int := 15
abbrev usercmdImpactPosition : Int := 16
abbrev usercmdVecEnd : Int := 17

/-- How far `CmdStart` is with a command: in the handler of an impulse, or in the forward
`client_impulse`.  `origImpulse` is passed to the handlers, and `supersede` is its `res`. -/
inductive Phase
  | idle
  | impulse (cmd : Nat) (origImpulse : BitVec 8) (i : Nat) (supersede : Bool)
  | forward (cmd : Nat) (origImpulse : BitVec 8) (supersede : Bool)
  deriving DecidableEq

/-- `gCmd` is the global pointer; `impulses` the values the handlers are registered for; `mres` is
whether the last call was superseded. -/
structure State where
  memory : Nat → Option UserCmd
  gCmd : Option Nat
  incmd : Bool
  impulses : List Int
  cmdStartForward : Bool
  phase : Phase
  mres : Bool

structure Answer where
  ret : Cell
  written : List Cell
  deriving DecidableEq

namespace State

/-- `*g_cmd`, which is to point to a command -/
def deref (s : State) : Option UserCmd := s.gCmd.bind s.memory

def modify (s : State) (pointer : Option Nat) (change : UserCmd → UserCmd) : Option State := do
  let cmd ← pointer
  let command ← s.memory cmd
  some { s with memory := fun other => if other = cmd then some (change command)
                                       else s.memory other }

/-- `get_usercmd` -/
def getUsercmd (s : State) (type : Int) : Option Answer :=
  if !s.incmd then some ⟨0, []⟩
  else if type > usercmdIntStart ∧ type < usercmdIntEnd then
    if type = usercmdLerpMsec then s.deref.map fun c => ⟨c.lerp_msec.signExtend 32, []⟩
    else if type = usercmdMsec then s.deref.map fun c => ⟨c.msec.setWidth 32, []⟩
    else if type = usercmdLightlevel then s.deref.map fun c => ⟨c.lightlevel.setWidth 32, []⟩
    else if type = usercmdButtons then s.deref.map fun c => ⟨c.buttons.setWidth 32, []⟩
    else if type = usercmdWeaponselect then
      s.deref.map fun c => ⟨c.weaponselect.setWidth 32, []⟩
    else if type = usercmdImpactIndex then s.deref.map fun c => ⟨c.impact_index, []⟩
    else some ⟨0, []⟩
  else if type > usercmdFloatStart ∧ type < usercmdFloatEnd then
    if type = usercmdForwardmove then s.deref.map fun c => ⟨1, [c.forwardmove]⟩
    else if type = usercmdSidemove then s.deref.map fun c => ⟨1, [c.sidemove]⟩
    else if type = usercmdUpmove then s.deref.map fun c => ⟨1, [c.upmove]⟩
    else some ⟨0, []⟩
  else if type > usercmdVecStart ∧ type < usercmdVecEnd then
    if type = usercmdViewangles then
      s.deref.map fun c => ⟨1, [c.viewangles.x, c.viewangles.y, c.viewangles.z]⟩
    else if type = usercmdImpactPosition then
      s.deref.map fun c => ⟨1, [c.impact_position.x, c.impact_position.y, c.impact_position.z]⟩
    else some ⟨0, []⟩
  else some ⟨1, []⟩

def assign (s : State) (change : UserCmd → UserCmd) : Option (State × Cell) :=
  (s.modify s.gCmd change).map fun s => (s, 1)

/-- `set_usercmd`; `blah` is the plugin's memory from the second parameter on. -/
def setUsercmd (s : State) (type : Int) (blah : Nat → Cell) : Option (State × Cell) :=
  if !s.incmd then some (s, 0)
  else if type > usercmdIntStart ∧ type < usercmdIntEnd then
    let iValue := blah 0
    if type = usercmdLerpMsec then s.assign fun c => { c with lerp_msec := iValue.setWidth 16 }
    else if type = usercmdMsec then s.assign fun c => { c with msec := iValue.setWidth 8 }
    else if type = usercmdLightlevel then
      s.assign fun c => { c with lightlevel := iValue.setWidth 8 }
    else if type = usercmdButtons then s.assign fun c => { c with buttons := iValue.setWidth 16 }
    else if type = usercmdWeaponselect then
      s.assign fun c => { c with weaponselect := iValue.setWidth 8 }
    else if type = usercmdImpactIndex then s.assign fun c => { c with impact_index := iValue }
    else some (s, 0)
  else if type > usercmdFloatStart ∧ type < usercmdFloatEnd then
    let fValue := blah 0
    if type = usercmdForwardmove then s.assign fun c => { c with forwardmove := fValue }
    else if type = usercmdSidemove then s.assign fun c => { c with sidemove := fValue }
    else if type = usercmdUpmove then s.assign fun c => { c with upmove := fValue }
    else some (s, 0)
  else if type > usercmdVecStart ∧ type < usercmdVecEnd then
    let vValue : Vector := ⟨blah 0, blah 1, blah 2⟩
    if type = usercmdViewangles then s.assign fun c => { c with viewangles := vValue }
    else if type = usercmdImpactPosition then s.assign fun c => { c with impact_position := vValue }
    else some (s, 0)
  else some (s, 1)

/-! `CmdStart`.  Its local variable `g_cmd` is the pointer that it is called with; the global
variable of that name is not assigned to. -/

/-- The way out of `CmdStart`. -/
def finish (s : State) (cmd : Nat) (supersede : Bool) : Option State := do
  let s ← if supersede then s.modify (some cmd) fun c => { c with impulse := 0 } else some s
  some { s with phase := .idle, mres := supersede }

/-- The loop over the impulses from `i` on, up to the next call into a plugin. -/
def loop (s : State) (cmd : Nat) (origImpulse : BitVec 8) (i : Nat) (supersede : Bool) :
    Option State := do
  let command ← s.memory cmd
  match (s.impulses.drop i).findIdx? fun check => check = (command.impulse.toNat : Int) with
  | some more => some { s with phase := .impulse cmd origImpulse (i + more) supersede }
  | none =>
      if s.cmdStartForward then
        some { s with incmd := true, phase := .forward cmd origImpulse supersede }
      else s.finish cmd supersede

end State

inductive Event
  | registerImpulse (check : Int)
  | cmdStart (cmd : Nat)
  | get (type : Int)
  | set (type : Int) (blah : Nat → Cell)
  | returns (retVal : BitVec 32)

namespace State

/-- What `CmdStart` does when a handler or the forward returns. -/
def resume (s : State) (retVal : BitVec 32) : Option State :=
  match s.phase with
  | .idle => none
  | .impulse cmd origImpulse i supersede =>
      if retVal &&& 2 ≠ 0 then s.finish cmd true
      else s.loop cmd origImpulse (i + 1) (supersede || retVal ≠ 0)
  | .forward cmd _ supersede =>
      { s with incmd := false }.finish cmd (supersede || retVal ≠ 0)

def step (s : State) : Event → Option State
  | .registerImpulse check => some { s with impulses := s.impulses ++ [check] }
  | .cmdStart cmd =>
      if s.phase = .idle then do
        let command ← s.memory cmd
        s.loop cmd command.impulse 0 false
      else none
  | .get type => (s.getUsercmd type).map fun _ => s
  | .set type blah => (s.setUsercmd type blah).map Prod.fst
  | .returns retVal => s.resume retVal

def start (memory : Nat → Option UserCmd) (cmdStartForward : Bool) : State where
  memory := memory
  gCmd := none
  incmd := false
  impulses := []
  cmdStartForward := cmdStartForward
  phase := .idle
  mres := false

end State

/-! What the natives are for. -/

inductive Field
  | lerpMsec | msec | lightlevel | buttons | weaponselect | impactIndex
  | forwardmove | sidemove | upmove
  | viewangles | impactPosition
  deriving DecidableEq

namespace Field

def type : Field → Int
  | lerpMsec => usercmdLerpMsec
  | msec => usercmdMsec
  | lightlevel => usercmdLightlevel
  | buttons => usercmdButtons
  | weaponselect => usercmdWeaponselect
  | impactIndex => usercmdImpactIndex
  | forwardmove => usercmdForwardmove
  | sidemove => usercmdSidemove
  | upmove => usercmdUpmove
  | viewangles => usercmdViewangles
  | impactPosition => usercmdImpactPosition

def read (c : UserCmd) : Field → Answer
  | lerpMsec => ⟨c.lerp_msec.signExtend 32, []⟩
  | msec => ⟨c.msec.setWidth 32, []⟩
  | lightlevel => ⟨c.lightlevel.setWidth 32, []⟩
  | buttons => ⟨c.buttons.setWidth 32, []⟩
  | weaponselect => ⟨c.weaponselect.setWidth 32, []⟩
  | impactIndex => ⟨c.impact_index, []⟩
  | forwardmove => ⟨1, [c.forwardmove]⟩
  | sidemove => ⟨1, [c.sidemove]⟩
  | upmove => ⟨1, [c.upmove]⟩
  | viewangles => ⟨1, [c.viewangles.x, c.viewangles.y, c.viewangles.z]⟩
  | impactPosition => ⟨1, [c.impact_position.x, c.impact_position.y, c.impact_position.z]⟩

def write (blah : Nat → Cell) (c : UserCmd) : Field → UserCmd
  | lerpMsec => { c with lerp_msec := (blah 0).setWidth 16 }
  | msec => { c with msec := (blah 0).setWidth 8 }
  | lightlevel => { c with lightlevel := (blah 0).setWidth 8 }
  | buttons => { c with buttons := (blah 0).setWidth 16 }
  | weaponselect => { c with weaponselect := (blah 0).setWidth 8 }
  | impactIndex => { c with impact_index := blah 0 }
  | forwardmove => { c with forwardmove := blah 0 }
  | sidemove => { c with sidemove := blah 0 }
  | upmove => { c with upmove := blah 0 }
  | viewangles => { c with viewangles := ⟨blah 0, blah 1, blah 2⟩ }
  | impactPosition => { c with impact_position := ⟨blah 0, blah 1, blah 2⟩ }

end Field

/-- The command whose `client_impulse` is running. -/
def Phase.command : Phase → Option Nat
  | .forward cmd _ _ => some cmd
  | _ => none

namespace State

/-- In the forward, the natives are about the command of this `CmdStart`; elsewhere they do
nothing. -/
def Right (s : State) : Event → Prop
  | .get type =>
      match s.phase.command with
      | some cmd => ∀ field : Field, field.type = type → ∃ command,
          s.memory cmd = some command ∧ s.getUsercmd type = some (field.read command)
      | none => s.getUsercmd type = some ⟨0, []⟩
  | .set type blah =>
      match s.phase.command with
      | some cmd => ∀ field : Field, field.type = type → ∃ command ret,
          s.memory cmd = some command ∧ s.setUsercmd type blah =
            some ({ s with
              memory := fun other => if other = cmd then some (field.write blah command)
                                     else s.memory other }, ret)
      | none => s.setUsercmd type blah = some (s, 0)
  | _ => True

def Avoids (s : State) : Event → Prop
  | .get type => s.phase.command = none ∨ ∀ field : Field, field.type ≠ type
  | .set type _ => s.phase.command = none ∨ ∀ field : Field, field.type ≠ type
  | _ => True

variable {s s' : State} {type : Int} {blah : Nat → Cell} {field : Field} {cmd : Nat}

theorem getUsercmd_eq (hincmd : s.incmd = true) :
    s.getUsercmd field.type = s.deref.map fun c => field.read c := by
  cases field <;> simp [getUsercmd, hincmd, Field.type] <;> rfl

theorem setUsercmd_eq (hincmd : s.incmd = true) :
    s.setUsercmd field.type blah = s.assign fun c => field.write blah c := by
  cases field <;> simp [setUsercmd, hincmd, Field.type] <;> rfl

theorem getUsercmd_outside (hincmd : s.incmd = false) : s.getUsercmd type = some ⟨0, []⟩ := by
  simp [getUsercmd, hincmd]

theorem setUsercmd_outside (hincmd : s.incmd = false) :
    s.setUsercmd type blah = some (s, 0) := by
  simp [setUsercmd, hincmd]

structure Unset (s : State) : Prop where
  gCmd : s.gCmd = none
  incmd : s.incmd = s.phase.command.isSome

theorem Unset.right_iff (h : s.Unset) {event : Event} : s.Right event ↔ s.Avoids event := by
  have hincmd := h.incmd
  cases event with
  | registerImpulse check => exact Iff.rfl
  | cmdStart cmd => exact Iff.rfl
  | returns retVal => exact Iff.rfl
  | get type =>
      simp only [Right, Avoids]
      cases hcommand : s.phase.command with
      | none =>
          rw [hcommand] at hincmd
          simp [getUsercmd_outside hincmd]
      | some cmd =>
          rw [hcommand] at hincmd
          have hcrash : ∀ field : Field, s.getUsercmd field.type = none := fun field => by
            simp [getUsercmd_eq hincmd, deref, h.gCmd]
          simp only [reduceCtorEq, false_or]
          refine forall_congr' fun field => ?_
          constructor
          · rintro hread rfl
            obtain ⟨command, -, hread⟩ := hread rfl
            rw [hcrash] at hread
            cases hread
          · exact fun hne heq => absurd heq hne
  | set type blah =>
      simp only [Right, Avoids]
      cases hcommand : s.phase.command with
      | none =>
          rw [hcommand] at hincmd
          simp [setUsercmd_outside hincmd]
      | some cmd =>
          rw [hcommand] at hincmd
          have hcrash : ∀ field : Field, s.setUsercmd field.type blah = none := fun field => by
            simp [setUsercmd_eq hincmd, assign, modify, h.gCmd]
          simp only [reduceCtorEq, false_or]
          refine forall_congr' fun field => ?_
          constructor
          · rintro hwrite rfl
            obtain ⟨command, ret, -, hwrite⟩ := hwrite rfl
            rw [hcrash] at hwrite
            cases hwrite
          · exact fun hne heq => absurd heq hne

theorem finish_unset {supersede : Bool} (hgCmd : s.gCmd = none) (hincmd : s.incmd = false)
    (h : s.finish cmd supersede = some s') : s'.Unset := by
  cases supersede with
  | false =>
      cases h
      exact ⟨hgCmd, hincmd⟩
  | true =>
      cases hmemory : s.memory cmd with
      | none => simp [finish, modify, hmemory] at h
      | some command =>
          simp only [finish, modify, hmemory, Option.bind_eq_bind, Option.bind_some] at h
          cases h
          exact ⟨hgCmd, hincmd⟩

theorem loop_unset {origImpulse : BitVec 8} {i : Nat} {supersede : Bool} (hgCmd : s.gCmd = none)
    (hincmd : s.incmd = false) (h : s.loop cmd origImpulse i supersede = some s') :
    s'.Unset := by
  obtain ⟨command, -, h⟩ := Option.bind_eq_some_iff.mp h
  split at h
  next =>
    cases h
    exact ⟨hgCmd, hincmd⟩
  next =>
    split at h
    next =>
      cases h
      exact ⟨hgCmd, rfl⟩
    next => exact finish_unset hgCmd hincmd h

theorem setUsercmd_null (hgCmd : s.gCmd = none) {ret : Cell}
    (h : s.setUsercmd type blah = some (s', ret)) : s' = s := by
  have hassign : ∀ change, s.assign change = none := fun change => by
    simp [assign, modify, hgCmd]
  simp only [setUsercmd, hassign] at h
  grind

theorem Unset.step (h : s.Unset) {event : Event} (hstep : s.step event = some s') : s'.Unset := by
  have hincmd := h.incmd
  cases event with
  | registerImpulse check =>
      cases hstep
      exact ⟨h.gCmd, hincmd⟩
  | get type =>
      obtain ⟨answer, -, rfl⟩ := Option.map_eq_some_iff.mp hstep
      exact h
  | set type blah =>
      obtain ⟨⟨s₁, ret⟩, hset, rfl⟩ := Option.map_eq_some_iff.mp hstep
      rw [setUsercmd_null h.gCmd hset]
      exact h
  | cmdStart cmd =>
      simp only [State.step] at hstep
      split at hstep
      next hidle =>
        obtain ⟨command, -, hloop⟩ := Option.bind_eq_some_iff.mp hstep
        rw [hidle] at hincmd
        exact loop_unset h.gCmd hincmd hloop
      next => cases hstep
  | returns retVal =>
      simp only [State.step, resume] at hstep
      cases hphase : s.phase with
      | idle => simp [hphase] at hstep
      | impulse cmd origImpulse i supersede =>
          rw [hphase] at hincmd
          simp only [hphase] at hstep
          split at hstep
          next => exact finish_unset h.gCmd hincmd hstep
          next => exact loop_unset h.gCmd hincmd hstep
      | forward cmd origImpulse supersede =>
          simp only [hphase] at hstep
          exact finish_unset (s := { s with
            incmd := false, phase := .forward cmd origImpulse supersede }) h.gCmd rfl hstep

theorem unset_start (memory : Nat → Option UserCmd) (cmdStartForward : Bool) :
    (start memory cmdStartForward).Unset := ⟨rfl, rfl⟩

/-- In every run: the natives are right exactly as long as none is called for a field in the
forward.  There the global pointer is null. -/
theorem meets_right_iff_avoids_fields (memory : Nat → Option UserCmd) (cmdStartForward : Bool)
    (events : List Event) : Meets step Right (start memory cmdStartForward) events ↔
      Meets step Avoids (start memory cmdStartForward) events :=
  meets_congr (fun h _ hstep => h.step hstep) (fun h => h.right_iff)
    (unset_start memory cmdStartForward)

/-- A plugin asks for the duration of a command. -/
theorem not_meets_right_msec : ¬ ∀ (memory : Nat → Option UserCmd) (cmdStartForward : Bool)
    (events : List Event), Meets step Right (start memory cmdStartForward) events := by
  intro h
  have hright := h (fun _ => some ⟨0, 10, ⟨0, 0, 0⟩, 0, 0, 0, 0, 0, 0, 0, 0, ⟨0, 0, 0⟩⟩) true
    [.cmdStart 3, .get usercmdMsec]
  obtain ⟨-, hright⟩ := hright
  obtain ⟨hget, -⟩ := hright _ rfl
  obtain ⟨command, -, hread⟩ := hget .msec rfl
  cases hread

end State

end AmxModC.Engine.Command
