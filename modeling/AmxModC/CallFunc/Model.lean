import AmxModC.Foundation.Run
import AmxModC.Plugin
import Mathlib.Logic.Function.Basic

namespace AmxModC.CallFunc

/-! amxmodx.cpp: calls of a function of another plugin, prepared by `callfunc_begin` and
`callfunc_push_*` and made by `callfunc_end`. -/

/-- A use of one of the natives that push; `rest` are the parameters after those named. -/
inductive Push
  | byval (value : Cell)
  | byref (addr : Nat)
  | array (addr size : Nat) (rest : List Cell)
  | str (addr : Nat) (rest : List Cell)
deriving DecidableEq

/-- A pushed parameter.  In the source the flags tell these apart: none, `BYREF` and
`BYREF_REUSED`, whose own address, size and flag are not used. -/
inductive Param
  | value (value : Cell)
  | byref (byrefAddr : Nat) (alloc : List Cell) (copyback : Bool)
  | reused (i : Nat)
deriving DecidableEq

/-- The parameters are those up to `g_CallFunc_CurParam`. -/
structure Globals where
  plugin : Option Amx
  func : Int
  params : List Param
deriving DecidableEq

structure Answer where
  value : Int
  error : Bool
deriving DecidableEq

namespace Globals

def create : Globals := ⟨none, 0, []⟩

/-- `callfunc_begin`: the plugin of that name, and its functions by name. -/
def callfuncBegin (g : Globals) (plugin : Option Amx) (findPublic : Amx → Option Int) :
    Globals × Answer :=
  if g.plugin.isSome then (g, ⟨0, true⟩)
  else
    match plugin with
    | none => (g, ⟨-1, false⟩)
    | some plugin =>
        match findPublic plugin with
        | none => (g, ⟨-2, false⟩)
        | some func => (⟨some plugin, func, []⟩, ⟨1, false⟩)

def callfuncBeginI (g : Globals) (plugin : Option Amx) (status : Amx → Status) (func : Int) :
    Globals × Answer :=
  match plugin with
  | none => (g, ⟨-1, false⟩)
  | some plugin =>
      if g.plugin.isSome then (g, ⟨0, true⟩)
      else if func < 0 then (g, ⟨-1, true⟩)
      else if !(status plugin).isExecutable then (g, ⟨-2, false⟩)
      else (⟨some plugin, func, []⟩, ⟨1, false⟩)

/-! The natives that push. -/

def accept (g : Globals) (param : Param) : Globals × Answer :=
  if g.plugin.isNone then (g, ⟨0, true⟩)
  else if g.params.length = callfuncMaxparams then (g, ⟨0, true⟩)
  else ({ g with params := g.params ++ [param] }, ⟨0, false⟩)

def owns (addr : Nat) : Param → Bool
  | .byref byrefAddr _ _ => byrefAddr = addr
  | .value _ | .reused _ => false

def reference (params : List Param) (addr : Nat) (alloc : List Cell) (copyback : Bool) : Param :=
  match params.findIdx? (owns addr) with
  | some i => .reused i
  | none => .byref addr alloc copyback

/-- The native's parameter number `n`, where it has so many and else `true`. -/
def flag (params : List Cell) (n : Nat) : Bool := 
  (params[n - 1]?.map fun cell => decide (cell ≠ 0)).getD true

section

variable (g : Globals) (memory : Memory) (amx : Amx)

def callfuncPushByval (value : Cell) : Globals × Answer :=
  g.accept (.value value)

def callfuncPushByref (addr : Nat) : Globals × Answer :=
  g.accept (reference g.params addr (memory.fetch amx addr 1) true)

def callfuncPushArray (addr size : Nat) (rest : List Cell) : Globals × Answer :=
  g.accept (reference g.params addr (memory.fetch amx addr size) (flag (0 :: 0 :: rest) 3))

/-- The string, as `amx_SetStringOld` writes it. -/
def callfuncPushStr (addr : Nat) (rest : List Cell) : Globals × Answer :=
  g.accept (reference g.params addr
    ((memory.getString amx addr).map (·.signExtend 32) ++ [0]) (flag (0 :: rest) 3))

def push : Push → Globals × Answer
  | .byval value => g.callfuncPushByval value
  | .byref addr => g.callfuncPushByref memory amx addr
  | .array addr size rest => g.callfuncPushArray memory amx addr size rest
  | .str addr rest => g.callfuncPushStr memory amx addr rest

end

def pushAll (g : Globals) (pushes : List (Amx × Memory × Push)) : Globals :=
  pushes.foldl (fun g (amx, memory, push) => (g.push memory amx push).1) g

theorem pushAll_concat (g : Globals) (pushes : List (Amx × Memory × Push)) (amx : Amx)
    (memory : Memory) (push : Push) :
    g.pushAll (pushes ++ [(amx, memory, push)]) = ((g.pushAll pushes).push memory amx push).1 := by
  rw [pushAll, List.foldl_append]
  rfl

/-- `amx_abort` asks for the plugin that is to be called. -/
def abort (g : Globals) (amx : Amx) : Globals :=
  if g.plugin = some amx then { g with plugin := none } else g

end Globals

/-! The call. -/

structure World where
  memory : Memory
  hea : Amx → Nat
  stk : Amx → Nat

/-- An element of `gparams`: a value, an address in the plugin called or, up to the second
pass, the number of an earlier parameter. -/
inductive Arg
  | value (value : Cell)
  | address (cell : Nat)
  | index (i : Nat)
deriving DecidableEq, Inhabited

namespace World

def stkmargin : Nat := 16

/-- `amx_Allot`, whose error is not asked for: `none` is a block at no address.  The room
is an unsigned difference, so that a block larger than it is allotted. -/
def allot (w : World) (amx : Amx) (cells : Nat) : Option (Nat × World) :=
  if w.hea amx + cells ≤ w.stk amx ∧ w.stk amx < w.hea amx + cells + stkmargin then none
  else some (w.hea amx, { w with hea := Function.update w.hea amx (w.hea amx + cells) })

def release (w : World) (amx : Amx) (cell : Nat) : World :=
  if w.hea amx > cell then { w with hea := Function.update w.hea amx cell } else w

end World

def firstPass (plugin : Amx) : List Param → World → Option (List Arg × World)
  | [], w => some ([], w)
  | param :: params, w =>
      (firstPass plugin params w).bind fun (args, w) =>
        match param with
        | .value value => some (.value value :: args, w)
        | .reused i => some (.index i :: args, w)
        | .byref _ alloc _ =>
            (w.allot plugin alloc.length).map fun (cell, w) =>
              (.address cell :: args, { w with memory := w.memory.store plugin cell alloc })

def secondPass (args : List Arg) : List Arg :=
  args.map fun
    | .index i => args.getD i default
    | arg => arg

/-- `amx_Push` of the arguments from the last one on: those that get on the stack, and its
new top. -/
def pushArgs (hea : Nat) : List Arg → Nat → List Arg × Nat
  | [], stk => ([], stk)
  | arg :: args, stk =>
      let (seen, stk) := pushArgs hea args stk
      if hea + World.stkmargin > stk then (seen, stk) else (arg :: seen, stk - 1)

/-- What `amx_Exec` is called with.  `runs` is its own test of the margin, behind the number
of arguments and the return address. -/
structure Entry where
  args : List Arg
  seen : List Arg
  world : World
  runs : Bool

def enter (w : World) (plugin : Amx) (params : List Param) : Option Entry :=
  (firstPass plugin params w).map fun (args, w) =>
    let args := secondPass args
    let (seen, stk) := pushArgs (w.hea plugin) args (w.stk plugin)
    { args
      seen
      world := { w with stk := Function.update w.stk plugin stk }
      runs := w.hea plugin + World.stkmargin + 2 ≤ stk }

def copyBack (caller plugin : Amx) (w : World) : Param × Arg → World
  | (.byref byrefAddr alloc copyback, .address cell) =>
      let cells := w.memory.fetch plugin cell alloc.length
      let w := if copyback then { w with memory := w.memory.store caller byrefAddr cells } else w
      w.release plugin cell
  | _ => w

def leave (caller plugin : Amx) (params : List Param) (args : List Arg) (w : World) : World :=
  (params.zip args).foldl (copyBack caller plugin) w

abbrev Callee := List Arg → Memory → Globals → Memory × Globals × Int

/-- `callfunc_end`.  `amx_Exec` leaves the heap and, where it has run, the stack as it has
found them. -/
def callfuncEnd (g : Globals) (w : World) (caller : Amx) (callee : Callee) :
    Option (Globals × World × Answer) :=
  match g.plugin with
  | none => some (g, w, ⟨0, true⟩)
  | some plugin =>
      (enter w plugin g.params).map fun entry =>
        let cleared : Globals := { g with plugin := none, params := [] }
        let (memory, cleared, value) :=
          if entry.runs then callee entry.seen entry.world.memory cleared
          else (entry.world.memory, cleared, 0)
        let returned : World :=
          { entry.world with
            memory
            stk := if entry.runs then w.stk else entry.world.stk }
        (cleared, leave caller plugin g.params entry.args returned, ⟨value, false⟩)

open Foundation

/-! Runs of the plugins that prepare calls, and leave the preparation in other ways than
by `callfunc_end`. -/

inductive Event
  | callfuncBegin (amx : Amx) (plugin : Option Amx) (findPublic : Amx → Option Int)
  | callfuncBeginI (amx : Amx) (plugin : Option Amx) (func : Int)
  | push (amx : Amx) (memory : Memory) (push : Push)
  | callfuncEnd (amx : Amx)
  | abort (amx : Amx)
  | runtimeError (amx : Amx)
  | setStatus (plugin : Amx) (status : Status)

/-- `inside` is the plugin between its `callfunc_begin` and its `callfunc_end`, `since` what
has been pushed since the last `callfunc_begin`. -/
structure State where
  globals : Globals
  status : Amx → Status
  inside : Option Amx
  since : List (Amx × Memory × Push)

namespace State

def create (status : Amx → Status) : State := ⟨.create, status, none, []⟩

def begun (s : State) (amx : Amx) (result : Globals × Answer) : State :=
  if result.2.value = 1 then { s with globals := result.1, inside := some amx, since := [] }
  else { s with globals := result.1 }

def left (s : State) (amx : Amx) : State :=
  if s.inside = some amx then { s with inside := none } else s

/-- `callfunc_end` clears the globals before it calls. -/
def step (s : State) : Event → Option State
  | .callfuncBegin amx plugin findPublic =>
      some (s.begun amx (s.globals.callfuncBegin plugin findPublic))
  | .callfuncBeginI amx plugin func =>
      some (s.begun amx (s.globals.callfuncBeginI plugin s.status func))
  | .push amx memory push =>
      some { s with
        globals := (s.globals.push memory amx push).1
        since := s.since ++ [(amx, memory, push)] }
  | .callfuncEnd _ =>
      if s.globals.plugin.isSome then
        some { s with globals := { s.globals with plugin := none, params := [] }, inside := none }
      else some s
  | .abort amx => some ({ s with globals := s.globals.abort amx }.left amx)
  | .runtimeError amx => some (s.left amx)
  | .setStatus plugin status =>
      some { s with status := Function.update s.status plugin status }

/-- A `callfunc_begin` for a function that there is succeeds where no plugin is inside,
and what is passed has been pushed since the last one. -/
structure Usable (s : State) : Prop where
  begins : s.inside = none → ∀ plugin findPublic func, findPublic plugin = some func →
    s.globals.callfuncBegin (some plugin) findPublic = (⟨some plugin, func, []⟩, ⟨1, false⟩)
  beginsI : s.inside = none → ∀ plugin func, 0 ≤ func → (s.status plugin).isExecutable = true →
    s.globals.callfuncBeginI (some plugin) s.status func = (⟨some plugin, func, []⟩, ⟨1, false⟩)
  passes : s.globals.plugin.isSome = true →
    s.globals = Globals.pushAll ⟨s.globals.plugin, s.globals.func, []⟩ s.since

/-- The plugin inside is not left by an error, and aborts only where it has called on
itself, unless the call has been given up by then. -/
def Released (s : State) : Event → Prop
  | .abort amx => s.inside = some amx → s.globals.plugin = none ∨ s.globals.plugin = some amx
  | .runtimeError amx => s.inside = some amx → s.globals.plugin = none
  | _ => True

instance (s : State) : (event : Event) → Decidable (s.Released event)
  | .abort amx => inferInstanceAs
      (Decidable (s.inside = some amx → s.globals.plugin = none ∨ s.globals.plugin = some amx))
  | .runtimeError amx => inferInstanceAs
      (Decidable (s.inside = some amx → s.globals.plugin = none))
  | .callfuncBegin .. | .callfuncBeginI .. | .push .. | .callfuncEnd _ | .setStatus .. =>
      isTrue trivial

structure Prepared (s : State) : Prop where
  free : s.inside = none → s.globals.plugin = none
  passes : s.globals.plugin.isSome = true →
    s.globals = Globals.pushAll ⟨s.globals.plugin, s.globals.func, []⟩ s.since

section

variable {s next : State} {event : Event} {amx : Amx}

theorem callfuncBegin_cases (g : Globals) (plugin : Option Amx) (findPublic : Amx → Option Int) :
    (∃ called func, g.callfuncBegin plugin findPublic = (⟨some called, func, []⟩, ⟨1, false⟩)) ∨
      ∃ answer : Answer, g.callfuncBegin plugin findPublic = (g, answer) ∧ answer.value ≠ 1 := by
  unfold Globals.callfuncBegin
  split
  next => exact .inr ⟨_, rfl, by decide⟩
  next =>
      cases plugin with
      | none => exact .inr ⟨_, rfl, by decide⟩
      | some plugin =>
          dsimp only
          cases findPublic plugin with
          | none => exact .inr ⟨_, rfl, by decide⟩
          | some func => exact .inl ⟨plugin, func, rfl⟩

theorem callfuncBeginI_cases (g : Globals) (plugin : Option Amx) (status : Amx → Status)
    (func : Int) :
    (∃ called func', g.callfuncBeginI plugin status func = (⟨some called, func', []⟩, ⟨1, false⟩)) ∨
      ∃ answer : Answer, g.callfuncBeginI plugin status func = (g, answer) ∧ answer.value ≠ 1 := by
  unfold Globals.callfuncBeginI
  cases plugin with
  | none => exact .inr ⟨_, rfl, by decide⟩
  | some plugin =>
      dsimp only
      split
      next => exact .inr ⟨_, rfl, by decide⟩
      next =>
          split
          next => exact .inr ⟨_, rfl, by decide⟩
          next =>
              split
              next => exact .inr ⟨_, rfl, by decide⟩
              next => exact .inl ⟨plugin, func, rfl⟩

theorem Prepared.begun (h : s.Prepared) {result : Globals × Answer}
    (hresult : (∃ called func, result = (⟨some called, func, []⟩, ⟨1, false⟩)) ∨
      ∃ answer : Answer, result = (s.globals, answer) ∧ answer.value ≠ 1) :
    (s.begun amx result).Prepared := by
  rcases hresult with ⟨called, func, rfl⟩ | ⟨answer, rfl, hvalue⟩
  · exact ⟨(fun hinside => nomatch hinside), fun _ => rfl⟩
  · rw [State.begun, if_neg hvalue]
    exact h

theorem push_plugin (g : Globals) (memory : Memory) (amx : Amx) (push : Push) :
    (g.push memory amx push).1.plugin = g.plugin ∧ (g.push memory amx push).1.func = g.func := by
  have haccept : ∀ param, (g.accept param).1.plugin = g.plugin ∧
      (g.accept param).1.func = g.func := by
    intro param
    rw [Globals.accept]
    split
    next => exact ⟨rfl, rfl⟩
    next =>
        split
        next => exact ⟨rfl, rfl⟩
        next => exact ⟨rfl, rfl⟩
  cases push with
  | byval value => exact haccept _
  | byref addr => exact haccept _
  | array addr size rest => exact haccept _
  | str addr rest => exact haccept _

theorem prepared_step (h : s.Prepared) (hreleased : s.Released event)
    (hstep : step s event = some next) : next.Prepared := by
  cases event with
  | callfuncBegin amx plugin findPublic =>
      cases hstep
      exact h.begun (callfuncBegin_cases _ _ _)
  | callfuncBeginI amx plugin func =>
      cases hstep
      exact h.begun (callfuncBeginI_cases _ _ _ _)
  | push amx memory push =>
      cases hstep
      obtain ⟨hplugin, hfunc⟩ := push_plugin s.globals memory amx push
      refine ⟨fun hinside => hplugin.trans (h.free hinside), fun hsome => ?_⟩
      have hpassed := h.passes (hplugin ▸ hsome)
      change (s.globals.push memory amx push).1 = Globals.pushAll
        ⟨(s.globals.push memory amx push).1.plugin, (s.globals.push memory amx push).1.func, []⟩
          (s.since ++ [(amx, memory, push)])
      rw [hplugin, hfunc, Globals.pushAll_concat, ← hpassed]
  | callfuncEnd amx =>
      rw [step] at hstep
      split at hstep
      next =>
          cases hstep
          exact ⟨fun _ => rfl, fun hsome => nomatch hsome⟩
      next =>
          cases hstep
          exact h
  | abort amx =>
      cases hstep
      have haborted : (s.globals.abort amx).plugin = none ∨ s.globals.abort amx = s.globals := by
        rw [Globals.abort]
        split
        next => exact .inl rfl
        next => exact .inr rfl
      rw [left]
      split
      next hinside =>
          have hnone : (s.globals.abort amx).plugin = none := by
            rw [Globals.abort]
            split
            next => rfl
            next hother => exact (hreleased hinside).resolve_right hother
          exact ⟨fun _ => hnone, fun hsome => absurd hsome (by simp [hnone])⟩
      next =>
          rcases haborted with hnone | hsame
          · exact ⟨fun _ => hnone, fun hsome => absurd hsome (by simp [hnone])⟩
          · rw [hsame]
            exact ⟨h.free, h.passes⟩
  | runtimeError amx =>
      cases hstep
      rw [left]
      split
      next hinside => exact ⟨fun _ => hreleased hinside, h.passes⟩
      next => exact h
  | setStatus plugin status =>
      cases hstep
      exact ⟨h.free, h.passes⟩

theorem Prepared.usable (h : s.Prepared) : s.Usable where
  begins := by
    intro hinside plugin findPublic func hfunc
    simp [Globals.callfuncBegin, h.free hinside, hfunc]
  beginsI := by
    intro hinside plugin func hfunc hexecutable
    simp [Globals.callfuncBeginI, h.free hinside, not_lt.mpr hfunc, hexecutable]
  passes := h.passes

end

theorem usable_of_released (status : Amx → Status) (events : List Event) {final : State}
    (h : Meets step Released (create status) events)
    (hrun : run step (create status) events = some final) : final.Usable := by
  have hcreate : (create status).Prepared := ⟨fun _ => rfl, (fun hsome => nomatch hsome)⟩
  have hkeep : ∀ {s event next}, s.Prepared → s.Released event → step s event = some next →
      next.Prepared := prepared_step
  exact (run_invariant hkeep hcreate h hrun).usable

def prepare (plugin : Amx) : List Event :=
  [.callfuncBegin 1 (some plugin) fun _ => some 0, .push 1 (fun _ _ => 0) (.byval 5)]

theorem usable_abort_self : ∃ final,
    run step (create fun _ => .running) (prepare 1 ++ [.abort 1]) = some final ∧ final.Usable :=
  ⟨_, rfl, usable_of_released (fun _ => .running) (prepare 1 ++ [.abort 1]) (by decide +kernel) rfl⟩

/-- The abort of a plugin that is about to call another one leaves the call prepared. -/
theorem not_usable_abort : ∃ final,
    run step (create fun _ => .running) (prepare 2 ++ [.abort 1]) = some final ∧
      ¬ final.Usable := by
  refine ⟨_, rfl, fun h => ?_⟩
  have hbegins := h.begins rfl 3 (fun _ => some 0) 0 rfl
  exact absurd hbegins (by decide)

end State

end AmxModC.CallFunc
