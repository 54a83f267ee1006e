import Mathlib.Data.List.DropRight
import Mathlib.Data.List.Infix
import Mathlib.Logic.Function.Basic
import Mathlib.Data.Int.Notation

namespace AmxModC.Fakemeta

section

/-! The hooks of fakemeta: the callbacks of one engine function, and the result variables
that all hooks share. -/

/-- `FMV_STRING`, `FMV_FLOAT` and `FMV_CELL` -/
inductive Kind where
  | string
  | float
  | cell
  deriving DecidableEq, Repr

abbrev Kind.Value : Kind → Type
  | .string => List Nat
  | .float => Nat
  | .cell => Int

structure Returned where
  kind : Kind
  value : kind.Value

abbrev Results := (kind : Kind) → kind.Value

def Results.cleared : Results
  | .string => []
  | .float => 0
  | .cell => 0

def Results.set (results : Results) (returned : Returned) : Results :=
  Function.update results returned.kind returned.value

def fmresIgnored : Int := 1

def fmresHandled : Int := 2

def fmresOverride : Int := 3

def fmresSupercede : Int := 4

inductive MetaRes where
  | unset
  | ignored
  | handled
  | override
  | supercede
  deriving DecidableEq, Repr

def mswi (fmres : Int) : MetaRes :=
  if fmres = fmresIgnored then .ignored
  else if fmres = fmresHandled then .handled
  else if fmres = fmresSupercede then .supercede
  else if fmres = fmresOverride then .override
  else .unset

/-- `mCellResult` and its relatives, `mlCellResult` and its relatives; `retType` is `none`
until a value has been returned. -/
structure Globals where
  m : Results
  ml : Results
  retType : Option Kind
  lastFmRes : Int

def clfm (globals : Globals) : Globals :=
  { globals with m := .cleared, ml := .cleared, lastFmRes := fmresIgnored }

/-- `forward_return`; `none` is any other type. -/
def fmReturn (globals : Globals) : Option Returned → Globals
  | none => globals
  | some returned =>
      { globals with m := globals.m.set returned, retType := some returned.kind }

def Globals.take (globals : Globals) (fmres : Int) : Globals :=
  if fmres ≥ globals.lastFmRes then
    { globals with
      ml :=
        match globals.retType with
        | some kind => globals.ml.set ⟨kind, globals.m kind⟩
        | none => globals.ml
      lastFmRes := fmres }
  else globals

/-! What a callback does, in order: `forward_return`, and engine functions with hooks of their
own, before the call or after it. -/

mutual
inductive Body where
  | done
  | forwardReturn (returned : Option Returned) (rest : Body)
  | hooked (callbacks : Callbacks) (rest : Body)

inductive Callbacks where
  | nil
  | cons (body : Body) (fmres : Int) (rest : Callbacks)
end

mutual
def Body.run : Body → Globals → Globals
  | .done, globals => globals
  | .forwardReturn returned rest, globals => rest.run (fmReturn globals returned)
  | .hooked callbacks rest, globals => rest.run (callbacks.loop (clfm globals))

def Callbacks.loop : Callbacks → Globals → Globals
  | .nil, globals => globals
  | .cons body fmres rest, globals => rest.loop ((body.run globals).take fmres)
end

/-- `FM_ENG_HANDLE` and `FM_ENG_HANDLE_POST`, which differ in the list that they go through. -/
def fmEngHandle (callbacks : Callbacks) (globals : Globals) : Globals :=
  callbacks.loop (clfm globals)

structure Answer (kind : Kind) where
  result : MetaRes
  value : kind.Value

/-- A hook of a function that returns a value of a kind, such as
`SIMPLE_INT_HOOK_CONSTSTRING`. -/
def simpleHook (kind : Kind) (callbacks : Callbacks) (globals : Globals) : Answer kind :=
  let globals := fmEngHandle callbacks globals
  ⟨mswi globals.lastFmRes, globals.ml kind⟩

/-! What the hook should answer. -/

def Body.returned : Body → List Returned
  | .done => []
  | .forwardReturn returned rest => returned.toList ++ rest.returned
  | .hooked _ rest => rest.returned

def Callbacks.toList : Callbacks → List (Body × Int)
  | .nil => []
  | .cons body fmres rest => (body, fmres) :: rest.toList

def greatest (results : List Int) : Int := results.foldl max fmresIgnored

def Callbacks.greatest (callbacks : Callbacks) : Int :=
  Fakemeta.greatest (callbacks.toList.map Prod.snd)

def Callbacks.winner? (callbacks : Callbacks) : Option Body :=
  ((callbacks.toList.filter fun callback => callback.2 = callbacks.greatest).getLast?).map
    Prod.fst

def Results.of (returned : List Returned) : Results :=
  returned.foldl Results.set .cleared

def Callbacks.chosen (callbacks : Callbacks) (kind : Kind) : kind.Value :=
  Results.of (callbacks.winner?.elim [] Body.returned) kind

def Answer.Right {kind : Kind} (answer : Answer kind) (callbacks : Callbacks) : Prop :=
  answer.result = mswi callbacks.greatest ∧ answer.value = callbacks.chosen kind

end

section

/-! What the shared variables hold at the end of a hooked call: what has happened since they
were last cleared, by whichever call that was. -/

inductive Event where
  | clear
  | returned (value : Returned)
  | result (fmres : Int)

namespace Event

def isClear : Event → Bool
  | .clear => true
  | _ => false

def returned? : Event → Option Returned
  | .returned value => some value
  | _ => none

def result? : Event → Option Int
  | .result fmres => some fmres
  | _ => none

end Event

def Globals.step (globals : Globals) : Event → Globals
  | .clear => clfm globals
  | .returned returned => fmReturn globals (some returned)
  | .result fmres => globals.take fmres

mutual
def Body.events : Body → List Event
  | .done => []
  | .forwardReturn returned rest => (returned.map Event.returned).toList ++ rest.events
  | .hooked callbacks rest => .clear :: callbacks.events ++ rest.events

def Callbacks.events : Callbacks → List Event
  | .nil => []
  | .cons body fmres rest => body.events ++ .result fmres :: rest.events
end

mutual
theorem Body.run_eq (body : Body) (globals : Globals) :
    body.run globals = body.events.foldl Globals.step globals := by
  match body with
  | .done => rfl
  | .forwardReturn none rest => exact rest.run_eq globals
  | .forwardReturn (some returned) rest => exact rest.run_eq _
  | .hooked callbacks rest =>
      simp only [Body.run, Body.events, List.cons_append, List.foldl_cons, List.foldl_append]
      rw [rest.run_eq, callbacks.loop_eq]
      rfl

theorem Callbacks.loop_eq (callbacks : Callbacks) (globals : Globals) :
    callbacks.loop globals = callbacks.events.foldl Globals.step globals := by
  match callbacks with
  | .nil => rfl
  | .cons body fmres rest =>
      simp only [Callbacks.loop, Callbacks.events, List.foldl_append, List.foldl_cons]
      rw [rest.loop_eq, body.run_eq]
      rfl
end

def late (events : List Event) : List Event := events.rtakeWhile fun event => !event.isClear

def early (events : List Event) : List Event := events.rdropWhile fun event => !event.isClear

def results (events : List Event) : List Int := events.filterMap Event.result?

def returneds (events : List Event) : List Returned := events.filterMap Event.returned?

def lastKind (kind : Option Kind) (events : List Event) : Option Kind :=
  ((returneds events).getLast?.map Returned.kind).or kind

def Taken (before : Option Kind) (kind : Kind) (events : List Event) : Prop :=
  events.getLast?.bind Event.result? = some (greatest (results events)) ∧
    lastKind before events = some kind

instance (before : Option Kind) (kind : Kind) (events : List Event) :
    Decidable (Taken before kind events) :=
  inferInstanceAs (Decidable (_ ∧ _))

def upToTaken (before : Option Kind) (kind : Kind) (events : List Event) : List Event :=
  (((late events).inits.filter fun part =>
    Taken (lastKind before (early events)) kind part).getLast?).getD []

section

variable (events : List Event) (event : Event)

theorem late_concat_clear : late (events ++ [.clear]) = [] :=
  List.rtakeWhile_concat_neg _ _ _ (by simp [Event.isClear])

theorem late_concat (h : event.isClear = false) : late (events ++ [event]) = late events ++ [event] :=
  List.rtakeWhile_concat_pos _ _ _ (by simp [h])

theorem early_concat (h : event.isClear = false) : early (events ++ [event]) = early events :=
  List.rdropWhile_concat_pos _ _ _ (by simp [h])

theorem early_append_late : early events ++ late events = events :=
  List.rdropWhile_append_rtakeWhile

@[simp] theorem results_concat_result (fmres : Int) :
    results (events ++ [.result fmres]) = results events ++ [fmres] :=
  List.filterMap_append

@[simp] theorem results_concat_returned (value : Returned) :
    results (events ++ [.returned value]) = results events :=
  List.filterMap_append.trans (List.append_nil _)

@[simp] theorem returneds_concat_result (fmres : Int) :
    returneds (events ++ [.result fmres]) = returneds events :=
  List.filterMap_append.trans (List.append_nil _)

@[simp] theorem returneds_concat_returned (value : Returned) :
    returneds (events ++ [.returned value]) = returneds events ++ [value] :=
  List.filterMap_append

end

theorem greatest_concat (results : List Int) (fmres : Int) :
    greatest (results ++ [fmres]) = max (greatest results) fmres := by
  simp [greatest]

theorem of_concat (returned : List Returned) (last : Returned) :
    Results.of (returned ++ [last]) = (Results.of returned).set last := by
  simp [Results.of]

theorem lastKind_append (before : Option Kind) (first second : List Event) :
    lastKind before (first ++ second) = lastKind (lastKind before first) second := by
  simp only [lastKind, returneds, List.filterMap_append, List.getLast?_append, Option.map_or,
    Option.or_assoc]

theorem upToTaken_concat (before : Option Kind) (kind : Kind) (events : List Event)
    {event : Event} (h : event.isClear = false) :
    upToTaken before kind (events ++ [event]) =
      if Taken (lastKind before (early events)) kind (late events ++ [event]) then
        late events ++ [event]
      else upToTaken before kind events := by
  simp only [upToTaken, late_concat _ _ h, early_concat _ _ h, List.inits_append,
    List.filter_append]
  split
  next htaken => simp [htaken]
  next htaken => simp [htaken]

theorem taken_result (before : Option Kind) (kind : Kind) (events : List Event) (fmres : Int) :
    Taken (lastKind before (early events)) kind (late events ++ [.result fmres]) ↔
      greatest (results (late events)) ≤ fmres ∧ lastKind before events = some kind := by
  have hkind : lastKind (lastKind before (early events)) (late events ++ [.result fmres]) =
      lastKind before events := by
    rw [← lastKind_append, ← List.append_assoc, early_append_late, lastKind_append]
    rfl
  rw [Taken, results_concat_result, greatest_concat, hkind]
  refine and_congr_left fun _ => ?_
  have hlast : (late events ++ [Event.result fmres]).getLast?.bind Event.result? =
      some fmres := by
    simp [Event.result?]
  rw [hlast, Option.some_inj]
  omega

theorem not_taken_returned (before : Option Kind) (kind : Kind) (events : List Event)
    (value : Returned) : ¬ Taken before kind (events ++ [.returned value]) := by
  simp [Taken, Event.result?]

structure Globals.Holds (globals : Globals) (before : Option Kind) (events : List Event) :
    Prop where
  m : globals.m = Results.of (returneds (late events))
  ml : ∀ kind, globals.ml kind = Results.of (returneds (upToTaken before kind events)) kind
  retType : globals.retType = lastKind before events
  lastFmRes : globals.lastFmRes = greatest (results (late events))

namespace Globals.Holds

variable {globals : Globals} {before : Option Kind} {events : List Event}

theorem clear (h : globals.Holds before events) :
    (clfm globals).Holds before (events ++ [.clear]) where
  m := by
    rw [late_concat_clear]
    rfl
  ml kind := by
    rw [upToTaken, late_concat_clear]
    simp [Taken, returneds, Results.of, clfm]
  retType := by
    rw [lastKind_append]
    exact h.retType
  lastFmRes := by
    rw [late_concat_clear]
    rfl

theorem returned (h : globals.Holds before events) (value : Returned) :
    (fmReturn globals (some value)).Holds before (events ++ [.returned value]) where
  m := by
    rw [late_concat _ _ rfl]
    simp [fmReturn, h.m, of_concat]
  ml kind := by
    rw [upToTaken_concat before kind events rfl, if_neg (not_taken_returned _ _ _ _)]
    exact h.ml kind
  retType := by simp [fmReturn, lastKind, returneds, Event.returned?]
  lastFmRes := by
    rw [late_concat _ _ rfl]
    simp [fmReturn, h.lastFmRes]

theorem result (h : globals.Holds before events) (fmres : Int) :
    (globals.take fmres).Holds before (events ++ [.result fmres]) where
  m := by
    have hm : (globals.take fmres).m = globals.m := by
      unfold Globals.take
      split <;> rfl
    rw [hm, h.m, late_concat _ _ rfl, returneds_concat_result]
  ml kind := by
    rw [upToTaken_concat before kind events rfl]
    simp only [taken_result, ← h.lastFmRes, ← h.retType]
    unfold Globals.take
    by_cases hless : globals.lastFmRes ≤ fmres
    · cases htype : globals.retType with
      | none => simpa [hless, htype] using h.ml kind
      | some last =>
          by_cases hkind : last = kind
          · subst hkind
            simp [hless, Results.set, h.m]
          · simpa [hless, htype, hkind, Results.set, Ne.symm hkind] using h.ml kind
    · simpa [hless] using h.ml kind
  retType := by
    have htype : (globals.take fmres).retType = globals.retType := by
      unfold Globals.take
      split <;> rfl
    rw [htype, lastKind_append]
    exact h.retType
  lastFmRes := by
    have hmax : (globals.take fmres).lastFmRes = max globals.lastFmRes fmres := by
      unfold Globals.take
      split
      next hless => exact (Int.max_eq_right hless).symm
      next hless => exact (Int.max_eq_left (Int.le_of_lt (Int.not_le.mp hless))).symm
    rw [hmax, h.lastFmRes, late_concat _ _ rfl, results_concat_result, greatest_concat]

theorem foldl_step (globals : Globals) (events : List Event) :
    (events.foldl Globals.step (clfm globals)).Holds globals.retType events := by
  induction events using List.reverseRecOn with
  | nil => exact ⟨rfl, fun _ => rfl, rfl, rfl⟩
  | append_singleton events event ih =>
      rw [List.foldl_append]
      cases event with
      | clear => exact ih.clear
      | returned value => exact ih.returned value
      | result fmres => exact ih.result fmres

end Globals.Holds

end

end AmxModC.Fakemeta
