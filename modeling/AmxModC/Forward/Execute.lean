import AmxModC.Foundation.Cursor
import AmxModC.Forward.Model

namespace AmxModC.Forward

open Foundation

variable {World : Type}

/-! `CForward::execute`: the loop over the plugins of a forward, in a world that decides
which of them can be run and what they do. -/

structure Call (World : Type) where
  func : AMXForward
  before : World
  retVal : Cell
  after : World
deriving DecidableEq, Repr

structure Outcome (World : Type) where
  calls : List (Call World)
  result : Cell
  world : World
deriving DecidableEq, Repr

namespace CForward

/-- The loop of `execute`; `turn` is what it does for one plugin, up to the return value. -/
def loop (isExecutable : World → AMXForward → Bool)
    (turn : World → AMXForward → Option (Cell × World)) (execType : ForwardExecType) :
    List AMXForward → Cell → World → Option (Outcome World)
  | [], globRetVal, world => some ⟨[], globRetVal, world⟩
  | func :: funcs, globRetVal, world =>
      if isExecutable world func then do
        let (retVal, after) ← turn world func
        let call := ⟨func, world, retVal, after⟩
        match afterReturn execType retVal globRetVal with
        | .inl result => return ⟨[call], result, after⟩
        | .inr globRetVal =>
            let outcome ← loop isExecutable turn execType funcs globRetVal after
            return { outcome with calls := call :: outcome.calls }
      else loop isExecutable turn execType funcs globRetVal world

def execute (forward : CForward) (isExecutable : World → AMXForward → Bool)
    (turn : World → AMXForward → Option (Cell × World)) (world : World) :
    Option (Outcome World) :=
  loop isExecutable turn forward.execType forward.funcs 0 world

theorem turn_of_mem_calls {isExecutable : World → AMXForward → Bool}
    {turn : World → AMXForward → Option (Cell × World)} {execType : ForwardExecType}
    {funcs : List AMXForward} {globRetVal : Cell} {world : World} {outcome : Outcome World}
    (h : loop isExecutable turn execType funcs globRetVal world = some outcome) :
    ∀ call ∈ outcome.calls,
      turn call.before call.func = some (call.retVal, call.after) := by
  induction funcs generalizing globRetVal world outcome with
  | nil =>
      cases h
      exact fun call hmem => (List.not_mem_nil hmem).elim
  | cons func funcs ih =>
      cases hrun : isExecutable world func with
      | false => exact ih (by simpa [loop, hrun] using h)
      | true =>
          simp only [loop, hrun, if_true, Option.bind_eq_bind, Option.bind_eq_some_iff] at h
          obtain ⟨⟨retVal, after⟩, hturn, hrest⟩ := h
          cases hafter : afterReturn execType retVal globRetVal with
          | inl result =>
              simp only [hafter] at hrest
              cases hrest
              intro call hmem
              obtain rfl := List.mem_singleton.mp hmem
              exact hturn
          | inr next =>
              simp only [hafter, Option.bind_eq_some_iff] at hrest
              obtain ⟨outcome', hloop, hout⟩ := hrest
              cases hout
              intro call hmem
              cases hmem with
              | head => exact hturn
              | tail _ hmem => exact ih hloop call hmem

end CForward

/-! What the execution types are for. -/

/-- The calls when no plugin stops the forward: those that can be run when their turn
comes, in the order of the list. -/
def everyone (isExecutable : World → AMXForward → Bool)
    (call : World → AMXForward → Cell × World) :
    List AMXForward → World → List (Call World)
  | [], _ => []
  | func :: funcs, world =>
      if isExecutable world func then
        let (retVal, after) := call world func
        ⟨func, world, retVal, after⟩ :: everyone isExecutable call funcs after
      else everyone isExecutable call funcs world

namespace ForwardExecType

def stops : ForwardExecType → Int → Bool
  | .stop, value => 0 < value
  | .stop2, value => value = 1
  | .ignore, _ | .continue, _ => false

def stopsWith (execType : ForwardExecType) (made : Call World) : Bool :=
  execType.stops made.retVal.toInt

def result : ForwardExecType → List Int → Int
  | .ignore, _ => 0
  | .stop, values => (values.find? fun value => 0 < value).getD 0
  | .stop2, values => if 1 ∈ values then 1 else values.foldl max 0
  | .continue, values => values.foldl max 0

/-- `result` from the middle of the loop, where the values so far have led to `sofar`. -/
def resultFrom (sofar : Int) : ForwardExecType → List Int → Int
  | .ignore, _ => sofar
  | .stop, values => (values.find? fun value => 0 < value).getD (values.foldl max sofar)
  | .stop2, values => if 1 ∈ values then 1 else values.foldl max sofar
  | .continue, values => values.foldl max sofar

end ForwardExecType

section Aggregation

variable {isExecutable : World → AMXForward → Bool} {call : World → AMXForward → Cell × World}
  {execType : ForwardExecType}

theorem everyone_sublist (funcs : List AMXForward) (world : World) :
    ((everyone isExecutable call funcs world).map Call.func).Sublist funcs := by
  induction funcs generalizing world with
  | nil => exact List.Sublist.slnil
  | cons func funcs ih =>
      cases hrun : isExecutable world func with
      | false =>
          simp only [everyone, hrun]
          exact (ih world).cons func
      | true =>
          simp only [everyone, hrun, List.map_cons, if_true]
          exact (ih (call world func).2).cons_cons func

theorem toInt_larger (retVal globRetVal : Cell) :
    (if globRetVal.slt retVal then retVal else globRetVal).toInt =
      max globRetVal.toInt retVal.toInt := by
  simp only [BitVec.slt, decide_eq_true_eq]
  split
  next h => exact (max_eq_right h.le).symm
  next h => exact (max_eq_left (not_lt.mp h)).symm

theorem toInt_eq_one (retVal : Cell) : retVal = 1 ↔ retVal.toInt = 1 := by
  constructor
  · intro h
    rw [h]
    rfl
  · intro h
    exact BitVec.eq_of_toInt_eq h

theorem afterReturn_of_stops {retVal globRetVal : Cell}
    (h : execType.stops retVal.toInt = true) :
    afterReturn execType retVal globRetVal = .inl retVal := by
  cases execType with
  | ignore => cases h
  | stop =>
      have hpos : (0 : Cell).slt retVal = true := by
        simpa [ForwardExecType.stops, BitVec.slt] using h
      simp only [afterReturn, hpos, if_true]
  | stop2 =>
      have hone : retVal = 1 := (toInt_eq_one retVal).mpr (by simpa [ForwardExecType.stops] using h)
      rw [hone]
      rfl
  | «continue» => cases h

theorem afterReturn_of_goes_on {retVal : Cell} (globRetVal : Cell)
    (h : execType.stops retVal.toInt = false) :
    ∃ next, afterReturn execType retVal globRetVal = .inr next ∧ ∀ values,
      execType.resultFrom next.toInt values =
        execType.resultFrom globRetVal.toInt (retVal.toInt :: values) := by
  cases execType with
  | ignore => exact ⟨globRetVal, rfl, fun values => rfl⟩
  | stop =>
      have hpos : (0 : Cell).slt retVal = false := by
        simpa [ForwardExecType.stops, BitVec.slt] using h
      have hone : retVal ≠ 1 := by
        rintro rfl
        cases hpos
      have hle : ¬ 0 < retVal.toInt := by simpa [ForwardExecType.stops] using h
      refine ⟨_, by simp only [afterReturn, hpos, hone, if_false, Bool.false_eq_true]; rfl, ?_⟩
      intro values
      simp only [ForwardExecType.resultFrom, toInt_larger, List.find?_cons, hle, decide_false,
        List.foldl_cons]
  | stop2 =>
      have hvalue : retVal.toInt ≠ 1 := by simpa [ForwardExecType.stops] using h
      have hone : retVal ≠ 1 := fun heq => hvalue ((toInt_eq_one retVal).mp heq)
      refine ⟨_, by simp only [afterReturn, hone, if_false]; rfl, ?_⟩
      intro values
      simp only [ForwardExecType.resultFrom, toInt_larger, List.mem_cons, hvalue.symm, false_or,
        List.foldl_cons]
  | «continue» =>
      refine ⟨_, rfl, ?_⟩
      intro values
      simp only [ForwardExecType.resultFrom, toInt_larger, List.foldl_cons]

theorem resultFrom_of_stops {sofar value : Int} {values : List Int}
    (h : execType.stops value = true) :
    execType.resultFrom sofar (value :: values) = value := by
  cases execType with
  | ignore => cases h
  | stop => simp_all [ForwardExecType.stops, ForwardExecType.resultFrom]
  | stop2 => simp_all [ForwardExecType.stops, ForwardExecType.resultFrom]
  | «continue» => cases h

theorem foldl_max_of_nonpos {values : List Int} (h : ∀ value ∈ values, value ≤ 0) :
    values.foldl max 0 = 0 := by
  induction values with
  | nil => rfl
  | cons value values ih =>
      obtain ⟨hvalue, hrest⟩ := List.forall_mem_cons.mp h
      rw [List.foldl_cons, max_eq_left hvalue]
      exact ih hrest

theorem resultFrom_zero (execType : ForwardExecType) (values : List Int) :
    execType.resultFrom 0 values = execType.result values := by
  cases execType with
  | ignore => rfl
  | stop =>
      cases hfind : values.find? fun value => 0 < value with
      | none =>
          have hnonpos : ∀ value ∈ values, value ≤ 0 := by
            simpa [List.find?_eq_none] using hfind
          simp only [ForwardExecType.resultFrom, ForwardExecType.result, hfind, Option.getD_none,
            foldl_max_of_nonpos hnonpos]
      | some value => simp only [ForwardExecType.resultFrom, ForwardExecType.result, hfind,
          Option.getD_some]
  | stop2 => rfl
  | «continue» => rfl

variable (isExecutable call execType) in
theorem loop_aggregates (funcs : List AMXForward) (globRetVal : Cell) (world : World) :
    ∃ outcome, CForward.loop isExecutable (fun world func => some (call world func)) execType
        funcs globRetVal world = some outcome ∧
      outcome.calls = upTo execType.stopsWith (everyone isExecutable call funcs world) ∧
      outcome.result.toInt = execType.resultFrom globRetVal.toInt
        ((everyone isExecutable call funcs world).map fun made => made.retVal.toInt) := by
  induction funcs generalizing globRetVal world with
  | nil =>
      refine ⟨⟨[], globRetVal, world⟩, rfl, rfl, ?_⟩
      cases execType <;> rfl
  | cons func funcs ih =>
      cases hrun : isExecutable world func with
      | false =>
          obtain ⟨outcome, hloop, hcalls, hresult⟩ := ih globRetVal world
          refine ⟨outcome, ?_, ?_, ?_⟩
          · simpa [CForward.loop, hrun] using hloop
          · simpa [everyone, hrun] using hcalls
          · simpa [everyone, hrun] using hresult
      | true =>
          let made : Call World := ⟨func, world, (call world func).1, (call world func).2⟩
          cases hstops : execType.stops (call world func).1.toInt with
          | true =>
              refine ⟨⟨[made], made.retVal, made.after⟩, ?_, ?_, ?_⟩
              · simp [CForward.loop, hrun, afterReturn_of_stops hstops, made]
              · rw [everyone, hrun, if_pos rfl]
                exact (upTo_cons_pos (p := execType.stopsWith) (a := made) hstops).symm
              · simp only [everyone, hrun, if_true, List.map_cons, resultFrom_of_stops hstops, made]
          | false =>
              obtain ⟨next, hafter, hfrom⟩ := afterReturn_of_goes_on globRetVal hstops
              obtain ⟨outcome, hloop, hcalls, hresult⟩ := ih next (call world func).2
              refine ⟨{ outcome with calls := made :: outcome.calls }, ?_, ?_, ?_⟩
              · simp [CForward.loop, hrun, hafter, hloop, made]
              · rw [everyone, hrun, if_pos rfl, hcalls]
                exact (upTo_cons_neg (p := execType.stopsWith) (a := made) hstops).symm
              · simp only [everyone, hrun, if_true, List.map_cons, ← hfrom]
                exact hresult

end Aggregation

/-- The four results come out of the one loop; the plugins called are those in front of
the first that stops the forward, with it. -/
theorem execute_aggregates (forward : CForward) (isExecutable : World → AMXForward → Bool)
    (call : World → AMXForward → Cell × World) (world : World) :
    ∃ outcome,
      forward.execute isExecutable (fun world func => some (call world func)) world =
        some outcome ∧
      ((everyone isExecutable call forward.funcs world).map Call.func).Sublist forward.funcs ∧
      outcome.calls = upTo forward.execType.stopsWith
        (everyone isExecutable call forward.funcs world) ∧
      outcome.result.toInt = forward.execType.result
        ((everyone isExecutable call forward.funcs world).map fun made => made.retVal.toInt) := by
  obtain ⟨outcome, hloop, hcalls, hresult⟩ :=
    loop_aggregates isExecutable call forward.execType forward.funcs 0 world
  refine ⟨outcome, hloop, everyone_sublist forward.funcs world, hcalls, ?_⟩
  rw [← resultFrom_zero]
  exact hresult

end AmxModC.Forward
