import AmxModC.Native.Nesting

namespace AmxModC.Native

/-! When every access to the array of parameters is inside of it. -/

theorem bind_isSome_iff {α β : Type*} {x : Option α} {f : α → Option β} :
    (x.bind f).isSome = true ↔ x.isSome = true ∧ ∀ a, x = some a → (f a).isSome = true := by
  cases x with
  | none => simp
  | some a => simp

namespace State

def Sized (s : State) : Prop := count (s.params 0) < callfuncMaxparams

/-- The native asks for a cell of the array, or is refused with `logs`. -/
def Asks (s : State) (amx : Amx) (logs : Prop) (p : Int) : Prop :=
  if s.current amx then 0 ≤ p ∧ p < callfuncMaxparams else logs

def UseWithin (s : State) (amx : Amx) (logs : Prop) : NativeCall → Prop
  | .logError _ => True
  | .getString p _ _ | .setString p _ _ | .getParam p | .getParamByref p | .setParamByref p _
  | .getArray p _ _ | .setArray p _ _ => s.Asks amx logs p

variable {s next : State} {amx : Amx} {idx : Int} {params : Nat → Cell} {p : Int}
  {execution : Execution} {result : Cell} {native : Regnative} {logError : State → Option State}
  {body logNative logCaller : State → Prop}

theorem copyParams_isSome {n : Nat} {source target : Params} :
    (copyParams n source target).isSome = true ↔ n < callfuncMaxparams := by
  rw [copyParams]
  split
  next h => simp [h]
  next h => simp [h]

theorem param_isSome : (s.param p).isSome = true ↔ 0 ≤ p ∧ p < callfuncMaxparams := by
  have hnat : (0 ≤ p ∧ p.toNat < callfuncMaxparams) ↔ 0 ≤ p ∧ p < callfuncMaxparams := by
    omega
  rw [State.param, ← hnat]
  split
  next h => exact ⟨fun _ => h, fun _ => rfl⟩
  next h => exact ⟨fun hnone => absurd hnone Bool.false_ne_true, fun hbounds => absurd hbounds h⟩

theorem withParam_isSome {access : Cell → State × Cell} :
    (s.withParam amx logError p access).isSome = true ↔
      s.Asks amx ((logError s).isSome = true) p := by
  rw [withParam, Asks]
  split
  next => rw [Option.isSome_map, param_isSome]
  next => rw [Option.isSome_map]

theorem run_isSome {use : NativeCall} :
    (use.run s amx logError).isSome = true ↔
      s.UseWithin amx ((logError s).isSome = true) use := by
  cases use with
  | logError code => exact ⟨fun _ => trivial, fun _ => rfl⟩
  | getString p dest len => exact withParam_isSome
  | setString p source maxlen => exact withParam_isSome
  | getParam p => exact withParam_isSome
  | getParamByref p => exact withParam_isSome
  | setParamByref p value => exact withParam_isSome
  | getArray p dest size => exact withParam_isSome
  | setArray p source size => exact withParam_isSome

theorem saveParams_isSome (hsized : s.Sized) : s.saveParams.isSome = true := by
  rw [saveParams]
  split
  next => exact copyParams_isSome.mpr hsized
  next => rfl

theorem enter_isSome :
    (s.enter amx native params).isSome = true ↔
      (native.style = 0 → count (params 0) < callfuncMaxparams) := by
  rw [enter]
  dsimp only
  split
  next hstyle =>
      rw [Option.isSome_map, copyParams_isSome]
      exact ⟨fun h _ => h, fun h => h hstyle⟩
  next hstyle => exact ⟨fun _ h => absurd h hstyle, fun _ => rfl⟩

theorem Sized.enter (hsized : s.Sized) (h : s.enter amx native params = some next) :
    next.Sized := by
  rw [State.enter] at h
  dsimp only at h
  split at h
  next =>
      obtain ⟨copied, hcopied, rfl⟩ := Option.map_eq_some_iff.mp h
      have hlt := copyParams_isSome.mp (Option.isSome_of_eq_some hcopied)
      change count (copied 0) < callfuncMaxparams
      rw [copyParams_zero hcopied]
      exact hlt
  next =>
      cases h
      exact hsized

theorem Sized.leave {ran : State} {saveParams : Params} (hsized : s.Sized) (hran : ran.Sized)
    (hsave : s.saveParams = some saveParams) :
    ∃ next, ran.leave s saveParams = some next ∧ next.Sized := by
  rw [State.saveParams] at hsave
  rw [State.leave]
  dsimp only
  split
  next hsome =>
      rw [if_pos hsome] at hsave
      have hlt : count (saveParams 0) < callfuncMaxparams := by
        rw [copyParams_zero hsave]
        exact hsized
      obtain ⟨copied, hcopied⟩ := Option.isSome_iff_exists.mp
        (@copyParams_isSome _ saveParams ran.params |>.mpr hlt)
      rw [hcopied]
      refine ⟨_, rfl, ?_⟩
      change count (copied 0) < callfuncMaxparams
      rw [copyParams_zero hcopied]
      exact hlt
  next => exact ⟨_, rfl, hran⟩

/-! Conditions on a call, given the conditions on what runs in it. -/

def Logs (logNative logCaller : State → Prop) (execution : Execution) (ran : State) : Prop :=
  if execution.err ≠ 0 then
    if execution.traced ∨ execution.err = -1 then logCaller ran
    else logNative ran ∧ ∀ logged, execution.logNative ran = some logged → logCaller logged
  else if ran.curError ≠ 0 then logCaller ran else True

def CallWithin (body logNative logCaller : State → Prop) (execution : Execution) (s : State)
    (idx : Int) (amx : Amx) (params : Nat → Cell) : Prop :=
  (¬ s.Accepts idx params → logCaller s) ∧
    (s.Accepts idx params → ∀ native, s.registered idx = some native →
      (native.style = 0 → count (params 0) < callfuncMaxparams) ∧
        ∀ entered, s.enter amx native params = some entered →
          body entered ∧ ∀ ran, execution.exec entered = some ran →
            Logs logNative logCaller execution ran)

structure Defined (run : State → Option State) (within : State → Prop) : Prop where
  isSome : ∀ {s}, s.Sized → ((run s).isSome = true ↔ within s)
  sized : ∀ {s next}, s.Sized → run s = some next → next.Sized

theorem Defined.after {run : State → Option State} {within : State → Prop}
    (h : Defined run within) {change : State → State} (hchange : ∀ s, s.Sized → (change s).Sized) :
    Defined (fun s => run (change s)) fun s => within (change s) where
  isSome := fun hsized => h.isSome (hchange _ hsized)
  sized := fun hsized hrun => h.sized (hchange _ hsized) hrun

section

variable (hbody : Defined execution.exec body) (hlogNative : Defined execution.logNative logNative)
  (hlogCaller : Defined execution.logCaller logCaller)

include hbody hlogNative hlogCaller

theorem execution_isSome (hsized : s.Sized) :
    (execution.run s).isSome = true ↔
      body s ∧ ∀ ran, execution.exec s = some ran → Logs logNative logCaller execution ran := by
  rw [Execution.run, bind_isSome_iff, hbody.isSome hsized]
  refine and_congr_right fun _ => forall_congr' fun ran => forall_congr' fun hran => ?_
  have hranSized := hbody.sized hsized hran
  rw [Logs]
  split
  next =>
      rw [bind_isSome_iff]
      split
      next => simp [hlogCaller.isSome hranSized]
      next =>
          rw [hlogNative.isSome hranSized]
          refine and_congr_right fun _ => forall_congr' fun logged => forall_congr' fun hlogged => ?_
          exact hlogCaller.isSome (hlogNative.sized hranSized hlogged)
  next =>
      split
      next => exact hlogCaller.isSome hranSized
      next => exact ⟨fun _ => trivial, fun _ => rfl⟩

theorem execution_sized (hsized : s.Sized) (h : execution.run s = some next) : next.Sized := by
  obtain ⟨ran, hran, h⟩ := Option.bind_eq_some_iff.mp h
  have hranSized := hbody.sized hsized hran
  split at h
  next =>
      obtain ⟨logged, hlogged, hnext⟩ := Option.bind_eq_some_iff.mp h
      split at hlogged
      next =>
          cases hlogged
          exact hlogCaller.sized hranSized hnext
      next => exact hlogCaller.sized (hlogNative.sized hranSized hlogged) hnext
  next =>
      split at h
      next => exact hlogCaller.sized hranSized h
      next =>
          cases h
          exact hranSized

theorem dynaCallback_sized (hsized : s.Sized)
    (h : s.dynaCallback execution idx amx params = some (next, result)) : next.Sized := by
  rcases dynaCallback_cases h with ⟨-, logged, hlogged, status, rfl⟩ |
    ⟨native, saveParams, entered, ran, -, -, hsave, hentered, hrun, hleave⟩
  · have hlog := hlogCaller.sized hsized hlogged
    exact hlog
  · have hran := execution_sized hbody hlogNative hlogCaller (hsized.enter hentered) hrun
    obtain ⟨left, hleft, hleftSized⟩ := hsized.leave hran hsave
    cases hleave.symm.trans hleft
    exact hleftSized

theorem accepted_isSome (hsized : s.Sized) :
    (s.saveParams.bind fun saveParams =>
      ((s.enter amx native params).bind execution.run).bind fun next =>
        (next.leave s saveParams).map (·, execution.ret)).isSome = true ↔
      (native.style = 0 → count (params 0) < callfuncMaxparams) ∧
        ∀ entered, s.enter amx native params = some entered →
          body entered ∧ ∀ ran, execution.exec entered = some ran →
            Logs logNative logCaller execution ran := by
  obtain ⟨saveParams, hsave⟩ := Option.isSome_iff_exists.mp (saveParams_isSome hsized)
  have hleave : ∀ ran, (s.enter amx native params).bind execution.run = some ran →
      ((ran.leave s saveParams).map (·, execution.ret)).isSome = true := by
    intro ran hran
    obtain ⟨entered, hentered, hrun⟩ := Option.bind_eq_some_iff.mp hran
    have hranSized := execution_sized hbody hlogNative hlogCaller (hsized.enter hentered) hrun
    obtain ⟨left, hleft, -⟩ := hsized.leave hranSized hsave
    rw [hleft]
    rfl
  rw [hsave, Option.bind_some, bind_isSome_iff, and_iff_left hleave, bind_isSome_iff, enter_isSome]
  refine and_congr_right fun _ => forall_congr' fun entered => forall_congr' fun hentered => ?_
  exact execution_isSome hbody hlogNative hlogCaller (hsized.enter hentered)

theorem dynaCallback_isSome (hsized : s.Sized) :
    (s.dynaCallback execution idx amx params).isSome = true ↔
      CallWithin body logNative logCaller execution s idx amx params := by
  rw [dynaCallback, CallWithin]
  cases hnative : s.registered idx with
  | none =>
      have hrefused : ¬ s.Accepts idx params := by
        rintro ⟨native, hregistered, -⟩
        cases hnative.symm.trans hregistered
      simp [hrefused, hlogCaller.isSome hsized]
  | some native =>
      dsimp only
      split
      next hmany =>
          have hrefused : ¬ s.Accepts idx params := by
            rintro ⟨other, -, hcount, -⟩
            exact absurd hcount (not_le.mpr hmany)
          simp [hrefused, hlogCaller.isSome hsized]
      next hfew =>
          split
          next hpaused =>
              have hrefused : ¬ s.Accepts idx params := by
                rintro ⟨other, hregistered, -, hexecutable⟩
                cases hnative.symm.trans hregistered
                rw [hexecutable] at hpaused
                cases hpaused
              simp [hrefused, hlogCaller.isSome hsized]
          next hexecutable =>
              have haccepts : s.Accepts idx params :=
                ⟨native, hnative, not_lt.mp hfew, by simpa using hexecutable⟩
              rw [accepted_isSome hbody hlogNative hlogCaller hsized]
              simp [haccepts]

end

end State

namespace Trace

open State

def Within : Trace → State → Prop
  | done, _ => True
  | store amx cell value rest, s =>
      Within rest { s with memory := s.memory.store amx cell [value] }
  | setStatus plugin status rest, s =>
      Within rest { s with status := Function.update s.status plugin status }
  | registerNative amx func style rest, s =>
      Within rest { s with regNatives := s.regNatives ++ [⟨amx, func, style⟩] }
  | native amx use logError rest, s =>
      s.UseWithin amx (Within logError s) use ∧
        ∀ result, use.run s amx (exec logError) = some result → Within rest result.1
  | call idx amx params err ret traced body logNative logCaller rest, s =>
      let execution := ⟨exec body, err, ret, traced, exec logNative, exec logCaller⟩
      CallWithin (Within body) (Within logNative) (Within logCaller) execution s idx amx params ∧
        ∀ result, s.dynaCallback execution idx amx params = some result → Within rest result.1

theorem exec_defined (trace : Trace) : Defined (exec trace) (Within trace) := by
  induction trace with
  | done =>
      refine ⟨fun _ => ⟨fun _ => trivial, fun _ => rfl⟩, fun hsized h => ?_⟩
      cases h
      exact hsized
  | store amx cell value rest ih => exact ih.after fun _ hsized => hsized
  | setStatus plugin status rest ih => exact ih.after fun _ hsized => hsized
  | registerNative amx func style rest ih => exact ih.after fun _ hsized => hsized
  | native amx use logError rest ihLog ihRest =>
      have hused : ∀ {s : State} {result}, s.Sized →
          use.run s amx (exec logError) = some result → result.1.Sized := by
        intro s result hsized hrun
        rcases run_cases hrun with ⟨code, -, hresult⟩ | ⟨memory, hresult⟩ | hlogged
        · rw [hresult]
          exact hsized
        · rw [hresult]
          exact hsized
        · exact ihLog.sized hsized hlogged
      refine ⟨fun hsized => ?_, fun hsized h => ?_⟩
      · rw [exec, bind_isSome_iff, run_isSome, ihLog.isSome hsized, Within]
        exact and_congr_right fun _ => forall_congr' fun result => forall_congr' fun hrun =>
          ihRest.isSome (hused hsized hrun)
      · obtain ⟨result, hrun, hrest⟩ := Option.bind_eq_some_iff.mp h
        exact ihRest.sized (hused hsized hrun) hrest
  | call idx amx params err ret traced body logNative logCaller rest ihBody ihNative ihCaller
      ihRest =>
      have hreturned : ∀ {s : State} {result}, s.Sized →
          s.dynaCallback ⟨exec body, err, ret, traced, exec logNative, exec logCaller⟩ idx amx
            params = some result → result.1.Sized :=
        fun hsized hcall => dynaCallback_sized ihBody ihNative ihCaller hsized hcall
      refine ⟨fun hsized => ?_, fun hsized h => ?_⟩
      · rw [exec, bind_isSome_iff, dynaCallback_isSome ihBody ihNative ihCaller hsized, Within]
        exact and_congr_right fun _ => forall_congr' fun result => forall_congr' fun hcall =>
          ihRest.isSome (hreturned hsized hcall)
      · obtain ⟨result, hcall, hrest⟩ := Option.bind_eq_some_iff.mp h
        exact ihRest.sized (hreturned hsized hcall) hrest

/-- From the start every access to `g_Params` is to one of its cells. -/
def InBounds (trace : Trace) (status : Amx → Status) (memory : Memory) : Prop :=
  (exec trace (State.create status memory)).isSome = true

theorem inBounds_iff (trace : Trace) (status : Amx → Status) (memory : Memory) :
    trace.InBounds status memory ↔ trace.Within (State.create status memory) := by
  have hsized : (State.create status memory).Sized := by
    change count 0 < callfuncMaxparams
    decide
  exact (exec_defined trace).isSome hsized

/-- As many parameters as the array has cells. -/
theorem not_inBounds_sixteen :
    ¬ (registerNative 2 0 0 (call 0 1 (parameters (List.replicate 16 0)) 0 0 false
      done done done done)).InBounds (fun _ => .running) fun _ _ => 0 := by
  rw [InBounds]
  decide +kernel

/-- A parameter asked for behind the array. -/
example :
    ¬ (registerNative 2 0 0 (call 0 1 (parameters [0]) 0 0 false
      (native 2 (.getParam 16) done done) done done done)).InBounds
        (fun _ => .running) fun _ _ => 0 := by
  rw [InBounds]
  decide +kernel

end Trace

end AmxModC.Native
