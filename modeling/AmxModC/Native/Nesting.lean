import AmxModC.Native.Model

namespace AmxModC.Native

/-! Calls within calls: what of the globals is as before when a call has returned. -/

namespace State

def Accepts (s : State) (idx : Int) (params : Nat → Cell) : Prop :=
  ∃ native, s.registered idx = some native ∧ count (params 0) ≤ callfuncMaxparams ∧
    (s.status native.amx).isExecutable = true

structure Restored (s next : State) (numParams : Nat) : Prop where
  caller : next.caller = s.caller
  curNative : next.curNative = s.curNative
  curError : next.curError = s.curError
  params : ∀ i, i.val ≤ numParams → next.params i = s.params i

/-- What the rest of a handler has to find as it was: its call, and the parameters of
that call. -/
structure Keeps (s next : State) : Prop where
  caller : next.caller = s.caller
  curNative : next.curNative = s.curNative
  params : s.curNative.isSome = true → ∀ i, i.val ≤ count (s.params 0) → next.params i = s.params i

section

variable {s next : State} {amx : Amx} {idx : Int} {params : Nat → Cell} {p : Int}
  {execution : Execution} {result : Cell} {saveParams : Params}
  {logError : State → Option State}

theorem Keeps.refl (s : State) : Keeps s s := ⟨rfl, rfl, fun _ _ _ => rfl⟩

theorem Keeps.trans {last : State} (h : Keeps s next) (h' : Keeps next last) : Keeps s last where
  caller := h'.caller.trans h.caller
  curNative := h'.curNative.trans h.curNative
  params := by
    intro hsome i hi
    have hfirst : next.params 0 = s.params 0 := h.params hsome 0 (Nat.zero_le _)
    rw [h'.params (h.curNative ▸ hsome) i (hfirst ▸ hi)]
    exact h.params hsome i hi

theorem copyParams_eq_some {n : Nat} {source target copied : Params}
    (h : copyParams n source target = some copied) (i : Fin callfuncMaxparams) :
    copied i = if i ≤ n then source i else target i := by
  rw [copyParams] at h
  split at h
  next =>
      cases h
      rfl
  next => cases h

theorem copyParams_zero {n : Nat} {source target copied : Params}
    (h : copyParams n source target = some copied) : copied 0 = source 0 := by
  rw [copyParams_eq_some h 0]
  exact if_pos (Nat.zero_le _)

theorem withParam_memory {access : Cell → State × Cell}
    (haccess : ∀ param, ∃ memory, (access param).1 = { s with memory })
    (h : s.withParam amx logError p access = some (next, result)) :
    (∃ memory, next = { s with memory }) ∨ logError s = some next := by
  rw [withParam] at h
  split at h
  next =>
      obtain ⟨param, -, heq⟩ := Option.map_eq_some_iff.mp h
      obtain ⟨memory, hmemory⟩ := haccess param
      exact .inl ⟨memory, (congrArg Prod.fst heq).symm.trans hmemory⟩
  next =>
      obtain ⟨logged, hlogged, heq⟩ := Option.map_eq_some_iff.mp h
      cases heq
      exact .inr hlogged

theorem run_cases {use : NativeCall} (h : use.run s amx logError = some (next, result)) :
    (∃ code, use = .logError code ∧ next = { s with curError := code }) ∨
      (∃ memory, next = { s with memory }) ∨ logError s = some next := by
  cases use with
  | logError code =>
      cases h
      exact .inl ⟨code, rfl, rfl⟩
  | getString p dest len => exact .inr (withParam_memory (fun _ => ⟨_, rfl⟩) h)
  | setString p source maxlen => exact .inr (withParam_memory (fun _ => ⟨_, rfl⟩) h)
  | getParam p => exact .inr (withParam_memory (fun _ => ⟨_, rfl⟩) h)
  | getParamByref p => exact .inr (withParam_memory (fun _ => ⟨_, rfl⟩) h)
  | setParamByref p value => exact .inr (withParam_memory (fun _ => ⟨_, rfl⟩) h)
  | getArray p dest size => exact .inr (withParam_memory (fun _ => ⟨_, rfl⟩) h)
  | setArray p source size => exact .inr (withParam_memory (fun _ => ⟨_, rfl⟩) h)

theorem dynaCallback_cases (h : s.dynaCallback execution idx amx params = some (next, result)) :
    (¬ s.Accepts idx params ∧ ∃ logged, execution.logCaller s = some logged ∧
      ∃ status, next = { logged with status }) ∨
    ∃ native saveParams entered ran, s.registered idx = some native ∧
      s.Accepts idx params ∧ s.saveParams = some saveParams ∧
      s.enter amx native params = some entered ∧ execution.run entered = some ran ∧
      ran.leave s saveParams = some next := by
  rw [dynaCallback] at h
  cases hnative : s.registered idx with
  | none =>
      rw [hnative] at h
      obtain ⟨logged, hlogged, heq⟩ := Option.map_eq_some_iff.mp h
      cases heq
      refine .inl ⟨?_, _, hlogged, _, rfl⟩
      rintro ⟨native, hregistered, -⟩
      cases hnative.symm.trans hregistered
  | some native =>
      rw [hnative] at h
      dsimp only at h
      split at h
      next hmany =>
          obtain ⟨logged, hlogged, heq⟩ := Option.map_eq_some_iff.mp h
          cases heq
          refine .inl ⟨?_, _, hlogged, _, rfl⟩
          rintro ⟨other, -, hcount, -⟩
          exact absurd hcount (not_le.mpr hmany)
      next hfew =>
          split at h
          next hpaused =>
              obtain ⟨logged, hlogged, heq⟩ := Option.map_eq_some_iff.mp h
              cases heq
              refine .inl ⟨?_, _, hlogged, _, rfl⟩
              rintro ⟨other, hregistered, -, hexecutable⟩
              cases hnative.symm.trans hregistered
              rw [hexecutable] at hpaused
              cases hpaused
          next hexecutable =>
              obtain ⟨saveParams, hsave, h⟩ := Option.bind_eq_some_iff.mp h
              obtain ⟨ran, hran, h⟩ := Option.bind_eq_some_iff.mp h
              obtain ⟨entered, hentered, hrun⟩ := Option.bind_eq_some_iff.mp hran
              obtain ⟨left, hleft, heq⟩ := Option.map_eq_some_iff.mp h
              cases heq
              exact .inr ⟨native, saveParams, entered, ran, rfl,
                ⟨native, hnative, not_lt.mp hfew, by simpa using hexecutable⟩, hsave, hentered,
                hrun, hleft⟩

theorem leave_restores {ran : State} (hsave : s.saveParams = some saveParams)
    (hleave : ran.leave s saveParams = some next) :
    Keeps s next ∧ next.curError = s.curError := by
  rw [State.saveParams] at hsave
  rw [leave] at hleave
  dsimp only at hleave
  split at hleave
  next hsome =>
      rw [if_pos hsome] at hsave
      obtain ⟨copied, hcopied, rfl⟩ := Option.map_eq_some_iff.mp hleave
      have hsaved : ∀ i : Fin callfuncMaxparams, i.val ≤ count (s.params 0) →
          saveParams i = s.params i := by
        intro i hi
        rw [copyParams_eq_some hsave i, if_pos hi]
      refine ⟨⟨rfl, rfl, fun _ i hi => ?_⟩, rfl⟩
      rw [← hsaved 0 (Nat.zero_le _)] at hi
      change copied i = s.params i
      rw [copyParams_eq_some hcopied i, if_pos hi]
      exact hsaved i (hsaved 0 (Nat.zero_le _) ▸ hi)
  next hnone =>
      cases hleave
      exact ⟨⟨rfl, rfl, fun hsome => absurd hsome hnone⟩, rfl⟩

theorem Keeps.status {status : Amx → Status} (h : Keeps s next) :
    Keeps s { next with status } :=
  ⟨h.caller, h.curNative, h.params⟩

theorem dynaCallback_keeps (h : s.dynaCallback execution idx amx params = some (next, result))
    (hlog : ∀ logged, execution.logCaller s = some logged → Keeps s logged) : Keeps s next := by
  rcases dynaCallback_cases h with ⟨-, logged, hlogged, status, rfl⟩ |
    ⟨native, saveParams, entered, ran, -, -, hsave, -, -, hleave⟩
  · exact (hlog logged hlogged).status
  · exact (leave_restores hsave hleave).1

end

end State

namespace Trace

open State

/-- No `log_error` but in handlers. -/
def Quiet : Trace → Prop
  | done => True
  | store _ _ _ rest | setStatus _ _ rest | registerNative _ _ _ rest => Quiet rest
  | native _ use logError rest => (∀ code, use ≠ .logError code) ∧ Quiet logError ∧ Quiet rest
  | call _ _ _ _ _ _ _ _ logCaller rest => Quiet logCaller ∧ Quiet rest

theorem exec_keeps (trace : Trace) {s next : State} (h : exec trace s = some next) :
    Keeps s next := by
  induction trace generalizing s next with
  | done =>
      cases h
      exact .refl s
  | store amx cell value rest ih =>
      have hrest := ih h
      exact ⟨hrest.caller, hrest.curNative, hrest.params⟩
  | setStatus plugin status rest ih =>
      have hrest := ih h
      exact ⟨hrest.caller, hrest.curNative, hrest.params⟩
  | registerNative amx func style rest ih =>
      have hrest := ih h
      exact ⟨hrest.caller, hrest.curNative, hrest.params⟩
  | native amx use logError rest ihLog ihRest =>
      obtain ⟨⟨used, result⟩, huse, hrest⟩ := Option.bind_eq_some_iff.mp h
      rcases run_cases huse with ⟨code, -, rfl⟩ | ⟨memory, rfl⟩ | hlogged
      · have hkeeps := ihRest hrest
        exact ⟨hkeeps.caller, hkeeps.curNative, hkeeps.params⟩
      · have hkeeps := ihRest hrest
        exact ⟨hkeeps.caller, hkeeps.curNative, hkeeps.params⟩
      · exact (ihLog hlogged).trans (ihRest hrest)
  | call idx amx params err ret traced body logNative logCaller rest _ _ ihCaller ihRest =>
      obtain ⟨⟨returned, result⟩, hcall, hrest⟩ := Option.bind_eq_some_iff.mp h
      exact (dynaCallback_keeps hcall fun logged hlogged => ihCaller hlogged).trans (ihRest hrest)

theorem exec_quiet {trace : Trace} (hquiet : trace.Quiet) {s next : State}
    (h : exec trace s = some next) : next.curError = s.curError := by
  induction trace generalizing s next with
  | done =>
      cases h
      rfl
  | store amx cell value rest ih =>
      have hrest := ih hquiet h
      exact hrest
  | setStatus plugin status rest ih =>
      have hrest := ih hquiet h
      exact hrest
  | registerNative amx func style rest ih =>
      have hrest := ih hquiet h
      exact hrest
  | native amx use logError rest ihLog ihRest =>
      obtain ⟨huse, hquietLog, hquietRest⟩ := hquiet
      obtain ⟨⟨used, result⟩, hused, hrest⟩ := Option.bind_eq_some_iff.mp h
      rcases run_cases hused with ⟨code, hcode, -⟩ | ⟨memory, rfl⟩ | hlogged
      · exact absurd hcode (huse code)
      · have hkept := ihRest hquietRest hrest
        exact hkept
      · exact (ihRest hquietRest hrest).trans (ihLog hquietLog hlogged)
  | call idx amx params err ret traced body logNative logCaller rest _ _ ihCaller ihRest =>
      obtain ⟨⟨returned, result⟩, hcall, hrest⟩ := Option.bind_eq_some_iff.mp h
      refine (ihRest hquiet.2 hrest).trans ?_
      rcases dynaCallback_cases hcall with ⟨-, logged, hlogged, status, rfl⟩ |
        ⟨native, saveParams, entered, ran, -, -, hsave, -, -, hleave⟩
      · have hkept := ihCaller hquiet.1 hlogged
        exact hkept
      · exact (leave_restores hsave hleave).2

/-- When a call has returned, the handler that made it finds its own call again. -/
theorem call_restores {s next : State} {idx : Int} {amx : Amx} {params : Nat → Cell} {err : Int}
    {ret result : Cell} {traced : Bool} {body logNative logCaller : Trace}
    (h : s.dynaCallback ⟨exec body, err, ret, traced, exec logNative, exec logCaller⟩ idx amx
      params = some (next, result)) :
    Keeps s next ∧ (s.Accepts idx params ∨ logCaller.Quiet → next.curError = s.curError) := by
  refine ⟨dynaCallback_keeps h fun logged hlogged => exec_keeps logCaller hlogged, ?_⟩
  rcases dynaCallback_cases h with ⟨hrefused, logged, hlogged, status, rfl⟩ |
    ⟨native, saveParams, entered, ran, -, -, hsave, -, -, hleave⟩
  · rintro (haccepts | hquiet)
    · exact absurd haccepts hrefused
    · have hkept := exec_quiet hquiet hlogged
      exact hkept
  · exact fun _ => (leave_restores hsave hleave).2

def parameters (cells : List Cell) (i : Nat) : Cell :=
  (BitVec.ofNat 32 (4 * cells.length) :: cells).getD i 0

def inHandler : State :=
  { State.create (fun _ => .running) fun _ _ => 0 with
    regNatives := [⟨2, 0, 0⟩, ⟨3, 0, 0⟩]
    caller := 1
    curNative := some ⟨2, 0, 0⟩
    params := fun i => parameters [7] i }

def callsBack : Trace :=
  .call 0 3 (parameters [8, 9]) 0 0 false (.native 2 (.getParam 1) .done .done) .done .done .done

theorem call_restores_callsBack :
    ∃ next result, inHandler.dynaCallback
        ⟨exec callsBack, 10, 0, false, exec .done, exec .done⟩ 1 2 (parameters [5, 6]) =
          some (next, result) ∧
      Keeps inHandler next ∧ next.curError = inHandler.curError := by
  have hreturns : (inHandler.dynaCallback
      ⟨exec callsBack, 10, 0, false, exec .done, exec .done⟩ 1 2 (parameters [5, 6])).isSome =
        true := by decide +kernel
  obtain ⟨⟨next, result⟩, hcall⟩ := Option.isSome_iff_exists.mp hreturns
  obtain ⟨hkeeps, herror⟩ := call_restores hcall
  exact ⟨next, result, hcall, hkeeps, herror (.inr trivial)⟩

/-- A nested call with more parameters than the current one leaves its last ones behind. -/
theorem not_restored_more :
    ∃ next result, inHandler.dynaCallback
        ⟨exec .done, 0, 0, false, exec .done, exec .done⟩ 1 2 (parameters [5, 6]) =
          some (next, result) ∧
      ¬ Restored inHandler next (count (parameters [5, 6] 0)) := by
  refine ⟨_, _, rfl, fun h => ?_⟩
  exact absurd (h.params 2 (by decide)) (by decide)

end Trace

end AmxModC.Native
