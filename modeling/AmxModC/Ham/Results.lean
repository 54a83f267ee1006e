import Mathlib.Data.List.Basic
import AmxModC.Ham.Model

namespace AmxModC.Ham

/-! What a callback runs and returns, for every list of forwards. -/

def Action.set (value : Option Value) : Action → Option Value
  | .setReturn new => value.map fun old => if new.type = old.type then new else old
  | .inner _ => value

def Action.value? (type : ReturnType) : Action → Option Value
  | .setReturn value => if value.type = type then some value else none
  | .inner _ => none

def lastSet (zero : Value) (actions : List Action) : Value :=
  ((actions.filterMap (Action.value? zero.type)).getLast?).getD zero

theorem foldl_set (zero : Value) (actions : List Action) :
    actions.foldl Action.set (some zero) = some (lastSet zero actions) := by
  induction actions generalizing zero with
  | nil => rfl
  | cons action rest ih =>
      cases action with
      | inner call => exact ih zero
      | setReturn value =>
          by_cases htype : value.type = zero.type
          · simp only [List.foldl_cons, Action.set, Option.map_some, htype, if_true, ih]
            simp [lastSet, Action.value?, htype, List.getLast?_cons]
          · simp only [List.foldl_cons, Action.set, Option.map_some, htype, if_false, ih]
            simp [lastSet, Action.value?, htype]

structure Stacks.Over (s base : Stacks) (ret orig : Option Value) : Prop where
  returnStack : s.returnStack = ret :: base.returnStack
  origReturnStack : s.origReturnStack = orig :: base.origReturnStack
  returnStatus : s.returnStatus.tail = base.returnStatus

section

variable {s base : Stacks} {ret orig : Option Value}

theorem Stacks.Over.run (h : s.Over base ret orig) (action : Action) :
    (action.run s).Over base (action.set ret) orig := by
  cases action with
  | inner call =>
      exact ⟨(call.returnStack s).trans h.returnStack,
        (call.origReturnStack s).trans h.origReturnStack,
        (congrArg List.tail (call.returnStatus s)).trans h.returnStatus⟩
  | setReturn value =>
      cases ret with
      | none => simpa [Action.run, Stacks.setReturn, Action.set, h.returnStack] using h
      | some old =>
          simp only [Action.run, Stacks.setReturn, Action.set, h.returnStack, Option.map_some]
          split
          next => exact ⟨rfl, h.origReturnStack, h.returnStatus⟩
          next => exact h

theorem Stacks.Over.foldl_run (h : s.Over base ret orig) (actions : List Action) :
    (actions.foldl Action.run s).Over base (actions.foldl Action.set ret) orig := by
  induction actions generalizing s ret with
  | nil => exact h
  | cons action rest ih => exact ih (h.run action)

end

namespace Frame

variable {frame : Frame} {base : Stacks} {ret orig : Option Value}

theorem over_setResult (h : frame.globals.Over base ret orig) (result : Int) :
    (frame.setResult result).globals.Over base ret orig :=
  ⟨h.returnStack, h.origReturnStack, h.returnStatus⟩

theorem over_execute (h : frame.globals.Over base ret orig) (forward : Forward) :
    (frame.execute forward).globals.Over base (forward.body.foldl Action.set ret) orig :=
  h.foldl_run forward.body

theorem over_pre (h : frame.globals.Over base ret orig) {forward : Forward}
    (henabled : forward.Enabled) :
    (frame.pre forward).globals.Over base (forward.body.foldl Action.set ret) orig := by
  simp only [pre, henabled, if_true]
  split
  next => exact over_setResult (over_execute h forward) _
  next => exact over_execute h forward

theorem pre_result {forward : Forward} (henabled : forward.Enabled) :
    (frame.pre forward).result = max frame.result forward.result := by
  simp only [pre, henabled, if_true]
  split
  next hlt => exact (Int.max_eq_right (Int.le_of_lt hlt)).symm
  next hle => exact (Int.max_eq_left (Int.not_lt.mp hle)).symm

theorem pre_thisResult {forward : Forward} (henabled : forward.Enabled) :
    (frame.pre forward).thisResult = forward.result := by
  simp only [pre, henabled, if_true]
  split
  next => rfl
  next => rfl

theorem pre_ran {forward : Forward} (henabled : forward.Enabled) :
    (frame.pre forward).ran = frame.ran ++ [.forward forward.id] := by
  simp only [pre, henabled, if_true]
  split
  next => rfl
  next => rfl

theorem pre_of_disabled {forward : Forward} (hdisabled : ¬forward.Enabled)
    (hle : frame.thisResult ≤ frame.result) : frame.pre forward = frame := by
  simp [pre, hdisabled, Int.not_lt.mpr hle]

theorem foldl_pre (forwards : List Forward) (h : frame.globals.Over base ret orig)
    (hle : frame.thisResult ≤ frame.result) :
    let enabled := forwards.filter (·.Enabled)
    let after := forwards.foldl pre frame
    after.globals.Over base ((enabled.flatMap (·.body)).foldl Action.set ret) orig ∧
      after.result = (enabled.map (·.result)).foldl max frame.result ∧
      after.thisResult = ((enabled.map (·.result)).getLast?).getD frame.thisResult ∧
      after.ran = frame.ran ++ enabled.map fun forward => .forward forward.id := by
  induction forwards generalizing frame ret with
  | nil => exact ⟨h, rfl, rfl, by simp⟩
  | cons forward rest ih =>
      by_cases henabled : forward.Enabled
      · have hle' : (frame.pre forward).thisResult ≤ (frame.pre forward).result := by
          rw [pre_thisResult henabled, pre_result henabled]
          exact Int.le_max_right _ _
        obtain ⟨hover, hresult, hthis, hran⟩ := ih (over_pre h henabled) hle'
        refine ⟨?_, ?_, ?_, ?_⟩
        · simpa [henabled] using hover
        · simpa [henabled, pre_result] using hresult
        · simpa [henabled, pre_thisResult, List.getLast?_cons] using hthis
        · simpa [henabled, pre_ran] using hran
      · simpa [pre_of_disabled henabled hle, henabled] using ih h hle

theorem foldl_post (forwards : List Forward) (h : frame.globals.Over base ret orig) :
    let enabled := forwards.filter (·.Enabled)
    let after := forwards.foldl post frame
    after.globals.Over base ((enabled.flatMap (·.body)).foldl Action.set ret) orig ∧
      after.thisResult = frame.thisResult ∧
      after.ran = frame.ran ++ enabled.map fun forward => .forward forward.id := by
  induction forwards generalizing frame ret with
  | nil => exact ⟨h, rfl, by simp⟩
  | cons forward rest ih =>
      by_cases henabled : forward.Enabled
      · have hpost : frame.post forward = frame.execute forward := by simp [post, henabled]
        obtain ⟨hover, hthis, hran⟩ := ih (over_execute h forward)
        refine ⟨?_, ?_, ?_⟩
        · simpa [henabled, hpost] using hover
        · simpa [hpost, execute] using hthis
        · simpa [henabled, hpost, execute] using hran
      · have hpost : frame.post forward = frame := by simp [post, henabled]
        simpa [hpost, henabled] using ih h

theorem over_callOriginal (h : frame.globals.Over base ret orig) (original : Original) :
    (frame.callOriginal original).globals.Over base (original.body.foldl Action.set ret)
      (orig.map fun _ => original.result) := by
  have hbody := h.foldl_run original.body
  refine ⟨hbody.returnStack, ?_, hbody.returnStatus⟩
  cases orig with
  | none => simp [callOriginal, hbody.origReturnStack]
  | some value => simp [callOriginal, hbody.origReturnStack]

end Frame

theorem over_push (s : Stacks) (zero : Option Value) : (push s zero).globals.Over s zero zero :=
  ⟨rfl, rfl, rfl⟩

namespace Hook

variable (hook : Hook) (s : Stacks)

def enabledPre : List Forward := if s.doForwards then hook.pre.filter (·.Enabled) else []

def enabledPost : List Forward := if s.doForwards then hook.post.filter (·.Enabled) else []

/-- The maximum of `HAM_UNSET` and what the enabled pre forwards return. -/
def maximum : Int := ((hook.enabledPre s).map (·.result)).foldl max hamUnset

def lastResult : Int := (((hook.enabledPre s).map (·.result)).getLast?).getD hamUnset

def actions : List Action :=
  (hook.enabledPre s).flatMap (·.body) ++
    ((if hook.maximum s < hamSupercede then hook.original.body else []) ++
      (hook.enabledPost s).flatMap (·.body))

/-- `origret` at the end of a call. -/
def origRet (zero : Value) : Value :=
  if hook.maximum s < hamSupercede then hook.original.result else zero

variable {hook s}

theorem afterPre (zero : Option Value) :
    let frame := push s zero
    let after := if s.doForwards then hook.pre.foldl Frame.pre frame else frame
    after.globals.Over s (((hook.enabledPre s).flatMap (·.body)).foldl Action.set zero) zero ∧
      after.result = hook.maximum s ∧ after.thisResult = hook.lastResult s ∧
      after.ran = (hook.enabledPre s).map fun forward => .forward forward.id := by
  cases hdo : s.doForwards with
  | false => simpa [enabledPre, maximum, lastResult, hdo, push] using over_push s zero
  | true =>
      have hpre := Frame.foldl_pre hook.pre (over_push s zero) (Int.le_refl _)
      simpa [enabledPre, maximum, lastResult, hdo, push] using hpre

theorem afterPost {frame : Frame} {ret orig : Option Value} (h : frame.globals.Over s ret orig) :
    let after := if s.doForwards then hook.post.foldl Frame.post frame else frame
    after.globals.Over s (((hook.enabledPost s).flatMap (·.body)).foldl Action.set ret) orig ∧
      after.thisResult = frame.thisResult ∧
      after.ran = frame.ran ++ (hook.enabledPost s).map fun forward => .forward forward.id := by
  cases hdo : s.doForwards with
  | false => simpa [enabledPost, hdo] using h
  | true =>
      have hpost := Frame.foldl_post hook.post h
      simpa [enabledPost, hdo] using hpost

theorem body_spec (zero : Option Value) :
    (hook.body s zero).globals.Over s ((hook.actions s).foldl Action.set zero)
        (zero.map (hook.origRet s)) ∧
      (hook.body s zero).thisResult = hook.lastResult s ∧
      (hook.body s zero).ran =
        ((hook.enabledPre s).map fun forward => .forward forward.id) ++
          ((if hook.maximum s < hamSupercede then [.original] else []) ++
            (hook.enabledPost s).map fun forward => .forward forward.id) := by
  obtain ⟨hpre, hresult, hthis, hran⟩ := @afterPre hook s zero
  simp only [body]
  generalize (if s.doForwards then hook.pre.foldl Frame.pre (push s zero)
    else push s zero) = frame at hpre hresult hthis hran ⊢
  by_cases hcalls : hook.maximum s < hamSupercede
  · have hcalls' : frame.result < hamSupercede := hresult ▸ hcalls
    obtain ⟨hpost, hthis', hran'⟩ :=
      @afterPost hook s _ _ _ (Frame.over_callOriginal hpre hook.original)
    simp only [hcalls', if_true]
    refine ⟨?_, hthis'.trans hthis, hran'.trans ?_⟩
    · have horig : hook.origRet s = fun _ => hook.original.result := by
        funext value
        simp [origRet, hcalls]
      simpa [actions, hcalls, horig] using hpost
    · simp [Frame.callOriginal, hran, hcalls]
  · have hcalls' : ¬frame.result < hamSupercede := hresult ▸ hcalls
    obtain ⟨hpost, hthis', hran'⟩ := @afterPost hook s _ _ _ hpre
    simp only [hcalls', if_false]
    refine ⟨?_, hthis'.trans hthis, hran'.trans ?_⟩
    · have horig : zero.map (hook.origRet s) = zero := by
        cases zero with
        | none => rfl
        | some value => simp [origRet, hcalls]
      simpa [actions, hcalls, horig] using hpost
    · simp [hran, hcalls]

end Hook

def Hook.asInner (hook : Hook) (zero : Option Value) : Inner where
  run := fun s => (hook.body s zero).pop
  returnStack := fun _ => congrArg List.tail (Hook.body_spec zero).1.returnStack
  origReturnStack := fun _ => congrArg List.tail (Hook.body_spec zero).1.origReturnStack
  returnStatus := fun _ => (Hook.body_spec zero).1.returnStatus

/-- What is claimed of a call: the original is called once or not at all, as the maximum
says, and so is the value chosen. -/
structure AsClaimed (zero : Value) (hook : Hook) (s : Stacks) : Prop where
  original : (hookValue zero hook s).ran.count .original =
    if hook.maximum s < hamSupercede then 1 else 0
  value : (hookValue zero hook s).value =
    some (if hamOverride ≤ hook.maximum s then lastSet zero (hook.actions s)
      else hook.original.result)

section

variable {zero : Value} {hook : Hook} {s : Stacks}

theorem count_original_forwards (forwards : List Forward) :
    (forwards.map fun forward => Ran.forward forward.id).count .original = 0 := by
  rw [List.count_eq_zero]
  intro hmem
  obtain ⟨forward, -, heq⟩ := List.mem_map.mp hmem
  cases heq

theorem count_original : (hookValue zero hook s).ran.count .original =
    if hook.maximum s < hamSupercede then 1 else 0 := by
  have hran : (hookValue zero hook s).ran = _ := (Hook.body_spec (some zero)).2.2
  rw [hran, List.count_append, List.count_append, count_original_forwards,
    count_original_forwards]
  split
  next => rfl
  next => rfl

theorem value_eq : (hookValue zero hook s).value =
    some (if hook.lastResult s < hamOverride then hook.origRet s zero
      else lastSet zero (hook.actions s)) := by
  obtain ⟨hover, hthis, -⟩ := @Hook.body_spec hook s (some zero)
  change Frame.checkReturn _ = _
  unfold Frame.checkReturn
  rw [hthis, hover.returnStack, hover.origReturnStack, foldl_set]
  split
  next => rfl
  next => rfl

end

theorem le_foldl_max (results : List Int) (start : Int) :
    start ≤ results.foldl max start ∧ (results.getLast?).getD start ≤ results.foldl max start := by
  induction results generalizing start with
  | nil => exact ⟨Int.le_refl _, Int.le_refl _⟩
  | cons result rest ih =>
      obtain ⟨hstart, hlast⟩ := ih (max start result)
      refine ⟨Int.le_trans (Int.le_max_left _ _) hstart, ?_⟩
      rw [List.getLast?_cons, Option.getD_some, List.foldl_cons]
      cases hrest : rest.getLast? with
      | none => exact Int.le_trans (Int.le_max_right _ _) hstart
      | some last =>
          rw [hrest] at hlast
          exact hlast

end AmxModC.Ham
