import AmxModC.Forward.Slots

namespace AmxModC.Forward

open Foundation

/-! The shared table of prepared arrays against executions with arrays of their own. -/

def Agree (lookup lookup' : Lookup) (args : List Arg) : Prop :=
  ∀ index prepared, .array index prepared ∈ args → lookup index prepared = lookup' index prepared

section

variable {lookup lookup' : Lookup}

theorem passOne_congr {arg : Arg} (h : Agree lookup lookup' [arg]) (memory : Memory)
    (type : ForwardParam) : passOne lookup memory type arg = passOne lookup' memory type arg := by
  cases arg with
  | value value => cases type <;> rfl
  | array index prepared =>
      cases type with
      | array => simp only [passOne, h index prepared List.mem_cons_self]
      | cell | float | string | stringEx => rfl

theorem cleanupOne_congr {arg : Arg} (h : Agree lookup lookup' [arg]) (contents : List Cell)
    (memory : Memory) (type : ForwardParam) :
    cleanupOne lookup contents memory type arg = cleanupOne lookup' contents memory type arg := by
  cases arg with
  | value value => cases type <;> rfl
  | array index prepared =>
      cases type with
      | array => simp only [cleanupOne, h index prepared List.mem_cons_self]
      | cell | float | string | stringEx => rfl

theorem Agree.head {arg : Arg} {args : List Arg} (h : Agree lookup lookup' (arg :: args)) :
    Agree lookup lookup' [arg] := fun index prepared hmem =>
  h index prepared (List.mem_singleton.mp hmem ▸ List.mem_cons_self)

theorem Agree.tail {arg : Arg} {args : List Arg} (h : Agree lookup lookup' (arg :: args)) :
    Agree lookup lookup' args := fun index prepared hmem =>
  h index prepared (List.mem_cons_of_mem arg hmem)

theorem pass_congr {args : List Arg} (h : Agree lookup lookup' args) (memory : Memory)
    (types : List ForwardParam) :
    pass lookup memory types args = pass lookup' memory types args := by
  induction types generalizing args with
  | nil => rfl
  | cons type types ih =>
      cases args with
      | nil => rfl
      | cons arg args => simp only [pass, passOne_congr h.head, ih h.tail]

theorem cleanup_congr {args : List Arg} (h : Agree lookup lookup' args)
    (types : List ForwardParam) (contents : List (List Cell)) (memory : Memory) :
    cleanup lookup types args contents memory = cleanup lookup' types args contents memory := by
  induction types generalizing args contents memory with
  | nil => rfl
  | cons type types ih =>
      cases args with
      | nil => rfl
      | cons arg args =>
          cases contents with
          | nil => rfl
          | cons first rest => simp only [cleanup, cleanupOne_congr h.head, ih h.tail]

end

namespace State

variable {s s' : State}

/-- What the shared table stands for: every execution gives its plugins the arrays that
were prepared for it, and copies back into these. -/
def ownStep : State → Event → Option State :=
  stepWith fun _ _ prepared => some prepared

def Holds (s : State) : Arg → Prop
  | .value _ => True
  | .array index prepared => s.tmpArray index = some prepared

def Undisturbed (s : State) : Prop :=
  ∀ activation ∈ s.activations, ∀ arg ∈ activation.args, s.Holds arg

/-- The call leaves the entries of the executions in progress alone, and an execution is
started while its own entries are still there. -/
def LeavesArrays (s : State) : Event → Prop
  | .prepareArray _ => s.tmpArraysNum < 32 → ∀ activation ∈ s.activations,
      ∀ arg ∈ activation.args, arg.index ≠ some (s.tmpArraysNum : Int)
  | .executeForwards _ params _ => ∀ args ∈ s.resolve params, ∀ arg ∈ args, s.Holds arg
  | _ => True

instance (s : State) (arg : Arg) : Decidable (s.Holds arg) := by
  cases arg <;> unfold Holds <;> infer_instance

instance (s : State) : (event : Event) → Decidable (s.LeavesArrays event)
  | .prepareArray _ => inferInstanceAs
      (Decidable (s.tmpArraysNum < 32 → ∀ activation ∈ s.activations,
        ∀ arg ∈ activation.args, arg.index ≠ some (s.tmpArraysNum : Int)))
  | .executeForwards _ params _ => inferInstanceAs
      (Decidable (∀ args ∈ s.resolve params, ∀ arg ∈ args, s.Holds arg))
  | .registerForward _ | .registerSPForward .. | .registerSPForwardByName ..
  | .duplicateSPForward _ | .unregisterSPForward _ | .nextPlugin _ | .callbackReturn ..
  | .hostWrite _ => isTrue trivial

theorem agree_of_holds {args : List Arg} (h : ∀ arg ∈ args, s.Holds arg) :
    Agree (fun index _ => s.tmpArray index) (fun _ prepared => some prepared) args :=
  fun index prepared hmem => h (.array index prepared) hmem

theorem step_eq_ownStep (h : s.Undisturbed) {event : Event} (hleaves : s.LeavesArrays event) :
    s.step event = s.ownStep event := by
  cases event with
  | executeForwards id params executable =>
      simp only [step, ownStep, stepWith]
      cases hargs : s.resolve params with
      | none => rfl
      | some args =>
          have hagree := agree_of_holds (hleaves args hargs)
          simp only [Option.bind_eq_bind, Option.bind_some, enter, pass_congr hagree]
  | nextPlugin executable =>
      cases hactive : s.activations with
      | nil => simp [step, ownStep, stepWith, hactive]
      | cons activation rest =>
          have hagree := agree_of_holds (h activation (by simp [hactive]))
          simp only [step, ownStep, stepWith, hactive, State.nextPlugin, pass_congr hagree]
  | callbackReturn contents retVal =>
      cases hactive : s.activations with
      | nil => simp [step, ownStep, stepWith, hactive]
      | cons activation rest =>
          have hagree := agree_of_holds (h activation (by simp [hactive]))
          simp only [step, ownStep, stepWith, hactive, State.callbackReturn,
            cleanup_congr hagree]
  | registerForward | registerSPForward | registerSPForwardByName | duplicateSPForward
  | unregisterSPForward | prepareArray | hostWrite => rfl

/-! What the other calls leave alone. -/

/-- The table is as it was, and executions only go on or end; `fresh` are the parameters
of one that starts. -/
structure KeepsArrays (s s' : State) (fresh : List Arg) : Prop where
  table : s'.tmpArrays = s.tmpArrays
  args : ∀ activation ∈ s'.activations,
    activation.args = fresh ∨ ∃ old ∈ s.activations, activation.args = old.args

theorem KeepsArrays.of_same {fresh : List Arg} (htable : s'.tmpArrays = s.tmpArrays)
    (hactive : s'.activations = s.activations) : s.KeepsArrays s' fresh :=
  ⟨htable, fun activation hmem => .inr ⟨activation, hactive ▸ hmem, rfl⟩⟩

theorem KeepsArrays.undisturbed {fresh : List Arg} (hkeeps : s.KeepsArrays s' fresh)
    (h : s.Undisturbed) (hfresh : ∀ arg ∈ fresh, s.Holds arg) : s'.Undisturbed := by
  intro activation hmem arg harg
  have htable : s'.Holds arg ↔ s.Holds arg := by
    cases arg <;> simp only [Holds, tmpArray, hkeeps.table]
  rw [htable]
  obtain heq | ⟨old, hold, heq⟩ := hkeeps.args activation hmem
  · exact hfresh arg (heq ▸ harg)
  · exact h old hold arg (heq ▸ harg)

theorem enter_keeps {lookup : State → Lookup} {id : Int} {args : List Arg} {executable : Bool}
    (hstep : s.enter lookup id args executable = some s') : s.KeepsArrays s' args := by
  have hpush : ∀ activation : Activation, activation.args = args →
      ∀ other ∈ activation :: s.activations,
        other.args = args ∨ ∃ old ∈ s.activations, other.args = old.args := by
    intro activation hargs other hmem
    rcases List.mem_cons.mp hmem with rfl | hold
    · exact .inl hargs
    · exact .inr ⟨other, hold, rfl⟩
  unfold enter at hstep
  split at hstep
  · obtain ⟨forward, -, hstep⟩ := Option.bind_eq_some_iff.mp hstep
    split at hstep
    · obtain ⟨htable, hactive⟩ := leaveSP_keeps hstep
      exact .of_same htable hactive
    · obtain ⟨passed, -, hstep⟩ := Option.bind_eq_some_iff.mp hstep
      rw [← Option.some.inj hstep]
      exact ⟨rfl, hpush _ rfl⟩
  · rw [← Option.some.inj hstep]
    exact ⟨rfl, hpush _ rfl⟩

theorem keeps_of_head {fresh : List Arg} {activation : Activation} {rest : List Activation}
    (hactive : s.activations = activation :: rest) (htable : s'.tmpArrays = s.tmpArrays)
    (hhead : s'.activations = rest ∨
      ∃ other : Activation, s'.activations = other :: rest ∧ other.args = activation.args) :
    s.KeepsArrays s' fresh := by
  refine ⟨htable, fun found hmem => .inr ?_⟩
  obtain hrest | ⟨other, hother, hargs⟩ := hhead
  · exact ⟨found, by simp [hactive, hrest ▸ hmem], rfl⟩
  · rw [hother] at hmem
    rcases List.mem_cons.mp hmem with rfl | hold
    · exact ⟨activation, by simp [hactive], hargs⟩
    · exact ⟨found, by simp [hactive, hold], rfl⟩

theorem nextPlugin_keeps {lookup : State → Lookup} {fresh : List Arg} {activation : Activation}
    {rest : List Activation} {executable : Bool} (hactive : s.activations = activation :: rest)
    (hstep : s.nextPlugin lookup activation rest executable = some s') :
    s.KeepsArrays s' fresh := by
  obtain ⟨forward, -, hstep⟩ := Option.bind_eq_some_iff.mp hstep
  split at hstep
  · split at hstep
    · obtain ⟨passed, -, hstep⟩ := Option.bind_eq_some_iff.mp hstep
      rw [← Option.some.inj hstep]
      exact keeps_of_head hactive rfl (.inr ⟨_, rfl, rfl⟩)
    · rw [← Option.some.inj hstep]
      exact keeps_of_head hactive rfl (.inr ⟨_, rfl, rfl⟩)
  · rw [← Option.some.inj hstep]
    exact keeps_of_head hactive rfl (.inl rfl)

theorem callbackReturn_keeps {lookup : State → Lookup} {fresh : List Arg}
    {activation : Activation} {rest : List Activation} {contents : List (List Cell)}
    {retVal : Cell} (hactive : s.activations = activation :: rest)
    (hstep : s.callbackReturn lookup activation rest contents retVal = some s') :
    s.KeepsArrays s' fresh := by
  unfold callbackReturn at hstep
  split at hstep
  · obtain ⟨forward, -, hstep⟩ := Option.bind_eq_some_iff.mp hstep
    obtain ⟨memory, -, hstep⟩ := Option.bind_eq_some_iff.mp hstep
    obtain ⟨htable, hrest⟩ := leaveSP_keeps hstep
    exact keeps_of_head hactive htable (.inl hrest)
  · obtain ⟨forward, -, hstep⟩ := Option.bind_eq_some_iff.mp hstep
    obtain ⟨memory, -, hstep⟩ := Option.bind_eq_some_iff.mp hstep
    dsimp only at hstep
    split at hstep
    · rw [← Option.some.inj hstep]
      exact keeps_of_head hactive rfl (.inl rfl)
    · rw [← Option.some.inj hstep]
      exact keeps_of_head hactive rfl (.inr ⟨_, rfl, rfl⟩)

theorem prepareArray_undisturbed (h : s.Undisturbed) {array : ForwardPreparedArray}
    (hleaves : s.LeavesArrays (.prepareArray array)) : (s.prepareArray array).Undisturbed := by
  unfold prepareArray
  split
  case isTrue => exact h
  case isFalse hroom =>
    intro activation hmem arg harg
    have hne := hleaves (by omega) activation hmem arg harg
    have hold := h activation hmem arg harg
    cases arg with
    | value value => trivial
    | array index prepared =>
        simp only [Arg.index, ne_eq, Option.some.injEq] at hne
        simp only [Holds, tmpArray] at hold ⊢
        split at hold
        case isTrue hpos =>
          rw [if_pos hpos, List.getElem?_set_ne (by omega)]
          exact hold
        case isFalse => cases hold

theorem undisturbed_step (h : s.Undisturbed) {event : Event} (hleaves : s.LeavesArrays event)
    (hstep : s.step event = some s') : s'.Undisturbed := by
  have hquiet {s' : State} (hkeeps : s.KeepsArrays s' []) : s'.Undisturbed :=
    hkeeps.undisturbed h (by simp)
  cases event with
  | registerForward forward =>
      simp only [step, stepWith, Option.ite_none_right_eq_some, Option.some.injEq] at hstep
      exact hstep.2 ▸ hquiet (.of_same rfl rfl)
  | registerSPForward func amx paramTypes =>
      simp only [step, stepWith, Option.ite_none_right_eq_some, Option.some.injEq] at hstep
      obtain ⟨htable, hactive⟩ := s.registerSPForward_keeps (.setFunc func amx paramTypes)
      exact hstep.2 ▸ hquiet (.of_same htable hactive)
  | registerSPForwardByName found amx paramTypes =>
      simp only [step, stepWith, Option.ite_none_right_eq_some, Option.some.injEq] at hstep
      obtain ⟨htable, hactive⟩ := s.registerSPForward_keeps (.setName found amx paramTypes)
      exact hstep.2 ▸ hquiet (.of_same htable hactive)
  | duplicateSPForward id =>
      simp only [step, stepWith, Option.ite_none_right_eq_some] at hstep
      obtain ⟨-, hstep⟩ := hstep
      unfold duplicateSPForward at hstep
      split at hstep
      · obtain ⟨forward, -, hstep⟩ := Option.bind_eq_some_iff.mp hstep
        split at hstep
        · exact Option.some.inj hstep ▸ hquiet (.of_same rfl rfl)
        · obtain ⟨htable, hactive⟩ := s.registerSPForward_keeps
            (.setFunc forward.func forward.amx forward.paramTypes)
          exact Option.some.inj hstep ▸ hquiet (.of_same htable hactive)
      · exact Option.some.inj hstep ▸ hquiet (.of_same rfl rfl)
  | unregisterSPForward id =>
      simp only [step, stepWith, Option.ite_none_right_eq_some] at hstep
      obtain ⟨middle, hmiddle, rfl⟩ := Option.map_eq_some_iff.mp hstep.2
      obtain ⟨htable, hactive⟩ := unregisterSPForward_keeps hmiddle
      exact hquiet (.of_same htable hactive)
  | prepareArray array =>
      simp only [step, stepWith, Option.ite_none_right_eq_some, Option.some.injEq] at hstep
      exact hstep.2 ▸ prepareArray_undisturbed h hleaves
  | executeForwards id params executable =>
      simp only [step, stepWith, Option.ite_none_right_eq_some] at hstep
      obtain ⟨-, hstep⟩ := hstep
      split at hstep
      · obtain ⟨args, hargs, hstep⟩ := Option.bind_eq_some_iff.mp hstep
        exact (enter_keeps hstep).undisturbed h (hleaves args hargs)
      · exact Option.some.inj hstep ▸ hquiet (.of_same rfl rfl)
  | nextPlugin executable =>
      cases hactive : s.activations with
      | nil => simp [step, stepWith, hactive] at hstep
      | cons activation rest =>
          simp only [step, stepWith, hactive, Option.ite_none_right_eq_some] at hstep
          exact hquiet (nextPlugin_keeps hactive hstep.2)
  | callbackReturn contents retVal =>
      cases hactive : s.activations with
      | nil => simp [step, stepWith, hactive] at hstep
      | cons activation rest =>
          simp only [step, stepWith, hactive, Option.ite_none_right_eq_some] at hstep
          exact hquiet (callbackReturn_keeps hactive hstep.2)
  | hostWrite memory =>
      simp only [step, stepWith, Option.ite_none_right_eq_some, Option.some.injEq] at hstep
      exact hstep.2 ▸ hquiet (.of_same rfl rfl)

/-- As long as the calls leave the arrays of the executions alone, every plugin is given,
and every copy back changes, the arrays prepared for its own execution. -/
theorem run_eq_run_ownStep {events : List Event}
    (hmeets : Meets step LeavesArrays {} events) :
    run step {} events = run ownStep {} events := by
  have hsame : ∀ {s : State} {events : List Event}, s.Undisturbed →
      Meets step LeavesArrays s events → run step s events = run ownStep s events := by
    intro s events h hmeets
    induction events generalizing s with
    | nil => rfl
    | cons event rest ih =>
        rw [run_cons, run_cons, ← step_eq_ownStep h hmeets.1]
        cases hstep : s.step event with
        | none => rfl
        | some next => exact ih (undisturbed_step h hmeets.1 hstep) (hmeets.2 next hstep)
  exact hsame (by simp [Undisturbed]) hmeets

/-- A forward to two plugins with one array, whose first plugin runs another forward. -/
theorem run_eq_run_ownStep_nested :
    run step {} [.registerForward ⟨.ignore, [.array], [⟨1, 0⟩, ⟨2, 0⟩]⟩,
        .registerForward ⟨.ignore, [], []⟩, .hostWrite ⟨[10, 20], []⟩,
        .prepareArray ⟨0, .cell, 1, false⟩, .executeForwards 0 [.prepared 0] true,
        .nextPlugin true, .executeForwards 2 [] true] =
      run ownStep {} [.registerForward ⟨.ignore, [.array], [⟨1, 0⟩, ⟨2, 0⟩]⟩,
        .registerForward ⟨.ignore, [], []⟩, .hostWrite ⟨[10, 20], []⟩,
        .prepareArray ⟨0, .cell, 1, false⟩, .executeForwards 0 [.prepared 0] true,
        .nextPlugin true, .executeForwards 2 [] true] := by
  exact run_eq_run_ownStep (by decide)

/-- After that other forward has run, an array prepared in the first plugin takes the
entry: the second plugin is given 20 in place of 10. -/
theorem run_ne_run_ownStep_prepared :
    ∃ s own : State,
      run step {} [.registerForward ⟨.ignore, [.array], [⟨1, 0⟩, ⟨2, 0⟩]⟩,
          .registerForward ⟨.ignore, [], []⟩, .hostWrite ⟨[10, 20], []⟩,
          .prepareArray ⟨0, .cell, 1, false⟩, .executeForwards 0 [.prepared 0] true,
          .nextPlugin true, .executeForwards 2 [] true, .nextPlugin true,
          .prepareArray ⟨1, .cell, 1, false⟩, .callbackReturn [[10]] 0,
          .nextPlugin true] = some s ∧
        run ownStep {} [.registerForward ⟨.ignore, [.array], [⟨1, 0⟩, ⟨2, 0⟩]⟩,
          .registerForward ⟨.ignore, [], []⟩, .hostWrite ⟨[10, 20], []⟩,
          .prepareArray ⟨0, .cell, 1, false⟩, .executeForwards 0 [.prepared 0] true,
          .nextPlugin true, .executeForwards 2 [] true, .nextPlugin true,
          .prepareArray ⟨1, .cell, 1, false⟩, .callbackReturn [[10]] 0,
          .nextPlugin true] = some own ∧
        s.activations.map Activation.call = [some [.block [20]]] ∧
        own.activations.map Activation.call = [some [.block [10]]] := by
  exact ⟨_, _, rfl, rfl, rfl, rfl⟩

end State

end AmxModC.Forward
