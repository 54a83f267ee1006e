import Mathlib.Data.List.Basic
import Mathlib.Order.WellFounded
import Mathlib.Data.Option.Basic

namespace AmxModC.Foundation

section

/-! Runs of a partial step function.  `none` is a step the machine cannot take:
an access outside its memory, or an event that does not fit the state. -/

variable {State Event : Type*}

def run (step : State → Event → Option State) : State → List Event → Option State
  | state, [] => some state
  | state, event :: rest => (step state event).bind fun next => run step next rest

/-- Every step of the run, as far as it goes, starts in a state where the
event is allowed. -/
def Meets (step : State → Event → Option State) (allowed : State → Event → Prop) :
    State → List Event → Prop
  | _, [] => True
  | state, event :: rest =>
      allowed state event ∧
        ∀ next, step state event = some next → Meets step allowed next rest

section

variable {step : State → Event → Option State} {allowed : State → Event → Prop}

@[simp] theorem run_nil (state : State) : run step state [] = some state := rfl

@[simp] theorem run_cons (state : State) (event : Event) (rest : List Event) :
    run step state (event :: rest) =
      (step state event).bind fun next => run step next rest := rfl

@[simp] theorem meets_nil (state : State) : Meets step allowed state [] := trivial

@[simp] theorem meets_cons (state : State) (event : Event) (rest : List Event) :
    Meets step allowed state (event :: rest) ↔
      allowed state event ∧
        ∀ next, step state event = some next → Meets step allowed next rest := Iff.rfl

theorem Meets.cons {state next : State} {event : Event} {rest : List Event}
    (hallowed : allowed state event) (hstep : step state event = some next)
    (h : Meets step allowed next rest) : Meets step allowed state (event :: rest) :=
  ⟨hallowed, fun _ hnext => Option.some.inj (hstep.symm.trans hnext) ▸ h⟩

instance decidableMeets [∀ state event, Decidable (allowed state event)] :
    (state : State) → (events : List Event) → Decidable (Meets step allowed state events)
  | _, [] => isTrue trivial
  | state, event :: rest =>
      match hstep : step state event with
      | none => decidable_of_iff (allowed state event) (by simp [hstep])
      | some next =>
          have := decidableMeets next rest
          decidable_of_iff (allowed state event ∧ Meets step allowed next rest)
            (by simp [hstep])

theorem run_cons_eq_some {state final : State} {event : Event} {rest : List Event} :
    run step state (event :: rest) = some final ↔
      ∃ next, step state event = some next ∧ run step next rest = some final := by
  simp [Option.bind_eq_some_iff]

theorem run_append (state : State) (first second : List Event) :
    run step state (first ++ second) =
      (run step state first).bind fun middle => run step middle second := by
  induction first generalizing state with
  | nil => rfl
  | cons event rest ih =>
      cases hstep : step state event with
      | none => simp [hstep]
      | some next => simpa [hstep] using ih next

theorem meets_of_forall (h : ∀ state event, allowed state event) {state : State}
    {events : List Event} : Meets step allowed state events := by
  induction events generalizing state with
  | nil => trivial
  | cons event rest ih => exact ⟨h _ _, fun _ _ => ih⟩

theorem Meets.and_forall {P : Event → Prop} {state : State} {events : List Event}
    (h : Meets step allowed state events) (hevents : ∀ event ∈ events, P event) :
    Meets step (fun state event => allowed state event ∧ P event) state events := by
  induction events generalizing state with
  | nil => trivial
  | cons event rest ih =>
      obtain ⟨hevent, hrest⟩ := List.forall_mem_cons.mp hevents
      exact ⟨⟨h.1, hevent⟩, fun next hnext => ih (h.2 next hnext) hrest⟩

theorem meets_congr {other : State → Event → Prop} {I : State → Prop}
    (hkeep : ∀ {state event next}, I state → allowed state event →
      step state event = some next → I next)
    (hiff : ∀ {state event}, I state → (allowed state event ↔ other state event))
    {state : State} {events : List Event} (hinv : I state) :
    Meets step allowed state events ↔ Meets step other state events := by
  induction events generalizing state with
  | nil => simp
  | cons event rest ih =>
      rw [meets_cons, meets_cons, ← hiff hinv]
      refine and_congr_right fun hallowed => ?_
      exact forall₂_congr fun next hnext => ih (hkeep hinv hallowed hnext)

theorem run_invariant {I : State → Prop}
    (hkeep : ∀ {state event next}, I state → allowed state event →
      step state event = some next → I next)
    {state final : State} {events : List Event} (hinv : I state)
    (hmeets : Meets step allowed state events)
    (hrun : run step state events = some final) : I final := by
  induction events generalizing state with
  | nil =>
      cases hrun
      exact hinv
  | cons event rest ih =>
      obtain ⟨next, hnext, hrest⟩ := run_cons_eq_some.mp hrun
      exact ih (hkeep hinv hmeets.1 hnext) (hmeets.2 next hnext) hrest

theorem run_total {I : State → Prop}
    (hkeep : ∀ {state event}, I state → allowed state event →
      ∃ next, step state event = some next ∧ I next)
    {state : State} {events : List Event} (hinv : I state)
    (hmeets : Meets step allowed state events) :
    ∃ final, run step state events = some final ∧ I final := by
  induction events generalizing state with
  | nil => exact ⟨state, rfl, hinv⟩
  | cons event rest ih =>
      obtain ⟨next, hnext, hinvNext⟩ := hkeep hinv hmeets.1
      obtain ⟨final, hfinal, hinvFinal⟩ := ih hinvNext (hmeets.2 next hnext)
      exact ⟨final, run_cons_eq_some.mpr ⟨next, hnext, hfinal⟩, hinvFinal⟩

theorem run_isSome_iff_meets {I : State → Prop}
    (hkeep : ∀ {state event next}, I state →
      step state event = some next → I next)
    (hexact : ∀ {state event}, I state →
      ((step state event).isSome ↔ allowed state event))
    {state : State} {events : List Event} (hinv : I state) :
    (run step state events).isSome ↔ Meets step allowed state events := by
  induction events generalizing state with
  | nil => simp
  | cons event rest ih =>
      rw [meets_cons, run_cons, ← hexact hinv]
      cases hstep : step state event with
      | none => simp
      | some next => simpa using ih (hkeep hinv hstep)

theorem length_of_mapM {α β : Type*} {f : α → Option β} {l : List α} {l' : List β}
    (h : l.mapM f = some l') : l'.length = l.length := by
  induction l generalizing l' with
  | nil =>
      cases h
      rfl
  | cons a l ih =>
      simp only [List.mapM_cons, Option.bind_eq_bind, Option.bind_eq_some_iff] at h
      obtain ⟨b, -, rest, hrest, heq⟩ := h
      cases heq
      rw [List.length_cons, List.length_cons, ih hrest]

theorem foldl_invariant {α β : Type*} {P : Nat → β → Prop} {f : β → α → β} {l : List α} {b : β}
    (hstart : P 0 b)
    (hturn : ∀ i (hi : i < l.length) (b : β), P i b → P (i + 1) (f b l[i])) :
    P l.length (l.foldl f b) := by
  induction l generalizing b P with
  | nil => exact hstart
  | cons a l ih =>
      refine ih (P := fun i => P (i + 1)) (hturn 0 (Nat.zero_lt_succ _) b hstart) ?_
      exact fun i hi b hb => hturn (i + 1) (Nat.succ_lt_succ hi) b hb

end

/-! What a machine comes to whichever of its allowed steps it takes. -/

/-- Every sequence of allowed steps reaches `P`, and none gets stuck before. -/
inductive Inevitable (step : State → Event → Option State) (allowed : State → Event → Prop)
    (P : State → Prop) : State → Prop where
  | here {state : State} (h : P state) : Inevitable step allowed P state
  | next {state : State}
      (hpossible : ∃ event next, allowed state event ∧ step state event = some next)
      (hnext : ∀ event next, allowed state event → step state event = some next →
        Inevitable step allowed P next) : Inevitable step allowed P state

section

variable {step : State → Event → Option State} {allowed : State → Event → Prop}
  {P : State → Prop}

theorem inevitable_of_measure {Rank : Type*} {r : Rank → Rank → Prop} (hr : WellFounded r)
    (measure : State → Rank) {I : State → Prop}
    (hpossible : ∀ state, I state → ∃ event next, allowed state event ∧ step state event = some next)
    (hlower : ∀ {state event next}, I state → allowed state event →
      step state event = some next → P next ∨ (I next ∧ r (measure next) (measure state)))
    {state : State} (hinv : I state) : Inevitable step allowed P state := by
  generalize hrank : measure state = rank
  induction rank using hr.induction generalizing state with
  | _ rank ih =>
      refine .next (hpossible state hinv) fun event next hallowed hstep => ?_
      rcases hlower hinv hallowed hstep with hdone | ⟨hinv', hlt⟩
      · exact .here hdone
      · exact ih (measure next) (hrank ▸ hlt) hinv' rfl

theorem Inevitable.of_stuck {state : State} (h : Inevitable step allowed P state)
    (hstuck : ∀ event, step state event = none) : P state := by
  cases h with
  | here hdone => exact hdone
  | next hpossible =>
      obtain ⟨event, next, -, hstep⟩ := hpossible
      simp [hstuck event] at hstep

end

/-! The loop `for (it = begin; it != end; ++it)` over any kind of iterator. -/

variable {Iter α : Type*}

/-- What the loop sees in at most `turns` turns; `none` when it is not at the end by
then, or stands on nothing. -/
def traverse (atEnd : Iter → Bool) (deref : Iter → Option α) (inc : Iter → Iter) :
    Nat → Iter → Option (List α)
  | 0, _ => none
  | turns + 1, it =>
      if atEnd it then some []
      else do
        let a ← deref it
        let rest ← traverse atEnd deref inc turns (inc it)
        return a :: rest

theorem traverse_eq {atEnd : Iter → Bool} {deref : Iter → Option α} {inc : Iter → Iter}
    {Before : Iter → List α → Prop}
    (hend : ∀ {it}, Before it [] → atEnd it = true)
    (hnext : ∀ {it a rest}, Before it (a :: rest) →
      atEnd it = false ∧ deref it = some a ∧ Before (inc it) rest)
    {it : Iter} {list : List α} {turns : Nat} (h : Before it list) (hturns : list.length < turns) :
    traverse atEnd deref inc turns it = some list := by
  induction list generalizing it turns with
  | nil =>
      obtain ⟨more, rfl⟩ := Nat.exists_eq_add_one.mpr hturns
      rw [traverse, if_pos (hend h)]
  | cons a rest ih =>
      obtain ⟨more, rfl⟩ := Nat.exists_eq_add_one.mpr (Nat.zero_lt_of_lt hturns)
      obtain ⟨hmore, hderef, hrest⟩ := hnext h
      have hih := ih hrest (Nat.lt_of_succ_lt_succ hturns)
      simp [traverse, hmore, hderef, hih]

end

section

/-! Machines that answer every call, and what makes two of them answer alike. -/

variable {State State' Call Answer : Type*}

def answers (call : State → Call → State × Answer) : State → List Call → List Answer
  | _, [] => []
  | state, c :: calls => (call state c).2 :: answers call (call state c).1 calls

def next (call : State → Call → State × Answer) (state : State) (c : Call) : Option State :=
  some (call state c).1

theorem answers_eq {call : State → Call → State × Answer} {call' : State' → Call → State' × Answer}
    {allowed : State → Call → Prop} {R : State → State' → Prop}
    (hsim : ∀ {state state' c}, R state state' → allowed state c →
      (call state c).2 = (call' state' c).2 ∧ R (call state c).1 (call' state' c).1)
    {state : State} {state' : State'} {calls : List Call} (hR : R state state')
    (hmeets : Meets (next call) allowed state calls) :
    answers call state calls = answers call' state' calls := by
  induction calls generalizing state state' with
  | nil => rfl
  | cons c calls ih =>
      obtain ⟨hanswer, hnext⟩ := hsim hR hmeets.1
      rw [answers, answers, hanswer, ih hnext (hmeets.2 _ rfl)]

theorem answers_eq_iff {call : State → Call → State × Answer}
    {call' : State' → Call → State' × Answer} {allowed agree : State → Call → Prop}
    {R : State → State' → Prop}
    (hkeep : ∀ {state state' c}, R state state' → R (call state c).1 (call' state' c).1)
    (hexact : ∀ {state state' c}, R state state' → allowed state c →
      ((call state c).2 = (call' state' c).2 ↔ agree state c))
    {state : State} {state' : State'} {calls : List Call} (hR : R state state')
    (hmeets : Meets (next call) allowed state calls) :
    answers call state calls = answers call' state' calls ↔
      Meets (next call) agree state calls := by
  induction calls generalizing state state' with
  | nil => exact iff_of_true rfl trivial
  | cons c calls ih =>
      have hrest := ih (hkeep hR (c := c)) (hmeets.2 _ rfl)
      rw [answers, answers, List.cons.injEq, hexact hR hmeets.1, hrest, meets_cons]
      refine and_congr_right fun _ => ⟨fun h next hnext => ?_, fun h => h _ rfl⟩
      obtain rfl := Option.some.inj hnext
      exact h

theorem foldl_related {step : State → Call → State} {step' : State' → Call → State'}
    {allowed : State → Call → Prop} {R : State → State' → Prop}
    (hsim : ∀ {state state' c}, R state state' → allowed state c →
      R (step state c) (step' state' c))
    {state : State} {state' : State'} {calls : List Call} (hR : R state state')
    (hmeets : Meets (fun state c => some (step state c)) allowed state calls) :
    R (calls.foldl step state) (calls.foldl step' state') := by
  induction calls generalizing state state' with
  | nil => exact hR
  | cons c calls ih => exact ih (hsim hR hmeets.1) (hmeets.2 _ rfl)

theorem run_related {Event : Type*} {step : State → Event → Option State}
    {step' : State' → Event → Option State'} {allowed : State → Event → Prop}
    {R : State → State' → Prop}
    (hsim : ∀ {state state' event}, R state state' → allowed state event →
      Option.Rel R (step state event) (step' state' event))
    {state : State} {state' : State'} {events : List Event} (hR : R state state')
    (hmeets : Meets step allowed state events) :
    Option.Rel R (run step state events) (run step' state' events) := by
  induction events generalizing state state' with
  | nil => exact .some hR
  | cons event events ih =>
      have hstep := hsim hR hmeets.1
      have hrest := hmeets.2
      rw [run_cons, run_cons]
      generalize step state event = taken at hstep hrest
      generalize step' state' event = taken' at hstep
      cases hstep with
      | none => exact .none
      | some hnext => exact ih hnext (hrest _ rfl)

end

end AmxModC.Foundation
