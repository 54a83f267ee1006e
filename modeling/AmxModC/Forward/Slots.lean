import AmxModC.Forward.Model

namespace AmxModC.Forward

open Foundation

/-! The single-plugin slots apart from the rest of the manager: the flags, the free
stack, the executions in progress (their ids, innermost first) and the history. -/

structure Slots where
  forwards : List CSPForward
  free : List Int
  active : List Int
  handedOut : List Int
  pushed : List Int
  outstanding : List Int

def State.slots (s : State) : Slots where
  forwards := s.spForwards
  free := s.freeSPForwards
  active := (s.activations.map Activation.id).filter fun id => id % 2 = 1
  handedOut := s.handedOut
  pushed := s.pushed
  outstanding := s.outstanding

@[simp] theorem slotOf_spId (slot : Nat) : slotOf (spId slot) = slot := by
  simp only [slotOf, spId]
  omega

theorem spId_slotOf {id : Int} (hpos : 0 ≤ id) (hodd : id % 2 = 1) : spId (slotOf id) = id := by
  simp only [slotOf, spId]
  omega

theorem spId_odd (slot : Nat) : spId slot % 2 = 1 := by
  simp only [spId]
  omega

theorem spId_inj {slot other : Nat} (h : spId slot = spId other) : slot = other := by
  simp only [spId] at h
  omega

namespace Slots

variable {t t' : Slots} {slot : Nat} {forward : CSPForward}

def put (t : Slots) (slot : Nat) (forward : CSPForward) : Slots :=
  { t with forwards := t.forwards.set slot forward }

def handOut (t : Slots) (id : Int) : Slots :=
  { t with handedOut := id :: t.handedOut, outstanding := id :: t.outstanding }

def register (t : Slots) (forward : CSPForward) : Slots :=
  match t.free with
  | id :: rest =>
      if forward.hasFunc then ({ t with free := rest }.put (slotOf id) forward).handOut id
      else t.put (slotOf id) forward
  | [] =>
      if forward.hasFunc then
        { t with forwards := t.forwards ++ [forward] }.handOut (spId t.forwards.length)
      else t

def release (t : Slots) (slot : Nat) (forward : CSPForward) : Slots :=
  { t.put slot { forward with isFree := true } with
    free := spId slot :: t.free
    pushed := spId slot :: t.pushed }

def unregister (t : Slots) (slot : Nat) (forward : CSPForward) : Slots :=
  if forward.isFree then t
  else if forward.inExec then t.put slot { forward with toDelete := true }
  else t.release slot forward

def settle (t : Slots) (slot : Nat) (forward : CSPForward) : Slots :=
  if forward.toDelete then
    (t.put slot { forward with toDelete := false }).unregister slot
      { forward with toDelete := false }
  else t

def forget (t : Slots) (id : Int) : Slots :=
  { t with outstanding := t.outstanding.filter fun other => other ≠ id }

inductive Step (t : Slots) : Event → Slots → Prop where
  | stay (event : Event) : Step t event t
  | register (event : Event) (forward : CSPForward) (hdelete : forward.toDelete = false)
      (hexec : forward.inExec = false) (hfree : forward.isFree = false)
      (hfound : forward.hasFunc = true ∨ t.free = []) :
      Step t event (t.register forward)
  | unregister (slot : Nat) (forward : CSPForward) (hslot : t.forwards[slot]? = some forward) :
      Step t (.unregisterSPForward (spId slot)) ((t.unregister slot forward).forget (spId slot))
  | forget (id : Int) (hid : ∀ slot forward, id = spId slot →
      t.forwards[slot]? = some forward → forward.isFree = true) :
      Step t (.unregisterSPForward id) (t.forget id)
  | start (event : Event) (slot : Nat) (forward : CSPForward)
      (hslot : t.forwards[slot]? = some forward) (hfree : forward.isFree = false)
      (hdelete : forward.toDelete = false) :
      Step t event
        { t.put slot { forward with inExec := true } with active := spId slot :: t.active }
  | skip (event : Event) (slot : Nat) (forward : CSPForward)
      (hslot : t.forwards[slot]? = some forward) : Step t event (t.settle slot forward)
  | finish (event : Event) (slot : Nat) (forward : CSPForward) (rest : List Int)
      (hslot : t.forwards[slot]? = some forward) (hactive : t.active = spId slot :: rest) :
      Step t event
        (({ t with active := rest }.put slot { forward with inExec := false }).settle slot
          { forward with inExec := false })

end Slots

/-- The calls that leave the slots in order: a recycled slot is registered with a
function that exists, and an id to unregister is not that of an ordinary forward whose
index is also that of a slot in use. -/
def Orderly (s : State) : Event → Prop
  | .registerSPForwardByName found _ _ => found = none → s.freeSPForwards = []
  | .unregisterSPForward id => id % 2 = 1 ∨ s.isIdValid id = false ∨
      ∀ forward ∈ s.spForwards[slotOf id]?, forward.isFree = true
  | _ => True

instance (s : State) (event : Event) : Decidable (Orderly s event) := by
  cases event <;> unfold Orderly <;> infer_instance

namespace State

variable {s s' : State}

theorem registerSPForward_slots (s : State) (forward : CSPForward) :
    (s.registerSPForward forward).slots = s.slots.register forward := by
  unfold registerSPForward Slots.register
  cases hfree : s.freeSPForwards with
  | nil =>
      simp only [slots, hfree]
      split
      · rfl
      · rw [← hfree]
  | cons id rest =>
      simp only [slots, hfree]
      split
      · rfl
      · rw [← hfree]
        rfl

theorem isIdValid_spId {slot : Nat} : s.isIdValid (spId slot) = true ↔ slot < s.spForwards.length := by
  have hpos : 0 ≤ spId slot := by simp only [spId]; omega
  simp [isIdValid, spId_odd, hpos]

theorem slot_of_valid {id : Int} (hvalid : s.isIdValid id = true) (hodd : id % 2 = 1) :
    ∃ slot, id = spId slot ∧ slot < s.spForwards.length := by
  have hpos : 0 ≤ id := by
    simp only [isIdValid, Bool.and_eq_true, decide_eq_true_eq] at hvalid
    exact hvalid.1
  obtain hid := spId_slotOf hpos hodd
  rw [← hid] at hvalid
  exact ⟨slotOf id, hid.symm, isIdValid_spId.mp hvalid⟩

theorem unregisterSPForward_slots {slot : Nat} {forward : CSPForward}
    (hslot : s.spForwards[slot]? = some forward)
    (hstep : s.unregisterSPForward (spId slot) = some s') :
    s'.slots = s.slots.unregister slot forward := by
  have hvalid := isIdValid_spId.mpr (List.getElem?_eq_some_iff.mp hslot).1
  simp only [unregisterSPForward, hvalid, if_true, slotOf_spId, hslot, Option.bind_eq_bind,
    Option.bind_some] at hstep
  unfold Slots.unregister
  split at hstep
  case isTrue hfree =>
    rw [if_pos hfree]
    exact Option.some.inj hstep ▸ rfl
  case isFalse hfree =>
    rw [if_neg hfree]
    split at hstep
    case isTrue hexec =>
      rw [if_pos hexec]
      exact Option.some.inj hstep ▸ rfl
    case isFalse hexec =>
      rw [if_neg hexec]
      exact Option.some.inj hstep ▸ rfl

theorem leaveSP_slots {slot : Nat} {forward : CSPForward} {result : Cell}
    (hslot : s.spForwards[slot]? = some forward)
    (hstep : s.leaveSP (spId slot) result = some s') :
    s'.slots = s.slots.settle slot forward := by
  simp only [leaveSP, slotOf_spId, hslot, Option.bind_eq_bind, Option.bind_some] at hstep
  unfold Slots.settle
  split at hstep
  case isTrue hdelete =>
    rw [if_pos hdelete]
    obtain ⟨middle, hmiddle, hleave⟩ := Option.bind_eq_some_iff.mp hstep
    have hlt := (List.getElem?_eq_some_iff.mp hslot).1
    have hslots := unregisterSPForward_slots
      (show (s.spForwards.set slot { forward with toDelete := false })[slot]? =
        some { forward with toDelete := false } by simp [hlt]) hmiddle
    rw [← Option.some.inj hleave]
    exact hslots
  case isFalse hdelete =>
    rw [if_neg hdelete]
    exact Option.some.inj hstep ▸ rfl

theorem registerSPForward_keeps (s : State) (forward : CSPForward) :
    (s.registerSPForward forward).tmpArrays = s.tmpArrays ∧
      (s.registerSPForward forward).activations = s.activations := by
  unfold registerSPForward
  split
  · dsimp only
    split <;> exact ⟨rfl, rfl⟩
  · split <;> exact ⟨rfl, rfl⟩

theorem unregisterSPForward_keeps {id : Int} (hstep : s.unregisterSPForward id = some s') :
    s'.tmpArrays = s.tmpArrays ∧ s'.activations = s.activations := by
  unfold unregisterSPForward at hstep
  split at hstep
  · obtain ⟨forward, -, hstep⟩ := Option.bind_eq_some_iff.mp hstep
    repeat' split at hstep
    all_goals exact Option.some.inj hstep ▸ ⟨rfl, rfl⟩
  · exact Option.some.inj hstep ▸ ⟨rfl, rfl⟩

theorem leaveSP_keeps {id : Int} {result : Cell} (hstep : s.leaveSP id result = some s') :
    s'.tmpArrays = s.tmpArrays ∧ s'.activations = s.activations := by
  obtain ⟨forward, -, hstep⟩ := Option.bind_eq_some_iff.mp hstep
  split at hstep
  · obtain ⟨middle, hmiddle, hleave⟩ := Option.bind_eq_some_iff.mp hstep
    have hsame := unregisterSPForward_keeps hmiddle
    rw [← Option.some.inj hleave]
    exact hsame
  · exact Option.some.inj hstep ▸ ⟨rfl, rfl⟩

def Called (s : State) : Prop :=
  ∀ activation ∈ s.activations,
    0 ≤ activation.id ∧ (activation.call = none → activation.id % 2 = 0)

theorem enter_slots {lookup : State → Lookup} {id : Int} {args : List Arg} {executable : Bool}
    (event : Event) (hcalled : s.Called) (hvalid : s.isIdValid id = true)
    (hstep : s.enter lookup id args executable = some s') :
    s.slots.Step event s'.slots ∧ s'.Called := by
  have hpos : 0 ≤ id := by
    simp only [isIdValid, Bool.and_eq_true, decide_eq_true_eq] at hvalid
    exact hvalid.1
  unfold enter at hstep
  split at hstep
  case isTrue hodd =>
    obtain ⟨slot, rfl, -⟩ := slot_of_valid hvalid hodd
    obtain ⟨forward, hslot, hstep⟩ := Option.bind_eq_some_iff.mp hstep
    rw [slotOf_spId] at hslot
    split at hstep
    case isTrue =>
      rw [leaveSP_slots hslot hstep, Called, (leaveSP_keeps hstep).2]
      exact ⟨.skip event slot forward hslot, hcalled⟩
    case isFalse hrun =>
      simp only [Bool.or_eq_true, Bool.not_eq_true', not_or, Bool.not_eq_true] at hrun
      obtain ⟨passed, -, hstep⟩ := Option.bind_eq_some_iff.mp hstep
      rw [← Option.some.inj hstep]
      constructor
      · have hstart : s.slots.Step event _ :=
          .start event slot forward hslot hrun.1.1 hrun.1.2.2
        convert hstart using 1
        simp [slots, Slots.put, spId_odd]
      · exact List.forall_mem_cons.mpr ⟨⟨hpos, fun hnone => by cases hnone⟩, hcalled⟩
  case isFalse heven =>
    rw [← Option.some.inj hstep]
    constructor
    · convert Slots.Step.stay event using 1
      simp [slots, heven]
    · exact List.forall_mem_cons.mpr ⟨⟨hpos, fun _ => Int.emod_two_ne_one.mp heven⟩, hcalled⟩

theorem nextPlugin_slots {lookup : State → Lookup} {activation : Activation}
    {rest : List Activation} {executable : Bool} (event : Event) (hcalled : s.Called)
    (hactive : s.activations = activation :: rest) (hcall : activation.call = none)
    (hstep : s.nextPlugin lookup activation rest executable = some s') :
    s.slots.Step event s'.slots ∧ s'.Called := by
  have hrest : ∀ other ∈ rest, 0 ≤ other.id ∧ (other.call = none → other.id % 2 = 0) :=
    fun other hother => hcalled other (by simp [hactive, hother])
  obtain ⟨hpos, heven⟩ := hcalled activation (by simp [hactive])
  have heven := heven hcall
  obtain ⟨forward, -, hstep⟩ := Option.bind_eq_some_iff.mp hstep
  split at hstep
  · split at hstep
    · obtain ⟨passed, -, hstep⟩ := Option.bind_eq_some_iff.mp hstep
      rw [← Option.some.inj hstep]
      refine ⟨?_, ?_⟩
      · convert Slots.Step.stay event using 1
        simp [slots, hactive, heven]
      · exact List.forall_mem_cons.mpr ⟨⟨hpos, fun _ => heven⟩, hrest⟩
    · rw [← Option.some.inj hstep]
      refine ⟨?_, ?_⟩
      · convert Slots.Step.stay event using 1
        simp [slots, hactive, heven]
      · exact List.forall_mem_cons.mpr ⟨⟨hpos, fun _ => heven⟩, hrest⟩
  · rw [← Option.some.inj hstep]
    refine ⟨?_, hrest⟩
    convert Slots.Step.stay event using 1
    simp [slots, leave, hactive, heven]

theorem callbackReturn_slots {lookup : State → Lookup} {activation : Activation}
    {rest : List Activation} {contents : List (List Cell)} {retVal : Cell} (event : Event)
    (hcalled : s.Called) (hactive : s.activations = activation :: rest)
    (hstep : s.callbackReturn lookup activation rest contents retVal = some s') :
    s.slots.Step event s'.slots ∧ s'.Called := by
  have hrest : ∀ other ∈ rest, 0 ≤ other.id ∧ (other.call = none → other.id % 2 = 0) :=
    fun other hother => hcalled other (by simp [hactive, hother])
  obtain ⟨hpos, -⟩ := hcalled activation (by simp [hactive])
  unfold callbackReturn at hstep
  split at hstep
  case isTrue hodd =>
    obtain ⟨forward, hslot, hstep⟩ := Option.bind_eq_some_iff.mp hstep
    obtain ⟨memory, -, hstep⟩ := Option.bind_eq_some_iff.mp hstep
    have hid := spId_slotOf hpos hodd
    rw [← hid, slotOf_spId] at hstep
    have hlt := (List.getElem?_eq_some_iff.mp hslot).1
    have hslots := leaveSP_slots
      (show (s.spForwards.set (slotOf activation.id) { forward with inExec := false })[
        slotOf activation.id]? = some { forward with inExec := false } by simp [hlt]) hstep
    rw [hslots, Called, (leaveSP_keeps hstep).2]
    refine ⟨?_, hrest⟩
    refine .finish event (slotOf activation.id) forward
      ((rest.map Activation.id).filter fun id => id % 2 = 1) hslot ?_
    simp [slots, hactive, hodd, hid]
  case isFalse heven =>
    obtain ⟨forward, -, hstep⟩ := Option.bind_eq_some_iff.mp hstep
    obtain ⟨memory, -, hstep⟩ := Option.bind_eq_some_iff.mp hstep
    dsimp only at hstep
    split at hstep
    · rw [← Option.some.inj hstep]
      refine ⟨?_, hrest⟩
      convert Slots.Step.stay event using 1
      simp [slots, leave, hactive, heven]
    · rw [← Option.some.inj hstep]
      refine ⟨?_, ?_⟩
      · convert Slots.Step.stay event using 1
        simp [slots, hactive, heven]
      · exact List.forall_mem_cons.mpr ⟨⟨hpos, fun _ => Int.emod_two_ne_one.mp heven⟩, hrest⟩

theorem unregister_step {id : Int} (horderly : Orderly s (.unregisterSPForward id))
    (hstep : s.unregisterSPForward id = some s') :
    s.slots.Step (.unregisterSPForward id) (s'.slots.forget id) := by
  cases hvalid : s.isIdValid id with
  | false =>
      obtain rfl : s = s' := by simpa [unregisterSPForward, hvalid] using hstep
      refine .forget id fun slot forward hid hslot => ?_
      have hlt := (List.getElem?_eq_some_iff.mp hslot).1
      have htrue := isIdValid_spId.mpr hlt
      rw [← hid, hvalid] at htrue
      cases htrue
  | true =>
      by_cases hodd : id % 2 = 1
      · obtain ⟨slot, rfl, hlt⟩ := slot_of_valid hvalid hodd
        have hslot := List.getElem?_eq_getElem hlt
        rw [unregisterSPForward_slots hslot hstep]
        exact .unregister slot _ hslot
      · obtain hodd' | hinvalid | hfree := horderly
        · exact absurd hodd' hodd
        · simp [hvalid] at hinvalid
        · simp only [unregisterSPForward, hvalid, if_true] at hstep
          obtain ⟨forward, hslot, hstep⟩ := Option.bind_eq_some_iff.mp hstep
          rw [if_pos (hfree forward hslot)] at hstep
          obtain rfl := Option.some.inj hstep
          exact .forget id fun slot _ hid _ => absurd (hid ▸ spId_odd slot) hodd

theorem step_slots {lookup : State → Lookup} {event : Event} (hcalled : s.Called)
    (horderly : Orderly s event) (hstep : s.stepWith lookup event = some s') :
    s.slots.Step event s'.slots ∧ s'.Called := by
  cases event with
  | registerForward forward =>
      simp only [stepWith, Option.ite_none_right_eq_some, Option.some.injEq] at hstep
      exact hstep.2 ▸ ⟨.stay _, hcalled⟩
  | registerSPForward func amx paramTypes =>
      simp only [stepWith, Option.ite_none_right_eq_some, Option.some.injEq] at hstep
      rw [← hstep.2, registerSPForward_slots, Called, (registerSPForward_keeps _ _).2]
      exact ⟨.register _ _ rfl rfl rfl (.inl rfl), hcalled⟩
  | registerSPForwardByName found amx paramTypes =>
      simp only [stepWith, Option.ite_none_right_eq_some, Option.some.injEq] at hstep
      rw [← hstep.2, registerSPForward_slots, Called, (registerSPForward_keeps _ _).2]
      refine ⟨.register _ _ rfl rfl rfl ?_, hcalled⟩
      cases found with
      | none => exact .inr (horderly rfl)
      | some index => exact .inl rfl
  | duplicateSPForward id =>
      simp only [stepWith, Option.ite_none_right_eq_some] at hstep
      obtain ⟨-, hstep⟩ := hstep
      unfold duplicateSPForward at hstep
      split at hstep
      · obtain ⟨forward, -, hstep⟩ := Option.bind_eq_some_iff.mp hstep
        split at hstep
        · exact Option.some.inj hstep ▸ ⟨.stay _, hcalled⟩
        · rw [← Option.some.inj hstep, registerSPForward_slots, Called,
            (registerSPForward_keeps _ _).2]
          exact ⟨.register _ _ rfl rfl rfl (.inl rfl), hcalled⟩
      · exact Option.some.inj hstep ▸ ⟨.stay _, hcalled⟩
  | unregisterSPForward id =>
      simp only [stepWith, Option.ite_none_right_eq_some] at hstep
      obtain ⟨middle, hmiddle, rfl⟩ := Option.map_eq_some_iff.mp hstep.2
      have hsame := (unregisterSPForward_keeps hmiddle).2
      exact ⟨unregister_step horderly hmiddle, by simpa [Called, hsame] using hcalled⟩
  | prepareArray array =>
      simp only [stepWith, Option.ite_none_right_eq_some, Option.some.injEq] at hstep
      rw [← hstep.2]
      unfold prepareArray
      split
      · exact ⟨.stay _, hcalled⟩
      · exact ⟨.stay _, hcalled⟩
  | executeForwards id params executable =>
      simp only [stepWith, Option.ite_none_right_eq_some] at hstep
      obtain ⟨-, hstep⟩ := hstep
      split at hstep
      case isTrue hvalid =>
        obtain ⟨args, -, hstep⟩ := Option.bind_eq_some_iff.mp hstep
        exact enter_slots _ hcalled hvalid hstep
      case isFalse => exact Option.some.inj hstep ▸ ⟨.stay _, hcalled⟩
  | nextPlugin executable =>
      cases hactive : s.activations with
      | nil => simp [stepWith, hactive] at hstep
      | cons activation rest =>
          simp only [stepWith, hactive, Option.ite_none_right_eq_some,
            Option.isNone_iff_eq_none] at hstep
          exact nextPlugin_slots _ hcalled hactive hstep.1 hstep.2
  | callbackReturn contents retVal =>
      cases hactive : s.activations with
      | nil => simp [stepWith, hactive] at hstep
      | cons activation rest =>
          simp only [stepWith, hactive, Option.ite_none_right_eq_some] at hstep
          exact callbackReturn_slots _ hcalled hactive hstep.2
  | hostWrite memory =>
      simp only [stepWith, Option.ite_none_right_eq_some, Option.some.injEq] at hstep
      exact hstep.2 ▸ ⟨.stay _, hcalled⟩

end State

end AmxModC.Forward
