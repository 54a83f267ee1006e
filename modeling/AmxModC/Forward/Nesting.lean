import AmxModC.Forward.Registry

namespace AmxModC.Forward

open Foundation

/-! Executions in progress against the free stack. -/

/-- A slot with `running` executions in progress, `handed` registrations made in it and
`pushed` releases; `registered` says that its id is in use. -/
structure CSPForward.Fits (forward : CSPForward) (running : Nat) (registered : Prop)
    (handed pushed : Nat) : Prop where
  marked : forward.inExec = true → 0 < running
  deferred : forward.toDelete = true →
    running = 1 ∧ forward.inExec = true ∧ forward.isFree = false
  idle : forward.isFree = true → running = 0
  kept : forward.isFree = false → forward.toDelete = true ∨ registered
  balance : handed = pushed + if forward.isFree = true then 0 else 1

namespace Slots

variable {t t' : Slots} {slot : Nat} {forward : CSPForward}

def Fits (t : Slots) (slot : Nat) (forward : CSPForward) : Prop :=
  forward.Fits (t.active.count (spId slot)) (spId slot ∈ t.outstanding)
    (t.handedOut.count (spId slot)) (t.pushed.count (spId slot))

structure Guarded (t : Slots) : Prop where
  sound : t.Sound
  fits : ∀ {slot : Nat} {forward : CSPForward}, t.forwards[slot]? = some forward →
    t.Fits slot forward
  known : ∀ {id : Int}, id ∈ t.active → ∃ slot < t.forwards.length, id = spId slot
  unborn : ∀ {slot : Nat}, t.forwards.length ≤ slot →
    t.handedOut.count (spId slot) = 0 ∧ t.pushed.count (spId slot) = 0

structure AgreesBut (slot : Nat) (t t' : Slots) : Prop where
  length : t'.forwards.length = t.forwards.length
  forwards : ∀ {other : Nat}, other ≠ slot → t'.forwards[other]? = t.forwards[other]?
  active : ∀ {id : Int}, id ≠ spId slot → t'.active.count id = t.active.count id
  handedOut : ∀ {id : Int}, id ≠ spId slot → t'.handedOut.count id = t.handedOut.count id
  pushed : ∀ {id : Int}, id ≠ spId slot → t'.pushed.count id = t.pushed.count id
  outstanding : ∀ {id : Int}, id ≠ spId slot → (id ∈ t'.outstanding ↔ id ∈ t.outstanding)

namespace Guarded

theorem init : Slots.Guarded ⟨[], [], [], [], [], []⟩ where
  sound := Sound.init
  fits := by simp
  known := by simp
  unborn := by simp

theorem of_slot (h : t.Guarded) (hsound : t'.Sound) (hslot : t.forwards[slot]? = some forward)
    (hagrees : AgreesBut slot t t') {forward' : CSPForward}
    (hself : t'.forwards[slot]? = some forward') (hfits : t'.Fits slot forward') :
    t'.Guarded where
  sound := hsound
  fits := by
    intro other found hother
    by_cases hne : other = slot
    · subst hne
      obtain rfl := Option.some.inj (hself.symm.trans hother)
      exact hfits
    · have hid : spId other ≠ spId slot := fun heq => hne (spId_inj heq)
      have hold := h.fits ((hagrees.forwards hne).symm.trans hother)
      rw [Fits, hagrees.active hid, hagrees.handedOut hid, hagrees.pushed hid,
        hagrees.outstanding hid]
      exact hold
  known := by
    intro id hid
    rw [hagrees.length]
    by_cases hne : id = spId slot
    · exact ⟨slot, (List.getElem?_eq_some_iff.mp hslot).1, hne⟩
    · rw [← List.count_pos_iff, hagrees.active hne, List.count_pos_iff] at hid
      exact h.known hid
  unborn := by
    intro other hother
    rw [hagrees.length] at hother
    have hlt := (List.getElem?_eq_some_iff.mp hslot).1
    have hid : spId other ≠ spId slot := fun heq => by
      have := spId_inj heq
      omega
    rw [hagrees.handedOut hid, hagrees.pushed hid]
    exact h.unborn hother

end Guarded

theorem put_put (t : Slots) (slot : Nat) (forward forward' : CSPForward) :
    (t.put slot forward).put slot forward' = t.put slot forward' := by
  simp [put]

theorem put_same (hslot : t.forwards[slot]? = some forward) : t.put slot forward = t := by
  have hset : t.forwards.set slot forward = t.forwards := by
    refine List.ext_getElem? fun other => ?_
    by_cases hne : slot = other
    · subst hne
      rw [hslot]
      exact put_self hslot forward
    · rw [List.getElem?_set_ne hne]
  simp [put, hset]

theorem agreesBut_put (t : Slots) (slot : Nat) (forward : CSPForward) :
    AgreesBut slot t (t.put slot forward) where
  length := by simp [put]
  forwards := fun hne => put_other hne forward
  active := fun _ => rfl
  handedOut := fun _ => rfl
  pushed := fun _ => rfl
  outstanding := fun _ => Iff.rfl

theorem agreesBut_release (t : Slots) (slot : Nat) (forward : CSPForward) :
    AgreesBut slot t (t.release slot forward) where
  length := by simp [release, put]
  forwards := fun hne => put_other hne _
  active := fun _ => rfl
  handedOut := fun _ => rfl
  pushed := fun hne => List.count_cons_of_ne hne.symm
  outstanding := fun _ => Iff.rfl

theorem agreesBut_forget (t : Slots) (slot : Nat) : AgreesBut slot t (t.forget (spId slot)) where
  length := rfl
  forwards := fun _ => rfl
  active := fun _ => rfl
  handedOut := fun _ => rfl
  pushed := fun _ => rfl
  outstanding := fun hne => by simp [forget, hne]

theorem AgreesBut.trans {t'' : Slots} (h : AgreesBut slot t t') (h' : AgreesBut slot t' t'') :
    AgreesBut slot t t'' where
  length := h'.length.trans h.length
  forwards := fun hne => (h'.forwards hne).trans (h.forwards hne)
  active := fun hne => (h'.active hne).trans (h.active hne)
  handedOut := fun hne => (h'.handedOut hne).trans (h.handedOut hne)
  pushed := fun hne => (h'.pushed hne).trans (h.pushed hne)
  outstanding := fun hne => (h'.outstanding hne).trans (h.outstanding hne)

theorem agreesBut_unregister (t : Slots) (slot : Nat) (forward : CSPForward) :
    AgreesBut slot t (t.unregister slot forward) := by
  unfold unregister
  split
  · exact ⟨rfl, fun _ => rfl, fun _ => rfl, fun _ => rfl, fun _ => rfl, fun _ => Iff.rfl⟩
  split
  · exact t.agreesBut_put slot _
  · exact t.agreesBut_release slot forward

end Slots

/-- An unregister that finds the slot executing comes inside its only execution, before
any execution of it that was nested in that one has returned. -/
def Timely (s : State) : Event → Prop
  | .unregisterSPForward id =>
      ∀ forward ∈ s.spForwards[slotOf id]?, forward.isFree = false →
        id ∈ s.activations.map Activation.id →
          (s.activations.map Activation.id).count id = 1 ∧ forward.inExec = true
  | _ => True

instance (s : State) : (event : Event) → Decidable (Timely s event)
  | .unregisterSPForward id => inferInstanceAs
      (Decidable (∀ forward ∈ s.spForwards[slotOf id]?, forward.isFree = false →
        id ∈ s.activations.map Activation.id →
          (s.activations.map Activation.id).count id = 1 ∧ forward.inExec = true))
  | .registerForward _ | .registerSPForward .. | .registerSPForwardByName ..
  | .duplicateSPForward _ | .prepareArray _ | .executeForwards .. | .nextPlugin _
  | .callbackReturn .. | .hostWrite _ => isTrue trivial

namespace Slots

variable {t t' : Slots} {slot : Nat} {forward : CSPForward}

namespace Guarded

theorem forget (h : t.Guarded) (id : Int)
    (hid : ∀ slot forward, id = spId slot → t.forwards[slot]? = some forward →
      forward.isFree = true) : (t.forget id).Guarded where
  sound := h.sound.forget id
  fits := by
    intro slot forward hslot
    obtain ⟨hmarked, hdeferred, hidle, hkept, hbalance⟩ := h.fits hslot
    refine ⟨hmarked, hdeferred, hidle, fun hbusy => ?_, hbalance⟩
    refine (hkept hbusy).imp_right fun hmem => List.mem_filter.mpr ⟨hmem, ?_⟩
    simp only [decide_eq_true_eq]
    intro heq
    simp [hid slot forward heq.symm hslot] at hbusy
  known := h.known
  unborn := h.unborn

theorem unregister (h : t.Guarded) (hslot : t.forwards[slot]? = some forward)
    (htimely : forward.isFree = false → spId slot ∈ t.active →
      t.active.count (spId slot) = 1 ∧ forward.inExec = true) :
    ((t.unregister slot forward).forget (spId slot)).Guarded := by
  have hsound : ((t.unregister slot forward).forget (spId slot)).Sound := by
    rw [unregister_forget]
    exact (h.sound.forget _).unregister hslot (t.not_mem_forget _)
  have hagrees := (t.agreesBut_unregister slot forward).trans (agreesBut_forget _ slot)
  obtain ⟨hmarked, hdeferred, hidle, -, hbalance⟩ := h.fits hslot
  unfold Slots.unregister at hsound hagrees ⊢
  split at hsound
  case isTrue hfree =>
    rw [if_pos hfree] at hagrees ⊢
    refine h.of_slot hsound hslot hagrees hslot ⟨hmarked, hdeferred, hidle, ?_, hbalance⟩
    exact fun hbusy => by simp [hfree] at hbusy
  case isFalse hfree =>
    have hbusy : forward.isFree = false := by simpa using hfree
    rw [if_neg hfree] at hagrees ⊢
    split at hsound
    case isTrue hexec =>
      rw [if_pos hexec] at hagrees ⊢
      have hactive := List.count_pos_iff.mp (hmarked hexec)
      refine h.of_slot hsound hslot hagrees (put_self hslot _)
        ⟨hmarked, fun _ => ?_, hidle, fun _ => .inl rfl, hbalance⟩
      exact ⟨(htimely hbusy hactive).1, hexec, hbusy⟩
    case isFalse hexec =>
      rw [if_neg hexec] at hagrees ⊢
      have hnone : t.active.count (spId slot) = 0 := by
        by_contra hpos
        exact hexec (htimely hbusy (List.count_pos_iff.mp (by omega))).2
      refine h.of_slot hsound hslot hagrees (put_self hslot _)
        ⟨fun hmark => absurd hmark hexec, fun hdelete => ?_, fun _ => hnone,
          fun hfree => by simp at hfree, ?_⟩
      · exact absurd (hdeferred hdelete).2.1 hexec
      · simp only [hfree, Slots.forget, Slots.release, Slots.put] at hbalance ⊢
        simpa using hbalance

theorem start (h : t.Guarded) (hslot : t.forwards[slot]? = some forward)
    (hfree : forward.isFree = false) (hdelete : forward.toDelete = false) :
    Slots.Guarded
      { t.put slot { forward with inExec := true } with active := spId slot :: t.active } := by
  have hput : (t.put slot { forward with inExec := true }).Sound :=
    h.sound.put hslot rfl fun _ => hdelete
  obtain ⟨-, -, -, hkept, hbalance⟩ := h.fits hslot
  refine h.of_slot (hput.of_same rfl rfl rfl) hslot ?_ (put_self hslot _)
    ⟨fun _ => ?_, fun hdeferred => ?_, fun hisFree => ?_, hkept, hbalance⟩
  · have hagrees := t.agreesBut_put slot { forward with inExec := true }
    exact ⟨hagrees.length, hagrees.forwards, fun hne => List.count_cons_of_ne hne.symm,
      hagrees.handedOut, hagrees.pushed, hagrees.outstanding⟩
  · simp
  · simp [hdelete] at hdeferred
  · simp [hfree] at hisFree

theorem settle (h : t.Guarded) (hslot : t.forwards[slot]? = some forward) :
    (t.settle slot forward).Guarded := by
  have hsame : t.settle slot forward = t := by
    unfold Slots.settle
    split
    case isFalse => rfl
    case isTrue hdelete =>
      obtain ⟨-, hexec, hbusy⟩ := (h.fits hslot).deferred hdelete
      have hforward : ({ forward with inExec := true, toDelete := true, isFree := false } :
          CSPForward) = forward := by
        cases forward
        simp_all
      simp only [Slots.unregister, hbusy, hexec, Bool.false_eq_true, if_false, if_true]
      rw [put_put, hforward, put_same hslot]
  exact hsame.symm ▸ h

theorem finish (h : t.Guarded) (hslot : t.forwards[slot]? = some forward) {rest : List Int}
    (hactive : t.active = spId slot :: rest) :
    Slots.Guarded
      (({ t with active := rest }.put slot { forward with inExec := false }).settle slot
        { forward with inExec := false }) := by
  have hrest : Slots.Sound { t with active := rest } := h.sound.of_same rfl rfl rfl
  have hput : ({ t with active := rest }.put slot { forward with inExec := false }).Sound :=
    hrest.put hslot rfl (show spId slot ∈ t.outstanding → forward.toDelete = false from
      h.sound.toDelete_of_outstanding hslot)
  have hsound := hput.settle (put_self hslot _)
  obtain ⟨-, hdeferred, hidle, hkept, hbalance⟩ := h.fits hslot
  have hcount : t.active.count (spId slot) = rest.count (spId slot) + 1 := by simp [hactive]
  have hbusy : forward.isFree = false := by
    by_contra hfree
    have := hidle (by simpa using hfree)
    omega
  have hpopped : AgreesBut slot t
      ({ t with active := rest }.put slot { forward with inExec := false }) := by
    have hagrees := t.agreesBut_put slot { forward with inExec := false }
    refine ⟨hagrees.length, hagrees.forwards, fun hne => ?_, hagrees.handedOut, hagrees.pushed,
      hagrees.outstanding⟩
    rw [hactive, List.count_cons_of_ne hne.symm]
    rfl
  obtain ⟨paramTypes, amx, func, hasFunc, inExec, toDelete, isFree⟩ := forward
  obtain rfl : isFree = false := hbusy
  cases toDelete with
  | false =>
      refine h.of_slot hsound hslot hpopped (put_self hslot _)
        ⟨nofun, fun hdeferred => ?_, fun hfree => ?_, fun _ => ?_, hbalance⟩
      · simp at hdeferred
      · simp at hfree
      · exact .inr ((hkept rfl).resolve_left (by simp))
  | true =>
      obtain ⟨hone, -, -⟩ := hdeferred rfl
      refine h.of_slot hsound hslot
        (hpopped.trans ((agreesBut_put _ slot _).trans (agreesBut_release _ slot _)))
        (put_self (put_self (put_self hslot _) _) _)
        ⟨nofun, nofun, fun _ => ?_, nofun, ?_⟩
      · change rest.count (spId slot) = 0
        omega
      · simpa [Slots.settle, Slots.unregister, Slots.release, Slots.put] using hbalance

theorem recycle (h : t.Guarded) (hslot : t.forwards[slot]? = some forward) {rest : List Int}
    (hfree : t.free = spId slot :: rest) {forward' : CSPForward}
    (hbusy : forward'.isFree = false) (hkeep : forward'.toDelete = false)
    (hexec : forward'.inExec = false) :
    (({ t with free := rest }.put slot forward').handOut (spId slot)).Guarded := by
  have hisFree : forward.isFree = true := by
    obtain ⟨other, found, hother, hisFree, hid⟩ :=
      h.sound.free_iff.mp (hfree ▸ List.mem_cons_self)
    obtain rfl := spId_inj hid
    obtain rfl := Option.some.inj (hslot.symm.trans hother)
    exact hisFree
  have hbalance := (h.fits hslot).balance
  rw [hisFree] at hbalance
  refine h.of_slot (h.sound.recycle hslot hfree hbusy hkeep) hslot ?_ (put_self hslot forward')
    ⟨fun hmark => ?_, fun hdelete => ?_, fun hidle => ?_, fun _ => .inr List.mem_cons_self, ?_⟩
  · exact ⟨by simp [handOut, put], fun hne => put_other hne forward', fun _ => rfl,
      fun hne => List.count_cons_of_ne hne.symm, fun _ => rfl,
      fun hne => by simp [handOut, put, hne]⟩
  · simp [hexec] at hmark
  · simp [hkeep] at hdelete
  · simp [hbusy] at hidle
  · simp only [handOut, put, List.count_cons_self, hbusy] at hbalance ⊢
    simpa using hbalance

theorem append (h : t.Guarded) (hbusy : forward.isFree = false)
    (hkeep : forward.toDelete = false) (hexec : forward.inExec = false) :
    ({ t with forwards := t.forwards ++ [forward] }.handOut (spId t.forwards.length)).Guarded where
  sound := h.sound.append hbusy hkeep
  fits := by
    intro slot found hslot
    have hlt := (List.getElem?_eq_some_iff.mp hslot).1
    simp only [handOut, List.length_append, List.length_singleton] at hlt
    change (t.forwards ++ [forward])[slot]? = some found at hslot
    rcases Nat.lt_succ_iff_lt_or_eq.mp hlt with hold | rfl
    · rw [List.getElem?_append_left hold] at hslot
      obtain ⟨hmarked, hdeferred, hidle, hkept, hbalance⟩ := h.fits hslot
      have hne : spId t.forwards.length ≠ spId slot := fun heq => by
        have := spId_inj heq
        omega
      refine ⟨hmarked, hdeferred, hidle, fun hbusy => ?_, ?_⟩
      · exact (hkept hbusy).imp_right (List.mem_cons_of_mem _)
      · change (spId t.forwards.length :: t.handedOut).count (spId slot) = _
        rw [List.count_cons_of_ne hne]
        exact hbalance
    · simp only [List.getElem?_concat_length, Option.some.injEq] at hslot
      subst hslot
      obtain ⟨hhanded, hpushed⟩ := h.unborn le_rfl
      refine ⟨fun hmark => ?_, fun hdelete => ?_, fun hidle => ?_,
        fun _ => .inr List.mem_cons_self, ?_⟩
      · simp [hexec] at hmark
      · simp [hkeep] at hdelete
      · simp [hbusy] at hidle
      · simp [handOut, hhanded, hpushed, hbusy]
  known := by
    intro id hid
    obtain ⟨slot, hlt, rfl⟩ := h.known hid
    exact ⟨slot, by simp only [handOut, List.length_append]; omega, rfl⟩
  unborn := by
    intro slot hle
    simp only [handOut, List.length_append, List.length_singleton] at hle
    have hne : spId t.forwards.length ≠ spId slot := fun heq => by
      have := spId_inj heq
      omega
    obtain ⟨hhanded, hpushed⟩ := h.unborn (show t.forwards.length ≤ slot by omega)
    refine ⟨?_, hpushed⟩
    change (spId t.forwards.length :: t.handedOut).count (spId slot) = 0
    rw [List.count_cons_of_ne hne]
    exact hhanded

theorem register (h : t.Guarded) (hdelete : forward.toDelete = false)
    (hexec : forward.inExec = false) (hfree : forward.isFree = false)
    (hfound : forward.hasFunc = true ∨ t.free = []) : (t.register forward).Guarded := by
  unfold Slots.register
  cases hstack : t.free with
  | nil =>
      dsimp only
      split
      · have happend := h.append hfree hdelete hexec
        rwa [← hstack]
      · exact h
  | cons id rest =>
      obtain ⟨slot, old, hslot, -, rfl⟩ := h.sound.free_iff.mp (hstack ▸ List.mem_cons_self)
      dsimp only
      rw [if_pos (hfound.resolve_right (by simp [hstack])), slotOf_spId]
      exact h.recycle hslot hstack hfree hdelete hexec

end Guarded

end Slots

namespace State

variable {s s' : State}

theorem count_active {id : Int} (hodd : id % 2 = 1) :
    s.slots.active.count id = (s.activations.map Activation.id).count id := by
  rw [slots, List.count_filter (by simpa using hodd)]

theorem guarded_step {lookup : State → Lookup} {event : Event} (hcalled : s.Called)
    (h : s.slots.Guarded) (horderly : Orderly s event) (htimely : Timely s event)
    (hstep : s.stepWith lookup event = some s') : s'.Called ∧ s'.slots.Guarded := by
  obtain ⟨htook, hcalled'⟩ := step_slots hcalled horderly hstep
  refine ⟨hcalled', ?_⟩
  generalize hslots : s'.slots = t' at htook
  cases htook with
  | stay => exact h
  | register _ forward hdelete hexec hfree hfound => exact h.register hdelete hexec hfree hfound
  | unregister slot forward hslot =>
      refine h.unregister hslot fun hbusy hmem => ?_
      rw [count_active (spId_odd slot)]
      refine htimely forward (by rw [slotOf_spId]; exact hslot) hbusy ?_
      exact (List.mem_filter.mp hmem).1
  | forget id hid => exact h.forget id hid
  | start _ slot forward hslot hfree hdelete => exact h.start hslot hfree hdelete
  | skip _ slot forward hslot => exact h.settle hslot
  | finish _ slot forward rest hslot hactive => exact h.finish hslot hactive

/-- Slots are released late: never below an execution, and no later than its end; each
registration is released once; and no registration takes the id of an execution. -/
structure ReleasedLate (s : State) : Prop where
  held : ∀ {activation : Activation} {slot : Nat}, activation ∈ s.activations →
    activation.id = spId slot → spId slot ∉ s.freeSPForwards ∧
      ∃ forward, s.spForwards[slot]? = some forward ∧ forward.isFree = false
  released : ∀ {slot : Nat} {forward : CSPForward}, s.spForwards[slot]? = some forward →
    spId slot ∉ s.activations.map Activation.id →
      (forward.isFree = true ↔ spId slot ∉ s.outstanding)
  once : ∀ {slot : Nat} {forward : CSPForward}, s.spForwards[slot]? = some forward →
    s.handedOut.count (spId slot) =
      s.pushed.count (spId slot) + if forward.isFree = true then 0 else 1
  fresh : ∀ {forward : CSPForward} {id : Int},
    (s.registerSPForward forward).handedOut = id :: s.handedOut →
      id ∉ s.activations.map Activation.id

theorem active_of_mem {slot : Nat} (hmem : spId slot ∈ s.activations.map Activation.id) :
    spId slot ∈ s.slots.active :=
  List.mem_filter.mpr ⟨hmem, by simp [spId_odd]⟩

theorem busy_of_guarded (h : s.slots.Guarded) {slot : Nat}
    (hmem : spId slot ∈ s.activations.map Activation.id) :
    ∃ forward, s.spForwards[slot]? = some forward ∧ forward.isFree = false := by
  have hactive := active_of_mem hmem
  obtain ⟨other, hlt, hid⟩ := h.known hactive
  obtain rfl := spId_inj hid
  have hslot := List.getElem?_eq_getElem hlt
  refine ⟨_, hslot, ?_⟩
  by_contra hfree
  have hidle := (h.fits hslot).idle (by simpa using hfree)
  exact absurd hactive (List.count_eq_zero.mp hidle)

theorem not_free_of_guarded (h : s.slots.Guarded) {slot : Nat}
    (hmem : spId slot ∈ s.activations.map Activation.id) : spId slot ∉ s.freeSPForwards := by
  intro hfree
  obtain ⟨forward, hslot, hbusy⟩ := busy_of_guarded h hmem
  obtain ⟨other, found, hother, hisFree, hid⟩ := h.sound.free_iff.mp hfree
  obtain rfl := spId_inj hid
  obtain rfl := Option.some.inj (hslot.symm.trans hother)
  simp [hisFree] at hbusy

theorem releasedLate_of_guarded (h : s.slots.Guarded) : s.ReleasedLate where
  held := by
    intro activation slot hmem hid
    have hactive : spId slot ∈ s.activations.map Activation.id :=
      List.mem_map.mpr ⟨activation, hmem, hid⟩
    exact ⟨not_free_of_guarded h hactive, busy_of_guarded h hactive⟩
  released := by
    intro slot forward hslot hnone
    have hcount : s.slots.active.count (spId slot) = 0 := by
      rw [count_active (spId_odd slot)]
      exact List.count_eq_zero.mpr hnone
    have hfits := h.fits hslot
    constructor
    · exact fun hfree => h.sound.not_outstanding_of_free hslot hfree
    · intro hout
      by_contra hfree
      obtain hdelete | hmem := hfits.kept (by simpa using hfree)
      · have := (hfits.deferred hdelete).1
        omega
      · exact hout hmem
  once := fun hslot => (h.fits hslot).balance
  fresh := by
    intro forward id hregister
    unfold registerSPForward at hregister
    cases hstack : s.freeSPForwards with
    | cons top rest =>
        simp only [hstack] at hregister
        split at hregister
        · obtain rfl := (List.cons.inj hregister).1
          have htop : top ∈ s.freeSPForwards := hstack ▸ List.mem_cons_self
          obtain ⟨slot, found, -, -, rfl⟩ := h.sound.free_iff.mp htop
          exact fun hmem => not_free_of_guarded h hmem htop
        · simp at hregister
    | nil =>
        simp only [hstack] at hregister
        split at hregister
        · obtain rfl := (List.cons.inj hregister).1
          intro hmem
          obtain ⟨slot, hlt, hid⟩ := h.known (active_of_mem hmem)
          have heq := spId_inj hid
          change slot < s.spForwards.length at hlt
          omega
        · simp at hregister

theorem releasedLate_of_timely {events : List Event}
    (hmeets : Meets step (fun s event => Orderly s event ∧ Timely s event) {} events)
    (hrun : run step {} events = some s) : s.ReleasedLate := by
  refine releasedLate_of_guarded (run_invariant (I := fun s => s.Called ∧ s.slots.Guarded)
    (fun h hallowed hstep => guarded_step h.1 h.2 hallowed.1 hallowed.2 hstep)
    ⟨by simp [Called], ?_⟩ hmeets hrun).2
  exact Slots.Guarded.init

/-- Unregistered in its only execution, executed once more, and free after the return. -/
theorem releasedLate_deferred :
    ∃ s, run step {} [.registerSPForward 3 0 [], .executeForwards 1 [] true,
        .unregisterSPForward 1, .executeForwards 1 [] true, .callbackReturn [] 0] = some s ∧
      s.freeSPForwards = [1] ∧ s.ReleasedLate := by
  have hrun : run step {} [.registerSPForward 3 0 [], .executeForwards 1 [] true,
      .unregisterSPForward 1, .executeForwards 1 [] true, .callbackReturn [] 0] = some _ := rfl
  exact ⟨_, hrun, rfl, releasedLate_of_timely (by decide) hrun⟩

/-- Unregistered after a nested execution has returned, the slot goes on the stack below
the execution in progress, and a registration made there takes it. -/
theorem not_releasedLate_recursive :
    ∃ s, run step {} [.registerSPForward 3 0 [], .executeForwards 1 [] true,
        .executeForwards 1 [] true, .callbackReturn [] 0, .unregisterSPForward 1] = some s ∧
      s.activations.map Activation.id = [1] ∧
      (s.registerSPForward (.setFunc 4 0 [])).returned = 1 ∧ ¬ s.ReleasedLate := by
  refine ⟨_, rfl, rfl, rfl, fun h => ?_⟩
  exact (h.held List.mem_cons_self (show (1 : Int) = spId 0 from rfl)).1 List.mem_cons_self

end State

end AmxModC.Forward
