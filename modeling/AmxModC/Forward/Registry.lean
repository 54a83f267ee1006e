import AmxModC.Forward.Slots

namespace AmxModC.Forward

open Foundation

/-! The free stack against the flags and the ids in use. -/

namespace Slots

variable {t t' : Slots} {slot : Nat} {forward : CSPForward}

structure Sound (t : Slots) : Prop where
  nodup : t.free.Nodup
  free_iff : ∀ {id : Int}, id ∈ t.free ↔ ∃ (slot : Nat) (forward : CSPForward),
    t.forwards[slot]? = some forward ∧ forward.isFree = true ∧ id = spId slot
  registered : ∀ {id : Int}, id ∈ t.outstanding → ∃ (slot : Nat) (forward : CSPForward),
    t.forwards[slot]? = some forward ∧ forward.isFree = false ∧ forward.toDelete = false ∧
      id = spId slot
  once : t.outstanding.Nodup

theorem put_self (hslot : t.forwards[slot]? = some forward) (forward' : CSPForward) :
    (t.put slot forward').forwards[slot]? = some forward' := by
  simp [put, (List.getElem?_eq_some_iff.mp hslot).1]

theorem put_other {other : Nat} (hne : other ≠ slot) (forward' : CSPForward) :
    (t.put slot forward').forwards[other]? = t.forwards[other]? := by
  simp [put, List.getElem?_set_ne hne.symm]

namespace Sound

theorem init : Slots.Sound ⟨[], [], [], [], [], []⟩ where
  nodup := List.nodup_nil
  free_iff := by simp
  registered := by simp
  once := List.nodup_nil

theorem of_same (h : t.Sound) (hforwards : t'.forwards = t.forwards) (hfree : t'.free = t.free)
    (houtstanding : t'.outstanding = t.outstanding) : t'.Sound where
  nodup := hfree ▸ h.nodup
  free_iff := by
    rw [hforwards, hfree]
    exact h.free_iff
  registered := by
    rw [hforwards, houtstanding]
    exact h.registered
  once := houtstanding ▸ h.once

theorem forget (h : t.Sound) (id : Int) : (t.forget id).Sound where
  nodup := h.nodup
  free_iff := h.free_iff
  registered := fun hid => h.registered (List.mem_filter.mp hid).1
  once := h.once.filter _

theorem not_outstanding_of_free (h : t.Sound) (hslot : t.forwards[slot]? = some forward)
    (hfree : forward.isFree = true) : spId slot ∉ t.outstanding := by
  intro hmem
  obtain ⟨other, forward', hother, hbusy, -, hid⟩ := h.registered hmem
  obtain rfl := spId_inj hid
  obtain rfl := Option.some.inj (hslot.symm.trans hother)
  simp [hfree] at hbusy

theorem toDelete_of_outstanding (h : t.Sound) (hslot : t.forwards[slot]? = some forward)
    (hmem : spId slot ∈ t.outstanding) : forward.toDelete = false := by
  obtain ⟨other, found, hother, -, hkeep, hid⟩ := h.registered hmem
  obtain rfl := spId_inj hid
  obtain rfl := Option.some.inj (hslot.symm.trans hother)
  exact hkeep

theorem put (h : t.Sound) (hslot : t.forwards[slot]? = some forward) {forward' : CSPForward}
    (hfree : forward'.isFree = forward.isFree)
    (hdelete : spId slot ∈ t.outstanding → forward'.toDelete = false) :
    (t.put slot forward').Sound where
  nodup := h.nodup
  free_iff := by
    intro id
    refine h.free_iff.trans ⟨?_, ?_⟩
    · rintro ⟨other, found, hother, hisFree, rfl⟩
      by_cases hne : other = slot
      · subst hne
        obtain rfl := Option.some.inj (hslot.symm.trans hother)
        exact ⟨other, forward', put_self hslot forward', hfree.trans hisFree, rfl⟩
      · exact ⟨other, found, (put_other hne forward').trans hother, hisFree, rfl⟩
    · rintro ⟨other, found, hother, hisFree, rfl⟩
      by_cases hne : other = slot
      · subst hne
        obtain rfl := Option.some.inj ((put_self hslot forward').symm.trans hother)
        exact ⟨other, forward, hslot, hfree.symm.trans hisFree, rfl⟩
      · exact ⟨other, found, (put_other hne forward').symm.trans hother, hisFree, rfl⟩
  registered := by
    intro id hid
    obtain ⟨other, found, hother, hbusy, hkeep, rfl⟩ := h.registered hid
    by_cases hne : other = slot
    · subst hne
      obtain rfl := Option.some.inj (hslot.symm.trans hother)
      exact ⟨other, forward', put_self hslot forward', hfree.trans hbusy, hdelete hid, rfl⟩
    · exact ⟨other, found, (put_other hne forward').trans hother, hbusy, hkeep, rfl⟩
  once := h.once

theorem release (h : t.Sound) (hslot : t.forwards[slot]? = some forward)
    (hbusy : forward.isFree = false) (hout : spId slot ∉ t.outstanding) :
    (t.release slot forward).Sound where
  nodup := by
    refine List.nodup_cons.mpr ⟨fun hmem => ?_, h.nodup⟩
    obtain ⟨other, found, hother, hfree, hid⟩ := h.free_iff.mp hmem
    obtain rfl := spId_inj hid
    obtain rfl := Option.some.inj (hslot.symm.trans hother)
    simp [hfree] at hbusy
  free_iff := by
    intro id
    refine List.mem_cons.trans ⟨?_, ?_⟩
    · rintro (rfl | hmem)
      · exact ⟨slot, _, put_self hslot _, rfl, rfl⟩
      · obtain ⟨other, found, hother, hfree, rfl⟩ := h.free_iff.mp hmem
        have hne : other ≠ slot := by
          rintro rfl
          obtain rfl := Option.some.inj (hslot.symm.trans hother)
          simp [hfree] at hbusy
        exact ⟨other, found, (put_other hne _).trans hother, hfree, rfl⟩
    · rintro ⟨other, found, hother, hfree, rfl⟩
      by_cases hne : other = slot
      · exact .inl (hne ▸ rfl)
      · exact .inr (h.free_iff.mpr ⟨other, found, (put_other hne _).symm.trans hother, hfree, rfl⟩)
  registered := by
    intro id hid
    obtain ⟨other, found, hother, hfree, hkeep, rfl⟩ := h.registered hid
    have hne : other ≠ slot := by
      rintro rfl
      exact hout hid
    exact ⟨other, found, (put_other hne _).trans hother, hfree, hkeep, rfl⟩
  once := h.once

theorem unregister (h : t.Sound) (hslot : t.forwards[slot]? = some forward)
    (hout : spId slot ∉ t.outstanding) : (t.unregister slot forward).Sound := by
  unfold Slots.unregister
  split
  case isTrue => exact h
  case isFalse hbusy =>
    split
    · exact h.put hslot rfl fun hmem => absurd hmem hout
    · exact h.release hslot (by simpa using hbusy) hout

theorem settle (h : t.Sound) (hslot : t.forwards[slot]? = some forward) :
    (t.settle slot forward).Sound := by
  unfold Slots.settle
  split
  case isFalse => exact h
  case isTrue hdelete =>
    have hout : spId slot ∉ t.outstanding := fun hmem => by
      simp [h.toDelete_of_outstanding hslot hmem] at hdelete
    have hput : (t.put slot { forward with toDelete := false }).Sound :=
      h.put hslot rfl fun _ => rfl
    exact hput.unregister (put_self hslot _) hout

theorem recycle (h : t.Sound) (hslot : t.forwards[slot]? = some forward) {rest : List Int}
    (hfree : t.free = spId slot :: rest) {forward' : CSPForward}
    (hbusy : forward'.isFree = false) (hkeep : forward'.toDelete = false) :
    (({ t with free := rest }.put slot forward').handOut (spId slot)).Sound := by
  have hnodup := h.nodup
  rw [hfree, List.nodup_cons] at hnodup
  have hisFree : forward.isFree = true := by
    obtain ⟨other, found, hother, hisFree, hid⟩ := h.free_iff.mp (hfree ▸ List.mem_cons_self)
    obtain rfl := spId_inj hid
    obtain rfl := Option.some.inj (hslot.symm.trans hother)
    exact hisFree
  have hself := put_self hslot forward'
  constructor
  case nodup => exact hnodup.2
  case free_iff =>
    intro id
    constructor
    · intro hmem
      obtain ⟨other, found, hother, hfound, rfl⟩ :=
        h.free_iff.mp (hfree ▸ List.mem_cons_of_mem _ hmem)
      have hne : other ≠ slot := by
        rintro rfl
        exact hnodup.1 hmem
      exact ⟨other, found, (put_other hne forward').trans hother, hfound, rfl⟩
    · rintro ⟨other, found, hother, hfound, rfl⟩
      have hne : other ≠ slot := by
        rintro rfl
        obtain rfl := Option.some.inj (hself.symm.trans hother)
        simp [hbusy] at hfound
      have hmem := h.free_iff.mpr
        ⟨other, found, (put_other hne forward').symm.trans hother, hfound, rfl⟩
      rw [hfree, List.mem_cons] at hmem
      exact hmem.resolve_left fun hid => hne (spId_inj hid)
  case registered =>
    intro id hid
    rcases List.mem_cons.mp hid with rfl | hmem
    · exact ⟨slot, forward', hself, hbusy, hkeep, rfl⟩
    · obtain ⟨other, found, hother, hfound, hdelete, rfl⟩ := h.registered hmem
      have hne : other ≠ slot := by
        rintro rfl
        obtain rfl := Option.some.inj (hslot.symm.trans hother)
        simp [hisFree] at hfound
      exact ⟨other, found, (put_other hne forward').trans hother, hfound, hdelete, rfl⟩
  case once => exact List.nodup_cons.mpr ⟨h.not_outstanding_of_free hslot hisFree, h.once⟩

theorem append (h : t.Sound) (hbusy : forward.isFree = false)
    (hkeep : forward.toDelete = false) :
    ({ t with forwards := t.forwards ++ [forward] }.handOut (spId t.forwards.length)).Sound := by
  have hold : ∀ {other found}, t.forwards[other]? = some found →
      (t.forwards ++ [forward])[other]? = some found := fun hother => by
    rw [List.getElem?_append_left (List.getElem?_eq_some_iff.mp hother).1]
    exact hother
  have hself : (t.forwards ++ [forward])[t.forwards.length]? = some forward := by simp
  constructor
  case nodup => exact h.nodup
  case free_iff =>
    intro id
    refine h.free_iff.trans ⟨?_, ?_⟩
    · rintro ⟨other, found, hother, hfree, rfl⟩
      exact ⟨other, found, hold hother, hfree, rfl⟩
    · rintro ⟨other, found, hother, hfree, rfl⟩
      change (t.forwards ++ [forward])[other]? = some found at hother
      rw [List.getElem?_append] at hother
      split at hother
      · exact ⟨other, found, hother, hfree, rfl⟩
      · rw [List.getElem?_singleton] at hother
        split at hother
        · obtain rfl := Option.some.inj hother
          simp [hbusy] at hfree
        · cases hother
  case registered =>
    intro id hid
    rcases List.mem_cons.mp hid with rfl | hmem
    · exact ⟨t.forwards.length, forward, hself, hbusy, hkeep, rfl⟩
    · obtain ⟨other, found, hother, hfound, hdelete, rfl⟩ := h.registered hmem
      exact ⟨other, found, hold hother, hfound, hdelete, rfl⟩
  case once =>
    refine List.nodup_cons.mpr ⟨fun hmem => ?_, h.once⟩
    obtain ⟨other, found, hother, -, -, hid⟩ := h.registered hmem
    obtain rfl := spId_inj hid
    exact absurd (List.getElem?_eq_some_iff.mp hother).1 (lt_irrefl _)

theorem register (h : t.Sound) (hdelete : forward.toDelete = false)
    (hfree : forward.isFree = false) (hfound : forward.hasFunc = true ∨ t.free = []) :
    (t.register forward).Sound := by
  unfold Slots.register
  cases hstack : t.free with
  | nil =>
      dsimp only
      split
      · exact (h.append hfree hdelete).of_same rfl hstack.symm rfl
      · exact h
  | cons id rest =>
      obtain ⟨slot, old, hslot, -, rfl⟩ := h.free_iff.mp (hstack ▸ List.mem_cons_self)
      dsimp only
      rw [if_pos (hfound.resolve_right (by simp [hstack])), slotOf_spId]
      exact h.recycle hslot hstack hfree hdelete

end Sound

theorem unregister_forget (t : Slots) (slot : Nat) (forward : CSPForward) (id : Int) :
    (t.unregister slot forward).forget id = (t.forget id).unregister slot forward := by
  unfold unregister
  repeat' split
  all_goals rfl

theorem not_mem_forget (t : Slots) (id : Int) : id ∉ (t.forget id).outstanding := by
  simp [forget]

theorem Sound.step {event : Event} (h : t.Sound) (hstep : t.Step event t') : t'.Sound := by
  cases hstep with
  | stay => exact h
  | register _ forward hdelete hexec hfree hfound => exact h.register hdelete hfree hfound
  | unregister slot forward hslot =>
      rw [unregister_forget]
      exact (h.forget _).unregister hslot (t.not_mem_forget _)
  | forget id => exact h.forget id
  | start _ slot forward hslot hfree hdelete =>
      have hput : (t.put slot { forward with inExec := true }).Sound :=
        h.put hslot rfl fun _ => hdelete
      exact hput.of_same rfl rfl rfl
  | skip _ slot forward hslot => exact h.settle hslot
  | finish _ slot forward rest hslot hactive =>
      have hrest : Slots.Sound { t with active := rest } := h.of_same rfl rfl rfl
      have hput : ({ t with active := rest }.put slot { forward with inExec := false }).Sound :=
        hrest.put hslot rfl (show spId slot ∈ t.outstanding → forward.toDelete = false from
          h.toDelete_of_outstanding hslot)
      exact hput.settle (put_self hslot _)

end Slots

namespace State

/-- The free stack holds the ids of the free slots, each once, and no id is handed out
again before it has been unregistered. -/
structure SlotsInOrder (s : State) : Prop where
  nodup : s.freeSPForwards.Nodup
  free_iff : ∀ {id : Int}, id ∈ s.freeSPForwards ↔ ∃ (slot : Nat) (forward : CSPForward),
    s.spForwards[slot]? = some forward ∧ forward.isFree = true ∧ id = spId slot
  once : s.outstanding.Nodup

theorem run_sound {lookup : State → Lookup} {s s' : State} {events : List Event}
    (hcalled : s.Called) (hsound : s.slots.Sound)
    (hmeets : Meets (stepWith lookup) Orderly s events)
    (hrun : run (stepWith lookup) s events = some s') : s'.Called ∧ s'.slots.Sound := by
  refine run_invariant (I := fun s => s.Called ∧ s.slots.Sound) ?_ ⟨hcalled, hsound⟩ hmeets hrun
  intro s event next h horderly hstep
  obtain ⟨htook, hnext⟩ := step_slots h.1 horderly hstep
  exact ⟨hnext, h.2.step htook⟩

theorem slotsInOrder_of_orderly {s : State} {events : List Event}
    (hmeets : Meets step Orderly {} events) (hrun : run step {} events = some s) :
    s.SlotsInOrder := by
  obtain ⟨-, hsound⟩ := run_sound (by simp [Called])
    (show (State.slots {}).Sound from Slots.Sound.init) hmeets hrun
  exact ⟨hsound.nodup, hsound.free_iff, hsound.once⟩

/-- A registration by name that finds the function, in a recycled slot. -/
theorem slotsInOrder_recycled :
    ∃ s, run step {} [.registerSPForward 3 0 [], .unregisterSPForward 1,
        .registerSPForwardByName (some 4) 0 []] = some s ∧ s.SlotsInOrder := by
  have hrun : run step {} [.registerSPForward 3 0 [], .unregisterSPForward 1,
      .registerSPForwardByName (some 4) 0 []] = some _ := rfl
  exact ⟨_, hrun, slotsInOrder_of_orderly (by decide) hrun⟩

/-- One that does not find it leaves the slot on the stack and in use: the id goes out
twice. -/
theorem not_slotsInOrder_missing :
    ∃ s, run step {} [.registerSPForward 3 0 [], .unregisterSPForward 1,
        .registerSPForwardByName none 0 [], .unregisterSPForward 1,
        .registerSPForward 4 0 [], .registerSPForward 5 0 []] = some s ∧
      s.outstanding = [1, 1] ∧ ¬ s.SlotsInOrder :=
  ⟨_, rfl, rfl, fun h => absurd h.once (by decide)⟩

end State

end AmxModC.Forward
