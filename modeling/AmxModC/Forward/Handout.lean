import AmxModC.Forward.Slots

namespace AmxModC.Forward

/-! The ids of single-plugin forwards, for callers that unregister what they were given and
while no forward is executed: who holds which id, whatever registrations fail in between. -/

structure SpForwards where
  isFree : List Bool
  free : List Int
deriving DecidableEq

namespace SpForwards

/-- `registerSPForward` for a name that the plugin has, or does not have. -/
def register (t : SpForwards) (found : Bool) : Int × SpForwards :=
  match t.free with
  | id :: rest =>
      let isFree := t.isFree.set (slotOf id) false
      if found then (id, ⟨isFree, rest⟩) else (-1, ⟨isFree, id :: rest⟩)
  | [] => if found then (spId t.isFree.length, ⟨t.isFree ++ [false], []⟩) else (-1, t)

def unregister (t : SpForwards) (id : Int) : SpForwards :=
  if 0 ≤ id ∧ t.isFree[slotOf id]? = some false then ⟨t.isFree.set (slotOf id) true, id :: t.free⟩
  else t

variable {t : SpForwards} {found : Bool} {id : Int} {rest : List Int}

theorem register_of_empty (h : t.free = []) :
    t.register found =
      if found then (spId t.isFree.length, ⟨t.isFree ++ [false], []⟩) else (-1, t) := by
  rw [register, h]

theorem register_of_stack (h : t.free = id :: rest) :
    t.register found =
      if found then (id, ⟨t.isFree.set (slotOf id) false, rest⟩)
      else (-1, ⟨t.isFree.set (slotOf id) false, id :: rest⟩) := by
  rw [register, h]

end SpForwards

def Slots.handout (t : Slots) : SpForwards := ⟨t.forwards.map (·.isFree), t.free⟩

namespace Slots

variable {t : Slots} {slot : Nat} {forward : CSPForward}

end Slots

namespace SpForwards

structure Holds (t : SpForwards) (held : List Int) : Prop where
  valid : ∀ id ∈ t.free ++ held, ∃ slot, slot < t.isFree.length ∧ id = spId slot
  once : (t.free ++ held).Nodup
  busy : ∀ slot, spId slot ∈ held → t.isFree[slot]? = some false

variable {t : SpForwards} {held : List Int}

theorem holds_nil : Holds ⟨[], []⟩ [] :=
  ⟨fun _ h => absurd h List.not_mem_nil, List.nodup_nil, fun _ h => absurd h List.not_mem_nil⟩

theorem set_false {flags : List Bool} {slot other : Nat} (h : flags[slot]? = some false) :
    (flags.set other false)[slot]? = some false := by
  rw [List.getElem?_set]
  split
  next heq => rw [if_pos (heq ▸ (List.getElem?_eq_some_iff.mp h).1)]
  next => exact h

theorem Holds.register_missing (h : t.Holds held) :
    (t.register false).1 = -1 ∧ (t.register false).2.Holds held := by
  cases hstack : t.free with
  | nil =>
      rw [register_of_empty hstack]
      exact ⟨rfl, h⟩
  | cons id rest =>
      rw [register_of_stack hstack]
      refine ⟨rfl, ⟨fun other hmem => ?_, hstack ▸ h.once, fun slot hmem => ?_⟩⟩
      · obtain ⟨slot, hlt, hid⟩ := h.valid other (hstack ▸ hmem)
        exact ⟨slot, hlt.trans_eq List.length_set.symm, hid⟩
      · exact set_false (h.busy slot hmem)

theorem Holds.register_found (h : t.Holds held) :
    0 < (t.register true).1 ∧ (t.register true).2.Holds ((t.register true).1 :: held) := by
  cases hstack : t.free with
  | nil =>
      rw [register_of_empty hstack]
      refine ⟨by rw [if_pos rfl]; simp only [spId]; omega, ⟨fun id hmem => ?_, ?_, fun slot hmem => ?_⟩⟩
      · rcases List.mem_cons.mp hmem with rfl | hheld
        · exact ⟨t.isFree.length, by simp, rfl⟩
        · obtain ⟨slot, hlt, hid⟩ := h.valid id (List.mem_append_right _ hheld)
          exact ⟨slot, by rw [if_pos rfl, List.length_append]; exact Nat.lt_add_right 1 hlt, hid⟩
      · refine List.nodup_cons.mpr ⟨fun hheld => ?_, (List.nodup_append.mp h.once).2.1⟩
        obtain ⟨slot, hlt, hid⟩ := h.valid _ (List.mem_append_right _ hheld)
        exact absurd (spId_inj hid) hlt.ne'
      · rw [if_pos rfl]
        rcases List.mem_cons.mp hmem with heq | hheld
        · rw [spId_inj heq]
          exact List.getElem?_concat_length
        · have hbusy := h.busy slot hheld
          rwa [List.getElem?_append_left (List.getElem?_eq_some_iff.mp hbusy).1]
  | cons id rest =>
      obtain ⟨slot, hlt, rfl⟩ := h.valid id (by rw [hstack]; exact List.mem_cons_self ..)
      have hperm : (t.free ++ held).Perm (rest ++ spId slot :: held) := by
        rw [hstack, List.cons_append]
        exact List.perm_middle.symm
      rw [register_of_stack hstack, if_pos rfl]
      refine ⟨by simp only [spId]; omega, ⟨fun other hmem => ?_, hperm.nodup_iff.mp h.once,
        fun other hmem => ?_⟩⟩
      · obtain ⟨other, hother, hid⟩ := h.valid other (hperm.mem_iff.mpr hmem)
        exact ⟨other, hother.trans_eq List.length_set.symm, hid⟩
      · rw [slotOf_spId]
        rcases List.mem_cons.mp hmem with heq | hheld
        · rw [spId_inj heq]
          exact List.getElem?_set_self hlt
        · exact set_false (h.busy other hheld)

theorem Holds.unregister (h : t.Holds held) {id : Int} (hid : id ∈ held) :
    (t.unregister id).Holds (held.erase id) := by
  obtain ⟨slot, hlt, rfl⟩ := h.valid id (List.mem_append_right _ hid)
  have hbusy := h.busy slot hid
  have hpos : 0 ≤ spId slot := by simp only [spId]; omega
  have hperm : (t.free ++ held).Perm (spId slot :: t.free ++ held.erase (spId slot)) :=
    ((List.perm_cons_erase hid).append_left _).trans List.perm_middle
  rw [SpForwards.unregister, slotOf_spId, if_pos ⟨hpos, hbusy⟩]
  refine ⟨fun other hmem => ?_, hperm.nodup_iff.mp h.once, fun other hmem => ?_⟩
  · obtain ⟨other, hother, hid⟩ := h.valid other (hperm.mem_iff.mpr hmem)
    exact ⟨other, hother.trans_eq List.length_set.symm, hid⟩
  · have hne : slot ≠ other := by
      rintro rfl
      exact (List.nodup_append.mp h.once).2.1.not_mem_erase hmem
    rw [List.getElem?_set_ne hne]
    exact h.busy other (List.mem_of_mem_erase hmem)

theorem Holds.perm {held' : List Int} (h : t.Holds held) (hperm : held.Perm held') :
    t.Holds held' where
  valid := fun id hmem => h.valid id ((hperm.append_left _).mem_iff.mpr hmem)
  once := (hperm.append_left _).nodup_iff.mp h.once
  busy := fun slot hmem => h.busy slot (hperm.mem_iff.mpr hmem)

theorem Holds.nodup (h : t.Holds held) : held.Nodup := (List.nodup_append.mp h.once).2.1

end SpForwards

end AmxModC.Forward
