import AmxModC.Ham.Data

namespace AmxModC.Ham

open Foundation Strings

/-! The slots of a call against the values that they are to hold. -/

/-- A slot as the code has it for a value: `m_index` is null, and the variable with the index
is as it was at the beginning. -/
structure Stands (held : Held) (slot : Slot) : Prop where
  type : slot.data.type = held.type
  data : slot.data.data = held.content.map Content.stored
  kind : ∀ content, held.content = some content → held.type.kind = some content.kind
  index : slot.data.index = none
  first : slot.cptr = held.first

def Alike (result : Option (Held × Told)) (result' : Option (Slot × Told)) : Prop :=
  Option.Rel (fun r r' => Stands r.1 r'.1 ∧ r.2 = r'.2) result result'

namespace Stands

variable {held : Held} {slot : Slot} {content : Content} {kind : Kind}

theorem isSet (h : Stands held slot) : slot.data.isSet = held.content.isSome := by
  rw [Data.isSet, h.type, h.data, Option.isSome_map]
  cases hcontent : held.content with
  | none => exact Bool.and_false _
  | some content =>
      have hvoid : held.type ≠ .void := fun hvoid => by
        have hkind := h.kind content hcontent
        rw [hvoid] at hkind
        cases hkind
      rw [decide_eq_true hvoid]
      rfl

theorem not_void (h : Stands held slot) (hcontent : held.content = some content) :
    ¬ (held.type = .void ∨ held.content = none) := by
  rintro (hvoid | hnone)
  · have hkind := h.kind content hcontent
    rw [hvoid] at hkind
    cases hkind
  · rw [hcontent] at hnone
    cases hnone

theorem set (h : Stands held slot) {new : Option Content} (result : Option (Int × Data))
    (hresult : result = if !slot.data.isSet then some (-2, slot.data)
      else if slot.data.type.kind ≠ some kind then some (-1, slot.data)
      else new.map fun content => (0, { slot.data with data := some content.stored }))
    (hkind : ∀ content, new = some content → content.kind = kind) :
    Alike (held.set kind new) (result.map slot.wrote) := by
  rw [hresult, h.type, Held.set]
  cases hcontent : held.content with
  | none =>
      rw [h.isSet, hcontent, if_pos (.inr rfl)]
      exact .some ⟨h, rfl⟩
  | some content =>
      have hnot := h.not_void hcontent
      rw [hcontent] at hnot
      rw [h.isSet, hcontent, if_neg hnot]
      change Alike _ (Option.map slot.wrote (ite _ _ _))
      by_cases hfits : held.type.kind = some kind
      · rw [if_neg (not_not.mpr hfits), if_neg (not_not.mpr hfits)]
        cases hnew : new with
        | none => exact .none
        | some content =>
            refine .some ⟨⟨h.type, rfl, fun other hother => ?_, h.index, h.first⟩, rfl⟩
            obtain rfl := Option.some.inj hother
            exact hfits.trans (congrArg some (hkind content hnew).symm)
      · rw [if_pos hfits, if_pos hfits]
        exact .some ⟨h, rfl⟩

theorem get (h : Stands held slot) {len : Int} (result shown : Option (Int × List Cell))
    (hresult : result = if !slot.data.isSet then some (-2, [])
      else if slot.data.type.kind ≠ some kind then some (-1, []) else shown) :
    (held.get kind len).map (·.2) = (result.map slot.read).map (·.2) ↔
      ∀ content, held.content = some content → content.kind = kind →
        shown = some (0, content.cells len) := by
  rw [hresult, h.type, Held.get]
  cases hcontent : held.content with
  | none =>
      rw [h.isSet, hcontent]
      exact iff_of_true rfl fun content hother => by cases hother
  | some content =>
      have hvoid : ¬ held.type = .void := fun hvoid => h.not_void hcontent (.inl hvoid)
      rw [h.isSet, hcontent]
      change Option.map _ (ite _ _ _) = Option.map _ (Option.map _ (ite _ _ _)) ↔ _
      rw [if_neg hvoid, h.kind content hcontent]
      by_cases hfits : content.kind = kind
      · rw [if_neg (not_not.mpr (congrArg some hfits)), if_neg (not_not.mpr (congrArg some hfits))]
        refine ⟨fun htold other hsome _ => ?_, fun hshown => ?_⟩
        · obtain rfl := Option.some.inj hsome
          cases shown with
          | none => cases htold
          | some result =>
              obtain ⟨hcode, hcells⟩ := Told.code.inj (Option.some.inj htold)
              rw [hcode, hcells]
        · rw [hshown content rfl hfits]
          rfl
      · have hother : some content.kind ≠ some kind := fun heq => hfits (Option.some.inj heq)
        rw [if_pos hother, if_pos hother]
        refine iff_of_true rfl fun other hsome hkind => ?_
        obtain rfl := Option.some.inj hsome
        exact (hfits hkind).elim

end Stands

/-! Each function of `Data` by the kind of the slot. -/

namespace Data

variable (d : Data)

theorem setInt_eq (value : Cell) :
    d.setInt value = if !d.isSet then (-2, d)
      else if d.type.kind ≠ some .integer then (-1, d) else (0, d.write (.int value)) := by
  rw [setInt]
  cases htype : d.type with
  | _ => rfl

theorem setFloat_eq (value : Cell) :
    d.setFloat value = if !d.isSet then (-2, d)
      else if d.type.kind ≠ some .float then (-1, d) else (0, d.write (.real value)) := by
  rw [setFloat]
  cases htype : d.type with
  | _ => rfl

theorem setVector_eq (x y z : Cell) :
    d.setVector x y z = if !d.isSet then (-2, d)
      else if d.type.kind ≠ some .vector then (-1, d) else (0, d.write (.vector x y z)) := by
  rw [setVector]
  cases htype : d.type with
  | _ => rfl

theorem setString_eq (data : List Cell) :
    d.setString data = if !d.isSet then (-2, d)
      else if d.type.kind ≠ some .string then (-1, d)
      else (0, d.write (.string (stringChars data))) := by
  rw [setString]
  cases htype : d.type with
  | _ => rfl

theorem setEntity_eq (edicts : Edicts) (value : Cell) (hindex : d.index = none) :
    d.setEntity edicts value = if !d.isSet then some (-2, d)
      else if d.type.kind ≠ some .entity then some (-1, d)
      else (Held.entity edicts d.type value).map fun content =>
        (0, { d with data := some content.stored }) := by
  obtain ⟨type, data, index⟩ := d
  obtain rfl : index = none := hindex
  cases type with
  | cbase =>
      rw [Held.entity, if_pos rfl]
      change (if _ then _ else Option.map _ _) = if _ then _ else Option.map _ (Option.map _ _)
      rw [Option.map_map]
      rfl
  | _ => rfl

theorem getInt_eq :
    d.getInt = if !d.isSet then some (-2, [])
      else if d.type.kind ≠ some .integer then some (-1, []) else d.readInt := by
  rw [getInt]
  cases htype : d.type with
  | _ => rfl

theorem getFloat_eq :
    d.getFloat = if !d.isSet then some (-2, [])
      else if d.type.kind ≠ some .float then some (-1, [])
      else
        match d.data with
        | some (.real bits) => some (0, [bits])
        | _ => none := by
  rw [getFloat]
  cases htype : d.type with
  | _ => rfl

theorem getVector_eq :
    d.getVector = if !d.isSet then some (-2, [])
      else if d.type.kind ≠ some .vector then some (-1, [])
      else
        match d.data with
        | some (.vector x y z) => some (0, [x, y, z])
        | _ => none := by
  rw [getVector]
  cases htype : d.type with
  | _ => rfl

theorem getString_eq (len : Int) :
    d.getString len = if !d.isSet then some (-2, [])
      else if d.type.kind ≠ some .string then some (-1, [])
      else
        match d.data with
        | some (.string chars) => some (0, copyChars len chars)
        | _ => none := by
  rw [getString]
  cases htype : d.type with
  | _ => rfl

theorem getEntity_eq :
    d.getEntity = if !d.isSet then some (-2, [])
      else if d.type.kind ≠ some .entity then some (-1, []) else none := by
  obtain ⟨type, data, index⟩ := d
  cases data with
  | none => cases type with | _ => rfl
  | some v => cases type with | _ => rfl

theorem not_mem_stringChars (cells : List Cell) : (0 : Byte) ∉ stringChars cells := by
  intro hmem
  rw [stringChars] at hmem
  have hne := List.mem_takeWhile_imp hmem
  exact of_decide_eq_true hne rfl

theorem stringChars_takeWhile (cells : List Cell) :
    stringChars (cells.takeWhile (· ≠ 0)) = stringChars cells := by
  rw [stringChars, List.takeWhile_idem]
  rfl

theorem truncate_signExtend (c : Byte) : (c.signExtend 32).truncate 8 = c := by
  refine BitVec.eq_of_getLsbD_eq fun i hi => ?_
  rw [BitVec.getLsbD_setWidth, BitVec.getLsbD_signExtend, if_pos hi, decide_eq_true hi,
    decide_eq_true (show i < 32 by omega), Bool.true_and, Bool.true_and]

theorem stringChars_toCells {chars : List Byte} (h : 0 ∉ chars) :
    stringChars (toCells chars) = chars := by
  have hcells : (toCells chars).takeWhile (· ≠ 0) = toCells chars := by
    refine List.takeWhile_eq_self_iff.mpr fun cell hcell => decide_eq_true ?_
    obtain ⟨c, hc, rfl⟩ := List.mem_map.mp hcell
    exact signExtend_ne_zero fun hzero => h (hzero ▸ hc)
  have htruncate : (toCells chars).map (·.truncate 8) = chars := by
    rw [toCells, List.map_map]
    exact (List.map_congr_left fun c _ => truncate_signExtend c).trans (List.map_id chars)
  rw [stringChars, hcells, htruncate, takeWhile_noNul h]

theorem copyChars_fits {len : Int} {chars : List Byte} (h : len < 0 ∨ chars.length < len) :
    copyChars len chars = toCells chars ++ [0] := by
  induction chars generalizing len with
  | nil =>
      have hlen : len ≠ 0 := fun hzero => by
        rw [hzero] at h
        exact h.elim (lt_irrefl _) (lt_irrefl _)
      rw [copyChars, if_neg hlen]
      rfl
  | cons c chars ih =>
      rw [List.length_cons] at h
      rw [copyChars, if_neg (by omega), ih (by omega)]
      rfl

theorem copyChars_cut {n : Nat} {chars : List Byte} (h : n ≤ chars.length) :
    copyChars n chars = (toCells chars).take n := by
  induction chars generalizing n with
  | nil =>
      obtain rfl : n = 0 := Nat.le_zero.mp h
      rfl
  | cons c chars ih =>
      cases n with
      | zero => rfl
      | succ n =>
          rw [copyChars, if_neg (by omega), Nat.cast_succ, Int.add_sub_cancel,
            ih (Nat.le_of_succ_le_succ h)]
          rfl

end Data

theorem copyChars_eq_cells {len : Int} {cells : List Cell} :
    Data.copyChars len (Data.stringChars cells) = (Content.string cells).cells len ↔
      len = 0 ∨ (Data.stringChars cells).length < len ∧
        toCells (Data.stringChars cells) = cells.take (len.toNat - 1) := by
  change _ = (if len ≤ 0 then [] else _) ↔ _
  rcases lt_trichotomy len 0 with hlen | rfl | hlen
  · rw [Data.copyChars_fits (.inl hlen), if_pos hlen.le]
    refine iff_of_false (List.append_ne_nil_of_right_ne_nil _ (List.cons_ne_nil _ _)) ?_
    rintro (hzero | ⟨hlt, -⟩) <;> omega
  · refine iff_of_true ?_ (.inl rfl)
    rw [if_pos le_rfl]
    exact Data.copyChars_cut (Nat.zero_le _)
  · rw [if_neg hlen.not_ge, or_iff_right hlen.ne']
    by_cases hfits : (Data.stringChars cells).length < len
    · rw [Data.copyChars_fits (.inr hfits), and_iff_right hfits, List.append_left_inj]
    · refine iff_of_false (fun heq => ?_) fun h => hfits h.1
      -- a copy that is cut ends in a character
      obtain ⟨n, rfl⟩ := Int.eq_ofNat_of_zero_le hlen.le
      rw [Data.copyChars_cut (by omega)] at heq
      have hmem : (0 : Cell) ∈ toCells (Data.stringChars cells) :=
        List.mem_of_mem_take (heq ▸ List.mem_append_right _ List.mem_cons_self)
      obtain ⟨c, hc, hzero⟩ := List.mem_map.mp hmem
      exact signExtend_ne_zero (fun h => Data.not_mem_stringChars cells (h ▸ hc)) hzero

namespace Stands

variable {held : Held} {slot : Slot} {edicts : Edicts}

theorem setEntity (h : Stands held slot) (value : Cell) :
    Alike (held.set .entity (Held.entity edicts held.type value))
      ((slot.data.setEntity edicts value).map slot.wrote) := by
  refine h.set _ ?_ fun content hnew => ?_
  · rw [slot.data.setEntity_eq edicts value h.index, ← h.type]
  · rw [Held.entity] at hnew
    split at hnew
    · obtain ⟨p, -, rfl⟩ := Option.map_eq_some_iff.mp hnew
      rfl
    · rw [← Option.some.inj hnew]
      rfl

theorem setContent (h : Stands held slot) (content : Content) {kind : Kind} (result : Int × Data)
    (hkind : content.kind = kind)
    (hresult : result = if !slot.data.isSet then (-2, slot.data)
      else if slot.data.type.kind ≠ some kind then (-1, slot.data)
      else (0, slot.data.write content.stored)) :
    Alike (held.set kind (some content)) (some (slot.wrote result)) := by
  refine h.set (some result) ?_ fun other hother => ?_
  · rw [hresult, apply_ite some, apply_ite some]
    rfl
  · rw [← Option.some.inj hother, hkind]

def Agree (held : Held) (slot : Slot) (result : Option (Held × Told))
    (result' : Option (Slot × Told)) (reads : Prop) : Prop :=
  Stands (result.elim held (·.1)) (result'.elim slot (·.1)) ∧
    (result.map (·.2) = result'.map (·.2) ↔ reads)

theorem agree_of_alike (h : Stands held slot) {result : Option (Held × Told)}
    {result' : Option (Slot × Told)} (halike : Alike result result') :
    Agree held slot result result' True := by
  cases halike with
  | none => exact ⟨h, iff_of_true rfl trivial⟩
  | some hsome => exact ⟨hsome.1, iff_of_true (congrArg some hsome.2) trivial⟩

theorem get_fst (held : Held) (kind : Kind) (len : Int) :
    (held.get kind len).elim held (·.1) = held := by
  rw [Held.get]
  split
  · rfl
  · split
    · rfl
    · split <;> rfl

theorem read_fst (slot : Slot) (result : Option (Int × List Cell)) :
    (result.map slot.read).elim slot (·.1) = slot := by
  cases result <;> rfl

theorem agree_get (h : Stands held slot) {kind : Kind} {len : Int}
    (result shown : Option (Int × List Cell)) {reads : Prop}
    (hresult : result = if !slot.data.isSet then some (-2, [])
      else if slot.data.type.kind ≠ some kind then some (-1, []) else shown)
    (hshown : (∀ content, held.content = some content → content.kind = kind →
      shown = some (0, content.cells len)) ↔ reads) :
    Agree held slot (held.get kind len) (result.map slot.read) reads := by
  rw [Agree, get_fst, read_fst]
  exact ⟨h, (h.get result shown hresult).trans hshown⟩

theorem data_eq (h : Stands held slot) {content : Content} (hcontent : held.content = some content) :
    slot.data.data = some content.stored := by
  rw [h.data, hcontent]
  rfl

theorem agree_access (h : Stands held slot) (edicts : Edicts) (access : SlotAccess) :
    Agree held slot (held.access edicts access) (slot.access edicts access)
      (held.Reads access) := by
  cases access with
  | setInt value =>
      exact h.agree_of_alike (h.setContent (.int value) _ rfl (slot.data.setInt_eq value))
  | setFloat value =>
      exact h.agree_of_alike (h.setContent (.float value) _ rfl (slot.data.setFloat_eq value))
  | setVector x y z =>
      exact h.agree_of_alike (h.setContent (.vector x y z) _ rfl (slot.data.setVector_eq x y z))
  | setString data =>
      refine h.agree_of_alike (h.setContent (.string _) _ rfl ?_)
      rw [slot.data.setString_eq data, Content.stored, Data.stringChars_takeWhile]
  | setEntity value => exact h.agree_of_alike (h.setEntity value)
  | getInt =>
      refine h.agree_get _ _ slot.data.getInt_eq (iff_of_true (fun content hcontent hkind => ?_)
        trivial)
      rw [Data.readInt, h.data_eq hcontent]
      cases content with
      | int value => rfl
      | _ => cases hkind
  | getFloat =>
      refine h.agree_get _ _ slot.data.getFloat_eq (iff_of_true (fun content hcontent hkind => ?_)
        trivial)
      rw [h.data_eq hcontent]
      cases content with
      | float bits => rfl
      | _ => cases hkind
  | getVector =>
      refine h.agree_get _ _ slot.data.getVector_eq (iff_of_true (fun content hcontent hkind => ?_)
        trivial)
      rw [h.data_eq hcontent]
      cases content with
      | vector x y z => rfl
      | _ => cases hkind
  | getString len =>
      refine h.agree_get _ _ (slot.data.getString_eq len) ⟨fun hshown cells hcontent => ?_,
        fun hreads content hcontent hkind => ?_⟩
      · have hcells := hshown _ hcontent rfl
        rw [h.data_eq hcontent] at hcells
        exact copyChars_eq_cells.mp (Prod.mk.inj (Option.some.inj hcells)).2
      · rw [h.data_eq hcontent]
        cases content with
        | string cells =>
            exact congrArg (fun cells => some (0, cells))
              (copyChars_eq_cells.mpr (hreads cells hcontent))
        | _ => cases hkind
  | getEntity =>
      refine h.agree_get _ _ slot.data.getEntity_eq ⟨fun hshown => ?_,
        fun hreads content hcontent hkind => ?_⟩
      · cases hcontent : held.content with
        | none => exact .inr hcontent
        | some content =>
            refine .inl fun hkind => ?_
            rw [h.kind content hcontent] at hkind
            cases hshown content hcontent (Option.some.inj hkind)
      · rcases hreads with hother | hnone
        · exact absurd ((h.kind content hcontent).trans (congrArg some hkind)) hother
        · cases hcontent.symm.trans hnone

theorem arg_eq_iff (h : Stands held slot) : held.arg = slot.arg ↔ held.Unchanged := by
  rw [Held.arg, Slot.arg, Held.Unchanged, h.data, h.type]
  cases held.content with
  | none => exact iff_of_true rfl fun p index hnone => by cases hnone
  | some content =>
      cases content with
      | entity p index =>
          change Arg.cell index = .cell (slot.data.index.getD slot.cptr) ↔ _
          rw [h.index, h.first, Arg.cell.injEq]
          refine ⟨fun heq p index hsome => ?_, fun hkept => hkept p index rfl⟩
          obtain ⟨-, rfl⟩ := Content.entity.inj (Option.some.inj hsome)
          exact heq
      | _ => exact iff_of_true rfl fun p index hother => by cases hother

end Stands

theorem forall₂_getElem? {α β : Type*} {R : α → β → Prop} {l : List α} {l' : List β}
    (h : List.Forall₂ R l l') (i : Nat) : Option.Rel R l[i]? l'[i]? := by
  induction h generalizing i with
  | nil => exact .none
  | cons hhead _ ih =>
      cases i with
      | zero => exact .some hhead
      | succ i => exact ih i

theorem forall₂_set {α β : Type*} {R : α → β → Prop} {l : List α} {l' : List β} {a : α} {b : β}
    (h : List.Forall₂ R l l') (hab : R a b) (i : Nat) :
    List.Forall₂ R (l.set i a) (l'.set i b) := by
  induction h generalizing i with
  | nil => exact .nil
  | cons hhead htail ih =>
      cases i with
      | zero => exact .cons hab htail
      | succ i => exact .cons hhead (ih i)

/-! The slots of a call. -/

namespace HookedCall

section

variable {S : Type} {h : HookedCall S} {place : Place} {slot : S}

theorem update_self (hat : h.atPlace place = some slot) : h.update place slot = h := by
  cases place with
  | ret =>
      obtain rfl := Option.some.inj hat
      rfl
  | origret =>
      obtain rfl := Option.some.inj hat
      rfl
  | param number =>
      obtain ⟨hnumber, rfl⟩ := List.getElem?_eq_some_iff.mp hat
      exact congrArg (HookedCall.mk · h.ret h.origret) (List.set_getElem_self hnumber)

theorem reach_none (hat : h.atPlace place = none) (f : S → Option (S × Told)) :
    h.reach place f = (h, some (.code 0 [])) := by
  rw [reach, hat]

theorem reach_some (hat : h.atPlace place = some slot) (f : S → Option (S × Told)) :
    h.reach place f = (h.update place ((f slot).elim slot (·.1)), (f slot).map (·.2)) := by
  rw [reach, hat]
  cases hresult : f slot with
  | none => simp only [hresult, Option.elim_none, Option.map_none, update_self hat]
  | some result => simp only [hresult, Option.elim_some, Option.map_some]

end

structure AllStand (h : HookedCall Held) (h' : HookedCall Slot) : Prop where
  params : List.Forall₂ Stands h.params h'.params
  ret : Stands h.ret h'.ret
  origret : Stands h.origret h'.origret

namespace AllStand

variable {h : HookedCall Held} {h' : HookedCall Slot} {edicts : Edicts}

theorem atPlace (hall : AllStand h h') (place : Place) :
    Option.Rel Stands (h.atPlace place) (h'.atPlace place) := by
  cases place with
  | ret => exact .some hall.ret
  | origret => exact .some hall.origret
  | param number => exact forall₂_getElem? hall.params number

theorem update (hall : AllStand h h') (place : Place) {held : Held} {slot : Slot}
    (hslot : Stands held slot) : AllStand (h.update place held) (h'.update place slot) := by
  cases place with
  | ret => exact ⟨hall.params, hslot, hall.origret⟩
  | origret => exact ⟨hall.params, hall.ret, hslot⟩
  | param number => exact ⟨forall₂_set hall.params hslot number, hall.ret, hall.origret⟩

theorem args_eq_iff {params : List Held} {slots : List Slot}
    (hparams : List.Forall₂ Stands params slots) :
    params.map Held.arg = slots.map Slot.arg ↔ ∀ held ∈ params, held.Unchanged := by
  induction hparams with
  | nil => exact iff_of_true rfl fun held hmem => by cases hmem
  | cons hhead _ ih =>
      rw [List.map_cons, List.map_cons, List.cons.injEq, List.forall_mem_cons, hhead.arg_eq_iff, ih]

theorem values_eq {params : List Held} {slots : List Slot}
    (hparams : List.Forall₂ Stands params slots) :
    params.map (·.content.map Content.stored) = slots.map (·.data.data) := by
  induction hparams with
  | nil => rfl
  | cons hhead _ ih => rw [List.map_cons, List.map_cons, ih, hhead.data]

end AllStand

theorem stands_param (param : Param) : Stands param.held param.slot := by
  cases param with
  | int value | float bits | vector x y z =>
      refine ⟨rfl, rfl, fun content hcontent => ?_, rfl, rfl⟩
      rw [← Option.some.inj hcontent]
      rfl
  | str chars =>
      refine ⟨rfl, ?_, fun content hcontent => ?_, rfl, rfl⟩
      · exact congrArg (fun bytes => some (Variable.string bytes))
          (Data.stringChars_toCells chars.noNul).symm
      · rw [← Option.some.inj hcontent]
        rfl
  | cbase target | entvar target =>
      refine ⟨rfl, rfl, fun content hcontent => ?_, rfl, ?_⟩
      · rw [← Option.some.inj hcontent]
        rfl
      · cases target <;> rfl
  | ptrFloat target | ptrVector target =>
      refine ⟨rfl, ?_, fun content hcontent => ?_, rfl, rfl⟩
      · cases target <;> rfl
      · obtain ⟨v, -, rfl⟩ := Option.map_eq_some_iff.mp hcontent
        rfl

theorem allStand_create (result : Option Param) (params : List Param) :
    AllStand (createHeld result params) (create result params) := by
  have hret : Stands (result.elim ⟨.void, none, 0⟩ Param.held)
      (result.elim ⟨.create .void none, 0⟩ Param.slot) := by
    cases result with
    | none => exact ⟨rfl, rfl, fun content hcontent => (by cases hcontent), rfl, rfl⟩
    | some param => exact stands_param param
  refine ⟨?_, hret, hret⟩
  rw [createHeld, create, List.forall₂_map_left_iff, List.forall₂_map_right_iff,
    List.forall₂_same]
  exact fun param _ => stands_param param

namespace AllStand

variable {h : HookedCall Held} {h' : HookedCall Slot} {edicts : Edicts}

theorem returned (hall : AllStand h h') (result : Option Param) :
    AllStand (h.returnedHeld result) (h'.returned result) := by
  cases result with
  | none => exact hall
  | some param =>
      have hparam := stands_param param
      have horigret := hall.origret
      rw [returnedHeld, HookedCall.returned, hparam.type, horigret.type]
      split
      next htype =>
        refine ⟨hall.params, hall.ret, horigret.type, hparam.data, fun content hcontent => ?_,
          horigret.index, horigret.first⟩
        exact htype ▸ hparam.kind content hcontent
      next => exact hall

theorem call (hall : AllStand h h') (access : Access) :
    AllStand (h.callHeld edicts access).1 (h'.call edicts access).1 ∧
      ((h.callHeld edicts access).2 = (h'.call edicts access).2 ↔ SlotsKept h access) := by
  cases access with
  | slot place access =>
      rw [callHeld, HookedCall.call, SlotsKept]
      have hat := hall.atPlace place
      cases hheld : h.atPlace place with
      | none =>
          cases hslot : h'.atPlace place with
          | none =>
              rw [reach_none hheld, reach_none hslot]
              exact ⟨hall, iff_of_true rfl fun held hsome => by cases hsome⟩
          | some slot => rw [hheld, hslot] at hat; cases hat
      | some held =>
          cases hslot : h'.atPlace place with
          | none => rw [hheld, hslot] at hat; cases hat
          | some slot =>
              rw [hheld, hslot, Option.rel_some_some] at hat
              obtain ⟨hstands, htold⟩ := hat.agree_access edicts access
              rw [reach_some hheld, reach_some hslot]
              refine ⟨hall.update place hstands, htold.trans ⟨fun hreads other hother => ?_,
                fun hreads => hreads held rfl⟩⟩
              obtain rfl := Option.some.inj hother
              exact hreads
  | forward =>
      refine ⟨hall, ?_⟩
      rw [callHeld, HookedCall.call, SlotsKept, Option.some.injEq, Told.args.injEq]
      exact args_eq_iff hall.params
  | original result =>
      refine ⟨hall.returned result, iff_of_true ?_ trivial⟩
      exact congrArg (fun values => some (Told.values values)) (values_eq hall.params)

end AllStand

/-- The natives, the forwards and the original function get what the slots hold exactly where
no entity is read, no forward follows a change of an entity, and no string is cut. -/
theorem answers_held_iff (edicts : Edicts) (result : Option Param) (params : List Param)
    (accesses : List Access) :
    answers (callHeld edicts) (createHeld result params) accesses =
        answers (call edicts) (create result params) accesses ↔
      Meets (next (callHeld edicts)) SlotsKept (createHeld result params) accesses :=
  answers_eq_iff (R := AllStand) (fun {_ _ access} hall => (hall.call access).1)
    (fun {_ _ access} hall _ => (hall.call access).2) (allStand_create result params)
    (meets_of_forall fun _ _ => trivial)

/-- A player is hit, and the first forward changes the attacker from 2 to 5: the next forward
is told of 2. -/
theorem attacker_not_changed :
    answers (callHeld fun _ => some true)
        (createHeld (some (.int 0)) [.cbase (.entity 1), .entvar (.entity 3), .entvar (.entity 2),
          .float 0x41200000, .int 2])
        [.forward, .slot (.param 2) (.setEntity 5), .forward] ≠
      answers (call fun _ => some true)
        (create (some (.int 0)) [.cbase (.entity 1), .entvar (.entity 3), .entvar (.entity 2),
          .float 0x41200000, .int 2])
        [.forward, .slot (.param 2) (.setEntity 5), .forward] := by
  decide

end HookedCall

end AmxModC.Ham
