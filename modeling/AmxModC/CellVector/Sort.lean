import AmxModC.CellVector.Refinement

namespace AmxModC.CellVector

open Foundation

section

/-! Which calls stay inside the allocated block. -/

def next (v : CellVector) (op : Op) : Option CellVector :=
  (v.step op).map fun (_, vector) => vector

/-- The call finds room above the last record if it shifts records up, and does not
terminate the last record of a full vector one cell behind its end. -/
def InBounds (v : CellVector) : Op → Prop
  | .shiftUpFrom _ which | .insertArray _ which _ | .insertCell _ which _
  | .insertString _ which _ => which < v.count → v.count + 1 ≠ v.cursize
  | .getString which size =>
      ∀ item ∈ v.records[which]?,
        ¬ (size = stringLength item + 1 ∧ v.cellcount ≤ stringLength item + 1 ∧
          which + 1 = v.cursize)
  | _ => True

variable {v : CellVector}

theorem next_isSome_of_refines {op : Op} (h : v.StepRefines op) :
    (v.next op).isSome := by
  obtain ⟨outcome, vector, hstep, -⟩ := h
  simp [next, hstep]

theorem wellFormed_of_refines {op : Op} {vector : CellVector} (h : v.StepRefines op)
    (hnext : v.next op = some vector) : vector.WellFormed := by
  obtain ⟨outcome, result, hstep, hwf, -⟩ := h
  obtain rfl : result = vector := by simpa [next, hstep] using hnext
  exact hwf

theorem insertWith_room {set : CellVector → Option (Outcome × CellVector)}
    {garbage : Garbage} {which : Nat} (hv : v.WellFormed)
    (h : (insertWith set garbage v which).isSome) :
    which < v.count → v.count + 1 ≠ v.cursize := by
  intro hlt
  rw [← shiftUpFrom_isSome garbage hv hlt]
  cases hshift : v.shiftUpFrom garbage which with
  | none => simp [insertWith, hshift] at h
  | some shifted => rfl

theorem stray_isSome (hv : v.WellFormed) {which : Nat} (h : which < v.count) :
    (v.store (v.strayCell which) [0]).isSome ↔
      ¬ (v.cellcount ≤ stringLength (Block.record v.cellcount v.block which) + 1 ∧
        which + 1 = v.cursize) := by
  have hwidth := hv.width_pos
  have hfits := hv.fits
  rw [store_isSome, hv.size, strayCell, List.length_singleton, Nat.mul_comm v.cellcount]
  rcases Nat.lt_or_ge (stringLength (Block.record v.cellcount v.block which) + 1)
    v.cellcount with hshort | hlong
  · have hend := Block.record_end_le v.cellcount (show which < v.cursize by omega)
    rw [Nat.min_eq_left (by omega)]
    omega
  · rw [Nat.min_eq_right hlong]
    rcases Nat.lt_or_ge (which + 1) v.cursize with hroom | hfull
    · have hend := Block.record_end_le v.cellcount hroom
      rw [Nat.add_mul] at hend
      omega
    · have hlast : which + 1 = v.cursize := by omega
      rw [← hlast, Nat.add_mul]
      omega

theorem getString_isSome (hv : v.WellFormed) (which size : Nat) :
    (v.next (.getString which size)).isSome ↔ v.InBounds (.getString which size) := by
  change ((v.getString which size).map _).isSome ↔ ∀ item ∈ v.records[which]?, _
  rcases Nat.lt_or_ge which v.count with hlt | hge
  · rw [getElem?_records_of_lt hlt, getString_spec hv hlt]
    simp only [Option.isSome_map, Option.mem_some_iff, forall_eq']
    by_cases hstray : size = stringLength (Block.record v.cellcount v.block which) + 1
    · rw [if_pos hstray, stray_isSome hv hlt]
      simp [hstray]
    · simp [hstray]
  · rw [getElem?_records_of_ge hge]
    simp [getString, hge]

theorem next_isSome_iff (hv : v.WellFormed) (op : Op) :
    (v.next op).isSome ↔ v.InBounds op := by
  have hrefines : Session.Harmless ⟨v, []⟩ op → (v.next op).isSome := fun hharmless =>
    next_isSome_of_refines (step_refines hv op hharmless)
  cases op with
  | getString which size => exact getString_isSome hv which size
  | shiftUpFrom garbage which =>
      refine ⟨fun h hlt => ?_, hrefines⟩
      rw [← shiftUpFrom_isSome garbage hv hlt]
      simpa [next, step] using h
  | insertArray garbage which source =>
      exact ⟨fun h => insertWith_room hv (by simpa [next, step] using h), hrefines⟩
  | insertCell garbage which value =>
      exact ⟨fun h => insertWith_room hv (by simpa [next, step] using h), hrefines⟩
  | insertString garbage which source =>
      exact ⟨fun h => insertWith_room hv (by simpa [next, step] using h), hrefines⟩
  | grow | freeUnused | clear | push | getArray | getCell | setArray | setCell
  | setString | delete | swap => exact ⟨fun _ => trivial, fun _ => hrefines trivial⟩

theorem getString_wellFormed (hv : v.WellFormed) {which size : Nat} {vector : CellVector}
    (h : v.next (.getString which size) = some vector) : vector.WellFormed := by
  change (v.getString which size).map _ = some vector at h
  rcases Nat.lt_or_ge which v.count with hlt | hge
  · rw [getString_spec hv hlt] at h
    split at h
    · have hstore : v.store (v.strayCell which) [0] = some vector := by simpa using h
      exact (store_eq_some hstore).1.wellFormed hv
    · obtain rfl : v = vector := by simpa using h
      exact hv
  · obtain rfl : v = vector := by simpa [getString, hge] using h
    exact hv

theorem next_wellFormed (hv : v.WellFormed) {op : Op} {vector : CellVector}
    (h : v.next op = some vector) : vector.WellFormed := by
  have hbounds : v.InBounds op := (next_isSome_iff hv op).mp (by simp [h])
  have hrefines : Session.Harmless ⟨v, []⟩ op → vector.WellFormed := fun hharmless =>
    wellFormed_of_refines (step_refines hv op hharmless) h
  cases op with
  | getString which size => exact getString_wellFormed hv h
  | shiftUpFrom | insertArray | insertCell | insertString => exact hrefines hbounds
  | grow | freeUnused | clear | push | getArray | getCell | setArray | setCell
  | setString | delete | swap => exact hrefines trivial

end

section

/-! `ArraySort` copies the records to a new vector, in the order of a sorted list of indices. -/

/-- `newvec->SetArray(newvec->Push(), vec->GetCellPointer(which))`, where a null pointer cannot be
read. -/
def pushFrom (garbage : Garbage) (newvec v : CellVector) (which : Nat) :
    Option (Outcome × CellVector) :=
  let source := v.getCellPointer which
  let (pushed, newvec) := newvec.push garbage
  if pushed.result ≥ newvec.count then some (⟨0, []⟩, newvec)
  else do
    let source ← source
    let cells ← v.load source newvec.cellcount
    newvec.setArray pushed.result fun index => cells.getD index 0

/-- The loop from `i` on. The list has memory for the records there were when the sort began, and
`steps` goes down from the size the vector has now. -/
def copyLoop (garbage : Nat → Garbage) (v : CellVector) (intList : List Nat) (newvec : CellVector)
    (i : Nat) : (steps : Nat) → Option (Outcome × CellVector)
  | 0 => some (⟨1, []⟩, newvec)
  | steps + 1 => do
      let which ← intList[i]?
      let (set, newvec) ← pushFrom (garbage i) newvec v which
      if set.result ≠ 1 then some (⟨0, []⟩, newvec)
      else copyLoop garbage v intList newvec (i + 1) steps

def rebuild (garbage : Nat → Garbage) (v : CellVector) (intList : List Nat) :
    Option (Outcome × CellVector) :=
  copyLoop garbage v intList (create v.cellcount) 0 v.count

variable {v newvec : CellVector} {which : Nat} {intList : List Nat}

theorem pushFrom_of_lt (garbage : Garbage) (hv : v.WellFormed) (hnew : newvec.WellFormed)
    (hwidth : newvec.cellcount = v.cellcount) (h : which < v.count) :
    ∃ next, pushFrom garbage newvec v which = some (⟨1, []⟩, next) ∧ next.WellFormed ∧
      next.cellcount = v.cellcount ∧
      next.records = newvec.records ++ [Block.record v.cellcount v.block which] := by
  have hpush := push_wellFormed garbage hnew
  have hload := load_record hv h
  have hlength := hv.length_record h
  obtain ⟨next, hset, hshape, hrecords⟩ := setArray_spec hpush
    (fun index => (Block.record v.cellcount v.block which).getD index 0)
    (show newvec.count < (newvec.push garbage).2.count by simp)
  refine ⟨next, ?_, hshape.wellFormed hpush, ?_, ?_⟩
  · have hpointer : v.getCellPointer which = some (v.cellcount * which) := by
      rw [getCellPointer, if_neg (by omega), Nat.mul_comm]
    unfold pushFrom
    simp only [push_outcome, push_count, push_cellcount, hwidth, hpointer,
      if_neg (show ¬ newvec.count ≥ newvec.count + 1 by omega), Option.bind_eq_bind,
      Option.bind_some, hload]
    exact hset
  · rw [hshape.cellcount, push_cellcount, hwidth]
  · have hcells : (List.range v.cellcount).map
        (fun index => (Block.record v.cellcount v.block which).getD index 0) =
        Block.record v.cellcount v.block which := by
      apply List.ext_getElem
      · simpa using hlength.symm
      · intro index hindex hrecord
        simp [List.getD_eq_getElem?_getD, hrecord]
    rw [hrecords, push_cellcount, hwidth, hcells, push_records garbage hnew]
    simp

theorem pushFrom_of_ge (garbage : Garbage) (newvec : CellVector) (h : v.count ≤ which) :
    pushFrom garbage newvec v which = none := by
  have hpointer : v.getCellPointer which = none := by
    rw [getCellPointer, if_pos h]
  unfold pushFrom
  simp only [push_outcome, push_count, hpointer,
    if_neg (show ¬ newvec.count ≥ newvec.count + 1 by omega)]
  rfl

def Names (v : CellVector) (intList : List Nat) (i steps : Nat) : Prop :=
  ∀ j < steps, ∃ which ∈ intList[i + j]?, which < v.count

theorem names_succ {i steps : Nat} :
    Names v intList i (steps + 1) ↔
      (∃ which ∈ intList[i]?, which < v.count) ∧ Names v intList (i + 1) steps := by
  constructor
  · intro h
    refine ⟨h 0 (by omega), fun j hj => ?_⟩
    have hnext := h (j + 1) (by omega)
    rwa [show i + (j + 1) = i + 1 + j by omega] at hnext
  · rintro ⟨hfirst, hrest⟩ j hj
    cases j with
    | zero => exact hfirst
    | succ j =>
        have hnext := hrest j (by omega)
        rwa [show i + 1 + j = i + (j + 1) by omega] at hnext

theorem copyLoop_spec (garbage : Nat → Garbage) (hv : v.WellFormed) {i steps : Nat}
    (hnew : newvec.WellFormed) (hwidth : newvec.cellcount = v.cellcount)
    (hnames : Names v intList i steps) :
    ∃ next, copyLoop garbage v intList newvec i steps = some (⟨1, []⟩, next) ∧ next.WellFormed ∧
      next.records = newvec.records ++
        ((intList.drop i).take steps).map (Block.record v.cellcount v.block) := by
  induction steps generalizing i newvec with
  | zero => exact ⟨newvec, rfl, hnew, by simp⟩
  | succ steps ih =>
      obtain ⟨⟨which, hget, hlt⟩, hrest⟩ := names_succ.mp hnames
      obtain ⟨middle, hpush, hmiddle, hmiddleWidth, hmiddleRecords⟩ :=
        pushFrom_of_lt (garbage i) hv hnew hwidth hlt
      obtain ⟨next, hloop, hnext, hrecords⟩ := ih hmiddle hmiddleWidth hrest
      refine ⟨next, ?_, hnext, ?_⟩
      · rw [copyLoop, hget]
        simp only [Option.bind_eq_bind, Option.bind_some, hpush]
        exact hloop
      · obtain ⟨hi, hwhich⟩ := List.getElem?_eq_some_iff.mp hget
        rw [hrecords, hmiddleRecords, List.drop_eq_getElem_cons hi, hwhich]
        simp

theorem names_of_copyLoop (garbage : Nat → Garbage) (hv : v.WellFormed) {i steps : Nat}
    (hnew : newvec.WellFormed) (hwidth : newvec.cellcount = v.cellcount)
    (h : (copyLoop garbage v intList newvec i steps).isSome) : Names v intList i steps := by
  induction steps generalizing i newvec with
  | zero =>
      intro j hj
      omega
  | succ steps ih =>
      rw [copyLoop] at h
      cases hget : intList[i]? with
      | none => simp [hget] at h
      | some which =>
          rcases Nat.lt_or_ge which v.count with hlt | hge
          · obtain ⟨middle, hpush, hmiddle, hmiddleWidth, -⟩ :=
              pushFrom_of_lt (garbage i) hv hnew hwidth hlt
            simp only [hget, Option.bind_eq_bind, Option.bind_some, hpush] at h
            exact names_succ.mpr ⟨⟨which, hget, hlt⟩, ih hmiddle hmiddleWidth h⟩
          · simp [hget, pushFrom_of_ge (garbage i) newvec hge] at h

theorem names_iff :
    Names v intList 0 v.count ↔
      v.count ≤ intList.length ∧ ∀ which ∈ intList.take v.count, which < v.count := by
  constructor
  · intro h
    have hle : v.count ≤ intList.length := by
      by_contra hlt
      obtain ⟨which, hget, -⟩ := h intList.length (by omega)
      simp at hget
    refine ⟨hle, fun which hmem => ?_⟩
    obtain ⟨i, hi, rfl⟩ := List.mem_take_iff_getElem.mp hmem
    obtain ⟨which, hget, hlt⟩ := h i (by omega)
    rw [Nat.zero_add] at hget
    rwa [(List.getElem?_eq_some_iff.mp hget).2]
  · rintro ⟨hle, hmem⟩ j hj
    refine ⟨intList[j], by simp, hmem _ ?_⟩
    exact List.mem_take_iff_getElem.mpr ⟨j, by omega, rfl⟩

theorem rebuild_isSome (garbage : Nat → Garbage) (hv : v.WellFormed) :
    (v.rebuild garbage intList).isSome ↔
      v.count ≤ intList.length ∧ ∀ which ∈ intList.take v.count, which < v.count := by
  have hnew : (create v.cellcount).WellFormed := create_wellFormed hv.width_pos
  rw [← names_iff]
  constructor
  · intro h
    exact names_of_copyLoop garbage hv hnew rfl h
  · intro h
    obtain ⟨next, hloop, -⟩ := copyLoop_spec garbage hv hnew rfl h
    exact Option.isSome_iff_exists.mpr ⟨_, hloop⟩

theorem rebuild_spec (garbage : Nat → Garbage) (hv : v.WellFormed)
    (hle : v.count ≤ intList.length) (hmem : ∀ which ∈ intList.take v.count, which < v.count) :
    ∃ next, v.rebuild garbage intList = some (⟨1, []⟩, next) ∧ next.WellFormed ∧
      next.records = (intList.take v.count).map (Block.record v.cellcount v.block) := by
  have hnew : (create v.cellcount).WellFormed := create_wellFormed hv.width_pos
  simpa [rebuild] using copyLoop_spec garbage hv hnew rfl (names_iff.mpr ⟨hle, hmem⟩)

theorem perm_records (hperm : intList.Perm (List.range v.count)) :
    ((intList.take v.count).map (Block.record v.cellcount v.block)).Perm v.records := by
  have hlength : intList.length = v.count := by simpa using hperm.length_eq
  rw [← hlength, List.take_length]
  exact hperm.map _

end

end AmxModC.CellVector
