import AmxModC.CellVector.Operations

namespace AmxModC.CellVector

open Foundation

/-! The purpose of the vector, stated on plain lists: what a call has to do to the
list of records and what it has to hand back.  `SetCell` after an insertion fixes
only the first cell of the new record, and a pushed record is arbitrary. -/

namespace Spec

def image (width : Nat) (source : Nat → Cell) : List Cell :=
  (List.range width).map source

def stringPart (size : Nat) (item : List Cell) : List Cell :=
  item.take (min size (stringLength item + 1))

def found (items : List (List Cell)) (which : Nat) : Outcome :=
  ⟨if which < items.length then 1 else 0, []⟩

def Step (width : Nat) (items : List (List Cell)) :
    Op → Outcome → List (List Cell) → Prop
  | .grow _ _, _, next => next = items
  | .freeUnused _, _, next => next = items
  | .clear _, _, next => next = []
  | .push _, outcome, next =>
      outcome = ⟨items.length, []⟩ ∧
        ∃ item : List Cell, item.length = width ∧ next = items ++ [item]
  | .getArray which, outcome, next =>
      next = items ∧ outcome = (items[which]?).elim ⟨0, []⟩ fun item => ⟨1, item⟩
  | .getCell which, outcome, next =>
      next = items ∧ outcome = (items[which]?).elim ⟨0, []⟩ fun item => ⟨1, item.take 1⟩
  | .getString which size, outcome, next =>
      next = items ∧
        outcome = (items[which]?).elim ⟨0, []⟩ fun item => ⟨1, stringPart size item⟩
  | .setArray which source, outcome, next =>
      outcome = found items which ∧ next = items.set which (image width source)
  | .setCell which value, outcome, next =>
      outcome = found items which ∧ next = items.modify which (·.set 0 value)
  | .setString which source, outcome, next =>
      outcome = found items which ∧
        next = items.set which ((image width source).set (width - 1) 0)
  | .shiftUpFrom _ which, outcome, next =>
      outcome = ⟨if which ≤ items.length then 1 else 0, []⟩ ∧
        ∃ item : List Cell, item.length = width ∧ next = items.insertIdx which item
  | .insertArray _ which source, outcome, next =>
      outcome = ⟨if which ≤ items.length then 1 else 0, []⟩ ∧
        next = items.insertIdx which (image width source)
  | .insertCell _ which value, outcome, next =>
      outcome = ⟨if which ≤ items.length then 1 else 0, []⟩ ∧
        ∃ item : List Cell, item.length = width ∧
          next = items.insertIdx which (item.set 0 value)
  | .insertString _ which source, outcome, next =>
      outcome = ⟨if which ≤ items.length then 1 else 0, []⟩ ∧
        next = items.insertIdx which ((image width source).set (width - 1) 0)
  | .delete which, outcome, next =>
      outcome = found items which ∧ next = items.eraseIdx which
  | .swap item1 item2, outcome, next =>
      outcome = ⟨if item1 < items.length ∧ item2 < items.length then 1 else 0, []⟩ ∧
        next = exchange items item1 item2

inductive History (width : Nat) : List (Op × Outcome) → List (List Cell) → Prop
  | start : History width [] []
  | call {log : List (Op × Outcome)} {items next : List (List Cell)} {op : Op}
      {outcome : Outcome} (earlier : History width log items)
      (step : Step width items op outcome next) :
      History width ((op, outcome) :: log) next

end Spec

structure Session where
  vector : CellVector
  log : List (Op × Outcome)

namespace Session

def start (width : Nat) : Session := ⟨create width, []⟩

def step (session : Session) (op : Op) : Option Session :=
  (session.vector.step op).map fun (outcome, vector) =>
    ⟨vector, (op, outcome) :: session.log⟩

def RefinesList (width : Nat) (ops : List Op) : Prop :=
  ∃ final, run step (start width) ops = some final ∧
    Spec.History width final.log final.vector.records

/-- A call that neither shifts records up in a vector that is one record short of
full, nor reads a string with a size of exactly its length plus one. -/
def Harmless (session : Session) : Op → Prop
  | .shiftUpFrom _ which | .insertArray _ which _ | .insertCell _ which _
  | .insertString _ which _ =>
      which < session.vector.count → session.vector.count + 1 ≠ session.vector.cursize
  | .getString which size =>
      ∀ item ∈ session.vector.records[which]?, size ≠ stringLength item + 1
  | _ => True

end Session

/-! Each harmless call refines its list operation. -/

def StepRefines (v : CellVector) (op : Op) : Prop :=
  ∃ outcome next, v.step op = some (outcome, next) ∧ next.WellFormed ∧
    next.cellcount = v.cellcount ∧
    Spec.Step v.cellcount v.records op outcome next.records

variable {v : CellVector}

theorem SameShape.stepRefines {next : CellVector} {op : Op} {outcome : Outcome}
    (hshape : SameShape v next) (hv : v.WellFormed)
    (hstep : v.step op = some (outcome, next))
    (hspec : Spec.Step v.cellcount v.records op outcome next.records) :
    v.StepRefines op :=
  ⟨outcome, next, hstep, hshape.wellFormed hv, hshape.cellcount, hspec⟩

theorem stepRefines_unchanged {op : Op} {outcome : Outcome} (hv : v.WellFormed)
    (hstep : v.step op = some (outcome, v))
    (hspec : Spec.Step v.cellcount v.records op outcome v.records) : v.StepRefines op :=
  ⟨outcome, v, hstep, hv, rfl, hspec⟩

theorem getElem?_records_of_lt {which : Nat} (h : which < v.count) :
    v.records[which]? = some (Block.record v.cellcount v.block which) := by
  rw [List.getElem?_eq_getElem (by simpa using h), getElem_records]

theorem getElem?_records_of_ge {which : Nat} (h : v.count ≤ which) :
    v.records[which]? = none := List.getElem?_eq_none (by simpa using h)

theorem getString_refines (hv : v.WellFormed) {which size : Nat}
    (hsize : ∀ item ∈ v.records[which]?, size ≠ stringLength item + 1) :
    v.StepRefines (.getString which size) := by
  rcases Nat.lt_or_ge which v.count with hlt | hge
  · rw [getElem?_records_of_lt hlt] at hsize
    apply stepRefines_unchanged hv
    · change v.getString which size = _
      rw [getString_spec hv hlt, if_neg (hsize _ rfl)]
      rfl
    · exact ⟨rfl, by rw [getElem?_records_of_lt hlt]; rfl⟩
  · apply stepRefines_unchanged hv
    · exact if_pos hge
    · exact ⟨rfl, by rw [getElem?_records_of_ge hge]; rfl⟩

theorem setArray_refines (hv : v.WellFormed) (which : Nat) (source : Nat → Cell) :
    v.StepRefines (.setArray which source) := by
  rcases Nat.lt_or_ge which v.count with hlt | hge
  · obtain ⟨next, hset, hshape, hrecords⟩ := setArray_spec hv source hlt
    exact hshape.stepRefines hv hset ⟨by simp [Spec.found, hlt], hrecords⟩
  · apply stepRefines_unchanged hv
    · exact if_pos hge
    · refine ⟨by simp [Spec.found, Nat.not_lt.mpr hge], ?_⟩
      rw [List.set_eq_of_length_le (by simpa using hge)]

theorem setCell_refines (hv : v.WellFormed) (which : Nat) (value : Cell) :
    v.StepRefines (.setCell which value) := by
  rcases Nat.lt_or_ge which v.count with hlt | hge
  · obtain ⟨next, hset, hshape, hrecords⟩ := setCell_spec hv value hlt
    refine hshape.stepRefines hv hset ⟨by simp [Spec.found, hlt], ?_⟩
    rw [hrecords, List.modify_eq_set_getElem?, getElem?_records_of_lt hlt]
    rfl
  · apply stepRefines_unchanged hv
    · exact if_pos hge
    · refine ⟨by simp [Spec.found, Nat.not_lt.mpr hge], ?_⟩
      rw [List.modify_eq_set_getElem?, getElem?_records_of_ge hge]
      rfl

theorem setString_refines (hv : v.WellFormed) (which : Nat) (source : Nat → Cell) :
    v.StepRefines (.setString which source) := by
  rcases Nat.lt_or_ge which v.count with hlt | hge
  · obtain ⟨next, hset, hshape, hrecords⟩ := setString_spec hv source hlt
    exact hshape.stepRefines hv hset ⟨by simp [Spec.found, hlt], hrecords⟩
  · apply stepRefines_unchanged hv
    · exact if_pos hge
    · refine ⟨by simp [Spec.found, Nat.not_lt.mpr hge], ?_⟩
      rw [List.set_eq_of_length_le (by simpa using hge)]

theorem insertWith_spec (set : CellVector → Option (Outcome × CellVector))
    (written : List Cell → List Cell) (garbage : Garbage) (hv : v.WellFormed)
    {which : Nat}
    (hset : ∀ u : CellVector, u.WellFormed → u.cellcount = v.cellcount →
      ∀ hwhich : which < u.records.length,
        ∃ next, set u = some (⟨1, []⟩, next) ∧ SameShape u next ∧
          next.records = u.records.set which (written u.records[which]))
    (hroom : which < v.count → v.count + 1 ≠ v.cursize) :
    ∃ outcome next, insertWith set garbage v which = some (outcome, next) ∧
      next.WellFormed ∧ next.cellcount = v.cellcount ∧
      outcome = ⟨if which ≤ v.records.length then 1 else 0, []⟩ ∧
      ∃ item : List Cell, item.length = v.cellcount ∧
        next.records = v.records.insertIdx which (written item) := by
  rcases Nat.lt_or_ge v.count which with hgt | hle
  · refine ⟨⟨0, []⟩, v, ?_, hv, rfl, by simp [hgt], List.replicate v.cellcount 0,
      by simp, ?_⟩
    · simp [insertWith, shiftUpFrom, hgt]
    · rw [List.insertIdx_of_length_lt (by simpa using hgt)]
  · obtain ⟨shifted, item, hshift, hwf, hwidth, hcount, hitem, hrecords⟩ :=
      shiftUpFrom_spec garbage hv hle hroom
    have hwhich : which < shifted.records.length := by
      simp [hcount]
      omega
    obtain ⟨next, hnext, hshape, hnextRecords⟩ := hset shifted hwf hwidth hwhich
    refine ⟨⟨1, []⟩, next, ?_, hshape.wellFormed hwf, hshape.cellcount.trans hwidth,
      by simp [hle], item, hitem, ?_⟩
    · simp [insertWith, hshift, hnext]
    · rw [hnextRecords]
      simp only [hrecords]
      apply List.ext_getElem?
      intro index
      by_cases heq : which = index
      · subst heq
        rw [List.getElem?_set_self (by simpa [hrecords] using hwhich),
          List.getElem?_insertIdx_self, if_pos (by simpa using hle),
          List.getElem_insertIdx_self]
      · rw [List.getElem?_set_ne heq]
        simp only [List.getElem?_insertIdx]
        split
        · rfl
        · rw [if_neg (Ne.symm heq), if_neg (Ne.symm heq)]

theorem insertArray_refines (garbage : Garbage) (hv : v.WellFormed) {which : Nat}
    (source : Nat → Cell) (hroom : which < v.count → v.count + 1 ≠ v.cursize) :
    v.StepRefines (.insertArray garbage which source) := by
  obtain ⟨outcome, next, hstep, hwf, hwidth, houtcome, item, -, hrecords⟩ :=
    insertWith_spec (·.setArray which source) (fun _ => Spec.image v.cellcount source)
      garbage hv (fun u hu huwidth hwhich => by
        obtain ⟨next, hset, hshape, hrecords⟩ :=
          setArray_spec hu source (by simpa using hwhich)
        exact ⟨next, hset, hshape, by rw [hrecords, huwidth]; rfl⟩) hroom
  exact ⟨outcome, next, hstep, hwf, hwidth, houtcome, hrecords⟩

theorem insertCell_refines (garbage : Garbage) (hv : v.WellFormed) {which : Nat}
    (value : Cell) (hroom : which < v.count → v.count + 1 ≠ v.cursize) :
    v.StepRefines (.insertCell garbage which value) := by
  obtain ⟨outcome, next, hstep, hwf, hwidth, houtcome, item, hitem, hrecords⟩ :=
    insertWith_spec (·.setCell which value) (·.set 0 value) garbage hv
      (fun u hu huwidth hwhich => by
        obtain ⟨next, hset, hshape, hrecords⟩ :=
          setCell_spec hu value (by simpa using hwhich)
        exact ⟨next, hset, hshape, by rw [hrecords, getElem_records]⟩) hroom
  exact ⟨outcome, next, hstep, hwf, hwidth, houtcome, item, hitem, hrecords⟩

theorem insertString_refines (garbage : Garbage) (hv : v.WellFormed) {which : Nat}
    (source : Nat → Cell) (hroom : which < v.count → v.count + 1 ≠ v.cursize) :
    v.StepRefines (.insertString garbage which source) := by
  obtain ⟨outcome, next, hstep, hwf, hwidth, houtcome, item, -, hrecords⟩ :=
    insertWith_spec (·.setString which source)
      (fun _ => (Spec.image v.cellcount source).set (v.cellcount - 1) 0) garbage hv
      (fun u hu huwidth hwhich => by
        obtain ⟨next, hset, hshape, hrecords⟩ :=
          setString_spec hu source (by simpa using hwhich)
        exact ⟨next, hset, hshape, by rw [hrecords, huwidth]; rfl⟩) hroom
  exact ⟨outcome, next, hstep, hwf, hwidth, houtcome, hrecords⟩

theorem shiftUpFrom_refines (garbage : Garbage) (hv : v.WellFormed) {which : Nat}
    (hroom : which < v.count → v.count + 1 ≠ v.cursize) :
    v.StepRefines (.shiftUpFrom garbage which) := by
  rcases Nat.lt_or_ge v.count which with hgt | hle
  · apply stepRefines_unchanged hv
    · exact if_pos hgt
    · refine ⟨by simp [hgt], List.replicate v.cellcount 0, by simp, ?_⟩
      rw [List.insertIdx_of_length_lt (by simpa using hgt)]
  · obtain ⟨next, item, hshift, hwf, hwidth, -, hitem, hrecords⟩ :=
      shiftUpFrom_spec garbage hv hle hroom
    exact ⟨_, next, hshift, hwf, hwidth, by simp [hle], item, hitem, hrecords⟩

theorem delete_refines (hv : v.WellFormed) (which : Nat) :
    v.StepRefines (.delete which) := by
  rcases Nat.lt_or_ge which v.count with hlt | hge
  · obtain ⟨next, hdelete, hwf, hwidth, hrecords⟩ := delete_spec hv hlt
    exact ⟨_, next, hdelete, hwf, hwidth, by simp [Spec.found, hlt], hrecords⟩
  · apply stepRefines_unchanged hv
    · exact if_pos hge
    · refine ⟨by simp [Spec.found, Nat.not_lt.mpr hge], ?_⟩
      rw [List.eraseIdx_of_length_le (by simpa using hge)]

theorem swap_refines (hv : v.WellFormed) (item1 item2 : Nat) :
    v.StepRefines (.swap item1 item2) := by
  by_cases hinside : item1 < v.count ∧ item2 < v.count
  · obtain ⟨next, hswap, hshape, hrecords⟩ := swap_spec hv hinside.1 hinside.2
    exact hshape.stepRefines hv hswap ⟨by simp [hinside], hrecords⟩
  · apply stepRefines_unchanged hv
    · exact if_pos (by omega)
    · refine ⟨by simp [hinside], ?_⟩
      unfold exchange
      rcases Nat.lt_or_ge item1 v.count with h1 | h1
      · rw [getElem?_records_of_ge (show v.count ≤ item2 by omega)]
        split <;> simp_all
      · rw [getElem?_records_of_ge h1]

theorem step_refines (hv : v.WellFormed) (op : Op) {log : List (Op × Outcome)}
    (h : Session.Harmless ⟨v, log⟩ op) : v.StepRefines op := by
  cases op with
  | grow garbage howmany =>
      exact ⟨_, _, rfl, grow_wellFormed garbage hv howmany, rfl,
        grow_records garbage hv howmany⟩
  | freeUnused garbage =>
      refine ⟨_, _, rfl, freeUnused_wellFormed garbage hv, ?_, freeUnused_records garbage hv⟩
      rcases freeUnused_eq garbage v with heq | ⟨hwidth, -⟩
      · rw [heq]
      · exact hwidth
  | clear garbage =>
      exact ⟨_, _, rfl, clear_wellFormed garbage hv, rfl, clear_records garbage v⟩
  | push garbage =>
      have hpush := push_wellFormed garbage hv
      refine ⟨_, _, rfl, hpush, push_cellcount garbage v, ?_, _, ?_, push_records garbage hv⟩
      · rw [length_records]
        exact push_outcome garbage v
      · have := hpush.length_record (show v.count < _ by simp)
        simpa using this
  | getArray which =>
      exact stepRefines_unchanged hv
        (by simp only [step, getArray_spec hv]; rfl) ⟨rfl, rfl⟩
  | getCell which =>
      exact stepRefines_unchanged hv
        (by simp only [step, getCell_spec hv]; rfl) ⟨rfl, rfl⟩
  | getString which size => exact getString_refines hv h
  | setArray which source => exact setArray_refines hv which source
  | setCell which value => exact setCell_refines hv which value
  | setString which source => exact setString_refines hv which source
  | shiftUpFrom garbage which => exact shiftUpFrom_refines garbage hv h
  | insertArray garbage which source => exact insertArray_refines garbage hv source h
  | insertCell garbage which value => exact insertCell_refines garbage hv value h
  | insertString garbage which source => exact insertString_refines garbage hv source h
  | delete which => exact delete_refines hv which
  | swap item1 item2 => exact swap_refines hv item1 item2

namespace Session

theorem start_keeps {width : Nat} (h : 1 ≤ width) :
    (start width).vector.WellFormed ∧ (start width).vector.cellcount = width ∧
      Spec.History width (start width).log (start width).vector.records :=
  ⟨create_wellFormed h, rfl, by
    simpa [start] using Spec.History.start⟩

theorem step_keeps {width : Nat} {session : Session} {op : Op}
    (h : session.vector.WellFormed ∧ session.vector.cellcount = width ∧
      Spec.History width session.log session.vector.records)
    (hharmless : session.Harmless op) :
    ∃ next, session.step op = some next ∧
      next.vector.WellFormed ∧ next.vector.cellcount = width ∧
      Spec.History width next.log next.vector.records := by
  obtain ⟨hv, rfl, hhistory⟩ := h
  obtain ⟨outcome, vector, hstep, hwf, hwidth, hspec⟩ := step_refines hv op hharmless
  exact ⟨⟨vector, (op, outcome) :: session.log⟩, by simp [step, hstep], hwf, hwidth,
    hhistory.call hspec⟩

end Session

end AmxModC.CellVector
