import AmxModC.Foundation.Run
import AmxModC.ResultSet.Table

namespace AmxModC.ResultSet

open Foundation

/-! When the copy of a result set answers as the original does at its first row. -/

theorem getElem?_flatten_rows {α : Type*} {n col : Nat} {rows : List (List α)}
    (hwidth : ∀ row ∈ rows, row.length = n) (hcol : col < n) (k : Nat) :
    rows.flatten[k * n + col]? = rows[k]?.bind (·[col]?) := by
  induction rows generalizing k with
  | nil => rfl
  | cons row rows ih =>
      obtain ⟨hrow, hrest⟩ := List.forall_mem_cons.mp hwidth
      rw [List.flatten_cons]
      cases k with
      | zero =>
          rw [Nat.zero_mul, Nat.zero_add, List.getElem?_append_left (hrow ▸ hcol)]
          rfl
      | succ k =>
          rw [Nat.succ_mul, List.getElem?_append_right (by omega), List.getElem?_cons_succ,
            ← ih hrest k]
          exact congrArg (rows.flatten[·]?) (by omega)

theorem findIdx?_eq_iff {α : Type*} {p q : α → Bool} {l : List α}
    (hpq : ∀ x, p x = true → q x = true) :
    l.findIdx? p = l.findIdx? q ↔
      ∀ (i : Nat) x, l[i]? = some x → q x = true → p x = false →
        ∃ j < i, ∃ y, l[j]? = some y ∧ p y = true := by
  induction l with
  | nil => exact iff_of_true rfl fun i x hx => by cases hx
  | cons a l ih =>
      rw [List.findIdx?_cons, List.findIdx?_cons]
      cases hp : p a with
      | true =>
          rw [hpq a hp]
          refine iff_of_true rfl fun i x hx _ hnot => ?_
          cases i with
          | zero =>
              obtain rfl : a = x := Option.some.inj hx
              cases hp.symm.trans hnot
          | succ i => exact ⟨0, Nat.succ_pos i, a, rfl, hp⟩
      | false =>
          cases hq : q a with
          | true =>
              refine iff_of_false (fun heq => ?_) fun h => ?_
              · rw [if_neg Bool.false_ne_true, if_pos rfl] at heq
                obtain ⟨k, -, hk⟩ := Option.map_eq_some_iff.mp heq
                cases hk
              · obtain ⟨j, hj, -⟩ := h 0 a rfl hq hp
                cases hj
          | false =>
              rw [if_neg Bool.false_ne_true, if_neg Bool.false_ne_true,
                (Option.map_injective Nat.succ_injective).eq_iff, ih]
              constructor
              · intro h i x hx hqx hpx
                cases i with
                | zero =>
                    obtain rfl : a = x := Option.some.inj hx
                    cases hq.symm.trans hqx
                | succ i =>
                    obtain ⟨j, hj, hy⟩ := h i x hx hqx hpx
                    exact ⟨j + 1, Nat.succ_lt_succ hj, hy⟩
              · intro h i x hx hqx hpx
                obtain ⟨j, hj, y, hy, hpy⟩ := h (i + 1) x hx hqx hpx
                cases j with
                | zero =>
                    obtain rfl : a = y := Option.some.inj hy
                    cases hp.symm.trans hpy
                | succ j => exact ⟨j, Nat.lt_of_succ_lt_succ hj, y, hy, hpy⟩

/-- The counters of 32 bits tell whether the cursor is behind the last row, and what is
read is not null; the empty name is not looked for where a field without a name comes first. -/
def Faithful (rs : MysqlResultSet) : ResultCall → Prop
  | .isDone => rs.res.rows.length < rs.dataCursor ↔
      rs.res.rows.length % 2 ^ 32 < rs.dataCursor % 2 ^ 32
  | .fieldNameToNum name => name = emptyString → ∀ i : Nat, rs.res.fields[i]? = some none →
      ∃ j < i, rs.res.fields[j]? = some (some emptyString)
  | .getString columnId | .isNull columnId =>
      ∀ row : List (Option CString), rs.curRow = some row → row[columnId]? ≠ some none
  | _ => True

structure Alike (rs : MysqlResultSet) (object : AtomicResult) : Prop where
  positioned : rs.Positioned
  copied : object.Copied rs.res
  fits : AtomicResult.Fits rs.res
  curRow : object.curRow = rs.dataCursor % 2 ^ 32

namespace Alike

variable {rs : MysqlResultSet} {object : AtomicResult}

theorem call (h : Alike rs object) (c : ResultCall) :
    Alike (rs.call c).1 (object.call c).1 := by
  cases c with
  | nextRow =>
      have hcopied := h.copied
      refine ⟨h.positioned.toWellFormed.nextRow,
        ⟨hcopied.rowCount, hcopied.fieldCount, hcopied.string⟩, h.fits, ?_⟩
      change (object.curRow + 1) % 2 ^ 32 = (rs.dataCursor + 1) % 2 ^ 32
      rw [h.curRow, Nat.mod_add_mod]
  | rewind =>
      have hcopied := h.copied
      exact ⟨h.positioned.toWellFormed.rewind,
        ⟨hcopied.rowCount, hcopied.fieldCount, hcopied.string⟩, h.fits, rfl⟩
  | isDone | rowCount | fieldCount | fieldNumToName _ | fieldNameToNum _ | getString _
  | getStringSafe _ | getInt _ | isNull _ => exact h

theorem fieldCount (h : Alike rs object) : object.fieldCount = rs.columns :=
  h.copied.fieldCount.trans h.positioned.columns.symm

theorem rowCount (h : Alike rs object) : object.rowCount = rs.rows :=
  h.copied.rowCount.trans h.positioned.rows.symm

theorem name (h : Alike rs object) {i : Nat} (hi : i < rs.res.fields.length) :
    object.string i = some (rs.res.fields[i].getD emptyString) := by
  refine h.copied.string i (some _) ?_
  rw [AtomicResult.flat, List.getElem?_append_left (by rwa [List.length_map]), List.getElem?_map,
    List.getElem?_eq_getElem hi]
  rfl

theorem cell (h : Alike rs object) {row : List (Option CString)} {columnId : Nat}
    (hrow : rs.curRow = some row) (hcolumn : columnId < rs.columns) :
    ∃ cell, row[columnId]? = some cell ∧
      object.string ((object.curRow * object.fieldCount + columnId) % 2 ^ 32) =
        some (cell.getD emptyString) := by
  have hpos := h.positioned.fetched
  have hat := h.positioned.current.symm.trans hrow
  have hcolumns := h.positioned.columns
  rw [hcolumns] at hcolumn
  have hlt : rs.dataCursor - 1 < rs.res.rows.length := (List.getElem?_eq_some_iff.mp hat).1
  have hwidth : row.length = rs.res.fields.length :=
    rs.res.width row (List.mem_of_getElem? hat)
  have hbound : (rs.dataCursor + 1) * rs.res.fields.length ≤ AtomicResult.total rs.res :=
    Nat.mul_le_mul_right _ (by omega)
  have hfits : AtomicResult.total rs.res < 2 ^ 32 := h.fits
  have hcursor : rs.dataCursor < 2 ^ 32 := by
    have hone := Nat.le_mul_of_pos_right (rs.dataCursor + 1) (Nat.zero_lt_of_lt hcolumn)
    omega
  have hindex : rs.dataCursor * rs.res.fields.length + columnId < 2 ^ 32 := by
    rw [Nat.succ_mul] at hbound
    omega
  refine ⟨row[columnId], List.getElem?_eq_getElem (hwidth ▸ hcolumn), ?_⟩
  rw [h.curRow, Nat.mod_eq_of_lt hcursor, h.fieldCount, hcolumns, Nat.mod_eq_of_lt hindex]
  refine h.copied.string _ _ ?_
  have hsplit : rs.dataCursor * rs.res.fields.length + columnId - rs.res.fields.length =
      (rs.dataCursor - 1) * rs.res.fields.length + columnId := by
    obtain ⟨k, hk⟩ := Nat.exists_eq_add_of_le' hpos
    rw [hk, Nat.succ_mul, Nat.add_sub_cancel]
    omega
  rw [AtomicResult.flat, List.getElem?_append_right (by
    rw [List.length_map]
    exact Nat.le_add_right_of_le (Nat.le_mul_of_pos_left _ hpos)), List.length_map, hsplit,
    getElem?_flatten_rows rs.res.width hcolumn, hat]
  exact List.getElem?_eq_getElem (hwidth ▸ hcolumn)

theorem findName (h : Alike rs object) (name : CString) {n : Nat}
    (hn : n ≤ rs.res.fields.length) :
    object.findName name (List.range' (rs.res.fields.length - n) n) =
      some (((rs.res.fields.drop (rs.res.fields.length - n)).findIdx? fun field =>
        decide (field.getD emptyString = name)).map (· + (rs.res.fields.length - n))) := by
  induction n with
  | zero => rw [Nat.sub_zero, List.drop_length]; rfl
  | succ n ih =>
      have hlt : rs.res.fields.length - (n + 1) < rs.res.fields.length := by omega
      have hnext : rs.res.fields.length - (n + 1) + 1 = rs.res.fields.length - n := by omega
      rw [List.range'_succ, AtomicResult.findName, h.name hlt, Option.bind_some, hnext,
        ih (Nat.le_of_succ_le hn), ← List.getElem_cons_drop hlt, hnext, List.findIdx?_cons]
      by_cases heq : (rs.res.fields[rs.res.fields.length - (n + 1)]).getD emptyString = name
      · rw [if_pos (strcmp_eq_zero.mpr (congrArg _ heq)), if_pos (decide_eq_true heq),
          Option.map_some, Nat.zero_add]
      · rw [if_neg fun hcmp => heq (CString.ext (strcmp_eq_zero.mp hcmp)),
          if_neg (by rwa [decide_eq_true_iff]), Option.map_map]
        refine congrArg some (congrArg (fun f => Option.map f _) (funext fun i => ?_))
        rw [Function.comp_apply]
        omega

theorem fieldNameToNum (h : Alike rs object) (name : CString) :
    object.fieldNameToNum name = some (rs.res.fields.findIdx? fun field =>
      decide (field.getD emptyString = name)) := by
  have hfound := h.findName name le_rfl
  rw [Nat.sub_self, List.drop_zero, ← List.range_eq_range'] at hfound
  rw [AtomicResult.fieldNameToNum, h.copied.fieldCount, hfound]
  exact congrArg some Option.map_id'

/-! Each call, and when it is answered alike. -/

theorem isDone_iff (h : Alike rs object) :
    rs.isDone = object.isDone ↔ Faithful rs .isDone := by
  rw [Bool.eq_iff_iff, h.positioned.isDone_iff, AtomicResult.isDone, decide_eq_true_iff, h.curRow,
    h.copied.rowCount]
  rfl

theorem fieldNumToName_eq (h : Alike rs object) (num : Nat) :
    object.fieldNumToName num = some (rs.fieldNumToName num) := by
  rw [AtomicResult.fieldNumToName, MysqlResultSet.fieldNumToName, h.fieldCount]
  split
  next => rfl
  next hnum =>
    have hlt : num < rs.res.fields.length := h.positioned.columns ▸ Nat.lt_of_not_le hnum
    rw [h.name hlt, List.getElem?_eq_getElem hlt]
    cases rs.res.fields[num] with
    | none => rfl
    | some name => rfl

theorem fieldNameToNum_iff (h : Alike rs object) (name : CString) :
    some (rs.fieldNameToNum name) = object.fieldNameToNum name ↔
      Faithful rs (.fieldNameToNum name) := by
  have hany : ∀ fieldName : CString,
      strcmp name.bytes fieldName.bytes = 0 ↔ fieldName = name := fun fieldName =>
    strcmp_eq_zero.trans (CString.ext_iff.symm.trans eq_comm)
  rw [h.fieldNameToNum, MysqlResultSet.fieldNameToNum, h.positioned.columns, List.take_length,
    Option.some.injEq, findIdx?_eq_iff]
  · constructor
    · rintro hfirst rfl i hi
      obtain ⟨j, hj, field, hfield, htrue⟩ := hfirst i none hi (decide_eq_true rfl) rfl
      cases field with
      | none => cases htrue
      | some fieldName =>
          obtain rfl := (hany fieldName).mp (decide_eq_true_iff.mp htrue)
          exact ⟨j, hj, hfield⟩
    · intro hfaithful i field hi hname hnot
      cases field with
      | none =>
          obtain rfl : emptyString = name := decide_eq_true_iff.mp hname
          obtain ⟨j, hj, hfield⟩ := hfaithful rfl i hi
          exact ⟨j, hj, some emptyString, hfield, decide_eq_true ((hany _).mpr rfl)⟩
      | some fieldName =>
          have hsame : fieldName = name := decide_eq_true_iff.mp hname
          exact absurd ((hany fieldName).mpr hsame) (decide_eq_false_iff_not.mp hnot)
  · intro field htrue
    cases field with
    | none => cases htrue
    | some fieldName => exact decide_eq_true ((hany fieldName).mp (decide_eq_true_iff.mp htrue))

theorem exists_row (hdone : rs.isDone = false) : ∃ row, rs.curRow = some row := by
  rwa [MysqlResultSet.isDone, Option.isNone_eq_false_iff, Option.isSome_iff_exists] at hdone

theorem getString_cases (h : Alike rs object) (hdone : rs.isDone = false) (columnId : Nat) :
    (columnId ≥ rs.columns ∧ rs.curRow.bind (·[columnId]?) = none ∧
        object.getString columnId = some none) ∨
      ∃ cell, ¬ columnId ≥ rs.columns ∧ rs.curRow.bind (·[columnId]?) = some cell ∧
        object.getString columnId = some (some (cell.getD emptyString)) := by
  obtain ⟨row, hrow⟩ := exists_row hdone
  have hat := h.positioned.current.symm.trans hrow
  have hwidth := rs.res.width row (List.mem_of_getElem? hat)
  by_cases hge : columnId ≥ rs.columns
  · refine .inl ⟨hge, ?_, ?_⟩
    · rw [hrow, Option.bind_some,
        List.getElem?_eq_none (hwidth.trans_le (h.positioned.columns ▸ hge))]
    · rw [AtomicResult.getString, h.fieldCount, if_pos hge]
  · obtain ⟨cell, hcell, hstring⟩ := h.cell hrow (Nat.lt_of_not_le hge)
    refine .inr ⟨cell, hge, ?_, ?_⟩
    · rw [hrow, Option.bind_some, hcell]
    · rw [AtomicResult.getString, if_neg (h.fieldCount ▸ hge)]
      exact congrArg (Option.map some) hstring

theorem faithful_read_iff {columnId : Nat} :
    Faithful rs (.getString columnId) ↔ rs.curRow.bind (·[columnId]?) ≠ some none := by
  rw [Faithful, Ne, Option.bind_eq_some_iff]
  exact ⟨fun h ⟨row, hrow, hcell⟩ => h row hrow hcell, fun h row hrow hcell => h ⟨row, hrow, hcell⟩⟩

theorem getString_iff (h : Alike rs object) (hdone : rs.isDone = false) (columnId : Nat) :
    rs.getString columnId = object.getString columnId ↔ Faithful rs (.getString columnId) := by
  rw [faithful_read_iff, MysqlResultSet.getString]
  rcases h.getString_cases hdone columnId with ⟨hge, hnone, hcopy⟩ | ⟨cell, hlt, hcell, hcopy⟩
  · rw [if_pos hge, hnone, hcopy]
    exact iff_of_true rfl (Option.some_ne_none _).symm
  · rw [if_neg hlt, hcell, hcopy]
    cases cell with
    | none => exact iff_of_false (by simp) fun hne => hne rfl
    | some s => exact iff_of_true rfl (by simp)

theorem isNull_iff (h : Alike rs object) (hdone : rs.isDone = false) (columnId : Nat) :
    rs.isNull columnId = object.isNull columnId ↔ Faithful rs (.isNull columnId) := by
  change _ ↔ Faithful rs (.getString columnId)
  rw [faithful_read_iff, MysqlResultSet.isNull, AtomicResult.isNull]
  rcases h.getString_cases hdone columnId with ⟨hge, hnone, hcopy⟩ | ⟨cell, hlt, hcell, hcopy⟩
  · rw [if_pos hge, hnone, hcopy]
    exact iff_of_true rfl (Option.some_ne_none _).symm
  · rw [if_neg hlt, hcell, hcopy]
    cases cell with
    | none => exact iff_of_false (by simp) fun hne => hne rfl
    | some s => exact iff_of_true rfl (by simp)

theorem getStringSafe_eq (h : Alike rs object) (hdone : rs.isDone = false) (columnId : Nat) :
    rs.getStringSafe columnId = object.getStringSafe columnId := by
  rw [MysqlResultSet.getStringSafe, AtomicResult.getStringSafe]
  rcases h.getString_cases hdone columnId with ⟨hge, -, hcopy⟩ | ⟨cell, hlt, hcell, hcopy⟩
  · rw [if_pos hge, hcopy]
    rfl
  · rw [if_neg hlt, hcell, hcopy]
    rfl

theorem answer_iff (h : Alike rs object) {c : ResultCall}
    (hread : c.reads = true → rs.isDone = false) :
    (rs.call c).2 = (object.call c).2 ↔ Faithful rs c := by
  cases c with
  | nextRow | rewind => exact iff_of_true rfl trivial
  | isDone =>
      change some (ResultAnswer.flag rs.isDone) = some (.flag object.isDone) ↔ _
      rw [Option.some.injEq, ResultAnswer.flag.injEq, h.isDone_iff]
  | rowCount =>
      exact iff_of_true (congrArg (fun n => some (ResultAnswer.number n)) h.rowCount.symm) trivial
  | fieldCount =>
      exact iff_of_true (congrArg (fun n => some (ResultAnswer.number n)) h.fieldCount.symm) trivial
  | fieldNumToName num =>
      exact iff_of_true (congrArg (Option.map ResultAnswer.text) (h.fieldNumToName_eq num).symm)
        trivial
  | fieldNameToNum name =>
      rw [← h.fieldNameToNum_iff]
      exact (Option.map_injective fun _ _ heq => ResultAnswer.column.inj heq).eq_iff
        (a := some (rs.fieldNameToNum name))
  | getString columnId =>
      rw [← h.getString_iff (hread rfl)]
      exact (Option.map_injective fun _ _ heq => ResultAnswer.text.inj heq).eq_iff
  | getStringSafe columnId =>
      exact iff_of_true (congrArg (Option.map _) (h.getStringSafe_eq (hread rfl) columnId)) trivial
  | getInt columnId =>
      exact iff_of_true (congrArg (Option.map _) (h.getStringSafe_eq (hread rfl) columnId)) trivial
  | isNull columnId =>
      rw [← h.isNull_iff (hread rfl)]
      exact (Option.map_injective fun _ _ heq => ResultAnswer.flag.inj heq).eq_iff

end Alike

/-- The object, after its earlier uses, takes the copy and answers as the original at its
first row does. -/
def CopyAnswers (fieldCount : Nat) (uses : List AtomicResult.Use) (res : MysqlRes)
    (calls : List ResultCall) : Prop :=
  ∃ object copied, run AtomicResult.use (.create fieldCount) uses = some object ∧
    object.copyFrom (.atFirst res) = some copied ∧
    answers MysqlResultSet.call (.atFirst res) calls = answers AtomicResult.call copied calls

theorem alike_copy {copied : AtomicResult} {res : MysqlRes}
    (hfits : AtomicResult.Fits res) (hcopied : copied.Copied res) (hfirst : copied.curRow = 1) :
    Alike (.atFirst res) copied := by
  have hres := MysqlResultSet.res_atFirst res
  exact ⟨MysqlResultSet.positioned_atFirst res, hres.symm ▸ hcopied, hres.symm ▸ hfits, hfirst⟩

theorem copyAnswers_iff (fieldCount : Nat) (uses : List AtomicResult.Use) (res : MysqlRes)
    (calls : List ResultCall)
    (hread : Meets (next MysqlResultSet.call) (fun rs c => c.reads = true → rs.isDone = false)
      (.atFirst res) calls) :
    CopyAnswers fieldCount uses res calls ↔
      Meets AtomicResult.use AtomicResult.Allowed (.create fieldCount) uses ∧
        AtomicResult.Fits res ∧
        Meets (next MysqlResultSet.call) Faithful (.atFirst res) calls := by
  have hexact : ∀ {copied : AtomicResult}, AtomicResult.Fits res → copied.Copied res →
      copied.curRow = 1 →
      (answers MysqlResultSet.call (.atFirst res) calls = answers AtomicResult.call copied calls ↔
        Meets (next MysqlResultSet.call) Faithful (.atFirst res) calls) :=
    fun hfits hcopied hfirst => answers_eq_iff (R := Alike) (fun {_ _ c} h => h.call c)
      (fun {_ _ _} h hreads => h.answer_iff hreads) (alike_copy hfits hcopied hfirst) hread
  constructor
  · rintro ⟨object, copied, hrun, hcopy, hanswers⟩
    have hsized := (AtomicResult.uses_keep hrun).1
    have hfits : AtomicResult.Fits res := by
      by_contra hnot
      cases hcopy.symm.trans (AtomicResult.copyFrom_eq_none hsized hnot)
    obtain ⟨copied', hcopy', -, hcopied, hfirst, -⟩ := AtomicResult.copyFrom_of_fits hsized hfits
    obtain rfl := Option.some.inj (hcopy.symm.trans hcopy')
    refine ⟨(AtomicResult.uses_isSome_iff fieldCount uses).mp ?_, hfits,
      (hexact hfits hcopied hfirst).mp hanswers⟩
    rw [hrun]
    rfl
  · rintro ⟨hallowed, hfits, hfaithful⟩
    obtain ⟨object, hrun⟩ := Option.isSome_iff_exists.mp
      ((AtomicResult.uses_isSome_iff fieldCount uses).mpr hallowed)
    obtain ⟨copied, hcopy, -, hcopied, hfirst, -⟩ :=
      AtomicResult.copyFrom_of_fits (AtomicResult.uses_keep hrun).1 hfits
    exact ⟨object, copied, hrun, hcopy, (hexact hfits hcopied hfirst).mpr hfaithful⟩

/-- One row with one cell in a field called `n`. -/
def oneCell (cell : Option CString) : MysqlRes where
  fields := [some ⟨[110], by decide⟩]
  rows := [[cell]]
  width := fun row hrow => by rw [List.mem_singleton.mp hrow]; rfl
  few := by decide

theorem copyAnswers_oneCell :
    Meets (next MysqlResultSet.call) (fun rs c => c.reads = true → rs.isDone = false)
        (.atFirst (oneCell (some ⟨[55], by decide⟩))) [.isNull 0, .nextRow, .isDone] ∧
      CopyAnswers 0 [] (oneCell (some ⟨[55], by decide⟩)) [.isNull 0, .nextRow, .isDone] := by
  have hread : Meets (next MysqlResultSet.call) (fun rs c => c.reads = true → rs.isDone = false)
      (.atFirst (oneCell (some ⟨[55], by decide⟩))) [.isNull 0, .nextRow, .isDone] := by decide
  have hfits : AtomicResult.total (oneCell (some ⟨[55], by decide⟩)) < 2 ^ 32 := by decide
  refine ⟨hread, (copyAnswers_iff 0 [] _ _ hread).mpr ⟨trivial, hfits, ?_⟩⟩
  refine Meets.cons (fun row hrow => ?_) rfl (Meets.cons trivial rfl (Meets.cons ?_ rfl trivial))
  · obtain rfl := Option.some.inj hrow
    exact fun hnull => by cases hnull
  · exact iff_of_true (by decide) (by decide)

theorem null_cell_copied :
    ¬ ∀ fieldCount uses res calls,
      Meets (next MysqlResultSet.call) (fun rs c => c.reads = true → rs.isDone = false)
        (.atFirst res) calls → CopyAnswers fieldCount uses res calls := by
  intro h
  obtain ⟨object, copied, hrun, hcopy, hanswers⟩ := h 0 [] (oneCell none) [.isNull 0] (by decide)
  obtain rfl := Option.some.inj hrun
  rw [AtomicResult.copyFrom_eq] at hcopy
  obtain rfl := Option.some.inj hcopy
  exact absurd hanswers (by decide)

end AmxModC.ResultSet
