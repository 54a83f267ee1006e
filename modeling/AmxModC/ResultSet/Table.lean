import AmxModC.ResultSet.AtomicResult

namespace AmxModC.ResultSet

open Foundation

/-! The table of strings: what a store changes, when the copy of a result set fits, and what
the destructor's loop reads. -/

namespace AtomicResult

/-- The table has the allocated size, which is an `unsigned int` when it is computed. -/
structure Sized (object : AtomicResult) : Prop where
  length : object.table.length = object.allocSize
  lt : object.allocSize < 2 ^ 32

def serials (table : List (Option StringObject)) : List Nat :=
  table.filterMap fun entry => entry.map (·.serial)

def HoldsStrings (object : AtomicResult) : Prop :=
  (serials object.table).Perm (List.range object.created)

variable {object object' : AtomicResult} {i idx : Nat} {d : Option CString}
  {data : List (Option CString)}

/-! What one store does. -/

def withTable (object : AtomicResult) (table : List (Option StringObject)) (created : Nat) :
    AtomicResult :=
  { object with table := table, created := created }

theorem store_cases (hlt : i < object.table.length) :
    ∃ s created, object.store i d = some (object.withTable (object.table.set i (some s)) created) ∧
      s.cStr = d.getD emptyString ∧
      ((∃ old, object.table[i]? = some (some old) ∧ s.serial = old.serial ∧
          created = object.created) ∨
        (object.table[i]? = some none ∧ s.serial = object.created ∧
          created = object.created + 1)) := by
  have hentry := List.getElem?_eq_getElem hlt
  cases hat : object.table[i] with
  | some old =>
      rw [hat] at hentry
      refine ⟨old.assign d, object.created, ?_, old.cStr_assign d,
        .inl ⟨old, hentry, old.serial_assign d, rfl⟩⟩
      rw [store, hentry]
      rfl
  | none =>
      rw [hat] at hentry
      refine ⟨.create object.created d, object.created + 1, ?_,
        StringObject.cStr_assign _ d, .inr ⟨hentry, StringObject.serial_assign _ d, rfl⟩⟩
      rw [store, hentry]
      rfl

theorem store_eq_none (hge : object.table.length ≤ i) : object.store i d = none := by
  rw [store, List.getElem?_eq_none hge]

theorem serials_append (first second : List (Option StringObject)) :
    serials (first ++ second) = serials first ++ serials second := List.filterMap_append

theorem serials_cons (entry : Option StringObject) (rest : List (Option StringObject)) :
    serials (entry :: rest) = (entry.map (·.serial)).toList ++ serials rest := by
  cases entry with
  | none => rfl
  | some s => rfl

theorem serials_replicate (n : Nat) : serials (List.replicate n none) = [] := by
  induction n with
  | zero => rfl
  | succ n ih => rw [List.replicate_succ, serials_cons, ih]; rfl

theorem HoldsStrings.store (h : object.HoldsStrings) (hlt : i < object.table.length)
    (hstore : object.store i d = some object') : object'.HoldsStrings := by
  obtain ⟨s, created, hsome, -, hcase⟩ := store_cases (d := d) hlt
  obtain rfl := Option.some.inj (hsome.symm.trans hstore)
  have hsplit : object.table = object.table.take i ++ object.table[i] :: object.table.drop (i + 1) := by
    rw [List.cons_getElem_drop_succ, List.take_append_drop]
  rw [HoldsStrings, hsplit, serials_append, serials_cons] at h
  change (serials (object.table.set i (some s))).Perm (List.range created)
  rw [List.set_eq_take_append_cons_drop, if_pos hlt, serials_append, serials_cons]
  rcases hcase with ⟨old, hold, hserial, rfl⟩ | ⟨hnone, hserial, rfl⟩
  · rw [(List.getElem?_eq_some_iff.mp hold).2] at h
    rwa [Option.map_some, hserial]
  · rw [(List.getElem?_eq_some_iff.mp hnone).2] at h
    rw [Option.map_some, hserial, List.range_succ]
    exact (List.perm_append_comm_assoc _ _ _).trans
      ((h.cons object.created).trans (List.perm_append_singleton _ _).symm)

/-! What a run of stores does. -/

/-- From index `idx` on the strings are those of `data`, and the rest is as it was. -/
structure Stores (object object' : AtomicResult) (idx : Nat) (data : List (Option CString)) :
    Prop where
  frame : object' = object.withTable object'.table object'.created
  length : object'.table.length = object.table.length
  written : ∀ k d, data[k]? = some d → object'.string (idx + k) = some (d.getD emptyString)
  others : ∀ j, j < idx → object'.string j = object.string j
  strings : object.HoldsStrings → object'.HoldsStrings

theorem string_of_getElem? {s : StringObject} (h : object.table[i]? = some (some s)) :
    object.string i = some s.cStr := by
  rw [string, h]

theorem string_congr (h : object'.table[i]? = object.table[i]?) :
    object'.string i = object.string i := by
  rw [string, string, h]

theorem storeAll_stores (hlt : object.table.length < 2 ^ 32)
    (hroom : idx + data.length ≤ object.table.length) :
    ∃ object', storeAll data idx object = some object' ∧ Stores object object' idx data := by
  induction data generalizing idx object with
  | nil => exact ⟨object, rfl, rfl, rfl, fun _ _ h => (by cases h), fun _ _ => rfl, id⟩
  | cons d rest ih =>
      rw [List.length_cons] at hroom
      have hidx : idx < object.table.length := by omega
      obtain ⟨s, created, hstore, hcStr, -⟩ := store_cases (d := d) hidx
      have hlength : (object.withTable (object.table.set idx (some s)) created).table.length =
          object.table.length := List.length_set
      have hnext : idx + 1 + rest.length ≤
          (object.withTable (object.table.set idx (some s)) created).table.length := by
        rw [hlength]
        omega
      obtain ⟨object', hrest, hstores⟩ := ih (hlength ▸ hlt) hnext
      refine ⟨object', ?_, hstores.frame, hstores.length.trans hlength, fun k e hk => ?_,
        fun j hj => ?_, fun hholds => hstores.strings (hholds.store hidx hstore)⟩
      · rw [storeAll, hstore, Option.bind_some, Nat.mod_eq_of_lt (by omega), hrest]
      · cases k with
        | zero =>
            obtain rfl : d = e := Option.some.inj hk
            rw [Nat.add_zero, hstores.others idx (Nat.lt_succ_self idx), ← hcStr]
            exact string_of_getElem? (List.getElem?_set_self hidx)
        | succ k =>
            rw [show idx + (k + 1) = idx + 1 + k by omega]
            exact hstores.written k e hk
      · rw [hstores.others j (by omega)]
        exact string_congr (List.getElem?_set_ne (by omega))

theorem storeAll_eq_none (hlt : object.table.length < 2 ^ 32) (hidx : idx ≤ object.table.length)
    (hroom : object.table.length < idx + data.length) : storeAll data idx object = none := by
  induction data generalizing idx object with
  | nil => exact absurd hroom (by rw [List.length_nil]; omega)
  | cons d rest ih =>
      rw [List.length_cons] at hroom
      rw [storeAll]
      rcases Nat.lt_or_eq_of_le hidx with hless | heq
      · obtain ⟨s, created, hstore, -⟩ := store_cases (d := d) hless
        have hlength : (object.withTable (object.table.set idx (some s)) created).table.length =
            object.table.length := List.length_set
        rw [hstore, Option.bind_some, Nat.mod_eq_of_lt (by omega)]
        exact ih (hlength ▸ hlt) (by omega) (by omega)
      · rw [store_eq_none heq.ge, Option.bind_none]

theorem storeAll_append {first second : List (Option CString)} (hidx : idx < 2 ^ 32) :
    storeAll (first ++ second) idx object =
      (storeAll first idx object).bind (storeAll second ((idx + first.length) % 2 ^ 32)) := by
  induction first generalizing idx object with
  | nil => rw [List.nil_append, List.length_nil, Nat.add_zero, Nat.mod_eq_of_lt hidx]; rfl
  | cons d rest ih =>
      rw [List.cons_append, storeAll, storeAll, Option.bind_assoc]
      refine congrArg _ (funext fun object => ?_)
      rw [ih (Nat.mod_lt _ (by decide)), List.length_cons, Nat.mod_add_mod]
      exact congrArg _ (congrArg (fun n => storeAll second (n % 2 ^ 32)) (by omega))

theorem fieldCount_storeAll (h : storeAll data idx object = some object') :
    object'.fieldCount = object.fieldCount := by
  induction data generalizing idx object with
  | nil =>
      obtain rfl := Option.some.inj h
      rfl
  | cons d rest ih =>
      obtain ⟨middle, hstore, hrest⟩ := Option.bind_eq_some_iff.mp h
      rw [ih hrest]
      rcases Nat.lt_or_ge idx object.table.length with hlt | hge
      · obtain ⟨s, created, hsome, -⟩ := store_cases (d := d) hlt
        rw [hsome] at hstore
        obtain rfl := Option.some.inj hstore
        rfl
      · rw [store_eq_none hge] at hstore
        cases hstore

/-! The copy of a result set as one run of stores. -/

def flat (res : MysqlRes) : List (Option CString) :=
  res.fields.map (fun name => some (name.getD emptyString)) ++ res.rows.flatten

def total (res : MysqlRes) : Nat := (res.rows.length + 1) * res.fields.length

theorem length_flat (res : MysqlRes) : (flat res).length = total res := by
  have hcells : res.rows.flatten.length = res.rows.length * res.fields.length := by
    rw [List.length_flatten, List.map_congr_left fun row hrow => res.width row hrow,
      List.map_const', List.sum_replicate_nat]
  rw [flat, List.length_append, List.length_map, hcells, total, Nat.succ_mul, Nat.add_comm]

theorem cells_eq {row : List (Option CString)} {n : Nat} (h : row.length = n) :
    ((List.range n).map fun i => ((some row).bind (·[i]?)).join) = row := by
  refine List.ext_getElem? fun i => ?_
  rw [List.getElem?_map]
  rcases Nat.lt_or_ge i n with hlt | hge
  · rw [List.getElem?_range hlt, Option.map_some, Option.bind_some,
      List.getElem?_eq_getElem (by omega)]
    rfl
  · rw [List.getElem?_eq_none (by rwa [List.length_range]), List.getElem?_eq_none (by omega)]
    rfl

theorem copyRows_eq {rs : MysqlResultSet} (hrs : rs.Positioned) (hidx : idx < 2 ^ 32)
    (hcount : object.fieldCount = rs.res.fields.length) :
    copyRows rs idx object = storeAll rs.pending.flatten idx object := by
  induction hpending : rs.pending generalizing rs idx object with
  | nil =>
      rw [copyRows, dif_pos]
      · rfl
      · by_contra hdone
        exact absurd (MysqlResultSet.length_pending_nextRow hdone) (by rw [hpending]; simp)
  | cons row rest ih =>
      have hdone : ¬ rs.isDone = true := fun hdone => by
        rw [hrs.pending_of_isDone hdone] at hpending
        cases hpending
      obtain ⟨current, hcurrent⟩ : ∃ current, rs.curRow = some current := by
        rwa [MysqlResultSet.isDone, Bool.not_eq_true, Option.isNone_eq_false_iff,
          Option.isSome_iff_exists] at hdone
      have hsplit := hpending
      rw [MysqlResultSet.pending_nextRow, hcurrent, Option.toList_some, List.singleton_append,
        List.cons.injEq] at hsplit
      obtain ⟨rfl, hnext⟩ := hsplit
      have hwidth : current.length = rs.res.fields.length :=
        rs.res.width current (List.mem_of_getElem? (hrs.current.symm.trans hcurrent))
      rw [copyRows, dif_neg hdone, List.flatten_cons, storeAll_append hidx, hcount, hcurrent,
        cells_eq hwidth]
      refine Option.bind_congr fun middle hmiddle => ?_
      exact ih hrs.toWellFormed.nextRow (Nat.mod_lt _ (by decide))
        ((fieldCount_storeAll hmiddle).trans hcount) hnext

theorem names_eq {rs : MysqlResultSet} (hrs : rs.WellFormed) :
    (List.range rs.columns).map rs.fieldNumToName =
      rs.res.fields.map fun name => some (name.getD emptyString) := by
  refine List.ext_getElem? fun i => ?_
  rw [List.getElem?_map, List.getElem?_map, hrs.columns]
  rcases Nat.lt_or_ge i rs.res.fields.length with hlt | hge
  · rw [List.getElem?_range hlt, List.getElem?_eq_getElem hlt, Option.map_some, Option.map_some,
      MysqlResultSet.fieldNumToName, hrs.columns, if_neg (by omega), List.getElem?_eq_getElem hlt]
    cases rs.res.fields[i] with
    | none => rfl
    | some name => rfl
  · rw [List.getElem?_eq_none (by rwa [List.length_range]), List.getElem?_eq_none hge]
    rfl

/-- What `CopyFrom` sets before it makes the table larger. -/
def reset (object : AtomicResult) (res : MysqlRes) : AtomicResult :=
  { object with
    isFree := false
    fieldCount := res.fields.length
    rowCount := res.rows.length % 2 ^ 32
    curRow := 1 }

def emptied (object : AtomicResult) (res : MysqlRes) : AtomicResult :=
  (object.reset res).reserve (total res % 2 ^ 32)

theorem copyFrom_eq (object : AtomicResult) (res : MysqlRes) :
    object.copyFrom (.atFirst res) = storeAll (flat res) 0 (object.emptied res) := by
  have hrs := MysqlResultSet.positioned_atFirst res
  have hres := MysqlResultSet.res_atFirst res
  have hcolumns : (MysqlResultSet.atFirst res).columns = res.fields.length :=
    hrs.columns.trans (by rw [hres])
  have hrows : (MysqlResultSet.atFirst res).rows = res.rows.length % 2 ^ 32 :=
    hrs.rows.trans (by rw [hres])
  have htotal : (res.rows.length % 2 ^ 32 * res.fields.length + res.fields.length) % 2 ^ 32 =
      total res % 2 ^ 32 := by
    rw [total, Nat.succ_mul, Nat.add_mod, Nat.mod_mul_mod, ← Nat.add_mod]
  rw [copyFrom, names_eq hrs.toWellFormed, hcolumns, hrows, htotal, hres, flat,
    storeAll_append (by decide), List.length_map, Nat.zero_add, Nat.mod_eq_of_lt res.few]
  refine Option.bind_congr fun middle hmiddle => ?_
  have hcount : middle.fieldCount = (MysqlResultSet.atFirst res).res.fields.length := by
    rw [fieldCount_storeAll hmiddle, hres, AtomicResult.reserve]
    split
    next => rfl
    next => rfl
  rw [copyRows_eq hrs res.few hcount, MysqlResultSet.pending_atFirst]

/-- The strings of a result set can be counted in an `unsigned int`. -/
def Fits (res : MysqlRes) : Prop := total res < 2 ^ 32

theorem Sized.reserve (h : object.Sized) {newTotal : Nat} (hlt : newTotal < 2 ^ 32) :
    (object.reserve newTotal).Sized ∧ newTotal ≤ (object.reserve newTotal).allocSize := by
  rw [AtomicResult.reserve]
  split
  next hgrow =>
    refine ⟨⟨?_, hlt⟩, le_rfl⟩
    rw [List.length_append, List.length_replicate, h.length]
    exact Nat.add_sub_cancel' hgrow.le
  next hkeep => exact ⟨h, Nat.le_of_not_lt hkeep⟩

theorem HoldsStrings.reserve (h : object.HoldsStrings) (newTotal : Nat) :
    (object.reserve newTotal).HoldsStrings := by
  rw [AtomicResult.reserve]
  split
  next =>
    rwa [HoldsStrings, serials_append, serials_replicate, List.append_nil]
  next => exact h

theorem Sized.emptied (h : object.Sized) (res : MysqlRes) :
    (object.emptied res).Sized ∧ total res % 2 ^ 32 ≤ (object.emptied res).allocSize := by
  have hreset : (object.reset res).Sized := ⟨h.length, h.lt⟩
  exact hreset.reserve (Nat.mod_lt _ (by decide))

theorem HoldsStrings.emptied (h : object.HoldsStrings) (res : MysqlRes) :
    (object.emptied res).HoldsStrings := by
  have hreset : (object.reset res).HoldsStrings := h
  exact hreset.reserve _

structure Copied (object : AtomicResult) (res : MysqlRes) : Prop where
  rowCount : object.rowCount = res.rows.length % 2 ^ 32
  fieldCount : object.fieldCount = res.fields.length
  string : ∀ i d, (flat res)[i]? = some d → object.string i = some (d.getD emptyString)

theorem Stores.sized (h : Stores object object' idx data) (hsized : object.Sized) :
    object'.Sized := by
  have hsame : object'.allocSize = object.allocSize := by rw [h.frame]; rfl
  exact ⟨h.length.trans (hsized.length.trans hsame.symm), hsame ▸ hsized.lt⟩

theorem frame_emptied (object : AtomicResult) (res : MysqlRes) :
    (object.emptied res).rowCount = res.rows.length % 2 ^ 32 ∧
      (object.emptied res).fieldCount = res.fields.length ∧ (object.emptied res).curRow = 1 := by
  rw [AtomicResult.emptied, AtomicResult.reserve]
  split
  next => exact ⟨rfl, rfl, rfl⟩
  next => exact ⟨rfl, rfl, rfl⟩

theorem copyFrom_of_fits (h : object.Sized) {res : MysqlRes} (hfits : Fits res) :
    ∃ copied, object.copyFrom (.atFirst res) = some copied ∧ copied.Sized ∧
      copied.Copied res ∧ copied.curRow = 1 ∧ (object.HoldsStrings → copied.HoldsStrings) := by
  obtain ⟨hsized, hroom⟩ := h.emptied res
  obtain ⟨hrows, hfields, hfirst⟩ := frame_emptied object res
  have htotal : (flat res).length ≤ (object.emptied res).table.length := by
    rwa [length_flat, hsized.length, ← Nat.mod_eq_of_lt hfits]
  obtain ⟨copied, hcopied, hstores⟩ :=
    storeAll_stores (hsized.length ▸ hsized.lt) ((Nat.zero_add _).le.trans htotal)
  refine ⟨copied, (copyFrom_eq object res).trans hcopied, hstores.sized hsized, ⟨?_, ?_, ?_⟩, ?_,
    fun hholds => hstores.strings (hholds.emptied res)⟩
  · rw [hstores.frame]; exact hrows
  · rw [hstores.frame]; exact hfields
  · exact fun i d hd => (Nat.zero_add i) ▸ hstores.written i d hd
  · rw [hstores.frame]; exact hfirst

theorem copyFrom_eq_none (h : object.Sized) {res : MysqlRes} (hfits : ¬ Fits res) :
    object.copyFrom (.atFirst res) = none := by
  obtain ⟨hsized, -⟩ := h.emptied res
  rw [copyFrom_eq]
  refine storeAll_eq_none (hsized.length ▸ hsized.lt) (Nat.zero_le _) ?_
  rw [length_flat, hsized.length, Nat.zero_add]
  exact hsized.lt.trans_le (Nat.le_of_not_lt hfits)

/-! The object over its uses, and its destruction. -/

def Allowed (object : AtomicResult) : Use → Prop
  | .copyFrom res => Fits res
  | .freeHandle => True
  | .call c => (object.call c).2.isSome

theorem sized_call (h : object.Sized) (c : ResultCall) : (object.call c).1.Sized := by
  cases c with
  | nextRow | rewind => exact ⟨h.length, h.lt⟩
  | isDone | rowCount | fieldCount | fieldNumToName _ | fieldNameToNum _ | getString _
  | getStringSafe _ | getInt _ | isNull _ => exact h

theorem holdsStrings_call (h : object.HoldsStrings) (c : ResultCall) :
    (object.call c).1.HoldsStrings := by
  cases c with
  | nextRow | rewind => exact h
  | isDone | rowCount | fieldCount | fieldNumToName _ | fieldNameToNum _ | getString _
  | getStringSafe _ | getInt _ | isNull _ => exact h

theorem use_keeps (h : object.Sized ∧ object.HoldsStrings) {u : Use}
    (huse : object.use u = some object') : object'.Sized ∧ object'.HoldsStrings := by
  cases u with
  | freeHandle =>
      obtain rfl := Option.some.inj huse
      exact ⟨⟨h.1.length, h.1.lt⟩, h.2⟩
  | call c =>
      obtain ⟨-, -, rfl⟩ := Option.map_eq_some_iff.mp huse
      exact ⟨sized_call h.1 c, holdsStrings_call h.2 c⟩
  | copyFrom res =>
      by_cases hfits : Fits res
      · obtain ⟨copied, hcopied, hsized, -, -, hholds⟩ := copyFrom_of_fits h.1 hfits
        obtain rfl := Option.some.inj (hcopied.symm.trans huse)
        exact ⟨hsized, hholds h.2⟩
      · have hnone := copyFrom_eq_none h.1 hfits
        cases hnone.symm.trans huse

theorem use_isSome_iff (h : object.Sized) (u : Use) :
    (object.use u).isSome ↔ object.Allowed u := by
  cases u with
  | freeHandle => exact iff_of_true rfl trivial
  | call c => rw [use, Option.isSome_map]; rfl
  | copyFrom res =>
      by_cases hfits : Fits res
      · obtain ⟨copied, hcopied, -⟩ := copyFrom_of_fits h hfits
        refine iff_of_true ?_ hfits
        rw [use, hcopied]
        rfl
      · refine iff_of_false ?_ hfits
        rw [use, copyFrom_eq_none h hfits]
        exact Bool.false_ne_true

theorem create_keeps (fieldCount : Nat) :
    (create fieldCount).Sized ∧ (create fieldCount).HoldsStrings :=
  ⟨⟨rfl, Nat.two_pow_pos 32⟩, List.Perm.nil⟩

theorem uses_keep {fieldCount : Nat} {uses : List Use}
    (hrun : run use (create fieldCount) uses = some object) :
    object.Sized ∧ object.HoldsStrings := by
  have hmeets : Meets use (fun _ _ => True) (create fieldCount) uses :=
    meets_of_forall fun _ _ => trivial
  exact run_invariant (I := fun object => object.Sized ∧ object.HoldsStrings)
    (fun hkeep _ huse => use_keeps hkeep huse) (create_keeps fieldCount) hmeets hrun

theorem uses_isSome_iff (fieldCount : Nat) (uses : List Use) :
    (run use (create fieldCount) uses).isSome ↔ Meets use Allowed (create fieldCount) uses :=
  run_isSome_iff_meets (I := fun object => object.Sized ∧ object.HoldsStrings)
    (fun hkeep huse => use_keeps hkeep huse) (fun hkeep => use_isSome_iff hkeep.1 _)
    (create_keeps fieldCount)

theorem deleteStrings_append (first second : List Nat) :
    object.deleteStrings (first ++ second) = (object.deleteStrings first).bind fun deleted =>
      (object.deleteStrings second).map (deleted ++ ·) := by
  induction first with
  | nil => exact Option.map_id'.symm
  | cons i rest ih =>
      rw [List.cons_append, deleteStrings, deleteStrings, ih]
      cases object.table[i]? with
      | none => rfl
      | some entry =>
          change ((object.deleteStrings rest).bind _).map _ =
            ((object.deleteStrings rest).map _).bind _
          rw [Option.map_bind, Option.bind_map]
          refine congrArg _ (funext fun deleted => ?_)
          rw [Function.comp_apply, Option.map_map, Function.comp_apply]
          exact congrArg (fun f => Option.map f _)
            (funext fun later => (List.append_assoc _ _ _).symm)

theorem deleteStrings_range {n : Nat} (hn : n ≤ object.table.length) :
    object.deleteStrings (List.range n) = some (serials (object.table.take n)) := by
  induction n with
  | zero => rfl
  | succ n ih =>
      have hlt : n < object.table.length := hn
      rw [List.range_succ, deleteStrings_append, ih (Nat.le_of_succ_le hn), Option.bind_some,
        deleteStrings, List.getElem?_eq_getElem hlt, List.take_add_one,
        List.getElem?_eq_getElem hlt, serials_append, Option.toList_some, serials_cons]
      rfl

theorem Sized.destroy_eq_none (h : object.Sized) : object.destroy = none := by
  rw [destroy, List.range_succ, deleteStrings_append, deleteStrings_range h.length.ge,
    Option.bind_some, deleteStrings, List.getElem?_eq_none h.length.le]
  rfl

def StaysInside (fieldCount : Nat) (uses : List Use) : Prop :=
  ∃ object deleted, run use (create fieldCount) uses = some object ∧
    object.destroy = some deleted ∧ deleted.Perm (List.range object.created)

theorem not_staysInside (fieldCount : Nat) (uses : List Use) : ¬ StaysInside fieldCount uses := by
  rintro ⟨object, deleted, hrun, hdestroy, -⟩
  rw [(uses_keep hrun).1.destroy_eq_none] at hdestroy
  cases hdestroy

theorem unused_object_destroyed : ¬ ∀ fieldCount uses, StaysInside fieldCount uses := by
  intro h
  obtain ⟨object, deleted, hrun, hdestroy, -⟩ := h 0 []
  obtain rfl := Option.some.inj hrun
  cases (show (create 0).destroy = none from rfl).symm.trans hdestroy

end AtomicResult

end AmxModC.ResultSet
