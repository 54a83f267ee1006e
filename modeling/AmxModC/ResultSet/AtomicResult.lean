import AmxModC.Foundation.CString
import AmxModC.Foundation.Numeral
import AmxModC.Foundation.Run
import Mathlib.Data.List.Range
import Mathlib.Data.List.Perm.Basic

namespace AmxModC.ResultSet

open Foundation

/-! MysqlResultSet.cpp: a result set over the rows that the client keeps. -/

structure MysqlRes where
  fields : List (Option CString)
  rows : List (List (Option CString))
  width : ∀ row ∈ rows, row.length = fields.length
  few : fields.length < 2 ^ 32

/-- `dataCursor` is the client's: the number of rows fetched since it was put at the first,
the attempts behind the last row included. -/
structure MysqlResultSet where
  res : MysqlRes
  rows : Nat
  columns : Nat
  dataCursor : Nat
  curRow : Option (List (Option CString))

inductive ResultCall
  | isDone
  | nextRow
  | rewind
  | rowCount
  | fieldCount
  | fieldNumToName (num : Nat)
  | fieldNameToNum (name : CString)
  | getString (columnId : Nat)
  | getStringSafe (columnId : Nat)
  | getInt (columnId : Nat)
  | isNull (columnId : Nat)
deriving DecidableEq

inductive ResultAnswer
  | done
  | flag (value : Bool)
  | number (value : Nat)
  | text (value : Option CString)
  | column (found : Option Nat)
  | int (value : Int)
deriving DecidableEq

def ResultCall.reads : ResultCall → Bool
  | .getString _ | .getStringSafe _ | .getInt _ | .isNull _ => true
  | _ => false

def emptyString : CString := ⟨[], CString.noNul_nil⟩

namespace MysqlResultSet

def nextRow (rs : MysqlResultSet) : MysqlResultSet :=
  { rs with curRow := rs.res.rows[rs.dataCursor]?, dataCursor := rs.dataCursor + 1 }

def rewind (rs : MysqlResultSet) : MysqlResultSet := { rs with dataCursor := 0 }.nextRow

def create (res : MysqlRes) : MysqlResultSet :=
  let rs : MysqlResultSet := ⟨res, res.rows.length % 2 ^ 32, res.fields.length, 0, none⟩
  if rs.rows > 0 then rs.nextRow else rs

def atFirst (res : MysqlRes) : MysqlResultSet := (create res).rewind

def isDone (rs : MysqlResultSet) : Bool := rs.curRow.isNone

def fieldNumToName (rs : MysqlResultSet) (num : Nat) : Option CString :=
  if num ≥ rs.columns then none
  else
    match rs.res.fields[num]? with
    | some (some name) => some name
    | _ => some emptyString

def fieldNameToNum (rs : MysqlResultSet) (name : CString) : Option Nat :=
  (rs.res.fields.take rs.columns).findIdx? fun field =>
    field.any fun fieldName => strcmp name.bytes fieldName.bytes = 0

/-- `none` is a read through the null pointer of a result set that is done. -/
def getString (rs : MysqlResultSet) (columnId : Nat) : Option (Option CString) :=
  if columnId ≥ rs.columns then some none else rs.curRow.bind (·[columnId]?)

def getStringSafe (rs : MysqlResultSet) (columnId : Nat) : Option CString :=
  if columnId ≥ rs.columns then some emptyString
  else (rs.curRow.bind (·[columnId]?)).map (·.getD emptyString)

def isNull (rs : MysqlResultSet) (columnId : Nat) : Option Bool :=
  if columnId ≥ rs.columns then some true
  else (rs.curRow.bind (·[columnId]?)).map (·.isNone)

def call (rs : MysqlResultSet) : ResultCall → MysqlResultSet × Option ResultAnswer
  | .isDone => (rs, some (.flag rs.isDone))
  | .nextRow => (rs.nextRow, some .done)
  | .rewind => (rs.rewind, some .done)
  | .rowCount => (rs, some (.number rs.rows))
  | .fieldCount => (rs, some (.number rs.columns))
  | .fieldNumToName num => (rs, some (.text (rs.fieldNumToName num)))
  | .fieldNameToNum name => (rs, some (.column (rs.fieldNameToNum name)))
  | .getString columnId => (rs, (rs.getString columnId).map .text)
  | .getStringSafe columnId => (rs, (rs.getStringSafe columnId).map fun s => .text (some s))
  | .getInt columnId => (rs, (rs.getStringSafe columnId).map fun s => .int (atoi s.bytes))
  | .isNull columnId => (rs, (rs.isNull columnId).map .flag)

def pending (rs : MysqlResultSet) : List (List (Option CString)) :=
  rs.curRow.toList ++ rs.res.rows.drop rs.dataCursor

structure WellFormed (rs : MysqlResultSet) : Prop where
  rows : rs.rows = rs.res.rows.length % 2 ^ 32
  columns : rs.columns = rs.res.fields.length

structure Positioned (rs : MysqlResultSet) : Prop extends WellFormed rs where
  fetched : 0 < rs.dataCursor
  current : rs.curRow = rs.res.rows[rs.dataCursor - 1]?

variable {rs : MysqlResultSet}

theorem WellFormed.nextRow (h : rs.WellFormed) : rs.nextRow.Positioned :=
  ⟨⟨h.rows, h.columns⟩, Nat.succ_pos _, rfl⟩

theorem WellFormed.rewind (h : rs.WellFormed) : rs.rewind.Positioned :=
  ⟨⟨h.rows, h.columns⟩, Nat.succ_pos _, rfl⟩

theorem wellFormed_create (res : MysqlRes) : (create res).WellFormed := by
  rw [create]
  split
  next => exact ⟨rfl, rfl⟩
  next => exact ⟨rfl, rfl⟩

theorem res_create (res : MysqlRes) : (create res).res = res := by
  rw [create]
  split
  next => rfl
  next => rfl

theorem positioned_atFirst (res : MysqlRes) : (atFirst res).Positioned :=
  (wellFormed_create res).rewind

theorem res_atFirst (res : MysqlRes) : (atFirst res).res = res := res_create res

theorem Positioned.isDone_iff (h : rs.Positioned) :
    rs.isDone = true ↔ rs.res.rows.length < rs.dataCursor := by
  have hfetched := h.fetched
  rw [isDone, h.current, Option.isNone_iff_eq_none, List.getElem?_eq_none_iff]
  omega

theorem pending_atFirst (res : MysqlRes) : (atFirst res).pending = res.rows := by
  rw [pending, (positioned_atFirst res).current, res_atFirst]
  change res.rows[0]?.toList ++ res.rows.drop 1 = res.rows
  cases res.rows with
  | nil => rfl
  | cons row rows => rfl

theorem pending_nextRow (rs : MysqlResultSet) :
    rs.pending = rs.curRow.toList ++ rs.nextRow.pending :=
  congrArg (rs.curRow.toList ++ ·) List.drop_eq_getElem?_toList_append

theorem length_pending_nextRow (h : ¬ rs.isDone = true) :
    rs.nextRow.pending.length < rs.pending.length := by
  rw [isDone, Bool.not_eq_true, Option.isNone_eq_false_iff, Option.isSome_iff_exists] at h
  obtain ⟨row, hrow⟩ := h
  rw [pending_nextRow rs, hrow, List.length_append]
  exact Nat.lt_add_of_pos_left Nat.one_pos

theorem Positioned.pending_of_isDone (h : rs.Positioned) (hdone : rs.isDone = true) :
    rs.pending = [] := by
  have hlt := h.isDone_iff.mp hdone
  rw [isDone, Option.isNone_iff_eq_none] at hdone
  rw [pending, hdone, List.drop_eq_nil_of_le hlt.le]
  rfl

end MysqlResultSet

/-! threading.cpp: the object that takes a copy of a result set out of the worker, and its
table of strings. -/

/-- `SourceHook::String`; the serial number is that of the `new` that made it. -/
structure StringObject where
  serial : Nat
  v : Option CString
deriving DecidableEq

namespace StringObject

def cStr (s : StringObject) : CString := s.v.getD emptyString

def assign (s : StringObject) (d : Option CString) : StringObject :=
  match d with
  | some d => { s with v := some d }
  | none => { s with v := s.v.map fun _ => emptyString }

def create (serial : Nat) (src : Option CString) : StringObject := assign ⟨serial, none⟩ src

@[simp] theorem cStr_assign (s : StringObject) (d : Option CString) :
    (s.assign d).cStr = d.getD emptyString := by
  cases d with
  | some d => rfl
  | none =>
      cases hv : s.v with
      | none => rw [assign, cStr, hv]; rfl
      | some v => rw [assign, cStr, hv]; rfl

@[simp] theorem serial_assign (s : StringObject) (d : Option CString) :
    (s.assign d).serial = s.serial := by
  cases d with
  | some d => rfl
  | none => rfl

end StringObject

/-- `table` has no entry while `m_Table` is null; `created` counts the strings made. -/
structure AtomicResult where
  rowCount : Nat
  fieldCount : Nat
  allocSize : Nat
  table : List (Option StringObject)
  curRow : Nat
  isFree : Bool
  created : Nat
deriving DecidableEq

namespace AtomicResult

/-- The constructor leaves `m_FieldCount` as the memory was. -/
def create (fieldCount : Nat) : AtomicResult := ⟨0, fieldCount, 0, [], 1, true, 0⟩

/-- `m_Table[i]->c_str()`; `none` is an index outside of the table or a null entry. -/
def string (object : AtomicResult) (i : Nat) : Option CString :=
  match object.table[i]? with
  | some (some s) => some s.cStr
  | _ => none

def isDone (object : AtomicResult) : Bool := object.curRow > object.rowCount

def nextRow (object : AtomicResult) : AtomicResult :=
  { object with curRow := (object.curRow + 1) % 2 ^ 32 }

def rewind (object : AtomicResult) : AtomicResult := { object with curRow := 1 }

def fieldNumToName (object : AtomicResult) (num : Nat) : Option (Option CString) :=
  if num ≥ object.fieldCount then some none else (object.string num).map some

def findName (object : AtomicResult) (name : CString) : List Nat → Option (Option Nat)
  | [] => some none
  | i :: rest =>
      (object.string i).bind fun s =>
        if strcmp s.bytes name.bytes = 0 then some (some i) else object.findName name rest

def fieldNameToNum (object : AtomicResult) (name : CString) : Option (Option Nat) :=
  object.findName name (List.range object.fieldCount)

def getString (object : AtomicResult) (columnId : Nat) : Option (Option CString) :=
  if columnId ≥ object.fieldCount then some none
  else
    let idx := (object.curRow * object.fieldCount + columnId) % 2 ^ 32
    (object.string idx).map some

def getStringSafe (object : AtomicResult) (columnId : Nat) : Option CString :=
  (object.getString columnId).map (·.getD emptyString)

def isNull (object : AtomicResult) (columnId : Nat) : Option Bool :=
  (object.getString columnId).map (·.isNone)

def call (object : AtomicResult) : ResultCall → AtomicResult × Option ResultAnswer
  | .isDone => (object, some (.flag object.isDone))
  | .nextRow => (object.nextRow, some .done)
  | .rewind => (object.rewind, some .done)
  | .rowCount => (object, some (.number object.rowCount))
  | .fieldCount => (object, some (.number object.fieldCount))
  | .fieldNumToName num => (object, (object.fieldNumToName num).map .text)
  | .fieldNameToNum name => (object, (object.fieldNameToNum name).map .column)
  | .getString columnId => (object, (object.getString columnId).map .text)
  | .getStringSafe columnId =>
      (object, (object.getStringSafe columnId).map fun s => .text (some s))
  | .getInt columnId => (object, (object.getStringSafe columnId).map fun s => .int (atoi s.bytes))
  | .isNull columnId => (object, (object.isNull columnId).map .flag)

/-- `m_Table[i]->assign(d)`, or a new string where the entry is null. -/
def store (object : AtomicResult) (i : Nat) (d : Option CString) : Option AtomicResult :=
  match object.table[i]? with
  | none => none
  | some (some s) => some { object with table := object.table.set i (some (s.assign d)) }
  | some none =>
      some { object with
        table := object.table.set i (some (.create object.created d))
        created := object.created + 1 }

/-- The loop that stores names or the cells of a row from index `idx` on. -/
def storeAll : List (Option CString) → Nat → AtomicResult → Option AtomicResult
  | [], _, object => some object
  | d :: rest, idx, object => (object.store idx d).bind (storeAll rest ((idx + 1) % 2 ^ 32))

def copyRows (rs : MysqlResultSet) (idx : Nat) (object : AtomicResult) : Option AtomicResult :=
  if h : rs.isDone = true then some object
  else
    let cells := (List.range object.fieldCount).map fun i => (rs.curRow.bind (·[i]?)).join
    (storeAll cells idx object).bind fun object =>
      copyRows rs.nextRow ((idx + cells.length) % 2 ^ 32) object
termination_by rs.pending.length
decreasing_by exact MysqlResultSet.length_pending_nextRow h

def reserve (object : AtomicResult) (newTotal : Nat) : AtomicResult :=
  if newTotal > object.allocSize then
    { object with
      table := object.table ++ List.replicate (newTotal - object.allocSize) none
      allocSize := newTotal }
  else object

def copyFrom (object : AtomicResult) (rs : MysqlResultSet) : Option AtomicResult :=
  let newTotal := (rs.rows * rs.columns + rs.columns) % 2 ^ 32
  let filled :=
    { object with isFree := false, fieldCount := rs.columns, rowCount := rs.rows, curRow := 1 }
  let names := (List.range rs.columns).map rs.fieldNumToName
  (storeAll names 0 (filled.reserve newTotal)).bind (copyRows rs rs.columns)

def freeHandle (object : AtomicResult) : AtomicResult := { object with isFree := true }

/-- `delete m_Table[i]` for the indexes of a list; `none` is an index outside of the table. -/
def deleteStrings (object : AtomicResult) : List Nat → Option (List Nat)
  | [] => some []
  | i :: rest =>
      match object.table[i]? with
      | none => none
      | some entry => (object.deleteStrings rest).map ((entry.map (·.serial)).toList ++ ·)

/-- The destructor's loop, whose bound is `i<=m_AllocSize`, with the strings it deletes. -/
def destroy (object : AtomicResult) : Option (List Nat) :=
  object.deleteStrings (List.range (object.allocSize + 1))

inductive Use
  | copyFrom (res : MysqlRes)
  | freeHandle
  | call (c : ResultCall)

def use (object : AtomicResult) : Use → Option AtomicResult
  | .copyFrom res => object.copyFrom (.atFirst res)
  | .freeHandle => some object.freeHandle
  | .call c => (object.call c).2.map fun _ => (object.call c).1

end AtomicResult

end AmxModC.ResultSet
