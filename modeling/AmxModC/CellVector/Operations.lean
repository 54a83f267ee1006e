import AmxModC.CellVector.Records

namespace AmxModC.CellVector

open Foundation

/-! One lemma an operation: when its accesses are inside the block, and what the
records are afterwards. -/

structure SameShape (first second : CellVector) : Prop where
  cellcount : second.cellcount = first.cellcount
  cursize : second.cursize = first.cursize
  count : second.count = first.count
  length : second.block.length = first.block.length

theorem SameShape.trans {first second third : CellVector}
    (hfirst : SameShape first second) (hsecond : SameShape second third) :
    SameShape first third :=
  ⟨hsecond.cellcount.trans hfirst.cellcount, hsecond.cursize.trans hfirst.cursize,
    hsecond.count.trans hfirst.count, hsecond.length.trans hfirst.length⟩

theorem SameShape.wellFormed {first second : CellVector} (h : SameShape first second)
    (hfirst : first.WellFormed) : second.WellFormed where
  width_pos := h.cellcount ▸ hfirst.width_pos
  size := by rw [h.length, h.cursize, h.cellcount, hfirst.size]
  fits := by rw [h.cursize, h.count]; exact hfirst.fits

theorem SameShape.records_set {first second : CellVector} (h : SameShape first second)
    {which : Nat} {item : List Cell}
    (hrecord : ∀ other, Block.record first.cellcount second.block other =
      if other = which then item else Block.record first.cellcount first.block other) :
    second.records = first.records.set which item := by
  apply records_eq_of (by simp [h.count])
  intro index hindex
  rw [h.cellcount, hrecord, List.getElem_set, getElem_records]
  simp only [eq_comm]

theorem store_eq_some {v next : CellVector} {start : Nat} {cells : List Cell}
    (h : v.store start cells = some next) :
    SameShape v next ∧ Block.write v.block start cells = some next.block := by
  unfold store at h
  obtain ⟨block, hwrite, rfl⟩ := Option.map_eq_some_iff.mp h
  exact ⟨⟨rfl, rfl, rfl, Block.length_of_write hwrite⟩, hwrite⟩

theorem store_isSome {v : CellVector} {start : Nat} {cells : List Cell} :
    (v.store start cells).isSome ↔ start + cells.length ≤ v.block.length := by
  simp [store, Block.write_isSome]

theorem exists_store {v : CellVector} {start : Nat} {cells : List Cell}
    (h : start + cells.length ≤ v.block.length) :
    ∃ next, v.store start cells = some next :=
  Option.isSome_iff_exists.mp (store_isSome.mpr h)

theorem WellFormed.record_end {v : CellVector} (hv : v.WellFormed) {which : Nat}
    (h : which < v.count) :
    v.cellcount * which + v.cellcount ≤ v.block.length := by
  have := Block.record_end_le v.cellcount h
  have := hv.count_le
  rw [Nat.mul_comm]
  omega

/-! Reading. -/

theorem load_record {v : CellVector} (hv : v.WellFormed) {which : Nat}
    (h : which < v.count) :
    v.load (v.cellcount * which) v.cellcount =
      some (Block.record v.cellcount v.block which) := by
  unfold load
  rw [Block.read_of_le (hv.record_end h), Nat.mul_comm]
  rfl

theorem getArray_spec {v : CellVector} (hv : v.WellFormed) (which : Nat) :
    v.getArray which =
      some ((v.records[which]?).elim ⟨0, []⟩ fun item => ⟨1, item⟩) := by
  unfold getArray
  split
  · rename_i hge
    simp [List.getElem?_eq_none (show v.records.length ≤ which by simpa using hge)]
  · rename_i hlt
    rw [load_record hv (by omega),
      List.getElem?_eq_getElem (show which < v.records.length by simp; omega),
      getElem_records]
    rfl

theorem getCell_spec {v : CellVector} (hv : v.WellFormed) (which : Nat) :
    v.getCell which =
      some ((v.records[which]?).elim ⟨0, []⟩ fun item => ⟨1, item.take 1⟩) := by
  unfold getCell
  split
  · rename_i hge
    simp [List.getElem?_eq_none (show v.records.length ≤ which by simpa using hge)]
  · rename_i hlt
    have hend := hv.record_end (show which < v.count by omega)
    have hwidth := hv.width_pos
    rw [load, Block.read_of_le (by omega),
      List.getElem?_eq_getElem (show which < v.records.length by simp; omega),
      getElem_records]
    simp [Block.record, List.take_take, Nat.mul_comm, Nat.min_eq_left hwidth]

/-! `GetString`. -/

def stringLength (item : List Cell) : Nat := (item.takeWhile (· ≠ 0)).length

@[simp] theorem stringLength_nil : stringLength [] = 0 := rfl

@[simp] theorem stringLength_cons (cell : Cell) (rest : List Cell) :
    stringLength (cell :: rest) = if cell = 0 then 0 else stringLength rest + 1 := by
  unfold stringLength
  by_cases h : cell = 0#32 <;> simp [h]

theorem copyString_spec (v : CellVector) (item : List Cell) (out size : Nat)
    (hitem : ∀ offset < item.length, v.block[out + offset]? = item[offset]?) :
    ∃ copied next left,
      v.copyString out size item.length = some (copied, next, left) ∧
      copied = item.take (min size (stringLength item + 1)) ∧
      next = out + copied.length ∧
      (left = 0 ↔ size = stringLength item + 1) := by
  induction item generalizing out size with
  | nil =>
      cases size with
      | zero => exact ⟨[], out, sizeMax, by simp [copyString, sizeMax]⟩
      | succ size =>
          exact ⟨[], out, size, by simp [copyString], by simp, by simp, by simp⟩
  | cons cell rest ih =>
      have hcell : v.block[out]? = some cell := by
        simpa using hitem 0 (by simp)
      have hrest : ∀ offset < rest.length, v.block[out + 1 + offset]? = rest[offset]? := by
        intro offset hoffset
        have := hitem (offset + 1) (by simpa using hoffset)
        rw [show out + 1 + offset = out + (offset + 1) by omega, this]
        rfl
      cases size with
      | zero => exact ⟨[], out, sizeMax, by simp [copyString, sizeMax]⟩
      | succ size =>
          by_cases hzero : cell = 0#32
          · refine ⟨[cell], out + 1, size, ?_, ?_, rfl, ?_⟩
            · simp [copyString, hcell, hzero]
            · simp [hzero]
            · simp [hzero]
          · obtain ⟨copied, next, left, hloop, hcopied, hnext, hleft⟩ :=
              ih (out + 1) size hrest
            refine ⟨cell :: copied, next, left, ?_, ?_, ?_, ?_⟩
            · simp [copyString, hcell, hzero, hloop]
            · simp [hzero, hcopied, Nat.succ_min_succ]
            · simp only [hnext, List.length_cons]
              omega
            · simp [hleft, hzero]

/-- The cell behind the copied ones, when `GetString` terminates its source. -/
def strayCell (v : CellVector) (which : Nat) : Nat :=
  v.cellcount * which +
    min (stringLength (Block.record v.cellcount v.block which) + 1) v.cellcount

theorem getString_spec {v : CellVector} (hv : v.WellFormed) {which size : Nat}
    (h : which < v.count) :
    v.getString which size =
      (if size = stringLength (Block.record v.cellcount v.block which) + 1
        then v.store (v.strayCell which) [0] else some v).map fun next =>
          (⟨1, (Block.record v.cellcount v.block which).take
            (min size
              (stringLength (Block.record v.cellcount v.block which) + 1))⟩, next) := by
  have hlength := hv.length_record h
  have hcells : ∀ offset < (Block.record v.cellcount v.block which).length,
      v.block[v.cellcount * which + offset]? =
        (Block.record v.cellcount v.block which)[offset]? := by
    intro offset hoffset
    rw [Block.getElem?_record, if_pos (by omega), Nat.mul_comm]
  obtain ⟨copied, next, left, hloop, hcopied, hnext, hleft⟩ :=
    copyString_spec v _ (v.cellcount * which) size hcells
  rw [hlength] at hloop
  rw [getString, if_neg (by omega), hloop]
  simp only [Option.bind_eq_bind, Option.bind_some]
  rw [← hcopied]
  by_cases hstray : size = stringLength (Block.record v.cellcount v.block which) + 1
  · have hnextEq : next = v.strayCell which := by
      rw [hnext, hcopied, List.length_take, hlength, hstray, strayCell]
      omega
    rw [if_pos (hleft.mpr hstray), if_pos hstray, hnextEq]
    cases v.store (v.strayCell which) [0] <;> rfl
  · rw [if_neg (mt hleft.mp hstray), if_neg hstray]
    rfl

/-! Writing a record. -/

theorem setArray_spec {v : CellVector} (hv : v.WellFormed) {which : Nat}
    (source : Nat → Cell) (h : which < v.count) :
    ∃ next, v.setArray which source = some (⟨1, []⟩, next) ∧ SameShape v next ∧
      next.records = v.records.set which ((List.range v.cellcount).map source) := by
  have hend := hv.record_end h
  obtain ⟨next, hstore⟩ :
      ∃ next, v.store (v.cellcount * which) ((List.range v.cellcount).map source) =
        some next := exists_store (by simpa using hend)
  obtain ⟨hshape, hwrite⟩ := store_eq_some hstore
  refine ⟨next, ?_, hshape, ?_⟩
  · rw [setArray, if_neg (by omega), hstore]
    rfl
  · rw [Nat.mul_comm] at hwrite
    exact hshape.records_set (Block.record_of_write (by simp) hwrite)

theorem setCell_spec {v : CellVector} (hv : v.WellFormed) {which : Nat} (value : Cell)
    (h : which < v.count) :
    ∃ next, v.setCell which value = some (⟨1, []⟩, next) ∧ SameShape v next ∧
      next.records = v.records.set which
        ((Block.record v.cellcount v.block which).set 0 value) := by
  have hend := hv.record_end h
  have hwidth := hv.width_pos
  obtain ⟨next, hstore⟩ : ∃ next, v.store (v.cellcount * which) [value] = some next :=
    exists_store (by simp; omega)
  obtain ⟨hshape, hwrite⟩ := store_eq_some hstore
  refine ⟨next, ?_, hshape, ?_⟩
  · rw [setCell, if_neg (by omega), hstore]
    rfl
  · have hwrite : Block.write v.block (which * v.cellcount + 0) [value] =
        some next.block := by rwa [Nat.add_zero, Nat.mul_comm]
    exact hshape.records_set (Block.record_of_write_cell (by omega) hwrite)

theorem setString_spec {v : CellVector} (hv : v.WellFormed) {which : Nat}
    (source : Nat → Cell) (h : which < v.count) :
    ∃ next, v.setString which source = some (⟨1, []⟩, next) ∧ SameShape v next ∧
      next.records = v.records.set which
        (((List.range v.cellcount).map source).set (v.cellcount - 1) 0) := by
  have hend := hv.record_end h
  have hwidth := hv.width_pos
  obtain ⟨copied, hcopy, hshape, hrecords⟩ := setArray_spec hv source h
  rw [setArray, if_neg (by omega)] at hcopy
  cases hstore : v.store (v.cellcount * which) ((List.range v.cellcount).map source) with
  | none => simp [hstore] at hcopy
  | some copied' =>
      obtain rfl : copied' = copied := by simpa [hstore] using hcopy
      obtain ⟨next, hterm⟩ :
          ∃ next, copied'.store (v.cellcount * which + (v.cellcount - 1)) [0] =
            some next := exists_store (by rw [hshape.length]; simp; omega)
      obtain ⟨hshapeNext, hwrite⟩ := store_eq_some hterm
      refine ⟨next, ?_, hshape.trans hshapeNext, ?_⟩
      · rw [setString, if_neg (by omega), hstore]
        simp only [Option.bind_eq_bind, Option.bind_some, hshape.cellcount, hterm]
      · rw [Nat.mul_comm v.cellcount, ← hshape.cellcount] at hwrite
        rw [hshapeNext.records_set (Block.record_of_write_cell
          (by have := hshape.cellcount; omega) hwrite), hrecords, List.set_set]
        have hwhich : which < copied'.records.length := by simpa [hshape.count] using h
        rw [← getElem_records hwhich]
        simp only [hrecords, List.getElem_set_self, hshape.cellcount]

/-! Moving records. -/

theorem push_room {v : CellVector} (garbage : Garbage) (hv : v.WellFormed) :
    (v.push garbage).2.count + 1 ≤ (v.push garbage).2.cursize ↔
      v.count + 1 ≠ v.cursize := by
  have := hv.fits
  rw [push_count, push_cursize]
  split <;> omega

theorem shiftUpFrom_last {v : CellVector} (garbage : Garbage) :
    v.shiftUpFrom garbage v.count = some (⟨1, []⟩, (v.push garbage).2) := by
  rw [shiftUpFrom, if_neg (by omega), if_pos]
  simp

theorem shiftUpFrom_inside {v : CellVector} (garbage : Garbage) (hv : v.WellFormed)
    {which : Nat} (h : which < v.count) :
    ∃ temp,
      Block.read (v.push garbage).2.block (which * v.cellcount)
        ((v.count + 1 - which) * v.cellcount) = some temp ∧
      temp.length = (v.count + 1 - which) * v.cellcount ∧
      v.shiftUpFrom garbage which =
        ((v.push garbage).2.store ((which + 1) * v.cellcount) temp).map
          fun next => (⟨1, []⟩, next) := by
  have hpush := push_wellFormed garbage hv
  have hend := hpush.count_le
  rw [push_count, push_cellcount] at hend
  have hsum : which * v.cellcount + (v.count + 1 - which) * v.cellcount =
      (v.count + 1) * v.cellcount := by
    rw [← Nat.add_mul]
    congr 1
    omega
  have hle : which * v.cellcount + (v.count + 1 - which) * v.cellcount ≤
      (v.push garbage).2.block.length := by omega
  refine ⟨_, Block.read_of_le hle, ?_, ?_⟩
  · simp
    omega
  · rw [shiftUpFrom, if_neg (by omega), if_neg (by simp; omega)]
    simp only [getCellPointer, push_count, push_cellcount, load,
      if_neg (show ¬ which ≥ v.count + 1 by omega),
      if_neg (show ¬ which + 1 ≥ v.count + 1 by omega),
      Option.bind_eq_bind, Option.bind_some]
    rw [Nat.mul_comm v.cellcount, Block.read_of_le hle, Option.bind_some]
    cases (v.push garbage).2.store ((which + 1) * v.cellcount) _ <;> rfl

theorem shiftUpFrom_isSome {v : CellVector} (garbage : Garbage) (hv : v.WellFormed)
    {which : Nat} (h : which < v.count) :
    (v.shiftUpFrom garbage which).isSome ↔ v.count + 1 ≠ v.cursize := by
  obtain ⟨temp, -, hlength, hshift⟩ := shiftUpFrom_inside garbage hv h
  have hpush := push_wellFormed garbage hv
  have hwidth := hv.width_pos
  rw [hshift, Option.isSome_map, store_isSome, hlength, hpush.size, push_cellcount,
    ← Nat.add_mul, ← push_room garbage hv, push_count]
  have hcount : which + 1 + (v.count + 1 - which) = v.count + 1 + 1 := by omega
  rw [hcount]
  exact ⟨fun hle => Nat.le_of_mul_le_mul_right hle hwidth,
    fun hle => Nat.mul_le_mul_right _ hle⟩

theorem shiftUpFrom_spec {v : CellVector} (garbage : Garbage) (hv : v.WellFormed)
    {which : Nat} (h : which ≤ v.count)
    (hroom : which < v.count → v.count + 1 ≠ v.cursize) :
    ∃ next item,
      v.shiftUpFrom garbage which = some (⟨1, []⟩, next) ∧ next.WellFormed ∧
      next.cellcount = v.cellcount ∧ next.count = v.count + 1 ∧
      item.length = v.cellcount ∧ next.records = v.records.insertIdx which item := by
  have hpush := push_wellFormed garbage hv
  rcases Nat.lt_or_eq_of_le h with hlt | rfl
  · obtain ⟨temp, hread, -, hshift⟩ := shiftUpFrom_inside garbage hv hlt
    obtain ⟨result, hresult⟩ := Option.isSome_iff_exists.mp
      ((shiftUpFrom_isSome garbage hv hlt).mpr (hroom hlt))
    rw [hshift] at hresult
    obtain ⟨next, hstore, rfl⟩ := Option.map_eq_some_iff.mp hresult
    obtain ⟨hshape, hwrite⟩ := store_eq_some hstore
    refine ⟨next, Block.record v.cellcount v.block which, ?_, hshape.wellFormed hpush,
      by simp [hshape.cellcount], by simp [hshape.count], hv.length_record hlt, ?_⟩
    · rw [hshift, hresult]
    · apply records_eq_of
      · rw [hshape.count, List.length_insertIdx]
        simp [h]
      · intro index hindex
        rw [List.length_insertIdx, length_records, if_pos h] at hindex
        rw [hshape.cellcount, push_cellcount, Block.record_of_shift hread hwrite,
          List.getElem_insertIdx]
        split
        · rename_i hmoved
          rw [dif_neg (by omega), dif_neg (by omega), getElem_records,
            push_record garbage hv (by omega)]
        · rename_i hkept
          by_cases hbelow : index < which
          · rw [dif_pos hbelow, getElem_records, push_record garbage hv (by omega)]
          · rw [dif_neg hbelow, dif_pos (by omega), push_record garbage hv (by omega)]
            congr 1
            omega
  · refine ⟨_, Block.record v.cellcount (v.push garbage).2.block v.count,
      shiftUpFrom_last garbage, hpush, push_cellcount garbage v, push_count garbage v,
      ?_, ?_⟩
    · simpa using hpush.length_record (show v.count < _ by simp)
    · have hinsert := List.insertIdx_length_self
        (l := v.records) (x := Block.record v.cellcount (v.push garbage).2.block v.count)
      rw [length_records] at hinsert
      rw [push_records garbage hv, hinsert]

theorem copyItem_spec {v : CellVector} (hv : v.WellFormed) {target source : Nat}
    (htarget : target < v.count) (hsource : source < v.count) :
    ∃ next, v.copyItem target source = some next ∧ SameShape v next ∧
      ∀ other, Block.record v.cellcount next.block other =
        if other = target then Block.record v.cellcount v.block source
        else Block.record v.cellcount v.block other := by
  have hend := hv.record_end htarget
  have hlength := hv.length_record hsource
  obtain ⟨next, hstore⟩ :
      ∃ next, v.store (target * v.cellcount) (Block.record v.cellcount v.block source) =
        some next := exists_store (by rw [hlength, Nat.mul_comm]; exact hend)
  obtain ⟨hshape, hwrite⟩ := store_eq_some hstore
  have hload := load_record hv hsource
  rw [Nat.mul_comm] at hload
  refine ⟨next, ?_, hshape, Block.record_of_write hlength hwrite⟩
  simp [copyItem, getCellPointer, Nat.not_le.mpr htarget, Nat.not_le.mpr hsource, hload,
    hstore]

theorem deleteLoop_spec {v : CellVector} (hv : v.WellFormed) {i steps : Nat}
    (h : i + steps < v.count) :
    ∃ next, v.deleteLoop i steps = some next ∧ SameShape v next ∧
      ∀ other, Block.record v.cellcount next.block other =
        if i ≤ other ∧ other < i + steps then Block.record v.cellcount v.block (other + 1)
        else Block.record v.cellcount v.block other := by
  induction steps generalizing v i with
  | zero =>
      refine ⟨v, rfl, ⟨rfl, rfl, rfl, rfl⟩, fun other => ?_⟩
      rw [if_neg (by omega)]
  | succ steps ih =>
      obtain ⟨middle, hcopy, hshape, hmiddle⟩ :=
        copyItem_spec hv (show i < v.count by omega) (show i + 1 < v.count by omega)
      obtain ⟨next, hloop, hshapeNext, hnext⟩ :=
        ih (hshape.wellFormed hv) (show i + 1 + steps < _ by rw [hshape.count]; omega)
      refine ⟨next, ?_, hshape.trans hshapeNext, fun other => ?_⟩
      · simp [deleteLoop, hcopy, hloop]
      · rw [hshape.cellcount] at hnext
        rw [hnext, hmiddle, hmiddle]
        by_cases hother : other = i
        · subst other
          rw [if_neg (by omega), if_pos rfl, if_pos (by omega)]
        · by_cases hinside : i + 1 ≤ other ∧ other < i + 1 + steps
          · rw [if_pos hinside, if_neg (by omega), if_pos (by omega)]
          · rw [if_neg hinside, if_neg hother, if_neg (by omega)]

theorem delete_spec {v : CellVector} (hv : v.WellFormed) {which : Nat}
    (h : which < v.count) :
    ∃ next, v.delete which = some (⟨1, []⟩, next) ∧ next.WellFormed ∧
      next.cellcount = v.cellcount ∧ next.records = v.records.eraseIdx which := by
  obtain ⟨moved, hloop, hshape, hmoved⟩ :=
    deleteLoop_spec hv (show which + (v.count - 1 - which) < v.count by omega)
  have hfits := hv.fits
  refine ⟨{ moved with count := moved.count - 1 }, ?_, ?_, hshape.cellcount, ?_⟩
  · rw [delete, if_neg (by omega), hloop]
    rfl
  · have hmovedWf := hshape.wellFormed hv
    exact ⟨hmovedWf.width_pos, hmovedWf.size, Nat.le_trans (Nat.sub_le _ _) hmovedWf.fits⟩
  · apply records_eq_of
    · rw [List.length_eraseIdx_of_lt (by simpa using h)]
      simp [hshape.count]
    · intro index hindex
      rw [List.length_eraseIdx_of_lt (by simpa using h), length_records] at hindex
      change Block.record moved.cellcount moved.block index = _
      rw [hshape.cellcount, hmoved, List.getElem_eraseIdx]
      split
      · rw [dif_neg (by omega), getElem_records]
      · rw [dif_pos (by omega), getElem_records]

def exchange {α : Type*} (items : List α) (first second : Nat) : List α :=
  match items[first]?, items[second]? with
  | some a, some b => (items.set second a).set first b
  | _, _ => items

theorem swap_spec {v : CellVector} (hv : v.WellFormed) {item1 item2 : Nat}
    (h1 : item1 < v.count) (h2 : item2 < v.count) :
    ∃ next, v.swap item1 item2 = some (⟨1, []⟩, next) ∧ SameShape v next ∧
      next.records = exchange v.records item1 item2 := by
  obtain ⟨copied, hcopy, hshape, hcopied⟩ := copyItem_spec hv h2 h1
  have hcopiedWf := hshape.wellFormed hv
  have hend := hcopiedWf.record_end (show item1 < _ by rwa [hshape.count])
  have hlength := hv.length_record h2
  obtain ⟨next, hstore⟩ :
      ∃ next, copied.store (item1 * v.cellcount)
        (Block.record v.cellcount v.block item2) = some next :=
    exists_store (by rw [hlength, Nat.mul_comm, ← hshape.cellcount]; exact hend)
  obtain ⟨hshapeNext, hwrite⟩ := store_eq_some hstore
  have hload := load_record hv h2
  rw [Nat.mul_comm] at hload
  refine ⟨next, ?_, hshape.trans hshapeNext, ?_⟩
  · rw [swap, if_neg (by omega)]
    simp [getCellPointer, Nat.not_le.mpr h1, Nat.not_le.mpr h2, hload, hcopy, hshape.count,
      hshape.cellcount, hstore]
  · have hitem1 : v.records[item1]? = some (Block.record v.cellcount v.block item1) := by
      rw [List.getElem?_eq_getElem (by simpa using h1), getElem_records]
    have hitem2 : v.records[item2]? = some (Block.record v.cellcount v.block item2) := by
      rw [List.getElem?_eq_getElem (by simpa using h2), getElem_records]
    simp only [exchange, hitem1, hitem2]
    have hlast := Block.record_of_write hlength hwrite
    simp only [← hshape.cellcount] at hlast
    rw [hshapeNext.records_set hlast, hshape.records_set hcopied, hshape.cellcount]

end AmxModC.CellVector
