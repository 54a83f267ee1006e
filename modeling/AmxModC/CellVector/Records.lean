import AmxModC.CellVector.Model
import AmxModC.Foundation.Run

namespace AmxModC.CellVector

open Foundation

/-! The vector as a list of records: what each operation does to it. -/

structure WellFormed (v : CellVector) : Prop where
  width_pos : 1 ≤ v.cellcount
  size : v.block.length = v.cursize * v.cellcount
  fits : v.count ≤ v.cursize

def records (v : CellVector) : List (List Cell) :=
  Block.records v.cellcount v.count v.block

@[simp] theorem length_records (v : CellVector) : v.records.length = v.count := by
  simp [records]

theorem getElem_records {v : CellVector} {index : Nat} (h : index < v.records.length) :
    v.records[index] = Block.record v.cellcount v.block index := by
  simp [records]

theorem WellFormed.count_le {v : CellVector} (hv : v.WellFormed) :
    v.count * v.cellcount ≤ v.block.length := by
  rw [hv.size]
  exact Nat.mul_le_mul_right _ hv.fits

theorem WellFormed.length_record {v : CellVector} (hv : v.WellFormed) {index : Nat}
    (h : index < v.count) : (Block.record v.cellcount v.block index).length = v.cellcount :=
  Block.length_record hv.count_le h

theorem records_eq_of {v : CellVector} {items : List (List Cell)}
    (hcount : v.count = items.length)
    (h : ∀ index (hindex : index < items.length),
      Block.record v.cellcount v.block index = items[index]) :
    v.records = items := by
  apply List.ext_getElem
  · simpa using hcount
  · intro index hindex hitems
    rw [getElem_records]
    exact h index hitems

/-! Growing and shrinking keep the records. -/

theorem create_wellFormed {width : Nat} (h : 1 ≤ width) : (create width).WellFormed :=
  ⟨h, by simp [create, block], Nat.le_refl _⟩

@[simp] theorem records_create (width : Nat) : (create width).records = [] := by
  simp [records, create, Block.records]

@[simp] theorem length_malloc (garbage : Garbage) (size : Nat) :
    (malloc garbage size).length = size := by simp [malloc]

theorem getD_realloc (garbage : Garbage) (old : List Cell) (size : Nat) :
    (realloc garbage old size).getD [] =
      old.take size ++ (List.range (size - old.length)).map garbage := by
  unfold realloc
  split
  · subst size
    simp
  · rfl

@[simp] theorem grow_cellcount (garbage : Garbage) (v : CellVector) (howmany : Nat) :
    (v.grow garbage howmany).cellcount = v.cellcount := rfl

@[simp] theorem grow_count (garbage : Garbage) (v : CellVector) (howmany : Nat) :
    (v.grow garbage howmany).count = v.count := rfl

@[simp] theorem grow_cursize (garbage : Garbage) (v : CellVector) (howmany : Nat) :
    (v.grow garbage howmany).cursize = v.cursize + howmany := rfl

theorem grow_block (garbage : Garbage) (v : CellVector) (howmany : Nat) :
    (v.grow garbage howmany).block =
      v.block.take (v.cellcount * (v.cursize + howmany)) ++
        (List.range (v.cellcount * (v.cursize + howmany) - v.block.length)).map garbage := by
  cases hdata : v.data with
  | none => simp [grow, block, hdata, malloc]
  | some old => simp [grow, block, hdata, getD_realloc]

theorem grow_wellFormed (garbage : Garbage) {v : CellVector} (hv : v.WellFormed)
    (howmany : Nat) : (v.grow garbage howmany).WellFormed where
  width_pos := hv.width_pos
  size := by
    have hle : v.cursize * v.cellcount ≤ v.cellcount * (v.cursize + howmany) := by
      rw [Nat.mul_comm]
      exact Nat.mul_le_mul_left _ (by omega)
    rw [grow_block, grow_cellcount, grow_cursize, Nat.mul_comm (v.cursize + howmany)]
    have := hv.size
    simp
    omega
  fits := by
    have := hv.fits
    simp
    omega

theorem grow_records (garbage : Garbage) {v : CellVector} (hv : v.WellFormed)
    (howmany : Nat) : (v.grow garbage howmany).records = v.records := by
  apply records_eq_of (by simp)
  intro index hindex
  rw [getElem_records]
  apply Block.record_of_initial v.count _ (by simpa using hindex)
  intro cell hcell
  rw [grow_cellcount] at hcell
  have hblock := hv.count_le
  have hle : v.block.length ≤ v.cellcount * (v.cursize + howmany) := by
    rw [hv.size, Nat.mul_comm]
    exact Nat.mul_le_mul_left _ (by omega)
  rw [grow_block, List.take_of_length_le hle, List.getElem?_append_left (by omega)]

theorem freeUnused_eq (garbage : Garbage) (v : CellVector) :
    v.freeUnused garbage = v ∨
      (v.freeUnused garbage).cellcount = v.cellcount ∧
      (v.freeUnused garbage).count = v.count ∧
      (v.freeUnused garbage).cursize = v.count ∧
      (v.freeUnused garbage).block =
        v.block.take (v.count * v.cellcount) ++
          (List.range (v.count * v.cellcount - v.block.length)).map garbage := by
  unfold freeUnused
  split
  · cases hdata : v.data with
    | none => exact .inl rfl
    | some old => exact .inr ⟨rfl, rfl, rfl, by simp [block, getD_realloc, hdata]⟩
  · exact .inl rfl

theorem freeUnused_wellFormed (garbage : Garbage) {v : CellVector} (hv : v.WellFormed) :
    (v.freeUnused garbage).WellFormed := by
  rcases freeUnused_eq garbage v with heq | ⟨hwidth, hcount, hsize, hblock⟩
  · rwa [heq]
  · refine ⟨hwidth ▸ hv.width_pos, ?_, by omega⟩
    have := hv.count_le
    rw [hblock, hwidth, hsize]
    simp
    omega

theorem freeUnused_records (garbage : Garbage) {v : CellVector} (hv : v.WellFormed) :
    (v.freeUnused garbage).records = v.records := by
  rcases freeUnused_eq garbage v with heq | ⟨hwidth, hcount, -, hblock⟩
  · rw [heq]
  · apply records_eq_of (by simp [hcount])
    intro index hindex
    rw [getElem_records, hwidth]
    apply Block.record_of_initial v.count _ (by simpa using hindex)
    intro cell hcell
    have := hv.count_le
    rw [hblock, List.getElem?_append_left (by simp; omega), List.getElem?_take,
      if_pos hcell]

theorem clear_wellFormed (garbage : Garbage) {v : CellVector} (hv : v.WellFormed) :
    (v.clear garbage).WellFormed :=
  ⟨hv.width_pos, by simp [clear, block], by simp [clear]⟩

@[simp] theorem clear_records (garbage : Garbage) (v : CellVector) :
    (v.clear garbage).records = [] := by
  simp [records, clear, Block.records]

/-! `Push` opens one record whose cells are arbitrary. -/

@[simp] theorem push_cellcount (garbage : Garbage) (v : CellVector) :
    (v.push garbage).2.cellcount = v.cellcount := by
  unfold push
  split <;> rfl

@[simp] theorem push_count (garbage : Garbage) (v : CellVector) :
    (v.push garbage).2.count = v.count + 1 := by
  unfold push
  split <;> rfl

theorem push_outcome (garbage : Garbage) (v : CellVector) :
    (v.push garbage).1 = ⟨v.count, []⟩ := by
  unfold push
  split <;> rfl

theorem push_cursize (garbage : Garbage) (v : CellVector) :
    (v.push garbage).2.cursize =
      if v.count ≥ v.cursize then v.cursize + 8 else v.cursize := by
  unfold push
  split <;> simp [*]

theorem push_wellFormed (garbage : Garbage) {v : CellVector} (hv : v.WellFormed) :
    (v.push garbage).2.WellFormed := by
  have hfits := hv.fits
  unfold push
  split
  · have hgrown := grow_wellFormed garbage hv 8
    exact ⟨hgrown.width_pos, hgrown.size, by simp; omega⟩
  · exact ⟨hv.width_pos, hv.size, by simp; omega⟩

theorem push_record (garbage : Garbage) {v : CellVector} (hv : v.WellFormed)
    {index : Nat} (h : index < v.count) :
    Block.record v.cellcount (v.push garbage).2.block index =
      Block.record v.cellcount v.block index := by
  unfold push
  split
  · have hgrown := grow_records garbage hv 8
    have hat := congrArg (fun items => items[index]?) hgrown
    simp only [records, Block.records, grow_cellcount, grow_count, List.getElem?_map,
      List.getElem?_range h, Option.map_some, Option.some.injEq] at hat
    exact hat
  · rfl

theorem push_records (garbage : Garbage) {v : CellVector} (hv : v.WellFormed) :
    (v.push garbage).2.records =
      v.records ++ [Block.record v.cellcount (v.push garbage).2.block v.count] := by
  apply records_eq_of (by simp)
  intro index hindex
  simp only [List.length_append, length_records, List.length_singleton] at hindex
  rw [push_cellcount, List.getElem_append]
  split
  · rename_i hlt
    rw [getElem_records, push_record garbage hv (by simpa using hlt)]
  · rename_i hge
    have : index = v.count := by
      simp only [length_records] at hge
      omega
    simp [this]

end AmxModC.CellVector
