import AmxModC.CellVector.Refinement

namespace AmxModC.CellVector

open Foundation

/-! Reading a string. -/

/-- The output is the string of the record, cut where it has to be and terminated, and the records
stay as they are. -/
def ReadsString (v : CellVector) (which size : Nat) : Prop :=
  ∃ outcome next, v.getString which size = some (outcome, next) ∧ next.records = v.records ∧
    outcome.output.length ≤ size ∧
      ∀ item ∈ v.records[which]?,
        outcome.output = (item.takeWhile (· ≠ 0)).take (size - 1) ++ [0]

/-- The record holds the end of its string, the output has room for it, and where it has room for
no more the vector goes on, with a zero as far as it has records. -/
def Roomy (v : CellVector) (which size : Nat) : Prop :=
  ∀ item ∈ v.records[which]?,
    stringLength item < v.cellcount ∧ stringLength item < size ∧
      (size = stringLength item + 1 →
        which * v.cellcount + size < v.block.length ∧
          (which * v.cellcount + size < v.count * v.cellcount →
            v.block[which * v.cellcount + size]? = some 0))

instance (v : CellVector) (which size : Nat) : Decidable (v.Roomy which size) :=
  inferInstanceAs (Decidable (∀ item ∈ v.records[which]?, _))

theorem take_eq_cut_iff (item : List Cell) (size : Nat) :
    item.take (min size (stringLength item + 1)) =
        (item.takeWhile (· ≠ 0)).take (size - 1) ++ [0] ↔
      stringLength item < item.length ∧ stringLength item < size := by
  induction item generalizing size with
  | nil => simp
  | cons cell rest ih =>
      by_cases hzero : cell = 0#32
      next =>
        cases size with
        | zero => simp [hzero]
        | succ size => simp [hzero]
      next =>
        have hstring : stringLength (cell :: rest) = stringLength rest + 1 := by
          rw [stringLength_cons]
          exact if_neg hzero
        have hwhile : (cell :: rest).takeWhile (· ≠ 0) = cell :: rest.takeWhile (· ≠ 0) :=
          List.takeWhile_cons_of_pos (decide_eq_true hzero)
        rw [hstring, hwhile]
        cases size with
        | zero => simp
        | succ size =>
            cases size with
            | zero => simp [hzero]
            | succ size =>
                have hrest := ih (size + 1)
                simp only [Nat.add_sub_cancel] at hrest
                rw [Nat.add_min_add_right]
                simp only [Nat.add_sub_cancel, List.take_succ_cons, List.cons_append,
                  List.cons.injEq, true_and, List.length_cons, Nat.add_lt_add_iff_right]
                exact hrest

variable {v : CellVector}

theorem records_store_zero_iff {next : CellVector} {start : Nat} (hv : v.WellFormed)
    (h : v.store start [0] = some next) :
    next.records = v.records ↔
      (start < v.count * v.cellcount → v.block[start]? = some 0) := by
  obtain ⟨hshape, hwrite⟩ := store_eq_some h
  have hcell : ∀ index, next.block[index]? = if index = start then some 0 else v.block[index]? := by
    intro index
    rw [Block.getElem?_of_write hwrite, List.length_singleton]
    by_cases heq : index = start
    next => simp [heq]
    next => rw [if_neg heq, if_neg (by omega)]
  constructor
  · intro hrecords hlt
    have hwidth := hv.width_pos
    have hwhich : start / v.cellcount < v.count := Nat.div_lt_of_lt_mul (by rwa [Nat.mul_comm])
    have hoffset : start % v.cellcount < v.cellcount := Nat.mod_lt _ hwidth
    have hplace : start / v.cellcount * v.cellcount + start % v.cellcount = start := by
      rw [Nat.mul_comm]
      exact Nat.div_add_mod start v.cellcount
    have hrecord := congrArg (fun records => records[start / v.cellcount]?) hrecords
    simp only [getElem?_records_of_lt hwhich,
      getElem?_records_of_lt (v := next) (hshape.count ▸ hwhich), Option.some.injEq] at hrecord
    have hsame := congrArg (fun item : List Cell => item[start % v.cellcount]?) hrecord
    simp only [Block.getElem?_record, hshape.cellcount, if_pos hoffset, hplace, hcell,
      if_true] at hsame
    exact hsame.symm
  · intro hzero
    apply records_eq_of (hshape.count.trans v.length_records.symm)
    intro index hindex
    rw [getElem_records, hshape.cellcount]
    rw [length_records] at hindex
    refine Block.record_of_initial v.count (fun cell hlt => ?_) hindex
    rw [hcell]
    split
    next heq =>
      subst heq
      exact (hzero hlt).symm
    next => rfl

theorem readsString_iff_roomy (hv : v.WellFormed) (which size : Nat) :
    v.ReadsString which size ↔ v.Roomy which size := by
  rcases Nat.lt_or_ge which v.count with hlt | hge
  · have hlength := hv.length_record hlt
    have hcut := take_eq_cut_iff (Block.record v.cellcount v.block which) size
    rw [hlength] at hcut
    have houtput : ((Block.record v.cellcount v.block which).take
        (min size (stringLength (Block.record v.cellcount v.block which) + 1))).length ≤ size :=
      (List.length_take_le _ _).trans (Nat.min_le_left _ _)
    unfold ReadsString Roomy
    simp only [getElem?_records_of_lt hlt, Option.mem_def, Option.some.injEq, forall_eq']
    rw [getString_spec hv hlt]
    by_cases hstray : size = stringLength (Block.record v.cellcount v.block which) + 1
    next =>
      rw [if_pos hstray]
      constructor
      · rintro ⟨outcome, next, hget, hrecords, -, houtput⟩
        obtain ⟨stored, hstore, hfound⟩ := Option.map_eq_some_iff.mp hget
        cases hfound
        obtain ⟨hheld, hroom⟩ := hcut.mp houtput
        have hcell : v.strayCell which = which * v.cellcount + size := by
          rw [strayCell, ← hstray, Nat.min_eq_left (by omega), Nat.mul_comm]
        rw [hcell] at hstore
        have hinside := store_isSome.mp (Option.isSome_of_mem hstore)
        exact ⟨hheld, hroom, fun _ => ⟨hinside, (records_store_zero_iff hv hstore).mp hrecords⟩⟩
      · rintro ⟨hheld, hroom, hnext⟩
        obtain ⟨hinside, hzero⟩ := hnext hstray
        have hcell : v.strayCell which = which * v.cellcount + size := by
          rw [strayCell, ← hstray, Nat.min_eq_left (by omega), Nat.mul_comm]
        have hstored : ∃ next, v.store (which * v.cellcount + size) [0] = some next :=
          exists_store hinside
        obtain ⟨next, hstore⟩ := hstored
        rw [hcell, hstore]
        exact ⟨_, next, rfl, (records_store_zero_iff hv hstore).mpr hzero, houtput,
          hcut.mpr ⟨hheld, hroom⟩⟩
    next =>
      rw [if_neg hstray, Option.map_some]
      constructor
      · rintro ⟨outcome, next, hget, -, -, houtput⟩
        cases hget
        obtain ⟨hheld, hroom⟩ := hcut.mp houtput
        exact ⟨hheld, hroom, fun hsize => absurd hsize hstray⟩
      · rintro ⟨hheld, hroom, -⟩
        exact ⟨_, v, rfl, rfl, houtput, hcut.mpr ⟨hheld, hroom⟩⟩
  · have hnone := getElem?_records_of_ge hge
    refine iff_of_true ⟨⟨0, []⟩, v, if_pos hge, rfl, Nat.zero_le size, ?_⟩ ?_
    · intro item hitem
      rw [hnone] at hitem
      cases hitem
    · intro item hitem
      rw [hnone] at hitem
      cases hitem

def twoStrings : CellVector := ⟨some [97, 98, 0, 7, 99, 0, 0, 0], 4, 2, 2⟩

theorem wellFormed_twoStrings : twoStrings.WellFormed := ⟨by decide, by decide, by decide⟩

theorem readsString_twoStrings : twoStrings.ReadsString 0 4 :=
  (readsString_iff_roomy wellFormed_twoStrings 0 4).mpr (by decide)

/-- With two cells the output is not terminated, with three the record is changed. -/
theorem not_readsString_twoStrings :
    (¬twoStrings.ReadsString 0 2 ∧
      (twoStrings.getString 0 2).map (fun found => found.1.output) = some [97, 98]) ∧
    (¬twoStrings.ReadsString 0 3 ∧
      (twoStrings.getString 0 3).map (fun found => found.2.records) =
        some [[97, 98, 0, 0], [99, 0, 0, 0]]) := by
  refine ⟨⟨?_, rfl⟩, ?_, rfl⟩
  · rintro ⟨outcome, next, hget, -, -, houtput⟩
    cases hget
    exact absurd (houtput _ rfl) (by decide)
  · rintro ⟨outcome, next, hget, hrecords, -⟩
    cases hget
    exact absurd hrecords (by decide)

end AmxModC.CellVector
