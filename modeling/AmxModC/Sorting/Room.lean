import AmxModC.Sorting.Rows

namespace AmxModC.Sorting

open Foundation

/-! The natives when what they allot reaches into the array, or ends outside of the memory. -/

section

variable {array remap size : Nat} {m m' : Memory}

theorem backUp_inside (hremap : remap ≤ m.length)
    (h : loop (backUp array remap) size m = some m') : remap + size ≤ m.length := by
  have hinside : m'.length = m.length ∧ remap + size ≤ m.length := by
    refine loop_invariant (I := fun count m' => m'.length = m.length ∧ remap + count ≤ m.length)
      ?_ ⟨rfl, hremap⟩ h
    intro i before after hi hinv hstep
    obtain ⟨offset, hoffset, hrest⟩ := Option.bind_eq_some_iff.mp hstep
    obtain ⟨middle, hfirst, hsecond⟩ := Option.bind_eq_some_iff.mp hrest
    obtain ⟨hlt, rfl⟩ := Memory.write_eq_some.mp hfirst
    obtain ⟨hlt', rfl⟩ := Memory.write_eq_some.mp hsecond
    have hlength := hinv.1
    refine ⟨?_, ?_⟩
    · rw [List.length_set, List.length_set, hlength]
    · omega
  exact hinside.2

theorem backUp_overlap {d : Nat} (harray : array = remap + d) (hd : 0 < d) (hsize : d < size)
    (h : loop (backUp array remap) size m = some m') :
    m'.length = m.length ∧ m'[array]? = m[array + d]? ∧
      ∀ x, array + size ≤ x → m'[x]? = m[x]? := by
  have hinv := loop_invariant (I := fun count m' =>
    m'.length = m.length ∧ (count ≤ d → m'[array + d]? = m[array + d]?) ∧
      (d < count → m'[array]? = m[array + d]?) ∧ ∀ x, array + size ≤ x → m'[x]? = m[x]?) ?_
    ⟨rfl, fun _ => rfl, fun hlt => absurd hlt (Nat.not_lt_zero d), fun _ _ => rfl⟩ h
  · exact ⟨hinv.1, hinv.2.2.1 hsize, hinv.2.2.2⟩
  · intro i before after hi ⟨hlength, hbefore, hafter, hothers⟩ hstep
    obtain ⟨offset, hoffset, hrest⟩ := Option.bind_eq_some_iff.mp hstep
    obtain ⟨middle, hfirst, hsecond⟩ := Option.bind_eq_some_iff.mp hrest
    obtain ⟨hlt, rfl⟩ := Memory.write_eq_some.mp hfirst
    obtain ⟨hlt', rfl⟩ := Memory.write_eq_some.mp hsecond
    refine ⟨?_, ?_, ?_, ?_⟩
    · rw [List.length_set, List.length_set, hlength]
    · intro hle
      rw [List.getElem?_set_ne (by omega), List.getElem?_set_ne (by omega)]
      exact hbefore (by omega)
    · intro hlt
      rw [List.getElem?_set_ne (by omega)]
      by_cases heq : i = d
      next =>
        subst heq
        rw [← harray, List.getElem?_set_self (by omega), ← hoffset]
        exact hbefore (Nat.le_refl i)
      next =>
        rw [List.getElem?_set_ne (by omega)]
        exact hafter (by omega)
    · intro x hx
      rw [List.getElem?_set_ne (by omega), List.getElem?_set_ne (by omega)]
      exact hothers x hx

theorem arrange_overlap {qsort : List Int → Sorting Int}
    {cmp : Int → Int → Memory → Option (Int × Memory)} {d : Nat} {offset : Int}
    (hqsort : Sorts qsort)
    (hpure : ∀ {left right m answer m'}, cmp left right m = some (answer, m') → m' = m)
    (harray : array = remap + d) (hd : 0 < d) (hsize : d < size) (hinside : array + size ≤ m.length)
    (hoffset : m[array + d]? = some offset) (hbehind : (array + size : Int) ≤ remap + offset)
    (hzero : ∀ x, array + size ≤ x → ∀ value, m[x]? = some value → value = 0)
    (h : arrange qsort array remap size cmp m = some m') :
    ∃ i < size, rowAt m' array i = some (4 * (array + offset)) := by
  obtain ⟨backed, hloop, hrest⟩ := Option.bind_eq_some_iff.mp h
  obtain ⟨sorted, hsorted, hfix⟩ := Option.bind_eq_some_iff.mp hrest
  obtain ⟨hlength, hfirst, hothers⟩ := backUp_overlap harray hd hsize hloop
  have hvector : (backed.vector array size).length = size := by
    simp only [Memory.vector, List.length_take, List.length_drop]
    omega
  have hmember : offset ∈ backed.vector array size := by
    apply List.mem_of_getElem? (i := 0)
    rw [Memory.getElem?_vector (by omega), Nat.add_zero, hfirst]
    exact hoffset
  have hbacked : array + size ≤ backed.length := hlength ▸ hinside
  obtain ⟨result, middle, hperm, ⟨hmiddle, houtside⟩, rfl⟩ :=
    (hqsort.honest (backed.vector array size)).perform_invariant
      (I := fun m => m.length = backed.length ∧
        ∀ x, ¬(array ≤ x ∧ x < array + size) → m[x]? = backed[x]?)
      (fun {current left right s answer s'} hinv hcurrent _ _ hcmp => by
        cases hpure hcmp
        have hinside : array + size ≤ s.length := hinv.1.symm ▸ hbacked
        refine ⟨(Memory.length_store hinside (hcurrent.trans hvector)).trans hinv.1, ?_⟩
        intro x hx
        rw [Memory.store_outside hinside (hcurrent.trans hvector) hx]
        exact hinv.2 x hx)
      ⟨rfl, fun _ _ => rfl⟩ hsorted
  obtain ⟨i, hi⟩ := List.getElem?_of_mem (hperm.mem_iff.mpr hmember)
  have hresult : result.length = size := hperm.length_eq.trans hvector
  have hlt : i < size := hresult ▸ (List.getElem?_eq_some_iff.mp hi).1
  have hmiddleInside : array + size ≤ middle.length := hmiddle.symm ▸ hbacked
  have hfixed := fixedUp_of_loop hfix
  have hindex : (Memory.store array result middle)[array + i]? = some offset :=
    (Memory.store_inside hmiddleInside hresult hlt).trans hi
  obtain ⟨value, hvalue, hdistance⟩ := hfixed.distance i hlt offset hindex fun x hx => by omega
  have hvalueZero : value = 0 := by
    obtain ⟨x, hx⟩ := Int.eq_ofNat_of_zero_le (a := (remap : Int) + offset) (by omega)
    rw [hx, Memory.cell_ofNat, Memory.store_outside hmiddleInside hresult (by omega),
      houtside x (by omega), hothers x (by omega)] at hvalue
    exact hzero x (by omega) value hvalue
  refine ⟨i, hlt, ?_⟩
  rw [rowAt, hdistance, hvalueZero, Option.map_some]
  congr 1
  omega

end

/-! An array that is not kept. -/

namespace Layout

variable (l : Layout)

def row (i : Nat) : Nat :=
  if i = l.array - l.hea then l.stop - 1
  else if i < l.array - l.hea then l.array + l.count + i
  else l.array + l.count + i - 1

def rows : List Nat := (List.range l.count).map l.row

def plugin : Plugin where
  memory := (List.range l.size).map fun x =>
    if l.array ≤ x ∧ x < l.array + l.count then 4 * (l.row (x - l.array) : Int) - 4 * x else 0
  hea := l.hea
  stk := l.stk

theorem getElem?_plugin {x : Nat} (hx : x < l.size) : l.plugin.memory[x]? =
    some (if l.array ≤ x ∧ x < l.array + l.count then 4 * (l.row (x - l.array) : Int) - 4 * x
      else 0) := by
  simp [plugin, hx]

theorem row_behind {i : Nat} (hi : i < l.count) :
    l.array + l.count ≤ l.row i ∧ l.row i < l.stop := by
  have := l.room
  unfold row
  split
  next => omega
  next =>
    split
    next => omega
    next => omega

theorem row_injective {i j : Nat} (hi : i < l.count) (hj : j < l.count)
    (h : l.row i = l.row j) : i = j := by
  have := l.room
  unfold row at h
  split_ifs at h <;> omega

theorem rows_plugin : Rows l l.plugin l.rows where
  size := by simp [plugin]
  hea := rfl
  stk := rfl
  count := by simp [rows]
  nodup := List.Nodup.map_on
    (fun i hi j hj h => l.row_injective (List.mem_range.mp hi) (List.mem_range.mp hj) h)
    List.nodup_range
  behind := by
    intro row hrow
    obtain ⟨i, hi, rfl⟩ := List.mem_map.mp hrow
    exact l.row_behind (List.mem_range.mp hi)
  distance := by
    intro i row hrow
    obtain ⟨hlt, rfl⟩ := List.getElem?_eq_some_iff.mp hrow
    have hi : i < l.count := by simpa [rows] using hlt
    have := l.room
    have := l.inside
    rw [l.getElem?_plugin (by omega), if_pos (by omega), Nat.add_sub_cancel_left]
    simp [rows]

theorem terminated_plugin : Terminated l l.plugin l.rows := by
  intro row hrow
  obtain ⟨hbehind, hstop⟩ := l.rows_plugin.behind row hrow
  have := l.inside
  refine ⟨0, hstop, ?_⟩
  rw [Nat.add_zero, l.getElem?_plugin (by omega), if_neg (by omega)]

end Layout

section

variable {l : Layout} {qsort : List Int → Sorting Int}
  {cmp : Int → Int → Memory → Option (Int × Memory)} {m' : Memory}

theorem not_whole_of_arrange (hqsort : Sorts qsort)
    (hpure : ∀ {left right m answer m'}, cmp left right m = some (answer, m') → m' = m)
    (hclear : ¬l.Clear)
    (h : arrange qsort l.array l.hea l.count cmp l.plugin.memory = some m') {s' : Plugin}
    (hmemory : s'.memory = m') (kept : Nat → Prop) : ¬Whole l l.plugin s' l.rows kept := by
  have hrows := l.rows_plugin
  have hheap := l.heap
  have hstack := l.stack
  have hroom := l.room
  have hinside := l.inside
  have hplaced := l.placed
  unfold Layout.Clear at hclear
  split at hclear
  next hbelow =>
    obtain ⟨backed, hloop, -⟩ := Option.bind_eq_some_iff.mp h
    have hend := backUp_inside (by rw [hrows.size]; omega) hloop
    rw [hrows.size] at hend
    exact absurd hend hclear
  next hstacked =>
    obtain ⟨d, hd⟩ := Nat.exists_eq_add_of_le (show l.hea ≤ l.array by omega)
    have hrow : l.row d = l.stop - 1 := by
      unfold Layout.row
      rw [if_pos (by omega)]
    have hoffset : l.plugin.memory[l.array + d]? =
        some (4 * ((l.stop - 1 : Nat) : Int) - 4 * ((l.array + d : Nat) : Int)) := by
      rw [l.getElem?_plugin (by omega), if_pos (by omega), Nat.add_sub_cancel_left, hrow]
    have hzero : ∀ x, l.array + l.count ≤ x → ∀ value, l.plugin.memory[x]? = some value →
        value = 0 := by
      intro x hx value hvalue
      have hlt := (List.getElem?_eq_some_iff.mp hvalue).1
      rw [hrows.size] at hlt
      rw [l.getElem?_plugin hlt, if_neg (by omega)] at hvalue
      exact (Option.some.inj hvalue).symm
    obtain ⟨i, hi, hfound⟩ := arrange_overlap hqsort hpure hd (by omega) (by omega)
      (by rw [hrows.size]; omega) hoffset (by omega) hzero h
    rintro ⟨-, places, hperm, hplaces, -⟩
    have hlength : i < places.length := by
      rw [hperm.length_eq, List.length_range]
      exact hi
    have hplace : places[i] < l.rows.length := by
      rw [hrows.count]
      exact List.mem_range.mp (hperm.mem_iff.mp (List.getElem_mem hlength))
    have hkept := hplaces i _ _ (List.getElem?_eq_getElem hlength)
      (List.getElem?_eq_getElem hplace)
    rw [hmemory, hfound, Option.some.injEq] at hkept
    have hstop := (hrows.behind _ (List.getElem_mem hplace)).2
    omega

theorem sortStringsBy_pure {array remap : Nat} {answer : Int → Int → Int} {left right : Int}
    {m m' : Memory} {found : Int}
    (h : sortStringsBy array remap answer left right m = some (found, m')) : m' = m := by
  obtain ⟨str1, -, hrest⟩ := Option.bind_eq_some_iff.mp h
  obtain ⟨str2, -, hrest⟩ := Option.bind_eq_some_iff.mp hrest
  obtain ⟨⟨c1, c2⟩, -, hfound⟩ := Option.bind_eq_some_iff.mp hrest
  cases hfound
  rfl

theorem not_keepsStrings (hfits : ¬l.Fits) : ¬l.KeepsStrings := by
  intro h
  obtain ⟨hallots, hclear⟩ := not_or.mp hfits
  rw [not_not] at hallots
  obtain ⟨answer, s', hsort, hwhole⟩ := h l.plugin l.rows Sorting.searching 0 l.rows_plugin
    l.terminated_plugin Sorting.sorts_searching
  unfold sortStrings at hsort
  rw [if_pos (l.rows_plugin.allots_iff.mpr hallots)] at hsort
  obtain ⟨m', harrange, hs'⟩ := Option.bind_eq_some_iff.mp hsort
  cases hs'
  rw [if_pos rfl] at harrange
  have hpure : ∀ {left right m found m'}, sortStringsAsc l.array l.hea left right m =
      some (found, m') → m' = m := fun hcmp => sortStringsBy_pure hcmp
  exact not_whole_of_arrange Sorting.sorts_searching hpure hclear harrange
    (release_allot l.plugin l.count m').2 _ hwhole

def indifferent : Callback := fun _ _ _ _ _ m => (0, m)

theorem not_keepsRows (hfits : ¬l.Fits) : ¬l.KeepsRows := by
  intro h
  obtain ⟨hallots, hclear⟩ := not_or.mp hfits
  rw [not_not] at hallots
  have hspares : ∀ c ∈ some indifferent, Callback.Spares c l := by
    intro c hc
    cases hc
    exact ⟨fun _ _ _ _ _ _ => rfl, fun _ _ _ _ _ _ _ _ => rfl, fun _ _ _ _ _ _ _ _ => rfl⟩
  obtain ⟨answer, s', hsort, hwhole⟩ := h l.plugin l.rows Sorting.searching (some indifferent)
    ⟨0, 0⟩ l.rows_plugin hspares Sorting.sorts_searching
  unfold sortCustom2D at hsort
  rw [if_pos (l.rows_plugin.allots_iff.mpr hallots)] at hsort
  obtain ⟨m', harrange, hs'⟩ := Option.bind_eq_some_iff.mp hsort
  cases hs'
  have hpure : ∀ {left right m found m'}, sort2dAmxCustom indifferent l.array l.hea ⟨0, 0⟩
      left right m = some (found, m') → m' = m := by
    intro left right m found m' hcmp
    obtain ⟨offset1, -, hrest⟩ := Option.bind_eq_some_iff.mp hcmp
    obtain ⟨offset2, -, hfound⟩ := Option.bind_eq_some_iff.mp hrest
    cases hfound
    rfl
  exact not_whole_of_arrange Sorting.sorts_searching hpure hclear harrange
    (release_allot l.plugin l.count m').2 _ hwhole

end

namespace Layout

end Layout

def crowded : Layout where
  size := 16
  hea := 0
  stk := 2
  array := 3
  count := 4
  stop := 11
  heap := by decide
  stack := by decide
  room := by decide
  inside := by decide
  placed := by decide

end AmxModC.Sorting
