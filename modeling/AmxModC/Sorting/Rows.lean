import AmxModC.Sorting.Loops

namespace AmxModC.Sorting

open Foundation

/-! Arrays of rows in the memory of a plugin. -/

/-- Where a plugin keeps an array of rows: below the heap top, or on the stack, where at least the
arguments of the native are below it. -/
structure Layout where
  size : Nat
  hea : Nat
  stk : Nat
  array : Nat
  count : Nat
  stop : Nat
  heap : hea ≤ stk
  stack : stk ≤ size
  room : array + 2 * count ≤ stop
  inside : stop ≤ size
  placed : stop ≤ hea ∨ stk < array

structure Rows (l : Layout) (s : Plugin) (rows : List Nat) : Prop where
  size : s.memory.length = l.size
  hea : s.hea = l.hea
  stk : s.stk = l.stk
  count : rows.length = l.count
  nodup : rows.Nodup
  behind : ∀ row ∈ rows, l.array + l.count ≤ row ∧ row < l.stop
  distance : ∀ (i row : Nat), rows[i]? = some row →
    s.memory[l.array + i]? = some (4 * row - 4 * (l.array + i) : Int)

def Terminated (l : Layout) (s : Plugin) (rows : List Nat) : Prop :=
  ∀ row ∈ rows, ∃ k, row + k < l.stop ∧ s.memory[row + k]? = some 0

def rowAt (m : Memory) (array i : Nat) : Option Int := m[array + i]?.map (4 * (array + i : Int) + ·)

def Whole (l : Layout) (s s' : Plugin) (rows : List Nat) (kept : Nat → Prop) : Prop :=
  s'.hea = s.hea ∧
    ∃ places : List Nat, places.Perm (List.range l.count) ∧
      (∀ i place row : Nat, places[i]? = some place → rows[place]? = some row →
        rowAt s'.memory l.array i = some (4 * (row : Int))) ∧
      ∀ x, l.array + l.count ≤ x → x < l.stop → kept x → s'.memory[x]? = s.memory[x]?

def Callback.Leaves (callback : Callback) (x : Nat) : Prop :=
  ∀ c1Addr c2Addr arrayAddr dataAddr dataSize m,
    (callback c1Addr c2Addr arrayAddr dataAddr dataSize m).2[x]? = m[x]?

/-- A callback that neither writes to the array of the indices, which it gets as a constant, nor to
the cells that the native has from the heap. -/
structure Callback.Spares (callback : Callback) (l : Layout) : Prop where
  length : ∀ c1Addr c2Addr arrayAddr dataAddr dataSize m,
    (callback c1Addr c2Addr arrayAddr dataAddr dataSize m).2.length = m.length
  array : ∀ i < l.count, callback.Leaves (l.array + i)
  remap : ∀ i < l.count, callback.Leaves (l.hea + i)

namespace Layout

variable (l : Layout)

def KeepsStrings : Prop :=
  ∀ s rows qsort type, Rows l s rows → Terminated l s rows → Sorts qsort →
    ∃ answer s', sortStrings qsort s l.array l.count type = some (answer, s') ∧
      Whole l s s' rows fun _ => True

def KeepsRows : Prop :=
  ∀ s rows qsort callback data, Rows l s rows → (∀ c ∈ callback, Callback.Spares c l) →
    Sorts qsort →
      ∃ answer s', sortCustom2D qsort s l.array l.count callback data = some (answer, s') ∧
        Whole l s s' rows fun x => ∀ c ∈ callback, Callback.Leaves c x

def Allots : Prop :=
  ¬(0 ≤ (l.stk : Int) - l.hea - l.count ∧ (l.stk : Int) - l.hea - l.count < Plugin.stkMargin)

instance : Decidable l.Allots := inferInstanceAs (Decidable (¬_))

/-- Either the room is found to be too little, or what is allotted ends below the array on the
stack and within the memory. -/
def Fits : Prop :=
  ¬l.Allots ∨ l.hea + l.count ≤ if l.stop ≤ l.hea then l.size else l.array

instance : Decidable l.Fits := inferInstanceAs (Decidable (_ ∨ _))

end Layout

theorem whole_refl {l : Layout} {s : Plugin} {rows : List Nat} (h : Rows l s rows)
    (kept : Nat → Prop) : Whole l s s rows kept := by
  refine ⟨rfl, List.range l.count, List.Perm.refl _, ?_, fun _ _ _ _ => rfl⟩
  intro i place row hplace hrow
  obtain ⟨hlt, rfl⟩ := List.getElem?_eq_some_iff.mp hplace
  rw [List.getElem_range] at hrow
  rw [rowAt, h.distance i row hrow, Option.map_some]
  congr 1
  omega

/-! The native when the cells that it allots are its own. -/

section

variable {l : Layout} {s : Plugin} {rows : List Nat} {qsort : List Int → Sorting Int}
  {cmp : Int → Int → Memory → Option (Int × Memory)} {kept : Nat → Prop}

def indices (size : Nat) : List Int := (List.range size).map Int.ofNat

theorem mem_indices {size : Nat} {index : Int} (h : index ∈ indices size) :
    ∃ i < size, index = (i : Int) := by
  obtain ⟨i, hi, rfl⟩ := List.mem_map.mp h
  exact ⟨i, List.mem_range.mp hi, rfl⟩

structure Between (l : Layout) (s : Plugin) (kept : Nat → Prop) (m : Memory) : Prop where
  length : m.length = s.memory.length
  offset : ∀ i < l.count, m[s.hea + i]? = s.memory[l.array + i]?
  others : ∀ x, ¬(l.array ≤ x ∧ x < l.array + l.count) → ¬(s.hea ≤ x ∧ x < s.hea + l.count) →
    kept x → m[x]? = s.memory[x]?

theorem Between.store {m : Memory} (h : Between l s kept m)
    (hapart : Apart l.array s.hea l.count s.memory.length) {current : List Int}
    (hcurrent : current.length = l.count) : Between l s kept (Memory.store l.array current m) := by
  have harray : l.array + l.count ≤ m.length := h.length ▸ hapart.arrayInside
  have happart := hapart.apart
  refine ⟨(Memory.length_store harray hcurrent).trans h.length, ?_, ?_⟩
  · intro i hi
    rw [Memory.store_outside harray hcurrent (by omega)]
    exact h.offset i hi
  · intro x hx hx' hkept
    rw [Memory.store_outside harray hcurrent hx]
    exact h.others x hx hx' hkept

theorem places_of_perm {result : List Int} (h : result.Perm (indices l.count)) :
    ∃ places : List Nat, places.Perm (List.range l.count) ∧ result = places.map Int.ofNat := by
  refine ⟨result.map Int.toNat, ?_, ?_⟩
  · have hmap := h.map Int.toNat
    have hid : (indices l.count).map Int.toNat = List.range l.count := by
      rw [indices, List.map_map]
      exact List.map_id _
    rwa [hid] at hmap
  · have hnat : ∀ index ∈ result, Int.ofNat index.toNat = index := by
      intro index hindex
      obtain ⟨i, -, rfl⟩ := mem_indices (h.mem_iff.mp hindex)
      rfl
    rw [List.map_map]
    exact ((List.map_congr_left hnat).trans (List.map_id result)).symm

theorem vector_backedUp {backed : Memory}
    (hbacked : BackedUp l.array s.hea l.count s.memory backed) :
    backed.vector l.array l.count = indices l.count := by
  apply List.ext_getElem?
  intro i
  by_cases hi : i < l.count
  next =>
    rw [Memory.getElem?_vector hi, hbacked.index i hi, indices, List.getElem?_map,
      List.getElem?_range hi]
    rfl
  next =>
    rw [List.getElem?_eq_none, List.getElem?_eq_none]
    · simpa [indices] using hi
    · simp only [Memory.vector, List.length_take]
      omega

theorem perform_indices {m : Memory} (hm : Between l s kept m) (hqsort : Sorts qsort)
    (hapart : Apart l.array s.hea l.count s.memory.length)
    (hcmp : ∀ {left right m}, Between l s kept m → left ∈ indices l.count →
      right ∈ indices l.count → ∃ answer m', cmp left right m = some (answer, m') ∧
        Between l s kept m') :
    ∃ (places : List Nat) (m' : Memory), places.Perm (List.range l.count) ∧ Between l s kept m' ∧
      (qsort (indices l.count)).perform (Memory.store l.array) cmp m =
        some (Memory.store l.array (places.map Int.ofNat) m') := by
  have hhonest := hqsort.honest (indices l.count)
  have hlength : (indices l.count).length = l.count := by simp [indices]
  have hperform : ∃ sorted,
      (qsort (indices l.count)).perform (Memory.store l.array) cmp m = some sorted :=
    hhonest.perform_isSome (I := Between l s kept) (fun hm hcurrent hleft hright =>
      hcmp (hm.store hapart (hcurrent.trans hlength)) hleft hright) hm
  obtain ⟨sorted, hsorted⟩ := hperform
  obtain ⟨result, m', hperm, hm', rfl⟩ := hhonest.perform_invariant (I := Between l s kept)
    (fun {current left right s answer s'} hm hcurrent hleft hright hanswer => by
      obtain ⟨answer', m', hanswer', hm'⟩ :=
        hcmp (hm.store hapart (hcurrent.trans hlength)) hleft hright
      cases hanswer.symm.trans hanswer'
      exact hm') hm hsorted
  obtain ⟨places, hplaces, rfl⟩ := places_of_perm hperm
  exact ⟨places, m', hplaces, hm', hsorted⟩

theorem arrange_apart (h : Rows l s rows) (hqsort : Sorts qsort)
    (hapart : Apart l.array s.hea l.count s.memory.length)
    (hcmp : ∀ {left right m}, Between l s kept m → left ∈ indices l.count →
      right ∈ indices l.count → ∃ answer m', cmp left right m = some (answer, m') ∧
        Between l s kept m') :
    ∃ m', arrange qsort l.array s.hea l.count cmp s.memory = some m' ∧
      ∃ places : List Nat, places.Perm (List.range l.count) ∧
        (∀ i place row : Nat, places[i]? = some place → rows[place]? = some row →
          rowAt m' l.array i = some (4 * (row : Int))) ∧
        ∀ x, ¬(l.array ≤ x ∧ x < l.array + l.count) →
          ¬(s.hea ≤ x ∧ x < s.hea + l.count) → kept x → m'[x]? = s.memory[x]? := by
  obtain ⟨backed, hloop, hbacked⟩ := backUp_apart hapart
  have hvector := vector_backedUp hbacked
  have hbetween : Between l s kept backed :=
    ⟨hbacked.length, hbacked.offset, fun x hx hx' _ => hbacked.others x hx hx'⟩
  obtain ⟨places, m, hplaces, hm, hsorted⟩ := perform_indices hbetween hqsort hapart hcmp
  have hcount : (places.map Int.ofNat).length = l.count := by
    rw [List.length_map, hplaces.length_eq, List.length_range]
  have harray : l.array + l.count ≤ m.length := hm.length ▸ hapart.arrayInside
  have hremap := hapart.remapInside
  have hapartEither := hapart.apart
  have hstored := hm.store hapart hcount
  have hplace : ∀ i place, places[i]? = some place →
      place < l.count ∧ (Memory.store l.array (places.map Int.ofNat) m)[l.array + i]? =
        some (place : Int) := by
    intro i place hi
    have hlt := (List.getElem?_eq_some_iff.mp hi).1
    rw [List.length_map] at hcount
    refine ⟨List.mem_range.mp (hplaces.mem_iff.mp (List.mem_of_getElem? hi)), ?_⟩
    rw [Memory.store_inside harray (by rw [List.length_map]; exact hcount) (by omega),
      List.getElem?_map, hi]
    rfl
  have hoffset : ∀ place < l.count,
      (Memory.store l.array (places.map Int.ofNat) m).cell ((s.hea : Int) + (place : Int)) =
        s.memory[l.array + place]? := by
    intro place hlt
    rw [← Int.natCast_add, Memory.cell_ofNat]
    exact hstored.offset place hlt
  have hindices : ∀ i < l.count, ∃ index : Int,
      (Memory.store l.array (places.map Int.ofNat) m)[l.array + i]? = some index ∧
        (∀ x < l.count, (s.hea : Int) + index ≠ ((l.array + x : Nat) : Int)) ∧
          ((Memory.store l.array (places.map Int.ofNat) m).cell (s.hea + index)).isSome := by
    intro i hi
    have hget : i < places.length := by
      rw [List.length_map] at hcount
      omega
    obtain ⟨hlt, hindex⟩ := hplace i _ (List.getElem?_eq_getElem hget)
    have hinside : l.array + places[i] < s.memory.length := by
      have := hapart.arrayInside
      omega
    refine ⟨_, hindex, fun x hx => by omega, ?_⟩
    rw [hoffset _ hlt, List.getElem?_eq_getElem hinside]
    rfl
  obtain ⟨m', hfix, hfixed⟩ := fixUp_isSome (hstored.length.symm ▸ hapart.arrayInside) hindices
  refine ⟨m', ?_, places, hplaces, ?_, ?_⟩
  · simp only [arrange, hloop, hvector, hsorted, hfix, Option.bind_eq_bind, Option.bind_some]
  · intro i place row hi hrow
    obtain ⟨hlt, hindex⟩ := hplace i place hi
    have hcounti : i < l.count := by
      rw [List.length_map] at hcount
      exact hcount ▸ (List.getElem?_eq_some_iff.mp hi).1
    obtain ⟨offset, hcell, hdistance⟩ := hfixed.distance i hcounti place hindex
      (fun x hx => by omega)
    rw [hoffset place hlt, h.distance place row hrow, Option.some.injEq] at hcell
    rw [rowAt, hdistance, ← hcell, Option.map_some]
    congr 1
    omega
  · intro x hx hx' hkept
    rw [hfixed.others x hx]
    exact hstored.others x hx hx' hkept

/-! What is allotted, when it ends below the array on the stack and within the memory. -/

def Layout.Clear (l : Layout) : Prop :=
  l.hea + l.count ≤ if l.stop ≤ l.hea then l.size else l.array

theorem Rows.apart (h : Rows l s rows) (hclear : l.Clear) :
    Apart l.array s.hea l.count s.memory.length := by
  have := l.heap
  have := l.stack
  have := l.room
  have := l.inside
  have := l.placed
  unfold Layout.Clear at hclear
  rw [h.size, h.hea]
  split at hclear
  next => exact ⟨by omega, by omega, by omega⟩
  next => exact ⟨by omega, by omega, by omega⟩

theorem Rows.outside (h : Rows l s rows) (hclear : l.Clear) {x : Nat}
    (hbehind : l.array + l.count ≤ x) (hstop : x < l.stop) :
    ¬(s.hea ≤ x ∧ x < s.hea + l.count) := by
  have := l.placed
  unfold Layout.Clear at hclear
  rw [h.hea]
  split at hclear
  next => omega
  next => omega

theorem release_allot (s : Plugin) (size : Nat) (memory : Memory) :
    ({ s.allot size with memory }.release s.hea).hea = s.hea ∧
      ({ s.allot size with memory }.release s.hea).memory = memory := by
  unfold Plugin.release Plugin.allot
  simp only
  split
  next => exact ⟨rfl, rfl⟩
  next h => exact ⟨by simp only; omega, rfl⟩

theorem whole_of_arrange (h : Rows l s rows) (hqsort : Sorts qsort) (hclear : l.Clear)
    (hcmp : ∀ {left right m}, Between l s kept m → left ∈ indices l.count →
      right ∈ indices l.count → ∃ answer m', cmp left right m = some (answer, m') ∧
        Between l s kept m') :
    ∃ m', arrange qsort l.array s.hea l.count cmp s.memory = some m' ∧
      Whole l s ({ s.allot l.count with memory := m' }.release s.hea) rows kept := by
  obtain ⟨m', harrange, places, hperm, hplaces, hothers⟩ :=
    arrange_apart h hqsort (h.apart hclear) hcmp
  obtain ⟨hhea, hmemory⟩ := release_allot s l.count m'
  refine ⟨m', harrange, hhea, places, hperm, ?_, ?_⟩
  · rw [hmemory]
    exact hplaces
  · intro x hbehind hstop hkept
    rw [hmemory]
    exact hothers x (by omega) (h.outside hclear hbehind hstop) hkept

theorem differ_isSome {str1 str2 : List Int} (h1 : 0 ∈ str1) (h2 : 0 ∈ str2) :
    ∃ found, differ str1 str2 = some found := by
  induction str1 generalizing str2 with
  | nil => cases h1
  | cons c1 str1 ih =>
      cases str2 with
      | nil => cases h2
      | cons c2 str2 =>
          rw [differ]
          split
          next heq =>
            split
            next => exact ⟨_, rfl⟩
            next hne =>
              subst heq
              apply ih
              · exact (List.mem_cons.mp h1).resolve_left (Ne.symm hne)
              · exact (List.mem_cons.mp h2).resolve_left (Ne.symm hne)
          next => exact ⟨_, rfl⟩

theorem Between.stringAt (h : Rows l s rows) {m : Memory} (hm : Between l s kept m) {i row : Nat}
    (hrow : rows[i]? = some row) : stringAt l.array s.hea i m = some (m.drop row) := by
  have hi : i < l.count := h.count ▸ (List.getElem?_eq_some_iff.mp hrow).1
  have hcell : m.cell ((s.hea : Int) + (i : Int)) =
      some (4 * (row : Int) - 4 * ((l.array : Int) + i)) := by
    rw [← Int.natCast_add, Memory.cell_ofNat, hm.offset i hi]
    exact h.distance i row hrow
  have haddress : (4 * ((l.array : Int) + i) + (4 * (row : Int) - 4 * ((l.array : Int) + i))) =
      4 * row := by omega
  simp only [Sorting.stringAt, hcell, Option.bind_eq_bind, Option.bind_some, Memory.stringFrom,
    haddress]
  rw [if_pos (by omega)]
  congr 2
  omega

theorem Between.compares (h : Rows l s rows) (hclear : l.Clear) (hstrings : Terminated l s rows)
    (answer : Int → Int → Int) {left right : Int} {m : Memory}
    (hm : Between l s (fun _ => True) m) (hleft : left ∈ indices l.count)
    (hright : right ∈ indices l.count) :
    ∃ found, sortStringsBy l.array s.hea answer left right m = some (found, m) := by
  obtain ⟨i, hi, rfl⟩ := mem_indices hleft
  obtain ⟨j, hj, rfl⟩ := mem_indices hright
  have hrowi := List.getElem?_eq_getElem (h.count.symm ▸ hi)
  have hrowj := List.getElem?_eq_getElem (h.count.symm ▸ hj)
  have hends : ∀ row ∈ rows, (0 : Int) ∈ m.drop row := by
    intro row hrow
    obtain ⟨k, hstop, hzero⟩ := hstrings row hrow
    have hbehind := (h.behind row hrow).1
    have hkept := hm.others (row + k) (by omega) (h.outside hclear (by omega) hstop) trivial
    apply List.mem_of_getElem? (i := k)
    rw [List.getElem?_drop, hkept]
    exact hzero
  obtain ⟨⟨c1, c2⟩, hdiffer⟩ := differ_isSome (hends _ (List.mem_of_getElem? hrowi))
    (hends _ (List.mem_of_getElem? hrowj))
  refine ⟨answer c1 c2, ?_⟩
  simp [sortStringsBy, Between.stringAt h hm hrowi, Between.stringAt h hm hrowj, hdiffer]

theorem Rows.allots_iff (h : Rows l s rows) : s.Allots l.count ↔ l.Allots := by
  unfold Plugin.Allots Layout.Allots
  rw [h.hea, h.stk]

theorem Rows.clear (h : Rows l s rows) (hfits : l.Fits) (hallots : s.Allots l.count) : l.Clear :=
  hfits.resolve_left fun hnot => hnot (h.allots_iff.mp hallots)

theorem keepsStrings_of_fits (hfits : l.Fits) : l.KeepsStrings := by
  intro s rows qsort type h hstrings hqsort
  unfold sortStrings
  by_cases hallots : s.Allots l.count
  next =>
    have hclear := h.clear hfits hallots
    have hcmp : ∀ {left right m}, Between l s (fun _ => True) m → left ∈ indices l.count →
        right ∈ indices l.count → ∃ answer m',
          (if type = 0 then sortStringsAsc l.array s.hea else sortStringsDesc l.array s.hea)
            left right m = some (answer, m') ∧ Between l s (fun _ => True) m' := by
      intro left right m hm hleft hright
      split
      next =>
        obtain ⟨found, hfound⟩ := hm.compares h hclear hstrings _ hleft hright
        exact ⟨found, m, hfound, hm⟩
      next =>
        obtain ⟨found, hfound⟩ := hm.compares h hclear hstrings _ hleft hright
        exact ⟨found, m, hfound, hm⟩
    obtain ⟨m', harrange, hwhole⟩ := whole_of_arrange h hqsort hclear hcmp
    refine ⟨1, _, ?_, hwhole⟩
    rw [if_pos hallots]
    simp only [harrange, Option.bind_eq_bind, Option.bind_some, Option.pure_def]
  next => exact ⟨0, s, if_neg hallots, whole_refl h _⟩

theorem Between.sort2d {callback : Callback} {data : Data} (h : Rows l s rows)
    (hclear : l.Clear) (hspares : callback.Spares l) {left right : Int} {m : Memory}
    (hm : Between l s callback.Leaves m) (hleft : left ∈ indices l.count)
    (hright : right ∈ indices l.count) :
    ∃ answer m', sort2dAmxCustom callback l.array s.hea data left right m = some (answer, m') ∧
      Between l s callback.Leaves m' := by
  have hinside := (h.apart hclear).remapInside
  have hcell : ∀ index ∈ indices l.count, ∃ offset, m.cell (s.hea + index) = some offset := by
    intro index hindex
    obtain ⟨i, hi, rfl⟩ := mem_indices hindex
    have hlt : s.hea + i < m.length := by
      rw [hm.length]
      omega
    rw [← Int.natCast_add, Memory.cell_ofNat]
    exact ⟨_, List.getElem?_eq_getElem hlt⟩
  obtain ⟨offset1, hoffset1⟩ := hcell left hleft
  obtain ⟨offset2, hoffset2⟩ := hcell right hright
  unfold sort2dAmxCustom
  rw [hoffset1, hoffset2]
  refine ⟨_, _, rfl, ?_, ?_, ?_⟩
  · exact (hspares.length _ _ _ _ _ m).trans hm.length
  · intro i hi
    rw [h.hea]
    refine (hspares.remap i hi _ _ _ _ _ m).trans ?_
    rw [← h.hea]
    exact hm.offset i hi
  · intro x hx hx' hkept
    exact (hkept _ _ _ _ _ m).trans (hm.others x hx hx' hkept)

theorem keepsRows_of_fits (hfits : l.Fits) : l.KeepsRows := by
  intro s rows qsort callback data h hspares hqsort
  unfold sortCustom2D
  by_cases hallots : s.Allots l.count
  next =>
    rw [if_pos hallots]
    cases callback with
    | none =>
        have hreleased : (s.allot l.count).release s.hea = s := by
          unfold Plugin.release Plugin.allot
          simp only
          split
          next => rfl
          next h =>
            have hzero : l.count = 0 := by omega
            rw [hzero]
            rfl
        refine ⟨0, s, ?_, whole_refl h _⟩
        rw [hreleased]
    | some callback =>
        have hclear := h.clear hfits hallots
        have hcmp : ∀ {left right m}, Between l s callback.Leaves m → left ∈ indices l.count →
            right ∈ indices l.count → ∃ answer m',
              sort2dAmxCustom callback l.array s.hea data left right m = some (answer, m') ∧
                Between l s callback.Leaves m' :=
          fun hm hleft hright => hm.sort2d h hclear (hspares callback rfl) hleft hright
        obtain ⟨m', harrange, hwhole⟩ := whole_of_arrange h hqsort hclear hcmp
        refine ⟨1, { s.allot l.count with memory := m' }.release s.hea, ?_, ?_⟩
        · simp only [harrange, Option.bind_eq_bind, Option.bind_some, Option.pure_def]
        · obtain ⟨hhea, places, hperm, hplaces, hothers⟩ := hwhole
          exact ⟨hhea, places, hperm, hplaces,
            fun x hx hstop hkept => hothers x hx hstop (hkept callback rfl)⟩
  next =>
    rw [if_neg hallots]
    exact ⟨0, s, rfl, whole_refl h _⟩

end

end AmxModC.Sorting
