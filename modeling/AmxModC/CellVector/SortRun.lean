import AmxModC.CellVector.World

namespace AmxModC.CellVector.World

open Foundation

/-! Which runs of natives keep `ArraySort` inside of the vectors. -/

def Holds (w : World) (i vec : Nat) : Prop := w.vectorHolder[i]? = some (some vec)

structure Runs (w : World) (sort : ArraySort) : Prop where
  positive : 0 < sort.handle
  slot_lt : slot sort.handle < w.vectorHolder.length
  vec_lt : sort.vec < w.objects.length
  holds : ∀ {v}, w.object sort.vec = some v → w.Holds (slot sort.handle) sort.vec

structure Sound (w : World) : Prop where
  wellFormed : ∀ {vec : Nat} {v}, w.object vec = some v → v.WellFormed
  held : ∀ {i vec}, w.Holds i vec → ∃ v, w.object vec = some v
  injective : ∀ {i j vec}, w.Holds i vec → w.Holds j vec → i = j
  runs : ∀ {sort next}, (sort, next) ∈ w.arraySortStack → w.Runs sort
  honest : ∀ {sort next}, (sort, next) ∈ w.arraySortStack →
    ∀ value, (next value).Honest (List.range sort.before.count)

variable {w : World} {i vec : Nat} {v : CellVector} {handle : Int} {sort : ArraySort}

theorem Runs.stack (h : w.Runs sort) (stack : List (ArraySort × (Int → Sorting Nat))) :
    Runs { w with arraySortStack := stack } sort :=
  ⟨h.positive, h.slot_lt, h.vec_lt, h.holds⟩

theorem object_eq_some : w.object vec = some v ↔ w.objects[vec]? = some (some v) := by
  rw [object, Option.join_eq_some_iff]

theorem object_lt (h : w.object vec = some v) : vec < w.objects.length :=
  (List.getElem?_eq_some_iff.mp (object_eq_some.mp h)).1

theorem empty_sound : Sound empty where
  wellFormed h := by simp [object, empty] at h
  held h := by simp [Holds, empty] at h
  injective h := by simp [Holds, empty] at h
  runs h := by simp [empty] at h
  honest h := by simp [empty] at h

theorem handleToVector_eq_some :
    w.handleToVector handle = some vec ↔ 0 < handle ∧ w.Holds (slot handle) vec := by
  unfold handleToVector Holds
  split
  · simp only [reduceCtorEq, false_iff, not_and]
    intro hpos hget
    have hlt := (List.getElem?_eq_some_iff.mp hget).1
    unfold slot at hlt
    omega
  · rw [Option.join_eq_some_iff]
    exact ⟨fun hget => ⟨by omega, hget⟩, And.right⟩

/-! What the natives do to the vectors and the holder. -/

def write (w : World) (vec : Nat) (v : CellVector) : World :=
  { w with objects := w.objects.set vec (some v) }

def remove (w : World) (i vec : Nat) : World :=
  { w with objects := w.objects.set vec none, vectorHolder := w.vectorHolder.set i none }

def place (w : World) (i : Nat) (v : CellVector) : World :=
  { w with
    objects := w.objects ++ [some v]
    vectorHolder := w.vectorHolder.set i (some w.objects.length) }

def replace (w : World) (sort : ArraySort) (newvec : CellVector) : World :=
  { w with
    objects := w.objects.set sort.vec none ++ [some newvec]
    vectorHolder := w.vectorHolder.set (slot sort.handle) (some w.objects.length) }

theorem replace_eq (w : World) (sort : ArraySort) (newvec : CellVector) :
    w.replace sort newvec =
      (w.remove (slot sort.handle) sort.vec).place (slot sort.handle) newvec := by
  simp [replace, remove, place]

theorem object_write (hlt : vec < w.objects.length) (v : CellVector) (other : Nat) :
    (w.write vec v).object other = if vec = other then some v else w.object other := by
  rw [object, write, List.getElem?_set]
  split <;> simp_all [object]

theorem object_remove {other : Nat} {u : CellVector} :
    (w.remove i vec).object other = some u ↔ vec ≠ other ∧ w.object other = some u := by
  rw [object, remove, List.getElem?_set]
  split
  · split <;> simp_all
  · simp_all [object]

theorem holds_remove {j other : Nat} :
    (w.remove i vec).Holds j other ↔ i ≠ j ∧ w.Holds j other := by
  rw [Holds, remove, List.getElem?_set]
  split
  · split <;> simp_all
  · simp_all [Holds]

theorem object_place {other : Nat} {u : CellVector} :
    (w.place i v).object other = some u ↔
      w.object other = some u ∨ other = w.objects.length ∧ v = u := by
  rw [object_eq_some, object_eq_some, place, List.getElem?_append]
  split
  · simp
    omega
  · next hge =>
      rw [List.getElem?_eq_none (show w.objects.length ≤ other by omega), List.getElem?_singleton]
      split
      · simp
        omega
      · simp
        omega

theorem holds_place (hfree : w.vectorHolder[i]? = some none) {j other : Nat} :
    (w.place i v).Holds j other ↔ w.Holds j other ∨ i = j ∧ w.objects.length = other := by
  unfold Holds place
  rw [List.getElem?_set]
  split
  · next heq =>
      subst heq
      have hlt := (List.getElem?_eq_some_iff.mp hfree).1
      rw [if_pos hlt, hfree]
      simp
  · simp_all

theorem holds_extend {j other : Nat} :
    ({ w with vectorHolder := w.vectorHolder ++ [none] } : World).Holds j other ↔
      w.Holds j other := by
  unfold Holds
  rw [List.getElem?_append]
  split
  · rfl
  · next hge =>
      rw [List.getElem?_eq_none (show w.vectorHolder.length ≤ j by omega)]
      simp [List.getElem?_singleton]

theorem arrayCreate_cases (w : World) (garbage : Garbage) (cellsize reserved : Int) :
    (w.arrayCreate garbage cellsize reserved).2 = w ∨
      ∃ v : CellVector, v.WellFormed ∧
        ((∃ i, w.vectorHolder[i]? = some none ∧
            (w.arrayCreate garbage cellsize reserved).2 = w.place i v) ∨
          (w.arrayCreate garbage cellsize reserved).2 =
            { w with vectorHolder := w.vectorHolder ++ [none] }.place w.vectorHolder.length v) := by
  unfold arrayCreate
  split
  · exact .inl rfl
  · split
    · exact .inl rfl
    · next hsize hreserved =>
        refine .inr ⟨(create cellsize.toNat).grow garbage reserved.toNat,
          grow_wellFormed garbage (create_wellFormed (by omega)) _, ?_⟩
        cases hfind : w.vectorHolder.findIdx? Option.isNone with
        | some i =>
            obtain ⟨hlt, hnone, -⟩ := List.findIdx?_eq_some_iff_getElem.mp hfind
            refine .inl ⟨i, ?_, rfl⟩
            rw [List.getElem?_eq_getElem hlt, Option.isNone_iff_eq_none.mp hnone]
        | none => exact .inr (by simp [place])

theorem call_cases {op : Op} {next : World} (hcall : w.call handle op = some next) :
    next = w ∨ ∃ vec v v', w.handleToVector handle = some vec ∧ w.object vec = some v ∧
      v.next op = some v' ∧ next = w.write vec v' := by
  unfold call at hcall
  split at hcall
  · exact .inl (Option.some.inj hcall).symm
  · next vec hvec =>
      simp only [Option.bind_eq_bind, Option.bind_eq_some_iff] at hcall
      obtain ⟨v, hobject, v', hnext, heq⟩ := hcall
      exact .inr ⟨vec, v, v', hvec, hobject, hnext, (Option.some.inj heq).symm⟩

theorem arrayDestroy_cases {result : Int × World} (hdestroy : w.arrayDestroy handle = some result) :
    result.2 = w ∨ ∃ vec, w.handleToVector handle = some vec ∧
      result.2 = w.remove (slot handle) vec := by
  unfold arrayDestroy at hdestroy
  split at hdestroy
  · cases hdestroy
    exact .inl rfl
  · next vec hvec =>
      simp only [Option.bind_eq_bind, Option.bind_eq_some_iff] at hdestroy
      obtain ⟨v, -, heq⟩ := hdestroy
      cases heq
      exact .inr ⟨vec, hvec, rfl⟩

theorem arraySort_cases {qsort : List Nat → Sorting Nat} {garbage : Nat → Garbage} {found : Bool}
    {next : World} (hsort : w.arraySort qsort garbage handle found = some next) :
    next = w ∨ ∃ vec v, w.handleToVector handle = some vec ∧ w.object vec = some v ∧
      w.proceed garbage ⟨handle, vec, v⟩ (qsort (List.range v.count)) = some next := by
  unfold arraySort at hsort
  split at hsort
  · exact .inl (Option.some.inj hsort).symm
  · next vec hvec =>
      split at hsort
      · obtain ⟨v, hobject, hproceed⟩ := Option.bind_eq_some_iff.mp hsort
        exact .inr ⟨vec, v, hvec, hobject, hproceed⟩
      · exact .inl (Option.some.inj hsort).symm

theorem answer_cases {qsort : List Nat → Sorting Nat} {garbage : Nat → Garbage} {value : Int}
    {next : World} (hstep : w.step qsort (.answer garbage value) = some next) :
    next = w ∨ ∃ sort answered rest, w.arraySortStack = (sort, answered) :: rest ∧
      { w with arraySortStack := rest }.proceed garbage sort (answered value) = some next := by
  dsimp only [step] at hstep
  split at hstep
  · exact .inl (Option.some.inj hstep).symm
  · next sort answered rest hstack => exact .inr ⟨sort, answered, rest, hstack, hstep⟩

namespace Sound

theorem apart (h : Sound w) (hheld : w.Holds i vec) {j other : Nat} (hother : w.Holds j other) :
    i ≠ j ↔ vec ≠ other := by
  constructor
  · rintro hne rfl
    exact hne (h.injective hheld hother)
  · rintro hne rfl
    exact hne (Option.some.inj (Option.some.inj (hheld.symm.trans hother)))

theorem write (h : Sound w) {v' : CellVector} (hobject : w.object vec = some v)
    (hv' : v'.WellFormed) : Sound (w.write vec v') := by
  have hset := object_write (object_lt hobject) v'
  refine ⟨?_, ?_, h.injective, ?_, h.honest⟩
  · intro other u hu
    rw [hset] at hu
    split at hu
    · cases hu
      exact hv'
    · exact h.wellFormed hu
  · intro j other hother
    rw [hset]
    split
    · exact ⟨v', rfl⟩
    · exact h.held hother
  · intro sort next hmem
    have hruns := h.runs hmem
    refine ⟨hruns.positive, hruns.slot_lt, by simpa [World.write] using hruns.vec_lt, ?_⟩
    intro u hu
    rw [hset] at hu
    split at hu
    · next heq => exact hruns.holds (heq ▸ hobject)
    · exact hruns.holds hu

theorem remove (h : Sound w) (hheld : w.Holds i vec) : Sound (w.remove i vec) := by
  refine ⟨fun hu => h.wellFormed (object_remove.mp hu).2, ?_, ?_, ?_, h.honest⟩
  · intro j other hother
    obtain ⟨hne, hother⟩ := holds_remove.mp hother
    obtain ⟨u, hu⟩ := h.held hother
    exact ⟨u, object_remove.mpr ⟨(h.apart hheld hother).mp hne, hu⟩⟩
  · intro j k other hj hk
    exact h.injective (holds_remove.mp hj).2 (holds_remove.mp hk).2
  · intro sort next hmem
    have hruns := h.runs hmem
    refine ⟨hruns.positive, by simpa [World.remove] using hruns.slot_lt,
      by simpa [World.remove] using hruns.vec_lt, ?_⟩
    intro u hu
    obtain ⟨hne, hu⟩ := object_remove.mp hu
    have hother := hruns.holds hu
    exact holds_remove.mpr ⟨(h.apart hheld hother).mpr hne, hother⟩

theorem extend (h : Sound w) : Sound { w with vectorHolder := w.vectorHolder ++ [none] } := by
  refine ⟨h.wellFormed, fun hother => h.held (holds_extend.mp hother), ?_, ?_, h.honest⟩
  · intro j k other hj hk
    exact h.injective (holds_extend.mp hj) (holds_extend.mp hk)
  · intro sort next hmem
    have hruns := h.runs hmem
    have hlt := hruns.slot_lt
    exact ⟨hruns.positive, by simp; omega, hruns.vec_lt,
      fun hu => holds_extend.mpr (hruns.holds hu)⟩

theorem place (h : Sound w) (hv : v.WellFormed) (hfree : w.vectorHolder[i]? = some none) :
    Sound (w.place i v) := by
  have hfresh : ∀ {j other}, w.Holds j other → other ≠ w.objects.length := by
    intro j other hother
    obtain ⟨u, hu⟩ := h.held hother
    exact Nat.ne_of_lt (object_lt hu)
  refine ⟨?_, ?_, ?_, ?_, h.honest⟩
  · intro other u hu
    rcases object_place.mp hu with hu | ⟨-, rfl⟩
    · exact h.wellFormed hu
    · exact hv
  · intro j other hother
    rcases (holds_place hfree).mp hother with hother | ⟨-, rfl⟩
    · obtain ⟨u, hu⟩ := h.held hother
      exact ⟨u, object_place.mpr (.inl hu)⟩
    · exact ⟨v, object_place.mpr (.inr ⟨rfl, rfl⟩)⟩
  · intro j k other hj hk
    rcases (holds_place hfree).mp hj with hj | ⟨rfl, rfl⟩
    · rcases (holds_place hfree).mp hk with hk | ⟨rfl, rfl⟩
      · exact h.injective hj hk
      · exact absurd rfl (hfresh hj)
    · rcases (holds_place hfree).mp hk with hk | ⟨rfl, -⟩
      · exact absurd rfl (hfresh hk)
      · rfl
  · intro sort next hmem
    have hruns := h.runs hmem
    have hlt := hruns.vec_lt
    refine ⟨hruns.positive, by simpa [World.place] using hruns.slot_lt,
      by simp [World.place]; omega, ?_⟩
    intro u hu
    rcases object_place.mp hu with hu | ⟨heq, -⟩
    · exact (holds_place hfree).mpr (.inl (hruns.holds hu))
    · omega

theorem replace (h : Sound w) (hv : v.WellFormed) (hheld : w.Holds (slot sort.handle) sort.vec) :
    Sound (w.replace sort v) := by
  have hlt := (List.getElem?_eq_some_iff.mp hheld).1
  rw [replace_eq]
  exact (h.remove hheld).place hv (by simp [World.remove, hlt])

theorem pop (h : Sound w) {rest : List (ArraySort × (Int → Sorting Nat))}
    {next : Int → Sorting Nat} (hstack : w.arraySortStack = (sort, next) :: rest) :
    Sound { w with arraySortStack := rest } where
  wellFormed := h.wellFormed
  held := h.held
  injective := h.injective
  runs hmem := (h.runs (hstack ▸ List.mem_cons_of_mem _ hmem)).stack rest
  honest hmem := h.honest (hstack ▸ List.mem_cons_of_mem _ hmem)

theorem push (h : Sound w) {next : Int → Sorting Nat} (hruns : w.Runs sort)
    (hnext : ∀ value, (next value).Honest (List.range sort.before.count)) :
    Sound { w with arraySortStack := (sort, next) :: w.arraySortStack } := by
  refine ⟨h.wellFormed, h.held, h.injective, ?_, ?_⟩
  · intro other after hmem
    rcases List.mem_cons.mp hmem with heq | hmem
    · cases heq
      exact hruns.stack _
    · exact (h.runs hmem).stack _
  · intro other after hmem
    rcases List.mem_cons.mp hmem with heq | hmem
    · cases heq
      exact hnext
    · exact h.honest hmem

theorem arrayCreate (h : Sound w) (garbage : Garbage) (cellsize reserved : Int) :
    Sound (w.arrayCreate garbage cellsize reserved).2 := by
  rcases arrayCreate_cases w garbage cellsize reserved with heq | ⟨v, hv, ⟨i, hfree, heq⟩ | heq⟩
  · rwa [heq]
  · rw [heq]
    exact h.place hv hfree
  · rw [heq]
    exact h.extend.place hv (by simp)

theorem call (h : Sound w) {op : Op} {next : World} (hcall : w.call handle op = some next) :
    Sound next := by
  rcases call_cases hcall with rfl | ⟨vec, v, v', -, hobject, hnext, rfl⟩
  · exact h
  · exact h.write hobject (next_wellFormed (h.wellFormed hobject) hnext)

theorem arrayDestroy (h : Sound w) {result : Int × World}
    (hdestroy : w.arrayDestroy handle = some result) : Sound result.2 := by
  rcases arrayDestroy_cases hdestroy with heq | ⟨vec, hvec, heq⟩
  · rwa [heq]
  · rw [heq]
    exact h.remove (handleToVector_eq_some.mp hvec).2

end Sound

theorem call_isSome (h : Sound w) (op : Op) :
    (w.call handle op).isSome ↔
      ∀ vec v, w.handleToVector handle = some vec → w.object vec = some v → v.InBounds op := by
  unfold call
  split
  · next hnone => simp [hnone]
  · next vec hvec =>
      obtain ⟨v, hobject⟩ := h.held (handleToVector_eq_some.mp hvec).2
      have honly : (∀ vec' v', w.handleToVector handle = some vec' → w.object vec' = some v' →
          v'.InBounds op) ↔ v.InBounds op := by
        constructor
        · intro hall
          exact hall vec v hvec hobject
        · intro hinside vec' v' hvec' hobject'
          obtain rfl : vec = vec' := Option.some.inj (hvec.symm.trans hvec')
          obtain rfl : v = v' := Option.some.inj (hobject.symm.trans hobject')
          exact hinside
      rw [honly, ← next_isSome_iff (h.wellFormed hobject), hobject]
      cases hnext : v.next op <;> simp [hnext]

theorem arrayDestroy_isSome (h : Sound w) : (w.arrayDestroy handle).isSome := by
  unfold arrayDestroy
  split
  · rfl
  · next vec hvec =>
      obtain ⟨v, hobject⟩ := h.held (handleToVector_eq_some.mp hvec).2
      rw [hobject]
      rfl

/-! The end of a sort. -/

theorem handleToVector_replace (hruns : w.Runs sort) (newvec : CellVector) :
    (w.replace sort newvec).handleToVector sort.handle = some w.objects.length := by
  refine handleToVector_eq_some.mpr ⟨hruns.positive, ?_⟩
  simp [Holds, World.replace, hruns.slot_lt]

theorem object_replace (w : World) (sort : ArraySort) (newvec : CellVector) :
    (w.replace sort newvec).object w.objects.length = some newvec := by
  simp [object, World.replace]

theorem finish_of_intact (h : Sound w) (garbage : Nat → Garbage) {intList : List Nat}
    (hperm : intList.Perm (List.range sort.before.count)) (hobject : w.object sort.vec = some v)
    (hle : v.count ≤ sort.before.count) (hmem : ∀ which ∈ intList.take v.count, which < v.count) :
    ∃ newvec, w.finish garbage sort intList = some (1, w.replace sort newvec) ∧
      newvec.WellFormed ∧
      newvec.records = (intList.take v.count).map (Block.record v.cellcount v.block) := by
  have hlength : intList.length = sort.before.count := by simpa using hperm.length_eq
  obtain ⟨newvec, hrebuild, hnew, hrecords⟩ :=
    rebuild_spec garbage (h.wellFormed hobject) (hlength ▸ hle) hmem
  refine ⟨newvec, ?_, hnew, hrecords⟩
  rw [finish, hobject]
  simp [hrebuild, World.replace]

theorem intact_of_finish (h : Sound w) (garbage : Nat → Garbage) {intList : List Nat}
    (hperm : intList.Perm (List.range sort.before.count))
    (hfinish : (w.finish garbage sort intList).isSome) : w.Intact sort (.done intList) := by
  have hlength : intList.length = sort.before.count := by simpa using hperm.length_eq
  cases hobject : w.object sort.vec with
  | none => simp [finish, hobject] at hfinish
  | some v =>
      have hrebuild : (v.rebuild garbage intList).isSome := by
        cases hsome : v.rebuild garbage intList with
        | none => simp [finish, hobject, hsome] at hfinish
        | some result => rfl
      obtain ⟨hle, hmem⟩ := (rebuild_isSome garbage (h.wellFormed hobject)).mp hrebuild
      exact ⟨v, hobject, hlength ▸ hle, hmem⟩

theorem proceeds_iff (h : Sound w) (garbage : Nat → Garbage) (hruns : w.Runs sort)
    {sorting : Sorting Nat} (hsorting : sorting.Honest (List.range sort.before.count)) :
    w.Proceeds garbage sort sorting ↔ w.Intact sort sorting := by
  cases sorting with
  | compare current left right next =>
      exact ⟨fun _ => trivial, fun _ => ⟨Sorting.ends _, rfl, by simp⟩⟩
  | done intList =>
      constructor
      · intro hproceeds
        apply intact_of_finish h garbage hsorting
        simpa [proceed] using hproceeds.inside
      · rintro ⟨v, hobject, hle, hmem⟩
        obtain ⟨newvec, hfinish, hnew, hrecords⟩ :=
          finish_of_intact h garbage hsorting hobject hle hmem
        refine ⟨Sorting.ends _, by simp [proceed, hfinish], ?_⟩
        intro intList' v' next heq hobject' hsame hnext
        cases heq
        obtain rfl : v = v' := Option.some.inj (hobject.symm.trans hobject')
        obtain rfl : w.replace sort newvec = next := by simpa [proceed, hfinish] using hnext
        refine ⟨_, newvec, handleToVector_replace hruns newvec, object_replace w sort newvec, ?_⟩
        have hcount : sort.before.count = v.count := by simpa using congrArg List.length hsame.symm
        rw [hrecords, ← hsame]
        exact perm_records (hcount ▸ hsorting)

theorem proceed_cases (h : Sound w) {garbage : Nat → Garbage} (hruns : w.Runs sort)
    {sorting : Sorting Nat} (hsorting : sorting.Honest (List.range sort.before.count))
    {next : World} (hproceed : w.proceed garbage sort sorting = some next) :
    (∃ answered : Int → Sorting Nat,
      (∀ value, (answered value).Honest (List.range sort.before.count)) ∧
        next = { w with arraySortStack := (sort, answered) :: w.arraySortStack }) ∨
      ∃ intList newvec, sorting = .done intList ∧ newvec.WellFormed ∧
        w.Holds (slot sort.handle) sort.vec ∧ next = w.replace sort newvec := by
  cases sorting with
  | compare current left right answered =>
      cases hproceed
      exact .inl ⟨answered, hsorting.2.2.2, rfl⟩
  | done intList =>
      obtain ⟨result, hfinish, rfl⟩ := Option.map_eq_some_iff.mp hproceed
      obtain ⟨v, hobject, hle, hmem⟩ :=
        intact_of_finish h garbage hsorting (Option.isSome_of_eq_some hfinish)
      obtain ⟨newvec, hreplaced, hnew, -⟩ := finish_of_intact h garbage hsorting hobject hle hmem
      obtain rfl : (1, w.replace sort newvec) = result :=
        Option.some.inj (hreplaced.symm.trans hfinish)
      exact .inr ⟨intList, newvec, rfl, hnew, hruns.holds hobject, rfl⟩

theorem proceed_sound (h : Sound w) {garbage : Nat → Garbage} (hruns : w.Runs sort)
    {sorting : Sorting Nat} (hsorting : sorting.Honest (List.range sort.before.count))
    {next : World} (hproceed : w.proceed garbage sort sorting = some next) : Sound next := by
  rcases proceed_cases h hruns hsorting hproceed with
    ⟨answered, hanswered, rfl⟩ | ⟨intList, newvec, -, hnew, hheld, rfl⟩
  · exact h.push hruns hanswered
  · exact h.replace hnew hheld

/-! One step, and all runs. -/

theorem runs_of_handle (hvec : w.handleToVector handle = some vec)
    (hobject : w.object vec = some v) : w.Runs ⟨handle, vec, v⟩ := by
  obtain ⟨hpos, hheld⟩ := handleToVector_eq_some.mp hvec
  exact ⟨hpos, (List.getElem?_eq_some_iff.mp hheld).1, object_lt hobject, fun _ => hheld⟩

theorem intact_of_count (hobject : w.object sort.vec = some v)
    (hcount : v.count = sort.before.count) {sorting : Sorting Nat}
    (hsorting : sorting.Honest (List.range sort.before.count)) : w.Intact sort sorting := by
  cases sorting with
  | compare => trivial
  | done intList =>
      refine ⟨v, hobject, hcount.le, fun which hmem => ?_⟩
      rw [hcount]
      exact List.mem_range.mp (hsorting.mem_iff.mp (List.mem_of_mem_take hmem))

theorem isSome_of_right {qsort : List Nat → Sorting Nat} {event : Event}
    (hright : w.Right qsort event) : (w.step qsort event).isSome := by
  cases event with
  | arrayCreate | call | arrayDestroy => exact hright
  | arraySort => exact hright.1
  | answer garbage value =>
      dsimp only [step]
      split
      · rfl
      · next sort answered rest hstack => exact (hright sort answered rest hstack).inside

section

variable {qsort : List Nat → Sorting Nat} (hqsort : ∀ xs, (qsort xs).Honest xs)

include hqsort

theorem step_sound (h : Sound w) {event : Event} {next : World}
    (hstep : w.step qsort event = some next) : Sound next := by
  cases event with
  | arrayCreate garbage cellsize reserved =>
      cases hstep
      exact h.arrayCreate garbage cellsize reserved
  | call handle op => exact h.call hstep
  | arrayDestroy handle =>
      obtain ⟨result, hdestroy, rfl⟩ := Option.map_eq_some_iff.mp hstep
      exact h.arrayDestroy hdestroy
  | arraySort garbage handle found =>
      rcases arraySort_cases hstep with rfl | ⟨vec, v, hvec, hobject, hproceed⟩
      · exact h
      · exact proceed_sound h (runs_of_handle hvec hobject) (hqsort _) hproceed
  | answer garbage value =>
      rcases answer_cases hstep with rfl | ⟨sort, answered, rest, hstack, hproceed⟩
      · exact h
      · have hmem : (sort, answered) ∈ w.arraySortStack := by simp [hstack]
        exact proceed_sound (h.pop hstack) ((h.runs hmem).stack rest) (h.honest hmem value) hproceed

theorem right_arraySort (h : Sound w) (garbage : Nat → Garbage) (handle : Int) (found : Bool) :
    w.Right qsort (.arraySort garbage handle found) := by
  have hproceeds : ∀ vec v, w.handleToVector handle = some vec → w.object vec = some v →
      w.Proceeds garbage ⟨handle, vec, v⟩ (qsort (List.range v.count)) := by
    intro vec v hvec hobject
    have hintact : w.Intact ⟨handle, vec, v⟩ (qsort (List.range v.count)) :=
      intact_of_count hobject rfl (hqsort _)
    exact (proceeds_iff h garbage (runs_of_handle hvec hobject) (hqsort _)).mpr hintact
  refine ⟨?_, fun vec v hvec hobject _ => hproceeds vec v hvec hobject⟩
  unfold arraySort
  split
  · rfl
  · next vec hvec =>
      split
      · obtain ⟨v, hobject⟩ := h.held (handleToVector_eq_some.mp hvec).2
        rw [hobject]
        exact (hproceeds vec v hvec hobject).inside
      · rfl

theorem right_iff_allowed (h : Sound w) (event : Event) :
    w.Right qsort event ↔ w.Allowed event := by
  cases event with
  | arrayCreate garbage cellsize reserved => exact iff_of_true rfl trivial
  | call handle op => exact call_isSome h op
  | arrayDestroy handle =>
      refine iff_of_true ?_ trivial
      change ((w.arrayDestroy handle).map Prod.snd).isSome
      rw [Option.isSome_map]
      exact arrayDestroy_isSome h
  | arraySort garbage handle found =>
      exact iff_of_true (right_arraySort hqsort h garbage handle found) trivial
  | answer garbage value =>
      refine forall₃_congr fun sort answered rest => forall_congr' fun hstack => ?_
      have hmem : (sort, answered) ∈ w.arraySortStack := by simp [hstack]
      exact proceeds_iff (h.pop hstack) garbage ((h.runs hmem).stack rest) (h.honest hmem value)

theorem run_isSome_of_right {events : List Event}
    (h : Meets (step qsort) (Right qsort) empty events) :
    (run (step qsort) empty events).isSome := by
  have hkeep : ∀ {w : World} {event : Event}, Sound w → w.Right qsort event →
      ∃ next, w.step qsort event = some next ∧ Sound next := by
    intro w event hsound hright
    obtain ⟨next, hnext⟩ := Option.isSome_iff_exists.mp (isSome_of_right hright)
    exact ⟨next, hnext, step_sound hqsort hsound hnext⟩
  obtain ⟨final, hrun, -⟩ := run_total hkeep empty_sound h
  exact Option.isSome_of_eq_some hrun

end

def pushing : List Event :=
  [.arrayCreate (fun _ => 0) 1 1, .call 1 (.push fun _ => 0), .call 1 (.push fun _ => 0),
    .arraySort (fun _ _ => 0) 1 true, .call 1 (.push fun _ => 0), .answer (fun _ _ => 0) 0,
    .answer (fun _ _ => 0) 0, .answer (fun _ _ => 0) 0, .answer (fun _ _ => 0) 0]

def Elsewhere (handle : Int) (w : World) : Event → Prop
  | .arrayCreate _ _ _ => True
  | .call other _ | .arrayDestroy other | .arraySort _ other _ => other ≠ handle
  | .answer _ value =>
      ∀ sort next rest intList, w.arraySortStack = (sort, next) :: rest →
        next value = .done intList → sort.handle ≠ handle

def Keeps (handle : Int) (vec : Nat) (v : CellVector) (w : World) : Prop :=
  w.handleToVector handle = some vec ∧ w.object vec = some v

namespace Keeps

variable {other : Int} {vec' : Nat}

end Keeps

end AmxModC.CellVector.World
