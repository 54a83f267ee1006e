import AmxModC.Trie.Shape

namespace AmxModC.Trie

open Foundation

namespace KTrie

variable {K : Type}

/-! The values in the trie, and the edits of one node. -/

/-- A node other than `j` ends the key and has the value. -/
def HasBut (t : KTrie K) (path : Nat → List Byte) (j : Nat) (key : List Byte) (v : K) : Prop :=
  ∃ i, i ≠ j ∧ (t.base i).value = some v ∧ t.keyOf path i = key

def Has (t : KTrie K) (path : Nat → List Byte) (key : List Byte) (v : K) : Prop :=
  ∃ i, (t.base i).value = some v ∧ t.keyOf path i = key

def Spelled (t : KTrie K) (path : Nat → List Byte) (P : Byte → Prop) : Prop :=
  ∀ j, (t.base j).mode ≠ .unused → ∀ c ∈ t.keyOf path j, P c

def Fits (t : KTrie K) (j : Nat) (node : KTrieNode K) : Prop :=
  node.mode = .arc ∧ node.idx ≤ t.baseSize ∨
    node.mode = .term ∧ t.string node.idx ≠ [] ∧ t.Spare node.idx (t.string node.idx) ∧
      ∀ k, k ≠ j → (t.base k).mode = .term →
        Apart (t.base k).idx (t.string (t.base k).idx) node.idx (t.string node.idx)

section

variable {t t' : KTrie K} {path path' : Nat → List Byte} {i j : Nat} {c : Byte}
  {key keyptr s : List Byte} {v : K} {node : KTrieNode K}

theorem base_setNode_self (t : KTrie K) (j : Nat) (node : KTrieNode K) :
    (t.setNode j node).base j = node := Function.update_self ..

theorem base_setNode_ne (t : KTrie K) (node : KTrieNode K) (hne : i ≠ j) :
    (t.setNode j node).base i = t.base i := Function.update_of_ne hne ..

theorem has_iff_hasBut (j : Nat) :
    t.Has path key v ↔
      t.HasBut path j key v ∨ (t.base j).value = some v ∧ t.keyOf path j = key := by
  constructor
  · rintro ⟨i, hvalue, hkey⟩
    by_cases hij : i = j
    · exact .inr (hij ▸ ⟨hvalue, hkey⟩)
    · exact .inl ⟨i, hij, hvalue, hkey⟩
  · rintro (⟨i, -, hvalue, hkey⟩ | ⟨hvalue, hkey⟩)
    · exact ⟨i, hvalue, hkey⟩
    · exact ⟨j, hvalue, hkey⟩

theorem has_iff_of_none (hvalue : (t.base j).value = none) :
    t.Has path key v ↔ t.HasBut path j key v := by
  rw [has_iff_hasBut j, hvalue]
  simp

theorem keyOf_congr (hbase : t'.base i = t.base i) (hpath : path' i = path i)
    (hstring : (t.base i).mode = .term → t'.string (t.base i).idx = t.string (t.base i).idx) :
    t'.keyOf path' i = t.keyOf path i := by
  rw [keyOf, keyOf, hbase, hpath]
  split
  next hterm => rw [hstring hterm]
  next => rfl

theorem hasBut_setNode (hpath : ∀ i, i ≠ j → path' i = path i) :
    (t.setNode j node).HasBut path' j key v ↔ t.HasBut path j key v := by
  refine exists_congr fun i => and_congr_right fun hi => ?_
  have hbase := base_setNode_ne t node hi
  rw [hbase, keyOf_congr hbase (hpath i hi) fun _ => rfl]

theorem has_congr (hbase : t'.base = t.base)
    (hstring : ∀ i, (t.base i).mode = .term →
      t'.string (t.base i).idx = t.string (t.base i).idx) :
    t'.Has path key v ↔ t.Has path key v := by
  refine exists_congr fun i => ?_
  rw [hbase, keyOf_congr (congrFun hbase i) rfl (hstring i)]

theorem hasBut_congr (hbase : t'.base = t.base)
    (hstring : ∀ i, (t.base i).mode = .term →
      t'.string (t.base i).idx = t.string (t.base i).idx) :
    t'.HasBut path j key v ↔ t.HasBut path j key v := by
  refine exists_congr fun i => ?_
  rw [hbase, keyOf_congr (congrFun hbase i) rfl (hstring i)]

theorem Spelled.congr {P : Byte → Prop} (h : t.Spelled path P) (hbase : t'.base = t.base)
    (hstring : ∀ i, (t.base i).mode = .term →
      t'.string (t.base i).idx = t.string (t.base i).idx) :
    t'.Spelled path P := by
  intro i hused
  rw [hbase] at hused
  rw [keyOf_congr (congrFun hbase i) rfl (hstring i)]
  exact h i hused

theorem Spelled.setNode {P : Byte → Prop} (h : t.Spelled path P)
    (hpath : ∀ i, i ≠ j → path' i = path i)
    (hself : ∀ c ∈ (t.setNode j node).keyOf path' j, P c) :
    (t.setNode j node).Spelled path' P := by
  intro i hused
  by_cases hij : i = j
  · exact hij ▸ hself
  · have hbase := base_setNode_ne t node hij
    rw [hbase] at hused
    rw [keyOf_congr hbase (hpath i hij) fun _ => rfl]
    exact h i hused

theorem Shape.walk_bind (h : t.Shape path) (hkey : 0 ∉ key) :
    ((t.walk 1 key).bind fun i => (t.base i).value) = some v ↔ t.Has path key v := by
  rw [Option.bind_eq_some_iff]
  constructor
  · rintro ⟨i, hwalk, hvalue⟩
    exact ⟨i, hvalue, ((h.walk_eq_some hkey).mp hwalk).2.2⟩
  · rintro ⟨i, hvalue, hkeyOf⟩
    exact ⟨i, (h.walk_eq_some hkey).mpr ⟨h.mode_of_value hvalue, h.ne_root hvalue, hkeyOf⟩, hvalue⟩

theorem Shape.hasBut_of_used (h : t.Shape path) (hused : (t.base j).mode ≠ .unused) (hroot : j ≠ 1) :
    t.HasBut path j key v ↔ key ≠ t.keyOf path j ∧ t.Has path key v := by
  constructor
  · rintro ⟨i, hi, hvalue, rfl⟩
    refine ⟨fun hkey => hi ?_, i, hvalue, rfl⟩
    exact h.keyOf_inj (h.mode_of_value hvalue) (h.ne_root hvalue) hused hroot hkey
  · rintro ⟨hne, i, hvalue, rfl⟩
    refine ⟨i, ?_, hvalue, rfl⟩
    rintro rfl
    exact hne rfl

theorem Shape.childless_of_term (h : t.Shape path) (hterm : (t.base j).mode = .term) :
    t.Childless j := by
  rintro k hroot hused rfl
  obtain ⟨-, -, harc, -, -⟩ := h.child hroot hused
  rw [hterm] at harc
  cases harc

theorem Shape.childless_of_unused (h : t.Shape path) (hfree : (t.base j).mode = .unused) :
    t.Childless j := by
  rintro k hroot hused rfl
  obtain ⟨-, -, harc, -, -⟩ := h.child hroot hused
  rw [hfree] at harc
  cases harc

theorem Fits.used (h : t.Fits j node) : node.mode ≠ .unused := by
  rcases h with ⟨hmode, -⟩ | ⟨hmode, -⟩ <;> simp [hmode]

theorem Shape.replace (h : t.Shape path)
    (hroot : j ≠ 1)
    (hbound : j ≤ t.baseSize)
    (hchildless : t.Childless j)
    (harc : (t.base node.parent).mode = .arc)
    (hne : node.parent ≠ j)
    (hc : c ≠ 0)
    (hslot : j = (t.base node.parent).idx + c.toNat)
    (hfits : t.Fits j node) :
    (t.setNode j node).Shape (Function.update path j (path node.parent ++ [c])) where
  size := h.size
  rootMode := by
    rw [base_setNode_ne t node hroot.symm]
    exact h.rootMode
  rootIdx := by
    rw [base_setNode_ne t node hroot.symm]
    exact h.rootIdx
  rootParent := by
    rw [base_setNode_ne t node hroot.symm]
    exact h.rootParent
  rootValue := by
    rw [base_setNode_ne t node hroot.symm]
    exact h.rootValue
  rootPath := by
    rw [Function.update_of_ne hroot.symm]
    exact h.rootPath
  child := by
    intro k hk hused
    by_cases hkj : k = j
    · subst hkj
      rw [Child, base_setNode_self, base_setNode_ne t node hne, Function.update_self,
        Function.update_of_ne hne]
      exact ⟨c, hc, harc, hslot, rfl⟩
    · rw [base_setNode_ne t node hkj] at hused
      obtain ⟨c', hc', harc', hslot', hpath'⟩ := h.child hk hused
      have hparent := hchildless k hk hused
      rw [Child, base_setNode_ne t node hkj, base_setNode_ne t node hparent,
        Function.update_of_ne hkj, Function.update_of_ne hparent]
      exact ⟨c', hc', harc', hslot', hpath'⟩
  bound := by
    intro k hused
    by_cases hkj : k = j
    · exact hkj ▸ hbound
    · rw [base_setNode_ne t node hkj] at hused
      exact h.bound hused
  based := by
    intro k hmode
    by_cases hkj : k = j
    · subst hkj
      rw [base_setNode_self] at hmode ⊢
      rcases hfits with ⟨-, hidx⟩ | ⟨hterm, -⟩
      · exact hidx
      · simp [hmode] at hterm
    · rw [base_setNode_ne t node hkj] at hmode ⊢
      exact h.based hmode
  free := by
    intro k hmode
    by_cases hkj : k = j
    · subst hkj
      rw [base_setNode_self] at hmode
      exact absurd hmode hfits.used
    · rw [base_setNode_ne t node hkj] at hmode ⊢
      exact h.free hmode
  text := by
    intro k hmode
    by_cases hkj : k = j
    · subst hkj
      rw [base_setNode_self] at hmode ⊢
      rcases hfits with ⟨harc', -⟩ | ⟨-, hstring, hspare, -⟩
      · simp [hmode] at harc'
      · exact ⟨hstring, hspare⟩
    · rw [base_setNode_ne t node hkj] at hmode ⊢
      exact h.text hmode
  apart := by
    have hnew : node.mode = .term → ∀ k, k ≠ j → (t.base k).mode = .term →
        Apart (t.base k).idx (t.string (t.base k).idx) node.idx (t.string node.idx) := by
      intro hterm
      rcases hfits with ⟨harc', -⟩ | ⟨-, -, -, hapart⟩
      · simp [hterm] at harc'
      · exact hapart
    intro k l hkl hk hl
    by_cases hkj : k = j
    · subst hkj
      rw [base_setNode_self] at hk ⊢
      rw [base_setNode_ne t node hkl.symm] at hl ⊢
      exact (hnew hk l hkl.symm hl).symm
    · rw [base_setNode_ne t node hkj] at hk ⊢
      by_cases hlj : l = j
      · subst hlj
        rw [base_setNode_self] at hl ⊢
        exact hnew hl k hkl hk
      · rw [base_setNode_ne t node hlj] at hl ⊢
        exact h.apart hkl hk hl
  stored := h.stored

theorem Shape.recast (h : t.Shape path)
    (hroot : j ≠ 1)
    (hused : (t.base j).mode ≠ .unused)
    (hchildless : t.Childless j)
    (hparent : node.parent = (t.base j).parent)
    (hmode : node.mode = .arc)
    (hidx : node.idx ≤ t.baseSize) :
    (t.setNode j node).Shape path := by
  obtain ⟨c, hc, harc, hslot, hpath⟩ := h.child hroot hused
  rw [← hparent] at harc hslot hpath
  have hne : node.parent ≠ j := hparent ▸ hchildless j hroot hused
  have hreplace := h.replace hroot (h.bound hused) hchildless harc hne hc hslot
    (.inl ⟨hmode, hidx⟩)
  rw [← hpath, Function.update_eq_self] at hreplace
  exact hreplace

/-! A value set or unset. -/

section

variable (t) (j : Nat) (value : Option K) (k : Nat)

@[simp] theorem mode_setValue : ((t.setValue j value).base k).mode = (t.base k).mode := by
  by_cases hk : k = j
  · rw [hk, setValue, base_setNode_self]
  · rw [setValue, base_setNode_ne t _ hk]

@[simp] theorem idx_setValue : ((t.setValue j value).base k).idx = (t.base k).idx := by
  by_cases hk : k = j
  · rw [hk, setValue, base_setNode_self]
  · rw [setValue, base_setNode_ne t _ hk]

@[simp] theorem parent_setValue : ((t.setValue j value).base k).parent = (t.base k).parent := by
  by_cases hk : k = j
  · rw [hk, setValue, base_setNode_self]
  · rw [setValue, base_setNode_ne t _ hk]

@[simp] theorem value_setValue : ((t.setValue j value).base j).value = value := by
  rw [setValue, base_setNode_self]

@[simp] theorem string_setValue : (t.setValue j value).string k = t.string k := rfl

@[simp] theorem keyOf_setValue : (t.setValue j value).keyOf path k = t.keyOf path k := by
  simp [keyOf]

end

theorem Shape.setValue (h : t.Shape path) (hroot : j ≠ 1) (hused : (t.base j).mode ≠ .unused)
    (value : Option K) : (t.setValue j value).Shape path where
  size := h.size
  rootMode := by simpa using h.rootMode
  rootIdx := by simpa using h.rootIdx
  rootParent := by simpa using h.rootParent
  rootValue := by
    rw [KTrie.setValue, base_setNode_ne t _ hroot.symm]
    exact h.rootValue
  rootPath := h.rootPath
  child := by
    intro k hk hmode
    have hchild := h.child hk (by simpa using hmode)
    simpa [Child] using hchild
  bound := fun hmode => h.bound (by simpa using hmode)
  based := fun hmode => by
    rw [idx_setValue]
    exact h.based (by simpa using hmode)
  free := by
    intro k hmode
    by_cases hk : k = j
    · exact absurd (by simpa [hk] using hmode) hused
    · rw [KTrie.setValue, base_setNode_ne t _ hk] at hmode ⊢
      exact h.free hmode
  text := fun hmode => by
    rw [idx_setValue]
    exact h.text (by simpa using hmode)
  apart := fun hne hj hk => by
    rw [idx_setValue, idx_setValue]
    exact h.apart hne (by simpa using hj) (by simpa using hk)
  stored := h.stored

theorem has_setValue (value : Option K) :
    (t.setValue j value).Has path key v ↔
      t.HasBut path j key v ∨ value = some v ∧ t.keyOf path j = key := by
  rw [has_iff_hasBut j, KTrie.setValue, hasBut_setNode fun _ _ => rfl, ← KTrie.setValue,
    value_setValue, keyOf_setValue]

/-! A larger array. -/

structure Sized (t : KTrie K) : Prop where
  size : 256 ≤ t.baseSize
  beyond : ∀ i, t.baseSize < i → t.base i = .zero

theorem Shape.sized (h : t.Shape path) : t.Sized where
  size := h.size
  beyond := by
    intro i hi
    refine h.free ?_
    by_contra hused
    exact absurd (h.bound hused) (Nat.not_le_of_lt hi)

theorem Sized.grow_eq (h : t.Sized) : t.grow = { t with baseSize := t.baseSize * 2 } := by
  have hbase : (fun i => if t.baseSize < i ∧ i ≤ t.baseSize * 2 then .zero else t.base i) =
      t.base := by
    funext i
    split
    next hi => exact (h.beyond i hi.1).symm
    next => rfl
  rw [grow, hbase]

theorem Sized.resize (h : t.Sized) {size : Nat} (hsize : t.baseSize ≤ size) :
    Sized { t with baseSize := size } where
  size := h.size.trans hsize
  beyond := fun i hi => h.beyond i (hsize.trans_lt hi)

theorem Shape.resize (h : t.Shape path) {size : Nat} (hsize : t.baseSize ≤ size) :
    Shape { t with baseSize := size } path where
  size := h.size.trans hsize
  rootMode := h.rootMode
  rootIdx := h.rootIdx
  rootParent := h.rootParent
  rootValue := h.rootValue
  rootPath := h.rootPath
  child := h.child
  bound := fun hused => (h.bound hused).trans hsize
  based := fun hmode => (h.based hmode).trans hsize
  free := h.free
  text := h.text
  apart := h.apart
  stored := h.stored

structure Room (t : KTrie K) (offsets : List Nat) (q : Nat) : Prop where
  pos : 1 ≤ q
  based : q ≤ t.baseSize
  bound : ∀ offset ∈ offsets, q + offset ≤ t.baseSize
  free : ∀ offset ∈ offsets, (t.base (q + offset)).mode = .unused

theorem le_foldl_max (offsets : List Nat) (start : Nat) :
    start ≤ offsets.foldl max start ∧ ∀ offset ∈ offsets, offset ≤ offsets.foldl max start := by
  induction offsets generalizing start with
  | nil => simp
  | cons offset offsets ih =>
      obtain ⟨hstart, hrest⟩ := ih (max start offset)
      rw [List.foldl_cons]
      refine ⟨(le_max_left _ _).trans hstart, fun other hother => ?_⟩
      rcases List.mem_cons.mp hother with rfl | hmem
      · exact (le_max_right _ _).trans hstart
      · exact hrest other hmem

theorem foldl_max_le {offsets : List Nat} {start bound : Nat} (hstart : start ≤ bound)
    (hoffsets : ∀ offset ∈ offsets, offset ≤ bound) : offsets.foldl max start ≤ bound := by
  induction offsets generalizing start with
  | nil => exact hstart
  | cons offset offsets ih =>
      obtain ⟨hoffset, hrest⟩ := List.forall_mem_cons.mp hoffsets
      exact ih (max_le hstart hoffset) hrest

theorem room_of_find? {offsets : List Nat} {start i : Nat} (hstart : 1 ≤ start)
    (hsize : 256 ≤ t.baseSize)
    (hoffsets : ∀ offset ∈ offsets, offset ≤ 255)
    (hfind : (List.range' start (t.baseSize - offsets.foldl max 0 + 1 - start)).find?
      (t.isFree offsets) = some i) :
    t.Room offsets i := by
  have hmem := List.mem_range'_1.mp (List.mem_of_find?_eq_some hfind)
  have hmax := (foldl_max_le (Nat.zero_le 255) hoffsets).trans_lt (Nat.lt_of_lt_of_le (by decide) hsize)
  have hfree : ∀ offset ∈ offsets, (t.base (i + offset)).mode = .unused := by
    simpa [isFree] using List.find?_some hfind
  refine ⟨by omega, by omega, fun offset hoffset => ?_, hfree⟩
  have hle := (le_foldl_max offsets 0).2 offset hoffset
  omega

theorem Sized.checkMulti (h : t.Sized) (offsets : List Nat)
    (hoffsets : ∀ offset ∈ offsets, offset ≤ 255) :
    ∃ size q, t.baseSize ≤ size ∧ t.checkMulti offsets = ({ t with baseSize := size }, q) ∧
      Room { t with baseSize := size } offsets q := by
  have hsize := h.size
  have hmax := foldl_max_le (Nat.zero_le 255) hoffsets
  rw [KTrie.checkMulti, search]
  split
  next i hfind => exact ⟨t.baseSize, i, le_rfl, rfl, room_of_find? le_rfl hsize hoffsets hfind⟩
  next =>
      -- the first place behind the old array is free
      rw [h.grow_eq, search]
      split
      next i hfind =>
          exact ⟨t.baseSize * 2, i, by omega, rfl,
            room_of_find? (by omega) (h.resize (by omega)).size hoffsets hfind⟩
      next hnone =>
          exfalso
          have hfree : isFree { t with baseSize := t.baseSize * 2 } offsets (t.baseSize + 1) =
              true := by
            simp only [isFree, List.all_eq_true, decide_eq_true_eq]
            intro offset _
            rw [h.beyond _ (by omega)]
            rfl
          have hmem := List.find?_eq_none.mp hnone (t.baseSize + 1)
            (List.mem_range'_1.mpr ⟨by omega, by simp only; omega⟩)
          exact hmem hfree

theorem toNat_le (c : Byte) : c.toNat ≤ 255 := Nat.le_of_lt_succ c.isLt

theorem Sized.check (h : t.Sized) (c : Byte) :
    ∃ size q, t.baseSize ≤ size ∧ t.check c = ({ t with baseSize := size }, q) ∧
      Room { t with baseSize := size } [c.toNat] q :=
  h.checkMulti [c.toNat] (by simpa using toNat_le c)

theorem Sized.check2 (h : t.Sized) (c1 c2 : Byte) :
    ∃ size q, t.baseSize ≤ size ∧ t.check2 c1 c2 = ({ t with baseSize := size }, q) ∧
      Room { t with baseSize := size } [c1.toNat, c2.toNat] q :=
  h.checkMulti [c1.toNat, c2.toNat] (by simpa using ⟨toNat_le c1, toNat_le c2⟩)

end

end KTrie

end AmxModC.Trie
