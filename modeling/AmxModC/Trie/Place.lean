import AmxModC.Trie.Edit

namespace AmxModC.Trie

open Foundation

namespace KTrie

variable {K : Type} {t t' : KTrie K} {path : Nat → List Byte} {i j offset : Nat} {c : Byte}
  {key keyptr s : List Byte} {v obj : K} {value : Option K} {node : KTrieNode K}

/-! The string table. -/

structure KeepsText (t t' : KTrie K) : Prop where
  base : t'.base = t.base
  size : t'.baseSize = t.baseSize
  spare : ∀ {j}, (t.base j).mode = .term → t.Spare (t.base j).idx (t.string (t.base j).idx) →
    t'.Spare (t.base j).idx (t.string (t.base j).idx)
  stored : t'.tail < t'.stringtab.length

theorem Shape.string_of_keepsText (h : t.Shape path) (hkeep : KeepsText t t')
    (hterm : (t.base j).mode = .term) :
    t'.string (t.base j).idx = t.string (t.base j).idx :=
  string_of_spare (hkeep.spare hterm (h.text hterm).2)

theorem Shape.of_keepsText (h : t.Shape path) (hkeep : KeepsText t t') : t'.Shape path where
  size := hkeep.size ▸ h.size
  rootMode := hkeep.base ▸ h.rootMode
  rootIdx := hkeep.base ▸ h.rootIdx
  rootParent := hkeep.base ▸ h.rootParent
  rootValue := hkeep.base ▸ h.rootValue
  rootPath := h.rootPath
  child := by
    rw [hkeep.base]
    intro k hk hused
    have hchild := h.child hk hused
    rw [Child, hkeep.base]
    exact hchild
  bound := by
    rw [hkeep.base, hkeep.size]
    exact h.bound
  based := by
    rw [hkeep.base, hkeep.size]
    exact h.based
  free := by
    rw [hkeep.base]
    exact h.free
  text := by
    rw [hkeep.base]
    intro k hterm
    rw [h.string_of_keepsText hkeep hterm]
    exact ⟨(h.text hterm).1, hkeep.spare hterm (h.text hterm).2⟩
  apart := by
    rw [hkeep.base]
    intro k l hkl hk hl
    rw [h.string_of_keepsText hkeep hk, h.string_of_keepsText hkeep hl]
    exact h.apart hkl hk hl
  stored := hkeep.stored

theorem Shape.has_of_keepsText (h : t.Shape path) (hkeep : KeepsText t t') :
    t'.Has path key v ↔ t.Has path key v :=
  has_congr hkeep.base fun _ hterm => h.string_of_keepsText hkeep hterm

theorem Shape.hasBut_of_keepsText (h : t.Shape path) (hkeep : KeepsText t t') :
    t'.HasBut path j key v ↔ t.HasBut path j key v :=
  hasBut_congr hkeep.base fun _ hterm => h.string_of_keepsText hkeep hterm

theorem Shape.spelled_of_keepsText (h : t.Shape path) (hkeep : KeepsText t t') {P : Byte → Prop}
    (hspelled : t.Spelled path P) : t'.Spelled path P :=
  hspelled.congr hkeep.base fun _ hterm => h.string_of_keepsText hkeep hterm

theorem le_doubled (need turns size : Nat) : size ≤ doubled need turns size := by
  induction turns generalizing size with
  | zero => exact le_rfl
  | succ turns ih =>
      rw [doubled]
      split
      next => exact (by omega : size ≤ size * 2).trans (ih _)
      next => exact le_rfl

theorem lt_doubled {need turns size : Nat} (h : need < size * 2 ^ turns) :
    need < doubled need turns size := by
  induction turns generalizing size with
  | zero => simpa [doubled] using h
  | succ turns ih =>
      rw [doubled]
      split
      next =>
          refine ih ?_
          rw [Nat.mul_assoc, ← Nat.pow_succ']
          exact h
      next hsize => omega

theorem addstring_spec (hstored : t.tail < t.stringtab.length) (hs : 0 ∉ s) :
    (t.addstring s).2 = t.tail ∧ KeepsText t (t.addstring s).1 ∧
      (t.addstring s).1.Spare t.tail s := by
  have hpow : t.tail + (s.length + 1) <
      t.stringtab.length * 2 ^ (t.tail + (s.length + 1) + 1) :=
    calc t.tail + (s.length + 1)
        < 2 ^ (t.tail + (s.length + 1)) := Nat.lt_two_pow_self
      _ ≤ 2 ^ (t.tail + (s.length + 1) + 1) := Nat.pow_le_pow_right (by decide) (Nat.le_succ _)
      _ ≤ t.stringtab.length * 2 ^ (t.tail + (s.length + 1) + 1) :=
          Nat.le_mul_of_pos_left _ (by omega)
  have hneed := lt_doubled hpow
  have hgrown := le_doubled (t.tail + (s.length + 1)) (t.tail + (s.length + 1) + 1)
    t.stringtab.length
  have hfront : ∀ table : List Byte,
      ((t.stringtab ++ table).take t.tail).length = t.tail := fun table => by
    rw [List.length_take, List.length_append]
    omega
  have hspare : (t.addstring s).1.Spare t.tail s := by
    refine ⟨?_, hs, Nat.lt_succ_self _⟩
    have hcopied := stringAt_copied
      ((t.stringtab ++ List.replicate (doubled (t.tail + (s.length + 1))
        (t.tail + (s.length + 1) + 1) t.stringtab.length - t.stringtab.length)
          uninitialised).take t.tail)
      ((t.stringtab ++ List.replicate (doubled (t.tail + (s.length + 1))
        (t.tail + (s.length + 1) + 1) t.stringtab.length - t.stringtab.length)
          uninitialised).drop (t.tail + (s.length + 1))) s
    rw [hfront] at hcopied
    exact hcopied
  refine ⟨rfl, ⟨rfl, rfl, ?_, ?_⟩, hspare⟩
  · rintro k - ⟨hat, hnul, hbound⟩
    refine ⟨hat.of_agree fun p _ hp => ?_, hnul, hbound.trans (Nat.lt_add_of_pos_right (Nat.succ_pos _))⟩
    have hlt : p < t.tail := by omega
    simp only [addstring]
    rw [List.append_assoc, List.getElem?_append_left (by rw [hfront]; exact hlt),
      List.getElem?_take_of_lt hlt, List.getElem?_append_left (by omega)]
  · simp only [addstring, List.length_append, List.length_drop, List.length_replicate,
      List.length_singleton, hfront]
    omega

/-! New leaves. -/

def textOf (t : KTrie K) (node : KTrieNode K) : List Byte :=
  if node.mode = .term then t.string node.idx else []

structure Vacant (t : KTrie K) (i j : Nat) (c : Byte) : Prop where
  free : (t.base j).mode = .unused
  bound : j ≤ t.baseSize
  arc : (t.base i).mode = .arc
  slot : j = (t.base i).idx + c.toNat
  char : c ≠ 0

theorem Vacant.ne (h : t.Vacant i j c) : i ≠ j := by
  rintro rfl
  have hmode := h.arc
  rw [h.free] at hmode
  cases hmode

theorem Vacant.ne_root (h : t.Vacant i j c) (hshape : t.Shape path) : j ≠ 1 := by
  rintro rfl
  have hmode := hshape.rootMode
  rw [h.free] at hmode
  cases hmode

theorem Shape.leaf (h : t.Shape path) (hvacant : t.Vacant i j c) (hparent : node.parent = i)
    (hfits : t.Fits j node) :
    (t.setNode j node).Shape (Function.update path j (path i ++ [c])) ∧
      ∀ key v, (t.setNode j node).Has (Function.update path j (path i ++ [c])) key v ↔
        t.Has path key v ∨ node.value = some v ∧ path i ++ c :: t.textOf node = key := by
  have hshape := h.replace (hvacant.ne_root h) hvacant.bound
    (h.childless_of_unused hvacant.free) (hparent ▸ hvacant.arc) (hparent ▸ hvacant.ne)
    hvacant.char (hparent ▸ hvacant.slot) hfits
  rw [hparent] at hshape
  refine ⟨hshape, fun key v => ?_⟩
  have hnone : (t.base j).value = none := by
    rw [h.free hvacant.free]
    rfl
  have hkey : (t.setNode j node).keyOf (Function.update path j (path i ++ [c])) j =
      path i ++ c :: t.textOf node := by
    rw [keyOf, base_setNode_self, Function.update_self, List.append_assoc]
    rfl
  rw [has_iff_hasBut j, hasBut_setNode fun k hk => Function.update_of_ne hk .., base_setNode_self,
    hkey, has_iff_of_none hnone]

theorem Spelled.on_path {P : Byte → Prop} (h : t.Spelled path P) (hused : (t.base j).mode ≠ .unused) :
    ∀ c ∈ path j, P c :=
  fun c hc => h j hused c (List.mem_append_left _ hc)

theorem Spelled.leaf {P : Byte → Prop} (h : t.Spelled path P) (hvacant : t.Vacant i j c)
    (hc : P c) (htext : ∀ b ∈ t.textOf node, P b) :
    (t.setNode j node).Spelled (Function.update path j (path i ++ [c])) P := by
  refine h.setNode (fun k hk => Function.update_of_ne hk ..) ?_
  rw [keyOf, base_setNode_self, Function.update_self]
  intro b hb
  simp only [List.mem_append, List.mem_singleton] at hb
  rcases hb with (hpath | rfl) | hstring
  · exact h.on_path (by simp [hvacant.arc]) b hpath
  · exact hc
  · exact htext b hstring

theorem KeepsText.vacant (hkeep : KeepsText t t') (h : t.Vacant i j c) : t'.Vacant i j c where
  free := hkeep.base ▸ h.free
  bound := hkeep.size ▸ h.bound
  arc := hkeep.base ▸ h.arc
  slot := hkeep.base ▸ h.slot
  char := h.char

theorem Shape.place (h : t.Shape path) (hvacant : t.Vacant i j c) (hkey : 0 ∉ keyptr) (obj : K) :
    (t.place j i keyptr obj).Shape (Function.update path j (path i ++ [c])) ∧
      ∀ key v, (t.place j i keyptr obj).Has (Function.update path j (path i ++ [c])) key v ↔
        t.Has path key v ∨ obj = v ∧ path i ++ c :: keyptr = key := by
  cases hend : keyptr with
  | nil =>
      have hfits : t.Fits j { t.base j with parent := i, mode := .arc, value := some obj } := by
        refine .inl ⟨rfl, ?_⟩
        rw [h.free hvacant.free]
        exact Nat.zero_le _
      obtain ⟨hshape, hhas⟩ := h.leaf hvacant rfl hfits
      refine ⟨hshape, fun key v => (hhas key v).trans ?_⟩
      simp [textOf]
  | cons c' rest =>
      rw [← hend]
      obtain ⟨htail, hkeep, hspare⟩ := addstring_spec h.stored hkey
      have hstring := string_of_spare hspare
      have hshape := h.of_keepsText hkeep
      have hfits : (t.addstring keyptr).1.Fits j
          { (t.addstring keyptr).1.base j with
            idx := (t.addstring keyptr).2, parent := i, mode := .term, value := some obj } := by
        refine .inr ⟨rfl, ?_, ?_, ?_⟩
        · change (t.addstring keyptr).1.string (t.addstring keyptr).2 ≠ []
          rw [htail, hstring, hend]
          exact List.cons_ne_nil _ _
        · simp only [htail, hstring]
          exact hspare
        · -- all other strings lie below the old tail
          intro k _ hterm
          simp only [htail]
          rw [hkeep.base] at hterm ⊢
          rw [h.string_of_keepsText hkeep hterm]
          exact .inl (h.text hterm).2.2.2
      obtain ⟨hleaf, hhas⟩ := hshape.leaf (hkeep.vacant hvacant) rfl hfits
      have hplace : t.place j i keyptr obj = (t.addstring keyptr).1.setNode j
          { (t.addstring keyptr).1.base j with
            idx := (t.addstring keyptr).2, parent := i, mode := .term, value := some obj } := by
        rw [hend]
        rfl
      rw [hplace]
      refine ⟨hleaf, fun key v => (hhas key v).trans ?_⟩
      rw [h.has_of_keepsText hkeep]
      simp [textOf, htail, hstring]

theorem Shape.spelled_place (h : t.Shape path) (hvacant : t.Vacant i j c) (hkey : 0 ∉ keyptr)
    (obj : K) {P : Byte → Prop} (hspelled : t.Spelled path P) (hc : P c)
    (hrest : ∀ b ∈ keyptr, P b) :
    (t.place j i keyptr obj).Spelled (Function.update path j (path i ++ [c])) P := by
  cases hend : keyptr with
  | nil => exact hspelled.leaf hvacant hc (by simp [textOf])
  | cons c' rest =>
      rw [← hend]
      obtain ⟨htail, hkeep, hspare⟩ := addstring_spec h.stored hkey
      have hplace : t.place j i keyptr obj = (t.addstring keyptr).1.setNode j
          { (t.addstring keyptr).1.base j with
            idx := (t.addstring keyptr).2, parent := i, mode := .term, value := some obj } := by
        rw [hend]
        rfl
      rw [hplace]
      refine (h.spelled_of_keepsText hkeep hspelled).leaf (hkeep.vacant hvacant) hc ?_
      simpa [textOf, htail, string_of_spare hspare] using hrest

structure Beside (t t' : KTrie K) : Prop where
  empty : t'.empty = t.empty
  numElements : t'.numElements = t.numElements

theorem Beside.trans {t'' : KTrie K} (h : Beside t t') (h' : Beside t' t'') : Beside t t'' :=
  ⟨h'.empty.trans h.empty, h'.numElements.trans h.numElements⟩

theorem beside_place (t : KTrie K) (i lastidx : Nat) (keyptr : List Byte) (obj : K) :
    t.Beside (t.place i lastidx keyptr obj) := by
  cases keyptr <;> exact ⟨rfl, rfl⟩

theorem beside_placeOld (t : KTrie K) (i lastidx term : Nat) (value : Option K) :
    t.Beside (t.placeOld i lastidx term value) := by
  rw [placeOld]
  split <;> exact ⟨rfl, rfl⟩

def Spells (t : KTrie K) (path : Nat → List Byte) (key : List Byte) (t' : KTrie K)
    (path' : Nat → List Byte) : Prop :=
  ∀ {P : Byte → Prop}, t.Spelled path P → (∀ c ∈ key, P c) → t'.Spelled path' P

def Adds (t t' : KTrie K) (path : Nat → List Byte) (key : List Byte) (obj : K) : Prop :=
  t.Beside t' ∧ ∃ path', t'.Shape path' ∧ t.Spells path key t' path' ∧
    ∀ other v, t'.Has path' other v ↔ t.Has path other v ∨ obj = v ∧ key = other

theorem Shape.adds_place (h : t.Shape path) (hvacant : t.Vacant i j c) (hkey : 0 ∉ keyptr)
    (obj : K) : t.Adds (t.place j i keyptr obj) path (path i ++ c :: keyptr) obj := by
  obtain ⟨hshape, hhas⟩ := h.place hvacant hkey obj
  refine ⟨beside_place t j i keyptr obj, _, hshape, fun hspelled hchars => ?_, hhas⟩
  obtain ⟨-, hcons⟩ := List.forall_mem_append.mp hchars
  obtain ⟨hc, hrest⟩ := List.forall_mem_cons.mp hcons
  exact h.spelled_place hvacant hkey obj hspelled hc hrest

theorem Adds.of_resize {size : Nat} (h : Adds { t with baseSize := size } t' path key obj) :
    t.Adds t' path key obj :=
  ⟨⟨h.1.empty, h.1.numElements⟩, h.2⟩

structure Loose (t : KTrie K) (offset : Nat) (s : List Byte) : Prop where
  spare : t.Spare offset s
  apart : ∀ {k}, (t.base k).mode = .term →
    Apart (t.base k).idx (t.string (t.base k).idx) offset s

theorem Spare.byteAt_nil (h : t.Spare offset []) : t.byteAt offset = 0 := by
  rw [byteAt, List.getD_eq_getElem?_getD, h.1.nil]
  rfl

theorem Spare.byteAt_cons (h : t.Spare offset (c :: s)) : t.byteAt offset = c := by
  rw [byteAt, List.getD_eq_getElem?_getD, h.1.head]
  rfl

theorem Spare.head_ne (h : t.Spare offset (c :: s)) : c ≠ 0 :=
  fun hzero => h.2.1 (hzero ▸ List.mem_cons_self)

theorem Spare.tail (h : t.Spare offset (c :: s)) : t.Spare (offset + 1) s := by
  obtain ⟨hat, hnul, hbound⟩ := h
  refine ⟨hat.tail, fun hmem => hnul (List.mem_cons_of_mem _ hmem), ?_⟩
  rw [List.length_cons] at hbound
  omega

theorem Loose.tail (h : t.Loose offset (c :: s)) : t.Loose (offset + 1) s where
  spare := h.spare.tail
  apart := by
    intro k hterm
    have hapart := h.apart hterm
    rw [Apart, List.length_cons] at hapart
    rw [Apart]
    omega

theorem Shape.placeOld (h : t.Shape path) (hvacant : t.Vacant i j c) (hloose : t.Loose offset s)
    (value : Option K) :
    (t.placeOld j i offset value).Shape (Function.update path j (path i ++ [c])) ∧
      ∀ key v, (t.placeOld j i offset value).Has (Function.update path j (path i ++ [c])) key v ↔
        t.Has path key v ∨ value = some v ∧ path i ++ c :: s = key := by
  cases s with
  | nil =>
      rw [KTrie.placeOld, if_pos hloose.spare.byteAt_nil]
      have hfits : t.Fits j { t.base j with parent := i, mode := .arc, value } := by
        refine .inl ⟨rfl, ?_⟩
        rw [h.free hvacant.free]
        exact Nat.zero_le _
      obtain ⟨hshape, hhas⟩ := h.leaf hvacant rfl hfits
      refine ⟨hshape, fun key v => (hhas key v).trans ?_⟩
      simp [textOf]
  | cons c' s =>
      have hbyte : t.byteAt offset ≠ 0 := by
        rw [hloose.spare.byteAt_cons]
        exact hloose.spare.head_ne
      have hstring := string_of_spare hloose.spare
      rw [KTrie.placeOld, if_neg hbyte]
      have hfits : t.Fits j { t.base j with idx := offset, parent := i, mode := .term, value } := by
        refine .inr ⟨rfl, ?_, ?_, ?_⟩
        · simp only [hstring]
          exact List.cons_ne_nil _ _
        · simp only [hstring]
          exact hloose.spare
        · intro k _ hterm
          simp only [hstring]
          exact hloose.apart hterm
      obtain ⟨hshape, hhas⟩ := h.leaf hvacant rfl hfits
      refine ⟨hshape, fun key v => (hhas key v).trans ?_⟩
      simp [textOf, hstring]

theorem Spelled.placeOld {P : Byte → Prop} (h : t.Spelled path P) (hvacant : t.Vacant i j c)
    (hspare : t.Spare offset s) (value : Option K) (hc : P c) (hs : ∀ b ∈ s, P b) :
    (t.placeOld j i offset value).Spelled (Function.update path j (path i ++ [c])) P := by
  rw [KTrie.placeOld]
  split
  next => exact h.leaf hvacant hc (by simp [textOf])
  next =>
      refine h.leaf hvacant hc ?_
      simpa [textOf, string_of_spare hspare] using hs

end KTrie

end AmxModC.Trie
