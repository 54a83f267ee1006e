import AmxModC.Trie.Place

namespace AmxModC.Trie

open Foundation

namespace KTrie

variable {K : Type} {t : KTrie K} {path : Nat → List Byte} {i j term q size : Nat} {c : Byte}
  {key keyptr s : List Byte} {v obj : K} {value : Option K}

/-! Case 3: a terminator gives way to the arcs that the two keys share. -/

structure Opened (t : KTrie K) (path : Nat → List Byte) (j term : Nat) (s : List Byte) : Prop where
  shape : t.Shape path
  root : j ≠ 1
  used : (t.base j).mode ≠ .unused
  childless : t.Childless j
  spare : t.Spare term s
  apart : ∀ {k}, k ≠ j → (t.base k).mode = .term →
    Apart (t.base k).idx (t.string (t.base k).idx) term s

theorem Shape.opened (h : t.Shape path) (hroot : j ≠ 1) (hterm : (t.base j).mode = .term) :
    t.Opened path j (t.base j).idx (t.string (t.base j).idx) where
  shape := h
  root := hroot
  used := by simp [hterm]
  childless := h.childless_of_term hterm
  spare := (h.text hterm).2
  apart := fun hk hmode => h.apart hk hmode hterm

theorem Opened.setValue (h : t.Opened path j term s) (value : Option K) :
    (t.setValue j value).Opened path j term s where
  shape := h.shape.setValue h.root h.used value
  root := h.root
  used := by simpa using h.used
  childless := by
    intro k hk hused
    rw [parent_setValue]
    exact h.childless k hk (by simpa using hused)
  spare := h.spare
  apart := by
    intro k hk hterm
    rw [idx_setValue]
    exact h.apart hk (by simpa using hterm)

def reset (t : KTrie K) (size j q : Nat) (value : Option K) : KTrie K :=
  setNode { t with baseSize := size } j { t.base j with idx := q, mode := .arc, value }

structure OpenedArc (t t' : KTrie K) (path : Nat → List Byte) (j term q : Nat) (s : List Byte)
    (value : Option K) : Prop where
  shape : t'.Shape path
  loose : t'.Loose term s
  arc : (t'.base j).mode = .arc
  idx : (t'.base j).idx = q
  other : ∀ {k}, k ≠ j → t'.base k = t.base k
  has : ∀ {key v}, t'.Has path key v ↔
    t.HasBut path j key v ∨ value = some v ∧ path j = key
  spelled : ∀ {P : Byte → Prop}, t.Spelled path P → t'.Spelled path P

theorem Opened.reset (h : t.Opened path j term s) (hsize : t.baseSize ≤ size) (hq : q ≤ size)
    (value : Option K) : OpenedArc t (t.reset size j q value) path j term q s value := by
  have hself : (t.reset size j q value).base j =
      { t.base j with idx := q, mode := .arc, value } := base_setNode_self ..
  have hother : ∀ {k}, k ≠ j → (t.reset size j q value).base k = t.base k :=
    fun hk => base_setNode_ne _ _ hk
  exact {
    shape := (h.shape.resize hsize).recast h.root h.used h.childless rfl rfl hq
    loose := by
      refine ⟨h.spare, fun {k} hterm => ?_⟩
      by_cases hk : k = j
      · rw [hk, hself] at hterm
        cases hterm
      · rw [hother hk] at hterm ⊢
        exact h.apart hk hterm
    arc := by rw [hself]
    idx := by rw [hself]
    other := hother
    has := by
      intro key v
      have hkey : (t.reset size j q value).keyOf path j = path j := by
        rw [keyOf, hself, if_neg (by simp), List.append_nil]
      rw [has_iff_hasBut j, hself, hkey]
      refine or_congr (hasBut_setNode (fun _ _ => rfl)) Iff.rfl
    spelled := by
      intro P hspelled
      refine Spelled.setNode (t := { t with baseSize := size }) hspelled (fun _ _ => rfl) ?_
      change ∀ c ∈ (t.reset size j q value).keyOf path j, P c
      rw [keyOf, hself, if_neg (by simp), List.append_nil]
      exact hspelled.on_path h.used }

theorem Opened.vacant (h : t.Opened path j term s) {t' : KTrie K}
    (harc : OpenedArc t t' path j term q s value)
    (hbound : q + c.toNat ≤ t'.baseSize)
    (hfree : (t.base (q + c.toNat)).mode = .unused)
    (hc : c ≠ 0) :
    t'.Vacant j (q + c.toNat) c where
  free := by
    have hne : q + c.toNat ≠ j := by
      intro heq
      rw [heq] at hfree
      exact h.used hfree
    rw [harc.other hne]
    exact hfree
  bound := hbound
  arc := harc.arc
  slot := by rw [harc.idx]
  char := hc

theorem Loose.wipe (h : t.Loose term (c :: s)) (hshape : t.Shape path) :
    KeepsText t { t with stringtab := t.stringtab.set term 0 } ∧
      Loose { t with stringtab := t.stringtab.set term 0 } (term + 1) s := by
  have hframe : ∀ {offset : Nat} {s' : List Byte}, t.Spare offset s' →
      (offset + s'.length < term ∨ term < offset) →
      Spare { t with stringtab := t.stringtab.set term 0 } offset s' := by
    rintro offset s' ⟨hat, hnul, hbound⟩ hapart
    refine ⟨hat.of_agree fun p hlow hhigh => ?_, hnul, hbound⟩
    exact List.getElem?_set_ne (by omega)
  have hapart : ∀ {k}, (t.base k).mode = .term →
      (t.base k).idx + (t.string (t.base k).idx).length < term ∨ term < (t.base k).idx := by
    intro k hterm
    have hk := h.apart hterm
    rw [Apart, List.length_cons] at hk
    omega
  have hkeep : KeepsText t { t with stringtab := t.stringtab.set term 0 } := by
    refine ⟨rfl, rfl, fun hterm hspare => hframe hspare (hapart hterm), ?_⟩
    simp only [List.length_set]
    exact hshape.stored
  refine ⟨hkeep, hframe h.spare.tail (.inr (Nat.lt_succ_self _)), fun {k} hterm => ?_⟩
  rw [hshape.string_of_keepsText hkeep hterm]
  exact h.tail.apart hterm

def descend (t : KTrie K) (size j term q : Nat) (c : Byte) : KTrie K :=
  let t := t.reset size j q none
  let next := q + c.toNat
  let t := t.setNode next { t.base next with parent := j, mode := .arc }
  { t with stringtab := t.stringtab.set term 0 }

theorem Opened.descend (h : t.Opened path j term (c :: s)) (hsize : t.baseSize ≤ size)
    (hroom : Room { t with baseSize := size } [c.toNat] q) :
    (t.descend size j term q c).Opened (Function.update path (q + c.toNat) (path j ++ [c]))
        (q + c.toNat) (term + 1) s ∧
      ((t.descend size j term q c).base (q + c.toNat)).value = none ∧
      (∀ key v, (t.descend size j term q c).HasBut
          (Function.update path (q + c.toNat) (path j ++ [c])) (q + c.toNat) key v ↔
        t.HasBut path j key v) ∧
      ∀ {P : Byte → Prop}, t.Spelled path P → P c → (t.descend size j term q c).Spelled
        (Function.update path (q + c.toNat) (path j ++ [c])) P := by
  have harc := h.reset hsize hroom.based none
  have hvacant := h.vacant harc (hroom.bound _ List.mem_cons_self)
    (hroom.free _ List.mem_cons_self) h.spare.head_ne
  have hzero := harc.shape.free hvacant.free
  have hfits : (t.reset size j q none).Fits (q + c.toNat)
      { (t.reset size j q none).base (q + c.toNat) with parent := j, mode := .arc } := by
    refine .inl ⟨rfl, ?_⟩
    rw [hzero]
    exact Nat.zero_le _
  obtain ⟨hshape, -⟩ := harc.shape.leaf hvacant rfl hfits
  have hself := base_setNode_self (t.reset size j q none) (q + c.toNat)
    { (t.reset size j q none).base (q + c.toNat) with parent := j, mode := .arc }
  have hother := fun {k} (hk : k ≠ q + c.toNat) => base_setNode_ne (t.reset size j q none)
    { (t.reset size j q none).base (q + c.toNat) with parent := j, mode := .arc } hk
  have hloose : ((t.reset size j q none).setNode (q + c.toNat)
      { (t.reset size j q none).base (q + c.toNat) with parent := j, mode := .arc }).Loose
      term (c :: s) := by
    refine ⟨harc.loose.spare, fun {k} hterm => ?_⟩
    by_cases hk : k = q + c.toNat
    · rw [hk, hself] at hterm
      cases hterm
    · rw [hother hk] at hterm ⊢
      exact harc.loose.apart hterm
  obtain ⟨hkeep, hwiped⟩ := hloose.wipe hshape
  refine ⟨?_, ?_, fun key v => ?_, fun hspelled hc => ?_⟩
  · exact {
      shape := hshape.of_keepsText hkeep
      root := hvacant.ne_root harc.shape
      used := by
        simp only [KTrie.descend, hself]
        decide
      childless := by
        intro k hk hused
        simp only [KTrie.descend] at hused ⊢
        by_cases hkn : k = q + c.toNat
        · rw [hkn, hself]
          exact hvacant.ne
        · rw [hother hkn] at hused ⊢
          exact harc.shape.childless_of_unused hvacant.free k hk hused
      spare := hwiped.spare
      apart := fun _ hterm => hwiped.apart hterm }
  · exact (congrArg KTrieNode.value hself).trans (congrArg KTrieNode.value hzero)
  · have hnone : ((t.reset size j q none).base (q + c.toNat)).value = none := by
      rw [hzero]
      rfl
    refine (hshape.hasBut_of_keepsText hkeep).trans ?_
    rw [hasBut_setNode fun k hk => Function.update_of_ne hk .., ← has_iff_of_none hnone, harc.has]
    simp
  · refine hshape.spelled_of_keepsText hkeep ((harc.spelled hspelled).leaf hvacant hc ?_)
    simp [textOf]

theorem disband_cons (hbyte : t.byteAt term = c) {size : Nat}
    (hcheck : t.check c = ({ t with baseSize := size }, q)) :
    t.disband j term (c :: keyptr) =
      (t.descend size j term q c).disband (q + c.toNat) (term + 1) keyptr := by
  rw [disband, if_pos hbyte, hcheck]
  rfl

structure Parted (t : KTrie K) (path : Nat → List Byte) (j : Nat) (s keyptr : List Byte)
    (split : Split K) (path' : Nat → List Byte) (s' : List Byte) : Prop where
  opened : split.trie.Opened path' split.curidx split.term s'
  has : ∀ key v, split.trie.HasBut path' split.curidx key v ↔ t.HasBut path j key v
  newKey : path' split.curidx ++ split.keyptr = path j ++ keyptr
  oldKey : path' split.curidx ++ s' = path j ++ s
  part : split.keyptr.head? ≠ s'.head?
  noNul : 0 ∉ split.keyptr
  value : (split.trie.base split.curidx).value = none
  beside : t.Beside split.trie
  spelled : ∀ {P : Byte → Prop}, t.Spelled path P → (∀ c ∈ s, P c) →
    split.trie.Spelled path' P

theorem Opened.parted_here (h : t.Opened path j term s) (hkey : 0 ∉ keyptr)
    (hpart : keyptr.head? ≠ s.head?) (hvalue : (t.base j).value = none) :
    Parted t path j s keyptr ⟨t, j, term, keyptr⟩ path s where
  opened := h
  has := fun _ _ => Iff.rfl
  newKey := rfl
  oldKey := rfl
  part := hpart
  noNul := hkey
  value := hvalue
  beside := ⟨rfl, rfl⟩
  spelled := fun hspelled _ => hspelled

theorem Opened.parted (h : t.Opened path j term s) (hkey : 0 ∉ keyptr) (hne : keyptr ≠ s)
    (hvalue : (t.base j).value = none ∨ keyptr.head? = s.head?) :
    ∃ path' s', Parted t path j s keyptr (t.disband j term keyptr) path' s' := by
  induction keyptr generalizing t path j term s with
  | nil =>
      cases s with
      | nil => exact absurd rfl hne
      | cons c s =>
          have hnone : (t.base j).value = none := hvalue.resolve_right (by simp)
          exact ⟨path, _, h.parted_here hkey (by simp) hnone⟩
  | cons c keyptr ih =>
      by_cases hbyte : t.byteAt term = c
      · cases s with
        | nil =>
            rw [h.spare.byteAt_nil] at hbyte
            exact absurd (hbyte ▸ List.mem_cons_self) hkey
        | cons c' s =>
            obtain rfl : c' = c := h.spare.byteAt_cons.symm.trans hbyte
            obtain ⟨size, q, hsize, hcheck, hroom⟩ :=
              h.shape.sized.check c'
            obtain ⟨hopened, hnone, hhas, hdescends⟩ := h.descend hsize hroom
            obtain ⟨path', s', hparted⟩ := ih hopened
              (fun hmem => hkey (List.mem_cons_of_mem _ hmem))
              (fun heq => hne (congrArg _ heq)) (.inl hnone)
            rw [disband_cons hbyte hcheck]
            refine ⟨path', s', hparted.opened, fun key v => (hparted.has key v).trans (hhas key v),
              ?_, ?_, hparted.part, hparted.noNul, hparted.value,
              ⟨hparted.beside.empty, hparted.beside.numElements⟩, fun hspelled hs => ?_⟩
            · rw [hparted.newKey, Function.update_self, List.append_assoc]
              rfl
            · rw [hparted.oldKey, Function.update_self, List.append_assoc]
              rfl
            · obtain ⟨hc, hrest⟩ := List.forall_mem_cons.mp hs
              exact hparted.spelled (hdescends hspelled hc) hrest
      · have hpart : (c :: keyptr).head? ≠ s.head? := by
          cases s with
          | nil => simp
          | cons c' s =>
              rw [h.spare.byteAt_cons] at hbyte
              simpa using Ne.symm hbyte
        rw [disband, if_neg hbyte]
        exact ⟨path, s, h.parted_here hkey hpart (hvalue.resolve_right hpart)⟩

def SplitOf (t t' : KTrie K) (path : Nat → List Byte) (j : Nat) (s keyptr : List Byte)
    (old : Option K) (obj : K) : Prop :=
  t.Beside t' ∧ ∃ path', t'.Shape path' ∧ t.Spells path (s ++ keyptr) t' path' ∧ ∀ key v, t'.Has path' key v ↔
    (t.HasBut path j key v ∨ old = some v ∧ path j ++ s = key) ∨
      obj = v ∧ path j ++ keyptr = key

theorem rebase_setValue (t : KTrie K) (size j q : Nat) (value : Option K) :
    rebase { t.setValue j value with baseSize := size } j q = t.reset size j q value := by
  simp [rebase, reset, KTrie.setValue, setNode]

theorem Opened.endSplit_term (h : t.Opened path j term []) {k : Byte} (hkey : 0 ∉ k :: keyptr)
    (old : Option K) (obj : K) :
    t.SplitOf (endSplit ⟨t, j, term, k :: keyptr⟩ old obj) path j [] (k :: keyptr) old obj := by
  obtain ⟨size, q, hsize, hcheck, hroom⟩ := (h.setValue old).shape.sized.check k
  have harc := h.reset hsize hroom.based old
  have hfree := hroom.free k.toNat List.mem_cons_self
  rw [mode_setValue] at hfree
  have hvacant := h.vacant harc (hroom.bound _ List.mem_cons_self) hfree
    fun hzero => hkey (hzero ▸ List.mem_cons_self)
  obtain ⟨hshape, hhas⟩ := harc.shape.place hvacant
    (fun hmem => hkey (List.mem_cons_of_mem _ hmem)) obj
  have hsplit : endSplit ⟨t, j, term, k :: keyptr⟩ old obj =
      (t.reset size j q old).place (q + k.toNat) j keyptr obj := by
    simp only [endSplit, List.headD_cons, List.tail_cons, h.spare.byteAt_nil, if_true, hcheck,
      rebase_setValue]
  rw [hsplit]
  have hbeside := beside_place (t.reset size j q old) (q + k.toNat) j keyptr obj
  refine ⟨⟨hbeside.empty, hbeside.numElements⟩, _, hshape, fun hspelled hchars => ?_,
    fun key v => (hhas key v).trans ?_⟩
  · obtain ⟨hk, hrest⟩ := List.forall_mem_cons.mp hchars
    exact harc.shape.spelled_place hvacant (fun hmem => hkey (List.mem_cons_of_mem _ hmem)) obj
      (harc.spelled hspelled) hk hrest
  rw [harc.has, List.append_nil]

theorem Opened.endSplit_key (h : t.Opened path j term (c :: s)) (old : Option K) (obj : K) :
    t.SplitOf (endSplit ⟨t, j, term, []⟩ old obj) path j (c :: s) [] old obj := by
  obtain ⟨size, q, hsize, hcheck, hroom⟩ := (h.setValue (some obj)).shape.sized.check c
  have harc := h.reset hsize hroom.based (some obj)
  have hfree := hroom.free c.toNat List.mem_cons_self
  rw [mode_setValue] at hfree
  have hvacant := h.vacant harc (hroom.bound _ List.mem_cons_self) hfree h.spare.head_ne
  obtain ⟨hshape, hhas⟩ := harc.shape.placeOld hvacant harc.loose.tail old
  have hsplit : endSplit ⟨t, j, term, []⟩ old obj =
      (t.reset size j q (some obj)).placeOld (q + c.toNat) j (term + 1) old := by
    simp only [endSplit, h.spare.byteAt_cons, if_neg h.spare.head_ne, if_true, hcheck,
      rebase_setValue]
  rw [hsplit]
  have hbeside := beside_placeOld (t.reset size j q (some obj)) (q + c.toNat) j (term + 1) old
  refine ⟨⟨hbeside.empty, hbeside.numElements⟩, _, hshape, fun hspelled hchars => ?_,
    fun key v => (hhas key v).trans ?_⟩
  · obtain ⟨hc, hrest⟩ := List.forall_mem_cons.mp (List.forall_mem_append.mp hchars).1
    exact (harc.spelled hspelled).placeOld hvacant harc.loose.tail.spare old hc hrest
  rw [harc.has, List.append_nil, Option.some.injEq]
  exact or_right_comm

theorem placeOld_base_ne (t : KTrie K) {j k : Nat} (i offset : Nat) (value : Option K)
    (hk : k ≠ j) : (t.placeOld j i offset value).base k = t.base k := by
  rw [placeOld]
  split <;> exact base_setNode_ne t _ hk

theorem placeOld_baseSize (t : KTrie K) (j i offset : Nat) (value : Option K) :
    (t.placeOld j i offset value).baseSize = t.baseSize := by
  rw [placeOld]
  split <;> rfl

theorem Opened.endSplit_both (h : t.Opened path j term (c :: s)) {k : Byte}
    (hkey : 0 ∉ k :: keyptr) (hne : k ≠ c) (hvalue : (t.base j).value = none)
    (old : Option K) (obj : K) :
    t.SplitOf (endSplit ⟨t, j, term, k :: keyptr⟩ old obj) path j (c :: s) (k :: keyptr)
      old obj := by
  have hk : k ≠ 0 := fun hzero => hkey (hzero ▸ List.mem_cons_self)
  have hsized : Sized (t.setNode j { t.base j with mode := .arc }) := by
    refine ⟨h.shape.size, fun i hi => ?_⟩
    have hij : i ≠ j := by
      rintro rfl
      exact absurd (h.shape.bound h.used) (Nat.not_le_of_lt hi)
    rw [base_setNode_ne t _ hij]
    exact h.shape.sized.beyond i hi
  obtain ⟨size, q, hsize, hcheck, hroom⟩ := hsized.check2 k c
  have harc := h.reset hsize hroom.based none
  have hfree : ∀ {b : Byte}, b.toNat ∈ [k.toNat, c.toNat] →
      (t.base (q + b.toNat)).mode = .unused := by
    intro b hb
    have hmode := hroom.free b.toNat hb
    by_cases hbj : q + b.toNat = j
    · rw [hbj] at hmode
      change ((t.setNode j { t.base j with mode := .arc }).base j).mode = .unused at hmode
      rw [base_setNode_self] at hmode
      cases hmode
    · rw [← base_setNode_ne t { t.base j with mode := .arc } hbj]
      exact hmode
  have hold := h.vacant harc (hroom.bound _ (by simp)) (hfree (by simp)) h.spare.head_ne
  have hnew := h.vacant harc (hroom.bound _ (by simp)) (hfree (b := k) (by simp)) hk
  obtain ⟨hshapeOld, hhasOld⟩ := harc.shape.placeOld hold harc.loose.tail old
  have hslots : q + k.toNat ≠ q + c.toNat := by
    intro heq
    exact hne (BitVec.eq_of_toNat_eq (Nat.add_left_cancel heq))
  have hplaced : ((t.reset size j q none).placeOld (q + c.toNat) j (term + 1) old).Vacant j
      (q + k.toNat) k := by
    refine ⟨?_, ?_, ?_, ?_, hk⟩
    · rw [placeOld_base_ne _ _ _ _ hslots]
      exact hnew.free
    · rw [placeOld_baseSize]
      exact hnew.bound
    · rw [placeOld_base_ne _ _ _ _ hold.ne]
      exact hnew.arc
    · rw [placeOld_base_ne _ _ _ _ hold.ne]
      exact hnew.slot
  obtain ⟨hshape, hhas⟩ := hshapeOld.place hplaced
    (fun hmem => hkey (List.mem_cons_of_mem _ hmem)) obj
  have hreset : setIdx { t.setNode j { t.base j with mode := .arc } with baseSize := size } j q =
      t.reset size j q none := by
    rw [KTrie.reset, ← hvalue]
    simp [setIdx, setNode]
  have hsplit : endSplit ⟨t, j, term, k :: keyptr⟩ old obj =
      ((t.reset size j q none).placeOld (q + c.toNat) j (term + 1) old).place
        (q + k.toNat) j keyptr obj := by
    simp only [endSplit, List.headD_cons, List.tail_cons, h.spare.byteAt_cons,
      if_neg h.spare.head_ne, List.cons_ne_nil, if_false, hcheck, hreset]
  rw [hsplit]
  have hbeside := (beside_placeOld (t.reset size j q none) (q + c.toNat) j (term + 1) old).trans
    (beside_place _ (q + k.toNat) j keyptr obj)
  refine ⟨⟨hbeside.empty, hbeside.numElements⟩, _, hshape, fun hspelled hchars => ?_,
    fun key v => (hhas key v).trans ?_⟩
  · obtain ⟨hold', hnew'⟩ := List.forall_mem_append.mp hchars
    obtain ⟨hc, hs⟩ := List.forall_mem_cons.mp hold'
    obtain ⟨hk', hrest⟩ := List.forall_mem_cons.mp hnew'
    exact hshapeOld.spelled_place hplaced (fun hmem => hkey (List.mem_cons_of_mem _ hmem)) obj
      ((harc.spelled hspelled).placeOld hold harc.loose.tail.spare old hc hs) hk' hrest
  rw [hhasOld, harc.has, Function.update_of_ne hold.ne]
  simp

theorem Opened.endSplit (h : t.Opened path j term s) (hkey : 0 ∉ keyptr)
    (hpart : keyptr.head? ≠ s.head?) (hvalue : (t.base j).value = none)
    (old : Option K) (obj : K) :
    t.SplitOf (endSplit ⟨t, j, term, keyptr⟩ old obj) path j s keyptr old obj := by
  cases s with
  | nil =>
      cases keyptr with
      | nil => exact absurd rfl hpart
      | cons k keyptr => exact h.endSplit_term hkey old obj
  | cons c s =>
      cases keyptr with
      | nil => exact h.endSplit_key old obj
      | cons k keyptr =>
          exact h.endSplit_both hkey (fun heq => hpart (congrArg some heq)) hvalue old obj

theorem Shape.splitTerm (h : t.Shape path) (hroot : j ≠ 1) (hterm : (t.base j).mode = .term)
    (hkey : 0 ∉ keyptr) (hne : keyptr ≠ t.string (t.base j).idx) (obj : K) :
    t.Adds (t.splitTerm j keyptr obj) path (path j ++ keyptr) obj := by
  have hopened := h.opened hroot hterm
  have hparted : ∃ path' s', Parted t path j (t.string (t.base j).idx) keyptr
      (if t.byteAt (t.base j).idx = keyptr.headD 0 then t.disband j (t.base j).idx keyptr
        else ⟨t.setValue j none, j, (t.base j).idx, keyptr⟩) path' s' := by
    obtain ⟨c, s, hs⟩ := List.exists_cons_of_ne_nil (h.text hterm).1
    have hbyte : t.byteAt (t.base j).idx = c := by
      have hspare := hopened.spare
      rw [hs] at hspare
      exact hspare.byteAt_cons
    have hc : c ≠ 0 := by
      have hspare := hopened.spare
      rw [hs] at hspare
      exact hspare.head_ne
    split
    next hhead =>
        refine hopened.parted hkey hne (.inr ?_)
        rw [hs]
        cases keyptr with
        | nil => exact absurd (hbyte.symm.trans hhead) hc
        | cons k keyptr => exact congrArg some (hhead.symm.trans hbyte)
    next hhead =>
        have hpart : keyptr.head? ≠ (t.string (t.base j).idx).head? := by
          rw [hs]
          cases keyptr with
          | nil => simp
          | cons k keyptr =>
              intro heq
              exact hhead (hbyte.trans (Option.some.inj heq).symm)
        have hhere := (hopened.setValue none).parted_here hkey hpart (value_setValue ..)
        refine ⟨_, _, hhere.opened, fun key v => ?_, rfl, rfl, hpart, hkey, hhere.value, ⟨rfl, rfl⟩,
          fun hspelled _ k hk => ?_⟩
        · exact hasBut_setNode fun _ _ => rfl
        · rw [keyOf_setValue]
          exact hspelled k (by simpa using hk)
  obtain ⟨path', s', hparted⟩ := hparted
  obtain ⟨hbeside, path'', hshape, hspells, hhas⟩ := hparted.opened.endSplit hparted.noNul hparted.part
    hparted.value (t.base j).value obj
  refine ⟨hparted.beside.trans hbeside, path'', hshape, fun {P} hspelled hchars => ?_,
    fun key v => (hhas key v).trans ?_⟩
  · have hold : ∀ c ∈ path j ++ t.string (t.base j).idx, P c := by
      have hself := hspelled j (by simp [hterm])
      rw [keyOf, if_pos hterm] at hself
      exact hself
    refine hspells (hparted.spelled hspelled (List.forall_mem_append.mp hold).2) ?_
    rw [← hparted.oldKey] at hold
    rw [← hparted.newKey] at hchars
    exact List.forall_mem_append.mpr
      ⟨(List.forall_mem_append.mp hold).2, (List.forall_mem_append.mp hchars).2⟩
  have hkeyOf : t.keyOf path j = path j ++ t.string (t.base j).idx := by
    rw [keyOf, if_pos hterm]
  rw [hparted.has, hparted.oldKey, hparted.newKey, has_iff_hasBut j, hkeyOf]

end KTrie

end AmxModC.Trie
