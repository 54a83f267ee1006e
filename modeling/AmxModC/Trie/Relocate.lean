import AmxModC.Foundation.Exchange
import AmxModC.Trie.Place

namespace AmxModC.Trie

open Foundation

namespace KTrie

variable {K : Type} {t : KTrie K} {path : Nat → List Byte} {i j p q oldbase lastidx : Nat}
  {c : Byte} {key : List Byte} {v : K} {offset : Nat} {offsets : List Nat} {ρ : Equiv.Perm Nat}

/-! Case 4: a family of arcs goes to another base, and the trie is the one before
with its nodes renamed. -/

/-- Every node `i` goes to `ρ i`. -/
def rename (t : KTrie K) (ρ : Equiv.Perm Nat) : KTrie K :=
  { t with
    base := fun i => { t.base (ρ.symm i) with parent := ρ (t.base (ρ.symm i)).parent } }

theorem rename_base (t : KTrie K) (ρ : Equiv.Perm Nat) (i : Nat) :
    (t.rename ρ).base (ρ i) = { t.base i with parent := ρ (t.base i).parent } := by
  simp only [rename, Equiv.symm_apply_apply]

/-- The arcs under `p` can go from their old base to `q`. -/
structure Movable (t : KTrie K) (p oldbase q : Nat) (offsets : List Nat) : Prop where
  pos : ∀ {o}, o ∈ offsets → 1 ≤ o
  used : ∀ {o}, o ∈ offsets → (t.base (oldbase + o)).mode ≠ .unused
  parent : ∀ {o}, o ∈ offsets → (t.base (oldbase + o)).parent = p
  outside : ∀ {o}, o ∈ offsets → p ≠ oldbase + o
  free : ∀ {o}, o ∈ offsets → t.base (q + o) = .zero
  orphan : ∀ {o}, o ∈ offsets → ∀ i, (t.base i).parent ≠ q + o
  scanned : ∀ {o}, o ∈ offsets → ∀ i, (t.base i).parent = oldbase + o →
    (t.base (oldbase + o)).mode = .arc ∧ (t.base (oldbase + o)).idx < i ∧
      i ≤ (t.base (oldbase + o)).idx + min (t.baseSize - (t.base (oldbase + o)).idx) 255
  distinct : Exchangeable (oldbase + ·) (q + ·) offsets

theorem Movable.ne (h : t.Movable p oldbase q offsets) {o o' : Nat} (ho : o ∈ offsets)
    (ho' : o' ∈ offsets) : oldbase + o ≠ q + o' := h.distinct.apart o ho o' ho'

theorem Movable.moveNode (h : t.Movable p oldbase q offsets) (ho : offset ∈ offsets) :
    t.moveNode (oldbase + offset) (q + offset) =
      t.rename (Equiv.swap (oldbase + offset) (q + offset)) := by
  have hne := h.ne ho ho
  have hzero := h.free ho
  have hparent := h.parent ho
  have houtside := h.outside ho
  have hpos : 0 ≠ oldbase + offset := by
    have hoffset := h.pos ho
    omega
  have horphan := h.orphan ho
  have hscanned := h.scanned ho
  generalize oldbase + offset = a at *
  generalize q + offset = b at *
  -- the copy and the erasure
  have hcopied : ∀ i, ((t.setNode b (t.base a)).setNode a .zero).base i =
      t.base (Equiv.swap a b i) := by
    intro i
    rw [Equiv.swap_apply_def]
    split
    next hi => rw [hi, base_setNode_self, hzero]
    next hi =>
        rw [base_setNode_ne _ _ hi]
        split
        next hi' => rw [hi', base_setNode_self]
        next hi' => rw [base_setNode_ne _ _ hi']
  have hnew : ((t.setNode b (t.base a)).setNode a .zero).base b = t.base a := by
    rw [hcopied, Equiv.swap_apply_right]
  -- an entry that has `a` as its parent is not one of the two
  have hchild : ∀ i, (t.base (Equiv.swap a b i)).parent = a → Equiv.swap a b i = i := by
    intro i hi
    refine Equiv.swap_apply_of_ne_of_ne ?_ ?_
    · rintro rfl
      rw [Equiv.swap_apply_left, hzero] at hi
      exact hpos hi
    · rintro rfl
      rw [Equiv.swap_apply_right, hparent] at hi
      exact houtside hi
  have hrenamed : ∀ i, (t.rename (Equiv.swap a b)).base i =
      if (t.base (Equiv.swap a b i)).parent = a then
        { t.base (Equiv.swap a b i) with parent := b }
      else t.base (Equiv.swap a b i) := by
    intro i
    simp only [rename, Equiv.symm_swap]
    split
    next hi => rw [hi, Equiv.swap_apply_left]
    next hi => rw [Equiv.swap_apply_of_ne_of_ne hi (horphan _)]
  have hbase : (t.moveNode a b).base = (t.rename (Equiv.swap a b)).base := by
    funext i
    rw [hrenamed, KTrie.moveNode, hnew, ← hcopied]
    split
    next harc =>
        refine if_congr ⟨fun hi => hi.2.2, fun hi => ?_⟩ rfl rfl
        have hparent : (t.base (Equiv.swap a b i)).parent = a := by rwa [← hcopied]
        rw [hchild i hparent] at hparent
        obtain ⟨-, hlow, hhigh⟩ := hscanned i hparent
        exact ⟨hlow, hhigh, hi⟩
    next harc =>
        rw [if_neg]
        intro hi
        rw [hcopied] at hi
        exact harc (hscanned _ hi).1
  have hrest : { t.moveNode a b with base := (t.rename (Equiv.swap a b)).base } =
      t.rename (Equiv.swap a b) := by
    rw [KTrie.moveNode, hnew]
    split <;> rfl
  rw [← hrest, ← hbase]

theorem Movable.tail (h : t.Movable p oldbase q (offset :: offsets)) :
    (t.rename (Equiv.swap (oldbase + offset) (q + offset))).Movable p oldbase q offsets := by
  have hmem : ∀ {o}, o ∈ offsets → o ∈ offset :: offsets := List.mem_cons_of_mem _
  have hhead : offset ∈ offset :: offsets := List.mem_cons_self
  have hnodup := (List.nodup_cons.mp h.distinct.nodup).1
  have hold : ∀ {o}, o ∈ offsets →
      Equiv.swap (oldbase + offset) (q + offset) (oldbase + o) = oldbase + o := by
    intro o ho
    refine Equiv.swap_apply_of_ne_of_ne (fun heq => ?_) (h.ne (hmem ho) hhead)
    exact hnodup (Nat.add_left_cancel heq ▸ ho)
  have hnew : ∀ {o}, o ∈ offsets →
      Equiv.swap (oldbase + offset) (q + offset) (q + o) = q + o := by
    intro o ho
    refine Equiv.swap_apply_of_ne_of_ne (h.ne hhead (hmem ho)).symm fun heq => ?_
    exact hnodup (Nat.add_left_cancel heq ▸ ho)
  have hp : Equiv.swap (oldbase + offset) (q + offset) p = p := by
    refine Equiv.swap_apply_of_ne_of_ne (h.outside hhead) ?_
    rw [← h.parent hhead]
    exact h.orphan hhead _
  have hbase : ∀ {o}, o ∈ offsets →
      (t.rename (Equiv.swap (oldbase + offset) (q + offset))).base (oldbase + o) =
        t.base (oldbase + o) := by
    intro o ho
    have hrenamed := rename_base t (Equiv.swap (oldbase + offset) (q + offset)) (oldbase + o)
    rw [hold ho, h.parent (hmem ho), hp] at hrenamed
    rw [hrenamed, ← h.parent (hmem ho)]
  exact {
    pos := fun ho => h.pos (hmem ho)
    used := fun ho => by
      rw [hbase ho]
      exact h.used (hmem ho)
    parent := fun ho => by
      rw [hbase ho]
      exact h.parent (hmem ho)
    outside := fun ho => h.outside (hmem ho)
    free := by
      intro o ho
      have hzero : Equiv.swap (oldbase + offset) (q + offset) 0 = 0 := by
        have hpos := h.pos hhead
        exact Equiv.swap_apply_of_ne_of_ne (by omega) (by omega)
      have hrenamed := rename_base t (Equiv.swap (oldbase + offset) (q + offset)) (q + o)
      rw [hnew ho, h.free (hmem ho), KTrieNode.zero, hzero] at hrenamed
      exact hrenamed
    orphan := by
      intro o ho i hi
      simp only [rename] at hi
      refine h.orphan (hmem ho) _ (Equiv.injective _ (hi.trans (hnew ho).symm))
    scanned := by
      intro o ho i hi
      rw [hbase ho]
      have hparent : (t.base ((Equiv.swap (oldbase + offset) (q + offset)).symm i)).parent =
          oldbase + o := by
        simp only [rename] at hi
        exact Equiv.injective _ (hi.trans (hold ho).symm)
      -- neither of the two entries has a moved node as its parent
      have hkept : (Equiv.swap (oldbase + offset) (q + offset)).symm i = i := by
        rw [Equiv.symm_swap] at hparent ⊢
        refine Equiv.swap_apply_of_ne_of_ne ?_ ?_
        · rintro rfl
          rw [Equiv.swap_apply_left, h.free hhead] at hparent
          have hpos := h.pos (hmem ho)
          simp only [KTrieNode.zero] at hparent
          omega
        · rintro rfl
          rw [Equiv.swap_apply_right, h.parent hhead] at hparent
          exact h.outside (hmem ho) hparent
      rw [hkept] at hparent
      exact h.scanned (hmem ho) i hparent
    distinct := h.distinct.tail }

theorem relocate_cons (t : KTrie K) (oldbase q offset : Nat) (offsets : List Nat)
    (lastidx : Nat) :
    t.relocate oldbase q (offset :: offsets) lastidx =
      (t.moveNode (oldbase + offset) (q + offset)).relocate oldbase q offsets
        (if oldbase + offset = lastidx then q + offset else lastidx) := rfl

theorem Movable.relocate (h : t.Movable p oldbase q offsets)
    (hlast : ∀ o ∈ offsets, lastidx ≠ q + o) :
    t.relocate oldbase q offsets lastidx =
      (t.rename (exchange (oldbase + ·) (q + ·) offsets),
        exchange (oldbase + ·) (q + ·) offsets lastidx) := by
  induction offsets generalizing t lastidx with
  | nil => rfl
  | cons offset offsets ih =>
      have hmoved : (if oldbase + offset = lastidx then q + offset else lastidx) =
          Equiv.swap (oldbase + offset) (q + offset) lastidx := by
        rw [Equiv.swap_apply_def, if_neg (hlast offset List.mem_cons_self)]
        exact if_congr eq_comm rfl rfl
      have hlast' : ∀ o ∈ offsets,
          Equiv.swap (oldbase + offset) (q + offset) lastidx ≠ q + o := by
        intro o ho
        rw [Equiv.swap_apply_def, if_neg (hlast offset List.mem_cons_self)]
        split
        next =>
            intro heq
            exact (List.nodup_cons.mp h.distinct.nodup).1 (Nat.add_left_cancel heq ▸ ho)
        next => exact hlast o (List.mem_cons_of_mem _ ho)
      rw [relocate_cons, h.moveNode List.mem_cons_self, hmoved, ih h.tail hlast']
      rfl

/-! The base of a node changed. -/

section

variable (t) (i idx j : Nat)

theorem setIdx_base_ne (hne : j ≠ i) : (t.setIdx i idx).base j = t.base j :=
  base_setNode_ne t _ hne

@[simp] theorem mode_setIdx : ((t.setIdx i idx).base j).mode = (t.base j).mode := by
  by_cases hj : j = i
  · rw [hj, setIdx, base_setNode_self]
  · rw [setIdx_base_ne t i idx j hj]

@[simp] theorem parent_setIdx : ((t.setIdx i idx).base j).parent = (t.base j).parent := by
  by_cases hj : j = i
  · rw [hj, setIdx, base_setNode_self]
  · rw [setIdx_base_ne t i idx j hj]

@[simp] theorem value_setIdx : ((t.setIdx i idx).base j).value = (t.base j).value := by
  by_cases hj : j = i
  · rw [hj, setIdx, base_setNode_self]
  · rw [setIdx_base_ne t i idx j hj]

@[simp] theorem idx_setIdx : ((t.setIdx i idx).base i).idx = idx := by
  rw [setIdx, base_setNode_self]

end

/-- Where the nodes of a trie go when the arcs under `p` go to the base `q`. -/
structure Moves (t : KTrie K) (p q : Nat) (ρ : Equiv.Perm Nat) : Prop where
  pos : 1 ≤ q
  based : q ≤ t.baseSize
  zero : ρ 0 = 0
  root : ρ 1 = 1
  moved : ∀ {j} {c : Byte}, c ≠ 0 → (t.base j).mode ≠ .unused → (t.base j).parent = p →
    j = (t.base p).idx + c.toNat → ρ j = q + c.toNat
  kept : ∀ {j}, (t.base j).mode ≠ .unused → (t.base j).parent ≠ p → ρ j = j
  bound : ∀ {j}, (t.base j).mode ≠ .unused → ρ j ≤ t.baseSize

theorem Moves.base (ρ : Equiv.Perm Nat) (hj : j ≠ p) :
    ((t.setIdx p q).rename ρ).base (ρ j) = { t.base j with parent := ρ (t.base j).parent } := by
  rw [rename_base, setIdx_base_ne t p q j hj]

theorem Shape.relocated (h : t.Shape path) (harc : (t.base p).mode = .arc)
    (hmoves : t.Moves p q ρ) :
    ((t.setIdx p q).rename ρ).Shape (path ∘ ρ.symm) := by
  have hmode : ∀ j, (((t.setIdx p q).rename ρ).base (ρ j)).mode = (t.base j).mode := by
    intro j
    rw [rename_base]
    exact mode_setIdx ..
  have hparent : ∀ j, (((t.setIdx p q).rename ρ).base (ρ j)).parent = ρ (t.base j).parent := by
    intro j
    rw [rename_base, parent_setIdx]
  have hidx : ∀ {j}, j ≠ p → (((t.setIdx p q).rename ρ).base (ρ j)).idx = (t.base j).idx := by
    intro j hj
    rw [Moves.base ρ hj]
  have hidxp : (((t.setIdx p q).rename ρ).base (ρ p)).idx = q := by
    rw [rename_base]
    exact idx_setIdx ..
  have hterm : ∀ {j}, (t.base j).mode = .term → j ≠ p := by
    rintro j hj rfl
    rw [harc] at hj
    cases hj
  exact {
    size := h.size
    rootMode := by
      rw [← hmoves.root, hmode]
      exact h.rootMode
    rootIdx := by
      by_cases hroot : 1 = p
      · subst hroot
        rw [hmoves.root] at hidxp
        rw [hidxp]
        exact hmoves.pos
      · have hone := hidx hroot
        rw [hmoves.root] at hone
        rw [hone]
        exact h.rootIdx
    rootParent := by
      have hroot := hparent 1
      rw [h.rootParent, hmoves.root] at hroot
      exact hroot
    rootValue := by
      have hroot := congrArg KTrieNode.value (rename_base (t.setIdx p q) ρ 1)
      rw [hmoves.root] at hroot
      rw [hroot, value_setIdx]
      exact h.rootValue
    rootPath := by
      have hroot := h.rootPath
      rw [← ρ.symm_apply_apply 1, hmoves.root] at hroot
      exact hroot
    child := by
      intro k hk hused
      obtain ⟨j, rfl⟩ := ρ.surjective k
      rw [hmode] at hused
      have hj : j ≠ 1 := by
        rintro rfl
        exact hk hmoves.root
      obtain ⟨c, hc, harc', hslot, hpath⟩ := h.child hj hused
      refine ⟨c, hc, ?_, ?_, ?_⟩
      · rw [hparent, hmode]
        exact harc'
      · rw [hparent]
        by_cases hp : (t.base j).parent = p
        · rw [hp, hidxp]
          exact hmoves.moved hc hused hp (hp ▸ hslot)
        · rw [hidx hp, hmoves.kept hused hp]
          exact hslot
      · rw [hparent, Function.comp_apply, Function.comp_apply, ρ.symm_apply_apply,
          ρ.symm_apply_apply]
        exact hpath
    bound := by
      intro k hused
      obtain ⟨j, rfl⟩ := ρ.surjective k
      rw [hmode] at hused
      exact hmoves.bound hused
    based := by
      intro k harc'
      obtain ⟨j, rfl⟩ := ρ.surjective k
      rw [hmode] at harc'
      by_cases hj : j = p
      · rw [hj, hidxp]
        exact hmoves.based
      · rw [hidx hj]
        exact h.based harc'
    free := by
      intro k hfree
      obtain ⟨j, rfl⟩ := ρ.surjective k
      rw [hmode] at hfree
      have hj : j ≠ p := by
        rintro rfl
        rw [harc] at hfree
        cases hfree
      rw [Moves.base ρ hj, h.free hfree, KTrieNode.zero, hmoves.zero]
    text := by
      intro k hk
      obtain ⟨j, rfl⟩ := ρ.surjective k
      rw [hmode] at hk
      rw [hidx (hterm hk)]
      exact h.text hk
    apart := by
      intro k l hkl hk hl
      obtain ⟨i, rfl⟩ := ρ.surjective k
      obtain ⟨j, rfl⟩ := ρ.surjective l
      rw [hmode] at hk hl
      rw [hidx (hterm hk), hidx (hterm hl)]
      exact h.apart (fun hij => hkl (congrArg ρ hij)) hk hl
    stored := h.stored }

theorem keyOf_relocated (harc : (t.base p).mode = .arc) :
    ((t.setIdx p q).rename ρ).keyOf (path ∘ ρ.symm) (ρ j) = t.keyOf path j := by
  rw [keyOf, keyOf, rename_base, Function.comp_apply, ρ.symm_apply_apply]
  by_cases hj : j = p
  · simp [hj, harc]
  · rw [setIdx_base_ne t p q j hj]
    rfl

theorem has_relocated (harc : (t.base p).mode = .arc) :
    ((t.setIdx p q).rename ρ).Has (path ∘ ρ.symm) key v ↔ t.Has path key v := by
  refine ρ.symm.exists_congr_left.trans (exists_congr fun j => ?_)
  rw [Equiv.symm_symm, keyOf_relocated harc, rename_base]
  simp only [value_setIdx]

theorem Spelled.relocated {P : Byte → Prop} (h : t.Spelled path P)
    (harc : (t.base p).mode = .arc) :
    ((t.setIdx p q).rename ρ).Spelled (path ∘ ρ.symm) P := by
  intro k hused
  obtain ⟨j, rfl⟩ := ρ.surjective k
  rw [keyOf_relocated harc]
  rw [rename_base] at hused
  exact h j (by simpa using hused)

/-- The offsets of the arcs that leave `p`. -/
structure Family (t : KTrie K) (p : Nat) (offsets : List Nat) : Prop where
  mem : ∀ {o}, o ∈ offsets ↔ 1 ≤ o ∧ o ≤ 255 ∧ (t.base ((t.base p).idx + o)).mode ≠ .unused ∧
    (t.base ((t.base p).idx + o)).parent = p
  nodup : offsets.Nodup

theorem Shape.family_arcs (h : t.Shape path) (p : Nat) : t.Family p (t.arcs p) where
  mem := by
    intro o
    simp only [arcs, List.mem_filter, List.mem_range'_1, decide_eq_true_eq]
    constructor
    · rintro ⟨⟨hlow, hhigh⟩, hused, hparent⟩
      refine ⟨hlow, ?_, hused, hparent⟩
      split at hhigh <;> omega
    · rintro ⟨hlow, hhigh, hused, hparent⟩
      have hbound := h.bound hused
      refine ⟨⟨hlow, ?_⟩, hused, hparent⟩
      split <;> omega
  nodup := (List.nodup_range' ..).filter _

theorem Shape.orphan (h : t.Shape path) (hfree : (t.base j).mode = .unused) (hpos : 0 ≠ j)
    (i : Nat) : (t.base i).parent ≠ j := by
  by_cases hused : (t.base i).mode = .unused
  · rw [h.free hused]
    exact hpos
  · by_cases hroot : i = 1
    · rw [hroot, h.rootParent]
      rintro rfl
      rw [h.rootMode] at hfree
      cases hfree
    · exact h.childless_of_unused hfree i hroot hused

section

variable {o : Nat}

theorem Family.ne_root (hfamily : t.Family p offsets) (h : t.Shape path) (ho : o ∈ offsets) :
    (t.base p).idx + o ≠ 1 := by
  obtain ⟨hpos, -, -, hparent⟩ := hfamily.mem.mp ho
  intro heq
  rw [heq, h.rootParent] at hparent
  rw [← hparent] at heq
  have hidx := h.rootIdx
  omega

theorem Family.ne_self (hfamily : t.Family p offsets) (h : t.Shape path) (ho : o ∈ offsets) :
    p ≠ (t.base p).idx + o := by
  obtain ⟨-, -, hused, hparent⟩ := hfamily.mem.mp ho
  intro heq
  obtain ⟨c, -, -, -, hpath⟩ := h.child (hfamily.ne_root h ho) hused
  rw [hparent, ← heq] at hpath
  simp at hpath

theorem Family.distinct (hfamily : t.Family p offsets) (hroom : t.Room offsets q) :
    Exchangeable ((t.base p).idx + ·) (q + ·) offsets where
  nodup := hfamily.nodup
  left := Nat.add_left_cancel
  right := Nat.add_left_cancel
  apart := by
    intro o ho o' ho' heq
    obtain ⟨-, -, hused, -⟩ := hfamily.mem.mp ho
    exact hused (heq ▸ hroom.free o' ho')

end

theorem Shape.movable (h : t.Shape path) (harc : (t.base p).mode = .arc)
    (hfamily : t.Family p offsets) (hroom : t.Room offsets q) :
    (t.setIdx p q).Movable p (t.base p).idx q offsets where
  pos := fun ho => (hfamily.mem.mp ho).1
  used := fun ho => by
    rw [mode_setIdx]
    exact (hfamily.mem.mp ho).2.2.1
  parent := fun ho => by
    rw [parent_setIdx]
    exact (hfamily.mem.mp ho).2.2.2
  outside := fun ho => hfamily.ne_self h ho
  free := by
    intro o ho
    have hfree := hroom.free o ho
    rw [setIdx_base_ne, h.free hfree]
    rintro rfl
    rw [harc] at hfree
    cases hfree
  orphan := by
    intro o ho i
    rw [parent_setIdx]
    have hpos := hroom.pos
    exact h.orphan (hroom.free o ho) (by omega) i
  scanned := by
    intro o ho i hi
    have hpos := (hfamily.mem.mp ho).1
    have hroot := hfamily.ne_root h ho
    rw [setIdx_base_ne t p q _ (hfamily.ne_self h ho).symm]
    rw [parent_setIdx] at hi
    have hused : (t.base i).mode ≠ .unused := by
      intro hfree
      rw [h.free hfree] at hi
      change 0 = (t.base p).idx + o at hi
      omega
    have hne : i ≠ 1 := by
      rintro rfl
      rw [h.rootParent] at hi
      exact hroot hi.symm
    obtain ⟨c, hc, hmode, hslot, -⟩ := h.child hne hused
    have hbound : i ≤ (t.setIdx p q).baseSize := h.bound hused
    have hlow := toNat_pos hc
    have hhigh := toNat_le c
    rw [hi] at hmode hslot
    exact ⟨hmode, by omega, by omega⟩
  distinct := hfamily.distinct hroom

def swaps (t : KTrie K) (p q : Nat) (offsets : List Nat) : Equiv.Perm Nat :=
  exchange ((t.base p).idx + ·) (q + ·) offsets

theorem Shape.moves (h : t.Shape path) (hfamily : t.Family p offsets)
    (hroom : t.Room offsets q) :
    t.Moves p q (t.swaps p q offsets) := by
  have hkept : ∀ {j}, (t.base j).mode ≠ .unused →
      (j = 1 ∨ (t.base j).parent ≠ p) → t.swaps p q offsets j = j := by
    intro j hused hj
    refine exchange_of_ne (fun o ho => ?_) fun o ho => ?_
    · rintro rfl
      rcases hj with hroot | hparent
      · exact hfamily.ne_root h ho hroot
      · exact hparent (hfamily.mem.mp ho).2.2.2
    · rintro rfl
      exact hused (hroom.free o ho)
  have hmem : ∀ {j} {c : Byte}, c ≠ 0 → (t.base j).mode ≠ .unused → (t.base j).parent = p →
      j = (t.base p).idx + c.toNat → c.toNat ∈ offsets := by
    intro j c hc hused hparent hslot
    exact hfamily.mem.mpr ⟨toNat_pos hc, toNat_le c, hslot ▸ hused, hslot ▸ hparent⟩
  have hmoved : ∀ {j} {c : Byte}, c ≠ 0 → (t.base j).mode ≠ .unused → (t.base j).parent = p →
      j = (t.base p).idx + c.toNat → t.swaps p q offsets j = q + c.toNat := by
    intro j c hc hused hparent hslot
    rw [hslot]
    exact (hfamily.distinct hroom).exchange_left (hmem hc hused hparent hslot)
  exact {
    pos := hroom.pos
    based := hroom.based
    zero := by
      refine exchange_of_ne (fun o ho => ?_) fun o _ => ?_
      · have hpos := (hfamily.mem.mp ho).1
        omega
      · have hpos := hroom.pos
        omega
    root := hkept (by simp [h.rootMode]) (.inl rfl)
    moved := hmoved
    kept := fun hused hparent => hkept hused (.inr hparent)
    bound := by
      intro j hused
      by_cases hroot : j = 1 ∨ (t.base j).parent ≠ p
      · rw [hkept hused hroot]
        exact h.bound hused
      · rw [not_or, not_not] at hroot
        obtain ⟨c, hc, -, hslot, -⟩ := h.child hroot.1 hused
        rw [hroot.2] at hslot
        rw [hmoved hc hused hroot.2 hslot]
        exact hroom.bound _ (hmem hc hused hroot.2 hslot) }

/-- The slot of `c` under the arc `i`, when the node in it is not below `i`. -/
structure Taken (t : KTrie K) (i j : Nat) (c : Byte) : Prop where
  used : (t.base j).mode ≠ .unused
  parent : (t.base j).parent ≠ i
  arc : (t.base i).mode = .arc
  slot : j = (t.base i).idx + c.toNat
  char : c ≠ 0

theorem Family.resize (hfamily : t.Family p offsets) (size : Nat) :
    Family { t with baseSize := size } p offsets := ⟨hfamily.mem, hfamily.nodup⟩

theorem Shape.relocate (h : t.Shape path) (harc : (t.base p).mode = .arc)
    (hfamily : t.Family p offsets) (hroom : t.Room offsets q)
    (hlast : (t.base lastidx).mode = .arc) :
    (t.setIdx p q).relocate (t.base p).idx q offsets lastidx =
      ((t.setIdx p q).rename (t.swaps p q offsets), t.swaps p q offsets lastidx) := by
  refine (h.movable harc hfamily hroom).relocate fun o ho => ?_
  rintro rfl
  have hfree := hroom.free o ho
  rw [hlast] at hfree
  cases hfree

theorem Shape.placeMoved (h : t.Shape path) (harc : (t.base p).mode = .arc)
    (hmoves : t.Moves p q ρ) {keyptr : List Byte} {obj : K}
    (hvacant : ((t.setIdx p q).rename ρ).Vacant (ρ i) j c) (hkey : 0 ∉ keyptr) :
    t.Adds (((t.setIdx p q).rename ρ).place j (ρ i) keyptr obj) path (path i ++ c :: keyptr)
      obj := by
  obtain ⟨hshape, hhas⟩ := (h.relocated harc hmoves).place hvacant hkey obj
  have hbeside := beside_place ((t.setIdx p q).rename ρ) j (ρ i) keyptr obj
  refine ⟨⟨hbeside.empty, hbeside.numElements⟩, _, hshape, fun hspelled hchars => ?_,
    fun key v => (hhas key v).trans ?_⟩
  · obtain ⟨-, hcons⟩ := List.forall_mem_append.mp hchars
    obtain ⟨hc, hrest⟩ := List.forall_mem_cons.mp hcons
    exact (h.relocated harc hmoves).spelled_place hvacant hkey obj (hspelled.relocated harc)
      hc hrest
  rw [has_relocated harc, Function.comp_apply, ρ.symm_apply_apply]

theorem Shape.collideIncoming (h : t.Shape path) (htaken : t.Taken i j c) (hroot : j ≠ 1)
    (hmove : t.movesIncoming i j = true) {keyptr : List Byte} (hkey : 0 ∉ keyptr) (obj : K) :
    t.Adds (t.collide i j keyptr obj) path (path i ++ c :: keyptr) obj := by
  obtain ⟨b, hb, harc, hslot, -⟩ := h.child hroot htaken.used
  have hfamily := h.family_arcs (t.base j).parent
  obtain ⟨size, q, hsize, hcheck, hroom⟩ := h.sized.checkMulti (t.arcs (t.base j).parent)
    fun o ho => (hfamily.mem.mp ho).2.1
  have hgrown := h.resize hsize
  have hmem : b.toNat ∈ t.arcs (t.base j).parent :=
    hfamily.mem.mpr ⟨toNat_pos hb, toNat_le b, hslot ▸ htaken.used,
      congrArg (fun k => (t.base k).parent) hslot.symm⟩
  have hmoves := hgrown.moves (hfamily.resize size) hroom
  have hrelocate := hgrown.relocate harc (hfamily.resize size) hroom htaken.arc
  have hright : swaps { t with baseSize := size } (t.base j).parent q
      (t.arcs (t.base j).parent) (q + b.toNat) = (t.base (t.base j).parent).idx + b.toNat :=
    ((hfamily.resize size).distinct hroom).exchange_right hmem
  generalize swaps _ _ _ _ = ρ at hmoves hrelocate hright
  have hcollide : t.collide i j keyptr obj =
      ((setIdx { t with baseSize := size } (t.base j).parent q).rename ρ).place j (ρ i)
        keyptr obj := by
    simp only [KTrie.collide, if_pos hmove, hcheck]
    rw [hrelocate]
  rw [hcollide]
  refine (hgrown.placeMoved harc hmoves ⟨?_, ?_, ?_, ?_, htaken.char⟩ hkey).of_resize
  · rw [hslot, ← hright, rename_base]
    simpa using hroom.free _ hmem
  · exact (h.bound htaken.used).trans hsize
  · rw [rename_base]
    simpa using htaken.arc
  · rw [rename_base, setIdx_base_ne _ _ _ _ htaken.parent.symm]
    exact htaken.slot

theorem Shape.collideOutgoing (h : t.Shape path) (htaken : t.Taken i j c)
    (hmove : t.movesIncoming i j = false) {keyptr : List Byte} (hkey : 0 ∉ keyptr) (obj : K) :
    t.Adds (t.collide i j keyptr obj) path (path i ++ c :: keyptr) obj := by
  have hfamily := h.family_arcs i
  obtain ⟨size, q, hsize, hcheck, hroom⟩ := h.sized.checkMulti (t.arcs i ++ [c.toNat]) <| by
    intro o ho
    rcases List.mem_append.mp ho with hmem | hmem
    · exact (hfamily.mem.mp hmem).2.1
    · exact List.mem_singleton.mp hmem ▸ toNat_le c
  have hlast : c.toNat ∈ t.arcs i ++ [c.toNat] := List.mem_append_right _ List.mem_cons_self
  have hroom' : Room { t with baseSize := size } (t.arcs i) q :=
    ⟨hroom.pos, hroom.based, fun o ho => hroom.bound o (List.mem_append_left _ ho),
      fun o ho => hroom.free o (List.mem_append_left _ ho)⟩
  have hgrown := h.resize hsize
  have hmoves := hgrown.moves (hfamily.resize size) hroom'
  have hrelocate := hgrown.relocate htaken.arc (hfamily.resize size) hroom' htaken.arc
  have hfree := hroom.free _ hlast
  -- the new slot is none of those that the family leaves or enters
  have hkept : swaps { t with baseSize := size } i q (t.arcs i) (q + c.toNat) =
      q + c.toNat := by
    refine exchange_of_ne (fun o ho heq => ?_) fun o ho heq => ?_
    · rw [heq] at hfree
      exact (hfamily.mem.mp ho).2.2.1 hfree
    · rw [← Nat.add_left_cancel heq] at ho
      have hparent := (hfamily.mem.mp ho).2.2.2
      rw [← htaken.slot] at hparent
      exact htaken.parent hparent
  generalize swaps _ _ _ _ = ρ at hmoves hrelocate hkept
  have hsub : j - (t.base i).idx = c.toNat := by
    rw [htaken.slot, Nat.add_sub_cancel_left]
  have hcollide : t.collide i j keyptr obj =
      ((setIdx { t with baseSize := size } i q).rename ρ).place (q + c.toNat) (ρ i)
        keyptr obj := by
    simp only [KTrie.collide, hmove, hsub, hcheck]
    rw [hrelocate]
    rfl
  rw [hcollide]
  refine (hgrown.placeMoved htaken.arc hmoves
    ⟨?_, hroom.bound _ hlast, ?_, ?_, htaken.char⟩ hkey).of_resize
  · rw [← hkept, rename_base]
    simpa using hfree
  · rw [rename_base]
    simpa using htaken.arc
  · rw [rename_base]
    simp

theorem Shape.collide (h : t.Shape path) (htaken : t.Taken i j c)
    (hroot : j = 1 → t.movesIncoming i j = false) {keyptr : List Byte} (hkey : 0 ∉ keyptr)
    (obj : K) :
    t.Adds (t.collide i j keyptr obj) path (path i ++ c :: keyptr) obj := by
  cases hmove : t.movesIncoming i j with
  | false => exact h.collideOutgoing htaken hmove hkey obj
  | true =>
      refine h.collideIncoming htaken (fun hj => ?_) hmove hkey obj
      rw [hroot hj] at hmove
      cases hmove

end KTrie

end AmxModC.Trie
