import AmxModC.Foundation.Keyed
import AmxModC.Trie.Refinement

namespace AmxModC.Trie

open Foundation

section

variable {K : Type}

inductive Op (K : Type)
  | insert (key : CString) (obj : K)
  | replace (key : CString) (obj : K)
  | remove (key : CString)
  | retrieve (key : CString)
  | clear

def KTrie.op (t : KTrie K) : Op K → KTrie K
  | .insert key obj => (t.insert key obj).1
  | .replace key obj => (t.replace key obj).1
  | .remove key => (t.remove key).1
  | .retrieve _ => t
  | .clear => t.clear

def Spec.op (map : CString → Option K) : Op K → CString → Option K
  | .insert key obj => if (map key).isSome then map else Function.update map key (some obj)
  | .replace key obj => Function.update map key (some obj)
  | .remove key => Function.update map key none
  | .retrieve _ => map
  | .clear => Spec.empty

namespace KTrie

/-- The trie holds the map, and `size` is the number of its keys. -/
def Counts (t : KTrie K) (map : CString → Option K) : Prop :=
  (∀ key, t.retrieve key = map key) ∧ HasCard map t.size.toNat

def Admits (t : KTrie K) (key : CString) : Prop :=
  t.overwritesRoot 1 key.bytes = false ∧
    ((t.retrieve key).isNone → t.size ≠ BitVec.allOnes 32)

instance (t : KTrie K) (key : CString) : Decidable (t.Admits key) :=
  inferInstanceAs (Decidable (_ ∧ _))

/-- The calls that do what they are for: `replace` is not given a key whose node
has lost its value or never had one, and `clear` not a trie with the empty key. -/
def Regular (t : KTrie K) : Op K → Prop
  | .insert key _ => t.Admits key
  | .replace key _ =>
      (t.retrieve key).isSome ∨ (t.internalRetrieve key).isNone ∧ t.Admits key
  | .remove _ | .retrieve _ => True
  | .clear => t.empty.join.isNone

instance (t : KTrie K) : (o : Op K) → Decidable (t.Regular o)
  | .insert key _ => inferInstanceAs (Decidable (t.Admits key))
  | .replace key _ => inferInstanceAs
      (Decidable ((t.retrieve key).isSome ∨ (t.internalRetrieve key).isNone ∧ t.Admits key))
  | .remove _ | .retrieve _ => isTrue trivial
  | .clear => inferInstanceAs (Decidable (t.empty.join.isNone = true))

section

variable {t : KTrie K} {path : Nat → List Byte} {map : CString → Option K} {key : CString}
  {obj : K}

theorem Inserts.numElements {bytes : List Byte} {result : KTrie K × Bool}
    (h : t.Inserts path bytes obj result) :
    result.1.numElements = if result.2 then t.numElements + 1 else t.numElements := by
  cases h with
  | added hunset hadds => exact congrArg (· + 1) hadds.1.numElements
  | refused v hset => rfl

theorem Models.numElements_insert (h : t.Models path map)
    (hspares : t.overwritesRoot 1 key.bytes = false) (obj : K) :
    (t.insert key obj).1.numElements =
      if (t.insert key obj).2 then t.numElements + 1 else t.numElements := by
  by_cases hkey : key.bytes = []
  · rw [insert_nil hkey]
    split <;> rfl
  · rw [insert_of_ne hkey]
    exact (h.shape.insertFrom h.shape.rootMode key.noNul hkey hspares obj).numElements

theorem toNat_add_one {n : BitVec 32} (h : n ≠ BitVec.allOnes 32) :
    (n + 1).toNat = n.toNat + 1 := by
  have hne : n.toNat ≠ 2 ^ 32 - 1 := by
    intro heq
    exact h (BitVec.eq_of_toNat_eq (by simpa using heq))
  have hlt := n.isLt
  rw [BitVec.toNat_add]
  exact Nat.mod_eq_of_lt (by simp; omega)

theorem toNat_sub_one {n : BitVec 32} (h : 0 < n.toNat) : (n - 1).toNat = n.toNat - 1 := by
  have hlt := n.isLt
  rw [BitVec.toNat_sub]
  simp
  omega

def Tallies (t : KTrie K) (map : CString → Option K) : Prop :=
  t.Agrees map ∧ HasCard map t.size.toNat

theorem Tallies.insert (h : t.Tallies map) (hadmits : t.Admits key) (obj : K) :
    (t.insert key obj).1.Tallies (Spec.op map (.insert key obj)) := by
  obtain ⟨⟨path, hmodels⟩, hcard⟩ := h
  obtain ⟨hspares, hroom⟩ := hadmits
  obtain ⟨hanswer, hagrees⟩ := hmodels.insert hspares obj
  have hcount := hmodels.numElements_insert hspares obj
  rw [hmodels.retrieve] at hroom
  simp only [KTrie.call, Spec.call] at hanswer hagrees
  rw [Spec.op]
  cases hset : map key with
  | some v =>
      simp only [hset, Option.isSome_some, if_true, Answer.success.injEq] at hanswer hagrees ⊢
      rw [hanswer] at hcount
      refine ⟨hagrees, ?_⟩
      rw [KTrie.size, hcount]
      exact hcard
  | none =>
      simp only [hset, Option.isSome_none, Bool.false_eq_true, if_false,
        Answer.success.injEq] at hanswer hagrees ⊢
      rw [hanswer] at hcount
      refine ⟨hagrees, ?_⟩
      have hsize : (t.insert key obj).1.size.toNat = t.size.toNat + 1 := by
        rw [KTrie.size, hcount, if_pos rfl]
        exact toNat_add_one (hroom (by simp [hset]))
      rw [hsize]
      exact hcard.insert hset obj

theorem numElements_setValueOf (t : KTrie K) (target : Target) (value : Option K) :
    (t.setValueOf target value).numElements = t.numElements := by
  cases target <;> rfl

theorem retrieve_of_none (htarget : t.internalRetrieve key = none) : t.retrieve key = none := by
  rw [KTrie.retrieve, htarget]
  rfl

theorem retrieve_of_some {target : Target} (htarget : t.internalRetrieve key = some target) :
    t.retrieve key = t.valueOf target := by
  rw [KTrie.retrieve, htarget]
  rfl

theorem Tallies.replace (h : t.Tallies map) (hregular : t.Regular (.replace key obj)) :
    (t.replace key obj).1.Tallies (Spec.op map (.replace key obj)) := by
  obtain ⟨⟨path, hmodels⟩, hcard⟩ := h
  have hretrieve := hmodels.retrieve key
  rw [KTrie.replace]
  cases htarget : t.internalRetrieve key with
  | none =>
      rw [retrieve_of_none htarget] at hretrieve
      rcases hregular with hset | ⟨-, hadmits⟩
      · rw [retrieve_of_none htarget] at hset
        cases hset
      · have hinsert := Tallies.insert ⟨⟨path, hmodels⟩, hcard⟩ hadmits obj
        rw [Spec.op, ← hretrieve] at hinsert
        exact hinsert
  | some target =>
      have hset : (t.valueOf target).isSome := by
        rw [← retrieve_of_some htarget]
        refine hregular.resolve_right fun hnone => ?_
        rw [htarget] at hnone
        cases hnone.1
      rw [retrieve_of_some htarget] at hretrieve
      simp only [if_pos hset]
      refine ⟨⟨path, ?_⟩, ?_⟩
      · exact hmodels.setValueOf htarget (some obj) (t.setValueOf target (some obj)).numElements
      · rw [KTrie.size, numElements_setValueOf]
        rw [hretrieve] at hset
        exact hcard.overwrite hset obj

theorem Tallies.remove (h : t.Tallies map) (key : CString) :
    (t.remove key).1.Tallies (Spec.op map (.remove key)) := by
  obtain ⟨⟨path, hmodels⟩, hcard⟩ := h
  have hretrieve := hmodels.retrieve key
  have hunset : map key = none → t.Tallies (Spec.op map (.remove key)) := by
    intro hnone
    rw [Spec.op, ← hnone, Function.update_eq_self]
    exact ⟨⟨path, hmodels⟩, hcard⟩
  rw [KTrie.remove]
  cases htarget : t.internalRetrieve key with
  | none =>
      rw [retrieve_of_none htarget] at hretrieve
      exact hunset hretrieve.symm
  | some target =>
      rw [retrieve_of_some htarget] at hretrieve
      by_cases hset : (t.valueOf target).isSome
      · simp only [if_pos hset]
        rw [hretrieve] at hset
        obtain ⟨herase, hpos⟩ := hcard.erase hset
        refine ⟨⟨path, hmodels.setValueOf htarget none _⟩, ?_⟩
        change HasCard _ (t.size - 1).toNat
        rw [toNat_sub_one hpos]
        exact herase
      · simp only [if_neg hset]
        rw [hretrieve, Option.not_isSome_iff_eq_none] at hset
        exact hunset hset

theorem Tallies.clear (h : t.Tallies map) (hempty : t.empty.join.isNone) :
    t.clear.Tallies Spec.empty := by
  obtain ⟨⟨path, hmodels⟩, -⟩ := h
  have hsized := hmodels.shape.sized
  refine ⟨⟨fun _ => [], ?_, ?_, ?_⟩, hasCard_none⟩
  · exact hsized.shape_cleared (List.ne_nil_of_length_pos (Nat.zero_lt_of_lt hmodels.shape.stored))
  · intro key _
    exact (Option.isNone_iff_eq_none.mp hempty).symm
  · intro key _ v
    exact iff_of_false (by simp [Spec.empty]) (hsized.not_has_cleared _ v)

theorem Tallies.op {o : Op K} (h : t.Tallies map) (hregular : t.Regular o) :
    (t.op o).Tallies (Spec.op map o) := by
  cases o with
  | insert key obj => exact h.insert hregular obj
  | replace key obj => exact h.replace hregular
  | remove key => exact h.remove key
  | retrieve key => exact h
  | clear => exact h.clear hregular

end

theorem counts_of_regular (ops : List (Op K))
    (h : Meets (fun t o => some (op t o)) Regular create ops) :
    Counts (ops.foldl op create) (ops.foldl Spec.op Spec.empty) := by
  have hstart : (create : KTrie K).Tallies Spec.empty := ⟨⟨_, models_create⟩, hasCard_none⟩
  have hop : ∀ {t : KTrie K} {map : CString → Option K} {o : Op K},
      t.Tallies map → t.Regular o → (t.op o).Tallies (Spec.op map o) := Tallies.op
  obtain ⟨⟨path, hmodels⟩, hcard⟩ := foldl_related hop hstart h
  exact ⟨hmodels.retrieve, hcard⟩

def keyEmpty : CString := default

theorem counts_replaced :
    Counts ([.insert keyEmpty 1, .insert keyA 2, .remove keyEmpty, .replace keyA 3, .clear,
        .replace keyAb 4].foldl op create)
      ([.insert keyEmpty 1, .insert keyA 2, .remove keyEmpty, .replace keyA 3, .clear,
        .replace keyAb 4].foldl Spec.op Spec.empty) :=
  counts_of_regular _ (by decide +kernel)

/-- The empty key outlives `clear`, and `replace` does not bring a removed key back. -/
theorem not_counts_cleared :
    ¬ Counts ([.insert keyEmpty 1, .clear].foldl op create)
        ([.insert keyEmpty 1, .clear].foldl Spec.op Spec.empty) ∧
      ¬ Counts ([.insert keyA 1, .remove keyA, .replace keyA 2].foldl op create)
        ([.insert keyA 1, .remove keyA, .replace keyA 2].foldl Spec.op Spec.empty) := by
  constructor
  · intro h
    exact absurd (h.1 keyEmpty) (by decide +kernel)
  · intro h
    exact absurd (h.1 keyA) (by decide +kernel)

end KTrie

end

section

variable {K : Type}

def Plain (key : CString) : Prop := ∀ c ∈ key.bytes, 2 ≤ c.toNat

def Op.Plain : Op K → Prop
  | .insert key _ | .replace key _ | .remove key | .retrieve key => Trie.Plain key
  | .clear => True

namespace KTrie

structure WellFormed (t : KTrie K) : Prop where
  rootMode : (t.base 1).mode = .arc
  rootParent : (t.base 1).parent = 1
  rootValue : (t.base 1).value = none
  child : ∀ {j}, j ≠ 1 → (t.base j).mode ≠ .unused →
    (t.base (t.base j).parent).mode = .arc ∧
      ∃ c : Byte, 2 ≤ c.toNat ∧ j = (t.base (t.base j).parent).idx + c.toNat
  unshared : ∀ {key key' target}, t.internalRetrieve key = some target →
    t.internalRetrieve key' = some target → key = key'
  text : ∀ {j}, (t.base j).mode = .term →
    StringAt t.stringtab (t.base j).idx (t.string (t.base j).idx) ∧
      (t.base j).idx + (t.string (t.base j).idx).length < t.tail
  stored : t.tail < t.stringtab.length
  bound : ∀ {j}, (t.base j).mode ≠ .unused → j ≤ t.baseSize
  boundParent : ∀ {j}, (t.base j).mode ≠ .unused → (t.base j).parent ≤ t.baseSize
  boundIdx : ∀ {j}, (t.base j).mode = .arc → (t.base j).idx ≤ t.baseSize

section

variable {t : KTrie K} {path : Nat → List Byte} {key key' : CString} {obj : K} {target : Target}
  {i : Nat}

theorem Shape.unshared (h : t.Shape path) (hkey : t.internalRetrieve key = some target)
    (hkey' : t.internalRetrieve key' = some target) : key = key' := by
  have hnode : ∀ {key : CString} {j : Nat}, t.internalRetrieve key = some (.node j) →
      t.keyOf path j = key.bytes := by
    intro key j hfound
    by_cases hbytes : key.bytes = []
    · rw [internalRetrieve_nil hbytes] at hfound
      simp at hfound
    · rw [internalRetrieve_of_ne hbytes, Option.map_eq_some_iff] at hfound
      obtain ⟨i, hwalk, heq⟩ := hfound
      cases heq
      exact ((h.walk_eq_some key.noNul).mp hwalk).2.2
  have hempty : ∀ {key : CString}, t.internalRetrieve key = some .empty → key.bytes = [] := by
    intro key hfound
    by_contra hbytes
    rw [internalRetrieve_of_ne hbytes] at hfound
    simp at hfound
  apply ext_bytes
  cases target with
  | empty => rw [hempty hkey, hempty hkey']
  | node j => rw [← hnode hkey, ← hnode hkey']

theorem Shape.wellFormed (h : t.Shape path) (hspelled : t.Spelled path fun c => 2 ≤ c.toNat) :
    t.WellFormed where
  rootMode := h.rootMode
  rootParent := h.rootParent
  rootValue := h.rootValue
  child := by
    intro j hroot hused
    obtain ⟨c, -, harc, hslot, hpath⟩ := h.child hroot hused
    refine ⟨harc, c, hspelled.on_path hused c ?_, hslot⟩
    rw [hpath]
    exact List.mem_append_right _ List.mem_cons_self
  unshared := h.unshared
  text := fun hterm => ⟨(h.text hterm).2.1, (h.text hterm).2.2.2⟩
  stored := h.stored
  bound := h.bound
  boundParent := by
    intro j hused
    by_cases hroot : j = 1
    · rw [hroot, h.rootParent]
      exact h.bound (by simp [h.rootMode])
    · obtain ⟨-, -, harc, -, -⟩ := h.child hroot hused
      exact h.bound (by simp [harc])
  boundIdx := h.based

theorem overwritesRoot_of_plain {bytes : List Byte} (h : ∀ c ∈ bytes, 2 ≤ c.toNat) :
    t.overwritesRoot i bytes = false := by
  induction bytes generalizing i with
  | nil => rfl
  | cons c bytes ih =>
      obtain ⟨hc, hrest⟩ := List.forall_mem_cons.mp h
      rw [overwritesRoot, if_neg (by omega), ih hrest, Bool.and_false]

def Sound (t : KTrie K) : Prop :=
  ∃ path, t.Shape path ∧ t.Spelled path fun c => 2 ≤ c.toNat

theorem sound_cleared (hsized : t.Sized) (hstringtab : t.stringtab ≠ []) :
    t.internalClear.Sound := by
  refine ⟨_, hsized.shape_cleared hstringtab, fun j hused => ?_⟩
  rw [hsized.cleared_used hused]
  simp [keyOf, internalClear]

theorem Sound.of_arrays (h : t.Sound) {t' : KTrie K} (hbase : t'.base = t.base)
    (hsize : t'.baseSize = t.baseSize) (hstringtab : t'.stringtab = t.stringtab)
    (htail : t'.tail = t.tail) : t'.Sound := by
  obtain ⟨path, hshape, hspelled⟩ := h
  refine ⟨path, hshape.of_arrays hbase hsize hstringtab htail, hspelled.congr hbase fun i _ => ?_⟩
  rw [string, hstringtab, string]

theorem Sound.setValueOf (h : t.Sound) (htarget : t.internalRetrieve key = some target)
    (value : Option K) : (t.setValueOf target value).Sound := by
  by_cases hkey : key.bytes = []
  · rw [internalRetrieve_nil hkey, Option.map_eq_some_iff] at htarget
    obtain ⟨-, -, rfl⟩ := htarget
    exact h.of_arrays rfl rfl rfl rfl
  · rw [internalRetrieve_of_ne hkey, Option.map_eq_some_iff] at htarget
    obtain ⟨j, hwalk, rfl⟩ := htarget
    obtain ⟨path, hshape, hspelled⟩ := h
    obtain ⟨hused, hroot, -⟩ := (hshape.walk_eq_some key.noNul).mp hwalk
    refine ⟨path, hshape.setValue hroot hused value, fun i hi => ?_⟩
    rw [KTrie.setValueOf, mode_setValue] at hi
    rw [KTrie.setValueOf, keyOf_setValue]
    exact hspelled i hi

theorem Sound.insert (h : t.Sound) (hplain : Plain key) (obj : K) : (t.insert key obj).1.Sound := by
  by_cases hkey : key.bytes = []
  · rw [insert_nil hkey]
    split
    next => exact h
    next => exact h.of_arrays rfl rfl rfl rfl
  · obtain ⟨path, hshape, hspelled⟩ := h
    have hinserts := hshape.insertFrom hshape.rootMode key.noNul hkey
      (overwritesRoot_of_plain hplain) obj
    rw [insert_of_ne hkey]
    rw [hshape.rootPath, List.nil_append] at hinserts
    generalize t.insertFrom obj 1 key.bytes = result at hinserts
    cases hinserts with
    | added hunset hadds =>
        obtain ⟨-, path', hshape', hspells, -⟩ := hadds
        exact Sound.of_arrays ⟨path', hshape', hspells hspelled hplain⟩ rfl rfl rfl rfl
    | refused v hset => exact ⟨path, hshape, hspelled⟩

theorem Sound.replace (h : t.Sound) (hplain : Plain key) (obj : K) :
    (t.replace key obj).1.Sound := by
  rw [KTrie.replace]
  cases htarget : t.internalRetrieve key with
  | none => exact h.insert hplain obj
  | some target =>
      by_cases hset : (t.valueOf target).isSome
      · simp only [if_pos hset]
        exact h.setValueOf htarget (some obj)
      · simp only [if_neg hset]
        exact h

theorem Sound.remove (h : t.Sound) (key : CString) : (t.remove key).1.Sound := by
  rw [KTrie.remove]
  cases htarget : t.internalRetrieve key with
  | none => exact h
  | some target =>
      by_cases hset : (t.valueOf target).isSome
      · simp only [if_pos hset]
        exact (h.setValueOf htarget none).of_arrays rfl rfl rfl rfl
      · simp only [if_neg hset]
        exact h

theorem Sound.clear (h : t.Sound) : t.clear.Sound := by
  obtain ⟨path, hshape, -⟩ := h
  exact sound_cleared hshape.sized
    (List.ne_nil_of_length_pos (Nat.zero_lt_of_lt hshape.stored))

theorem Sound.op {o : Op K} (h : t.Sound) (hplain : o.Plain) : (t.op o).Sound := by
  cases o with
  | insert key obj => exact h.insert hplain obj
  | replace key obj => exact h.replace hplain obj
  | remove key => exact h.remove key
  | retrieve key => exact h
  | clear => exact h.clear

end

/-- After any sequence of calls with plain keys, the empty one among them or not. -/
theorem wellFormed_of_plain (ops : List (Op K)) (hplain : ∀ o ∈ ops, o.Plain) :
    (ops.foldl op create).WellFormed := by
  have hsound : (ops.foldl op (create : KTrie K)).Sound :=
    List.foldlRecOn ops op (sound_cleared sized_blank (List.cons_ne_nil _ _))
      fun _ h o ho => h.op (hplain o ho)
  obtain ⟨path, hshape, hspelled⟩ := hsound
  exact hshape.wellFormed hspelled

theorem wellFormed_keyAb :
    ([.insert keyA 1, .insert keyAb 2, .remove keyA, .replace keyAb 3].foldl op create).WellFormed :=
  wellFormed_of_plain _ (by simp [Op.Plain, Plain, keyA, keyAb])

end KTrie

end

end AmxModC.Trie
