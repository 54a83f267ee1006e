import AmxModC.Foundation.Run
import AmxModC.Trie.Relocate
import AmxModC.Trie.Split

namespace AmxModC.Trie

open Foundation

section

namespace KTrie

variable {K : Type} {t t' : KTrie K} {path : Nat → List Byte} {i j : Nat} {c : Byte}
  {key keyptr : List Byte} {v obj : K}

/-- What `insert` does: the key gets the value, or has one already. -/
inductive Inserts (t : KTrie K) (path : Nat → List Byte) (key : List Byte) (obj : K) :
    KTrie K × Bool → Prop
  | added {t' : KTrie K} (unset : ∀ v, ¬ t.Has path key v) (adds : t.Adds t' path key obj) :
      Inserts t path key obj (t'.addElement, true)
  | refused (v : K) (set : t.Has path key v) : Inserts t path key obj (t, false)

theorem Shape.has_iff_walk (h : t.Shape path) (harc : (t.base i).mode = .arc)
    (hkey : 0 ∉ keyptr) (hne : keyptr ≠ []) :
    t.Has path (path i ++ keyptr) v ↔
      ∃ j, t.walk i keyptr = some j ∧ (t.base j).value = some v := by
  constructor
  · rintro ⟨j, hvalue, hkeyOf⟩
    refine ⟨j, ?_, hvalue⟩
    rw [← h.walk_root harc hne, ← hkeyOf]
    exact h.walk_complete (h.mode_of_value hvalue) (h.ne_root hvalue)
  · rintro ⟨j, hwalk, hvalue⟩
    exact ⟨j, hvalue, (h.walk_sound hkey hwalk).2.2⟩

theorem Shape.insertFree (h : t.Shape path) (harc : (t.base i).mode = .arc) (hc : c ≠ 0)
    (hkey : 0 ∉ keyptr)
    (hfree : (t.base i).idx + c.toNat > t.baseSize ∨
      (t.base ((t.base i).idx + c.toNat)).mode = .unused) (obj : K) :
    t.Adds ((if (t.base i).idx + c.toNat > t.baseSize then t.grow else t).place
      ((t.base i).idx + c.toNat) i keyptr obj) path (path i ++ c :: keyptr) obj := by
  have hunused : (t.base ((t.base i).idx + c.toNat)).mode = .unused := by
    rcases hfree with hbeyond | hunused
    · rw [h.sized.beyond _ hbeyond]
      rfl
    · exact hunused
  split
  next hbeyond =>
      have hsize := h.size
      have hidx := h.based harc
      have hchar := toNat_le c
      have hgrown := h.resize (by omega : t.baseSize ≤ t.baseSize * 2)
      rw [h.sized.grow_eq]
      refine (hgrown.adds_place ⟨hunused, ?_, harc, rfl, hc⟩ hkey obj).of_resize
      change (t.base i).idx + c.toNat ≤ t.baseSize * 2
      omega
  next hbeyond => exact h.adds_place ⟨hunused, Nat.le_of_not_lt hbeyond, harc, rfl, hc⟩ hkey obj

theorem Shape.adds_setValue (h : t.Shape path) (hroot : j ≠ 1) (hused : (t.base j).mode ≠ .unused)
    (hvalue : (t.base j).value = none) (obj : K) :
    t.Adds (t.setValue j (some obj)) path (t.keyOf path j) obj := by
  refine ⟨⟨rfl, rfl⟩, path, h.setValue hroot hused (some obj), fun hspelled _ k hk => ?_,
    fun key v => ?_⟩
  · rw [keyOf_setValue]
    exact hspelled k (by simpa using hk)
  rw [has_setValue, has_iff_of_none hvalue, Option.some.injEq]

theorem Shape.insertHere (h : t.Shape path) (hroot : j ≠ 1) (hused : (t.base j).mode ≠ .unused)
    (hkeyOf : t.keyOf path j = key) (obj : K) :
    t.Inserts path key obj
      (if (t.base j).value.isSome then (t, false)
        else ((t.setValue j (some obj)).addElement, true)) := by
  subst hkeyOf
  cases hvalue : (t.base j).value with
  | some v => exact .refused v ⟨j, hvalue, rfl⟩
  | none =>
      refine .added (fun v hhas => ?_) (h.adds_setValue hroot hused hvalue obj)
      obtain ⟨i, hi, hkey⟩ := hhas
      have hij := h.keyOf_inj (h.mode_of_value hi) (h.ne_root hi) hused hroot hkey
      rw [hij, hvalue] at hi
      cases hi

theorem Shape.insertFrom (h : t.Shape path) (harc : (t.base i).mode = .arc)
    (hkey : 0 ∉ keyptr) (hne : keyptr ≠ []) (hspares : t.overwritesRoot i keyptr = false)
    (obj : K) :
    t.Inserts path (path i ++ keyptr) obj (t.insertFrom obj i keyptr) := by
  induction keyptr generalizing i with
  | nil => exact absurd rfl hne
  | cons c keyptr ih =>
      have hc : c ≠ 0 := fun hzero => hkey (hzero ▸ List.mem_cons_self)
      have hrest : 0 ∉ keyptr := fun hmem => hkey (List.mem_cons_of_mem _ hmem)
      have hunset : t.walk i (c :: keyptr) = none →
          ∀ v, ¬ t.Has path (path i ++ c :: keyptr) v := by
        intro hwalk v hhas
        obtain ⟨j, hj, -⟩ := (h.has_iff_walk harc hkey hne).mp hhas
        rw [hwalk] at hj
        cases hj
      rw [KTrie.insertFrom]
      split
      next hfree =>
          refine .added (hunset ?_) (h.insertFree harc hc hrest hfree obj)
          rw [walk, if_pos (hfree.imp_right .inl)]
      next hfree =>
          rw [not_or, Nat.not_lt] at hfree
          obtain ⟨hbound, hused⟩ := hfree
          split
          next hparent =>
              have htaken : t.Taken i ((t.base i).idx + c.toNat) c :=
                ⟨hused, hparent, harc, rfl, hc⟩
              refine .added (hunset ?_) (h.collide htaken (fun hroot => ?_) hrest obj)
              · rw [walk, if_pos (.inr (.inr hparent))]
              · rw [overwritesRoot, if_pos hroot] at hspares
                exact hspares
          next hparent =>
              rw [not_not] at hparent
              have hroot := h.slot_ne_root hparent rfl hc
              have hpath := h.path_child hused hparent rfl hc
              have hkeys : path i ++ c :: keyptr =
                  path ((t.base i).idx + c.toNat) ++ keyptr := by
                rw [hpath, List.append_assoc]
                rfl
              have hslot : (t.base i).idx + c.toNat =
                  (t.base (t.base ((t.base i).idx + c.toNat)).parent).idx + c.toNat := by
                rw [hparent]
              split
              next hterm =>
                  split
                  next hstring =>
                      refine h.insertHere hroot hused ?_ obj
                      rw [keyOf, if_pos hterm, hkeys, ← hstring]
                  next hstring =>
                      refine .added (hunset ?_) (hkeys ▸ h.splitTerm hroot hterm hrest hstring obj)
                      have hwalk := @walk_term _ _ _ _ keyptr hterm hbound hslot
                      rw [hparent, if_neg hstring] at hwalk
                      exact hwalk
              next hterm =>
                  have harc' : (t.base ((t.base i).idx + c.toNat)).mode = .arc := by
                    cases hmode : (t.base ((t.base i).idx + c.toNat)).mode with
                    | unused => exact absurd hmode hused
                    | arc => rfl
                    | term => exact absurd hmode hterm
                  split
                  next hend =>
                      refine h.insertHere hroot hused ?_ obj
                      rw [keyOf, if_neg hterm, hkeys, hend]
                  next hend =>
                      rw [hkeys]
                      refine ih harc' hrest hend ?_
                      rw [overwritesRoot, if_neg hroot] at hspares
                      simpa [hbound, harc', hparent] using hspares

end KTrie

end

section

variable {K : Type}

inductive Call (K : Type)
  | insert (key : CString) (obj : K)
  | remove (key : CString)
  | retrieve (key : CString)

inductive Answer (K : Type)
  | success (done : Bool)
  | object (found : Option K)
deriving DecidableEq

def KTrie.call (t : KTrie K) : Call K → KTrie K × Answer K
  | .insert key obj => ((t.insert key obj).1, .success (t.insert key obj).2)
  | .remove key => ((t.remove key).1, .success (t.remove key).2)
  | .retrieve key => (t, .object (t.retrieve key))

/-! The purpose of the trie: a map from keys to objects. -/

namespace Spec

def empty : CString → Option K := fun _ => none

def call (map : CString → Option K) : Call K → (CString → Option K) × Answer K
  | .insert key obj =>
      if (map key).isSome then (map, .success false)
      else (Function.update map key (some obj), .success true)
  | .remove key =>
      if (map key).isSome then (Function.update map key none, .success true)
      else (map, .success false)
  | .retrieve key => (map, .object (map key))

end Spec

namespace KTrie

def RefinesMap (calls : List (Call K)) : Prop :=
  answers call create calls = answers Spec.call Spec.empty calls

def Spares (t : KTrie K) : Call K → Prop
  | .insert key _ => t.overwritesRoot 1 key.bytes = false
  | _ => True

instance (t : KTrie K) : (c : Call K) → Decidable (t.Spares c)
  | .insert key _ => inferInstanceAs (Decidable (t.overwritesRoot 1 key.bytes = false))
  | .remove _ | .retrieve _ => isTrue trivial

section

variable {t : KTrie K} {path : Nat → List Byte} {map : CString → Option K} {key : CString}
  {obj v : K} {j : Nat}

/-- What the map says of the empty key is in `m_empty`, the rest is in the nodes. -/
structure Models (t : KTrie K) (path : Nat → List Byte) (map : CString → Option K) : Prop where
  shape : t.Shape path
  emptyKey : ∀ {key}, key.bytes = [] → map key = t.empty.join
  has : ∀ {key}, key.bytes ≠ [] → ∀ v, map key = some v ↔ t.Has path key.bytes v

theorem Sized.cleared_base (h : t.Sized) (hj : j ≠ 1) : t.internalClear.base j = .zero := by
  simp only [internalClear, if_neg hj]
  split
  next => rfl
  next hbeyond => exact h.beyond j (Nat.lt_of_not_le hbeyond)

theorem Sized.cleared_used (h : t.Sized) (hj : (t.internalClear.base j).mode ≠ .unused) :
    j = 1 := by
  by_contra hne
  rw [h.cleared_base hne] at hj
  exact hj rfl

theorem Sized.cleared_not_term (h : t.Sized) (hj : (t.internalClear.base j).mode = .term) :
    False := by
  have hroot := h.cleared_used (j := j) (by simp [hj])
  subst hroot
  cases hj

theorem Sized.shape_cleared (h : t.Sized) (hstringtab : t.stringtab ≠ []) :
    t.internalClear.Shape fun _ => [] where
  size := h.size
  rootMode := rfl
  rootIdx := le_rfl
  rootParent := rfl
  rootValue := rfl
  rootPath := rfl
  child := fun hne hmode => absurd (h.cleared_used hmode) hne
  bound := by
    intro j hmode
    rw [h.cleared_used hmode]
    exact (by decide : 1 ≤ 256).trans h.size
  based := by
    intro j hmode
    rw [h.cleared_used (j := j) (by simp [hmode])]
    exact (by decide : 1 ≤ 256).trans h.size
  free := by
    intro j hmode
    refine h.cleared_base ?_
    rintro rfl
    cases hmode
  text := fun hmode => (h.cleared_not_term hmode).elim
  apart := fun _ hmode => (h.cleared_not_term hmode).elim
  stored := by
    change 0 < (List.replicate t.stringtab.length 0).length
    rw [List.length_replicate]
    exact List.length_pos_of_ne_nil hstringtab

theorem Sized.not_has_cleared (h : t.Sized) (key : List Byte) (v : K) :
    ¬ t.internalClear.Has path key v := by
  rintro ⟨j, hvalue, -⟩
  by_cases hj : j = 1
  · rw [hj] at hvalue
    cases hvalue
  · rw [h.cleared_base hj] at hvalue
    cases hvalue

theorem sized_blank : Sized (K := K)
    ⟨fun _ => .zero, none, List.replicate 256 uninitialised, 256, 0, 0⟩ := ⟨le_rfl, fun _ _ => rfl⟩

theorem models_create : (create : KTrie K).Models (fun _ => []) Spec.empty where
  shape := sized_blank.shape_cleared (List.cons_ne_nil _ _)
  emptyKey := fun _ => rfl
  has := fun _ v => iff_of_false (by simp [Spec.empty]) (sized_blank.not_has_cleared _ v)

theorem ext_bytes {key key' : CString} (h : key.bytes = key'.bytes) : key = key' := by
  cases key
  cases key'
  simpa using h

theorem internalRetrieve_nil (hkey : key.bytes = []) :
    t.internalRetrieve key = t.empty.map fun _ => .empty := by
  rw [internalRetrieve, hkey]

theorem internalRetrieve_of_ne (hkey : key.bytes ≠ []) :
    t.internalRetrieve key = (t.walk 1 key.bytes).map .node := by
  rw [internalRetrieve]
  split
  next hnil => exact absurd hnil hkey
  next => rfl

theorem Models.retrieve (h : t.Models path map) (key : CString) : t.retrieve key = map key := by
  rw [KTrie.retrieve]
  by_cases hkey : key.bytes = []
  · rw [internalRetrieve_nil hkey, h.emptyKey hkey]
    cases hempty : t.empty with
    | none => rfl
    | some value => exact congrArg Option.join hempty
  · rw [internalRetrieve_of_ne hkey, Option.bind_map]
    refine Option.ext fun v => ?_
    rw [h.has hkey]
    exact h.shape.walk_bind key.noNul

theorem Shape.of_arrays (h : t.Shape path) {t' : KTrie K} (hbase : t'.base = t.base)
    (hsize : t'.baseSize = t.baseSize) (hstringtab : t'.stringtab = t.stringtab)
    (htail : t'.tail = t.tail) : t'.Shape path := by
  refine h.of_keepsText ⟨hbase, hsize, fun _ hspare => ?_, ?_⟩
  · rw [Spare, hstringtab, htail]
    exact hspare
  · rw [hstringtab, htail]
    exact h.stored

theorem Models.setEmpty (h : t.Models path map) (hkey : key.bytes = []) (value : Option K)
    (numElements : BitVec 32) :
    Models { t with empty := some value, numElements } path (Function.update map key value) where
  shape := h.shape.of_arrays rfl rfl rfl rfl
  emptyKey := by
    intro key' hkey'
    rw [ext_bytes (hkey'.trans hkey.symm), Function.update_self]
    rfl
  has := by
    intro key' hkey' v
    have hne : key' ≠ key := by
      rintro rfl
      exact hkey' hkey
    rw [Function.update_of_ne hne]
    exact h.has hkey' v

theorem Models.added (h : t.Models path map) {t' : KTrie K} (hkey : key.bytes ≠ [])
    (hunset : ∀ v, ¬ t.Has path key.bytes v) (hadds : t.Adds t' path key.bytes obj) :
    ∃ path', t'.addElement.Models path' (Function.update map key (some obj)) := by
  obtain ⟨hbeside, path', hshape, -, hhas⟩ := hadds
  refine ⟨path', hshape.of_arrays rfl rfl rfl rfl, fun {key'} hkey' => ?_, fun {key'} hkey' v => ?_⟩
  · have hne : key' ≠ key := by
      rintro rfl
      exact hkey hkey'
    rw [Function.update_of_ne hne, h.emptyKey hkey']
    exact congrArg Option.join hbeside.empty.symm
  · refine Iff.trans ?_ (hhas key'.bytes v).symm
    by_cases hne : key' = key
    · rw [hne, Function.update_self, Option.some.injEq]
      simp [hunset]
    · have hbytes : key.bytes ≠ key'.bytes := fun heq => hne (ext_bytes heq.symm)
      rw [Function.update_of_ne hne, h.has hkey']
      simp [hbytes]

def Agrees (t : KTrie K) (map : CString → Option K) : Prop := ∃ path, t.Models path map

theorem insert_nil (hkey : key.bytes = []) :
    t.insert key obj = if t.empty.join.isSome then (t, false)
      else (addElement { t with empty := some (some obj) }, true) := by
  rw [KTrie.insert, hkey]

theorem insert_of_ne (hkey : key.bytes ≠ []) :
    t.insert key obj = t.insertFrom obj 1 key.bytes := by
  rw [KTrie.insert]
  split
  next hnil => exact absurd hnil hkey
  next => rfl

theorem Models.insert (h : t.Models path map) (hspares : t.overwritesRoot 1 key.bytes = false)
    (obj : K) :
    (t.call (.insert key obj)).2 = (Spec.call map (.insert key obj)).2 ∧
      (t.call (.insert key obj)).1.Agrees (Spec.call map (.insert key obj)).1 := by
  rw [KTrie.call, Spec.call]
  by_cases hkey : key.bytes = []
  · rw [insert_nil hkey, h.emptyKey hkey]
    split
    next => exact ⟨rfl, path, h⟩
    next => exact ⟨rfl, path, h.setEmpty hkey (some obj) _⟩
  · have hinserts := h.shape.insertFrom h.shape.rootMode key.noNul hkey hspares obj
    rw [insert_of_ne hkey]
    rw [h.shape.rootPath, List.nil_append] at hinserts
    generalize t.insertFrom obj 1 key.bytes = result at hinserts
    cases hinserts with
    | added hunset hadds =>
        have hnone : map key = none := by
          refine Option.eq_none_iff_forall_ne_some.mpr fun v hv => ?_
          exact hunset v ((h.has hkey v).mp hv)
        rw [hnone]
        exact ⟨rfl, h.added hkey hunset hadds⟩
    | refused v hset =>
        rw [(h.has hkey v).mpr hset]
        exact ⟨rfl, path, h⟩

theorem Models.setValueOf (h : t.Models path map) {target : Target}
    (htarget : t.internalRetrieve key = some target) (value : Option K)
    (numElements : BitVec 32) :
    Models { t.setValueOf target value with numElements } path
      (Function.update map key value) := by
  by_cases hkey : key.bytes = []
  · rw [internalRetrieve_nil hkey, Option.map_eq_some_iff] at htarget
    obtain ⟨-, -, rfl⟩ := htarget
    exact h.setEmpty hkey value numElements
  · rw [internalRetrieve_of_ne hkey, Option.map_eq_some_iff] at htarget
    obtain ⟨j, hwalk, rfl⟩ := htarget
    obtain ⟨hused, hroot, hkeyOf⟩ := (h.shape.walk_eq_some key.noNul).mp hwalk
    have hhas : ∀ other v, (t.setValue j value).Has path other v ↔
        (other ≠ t.keyOf path j ∧ t.Has path other v) ∨ value = some v ∧ t.keyOf path j = other :=
      fun _ _ => (has_setValue value).trans (or_congr_left (h.shape.hasBut_of_used hused hroot))
    refine ⟨(h.shape.setValue hroot hused value).of_arrays rfl rfl rfl rfl, fun {key'} hkey' => ?_,
      fun {key'} hkey' v => ?_⟩
    · have hne : key' ≠ key := by
        rintro rfl
        exact hkey hkey'
      rw [Function.update_of_ne hne]
      exact h.emptyKey hkey'
    · refine Iff.trans ?_ (hhas key'.bytes v).symm
      rw [hkeyOf]
      by_cases hne : key' = key
      · rw [hne, Function.update_self]
        simp
      · have hbytes : key'.bytes ≠ key.bytes := fun heq => hne (ext_bytes heq)
        rw [Function.update_of_ne hne, h.has hkey']
        simp [hbytes, hbytes.symm]

theorem Models.remove (h : t.Models path map) (key : CString) :
    (t.call (.remove key)).2 = (Spec.call map (.remove key)).2 ∧
      (t.call (.remove key)).1.Agrees (Spec.call map (.remove key)).1 := by
  have hretrieve := h.retrieve key
  rw [KTrie.retrieve] at hretrieve
  rw [KTrie.call, Spec.call, KTrie.remove, ← hretrieve]
  cases htarget : t.internalRetrieve key with
  | none => exact ⟨rfl, path, h⟩
  | some target =>
      simp only [Option.bind_some]
      by_cases hset : (t.valueOf target).isSome
      · simp only [if_pos hset]
        exact ⟨trivial, path, h.setValueOf htarget none _⟩
      · simp only [if_neg hset]
        exact ⟨trivial, path, h⟩

end

theorem Agrees.call {t : KTrie K} {map : CString → Option K} {c : Call K} (h : t.Agrees map)
    (hspares : t.Spares c) :
    (t.call c).2 = (Spec.call map c).2 ∧ (t.call c).1.Agrees (Spec.call map c).1 := by
  obtain ⟨path, hmodels⟩ := h
  cases c with
  | insert key obj => exact hmodels.insert hspares obj
  | remove key => exact hmodels.remove key
  | retrieve key => exact ⟨congrArg Answer.object (hmodels.retrieve key), path, hmodels⟩

theorem refinesMap_of_spares (calls : List (Call K))
    (h : Meets (next KTrie.call) Spares create calls) : RefinesMap calls :=
  answers_eq Agrees.call ⟨_, models_create⟩ h

def keyA : CString := ⟨[97], by decide⟩
def keyAb : CString := ⟨[97, 98], by decide⟩
def keyA1b : CString := ⟨[97, 1, 98], by decide⟩

theorem refinesMap_shared :
    RefinesMap [.insert keyA 1, .insert keyAb 2, .remove keyA, .retrieve keyAb] :=
  refinesMap_of_spares _ (by decide +kernel)

theorem not_refinesMap_keyA1b :
    ¬ RefinesMap [.insert keyA 1, .insert keyA1b 2, .retrieve keyA] := by
  rw [RefinesMap]
  decide +kernel

end KTrie

end

end AmxModC.Trie
