import AmxModC.Foundation.CString
import Mathlib.Data.List.Nodup
import Mathlib.Data.List.Range
import Mathlib.Data.List.Perm.Basic

namespace AmxModC.Modules

open Foundation

/-! CModule.cpp: the native lists of a module, and how the natives of another module take
the place of some of them. -/

/-- `AMX_NATIVE_INFO` -/
structure NativeInfo where
  name : CString
  func : Nat
deriving DecidableEq

/-- The entries of an array before the one whose `func` is null; `block` is the number of
an array that the module object made, and the arrays of the module itself have none. -/
structure NativeList where
  entries : List NativeInfo
  block : Option Nat
deriving DecidableEq

structure CModule where
  natives : List NativeList
  destroyableIndexes : List Nat
  /-- The number of arrays made. -/
  created : Nat
  /-- What `delete []` was called with. -/
  freed : List (Option Nat)
deriving DecidableEq

/-- The loop over `list`. -/
def found (list : List NativeInfo) (entry : NativeInfo) : Bool :=
  list.any fun override => strcmp entry.name.bytes override.name.bytes = 0

/-- The loop over `curlist` from number `j` on, with `changed` and `newlist`. -/
def scan (list : List NativeInfo) : Nat → List NativeInfo → Bool → List Nat → Bool × List Nat
  | _, [], changed, newlist => (changed, newlist)
  | j, entry :: rest, changed, newlist =>
      if found list entry then scan list (j + 1) rest true newlist
      else scan list (j + 1) rest changed (newlist ++ [j])

namespace CModule

def create : CModule := ⟨[], [], 0, []⟩

/-- `MNF_AddNatives` -/
def addNatives (m : CModule) (natives : List NativeInfo) : CModule :=
  { m with natives := m.natives ++ [⟨natives, none⟩] }

/-- The loop body of `rewriteNativeLists` for the list of number `i`. -/
def rewriteList (list : List NativeInfo) (m : CModule) (i : Nat) : CModule :=
  match m.natives[i]? with
  | none => m
  | some curlist =>
      let (changed, newlist) := scan list 0 curlist.entries false []
      if changed then
        let rlist := newlist.filterMap (curlist.entries[·]?)
        { m with
          natives := m.natives.set i ⟨rlist, some m.created⟩
          destroyableIndexes := m.destroyableIndexes ++ [i]
          created := m.created + 1 }
      else m

def rewriteNativeLists (m : CModule) (list : List NativeInfo) : CModule :=
  (List.range m.natives.length).foldl (rewriteList list) m

def clear (m : CModule) : CModule where
  natives := []
  destroyableIndexes := []
  created := m.created
  freed := m.freed ++ m.destroyableIndexes.map fun i => (m.natives[i]?).bind (·.block)

def registered (lists : List (List NativeInfo)) : CModule := lists.foldl addNatives create

def overridden (lists overrides : List (List NativeInfo)) : CModule :=
  overrides.foldl rewriteNativeLists (registered lists)

end CModule

/-! What stays of the native lists, and which of the arrays made on the way are deleted. -/

/-- The entries that a call with `list` leaves. -/
def stay (list entries : List NativeInfo) : List NativeInfo :=
  entries.filter fun entry => !found list entry

def hit (list entries : List NativeInfo) : Bool := entries.any (found list)

section

variable {list : List NativeInfo} {entry : NativeInfo}

theorem found_iff : found list entry = true ↔ ∃ override ∈ list, entry.name = override.name := by
  rw [found, List.any_eq_true]
  refine exists_congr fun override => and_congr_right fun _ => ?_
  rw [decide_eq_true_iff, strcmp_eq_zero, CString.ext_iff]

theorem scan_eq (list passed rest : List NativeInfo) (changed : Bool) (newlist : List Nat) :
    (scan list passed.length rest changed newlist).1 = (changed || hit list rest) ∧
      (scan list passed.length rest changed newlist).2.filterMap ((passed ++ rest)[·]?) =
        newlist.filterMap ((passed ++ rest)[·]?) ++ stay list rest := by
  induction rest generalizing passed changed newlist with
  | nil => exact ⟨(Bool.or_false _).symm, (List.append_nil _).symm⟩
  | cons entry rest ih =>
      have hlength : passed.length + 1 = (passed ++ [entry]).length := by
        rw [List.length_append, List.length_singleton]
      have happend : passed ++ entry :: rest = (passed ++ [entry]) ++ rest := by
        rw [List.append_assoc, List.singleton_append]
      rw [scan, happend, hlength, hit, List.any_cons, stay]
      by_cases hfound : found list entry = true
      · obtain ⟨hchanged, hkept⟩ := ih (passed ++ [entry]) true newlist
        rw [if_pos hfound, List.filter_cons_of_neg (by rw [hfound]; decide), hfound, Bool.true_or,
          Bool.or_true]
        exact ⟨hchanged.trans (Bool.true_or _), hkept⟩
      · obtain ⟨hchanged, hkept⟩ := ih (passed ++ [entry]) changed (newlist ++ [passed.length])
        have hcurrent : ((passed ++ [entry]) ++ rest)[passed.length]? = some entry := by
          rw [← happend, List.getElem?_append_right le_rfl, Nat.sub_self, List.getElem?_cons_zero]
        have hfalse : found list entry = false := (Bool.not_eq_true _).mp hfound
        rw [if_neg hfound, List.filter_cons_of_pos (by rw [hfalse]; decide), hfalse, Bool.false_or]
        refine ⟨hchanged, hkept.trans ?_⟩
        rw [List.filterMap_append, List.filterMap_cons_some hcurrent, List.filterMap_nil,
          List.append_assoc, List.singleton_append]
        rfl

theorem scan_start (list entries : List NativeInfo) :
    (scan list 0 entries false []).1 = hit list entries ∧
      (scan list 0 entries false []).2.filterMap (entries[·]?) = stay list entries := by
  obtain ⟨hchanged, hkept⟩ := scan_eq list [] entries false []
  exact ⟨hchanged.trans (Bool.false_or _), hkept⟩

theorem stay_of_not_hit {entries : List NativeInfo} (h : hit list entries = false) :
    stay list entries = entries := by
  refine List.filter_eq_self.mpr fun entry hmem => ?_
  rw [(Bool.not_eq_true _).mp fun hfound =>
    Bool.false_ne_true (h.symm.trans (List.any_eq_true.mpr ⟨entry, hmem, hfound⟩))]
  rfl

end

namespace CModule

variable {list : List NativeInfo} {m : CModule} {i j : Nat} {curlist : NativeList}

/-! What the loop body does, by cases. -/

theorem rewriteList_of_hit (hcur : m.natives[i]? = some curlist)
    (hhit : hit list curlist.entries = true) :
    m.rewriteList list i =
      { m with
        natives := m.natives.set i ⟨stay list curlist.entries, some m.created⟩
        destroyableIndexes := m.destroyableIndexes ++ [i]
        created := m.created + 1 } := by
  obtain ⟨hchanged, hkept⟩ := scan_start list curlist.entries
  rw [rewriteList, hcur]
  change (if (scan list 0 curlist.entries false []).1 = true then _ else _) = _
  rw [if_pos (hchanged.trans hhit), hkept]

theorem rewriteList_of_not_hit (hcur : m.natives[i]? = some curlist)
    (hhit : hit list curlist.entries = false) : m.rewriteList list i = m := by
  obtain ⟨hchanged, -⟩ := scan_start list curlist.entries
  rw [rewriteList, hcur]
  change (if (scan list 0 curlist.entries false []).1 = true then _ else _) = _
  rw [if_neg (by rw [hchanged, hhit]; decide)]

theorem rewriteList_of_none (hcur : m.natives[i]? = none) : m.rewriteList list i = m := by
  rw [rewriteList, hcur]

/-- The entries of the list of number `j`. -/
def entriesAt (m : CModule) (j : Nat) : Option (List NativeInfo) := m.natives[j]?.map (·.entries)

/-- How often the list of number `j` is recorded. -/
def recorded (m : CModule) (j : Nat) : Nat := m.destroyableIndexes.count j

def hitAt (list : List NativeInfo) (m : CModule) (j : Nat) : Bool :=
  (m.entriesAt j).any (hit list)

theorem entriesAt_rewriteList (j : Nat) :
    (m.rewriteList list i).entriesAt j =
      if i = j then (m.entriesAt j).map (stay list) else m.entriesAt j := by
  cases hcur : m.natives[i]? with
  | none =>
      rw [rewriteList_of_none hcur]
      split
      next heq => rw [entriesAt, ← heq, hcur]; rfl
      next => rfl
  | some curlist =>
      have hlt : i < m.natives.length := (List.getElem?_eq_some_iff.mp hcur).1
      have hentries : m.entriesAt i = some curlist.entries := by rw [entriesAt, hcur]; rfl
      cases hhit : hit list curlist.entries with
      | false =>
          rw [rewriteList_of_not_hit hcur hhit]
          split
          next heq => rw [← heq, hentries, Option.map_some, stay_of_not_hit hhit]
          next => rfl
      | true =>
          rw [rewriteList_of_hit hcur hhit]
          split
          next heq =>
            rw [← heq, hentries, entriesAt, List.getElem?_set_self hlt]
            rfl
          next hne => rw [entriesAt, List.getElem?_set_ne hne]; rfl

theorem recorded_rewriteList (j : Nat) :
    (m.rewriteList list i).recorded j =
      m.recorded j + if i = j ∧ hitAt list m j = true then 1 else 0 := by
  cases hcur : m.natives[i]? with
  | none =>
      have hat : hitAt list m i = false := by rw [hitAt, entriesAt, hcur]; rfl
      rw [rewriteList_of_none hcur, if_neg, Nat.add_zero]
      rintro ⟨rfl, hhit⟩
      exact Bool.false_ne_true (hat.symm.trans hhit)
  | some curlist =>
      have hat : hitAt list m i = hit list curlist.entries := by rw [hitAt, entriesAt, hcur]; rfl
      cases hhit : hit list curlist.entries with
      | false =>
          rw [rewriteList_of_not_hit hcur hhit, if_neg, Nat.add_zero]
          rintro ⟨rfl, htrue⟩
          exact Bool.false_ne_true (hhit.symm.trans (hat.symm.trans htrue))
      | true =>
          rw [rewriteList_of_hit hcur hhit, recorded, List.count_append, List.count_singleton]
          by_cases heq : i = j
          · rw [if_pos (beq_iff_eq.mpr heq), if_pos ⟨heq, heq ▸ hat.trans hhit⟩]
            rfl
          · rw [if_neg (by simpa using heq), if_neg fun h => heq h.1]
            rfl

/-! The loop over the lists, and the calls one after another. -/

theorem entriesAt_rewriteLists (list : List NativeInfo) (m : CModule) (n j : Nat) :
    ((List.range n).foldl (rewriteList list) m).entriesAt j =
      if j < n then (m.entriesAt j).map (stay list) else m.entriesAt j := by
  induction n with
  | zero => rfl
  | succ n ih =>
      rw [List.range_succ, List.foldl_concat, entriesAt_rewriteList, ih]
      rcases Nat.lt_trichotomy j n with hlt | rfl | hgt
      · rw [if_neg (by omega), if_pos hlt, if_pos (by omega)]
      · rw [if_pos rfl, if_neg (lt_irrefl j), if_pos (Nat.lt_succ_self j)]
      · rw [if_neg (by omega), if_neg (by omega), if_neg (by omega)]

theorem recorded_rewriteLists (list : List NativeInfo) (m : CModule) (n j : Nat) :
    ((List.range n).foldl (rewriteList list) m).recorded j =
      m.recorded j + if j < n ∧ hitAt list m j = true then 1 else 0 := by
  induction n with
  | zero => rw [if_neg fun h => Nat.not_lt_zero j h.1]; rfl
  | succ n ih =>
      rw [List.range_succ, List.foldl_concat, recorded_rewriteList, ih]
      by_cases heq : n = j
      · -- the list of number `j` is as it was when its turn comes
        have hat : hitAt list ((List.range n).foldl (rewriteList list) m) j = hitAt list m j := by
          rw [hitAt, entriesAt_rewriteLists, if_neg (by omega), hitAt]
        rw [hat, if_neg fun h => absurd h.1 (by omega), Nat.add_zero]
        exact congrArg _ (if_congr (and_congr_left fun _ => iff_of_true heq (by omega)) rfl rfl)
      · rw [if_neg fun h : n = j ∧ _ => heq h.1, Nat.add_zero]
        exact congrArg _ (if_congr (and_congr_left fun _ => by omega) rfl rfl)

theorem entriesAt_eq_none (h : m.natives.length ≤ j) : m.entriesAt j = none := by
  rw [entriesAt, List.getElem?_eq_none h]
  rfl

theorem entriesAt_rewriteNativeLists (list : List NativeInfo) (m : CModule) (j : Nat) :
    (m.rewriteNativeLists list).entriesAt j = (m.entriesAt j).map (stay list) := by
  rw [rewriteNativeLists, entriesAt_rewriteLists]
  split
  next => rfl
  next hge => rw [entriesAt_eq_none (Nat.le_of_not_lt hge)]; rfl

theorem recorded_rewriteNativeLists (list : List NativeInfo) (m : CModule) (j : Nat) :
    (m.rewriteNativeLists list).recorded j =
      m.recorded j + if hitAt list m j = true then 1 else 0 := by
  rw [rewriteNativeLists, recorded_rewriteLists]
  refine congrArg _ (if_congr (and_iff_right_of_imp fun hhit => ?_) rfl rfl)
  refine Nat.lt_of_not_le fun hge => ?_
  rw [hitAt, entriesAt_eq_none hge] at hhit
  exact Bool.false_ne_true hhit

end CModule

def stayAll (overrides : List (List NativeInfo)) (entries : List NativeInfo) : List NativeInfo :=
  overrides.foldl (fun entries list => stay list entries) entries

def hits : List (List NativeInfo) → List NativeInfo → Nat
  | [], _ => 0
  | list :: rest, entries =>
      (if hit list entries = true then 1 else 0) + hits rest (stay list entries)

namespace CModule

theorem entriesAt_overrides (overrides : List (List NativeInfo)) (m : CModule) (j : Nat) :
    (overrides.foldl rewriteNativeLists m).entriesAt j =
      (m.entriesAt j).map (stayAll overrides) := by
  induction overrides generalizing m with
  | nil => exact Option.map_id'.symm
  | cons list rest ih =>
      rw [List.foldl_cons, ih, entriesAt_rewriteNativeLists, Option.map_map]
      rfl

theorem recorded_overrides (overrides : List (List NativeInfo)) {m : CModule} {j : Nat}
    {entries : List NativeInfo} (hentries : m.entriesAt j = some entries) :
    (overrides.foldl rewriteNativeLists m).recorded j = m.recorded j + hits overrides entries := by
  induction overrides generalizing m entries with
  | nil => rfl
  | cons list rest ih =>
      have hnext : (m.rewriteNativeLists list).entriesAt j = some (stay list entries) := by
        rw [entriesAt_rewriteNativeLists, hentries, Option.map_some]
      rw [List.foldl_cons, ih hnext, recorded_rewriteNativeLists, hitAt, hentries,
        Option.any_some, hits, Nat.add_assoc]

end CModule

/-! The arrays made on the way. -/

structure CModule.Linked (m : CModule) : Prop where
  created : m.destroyableIndexes.length = m.created
  held : ∀ i (curlist : NativeList) k, m.natives[i]? = some curlist → curlist.block = some k →
    m.destroyableIndexes[k]? = some i
  replaced : ∀ i ∈ m.destroyableIndexes, ∃ (curlist : NativeList) (k : Nat),
    m.natives[i]? = some curlist ∧ curlist.block = some k
  kept : m.freed = []

namespace CModule

variable {m : CModule}

theorem Linked.rewriteList (h : m.Linked) (list : List NativeInfo) (i : Nat) :
    (m.rewriteList list i).Linked := by
  cases hcur : m.natives[i]? with
  | none => rwa [rewriteList_of_none hcur]
  | some curlist =>
      have hlt : i < m.natives.length := (List.getElem?_eq_some_iff.mp hcur).1
      cases hhit : hit list curlist.entries with
      | false => rwa [rewriteList_of_not_hit hcur hhit]
      | true =>
          rw [rewriteList_of_hit hcur hhit]
          refine ⟨by rw [List.length_append, h.created, List.length_singleton], ?_, ?_, h.kept⟩
          · intro j listOf k hat hblock
            by_cases heq : i = j
            · subst heq
              rw [List.getElem?_set_self hlt] at hat
              obtain rfl := Option.some.inj hat
              obtain rfl : m.created = k := Option.some.inj hblock
              rw [← h.created, List.getElem?_append_right le_rfl, Nat.sub_self,
                List.getElem?_cons_zero]
            · rw [List.getElem?_set_ne heq] at hat
              have hheld := h.held j listOf k hat hblock
              rwa [List.getElem?_append_left (List.getElem?_eq_some_iff.mp hheld).1]
          · intro j hmem
            by_cases heq : i = j
            · exact heq ▸ ⟨_, _, List.getElem?_set_self hlt, rfl⟩
            · have hbefore : j ∈ m.destroyableIndexes :=
                (List.mem_append.mp hmem).resolve_right fun hlast =>
                  heq (List.mem_singleton.mp hlast).symm
              obtain ⟨listOf, k, hat, hblock⟩ := h.replaced j hbefore
              exact ⟨listOf, k, (List.getElem?_set_ne heq).trans hat, hblock⟩

theorem Linked.rewriteNativeLists (h : m.Linked) (list : List NativeInfo) :
    (m.rewriteNativeLists list).Linked :=
  List.foldlRecOn (motive := Linked) _ _ h fun _ hm i _ => hm.rewriteList list i

theorem Linked.overrides (h : m.Linked) (overrides : List (List NativeInfo)) :
    (overrides.foldl CModule.rewriteNativeLists m).Linked :=
  List.foldlRecOn (motive := Linked) _ _ h fun _ hm list _ => hm.rewriteNativeLists list

theorem Linked.freed_clear (h : m.Linked) (hnodup : m.destroyableIndexes.Nodup) :
    m.clear.freed = (List.range m.created).map some := by
  rw [clear, h.kept, List.nil_append]
  refine List.ext_getElem ?_ fun k hk hk' => ?_
  · rw [List.length_map, List.length_map, List.length_range, h.created]
  · rw [List.length_map] at hk
    rw [List.getElem_map, List.getElem_map, List.getElem_range]
    obtain ⟨curlist, k', hcur, hblock⟩ := h.replaced _ (List.getElem_mem hk)
    have hheld := h.held _ curlist k' hcur hblock
    have hsame : k' = k := hnodup.getElem_inj_iff.mp (List.getElem?_eq_some_iff.mp hheld).2
    rw [hcur, Option.bind_some, hblock, hsame]

theorem Linked.freed_once_iff (h : m.Linked) :
    m.clear.freed.Perm ((List.range m.created).map some) ↔ m.destroyableIndexes.Nodup := by
  refine ⟨fun hperm => ?_, fun hnodup => (h.freed_clear hnodup) ▸ List.Perm.refl _⟩
  have hnodup : m.clear.freed.Nodup :=
    hperm.nodup_iff.mpr (List.nodup_range.map (Option.some_injective Nat))
  rw [clear, h.kept, List.nil_append] at hnodup
  exact hnodup.of_map

theorem natives_registered (lists : List (List NativeInfo)) :
    registered lists = ⟨lists.map (⟨·, none⟩), [], 0, []⟩ := by
  have hfold : ∀ done, (lists.foldl addNatives ⟨done, [], 0, []⟩) =
      ⟨done ++ lists.map (⟨·, none⟩), [], 0, []⟩ := by
    induction lists with
    | nil => exact fun done => by rw [List.map_nil, List.append_nil]; rfl
    | cons list rest ih =>
        intro done
        rw [List.foldl_cons, addNatives, ih, List.append_assoc]
        rfl
  exact hfold []

theorem linked_registered (lists : List (List NativeInfo)) : (registered lists).Linked := by
  rw [natives_registered]
  refine ⟨rfl, fun i curlist k hcur hblock => ?_, fun i hmem => absurd hmem List.not_mem_nil, rfl⟩
  obtain ⟨entries, -, rfl⟩ := List.mem_map.mp (List.mem_of_getElem? hcur)
  cases hblock

theorem entriesAt_registered (lists : List (List NativeInfo)) (j : Nat) :
    (registered lists).entriesAt j = lists[j]? := by
  rw [entriesAt, natives_registered, List.getElem?_map, Option.map_map]
  exact Option.map_id'

theorem nodup_overridden_iff (lists overrides : List (List NativeInfo)) :
    (overridden lists overrides).destroyableIndexes.Nodup ↔
      ∀ entries ∈ lists, hits overrides entries ≤ 1 := by
  have hrecorded : ∀ j entries, lists[j]? = some entries →
      (overridden lists overrides).recorded j = hits overrides entries := by
    intro j entries hentries
    rw [overridden, recorded_overrides overrides ((entriesAt_registered lists j).trans hentries),
      recorded, natives_registered, List.count_nil, Nat.zero_add]
  have hlinked := (linked_registered lists).overrides overrides
  rw [List.nodup_iff_count_le_one]
  constructor
  · intro hcount entries hmem
    obtain ⟨j, hentries⟩ := List.mem_iff_getElem?.mp hmem
    exact hrecorded j entries hentries ▸ hcount j
  · intro hhits j
    by_cases hmem : j ∈ (overridden lists overrides).destroyableIndexes
    · obtain ⟨curlist, -, hcur, -⟩ := hlinked.replaced j hmem
      have hat := entriesAt_overrides overrides (registered lists) j
      rw [entriesAt_registered] at hat
      cases hentries : lists[j]? with
      | none =>
          have hsome : (overridden lists overrides).entriesAt j = some curlist.entries := by
            rw [entriesAt, overridden, hcur]
            rfl
          rw [hentries] at hat
          exact absurd (hsome.symm.trans hat) (by simp)
      | some entries =>
          rw [← recorded, hrecorded j entries hentries]
          exact hhits entries (List.mem_of_getElem? hentries)
    · rw [List.count_eq_zero_of_not_mem hmem]
      exact Nat.zero_le 1

end CModule

/-! The calls that take something out of a list are those that are the first to override
one of its natives. -/

def firstOverride (overrides : List (List NativeInfo)) (entry : NativeInfo) : Option Nat :=
  overrides.findIdx? fun list => list.any fun override => override.name = entry.name

section

variable {overrides : List (List NativeInfo)} {entries list : List NativeInfo}
  {entry : NativeInfo}

theorem any_name_eq_found :
    (list.any fun override => override.name = entry.name) = found list entry := by
  rw [Bool.eq_iff_iff, found_iff, List.any_eq_true]
  exact exists_congr fun override => and_congr_right fun _ =>
    decide_eq_true_iff.trans eq_comm

theorem firstOverride_cons :
    firstOverride (list :: overrides) entry =
      if found list entry = true then some 0
      else (firstOverride overrides entry).map (· + 1) := by
  rw [firstOverride, List.findIdx?_cons, any_name_eq_found]
  rfl

theorem stayAll_eq :
    stayAll overrides entries =
      entries.filter fun entry => (firstOverride overrides entry).isNone := by
  induction overrides generalizing entries with
  | nil => exact (List.filter_eq_self.mpr fun _ _ => rfl).symm
  | cons list rest ih =>
      rw [stayAll, List.foldl_cons, ← stayAll, ih, stay, List.filter_filter]
      refine List.filter_congr fun entry _ => ?_
      rw [firstOverride_cons]
      cases hfound : found list entry with
      | true => rw [if_pos rfl]; exact Bool.and_false _
      | false => rw [if_neg Bool.false_ne_true, Option.isNone_map]; exact Bool.and_true _

theorem hits_eq_zero_iff :
    hits overrides entries = 0 ↔ ∀ entry ∈ entries, firstOverride overrides entry = none := by
  induction overrides generalizing entries with
  | nil => exact iff_of_true rfl fun _ _ => rfl
  | cons list rest ih =>
      rw [hits, Nat.add_eq_zero_iff]
      cases hhit : hit list entries with
      | true =>
          obtain ⟨entry, hmem, hfound⟩ := List.any_eq_true.mp hhit
          refine iff_of_false (fun h => absurd h.1 (by decide)) fun h => ?_
          have hfirst := h entry hmem
          rw [firstOverride_cons, if_pos hfound] at hfirst
          cases hfirst
      | false =>
          rw [stay_of_not_hit hhit, ih, if_neg Bool.false_ne_true, and_iff_right rfl]
          refine forall_congr' fun entry => forall_congr' fun hmem => ?_
          rw [firstOverride_cons, if_neg (List.any_eq_false.mp hhit entry hmem),
            Option.map_eq_none_iff]

def OneOverride (overrides : List (List NativeInfo)) (entries : List NativeInfo) : Prop :=
  ∀ entry ∈ entries, ∀ entry' ∈ entries, ∀ i i', firstOverride overrides entry = some i →
    firstOverride overrides entry' = some i' → i = i'

theorem hits_le_one_iff : hits overrides entries ≤ 1 ↔ OneOverride overrides entries := by
  induction overrides generalizing entries with
  | nil => exact iff_of_true (Nat.zero_le 1) fun _ _ _ _ _ _ hi _ => by cases hi
  | cons list rest ih =>
      rw [hits]
      cases hhit : hit list entries with
      | true =>
          obtain ⟨first, hmem, hfound⟩ := List.any_eq_true.mp hhit
          have hfirst : firstOverride (list :: rest) first = some 0 := by
            rw [firstOverride_cons, if_pos hfound]
          have hzero : 1 + hits rest (stay list entries) ≤ 1 ↔ hits rest (stay list entries) = 0 := by
            omega
          rw [if_pos rfl, hzero, hits_eq_zero_iff]
          constructor
          · intro hnone
            have hfirsts : ∀ entry ∈ entries, ∀ i,
                firstOverride (list :: rest) entry = some i → i = 0 := by
              intro entry hnative i hi
              rw [firstOverride_cons] at hi
              split at hi
              next => exact (Option.some.inj hi).symm
              next hstays =>
                have hin : entry ∈ stay list entries :=
                  List.mem_filter.mpr ⟨hnative, by rw [(Bool.not_eq_true _).mp hstays]; rfl⟩
                rw [hnone entry hin] at hi
                cases hi
            intro entry hnative entry' hnative' i i' hi hi'
            rw [hfirsts entry hnative i hi, hfirsts entry' hnative' i' hi']
          · intro hone entry hin
            obtain ⟨hnative, hstays⟩ := List.mem_filter.mp hin
            rw [Option.eq_none_iff_forall_ne_some]
            intro i hi
            have hnext : firstOverride (list :: rest) entry = some (i + 1) := by
              rw [Bool.not_eq_true'] at hstays
              rw [firstOverride_cons, hstays, if_neg Bool.false_ne_true, hi, Option.map_some]
            cases hone first hmem entry hnative 0 (i + 1) hfirst hnext
      | false =>
          have hnext : ∀ entry ∈ entries, firstOverride (list :: rest) entry =
              (firstOverride rest entry).map (· + 1) := by
            intro entry hmem
            rw [firstOverride_cons, if_neg (List.any_eq_false.mp hhit entry hmem)]
          rw [stay_of_not_hit hhit, if_neg Bool.false_ne_true, Nat.zero_add, ih]
          constructor
          · intro hone entry hmem entry' hmem' i i' hi hi'
            rw [hnext entry hmem] at hi
            rw [hnext entry' hmem'] at hi'
            obtain ⟨k, hk, rfl⟩ := Option.map_eq_some_iff.mp hi
            obtain ⟨k', hk', rfl⟩ := Option.map_eq_some_iff.mp hi'
            rw [hone entry hmem entry' hmem' k k' hk hk']
          · intro hone entry hmem entry' hmem' i i' hi hi'
            refine Nat.succ.inj (hone entry hmem entry' hmem' (i + 1) (i' + 1) ?_ ?_)
            · rw [hnext entry hmem, hi, Option.map_some]
            · rw [hnext entry' hmem', hi', Option.map_some]

end

namespace CModule

theorem entries_overridden (lists overrides : List (List NativeInfo)) :
    (overridden lists overrides).natives.map (·.entries) =
      lists.map (List.filter fun entry => (firstOverride overrides entry).isNone) := by
  refine List.ext_getElem? fun j => ?_
  rw [List.getElem?_map, List.getElem?_map, ← entriesAt, overridden, entriesAt_overrides,
    entriesAt_registered]
  exact congrArg (fun f => lists[j]?.map f) (funext fun entries => stayAll_eq)

/-- The lists are the old ones without the overridden natives, and `clear` deletes every
array made on the way once. -/
def Overrides (lists overrides : List (List NativeInfo)) (m : CModule) : Prop :=
  m.natives.map (·.entries) = lists.map (List.filter fun entry =>
      !overrides.any fun list => list.any fun override => override.name = entry.name) ∧
    m.clear.freed.Perm ((List.range m.created).map some)

theorem overrides_iff (lists overrides : List (List NativeInfo)) :
    (overridden lists overrides).Overrides lists overrides ↔
      ∀ entries ∈ lists, OneOverride overrides entries := by
  have hentries := entries_overridden lists overrides
  have hlinked : (overridden lists overrides).Linked :=
    (linked_registered lists).overrides overrides
  rw [Overrides, hlinked.freed_once_iff, nodup_overridden_iff]
  refine (and_iff_right (hentries.trans ?_)).trans
    (forall_congr' fun _ => forall_congr' fun _ => hits_le_one_iff)
  refine congrArg (fun f => lists.map (List.filter f)) (funext fun entry => ?_)
  rw [firstOverride, List.findIdx?_isNone, List.not_any_eq_all_not]
  refine List.all_congr rfl fun list => ?_
  rw [decide_not, Bool.decide_eq_true]

theorem overrides_twice :
    ¬ ∀ lists overrides, (overridden lists overrides).Overrides lists overrides := fun h =>
  absurd (h [[⟨⟨[120], by decide⟩, 1⟩, ⟨⟨[121], by decide⟩, 2⟩]]
    [[⟨⟨[120], by decide⟩, 3⟩], [⟨⟨[121], by decide⟩, 4⟩]]).2 (by decide)

end CModule

end AmxModC.Modules
