import Mathlib.Data.List.Induction
import AmxModC.Trie.Refinement
import AmxModC.Trie.Shape

namespace AmxModC.Trie

open Foundation

/-! What a slot remembers of all that was stored in it. -/

inductive Stored
  | nothing
  | cell (value : Cell)
  | string (value : CellString)
  | array (cells : List Cell)

def Stored.after (stored : Stored) : Store → Stored
  | .cell value => .cell value
  | .string value => .string value
  | .array value size =>
      if size ≤ 0 then stored else .array ((List.range size.toNat).map value)

def lastStored (stores : List Store) : Stored := stores.foldl Stored.after .nothing

def Store.cells : Store → Nat
  | .cell _ => 0
  | .string value => value.1.length + 1
  | .array _ size => size.toNat

def Store.isCell : Store → Bool
  | .cell _ => true
  | _ => false

/-- The most cells that a value took since the last `TrieSetCell`. -/
def longest (stores : List Store) : Nat :=
  ((stores.reverse.takeWhile fun store => !store.isCell).map Store.cells).foldr max 0

section

variable {stores : List Store}

theorem lastStored_concat (store : Store) :
    lastStored (stores ++ [store]) = (lastStored stores).after store := by
  simp [lastStored]

theorem longest_concat (store : Store) :
    longest (stores ++ [store]) =
      if store.isCell then 0 else max store.cells (longest stores) := by
  cases hcell : store.isCell with
  | true => simp [longest, hcell]
  | false => simp [longest, hcell]

end

def readString (cells : List Cell) : Option (List Cell) :=
  if 0 ∈ cells then some (cells.takeWhile (· ≠ 0)) else none

theorem readString_append {chars : List Cell} (hchars : 0 ∉ chars) (rest : List Cell) :
    readString (chars ++ 0 :: rest) = some chars := by
  have hne : ∀ cell ∈ chars, decide (cell ≠ 0) = true :=
    fun cell hmem => decide_eq_true fun heq => hchars (heq ▸ hmem)
  rw [readString, if_pos (by simp), List.takeWhile_append_of_pos hne]
  simp

theorem readString_of_not_mem {cells : List Cell} (hcells : 0 ∉ cells) :
    readString cells = none := if_neg hcells

namespace Stored

/-! What the getters are to give. -/

def GivesCell (out : Cell) (result : Bool × Cell) : Stored → Prop
  | .cell value => result = (true, value)
  | _ => result = (false, out)

def GivesString (out : List Cell) (result : Bool × List Cell) : Stored → Prop
  | .string value => result.1 = true ∧ result.2.length = out.length ∧
      (out ≠ [] → readString result.2 = some (value.1.take (out.length - 1)))
  | _ => result = (false, out)

def GivesArray (out : List Cell) (result : Bool × List Cell) : Stored → Prop
  | .array cells => result = (true, cells.take out.length ++ out.drop cells.length)
  | _ => result = (false, out)

def FitsString (size : Nat) : Stored → Prop
  | .string value => size = 0 ∨ value.1.length < size
  | _ => True

def FitsArray (size cellcount : Nat) : Stored → Prop
  | .array cells => size ≤ cells.length ∨ cellcount ≤ cells.length
  | _ => True

end Stored

namespace TrieData

def Holds (td : TrieData) : Stored → Prop
  | .nothing => td.type = .unset
  | .cell value => td.type = .cell ∧ td.cell = value
  | .string value => td.type = .string ∧ value.1 ++ [0] <+: td.data
  | .array cells => td.type = .array ∧ cells <+: td.data

section

variable {td : TrieData} {stored : Stored}

theorem cellcount_write (td : TrieData) {cells : List Cell} {cellcount : Nat}
    (hlength : cells.length = cellcount) :
    ((td.needCells cellcount).write cells).cellcount = max cellcount td.cellcount := by
  unfold needCells
  split
  next hlt =>
    simp only [write, TrieData.cellcount, List.length_append, List.length_drop,
      List.length_replicate]
    unfold TrieData.cellcount at hlt
    omega
  next hle =>
    simp only [write, TrieData.cellcount, List.length_append, List.length_drop]
    unfold TrieData.cellcount at hle
    omega

theorem Holds.store (h : td.Holds stored) (store : Store) :
    (td.store store).Holds (stored.after store) := by
  cases store with
  | cell value => exact ⟨rfl, rfl⟩
  | string value => exact ⟨rfl, List.prefix_append _ _⟩
  | array value size =>
      by_cases hsize : size ≤ 0
      · simpa [TrieData.store, setArray, Stored.after, hsize] using h
      · simp only [TrieData.store, setArray, Stored.after, hsize, if_false]
        exact ⟨rfl, List.prefix_append _ _⟩

theorem cellcount_store (td : TrieData) (store : Store) :
    (td.store store).cellcount = if store.isCell then 0 else max store.cells td.cellcount := by
  cases store with
  | cell value => rfl
  | string value => exact cellcount_write td (by simp)
  | array value size =>
      by_cases hsize : size ≤ 0
      · simp [TrieData.store, setArray, hsize, Store.cells, Store.isCell,
          Int.toNat_of_nonpos hsize]
      · simp only [TrieData.store, setArray, hsize, if_false]
        exact cellcount_write td (by simp)

theorem holds_foldl (stores : List Store) :
    (stores.foldl TrieData.store new).Holds (lastStored stores) := by
  induction stores using List.reverseRecOn with
  | nil => rfl
  | append_singleton stores store ih =>
      rw [List.foldl_append, lastStored_concat]
      exact ih.store store

theorem cellcount_foldl (stores : List Store) :
    (stores.foldl TrieData.store new).cellcount = longest stores := by
  induction stores using List.reverseRecOn with
  | nil => rfl
  | append_singleton stores store ih =>
      rw [List.foldl_append, longest_concat, ← ih]
      exact cellcount_store _ store

/-! The getters. -/

theorem copy_of_le {cells rest : List Cell} (hdata : cells ++ rest = td.data) {out : List Cell}
    (hle : out.length ≤ cells.length) : td.copy out out.length = cells.take out.length := by
  have hcount : out.length ≤ td.cellcount := by
    rw [cellcount, ← hdata, List.length_append]
    omega
  rw [copy, ← hdata, List.take_append_of_le_length hle, Nat.min_eq_left hcount,
    List.drop_length, List.append_nil]

theorem length_copy (td : TrieData) (out : List Cell) :
    (td.copy out out.length).length = out.length := by
  simp only [copy, cellcount, List.length_append, List.length_take, List.length_drop]
  omega

theorem Holds.getCell (h : td.Holds stored) (out : Cell) :
    stored.GivesCell out (td.getCell out) := by
  cases stored with
  | nothing =>
      have htype : td.type = .unset := h
      simp [Stored.GivesCell, TrieData.getCell, htype]
  | cell value => simp [Stored.GivesCell, TrieData.getCell, h.1, h.2]
  | string value => simp [Stored.GivesCell, TrieData.getCell, h.1]
  | array cells => simp [Stored.GivesCell, TrieData.getCell, h.1]

theorem Holds.getArray_iff (h : td.Holds stored) (size : Nat) :
    (∀ out : List Cell, out.length = size → stored.GivesArray out (td.getArray out size)) ↔
      stored.FitsArray size td.cellcount := by
  cases stored with
  | nothing =>
      have htype : td.type = .unset := h
      simp [Stored.GivesArray, Stored.FitsArray, TrieData.getArray, htype]
  | cell value => simp [Stored.GivesArray, Stored.FitsArray, TrieData.getArray, h.1]
  | string value => simp [Stored.GivesArray, Stored.FitsArray, TrieData.getArray, h.1]
  | array cells =>
      obtain ⟨htype, rest, hdata⟩ := h
      have hresult : ∀ out : List Cell, td.getArray out size = (true, td.copy out size) := by
        intro out
        simp [TrieData.getArray, htype]
      simp only [Stored.GivesArray, Stored.FitsArray, hresult, Prod.mk.injEq, true_and]
      constructor
      · intro hgives
        by_contra hlong
        obtain ⟨hsize, hcount⟩ := not_or.mp hlong
        have hlt : cells.length < td.data.length := Nat.not_le.mp hcount
        -- an output that differs from the buffer behind the array
        have hcopied := hgives (List.replicate size (td.data[cells.length] + 1)) (by simp)
        have hat := congrArg (·[cells.length]?) hcopied
        simp [copy, Nat.not_le.mp hsize, hlt, cellcount,
          Nat.min_eq_right (Nat.le_of_not_le hsize)] at hat
      · intro hfits out hout
        subst hout
        by_cases hle : out.length ≤ cells.length
        · rw [copy_of_le hdata hle, List.drop_eq_nil_of_le hle, List.append_nil]
        · have hcount : td.cellcount ≤ cells.length := hfits.resolve_left hle
          have hrest : rest = [] := by
            rw [cellcount, ← hdata, List.length_append] at hcount
            exact List.eq_nil_of_length_eq_zero (by omega)
          rw [copy, cellcount, ← hdata, hrest, List.append_nil,
            Nat.min_eq_right (Nat.le_of_not_le hle)]

theorem Holds.getString_iff (h : td.Holds stored) (size : Nat) :
    (∀ out : List Cell, out.length = size → stored.GivesString out (td.getString out size)) ↔
      stored.FitsString size := by
  cases stored with
  | nothing =>
      have htype : td.type = .unset := h
      simp [Stored.GivesString, Stored.FitsString, TrieData.getString, htype]
  | cell value => simp [Stored.GivesString, Stored.FitsString, TrieData.getString, h.1]
  | array cells => simp [Stored.GivesString, Stored.FitsString, TrieData.getString, h.1]
  | string value =>
      obtain ⟨htype, rest, hdata⟩ := h
      rw [List.append_assoc, List.singleton_append] at hdata
      have hresult : ∀ out : List Cell, td.getString out size = (true, td.copy out size) := by
        intro out
        simp [TrieData.getString, htype]
      simp only [Stored.GivesString, Stored.FitsString, hresult, true_and]
      constructor
      · intro hgives
        by_contra hlong
        obtain ⟨hsize, hlength⟩ := not_or.mp hlong
        have hle : (List.replicate size (0 : Cell)).length ≤ value.1.length := by
          simpa using Nat.not_lt.mp hlength
        obtain ⟨-, hread⟩ := hgives (List.replicate size 0) (by simp)
        have hcopy := copy_of_le hdata hle
        rw [List.length_replicate] at hcopy
        rw [hcopy, readString_of_not_mem fun hmem => value.2 (List.mem_of_mem_take hmem)] at hread
        exact absurd (hread (by simpa using hsize)) (by simp)
      · intro hfits out hout
        subst hout
        refine ⟨length_copy td out, fun hne => ?_⟩
        have hlt : value.1.length < out.length :=
          hfits.resolve_left fun hzero => hne (List.eq_nil_of_length_eq_zero hzero)
        obtain ⟨room, hroom⟩ := Nat.exists_eq_add_of_lt hlt
        have htake : td.data.take out.length = value.1 ++ 0 :: rest.take room := by
          rw [← hdata, hroom, Nat.add_assoc, List.take_length_add_append]
          rfl
        rw [copy, htake, List.append_assoc, List.cons_append, readString_append value.2,
          List.take_of_length_le (Nat.le_sub_one_of_lt hlt)]

end

end TrieData

/-! The natives on one key of a new trie. -/

namespace KTrie

section

variable {t : KTrie TrieData} {map : CString → Option TrieData} {key : CString}

theorem Agrees.retrieve (h : t.Agrees map) (key : CString) : t.retrieve key = map key := by
  obtain ⟨path, hmodels⟩ := h
  exact hmodels.retrieve key

theorem Agrees.poke (h : t.Agrees map) (hkey : (map key).isSome) (td : TrieData) :
    (t.poke key td).Agrees (Function.update map key (some td)) := by
  rw [← h.retrieve key] at hkey
  obtain ⟨path, hmodels⟩ := h
  unfold KTrie.poke
  cases htarget : t.internalRetrieve key with
  | none => simp [KTrie.retrieve, htarget] at hkey
  | some target => exact ⟨path, hmodels.setValueOf htarget (some td) _⟩

theorem Agrees.insert (h : t.Agrees map) (hnone : map key = none)
    (hspares : t.overwritesRoot 1 key.bytes = false) (td : TrieData) :
    (t.insert key td).1.Agrees (Function.update map key (some td)) := by
  obtain ⟨path, hmodels⟩ := h
  have hinsert := (hmodels.insert hspares td).2
  simpa [KTrie.call, Spec.call, hnone] using hinsert

theorem Agrees.trieSet (h : t.Agrees map)
    (hspares : map key = none → t.overwritesRoot 1 key.bytes = false) (store : Store) :
    (t.trieSet key store).1.Agrees
      (Function.update map key (some (((map key).getD .new).store store))) := by
  unfold KTrie.trieSet
  rw [h.retrieve key]
  cases hkey : map key with
  | some td =>
      simp only [Option.isNone_some, Bool.false_eq_true, if_false, h.retrieve key, hkey]
      exact h.poke (by simp [hkey]) _
  | none =>
      have hinsert := h.insert hkey (hspares hkey) .new
      have hself : Function.update map key (some TrieData.new) key = some .new :=
        Function.update_self ..
      simp only [Option.isNone_none, if_true, hinsert.retrieve key, hself]
      have hsome : (Function.update map key (some TrieData.new) key).isSome := by rw [hself]; rfl
      have hpoke := hinsert.poke hsome (TrieData.new.store store)
      rwa [Function.update_idem] at hpoke

end

def trieRun (key : CString) (stores : List Store) : KTrie TrieData :=
  stores.foldl (fun t store => (t.trieSet key store).1) create

def slot (stores : List Store) : Option TrieData :=
  if stores = [] then none else some (stores.foldl TrieData.store .new)

theorem getD_slot (stores : List Store) :
    (slot stores).getD .new = stores.foldl TrieData.store .new := by
  unfold slot
  split
  next hnil => rw [hnil]; rfl
  next => rfl

theorem slot_concat (stores : List Store) (store : Store) :
    slot (stores ++ [store]) = some (((slot stores).getD .new).store store) := by
  rw [getD_slot]
  simp [slot]

theorem overwritesRoot_create (key : CString) :
    (create : KTrie TrieData).overwritesRoot 1 key.bytes = false := by
  cases hbytes : key.bytes with
  | nil => rfl
  | cons c rest =>
      have hpos : 0 < c.toNat := toNat_pos fun hc => key.noNul (by simp [hbytes, hc])
      have hzero : c.toNat ≠ 0 := Nat.ne_of_gt hpos
      have hne : 1 + c.toNat ≠ 1 := by omega
      have hmode : ((create : KTrie TrieData).base (1 + c.toNat)).mode = .unused := by
        simp only [create, internalClear, hne, if_false]
        split
        next => rfl
        next => rfl
      have hidx : ((create : KTrie TrieData).base 1).idx = 1 := rfl
      simp [overwritesRoot, hidx, hzero, hmode]

theorem agrees_trieRun (key : CString) (stores : List Store) :
    (trieRun key stores).Agrees (Function.update Spec.empty key (slot stores)) := by
  induction stores using List.reverseRecOn with
  | nil =>
      have hempty : Function.update Spec.empty key (slot []) = Spec.empty :=
        Function.update_eq_self key _
      rw [hempty]
      exact ⟨_, models_create⟩
  | append_singleton stores store ih =>
      have hspares : Function.update Spec.empty key (slot stores) key = none →
          (trieRun key stores).overwritesRoot 1 key.bytes = false := by
        intro hnone
        rw [Function.update_self] at hnone
        have hnil : stores = [] := by simpa [slot] using hnone
        rw [hnil]
        exact overwritesRoot_create key
      have hset := ih.trieSet hspares store
      rw [Function.update_idem, Function.update_self, ← slot_concat] at hset
      simpa [trieRun] using hset

theorem getD_retrieve_trieRun (key : CString) (stores : List Store) :
    ((trieRun key stores).retrieve key).getD .new = stores.foldl TrieData.store .new := by
  rw [(agrees_trieRun key stores).retrieve key, Function.update_self, getD_slot]

/-! A getter answers for a key that is not there as for a slot without a value. -/

theorem trieGetCell_eq (t : KTrie TrieData) (key : CString) (out : Cell) :
    t.trieGetCell key out = ((t.retrieve key).getD .new).getCell out := by
  unfold trieGetCell
  cases t.retrieve key with
  | none => rfl
  | some td => rfl

theorem trieGetString_eq (t : KTrie TrieData) (key : CString) (out : List Cell) (max : Int) :
    t.trieGetString key out max = ((t.retrieve key).getD .new).getString out max := by
  unfold trieGetString
  cases t.retrieve key with
  | none => rfl
  | some td => rfl

theorem trieGetArray_eq (t : KTrie TrieData) (key : CString) (out : List Cell) (max : Int) :
    t.trieGetArray key out max = ((t.retrieve key).getD .new).getArray out max := by
  unfold trieGetArray
  cases t.retrieve key with
  | none => rfl
  | some td => rfl

structure RemembersLast (key : CString) (stores : List Store) (size : Nat) : Prop where
  cell : ∀ out, (lastStored stores).GivesCell out ((trieRun key stores).trieGetCell key out)
  string : ∀ out, out.length = size →
    (lastStored stores).GivesString out ((trieRun key stores).trieGetString key out size)
  array : ∀ out, out.length = size →
    (lastStored stores).GivesArray out ((trieRun key stores).trieGetArray key out size)

/-- A slot remembers exactly the last value where a string has room in the output, and where
an array fills the output or is as long as any value before it. -/
theorem remembersLast_iff (key : CString) (stores : List Store) (size : Nat) :
    RemembersLast key stores size ↔ (lastStored stores).FitsString size ∧
      (lastStored stores).FitsArray size (longest stores) := by
  have hholds := TrieData.holds_foldl stores
  have hstring := hholds.getString_iff size
  have harray := hholds.getArray_iff size
  rw [TrieData.cellcount_foldl] at harray
  rw [← hstring, ← harray]
  constructor
  · intro h
    refine ⟨fun out hout => ?_, fun out hout => ?_⟩
    · simpa [trieGetString_eq, getD_retrieve_trieRun] using h.string out hout
    · simpa [trieGetArray_eq, getD_retrieve_trieRun] using h.array out hout
  · intro h
    refine ⟨fun out => ?_, fun out hout => ?_, fun out hout => ?_⟩
    · rw [trieGetCell_eq, getD_retrieve_trieRun]
      exact hholds.getCell out
    · rw [trieGetString_eq, getD_retrieve_trieRun]
      exact h.1 out hout
    · rw [trieGetArray_eq, getD_retrieve_trieRun]
      exact h.2 out hout

/-- An array of three cells, then one of a single cell. -/
theorem not_remembersLast_of_shorter :
    ¬∀ (key : CString) (stores : List Store) (size : Nat), RemembersLast key stores size := by
  intro hall
  have harray : trieGetArray _ keyA [0, 0, 0] 3 = (true, [9, 0, 0]) :=
    (hall keyA [.array (fun _ => 7) 3, .array (fun _ => 9) 1] 3).array [0, 0, 0] rfl
  rw [trieGetArray_eq, getD_retrieve_trieRun] at harray
  exact absurd harray (by decide)

end KTrie

end AmxModC.Trie
