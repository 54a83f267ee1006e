import AmxModC.Vault.Contents
import AmxModC.Vault.Model

namespace AmxModC.Vault

open Foundation Reader

/-! What the reader makes of what the writer wrote. -/

theorem reads_readUInt32 (num : BitVec 32) : Reads readUInt32 (writeUInt32 num) num :=
  reads_ofNat_number 4 num rfl

theorem reads_readInt32 (num : BitVec 32) : Reads readInt32 (writeInt32 num) num :=
  reads_ofNat_number 4 num rfl

theorem reads_readUInt16 (num : BitVec 16) : Reads readUInt16 (writeUInt16 num) num :=
  reads_ofNat_number 2 num rfl

theorem reads_readUInt8 (num : BitVec 8) : Reads readUInt8 (writeUInt8 num) num :=
  reads_ofNat_number 1 num rfl

theorem reads_readChars (s : CString) : Reads (readChars s.size) (writeChars s) s.bytes :=
  reads_take s.bytes

/-! The two buffers of `_ReadFromFile`. -/

namespace Buffer

variable {buffer : Buffer} {len : Nat} {chars : List Byte}

def Allocated (buffer : Buffer) : Prop :=
  ∃ memory, buffer.memory = some memory ∧ memory.length = buffer.oldlen + 1

/-- The buffer takes a string of this length: a null pointer is replaced only
when the string has a character. -/
def Accepts (buffer : Buffer) (len : Nat) : Prop :=
  buffer.Allocated ∨ 0 < len ∧ buffer.oldlen = 0

theorem grow_allocated (haccepts : buffer.Accepts len) : (buffer.grow len).Allocated := by
  rw [grow]
  split
  next => exact ⟨_, rfl, List.length_replicate⟩
  next hlen =>
      rcases haccepts with hallocated | ⟨hpos, hold⟩
      · exact hallocated
      · omega

theorem le_oldlen_grow (buffer : Buffer) (len : Nat) : len ≤ (buffer.grow len).oldlen := by
  rw [grow]
  split
  next => exact le_rfl
  next hlen => omega

theorem store_of_allocated (hallocated : buffer.Allocated) (hchars : chars.length ≤ buffer.oldlen) :
    ∃ rest, buffer.store chars = some (chars ++ 0 :: rest) ∧
      ({ buffer with memory := some (chars ++ 0 :: rest) } : Buffer).Allocated := by
  obtain ⟨memory, hmemory, hlength⟩ := hallocated
  refine ⟨memory.drop (chars.length + 1), ?_, _, rfl, ?_⟩
  · rw [store, hmemory, Option.bind_some, if_pos (by omega)]
  · simp [hlength]
    omega

theorem store_null : null.store chars = none := rfl

end Buffer

/-! One entry, then all of them. -/

abbrev Node := THashNode CString CString

def FitsFile (node : Node) : Prop := node.key.size ≤ 255 ∧ node.val.size ≤ 65535

instance (node : Node) : Decidable (FitsFile node) :=
  inferInstanceAs (Decidable (node.key.size ≤ 255 ∧ node.val.size ≤ 65535))

theorem FitsFile.key_size {node : Node} (h : FitsFile node) :
    (BitVec.ofNat 8 node.key.size).toNat = node.key.size := by
  rw [BitVec.toNat_ofNat]
  exact Nat.mod_eq_of_lt (Nat.lt_succ_of_le h.1)

theorem FitsFile.val_size {node : Node} (h : FitsFile node) :
    (BitVec.ofNat 16 node.val.size).toNat = node.val.size := by
  rw [BitVec.toNat_ofNat]
  exact Nat.mod_eq_of_lt (Nat.lt_succ_of_le h.2)

def insertNode (hash : VaultMap) (node : Node) : VaultMap :=
  hash.insert node.key node.val node.stamp

namespace ReadState

variable {state : ReadState} {node : Node}

def Allocated (state : ReadState) : Prop := state.key.Allocated ∧ state.val.Allocated

def Accepts (state : ReadState) (node : Node) : Prop :=
  state.key.Accepts node.key.size ∧ state.val.Accepts node.val.size

theorem Allocated.accepts (h : state.Allocated) (node : Node) : state.Accepts node :=
  ⟨.inl h.1, .inl h.2⟩

theorem enter_of_accepts (haccepts : state.Accepts node) :
    ∃ next, state.enter node.stamp node.key.size node.val.size node.key.bytes node.val.bytes =
        some next ∧
      next.Allocated ∧ next.hash = insertNode state.hash node := by
  obtain ⟨keyRest, hkey, hkeyNext⟩ := Buffer.store_of_allocated
    (Buffer.grow_allocated haccepts.1) (Buffer.le_oldlen_grow state.key node.key.size)
  obtain ⟨valRest, hval, hvalNext⟩ := Buffer.store_of_allocated
    (Buffer.grow_allocated haccepts.2) (Buffer.le_oldlen_grow state.val node.val.size)
  rw [enter, hkey, hval]
  refine ⟨_, rfl, ⟨hkeyNext, hvalNext⟩, ?_⟩
  rw [CString.ofMemory_terminated, CString.ofMemory_terminated]
  rfl

end ReadState

theorem reads_readNode (state : ReadState) {node : Node} (hfits : FitsFile node) :
    Reads (readNode state) (writeNode node)
      (state.enter node.stamp node.key.size node.val.size node.key.bytes node.val.bytes) := by
  have hkey := hfits.key_size
  have hval := hfits.val_size
  have hkeyChars := reads_readChars node.key
  have hvalChars := reads_readChars node.val
  rw [← hkey] at hkeyChars
  rw [← hval] at hvalChars
  rw [writeNode, List.append_assoc, List.append_assoc, List.append_assoc]
  refine (reads_readInt32 node.stamp).bind ?_
  refine (reads_readUInt8 _).bind ?_
  refine (reads_readUInt16 _).bind ?_
  refine hkeyChars.bind ?_
  have hlast := hvalChars.bind_pure fun valChars => state.enter node.stamp
    (BitVec.ofNat 8 node.key.size).toNat (BitVec.ofNat 16 node.val.size).toNat
    node.key.bytes valChars
  rw [hkey, hval] at hlast ⊢
  exact hlast

theorem readNodes_of_allocated
    {state : ReadState}
    {nodes : List Node}
    (hallocated : state.Allocated)
    (hfits : ∀ node ∈ nodes, FitsFile node)
    (rest : List Byte) :
    readNodes nodes.length state (nodes.flatMap writeNode ++ rest) =
      some (.ok, nodes.foldl insertNode state.hash) := by
  induction nodes generalizing state with
  | nil => rfl
  | cons node nodes ih =>
      obtain ⟨hnode, hnodes⟩ := List.forall_mem_cons.mp hfits
      obtain ⟨next, henter, hnext, hhash⟩ := ReadState.enter_of_accepts (hallocated.accepts node)
      have hread := reads_readNode state hnode (nodes.flatMap writeNode ++ rest)
      rw [henter] at hread
      rw [List.flatMap_cons, List.append_assoc, List.length_cons, readNodes, hread, List.foldl_cons,
        ← hhash]
      exact ih hnext hnodes

theorem readNodes_of_accepts
    (state : ReadState)
    {node : Node} {nodes : List Node}
    (haccepts : state.Accepts node)
    (hfits : ∀ other ∈ node :: nodes, FitsFile other)
    (rest : List Byte) :
    readNodes (nodes.length + 1) state ((node :: nodes).flatMap writeNode ++ rest) =
      some (.ok, nodes.foldl insertNode (insertNode state.hash node)) := by
  obtain ⟨hnode, hnodes⟩ := List.forall_mem_cons.mp hfits
  obtain ⟨next, henter, hnext, hhash⟩ := ReadState.enter_of_accepts haccepts
  have hread := reads_readNode state hnode (nodes.flatMap writeNode ++ rest)
  rw [henter] at hread
  rw [List.flatMap_cons, List.append_assoc, readNodes, hread, ← hhash]
  exact readNodes_of_allocated hnext hnodes rest

theorem readFromFile_saveToFile (h hash : VaultMap) :
    readFromFile (some (saveToFile h)) hash =
      readNodes (BitVec.ofNat 32 h.items).toInt.toNat ⟨.null, .null, hash⟩
        (h.nodes.flatMap writeNode) := by
  rw [saveToFile, List.append_assoc, List.append_assoc, readFromFile]
  simp only [reads_readUInt32 vaultMagic _, reads_readUInt16 vaultVersion _, ne_eq,
    not_true_eq_false, if_false]
  have hcount : readInt32 (writeUInt32 (BitVec.ofNat 32 h.items) ++ h.nodes.flatMap writeNode) =
      some (BitVec.ofNat 32 h.items, h.nodes.flatMap writeNode) := reads_readUInt32 _ _
  simp only [hcount]

theorem toInt_ofNat_of_lt {items : Nat} (hitems : items < 2 ^ 31) :
    (BitVec.ofNat 32 items).toInt.toNat = items := by
  rw [BitVec.toInt_eq_toNat_cond, BitVec.toNat_ofNat]
  split <;> omega

theorem toInt_ofNat_lt {items : Nat} (hitems : 2 ^ 31 ≤ items) :
    (BitVec.ofNat 32 items).toInt.toNat < items := by
  rw [BitVec.toInt_eq_toNat_cond, BitVec.toNat_ofNat]
  split <;> omega

/-! The map that a row of entries leaves behind. -/

section

variable {hash : VaultMap} {nodes : List Node}

theorem foldl_insertNode_wellFormed (hwf : hash.WellFormed) (nodes : List Node) :
    (nodes.foldl insertNode hash).WellFormed := by
  induction nodes generalizing hash with
  | nil => exact hwf
  | cons node nodes ih => exact ih (THash.insert_wellFormed hwf _ _ _)

theorem contents_foldl_insertNode
    (hwf : hash.WellFormed)
    (hdistinct : Distinct THashNode.key nodes)
    (key : CString) :
    (nodes.foldl insertNode hash).contents key =
      ((lookup THashNode.key nodes key).map fun node => (node.val, node.stamp)).or
        (hash.contents key) := by
  induction nodes generalizing hash with
  | nil => rfl
  | cons node nodes ih =>
      obtain ⟨hnode, hnodes⟩ := distinct_cons.mp hdistinct
      have hinsert := THash.contents_insert hwf node.key node.val node.stamp key
      rw [List.foldl_cons, insertNode, ih (THash.insert_wellFormed hwf _ _ _) hnodes, hinsert,
        lookup_cons]
      by_cases hkey : node.key = key
      · subst hkey
        rw [lookup_eq_none.mpr hnode]
        simp
      · rw [if_neg hkey, if_neg (Ne.symm hkey)]

end

/-! When the file can be read back. -/

/-- What the reader takes back as it was written: fewer entries than a signed
count can hold, and neither string of the entry that comes first empty. -/
def Restorable (h : VaultMap) : Prop :=
  h.nodes.length < 2 ^ 31 ∧ ∀ first ∈ h.nodes.head?, 0 < first.key.size ∧ 0 < first.val.size

instance (h : VaultMap) : Decidable (Restorable h) := by
  unfold Restorable
  infer_instance

section

variable {h hash : VaultMap}

theorem readFromFile_of_restorable
    (hitems : h.items = h.nodes.length)
    (hfits : ∀ node ∈ h.nodes, FitsFile node)
    (hrestorable : Restorable h)
    (hash : VaultMap) :
    readFromFile (some (saveToFile h)) hash = some (.ok, h.nodes.foldl insertNode hash) := by
  obtain ⟨hlength, hfirst⟩ := hrestorable
  rw [readFromFile_saveToFile, hitems, toInt_ofNat_of_lt hlength]
  cases hnodes : h.nodes with
  | nil => rfl
  | cons first rest =>
      rw [hnodes] at hfirst hfits
      obtain ⟨hkey, hval⟩ := hfirst first rfl
      have hread := readNodes_of_accepts ⟨.null, .null, hash⟩
        ⟨.inr ⟨hkey, rfl⟩, .inr ⟨hval, rfl⟩⟩ hfits []
      rw [List.append_nil] at hread
      exact hread

theorem readNodes_of_empty_string
    {first : Node}
    {entries : Nat}
    (hfits : FitsFile first)
    (hempty : first.key.size = 0 ∨ first.val.size = 0)
    (rest : List Byte) :
    readNodes (entries + 1) ⟨.null, .null, hash⟩ (writeNode first ++ rest) = none := by
  have hread := reads_readNode ⟨.null, .null, hash⟩ hfits rest
  have hfault : (⟨.null, .null, hash⟩ : ReadState).enter first.stamp first.key.size first.val.size
      first.key.bytes first.val.bytes = none := by
    rcases hempty with hkey | hval
    · rw [ReadState.enter, hkey]
      rfl
    · have hgrow : Buffer.null.grow first.val.size = .null := by rw [hval]; rfl
      simp [ReadState.enter, hgrow, Buffer.store_null]
  rw [hfault] at hread
  rw [readNodes, hread]

theorem readNodes_eq_some
    {front : List Node}
    {back : List Byte}
    {error : VaultError} {hash' : VaultMap}
    (hfits : ∀ node ∈ front, FitsFile node)
    (hread : readNodes front.length ⟨.null, .null, hash⟩ (front.flatMap writeNode ++ back) =
      some (error, hash')) :
    hash' = front.foldl insertNode hash ∧
      ∀ first ∈ front.head?, 0 < first.key.size ∧ 0 < first.val.size := by
  cases front with
  | nil =>
      cases hread
      exact ⟨rfl, by simp⟩
  | cons first front =>
      by_cases hempty : first.key.size = 0 ∨ first.val.size = 0
      · rw [List.flatMap_cons, List.append_assoc, List.length_cons,
          readNodes_of_empty_string (hfits first List.mem_cons_self) hempty] at hread
        cases hread
      · have hpos : 0 < first.key.size ∧ 0 < first.val.size := by omega
        rw [List.length_cons, readNodes_of_accepts _
          ⟨.inr ⟨hpos.1, rfl⟩, .inr ⟨hpos.2, rfl⟩⟩ hfits back] at hread
        cases hread
        refine ⟨rfl, fun other hother => ?_⟩
        cases hother
        exact hpos

end

def RoundTrips (h : VaultMap) : Prop :=
  ∃ hash, readFromFile (some (saveToFile h)) .empty = some (.ok, hash) ∧
    ∀ key, hash.retrieve? key = h.contents key

theorem roundTrips_of_restorable
    {h : VaultMap}
    (hdistinct : Distinct THashNode.key h.nodes)
    (hitems : h.items = h.nodes.length)
    (hfits : ∀ node ∈ h.nodes, FitsFile node)
    (hrestorable : Restorable h) :
    RoundTrips h := by
  have hempty := THash.empty_wellFormed (K := CString) (V := CString)
  refine ⟨_, readFromFile_of_restorable hitems hfits hrestorable _, fun key => ?_⟩
  rw [(foldl_insertNode_wellFormed hempty _).retrieve?, contents_foldl_insertNode hempty hdistinct,
    THash.contents_empty, Option.or_none]
  rfl

theorem restorable_of_roundTrips
    {h : VaultMap}
    (hdistinct : Distinct THashNode.key h.nodes)
    (hitems : h.items = h.nodes.length)
    (hfits : ∀ node ∈ h.nodes, FitsFile node)
    (hround : RoundTrips h) :
    Restorable h := by
  obtain ⟨hash, hread, hsame⟩ := hround
  have hempty := THash.empty_wellFormed (K := CString) (V := CString)
  rw [readFromFile_saveToFile, hitems] at hread
  -- as many entries are read as the count says, however many there are
  by_cases hlength : h.nodes.length < 2 ^ 31
  · rw [toInt_ofNat_of_lt hlength, ← List.append_nil (h.nodes.flatMap writeNode)] at hread
    exact ⟨hlength, (readNodes_eq_some hfits hread).2⟩
  · exfalso
    have hcount := toInt_ofNat_lt (Nat.le_of_not_lt hlength)
    generalize (BitVec.ofNat 32 h.nodes.length).toInt.toNat = count at hread hcount
    have hsplit : h.nodes = h.nodes.take count ++ h.nodes[count] :: h.nodes.drop (count + 1) := by
      simp
    have hdistinct' := hdistinct
    rw [hsplit, Distinct, List.map_append, List.nodup_append] at hdistinct'
    have hfile : h.nodes.flatMap writeNode = (h.nodes.take count).flatMap writeNode ++
        (h.nodes[count] :: h.nodes.drop (count + 1)).flatMap writeNode := by
      rw [← List.flatMap_append, ← hsplit]
    have hfront : (h.nodes.take count).length = count := List.length_take_of_le hcount.le
    rw [hfile] at hread
    conv at hread => lhs; arg 1; rw [← hfront]
    obtain ⟨rfl, -⟩ := readNodes_eq_some
      (fun node hnode => hfits node (List.mem_of_mem_take hnode)) hread
    -- the next entry of the file is the key that has got lost
    have hlost := hsame h.nodes[count].key
    have hfound : lookup THashNode.key h.nodes h.nodes[count].key = some h.nodes[count] :=
      (lookup_eq_some hdistinct).mpr ⟨List.getElem_mem hcount, rfl⟩
    have hnone : lookup THashNode.key (h.nodes.take count) h.nodes[count].key = none :=
      lookup_eq_none.mpr fun node hnode =>
        hdistinct'.2.2 _ (List.mem_map_of_mem hnode) _ (List.mem_map_of_mem List.mem_cons_self)
    rw [(foldl_insertNode_wellFormed hempty _).retrieve?,
      contents_foldl_insertNode hempty hdistinct'.1, hnone, THash.contents_empty, THash.contents,
      hfound] at hlost
    cases hlost

theorem roundTrips_iff_restorable
    (h : VaultMap)
    (hdistinct : Distinct THashNode.key h.nodes)
    (hitems : h.items = h.nodes.length)
    (hfits : ∀ node ∈ h.nodes, FitsFile node) :
    RoundTrips h ↔ Restorable h :=
  ⟨restorable_of_roundTrips hdistinct hitems hfits, roundTrips_of_restorable hdistinct hitems hfits⟩

def letter (c : Byte) (hc : (0 : Byte) ≠ c) : CString := ⟨[c], by simpa using hc⟩

theorem zero_ne_a : (0 : Byte) ≠ 97 := by decide

theorem zero_ne_b : (0 : Byte) ≠ 98 := by decide

def twoEntries : VaultMap :=
  (THash.empty.insert (letter 97 zero_ne_a) (letter 98 zero_ne_b) 7).insert
    (letter 99 (by decide)) default 9

theorem roundTrips_twoEntries : RoundTrips twoEntries :=
  (roundTrips_iff_restorable twoEntries (by decide +kernel) (by decide +kernel)
    (by decide +kernel)).mpr (by decide +kernel)

def emptyValue : VaultMap := THash.empty.insert (letter 97 zero_ne_a) default 7

theorem not_roundTrips_emptyValue :
    emptyValue.WellFormed ∧ (∀ node ∈ emptyValue.nodes, FitsFile node) ∧
      ¬ RoundTrips emptyValue := by
  refine ⟨THash.insert_wellFormed THash.empty_wellFormed _ _ _, by decide +kernel, ?_⟩
  have hfault : (readFromFile (some (saveToFile emptyValue)) .empty).isNone = true := by
    decide +kernel
  rintro ⟨hash, hread, -⟩
  rw [hread] at hfault
  cases hfault

end AmxModC.Vault
