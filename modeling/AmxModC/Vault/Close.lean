import AmxModC.Vault.Durability
import AmxModC.Vault.Journal

namespace AmxModC.Vault

open Foundation Reader

/-! The save that `Close` makes, however it comes out, and what the next process finds. -/

/-- The file cannot be opened; or the process stops with so many bytes in it; or the writing
comes to an end with so many, all of them unless a write fails. -/
inductive Saving
  | notOpened
  | stopped (bytes : Nat)
  | ended (bytes : Nat)
deriving DecidableEq

def saveToDisk (hash : VaultMap) (disk : Disk) : Saving → Disk
  | .notOpened => disk
  | .stopped bytes | .ended bytes => { disk with vault := some ((saveToFile hash).take bytes) }

namespace NVault

/-- `Close` takes no notice of what `_SaveToFile` returns. -/
def closeAs (vault : NVault) (disk : Disk) (saving : Saving) : Option Disk :=
  if vault.isOpen then
    let disk := saveToDisk vault.hash disk saving
    match saving, vault.journal with
    | .stopped _, _ => some disk
    | _, .begun => some { disk with journal := none }
    | _, _ => none
  else some disk

def Survives (vault : NVault) (disk : Disk) (saving : Saving) : Prop :=
  ∃ left after disk', vault.closeAs disk saving = some left ∧
    (construct left).1.open (construct left).2 = some (after, disk') ∧
      ∀ key, after.getValue key = vault.getValue key

end NVault

/-! Whatever the files, what is read from them fits into them. -/

def FitsEntry (key : CString) (entry : CString × Time) : Prop :=
  key.size ≤ 255 ∧ entry.1.size ≤ 65535

def Fitting (hash : VaultMap) : Prop := ∀ key, ∀ entry ∈ hash.contents key, FitsEntry key entry

theorem readChars_length {chars : Nat} {file bytes rest : List Byte}
    (h : readChars chars file = some (bytes, rest)) : bytes.length = chars := by
  simp only [readChars, Reader.take, Option.ite_none_right_eq_some, Option.some.injEq,
    Prod.mk.injEq] at h
  obtain ⟨hlength, rfl, -⟩ := h
  exact List.length_take_of_le hlength

theorem Buffer.store_eq {buffer : Buffer} {chars memory : List Byte}
    (h : buffer.store chars = some memory) : ∃ rest, memory = chars ++ 0 :: rest := by
  obtain ⟨old, -, hstore⟩ := Option.bind_eq_some_iff.mp h
  split at hstore
  next =>
    cases hstore
    exact ⟨_, rfl⟩
  next => cases hstore

namespace ReadState

def Sound (state : ReadState) : Prop := state.hash.WellFormed ∧ Fitting state.hash

theorem Sound.enter {state next : ReadState} (h : state.Sound) {stamp : Time}
    {keylen vallen : Nat} {keyChars valChars : List Byte}
    (hkey : keyChars.length ≤ 255) (hval : valChars.length ≤ 65535)
    (henter : state.enter stamp keylen vallen keyChars valChars = some next) : next.Sound := by
  obtain ⟨keyMemory, hkeyStore, hrest⟩ := Option.bind_eq_some_iff.mp henter
  obtain ⟨valMemory, hvalStore, hdone⟩ := Option.bind_eq_some_iff.mp hrest
  cases hdone
  obtain ⟨keyRest, rfl⟩ := Buffer.store_eq hkeyStore
  obtain ⟨valRest, rfl⟩ := Buffer.store_eq hvalStore
  refine ⟨THash.insert_wellFormed h.1 _ _ _, fun key entry hentry => ?_⟩
  rw [Option.mem_def, THash.contents_insert h.1] at hentry
  split at hentry
  next heq =>
    cases hentry
    rw [heq]
    exact ⟨(CString.size_ofMemory_le _ _).trans hkey, (CString.size_ofMemory_le _ _).trans hval⟩
  next => exact h.2 key entry hentry

theorem Sound.readNode {state : ReadState} (h : state.Sound) {file rest : List Byte}
    {next : ReadState} (hread : Vault.readNode state file = some (some next, rest)) :
    next.Sound := by
  obtain ⟨⟨stamp, file₁⟩, -, hread⟩ := Option.bind_eq_some_iff.mp hread
  obtain ⟨⟨keylen, file₂⟩, -, hread⟩ := Option.bind_eq_some_iff.mp hread
  obtain ⟨⟨vallen, file₃⟩, -, hread⟩ := Option.bind_eq_some_iff.mp hread
  obtain ⟨⟨keyChars, file₄⟩, hkey, hread⟩ := Option.bind_eq_some_iff.mp hread
  obtain ⟨⟨valChars, file₅⟩, hval, hread⟩ := Option.bind_eq_some_iff.mp hread
  have henter : state.enter stamp keylen.toNat vallen.toNat keyChars valChars = some next :=
    congrArg Prod.fst (Option.some.inj hread)
  have hkeyLength := readChars_length hkey
  have hvalLength := readChars_length hval
  have hkeylen := keylen.isLt
  have hvallen := vallen.isLt
  exact h.enter (by omega) (by omega) henter

end ReadState

theorem readNodes_sound {entries : Nat} {state : ReadState} (h : state.Sound)
    {file : List Byte} {error : VaultError} {hash : VaultMap}
    (hread : readNodes entries state file = some (error, hash)) :
    hash.WellFormed ∧ Fitting hash := by
  induction entries generalizing state file with
  | zero =>
      cases hread
      exact h
  | succ entries ih =>
      rw [readNodes] at hread
      split at hread
      next =>
        cases hread
        exact h
      next => cases hread
      next next rest hnode => exact ih (h.readNode hnode) hread

theorem fitting_empty : Fitting .empty := fun key entry hentry => by
  rw [THash.contents_empty] at hentry
  cases hentry

theorem readFromFile_sound {file : Option (List Byte)} {error : VaultError} {hash : VaultMap}
    (hread : readFromFile file .empty = some (error, hash)) : hash.WellFormed ∧ Fitting hash := by
  have hempty : (THash.empty : VaultMap).WellFormed ∧ Fitting .empty :=
    ⟨THash.empty_wellFormed, fitting_empty⟩
  have hstate : ReadState.Sound ⟨.null, .null, .empty⟩ := hempty
  unfold readFromFile at hread
  split at hread
  next => cases hread; exact hempty
  next =>
    split at hread
    next => cases hread; exact hempty
    next =>
      split at hread
      next => cases hread; exact hempty
      next =>
        split at hread
        next => cases hread; exact hempty
        next =>
          split at hread
          next => cases hread; exact hempty
          next =>
            split at hread
            next => cases hread; exact hempty
            next => exact readNodes_sound hstate hread

/-! What is read from the first bytes of a saved file. -/

def whole : List Node → Nat → List Node
  | [], _ => []
  | node :: rest, bytes =>
      if (writeNode node).length ≤ bytes then node :: whole rest (bytes - (writeNode node).length)
      else []

theorem whole_front (nodes : List Node) (bytes : Nat) : whole nodes bytes <+: nodes := by
  induction nodes generalizing bytes with
  | nil => exact List.prefix_rfl
  | cons node rest ih =>
      rw [whole]
      split
      next => exact List.cons_prefix_cons.mpr ⟨rfl, ih _⟩
      next => exact List.nil_prefix

def written (hash : VaultMap) (bytes : Nat) : List Node :=
  (whole hash.nodes (bytes - 10)).take (BitVec.ofNat 32 hash.items).toInt.toNat

theorem written_front (hash : VaultMap) (bytes : Nat) : written hash bytes <+: hash.nodes :=
  (List.take_prefix _ _).trans (whole_front _ _)

def HeadFilled (nodes : List Node) : Prop :=
  ∀ first ∈ nodes.head?, 0 < first.key.size ∧ 0 < first.val.size

instance (nodes : List Node) : Decidable (HeadFilled nodes) :=
  inferInstanceAs (Decidable (∀ first ∈ nodes.head?, _))

theorem torn_readUInt8 (num : BitVec 8) : Torn readUInt8 (writeUInt8 num) :=
  (torn_number 1 num.toNat).map _

theorem torn_readUInt16 (num : BitVec 16) : Torn readUInt16 (writeUInt16 num) :=
  (torn_number 2 num.toNat).map _

theorem torn_readChars (s : CString) : Torn (readChars s.size) (writeChars s) := torn_take s.bytes

section

variable {node : Node} {nodes : List Node} {state : ReadState}

theorem torn_readNode (state : ReadState) (hfits : FitsFile node) :
    Torn (readNode state) (writeNode node) := by
  have hkey := hfits.key_size
  have hval := hfits.val_size
  have hkeyReads := reads_readChars node.key
  have hkeyTorn := torn_readChars node.key
  have hvalTorn := torn_readChars node.val
  rw [← hkey] at hkeyReads hkeyTorn
  rw [← hval] at hvalTorn
  rw [writeNode, List.append_assoc, List.append_assoc, List.append_assoc]
  refine Torn.bind (reads_readInt32 node.stamp) (torn_readUInt32 node.stamp) ?_
  refine Torn.bind (reads_readUInt8 _) (torn_readUInt8 _) ?_
  refine Torn.bind (reads_readUInt16 _) (torn_readUInt16 _) ?_
  exact Torn.bind hkeyReads hkeyTorn (hvalTorn.bind_pure _)

theorem readNodes_whole (hallocated : state.Allocated) (hfits : ∀ node ∈ nodes, FitsFile node)
    (entries bytes : Nat) :
    ∃ error, readNodes entries state ((nodes.flatMap writeNode).take bytes) =
      some (error, ((whole nodes bytes).take entries).foldl insertNode state.hash) := by
  induction entries generalizing nodes bytes state with
  | zero => exact ⟨.ok, rfl⟩
  | succ entries ih =>
      cases nodes with
      | nil =>
          rw [List.flatMap_nil, List.take_nil, whole]
          exact ⟨.read, rfl⟩
      | cons node rest =>
          obtain ⟨hnode, hrest⟩ := List.forall_mem_cons.mp hfits
          rw [whole]
          split
          next hle =>
            obtain ⟨next, henter, hnext, hhash⟩ :=
              ReadState.enter_of_accepts (hallocated.accepts node)
            obtain ⟨error, herror⟩ := ih hnext hrest (bytes - (writeNode node).length)
            refine ⟨error, ?_⟩
            rw [List.flatMap_cons, List.take_append, List.take_of_length_le hle, readNodes,
              reads_readNode state hnode, henter]
            simp only [herror, List.take_succ_cons, List.foldl_cons, hhash]
          next hlt =>
            refine ⟨.read, ?_⟩
            rw [List.flatMap_cons, List.take_append_of_le_length (not_le.mp hlt).le, readNodes,
              torn_readNode state hnode bytes (not_le.mp hlt)]
            rfl

theorem readNodes_null (hfits : ∀ node ∈ nodes, FitsFile node) (entries bytes : Nat)
    (hash : VaultMap) :
    (HeadFilled ((whole nodes bytes).take entries) →
      ∃ error, readNodes entries ⟨.null, .null, hash⟩ ((nodes.flatMap writeNode).take bytes) =
        some (error, ((whole nodes bytes).take entries).foldl insertNode hash)) ∧
    (¬ HeadFilled ((whole nodes bytes).take entries) →
      readNodes entries ⟨.null, .null, hash⟩ ((nodes.flatMap writeNode).take bytes) = none) := by
  have hnil : HeadFilled [] := fun first hfirst => nomatch hfirst
  cases entries with
  | zero => exact ⟨fun _ => ⟨.ok, rfl⟩, fun h => absurd hnil h⟩
  | succ entries =>
      cases nodes with
      | nil =>
          rw [List.flatMap_nil, List.take_nil, whole]
          exact ⟨fun _ => ⟨.read, rfl⟩, fun h => absurd hnil h⟩
      | cons node rest =>
          obtain ⟨hnode, hrest⟩ := List.forall_mem_cons.mp hfits
          rw [whole]
          split
          next hle =>
            rw [List.flatMap_cons, List.take_append, List.take_of_length_le hle, List.take_succ_cons]
            constructor
            · intro hfilled
              obtain ⟨hkey, hval⟩ := hfilled node rfl
              have haccepts : ReadState.Accepts ⟨.null, .null, hash⟩ node :=
                ⟨.inr ⟨hkey, rfl⟩, .inr ⟨hval, rfl⟩⟩
              obtain ⟨next, henter, hnext, hhash⟩ := ReadState.enter_of_accepts haccepts
              obtain ⟨error, herror⟩ :=
                readNodes_whole hnext hrest entries (bytes - (writeNode node).length)
              refine ⟨error, ?_⟩
              rw [readNodes, reads_readNode _ hnode, henter]
              simp only [herror, List.foldl_cons, hhash]
            · intro hempty
              refine readNodes_of_empty_string hnode ?_ _
              by_contra hfilled
              refine hempty fun first hfirst => ?_
              cases hfirst
              omega
          next hlt =>
            refine ⟨fun _ => ⟨.read, ?_⟩, fun h => absurd hnil h⟩
            rw [List.flatMap_cons, List.take_append_of_le_length (not_le.mp hlt).le, readNodes,
              torn_readNode _ hnode bytes (not_le.mp hlt)]
            rfl

end

theorem whole_zero (nodes : List Node) : whole nodes 0 = [] := by
  cases nodes with
  | nil => rfl
  | cons node rest =>
      have hpos : ¬ (writeNode node).length ≤ 0 := by
        simp only [writeNode, writeInt32, List.length_append, length_littleEndian]
        omega
      rw [whole, if_neg hpos]

theorem take_front {front rest : List Byte} {length : Nat} (h : front.length = length) (n : Nat) :
    (front ++ rest).take (length + n) = front ++ rest.take n :=
  h ▸ List.take_length_add_append n

theorem length_writeUInt32 (num : BitVec 32) : (writeUInt32 num).length = 4 :=
  length_littleEndian 4 _

theorem length_writeUInt16 (num : BitVec 16) : (writeUInt16 num).length = 2 :=
  length_littleEndian 2 _

theorem readFromFile_header (h hash : VaultMap) {bytes : Nat} (hbytes : bytes < 10) :
    readFromFile (some ((saveToFile h).take bytes)) hash = some (.read, hash) := by
  have hmagicTorn : Torn readUInt32 (writeUInt32 vaultMagic) := torn_readUInt32 vaultMagic
  have hversionTorn := torn_readUInt16 vaultVersion
  have hcountTorn : Torn readInt32 (writeUInt32 (BitVec.ofNat 32 h.items)) := torn_readUInt32 _
  have hmagic := length_writeUInt32 vaultMagic
  have hversion := length_writeUInt16 vaultVersion
  have hcount := length_writeUInt32 (BitVec.ofNat 32 h.items)
  rw [saveToFile, List.append_assoc, List.append_assoc]
  rcases Nat.lt_or_ge bytes 4 with hlt | hge
  · rw [List.take_append_of_le_length (by omega), readFromFile, hmagicTorn bytes (by omega)]
  · obtain ⟨bytes, rfl⟩ := Nat.exists_eq_add_of_le hge
    rw [take_front hmagic, readFromFile]
    simp only [reads_readUInt32 vaultMagic _, ne_eq, not_true_eq_false, if_false]
    rcases Nat.lt_or_ge bytes 2 with hlt | hge
    · rw [List.take_append_of_le_length (by omega), hversionTorn bytes (by omega)]
    · obtain ⟨bytes, rfl⟩ := Nat.exists_eq_add_of_le hge
      rw [take_front hversion, List.take_append_of_le_length (by omega)]
      simp only [reads_readUInt16 vaultVersion _, not_true_eq_false, if_false]
      rw [hcountTorn bytes (by omega)]

theorem readFromFile_body (h hash : VaultMap) (bytes : Nat) :
    readFromFile (some ((saveToFile h).take (4 + (2 + (4 + bytes))))) hash =
      readNodes (BitVec.ofNat 32 h.items).toInt.toNat ⟨.null, .null, hash⟩
        ((h.nodes.flatMap writeNode).take bytes) := by
  have hread : readInt32 (writeUInt32 (BitVec.ofNat 32 h.items) ++
      (h.nodes.flatMap writeNode).take bytes) =
        some (BitVec.ofNat 32 h.items, (h.nodes.flatMap writeNode).take bytes) :=
    reads_readUInt32 _ _
  rw [saveToFile, List.append_assoc, List.append_assoc, take_front (length_writeUInt32 _),
    take_front (length_writeUInt16 _), take_front (length_writeUInt32 _), readFromFile]
  simp only [reads_readUInt32 vaultMagic _, reads_readUInt16 vaultVersion _, ne_eq,
    not_true_eq_false, if_false, hread]

theorem readFromFile_take {h : VaultMap} (hfits : ∀ node ∈ h.nodes, FitsFile node) (bytes : Nat)
    (hash : VaultMap) :
    (HeadFilled (written h bytes) →
      ∃ error, readFromFile (some ((saveToFile h).take bytes)) hash =
        some (error, (written h bytes).foldl insertNode hash)) ∧
    (¬ HeadFilled (written h bytes) →
      readFromFile (some ((saveToFile h).take bytes)) hash = none) := by
  rcases Nat.lt_or_ge bytes 10 with hlt | hge
  · have hwritten : written h bytes = [] := by
      rw [written, Nat.sub_eq_zero_of_le hlt.le, whole_zero, List.take_nil]
    rw [hwritten]
    exact ⟨fun _ => ⟨.read, readFromFile_header h hash hlt⟩,
      fun hempty => absurd (fun first hfirst => nomatch hfirst) hempty⟩
  · obtain ⟨bytes, rfl⟩ := Nat.exists_eq_add_of_le hge
    rw [show 10 + bytes = 4 + (2 + (4 + bytes)) by omega, readFromFile_body, written,
      show 4 + (2 + (4 + bytes)) - 10 = bytes by omega]
    exact readNodes_null hfits _ _ hash

/-! When the map survives. -/

def THashNode.entry (node : Node) : CString × Time := (node.val, node.stamp)

structure Completes (ops : List JOp) (front nodes : List Node) : Prop where
  kept : ∀ node ∈ front, redo JOp.effect ops node.key (some node.entry) = some node.entry
  rest : ∀ node ∈ nodes, node ∉ front → redo JOp.effect ops node.key none = some node.entry
  absent : ∀ key, (∀ node ∈ nodes, node.key ≠ key) → redo JOp.effect ops key none = none

/-- The file that is still there has the whole map; or the entries that are written can be read,
and are all, or are completed by the journal that is still there. -/
def Kept (hash : VaultMap) (disk : Disk) : Saving → Prop
  | .notOpened => ∃ answer, readFromFile (some (disk.vault.getD [])) .empty = some answer ∧
      ∀ key, answer.2.contents key = hash.contents key
  | .stopped bytes => (∀ node ∈ hash.nodes, FitsFile node) ∧ HeadFilled (written hash bytes) ∧
      Completes (records disk.journal) (written hash bytes) hash.nodes
  | .ended bytes => (∀ node ∈ hash.nodes, FitsFile node) ∧ HeadFilled (written hash bytes) ∧
      ∀ node ∈ hash.nodes, node ∈ written hash bytes

section

variable {ops : List JOp} {front nodes : List Node} {hash : VaultMap}

theorem completes_iff (hdistinct : Distinct THashNode.key nodes) (hfront : front <+: nodes) :
    Completes ops front nodes ↔
      ∀ key, redo JOp.effect ops key ((lookup THashNode.key front key).map THashNode.entry) =
        (lookup THashNode.key nodes key).map THashNode.entry := by
  have hdistinctFront : Distinct THashNode.key front := hdistinct.sublist (hfront.sublist.map _)
  have hfound : ∀ {part : List Node} {node : Node}, Distinct THashNode.key part → node ∈ part →
      lookup THashNode.key part node.key = some node := fun hpart hnode =>
    (lookup_eq_some hpart).mpr ⟨hnode, rfl⟩
  have hnotFront : ∀ {node : Node}, node ∈ nodes → node ∉ front →
      lookup THashNode.key front node.key = none := by
    intro node hnode hnot
    refine lookup_eq_none.mpr fun other hother hkey => hnot ?_
    exact hdistinct.eq (hfront.subset hother) hnode hkey ▸ hother
  constructor
  · intro h key
    cases hlookup : lookup THashNode.key nodes key with
    | none =>
        have hnone := lookup_eq_none.mp hlookup
        have hnoneFront : lookup THashNode.key front key = none :=
          lookup_eq_none.mpr fun node hnode => hnone node (hfront.subset hnode)
        rw [hnoneFront]
        exact h.absent key hnone
    | some node =>
        obtain ⟨hnode, rfl⟩ := (lookup_eq_some hdistinct).mp hlookup
        by_cases hmem : node ∈ front
        · rw [hfound hdistinctFront hmem]
          exact h.kept node hmem
        · rw [hnotFront hnode hmem]
          exact h.rest node hnode hmem
  · intro h
    refine ⟨fun node hnode => ?_, fun node hnode hnot => ?_, fun key hkey => ?_⟩
    · have hkey := h node.key
      rwa [hfound hdistinctFront hnode, hfound hdistinct (hfront.subset hnode)] at hkey
    · have hkey := h node.key
      rwa [hnotFront hnode hnot, hfound hdistinct hnode] at hkey
    · have hnone := h key
      rwa [lookup_eq_none.mpr hkey,
        lookup_eq_none.mpr fun node hnode => hkey node (hfront.subset hnode)] at hnone

theorem completes_nil_iff : Completes [] front nodes ↔ ∀ node ∈ nodes, node ∈ front := by
  refine ⟨fun h node hnode => ?_,
    fun h => ⟨fun _ _ => rfl, fun node hnode hnot => ?_, fun _ _ => rfl⟩⟩
  · by_contra hnot
    cases h.rest node hnode hnot
  · exact absurd (h node hnode) hnot

theorem getValue_eq {vault : NVault} (hwf : vault.hash.WellFormed) (key : CString) :
    vault.getValue key = vault.hash.contents key := by
  rw [NVault.getValue, hwf.retrieve?, hwf.existsKey, THash.contents]
  cases lookup THashNode.key vault.hash.nodes key <;> rfl

theorem reopened_wellFormed {left disk' : Disk} {after : NVault}
    (hopen : (NVault.construct left).1.open (NVault.construct left).2 = some (after, disk')) :
    after.hash.WellFormed := by
  obtain ⟨answer, hread, hdone⟩ := Option.bind_eq_some_iff.mp hopen
  cases hdone
  change (replay left.journal answer.2).1.WellFormed
  rw [replay_records]
  exact foldl_applyTo_wellFormed (readFromFile_sound hread).1 _

theorem reopens_iff (left : Disk) (entries : CString → Option (CString × Time)) :
    (∃ after disk', (NVault.construct left).1.open (NVault.construct left).2 =
        some (after, disk') ∧ ∀ key, after.getValue key = entries key) ↔
      ∃ answer, readFromFile (some (left.vault.getD [])) .empty = some answer ∧
        ∀ key, redo JOp.effect (records left.journal) key (answer.2.contents key) =
          entries key := by
  have hvalue : ∀ {answer : VaultError × VaultMap},
      readFromFile (some (left.vault.getD [])) .empty = some answer →
        ∀ key, (⟨(replay left.journal answer.2).1, .begun, true⟩ : NVault).getValue key =
          redo JOp.effect (records left.journal) key (answer.2.contents key) := by
    intro answer hanswer key
    have hwf := (readFromFile_sound hanswer).1
    rw [replay_records, getValue_eq (foldl_applyTo_wellFormed hwf _),
      contents_foldl_applyTo hwf]
  constructor
  · rintro ⟨after, disk', hopen, hsame⟩
    obtain ⟨answer, hanswer, hdone⟩ := Option.bind_eq_some_iff.mp hopen
    cases hdone
    exact ⟨answer, hanswer, fun key => (hvalue hanswer key).symm.trans (hsame key)⟩
  · rintro ⟨answer, hanswer, hsame⟩
    refine ⟨_, _, Option.bind_eq_some_iff.mpr ⟨answer, hanswer, rfl⟩, fun key => ?_⟩
    exact (hvalue hanswer key).trans (hsame key)

theorem reopens_written_iff (hwf : hash.WellFormed) (bytes : Nat) (journal : Option (List Byte)) :
    (∃ answer, readFromFile (some ((saveToFile hash).take bytes)) .empty = some answer ∧
        ∀ key, redo JOp.effect (records journal) key (answer.2.contents key) =
          hash.contents key) ↔
      (∀ node ∈ hash.nodes, FitsFile node) ∧ HeadFilled (written hash bytes) ∧
        Completes (records journal) (written hash bytes) hash.nodes := by
  have hfront := written_front hash bytes
  have hempty := THash.empty_wellFormed (K := CString) (V := CString)
  have hcontents : ∀ key, ((written hash bytes).foldl insertNode .empty).contents key =
      (lookup THashNode.key (written hash bytes) key).map THashNode.entry := by
    intro key
    rw [contents_foldl_insertNode hempty (hwf.distinct.sublist (hfront.sublist.map _)),
      THash.contents_empty, Option.or_none]
    rfl
  constructor
  · rintro ⟨answer, hanswer, hsame⟩
    have hfits : ∀ node ∈ hash.nodes, FitsFile node := by
      intro node hnode
      have hentry : redo JOp.effect (records journal) node.key (answer.2.contents node.key) =
          some node.entry := ?_
      · exact redo_inRange (records_inRange journal) ((readFromFile_sound hanswer).2 node.key)
          hentry
      rw [hsame, THash.contents, (lookup_eq_some hwf.distinct).mpr ⟨hnode, rfl⟩]
      rfl
    obtain ⟨hread, hfault⟩ := readFromFile_take hfits bytes .empty
    have hfilled : HeadFilled (written hash bytes) := by
      by_contra hnot
      rw [hfault hnot] at hanswer
      cases hanswer
    obtain ⟨error, hread⟩ := hread hfilled
    cases hread.symm.trans hanswer
    refine ⟨hfits, hfilled, (completes_iff hwf.distinct hfront).mpr fun key => ?_⟩
    rw [← hcontents]
    exact hsame key
  · rintro ⟨hfits, hfilled, hcompletes⟩
    obtain ⟨error, hread⟩ := (readFromFile_take hfits bytes .empty).1 hfilled
    refine ⟨_, hread, fun key => ?_⟩
    rw [hcontents]
    exact (completes_iff hwf.distinct hfront).mp hcompletes key

/-- Whatever the map, the files and the outcome of the save, the map survives the close of an
open vault exactly if it is still in the files. -/
theorem survives_iff_kept (hwf : hash.WellFormed) (disk : Disk) (saving : Saving) :
    (⟨hash, .begun, true⟩ : NVault).Survives disk saving ↔ Kept hash disk saving := by
  have hlive : ∀ key, (⟨hash, .begun, true⟩ : NVault).getValue key = hash.contents key :=
    fun key => getValue_eq hwf key
  have hleft : ∀ left, (⟨hash, .begun, true⟩ : NVault).closeAs disk saving = some left →
      ((⟨hash, .begun, true⟩ : NVault).Survives disk saving ↔
        ∃ answer, readFromFile (some (left.vault.getD [])) .empty = some answer ∧
          ∀ key, redo JOp.effect (records left.journal) key (answer.2.contents key) =
            hash.contents key) := by
    intro left hclose
    rw [← reopens_iff, NVault.Survives]
    simp only [hclose, Option.some.injEq, hlive, exists_and_left, exists_eq_left']
  cases saving with
  | notOpened => exact hleft _ rfl
  | stopped bytes => exact (hleft _ rfl).trans (reopens_written_iff hwf bytes disk.journal)
  | ended bytes =>
      refine (hleft _ rfl).trans ((reopens_written_iff hwf bytes none).trans ?_)
      exact and_congr_right fun _ => and_congr_right fun _ => completes_nil_iff

end

/-! Where the journal has what has been done since `Open`. -/

theorem recordsIn_log {log : List JOp} (hlog : ∀ op ∈ log, op.InRange) {turns : Nat}
    (hturns : log.length ≤ turns) : recordsIn turns (log.flatMap writeOp) = log := by
  induction log generalizing turns with
  | nil => cases turns <;> rfl
  | cons op log ih =>
      obtain ⟨hop, hlog⟩ := List.forall_mem_cons.mp hlog
      obtain ⟨turns, rfl⟩ := Nat.exists_eq_succ_of_ne_zero (Nat.ne_zero_of_lt hturns)
      rw [List.flatMap_cons, recordsIn, reads_readOp hop]
      exact congrArg (op :: ·) (ih hlog (Nat.le_of_succ_le_succ hturns))

theorem records_log {log : List JOp} (hlog : ∀ op ∈ log, op.InRange) {file : Option (List Byte)}
    (hfile : file.getD [] = log.flatMap writeOp) : records file = log := by
  cases file with
  | none =>
      cases log with
      | nil => rfl
      | cons op log => simp [writeOp_ne_nil] at hfile
  | some bytes =>
      cases hfile
      exact recordsIn_log hlog (length_le_length_log log)

/-- The vault of one entry that was set since `Open`. -/
def oneEntry : VaultMap := THash.empty.insert Session.key Session.val 7

def journaled : Disk := ⟨some [], some (writeOp (.insert Session.key Session.val 7))⟩

theorem oneEntry_survives_full :
    (⟨oneEntry, .begun, true⟩ : NVault).Survives journaled (.ended 19) :=
  (survives_iff_kept (THash.insert_wellFormed THash.empty_wellFormed _ _ _) _ _).mpr
    ⟨by decide +kernel, by decide +kernel, by decide +kernel⟩

/-- The vault file cannot be opened for the save, and the journal is erased all the same. -/
theorem not_survives_notOpened : ¬ ∀ (hash : VaultMap) (disk : Disk) (saving : Saving),
    hash.WellFormed → (⟨hash, .begun, true⟩ : NVault).Survives disk saving := by
  intro h
  obtain ⟨left, after, disk', hclose, hopen, hsame⟩ :=
    h oneEntry journaled .notOpened (THash.insert_wellFormed THash.empty_wellFormed _ _ _)
  cases hclose
  have hlost : ((NVault.construct ⟨some [], none⟩).1.open
      (NVault.construct ⟨some [], none⟩).2).map (fun found => found.1.getValue Session.key) =
        some none := by
    decide +kernel
  have hlive : (⟨oneEntry, .begun, true⟩ : NVault).getValue Session.key =
      some (Session.val, 7) := by
    decide +kernel
  have hfound := congrArg (Option.map fun found => found.1.getValue Session.key) hopen
  have hnone := hlost.symm.trans hfound
  rw [Option.map_some, hsame, hlive] at hnone
  cases hnone

end AmxModC.Vault
