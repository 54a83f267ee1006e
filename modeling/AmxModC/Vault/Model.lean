import AmxModC.Foundation.CString
import AmxModC.Vault.TinyHash

namespace AmxModC.Vault

open Foundation

/-! NVault.cpp, Journal.cpp and Binary.cpp. -/

/-- `unsigned long` has 32 bits and `char` is signed. -/
instance : HashFunction CString where
  hashFunction k := k.bytes.foldl (fun hash c => (hash <<< 5) + hash + c.signExtend 32) 5381

abbrev VaultMap := THash CString CString

/-! Binary.cpp -/

def writeUInt32 (num : BitVec 32) : List Byte := littleEndian 4 num.toNat
def writeInt32 (num : BitVec 32) : List Byte := littleEndian 4 num.toNat
def writeUInt16 (num : BitVec 16) : List Byte := littleEndian 2 num.toNat
def writeUInt8 (num : BitVec 8) : List Byte := littleEndian 1 num.toNat
def writeChars (buffer : CString) : List Byte := buffer.bytes

def readUInt32 : Reader (BitVec 32) := BitVec.ofNat 32 <$> Reader.number 4
def readInt32 : Reader (BitVec 32) := BitVec.ofNat 32 <$> Reader.number 4
def readUInt16 : Reader (BitVec 16) := BitVec.ofNat 16 <$> Reader.number 2
def readUInt8 : Reader (BitVec 8) := BitVec.ofNat 8 <$> Reader.number 1
def readChars (chars : Nat) : Reader (List Byte) := Reader.take chars

/-! The vault file -/

def vaultMagic : BitVec 32 := 0x6E564C54
def vaultVersion : BitVec 16 := 0x0200

inductive VaultError
  | ok
  | noFile
  | badFile
  | oldFile
  | read
deriving DecidableEq

def writeNode (node : THashNode CString CString) : List Byte :=
  writeInt32 node.stamp ++ writeUInt8 (BitVec.ofNat 8 node.key.size) ++
    writeUInt16 (BitVec.ofNat 16 node.val.size) ++ writeChars node.key ++ writeChars node.val

def saveToFile (hash : VaultMap) : List Byte :=
  writeUInt32 vaultMagic ++ writeUInt16 vaultVersion ++
    writeUInt32 (BitVec.ofNat 32 hash.items) ++ hash.nodes.flatMap writeNode

/-- A `char` array of `_ReadFromFile` with the length it was allocated for; the
array is `none` while its pointer is `NULL`. -/
structure Buffer where
  oldlen : Nat
  memory : Option (List Byte)

namespace Buffer

def null : Buffer := ⟨0, none⟩

def grow (buffer : Buffer) (len : Nat) : Buffer :=
  if len > buffer.oldlen then ⟨len, some (List.replicate (len + 1) uninitialised)⟩ else buffer

/-- `ReadChars` into the buffer and `buffer[len] = '\0'`; `none` is a write
through `NULL` or behind the array. -/
def store (buffer : Buffer) (chars : List Byte) : Option (List Byte) :=
  buffer.memory.bind fun memory =>
    if chars.length < memory.length then some (chars ++ 0 :: memory.drop (chars.length + 1))
    else none

end Buffer

structure ReadState where
  key : Buffer
  val : Buffer
  hash : VaultMap

/-- What a turn of the loop does with the entry it has read; `none` is a memory
fault. -/
def ReadState.enter (state : ReadState) (stamp : Time) (keylen vallen : Nat)
    (keyChars valChars : List Byte) : Option ReadState := do
  let keyBuffer := state.key.grow keylen
  let valBuffer := state.val.grow vallen
  let key ← keyBuffer.store keyChars
  let val ← valBuffer.store valChars
  return {
    key := { keyBuffer with memory := some key }
    val := { valBuffer with memory := some val }
    hash := state.hash.insert (CString.ofMemory key) (CString.ofMemory val) stamp }

def readNode (state : ReadState) : Reader (Option ReadState) := do
  let stamp ← readInt32
  let keylen ← readUInt8
  let vallen ← readUInt16
  let keyChars ← readChars keylen.toNat
  let valChars ← readChars vallen.toNat
  return state.enter stamp keylen.toNat vallen.toNat keyChars valChars

def readNodes : Nat → ReadState → List Byte → Option (VaultError × VaultMap)
  | 0, state, _ => some (.ok, state.hash)
  | entries + 1, state, file =>
      match readNode state file with
      | none => some (.read, state.hash)
      | some (none, _) => none
      | some (some next, rest) => readNodes entries next rest

def readFromFile (file : Option (List Byte)) (hash : VaultMap) :
    Option (VaultError × VaultMap) :=
  match file with
  | none => some (.noFile, hash)
  | some file =>
      match readUInt32 file with
      | none => some (.read, hash)
      | some (magic, file) =>
          if magic ≠ vaultMagic then some (.badFile, hash)
          else
            match readUInt16 file with
            | none => some (.read, hash)
            | some (version, file) =>
                if version ≠ vaultVersion then some (.oldFile, hash)
                else
                  match readInt32 file with
                  | none => some (.read, hash)
                  | some (entries, file) =>
                      readNodes entries.toInt.toNat ⟨.null, .null, hash⟩ file

/-! Journal.cpp -/

inductive JOp
  | clear
  | prune (start «end» : Time)
  | insert (key val : CString) (stamp : Time)
  | remove (key : CString)
deriving DecidableEq

def JOp.code : JOp → BitVec 8
  | clear => 1
  | prune .. => 2
  | insert .. => 3
  | remove _ => 4

inductive Encode
  | small
  | medium

def writeString (str : CString) : Encode → List Byte
  | .small => writeUInt8 (BitVec.ofNat 8 str.size) ++ writeChars str
  | .medium => writeUInt16 (BitVec.ofNat 16 str.size) ++ writeChars str

def writeOp (op : JOp) : List Byte :=
  writeUInt8 op.code ++
    match op with
    | .clear => []
    | .prune start «end» => writeInt32 start ++ writeInt32 «end»
    | .insert key val stamp =>
        writeInt32 stamp ++ writeString key .small ++ writeString val .medium
    | .remove key => writeString key .small

def readString8 : Reader CString := do
  let len8 ← readUInt8
  let key ← readChars len8.toNat
  return CString.ofMemory (key ++ [0])

def readString16 : Reader CString := do
  let len16 ← readUInt16
  let val ← readChars len16.toNat
  return CString.ofMemory (val ++ [0])

/-- One record; `none` for `Journal_Nop` and for numbers that are no operation. -/
def readOp : Reader (Option JOp) := do
  let temp8 ← readUInt8
  if temp8 = 1 then
    return some .clear
  else if temp8 = 2 then do
    let start ← readUInt32
    let «end» ← readUInt32
    return some (.prune start «end»)
  else if temp8 = 3 then do
    let stamp ← readUInt32
    let key ← readString8
    let val ← readString16
    return some (.insert key val stamp)
  else if temp8 = 4 then do
    let key ← readString8
    return some (.remove key)
  else
    return none

def JOp.applyTo (map : VaultMap) : JOp → VaultMap
  | clear => map.clear
  | prune start «end» => (map.prune start «end»).1
  | insert key val stamp => map.insert key val stamp
  | remove key => map.remove key

/-- The loop of `Replay`: the map and the count of operations.  Every turn takes
at least one byte, so the length of the file bounds the turns. -/
def replayLoop : Nat → List Byte → VaultMap → VaultMap × Nat
  | 0, _, map => (map, 0)
  | turns + 1, file, map =>
      match readOp file with
      | none => (map, 0)
      | some (none, _) => (map, 1)
      | some (some op, rest) =>
          let (map, ops) := replayLoop turns rest (op.applyTo map)
          (map, ops + 1)

def replay (file : Option (List Byte)) (map : VaultMap) : VaultMap × Int :=
  match file with
  | none => (map, -1)
  | some file =>
      let (map, ops) := replayLoop file.length file map
      (map, ops)

/-! NVault.cpp -/

/-- The vault file and its journal; `none` is a file that does not exist. -/
structure Disk where
  vault : Option (List Byte)
  journal : Option (List Byte)

/-- `m_Journal` and the file pointer in it. -/
inductive Journal
  | null
  | ended
  | begun
deriving DecidableEq

structure NVault where
  hash : VaultMap
  journal : Journal
  isOpen : Bool

def NVault.construct (disk : Disk) : NVault × Disk :=
  (⟨.empty, .null, false⟩, { disk with vault := some (disk.vault.getD []) })

namespace NVault

def record (vault : NVault) (disk : Disk) (op : JOp) : Option Disk :=
  match vault.journal with
  | .null => some disk
  | .ended => none
  | .begun => some { disk with journal := some (disk.journal.getD [] ++ writeOp op) }

def «open» (vault : NVault) (disk : Disk) : Option (NVault × Disk) := do
  let (_, hash) ← readFromFile disk.vault vault.hash
  let (hash, _) := replay disk.journal hash
  return (⟨hash, .begun, true⟩, { disk with journal := some [] })

def close (vault : NVault) (disk : Disk) : Option (NVault × Disk) :=
  if vault.isOpen then
    match vault.journal with
    | .begun =>
        some ({ vault with journal := .ended, isOpen := false },
          ⟨some (saveToFile vault.hash), none⟩)
    | _ => none
  else some (vault, disk)

def perform (vault : NVault) (disk : Disk) (written done : JOp) : Option (NVault × Disk) :=
  (vault.record disk written).map fun disk =>
    ({ vault with hash := done.applyTo vault.hash }, disk)

/-- `SetValue` without a stamp reads the clock once for the journal and once
more for the table. -/
def setValue (vault : NVault) (disk : Disk) (key val : CString) (written inserted : Time) :
    Option (NVault × Disk) :=
  vault.perform disk (.insert key val written) (.insert key val inserted)

def setValueStamp (vault : NVault) (disk : Disk) (key val : CString) (stamp : Time) :
    Option (NVault × Disk) :=
  vault.perform disk (.insert key val stamp) (.insert key val stamp)

def remove (vault : NVault) (disk : Disk) (key : CString) : Option (NVault × Disk) :=
  vault.perform disk (.remove key) (.remove key)

def clear (vault : NVault) (disk : Disk) : Option (NVault × Disk) :=
  vault.perform disk .clear .clear

def prune (vault : NVault) (disk : Disk) (start «end» : Time) : Option (NVault × Disk) :=
  vault.perform disk (.prune start «end») (.prune start «end»)

def getValue (vault : NVault) (key : CString) : Option (CString × Time) :=
  if vault.hash.existsKey key then vault.hash.retrieve? key else none

end NVault

end AmxModC.Vault
