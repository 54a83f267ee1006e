import AmxModC.Foundation.CString
import AmxModC.Foundation.Keyed
import AmxModC.Foundation.Numeral

namespace AmxModC.VaultFile

open Foundation

/-! CVault.cpp: the vault of the core, and the text file it is kept in. -/

structure Obj where
  key : CString
  value : CString
  number : Int
deriving DecidableEq

def Obj.create (key value : CString) : Obj := ⟨key, value, atoi value.bytes⟩

/-- The objects from `head` on. -/
structure Vault where
  head : List Obj
  path : CString
deriving DecidableEq

/-- The object that `find` leads to is changed, or a new one is put at the end. -/
def assign (key value : CString) : List Obj → List Obj
  | [] => [Obj.create key value]
  | obj :: rest =>
      if obj.key = key then Obj.create obj.key value :: rest else obj :: assign key value rest

namespace Vault

def find (vault : Vault) (n : CString) : Option Obj := lookup Obj.key vault.head n

def remove (vault : Vault) (n : CString) : Vault :=
  { vault with head := vault.head.eraseP fun obj => obj.key = n }

def put (vault : Vault) (k v : CString) : Vault :=
  if k.bytes = [] then vault
  else if v.bytes = [] then vault.remove k
  else { vault with head := assign k v vault.head }

def clear (vault : Vault) : Vault := { vault with head := [] }

/-- `"; Don't modify!\n"` -/
def header : List Byte :=
  [59, 32, 68, 111, 110, 39, 116, 32, 109, 111, 100, 105, 102, 121, 33, 10]

def line (obj : Obj) : List Byte := obj.key.bytes ++ 9 :: obj.value.bytes ++ [10]

/-- What is in the file afterwards, if there is a path and the file `opens`. -/
def saveVault (vault : Vault) (opens : Bool) : Option (List Byte) :=
  if vault.path.bytes = [] ∨ !opens then none else some (header ++ vault.head.flatMap line)

end Vault

/-- The loop of `File::getline`, with the rest of the file. -/
def getline : Nat → List Byte → List Byte × List Byte
  | 0, text => ([], text)
  | _ + 1, [] => ([], [])
  | sz + 1, c :: text =>
      if c = 0 ∨ c = 10 then ([], text)
      else
        let (buf, text) := getline sz text
        (c :: buf, text)

def trimEnds : List Byte → List Byte
  | [] => []
  | c :: buf => c :: buf.map fun c => if c = 10 ∨ c = 13 then 0 else c

def sz : Nat := 512

/-- The loop of `loadVault`.  Where the file is at its end, no part of its condition is met;
`none` is a write behind `key`, and also a loop that is not done with its `fuel`. -/
def loadLoop : Nat → List Byte → Vault → Option Vault
  | 0, _, _ => none
  | fuel + 1, text, vault =>
      let key := word text
      if sz < key.length then none
      else
        let text := (afterWord text).dropWhile isSpace
        if text = [] then some vault
        else
          let (buf, text) := getline sz text
          loadLoop fuel text
            (if key.head?.any isAlpha then
              vault.put (.ofMemory key) (.ofMemory (trimEnds buf))
            else vault)

namespace Vault

def loadVault (vault : Vault) (file : Option (List Byte)) : Option (Vault × Bool) :=
  if vault.path.bytes = [] then some (vault, false)
  else
    match file with
    | none => some (vault.clear, false)
    | some text => (loadLoop (text.length + 1) text vault.clear).map fun vault => (vault, true)

end Vault

/-! The natives, which also save the vault. -/

inductive Call
  | setVaultdata (key value : CString)
  | removeVaultdata (key : CString)
deriving DecidableEq

def Call.run (vault : Vault) : Call → Vault
  | setVaultdata key value => vault.put key value
  | removeVaultdata key => vault.remove key

end AmxModC.VaultFile
