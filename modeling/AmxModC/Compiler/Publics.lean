import AmxModC.Foundation.Bisection
import AmxModC.Foundation.Block
import AmxModC.Foundation.CString
import AmxModC.Foundation.Run
import AmxModC.Machine

namespace AmxModC.Compiler.Publics

open Foundation

/-! The symbol table of the compiler, the header that `assemble` writes, and the search for a
public function in a program that was loaded. -/

/-- `sNAMEMAX` -/
abbrev nameMax : Nat := 31

/-- `char name[sNAMEMAX+1]` -/
abbrev Name := { s : CString // s.size ≤ nameMax }

inductive Ident
  | iVariable
  | iFunctn
  | other
deriving DecidableEq

abbrev uDefine : BitVec 8 := 0x01
abbrev uRead : BitVec 8 := 0x02
abbrev uWritten : BitVec 8 := 0x04
abbrev uPublic : BitVec 8 := 0x10
abbrev uNative : BitVec 8 := 0x20

/-- What `assemble` reads of a symbol.  A native function is never public: `funcstub` sets the
flags of a native function anew, and `newfunc` does not take one. -/
structure Symbol where
  name : Name
  ident : Ident
  usage : BitVec 8
  addr : Cell
  exclusive : ident = .iFunctn → usage &&& uNative = 0 ∨ usage &&& uPublic = 0

namespace Symbol

def isNative (sym : Symbol) : Bool :=
  sym.ident = .iFunctn && sym.usage &&& uNative ≠ 0 && sym.usage &&& uRead ≠ 0 &&
    0 ≤ sym.addr.toInt

def isPublic (sym : Symbol) : Bool :=
  sym.ident = .iFunctn && sym.usage &&& uPublic ≠ 0 && sym.usage &&& uDefine ≠ 0

def isPubvar (sym : Symbol) : Bool :=
  sym.ident = .iVariable && sym.usage &&& uPublic ≠ 0 && sym.usage &&& (uRead ||| uWritten) ≠ 0

end Symbol

/-! `glbtab` -/

/-- `add_symbol`, sorting -/
def addSymbol (entry : Symbol) : List Symbol → List Symbol
  | [] => [entry]
  | next :: rest =>
      if 0 < strcmp entry.name.1.bytes next.name.1.bytes then next :: addSymbol entry rest
      else entry :: next :: rest

inductive Change
  | addSymbol (entry : Symbol)
  | deleteSymbol (index : Nat)

/-- `delete_symbol` is only ever called for a symbol that is in the table. -/
def change (glbtab : List Symbol) : Change → Option (List Symbol)
  | .addSymbol entry => some (addSymbol entry glbtab)
  | .deleteSymbol index => if index < glbtab.length then some (glbtab.eraseIdx index) else none

/-! The file -/

structure File where
  bytes : List Byte
  position : Nat

namespace File

/-- `pc_resetbin`; a seek to in front of the file fails, and leaves the place as it is. -/
def resetbin (file : File) (offset : Int) : File :=
  if 0 ≤ offset then { file with position := offset.toNat } else file

/-- `pc_writebin` -/
def writebin (file : File) (buffer : List Byte) : File where
  bytes := file.bytes.take file.position ++ List.replicate (file.position - file.bytes.length) 0 ++
    buffer ++ file.bytes.drop (file.position + buffer.length)
  position := file.position + buffer.length

def rewrite (file : File) (offset : Nat) (buffer : List Byte) : File :=
  (file.resetbin offset).writebin buffer

end File

/-- A file, `nameofs`, and the 16-bit `count` of the entries of a table. -/
structure Writer where
  file : File
  nameofs : Nat
  count : BitVec 16

structure Entry where
  address : Cell
  name : Name

/-- One turn of the loop for a table, an `AMX_FUNCSTUBNT` and the name. -/
def writeEntry (table : Nat) (w : Writer) (entry : Entry) : Writer :=
  let func := littleEndian 4 entry.address.toNat ++ littleEndian 4 w.nameofs
  let file := (w.file.resetbin (table + w.count.toInt * 8)).writebin func
  let file := file.rewrite w.nameofs (entry.name.1.bytes ++ [0])
  { file, nameofs := w.nameofs + (entry.name.1.size + 1), count := w.count + 1 }

/-- The loop for a table, from `count=0`. -/
def writeTable (table : Nat) (entries : List Entry) (w : Writer) : Writer :=
  entries.foldl (writeEntry table) { w with count := 0 }

def writeTables : Nat → List (List Entry) → Writer → Writer
  | _, [], w => w
  | table, entries :: rest, w =>
      writeTables (table + entries.length * 8) rest (writeTable table entries w)

/-- `AMX_HEADER`; its other fields are constants. -/
structure Header where
  size : Nat
  flags : Nat
  cod : Nat
  dat : Nat
  hea : Nat
  stp : Nat
  cip : Cell
  publics : Nat
  natives : Nat
  libraries : Nat
  pubvars : Nat
  tags : Nat
  nametable : Nat

/-- `sizeof hdr` -/
abbrev headerSize : Nat := 56

def Header.fields (hdr : Header) : List (Nat × Nat) :=
  [(4, hdr.size), (2, 0xf1e0), (1, 8), (1, 8), (2, hdr.flags), (2, 8), (4, hdr.cod), (4, hdr.dat),
    (4, hdr.hea), (4, hdr.stp), (4, hdr.cip.toNat), (4, hdr.publics), (4, hdr.natives),
    (4, hdr.libraries), (4, hdr.pubvars), (4, hdr.tags), (4, hdr.nametable)]

def Header.bytes (hdr : Header) : List Byte := fieldBytes hdr.fields

/-- What else there is for `assemble`: `lookup_alias`, the libraries and the public tags that go
to the file, what is written behind the header, and the length of the file if it is compressed. -/
structure Settings where
  lookupAlias : Name → Option Name
  libraries : List Name
  tags : List Entry
  ntvFuncid : Nat
  flags : Nat
  dataAlign : Nat
  codeIdx : Nat
  glbDeclared : Nat
  stkSize : Nat
  segments : List Byte
  compressed : Option Nat

section

variable (settings : Settings) (glbtab : List Symbol)

def Settings.nameOf (sym : Symbol) : Name :=
  if sym.usage &&& uNative = 0 then sym.name else (settings.lookupAlias sym.name).getD sym.name

/-- `nativelist`: the last function with each index counts.  `none` is an entry that is missing or
out of bounds. -/
def nativelist : Option (List Symbol) :=
  let natives := glbtab.filter Symbol.isNative
  if ∀ sym ∈ natives, sym.addr.toNat < natives.length then
    (List.range natives.length).mapM fun i => natives.reverse.find? fun sym => sym.addr.toNat = i
  else none

def publics : List Symbol := glbtab.filter Symbol.isPublic

def publicEntries : List Entry :=
  (publics glbtab).map fun sym => { address := sym.addr, name := sym.name }

def nativeEntries (natives : List Symbol) : List Entry :=
  natives.map fun sym => { address := 0, name := (settings.lookupAlias sym.name).getD sym.name }

def libraryEntries : List Entry :=
  settings.libraries.map fun name => { address := 0, name }

def pubvarEntries : List Entry :=
  (glbtab.filter Symbol.isPubvar).map fun sym => { address := sym.addr, name := sym.name }

def namesSize (names : List Name) : Nat := (names.map fun name => name.1.size + 1).sum

def nametablesize : Nat :=
  let matched := glbtab.filter fun sym => sym.isNative || sym.isPublic || sym.isPubvar
  2 + namesSize (matched.map settings.nameOf) + namesSize settings.libraries +
    namesSize (settings.tags.map Entry.name)

/-- `"main"` -/
def uMainfunc : List Byte := [109, 97, 105, 110]

/-- `mainaddr` -/
def mainaddr : Cell :=
  glbtab.foldl (fun addr sym =>
    if sym.ident = .iFunctn ∧ sym.name.1.bytes = uMainfunc then sym.addr else addr) (-1)

def padding : Nat :=
  let padding := settings.dataAlign -
    (headerSize + nametablesize settings glbtab) % settings.dataAlign
  if padding = settings.dataAlign then 0 else padding

def header : Header :=
  let publics := headerSize
  let natives := publics + (publicEntries glbtab).length * 8
  let libraries := natives + (glbtab.filter Symbol.isNative).length * 8
  let pubvars := libraries + settings.libraries.length * 8
  let tags := pubvars + (pubvarEntries glbtab).length * 8
  let nametable := tags + settings.tags.length * 8
  let cod := nametable + nametablesize settings glbtab + padding settings glbtab
  let dat := cod + settings.codeIdx
  let hea := dat + settings.glbDeclared * 4
  { size := hea, flags := settings.flags, cod, dat, hea, stp := hea + settings.stkSize * 4
    cip := mainaddr glbtab, publics, natives, libraries, pubvars, tags, nametable }

def beforeTables : Writer :=
  let hdr := header settings glbtab
  let file := (File.mk [] 0).rewrite 0 hdr.bytes
  { file := file.rewrite headerSize (List.replicate (hdr.cod - headerSize) 0)
    nameofs := hdr.nametable + 2
    count := 0 }

def writeHeader (natives : List Symbol) : Writer :=
  writeTables headerSize
    [publicEntries glbtab, nativeEntries settings natives, libraryEntries settings,
      pubvarEntries glbtab, settings.tags]
    (beforeTables settings glbtab)

def finalHeader : Header :=
  { header settings glbtab with
    size := settings.compressed.getD (header settings glbtab).size }

def finish (file : File) : File :=
  let hdr := header settings glbtab
  let file := file.rewrite hdr.nametable (littleEndian 2 nameMax)
  let file := file.rewrite hdr.cod settings.segments
  file.rewrite 0 (finalHeader settings glbtab).bytes

/-- `assemble`, with the program that it leaves in the file.  `none` is an assertion that fails, or
an offset that is too large for the header. -/
def assemble : Option (List Byte) := do
  let hdr := header settings glbtab
  let natives ← nativelist glbtab
  let w := writeHeader settings glbtab natives
  if settings.dataAlign ≠ 0 ∧ natives.length = settings.ntvFuncid ∧ hdr.cod < 2 ^ 31 ∧
      w.nameofs = hdr.nametable + nametablesize settings glbtab then
    some (finish settings glbtab w.file).bytes
  else none

end

/-! The abstract machine -/

def number (base : List Byte) (offset width : Nat) : Option Nat :=
  (Block.read base offset width).map ofLittleEndian

/-- `amx_NumPublics` -/
def numPublics (base : List Byte) : Option Nat := do
  let defsize ← number base 10 2
  let publics ← number base 32 4
  let natives ← number base 36 4
  if publics ≤ natives then some ((natives - publics) / defsize) else none

/-- `GETENTRY(hdr,publics,index)` -/
def getEntry (base : List Byte) (index : Nat) : Option Nat := do
  let defsize ← number base 10 2
  let publics ← number base 32 4
  some (publics + index * defsize)

def addressOf (base : List Byte) (index : Nat) : Option Nat := do
  let entry ← getEntry base index
  number base entry 4

/-- `GETENTRYNAME(hdr,entry)`: where the name is. -/
def getEntryName (base : List Byte) (entry : Nat) : Option Nat := do
  let defsize ← number base 10 2
  if defsize = 8 then number base (entry + 4) 4 else some (entry + 4)

/-- `amx_GetPublic`, with the buffer of `amx_FindPublic` -/
def getPublic (base : List Byte) (index : Nat) : Option CString := do
  let count ← numPublics base
  let entry ← getEntry base index
  let name ← getEntryName base entry
  let funcname := CString.ofMemory (base.drop name)
  if index < count ∧ 0 ∈ base.drop name ∧ funcname.size ≤ nameMax then some funcname else none

/-- `amx_FindPublic`; the inner `none` is `AMX_ERR_NOTFOUND`. -/
def findPublic (base : List Byte) (name : CString) : Option (Option Nat) := do
  let count ← numPublics base
  bisect (fun mid => (getPublic base mid).map fun pname => strcmp pname.bytes name.bytes)
    0 (count - 1)

end AmxModC.Compiler.Publics
