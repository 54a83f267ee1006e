import AmxModC.Foundation.CString
import AmxModC.Foundation.Stream
import AmxModC.Image.Model

namespace AmxModC.Amxx

open Foundation
open Image (AmxxError amxMagic amxFlagDebug)

/-! `CAmxxReader`, on the bytes of a file and for the build in which `new[]` is `calloc`. In all
that follows `none` stands for an access outside an allocated block. -/

def magicRleb : BitVec 32 := 0x524C4542
def magicHeader : BitVec 32 := 0x414D5842
def magicHeader2 : BitVec 32 := 0x414D5858
def magicVersion : BitVec 16 := 0x0300

/-- `off_t` has 32 bits, so a longer file cannot be opened, and none can be written. -/
def offMax : Nat := 2 ^ 31 - 1

def sizeofHeader : Nat := 56
def sizeofTableEntry : Nat := 9
def sizeofPluginEntry : Nat := 20

def readInt8 : Reader (BitVec 8) := BitVec.ofNat 8 <$> Reader.number 1

def readInt16 : Reader (BitVec 16) := BitVec.ofNat 16 <$> Reader.number 2

def readInt32 : Reader (BitVec 32) := BitVec.ofNat 32 <$> Reader.number 4

structure PluginEntry where
  cellsize : BitVec 8
  imagesize : BitVec 32
  disksize : BitVec 32
  memsize : BitVec 32
  offs : BitVec 32
deriving DecidableEq, Repr

def readPluginEntry : Reader PluginEntry := do
  let cellsize ← readInt8
  let disksize ← readInt32
  let imagesize ← readInt32
  let memsize ← readInt32
  let offs ← readInt32
  return { cellsize, imagesize, disksize, memsize, offs }

structure TableEntry where
  cellSize : BitVec 8
  origSize : BitVec 32
  offset : BitVec 32
deriving DecidableEq, Repr

def readTableEntry : Reader TableEntry := do
  let cellSize ← readInt8
  let origSize ← readInt32
  let offset ← readInt32
  return { cellSize, origSize, offset }

def field (bytes : List Byte) (offset width : Nat) : Nat :=
  ofLittleEndian ((bytes.drop offset).take width)

/-- Of `AMX_HEADER`, what the reader and the writer look at. -/
structure AmxHeader where
  size : BitVec 32
  magic : BitVec 16
  flags : BitVec 16
  stp : BitVec 32
deriving DecidableEq, Repr

def AmxHeader.ofBytes (hdr : List Byte) : AmxHeader where
  size := BitVec.ofNat 32 (field hdr 0 4)
  magic := BitVec.ofNat 16 (field hdr 4 2)
  flags := BitVec.ofNat 16 (field hdr 8 2)
  stp := BitVec.ofNat 32 (field hdr 24 4)

/-- `bytes` written over the front of a block. -/
def overwrite (bytes block : List Byte) : List Byte := bytes ++ block.drop bytes.length

def fopen (file : Option (List Byte)) : Option FileStream :=
  file.bind fun content =>
    if content.length ≤ offMax then some { content, pos := 0 } else none

/-- The size of the block behind the pointer of `new char[bytes]`, which is null when `calloc`
finds no memory. -/
def newChars (heap : Nat → Bool) (bytes : BitVec 32) : Nat :=
  if heap bytes.toNat then bytes.toNat else 0

def newTable (heap : Nat → Bool) (numPlugins : BitVec 8) : List PluginEntry :=
  if heap (sizeofPluginEntry * numPlugins.toInt.toNat) then
    List.replicate numPlugins.toInt.toNat ⟨0, 0, 0, 0, 0⟩
  else []

/-- `fread` of single bytes into a block: what it read, and whether that was all. -/
def freadInto (room count : Nat) (f : FileStream) : Option (List Byte × Bool) :=
  let bytes := f.ahead.take count
  if bytes.length ≤ room then some (bytes, bytes.length = count) else none

structure CAmxxReader where
  status : AmxxError
  pFile : Option FileStream
  oldFile : Bool
  amxxFile : Bool
  plugins : List PluginEntry
  entry : Nat
  sectionHdrOffset : Nat
  sectionLength : BitVec 32
deriving DecidableEq, Repr

namespace CAmxxReader

def initial : CAmxxReader where
  status := .none
  pFile := none
  oldFile := false
  amxxFile := false
  plugins := []
  entry := 0
  sectionHdrOffset := 0
  sectionLength := 0

def fail (reader : CAmxxReader) (status : AmxxError) : CAmxxReader :=
  { reader with status, pFile := none }

/-- The loop over the entries of the file; the inner `none` is the end of the file. -/
def readTable : Nat → Nat → List PluginEntry → FileStream →
    Option (Option (List PluginEntry × FileStream))
  | 0, _, plugins, f => some (some (plugins, f))
  | count + 1, i, plugins, f =>
      if i < plugins.length then
        match f.read readPluginEntry with
        | none => some none
        | some (pe, f) => readTable count (i + 1) (plugins.set i pe) f
      else none

/-- The loop over the entries of the table; the inner `none` is that no entry has the cell
size. -/
def findEntry (plugins : List PluginEntry) (cellSize : Int) : Nat → Nat → Option (Option Nat)
  | 0, _ => some none
  | count + 1, i =>
      plugins[i]?.bind fun pe =>
        if pe.cellsize.toInt = cellSize then some (some i)
        else findEntry plugins cellSize count (i + 1)

def openAmxx (heap : Nat → Bool) (cellSize : Int) (f : FileStream) : Option CAmxxReader :=
  match f.read readInt16 with
  | none => some (initial.fail .fileInvalid)
  | some (version, f) =>
      if magicVersion.slt version then some (initial.fail .oldFile)
      else
        match f.read readInt8 with
        | none => some (initial.fail .fileInvalid)
        | some (numPlugins, f) =>
            let count := numPlugins.toInt.toNat
            (readTable count 0 (newTable heap numPlugins) f).bind fun
              | none => some (initial.fail .fileInvalid)
              | some (plugins, f) =>
                  (findEntry plugins cellSize count 0).bind fun
                    | none => some (initial.fail .sectionNotFound)
                    | some entry =>
                        plugins[entry]?.map fun pe =>
                          { initial with
                            pFile := some f
                            amxxFile := true
                            plugins, entry
                            sectionLength := pe.disksize }

/-- The search of the older container: the entry with the cell size, its number and the
position behind it. The inner `none` is the end of the file. -/
def findTableEntry (cellSize : Int) : Nat → Nat → FileStream →
    Option (Option (TableEntry × Nat × FileStream))
  | 0, _, _ => some none
  | count + 1, i, f =>
      match f.read readTableEntry with
      | none => none
      | some (entry, f) =>
          if entry.cellSize.toInt = cellSize then some (some (entry, i, f))
          else findTableEntry cellSize count (i + 1) f

def openTable (cellSize : Int) (f : FileStream) : CAmxxReader :=
  match f.read readInt8 with
  | none => initial.fail .fileInvalid
  | some (numOfPlugins, f) =>
      match findTableEntry cellSize numOfPlugins.toInt.toNat 0 f with
      | none => initial.fail .fileInvalid
      | some none => initial.fail .sectionNotFound
      | some (some (entry, i, f)) =>
          let sectionHdrOffset := f.pos - sizeofTableEntry
          if (i : Int) + 1 < numOfPlugins.toInt then
            match f.read readTableEntry with
            | none => initial.fail .fileInvalid
            | some (nextEntry, f) =>
                { initial with
                  pFile := some f
                  sectionHdrOffset
                  sectionLength := nextEntry.offset - entry.offset }
          else
            { initial with
              pFile := some { f with pos := f.content.length }
              sectionHdrOffset
              sectionLength := BitVec.ofNat 32 f.content.length - entry.offset }

/-- A file shorter than the header leaves the end of `hdr` as the stack had it. -/
def openPlain (stale : List Byte) (cellSize : Int) (f : FileStream) : CAmxxReader :=
  let hdr := AmxHeader.ofBytes (overwrite (f.content.take sizeofHeader) stale)
  if hdr.magic = amxMagic then
    if cellSize ≠ 4 then initial.fail .sectionNotFound
    else
      { initial with
        pFile := some { f with pos := min sizeofHeader f.content.length }
        oldFile := true }
  else initial.fail .fileInvalid

def new (heap : Nat → Bool) (stale : List Byte) (disk : CString → Option (List Byte))
    (filename : Option CString) (cellsize : Int) : Option CAmxxReader :=
  match filename with
  | none => some (initial.fail .invalidParam)
  | some filename =>
      match fopen (disk filename) with
      | none => some (initial.fail .fileOpen)
      | some f =>
          match f.read readInt32 with
          | none => some (initial.fail .fileInvalid)
          | some (magic, f) =>
              if magic = magicRleb then some (initial.fail .oldFile)
              else if magic = magicHeader2 then openAmxx heap cellsize f
              else if magic = magicHeader then some (openTable cellsize f)
              else some (openPlain stale cellsize f)

def getBufferSize (reader : CAmxxReader) : Option (BitVec 32 × CAmxxReader) :=
  match reader.pFile with
  | none => some (0, reader)
  | some f =>
      if reader.oldFile then
        match (f.seek 0).read (Reader.take sizeofHeader) with
        | none => some (0, reader.fail .fileInvalid)
        | some (hdr, _) => some ((AmxHeader.ofBytes hdr).stp, reader)
      else if reader.amxxFile then
        reader.plugins[reader.entry]?.map fun pe =>
          (if pe.memsize.slt pe.imagesize then pe.imagesize + 1 else pe.memsize + 1, reader)
      else
        match (f.seek reader.sectionHdrOffset).read readTableEntry with
        | none => some (0, reader.fail .fileInvalid)
        | some (entry, _) => some (entry.origSize + 1, reader)

end CAmxxReader

/-- What `uncompress` returns, and what it has written to the destination of the given length. -/
abbrev Uncompress := Nat → List Byte → Int × List Byte

def zOk : Int := 0

namespace CAmxxReader

def expand (heap : Nat → Bool) (uncompress : Uncompress) (reader : CAmxxReader)
    (destLen : BitVec 32) (buffer : List Byte) (f : FileStream) :
    Option (AmxxError × List Byte × CAmxxReader) :=
  (freadInto (newChars heap (reader.sectionLength + 1)) reader.sectionLength.toNat f).bind fun
    | (_, false) => some (.fileInvalid, buffer, reader.fail .fileInvalid)
    | (tempBuffer, true) =>
        let (result, bytes) := uncompress destLen.toNat tempBuffer
        if bytes.length ≤ buffer.length then
          if result = zOk then some (.none, overwrite bytes buffer, reader)
          else some (.decompress, overwrite bytes buffer, { reader with status := .decompress })
        else none

def getSection (heap : Nat → Bool) (uncompress : Uncompress) (reader : CAmxxReader)
    (buffer : List Byte) : Option (AmxxError × List Byte × CAmxxReader) :=
  match reader.pFile with
  | none => some (reader.status, buffer, reader)
  | some f =>
      if reader.oldFile then
        (freadInto buffer.length f.content.length (f.seek 0)).map fun
          | (bytes, false) => (.fileInvalid, overwrite bytes buffer, reader.fail .fileInvalid)
          | (bytes, true) => (.none, overwrite bytes buffer, { reader with status := .none })
      else if reader.amxxFile then
        reader.plugins[reader.entry]?.bind fun pe =>
          reader.getBufferSize.bind fun (destLen, reader) =>
            reader.expand heap uncompress destLen buffer (f.seek pe.offs.toInt)
      else
        match (f.seek reader.sectionHdrOffset).read readTableEntry with
        | none => some (.fileInvalid, buffer, reader.fail .fileInvalid)
        | some (entry, f) =>
            reader.getBufferSize.bind fun (destLen, reader) =>
              reader.expand heap uncompress destLen buffer (f.seek entry.offset.toInt)

end CAmxxReader

end AmxModC.Amxx
