import AmxModC.Amxx.Model
import AmxModC.Amxx.Safety

namespace AmxModC.Amxx

open Foundation
open Image (amxFlagDebug)

/-! The writer of the compiler, from the compiled file to the container; `none` is a run that
ends without one. -/

/-- `compressBound`, `compress` with the room it is given, and `uncompress`. -/
structure Zlib where
  compressBound : BitVec 32 → BitVec 32
  compress : Nat → List Byte → Int × List Byte
  uncompress : Uncompress
  compress_le : ∀ room data, (compress room data).2.length ≤ room

def sizeofDbgHeader : Nat := 22

structure Abl where
  stp : BitVec 32
  cellsize : BitVec 8
  size : BitVec 32
  cmpsize : BitVec 32
  data : List Byte
  cmp : List Byte
deriving DecidableEq, Repr

structure BinPlugin where
  cellsize : BitVec 8
  imagesize : BitVec 32
  disksize : BitVec 32
  memsize : BitVec 32
  offs : BitVec 32
deriving DecidableEq, Repr

/-- `new char[bytes]` of the compiler, which throws. -/
def newOrThrow (heap : Nat → Bool) (bytes : BitVec 32) : Option Nat :=
  if 0 ≤ bytes.toInt ∧ heap bytes.toNat then some bytes.toNat else none

/-- The debug header is read from behind the image; `stale` is the stack. -/
def dbgSize (stale content : List Byte) (hdr : AmxHeader) : BitVec 32 :=
  let f : FileStream := { content, pos := min sizeofHeader content.length }
  BitVec.ofNat 32 (field (overwrite ((f.seek hdr.size.toInt).ahead.take sizeofDbgHeader) stale) 0 4)

def readFileIntoPl (heap : Nat → Bool) (stale content : List Byte) : Option Abl :=
  let hdr := AmxHeader.ofBytes (overwrite (content.take sizeofHeader) stale)
  let size :=
    if hdr.flags &&& amxFlagDebug ≠ 0 then hdr.size + dbgSize stale content hdr else hdr.size
  (newOrThrow heap size).map fun room =>
    { stp := hdr.stp
      cellsize := 4
      size
      cmpsize := 0
      data := overwrite (content.take room) (List.replicate room uninitialised)
      cmp := [] }

def compressPl (heap : Nat → Bool) (z : Zlib) (pl : Abl) : Option Abl :=
  (newOrThrow heap (z.compressBound pl.size)).bind fun room =>
    let (err, cmp) := z.compress room pl.data
    if err = zOk then some { pl with cmp, cmpsize := BitVec.ofNat 32 cmp.length, data := [] }
    else none

def pl2Bh (pl : Abl) (offs : BitVec 32) : BinPlugin where
  cellsize := pl.cellsize
  disksize := pl.cmpsize
  imagesize := pl.size
  memsize := pl.stp
  offs := offs

def writeBh (bh : BinPlugin) : List Byte :=
  littleEndian 1 bh.cellsize.toNat ++ littleEndian 4 bh.disksize.toNat ++
    littleEndian 4 bh.imagesize.toNat ++ littleEndian 4 bh.memsize.toNat ++
    littleEndian 4 bh.offs.toNat

def kEntries : BitVec 8 := 1

def kEntrySize : BitVec 32 := 4 * 4 + 1

def baseaddr : BitVec 32 := 4 + 2 + 1 + kEntrySize * kEntries.setWidth 32

def writeContainer (pl : Abl) : List Byte :=
  littleEndian 4 magicHeader2.toNat ++ littleEndian 2 magicVersion.toNat ++
    littleEndian 1 kEntries.toNat ++ writeBh (pl2Bh pl baseaddr) ++
    pl.cmp.take pl.cmpsize.toNat

def amxxpc (heap : Nat → Bool) (z : Zlib) (stale content : List Byte) : Option (List Byte) :=
  (readFileIntoPl heap stale content).bind fun pl32 =>
    (compressPl heap z pl32).bind fun pl32 =>
      if (writeContainer pl32).length ≤ offMax then some (writeContainer pl32) else none

open Image (AmxxError amxFlagDebug)

/-! What the writer writes, the reader finds. -/

def imageSize (content : List Byte) : BitVec 32 :=
  let hdr := AmxHeader.ofBytes content
  if hdr.flags &&& amxFlagDebug ≠ 0 then
    hdr.size + BitVec.ofNat 32 (field content hdr.size.toNat 4)
  else hdr.size

def image (content : List Byte) : List Byte := content.take (imageSize content).toNat

/-- A file as the compiler leaves it: the headers are whole, and the image lies in the file. -/
structure Compiled (content : List Byte) : Prop where
  wholeHeader : sizeofHeader ≤ content.length
  wholeDebug : (AmxHeader.ofBytes content).flags &&& amxFlagDebug ≠ 0 →
    0 ≤ (AmxHeader.ofBytes content).size.toInt ∧
      (AmxHeader.ofBytes content).size.toNat + sizeofDbgHeader ≤ content.length
  wholeImage : (imageSize content).toNat ≤ content.length

/-- `uncompress` undoes `compress`, given the room. -/
def Zlib.Undoes (z : Zlib) : Prop :=
  ∀ room data packed, z.compress room data = (zOk, packed) →
    ∀ destLen, data.length ≤ destLen → z.uncompress destLen packed = (zOk, data)

section

variable {heap : Nat → Bool} {z : Zlib} {stale content file packed : List Byte}

theorem toNat_of_toInt_nonneg {w : Nat} {n : BitVec w} (h : 0 ≤ n.toInt) :
    n.toInt = n.toNat := by
  rw [BitVec.toInt_eq_toNat_cond] at h ⊢
  split at h
  next hlt => exact if_pos hlt
  next hlt =>
    have := n.isLt
    omega

theorem newOrThrow_eq_some {bytes : BitVec 32} {room : Nat}
    (h : newOrThrow heap bytes = some room) : 0 ≤ bytes.toInt ∧ room = bytes.toNat := by
  rw [newOrThrow] at h
  split at h
  next hroom =>
    cases h
    exact ⟨hroom.1, rfl⟩
  next => cases h

theorem Compiled.dbgSize_eq
    (hcompiled : Compiled content)
    (hdebug : (AmxHeader.ofBytes content).flags &&& amxFlagDebug ≠ 0) :
    dbgSize stale content (AmxHeader.ofBytes content) =
      BitVec.ofNat 32 (field content (AmxHeader.ofBytes content).size.toNat 4) := by
  obtain ⟨hsize, hwhole⟩ := hcompiled.wholeDebug hdebug
  rw [dbgSize, toNat_of_toInt_nonneg hsize]
  simp only [FileStream.seek_natCast, FileStream.ahead]
  congr 1
  rw [overwrite, field_overwrite, field_take (by decide), field, field, List.drop_zero]
  rw [List.length_take, List.length_drop, Nat.min_eq_left (by omega)]
  decide

theorem Compiled.readFileIntoPl_eq
    (hcompiled : Compiled content)
    {pl : Abl}
    (h : readFileIntoPl heap stale content = some pl) :
    0 ≤ (imageSize content).toInt ∧
      pl = { stp := (AmxHeader.ofBytes content).stp
             cellsize := 4
             size := imageSize content
             cmpsize := 0
             data := image content
             cmp := [] } := by
  have hsize : (if (AmxHeader.ofBytes content).flags &&& amxFlagDebug ≠ 0 then
      (AmxHeader.ofBytes content).size + dbgSize stale content (AmxHeader.ofBytes content)
      else (AmxHeader.ofBytes content).size) = imageSize content := by
    rw [imageSize]
    split
    next hdebug => rw [hcompiled.dbgSize_eq hdebug]
    next => rfl
  rw [readFileIntoPl, ofBytes_overwrite hcompiled.wholeHeader] at h
  simp only [hsize] at h
  obtain ⟨room, hroom, rfl⟩ := Option.map_eq_some_iff.mp h
  obtain ⟨hnonneg, rfl⟩ := newOrThrow_eq_some hroom
  have hlength : (content.take (imageSize content).toNat).length =
      (imageSize content).toNat := by
    rw [List.length_take, Nat.min_eq_left hcompiled.wholeImage]
  have hdata : overwrite (content.take (imageSize content).toNat)
      (List.replicate (imageSize content).toNat uninitialised) = image content := by
    rw [overwrite, hlength, List.drop_of_length_le (by rw [List.length_replicate]), List.append_nil]
    rfl
  rw [hdata]
  exact ⟨hnonneg, rfl⟩

def entryOf (content packed : List Byte) : PluginEntry where
  cellsize := 4
  imagesize := imageSize content
  disksize := BitVec.ofNat 32 packed.length
  memsize := (AmxHeader.ofBytes content).stp
  offs := 24

def headBytes : List Byte :=
  littleEndian 4 magicHeader2.toNat ++ littleEndian 2 magicVersion.toNat ++
    littleEndian 1 kEntries.toNat

def entryBytes (pe : PluginEntry) : List Byte :=
  littleEndian 1 pe.cellsize.toNat ++ (littleEndian 4 pe.disksize.toNat ++
    (littleEndian 4 pe.imagesize.toNat ++ (littleEndian 4 pe.memsize.toNat ++
      (littleEndian 4 pe.offs.toNat ++ []))))

theorem reads_readPluginEntry (pe : PluginEntry) : readPluginEntry.Reads (entryBytes pe) pe := by
  have hint32 (num : BitVec 32) : readInt32.Reads (littleEndian 4 num.toNat) num :=
    Reader.reads_ofNat_number 4 num rfl
  exact (Reader.reads_ofNat_number 1 pe.cellsize rfl).bind <|
    (hint32 pe.disksize).bind <| (hint32 pe.imagesize).bind <| (hint32 pe.memsize).bind <|
      (hint32 pe.offs).bind <| Reader.reads_pure _

theorem length_entryBytes (pe : PluginEntry) : (entryBytes pe).length = 17 := by
  simp [entryBytes]

theorem compressPl_eq_some
    {pl pl32 : Abl}
    (h : compressPl heap z pl = some pl32) :
    ∃ room packed, z.compress room pl.data = (zOk, packed) ∧ packed.length < 2 ^ 32 ∧
      pl32 = { pl with cmp := packed, cmpsize := BitVec.ofNat 32 packed.length, data := [] } := by
  obtain ⟨room, hroom, h⟩ := Option.bind_eq_some_iff.mp h
  obtain ⟨-, rfl⟩ := newOrThrow_eq_some hroom
  change (if (z.compress (z.compressBound pl.size).toNat pl.data).1 = zOk then _ else none) = _ at h
  split at h
  next herr =>
    cases h
    refine ⟨_, _, Prod.ext herr rfl, Nat.lt_of_le_of_lt (z.compress_le _ _) ?_, rfl⟩
    exact BitVec.isLt _
  next => cases h

theorem amxxpc_eq_some
    (hcompiled : Compiled content)
    (h : amxxpc heap z stale content = some file) :
    ∃ room packed, z.compress room (image content) = (zOk, packed) ∧
      0 ≤ (imageSize content).toInt ∧
      file = headBytes ++ entryBytes (entryOf content packed) ++ packed ∧
      file.length ≤ offMax := by
  obtain ⟨pl, hpl, h⟩ := Option.bind_eq_some_iff.mp h
  obtain ⟨hnonneg, rfl⟩ := hcompiled.readFileIntoPl_eq hpl
  obtain ⟨pl32, hpl32, h⟩ := Option.bind_eq_some_iff.mp h
  obtain ⟨room, packed, hcompress, hpacked, rfl⟩ := compressPl_eq_some hpl32
  have hfile : writeContainer
      { stp := (AmxHeader.ofBytes content).stp
        cellsize := 4
        size := imageSize content
        cmpsize := BitVec.ofNat 32 packed.length
        data := []
        cmp := packed } = headBytes ++ entryBytes (entryOf content packed) ++ packed := by
    simp only [writeContainer, BitVec.toNat_ofNat, Nat.mod_eq_of_lt hpacked, List.take_length]
    rfl
  simp only [hfile] at h
  split at h
  next hlength =>
    cases h
    exact ⟨room, packed, hcompress, hnonneg, rfl, hlength⟩
  next => cases h

theorem opened_written
    {readerHeap : Nat → Bool}
    {disk : CString → Option (List Byte)}
    {name : CString}
    (hheap : readerHeap sizeofPluginEntry = true)
    (hdisk : disk name = some (headBytes ++ entryBytes (entryOf content packed) ++ packed))
    (hlength : (headBytes ++ entryBytes (entryOf content packed) ++ packed).length ≤ offMax)
    (cellSize : Int) :
    CAmxxReader.new readerHeap stale disk (some name) cellSize =
      some (if cellSize = 4 then
        { CAmxxReader.initial with
          pFile := some
            { content := headBytes ++ entryBytes (entryOf content packed) ++ packed, pos := 24 }
          amxxFile := true
          plugins := [entryOf content packed]
          sectionLength := BitVec.ofNat 32 packed.length }
      else CAmxxReader.initial.fail .sectionNotFound) := by
  have hsplit : headBytes ++ entryBytes (entryOf content packed) ++ packed =
      littleEndian 4 magicHeader2.toNat ++ (littleEndian 2 magicVersion.toNat ++
        (littleEndian 1 kEntries.toNat ++ (entryBytes (entryOf content packed) ++ packed))) := by
    simp only [headBytes, List.append_assoc]
  generalize hfile : headBytes ++ entryBytes (entryOf content packed) ++ packed = file at *
  have hmagic : FileStream.read readInt32 { content := file, pos := 0 } =
      some (magicHeader2, { content := file, pos := 4 }) :=
    FileStream.read_of_reads (Reader.reads_ofNat_number 4 _ rfl) hsplit
  have hversion : FileStream.read readInt16 { content := file, pos := 4 } =
      some (magicVersion, { content := file, pos := 6 }) :=
    FileStream.read_of_reads (Reader.reads_ofNat_number 2 _ rfl)
      (congrArg (List.drop 4) hsplit)
  have hcount : FileStream.read readInt8 { content := file, pos := 6 } =
      some (kEntries, { content := file, pos := 7 }) :=
    FileStream.read_of_reads (Reader.reads_ofNat_number 1 _ rfl)
      (congrArg (List.drop 6) hsplit)
  have hentry : FileStream.read readPluginEntry { content := file, pos := 7 } =
      some (entryOf content packed, { content := file, pos := 24 }) := by
    have hread := FileStream.read_of_reads (f := { content := file, pos := 7 })
      (reads_readPluginEntry (entryOf content packed)) (congrArg (List.drop 7) hsplit)
    rw [length_entryBytes] at hread
    exact hread
  have hopen : fopen (disk name) = some { content := file, pos := 0 } := by
    rw [hdisk]
    exact if_pos hlength
  have htable : newTable readerHeap kEntries = [⟨0, 0, 0, 0, 0⟩] := if_pos hheap
  rw [CAmxxReader.new, hopen]
  simp only
  rw [hmagic]
  simp only
  rw [if_neg (by decide), if_pos trivial, CAmxxReader.openAmxx, hversion]
  simp only
  rw [if_neg (by decide), hcount]
  simp only
  rw [htable]
  change (CAmxxReader.readTable 1 0 [⟨0, 0, 0, 0, 0⟩] _).bind _ = _
  rw [CAmxxReader.readTable, if_pos (by decide), hentry]
  change (CAmxxReader.findEntry [entryOf content packed] cellSize 1 0).bind _ = _
  rw [CAmxxReader.findEntry, List.getElem?_cons_zero, Option.bind_some]
  split
  next hsize =>
    have hfour : cellSize = 4 := hsize.symm
    rw [if_pos hfour]
    rfl
  next hsize =>
    have hother : cellSize ≠ 4 := Ne.symm hsize
    rw [if_neg hother]
    rfl

theorem bufferSize_ge {imagesize : BitVec 32} (memsize : BitVec 32) (h : 0 ≤ imagesize.toInt) :
    imagesize.toNat <
        (if memsize.slt imagesize then imagesize + 1 else memsize + 1).toNat ∧
      memsize.toInt <
        (if memsize.slt imagesize then imagesize + 1 else memsize + 1).toNat := by
  have hsucc (n : BitVec 32) (hn : 0 ≤ n.toInt) : ((n + 1).toNat : Int) = n.toInt + 1 := by
    have hnat := toNat_of_toInt_nonneg hn
    have hlt := BitVec.two_mul_toInt_lt (x := n)
    rw [BitVec.toNat_add, hnat]
    change (((n.toNat + 1) % 2 ^ 32 : Nat) : Int) = _
    omega
  have himage := toNat_of_toInt_nonneg h
  split
  next hslt =>
    have hlt := BitVec.slt_iff_toInt_lt.mp hslt
    have := hsucc imagesize h
    omega
  next hslt =>
    have hle := Int.not_lt.mp fun hlt => hslt (BitVec.slt_iff_toInt_lt.mpr hlt)
    have := hsucc memsize (h.trans hle)
    omega

def Returns (heap : Nat → Bool) (z : Zlib) (stale : List Byte) (file : List Byte)
    (cellSize : Int) (bytes : List Byte) (memsize : Int) : Prop :=
  ∀ (disk : CString → Option (List Byte)) (name : CString), disk name = some file →
    ∃ reader, CAmxxReader.new heap stale disk (some name) cellSize = some reader ∧
      reader.status = .none ∧
      ∃ size, reader.getBufferSize = some (size, reader) ∧ bytes.length ≤ size.toNat ∧
        memsize ≤ size.toNat ∧
        ∀ buffer : List Byte, buffer.length = size.toNat →
          reader.getSection heap z.uncompress buffer = some (.none, overwrite bytes buffer, reader)

def NotFound (heap : Nat → Bool) (stale : List Byte) (file : List Byte) (cellSize : Int) : Prop :=
  ∀ (disk : CString → Option (List Byte)) (name : CString), disk name = some file →
    ∃ reader, CAmxxReader.new heap stale disk (some name) cellSize = some reader ∧
      reader.status = .sectionNotFound

theorem expand_eq
    {uncompress : Uncompress}
    {reader : CAmxxReader}
    {f : FileStream}
    {destLen : BitVec 32}
    {bytes buffer : List Byte}
    (hlength : reader.sectionLength.toNat = f.ahead.length)
    (hheap : heap (reader.sectionLength + 1).toNat = true)
    (hlast : reader.sectionLength ≠ -1)
    (huncompress : uncompress destLen.toNat f.ahead = (zOk, bytes))
    (hbuffer : bytes.length ≤ buffer.length) :
    reader.expand heap uncompress destLen buffer f =
      some (.none, overwrite bytes buffer, reader) := by
  have hroom : f.ahead.length ≤ newChars heap (reader.sectionLength + 1) := by
    have hmin : min reader.sectionLength.toNat f.ahead.length ≤
        newChars heap (reader.sectionLength + 1) :=
      (min_le_newChars_iff _ _).mpr (Or.inr (Or.inr ⟨hlast, hheap⟩))
    rw [hlength, Nat.min_self] at hmin
    exact hmin
  have hread : freadInto (newChars heap (reader.sectionLength + 1))
      reader.sectionLength.toNat f = some (f.ahead, true) := by
    rw [freadInto, hlength, List.take_length, if_pos hroom]
    simp
  rw [CAmxxReader.expand, hread, Option.bind_some]
  simp only [huncompress]
  rw [if_pos hbuffer, if_pos trivial]

theorem returns_written
    {readerHeap : Nat → Bool}
    {room : Nat}
    (hundoes : z.Undoes)
    (hcompiled : Compiled content)
    (hcompress : z.compress room (image content) = (zOk, packed))
    (hnonneg : 0 ≤ (imageSize content).toInt)
    (hlength : (headBytes ++ entryBytes (entryOf content packed) ++ packed).length ≤ offMax)
    (hheap : ∀ n ≤ (headBytes ++ entryBytes (entryOf content packed) ++ packed).length,
      readerHeap n = true) :
    Returns readerHeap z stale (headBytes ++ entryBytes (entryOf content packed) ++ packed) 4
      (image content) (AmxHeader.ofBytes content).stp.toInt := by
  have hhead : (headBytes ++ entryBytes (entryOf content packed)).length = 24 := by
    rw [List.length_append, length_entryBytes]
    rfl
  have htotal : (headBytes ++ entryBytes (entryOf content packed) ++ packed).length =
      24 + packed.length := by
    rw [List.length_append, hhead]
  intro disk name hdisk
  have himage : (image content).length = (imageSize content).toNat := by
    rw [image, List.length_take, Nat.min_eq_left hcompiled.wholeImage]
  have hsize := bufferSize_ge (AmxHeader.ofBytes content).stp hnonneg
  refine ⟨_, opened_written (hheap _ ?_) hdisk hlength 4, ?_⟩
  · rw [htotal]
    unfold sizeofPluginEntry
    omega
  · rw [if_pos rfl]
    refine ⟨rfl, _, rfl, ?_, hsize.2.le, fun buffer hbuffer => ?_⟩
    · rw [himage]
      exact hsize.1.le
    · have hbound : packed.length < 2 ^ 31 - 1 := by
        unfold offMax at hlength
        omega
      have hpacked : (BitVec.ofNat 32 packed.length).toNat = packed.length := by
        rw [BitVec.toNat_ofNat]
        exact Nat.mod_eq_of_lt (by omega)
      have hsucc : (BitVec.ofNat 32 packed.length + 1).toNat = packed.length + 1 := by
        rw [BitVec.toNat_add, hpacked]
        exact Nat.mod_eq_of_lt (by change packed.length + 1 < _; omega)
      have hahead : FileStream.ahead
          { content := headBytes ++ entryBytes (entryOf content packed) ++ packed, pos := 24 } =
            packed := List.drop_left' hhead
      refine expand_eq ?_ ?_ ?_ ?_ ?_
      · exact hpacked.trans (congrArg List.length hahead.symm)
      · rw [hsucc]
        exact hheap _ (by omega)
      · intro hlast
        have := congrArg BitVec.toNat hlast
        rw [hpacked] at this
        change packed.length = 2 ^ 32 - 1 at this
        omega
      · refine (congrArg (z.uncompress _) hahead).trans (hundoes room _ _ hcompress _ ?_)
        rw [himage]
        exact hsize.1.le
      · rw [hbuffer, himage]
        exact hsize.1.le

/-- The container holds the image for the cell size 4, and nothing for any other. -/
theorem returns_image
    (hundoes : z.Undoes)
    (hcompiled : Compiled content)
    (hwritten : amxxpc heap z stale content = some file)
    {readerHeap : Nat → Bool}
    (hheap : ∀ n ≤ file.length, readerHeap n = true)
    (readerStale : List Byte) :
    Returns readerHeap z readerStale file 4 (image content)
        (AmxHeader.ofBytes content).stp.toInt ∧
      ∀ cellSize ≠ 4, NotFound readerHeap readerStale file cellSize := by
  obtain ⟨room, packed, hcompress, hnonneg, rfl, hlength⟩ := amxxpc_eq_some hcompiled hwritten
  refine ⟨returns_written hundoes hcompiled hcompress hnonneg hlength hheap,
    fun cellSize hcell disk name hdisk => ?_⟩
  have htable : readerHeap sizeofPluginEntry = true := by
    refine hheap _ ?_
    rw [List.length_append, List.length_append, length_entryBytes]
    change 20 ≤ 7 + 17 + packed.length
    omega
  refine ⟨_, opened_written htable hdisk hlength cellSize, ?_⟩
  rw [if_neg hcell]
  rfl

end

def headerOnly : List Byte :=
  [56, 0, 0, 0, 0xE0, 0xF1, 8, 8, 0, 0, 8, 0, 56, 0, 0, 0, 56, 0, 0, 0, 56, 0, 0, 0, 64, 0, 0, 0] ++
    List.replicate 28 0

def headerPacked : List Byte :=
  [0x78, 0x9C, 179, 96, 96, 96, 120, 240, 145, 131, 131, 129, 129, 131, 193, 2, 200, 134, 97, 7,
    6, 252, 0, 0, 144, 195, 3, 10]

def headerZlib : Zlib where
  compressBound n := n + (n >>> 12) + (n >>> 14) + (n >>> 25) + 13
  compress room data :=
    if data = headerOnly ∧ headerPacked.length ≤ room then (zOk, headerPacked) else (-5, [])
  uncompress destLen packed :=
    if packed = headerPacked ∧ headerOnly.length ≤ destLen then (zOk, headerOnly) else (-3, [])
  compress_le room data := by
    split
    next h => exact h.2
    next => exact Nat.zero_le _

theorem headerZlib_undoes : headerZlib.Undoes := by
  intro room data packed hcompress destLen hroom
  simp only [headerZlib] at hcompress ⊢
  split at hcompress
  next h =>
    cases hcompress
    obtain ⟨rfl, -⟩ := h
    exact if_pos ⟨rfl, hroom⟩
  next => cases hcompress

theorem headerOnly_compiled : Compiled headerOnly where
  wholeHeader := by decide
  wholeDebug h := absurd rfl h
  wholeImage := by decide

def headerContainer : List Byte :=
  headBytes ++ entryBytes (entryOf headerOnly headerPacked) ++ headerPacked

theorem headerContainer_written :
    amxxpc (fun _ => true) headerZlib [] headerOnly = some headerContainer := by
  decide +kernel

theorem returns_headerOnly :
    Returns (fun _ => true) headerZlib [] headerContainer 4 (image headerOnly)
        (AmxHeader.ofBytes headerOnly).stp.toInt ∧
      ∀ cellSize ≠ 4, NotFound (fun _ => true) [] headerContainer cellSize :=
  returns_image headerZlib_undoes headerOnly_compiled headerContainer_written (fun _ _ => rfl) []

structure PluginImage where
  cellsize : Int
  memsize : Int
  bytes : List Byte

def RoundTrips (z : Zlib) (images : List PluginImage) : Prop :=
  ∃ content file, Compiled content ∧ amxxpc (fun _ => true) z [] content = some file ∧
    ∀ image ∈ images,
      Returns (fun _ => true) z [] file image.cellsize image.bytes image.memsize

/-- The writer knows one cell size only. -/
theorem not_roundTrips_eight :
    ¬∀ (z : Zlib) (images : List PluginImage), z.Undoes → 1 ≤ images.length →
      images.length ≤ 255 → RoundTrips z images := by
  intro hall
  obtain ⟨content, file, hcompiled, hwritten, hreturns⟩ :=
    hall headerZlib [⟨8, 64, headerOnly⟩] headerZlib_undoes (by decide) (by decide)
  obtain ⟨room, packed, -, -, rfl, hlength⟩ := amxxpc_eq_some hcompiled hwritten
  obtain ⟨reader, hnew, hstatus, -⟩ :=
    hreturns _ (List.mem_singleton_self _) (fun _ => some _) default rfl
  rw [opened_written rfl rfl hlength, if_neg (by decide)] at hnew
  cases hnew
  cases hstatus

end AmxModC.Amxx
