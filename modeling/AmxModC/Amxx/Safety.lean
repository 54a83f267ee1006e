import AmxModC.Amxx.Layout

namespace AmxModC.Amxx

open Foundation
open Image (AmxxError amxMagic)

/-! Which files are read without a write behind a block. -/

/-- `uncompress` writes no more than it is told there is room for. -/
def Uncompress.Bounded (uncompress : Uncompress) : Prop :=
  ∀ destLen source, (uncompress destLen source).2.length ≤ destLen

namespace CAmxxReader

def ReadsSafely (heap : Nat → Bool) (uncompress : Uncompress) (reader : CAmxxReader) : Prop :=
  reader.status = .none →
    ∃ size sized, reader.getBufferSize = some (size, sized) ∧
      ∀ buffer : List Byte, buffer.length = size.toNat →
        (sized.getSection heap uncompress buffer).isSome

def SafeFrom (heap : Nat → Bool) (uncompress : Uncompress) (opened : Option CAmxxReader) : Prop :=
  ∃ reader, opened = some reader ∧ reader.ReadsSafely heap uncompress

def Safe (heap : Nat → Bool) (uncompress : Uncompress) (stale : List Byte)
    (disk : CString → Option (List Byte)) (filename : Option CString) (cellsize : Int) : Prop :=
  SafeFrom heap uncompress (new heap stale disk filename cellsize)

end CAmxxReader

structure Extent where
  length : BitVec 32
  start : Nat

namespace Extent

/-- A position that `fseek` refuses leaves the file where it is. -/
def placed (length offset : BitVec 32) (behind : Nat) : Extent where
  length := length
  start := if offset.toInt < 0 then behind else offset.toInt.toNat

/-- The file has no byte of the section, or `new char[m_SectionLength + 1]` is a block of more
than the section. -/
def Fits (heap : Nat → Bool) (content : List Byte) (extent : Extent) : Prop :=
  extent.length = 0 ∨ content.length ≤ extent.start ∨
    extent.length ≠ -1 ∧ heap (extent.length + 1).toNat

end Extent

def magicOf (content : List Byte) : BitVec 32 := BitVec.ofNat 32 (field content 0 4)

def versionOf (content : List Byte) : BitVec 16 := BitVec.ofNat 16 (field content 4 2)

def numPluginsOf (content : List Byte) (offset : Nat) : BitVec 8 :=
  BitVec.ofNat 8 (field content offset 1)

def newExtent? (content : List Byte) (cellSize : Int) : Option Extent :=
  let count := (numPluginsOf content 6).toInt.toNat
  (readEntries count (content.drop 7)).bind fun entries =>
    (entries.1.find? fun pe => pe.cellsize.toInt = cellSize).map fun pe =>
      .placed pe.disksize pe.offs (7 + 17 * count)

def oldExtent? (content : List Byte) (cellSize : Int) : Option Extent :=
  let count := (numPluginsOf content 4).toInt.toNat
  (tableIndex? content cellSize 0 count).bind fun i =>
    (tableEntryAt content i).bind fun entry =>
      (if i + 1 < count then
        (tableEntryAt content (i + 1)).map fun next => next.offset - entry.offset
      else some (BitVec.ofNat 32 content.length - entry.offset)).map fun length =>
        .placed length entry.offset (5 + sizeofTableEntry * (i + 1))

def NewFits (heap : Nat → Bool) (content : List Byte) (cellSize : Int) : Prop :=
  let count := (numPluginsOf content 6).toInt.toNat
  (count = 0 ∨ heap (sizeofPluginEntry * count)) ∧
    ∀ extent ∈ newExtent? content cellSize, extent.Fits heap content

def OldFits (heap : Nat → Bool) (content : List Byte) (cellSize : Int) : Prop :=
  ∀ extent ∈ oldExtent? content cellSize, extent.Fits heap content

/-- A plain file is copied as a whole, into the `stp` bytes of its header. -/
def PlainFits (content : List Byte) (cellSize : Int) : Prop :=
  (AmxHeader.ofBytes content).magic = amxMagic → cellSize = 4 →
    content.length ≤ (AmxHeader.ofBytes content).stp.toNat

def Fits (heap : Nat → Bool) (content : List Byte) (cellSize : Int) : Prop :=
  if magicOf content = magicRleb then True
  else if magicOf content = magicHeader2 then
    7 ≤ content.length → ¬magicVersion.slt (versionOf content) → NewFits heap content cellSize
  else if magicOf content = magicHeader then
    5 ≤ content.length → OldFits heap content cellSize
  else sizeofHeader ≤ content.length → PlainFits content cellSize

section

variable {heap : Nat → Bool} {uncompress : Uncompress} {stale content : List Byte}
  {cellSize : Int} {reader : CAmxxReader} {f : FileStream}

theorem min_le_newChars_iff (length : BitVec 32) (available : Nat) :
    min length.toNat available ≤ newChars heap (length + 1) ↔
      length = 0 ∨ available = 0 ∨ length ≠ -1 ∧ heap (length + 1).toNat = true := by
  have hzero : length = 0 ↔ length.toNat = 0 := by
    rw [← BitVec.toNat_inj]
    rfl
  have hsucc : (length + 1).toNat = (length.toNat + 1) % 2 ^ 32 := BitVec.toNat_add length 1
  have hlast : length = -1 ↔ length.toNat = 2 ^ 32 - 1 := by
    rw [← BitVec.toNat_inj]
    rfl
  have hlt := length.isLt
  rw [newChars, hzero, Ne, hlast]
  cases hheap : heap (length + 1).toNat with
  | false =>
      simp only [Bool.false_eq_true, if_false, and_false, or_false]
      omega
  | true =>
      simp only [if_true, and_true]
      omega

theorem fits_iff (extent : Extent) :
    extent.Fits heap content ↔
      min extent.length.toNat (content.length - extent.start) ≤
        newChars heap (extent.length + 1) := by
  rw [min_le_newChars_iff, Extent.Fits, Nat.sub_eq_zero_iff_le]

theorem length_seek (length offset : BitVec 32) (pos : Nat) :
    ((FileStream.mk content pos).seek offset.toInt).ahead.length =
      content.length - (Extent.placed length offset pos).start := by
  rw [FileStream.length_ahead, FileStream.content_seek, FileStream.seek, Extent.placed]
  split <;> rfl

namespace CAmxxReader

theorem expand_isSome_iff
    (hbounded : uncompress.Bounded)
    {destLen : BitVec 32}
    {buffer : List Byte}
    (hbuffer : buffer.length = destLen.toNat) :
    (reader.expand heap uncompress destLen buffer f).isSome ↔
      min reader.sectionLength.toNat f.ahead.length ≤
        newChars heap (reader.sectionLength + 1) := by
  rw [expand, freadInto, List.length_take]
  split
  next hroom =>
    refine iff_of_true ?_ hroom
    rw [Option.bind_some]
    split
    next => rfl
    next bytes tempBuffer whole =>
      have hwritten := hbounded destLen.toNat tempBuffer
      simp only
      rw [if_pos (by omega)]
      split <;> rfl
  next hroom => exact iff_of_false Bool.false_ne_true hroom

theorem readsSafely_new
    (hbounded : uncompress.Bounded)
    {pe : PluginEntry}
    (hstatus : reader.status = .none)
    (hfile : reader.pFile = some f)
    (hold : reader.oldFile = false)
    (hnew : reader.amxxFile = true)
    (hentry : reader.plugins[reader.entry]? = some pe)
    (hlength : reader.sectionLength = pe.disksize) :
    reader.ReadsSafely heap uncompress ↔
      (Extent.placed pe.disksize pe.offs f.pos).Fits heap f.content := by
  obtain ⟨content, pos⟩ := f
  have hsize : ∃ size, reader.getBufferSize = some (size, reader) := by
    rw [getBufferSize, hfile]
    simp only [hold, hnew, hentry]
    exact ⟨_, rfl⟩
  obtain ⟨size, hsize⟩ := hsize
  have hsection (buffer : List Byte) (hbuffer : buffer.length = size.toNat) :
      (reader.getSection heap uncompress buffer).isSome ↔
        (Extent.placed pe.disksize pe.offs pos).Fits heap content := by
    rw [getSection, hfile]
    simp only [hold, hnew, hentry, hsize, Option.bind_some, Bool.false_eq_true, if_false, if_true]
    rw [expand_isSome_iff hbounded hbuffer, fits_iff, length_seek pe.disksize, hlength]
    rfl
  constructor
  · intro hsafe
    obtain ⟨size', sized, hsized, hall⟩ := hsafe hstatus
    cases hsize.symm.trans hsized
    have hbuffer : (List.replicate size.toNat (0 : Byte)).length = size.toNat :=
      List.length_replicate
    exact (hsection _ hbuffer).mp (hall _ hbuffer)
  · intro hfits _
    exact ⟨size, reader, hsize, fun buffer hbuffer => (hsection buffer hbuffer).mpr hfits⟩

theorem readsSafely_old
    (hbounded : uncompress.Bounded)
    {entry : TableEntry}
    {pos : Nat}
    (hstatus : reader.status = .none)
    (hfile : reader.pFile = some f)
    (hold : reader.oldFile = false)
    (hnew : reader.amxxFile = false)
    (hentry : (f.seek reader.sectionHdrOffset).read readTableEntry =
      some (entry, { content := f.content, pos })) :
    reader.ReadsSafely heap uncompress ↔
      (Extent.placed reader.sectionLength entry.offset pos).Fits heap f.content := by
  have hsize : reader.getBufferSize = some (entry.origSize + 1, reader) := by
    rw [getBufferSize, hfile]
    simp only [hold, hnew, hentry]
    rfl
  have hsection (buffer : List Byte) (hbuffer : buffer.length = (entry.origSize + 1).toNat) :
      (reader.getSection heap uncompress buffer).isSome ↔
        (Extent.placed reader.sectionLength entry.offset pos).Fits heap f.content := by
    rw [getSection, hfile]
    simp only [hold, hnew, hentry, hsize, Option.bind_some, Bool.false_eq_true, if_false]
    rw [expand_isSome_iff hbounded hbuffer, fits_iff, length_seek reader.sectionLength]
    rfl
  constructor
  · intro hsafe
    obtain ⟨size', sized, hsized, hall⟩ := hsafe hstatus
    cases hsize.symm.trans hsized
    have hbuffer : (List.replicate (entry.origSize + 1).toNat (0 : Byte)).length =
        (entry.origSize + 1).toNat := List.length_replicate
    exact (hsection _ hbuffer).mp (hall _ hbuffer)
  · intro hfits _
    exact ⟨_, reader, hsize, fun buffer hbuffer => (hsection buffer hbuffer).mpr hfits⟩

theorem readsSafely_plain
    (hstatus : reader.status = .none)
    (hfile : reader.pFile = some f)
    (hold : reader.oldFile = true) :
    reader.ReadsSafely heap uncompress ↔
      (sizeofHeader ≤ f.content.length →
        f.content.length ≤ (AmxHeader.ofBytes f.content).stp.toNat) := by
  have hread : (f.seek 0).read (Reader.take sizeofHeader) =
      if sizeofHeader ≤ f.content.length then
        some (f.content.take sizeofHeader, { f with pos := sizeofHeader })
      else none := by
    rw [FileStream.read_of_takes (Reader.takes_take _)]
    change (Reader.take sizeofHeader (f.content.drop 0)).map _ = _
    rw [List.drop_zero, Reader.take]
    split <;> rfl
  by_cases hwhole : sizeofHeader ≤ f.content.length
  · have hsize : reader.getBufferSize =
        some ((AmxHeader.ofBytes f.content).stp, reader) := by
      rw [getBufferSize, hfile]
      simp only [hold, if_true, hread, if_pos hwhole, ofBytes_take]
    have hsection (buffer : List Byte) :
        (reader.getSection heap uncompress buffer).isSome ↔
          f.content.length ≤ buffer.length := by
      rw [getSection, hfile]
      simp only [hold, if_true, Option.isSome_map]
      change (freadInto _ _ { f with pos := 0 }).isSome ↔ _
      rw [freadInto, FileStream.ahead, List.drop_zero, List.take_length]
      split
      next h => exact iff_of_true rfl h
      next h => exact iff_of_false Bool.false_ne_true h
    constructor
    · intro hsafe _
      obtain ⟨size', sized, hsized, hall⟩ := hsafe hstatus
      cases hsize.symm.trans hsized
      have hbuffer := List.length_replicate
        (n := (AmxHeader.ofBytes f.content).stp.toNat) (a := (0 : Byte))
      rw [← hbuffer]
      exact (hsection _).mp (hall _ hbuffer)
    · intro hfits _
      refine ⟨_, reader, hsize, fun buffer hbuffer => (hsection buffer).mpr ?_⟩
      rw [hbuffer]
      exact hfits hwhole
  · -- the buffer has no size, and the file is closed
    refine iff_of_true (fun _ => ?_) fun h => absurd h hwhole
    have hsize : reader.getBufferSize = some (0, reader.fail .fileInvalid) := by
      rw [getBufferSize, hfile]
      simp only [hold, if_true, hread, if_neg hwhole]
    exact ⟨0, _, hsize, fun _ _ => rfl⟩

theorem safeFrom_fail {status : AmxxError} (h : status ≠ .none) :
    SafeFrom heap uncompress (some (initial.fail status)) :=
  ⟨_, rfl, fun hstatus => absurd hstatus h⟩

theorem safeFrom_some :
    SafeFrom heap uncompress (some reader) ↔ reader.ReadsSafely heap uncompress := by
  constructor
  · rintro ⟨_, ⟨⟩, hreads⟩
    exact hreads
  · exact fun hreads => ⟨reader, rfl, hreads⟩

theorem newTable_length (numPlugins : BitVec 8)
    (h : numPlugins.toInt.toNat = 0 ∨ heap (sizeofPluginEntry * numPlugins.toInt.toNat)) :
    (newTable heap numPlugins).length = numPlugins.toInt.toNat := by
  rw [newTable]
  split
  next => exact List.length_replicate
  next hheap => rw [h.resolve_right hheap, List.length_nil]

theorem openTable_new
    (hbounded : uncompress.Bounded)
    {count : Nat}
    {table : List PluginEntry}
    (htable : table.length = count) :
    SafeFrom heap uncompress
      ((readTable count 0 table { content, pos := 7 }).bind fun
        | none => some (initial.fail .fileInvalid)
        | some (plugins, f) =>
            (findEntry plugins cellSize count 0).bind fun
              | none => some (initial.fail .sectionNotFound)
              | some entry =>
                  plugins[entry]?.map fun pe =>
                    { initial with
                      pFile := some f
                      amxxFile := true
                      plugins, entry
                      sectionLength := pe.disksize }) ↔
      ∀ extent ∈ (readEntries count (content.drop 7)).bind fun entries =>
          (entries.1.find? fun pe => pe.cellsize.toInt = cellSize).map fun pe =>
            Extent.placed pe.disksize pe.offs (7 + 17 * count),
        extent.Fits heap content := by
  have hread : readTable count 0 table { content, pos := 7 } =
      some ((readEntries count (content.drop 7)).map fun entries =>
        (entries.1, { content, pos := 7 + 17 * count })) := by
    have hall := readTable_eq [] table { content, pos := 7 } htable
    rw [FileStream.read_of_takes (takes_readEntries count), Option.map_map] at hall
    exact hall
  rw [hread, Option.bind_some]
  cases hentries : readEntries count (content.drop 7) with
  | none => exact iff_of_true (safeFrom_fail (by decide)) fun _ h => nomatch h
  | some entries =>
      obtain ⟨entries, rest⟩ := entries
      have hlength : 0 + count = entries.length := by
        rw [Nat.zero_add]
        refine (length_readEntries (f := { content, pos := 7 })
          (g := { content, pos := 7 + 17 * count }) ?_).symm
        rw [FileStream.read_of_takes (takes_readEntries count)]
        change (readEntries count (content.drop 7)).map _ = _
        rw [hentries]
        rfl
      simp only [Option.map_some, Option.bind_some]
      rw [findEntry_eq entries cellSize hlength, List.drop_zero, Option.bind_some,
        List.find?_eq_bind_findIdx?_getElem?]
      cases hindex : entries.findIdx? fun pe => pe.cellsize.toInt = cellSize with
      | none => exact iff_of_true (safeFrom_fail (by decide)) fun _ h => nomatch h
      | some i =>
          obtain ⟨hi, -⟩ := List.findIdx?_eq_some_iff_getElem.mp hindex
          simp only [Option.map_some, Option.bind_some, Nat.zero_add,
            List.getElem?_eq_getElem hi]
          rw [safeFrom_some, readsSafely_new hbounded rfl rfl rfl rfl
            (List.getElem?_eq_getElem hi) rfl]
          simp

theorem openAmxx_safe_iff (hbounded : uncompress.Bounded) (hlength : 4 ≤ content.length) :
    SafeFrom heap uncompress (openAmxx heap cellSize { content, pos := 4 }) ↔
      (7 ≤ content.length → ¬magicVersion.slt (versionOf content) →
        NewFits heap content cellSize) := by
  have hversion : FileStream.read readInt16 { content, pos := 4 } =
      if 2 ≤ content.length - 4 then some (versionOf content, { content, pos := 6 }) else none :=
    FileStream.read_number _ 2 _
  have hcount : FileStream.read readInt8 { content, pos := 6 } =
      if 1 ≤ content.length - 6 then
        some (numPluginsOf content 6, { content, pos := 7 })
      else none :=
    FileStream.read_number _ 1 _
  rw [openAmxx, hversion]
  by_cases hshort : content.length < 6
  · rw [if_neg (by omega)]
    exact iff_of_true (safeFrom_fail (by decide)) fun h => absurd h (by omega)
  · rw [if_pos (by omega)]
    simp only
    split
    next hlate => exact iff_of_true (safeFrom_fail (by decide)) fun _ h => absurd hlate h
    next hversion =>
      rw [hcount]
      by_cases hshort : content.length < 7
      · rw [if_neg (by omega)]
        exact iff_of_true (safeFrom_fail (by decide)) fun h => absurd h (by omega)
      · rw [if_pos (by omega)]
        simp only
        have hreduce : (7 ≤ content.length → ¬magicVersion.slt (versionOf content) = true →
            NewFits heap content cellSize) ↔ NewFits heap content cellSize :=
          ⟨fun h => h (by omega) hversion, fun h _ _ => h⟩
        rw [hreduce, NewFits]
        by_cases htable : (numPluginsOf content 6).toInt.toNat = 0 ∨
            heap (sizeofPluginEntry * (numPluginsOf content 6).toInt.toNat) = true
        · rw [and_iff_right htable]
          exact openTable_new hbounded (newTable_length _ htable)
        · refine iff_of_false ?_ fun h => htable h.1
          obtain ⟨hcount, hheap⟩ := not_or.mp htable
          obtain ⟨count, hcount⟩ := Nat.exists_eq_succ_of_ne_zero hcount
          rw [newTable, if_neg hheap, hcount, readTable_nil]
          rintro ⟨_, ⟨⟩, _⟩

theorem readsSafely_table
    (hbounded : uncompress.Bounded)
    {i pos : Nat}
    {entry : TableEntry}
    (length : BitVec 32)
    (hentry : tableEntryAt content i = some entry) :
    ReadsSafely heap uncompress
      { initial with
        pFile := some { content, pos }
        sectionHdrOffset := 5 + sizeofTableEntry * (i + 1) - sizeofTableEntry
        sectionLength := length } ↔
      (Extent.placed length entry.offset (5 + sizeofTableEntry * (i + 1))).Fits heap content := by
  have hpos : 5 + sizeofTableEntry * (i + 1) - sizeofTableEntry = 5 + sizeofTableEntry * i := by
    rw [Nat.mul_succ]
    omega
  rw [hpos]
  refine readsSafely_old (f := { content, pos }) hbounded rfl rfl rfl rfl ?_
  simp only
  rw [FileStream.seek_natCast, read_tableEntry, hentry]
  rfl

theorem openTable_safe_iff
    (hbounded : uncompress.Bounded)
    (hlength : 4 ≤ content.length) :
    SafeFrom heap uncompress (some (openTable cellSize { content, pos := 4 })) ↔
      (5 ≤ content.length → OldFits heap content cellSize) := by
  have hcount : FileStream.read readInt8 { content, pos := 4 } =
      if 1 ≤ content.length - 4 then
        some (numPluginsOf content 4, { content, pos := 5 })
      else none :=
    FileStream.read_number _ 1 _
  rw [openTable, hcount]
  by_cases hshort : content.length < 5
  · rw [if_neg (by omega)]
    exact iff_of_true (safeFrom_fail (by decide)) fun h => absurd h (by omega)
  · rw [if_pos (by omega), OldFits, oldExtent?]
    simp only
    have hreduce {p : Prop} : (5 ≤ content.length → p) ↔ p :=
      ⟨fun h => h (by omega), fun h _ => h⟩
    rw [hreduce]
    have hfound := findTableEntry_spec content cellSize
      (numPluginsOf content 4).toInt.toNat 0
    rw [Nat.mul_zero, Nat.add_zero] at hfound
    split at hfound
    next i hi =>
      obtain ⟨entry, hentry, hfound⟩ := hfound
      rw [hfound, hi]
      simp only [Option.bind_some, hentry]
      have hnext : ((i : Int) + 1 < (numPluginsOf content 4).toInt) ↔
          i + 1 < (numPluginsOf content 4).toInt.toNat := by
        omega
      simp only [hnext]
      split
      next hlast =>
        rw [read_tableEntry]
        cases tableEntryAt content (i + 1) with
        | none => exact iff_of_true (safeFrom_fail (by decide)) fun _ h => nomatch h
        | some next =>
            refine safeFrom_some.trans ((readsSafely_table hbounded _ hentry).trans ?_)
            simp
      next hlast =>
        refine safeFrom_some.trans ((readsSafely_table hbounded _ hentry).trans ?_)
        simp
    next hnone =>
      rw [hnone]
      refine iff_of_true ?_ fun _ h => nomatch h
      rcases hfound with hfound | hfound
      · rw [hfound]
        exact safeFrom_fail (by decide)
      · rw [hfound]
        exact safeFrom_fail (by decide)

theorem openPlain_safe_iff :
    SafeFrom heap uncompress (some (openPlain stale cellSize f)) ↔
      (sizeofHeader ≤ f.content.length → PlainFits f.content cellSize) := by
  rw [openPlain, PlainFits]
  by_cases hwhole : sizeofHeader ≤ f.content.length
  · rw [ofBytes_overwrite hwhole]
    split
    next hmagic =>
      split
      next hsize =>
        exact iff_of_true (safeFrom_fail (by decide)) fun _ _ h => absurd h hsize
      next hsize =>
        rw [safeFrom_some, readsSafely_plain rfl rfl rfl]
        have hsize := not_not.mp hsize
        exact ⟨fun h hwhole _ _ => h hwhole, fun h hwhole => h hwhole hmagic hsize⟩
    next hmagic => exact iff_of_true (safeFrom_fail (by decide)) fun _ h => absurd h hmagic
  · refine iff_of_true ?_ fun h => absurd h hwhole
    split
    next =>
      split
      next => exact safeFrom_fail (by decide)
      next =>
        rw [safeFrom_some, readsSafely_plain rfl rfl rfl]
        exact fun h => absurd h hwhole
    next => exact safeFrom_fail (by decide)

theorem opened_safe_iff
    (hbounded : uncompress.Bounded)
    (name : CString)
    {disk : CString → Option (List Byte)}
    (hdisk : disk name = some content)
    (hlength : content.length ≤ offMax) :
    Safe heap uncompress stale disk (some name) cellSize ↔ Fits heap content cellSize := by
  have hopen : fopen (disk name) = some { content, pos := 0 } := by
    rw [hdisk]
    exact if_pos hlength
  have hmagic : FileStream.read readInt32 { content, pos := 0 } =
      if 4 ≤ content.length then some (magicOf content, { content, pos := 4 }) else none :=
    FileStream.read_number _ 4 _
  rw [Safe, new, hopen]
  simp only
  rw [hmagic, Fits]
  by_cases hwhole : 4 ≤ content.length
  · rw [if_pos hwhole]
    simp only
    split
    next => exact iff_of_true (safeFrom_fail (by decide)) trivial
    next =>
      split
      next => exact openAmxx_safe_iff hbounded hwhole
      next =>
        split
        next => exact openTable_safe_iff hbounded hwhole
        next => exact openPlain_safe_iff
  · rw [if_neg hwhole]
    have hheader : ¬sizeofHeader ≤ content.length := by
      unfold sizeofHeader
      omega
    refine iff_of_true (safeFrom_fail (by decide)) ?_
    split
    next => trivial
    next =>
      split
      next => exact fun h => absurd h (by omega)
      next =>
        split
        next => exact fun h => absurd h (by omega)
        next => exact fun h => absurd h hheader

/-- A file is read without an access outside a block if and only if it is laid out to fit. -/
theorem safe_iff_fits
    (hbounded : uncompress.Bounded)
    (stale : List Byte)
    (disk : CString → Option (List Byte))
    (filename : Option CString)
    (cellsize : Int) :
    Safe heap uncompress stale disk filename cellsize ↔
      ∀ name content, filename = some name → disk name = some content →
        content.length ≤ offMax → Fits heap content cellsize := by
  constructor
  · rintro hsafe name content rfl hdisk hlength
    exact (opened_safe_iff hbounded name hdisk hlength).mp hsafe
  · intro hfits
    cases filename with
    | none => exact safeFrom_fail (by decide)
    | some name =>
        cases hdisk : disk name with
        | none =>
            rw [Safe, new, hdisk]
            exact safeFrom_fail (by decide)
        | some content =>
            by_cases hlength : content.length ≤ offMax
            · exact (opened_safe_iff hbounded name hdisk hlength).mpr
                (hfits name content rfl hdisk hlength)
            · have hopen : fopen (some content) = none := if_neg hlength
              rw [Safe, new, hdisk, hopen]
              exact safeFrom_fail (by decide)

end CAmxxReader

end

/-- What `uncompress` says to bytes that are no compressed data. -/
def dataError : Uncompress := fun _ _ => (-3, [])

theorem dataError_bounded : dataError.Bounded := fun _ _ => Nat.zero_le _

def oneByteSection : List Byte :=
  littleEndian 4 0x414D5858 ++ littleEndian 2 0x300 ++ [1] ++
    ([4] ++ littleEndian 4 1 ++ littleEndian 4 56 ++ littleEndian 4 64 ++ littleEndian 4 24) ++ [0]

theorem safe_oneByteSection :
    dataError.Bounded ∧
    (CAmxxReader.Safe (fun _ => true) dataError [] (fun _ => some oneByteSection)
        (some default) 4 ↔
      ∀ name content, some (default : CString) = some name →
        some oneByteSection = some content →
        content.length ≤ offMax → Fits (fun _ => true) content 4) :=
  ⟨dataError_bounded, CAmxxReader.safe_iff_fits dataError_bounded [] _ _ 4⟩

/-- A plain file of a header only, whose `stp` is 1. -/
def longPlain : List Byte :=
  littleEndian 4 56 ++ littleEndian 2 0xf1e0 ++ List.replicate 18 0 ++ littleEndian 4 1 ++
    List.replicate 28 0

theorem not_safe_longPlain :
    ¬∀ (heap : Nat → Bool) (uncompress : Uncompress) (stale : List Byte)
        (disk : CString → Option (List Byte)) (filename : Option CString) (cellsize : Int),
      uncompress.Bounded → CAmxxReader.Safe heap uncompress stale disk filename cellsize := by
  intro hall
  have hsafe := hall (fun _ => true) dataError [] (fun _ => some longPlain) (some default) 4
    dataError_bounded
  have hfits := (CAmxxReader.opened_safe_iff dataError_bounded default rfl (by decide)).mp hsafe
  rw [Fits, if_neg (by decide), if_neg (by decide), if_neg (by decide)] at hfits
  exact absurd (hfits (by decide) (by decide) rfl) (by decide)

end AmxModC.Amxx
