import AmxModC.Foundation.Block
import AmxModC.Foundation.CString
import AmxModC.Foundation.Run
import AmxModC.Foundation.Text

namespace AmxModC.Compiler.MemFile

open Foundation

/-! Text files in memory.  Nothing was written yet to a byte that is `none`. -/

/-- `memfile_t`; `size` bytes are allocated, and `_static` is 0 in every file. -/
structure Memfile where
  base : List (Option Byte)
  offs : Nat
  usedoffs : Nat

/-- `mfcreate` -/
def create : Memfile := ⟨List.replicate 4096 none, 0, 0⟩

namespace Memfile

def size (mf : Memfile) : Nat := mf.base.length

/-- `memfile_read`, with what is copied into the buffer. -/
def memfileRead (mf : Memfile) (maxsize : Nat) : Option (List (Option Byte) × Memfile) :=
  if maxsize = 0 ∨ mf.offs ≥ mf.usedoffs then some ([], mf)
  else do
    let maxsize := if mf.usedoffs - mf.offs < maxsize then mf.usedoffs - mf.offs else maxsize
    let bytes ← Block.read mf.base mf.offs maxsize
    some (bytes, { mf with offs := mf.offs + maxsize })

/-- The bytes that `realloc` gives to a file that is too small. -/
def room (mf : Memfile) (size : Nat) : List (Option Byte) :=
  if mf.offs + size > mf.size then
    mf.base ++ List.replicate ((mf.size + size) * 2 - mf.size) none
  else mf.base

/-- `memfile_write` -/
def memfileWrite (mf : Memfile) (buffer : List Byte) : Option Memfile := do
  let base ← Block.write (mf.room buffer.length) mf.offs (buffer.map some)
  let offs := mf.offs + buffer.length
  some { base, offs, usedoffs := if offs > mf.usedoffs then offs else mf.usedoffs }

end Memfile

inductive Whence
  | seekSet
  | seekCur
  | seekEnd
deriving DecidableEq

def Whence.origin (mf : Memfile) : Whence → Nat
  | seekSet => 0
  | seekCur => mf.offs
  | seekEnd => mf.usedoffs

/-- `mfseek`, with the assertion about `SEEK_END`. -/
def mfseek (mf : Memfile) (offset : Int) (whence : Whence) : Option (Memfile × Nat) :=
  if mf.usedoffs = 0 then some (mf, 0)
  else if whence = .seekEnd ∧ offset > 0 then none
  else
    let offset := offset + whence.origin mf
    let offset :=
      if offset < 0 then 0 else if offset > mf.usedoffs then mf.usedoffs else offset.toNat
    some ({ mf with offs := offset }, offset)

/-- `mfputs`; there is always memory. -/
def mfputs (mf : Memfile) (string : CString) : Option Memfile := mf.memfileWrite string.bytes

def strchr (c : Byte) : List (Option Byte) → Option (Option Nat)
  | some b :: rest =>
      if b = c then some (some 0)
      else if b = 0 then some none
      else (strchr c rest).map fun found => found.map (· + 1)
  | _ => none

def text : List (Option Byte) → Option (List Byte)
  | some b :: rest => if b = 0 then some [] else (text rest).map (b :: ·)
  | _ => none

/-- `if (seek!=0) mfseek(mf,seek,SEEK_CUR);` -/
def undoOverRead (mf : Memfile) (seek : Int) : Option Memfile :=
  if seek ≠ 0 then (mfseek mf seek .seekCur).map Prod.fst else some mf

/-- `mfgets`: NULL, or what is in the buffer. -/
def mfgets (mf : Memfile) (string : List (Option Byte)) (size : Nat) :
    Option (Option (List (Option Byte)) × Memfile) := do
  let (bytes, mf) ← mf.memfileRead size
  let read := bytes.length
  if read = 0 then some (none, mf)
  else
    let string ← Block.write string 0 bytes
    let string ← Block.write string (if read < size then read else size - 1) [some 0]
    match ← strchr newline string with
    | none => do
        let mf ← undoOverRead mf (if read < size then 0 else -1)
        some (some string, mf)
    | some ptr => do
        let string ← Block.write string (ptr + 1) [some 0]
        let mf ← undoOverRead mf (ptr + 1 - read)
        some (some string, mf)

structure Buffer where
  string : List (Option Byte)
  size : Nat
  two_le : 2 ≤ size
  size_le : size ≤ string.length

/-- `mfputs` for one string after another. -/
def write (strings : List CString) : Option Memfile := strings.foldlM mfputs create

/-- `mfgets` with one buffer after another, up to NULL. -/
def readAll (buffers : Nat → Buffer) : Nat → Nat → Memfile → Option (List (List Byte))
  | 0, _, _ => none
  | calls + 1, i, mf => do
      let (string, mf) ← mfgets mf (buffers i).string (buffers i).size
      match string with
      | none => some []
      | some string => do
          let piece ← text string
          let pieces ← readAll buffers calls (i + 1) mf
          some (piece :: pieces)

inductive Use
  | gets (buffer : Buffer)
  | seek (offset : Int) (whence : Whence)

def use (mf : Memfile) : Use → Option Memfile
  | .gets buffer => (mfgets mf buffer.string buffer.size).map Prod.snd
  | .seek offset whence => (mfseek mf offset whence).map Prod.fst

def Full (buffer : Buffer) (piece : List Byte) : Prop :=
  piece.getLast? = some newline ∨ piece.length + 1 = buffer.size

def ReadsBack (mf : Memfile) (content : List Byte) : Prop :=
  ∀ buffers, ∃ calls pieces, readAll buffers calls 0 mf = some pieces ∧ pieces.flatten = content ∧
    ∀ i piece, pieces[i]? = some piece → i + 1 < pieces.length → Full (buffers i) piece

structure Holds (mf : Memfile) (content : List Byte) : Prop where
  usedoffs : mf.usedoffs = content.length
  offs_le : mf.offs ≤ content.length
  written : content.map some <+: mf.base

section

variable {mf : Memfile} {content piece line : List Byte} {rest : List (Option Byte)} {c : Byte}

theorem holds_create : Holds create [] := ⟨rfl, Nat.le_refl _, List.nil_prefix⟩

theorem Holds.move (h : Holds mf content) (offs : Nat) (hoffs : offs ≤ content.length) :
    Holds { mf with offs } content :=
  ⟨h.usedoffs, hoffs, h.written⟩

theorem Holds.length_le_size (h : Holds mf content) : content.length ≤ mf.size := by
  have hle := h.written.length_le
  rwa [List.length_map] at hle

/-! Writing. -/

theorem Holds.room (h : Holds mf content) (size : Nat) :
    mf.offs + size ≤ (mf.room size).length ∧ content.map some <+: mf.room size := by
  have hoffs := h.offs_le
  have hsize := h.length_le_size
  have hlength : mf.base.length = mf.size := rfl
  unfold Memfile.room
  split
  · refine ⟨?_, h.written.trans (List.prefix_append _ _)⟩
    rw [List.length_append, List.length_replicate]
    omega
  · exact ⟨by omega, h.written⟩

theorem Holds.mfputs (h : Holds mf content) (hend : mf.offs = content.length) (string : CString) :
    ∃ mf', mfputs mf string = some mf' ∧ Holds mf' (content ++ string.bytes) ∧
      mf'.offs = (content ++ string.bytes).length := by
  obtain ⟨hroom, behind, hbehind⟩ := h.room string.bytes.length
  have hlength : (content ++ string.bytes).length = mf.offs + string.bytes.length := by
    rw [List.length_append, hend]
  obtain ⟨base, hwrite, hwritten⟩ :
      ∃ base, Block.write (mf.room string.bytes.length) mf.offs (string.bytes.map some) =
        some base ∧ (content ++ string.bytes).map some <+: base := by
    refine ⟨_, if_pos (by rwa [List.length_map]), ?_⟩
    rw [hend, ← hbehind, List.take_left' (List.length_map some), List.map_append]
    exact List.prefix_append _ _
  have hused : (if mf.offs + string.bytes.length > mf.usedoffs then mf.offs + string.bytes.length
      else mf.usedoffs) = (content ++ string.bytes).length := by
    have hused := h.usedoffs
    split <;> omega
  refine ⟨{ base, offs := _, usedoffs := _ }, ?_, ⟨hused, hlength.ge, hwritten⟩, hlength.symm⟩
  rw [MemFile.mfputs, Memfile.memfileWrite, hwrite]
  rfl

theorem exists_write (strings : List CString) :
    ∃ mf, write strings = some mf ∧ Holds mf (strings.flatMap CString.bytes) := by
  suffices hall : ∀ (mf : Memfile) (content : List Byte), Holds mf content →
      mf.offs = content.length → ∃ mf', strings.foldlM MemFile.mfputs mf = some mf' ∧
        Holds mf' (content ++ strings.flatMap CString.bytes) from hall create [] holds_create rfl
  induction strings with
  | nil =>
      intro mf content h _
      exact ⟨mf, rfl, by rwa [List.flatMap_nil, List.append_nil]⟩
  | cons string rest ih =>
      intro mf content h hend
      obtain ⟨mf', hputs, hholds, hend'⟩ := h.mfputs hend string
      obtain ⟨final, hfinal, hcontent⟩ := ih mf' _ hholds hend'
      refine ⟨final, ?_, ?_⟩
      · rw [List.foldlM_cons, hputs]
        exact hfinal
      · rwa [List.flatMap_cons, ← List.append_assoc]

/-! Seeking. -/

theorem Holds.mfseek (h : Holds mf content) {offset : Int} {whence : Whence} {target : Nat}
    (htarget : offset + whence.origin mf = target) (hle : target ≤ content.length) :
    mfseek mf offset whence = some ({ mf with offs := target }, target) := by
  have hused := h.usedoffs
  have hoffs := h.offs_le
  rw [MemFile.mfseek]
  by_cases hempty : mf.usedoffs = 0
  · obtain rfl : target = 0 := by omega
    obtain ⟨base, offs, usedoffs⟩ := mf
    obtain rfl : offs = 0 := by simp only at *; omega
    rw [if_pos hempty]
  · have hassert : ¬ (whence = .seekEnd ∧ offset > 0) := by
      rintro ⟨rfl, hpos⟩
      rw [Whence.origin] at htarget
      omega
    rw [if_neg hempty, if_neg hassert, htarget]
    simp only
    rw [if_neg (by omega), if_neg (by omega), Int.toNat_natCast]

/-! Reading. -/

theorem strchr_append {found : Option Nat} (hc : c ∉ line) (hnul : 0 ∉ line)
    (hrest : strchr c rest = some found) :
    strchr c (line.map some ++ rest) = some (found.map (· + line.length)) := by
  induction line with
  | nil => exact hrest.trans (congrArg some Option.map_id'.symm)
  | cons b line ih =>
      obtain ⟨hb, hline⟩ := List.ne_and_not_mem_of_not_mem_cons hc
      obtain ⟨hzero, hnul⟩ := List.ne_and_not_mem_of_not_mem_cons hnul
      rw [List.map_cons, List.cons_append, strchr, if_neg hb.symm, if_neg hzero.symm,
        ih hline hnul, Option.map_some, Option.map_map]
      rfl

theorem strchr_found (hc : c ∉ line) (hnul : 0 ∉ line) :
    strchr c (line.map some ++ some c :: rest) = some (some line.length) := by
  have hhere : strchr c (some c :: rest) = some (some 0) := if_pos rfl
  rw [strchr_append hc hnul hhere, Option.map_some, Nat.zero_add]

theorem strchr_none (hne : c ≠ 0) (hc : c ∉ line) (hnul : 0 ∉ line) :
    strchr c (line.map some ++ some 0 :: rest) = some none := by
  have hend : strchr c (some 0 :: rest) = some none := (if_neg hne.symm).trans (if_pos rfl)
  rw [strchr_append hc hnul hend, Option.map_none]

theorem text_eq (hnul : 0 ∉ line) : text (line.map some ++ some 0 :: rest) = some line := by
  induction line with
  | nil => exact if_pos rfl
  | cons b line ih =>
      obtain ⟨hzero, hrest⟩ := List.ne_and_not_mem_of_not_mem_cons hnul
      rw [List.map_cons, List.cons_append, text, if_neg hzero.symm, ih hrest]
      rfl

theorem Holds.memfileRead (h : Holds mf content) {maxsize : Nat} (hmaxsize : maxsize ≠ 0) :
    mf.memfileRead maxsize =
      some (((content.drop mf.offs).take maxsize).map some,
        { mf with offs := mf.offs + ((content.drop mf.offs).take maxsize).length }) := by
  have hused := h.usedoffs
  have hsize : content.length ≤ mf.base.length := h.length_le_size
  have hlength : ((content.drop mf.offs).take maxsize).length =
      if mf.usedoffs - mf.offs < maxsize then mf.usedoffs - mf.offs else maxsize := by
    rw [List.length_take, List.length_drop, ← hused]
    split <;> omega
  rw [Memfile.memfileRead]
  by_cases hend : mf.offs ≥ mf.usedoffs
  · rw [if_pos (.inr hend), List.drop_eq_nil_of_le (by omega)]
    simp
  · rw [if_neg (not_or.mpr ⟨hmaxsize, hend⟩), ← hlength]
    have hread : Block.read mf.base mf.offs ((content.drop mf.offs).take maxsize).length =
        some (((content.drop mf.offs).take maxsize).map some) := by
      obtain ⟨behind, hbehind⟩ := h.written
      rw [Block.read_of_le (by rw [hlength]; split <;> omega), ← hbehind,
        List.drop_append_of_le_length (by rw [List.length_map]; omega), ← List.map_drop,
        List.take_append_of_le_length (by simp), ← List.map_take, List.length_take,
        ← List.take_take, List.take_length]
    simp only [hread, Option.bind_eq_bind, Option.bind_some]

theorem exists_filled (buffer : Buffer) (ahead : List Byte) :
    ∃ copied, Block.write buffer.string 0 ((ahead.take buffer.size).map some) = some copied ∧
      ∃ rest, Block.write copied
        (if (ahead.take buffer.size).length < buffer.size then (ahead.take buffer.size).length
          else buffer.size - 1) [some 0] =
        some ((ahead.take (buffer.size - 1)).map some ++ some 0 :: rest) ∧
        ((ahead.take (buffer.size - 1)).map some ++ some 0 :: rest).length =
          buffer.string.length := by
  have htwo := buffer.two_le
  have hsize := buffer.size_le
  have hread : ((ahead.take buffer.size).map some).length ≤ buffer.size := by
    rw [List.length_map]
    exact List.length_take_le _ _
  obtain ⟨copied, hcopied⟩ : ∃ copied, Block.write buffer.string 0
      ((ahead.take buffer.size).map some) = some copied := ⟨_, if_pos (by omega)⟩
  have hlength := Block.length_of_write hcopied
  have hend : (if (ahead.take buffer.size).length < buffer.size then
      (ahead.take buffer.size).length else buffer.size - 1) =
      ((ahead.take (buffer.size - 1)).map some).length := by
    rw [List.length_map, List.length_take, List.length_take]
    split <;> omega
  have hfront : (ahead.take (buffer.size - 1)).map some <+: copied := by
    obtain ⟨-, rfl⟩ := Block.write_eq_some.mp hcopied
    rw [List.take_zero, List.nil_append]
    have htake : ahead.take (buffer.size - 1) <+: ahead.take buffer.size :=
      List.take_prefix_take_left (Nat.sub_le _ _)
    exact (htake.map some).trans (List.prefix_append _ _)
  obtain ⟨rest, hrest, hsame⟩ := Block.exists_write_behind hfront (some 0)
    (by rw [List.length_map]; have := List.length_take_le (buffer.size - 1) ahead; omega)
  exact ⟨copied, hcopied, rest, by rw [hend, hrest], hsame.trans hlength⟩

def Reads (mf : Memfile) (ahead : List Byte) (buffer : Buffer) (piece : List Byte) : Prop :=
  ∃ string, mfgets mf buffer.string buffer.size =
      some (some string, { mf with offs := mf.offs + piece.length }) ∧
    text string = some piece ∧ piece ≠ [] ∧ piece <+: ahead ∧ (Full buffer piece ∨ piece = ahead)

theorem Holds.mfgets_nil (h : Holds mf content) (hend : content.drop mf.offs = [])
    (buffer : Buffer) : mfgets mf buffer.string buffer.size = some (none, mf) := by
  have hread := h.memfileRead (Nat.ne_of_gt (Nat.zero_lt_of_lt buffer.two_le))
  rw [hend] at hread
  simp [mfgets, hread]

theorem Holds.undoOverRead (h : Holds mf content) (seek : Int) (target : Nat)
    (htarget : seek + mf.offs = target) (hle : target ≤ content.length) :
    undoOverRead mf seek = some { mf with offs := target } := by
  rw [MemFile.undoOverRead]
  by_cases hseek : seek = 0
  · obtain rfl : mf.offs = target := by omega
    rw [if_neg (not_not.mpr hseek)]
  · have hback : MemFile.mfseek mf seek .seekCur = some ({ mf with offs := target }, target) :=
      h.mfseek htarget hle
    rw [if_pos hseek, hback, Option.map_some]

theorem Holds.not_mem_ahead (hnul : 0 ∉ content) (hpiece : piece <+: content.drop mf.offs) :
    0 ∉ piece :=
  fun hmem => hnul (List.mem_of_mem_drop (hpiece.subset hmem))

theorem Holds.mfgets_line (h : Holds mf content) (hnul : 0 ∉ content) (buffer : Buffer)
    {more : List Byte} (hline : newline ∉ line)
    (htake : (content.drop mf.offs).take (buffer.size - 1) = line ++ newline :: more) :
    Reads mf (content.drop mf.offs) buffer (line ++ [newline]) := by
  have hoffs := h.offs_le
  have hread := h.memfileRead (Nat.ne_of_gt (Nat.zero_lt_of_lt buffer.two_le))
  have hlengthAhead : (content.drop mf.offs).length = content.length - mf.offs := List.length_drop
  have hpiece : line ++ [newline] <+: content.drop mf.offs := by
    refine List.IsPrefix.trans ⟨more, ?_⟩ (List.take_prefix (buffer.size - 1) _)
    rw [htake, List.append_assoc, List.singleton_append]
  have hnulPiece : 0 ∉ line ++ [newline] := not_mem_ahead hnul hpiece
  have hnulLine : 0 ∉ line := fun hmem => hnulPiece (List.mem_append_left _ hmem)
  have hlengthPiece := hpiece.length_le
  rw [List.length_append, List.length_singleton] at hlengthPiece
  generalize content.drop mf.offs = ahead at *
  obtain ⟨copied, hcopied, behind, hfilled, -⟩ := exists_filled buffer ahead
  have hshape : (ahead.take (buffer.size - 1)).map some ++ some 0 :: behind =
      line.map some ++ some newline :: (more.map some ++ some 0 :: behind) := by
    rw [htake, List.map_append, List.map_cons, List.append_assoc, List.cons_append]
  rw [hshape] at hfilled
  have hsome : (ahead.take buffer.size).length ≠ 0 := by
    have htwo := buffer.two_le
    rw [List.length_take]
    omega
  have hchr : strchr newline
      (line.map some ++ some newline :: (more.map some ++ some 0 :: behind)) =
      some (some line.length) := strchr_found hline hnulLine
  have hfront : (line ++ [newline]).map some <+:
      line.map some ++ some newline :: (more.map some ++ some 0 :: behind) := by
    refine ⟨more.map some ++ some 0 :: behind, ?_⟩
    rw [List.map_append, List.append_assoc]
    rfl
  obtain ⟨rest, hwrite, -⟩ := Block.exists_write_behind hfront (some 0) (by simp)
  rw [List.length_map, List.length_append, List.length_singleton] at hwrite
  have hundo := (h.move (mf.offs + (ahead.take buffer.size).length)
    (by rw [List.length_take]; omega)).undoOverRead
    (line.length + 1 - (ahead.take buffer.size).length) (mf.offs + (line.length + 1))
    (by push_cast; omega) (by omega)
  refine ⟨(line ++ [newline]).map some ++ some 0 :: rest, ?_, text_eq hnulPiece,
    List.append_ne_nil_of_right_ne_nil _ (List.cons_ne_nil _ _), hpiece, .inl (.inl ?_)⟩
  · rw [mfgets, hread, List.length_append, List.length_singleton]
    simp only [Option.bind_eq_bind, Option.bind_some, List.length_map, hsome, if_false, hcopied,
      hfilled, hchr, hwrite, hundo]
  · exact List.getLast?_concat

theorem Holds.mfgets_full (h : Holds mf content) (hnul : 0 ∉ content) (buffer : Buffer)
    (hahead : content.drop mf.offs ≠ [])
    (hline : newline ∉ (content.drop mf.offs).take (buffer.size - 1)) :
    Reads mf (content.drop mf.offs) buffer ((content.drop mf.offs).take (buffer.size - 1)) := by
  have hoffs := h.offs_le
  have htwo := buffer.two_le
  have hread := h.memfileRead (Nat.ne_of_gt (Nat.zero_lt_of_lt buffer.two_le))
  have hlengthAhead : (content.drop mf.offs).length = content.length - mf.offs := List.length_drop
  have hpos := List.length_pos_iff.mpr hahead
  have hnulPiece : 0 ∉ (content.drop mf.offs).take (buffer.size - 1) :=
    not_mem_ahead hnul (List.take_prefix _ _)
  generalize content.drop mf.offs = ahead at *
  obtain ⟨copied, hcopied, behind, hfilled, -⟩ := exists_filled buffer ahead
  have hlength : (ahead.take (buffer.size - 1)).length = min (buffer.size - 1) ahead.length :=
    List.length_take
  have hsome : (ahead.take buffer.size).length ≠ 0 := by
    rw [List.length_take]
    omega
  have hchr : strchr newline ((ahead.take (buffer.size - 1)).map some ++ some 0 :: behind) =
      some none := strchr_none (by decide) hline hnulPiece
  have hundo := (h.move (mf.offs + (ahead.take buffer.size).length)
    (by rw [List.length_take]; omega)).undoOverRead
    (if (ahead.take buffer.size).length < buffer.size then 0 else -1)
    (mf.offs + (ahead.take (buffer.size - 1)).length)
    (by simp only [List.length_take]; split <;> omega) (by omega)
  refine ⟨(ahead.take (buffer.size - 1)).map some ++ some 0 :: behind, ?_, text_eq hnulPiece,
    ?_, List.take_prefix _ _, ?_⟩
  · rw [mfgets, hread]
    simp only [Option.bind_eq_bind, Option.bind_some, List.length_map, hsome, if_false, hcopied,
      hfilled, hchr, hundo]
  · rw [← List.length_pos_iff]
    omega
  · by_cases hshort : ahead.length ≤ buffer.size - 1
    · exact .inr (List.take_of_length_le hshort)
    · exact .inl (.inr (by omega))

theorem Holds.reads (h : Holds mf content) (hnul : 0 ∉ content) (buffer : Buffer)
    (hahead : content.drop mf.offs ≠ []) :
    ∃ piece, Reads mf (content.drop mf.offs) buffer piece := by
  by_cases hline : newline ∈ (content.drop mf.offs).take (buffer.size - 1)
  · obtain ⟨line, more, htake, hnone⟩ := List.eq_append_cons_of_mem hline
    exact ⟨_, h.mfgets_line hnul buffer hnone htake⟩
  · exact ⟨_, h.mfgets_full hnul buffer hahead hline⟩

theorem Holds.after_piece (h : Holds mf content) (hpiece : piece <+: content.drop mf.offs) :
    Holds { mf with offs := mf.offs + piece.length } content ∧
      piece ++ content.drop (mf.offs + piece.length) = content.drop mf.offs := by
  have hoffs := h.offs_le
  have hle := hpiece.length_le
  rw [List.length_drop] at hle
  refine ⟨h.move _ (by omega), ?_⟩
  rw [← List.drop_drop]
  exact (List.prefix_iff_eq_append.mp hpiece)

theorem exists_readAll (hnul : 0 ∉ content) (buffers : Nat → Buffer) (i : Nat)
    (h : Holds mf content) :
    ∃ calls pieces, readAll buffers calls i mf = some pieces ∧
      pieces.flatten = content.drop mf.offs ∧ (content.drop mf.offs = [] → pieces = []) ∧
      ∀ j piece, pieces[j]? = some piece → j + 1 < pieces.length →
        Full (buffers (i + j)) piece := by
  induction hleft : (content.drop mf.offs).length using Nat.strong_induction_on
      generalizing mf i with
  | _ left ih =>
      by_cases hahead : content.drop mf.offs = []
      · refine ⟨1, [], ?_, by rw [hahead]; rfl, fun _ => rfl, fun j piece hpiece => by cases hpiece⟩
        simp [readAll, h.mfgets_nil hahead]
      · obtain ⟨piece, string, hgets, htext, hne, hpiece, hfull⟩ := h.reads hnul (buffers i) hahead
        obtain ⟨hholds, hrest⟩ := h.after_piece hpiece
        have hshorter : (content.drop (mf.offs + piece.length)).length < left := by
          have hpos := List.length_pos_iff.mpr hne
          rw [← hleft, ← hrest, List.length_append]
          omega
        obtain ⟨calls, pieces, hread, hflat, hnil, hpieces⟩ := ih _ hshorter (i + 1) hholds rfl
        refine ⟨calls + 1, piece :: pieces, ?_, ?_, fun hend => absurd hend hahead, ?_⟩
        · simp [readAll, hgets, htext, hread]
        · rw [List.flatten_cons, hflat, hrest]
        · intro j other hother hj
          cases j with
          | zero =>
              obtain rfl := Option.some.inj hother
              refine hfull.resolve_right fun hall => ?_
              -- behind all that was ahead there is no other piece
              have hend : content.drop (mf.offs + piece.length) = [] := by
                rw [← hall] at hrest
                exact List.append_right_eq_self.mp hrest
              rw [hnil hend] at hj
              exact Nat.lt_irrefl _ hj
          | succ j =>
              rw [Nat.add_comm j 1, ← Nat.add_assoc]
              exact hpieces j other hother (Nat.lt_of_succ_lt_succ hj)

theorem Holds.readsBack (h : Holds mf content) (hnul : 0 ∉ content) :
    ReadsBack mf (content.drop mf.offs) := by
  intro buffers
  obtain ⟨calls, pieces, hread, hflat, -, hpieces⟩ := exists_readAll hnul buffers 0 h
  refine ⟨calls, pieces, hread, hflat, fun i piece hpiece hi => ?_⟩
  simpa using hpieces i piece hpiece hi

/-! Whatever is done in between. -/

theorem Holds.mfseek_holds (h : Holds mf content) {offset : Int} {whence : Whence}
    {result : Memfile × Nat} (hseek : MemFile.mfseek mf offset whence = some result) :
    Holds result.1 content := by
  have hused := h.usedoffs
  rw [MemFile.mfseek] at hseek
  split at hseek
  · cases hseek
    exact h
  · split at hseek
    · cases hseek
    · obtain rfl := Option.some.inj hseek
      refine h.move _ ?_
      split
      · exact Nat.zero_le _
      · split <;> omega

theorem Holds.use (h : Holds mf content) (hnul : 0 ∉ content) {event : Use} {next : Memfile}
    (huse : use mf event = some next) : Holds next content := by
  cases event with
  | gets buffer =>
      rw [MemFile.use] at huse
      by_cases hahead : content.drop mf.offs = []
      · rw [h.mfgets_nil hahead, Option.map_some] at huse
        exact Option.some.inj huse ▸ h
      · obtain ⟨piece, string, hgets, -, -, hpiece, -⟩ := h.reads hnul buffer hahead
        rw [hgets, Option.map_some] at huse
        exact Option.some.inj huse ▸ (h.after_piece hpiece).1
  | seek offset whence =>
      obtain ⟨result, hseek, rfl⟩ := Option.map_eq_some_iff.mp huse
      exact h.mfseek_holds hseek

end

def Continues (mf : Memfile) (content : List Byte) : Prop :=
  ∀ (offset : Int) (whence : Whence) (target : Nat), offset + whence.origin mf = target →
    target ≤ content.length →
    ∃ mf', mfseek mf offset whence = some (mf', target) ∧ ReadsBack mf' (content.drop target)

theorem Holds.continues {mf : Memfile} {content : List Byte} (h : Holds mf content)
    (hnul : 0 ∉ content) : Continues mf content := by
  intro offset whence target htarget hle
  exact ⟨_, h.mfseek htarget hle, (h.move target hle).readsBack hnul⟩

theorem noNul_flatMap (strings : List CString) : 0 ∉ strings.flatMap CString.bytes := by
  intro hmem
  obtain ⟨string, -, hstring⟩ := List.mem_flatMap.mp hmem
  exact string.noNul hstring

/-- A file that was written, and then used in any way, reads back from wherever it is sought. -/
theorem exists_write_continues (strings : List CString) :
    ∃ mf, write strings = some mf ∧ ∀ events mf', run use mf events = some mf' →
      Continues mf' (strings.flatMap CString.bytes) := by
  obtain ⟨mf, hwrite, hholds⟩ := exists_write strings
  have hnul := noNul_flatMap strings
  have hkeep : ∀ {state event next}, Holds state (strings.flatMap CString.bytes) → True →
      use state event = some next → Holds next (strings.flatMap CString.bytes) :=
    fun h _ huse => h.use hnul huse
  refine ⟨mf, hwrite, fun events mf' hrun => Holds.continues ?_ hnul⟩
  exact run_invariant hkeep hholds (meets_of_forall fun _ _ => trivial) hrun

/-- A letter that is written, and read from the start. -/
theorem exists_write_continues_letter :
    ∃ mf mf', write [⟨[97], by decide⟩] = some mf ∧ mfseek mf 0 .seekSet = some (mf', 0) ∧
      ReadsBack mf' [97] := by
  obtain ⟨mf, hwrite, hcontinues⟩ := exists_write_continues [⟨[97], by decide⟩]
  obtain ⟨mf', hseek, hreads⟩ := hcontinues [] mf rfl 0 .seekSet 0 rfl (Nat.zero_le _)
  exact ⟨mf, mf', hwrite, hseek, hreads⟩

def three : Buffer := ⟨[none, none, none], 3, by decide, by decide⟩

theorem not_full_three : ¬ Full three [97] := by
  unfold Full
  decide

/-- The last piece is not full. -/
theorem not_full_letter :
    ∃ mf mf', write [⟨[97], by decide⟩] = some mf ∧ mfseek mf 0 .seekSet = some (mf', 0) ∧
      ¬ ∃ calls pieces, readAll (fun _ => three) calls 0 mf' = some pieces ∧
        ∀ i : Nat, ∀ piece, pieces[i]? = some piece → Full three piece := by
  obtain ⟨mf, hwrite, hholds⟩ := exists_write [⟨[97], by decide⟩]
  have hstart : Holds { mf with offs := 0 } [97] := hholds.move 0 (Nat.zero_le _)
  refine ⟨mf, _, hwrite, hholds.mfseek rfl (Nat.zero_le _), ?_⟩
  rintro ⟨calls, pieces, hread, hfull⟩
  have hahead : ([97] : List Byte).drop 0 ≠ [] := List.cons_ne_nil _ _
  obtain ⟨piece, string, hgets, htext, hne, hpiece, -⟩ := hstart.reads (by decide) three hahead
  have hall : piece = [97] := by
    rcases List.prefix_cons_iff.mp hpiece with hnil | ⟨rest, rfl, hrest⟩
    · exact absurd hnil hne
    · rw [List.prefix_nil.mp hrest]
  subst hall
  cases calls with
  | zero => cases hread
  | succ calls =>
      simp only [readAll, hgets, Option.bind_eq_bind, Option.bind_some, htext] at hread
      obtain ⟨rest, -, hrest⟩ := Option.bind_eq_some_iff.mp hread
      obtain rfl := Option.some.inj hrest
      exact not_full_three (hfull 0 _ rfl)

end AmxModC.Compiler.MemFile
