import AmxModC.TextFile.Lines

namespace AmxModC.TextFile

open Foundation

/-! `write_file` replaces a line, as `read_file` sees it. -/

/-- Line `i` is the text afterwards, and all the other lines are as before. -/
structure Replaced (before after : List Byte) (i : Nat) (text : List Byte) : Prop where
  line : lineAt after i = some text
  old : ∀ j ≠ i, ∀ old, lineAt before j = some old → lineAt after j = some old
  empty : ∀ j < i, lineAt before j = none → lineAt after j = some []
  rest : ∀ j > i, lineAt before j = none → lineAt after j = none

def IsTarget (file : List Byte) (i : Int) (n : Nat) : Prop :=
  if i < 0 then ∀ j, (lineAt file j).isSome ↔ j < n else n = i.toNat

/-- Where everything opens, `write_file` writes and replaces the line. -/
def Writes (file : Option (List Byte)) (i : Int) (text : List Byte) : Prop :=
  ∃ after n, writeFile true true file text i = some (some after, 1) ∧
    IsTarget (file.getD []) i n ∧ Replaced (file.getD []) after n text

/-- Text without a newline, which also `get_amxstring` can return. -/
def IsText (text : List Byte) : Prop := 0 ∉ text ∧ newline ∉ text

/-- The text of a line that `read_file` can return. -/
def Readable (text : List Byte) : Prop := text.length < readSize ∧ text.getLast? ≠ some 13

/-- Both natives agree on the lines up to `i`.  Behind the last line, the file also has to
end with one; else the two have to be one line apart. -/
def LineOk (file : List Byte) (i : Int) : Prop :=
  if i < 0 then Closed readSize file
  else if i < (chunks writeSize file).length then
    (chunks readSize file).take (i.toNat + 1) = (chunks writeSize file).take (i.toNat + 1)
  else
    Closed readSize file ∧ chunks readSize file = chunks writeSize file ∨
      ¬ Closed readSize file ∧ (chunks writeSize file).length < i ∧
        (chunks readSize file).length = (chunks writeSize file).length + 1

section

variable {s text file chunk last A B : List Byte} {c : Byte} {i : Int} {n : Nat}

theorem chop_starts (s : List Byte) : chop s <+: s := by
  rw [chop]
  split
  next =>
      split
      next => exact (List.dropLast_prefix _).trans (List.dropLast_prefix s)
      next => exact List.dropLast_prefix s
  next =>
      split
      next => exact List.dropLast_prefix s
      next => exact List.prefix_rfl

theorem head?_of_lineOf (h : lineOf chunk = c :: s) : chunk.head? = some c := by
  have hprefix := (chop_starts (chars chunk)).trans (List.takeWhile_prefix _)
  rw [← lineOf, h] at hprefix
  obtain ⟨rest, hrest⟩ := hprefix
  rw [← hrest]
  rfl

theorem lineOf_line (hzero : 0 ∉ text) (hlast : text.getLast? ≠ some 13) :
    lineOf (text ++ [newline]) = text := by
  have hchars : chars (text ++ [newline]) = text ++ [newline] := by
    refine chars_eq ?_
    rw [List.mem_append, not_or]
    exact ⟨hzero, by decide⟩
  have hnewline : (text ++ [newline]).getLast? = some 10 := List.getLast?_concat
  rw [lineOf, hchars, chop, if_pos hnewline, List.dropLast_concat, if_neg hlast]

theorem lineOf_newline (hzero : 0 ∉ text) (hfree : newline ∉ text) :
    lineOf (text ++ [newline]) = lineOf text := by
  have hchars : chars (text ++ [newline]) = text ++ [newline] := by
    refine chars_eq ?_
    rw [List.mem_append, not_or]
    exact ⟨hzero, by decide⟩
  have hnewline : (text ++ [newline]).getLast? = some 10 := List.getLast?_concat
  have hno : text.getLast? ≠ some 10 := fun hlast => hfree (List.mem_of_getLast? hlast)
  rw [lineOf, hchars, chop, if_pos hnewline, List.dropLast_concat, lineOf, chars_eq hzero, chop,
    if_neg hno]

theorem fileLines_append (hclosed : Closed readSize A) (B : List Byte) :
    fileLines (A ++ B) = fileLines A ++ fileLines B := by
  rw [fileLines, chunks_append readSize_pos hclosed, List.map_append]
  rfl

theorem length_fileLines (file : List Byte) :
    (fileLines file).length = (chunks readSize file).length := List.length_map _

/-! Where the text comes in as a line of its own. -/

theorem chunks_open (hlast : IsChunk readSize last) (hopen : ¬ Full readSize last) (B : List Byte) :
    ∃ behind, ∀ c ≠ newline, ∃ first,
      chunks readSize (last ++ c :: newline :: B) = (last ++ first) :: behind := by
  have hfree := hlast.free hopen
  have hlt : last.length < readSize :=
    Nat.lt_of_le_of_ne hlast.length_le fun heq => hopen (.inr heq)
  by_cases hroom : last.length + 1 < readSize
  · refine ⟨chunks readSize B, fun c hc => ⟨[c, newline], ?_⟩⟩
    have hline : newline ∉ last ++ [c] := by
      rw [List.mem_append, List.mem_singleton, not_or]
      exact ⟨hfree, Ne.symm hc⟩
    have hlength : (last ++ [c]).length < readSize := by
      rwa [List.length_append, List.length_singleton]
    have hchunks := chunks_line hline hlength B
    simp only [List.append_assoc, List.cons_append, List.nil_append] at hchunks
    exact hchunks
  · refine ⟨chunks readSize (newline :: B), fun c hc => ⟨[c], ?_⟩⟩
    have hchunk : IsChunk readSize (last ++ [c]) := by
      refine ⟨List.append_ne_nil_of_left_ne_nil hlast.ne_nil _, ?_, ?_⟩
      · rwa [List.dropLast_concat]
      · rw [List.length_append, List.length_singleton]
        exact hlt
    have hfull : Full readSize (last ++ [c]) := by
      refine .inr ?_
      rw [List.length_append, List.length_singleton]
      omega
    have hchunks : chunks readSize (last ++ [c] ++ newline :: B) =
        (last ++ [c]) :: chunks readSize (newline :: B) := chunks_chunk hchunk (.inl hfull)
    rwa [List.append_assoc, List.singleton_append] at hchunks

theorem not_both {o : Option (List Byte)} (hx : o = some [120]) (hy : o = some [121]) : False := by
  rw [hx] at hy
  cases hy

theorem fileLines_letter (hclosed : Closed readSize A) (hc : c ≠ newline) :
    fileLines (A ++ [c] ++ newline :: B) = fileLines A ++ lineOf [c, newline] :: fileLines B := by
  have hfree : newline ∉ [c] := by
    rw [List.mem_singleton]
    exact Ne.symm hc
  have hshort : [c].length < readSize := Nat.lt_of_lt_of_le Nat.one_lt_two (by decide)
  rw [List.append_assoc, fileLines_append hclosed, fileLines, fileLines, fileLines,
    chunks_line hfree hshort]
  rfl

theorem fileLines_letter_open (hfront : Closed readSize A) (hlast : IsChunk readSize last)
    (hopen : ¬ Full readSize last) (B : List Byte) :
    ∃ behind, ∀ c ≠ newline, ∃ first, fileLines (A ++ last ++ [c] ++ newline :: B) =
      fileLines A ++ lineOf (last ++ first) :: behind := by
  obtain ⟨behind, hbehind⟩ := chunks_open hlast hopen B
  refine ⟨behind.map lineOf, fun c hc => ?_⟩
  obtain ⟨first, hfirst⟩ := hbehind c hc
  refine ⟨first, ?_⟩
  rw [List.append_assoc, List.append_assoc, fileLines_append hfront, List.singleton_append,
    fileLines, fileLines, hfirst]
  rfl

theorem place_of_differ {P Q : List (List Byte)} {x y : List Byte}
    (hx : (P ++ x :: Q)[n]? = some [120]) (hy : (P ++ y :: Q)[n]? = some [121]) :
    P.length = n ∧ x = [120] ∧ y = [121] := by
  rcases Nat.lt_trichotomy P.length n with hlt | rfl | hgt
  · obtain ⟨k, rfl⟩ := Nat.exists_eq_add_of_lt hlt
    have hplace : P.length + k + 1 - P.length = k + 1 := by omega
    rw [List.getElem?_append_right (by omega), hplace, List.getElem?_cons_succ] at hx hy
    exact (not_both hx hy).elim
  · rw [List.getElem?_append_right le_rfl, Nat.sub_self, List.getElem?_cons_zero] at hx hy
    exact ⟨rfl, Option.some.inj hx, Option.some.inj hy⟩
  · rw [List.getElem?_append_left hgt] at hx hy
    exact (not_both hx hy).elim

theorem placed (h : ∀ c ∈ [120, 121], lineAt (A ++ [c] ++ newline :: B) n = some [c]) :
    Closed readSize A ∧ (chunks readSize A).length = n := by
  have hx := h 120 (by decide)
  have hy := h 121 (by decide)
  rw [lineAt_eq] at hx hy
  by_cases hclosed : Closed readSize A
  · rw [fileLines_letter hclosed (by decide)] at hx hy
    rw [← length_fileLines]
    exact ⟨hclosed, (place_of_differ hx hy).1⟩
  · exfalso
    obtain ⟨front, last, rfl, hfront, hlast, hopen⟩ := exists_open readSize_pos hclosed
    obtain ⟨behind, hline⟩ := fileLines_letter_open hfront hlast hopen B
    obtain ⟨first, hfirst⟩ := hline 120 (by decide)
    obtain ⟨first', hfirst'⟩ := hline 121 (by decide)
    rw [hfirst] at hx
    rw [hfirst'] at hy
    obtain ⟨-, hxline, hyline⟩ := place_of_differ hx hy
    -- both lines start with the last one
    have hxhead := head?_of_lineOf hxline
    have hyhead := head?_of_lineOf hyline
    rw [List.head?_append_of_ne_nil _ hlast.ne_nil] at hxhead hyhead
    rw [hxhead] at hyhead
    cases hyhead

/-! The lines of the file with its new line. -/

def target (file : List Byte) (i : Int) : Nat :=
  if i < 0 then (fileLines file).length else i.toNat

theorem isTarget_iff : IsTarget file i n ↔ n = target file i := by
  rw [IsTarget, target]
  split
  next =>
      constructor
      · intro hlines
        have hn := (hlines n).symm.trans lineAt_isSome_iff
        have hlength := (hlines (fileLines file).length).symm.trans lineAt_isSome_iff
        omega
      · rintro rfl j
        exact lineAt_isSome_iff
  next => rfl

theorem fileLines_newlines (hclosed : Closed readSize file) (d : Nat) :
    Closed readSize (file ++ List.replicate d newline) ∧
      fileLines (file ++ List.replicate d newline) = fileLines file ++ List.replicate d [] := by
  obtain ⟨hchunks, hends⟩ := closed_newlines readSize_pos d
  refine ⟨(closed_append readSize_pos hclosed _).mpr hends, ?_⟩
  rw [fileLines_append hclosed, fileLines, fileLines, hchunks, List.map_replicate]
  rfl

theorem fileLines_newlines_open (hzero : 0 ∉ file) (hopen : ¬ Closed readSize file) (d : Nat) :
    Closed readSize (file ++ List.replicate (d + 1) newline) ∧
      fileLines (file ++ List.replicate (d + 1) newline) =
        fileLines file ++ List.replicate d [] := by
  obtain ⟨front, last, rfl, hfront, hlast, hgoes⟩ := exists_open readSize_pos hopen
  have hfree := hlast.free hgoes
  have hlt : last.length < readSize :=
    Nat.lt_of_le_of_ne hlast.length_le fun heq => hgoes (.inr heq)
  rw [List.mem_append, not_or] at hzero
  have hended : Closed readSize (front ++ (last ++ [newline])) := by
    rw [closed_append readSize_pos hfront]
    have hline := (closed_chunk (isChunk_line hfree hlt) (.inr rfl)).mpr ⟨full_line, closed_nil⟩
    rwa [List.append_nil] at hline
  have hlines : fileLines (front ++ (last ++ [newline])) = fileLines (front ++ last) := by
    rw [fileLines_append hfront, fileLines_append hfront, fileLines, fileLines, fileLines,
      chunks_one (isChunk_line hfree hlt), chunks_one hlast, List.map_singleton,
      List.map_singleton, lineOf_newline hzero.2 hfree]
  have hsplit : front ++ last ++ List.replicate (d + 1) newline =
      front ++ (last ++ [newline]) ++ List.replicate d newline := by
    simp only [List.replicate_succ, List.append_assoc, List.cons_append, List.nil_append]
  rw [hsplit, ← hlines]
  exact fileLines_newlines hended d

structure Parts (file : List Byte) (i : Int) : Prop where
  closed : Closed readSize (front file i)
  length : (fileLines (front file i)).length = target file i
  sides : (∃ old, fileLines file = fileLines (front file i) ++ old :: fileLines (back file i)) ∨
    back file i = [] ∧
      ∃ d, fileLines (front file i) = fileLines file ++ List.replicate d []

theorem Parts.length_le (h : Parts file i) :
    (fileLines file).length ≤ target file i + 1 + (fileLines (back file i)).length := by
  rw [← h.length]
  rcases h.sides with ⟨old, hold⟩ | ⟨-, d, hfront⟩
  · rw [hold, List.length_append, List.length_cons]
    omega
  · rw [hfront, List.length_append]
    omega

/-! Reading the lines. -/

theorem replaced_of_lines {before after old : List Byte} {P Q : List (List Byte)}
    (hbefore : fileLines before = P ++ old :: Q) (hafter : fileLines after = P ++ text :: Q) :
    Replaced before after P.length text := by
  have hlength : (fileLines after).length = (fileLines before).length := by
    rw [hbefore, hafter, List.length_append, List.length_append]
    rfl
  have hsame : ∀ j ≠ P.length, lineAt after j = lineAt before j := by
    intro j hj
    rw [lineAt_eq, lineAt_eq, hbefore, hafter]
    rcases Nat.lt_or_gt_of_ne hj with hlt | hgt
    · rw [List.getElem?_append_left hlt, List.getElem?_append_left hlt]
    · obtain ⟨k, rfl⟩ := Nat.exists_eq_add_of_lt hgt
      have hplace : P.length + k + 1 - P.length = k + 1 := by omega
      rw [List.getElem?_append_right (by omega), List.getElem?_append_right (by omega), hplace,
        List.getElem?_cons_succ, List.getElem?_cons_succ]
  refine ⟨?_, fun j hj old hold => (hsame j hj).trans hold, fun j hj hnone => ?_,
    fun j hj hnone => (hsame j (Nat.ne_of_gt hj)).trans hnone⟩
  · rw [lineAt_eq, hafter, List.getElem?_append_right le_rfl, Nat.sub_self,
      List.getElem?_cons_zero]
  · rw [lineAt_eq, hbefore, List.getElem?_eq_none_iff, List.length_append] at hnone
    omega

theorem replaced_of_behind {before after : List Byte} {d : Nat}
    (hafter : fileLines after = fileLines before ++ List.replicate d [] ++ [text]) :
    Replaced before after ((fileLines before).length + d) text := by
  have hlength : (fileLines before ++ List.replicate d []).length =
      (fileLines before).length + d := by
    rw [List.length_append, List.length_replicate]
  refine ⟨?_, fun j hj old hold => ?_, fun j hj hnone => ?_, fun j hj hnone => ?_⟩
  · rw [lineAt_eq, hafter, List.getElem?_append_right (Nat.le_of_eq hlength), hlength,
      Nat.sub_self, List.getElem?_cons_zero]
  · rw [lineAt_eq] at hold
    obtain ⟨hlt, -⟩ := List.getElem?_eq_some_iff.mp hold
    rw [lineAt_eq, hafter, List.append_assoc, List.getElem?_append_left hlt, hold]
  · rw [lineAt_eq, List.getElem?_eq_none_iff] at hnone
    rw [lineAt_eq, hafter, List.getElem?_append_left (by omega), List.getElem?_append_right hnone,
      List.getElem?_replicate, if_pos (by omega)]
  · rw [lineAt_eq, hafter, List.getElem?_eq_none_iff, List.length_append, hlength,
      List.length_singleton]
    omega

theorem fileLines_after (hclosed : Closed readSize A) (hText : IsText text)
    (hread : Readable text) (B : List Byte) :
    fileLines (A ++ text ++ newline :: B) = fileLines A ++ text :: fileLines B := by
  rw [List.append_assoc, fileLines_append hclosed, fileLines, fileLines, fileLines,
    chunks_line hText.2 hread.1, List.map_cons, lineOf_line hText.1 hread.2]

theorem Parts.replaced (h : Parts file i) (hText : IsText text) (hread : Readable text) :
    Replaced file (front file i ++ text ++ newline :: back file i) (target file i) text := by
  have hafter := fileLines_after h.closed hText hread (back file i)
  rcases h.sides with ⟨old, hold⟩ | ⟨hback, d, hfront⟩
  · rw [← h.length]
    exact replaced_of_lines hold hafter
  · have htarget : target file i = (fileLines file).length + d := by
      rw [← h.length, hfront, List.length_append, List.length_replicate]
    rw [hfront, hback] at hafter
    rw [htarget, hback]
    exact replaced_of_behind hafter

theorem Parts.readable (h : Parts file i) (hText : IsText text)
    (hreplaced :
      Replaced file (front file i ++ text ++ newline :: back file i) (target file i) text) :
    Readable text := by
  have hline := hreplaced.line
  rw [lineAt_eq, List.append_assoc, fileLines_append h.closed, ← h.length,
    List.getElem?_append_right le_rfl, Nat.sub_self, fileLines, List.getElem?_map] at hline
  have hshort : text.length < readSize := by
    by_contra hlong
    rw [Nat.not_lt] at hlong
    obtain ⟨chunk, behind, htext, hchunk, hchunks⟩ :=
      exists_first readSize_pos hlong (newline :: back file i)
    rw [hchunks, List.getElem?_cons_zero, Option.map_some, Option.some.injEq] at hline
    have hprefix := (chop_starts (chars chunk)).trans (List.takeWhile_prefix _)
    rw [← lineOf, hline] at hprefix
    have hle := hprefix.length_le
    have hsame : chunk = text := by
      refine (List.IsPrefix.eq_of_length ⟨behind, htext.symm⟩ ?_)
      have hparts := congrArg List.length htext
      rw [List.length_append] at hparts
      omega
    have hbehind : behind = [] := by
      rw [hsame] at htext
      exact List.append_cancel_left (htext.symm.trans (List.append_nil text).symm)
    have hlines : (fileLines (text ++ newline :: back file i)).length =
        (fileLines (back file i)).length + 2 := by
      rw [length_fileLines, hchunks, hbehind, List.nil_append, chunks_newline readSize_pos,
        length_fileLines]
      rfl
    have hold : lineAt file (target file i + 1 + (fileLines (back file i)).length) = none := by
      rw [lineAt_eq, List.getElem?_eq_none_iff]
      exact h.length_le
    have hnone := hreplaced.rest _ (by omega) hold
    rw [lineAt_eq, List.append_assoc, fileLines_append h.closed, List.getElem?_eq_none_iff,
      List.length_append, h.length, hlines] at hnone
    omega
  refine ⟨hshort, fun hlast => ?_⟩
  rw [chunks_line hText.2 hshort, List.getElem?_cons_zero, Option.map_some, Option.some.injEq]
    at hline
  obtain ⟨start, rfl⟩ := List.getLast?_eq_some_iff.mp hlast
  have hzero : 0 ∉ start ++ [13] ++ [newline] := by
    rw [List.mem_append, not_or]
    exact ⟨hText.1, by decide⟩
  have hnewline : (start ++ [13] ++ [newline]).getLast? = some 10 := List.getLast?_concat
  rw [lineOf, chars_eq hzero, chop, if_pos hnewline, List.dropLast_concat, if_pos hlast,
    List.dropLast_concat] at hline
  have hlength := congrArg List.length hline
  rw [List.length_append, List.length_singleton] at hlength
  omega

/-! Where both natives agree. -/

theorem front_behind (h : (chunks writeSize file).length ≤ i) :
    front file i = file ++ List.replicate (target file i - (chunks writeSize file).length) newline ∧
      back file i = [] ∧ target file i = i.toNat := by
  have hi : ¬ i < 0 := by omega
  have htarget : target file i = i.toNat := if_neg hi
  rw [front, back, htarget, if_neg hi, if_neg hi, List.take_of_length_le (by omega),
    List.drop_eq_nil_of_le (by omega), flatten_chunks writeSize_pos]
  exact ⟨rfl, rfl, rfl⟩

theorem front_within (hi : ¬ i < 0) (h : i < (chunks writeSize file).length) :
    front file i = ((chunks writeSize file).take i.toNat).flatten := by
  have hlines : i.toNat - (chunks writeSize file).length = 0 := by omega
  rw [front, if_neg hi, hlines, List.replicate_zero, List.append_nil]

theorem parts_within (hi : ¬ i < 0) (h : i < (chunks writeSize file).length)
    (hsame : (chunks readSize file).take (i.toNat + 1) =
      (chunks writeSize file).take (i.toNat + 1)) :
    Parts file i := by
  have hn : i.toNat < (chunks readSize file).length := by
    have hlength := congrArg List.length hsame
    rw [List.length_take, List.length_take] at hlength
    omega
  obtain ⟨hclosed, hchunks⟩ := chunks_take readSize_pos hn
  have hfront : front file i = ((chunks readSize file).take i.toNat).flatten := by
    have htake := congrArg (List.take i.toNat) hsame
    rw [List.take_take, List.take_take, Nat.min_eq_left (Nat.le_succ _)] at htake
    rw [front_within hi h, htake]
  have hback : back file i = ((chunks readSize file).drop (i.toNat + 1)).flatten := by
    have hread := congrArg List.flatten (List.take_append_drop (i.toNat + 1) (chunks readSize file))
    have hwrite := congrArg List.flatten
      (List.take_append_drop (i.toNat + 1) (chunks writeSize file))
    rw [List.flatten_append, flatten_chunks readSize_pos] at hread
    rw [List.flatten_append, flatten_chunks writeSize_pos, ← hsame] at hwrite
    rw [back, if_neg hi]
    exact List.append_cancel_left (hwrite.trans hread.symm)
  rw [← hfront] at hclosed hchunks
  refine ⟨hclosed, ?_, .inl ⟨lineOf (chunks readSize file)[i.toNat], ?_⟩⟩
  · rw [length_fileLines, hchunks, List.length_take, target, if_neg hi]
    omega
  · rw [fileLines, fileLines, fileLines, hchunks, hback, chunks_drop readSize_pos, ← List.map_cons,
      ← List.map_append, List.getElem_cons_drop, List.take_append_drop]

theorem parts_of_lineOk (hzero : 0 ∉ file) (h : LineOk file i) : Parts file i := by
  rw [LineOk] at h
  split at h
  next hi =>
      have hfront : front file i = file := if_pos hi
      have hback : back file i = [] := if_pos hi
      refine ⟨hfront.symm ▸ h, ?_, .inr ⟨hback, 0, ?_⟩⟩
      · rw [hfront, target, if_pos hi]
      · rw [hfront, List.replicate_zero, List.append_nil]
  next hi =>
      split at h
      next hwithin => exact parts_within hi hwithin h
      next hbehind =>
          obtain ⟨hfront, hback, htarget⟩ := front_behind (not_lt.mp hbehind)
          rcases h with ⟨hclosed, hsame⟩ | ⟨hopen, hlt, hlength⟩
          · obtain ⟨hends, hlines⟩ := fileLines_newlines hclosed
              (target file i - (chunks writeSize file).length)
            rw [← hfront] at hends hlines
            refine ⟨hends, ?_, .inr ⟨hback, _, hlines⟩⟩
            rw [hlines, List.length_append, length_fileLines, hsame, List.length_replicate]
            omega
          · obtain ⟨d, hd⟩ := Nat.exists_eq_add_one_of_ne_zero
              (by omega : target file i - (chunks writeSize file).length ≠ 0)
            obtain ⟨hends, hlines⟩ := fileLines_newlines_open hzero hopen d
            rw [← hd, ← hfront] at hends hlines
            refine ⟨hends, ?_, .inr ⟨hback, _, hlines⟩⟩
            rw [hlines, List.length_append, length_fileLines, hlength, List.length_replicate]
            omega

theorem size_twice : 2 * readSize ≤ writeSize := by decide

theorem same_within (hi : ¬ i < 0) (h : i < (chunks writeSize file).length)
    (hclosed : Closed readSize (front file i))
    (hlength : (chunks readSize (front file i)).length = target file i)
    (hcount : (fileLines file).length ≤ target file i + 1 + (fileLines (back file i)).length) :
    (chunks readSize file).take (i.toNat + 1) = (chunks writeSize file).take (i.toNat + 1) := by
  have htarget : target file i = i.toNat := if_neg hi
  have hn : i.toNat < (chunks writeSize file).length := by omega
  have hwritten : ((chunks writeSize file).take i.toNat).length = i.toNat := by
    rw [List.length_take]
    omega
  have hchunks : chunks readSize (front file i) = (chunks writeSize file).take i.toNat := by
    rw [front_within hi h] at hlength ⊢
    refine (chunks_of_length_le readSize_pos size_twice i.toNat file).2 ?_
    omega
  obtain ⟨old, hold⟩ : ∃ old, (chunks writeSize file)[i.toNat]? = some old :=
    ⟨_, List.getElem?_eq_getElem hn⟩
  have hback : back file i = ((chunks writeSize file).drop (i.toNat + 1)).flatten := if_neg hi
  have htake : (chunks writeSize file).take (i.toNat + 1) =
      (chunks writeSize file).take i.toNat ++ [old] := by
    rw [List.take_add_one, hold]
    rfl
  have hsplit : file = front file i ++ (old ++ back file i) := by
    have hparts := congrArg List.flatten
      (List.take_append_drop (i.toNat + 1) (chunks writeSize file))
    rw [flatten_chunks writeSize_pos, List.flatten_append, htake, List.flatten_append,
      List.flatten_singleton, List.append_assoc] at hparts
    rw [front_within hi h, hback, hparts]
  have hall : chunks readSize file =
      (chunks writeSize file).take i.toNat ++ chunks readSize (old ++ back file i) := by
    conv_lhs => rw [hsplit, chunks_append readSize_pos hclosed, hchunks]
  have hends := full_at writeSize_pos hold
  rw [← hback] at hends
  rcases chunks_smaller readSize_pos size_twice
    (isChunk_of_mem writeSize_pos (List.mem_of_getElem? hold)) hends with hone | hmore
  · rw [hall, hone, htake, List.take_append, hwritten, Nat.add_sub_cancel_left,
      List.take_of_length_le (by omega)]
    rfl
  · rw [length_fileLines, length_fileLines, hall, List.length_append] at hcount
    omega

theorem lineOk_of_placed (hzero : 0 ∉ file) (hclosed : Closed readSize (front file i))
    (hlength : (chunks readSize (front file i)).length = target file i)
    (hcount : (fileLines file).length ≤ target file i + 1 + (fileLines (back file i)).length) :
    LineOk file i := by
  rw [LineOk]
  split
  next hi =>
      have hfront : front file i = file := if_pos hi
      rwa [hfront] at hclosed
  next hi =>
      split
      next hwithin => exact same_within hi hwithin hclosed hlength hcount
      next hbehind =>
          obtain ⟨hfront, -, htarget⟩ := front_behind (not_lt.mp hbehind)
          rw [← length_fileLines] at hlength
          by_cases hends : Closed readSize file
          · left
            obtain ⟨-, hlines⟩ := fileLines_newlines hends
              (target file i - (chunks writeSize file).length)
            rw [hfront, hlines, List.length_append, length_fileLines, List.length_replicate]
              at hlength
            obtain ⟨-, hsame⟩ := chunks_of_length_le readSize_pos size_twice
              (chunks writeSize file).length file
            rw [List.take_length, flatten_chunks writeSize_pos] at hsame
            exact ⟨hends, hsame (by omega)⟩
          · right
            cases hd : target file i - (chunks writeSize file).length with
            | zero =>
                rw [hfront, hd, List.replicate_zero, List.append_nil] at hclosed
                exact absurd hclosed hends
            | succ d =>
                obtain ⟨-, hlines⟩ := fileLines_newlines_open hzero hends d
                rw [hfront, hd, hlines, List.length_append, length_fileLines,
                  List.length_replicate] at hlength
                exact ⟨hends, by omega, by omega⟩

theorem writes_iff {file : Option (List Byte)} (hfile : 0 ∉ file.getD []) (hText : IsText text) :
    Writes file i text ↔
      Replaced (file.getD []) (front (file.getD []) i ++ text ++ newline :: back (file.getD []) i)
        (target (file.getD []) i) text := by
  rw [Writes, writeFile_eq file hfile hText.1]
  constructor
  · rintro ⟨after, n, hafter, htarget, hreplaced⟩
    obtain ⟨hsome, -⟩ := Prod.mk.inj (Option.some.inj hafter)
    rwa [Option.some.inj hsome, ← isTarget_iff.mp htarget]
  · exact fun hreplaced => ⟨_, _, rfl, isTarget_iff.mpr rfl, hreplaced⟩

/-- `write_file` replaces the line with whatever `read_file` can return if and only if both
agree on the lines; it replaces it with nothing else. -/
theorem writes_iff_lineOk (file : Option (List Byte)) (hfile : 0 ∉ file.getD []) (i : Int) :
    ((∀ text, IsText text → Readable text → Writes file i text) ↔ LineOk (file.getD []) i) ∧
      (LineOk (file.getD []) i → ∀ text, IsText text → Writes file i text → Readable text) := by
  refine ⟨⟨fun h => ?_, fun hline text hText hread => ?_⟩, fun hline text hText hwrites => ?_⟩
  · have hletter : ∀ c ∈ [120, 121], IsText [c] ∧ Readable [c] := by
      intro c hc
      have hkind : c = 120 ∨ c = 121 := by simpa only [List.mem_cons, List.not_mem_nil, or_false]
        using hc
      rcases hkind with rfl | rfl <;> exact ⟨⟨by decide, by decide⟩, by decide, by decide⟩
    have hreplaced : ∀ c ∈ [120, 121], Replaced (file.getD [])
        (front (file.getD []) i ++ [c] ++ newline :: back (file.getD []) i)
        (target (file.getD []) i) [c] := fun c hc =>
      (writes_iff hfile (hletter c hc).1).mp (h [c] (hletter c hc).1 (hletter c hc).2)
    obtain ⟨hclosed, hlength⟩ := placed fun c hc => (hreplaced c hc).line
    refine lineOk_of_placed hfile hclosed hlength ?_
    by_contra hmore
    obtain ⟨hText, hread⟩ := hletter 120 (by decide)
    have hafter := fileLines_after hclosed hText hread (back (file.getD []) i)
    obtain ⟨old, hold⟩ := Option.isSome_iff_exists.mp
      (lineAt_isSome_iff.mpr (not_le.mp hmore))
    have hkept := (hreplaced 120 (by decide)).old _ (by omega) old hold
    have hwithin := lineAt_isSome_iff.mp (Option.isSome_iff_exists.mpr ⟨old, hkept⟩)
    rw [← length_fileLines] at hlength
    rw [hafter, List.length_append, List.length_cons, hlength] at hwithin
    omega
  · exact (writes_iff hfile hText).mpr ((parts_of_lineOk hfile hline).replaced hText hread)
  · exact (parts_of_lineOk hfile hline).readable hText ((writes_iff hfile hText).mp hwrites)

/-- In `"a\nb\n"`, line 1 becomes `"x"`. -/
theorem writes_iff_lineOk_b :
    0 ∉ (some [97, 10, 98, 10]).getD ([] : List Byte) ∧ Writes (some [97, 10, 98, 10]) 1 [120] := by
  have hfile : (0 : Byte) ∉ (some [97, 10, 98, 10]).getD [] := by decide
  refine ⟨hfile, (writes_iff_lineOk (some [97, 10, 98, 10]) hfile 1).1.mpr ?_ [120]
    ⟨by decide, by decide⟩ ⟨by decide, by decide⟩⟩
  rw [LineOk, if_neg (by decide), if_pos (by decide)]
  decide

/-- The last line of `"a"` has no newline, and line 1 goes on with it. -/
theorem write_goes_on :
    writeFile true true (some [97]) [120] 1 = some (some [97, 120, 10], 1) ∧
      lineAt [97, 120, 10] 1 = none ∧ lineAt [97, 120, 10] 0 = some [97, 120] ∧
      ¬ Writes (some [97]) 1 [120] := by
  refine ⟨by decide, by decide, by decide, fun hwrites => ?_⟩
  have hreplaced := (writes_iff (by decide) ⟨by decide, by decide⟩).mp hwrites
  exact absurd hreplaced.line (by decide)

end

end AmxModC.TextFile
