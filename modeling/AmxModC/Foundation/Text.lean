import Mathlib.Data.List.DropRight
import AmxModC.Foundation.Codec

namespace AmxModC.Foundation

/-! Text files as the C library reads them: lines, and words in them. -/

def newline : Byte := 10

/-- `isspace` in the C locale. -/
def isSpace (c : Byte) : Bool := (9 ≤ c ∧ c ≤ 13) ∨ c = 32

/-- `isalpha` in the C locale. -/
def isAlpha (c : Byte) : Bool := (65 ≤ c ∧ c ≤ 90) ∨ (97 ≤ c ∧ c ≤ 122)

/-- `isalnum` in the C locale. -/
def isAlnum (c : Byte) : Bool := (48 ≤ c ∧ c ≤ 57) ∨ (65 ≤ c ∧ c ≤ 90) ∨ (97 ≤ c ∧ c ≤ 122)

/-- `tolower` in the C locale. -/
def toLower {width : Nat} (c : BitVec width) : BitVec width := if 65 ≤ c ∧ c ≤ 90 then c + 32 else c

section Words

variable {s spaces : List Byte}

/-- The word that `%s` reads. -/
def word (s : List Byte) : List Byte := (s.dropWhile isSpace).takeWhile fun c => !isSpace c

/-- What `%s` leaves behind. -/
def afterWord (s : List Byte) : List Byte := (s.dropWhile isSpace).dropWhile fun c => !isSpace c

def trimRight (s : List Byte) : List Byte := s.rdropWhile isSpace

theorem dropWhile_spaces (h : ∀ c ∈ spaces, isSpace c = true) : spaces.dropWhile isSpace = [] :=
  List.dropWhile_eq_nil_iff.mpr h

theorem takeWhile_spaces (h : ∀ c ∈ spaces, isSpace c = true) :
    (spaces.takeWhile fun c => !isSpace c) = [] := by
  cases spaces with
  | nil => rfl
  | cons c spaces => exact List.takeWhile_cons_of_neg (by simp [h c List.mem_cons_self])

theorem dropWhile_append_spaces (h : ∀ c ∈ spaces, isSpace c = true) :
    (s ++ spaces).dropWhile isSpace = s.dropWhile isSpace ++ spaces ∨
      s.dropWhile isSpace = [] ∧ (s ++ spaces).dropWhile isSpace = [] := by
  rw [List.dropWhile_append]
  split
  next hnil => exact Or.inr ⟨List.isEmpty_iff.mp hnil, dropWhile_spaces h⟩
  next => exact Or.inl rfl

theorem word_append_spaces (h : ∀ c ∈ spaces, isSpace c = true) : word (s ++ spaces) = word s := by
  rw [word, word]
  rcases dropWhile_append_spaces (s := s) h with happend | ⟨hnil, happend⟩
  · rw [happend, List.takeWhile_append, takeWhile_spaces h, List.append_nil]
    split
    next hall => exact (List.takeWhile_prefix _).eq_of_length hall |>.symm ▸ rfl
    next => rfl
  · rw [happend, hnil]

theorem afterWord_append_spaces (h : ∀ c ∈ spaces, isSpace c = true) :
    ∃ rest, (∀ c ∈ rest, isSpace c = true) ∧ afterWord (s ++ spaces) = afterWord s ++ rest := by
  rw [afterWord, afterWord]
  rcases dropWhile_append_spaces (s := s) h with happend | ⟨hnil, happend⟩
  · rw [happend, List.dropWhile_append]
    split
    next hempty =>
      rw [List.isEmpty_iff.mp hempty]
      refine ⟨_, fun c hc => h c ((List.dropWhile_sublist _).subset hc), List.nil_append _⟩
    next => exact ⟨spaces, h, rfl⟩
  · rw [happend, hnil]
    exact ⟨[], fun c hc => absurd hc List.not_mem_nil, rfl⟩

theorem trimRight_append_spaces (h : ∀ c ∈ spaces, isSpace c = true) :
    trimRight (s ++ spaces) = trimRight s := by
  rw [trimRight, trimRight, List.rdropWhile, List.rdropWhile, List.reverse_append,
    List.dropWhile_append, if_pos]
  rw [List.isEmpty_iff, List.dropWhile_eq_nil_iff]
  exact fun c hc => h c (List.mem_reverse.mp hc)

theorem exists_trimRight (s : List Byte) :
    ∃ spaces, (∀ c ∈ spaces, isSpace c = true) ∧ s = trimRight s ++ spaces :=
  ⟨s.rtakeWhile isSpace, fun _ hc => List.mem_rtakeWhile_imp hc,
    (List.rdropWhile_append_rtakeWhile ..).symm⟩

theorem word_trimRight (s : List Byte) : word (trimRight s) = word s := by
  obtain ⟨spaces, hspaces, hs⟩ := exists_trimRight s
  conv_rhs => rw [hs]
  exact (word_append_spaces hspaces).symm

theorem trimRight_append_word {w : List Byte} (h : ∀ c ∈ w, isSpace c = false) (s : List Byte) :
    trimRight (w ++ s) = w ++ trimRight s := by
  have hkeep : w.reverse.dropWhile isSpace = w.reverse := by
    rw [List.dropWhile_eq_self_iff]
    intro hpos hspace
    rw [h _ (List.mem_reverse.mp (List.getElem_mem hpos))] at hspace
    exact Bool.false_ne_true hspace
  rw [trimRight, trimRight, List.rdropWhile, List.rdropWhile, List.reverse_append,
    List.dropWhile_append]
  split
  next hempty => rw [List.isEmpty_iff.mp hempty, hkeep, List.reverse_reverse, List.reverse_nil,
    List.append_nil]
  next => rw [List.reverse_append, List.reverse_reverse]

theorem isSpace_of_mem_word {c : Byte} (h : c ∈ word s) : isSpace c = false := by
  simpa using List.mem_takeWhile_imp h

end Words

section Lines

variable {line rest file : List Byte} {size : Nat}

def lines (file : List Byte) : List (List Byte) := file.splitOn newline

theorem lines_last (h : newline ∉ line) : lines line = [line] := List.splitOn_eq_singleton h

theorem lines_line (h : newline ∉ line) (rest : List Byte) :
    lines (line ++ newline :: rest) = line :: lines rest :=
  List.splitOn_append_cons_self_of_not_mem h rest

theorem lines_induction
    {motive : List Byte → Prop}
    (last : ∀ line, newline ∉ line → motive line)
    (more : ∀ line rest, newline ∉ line → motive rest → motive (line ++ newline :: rest))
    (file : List Byte) : motive file := by
  induction hlength : file.length using Nat.strong_induction_on generalizing file with
  | _ length ih =>
      by_cases hmem : newline ∈ file
      · obtain ⟨line, rest, rfl, hline⟩ := List.eq_append_cons_of_mem hmem
        refine more line rest hline (ih rest.length ?_ rest rfl)
        rw [← hlength, List.length_append, List.length_cons]
        omega
      · exact last file hmem

/-- What `fgets` puts into a buffer of one more than `size`, what it leaves of the file, and
whether it met the end. -/
def fgets : Nat → List Byte → List Byte × List Byte × Bool
  | 0, file => ([], file, false)
  | _ + 1, [] => ([], [], true)
  | size + 1, c :: file =>
      if c = newline then ([c], file, false)
      else
        let (chunk, rest, eof) := fgets size file
        (c :: chunk, rest, eof)

theorem fgets_append (h : newline ∉ line) (size : Nat) (rest : List Byte) :
    fgets (line.length + size) (line ++ rest) =
      (line ++ (fgets size rest).1, (fgets size rest).2) := by
  induction line with
  | nil =>
      rw [List.length_nil, Nat.zero_add]
      rfl
  | cons c line ih =>
      obtain ⟨hc, hline⟩ := List.ne_and_not_mem_of_not_mem_cons h
      rw [List.length_cons, Nat.add_right_comm, List.cons_append, fgets, if_neg (Ne.symm hc),
        ih hline]
      rfl

theorem fgets_line (h : newline ∉ line) (hsize : line.length < size) :
    fgets size (line ++ newline :: rest) = (line ++ [newline], rest, false) := by
  obtain ⟨more, rfl⟩ := Nat.exists_eq_add_of_lt hsize
  rw [Nat.add_assoc, fgets_append h]
  rfl

theorem fgets_last (h : newline ∉ line) (hsize : line.length < size) :
    fgets size line = (line, [], true) := by
  obtain ⟨more, rfl⟩ := Nat.exists_eq_add_of_lt hsize
  have hline := fgets_append h (more + 1) []
  rwa [fgets, List.append_nil] at hline

theorem fgets_full (h : newline ∉ line) (rest : List Byte) :
    fgets line.length (line ++ rest) = (line, rest, false) := by
  have hline := fgets_append h 0 rest
  rwa [fgets, List.append_nil] at hline

end Lines

section Loop

variable {σ τ : Type}

/-- `while (!feof(fp)) { fgets(…); … }`. The body is told what `fgets` read, which is nothing
when the file had ended. Every turn but the last takes a byte, so `fuel` is for the length. -/
def readLines (size : Nat) (body : Option (List Byte) → σ → σ) :
    Nat → List Byte → σ → Option σ
  | 0, _, _ => none
  | fuel + 1, file, s =>
      let (chunk, rest, eof) := fgets size file
      let s := body (if chunk = [] then none else some chunk) s
      if eof then some s else readLines size body fuel rest s

theorem readLines_related
    (size : Nat)
    (body : Option (List Byte) → σ → σ)
    (step : τ → List Byte → τ)
    (Before After : σ → τ → Prop)
    (hsize : 0 < size)
    (hempty : ∀ t, step t [] = t)
    (hweaken : ∀ {s t}, After s t → Before s t)
    (hagain : ∀ {s t}, After s t → After (body none s) t)
    (hline : ∀ {s t} line, newline ∉ line → Before s t →
      After (body (some (line ++ [newline])) s) (step t line))
    (hlast : ∀ {s t} line, newline ∉ line → Before s t →
      After (body (some line) s) (step t line))
    (file : List Byte)
    (hshort : ∀ line ∈ lines file, line.length ≤ size)
    {s : σ} {t : τ} {fuel : Nat}
    (hfuel : file.length < fuel)
    (hbefore : Before s t)
    (hstart : file = [] → After s t) :
    ∃ s', readLines size body fuel file s = some s' ∧ After s' ((lines file).foldl step t) := by
  obtain ⟨fuel, rfl⟩ := Nat.exists_eq_succ_of_ne_zero (Nat.ne_of_gt (Nat.zero_lt_of_lt hfuel))
  induction file using lines_induction generalizing s t fuel with
  | last line hnewline =>
      rw [lines_last hnewline] at hshort ⊢
      have hle := hshort line (List.mem_singleton_self line)
      by_cases hnil : line = []
      · subst hnil
        rw [readLines, fgets_last hnewline hsize]
        refine ⟨_, rfl, ?_⟩
        rw [List.foldl_cons, List.foldl_nil, hempty]
        exact hagain (hstart rfl)
      · rcases Nat.lt_or_eq_of_le hle with hlt | rfl
        · rw [readLines, fgets_last hnewline hlt]
          simp only [hnil, if_false, if_true]
          exact ⟨_, rfl, hlast line hnewline hbefore⟩
        · -- the buffer is full before the end is met, and another turn reads nothing
          obtain ⟨fuel, rfl⟩ := Nat.exists_eq_succ_of_ne_zero (by omega : fuel ≠ 0)
          have hfull := fgets_full hnewline []
          rw [List.append_nil] at hfull
          rw [readLines, hfull]
          simp only [hnil, if_false, Bool.false_eq_true]
          rw [readLines, fgets_last List.not_mem_nil hsize]
          exact ⟨_, rfl, hagain (hlast line hnewline hbefore)⟩
  | more line rest hnewline ih =>
      rw [lines_line hnewline] at hshort ⊢
      obtain ⟨hle, hrest⟩ := List.forall_mem_cons.mp hshort
      rw [List.length_append, List.length_cons] at hfuel
      rw [List.foldl_cons]
      rcases Nat.lt_or_eq_of_le hle with hlt | rfl
      · rw [readLines, fgets_line hnewline hlt]
        have hne : line ++ [newline] ≠ [] := List.append_ne_nil_of_right_ne_nil _ (by decide)
        obtain ⟨fuel, rfl⟩ := Nat.exists_eq_succ_of_ne_zero (by omega : fuel ≠ 0)
        simp only [hne, if_false, Bool.false_eq_true]
        have hafter := hline line hnewline hbefore
        exact ih hrest (hweaken hafter) (fun _ => hafter) fuel (by omega)
      · obtain ⟨fuel, rfl⟩ := Nat.exists_eq_add_of_le' (by omega : 2 ≤ fuel)
        have hnil : line ≠ [] := List.length_pos_iff.mp hsize
        rw [readLines, fgets_full hnewline]
        simp only [hnil, if_false, Bool.false_eq_true]
        have hafter := hlast line hnewline hbefore
        have hturn : fgets line.length (newline :: rest) = ([newline], rest, false) :=
          @fgets_line [] rest line.length List.not_mem_nil hsize
        rw [readLines, hturn]
        simp only [List.cons_ne_nil, if_false, Bool.false_eq_true]
        have hafter' := hline [] List.not_mem_nil (hweaken hafter)
        rw [hempty] at hafter'
        exact ih hrest (hweaken hafter') (fun _ => hafter') fuel (by omega)

end Loop

end AmxModC.Foundation
