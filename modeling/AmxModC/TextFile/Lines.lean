import AmxModC.Foundation.CString
import AmxModC.Foundation.Chunks
import AmxModC.Plugin

namespace AmxModC.TextFile

open Foundation

/-! file.cpp: the natives `read_file` and `write_file`. -/

/-- Of `fgets(buffor, 1023, fp)`. -/
def readSize : Nat := 1022

/-- Of `fgets(buffor, 2047, fp)`. -/
def writeSize : Nat := 2046

def chars (buffor : List Byte) : List Byte := buffor.takeWhile (· ≠ 0)

/-- `while ((i <= iLine) && fgets(buffor, 1023, fp)) i++;`, with the turns that are left. -/
def readLoop : Nat → List Byte → List Byte → Nat → Nat × List Byte
  | 0, _, buffor, i => (i, buffor)
  | turns + 1, fp, buffor, i =>
      let (chunk, rest, _) := fgets readSize fp
      if chunk = [] then (i, buffor) else readLoop turns rest chunk (i + 1)

def chop (buffor : List Byte) : List Byte :=
  let buffor := if buffor.getLast? = some 10 then buffor.dropLast else buffor
  if buffor.getLast? = some 13 then buffor.dropLast else buffor

def readLine (file : List Byte) (iLine : Nat) : Option (Nat × List Byte) :=
  let (i, buffor) := readLoop (iLine + 1) file [] 0
  if iLine < i then some (i, chop (chars buffor)) else none

/-- The native, for a file that opens or does not.  `none` is a negative line, for which it
looks at a buffer that nothing has been read into. -/
def readFile (amx : Amx) (params : Nat → Cell) (file : Option (List Byte)) (memory : Memory) :
    Option (Memory × Int) :=
  match file with
  | none => some (memory, 0)
  | some file =>
      if (params 2).toInt < 0 then none
      else
        match readLine file (params 2).toInt.toNat with
        | none => some (memory, 0)
        | some (i, line) =>
            let (memory, length) :=
              memory.setString amx (cellNumber (params 3)) line (params 4).toInt
            some (memory.store amx (cellNumber (params 5)) [BitVec.ofNat 32 length], (i : Int))

def writeLoop (sText : List Byte) (iLine : Nat) :
    Nat → Nat → List Byte → List Byte → Option (List Byte)
  | 0, _, _, _ => none
  | fuel + 1, i, pFile, pTemp =>
      let (chunk, rest, _) := fgets writeSize pFile
      if i = iLine then
        writeLoop sText iLine fuel (i + 1) rest (pTemp ++ chars sText ++ [newline])
      else if chunk ≠ [] then writeLoop sText iLine fuel (i + 1) rest (pTemp ++ chars chunk)
      else if i < iLine then writeLoop sText iLine fuel (i + 1) rest (pTemp ++ [newline])
      else some pTemp

/-- `while (fgets(buffor, 2047, pTemp)) fputs(buffor, pFile);` -/
def copyLoop : Nat → List Byte → List Byte → Option (List Byte)
  | 0, _, _ => none
  | fuel + 1, pTemp, pFile =>
      let (chunk, rest, _) := fgets writeSize pTemp
      if chunk = [] then some pFile else copyLoop fuel rest (pFile ++ chars chunk)

/-- The native, with the file afterwards.  The file may not open for writing, and there may
be no temporary file. -/
def writeFile (opens temp : Bool) (file : Option (List Byte)) (sText : List Byte) (iLine : Int) :
    Option (Option (List Byte) × Int) :=
  if iLine < 0 then
    if opens then some (some (file.getD [] ++ chars sText ++ [newline]), 1) else some (file, 0)
  else
    match file with
    | none =>
        if opens then
          some (some (List.replicate iLine.toNat newline ++ chars sText ++ [newline]), 1)
        else some (none, 0)
    | some pFile =>
        if temp then
          (writeLoop sText iLine.toNat (iLine.toNat + pFile.length + 2) 0 pFile []).bind
            fun pTemp =>
              if opens then
                (copyLoop (pTemp.length + 1) pTemp []).map fun pFile => (some pFile, 1)
              else some (file, 0)
        else some (file, 0)

/-! What the two natives make of a file, in terms of its chunks. -/

section

variable {file pFile pTemp buffor sText text chunk rest : List Byte} {c : Byte}
  {i j k iLine fuel : Nat}

theorem readSize_pos : 0 < readSize := by decide

theorem writeSize_pos : 0 < writeSize := by decide

theorem chars_eq (h : 0 ∉ buffor) : chars buffor = buffor := takeWhile_noNul h

def lineOf (chunk : List Byte) : List Byte := chop (chars chunk)

def lineAt (file : List Byte) (iLine : Nat) : Option (List Byte) :=
  (readLine file iLine).map Prod.snd

def fileLines (file : List Byte) : List (List Byte) := (chunks readSize file).map lineOf

theorem readLoop_nil (turns : Nat) (buffor : List Byte) (i : Nat) :
    readLoop (turns + 1) [] buffor i = (i, buffor) := rfl

theorem readLoop_chunk (hchunk : IsChunk readSize chunk) (hends : Full readSize chunk ∨ rest = [])
    (turns : Nat) (buffor : List Byte) (i : Nat) :
    readLoop (turns + 1) (chunk ++ rest) buffor i = readLoop turns rest chunk (i + 1) := by
  obtain ⟨eof, hfgets⟩ := fgets_chunk hchunk hends
  rw [readLoop, hfgets]
  exact if_neg hchunk.ne_nil

theorem readLoop_eq (file buffor : List Byte) (i j : Nat) :
    (if i + j < (readLoop (j + 1) file buffor i).1 then some (readLoop (j + 1) file buffor i)
      else none) = (chunks readSize file)[j]?.map fun chunk => (i + j + 1, chunk) := by
  induction j generalizing file buffor i with
  | zero =>
      by_cases hnil : file = []
      · subst hnil
        exact if_neg (Nat.lt_irrefl i)
      · obtain ⟨chunk, rest, rfl, hchunk, hends⟩ := exists_chunk readSize_pos hnil
        rw [readLoop_chunk hchunk hends, chunks_chunk hchunk hends]
        exact if_pos (Nat.lt_succ_self i)
  | succ j ih =>
      by_cases hnil : file = []
      · subst hnil
        rw [readLoop_nil]
        exact if_neg (not_lt.mpr (Nat.le_add_right i (j + 1)))
      · obtain ⟨chunk, rest, rfl, hchunk, hends⟩ := exists_chunk readSize_pos hnil
        have hplace : i + (j + 1) = i + 1 + j := by omega
        rw [readLoop_chunk hchunk hends, chunks_chunk hchunk hends, hplace, ih rest chunk (i + 1),
          List.getElem?_cons_succ]

theorem lineAt_eq (file : List Byte) (j : Nat) : lineAt file j = (fileLines file)[j]? := by
  have hloop := readLoop_eq file [] 0 j
  rw [Nat.zero_add] at hloop
  rw [lineAt, readLine, fileLines, List.getElem?_map]
  cases hchunk : (chunks readSize file)[j]? with
  | none =>
      rw [hchunk, Option.map_none] at hloop
      have hno : ¬ j < (readLoop (j + 1) file [] 0).1 := fun hlt => by
        rw [if_pos hlt] at hloop
        cases hloop
      dsimp only
      rw [if_neg hno]
      rfl
  | some chunk =>
      rw [hchunk, Option.map_some] at hloop
      have hyes : j < (readLoop (j + 1) file [] 0).1 := by
        by_contra hno
        rw [if_neg hno] at hloop
        cases hloop
      rw [if_pos hyes, Option.some.injEq] at hloop
      dsimp only
      rw [if_pos hyes, hloop]
      rfl

theorem lineAt_isSome_iff : (lineAt file j).isSome ↔ j < (fileLines file).length := by
  rw [lineAt_eq, Option.isSome_iff_ne_none, Ne, List.getElem?_eq_none_iff, not_le]

def front (file : List Byte) (i : Int) : List Byte :=
  if i < 0 then file
  else
    ((chunks writeSize file).take i.toNat).flatten ++
      List.replicate (i.toNat - (chunks writeSize file).length) newline

def back (file : List Byte) (i : Int) : List Byte :=
  if i < 0 then [] else ((chunks writeSize file).drop (i.toNat + 1)).flatten

theorem exists_read {file : List Byte} (hzero : 0 ∉ file) (hne : file ≠ []) :
    ∃ chunk rest eof, file = chunk ++ rest ∧ fgets writeSize file = (chunk, rest, eof) ∧
      chunk ≠ [] ∧ 0 ∉ chunk ∧ 0 ∉ rest ∧ rest.length < file.length ∧
      chunks writeSize file = chunk :: chunks writeSize rest := by
  obtain ⟨chunk, rest, rfl, hchunk, hends⟩ := exists_chunk writeSize_pos hne
  obtain ⟨eof, hfgets⟩ := fgets_chunk hchunk hends
  rw [List.mem_append, not_or] at hzero
  have hpos := List.length_pos_iff.mpr hchunk.ne_nil
  refine ⟨chunk, rest, eof, rfl, hfgets, hchunk.ne_nil, hzero.1, hzero.2, ?_,
    chunks_chunk hchunk hends⟩
  rw [List.length_append]
  omega

theorem writeLoop_behind (hfile : 0 ∉ pFile) (hi : iLine < i) (hfuel : pFile.length < fuel) :
    writeLoop sText iLine fuel i pFile pTemp = some (pTemp ++ pFile) := by
  induction fuel generalizing i pFile pTemp with
  | zero => exact absurd hfuel (Nat.not_lt_zero _)
  | succ fuel ih =>
      rw [writeLoop]
      by_cases hnil : pFile = []
      · subst hnil
        have hend : fgets writeSize [] = ([], [], true) := rfl
        rw [hend]
        dsimp only
        rw [if_neg (Nat.ne_of_gt hi), if_neg (not_not.mpr rfl), if_neg (by omega), List.append_nil]
      · obtain ⟨chunk, rest, eof, rfl, hfgets, hchunk, hzero, hrest, hless, -⟩ :=
          exists_read hfile hnil
        rw [hfgets]
        dsimp only
        rw [if_neg (Nat.ne_of_gt hi), if_pos hchunk, chars_eq hzero,
          ih hrest (Nat.lt_succ_of_lt hi) (by omega), List.append_assoc]

theorem writeLoop_eq (sText pTemp : List Byte) (hfile : 0 ∉ pFile) (hi : i + k = iLine)
    (hfuel : k + pFile.length + 1 < fuel) :
    writeLoop sText iLine fuel i pFile pTemp =
      some (pTemp ++ (((chunks writeSize pFile).take k).flatten ++
        List.replicate (k - (chunks writeSize pFile).length) newline) ++ chars sText ++
          newline :: ((chunks writeSize pFile).drop (k + 1)).flatten) := by
  induction k generalizing fuel i pFile pTemp with
  | zero =>
      obtain ⟨fuel, rfl⟩ := Nat.exists_eq_add_one_of_ne_zero (by omega : fuel ≠ 0)
      have hrest : ∃ rest chunk eof, fgets writeSize pFile = (chunk, rest, eof) ∧ 0 ∉ rest ∧
          rest.length ≤ pFile.length ∧ ((chunks writeSize pFile).drop (0 + 1)).flatten = rest := by
        by_cases hnil : pFile = []
        · subst hnil
          exact ⟨[], [], true, rfl, hfile, le_rfl, rfl⟩
        · obtain ⟨chunk, rest, eof, -, hfgets, -, -, hrest, hless, hchunks⟩ :=
            exists_read hfile hnil
          refine ⟨rest, chunk, eof, hfgets, hrest, hless.le, ?_⟩
          rw [hchunks]
          exact flatten_chunks writeSize_pos rest
      obtain ⟨rest, chunk, eof, hfgets, hzero, hlength, hflatten⟩ := hrest
      rw [writeLoop, hfgets, hflatten]
      dsimp only
      rw [if_pos (by omega), writeLoop_behind hzero (by omega) (by omega), List.take_zero,
        Nat.zero_sub]
      simp only [List.flatten_nil, List.replicate_zero, List.append_nil, List.append_assoc,
        List.singleton_append]
  | succ k ih =>
      obtain ⟨fuel, rfl⟩ := Nat.exists_eq_add_one_of_ne_zero (by omega : fuel ≠ 0)
      rw [writeLoop]
      by_cases hnil : pFile = []
      · subst hnil
        have hend : fgets writeSize [] = ([], [], true) := rfl
        rw [List.length_nil] at hfuel
        rw [hend]
        dsimp only
        rw [if_neg (by omega), if_neg (not_not.mpr rfl), if_pos (by omega),
          ih _ hfile (by omega) (by rw [List.length_nil]; omega)]
        simp only [chunks_nil, List.take_nil, List.drop_nil, List.flatten_nil, List.length_nil,
          Nat.sub_zero, List.nil_append, List.replicate_succ, List.append_assoc, List.cons_append]
      · obtain ⟨chunk, rest, eof, -, hfgets, hchunk, hzero, hrest, hless, hchunks⟩ :=
          exists_read hfile hnil
        rw [hfgets]
        dsimp only
        rw [if_neg (by omega), if_pos hchunk, chars_eq hzero, ih _ hrest (by omega) (by omega),
          hchunks, List.take_succ_cons, List.drop_succ_cons, List.flatten_cons, List.length_cons,
          Nat.add_sub_add_right]
        simp only [List.append_assoc]

theorem copyLoop_eq (hzero : 0 ∉ pTemp) (hfuel : pTemp.length < fuel) :
    copyLoop fuel pTemp pFile = some (pFile ++ pTemp) := by
  induction fuel generalizing pFile pTemp with
  | zero => exact absurd hfuel (Nat.not_lt_zero _)
  | succ fuel ih =>
      rw [copyLoop]
      by_cases hnil : pTemp = []
      · subst hnil
        rw [List.append_nil]
        rfl
      · obtain ⟨chunk, rest, eof, rfl, hfgets, hchunk, hfree, hrest, hless, -⟩ :=
          exists_read hzero hnil
        rw [hfgets]
        dsimp only
        rw [if_neg hchunk, chars_eq hfree, ih hrest (by omega), List.append_assoc]

theorem noNul_flatten (hfile : 0 ∉ file) {parts : List (List Byte)}
    (h : parts.Sublist (chunks writeSize file)) : 0 ∉ parts.flatten := by
  intro hmem
  obtain ⟨part, hpart, hin⟩ := List.mem_flatten.mp hmem
  refine hfile ?_
  rw [← flatten_chunks writeSize_pos file]
  exact List.mem_flatten.mpr ⟨part, h.subset hpart, hin⟩

theorem writeFile_eq (file : Option (List Byte)) (hfile : 0 ∉ file.getD []) (hText : 0 ∉ sText)
    (i : Int) :
    writeFile true true file sText i =
      some (some (front (file.getD []) i ++ sText ++ newline :: back (file.getD []) i), 1) := by
  by_cases hi : i < 0
  · rw [front, back, if_pos hi, if_pos hi]
    unfold writeFile
    rw [if_pos hi, if_pos rfl, chars_eq hText]
  · rw [front, back, if_neg hi, if_neg hi]
    unfold writeFile
    rw [if_neg hi]
    cases file with
    | none =>
        dsimp only
        rw [if_pos rfl, chars_eq hText]
        simp only [Option.getD_none, chunks_nil, List.take_nil, List.drop_nil, List.flatten_nil,
          List.length_nil, Nat.sub_zero, List.nil_append, List.append_assoc]
    | some pFile =>
        rw [Option.getD_some] at hfile ⊢
        have hfuel : i.toNat + pFile.length + 1 < i.toNat + pFile.length + 2 := by omega
        have hloop := writeLoop_eq sText [] hfile (Nat.zero_add i.toNat) hfuel
        have hcopied : 0 ∉ [] ++ (((chunks writeSize pFile).take i.toNat).flatten ++
            List.replicate (i.toNat - (chunks writeSize pFile).length) newline) ++ sText ++
              newline :: ((chunks writeSize pFile).drop (i.toNat + 1)).flatten := by
          have htake := noNul_flatten hfile (List.take_sublist i.toNat _)
          have hdrop := noNul_flatten hfile (List.drop_sublist (i.toNat + 1) _)
          have hlines : (0 : Byte) ∉
              List.replicate (i.toNat - (chunks writeSize pFile).length) newline := fun hmem =>
            absurd (List.eq_of_mem_replicate hmem) (by decide)
          simp only [List.nil_append, List.mem_append, List.mem_cons, not_or]
          exact ⟨⟨⟨htake, hlines⟩, hText⟩, by decide, hdrop⟩
        rw [chars_eq hText] at hloop
        dsimp only
        rw [if_pos rfl, hloop, Option.bind_some, if_pos rfl,
          copyLoop_eq hcopied (Nat.lt_succ_self _), Option.map_some]
        rfl

end

end AmxModC.TextFile
