import Mathlib.Data.BitVec
import Mathlib.Data.List.Basic
import Mathlib.Tactic.Common

namespace AmxModC.Util.IntToString

/-! Numbers in words. -/

def words : List (List Char) :=
  ["zero ", "one ", "two ", "three ", "four ",
    "five ", "six ", "seven ", "eight ", "nine ", "ten ",
    "eleven ", "twelve ", "thirteen ", "fourteen ", "fifteen ",
    "sixteen ", "seventeen ", "eighteen ", "nineteen ",
    "twenty ", "thirty ", "fourty ", "fifty ", "sixty ",
    "seventy ", "eighty ", "ninety ",
    "hundred ", "thousand "].map String.toList

/-- `sprintf(&output[aaa], "%s", words[index])`, at the end of the output. -/
def append (output : List Char) (index : Int) : Option (List Char) :=
  if 0 ≤ index then words[index.toNat]?.map (output ++ ·) else none

/-- `UTIL_IntToString`; the negative of the least number is the least number. -/
def intToString (value : BitVec 32) : Option (List Char) :=
  let value := (if value.toInt < 0 then -value else value).toInt
  let tho := value.tdiv 1000
  (if tho ≠ 0 then (append [] tho).bind (append · 29) else some []).bind fun output =>
  let value := if tho ≠ 0 then value.tmod 1000 else value
  let hun := value.tdiv 100
  (if hun ≠ 0 then (append output hun).bind (append · 28) else some output).bind fun output =>
  let value := if hun ≠ 0 then value.tmod 100 else value
  let ten := value.tdiv 10
  let unit := value.tmod 10
  (if ten ≠ 0 then append output (if ten > 1 then ten + 18 else unit + 10)
    else some output).bind fun output =>
  if ten ≠ 1 ∧ (unit ≠ 0 ∨ value = 0 ∧ hun = 0 ∧ tho = 0) then append output unit else some output

/-! What a text says. -/

inductive Word
  | number (n : Nat)
  | hundred
  | thousand
deriving DecidableEq

def lexicon : List (List Char × Word) :=
  [("zero", .number 0), ("one", .number 1), ("two", .number 2), ("three", .number 3),
    ("four", .number 4), ("five", .number 5), ("six", .number 6), ("seven", .number 7),
    ("eight", .number 8), ("nine", .number 9), ("ten", .number 10), ("eleven", .number 11),
    ("twelve", .number 12), ("thirteen", .number 13), ("fourteen", .number 14),
    ("fifteen", .number 15), ("sixteen", .number 16), ("seventeen", .number 17),
    ("eighteen", .number 18), ("nineteen", .number 19), ("twenty", .number 20),
    ("thirty", .number 30), ("fourty", .number 40), ("fifty", .number 50),
    ("sixty", .number 60), ("seventy", .number 70), ("eighty", .number 80),
    ("ninety", .number 90), ("hundred", .hundred), ("thousand", .thousand)].map
    fun entry => (entry.1.toList, entry.2)

def hear : Nat × Nat → Word → Nat × Nat
  | (thousands, n), .number m => (thousands, n + m)
  | (thousands, n), .hundred => (thousands, n * 100)
  | (thousands, n), .thousand => (thousands + n, 0)

def value (heard : List Word) : Nat :=
  let (thousands, n) := heard.foldl hear (0, 0)
  thousands * 1000 + n

def denote (text : List Char) : Option Nat :=
  ((text.splitOn ' ').dropLast.mapM fun word => List.lookup word lexicon).map value

theorem blank_notMem : ∀ entry ∈ lexicon, ' ' ∉ entry.1 := by decide

theorem lookup_entry : ∀ entry ∈ lexicon, List.lookup entry.1 lexicon = some entry.2 := by decide

theorem denote_flatMap {entries : List (List Char × Word)}
    (h : ∀ entry ∈ entries, entry ∈ lexicon) :
    denote (entries.flatMap fun entry => entry.1 ++ [' ']) =
      some (value (entries.map Prod.snd)) := by
  have hheard : (((entries.flatMap fun entry => entry.1 ++ [' ']).splitOn ' ').dropLast.mapM
      fun word => List.lookup word lexicon) = some (entries.map Prod.snd) := by
    induction entries with
    | nil => rfl
    | cons entry rest ih =>
        obtain ⟨hentry, hrest⟩ := List.forall_mem_cons.mp h
        rw [List.flatMap_cons, List.append_assoc, List.singleton_append,
          List.splitOn_append_cons_self_of_not_mem (blank_notMem entry hentry),
          List.dropLast_cons_of_ne_nil (List.splitOn_ne_nil _ _), List.mapM_cons,
          lookup_entry entry hentry, ih hrest]
        rfl
  rw [denote, hheard, Option.map_some]

/-! What is written, for a number without its sign. -/

def meaning (index : Nat) : Word :=
  if index = 28 then .hundred else if index = 29 then .thousand
  else if index ≤ 20 then .number index else .number ((index - 18) * 10)

def thousands (n : Nat) : List Nat := if n / 1000 ≠ 0 then [n / 1000, 29] else []

def hundreds (n : Nat) : List Nat := if n % 1000 / 100 ≠ 0 then [n % 1000 / 100, 28] else []

def tens (n : Nat) : List Nat :=
  if n % 100 / 10 ≠ 0 then [if n % 100 / 10 > 1 then n % 100 / 10 + 18 else n % 10 + 10] else []

def units (n : Nat) : List Nat :=
  if n % 100 / 10 ≠ 1 ∧ (n % 10 ≠ 0 ∨ n = 0) then [n % 10] else []

def indices (n : Nat) : List Nat := thousands n ++ hundreds n ++ tens n ++ units n

def text (indices : List Nat) : List Char := indices.flatMap fun index => words.getD index []

section

variable {n : Nat}

theorem append_eq {output : List Char} {index : Nat} (h : index < 30) :
    append output index = some (output ++ text [index]) := by
  have hindex : index < words.length := h
  rw [append, if_pos (Int.natCast_nonneg index), Int.toNat_natCast,
    List.getElem?_eq_getElem hindex, Option.map_some, text, List.flatMap_singleton,
    List.getD_eq_getElem?_getD, List.getElem?_eq_getElem hindex, Option.getD_some]

theorem text_append (first second : List Nat) :
    text (first ++ second) = text first ++ text second :=
  List.flatMap_append

theorem indices_lt (h : n < 30000) : ∀ index ∈ indices n, index < 30 := by
  intro index hindex
  simp only [indices, thousands, hundreds, tens, units, List.mem_append] at hindex
  grind

theorem append_append (output : List Char) (first second : Nat) (hfirst : first < 30)
    (hsecond : second < 30) :
    (append output first).bind (append · second) = some (output ++ text [first, second]) := by
  rw [append_eq hfirst, Option.bind_some, append_eq hsecond, List.append_assoc, ← text_append]
  rfl

theorem natAbs_toInt {value : BitVec 32} (hvalue : value.toInt.natAbs = n) (h : n < 30000) :
    (if value.toInt < 0 then -value else value).toInt = n := by
  split
  · have hne : value ≠ BitVec.intMin 32 := by
      rintro rfl
      rw [show (BitVec.intMin 32).toInt.natAbs = 2147483648 from by decide] at hvalue
      omega
    rw [BitVec.toInt_neg_of_ne_intMin hne]
    omega
  · omega

/-! The steps of the function, for a number below 30000. -/

theorem thousands_eq (h : n < 30000) :
    (if (n : Int).tdiv 1000 ≠ 0 then (append [] ((n : Int).tdiv 1000)).bind (append · 29)
      else some []) = some (text (thousands n)) := by
  rw [show (n : Int).tdiv 1000 = (n / 1000 : Nat) from rfl, thousands]
  split
  · rw [if_pos (by omega)]
    exact append_append [] (n / 1000) 29 (by omega) (by omega)
  · rw [if_neg (by omega)]
    rfl

theorem rest_thousands :
    (if (n : Int).tdiv 1000 ≠ 0 then (n : Int).tmod 1000 else n) = (n % 1000 : Nat) := by
  rw [show (n : Int).tdiv 1000 = (n / 1000 : Nat) from rfl,
    show (n : Int).tmod 1000 = (n % 1000 : Nat) from rfl]
  split <;> omega

theorem hundreds_eq (output : List Char) :
    (if ((n % 1000 : Nat) : Int).tdiv 100 ≠ 0 then
      (append output (((n % 1000 : Nat) : Int).tdiv 100)).bind (append · 28) else some output) =
      some (output ++ text (hundreds n)) := by
  rw [show ((n % 1000 : Nat) : Int).tdiv 100 = (n % 1000 / 100 : Nat) from rfl, hundreds]
  split
  · rw [if_pos (by omega)]
    exact append_append output (n % 1000 / 100) 28 (by omega) (by omega)
  · rw [if_neg (by omega)]
    exact congrArg some (List.append_nil output).symm

theorem rest_hundreds :
    (if ((n % 1000 : Nat) : Int).tdiv 100 ≠ 0 then ((n % 1000 : Nat) : Int).tmod 100
      else (n % 1000 : Nat)) = (n % 100 : Nat) := by
  rw [show ((n % 1000 : Nat) : Int).tdiv 100 = (n % 1000 / 100 : Nat) from rfl,
    show ((n % 1000 : Nat) : Int).tmod 100 = (n % 1000 % 100 : Nat) from rfl]
  split <;> omega

theorem tens_eq (output : List Char) :
    (if ((n % 100 : Nat) : Int).tdiv 10 ≠ 0 then
      append output (if ((n % 100 : Nat) : Int).tdiv 10 > 1 then
        ((n % 100 : Nat) : Int).tdiv 10 + 18 else ((n % 100 : Nat) : Int).tmod 10 + 10)
      else some output) =
      some (output ++ text (tens n)) := by
  have hten : ((n % 100 : Nat) : Int).tdiv 10 = (n % 100 / 10 : Nat) := rfl
  have hunit : ((n % 100 : Nat) : Int).tmod 10 = (n % 100 % 10 : Nat) := rfl
  have hindex : (if ((n % 100 / 10 : Nat) : Int) > 1 then ((n % 100 / 10 : Nat) : Int) + 18
      else ((n % 100 % 10 : Nat) : Int) + 10) =
      ((if n % 100 / 10 > 1 then n % 100 / 10 + 18 else n % 10 + 10 : Nat) : Int) := by
    split <;> split <;> omega
  have hlt : (if n % 100 / 10 > 1 then n % 100 / 10 + 18 else n % 10 + 10) < 30 := by
    split <;> omega
  rw [hten, hunit, hindex, tens]
  by_cases hzero : n % 100 / 10 = 0
  · rw [hzero, if_neg (not_not.mpr rfl), if_neg (not_not.mpr Nat.cast_zero)]
    exact congrArg some (List.append_nil output).symm
  · have hnot : ((n % 100 / 10 : Nat) : Int) ≠ 0 := Int.natCast_ne_zero.mpr hzero
    rw [if_pos hnot, if_pos hzero]
    exact append_eq hlt

theorem units_eq (output : List Char) :
    (if ((n % 100 : Nat) : Int).tdiv 10 ≠ 1 ∧ (((n % 100 : Nat) : Int).tmod 10 ≠ 0 ∨
        ((n % 100 : Nat) : Int) = 0 ∧ ((n % 1000 : Nat) : Int).tdiv 100 = 0 ∧
          (n : Int).tdiv 1000 = 0) then
      append output (((n % 100 : Nat) : Int).tmod 10) else some output) =
      some (output ++ text (units n)) := by
  rw [show ((n % 100 : Nat) : Int).tdiv 10 = (n % 100 / 10 : Nat) from rfl,
    show ((n % 100 : Nat) : Int).tmod 10 = (n % 100 % 10 : Nat) from rfl,
    show ((n % 1000 : Nat) : Int).tdiv 100 = (n % 1000 / 100 : Nat) from rfl,
    show (n : Int).tdiv 1000 = (n / 1000 : Nat) from rfl, units,
    show n % 10 = n % 100 % 10 by omega]
  split
  · rw [if_pos (by omega)]
    exact append_eq (by omega)
  · rw [if_neg (by omega)]
    exact congrArg some (List.append_nil output).symm

theorem intToString_eq {value : BitVec 32} (hvalue : value.toInt.natAbs = n) (h : n < 30000) :
    intToString value = some (text (indices n)) := by
  rw [intToString, natAbs_toInt hvalue h]
  simp only [thousands_eq h, Option.bind_some, rest_thousands, hundreds_eq, rest_hundreds, tens_eq,
    units_eq, indices, text_append]

/-! What is read from it. -/

theorem word_at : ∀ index < 30, ∃ entry ∈ lexicon, words.getD index [] = entry.1 ++ [' '] ∧
    entry.2 = meaning index := by decide

theorem exists_entries {indices : List Nat} (h : ∀ index ∈ indices, index < 30) :
    ∃ entries : List (List Char × Word), (∀ entry ∈ entries, entry ∈ lexicon) ∧
      text indices = entries.flatMap (fun entry => entry.1 ++ [' ']) ∧
      entries.map Prod.snd = indices.map meaning := by
  induction indices with
  | nil => exact ⟨[], fun _ hmem => absurd hmem List.not_mem_nil, rfl, rfl⟩
  | cons index rest ih =>
      obtain ⟨hindex, hrest⟩ := List.forall_mem_cons.mp h
      obtain ⟨entry, hentry, hword, hmeaning⟩ := word_at index hindex
      obtain ⟨entries, hentries, htext, hmap⟩ := ih hrest
      refine ⟨entry :: entries, List.forall_mem_cons.mpr ⟨hentry, hentries⟩, ?_, ?_⟩
      · rw [List.flatMap_cons, ← htext, ← hword]
        rfl
      · rw [List.map_cons, List.map_cons, hmeaning, hmap]

theorem denote_text (h : n < 30000) :
    denote (text (indices n)) = some (value ((indices n).map meaning)) := by
  obtain ⟨entries, hentries, htext, hmap⟩ := exists_entries (indices_lt h)
  rw [htext, denote_flatMap hentries, hmap]

theorem meaning_small {index : Nat} (h : index ≤ 20) : meaning index = .number index := by
  rw [meaning, if_neg (by omega), if_neg (by omega), if_pos h]

theorem meaning_tens {ten : Nat} (hlow : 1 < ten) (hhigh : ten < 10) :
    meaning (ten + 18) = .number (ten * 10) := by
  rw [meaning, if_neg (by omega), if_neg (by omega)]
  split
  · exact congrArg Word.number (by omega)
  · rw [Nat.add_sub_cancel]

theorem hear_thousands (h : n < 21000) :
    ((thousands n).map meaning).foldl hear (0, 0) = (n / 1000, 0) := by
  unfold thousands
  split
  · rw [List.map_cons, meaning_small (by omega)]
    exact Prod.ext (by simp [meaning, hear]) (by simp [meaning, hear])
  · exact Prod.ext (by simp; omega) rfl

theorem hear_hundreds (t : Nat) :
    ((hundreds n).map meaning).foldl hear (t, 0) = (t, n % 1000 / 100 * 100) := by
  unfold hundreds
  split
  · rw [List.map_cons, meaning_small (by omega)]
    exact Prod.ext (by simp [meaning, hear]) (by simp [meaning, hear])
  · exact Prod.ext rfl (by simp; omega)

theorem hear_units (t m : Nat) (hten : n % 100 / 10 ≠ 1) :
    ((units n).map meaning).foldl hear (t, m) = (t, m + n % 10) := by
  unfold units
  split
  · rw [List.map_singleton, meaning_small (by omega)]
    rfl
  · exact Prod.ext rfl (by simp; omega)

theorem hear_rest (t m : Nat) :
    ((tens n ++ units n).map meaning).foldl hear (t, m) = (t, m + n % 100) := by
  rw [List.map_append, List.foldl_append]
  rcases Nat.lt_trichotomy (n % 100 / 10) 1 with hnone | hone | hmore
  · have htens : tens n = [] := if_neg (by omega)
    rw [htens, List.map_nil, List.foldl_nil, hear_units t m (by omega)]
    exact Prod.ext rfl (by simp only; omega)
  · have htens : tens n = [n % 10 + 10] := by rw [tens, if_pos (by omega), if_neg (by omega)]
    have hunits : units n = [] := if_neg fun h => h.1 hone
    rw [htens, hunits, List.map_singleton, meaning_small (by omega)]
    exact Prod.ext rfl (by simp [hear]; omega)
  · have htens : tens n = [n % 100 / 10 + 18] := by rw [tens, if_pos (by omega), if_pos hmore]
    rw [htens, List.map_singleton, meaning_tens hmore (by omega), List.foldl_cons, List.foldl_nil,
      hear, hear_units t _ (by omega)]
    exact Prod.ext rfl (by simp only; omega)

theorem value_indices (h : n < 21000) : value ((indices n).map meaning) = n := by
  rw [value, indices, List.append_assoc, List.append_assoc, List.map_append, List.foldl_append,
    hear_thousands h, List.map_append, List.foldl_append, hear_hundreds, hear_rest]
  simp only
  omega

theorem intToString_eq_none {value : BitVec 32} (h : 30000 ≤ value.toInt.natAbs) :
    intToString value = none := by
  have htho : 30 ≤ (if value.toInt < 0 then -value else value).toInt.tdiv 1000 ∨
      (if value.toInt < 0 then -value else value).toInt.tdiv 1000 < 0 := by
    by_cases hmin : value = BitVec.intMin 32
    · subst hmin
      exact .inr (by decide)
    · have habs : (if value.toInt < 0 then -value else value).toInt = value.toInt.natAbs := by
        split
        · rw [BitVec.toInt_neg_of_ne_intMin hmin]
          omega
        · omega
      rw [habs,
        show (value.toInt.natAbs : Int).tdiv 1000 = (value.toInt.natAbs / 1000 : Nat) from rfl]
      omega
  have hnone : append [] ((if value.toInt < 0 then -value else value).toInt.tdiv 1000) = none := by
    generalize (if value.toInt < 0 then -value else value).toInt.tdiv 1000 = tho at htho
    unfold append
    split
    · have hlength : words.length ≤ tho.toNat := by
        rw [show words.length = 30 from rfl]
        omega
      rw [List.getElem?_eq_none hlength, Option.map_none]
    · rfl
  have hne : (if value.toInt < 0 then -value else value).toInt.tdiv 1000 ≠ 0 := by omega
  rw [intToString]
  simp only [if_pos hne, hnone, Option.bind_none]

theorem isSome_intToString_iff (value : BitVec 32) :
    (intToString value).isSome ↔ value.toInt.natAbs < 30000 := by
  constructor
  · intro hsome
    by_contra hlarge
    rw [intToString_eq_none (Nat.le_of_not_lt hlarge)] at hsome
    cases hsome
  · intro h
    rw [intToString_eq rfl h, Option.isSome_some]

theorem denote_intToString {value : BitVec 32} (h : value.toInt.natAbs < 21000) :
    (intToString value).bind denote = some value.toInt.natAbs := by
  have hlt : value.toInt.natAbs < 30000 := by omega
  rw [intToString_eq rfl hlt, Option.bind_some, denote_text hlt, value_indices h]

theorem intToString_eq_iff {value other : BitVec 32} (h : value.toInt.natAbs < 21000)
    (hother : other.toInt.natAbs < 21000) :
    intToString other = intToString value ↔ other.toInt.natAbs = value.toInt.natAbs := by
  constructor
  · intro heq
    have hdenote := denote_intToString hother
    rw [heq, denote_intToString h] at hdenote
    exact (Option.some.inj hdenote).symm
  · intro heq
    rw [intToString_eq rfl (by omega : value.toInt.natAbs < 30000),
      intToString_eq heq (by omega : value.toInt.natAbs < 30000)]

end

/-- Up to 29999 every index is one of the table; up to 20999 the text denotes the magnitude, and so
tells the magnitudes apart. -/
theorem spells_magnitude (value : BitVec 32) :
    (value.toInt.natAbs < 30000 → (intToString value).isSome) ∧
      (value.toInt.natAbs < 21000 → (intToString value).bind denote = some value.toInt.natAbs ∧
        ∀ other : BitVec 32, other.toInt.natAbs < 21000 →
          (intToString other = intToString value ↔ other.toInt.natAbs = value.toInt.natAbs)) :=
  ⟨(isSome_intToString_iff value).mpr,
    fun h => ⟨denote_intToString h, fun _ hother => intToString_eq_iff h hother⟩⟩

/-- The largest number that is spelt. -/
theorem spells_magnitude_largest :
    (intToString 20999#32).isSome ∧ (intToString 20999#32).bind denote = some 20999 ∧
      intToString (-20999#32) = intToString 20999#32 := by
  obtain ⟨hsome, hdenote⟩ := spells_magnitude 20999#32
  obtain ⟨hmagnitude, hsame⟩ := hdenote (by decide)
  exact ⟨hsome (by decide), hmagnitude, (hsame (-20999#32) (by decide)).mpr (by decide)⟩

/-- A sign is not spelt, a number of thousands above 20 is taken for one of tens, and from 30000
on there is no word for it. -/
theorem not_spelt :
    intToString (-5#32) = intToString 5#32 ∧ (intToString 21000#32).bind denote = some 30000 ∧
      intToString 30000#32 = none := by
  refine ⟨(intToString_eq_iff (by decide) (by decide)).mpr (by decide), ?_,
    intToString_eq_none (by decide)⟩
  rw [intToString_eq rfl (by decide), Option.bind_some, denote_text (by decide)]
  decide

end AmxModC.Util.IntToString
