import AmxModC.Strings.Model

namespace AmxModC.Strings

open Foundation

/-! The native `strbreak`. -/

def sizeSub (a b : Nat) : Nat := (a + 4294967296 - b) % 4294967296

/-- The loops over blanks, from the character number `i`.  `none` is a read behind the
terminator, and also a loop that is not done with its `fuel`. -/
def skipSpaces (string : List Byte) (inside : Nat → Bool) : Nat → Nat → Option Nat
  | 0, _ => none
  | fuel + 1, i =>
      (string ++ [0])[i]?.bind fun c =>
        if isSpace c && inside i then skipSpaces string inside fuel (i + 1) else some i

/-- The loop of `strbreak`, up to the jump to `do_copy` with the values of `i` and
`had_quotes`, or to its end. -/
def scanWord (string : List Byte) : Nat → Nat → Bool → Bool → Option (Option (Nat × Bool))
  | 0, _, _, _ => none
  | fuel + 1, i, inQuote, hadQuotes =>
      if i < string.length then
        (string ++ [0])[i]?.bind fun c =>
          if c = 34 ∧ inQuote = false then scanWord string fuel (i + 1) true true
          else if c = 34 ∧ inQuote = true then
            if i = string.length - 1 then some (some (i, hadQuotes))
            else scanWord string fuel (i + 1) false hadQuotes
          else if isSpace c ∧ inQuote = false then some (some (i, hadQuotes))
          else scanWord string fuel (i + 1) inQuote hadQuotes
      else some none

/-- So many characters from the one with the number `start` on. -/
def copyChars (string : List Byte) : Nat → Nat → Option (List Cell)
  | _, 0 => some []
  | start, count + 1 =>
      (string ++ [0])[start]?.bind fun c =>
        (copyChars string (start + 1) count).map (c.signExtend 32 :: ·)

/-- What is written from the first cells of `Left` and of `Right` on. -/
structure Written where
  left : List Cell
  right : Option (List Cell)
deriving DecidableEq

/-- `do_copy`; the limits are compared as `size_t`. -/
def doCopy (string : List Byte) (fuel beg pos : Nat) (hadQuotes : Bool) (leftMax rightMax : Cell) :
    Option Written :=
  (skipSpaces string (fun _ => true) fuel pos).bind fun i =>
    let len := string.length
    let start := if hadQuotes then beg + 1 else beg
    let quotes := if hadQuotes then if i = len - 1 then 1 else 2 else 0
    let leftEnd := if sizeSub pos quotes > leftMax.toNat then leftMax.toNat else sizeSub pos quotes
    let toGo := sizeSub leftEnd beg
    (if leftEnd ≠ 0 ∧ toGo ≠ 0 then copyChars string start toGo else some []).bind fun left =>
      let rightEnd := if len - i + 1 > rightMax.toNat then rightMax.toNat else len - i + 1
      (if rightEnd ≠ 0 then copyChars string i rightEnd else some []).map fun right =>
        ⟨left ++ [0], some (right ++ [0])⟩

/-- `strbreak`, on the string that it has copied. -/
def breakString (string : List Byte) (fuel : Nat) (leftMax rightMax : Cell) : Option Written :=
  (skipSpaces string (fun i => i < string.length) fuel 0).bind fun beg =>
    (scanWord string fuel beg false false).bind fun
      | some (pos, hadQuotes) => doCopy string fuel beg pos hadQuotes leftMax rightMax
      | none => some ⟨setChars (string.drop beg) leftMax.toInt,
          if rightMax ≠ 0 then some [0] else none⟩

def strbreakWrites (fuel : Nat) (amx : Amx) (params : Nat → Cell) (memory : Memory) :
    Option Written :=
  (getAmxString memory amx bufferSize (cellNumber (params 1))).bind fun string =>
    breakString string fuel (params 3) (params 5)

def strbreak (fuel : Nat) (amx : Amx) (params : Nat → Cell) (memory : Memory) : Option Memory :=
  (strbreakWrites fuel amx params memory).map fun written =>
    let memory := memory.store amx (cellNumber (params 2)) written.left
    match written.right with
    | some right => memory.store amx (cellNumber (params 4)) right
    | none => memory

section

variable {string t : List Byte} {fuel i : Nat}

theorem skipSpaces_eq {inside : Nat → Bool} (hinside : ∀ i < string.length, inside i = true)
    (h : string.drop i = t) (hi : i ≤ string.length) (hfuel : t.length < fuel) :
    skipSpaces string inside fuel i = some (string.length - (t.dropWhile isSpace).length) := by
  induction fuel generalizing i t with
  | zero => exact absurd hfuel (Nat.not_lt_zero _)
  | succ fuel ih =>
      cases t with
      | nil =>
          rw [skipSpaces, read_end h hi, Option.bind_some, List.dropWhile_nil, position h hi]
          rfl
      | cons c t =>
          have hlength := congrArg List.length h
          rw [List.length_drop, List.length_cons] at hlength
          rw [skipSpaces, read_cons h, Option.bind_some, hinside i (by omega), Bool.and_true,
            List.dropWhile_cons]
          split
          next => exact ih (drop_next h) (by omega) (Nat.lt_of_succ_lt_succ hfuel)
          next => rw [position h hi]

theorem copyChars_eq {start : Nat} (count : Nat) (hstart : start ≤ string.length + 1) :
    copyChars string start count =
      if start + count ≤ string.length + 1 then
        some (toCells (((string ++ [0]).drop start).take count))
      else none := by
  induction count generalizing start with
  | zero => exact (if_pos hstart).symm
  | succ count ih =>
      have hlength : (string ++ [0]).length = string.length + 1 := by simp
      rw [copyChars]
      rcases Nat.lt_or_eq_of_le hstart with hlt | rfl
      · have hat : start < (string ++ [0]).length := hlength.symm ▸ hlt
        rw [List.getElem?_eq_getElem hat, Option.bind_some, ih hlt, List.drop_eq_getElem_cons hat,
          List.take_succ_cons, show start.succ + count = start + (count + 1) by omega]
        split <;> rfl
      · rw [List.getElem?_eq_none (Nat.le_of_eq hlength), if_neg (by omega), Option.bind_none]

end

/-! What `parse` is for: a line as a list of arguments, and the list as a line. -/

def scan : ArgState → List Byte → List Byte × ArgState × List Byte
  | state, [] => ([], state, [])
  | .before, c :: s =>
      if isSpace c then scan .before s
      else if c = 34 then scan .quoted s
      else (c :: (scan .bare s).1, (scan .bare s).2)
  | .bare, c :: s =>
      if isSpace c then ([], .bare, c :: s)
      else if c = 34 then scan .quoted s
      else (c :: (scan .bare s).1, (scan .bare s).2)
  | .quoted, c :: s =>
      if c = 34 then ([], .quoted, s) else (c :: (scan .quoted s).1, (scan .quoted s).2)

theorem scan_suffix (state : ArgState) (s : List Byte) : (scan state s).2.2 <:+ s := by
  induction s generalizing state with
  | nil => cases state <;> exact List.suffix_rfl
  | cons c s ih =>
      have hrest : ∀ state, (scan state s).2.2 <:+ c :: s := fun state =>
        (ih state).trans (List.suffix_cons c s)
      cases state with
      | before =>
          rw [scan]
          split
          next => exact hrest .before
          next => split <;> exact hrest _
      | bare =>
          rw [scan]
          split
          next => exact List.suffix_rfl
          next => split <;> exact hrest _
      | quoted =>
          rw [scan]
          split
          next => exact List.suffix_cons c s
          next => exact hrest .quoted

theorem scan_bare_state (s : List Byte) : (scan .bare s).2.1 ≠ .before ∧
    (scan .quoted s).2.1 ≠ .before := by
  induction s with
  | nil => exact ⟨ArgState.noConfusion, ArgState.noConfusion⟩
  | cons c s ih =>
      rw [scan, scan]
      refine ⟨?_, ?_⟩
      · split
        next => exact ArgState.noConfusion
        next =>
            split
            next => exact ih.2
            next => exact ih.1
      · split
        next => exact ArgState.noConfusion
        next => exact ih.2

theorem scan_before (s : List Byte) :
    ((scan .before s).2.1 = .before → scan .before s = ([], .before, [])) ∧
      ((scan .before s).2.1 ≠ .before → (scan .before s).2.2.length < s.length) := by
  induction s with
  | nil => exact ⟨fun _ => rfl, fun h => absurd rfl h⟩
  | cons c s ih =>
      have hshort : ∀ state, (scan state s).2.2.length < (c :: s).length := fun state =>
        Nat.lt_succ_of_le (scan_suffix state s).length_le
      rw [scan]
      split
      next => exact ⟨ih.1, fun _ => hshort .before⟩
      next =>
          split
          next => exact ⟨fun h => absurd h (scan_bare_state s).2, fun _ => hshort .quoted⟩
          next => exact ⟨fun h => absurd h (scan_bare_state s).1, fun _ => hshort .bare⟩

def arguments (s : List Byte) : List (List Byte) :=
  if (scan .before s).2.1 = .before then []
  else (scan .before s).1 :: arguments (scan .before s).2.2
termination_by s.length
decreasing_by exact (scan_before s).2 ‹_›

theorem arguments_done {s : List Byte} (h : (scan .before s).2.1 = .before) :
    arguments s = [] := by
  rw [arguments, if_pos h]

theorem arguments_next {s : List Byte} (h : (scan .before s).2.1 ≠ .before) :
    arguments s = (scan .before s).1 :: arguments (scan .before s).2.2 := by
  rw [arguments, if_neg h]

theorem arguments_space {c : Byte} (hc : isSpace c = true) (s : List Byte) :
    arguments (c :: s) = arguments s := by
  have hscan : scan .before (c :: s) = scan .before s := by rw [scan, if_pos hc]
  rw [arguments, hscan, ← arguments]

structure Argument where
  isQuoted : Bool
  text : List Byte
  noNul : 0 ∉ text
  noQuote : 34 ∉ text
  word : isQuoted = false → text ≠ [] ∧ ∀ c ∈ text, isSpace c = false

namespace Argument

def render (arg : Argument) : List Byte :=
  if arg.isQuoted then 34 :: (arg.text ++ [34]) else arg.text

def renderAll (args : List Argument) : List Byte := [32].intercalate (args.map render)

section

variable {text rest : List Byte}

theorem scan_quoted (hquote : 34 ∉ text) (rest : List Byte) :
    scan .quoted (text ++ 34 :: rest) = (text, .quoted, rest) := by
  induction text with
  | nil => rfl
  | cons c text ih =>
      rw [List.mem_cons, not_or] at hquote
      rw [List.cons_append, scan, if_neg (Ne.symm hquote.1), ih hquote.2]

theorem scan_bare (hquote : 34 ∉ text) (hspace : ∀ c ∈ text, isSpace c = false)
    (hrest : ∀ c ∈ rest.head?, isSpace c = true) :
    scan .bare (text ++ rest) = (text, .bare, rest) := by
  induction text with
  | nil =>
      cases rest with
      | nil => rfl
      | cons c rest => rw [List.nil_append, scan, if_pos (hrest c rfl)]
  | cons c text ih =>
      rw [List.mem_cons, not_or] at hquote
      obtain ⟨hc, htext⟩ := List.forall_mem_cons.mp hspace
      rw [List.cons_append, scan, if_neg (Bool.eq_false_iff.mp hc), if_neg (Ne.symm hquote.1),
        ih hquote.2 htext]

theorem scan_render (arg : Argument) (hrest : ∀ c ∈ rest.head?, isSpace c = true) :
    ∃ state, state ≠ .before ∧ scan .before (arg.render ++ rest) = (arg.text, state, rest) := by
  obtain ⟨isQuoted, text, hnul, hquote, hword⟩ := arg
  cases isQuoted with
  | true =>
      refine ⟨.quoted, ArgState.noConfusion, ?_⟩
      rw [render, if_pos rfl, List.cons_append, List.append_assoc, List.singleton_append]
      exact scan_quoted hquote rest
  | false =>
      obtain ⟨hne, hspace⟩ := hword rfl
      have hscan := scan_bare hquote hspace hrest
      cases text with
      | nil => exact absurd rfl hne
      | cons c text =>
          refine ⟨.bare, ArgState.noConfusion, ?_⟩
          rw [List.cons_append, scan] at hscan
          rw [render, if_neg Bool.false_ne_true, List.cons_append, scan]
          rw [if_neg (Bool.eq_false_iff.mp (hspace c List.mem_cons_self))] at hscan ⊢
          exact hscan

theorem arguments_append (arg : Argument) (hrest : ∀ c ∈ rest.head?, isSpace c = true) :
    arguments (arg.render ++ rest) = arg.text :: arguments rest := by
  obtain ⟨state, hstate, hscan⟩ := scan_render arg hrest
  rw [arguments_next (by rwa [hscan]), hscan]

end

theorem renderAll_cons (arg next : Argument) (args : List Argument) :
    renderAll (arg :: next :: args) = arg.render ++ 32 :: renderAll (next :: args) := by
  rw [renderAll, List.map_cons, List.map_cons, List.intercalate_cons_cons, List.append_assoc,
    List.singleton_append]
  rfl

theorem arguments_renderAll (args : List Argument) :
    arguments (renderAll args) = args.map Argument.text := by
  induction args with
  | nil => exact arguments_done rfl
  | cons arg args ih =>
      cases args with
      | nil =>
          have hlast := @arguments_append [] arg fun _ h => nomatch h
          rw [List.append_nil] at hlast
          rw [renderAll, List.map_singleton, List.intercalate_singleton, hlast,
            arguments_done rfl]
          rfl
      | cons next args =>
          have hspace : ∀ c ∈ (32 :: renderAll (next :: args)).head?, isSpace c = true := by
            intro c hc
            cases hc
            decide
          rw [renderAll_cons, arguments_append arg hspace, arguments_space (by decide), ih]
          rfl

end Argument

end AmxModC.Strings
