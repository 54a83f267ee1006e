import AmxModC.Foundation.Text
import AmxModC.Plugin

namespace AmxModC.Strings

open Foundation

/-! string.cpp: strings of a plugin, and the native `parse`. -/

/-- `buffor`, from its first row to the end of the last. -/
def bufferSize : Nat := 12288

/-- `get_amxstring`, with `room` characters of its buffer left. -/
def getAmxString (memory : Memory) (amx : Amx) : Nat → Nat → Option (List Byte)
  | 0, _ => none
  | room + 1, source =>
      if (memory amx source).setWidth 8 = (0 : Byte) then some []
      else (getAmxString memory amx room (source + 1)).map ((memory amx source).setWidth 8 :: ·)

def toCells (text : List Byte) : List Cell := text.map (·.signExtend 32)

/-- What `set_amxstring` writes: a negative `max` is no limit. -/
def setChars (source : List Byte) (max : Int) : List Cell :=
  toCells (if max < 0 then source else source.take max.toNat) ++ [0]

def Holds (memory : Memory) (amx : Amx) : Nat → List Byte → Prop
  | first, [] => (memory amx first).setWidth 8 = (0 : Byte)
  | first, c :: s => (memory amx first).setWidth 8 = c ∧ c ≠ 0 ∧ Holds memory amx (first + 1) s

section

variable {memory : Memory} {amx : Amx} {source : Nat} {s : List Byte}

theorem Holds.noNul (h : Holds memory amx source s) : 0 ∉ s := by
  induction s generalizing source with
  | nil => exact List.not_mem_nil
  | cons c s ih =>
      obtain ⟨-, hne, hrest⟩ := h
      rw [List.mem_cons, not_or]
      exact ⟨hne.symm, ih hrest⟩

instance (memory : Memory) (amx : Amx) :
    (first : Nat) → (s : List Byte) → Decidable (Holds memory amx first s)
  | first, [] => inferInstanceAs (Decidable ((memory amx first).setWidth 8 = (0 : Byte)))
  | first, c :: s =>
      have := instDecidableHolds memory amx (first + 1) s
      inferInstanceAs (Decidable ((memory amx first).setWidth 8 = c ∧ c ≠ 0 ∧
        Holds memory amx (first + 1) s))

theorem getAmxString_eq (h : Holds memory amx source s) (room : Nat) :
    getAmxString memory amx room source = if s.length < room then some s else none := by
  induction room generalizing source s with
  | zero => rfl
  | succ room ih =>
      cases s with
      | nil => exact if_pos h
      | cons c s =>
          obtain ⟨hc, hne, hrest⟩ := h
          rw [getAmxString, hc, if_neg hne, ih hrest, List.length_cons]
          split
          next hlt => rw [if_pos (Nat.succ_lt_succ hlt), Option.map_some]
          next hlt => rw [if_neg fun hle => hlt (Nat.lt_of_succ_lt_succ hle), Option.map_none]

end

/-! Reading a string by the number of a character, its terminator included. -/

section

variable {chars s : List Byte} {c : Byte} {b : Nat}

theorem read_end (h : chars.drop b = []) (hb : b ≤ chars.length) : (chars ++ [0])[b]? = some 0 := by
  rw [Nat.le_antisymm hb (List.drop_eq_nil_iff.mp h), List.getElem?_append_right (Nat.le_refl _),
    Nat.sub_self]
  rfl

theorem read_cons (h : chars.drop b = c :: s) : (chars ++ [0])[b]? = some c := by
  have hat : chars[b]? = some c := by rw [← List.head?_drop, h, List.head?_cons]
  rw [List.getElem?_append_left (List.getElem?_eq_some_iff.mp hat).1, hat]

theorem drop_next (h : chars.drop b = c :: s) : chars.drop (b + 1) = s := by
  rw [← List.drop_drop, h, List.drop_one, List.tail_cons]

theorem position (h : chars.drop b = s) (hb : b ≤ chars.length) : chars.length - s.length = b := by
  rw [← h, List.length_drop]
  omega

end

/-! Arguments on a line. -/

/-- The `state` of `parse_arg`: 0 before an argument, 1 in a bare one, 2 behind a
quote. -/
inductive ArgState
  | before
  | bare
  | quoted
deriving DecidableEq

/-- `arg`, with its terminator. -/
def argSize : Nat := 3072

/-- The loop of `parse_arg`, at the character number `b` of the line.  `none` is an
access outside the line or `arg`, and also a loop that is not done with its `fuel`. -/
def parseArgLoop (line : List Byte) : Nat → Nat → ArgState → List Byte →
    Option (List Byte × ArgState × Nat)
  | 0, _, _, _ => none
  | fuel + 1, b, state, arg =>
      let done := fun state b => if arg.length < argSize then some (arg, state, b) else none
      (line ++ [0])[b]?.bind fun c =>
        if c = 0 then done state b
        else if isSpace c ∧ state = .bare then done state b
        else if isSpace c ∧ state = .before then parseArgLoop line fuel (b + 1) state arg
        else
          let state := if !isSpace c ∧ state ≠ .quoted then .bare else state
          if c = 34 then
            if state = .quoted then done state (b + 1)
            else parseArgLoop line fuel (b + 1) .quoted arg
          else if arg.length < argSize then parseArgLoop line fuel (b + 1) state (arg ++ [c])
          else none

def parseArg (line : List Byte) (fuel b : Nat) : Option (List Byte × ArgState × Nat) :=
  parseArgLoop line fuel b .before []

/-- The loop of the native.  `params` is numbered as in the source, the number of
bytes first. -/
def parseLoop (amx : Amx) (params : Nat → Cell) (line : List Byte) :
    Nat → Nat → Nat → Memory → Option (Memory × Nat)
  | 0, _, _, _ => none
  | fuel + 1, b, iarg, memory =>
      (line ++ [0])[b]?.bind fun c =>
        if c = 0 then some (memory, (iarg - 2) / 2)
        else
          (parseArg line (fuel + 1) b).bind fun (arg, state, b) =>
            if state = .before then parseLoop amx params line fuel b iarg memory
            else if (params 0).toNat / 4 ≤ iarg then some (memory, (iarg - 2) / 2)
            else
              let c := memory amx (cellNumber (params (iarg + 1)))
              let memory := (memory.setString amx (cellNumber (params iarg)) arg c.toInt).1
              parseLoop amx params line fuel b (iarg + 2) memory

def parse (fuel : Nat) (amx : Amx) (params : Nat → Cell) (memory : Memory) :
    Option (Memory × Nat) :=
  (getAmxString memory amx bufferSize (cellNumber (params 1))).bind fun line =>
    parseLoop amx params line fuel 0 2 memory

/-! Strings at the start of the memory. -/

section

def lineOf (chars : List Cell) : Memory := fun _ i => chars[i]?.getD 0

/-- So many times the letter `a`. -/
def letterLine (count : Nat) : Memory := fun _ i => if i < count then 97 else 0

theorem holds_letterLine (amx : Amx) (first size : Nat) :
    Holds (letterLine (first + size)) amx first (List.replicate size 97) := by
  induction size generalizing first with
  | zero =>
      have hat : letterLine first amx first = 0 := if_neg (Nat.lt_irrefl first)
      rw [Nat.add_zero, List.replicate_zero, Holds, hat]
      rfl
  | succ size ih =>
      have hat : letterLine (first + (size + 1)) amx first = 97 := if_pos (by omega)
      have hrest := ih (first + 1)
      rw [Nat.add_right_comm, Nat.add_assoc] at hrest
      rw [List.replicate_succ, Holds, hat]
      exact ⟨rfl, by decide, hrest⟩

end

end AmxModC.Strings
