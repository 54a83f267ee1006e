import AmxModC.Format.Model

namespace AmxModC.Format

open Foundation

/-! The text of a format: what `atcprintf` writes where there is room for all of it, as a list
of pieces, and the run of the function that follows these pieces. -/

structure Inputs (d : Nat) where
  fmt : Nat → Option (BitVec d)
  arg : Cell → Nat → Option Cell
  vector : Cell → Nat → Option Cell
  float : Cell → Cell → Cell → Flags → List (BitVec d)

structure Piece (d : Nat) where
  string : Bool
  text : List (BitVec d)
deriving DecidableEq, Repr

inductive Ending where
  | finished
  | failed
deriving DecidableEq, Repr

def readCells (read : Nat → Option Cell) : Nat → Nat → Option (List Cell)
  | 0, _ => some []
  | size + 1, i => do
      let c ← read i
      let rest ← readCells read size (i + 1)
      return c :: rest

section

variable {d : Nat}

def stringPiece (read : Nat → Option Cell) (fuel : Nat) (width prec : Cell) :
    Option (Piece d) := do
  let size ← stringSize read fuel prec
  let cells ← readCells read size 0
  return ⟨true, cells.map (BitVec.setWidth d) ++
    List.replicate (width - BitVec.ofNat 32 size).toInt.toNat (chr d 32)⟩

namespace Inputs

def numberPiece (inputs : Inputs d) (address : Cell) (text : Cell → List Byte) :
    Option (Piece d) := do
  let value ← inputs.arg address 0
  return ⟨false, (text value).map (chr d)⟩

def piece (inputs : Inputs d) (fuel : Nat) (directive : Directive) (address : Cell) :
    Conversion → Option (Piece d)
  | .char => do
      let value ← inputs.arg address 0
      return ⟨false, [value.setWidth d]⟩
  | .int => inputs.numberPiece address fun value =>
      fullText (intSign value ++ intDigits value) directive.width directive.flags
  | .uint => inputs.numberPiece address fun value =>
      fullText (numeral 10 false value.toNat) directive.width directive.flags
  | .float => do
      let value ← inputs.arg address 0
      return ⟨false, inputs.float value directive.width directive.prec directive.flags⟩
  | .hex upper => inputs.numberPiece address fun value =>
      fullText (numeral 16 upper value.toNat) directive.width
        { directive.flags with upperdigits := upper }
  | .vector => do
      let pointer ← inputs.arg address 0
      stringPiece (inputs.vector pointer) fuel directive.width directive.prec
  | .string => stringPiece (inputs.arg address) fuel directive.width directive.prec
  | .terminator | .other => some ⟨false, []⟩

def refuses (inputs : Inputs d) (address : Cell) : Conversion → Option Bool
  | .vector => do
      let pointer ← inputs.arg address 0
      return pointer = 0
  | _ => some false

/-- The pieces of the format from a place in it on, up to its end or to the first argument
that is missing or refused. -/
def pieces (inputs : Inputs d) (args : Int) (params : Int → Cell) :
    Nat → Nat → Int → Option (List (Piece d) × Ending)
  | 0, _, _ => none
  | fuel + 1, i, arg => do
      let ch ← inputs.fmt i
      if ch = 0 then return ([], .finished)
      else if ch ≠ chr d 37 then do
        let (rest, ending) ← inputs.pieces args params fuel (i + 1) arg
        return (⟨false, [ch]⟩ :: rest, ending)
      else do
        let first ← inputs.fmt (i + 1)
        let (ch, i, directive) ← scan inputs.fmt fuel first (i + 2) {}
        match conversion ch with
        | .terminator => return ([⟨false, [chr d 37]⟩], .finished)
        | .other => do
            let (rest, ending) ← inputs.pieces args params fuel i arg
            return (⟨false, [ch]⟩ :: rest, ending)
        | kind =>
            if args < arg then return ([], .failed)
            else do
              let refused ← inputs.refuses (params arg) kind
              if refused then return ([], .failed)
              else do
                let piece ← inputs.piece fuel directive (params arg) kind
                let (rest, ending) ← inputs.pieces args params fuel i (arg + 1)
                return (piece :: rest, ending)

end Inputs

def text (pieces : List (Piece d)) : List (BitVec d) := pieces.flatMap Piece.text

/-- No string is reached while the space that is left does not fit an `int`. -/
def WithinInt : List (Piece d) → Nat → Prop
  | [], _ => True
  | piece :: pieces, llen =>
      llen = 0 ∨ (piece.string = true → llen < 2 ^ 31) ∧
        WithinInt pieces (llen - piece.text.length)

theorem text_cons (piece : Piece d) (pieces : List (Piece d)) :
    text (piece :: pieces) = piece.text ++ text pieces := rfl

end

/-! Reading: what is found in part of the memory is found in all of it. -/

section Reading

variable {d : Nat} {read full : Nat → Option (BitVec d)} {cells all : Nat → Option Cell}

def Extends {α : Type} (part full : Nat → Option α) : Prop :=
  ∀ i c, part i = some c → full i = some c

theorem number_extends (h : Extends read full) {fuel i : Nat} {n : Cell} {ch : BitVec d}
    {found : Cell × BitVec d × Nat} (hread : number read fuel n ch i = some found) :
    number full fuel n ch i = some found := by
  induction fuel generalizing n ch i with
  | zero => cases hread
  | succ fuel ih =>
      rw [number] at hread ⊢
      split at hread
      next hdigit =>
          rw [if_pos hdigit]
          simp only [Option.bind_eq_bind, Option.bind_eq_some_iff] at hread ⊢
          obtain ⟨next, hnext, hrest⟩ := hread
          exact ⟨next, h i next hnext, ih hrest⟩
      next hdigit => rwa [if_neg hdigit]

theorem scan_extends (h : Extends read full) {fuel i : Nat} {ch : BitVec d}
    {directive : Directive} {found : BitVec d × Nat × Directive}
    (hread : scan read fuel ch i directive = some found) :
    scan full fuel ch i directive = some found := by
  induction fuel generalizing ch i directive with
  | zero => cases hread
  | succ fuel ih =>
      rw [scan] at hread ⊢
      split at hread
      next hminus =>
          rw [if_pos hminus]
          simp only [Option.bind_eq_bind, Option.bind_eq_some_iff] at hread ⊢
          obtain ⟨next, hnext, hrest⟩ := hread
          exact ⟨next, h i next hnext, ih hrest⟩
      next hminus =>
        rw [if_neg hminus]
        split at hread
        next hpoint =>
            rw [if_pos hpoint]
            simp only [Option.bind_eq_bind, Option.bind_eq_some_iff] at hread ⊢
            obtain ⟨first, hfirst, ⟨n, next, j⟩, hnumber, hrest⟩ := hread
            exact ⟨first, h i first hfirst, ⟨n, next, j⟩, number_extends h hnumber, ih hrest⟩
        next hpoint =>
          rw [if_neg hpoint]
          split at hread
          next hzero =>
              rw [if_pos hzero]
              simp only [Option.bind_eq_bind, Option.bind_eq_some_iff] at hread ⊢
              obtain ⟨next, hnext, hrest⟩ := hread
              exact ⟨next, h i next hnext, ih hrest⟩
          next hzero =>
            rw [if_neg hzero]
            split at hread
            next hdigit =>
                rw [if_pos hdigit]
                simp only [Option.bind_eq_bind, Option.bind_eq_some_iff] at hread ⊢
                obtain ⟨⟨n, next, j⟩, hnumber, hrest⟩ := hread
                exact ⟨⟨n, next, j⟩, number_extends h hnumber, ih hrest⟩
            next hdigit => rwa [if_neg hdigit]

theorem strlen_extends (h : Extends cells all) {fuel size found : Nat}
    (hread : strlen cells fuel size = some found) : strlen all fuel size = some found := by
  induction fuel generalizing size with
  | zero => cases hread
  | succ fuel ih =>
      simp only [strlen, Option.bind_eq_bind, Option.bind_eq_some_iff] at hread ⊢
      obtain ⟨c, hc, hrest⟩ := hread
      refine ⟨c, h size c hc, ?_⟩
      split at hrest
      next hzero => rwa [if_pos hzero]
      next hzero =>
          rw [if_neg hzero]
          exact ih hrest

theorem strnlen_extends (h : Extends cells all) {prec size found : Nat}
    (hread : strnlen cells prec size = some found) : strnlen all prec size = some found := by
  induction prec generalizing size with
  | zero => exact hread
  | succ prec ih =>
      simp only [strnlen, Option.bind_eq_bind, Option.bind_eq_some_iff] at hread ⊢
      obtain ⟨c, hc, hrest⟩ := hread
      refine ⟨c, h size c hc, ?_⟩
      split at hrest
      next hzero => rwa [if_pos hzero]
      next hzero =>
          rw [if_neg hzero]
          exact ih hrest

theorem stringSize_extends (h : Extends cells all) {fuel found : Nat} {prec : Cell}
    (hread : stringSize cells fuel prec = some found) :
    stringSize all fuel prec = some found := by
  unfold stringSize at hread ⊢
  split at hread
  next hneg =>
      rw [if_pos hneg]
      exact strlen_extends h hread
  next hneg =>
      rw [if_neg hneg]
      exact strnlen_extends h hread

theorem length_readCells {size i : Nat} {found : List Cell}
    (h : readCells cells size i = some found) : found.length = size := by
  induction size generalizing i found with
  | zero =>
      cases h
      rfl
  | succ size ih =>
      simp only [readCells, Option.bind_eq_bind, Option.bind_eq_some_iff] at h
      obtain ⟨c, _, rest, hrest, hout⟩ := h
      cases hout
      exact congrArg Nat.succ (ih hrest)

theorem readCells_take {size less i : Nat} {found : List Cell} (hle : less ≤ size)
    (h : readCells cells size i = some found) :
    readCells cells less i = some (found.take less) := by
  induction less generalizing size i found with
  | zero => rfl
  | succ less ih =>
      obtain ⟨size, rfl⟩ : ∃ more, size = more + 1 := ⟨size - 1, by omega⟩
      simp only [readCells, Option.bind_eq_bind, Option.bind_eq_some_iff] at h ⊢
      obtain ⟨c, hc, rest, hrest, hout⟩ := h
      cases hout
      exact ⟨c, hc, rest.take less, ih (by omega) hrest, rfl⟩

end Reading

end AmxModC.Format
