import AmxModC.Machine
import AmxModC.Foundation.Numeral

namespace AmxModC.Format

open Foundation

section

/-! The integer conversions of `atcprintf`: the characters that they write for a value, a
width and flags, into so much space. -/

structure Flags where
  ladjust : Bool := false
  zeropad : Bool := false
  upperdigits : Bool := false
deriving DecidableEq, Repr

/-- `while (digits < width && maxlen)`: the padding on the left, with the width and the space
behind it. -/
def padLeft (pad : Byte) (digits : Cell) : Nat → Cell → List Byte × Cell × Nat
  | 0, width => ([], width, 0)
  | maxlen + 1, width =>
      if digits.slt width then
        let (rest, width, maxlen) := padLeft pad digits maxlen (width - 1)
        (pad :: rest, width, maxlen)
      else ([], width, maxlen + 1)

/-- `while (width-- && maxlen)`: the padding on the right. -/
def padRight (pad : Byte) : Nat → Cell → List Byte
  | 0, _ => []
  | maxlen + 1, width => if width = 0 then [] else pad :: padRight pad maxlen (width - 1)

/-- What the three functions do with `text`, read from its end in the source. -/
def addText (text : List Byte) (width : Cell) (flags : Flags) (maxlen : Nat) : List Byte :=
  let pad : Byte := if flags.zeropad then 48 else 32
  let (left, width, maxlen) :=
    if flags.ladjust then ([], width, maxlen)
    else padLeft pad (BitVec.ofNat 32 text.length) maxlen width
  let digits := text.take maxlen
  let width := width - BitVec.ofNat 32 digits.length
  let maxlen := maxlen - digits.length
  left ++ digits ++ if flags.ladjust then padRight pad maxlen width else []

def addUInt (val : Cell) (width : Cell) (flags : Flags) (maxlen : Nat) : List Byte :=
  addText (numeral 10 false val.toNat) width flags maxlen

/-- The sign of `AddInt` and the digits of `abs(val)`, which is unsigned. -/
def intSign (val : Cell) : List Byte := if val.slt 0 then [45] else []

def intDigits (val : Cell) : List Byte :=
  numeral 10 false (if val.slt 0 then (-val).toNat else val.toNat)

def addInt (val : Cell) (width : Cell) (flags : Flags) (maxlen : Nat) : List Byte :=
  addText (intSign val ++ intDigits val) width flags maxlen

def addHex (val : Cell) (width : Cell) (flags : Flags) (maxlen : Nat) : List Byte :=
  addText (numeral 16 flags.upperdigits val.toNat) width flags maxlen

/-! The text without a limit. -/

def padding (length : Nat) (width : Cell) (flags : Flags) : Nat :=
  if flags.ladjust then (width - BitVec.ofNat 32 length).toNat
  else (width.toInt - length).toNat

def fullText (text : List Byte) (width : Cell) (flags : Flags) : List Byte :=
  let pad := List.replicate (padding text.length width flags) (if flags.zeropad then 48 else 32)
  if flags.ladjust then text ++ pad else pad ++ text

theorem padRight_eq (pad : Byte) (maxlen : Nat) (width : Cell) :
    padRight pad maxlen width = (List.replicate width.toNat pad).take maxlen := by
  induction maxlen generalizing width with
  | zero => simp [padRight]
  | succ maxlen ih =>
      rw [padRight]
      split
      next hzero => simp [hzero]
      next hne =>
          have hpos : width.toNat ≠ 0 := fun hzero => hne (BitVec.eq_of_toNat_eq hzero)
          obtain ⟨count, hcount⟩ := Nat.exists_eq_succ_of_ne_zero hpos
          have hless : (width - 1).toNat = count := by
            rw [BitVec.toNat_sub, hcount]
            have hlt := width.isLt
            have hone : (1 : Cell).toNat = 1 := rfl
            omega
          rw [ih, hless, hcount, List.replicate_succ, List.take_succ_cons]

theorem toInt_ofNat_of_lt {n : Nat} (h : n < 2 ^ 31) : (BitVec.ofNat 32 n).toInt = n := by
  rw [BitVec.toInt_eq_toNat_of_lt, BitVec.toNat_ofNat]
  · omega
  · rw [BitVec.toNat_ofNat]
    omega

theorem toInt_pred {width : Cell} {n : Nat} (h : (n : Int) < width.toInt) :
    (width - 1).toInt = width.toInt - 1 := by
  rw [BitVec.toInt_sub]
  have hhigh := BitVec.toInt_lt (x := width)
  have hone : (1 : Cell).toInt = 1 := rfl
  rw [hone]
  simp only [Int.bmod_def]
  omega

theorem padLeft_eq (pad : Byte) {length : Nat} (hlength : length < 2 ^ 31) (maxlen : Nat)
    (width : Cell) :
    (padLeft pad (BitVec.ofNat 32 length) maxlen width).1 =
        (List.replicate (width.toInt - length).toNat pad).take maxlen ∧
      (padLeft pad (BitVec.ofNat 32 length) maxlen width).2.2 =
        maxlen - (width.toInt - length).toNat := by
  induction maxlen generalizing width with
  | zero => simp [padLeft]
  | succ maxlen ih =>
      have hdigits := toInt_ofNat_of_lt hlength
      rw [padLeft]
      split
      next hlt =>
          rw [BitVec.slt_iff_toInt_lt, hdigits] at hlt
          obtain ⟨hrest, hleft⟩ := ih (width - 1)
          rw [toInt_pred hlt] at hrest hleft
          obtain ⟨count, hcount⟩ := Nat.exists_eq_succ_of_ne_zero
            (show (width.toInt - length).toNat ≠ 0 by omega)
          have hpred : (width.toInt - 1 - length).toNat = count := by omega
          rw [hpred] at hrest hleft
          dsimp only
          rw [hrest, hleft, hcount, List.replicate_succ, List.take_succ_cons]
          exact ⟨rfl, by omega⟩
      next hge =>
          rw [BitVec.slt_iff_toInt_lt, hdigits] at hge
          have hnone : (width.toInt - length).toNat = 0 := by omega
          simp [hnone]

theorem addText_eq_take {text : List Byte} (hlength : text.length < 2 ^ 31) (width : Cell)
    (flags : Flags) (maxlen : Nat) :
    addText text width flags maxlen = (fullText text width flags).take maxlen := by
  unfold addText fullText padding
  cases hladjust : flags.ladjust with
  | false =>
      obtain ⟨hleft, hspace⟩ :=
        padLeft_eq (if flags.zeropad then 48 else 32) hlength maxlen width
      simp only [Bool.false_eq_true, if_false, List.append_nil, hleft, hspace, List.take_append,
        List.length_replicate]
  | true =>
      simp only [if_true, List.nil_append, padRight_eq, List.take_append, List.length_take]
      congr 1
      by_cases hfits : text.length ≤ maxlen
      · rw [min_eq_right hfits]
      · have hnone : maxlen - min maxlen text.length = 0 := by omega
        have hover : maxlen - text.length = 0 := by omega
        rw [hnone, hover, List.take_zero, List.take_zero]

theorem addUInt_eq_take (val width : Cell) (flags : Flags) (maxlen : Nat) :
    addUInt val width flags maxlen =
      (fullText (numeral 10 false val.toNat) width flags).take maxlen :=
  addText_eq_take ((length_numeral_le _ _ _).trans_lt (by decide)) width flags maxlen

theorem addInt_eq_take (val width : Cell) (flags : Flags) (maxlen : Nat) :
    addInt val width flags maxlen =
      (fullText (intSign val ++ intDigits val) width flags).take maxlen := by
  refine addText_eq_take ?_ width flags maxlen
  have hsign : (intSign val).length ≤ 1 := by
    unfold intSign
    split <;> simp
  have hdigits : (intDigits val).length ≤ 32 := length_numeral_le _ _ _
  rw [List.length_append]
  omega

theorem addHex_eq_take (val width : Cell) (flags : Flags) (maxlen : Nat) :
    addHex val width flags maxlen =
      (fullText (numeral 16 flags.upperdigits val.toNat) width flags).take maxlen :=
  addText_eq_take ((length_numeral_le _ _ _).trans_lt (by decide)) width flags maxlen

end

section

/-! `atcprintf`, over whatever memory its arguments and its destination lie in. -/

/-- The memory as the function sees it; characters of the format are converted to the type of
the destination when they are read.  A read or write outside the memory is not possible.
`float` is the text of `AddFloat` for a value, a width, a precision and flags, of which it
writes as much as there is space for. -/
structure Access (σ : Type) (d : Nat) where
  fmt : σ → Nat → Option (BitVec d)
  arg : σ → Cell → Nat → Option Cell
  vector : σ → Cell → Nat → Option Cell
  put : σ → Nat → BitVec d → Option σ
  float : Cell → Cell → Cell → Flags → List (BitVec d)

/-- Where the output is: `buf_p` and `llen`. -/
structure Output (σ : Type) where
  state : σ
  out : Nat
  llen : Nat
deriving DecidableEq, Repr

/-- The formatting state behind a `%`. -/
structure Directive where
  flags : Flags := {}
  width : Cell := 0
  prec : Cell := -1
deriving DecidableEq, Repr

inductive Conversion where
  | char
  | int
  | uint
  | float
  | hex (upper : Bool)
  | vector
  | string
  | terminator
  | other
deriving DecidableEq, Repr

inductive Result (σ : Type) where
  | done (state : σ) (length : Nat) (param : Int)
  | error (state : σ)
deriving DecidableEq, Repr

section Directives

variable {d : Nat}

def chr (d : Nat) (c : Byte) : BitVec d := c.setWidth d

def toDigit (ch : BitVec d) : Cell := ch.signExtend 32 - 48

def isDigit (ch : BitVec d) : Bool := (toDigit ch).toNat ≤ 9

/-- The digits of a width or a precision, of which `ch` has been read. -/
def number (read : Nat → Option (BitVec d)) :
    Nat → Cell → BitVec d → Nat → Option (Cell × BitVec d × Nat)
  | 0, _, _, _ => none
  | fuel + 1, n, ch, i =>
      if isDigit ch then do
        let next ← read i
        number read fuel (10 * n + toDigit ch) next (i + 1)
      else some (n, ch, i)

/-- From `reswitch` on: the flags, width and precision in front of a conversion. -/
def scan (read : Nat → Option (BitVec d)) :
    Nat → BitVec d → Nat → Directive → Option (BitVec d × Nat × Directive)
  | 0, _, _, _ => none
  | fuel + 1, ch, i, directive =>
      if ch = chr d 45 then do
        let next ← read i
        scan read fuel next (i + 1)
          { directive with flags := { directive.flags with ladjust := true } }
      else if ch = chr d 46 then do
        let first ← read i
        let (n, next, i) ← number read fuel 0 first (i + 1)
        scan read fuel next i { directive with prec := if n.slt 0 then -1 else n }
      else if ch = chr d 48 then do
        let next ← read i
        scan read fuel next (i + 1)
          { directive with flags := { directive.flags with zeropad := true } }
      else if isDigit ch then do
        let (n, next, i) ← number read fuel 0 ch i
        scan read fuel next i { directive with width := n }
      else some (ch, i, directive)

def conversion (ch : BitVec d) : Conversion :=
  if ch = chr d 99 then .char
  else if ch = chr d 100 ∨ ch = chr d 105 then .int
  else if ch = chr d 117 then .uint
  else if ch = chr d 102 then .float
  else if ch = chr d 88 then .hex true
  else if ch = chr d 120 then .hex false
  else if ch = chr d 97 then .vector
  else if ch = chr d 115 then .string
  else if ch = 0 then .terminator
  else .other

end Directives

/-- `while (string[size++])`. -/
def strlen (read : Nat → Option Cell) : Nat → Nat → Option Nat
  | 0, _ => none
  | fuel + 1, size => do
      let c ← read size
      if c = 0 then return size else strlen read fuel (size + 1)

def strnlen (read : Nat → Option Cell) : Nat → Nat → Option Nat
  | 0, size => some size
  | prec + 1, size => do
      let c ← read size
      if c = 0 then return size else strnlen read prec (size + 1)

def stringSize (read : Nat → Option Cell) (fuel : Nat) (prec : Cell) : Option Nat :=
  if prec.slt 0 then strlen read fuel 0 else strnlen read prec.toNat 0

namespace Access

variable {σ : Type} {d : Nat}

/-- `*buf_p++ = ch` for each of the characters. -/
def write (a : Access σ d) : Output σ → List (BitVec d) → Option (Output σ)
  | o, [] => some o
  | o, ch :: text => do
      let state ← a.put o.state o.out ch
      a.write ⟨state, o.out + 1, o.llen - 1⟩ text

/-- `while (size--)`: every cell is read after the ones before it are written. -/
def copyString (a : Access σ d) (read : σ → Nat → Option Cell) :
    Nat → Nat → Output σ → Option (Output σ)
  | 0, _, o => some o
  | size + 1, i, o => do
      let c ← read o.state i
      let o ← a.write o [c.setWidth d]
      a.copyString read size (i + 1) o

/-- `AddString`.  The comparison `size > (int)maxlen` is with a negative number from 2 ^ 31 on;
`size` is negative then, and the loop that counts it down has no end. -/
def addString (a : Access σ d) (read : σ → Nat → Option Cell) (fuel : Nat) (width prec : Cell)
    (o : Output σ) : Option (Output σ) := do
  let size ← stringSize (read o.state) fuel prec
  if 2 ^ 31 ≤ o.llen then none
  else
    let size := min size o.llen
    let o ← a.copyString read size 0 o
    a.write o (((padLeft 32 0 o.llen (width - BitVec.ofNat 32 size)).1).map (chr d))

def convert (a : Access σ d) (fuel : Nat) (directive : Directive) (address : Cell)
    (o : Output σ) : Conversion → Option (Output σ)
  | .char => do
      let value ← a.arg o.state address 0
      a.write o [value.setWidth d]
  | .int => do
      let value ← a.arg o.state address 0
      a.write o ((addInt value directive.width directive.flags o.llen).map (chr d))
  | .uint => do
      let value ← a.arg o.state address 0
      a.write o ((addUInt value directive.width directive.flags o.llen).map (chr d))
  | .float => do
      let value ← a.arg o.state address 0
      a.write o ((a.float value directive.width directive.prec directive.flags).take o.llen)
  | .hex upper => do
      let value ← a.arg o.state address 0
      a.write o ((addHex value directive.width
        { directive.flags with upperdigits := upper } o.llen).map (chr d))
  | .vector => do
      let pointer ← a.arg o.state address 0
      a.addString (fun state => a.vector state pointer) fuel directive.width directive.prec o
  | .string =>
      a.addString (fun state => a.arg state address) fuel directive.width directive.prec o
  | .terminator | .other => some o

/-- `%a` with a null pointer. -/
def refuses (a : Access σ d) (state : σ) (address : Cell) : Conversion → Option Bool
  | .vector => do
      let pointer ← a.arg state address 0
      return pointer = 0
  | _ => some false

def done (a : Access σ d) (maxlen : Nat) (arg : Int) (o : Output σ) : Option (Result σ) := do
  let state ← a.put o.state o.out 0
  return .done state (maxlen - o.llen) arg

/-- The loop; `args` is the number of parameters and `arg` the next of them. -/
def loop (a : Access σ d) (args : Int) (params : Int → Cell) (maxlen : Nat) :
    Nat → Nat → Int → Output σ → Option (Result σ)
  | 0, _, _, _ => none
  | fuel + 1, i, arg, o => do
      let ch ← a.fmt o.state i
      if o.llen = 0 ∨ ch = 0 then a.done maxlen arg o
      else if ch ≠ chr d 37 then do
        let o ← a.write o [ch]
        a.loop args params maxlen fuel (i + 1) arg o
      else do
        let first ← a.fmt o.state (i + 1)
        let (ch, i, directive) ← scan (a.fmt o.state) fuel first (i + 2) {}
        match conversion ch with
        | .terminator => do
            let o ← a.write o [chr d 37]
            a.done maxlen arg o
        | .other => do
            let o ← a.write o [ch]
            a.loop args params maxlen fuel i arg o
        | kind =>
            if args < arg then some (.error o.state)
            else do
              let refused ← a.refuses o.state (params arg) kind
              if refused then some (.error o.state)
              else do
                let o ← a.convert fuel directive (params arg) o kind
                a.loop args params maxlen fuel i (arg + 1) o

def atcprintf (a : Access σ d) (fuel maxlen : Nat) (args : Int) (params : Int → Cell)
    (param : Int) (buffer : σ) : Option (Result σ) :=
  a.loop args params maxlen fuel 0 param ⟨buffer, 0, maxlen⟩

end Access

end

end AmxModC.Format
