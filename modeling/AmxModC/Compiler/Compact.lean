import AmxModC.Foundation.Block
import AmxModC.Foundation.Codec
import AmxModC.Foundation.RingQueue
import AmxModC.Machine
import Mathlib.Data.List.GetD

namespace AmxModC.Compiler.Compact

open Foundation

/-! Compact code: the assembler writes each cell in one to five bytes, and `expand` turns them back
into cells, in the same buffer. -/

/-- `AMX_COMPACTMARGIN` -/
abbrev compactMargin : Nat := 64

/-! `write_encoded` -/

/-- `t[index]`, seven bits of the cell -/
def digit (p : Cell) (index : Nat) : Byte := ((p >>> (7 * index)) &&& 0x7f#32).setWidth 8

/-- `while (index>1 && ...) index--`, with the condition on `t[index-1]` and `t[index-2]` -/
def skip (redundant : Byte → Byte → Bool) (t : Nat → Byte) : Nat → Nat
  | index + 2 => if redundant (t (index + 1)) (t index) then skip redundant t (index + 1)
      else index + 2
  | index => index

def skipZeros : (Nat → Byte) → Nat → Nat :=
  skip fun top next => top = 0 && next &&& 0x40#8 = 0

def skipOnes : (Nat → Byte) → Nat → Nat :=
  skip fun top next => top = 0x7f && next &&& 0x40#8 ≠ 0

/-- `index` after the loops, from `ENC_MAX` -/
def encodedSize (p : Cell) : Nat :=
  let t := digit p
  let index := skipZeros t 5
  let index := if index = 5 ∧ t 4 = 0x0f ∧ t 3 &&& 0x40#8 ≠ 0 then 4 else index
  skipOnes t index

def writeBytes (t : Nat → Byte) : Nat → List Byte
  | 0 => []
  | index + 1 => (if index = 0 then t index else t index ||| 0x80#8) :: writeBytes t index

def encode (p : Cell) : List Byte := writeBytes (digit p) (encodedSize p)

/-- The file, with `bytes_in` and `bytes_out`. -/
structure Output where
  fbin : List Byte
  bytesIn : Int
  bytesOut : Int

/-- `write_encoded` for one cell; `none` is the jump to `compact_err`. -/
def writeEncoded (out : Output) (p : Cell) : Option Output :=
  let out :=
    { fbin := out.fbin ++ encode p
      bytesIn := out.bytesIn + 4
      bytesOut := out.bytesOut + (encode p).length }
  if (compactMargin : Int) - 2 ≤ out.bytesOut - out.bytesIn then none else some out

/-- The cells that `assemble` writes, one after another, and error 106 at its end. -/
def compress (cells : List Cell) : Option (List Byte) := do
  let out ← cells.foldlM writeEncoded { fbin := [], bytesIn := 0, bytesOut := 0 }
  if 0 < out.bytesOut - out.bytesIn then none else some out.fbin

/-! `expand`.  An assertion that fails and an access outside the buffer are `none`. -/

/-- What an entry of `spare` holds. -/
structure Spare where
  memloc : Nat
  c : Cell

/-- The buffer and the variables of `expand`; the ring is `spare` with `sh`, `st` and `sc`.
`stores` records where a cell was stored, and how many bytes were still to be decoded then. -/
structure Expansion where
  code : List Byte
  codesize : Nat
  memsize : Nat
  spare : RingQueue Spare
  stores : List (Nat × Nat)

/-- `code[codesize-1] & 0x80`, where there is such a byte -/
def continued (code : List Byte) (codesize : Nat) : Bool :=
  0 < codesize && ((code[codesize - 1]?).any fun byte => byte &&& 0x80#8 ≠ 0)

/-- The `do` loop: it reads one sequence backwards. -/
def gather (code : List Byte) : Nat → Nat → Cell → Option (Nat × Nat × Cell)
  | 0, _, _ => none
  | codesize + 1, shift, c => do
      let byte ← code[codesize]?
      if shift < 32 ∧ (0 < shift ∨ byte &&& 0x80#8 = 0) then
        let c := c ||| ((byte &&& 0x7f#8).setWidth 32 <<< shift)
        if continued code codesize then gather code codesize (shift + 7) c
        else some (codesize, shift + 7, c)
      else none

def signExpand (shift : Nat) (c : Cell) : Cell :=
  if shift < 32 then signExpand (shift + 8) (c ||| (0xff#32 <<< shift)) else c
termination_by 32 - shift

namespace Expansion

/-- `*(ucell *)(code+memloc)=c` -/
def store (σ : Expansion) (memloc : Nat) (c : Cell) : Option Expansion := do
  let code ← Block.write σ.code memloc (littleEndian 4 c.toNat)
  some { σ with code, stores := (memloc, σ.codesize) :: σ.stores }

/-- `while (sc && (spare[sh].memloc>codesize))`; the number is `sc`. -/
def flush : Nat → Expansion → Option Expansion
  | 0, σ => some σ
  | sc + 1, σ => do
      let entry ← σ.spare.front
      if σ.codesize < entry.memloc then
        let σ ← σ.store entry.memloc entry.c
        flush sc { σ with spare := σ.spare.pop }
      else some σ

def put (σ : Expansion) (c : Cell) : Option Expansion :=
  if 4 ≤ σ.memsize then
    let σ := { σ with memsize := σ.memsize - 4 }
    if σ.codesize < σ.memsize ∨ σ.memsize = σ.codesize ∧ σ.memsize = 0 then σ.store σ.memsize c
    else do
      let spare ← σ.spare.push { memloc := σ.memsize, c }
      some { σ with spare }
  else none

/-- `while (codesize>0)`, its body -/
def turn (σ : Expansion) : Option Expansion := do
  let (codesize, shift, c) ← gather σ.code σ.codesize 0 0
  let top ← σ.code[codesize]?
  let c := if top &&& 0x40#8 ≠ 0 then signExpand shift c else c
  let σ ← flush σ.spare.count { σ with codesize }
  σ.put c

def turns : Nat → Expansion → Option Expansion
  | 0, σ => some σ
  | count + 1, σ => if σ.codesize = 0 then some σ else σ.turn.bind (turns count)

def start (code : List Byte) (codesize memsize : Nat) : Expansion where
  code := code
  codesize := codesize
  memsize := memsize
  spare := .empty compactMargin
  stores := []

end Expansion

def expand (code : List Byte) (codesize memsize : Nat) : Option (List Byte) := do
  let σ ← (Expansion.start code codesize memsize).turns codesize
  if memsize % 4 = 0 ∧ σ.codesize = 0 ∧ σ.memsize = 0 then some σ.code else none

/-! The bits of a sequence. -/

section

variable {p : Cell} {k b i : Nat} {value : Bool}

theorem and_twoPow_eq_zero {w : Nat} (x : BitVec w) (hi : i < w) :
    x &&& BitVec.twoPow w i = 0 ↔ x.getLsbD i = false := by
  rw [BitVec.and_twoPow]
  split
  next hbit =>
    rw [hbit]
    refine iff_of_false (fun hzero => ?_) (by decide)
    have hself : (BitVec.twoPow w i).getLsbD i = true := by simp [hi]
    rw [hzero] at hself
    simp at hself
  next hbit => simpa using hbit

theorem getLsbD_ones {w n : Nat} {x : BitVec w} (hx : x = (BitVec.allOnes n).setWidth w)
    (hb : b < w) : x.getLsbD b = decide (b < n) := by
  rw [hx, BitVec.getLsbD_setWidth, BitVec.getLsbD_allOnes, decide_eq_true hb, Bool.true_and]

theorem getLsbD_digit : (digit p k).getLsbD b = (decide (b < 7) && p.getLsbD (7 * k + b)) := by
  rw [digit, BitVec.getLsbD_setWidth, BitVec.getLsbD_and, BitVec.getLsbD_ushiftRight]
  rcases Nat.lt_or_ge b 32 with hlt | hge
  · rw [getLsbD_ones (n := 7) (x := 0x7f#32) rfl hlt]
    by_cases hb : b < 7
    · simp [hb, show b < 8 by omega]
    · simp [hb]
  · simp [show ¬ b < 8 by omega, show ¬ b < 7 by omega]

theorem digit_sign : digit p k &&& 0x40#8 = 0 ↔ p.getLsbD (7 * k + 6) = false := by
  rw [show (0x40#8) = BitVec.twoPow 8 6 from rfl, and_twoPow_eq_zero _ (by decide), getLsbD_digit]
  simp

/-- From the last bit of digit `k - 1` on all bits of the cell are equal. -/
def Settled (p : Cell) (k : Nat) : Prop :=
  ∀ i < 32, 7 * k ≤ i + 1 → p.getLsbD i = p.getLsbD (7 * k - 1)

theorem settled_five : Settled p 5 := fun i hi hle => by omega

theorem Settled.pred (h : Settled p (k + 2))
    (hdigit : ∀ b < 7, 7 * (k + 1) + b < 32 → p.getLsbD (7 * (k + 1) + b) = value)
    (hsign : p.getLsbD (7 * k + 6) = value) : Settled p (k + 1) := by
  intro i hi hle
  have hlast : p.getLsbD (7 * (k + 1) - 1) = value := hsign
  rw [hlast]
  rcases Nat.lt_or_ge i (7 * (k + 2)) with hlt | hge
  · rcases Nat.eq_or_lt_of_le hle with heq | hlt'
    · rw [show i = 7 * k + 6 by omega, hsign]
    · obtain ⟨b, rfl⟩ : ∃ b, i = 7 * (k + 1) + b := ⟨i - 7 * (k + 1), by omega⟩
      exact hdigit b (by omega) hi
  · rw [h i hi (by omega)]
    exact hdigit 6 (by decide) (by omega)

theorem skip_induction {redundant : Byte → Byte → Bool} {t : Nat → Byte} {P : Nat → Prop}
    (hstep : ∀ index, redundant (t (index + 1)) (t index) = true → P (index + 2) →
      P (index + 1))
    {index : Nat} (h : P index) : P (skip redundant t index) := by
  fun_induction skip with
  | case1 index hredundant ih => exact ih (hstep index hredundant h)
  | case2 => exact h
  | case3 => exact h

/-- What the loops of `write_encoded` keep. -/
structure Enough (p : Cell) (index : Nat) : Prop where
  pos : 0 < index
  le : index ≤ 5
  settled : Settled p index

theorem Enough.skipZeros (h : Enough p i) : Enough p (skipZeros (digit p) i) := by
  refine skip_induction (fun index hredundant h => ?_) h
  simp only [Bool.and_eq_true, decide_eq_true_eq, digit_sign] at hredundant
  refine ⟨Nat.succ_pos _, by have := h.le; omega, h.settled.pred (fun b hb _ => ?_) hredundant.2⟩
  have hbit := getLsbD_digit (p := p) (k := index + 1) (b := b)
  rw [hredundant.1] at hbit
  simpa [hb] using hbit.symm

theorem Enough.skipOnes (h : Enough p i) : Enough p (skipOnes (digit p) i) := by
  refine skip_induction (fun index hredundant h => ?_) h
  simp only [Bool.and_eq_true, decide_eq_true_eq, ne_eq, digit_sign,
    Bool.not_eq_false] at hredundant
  refine ⟨Nat.succ_pos _, by have := h.le; omega, h.settled.pred (fun b hb _ => ?_) hredundant.2⟩
  have hbit := getLsbD_digit (p := p) (k := index + 1) (b := b)
  rw [hredundant.1, getLsbD_ones (n := 7) (x := 0x7f) rfl (by omega)] at hbit
  simpa [hb] using hbit.symm

theorem Enough.mask (htop : digit p 4 = 0x0f) (hsign : digit p 3 &&& 0x40#8 ≠ 0) :
    Enough p 4 := by
  rw [ne_eq, digit_sign, Bool.not_eq_false] at hsign
  refine ⟨by decide, by decide, settled_five.pred (fun b hb hlt => ?_) hsign⟩
  have hbit := getLsbD_digit (p := p) (k := 4) (b := b)
  rw [htop, getLsbD_ones (n := 4) (x := 0x0f) rfl (by omega)] at hbit
  simpa [hb, show b < 4 by omega] using hbit.symm

theorem enough_encodedSize (p : Cell) : Enough p (encodedSize p) := by
  have hzeros : Enough p (skipZeros (digit p) 5) :=
    Enough.skipZeros ⟨by decide, le_rfl, settled_five⟩
  refine Enough.skipOnes ?_
  split
  next hmask => exact .mask hmask.2.1 hmask.2.2
  next => exact hzeros

theorem getLsbD_signExpand (shift : Nat) (c : Cell) (hi : i < 32) :
    (signExpand shift c).getLsbD i = (c.getLsbD i || decide (shift ≤ i)) := by
  fun_induction signExpand with
  | case1 shift c hshift ih =>
      have hones : (0xff#32).getLsbD (i - shift) = decide (i - shift < 8) :=
        getLsbD_ones rfl (by omega)
      rw [ih, BitVec.getLsbD_or, BitVec.getLsbD_shiftLeft, hones, Bool.or_assoc]
      congr 1
      rcases Nat.lt_or_ge i shift with hlt | hge
      · simp [hlt, show ¬ shift ≤ i by omega, show ¬ shift + 8 ≤ i by omega]
      · simp only [hi, hge, decide_true, Bool.true_and, Nat.not_lt.mpr hge, decide_false,
          Bool.not_false, ← Bool.decide_or]
        exact decide_eq_true (by omega)
  | case2 shift c hshift => simp [show ¬ shift ≤ i by omega]

/-- The lowest `k` digits. -/
def low (p : Cell) (k : Nat) : Cell := (p.setWidth (7 * k)).setWidth 32

theorem getLsbD_low (hi : i < 32) : (low p k).getLsbD i = (decide (i < 7 * k) && p.getLsbD i) := by
  rw [low, BitVec.getLsbD_setWidth, BitVec.getLsbD_setWidth, decide_eq_true hi, Bool.true_and]

theorem low_succ (hk : 7 * k < 32) :
    low p k ||| ((digit p k).setWidth 32 <<< (7 * k)) = low p (k + 1) := by
  apply BitVec.eq_of_getLsbD_eq
  intro i hi
  rw [BitVec.getLsbD_or, getLsbD_low hi, getLsbD_low hi, BitVec.getLsbD_shiftLeft,
    BitVec.getLsbD_setWidth, getLsbD_digit]
  rcases Nat.lt_or_ge i (7 * k) with hlt | hge
  · simp [hlt, show i < 7 * (k + 1) by omega]
  · rw [Nat.add_sub_cancel' hge]
    have hiff : i - 7 * k < 7 ↔ i < 7 * (k + 1) := by omega
    simp [hi, Nat.not_lt.mpr hge, hiff, show i - 7 * k < 32 by omega]

theorem signExpand_low (h : Enough p k) :
    (if digit p (k - 1) &&& 0x40#8 ≠ 0 then signExpand (7 * k) (low p k) else low p k) = p := by
  obtain ⟨k, rfl⟩ : ∃ k', k = k' + 1 := ⟨k - 1, by have := h.pos; omega⟩
  rw [Nat.add_sub_cancel]
  apply BitVec.eq_of_getLsbD_eq
  intro i hi
  have hsettled : 7 * (k + 1) ≤ i → p.getLsbD i = p.getLsbD (7 * k + 6) :=
    fun hle => h.settled i hi (by omega)
  split
  next hsign =>
    rw [ne_eq, digit_sign, Bool.not_eq_false] at hsign
    rw [getLsbD_signExpand _ _ hi, getLsbD_low hi]
    rcases Nat.lt_or_ge i (7 * (k + 1)) with hlt | hge
    · simp [hlt, Nat.not_le.mpr hlt]
    · simp [hge, hsettled hge, hsign]
  next hsign =>
    rw [ne_eq, not_not, digit_sign] at hsign
    rw [getLsbD_low hi]
    rcases Nat.lt_or_ge i (7 * (k + 1)) with hlt | hge
    · simp [hlt]
    · simp [hsettled hge, hsign]

end

/-! Reading one sequence. -/

section

variable {p : Cell} {code : List Byte} {size k : Nat}

def mark (t : Nat → Byte) (index : Nat) : Byte :=
  if index = 0 then t index else t index ||| 0x80#8

@[simp] theorem length_writeBytes (t : Nat → Byte) (index : Nat) :
    (writeBytes t index).length = index := by
  induction index with
  | zero => rfl
  | succ index ih => rw [writeBytes, List.length_cons, ih]

theorem getElem?_writeBytes (t : Nat → Byte) {index i : Nat} (hi : i < index) :
    (writeBytes t index)[index - 1 - i]? = some (mark t i) := by
  induction index with
  | zero => exact absurd hi (Nat.not_lt_zero _)
  | succ index ih =>
      rw [Nat.add_sub_cancel, writeBytes]
      rcases Nat.lt_succ_iff_lt_or_eq.mp hi with hlt | rfl
      · rw [show index - i = index - 1 - i + 1 by omega, List.getElem?_cons_succ]
        exact ih hlt
      · rw [Nat.sub_self]
        rfl

theorem mark_and_digits : mark (digit p) k &&& 0x7f#8 = digit p k := by
  apply BitVec.eq_of_getLsbD_eq
  intro b hb
  rw [BitVec.getLsbD_and, getLsbD_ones (n := 7) (x := 0x7f#8) rfl hb, mark]
  rcases Nat.lt_or_ge b 7 with hlt | hge
  · have hflag : (0x80#8).getLsbD b = false := by
      rw [show (0x80#8) = BitVec.twoPow 8 7 from rfl, BitVec.getLsbD_twoPow]
      simp [show 7 ≠ b by omega]
    split
    · simp [hlt]
    · rw [BitVec.getLsbD_or, hflag]
      simp [hlt]
  · rw [getLsbD_digit]
    simp [Nat.not_lt.mpr hge]

theorem mark_and_flag : mark (digit p) k &&& 0x80#8 = 0 ↔ k = 0 := by
  rw [show (0x80#8) = BitVec.twoPow 8 7 from rfl, and_twoPow_eq_zero _ (by decide), mark]
  split
  next hzero => exact iff_of_true (by rw [getLsbD_digit]; rfl) hzero
  next hpos =>
    rw [show (0x80#8) = BitVec.twoPow 8 7 from rfl]
    simp [hpos]

theorem mark_and_sign : mark (digit p) k &&& 0x40#8 = 0 ↔ digit p k &&& 0x40#8 = 0 := by
  rw [show (0x40#8) = BitVec.twoPow 8 6 from rfl, and_twoPow_eq_zero _ (by decide),
    and_twoPow_eq_zero _ (by decide), mark, show (0x80#8) = BitVec.twoPow 8 7 from rfl]
  split <;> simp

theorem continued_of_mark {codesize : Nat} (h : code[codesize]? = some (mark (digit p) k)) :
    continued code (codesize + 1) = decide (k ≠ 0) := by
  have hflag := mark_and_flag (p := p) (k := k)
  rw [continued, Nat.add_sub_cancel, h, Option.any_some, decide_eq_true (Nat.succ_pos _),
    Bool.true_and]
  simp only [ne_eq, hflag]

theorem gather_digits {start left : Nat} (hsize : size ≤ 5)
    (hbytes : ∀ i < size, code[start + (size - 1 - i)]? = some (mark (digit p) i))
    (hend : continued code start = false) (hk : k + (left + 1) = size) :
    gather code (start + (left + 1)) (7 * k) (low p k) = some (start, 7 * size, low p size) := by
  induction left generalizing k with
  | zero =>
      subst hk
      have hbyte := hbytes k (by omega)
      rw [show k + (0 + 1) - 1 - k = 0 by omega, Nat.add_zero] at hbyte
      have hguard : 7 * k < 32 ∧ (0 < 7 * k ∨ mark (digit p) k &&& 0x80#8 = 0) := by
        rw [mark_and_flag]
        omega
      simp only [Nat.zero_add, gather, hbyte, Option.bind_eq_bind, Option.bind_some, hguard,
        mark_and_digits, hend, low_succ hguard.1]
      rfl
  | succ left ih =>
      have hbyte := hbytes k (by omega)
      rw [show size - 1 - k = left + 1 by omega] at hbyte
      have hnext := hbytes (k + 1) (by omega)
      rw [show size - 1 - (k + 1) = left by omega] at hnext
      have hguard : 7 * k < 32 ∧ (0 < 7 * k ∨ mark (digit p) k &&& 0x80#8 = 0) := by
        rw [mark_and_flag]
        omega
      have hmore : continued code (start + (left + 1)) = true := continued_of_mark hnext
      rw [← Nat.add_assoc, gather, hbyte]
      simp only [Option.bind_eq_bind, Option.bind_some, hguard, mark_and_digits, hmore,
        low_succ hguard.1]
      exact ih (k := k + 1) (by omega)

end

/-! What is written, and what is in the buffer. -/

/-- The bytes of the first `count` cells. -/
def written (cells : List Cell) (count : Nat) : List Byte := (cells.take count).flatMap encode

section

variable {cells : List Cell} {code : List Byte} {i j m : Nat}

theorem written_zero : written cells 0 = [] := rfl

theorem written_length : written cells cells.length = cells.flatMap encode := by
  rw [written, List.take_length]

theorem written_succ (hj : j < cells.length) :
    written cells (j + 1) = written cells j ++ encode cells[j] := by
  rw [written, List.take_succ_eq_append_getElem hj, List.flatMap_append, List.flatMap_singleton]
  rfl

theorem length_encode (p : Cell) : (encode p).length = encodedSize p := length_writeBytes _ _

theorem length_written_succ (hj : j < cells.length) :
    (written cells (j + 1)).length = (written cells j).length + encodedSize cells[j] := by
  rw [written_succ hj, List.length_append, length_encode]

theorem le_length_written (hj : j ≤ cells.length) : j ≤ (written cells j).length := by
  induction j with
  | zero => exact Nat.zero_le _
  | succ j ih =>
      rw [length_written_succ hj]
      have := ih (Nat.le_of_succ_le hj)
      have := (enough_encodedSize cells[j]).pos
      omega

theorem written_isPrefix (cells : List Cell) (hle : i ≤ j) :
    written cells i <+: written cells j := by
  obtain ⟨rest, hrest⟩ := List.take_prefix_take_left (l := cells) hle
  rw [written, written, ← hrest, List.flatMap_append]
  exact List.prefix_append _ _

theorem getElem?_of_written (hcode : written cells (j + 1) <+: code) (hj : j < cells.length)
    (hi : i < encodedSize cells[j]) :
    code[(written cells j).length + (encodedSize cells[j] - 1 - i)]? =
      some (mark (digit cells[j]) i) := by
  have hbyte := getElem?_writeBytes (digit cells[j]) hi
  have hlt : encodedSize cells[j] - 1 - i < (encode cells[j]).length := by
    rw [length_encode]
    omega
  rw [written_succ hj] at hcode
  obtain ⟨rest, rfl⟩ := hcode
  rw [List.append_assoc, List.getElem?_append_right (Nat.le_add_right _ _),
    Nat.add_sub_cancel_left, List.getElem?_append_left hlt]
  exact hbyte

theorem continued_written (hcode : written cells j <+: code) (hj : j ≤ cells.length) :
    continued code (written cells j).length = false := by
  cases j with
  | zero => rfl
  | succ j =>
      have hpos := (enough_encodedSize cells[j]).pos
      have hbyte := getElem?_of_written hcode hj hpos
      have hcontinued := continued_of_mark hbyte
      rw [length_written_succ hj]
      rw [Nat.add_assoc, show encodedSize cells[j] - 1 - 0 + 1 = encodedSize cells[j] by omega]
        at hcontinued
      exact hcontinued

theorem gather_written (hcode : written cells (j + 1) <+: code) (hj : j < cells.length) :
    gather code (written cells (j + 1)).length 0 0 =
      some ((written cells j).length, 7 * encodedSize cells[j],
        low cells[j] (encodedSize cells[j])) := by
  have henough := enough_encodedSize cells[j]
  obtain ⟨left, hleft⟩ : ∃ left, encodedSize cells[j] = left + 1 :=
    ⟨encodedSize cells[j] - 1, by have := henough.pos; omega⟩
  have hbefore := (written_isPrefix cells (Nat.le_succ j)).trans hcode
  have hsize : 0 + (left + 1) = encodedSize cells[j] := by rw [hleft, Nat.zero_add]
  have hgather := gather_digits henough.le (fun i hi => getElem?_of_written hcode hj hi)
    (continued_written hbefore hj.le) hsize
  have hlow : low cells[j] 0 = 0 := by
    apply BitVec.eq_of_getLsbD_eq
    intro i hi
    rw [getLsbD_low hi]
    simp
  rw [hlow, ← hleft] at hgather
  rw [length_written_succ hj]
  exact hgather

theorem top_written (hcode : written cells (j + 1) <+: code) (hj : j < cells.length) :
    code[(written cells j).length]? = some (mark (digit cells[j]) (encodedSize cells[j] - 1)) := by
  have hpos := (enough_encodedSize cells[j]).pos
  have hbyte := getElem?_of_written hcode hj (Nat.sub_lt hpos Nat.one_pos)
  rw [Nat.sub_self] at hbyte
  exact hbyte

/-- The bytes of the first `limit` cells are still there, and the cells from `m` on are stored. -/
structure Memory (cells : List Cell) (limit m : Nat) (code : List Byte) : Prop where
  length : code.length = cells.length * 4
  intact : written cells limit <+: code
  placed : ∀ i (hi : i < cells.length), m ≤ i →
    Block.record 4 code i = littleEndian 4 cells[i].toNat

theorem Memory.store {limit : Nat} (h : Memory cells limit (m + 1) code) (hm : m < cells.length)
    (hsize : (written cells limit).length ≤ m * 4) :
    ∃ code', Block.write code (m * 4) (littleEndian 4 cells[m].toNat) = some code' ∧
      Memory cells limit m code' := by
  have hwidth : (littleEndian 4 cells[m].toNat).length = 4 := length_littleEndian _ _
  have hsome : (Block.write code (m * 4) (littleEndian 4 cells[m].toNat)).isSome := by
    rw [Block.write_isSome, hwidth, h.length]
    exact Block.record_end_le 4 hm
  obtain ⟨code', hwrite⟩ := Option.isSome_iff_exists.mp hsome
  refine ⟨code', hwrite, (Block.length_of_write hwrite).trans h.length,
    Block.isPrefix_of_write hwrite h.intact hsize, fun i hi hle => ?_⟩
  rw [Block.record_of_write hwidth hwrite]
  split
  next heq =>
    subst heq
    rfl
  next hne => exact h.placed i hi (by omega)

theorem Memory.eq (h : Memory cells 0 0 code) :
    code = cells.flatMap fun c => littleEndian 4 c.toNat :=
  Block.eq_flatMap_of_record h.length fun i hi => h.placed i hi (Nat.zero_le i)

end

/-! The loop. -/

/-- The postponed cells from `j` on, the last one first. -/
def pending (cells : List Cell) (j : Nat) : Nat → List Spare
  | 0 => []
  | count + 1 => { memloc := (j + count) * 4, c := cells.getD (j + count) 0 } ::
      pending cells j count

namespace Expansion

variable {cells : List Cell} {σ : Expansion} {limit j count : Nat}

theorem length_pending (cells : List Cell) (j count : Nat) :
    (pending cells j count).length = count := by
  induction count with
  | zero => rfl
  | succ count ih => rw [pending, List.length_cons, ih]

theorem pending_snoc (cells : List Cell) (j count : Nat) :
    pending cells (j + 1) count ++ [{ memloc := j * 4, c := cells.getD j 0 }] =
      pending cells j (count + 1) := by
  induction count with
  | zero => rfl
  | succ count ih =>
      rw [pending, List.cons_append, ih]
      conv_rhs => rw [pending]
      rw [show j + 1 + count = j + (count + 1) by omega]

/-- The first `limit` cells are still to be decoded, `count` cells from `j` on wait in the ring,
and those behind them are stored. -/
structure Inv (cells : List Cell) (limit j count : Nat) (σ : Expansion) : Prop where
  memory : Memory cells limit (j + count) σ.code
  codesize : σ.codesize = (written cells limit).length
  memsize : σ.memsize = j * 4
  le : j + count ≤ cells.length
  places : σ.spare.places.length = compactMargin
  holds : σ.spare.Holds (pending cells j count)
  stores : ∀ entry ∈ σ.stores, entry.2 ≤ entry.1

theorem exists_store {m : Nat} (hmemory : Memory cells limit (m + 1) σ.code)
    (hcodesize : σ.codesize = (written cells limit).length) (hm : m < cells.length)
    (hsize : σ.codesize ≤ m * 4) :
    ∃ code', σ.store (m * 4) cells[m] =
        some { σ with code := code', stores := (m * 4, σ.codesize) :: σ.stores } ∧
      Memory cells limit m code' := by
  obtain ⟨code', hwrite, hmemory'⟩ := hmemory.store hm (hcodesize ▸ hsize)
  refine ⟨code', ?_, hmemory'⟩
  rw [store, hwrite]
  rfl

theorem Inv.flush (h : Inv cells limit j count σ) :
    ∃ σ' count', Expansion.flush count σ = some σ' ∧ Inv cells limit j count' σ' ∧
      ∀ i < count', (j + i) * 4 ≤ σ'.codesize := by
  induction count generalizing σ with
  | zero => exact ⟨σ, 0, rfl, h, fun _ hi => absurd hi (Nat.not_lt_zero _)⟩
  | succ count ih =>
      have hm : j + count < cells.length := h.le
      have hfront : σ.spare.front = some { memloc := (j + count) * 4, c := cells[j + count] } := by
        rw [h.holds.front, List.getD_eq_getElem cells 0 hm]
      by_cases hbehind : σ.codesize < (j + count) * 4
      · obtain ⟨code', hstore, hmemory⟩ :=
          exists_store (m := j + count) h.memory h.codesize hm hbehind.le
        have hnext := ih
          (σ :=
            { σ with
              code := code'
              spare := σ.spare.pop
              stores := ((j + count) * 4, σ.codesize) :: σ.stores })
          { memory := hmemory
            codesize := h.codesize
            memsize := h.memsize
            le := Nat.le_of_succ_le h.le
            places := h.places
            holds := h.holds.pop
            stores := List.forall_mem_cons.mpr ⟨hbehind.le, h.stores⟩ }
        obtain ⟨σ', count', hflush, hinv, hwait⟩ := hnext
        refine ⟨σ', count', ?_, hinv, hwait⟩
        simp only [Expansion.flush, hfront, Option.bind_eq_bind, Option.bind_some, if_pos hbehind]
        rw [hstore]
        exact hflush
      · refine ⟨σ, count + 1, ?_, h, fun i hi => ?_⟩
        · simp only [Expansion.flush, hfront, Option.bind_eq_bind, Option.bind_some,
            if_neg hbehind]
        · have hle : (j + i) * 4 ≤ (j + count) * 4 := Nat.mul_le_mul_right 4 (by omega)
          exact hle.trans (Nat.not_lt.mp hbehind)

/-- Between two turns `j` cells are left. -/
def Left (cells : List Cell) (j : Nat) (σ : Expansion) : Prop :=
  ∃ count, Inv cells j j count σ ∧ (j = 0 → count = 0)

theorem Inv.put (h : Inv cells j (j + 1) count σ)
    (hwait : ∀ i < count, (j + 1 + i) * 4 ≤ σ.codesize)
    (hmargin : (written cells j).length < j * 4 + (compactMargin - 2)) (hj : j < cells.length) :
    ∃ σ', σ.put cells[j] = some σ' ∧ Left cells j σ' := by
  have hroom : 4 ≤ σ.memsize := by
    rw [h.memsize]
    omega
  have hmemsize : σ.memsize - 4 = j * 4 := by
    rw [h.memsize]
    omega
  have hcodesize := h.codesize
  simp only [Expansion.put, if_pos hroom, hmemsize]
  by_cases hdirect : σ.codesize < j * 4 ∨ j * 4 = σ.codesize ∧ j * 4 = 0
  · -- nothing waits behind a cell that is stored at once
    have hnone : count = 0 := by
      by_contra hpos
      have := hwait 0 (Nat.pos_of_ne_zero hpos)
      omega
    subst hnone
    have hle : σ.codesize ≤ j * 4 := by omega
    obtain ⟨code', hstore, hmemory⟩ :=
      exists_store (σ := { σ with memsize := j * 4 }) h.memory h.codesize hj hle
    rw [if_pos hdirect, hstore]
    exact ⟨_, rfl, 0,
      { memory := hmemory
        codesize := h.codesize
        memsize := rfl
        le := hj.le
        places := h.places
        holds := h.holds
        stores := List.forall_mem_cons.mpr ⟨hle, h.stores⟩ }, fun _ => rfl⟩
  · have hpos : j ≠ 0 := by
      rintro rfl
      have hzero : σ.codesize = 0 := h.codesize
      omega
    have hfew : count < compactMargin := by
      by_contra hmany
      have := hwait (compactMargin - 1) (by omega)
      omega
    have hring : (pending cells (j + 1) count).length < σ.spare.places.length := by
      rw [length_pending, h.places]
      exact hfew
    obtain ⟨spare, hpush, hplaces, hholds⟩ :=
      h.holds.push (a := { memloc := j * 4, c := cells[j] }) hring
    rw [if_neg hdirect, hpush]
    have hqueue := pending_snoc cells j count
    rw [List.getD_eq_getElem cells 0 hj] at hqueue
    have hnext : j + 1 + count = j + (count + 1) := by omega
    exact ⟨_, rfl, count + 1,
      { memory := hnext ▸ h.memory
        codesize := h.codesize
        memsize := rfl
        le := hnext ▸ h.le
        places := hplaces.trans h.places
        holds := hqueue ▸ hholds
        stores := h.stores }, fun hzero => absurd hzero hpos⟩

theorem Left.turn (h : Left cells (j + 1) σ)
    (hmargin : (written cells j).length < j * 4 + (compactMargin - 2)) :
    ∃ σ', σ.turn = some σ' ∧ Left cells j σ' := by
  obtain ⟨count, hinv, -⟩ := h
  have hj : j < cells.length := by
    have := hinv.le
    omega
  have hgather := gather_written hinv.memory.intact hj
  have htop := top_written hinv.memory.intact hj
  rw [← hinv.codesize] at hgather
  have hcell := signExpand_low (enough_encodedSize cells[j])
  have hread : Inv cells j (j + 1) count
      { σ with codesize := (written cells j).length } :=
    { memory :=
        { hinv.memory with
          intact := (written_isPrefix cells (Nat.le_succ j)).trans hinv.memory.intact }
      codesize := rfl
      memsize := hinv.memsize
      le := hinv.le
      places := hinv.places
      holds := hinv.holds
      stores := hinv.stores }
  obtain ⟨σ', count', hflush, hinv', hwait⟩ := hread.flush
  have hcount : σ.spare.count = count := by rw [hinv.holds.count, length_pending]
  obtain ⟨final, hput, hleft⟩ := hinv'.put hwait hmargin hj
  refine ⟨final, ?_, hleft⟩
  rw [Expansion.turn, hgather]
  simp only [Option.bind_eq_bind, Option.bind_some, htop, ne_eq, mark_and_sign]
  rw [hcount, hflush, hcell]
  exact hput

end Expansion

/-! Whole runs. -/

namespace Expansion

variable {cells : List Cell} {encoded rest : List Byte} {out out' : Output} {σ : Expansion}
  {j : Nat}

theorem Left.turns (h : Left cells j σ)
    (hmargin : ∀ i < j, (written cells i).length < i * 4 + (compactMargin - 2)) (count : Nat) :
    ∃ σ', σ.turns count = some σ' ∧ Left cells (j - count) σ' := by
  induction count generalizing j σ with
  | zero => exact ⟨σ, rfl, h⟩
  | succ count ih =>
      obtain ⟨waiting, hinv, -⟩ := id h
      have hcodesize := hinv.codesize
      cases j with
      | zero =>
          refine ⟨σ, if_pos hcodesize, ?_⟩
          rw [Nat.zero_sub]
          exact h
      | succ j =>
          have hle := le_length_written ((Nat.le_add_right (j + 1) waiting).trans hinv.le)
          obtain ⟨next, hturn, hnext⟩ := h.turn (hmargin j (Nat.lt_succ_self j))
          obtain ⟨σ', hturns, hleft⟩ := ih hnext fun i hi => hmargin i (Nat.lt_succ_of_lt hi)
          refine ⟨σ', ?_, ?_⟩
          · rw [Expansion.turns, if_neg (by omega), hturn]
            exact hturns
          · rw [Nat.succ_sub_succ]
            exact hleft

theorem written_cons (c : Cell) (cells : List Cell) (j : Nat) :
    written (c :: cells) (j + 1) = encode c ++ written cells j := by
  rw [written, List.take_succ_cons, List.flatMap_cons]
  rfl

theorem of_writeEncoded {p : Cell} (h : writeEncoded out p = some out') :
    out'.fbin = out.fbin ++ encode p ∧
      out'.bytesOut - out'.bytesIn = out.bytesOut - out.bytesIn + (encode p).length - 4 ∧
      out'.bytesOut - out'.bytesIn < compactMargin - 2 := by
  simp only [writeEncoded] at h
  split at h
  next => cases h
  next hmargin =>
    cases h
    refine ⟨rfl, ?_, Int.not_le.mp hmargin⟩
    simp only
    ring

theorem foldlM_writeEncoded (h : cells.foldlM writeEncoded out = some out') :
    out'.fbin = out.fbin ++ cells.flatMap encode ∧
      out'.bytesOut - out'.bytesIn =
        out.bytesOut - out.bytesIn + (cells.flatMap encode).length - cells.length * 4 ∧
      ∀ j < cells.length, out.bytesOut - out.bytesIn + (written cells (j + 1)).length <
        (j + 1) * 4 + (compactMargin - 2) := by
  induction cells generalizing out with
  | nil =>
      cases h
      simp
  | cons c cells ih =>
      rw [List.foldlM_cons] at h
      cases hwrite : writeEncoded out c with
      | none =>
          rw [hwrite] at h
          cases h
      | some next =>
          rw [hwrite] at h
          obtain ⟨hfbin, hbytes, hmargin⟩ := of_writeEncoded hwrite
          obtain ⟨hfbin', hbytes', hahead⟩ := ih h
          refine ⟨?_, ?_, fun j hj => ?_⟩
          · rw [hfbin', hfbin, List.flatMap_cons, List.append_assoc]
          · rw [hbytes', hbytes, List.flatMap_cons, List.length_append, List.length_cons]
            push_cast
            ring
          · rw [written_cons, List.length_append]
            cases j with
            | zero =>
                rw [written_zero, List.length_nil]
                omega
            | succ j =>
                have := hahead j (Nat.lt_of_succ_lt_succ hj)
                omega

theorem bounds_of_compress (h : compress cells = some encoded) :
    encoded = written cells cells.length ∧ encoded.length ≤ cells.length * 4 ∧
      ∀ j < cells.length, (written cells j).length < j * 4 + (compactMargin - 2) := by
  unfold compress at h
  simp only [Option.bind_eq_bind, Option.bind_eq_some_iff] at h
  obtain ⟨out, hout, hend⟩ := h
  obtain ⟨hfbin, hbytes, hahead⟩ := foldlM_writeEncoded hout
  split at hend
  next => cases hend
  next hshort =>
    cases hend
    rw [hfbin, written_length]
    refine ⟨rfl, ?_, fun j hj => ?_⟩
    · simp only [List.nil_append] at hbytes ⊢
      omega
    · cases j with
      | zero =>
          rw [written_zero]
          decide
      | succ j =>
          have := hahead j (Nat.lt_of_succ_lt hj)
          simp only [compactMargin] at this ⊢
          omega

theorem left_start (h : compress cells = some encoded)
    (hbuffer : (encoded ++ rest).length = cells.length * 4) :
    Left cells cells.length (start (encoded ++ rest) encoded.length (cells.length * 4)) := by
  obtain ⟨hencoded, -, -⟩ := bounds_of_compress h
  refine ⟨0, ?_, fun _ => rfl⟩
  exact
    { memory :=
        { length := hbuffer
          intact := hencoded ▸ List.prefix_append _ _
          placed := fun i hi hle => absurd hi (Nat.not_lt.mpr hle) }
      codesize := congrArg List.length hencoded
      memsize := rfl
      le := le_rfl
      places := List.length_replicate
      holds := RingQueue.holds_empty (by decide)
      stores := fun _ hentry => by cases hentry }

/-- Compact code expands in place to the cells it was made of.  After any number of turns the ring
is not over its size, every store so far was behind the bytes that were still to be decoded then,
and those that still are left are as they were. -/
theorem expand_compress (rest : List Byte) (h : compress cells = some encoded)
    (hbuffer : (encoded ++ rest).length = cells.length * 4) :
    expand (encoded ++ rest) encoded.length (cells.length * 4) =
        some (cells.flatMap fun c => littleEndian 4 c.toNat) ∧
      ∀ count σ,
        (start (encoded ++ rest) encoded.length (cells.length * 4)).turns count = some σ →
          σ.spare.count ≤ compactMargin ∧ (∀ entry ∈ σ.stores, entry.2 ≤ entry.1) ∧
            σ.code.take σ.codesize = encoded.take σ.codesize := by
  obtain ⟨hencoded, -, hmargin⟩ := bounds_of_compress h
  have hturns := (left_start h hbuffer).turns hmargin
  constructor
  · obtain ⟨σ, hrun, count, hinv, hlast⟩ := hturns encoded.length
    have hle : cells.length ≤ encoded.length := hencoded ▸ le_length_written le_rfl
    rw [Nat.sub_eq_zero_of_le hle] at hinv hlast
    have hcount := hlast rfl
    subst hcount
    have hdone : cells.length * 4 % 4 = 0 ∧ σ.codesize = 0 ∧ σ.memsize = 0 :=
      ⟨Nat.mul_mod_left _ _, hinv.codesize, hinv.memsize.trans (Nat.zero_mul 4)⟩
    rw [expand, hrun, ← hinv.memory.eq]
    exact if_pos hdone
  · intro turns σ hrun
    obtain ⟨final, hfinal, count, hinv, -⟩ := hturns turns
    cases hrun.symm.trans hfinal
    refine ⟨?_, hinv.stores, ?_⟩
    · rw [hinv.holds.count, ← hinv.places]
      exact hinv.holds.fits
    · have hbefore := written_isPrefix cells (Nat.sub_le cells.length turns)
      rw [← hencoded] at hbefore
      rw [hinv.codesize, ← List.prefix_iff_eq_take.mp hinv.memory.intact]
      exact List.prefix_iff_eq_take.mp hbefore

theorem expand_compress_two :
    compress [300, -1] = some [0x82, 0x2c, 0x7f] ∧
      expand [0x82, 0x2c, 0x7f, 0, 0, 0, 0, 0] 3 8 =
        some [0x2c, 0x01, 0x00, 0x00, 0xff, 0xff, 0xff, 0xff] := by
  have hcompress : compress [300, -1] = some [0x82, 0x2c, 0x7f] := by decide
  exact ⟨hcompress, (expand_compress [0, 0, 0, 0, 0] hcompress rfl).1⟩

end Expansion

end AmxModC.Compiler.Compact
