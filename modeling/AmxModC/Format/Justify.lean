import AmxModC.Format.Model

namespace AmxModC.Format

open Foundation

/-! What a number with a width looks like, and which flags give it. -/

def Justified (sign digits : List Byte) (flags : Flags) (text : List Byte) : Prop :=
  if flags.ladjust then
    ∃ pad, text = sign ++ digits ++ pad ∧ ∀ c ∈ pad, c = 32 ∨ c = 48
  else if flags.zeropad then ∃ pad, text = sign ++ pad ++ digits ∧ ∀ c ∈ pad, c = 48
  else ∃ pad, text = pad ++ sign ++ digits ∧ ∀ c ∈ pad, c = 32

structure Rendered (base : Nat) (value : Int) (sign digits : List Byte) (width : Cell)
    (flags : Flags) (text : List Byte) : Prop where
  length : (text.length : Int) = max width.toInt (sign ++ digits).length
  justified : Justified sign digits flags text
  value : readInt base text = value

/-- To the left: a width that is used up, or spaces, or nothing that zeros would change.  To
the right: no zeros in front of a sign. -/
def WellPadded (value : Int) (sign digits : List Byte) (width : Cell) (flags : Flags)
    (maxlen : Nat) : Prop :=
  if flags.ladjust then
    if width.toInt < (sign ++ digits).length then maxlen = (sign ++ digits).length
    else flags.zeropad = true → width.toInt = (sign ++ digits).length ∨ value = 0
  else flags.zeropad = true → sign = [] ∨ width.toInt ≤ (sign ++ digits).length

structure Numeral (base : Nat) (value : Int) (sign digits : List Byte) : Prop where
  base_gt : 1 < base
  base_le : base ≤ 36
  digits_eq : ∃ upper, digits = numeral base upper value.natAbs
  lt : value.natAbs < base ^ 32
  sign_eq : sign = if value < 0 then [45] else []

namespace Numeral

variable {base : Nat} {value : Int} {sign digits : List Byte}

theorem length_lt (h : Numeral base value sign digits) : (sign ++ digits).length < 2 ^ 31 := by
  obtain ⟨upper, rfl⟩ := h.digits_eq
  have hdigits := length_numeral_le base upper value.natAbs
  have hsign : sign.length ≤ 1 := by
    rw [h.sign_eq]
    split <;> simp
  rw [List.length_append]
  omega

theorem digits_plain (h : Numeral base value sign digits) :
    ∃ c rest, digits = c :: rest ∧ isSpace c = false ∧ c ≠ 45 := by
  obtain ⟨upper, rfl⟩ := h.digits_eq
  cases hdigits : numeral base upper value.natAbs with
  | nil => exact absurd hdigits (numeral_ne_nil base upper _)
  | cons c rest =>
      obtain ⟨hspace, hminus⟩ := numeral_plain upper value.natAbs (by have := h.base_gt; omega)
        h.base_le c (by rw [hdigits]; exact List.mem_cons_self)
      exact ⟨c, rest, rfl, hspace, hminus⟩

theorem readDigits_digits (h : Numeral base value sign digits) (rest : List Byte) :
    readDigits base 0 (digits ++ rest) = readDigits base value.natAbs rest := by
  obtain ⟨upper, rfl⟩ := h.digits_eq
  exact readDigits_numeral upper h.base_gt h.base_le h.lt rest

theorem readInt_signed (h : Numeral base value sign digits) (left right : List Byte) {n : Nat}
    (hleft : ∀ c ∈ left, c = 48)
    (hread : readDigits base 0 (left ++ digits ++ right) = n) :
    readInt base (sign ++ (left ++ digits ++ right)) = if value < 0 then -(n : Int) else n := by
  obtain ⟨c, rest, hdigits, hspace, hminus⟩ := h.digits_plain
  rw [h.sign_eq]
  split
  next =>
      have hhead : (45 : Byte) :: (left ++ digits ++ right) =
          ((45 : Byte) :: (left ++ digits ++ right)).dropWhile isSpace := rfl
      rw [List.singleton_append, readInt, ← hhead]
      exact congrArg (fun n : Nat => -(n : Int)) hread
  next =>
      have hplain : ∃ c' rest', left ++ digits ++ right = c' :: rest' ∧
          isSpace c' = false ∧ c' ≠ 45 := by
        cases left with
        | nil =>
            rw [List.nil_append, hdigits]
            exact ⟨c, rest ++ right, rfl, hspace, hminus⟩
        | cons zero left =>
            refine ⟨zero, left ++ digits ++ right, rfl, ?_⟩
            rw [hleft zero List.mem_cons_self]
            decide
      obtain ⟨c', rest', htext, hspace', hminus'⟩ := hplain
      rw [List.nil_append, readInt]
      rw [htext] at hread ⊢
      rw [List.dropWhile_cons_of_neg (by simp [hspace'])]
      split
      next heq =>
          rw [List.cons.injEq] at heq
          exact absurd heq.1 hminus'
      next => exact congrArg _ hread

theorem readInt_followed (h : Numeral base value sign digits) (right : List Byte) :
    readInt base (sign ++ digits ++ right) =
      if value < 0 then -(readDigits base value.natAbs right : Int)
      else readDigits base value.natAbs right := by
  have hread := h.readInt_signed [] right (by simp) (h.readDigits_digits right)
  rwa [List.nil_append, ← List.append_assoc] at hread

theorem signed_natAbs (value : Int) :
    (if value < 0 then -(value.natAbs : Int) else value.natAbs) = value := by
  split <;> omega

end Numeral

section

variable {base : Nat} {value : Int} {sign digits : List Byte} {width : Cell} {flags : Flags}
  {maxlen : Nat}

theorem readInt_spaces (base count : Nat) (text : List Byte) :
    readInt base (List.replicate count 32 ++ text) = readInt base text := by
  induction count with
  | zero => rfl
  | succ count ih => exact ih

def Enough (sign digits : List Byte) (width : Cell) (maxlen : Nat) : Prop :=
  max width.toInt (sign ++ digits).length ≤ maxlen

theorem addText_right (hlength : (sign ++ digits).length < 2 ^ 31)
    (hladjust : flags.ladjust = false) (henough : Enough sign digits width maxlen) :
    addText (sign ++ digits) width flags maxlen =
      List.replicate (width.toInt - (sign ++ digits).length).toNat
        (if flags.zeropad then 48 else 32) ++ (sign ++ digits) := by
  unfold Enough at henough
  rw [addText_eq_take hlength, fullText, padding, hladjust]
  refine List.take_of_length_le ?_
  simp only [Bool.false_eq_true, if_false, List.length_append, List.length_replicate] at henough ⊢
  omega

theorem addText_left (hlength : (sign ++ digits).length < 2 ^ 31)
    (hladjust : flags.ladjust = true) (henough : Enough sign digits width maxlen) :
    addText (sign ++ digits) width flags maxlen =
      sign ++ digits ++ List.replicate
        (min (width - BitVec.ofNat 32 (sign ++ digits).length).toNat
          (maxlen - (sign ++ digits).length))
        (if flags.zeropad then 48 else 32) := by
  unfold Enough at henough
  rw [addText_eq_take hlength, fullText, padding, hladjust, if_pos rfl, if_pos rfl,
    List.take_append, List.take_of_length_le (by omega), List.take_replicate, min_comm]

theorem toNat_width_sub (width : Cell) (hlength : (sign ++ digits).length < 2 ^ 31) :
    if width.toInt < (sign ++ digits).length then
      (width - BitVec.ofNat 32 (sign ++ digits).length).toNat ≠ 0
    else ((width - BitVec.ofNat 32 (sign ++ digits).length).toNat : Int) =
      width.toInt - (sign ++ digits).length := by
  have hlow := BitVec.le_toInt width
  have hwidth := BitVec.toInt_eq_toNat_bmod width
  have hlt := width.isLt
  rw [Int.bmod_def] at hwidth
  split <;> rw [BitVec.toNat_sub, BitVec.toNat_ofNat] <;> omega

theorem length_addText_right (hlength : (sign ++ digits).length < 2 ^ 31)
    (hladjust : flags.ladjust = false) (henough : Enough sign digits width maxlen) :
    ((addText (sign ++ digits) width flags maxlen).length : Int) =
      max width.toInt (sign ++ digits).length := by
  rw [addText_right hlength hladjust henough, List.length_append, List.length_replicate]
  omega

theorem rendered_right_iff (h : Numeral base value sign digits) (hladjust : flags.ladjust = false)
    (henough : Enough sign digits width maxlen) :
    Rendered base value sign digits width flags
        (addText (sign ++ digits) width flags maxlen) ↔
      WellPadded value sign digits width flags maxlen := by
  have hlong := length_addText_right h.length_lt hladjust henough
  rw [WellPadded, hladjust]
  rw [addText_right h.length_lt hladjust henough] at hlong ⊢
  have hzero : 0 < base := Nat.zero_lt_of_lt h.base_gt
  cases hzeropad : flags.zeropad with
  | false =>
      rw [hzeropad] at hlong
      refine iff_of_true ⟨hlong, ?_, ?_⟩ (by simp)
      · rw [Justified, hladjust, hzeropad]
        refine ⟨List.replicate _ 32, (List.append_assoc _ _ _).symm, ?_⟩
        exact fun c hmem => List.eq_of_mem_replicate hmem
      · have hread := h.readInt_followed []
        rw [List.append_nil] at hread
        rw [if_neg Bool.false_ne_true, readInt_spaces, hread]
        exact Numeral.signed_natAbs value
  | true =>
      rw [hzeropad] at hlong
      simp only [Bool.false_eq_true, if_false, if_true, true_implies]
      simp only [if_true] at hlong
      cases hsign : sign with
      | nil =>
          rw [hsign] at h hlong
          have hvalue : ¬ value < 0 := fun hneg => by
            have hminus := h.sign_eq
            rw [if_pos hneg] at hminus
            cases hminus
          refine iff_of_true ⟨hlong, ?_, ?_⟩ (Or.inl rfl)
          · rw [Justified, hladjust, hzeropad, if_neg Bool.false_ne_true, if_pos rfl]
            exact ⟨List.replicate _ 48, rfl, fun c hmem => List.eq_of_mem_replicate hmem⟩
          · have hread := readDigits_zeros hzero 0
              (width.toInt - (digits.length : Nat)).toNat (digits ++ [])
            rw [Nat.zero_mul, h.readDigits_digits, ← List.append_assoc] at hread
            have hback := h.readInt_signed (List.replicate _ 48) []
              (fun c hmem => List.eq_of_mem_replicate hmem) hread
            rw [if_neg hvalue, List.append_nil] at hback
            refine hback.trans ?_
            rw [readDigits]
            omega
      | cons minus rest =>
          have hminus : value < 0 ∧ minus :: rest = [45] := by
            have heq := h.sign_eq
            rw [hsign] at heq
            split at heq
            next hneg => exact ⟨hneg, heq⟩
            next => cases heq
          rw [← hsign]
          cases hcount : (width.toInt - (sign ++ digits).length).toNat with
          | zero =>
              rw [hcount] at hlong
              refine iff_of_true ⟨hlong, ?_, ?_⟩ (Or.inr (by omega))
              · rw [Justified, hladjust, hzeropad, if_neg Bool.false_ne_true, if_pos rfl]
                exact ⟨[], by simp, by simp⟩
              · have hread := h.readInt_followed []
                rw [List.append_nil] at hread
                exact hread.trans (Numeral.signed_natAbs value)
          | succ count =>
              refine iff_of_false ?_ ?_
              · intro hrendered
                obtain ⟨-, hjustified, -⟩ := hrendered
                rw [Justified, hladjust, hzeropad, if_neg Bool.false_ne_true, if_pos rfl, hsign,
                  hminus.2] at hjustified
                obtain ⟨pad, heq, _⟩ := hjustified
                have hhead := congrArg List.head? heq
                simp [List.replicate_succ] at hhead
              · rw [hsign] at hcount ⊢
                intro hcases
                obtain hnil | hle := hcases
                · cases hnil
                · omega

theorem signed_mul_pow_iff {base : Nat} (hbase : 1 < base) (value : Int) (count : Nat) :
    (if value < 0 then -((value.natAbs * base ^ count : Nat) : Int)
      else (value.natAbs * base ^ count : Nat)) = value ↔ count = 0 ∨ value = 0 := by
  have hpower : value.natAbs * base ^ count = value.natAbs ↔ count = 0 ∨ value.natAbs = 0 := by
    constructor
    · intro heq
      by_contra hneither
      rw [not_or] at hneither
      have hpower := (Nat.mul_eq_left hneither.2).mp heq
      exact absurd hpower (Nat.one_lt_pow hneither.1 hbase).ne'
    · intro hcases
      obtain hcount | hvalue := hcases
      · rw [hcount, Nat.pow_zero, Nat.mul_one]
      · rw [hvalue, Nat.zero_mul]
  constructor
  · intro heq
    have hsame : value.natAbs * base ^ count = value.natAbs := by
      split at heq <;> omega
    have hcases := hpower.mp hsame
    omega
  · intro hcases
    rw [hpower.mpr (by omega)]
    exact Numeral.signed_natAbs value

theorem rendered_left_iff (h : Numeral base value sign digits) (hladjust : flags.ladjust = true)
    (henough : Enough sign digits width maxlen) :
    Rendered base value sign digits width flags
        (addText (sign ++ digits) width flags maxlen) ↔
      WellPadded value sign digits width flags maxlen := by
  have hwidth := toNat_width_sub width h.length_lt
  have hzero : 0 < base := Nat.zero_lt_of_lt h.base_gt
  unfold Enough at henough
  rw [WellPadded, if_pos hladjust]
  split at hwidth
  next hshort =>
      rw [if_pos hshort, addText_left h.length_lt hladjust henough]
      constructor
      · intro ⟨hlong, _, _⟩
        rw [List.length_append, List.length_replicate] at hlong
        omega
      · intro hmaxlen
        have hnone : min (width - BitVec.ofNat 32 (sign ++ digits).length).toNat
            (maxlen - (sign ++ digits).length) = 0 := by omega
        rw [hnone, List.replicate_zero]
        refine ⟨?_, ?_, ?_⟩
        · rw [List.append_nil]
          omega
        · rw [Justified, if_pos hladjust]
          exact ⟨[], rfl, by simp⟩
        · rw [h.readInt_followed]
          exact Numeral.signed_natAbs value
  next hlong =>
      rw [if_neg hlong, addText_left h.length_lt hladjust henough]
      have hcount : min (width - BitVec.ofNat 32 (sign ++ digits).length).toNat
            (maxlen - (sign ++ digits).length) =
          (width - BitVec.ofNat 32 (sign ++ digits).length).toNat := by omega
      rw [hcount]
      generalize (width - BitVec.ofNat 32 (sign ++ digits).length).toNat = count at hwidth
      have hsize : ∀ pad : Byte, ((sign ++ digits ++ List.replicate count pad).length : Int) =
          max width.toInt (sign ++ digits).length := by
        intro pad
        rw [List.length_append, List.length_replicate]
        omega
      cases hzeropad : flags.zeropad with
      | false =>
          refine iff_of_true ⟨hsize _, ?_, ?_⟩ (by simp)
          · rw [Justified, if_pos hladjust]
            exact ⟨_, rfl, fun c hmem => .inl (List.eq_of_mem_replicate hmem)⟩
          · rw [h.readInt_followed, if_neg Bool.false_ne_true, readDigits_spaces h.base_le]
            exact Numeral.signed_natAbs value
      | true =>
          simp only [if_true, true_implies]
          have hread := readDigits_zeros hzero value.natAbs count []
          rw [List.append_nil] at hread
          have hvalue := signed_mul_pow_iff h.base_gt value count
          constructor
          · intro ⟨_, _, hback⟩
            rw [h.readInt_followed, hread] at hback
            have hcases := hvalue.mp hback
            omega
          · intro hcases
            refine ⟨hsize _, ?_, ?_⟩
            · rw [Justified, if_pos hladjust]
              exact ⟨_, rfl, fun c hmem => .inr (List.eq_of_mem_replicate hmem)⟩
            · rw [h.readInt_followed, hread]
              exact hvalue.mpr (by omega)

end

theorem rendered_iff {base : Nat} {value : Int} {sign digits : List Byte} {width : Cell}
    {flags : Flags} {maxlen : Nat} (h : Numeral base value sign digits)
    (henough : Enough sign digits width maxlen) :
    Rendered base value sign digits width flags
        (addText (sign ++ digits) width flags maxlen) ↔
      WellPadded value sign digits width flags maxlen := by
  cases hladjust : flags.ladjust with
  | false => exact rendered_right_iff h hladjust henough
  | true => exact rendered_left_iff h hladjust henough

theorem numeral_addInt (val : Cell) : Numeral 10 val.toInt (intSign val) (intDigits val) where
  base_gt := by decide
  base_le := by decide
  digits_eq := by
    refine ⟨false, ?_⟩
    unfold intDigits
    congr 1
    have hsigned := BitVec.toInt_eq_toNat_cond val
    split
    next hneg =>
        rw [BitVec.slt_iff_toInt_lt] at hneg
        have hzero : (0 : Cell).toInt = 0 := rfl
        rw [BitVec.toNat_neg]
        have hlt := val.isLt
        split at hsigned <;> omega
    next hneg =>
        rw [BitVec.slt_iff_toInt_lt] at hneg
        have hzero : (0 : Cell).toInt = 0 := rfl
        split at hsigned <;> omega
  lt := by
    have hlow := BitVec.le_toInt val
    have hhigh := BitVec.toInt_lt (x := val)
    have hpower : (10 : Nat) ^ 32 = 100000000000000000000000000000000 := by norm_num
    omega
  sign_eq := by
    unfold intSign
    have hzero : (0 : Cell).toInt = 0 := rfl
    simp only [BitVec.slt_iff_toInt_lt, hzero]

theorem numeral_unsigned (upper : Bool) (val : Cell) {base : Nat} (hbase : 10 ≤ base)
    (hle : base ≤ 36) : Numeral base val.toNat [] (numeral base upper val.toNat) where
  base_gt := by omega
  base_le := hle
  digits_eq := ⟨upper, rfl⟩
  lt := by
    have hlt := val.isLt
    have hpower : (10 : Nat) ^ 32 ≤ base ^ 32 := Nat.pow_le_pow_left hbase 32
    have hten : (10 : Nat) ^ 32 = 100000000000000000000000000000000 := by norm_num
    rw [Int.natAbs_natCast]
    omega
  sign_eq := by
    rw [if_neg]
    omega

theorem conversions_rendered_iff (val width : Cell) (flags : Flags) (maxlen : Nat) :
    (Enough (intSign val) (intDigits val) width maxlen →
      (Rendered 10 val.toInt (intSign val) (intDigits val) width flags
          (addInt val width flags maxlen) ↔
        WellPadded val.toInt (intSign val) (intDigits val) width flags maxlen)) ∧
    (Enough [] (numeral 10 false val.toNat) width maxlen →
      (Rendered 10 val.toNat [] (numeral 10 false val.toNat) width flags
          (addUInt val width flags maxlen) ↔
        WellPadded val.toNat [] (numeral 10 false val.toNat) width flags maxlen)) ∧
    (Enough [] (numeral 16 flags.upperdigits val.toNat) width maxlen →
      (Rendered 16 val.toNat [] (numeral 16 flags.upperdigits val.toNat) width flags
          (addHex val width flags maxlen) ↔
        WellPadded val.toNat [] (numeral 16 flags.upperdigits val.toNat) width flags
          maxlen)) := by
  refine ⟨fun henough => ?_, fun henough => ?_, fun henough => ?_⟩
  · exact rendered_iff (numeral_addInt val) henough
  · exact rendered_iff (numeral_unsigned false val (by decide) (by decide)) henough
  · exact rendered_iff (numeral_unsigned flags.upperdigits val (by decide) (by decide)) henough

theorem conversions_rendered_of_width :
    addInt (-2147483648) 12 {} 12 = [32, 45, 50, 49, 52, 55, 52, 56, 51, 54, 52, 56] ∧
      Rendered 10 (-2147483648 : Cell).toInt (intSign (-2147483648)) (intDigits (-2147483648)) 12
        {} (addInt (-2147483648) 12 {} 12) := by
  refine ⟨by decide +kernel, ?_⟩
  refine ((conversions_rendered_iff (-2147483648) 12 {} 12).1 ?_).mpr ?_
  · show max (12 : Cell).toInt _ ≤ _
    decide +kernel
  · intro hzeropad
    cases hzeropad

/-- Left-adjusted, 12 with the width 1 takes all of the space. -/
theorem conversions_pad_too_far :
    ¬ ∀ (val width : Cell) (flags : Flags) (maxlen : Nat),
      Enough (intSign val) (intDigits val) width maxlen →
      Rendered 10 val.toInt (intSign val) (intDigits val) width flags
        (addInt val width flags maxlen) := by
  intro hall
  have hrendered := hall 12 1 { ladjust := true } 5 (by
    show max (1 : Cell).toInt _ ≤ _
    decide +kernel)
  have hlength := hrendered.length
  revert hlength
  decide +kernel

end AmxModC.Format
