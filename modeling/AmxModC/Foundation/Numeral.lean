import Mathlib.Data.Nat.Digits.Defs
import AmxModC.Foundation.Text

namespace AmxModC.Foundation

/-! Numerals: the digits of a number in a base, and reading them back as `strtol` does. -/

def digitLoop (base : Nat) : Nat → Nat → List Nat
  | 0, _ => []
  | fuel + 1, n => n % base :: if n / base = 0 then [] else digitLoop base fuel (n / base)

def digitChar (upper : Bool) (digit : Nat) : Byte :=
  if digit ≤ 9 then BitVec.ofNat 8 (48 + digit)
  else if upper then BitVec.ofNat 8 (55 + digit) else BitVec.ofNat 8 (87 + digit)

def numeral (base : Nat) (upper : Bool) (n : Nat) : List Byte :=
  (digitLoop base 32 n).reverse.map (digitChar upper)

def digit? (base : Nat) (c : Byte) : Option Nat :=
  let digit :=
    if 48 ≤ c ∧ c ≤ 57 then c.toNat - 48
    else if 65 ≤ c ∧ c ≤ 90 then c.toNat - 55
    else if 97 ≤ c ∧ c ≤ 122 then c.toNat - 87
    else 36
  if digit < base then some digit else none

def readDigits (base : Nat) : Nat → List Byte → Nat
  | sofar, [] => sofar
  | sofar, c :: text =>
      match digit? base c with
      | some digit => readDigits base (sofar * base + digit) text
      | none => sofar

/-- `strtol`: blanks, a sign and digits. -/
def readInt (base : Nat) (text : List Byte) : Int :=
  match text.dropWhile isSpace with
  | 45 :: digits => -(readDigits base 0 digits : Int)
  | digits => readDigits base 0 digits

def atoi (text : List Byte) : Int :=
  match text.dropWhile isSpace with
  | 43 :: digits => readDigits 10 0 digits
  | rest => readInt 10 rest

section

variable {base fuel n : Nat}

theorem digitLoop_lt (hbase : 0 < base) : ∀ digit ∈ digitLoop base fuel n, digit < base := by
  induction fuel generalizing n with
  | zero => exact fun digit hmem => (List.not_mem_nil hmem).elim
  | succ fuel ih =>
      rw [digitLoop, List.forall_mem_cons]
      refine ⟨Nat.mod_lt n hbase, ?_⟩
      split
      next => exact fun digit hmem => (List.not_mem_nil hmem).elim
      next => exact ih

theorem ofDigits_digitLoop (hbase : 1 < base) (h : n < base ^ fuel) :
    Nat.ofDigits base (digitLoop base fuel n) = n := by
  induction fuel generalizing n with
  | zero =>
      have hzero : n = 0 := by simpa using h
      rw [hzero]
      rfl
  | succ fuel ih =>
      rw [digitLoop, Nat.ofDigits_cons]
      have hdivide := Nat.div_add_mod n base
      split
      next hlast =>
          rw [hlast, Nat.mul_zero] at hdivide
          simpa using hdivide
      next =>
          have hlt : n / base < base ^ fuel := by
            rw [Nat.div_lt_iff_lt_mul (by omega), ← Nat.pow_succ]
            exact h
          rw [ih hlt, Nat.add_comm]
          exact hdivide

theorem length_digitLoop_pos (hfuel : 0 < fuel) : 0 < (digitLoop base fuel n).length := by
  cases fuel with
  | zero => exact absurd hfuel (lt_irrefl 0)
  | succ fuel => exact Nat.succ_pos _

theorem length_digitLoop_le : (digitLoop base fuel n).length ≤ fuel := by
  induction fuel generalizing n with
  | zero => exact le_rfl
  | succ fuel ih =>
      rw [digitLoop, List.length_cons]
      split
      next => exact Nat.succ_le_succ (Nat.zero_le fuel)
      next => exact Nat.succ_le_succ ih

end

section

variable {base : Nat}

theorem digit?_digitChar (upper : Bool) {digit : Nat} (hbase : base ≤ 36) (h : digit < base) :
    digit? base (digitChar upper digit) = some digit := by
  have hall : ∀ digit < 36,
      (if 48 ≤ digitChar upper digit ∧ digitChar upper digit ≤ 57 then
          (digitChar upper digit).toNat - 48
        else if 65 ≤ digitChar upper digit ∧ digitChar upper digit ≤ 90 then
          (digitChar upper digit).toNat - 55
        else if 97 ≤ digitChar upper digit ∧ digitChar upper digit ≤ 122 then
          (digitChar upper digit).toNat - 87
        else 36) = digit := by
    cases upper <;> decide
  unfold digit?
  rw [hall digit (by omega)]
  exact if_pos h

theorem not_isSpace_digitChar (upper : Bool) {digit : Nat} (h : digit < 36) :
    isSpace (digitChar upper digit) = false := by
  have hall : ∀ digit < 36, isSpace (digitChar upper digit) = false := by
    cases upper <;> decide
  exact hall digit h

theorem digitChar_ne_minus (upper : Bool) {digit : Nat} (h : digit < 36) :
    digitChar upper digit ≠ 45 := by
  have hall : ∀ digit < 36, digitChar upper digit ≠ 45 := by
    cases upper <;> decide
  exact hall digit h

theorem digit?_space (hbase : base ≤ 36) : digit? base 32 = none := if_neg (not_lt.mpr hbase)

theorem digit?_zero (hbase : 0 < base) : digit? base 48 = some 0 := if_pos hbase

theorem readDigits_append (upper : Bool) {digits : List Nat} (hbase : base ≤ 36)
    (h : ∀ digit ∈ digits, digit < base) (sofar : Nat) (rest : List Byte) :
    readDigits base sofar (digits.map (digitChar upper) ++ rest) =
      readDigits base (digits.foldl (fun n digit => n * base + digit) sofar) rest := by
  induction digits generalizing sofar with
  | nil => rfl
  | cons digit digits ih =>
      obtain ⟨hdigit, hrest⟩ := List.forall_mem_cons.mp h
      rw [List.map_cons, List.cons_append, readDigits, digit?_digitChar upper hbase hdigit]
      exact ih hrest _

theorem foldl_reverse (digits : List Nat) :
    digits.reverse.foldl (fun n digit => n * base + digit) 0 = Nat.ofDigits base digits := by
  induction digits with
  | nil => rfl
  | cons digit digits ih =>
      rw [List.reverse_cons, List.foldl_append, ih, Nat.ofDigits_cons]
      simp only [List.foldl_cons, List.foldl_nil]
      rw [Nat.mul_comm, Nat.add_comm]

theorem readDigits_numeral (upper : Bool) {n : Nat} (hone : 1 < base) (hbase : base ≤ 36)
    (h : n < base ^ 32) (rest : List Byte) :
    readDigits base 0 (numeral base upper n ++ rest) = readDigits base n rest := by
  have hlt : ∀ digit ∈ (digitLoop base 32 n).reverse, digit < base := fun digit hmem =>
    digitLoop_lt (by omega) digit (List.mem_reverse.mp hmem)
  rw [numeral, readDigits_append upper hbase hlt, foldl_reverse, ofDigits_digitLoop hone h]

theorem readDigits_spaces (hbase : base ≤ 36) (sofar count : Nat) :
    readDigits base sofar (List.replicate count 32) = sofar := by
  cases count with
  | zero => rfl
  | succ count => rw [List.replicate_succ, readDigits, digit?_space hbase]

theorem readDigits_zeros (hbase : 0 < base) (sofar count : Nat) (rest : List Byte) :
    readDigits base sofar (List.replicate count 48 ++ rest) =
      readDigits base (sofar * base ^ count) rest := by
  induction count generalizing sofar with
  | zero => simp
  | succ count ih =>
      rw [List.replicate_succ, List.cons_append, readDigits, digit?_zero hbase]
      exact (ih (sofar * base + 0)).trans (by rw [Nat.pow_succ']; ring_nf)

theorem numeral_ne_nil (base : Nat) (upper : Bool) (n : Nat) : numeral base upper n ≠ [] := by
  intro hnil
  have hpos : 0 < (digitLoop base 32 n).length := length_digitLoop_pos (by decide)
  have hlength := congrArg List.length hnil
  rw [numeral, List.length_map, List.length_reverse, List.length_nil] at hlength
  omega

theorem length_numeral_le (base : Nat) (upper : Bool) (n : Nat) :
    (numeral base upper n).length ≤ 32 := by
  rw [numeral, List.length_map, List.length_reverse]
  exact length_digitLoop_le

theorem numeral_plain (upper : Bool) (n : Nat) (hpos : 0 < base) (hbase : base ≤ 36) :
    ∀ c ∈ numeral base upper n, isSpace c = false ∧ c ≠ 45 := by
  intro c hmem
  obtain ⟨digit, hdigit, rfl⟩ := List.mem_map.mp hmem
  have hlt := digitLoop_lt hpos digit (List.mem_reverse.mp hdigit)
  exact ⟨not_isSpace_digitChar upper (by omega), digitChar_ne_minus upper (by omega)⟩

end

/-- `%d`. -/
def decimal (n : Int) : List Byte :=
  if n < 0 then 45 :: numeral 10 false n.natAbs else numeral 10 false n.natAbs

theorem readDigits_decimal {n : Nat} (h : n < 10 ^ 32) :
    readDigits 10 0 (numeral 10 false n) = n := by
  have hread := readDigits_numeral false (by decide : 1 < 10) (by decide) h []
  rwa [List.append_nil] at hread

theorem atoi_decimal {n : Int} (h : n.natAbs < 10 ^ 32) : atoi (decimal n) = n := by
  rw [decimal]
  split
  next hneg =>
      have hread : atoi (45 :: numeral 10 false n.natAbs) =
          -(readDigits 10 0 (numeral 10 false n.natAbs) : Int) := rfl
      rw [hread, readDigits_decimal h]
      omega
  next hneg =>
      obtain ⟨c, rest, hcons⟩ := List.exists_cons_of_ne_nil (numeral_ne_nil 10 false n.natAbs)
      have hmem : c ∈ numeral 10 false n.natAbs := hcons ▸ List.mem_cons_self
      obtain ⟨hspace, hminus⟩ := numeral_plain false n.natAbs (by decide) (by decide) c hmem
      have hplus : c ≠ 43 := by
        rintro rfl
        obtain ⟨digit, hdigit, heq⟩ := List.mem_map.mp hmem
        have hlt := digitLoop_lt (by decide) digit (List.mem_reverse.mp hdigit)
        have hread := digit?_digitChar false (by decide : 10 ≤ 36) hlt
        rw [heq] at hread
        cases hread
      have hread := readDigits_decimal h
      rw [hcons] at hread ⊢
      have hdrop : (c :: rest).dropWhile isSpace = c :: rest :=
        List.dropWhile_cons_of_neg (by simp [hspace])
      have hnumber : readInt 10 (c :: rest) = readDigits 10 0 (c :: rest) := by
        rw [readInt, hdrop]
        split
        next heq => exact absurd (List.cons.inj heq).1 hminus
        next => rfl
      rw [atoi, hdrop]
      split
      next heq => exact absurd (List.cons.inj heq).1 hplus
      next =>
          rw [hnumber, hread]
          omega

end AmxModC.Foundation
