import Mathlib.Data.BitVec
import Mathlib.Data.Nat.ModEq
import Mathlib.Tactic.Ring

namespace AmxModC.Foundation

abbrev Byte := BitVec 8

instance : LawfulBEq Byte := inferInstance

instance : LawfulBEq (List Byte) := inferInstance

/-! Integers of a fixed width, least significant byte first. -/

def littleEndian : Nat → Nat → List Byte
  | 0, _ => []
  | width + 1, n => BitVec.ofNat 8 n :: littleEndian width (n / 256)

def ofLittleEndian : List Byte → Nat
  | [] => 0
  | byte :: rest => byte.toNat + 256 * ofLittleEndian rest

@[simp] theorem length_littleEndian (width n : Nat) :
    (littleEndian width n).length = width := by
  induction width generalizing n with
  | zero => rfl
  | succ width ih =>
      rw [littleEndian, List.length_cons, ih]

theorem ofLittleEndian_littleEndian (width n : Nat) :
    ofLittleEndian (littleEndian width n) = n % 256 ^ width := by
  induction width generalizing n with
  | zero =>
      rw [pow_zero, Nat.mod_one]
      rfl
  | succ width ih =>
      have hsplit : n % 256 ^ (width + 1) = n % 256 + 256 * (n / 256 % 256 ^ width) := by
        rw [pow_succ', Nat.mod_mul]
      rw [hsplit, littleEndian, ofLittleEndian, ih, BitVec.toNat_ofNat]

/-! Records of such integers, each field with its width. -/

def fieldBytes (fields : List (Nat × Nat)) : List Byte :=
  fields.flatMap fun field => littleEndian field.1 field.2

theorem fieldBytes_append (front back : List (Nat × Nat)) :
    fieldBytes (front ++ back) = fieldBytes front ++ fieldBytes back := List.flatMap_append

theorem fieldBytes_cons (width n : Nat) (rest : List (Nat × Nat)) :
    fieldBytes ((width, n) :: rest) = littleEndian width n ++ fieldBytes rest :=
  List.flatMap_cons

theorem length_fieldBytes (fields : List (Nat × Nat)) :
    (fieldBytes fields).length = (fields.map Prod.fst).sum := by
  induction fields with
  | nil => rfl
  | cons field rest ih =>
      rw [fieldBytes_cons, List.length_append, length_littleEndian, ih, List.map_cons,
        List.sum_cons]

theorem getElem?_fieldBytes (front back : List (Nat × Nat)) {width n b : Nat} (hb : b < width) :
    (fieldBytes (front ++ (width, n) :: back))[(front.map Prod.fst).sum + b]? =
      (littleEndian width n)[b]? := by
  have hlength : b < (littleEndian width n).length := by
    rw [length_littleEndian]
    exact hb
  rw [← length_fieldBytes, fieldBytes_append, fieldBytes_cons,
    List.getElem?_append_right (Nat.le_add_right _ _), Nat.add_sub_cancel_left,
    List.getElem?_append_left hlength]

/-! A reader consumes a front part of a file; `none` is the end of the file
before the reader had what it asked for. -/

abbrev Reader (α : Type) := StateT (List Byte) Option α

namespace Reader

variable {α β : Type}

def take (count : Nat) : Reader (List Byte) := fun file =>
  if count ≤ file.length then some (file.take count, file.drop count) else none

def number (width : Nat) : Reader Nat := do
  let bytes ← take width
  return ofLittleEndian bytes

/-- Whatever follows, the reader consumes exactly `bytes` and returns `a`. -/
def Reads (reader : Reader α) (bytes : List Byte) (a : α) : Prop :=
  ∀ rest, reader (bytes ++ rest) = some (a, rest)

theorem reads_pure (a : α) : Reads (pure a) [] a := fun _ => rfl

theorem Reads.bind
    {reader : Reader α}
    {next : α → Reader β}
    {first second : List Byte}
    {a : α} {b : β}
    (hfirst : Reads reader first a)
    (hsecond : Reads (next a) second b) :
    Reads (reader >>= next) (first ++ second) b := by
  intro rest
  change (reader (first ++ second ++ rest)).bind (fun p => next p.1 p.2) = some (b, rest)
  rw [List.append_assoc, hfirst]
  exact hsecond rest

theorem Reads.map
    {reader : Reader α}
    {f : α → β}
    {bytes : List Byte}
    {a : α}
    (h : Reads reader bytes a) :
    Reads (f <$> reader) bytes (f a) := by
  intro rest
  change (reader (bytes ++ rest)).bind (fun p => some (f p.1, p.2)) = some (f a, rest)
  rw [h]
  rfl

theorem Reads.bind_pure
    {reader : Reader α}
    {bytes : List Byte}
    {a : α}
    (h : Reads reader bytes a)
    (f : α → β) :
    Reads (reader >>= fun a => pure (f a)) bytes (f a) := by
  rw [bind_pure_comp]
  exact h.map

theorem reads_take (bytes : List Byte) : Reads (take bytes.length) bytes bytes := by
  intro rest
  simp [take]

theorem reads_number (width n : Nat) :
    Reads (number width) (littleEndian width n) (n % 256 ^ width) := by
  rw [← ofLittleEndian_littleEndian]
  have htake := reads_take (littleEndian width n)
  rw [length_littleEndian] at htake
  exact htake.map

theorem reads_ofNat_number (width : Nat) {w : Nat} (num : BitVec w)
    (hwidth : 256 ^ width = 2 ^ w) :
    Reads (BitVec.ofNat w <$> number width) (littleEndian width num.toNat) num := by
  have hreads := (reads_number width num.toNat).map (f := BitVec.ofNat w)
  rw [hwidth, Nat.mod_eq_of_lt num.isLt, BitVec.ofNat_toNat, BitVec.setWidth_eq] at hreads
  exact hreads

/-- The reader meets the end of the file in every file that is `bytes` cut short. -/
def Torn (reader : Reader α) (bytes : List Byte) : Prop :=
  ∀ n, n < bytes.length → reader (bytes.take n) = none

theorem torn_nil (reader : Reader α) : Torn reader [] := fun _ hn => absurd hn (Nat.not_lt_zero _)

theorem Torn.bind
    {reader : Reader α}
    {next : α → Reader β}
    {first second : List Byte}
    {a : α}
    (hreads : Reads reader first a)
    (hfirst : Torn reader first)
    (hsecond : Torn (next a) second) :
    Torn (reader >>= next) (first ++ second) := by
  intro n hn
  change (reader ((first ++ second).take n)).bind (fun p => next p.1 p.2) = none
  rcases Nat.lt_or_ge n first.length with hlt | hge
  · rw [List.take_append_of_le_length hlt.le, hfirst n hlt]
    rfl
  · rw [List.take_append, List.take_of_length_le hge, hreads]
    refine hsecond (n - first.length) ?_
    rw [List.length_append] at hn
    omega

theorem Torn.map
    {reader : Reader α}
    {bytes : List Byte}
    (h : Torn reader bytes)
    (f : α → β) :
    Torn (f <$> reader) bytes := by
  intro n hn
  change (reader (bytes.take n)).bind (fun p => some (f p.1, p.2)) = none
  rw [h n hn]
  rfl

theorem Torn.bind_pure
    {reader : Reader α}
    {bytes : List Byte}
    (h : Torn reader bytes)
    (f : α → β) :
    Torn (reader >>= fun a => pure (f a)) bytes := by
  rw [bind_pure_comp]
  exact h.map f

theorem torn_take (bytes : List Byte) : Torn (take bytes.length) bytes := by
  intro n hn
  rw [take, if_neg]
  rw [List.length_take]
  omega

theorem torn_number (width n : Nat) : Torn (number width) (littleEndian width n) := by
  have htake := torn_take (littleEndian width n)
  rw [length_littleEndian] at htake
  exact htake.map ofLittleEndian

end Reader

end AmxModC.Foundation
