import Mathlib.Data.List.TakeWhile
import Mathlib.Data.List.Lex
import AmxModC.Foundation.Codec

namespace AmxModC.Foundation

/-- What `new` and `malloc` leave in memory. -/
def uninitialised : Byte := 0xCD

def strcmp : List Byte → List Byte → Int
  | [], [] => 0
  | [], _ :: _ => -1
  | _ :: _, [] => 1
  | c :: s, c' :: s' => if c = c' then strcmp s s' else if c.toNat < c'.toNat then -1 else 1

theorem strcmp_eq_zero {s t : List Byte} : strcmp s t = 0 ↔ s = t := by
  induction s generalizing t with
  | nil => cases t <;> simp [strcmp]
  | cons c s ih =>
      cases t with
      | nil => simp [strcmp]
      | cons c' t =>
          rw [strcmp, List.cons.injEq]
          split
          next hhead => rw [ih, and_iff_right hhead]
          next hhead =>
            refine iff_of_false ?_ fun h => hhead h.1
            split <;> decide

theorem strcmp_neg_iff {s t : List Byte} :
    strcmp s t < 0 ↔ s.map BitVec.toNat < t.map BitVec.toNat := by
  induction s generalizing t with
  | nil =>
      cases t with
      | nil => exact iff_of_false (by decide) (lt_irrefl _)
      | cons c t => exact iff_of_true (by decide : (-1 : Int) < 0) (List.nil_lt_cons _ _)
  | cons c s ih =>
      cases t with
      | nil => exact iff_of_false (by decide : ¬ (1 : Int) < 0) (List.not_lt_nil _)
      | cons d t =>
          rw [strcmp, List.map_cons, List.map_cons, List.cons_lt_cons_iff]
          by_cases hhead : c = d
          · rw [if_pos hhead, ih, hhead]
            simp only [lt_irrefl, true_and, false_or]
          · have hne : c.toNat ≠ d.toNat := fun heq => hhead (BitVec.eq_of_toNat_eq heq)
            rw [if_neg hhead]
            by_cases hlt : c.toNat < d.toNat
            · rw [if_pos hlt]
              exact iff_of_true (by decide) (.inl hlt)
            · rw [if_neg hlt]
              exact iff_of_false (by decide) fun h => h.elim hlt fun h => hne h.1

theorem map_toNat_inj {s t : List Byte} : s.map BitVec.toNat = t.map BitVec.toNat ↔ s = t :=
  (List.map_injective_iff.mpr fun _ _ => BitVec.eq_of_toNat_eq).eq_iff

theorem strcmp_pos_iff {s t : List Byte} :
    0 < strcmp s t ↔ t.map BitVec.toNat < s.map BitVec.toNat := by
  have hneg := strcmp_neg_iff (s := s) (t := t)
  have hzero := strcmp_eq_zero (s := s) (t := t)
  rw [← map_toNat_inj] at hzero
  rcases lt_trichotomy (s.map BitVec.toNat) (t.map BitVec.toNat) with hlt | heq | hgt
  · exact iff_of_false (not_lt.mpr (hneg.mpr hlt).le) hlt.not_gt
  · exact iff_of_false (hzero.mpr heq).not_gt heq.not_gt
  · refine iff_of_true (lt_of_le_of_ne ?_ ?_) hgt
    · exact not_lt.mp fun h => hgt.not_gt (hneg.mp h)
    · exact fun h => hgt.ne' (hzero.mp h.symm)

theorem takeWhile_noNul {s : List Byte} (h : 0 ∉ s) : s.takeWhile (· ≠ 0) = s :=
  List.takeWhile_eq_self_iff.mpr fun _ hc => decide_eq_true fun hzero => h (hzero ▸ hc)

theorem takeWhile_terminated {s : List Byte} (h : 0 ∉ s) (rest : List Byte) :
    (s ++ 0 :: rest).takeWhile (· ≠ 0) = s := by
  rw [List.takeWhile_append, if_pos (by rw [takeWhile_noNul h]),
    List.takeWhile_cons_of_neg (by simp), List.append_nil]

structure CString where
  bytes : List Byte
  noNul : 0 ∉ bytes
deriving DecidableEq

namespace CString

theorem ext {s t : CString} (h : s.bytes = t.bytes) : s = t := by
  cases s
  cases t
  cases h
  rfl

theorem ext_iff {s t : CString} : s = t ↔ s.bytes = t.bytes :=
  ⟨congrArg bytes, ext⟩

def size (s : CString) : Nat := s.bytes.length

def ofMemory (memory : List Byte) : CString where
  bytes := memory.takeWhile (· ≠ 0)
  noNul := fun hmem => by simpa using List.mem_takeWhile_imp hmem

theorem noNul_nil : (0 : Byte) ∉ ([] : List Byte) := List.not_mem_nil

instance : Inhabited CString := ⟨[], noNul_nil⟩

theorem ofMemory_terminated (s : CString) (rest : List Byte) :
    ofMemory (s.bytes ++ 0 :: rest) = s :=
  ext (takeWhile_terminated s.noNul rest)

theorem size_ofMemory_le (chars rest : List Byte) :
    (ofMemory (chars ++ 0 :: rest)).size ≤ chars.length := by
  change ((chars ++ 0 :: rest).takeWhile (· ≠ 0)).length ≤ chars.length
  rw [List.takeWhile_append]
  split
  next => simp
  next => exact (List.takeWhile_sublist _).length_le

end CString

/-! Strings in a table of bytes, each with its terminator. -/

def StringAt (table : List Byte) (offset : Nat) (s : List Byte) : Prop :=
  ∀ i, i ≤ s.length → table[offset + i]? = (s ++ [0])[i]?

section

variable {table table' : List Byte} {offset : Nat} {s : List Byte} {c : Byte}

theorem StringAt.of_agree (h : StringAt table offset s)
    (hagree : ∀ i, offset ≤ i → i ≤ offset + s.length → table'[i]? = table[i]?) :
    StringAt table' offset s := by
  intro i hi
  rw [hagree (offset + i) (by omega) (by omega)]
  exact h i hi

theorem StringAt.takeWhile (h : StringAt table offset s) (hs : 0 ∉ s) :
    (table.drop offset).takeWhile (· ≠ 0) = s := by
  have hfront : (table.drop offset).take (s.length + 1) = s ++ [0] := by
    refine List.ext_getElem? fun i => ?_
    by_cases hi : i ≤ s.length
    · rw [List.getElem?_take_of_lt (by omega), List.getElem?_drop, h i hi]
    · have hlen : (s ++ [0]).length = s.length + 1 := by simp
      rw [List.getElem?_eq_none ((List.length_take_le _ _).trans (by omega)),
        List.getElem?_eq_none (by omega)]
  rw [← List.take_append_drop (s.length + 1) (table.drop offset), hfront, List.append_assoc,
    List.singleton_append, takeWhile_terminated hs]

theorem StringAt.head (h : StringAt table offset (c :: s)) : table[offset]? = some c :=
  h 0 (Nat.zero_le _)

theorem StringAt.nil (h : StringAt table offset []) : table[offset]? = some 0 :=
  h 0 le_rfl

theorem StringAt.tail (h : StringAt table offset (c :: s)) : StringAt table (offset + 1) s := by
  intro i hi
  have hnext := h (i + 1) (by simpa using hi)
  rw [show offset + 1 + i = offset + (i + 1) from by omega]
  exact hnext

theorem stringAt_copied (front rest s : List Byte) :
    StringAt (front ++ (s ++ [0]) ++ rest) front.length s := by
  intro i hi
  have hlen : i < (s ++ [0]).length := by simpa using Nat.lt_succ_of_le hi
  rw [List.append_assoc, List.getElem?_append_right (by omega), Nat.add_sub_cancel_left,
    List.getElem?_append_left hlen]

end

end AmxModC.Foundation
