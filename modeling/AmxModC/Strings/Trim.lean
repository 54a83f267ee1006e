import AmxModC.Foundation.CString
import AmxModC.Strings.Model

namespace AmxModC.Strings

open Foundation

/-! CString.h: `String::trim`, in the buffer of the string. -/

def Spells (v s : List Byte) : Prop := 0 ∉ s ∧ StringAt v 0 s

def size (v : List Byte) : Nat := (v.takeWhile (· ≠ 0)).length

def charAt (v : List Byte) (i : Nat) : Byte := v[i]?.getD 0

/-- The loop of `erase`, which goes over the old text once. -/
def eraseLoop (start num len : Nat) : Nat → Nat → Bool → List Byte → List Byte
  | 0, _, _, v => v
  | left + 1, i, copyflag, v =>
      let c := if i + num < len then charAt v (i + num) else 0
      if start ≤ i ∧ i < start + num then eraseLoop start num len left (i + 1) true (v.set i c)
      else if copyflag then eraseLoop start num len left (i + 1) copyflag (v.set i c)
      else eraseLoop start num len left (i + 1) copyflag v

def erase (v : List Byte) (start num : Nat) : List Byte :=
  let len := size v
  let num := if len - start < start + num then len - start else num
  (eraseLoop start num len len 0 false v).set (len - num) 0

/-- The loop over the leading blanks.  It compares the lower byte of `i` with the last index. -/
def leadLoop (v : List Byte) (len : Nat) : Nat → Nat → List Byte
  | 0, _ => v
  | left + 1, i =>
      if isSpace (charAt v i) = false ∨ i % 256 = len - 1 then erase v 0 i
      else leadLoop v len left (i + 1)

/-- The loop over the `j` trailing blanks that it has passed, down to the first character. -/
def tailLoop (v : List Byte) : Nat → Nat → List Byte
  | 0, j => erase v 1 j
  | i + 1, j =>
      if isSpace (charAt v (i + 1)) = false then erase v (i + 2) j else tailLoop v i (j + 1)

def clear (v : List Byte) : List Byte := v.set 0 0

def trimLead (v : List Byte) : List Byte :=
  if isSpace (charAt v 0) then leadLoop v (size v) (size v) 0 else v

def trimTail (v : List Byte) : List Byte :=
  if isSpace (charAt v (size v - 1)) then tailLoop v (size v - 1) 0 else v

def trim (v : List Byte) : List Byte :=
  if size v = 1 ∧ isSpace (charAt v 0) then clear v
  else
    let v := trimLead v
    let len := size v
    if len < 1 then v
    else
      let v := trimTail v
      -- the length is that of the text before the second loop
      if len = 1 ∧ isSpace (charAt v 0) then clear v else v

def amxTrim (amx : Amx) (params : Nat → Cell) (memory : Memory) : Option (Memory × Int) :=
  (getAmxString memory amx bufferSize (cellNumber (params 1))).map fun str =>
    let toTrim := trim (str ++ [0])
    (memory.store amx (cellNumber (params 1))
        (setChars (toTrim.takeWhile (· ≠ 0)) (size toTrim)),
      (str.length : Int) - size toTrim)

section

variable {v v' s t a b c : List Byte} {i j k start num len left : Nat}

namespace Spells

theorem takeWhile (h : Spells v s) : v.takeWhile (· ≠ 0) = s := by
  have hfront := h.2.takeWhile h.1
  rwa [List.drop_zero] at hfront

theorem unique (h : Spells v s) (h' : Spells v t) : s = t := by
  rw [← h.takeWhile, h'.takeWhile]

theorem size_eq (h : Spells v s) : size v = s.length := by
  rw [size, h.takeWhile]

theorem getElem? (h : Spells v s) (hi : i ≤ s.length) : v[i]? = (s ++ [0])[i]? := by
  have hat := h.2 i hi
  rwa [Nat.zero_add] at hat

theorem charAt_eq (h : Spells v s) (hi : i < s.length) : charAt v i = s[i] := by
  rw [charAt, h.getElem? (Nat.le_of_lt hi), List.getElem?_append_left hi,
    List.getElem?_eq_getElem hi, Option.getD_some]

theorem charAt_append {c : Byte} (h : Spells v (a ++ c :: t)) : charAt v a.length = c := by
  have hi : a.length < (a ++ c :: t).length := by
    rw [List.length_append, List.length_cons]
    omega
  rw [charAt, h.getElem? (Nat.le_of_lt hi), List.getElem?_append_left hi,
    List.getElem?_append_right le_rfl, Nat.sub_self]
  rfl

theorem charAt_zero {c : Byte} (h : Spells v (c :: t)) : charAt v 0 = c :=
  charAt_append (a := []) h

theorem length_lt (h : Spells v s) : s.length < v.length := by
  have hend := h.getElem? le_rfl
  rw [List.getElem?_concat_length] at hend
  exact (List.getElem?_eq_some_iff.mp hend).1

theorem of_getElem? (hzero : 0 ∉ s) (h : ∀ i ≤ s.length, v[i]? = (s ++ [0])[i]?) : Spells v s :=
  ⟨hzero, fun i hi => by rw [Nat.zero_add, h i hi]⟩

theorem concat (hzero : 0 ∉ s) (rest : List Byte) : Spells (s ++ 0 :: rest) s := by
  have hcopied := stringAt_copied [] rest s
  rw [List.nil_append, List.append_assoc] at hcopied
  exact ⟨hzero, hcopied⟩

theorem clear (h : Spells v s) : Spells (clear v) [] := by
  refine .of_getElem? List.not_mem_nil fun i hi => ?_
  obtain rfl := Nat.le_zero.mp hi
  rw [Strings.clear, List.getElem?_set_self (Nat.zero_lt_of_lt h.length_lt)]
  rfl

end Spells

theorem eraseLoop_none (start len left i : Nat) (v : List Byte) :
    eraseLoop start 0 len left i false v = v := by
  induction left generalizing i with
  | zero => rfl
  | succ left ih =>
      rw [eraseLoop, if_neg (by omega), if_neg Bool.false_ne_true, ih]

/-- What the loop puts in the place of the character number `i`. -/
def shifted (num len i : Nat) (v : List Byte) : Byte :=
  if i + num < len then charAt v (i + num) else 0

theorem eraseLoop_write (hnum : 0 < num) (hstart : start ≤ i) :
    eraseLoop start num len (left + 1) i (decide (start < i)) v =
      eraseLoop start num len left (i + 1) (decide (start < i + 1))
        (v.set i (shifted num len i v)) := by
  have hflag : decide (start < i + 1) = true := decide_eq_true (Nat.lt_succ_of_le hstart)
  rw [eraseLoop, hflag]
  by_cases hin : start ≤ i ∧ i < start + num
  · rw [if_pos hin]
    rfl
  · have hlt : decide (start < i) = true := decide_eq_true (by omega)
    rw [if_neg hin, if_pos hlt, hlt]
    rfl

theorem eraseLoop_keep (hstart : i < start) :
    eraseLoop start num len (left + 1) i (decide (start < i)) v =
      eraseLoop start num len left (i + 1) (decide (start < i + 1)) v := by
  have hnot : ¬ decide (start < i) = true := by
    rw [decide_eq_true_iff]
    omega
  have hflag : decide (start < i) = decide (start < i + 1) := by
    rw [decide_eq_decide]
    omega
  rw [eraseLoop, if_neg (by omega), if_neg hnot, hflag]

theorem eraseLoop_getElem? (start k : Nat) (hnum : 0 < num) (hleft : i + left = len)
    (hlen : len ≤ v.length) :
    (eraseLoop start num len left i (decide (start < i)) v)[k]? =
      if i ≤ k ∧ start ≤ k ∧ k < len then some (shifted num len k v) else v[k]? := by
  induction left generalizing i v with
  | zero => rw [eraseLoop, if_neg (by omega)]
  | succ left ih =>
      by_cases hstart : start ≤ i
      · have hset : len ≤ (v.set i (shifted num len i v)).length := by rwa [List.length_set]
        rw [eraseLoop_write hnum hstart, ih (by omega) hset]
        by_cases hk : k = i
        · have hnext : ¬ (i + 1 ≤ k ∧ start ≤ k ∧ k < len) := by omega
          have hin : i ≤ k ∧ start ≤ k ∧ k < len := by omega
          rw [if_neg hnext, if_pos hin, hk, List.getElem?_set_self (by omega)]
        · rw [List.getElem?_set_ne (Ne.symm hk)]
          refine if_ctx_congr (by omega) (fun hafter => ?_) fun _ => rfl
          have hread : charAt (v.set i (shifted num len i v)) (k + num) = charAt v (k + num) := by
            rw [charAt, List.getElem?_set_ne (by omega)]
            rfl
          rw [shifted, hread]
          rfl
      · rw [eraseLoop_keep (not_le.mp hstart), ih (by omega) hlen]
        exact if_congr (by omega) rfl rfl

theorem length_eraseLoop (start num len left i : Nat) (copyflag : Bool) (v : List Byte) :
    (eraseLoop start num len left i copyflag v).length = v.length := by
  induction left generalizing i copyflag v with
  | zero => rfl
  | succ left ih =>
      rw [eraseLoop]
      split
      next => rw [ih, List.length_set]
      next =>
          split
          next => rw [ih, List.length_set]
          next => exact ih _ _ _

theorem eraseLoop_erased (h : Spells v (a ++ b ++ c)) (hk : k < a.length + c.length) :
    (eraseLoop a.length b.length (a ++ b ++ c).length (a ++ b ++ c).length 0 false v)[k]? =
      (a ++ c)[k]? := by
  have hlength : (a ++ b ++ c).length = a.length + b.length + c.length := by
    simp only [List.length_append]
  have hlt := h.length_lt
  have hin : ∀ i < a.length + b.length + c.length, v[i]? = (a ++ b ++ c)[i]? := by
    intro i hi
    rw [h.getElem? (by omega), List.getElem?_append_left (by omega)]
  rcases Nat.eq_zero_or_pos b.length with hnil | hnum
  · obtain rfl := List.length_eq_zero_iff.mp hnil
    rw [List.length_nil, eraseLoop_none, hin k (by omega), List.append_nil]
  · have hloop := eraseLoop_getElem? a.length k (v := v) hnum
      (Nat.zero_add (a ++ b ++ c).length) (by omega)
    have hflag : decide (a.length < 0) = false := rfl
    rw [hflag] at hloop
    rw [hloop]
    by_cases hfront : k < a.length
    · rw [if_neg (by omega), hin k (by omega), List.append_assoc,
        List.getElem?_append_left hfront, List.getElem?_append_left hfront]
    · obtain ⟨j, rfl⟩ := Nat.exists_eq_add_of_le (not_lt.mp hfront)
      have hj : j < c.length := by omega
      have hplace : a.length + j + b.length = (a ++ b).length + j := by
        rw [List.length_append]
        omega
      rw [if_pos (by omega), shifted, if_pos (by omega), charAt, hin _ (by omega), hplace,
        List.getElem?_append_right (Nat.le_add_right _ _),
        List.getElem?_append_right (Nat.le_add_right _ _), Nat.add_sub_cancel_left,
        Nat.add_sub_cancel_left, List.getElem?_eq_getElem hj, Option.getD_some]

theorem erase_spells (h : Spells v (a ++ b ++ c)) (hend : a = [] ∨ c = []) :
    Spells (erase v a.length b.length) (a ++ c) := by
  have hlength : (a ++ b ++ c).length = a.length + b.length + c.length := by
    simp only [List.length_append]
  have hlt := h.length_lt
  have hzero : 0 ∉ a ++ c := by
    have hall := h.1
    simp only [List.mem_append, not_or] at hall ⊢
    exact ⟨hall.1.1, hall.2⟩
  have hnum : (if size v - a.length < a.length + b.length then size v - a.length else b.length) =
      b.length := by
    rw [h.size_eq, hlength]
    rcases hend with rfl | rfl
    · rw [List.length_nil, if_neg (by omega)]
    · rw [List.length_nil, ite_eq_right_iff]
      omega
  rw [erase, hnum, h.size_eq]
  have hplace : (a ++ b ++ c).length - b.length = (a ++ c).length := by
    rw [hlength, List.length_append]
    omega
  rw [hplace]
  refine .of_getElem? hzero fun k hk => ?_
  rw [List.length_append] at hk
  by_cases hlast : k = (a ++ c).length
  · rw [hlast, List.getElem?_set_self, List.getElem?_concat_length]
    rw [length_eraseLoop, List.length_append]
    omega
  · have hlt : k < (a ++ c).length := by
      rw [List.length_append] at hlast ⊢
      omega
    rw [List.getElem?_set_ne (Ne.symm hlast), eraseLoop_erased h (by omega),
      List.getElem?_append_left hlt]

theorem leadLoop_char {c : Byte} (h : Spells v (a ++ c :: t)) (hblank : ∀ x ∈ a, isSpace x = true)
    (hc : isSpace c = false) (hi : i ≤ a.length) (hleft : a.length < i + left) :
    leadLoop v (a ++ c :: t).length left i = erase v 0 a.length := by
  have hlength : (a ++ c :: t).length = a.length + (t.length + 1) := by
    rw [List.length_append, List.length_cons]
  induction left generalizing i with
  | zero => exact absurd hi (not_le.mpr hleft)
  | succ left ih =>
      rw [leadLoop]
      rcases Nat.lt_or_eq_of_le hi with hlt | rfl
      · have hspace : isSpace (charAt v i) = true := by
          rw [h.charAt_eq (by omega), List.getElem_append_left hlt]
          exact hblank _ (List.getElem_mem hlt)
        have hmod := Nat.mod_le i 256
        rw [if_neg, ih hlt (by omega)]
        rintro (hother | hlast)
        · exact Bool.false_ne_true (hother.symm.trans hspace)
        · omega
      · rw [h.charAt_append, if_pos (.inl hc)]

theorem leadLoop_blank (h : Spells v s) (hblank : ∀ x ∈ s, isSpace x = true)
    (hleft : i + left = s.length) (hpos : 0 < left) :
    leadLoop v s.length left i = if s.length ≤ 256 then erase v 0 (s.length - 1) else v := by
  induction left generalizing i with
  | zero => exact absurd hpos (Nat.lt_irrefl 0)
  | succ left ih =>
      have hspace : isSpace (charAt v i) = true := by
        rw [h.charAt_eq (by omega)]
        exact hblank _ (List.getElem_mem _)
      have hmod := Nat.mod_lt i (by decide : 0 < 256)
      rw [leadLoop, hspace]
      by_cases hlast : i % 256 = s.length - 1
      · have hshort : s.length ≤ 256 := by omega
        have hsame := Nat.mod_le i 256
        have hplace : i = s.length - 1 := by omega
        rw [if_pos (.inr hlast), if_pos hshort, hplace]
      · rw [if_neg (by simpa using hlast)]
        cases left with
        | zero =>
            have hlong : ¬ s.length ≤ 256 := fun hle => hlast (by
              rw [Nat.mod_eq_of_lt (by omega)]
              omega)
            rw [if_neg hlong]
            rfl
        | succ left => exact ih (by omega) (Nat.succ_pos _)

theorem tailLoop_char {c : Byte} (h : Spells v (a ++ c :: t)) (hblank : ∀ x ∈ t, isSpace x = true)
    (hc : isSpace c = false) (hi : i ≤ t.length) :
    tailLoop v (a.length + i) j = erase v (a.length + 1) (j + i) := by
  have hlength : (a ++ c :: t).length = a.length + (t.length + 1) := by
    rw [List.length_append, List.length_cons]
  induction i generalizing j with
  | zero =>
      have hother : isSpace (charAt v a.length) = false := by rwa [h.charAt_append]
      cases hfront : a.length with
      | zero => rfl
      | succ n =>
          rw [hfront] at hother
          rw [Nat.add_zero, tailLoop, if_pos hother]
          rfl
  | succ i ih =>
      have hspace : isSpace (charAt v (a.length + i + 1)) = true := by
        rw [h.charAt_eq (by omega), List.getElem_append_right (by omega)]
        have hin : a.length + i + 1 - a.length = i + 1 := by omega
        simp only [hin, List.getElem_cons_succ]
        exact hblank _ (List.getElem_mem _)
      rw [← Nat.add_assoc, tailLoop, hspace, if_neg (by decide), ih (by omega)]
      congr 1
      omega

theorem tailLoop_blank (hblank : ∀ k ≤ i, isSpace (charAt v k) = true) :
    tailLoop v i j = erase v 1 (j + i) := by
  induction i generalizing j with
  | zero => rfl
  | succ i ih =>
      rw [tailLoop, hblank (i + 1) le_rfl, if_neg (by decide),
        ih fun k hk => hblank k (Nat.le_succ_of_le hk)]
      congr 1
      omega

theorem trimLead_spells {c : Byte} (h : Spells v (a ++ c :: t))
    (hblank : ∀ x ∈ a, isSpace x = true) (hc : isSpace c = false) :
    Spells (trimLead v) (c :: t) := by
  rw [trimLead]
  cases a with
  | nil =>
      have hother : ¬ isSpace (charAt v 0) = true := by
        rw [h.charAt_zero, hc]
        exact Bool.false_ne_true
      rw [if_neg hother]
      exact h
  | cons x a =>
      have hspace : isSpace (charAt v 0) = true := by
        rw [h.charAt_zero]
        exact hblank x List.mem_cons_self
      have hleft : (x :: a).length < 0 + (x :: a ++ c :: t).length := by
        simp only [List.length_append, List.length_cons]
        omega
      rw [if_pos hspace, h.size_eq, leadLoop_char h hblank hc (Nat.zero_le _) hleft]
      exact erase_spells (a := []) h (.inl rfl)

theorem trimTail_spells {c : Byte} (h : Spells v (a ++ c :: t))
    (hblank : ∀ x ∈ t, isSpace x = true) (hc : isSpace c = false) :
    Spells (trimTail v) (a ++ [c]) := by
  have hlast : size v - 1 = a.length + t.length := by
    rw [h.size_eq, List.length_append, List.length_cons]
    omega
  rw [trimTail, hlast]
  rcases List.eq_nil_or_concat t with rfl | ⟨u, x, hu⟩
  · have hother : ¬ isSpace (charAt v a.length) = true := by
      rw [h.charAt_append, hc]
      exact Bool.false_ne_true
    rw [List.length_nil, Nat.add_zero, if_neg hother]
    exact h
  · have hspace : isSpace (charAt v (a.length + t.length)) = true := by
      have hplace : a.length + t.length = (a ++ c :: u).length := by
        rw [hu]
        simp only [List.length_append, List.length_cons, List.length_concat]
      have hsplit : a ++ c :: t = (a ++ c :: u) ++ x :: [] := by
        rw [hu, List.concat_eq_append, List.append_assoc, List.cons_append]
      rw [hsplit] at h
      rw [hplace, h.charAt_append]
      refine hblank x ?_
      rw [hu, List.concat_eq_append]
      exact List.mem_append_right u List.mem_cons_self
    have hsplit : a ++ c :: t = (a ++ [c]) ++ t ++ [] := by
      rw [List.append_nil, List.append_assoc, List.singleton_append]
    have herased := erase_spells (hsplit ▸ h) (.inr rfl)
    rw [List.append_nil, List.length_append, List.length_singleton] at herased
    rw [if_pos hspace, tailLoop_char h hblank hc le_rfl, Nat.zero_add]
    exact herased

theorem trim_eq (hone : ¬ (size v = 1 ∧ isSpace (charAt v 0) = true))
    (hlead : Spells (trimLead v) t) (hne : t ≠ []) :
    trim v =
      if t.length = 1 ∧ isSpace (charAt (trimTail (trimLead v)) 0) = true then
        clear (trimTail (trimLead v))
      else trimTail (trimLead v) := by
  have hpos := List.length_pos_iff.mpr hne
  rw [trim, if_neg hone]
  dsimp only
  rw [hlead.size_eq, if_neg (by omega)]

theorem trim_spells {x y : Byte} (h : Spells v (a ++ s ++ b)) (ha : ∀ x ∈ a, isSpace x = true)
    (hb : ∀ x ∈ b, isSpace x = true) (hhead : s = x :: t) (hx : isSpace x = false)
    (hlast : s = c ++ [y]) (hy : isSpace y = false) : Spells (trim v) s := by
  have hfront : a ++ s ++ b = a ++ x :: (t ++ b) := by
    rw [hhead, List.append_assoc, List.cons_append]
  rw [hfront] at h
  have hone : ¬ (size v = 1 ∧ isSpace (charAt v 0) = true) := by
    rintro ⟨hone, hspace⟩
    rw [h.size_eq, List.length_append, List.length_cons] at hone
    obtain rfl : a = [] := List.length_eq_zero_iff.mp (by omega)
    rw [h.charAt_zero, hx] at hspace
    exact Bool.false_ne_true hspace
  have hlead := trimLead_spells h ha hx
  have hback : x :: (t ++ b) = c ++ y :: b := by
    rw [← List.cons_append, ← hhead, hlast, List.append_assoc, List.singleton_append]
  have htail := trimTail_spells (hback ▸ hlead) hb hy
  rw [← hlast] at htail
  have hcons : Spells (trimTail (trimLead v)) (x :: t) := hhead ▸ htail
  have hother : ¬ isSpace (charAt (trimTail (trimLead v)) 0) = true := by
    rw [hcons.charAt_zero, hx]
    exact Bool.false_ne_true
  rw [trim_eq hone hlead (List.cons_ne_nil _ _), if_neg fun h => hother h.2]
  exact htail

theorem trim_nil (h : Spells v []) : Spells (trim v) [] := by
  have hsize : size v = 0 := h.size_eq
  have hzero : ¬ isSpace (charAt v 0) = true := by
    rw [charAt, h.getElem? (i := 0) le_rfl]
    decide
  have hlead : trimLead v = v := if_neg hzero
  rw [trim, hlead, if_neg fun h => hzero h.2]
  dsimp only
  rw [hsize, if_pos Nat.zero_lt_one]
  exact h

theorem trim_one {x : Byte} (h : Spells v [x]) (hx : isSpace x = true) : Spells (trim v) [] := by
  have hone : size v = 1 ∧ isSpace (charAt v 0) = true := ⟨h.size_eq, by rwa [h.charAt_zero]⟩
  rw [trim, if_pos hone]
  exact h.clear

theorem trimTail_blank (h : Spells v (c ++ s)) (hc : c.length = 1)
    (hblank : ∀ x ∈ c ++ s, isSpace x = true) : Spells (trimTail v) c := by
  have hlast : size v - 1 = s.length := by
    rw [h.size_eq, List.length_append]
    omega
  have hspace : ∀ k ≤ s.length, isSpace (charAt v k) = true := by
    intro k hk
    rw [h.charAt_eq (by rw [List.length_append]; omega)]
    exact hblank _ (List.getElem_mem _)
  have hsplit : c ++ s = c ++ s ++ [] := (List.append_nil _).symm
  have herased := erase_spells (hsplit ▸ h) (.inr rfl)
  rw [List.append_nil, hc] at herased
  rw [trimTail, hlast, if_pos (hspace s.length le_rfl), tailLoop_blank hspace, Nat.zero_add]
  exact herased

theorem trim_blank {x : Byte} (h : Spells v (x :: s)) (hblank : ∀ y ∈ x :: s, isSpace y = true)
    (htwo : s ≠ []) : Spells (trim v) (if (x :: s).length ≤ 256 then [] else [x]) := by
  have hpos := List.length_pos_iff.mpr htwo
  have hlength : (x :: s).length = s.length + 1 := List.length_cons
  have hone : ¬ (size v = 1 ∧ isSpace (charAt v 0) = true) := by
    rw [h.size_eq]
    omega
  have hspace : isSpace (charAt v 0) = true := by
    rw [h.charAt_zero]
    exact hblank x List.mem_cons_self
  have hlead : trimLead v = if (x :: s).length ≤ 256 then erase v 0 s.length else v := by
    rw [trimLead, if_pos hspace, h.size_eq,
      leadLoop_blank h hblank (Nat.zero_add _) (by omega), hlength, Nat.add_sub_cancel]
  by_cases hshort : (x :: s).length ≤ 256
  · rw [if_pos hshort] at hlead ⊢
    obtain ⟨u, y, hu⟩ := List.eq_nil_or_concat s |>.resolve_left htwo
    have hsplit : x :: s = [] ++ (x :: u) ++ [y] := by
      rw [hu, List.concat_eq_append]
      rfl
    have hy : isSpace y = true := by
      refine hblank y ?_
      rw [hsplit]
      exact List.mem_append_right _ List.mem_cons_self
    have hcount : s.length = (x :: u).length := by
      rw [hu, List.length_concat, List.length_cons]
    have herased : Spells (trimLead v) ([y] ++ []) := by
      rw [hlead, hcount]
      exact erase_spells (a := []) (hsplit ▸ h) (.inl rfl)
    have htail := trimTail_blank herased rfl fun z hz => by
      rwa [List.mem_singleton.mp hz]
    have hleft : ([y] ++ [] : List Byte).length = 1 ∧
        isSpace (charAt (trimTail (trimLead v)) 0) = true := by
      rw [htail.charAt_zero]
      exact ⟨rfl, hy⟩
    rw [trim_eq hone herased (List.cons_ne_nil _ _), if_pos hleft]
    exact htail.clear
  · rw [if_neg hshort] at hlead ⊢
    have htail := trimTail_blank (c := [x]) h rfl hblank
    have hlong : ¬ ((x :: s).length = 1 ∧ isSpace (charAt (trimTail v) 0) = true) := by omega
    rw [trim_eq hone (hlead.symm ▸ h) (List.cons_ne_nil _ _), hlead, if_neg hlong]
    exact htail

end

structure Strips (s t : List Byte) : Prop where
  split : ∃ front back, s = front ++ t ++ back ∧ (∀ x ∈ front, isSpace x = true) ∧
    ∀ x ∈ back, isSpace x = true
  head : ∀ x ∈ t.head?, isSpace x = false
  last : ∀ x ∈ t.getLast?, isSpace x = false

/-- `trim` strips the text in the buffer, another `trim` changes nothing, and nothing is
left of blanks alone. -/
def Trims (v s : List Byte) : Prop :=
  ∃ t, Spells (trim v) t ∧ Strips s t ∧ Spells (trim (trim v)) t ∧
    (t = [] ↔ ∀ x ∈ s, isSpace x = true)

section

variable {v s t : List Byte} {memory : Memory} {amx : Amx} {params : Nat → Cell}

theorem exists_leading (h : ∃ x ∈ s, isSpace x = false) :
    ∃ front x rest, s = front ++ x :: rest ∧ (∀ y ∈ front, isSpace y = true) ∧
      isSpace x = false := by
  induction s with
  | nil =>
      obtain ⟨x, hmem, -⟩ := h
      cases hmem
  | cons c s ih =>
      cases hc : isSpace c with
      | false => exact ⟨[], c, s, rfl, fun y hy => absurd hy List.not_mem_nil, hc⟩
      | true =>
          obtain ⟨z, hmem, hz⟩ := h
          have hin : z ∈ s := by
            refine (List.mem_cons.mp hmem).resolve_left fun heq => ?_
            rw [heq, hc] at hz
            cases hz
          obtain ⟨front, x, rest, rfl, hfront, hx⟩ := ih ⟨z, hin, hz⟩
          exact ⟨c :: front, x, rest, rfl, List.forall_mem_cons.mpr ⟨hc, hfront⟩, hx⟩

theorem exists_trailing (h : ∃ x ∈ s, isSpace x = false) :
    ∃ rest x back, s = rest ++ x :: back ∧ (∀ y ∈ back, isSpace y = true) ∧
      isSpace x = false := by
  obtain ⟨z, hmem, hz⟩ := h
  obtain ⟨front, x, rest, hs, hfront, hx⟩ := exists_leading ⟨z, List.mem_reverse.mpr hmem, hz⟩
  refine ⟨rest.reverse, x, front.reverse, ?_, fun y hy => hfront y (List.mem_reverse.mp hy), hx⟩
  rw [← List.reverse_reverse s, hs, List.reverse_append, List.reverse_cons, List.append_assoc,
    List.singleton_append]

theorem strips_blank (h : ∀ x ∈ s, isSpace x = true) : Strips s [] where
  split := ⟨s, [], by rw [List.append_nil, List.append_nil], h, fun _ hx => nomatch hx⟩
  head := fun _ hx => nomatch hx
  last := fun _ hx => nomatch hx

theorem trim_strips (h : Spells v s) (hother : ∃ x ∈ s, isSpace x = false) :
    ∃ t, t ≠ [] ∧ Strips s t ∧ Spells (trim v) t ∧ Spells (trim (trim v)) t := by
  obtain ⟨front, x, rest, rfl, hfront, hx⟩ := exists_leading hother
  obtain ⟨w, y, back, hrest, hback, hy⟩ :=
    exists_trailing (s := x :: rest) ⟨x, List.mem_cons_self, hx⟩
  have hhead : ∃ u, w ++ [y] = x :: u := by
    cases w with
    | nil => exact ⟨[], by rw [(List.cons.inj hrest).1]; rfl⟩
    | cons z w => exact ⟨w ++ [y], by rw [(List.cons.inj hrest).1]; rfl⟩
  obtain ⟨u, hu⟩ := hhead
  have hsplit : front ++ x :: rest = front ++ (w ++ [y]) ++ back := by
    rw [hrest, List.append_assoc, List.append_assoc, List.singleton_append]
  rw [hsplit] at h ⊢
  have htrim := trim_spells h hfront hback hu hx rfl hy
  have hnone : ∀ x ∈ ([] : List Byte), isSpace x = true := fun _ hx => absurd hx List.not_mem_nil
  have hsame : Spells (trim v) ([] ++ (w ++ [y]) ++ []) := by
    rwa [List.append_nil]
  refine ⟨w ++ [y], ?_, ⟨⟨front, back, rfl, hfront, hback⟩, ?_, ?_⟩, htrim,
    trim_spells hsame hnone hnone hu hx rfl hy⟩
  · rw [hu]
    exact List.cons_ne_nil _ _
  · rw [hu]
    rintro z ⟨⟩
    exact hx
  · rw [List.getLast?_concat]
    rintro z ⟨⟩
    exact hy

/-- A text is trimmed if it has at most 256 characters or other characters than blanks, and
not otherwise. -/
theorem trim_trims_iff (h : Spells v s) :
    Trims v s ↔ s.length ≤ 256 ∨ ∃ x ∈ s, isSpace x = false := by
  by_cases hother : ∃ x ∈ s, isSpace x = false
  · obtain ⟨t, hne, hstrips, htrim, hagain⟩ := trim_strips h hother
    refine iff_of_true ⟨t, htrim, hstrips, hagain, ?_⟩ (.inr hother)
    refine iff_of_false hne fun hblank => ?_
    obtain ⟨x, hmem, hx⟩ := hother
    rw [hblank x hmem] at hx
    cases hx
  · rw [or_iff_left hother]
    have hblank : ∀ x ∈ s, isSpace x = true := fun x hx =>
      Bool.of_not_eq_false fun hfalse => hother ⟨x, hx, hfalse⟩
    have hempty : Spells (trim v) [] → Trims v s := fun hnil =>
      ⟨[], hnil, strips_blank hblank, trim_nil hnil, iff_of_true rfl hblank⟩
    match s, h, hblank with
    | [], h, _ => exact iff_of_true (hempty (trim_nil h)) (Nat.zero_le _)
    | [x], h, hblank =>
        have hshort : [x].length ≤ 256 := List.length_singleton.trans_le (by decide)
        exact iff_of_true (hempty (trim_one h (hblank x List.mem_cons_self))) hshort
    | x :: y :: rest, h, hblank =>
        have htrim := trim_blank h hblank (List.cons_ne_nil _ _)
        by_cases hshort : (x :: y :: rest).length ≤ 256
        · rw [if_pos hshort] at htrim
          exact iff_of_true (hempty htrim) hshort
        · rw [if_neg hshort] at htrim
          refine iff_of_false ?_ hshort
          rintro ⟨t, ht, -, -, hnil⟩
          obtain rfl := ht.unique htrim
          exact List.cons_ne_nil _ _ (hnil.mpr hblank)

end

theorem trim_trims_word :
    Trims [32, 97, 32, 0] [32, 97, 32] := by
  have h : Spells [32, 97, 32, 0] [32, 97, 32] := Spells.concat (by decide) []
  exact (trim_trims_iff h).mpr (.inr ⟨97, by decide, rfl⟩)

/-- Of 257 blanks one is left. -/
theorem trim_leaves_a_blank :
    ¬ ∀ v s : List Byte, Spells v s → Trims v s := by
  intro h
  have hzero : (0 : Byte) ∉ List.replicate 257 (32 : Byte) := fun hmem =>
    absurd (List.eq_of_mem_replicate hmem) (by decide)
  have hblank : ∀ x ∈ List.replicate 257 (32 : Byte), isSpace x = true := fun x hx => by
    rw [List.eq_of_mem_replicate hx]
    rfl
  have hspells := Spells.concat hzero []
  obtain ⟨t, ht, -, -, hnil⟩ := h _ _ hspells
  have hmore : List.replicate 256 (32 : Byte) ≠ [] := by
    rw [Ne, List.replicate_eq_nil_iff]
    decide
  have htrim := trim_blank (x := 32) hspells hblank hmore
  rw [List.length_cons, List.length_replicate, if_neg (by decide)] at htrim
  obtain rfl := ht.unique htrim
  exact List.cons_ne_nil _ _ (hnil.mpr hblank)

end AmxModC.Strings
