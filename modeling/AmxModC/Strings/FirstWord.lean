import AmxModC.Strings.Arguments

namespace AmxModC.Strings

open Foundation

/-! What `strbreak` is for: the first word of a string and the rest of it. -/

def firstWord : List Byte → List Byte × List Byte
  | [] => ([], [])
  | c :: t =>
      if c = 34 ∧ 34 ∈ t then (t.takeWhile (· ≠ 34), (t.dropWhile (· ≠ 34)).tail)
      else ((c :: t).takeWhile fun c => !isSpace c, (c :: t).dropWhile fun c => !isSpace c)

def breakWord (string : List Byte) : List Byte × List Byte :=
  let (word, rest) := firstWord (string.dropWhile isSpace)
  (word, rest.dropWhile isSpace)

def outside : Bool → List Byte → List Byte × List Byte
  | _, [] => ([], [])
  | inQuote, c :: t =>
      if c = 34 then (c :: (outside (!inQuote) t).1, (outside (!inQuote) t).2)
      else if isSpace c && !inQuote then ([], c :: t)
      else (c :: (outside inQuote t).1, (outside inQuote t).2)

def closes : Bool → List Byte → Bool
  | _, [] => false
  | inQuote, c :: t =>
      if t = [] then c = 34 && inQuote else closes (if c = 34 then !inQuote else inQuote) t

section

variable {string t v w : List Byte} {fuel i : Nat} {inQuote hadQuotes : Bool}

/-- Where the loop jumps to `do_copy`, and with what value of `had_quotes`. -/
def found (string : List Byte) (i : Nat) (inQuote hadQuotes : Bool) (t : List Byte) :
    Option (Nat × Bool) :=
  if (outside inQuote t).2 = [] then
    if closes inQuote t then some (string.length - 1, true) else none
  else some (i + (outside inQuote t).1.length, hadQuotes || (outside inQuote t).1.contains 34)

theorem found_next {c : Byte} {inQuote' hadQuotes' : Bool}
    (houtside : outside inQuote (c :: t) = (c :: (outside inQuote' t).1, (outside inQuote' t).2))
    (hcloses : closes inQuote (c :: t) = closes inQuote' t)
    (hhad : (hadQuotes || 34 == c) = hadQuotes') :
    found string (i + 1) inQuote' hadQuotes' t = found string i inQuote hadQuotes (c :: t) := by
  rw [found, found, houtside, hcloses, List.length_cons, List.contains_cons, ← Bool.or_assoc,
    hhad, Nat.add_assoc, Nat.add_comm 1]

theorem closes_other {c : Byte} (hc : c ≠ 34) (t : List Byte) :
    closes inQuote (c :: t) = closes inQuote t := by
  rw [closes, decide_eq_false hc, Bool.false_and, if_neg hc]
  split
  next ht => rw [ht]; rfl
  next => rfl

theorem closes_opening (t : List Byte) : closes false (34 :: t) = closes true t := by
  rw [closes]
  split
  next ht => rw [ht]; rfl
  next => rfl

theorem scanWord_eq (h : string.drop i = t) (hi : i ≤ string.length) (hfuel : t.length < fuel)
    (hhad : inQuote = true → hadQuotes = true) :
    scanWord string fuel i inQuote hadQuotes = some (found string i inQuote hadQuotes t) := by
  induction fuel generalizing i t inQuote hadQuotes with
  | zero => exact absurd hfuel (Nat.not_lt_zero _)
  | succ fuel ih =>
      cases t with
      | nil =>
          have hend : ¬ i < string.length := Nat.not_lt_of_le (List.drop_eq_nil_iff.mp h)
          rw [scanWord, if_neg hend]
          rfl
      | cons c t =>
          have hlength := congrArg List.length h
          rw [List.length_drop, List.length_cons] at hlength
          have hlast : i = string.length - 1 ↔ t = [] := by
            rw [← List.length_eq_zero_iff]
            omega
          have hgo : ∀ inQuote hadQuotes, (inQuote = true → hadQuotes = true) →
              scanWord string fuel (i + 1) inQuote hadQuotes =
                some (found string (i + 1) inQuote hadQuotes t) := fun inQuote hadQuotes =>
            ih (drop_next h) (by omega) (Nat.lt_of_succ_lt_succ hfuel)
          rw [scanWord, if_pos (by omega), read_cons h, Option.bind_some]
          by_cases hc : c = 34
          · subst hc
            cases inQuote with
            | false =>
                refine (hgo true true fun _ => rfl).trans (congrArg some ?_)
                exact found_next rfl (closes_opening t) (Bool.or_true _)
            | true =>
                cases hhad rfl
                rw [if_neg (fun hfalse => nomatch hfalse.2), if_pos ⟨rfl, rfl⟩]
                split
                next hi =>
                    cases hlast.mp hi
                    rw [hi]
                    rfl
                next hi =>
                    refine (hgo false true fun hfalse => nomatch hfalse).trans (congrArg some ?_)
                    refine found_next rfl ?_ rfl
                    rw [closes, if_neg (mt hlast.mpr hi), if_pos rfl, Bool.not_true]
          · rw [if_neg fun hquote => hc hquote.1, if_neg fun hquote => hc hquote.1]
            split
            next hspace =>
                have houtside : outside inQuote (c :: t) = ([], c :: t) := by
                  rw [outside, if_neg hc, if_pos]
                  rw [hspace.1, hspace.2]
                  rfl
                rw [found, houtside, if_neg (List.cons_ne_nil _ _), List.contains_nil,
                  Bool.or_false]
                rfl
            next hspace =>
                refine (hgo inQuote hadQuotes hhad).trans (congrArg some ?_)
                refine found_next ?_ (closes_other hc t) ?_
                · rw [outside, if_neg hc, if_neg]
                  rw [Bool.and_eq_true, Bool.not_eq_true']
                  exact hspace
                · rw [beq_false_of_ne (Ne.symm hc), Bool.or_false]

theorem outside_append (inQuote : Bool) (t : List Byte) :
    (outside inQuote t).1 ++ (outside inQuote t).2 = t := by
  induction t generalizing inQuote with
  | nil => rfl
  | cons c t ih =>
      rw [outside]
      split
      next => exact congrArg (c :: ·) (ih _)
      next =>
          split
          next => rfl
          next => exact congrArg (c :: ·) (ih _)

theorem outside_plain (h : 34 ∉ (outside false t).1) : outside false t =
    (t.takeWhile (fun c => !isSpace c), t.dropWhile fun c => !isSpace c) := by
  induction t with
  | nil => rfl
  | cons c t ih =>
      rw [outside] at h ⊢
      rw [List.takeWhile_cons, List.dropWhile_cons]
      split
      next hc =>
          rw [if_pos hc, hc] at h
          exact absurd List.mem_cons_self h
      next hc =>
          rw [if_neg hc] at h
          cases hspace : isSpace c with
          | true => rfl
          | false =>
              rw [hspace] at h
              have hrest := ih fun hmem => h (List.mem_cons_of_mem c hmem)
              simp only [hrest]
              rfl

theorem outside_quoted (hquote : 34 ∉ v) (w : List Byte) : outside true (v ++ 34 :: w) =
    (v ++ 34 :: (outside false w).1, (outside false w).2) := by
  induction v with
  | nil => rfl
  | cons c v ih =>
      rw [List.mem_cons, not_or] at hquote
      rw [List.cons_append, outside, if_neg (Ne.symm hquote.1), Bool.not_true, Bool.and_false,
        if_neg Bool.false_ne_true, ih hquote.2]
      rfl

theorem outside_unclosed (hquote : 34 ∉ v) : outside true v = (v, []) := by
  induction v with
  | nil => rfl
  | cons c v ih =>
      rw [List.mem_cons, not_or] at hquote
      rw [outside, if_neg (Ne.symm hquote.1), Bool.not_true, Bool.and_false,
        if_neg Bool.false_ne_true, ih hquote.2]

theorem closes_unclosed (hquote : 34 ∉ v) : closes true v = false := by
  induction v with
  | nil => rfl
  | cons c v ih =>
      rw [List.mem_cons, not_or] at hquote
      rw [closes_other (Ne.symm hquote.1), ih hquote.2]

theorem even_quotes (h : (outside inQuote t).2 ≠ [] ∨ closes inQuote t = true) :
    ((outside inQuote t).1.count 34 + inQuote.toNat) % 2 = 0 := by
  induction t generalizing inQuote with
  | nil =>
      rcases h with h | h
      · exact absurd rfl h
      · exact absurd h Bool.false_ne_true
  | cons c t ih =>
      by_cases hc : c = 34
      · subst hc
        rw [outside, if_pos rfl] at h ⊢
        rw [List.count_cons_self]
        by_cases ht : t = []
        · rw [ht] at h ⊢
          cases inQuote with
          | true => rfl
          | false =>
              rcases h with h | h
              · exact absurd rfl h
              · exact absurd h Bool.false_ne_true
        · have hrest : ((outside (!inQuote) t).1.count 34 + (!inQuote).toNat) % 2 = 0 := by
            refine ih (h.imp id fun hcloses => ?_)
            rw [closes, if_neg ht, if_pos rfl] at hcloses
            exact hcloses
          cases inQuote <;> simp only [Bool.not_true, Bool.not_false, Bool.toNat_true,
            Bool.toNat_false] at hrest ⊢ <;> omega
      · rw [outside, if_neg hc] at h ⊢
        split
        next hspace =>
            rw [Bool.and_eq_true, Bool.not_eq_true'] at hspace
            rw [hspace.2]
            rfl
        next hspace =>
            rw [if_neg hspace] at h
            rw [List.count_cons_of_ne hc]
            exact ih (h.imp id fun hcloses => (closes_other hc t).symm.trans hcloses)

/-! The first word beside what lies outside of quotes. -/

theorem firstWord_plain (h : 34 ∉ (outside false t).1) : firstWord t = outside false t := by
  cases t with
  | nil => rfl
  | cons c t =>
      have hc : c ≠ 34 := by
        rintro rfl
        exact h List.mem_cons_self
      rw [outside_plain h, firstWord, if_neg fun hquote => hc hquote.1]

theorem firstWord_quoted (hv : 34 ∉ v) (w : List Byte) :
    firstWord (34 :: (v ++ 34 :: w)) = (v, w) := by
  have hall : ∀ c ∈ v, decide (c ≠ 34) = true := fun c hc =>
    decide_eq_true fun hquote => hv (hquote ▸ hc)
  rw [firstWord, if_pos ⟨rfl, List.mem_append_right v List.mem_cons_self⟩,
    List.takeWhile_append_of_pos hall, List.dropWhile_append_of_pos hall]
  simp

theorem firstWord_other {c : Byte} (h : ¬ (c = 34 ∧ 34 ∈ t)) :
    firstWord (c :: t) = ((c :: t).takeWhile (fun c => !isSpace c),
      (c :: t).dropWhile fun c => !isSpace c) := by
  rw [firstWord, if_neg h]

theorem outside_open (hv : 34 ∉ v) :
    (outside false (34 :: v)).2 = [] ∧ closes false (34 :: v) = false := by
  refine ⟨?_, ?_⟩
  · rw [outside, if_pos rfl, Bool.not_false, outside_unclosed hv]
  · rw [closes_opening, closes_unclosed hv]

end

/-! The word and the rest beside what the loop finds. -/

section

variable {string trimmed t v w : List Byte} {c : Byte} {lead max : Nat}

theorem firstWord_infix (t : List Byte) : (firstWord t).1 <:+: t ∧ (firstWord t).2 <:+ t := by
  cases t with
  | nil => exact ⟨List.infix_rfl, List.suffix_rfl⟩
  | cons c t =>
      rw [firstWord]
      split
      next =>
          refine ⟨(List.takeWhile_prefix _).isInfix.trans (List.suffix_cons c t).isInfix, ?_⟩
          exact ((List.tail_suffix _).trans (List.dropWhile_suffix _)).trans (List.suffix_cons c t)
      next => exact ⟨(List.takeWhile_prefix _).isInfix, List.dropWhile_suffix _⟩

theorem breakWord_infix (string : List Byte) :
    (breakWord string).1 <:+: string ∧ (breakWord string).2 <:+ string := by
  obtain ⟨hword, hrest⟩ := firstWord_infix (string.dropWhile isSpace)
  have htrim := List.dropWhile_suffix isSpace (l := string)
  exact ⟨hword.trans htrim.isInfix, ((List.dropWhile_suffix _).trans hrest).trans htrim⟩

theorem head_trimmed (h : string.dropWhile isSpace = c :: t) : isSpace c = false := by
  have hhead := List.head?_dropWhile_not isSpace string
  rw [h] at hhead
  simpa using hhead

theorem exists_quoted (h : 34 ∈ t) : ∃ v w, 34 ∉ v ∧ t = v ++ 34 :: w := by
  obtain ⟨v, w, rfl, hv⟩ := List.eq_append_cons_of_mem h
  exact ⟨v, w, hv, rfl⟩

theorem outside_both (hv : 34 ∉ v) (w : List Byte) :
    outside false (34 :: (v ++ 34 :: w)) =
      (34 :: (v ++ 34 :: (outside false w).1), (outside false w).2) := by
  rw [outside, if_pos rfl, Bool.not_false, outside_quoted hv]

theorem outside_space (h : w.dropWhile isSpace = []) : outside false w = ([], w) := by
  cases w with
  | nil => rfl
  | cons c w =>
      have hspace : isSpace c = true := List.dropWhile_eq_nil_iff.mp h c List.mem_cons_self
      have hc : c ≠ 34 := by
        rintro rfl
        exact absurd hspace (by decide)
      rw [outside, if_neg hc, if_pos]
      rw [hspace]
      rfl

theorem closes_quoted (hv : 34 ∉ v) : closes true (v ++ [34]) = true := by
  induction v with
  | nil => rfl
  | cons c v ih =>
      rw [List.mem_cons, not_or] at hv
      rw [List.cons_append, closes_other (Ne.symm hv.1), ih hv.2]

theorem closes_both (hv : 34 ∉ v) : closes false (34 :: (v ++ [34])) = true := by
  rw [closes_opening, closes_quoted hv]

theorem word_starts (hafter : (outside false t).2 = []) (hcloses : closes false t = false)
    (hrest : (firstWord t).2.dropWhile isSpace = []) : (firstWord t).1 <+: t := by
  cases t with
  | nil => exact List.prefix_rfl
  | cons c t =>
      by_cases hquote : c = 34 ∧ 34 ∈ t
      · obtain ⟨rfl, hmem⟩ := hquote
        obtain ⟨v, w, hv, rfl⟩ := exists_quoted hmem
        rw [firstWord_quoted hv] at hrest
        rw [outside_both hv, outside_space hrest] at hafter
        dsimp only at hafter
        rw [hafter, closes_both hv] at hcloses
        cases hcloses
      · rw [firstWord_other hquote]
        exact List.takeWhile_prefix _

end

/-! The condition. -/

def LengthAgrees (lead : Nat) (straight : Prop) (size max : Nat) : Prop :=
  max = 0 ∨ max = lead + size ∨ (lead = 0 ∧ max ≤ size) ∨ (straight ∧ lead + size ≤ max)

def CharsAgree (lead max : Nat) (front : List Byte) : Prop :=
  max = 0 ∨ (lead = 0 ∧ front.take (max + 1) = List.replicate (max + 1) (front.headD 0))

/-- What goes to `Right`, of what follows the part outside of quotes. -/
def remainder (after : List Byte) : List Byte :=
  if after = [] then [34] else after.dropWhile isSpace

/-- The strings and limits for which `strbreak` does what it is for. -/
def Breakable (string : List Byte) (leftMax rightMax : Nat) : Prop :=
  let (word, rest) := breakWord string
  let trimmed := string.dropWhile isSpace
  let lead := string.length - trimmed.length
  let (front, after) := outside false trimmed
  if after = [] ∧ closes false trimmed = false then
    rightMax ≠ 0 ∧ rest = [] ∧ (word = front ∨ leftMax ≤ word.length)
  else
    (if 34 ∈ front ∧ front.head? ≠ some 34 then CharsAgree lead leftMax front
      else
        let straight := 34 ∉ front ∨ front = 34 :: (word ++ [34]) ∧ (after = [] ∨ rest.length ≠ 1)
        LengthAgrees lead straight word.length leftMax) ∧
      (remainder after).take rightMax = rest.take rightMax

end AmxModC.Strings
