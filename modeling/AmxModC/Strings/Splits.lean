import AmxModC.Strings.Copies

namespace AmxModC.Strings

open Foundation

/-! What the native is to write. -/

/-- The word and the rest, each cut to its limit and terminated; behind the terminator of
`Right` there may be another, within the limit. -/
def SplitsInto (word rest : List Byte) (leftMax rightMax : Cell) (written : Option Written) :
    Prop :=
  ∃ pad : List Cell, (∀ cell ∈ pad, cell = 0) ∧
    (0 ≤ rightMax.toInt →
      ((setChars rest rightMax.toInt ++ pad).length : Int) ≤ rightMax.toInt + 1) ∧
    written = some
      ⟨setChars word leftMax.toInt, some (setChars rest rightMax.toInt ++ pad)⟩

section

variable {word rest trimmed source z : List Byte} {leftMax rightMax : Cell} {pad : List Cell}
  {lead count : Nat}

theorem noNul_take {text : List Byte} (h : 0 ∉ text) (n : Nat) : 0 ∉ text.take n :=
  fun hmem => h (List.mem_of_mem_take hmem)

theorem splitsInto_broken (hword : 0 ∉ word) (hrest : 0 ∉ rest) (hsource : 0 ∉ source)
    (hz : 0 ∉ z) (hwordSize : word.length < bufferSize) (hrestSize : rest.length < bufferSize)
    (hpad : ∀ cell ∈ pad, cell = 0)
    (hroom : (z.take rightMax.toNat).length + pad.length ≤ rightMax.toNat) :
    SplitsInto word rest leftMax rightMax
        ((leftText lead count leftMax.toNat source).map fun text =>
          ⟨toCells text ++ [0], some (toCells (z.take rightMax.toNat) ++ 0 :: pad)⟩) ↔
      leftText lead count leftMax.toNat source = some (word.take leftMax.toNat) ∧
        z.take rightMax.toNat = rest.take rightMax.toNat := by
  rw [SplitsInto, setChars_eq hwordSize, setChars_eq hrestSize]
  refine ⟨fun ⟨pad', _, _, hwritten⟩ => ?_, fun ⟨hleft, hright⟩ => ⟨pad, hpad, ?_, ?_⟩⟩
  · obtain ⟨text, htext, heq⟩ := Option.map_eq_some_iff.mp hwritten
    have hnul : 0 ∉ text := by
      rcases leftText_eq_some.mp htext with ⟨-, rfl⟩ | ⟨-, -, rfl⟩
      · exact List.not_mem_nil
      · exact noNul_take hsource _
    rw [Written.mk.injEq, Option.some.injEq, List.append_assoc, List.singleton_append] at heq
    obtain ⟨rfl, -⟩ := toCells_injective hnul (noNul_take hword _) heq.1
    exact ⟨htext, (toCells_injective (noNul_take hz _) (noNul_take hrest _) heq.2).1⟩
  · intro hpos
    rw [← hright, List.length_append, List.length_append, toCells, List.length_map,
      List.length_singleton]
    have hmax : (rightMax.toNat : Int) = rightMax.toInt := by
      rw [BitVec.toInt_eq_toNat_cond] at hpos ⊢
      have := rightMax.isLt
      split at hpos <;> omega
    omega
  · rw [hleft, hright, Option.map_some, List.append_assoc]
    rfl

theorem splitsInto_whole (hword : 0 ∉ word) (hrest : 0 ∉ rest) (htrimmed : 0 ∉ trimmed)
    (hwordSize : word.length < bufferSize) (hrestSize : rest.length < bufferSize)
    (htrimmedSize : trimmed.length < bufferSize) (hstarts : rest = [] → word <+: trimmed) :
    SplitsInto word rest leftMax rightMax
        (some ⟨setChars trimmed leftMax.toInt, if rightMax ≠ 0 then some [0] else none⟩) ↔
      rightMax.toNat ≠ 0 ∧ rest = [] ∧ (word = trimmed ∨ leftMax.toNat ≤ word.length) := by
  rw [SplitsInto, setChars_eq hwordSize, setChars_eq hrestSize, setChars_eq htrimmedSize]
  have hzero : rightMax.toNat ≠ 0 ↔ rightMax ≠ 0 := not_congr (BitVec.toNat_eq (y := 0)).symm
  refine ⟨fun ⟨pad, _, _, hwritten⟩ => ?_, fun ⟨hmax, hnil, hleft⟩ => ?_⟩
  · rw [Option.some.injEq, Written.mk.injEq] at hwritten
    obtain ⟨hleft, hright⟩ := hwritten
    obtain ⟨htext, -⟩ := toCells_injective (noNul_take htrimmed _) (noNul_take hword _) hleft
    split at hright
    next hmax =>
        have hright' : toCells [] ++ [0] = toCells (rest.take rightMax.toNat) ++ 0 :: pad := by
          rw [Option.some.injEq, List.append_assoc] at hright
          exact hright
        obtain ⟨hempty, -⟩ :=
          toCells_injective List.not_mem_nil (noNul_take hrest _) hright'
        have hnil : rest = [] :=
          (List.take_eq_nil_iff.mp hempty.symm).resolve_left (hzero.mpr hmax)
        refine ⟨hzero.mpr hmax, hnil, ?_⟩
        by_cases hle : leftMax.toNat ≤ word.length
        · exact .inr hle
        · refine .inl ((hstarts hnil).eq_of_length_le ?_)
          rw [List.take_of_length_le (l := word) (by omega)] at htext
          have hlength := congrArg List.length htext
          rw [List.length_take] at hlength
          omega
    next => cases hright
  · have htext : trimmed.take leftMax.toNat = word.take leftMax.toNat := by
      rcases hleft with rfl | hle
      · rfl
      · exact (take_of_starts (hstarts hnil) hle).symm
    refine ⟨[], List.forall_mem_nil _, fun hpos => ?_, ?_⟩
    · rw [hnil, List.take_nil, List.append_nil]
      exact Int.le_add_of_nonneg_left hpos
    · rw [htext, if_pos (hzero.mp hmax), hnil, List.take_nil]
      rfl

end

/-! The native. -/

section

variable {string front after : List Byte} {fuel : Nat}

theorem drop_lead (string : List Byte) :
    string.drop (string.length - (string.dropWhile isSpace).length) = string.dropWhile isSpace :=
  (List.suffix_iff_eq_drop.mp (List.dropWhile_suffix isSpace)).symm

theorem lead_add (string : List Byte) :
    string.length - (string.dropWhile isSpace).length + (string.dropWhile isSpace).length =
      string.length :=
  Nat.sub_add_cancel (List.dropWhile_suffix isSpace).length_le

theorem breakString_eq (hfuel : string.length < fuel) (leftMax rightMax : Cell) :
    breakString string fuel leftMax rightMax =
      let trimmed := string.dropWhile isSpace
      let lead := string.length - trimmed.length
      if (outside false trimmed).2 = [] then
        if closes false trimmed then
          doCopy string fuel lead (string.length - 1) true leftMax rightMax
        else some ⟨setChars trimmed leftMax.toInt, if rightMax ≠ 0 then some [0] else none⟩
      else
        doCopy string fuel lead (lead + (outside false trimmed).1.length)
          ((outside false trimmed).1.contains 34) leftMax rightMax := by
  have hlead := lead_add string
  have hskip : skipSpaces string (fun i => i < string.length) fuel 0 = _ :=
    skipSpaces_eq (fun i hi => decide_eq_true hi) List.drop_zero (Nat.zero_le _) hfuel
  have hscan : scanWord string fuel _ false false = _ :=
    scanWord_eq (drop_lead string) (Nat.sub_le _ _) (by omega) fun hfalse => nomatch hfalse
  rw [breakString, hskip, Option.bind_some, hscan, Option.bind_some, drop_lead, found]
  dsimp only
  by_cases hafter : (outside false (string.dropWhile isSpace)).2 = []
  · rw [if_pos hafter, if_pos hafter]
    cases closes false (string.dropWhile isSpace) <;> rfl
  · rw [if_neg hafter, if_neg hafter]
    rfl

theorem closes_last {inQuote : Bool} {t : List Byte} (h : closes inQuote t = true) :
    ∃ init, t = init ++ [34] := by
  induction t generalizing inQuote with
  | nil => exact absurd h Bool.false_ne_true
  | cons c t ih =>
      rw [closes] at h
      split at h
      next hnil =>
          rw [Bool.and_eq_true, decide_eq_true_iff] at h
          exact ⟨[], by rw [hnil, h.1]; rfl⟩
      next =>
          obtain ⟨init, rfl⟩ := ih h
          exact ⟨c :: init, rfl⟩

def quotesOf (front after : List Byte) : Nat :=
  if front.contains 34 then if after ≠ [] ∧ (remainder after).length = 1 then 1 else 2 else 0

theorem quotesOf_of_mem {front : List Byte} (hquote : 34 ∈ front) (after : List Byte) :
    quotesOf front after = if after ≠ [] ∧ (remainder after).length = 1 then 1 else 2 :=
  if_pos (List.contains_iff_mem.mpr hquote)

theorem quotesOf_of_notMem {front : List Byte} (hquote : 34 ∉ front) (after : List Byte) :
    quotesOf front after = 0 :=
  if_neg fun hcontains => hquote (List.contains_iff_mem.mp hcontains)

theorem quotesOf_le (front after : List Byte) : quotesOf front after ≤ 2 := by
  rw [quotesOf]
  split
  next => split <;> decide
  next => decide

theorem quotesOf_pos {front : List Byte} (hquote : 34 ∈ front) (after : List Byte) :
    0 < quotesOf front after := by
  rw [quotesOf_of_mem hquote]
  split <;> decide

theorem two_le_count {t : List Byte} (h : (outside false t).2 ≠ [] ∨ closes false t = true)
    (hquote : 34 ∈ (outside false t).1) : 2 ≤ (outside false t).1.count 34 := by
  have heven := even_quotes h
  have hpos := List.count_pos_iff.mpr hquote
  rw [Bool.toNat_false] at heven
  omega

def Copies (front after trimmed : List Byte) (lead : Nat) (leftMax rightMax : Cell)
    (written : Option Written) : Prop :=
  ∃ pad : List Cell, (∀ cell ∈ pad, cell = 0) ∧
    ((remainder after).take rightMax.toNat).length + pad.length ≤ rightMax.toNat ∧
    written = (leftText lead (front.length - quotesOf front after) leftMax.toNat
      (if front.contains 34 then trimmed.tail else trimmed)).map
      fun text => ⟨toCells text ++ [0],
        some (toCells ((remainder after).take rightMax.toNat) ++ 0 :: pad)⟩

theorem copies_closed {lead : Nat} (hsize : string.length < bufferSize)
    (hfuel : string.length < fuel) (hdrop : string.drop lead = front)
    (hclosed : closes false front = true) (htwo : 2 ≤ front.length) (leftMax rightMax : Cell) :
    Copies front [] front lead leftMax rightMax
      (doCopy string fuel lead (string.length - 1) true leftMax rightMax) := by
  obtain ⟨init, hinit⟩ := closes_last hclosed
  have hquote : 34 ∈ front := hinit ▸ List.mem_append_right init List.mem_cons_self
  have hinitLength : front.length = init.length + 1 := by rw [hinit, List.length_append]; rfl
  have hlength := congrArg List.length hdrop
  rw [List.length_drop] at hlength
  have hlast : string.drop (string.length - 1) = [34] := by
    have hpos : string.length - 1 = lead + init.length := by omega
    rw [hpos, ← List.drop_drop, hdrop, hinit, List.drop_left]
  have hskip : skipSpaces string (fun _ => true) fuel (string.length - 1) =
      some (string.length - 1) :=
    skipSpaces_eq (fun _ _ => rfl) hlast (Nat.sub_le _ _) (by rw [List.length_singleton]; omega)
  have hquotes : 1 =
      if true then if string.length - 1 = string.length - 1 then 1 else 2 else 0 := by
    rw [if_pos rfl, if_pos rfl]
  have hstart : lead + 1 = if true then lead + 1 else lead := rfl
  have hpos : string.length - 1 = lead + (front.length - 2) + 1 := by omega
  have hcopy := doCopy_eq hsize hskip (Nat.sub_le _ _) hquotes hstart hpos (by omega) leftMax
    rightMax
  rw [hlast, ← List.drop_drop, hdrop, List.drop_one] at hcopy
  rw [Copies, if_pos (List.contains_iff_mem.mpr hquote), quotesOf_of_mem hquote,
    if_neg fun hne => hne.1 rfl]
  exact hcopy

theorem copies_blank {lead : Nat} (hsize : string.length < bufferSize)
    (hfuel : string.length < fuel) (hdrop : string.drop lead = front ++ after)
    (hnil : after ≠ []) (htwo : 34 ∈ front → 2 ≤ front.length) (leftMax rightMax : Cell) :
    Copies front after (front ++ after) lead leftMax rightMax
      (doCopy string fuel lead (lead + front.length) (front.contains 34) leftMax rightMax) := by
  have hlength := congrArg List.length hdrop
  rw [List.length_drop, List.length_append] at hlength
  have hafter : string.drop (lead + front.length) = after := by
    rw [← List.drop_drop, hdrop, List.drop_left]
  have hpos : 0 < after.length := List.length_pos_iff.mpr hnil
  have hskip : skipSpaces string (fun _ => true) fuel (lead + front.length) =
      some (string.length - (after.dropWhile isSpace).length) :=
    skipSpaces_eq (fun _ _ => rfl) hafter (by omega) (by omega)
  have hshort := (List.dropWhile_suffix isSpace (l := after)).length_le
  have hremainder : remainder after = after.dropWhile isSpace := if_neg hnil
  have hrest : string.drop (string.length - (after.dropWhile isSpace).length) =
      remainder after := by
    have hsuffix := (List.dropWhile_suffix isSpace (l := after)).trans
      (hafter ▸ List.drop_suffix _ string)
    rw [hremainder]
    exact (List.suffix_iff_eq_drop.mp hsuffix).symm
  have hone : string.length - (after.dropWhile isSpace).length = string.length - 1 ↔
      (remainder after).length = 1 := by
    rw [hremainder]
    omega
  have hquotes : quotesOf front after = if front.contains 34 then
      if string.length - (after.dropWhile isSpace).length = string.length - 1 then 1 else 2
      else 0 :=
    if_congr Iff.rfl (if_congr ((and_iff_right hnil).trans hone.symm) rfl rfl) rfl
  have hroom : (if front.contains 34 then lead + 1 else lead) ≤ lead + quotesOf front after ∧
      quotesOf front after ≤ front.length := by
    have hle := quotesOf_le front after
    split
    next hcontains =>
        have hquote := List.contains_iff_mem.mp hcontains
        exact ⟨Nat.add_le_add_left (quotesOf_pos hquote after) lead, hle.trans (htwo hquote)⟩
    next hcontains =>
        have hzero : quotesOf front after = 0 := if_neg hcontains
        exact ⟨Nat.le_add_right _ _, hzero ▸ Nat.zero_le _⟩
  have hend : lead + front.length =
      lead + (front.length - quotesOf front after) + quotesOf front after := by omega
  have hcopy := doCopy_eq hsize hskip (Nat.sub_le _ _) hquotes rfl hend (by omega) leftMax
    rightMax
  have hsource : string.drop (if front.contains 34 then lead + 1 else lead) =
      if front.contains 34 then (front ++ after).tail else front ++ after := by
    split
    next => rw [← List.drop_drop, hdrop, List.drop_one]
    next => exact hdrop
  rw [hrest, hsource] at hcopy
  exact hcopy

theorem breakString_broken (hsize : string.length < bufferSize) (hfuel : string.length < fuel)
    (hfound : ¬ ((outside false (string.dropWhile isSpace)).2 = [] ∧
      closes false (string.dropWhile isSpace) = false)) (leftMax rightMax : Cell) :
    Copies (outside false (string.dropWhile isSpace)).1
      (outside false (string.dropWhile isSpace)).2 (string.dropWhile isSpace)
      (string.length - (string.dropWhile isSpace).length) leftMax rightMax
      (breakString string fuel leftMax rightMax) := by
  have hdrop := drop_lead string
  have hopen := hfound
  rw [not_and_or, Bool.not_eq_false] at hopen
  have htwo := fun hquote => (two_le_count hopen hquote).trans List.count_le_length
  have happend := outside_append false (string.dropWhile isSpace)
  rw [breakString_eq hfuel]
  dsimp only
  generalize string.dropWhile isSpace = trimmed at *
  by_cases hnil : (outside false trimmed).2 = []
  · have hclosed := hopen.resolve_left (not_not.mpr hnil)
    rw [hnil, List.append_nil] at happend
    rw [if_pos hnil, if_pos hclosed, hnil, happend]
    rw [happend] at htwo
    have hquote : 34 ∈ trimmed := by
      obtain ⟨init, rfl⟩ := closes_last hclosed
      exact List.mem_append_right init List.mem_cons_self
    exact copies_closed hsize hfuel hdrop hclosed (htwo hquote) leftMax rightMax
  · rw [if_neg hnil]
    rw [← happend] at hdrop
    have hcopies := copies_blank hsize hfuel hdrop hnil htwo leftMax rightMax
    rw [happend] at hcopies
    exact hcopies

end

/-! The word beside what is copied. -/

section

variable {trimmed v w : List Byte} {lead max : Nat}

theorem straight_iff {front after rest inner : List Byte}
    (hfront : front = 34 :: (v ++ 34 :: inner)) (hw : w = inner ++ after)
    (hrest : rest = w.dropWhile isSpace) :
    (34 ∉ front ∨ front = 34 :: (v ++ [34]) ∧ (after = [] ∨ rest.length ≠ 1)) ↔
      front.length - quotesOf front after = v.length := by
  have hquote : 34 ∈ front := hfront ▸ List.mem_cons_self
  have hsize := congrArg List.length hfront
  simp only [List.length_cons, List.length_append] at hsize
  have hsame : front = 34 :: (v ++ [34]) ↔ inner = [] := by
    rw [hfront]
    simp
  rw [or_iff_right (not_not.mpr hquote), hsame, quotesOf_of_mem hquote]
  by_cases hinner : inner = []
  · subst hinner
    rw [List.nil_append] at hw
    rw [List.length_nil] at hsize
    have hremainder : after ≠ [] → remainder after = rest := fun hne => by
      rw [remainder, if_neg hne, hrest, hw]
    by_cases hnil : after = []
    · simp [hnil, hsize]
    · rw [hremainder hnil]
      by_cases hone : rest.length = 1
      · simp [hnil, hone]
        omega
      · simp [hnil, hone]
        omega
  · have hpos := List.length_pos_iff.mpr hinner
    refine iff_of_false (fun h => hinner h.1) ?_
    split <;> omega

theorem leftText_iff {front after rest word : List Byte}
    (hspace : ∀ c ∈ trimmed.head?, isSpace c = false)
    (hfound : ¬ ((outside false trimmed).2 = [] ∧ closes false trimmed = false))
    (hfront : (outside false trimmed).1 = front) (hafter : (outside false trimmed).2 = after)
    (hword : (firstWord trimmed).1 = word)
    (hrest : (firstWord trimmed).2.dropWhile isSpace = rest) :
    leftText lead (front.length - quotesOf front after) max
        (if front.contains 34 then trimmed.tail else trimmed) = some (word.take max) ↔
      if 34 ∈ front ∧ front.head? ≠ some 34 then CharsAgree lead max front
      else
        let straight := 34 ∉ front ∨ front = 34 :: (word ++ [34]) ∧ (after = [] ∨ rest.length ≠ 1)
        LengthAgrees lead straight word.length max := by
  have happend := outside_append false trimmed
  rw [hfront, hafter] at happend
  have hstarts : front <+: trimmed := ⟨after, happend⟩
  by_cases hquote : 34 ∈ front
  · rw [if_pos (List.contains_iff_mem.mpr hquote)]
    cases trimmed with
    | nil =>
        rw [List.prefix_nil.mp hstarts] at hquote
        exact absurd hquote List.not_mem_nil
    | cons c t =>
        have hsome := quotesOf_pos hquote after
        have hle := quotesOf_le front after
        by_cases hc : c = 34
        · subst hc
          have hmem : 34 ∈ t := Classical.byContradiction fun hnone => hfound (outside_open hnone)
          obtain ⟨v, w, hv, rfl⟩ := exists_quoted hmem
          rw [firstWord_quoted hv] at hword hrest
          rw [outside_both hv] at hfront hafter
          dsimp only at hword hrest hfront hafter
          subst hword
          have hw := outside_append false w
          rw [hafter] at hw
          have hlength := congrArg List.length hw
          have hsize := congrArg List.length hfront
          simp only [List.length_cons, List.length_append] at hlength hsize
          rw [if_neg fun h => h.2 (hfront ▸ rfl), List.tail_cons]
          refine leftText_of_starts (List.prefix_append v _) (by omega) ?_ ?_
          · rw [List.length_append, List.length_cons]
            omega
          · exact straight_iff hfront.symm hw.symm hrest.symm
        · have hhead : front.head? ≠ some 34 := by
            cases front with
            | nil => exact fun h => nomatch h
            | cons c' front =>
                intro hsome
                exact hc ((List.cons.inj happend).1 ▸ Option.some.inj hsome)
          have hpos : 0 < front.length := List.length_pos_of_mem hquote
          have hopen : (outside false (c :: t)).2 ≠ [] ∨ closes false (c :: t) = true := by
            rw [not_and_or, Bool.not_eq_false] at hfound
            exact hfound
          have htwo := two_le_count hopen (hfront ▸ hquote)
          rw [firstWord_other fun h => hc h.1] at hword
          rw [if_pos ⟨hquote, hhead⟩, List.tail_cons, ← hword]
          exact leftText_of_inner hc (hspace c rfl) hstarts (hfront ▸ htwo) (by omega) (by omega)
  · have hplain : firstWord trimmed = outside false trimmed := by
      refine firstWord_plain ?_
      rwa [hfront]
    have hsame : word = front := by rw [← hword, hplain, hfront]
    subst hsame
    rw [if_neg fun hcontains => hquote (List.contains_iff_mem.mp hcontains),
      if_neg fun h => hquote h.1]
    have hzero := quotesOf_of_notMem hquote after
    exact leftText_of_starts hstarts (by omega) ((Nat.sub_le _ _).trans hstarts.length_le)
      (iff_of_true (.inl hquote) (by omega))

end

section

variable {memory : Memory} {amx : Amx} {params : Nat → Cell} {string : List Byte} {fuel : Nat}

theorem breakString_splits_iff (hnul : 0 ∉ string) (hsize : string.length < bufferSize)
    (hfuel : string.length < fuel) (leftMax rightMax : Cell) :
    SplitsInto (breakWord string).1 (breakWord string).2 leftMax rightMax
        (breakString string fuel leftMax rightMax) ↔
      Breakable string leftMax.toNat rightMax.toNat := by
  obtain ⟨hwordInfix, hrestSuffix⟩ := breakWord_infix string
  have htrim := List.dropWhile_suffix isSpace (l := string)
  have hwordNul : 0 ∉ (breakWord string).1 := fun hmem => hnul (hwordInfix.subset hmem)
  have hrestNul : 0 ∉ (breakWord string).2 := fun hmem => hnul (hrestSuffix.subset hmem)
  have htrimNul : 0 ∉ string.dropWhile isSpace := fun hmem => hnul (htrim.subset hmem)
  have hwordSize := hwordInfix.length_le.trans_lt hsize
  have hrestSize := hrestSuffix.length_le.trans_lt hsize
  rw [Breakable]
  by_cases hfound : (outside false (string.dropWhile isSpace)).2 = [] ∧
      closes false (string.dropWhile isSpace) = false
  · obtain ⟨hafter, hcloses⟩ := hfound
    have happend := outside_append false (string.dropWhile isSpace)
    rw [hafter, List.append_nil] at happend
    have hbreak := breakString_eq hfuel leftMax rightMax
    dsimp only at hbreak ⊢
    rw [if_pos hafter, hcloses, if_neg Bool.false_ne_true] at hbreak
    have hboth := And.intro hafter hcloses
    rw [hbreak, if_pos hboth, happend]
    exact splitsInto_whole hwordNul hrestNul htrimNul hwordSize hrestSize
      (htrim.length_le.trans_lt hsize) fun hrest => word_starts hafter hcloses hrest
  · obtain ⟨pad, hpad, hroom, hbreak⟩ :=
      breakString_broken hsize hfuel hfound leftMax rightMax
    have hparts := outside_append false (string.dropWhile isSpace)
    have hsource : 0 ∉ if (outside false (string.dropWhile isSpace)).1.contains 34
        then (string.dropWhile isSpace).tail else string.dropWhile isSpace := by
      split
      next => exact fun hmem => htrimNul (List.mem_of_mem_tail hmem)
      next => exact htrimNul
    have hremainder : 0 ∉ remainder (outside false (string.dropWhile isSpace)).2 := by
      rw [remainder]
      split
      next => decide
      next =>
          intro hmem
          have hafter := (List.dropWhile_suffix isSpace).subset hmem
          exact htrimNul (hparts ▸ List.mem_append_right _ hafter)
    have hspace : ∀ c ∈ (string.dropWhile isSpace).head?, isSpace c = false := by
      intro c hc
      obtain ⟨t, ht⟩ := List.head?_eq_some_iff.mp hc
      exact head_trimmed ht
    dsimp only
    rw [hbreak, if_neg hfound]
    exact (splitsInto_broken hwordNul hrestNul hsource hremainder hwordSize hrestSize hpad
      hroom).trans (and_congr_left' (leftText_iff hspace hfound rfl rfl rfl rfl))

/-- The native does what it is for exactly if the string fits the buffer and the string
and the limits meet the condition. -/
theorem strbreak_splits_iff (hline : Holds memory amx (cellNumber (params 1)) string)
    (hfuel : string.length < fuel) :
    (SplitsInto (breakWord string).1 (breakWord string).2 (params 3) (params 5)
        (strbreakWrites fuel amx params memory) ↔
      string.length < bufferSize ∧ Breakable string (params 3).toNat (params 5).toNat) ∧
    ∀ left right, strbreakWrites fuel amx params memory = some ⟨left, some right⟩ →
      strbreak fuel amx params memory =
        some ((memory.store amx (cellNumber (params 2)) left).store amx (cellNumber (params 4))
          right) := by
  refine ⟨?_, fun left right hwrites => by rw [strbreak, hwrites]; rfl⟩
  rw [strbreakWrites, getAmxString_eq hline]
  by_cases hsize : string.length < bufferSize
  · rw [if_pos hsize, Option.bind_some, and_iff_right hsize]
    exact breakString_splits_iff hline.noNul hsize hfuel (params 3) (params 5)
  · rw [if_neg hsize, Option.bind_none]
    exact iff_of_false (fun ⟨_, _, _, hnone⟩ => nomatch hnone) fun h => hsize h.1

end

/-! Limits of ten characters. -/

section

def tenEach : Nat → Cell
  | 2 => 4 * 100
  | 3 => 10
  | 4 => 4 * 200
  | 5 => 10
  | _ => 0

theorem strbreak_splits_two_words :
    SplitsInto [97, 98] [99, 100] 10 10
      (strbreakWrites 6 0 tenEach (lineOf [97, 98, 32, 99, 100])) := by
  have hline : Holds (lineOf [97, 98, 32, 99, 100]) 0 (cellNumber (tenEach 1))
      [97, 98, 32, 99, 100] := by decide
  refine (strbreak_splits_iff hline (by decide)).1.mpr ⟨by decide, ?_⟩
  refine ⟨?_, rfl⟩
  exact .inr (.inr (.inr ⟨.inl (by decide), by decide⟩))

/-- With one character behind a quoted word, the closing quote stays in the word. -/
theorem strbreak_keeps_the_quote :
    ¬ ∀ (memory : Memory) (amx : Amx) (params : Nat → Cell) (string : List Byte) (fuel : Nat),
      Holds memory amx (cellNumber (params 1)) string → string.length < fuel →
        SplitsInto (breakWord string).1 (breakWord string).2 (params 3) (params 5)
          (strbreakWrites fuel amx params memory) := by
  intro h
  have hline : Holds (lineOf [34, 97, 98, 99, 34, 32, 100]) 0 (cellNumber (tenEach 1))
      [34, 97, 98, 99, 34, 32, 100] := by decide
  obtain ⟨pad, -, -, hwrites⟩ := h _ 0 tenEach _ 8 hline (by decide)
  have hleft : (strbreakWrites 8 0 tenEach (lineOf [34, 97, 98, 99, 34, 32, 100])).map
      Written.left = some [97, 98, 99, 34, 0] := by decide +kernel
  have hword : setChars (breakWord [34, 97, 98, 99, 34, 32, 100]).1 (tenEach 3).toInt ≠
      [97, 98, 99, 34, 0] := by decide +kernel
  rw [hwrites] at hleft
  exact hword (Option.some.inj hleft)

end

end AmxModC.Strings
