import AmxModC.Strings.FirstWord

namespace AmxModC.Strings

open Foundation

/-! The cells of two texts. -/

section

variable {a b source : List Byte} {pad pad' : List Cell}

theorem signExtend_injective {c c' : Byte} (h : c.signExtend 32 = c'.signExtend 32) : c = c' := by
  have hint := congrArg BitVec.toInt h
  rw [BitVec.toInt_signExtend_of_le (by decide), BitVec.toInt_signExtend_of_le (by decide)] at hint
  exact BitVec.toInt_inj.mp hint

theorem signExtend_ne_zero {c : Byte} (hc : c ≠ 0) : c.signExtend 32 ≠ (0 : Cell) := by
  intro hzero
  exact hc (signExtend_injective (hzero.trans (by decide)))

theorem toCells_injective (ha : 0 ∉ a) (hb : 0 ∉ b)
    (h : toCells a ++ 0 :: pad = toCells b ++ 0 :: pad') : a = b ∧ pad = pad' := by
  induction a generalizing b with
  | nil =>
      cases b with
      | nil => exact ⟨rfl, (List.cons.inj h).2⟩
      | cons c b =>
          have hc := (List.cons.inj h).1
          exact absurd hc.symm (signExtend_ne_zero fun hzero => hb (hzero ▸ List.mem_cons_self))
  | cons c a ih =>
      rw [List.mem_cons, not_or] at ha
      cases b with
      | nil =>
          have hc := (List.cons.inj h).1
          exact absurd hc (signExtend_ne_zero (Ne.symm ha.1))
      | cons c' b =>
          rw [List.mem_cons, not_or] at hb
          obtain ⟨hc, hrest⟩ := List.cons.inj h
          obtain ⟨rfl, rfl⟩ := ih ha.2 hb.2 hrest
          exact ⟨by rw [signExtend_injective hc], rfl⟩

theorem setChars_eq (h : source.length < bufferSize) (max : Cell) :
    setChars source max.toInt = toCells (source.take max.toNat) ++ [0] := by
  rw [setChars, BitVec.toInt_eq_toNat_cond]
  have hmax := max.isLt
  split
  next hsmall => rw [if_neg (by omega), Int.toNat_natCast]
  next hlarge =>
      have hsize : source.length ≤ max.toNat := by
        rw [bufferSize] at h
        omega
      rw [if_pos (by omega), List.take_of_length_le hsize]

end

/-! Both copies of `do_copy`. -/

section

variable {string : List Byte} {fuel beg pos i : Nat} {hadQuotes : Bool} {leftMax rightMax : Cell}

theorem sizeSub_of_le {a b : Nat} (h : b ≤ a) (ha : a < 4294967296) : sizeSub a b = a - b := by
  rw [sizeSub]
  omega

theorem sizeSub_of_lt {a b : Nat} (h : a < b) (hb : b < 4294967296) :
    sizeSub a b = 4294967296 - (b - a) := by
  rw [sizeSub]
  omega

theorem drop_terminated (h : i ≤ string.length) :
    (string ++ [0]).drop i = string.drop i ++ [0] := List.drop_append_of_le_length h

def leftText (beg count max : Nat) (source : List Byte) : Option (List Byte) :=
  if max = 0 then some []
  else if beg ≤ max then some (source.take (min (beg + count) max - beg))
  else none

theorem copyLeft_eq (hsize : string.length < bufferSize) {start count max : Nat}
    (hstart : start + count ≤ string.length) (hbeg : beg ≤ start) (hmax : max < 4294967296) :
    let leftEnd := if beg + count > max then max else beg + count
    (if leftEnd ≠ 0 ∧ sizeSub leftEnd beg ≠ 0 then copyChars string start (sizeSub leftEnd beg)
      else some []) = (leftText beg count max (string.drop start)).map toCells := by
  rw [bufferSize] at hsize
  have hmin : (if beg + count > max then max else beg + count) = min (beg + count) max := by
    split <;> omega
  dsimp only
  rw [hmin, leftText]
  by_cases hzero : max = 0
  · rw [if_pos hzero, if_neg]
    · rfl
    · omega
  · rw [if_neg hzero]
    by_cases hle : beg ≤ max
    · have hcount : start + (min (beg + count) max - beg) ≤ string.length := by omega
      rw [if_pos hle, sizeSub_of_le (by omega) (by omega), Option.map_some]
      split
      next =>
          rw [copyChars_eq _ (by omega), if_pos (by omega), drop_terminated (by omega),
            List.take_append_of_le_length]
          rw [List.length_drop]
          omega
      next hnone =>
          have hnil : min (beg + count) max - beg = 0 := by omega
          rw [hnil, List.take_zero]
          rfl
    · rw [if_neg hle, sizeSub_of_lt (by omega) (by omega), if_pos (by omega),
        copyChars_eq _ (by omega), if_neg (by omega), Option.map_none]

theorem copyRight_eq (hi : i ≤ string.length) (max : Nat) :
    ∃ pad : List Cell, (∀ cell ∈ pad, cell = 0) ∧
      ((string.drop i).take max).length + pad.length ≤ max ∧
      let rightEnd := if string.length - i + 1 > max then max else string.length - i + 1
      ((if rightEnd ≠ 0 then copyChars string i rightEnd else some []).map fun right =>
        right ++ [0]) = some (toCells ((string.drop i).take max) ++ 0 :: pad) := by
  have hlength : (string.drop i).length = string.length - i := List.length_drop
  by_cases hcut : string.length - i + 1 > max
  · refine ⟨[], List.forall_mem_nil _, List.length_take_le _ _, ?_⟩
    dsimp only
    rw [if_pos hcut]
    split
    next =>
        rw [copyChars_eq _ (by omega), if_pos (by omega), drop_terminated hi,
          List.take_append_of_le_length (by omega), Option.map_some]
    next hzero =>
        rw [not_not.mp hzero]
        rfl
  · refine ⟨[0], fun cell hcell => List.mem_singleton.mp hcell, ?_, ?_⟩
    · rw [List.take_of_length_le (by omega), hlength, List.length_singleton]
      omega
    · dsimp only
      rw [if_neg hcut, if_pos (by omega), copyChars_eq _ (by omega), if_pos (by omega),
        drop_terminated hi, List.take_of_length_le (by simp [hlength]),
        List.take_of_length_le (by omega), Option.map_some, toCells, List.map_append]
      simp [toCells]

theorem doCopy_eq (hsize : string.length < bufferSize)
    (hskip : skipSpaces string (fun _ => true) fuel pos = some i) (hi : i ≤ string.length)
    {quotes start count : Nat}
    (hquotes : quotes = if hadQuotes then if i = string.length - 1 then 1 else 2 else 0)
    (hstart : start = if hadQuotes then beg + 1 else beg)
    (hpos : pos = beg + count + quotes) (hend : start + count ≤ string.length)
    (leftMax rightMax : Cell) :
    ∃ pad : List Cell, (∀ cell ∈ pad, cell = 0) ∧
      ((string.drop i).take rightMax.toNat).length + pad.length ≤ rightMax.toNat ∧
      doCopy string fuel beg pos hadQuotes leftMax rightMax =
        (leftText beg count leftMax.toNat (string.drop start)).map fun text =>
          ⟨toCells text ++ [0],
            some (toCells ((string.drop i).take rightMax.toNat) ++ 0 :: pad)⟩ := by
  obtain ⟨pad, hzero, hroom, hright⟩ := copyRight_eq hi rightMax.toNat
  refine ⟨pad, hzero, hroom, ?_⟩
  have hbeg : beg ≤ start := by
    rw [hstart]
    split <;> omega
  have hsub : sizeSub pos quotes = beg + count := by
    rw [bufferSize] at hsize
    have hle : quotes ≤ 2 := by
      rw [hquotes]
      split
      · split <;> decide
      · decide
    rw [sizeSub_of_le (by omega) (by omega)]
    omega
  have hleft := copyLeft_eq hsize hend hbeg leftMax.isLt
  dsimp only at hleft hright
  rw [doCopy, hskip, Option.bind_some]
  dsimp only
  rw [← hquotes, ← hstart, hsub, hleft]
  obtain ⟨right, hcopied, hcells⟩ := Option.map_eq_some_iff.mp hright
  rw [hcopied]
  cases leftText beg count leftMax.toNat (string.drop start) with
  | none => rfl
  | some text =>
      rw [← hcells]
      rfl

end

/-! When the text that goes to `Left` is the word. -/

section

variable {source word front rest : List Byte} {lead count max : Nat} {straight : Prop}

theorem leftText_eq_some {text : List Byte} : leftText lead count max source = some text ↔
    (max = 0 ∧ text = []) ∨
      (max ≠ 0 ∧ lead ≤ max ∧ source.take (min (lead + count) max - lead) = text) := by
  rw [leftText]
  split
  next hzero => simp [hzero, eq_comm]
  next hzero =>
      split
      next hle => simp [hzero, hle]
      next hle => simp [hzero, hle]

theorem take_eq_take_iff {n m : Nat} (hn : n ≤ source.length) (hm : m ≤ source.length) :
    source.take n = source.take m ↔ n = m := by
  refine ⟨fun h => ?_, fun h => h ▸ rfl⟩
  have hlength := congrArg List.length h
  rwa [List.length_take_of_le hn, List.length_take_of_le hm] at hlength

theorem leftText_of_starts (hword : word <+: source) (hcount : word.length ≤ count)
    (hsource : count ≤ source.length) (hstraight : straight ↔ count = word.length) :
    leftText lead count max source = some (word.take max) ↔
      LengthAgrees lead straight word.length max := by
  have htake : word.take max = source.take (min max word.length) := by
    rw [← List.take_take, ← List.prefix_iff_eq_take.mp hword]
  rw [leftText_eq_some, htake, take_eq_take_iff (by omega) (by omega), LengthAgrees, hstraight]
  by_cases hzero : max = 0
  · simp [hzero]
  · simp only [hzero, false_and, false_or, ne_eq, not_false_eq_true, true_and]
    omega

theorem take_tail_eq {c : Byte} {n : Nat} (h : source.take n = (c :: source).take n)
    (hn : n ≤ source.length) : (c :: source).take (n + 1) = List.replicate (n + 1) c := by
  induction n generalizing source with
  | zero => rfl
  | succ n ih =>
      cases source with
      | nil => cases hn
      | cons c' source =>
          rw [List.take_succ_cons, List.take_succ_cons] at h
          obtain ⟨rfl, hrest⟩ := List.cons.inj h
          rw [List.take_succ_cons, ih hrest (Nat.le_of_succ_le_succ hn), ← List.replicate_succ]

theorem take_of_starts (h : word <+: source) {n : Nat} (hn : n ≤ word.length) :
    word.take n = source.take n := by
  rw [List.prefix_iff_eq_take.mp h, List.take_take, Nat.min_eq_left hn]

theorem le_takeWhile {p : Byte → Bool} {c : Byte} {n : Nat}
    (h : source.take n = List.replicate n c) (hc : p c = true) :
    n ≤ (source.takeWhile p).length := by
  have hall : ∀ c' ∈ List.replicate n c, p c' = true := fun c' hc' =>
    (List.eq_of_mem_replicate hc').symm ▸ hc
  rw [← List.take_append_drop n source, h, List.takeWhile_append_of_pos hall, List.length_append,
    List.length_replicate]
  exact Nat.le_add_right _ _

theorem add_count_le {c : Byte} {n : Nat} (h : front.take n = List.replicate n c) (hc : c ≠ 34)
    (hle : n ≤ front.length) : n + front.count 34 ≤ front.length := by
  have hsplit : front.count 34 = (front.drop n).count 34 := by
    have happend := congrArg (List.count 34) (List.take_append_drop n front)
    rw [List.count_append, h, List.count_replicate, if_neg (by simpa using hc), Nat.zero_add]
      at happend
    exact happend.symm
  have hcount := List.count_le_length (a := (34 : Byte)) (l := front.drop n)
  rw [List.length_drop] at hcount
  omega

theorem leftText_of_inner {c : Byte} (hc : c ≠ 34) (hspace : isSpace c = false)
    (hfront : front <+: c :: source) (hquotes : 2 ≤ front.count 34)
    (hlow : front.length ≤ count + 2) (hhigh : count < front.length) :
    leftText lead count max source =
        some (((c :: source).takeWhile fun c => !isSpace c).take max) ↔
      CharsAgree lead max front := by
  have hword := List.takeWhile_prefix (l := c :: source) fun c => !isSpace c
  have hnonspace : (!isSpace c) = true := by rw [hspace, Bool.not_false]
  have hlength := hfront.length_le
  rw [List.length_cons] at hlength
  have hhead : front.headD 0 = c := by
    obtain ⟨rest, hrest⟩ := hfront
    cases front with
    | nil => cases hhigh
    | cons c' front => exact (List.cons.inj hrest).1
  rw [leftText_eq_some, CharsAgree, hhead]
  by_cases hzero : max = 0
  · simp [hzero]
  simp only [hzero, false_and, false_or, ne_eq, not_false_eq_true, true_and]
  refine ⟨fun ⟨hle, htext⟩ => ?_, fun ⟨hlead, hsame⟩ => ?_⟩
  · generalize hk : min (lead + count) max - lead = k at htext
    have hsize := congrArg List.length htext
    rw [List.length_take_of_le (by omega), List.length_take] at hsize
    have hstarts : source.take k = (c :: source).take k := by
      rw [htext, List.take_eq_take_min, ← hsize]
      exact take_of_starts hword (by omega)
    have hrepeat := take_tail_eq hstarts (by omega)
    have hlong := le_takeWhile (p := fun c => !isSpace c) hrepeat hnonspace
    have hmax : k = max := by omega
    subst hmax
    refine ⟨by omega, ?_⟩
    rw [take_of_starts hfront (by omega)]
    exact hrepeat
  · have hle := congrArg List.length hsame
    rw [List.length_take, List.length_replicate] at hle
    have hroom := add_count_le hsame hc (by omega)
    rw [take_of_starts hfront (by omega)] at hsame
    have hlong := le_takeWhile (p := fun c => !isSpace c) hsame hnonspace
    have hword' : (c :: source).take max = List.replicate max c := by
      have hshort := congrArg (List.take max) hsame
      rwa [List.take_take, List.take_replicate, Nat.min_eq_left (Nat.le_succ max)] at hshort
    have htail : source.take max = List.replicate max c := by
      rw [List.take_succ_cons, List.replicate_succ] at hsame
      exact (List.cons.inj hsame).2
    refine ⟨by omega, ?_⟩
    rw [take_of_starts hword (by omega), hword', ← htail]
    congr 1
    omega

end

end AmxModC.Strings
