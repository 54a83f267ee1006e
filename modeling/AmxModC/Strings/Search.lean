import AmxModC.Strings.Cells
import AmxModC.Strings.Tokens

namespace AmxModC.Strings

open Foundation

/-! The natives `contain`, `containi` and `strfind`, which write nothing to the data of the
plugins. -/

/-- The loop of `contain` and `containi`, which compare the cells under `fold`, at the
numbers of the cells that `b`, `c` and `a` point to. -/
def containLoop (fold : Cell → Cell) (str substr : Nat → Cell) : Nat → Nat → Nat → Nat → Option Int
  | 0, _, _, _ => none
  | fuel + 1, b, c, a =>
      if str c = 0 then some (-1)
      else if fold (str c) = fold (substr a) then
        if substr (a + 1) = 0 then some b
        else containLoop fold str substr fuel b (c + 1) (a + 1)
      else containLoop fold str substr fuel (b + 1) (b + 1) 0

def containBy (fold : Cell → Cell) (fuel : Nat) (amx : Amx) (params : Nat → Cell)
    (memory : Memory) : Option Int :=
  containLoop fold (fun i => memory amx (cellNumber (params 1) + i))
    (fun i => memory amx (cellNumber (params 2) + i)) fuel 0 0 0

def contain : Nat → Amx → (Nat → Cell) → Memory → Option Int := containBy id

def containi : Nat → Amx → (Nat → Cell) → Memory → Option Int := containBy toLower

def rowSize : Nat := 3072

/-- A text and its terminator, over what is in the buffer from `first` on. -/
def put (first : Nat) (text buffor : List Byte) : List Byte :=
  buffor.take first ++ (text ++ 0 :: buffor.drop (first + text.length + 1))

/-- `get_amxstring`, into the row `id` of its buffer and what is behind it. -/
def getInto (memory : Memory) (amx : Amx) (id : Nat) (address : Cell) (buffor : List Byte) :
    Option (List Byte × Nat) :=
  (getAmxString memory amx (bufferSize - rowSize * id) (cellNumber address)).map fun text =>
    (put (rowSize * id) text buffor, text.length)

/-- `if (str[i] & (1<<5)) str[i] &= ~(1<<5)` -/
def clearBit (c : Byte) : Byte := if c &&& 32 ≠ 0 then c &&& ~~~32 else c

/-- Both loops go over `str`, which is the first row. -/
def clearBits (len : Nat) (buffor : List Byte) : List Byte :=
  (buffor.take len).map clearBit ++ buffor.drop len

def cString (chars : List Byte) : List Byte := chars.takeWhile (· ≠ 0)

def strstr (haystack needle : List Byte) : Option Nat :=
  (List.range (haystack.length + 1)).find? fun k => decide (OccursAt needle haystack k)

/-- `none` is a read in front of the haystack. -/
def strfind (amx : Amx) (params : Nat → Cell) (memory : Memory) (buffor : List Byte) :
    Option (List Byte × Int) :=
  (getInto memory amx 0 (params 1) buffor).bind fun (buffor, len) =>
    (getInto memory amx 1 (params 2) buffor).bind fun (buffor, sublen) =>
      let igcase : Bool := params 3 ≠ 0
      let buffor := if igcase then clearBits sublen (clearBits len buffor) else buffor
      let start := (params 4).toInt
      if start > len then some (buffor, -1)
      else if start < 0 then none
      else
        let find := strstr (cString (buffor.drop start.toNat)) (cString (buffor.drop rowSize))
        some (buffor, find.elim (-1) fun k => (start.toNat + k : Nat))

/-! The restart loop. -/

section

variable {fold : Cell → Cell} {memory : Memory} {amx : Amx} {str substr : Nat}
  {H N : List Cell}

theorem containLoop_eq (hH : HoldsCells memory amx str H) (hN : HoldsCells memory amx substr N)
    {b a fuel : Nat} (hb : b + a ≤ H.length) (ha : a < N.length)
    (hfound : ∀ i < a, (H.map fold)[b + i]? = (N.map fold)[i]?)
    (hfuel : (H.length - b) * (N.length + 1) + (N.length - a) < fuel) :
    ∃ result, containLoop fold (fun i => memory amx (str + i)) (fun i => memory amx (substr + i))
        fuel b (b + a) a = some result ∧
      IsFirst (OccursAt (N.map fold) (H.map fold)) b result := by
  induction fuel generalizing b a with
  | zero => exact absurd hfuel (Nat.not_lt_zero _)
  | succ fuel ih =>
      have hne : N.map fold ≠ [] := by
        intro hnil
        rw [List.map_eq_nil_iff.mp hnil] at ha
        exact absurd ha (Nat.not_lt_zero a)
      rw [containLoop]
      by_cases hend : memory amx (str + (b + a)) = 0
      · rw [if_pos hend]
        have hlast := (hH.eq_zero_iff hb).mp hend
        refine ⟨-1, rfl, .inr ⟨fun k hk hoccurs => ?_, rfl⟩⟩
        have hroom := hoccurs.length_le hne
        rw [List.length_map, List.length_map] at hroom
        omega
      · have hlt : b + a < H.length := by
          refine Nat.lt_of_le_of_ne hb fun heq => hend ?_
          rw [heq]
          exact hH.terminator
        rw [if_neg hend, hH.cell hlt, hN.cell ha]
        by_cases hsame : fold H[b + a] = fold N[a]
        · rw [if_pos hsame]
          have hmore : ∀ i < a + 1, (H.map fold)[b + i]? = (N.map fold)[i]? := by
            intro i hi
            rcases Nat.lt_succ_iff_lt_or_eq.mp hi with hlt' | rfl
            · exact hfound i hlt'
            · rw [List.getElem?_map, List.getElem?_map, List.getElem?_eq_getElem hlt,
                List.getElem?_eq_getElem ha, Option.map_some, Option.map_some, hsame]
          by_cases hdone : memory amx (substr + (a + 1)) = 0
          · rw [if_pos hdone]
            have hall := (hN.eq_zero_iff (Nat.succ_le_of_lt ha)).mp hdone
            refine ⟨b, rfl, .inl ⟨b, ⟨le_rfl, occursAt_iff.mpr fun i hi => ?_, ?_⟩, rfl⟩⟩
            · exact hmore i (by rw [List.length_map] at hi; omega)
            · exact fun j hj hlt' => absurd hlt' (not_lt.mpr hj)
          · rw [if_neg hdone]
            have hnext : a + 1 < N.length := by
              refine Nat.lt_of_le_of_ne ha fun heq => hdone ?_
              have hterminator := hN.terminator
              rwa [← heq] at hterminator
            exact ih (by omega) hnext hmore (by omega)
        · rw [if_neg hsame]
          have hnot : ¬ OccursAt (N.map fold) (H.map fold) b := by
            intro hoccurs
            have hat := hoccurs.getElem? (by rwa [List.length_map] : a < (N.map fold).length)
            rw [List.getElem?_map, List.getElem?_map, List.getElem?_eq_getElem hlt,
              List.getElem?_eq_getElem ha] at hat
            exact hsame (Option.some.inj hat)
          have hless : (H.length - (b + 1)) * (N.length + 1) + (N.length + 1) =
              (H.length - b) * (N.length + 1) := by
            rw [← Nat.succ_mul]
            congr 1
            omega
          obtain ⟨result, hloop, hfirst⟩ := ih (b := b + 1) (a := 0) (by omega) (by omega)
            (fun i hi => absurd hi (Nat.not_lt_zero i)) (by omega)
          exact ⟨result, hloop, hfirst.of_succ hnot⟩

end

section

variable {memory : Memory} {amx : Amx} {params : Nat → Cell} {fuel : Nat} {H N : List Cell}

theorem containBy_isFirst (fold : Cell → Cell)
    (hH : HoldsCells memory amx (cellNumber (params 1)) H)
    (hN : HoldsCells memory amx (cellNumber (params 2)) N) (hne : N ≠ [])
    (hfuel : (H.length + 1) * (N.length + 1) < fuel) :
    ∃ result, containBy fold fuel amx params memory = some result ∧
      IsFirst (OccursAt (N.map fold) (H.map fold)) 0 result := by
  refine containLoop_eq hH hN (Nat.zero_le _) (List.length_pos_iff.mpr hne)
    (fun i hi => absurd hi (Nat.not_lt_zero i)) (Nat.lt_of_le_of_lt ?_ hfuel)
  rw [Nat.sub_zero, Nat.sub_zero, Nat.succ_mul]
  omega

end

/-! `strfind`, on copies in a buffer. -/

def Occurs (igcase : Bool) (haystack needle : List Byte) (k : Nat) : Prop :=
  if igcase then OccursAt (needle.map toLower) (haystack.map toLower) k
  else OccursAt needle haystack k

/-- What is in the buffer when `strstr` is called. -/
def prepared (buffor haystack needle : List Byte) (igcase : Bool) : List Byte :=
  let rows := put rowSize needle (put 0 haystack buffor)
  if igcase then clearBits needle.length (clearBits haystack.length rows) else rows

def Seen (buffor haystack needle : List Byte) (igcase : Bool) (start k : Nat) : Prop :=
  OccursAt (cString ((prepared buffor haystack needle igcase).drop rowSize))
    (cString ((prepared buffor haystack needle igcase).drop start)) (k - start)

/-- Both strings fit, and up to the first occurrence the buffer shows the needle exactly
where it is. -/
def Findable (buffor haystack needle : List Byte) (igcase : Bool) (start : Nat) : Prop :=
  haystack.length < bufferSize ∧ needle.length < bufferSize - rowSize ∧
    ∀ k, start ≤ k → (∀ j, start ≤ j → j < k → ¬ Occurs igcase haystack needle j) →
      (Seen buffor haystack needle igcase start k ↔ Occurs igcase haystack needle k)

section

variable {memory : Memory} {amx : Amx} {params : Nat → Cell} {buffor haystack needle : List Byte}
  {start : Nat}

theorem strstr_isFirst (haystack needle : List Byte) :
    IsFirst (OccursAt needle haystack) 0 ((strstr haystack needle).elim (-1) fun k => k) := by
  cases hfind : strstr haystack needle with
  | none =>
      have hnone := List.find?_eq_none.mp hfind
      refine .inr ⟨fun k _ hoccurs => ?_, rfl⟩
      have hle : ¬ k < haystack.length + 1 := fun hlt =>
        hnone k (List.mem_range.mpr hlt) (decide_eq_true hoccurs)
      have hnil : needle = [] := by
        by_contra hne
        have := hoccurs.length_le hne
        omega
      exact hnone 0 (List.mem_range.mpr (Nat.succ_pos _))
        (decide_eq_true (hnil ▸ List.nil_prefix))
  | some k =>
      obtain ⟨hk, front, back, hsplit, hbefore⟩ := List.find?_eq_some_iff_append.mp hfind
      refine .inl ⟨k, ⟨Nat.zero_le k, of_decide_eq_true hk, fun j _ hlt hoccurs => ?_⟩, rfl⟩
      have hlength : front.length = k := by
        have hat : (List.range (haystack.length + 1))[front.length]? = some k := by
          rw [hsplit, List.getElem?_append_right le_rfl, Nat.sub_self]
          rfl
        obtain ⟨hlt', heq⟩ := List.getElem?_eq_some_iff.mp hat
        rwa [List.getElem_range] at heq
      have hmem : j ∈ front := by
        have hat : (List.range (haystack.length + 1))[j]? = some j := by
          rw [List.getElem?_range]
          have hroom := congrArg List.length hsplit
          rw [List.length_range, List.length_append, List.length_cons] at hroom
          omega
        rw [hsplit, List.getElem?_append_left (by omega)] at hat
        exact List.mem_of_getElem? hat
      have hnot := hbefore j hmem
      rw [decide_eq_true hoccurs] at hnot
      exact absurd hnot (by decide)

theorem strfind_eq (hhaystack : Holds memory amx (cellNumber (params 1)) haystack)
    (hneedle : Holds memory amx (cellNumber (params 2)) needle)
    (hstart : (params 4).toInt = start) (hle : start ≤ haystack.length) :
    strfind amx params memory buffor =
      if haystack.length < bufferSize ∧ needle.length < bufferSize - rowSize then
        let chars := prepared buffor haystack needle (params 3 ≠ 0)
        some (chars, (strstr (cString (chars.drop start)) (cString (chars.drop rowSize))).elim
          (-1 : Int) fun k => (start + k : Nat))
      else none := by
  rw [strfind, getInto, getAmxString_eq hhaystack]
  by_cases hfits : haystack.length < bufferSize
  · rw [Nat.mul_zero, Nat.sub_zero, if_pos hfits, Option.map_some, Option.bind_some]
    dsimp only
    rw [getInto, getAmxString_eq hneedle, Nat.mul_one]
    by_cases hfits' : needle.length < bufferSize - rowSize
    · rw [if_pos hfits', if_pos ⟨hfits, hfits'⟩, Option.map_some, Option.bind_some]
      dsimp only
      rw [hstart, if_neg (by omega), if_neg (by omega), Int.toNat_natCast]
      rfl
    · rw [if_neg hfits', if_neg fun h => hfits' h.2]
      rfl
  · rw [Nat.mul_zero, Nat.sub_zero, if_neg hfits, if_neg fun h => hfits h.1]
    rfl

theorem strfind_isFirst_iff (hhaystack : Holds memory amx (cellNumber (params 1)) haystack)
    (hneedle : Holds memory amx (cellNumber (params 2)) needle)
    (hstart : (params 4).toInt = start) (hle : start ≤ haystack.length) :
    (∃ after result, strfind amx params memory buffor = some (after, result) ∧
        IsFirst (Occurs (params 3 ≠ 0) haystack needle) start result) ↔
      Findable buffor haystack needle (params 3 ≠ 0) start := by
  rw [strfind_eq hhaystack hneedle hstart hle, Findable, ← and_assoc]
  by_cases hfits : haystack.length < bufferSize ∧ needle.length < bufferSize - rowSize
  · rw [if_pos hfits, and_iff_right hfits]
    have hseen := isFirst_shift _ start (strstr_isFirst
      (cString ((prepared buffor haystack needle (params 3 ≠ 0)).drop start))
      (cString ((prepared buffor haystack needle (params 3 ≠ 0)).drop rowSize)))
    rw [← isFirst_iff (P := Seen buffor haystack needle (params 3 ≠ 0) start) hseen]
    constructor
    · rintro ⟨after, result, hsome, hfirst⟩
      obtain ⟨-, rfl⟩ := Prod.mk.inj (Option.some.inj hsome)
      exact hfirst
    · exact fun hfirst => ⟨_, _, rfl, hfirst⟩
  · rw [if_neg hfits]
    refine iff_of_false ?_ fun h => hfits h.1
    rintro ⟨_, _, hnone, -⟩
    cases hnone

end

/-! Strings that are shorter than their rows. -/

section

variable {buffor haystack needle front back : List Byte} {start : Nat}

theorem cString_append_zero (front back : List Byte) :
    cString (front ++ 0 :: back) = cString front := by
  rw [cString, cString, List.takeWhile_append, List.takeWhile_cons_of_neg (by simp),
    List.append_nil]
  split
  next hall => exact ((List.takeWhile_prefix _).eq_of_length hall).symm
  next => rfl

theorem clearBits_append (count : Nat) (front back : List Byte) :
    clearBits count (front ++ back) =
      clearBits count front ++ clearBits (count - front.length) back := by
  rw [clearBits, clearBits, clearBits, List.take_append, List.drop_append, List.map_append]
  rcases Nat.le_total count front.length with hle | hle
  · simp [Nat.sub_eq_zero_of_le hle]
  · rw [List.drop_eq_nil_of_le hle, List.nil_append, List.append_nil, List.append_assoc]

theorem clearBits_all {count : Nat} (h : front.length ≤ count) :
    clearBits count front = front.map clearBit := by
  rw [clearBits, List.take_of_length_le h, List.drop_eq_nil_of_le h, List.append_nil]

theorem clearBit_clearBit (c : Byte) : clearBit (clearBit c) = clearBit c := by
  revert c
  decide

theorem clearBits_clear (count : Nat) (front : List Byte) :
    clearBits count (front.map clearBit) = front.map clearBit := by
  rw [clearBits, ← List.map_take, ← List.map_drop, List.map_map]
  have hsame : clearBit ∘ clearBit = clearBit := funext clearBit_clearBit
  rw [hsame, ← List.map_append, List.take_append_drop]

theorem rows_eq (hbuffor : buffor.length = bufferSize) (hshort : haystack.length < rowSize)
    (needle : List Byte) :
    ∃ gap rest, put rowSize needle (put 0 haystack buffor) =
        haystack ++ 0 :: gap ++ (needle ++ 0 :: rest) ∧
      (haystack ++ 0 :: gap).length = rowSize := by
  rw [rowSize] at hshort
  rw [bufferSize] at hbuffor
  have hput : put 0 haystack buffor =
      haystack ++ 0 :: buffor.drop (haystack.length + 1) := by
    rw [put, List.take_zero, List.nil_append, Nat.zero_add]
  have hgap : (haystack ++ 0 :: buffor.drop (haystack.length + 1)).take rowSize =
      haystack ++ 0 :: (buffor.drop (haystack.length + 1)).take (rowSize - (haystack.length + 1)) := by
    have hroom : rowSize - haystack.length = rowSize - (haystack.length + 1) + 1 := by
      rw [rowSize]
      omega
    rw [List.take_append, List.take_of_length_le (by rw [rowSize]; omega), hroom,
      List.take_succ_cons]
  refine ⟨(buffor.drop (haystack.length + 1)).take (rowSize - (haystack.length + 1)),
    (haystack ++ 0 :: buffor.drop (haystack.length + 1)).drop (rowSize + needle.length + 1), ?_, ?_⟩
  · rw [put, hput, hgap]
  · rw [← hgap, List.length_take, List.length_append, List.length_cons, List.length_drop, rowSize]
    omega

theorem findable_of_respected (hbuffor : buffor.length = bufferSize)
    (hhaystack : 0 ∉ haystack) (hneedle : 0 ∉ needle) (hshort : haystack.length < rowSize)
    (hfits : needle.length < bufferSize - rowSize) (hstart : start ≤ haystack.length) :
    Findable buffor haystack needle false start := by
  obtain ⟨gap, rest, hrows, hfront⟩ := rows_eq hbuffor hshort needle
  have hsize : haystack.length < bufferSize := hshort.trans (by decide)
  refine ⟨hsize, hfits, fun k hk _ => ?_⟩
  have hseenNeedle : cString ((prepared buffor haystack needle false).drop rowSize) = needle := by
    rw [prepared, if_neg Bool.false_ne_true, hrows, ← hfront, List.drop_left,
      cString_append_zero]
    exact takeWhile_noNul hneedle
  have hseenHaystack : cString ((prepared buffor haystack needle false).drop start) =
      haystack.drop start := by
    rw [prepared, if_neg Bool.false_ne_true, hrows, List.append_assoc, List.cons_append,
      List.drop_append_of_le_length hstart, cString_append_zero]
    exact takeWhile_noNul fun hmem => hhaystack (List.mem_of_mem_drop hmem)
  rw [Seen, hseenNeedle, hseenHaystack, Occurs, if_neg Bool.false_ne_true, OccursAt, OccursAt,
    List.drop_drop, Nat.add_sub_cancel' hk]

theorem seen_ignoring_iff (hbuffor : buffor.length = bufferSize) (hneedle : 0 ∉ needle)
    (hshort : haystack.length < rowSize) (hshort' : needle.length ≤ rowSize)
    (hstart : start ≤ haystack.length) {k : Nat} :
    Seen buffor haystack needle true start k ↔
      OccursAt needle (cString ((haystack.map clearBit).drop start)) (k - start) := by
  obtain ⟨gap, rest, hrows, hfront⟩ := rows_eq hbuffor hshort needle
  have hgapLength : haystack.length + (gap.length + 1) = rowSize := by
    rw [← hfront, List.length_append, List.length_cons]
  have hcleared : ∃ gap', prepared buffor haystack needle true =
      haystack.map clearBit ++ 0 :: gap' ++ (needle ++ 0 :: rest) ∧
        (haystack.map clearBit ++ 0 :: gap').length = rowSize := by
    refine ⟨clearBits (needle.length - haystack.length - 1) gap, ?_, ?_⟩
    · rw [prepared, if_pos rfl, hrows, List.append_assoc, clearBits_append,
        clearBits_all le_rfl, Nat.sub_self, clearBits_append, clearBits_clear,
        List.length_map]
      have hnone : clearBits 0 (0 :: gap ++ (needle ++ 0 :: rest)) =
          0 :: gap ++ (needle ++ 0 :: rest) := by
        rw [clearBits, List.take_zero, List.drop_zero]
        rfl
      have hzero : ∀ count chars, clearBits count (0 :: chars) =
          0 :: clearBits (count - 1) chars := by
        intro count chars
        cases count with
        | zero => rfl
        | succ count => rfl
      rw [hnone, List.cons_append, hzero, clearBits_append,
        Nat.sub_eq_zero_of_le (by omega : needle.length - haystack.length - 1 ≤ gap.length),
        List.append_assoc, List.cons_append]
      congr 3
    · rw [List.length_append, List.length_map, List.length_cons, clearBits, List.length_append,
        List.length_map, ← List.length_append, List.take_append_drop, hgapLength]
  obtain ⟨gap', hprepared, hlength⟩ := hcleared
  have hseenNeedle : cString ((prepared buffor haystack needle true).drop rowSize) = needle := by
    rw [hprepared, ← hlength, List.drop_left, cString_append_zero]
    exact takeWhile_noNul hneedle
  have hseenHaystack : cString ((prepared buffor haystack needle true).drop start) =
      cString ((haystack.map clearBit).drop start) := by
    rw [hprepared, List.append_assoc, List.cons_append,
      List.drop_append_of_le_length (by rwa [List.length_map]), cString_append_zero]
  rw [Seen, hseenNeedle, hseenHaystack]

theorem findable_ignoring_iff_of_bit (hbuffor : buffor.length = bufferSize) (hneedle : 0 ∉ needle)
    (hshort : haystack.length < rowSize) (hshort' : needle.length ≤ rowSize)
    (hstart : start ≤ haystack.length) {c : Byte} (hc : c ∈ needle) (hbit : c &&& 32 ≠ 0) :
    Findable buffor haystack needle true start ↔
      ∀ k, start ≤ k → ¬ Occurs true haystack needle k := by
  have hnever : ∀ k, ¬ Seen buffor haystack needle true start k := by
    intro k
    rw [seen_ignoring_iff hbuffor hneedle hshort hshort' hstart]
    intro hoccurs
    have hmem := (List.takeWhile_sublist _).subset (List.mem_of_mem_drop (hoccurs.subset hc))
    obtain ⟨c', _, rfl⟩ := List.mem_map.mp (List.mem_of_mem_drop hmem)
    have hclear : ∀ c : Byte, clearBit c &&& 32 = 0 := by decide
    exact hbit (hclear c')
  have hsize : haystack.length < bufferSize := hshort.trans (by decide)
  have hfits : needle.length < bufferSize - rowSize := hshort'.trans_lt (by decide)
  rw [Findable, and_iff_right hsize, and_iff_right hfits]
  constructor
  · intro hall k hk hoccurs
    obtain ⟨first, hle, hfirst, hbefore⟩ := exists_firstFrom hk hoccurs
    exact hnever first ((hall first hle hbefore).mpr hfirst)
  · exact fun hnone k hk _ => iff_of_false (hnever k) (hnone k hk)

end

/-! All three. -/

section

variable {memory : Memory} {amx : Amx} {params : Nat → Cell} {fuel start : Nat}
  {H N : List Cell} {haystack needle : List Byte}

end

/-! The haystack `abc`, and the needle `b` in cell 4. -/

section

def abcLine : Memory := lineOf [97, 98, 99, 0, 98]

def needleAfter (igcase : Cell) : Nat → Cell
  | 2 => 4 * 4
  | 3 => igcase
  | _ => 0

def freshBuffor : List Byte := List.replicate bufferSize 0

end

end AmxModC.Strings
