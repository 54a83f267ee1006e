import AmxModC.Strings.Cells
import AmxModC.Strings.Model

namespace AmxModC.Strings

open Foundation

/-! The native `replace`. -/

def fastcellcmp (text what : Nat → Option Cell) : Nat → Nat → Nat → Option Bool
  | _, _, 0 => some true
  | a, b, len + 1 =>
      (text a).bind fun x => (what b).bind fun y =>
        if x ≠ y then some false else fastcellcmp text what (a + 1) (b + 1) len

def moveTail (amx : Amx) (text browsed whatLen withLen restlen : Nat) (memory : Memory) :
    Memory :=
  memory.store amx (text + browsed + withLen)
    (memory.fetch amx (text + browsed + whatLen) (restlen + 1))

def substitute (amx : Amx) (text replacement : Nat) (inside : Nat → Bool)
    (browsed whatLen withLen restlen : Nat) (memory : Memory) : Option Memory :=
  if inside (browsed + whatLen + restlen) ∧ inside (browsed + withLen + restlen) then
    let memory := moveTail amx text browsed whatLen withLen restlen memory
    if withLen = 0 ∨ replacement + withLen ≤ text + browsed ∨
        text + browsed + withLen ≤ replacement then
      some (memory.store amx (text + browsed) (memory.fetch amx replacement withLen))
    else none
  else none

/-- The loop, which `browsed` cells have been passed by; the lengths are those of the
text, the needle and the replacement. -/
def replaceLoop (amx : Amx) (text what replacement : Nat) (inside : Nat → Bool)
    (textLen whatLen withLen : Nat) (memory : Memory) : Nat → Nat → Option (Memory × Int)
  | 0, _ => none
  | fuel + 1, browsed =>
      let readText := readCell memory amx text inside
      let readWhat := readCell memory amx what fun _ => true
      (readText browsed).bind fun c =>
        if c ≠ 0 ∧ browsed ≤ textLen - whatLen then
          (readWhat 0).bind fun first =>
            (if c = first then fastcellcmp readText readWhat browsed 0 whatLen
              else some false).bind fun same =>
              if same then
                (substitute amx text replacement inside browsed whatLen withLen
                  (textLen - (browsed + whatLen)) memory).map fun memory =>
                    (memory, (textLen - whatLen + withLen : Int))
              else
                replaceLoop amx text what replacement inside textLen whatLen withLen memory fuel
                  (browsed + 1)
        else some (memory, 0)

def withinLimit (limit : Int) (i : Nat) : Bool := (i : Int) ≤ limit

def replace (fuel : Nat) (amx : Amx) (params : Nat → Cell) (memory : Memory) :
    Option (Memory × Int) :=
  let text := cellNumber (params 1)
  let len := (params 2).toInt
  let what := cellNumber (params 3)
  let replacement := cellNumber (params 4)
  let inside := withinLimit len
  (amxstringLen (readCell memory amx replacement fun _ => true) fuel 0).bind fun withLen =>
    (amxstringLen (readCell memory amx what fun _ => true) fuel 0).bind fun whatLen =>
      (amxstringLen (readCell memory amx text inside) fuel 0).bind fun textLen =>
        if textLen < whatLen then some (memory, 0)
        else if whatLen < 1 then some (memory, 0)
        else if (textLen - whatLen + withLen : Int) > len then some (memory, 0)
        else replaceLoop amx text what replacement inside textLen whatLen withLen memory fuel 0

/-! The loop finds the first occurrence. -/

section

variable {memory : Memory} {amx : Amx} {text what replacement withLen : Nat}
  {inside : Nat → Bool} {T N : List Cell}

theorem fastcellcmp_eq (hT : HoldsCells memory amx text T) (hN : HoldsCells memory amx what N)
    (hinside : ∀ i ≤ T.length, inside i = true) {a b len : Nat} (hlen : b + len = N.length)
    (ha : a + len ≤ T.length) :
    fastcellcmp (readCell memory amx text inside) (readCell memory amx what fun _ => true) a b len =
      some (decide (∀ i < len, T[a + i]? = N[b + i]?)) := by
  induction len generalizing a b with
  | zero => simp [fastcellcmp]
  | succ len ih =>
      have hat : a < T.length := by omega
      have hbt : b < N.length := by omega
      rw [fastcellcmp, readCell, readCell, if_pos (hinside a (Nat.le_of_lt hat)), if_pos rfl,
        Option.bind_some, Option.bind_some, hT.cell hat, hN.cell hbt]
      by_cases heq : T[a] = N[b]
      · rw [if_neg (not_not.mpr heq), ih (by omega) (by omega)]
        congr 1
        rw [decide_eq_decide]
        constructor
        · intro h i hi
          cases i with
          | zero => rw [Nat.add_zero, Nat.add_zero, List.getElem?_eq_getElem hat,
              List.getElem?_eq_getElem hbt, heq]
          | succ i =>
              have hrest := h i (Nat.lt_of_succ_lt_succ hi)
              rwa [Nat.add_right_comm, Nat.add_assoc, Nat.add_right_comm b, Nat.add_assoc b]
                at hrest
        · intro h i hi
          have hrest := h (i + 1) (Nat.succ_lt_succ hi)
          rwa [← Nat.add_assoc, ← Nat.add_assoc, Nat.add_right_comm, Nat.add_right_comm b] at hrest
      · rw [if_pos heq]
        congr 1
        refine (decide_eq_false fun h => heq ?_).symm
        have hfirst := h 0 (Nat.succ_pos _)
        rw [Nat.add_zero, Nat.add_zero, List.getElem?_eq_getElem hat,
          List.getElem?_eq_getElem hbt] at hfirst
        exact Option.some.inj hfirst

theorem occursAt_of_compared {k : Nat} :
    (∀ i < N.length, T[k + i]? = N[0 + i]?) ↔ OccursAt N T k := by
  rw [occursAt_iff]
  simp only [Nat.zero_add]

theorem replaceLoop_cases (hT : HoldsCells memory amx text T)
    (hN : HoldsCells memory amx what N) (hinside : ∀ i ≤ T.length, inside i = true)
    (hne : N ≠ []) (hle : N.length ≤ T.length) {fuel k : Nat} (hk : k ≤ T.length)
    (hfuel : T.length < k + fuel) :
    (∃ first, FirstFrom (OccursAt N T) k first ∧
      replaceLoop amx text what replacement inside T.length N.length withLen memory fuel k =
        (substitute amx text replacement inside first N.length withLen
          (T.length - (first + N.length)) memory).map fun memory =>
            (memory, (T.length - N.length + withLen : Int))) ∨
    (∀ j, k ≤ j → ¬ OccursAt N T j) ∧
      replaceLoop amx text what replacement inside T.length N.length withLen memory fuel k =
        some (memory, 0) := by
  induction fuel generalizing k with
  | zero => exact absurd hfuel (not_lt.mpr hk)
  | succ fuel ih =>
      have hpos := List.length_pos_iff.mpr hne
      rw [replaceLoop, readCell, if_pos (hinside k hk), Option.bind_some]
      by_cases hgo : memory amx (text + k) ≠ 0 ∧ k ≤ T.length - N.length
      · have hroom : k + N.length ≤ T.length := by omega
        have hkT : k < T.length := by omega
        rw [if_pos hgo, readCell, if_pos rfl, Option.bind_some, hT.cell hkT, hN.cell hpos]
        have hsame : (if T[k] = N[0] then
            fastcellcmp (readCell memory amx text inside) (readCell memory amx what fun _ => true)
              k 0 N.length
            else some false) = some (decide (OccursAt N T k)) := by
          split
          next =>
              rw [fastcellcmp_eq hT hN hinside (Nat.zero_add _) hroom]
              exact congrArg some (decide_eq_decide.mpr occursAt_of_compared)
          next hother =>
              congr 1
              refine (decide_eq_false fun hoccurs => hother ?_).symm
              have hfirst := hoccurs.getElem? hpos
              rw [Nat.add_zero, List.getElem?_eq_getElem hkT,
                List.getElem?_eq_getElem hpos] at hfirst
              exact Option.some.inj hfirst
        rw [hsame, Option.bind_some]
        by_cases hoccurs : OccursAt N T k
        · rw [if_pos (decide_eq_true hoccurs)]
          exact .inl ⟨k, ⟨le_rfl, hoccurs, fun j hj hlt => absurd hlt (not_lt.mpr hj)⟩, rfl⟩
        · rw [if_neg (by simpa using hoccurs)]
          rcases ih (k := k + 1) hkT (by omega) with ⟨first, hfirst, hloop⟩ | ⟨hnone, hloop⟩
          · refine .inl ⟨first, ⟨by have := hfirst.1; omega, hfirst.2.1, fun j hj hlt => ?_⟩, hloop⟩
            rcases Nat.lt_or_eq_of_le hj with hgt | rfl
            · exact hfirst.2.2 j hgt hlt
            · exact hoccurs
          · refine .inr ⟨fun j hj => ?_, hloop⟩
            rcases Nat.lt_or_eq_of_le hj with hgt | rfl
            · exact hnone j hgt
            · exact hoccurs
      · rw [if_neg hgo]
        refine .inr ⟨fun j hj hoccurs => hgo ?_, rfl⟩
        have hroom := hoccurs.length_le hne
        exact ⟨hT.ne_zero (by omega), by omega⟩

end

/-! What the two moves leave in the memory. -/

section

variable {memory : Memory} {amx : Amx} {text replacement k whatLen withLen restlen : Nat}

def copied (amx : Amx) (text replacement k whatLen withLen restlen : Nat) (memory : Memory) :
    List Cell :=
  (moveTail amx text k whatLen withLen restlen memory).fetch amx replacement withLen

theorem moveTail_inside {j : Nat} (hj : j ≤ restlen) :
    moveTail amx text k whatLen withLen restlen memory amx (text + k + withLen + j) =
      memory amx (text + k + whatLen + j) := by
  have hlength : j < (memory.fetch amx (text + k + whatLen) (restlen + 1)).length := by
    rw [Memory.length_fetch]
    omega
  rw [moveTail, Memory.store_of_lt hlength]
  have hfetched := Memory.getElem?_fetch memory amx (text + k + whatLen)
    (Nat.lt_succ_of_le hj)
  exact (List.getElem?_eq_some_iff.mp hfetched).2

theorem moveTail_outside {owner : Amx} {i : Nat}
    (h : ¬ (owner = amx ∧ text + k + withLen ≤ i ∧ i ≤ text + k + withLen + restlen)) :
    moveTail amx text k whatLen withLen restlen memory owner i = memory owner i := by
  refine Memory.store_of_not fun hin => h ?_
  rw [Memory.length_fetch] at hin
  exact ⟨hin.1, hin.2.1, by omega⟩

theorem substituted_tail {j : Nat} (hj : j ≤ restlen) :
    ((moveTail amx text k whatLen withLen restlen memory).store amx (text + k)
      (copied amx text replacement k whatLen withLen restlen memory)) amx
        (text + k + withLen + j) = memory amx (text + k + whatLen + j) := by
  rw [Memory.store_of_not, moveTail_inside hj]
  rw [copied, Memory.length_fetch]
  omega

theorem substituted_middle {i : Nat} (hi : i < withLen) :
    ((moveTail amx text k whatLen withLen restlen memory).store amx (text + k)
      (copied amx text replacement k whatLen withLen restlen memory)) amx (text + k + i) =
        moveTail amx text k whatLen withLen restlen memory amx (replacement + i) := by
  have hlength : i < (copied amx text replacement k whatLen withLen restlen memory).length := by
    rwa [copied, Memory.length_fetch]
  rw [Memory.store_of_lt hlength]
  have hfetched := Memory.getElem?_fetch (moveTail amx text k whatLen withLen restlen memory) amx
    replacement hi
  exact (List.getElem?_eq_some_iff.mp hfetched).2

theorem substituted_outside {owner : Amx} {i : Nat}
    (h : ¬ (owner = amx ∧ text + k ≤ i ∧ i ≤ text + k + withLen + restlen)) :
    ((moveTail amx text k whatLen withLen restlen memory).store amx (text + k)
      (copied amx text replacement k whatLen withLen restlen memory)) owner i =
        memory owner i := by
  rw [Memory.store_of_not, moveTail_outside]
  · exact fun hin => h ⟨hin.1, by omega, hin.2.2⟩
  · rw [copied, Memory.length_fetch]
    exact fun hin => h ⟨hin.1, hin.2.1, by omega⟩

end

def replacedSize (T N R : List Cell) : Int := T.length - N.length + R.length

def Substitutes (before : Memory) (amx : Amx) (text : Nat) (limit : Int) (T N R : List Cell)
    (result : Option (Memory × Int)) : Prop :=
  ∃ after ret, result = some (after, ret) ∧
    ((N = [] ∨ (∀ k, ¬ OccursAt N T k) ∨ limit < replacedSize T N R) ∧ after = before ∨
      N ≠ [] ∧ replacedSize T N R ≤ limit ∧ ∃ front back, T = front ++ N ++ back ∧
        (∀ j < front.length, ¬ OccursAt N T j) ∧ HoldsCells after amx text (front ++ R ++ back) ∧
        ret = (front ++ R ++ back).length ∧
        ∀ owner i, ¬ (owner = amx ∧ text ≤ i ∧ (i : Int) ≤ text + limit) →
          after owner i = before owner i)

/-- The replacement is not where it is copied to, and the move of the tail leaves it as
it is. -/
def Undisturbed (text replacement : Nat) (T N R : List Cell) (k : Nat) : Prop :=
  R = [] ∨ (replacement + R.length ≤ text + k ∨ text + k + R.length ≤ replacement) ∧
    ∀ i < R.length, ∀ j ≤ T.length - (k + N.length), replacement + i = text + k + R.length + j →
      R[i]? = (T ++ [0])[k + N.length + j]?

def Replaceable (text replacement : Nat) (limit : Int) (T N R : List Cell) : Prop :=
  (T.length : Int) ≤ limit ∧ ∀ k, N ≠ [] → replacedSize T N R ≤ limit →
    FirstFrom (OccursAt N T) 0 k → Undisturbed text replacement T N R k

section

variable {memory : Memory} {amx : Amx} {text replacement k : Nat} {limit : Int}
  {T N R : List Cell}

theorem withinLimit_iff {i : Nat} : withinLimit limit i = true ↔ (i : Int) ≤ limit :=
  decide_eq_true_iff

theorem substitute_eq (hoccurs : OccursAt N T k) (hne : N ≠ []) (hT : (T.length : Int) ≤ limit)
    (hsize : replacedSize T N R ≤ limit) :
    substitute amx text replacement (withinLimit limit) k N.length R.length
        (T.length - (k + N.length)) memory =
      if R = [] ∨ replacement + R.length ≤ text + k ∨ text + k + R.length ≤ replacement then
        some ((moveTail amx text k N.length R.length (T.length - (k + N.length)) memory).store amx
          (text + k)
          (copied amx text replacement k N.length R.length (T.length - (k + N.length)) memory))
      else none := by
  have hroom := hoccurs.length_le hne
  rw [replacedSize] at hsize
  have hinside : withinLimit limit (k + N.length + (T.length - (k + N.length))) = true ∧
      withinLimit limit (k + R.length + (T.length - (k + N.length))) = true :=
    ⟨withinLimit_iff.mpr (by omega), withinLimit_iff.mpr (by omega)⟩
  rw [substitute, if_pos hinside]
  exact if_congr (or_congr_left List.length_eq_zero_iff) rfl rfl

theorem moveTail_replacement {i j : Nat} (hj : j ≤ T.length - (k + N.length))
    (heq : replacement + i = text + k + R.length + j) :
    moveTail amx text k N.length R.length (T.length - (k + N.length)) memory amx
        (replacement + i) = memory amx (text + (k + N.length + j)) := by
  rw [heq, moveTail_inside hj]
  congr 1
  omega

theorem holds_substituted (hT : HoldsCells memory amx text T) (hR : 0 ∉ R)
    (hroom : k + N.length ≤ T.length)
    (hmiddle : ∀ i (hi : i < R.length),
      moveTail amx text k N.length R.length (T.length - (k + N.length)) memory amx
        (replacement + i) = R[i]) :
    HoldsCells ((moveTail amx text k N.length R.length (T.length - (k + N.length)) memory).store
        amx (text + k)
        (copied amx text replacement k N.length R.length (T.length - (k + N.length)) memory))
      amx text (T.take k ++ R ++ T.drop (k + N.length)) := by
  have hfront : (T.take k).length = k := by
    rw [List.length_take]
    omega
  have hback : (T.drop (k + N.length)).length = T.length - (k + N.length) := List.length_drop
  refine HoldsCells.of_cells ?_ (fun i hi => ?_) ?_
  · simp only [List.mem_append, not_or]
    exact ⟨⟨fun hmem => hT.1 (List.mem_of_mem_take hmem), hR⟩,
      fun hmem => hT.1 (List.mem_of_mem_drop hmem)⟩
  · simp only [List.length_append, hfront, hback] at hi
    rcases Nat.lt_or_ge i k with hlt | hge
    · rw [substituted_outside fun h => by omega, hT.cell (by omega),
        List.getElem_append_left (by rw [List.length_append]; omega),
        List.getElem_append_left (by omega), List.getElem_take]
    · obtain ⟨j, rfl⟩ := Nat.exists_eq_add_of_le hge
      rcases Nat.lt_or_ge j R.length with hlt | hge
      · rw [← Nat.add_assoc, substituted_middle hlt, hmiddle j hlt,
          List.getElem_append_left (by rw [List.length_append]; omega),
          List.getElem_append_right (by omega)]
        simp only [hfront, Nat.add_sub_cancel_left]
      · obtain ⟨j, rfl⟩ := Nat.exists_eq_add_of_le hge
        have hplace : text + (k + (R.length + j)) = text + k + R.length + j := by omega
        have hsource : text + k + N.length + j = text + (k + N.length + j) := by omega
        rw [hplace, substituted_tail (by omega), hsource, hT.cell (by omega),
          List.getElem_append_right (by rw [List.length_append]; omega), List.getElem_drop]
        simp only [List.length_append, hfront]
        congr 1
        omega
  · simp only [List.length_append, hfront, hback]
    have hplace : text + (k + R.length + (T.length - (k + N.length))) =
        text + k + R.length + (T.length - (k + N.length)) := by omega
    have hsource : text + k + N.length + (T.length - (k + N.length)) = text + T.length := by
      omega
    rw [hplace, substituted_tail le_rfl, hsource, hT.terminator]

theorem holds_substituted_iff (hT : HoldsCells memory amx text T)
    (hR : HoldsCells memory amx replacement R) (hoccurs : OccursAt N T k) (hne : N ≠ []) :
    HoldsCells ((moveTail amx text k N.length R.length (T.length - (k + N.length)) memory).store
        amx (text + k)
        (copied amx text replacement k N.length R.length (T.length - (k + N.length)) memory))
      amx text (T.take k ++ R ++ T.drop (k + N.length)) ↔
    ∀ i < R.length, ∀ j ≤ T.length - (k + N.length), replacement + i = text + k + R.length + j →
      R[i]? = (T ++ [0])[k + N.length + j]? := by
  have hroom := hoccurs.length_le hne
  constructor
  · intro hafter i hi j hj heq
    have hfront : (T.take k).length = k := by
      rw [List.length_take]
      omega
    have hmiddle : (T.take k ++ R ++ T.drop (k + N.length))[k + i]? = R[i]? := by
      rw [List.append_assoc, List.getElem?_append_right (by omega), hfront,
        Nat.add_sub_cancel_left, List.getElem?_append_left hi]
    have hlt : k + i < (T.take k ++ R ++ T.drop (k + N.length)).length := by
      simp only [List.length_append]
      omega
    have hcell := hafter.cell hlt
    rw [← Nat.add_assoc, substituted_middle hi, moveTail_replacement hj heq] at hcell
    rw [← hmiddle, List.getElem?_eq_getElem hlt, ← hcell]
    exact (hT.2 _ (by omega)).symm
  · intro hunmoved
    refine holds_substituted hT hR.1 hroom fun i hi => ?_
    by_cases hin : text + k + R.length ≤ replacement + i ∧
        replacement + i ≤ text + k + R.length + (T.length - (k + N.length))
    · obtain ⟨j, hj⟩ := Nat.exists_eq_add_of_le hin.1
      have hle : j ≤ T.length - (k + N.length) := by omega
      have hsame := hunmoved i hi j hle hj
      rw [hT.2 _ (by omega), List.getElem?_eq_getElem hi] at hsame
      rw [moveTail_replacement hle hj]
      exact (Option.some.inj hsame).symm
    · rw [moveTail_outside fun h => hin h.2]
      exact hR.cell hi

end

section

variable {memory : Memory} {amx : Amx} {params : Nat → Cell} {fuel k : Nat} {limit : Int}
  {T N R : List Cell} {result : Option (Memory × Int)}

theorem substitutes_unchanged
    (h : N = [] ∨ (∀ k, ¬ OccursAt N T k) ∨ limit < replacedSize T N R) {text : Nat} :
    Substitutes memory amx text limit T N R (some (memory, 0)) :=
  ⟨memory, 0, rfl, .inl ⟨h, rfl⟩⟩

theorem first_split {front back : List Cell} (hfirst : FirstFrom (OccursAt N T) 0 k)
    (hsplit : T = front ++ N ++ back) (hbefore : ∀ j < front.length, ¬ OccursAt N T j) :
    front = T.take k ∧ back = T.drop (k + N.length) := by
  have hfront : FirstFrom (OccursAt N T) 0 front.length :=
    ⟨Nat.zero_le _, hsplit ▸ occursAt_append front N back, fun j _ hlt => hbefore j hlt⟩
  obtain rfl := hfirst.unique hfront
  constructor
  · rw [hsplit, List.append_assoc, List.take_left]
  · rw [hsplit, ← List.length_append, List.drop_left]

theorem length_replaced (hoccurs : OccursAt N T k) (hne : N ≠ []) :
    ((T.take k ++ R ++ T.drop (k + N.length)).length : Int) = replacedSize T N R := by
  have hroom := hoccurs.length_le hne
  simp only [List.length_append, List.length_take, List.length_drop, replacedSize]
  omega

theorem substitutes_moved_iff {text replacement : Nat} (hT : HoldsCells memory amx text T)
    (hR : HoldsCells memory amx replacement R) (hne : N ≠ []) (hlimit : (T.length : Int) ≤ limit)
    (hsize : replacedSize T N R ≤ limit) (hfirst : FirstFrom (OccursAt N T) 0 k) :
    Substitutes memory amx text limit T N R
        ((substitute amx text replacement (withinLimit limit) k N.length R.length
          (T.length - (k + N.length)) memory).map fun memory => (memory, replacedSize T N R)) ↔
      Undisturbed text replacement T N R k := by
  have hroom := hfirst.2.1.length_le hne
  rw [substitute_eq hfirst.2.1 hne hlimit hsize, Undisturbed]
  constructor
  · rintro ⟨after, ret, hresult, ⟨hnone, -⟩ | ⟨-, -, front, back, hsplit, hbefore, hafter, -, -⟩⟩
    · rcases hnone with hnil | hnowhere | hlarge
      · exact absurd hnil hne
      · exact absurd hfirst.2.1 (hnowhere k)
      · omega
    · obtain ⟨rfl, rfl⟩ := first_split hfirst hsplit hbefore
      split at hresult
      next happart =>
          obtain ⟨rfl, -⟩ := Prod.mk.inj (Option.some.inj hresult)
          exact happart.imp id fun h =>
            ⟨h, (holds_substituted_iff hT hR hfirst.2.1 hne).mp hafter⟩
      next => cases hresult
  · intro hundisturbed
    have happart : R = [] ∨ replacement + R.length ≤ text + k ∨ text + k + R.length ≤ replacement :=
      hundisturbed.imp id And.left
    have hunmoved : ∀ i < R.length, ∀ j ≤ T.length - (k + N.length),
        replacement + i = text + k + R.length + j → R[i]? = (T ++ [0])[k + N.length + j]? := by
      rcases hundisturbed with rfl | h
      · exact fun i hi => absurd hi (Nat.not_lt_zero i)
      · exact h.2
    rw [if_pos happart, Option.map_some]
    refine ⟨_, _, rfl, .inr ⟨hne, hsize, T.take k, T.drop (k + N.length), ?_, ?_, ?_, ?_, ?_⟩⟩
    · obtain ⟨front, back, hsplit, hlength⟩ := hfirst.2.1.split (by omega)
      obtain ⟨rfl, rfl⟩ := first_split hfirst hsplit fun j hj => hfirst.2.2 j (Nat.zero_le j) (by omega)
      exact hsplit
    · intro j hj
      rw [List.length_take] at hj
      exact hfirst.2.2 j (Nat.zero_le j) (by omega)
    · exact (holds_substituted_iff hT hR hfirst.2.1 hne).mpr hunmoved
    · exact (length_replaced hfirst.2.1 hne).symm
    · intro owner i hout
      refine substituted_outside fun hin => hout ⟨hin.1, by omega, ?_⟩
      rw [replacedSize] at hsize
      omega

/-- The native does what it is for exactly if the text fits its buffer and the
replacement is not disturbed. -/
theorem replace_substitutes_iff (hT : HoldsCells memory amx (cellNumber (params 1)) T)
    (hN : HoldsCells memory amx (cellNumber (params 3)) N)
    (hR : HoldsCells memory amx (cellNumber (params 4)) R) (hfuelT : T.length < fuel)
    (hfuelN : N.length < fuel) (hfuelR : R.length < fuel) :
    Substitutes memory amx (cellNumber (params 1)) (params 2).toInt T N R
        (replace fuel amx params memory) ↔
      Replaceable (cellNumber (params 1)) (cellNumber (params 4)) (params 2).toInt T N R := by
  have hmono : ∀ i ≤ T.length, withinLimit (params 2).toInt T.length = true →
      withinLimit (params 2).toInt i = true := by
    intro i hi hend
    rw [withinLimit_iff] at hend ⊢
    omega
  have hlenT := hT.amxstringLen_eq (withinLimit (params 2).toInt) hmono (Nat.zero_le _)
    (by rwa [Nat.zero_add])
  have hlenN := hN.amxstringLen_eq (fun _ => true) (fun _ _ _ => rfl) (Nat.zero_le _)
    (by rwa [Nat.zero_add])
  have hlenR := hR.amxstringLen_eq (fun _ => true) (fun _ _ _ => rfl) (Nat.zero_le _)
    (by rwa [Nat.zero_add])
  rw [replace, hlenR, if_pos rfl, Option.bind_some, hlenN, if_pos rfl, Option.bind_some, hlenT]
  by_cases hlimit : (T.length : Int) ≤ (params 2).toInt
  · have hinside : ∀ i ≤ T.length, withinLimit (params 2).toInt i = true := fun i hi =>
      withinLimit_iff.mpr (by omega)
    rw [if_pos (withinLimit_iff.mpr hlimit), Option.bind_some, Replaceable, and_iff_right hlimit]
    have hempty : N.length < 1 ↔ N = [] := by
      rw [Nat.lt_one_iff, List.length_eq_zero_iff]
    by_cases hshort : T.length < N.length
    · rw [if_pos hshort]
      have hnone : ∀ k, N ≠ [] → ¬ OccursAt N T k := fun k hne hoccurs => by
        have := hoccurs.length_le hne
        omega
      refine iff_of_true (substitutes_unchanged ?_) fun k hne _ hfirst =>
        absurd hfirst.2.1 (hnone k hne)
      by_cases hnil : N = []
      · exact .inl hnil
      · exact .inr (.inl fun k => hnone k hnil)
    · rw [if_neg hshort]
      by_cases hnil : N = []
      · rw [if_pos (hempty.mpr hnil)]
        exact iff_of_true (substitutes_unchanged (.inl hnil)) fun k hne => absurd hnil hne
      · rw [if_neg fun h => hnil (hempty.mp h), ← replacedSize]
        by_cases hlarge : replacedSize T N R > (params 2).toInt
        · rw [if_pos hlarge]
          exact iff_of_true (substitutes_unchanged (.inr (.inr hlarge)))
            fun k _ hsize => absurd hsize (not_le.mpr hlarge)
        · rw [if_neg hlarge]
          rcases replaceLoop_cases hT hN hinside hnil (not_lt.mp hshort) (Nat.zero_le _)
            (by rwa [Nat.zero_add]) with
            ⟨first, hfirst, hloop⟩ | ⟨hnone, hloop⟩
          · rw [hloop, ← replacedSize,
              substitutes_moved_iff hT hR hnil hlimit (not_lt.mp hlarge) hfirst]
            constructor
            · intro hundisturbed k _ _ hk
              exact hk.unique hfirst ▸ hundisturbed
            · exact fun hall => hall first hnil (not_lt.mp hlarge) hfirst
          · rw [hloop]
            exact iff_of_true
              (substitutes_unchanged (.inr (.inl fun k => hnone k (Nat.zero_le k))))
              fun k _ _ hfirst => absurd hfirst.2.1 (hnone k (Nat.zero_le k))
  · rw [if_neg fun h => hlimit (withinLimit_iff.mp h), Option.bind_none]
    refine iff_of_false ?_ fun h => hlimit h.1
    rintro ⟨_, _, hnone, -⟩
    cases hnone

end

/-! The text `abcd` in a buffer for eight characters, and the needle `a` in cell 10. -/

section

def needleBehind (replacement : Cell) : Nat → Cell
  | 2 => 8
  | 3 => 4 * 10
  | 4 => replacement
  | _ => 0

def abcdLine : Memory := lineOf [97, 98, 99, 100, 0, 0, 0, 0, 0, 0, 97, 0, 120, 121, 0]

/-- The replacement `xy` is behind the needle. -/
theorem replace_substitutes_xy :
    Substitutes abcdLine 0 0 8 [97, 98, 99, 100] [97] [120, 121]
      (replace 5 0 (needleBehind (4 * 12)) abcdLine) := by
  have hT : HoldsCells abcdLine 0 (cellNumber (needleBehind (4 * 12) 1)) [97, 98, 99, 100] := by
    decide
  have hN : HoldsCells abcdLine 0 (cellNumber (needleBehind (4 * 12) 3)) [97] := by decide
  have hR : HoldsCells abcdLine 0 (cellNumber (needleBehind (4 * 12) 4)) [120, 121] := by decide
  refine (replace_substitutes_iff hT hN hR (by decide) (by decide) (by decide)).mpr
    ⟨by decide, fun k _ _ hfirst => ?_⟩
  have hroom := hfirst.2.1.length_le (List.cons_ne_nil _ _)
  rw [List.length_singleton, show ([97, 98, 99, 100] : List Cell).length = 4 from rfl] at hroom
  have hfar : cellNumber (needleBehind (4 * 12) 4) = 12 ∧ cellNumber (needleBehind (4 * 12) 1) = 0 :=
    by decide
  refine .inr ⟨.inr ?_, fun i _ j hj heq => ?_⟩
  · rw [hfar.1, hfar.2, show ([120, 121] : List Cell).length = 2 from rfl]
    omega
  · rw [hfar.1, hfar.2, show ([120, 121] : List Cell).length = 2 from rfl] at heq
    rw [List.length_singleton, show ([97, 98, 99, 100] : List Cell).length = 4 from rfl] at hj
    omega

/-- The replacement `cd` is the end of the text, which moves before it is copied. -/
theorem replace_copies_the_moved :
    ¬ ∀ (memory : Memory) (amx : Amx) (params : Nat → Cell) (T N R : List Cell) (fuel : Nat),
      HoldsCells memory amx (cellNumber (params 1)) T →
        HoldsCells memory amx (cellNumber (params 3)) N →
          HoldsCells memory amx (cellNumber (params 4)) R → (T.length : Int) ≤ (params 2).toInt →
            T.length < fuel → N.length < fuel → R.length < fuel →
              Substitutes memory amx (cellNumber (params 1)) (params 2).toInt T N R
                (replace fuel amx params memory) := by
  intro h
  obtain ⟨after, ret, hresult, hafter⟩ := h abcdLine 0 (needleBehind (4 * 2)) [97, 98, 99, 100]
    [97] [99, 100] 5 (by decide) (by decide) (by decide) (by decide) (by decide) (by decide)
    (by decide)
  have hcells : (replace 5 0 (needleBehind (4 * 2)) abcdLine).map (fun r => r.1.fetch 0 0 6) =
      some [98, 99, 98, 99, 100, 0] := by decide +kernel
  rw [hresult, Option.map_some, Option.some.injEq] at hcells
  rcases hafter with ⟨-, rfl⟩ | ⟨-, -, front, back, hsplit, -, hholds, -, -⟩
  · have hsame : abcdLine.fetch 0 0 6 ≠ [98, 99, 98, 99, 100, 0] := by decide
    exact absurd hcells hsame
  · have hnow : HoldsCells after 0 0 [98, 99, 98, 99, 100] := by
      refine ⟨by decide, fun i hi => ?_⟩
      rw [← Memory.getElem?_fetch after 0 0 (Nat.lt_succ_of_le hi)]
      exact congrArg (·[i]?) hcells.symm
    have hsame := hholds.unique hnow
    cases front with
    | nil => exact absurd (List.cons.inj hsame).1 (by decide)
    | cons c front =>
        have hc := (List.cons.inj hsplit).1
        exact absurd (hc.trans (List.cons.inj hsame).1) (by decide)

end

end AmxModC.Strings
