import AmxModC.Foundation.CString
import AmxModC.Strings.Arguments

namespace AmxModC.Strings

open Foundation

/-! The native `strtok`. -/

/-- The loop, at the character number `i`, with what is in `left` and `right`.  `none` is
an access outside one of the three arrays, and also a loop that is not done with its
`fuel`. -/
def tokenLoop (string : List Byte) (token : Byte) (trim : Bool) :
    Nat → Nat → Bool → List Byte → List Byte → Option (List Byte × List Byte)
  | 0, _, _, _, _ => none
  | fuel + 1, i, doneFlag, left, right =>
      if i < string.length then
        (string ++ [0])[i]?.bind fun c =>
          (if trim && !doneFlag && isSpace c then
              (skipSpaces string (fun _ => true) fuel (i + 1)).map fun i => (i, true)
            else some (i, doneFlag)).bind fun (i, doneFlag) =>
            (string ++ [0])[i]?.bind fun c =>
              let found := !doneFlag && c = token
              let i := if found then i + 1 else i
              (string ++ [0])[i]?.bind fun c =>
                if doneFlag || found then
                  if right.length < string.length + 1 then
                    tokenLoop string token trim fuel (i + 1) true left (right ++ [c])
                  else none
                else if left.length < string.length + 1 then
                  tokenLoop string token trim fuel (i + 1) false (left ++ [c]) right
                else none
      else if right.length < string.length + 1 ∧ left.length < string.length + 1 then
        some (left, right)
      else none

/-- What is written from the first cells of `Left` and of `Right` on. -/
def strtokWrites (fuel : Nat) (amx : Amx) (params : Nat → Cell) (memory : Memory) :
    Option (List Cell × List Cell) :=
  (getAmxString memory amx bufferSize (cellNumber (params 1))).bind fun string =>
    let token := (params 6).setWidth 8
    (tokenLoop string token (params 7 ≠ 0) fuel 0 false [] []).map fun (left, right) =>
      (setChars (left.takeWhile (· ≠ 0)) (params 3).toInt,
        setChars (right.takeWhile (· ≠ 0)) (params 5).toInt)

def strtok (fuel : Nat) (amx : Amx) (params : Nat → Cell) (memory : Memory) : Option Memory :=
  (strtokWrites fuel amx params memory).map fun (left, right) =>
    (memory.store amx (cellNumber (params 2)) left).store amx (cellNumber (params 4)) right

/-! Without trimming. -/

section

variable {string left right t : List Byte} {token : Byte} {fuel i : Nat}

theorem tokenLoop_done {trim : Bool} (h : string.drop i = t) (hfuel : t.length < fuel)
    (hleft : left.length ≤ string.length) (hright : right.length + t.length ≤ string.length) :
    tokenLoop string token trim fuel i true left right = some (left, right ++ t) := by
  induction fuel generalizing i t right with
  | zero => exact absurd hfuel (Nat.not_lt_zero _)
  | succ fuel ih =>
      cases t with
      | nil =>
          have hend : ¬ i < string.length := Nat.not_lt.mpr (List.drop_eq_nil_iff.mp h)
          rw [List.length_nil, Nat.add_zero] at hright
          rw [tokenLoop, if_neg hend, if_pos ⟨by omega, by omega⟩, List.append_nil]
      | cons c t =>
          have hlength := congrArg List.length h
          rw [List.length_drop, List.length_cons] at hlength
          rw [List.length_cons] at hright
          rw [tokenLoop, if_pos (by omega), read_cons h]
          simp only [Option.bind_some, Bool.not_true, Bool.and_false, Bool.false_and,
            Bool.false_eq_true, if_false, Bool.or_false, if_true, read_cons h]
          rw [if_pos (by omega), ih (drop_next h) (Nat.lt_of_succ_lt_succ hfuel)
            (by rw [List.length_append, List.length_singleton]; omega), List.append_assoc]
          rfl

theorem tokenLoop_scan (hnul : 0 ∉ string) (h : string.drop i = t) (hfuel : t.length < fuel)
    (hleft : left.length + t.length ≤ string.length) :
    ∃ right, tokenLoop string token false fuel i false left [] =
        some (left ++ t.takeWhile (· ≠ token), right) ∧
      right.takeWhile (· ≠ 0) = (t.dropWhile (· ≠ token)).tail := by
  induction fuel generalizing i t left with
  | zero => exact absurd hfuel (Nat.not_lt_zero _)
  | succ fuel ih =>
      cases t with
      | nil =>
          have hend : ¬ i < string.length := Nat.not_lt.mpr (List.drop_eq_nil_iff.mp h)
          rw [List.length_nil, Nat.add_zero] at hleft
          rw [tokenLoop, if_neg hend, if_pos ⟨Nat.succ_pos _, by omega⟩]
          exact ⟨[], by rw [List.takeWhile_nil, List.append_nil], rfl⟩
      | cons c t =>
          have hlength := congrArg List.length h
          rw [List.length_drop, List.length_cons] at hlength
          rw [List.length_cons] at hleft
          have hnext := drop_next h
          rw [tokenLoop, if_pos (by omega), read_cons h]
          simp only [Option.bind_some, Bool.false_and, Bool.false_eq_true, if_false,
            Bool.not_false, Bool.true_and, Bool.false_or, read_cons h, decide_eq_true_eq]
          have hroom : ([] : List Byte).length < string.length + 1 := Nat.succ_pos _
          by_cases htoken : c = token
          · simp only [if_pos htoken]
            have hskip : (c :: t).takeWhile (· ≠ token) = [] ∧
                (c :: t).dropWhile (· ≠ token) = c :: t := by simp [htoken]
            rw [hskip.1, hskip.2, List.append_nil, List.tail_cons]
            have htail : 0 ∉ t := fun hmem => hnul (List.mem_of_mem_drop (hnext ▸ hmem))
            cases t with
            | nil =>
                rw [read_end hnext (by omega), Option.bind_some, if_pos hroom]
                have hpast : string.drop (i + 1 + 1) = [] :=
                  List.drop_eq_nil_of_le (by rw [List.length_nil] at hlength; omega)
                have hdone : tokenLoop string token false fuel (i + 1 + 1) true left [0] =
                    some (left, [0] ++ []) :=
                  tokenLoop_done hpast (Nat.zero_lt_of_lt (Nat.lt_of_succ_lt_succ hfuel)) (by omega)
                    (by simpa using by omega)
                exact ⟨[0], hdone, rfl⟩
            | cons c' t =>
                simp only [List.length_cons] at hlength hleft hfuel
                have hdone : tokenLoop string token false fuel (i + 1 + 1) true left [c'] =
                    some (left, [c'] ++ t) :=
                  tokenLoop_done (drop_next hnext) (by omega) (by omega)
                    (by rw [List.length_singleton]; omega)
                rw [read_cons hnext, Option.bind_some, if_pos hroom]
                exact ⟨c' :: t, hdone, takeWhile_noNul htail⟩
          · simp only [if_neg htoken]
            have hgo : (c :: t).takeWhile (· ≠ token) = c :: t.takeWhile (· ≠ token) ∧
                (c :: t).dropWhile (· ≠ token) = t.dropWhile (· ≠ token) := by simp [htoken]
            rw [read_cons h, Option.bind_some, if_pos (by omega), hgo.1, hgo.2]
            have hlonger : (left ++ [c]).length + t.length ≤ string.length := by
              rw [List.length_append, List.length_singleton]
              omega
            obtain ⟨right, hloop, hright⟩ := ih hnext (Nat.lt_of_succ_lt_succ hfuel) hlonger
            refine ⟨right, ?_, hright⟩
            rw [hloop, List.append_assoc]
            rfl

theorem tokenLoop_eq (token : Byte) (hnul : 0 ∉ string) (hfuel : string.length < fuel) :
    ∃ right, tokenLoop string token false fuel 0 false [] [] =
        some (string.takeWhile (· ≠ token), right) ∧
      right.takeWhile (· ≠ 0) = (string.dropWhile (· ≠ token)).tail :=
  tokenLoop_scan hnul List.drop_zero hfuel (by rw [List.length_nil, Nat.zero_add])

end

/-- The two parts of a string around the first `token`, or the string and nothing. -/
def Partitions (string : List Byte) (token : Byte) (left right : List Byte) : Prop :=
  token ∉ left ∧
    (string = left ++ token :: right ∨ token ∉ string ∧ string = left ∧ right = [])

def Cuts (text : List Byte) (max : Int) (cells : List Cell) : Prop :=
  cells = toCells (text.take max.toNat) ++ [0] ∧ (cells.length : Int) ≤ max + 1

def Tokenizes (string : List Byte) (token : Byte) (leftMax rightMax : Int)
    (written : Option (List Cell × List Cell)) : Prop :=
  ∃ left right, Partitions string token left right ∧ ∃ leftCells rightCells,
    written = some (leftCells, rightCells) ∧ Cuts left leftMax leftCells ∧
      Cuts right rightMax rightCells

section

variable {string text left right : List Byte} {token : Byte} {fuel : Nat} {memory : Memory}
  {amx : Amx} {params : Nat → Cell} {max : Int}

theorem partitions_scan (string : List Byte) (token : Byte) :
    Partitions string token (string.takeWhile (· ≠ token))
      (string.dropWhile (· ≠ token)).tail := by
  have hleft : token ∉ string.takeWhile (· ≠ token) := by
    intro hmem
    have hne := List.mem_takeWhile_imp hmem
    simp at hne
  refine ⟨hleft, ?_⟩
  have happend := List.takeWhile_append_dropWhile (p := (· ≠ token)) (l := string)
  cases hdrop : string.dropWhile (· ≠ token) with
  | nil =>
      rw [hdrop, List.append_nil] at happend
      exact .inr ⟨happend ▸ hleft, happend.symm, rfl⟩
  | cons c rest =>
      have hhead := List.head?_dropWhile_not (· ≠ token) string
      rw [hdrop] at hhead
      have hc : c = token := by simpa using hhead
      rw [hdrop, hc] at happend
      exact .inl happend.symm

theorem Partitions.unique (h : Partitions string token left right) :
    left = string.takeWhile (· ≠ token) ∧ right = (string.dropWhile (· ≠ token)).tail := by
  have hall : ∀ c ∈ left, decide (c ≠ token) = true := fun c hc =>
    decide_eq_true fun heq => h.1 (heq ▸ hc)
  rcases h.2 with rfl | ⟨-, rfl, rfl⟩
  · rw [List.takeWhile_append_of_pos hall, List.dropWhile_append_of_pos hall]
    simp
  · rw [List.takeWhile_eq_self_iff.mpr hall, List.dropWhile_eq_nil_iff.mpr hall]
    exact ⟨rfl, rfl⟩

theorem cuts_setChars_iff : Cuts text max (setChars text max) ↔ 0 ≤ max := by
  rw [Cuts, setChars]
  by_cases hmax : max < 0
  · refine iff_of_false (fun hcuts => ?_) (not_le.mpr hmax)
    have hlength := hcuts.2
    rw [List.length_append, List.length_singleton] at hlength
    omega
  · rw [if_neg hmax, eq_self_iff_true, true_and, List.length_append, List.length_singleton,
      toCells, List.length_map, List.length_take]
    omega

/-- With trimming off the native partitions the string exactly if it fits the buffer and
the limits are not negative. -/
theorem strtok_partitions_iff (hline : Holds memory amx (cellNumber (params 1)) string)
    (hfuel : string.length < fuel) (htrim : params 7 = 0) :
    (Tokenizes string ((params 6).setWidth 8) (params 3).toInt (params 5).toInt
        (strtokWrites fuel amx params memory) ↔
      string.length < bufferSize ∧ 0 ≤ (params 3).toInt ∧ 0 ≤ (params 5).toInt) ∧
    ∀ left right, strtokWrites fuel amx params memory = some (left, right) →
      strtok fuel amx params memory =
        some ((memory.store amx (cellNumber (params 2)) left).store amx (cellNumber (params 4))
          right) := by
  refine ⟨?_, fun left right hwrites => by rw [strtok, hwrites]; rfl⟩
  rw [strtokWrites, getAmxString_eq hline]
  by_cases hsize : string.length < bufferSize
  · obtain ⟨right, hloop, hright⟩ := tokenLoop_eq ((params 6).setWidth 8) hline.noNul hfuel
    have hleft : 0 ∉ string.takeWhile (· ≠ (params 6).setWidth 8) := fun hmem =>
      hline.noNul ((List.takeWhile_sublist _).subset hmem)
    have hoff : (decide (params 7 ≠ 0)) = false := by rw [htrim]; rfl
    rw [if_pos hsize, Option.bind_some, and_iff_right hsize, hoff]
    dsimp only
    rw [hloop, Option.map_some]
    dsimp only
    rw [takeWhile_noNul hleft, hright, ← cuts_setChars_iff, ← cuts_setChars_iff]
    constructor
    · rintro ⟨left', right', hparts, leftCells, rightCells, hwritten, hcuts⟩
      obtain ⟨rfl, rfl⟩ := hparts.unique
      obtain ⟨rfl, rfl⟩ := Prod.mk.inj (Option.some.inj hwritten)
      exact hcuts
    · intro hcuts
      exact ⟨_, _, partitions_scan string _, _, _, rfl, hcuts⟩
  · rw [if_neg hsize, Option.bind_none]
    refine iff_of_false ?_ fun h => hsize h.1
    rintro ⟨_, _, -, _, _, hnone, -⟩
    cases hnone

end

/-! Limits of 20000 characters, and the token `*`. -/

section

def starTokens : Nat → Cell
  | 2 => 4 * 20000
  | 3 => 20000
  | 4 => 4 * 50000
  | 5 => 20000
  | 6 => 42
  | _ => 0

theorem strtok_partitions_halves :
    Tokenizes [97, 42, 98] 42 20000 20000 (strtokWrites 4 0 starTokens (lineOf [97, 42, 98])) := by
  have hline : Holds (lineOf [97, 42, 98]) 0 (cellNumber (starTokens 1)) [97, 42, 98] := by decide
  exact (strtok_partitions_iff hline (by decide) rfl).1.mpr ⟨by decide, by decide, by decide⟩

/-- A string of 12288 characters leaves no room for its terminator in the buffer. -/
theorem strtok_overruns_buffer :
    ¬ ∀ (memory : Memory) (amx : Amx) (params : Nat → Cell) (string : List Byte) (fuel : Nat),
      Holds memory amx (cellNumber (params 1)) string → string.length < fuel → params 7 = 0 →
        (string.length : Int) ≤ (params 3).toInt → (string.length : Int) ≤ (params 5).toInt →
          Tokenizes string ((params 6).setWidth 8) (params 3).toInt (params 5).toInt
            (strtokWrites fuel amx params memory) := by
  intro h
  have hlength : (List.replicate 12288 (97 : Byte)).length = 12288 := List.length_replicate
  have hline : Holds (letterLine (0 + 12288)) 0 (cellNumber (starTokens 1))
      (List.replicate 12288 97) := holds_letterLine 0 0 12288
  have hlong : ((List.replicate 12288 (97 : Byte)).length : Int) ≤ (20000 : Cell).toInt := by
    rw [hlength]
    decide
  obtain ⟨_, _, -, _, _, hwritten, -⟩ :=
    h _ 0 starTokens _ 12289 hline (by rw [hlength]; decide) rfl hlong hlong
  rw [strtokWrites, getAmxString_eq hline, if_neg (by rw [hlength]; decide)] at hwritten
  cases hwritten

end

end AmxModC.Strings
