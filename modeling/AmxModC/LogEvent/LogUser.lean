import AmxModC.Foundation.CString
import AmxModC.Foundation.Numeral
import AmxModC.Strings.Tokens

namespace AmxModC.LogEvent

open Foundation Strings

/-! The native `parse_loguser`, for the users in the lines of the log. -/

inductive LoguserError
  | noName
  | noAuthid
  | noUserid
deriving DecidableEq

def LoguserError.message : LoguserError → String
  | noName => "No user name specified"
  | noAuthid => "No Authid found"
  | noUserid => "No Userid found"

/-- `while (*end != '<' && len--) --end;`, where `len` is the index of `end` and -1 in the end
if there is no bracket. -/
def scanBack (text : List Byte) : Nat → Option (Nat × Int)
  | 0 => text[0]?.map fun c => if c = 60 then (0, 0) else (0, -1)
  | i + 1 =>
      text[i + 1]?.bind fun c =>
        if c = 60 then some (i + 1, ((i + 1 : Nat) : Int)) else scanBack text i

/-- `while (max-- && *end) *cPtr++ = *end++;` and the terminator. -/
def copyChars : List Byte → Int → Option (List Cell)
  | [], max => if max = 0 then some [0] else none
  | c :: rest, max =>
      if max = 0 ∨ c = 0 then some [0]
      else (copyChars rest (max - 1)).map (c.signExtend 32 :: ·)

/-- The field behind the last bracket in front of the character number `len`, which is
taken to be the closing one. -/
def getField (text : List Byte) (len : Nat) (max : Int) :
    Option (List Byte × Int × List Cell) :=
  let text := text.set len 0
  (scanBack text len).bind fun (stop, len) =>
    (copyChars (text.drop (stop + 1)) max).map fun cells => (text, len, cells)

def storeUserid (amx : Amx) (params : Nat → Cell) (userid : Int) (memory : Memory) : Memory :=
  if memory amx (cellNumber (params 4)) ≠ -2 then
    memory.store amx (cellNumber (params 4)) [BitVec.ofInt 32 userid]
  else memory

def getUseridAndName (amx : Amx) (params : Nat → Cell) (text : List Byte) (len : Nat)
    (memory : Memory) : Option (Memory × Except LoguserError Unit) :=
  let text := text.set len 0
  (scanBack text len).bind fun (stop, _) =>
    let memory := storeUserid amx params (atoi ((text.drop (stop + 1)).takeWhile (· ≠ 0))) memory
    (copyChars (text.set stop 0) (params 3).toInt).map fun name =>
      (memory.store amx (cellNumber (params 2)) name, .ok ())

def getAuthid (amx : Amx) (params : Nat → Cell) (text : List Byte) (len : Int)
    (memory : Memory) : Option (Memory × Except LoguserError Unit) :=
  if len ≤ 0 then some (memory, .error .noAuthid)
  else
    (getField text (len.toNat - 1) (params 6).toInt).bind fun (text, len, auth) =>
      let memory := memory.store amx (cellNumber (params 5)) auth
      if len ≤ 0 then some (memory, .error .noUserid)
      else getUseridAndName amx params text (len.toNat - 1) memory

def parseLoguser (amx : Amx) (params : Nat → Cell) (memory : Memory) :
    Option (Memory × Except LoguserError Unit) :=
  (getAmxString memory amx bufferSize (cellNumber (params 1))).bind fun chars =>
    if chars.length < 6 then some (memory, .error .noName)
    else
      (getField (chars ++ [0]) (chars.length - 1) (params 8).toInt).bind fun (text, len, team) =>
        getAuthid amx params text len (memory.store amx (cellNumber (params 7)) team)

/-! The scans, from the end of the text. -/

section

variable {s front field rest : List Byte} {c : Byte} {max : Int}

theorem scanBack_found (front rest : List Byte) (hfield : 60 ∉ field) {k : Nat}
    (hk : k ≤ field.length) :
    scanBack (front ++ 60 :: field ++ rest) (front.length + k) =
      some (front.length, (front.length : Int)) := by
  induction k with
  | zero =>
      have hat : (front ++ 60 :: field ++ rest)[front.length]? = some 60 := by
        rw [List.append_assoc, List.getElem?_append_right le_rfl, Nat.sub_self]
        rfl
      cases hlength : front.length with
      | zero =>
          rw [hlength] at hat
          rw [Nat.add_zero, scanBack, hat]
          rfl
      | succ n =>
          rw [hlength] at hat
          rw [Nat.add_zero, scanBack, hat]
          rfl
  | succ k ih =>
      have hat : (front ++ 60 :: field ++ rest)[front.length + k + 1]? = some field[k] := by
        have hin : front.length + k + 1 - front.length = k + 1 := by omega
        rw [List.append_assoc, List.getElem?_append_right (by omega), hin, List.cons_append,
          List.getElem?_cons_succ, List.getElem?_append_left hk, List.getElem?_eq_getElem hk]
      have hother : field[k] ≠ 60 := fun heq => hfield (heq ▸ List.getElem_mem hk)
      rw [← Nat.add_assoc, scanBack, hat, Option.bind_some, if_neg hother]
      exact ih (Nat.le_of_succ_le hk)

theorem scanBack_missing (rest : List Byte) (hs : 60 ∉ s) {k : Nat} (hk : k < s.length) :
    scanBack (s ++ rest) k = some (0, -1) := by
  have hat : ∀ i (hi : i < s.length), (s ++ rest)[i]? = some s[i] := fun i hi => by
    rw [List.getElem?_append_left hi, List.getElem?_eq_getElem hi]
  have hother : ∀ i (hi : i < s.length), s[i] ≠ 60 := fun i hi heq =>
    hs (heq ▸ List.getElem_mem hi)
  induction k with
  | zero => rw [scanBack, hat 0 hk, Option.map_some, if_neg (hother 0 hk)]
  | succ k ih =>
      rw [scanBack, hat _ hk, Option.bind_some, if_neg (hother _ hk)]
      exact ih (Nat.lt_of_succ_lt hk)

theorem scanBack_bracket (hfield : 60 ∉ field) (rest : List Byte) :
    scanBack (front ++ 60 :: field ++ 0 :: rest) (front.length + 1 + field.length) =
      some (front.length, (front.length : Int)) := by
  have hclosed : 60 ∉ field ++ [0] := by
    rw [List.mem_append, not_or]
    exact ⟨hfield, by decide⟩
  have hlast : field.length + 1 ≤ (field ++ [0]).length := by
    rw [List.length_append, List.length_singleton]
  have hscan := scanBack_found front rest hclosed hlast
  have hplace : front.length + 1 + field.length = front.length + (field.length + 1) := by omega
  have hsplit : front ++ 60 :: field ++ 0 :: rest = front ++ 60 :: (field ++ [0]) ++ rest := by
    simp only [List.append_assoc, List.cons_append, List.nil_append]
  rw [hplace, hsplit, hscan]

theorem scanBack_no_bracket (hs : 60 ∉ s) (rest : List Byte) :
    scanBack (s ++ 0 :: rest) s.length = some (0, -1) := by
  have hclosed : 60 ∉ s ++ [0] := by
    rw [List.mem_append, not_or]
    exact ⟨hs, by decide⟩
  have hlast : s.length < (s ++ [0]).length := by
    rw [List.length_append, List.length_singleton]
    exact Nat.lt_succ_self _
  have hscan := scanBack_missing rest hclosed hlast
  rwa [List.append_assoc, List.singleton_append] at hscan

theorem set_length (s rest : List Byte) (c x : Byte) :
    (s ++ c :: rest).set s.length x = s ++ x :: rest := by
  rw [List.set_append_right _ _ le_rfl, Nat.sub_self]
  rfl

theorem copyChars_eq (hs : 0 ∉ s) (max : Int) :
    copyChars (s ++ 0 :: rest) max = some (setChars s max) := by
  induction s generalizing max with
  | nil =>
      rw [List.nil_append, copyChars, if_pos (.inr rfl), setChars, List.take_nil, ite_self]
      rfl
  | cons c s ih =>
      obtain ⟨hc, hs⟩ := List.ne_and_not_mem_of_not_mem_cons hs
      rw [List.cons_append, copyChars]
      by_cases hmax : max = 0
      · rw [if_pos (.inl hmax), hmax]
        rfl
      · have hgo : ¬ (max = 0 ∨ c = 0) := not_or.mpr ⟨hmax, hc.symm⟩
        rw [if_neg hgo, ih hs, Option.map_some, setChars, setChars]
        by_cases hneg : max < 0
        · rw [if_pos hneg, if_pos (by omega)]
          rfl
        · have hnext : max.toNat = (max - 1).toNat + 1 := by omega
          rw [if_neg hneg, if_neg (by omega), hnext, List.take_succ_cons]
          rfl

theorem exists_copyChars (hs : 0 ∈ s) (max : Int) : ∃ cells, copyChars s max = some cells := by
  obtain ⟨front, back, rfl, hfront⟩ := List.eq_append_cons_of_mem hs
  exact ⟨_, copyChars_eq hfront max⟩

theorem getField_found (hfield : 60 ∉ field) (hnul : 0 ∉ field) (max : Int) :
    getField (front ++ 60 :: field ++ c :: rest) (front.length + 1 + field.length) max =
      some (front ++ 60 :: field ++ 0 :: rest, (front.length : Int), setChars field max) := by
  have hset : (front ++ 60 :: field ++ c :: rest).set (front.length + 1 + field.length) 0 =
      front ++ 60 :: field ++ 0 :: rest := by
    have hplace : front.length + 1 + field.length = (front ++ 60 :: field).length := by
      rw [List.length_append, List.length_cons]
      omega
    rw [hplace, set_length]
  have hdrop : (front ++ 60 :: field ++ 0 :: rest).drop (front.length + 1) = field ++ 0 :: rest := by
    rw [List.append_assoc, ← List.drop_drop, List.drop_left]
    rfl
  rw [getField, hset, scanBack_bracket hfield, Option.bind_some]
  dsimp only
  rw [hdrop, copyChars_eq hnul, Option.map_some]

theorem getField_missing (hs : 60 ∉ s) (hrest : 0 ∈ rest) (max : Int) :
    ∃ cells, getField (s ++ c :: rest) s.length max = some (s ++ 0 :: rest, -1, cells) := by
  have hmem : 0 ∈ (s ++ 0 :: rest).drop (0 + 1) := by
    cases s with
    | nil => exact hrest
    | cons x s => exact List.mem_append_right s List.mem_cons_self
  obtain ⟨cells, hcells⟩ := exists_copyChars hmem max
  refine ⟨cells, ?_⟩
  rw [getField, set_length, scanBack_no_bracket hs, Option.bind_some]
  dsimp only
  rw [hcells, Option.map_some]

end

structure Prints (chars name uid auth team : List Byte) : Prop where
  text : chars = name ++ 60 :: uid ++ 62 :: 60 :: auth ++ 62 :: 60 :: team ++ [62]
  uid_plain : 60 ∉ uid ∧ 62 ∉ uid
  auth_plain : 60 ∉ auth ∧ 62 ∉ auth
  team_plain : 60 ∉ team ∧ 62 ∉ team

def returned (amx : Amx) (params : Nat → Cell) (name : List Cell) (userid : Int)
    (auth team : List Cell) (memory : Memory) : Memory :=
  (storeUserid amx params userid ((memory.store amx (cellNumber (params 7)) team).store amx
    (cellNumber (params 5)) auth)).store amx (cellNumber (params 2)) name

/-- A printed user is read back with each field cut to its limit, and of any other text there
is an error. -/
def ReadsBack (amx : Amx) (params : Nat → Cell) (memory : Memory) (chars : List Byte)
    (result : Option (Memory × Except LoguserError Unit)) : Prop :=
  ∃ after outcome, result = some (after, outcome) ∧
    (∀ name uid auth team, Prints chars name uid auth team →
      ∃ nameCells authCells teamCells, Cuts name (params 3).toInt nameCells ∧
        Cuts auth (params 6).toInt authCells ∧ Cuts team (params 8).toInt teamCells ∧
        outcome = .ok () ∧
        after = returned amx params nameCells (atoi uid) authCells teamCells memory) ∧
    ((∀ name uid auth team, ¬ Prints chars name uid auth team) → ∃ e, outcome = .error e)

def TwoBrackets (chars : List Byte) : Prop :=
  ∃ front a auth b team c, chars = (front ++ [a] ++ 60 :: auth ++ [b]) ++ 60 :: team ++ [c] ∧
    60 ∉ auth ∧ 60 ∉ team

section

variable {s front front' field field' name uid auth team chars : List Byte} {a b c x : Byte}
  {memory : Memory} {amx : Amx} {params : Nat → Cell}

theorem exists_last (h : x ∈ s) : ∃ front field, s = front ++ x :: field ∧ x ∉ field := by
  obtain ⟨as, bs, hs, hnot⟩ := List.eq_append_cons_of_mem (List.mem_reverse.mpr h)
  refine ⟨bs.reverse, as.reverse, ?_, fun hmem => hnot (List.mem_reverse.mp hmem)⟩
  rw [← List.reverse_reverse s, hs, List.reverse_append, List.reverse_cons, List.append_assoc,
    List.singleton_append]

theorem Prints.length_le (h : Prints chars name uid auth team) : 6 ≤ chars.length := by
  rw [h.text]
  simp only [List.length_append, List.length_cons, List.length_nil]
  omega

theorem Prints.three_brackets (h : Prints chars name uid auth team) : 3 ≤ chars.count 60 := by
  have hother : ∀ s : List Byte, (62 :: s).count 60 = s.count 60 := fun s =>
    List.count_cons_of_ne (by decide)
  rw [h.text]
  simp only [List.count_append, List.count_cons_self, hother]
  omega

theorem Prints.twoBrackets (h : Prints chars name uid auth team) : TwoBrackets chars := by
  refine ⟨name ++ 60 :: uid, 62, auth, 62, team, 62, ?_, h.auth_plain.1, h.team_plain.1⟩
  rw [h.text]
  simp only [List.append_assoc, List.cons_append, List.nil_append]

theorem cuts_nonneg {text : List Byte} {max : Int} {cells : List Cell} (h : Cuts text max cells) :
    0 ≤ max := by
  obtain ⟨rfl, hlength⟩ := h
  rw [List.length_append, List.length_singleton] at hlength
  omega

theorem readsBack_error {e : LoguserError} (hprints : ∀ name uid auth team,
    ¬ Prints chars name uid auth team) (after : Memory) :
    ReadsBack amx params memory chars (some (after, .error e)) :=
  ⟨after, .error e, rfl, fun name uid auth team h => absurd h (hprints name uid auth team),
    fun _ => ⟨e, rfl⟩⟩

theorem getAuthid_missing (c : Byte) (memory : Memory) (hs : 60 ∉ s) {rest : List Byte}
    (hrest : 0 ∈ rest) :
    ∃ after, getAuthid amx params (s ++ c :: rest) ((s ++ [c]).length : Int) memory =
      some (after, .error .noUserid) := by
  have hlength : (s ++ [c]).length = s.length + 1 := by
    rw [List.length_append, List.length_singleton]
  obtain ⟨cells, hfield⟩ := getField_missing (c := c) hs hrest (params 6).toInt
  rw [hlength, getAuthid, if_neg (by omega), Int.toNat_natCast, Nat.add_sub_cancel, hfield,
    Option.bind_some]
  exact ⟨_, if_pos (by decide)⟩

theorem getAuthid_found (hfield : 60 ∉ field) (hnul : 0 ∉ field) (rest : List Byte) :
    getAuthid amx params (front ++ 60 :: field ++ c :: rest)
        ((front ++ 60 :: field ++ [c]).length : Int) memory =
      if front = [] then
        some (memory.store amx (cellNumber (params 5)) (setChars field (params 6).toInt),
          .error .noUserid)
      else
        getUseridAndName amx params (front ++ 60 :: field ++ 0 :: rest) (front.length - 1)
          (memory.store amx (cellNumber (params 5)) (setChars field (params 6).toInt)) := by
  have hlength : (front ++ 60 :: field ++ [c]).length = front.length + 1 + field.length + 1 := by
    simp only [List.length_append, List.length_cons, List.length_nil]
    omega
  rw [hlength, getAuthid, if_neg (by omega), Int.toNat_natCast, Nat.add_sub_cancel,
    getField_found hfield hnul, Option.bind_some]
  dsimp only
  rw [Int.toNat_natCast]
  refine if_congr ?_ rfl rfl
  rw [← List.length_eq_zero_iff]
  omega

theorem parseLoguser_missing (hline : Holds memory amx (cellNumber (params 1)) (s ++ [c]))
    (hsize : (s ++ [c]).length < bufferSize) (hlong : 6 ≤ (s ++ [c]).length) (hs : 60 ∉ s) :
    ∃ after, parseLoguser amx params memory = some (after, .error .noAuthid) := by
  obtain ⟨cells, hfield⟩ :=
    getField_missing (c := c) hs (List.mem_singleton_self 0) (params 8).toInt
  have hlength : (s ++ [c]).length - 1 = s.length := by
    rw [List.length_append, List.length_singleton, Nat.add_sub_cancel]
  rw [parseLoguser, getAmxString_eq hline, if_pos hsize, Option.bind_some, if_neg (not_lt.mpr hlong),
    hlength, List.append_assoc, List.singleton_append, hfield, Option.bind_some]
  exact ⟨_, if_pos (by decide)⟩

theorem parseLoguser_found
    (hline : Holds memory amx (cellNumber (params 1)) (front ++ 60 :: team ++ [c]))
    (hsize : (front ++ 60 :: team ++ [c]).length < bufferSize)
    (hlong : 6 ≤ (front ++ 60 :: team ++ [c]).length) (hteam : 60 ∉ team) :
    parseLoguser amx params memory =
      getAuthid amx params (front ++ 60 :: team ++ [0, 0]) front.length
        (memory.store amx (cellNumber (params 7)) (setChars team (params 8).toInt)) := by
  have hnul : 0 ∉ team := by
    have hall := hline.noNul
    simp only [List.mem_append, List.mem_cons, not_or] at hall
    exact hall.1.2.2
  have hlength : (front ++ 60 :: team ++ [c]).length - 1 = front.length + 1 + team.length := by
    simp only [List.length_append, List.length_cons, List.length_nil]
    omega
  have hsplit : front ++ 60 :: team ++ [c] ++ [0] = front ++ 60 :: team ++ c :: [0] := by
    rw [List.append_assoc _ [c], List.singleton_append]
  rw [parseLoguser, getAmxString_eq hline, if_pos hsize, Option.bind_some, if_neg (not_lt.mpr hlong),
    hlength, hsplit, getField_found hteam hnul, Option.bind_some]

theorem exists_getUseridAndName (s : List Byte) (c : Byte) (rest : List Byte) (memory : Memory) :
    ∃ after, getUseridAndName amx params (s ++ c :: rest) s.length memory = some (after, .ok ()) := by
  have hscan : ∃ stop left, scanBack (s ++ 0 :: rest) s.length = some (stop, left) ∧
      stop ≤ s.length := by
    by_cases hmem : 60 ∈ s
    · obtain ⟨front, field, rfl, hfield⟩ := exists_last hmem
      have hplace : (front ++ 60 :: field).length = front.length + 1 + field.length := by
        rw [List.length_append, List.length_cons]
        omega
      rw [hplace]
      exact ⟨_, _, scanBack_bracket hfield rest, by omega⟩
    · exact ⟨_, _, scanBack_no_bracket hmem rest, Nat.zero_le _⟩
  obtain ⟨stop, left, hstop, hle⟩ := hscan
  have hlt : stop < (s ++ 0 :: rest).length := by
    rw [List.length_append, List.length_cons]
    omega
  obtain ⟨cells, hcells⟩ := exists_copyChars (List.mem_set hlt 0) (params 3).toInt
  rw [getUseridAndName, set_length, hstop, Option.bind_some]
  dsimp only
  rw [hcells]
  exact ⟨_, rfl⟩

theorem getUseridAndName_eq (hname : 0 ∉ name) (huid : 60 ∉ uid) (hnul : 0 ∉ uid) (c : Byte)
    (rest : List Byte) (memory : Memory) :
    getUseridAndName amx params (name ++ 60 :: uid ++ c :: rest) (name ++ 60 :: uid).length memory =
      some ((storeUserid amx params (atoi uid) memory).store amx (cellNumber (params 2))
        (setChars name (params 3).toInt), .ok ()) := by
  have hplace : (name ++ 60 :: uid).length = name.length + 1 + uid.length := by
    rw [List.length_append, List.length_cons]
    omega
  have hdrop : (name ++ 60 :: uid ++ 0 :: rest).drop (name.length + 1) = uid ++ 0 :: rest := by
    rw [List.append_assoc, ← List.drop_drop, List.drop_left]
    rfl
  have hnumber := takeWhile_terminated hnul rest
  have hend : (name ++ 60 :: uid ++ 0 :: rest).set name.length 0 =
      name ++ 0 :: (uid ++ 0 :: rest) := by
    rw [List.append_assoc, List.cons_append, set_length]
  rw [getUseridAndName, set_length, hplace, scanBack_bracket huid, Option.bind_some]
  dsimp only
  rw [hdrop, hnumber, hend, copyChars_eq hname, Option.map_some]

theorem parseLoguser_two (hauth : 60 ∉ auth) (hteam : 60 ∉ team)
    (hline : Holds memory amx (cellNumber (params 1))
      ((front ++ [a] ++ 60 :: auth ++ [b]) ++ 60 :: team ++ [c]))
    (hsize : ((front ++ [a] ++ 60 :: auth ++ [b]) ++ 60 :: team ++ [c]).length < bufferSize)
    (hlong : 6 ≤ ((front ++ [a] ++ 60 :: auth ++ [b]) ++ 60 :: team ++ [c]).length) :
    parseLoguser amx params memory =
      getUseridAndName amx params (front ++ a :: (60 :: auth ++ 0 :: (60 :: team ++ [0, 0])))
        front.length
        ((memory.store amx (cellNumber (params 7)) (setChars team (params 8).toInt)).store amx
          (cellNumber (params 5)) (setChars auth (params 6).toInt)) := by
  have hnul : 0 ∉ auth := by
    have hall := hline.noNul
    simp only [List.mem_append, List.mem_cons, not_or] at hall
    exact hall.1.1.1.2.2
  have hbefore : (front ++ [a] ++ 60 :: auth ++ [b]) ++ 60 :: team ++ [0, 0] =
      front ++ [a] ++ 60 :: auth ++ b :: (60 :: team ++ [0, 0]) := by
    simp only [List.append_assoc, List.cons_append, List.nil_append]
  have hafter : front ++ [a] ++ 60 :: auth ++ 0 :: (60 :: team ++ [0, 0]) =
      front ++ a :: (60 :: auth ++ 0 :: (60 :: team ++ [0, 0])) := by
    simp only [List.append_assoc, List.cons_append, List.nil_append]
  have hlength : (front ++ [a]).length - 1 = front.length := by
    rw [List.length_append, List.length_singleton, Nat.add_sub_cancel]
  have hne : front ++ [a] ≠ [] := List.append_ne_nil_of_right_ne_nil _ (List.cons_ne_nil _ _)
  rw [parseLoguser_found hline hsize hlong hteam, hbefore, getAuthid_found hauth hnul, if_neg hne,
    hafter, hlength]

theorem parseLoguser_prints (h : Prints chars name uid auth team)
    (hline : Holds memory amx (cellNumber (params 1)) chars) (hsize : chars.length < bufferSize) :
    parseLoguser amx params memory =
      some (returned amx params (setChars name (params 3).toInt) (atoi uid)
        (setChars auth (params 6).toInt) (setChars team (params 8).toInt) memory, .ok ()) := by
  have hlong := h.length_le
  have hnul := hline.noNul
  have hsplit : chars = (name ++ 60 :: uid ++ [62] ++ 60 :: auth ++ [62]) ++ 60 :: team ++ [62] := by
    rw [h.text]
    simp only [List.append_assoc, List.cons_append, List.nil_append]
  rw [hsplit] at hline hsize hlong hnul
  rw [parseLoguser_two h.auth_plain.1 h.team_plain.1 hline hsize hlong]
  simp only [List.mem_append, List.mem_cons, not_or] at hnul
  exact getUseridAndName_eq hnul.1.1.1.1.1.1 h.uid_plain.1 hnul.1.1.1.1.1.2.2 62 _ _

theorem exists_parseLoguser_two (h : TwoBrackets chars) (hlong : 6 ≤ chars.length)
    (hline : Holds memory amx (cellNumber (params 1)) chars) (hsize : chars.length < bufferSize) :
    ∃ after, parseLoguser amx params memory = some (after, .ok ()) := by
  obtain ⟨front, a, auth, b, team, c, rfl, hauth, hteam⟩ := h
  rw [parseLoguser_two hauth hteam hline hsize hlong]
  exact exists_getUseridAndName ..

theorem exists_parseLoguser_error (h : ¬ TwoBrackets chars) (hlong : 6 ≤ chars.length)
    (hline : Holds memory amx (cellNumber (params 1)) chars) (hsize : chars.length < bufferSize) :
    ∃ after e, parseLoguser amx params memory = some (after, .error e) := by
  obtain ⟨s, c, hchars⟩ := List.eq_nil_or_concat chars |>.resolve_left fun hnil => by
    rw [hnil] at hlong
    exact absurd hlong (by decide)
  rw [List.concat_eq_append] at hchars
  subst hchars
  by_cases hmem : 60 ∈ s
  · obtain ⟨front, team, rfl, hteam⟩ := exists_last hmem
    rw [parseLoguser_found hline hsize hlong hteam]
    rcases List.eq_nil_or_concat front with rfl | ⟨front, b, rfl⟩
    · exact ⟨_, _, if_pos le_rfl⟩
    · rw [List.concat_eq_append] at h ⊢
      have hbefore : front ++ [b] ++ 60 :: team ++ [0, 0] =
          front ++ b :: (60 :: team ++ [0, 0]) := by
        simp only [List.append_assoc, List.cons_append, List.nil_append]
      rw [hbefore]
      by_cases hmem : 60 ∈ front
      · obtain ⟨front, auth, rfl, hauth⟩ := exists_last hmem
        have hnul : 0 ∉ auth := by
          have hall := hline.noNul
          rw [List.concat_eq_append] at hall
          simp only [List.mem_append, List.mem_cons, not_or] at hall
          exact hall.1.1.1.2.2
        rw [getAuthid_found hauth hnul]
        rcases List.eq_nil_or_concat front with rfl | ⟨front, a, rfl⟩
        · exact ⟨_, _, if_pos rfl⟩
        · rw [List.concat_eq_append] at h
          exact absurd ⟨front, a, auth, b, team, c, rfl, hauth, hteam⟩ h
      · have hrest : 0 ∈ 60 :: team ++ [0, 0] := List.mem_append_right _ List.mem_cons_self
        obtain ⟨after, hafter⟩ := getAuthid_missing b
          (memory.store amx (cellNumber (params 7)) (setChars team (params 8).toInt)) hmem hrest
        exact ⟨after, _, hafter⟩
  · obtain ⟨after, hafter⟩ := parseLoguser_missing hline hsize hlong hmem
    exact ⟨after, _, hafter⟩

theorem readsBack_prints_iff (h : Prints chars name uid auth team)
    (hline : Holds memory amx (cellNumber (params 1)) chars) (hsize : chars.length < bufferSize) :
    ReadsBack amx params memory chars (parseLoguser amx params memory) ↔
      0 ≤ (params 3).toInt ∧ 0 ≤ (params 6).toInt ∧ 0 ≤ (params 8).toInt := by
  constructor
  · rintro ⟨_, _, -, hfields, -⟩
    obtain ⟨_, _, _, hname, hauth, hteam, -⟩ := hfields name uid auth team h
    exact ⟨cuts_nonneg hname, cuts_nonneg hauth, cuts_nonneg hteam⟩
  · rintro ⟨hname, hauth, hteam⟩
    have hread := parseLoguser_prints h hline hsize
    refine ⟨_, _, hread, fun name' uid' auth' team' h' => ?_,
      fun hnone => absurd h (hnone name uid auth team)⟩
    rw [parseLoguser_prints h' hline hsize, Option.some.injEq, Prod.mk.injEq] at hread
    exact ⟨_, _, _, cuts_setChars_iff.mpr hname, cuts_setChars_iff.mpr hauth,
      cuts_setChars_iff.mpr hteam, rfl, hread.1.symm⟩

theorem parseLoguser_readsBack (hline : Holds memory amx (cellNumber (params 1)) chars) :
    ReadsBack amx params memory chars (parseLoguser amx params memory) ↔
      chars.length < bufferSize ∧
        ((∃ name uid auth team, Prints chars name uid auth team) ∧
            0 ≤ (params 3).toInt ∧ 0 ≤ (params 6).toInt ∧ 0 ≤ (params 8).toInt ∨
          chars.length < 6 ∨ ¬ TwoBrackets chars) := by
  by_cases hsize : chars.length < bufferSize
  · rw [and_iff_right hsize]
    by_cases hprints : ∃ name uid auth team, Prints chars name uid auth team
    · obtain ⟨name, uid, auth, team, h⟩ := hprints
      have hexists : ∃ name uid auth team, Prints chars name uid auth team :=
        ⟨name, uid, auth, team, h⟩
      have hlong : ¬ chars.length < 6 := not_lt.mpr h.length_le
      rw [readsBack_prints_iff h hline hsize, and_iff_right hexists,
        or_iff_left (not_or.mpr ⟨hlong, not_not.mpr h.twoBrackets⟩)]
    · have hnone : ∀ name uid auth team, ¬ Prints chars name uid auth team :=
        fun name uid auth team h => hprints ⟨name, uid, auth, team, h⟩
      rw [or_iff_right fun h => hprints h.1]
      by_cases hlong : chars.length < 6
      · refine iff_of_true ?_ (.inl hlong)
        rw [parseLoguser, getAmxString_eq hline, if_pos hsize, Option.bind_some, if_pos hlong]
        exact readsBack_error hnone memory
      · rw [or_iff_right hlong]
        by_cases htwo : TwoBrackets chars
        · obtain ⟨after, hafter⟩ := exists_parseLoguser_two htwo (not_lt.mp hlong) hline hsize
          refine iff_of_false ?_ fun h => h htwo
          rintro ⟨after', outcome, hresult, -, herror⟩
          obtain ⟨e, rfl⟩ := herror hnone
          rw [hafter] at hresult
          cases hresult
        · obtain ⟨after, e, hafter⟩ :=
            exists_parseLoguser_error htwo (not_lt.mp hlong) hline hsize
          rw [hafter]
          exact iff_of_true (readsBack_error hnone after) htwo
  · refine iff_of_false ?_ fun h => hsize h.1
    rintro ⟨_, _, hresult, -⟩
    rw [parseLoguser, getAmxString_eq hline, if_neg hsize, Option.bind_none] at hresult
    cases hresult

end

/-- The native reads back what has been printed and refuses the rest exactly if the text
fits the buffer and is a printed user or has no two brackets to take for one.  The number of
the user is the one that the engine prints. -/
theorem parseLoguser_readsBack_iff {memory : Memory} {amx : Amx} {params : Nat → Cell}
    {chars : List Byte} (hline : Holds memory amx (cellNumber (params 1)) chars) :
    (ReadsBack amx params memory chars (parseLoguser amx params memory) ↔
      chars.length < bufferSize ∧
        ((∃ name uid auth team, Prints chars name uid auth team) ∧
            0 ≤ (params 3).toInt ∧ 0 ≤ (params 6).toInt ∧ 0 ≤ (params 8).toInt ∨
          chars.length < 6 ∨ ¬ TwoBrackets chars)) ∧
      ∀ userid : Cell, BitVec.ofInt 32 (atoi (decimal userid.toInt)) = userid := by
  refine ⟨parseLoguser_readsBack hline, fun userid => ?_⟩
  have hlow := BitVec.le_toInt userid
  have hhigh := BitVec.toInt_lt (x := userid)
  rw [atoi_decimal (by omega), BitVec.ofInt_toInt]

/-! Limits of 31 characters. -/

section

def loguserParams : Nat → Cell
  | 2 => 4 * 100
  | 3 => 31
  | 4 => 4 * 200
  | 5 => 4 * 300
  | 6 => 31
  | 7 => 4 * 400
  | 8 => 31
  | _ => 0

/-- `a<1><S><T>`. -/
theorem parseLoguser_reads_a :
    ReadsBack 0 loguserParams (lineOf [97, 60, 49, 62, 60, 83, 62, 60, 84, 62])
      [97, 60, 49, 62, 60, 83, 62, 60, 84, 62]
      (parseLoguser 0 loguserParams (lineOf [97, 60, 49, 62, 60, 83, 62, 60, 84, 62])) := by
  have hline : Holds (lineOf [97, 60, 49, 62, 60, 83, 62, 60, 84, 62]) 0
      (cellNumber (loguserParams 1)) [97, 60, 49, 62, 60, 83, 62, 60, 84, 62] := by decide
  have hprints : Prints [97, 60, 49, 62, 60, 83, 62, 60, 84, 62] [97] [49] [83] [84] :=
    ⟨rfl, by decide, by decide, by decide⟩
  exact (parseLoguser_readsBack_iff hline).1.mpr
    ⟨by decide, .inl ⟨⟨_, _, _, _, hprints⟩, by decide, by decide, by decide⟩⟩

/-- `ab<S><T>` has no user id, and is not refused. -/
theorem parseLoguser_takes_two_fields :
    ¬ ∀ (memory : Memory) (amx : Amx) (params : Nat → Cell) (chars : List Byte),
      Holds memory amx (cellNumber (params 1)) chars → chars.length < bufferSize →
        0 ≤ (params 3).toInt → 0 ≤ (params 6).toInt → 0 ≤ (params 8).toInt →
          ReadsBack amx params memory chars (parseLoguser amx params memory) := by
  intro h
  have hline : Holds (lineOf [97, 98, 60, 83, 62, 60, 84, 62]) 0 (cellNumber (loguserParams 1))
      [97, 98, 60, 83, 62, 60, 84, 62] := by decide
  have htwo : TwoBrackets [97, 98, 60, 83, 62, 60, 84, 62] :=
    ⟨[97], 98, [83], 62, [84], 62, rfl, by decide, by decide⟩
  obtain ⟨after, outcome, hresult, -, herror⟩ :=
    h _ _ _ _ hline (by decide) (by decide) (by decide) (by decide)
  obtain ⟨after', hafter⟩ := exists_parseLoguser_two htwo (by decide) hline (by decide)
  obtain ⟨e, rfl⟩ := herror fun name uid auth team hprints => by
    have hthree := hprints.three_brackets
    exact absurd hthree (by decide)
  rw [hafter] at hresult
  cases hresult

end

end AmxModC.LogEvent
