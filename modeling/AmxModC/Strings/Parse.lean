import AmxModC.Strings.Arguments

namespace AmxModC.Strings

open Foundation

/-! The scan of `parse_arg` over the characters of the line. -/

section

variable {line s arg : List Byte} {b fuel : Nat} {state : ArgState}

/-- What is left to scan is added to `arg`, if there is room. -/
def finish (line arg : List Byte) (found : List Byte × ArgState × List Byte) :
    Option (List Byte × ArgState × Nat) :=
  if arg.length + found.1.length < argSize then
    some (arg ++ found.1, found.2.1, line.length - found.2.2.length)
  else none

theorem finish_nil (state : ArgState) (rest : List Byte) :
    finish line arg ([], state, rest) =
      if arg.length < argSize then some (arg, state, line.length - rest.length) else none := by
  rw [finish, List.length_nil, Nat.add_zero, List.append_nil]

theorem finish_cons (c : Byte) (found : List Byte × ArgState × List Byte) :
    (if arg.length < argSize then finish line (arg ++ [c]) found else none) =
      finish line arg (c :: found.1, found.2) := by
  rw [finish, finish, List.length_append, List.length_singleton, List.length_cons,
    List.append_assoc, List.singleton_append, Nat.add_right_comm, ← Nat.add_assoc]
  split
  next => rfl
  next => rw [if_neg (by omega)]

theorem parseArgLoop_eq (hnul : 0 ∉ line) (h : line.drop b = s) (hb : b ≤ line.length)
    (hfuel : s.length < fuel) :
    parseArgLoop line fuel b state arg = finish line arg (scan state s) := by
  induction fuel generalizing b s state arg with
  | zero => exact absurd hfuel (Nat.not_lt_zero _)
  | succ fuel ih =>
      cases s with
      | nil =>
          have hscan : scan state [] = ([], state, []) := by cases state <;> rfl
          rw [parseArgLoop, read_end h hb, hscan, finish_nil, position h hb]
          rfl
      | cons c s =>
          have hmem : c ∈ line := List.mem_of_mem_drop (h ▸ List.mem_cons_self)
          have hc : c ≠ 0 := fun hzero => hnul (hzero ▸ hmem)
          have hnext := drop_next h
          have hlt : b + 1 ≤ line.length := by
            have hlength := congrArg List.length h
            rw [List.length_drop, List.length_cons] at hlength
            omega
          have hgo : ∀ state arg, parseArgLoop line fuel (b + 1) state arg =
              finish line arg (scan state s) := fun state arg =>
            ih hnext hlt (Nat.lt_of_succ_lt_succ hfuel)
          rw [parseArgLoop, read_cons h]
          simp only [Option.bind_some, if_neg hc, hgo, finish_cons]
          cases state with
          | before =>
              rw [scan]
              cases hspace : isSpace c with
              | true => rfl
              | false =>
                  simp only [Bool.false_eq_true, false_and, if_false, Bool.not_false, ne_eq,
                    reduceCtorEq, not_false_eq_true, and_self, if_true]
                  split <;> rfl
          | bare =>
              rw [scan]
              cases hspace : isSpace c with
              | true =>
                  simp only [and_self, if_true, finish_nil, position h (Nat.le_of_lt hlt)]
              | false =>
                  simp only [Bool.false_eq_true, false_and, if_false, Bool.not_false, ne_eq,
                    reduceCtorEq, not_false_eq_true, and_self, if_true]
                  split <;> rfl
          | quoted =>
              rw [scan]
              simp only [reduceCtorEq, and_false, if_false, ne_eq, not_true_eq_false, if_true]
              split
              next => rw [finish_nil, position hnext hlt]
              next => rfl

end

/-! The outputs. -/

structure Output where
  first : Nat
  size : Nat
deriving DecidableEq

def outputs (params : Nat → Cell) : List Output :=
  (List.range (((params 0).toNat / 4 - 1) / 2)).map fun k =>
    ⟨cellNumber (params (2 + 2 * k)), cellNumber (params (2 + 2 * k + 1))⟩

def written (memory : Memory) (amx : Amx) (out : Output) (arg : List Byte) : List Cell :=
  setChars arg (memory amx out.size).toInt

def storeAll (amx : Amx) : Memory → List (Output × List Byte) → Memory
  | memory, [] => memory
  | memory, (out, arg) :: rest =>
      storeAll amx (memory.store amx out.first (written memory amx out arg)) rest

def Apart (memory : Memory) (amx : Amx) (pairs : List (Output × List Byte)) : Prop :=
  pairs.Pairwise fun pair later => ∀ i < (written memory amx pair.1 pair.2).length,
    pair.1.first + i ≠ later.1.size ∧
      ∀ j < (written memory amx later.1 later.2).length, pair.1.first + i ≠ later.1.first + j

section

variable {memory : Memory} {amx : Amx} {pair : Output × List Byte}
  {pairs : List (Output × List Byte)}

theorem Apart.written_eq (h : Apart memory amx (pair :: pairs)) :
    ∀ later ∈ pairs, written (memory.store amx pair.1.first (written memory amx pair.1 pair.2))
      amx later.1 later.2 = written memory amx later.1 later.2 := by
  intro later hlater
  have hsize : memory.store amx pair.1.first (written memory amx pair.1 pair.2) amx later.1.size =
      memory amx later.1.size := by
    refine Memory.store_of_not fun ⟨_, hle, hlt⟩ => ?_
    have happart := (List.rel_of_pairwise_cons h hlater (later.1.size - pair.1.first) (by omega)).1
    omega
  rw [written, hsize]
  rfl

theorem Apart.tail (h : Apart memory amx (pair :: pairs)) :
    Apart (memory.store amx pair.1.first (written memory amx pair.1 pair.2)) amx pairs := by
  have heq := h.written_eq
  refine List.Pairwise.imp_of_mem ?_ (List.pairwise_cons.mp h).2
  intro first later hfirst hlater hapart
  rw [heq first hfirst, heq later hlater]
  exact hapart

theorem storeAll_frame (h : Apart memory amx pairs) {i : Nat}
    (hi : ∀ pair ∈ pairs, ∀ j < (written memory amx pair.1 pair.2).length, i ≠ pair.1.first + j) :
    storeAll amx memory pairs amx i = memory amx i := by
  induction pairs generalizing memory with
  | nil => rfl
  | cons pair pairs ih =>
      obtain ⟨hpair, hpairs⟩ := List.forall_mem_cons.mp hi
      refine (ih h.tail ?_).trans ?_
      · intro later hlater
        rw [h.written_eq later hlater]
        exact hpairs later hlater
      · refine Memory.store_of_not fun ⟨_, hle, hlt⟩ => hpair (i - pair.1.first) ?_ ?_ <;> omega

theorem storeAll_written (h : Apart memory amx pairs) :
    ∀ pair ∈ pairs, (storeAll amx memory pairs).fetch amx pair.1.first
      (written memory amx pair.1 pair.2).length = written memory amx pair.1 pair.2 := by
  induction pairs generalizing memory with
  | nil => exact List.forall_mem_nil _
  | cons pair pairs ih =>
      refine List.forall_mem_cons.mpr ⟨?_, fun later hlater => ?_⟩
      · have hself := Memory.fetch_store_self memory amx pair.1.first
          (written memory amx pair.1 pair.2)
        refine (Memory.fetch_congr fun i hi => ?_).trans hself
        refine storeAll_frame h.tail fun later hlater j hj => ?_
        rw [h.written_eq later hlater] at hj
        exact (List.rel_of_pairwise_cons h hlater i hi).2 j hj
      · have hlast := ih h.tail later hlater
        rw [h.written_eq later hlater] at hlast
        exact hlast

end

section

variable {params : Nat → Cell} {k : Nat}

theorem length_outputs (params : Nat → Cell) :
    (outputs params).length = ((params 0).toNat / 4 - 1) / 2 := by
  rw [outputs, List.length_map, List.length_range]

theorem outputs_getElem? (hk : k < (outputs params).length) : (outputs params)[k]? =
    some ⟨cellNumber (params (2 + 2 * k)), cellNumber (params (2 + 2 * k + 1))⟩ := by
  rw [length_outputs] at hk
  rw [outputs, List.getElem?_map, List.getElem?_range hk, Option.map_some]

theorem done_iff (params : Nat → Cell) (k : Nat) :
    (params 0).toNat / 4 ≤ 2 + 2 * k ↔ (outputs params).length ≤ k := by
  rw [length_outputs]
  omega

end

/-! The native. -/

/-- `arg` has room for the arguments that are stored, and for the one behind them. -/
def Fits (count : Nat) (args : List (List Byte)) : Prop :=
  ∀ arg ∈ args.take (count + 1), arg.length < argSize

section

variable {amx : Amx} {params : Nat → Cell} {line s : List Byte} {b k fuel : Nat}
  {memory : Memory} {outs : List Output}

instance (count : Nat) (args : List (List Byte)) : Decidable (Fits count args) :=
  inferInstanceAs (Decidable (∀ arg ∈ args.take (count + 1), arg.length < argSize))

theorem fits_cons (arg : List Byte) (args : List (List Byte)) (count : Nat) :
    Fits count (arg :: args) ↔
      arg.length < argSize ∧ ∀ arg ∈ args.take count, arg.length < argSize := by
  rw [Fits, List.take_succ_cons, List.forall_mem_cons]

theorem parseLoop_step {c : Byte} (hnul : 0 ∉ line) (h : line.drop b = c :: s)
    (hb : b ≤ line.length) (hfuel : (c :: s).length < fuel + 1) {arg rest : List Byte}
    {state : ArgState} (hscan : scan .before (c :: s) = (arg, state, rest)) :
    parseLoop amx params line (fuel + 1) b (2 + 2 * k) memory =
      if arg.length < argSize then
        if state = .before then
          parseLoop amx params line fuel (line.length - rest.length) (2 + 2 * k) memory
        else
          match (outputs params)[k]? with
          | none => some (memory, k)
          | some out =>
              parseLoop amx params line fuel (line.length - rest.length) (2 + 2 * (k + 1))
                (memory.store amx out.first (written memory amx out arg))
      else none := by
  have hmem : c ∈ line := List.mem_of_mem_drop (h ▸ List.mem_cons_self)
  have hc : c ≠ 0 := fun hzero => hnul (hzero ▸ hmem)
  have hcount : (2 + 2 * k - 2) / 2 = k := by omega
  rw [parseLoop, read_cons h, Option.bind_some, if_neg hc, parseArg,
    parseArgLoop_eq hnul h hb hfuel, hscan, finish]
  dsimp only
  rw [List.length_nil, Nat.zero_add, List.nil_append, hcount]
  by_cases hroom : arg.length < argSize
  · rw [if_pos hroom, if_pos hroom, Option.bind_some]
    dsimp only
    by_cases hk : (outputs params).length ≤ k
    · rw [if_pos ((done_iff params k).mpr hk), List.getElem?_eq_none hk]
    · rw [if_neg (mt (done_iff params k).mp hk), outputs_getElem? (Nat.lt_of_not_le hk)]
      rfl
  · rw [if_neg hroom, if_neg hroom, Option.bind_none]

theorem parseLoop_eq (hnul : 0 ∉ line) (h : line.drop b = s) (hb : b ≤ line.length)
    (hfuel : s.length < fuel) (houts : (outputs params).drop k = outs) :
    parseLoop amx params line fuel b (2 + 2 * k) memory =
      if Fits outs.length (arguments s) then
        some (storeAll amx memory (outs.zip (arguments s)), k + (outs.zip (arguments s)).length)
      else none := by
  induction fuel generalizing b s k memory outs with
  | zero => exact absurd hfuel (Nat.not_lt_zero _)
  | succ fuel ih =>
      cases s with
      | nil =>
          have hcount : (2 + 2 * k - 2) / 2 = k := by omega
          rw [parseLoop, read_end h hb, arguments_done rfl, List.zip_nil_right, Option.bind_some,
            if_pos rfl, hcount]
          exact (if_pos (List.forall_mem_nil _)).symm
      | cons c s =>
          have hsuffix : (scan .before (c :: s)).2.2 <:+ line :=
            (scan_suffix .before (c :: s)).trans (h ▸ List.drop_suffix b line)
          have hdrop := (List.suffix_iff_eq_drop.mp hsuffix).symm
          have hbefore := scan_before (c :: s)
          have hdone := @arguments_done (c :: s)
          have hargs := @arguments_next (c :: s)
          generalize hscan : scan .before (c :: s) = found at hdrop hbefore hdone hargs
          obtain ⟨arg, state, rest⟩ := found
          rw [parseLoop_step hnul h hb hfuel hscan]
          dsimp only at hdrop hbefore hdone hargs
          by_cases hstate : state = .before
          · -- only blanks are left, and the next turn meets the terminator
            cases hbefore.1 hstate
            have hpos : ([] : List Byte).length < fuel :=
              Nat.zero_lt_of_lt (Nat.lt_of_succ_lt_succ hfuel)
            rw [if_pos (by decide), if_pos rfl, hdone rfl,
              ih hdrop (Nat.sub_le _ _) hpos houts, arguments_done rfl]
          · have hlt : rest.length < fuel :=
              Nat.lt_of_lt_of_le (hbefore.2 hstate) (Nat.lt_succ_iff.mp hfuel)
            have hfits := fits_cons arg (arguments rest) outs.length
            rw [hargs hstate, if_neg hstate]
            by_cases hroom : arg.length < argSize
            · rw [if_pos hroom, ← List.head?_drop, houts]
              cases outs with
              | nil => exact (if_pos (hfits.mpr ⟨hroom, List.forall_mem_nil _⟩)).symm
              | cons out outs =>
                  have hnext : (outputs params).drop (k + 1) = outs := by
                    rw [← List.drop_drop, houts, List.drop_one, List.tail_cons]
                  refine (ih hdrop (Nat.sub_le _ _) hlt hnext).trans ?_
                  rw [List.zip_cons_cons, List.length_cons (a := (out, arg)), ← Nat.add_assoc,
                    Nat.add_right_comm k]
                  exact if_congr (hfits.trans (and_iff_right hroom)).symm rfl rfl
            · rw [if_neg hroom, if_neg fun hfit => hroom (hfits.mp hfit).1]

theorem parse_eq (hline : Holds memory amx (cellNumber (params 1)) line)
    (hfuel : line.length < fuel) :
    parse fuel amx params memory =
      if line.length < bufferSize ∧ Fits (outputs params).length (arguments line) then
        some (storeAll amx memory ((outputs params).zip (arguments line)),
          ((outputs params).zip (arguments line)).length)
      else none := by
  rw [parse, getAmxString_eq hline]
  by_cases hroom : line.length < bufferSize
  · have hloop : parseLoop amx params line fuel 0 (2 + 2 * 0) memory = _ :=
      parseLoop_eq hline.noNul List.drop_zero (Nat.zero_le _) hfuel List.drop_zero
    rw [Nat.zero_add] at hloop
    rw [if_pos hroom, Option.bind_some]
    refine hloop.trans (if_congr (and_iff_right hroom).symm rfl rfl)
  · rw [if_neg hroom, if_neg fun h => hroom h.1, Option.bind_none]

/-- The native returns the number of arguments it has stored; buffers that are apart
hold them in the end. -/
def Stores (fuel : Nat) (amx : Amx) (params : Nat → Cell) (memory : Memory)
    (args : List (List Byte)) : Prop :=
  let pairs := (outputs params).zip args
  parse fuel amx params memory = some (storeAll amx memory pairs, pairs.length) ∧
    (Apart memory amx pairs → ∀ pair ∈ pairs, (storeAll amx memory pairs).fetch amx pair.1.first
      (written memory amx pair.1 pair.2).length = written memory amx pair.1 pair.2)

theorem stores_iff (hline : Holds memory amx (cellNumber (params 1)) line)
    (hfuel : line.length < fuel) :
    Stores fuel amx params memory (arguments line) ↔
      line.length < bufferSize ∧ Fits (outputs params).length (arguments line) := by
  rw [Stores, parse_eq hline hfuel]
  split
  next hfits => exact iff_of_true ⟨rfl, storeAll_written⟩ hfits
  next hfits => exact iff_of_false (fun h => nomatch h.1) hfits

/-- A line is scanned to its end exactly if it and its arguments fit, and then its
arguments are those that it was written from. -/
theorem parse_undoes_quoting_iff (hline : Holds memory amx (cellNumber (params 1)) line)
    (hfuel : line.length < fuel) :
    ((parse fuel amx params memory).isSome ↔
      line.length < bufferSize ∧ Fits (outputs params).length (arguments line)) ∧
    ∀ args, Argument.renderAll args = line →
      (Stores fuel amx params memory (args.map Argument.text) ↔
        line.length < bufferSize ∧
          ∀ arg ∈ args.take ((outputs params).length + 1), arg.text.length < argSize) := by
  refine ⟨?_, fun args hargs => ?_⟩
  · rw [parse_eq hline hfuel]
    split
    next hfits => exact iff_of_true rfl hfits
    next hfits => exact iff_of_false Bool.false_ne_true hfits
  · have harguments := Argument.arguments_renderAll args
    rw [hargs] at harguments
    rw [← harguments, stores_iff hline hfuel, harguments, Fits, ← List.map_take,
      List.forall_mem_map]

end

/-! A line of one letter, and one of a word that is too long. -/

section

/-- The line starts at the first cell, and the cell 4000 holds the size of the buffer
behind it. -/
def letters (count : Nat) : Memory :=
  fun _ i => if i < count then 97 else if i = 4000 then 5 else 0

def oneOutput : Nat → Cell
  | 0 => 12
  | 2 => 4 * 4001
  | 3 => 4 * 4000
  | _ => 0

theorem holds_letters (amx : Amx) (count first : Nat) {size : Nat} (hsize : first + size = count)
    (hcount : count < 4000) : Holds (letters count) amx first (List.replicate size 97) := by
  induction size generalizing first with
  | zero =>
      have hat : letters count amx first = 0 := by
        rw [letters, if_neg (by omega), if_neg (by omega)]
      rw [List.replicate_zero, Holds, hat]
      rfl
  | succ size ih =>
      have hat : letters count amx first = 97 := by rw [letters, if_pos (by omega)]
      rw [List.replicate_succ, Holds, hat]
      exact ⟨rfl, by decide, ih (first + 1) (by omega)⟩

theorem replicate_ne {c : Byte} (hc : c ≠ 97) (size : Nat) : c ∉ List.replicate size 97 :=
  fun hmem => hc (List.eq_of_mem_replicate hmem)

theorem isSpace_replicate (size : Nat) :
    ∀ c ∈ List.replicate size (97 : Byte), isSpace c = false := by
  intro c hc
  rw [List.eq_of_mem_replicate hc]
  decide

theorem word_replicate {size : Nat} (hsize : size ≠ 0) (isQuoted : Bool) :
    isQuoted = false → List.replicate size (97 : Byte) ≠ [] ∧
      ∀ c ∈ List.replicate size (97 : Byte), isSpace c = false :=
  fun _ => ⟨fun hnil => hsize (by simpa using hnil), isSpace_replicate size⟩

def longWord (size : Nat) (hsize : size ≠ 0) : Argument where
  isQuoted := false
  text := List.replicate size 97
  noNul := replicate_ne (by decide) size
  noQuote := replicate_ne (by decide) size
  word := word_replicate hsize false

theorem renderAll_longWord (size : Nat) (hsize : size ≠ 0) :
    Argument.renderAll [longWord size hsize] = List.replicate size 97 := by
  rw [Argument.renderAll, List.map_singleton, List.intercalate_singleton]
  rfl

theorem parse_undoes_quoting_of_letter :
    Stores 2 0 oneOutput (letters 1) [[97]] := by
  have hline : Holds (letters 1) 0 (cellNumber (oneOutput 1)) (List.replicate 1 97) :=
    holds_letters 0 1 0 rfl (by decide)
  refine ((parse_undoes_quoting_iff hline (by decide)).2 [longWord 1 Nat.one_ne_zero]
    (renderAll_longWord 1 Nat.one_ne_zero)).mpr ⟨by decide, ?_⟩
  intro arg harg
  rw [List.mem_singleton.mp (List.mem_of_mem_take harg)]
  exact (by decide : 1 < argSize)

/-- A word of 3072 characters leaves no room for the terminator. -/
theorem parse_overruns_arg :
    ¬ ∀ (memory : Memory) (amx : Amx) (params : Nat → Cell) (args : List Argument) (fuel : Nat),
      Holds memory amx (cellNumber (params 1)) (Argument.renderAll args) →
        (Argument.renderAll args).length < fuel →
          Stores fuel amx params memory (args.map Argument.text) := by
  intro h
  have hne : (3072 : Nat) ≠ 0 := by decide
  have hrender := renderAll_longWord 3072 hne
  have hline : Holds (letters 3072) 0 (cellNumber (oneOutput 1))
      (Argument.renderAll [longWord 3072 hne]) := hrender ▸ holds_letters 0 3072 0 rfl (by decide)
  have hfuel : (Argument.renderAll [longWord 3072 hne]).length < 4000 := by
    rw [hrender, List.length_replicate]
    decide
  have hstores := h (letters 3072) 0 oneOutput [longWord 3072 hne] 4000 hline hfuel
  rw [← Argument.arguments_renderAll, stores_iff hline hfuel, Argument.arguments_renderAll]
    at hstores
  have hroom := hstores.2 (List.replicate 3072 97) List.mem_cons_self
  rw [List.length_replicate] at hroom
  exact Nat.lt_irrefl _ hroom

end

end AmxModC.Strings
