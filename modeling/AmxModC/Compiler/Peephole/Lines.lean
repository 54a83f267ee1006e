import AmxModC.Compiler.Assembler.Reading
import AmxModC.Compiler.Peephole.Table
import AmxModC.Foundation.Text

namespace AmxModC.Compiler.Peephole

open Foundation Assembler

/-! The optimizer on the text of the staging buffer. -/

/-- `alphanum`, and the two signs -/
def isSymbol (c : Byte) : Bool := c = 45 || c = 43 || isAlnum c || c = 95 || c = 64

/-- `symbols`; one that is empty is not set. -/
abbrev Symbols := Nat → List Byte

def skipBlanks (s : List Byte) : List Byte := s.dropWhile isBlank

def nibble (v : Cell) (i : Nat) : Nat := v.toNat / 16 ^ i % 16

def highestNibble (v : Cell) : Nat → Nat
  | 0 => 0
  | i + 1 => if nibble v (i + 1) = 0 then highestNibble v i else i + 1

def itoh (v : Cell) : List Byte :=
  (List.range (highestNibble v 7 + 1)).reverse.map fun i => digitChar false (nibble v i)

theorem length_hexDigits_le (v : Cell) (s : List Byte) : (hexDigits v s).2.length ≤ s.length := by
  induction s generalizing v with
  | nil => exact le_refl _
  | cons c s ih =>
      rw [hexDigits]
      split
      · exact (ih _).trans (Nat.le_succ _)
      · exact le_refl _

def matchLoop (pattern : List Byte) (symbols : Symbols) (start : List Byte) :
    Option (Symbols × List Byte) :=
  match pattern with
  | [] => some (symbols, start)
  | c :: pattern =>
      if start = [] then none
      else if c = 37 then
        let var := (atoi pattern).toNat - 1
        let str := start.takeWhile isSymbol
        if symbols var ≠ [] ∧ symbols var ≠ str then none
        else matchLoop (pattern.drop 1) (Function.update symbols var str) (start.dropWhile isSymbol)
      else if c = 45 then
        let ptr := itoh (-(hexDigits 0 pattern).1)
        if (start.take ptr.length).map toLower = ptr.map toLower then
          matchLoop (hexDigits 0 pattern).2 symbols (start.drop ptr.length)
        else none
      else if c = 32 then
        if start.head?.any isBlank then matchLoop pattern symbols (skipBlanks start) else none
      else if c = 33 then
        match skipBlanks start with
        | 10 :: rest =>
            -- skip '\n' and '\0', and the leading white space of the next instruction
            let rest := rest.drop 1
            matchLoop pattern symbols (if pattern = [] then rest else skipBlanks rest)
        | _ => none
      else if start.head?.map toLower = some (toLower c) then
        matchLoop pattern symbols (start.drop 1)
      else none
termination_by pattern.length
decreasing_by
  all_goals simp only [List.length_cons, List.length_drop]
  · omega
  · exact Nat.lt_succ_of_le (length_hexDigits_le 0 _)
  · omega
  · omega
  · omega

/-- The symbols, and the text behind what matches. -/
def matchsequence (start pattern : List Byte) : Option (Symbols × List Byte) :=
  matchLoop pattern (fun _ => []) (skipBlanks start)

/-- The loop that writes the pattern into the buffer. -/
def replaceLoop (symbols : Symbols) : List Byte → List Byte
  | [] => []
  | 37 :: d :: pattern => symbols ((atoi (d :: pattern)).toNat - 1) ++ replaceLoop symbols pattern
  | 33 :: pattern => 10 :: 0 :: (if pattern = [] then [] else [9]) ++ replaceLoop symbols pattern
  | c :: pattern => c :: replaceLoop symbols pattern

def replacesequence (pattern : List Byte) (symbols : Symbols) : List Byte :=
  9 :: replaceLoop symbols pattern

/-- The first sequence that matches, put in place; and the bytes of code it saves. -/
def tryReplace (start : List Byte) : List Sequence → Option (List Byte × Nat)
  | [] => none
  | seq :: sequences =>
      match matchsequence start seq.find with
      | some (symbols, rest) =>
          let replace := replacesequence seq.replace symbols
          if replace.length ≤ start.length - rest.length then some (replace ++ rest, seq.savesize)
          else tryReplace start sequences
      | none => tryReplace start sequences

section

variable (sequences : List Sequence)

/-- The loop over the sequences at one line, which starts again after each match. -/
def replaceHere : Nat → List Byte → Cell → Nat → Option (List Byte × Cell × Nat)
  | 0, _, _, _ => none
  | turns + 1, start, codeIdx, found =>
      match tryReplace start sequences with
      | some (start, savesize) =>
          replaceHere turns start (codeIdx - BitVec.ofNat 32 savesize) (found + 1)
      | none => some (start, codeIdx, found)

/-- `while (start<end)` -/
def passLoop : Nat → List Byte → Cell → Nat → Option (List Byte × Cell × Nat)
  | 0, _, _, _ => none
  | turns + 1, start, codeIdx, found =>
      if start = [] then some ([], codeIdx, found)
      else do
        let (start, codeIdx, found) ← replaceHere sequences (start.length + 1) start codeIdx found
        let (rest, codeIdx, found) ← passLoop turns ((start.dropWhile (· ≠ 0)).drop 1) codeIdx found
        return (start.takeWhile (· ≠ 0) ++ (start.dropWhile (· ≠ 0)).take 1 ++ rest, codeIdx, found)

/-- `do … while (matches>0)` -/
def optimizeLoop : Nat → List Byte → Cell → Option (List Byte × Cell)
  | 0, _, _ => none
  | turns + 1, text, codeIdx => do
      let (text, codeIdx, found) ← passLoop sequences (text.length + 1) text codeIdx 0
      if 0 < found then optimizeLoop turns text codeIdx else some (text, codeIdx)

/-- The text that `stgopt` leaves in the buffer, and `code_idx`. -/
def stgopt (optimize : Bool) (text : List Byte) (codeIdx : Cell) : Option (List Byte × Cell) :=
  if optimize then optimizeLoop sequences (text.length + 1) text codeIdx else some (text, codeIdx)

end

/-! The optimizer on the lines of the staging buffer. -/

/-- The text of one line, without its end. -/
def Clean (l : List Byte) : Prop := 0 ∉ l ∧ 10 ∉ l

instance (l : List Byte) : Decidable (Clean l) := inferInstanceAs (Decidable (_ ∧ _))

def staged (lines : List (List Byte)) : List Byte := lines.flatMap (· ++ [10, 0])

def matchArg (symbols : Symbols) : Operand → List Byte → Option (Symbols × List Byte)
  | .var i, l =>
      let str := l.takeWhile isSymbol
      if symbols i ≠ [] ∧ symbols i ≠ str then none
      else some (Function.update symbols i str, l.dropWhile isSymbol)
  | .text (45 :: digits), l =>
      let ptr := itoh (-(hexDigits 0 digits).1)
      if (l.take ptr.length).map toLower = ptr.map toLower then some (symbols, l.drop ptr.length)
      else none
  | .text t, l =>
      if (l.take t.length).map toLower = t.map toLower then some (symbols, l.drop t.length)
      else none
  | _, _ => none

def matchArgs (symbols : Symbols) : List Operand → List Byte → Option Symbols
  | [], l => if skipBlanks l = [] then some symbols else none
  | arg :: args, l =>
      if l.head?.any isBlank then
        (matchArg symbols arg (skipBlanks l)).bind fun r => matchArgs r.1 args r.2
      else none

def matchLine (symbols : Symbols) (line : Line) (l : List Byte) : Option Symbols :=
  let l := skipBlanks l
  if (l.take line.name.length).map toLower = line.name.map toLower then
    matchArgs symbols line.args (l.drop line.name.length)
  else none

def matchLines (symbols : Symbols) : List Line → List (List Byte) → Option (Symbols × List (List Byte))
  | [], ls => some (symbols, ls)
  | _ :: _, [] => none
  | line :: lines, l :: ls => (matchLine symbols line l).bind fun symbols => matchLines symbols lines ls

/-- The text of a parameter, with the symbols put in. -/
def Operand.fill (symbols : Symbols) : Operand → List Byte
  | var i => symbols i
  | neg i => 45 :: symbols i
  | sum i j => symbols i ++ 43 :: symbols j
  | text t => t

def Line.fill (symbols : Symbols) (line : Line) : List Byte :=
  line.name ++ line.args.flatMap fun arg => 32 :: arg.fill symbols

/-- The sequence put in place of the lines that it matches. -/
def Rule.apply (r : Rule) (ls : List (List Byte)) : Option (List (List Byte)) :=
  (matchLines (fun _ => []) r.find ls).map fun m =>
    (r.replace.map fun line => 9 :: line.fill m.1) ++ m.2

/-- A character that stands for itself in a pattern. -/
def isOrdinary (c : Byte) : Bool := c ≠ 37 ∧ c ≠ 45 ∧ c ≠ 32 ∧ c ≠ 33 ∧ c ≠ 10 ∧ c ≠ 0

/-- A parameter that a pattern can look for. -/
def Operand.Sought : Operand → Prop
  | var i => i < 9
  | text (45 :: digits) => digits.all fun c => (digit? 16 c).isSome
  | text t => t.all isOrdinary
  | _ => False

instance (arg : Operand) : Decidable arg.Sought := by
  unfold Operand.Sought
  split <;> infer_instance

def Line.Sought (line : Line) : Prop := line.name.all isOrdinary ∧ ∀ arg ∈ line.args, arg.Sought

instance (line : Line) : Decidable line.Sought := inferInstanceAs (Decidable (_ ∧ _))

/-- A parameter that a pattern can put in. -/
def Operand.Given : Operand → Prop
  | var i | neg i => i < 9
  | sum i j => i < 9 ∧ j < 9
  | text t => t.all fun c => c ≠ 37 ∧ c ≠ 33 ∧ c ≠ 10 ∧ c ≠ 0

instance (arg : Operand) : Decidable arg.Given := by
  unfold Operand.Given
  split <;> infer_instance

def Line.Given (line : Line) : Prop := line.name.all isOrdinary ∧ ∀ arg ∈ line.args, arg.Given

instance (line : Line) : Decidable line.Given := inferInstanceAs (Decidable (_ ∧ _))

section

variable {symbols : Symbols} {l tail pattern w : List Byte}

theorem skipBlanks_append : skipBlanks (l ++ 10 :: tail) = skipBlanks l ++ 10 :: tail := by
  rw [skipBlanks, skipBlanks, List.dropWhile_append]
  split
  · next h =>
      rw [List.isEmpty_iff.mp h]
      rfl
  · rfl

theorem takeWhile_symbol : (l ++ 10 :: tail).takeWhile isSymbol = l.takeWhile isSymbol := by
  rw [List.takeWhile_append]
  split
  · next h =>
      rw [← List.append_nil (l.takeWhile isSymbol),
        (List.takeWhile_prefix isSymbol).eq_of_length h]
      rfl
  · rfl

theorem dropWhile_symbol :
    (l ++ 10 :: tail).dropWhile isSymbol = l.dropWhile isSymbol ++ 10 :: tail := by
  rw [List.dropWhile_append]
  split
  · next h =>
      rw [List.isEmpty_iff.mp h]
      rfl
  · rfl

theorem toLower_newline {c : Byte} : toLower c = 10 ↔ c = 10 := by
  revert c
  decide

theorem take_word (l tail : List Byte) (hw : 10 ∉ w) :
    ((l ++ 10 :: tail).take w.length).map toLower = w.map toLower ↔
      (l.take w.length).map toLower = w.map toLower := by
  induction w generalizing l with
  | nil => simp
  | cons c w ih =>
      obtain ⟨hc, hw⟩ := not_or.mp (mt List.mem_cons.mpr hw)
      cases l with
      | nil =>
          refine iff_of_false (fun h => hc ?_) (by simp)
          exact (toLower_newline.mp (List.cons.inj h).1.symm).symm
      | cons d l =>
          simp only [List.cons_append, List.length_cons, List.take_succ_cons, List.map_cons,
            List.cons.injEq, ih _ hw]

theorem length_of_take (h : (l.take w.length).map toLower = w.map toLower) :
    w.length ≤ l.length := by
  have hlen := congrArg List.length h
  rw [List.length_map, List.length_map, List.length_take] at hlen
  omega

theorem matchLoop_word (hw : w.all isOrdinary) :
    matchLoop (w ++ pattern) symbols (l ++ 10 :: tail) =
      if (l.take w.length).map toLower = w.map toLower then
        matchLoop pattern symbols (l.drop w.length ++ 10 :: tail)
      else none := by
  induction w generalizing l with
  | nil => simp
  | cons c w ih =>
      obtain ⟨hc, hw⟩ := Bool.and_eq_true_iff.mp (List.all_cons.symm.trans hw)
      simp only [isOrdinary, ne_eq, decide_eq_true_eq, Bool.decide_and, Bool.and_eq_true] at hc
      obtain ⟨h37, h45, h32, h33, h10, -⟩ := hc
      rw [List.cons_append, matchLoop, if_neg (by simp), if_neg h37, if_neg h45, if_neg h32,
        if_neg h33]
      cases l with
      | nil =>
          rw [if_neg, if_neg (by simp)]
          intro h
          exact h10 (toLower_newline.mp (Option.some.inj h).symm)
      | cons d l =>
          simp only [List.cons_append, List.head?_cons, Option.map_some, Option.some.injEq,
            List.drop_succ_cons, List.drop_zero, List.length_cons, List.take_succ_cons,
            List.map_cons, List.cons.injEq]
          by_cases hd : toLower d = toLower c
          · rw [if_pos hd, ih hw]
            simp only [hd, true_and]
          · rw [if_neg hd, if_neg fun h => hd h.1]

theorem digit?_newline_free {c : Byte} (h : (digit? 16 c).isSome) : isOrdinary c := by
  revert c
  decide

theorem hexDigits_append {v : Cell} {digits rest : List Byte}
    (hdigits : digits.all fun c => (digit? 16 c).isSome)
    (hrest : ∀ c ∈ rest.head?, digit? 16 c = none) :
    hexDigits v (digits ++ rest) = ((hexDigits v digits).1, rest) := by
  rw [hexDigits_stop hrest, hexDigits_all (List.all_eq_true.mp hdigits), List.nil_append]

theorem digitChar_ordinary {d : Nat} (h : d < 16) : digitChar false d ≠ 10 := by
  have hall : ∀ d < 16, digitChar false d ≠ 10 := by decide
  exact hall d h

theorem itoh_newline (v : Cell) : 10 ∉ itoh v := by
  intro h
  obtain ⟨i, -, hi⟩ := List.mem_map.mp h
  exact digitChar_ordinary (Nat.mod_lt _ (by decide)) hi

theorem shift_digit (r : Cell) {d : Nat} (hd : d < 16) :
    r <<< 4 ||| BitVec.ofNat 32 d = BitVec.ofNat 32 (r.toNat * 16 + d) := by
  refine BitVec.eq_of_toNat_eq ?_
  have hd32 : d % 2 ^ 32 = d := Nat.mod_eq_of_lt (by omega)
  have hshift : (r.toNat <<< 4) % 2 ^ 32 = (r.toNat % 2 ^ 28) <<< 4 := by
    rw [Nat.shiftLeft_eq, Nat.shiftLeft_eq]
    omega
  rw [BitVec.toNat_or, BitVec.toNat_shiftLeft, BitVec.toNat_ofNat, BitVec.toNat_ofNat, hd32, hshift,
    ← Nat.shiftLeft_add_eq_or_of_lt (show d < 2 ^ 4 from hd), Nat.shiftLeft_eq]
  omega

theorem hexDigits_nibbles (v r : Cell) (n : Nat) :
    hexDigits r ((List.range n).reverse.map fun i => digitChar false (nibble v i)) =
      (BitVec.ofNat 32 (r.toNat * 16 ^ n + v.toNat % 16 ^ n), []) := by
  induction n generalizing r with
  | zero => simp [hexDigits, Nat.mod_one]
  | succ n ih =>
      have hnibble : nibble v n < 16 := Nat.mod_lt _ (by decide)
      rw [List.range_succ, List.reverse_append, List.reverse_singleton, List.singleton_append,
        List.map_cons, hexDigits, digit?_digitChar false (by decide) hnibble]
      dsimp only
      rw [shift_digit r hnibble, ih]
      refine Prod.ext (BitVec.eq_of_toNat_eq ?_) rfl
      have hpow : v.toNat % 16 ^ (n + 1) = v.toNat % 16 ^ n + 16 ^ n * nibble v n := Nat.mod_pow_succ
      rw [BitVec.toNat_ofNat, BitVec.toNat_ofNat, BitVec.toNat_ofNat, hpow]
      have hsplit : r.toNat * 16 ^ (n + 1) + (v.toNat % 16 ^ n + 16 ^ n * nibble v n) =
          (r.toNat * 16 + nibble v n) * 16 ^ n + v.toNat % 16 ^ n := by
        ring
      rw [hsplit, Nat.add_mod, Nat.mod_mul_mod, ← Nat.add_mod]

theorem lt_highestNibble (v : Cell) (n : Nat) (h : v.toNat < 16 ^ (n + 1)) :
    v.toNat < 16 ^ (highestNibble v n + 1) := by
  induction n with
  | zero => exact h
  | succ n ih =>
      rw [highestNibble]
      split
      · next hzero =>
          refine ih ?_
          rw [nibble, Nat.mod_eq_of_lt] at hzero
          · exact (Nat.div_eq_zero_iff.mp hzero).resolve_left (by positivity)
          · rw [Nat.div_lt_iff_lt_mul (by positivity)]
            rwa [Nat.pow_succ', ] at h
      · exact h

theorem hexDigits_itoh (v : Cell) : hexDigits 0 (itoh v) = (v, []) := by
  have hlt := lt_highestNibble v 7 v.isLt
  rw [itoh, hexDigits_nibbles]
  simp [Nat.mod_eq_of_lt hlt]

theorem isHex_itoh (v : Cell) : IsHex (itoh v) := by
  refine ⟨by simp [itoh], fun c hc => ?_⟩
  obtain ⟨i, -, rfl⟩ := List.mem_map.mp hc
  have hnibble : nibble v i < 16 := Nat.mod_lt _ (by decide)
  rw [digit?_digitChar false (by decide) hnibble]
  rfl

/-- A number that the optimizer or the code generator writes is the one that the assembler reads,
be it as a label or as a parameter. -/
theorem itoh_read (v : Cell) :
    IsHex (itoh v) ∧ hex2long (itoh v) = (v, []) ∧ getparam (itoh v) = (v, []) := by
  have hhex := isHex_itoh v
  refine ⟨hhex, ?_, ?_⟩
  · rw [hhex.hex2long_eq, hexDigits_itoh]
  · rw [hhex.getparam_eq, hexDigits_itoh]

theorem atoi_digit {i : Nat} (hi : i < 9) (hhead : ∀ c ∈ pattern.head?, digit? 10 c = none) :
    atoi (BitVec.ofNat 8 (49 + i) :: pattern) = i + 1 := by
  have hall : ∀ i < 9, isSpace (BitVec.ofNat 8 (49 + i)) = false ∧ BitVec.ofNat 8 (49 + i) ≠ 43 ∧
      BitVec.ofNat 8 (49 + i) ≠ 45 ∧ digit? 10 (BitVec.ofNat 8 (49 + i)) = some (i + 1) := by
    decide
  obtain ⟨hspace, hplus, hminus, hdigit⟩ := hall i hi
  have hread : readDigits 10 0 (BitVec.ofNat 8 (49 + i) :: pattern) = i + 1 := by
    simp only [readDigits, hdigit]
    cases pattern with
    | nil => simp [readDigits]
    | cons c pattern => simp [readDigits, hhead c rfl]
  rw [atoi, List.dropWhile_cons_of_neg (by simp [hspace])]
  split
  · next h => exact absurd (List.cons.inj h).1 hplus
  · rw [readInt, List.dropWhile_cons_of_neg (by simp [hspace])]
    split
    · next h => exact absurd (List.cons.inj h).1 hminus
    · rw [hread]
      rfl

theorem sought_text {t : List Byte} (hsign : ¬ ∃ digits, t = 45 :: digits)
    (h : (Operand.text t).Sought) : t.all isOrdinary := by
  unfold Operand.Sought at h
  split at h
  · next heq => cases heq
  · next digits heq => exact absurd ⟨digits, Operand.text.inj heq⟩ hsign
  · next heq => exact Operand.text.inj heq ▸ h
  · next hne => exact absurd rfl (hne t)

theorem matchArg_text {t : List Byte} (hsign : ¬ ∃ digits, t = 45 :: digits) :
    matchArg symbols (.text t) l =
      if (l.take t.length).map toLower = t.map toLower then some (symbols, l.drop t.length)
      else none := by
  rw [matchArg]
  exact fun digits h => hsign ⟨digits, h⟩

theorem matchArg_signed {digits : List Byte} :
    matchArg symbols (.text (45 :: digits)) l =
      if (l.take (itoh (-(hexDigits 0 digits).1)).length).map toLower =
          (itoh (-(hexDigits 0 digits).1)).map toLower then
        some (symbols, l.drop (itoh (-(hexDigits 0 digits).1)).length)
      else none := rfl

theorem matchLoop_arg {arg : Operand} (harg : arg.Sought)
    (hpattern : pattern.head? = some 32 ∨ pattern.head? = some 33) :
    matchLoop (arg.print ++ pattern) symbols (l ++ 10 :: tail) =
      (matchArg symbols arg l).bind fun r => matchLoop pattern r.1 (r.2 ++ 10 :: tail) := by
  have hdigit : ∀ base ∈ [10, 16], ∀ c ∈ pattern.head?, digit? base c = none := by
    intro base hbase c hc
    rcases hpattern with h | h <;> rw [h] at hc <;> cases hc <;> revert hbase <;> revert base <;> decide
  cases arg with
  | var i =>
      rw [Operand.print, List.cons_append, List.cons_append, List.nil_append, matchLoop,
        if_neg (by simp), if_pos rfl, atoi_digit harg (hdigit 10 (by simp)), matchArg,
        takeWhile_symbol, dropWhile_symbol]
      have hvar : ((i : Int) + 1).toNat - 1 = i := by omega
      rw [hvar]
      dsimp only
      by_cases hset : symbols i ≠ [] ∧ symbols i ≠ l.takeWhile isSymbol
      · rw [if_pos hset, if_pos hset]
        rfl
      · rw [if_neg hset, if_neg hset]
        rfl
  | text t =>
      by_cases hsign : ∃ digits, t = 45 :: digits
      · obtain ⟨digits, rfl⟩ := hsign
        have hvalue := hexDigits_append (v := 0) harg (hdigit 16 (by simp))
        have hword := take_word l tail (itoh_newline (-(hexDigits 0 digits).1))
        rw [Operand.print, List.cons_append, matchLoop, if_neg (by simp), if_neg (by decide),
          if_pos rfl, hvalue, matchArg_signed]
        dsimp only
        by_cases hmatch : (l.take (itoh (-(hexDigits 0 digits).1)).length).map toLower =
            (itoh (-(hexDigits 0 digits).1)).map toLower
        · rw [if_pos (hword.mpr hmatch), if_pos hmatch, List.drop_append_of_le_length
            (length_of_take hmatch)]
          rfl
        · rw [if_neg (mt hword.mp hmatch), if_neg hmatch]
          rfl
      · rw [Operand.print, matchLoop_word (sought_text hsign harg), matchArg_text hsign]
        split <;> rfl
  | neg i => exact absurd harg id
  | sum i j => exact absurd harg id

theorem matchArg_suffix {arg : Operand} {r : Symbols × List Byte}
    (h : matchArg symbols arg l = some r) : r.2 <:+ l := by
  unfold matchArg at h
  split at h
  · dsimp only at h
    split at h
    · cases h
    · cases h
      exact List.dropWhile_suffix _
  · dsimp only at h
    split at h
    · cases h
      exact List.drop_suffix _ _
    · cases h
  · split at h
    · cases h
      exact List.drop_suffix _ _
    · cases h
  · cases h

theorem head_args (args : List Operand) (pattern : List Byte) :
    ((args.flatMap fun arg => 32 :: arg.print) ++ 33 :: pattern).head? = some 32 ∨
      ((args.flatMap fun arg => 32 :: arg.print) ++ 33 :: pattern).head? = some 33 := by
  cases args with
  | nil => exact Or.inr rfl
  | cons arg args => exact Or.inl rfl

/-- What the match goes on with behind a line. -/
def nextStart (pattern tail : List Byte) : List Byte :=
  if pattern = [] then tail else skipBlanks tail

theorem matchLoop_args {args : List Operand} (hargs : ∀ arg ∈ args, arg.Sought) (hl : 10 ∉ l) :
    matchLoop ((args.flatMap fun arg => 32 :: arg.print) ++ 33 :: pattern) symbols
        (l ++ 10 :: 0 :: tail) =
      (matchArgs symbols args l).bind fun symbols =>
        matchLoop pattern symbols (nextStart pattern tail) := by
  induction args generalizing symbols l with
  | nil =>
      rw [List.flatMap_nil, List.nil_append, matchLoop, if_neg (by simp), if_neg (by decide),
        if_neg (by decide), if_neg (by decide), if_pos rfl, skipBlanks_append, matchArgs]
      cases hrest : skipBlanks l with
      | nil => rfl
      | cons d rest =>
          have hd : d ≠ 10 := by
            rintro rfl
            exact hl ((List.dropWhile_sublist _).subset (hrest ▸ List.mem_cons_self))
          rw [if_neg (List.cons_ne_nil d rest)]
          split
          · next heq => exact absurd (List.cons.inj heq).1 hd
          · rfl
  | cons arg args ih =>
      obtain ⟨harg, hargs⟩ := List.forall_mem_cons.mp hargs
      rw [List.flatMap_cons, List.append_assoc, List.cons_append, matchLoop, if_neg (by simp),
        if_neg (by decide), if_neg (by decide), if_pos rfl, skipBlanks_append,
        matchLoop_arg harg (head_args args pattern), matchArgs]
      have hhead : (l ++ 10 :: 0 :: tail).head?.any isBlank = l.head?.any isBlank := by
        cases l <;> rfl
      rw [hhead]
      split
      · cases hr : matchArg symbols arg (skipBlanks l) with
        | none => rfl
        | some r =>
            have hsuffix := (matchArg_suffix hr).trans (List.dropWhile_suffix _)
            exact ih hargs fun hin => hl (hsuffix.subset hin)
      · rfl

theorem matchLoop_line {line : Line} (hline : line.Sought) (hl : 10 ∉ l) :
    matchLoop (line.print ++ pattern) symbols (skipBlanks (l ++ 10 :: 0 :: tail)) =
      (matchLine symbols line l).bind fun symbols =>
        matchLoop pattern symbols (nextStart pattern tail) := by
  have hskip : 10 ∉ (skipBlanks l).drop line.name.length := fun hin =>
    hl ((List.dropWhile_sublist _).subset ((List.drop_sublist _ _).subset hin))
  rw [Line.print, List.append_assoc, List.append_assoc, List.singleton_append, skipBlanks_append,
    matchLoop_word hline.1, matchLoop_args hline.2 hskip, matchLine]
  split <;> rfl

theorem staged_cons (l : List Byte) (ls : List (List Byte)) :
    staged (l :: ls) = l ++ 10 :: 0 :: staged ls := by
  rw [staged, List.flatMap_cons, List.append_assoc]
  rfl

theorem print_ne_nil (line : Line) (pattern : List Byte) : line.print ++ pattern ≠ [] := by
  rw [Line.print]
  simp

theorem matchLoop_lines {lines : List Line} {ls : List (List Byte)}
    (hlines : ∀ line ∈ lines, line.Sought) (hls : ∀ l ∈ ls, Clean l) (hne : lines ≠ []) :
    matchLoop (printPattern lines) symbols (skipBlanks (staged ls)) =
      (matchLines symbols lines ls).map fun r => (r.1, staged r.2) := by
  induction lines generalizing symbols ls with
  | nil => exact absurd rfl hne
  | cons line lines ih =>
      obtain ⟨hline, hlines⟩ := List.forall_mem_cons.mp hlines
      cases ls with
      | nil =>
          rw [printPattern, List.flatMap_cons]
          cases hprint : line.print ++ lines.flatMap Line.print with
          | nil => exact absurd hprint (print_ne_nil line _)
          | cons c pattern =>
              rw [matchLoop]
              rfl
      | cons l ls =>
          obtain ⟨hl, hls⟩ := List.forall_mem_cons.mp hls
          rw [printPattern, List.flatMap_cons, staged_cons, matchLoop_line hline hl.2, matchLines]
          cases matchLine symbols line l with
          | none => rfl
          | some symbols =>
              rw [Option.bind_some, Option.bind_some]
              cases lines with
              | nil =>
                  rw [List.flatMap_nil, matchLoop]
                  rfl
              | cons line' lines =>
                  have hnext : nextStart ((line' :: lines).flatMap Line.print) (staged ls) =
                      skipBlanks (staged ls) := by
                    rw [nextStart, List.flatMap_cons, if_neg (print_ne_nil _ _)]
                  rw [hnext]
                  exact ih hlines hls (List.cons_ne_nil _ _)

theorem replaceLoop_word (hw : w.all fun c => c ≠ 37 ∧ c ≠ 33 ∧ c ≠ 10 ∧ c ≠ 0) :
    replaceLoop symbols (w ++ pattern) = w ++ replaceLoop symbols pattern := by
  induction w with
  | nil => rfl
  | cons c w ih =>
      obtain ⟨hc, hw⟩ := Bool.and_eq_true_iff.mp (List.all_cons.symm.trans hw)
      obtain ⟨h37, h33, -⟩ := of_decide_eq_true hc
      rw [List.cons_append, replaceLoop, ih hw]
      · rfl
      · exact fun d rest h => absurd h h37
      · exact fun h => absurd h h33

theorem replaceLoop_symbol (d : Byte) : replaceLoop symbols (37 :: d :: pattern) =
    symbols ((atoi (d :: pattern)).toNat - 1) ++ replaceLoop symbols pattern := rfl

theorem replaceLoop_end : replaceLoop symbols (33 :: pattern) =
    10 :: 0 :: (if pattern = [] then [] else [9]) ++ replaceLoop symbols pattern := by
  cases pattern <;> rfl

theorem replaceLoop_var {i : Nat} (hi : i < 9) (hhead : ∀ c ∈ pattern.head?, digit? 10 c = none) :
    replaceLoop symbols (37 :: BitVec.ofNat 8 (49 + i) :: pattern) =
      symbols i ++ replaceLoop symbols pattern := by
  rw [replaceLoop_symbol, atoi_digit hi hhead]
  have hvar : ((i : Int) + 1).toNat - 1 = i := by omega
  rw [hvar]

theorem replaceLoop_arg {arg : Operand} (harg : arg.Given)
    (hpattern : pattern.head? = some 32 ∨ pattern.head? = some 33) :
    replaceLoop symbols (arg.print ++ pattern) = arg.fill symbols ++ replaceLoop symbols pattern := by
  have hdigit : ∀ c ∈ pattern.head?, digit? 10 c = none := by
    intro c hc
    rcases hpattern with h | h <;> rw [h] at hc <;> cases hc <;> decide
  cases arg with
  | var i => exact replaceLoop_var harg hdigit
  | neg i => exact congrArg (45 :: ·) (replaceLoop_var harg hdigit)
  | sum i j =>
      refine (replaceLoop_var harg.1 fun c hc => ?_).trans ?_
      · cases hc
        decide
      · rw [Operand.fill, List.append_assoc]
        exact congrArg (fun t => symbols i ++ 43 :: t) (replaceLoop_var harg.2 hdigit)
  | text t => exact replaceLoop_word harg

theorem replaceLoop_args {args : List Operand} (hargs : ∀ arg ∈ args, arg.Given) :
    replaceLoop symbols ((args.flatMap fun arg => 32 :: arg.print) ++ 33 :: pattern) =
      (args.flatMap fun arg => 32 :: arg.fill symbols) ++
        replaceLoop symbols (33 :: pattern) := by
  induction args with
  | nil => rfl
  | cons arg args ih =>
      obtain ⟨harg, hargs⟩ := List.forall_mem_cons.mp hargs
      rw [List.flatMap_cons, List.flatMap_cons, List.append_assoc, List.append_assoc,
        List.cons_append, List.cons_append, ← ih hargs,
        ← replaceLoop_arg harg (head_args args pattern)]
      rfl

theorem replaceLoop_line {line : Line} (hline : line.Given) :
    replaceLoop symbols (line.print ++ pattern) =
      line.fill symbols ++ 10 :: 0 :: (if pattern = [] then [] else [9]) ++
        replaceLoop symbols pattern := by
  have hname : line.name.all fun c => c ≠ 37 ∧ c ≠ 33 ∧ c ≠ 10 ∧ c ≠ 0 := by
    refine List.all_eq_true.mpr fun c hc => decide_eq_true ?_
    have hord := List.all_eq_true.mp hline.1 c hc
    simp only [isOrdinary, decide_eq_true_eq] at hord
    exact ⟨hord.1, hord.2.2.2⟩
  rw [Line.print, List.append_assoc, List.append_assoc, List.singleton_append,
    replaceLoop_word hname, replaceLoop_args hline.2, replaceLoop_end, Line.fill]
  simp only [List.append_assoc, List.cons_append]

theorem replacesequence_eq (symbols : Symbols) {lines : List Line} (hlines : ∀ line ∈ lines, line.Given)
    (hne : lines ≠ []) :
    replacesequence (printPattern lines) symbols =
      staged (lines.map fun line => 9 :: line.fill symbols) := by
  induction lines with
  | nil => exact absurd rfl hne
  | cons line lines ih =>
      obtain ⟨hline, hlines⟩ := List.forall_mem_cons.mp hlines
      rw [replacesequence, printPattern, List.flatMap_cons, replaceLoop_line hline, List.map_cons,
        staged_cons]
      cases lines with
      | nil => simp [replaceLoop, staged]
      | cons line' lines =>
          rw [← ih hlines (List.cons_ne_nil _ _), List.flatMap_cons, if_neg (print_ne_nil _ _),
            replacesequence, printPattern, List.flatMap_cons]
          simp only [List.append_assoc, List.cons_append, List.nil_append]

theorem isSymbol_clean {c : Byte} (h : isSymbol c) : c ≠ 0 ∧ c ≠ 10 := by
  revert c
  decide

theorem clean_append {s t : List Byte} (hs : Clean s) (ht : Clean t) : Clean (s ++ t) :=
  ⟨fun h => (List.mem_append.mp h).elim hs.1 ht.1, fun h => (List.mem_append.mp h).elim hs.2 ht.2⟩

theorem clean_of_all {s : List Byte} (h : ∀ c ∈ s, c ≠ 0 ∧ c ≠ 10) : Clean s :=
  ⟨fun hin => (h 0 hin).1 rfl, fun hin => (h 10 hin).2 rfl⟩

theorem matchArg_symbols {arg : Operand} {r : Symbols × List Byte}
    (hsymbols : ∀ i, (symbols i).all isSymbol) (h : matchArg symbols arg l = some r) :
    ∀ i, (r.1 i).all isSymbol := by
  unfold matchArg at h
  split at h
  · dsimp only at h
    split at h
    · cases h
    · cases h
      intro j
      dsimp only
      rw [Function.update_apply]
      split
      · exact List.all_takeWhile
      · exact hsymbols j
  · dsimp only at h
    split at h
    · cases h
      exact hsymbols
    · cases h
  · split at h
    · cases h
      exact hsymbols
    · cases h
  · cases h

theorem matchArgs_symbols {args : List Operand} {symbols' : Symbols}
    (hsymbols : ∀ i, (symbols i).all isSymbol) (h : matchArgs symbols args l = some symbols') :
    ∀ i, (symbols' i).all isSymbol := by
  induction args generalizing symbols l with
  | nil =>
      rw [matchArgs] at h
      split at h
      · cases h
        exact hsymbols
      · cases h
  | cons arg args ih =>
      rw [matchArgs] at h
      split at h
      · obtain ⟨r, hr, hrest⟩ := Option.bind_eq_some_iff.mp h
        exact ih (matchArg_symbols hsymbols hr) hrest
      · cases h

theorem matchLines_symbols {lines : List Line} {ls : List (List Byte)}
    {m : Symbols × List (List Byte)} (hsymbols : ∀ i, (symbols i).all isSymbol)
    (h : matchLines symbols lines ls = some m) : ∀ i, (m.1 i).all isSymbol := by
  induction lines generalizing symbols ls with
  | nil =>
      cases h
      exact hsymbols
  | cons line lines ih =>
      cases ls with
      | nil => cases h
      | cons l ls =>
          obtain ⟨symbols₁, hline, hlines⟩ := Option.bind_eq_some_iff.mp h
          rw [matchLine] at hline
          split at hline
          · exact ih (matchArgs_symbols hsymbols hline) hlines
          · cases hline

theorem matchLines_suffix {lines : List Line} {ls : List (List Byte)}
    {m : Symbols × List (List Byte)} (h : matchLines symbols lines ls = some m) : m.2 <:+ ls := by
  induction lines generalizing symbols ls with
  | nil =>
      cases h
      exact List.suffix_rfl
  | cons line lines ih =>
      cases ls with
      | nil => cases h
      | cons l ls =>
          obtain ⟨symbols₁, -, hlines⟩ := Option.bind_eq_some_iff.mp h
          exact (ih hlines).trans (List.suffix_cons l ls)

theorem clean_symbol {i : Nat} (hsymbols : ∀ i, (symbols i).all isSymbol) : Clean (symbols i) :=
  clean_of_all fun c hc => isSymbol_clean (List.all_eq_true.mp (hsymbols i) c hc)

theorem clean_arg {arg : Operand} (hsymbols : ∀ i, (symbols i).all isSymbol) (harg : arg.Given) :
    Clean (arg.fill symbols) := by
  cases arg with
  | var i => exact clean_symbol hsymbols
  | neg i => exact clean_append (s := [45]) (by decide) (clean_symbol hsymbols)
  | sum i j =>
      exact clean_append (clean_symbol hsymbols)
        (clean_append (s := [43]) (by decide) (clean_symbol hsymbols))
  | text t =>
      refine clean_of_all fun c hc => ?_
      have hall := of_decide_eq_true (List.all_eq_true.mp harg c hc)
      exact ⟨hall.2.2.2, hall.2.2.1⟩

theorem clean_line {line : Line} (hsymbols : ∀ i, (symbols i).all isSymbol) (hline : line.Given) :
    Clean (9 :: line.fill symbols) := by
  refine clean_append (s := [9]) (by decide) (clean_append ?_ ?_)
  · refine clean_of_all fun c hc => ?_
    have hord := List.all_eq_true.mp hline.1 c hc
    simp only [isOrdinary, decide_eq_true_eq] at hord
    exact ⟨hord.2.2.2.2.2, hord.2.2.2.2.1⟩
  · have hargs := hline.2
    generalize line.args = args at hargs ⊢
    induction args with
    | nil => exact ⟨List.not_mem_nil, List.not_mem_nil⟩
    | cons arg args ih =>
        obtain ⟨harg, hargs⟩ := List.forall_mem_cons.mp hargs
        exact clean_append (clean_append (s := [32]) (by decide) (clean_arg hsymbols harg))
          (ih hargs)

end

end AmxModC.Compiler.Peephole
