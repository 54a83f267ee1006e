import AmxModC.Compiler.Assembler.Reading
import AmxModC.Exec.Program

namespace AmxModC.Compiler.Assembler

open Foundation Exec

/-! The two passes of the assembler over the lines of a program. -/

/-- The name that CALL gives: a label if it begins with "l.". -/
def callTarget (params : List Byte) : Target :=
  match params.takeWhile fun c => !isSpace c with
  | 108 :: 46 :: name => .label (hex2long name).1
  | name => .func name

/-- What the assembler looks up: its table of labels, and the addresses of the functions. -/
structure Symbols where
  lbltab : Cell → Cell
  addr : List Byte → Cell

def Symbols.target (symbols : Symbols) : Target → Cell
  | .label l => symbols.lbltab l
  | .func name => symbols.addr name

/-- The loop of `do_dump`; `turns` bounds it. -/
def dumpLoop : Nat → List Byte → List Cell
  | 0, _ => []
  | turns + 1, params =>
      if params = [] then []
      else (getparam params).1 :: dumpLoop turns (skipwhitespace (getparam params).2)

def doDump (params : List Byte) : List Cell := dumpLoop params.length params

/-- What the functions of the table write. -/
def Proc.cells (symbols : Symbols) (opcode : Cell) (params : List Byte) : Proc → List Cell
  | noop => []
  | parm0 => [opcode]
  | parm1 => [opcode, (getparam params).1]
  | doDump => Assembler.doDump params
  | doCall => [opcode, symbols.target (callTarget params)]
  | doJump | doSwitch => [opcode, symbols.lbltab (hex2long params).1]
  | doCase => [(hex2long params).1, symbols.lbltab (hex2long (hex2long params).2).1]

/-- What they return, which is all that the first pass asks for. -/
def Proc.size (params : List Byte) : Proc → Nat
  | noop => 0
  | parm0 => opcodes 1
  | parm1 | doCall | doJump | doSwitch => opcodes 1 + opargs 1
  | doDump => (Assembler.doDump params).length * 4
  | doCase => opcodes 0 + opargs 2

def firstPass : List (List Byte) → Cell → (Cell → Cell) → Option (Cell × (Cell → Cell))
  | [], codeindex, lbltab => some (codeindex, lbltab)
  | line :: lines, codeindex, lbltab =>
      match readCommand line with
      | .empty => firstPass lines codeindex lbltab
      | .label lindex => firstPass lines codeindex (Function.update lbltab lindex codeindex)
      | .code entry params =>
          firstPass lines
            (codeindex + if entry.segment = some .cseg then
              BitVec.ofNat 32 (entry.func.size params) else 0) lbltab
      | .invalid => none

def secondPass (symbols : Symbols) (pass : Segment) (lines : List (List Byte)) : List Cell :=
  lines.flatMap fun line =>
    match readCommand line with
    | .code entry params =>
        if entry.segment = some pass then entry.func.cells symbols entry.opcode params else []
    | _ => []

/-- The instruction with a number, where it has no parameter. -/
def parm0Item : Operation → Option Item
  | .plain op => if op.hasParam then none else some (.block [.plain op 0])
  | .ret => some .ret
  | .retn => some .retn
  | .casetbl => some .casetbl
  | .brk => some .brk
  | _ => none

def parm1Item (p : Cell) : Operation → Option Item
  | .plain op => if op.hasParam then some (.block [.plain op p]) else none
  | .lctrl => some (.lctrl p)
  | .sctrl => some (.sctrl p)
  | .halt => some (.halt p)
  | .sysreqC => some (.sysreqC p)
  | _ => none

/-- What a command is in the code; nothing for the lines of the data segment.  Instructions that
the compiler does not write are left out. -/
def Command.item : Command → Option (Option Item)
  | empty => some none
  | label lindex => some (some (.label lindex))
  | invalid => none
  | code entry params =>
      match entry.func with
      | .noop | .doDump => some none
      | .parm0 => ((Operation.ofCode entry.opcode).bind parm0Item).map some
      | .parm1 => ((Operation.ofCode entry.opcode).bind (parm1Item (getparam params).1)).map some
      | .doCall => some (some (.call (callTarget params)))
      | .doJump =>
          match Operation.ofCode entry.opcode with
          | some (.branch b) => some (some (.block [.branch b (hex2long params).1]))
          | _ => none
      | .doSwitch => some (some (.switch (hex2long params).1))
      | .doCase => some (some (.case (hex2long params).1 (hex2long (hex2long params).2).1))

def program : List (List Byte) → Option (List Item)
  | [] => some []
  | line :: lines => do
      let x ← (readCommand line).item
      let P ← program lines
      return x.toList ++ P

def instrCells (symbols : Symbols) : Instr → List Cell
  | .plain op offs => (Operation.plain op).number :: if op.hasParam then [offs] else []
  | .branch b l => [(Operation.branch b).number, symbols.lbltab l]

def itemCells (symbols : Symbols) : Item → List Cell
  | .block code => code.flatMap (instrCells symbols)
  | .lctrl index => [Operation.lctrl.number, index]
  | .sctrl index => [Operation.sctrl.number, index]
  | .call target => [Operation.call.number, symbols.target target]
  | .ret => [Operation.ret.number]
  | .retn => [Operation.retn.number]
  | .halt code => [Operation.halt.number, code]
  | .sysreqC index => [Operation.sysreqC.number, index]
  | .switch l => [Operation.switch.number, symbols.lbltab l]
  | .casetbl => [Operation.casetbl.number]
  | .case value l => [value, symbols.lbltab l]
  | .brk => [Operation.brk.number]
  | .label _ | .entry _ => []

section

variable {symbols : Symbols} {entry : Opcode} {params : List Byte} {lines : List (List Byte)}
  {P : List Item} {x : Option Item} {command : Command}

theorem length_cells (symbols : Symbols) (opcode : Cell) (params : List Byte) (func : Proc) :
    4 * (func.cells symbols opcode params).length = func.size params := by
  cases func with
  | doDump => exact Nat.mul_comm _ _
  | _ => rfl

/-- An entry of the table has the number of its instruction, in the right segment. -/
def Opcode.Consistent (entry : Opcode) : Prop :=
  match entry.func with
  | .noop => entry.segment = none
  | .doDump => entry.segment = some .dseg
  | .doCase => entry.segment = some .cseg
  | .doCall => entry.segment = some .cseg ∧ entry.opcode = Operation.call.number
  | .doSwitch => entry.segment = some .cseg ∧ entry.opcode = Operation.switch.number
  | .parm0 | .parm1 | .doJump => entry.segment = some .cseg ∧
      (Operation.ofCode entry.opcode).map Operation.number = some entry.opcode

instance (entry : Opcode) : Decidable entry.Consistent := by
  unfold Opcode.Consistent
  split <;> infer_instance

theorem opcodelist_consistent : ∀ entry ∈ opcodelist, entry.Consistent := by
  decide +kernel

theorem instruction_mem {instr : List Byte} (h : instruction instr = some entry) :
    entry ∈ opcodelist := by
  rw [instruction_eq] at h
  exact List.mem_of_find?_eq_some h

theorem readCommand_mem {line : List Byte} (h : readCommand line = .code entry params) :
    entry ∈ opcodelist := by
  rw [readCommand] at h
  split at h
  · cases h
  · split at h
    · cases h
    · split at h
      · next hfind =>
          cases h
          exact instruction_mem hfind
      · cases h

theorem length_instrCells (symbols : Symbols) (i : Instr) :
    4 * (instrCells symbols i).length = i.size := by
  cases i with
  | plain op offs =>
      rw [instrCells, Instr.size]
      split <;> rfl
  | branch b l => rfl

theorem length_itemCells (symbols : Symbols) (x : Item) :
    4 * (itemCells symbols x).length = x.size := by
  cases x with
  | block code =>
      rw [itemCells, Item.size]
      induction code with
      | nil => rfl
      | cons i code ih =>
          rw [List.flatMap_cons, List.length_append, List.map_cons, List.sum_cons, Nat.mul_add, ih,
            length_instrCells]
  | _ => rfl

theorem number_eq {operation : Operation}
    (h : (Operation.ofCode entry.opcode).map Operation.number = some entry.opcode)
    (hcode : Operation.ofCode entry.opcode = some operation) : operation.number = entry.opcode := by
  rw [hcode] at h
  exact Option.some.inj h

theorem itemCells_eq (symbols : Symbols) (hentry : entry.Consistent) (h : (Command.code entry params).item = some x) :
    (if entry.segment = some .cseg then entry.func.cells symbols entry.opcode params else []) =
      (x.map (itemCells symbols)).getD [] := by
  rw [Opcode.Consistent] at hentry
  rw [Command.item] at h
  cases hfunc : entry.func with
  | noop =>
      rw [hfunc] at h hentry
      cases h
      rw [hentry]
      rfl
  | doDump =>
      rw [hfunc] at h hentry
      cases h
      rw [hentry]
      rfl
  | doCall =>
      rw [hfunc] at h hentry
      cases h
      rw [if_pos hentry.1, hentry.2]
      rfl
  | doSwitch =>
      rw [hfunc] at h hentry
      cases h
      rw [if_pos hentry.1, hentry.2]
      rfl
  | doCase =>
      rw [hfunc] at h hentry
      cases h
      rw [if_pos hentry]
      rfl
  | parm0 =>
      rw [hfunc] at h hentry
      obtain ⟨y, hy, rfl⟩ := Option.map_eq_some_iff.mp h
      obtain ⟨operation, hcode, hitem⟩ := Option.bind_eq_some_iff.mp hy
      rw [if_pos hentry.1, Proc.cells, ← number_eq hentry.2 hcode]
      cases operation with
      | plain op =>
          rw [parm0Item] at hitem
          split at hitem
          · cases hitem
          · next hparam =>
              cases hitem
              simp [itemCells, instrCells, hparam]
      | ret | retn | casetbl | brk =>
          cases hitem
          rfl
      | _ => cases hitem
  | parm1 =>
      rw [hfunc] at h hentry
      obtain ⟨y, hy, rfl⟩ := Option.map_eq_some_iff.mp h
      obtain ⟨operation, hcode, hitem⟩ := Option.bind_eq_some_iff.mp hy
      rw [if_pos hentry.1, Proc.cells, ← number_eq hentry.2 hcode]
      cases operation with
      | plain op =>
          rw [parm1Item] at hitem
          split at hitem
          · next hparam =>
              cases hitem
              simp [itemCells, instrCells, hparam]
          · cases hitem
      | lctrl | sctrl | halt | sysreqC =>
          cases hitem
          rfl
      | _ => cases hitem
  | doJump =>
      rw [hfunc] at h hentry
      dsimp only at h
      split at h
      · next b hcode =>
          cases h
          rw [if_pos hentry.1, Proc.cells, ← number_eq hentry.2 hcode]
          rfl
      · cases h

def code (symbols : Symbols) (P : List Item) : List Cell := P.flatMap (itemCells symbols)

theorem length_code (symbols : Symbols) (P : List Item) : 4 * (code symbols P).length = size P := by
  induction P with
  | nil => rfl
  | cons x P ih =>
      rw [code, List.flatMap_cons, List.length_append, Nat.mul_add, length_itemCells, size_cons, ← ih]
      rfl

theorem program_cons {line : List Byte} (h : program (line :: lines) = some P) :
    ∃ x P', (readCommand line).item = some x ∧ program lines = some P' ∧ P = x.toList ++ P' := by
  rw [program] at h
  obtain ⟨x, hx, h⟩ := Option.bind_eq_some_iff.mp h
  obtain ⟨P', hP', h⟩ := Option.bind_eq_some_iff.mp h
  exact ⟨x, P', hx, hP', (Option.some.inj h).symm⟩

theorem secondPass_eq (h : program lines = some P) :
    secondPass symbols .cseg lines = code symbols P := by
  induction lines generalizing P with
  | nil =>
      cases h
      rfl
  | cons line lines ih =>
      obtain ⟨x, P', hx, hP', rfl⟩ := program_cons h
      have hrest := ih hP'
      rw [secondPass] at hrest
      rw [secondPass, List.flatMap_cons, hrest, code, code, List.flatMap_append]
      congr 1
      cases hread : readCommand line with
      | empty | label l =>
          rw [hread] at hx
          cases hx
          rfl
      | invalid =>
          rw [hread] at hx
          cases hx
      | code entry params =>
          rw [hread] at hx
          dsimp only
          rw [itemCells_eq symbols (opcodelist_consistent _ (readCommand_mem hread)) hx]
          cases x with
          | none => rfl
          | some y => exact (List.append_nil _).symm

theorem cseg_size (hentry : entry ∈ opcodelist) (h : (Command.code entry params).item = some x) :
    (if entry.segment = some .cseg then BitVec.ofNat 32 (entry.func.size params) else 0) =
      BitVec.ofNat 32 (size x.toList) := by
  have hcells := congrArg (fun cells => 4 * cells.length)
    (itemCells_eq ⟨fun _ => 0, fun _ => 0⟩ (opcodelist_consistent _ hentry) h)
  have hsize : 4 * ((x.map (itemCells ⟨fun _ => 0, fun _ => 0⟩)).getD []).length = size x.toList := by
    cases x with
    | none => rfl
    | some y => exact length_itemCells _ y
  rw [hsize] at hcells
  rw [← hcells]
  split
  · rw [length_cells]
  · rfl

theorem item_ne_label {l : Cell} (h : (Command.code entry params).item = some x) :
    x ≠ some (.label l) := by
  rintro rfl
  rw [Command.item] at h
  split at h
  · cases h
  · cases h
  · obtain ⟨y, hy, heq⟩ := Option.map_eq_some_iff.mp h
    cases heq
    obtain ⟨operation, -, hitem⟩ := Option.bind_eq_some_iff.mp hy
    cases operation with
    | plain op =>
        rw [parm0Item] at hitem
        split at hitem <;> cases hitem
    | _ => cases hitem
  · obtain ⟨y, hy, heq⟩ := Option.map_eq_some_iff.mp h
    cases heq
    obtain ⟨operation, -, hitem⟩ := Option.bind_eq_some_iff.mp hy
    cases operation with
    | plain op =>
        rw [parm1Item] at hitem
        split at hitem <;> cases hitem
    | _ => cases hitem
  · cases h
  · split at h <;> cases h
  · cases h
  · cases h

/-- The first pass gives each label the offset of the code that follows it last, and ends at the
size of the code. -/
theorem firstPass_eq (h : program lines = some P) (codeindex : Cell) (lbltab : Cell → Cell) :
    ∃ table, firstPass lines codeindex lbltab =
        some (codeindex + BitVec.ofNat 32 (size P), table) ∧
      ∀ l, table l = match behind (.label l) P with
        | some rest => codeindex + BitVec.ofNat 32 (Exec.offset P rest)
        | none => lbltab l := by
  induction lines generalizing P codeindex lbltab with
  | nil =>
      cases h
      exact ⟨lbltab, by simp [firstPass], fun l => rfl⟩
  | cons line lines ih =>
      obtain ⟨x, P', hx, hP', rfl⟩ := program_cons h
      have hskip {next : Cell} {y : Option Item} (hnext : next = codeindex + BitVec.ofNat 32 (size y.toList))
          (hlabel : ∀ l, .label l ∉ y.toList) : ∃ table, firstPass lines next lbltab =
            some (codeindex + BitVec.ofNat 32 (size (y.toList ++ P')), table) ∧
          ∀ l, table l = match behind (.label l) (y.toList ++ P') with
            | some rest => codeindex + BitVec.ofNat 32 (Exec.offset (y.toList ++ P') rest)
            | none => lbltab l := by
        obtain ⟨table, htable, hlabels⟩ := ih hP' next lbltab
        subst hnext
        refine ⟨table, ?_, fun l => ?_⟩
        · rw [htable, size_append, BitVec.ofNat_add, BitVec.add_assoc]
        · rw [hlabels]
          cases y with
          | none => simp
          | some y =>
              have hne : y ≠ .label l := fun heq => hlabel l (by simp [heq])
              rw [Option.toList_some, List.singleton_append, behind, if_neg hne, Option.or_none]
              cases hbehind : behind (.label l) P' with
              | none => rfl
              | some rest =>
                  have hle := size_suffix ((List.suffix_cons _ _).trans (behind_suffix hbehind))
                  dsimp only
                  rw [Exec.offset, Exec.offset, size_cons, size_cons, size_nil, Nat.add_zero,
                    Nat.add_sub_assoc hle, BitVec.ofNat_add, BitVec.add_assoc]
      rw [firstPass]
      cases hread : readCommand line with
      | empty =>
          rw [hread] at hx
          cases hx
          exact hskip (y := none) (by simp) (fun l => List.not_mem_nil)
      | invalid =>
          rw [hread] at hx
          cases hx
      | code entry params =>
          rw [hread] at hx
          exact hskip (by rw [cseg_size (readCommand_mem hread) hx]) fun l hl =>
            item_ne_label hx (Option.mem_toList.mp hl)
      | label lindex =>
          rw [hread] at hx
          cases hx
          obtain ⟨table, htable, hlabels⟩ := ih hP' codeindex (Function.update lbltab lindex codeindex)
          refine ⟨table, ?_, fun l => ?_⟩
          · rw [Option.toList_some, List.singleton_append, size_cons]
            dsimp only
            rw [htable]
            simp [Item.size]
          · rw [hlabels, Option.toList_some, List.singleton_append, behind]
            cases hbehind : behind (.label l) P' with
            | some rest =>
                dsimp only [Option.or]
                rw [Exec.offset, Exec.offset, size_cons]
                simp [Item.size]
            | none =>
                dsimp only [Option.or]
                rw [Function.update_apply]
                by_cases hl : l = lindex
                · subst hl
                  simp [Exec.offset, Item.size]
                · simp [hl, Ne.symm hl]

end

/-! Lines that hold one instruction, in whatever spacing and case. -/

/-- The text can stand for an instruction: one word, no comment and no label. -/
def IsName (n : List Byte) : Prop :=
  n ≠ [] ∧ (∀ c ∈ n, ¬ isSpace c ∧ c ≠ 59) ∧ ¬ (n.head?.map toLower = some 108 ∧ n[1]? = some 46)

instance (n : List Byte) : Decidable (IsName n) := inferInstanceAs (Decidable (_ ∧ _))

section

variable {n n' s s' tail lead spaces w : List Byte} {v : Cell}

theorem lower_space (c : Byte) : isSpace (toLower c) = isSpace c := by
  revert c
  decide

theorem lower_semicolon (c : Byte) : toLower c = 59 ↔ c = 59 := by
  revert c
  decide

theorem lower_dot (c : Byte) : toLower c = 46 ↔ c = 46 := by
  revert c
  decide

theorem lower_lower (c : Byte) : toLower (toLower c) = toLower c := by
  revert c
  decide

theorem isName_lower : IsName (n.map toLower) ↔ IsName n := by
  have hhead : (n.map toLower).head?.map toLower = n.head?.map toLower := by
    cases n with
    | nil => rfl
    | cons c n => exact congrArg some (lower_lower c)
  have hsecond : (n.map toLower)[1]? = some 46 ↔ n[1]? = some 46 := by
    rw [List.getElem?_map, Option.map_eq_some_iff]
    constructor
    · rintro ⟨c, hc, hdot⟩
      rw [hc, (lower_dot c).mp hdot]
    · exact fun h => ⟨46, h, rfl⟩
  rw [IsName, IsName, hhead, hsecond, List.map_eq_nil_iff.ne]
  simp only [List.forall_mem_map, lower_space, Ne, lower_semicolon]

theorem IsName.of_lower (h : IsName n) (heq : n'.map toLower = n.map toLower) : IsName n' := by
  rw [← isName_lower, heq, isName_lower]
  exact h

theorem instruction_lower (heq : n'.map toLower = n.map toLower) : instruction n' = instruction n := by
  have hcmp : stricmp n' = stricmp n := funext fun t => by rw [stricmp, stricmp, heq]
  rw [instruction_eq, instruction_eq, hcmp]

theorem dropWhile_spaces (hlead : ∀ c ∈ lead, isSpace c) :
    skipwhitespace (lead ++ s) = skipwhitespace s :=
  List.dropWhile_append_of_pos hlead

theorem skipwhitespace_word (hs : ∀ c ∈ s.head?, ¬ isSpace c) : skipwhitespace s = s := by
  cases s with
  | nil => rfl
  | cons c s => exact List.dropWhile_cons_of_neg (hs c rfl)

theorem takeWhile_word (hn : ∀ c ∈ n, ¬ isSpace c) (htail : ∀ c ∈ tail.head?, isSpace c) :
    (n ++ tail).takeWhile (fun c => !isSpace c) = n ∧
      (n ++ tail).dropWhile (fun c => !isSpace c) = tail := by
  have hpos : ∀ c ∈ n, (!isSpace c) = true := fun c hc => by simp [hn c hc]
  rw [List.takeWhile_append_of_pos hpos, List.dropWhile_append_of_pos hpos]
  cases tail with
  | nil => simp
  | cons c tail =>
      have hc := htail c rfl
      constructor <;> simp [hc]

theorem readCommand_word (hlead : ∀ c ∈ lead, isSpace c) (hn : IsName n)
    (htail : ∀ c ∈ tail.head?, isSpace c) (hcomment : 59 ∉ tail) :
    readCommand (lead ++ (n ++ tail)) =
      match instruction n with
      | some entry => .code entry (skipwhitespace tail)
      | none => .invalid := by
  obtain ⟨hne, hchars, hlabel⟩ := hn
  have hspace : ∀ c ∈ n, ¬ isSpace c := fun c hc => (hchars c hc).1
  have hstrip : stripcomment (lead ++ (n ++ tail)) = lead ++ (n ++ tail) := by
    refine if_neg fun hin => ?_
    rcases List.mem_append.mp hin with hin | hin
    · exact absurd (hlead 59 hin) (by decide)
    · rcases List.mem_append.mp hin with hin | hin
      · exact (hchars 59 hin).2 rfl
      · exact hcomment hin
  obtain ⟨c, n', rfl⟩ := List.exists_cons_of_ne_nil hne
  have hskip : skipwhitespace (lead ++ (c :: n' ++ tail)) = c :: n' ++ tail := by
    rw [dropWhile_spaces hlead]
    refine skipwhitespace_word fun d hd => ?_
    cases hd
    exact hspace _ List.mem_cons_self
  have hnot : ¬ ((c :: n' ++ tail).head?.map toLower = some 108 ∧ (c :: n' ++ tail)[1]? = some 46) := by
    rintro ⟨hhead, hdot⟩
    cases n' with
    | cons d n' => exact hlabel ⟨hhead, hdot⟩
    | nil =>
        cases tail with
        | nil => cases hdot
        | cons d tail =>
            cases hdot
            exact absurd (htail 46 rfl) (by decide)
  obtain ⟨htake, hdrop⟩ := takeWhile_word hspace htail
  have hfull : c :: n' ++ tail ≠ [] := List.cons_ne_nil _ _
  rw [readCommand, hstrip, hskip, if_neg hfull, if_neg hnot, htake]
  cases instruction (c :: n') with
  | none => rfl
  | some entry => exact congrArg (fun rest => Command.code entry (skipwhitespace rest)) hdrop

theorem readCommand_comment (hlead : ∀ c ∈ lead, isSpace c) : readCommand (lead ++ 59 :: s) = .empty := by
  have hstrip : stripcomment (lead ++ 59 :: s) = lead ++ [10] := by
    have hpos : ∀ c ∈ lead, decide (c ≠ 59) = true := by
      intro c hc
      refine decide_eq_true ?_
      rintro rfl
      exact absurd (hlead 59 hc) (by decide)
    rw [stripcomment, if_pos (List.mem_append_right _ List.mem_cons_self),
      List.takeWhile_append_of_pos hpos]
    simp
  rw [readCommand, hstrip, dropWhile_spaces hlead]
  rfl

theorem lower_digit (c : Byte) : digit? 16 (toLower c) = digit? 16 c := by
  revert c
  decide

theorem hexDigits_lower (heq : s'.map toLower = s.map toLower) :
    (hexDigits v s').1 = (hexDigits v s).1 := by
  induction s generalizing s' v with
  | nil => rw [List.map_eq_nil_iff.mp heq]
  | cons c s ih =>
      cases s' with
      | nil => cases heq
      | cons c' s' =>
          obtain ⟨hc, hs⟩ := List.cons.inj heq
          have hdigit : digit? 16 c' = digit? 16 c := by
            rw [← lower_digit c', hc, lower_digit]
          rw [hexDigits, hexDigits, hdigit]
          cases digit? 16 c with
          | none => rfl
          | some d => exact ih hs

theorem isHex_lower (h : IsHex s) (heq : s'.map toLower = s.map toLower) : IsHex s' := by
  refine ⟨?_, fun c hc => ?_⟩
  · rintro rfl
    exact h.1 (List.map_eq_nil_iff.mp heq.symm)
  · have hmem : toLower c ∈ s.map toLower := heq ▸ List.mem_map_of_mem hc
    obtain ⟨d, hd, hlower⟩ := List.mem_map.mp hmem
    rw [← lower_digit, ← hlower, lower_digit]
    exact h.2 d hd

theorem IsHex.getparam_lower (h : IsHex s) (heq : s'.map toLower = s.map toLower) :
    (getparam s').1 = (getparam s).1 := by
  rw [(isHex_lower h heq).getparam_eq, h.getparam_eq]
  exact hexDigits_lower heq

end

end AmxModC.Compiler.Assembler
