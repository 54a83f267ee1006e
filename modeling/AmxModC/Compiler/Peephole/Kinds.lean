import AmxModC.Compiler.Peephole.Table

namespace AmxModC.Compiler.Peephole

open Foundation Words Exec Assembler

/-! What the sequences of the table are: a few kinds, over the registers, the addresses and the
comparisons that they are about. -/

/-- What a line of a pattern stands for in the code. -/
inductive Pattern
  | plain (op : Plain) (arg : Option Operand)
  | branch (b : Branch) (arg : Operand)
  | mark (line : Line)
deriving DecidableEq

def Line.codeBy (lookup : List Byte → Option Opcode) (line : Line) : Option Pattern :=
  if line.name.head? = some 59 then some (.mark line)
  else do
    let entry ← lookup line.name
    let operation ← Operation.ofCode entry.opcode
    match entry.func, operation, line.args with
    | .parm0, .plain op, [] => if op.hasParam then none else some (.plain op none)
    | .parm1, .plain op, [arg] => if op.hasParam then some (.plain op (some arg)) else none
    | .doJump, .branch b, [arg] => some (.branch b arg)
    | _, _, _ => none

def Rule.codeBy (lookup : List Byte → Option Opcode) (r : Rule) :
    Option (List Pattern × List Pattern) := do
  return (← r.find.mapM (Line.codeBy lookup), ← r.replace.mapM (Line.codeBy lookup))

def Rule.code (r : Rule) : Option (List Pattern × List Pattern) := r.codeBy instruction

/-- The value of a parameter, from the values of the symbols. -/
def Operand.value (v : Nat → Cell) : Operand → Cell
  | var i => v i
  | neg i => -v i
  | sum i j => v i + v j
  | text t => (getparam t).1

def Pattern.instr (v : Nat → Cell) : Pattern → Option Instr
  | plain op none => some (.plain op 0)
  | plain op (some arg) => some (.plain op (arg.value v))
  | branch b arg => some (.branch b (arg.value v))
  | mark _ => none

def instrs (v : Nat → Cell) (patterns : List Pattern) : List Instr :=
  patterns.filterMap (Pattern.instr v)

inductive Kind
  | keep (first second : Source)
  | keepFirst (first second : Source)
  | keepZero (first : Source)
  | chain (source : Source)
  | chainEnd (t : Relation)
  | chainJzer (t : Relation)
  | swappedJzer (t : Relation)
  | swapped (t : Relation)
  | loadsXchg (first second : Source)
  | index (first : Source) (bounded load cells : Bool)
  | scale (cells : Bool)
  | boundsOnly (first : Source)
  | declare
  | declareZero
  | move (source : Source)
  | moveZero
  | moveLoadI
  | moveOnly
  | pushes (first second : Source)
  | pushesRev (first second : Source)
  | param (source : Source)
  | paramZero
  | pushAlt
  | addC
  | subC
  | smulC
  | eqC
  | subAlt (source : Source)
  | addAdd
  | jzer (t : Relation)
  | jnz (t : Relation)
  | testZero (equal : Bool)
  | loadAfter (up frame : Bool)
  | loadBefore (up frame : Bool)
  | storeZero (const frame : Bool)
  | zero (r : Reg)
deriving DecidableEq

namespace Kind

def exp : Pattern := .mark ⟨bytes ";$exp", []⟩

def par : Pattern := .mark ⟨bytes ";$par", []⟩

def lcl : Pattern := .mark ⟨bytes ";$lcl", [.var 0, .var 1]⟩

def get (source : Source) (r : Reg) (i : Nat) : Pattern := .plain (.get source r) (some (.var i))

def op (op : Plain) : Pattern := .plain op none

def opVar (op : Plain) (i : Nat) : Pattern := .plain op (some (.var i))

def opText (op : Plain) (text : String) : Pattern := .plain op (some (.text (bytes text)))

/-- Cells are scaled with the literal 2, which saves the parameter of the instruction. -/
def shift (cells : Bool) (i : Nat) : Pattern :=
  if cells then opText (.shlC .pri) "2" else opVar (.shlC .pri) i

def scaled (cells : Bool) (plain withShift : Plain) (i : Nat) : Pattern :=
  if cells then op plain else opVar withShift i

def place (frame : Bool) : Place := if frame then .frame else .data

def source (frame : Bool) : Source := if frame then .loadS else .load

def step (up : Bool) (place : Place) : Plain := if up then .inc place else .dec place

def stor (frame : Bool) : Plain := if frame then .storS .pri else .stor .pri

def clear (frame : Bool) : Plain := if frame then .zeroS else .zero

def find : Kind → List Pattern
  | keep first second | keepFirst first second =>
      [get first .pri 0, op (.pushReg .pri), get second .pri 1, op (.pop .alt)]
  | keepZero first =>
      [get first .pri 0, op (.pushReg .pri), op (.zeroReg .pri), op (.pop .alt)]
  | chain source =>
      [op (.move .pri), op (.pushReg .pri), get source .pri 0, op (.pop .alt)]
  | chainEnd t =>
      [op .xchg, op (.relation t), op (.swap .alt), op (.operator .and), op (.pop .alt), exp]
  | chainJzer t =>
      [op .xchg, op (.relation t), op (.swap .alt), op (.operator .and), op (.pop .alt),
        .branch .jzer (.var 0)]
  | swappedJzer t => [op .xchg, op (.relation t), .branch .jzer (.var 0), exp]
  | swapped t => [op .xchg, op (.relation t), exp]
  | loadsXchg first second => [get first .pri 0, get second .alt 1, op .xchg]
  | index first bounded load cells =>
      [get first .pri 0, op (.pushReg .pri), get .loadS .pri 1] ++
        (if bounded then [opVar .bounds 2] else []) ++
        [shift cells (if bounded then 3 else 2), op (.pop .alt), op (.operator .add)] ++
        (if load then [op .loadI] else [])
  | scale cells => [shift cells 0, op (.pop .alt), op (.operator .add)]
  | boundsOnly first =>
      [get first .pri 0, op (.pushReg .pri), get .loadS .pri 1, opVar .bounds 2, op (.pop .alt)]
  | declare =>
      [lcl, opText .stack "-4", get .const .pri 2, opVar (.storS .pri) 1, exp]
  | declareZero => [lcl, opText .stack "-4", op (.zeroReg .pri), opVar (.storS .pri) 1, exp]
  | move source => [op (.pushReg .pri), get source .pri 0, op (.pop .alt)]
  | moveZero => [op (.pushReg .pri), op (.zeroReg .pri), op (.pop .alt)]
  | moveLoadI => [op (.pushReg .pri), op .loadI, op (.pop .alt)]
  | moveOnly => [op (.pushReg .pri), op (.pop .alt)]
  | pushes first second =>
      [get first .pri 0, get second .alt 1, op (.pushReg .pri), op (.pushReg .alt)]
  | pushesRev first second =>
      [get first .pri 0, get second .alt 1, op (.pushReg .alt), op (.pushReg .pri)]
  | param source => [get source .pri 0, op (.pushReg .pri), par]
  | paramZero => [op (.zeroReg .pri), op (.pushReg .pri), par]
  | pushAlt => [op (.move .pri), op (.pushReg .pri)]
  | addC => [get .const .alt 0, op (.operator .add)]
  | subC => [get .const .alt 0, op (.operator .sub)]
  | smulC => [get .const .alt 0, op (.operator .smul)]
  | eqC => [get .const .alt 0, op (.relation .eq)]
  | subAlt source => [get .const .pri 0, get source .alt 1, op (.operator .subAlt)]
  | addAdd => [opVar .addC 0, opVar .addC 1]
  | jzer t => [op (.relation t), .branch .jzer (.var 0)]
  | jnz t => [op (.relation t), .branch .jnz (.var 0)]
  | testZero equal =>
      [op (.zeroReg .alt), .branch (.test (if equal then .eq else .neq)) (.var 0)]
  | loadAfter up frame => [opVar (step up (place frame)) 0, get (source frame) .pri 0, exp]
  | loadBefore up frame => [get (source frame) .pri 0, opVar (step up (place frame)) 0, exp]
  | storeZero const frame =>
      [if const then opText (.get .const .pri) "0" else op (.zeroReg .pri), opVar (stor frame) 0, exp]
  | zero r => [opText (.get .const r) "0"]

def repl : Kind → List Pattern
  | keep first second => [get second .pri 1, get first .alt 0]
  | keepFirst first second => [get first .alt 0, get second .pri 1]
  | keepZero first => [get first .alt 0, op (.zeroReg .pri)]
  | chain source => [get source .pri 0]
  | chainEnd t => [op (.relation (mirror t)), op (.pop .alt), op (.operator .and), exp]
  | chainJzer t =>
      [op (.relation (mirror t)), op (.pop .alt), op (.operator .and), .branch .jzer (.var 0)]
  | swappedJzer t => [.branch (.test (negation (mirror t))) (.var 0), exp]
  | swapped t => [op (.relation (mirror t)), exp]
  | loadsXchg first second => [get second .pri 1, get first .alt 0]
  | index first bounded load cells =>
      [get first .alt 0, get .loadS .pri 1] ++ (if bounded then [opVar .bounds 2] else []) ++
        [if load then scaled cells .lidx .lidxB (if bounded then 3 else 2)
          else scaled cells .idxaddr .idxaddrB (if bounded then 3 else 2)]
  | scale cells => [op (.pop .alt), scaled cells .idxaddr .idxaddrB 0]
  | boundsOnly first => [get first .alt 0, get .loadS .pri 1, opVar .bounds 2]
  | declare => [lcl, opVar (.push .const) 2, exp]
  | declareZero => [lcl, opText (.push .const) "0", exp]
  | move source => [op (.move .alt), get source .pri 0]
  | moveZero => [op (.move .alt), op (.zeroReg .pri)]
  | moveLoadI => [op (.move .alt), op .loadI]
  | moveOnly => [op (.move .alt)]
  | pushes first second => [opVar (.push first) 0, opVar (.push second) 1]
  | pushesRev first second => [opVar (.push second) 1, opVar (.push first) 0]
  | param source => [opVar (.push source) 0, par]
  | paramZero => [opText (.push .const) "0", par]
  | pushAlt => [op (.pushReg .alt)]
  | addC => [opVar .addC 0]
  | subC => [.plain .addC (some (.neg 0))]
  | smulC => [opVar .smulC 0]
  | eqC => [opVar (.eqC .pri) 0]
  | subAlt source => [get source .pri 1, .plain .addC (some (.neg 0))]
  | addAdd => [.plain .addC (some (.sum 0 1))]
  | jzer t => [.branch (.test (negation t)) (.var 0)]
  | jnz t => [.branch (.test t) (.var 0)]
  | testZero equal => [.branch (if equal then .jzer else .jnz) (.var 0)]
  | loadAfter up frame | loadBefore up frame => [opVar (step up (place frame)) 0, exp]
  | storeZero _ frame => [opVar (clear frame) 0, exp]
  | zero r => [op (.zeroReg r)]

/-- The registers that hold something else after the replacement. -/
def drop : Kind → Regs
  | chainEnd _ | chainJzer _ | swapped _ | addC | subC | smulC | eqC | subAlt _ | testZero _ =>
      .one .alt
  | param _ | paramZero | pushAlt | jzer _ | jnz _ | loadAfter _ _ | loadBefore _ _
  | storeZero _ _ => .one .pri
  | swappedJzer _ | declare | declareZero | pushes _ _ | pushesRev _ _ => .both
  | _ => .none

/-- What the replacement takes for granted besides. -/
def side (amx : Segments) (v : Nat → Cell) : Kind → State → Prop
  | declare | declareZero => Declared amx (v 1)
  | _ => fun _ => True

end Kind

open Kind in
/-- The kinds of the sequences, in the order of the table.  The two without one ask for an
instruction that does not exist. -/
def kinds : List (Option Kind) :=
  [some (.keep .loadS .loadS), some (.keep .load .loadS), some (.keep .loadS .load),
   some (.keep .load .load), some (.keepFirst .addr .loadS), some (.keepFirst .addr .load),
   some (.keep .const .loadS), some (.keep .const .load), some (.keep .loadS .const),
   some (.keep .load .const), some (.keepFirst .addr .const), some (.keepZero .addr),
   some (.chain .loadS), some (.chain .load), some (.chain .const),
   some (.chainEnd .sgrtr), some (.chainEnd .sless), some (.chainEnd .sgeq),
   some (.chainEnd .sleq), some (.chainJzer .sgrtr), some (.chainJzer .sless),
   some (.chainJzer .sgeq), some (.chainJzer .sleq), some (.swappedJzer .sgrtr),
   some (.swappedJzer .sless), some (.swappedJzer .sgeq), some (.swappedJzer .sleq),
   some (.swapped .sgrtr), some (.swapped .sless), some (.swapped .sgeq), some (.swapped .sleq),
   some (.loadsXchg .loadS .loadS), some (.loadsXchg .loadS .load),
   some (.loadsXchg .loadS .const), some (.loadsXchg .load .loadS),
   some (.loadsXchg .load .load), some (.loadsXchg .load .const),
   some (.loadsXchg .const .loadS), some (.loadsXchg .const .load),
   some (.index .addr true true true), some (.index .const true true true),
   some (.index .addr false true true), some (.index .const false true true),
   some (.index .addr true true false), some (.index .const true true false),
   some (.index .addr false true false), some (.index .const false true false),
   some (.index .addr true false true), some (.index .const true false true),
   some (.index .addr false false true), some (.index .const false false true),
   some (.index .addr true false false), some (.index .const true false false),
   some (.index .addr false false false), some (.index .const false false false),
   none, some (.scale true), none, some (.scale false), some (.boundsOnly .addr),
   some (.boundsOnly .const), some .declare, some .declareZero, some (.move .loadS),
   some (.move .load), some (.move .const), some .moveZero, some .moveLoadI, some .moveOnly,
   some (.pushes .const .const), some (.pushesRev .const .const), some (.pushes .const .load),
   some (.pushesRev .const .load), some (.pushes .load .const), some (.pushesRev .load .const),
   some (.pushes .load .load), some (.pushesRev .load .load), some (.param .loadS),
   some (.param .load), some (.param .const), some .paramZero, some (.param .addr),
   some .pushAlt, some .addC, some .subC, some .smulC, some .eqC, some (.subAlt .loadS),
   some (.subAlt .load), some .addAdd, some (.jzer .eq), some (.jnz .eq), some (.jzer .neq),
   some (.jnz .neq), some (.jzer .less), some (.jzer .leq), some (.jzer .grtr),
   some (.jzer .geq), some (.jzer .sless), some (.jzer .sleq), some (.jzer .sgrtr),
   some (.jzer .sgeq), some (.testZero true), some (.testZero false),
   some (.loadAfter true false), some (.loadBefore true false), some (.loadAfter true true),
   some (.loadBefore true true), some (.loadAfter false false), some (.loadBefore false false),
   some (.loadAfter false true), some (.loadBefore false true),
   some (.storeZero true false), some (.storeZero true true),
   some (.storeZero false false), some (.storeZero false true),
   some (.zero .pri), some (.zero .alt)]

theorem rules_code :
    rules.map Rule.code = kinds.map fun kind => kind.map fun k => (k.find, k.repl) := by
  have hcode : Rule.code = Rule.codeBy fun s => opcodelist.find? fun op => stricmp s op.name = 0 :=
    funext fun r => by rw [Rule.code, funext instruction_eq]
  rw [hcode]
  decide +kernel

theorem text_two : (getparam (bytes "2")).1 = 2 := by
  decide

theorem text_zero : (getparam (bytes "0")).1 = 0 := by
  decide

theorem text_word : (getparam (bytes "-4")).1 = -4 := by
  decide

theorem preserves_index (amx : Segments) (v : Nat → Cell) (first : Source)
    (bounded load cells : Bool) :
    Preserves amx .none (fun _ => True) (instrs v (Kind.index first bounded load cells).find)
      (instrs v (Kind.index first bounded load cells).repl) := by
  have hload := @preserves_index_load amx first (v 0) (v 1)
  have haddr := @preserves_index_addr amx first (v 0) (v 1)
  have hload' := replace_last [_, _] (hload (getparam (bytes "2")).1)
    (lidx_exec text_two) rfl rfl
  have haddr' := replace_last [_, _] (haddr (getparam (bytes "2")).1)
    (idxaddr_exec text_two) rfl rfl
  cases bounded with
  | false =>
      cases load with
      | false =>
          cases cells with
          | false => exact haddr (v 2)
          | true => exact haddr'
      | true =>
          cases cells with
          | false => exact hload (v 2)
          | true => exact hload'
  | true =>
      cases load with
      | false =>
          cases cells with
          | false => exact insert_bounds (haddr (v 3)) (v 2)
          | true => exact insert_bounds haddr' (v 2)
      | true =>
          cases cells with
          | false => exact insert_bounds (hload (v 3)) (v 2)
          | true => exact insert_bounds hload' (v 2)

theorem preserves_scales (amx : Segments) (v : Nat → Cell) (cells : Bool) :
    Preserves amx .none (fun _ => True) (instrs v (Kind.scale cells).find)
      (instrs v (Kind.scale cells).repl) := by
  cases cells with
  | false => exact preserves_scale (v 0)
  | true =>
      exact replace_last [_] (preserves_scale (getparam (bytes "2")).1) (idxaddr_exec text_two) rfl rfl

theorem preserves_clear (amx : Segments) (v : Nat → Cell) (const frame : Bool) :
    Preserves amx (.one .pri) (fun _ => True) (instrs v (Kind.storeZero const frame).find)
      (instrs v (Kind.storeZero const frame).repl) := by
  have hconst : ∀ t : State, Plain.exec amx (.get .const .pri) (getparam (bytes "0")).1 t =
      .ok { t with pri := 0 } := fun t => by
    rw [text_zero]
    rfl
  cases frame with
  | false =>
      cases const with
      | false =>
          exact preserves_store_zero (f := fun _ => v 0) (fun _ => rfl) (fun _ => rfl)
            (fun _ => rfl) rfl rfl rfl rfl rfl rfl (fun _ _ => id) fun _ _ => id
      | true =>
          exact preserves_store_zero (f := fun _ => v 0) hconst (fun _ => rfl)
            (fun _ => rfl) rfl rfl rfl rfl rfl rfl (fun _ _ => id) fun _ _ => id
  | true =>
      cases const with
      | false =>
          exact preserves_store_zero (f := fun frm => frm + v 0) (fun _ => rfl) (fun _ => rfl)
            (fun _ => rfl) rfl rfl rfl rfl rfl rfl (fun _ _ => id) fun _ _ => id
      | true =>
          exact preserves_store_zero (f := fun frm => frm + v 0) hconst (fun _ => rfl)
            (fun _ => rfl) rfl rfl rfl rfl rfl rfl (fun _ _ => id) fun _ _ => id

/-- Every kind of sequence leaves as it was what it may not change. -/
theorem Kind.preserves (amx : Segments) (v : Nat → Cell) (k : Kind) :
    Preserves amx k.drop (k.side amx v) (instrs v k.find) (instrs v k.repl) := by
  cases k with
  | keep first second => exact preserves_keep first second (v 0) (v 1)
  | keepFirst first second => exact loads_comm (preserves_keep first second (v 0) (v 1))
  | keepZero first => exact preserves_keep_zero first (v 0)
  | chain source => exact preserves_chain source (v 0)
  | chainEnd t => exact preserves_chain_end t
  | chainJzer t => exact preserves_chain_jzer t (v 0)
  | swappedJzer t => exact preserves_swapped_jzer t (v 0)
  | swapped t => exact preserves_swapped t
  | loadsXchg first second => exact preserves_loads_xchg first second (v 0) (v 1)
  | index first bounded load cells => exact preserves_index amx v first bounded load cells
  | scale cells => exact preserves_scales amx v cells
  | boundsOnly first =>
      exact insert_bounds (loads_comm (preserves_keep first .loadS (v 0) (v 1))) (v 2)
  | declare =>
      exact preserves_declare (.get .const .pri) (a := v 2) text_word (fun _ => rfl)
        fun _ _ => id
  | declareZero =>
      refine preserves_declare (.zeroReg .pri) (a := 0) text_word (fun t => ?_)
        fun _ _ => id
      change _ = Except.ok { t with pri := (getparam (bytes "0")).1 }
      rw [text_zero]
      rfl
  | move source => exact preserves_move source (v 0)
  | moveZero => exact preserves_move_zero
  | moveLoadI => exact preserves_move_loadI
  | moveOnly => exact preserves_move_only
  | pushes first second => exact preserves_pushes first second (v 0) (v 1)
  | pushesRev first second => exact preserves_pushes_rev first second (v 0) (v 1)
  | param source => exact preserves_param source (v 0)
  | paramZero => exact preserves_param_zero text_zero
  | pushAlt => exact preserves_push_alt
  | addC => exact preserves_add (v 0)
  | subC => exact preserves_sub (v 0)
  | smulC => exact preserves_smul (v 0)
  | eqC => exact preserves_eq (v 0)
  | subAlt source => exact preserves_sub_alt source (v 0) (v 1)
  | addAdd => exact preserves_add_add (v 0) (v 1)
  | jzer t => exact preserves_jzer t (v 0)
  | jnz t => exact preserves_jnz t (v 0)
  | testZero equal =>
      cases equal with
      | true => exact preserves_test_zero (t := .eq) (v 0) (fun _ => rfl) rfl (by decide)
      | false => exact preserves_test_zero (t := .neq) (v 0) (fun _ => rfl) rfl (by decide)
  | loadAfter up frame => exact preserves_then_load _ _ (v 0) (v 0)
  | loadBefore up frame =>
      refine preserves_load_then _ (v 0) (v 0) ?_
      cases up <;> cases frame <;> rfl
  | storeZero const frame => exact preserves_clear amx v const frame
  | zero r => exact preserves_zero r text_zero

end AmxModC.Compiler.Peephole
