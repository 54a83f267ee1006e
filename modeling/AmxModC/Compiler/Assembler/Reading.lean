import AmxModC.Foundation.Bisection
import AmxModC.Foundation.CString
import AmxModC.Foundation.Numeral
import AmxModC.Machine
import Mathlib.Data.List.Sort

namespace AmxModC.Compiler.Assembler

open Foundation

/-! What the assembler reads in a line: numbers and the names of instructions. -/

def bytes (s : String) : List Byte := s.toList.map fun c => BitVec.ofNat 8 c.toNat

def hexDigits : Cell → List Byte → Cell × List Byte
  | result, [] => (result, [])
  | result, c :: s =>
      match digit? 16 c with
      | some digit => hexDigits (result <<< 4 ||| BitVec.ofNat 32 digit) s
      | none => (result, c :: s)

def isBlank (c : Byte) : Bool := c = 32 || c = 9

def hex2long (s : List Byte) : Cell × List Byte :=
  match s.dropWhile isBlank with
  | 45 :: s => ((~~~(hexDigits 0 s).1) + 1, (hexDigits 0 s).2)
  | s => hexDigits 0 s

/-- Numbers with a plus between them; `turns` bounds the loop. -/
def getparamLoop : Nat → Cell → List Byte → Cell × List Byte
  | 0, result, s => (result, s)
  | turns + 1, result, s =>
      match hex2long s with
      | (value, 43 :: s) => getparamLoop turns (result + value) s
      | (value, s) => (result + value, s)

def getparam (s : List Byte) : Cell × List Byte := getparamLoop (s.length + 1) 0 s

def opcodes (n : Nat) : Nat := n * 4

def opargs (n : Nat) : Nat := n * 4

/-- `sIN_CSEG`, `sIN_DSEG` -/
inductive Segment
  | cseg
  | dseg
deriving DecidableEq

inductive Proc
  | noop
  | parm0
  | parm1
  | doDump
  | doCall
  | doJump
  | doSwitch
  | doCase
deriving DecidableEq

structure Opcode where
  opcode : Cell
  name : List Byte
  segment : Option Segment
  func : Proc
deriving DecidableEq

/-- The table from its entry 1 on; entry 0 is the "invalid instruction". -/
def opcodelist : List Opcode :=
  [⟨78, bytes "add", some .cseg, .parm0⟩,
   ⟨87, bytes "add.c", some .cseg, .parm1⟩,
   ⟨14, bytes "addr.alt", some .cseg, .parm1⟩,
   ⟨13, bytes "addr.pri", some .cseg, .parm1⟩,
   ⟨30, bytes "align.alt", some .cseg, .parm1⟩,
   ⟨29, bytes "align.pri", some .cseg, .parm1⟩,
   ⟨81, bytes "and", some .cseg, .parm0⟩,
   ⟨121, bytes "bounds", some .cseg, .parm1⟩,
   ⟨137, bytes "break", some .cseg, .parm0⟩,
   ⟨49, bytes "call", some .cseg, .doCall⟩,
   ⟨50, bytes "call.pri", some .cseg, .parm0⟩,
   ⟨0, bytes "case", some .cseg, .doCase⟩,
   ⟨130, bytes "casetbl", some .cseg, .parm0⟩,
   ⟨118, bytes "cmps", some .cseg, .parm1⟩,
   ⟨0, bytes "code", none, .noop⟩,
   ⟨12, bytes "const.alt", some .cseg, .parm1⟩,
   ⟨11, bytes "const.pri", some .cseg, .parm1⟩,
   ⟨0, bytes "data", none, .noop⟩,
   ⟨114, bytes "dec", some .cseg, .parm1⟩,
   ⟨113, bytes "dec.alt", some .cseg, .parm0⟩,
   ⟨116, bytes "dec.i", some .cseg, .parm0⟩,
   ⟨112, bytes "dec.pri", some .cseg, .parm0⟩,
   ⟨115, bytes "dec.s", some .cseg, .parm1⟩,
   ⟨0, bytes "dump", some .dseg, .doDump⟩,
   ⟨95, bytes "eq", some .cseg, .parm0⟩,
   ⟨106, bytes "eq.c.alt", some .cseg, .parm1⟩,
   ⟨105, bytes "eq.c.pri", some .cseg, .parm1⟩,
   ⟨119, bytes "fill", some .cseg, .parm1⟩,
   ⟨100, bytes "geq", some .cseg, .parm0⟩,
   ⟨99, bytes "grtr", some .cseg, .parm0⟩,
   ⟨120, bytes "halt", some .cseg, .parm1⟩,
   ⟨45, bytes "heap", some .cseg, .parm1⟩,
   ⟨27, bytes "idxaddr", some .cseg, .parm0⟩,
   ⟨28, bytes "idxaddr.b", some .cseg, .parm1⟩,
   ⟨109, bytes "inc", some .cseg, .parm1⟩,
   ⟨108, bytes "inc.alt", some .cseg, .parm0⟩,
   ⟨111, bytes "inc.i", some .cseg, .parm0⟩,
   ⟨107, bytes "inc.pri", some .cseg, .parm0⟩,
   ⟨110, bytes "inc.s", some .cseg, .parm1⟩,
   ⟨86, bytes "invert", some .cseg, .parm0⟩,
   ⟨55, bytes "jeq", some .cseg, .doJump⟩,
   ⟨60, bytes "jgeq", some .cseg, .doJump⟩,
   ⟨59, bytes "jgrtr", some .cseg, .doJump⟩,
   ⟨58, bytes "jleq", some .cseg, .doJump⟩,
   ⟨57, bytes "jless", some .cseg, .doJump⟩,
   ⟨56, bytes "jneq", some .cseg, .doJump⟩,
   ⟨54, bytes "jnz", some .cseg, .doJump⟩,
   ⟨52, bytes "jrel", some .cseg, .parm1⟩,
   ⟨64, bytes "jsgeq", some .cseg, .doJump⟩,
   ⟨63, bytes "jsgrtr", some .cseg, .doJump⟩,
   ⟨62, bytes "jsleq", some .cseg, .doJump⟩,
   ⟨61, bytes "jsless", some .cseg, .doJump⟩,
   ⟨51, bytes "jump", some .cseg, .doJump⟩,
   ⟨128, bytes "jump.pri", some .cseg, .parm0⟩,
   ⟨53, bytes "jzer", some .cseg, .doJump⟩,
   ⟨31, bytes "lctrl", some .cseg, .parm1⟩,
   ⟨98, bytes "leq", some .cseg, .parm0⟩,
   ⟨97, bytes "less", some .cseg, .parm0⟩,
   ⟨25, bytes "lidx", some .cseg, .parm0⟩,
   ⟨26, bytes "lidx.b", some .cseg, .parm1⟩,
   ⟨2, bytes "load.alt", some .cseg, .parm1⟩,
   ⟨9, bytes "load.i", some .cseg, .parm0⟩,
   ⟨1, bytes "load.pri", some .cseg, .parm1⟩,
   ⟨4, bytes "load.s.alt", some .cseg, .parm1⟩,
   ⟨3, bytes "load.s.pri", some .cseg, .parm1⟩,
   ⟨10, bytes "lodb.i", some .cseg, .parm1⟩,
   ⟨6, bytes "lref.alt", some .cseg, .parm1⟩,
   ⟨5, bytes "lref.pri", some .cseg, .parm1⟩,
   ⟨8, bytes "lref.s.alt", some .cseg, .parm1⟩,
   ⟨7, bytes "lref.s.pri", some .cseg, .parm1⟩,
   ⟨34, bytes "move.alt", some .cseg, .parm0⟩,
   ⟨33, bytes "move.pri", some .cseg, .parm0⟩,
   ⟨117, bytes "movs", some .cseg, .parm1⟩,
   ⟨85, bytes "neg", some .cseg, .parm0⟩,
   ⟨96, bytes "neq", some .cseg, .parm0⟩,
   ⟨134, bytes "nop", some .cseg, .parm0⟩,
   ⟨84, bytes "not", some .cseg, .parm0⟩,
   ⟨82, bytes "or", some .cseg, .parm0⟩,
   ⟨43, bytes "pop.alt", some .cseg, .parm0⟩,
   ⟨42, bytes "pop.pri", some .cseg, .parm0⟩,
   ⟨46, bytes "proc", some .cseg, .parm0⟩,
   ⟨40, bytes "push", some .cseg, .parm1⟩,
   ⟨37, bytes "push.alt", some .cseg, .parm0⟩,
   ⟨39, bytes "push.c", some .cseg, .parm1⟩,
   ⟨36, bytes "push.pri", some .cseg, .parm0⟩,
   ⟨38, bytes "push.r", some .cseg, .parm1⟩,
   ⟨41, bytes "push.s", some .cseg, .parm1⟩,
   ⟨133, bytes "pushaddr", some .cseg, .parm1⟩,
   ⟨47, bytes "ret", some .cseg, .parm0⟩,
   ⟨48, bytes "retn", some .cseg, .parm0⟩,
   ⟨32, bytes "sctrl", some .cseg, .parm1⟩,
   ⟨73, bytes "sdiv", some .cseg, .parm0⟩,
   ⟨74, bytes "sdiv.alt", some .cseg, .parm0⟩,
   ⟨104, bytes "sgeq", some .cseg, .parm0⟩,
   ⟨103, bytes "sgrtr", some .cseg, .parm0⟩,
   ⟨65, bytes "shl", some .cseg, .parm0⟩,
   ⟨69, bytes "shl.c.alt", some .cseg, .parm1⟩,
   ⟨68, bytes "shl.c.pri", some .cseg, .parm1⟩,
   ⟨66, bytes "shr", some .cseg, .parm0⟩,
   ⟨71, bytes "shr.c.alt", some .cseg, .parm1⟩,
   ⟨70, bytes "shr.c.pri", some .cseg, .parm1⟩,
   ⟨94, bytes "sign.alt", some .cseg, .parm0⟩,
   ⟨93, bytes "sign.pri", some .cseg, .parm0⟩,
   ⟨102, bytes "sleq", some .cseg, .parm0⟩,
   ⟨101, bytes "sless", some .cseg, .parm0⟩,
   ⟨72, bytes "smul", some .cseg, .parm0⟩,
   ⟨88, bytes "smul.c", some .cseg, .parm1⟩,
   ⟨20, bytes "sref.alt", some .cseg, .parm1⟩,
   ⟨19, bytes "sref.pri", some .cseg, .parm1⟩,
   ⟨22, bytes "sref.s.alt", some .cseg, .parm1⟩,
   ⟨21, bytes "sref.s.pri", some .cseg, .parm1⟩,
   ⟨67, bytes "sshr", some .cseg, .parm0⟩,
   ⟨44, bytes "stack", some .cseg, .parm1⟩,
   ⟨0, bytes "stksize", none, .noop⟩,
   ⟨16, bytes "stor.alt", some .cseg, .parm1⟩,
   ⟨23, bytes "stor.i", some .cseg, .parm0⟩,
   ⟨15, bytes "stor.pri", some .cseg, .parm1⟩,
   ⟨18, bytes "stor.s.alt", some .cseg, .parm1⟩,
   ⟨17, bytes "stor.s.pri", some .cseg, .parm1⟩,
   ⟨24, bytes "strb.i", some .cseg, .parm1⟩,
   ⟨79, bytes "sub", some .cseg, .parm0⟩,
   ⟨80, bytes "sub.alt", some .cseg, .parm0⟩,
   ⟨132, bytes "swap.alt", some .cseg, .parm0⟩,
   ⟨131, bytes "swap.pri", some .cseg, .parm0⟩,
   ⟨129, bytes "switch", some .cseg, .doSwitch⟩,
   ⟨123, bytes "sysreq.c", some .cseg, .parm1⟩,
   ⟨135, bytes "sysreq.d", some .cseg, .parm1⟩,
   ⟨122, bytes "sysreq.pri", some .cseg, .parm0⟩,
   ⟨76, bytes "udiv", some .cseg, .parm0⟩,
   ⟨77, bytes "udiv.alt", some .cseg, .parm0⟩,
   ⟨75, bytes "umul", some .cseg, .parm0⟩,
   ⟨35, bytes "xchg", some .cseg, .parm0⟩,
   ⟨83, bytes "xor", some .cseg, .parm0⟩,
   ⟨91, bytes "zero", some .cseg, .parm1⟩,
   ⟨90, bytes "zero.alt", some .cseg, .parm0⟩,
   ⟨89, bytes "zero.pri", some .cseg, .parm0⟩,
   ⟨92, bytes "zero.s", some .cseg, .parm1⟩]

def nameAt (i : Nat) : List Byte := ((opcodelist[i - 1]?).map Opcode.name).getD []

def stricmp (s t : List Byte) : Int := strcmp (s.map toLower) (t.map toLower)

/-- `MAX_INSTR_LEN` -/
def maxInstrLen : Nat := 30

def searched (instr : List Byte) : Nat :=
  lowerBound (fun mid => 0 < stricmp instr (nameAt mid)) 1 opcodelist.length

def findopcode (instr : List Byte) : Nat :=
  if instr.length ≥ maxInstrLen then 0
  else
    let low := searched instr
    if stricmp instr (nameAt low) = 0 then low else 0

section

/-- The key that the comparison orders by. -/
def key (s : List Byte) : List Nat := (s.map toLower).map BitVec.toNat

theorem opcodelist_sorted : (opcodelist.map fun op => key op.name).IsChain (· < ·) := by
  decide +kernel

theorem opcodelist_short : ∀ op ∈ opcodelist, op.name.length < maxInstrLen := by
  decide +kernel

theorem stricmp_eq_zero {s t : List Byte} : stricmp s t = 0 ↔ key s = key t := by
  rw [stricmp, strcmp_eq_zero, key, key, map_toNat_inj]

theorem stricmp_pos_iff {s t : List Byte} : 0 < stricmp s t ↔ key t < key s :=
  strcmp_pos_iff

theorem nameAt_succ {i : Nat} (h : i < opcodelist.length) :
    nameAt (i + 1) = opcodelist[i].name := by
  rw [nameAt, Nat.add_sub_cancel, List.getElem?_eq_getElem h]
  rfl

theorem nameAt_lt {i j : Nat} (hpos : 0 < i) (hij : i < j) (hj : j ≤ opcodelist.length) :
    key (nameAt i) < key (nameAt j) := by
  obtain ⟨i, rfl⟩ := Nat.exists_eq_succ_of_ne_zero hpos.ne'
  obtain ⟨j, rfl⟩ := Nat.exists_eq_succ_of_ne_zero (hpos.trans hij).ne'
  have hpairs := List.isChain_iff_pairwise.mp opcodelist_sorted
  have hlt := List.pairwise_iff_getElem.mp hpairs i j (by simp; omega) (by simp; omega) (by omega)
  rw [Nat.succ_eq_add_one, Nat.succ_eq_add_one, nameAt_succ (by omega), nameAt_succ (by omega)]
  rwa [List.getElem_map, List.getElem_map] at hlt

theorem nameAt_short {i : Nat} (hpos : 0 < i) (hi : i ≤ opcodelist.length) :
    (nameAt i).length < maxInstrLen := by
  obtain ⟨i, rfl⟩ := Nat.exists_eq_succ_of_ne_zero hpos.ne'
  rw [Nat.succ_eq_add_one, nameAt_succ (by omega)]
  exact opcodelist_short _ (List.getElem_mem _)

theorem length_pos : 1 ≤ opcodelist.length :=
  List.length_pos_of_ne_nil (List.cons_ne_nil _ _)

theorem searched_spec (instr : List Byte) :
    1 ≤ searched instr ∧ searched instr ≤ opcodelist.length ∧
      (∀ i, 1 ≤ i → i < searched instr → key (nameAt i) < key instr) ∧
      ∀ i, searched instr ≤ i → i < opcodelist.length → ¬ key (nameAt i) < key instr := by
  obtain ⟨hlow, hhigh, hbelow, habove⟩ :=
    lowerBound_spec (fun mid => 0 < stricmp instr (nameAt mid)) length_pos
      fun i j hi hij hj hlt => by
        rw [decide_eq_true_eq, stricmp_pos_iff] at hlt ⊢
        rcases Nat.lt_or_eq_of_le hij with hlt' | rfl
        · exact (nameAt_lt hi hlt' (by omega)).trans hlt
        · exact hlt
  refine ⟨hlow, hhigh, fun i hi hlt => ?_, fun i hi hlt => ?_⟩
  · exact stricmp_pos_iff.mp (of_decide_eq_true (hbelow i hi hlt))
  · exact fun h => of_decide_eq_false (habove i hi hlt) (stricmp_pos_iff.mpr h)

theorem findopcode_eq_iff {instr : List Byte} {i : Nat} (hpos : 0 < i)
    (hi : i ≤ opcodelist.length) : findopcode instr = i ↔ stricmp instr (nameAt i) = 0 := by
  obtain ⟨hlow, -, hbelow, habove⟩ := searched_spec instr
  rw [findopcode]
  constructor
  · intro h
    split at h
    · omega
    · dsimp only at h
      split at h
      · next hzero => rwa [h] at hzero
      · omega
  · intro hzero
    have hkey := stricmp_eq_zero.mp hzero
    have hshort : ¬ instr.length ≥ maxInstrLen := by
      have hlen := congrArg List.length hkey
      rw [key, key, List.length_map, List.length_map, List.length_map, List.length_map] at hlen
      have := nameAt_short hpos hi
      omega
    have hfound : searched instr = i := by
      rcases Nat.lt_trichotomy (searched instr) i with hlt | heq | hgt
      · have hnot := habove _ (Nat.le_refl _) (by omega)
        rw [hkey] at hnot
        exact absurd (nameAt_lt hlow hlt hi) hnot
      · exact heq
      · have hlt := hbelow i hpos hgt
        rw [hkey] at hlt
        exact absurd hlt (lt_irrefl _)
    rw [if_neg hshort]
    dsimp only
    rw [hfound, if_pos hzero]

theorem findopcode_le (instr : List Byte) : findopcode instr ≤ opcodelist.length := by
  rw [findopcode]
  split
  · exact Nat.zero_le _
  · dsimp only
    split
    · exact (searched_spec instr).2.1
    · exact Nat.zero_le _

/-- The entry of the table that the text names. -/
def instruction (instr : List Byte) : Option Opcode :=
  match findopcode instr with
  | 0 => none
  | i + 1 => opcodelist[i]?

/-- What the binary search finds is what a search from the front finds. -/
theorem instruction_eq (instr : List Byte) :
    instruction instr = opcodelist.find? fun op => stricmp instr op.name = 0 := by
  cases hfind : opcodelist.find? fun op => stricmp instr op.name = 0 with
  | none =>
      rw [List.find?_eq_none] at hfind
      have hzero : findopcode instr = 0 := by
        by_contra hne
        have hle := findopcode_le instr
        have hname := (findopcode_eq_iff (Nat.pos_of_ne_zero hne) hle).mp rfl
        obtain ⟨i, hi⟩ := Nat.exists_eq_succ_of_ne_zero hne
        rw [hi, Nat.succ_eq_add_one, nameAt_succ (by omega)] at hname
        exact hfind _ (List.getElem_mem _) (decide_eq_true hname)
      rw [instruction, hzero]
  | some op =>
      obtain ⟨hname, i, hi, rfl, -⟩ := List.find?_eq_some_iff_getElem.mp hfind
      have hfound : findopcode instr = i + 1 := by
        rw [findopcode_eq_iff (Nat.succ_pos i) hi, nameAt_succ hi]
        exact of_decide_eq_true hname
      rw [instruction, hfound]
      exact List.getElem?_eq_getElem hi

end

/-! How the assembler reads a line. -/

def stripcomment (str : List Byte) : List Byte :=
  if 59 ∈ str then str.takeWhile (· ≠ 59) ++ [10] else str

def skipwhitespace (str : List Byte) : List Byte := str.dropWhile isSpace

inductive Command
  | empty
  | label (lindex : Cell)
  | code (entry : Opcode) (params : List Byte)
  | invalid
deriving DecidableEq

def readCommand (line : List Byte) : Command :=
  let instr := skipwhitespace (stripcomment line)
  if instr = [] then .empty
  else if instr.head?.map toLower = some 108 ∧ instr[1]? = some 46 then
    .label (hex2long (instr.drop 2)).1
  else
    match instruction (instr.takeWhile fun c => !isSpace c) with
    | some entry => .code entry (skipwhitespace (instr.dropWhile fun c => !isSpace c))
    | none => .invalid

section

variable {v : Cell} {s spaces digits : List Byte}

theorem digit?_space {c : Byte} (h : isSpace c) : digit? 16 c = none := by
  revert c
  decide

theorem blank_space {c : Byte} (h : isBlank c) : isSpace c := by
  revert c
  decide

theorem hexDigits_stop {rest : List Byte} (hrest : ∀ c ∈ rest.head?, digit? 16 c = none) :
    hexDigits v (s ++ rest) = ((hexDigits v s).1, (hexDigits v s).2 ++ rest) := by
  induction s generalizing v with
  | nil =>
      cases rest with
      | nil => rfl
      | cons c rest => simp only [List.nil_append, hexDigits, hrest c rfl]
  | cons c s ih =>
      rw [List.cons_append]
      simp only [hexDigits]
      split
      · exact ih
      · rfl

theorem hexDigits_spaces (hspaces : ∀ c ∈ spaces, isSpace c) :
    hexDigits v (s ++ spaces) = ((hexDigits v s).1, (hexDigits v s).2 ++ spaces) :=
  hexDigits_stop fun c hc => digit?_space (hspaces c (List.mem_of_mem_head? hc))

def IsHex (s : List Byte) : Prop := s ≠ [] ∧ ∀ c ∈ s, (digit? 16 c).isSome

instance (s : List Byte) : Decidable (IsHex s) := inferInstanceAs (Decidable (_ ∧ _))

theorem hexDigits_all (h : ∀ c ∈ s, (digit? 16 c).isSome) : (hexDigits v s).2 = [] := by
  induction s generalizing v with
  | nil => rfl
  | cons c s ih =>
      obtain ⟨hc, hs⟩ := List.forall_mem_cons.mp h
      obtain ⟨d, hd⟩ := Option.isSome_iff_exists.mp hc
      rw [hexDigits, hd]
      exact ih hs

theorem hexDigits_suffix : (hexDigits v s).2 <:+ s := by
  induction s generalizing v with
  | nil => exact List.suffix_rfl
  | cons c s ih =>
      rw [hexDigits]
      split
      · exact ih.trans (List.suffix_cons c s)
      · exact List.suffix_rfl

theorem hex2long_suffix : (hex2long s).2 <:+ s := by
  rw [hex2long]
  split
  · next s' h =>
      exact (hexDigits_suffix.trans (List.suffix_cons 45 s')).trans (h ▸ List.dropWhile_suffix _)
  · exact hexDigits_suffix.trans (List.dropWhile_suffix _)

theorem hex2long_spaces (hs : ∀ c ∈ s, ¬ isSpace c) (hspaces : ∀ c ∈ spaces, isSpace c) :
    ∃ rest, (∀ c ∈ rest, isSpace c) ∧
      hex2long (s ++ spaces) = ((hex2long s).1, (hex2long s).2 ++ rest) := by
  cases s with
  | nil =>
      refine ⟨spaces.dropWhile isBlank, fun c hc => hspaces c ((List.dropWhile_sublist _).subset hc),
        ?_⟩
      have hempty : hex2long [] = (0, []) := rfl
      rw [hempty, List.nil_append, hex2long]
      have hrest : ∀ c ∈ spaces.dropWhile isBlank, isSpace c := fun c hc =>
        hspaces c ((List.dropWhile_sublist _).subset hc)
      cases hdrop : spaces.dropWhile isBlank with
      | nil => rfl
      | cons c rest =>
          have hc := hrest c (hdrop ▸ List.mem_cons_self)
          split
          · next heq =>
              rw [(List.cons.inj heq).1] at hc
              exact absurd hc (by decide)
          · simp only [hexDigits, digit?_space hc, List.nil_append]
  | cons c s =>
      have hc := hs c List.mem_cons_self
      have hblank : ¬ isBlank c := fun h => hc (blank_space h)
      refine ⟨spaces, hspaces, ?_⟩
      rw [hex2long, hex2long, List.cons_append, List.dropWhile_cons_of_neg hblank,
        List.dropWhile_cons_of_neg hblank]
      by_cases hsign : c = 45
      · subst hsign
        change ((~~~(hexDigits 0 (s ++ spaces)).1) + 1, (hexDigits 0 (s ++ spaces)).2) = _
        rw [hexDigits_spaces hspaces]
        rfl
      · split
        · next heq => exact absurd (List.cons.inj heq).1 hsign
        · split
          · next heq => exact absurd (List.cons.inj heq).1 hsign
          · rw [← List.cons_append]
            exact hexDigits_spaces hspaces

theorem length_hex2long_le : (hex2long s).2.length ≤ s.length :=
  hex2long_suffix.length_le

theorem getparamLoop_plus {turns : Nat} {result value : Cell} (rest : List Byte)
    (h : hex2long s = (value, 43 :: rest)) :
    getparamLoop (turns + 1) result s = getparamLoop turns (result + value) rest := by
  rw [getparamLoop, h]
  rfl

theorem getparamLoop_last {turns : Nat} {result value : Cell} {after : List Byte}
    (h : hex2long s = (value, after)) (hafter : after.head? ≠ some 43) :
    getparamLoop (turns + 1) result s = (result + value, after) := by
  rw [getparamLoop, h]
  split
  · next heq =>
      cases heq
      exact absurd rfl hafter
  · next heq =>
      cases heq
      rfl

theorem hex2long_cases (s : List Byte) :
    (∃ value rest, hex2long s = (value, 43 :: rest) ∧ rest.length < s.length) ∨
      ∃ value after, hex2long s = (value, after) ∧ after.head? ≠ some 43 := by
  have hlen := length_hex2long_le (s := s)
  cases hread : hex2long s with
  | mk value after =>
      rw [hread] at hlen
      by_cases hplus : after.head? = some 43
      · obtain ⟨rest, rfl⟩ := List.head?_eq_some_iff.mp hplus
        exact Or.inl ⟨value, rest, rfl, hlen⟩
      · exact Or.inr ⟨value, after, rfl, hplus⟩

theorem getparamLoop_turns {turns : Nat} (turns' : Nat) (h : s.length < turns) (h' : s.length < turns')
    (result : Cell) : getparamLoop turns result s = getparamLoop turns' result s := by
  induction turns generalizing turns' s result with
  | zero => exact absurd h (Nat.not_lt_zero _)
  | succ turns ih =>
      cases turns' with
      | zero => exact absurd h' (Nat.not_lt_zero _)
      | succ turns' =>
          rcases hex2long_cases s with ⟨value, rest, hread, hlen⟩ | ⟨value, after, hread, hlast⟩
          · rw [getparamLoop_plus _ hread, getparamLoop_plus _ hread]
            exact ih _ (by omega) (by omega) _
          · rw [getparamLoop_last hread hlast, getparamLoop_last hread hlast]

theorem getparam_spaces (hs : ∀ c ∈ s, ¬ isSpace c) (hspaces : ∀ c ∈ spaces, isSpace c) :
    (getparam (s ++ spaces)).1 = (getparam s).1 := by
  suffices h : ∀ turns result, s.length < turns →
      (getparamLoop turns result (s ++ spaces)).1 = (getparamLoop turns result s).1 by
    rw [getparam, h _ _ (by rw [List.length_append]; omega), getparam,
      getparamLoop_turns (s.length + 1) (by rw [List.length_append]; omega)
        (Nat.lt_succ_self _)]
  intro turns
  induction turns generalizing s spaces with
  | zero => exact fun _ h => absurd h (Nat.not_lt_zero _)
  | succ turns ih =>
      intro result hlt
      obtain ⟨rest, hrest, heq⟩ := hex2long_spaces hs hspaces
      have hsuffix := hex2long_suffix (s := s)
      rcases hex2long_cases s with ⟨value, after, hread, hlen⟩ | ⟨value, after, hread, hlast⟩
      · rw [hread] at heq hsuffix
        have hafter : ∀ d ∈ after, ¬ isSpace d := fun d hd =>
          hs d (hsuffix.subset (List.mem_cons_of_mem _ hd))
        rw [getparamLoop_plus _ hread, getparamLoop_plus (after ++ rest) heq]
        exact ih hafter hrest (result + value) (by omega)
      · rw [hread] at heq
        have hlast' : (after ++ rest).head? ≠ some 43 := by
          cases after with
          | cons c after => exact hlast
          | nil =>
              cases rest with
              | nil => exact hlast
              | cons c rest =>
                  intro h
                  have hc := hrest c List.mem_cons_self
                  rw [Option.some.inj h] at hc
                  exact absurd hc (by decide)
        rw [getparamLoop_last hread hlast, getparamLoop_last heq hlast']

theorem hex2long_of_head (hblank : ∀ c ∈ s.head?, ¬ isBlank c) (hsign : s.head? ≠ some 45) :
    hex2long s = hexDigits 0 s := by
  cases s with
  | nil => rfl
  | cons c s =>
      rw [hex2long, List.dropWhile_cons_of_neg (hblank c rfl)]
      split
      · next heq => exact absurd (congrArg some (List.cons.inj heq).1) hsign
      · rfl

theorem digit_head {c : Byte} (h : (digit? 16 c).isSome) : ¬ isBlank c ∧ c ≠ 45 ∧ c ≠ 43 := by
  revert c
  decide

theorem IsHex.hex2long_eq (h : IsHex s) : hex2long s = ((hexDigits 0 s).1, []) := by
  have hhead (c : Byte) (hc : c ∈ s.head?) := digit_head (h.2 c (List.mem_of_mem_head? hc))
  rw [hex2long_of_head (fun c hc => (hhead c hc).1) fun heq => (hhead 45 heq).2.1 rfl,
    ← hexDigits_all (v := 0) h.2]

theorem getparam_of_end {value : Cell} (h : hex2long s = (value, [])) : getparam s = (value, []) := by
  rw [getparam, getparamLoop, h]
  exact congrArg (·, []) (BitVec.zero_add value)

theorem IsHex.getparam_eq (h : IsHex s) : getparam s = ((hexDigits 0 s).1, []) :=
  getparam_of_end h.hex2long_eq

theorem IsHex.getparam_neg (h : IsHex s) : getparam (45 :: s) = (-(getparam s).1, []) := by
  rw [h.getparam_eq]
  refine getparam_of_end ?_
  have hsign : hex2long (45 :: s) = ((~~~(hexDigits 0 s).1) + 1, (hexDigits 0 s).2) := rfl
  rw [hsign, hexDigits_all h.2]
  exact congrArg (·, []) (BitVec.neg_eq_not_add _).symm

/-- The text is a parameter that is read to its end. -/
def IsParam (s : List Byte) : Prop := s ≠ [] ∧ (getparam s).2 = []

instance (s : List Byte) : Decidable (IsParam s) := inferInstanceAs (Decidable (_ ∧ _))

theorem IsHex.isParam (h : IsHex s) : IsParam s := ⟨h.1, by rw [h.getparam_eq]⟩

theorem IsHex.isParam_neg (h : IsHex s) : IsParam (45 :: s) :=
  ⟨List.cons_ne_nil _ _, by rw [h.getparam_neg]⟩

theorem hex2long_plus (rest : List Byte) :
    hex2long (s ++ 43 :: rest) = ((hex2long s).1, (hex2long s).2 ++ 43 :: rest) := by
  have hstop : ∀ c ∈ (43 :: rest).head?, digit? 16 c = none := by
    intro c hc
    cases hc
    decide
  have hdrop : (s ++ 43 :: rest).dropWhile isBlank = s.dropWhile isBlank ++ 43 :: rest := by
    rw [List.dropWhile_append]
    split
    · next h =>
        rw [List.isEmpty_iff.mp h]
        rfl
    · rfl
  rw [hex2long, hex2long, hdrop]
  cases hs : s.dropWhile isBlank with
  | nil => rfl
  | cons c s' =>
      rw [List.cons_append]
      by_cases hsign : c = 45
      · subst hsign
        change ((~~~(hexDigits 0 (s' ++ 43 :: rest)).1) + 1, (hexDigits 0 (s' ++ 43 :: rest)).2) = _
        rw [hexDigits_stop hstop]
        rfl
      · split
        · next heq => exact absurd (List.cons.inj heq).1 hsign
        · split
          · next heq => exact absurd (List.cons.inj heq).1 hsign
          · rw [← List.cons_append]
            exact hexDigits_stop hstop

theorem getparamLoop_result (turns : Nat) (result : Cell) : getparamLoop turns result s =
    (result + (getparamLoop turns 0 s).1, (getparamLoop turns 0 s).2) := by
  induction turns generalizing result s with
  | zero => exact congrArg (·, s) (BitVec.add_zero result).symm
  | succ turns ih =>
      rcases hex2long_cases s with ⟨value, rest, hread, -⟩ | ⟨value, after, hread, hlast⟩
      · rw [getparamLoop_plus _ hread, getparamLoop_plus _ hread, ih (result + value), ih (0 + value),
          BitVec.add_assoc]
        exact congrArg (fun t => (result + (t + _), _)) (BitVec.zero_add value).symm
      · rw [getparamLoop_last hread hlast, getparamLoop_last hread hlast]
        exact congrArg (fun t => (result + t, after)) (BitVec.zero_add value).symm

theorem IsParam.getparam_sum {rest : List Byte} (h : IsParam s) :
    getparam (s ++ 43 :: rest) = ((getparam s).1 + (getparam rest).1, (getparam rest).2) := by
  suffices hloop : ∀ turns result, s.length < turns → (getparamLoop turns result s).2 = [] →
      ∀ turns', (s ++ 43 :: rest).length < turns' →
        getparamLoop turns' result (s ++ 43 :: rest) =
          getparamLoop (rest.length + 1) (getparamLoop turns result s).1 rest by
    rw [getparam, hloop _ 0 (Nat.lt_succ_self _) h.2 _ (Nat.lt_succ_self _), getparamLoop_result]
    rfl
  intro turns
  clear h
  induction turns generalizing s with
  | zero => exact fun _ h => absurd h (Nat.not_lt_zero _)
  | succ turns ih =>
      intro result hlt hend turns' hturns'
      rw [List.length_append, List.length_cons] at hturns'
      cases turns' with
      | zero => exact absurd hturns' (Nat.not_lt_zero _)
      | succ turns' =>
          have hplus := hex2long_plus (s := s) rest
          rcases hex2long_cases s with ⟨value, after, hread, hlen⟩ | ⟨value, after, hread, hlast⟩
          · rw [getparamLoop_plus _ hread] at hend ⊢
            rw [hread] at hplus
            rw [getparamLoop_plus (after ++ 43 :: rest) hplus]
            exact ih (result + value) (by omega) hend turns'
              (by rw [List.length_append, List.length_cons]; omega)
          · rw [getparamLoop_last hread hlast] at hend ⊢
            obtain rfl : after = [] := hend
            rw [hread] at hplus
            rw [getparamLoop_plus rest hplus]
            exact getparamLoop_turns _ (by omega) (Nat.lt_succ_self _) _

end

end AmxModC.Compiler.Assembler
