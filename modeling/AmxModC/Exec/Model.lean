import AmxModC.Foundation.Words
import AmxModC.Machine

namespace AmxModC.Exec

open Foundation

/-! The instructions of the abstract machine, as the loop of `amx_Exec` carries them out. -/

inductive Reg
  | pri
  | alt
deriving DecidableEq

/-- Where an instruction with one parameter takes a value from: the parameter itself, the frame
plus the parameter, or the data at one of these. -/
inductive Source
  | const
  | addr
  | load
  | loadS
deriving DecidableEq

/-- What the increments and decrements change. -/
inductive Place
  | reg (r : Reg)
  | data
  | frame
  | ref
deriving DecidableEq

/-- The relational operators; the last four are signed. -/
inductive Relation
  | eq
  | neq
  | less
  | leq
  | grtr
  | geq
  | sless
  | sleq
  | sgrtr
  | sgeq
deriving DecidableEq

/-- The operators that leave their result in PRI and only read ALT. -/
inductive Operator
  | shl
  | shr
  | sshr
  | smul
  | umul
  | add
  | sub
  | subAlt
  | and
  | or
  | xor
deriving DecidableEq

/-- The instructions that go on with the one after them. -/
inductive Plain
  | get (source : Source) (r : Reg)
  | lref (r : Reg)
  | lrefS (r : Reg)
  | loadI
  | lodbI
  | stor (r : Reg)
  | storS (r : Reg)
  | sref (r : Reg)
  | srefS (r : Reg)
  | storI
  | strbI
  | lidx
  | lidxB
  | idxaddr
  | idxaddrB
  | align (r : Reg)
  | move (r : Reg)
  | xchg
  | pushReg (r : Reg)
  | push (source : Source)
  | pushR
  | pop (r : Reg)
  | stack
  | heap
  | proc
  | operator (op : Operator)
  | shlC (r : Reg)
  | shrC (r : Reg)
  | sdiv
  | sdivAlt
  | udiv
  | udivAlt
  | not
  | neg
  | invert
  | addC
  | smulC
  | zeroReg (r : Reg)
  | zero
  | zeroS
  | sign (r : Reg)
  | relation (t : Relation)
  | eqC (r : Reg)
  | inc (place : Place)
  | dec (place : Place)
  | movs
  | cmps
  | fill
  | bounds
  | swap (r : Reg)
  | nop
deriving DecidableEq

inductive AmxError
  | stackErr
  | bounds
  | memAccess
  | invInstr
  | stackLow
  | heapLow
  | divide
deriving DecidableEq

/-- `AMX_ERR_` numbers -/
def AmxError.code : AmxError → Cell
  | stackErr => 3
  | bounds => 4
  | memAccess => 5
  | invInstr => 6
  | stackLow => 7
  | heapLow => 8
  | divide => 11

/-- What the loop reads of `AMX`, and the `memcmp` of the C library. -/
structure Segments where
  stp : Cell
  hlw : Cell
  memcmp : List Byte → List Byte → Cell

/-- The registers, and the memory from `data` on. -/
structure State where
  pri : Cell
  alt : Cell
  frm : Cell
  stk : Cell
  hea : Cell
  data : Words

namespace State

def reg (s : State) : Reg → Cell
  | .pri => s.pri
  | .alt => s.alt

def setReg (s : State) (r : Reg) (v : Cell) : State :=
  match r with
  | .pri => { s with pri := v }
  | .alt => { s with alt := v }

def store (s : State) (a v : Cell) : State := { s with data := s.data.store a v }

/-- `PUSH` -/
def push (s : State) (v : Cell) : State :=
  { s with stk := s.stk - 4, data := s.data.store (s.stk - 4) v }

/-- `POP` -/
def pop (s : State) (r : Reg) : State :=
  { s.setReg r (s.data.load s.stk) with stk := s.stk + 4 }

/-- The check of an address: "pri>=hea && pri<stk || (ucell)pri>=(ucell)amx->stp" -/
def outside (s : State) (amx : Segments) (a : Cell) : Bool :=
  s.hea.sle a && a.slt s.stk || amx.stp.ule a

def outsideEnd (s : State) (amx : Segments) (a : Cell) : Bool :=
  s.hea.slt a && a.slt s.stk || amx.stp.ult a

/-- `STKMARGIN` -/
def margin : Cell := 64

/-- `CHKMARGIN` fails -/
def noMargin (s : State) : Bool := s.stk.slt (s.hea + margin)

def bytes (s : State) (a : Cell) (count : Nat) : List Byte :=
  (List.range count).map fun i => s.data (a + BitVec.ofNat 32 i)

/-- `memcpy` -/
def copy (s : State) (target source : Cell) (count : Nat) : State :=
  { s with data := fun x => if (x - target).toNat < count then s.data (source + (x - target))
      else s.data x }

def fill (s : State) (v : Cell) : Cell → Nat → State
  | _, 0 => s
  | i, count + 1 => (s.store i v).fill v (i + 4) count

end State

def Source.value (source : Source) (offs frm : Cell) (data : Words) : Cell :=
  match source with
  | const => offs
  | addr => offs + frm
  | load => data.load offs
  | loadS => data.load (frm + offs)

def Relation.holds : Relation → Cell → Cell → Bool
  | eq, pri, alt => pri == alt
  | neq, pri, alt => pri != alt
  | less, pri, alt => pri.ult alt
  | leq, pri, alt => pri.ule alt
  | grtr, pri, alt => alt.ult pri
  | geq, pri, alt => alt.ule pri
  | sless, pri, alt => pri.slt alt
  | sleq, pri, alt => pri.sle alt
  | sgrtr, pri, alt => alt.slt pri
  | sgeq, pri, alt => alt.sle pri

/-- The processor takes the shift count modulo 32. -/
def shiftCount (n : Cell) : Nat := n.toNat % 32

def Operator.apply : Operator → Cell → Cell → Cell
  | shl, pri, alt => pri <<< shiftCount alt
  | shr, pri, alt => pri >>> shiftCount alt
  | sshr, pri, alt => pri.sshiftRight (shiftCount alt)
  | smul, pri, alt => pri * alt
  | umul, pri, alt => pri * alt
  | add, pri, alt => pri + alt
  | sub, pri, alt => pri - alt
  | subAlt, pri, alt => alt - pri
  | and, pri, alt => pri &&& alt
  | or, pri, alt => pri ||| alt
  | xor, pri, alt => pri ^^^ alt

def floorDivide (n d : Cell) : Cell × Cell :=
  let offs := (n.srem d + d).srem d
  ((n - offs).sdiv d, offs)

/-- `LODB.I` -/
def narrowLoad (m : Words) (a offs pri : Cell) : Cell :=
  if offs = 1 then (m a).setWidth 32
  else if offs = 2 then (m (a + 1) ++ m a).setWidth 32
  else if offs = 4 then m.load a
  else pri

/-- `STRB.I` -/
def narrowStore (m : Words) (a offs v : Cell) : Words :=
  if offs = 1 then fun x => if x = a then v.extractLsb' 0 8 else m x
  else if offs = 2 then fun x =>
    if x = a then v.extractLsb' 0 8 else if x = a + 1 then v.extractLsb' 8 8 else m x
  else if offs = 4 then m.store a v
  else m

/-- `ALIGN` on a little endian machine -/
def alignAddress (v offs : Cell) : Cell := if offs.toNat < 4 then v ^^^ (4 - offs) else v

/-- `SIGN` -/
def signExtend (v : Cell) : Cell := if (v &&& 0xff).ule 0x7f then v else v ||| ~~~0xff#32

def Place.update (place : Place) (offs : Cell) (f : Cell → Cell) (s : State) : State :=
  match place with
  | reg r => s.setReg r (f (s.reg r))
  | data => s.store offs (f (s.data.load offs))
  | frame => s.store (s.frm + offs) (f (s.data.load (s.frm + offs)))
  | ref => s.store s.pri (f (s.data.load s.pri))

/-- An instruction either goes on, or the loop returns an error. -/
abbrev Outcome := Except (AmxError × State) State

/-- `ABORT` and the early returns of the checks -/
def guard (failed : Bool) (e : AmxError) (s : State) (rest : Outcome) : Outcome :=
  if failed then .error (e, s) else rest

/-- The checks of MOVS and CMPS, source first -/
def blockChecks (amx : Segments) (offs : Cell) (s : State) : Bool :=
  s.outside amx s.pri || s.outsideEnd amx (s.pri + offs) ||
    s.outside amx s.alt || s.outsideEnd amx (s.alt + offs)

/-- One instruction, with the parameter that follows it in the code. -/
def Plain.exec (amx : Segments) (op : Plain) (offs : Cell) (s : State) : Outcome :=
  match op with
  | get source r => .ok (s.setReg r (source.value offs s.frm s.data))
  | lref r => .ok (s.setReg r (s.data.load (s.data.load offs)))
  | lrefS r => .ok (s.setReg r (s.data.load (s.data.load (s.frm + offs))))
  | loadI => guard (s.outside amx s.pri) .memAccess s (.ok { s with pri := s.data.load s.pri })
  | lodbI => guard (s.outside amx s.pri) .memAccess s
      (.ok { s with pri := narrowLoad s.data s.pri offs s.pri })
  | stor r => .ok (s.store offs (s.reg r))
  | storS r => .ok (s.store (s.frm + offs) (s.reg r))
  | sref r => .ok (s.store (s.data.load offs) (s.reg r))
  | srefS r => .ok (s.store (s.data.load (s.frm + offs)) (s.reg r))
  | storI => guard (s.outside amx s.alt) .memAccess s (.ok (s.store s.alt s.pri))
  | strbI => guard (s.outside amx s.alt) .memAccess s
      (.ok { s with data := narrowStore s.data s.alt offs s.pri })
  | lidx =>
      let a := s.pri * 4 + s.alt
      guard (s.outside amx a) .memAccess s (.ok { s with pri := s.data.load a })
  | lidxB =>
      let a := (s.pri <<< shiftCount offs) + s.alt
      guard (s.outside amx a) .memAccess s (.ok { s with pri := s.data.load a })
  | idxaddr => .ok { s with pri := s.pri * 4 + s.alt }
  | idxaddrB => .ok { s with pri := (s.pri <<< shiftCount offs) + s.alt }
  | align r => .ok (s.setReg r (alignAddress (s.reg r) offs))
  | move .pri => .ok { s with pri := s.alt }
  | move .alt => .ok { s with alt := s.pri }
  | xchg => .ok { s with pri := s.alt, alt := s.pri }
  | pushReg r => .ok (s.push (s.reg r))
  | push source => .ok (s.push (source.value offs s.frm s.data))
  | pushR => .ok ((fun t => t.push s.pri)^[offs.toNat] s)
  | pop r => .ok (s.pop r)
  | stack =>
      let s := { s with alt := s.stk, stk := s.stk + offs }
      guard s.noMargin .stackErr s (guard (amx.stp.slt s.stk) .stackLow s (.ok s))
  | heap =>
      let s := { s with alt := s.hea, hea := s.hea + offs }
      guard s.noMargin .stackErr s (guard (s.hea.slt amx.hlw) .heapLow s (.ok s))
  | proc =>
      let s := s.push s.frm
      let s := { s with frm := s.stk }
      guard s.noMargin .stackErr s (.ok s)
  | operator op => .ok { s with pri := op.apply s.pri s.alt }
  | shlC r => .ok (s.setReg r (s.reg r <<< shiftCount offs))
  | shrC r => .ok (s.setReg r (s.reg r >>> shiftCount offs))
  | sdiv => guard (s.alt == 0) .divide s
      (.ok { s with pri := (floorDivide s.pri s.alt).1, alt := (floorDivide s.pri s.alt).2 })
  | sdivAlt => guard (s.pri == 0) .divide s
      (.ok { s with pri := (floorDivide s.alt s.pri).1, alt := (floorDivide s.alt s.pri).2 })
  | udiv => guard (s.alt == 0) .divide s (.ok { s with pri := s.pri / s.alt, alt := s.pri % s.alt })
  | udivAlt => guard (s.pri == 0) .divide s
      (.ok { s with pri := s.alt / s.pri, alt := s.alt % s.pri })
  | not => .ok { s with pri := if s.pri = 0 then 1 else 0 }
  | neg => .ok { s with pri := -s.pri }
  | invert => .ok { s with pri := ~~~s.pri }
  | addC => .ok { s with pri := s.pri + offs }
  | smulC => .ok { s with pri := s.pri * offs }
  | zeroReg r => .ok (s.setReg r 0)
  | zero => .ok (s.store offs 0)
  | zeroS => .ok (s.store (s.frm + offs) 0)
  | sign r => .ok (s.setReg r (signExtend (s.reg r)))
  | relation t => .ok { s with pri := if t.holds s.pri s.alt then 1 else 0 }
  | eqC r => .ok { s with pri := if s.reg r = offs then 1 else 0 }
  | inc place => .ok (place.update offs (· + 1) s)
  | dec place => .ok (place.update offs (· - 1) s)
  | movs => guard (blockChecks amx offs s) .memAccess s (.ok (s.copy s.alt s.pri offs.toNat))
  | cmps => guard (blockChecks amx offs s) .memAccess s
      (.ok { s with pri := amx.memcmp (s.bytes s.alt offs.toNat) (s.bytes s.pri offs.toNat) })
  | fill => guard (s.outside amx s.alt || s.outsideEnd amx (s.alt + offs)) .memAccess s
      (.ok (s.fill s.pri s.alt (offs.toNat / 4)))
  | bounds => guard (offs.ult s.pri) .bounds s (.ok s)
  | swap r => .ok ((s.store s.stk (s.reg r)).setReg r (s.data.load s.stk))
  | nop => .ok s

end AmxModC.Exec
