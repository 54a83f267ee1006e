import AmxModC.Compiler.Assembler.Reading
import AmxModC.Compiler.Peephole.Sequences
import AmxModC.Exec.Code

namespace AmxModC.Compiler.Peephole

open Foundation Exec Assembler

/-! The table of the sequences, and the code that its patterns stand for. -/

def sequencesTable : List (Byte × Byte) :=
  [(32, 37), (114, 105), (112, 129), (46, 130), (128, 49), (132, 33), (97, 100), (46, 97),
   (135, 108), (136, 116), (111, 134), (108, 138), (50, 33), (115, 104), (128, 140), (137, 33),
   (46, 115), (117, 141), (112, 145), (131, 133), (139, 144), (112, 143), (131, 142), (115, 116),
   (131, 33), (59, 36), (134, 100), (111, 149), (112, 155), (110, 151), (111, 157), (99, 158),
   (146, 152), (112, 33), (120, 161), (101, 162), (153, 163), (148, 150), (137, 133), (46, 99),
   (122, 101), (168, 114), (154, 114), (110, 100), (101, 113), (147, 160), (51, 33), (128, 174),
   (103, 33), (133, 164), (104, 176), (99, 178), (120, 179), (172, 33), (106, 169), (173, 165),
   (154, 33), (108, 167), (117, 171), (115, 175), (186, 187), (156, 184), (141, 185), (111, 188),
   (98, 191), (105, 100), (115, 103), (115, 108), (193, 120), (182, 133), (114, 33), (166, 165),
   (190, 131), (137, 142), (171, 33), (97, 202), (169, 111), (139, 147), (159, 147), (139, 150),
   (105, 33), (146, 167), (101, 115), (210, 115), (114, 116), (148, 147), (172, 133), (189, 139),
   (32, 140), (52, 33), (196, 170), (159, 183), (170, 183), (199, 192), (108, 196), (97, 198),
   (195, 211), (46, 208), (194, 212), (200, 216), (112, 223), (46, 98), (118, 101), (153, 228),
   (111, 230), (109, 232), (146, 143), (204, 152), (99, 144), (159, 150), (97, 149), (203, 156),
   (224, 33), (159, 166), (194, 181), (195, 181), (201, 180), (226, 198), (156, 203), (128, 217),
   (215, 225), (100, 101), (238, 239), (105, 110), (115, 119), (252, 250), (154, 167)]

def seqsize (o p : Nat) : Nat := opcodes o + opargs p

/-- `SEQUENCE` -/
structure Sequence where
  find : List Byte
  replace : List Byte
  savesize : Nat
deriving DecidableEq

def sequencesCmp : List Sequence :=
  [⟨bytes "\x94\xb7\x9c", bytes "\xa5\x94\xa6", seqsize 4 2 - seqsize 2 2⟩,
   ⟨bytes "\x8b\xb7\x9c", bytes "\xa5\x8b\xa6", seqsize 4 2 - seqsize 2 2⟩,
   ⟨bytes "\x94\xad\xcf\x9c", bytes "\xcf\x94\xa6", seqsize 4 2 - seqsize 2 2⟩,
   ⟨bytes "\x8b\xad\xcf\x9c", bytes "\xcf\x8b\xa6", seqsize 4 2 - seqsize 2 2⟩,
   ⟨bytes "\xdc\x9c", bytes "\xaa\xc7", seqsize 4 2 - seqsize 2 2⟩,
   ⟨bytes "\xaa\xad\xcf\x9c", bytes "\xaa\xa6\xcf", seqsize 4 2 - seqsize 2 2⟩,
   ⟨bytes "\xdb\x9c", bytes "\xa5\xf1", seqsize 4 2 - seqsize 2 2⟩,
   ⟨bytes "\x9f\xad\xcf\x9c", bytes "\xcf\xf1", seqsize 4 2 - seqsize 2 2⟩,
   ⟨bytes "\x94\xad\xed\x9c", bytes "\xed\x94\xa6", seqsize 4 2 - seqsize 2 2⟩,
   ⟨bytes "\x8b\xad\xed\x9c", bytes "\xed\x8b\xa6", seqsize 4 2 - seqsize 2 2⟩,
   ⟨bytes "\xaa\xad\xed\x9c", bytes "\xaa\xa6\xed", seqsize 4 2 - seqsize 2 2⟩,
   ⟨bytes "\xaa\xad\xeb\x9c", bytes "\xaa\xa6\xeb", seqsize 4 1 - seqsize 2 1⟩,
   ⟨bytes "\xe9\x98\xa0\xd5\x9c", bytes "\xd5", seqsize 4 1 - seqsize 1 1⟩,
   ⟨bytes "\xe9\x98\xa0\xcd\x9c", bytes "\xcd", seqsize 4 1 - seqsize 1 1⟩,
   ⟨bytes "\xe9\x98\xa0\xce\x9c", bytes "\xce", seqsize 4 1 - seqsize 1 1⟩,
   ⟨bytes "\xb4\xf5\xfd\xa4", bytes "\xf0\xf6\xa4", seqsize 5 0 - seqsize 3 0⟩,
   ⟨bytes "\xb4\xf0\xfd\xa4", bytes "\xf5\xf6\xa4", seqsize 5 0 - seqsize 3 0⟩,
   ⟨bytes "\xb4\xf2\xfd\xa4", bytes "\xf3\xf6\xa4", seqsize 5 0 - seqsize 3 0⟩,
   ⟨bytes "\xb4\xf3\xfd\xa4", bytes "\xf2\xf6\xa4", seqsize 5 0 - seqsize 3 0⟩,
   ⟨bytes "\xb4\xf5\xfd\xc5", bytes "\xf0\xf6\xc5", seqsize 5 0 - seqsize 3 0⟩,
   ⟨bytes "\xb4\xf0\xfd\xc5", bytes "\xf5\xf6\xc5", seqsize 5 0 - seqsize 3 0⟩,
   ⟨bytes "\xb4\xf2\xfd\xc5", bytes "\xf3\xf6\xc5", seqsize 5 0 - seqsize 3 0⟩,
   ⟨bytes "\xb4\xf3\xfd\xc5", bytes "\xf2\xf6\xc5", seqsize 5 0 - seqsize 3 0⟩,
   ⟨bytes "\xb4\xf5\xb6\xb1", bytes "j\xc2\xac\xb1", seqsize 3 1 - seqsize 1 1⟩,
   ⟨bytes "\xb4\xf0\xb6\xb1", bytes "j\xc3\xac\xb1", seqsize 3 1 - seqsize 1 1⟩,
   ⟨bytes "\xb4\xf2\xb6\xb1", bytes "j\xe2r\xb1", seqsize 3 1 - seqsize 1 1⟩,
   ⟨bytes "\xb4\xf3\xb6\xb1", bytes "j\xe0\xb1", seqsize 3 1 - seqsize 1 1⟩,
   ⟨bytes "\xb4\xf5\xa4", bytes "\xf0\xa4", seqsize 2 0 - seqsize 1 0⟩,
   ⟨bytes "\xb4\xf0\xa4", bytes "\xf5\xa4", seqsize 2 0 - seqsize 1 0⟩,
   ⟨bytes "\xb4\xf2\xa4", bytes "\xf3\xa4", seqsize 2 0 - seqsize 1 0⟩,
   ⟨bytes "\xb4\xf3\xa4", bytes "\xf2\xa4", seqsize 2 0 - seqsize 1 0⟩,
   ⟨bytes "\xd5\x94\xf4", bytes "\xa5\x94\xa6", seqsize 3 2 - seqsize 2 2⟩,
   ⟨bytes "\xd5\x8b\xf4", bytes "\xcf\x94\xa6", seqsize 3 2 - seqsize 2 2⟩,
   ⟨bytes "\xd5\x9f\xf4", bytes "\xed\x94\xa6", seqsize 3 2 - seqsize 2 2⟩,
   ⟨bytes "\xcd\x94\xf4", bytes "\xa5\x8b\xa6", seqsize 3 2 - seqsize 2 2⟩,
   ⟨bytes "\xcd\x8b\xf4", bytes "\xcf\x8b\xa6", seqsize 3 2 - seqsize 2 2⟩,
   ⟨bytes "\xcd\x9f\xf4", bytes "\xed\x8b\xa6", seqsize 3 2 - seqsize 2 2⟩,
   ⟨bytes "\xce\x94\xf4", bytes "\xa5\xf1", seqsize 3 2 - seqsize 2 2⟩,
   ⟨bytes "\xce\x8b\xf4", bytes "\xcf\xf1", seqsize 3 2 - seqsize 2 2⟩,
   ⟨bytes "\xdc\xc0\xe3\xf8", bytes "\xaa\xdd\xde!", seqsize 8 4 - seqsize 4 3⟩,
   ⟨bytes "\xdb\xc0\xe3\xf8", bytes "\x9f\xdd\xde!", seqsize 8 4 - seqsize 4 3⟩,
   ⟨bytes "\xdc\xe3\xf8", bytes "\xaa\xc7\xde!", seqsize 7 3 - seqsize 3 2⟩,
   ⟨bytes "\xdb\xe3\xf8", bytes "\x9f\xc7\xde!", seqsize 7 3 - seqsize 3 2⟩,
   ⟨bytes "\xdc\xc0\xc8\xf7\xf8", bytes "\xaa\xdd\xde\xe5\xf7", seqsize 8 4 - seqsize 4 4⟩,
   ⟨bytes "\xdb\xc0\xc8\xf7\xf8", bytes "\x9f\xdd\xde\xe5\xf7", seqsize 8 4 - seqsize 4 4⟩,
   ⟨bytes "\xdc\xc8\xaf\xf8", bytes "\xaa\xc7\xde\xe5\xaf", seqsize 7 3 - seqsize 3 3⟩,
   ⟨bytes "\xdb\xc8\xaf\xf8", bytes "\x9f\xc7\xde\xe5\xaf", seqsize 7 3 - seqsize 3 3⟩,
   ⟨bytes "\xdc\xc0\xe3\xbd", bytes "\xaa\xdd\xda!", seqsize 7 4 - seqsize 4 3⟩,
   ⟨bytes "\xdb\xc0\xe3\xbd", bytes "\x9f\xdd\xda!", seqsize 7 4 - seqsize 4 3⟩,
   ⟨bytes "\xdc\xe3\xbd", bytes "\xaa\xc7\xda!", seqsize 6 3 - seqsize 3 2⟩,
   ⟨bytes "\xdb\xe3\xbd", bytes "\x9f\xc7\xda!", seqsize 6 3 - seqsize 3 2⟩,
   ⟨bytes "\xdc\xc0\xc8\xf7\xbd", bytes "\xaa\xdd\xda\xe5\xf7", seqsize 7 4 - seqsize 4 4⟩,
   ⟨bytes "\xdb\xc0\xc8\xf7\xbd", bytes "\x9f\xdd\xda\xe5\xf7", seqsize 7 4 - seqsize 4 4⟩,
   ⟨bytes "\xdc\xc8\xaf\xbd", bytes "\xaa\xc7\xda\xe5\xaf", seqsize 6 3 - seqsize 3 3⟩,
   ⟨bytes "\xdb\xc8\xaf\xbd", bytes "\x9f\xc7\xda\xe5\xaf", seqsize 6 3 - seqsize 3 3⟩,
   ⟨bytes "\xe3\xd7\xd0", bytes "\x9c\xde!", seqsize 4 1 - seqsize 2 0⟩,
   ⟨bytes "\xe3\xbd", bytes "\x9c\xda!", seqsize 3 1 - seqsize 2 0⟩,
   ⟨bytes "\xbe\x93\xd7\xd0", bytes "\x9c\xde\xe5\x85", seqsize 4 1 - seqsize 2 1⟩,
   ⟨bytes "\xbe\x93\xbd", bytes "\x9c\xda\xe5\x85", seqsize 3 1 - seqsize 2 1⟩,
   ⟨bytes "\xdc\xc0\x9c", bytes "\xaa\xdd", seqsize 5 3 - seqsize 3 3⟩,
   ⟨bytes "\xdb\xc0\x9c", bytes "\x9f\xdd", seqsize 5 3 - seqsize 3 3⟩,
   ⟨bytes "\x99lcl\x84\x8e\x97ack -\xd9\x9f\x83\xaf\x97or\x90\x96\xa4", bytes "\x99lcl\x84\x8e\xd1\xaf\xa4", seqsize 3 3 - seqsize 1 1⟩,
   ⟨bytes "\x99lcl\x84\x8e\x97ack -\xd9\xeb\x97or\x90\x96\xa4", bytes "\x99lcl\x84\x8e\xd1 0!\xa4", seqsize 3 2 - seqsize 1 1⟩,
   ⟨bytes "\xa0\xd5\x9c", bytes "\xe9\x8f\xd5", seqsize 3 1 - seqsize 2 1⟩,
   ⟨bytes "\xa0\xcd\x9c", bytes "\xe9\x8f\xcd", seqsize 3 1 - seqsize 2 1⟩,
   ⟨bytes "\xa0\xce\x9c", bytes "\xe9\x8f\xce", seqsize 3 1 - seqsize 2 1⟩,
   ⟨bytes "\xa0\xeb\x9c", bytes "\xe9\x8f\xeb", seqsize 3 0 - seqsize 2 0⟩,
   ⟨bytes "\xa0\x8b\xe1\x9c", bytes "\xe9\x8f\x8b\xe1", seqsize 3 0 - seqsize 2 0⟩,
   ⟨bytes "\xa0\x9c", bytes "\xe9\x8f", seqsize 2 0 - seqsize 1 0⟩,
   ⟨bytes "\xce\x9f\xc9\xa0\xea", bytes "\xd1\x85\xd1\x8e", seqsize 4 2 - seqsize 2 2⟩,
   ⟨bytes "\xce\x9f\xc9\xea\xa0", bytes "\xd1\x8e\xd1\x85", seqsize 4 2 - seqsize 2 2⟩,
   ⟨bytes "\xce\x8b\xc9\xa0\xea", bytes "\xd1\x85\x92\x8e", seqsize 4 2 - seqsize 2 2⟩,
   ⟨bytes "\xce\x8b\xc9\xea\xa0", bytes "\x92\x8e\xd1\x85", seqsize 4 2 - seqsize 2 2⟩,
   ⟨bytes "\xcd\x9f\xc9\xa0\xea", bytes "\x92\x85\xd1\x8e", seqsize 4 2 - seqsize 2 2⟩,
   ⟨bytes "\xcd\x9f\xc9\xea\xa0", bytes "\xd1\x8e\x92\x85", seqsize 4 2 - seqsize 2 2⟩,
   ⟨bytes "\xcd\x8b\xc9\xa0\xea", bytes "\x92\x85\x92\x8e", seqsize 4 2 - seqsize 2 2⟩,
   ⟨bytes "\xcd\x8b\xc9\xea\xa0", bytes "\x92\x8e\x92\x85", seqsize 4 2 - seqsize 2 2⟩,
   ⟨bytes "\x94\xad\xe7", bytes "\x92\x90\x85\xe7", seqsize 2 1 - seqsize 1 1⟩,
   ⟨bytes "\x8b\xad\xe7", bytes "\x92\x85\xe7", seqsize 2 1 - seqsize 1 1⟩,
   ⟨bytes "\x9f\xad\xe7", bytes "\xd1\x85\xe7", seqsize 2 1 - seqsize 1 1⟩,
   ⟨bytes "\xeb\xa0\xe7", bytes "\xd1 0!\xe7", seqsize 2 0 - seqsize 1 1⟩,
   ⟨bytes "\xaa\xad\xe7", bytes "\x92\xaa\x85\xe7", seqsize 2 1 - seqsize 1 1⟩,
   ⟨bytes "\xe9\x98\xa0", bytes "\xea", seqsize 2 0 - seqsize 1 0⟩,
   ⟨bytes "\xf1\xb8", bytes "\xfe\x85", seqsize 2 1 - seqsize 1 1⟩,
   ⟨bytes "\xf1sub!", bytes "\xfe -%1!", seqsize 2 1 - seqsize 1 1⟩,
   ⟨bytes "\xf1smul!", bytes "smu\xb9\x85", seqsize 2 1 - seqsize 1 1⟩,
   ⟨bytes "\xf1\xb5", bytes "\xac\xa7\x93", seqsize 2 1 - seqsize 1 1⟩,
   ⟨bytes "\xce\x94\xc9sub\x8f", bytes "\xa5\xfe -%1!", seqsize 3 2 - seqsize 2 2⟩,
   ⟨bytes "\xce\x8b\xc9sub\x8f", bytes "\xcf\xfe -%1!", seqsize 3 2 - seqsize 2 2⟩,
   ⟨bytes "\xfe\x85\xfe\x8e", bytes "\xfe\x84+%\x8c", seqsize 2 2 - seqsize 1 1⟩,
   ⟨bytes "\xb5\xc5", bytes "jn\xd6", seqsize 2 1 - seqsize 1 1⟩,
   ⟨bytes "\xb5jnz\x85", bytes "j\xd6", seqsize 2 1 - seqsize 1 1⟩,
   ⟨bytes "n\xb5\xc5", bytes "j\xd6", seqsize 2 1 - seqsize 1 1⟩,
   ⟨bytes "n\xb5jnz\x85", bytes "jn\xd6", seqsize 2 1 - seqsize 1 1⟩,
   ⟨bytes "l\xd3!\xc5", bytes "jg\xd6", seqsize 2 1 - seqsize 1 1⟩,
   ⟨bytes "l\xb5\xc5", bytes "jg\xd4r\x85", seqsize 2 1 - seqsize 1 1⟩,
   ⟨bytes "g\xd4\xc6\xc5", bytes "jl\xd6", seqsize 2 1 - seqsize 1 1⟩,
   ⟨bytes "g\xb5\xc5", bytes "jl\xd3\x85", seqsize 2 1 - seqsize 1 1⟩,
   ⟨bytes "\xf0\xc5", bytes "j\xc2\xd6", seqsize 2 1 - seqsize 1 1⟩,
   ⟨bytes "\xf3\xc5", bytes "j\xe2r\x85", seqsize 2 1 - seqsize 1 1⟩,
   ⟨bytes "\xf5\xc5", bytes "j\xc3\xd6", seqsize 2 1 - seqsize 1 1⟩,
   ⟨bytes "\xf2\xc5", bytes "j\xe0\x85", seqsize 2 1 - seqsize 1 1⟩,
   ⟨bytes "\xcc\x8fj\xd6", bytes "\xc5", seqsize 2 1 - seqsize 1 1⟩,
   ⟨bytes "\xcc\x8fjn\xd6", bytes "jnz\x85", seqsize 2 1 - seqsize 1 1⟩,
   ⟨bytes "\xfbc\x85\xcd\xa4", bytes "\xfbc\xb1", seqsize 2 2 - seqsize 1 1⟩,
   ⟨bytes "\xcd\xfbc\xb1", bytes "\xfbc\xb1", seqsize 2 2 - seqsize 1 1⟩,
   ⟨bytes "\xfb\xec\x85\xd5\xa4", bytes "\xfb\xec\xb1", seqsize 2 2 - seqsize 1 1⟩,
   ⟨bytes "\xd5\xfb\xec\xb1", bytes "\xfb\xec\xb1", seqsize 2 2 - seqsize 1 1⟩,
   ⟨bytes "\xf9c\x85\xcd\xa4", bytes "\xf9c\xb1", seqsize 2 2 - seqsize 1 1⟩,
   ⟨bytes "\xcd\xf9c\xb1", bytes "\xf9c\xb1", seqsize 2 2 - seqsize 1 1⟩,
   ⟨bytes "\xf9\xec\x85\xd5\xa4", bytes "\xf9\xec\xb1", seqsize 2 2 - seqsize 1 1⟩,
   ⟨bytes "\xd5\xf9\xec\xb1", bytes "\xf9\xec\xb1", seqsize 2 2 - seqsize 1 1⟩,
   ⟨bytes "\x9f\x83 0!\x97or\x93\xa4", bytes "\xcc\xb1", seqsize 2 2 - seqsize 1 1⟩,
   ⟨bytes "\x9f\x83 0!\x97or\x90\x93\xa4", bytes "\xcc\x90\xb1", seqsize 2 2 - seqsize 1 1⟩,
   ⟨bytes "\xeb\x97or\x93\xa4", bytes "\xcc\xb1", seqsize 2 1 - seqsize 1 1⟩,
   ⟨bytes "\xeb\x97or\x90\x93\xa4", bytes "\xcc\x90\xb1", seqsize 2 1 - seqsize 1 1⟩,
   ⟨bytes "\x9f\x83 0!", bytes "\xeb", seqsize 1 1 - seqsize 1 0⟩,
   ⟨bytes "\x9f\x89 0!", bytes "\xcc\x8f", seqsize 1 1 - seqsize 1 0⟩]

/-- The loop of `strexpand`, from the stack and the rest of the text on; `turns` bounds it. -/
def expandLoop (pairtable : List (Byte × Byte)) : Nat → List Byte → List Byte → Option (List Byte)
  | 0, _, _ => none
  | turns + 1, c :: stack, source =>
      if 127 < c then do
        let pair ← pairtable[c.toNat - 128]?
        expandLoop pairtable turns (pair.1 :: pair.2 :: stack) source
      else (c :: ·) <$> expandLoop pairtable turns stack source
  | turns + 1, [], c :: source => expandLoop pairtable turns [c] source
  | _ + 1, [], [] => some []

def strexpand (source : List Byte) (pairtable : List (Byte × Byte)) : Option (List Byte) :=
  expandLoop pairtable 512 [] source

/-- The sequences that `phopt_init` leaves in memory. -/
def phoptInit : Option (List Sequence) :=
  sequencesCmp.mapM fun s => do
    return ⟨← strexpand s.find sequencesTable, ← strexpand s.replace sequencesTable, s.savesize⟩

/-- A parameter in a pattern: a symbol, its negative, the sum of two, or text. -/
inductive Operand
  | var (i : Nat)
  | neg (i : Nat)
  | sum (i j : Nat)
  | text (t : List Byte)
deriving DecidableEq

structure Line where
  name : List Byte
  args : List Operand
deriving DecidableEq

def Operand.read : List Byte → Operand
  | [37, d] => .var (d.toNat - 49)
  | [45, 37, d] => .neg (d.toNat - 49)
  | [37, d, 43, 37, e] => .sum (d.toNat - 49) (e.toNat - 49)
  | t => .text t

def Line.read (text : List Byte) : Line :=
  match text.splitOn 32 with
  | [] => ⟨[], []⟩
  | name :: args => ⟨name, args.map Operand.read⟩

/-- The lines of a pattern; each ends with an exclamation mark. -/
def readPattern (pattern : List Byte) : List Line := (pattern.splitOn 33).dropLast.map Line.read

def Operand.print : Operand → List Byte
  | var i => [37, BitVec.ofNat 8 (49 + i)]
  | neg i => [45, 37, BitVec.ofNat 8 (49 + i)]
  | sum i j => [37, BitVec.ofNat 8 (49 + i), 43, 37, BitVec.ofNat 8 (49 + j)]
  | text t => t

def Line.print (line : Line) : List Byte :=
  line.name ++ (line.args.flatMap fun arg => 32 :: arg.print) ++ [33]

def printPattern (lines : List Line) : List Byte := lines.flatMap Line.print

structure Rule where
  find : List Line
  replace : List Line
  savesize : Nat
deriving DecidableEq

def Sequence.rule (s : Sequence) : Rule := ⟨readPattern s.find, readPattern s.replace, s.savesize⟩

def Rule.sequence (r : Rule) : Sequence := ⟨printPattern r.find, printPattern r.replace, r.savesize⟩

def rules : List Rule := ((phoptInit).getD []).map Sequence.rule

theorem phoptInit_eq : phoptInit = some (rules.map Rule.sequence) := by
  decide +kernel

end AmxModC.Compiler.Peephole
