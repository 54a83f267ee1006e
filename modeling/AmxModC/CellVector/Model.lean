import AmxModC.Foundation.Block
import AmxModC.Machine

namespace AmxModC

/-- `CellVector` of datastructs.h.  `data` is the allocated block, `none` a null
pointer. -/
structure CellVector where
  data : Option (List Cell)
  cellcount : Nat
  cursize : Nat
  count : Nat
deriving Repr, DecidableEq

namespace CellVector

open Foundation

structure Outcome where
  result : Nat
  output : List Cell := []
deriving Repr, DecidableEq

abbrev Garbage := Nat → Cell

def malloc (garbage : Garbage) (size : Nat) : List Cell :=
  (List.range size).map garbage

def realloc (garbage : Garbage) (old : List Cell) (size : Nat) : Option (List Cell) :=
  if size = 0 then none
  else some (old.take size ++ (List.range (size - old.length)).map garbage)

def create (cellsize : Nat) : CellVector := ⟨none, cellsize, 0, 0⟩

def block (v : CellVector) : List Cell := v.data.getD []

/-- Read or write through a pointer into `data`: not possible outside it. -/
def load (v : CellVector) (start size : Nat) : Option (List Cell) :=
  Block.read v.block start size

def store (v : CellVector) (start : Nat) (cells : List Cell) : Option CellVector :=
  (Block.write v.block start cells).map fun block => { v with data := some block }

def grow (garbage : Garbage) (v : CellVector) (howmany : Nat) : CellVector :=
  let cursize := v.cursize + howmany
  { v with
    cursize := cursize
    data := match v.data with
      | some old => realloc garbage old (v.cellcount * cursize)
      | none => some (malloc garbage (v.cellcount * cursize)) }

def freeUnused (garbage : Garbage) (v : CellVector) : CellVector :=
  if v.cursize ≠ v.count then
    match v.data with
    | some old =>
        { v with
          cursize := v.count
          data := realloc garbage old (v.count * v.cellcount) }
    | none => v
  else v

def getArray (v : CellVector) (which : Nat) : Option Outcome :=
  if which ≥ v.count then some ⟨0, []⟩
  else do
    let cells ← v.load (v.cellcount * which) v.cellcount
    some ⟨1, cells⟩

def getCell (v : CellVector) (which : Nat) : Option Outcome :=
  if which ≥ v.count then some ⟨0, []⟩
  else do
    let cells ← v.load (v.cellcount * which) 1
    some ⟨1, cells⟩

/-- `size` after `size--` on zero. -/
def sizeMax : Nat := 2 ^ 32 - 1

/-- The copying loop of `GetString`: the cells copied, the source pointer and the
value of `size` when the loop condition fails.  `size` is tested first, then the
number of cells left, and the copy itself comes last. -/
def copyString (v : CellVector) : (out size count : Nat) → Option (List Cell × Nat × Nat)
  | out, 0, _ => some ([], out, sizeMax)
  | out, size + 1, 0 => some ([], out, size)
  | out, size + 1, count + 1 => do
      let cell ← v.block[out]?
      if cell ≠ 0 then
        let (copied, out, size) ← v.copyString (out + 1) size count
        some (cell :: copied, out, size)
      else
        some ([cell], out + 1, size)

def getString (v : CellVector) (which size : Nat) : Option (Outcome × CellVector) :=
  if which ≥ v.count then some (⟨0, []⟩, v)
  else do
    let (copied, out, size) ← v.copyString (v.cellcount * which) size v.cellcount
    -- The source pointer, not the output one, receives the terminator.
    let v ← if size = 0 then v.store out [0] else some v
    some (⟨1, copied⟩, v)

/-- `source` is the plugin memory the native's array parameter points to. -/
def setArray (v : CellVector) (which : Nat) (source : Nat → Cell) :
    Option (Outcome × CellVector) :=
  if which ≥ v.count then some (⟨0, []⟩, v)
  else do
    let v ← v.store (v.cellcount * which) ((List.range v.cellcount).map source)
    some (⟨1, []⟩, v)

def setCell (v : CellVector) (which : Nat) (output : Cell) :
    Option (Outcome × CellVector) :=
  if which ≥ v.count then some (⟨0, []⟩, v)
  else do
    let v ← v.store (v.cellcount * which) [output]
    some (⟨1, []⟩, v)

def setString (v : CellVector) (which : Nat) (source : Nat → Cell) :
    Option (Outcome × CellVector) :=
  if which ≥ v.count then some (⟨0, []⟩, v)
  else do
    let v ← v.store (v.cellcount * which) ((List.range v.cellcount).map source)
    let v ← v.store (v.cellcount * which + (v.cellcount - 1)) [0]
    some (⟨1, []⟩, v)

def push (garbage : Garbage) (v : CellVector) : Outcome × CellVector :=
  let v := if v.count ≥ v.cursize then v.grow garbage 8 else v
  (⟨v.count, []⟩, { v with count := v.count + 1 })

def clear (garbage : Garbage) (v : CellVector) : CellVector :=
  { v with data := some (malloc garbage v.cellcount), cursize := 1, count := 0 }

def getCellPointer (v : CellVector) (which : Nat) : Option Nat :=
  if which ≥ v.count then none else some (which * v.cellcount)

def shiftUpFrom (garbage : Garbage) (v : CellVector) (which : Nat) :
    Option (Outcome × CellVector) :=
  if which > v.count then some (⟨0, []⟩, v)
  else
    let v := (v.push garbage).2
    if which = v.count ∨ which = v.count - 1 then some (⟨1, []⟩, v)
    else do
      let source ← v.getCellPointer which
      let temp ← v.load source (v.cellcount * (v.count - which))
      let target ← v.getCellPointer (which + 1)
      let v ← v.store target temp
      some (⟨1, []⟩, v)

/-- `memcpy(GetCellPointer(target), GetCellPointer(source), ..)` of one record. -/
def copyItem (v : CellVector) (target source : Nat) : Option CellVector := do
  let target ← v.getCellPointer target
  let source ← v.getCellPointer source
  let cells ← v.load source v.cellcount
  v.store target cells

def deleteLoop (v : CellVector) (i : Nat) : (steps : Nat) → Option CellVector
  | 0 => some v
  | steps + 1 => do
      let v ← v.copyItem i (i + 1)
      v.deleteLoop (i + 1) steps

def delete (v : CellVector) (which : Nat) : Option (Outcome × CellVector) :=
  if which ≥ v.count then some (⟨0, []⟩, v)
  else do
    let v ← v.deleteLoop which (v.count - 1 - which)
    some (⟨1, []⟩, { v with count := v.count - 1 })

def swap (v : CellVector) (item1 item2 : Nat) : Option (Outcome × CellVector) :=
  if item1 ≥ v.count ∨ item2 ≥ v.count then some (⟨0, []⟩, v)
  else do
    let second ← v.getCellPointer item2
    let temp ← v.load second v.cellcount
    let v ← v.copyItem item2 item1
    let first ← v.getCellPointer item1
    let v ← v.store first temp
    some (⟨1, []⟩, v)

/-- One call on a vector.  The `insert` operations are `ShiftUpFrom` followed by
writing the opened slot, as the insert natives do it. -/
inductive Op where
  | grow (garbage : Garbage) (howmany : Nat)
  | freeUnused (garbage : Garbage)
  | clear (garbage : Garbage)
  | push (garbage : Garbage)
  | getArray (which : Nat)
  | getCell (which : Nat)
  | getString (which size : Nat)
  | setArray (which : Nat) (source : Nat → Cell)
  | setCell (which : Nat) (value : Cell)
  | setString (which : Nat) (source : Nat → Cell)
  | shiftUpFrom (garbage : Garbage) (which : Nat)
  | insertArray (garbage : Garbage) (which : Nat) (source : Nat → Cell)
  | insertCell (garbage : Garbage) (which : Nat) (value : Cell)
  | insertString (garbage : Garbage) (which : Nat) (source : Nat → Cell)
  | delete (which : Nat)
  | swap (item1 item2 : Nat)

/-- `ShiftUpFrom`, and when it succeeds the given write to the opened slot. -/
def insertWith (set : CellVector → Option (Outcome × CellVector)) (garbage : Garbage)
    (v : CellVector) (which : Nat) : Option (Outcome × CellVector) := do
  let (shifted, v) ← v.shiftUpFrom garbage which
  if shifted.result = 1 then set v else some (shifted, v)

def step (v : CellVector) : Op → Option (Outcome × CellVector)
  | .grow garbage howmany => some (⟨0, []⟩, v.grow garbage howmany)
  | .freeUnused garbage => some (⟨0, []⟩, v.freeUnused garbage)
  | .clear garbage => some (⟨0, []⟩, v.clear garbage)
  | .push garbage => some (v.push garbage)
  | .getArray which => (v.getArray which).map (·, v)
  | .getCell which => (v.getCell which).map (·, v)
  | .getString which size => v.getString which size
  | .setArray which source => v.setArray which source
  | .setCell which value => v.setCell which value
  | .setString which source => v.setString which source
  | .shiftUpFrom garbage which => v.shiftUpFrom garbage which
  | .insertArray garbage which source =>
      insertWith (·.setArray which source) garbage v which
  | .insertCell garbage which value =>
      insertWith (·.setCell which value) garbage v which
  | .insertString garbage which source =>
      insertWith (·.setString which source) garbage v which
  | .delete which => v.delete which
  | .swap item1 item2 => v.swap item1 item2

end CellVector

end AmxModC
