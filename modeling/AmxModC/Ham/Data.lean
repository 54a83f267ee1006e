import AmxModC.Foundation.CString
import AmxModC.Machine
import AmxModC.Foundation.Run
import AmxModC.Strings.Copies
import Mathlib.Data.List.Forall2

namespace AmxModC.Ham

open Foundation

/-! DataHandler.h: the parameters and the return value of a hooked call, as the natives read
and write them, and what the callback passes on. -/

/-- The `RET_` constants. -/
inductive DataType
  | void
  | integer
  | float
  | vector
  | string
  | cbase
  | entvar
  | trace
  | itemInfo
deriving DecidableEq

/-- The pointers that the slots have to do with: to a variable of the callback, to the private
data or the `entvars_t` of the edict of an index, and to an object without an edict. -/
inductive Pointer
  | null
  | variable
  | privateData (index : Cell)
  | entvars (index : Cell)
  | loose (object : Nat)
deriving DecidableEq

/-- What `m_data` points to; floats by their bits, strings by the bytes before the NUL. -/
inductive Variable
  | int (value : Cell)
  | real (bits : Cell)
  | vector (x y z : Cell)
  | string (chars : List Byte)
  | pointer (p : Pointer)
deriving DecidableEq

/-- Whether the edict of an index has private data; `none` where there is no edict. -/
abbrev Edicts := Cell → Option Bool

def indexToPrivate (edicts : Edicts) (index : Cell) : Option Pointer :=
  (edicts index).map fun has => if has then .privateData index else .null

def indexToEntvar (index : Cell) : Pointer := .entvars index

/-- `none` reads memory that is no private data. -/
def privateToIndex : Pointer → Option Cell
  | .null | .loose _ => some (-1)
  | .privateData index => some index
  | .variable | .entvars _ => none

def entvarToIndex : Pointer → Option Cell
  | .null | .loose _ => some (-1)
  | .entvars index => some index
  | .variable | .privateData _ => none

/-- `index` is what `m_index` points to. -/
structure Data where
  type : DataType
  data : Option Variable
  index : Option Cell
deriving DecidableEq

namespace Data

/-- `Data(int type, void *ptr)` -/
def create (type : DataType) (ptr : Option Variable) : Data := ⟨type, ptr, none⟩

/-- `Data(int type, void *ptr, int *cptr)`, which has no use for its last argument. -/
def createWith (type : DataType) (ptr : Option Variable) (_cptr : Cell) : Data :=
  ⟨type, ptr, none⟩

def isSet (d : Data) : Bool := d.type ≠ .void && d.data.isSome

/-- `m_data` itself -/
def address (d : Data) : Pointer := if d.data.isSome then .variable else .null

def write (d : Data) (v : Variable) : Data := { d with data := some v }

def assign (d : Data) (v : Option Variable) : Data := { d with data := v }

/-- A code below 0 is a failure; `none` is an access to memory that is not there. -/
def setInt (d : Data) (value : Cell) : Int × Data :=
  if !d.isSet then (-2, d)
  else if d.type = .integer then (0, d.write (.int value))
  else if d.type = .trace then (0, d.write (.int value))
  else (-1, d)

def setFloat (d : Data) (value : Cell) : Int × Data :=
  if !d.isSet then (-2, d)
  else if d.type ≠ .float then (-1, d)
  else (0, d.write (.real value))

def setVector (d : Data) (x y z : Cell) : Int × Data :=
  if !d.isSet then (-2, d)
  else if d.type ≠ .vector then (-1, d)
  else (0, d.write (.vector x y z))

/-- The characters up to the first that is 0 as a `char`. -/
def stringChars (data : List Cell) : List Byte :=
  ((data.takeWhile (· ≠ 0)).map (·.truncate 8)).takeWhile (· ≠ 0)

def setString (d : Data) (data : List Cell) : Int × Data :=
  if !d.isSet then (-2, d)
  else if d.type ≠ .string then (-1, d)
  else (0, d.write (.string (stringChars data)))

/-- `if (m_index != 0) *m_index=*data` -/
def writeIndex (d : Data) (value : Cell) : Data := { d with index := d.index.map fun _ => value }

def setEntity (edicts : Edicts) (d : Data) (value : Cell) : Option (Int × Data) :=
  if !d.isSet then some (-2, d)
  else if d.type = .cbase then
    (indexToPrivate edicts value).map fun p => (0, (d.write (.pointer p)).writeIndex value)
  else if d.type = .entvar then
    some (0, (d.write (.pointer (indexToEntvar value))).writeIndex value)
  else some (-1, d)

/-! The `Get` functions: a code and the cells written. -/

def readInt (d : Data) : Option (Int × List Cell) :=
  match d.data with
  | some (.int value) => some (0, [value])
  | _ => none

def getInt (d : Data) : Option (Int × List Cell) :=
  if !d.isSet then some (-2, [])
  else if d.type = .integer then d.readInt
  else if d.type = .trace then d.readInt
  else some (-1, [])

def getFloat (d : Data) : Option (Int × List Cell) :=
  if !d.isSet then some (-2, [])
  else if d.type ≠ .float then some (-1, [])
  else
    match d.data with
    | some (.real bits) => some (0, [bits])
    | _ => none

def getVector (d : Data) : Option (Int × List Cell) :=
  if !d.isSet then some (-2, [])
  else if d.type ≠ .vector then some (-1, [])
  else
    match d.data with
    | some (.vector x y z) => some (0, [x, y, z])
    | _ => none

/-- `while (len-- && (*data++=*i++)!='\0')` -/
def copyChars : Int → List Byte → List Cell
  | len, [] => if len = 0 then [] else [0]
  | len, c :: rest => if len = 0 then [] else c.signExtend 32 :: copyChars (len - 1) rest

def getString (d : Data) (len : Int) : Option (Int × List Cell) :=
  if !d.isSet then some (-2, [])
  else if d.type ≠ .string then some (-1, [])
  else
    match d.data with
    | some (.string chars) => some (0, copyChars len chars)
    | _ => none

/-- `m_data` is taken for the entity's own pointer. -/
def getEntity (d : Data) : Option (Int × List Cell) :=
  if !d.isSet then some (-2, [])
  else if d.type = .cbase then (privateToIndex d.address).map fun index => (0, [index])
  else if d.type = .entvar then (entvarToIndex d.address).map fun index => (0, [index])
  else some (-1, [])

end Data

/-! hook_callbacks.cpp: the slots of a callback. -/

inductive Target
  | none
  | entity (index : Cell)
  | loose (object : Nat)
deriving DecidableEq

namespace Target

def privateData : Target → Pointer
  | none => .null
  | entity index => .privateData index
  | loose object => .loose object

def entvars : Target → Pointer
  | none => .null
  | entity index => .entvars index
  | loose object => .loose object

end Target

/-- A parameter with its macro; the last two are pointers of the caller's, which may be null. -/
inductive Param
  | int (value : Cell)
  | float (bits : Cell)
  | vector (x y z : Cell)
  | str (chars : CString)
  | cbase (target : Target)
  | entvar (target : Target)
  | ptrFloat (target : Option Cell)
  | ptrVector (target : Option (Cell × Cell × Cell))
deriving DecidableEq

/-- A `Data`, and the variable of the callback with the index of an entity. -/
structure Slot where
  data : Data
  cptr : Cell
deriving DecidableEq

/-- `P_INT` to `P_PTRFLOAT` -/
def Param.slot : Param → Slot
  | int value => ⟨.create .integer (some (.int value)), 0⟩
  | float bits => ⟨.create .float (some (.real bits)), 0⟩
  | vector x y z => ⟨.create .vector (some (.vector x y z)), 0⟩
  | str chars => ⟨.create .string (some (.string chars.bytes)), 0⟩
  | cbase target =>
      let index := (privateToIndex target.privateData).getD 0
      ⟨.createWith .cbase (some (.pointer target.privateData)) index, index⟩
  | entvar target =>
      let index := (entvarToIndex target.entvars).getD 0
      ⟨.createWith .entvar (some (.pointer target.entvars)) index, index⟩
  | ptrFloat target => ⟨.create .float (target.map .real), 0⟩
  | ptrVector target => ⟨.create .vector (target.map fun v => .vector v.1 v.2.1 v.2.2), 0⟩

inductive Arg
  | cell (value : Cell)
  | array (x y z : Cell)
  | string (chars : List Byte)
  | nullArray
deriving DecidableEq

/-- The argument expressions between `PRE_START` and `PRE_END`; the index of an entity is
the callback's variable, which is what `m_index` would point to. -/
def Slot.arg (slot : Slot) : Arg :=
  match slot.data.data with
  | none => if slot.data.type = .float then .cell 0 else .nullArray
  | some (.int value) => .cell value
  | some (.real bits) => .cell bits
  | some (.vector x y z) => .array x y z
  | some (.string chars) => .string chars
  | some (.pointer _) => .cell (slot.data.index.getD slot.cptr)

inductive SlotAccess
  | setInt (value : Cell)
  | setFloat (value : Cell)
  | setVector (x y z : Cell)
  | setString (data : List Cell)
  | setEntity (value : Cell)
  | getInt
  | getFloat
  | getVector
  | getString (len : Int)
  | getEntity
deriving DecidableEq

/-- What an access tells: a code with the cells written, the arguments of a forward, or the
values that the original function is called with. -/
inductive Told
  | code (code : Int) (cells : List Cell)
  | args (args : List Arg)
  | values (values : List (Option Variable))
deriving DecidableEq

namespace Slot

def wrote (slot : Slot) (result : Int × Data) : Slot × Told :=
  ({ slot with data := result.2 }, .code result.1 [])

def read (slot : Slot) (result : Int × List Cell) : Slot × Told :=
  (slot, .code result.1 result.2)

def access (edicts : Edicts) (slot : Slot) : SlotAccess → Option (Slot × Told)
  | .setInt value => some (slot.wrote (slot.data.setInt value))
  | .setFloat value => some (slot.wrote (slot.data.setFloat value))
  | .setVector x y z => some (slot.wrote (slot.data.setVector x y z))
  | .setString data => some (slot.wrote (slot.data.setString data))
  | .setEntity value => (slot.data.setEntity edicts value).map slot.wrote
  | .getInt => slot.data.getInt.map slot.read
  | .getFloat => slot.data.getFloat.map slot.read
  | .getVector => slot.data.getVector.map slot.read
  | .getString len => (slot.data.getString len).map slot.read
  | .getEntity => slot.data.getEntity.map slot.read

end Slot

/-- The slots that the natives reach during a call, `pthis` the first of the parameters. -/
structure HookedCall (S : Type) where
  params : List S
  ret : S
  origret : S
deriving DecidableEq

inductive Place
  | ret
  | origret
  | param (number : Nat)
deriving DecidableEq

/-- What happens during a call: accesses of natives, the execution of a forward, and the
call of the original function with what it returns. -/
inductive Access
  | slot (place : Place) (access : SlotAccess)
  | forward
  | original (result : Option Param)
deriving DecidableEq

namespace HookedCall

variable {S : Type}

def atPlace (h : HookedCall S) : Place → Option S
  | .ret => some h.ret
  | .origret => some h.origret
  | .param number => h.params[number]?

def update (h : HookedCall S) (place : Place) (slot : S) : HookedCall S :=
  match place with
  | .ret => { h with ret := slot }
  | .origret => { h with origret := slot }
  | .param number => { h with params := h.params.set number slot }

def reach (h : HookedCall S) (place : Place) (f : S → Option (S × Told)) :
    HookedCall S × Option Told :=
  match h.atPlace place with
  | none => (h, some (.code 0 []))
  | some slot =>
      match f slot with
      | none => (h, none)
      | some (slot, told) => (h.update place slot, some told)

/-- `PUSH_*` and `MAKE_VECTOR`; `none` for a function that returns nothing. -/
def create (result : Option Param) (params : List Param) : HookedCall Slot :=
  let ret := result.elim ⟨.create .void none, 0⟩ Param.slot
  ⟨params.map Param.slot, ret, ret⟩

/-- `origret=` -/
def returned (h : HookedCall Slot) (result : Option Param) : HookedCall Slot :=
  match result with
  | none => h
  | some param =>
      if param.slot.data.type = h.origret.data.type then
        { h with origret := { h.origret with data := h.origret.data.assign param.slot.data.data } }
      else h

def call (edicts : Edicts) (h : HookedCall Slot) : Access → HookedCall Slot × Option Told
  | .slot place access => h.reach place fun slot => slot.access edicts access
  | .forward => (h, some (.args (h.params.map Slot.arg)))
  | .original result => (h.returned result, some (.values (h.params.map (·.data.data))))

end HookedCall

open Strings

/-! What the slots of a call are for: each holds a value of its type, which is what a read
returns, what every later forward gets and what the original function is called with. -/

inductive Kind
  | integer
  | float
  | vector
  | string
  | entity
deriving DecidableEq

def DataType.kind : DataType → Option Kind
  | .integer | .trace => some .integer
  | .float => some .float
  | .vector => some .vector
  | .string => some .string
  | .cbase | .entvar => some .entity
  | .void | .itemInfo => none

inductive Content
  | int (value : Cell)
  | float (bits : Cell)
  | vector (x y z : Cell)
  | string (cells : List Cell)
  | entity (p : Pointer) (index : Cell)
deriving DecidableEq

namespace Content

def kind : Content → Kind
  | int _ => .integer
  | float _ => .float
  | vector .. => .vector
  | string _ => .string
  | entity .. => .entity

def cells (len : Int) : Content → List Cell
  | int value => [value]
  | float bits => [bits]
  | vector x y z => [x, y, z]
  | string cells => if len ≤ 0 then [] else cells.take (len.toNat - 1) ++ [0]
  | entity _ index => [index]

def arg : Content → Arg
  | int value => .cell value
  | float bits => .cell bits
  | vector x y z => .array x y z
  | string cells => .string (Data.stringChars cells)
  | entity _ index => .cell index

def stored : Content → Variable
  | int value => .int value
  | float bits => .real bits
  | vector x y z => .vector x y z
  | string cells => .string (Data.stringChars cells)
  | entity p _ => .pointer p

end Content

/-- A slot by its value; `first` is the index of the entity that it began with. -/
structure Held where
  type : DataType
  content : Option Content
  first : Cell
deriving DecidableEq

namespace Held

/-- A `Set` of a kind, with the content that it makes. -/
def set (held : Held) (kind : Kind) (new : Option Content) : Option (Held × Told) :=
  if held.type = .void ∨ held.content = none then some (held, .code (-2) [])
  else if held.type.kind ≠ some kind then some (held, .code (-1) [])
  else new.map fun content => ({ held with content := some content }, .code 0 [])

def get (held : Held) (kind : Kind) (len : Int) : Option (Held × Told) :=
  match held.content with
  | none => some (held, .code (-2) [])
  | some content =>
      if held.type = .void then some (held, .code (-2) [])
      else if held.type.kind ≠ some kind then some (held, .code (-1) [])
      else some (held, .code 0 (content.cells len))

def entity (edicts : Edicts) (type : DataType) (index : Cell) : Option Content :=
  if type = .cbase then (indexToPrivate edicts index).map (.entity · index)
  else some (.entity (indexToEntvar index) index)

def access (edicts : Edicts) (held : Held) : SlotAccess → Option (Held × Told)
  | .setInt value => held.set .integer (some (.int value))
  | .setFloat value => held.set .float (some (.float value))
  | .setVector x y z => held.set .vector (some (.vector x y z))
  | .setString data => held.set .string (some (.string (data.takeWhile (· ≠ 0))))
  | .setEntity value => held.set .entity (entity edicts held.type value)
  | .getInt => held.get .integer 0
  | .getFloat => held.get .float 0
  | .getVector => held.get .vector 0
  | .getString len => held.get .string len
  | .getEntity => held.get .entity 0

def arg (held : Held) : Arg :=
  match held.content with
  | none => if held.type = .float then .cell 0 else .nullArray
  | some content => content.arg

end Held

def Target.index : Target → Cell
  | none | loose _ => -1
  | entity index => index

def Param.held : Param → Held
  | int value => ⟨.integer, some (.int value), 0⟩
  | float bits => ⟨.float, some (.float bits), 0⟩
  | vector x y z => ⟨.vector, some (.vector x y z), 0⟩
  | str chars => ⟨.string, some (.string (toCells chars.bytes)), 0⟩
  | cbase target => ⟨.cbase, some (.entity target.privateData target.index), target.index⟩
  | entvar target => ⟨.entvar, some (.entity target.entvars target.index), target.index⟩
  | ptrFloat target => ⟨.float, target.map .float, 0⟩
  | ptrVector target => ⟨.vector, target.map fun v => .vector v.1 v.2.1 v.2.2, 0⟩

namespace HookedCall

def createHeld (result : Option Param) (params : List Param) : HookedCall Held :=
  let ret := result.elim ⟨.void, none, 0⟩ Param.held
  ⟨params.map Param.held, ret, ret⟩

def returnedHeld (h : HookedCall Held) (result : Option Param) : HookedCall Held :=
  match result with
  | none => h
  | some param =>
      if param.held.type = h.origret.type then
        { h with origret := { h.origret with content := param.held.content } }
      else h

def callHeld (edicts : Edicts) (h : HookedCall Held) : Access → HookedCall Held × Option Told
  | .slot place access => h.reach place fun held => held.access edicts access
  | .forward => (h, some (.args (h.params.map Held.arg)))
  | .original result =>
      (h.returnedHeld result, some (.values (h.params.map (·.content.map Content.stored))))

end HookedCall

/-- Where a slot is read and passed on as what it holds: no entity is read, every entity
that is passed on is the one of the beginning, and a string that is read is shorter than
the buffer and has, as far as the buffer goes, no cell that is not a `char`. -/
def Held.Reads (held : Held) : SlotAccess → Prop
  | .getEntity => held.type.kind ≠ some .entity ∨ held.content = none
  | .getString len => ∀ cells, held.content = some (.string cells) →
      len = 0 ∨ (Data.stringChars cells).length < len ∧
        toCells (Data.stringChars cells) = cells.take (len.toNat - 1)
  | _ => True

def Held.Unchanged (held : Held) : Prop :=
  ∀ p index, held.content = some (.entity p index) → index = held.first

def SlotsKept (h : HookedCall Held) : Access → Prop
  | .slot place access => ∀ held, h.atPlace place = some held → held.Reads access
  | .forward => ∀ held ∈ h.params, held.Unchanged
  | .original _ => True

end AmxModC.Ham
