import Mathlib.Logic.Function.Basic
import AmxModC.Foundation.CString

namespace AmxModC.Trie

open Foundation

/-! The double-array trie of sm_trie_tpl.h. -/

inductive NodeType
  | unused
  | arc
  | term
deriving DecidableEq

structure KTrieNode (K : Type) where
  idx : Nat
  parent : Nat
  /-- `none` while `valset` is false. -/
  value : Option K
  mode : NodeType

def KTrieNode.zero {K : Type} : KTrieNode K := ⟨0, 0, none, .unused⟩

/-- `m_base` has the entries up to `m_baseSize`, `m_stringtab` has `m_stSize`
bytes, and `m_empty` is `none` while it is `NULL`. -/
structure KTrie (K : Type) where
  base : Nat → KTrieNode K
  empty : Option (Option K)
  stringtab : List Byte
  baseSize : Nat
  tail : Nat
  numElements : BitVec 32

namespace KTrie

variable {K : Type}

def setNode (t : KTrie K) (i : Nat) (node : KTrieNode K) : KTrie K :=
  { t with base := Function.update t.base i node }

def setIdx (t : KTrie K) (i idx : Nat) : KTrie K := t.setNode i { t.base i with idx }

def setValue (t : KTrie K) (i : Nat) (value : Option K) : KTrie K :=
  t.setNode i { t.base i with value }

def addElement (t : KTrie K) : KTrie K := { t with numElements := t.numElements + 1 }

def internalClear (t : KTrie K) : KTrie K :=
  { t with
    tail := 0
    numElements := 0
    base := fun i =>
      if i = 1 then ⟨1, 1, none, .arc⟩ else if i ≤ t.baseSize then .zero else t.base i
    stringtab := List.replicate t.stringtab.length 0 }

def create : KTrie K :=
  internalClear ⟨fun _ => .zero, none, List.replicate 256 uninitialised, 256, 0, 0⟩

def string (t : KTrie K) (offset : Nat) : List Byte :=
  (t.stringtab.drop offset).takeWhile (· ≠ 0)

/-- The loop of `internal_retrieve` from the node `lastidx`. -/
def walk (t : KTrie K) (lastidx : Nat) : List Byte → Option Nat
  | [] => none
  | c :: keyptr =>
      let curidx := (t.base lastidx).idx + c.toNat
      let node := t.base curidx
      if curidx > t.baseSize ∨ node.mode = .unused ∨ node.parent ≠ lastidx then none
      else if node.mode = .term then
        if keyptr = t.string node.idx then some curidx else none
      else if keyptr = [] then some curidx
      else t.walk curidx keyptr

/-! `grow`, `x_addstring` and the three searches for a free place. -/

def grow (t : KTrie K) : KTrie K :=
  { t with
    base := fun i => if t.baseSize < i ∧ i ≤ t.baseSize * 2 then .zero else t.base i
    baseSize := t.baseSize * 2 }

/-- `m_stSize` once it is above `need`. -/
def doubled (need : Nat) : Nat → Nat → Nat
  | 0, size => size
  | turns + 1, size => if need ≥ size then doubled need turns (size * 2) else size

def addstring (t : KTrie K) (ptr : List Byte) : KTrie K × Nat :=
  let len := ptr.length + 1
  let stSize := t.stringtab.length
  let stringtab := t.stringtab ++
    List.replicate (doubled (t.tail + len) (t.tail + len + 1) stSize - stSize) uninitialised
  ({ t with
      stringtab := stringtab.take t.tail ++ (ptr ++ [0]) ++ stringtab.drop (t.tail + len)
      tail := t.tail + len },
    t.tail)

def isFree (t : KTrie K) (offsets : List Nat) (i : Nat) : Bool :=
  offsets.all fun offset => (t.base (i + offset)).mode = .unused

/-- The search from `start`; where it fails the array grows, and once is enough. -/
def search (offsets : List Nat) : Nat → KTrie K → Nat → KTrie K × Nat
  | 0, t, _ => (t, 0)
  | turns + 1, t, start =>
      let toCheck := t.baseSize - offsets.foldl max 0
      match (List.range' start (toCheck + 1 - start)).find? (t.isFree offsets) with
      | some i => (t, i)
      | none => search offsets turns t.grow (toCheck + 1)

def checkMulti (t : KTrie K) (offsets : List Nat) : KTrie K × Nat := search offsets 2 t 1

def check (t : KTrie K) (c : Byte) : KTrie K × Nat := t.checkMulti [c.toNat]

def check2 (t : KTrie K) (c1 c2 : Byte) : KTrie K × Nat := t.checkMulti [c1.toNat, c2.toNat]

/-! `insert` -/

def place (t : KTrie K) (i lastidx : Nat) (keyptr : List Byte) (obj : K) : KTrie K :=
  match keyptr with
  | [] => t.setNode i { t.base i with parent := lastidx, mode := .arc, value := some obj }
  | _ =>
      let (t, idx) := t.addstring keyptr
      t.setNode i { t.base i with idx, parent := lastidx, mode := .term, value := some obj }

def arcs (t : KTrie K) (node : Nat) : List Nat :=
  let base := (t.base node).idx
  let limit := if base + 255 > t.baseSize then t.baseSize - base else 255
  (List.range' 1 limit).filter fun i =>
    (t.base (base + i)).mode ≠ .unused ∧ (t.base (base + i)).parent = node

def moveNode (t : KTrie K) (oldidx newidx : Nat) : KTrie K :=
  let t := (t.setNode newidx (t.base oldidx)).setNode oldidx .zero
  let node := t.base newidx
  if node.mode = .arc then
    let limit := min (t.baseSize - node.idx) 255
    { t with
      base := fun i =>
        if node.idx < i ∧ i ≤ node.idx + limit ∧ (t.base i).parent = oldidx then
          { t.base i with parent := newidx }
        else t.base i }
  else t

/-- Move a family of arcs to another base; `lastidx` may be one of them. -/
def relocate (t : KTrie K) (oldbase q : Nat) (offsets : List Nat) (lastidx : Nat) :
    KTrie K × Nat :=
  offsets.foldl
    (fun (t, lastidx) idx =>
      (t.moveNode (oldbase + idx) (q + idx),
        if oldbase + idx = lastidx then q + idx else lastidx))
    (t, lastidx)

/-- Case 4 moves the arcs that share a parent with the occupant of the slot, unless
the arcs leaving `lastidx`, with the new one, are fewer. -/
def movesIncoming (t : KTrie K) (lastidx curidx : Nat) : Bool :=
  (t.arcs (t.base curidx).parent).length < (t.arcs lastidx).length + 2

def collide (t : KTrie K) (lastidx curidx : Nat) (keyptr : List Byte) (obj : K) : KTrie K :=
  let outgoingBase := (t.base lastidx).idx
  let outgoing := t.arcs lastidx
  let parent := (t.base curidx).parent
  let incomingBase := (t.base parent).idx
  let incoming := t.arcs parent
  if t.movesIncoming lastidx curidx then
    let (t, q) := t.checkMulti incoming
    let t := t.setIdx parent q
    let (t, lastidx) := t.relocate incomingBase q incoming lastidx
    t.place curidx lastidx keyptr obj
  else
    let c := curidx - outgoingBase
    let (t, q) := t.checkMulti (outgoing ++ [c])
    let t := t.setIdx lastidx q
    let (t, lastidx) := t.relocate outgoingBase q outgoing lastidx
    t.place (q + c) lastidx keyptr obj

def byteAt (t : KTrie K) (offset : Nat) : Byte := t.stringtab.getD offset 0

structure Split (K : Type) where
  trie : KTrie K
  curidx : Nat
  term : Nat
  keyptr : List Byte

def disband (t : KTrie K) (curidx term : Nat) : List Byte → Split K
  | [] => ⟨t, curidx, term, []⟩
  | c :: keyptr =>
      if t.byteAt term = c then
        let (t, q) := t.check c
        let t := t.setNode curidx { t.base curidx with idx := q, mode := .arc, value := none }
        let nextidx := q + c.toNat
        let t := t.setNode nextidx { t.base nextidx with parent := curidx, mode := .arc }
        let t := { t with stringtab := t.stringtab.set term 0 }
        disband t nextidx (term + 1) keyptr
      else ⟨t, curidx, term, c :: keyptr⟩

def placeOld (t : KTrie K) (i lastidx term : Nat) (value : Option K) : KTrie K :=
  if t.byteAt term = 0 then
    t.setNode i { t.base i with parent := lastidx, mode := .arc, value }
  else t.setNode i { t.base i with idx := term, parent := lastidx, mode := .term, value }

def rebase (t : KTrie K) (i q : Nat) : KTrie K :=
  t.setNode i { t.base i with idx := q, mode := .arc }

def endSplit (split : Split K) (oldvalue : Option K) (obj : K) : KTrie K :=
  let ⟨t, curidx, term, keyptr⟩ := split
  let k := keyptr.headD 0
  let c := t.byteAt term
  if c = 0 then
    let t := t.setValue curidx oldvalue
    let (t, q) := t.check k
    (t.rebase curidx q).place (q + k.toNat) curidx keyptr.tail obj
  else if keyptr = [] then
    let t := t.setValue curidx (some obj)
    let (t, q) := t.check c
    (t.rebase curidx q).placeOld (q + c.toNat) curidx (term + 1) oldvalue
  else
    let t := t.setNode curidx { t.base curidx with mode := .arc }
    let (t, q) := t.check2 k c
    let t := (t.setIdx curidx q).placeOld (q + c.toNat) curidx (term + 1) oldvalue
    t.place (q + k.toNat) curidx keyptr.tail obj

def splitTerm (t : KTrie K) (curidx : Nat) (keyptr : List Byte) (obj : K) : KTrie K :=
  let node := t.base curidx
  let split :=
    if t.byteAt node.idx = keyptr.headD 0 then t.disband curidx node.idx keyptr
    else ⟨t.setValue curidx none, curidx, node.idx, keyptr⟩
  endSplit split node.value obj

def insertFrom (t : KTrie K) (obj : K) (lastidx : Nat) : List Byte → KTrie K × Bool
  | [] => (t, false)
  | c :: keyptr =>
      let curidx := (t.base lastidx).idx + c.toNat
      let node := t.base curidx
      if curidx > t.baseSize ∨ node.mode = .unused then
        let t := if curidx > t.baseSize then t.grow else t
        ((t.place curidx lastidx keyptr obj).addElement, true)
      else if node.parent ≠ lastidx then
        ((t.collide lastidx curidx keyptr obj).addElement, true)
      else if node.mode = .term then
        if keyptr = t.string node.idx then
          if node.value.isSome then (t, false)
          else ((t.setValue curidx (some obj)).addElement, true)
        else ((t.splitTerm curidx keyptr obj).addElement, true)
      else if keyptr = [] then
        if node.value.isSome then (t, false)
        else ((t.setValue curidx (some obj)).addElement, true)
      else t.insertFrom obj curidx keyptr

def insert (t : KTrie K) (key : CString) (obj : K) : KTrie K × Bool :=
  match key.bytes with
  | [] =>
      if t.empty.join.isSome then (t, false)
      else (addElement { t with empty := some (some obj) }, true)
  | bytes => t.insertFrom obj 1 bytes

def overwritesRoot (t : KTrie K) (lastidx : Nat) : List Byte → Bool
  | [] => false
  | c :: keyptr =>
      let curidx := (t.base lastidx).idx + c.toNat
      if curidx = 1 then t.movesIncoming lastidx curidx
      else
        curidx ≤ t.baseSize && (t.base curidx).mode = .arc && (t.base curidx).parent = lastidx &&
          t.overwritesRoot curidx keyptr

/-! Lookups. -/

/-- What `internal_retrieve` points to: `m_empty` or an entry of the base array. -/
inductive Target
  | empty
  | node (i : Nat)

def internalRetrieve (t : KTrie K) (key : CString) : Option Target :=
  match key.bytes with
  | [] => t.empty.map fun _ => .empty
  | bytes => (t.walk 1 bytes).map .node

def valueOf (t : KTrie K) : Target → Option K
  | .empty => t.empty.join
  | .node i => (t.base i).value

def setValueOf (t : KTrie K) (target : Target) (value : Option K) : KTrie K :=
  match target with
  | .empty => { t with empty := some value }
  | .node i => t.setValue i value

def retrieve (t : KTrie K) (key : CString) : Option K :=
  (t.internalRetrieve key).bind t.valueOf

def remove (t : KTrie K) (key : CString) : KTrie K × Bool :=
  match t.internalRetrieve key with
  | none => (t, false)
  | some target =>
      if (t.valueOf target).isSome then
        ({ t.setValueOf target none with numElements := t.numElements - 1 }, true)
      else (t, false)

/-- A node that is there without a value keeps `valset` false: the object copied
into it stays out of sight. -/
def replace (t : KTrie K) (key : CString) (obj : K) : KTrie K × Bool :=
  match t.internalRetrieve key with
  | none => t.insert key obj
  | some target =>
      if (t.valueOf target).isSome then (t.setValueOf target (some obj), true) else (t, true)

def clear (t : KTrie K) : KTrie K := t.internalClear

def size (t : KTrie K) : BitVec 32 := t.numElements

end KTrie

end AmxModC.Trie
