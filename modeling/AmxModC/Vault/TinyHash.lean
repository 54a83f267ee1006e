import Mathlib.Data.List.Flatten
import Mathlib.Data.Rat.Defs
import AmxModC.Foundation.Keyed
import AmxModC.Foundation.Run

namespace AmxModC.Vault

open Foundation

/-! The growing hash table of sh_tinyhash.h, on a platform whose `time_t` and
`size_t` have 32 bits.  `Compare` of two keys is zero when they are equal. -/

abbrev Time := BitVec 32

/-- The specialisations of the template `HashFunction`. -/
class HashFunction (K : Type) where
  hashFunction : K → BitVec 32

structure THashNode (K V : Type) where
  key : K
  val : V
  stamp : Time
deriving DecidableEq

/-- A bucket is `none` until something is put into it. -/
structure THash (K V : Type) where
  buckets : List (Option (List (THashNode K V)))
  percentUsed : ℚ
  items : Nat

def initHashSize : Nat := 32

namespace THash

variable {K V : Type}

def numBuckets (h : THash K V) : Nat := h.buckets.length

def bucket (h : THash K V) (place : Nat) : List (THashNode K V) :=
  (h.buckets[place]?.join).getD []

def nodes (h : THash K V) : List (THashNode K V) :=
  h.buckets.flatMap fun bucket => bucket.getD []

/-- `m_Buckets[place]->push_back(node)`, on a new list if the bucket has none. -/
def pushBack (h : THash K V) (place : Nat) (node : THashNode K V) : THash K V :=
  { h with buckets := h.buckets.set place (some (h.bucket place ++ [node])) }

def useBucket (h : THash K V) (place : Nat) : THash K V :=
  match h.buckets[place]?.join with
  | none => { h with percentUsed := h.percentUsed + 1 / h.numBuckets }
  | some _ => h

section

variable [HashFunction K]

def placeOf (h : THash K V) (key : K) : Nat :=
  (HashFunction.hashFunction key).toNat % h.numBuckets

def rehash (temp : THash K V) (node : THashNode K V) : THash K V :=
  (temp.useBucket (temp.placeOf node.key)).pushBack (temp.placeOf node.key) node

def refactor (h : THash K V) : THash K V :=
  if h.numBuckets = 0 then
    { h with buckets := List.replicate initHashSize none, percentUsed := 0 }
  else
    h.nodes.foldl rehash
      { h with buckets := List.replicate (h.numBuckets * 2) none, percentUsed := 0 }

def empty : THash K V := refactor ⟨[], 0, 0⟩

def clear (h : THash K V) : THash K V := refactor { h with buckets := [], items := 0 }

def growIfUsed (h : THash K V) : THash K V :=
  if h.percentUsed > 3 / 4 then h.refactor else h

variable [DecidableEq K]

def node? (h : THash K V) (key : K) : Option (THashNode K V) :=
  lookup THashNode.key (h.bucket (h.placeOf key)) key

def existsKey (h : THash K V) (key : K) : Bool := (h.node? key).isSome

def retrieve? (h : THash K V) (key : K) : Option (V × Time) :=
  (h.node? key).map fun node => (node.val, node.stamp)

/-- The table once it has a node for the key; `fresh` is the node to put there. -/
def findOrInsert (h : THash K V) (fresh : THashNode K V) : THash K V :=
  if h.existsKey fresh.key then h
  else
    growIfUsed
      { (h.useBucket (h.placeOf fresh.key)).pushBack (h.placeOf fresh.key) fresh with
        items := h.items + 1 }

/-- Write through the node pointer that `_FindOrInsert` returned. -/
def modify (h : THash K V) (key : K) (f : THashNode K V → THashNode K V) : THash K V :=
  { h with
    buckets := h.buckets.modify (h.placeOf key) fun bucket =>
      bucket.map fun nodes => nodes.map fun node => if node.key = key then f node else node }

def insert [Inhabited V] (h : THash K V) (key : K) (val : V) (stamp : Time) : THash K V :=
  -- the stamp of a new node is not set before the last assignment
  (h.findOrInsert ⟨key, default, 0⟩).modify key fun node => { node with val, stamp }

def touch [Inhabited V] (h : THash K V) (k : K) (stamp : Time) : THash K V :=
  (h.findOrInsert ⟨k, default, 0⟩).modify k fun node => { node with stamp }

/-- `Retrieve`: the table, and the value and the stamp of the node.  The constructor
of a node does not set the stamp; `garbage` is what a new one finds there. -/
def retrieve [Inhabited V] (h : THash K V) (k : K) (garbage : Time) :
    THash K V × (V × Time) :=
  let fresh : THashNode K V := ⟨k, default, garbage⟩
  let pNode := (h.node? k).getD fresh
  (h.findOrInsert fresh, pNode.val, pNode.stamp)

def remove (h : THash K V) (key : K) : THash K V :=
  if h.existsKey key then
    { h with
      buckets := h.buckets.modify (h.placeOf key) fun bucket =>
        bucket.map fun nodes => nodes.eraseP fun node => node.key = key
      items := h.items - 1 }
  else h

end

/-- The test of `Prune` on one stamp; 0 is never pruned. -/
def pruned (start «end» stamp : Time) : Bool :=
  stamp ≠ 0 &&
    (start = 0 && «end» = 0 ||
      start = 0 && stamp.slt «end» ||
      «end» = 0 && start.slt stamp ||
      start.slt stamp && stamp.slt «end»)

def prune (h : THash K V) (start «end» : Time) : THash K V × Nat :=
  let removed := h.nodes.countP fun node => pruned start «end» node.stamp
  ({ h with
      buckets := h.buckets.map fun bucket =>
        bucket.map fun nodes => nodes.filter fun node => !pruned start «end» node.stamp
      items := h.items - removed },
    removed)

/-! The class `iterator`. -/

/-- `curbucket` is `none` for the bucket -1; `iter` is a position in the list of
the bucket. -/
structure Iterator where
  curbucket : Option Nat
  iter : Nat
  «end» : Bool
deriving DecidableEq

/-- `end()` -/
def finish : Iterator := ⟨none, 0, true⟩

/-- `operator ==` on two iterators of one table -/
def Iterator.equals (this «where» : Iterator) : Bool :=
  «where».end = this.end &&
    (this.end || «where».curbucket = this.curbucket && «where».iter = this.iter)

/-- The first bucket from `place` on whose list is there and not empty. -/
def firstUsed (h : THash K V) (place : Nat) : Option Nat :=
  (List.range' place (h.numBuckets - place)).find? fun i => !(h.bucket i).isEmpty

def seek (h : THash K V) (it : Iterator) (place : Nat) : Iterator :=
  match h.firstUsed place with
  | some i => ⟨some i, 0, false⟩
  | none => { it with «end» := true }

/-- `_Inc`.  A bucket array of 2^31 pointers does not fit into memory, so that the
casts of the bucket count to `int` change nothing. -/
def inc (h : THash K V) (it : Iterator) : Iterator :=
  if it.end then it
  else
    match it.curbucket with
    | none => h.seek it 0
    | some curbucket =>
        if h.numBuckets ≤ curbucket then it
        else
          let size := (h.bucket curbucket).length
          let iter := if it.iter = size then it.iter else it.iter + 1
          if iter = size then h.seek { it with iter } (curbucket + 1)
          else { it with iter }

def begin (h : THash K V) : Iterator :=
  if h.numBuckets = 0 then ⟨none, 0, true⟩ else h.inc ⟨none, 0, false⟩

/-- `*iter`; `none` is an iterator that stands on no node. -/
def deref (h : THash K V) (it : Iterator) : Option (THashNode K V) :=
  it.curbucket.bind fun curbucket => (h.bucket curbucket)[it.iter]?

/-- The nodes that `for (iter = begin(); iter != end(); iter++)` sees. -/
def visited (h : THash K V) (turns : Nat) : Option (List (THashNode K V)) :=
  traverse (fun it => it.equals finish) h.deref h.inc turns h.begin

/-! The methods that change the table, as calls. -/

inductive Operation (K V : Type)
  | insert (key : K) (val : V) (stamp : Time)
  | touch (k : K) (stamp : Time)
  | retrieve (k : K) (garbage : Time)
  | remove (key : K)
  | prune (start «end» : Time)
  | clear
  | refactor

inductive Answer (V : Type)
  | done
  | node (val : V) (stamp : Time)
  | removed (count : Nat)

def call [HashFunction K] [DecidableEq K] [Inhabited V] (h : THash K V) :
    Operation K V → THash K V × Answer V
  | .insert key val stamp => (h.insert key val stamp, .done)
  | .touch k stamp => (h.touch k stamp, .done)
  | .retrieve k garbage =>
      let (found, val, stamp) := h.retrieve k garbage
      (found, .node val stamp)
  | .remove key => (h.remove key, .done)
  | .prune start «end» =>
      let (kept, removed) := h.prune start «end»
      (kept, .removed removed)
  | .clear => (h.clear, .done)
  | .refactor => (h.refactor, .done)

end THash

end AmxModC.Vault
