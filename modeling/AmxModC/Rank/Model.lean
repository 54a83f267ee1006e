import AmxModC.Machine
import AmxModC.Foundation.CString
import AmxModC.Foundation.DoublyLinked

namespace AmxModC.Rank

open Foundation

/-! The ranking of csx: one linked list of players, each of which carries its place. -/

structure Stats where
  hits : Cell
  shots : Cell
  damage : Cell
  hs : Cell
  tks : Cell
  kills : Cell
  deaths : Cell
  bodyHits : Fin 9 → Cell
  bPlants : Cell
  bExplosions : Cell
  bDefusions : Cell
  bDefused : Cell
  deriving DecidableEq

instance neZeroNine : NeZero 9 := ⟨Nat.succ_ne_zero 8⟩

namespace Stats

/-- `Stats::Stats` -/
def zero : Stats := ⟨0, 0, 0, 0, 0, 0, 0, fun _ => 0, 0, 0, 0, 0⟩

/-- The loop over `bodyHits` leaves out the first and the last. -/
def commit (s a : Stats) : Stats where
  hits := s.hits + a.hits
  shots := s.shots + a.shots
  damage := s.damage + a.damage
  hs := s.hs + a.hs
  tks := s.tks + a.tks
  kills := s.kills + a.kills
  deaths := s.deaths + a.deaths
  bDefusions := s.bDefusions + a.bDefusions
  bDefused := s.bDefused + a.bDefused
  bPlants := s.bPlants + a.bPlants
  bExplosions := s.bExplosions + a.bExplosions
  bodyHits i := if 1 ≤ i ∧ i < 8 then s.bodyHits i + a.bodyHits i else s.bodyHits i

end Stats

structure Entry extends Stats where
  unique : CString
  name : CString
  score : Int
  deriving DecidableEq

/-- `next` leads towards the head. -/
structure RankStats extends Entry where
  next : Option Nat
  prev : Option Nat
  id : Int
  deriving DecidableEq

/-- Entries by their addresses; `fresh` is the address of the next one. -/
structure RankSystem where
  head : Option Nat
  tail : Option Nat
  rankNum : Int
  heap : Nat → Option RankStats
  fresh : Nat

/-- `RankStats::RankStats`, but for the id and the links -/
def Entry.new (unique name : CString) : Entry := { Stats.zero with unique, name, score := 0 }

def isEntry (isip : Bool) (unique target : CString) : Bool :=
  if isip then
    unique.bytes.isPrefixOf target.bytes &&
      (let c := target.bytes[unique.size]?.getD 0
      c == 58 || c == 0)
  else target == unique

namespace RankSystem

/-- `RankSystem::RankSystem` -/
def empty : RankSystem := ⟨none, none, 0, fun _ => none, 0⟩

def modify (s : RankSystem) (a : Nat) (change : RankStats → RankStats) : Option RankSystem :=
  if (s.heap a).isSome then some { s with heap := write s.heap (some a) change } else none

def goUp (s : RankSystem) (a : Nat) : Option RankSystem :=
  s.modify a fun node => { node with id := node.id - 1 }

def goDown (s : RankSystem) (a : Nat) : Option RankSystem :=
  s.modify a fun node => { node with id := node.id + 1 }

def putBefore (s : RankSystem) (a : Nat) (ptr : Option Nat) : Option RankSystem := do
  let s ← s.modify a fun node => { node with next := ptr }
  let s ←
    match ptr with
    | some p => do
        let above ← s.heap p
        let s ← s.modify a fun node => { node with prev := above.prev }
        s.modify p fun node => { node with prev := some a }
    | none => do
        let s ← s.modify a fun node => { node with prev := s.head }
        some { s with head := some a }
  let node ← s.heap a
  match node.prev with
  | some below => s.modify below fun node => { node with next := some a }
  | none => some { s with tail := some a }

def putAfter (s : RankSystem) (a : Nat) (ptr : Option Nat) : Option RankSystem := do
  let s ← s.modify a fun node => { node with prev := ptr }
  let s ←
    match ptr with
    | some p => do
        let below ← s.heap p
        let s ← s.modify a fun node => { node with next := below.next }
        s.modify p fun node => { node with next := some a }
    | none => do
        let s ← s.modify a fun node => { node with next := s.tail }
        some { s with tail := some a }
  let node ← s.heap a
  match node.next with
  | some above => s.modify above fun node => { node with prev := some a }
  | none => some { s with head := some a }

def unlink (s : RankSystem) (ptr : Nat) : Option RankSystem := do
  let node ← s.heap ptr
  let s ←
    match node.prev with
    | some below => s.modify below fun other => { other with next := node.next }
    | none => some { s with tail := node.next }
  let node ← s.heap ptr
  match node.next with
  | some above => s.modify above fun other => { other with prev := node.prev }
  | none => some { s with head := node.prev }

/-- `delete` -/
def delete (s : RankSystem) (a : Nat) : Option RankSystem :=
  if (s.heap a).isSome then
    some { s with
      heap := fun address => if address = a then none else s.heap address
      rankNum := s.rankNum - 1 }
  else none

def clearLoop : Nat → RankSystem → Option RankSystem
  | 0, s => if s.tail = none then some s else none
  | fuel + 1, s =>
      match s.tail with
      | none => some s
      | some a => do
          let node ← s.heap a
          let s := { s with head := node.next }
          let s ← s.delete a
          clearLoop fuel { s with tail := s.head }

def clear (s : RankSystem) : Option RankSystem := clearLoop s.rankNum.toNat s

def search (s : RankSystem) (isip : Bool) (unique : CString) :
    Nat → Option Nat → Option (Option Nat)
  | _, none => some none
  | 0, some _ => none
  | fuel + 1, some a => do
      let node ← s.heap a
      if isEntry isip unique node.unique then some (some a)
      else s.search isip unique fuel node.prev

/-- `new RankStats` -/
def alloc (s : RankSystem) (unique name : CString) : RankSystem :=
  let node : RankStats :=
    { Entry.new unique name with next := none, prev := none, id := s.rankNum + 1 }
  { s with
    heap := fun address => if address = s.fresh then some node else s.heap address
    rankNum := s.rankNum + 1
    fresh := s.fresh + 1 }

def findEntryInRank (s : RankSystem) (unique name : CString) (isip : Bool) :
    Option (RankSystem × Nat) := do
  match ← s.search isip unique s.rankNum.toNat s.head with
  | some a => some (s, a)
  | none =>
      let a := s.fresh
      let s := s.alloc unique name
      let s ← s.putAfter a none
      some (s, a)

def nominate (rr : Nat) : Nat → RankSystem → Option Nat → Option (RankSystem × Option Nat)
  | _, s, none => some (s, none)
  | 0, _, some _ => none
  | fuel + 1, s, some aa => do
      let node ← s.heap rr
      let above ← s.heap aa
      if above.score ≤ node.score then
        let s ← s.goUp rr
        let s ← s.goDown aa
        let above ← s.heap aa
        nominate rr fuel s above.next
      else some (s, some aa)

def descend (rr : Nat) : Nat → RankSystem → Option Nat → Option (RankSystem × Option Nat)
  | _, s, none => some (s, none)
  | 0, _, some _ => none
  | fuel + 1, s, some aa => do
      let node ← s.heap rr
      let below ← s.heap aa
      if below.score > node.score then
        let s ← s.goDown rr
        let s ← s.goUp aa
        let below ← s.heap aa
        descend rr fuel s below.prev
      else some (s, some aa)

/-- The rest of `updatePos`, once the score is known. -/
def move (s : RankSystem) (rr : Nat) : Option RankSystem := do
  let node ← s.heap rr
  let (s, aa) ← nominate rr s.rankNum.toNat s node.next
  if aa ≠ node.next then
    let s ← s.unlink rr
    s.putBefore rr aa
  else
    let (s, aa) ← descend rr s.rankNum.toNat s node.prev
    if aa ≠ node.prev then
      let s ← s.unlink rr
      s.putAfter rr aa
    else some s

/-- `script` is what the score script returns, where there is one. -/
def updatePos (s : RankSystem) (rr : Nat) (stats : Stats) (script : Option Int) :
    Option RankSystem := do
  let s ← s.modify rr fun node => { node with toStats := node.toStats.commit stats }
  let s ← s.modify rr fun node =>
    { node with score := script.getD (node.kills - node.deaths).toInt }
  s.move rr

def follow (s : RankSystem) : Nat → Option Nat → List Nat
  | _, none => []
  | 0, _ => []
  | fuel + 1, some a =>
      match s.heap a with
      | none => []
      | some node => a :: s.follow fuel node.prev

def toList (s : RankSystem) : List Nat := s.follow s.rankNum.toNat s.head

def entries (s : RankSystem) : List Entry :=
  s.toList.filterMap fun a => (s.heap a).map RankStats.toEntry

end RankSystem

inductive Event where
  | findEntryInRank (unique name : CString) (isip : Bool)
  | updatePosition (a : Nat) (stats : Stats) (script : Option Int)

def step (s : RankSystem) : Event → Option RankSystem
  | .findEntryInRank unique name isip => (s.findEntryInRank unique name isip).map Prod.fst
  | .updatePosition a stats script => s.updatePos a stats script

/-! The statistics file: `saveRank` and `loadRank`. -/

def rankVersion : BitVec 16 := 11

def mincell : Int := -2147483648

def writeShort (num : BitVec 16) : List Byte := littleEndian 2 num.toNat

def writeInt (num : Cell) : List Byte := littleEndian 4 num.toNat

def readShort : Reader (BitVec 16) := BitVec.ofNat 16 <$> Reader.number 2

def readInt : Reader Cell := BitVec.ofNat 32 <$> Reader.number 4

/-- `namelen` and `uniquelen`, which count the terminator. -/
def shortlen (s : CString) : BitVec 16 := BitVec.ofNat 16 (s.size + 1)

def writeChars (s : CString) : List Byte := (s.bytes ++ [0]).take (shortlen s).toNat

def writeStats (d : Stats) : List Byte :=
  writeInt d.tks ++ writeInt d.damage ++ writeInt d.deaths ++ writeInt d.kills ++
    writeInt d.shots ++ writeInt d.hits ++ writeInt d.hs ++ writeInt d.bDefusions ++
    writeInt d.bDefused ++ writeInt d.bPlants ++ writeInt d.bExplosions ++
    (List.ofFn d.bodyHits).flatMap writeInt

def writeEntry (entry : Entry) : List Byte :=
  writeShort (shortlen entry.name) ++ writeChars entry.name ++
    writeShort (shortlen entry.unique) ++ writeChars entry.unique ++ writeStats entry.toStats

def saveRank (s : RankSystem) : List Byte :=
  writeShort rankVersion ++
    (s.entries.filter fun entry => entry.score ≠ mincell).flatMap writeEntry ++ writeShort 0

def readInts : Nat → Reader (List Cell)
  | 0 => return []
  | count + 1 => do
      let first ← readInt
      let rest ← readInts count
      return first :: rest

def readStats : Reader Stats := do
  let tks ← readInt
  let damage ← readInt
  let deaths ← readInt
  let kills ← readInt
  let shots ← readInt
  let hits ← readInt
  let hs ← readInt
  let bDefusions ← readInt
  let bDefused ← readInt
  let bPlants ← readInt
  let bExplosions ← readInt
  let bodyHits ← readInts 9
  return {
    hits, shots, damage, hs, tks, kills, deaths
    bodyHits := fun i => bodyHits.getD i 0
    bPlants, bExplosions, bDefusions, bDefused }

def readRest : Reader (Stats × BitVec 16) := do
  let d ← readStats
  let i ← readShort
  return (d, i)

/-- A write to the front of an array of 64 characters; `none` is a write behind it. -/
def fill (buffer chars : List Byte) : Option (List Byte) :=
  if chars.length ≤ 64 then some (chars ++ buffer.drop chars.length) else none

/-- A length in the file as the count for `fread`, which is a `size_t`. -/
def charCount (i : BitVec 16) : Nat := (i.signExtend 32).toNat

/-- `fread` into an array, which gets what there is: whether that is all, the array and the
rest of the file. -/
def readChars (i : BitVec 16) (file buffer : List Byte) : Option (Bool × List Byte × List Byte) :=
  (fill buffer (file.take (charCount i))).map fun buffer =>
    (charCount i ≤ file.length, buffer, file.drop (charCount i))

def terminated (buffer : List Byte) : Option CString :=
  if 0 ∈ buffer then some (.ofMemory buffer) else none

/-- The loop of `loadRank`. A read that comes to the end of the file ends it; `none` is an access
behind an array. `script` is what the score script returns in each turn, where there is one. -/
def loadLoop (script : Nat → Option Int) :
    Nat → BitVec 16 → List Byte → List Byte → List Byte → RankSystem → Option RankSystem
  | 0, _, _, _, _, _ => none
  | fuel + 1, i, file, unique, name, s =>
      if i = 0 then some s
      else
        match readChars i file name with
        | none => none
        | some (false, _, _) => some s
        | some (true, name, file) =>
            match readShort file with
            | none => some s
            | some (i, file) =>
                match readChars i file unique with
                | none => none
                | some (false, _, _) => some s
                | some (true, unique, file) =>
                    match readRest file with
                    | none => some s
                    | some ((d, i), file) => do
                        let (s, a) ←
                          s.findEntryInRank (← terminated unique) (← terminated name) false
                        let s ← s.updatePos a d (script fuel)
                        loadLoop script fuel i file unique name s

def loadRankWith (script : Nat → Option Int) (file : Option (List Byte)) (s : RankSystem) :
    Option RankSystem :=
  match file with
  | none => some s
  | some file =>
      match readShort file with
      | none => some s
      | some (version, file) =>
          if version = rankVersion then
            match readShort file with
            | none => some s
            | some (i, file) =>
                let buffer := List.replicate 64 uninitialised
                loadLoop script (file.length + 1) i file buffer buffer s
          else some s

def loadRank (file : Option (List Byte)) (s : RankSystem) : Option RankSystem :=
  loadRankWith (fun _ => none) file s

end AmxModC.Rank
