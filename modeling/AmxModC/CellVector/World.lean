import AmxModC.CellVector.Sort
import AmxModC.Foundation.Sorting

namespace AmxModC.CellVector

open Foundation

/-! The vectors of the server, while the comparison functions of `ArraySort` call natives. -/

/-- A call of `ArraySort` behind its first part: the pointer it has read, and the vector as it was
then. -/
structure ArraySort where
  handle : Int
  vec : Nat
  before : CellVector

/-- The vectors that were made, in the order of their addresses, `none` where one is deleted again;
what the holder has for each handle; and the calls that wait for an answer, each with what `qsort`
does with it. -/
structure World where
  objects : List (Option CellVector)
  vectorHolder : List (Option Nat)
  arraySortStack : List (ArraySort × (Int → Sorting Nat))

/-- What plugins do. Natives on one vector are one or two calls of its operations; an answer is what
the comparison function of the innermost sort returns. -/
inductive Event where
  | arrayCreate (garbage : Garbage) (cellsize reserved : Int)
  | call (handle : Int) (op : Op)
  | arrayDestroy (handle : Int)
  | arraySort (garbage : Nat → Garbage) (handle : Int) (found : Bool)
  | answer (garbage : Nat → Garbage) (value : Int)

/-- `handle-1` as an index. -/
def slot (handle : Int) : Nat := (handle - 1).toNat

namespace World

def empty : World := ⟨[], [], []⟩

def object (w : World) (vec : Nat) : Option CellVector := (w.objects[vec]?).join

def handleToVector (w : World) (handle : Int) : Option Nat :=
  if handle ≤ 0 ∨ handle > w.vectorHolder.length then none
  else (w.vectorHolder[slot handle]?).join

def arrayCreate (garbage : Garbage) (w : World) (cellsize reserved : Int) : Int × World :=
  if cellsize ≤ 0 then (-1, w)
  else if reserved ≤ 0 then (-1, w)
  else
    let newVector := (create cellsize.toNat).grow garbage reserved.toNat
    let objects := w.objects ++ [some newVector]
    match w.vectorHolder.findIdx? Option.isNone with
    | some i =>
        (i + 1, { w with
          objects := objects
          vectorHolder := w.vectorHolder.set i (some w.objects.length) })
    | none =>
        (w.vectorHolder.length + 1, { w with
          objects := objects
          vectorHolder := w.vectorHolder ++ [some w.objects.length] })

def call (w : World) (handle : Int) (op : Op) : Option World :=
  match w.handleToVector handle with
  | none => some w
  | some vec => do
      let v ← w.object vec
      let v ← v.next op
      some { w with objects := w.objects.set vec (some v) }

def arrayDestroy (w : World) (handle : Int) : Option (Int × World) :=
  match w.handleToVector handle with
  | none => some (0, w)
  | some vec => do
      let _ ← w.object vec
      some (1, { w with
        objects := w.objects.set vec none
        vectorHolder := w.vectorHolder.set (slot handle) none })

/-- `ArraySort` behind `qsort`. -/
def finish (garbage : Nat → Garbage) (w : World) (sort : ArraySort) (intList : List Nat) :
    Option (Int × World) := do
  let v ← w.object sort.vec
  let (copied, newvec) ← v.rebuild garbage intList
  if copied.result ≠ 1 then some (0, w)
  else
    some (1, { w with
      objects := w.objects.set sort.vec none ++ [some newvec]
      vectorHolder := w.vectorHolder.set (slot sort.handle) (some w.objects.length) })

def proceed (garbage : Nat → Garbage) (w : World) (sort : ArraySort) :
    Sorting Nat → Option World
  | .done intList => (w.finish garbage sort intList).map Prod.snd
  | .compare _ _ _ next => some { w with arraySortStack := (sort, next) :: w.arraySortStack }

variable (qsort : List Nat → Sorting Nat)

/-- `found` tells whether the plugin has the public function. -/
def arraySort (garbage : Nat → Garbage) (w : World) (handle : Int) (found : Bool) :
    Option World :=
  match w.handleToVector handle with
  | none => some w
  | some vec =>
      if found then do
        let v ← w.object vec
        w.proceed garbage ⟨handle, vec, v⟩ (qsort (List.range v.count))
      else some w

def step (w : World) : Event → Option World
  | .arrayCreate garbage cellsize reserved => some (w.arrayCreate garbage cellsize reserved).2
  | .call handle op => w.call handle op
  | .arrayDestroy handle => (w.arrayDestroy handle).map Prod.snd
  | .arraySort garbage handle found => w.arraySort qsort garbage handle found
  | .answer garbage value =>
      match w.arraySortStack with
      | [] => some w
      | (sort, next) :: rest =>
          { w with arraySortStack := rest }.proceed garbage sort (next value)

structure Proceeds (garbage : Nat → Garbage) (w : World) (sort : ArraySort)
    (sorting : Sorting Nat) : Prop where
  ends : sorting.Ends
  inside : (w.proceed garbage sort sorting).isSome
  arranges : ∀ {intList v next}, sorting = .done intList → w.object sort.vec = some v →
    v.records = sort.before.records → w.proceed garbage sort sorting = some next →
    ∃ vec newvec, next.handleToVector sort.handle = some vec ∧ next.object vec = some newvec ∧
      newvec.records.Perm sort.before.records

def Right (w : World) : Event → Prop
  | .arraySort garbage handle found =>
      (w.arraySort qsort garbage handle found).isSome ∧
        ∀ vec v, w.handleToVector handle = some vec → w.object vec = some v → found = true →
          w.Proceeds garbage ⟨handle, vec, v⟩ (qsort (List.range v.count))
  | .answer garbage value =>
      ∀ sort next rest, w.arraySortStack = (sort, next) :: rest →
        { w with arraySortStack := rest }.Proceeds garbage sort (next value)
  | event => (w.step qsort event).isSome

/-- When `qsort` returns, the vector is still there with no more records than it had, and those of
the indices that are used name some of them. -/
def Intact (w : World) (sort : ArraySort) : Sorting Nat → Prop
  | .done intList =>
      ∃ v, w.object sort.vec = some v ∧ v.count ≤ sort.before.count ∧
        ∀ which ∈ intList.take v.count, which < v.count
  | .compare _ _ _ _ => True

def Allowed (w : World) : Event → Prop
  | .call handle op =>
      ∀ vec v, w.handleToVector handle = some vec → w.object vec = some v → v.InBounds op
  | .answer _ value =>
      ∀ sort next rest, w.arraySortStack = (sort, next) :: rest → w.Intact sort (next value)
  | _ => True

end World

end AmxModC.CellVector
