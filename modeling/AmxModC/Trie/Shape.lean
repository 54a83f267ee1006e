import AmxModC.Machine
import AmxModC.Trie.Model

namespace AmxModC.Trie

open Foundation

/-! `TrieData`, the object that the natives keep for a key. -/

inductive DataType
  | unset
  | cell
  | string
  | array
deriving DecidableEq

/-- `m_cellcount` is the length of `data`, and 0 where `m_data` is `NULL`. -/
structure TrieData where
  data : List Cell
  cell : Cell
  type : DataType
deriving DecidableEq

def CellString := { chars : List Cell // 0 ∉ chars }

namespace TrieData

def new : TrieData := ⟨[], 0, .unset⟩

def cellcount (td : TrieData) : Nat := td.data.length

def needCells (td : TrieData) (cellcount : Nat) : TrieData :=
  if td.cellcount < cellcount then { td with data := List.replicate cellcount 0 } else td

/-- `memcpy` to the start of the buffer -/
def write (td : TrieData) (cells : List Cell) : TrieData :=
  { td with data := cells ++ td.data.drop cells.length }

def freeCells (td : TrieData) : TrieData := { td with data := [] }

def setCell (td : TrieData) (value : Cell) : TrieData :=
  { td.freeCells with cell := value, type := .cell }

def setString (td : TrieData) (value : CellString) : TrieData :=
  { (td.needCells (value.1.length + 1)).write (value.1 ++ [0]) with type := .string }

/-- `value` is the plugin's memory from the address of the array on. -/
def setArray (td : TrieData) (value : Nat → Cell) (size : Int) : TrieData :=
  if size ≤ 0 then td
  else
    { (td.needCells size.toNat).write ((List.range size.toNat).map value) with type := .array }

/-- The first `max` cells of the buffer, or all of them, over those of `out`. -/
def copy (td : TrieData) (out : List Cell) (max : Nat) : List Cell :=
  td.data.take max ++ out.drop (min max td.cellcount)

def getCell (td : TrieData) (out : Cell) : Bool × Cell :=
  if td.type = .cell then (true, td.cell) else (false, out)

def getString (td : TrieData) (out : List Cell) (max : Int) : Bool × List Cell :=
  if td.type = .string ∧ 0 ≤ max then (true, td.copy out max.toNat) else (false, out)

def getArray (td : TrieData) (out : List Cell) (max : Int) : Bool × List Cell :=
  if td.type = .array ∧ 0 ≤ max then (true, td.copy out max.toNat) else (false, out)

end TrieData

/-- What is stored by `TrieSetCell`, `TrieSetString` and `TrieSetArray`. -/
inductive Store
  | cell (value : Cell)
  | string (value : CellString)
  | array (value : Nat → Cell) (size : Int)

def TrieData.store (td : TrieData) : Store → TrieData
  | .cell value => td.setCell value
  | .string value => td.setString value
  | .array value size => td.setArray value size

namespace KTrie

/-- A change through the pointer that `retrieve` gave. -/
def poke (t : KTrie TrieData) (key : CString) (td : TrieData) : KTrie TrieData :=
  match t.internalRetrieve key with
  | none => t
  | some target => t.setValueOf target (some td)

/-- `TrieSetCell`, `TrieSetString` and `TrieSetArray` -/
def trieSet (t : KTrie TrieData) (key : CString) (store : Store) : KTrie TrieData × Bool :=
  let t := if (t.retrieve key).isNone then (t.insert key .new).1 else t
  match t.retrieve key with
  | none => (t, false)
  | some td => (t.poke key (td.store store), true)

def trieGetCell (t : KTrie TrieData) (key : CString) (out : Cell) : Bool × Cell :=
  match t.retrieve key with
  | none => (false, out)
  | some td => td.getCell out

def trieGetString (t : KTrie TrieData) (key : CString) (out : List Cell) (max : Int) :
    Bool × List Cell :=
  match t.retrieve key with
  | none => (false, out)
  | some td => td.getString out max

def trieGetArray (t : KTrie TrieData) (key : CString) (out : List Cell) (max : Int) :
    Bool × List Cell :=
  match t.retrieve key with
  | none => (false, out)
  | some td => td.getArray out max

end KTrie

namespace KTrie

variable {K : Type}

/-! Every used node ends one path of characters from the root. -/

def Child (t : KTrie K) (path : Nat → List Byte) (j : Nat) : Prop :=
  ∃ c : Byte, c ≠ 0 ∧ (t.base (t.base j).parent).mode = .arc ∧
    j = (t.base (t.base j).parent).idx + c.toNat ∧ path j = path (t.base j).parent ++ [c]

def Spare (t : KTrie K) (offset : Nat) (s : List Byte) : Prop :=
  StringAt t.stringtab offset s ∧ 0 ∉ s ∧ offset + s.length < t.tail

def Apart (offset : Nat) (s : List Byte) (offset' : Nat) (s' : List Byte) : Prop :=
  offset + s.length < offset' ∨ offset' + s'.length < offset

structure Shape (t : KTrie K) (path : Nat → List Byte) : Prop where
  size : 256 ≤ t.baseSize
  rootMode : (t.base 1).mode = .arc
  rootIdx : 1 ≤ (t.base 1).idx
  rootParent : (t.base 1).parent = 1
  rootValue : (t.base 1).value = none
  rootPath : path 1 = []
  child : ∀ {j}, j ≠ 1 → (t.base j).mode ≠ .unused → t.Child path j
  bound : ∀ {j}, (t.base j).mode ≠ .unused → j ≤ t.baseSize
  based : ∀ {j}, (t.base j).mode = .arc → (t.base j).idx ≤ t.baseSize
  free : ∀ {j}, (t.base j).mode = .unused → t.base j = .zero
  text : ∀ {j}, (t.base j).mode = .term → t.string (t.base j).idx ≠ [] ∧
    t.Spare (t.base j).idx (t.string (t.base j).idx)
  apart : ∀ {j k}, j ≠ k → (t.base j).mode = .term → (t.base k).mode = .term →
    Apart (t.base j).idx (t.string (t.base j).idx) (t.base k).idx (t.string (t.base k).idx)
  stored : t.tail < t.stringtab.length

def keyOf (t : KTrie K) (path : Nat → List Byte) (j : Nat) : List Byte :=
  path j ++ if (t.base j).mode = .term then t.string (t.base j).idx else []

def Childless (t : KTrie K) (j : Nat) : Prop :=
  ∀ k, k ≠ 1 → (t.base k).mode ≠ .unused → (t.base k).parent ≠ j

section

variable {t : KTrie K} {path : Nat → List Byte} {i j : Nat} {c : Byte} {keyptr s : List Byte}

theorem string_of_spare (h : t.Spare i s) : t.string i = s := h.1.takeWhile h.2.1

theorem Shape.mode_of_value (h : t.Shape path) {v : K} (hv : (t.base j).value = some v) :
    (t.base j).mode ≠ .unused := by
  intro hmode
  rw [h.free hmode] at hv
  cases hv

theorem Shape.ne_root (h : t.Shape path) {v : K} (hv : (t.base j).value = some v) : j ≠ 1 := by
  rintro rfl
  rw [h.rootValue] at hv
  cases hv

theorem toNat_pos (hc : c ≠ 0) : 0 < c.toNat := by
  rw [Nat.pos_iff_ne_zero]
  exact fun h => hc (BitVec.eq_of_toNat_eq h)

theorem Shape.slot_ne_root (h : t.Shape path) (hparent : (t.base j).parent = i)
    (hslot : j = (t.base i).idx + c.toNat) (hc : c ≠ 0) : j ≠ 1 := by
  rintro rfl
  have hroot : i = 1 := hparent.symm.trans h.rootParent
  subst hroot
  have hidx := h.rootIdx
  have hpos := toNat_pos hc
  omega

theorem Shape.path_child (h : t.Shape path) (hused : (t.base j).mode ≠ .unused)
    (hparent : (t.base j).parent = i)
    (hslot : j = (t.base i).idx + c.toNat) (hc : c ≠ 0) : path j = path i ++ [c] := by
  obtain ⟨c', -, -, hj, hpath⟩ := h.child (h.slot_ne_root hparent hslot hc) hused
  rw [hparent] at hj hpath
  have hcc : c' = c := BitVec.eq_of_toNat_eq (by omega)
  rw [hpath, hcc]

theorem Shape.walk_sound (h : t.Shape path) (hkey : 0 ∉ keyptr)
    (hwalk : t.walk i keyptr = some j) :
    (t.base j).mode ≠ .unused ∧ j ≠ 1 ∧ t.keyOf path j = path i ++ keyptr := by
  induction keyptr generalizing i with
  | nil => cases hwalk
  | cons c keyptr ih =>
      have hc : c ≠ 0 := fun hzero => hkey (hzero ▸ List.mem_cons_self)
      have hrest : 0 ∉ keyptr := fun hmem => hkey (List.mem_cons_of_mem _ hmem)
      rw [walk] at hwalk
      split at hwalk
      next => cases hwalk
      next hslot =>
          simp only [not_or, not_not] at hslot
          obtain ⟨-, hused, hparent⟩ := hslot
          have hpath := h.path_child hused hparent rfl hc
          have hroot := h.slot_ne_root hparent rfl hc
          split at hwalk
          next hterm =>
              split at hwalk
              next hstring =>
                  cases hwalk
                  refine ⟨hused, hroot, ?_⟩
                  rw [keyOf, if_pos hterm, hpath, ← hstring, List.append_assoc]
                  rfl
              next => cases hwalk
          next hterm =>
              split at hwalk
              next hend =>
                  cases hwalk
                  refine ⟨hused, hroot, ?_⟩
                  rw [keyOf, if_neg hterm, hpath, hend, List.append_nil]
              next =>
                  obtain ⟨hj, hne, hkeyOf⟩ := ih hrest hwalk
                  refine ⟨hj, hne, ?_⟩
                  rw [hkeyOf, hpath, List.append_assoc]
                  rfl

theorem walk_arc (hused : (t.base j).mode = .arc) (hbound : j ≤ t.baseSize)
    (hslot : j = (t.base (t.base j).parent).idx + c.toNat) :
    t.walk (t.base j).parent (c :: keyptr) =
      if keyptr = [] then some j else t.walk j keyptr := by
  have hfound : ¬ (j > t.baseSize ∨ (t.base j).mode = .unused ∨
      (t.base j).parent ≠ (t.base j).parent) := by
    simp [hused]
    omega
  rw [walk, ← hslot, if_neg hfound, if_neg (by simp [hused])]

theorem walk_term (hused : (t.base j).mode = .term) (hbound : j ≤ t.baseSize)
    (hslot : j = (t.base (t.base j).parent).idx + c.toNat) :
    t.walk (t.base j).parent (c :: keyptr) =
      if keyptr = t.string (t.base j).idx then some j else none := by
  have hfound : ¬ (j > t.baseSize ∨ (t.base j).mode = .unused ∨
      (t.base j).parent ≠ (t.base j).parent) := by
    simp [hused]
    omega
  rw [walk, ← hslot, if_neg hfound, if_pos hused]

theorem Shape.walk_root (h : t.Shape path) (hmode : (t.base i).mode = .arc) (hkey : keyptr ≠ []) :
    t.walk 1 (path i ++ keyptr) = t.walk i keyptr := by
  generalize hlen : (path i).length = len
  induction len generalizing i keyptr with
  | zero =>
      by_cases hroot : i = 1
      · rw [hroot, h.rootPath, List.nil_append]
      · obtain ⟨c, -, -, -, hpath⟩ := h.child hroot (by simp [hmode])
        rw [hpath] at hlen
        simp at hlen
  | succ len ih =>
      have hroot : i ≠ 1 := by
        rintro rfl
        simp [h.rootPath] at hlen
      obtain ⟨c, -, hparent, hslot, hpath⟩ := h.child hroot (by simp [hmode])
      rw [hpath, List.length_append, List.length_singleton] at hlen
      rw [hpath, List.append_assoc, List.singleton_append,
        ih hparent (List.cons_ne_nil _ _) (by omega),
        walk_arc hmode (h.bound (by simp [hmode])) hslot, if_neg hkey]

theorem Shape.walk_complete (h : t.Shape path) (hused : (t.base j).mode ≠ .unused) (hroot : j ≠ 1) :
    t.walk 1 (t.keyOf path j) = some j := by
  obtain ⟨c, -, hparent, hslot, hpath⟩ := h.child hroot hused
  rw [keyOf, hpath, List.append_assoc, List.singleton_append,
    h.walk_root hparent (List.cons_ne_nil _ _)]
  cases hmode : (t.base j).mode with
  | unused => exact absurd hmode hused
  | arc => exact (walk_arc hmode (h.bound hused) hslot).trans (if_pos rfl)
  | term => exact (walk_term hmode (h.bound hused) hslot).trans (if_pos rfl)

theorem Shape.walk_eq_some (h : t.Shape path) (hkey : 0 ∉ keyptr) :
    t.walk 1 keyptr = some j ↔
      (t.base j).mode ≠ .unused ∧ j ≠ 1 ∧ t.keyOf path j = keyptr := by
  constructor
  · intro hwalk
    obtain ⟨hused, hroot, hkeyOf⟩ := h.walk_sound hkey hwalk
    rw [h.rootPath, List.nil_append] at hkeyOf
    exact ⟨hused, hroot, hkeyOf⟩
  · rintro ⟨hused, hroot, rfl⟩
    exact h.walk_complete hused hroot

theorem Shape.keyOf_inj (h : t.Shape path)
    (hi : (t.base i).mode ≠ .unused) (hi' : i ≠ 1)
    (hj : (t.base j).mode ≠ .unused) (hj' : j ≠ 1)
    (hkey : t.keyOf path i = t.keyOf path j) : i = j := by
  have hwalk := h.walk_complete hi hi'
  rw [hkey, h.walk_complete hj hj'] at hwalk
  exact (Option.some.inj hwalk).symm

end

end KTrie

end AmxModC.Trie
