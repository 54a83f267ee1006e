import Mathlib.Logic.Function.Basic
import AmxModC.Foundation.CString
import AmxModC.Foundation.Run

namespace AmxModC.Regex

open Foundation

/-! Regular expressions: the objects of the module, and the natives that hand them out. -/

inductive Matching where
  | noMatch
  | error (code : Nat)
  | matched (whole : Nat × Nat) (groups : List (Option (Nat × Nat)))
deriving DecidableEq, Repr

/-- PCRE: `compile` answers with a message and an offset where it fails. -/
structure Pcre where
  Code : Type
  compile : CString → BitVec 32 → Code ⊕ (CString × Int)
  exec : Code → CString → Matching

def pcreCaseless : BitVec 32 := 1

def pcreMultiline : BitVec 32 := 2

def pcreDotall : BitVec 32 := 4

def pcreExtended : BitVec 32 := 8

def pcreErrorNomatch : Int := -1

namespace Matching

def room : Nat := 10

def all : Matching → List (Option (Nat × Nat))
  | matched whole groups => some whole :: groups
  | _ => []

/-- What `pcre_exec` returns. -/
def rc : Matching → Int
  | noMatch => pcreErrorNomatch
  | error code => -2 - code
  | matched _ groups => if groups.length < room then groups.length + 1 else 0

def offsets : Option (Nat × Nat) → List Int
  | none => [-1, -1]
  | some (first, last) => [first, last]

/-- What `pcre_exec` leaves in the vector. -/
def ovector (matching : Matching) (before : List Int) : List Int :=
  match matching with
  | matched _ _ => (matching.all.take room).flatMap offsets
  | _ => before

end Matching

def iFlags : Option CString → BitVec 32
  | none => 0
  | some flags => flags.bytes.foldl (fun iFlags flag =>
      if flag = 105 then iFlags ||| pcreCaseless
      else if flag = 109 then iFlags ||| pcreMultiline
      else if flag = 115 then iFlags ||| pcreDotall
      else if flag = 120 then iFlags ||| pcreExtended
      else iFlags) 0

structure RegEx (pcre : Pcre) where
  mErrorOffset : Int
  mError : Option CString
  mSubStrings : Int
  re : Option pcre.Code
  mFree : Bool
  ovector : List Int
  subject : Option CString

namespace RegEx

variable {pcre : Pcre}

def new : RegEx pcre where
  mErrorOffset := 0
  mError := none
  mSubStrings := 0
  re := none
  mFree := true
  ovector := []
  subject := none

def clear (x : RegEx pcre) : RegEx pcre :=
  { x with
    mErrorOffset := 0
    mError := none
    re := none
    mFree := true
    subject := none
    mSubStrings := 0 }

def clearMatch (x : RegEx pcre) : RegEx pcre :=
  { x with
    mErrorOffset := 0
    mError := none
    subject := none
    mSubStrings := 0 }

/-- `Compile`, which returns 0 or 1. -/
def compile (x : RegEx pcre) (pattern : CString) (flags : Option CString) :
    RegEx pcre × Bool :=
  let x := if x.mFree then x else x.clear
  match pcre.compile pattern (iFlags flags) with
  | .inr (message, offset) =>
      ({ x with re := none, mError := some message, mErrorOffset := offset }, false)
  | .inl code => ({ x with re := some code, mFree := false }, true)

def matchSubject (x : RegEx pcre) (str : CString) : RegEx pcre × Int :=
  if x.mFree then (x, -1)
  else
    match x.re with
    | none => (x, -1)
    | some code =>
        let x := { x.clearMatch with subject := some str }
        let matching := pcre.exec code str
        let rc := matching.rc
        let x := { x with ovector := matching.ovector x.ovector }
        if rc < 0 then
          if rc = pcreErrorNomatch then (x, 0) else ({ x with mErrorOffset := rc }, -1)
        else ({ x with mSubStrings := rc }, 1)

/-- `GetSubstring`; the offsets of a group lie in the subject. -/
def getSubstring (x : RegEx pcre) (s : Int) (max : Nat) : Option (List Byte) :=
  if s ≥ x.mSubStrings ∨ s < 0 then none
  else
    let first := (x.ovector[2 * s.toNat]?).getD 0
    let last := (x.ovector[2 * s.toNat + 1]?).getD 0
    let text := (x.subject.elim [] CString.bytes).drop first.toNat
    some ((text.take (last - first).toNat).take max)

end RegEx

/-- What `set_amxstring` writes: without a limit where `max` is negative. -/
def setAmxString (source : List Byte) (max : Int) : List Byte :=
  if max < 0 then source else source.take max.toNat

structure Answer where
  value : Int
  ret : Option Int
  text : Option (List Byte)
deriving DecidableEq, Repr

section

variable {pcre : Pcre}

/-- `GetPEL`: the first free object, or a new one. -/
def getPEL (PEL : List (RegEx pcre)) : List (RegEx pcre) × Nat :=
  let id := PEL.findIdx RegEx.mFree
  (if id < PEL.length then PEL else PEL ++ [.new], id)

def objectAt (PEL : List (RegEx pcre)) (id : Nat) : RegEx pcre := (PEL[id]?).getD .new

def object? (PEL : List (RegEx pcre)) (handle : Int) : Option Nat :=
  let id := handle - 1
  if id ≥ PEL.length ∨ id < 0 ∨ (objectAt PEL id.toNat).mFree = true then none else some id.toNat

def unknown : List Byte := [117, 110, 107, 110, 111, 119, 110]

def compileError (x : RegEx pcre) (maxLen : Int) : Answer :=
  ⟨-1, some x.mErrorOffset, some (setAmxString (x.mError.elim unknown CString.bytes) maxLen)⟩

def regexCompile (PEL : List (RegEx pcre)) (pattern : CString) (maxLen : Int) (flags : CString) :
    List (RegEx pcre) × Answer :=
  let (PEL, id) := getPEL PEL
  let (x, compiled) := (objectAt PEL id).compile pattern (some flags)
  (PEL.set id x, if compiled then ⟨id + 1, none, none⟩ else compileError x maxLen)

def regexMatch (PEL : List (RegEx pcre)) (str pattern : CString) (maxLen : Int)
    (flags : Option CString) : List (RegEx pcre) × Answer :=
  let (PEL, id) := getPEL PEL
  let (x, compiled) := (objectAt PEL id).compile pattern flags
  if compiled then
    let (x, e) := x.matchSubject str
    if e = -1 then (PEL.set id x.clear, ⟨-2, some x.mErrorOffset, none⟩)
    else if e = 0 then (PEL.set id x.clear, ⟨0, some 0, none⟩)
    else (PEL.set id x, ⟨id + 1, some x.mSubStrings, none⟩)
  else (PEL.set id x, compileError x maxLen)

def regexMatchC (PEL : List (RegEx pcre)) (str : CString) (handle : Int) :
    List (RegEx pcre) × Answer :=
  match object? PEL handle with
  | none => (PEL, ⟨0, none, none⟩)
  | some id =>
      let (x, e) := (objectAt PEL id).matchSubject str
      if e = -1 then (PEL.set id x.clearMatch, ⟨-2, some x.mErrorOffset, none⟩)
      else if e = 0 then (PEL.set id x.clearMatch, ⟨0, some 0, none⟩)
      else (PEL.set id x, ⟨x.mSubStrings, some x.mSubStrings, none⟩)

def regexSubstr (PEL : List (RegEx pcre)) (handle strId maxLen : Int) : Answer :=
  match object? PEL handle with
  | none => ⟨0, none, none⟩
  | some id =>
      match (objectAt PEL id).getSubstring strId 4095 with
      | none => ⟨0, none, none⟩
      | some text => ⟨1, none, some (setAmxString text maxLen)⟩

def regexFree (PEL : List (RegEx pcre)) (handle : Int) : List (RegEx pcre) × Answer :=
  match object? PEL handle with
  | none => (PEL, ⟨0, some 0, none⟩)
  | some id => (PEL.set id (objectAt PEL id).clear, ⟨1, some 0, none⟩)

end

inductive Call where
  | compile (pattern : CString) (maxLen : Int) (flags : CString)
  | matchNew (str pattern : CString) (maxLen : Int) (flags : Option CString)
  | matchC (str : CString) (handle : Int)
  | substr (handle strId maxLen : Int)
  | free (handle : Int)
deriving DecidableEq

/-! What the handles should stand for. -/

def Pcre.matching? (pcre : Pcre) (pattern : CString) (flags : Option CString) (str : CString) :
    Option Matching :=
  match pcre.compile pattern (iFlags flags) with
  | .inl code => some (pcre.exec code str)
  | .inr _ => none

structure Use where
  pattern : CString
  flags : Option CString
  latest : Option (CString × Matching)

def Use.group? (use : Use) (k : Nat) : Option (List Byte) := do
  let (str, matching) ← use.latest
  let group ← matching.all[k]?
  let (first, last) ← group
  return (str.bytes.drop first).take (last - first)

structure Session (pcre : Pcre) where
  PEL : List (RegEx pcre)
  uses : Int → Option Use

namespace Session

variable {pcre : Pcre}

def start : Session pcre := ⟨[], fun _ => none⟩

def handOut (uses : Int → Option Use) (answer : Answer) (use : Use) : Int → Option Use :=
  if 0 < answer.value then Function.update uses answer.value (some use) else uses

def call (s : Session pcre) : Call → Session pcre × Answer
  | .compile pattern maxLen flags =>
      let (PEL, answer) := regexCompile s.PEL pattern maxLen flags
      (⟨PEL, handOut s.uses answer ⟨pattern, some flags, none⟩⟩, answer)
  | .matchNew str pattern maxLen flags =>
      let (PEL, answer) := regexMatch s.PEL str pattern maxLen flags
      let latest := (pcre.matching? pattern flags str).map fun matching => (str, matching)
      (⟨PEL, handOut s.uses answer ⟨pattern, flags, latest⟩⟩, answer)
  | .matchC str handle =>
      let (PEL, answer) := regexMatchC s.PEL str handle
      let rematch (use : Use) : Use := { use with
        latest := (pcre.matching? use.pattern use.flags str).map fun matching => (str, matching) }
      (⟨PEL, Function.update s.uses handle ((s.uses handle).map rematch)⟩, answer)
  | .substr handle strId maxLen => (s, regexSubstr s.PEL handle strId maxLen)
  | .free handle =>
      let (PEL, answer) := regexFree s.PEL handle
      (⟨PEL, Function.update s.uses handle none⟩, answer)

def step (s : Session pcre) (call : Call) : Option (Session pcre) := some (s.call call).1

def Answered (s : Session pcre) (answer : Answer) : Call → Prop
  | .compile _ _ _ => 0 < answer.value → s.uses answer.value = none
  | .matchNew str pattern _ flags =>
      (0 < answer.value → s.uses answer.value = none) ∧
        (answer.value = 0 ↔ pcre.matching? pattern flags str = some .noMatch)
  | .matchC str handle => ∀ use, s.uses handle = some use →
      (answer.value = 0 ↔ pcre.matching? use.pattern use.flags str = some .noMatch) ∧
        ∀ maxLen, answer.value = 0 ↔
          (regexMatch s.PEL str use.pattern maxLen use.flags).2.value = 0
  | .substr handle strId maxLen => ∀ use text, s.uses handle = some use → 0 ≤ strId →
      use.group? strId.toNat = some text →
        answer.value = 1 ∧ answer.text = some (setAmxString text maxLen)
  | .free _ => True

/-- The handles that the natives accept are those in use, and the answer is as it should be. -/
structure Right (s : Session pcre) (call : Call) : Prop where
  accepted : ∀ handle, (object? (s.call call).1.PEL handle).isSome ↔
    ((s.call call).1.uses handle).isSome
  answered : s.Answered (s.call call).2 call

/-- No match that is asked for has more groups than the vector holds, and no group that is
asked for is longer than the buffer of `regex_substr`, where the plugin has room for more. -/
def Allowed (s : Session pcre) : Call → Prop
  | .matchC str handle => ∀ use matching, s.uses handle = some use →
      pcre.matching? use.pattern use.flags str = some matching →
        matching.all.length ≤ Matching.room
  | .substr handle strId maxLen => ∀ use text, s.uses handle = some use → 0 ≤ strId →
      use.group? strId.toNat = some text →
        (∀ latest ∈ use.latest, latest.2.all.length ≤ Matching.room) ∧
          (text.length ≤ 4095 ∨ (0 ≤ maxLen ∧ maxLen ≤ 4095))
  | _ => True

end Session

end AmxModC.Regex
