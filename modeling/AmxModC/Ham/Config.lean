import AmxModC.Foundation.Numeral

namespace AmxModC.Ham.Config

open Foundation

/-! config_parser.cpp: the hooks of a mod from `hamdata.ini`. -/

def isBlank (c : Byte) : Bool := c = 32 ∨ c = 9

def isWhite (c : Byte) : Bool := c = 32 ∨ c = 9 ∨ c = 13 ∨ c = 10

/-! The texts of the tokens. -/

/-- `@section` -/
def startSec : List Byte := [64, 115, 101, 99, 116, 105, 111, 110]

/-- `@end` -/
def endSec : List Byte := [64, 101, 110, 100]

/-- `@mirror` -/
def mirror : List Byte := [64, 109, 105, 114, 114, 111, 114]

/-- `pev` -/
def pev : List Byte := [112, 101, 118]

/-- `base` -/
def base : List Byte := [98, 97, 115, 101]

/-- The `LEX_` constants that `lex` returns. -/
inductive Token
  | unknown
  | startSec
  | endSec
  | mirror
  | pev
  | base
deriving DecidableEq

/-- What `Offsets` and `hooklist` are given. -/
structure Settings where
  entries : Nat → Option (BitVec 32)
  pev : Option (BitVec 32)
  base : Option (BitVec 32)

namespace Settings

def initial : Settings := ⟨fun _ => none, none, none⟩

def setPev (s : Settings) (value : BitVec 32) : Settings := { s with pev := some value }

def setBase (s : Settings) (value : BitVec 32) : Settings := { s with base := some value }

def setEntry (s : Settings) (entry : Nat) (value : BitVec 32) : Settings :=
  { s with entries := fun other => if other = entry then some value else s.entries other }

end Settings

def trimLine (input : List Byte) : List Byte := (input.dropWhile isWhite).rdropWhile isWhite

/-- A pointer that is moved on; `none` is behind the end of the string. -/
def advance (s : List Byte) (n : Nat) : Option (List Byte) :=
  if n ≤ s.length then some (s.drop n) else none

/-- The token of a trimmed line, and what `buffer` points to then. -/
def lexTrimmed (buffer : List Byte) : Token × Option (List Byte) :=
  if startSec <+: buffer then (.startSec, advance buffer (startSec.length + 1))
  else if endSec <+: buffer then (.endSec, advance buffer (endSec.length + 1))
  else if mirror <+: buffer then (.mirror, advance buffer (mirror.length + 1))
  else if pev <+: buffer then (.pev, advance buffer (pev.length + 1))
  else if base <+: buffer then (.base, advance buffer (base.length + 1))
  else (.unknown, some buffer)

def lex (buffer : List Byte) : Token × Option (List Byte) := lexTrimmed (trimLine buffer)

def nameSize : Nat := 62

/-- `CurrentModName` afterwards. -/
def readMirror (currentModName input : List Byte) : List Byte :=
  let source := input.takeWhile fun c => !isBlank c
  let data2 := (input.dropWhile fun c => !isBlank c).dropWhile isBlank
  let dest := data2.takeWhile fun c => !isBlank c
  if dest.take nameSize = currentModName then source.take nameSize else currentModName

/-- Whether the section is one for the mod and for `platform`. -/
def readStartSection (platform currentModName data : List Byte) : Option Bool :=
  if currentModName <+: data then
    (advance data (currentModName.length + 1)).map fun data => trimLine data = platform
  else some false

/-- `strtoul` -/
def strtoul (base : Nat) (input : List Byte) : BitVec 32 :=
  let input := input.dropWhile isSpace
  let negative := input.head? = some 45
  let digits := if negative ∨ input.head? = some 43 then input.tail else input
  let digits := if base = 16 ∧ ([48, 120] <+: digits ∨ [48, 88] <+: digits) then digits.drop 2
    else digits
  let n := readDigits base 0 digits
  if n ≥ 2 ^ 32 then BitVec.allOnes 32
  else if negative then -BitVec.ofNat 32 n else BitVec.ofNat 32 n

def readNumber (input : List Byte) : BitVec 32 :=
  if [48, 120] <+: input ∨ [48, 88] <+: input then strtoul 16 input else strtoul 10 input

def processPev (settings : Settings) (data : List Byte) : Settings :=
  settings.setPev (readNumber (trimLine data))

def processBase (settings : Settings) (data : List Byte) : Settings :=
  settings.setBase (readNumber (trimLine data))

/-- `names` is the names in `hooklist`; `strncmp` looks at no more of them than the key has. -/
def processKey (names : List (List Byte)) (settings : Settings) (data : List Byte) :
    Option Settings :=
  let key := data.takeWhile fun c => !isBlank c
  if key.length = 0 then some settings
  else
    match names.findIdx? fun name => key <+: name with
    | some entry =>
        (advance data (key.length + 1)).map fun data =>
          settings.setEntry entry (readNumber (trimLine data))
    | none => some settings

structure State where
  currentModName : List Byte
  insec : Bool
  settings : Settings

inductive Platform
  | windows
  | linux
  | mac
deriving DecidableEq

def Platform.name : Platform → List Byte
  | windows => [119, 105, 110, 100, 111, 119, 115]
  | linux => [108, 105, 110, 117, 120]
  | mac => [109, 97, 99]

def IsWord (chars : List Byte) : Prop :=
  chars ≠ [] ∧ ∀ c ∈ chars, isWhite c = false ∧ c ≠ 59 ∧ c ≠ 0

instance (chars : List Byte) : Decidable (IsWord chars) :=
  inferInstanceAs (Decidable (_ ∧ _))

/-- What the compiled module knows: the names in `hooklist`, and its platform. -/
structure Target where
  names : List (List Byte)
  platform : Platform
  names_words : ∀ name ∈ names, IsWord name

/-- The `switch` of `ReadConfig`, and whether `skip_to_end_of_section` comes. -/
def process (t : Target) (s : State) (data : List Byte) : Option (State × Bool) :=
  match lex data with
  | (.pev, b) =>
      if s.insec then b.map fun b => ({ s with settings := processPev s.settings b }, false)
      else some (s, false)
  | (.base, b) =>
      if s.insec then b.map fun b => ({ s with settings := processBase s.settings b }, false)
      else some (s, false)
  | (.mirror, b) =>
      b.map fun b => ({ s with currentModName := readMirror s.currentModName b }, false)
  | (.startSec, b) => do
      let insec ← readStartSection t.platform.name s.currentModName (← b)
      some ({ s with insec := insec }, !insec)
  | (.endSec, _) => some ({ s with insec := false }, false)
  | (.unknown, b) =>
      if s.insec then do
        let settings ← processKey t.names s.settings (← b)
        some ({ s with settings := settings }, false)
      else some (s, false)

/-- What `fgets` gets in `skip_to_end_of_section`. -/
def skipSize : Nat := 1022

/-- What `fgets` gets in `ReadConfig`. -/
def readSize : Nat := 2046

def chars (buffer : List Byte) : List Byte := buffer.takeWhile (· ≠ 0)

def skipToEndOfSection : Nat → List Byte → Bool → Option (List Byte × Bool)
  | 0, _, _ => none
  | fuel + 1, fp, feof =>
      if feof then some (fp, true)
      else
        let (buffer, rest, feof) := fgets skipSize fp
        if (lex (trimLine (chars buffer))).1 = .endSec then some (rest, feof)
        else skipToEndOfSection fuel rest feof

/-- The loop of `ReadConfig`. Every turn but the last takes a byte, so `fuel` is for the length
of the file; `none` is also a read behind the end of a line. -/
def readLoop (t : Target) : Nat → State → List Byte → Bool → Option State
  | 0, _, _, _ => none
  | fuel + 1, s, fp, feof =>
      if feof then some s
      else do
        let (data, rest, feof) := fgets readSize fp
        let (s, skip) ← process t s (chars data)
        if skip then
          let (rest, feof) ← skipToEndOfSection (rest.length + 2) rest feof
          readLoop t fuel s rest feof
        else readLoop t fuel s rest feof

/-- `ReadConfig` of a file that opens. -/
def readConfig (t : Target) (modName file : List Byte) : Option Settings :=
  (readLoop t (file.length + 2) ⟨modName.take nameSize, false, .initial⟩ file false).map
    State.settings

end AmxModC.Ham.Config
