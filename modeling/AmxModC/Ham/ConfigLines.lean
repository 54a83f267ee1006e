import AmxModC.Ham.Config

namespace AmxModC.Ham.Config

open Foundation

/-! The lines that a file is made of, what they give, and when `ReadConfig` reads just that. -/

structure Word where
  chars : List Byte
  isWord : IsWord chars

def tokens : List (List Byte) := [startSec, endSec, mirror, pev, base]

structure Key extends Word where
  notToken : chars ∉ tokens

/-- A number of 32 bits, behind `0x` or `0X` if its digits are hexadecimal. -/
structure Number where
  mark : List Byte
  digits : List Byte
  mark_eq : mark = [] ∨ mark = [48, 120] ∨ mark = [48, 88]
  nonempty : digits ≠ []
  valid : ∀ c ∈ digits, (digit? (if mark = [] then 10 else 16) c).isSome = true
  small : readDigits (if mark = [] then 10 else 16) 0 digits < 2 ^ 32

def Number.text (n : Number) : List Byte := n.mark ++ n.digits

def Number.value (n : Number) : BitVec 32 :=
  BitVec.ofNat 32 (readDigits (if n.mark = [] then 10 else 16) 0 n.digits)

structure Gap where
  first : Byte
  more : List Byte
  blank : ∀ c ∈ first :: more, isBlank c = true

def Gap.text (gap : Gap) : List Byte := gap.first :: gap.more

inductive Content
  | blank
  | mirror (gap : Gap) (source : Word) (gap' : Gap) (dest : Word)
  | startSec (gap : Gap) (modName : Word) (gap' : Gap) (platform : Word)
  | endSec
  | pev (gap : Gap) (number : Number)
  | base (gap : Gap) (number : Number)
  | key (name : Key) (gap : Gap) (number : Number)

def Content.text : Content → List Byte
  | blank => []
  | mirror gap source gap' dest =>
      Config.mirror ++ (gap.text ++ (source.chars ++ (gap'.text ++ dest.chars)))
  | startSec gap modName gap' platform =>
      Config.startSec ++ (gap.text ++ (modName.chars ++ (gap'.text ++ platform.chars)))
  | endSec => Config.endSec
  | pev gap number => Config.pev ++ (gap.text ++ number.text)
  | base gap number => Config.base ++ (gap.text ++ number.text)
  | key name gap number => name.chars ++ (gap.text ++ number.text)

structure Line where
  indent : List Byte
  content : Content
  tail : List Byte
  comment : Option (List Byte)
  indent_white : ∀ c ∈ indent, isWhite c = true ∧ c ≠ newline
  tail_white : ∀ c ∈ tail, isWhite c = true ∧ c ≠ newline
  comment_line : ∀ chars ∈ comment, newline ∉ chars

def Line.remark (l : Line) : List Byte := l.comment.elim [] (59 :: ·)

def Line.text (l : Line) : List Byte := l.indent ++ (l.content.text ++ (l.tail ++ l.remark))

def ending (fileText : List Byte) : List Line → List Byte
  | [] => []
  | _ :: _ => newline :: fileText

def fileText : List Line → List Byte
  | [] => []
  | l :: rest => l.text ++ ending (fileText rest) rest

inductive Mode
  | outside
  | inside
  | skipping
deriving DecidableEq

structure Given where
  currentModName : List Byte
  mode : Mode
  settings : Settings

namespace Given

def read (t : Target) (g : Given) : Content → Given
  | .blank => g
  | .mirror _ source _ dest =>
      if dest.chars = g.currentModName then { g with currentModName := source.chars } else g
  | .startSec _ modName _ platform =>
      { g with mode :=
          if modName.chars = g.currentModName ∧ platform.chars = t.platform.name then .inside
          else .skipping }
  | .endSec => { g with mode := .outside }
  | .pev _ number =>
      if g.mode = .inside then { g with settings := g.settings.setPev number.value } else g
  | .base _ number =>
      if g.mode = .inside then { g with settings := g.settings.setBase number.value } else g
  | .key name _ number =>
      if g.mode = .inside then
        match t.names.findIdx? (· = name.chars) with
        | some entry => { g with settings := g.settings.setEntry entry number.value }
        | none => g
      else g

def skip (g : Given) : Content → Given
  | .endSec => { g with mode := .outside }
  | _ => g

def line (t : Target) (g : Given) (l : Line) : Given :=
  if g.mode = .skipping then g.skip l.content else g.read t l.content

def initial (modName : List Byte) : Given := ⟨modName, .outside, .initial⟩

end Given

def given (t : Target) (modName : List Byte) (lines : List Line) : Settings :=
  (lines.foldl (Given.line t) (.initial modName)).settings

/-! When a line is read as what it says. -/

def Line.Apart (l : Line) : Prop := l.comment = none ∨ ∃ c ∈ l.tail.head?, isBlank c = true

def MirrorPlain (g : Given) (apart : Prop) (gap : Gap) (source dest : List Byte) : Prop :=
  if gap.more = [] then
    (dest = g.currentModName → source.length ≤ nameSize ∧ apart) ∧
      (dest.take nameSize = g.currentModName → dest.length ≤ nameSize)
  else source.take nameSize ≠ g.currentModName ∧ dest ≠ g.currentModName

def StartSecPlain (t : Target) (g : Given) (comment : Option (List Byte)) (gap : Gap)
    (modName platform : List Byte) : Prop :=
  platform = t.platform.name →
    (modName = g.currentModName → gap.more = [] ∧ comment = none) ∧
      (modName.dropLast = g.currentModName → gap.more ≠ [] ∨ comment ≠ none)

def KeyPlain (t : Target) (name : List Byte) : Prop :=
  (∀ token ∈ tokens, ¬token <+: name) ∧
    ∀ earlier ∈ t.names.takeWhile (· ≠ name), ¬name <+: earlier

def Line.ReadPlain (t : Target) (g : Given) (l : Line) : Prop :=
  match l.content with
  | .mirror gap source _ dest => MirrorPlain g l.Apart gap source.chars dest.chars
  | .startSec gap modName _ platform =>
      StartSecPlain t g l.comment gap modName.chars platform.chars
  | .key name _ _ =>
      if g.mode = .inside then KeyPlain t name.chars
      else ¬startSec <+: name.chars ∧ ¬mirror <+: name.chars
  | _ => True

def Line.SkipPlain (l : Line) : Prop :=
  l.text.length ≤ skipSize ∧
    match l.content with
    | .key name _ _ => ¬endSec <+: name.chars
    | _ => True

def Line.Plain (t : Target) (g : Given) (l : Line) : Prop :=
  if g.mode = .skipping then l.SkipPlain else l.ReadPlain t g

def Plain (t : Target) : Given → List Line → Prop
  | _, [] => True
  | g, l :: rest => l.Plain t g ∧ Plain t (g.line t l) rest

/-! Words, and what stands behind them. -/

section Words

variable {s w front middle rest indent token : List Byte}

structure Solid (s : List Byte) : Prop where
  starts : ∃ c rest, s = c :: rest ∧ isWhite c = false
  ends : ∃ c front, s = front ++ [c] ∧ isWhite c = false

def Stops (rest : List Byte) : Prop := ∀ c ∈ rest.head?, isWhite c = true ∨ c = 59

theorem isBlank_of_word {c : Byte} (h : isWhite c = false) : isBlank c = false := by
  by_contra hblank
  have hor : c = 32 ∨ c = 9 := of_decide_eq_true (Bool.eq_true_of_not_eq_false hblank)
  rcases hor with rfl | rfl <;> cases h

theorem isWhite_of_isBlank {c : Byte} (h : isBlank c = true) : isWhite c = true := by
  by_contra hword
  rw [isBlank_of_word (by simpa using hword)] at h
  cases h

theorem IsWord.solid (h : IsWord s) : Solid s where
  starts := by
    obtain ⟨c, rest, rfl⟩ := List.exists_cons_of_ne_nil h.1
    exact ⟨c, rest, rfl, (h.2 c List.mem_cons_self).1⟩
  ends := by
    obtain ⟨front, c, rfl⟩ := (List.eq_nil_or_concat s).resolve_left h.1
    exact ⟨c, front, List.concat_eq_append, (h.2 c (by simp)).1⟩

theorem Solid.append (hfront : Solid front) (hs : Solid s) (middle : List Byte) :
    Solid (front ++ (middle ++ s)) where
  starts := by
    obtain ⟨c, rest, rfl, hc⟩ := hfront.starts
    exact ⟨c, rest ++ (middle ++ s), rfl, hc⟩
  ends := by
    obtain ⟨c, back, rfl, hc⟩ := hs.ends
    exact ⟨c, front ++ (middle ++ back), by simp only [List.append_assoc], hc⟩

theorem rdropWhile_append (h : ∃ c front', front = front' ++ [c] ∧ isWhite c = false)
    (rest : List Byte) :
    (front ++ rest).rdropWhile isWhite = front ++ rest.rdropWhile isWhite := by
  obtain ⟨c, front', rfl, hc⟩ := h
  induction rest using List.reverseRecOn with
  | nil =>
      rw [List.append_nil, List.rdropWhile_concat_neg _ _ _ (by simp [hc])]
      exact (List.append_nil _).symm
  | append_singleton rest d ih =>
      cases hd : isWhite d with
      | true =>
          rw [← List.append_assoc, List.rdropWhile_concat_pos _ _ _ hd,
            List.rdropWhile_concat_pos _ _ _ hd]
          exact ih
      | false =>
          rw [← List.append_assoc, List.rdropWhile_concat_neg _ _ _ (by simp [hd]),
            List.rdropWhile_concat_neg _ _ _ (by simp [hd])]
          exact List.append_assoc ..

theorem trimLine_solid (h : Solid s) (hindent : ∀ c ∈ indent, isWhite c = true)
    (rest : List Byte) :
    trimLine (indent ++ (s ++ rest)) = s ++ rest.rdropWhile isWhite := by
  obtain ⟨c, rest', hs, hc⟩ := h.starts
  have hkeep : (s ++ rest).dropWhile isWhite = s ++ rest := by
    rw [hs, List.cons_append, List.dropWhile_cons_of_neg (by simp [hc])]
  rw [trimLine, List.dropWhile_append_of_pos hindent, hkeep, rdropWhile_append h.ends]

theorem trimLine_white (h : ∀ c ∈ s, isWhite c = true) : trimLine s = [] := by
  rw [trimLine, List.dropWhile_eq_nil_iff.mpr h]
  rfl

theorem Stops.of_prefix (h : Stops rest) (hbegins : s <+: rest) : Stops s := by
  intro c hc
  obtain ⟨back, rfl⟩ := hbegins
  refine h c ?_
  rw [List.head?_append, Option.mem_def.mp hc]
  rfl

theorem Stops.trim (h : Stops rest) : Stops (rest.rdropWhile isWhite) :=
  h.of_prefix (List.rdropWhile_prefix _ _)

theorem IsWord.not_mem_of_stops (h : IsWord w) (hrest : Stops rest) :
    ∀ c ∈ rest.head?, c ∉ w := by
  intro c hc hmem
  obtain ⟨hwhite, hcomment, -⟩ := h.2 c hmem
  rcases hrest c hc with htrue | rfl
  · rw [hwhite] at htrue
    cases htrue
  · exact hcomment rfl

theorem IsWord.prefix_append (h : IsWord w) (hrest : Stops rest) :
    w <+: s ++ rest ↔ w <+: s := by
  refine ⟨fun hbegins => ?_, fun hbegins => hbegins.trans (List.prefix_append _ _)⟩
  rcases List.prefix_or_prefix_of_prefix hbegins (List.prefix_append s rest) with hle | ⟨more, rfl⟩
  · exact hle
  · cases more with
    | nil => exact (List.append_nil s).symm ▸ List.prefix_rfl
    | cons c more =>
        obtain ⟨back, hback⟩ := (List.prefix_append_right_inj s).mp hbegins
        have hhead : c ∈ rest.head? := by
          rw [← hback]
          rfl
        exact absurd (by simp) (h.not_mem_of_stops hrest c hhead)

theorem IsWord.takeWhile (h : IsWord w) (rest : List Byte) :
    (w ++ rest).takeWhile (fun c => !isBlank c) = w ++ rest.takeWhile fun c => !isBlank c :=
  List.takeWhile_append_of_pos fun c hc => by rw [isBlank_of_word (h.2 c hc).1]; rfl

theorem IsWord.dropWhile (h : IsWord w) (rest : List Byte) :
    (w ++ rest).dropWhile (fun c => !isBlank c) = rest.dropWhile fun c => !isBlank c :=
  List.dropWhile_append_of_pos fun c hc => by rw [isBlank_of_word (h.2 c hc).1]; rfl

theorem IsWord.dropBlanks (h : IsWord w) (rest : List Byte) :
    (w ++ rest).dropWhile isBlank = w ++ rest := by
  obtain ⟨c, rest', rfl⟩ := List.exists_cons_of_ne_nil h.1
  rw [List.cons_append, List.dropWhile_cons_of_neg]
  simp [isBlank_of_word (h.2 c List.mem_cons_self).1]

theorem isWord_of_mem_tokens (h : token ∈ tokens) : IsWord token := by
  have hall : ∀ token ∈ tokens, IsWord token := by decide
  exact hall token h

theorem Platform.isWord (platform : Platform) : IsWord platform.name := by
  cases platform <;> decide

end Words

namespace Gap

variable (gap : Gap) (rest : List Byte)

theorem takeWhile : (gap.text ++ rest).takeWhile (fun c => !isBlank c) = [] :=
  List.takeWhile_cons_of_neg (by simp [gap.blank gap.first List.mem_cons_self])

theorem dropWhile : (gap.text ++ rest).dropWhile (fun c => !isBlank c) = gap.text ++ rest :=
  List.dropWhile_cons_of_neg (by simp [gap.blank gap.first List.mem_cons_self])

theorem dropBlanks : (gap.text ++ rest).dropWhile isBlank = rest.dropWhile isBlank :=
  List.dropWhile_append_of_pos gap.blank

theorem white : ∀ c ∈ gap.text, isWhite c = true := fun c hc => isWhite_of_isBlank (gap.blank c hc)

theorem more_white : ∀ c ∈ gap.more, isWhite c = true := fun c hc =>
  gap.white c (List.mem_cons_of_mem _ hc)

theorem stops : Stops (gap.text ++ rest) := by
  intro c hc
  cases hc
  exact Or.inl (gap.white gap.first List.mem_cons_self)

end Gap

/-! Numbers. -/

section Numbers

variable {base : Nat} {c : Byte} {digits rest : List Byte}

theorem digit?_plain (hdigit : (digit? base c).isSome = true) (hbase : base ≤ 36) :
    isWhite c = false ∧ isSpace c = false ∧ c ≠ 59 ∧ c ≠ 0 ∧ c ≠ 45 ∧ c ≠ 43 := by
  have hall : ∀ c : Byte, (digit? 36 c).isSome = true →
      isWhite c = false ∧ isSpace c = false ∧ c ≠ 59 ∧ c ≠ 0 ∧ c ≠ 45 ∧ c ≠ 43 := by
    decide
  obtain ⟨value, hvalue⟩ :
      ∃ value, ∀ base, digit? base c = if value < base then some value else none :=
    ⟨_, fun _ => rfl⟩
  refine hall c ?_
  rw [hvalue] at hdigit ⊢
  split at hdigit
  next hlt => rw [if_pos (lt_of_lt_of_le hlt hbase)]; rfl
  next => cases hdigit

theorem digit?_stops (hbase : base ≤ 36) (hstops : isWhite c = true ∨ c = 59) :
    digit? base c = none := by
  cases hdigit : digit? base c with
  | none => rfl
  | some digit =>
      obtain ⟨hwhite, -, hcomment, -⟩ := digit?_plain (by rw [hdigit]; rfl) hbase
      rcases hstops with htrue | rfl
      · rw [hwhite] at htrue
        cases htrue
      · exact absurd rfl hcomment

theorem readDigits_stops (hbase : base ≤ 36)
    (hdigits : ∀ c ∈ digits, (digit? base c).isSome = true) (hrest : Stops rest) (sofar : Nat) :
    readDigits base sofar (digits ++ rest) = readDigits base sofar digits := by
  induction digits generalizing sofar with
  | nil =>
      cases rest with
      | nil => rfl
      | cons c rest =>
          simp only [List.nil_append, readDigits, digit?_stops hbase (hrest c rfl)]
  | cons c digits ih =>
      obtain ⟨hc, hdigits⟩ := List.forall_mem_cons.mp hdigits
      obtain ⟨digit, hdigit⟩ := Option.isSome_iff_exists.mp hc
      rw [List.cons_append, readDigits, readDigits, hdigit]
      exact ih hdigits _

theorem strtoul_digits (hvalid : ∀ c ∈ digits, (digit? base c).isSome = true)
    (hnonempty : digits ≠ []) (hbase : base ≤ 36) (hrest : Stops rest)
    (hsmall : readDigits base 0 digits < 2 ^ 32) (hmark : base ≠ 16) :
    strtoul base (digits ++ rest) = BitVec.ofNat 32 (readDigits base 0 digits) := by
  obtain ⟨c, digits, rfl⟩ := List.exists_cons_of_ne_nil hnonempty
  obtain ⟨-, hspace, -, -, hminus, hplus⟩ := digit?_plain (hvalid c List.mem_cons_self) hbase
  have hread := readDigits_stops hbase hvalid hrest 0
  rw [List.cons_append] at hread ⊢
  have hdrop : (c :: (digits ++ rest)).dropWhile isSpace = c :: (digits ++ rest) :=
    List.dropWhile_cons_of_neg (by simp [hspace])
  simp only [strtoul, hdrop, List.head?_cons, Option.some.injEq, hminus, hplus, or_self, if_false,
    hmark, false_and, hread]
  rw [if_neg (not_le.mpr hsmall)]

theorem strtoul_marked {x : Byte} (hx : x = 120 ∨ x = 88)
    (hvalid : ∀ c ∈ digits, (digit? 16 c).isSome = true) (hrest : Stops rest)
    (hsmall : readDigits 16 0 digits < 2 ^ 32) :
    strtoul 16 (48 :: x :: (digits ++ rest)) = BitVec.ofNat 32 (readDigits 16 0 digits) := by
  have hread := readDigits_stops (by decide) hvalid hrest 0
  have hdrop : (48 :: x :: (digits ++ rest)).dropWhile isSpace = 48 :: x :: (digits ++ rest) :=
    List.dropWhile_cons_of_neg (by decide)
  have hmark : [48, 120] <+: 48 :: x :: (digits ++ rest) ∨
      [48, 88] <+: 48 :: x :: (digits ++ rest) := by
    rcases hx with rfl | rfl
    · exact Or.inl (List.prefix_append [48, 120] _)
    · exact Or.inr (List.prefix_append [48, 88] _)
  have hsign : ((48 : Byte) = 45) = False ∧ ((48 : Byte) = 43) = False := by decide
  simp only [strtoul, hdrop, List.head?_cons, Option.some.injEq, hsign, or_self, if_false, hmark,
    and_self, if_true, List.drop_succ_cons, List.drop_zero, hread]
  rw [if_neg (not_le.mpr hsmall)]

theorem not_marked (hvalid : ∀ c ∈ digits, (digit? 10 c).isSome = true) (hnonempty : digits ≠ [])
    (hrest : Stops rest) {x : Byte} (hx : x = 120 ∨ x = 88) : ¬[48, x] <+: digits ++ rest := by
  intro hbegins
  have hnone : digit? 10 x = none ∧ isWhite x = false ∧ x ≠ 59 := by
    rcases hx with rfl | rfl <;> decide
  obtain ⟨c, digits, rfl⟩ := List.exists_cons_of_ne_nil hnonempty
  cases digits with
  | nil =>
      obtain ⟨-, back, rfl⟩ := List.cons_prefix_cons.mp hbegins
      rcases hrest x rfl with htrue | rfl
      · rw [hnone.2.1] at htrue
        cases htrue
      · exact hnone.2.2 rfl
  | cons d digits =>
      obtain ⟨-, htail⟩ := List.cons_prefix_cons.mp hbegins
      obtain ⟨rfl, -⟩ := List.cons_prefix_cons.mp htail
      have hsome := hvalid x (by simp)
      rw [hnone.1] at hsome
      cases hsome

end Numbers

namespace Number

variable (n : Number)

theorem isWord : IsWord n.text := by
  refine ⟨List.append_ne_nil_of_right_ne_nil _ n.nonempty, fun c hc => ?_⟩
  rcases List.mem_append.mp hc with hmark | hdigit
  · have hall : ∀ mark ∈ [[], [48, 120], [(48 : Byte), 88]], ∀ c ∈ mark,
        isWhite c = false ∧ c ≠ 59 ∧ c ≠ 0 := by decide
    exact hall n.mark (by simpa using n.mark_eq) c hmark
  · obtain ⟨hwhite, -, hcomment, hnul, -⟩ :=
      digit?_plain (n.valid c hdigit) (by split <;> decide)
    exact ⟨hwhite, hcomment, hnul⟩

theorem read {rest : List Byte} (hrest : Stops rest) : readNumber (n.text ++ rest) = n.value := by
  obtain ⟨mark, digits, hmark, hnonempty, hvalid, hsmall⟩ := n
  rw [Number.text, Number.value]
  rcases hmark with rfl | rfl | rfl
  · rw [List.nil_append, readNumber, if_neg]
    · exact strtoul_digits hvalid hnonempty (by decide) hrest hsmall (by decide)
    · rw [not_or]
      exact ⟨not_marked hvalid hnonempty hrest (Or.inl rfl),
        not_marked hvalid hnonempty hrest (Or.inr rfl)⟩
  · change readNumber ([48, 120] ++ (digits ++ rest)) = _
    rw [readNumber, if_pos (Or.inl (List.prefix_append _ _))]
    exact strtoul_marked (Or.inl rfl) hvalid hrest hsmall
  · change readNumber ([48, 88] ++ (digits ++ rest)) = _
    rw [readNumber, if_pos (Or.inr (List.prefix_append _ _))]
    exact strtoul_marked (Or.inr rfl) hvalid hrest hsmall

theorem read_trimLine {blanks rest : List Byte} (hblanks : ∀ c ∈ blanks, isWhite c = true)
    (hrest : Stops rest) : readNumber (trimLine (blanks ++ (n.text ++ rest))) = n.value := by
  rw [trimLine_solid n.isWord.solid hblanks]
  exact n.read hrest.trim

end Number

/-! A line in the buffer. -/

theorem zero_notMem_white {s : List Byte} (h : ∀ c ∈ s, isWhite c = true) : 0 ∉ s := fun hmem =>
  absurd (h 0 hmem) (by decide)

def Readable (s : List Byte) : Prop :=
  ∀ c ∈ s, isBlank c = true ∨ isWhite c = false ∧ c ≠ 59 ∧ c ≠ 0

theorem Readable.append {s s' : List Byte} (h : Readable s) (h' : Readable s') :
    Readable (s ++ s') := fun c hc => (List.mem_append.mp hc).elim (h c) (h' c)

theorem IsWord.readable {w : List Byte} (h : IsWord w) : Readable w := fun c hc =>
  Or.inr (h.2 c hc)

theorem Gap.readable (gap : Gap) : Readable gap.text := fun c hc => Or.inl (gap.blank c hc)

namespace Content

variable {content : Content}

theorem solid (h : content ≠ .blank) : Solid content.text := by
  have htoken : ∀ {token}, token ∈ tokens → Solid token := fun hmem =>
    (isWord_of_mem_tokens hmem).solid
  cases content with
  | blank => exact absurd rfl h
  | mirror gap source gap' dest =>
      exact (htoken (by decide)).append
        ((source.isWord.solid).append dest.isWord.solid gap'.text) gap.text
  | startSec gap modName gap' platform =>
      exact (htoken (by decide)).append
        ((modName.isWord.solid).append platform.isWord.solid gap'.text) gap.text
  | endSec => exact htoken (by decide)
  | pev gap number => exact (htoken (by decide)).append number.isWord.solid gap.text
  | base gap number => exact (htoken (by decide)).append number.isWord.solid gap.text
  | key name gap number => exact name.isWord.solid.append number.isWord.solid gap.text

theorem readable : Readable content.text := by
  have htoken : ∀ {token}, token ∈ tokens → Readable token := fun hmem =>
    (isWord_of_mem_tokens hmem).readable
  cases content with
  | blank => exact fun c hc => absurd hc List.not_mem_nil
  | mirror gap source gap' dest =>
      exact (htoken (by decide)).append
        (gap.readable.append
          (source.isWord.readable.append (gap'.readable.append dest.isWord.readable)))
  | startSec gap modName gap' platform =>
      exact (htoken (by decide)).append
        (gap.readable.append
          (modName.isWord.readable.append (gap'.readable.append platform.isWord.readable)))
  | endSec => exact htoken (by decide)
  | pev gap number =>
      exact (htoken (by decide)).append (gap.readable.append number.isWord.readable)
  | base gap number =>
      exact (htoken (by decide)).append (gap.readable.append number.isWord.readable)
  | key name gap number =>
      exact name.isWord.readable.append (gap.readable.append number.isWord.readable)

theorem zero_notMem : 0 ∉ content.text := by
  intro hmem
  rcases readable _ hmem with hblank | ⟨-, -, hne⟩
  · cases hblank
  · exact hne rfl

theorem newline_notMem : newline ∉ content.text := by
  intro hmem
  rcases readable _ hmem with hblank | ⟨hwhite, -⟩
  · cases hblank
  · cases hwhite

end Content

structure Trails (l : Line) (rest : List Byte) : Prop where
  clean : l.comment = none → rest = []
  commented : l.comment ≠ none → ∃ text, rest = l.tail ++ 59 :: text

section Lines

variable {l : Line} {rest e : List Byte}

theorem Line.newline_notMem (l : Line) : newline ∉ l.text := by
  have hremark : newline ∉ l.remark := by
    rw [Line.remark]
    cases hcomment : l.comment with
    | none => exact List.not_mem_nil
    | some chars =>
        exact List.not_mem_cons_of_ne_of_not_mem (by decide) (l.comment_line chars hcomment)
  simp only [Line.text, List.mem_append, not_or]
  exact ⟨fun hmem => (l.indent_white _ hmem).2 rfl, Content.newline_notMem,
    fun hmem => (l.tail_white _ hmem).2 rfl, hremark⟩

theorem Trails.stops (h : Trails l rest) : Stops rest := by
  cases hcomment : l.comment with
  | none =>
      rw [h.clean hcomment]
      exact fun c hc => absurd hc (by simp)
  | some chars =>
      obtain ⟨text, rfl⟩ := h.commented (by simp [hcomment])
      intro c hc
      cases htail : l.tail with
      | nil =>
          rw [htail] at hc
          cases hc
          exact Or.inr rfl
      | cons d tail =>
          rw [htail] at hc
          cases hc
          exact Or.inl (l.tail_white _ (by rw [htail]; exact List.mem_cons_self)).1

theorem rdropWhile_comment (tail text : List Byte) :
    (tail ++ 59 :: text).rdropWhile isWhite = tail ++ 59 :: text.rdropWhile isWhite := by
  have h := rdropWhile_append ⟨59, tail, rfl, by decide⟩ text
  rwa [List.append_assoc, List.append_assoc] at h

theorem Trails.trim (h : Trails l rest) : Trails l (rest.rdropWhile isWhite) where
  clean hcomment := by
    rw [h.clean hcomment]
    rfl
  commented hcomment := by
    obtain ⟨text, rfl⟩ := h.commented hcomment
    exact ⟨_, rdropWhile_comment l.tail text⟩

theorem chars_append {front : List Byte} (h : 0 ∉ front) (rest : List Byte) :
    chars (front ++ rest) = front ++ chars rest :=
  List.takeWhile_append_of_pos fun c hc => by
    rw [decide_eq_true_eq]
    rintro rfl
    exact h hc

theorem trails_remark (he : ∀ c ∈ e, c = newline) :
    Trails l ((l.tail ++ chars (l.remark ++ e)).rdropWhile isWhite) where
  clean hcomment := by
    have hremark : l.remark = [] := by rw [Line.remark, hcomment]; rfl
    rw [hremark, List.nil_append, List.rdropWhile_eq_nil_iff]
    intro c hc
    rcases List.mem_append.mp hc with htail | hend
    · exact (l.tail_white c htail).1
    · rw [he c ((List.takeWhile_sublist _).subset hend)]
      rfl
  commented hcomment := by
    obtain ⟨text, htext⟩ := Option.ne_none_iff_exists'.mp hcomment
    have hremark : l.remark = 59 :: text := by rw [Line.remark, htext]; rfl
    have hchars : chars (59 :: (text ++ e)) = 59 :: chars (text ++ e) := rfl
    rw [hremark, List.cons_append, hchars, rdropWhile_comment]
    exact ⟨_, rfl⟩

theorem trimLine_text (h : l.content ≠ .blank) (he : ∀ c ∈ e, c = newline) :
    ∃ rest, Trails l rest ∧ trimLine (chars (l.text ++ e)) = l.content.text ++ rest := by
  have hindent : ∀ c ∈ l.indent, isWhite c = true := fun c hc => (l.indent_white c hc).1
  have htail : ∀ c ∈ l.tail, isWhite c = true := fun c hc => (l.tail_white c hc).1
  refine ⟨_, trails_remark he, ?_⟩
  rw [Line.text, List.append_assoc, List.append_assoc, List.append_assoc,
    chars_append (zero_notMem_white hindent), chars_append Content.zero_notMem,
    chars_append (zero_notMem_white htail), trimLine_solid (Content.solid h) hindent]

theorem trimLine_blank (h : l.content = .blank) (he : ∀ c ∈ e, c = newline) :
    trimLine (chars (l.text ++ e)) = [] ∨
      ∃ text, trimLine (chars (l.text ++ e)) = 59 :: text := by
  have hwhite : ∀ c ∈ l.indent ++ l.tail, isWhite c = true := fun c hc =>
    (List.mem_append.mp hc).elim (fun hc => (l.indent_white c hc).1)
      fun hc => (l.tail_white c hc).1
  have htext : l.text ++ e = (l.indent ++ l.tail) ++ (l.remark ++ e) := by
    rw [Line.text, h]
    simp only [Content.text, List.nil_append, List.append_assoc]
  rw [htext, chars_append (zero_notMem_white hwhite)]
  cases hcomment : l.comment with
  | none =>
      have hremark : l.remark = [] := by rw [Line.remark, hcomment]; rfl
      rw [hremark, List.nil_append]
      refine Or.inl (trimLine_white fun c hc => ?_)
      rcases List.mem_append.mp hc with hleft | hend
      · exact hwhite c hleft
      · rw [he c ((List.takeWhile_sublist _).subset hend)]
        rfl
  | some text =>
      have hremark : l.remark = 59 :: text := by rw [Line.remark, hcomment]; rfl
      have hsolid : Solid [59] := ⟨⟨59, [], rfl, by decide⟩, ⟨59, [], rfl, by decide⟩⟩
      have hchars : chars (l.remark ++ e) = [59] ++ chars (text ++ e) := by rw [hremark]; rfl
      rw [hchars, trimLine_solid hsolid hwhite]
      exact Or.inr ⟨_, rfl⟩

end Lines

end AmxModC.Ham.Config
