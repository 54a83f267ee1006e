import AmxModC.Ham.ConfigLines

namespace AmxModC.Ham.Config

open Foundation

/-! What `lex` finds, and what the `switch` makes of it. -/

section Lex

variable {rest w : List Byte} {c : Byte}

theorem advance_cons (front : List Byte) :
    advance (front ++ c :: rest) (front.length + 1) = some rest := by
  have hle : front.length + 1 ≤ (front ++ c :: rest).length := by
    rw [List.length_append, List.length_cons]
    omega
  rw [advance, if_pos hle, List.drop_length_add_append]
  rfl

theorem lexTrimmed_startSec :
    lexTrimmed (startSec ++ c :: rest) = (.startSec, some rest) := by
  rw [lexTrimmed, if_pos (List.prefix_append _ _), advance_cons]

theorem lexTrimmed_endSec : (lexTrimmed (endSec ++ rest)).1 = .endSec := by
  rw [lexTrimmed, if_neg (by simp [startSec, endSec]), if_pos (List.prefix_append _ _)]

theorem lexTrimmed_mirror : lexTrimmed (mirror ++ c :: rest) = (.mirror, some rest) := by
  rw [lexTrimmed, if_neg (by simp [startSec, mirror]), if_neg (by simp [endSec, mirror]),
    if_pos (List.prefix_append _ _), advance_cons]

theorem lexTrimmed_pev : lexTrimmed (pev ++ c :: rest) = (.pev, some rest) := by
  rw [lexTrimmed, if_neg (by simp [startSec, pev]), if_neg (by simp [endSec, pev]),
    if_neg (by simp [mirror, pev]), if_pos (List.prefix_append _ _), advance_cons]

theorem lexTrimmed_base : lexTrimmed (base ++ c :: rest) = (.base, some rest) := by
  rw [lexTrimmed, if_neg (by simp [startSec, base]), if_neg (by simp [endSec, base]),
    if_neg (by simp [mirror, base]), if_neg (by simp [pev, base]),
    if_pos (List.prefix_append _ _), advance_cons]

theorem lexTrimmed_unknown (h : ∀ token ∈ tokens, ¬token <+: w) :
    lexTrimmed w = (.unknown, some w) := by
  rw [lexTrimmed, if_neg (h startSec (by decide)), if_neg (h endSec (by decide)),
    if_neg (h mirror (by decide)), if_neg (h pev (by decide)), if_neg (h base (by decide))]

theorem lexTrimmed_outside (hstart : ¬startSec <+: w) (hmirror : ¬mirror <+: w) :
    (lexTrimmed w).1 ≠ .startSec ∧ (lexTrimmed w).1 ≠ .mirror := by
  rw [lexTrimmed, if_neg hstart, if_neg hmirror]
  (repeat' split) <;> exact ⟨nofun, nofun⟩

theorem lexTrimmed_ne_endSec (h : ¬endSec <+: w) : (lexTrimmed w).1 ≠ .endSec := by
  rw [lexTrimmed, if_neg h]
  (repeat' split) <;> nofun

end Lex

namespace Given

def state (g : Given) : State := ⟨g.currentModName, g.mode = .inside, g.settings⟩

structure Named (g : Given) : Prop where
  word : IsWord g.currentModName
  fits : g.currentModName.length ≤ nameSize

end Given

section Process

variable {t : Target} {g : Given} {l : Line} {rest data : List Byte}

theorem findIdx?_prefix {name : List Byte} {names : List (List Byte)}
    (h : ∀ earlier ∈ names.takeWhile (· ≠ name), ¬name <+: earlier) :
    (names.findIdx? fun earlier => name <+: earlier) = names.findIdx? (· = name) := by
  induction names with
  | nil => rfl
  | cons first names ih =>
      rw [List.findIdx?_cons, List.findIdx?_cons]
      by_cases heq : first = name
      · rw [if_pos (decide_eq_true heq), if_pos (decide_eq_true (heq ▸ List.prefix_rfl))]
      · rw [List.takeWhile_cons_of_pos (by simp [heq])] at h
        obtain ⟨hfirst, hnames⟩ := List.forall_mem_cons.mp h
        rw [if_neg (by simp [hfirst]), if_neg (by simp [heq]), ih hnames]

theorem processKey_comment (t : Target) (settings : Settings) {s : List Byte}
    (h : s = [] ∨ ∃ text, s = 59 :: text) : processKey t.names settings s = some settings := by
  rcases h with rfl | ⟨text, rfl⟩
  · rfl
  · have hkey : (59 :: text).takeWhile (fun c => !isBlank c) =
        59 :: text.takeWhile fun c => !isBlank c := rfl
    have hnone : (t.names.findIdx? fun name =>
        59 :: (text.takeWhile fun c => !isBlank c) <+: name) = none := by
      rw [List.findIdx?_eq_none_iff]
      intro name hmem
      rw [decide_eq_false_iff_not]
      rintro ⟨back, rfl⟩
      exact ((t.names_words _ hmem).2 59 List.mem_cons_self).2.1 rfl
    simp only [processKey, hkey, hnone]
    rfl

theorem processKey_key (name : Key) (gap : Gap) (number : Number) (settings : Settings)
    (hplain : KeyPlain t name.chars) (hrest : Stops rest) :
    processKey t.names settings (name.chars ++ (gap.text ++ (number.text ++ rest))) =
      some (match t.names.findIdx? (· = name.chars) with
        | some entry => settings.setEntry entry number.value
        | none => settings) := by
  have hkey : (name.chars ++ (gap.text ++ (number.text ++ rest))).takeWhile
      (fun c => !isBlank c) = name.chars := by
    rw [name.isWord.takeWhile, gap.takeWhile, List.append_nil]
  have hlength : name.chars.length ≠ 0 := List.length_eq_zero_iff.not.mpr name.isWord.1
  have hadvance : advance (name.chars ++ (gap.text ++ (number.text ++ rest)))
      (name.chars.length + 1) = some (gap.more ++ (number.text ++ rest)) := advance_cons _
  simp only [processKey, hkey, hlength, if_false, findIdx?_prefix hplain.2, hadvance]
  cases t.names.findIdx? (· = name.chars) with
  | none => rfl
  | some entry =>
      exact congrArg (fun value => some (settings.setEntry entry value))
        (number.read_trimLine gap.more_white hrest)

theorem process_blank (h : trimLine data = [] ∨ ∃ text, trimLine data = 59 :: text) :
    process t g.state data = some (g.state, false) := by
  have hunknown : ∀ token ∈ tokens, ¬token <+: trimLine data := by
    have hall : ∀ token ∈ tokens, token ≠ [] ∧ token.head? ≠ some 59 := by decide
    rintro token hmem hbegins
    obtain ⟨hne, hhead⟩ := hall token hmem
    obtain ⟨c, token, rfl⟩ := List.exists_cons_of_ne_nil hne
    rcases h with hnil | ⟨text, hcons⟩
    · rw [hnil] at hbegins
      cases List.prefix_nil.mp hbegins
    · rw [hcons] at hbegins
      obtain ⟨rfl, -⟩ := List.cons_prefix_cons.mp hbegins
      exact hhead rfl
  have hlex : lex data = (.unknown, some (trimLine data)) := lexTrimmed_unknown hunknown
  have hkey := processKey_comment t g.state.settings h
  simp only [process, hlex, Option.bind_eq_bind, Option.bind_some, hkey]
  split <;> rfl

theorem inside_only (g : Given) (settings : Settings) :
    (if g.state.insec = true then some ({ g.state with settings := settings }, false)
      else some (g.state, false)) =
      some ((if g.mode = .inside then { g with settings := settings } else g).state, false) := by
  by_cases hinside : g.mode = .inside
  · have hinsec : g.state.insec = true := decide_eq_true hinside
    rw [if_pos hinside, if_pos hinsec]
    rfl
  · have hinsec : ¬g.state.insec = true := fun h => hinside (of_decide_eq_true h)
    rw [if_neg hinside, if_neg hinsec]

theorem process_pev (gap : Gap) (number : Number)
    (hseen : trimLine data = (Content.pev gap number).text ++ rest) (hrest : Stops rest) :
    process t g.state data = some ((g.read t (.pev gap number)).state, false) := by
  have hlex : lex data = (.pev, some (gap.more ++ (number.text ++ rest))) := by
    rw [lex, hseen, Content.text, List.append_assoc, List.append_assoc]
    exact lexTrimmed_pev
  have hread := number.read_trimLine gap.more_white hrest
  simp only [process, hlex, Option.map_some, processPev, hread]
  exact inside_only g _

theorem process_base (gap : Gap) (number : Number)
    (hseen : trimLine data = (Content.base gap number).text ++ rest) (hrest : Stops rest) :
    process t g.state data = some ((g.read t (.base gap number)).state, false) := by
  have hlex : lex data = (.base, some (gap.more ++ (number.text ++ rest))) := by
    rw [lex, hseen, Content.text, List.append_assoc, List.append_assoc]
    exact lexTrimmed_base
  have hread := number.read_trimLine gap.more_white hrest
  simp only [process, hlex, Option.map_some, processBase, hread]
  exact inside_only g _

theorem process_endSec (hseen : trimLine data = (Content.endSec).text ++ rest) :
    process t g.state data = some ((g.read t .endSec).state, false) := by
  have hlex : (lex data).1 = .endSec := by
    rw [lex, hseen]
    exact lexTrimmed_endSec
  rcases hpair : lex data with ⟨token, b⟩
  rw [hpair] at hlex
  cases hlex
  rw [process, hpair]
  rfl

theorem process_key (name : Key) (gap : Gap) (number : Number)
    (hseen : trimLine data = (Content.key name gap number).text ++ rest) (hrest : Stops rest)
    (hplain : if g.mode = .inside then KeyPlain t name.chars
      else ¬startSec <+: name.chars ∧ ¬mirror <+: name.chars) :
    process t g.state data = some ((g.read t (.key name gap number)).state, false) := by
  have htext : trimLine data = name.chars ++ (gap.text ++ (number.text ++ rest)) := by
    rw [hseen, Content.text, List.append_assoc, List.append_assoc]
  have hbegins : ∀ token ∈ tokens, token <+: trimLine data ↔ token <+: name.chars := by
    intro token hmem
    rw [htext]
    exact (isWord_of_mem_tokens hmem).prefix_append (gap.stops _)
  by_cases hinside : g.mode = .inside
  · rw [if_pos hinside] at hplain
    have hlex : lex data = (.unknown, some (trimLine data)) :=
      lexTrimmed_unknown fun token hmem => (hbegins token hmem).not.mpr (hplain.1 token hmem)
    have hkey := processKey_key name gap number g.state.settings hplain hrest
    rw [← htext] at hkey
    simp only [process, hlex, Option.bind_eq_bind, Option.bind_some, hkey, Given.read]
    have hinsec : g.state.insec = true := decide_eq_true hinside
    rw [if_pos hinside, if_pos hinsec]
    cases t.names.findIdx? (· = name.chars) <;> rfl
  · rw [if_neg hinside] at hplain
    have hlex := lexTrimmed_outside ((hbegins startSec (by decide)).not.mpr hplain.1)
      ((hbegins mirror (by decide)).not.mpr hplain.2)
    have hinsec : g.state.insec = false := decide_eq_false hinside
    rw [Given.read, if_neg hinside]
    rcases hpair : lex data with ⟨token, b⟩
    have htoken : (lexTrimmed (trimLine data)).1 = token := congrArg Prod.fst hpair
    rw [htoken] at hlex
    rw [process, hpair]
    cases token with
    | startSec => exact absurd rfl hlex.1
    | mirror => exact absurd rfl hlex.2
    | endSec => rw [← hinsec]
    | pev => simp [hinsec]
    | base => simp [hinsec]
    | unknown => simp [hinsec]

end Process

/-! Mirrors and sections. -/

section Names

variable {t : Target} {g : Given} {l : Line} {rest data : List Byte} {gap gap' : Gap}

theorem Trails.apart (h : Trails l rest) (hapart : l.Apart) :
    (rest.takeWhile fun c => !isBlank c) = [] := by
  rcases hapart with hclean | ⟨c, hc, hblank⟩
  · rw [h.clean hclean]
    rfl
  · cases hcomment : l.comment with
    | none =>
        rw [h.clean hcomment]
        rfl
    | some chars =>
        obtain ⟨text, rfl⟩ := h.commented (by simp [hcomment])
        obtain ⟨tail, htail⟩ := List.head?_eq_some_iff.mp hc
        rw [htail]
        exact List.takeWhile_cons_of_neg (by simp [hblank])

theorem take_append_stops {name source glue : List Byte} (hname : IsWord name)
    (hglue : Stops glue) (h : (source ++ glue).take nameSize = name) :
    source.take nameSize = name := by
  rcases Nat.lt_or_ge source.length nameSize with hlt | hge
  · cases glue with
    | nil => rwa [List.append_nil] at h
    | cons c glue =>
        have hmem : c ∈ name := by
          obtain ⟨room, hroom⟩ := Nat.exists_eq_succ_of_ne_zero
            (by omega : nameSize - source.length ≠ 0)
          rw [← h, List.take_append, hroom, List.take_succ_cons]
          exact List.mem_append_right _ List.mem_cons_self
        exact absurd hmem (hname.not_mem_of_stops hglue c rfl)
  · rwa [List.take_append_of_le_length hge] at h

theorem readMirror_single (hnamed : g.Named) (source dest : Word) (htrails : Trails l rest)
    (hsource : dest.chars = g.currentModName → source.chars.length ≤ nameSize ∧ l.Apart)
    (hdest : dest.chars.take nameSize = g.currentModName → dest.chars.length ≤ nameSize) :
    readMirror g.currentModName (source.chars ++ (gap'.text ++ (dest.chars ++ rest))) =
      if dest.chars = g.currentModName then source.chars else g.currentModName := by
  have hstops : Stops (rest.takeWhile fun c => !isBlank c) :=
    htrails.stops.of_prefix (List.takeWhile_prefix _)
  simp only [readMirror, source.isWord.takeWhile, source.isWord.dropWhile, gap'.takeWhile,
    gap'.dropWhile, gap'.dropBlanks, dest.isWord.dropBlanks, dest.isWord.takeWhile,
    List.append_nil]
  by_cases heq : dest.chars = g.currentModName
  · obtain ⟨hfits, hapart⟩ := hsource heq
    rw [htrails.apart hapart, List.append_nil, heq, List.take_of_length_le hnamed.fits, if_pos rfl,
      if_pos rfl, List.take_of_length_le hfits]
  · rw [if_neg heq, if_neg]
    intro hread
    have htake := take_append_stops hnamed.word hstops hread
    rw [List.take_of_length_le (hdest htake)] at htake
    exact heq htake

theorem readMirror_more {name blanks : List Byte} (hblanks : ∀ c ∈ blanks, isBlank c = true)
    (hne : blanks ≠ []) (source : Word) :
    readMirror name (blanks ++ (source.chars ++ (gap'.text ++ rest))) =
      if source.chars.take nameSize = name then [] else name := by
  obtain ⟨c, blanks, rfl⟩ := List.exists_cons_of_ne_nil hne
  have htext : c :: blanks = (Gap.mk c blanks hblanks).text := rfl
  rw [htext]
  simp only [readMirror, Gap.takeWhile, Gap.dropWhile, Gap.dropBlanks, source.isWord.dropBlanks,
    source.isWord.takeWhile, List.append_nil, List.take_nil]

theorem process_mirror (hnamed : g.Named) (source dest : Word)
    (hseen : trimLine data = (Content.mirror gap source gap' dest).text ++ rest)
    (htrails : Trails l rest) (hplain : MirrorPlain g l.Apart gap source.chars dest.chars) :
    process t g.state data = some ((g.read t (.mirror gap source gap' dest)).state, false) := by
  have hlex : lex data =
      (.mirror, some (gap.more ++ (source.chars ++ (gap'.text ++ (dest.chars ++ rest))))) := by
    rw [lex, hseen, Content.text]
    simp only [List.append_assoc]
    exact lexTrimmed_mirror
  have hread : readMirror g.currentModName
      (gap.more ++ (source.chars ++ (gap'.text ++ (dest.chars ++ rest)))) =
        if dest.chars = g.currentModName then source.chars else g.currentModName := by
    rw [MirrorPlain] at hplain
    by_cases hsingle : gap.more = []
    · rw [if_pos hsingle] at hplain
      rw [hsingle, List.nil_append]
      exact readMirror_single hnamed source dest htrails hplain.1 hplain.2
    · rw [if_neg hsingle] at hplain
      rw [readMirror_more (fun c hc => gap.blank c (List.mem_cons_of_mem _ hc)) hsingle,
        if_neg hplain.1, if_neg hplain.2]
  have hstate : readMirror g.state.currentModName
      (gap.more ++ (source.chars ++ (gap'.text ++ (dest.chars ++ rest)))) = _ := hread
  simp only [process, hlex, Option.map_some, hstate, Given.read]
  split <;> rfl

theorem Trails.platform (htrails : Trails l rest) (platform : Word) {blanks : List Byte}
    (hblanks : ∀ c ∈ blanks, isWhite c = true) :
    trimLine (blanks ++ (platform.chars ++ rest)) = t.platform.name ↔
      platform.chars = t.platform.name ∧ l.comment = none := by
  rw [trimLine_solid platform.isWord.solid hblanks]
  constructor
  · intro heq
    by_cases hcomment : l.comment = none
    · rw [htrails.trim.clean hcomment, List.append_nil] at heq
      exact ⟨heq, hcomment⟩
    · obtain ⟨text, htext⟩ := htrails.trim.commented hcomment
      rw [htext] at heq
      exact absurd rfl (t.platform.isWord.2 59 (by rw [← heq]; simp)).2.1
  · rintro ⟨heq, hcomment⟩
    rw [htrails.trim.clean hcomment, List.append_nil, heq]

theorem readStartSection_plain (hnamed : g.Named) (modName : Word) (gap' : Gap) (platform : Word)
    (htrails : Trails l rest)
    (hplain : StartSecPlain t g l.comment gap modName.chars platform.chars) :
    readStartSection t.platform.name g.currentModName
        (gap.more ++ (modName.chars ++ (gap'.text ++ (platform.chars ++ rest)))) =
      some (decide (modName.chars = g.currentModName ∧
        platform.chars = t.platform.name)) := by
  by_cases hsingle : gap.more = []
  · rw [hsingle, List.nil_append, readStartSection]
    by_cases hbegins : g.currentModName <+: modName.chars
    · rw [if_pos ((hnamed.word.prefix_append (gap'.stops _)).mpr hbegins)]
      obtain ⟨more, hmore⟩ := hbegins
      rw [← hmore, List.append_assoc]
      cases more with
      | nil =>
          have hadvance : advance (g.currentModName ++
              ([] ++ (gap'.text ++ (platform.chars ++ rest)))) (g.currentModName.length + 1) =
                some (gap'.more ++ (platform.chars ++ rest)) := advance_cons _
          rw [hadvance, Option.map_some, Option.some.injEq, decide_eq_decide,
            htrails.platform platform gap'.more_white, List.append_nil]
          rw [List.append_nil] at hmore
          exact ⟨fun h => ⟨rfl, h.1⟩, fun h => ⟨h.2, ((hplain h.2).1 hmore.symm).2⟩⟩
      | cons c more =>
          have hadvance : advance (g.currentModName ++
              (c :: more ++ (gap'.text ++ (platform.chars ++ rest))))
              (g.currentModName.length + 1) =
                some (more ++ (gap'.text ++ (platform.chars ++ rest))) := advance_cons _
          have hother : ¬(g.currentModName ++ c :: more = g.currentModName ∧
              platform.chars = t.platform.name) := fun h => by simp at h
          rw [hadvance, Option.map_some, decide_eq_false hother, Option.some.injEq,
            decide_eq_false_iff_not]
          cases more with
          | nil =>
              rw [List.nil_append, htrails.platform platform gap'.white]
              rintro ⟨heq, hclean⟩
              refine ((hplain heq).2 ?_).elim (absurd hsingle) (absurd hclean)
              rw [← hmore, List.dropLast_concat]
          | cons d more =>
              -- the rest of the name and a blank stand in front of the platform
              have hword : IsWord (d :: more) :=
                ⟨List.cons_ne_nil _ _, fun e he => modName.isWord.2 e (by rw [← hmore]; simp [he])⟩
              have hsolid := hword.solid.append platform.isWord.solid gap'.text
              have htrim : trimLine ([] ++ _) = _ :=
                trimLine_solid hsolid (fun c hc => absurd hc List.not_mem_nil) rest
              simp only [List.nil_append, List.append_assoc] at htrim
              rw [htrim]
              intro heq
              have hmem : gap'.first ∈ t.platform.name := by
                rw [← heq]
                simp [Gap.text]
              have hwhite := gap'.white gap'.first List.mem_cons_self
              rw [(t.platform.isWord.2 _ hmem).1] at hwhite
              cases hwhite
    · rw [if_neg ((hnamed.word.prefix_append (gap'.stops _)).not.mpr hbegins), decide_eq_false]
      rintro ⟨heq, -⟩
      exact hbegins (heq ▸ List.prefix_rfl)
  · obtain ⟨c, more, hcons⟩ := List.exists_cons_of_ne_nil hsingle
    have hblank : isWhite c = true := gap.more_white c (by rw [hcons]; exact List.mem_cons_self)
    rw [readStartSection, if_neg, decide_eq_false]
    · rintro ⟨heq, hplatform⟩
      exact hsingle ((hplain hplatform).1 heq).1
    · rw [hcons]
      intro hbegins
      obtain ⟨d, name, hname⟩ := List.exists_cons_of_ne_nil hnamed.word.1
      rw [hname] at hbegins
      obtain ⟨rfl, -⟩ := List.cons_prefix_cons.mp hbegins
      rw [(hnamed.word.2 d (by rw [hname]; exact List.mem_cons_self)).1] at hblank
      cases hblank

theorem process_startSec (hnamed : g.Named) (modName platform : Word)
    (hseen : trimLine data = (Content.startSec gap modName gap' platform).text ++ rest)
    (htrails : Trails l rest)
    (hplain : StartSecPlain t g l.comment gap modName.chars platform.chars) :
    process t g.state data = some ((g.read t (.startSec gap modName gap' platform)).state,
      decide ((g.read t (.startSec gap modName gap' platform)).mode = .skipping)) := by
  have hlex : lex data = (.startSec,
      some (gap.more ++ (modName.chars ++ (gap'.text ++ (platform.chars ++ rest))))) := by
    rw [lex, hseen, Content.text]
    simp only [List.append_assoc]
    exact lexTrimmed_startSec
  have hread : readStartSection t.platform.name g.state.currentModName _ = _ :=
    readStartSection_plain hnamed modName gap' platform htrails hplain
  simp only [process, hlex, Option.bind_eq_bind, Option.bind_some, hread, Given.read]
  by_cases hours : modName.chars = g.currentModName ∧ platform.chars = t.platform.name
  · simp only [hours]
    rfl
  · simp only [hours]
    rfl

end Names

/-! Line after line. -/

section Runs

variable {t : Target} {g : Given} {l : Line} {e rest : List Byte} {feof : Bool} {fuel k : Nat}

theorem process_line (hnamed : g.Named) (hmode : g.mode ≠ .skipping) (hplain : l.ReadPlain t g)
    (he : ∀ c ∈ e, c = newline) :
    process t g.state (chars (l.text ++ e)) = some ((g.read t l.content).state,
      decide ((g.read t l.content).mode = .skipping)) := by
  by_cases hblank : l.content = .blank
  · have h := process_blank (t := t) (g := g) (trimLine_blank hblank he)
    have hread : g.read t l.content = g := by rw [hblank]; rfl
    rw [h, hread, decide_eq_false hmode]
  · obtain ⟨rest, htrails, hseen⟩ := trimLine_text hblank he
    have hkeep : ∀ {content}, (g.read t content).mode = g.mode →
        decide ((g.read t content).mode = .skipping) = false := fun heq =>
      decide_eq_false (heq ▸ hmode)
    rw [Line.ReadPlain] at hplain
    cases hcontent : l.content with
    | blank => exact absurd hcontent hblank
    | mirror gap source gap' dest =>
        rw [hcontent] at hseen hplain
        rw [process_mirror hnamed source dest hseen htrails hplain, hkeep]
        rw [Given.read]
        split <;> rfl
    | startSec gap modName gap' platform =>
        rw [hcontent] at hseen hplain
        exact process_startSec hnamed modName platform hseen htrails hplain
    | endSec =>
        rw [hcontent] at hseen
        rw [process_endSec hseen]
        rfl
    | pev gap number =>
        rw [hcontent] at hseen
        rw [process_pev gap number hseen htrails.stops, hkeep]
        rw [Given.read]
        split <;> rfl
    | base gap number =>
        rw [hcontent] at hseen
        rw [process_base gap number hseen htrails.stops, hkeep]
        rw [Given.read]
        split <;> rfl
    | key name gap number =>
        rw [hcontent] at hseen hplain
        rw [process_key name gap number hseen htrails.stops hplain, hkeep]
        rw [Given.read]
        split
        next => split <;> rfl
        next => rfl

theorem lex_skipped (hplain : l.SkipPlain) (he : ∀ c ∈ e, c = newline) :
    (lex (trimLine (chars (l.text ++ e)))).1 = .endSec ↔ l.content = .endSec := by
  by_cases hblank : l.content = .blank
  · rw [hblank]
    refine iff_of_false (lexTrimmed_ne_endSec ?_) fun h => by cases h
    rcases trimLine_blank hblank he with hnil | ⟨text, hcons⟩
    · rw [hnil]
      decide
    · have hsolid : Solid [59] := ⟨⟨59, [], rfl, by decide⟩, ⟨59, [], rfl, by decide⟩⟩
      have htrim : trimLine ([] ++ ([59] ++ text)) = _ :=
        trimLine_solid hsolid (fun c hc => absurd hc List.not_mem_nil) text
      have hagain : trimLine (59 :: text) = 59 :: text.rdropWhile isWhite := htrim
      rw [hcons, hagain]
      simp [endSec]
  · obtain ⟨rest, htrails, hseen⟩ := trimLine_text hblank he
    have htrim : trimLine ([] ++ (l.content.text ++ rest)) = _ :=
      trimLine_solid (Content.solid hblank) (fun c hc => absurd hc List.not_mem_nil) rest
    have hagain : trimLine (l.content.text ++ rest) = l.content.text ++ rest.rdropWhile isWhite :=
      htrim
    have hkey := hplain.2
    rw [lex, hseen, hagain]
    cases hcontent : l.content with
    | blank => exact absurd hcontent hblank
    | endSec => exact iff_of_true lexTrimmed_endSec rfl
    | key name gap number =>
        rw [hcontent] at hkey
        refine iff_of_false (lexTrimmed_ne_endSec ?_) fun h => by cases h
        have hword := isWord_of_mem_tokens (by decide : endSec ∈ tokens)
        rw [Content.text, List.append_assoc, List.append_assoc, hword.prefix_append (gap.stops _)]
        exact hkey
    | mirror | startSec | pev | base =>
        refine iff_of_false (lexTrimmed_ne_endSec ?_) fun h => by cases h
        simp [Content.text, endSec, mirror, startSec, pev, base]

/-! The loops. -/

def turns (rest : List Byte) (feof : Bool) : Nat := rest.length + if feof then 1 else 2

/-- What `fgets` leaves of what follows a line. -/
inductive Left : List Byte → List Byte → Bool → Prop
  | line (rest : List Byte) : Left (newline :: rest) rest false
  | full (following : List Byte) : Left following following false
  | ended : Left [] [] true

theorem fgets_text {size : Nat} {text following : List Byte} (htext : newline ∉ text)
    (hsize : text.length ≤ size) (hpos : 0 < size)
    (hfollowing : following = [] ∨ ∃ rest, following = newline :: rest) :
    ∃ e rest feof, fgets size (text ++ following) = (text ++ e, rest, feof) ∧
      (∀ c ∈ e, c = newline) ∧ Left following rest feof ∧
        turns rest feof < turns (text ++ following) false := by
  rcases Nat.lt_or_eq_of_le hsize with hlt | rfl
  · rcases hfollowing with rfl | ⟨rest, rfl⟩
    · refine ⟨[], [], true, ?_, nofun, .ended, ?_⟩
      · rw [List.append_nil]
        exact fgets_last htext hlt
      · simp [turns]
    · refine ⟨[newline], rest, false, fgets_line htext hlt, ?_, .line rest, ?_⟩
      · exact fun c hc => List.mem_singleton.mp hc
      · simp [turns]
        omega
  · refine ⟨[], following, false, ?_, nofun, .full following, ?_⟩
    · rw [List.append_nil]
      exact fgets_full htext following
    · simp [turns, hpos]

/-- With enough fuel the rest of the file leads to the state `s'`, in the loop or in the skipping
of a section. -/
def Gives (t : Target) (s : State) (skip : Bool) (rest : List Byte) (feof : Bool) (s' : State) :
    Prop :=
  ∀ k fuel, turns rest feof ≤ k → turns rest feof ≤ fuel →
    (if skip then do
        let (rest, feof) ← skipToEndOfSection k rest feof
        readLoop t fuel s rest feof
      else readLoop t fuel s rest feof) = some s'

variable {s s₁ s' : State} {skip : Bool} {buffer fp : List Byte}

theorem Gives.ended (t : Target) (s : State) (skip : Bool) : Gives t s skip [] true s := by
  intro k fuel hk hfuel
  obtain ⟨k, rfl⟩ := Nat.exists_eq_add_of_le' hk
  obtain ⟨fuel, rfl⟩ := Nat.exists_eq_add_of_le' hfuel
  cases skip <;> rfl

theorem Gives.read (hfgets : fgets readSize fp = (buffer, rest, feof))
    (hprocess : process t s (chars buffer) = some (s₁, skip))
    (hless : turns rest feof < turns fp false) (h : Gives t s₁ skip rest feof s') :
    Gives t s false fp false s' := by
  intro k fuel hk hfuel
  obtain ⟨fuel, rfl⟩ := Nat.exists_eq_succ_of_ne_zero (by omega : fuel ≠ 0)
  have hskip : turns rest feof ≤ rest.length + 2 := by
    rw [turns]
    split <;> omega
  have hrest := h (rest.length + 2) fuel hskip (by omega)
  rw [if_neg Bool.false_ne_true, readLoop, if_neg Bool.false_ne_true, hfgets]
  simp only [Option.bind_eq_bind, hprocess, Option.bind_some]
  exact hrest

theorem Gives.skipOn (hfgets : fgets skipSize fp = (buffer, rest, feof))
    (hlex : (lex (trimLine (chars buffer))).1 ≠ .endSec)
    (hless : turns rest feof < turns fp false) (h : Gives t s true rest feof s') :
    Gives t s true fp false s' := by
  intro k fuel hk hfuel
  obtain ⟨k, rfl⟩ := Nat.exists_eq_succ_of_ne_zero (by omega : k ≠ 0)
  have hrest := h k fuel (by omega) (by omega)
  rw [if_pos rfl] at hrest ⊢
  rw [skipToEndOfSection, if_neg Bool.false_ne_true, hfgets]
  simp only [hlex, if_false]
  exact hrest

theorem Gives.skipEnd (hfgets : fgets skipSize fp = (buffer, rest, feof))
    (hlex : (lex (trimLine (chars buffer))).1 = .endSec)
    (hless : turns rest feof < turns fp false) (h : Gives t s false rest feof s') :
    Gives t s true fp false s' := by
  intro k fuel hk hfuel
  obtain ⟨k, rfl⟩ := Nat.exists_eq_succ_of_ne_zero (by omega : k ≠ 0)
  have hrest := h k fuel (by omega) (by omega)
  rw [if_neg Bool.false_ne_true] at hrest
  rw [if_pos rfl, skipToEndOfSection, if_neg Bool.false_ne_true, hfgets]
  simp only [hlex, if_true]
  exact hrest

theorem Gives.blank (hfp : ∀ c ∈ buffer, c = newline)
    (hread : ∀ size, 0 < size → fgets size fp = (buffer, rest, feof))
    (hless : turns rest feof < turns fp false) (h : Gives t g.state skip rest feof s') :
    Gives t g.state skip fp false s' := by
  have hwhite : ∀ c ∈ chars buffer, isWhite c = true := fun c hc => by
    rw [hfp c ((List.takeWhile_sublist _).subset hc)]
    rfl
  have htrim := trimLine_white hwhite
  cases skip with
  | false =>
      exact .read (hread readSize (by decide)) (process_blank (Or.inl htrim)) hless h
  | true =>
      refine .skipOn (hread skipSize (by decide)) ?_ hless h
      rw [htrim]
      decide

theorem Gives.nothing (t : Target) (g : Given) (skip : Bool) :
    Gives t g.state skip [] false g.state := by
  have hfp : ∀ c ∈ ([] : List Byte), c = Foundation.newline := fun c hc =>
    absurd hc List.not_mem_nil
  refine .blank hfp (fun size hsize => ?_) (by decide) (.ended t g.state skip)
  exact fgets_last List.not_mem_nil hsize

theorem Gives.newline (h : Gives t g.state skip rest false s') :
    Gives t g.state skip (newline :: rest) false s' := by
  refine .blank (fun c hc => List.mem_singleton.mp hc) (fun size hsize => ?_) ?_ h
  · exact fgets_line List.not_mem_nil hsize
  · simp [turns]

theorem Given.Named.line (hnamed : g.Named) (hplain : l.Plain t g) : (g.line t l).Named := by
  rw [Given.line]
  rw [Line.Plain] at hplain
  split
  next => cases l.content <;> exact ⟨hnamed.word, hnamed.fits⟩
  next hmode =>
      rw [if_neg hmode, Line.ReadPlain] at hplain
      cases hcontent : l.content with
      | mirror gap source gap' dest =>
          rw [hcontent] at hplain
          have hmirror : MirrorPlain g l.Apart gap source.chars dest.chars := hplain
          rw [MirrorPlain] at hmirror
          rw [Given.read]
          split
          next heq =>
              split at hmirror
              next => exact ⟨source.isWord, (hmirror.1 heq).1⟩
              next => exact absurd heq hmirror.2
          next => exact hnamed
      | blank | startSec | endSec => exact ⟨hnamed.word, hnamed.fits⟩
      | pev | base =>
          rw [Given.read]
          split <;> exact ⟨hnamed.word, hnamed.fits⟩
      | key =>
          rw [Given.read]
          split
          next => split <;> exact ⟨hnamed.word, hnamed.fits⟩
          next => exact hnamed

theorem Gives.line {following : List Byte} (hnamed : g.Named) (hplain : l.Plain t g)
    (hshort : l.text.length ≤ readSize)
    (hfollowing : following = [] ∨ ∃ rest, following = Foundation.newline :: rest)
    (h : ∀ rest feof, Left following rest feof → Gives t (g.line t l).state
      (decide ((g.line t l).mode = .skipping)) rest feof s') :
    Gives t g.state (decide (g.mode = .skipping)) (l.text ++ following) false s' := by
  rw [Line.Plain] at hplain
  rw [Given.line] at h
  by_cases hmode : g.mode = .skipping
  · rw [if_pos hmode] at hplain h
    rw [decide_eq_true hmode]
    obtain ⟨e, rest, feof, hfgets, he, hleft, hless⟩ :=
      fgets_text l.newline_notMem hplain.1 (by decide) hfollowing
    have hlex := lex_skipped hplain he
    have hrest := h rest feof hleft
    by_cases hend : l.content = .endSec
    · rw [hend] at hrest
      refine .skipEnd hfgets (hlex.mpr hend) hless ?_
      have hstate : (g.skip .endSec).state = g.state := by
        simp [Given.skip, Given.state, hmode]
      rwa [hstate] at hrest
    · have hskip : g.skip l.content = g := by
        cases hcontent : l.content <;> first | rfl | exact absurd hcontent hend
      rw [hskip, decide_eq_true hmode] at hrest
      exact .skipOn hfgets (hlex.not.mpr hend) hless hrest
  · rw [if_neg hmode] at hplain h
    rw [decide_eq_false hmode]
    obtain ⟨e, rest, feof, hfgets, he, hleft, hless⟩ :=
      fgets_text l.newline_notMem hshort (by decide) hfollowing
    exact .read hfgets (process_line hnamed hmode hplain he) hless (h rest feof hleft)

theorem ending_cases (text : List Byte) (lines : List Line) :
    ending text lines = [] ∨ ∃ rest, ending text lines = Foundation.newline :: rest := by
  cases lines with
  | nil => exact Or.inl rfl
  | cons l lines => exact Or.inr ⟨text, rfl⟩

theorem Gives.lines {lines : List Line} (hnamed : g.Named) (hplain : Plain t g lines)
    (hshort : ∀ l ∈ lines, l.text.length ≤ readSize)
    (hleft : Left (ending (fileText lines) lines) rest feof) :
    Gives t g.state (decide (g.mode = .skipping)) rest feof
      (lines.foldl (Given.line t) g).state := by
  induction lines generalizing g rest feof with
  | nil =>
      cases hleft with
      | full => exact .nothing t g _
      | ended => exact .ended t g.state _
  | cons l lines ih =>
      obtain ⟨hline, hrest⟩ := List.forall_mem_cons.mp hshort
      have htext : Gives t g.state (decide (g.mode = .skipping)) (fileText (l :: lines)) false
          (((l :: lines).foldl (Given.line t) g).state) :=
        .line hnamed hplain.1 hline (ending_cases _ lines) fun rest feof hleft =>
          ih (hnamed.line hplain.1) hplain.2 hrest hleft
      cases hleft with
      | line => exact htext
      | full => exact htext.newline

end Runs

/-- A file whose lines are plain where they stand is read as what its lines give. -/
theorem readConfig_given (t : Target) (modName : List Byte) (lines : List Line)
    (hshort : ∀ l ∈ lines, l.text.length ≤ readSize)
    (hname : IsWord modName ∧ modName.length ≤ nameSize)
    (hplain : Plain t (.initial modName) lines) :
    readConfig t modName (fileText lines) = some (given t modName lines) := by
  have hleft : Left (ending (fileText lines) lines) (fileText lines) false := by
    cases lines with
    | nil => exact .full []
    | cons l lines => exact .line _
  have hgives := Gives.lines ⟨hname.1, hname.2⟩ hplain hshort hleft
  have hnot : decide ((Given.initial modName).mode = .skipping) = false := rfl
  have hloop := hgives _ ((fileText lines).length + 2) le_rfl le_rfl
  rw [hnot, if_neg Bool.false_ne_true] at hloop
  have hstart : (⟨modName.take nameSize, false, .initial⟩ : State) =
      (Given.initial modName).state := by
    rw [List.take_of_length_le hname.2]
    rfl
  rw [readConfig, hstart, hloop]
  rfl

namespace Sample

def space : Gap := ⟨32, [], by decide⟩

def spawn : List Byte := [115, 112, 97, 119, 110]

def precache : List Byte := [112, 114, 101, 99, 97, 99, 104, 101]

def cstrike : Word := ⟨[99, 115, 116, 114, 105, 107, 101], by decide⟩

def target : Target := ⟨[spawn, precache], .linux, by decide⟩

def four : Number := ⟨[], [52], by decide, by decide, by decide, by decide⟩

def line (content : Content) (comment : Option (List Byte))
    (hcomment : ∀ chars ∈ comment, newline ∉ chars) : Line where
  indent := []
  content := content
  tail := [32]
  comment := comment
  indent_white := fun _ hc => absurd hc List.not_mem_nil
  tail_white := by decide
  comment_line := hcomment

/-- `@section cstrike linux` -/
def ours : Content := .startSec space cstrike space ⟨Platform.linux.name, by decide⟩

/-- `spawn 4 ;4`, in the section of this mod. -/
def clean : List Line :=
  [line ours none nofun,
    line (.key ⟨⟨spawn, by decide⟩, by decide⟩ space four) (some [52]) (by simp [newline])]

/-- `pre 4` in the section of this mod, and `pev 4` in another of it with a comment. -/
def torn : List Line :=
  [line ours none nofun,
    line (.key ⟨⟨[112, 114, 101], by decide⟩, by decide⟩ space four) none nofun,
    line .endSec none nofun, line ours (some [52]) (by simp [newline]),
    line (.pev space four) none nofun]

end Sample

open Sample in
theorem readConfig_clean :
    (readConfig target cstrike.chars (fileText clean)).map (fun s => (s.entries 0, s.entries 1)) =
      some (some 4, none) := by
  have hplain : Plain target (.initial cstrike.chars) clean := by
    refine ⟨?_, ?_, trivial⟩
    · rw [Line.Plain, if_neg (by decide)]
      exact fun _ => ⟨fun _ => ⟨rfl, rfl⟩, fun h => absurd h (by decide)⟩
    · rw [Line.Plain, if_neg (by decide), Line.ReadPlain]
      change if _ then KeyPlain target spawn else _
      rw [if_pos (by decide)]
      exact ⟨by decide, by decide⟩
  have hread := readConfig_given target cstrike.chars clean (by decide) (by decide) hplain
  rw [hread]
  rfl

open Sample in
/-- A key sets an entry that it begins, and a comment hides its section. -/
theorem readConfig_torn :
    (∀ l ∈ torn, l.text.length ≤ readSize) ∧
      (readConfig target cstrike.chars (fileText torn)).map (fun s => (s.entries 1, s.pev)) =
        some (some 4, none) ∧
      ((given target cstrike.chars torn).entries 1, (given target cstrike.chars torn).pev) =
        (none, some 4) := by
  decide

end AmxModC.Ham.Config
