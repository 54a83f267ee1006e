import AmxModC.Foundation.Text
import AmxModC.LogEvent.Scan

namespace AmxModC.LogEvent

open Foundation

/-! Log lines as the game writes them, and what the scan makes of them. -/

inductive Form
  | quoted
  | parenthesised
  | bare
deriving DecidableEq

namespace Form

def stops : Form → Byte → Bool
  | quoted => (· = 34)
  | parenthesised => (· = 41)
  | bare => fun c => c = 40 || c = 34

def render (text : List Byte) : Form → List Byte
  | quoted => 34 :: (text ++ [34])
  | parenthesised => 40 :: (text ++ [41])
  | bare => text

end Form

structure Token where
  form : Form
  text : List Byte
  size_pos : 0 < text.length
  size_le : text.length ≤ 126
  noNul : 0 ∉ text
  noStop : ∀ c ∈ text, form.stops c = false

namespace Token

def render (token : Token) : List Byte := token.form.render token.text

def Apart (token next : Token) : Prop := token.form = .bare → next.form ≠ .bare

def renderAll (tokens : List Token) : List Byte := [32].intercalate (tokens.map render)

section

variable {stop : Byte → Bool} {token next : Token} {tokens : List Token} {text rest : List Byte}

theorem argument_append (hnul : 0 ∉ text) (hstop : ∀ c ∈ text, stop c = false)
    (hlength : text.length ≤ 127) (rest : List Byte)
    (hrest : rest.headD 0 = 0 ∨ stop (rest.headD 0) = true) :
    LogEventsMngr.argument stop (text ++ rest) = text := by
  have hread : ∀ c ∈ text, (c ≠ 0 && !stop c) = true := by
    intro c hc
    rw [hstop c hc, Bool.not_false, Bool.and_true, decide_eq_true_iff]
    exact fun hzero => hnul (hzero ▸ hc)
  have hend : (rest.takeWhile fun c => c ≠ 0 && !stop c) = [] := by
    cases rest with
    | nil => rfl
    | cons c rest =>
        rw [List.headD_cons] at hrest
        rw [List.takeWhile_cons, if_neg]
        rcases hrest with rfl | hc
        · exact Bool.false_ne_true
        · rw [hc, Bool.not_true, Bool.and_false]
          exact Bool.false_ne_true
  rw [LogEventsMngr.argument, List.takeWhile_append_of_pos hread, hend, List.append_nil,
    List.take_of_length_le hlength]

theorem headD_ne_zero (token : Token) (rest : List Byte) :
    (token.render ++ rest).headD 0 ≠ 0 := by
  obtain ⟨form, text, hpos, -, hnul, -⟩ := token
  cases form with
  | quoted => exact (by decide : (34 : Byte) ≠ 0)
  | parenthesised => exact (by decide : (40 : Byte) ≠ 0)
  | bare =>
      cases text with
      | nil => cases hpos
      | cons c text => exact fun hzero => hnul (hzero ▸ List.mem_cons_self)

theorem enclosed_append (hnul : 0 ∉ text) (hstop : ∀ c ∈ text, stop c = false)
    (hlength : text.length ≤ 127) (close : Byte) (hclose : stop close = true) (hne : close ≠ 0)
    (rest : List Byte) :
    (LogEventsMngr.argument stop (text ++ close :: rest),
      LogEventsMngr.skip ((text ++ close :: rest).drop
        (LogEventsMngr.argument stop (text ++ close :: rest)).length)) = (text, rest.tail) := by
  rw [argument_append hnul hstop hlength (close :: rest) (.inr hclose), List.drop_left,
    LogEventsMngr.skip, List.headD_cons, if_pos hne, List.drop_succ_cons, List.drop_one]

theorem parseArg_enclosed (token : Token) (hform : token.form ≠ .bare) (rest : List Byte) :
    LogEventsMngr.parseArg (token.render ++ rest) = (token.text, rest.tail) := by
  obtain ⟨form, text, hpos, hle, hnul, hstop⟩ := token
  have hroom : text.length ≤ 127 := Nat.le_succ_of_le hle
  cases form with
  | quoted =>
      rw [render, Form.render, List.cons_append, List.append_assoc, List.singleton_append]
      exact enclosed_append hnul hstop hroom 34 rfl (by decide) rest
  | parenthesised =>
      rw [render, Form.render, List.cons_append, List.append_assoc, List.singleton_append]
      exact enclosed_append hnul hstop hroom 41 rfl (by decide) rest
  | bare => exact absurd rfl hform

theorem headD_bare (token : Token) (hform : token.form = .bare) (rest : List Byte) :
    (token.render ++ rest).headD 0 ≠ 34 ∧ (token.render ++ rest).headD 0 ≠ 40 := by
  obtain ⟨form, text, hpos, hle, hnul, hstop⟩ := token
  cases hform
  cases text with
  | nil => cases hpos
  | cons c text =>
      have hc := hstop c List.mem_cons_self
      rw [Form.stops, Bool.or_eq_false_iff, decide_eq_false_iff_not, decide_eq_false_iff_not] at hc
      exact ⟨hc.2, hc.1⟩

theorem parseArg_bare (token : Token) (hform : token.form = .bare) (rest arg : List Byte)
    (harg : LogEventsMngr.argument Form.bare.stops (token.render ++ rest) = arg) :
    LogEventsMngr.parseArg (token.render ++ rest) =
      (if ((token.render ++ rest).drop arg.length).headD 0 ≠ 0 then arg.dropLast else arg,
        (token.render ++ rest).drop arg.length) := by
  obtain ⟨hquote, hparen⟩ := headD_bare token hform rest
  subst harg
  rw [LogEventsMngr.parseArg, if_neg hquote, if_neg hparen]
  rfl

theorem parseArg_last (token : Token) (hform : token.form = .bare) (hrest : rest.headD 0 = 0) :
    LogEventsMngr.parseArg (token.render ++ rest) = (token.text, rest) := by
  have hrender : token.render = token.text := by rw [render, hform, Form.render]
  have harg := argument_append token.noNul token.noStop (Nat.le_succ_of_le token.size_le) rest
    (.inl hrest)
  rw [hform, ← hrender] at harg
  rw [parseArg_bare token hform rest _ harg, List.drop_left, if_neg (not_not.mpr hrest), hrender]

theorem parseArg_space (token : Token) (hform : token.form = .bare)
    (hrest : Form.bare.stops (rest.headD 0) = true) (hne : rest.headD 0 ≠ 0) :
    LogEventsMngr.parseArg (token.render ++ 32 :: rest) = (token.text, rest) := by
  have hrender : token.render = token.text := by rw [render, hform, Form.render]
  have hnul : 0 ∉ token.text ++ [32] := by
    rw [List.mem_append, not_or]
    exact ⟨token.noNul, by decide⟩
  have hstop : ∀ c ∈ token.text ++ [32], Form.bare.stops c = false := by
    intro c hc
    rcases List.mem_append.mp hc with htext | hspace
    · exact hform ▸ token.noStop c htext
    · rw [List.mem_singleton.mp hspace]
      rfl
  have hlength : (token.text ++ [32]).length ≤ 127 := by
    rw [List.length_append]
    exact Nat.succ_le_succ token.size_le
  have harg := argument_append hnul hstop hlength rest (.inr hrest)
  have hsplit : token.render ++ 32 :: rest = token.text ++ [32] ++ rest := by
    rw [hrender, List.append_assoc, List.singleton_append]
  rw [← hsplit] at harg
  rw [parseArg_bare token hform _ _ harg, hsplit, List.drop_left, if_pos hne, List.dropLast_concat]

theorem parseArg_next (hapart : Apart token next) (rest : List Byte) :
    LogEventsMngr.parseArg (token.render ++ 32 :: (next.render ++ rest)) =
      (token.text, next.render ++ rest) := by
  by_cases hform : token.form = .bare
  · refine parseArg_space token hform ?_ (headD_ne_zero next rest)
    obtain ⟨form, text, hpos, hle, hnul, hstop⟩ := next
    cases form with
    | quoted => rfl
    | parenthesised => rfl
    | bare => exact absurd rfl (hapart hform)
  · exact parseArg_enclosed token hform _

theorem parseArg_end (token : Token) (rest : List Byte) :
    ∃ after, LogEventsMngr.parseArg (token.render ++ 0 :: 0 :: rest) = (token.text, after) ∧
      after.headD 0 = 0 := by
  by_cases hform : token.form = .bare
  · exact ⟨_, parseArg_last token hform rfl, rfl⟩
  · exact ⟨_, parseArg_enclosed token hform _, rfl⟩

/-! Lines of arguments. -/

theorem renderAll_cons (token next : Token) (tokens : List Token) :
    renderAll (token :: next :: tokens) = token.render ++ 32 :: renderAll (next :: tokens) := by
  rw [renderAll, List.map_cons, List.map_cons, List.intercalate_cons_cons, List.append_assoc,
    List.singleton_append]
  rfl

theorem exists_renderAll (token : Token) (tokens : List Token) :
    ∃ rest, renderAll (token :: tokens) = token.render ++ rest := by
  cases tokens with
  | nil => exact ⟨[], by rw [renderAll, List.map_singleton, List.intercalate_singleton,
      List.append_nil]⟩
  | cons next tokens => exact ⟨_, renderAll_cons token next tokens⟩

theorem render_noNul (token : Token) : 0 ∉ token.render := by
  obtain ⟨form, text, hpos, hle, hnul, hstop⟩ := token
  cases form <;> simpa [render, Form.render] using hnul

theorem renderAll_noNul (tokens : List Token) : 0 ∉ renderAll tokens := by
  induction tokens with
  | nil => exact List.not_mem_nil
  | cons token tokens ih =>
      cases tokens with
      | nil =>
          rw [renderAll, List.map_singleton, List.intercalate_singleton]
          exact render_noNul token
      | cons next tokens =>
          rw [renderAll_cons, List.mem_append, List.mem_cons, not_or, not_or]
          exact ⟨render_noNul token, by decide, ih⟩

end

end Token

namespace LogEventsMngr

section

variable {mngr : LogEventsMngr} {tokens : List Token}

theorem getLogArgs_addArg (mngr : LogEventsMngr) (arg : List Byte) :
    (mngr.addArg arg).getLogArgs = mngr.getLogArgs ++ [arg] := by
  have hold : (List.range mngr.logArgc).map (mngr.addArg arg).logArgs = mngr.getLogArgs := by
    refine List.map_congr_left fun i hi => ?_
    exact Function.update_of_ne (Nat.ne_of_lt (List.mem_range.mp hi)) _ _
  have hnew : (mngr.addArg arg).logArgs mngr.logArgc = arg := Function.update_self ..
  rw [getLogArgs]
  change (List.range (mngr.logArgc + 1)).map (mngr.addArg arg).logArgs = _
  rw [List.range_succ, List.map_append, List.map_singleton, hold, hnew]

theorem parseArgs_step {s after arg : List Byte} {turns : Nat} (hhead : s.headD 0 ≠ 0)
    (harg : parseArg s = (arg, after)) (hturns : 0 < turns) :
    mngr.parseArgs turns s = (mngr.addArg arg).parseArgs (turns - 1) after := by
  obtain ⟨turns, rfl⟩ := Nat.exists_eq_succ_of_ne_zero (Nat.ne_of_gt hturns)
  rw [parseArgs, if_pos hhead, harg]
  rfl

theorem parseArgs_done {s : List Byte} (hhead : s.headD 0 = 0) (turns : Nat) :
    mngr.parseArgs turns s = mngr := by
  cases turns with
  | zero => rfl
  | succ turns => rw [parseArgs, if_neg (not_not.mpr hhead)]

theorem parseArgs_renderAll (hapart : tokens.IsChain Token.Apart) {turns : Nat}
    (hfew : tokens.length ≤ turns) (rest : List Byte) :
    (mngr.parseArgs turns (Token.renderAll tokens ++ 0 :: 0 :: rest)).getLogArgs =
      mngr.getLogArgs ++ tokens.map Token.text := by
  induction tokens generalizing mngr turns with
  | nil =>
      rw [List.map_nil, List.append_nil]
      exact congrArg getLogArgs (parseArgs_done rfl turns)
  | cons token tokens ih =>
      have hturns : 0 < turns := Nat.lt_of_lt_of_le (Nat.succ_pos _) hfew
      obtain ⟨tail, htail⟩ := Token.exists_renderAll token tokens
      have hhead : (Token.renderAll (token :: tokens) ++ 0 :: 0 :: rest).headD 0 ≠ 0 := by
        rw [htail, List.append_assoc]
        exact token.headD_ne_zero _
      cases tokens with
      | nil =>
          rw [Token.renderAll, List.map_singleton, List.intercalate_singleton] at hhead ⊢
          obtain ⟨after, harg, hafter⟩ := token.parseArg_end rest
          rw [parseArgs_step hhead harg hturns, parseArgs_done hafter, getLogArgs_addArg,
            List.map_singleton]
      | cons next tokens =>
          obtain ⟨hfirst, hrest⟩ := List.isChain_cons_cons.mp hapart
          obtain ⟨tail', htail'⟩ := Token.exists_renderAll next tokens
          have harg := Token.parseArg_next hfirst (tail' ++ 0 :: 0 :: rest)
          rw [← List.append_assoc, ← htail', ← List.cons_append, ← List.append_assoc,
            ← Token.renderAll_cons] at harg
          rw [parseArgs_step hhead harg hturns, ih hrest (Nat.le_sub_one_of_lt hfew),
            getLogArgs_addArg, List.append_assoc, List.singleton_append]
          rfl

end

end LogEventsMngr

structure Line where
  tokens : List Token
  few : tokens.length ≤ maxLogArgs
  apart : tokens.IsChain Token.Apart
  size_le : (Token.renderAll tokens).length < 254

namespace Line

theorem noNul (line : Line) : 0 ∉ Token.renderAll line.tokens ++ [newline] := by
  rw [List.mem_append, not_or]
  exact ⟨Token.renderAll_noNul line.tokens, by decide⟩

def text (line : Line) : CString := ⟨Token.renderAll line.tokens ++ [newline], line.noNul⟩

end Line

namespace LogEventsMngr

section

variable {mngr next : LogEventsMngr} {text : CString} {fuel : Nat}

theorem setLogString_line (h : Framed mngr.logString) (line : Line) :
    ∃ next rest, mngr.setLogString line.text = some next ∧
      next.logString = Token.renderAll line.tokens ++ 0 :: 0 :: rest ∧ next.logArgc = 0 := by
  have hsize : line.text.size = (Token.renderAll line.tokens).length + 1 := List.length_append
  have hle := line.size_le
  have htake : line.text.bytes.take 254 = Token.renderAll line.tokens ++ [newline] :=
    List.take_of_length_le (Nat.le_trans (Nat.le_of_eq hsize) hle)
  obtain ⟨next, hnext⟩ := Option.isSome_iff_exists.mp
    ((setLogString_isSome_iff h line.text).mpr (by omega))
  refine ⟨next, mngr.logString.drop ((Token.renderAll line.tokens ++ [newline]).length + 1), hnext,
    ?_⟩
  rw [setLogString] at hnext
  dsimp only at hnext
  rw [if_neg (by omega), htake] at hnext
  split at hnext
  next =>
      cases hnext
      refine ⟨?_, rfl⟩
      rw [hsize, Nat.add_sub_cancel, List.append_assoc, List.set_append_right _ _ (Nat.le_refl _),
        Nat.sub_self]
      rfl
  next => cases hnext

theorem setLogString_logArgc (h : mngr.setLogString text = some next) : next.logArgc = 0 := by
  rw [setLogString] at h
  split at h
  next =>
      cases h
      rfl
  next =>
      split at h
      next =>
          cases h
          rfl
      next => cases h

theorem log_eq (h : Framed mngr.logString) (hfuel : maxLogArgs < fuel) (text : CString) :
    mngr.log fuel text = (mngr.setLogString text).map parseLogString := by
  rw [log]
  cases hset : mngr.setLogString text with
  | none => rfl
  | some next =>
      have hargc := setLogString_logArgc hset
      rw [Option.bind_some, parseFrom_eq (h.setLogString hset) (by decide) (by omega)]
      rfl

theorem log_isSome_iff (h : Framed mngr.logString) (hfuel : maxLogArgs < fuel) (text : CString) :
    (mngr.log fuel text).isSome ↔ text.size ≤ 256 := by
  rw [log_eq h hfuel, Option.isSome_map, setLogString_isSome_iff h]

theorem log_line (h : Framed mngr.logString) (hfuel : maxLogArgs < fuel) (line : Line) :
    (mngr.log fuel line.text).map getLogArgs = some (line.tokens.map Token.text) := by
  obtain ⟨next, rest, hset, hstring, hargc⟩ := setLogString_line h line
  rw [log_eq h hfuel, hset, Option.map_some, Option.map_some, parseLogString, hstring, hargc,
    Nat.sub_zero, parseArgs_renderAll line.apart line.few, getLogArgs, hargc]
  rfl

end

/-! Nothing else writes to the log string. -/

section

variable (mngr : LogEventsMngr)

theorem parseArgs_logString (turns : Nat) (b : List Byte) :
    (mngr.parseArgs turns b).logString = mngr.logString := by
  induction turns generalizing mngr b with
  | zero => rfl
  | succ turns ih =>
      rw [parseArgs]
      split
      next => exact ih _ _
      next => rfl

theorem registerCondition_logString (filter : Filter) :
    (mngr.registerCondition filter).1.logString = mngr.logString := by
  simp only [registerCondition]
  split <;> rfl

theorem registerFilters_logString (filters : List LogCond) (list : List Filter) :
    (mngr.registerFilters filters list).1.logString = mngr.logString := by
  induction list generalizing mngr filters with
  | nil => rfl
  | cons filter list ih =>
      rw [registerFilters]
      exact (ih _ _).trans (registerCondition_logString mngr filter)

theorem registerLogEvent_logString (func pos : Int) (list : List Filter) :
    (mngr.registerLogEvent func pos list).logString = mngr.logString := by
  rw [registerLogEvent]
  split
  next => rfl
  next => exact registerFilters_logString mngr [] list

theorem compareCondition_logString (i : Nat) (string : List Byte) :
    (compareCondition mngr i string).1.logString = mngr.logString := by
  rw [compareCondition]
  split
  next => rfl
  next => split <;> rfl

theorem anyHolds_logString (argnum : Nat) (list : List Nat) :
    (anyHolds compareCondition mngr argnum list).1.logString = mngr.logString := by
  induction list generalizing mngr with
  | nil => rfl
  | cons i list ih =>
      have hcompare := compareCondition_logString mngr i (mngr.logArgs argnum)
      rw [anyHolds]
      dsimp only
      split
      next => exact hcompare
      next => exact (ih _).trans hcompare

theorem isValid_logString (filters : List LogCond) :
    (isValid compareCondition mngr filters).1.logString = mngr.logString := by
  induction filters generalizing mngr with
  | nil => rfl
  | cons cond filters ih =>
      have hany := anyHolds_logString mngr cond.argnum cond.list
      rw [isValid]
      dsimp only
      split
      next => exact (ih _).trans hany
      next => exact hany

theorem nextEvent_logString (index : Nat) (events : List CLogEvent) :
    (nextEvent compareCondition mngr index events).1.logString = mngr.logString := by
  induction events generalizing mngr index with
  | nil => rfl
  | cons event events ih =>
      have hvalid := isValid_logString mngr event.filters
      rw [nextEvent]
      dsimp only
      split
      next => exact hvalid
      next => exact (ih _ _).trans hvalid

end

end LogEventsMngr

namespace State

variable {s s' : State} {events : List Event}

theorem execute_logString (s : State) (argc index : Nat) :
    (execute LogEventsMngr.compareCondition s argc index).mngr.logString = s.mngr.logString := by
  have hnext := LogEventsMngr.nextEvent_logString s.mngr index
    ((s.mngr.logevents argc).drop index)
  rw [execute]
  generalize LogEventsMngr.nextEvent _ _ _ _ = result at hnext ⊢
  obtain ⟨mngr, found⟩ := result
  cases found <;> exact hnext

theorem step_framed (h : LogEventsMngr.Framed s.mngr.logString) {event : Event}
    (hstep : step LogEventsMngr.compareCondition s event = some s') :
    LogEventsMngr.Framed s'.mngr.logString := by
  cases event with
  | registerLogEvent func pos filters =>
      cases hstep
      exact (s.mngr.registerLogEvent_logString func pos filters).symm ▸ h
  | log text =>
      obtain ⟨mngr, hset, rfl⟩ := Option.map_eq_some_iff.mp hstep
      have hframed := h.setLogString hset
      rw [execute_logString]
      exact (mngr.parseArgs_logString _ _).symm ▸ hframed
  | handlerReturn =>
      rw [step] at hstep
      split at hstep
      next => cases hstep
      next =>
          cases hstep
          rw [execute_logString]
          exact h
  | clearLogEvents =>
      rw [step] at hstep
      split at hstep
      next =>
          cases hstep
          exact h
      next => cases hstep

theorem run_framed (hrun : run (step LogEventsMngr.compareCondition) create events = some s) :
    LogEventsMngr.Framed s.mngr.logString :=
  run_invariant (fun h _ hstep => step_framed h hstep) LogEventsMngr.framed_create
    (meets_of_forall fun _ _ => trivial) hrun

/-- Whatever has been logged and registered before, a line is read back, and the scan
keeps to the log string and the arguments unless the text is longer than the string. -/
theorem log_line_and_within_iff
    (hrun : run (step LogEventsMngr.compareCondition) create events = some s) {fuel : Nat}
    (hfuel : maxLogArgs < fuel) :
    (∀ line : Line, (s.mngr.log fuel line.text).map LogEventsMngr.getLogArgs =
      some (line.tokens.map Token.text)) ∧
    ∀ text : CString, (s.mngr.log fuel text).isSome ↔ text.size ≤ 256 :=
  ⟨LogEventsMngr.log_line (run_framed hrun) hfuel,
    LogEventsMngr.log_isSome_iff (run_framed hrun) hfuel⟩

theorem log_line_and_within_after_registration :
    ((LogEventsMngr.create.registerLogEvent 7 1 []).log 13
        (Line.text ⟨[⟨.bare, [97], by decide, by decide, by decide, by decide⟩], by decide,
          List.IsChain.singleton _, by decide⟩)).map LogEventsMngr.getLogArgs = some [[97]] ∧
      (((LogEventsMngr.create.registerLogEvent 7 1 []).log 13 ⟨[], CString.noNul_nil⟩).isSome ↔
        CString.size ⟨[], CString.noNul_nil⟩ ≤ 256) := by
  obtain ⟨hline, hwithin⟩ :=
    @log_line_and_within_iff _ [.registerLogEvent 7 1 []] rfl 13 (by decide)
  exact ⟨hline _, hwithin _⟩

theorem noNul_replicate (n : Nat) : (0 : Byte) ∉ List.replicate n 97 := by
  intro hmem
  exact absurd (List.eq_of_mem_replicate hmem) (by decide)

/-- A text of three thousand characters is cut, but the terminator is put where it
would have ended. -/
theorem log_overruns :
    ¬ ∀ text : CString, ∃ fuel, (LogEventsMngr.create.log fuel text).isSome := by
  intro h
  obtain ⟨fuel, hfuel⟩ := h ⟨List.replicate 3000 97, noNul_replicate 3000⟩
  have hset := Option.isSome_of_isSome_bind hfuel
  rw [LogEventsMngr.setLogString_isSome_iff LogEventsMngr.framed_create, CString.size,
    List.length_replicate] at hset
  exact absurd hset (by decide)

end State

end AmxModC.LogEvent
