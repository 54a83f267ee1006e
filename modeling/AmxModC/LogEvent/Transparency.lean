import AmxModC.Foundation.Run
import AmxModC.LogEvent.Model

namespace AmxModC.LogEvent

open Foundation

def CLogCmp.forget (cmp : CLogCmp) : CLogCmp := { cmp with logid := 0, result := 0 }

namespace LogEventsMngr

def forget (mngr : LogEventsMngr) : LogEventsMngr :=
  { mngr with logcmplist := mngr.logcmplist.map CLogCmp.forget }

def Coherent (mngr : LogEventsMngr) : Prop :=
  ∀ cmp ∈ mngr.logcmplist, cmp.logid = mngr.logCounter →
    cmp.result = cmp.evaluate (mngr.logArgs cmp.pos)

def Filed (mngr : LogEventsMngr) (argnum i : Nat) : Prop :=
  ∃ cmp, mngr.logcmplist[i]? = some cmp ∧ cmp.pos = argnum

def AllFiled (mngr : LogEventsMngr) (filters : List LogCond) : Prop :=
  ∀ cond ∈ filters, ∀ i ∈ cond.list, mngr.Filed cond.argnum i

def WellFiled (mngr : LogEventsMngr) : Prop :=
  ∀ argc, ∀ event ∈ mngr.logevents argc, mngr.AllFiled event.filters

structure Tracks (mngr anew : LogEventsMngr) : Prop where
  coherent : mngr.Coherent
  same : mngr.forget = anew.forget

section

variable {mngr anew : LogEventsMngr} {argnum i index : Nat} {list : List Nat}
  {filters : List LogCond} {events : List CLogEvent}

theorem forget_getElem? (h : mngr.forget = anew.forget) (i : Nat) :
    mngr.logcmplist[i]?.map CLogCmp.forget = anew.logcmplist[i]?.map CLogCmp.forget := by
  have hlist := congrArg logcmplist h
  simpa [forget] using congrArg (fun list => list[i]?) hlist

theorem forget_logArgs (h : mngr.forget = anew.forget) : mngr.logArgs = anew.logArgs := by
  have hargs := congrArg logArgs h
  exact hargs

theorem compareAnew_fst (mngr : LogEventsMngr) (i : Nat) (string : List Byte) :
    (compareAnew mngr i string).1 = mngr := by
  rw [compareAnew]
  split <;> rfl

theorem Tracks.compare (h : mngr.Tracks anew) (hfiled : anew.Filed argnum i) :
    (compareCondition mngr i (mngr.logArgs argnum)).1.Tracks anew ∧
      (compareCondition mngr i (mngr.logArgs argnum)).2 =
        (compareAnew anew i (anew.logArgs argnum)).2 := by
  obtain ⟨other, hother, rfl⟩ := hfiled
  have hget := forget_getElem? h.same i
  rw [hother, Option.map_some, Option.map_eq_some_iff] at hget
  obtain ⟨cmp, hcmp, hforget⟩ := hget
  have hpos : cmp.forget.pos = other.forget.pos := congrArg CLogCmp.pos hforget
  change cmp.pos = other.pos at hpos
  have hevaluate : ∀ string, cmp.evaluate string = other.evaluate string := by
    intro string
    have hevaluated := congrArg (CLogCmp.evaluate · string) hforget
    exact hevaluated
  rw [compareCondition, compareAnew, hcmp, hother, ← forget_logArgs h.same]
  have hmem := List.mem_of_getElem? hcmp
  by_cases hcached : cmp.logid = mngr.logCounter
  · simp only [if_pos hcached]
    refine ⟨h, ?_⟩
    rw [h.coherent cmp hmem hcached, hevaluate, hpos]
  · simp only [if_neg hcached]
    refine ⟨⟨?_, ?_⟩, hevaluate _⟩
    · intro updated hupdated hlogid
      rcases List.mem_or_eq_of_mem_set hupdated with hold | rfl
      · exact h.coherent updated hold hlogid
      · rw [hpos]
        rfl
    · rw [← h.same, forget, forget]
      have hset : (mngr.logcmplist.set i
          { cmp with logid := mngr.logCounter, result := cmp.evaluate (mngr.logArgs other.pos) }).map
            CLogCmp.forget = mngr.logcmplist.map CLogCmp.forget := by
        obtain ⟨hi, hat⟩ := List.getElem?_eq_some_iff.mp hcmp
        have hself := @List.set_getElem_self _ (mngr.logcmplist.map CLogCmp.forget) i
          (by simpa using hi)
        rw [List.getElem_map, hat] at hself
        rw [List.map_set]
        exact hself
      simp only [hset]

theorem Tracks.anyHolds (h : mngr.Tracks anew) (hfiled : ∀ i ∈ list, anew.Filed argnum i) :
    (anyHolds compareCondition mngr argnum list).1.Tracks anew ∧
      anyHolds compareAnew anew argnum list =
        (anew, (anyHolds compareCondition mngr argnum list).2) := by
  induction list generalizing mngr with
  | nil => exact ⟨h, rfl⟩
  | cons i list ih =>
      obtain ⟨hi, hlist⟩ := List.forall_mem_cons.mp hfiled
      obtain ⟨htracks, hresult⟩ := h.compare hi
      have hfst := compareAnew_fst anew i (anew.logArgs argnum)
      rw [LogEventsMngr.anyHolds, LogEventsMngr.anyHolds]
      simp only [hfst, hresult]
      split
      next => exact ⟨htracks, rfl⟩
      next => exact ih htracks hlist

theorem Tracks.isValid (h : mngr.Tracks anew) (hfiled : anew.AllFiled filters) :
    (isValid compareCondition mngr filters).1.Tracks anew ∧
      isValid compareAnew anew filters = (anew, (isValid compareCondition mngr filters).2) := by
  induction filters generalizing mngr with
  | nil => exact ⟨h, rfl⟩
  | cons cond filters ih =>
      obtain ⟨hcond, hfilters⟩ := List.forall_mem_cons.mp hfiled
      obtain ⟨htracks, hresult⟩ := h.anyHolds hcond
      rw [LogEventsMngr.isValid, LogEventsMngr.isValid]
      simp only [hresult]
      split
      next => exact ih htracks hfilters
      next => exact ⟨htracks, rfl⟩

theorem Tracks.nextEvent (h : mngr.Tracks anew)
    (hfiled : ∀ event ∈ events, anew.AllFiled event.filters) (index : Nat) :
    (nextEvent compareCondition mngr index events).1.Tracks anew ∧
      nextEvent compareAnew anew index events =
        (anew, (nextEvent compareCondition mngr index events).2) := by
  induction events generalizing mngr index with
  | nil => exact ⟨h, rfl⟩
  | cons event events ih =>
      obtain ⟨hevent, hevents⟩ := List.forall_mem_cons.mp hfiled
      obtain ⟨htracks, hresult⟩ := h.isValid hevent
      rw [LogEventsMngr.nextEvent, LogEventsMngr.nextEvent]
      simp only [hresult]
      split
      next => exact ⟨htracks, rfl⟩
      next => exact ih htracks hevents (index + 1)

/-! What is remembered plays no part in a new log string. -/

theorem forget_setLogString (mngr : LogEventsMngr) (text : CString) :
    mngr.forget.setLogString text = (mngr.setLogString text).map forget := by
  simp only [setLogString]
  rw [apply_ite (Option.map forget), apply_ite (Option.map forget)]
  rfl

theorem setLogString_keeps {text : CString} {next : LogEventsMngr}
    (h : mngr.setLogString text = some next) :
    next.logcmplist = mngr.logcmplist ∧ next.logevents = mngr.logevents ∧
      next.logCounter = mngr.logCounter + 1 := by
  rw [setLogString] at h
  split at h
  next =>
      cases h
      exact ⟨rfl, rfl, rfl⟩
  next =>
      split at h
      next =>
          cases h
          exact ⟨rfl, rfl, rfl⟩
      next => cases h

theorem parseArgs_keeps (mngr : LogEventsMngr) (turns : Nat) (b : List Byte) :
    (mngr.parseArgs turns b).logcmplist = mngr.logcmplist ∧
      (mngr.parseArgs turns b).logevents = mngr.logevents ∧
      (mngr.parseArgs turns b).logCounter = mngr.logCounter := by
  induction turns generalizing mngr b with
  | zero => exact ⟨rfl, rfl, rfl⟩
  | succ turns ih =>
      rw [parseArgs]
      split
      next => exact ih _ _
      next => exact ⟨rfl, rfl, rfl⟩

theorem forget_parseArgs (mngr : LogEventsMngr) (turns : Nat) (b : List Byte) :
    (mngr.parseArgs turns b).forget = mngr.forget.parseArgs turns b := by
  induction turns generalizing mngr b with
  | zero => rfl
  | succ turns ih =>
      rw [parseArgs, parseArgs]
      split
      next => exact ih _ _
      next => rfl

/-! Registration files every comparison under its argument. -/

theorem Filed.mono (h : mngr.Filed argnum i) {next : LogEventsMngr}
    (hlist : mngr.logcmplist <+: next.logcmplist) : next.Filed argnum i := by
  obtain ⟨cmp, hcmp, hpos⟩ := h
  obtain ⟨rest, hrest⟩ := hlist
  refine ⟨cmp, ?_, hpos⟩
  rw [← hrest, List.getElem?_append_left (List.getElem?_eq_some_iff.mp hcmp).1]
  exact hcmp

theorem allFiled_nil (mngr : LogEventsMngr) : mngr.AllFiled [] :=
  fun _ hcond => absurd hcond List.not_mem_nil

theorem AllFiled.mono (h : mngr.AllFiled filters) {next : LogEventsMngr}
    (hlist : mngr.logcmplist <+: next.logcmplist) : next.AllFiled filters :=
  fun cond hcond i hi => (h cond hcond i hi).mono hlist

structure Grows (mngr next : LogEventsMngr) : Prop where
  list : mngr.logcmplist <+: next.logcmplist
  logArgs : next.logArgs = mngr.logArgs
  logCounter : next.logCounter = mngr.logCounter
  new : ∀ cmp ∈ next.logcmplist, cmp ∈ mngr.logcmplist ∨ cmp.logid = 0

theorem Grows.refl (mngr : LogEventsMngr) : Grows mngr mngr :=
  ⟨List.prefix_rfl, rfl, rfl, fun _ h => .inl h⟩

theorem Grows.trans {next last : LogEventsMngr} (h : Grows mngr next) (h' : Grows next last) :
    Grows mngr last where
  list := h.list.trans h'.list
  logArgs := h'.logArgs.trans h.logArgs
  logCounter := h'.logCounter.trans h.logCounter
  new := by
    intro cmp hcmp
    rcases h'.new cmp hcmp with hmem | hzero
    · exact h.new cmp hmem
    · exact .inr hzero

theorem Grows.coherent {next : LogEventsMngr} (h : Grows mngr next) (hcoherent : mngr.Coherent)
    (hcounter : mngr.logCounter ≠ 0) : next.Coherent := by
  intro cmp hcmp hlogid
  rw [h.logCounter] at hlogid
  rw [h.logArgs]
  rcases h.new cmp hcmp with hmem | hzero
  · exact hcoherent cmp hmem hlogid
  · exact absurd (hlogid.symm.trans hzero) hcounter

theorem registerCondition_grows (mngr : LogEventsMngr) (filter : Filter) :
    Grows mngr (mngr.registerCondition filter).1 ∧
      (mngr.registerCondition filter).1.logevents = mngr.logevents ∧
      (mngr.registerCondition filter).2 < (mngr.registerCondition filter).1.logcmplist.length := by
  simp only [registerCondition]
  split
  next i hfind =>
      obtain ⟨hlt, -⟩ := List.findIdx?_eq_some_iff_getElem.mp hfind
      exact ⟨.refl mngr, rfl, hlt⟩
  next =>
      refine ⟨⟨List.prefix_append _ _, rfl, rfl, fun cmp hcmp => ?_⟩, rfl, ?_⟩
      · rcases List.mem_append.mp hcmp with hmem | hnew
        · exact .inl hmem
        · rw [List.mem_singleton] at hnew
          exact .inr (hnew ▸ rfl)
      · simp

theorem registerCondition_filed (mngr : LogEventsMngr) (filter : Filter) :
    (mngr.registerCondition filter).1.Filed
      (((mngr.registerCondition filter).1.logcmplist[(mngr.registerCondition filter).2]?.map
        CLogCmp.pos).getD 0) (mngr.registerCondition filter).2 := by
  obtain ⟨-, -, hlt⟩ := registerCondition_grows mngr filter
  refine ⟨_, List.getElem?_eq_getElem hlt, ?_⟩
  rw [List.getElem?_eq_getElem hlt]
  rfl

theorem addFilter_filed {cmp : Nat} {filters' : List LogCond} (h : mngr.AllFiled filters)
    (hcmp : mngr.Filed argnum cmp) (hadd : addFilter cmp argnum filters = some filters') :
    mngr.AllFiled filters' := by
  induction filters generalizing filters' with
  | nil => cases hadd
  | cons cond filters ih =>
      obtain ⟨hcond, hfilters⟩ := List.forall_mem_cons.mp h
      rw [addFilter] at hadd
      split at hadd
      next hargnum =>
          cases hadd
          refine List.forall_mem_cons.mpr ⟨?_, hfilters⟩
          exact List.forall_mem_cons.mpr ⟨hargnum ▸ hcmp, hcond⟩
      next =>
          obtain ⟨rest, hrest, rfl⟩ := Option.map_eq_some_iff.mp hadd
          exact List.forall_mem_cons.mpr ⟨hcond, ih hfilters hrest⟩

theorem registerFilter_spec (h : mngr.AllFiled filters) (filter : Filter) :
    Grows mngr (mngr.registerFilter filters filter).1 ∧
      (mngr.registerFilter filters filter).1.logevents = mngr.logevents ∧
      (mngr.registerFilter filters filter).1.AllFiled (mngr.registerFilter filters filter).2 := by
  obtain ⟨hgrows, hevents, -⟩ := registerCondition_grows mngr filter
  have hfiled := registerCondition_filed mngr filter
  have hold := h.mono hgrows.list
  refine ⟨hgrows, hevents, ?_⟩
  simp only [registerFilter]
  generalize hadd : addFilter _ _ filters = added
  cases added with
  | some filters' => exact addFilter_filed hold hfiled hadd
  | none => exact List.forall_mem_cons.mpr ⟨by simpa using hfiled, hold⟩

theorem registerFilters_spec (h : mngr.AllFiled filters) (list : List Filter) :
    Grows mngr (mngr.registerFilters filters list).1 ∧
      (mngr.registerFilters filters list).1.logevents = mngr.logevents ∧
      (mngr.registerFilters filters list).1.AllFiled (mngr.registerFilters filters list).2 := by
  induction list generalizing mngr filters with
  | nil => exact ⟨.refl mngr, rfl, h⟩
  | cons filter list ih =>
      obtain ⟨hgrows, hevents, hfiled⟩ := registerFilter_spec h filter
      obtain ⟨hgrows', hevents', hfiled'⟩ := ih hfiled
      exact ⟨hgrows.trans hgrows', hevents'.trans hevents, hfiled'⟩

theorem registerLogEvent_grows (mngr : LogEventsMngr) (func pos : Int) (list : List Filter) :
    Grows mngr (mngr.registerLogEvent func pos list) := by
  rw [registerLogEvent]
  split
  next => exact .refl mngr
  next =>
      obtain ⟨hgrows, -, -⟩ := registerFilters_spec (allFiled_nil mngr) list
      exact ⟨hgrows.list, hgrows.logArgs, hgrows.logCounter, hgrows.new⟩

theorem WellFiled.registerLogEvent (h : mngr.WellFiled) (func pos : Int) (list : List Filter) :
    (mngr.registerLogEvent func pos list).WellFiled := by
  rw [LogEventsMngr.registerLogEvent]
  split
  next => exact h
  next =>
      obtain ⟨hgrows, hevents, hfiled⟩ := registerFilters_spec (allFiled_nil mngr) list
      intro argc event hevent
      simp only [hevents] at hevent
      by_cases hargc : argc = pos.toNat
      · rw [hargc, Function.update_self, List.mem_append, List.mem_singleton] at hevent
        rcases hevent with hold | rfl
        · exact (h _ event hold).mono hgrows.list
        · exact hfiled
      · rw [Function.update_of_ne hargc] at hevent
        exact (h argc event hevent).mono hgrows.list

theorem forget_registerCondition (mngr : LogEventsMngr) (filter : Filter) :
    mngr.forget.registerCondition filter =
      ((mngr.registerCondition filter).1.forget, (mngr.registerCondition filter).2) := by
  have hfind : ∀ same : CLogCmp → Bool, (∀ cmp, same cmp.forget = same cmp) →
      mngr.forget.logcmplist.findIdx? same = mngr.logcmplist.findIdx? same := by
    intro same hsame
    have hcomp : same ∘ CLogCmp.forget = same := funext hsame
    rw [forget, List.findIdx?_map, hcomp]
  simp only [registerCondition]
  rw [hfind _ fun _ => rfl]
  split
  next => rfl
  next => simp [forget, CLogCmp.forget]

theorem forget_registerFilter (mngr : LogEventsMngr) (filters : List LogCond) (filter : Filter) :
    mngr.forget.registerFilter filters filter =
      ((mngr.registerFilter filters filter).1.forget, (mngr.registerFilter filters filter).2) := by
  have hpos : ∀ (mngr : LogEventsMngr) (i : Nat),
      mngr.forget.logcmplist[i]?.map CLogCmp.pos = mngr.logcmplist[i]?.map CLogCmp.pos := by
    intro mngr i
    rw [forget, List.getElem?_map, Option.map_map]
    rfl
  simp only [registerFilter, forget_registerCondition, hpos]

theorem forget_registerFilters (mngr : LogEventsMngr) (filters : List LogCond)
    (list : List Filter) :
    mngr.forget.registerFilters filters list =
      ((mngr.registerFilters filters list).1.forget, (mngr.registerFilters filters list).2) := by
  induction list generalizing mngr filters with
  | nil => rfl
  | cons filter list ih =>
      rw [registerFilters, registerFilters, forget_registerFilter]
      exact ih _ _

theorem forget_registerLogEvent (mngr : LogEventsMngr) (func pos : Int) (list : List Filter) :
    mngr.forget.registerLogEvent func pos list = (mngr.registerLogEvent func pos list).forget := by
  rw [registerLogEvent, registerLogEvent]
  split
  next => rfl
  next =>
      rw [forget_registerFilters]
      rfl

end

end LogEventsMngr

/-! The manager that remembers and the one that does not, under the same events. -/

namespace State

def forget (s : State) : State := { s with mngr := s.mngr.forget }

/-- No comparison is marked with the number that the log string is about to get,
and none is made under the number that marks a new one. -/
def Unconfused (s : State) : Event → Prop
  | .log _ => ∀ cmp ∈ s.mngr.logcmplist, cmp.logid ≠ s.mngr.logCounter + 1
  | .registerLogEvent .. => s.running = [] ∨ s.mngr.logCounter ≠ 0
  | .handlerReturn | .clearLogEvents => True

instance (s : State) : (event : Event) → Decidable (s.Unconfused event)
  | .log _ => inferInstanceAs
      (Decidable (∀ cmp ∈ s.mngr.logcmplist, cmp.logid ≠ s.mngr.logCounter + 1))
  | .registerLogEvent .. => inferInstanceAs
      (Decidable (s.running = [] ∨ s.mngr.logCounter ≠ 0))
  | .handlerReturn | .clearLogEvents => isTrue trivial

def Transparent (events : List Event) : Prop :=
  (run (step LogEventsMngr.compareCondition) create events).map forget =
    (run (step LogEventsMngr.compareAnew) create events).map forget

structure Related (s anew : State) : Prop where
  same : s.forget = anew.forget
  filed : anew.mngr.WellFiled
  coherent : s.running ≠ [] → s.mngr.Coherent

section

variable {s anew : State} {event : Event}

theorem mngr_of_forget (h : s.forget = anew.forget) : s.mngr.forget = anew.mngr.forget :=
  congrArg State.mngr h

theorem running_of_forget (h : s.forget = anew.forget) : s.running = anew.running := by
  have hrunning := congrArg State.running h
  exact hrunning

theorem fired_of_forget (h : s.forget = anew.forget) : s.fired = anew.fired := by
  have hfired := congrArg State.fired h
  exact hfired

theorem forget_congr {mngr mngr' : LogEventsMngr} (h : mngr.forget = mngr'.forget)
    (running : List Cursor) (fired : List Int) :
    forget ⟨mngr, running, fired⟩ = forget ⟨mngr', running, fired⟩ := by
  rw [forget, forget, h]

theorem related_execute (hcoherent : s.mngr.Coherent) (hsame : s.forget = anew.forget)
    (hfiled : anew.mngr.WellFiled) (argc index : Nat) :
    Related (execute LogEventsMngr.compareCondition s argc index)
      (execute LogEventsMngr.compareAnew anew argc index) := by
  have htracks : s.mngr.Tracks anew.mngr := ⟨hcoherent, mngr_of_forget hsame⟩
  have hevents : s.mngr.logevents = anew.mngr.logevents := by
    have hevents := congrArg LogEventsMngr.logevents (mngr_of_forget hsame)
    exact hevents
  obtain ⟨htracked, hnext⟩ := htracks.nextEvent
    (fun event hevent => hfiled argc event (List.mem_of_mem_drop hevent)) index
  rw [execute, execute, hevents, hnext]
  generalize LogEventsMngr.nextEvent _ _ _ _ = result at htracked
  obtain ⟨mngr, found⟩ := result
  cases found with
  | none =>
      rw [running_of_forget hsame, fired_of_forget hsame]
      exact ⟨forget_congr htracked.same _ _, hfiled, fun _ => htracked.coherent⟩
  | some next =>
      rw [running_of_forget hsame, fired_of_forget hsame]
      exact ⟨forget_congr htracked.same _ _, hfiled, fun _ => htracked.coherent⟩

theorem coherent_log {text : CString} {mngr next : LogEventsMngr}
    (hmarks : ∀ cmp ∈ mngr.logcmplist, cmp.logid ≠ mngr.logCounter + 1)
    (hset : mngr.setLogString text = some next) : next.parseLogString.Coherent := by
  obtain ⟨hlist, -, hcounter⟩ := LogEventsMngr.setLogString_keeps hset
  obtain ⟨hlist', -, hcounter'⟩ := LogEventsMngr.parseArgs_keeps next
    (maxLogArgs - next.logArgc) next.logString
  intro cmp hcmp hlogid
  rw [LogEventsMngr.parseLogString, hlist', hlist] at hcmp
  rw [LogEventsMngr.parseLogString, hcounter', hcounter] at hlogid
  exact absurd hlogid (hmarks cmp hcmp)

theorem related_log (h : Related s anew) {text : CString} (hmarks : s.Unconfused (.log text)) :
    Option.Rel Related (step LogEventsMngr.compareCondition s (.log text))
      (step LogEventsMngr.compareAnew anew (.log text)) := by
  have hset := LogEventsMngr.forget_setLogString s.mngr text
  rw [mngr_of_forget h.same, LogEventsMngr.forget_setLogString] at hset
  rw [step, step]
  cases hs : s.mngr.setLogString text with
  | none =>
      rw [hs, Option.map_none, Option.map_eq_none_iff] at hset
      rw [hset]
      exact .none
  | some next =>
      rw [hs, Option.map_some, Option.map_eq_some_iff] at hset
      obtain ⟨next', hanew, hnext⟩ := hset
      rw [hanew]
      have hparsed : next.parseLogString.forget = next'.parseLogString.forget := by
        have hturns : next.logArgc = next'.logArgc := (congrArg LogEventsMngr.logArgc hnext).symm
        have hstring : next.logString = next'.logString :=
          (congrArg LogEventsMngr.logString hnext).symm
        rw [LogEventsMngr.parseLogString, LogEventsMngr.parseLogString,
          LogEventsMngr.forget_parseArgs, LogEventsMngr.forget_parseArgs, hturns, hstring, hnext]
      have hargc : next.parseLogString.logArgc = next'.parseLogString.logArgc := by
        have hargc := congrArg LogEventsMngr.logArgc hparsed
        exact hargc
      have hfiled : next'.parseLogString.WellFiled := by
        obtain ⟨hlist, hevents, -⟩ := LogEventsMngr.setLogString_keeps hanew
        obtain ⟨hlist', hevents', -⟩ := LogEventsMngr.parseArgs_keeps next'
          (maxLogArgs - next'.logArgc) next'.logString
        intro argc event hevent
        rw [LogEventsMngr.parseLogString, hevents', hevents] at hevent
        refine (h.filed argc event hevent).mono ?_
        rw [LogEventsMngr.parseLogString, hlist', hlist]
      simp only [Option.map_some, hargc]
      refine .some (related_execute (coherent_log hmarks hs) ?_ hfiled _ _)
      rw [running_of_forget h.same, fired_of_forget h.same]
      exact forget_congr hparsed _ _

theorem related_step (h : Related s anew) (hmarks : s.Unconfused event) :
    Option.Rel Related (step LogEventsMngr.compareCondition s event)
      (step LogEventsMngr.compareAnew anew event) := by
  cases event with
  | log text => exact related_log h hmarks
  | registerLogEvent func pos filters =>
      refine .some ⟨?_, h.filed.registerLogEvent func pos filters, fun hrunning => ?_⟩
      · rw [running_of_forget h.same, fired_of_forget h.same]
        refine forget_congr ?_ _ _
        rw [← LogEventsMngr.forget_registerLogEvent, ← LogEventsMngr.forget_registerLogEvent,
          mngr_of_forget h.same]
      · exact (LogEventsMngr.registerLogEvent_grows s.mngr func pos filters).coherent
          (h.coherent hrunning) (hmarks.resolve_left hrunning)
  | handlerReturn =>
      rw [step, step, ← running_of_forget h.same]
      cases hrunning : s.running with
      | nil => exact .none
      | cons cursor running =>
          have hcoherent : ({ s with running } : State).mngr.Coherent :=
            h.coherent (by simp [hrunning])
          have hsame : forget { s with running } = forget { anew with running } := by
            rw [fired_of_forget h.same]
            exact forget_congr (mngr_of_forget h.same) _ _
          exact .some (related_execute hcoherent hsame h.filed _ _)
  | clearLogEvents =>
      rw [step, step, ← running_of_forget h.same]
      split
      next hrunning =>
          refine .some ⟨?_, fun _ _ hevent => absurd hevent List.not_mem_nil, fun hne => ?_⟩
          · rw [running_of_forget h.same, fired_of_forget h.same]
            refine forget_congr ?_ _ _
            have hsame := congrArg LogEventsMngr.clearLogEvents (mngr_of_forget h.same)
            exact hsame
          · exact absurd hrunning hne
      next => exact .none

end

theorem transparent_of_unconfused (events : List Event)
    (h : Meets (step LogEventsMngr.compareCondition) Unconfused create events) :
    Transparent events := by
  have hcreate : Related create create :=
    ⟨rfl, fun _ _ hevent => absurd hevent List.not_mem_nil, fun hrunning => absurd rfl hrunning⟩
  have hstep : ∀ {s anew event}, Related s anew → s.Unconfused event →
      Option.Rel Related (step LogEventsMngr.compareCondition s event)
        (step LogEventsMngr.compareAnew anew event) := related_step
  have hrun := run_related hstep hcreate h
  rw [Transparent]
  generalize run (step LogEventsMngr.compareCondition) create events = final at hrun
  generalize run (step LogEventsMngr.compareAnew) create events = final' at hrun
  cases hrun with
  | none => rfl
  | some hrelated => exact congrArg some hrelated.same

/-! The number comes round. -/

def say (c : Byte) (hc : (0 : Byte) ∉ [c, 10]) : CString := ⟨[c, 10], hc⟩

/-- An event for one argument that has to be `a`. -/
def register : Event :=
  .registerLogEvent 7 1 [⟨⟨[48, 61, 97], by decide⟩, default⟩]

theorem transparent_say :
    Transparent [register, .log (say 98 (by decide)), .log (say 97 (by decide)), .handlerReturn] :=
  transparent_of_unconfused _ (by decide +kernel)

def skipTo (s : State) (counter : BitVec 32) : State :=
  { s with mngr := { s.mngr with logCounter := counter } }

theorem step_log_empty (compare : LogEventsMngr.Compare) {s : State}
    (hstring : s.mngr.logString = List.replicate 256 0) (hargc : s.mngr.logArgc = 0)
    (hevents : s.mngr.logevents 0 = []) :
    step compare s (.log default) = some (s.skipTo (s.mngr.logCounter + 1)) := by
  have hset : s.mngr.setLogString default = some (s.skipTo (s.mngr.logCounter + 1)).mngr := by
    have hsize : (default : CString).size = 0 := rfl
    have hcleared : (default : CString).bytes.take 254 ++
        0 :: s.mngr.logString.drop (((default : CString).bytes.take 254).length + 1) =
          s.mngr.logString := by
      rw [hstring]
      rfl
    simp only [LogEventsMngr.setLogString, hsize, if_true]
    rw [hcleared, ← hargc]
    rfl
  have hparse : (s.skipTo (s.mngr.logCounter + 1)).mngr.parseLogString =
      (s.skipTo (s.mngr.logCounter + 1)).mngr := by
    have hhead : (s.skipTo (s.mngr.logCounter + 1)).mngr.logString.headD 0 = 0 := by
      change s.mngr.logString.headD 0 = 0
      rw [hstring]
      rfl
    rw [LogEventsMngr.parseLogString]
    cases maxLogArgs - (s.skipTo (s.mngr.logCounter + 1)).mngr.logArgc with
    | zero => rfl
    | succ turns => rw [LogEventsMngr.parseArgs, if_neg (not_not.mpr hhead)]
  have hnone : (s.skipTo (s.mngr.logCounter + 1)).mngr.logevents
      (s.skipTo (s.mngr.logCounter + 1)).mngr.logArgc = [] := by
    change s.mngr.logevents s.mngr.logArgc = []
    rw [hargc, hevents]
  rw [step, hset, Option.map_some]
  simp only [hparse]
  rw [execute]
  simp only [hnone, List.drop_nil]
  rfl

theorem run_log_empty (compare : LogEventsMngr.Compare) {s : State}
    (hstring : s.mngr.logString = List.replicate 256 0) (hargc : s.mngr.logArgc = 0)
    (hevents : s.mngr.logevents 0 = []) (n : Nat) (rest : List Event) :
    run (step compare) s (List.replicate n (.log default) ++ rest) =
      run (step compare) (s.skipTo (s.mngr.logCounter + BitVec.ofNat 32 n)) rest := by
  induction n generalizing s with
  | zero => simp [skipTo]
  | succ n ih =>
      have hrest := @ih (s.skipTo (s.mngr.logCounter + 1)) hstring hargc hevents
      rw [List.replicate_succ, List.cons_append, run_cons,
        step_log_empty compare hstring hargc hevents, Option.bind_some, hrest]
      have hcounter : s.mngr.logCounter + 1 + BitVec.ofNat 32 n =
          s.mngr.logCounter + BitVec.ofNat 32 (n + 1) := by
        rw [BitVec.ofNat_add, BitVec.add_assoc, BitVec.add_comm 1]
        rfl
      exact congrArg (fun counter => run (step compare) (s.skipTo counter) rest) hcounter

def comeRound : List Event :=
  register :: (List.replicate (2 ^ 32 - 1) (.log default) ++ [.log (say 98 (by decide))])

theorem run_comeRound (compare : LogEventsMngr.Compare) :
    run (step compare) create comeRound =
      step compare (skipTo ⟨create.mngr.registerLogEvent 7 1 [⟨⟨[48, 61, 97], by decide⟩, default⟩],
        [], []⟩ (BitVec.allOnes 32)) (.log (say 98 (by decide))) := by
  have hregister : step compare create register = some ⟨create.mngr.registerLogEvent 7 1
      [⟨⟨[48, 61, 97], by decide⟩, default⟩], [], []⟩ := rfl
  have hcounter : (0 : BitVec 32) + BitVec.ofNat 32 (2 ^ 32 - 1) = BitVec.allOnes 32 := by decide
  rw [comeRound, run_cons, hregister, Option.bind_some, run_log_empty compare rfl rfl rfl]
  change run (step compare) (skipTo _ ((0 : BitVec 32) + BitVec.ofNat 32 (2 ^ 32 - 1))) _ = _
  rw [hcounter, run_cons]
  exact Option.bind_fun_some _

theorem not_transparent_comeRound : ¬ Transparent comeRound := by
  intro h
  have hfired := congrArg (Option.map State.fired) h
  rw [run_comeRound, run_comeRound, Option.map_map, Option.map_map] at hfired
  exact absurd hfired (by decide +kernel)

end State

end AmxModC.LogEvent
