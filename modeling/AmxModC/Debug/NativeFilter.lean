import AmxModC.Debug.Model

namespace AmxModC.Debug

open Foundation

namespace Debugger

variable (d : Debugger)

@[simp] theorem beginExec_top : d.beginExec.top = d.top + 1 := rfl

theorem errorExists_beginExec : d.beginExec.errorExists = some false := by
  have hlow := d.low
  have hhigh := d.beginExec.high
  have hnat : (d.top + 1).toNat < d.beginExec.calls.length := by
    simp only [beginExec_top] at hhigh
    omega
  have hcall : d.beginExec.calls[(d.top + 1).toNat]? = some amxErrNone := by
    rw [List.getElem?_eq_getElem hnat]
    simp [beginExec]
  have htop : 0 ≤ d.top + 1 := by omega
  simp [errorExists, htop, hcall]

theorem endExec_eq_some {d d' : Debugger} (h : d.endExec = some d') : d'.top = d.top - 1 := by
  unfold endExec at h
  split at h
  next => cases h; rfl
  next => cases h

theorem endExec_beginExec : ∃ d', d.beginExec.endExec = some d' ∧ d'.top = d.top := by
  have hlow := d.low
  have htop : 0 ≤ d.beginExec.top := by
    simp only [beginExec_top]
    omega
  refine ⟨_, dif_pos htop, ?_⟩
  simp

theorem setTracedError_eq_some {d d' : Debugger} {err : Int}
    (h : d.setTracedError err = some d') : 0 ≤ d.top ∧ d'.top = d.top := by
  unfold setTracedError at h
  split at h
  next htop => cases h; exact ⟨htop, rfl⟩
  next => cases h

theorem setTracedError_of_nonneg {d : Debugger} (err : Int) (h : 0 ≤ d.top) :
    ∃ d', d.setTracedError err = some d' ∧ d'.top = d.top :=
  ⟨_, if_pos h, rfl⟩

end Debugger

namespace Plugin

variable (s : Plugin)

/-! What a call of the filter finds. -/

def readied (trap : Bool) : Plugin where
  prenit := s.prenit || !trap
  debug := s.debug && (trap || !s.attached)
  hooked := s.hooked && (trap || !s.attached)
  attached := s.attached && trap
  debugger := if s.attached && trap then s.debugger.beginExec else s.debugger
  stk := s.stk
  hea := s.hea
  paramcount := s.paramcount
  error := s.error
  inNativeFilter := true
  handling := s.handling
  natFunc := s.natFunc
  errFunc := s.errFunc
  errorBlocks := s.errorBlocks

theorem enter_eq_pushString (trap : Bool) (native : CString) :
    s.enter trap native = (s.readied trap).push.push.pushString native := by
  cases trap <;> cases h : s.attached <;> simp [enter, readied, disableDebugHandler, h]

theorem push_eq : ∃ stk paramcount, s.push = { s with stk, paramcount } := by
  unfold push
  split
  next => exact ⟨s.stk, s.paramcount, rfl⟩
  next => exact ⟨_, _, rfl⟩

theorem push_congr {s t : Plugin} (hstk : s.stk = t.stk) (hhea : s.hea = t.hea) :
    s.push.stk = t.push.stk ∧ s.push.hea = t.push.hea := by
  unfold push
  rw [hstk, hhea]
  split
  next => exact ⟨hstk, hhea⟩
  next => exact ⟨rfl, rfl⟩

def Names (native : CString) : Prop := s.push.push.Allots (cells native)

instance (native : CString) : Decidable (s.Names native) :=
  inferInstanceAs (Decidable (s.push.push.Allots (cells native)))

theorem allots_readied (trap : Bool) (native : CString) :
    (s.readied trap).push.push.Allots (cells native) ↔ s.Names native := by
  have hone := push_congr (s := s.readied trap) (t := s) rfl rfl
  have htwo := push_congr hone.1 hone.2
  unfold Names Allots
  rw [htwo.1, htwo.2]

def nameAddr (native : CString) : Option Int := if s.Names native then some s.hea else none

def nameEnd (native : CString) : Int :=
  if s.Names native then s.hea + cells native * sizeofCell else s.hea

theorem enter_spec (trap : Bool) (native : CString) :
    (s.enter trap native).1 = s.nameAddr native ∧
      ∃ stk paramcount, (s.enter trap native).2 =
        { s.readied trap with stk, paramcount, hea := s.nameEnd native } := by
  obtain ⟨stk, n, hone⟩ := push_eq (s.readied trap)
  obtain ⟨stk', n', htwo⟩ := push_eq (s.readied trap).push
  have hallots := allots_readied s trap native
  rw [enter_eq_pushString, pushString, nameAddr, nameEnd]
  by_cases hnames : s.Names native
  next =>
    rw [if_pos (hallots.mpr hnames), if_pos hnames, if_pos hnames]
    obtain ⟨stk'', n'', hpush⟩ := push_eq
      { (s.readied trap).push.push with
        hea := (s.readied trap).push.push.hea + cells native * sizeofCell }
    have hhea : (s.readied trap).push.push.hea = s.hea := by
      rw [htwo, hone]
      rfl
    refine ⟨congrArg some hhea, stk'', n'', ?_⟩
    rw [hpush, hhea, htwo, hone]
  next =>
    rw [if_neg (hallots.not.mpr hnames), if_neg hnames, if_neg hnames]
    refine ⟨rfl, stk', n', ?_⟩
    rw [htwo, hone]
    rfl

def HeapKept (native : CString) (stale : Int) : Prop := s.Names native ∨ s.hea ≤ stale

theorem cells_pos (native : CString) : 0 < cells native := by
  unfold cells
  omega

theorem nameEnd_eq_iff (native : CString) : s.nameEnd native = s.hea ↔ ¬s.Names native := by
  have hpos := cells_pos native
  unfold nameEnd sizeofCell
  split
  next h => simp only [h, not_true, iff_false]; omega
  next h => simp only [h, not_false_eq_true]

section Release

variable (addr : Int)

@[simp] theorem release_debugger : (s.release addr).debugger = s.debugger := by
  unfold release
  split <;> rfl

@[simp] theorem release_prenit : (s.release addr).prenit = s.prenit := by
  unfold release
  split <;> rfl

@[simp] theorem release_hooked : (s.release addr).hooked = s.hooked := by
  unfold release
  split <;> rfl

@[simp] theorem release_inNativeFilter : (s.release addr).inNativeFilter = s.inNativeFilter := by
  unfold release
  split <;> rfl

theorem release_hea : (s.release addr).hea = if s.hea > addr then addr else s.hea := by
  unfold release
  split <;> rfl

end Release

theorem release_nameEnd {s t : Plugin} {native : CString} (stale : Int)
    (hend : t.hea = s.nameEnd native) :
    (t.release ((s.nameAddr native).getD stale)).hea = s.hea ↔ s.HeapKept native stale := by
  have hpos := cells_pos native
  rw [release_hea, hend]
  unfold HeapKept nameEnd nameAddr sizeofCell
  by_cases hnames : s.Names native
  next =>
    simp only [hnames, if_true, Option.getD_some, true_or, iff_true]
    rw [if_pos (by omega)]
  next =>
    simp only [hnames, if_false, Option.getD_none, false_or]
    split
    next h => omega
    next h => omega

structure Restored (s s' : Plugin) : Prop where
  top : s'.debugger.top = s.debugger.top
  prenit : s'.prenit = s.prenit
  hooked : s'.hooked = s.hooked
  hea : s'.hea = s.hea
  mark : s'.inNativeFilter = s.inNativeFilter

theorem restored_iff {s s' : Plugin} :
    s.Restored s' ↔ s'.debugger.top = s.debugger.top ∧ s'.prenit = s.prenit ∧
      s'.hooked = s.hooked ∧ s'.hea = s.hea ∧ s'.inNativeFilter = s.inNativeFilter :=
  ⟨fun h => ⟨h.top, h.prenit, h.hooked, h.hea, h.mark⟩,
    fun ⟨top, prenit, hooked, hea, mark⟩ => ⟨top, prenit, hooked, hea, mark⟩⟩

def started (trap : Bool) (native : CString) : Plugin :=
  { (s.enter trap native).2 with paramcount := 0 }

theorem started_spec (trap : Bool) (native : CString) :
    ∃ stk, s.started trap native =
      { s.readied trap with stk, paramcount := 0, hea := s.nameEnd native } := by
  obtain ⟨-, stk, n, hentered⟩ := s.enter_spec trap native
  refine ⟨stk, ?_⟩
  rw [started, hentered]

theorem handleNative_of_filtering {s : Plugin} (hfilter : s.natFunc > -1) (trap : Bool)
    (native : CString) (stale : Int) (body : Plugin → Option (Int × Int × Plugin)) :
    ∃ stk, s.handleNative trap native stale body =
      (body (s.started trap native)).bind fun (err, retval, s') =>
        { s' with stk, hea := s.nameEnd native }.leave trap s.attached
          ((s.nameAddr native).getD stale) err retval := by
  obtain ⟨haddr, stk, n, hentered⟩ := s.enter_spec trap native
  refine ⟨stk + n * sizeofCell, ?_⟩
  unfold handleNative exec started
  rw [if_pos hfilter]
  generalize s.enter trap native = entry at haddr hentered
  obtain ⟨addr, entered⟩ := entry
  simp only at haddr hentered
  subst haddr hentered
  dsimp only
  rw [Option.bind_map]
  rfl

def Restores (s : Plugin) (trap : Bool) (native : CString) (stale : Int) (run : Run) : Prop :=
  ∃ result s', s.handleNative trap native stale run.body = some (result, s') ∧ s.Restored s'

/-! How the filter can end. -/

theorem error_ne (err : RuntimeError) : err.val ≠ -1 ∧ err.val ≠ 0 := by
  have hpos := err.property
  omega

section Ends

variable {s} (hfilter : s.natFunc > -1) (native : CString) (stale : Int)
include hfilter

theorem restores_of_ends (trap : Bool) (run : Run) {err retval : Int} {t : Plugin}
    (hbody : run.body (s.started trap native) = some (err, retval, t)) :
    ∃ stk, s.Restores trap native stale run ↔
      ∃ result s', { t with stk, hea := s.nameEnd native }.leave trap s.attached
        ((s.nameAddr native).getD stale) err retval = some (result, s') ∧ s.Restored s' := by
  obtain ⟨stk, hcall⟩ := handleNative_of_filtering hfilter trap native stale run.body
  refine ⟨stk, ?_⟩
  unfold Restores
  rw [hcall, hbody]
  rfl

theorem restores_returns_trapped (retval : Int) :
    s.Restores true native stale (.returns retval) ↔
      s.inNativeFilter = false ∧ s.HeapKept native stale := by
  obtain ⟨stk, hends⟩ := restores_of_ends hfilter native stale true (.returns retval) rfl
  obtain ⟨stk', hstarted⟩ := s.started_spec true native
  rw [hends, hstarted]
  cases hattached : s.attached with
  | false =>
      simp [leave, amxErrNone, readied, restored_iff, release_nameEnd, hattached, and_comm]
  | true =>
      obtain ⟨d, hend, htop⟩ := s.debugger.endExec_beginExec
      simp [leave, amxErrNone, readied, restored_iff, release_nameEnd, hattached, withDebugger,
        hend, htop, and_comm]

theorem restores_fails_trapped (err : RuntimeError) :
    s.Restores true native stale (.fails err) ↔
      s.inNativeFilter = false ∧ s.HeapKept native stale ∧ s.attached = false := by
  obtain ⟨stk, hends⟩ := restores_of_ends hfilter native stale true (.fails err) rfl
  obtain ⟨stk', hstarted⟩ := s.started_spec true native
  obtain ⟨hone, hnone⟩ := error_ne err
  rw [hends, hstarted]
  cases hattached : s.attached with
  | false =>
      simp [leave, amxErrNone, readied, restored_iff, release_nameEnd, hattached, hone, hnone,
        logError, ifAttached, display, and_comm]
  | true =>
      obtain ⟨d, hend, htop⟩ := s.debugger.endExec_beginExec
      simp only [reduceCtorEq, and_false, iff_false]
      rintro ⟨result, s', hrun, hrestored⟩
      have hkept := hrestored.top
      cases htraced : d.setTracedError err with
      | none =>
          simp [leave, amxErrNone, readied, hattached, hone, hnone, withDebugger,
            Debugger.errorExists_beginExec, logError, ifAttached, display, hend, htraced] at hrun
      | some traced =>
          have htracedTop := (Debugger.setTracedError_eq_some htraced).2
          cases hpopped : traced.endExec with
          | none =>
              simp [leave, amxErrNone, readied, hattached, hone, hnone, withDebugger,
                Debugger.errorExists_beginExec, logError, ifAttached, display, hend, htraced,
                hpopped] at hrun
          | some popped =>
              have hpoppedTop := Debugger.endExec_eq_some hpopped
              simp [leave, amxErrNone, readied, hattached, hone, hnone, withDebugger,
                Debugger.errorExists_beginExec, logError, ifAttached, display, hend, htraced,
                hpopped] at hrun
              obtain ⟨-, rfl⟩ := hrun
              simp only at hkept
              omega

theorem restores_aborts_trapped (err : RuntimeError) :
    s.Restores true native stale (.aborts err) ↔
      s.inNativeFilter = false ∧ s.HeapKept native stale ∧
        (s.attached = true → 0 ≤ s.debugger.top) := by
  obtain ⟨stk', hstarted⟩ := s.started_spec true native
  obtain ⟨d, hend, htop⟩ := s.debugger.endExec_beginExec
  cases hattached : s.attached with
  | false =>
      have hbody : (Run.aborts err).body (s.started true native) =
          some (-1, 0, { s.started true native with error := -1 }) := by
        rw [hstarted]
        simp [Run.body, readied, hattached, logError, ifAttached, display]
      obtain ⟨stk, hends⟩ := restores_of_ends hfilter native stale true (.aborts err) hbody
      rw [hends, hstarted]
      simp [leave, readied, restored_iff, release_nameEnd, hattached, and_comm]
  | true =>
      by_cases hnonneg : 0 ≤ s.debugger.top
      next =>
        obtain ⟨traced, htraced, htracedTop⟩ :=
          Debugger.setTracedError_of_nonneg err.val (htop.symm ▸ hnonneg)
        have hbody : (Run.aborts err).body (s.started true native) =
            some (-1, 0, { s.started true native with error := -1, debugger := traced }) := by
          rw [hstarted]
          simp [Run.body, readied, hattached, logError, ifAttached, display, withDebugger, hend,
            htraced]
        obtain ⟨stk, hends⟩ := restores_of_ends hfilter native stale true (.aborts err) hbody
        rw [hends, hstarted]
        simp [leave, readied, restored_iff, release_nameEnd, hattached, htracedTop, htop, hnonneg,
          and_comm]
      next =>
        have htraced : d.setTracedError err.val = none := if_neg (htop.symm ▸ hnonneg)
        obtain ⟨stk, hcall⟩ :=
          handleNative_of_filtering hfilter true native stale (Run.aborts err).body
        unfold Restores
        rw [hcall, hstarted]
        simp [Run.body, readied, hattached, logError, ifAttached, display, withDebugger, hend,
          htraced, hnonneg]

theorem restores_returns_loading (retval : Int) :
    s.Restores false native stale (.returns retval) ↔
      s.inNativeFilter = false ∧ s.HeapKept native stale ∧ s.prenit = false ∧
        (s.attached = true → s.hooked = true) := by
  obtain ⟨stk, hends⟩ := restores_of_ends hfilter native stale false (.returns retval) rfl
  obtain ⟨stk', hstarted⟩ := s.started_spec false native
  rw [hends, hstarted]
  cases hattached : s.attached with
  | false =>
      simp [leave, amxErrNone, readied, restored_iff, release_nameEnd, hattached]
      tauto
  | true =>
      simp [leave, amxErrNone, readied, restored_iff, release_nameEnd, hattached,
        enableDebugHandler]
      tauto

theorem restores_fails_loading (err : RuntimeError) :
    s.Restores false native stale (.fails err) ↔
      s.inNativeFilter = true ∧ ¬s.Names native ∧ s.prenit = true ∧
        (s.attached = true → s.hooked = false) := by
  obtain ⟨stk, hends⟩ := restores_of_ends hfilter native stale false (.fails err) rfl
  obtain ⟨stk', hstarted⟩ := s.started_spec false native
  obtain ⟨hone, hnone⟩ := error_ne err
  rw [hends, hstarted]
  cases hattached : s.attached with
  | false =>
      simp [leave, amxErrNone, readied, restored_iff, nameEnd_eq_iff, hattached, hone,
        hnone]
      tauto
  | true =>
      simp [leave, amxErrNone, readied, restored_iff, nameEnd_eq_iff, hattached, hone,
        hnone]
      tauto

theorem restores_aborts_loading (err : RuntimeError) :
    s.Restores false native stale (.aborts err) ↔
      s.inNativeFilter = false ∧ s.HeapKept native stale ∧ s.prenit = true ∧
        (s.attached = true → s.hooked = false) := by
  obtain ⟨stk', hstarted⟩ := s.started_spec false native
  have hbody : (Run.aborts err).body (s.started false native) =
      some (-1, 0, { s.started false native with error := -1 }) := by
    rw [hstarted]
    simp [Run.body, readied, logError, ifAttached, display]
  obtain ⟨stk, hends⟩ := restores_of_ends hfilter native stale false (.aborts err) hbody
  rw [hends, hstarted]
  cases hattached : s.attached with
  | false =>
      simp [leave, readied, restored_iff, release_nameEnd, hattached]
      tauto
  | true =>
      simp [leave, readied, restored_iff, release_nameEnd, hattached]
      tauto

end Ends

/-! The calls that the filter itself makes. -/

def Nested : Run → Plugin → Prop
  | .returns _, _ => True
  | .fails _, _ => True
  | .aborts _, _ => True
  | .calls native stale inner rest, s =>
      s.Restores true native stale inner ∧
        (s.natFunc > -1 → Nested inner (s.started true native)) ∧
        ∀ result s', s.handleNative true native stale inner.body = some (result, s') →
          result ≠ 0 → Nested rest s'

def LeavesAsFound (s : Plugin) (trap : Bool) (native : CString) (stale : Int) (run : Run) : Prop :=
  s.Restores trap native stale run ∧ (s.natFunc > -1 → Nested run (s.started trap native))

def Undisturbed (s : Plugin) (native : CString) (stale : Int) : Bool → Run → Prop
  | true, .returns _ => s.inNativeFilter = false ∧ s.HeapKept native stale
  | true, .fails _ =>
      s.inNativeFilter = false ∧ s.HeapKept native stale ∧ s.attached = false
  | true, .aborts _ =>
      s.inNativeFilter = false ∧ s.HeapKept native stale ∧
        (s.attached = true → 0 ≤ s.debugger.top)
  | false, .returns _ =>
      s.inNativeFilter = false ∧ s.HeapKept native stale ∧ s.prenit = false ∧
        (s.attached = true → s.hooked = true)
  | false, .fails _ =>
      s.inNativeFilter = true ∧ ¬s.Names native ∧ s.prenit = true ∧
        (s.attached = true → s.hooked = false)
  | false, .aborts _ =>
      s.inNativeFilter = false ∧ s.HeapKept native stale ∧ s.prenit = true ∧
        (s.attached = true → s.hooked = false)
  | _, .calls .. => False

theorem started_inNativeFilter (trap : Bool) (native : CString) :
    (s.started trap native).inNativeFilter = true := by
  obtain ⟨stk, hstarted⟩ := s.started_spec trap native
  rw [hstarted]
  rfl

theorem started_natFunc (trap : Bool) (native : CString) :
    (s.started trap native).natFunc = s.natFunc := by
  obtain ⟨stk, hstarted⟩ := s.started_spec trap native
  rw [hstarted]
  rfl

def Clears (call : Option (Int × Plugin)) : Prop :=
  ∀ result s', call = some (result, s') → s'.inNativeFilter = false

theorem clears_bind {α : Type} {x : Option α} {f : α → Option (Int × Plugin)}
    (h : ∀ a, Clears (f a)) : Clears (x.bind f) := by
  intro result s' hcall
  obtain ⟨a, -, hrest⟩ := Option.bind_eq_some_iff.mp hcall
  exact h a result s' hrest

theorem clears_some {result : Int} {s' : Plugin} (h : s'.inNativeFilter = false) :
    Clears (some (result, s')) := by
  intro _ _ hcall
  cases hcall
  exact h

theorem clears_ite {c : Prop} [Decidable c] {call call' : Option (Int × Plugin)}
    (h : Clears call) (h' : Clears call') : Clears (if c then call else call') := by
  split
  next => exact h
  next => exact h'

theorem leave_trapped_clears (pDebugger : Bool) (heaAddr err retval : Int) :
    Clears (s.leave true pDebugger heaAddr err retval) := by
  unfold leave
  split
  next => exact clears_some (release_inNativeFilter _ _)
  next =>
    simp only [not_true_eq_false, and_false, if_false, Option.bind_eq_bind, Option.pure_def]
    repeat' first
      | exact clears_some rfl
      | refine clears_bind fun _ => ?_
      | apply clears_ite

theorem not_restores_of_marked {s : Plugin} (hfilter : s.natFunc > -1)
    (hmark : s.inNativeFilter = true) (native : CString) (stale : Int) (run : Run) :
    ¬s.Restores true native stale run := by
  rintro ⟨result, s', hcall, hrestored⟩
  obtain ⟨stk, hhandle⟩ := handleNative_of_filtering hfilter true native stale run.body
  rw [hhandle] at hcall
  obtain ⟨⟨err, retval, t⟩, -, hleave⟩ := Option.bind_eq_some_iff.mp hcall
  have hcleared := leave_trapped_clears _ _ _ _ _ _ _ hleave
  have hkept := hrestored.mark
  rw [hcleared, hmark] at hkept
  cases hkept

theorem leavesAsFound_iff_undisturbed (trap : Bool) (native : CString) (stale : Int) (run : Run) :
    s.LeavesAsFound trap native stale run ↔
      (s.natFunc > -1 → s.Undisturbed native stale trap run) := by
  by_cases hfilter : s.natFunc > -1
  next =>
    simp only [hfilter, forall_const]
    unfold LeavesAsFound
    simp only [hfilter, forall_const]
    cases run with
    | returns retval =>
        cases trap with
        | false => simp [Nested, Undisturbed, restores_returns_loading hfilter]
        | true => simp [Nested, Undisturbed, restores_returns_trapped hfilter]
    | fails err =>
        cases trap with
        | false => simp [Nested, Undisturbed, restores_fails_loading hfilter]
        | true => simp [Nested, Undisturbed, restores_fails_trapped hfilter]
    | aborts err =>
        cases trap with
        | false => simp [Nested, Undisturbed, restores_aborts_loading hfilter]
        | true => simp [Nested, Undisturbed, restores_aborts_trapped hfilter]
    | calls nestedNative nestedStale inner rest =>
        have hnested := not_restores_of_marked (s := s.started trap native)
          (by rw [started_natFunc]; exact hfilter) (s.started_inNativeFilter trap native)
          nestedNative nestedStale inner
        simp [Nested, Undisturbed, hnested]
  next =>
    simp only [hfilter, false_implies, iff_true]
    exact ⟨⟨0, s, if_neg hfilter, rfl, rfl, rfl, rfl, rfl⟩, fun h => absurd h hfilter⟩

def running : Plugin where
  prenit := false
  debug := true
  hooked := true
  attached := true
  debugger := { calls := [amxErrNone], top := 0, low := by decide, high := by decide }
  stk := 4096
  hea := 1024
  paramcount := 0
  error := amxErrNone
  inNativeFilter := false
  handling := false
  natFunc := 0
  errFunc := -1
  errorBlocks := false

def boundsError : RuntimeError := ⟨4, by decide⟩

theorem noNul_unbound : (0 : Byte) ∉ ([97] : List Byte) := by decide

def unbound : CString := ⟨[97], noNul_unbound⟩

theorem not_leavesAsFound_boundsError :
    ((running.handleNative true unbound 0 (Run.fails boundsError).body).map fun (_, s) =>
        s.debugger.top) = some (-1) ∧
      ¬running.LeavesAsFound true unbound 0 (.fails boundsError) := by
  have hpopped : ((running.handleNative true unbound 0 (Run.fails boundsError).body).map
      fun (_, s) => s.debugger.top) = some (-1) := by decide +kernel
  refine ⟨hpopped, fun ⟨⟨result, s', hcall, hrestored⟩, _⟩ => ?_⟩
  rw [hcall] at hpopped
  have hkept : s'.debugger.top = 0 := hrestored.top
  have htop : s'.debugger.top = -1 := Option.some.inj hpopped
  omega

end Plugin

end AmxModC.Debug
