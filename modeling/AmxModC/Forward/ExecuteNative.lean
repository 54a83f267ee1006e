import AmxModC.Forward.Balance

namespace AmxModC.Forward

open Foundation

/-! The native `ExecuteForward`: strings are copied into the heap of the calling plugin, one
argument after the other, and the forward is given their addresses. -/

structure Plugins where
  manager : State
  registers : Amx → Registers
  data : AmxModC.Memory

/-- An entry of `ps`; a string is known by its entry of `allots`. -/
inductive Prepared where
  | value (value : Cell)
  | string (address : Cell)
deriving DecidableEq, Repr

def Prepared.string? : Prepared → Option Cell
  | .value _ => none
  | .string address => some address

namespace State

def paramTypes (s : State) (id : Int) : List ForwardParam :=
  if id % 2 = 1 then ((s.spForwards[slotOf id]?).map CSPForward.paramTypes).getD []
  else ((s.forwards[slotOf id]?).map CForward.paramTypes).getD []

end State

/-- `*(char *)address = byte`, in the order of bytes of the machine. -/
def pokeByte (data : AmxModC.Memory) (amx : Amx) (address : Nat) (byte : BitVec 8) :
    AmxModC.Memory :=
  let shift := 8 * (address % 4)
  let cell := data amx (address / 4)
  data.store amx (address / 4)
    [(cell &&& ~~~((0xFF : Cell) <<< shift)) ||| (byte.zeroExtend 32 <<< shift)]

def strcpy (data : AmxModC.Memory) (amx : Amx) : Nat → List (BitVec 8) → AmxModC.Memory
  | address, [] => pokeByte data amx address 0
  | address, byte :: rest => strcpy (pokeByte data amx address byte) amx (address + 1) rest

/-- `get_amxstring`, whose static buffer has 4 rows of 3072 characters. -/
def getAmxString (data : AmxModC.Memory) (amx : Amx) (address : Cell) : List (BitVec 8) :=
  ((data.fetch amx (cellNumber address) 12287).map (BitVec.truncate 8)).takeWhile
    fun char => char ≠ 0

namespace Plugins

def setRegisters (s : Plugins) (amx : Amx) (registers : Registers) : Plugins :=
  { s with registers := Function.update s.registers amx registers }

/-- One turn of the loop over the arguments; `none` where `amx_Allot` has no room. -/
def prepareArg (amx : Amx) (s : Plugins) : ForwardParam → Cell → Option (Prepared × Plugins)
  | .string, param => do
      let tmp := getAmxString s.data amx param
      let num := tmp.length / 4 + 1
      let (address, registers) ← (s.registers amx).allot num
      return (.string address,
        { s.setRegisters amx registers with data := strcpy s.data amx address.toNat tmp })
  | _, param => some (.value (s.data amx (cellNumber param)), s)

def prepareArgs (amx : Amx) :
    List (ForwardParam × Cell) → Plugins → Option (List Prepared) × Plugins
  | [], s => (some [], s)
  | (type, param) :: rest, s =>
      match s.prepareArg amx type param with
      | none => (none, s)
      | some (prepared, next) =>
          let (others, last) := prepareArgs amx rest next
          (others.map (prepared :: ·), last)

/-- The releases ask for the types again; `none` where they use an entry of `allots` that
was never written. -/
def releaseArgs : List ForwardParam → List Prepared → Registers → Option Registers
  | .string :: types, .string address :: rest, registers =>
      releaseArgs types rest (registers.release address)
  | .string :: _, .value _ :: _, _ => none
  | _ :: types, _ :: rest, registers => releaseArgs types rest registers
  | _, _, registers => some registers

/-- The native; it answers 0 when it gives up.  `execute` is `executeForwards`. -/
def executeForward (execute : Plugins → Int → List Prepared → Cell × Plugins) (amx : Amx)
    (id addr : Cell) (args : List Cell) (s : Plugins) : Option (Cell × Plugins) :=
  if s.manager.isIdValid id.toInt then
    let types := s.manager.paramTypes id.toInt
    if args.length = types.length then
      match prepareArgs amx (types.zip args) s with
      | (none, s) => some (0, s)
      | (some ps, s) => do
          let (result, s) := execute s id.toInt ps
          let s := { s with data := s.data.store amx (cellNumber addr) [result] }
          let registers ← releaseArgs (s.manager.paramTypes id.toInt) ps (s.registers amx)
          return (1, s.setRegisters amx registers)
    else some (0, s)
  else some (0, s)

end Plugins

def Restored (amx : Amx) (before after : Plugins) : Prop :=
  (after.registers amx).hea = (before.registers amx).hea ∧
    after.manager.tmpArraysNum = before.manager.tmpArraysNum

/-- No argument fails to be prepared behind an earlier `FP_STRING`. -/
def FailsFirst (amx : Amx) (pairs : List (ForwardParam × Cell)) (s : Plugins) : Prop :=
  ∀ earlier type param later ps next, pairs = earlier ++ (type, param) :: later →
    Plugins.prepareArgs amx earlier s = (some ps, next) →
    next.prepareArg amx type param = none → ∀ pair ∈ earlier, pair.1 ≠ .string

namespace Plugins

variable {amx : Amx} {s after : Plugins}

theorem length_getAmxString (data : AmxModC.Memory) (amx : Amx) (address : Cell) :
    (getAmxString data amx address).length ≤ 12287 := by
  unfold getAmxString
  refine (List.takeWhile_sublist _).length_le.trans ?_
  simp

theorem prepareArg_cases {type : ForwardParam} {param : Cell} {prepared : Prepared}
    (h : s.prepareArg amx type param = some (prepared, after)) :
    after.manager = s.manager ∧
      ((type ≠ .string ∧ (∃ value, prepared = .value value) ∧
          after.registers amx = s.registers amx) ∨
        (type = .string ∧ prepared = .string (s.registers amx).hea ∧
          ∃ num, 0 < num ∧ num ≤ 3072 ∧ after.registers amx =
            { s.registers amx with
              hea := (s.registers amx).hea + BitVec.ofNat 32 (4 * num) })) := by
  cases type with
  | string =>
      simp only [prepareArg, Option.bind_eq_bind, Option.bind_eq_some_iff] at h
      obtain ⟨⟨address, registers⟩, hallot, hout⟩ := h
      cases hout
      have hlength := length_getAmxString s.data amx param
      unfold Registers.allot at hallot
      split at hallot
      next => cases hallot
      next =>
          cases hallot
          refine ⟨rfl, .inr ⟨rfl, rfl, (getAmxString s.data amx param).length / 4 + 1,
            by omega, by omega, ?_⟩⟩
          simp [setRegisters]
  | cell | float | stringEx | array =>
      cases h
      exact ⟨rfl, .inl ⟨by simp, ⟨_, rfl⟩, rfl⟩⟩

theorem prepareArgs_cons {type : ForwardParam} {param : Cell} {rest : List (ForwardParam × Cell)}
    {ps : List Prepared} (h : prepareArgs amx ((type, param) :: rest) s = (some ps, after)) :
    ∃ prepared next others, s.prepareArg amx type param = some (prepared, next) ∧
      prepareArgs amx rest next = (some others, after) ∧ ps = prepared :: others := by
  cases hone : s.prepareArg amx type param with
  | none => simp [prepareArgs, hone] at h
  | some made =>
      obtain ⟨prepared, next⟩ := made
      cases hrest : prepareArgs amx rest next with
      | mk others last =>
          simp only [prepareArgs, hone, hrest, Prod.mk.injEq, Option.map_eq_some_iff] at h
          obtain ⟨⟨others', rfl, rfl⟩, rfl⟩ := h
          exact ⟨prepared, next, others', rfl, hrest, rfl⟩

theorem prepareArgs_append {earlier : List (ForwardParam × Cell)} {ps : List Prepared}
    {next : Plugins} (later : List (ForwardParam × Cell))
    (h : prepareArgs amx earlier s = (some ps, next)) :
    (prepareArgs amx (earlier ++ later) s).2 = (prepareArgs amx later next).2 ∧
      ((prepareArgs amx (earlier ++ later) s).1 = none ↔
        (prepareArgs amx later next).1 = none) := by
  induction earlier generalizing s ps with
  | nil =>
      cases h
      exact ⟨rfl, Iff.rfl⟩
  | cons pair earlier ih =>
      obtain ⟨prepared, middle, others, hone, hrest, _⟩ := prepareArgs_cons h
      obtain ⟨hstate, hnone⟩ := ih hrest
      rw [List.cons_append]
      simp only [prepareArgs, hone, hstate, Option.map_eq_none_iff, hnone, true_and]

theorem exists_failing {pairs : List (ForwardParam × Cell)}
    (h : prepareArgs amx pairs s = (none, after)) :
    ∃ earlier type param later ps, pairs = earlier ++ (type, param) :: later ∧
      prepareArgs amx earlier s = (some ps, after) ∧
      after.prepareArg amx type param = none := by
  induction pairs generalizing s with
  | nil => cases h
  | cons pair rest ih =>
      obtain ⟨type, param⟩ := pair
      cases hone : s.prepareArg amx type param with
      | none =>
          simp only [prepareArgs, hone, Prod.mk.injEq, true_and] at h
          subst h
          exact ⟨[], type, param, rest, [], rfl, rfl, hone⟩
      | some made =>
          obtain ⟨prepared, next⟩ := made
          cases hrest : prepareArgs amx rest next with
          | mk others last =>
              simp only [prepareArgs, hone, hrest, Prod.mk.injEq, Option.map_eq_none_iff] at h
              obtain ⟨rfl, rfl⟩ := h
              obtain ⟨earlier, type', param', later, ps, hsplit, hprepared, hfails⟩ := ih hrest
              refine ⟨(type, param) :: earlier, type', param', later, prepared :: ps, ?_, ?_,
                hfails⟩
              · rw [hsplit, List.cons_append]
              · simp [prepareArgs, hone, hprepared]

theorem prepareArgs_heap {pairs : List (ForwardParam × Cell)} {ps : List Prepared}
    (h : prepareArgs amx pairs s = (some ps, after)) :
    after.manager = s.manager ∧ ∃ total, total ≤ 3072 * pairs.length ∧
      (total = 0 ↔ ∀ pair ∈ pairs, pair.1 ≠ .string) ∧
      (after.registers amx).hea = (s.registers amx).hea + BitVec.ofNat 32 (4 * total) := by
  induction pairs generalizing s ps with
  | nil =>
      cases h
      exact ⟨rfl, 0, by simp, by simp, by simp⟩
  | cons pair rest ih =>
      obtain ⟨type, param⟩ := pair
      obtain ⟨prepared, next, others, hone, hrest, rfl⟩ := prepareArgs_cons h
      obtain ⟨hmanager, total, hle, hzero, hhea⟩ := ih hrest
      obtain ⟨hsame, hcases⟩ := prepareArg_cases hone
      refine ⟨hmanager.trans hsame, ?_⟩
      obtain ⟨hother, _, hkept⟩ | ⟨rfl, _, num, hpos, hnum, hblock⟩ := hcases
      · refine ⟨total, ?_, ?_, ?_⟩
        · rw [List.length_cons]
          omega
        · rw [hzero, List.forall_mem_cons]
          exact ⟨fun hall => ⟨hother, hall⟩, fun hall => hall.2⟩
        · rw [hhea, hkept]
      · refine ⟨num + total, ?_, ?_, ?_⟩
        · rw [List.length_cons]
          omega
        · constructor
          · intro hnone
            omega
          · exact fun hall => absurd rfl (hall _ List.mem_cons_self)
        · rw [hhea, hblock, Nat.mul_add, BitVec.ofNat_add, BitVec.add_assoc]

theorem heap_eq_iff {pairs : List (ForwardParam × Cell)} {ps : List Prepared}
    (hlength : pairs.length ≤ 32) (h : prepareArgs amx pairs s = (some ps, after)) :
    (after.registers amx).hea = (s.registers amx).hea ↔ ∀ pair ∈ pairs, pair.1 ≠ .string := by
  obtain ⟨_, total, hle, hzero, hhea⟩ := prepareArgs_heap h
  rw [← hzero, hhea]
  constructor
  · intro hsame
    have hnat := congrArg BitVec.toNat hsame
    rw [BitVec.toNat_add, BitVec.toNat_ofNat] at hnat
    have hbound := (s.registers amx).hea.isLt
    omega
  · intro hnone
    simp [hnone]

theorem restored_iff_failsFirst {pairs : List (ForwardParam × Cell)}
    (hlength : pairs.length ≤ 32) (h : prepareArgs amx pairs s = (none, after)) :
    Restored amx s after ↔ FailsFirst amx pairs s := by
  obtain ⟨earlier, type, param, later, ps, rfl, hprepared, hfails⟩ := exists_failing h
  have hshort : earlier.length ≤ 32 := by
    simp only [List.length_append] at hlength
    omega
  constructor
  · intro ⟨hheap, _⟩ earlier' type' param' later' ps' next hsplit hprepared' hfails'
    have hshort' : earlier'.length ≤ 32 := by
      rw [hsplit] at hlength
      simp only [List.length_append] at hlength
      omega
    have hnone : prepareArgs amx ((type', param') :: later') next = (none, next) := by
      simp only [prepareArgs, hfails']
    have hstate := (prepareArgs_append ((type', param') :: later') hprepared').1
    rw [← hsplit, h, hnone] at hstate
    subst hstate
    exact (heap_eq_iff hshort' hprepared').mp hheap
  · intro hfirst
    have hnone := hfirst earlier type param later ps after rfl hprepared hfails
    refine ⟨(heap_eq_iff hshort hprepared).mpr hnone, ?_⟩
    rw [(prepareArgs_heap hprepared).1]

/-! The way through `executeForwards`. -/

theorem prepareArgs_strings {pairs : List (ForwardParam × Cell)} {ps : List Prepared}
    (hroom : (s.registers amx).hea.toNat + 4 * (3072 * pairs.length) < 2 ^ 31)
    (h : prepareArgs amx pairs s = (some ps, after)) :
    (∀ address ∈ ps.filterMap Prepared.string?,
        (s.registers amx).hea.toInt ≤ address.toInt) ∧
      (s.registers amx).hea.toInt ≤ (after.registers amx).hea.toInt ∧
      ((ps.filterMap Prepared.string? = [] ∧ (after.registers amx).hea = (s.registers amx).hea) ∨
        ∃ rest, ps.filterMap Prepared.string? = (s.registers amx).hea :: rest) ∧
      ∀ registers, releaseArgs (pairs.map Prod.fst) ps registers =
        some ((ps.filterMap Prepared.string?).foldl Registers.release registers) := by
  induction pairs generalizing s ps with
  | nil =>
      cases h
      exact ⟨by simp, le_rfl, .inl ⟨rfl, rfl⟩, fun registers => rfl⟩
  | cons pair rest ih =>
      obtain ⟨type, param⟩ := pair
      obtain ⟨prepared, next, others, hone, hrest, rfl⟩ := prepareArgs_cons h
      obtain ⟨_, hcases⟩ := prepareArg_cases hone
      rw [List.length_cons] at hroom
      obtain ⟨hother, ⟨value, rfl⟩, hkept⟩ | ⟨rfl, rfl, num, hpos, hnum, hblock⟩ := hcases
      · obtain ⟨habove, hle, hfirst, hrelease⟩ := ih (by rw [hkept]; omega) hrest
        rw [hkept] at habove hle hfirst
        refine ⟨habove, hle, hfirst, fun registers => ?_⟩
        refine Eq.trans ?_ (hrelease registers)
        cases type with
        | string => exact absurd rfl hother
        | cell | float | stringEx | array => rfl
      · have hnext : (next.registers amx).hea.toNat = (s.registers amx).hea.toNat + 4 * num := by
          rw [hblock, BitVec.toNat_add, BitVec.toNat_ofNat]
          omega
        obtain ⟨habove, hle, _, hrelease⟩ := ih (by rw [hnext]; omega) hrest
        have hraised : (s.registers amx).hea.toInt ≤ (next.registers amx).hea.toInt := by
          rw [toInt_eq_toNat_of_lt (by omega), toInt_eq_toNat_of_lt (by omega), hnext]
          omega
        have hcons : (.string (s.registers amx).hea :: others).filterMap Prepared.string? =
            (s.registers amx).hea :: others.filterMap Prepared.string? := rfl
        rw [hcons]
        refine ⟨?_, hraised.trans hle, .inr ⟨_, rfl⟩, fun registers => ?_⟩
        · exact List.forall_mem_cons.mpr
            ⟨le_rfl, fun address hmem => hraised.trans (habove address hmem)⟩
        · exact hrelease (registers.release (s.registers amx).hea)

theorem release_heap {pairs : List (ForwardParam × Cell)} {ps : List Prepared}
    {ready : Plugins} {left registers : Registers}
    (hroom : (s.registers amx).hea.toNat + 4 * (3072 * pairs.length) < 2 ^ 31)
    (h : prepareArgs amx pairs s = (some ps, ready))
    (hleft : left.hea = (ready.registers amx).hea)
    (hrelease : releaseArgs (pairs.map Prod.fst) ps left = some registers) :
    registers.hea = (s.registers amx).hea := by
  obtain ⟨habove, hle, hfirst, hall⟩ := prepareArgs_strings hroom h
  rw [hall left] at hrelease
  cases hrelease
  obtain ⟨hnone, hsame⟩ | ⟨rest, hsome⟩ := hfirst
  · rw [hnone, List.foldl_nil, hleft, hsame]
  · rw [hsome] at habove ⊢
    apply BitVec.eq_of_toInt_eq
    rw [Registers.toInt_foldl_release left fun address hmem =>
      habove address (List.mem_cons_of_mem _ hmem), hleft]
    exact min_eq_right hle

end Plugins

/-- Where the native gives up, and, for a forward that leaves the heap as it finds it, where
it does not. -/
theorem executeForward_restores_iff
    (execute : Plugins → Int → List Prepared → Cell × Plugins) (amx : Amx) (id addr : Cell)
    (args : List Cell) (s after : Plugins) (result : Cell)
    (htypes : (s.manager.paramTypes id.toInt).length ≤ 32)
    (h : Plugins.executeForward execute amx id addr args s = some (result, after)) :
    ((result = 0 → Restored amx s after) ↔
      (s.manager.isIdValid id.toInt = true →
        args.length = (s.manager.paramTypes id.toInt).length →
        FailsFirst amx ((s.manager.paramTypes id.toInt).zip args) s)) ∧
    (result ≠ 0 →
      (s.registers amx).hea.toNat +
        4 * (3072 * (s.manager.paramTypes id.toInt).length) < 2 ^ 31 →
      (∀ ps ready,
        Plugins.prepareArgs amx ((s.manager.paramTypes id.toInt).zip args) s =
          (some ps, ready) →
        ((execute ready id.toInt ps).2.registers amx).hea = (ready.registers amx).hea ∧
          (execute ready id.toInt ps).2.manager.paramTypes id.toInt =
            s.manager.paramTypes id.toInt) →
      (after.registers amx).hea = (s.registers amx).hea) := by
  unfold Plugins.executeForward at h
  split at h
  next hvalid =>
      dsimp only at h
      split at h
      next hcount =>
          have hzip : ((s.manager.paramTypes id.toInt).zip args).length =
              (s.manager.paramTypes id.toInt).length := by
            simp [hcount]
          split at h
          next left hprepare =>
              cases h
              have hiff := Plugins.restored_iff_failsFirst (by omega) hprepare
              refine ⟨?_, fun hne => absurd rfl hne⟩
              simp only [hvalid, hcount, true_implies, hiff]
          next ps ready hprepare =>
              simp only [Option.bind_eq_bind, Option.bind_eq_some_iff] at h
              obtain ⟨registers, hrelease, hout⟩ := h
              cases hout
              refine ⟨⟨fun _ _ _ => ?_, fun _ hzero => absurd hzero (by decide)⟩, ?_⟩
              · intro earlier type param later ps' next hsplit hprepared hfails
                have hnone : Plugins.prepareArgs amx ((type, param) :: later) next =
                    (none, next) := by
                  simp only [Plugins.prepareArgs, hfails]
                have hgives := (Plugins.prepareArgs_append ((type, param) :: later) hprepared).2
                rw [← hsplit, hprepare, hnone] at hgives
                exact absurd (hgives.mpr rfl) (by simp)
              · intro _ hroom hexecute
                obtain ⟨hheap, hkept⟩ := hexecute ps ready hprepare
                rw [hkept, ← List.map_fst_zip hcount.ge] at hrelease
                have hback := Plugins.release_heap (by omega) hprepare hheap hrelease
                simpa [Plugins.setRegisters] using hback
      next hcount =>
          cases h
          exact ⟨⟨fun _ _ hsame => absurd hsame hcount, fun _ _ => ⟨rfl, rfl⟩⟩,
            fun hne => absurd rfl hne⟩
  next hvalid =>
      cases h
      exact ⟨⟨fun _ hid => absurd hid hvalid, fun _ _ => ⟨rfl, rfl⟩⟩,
        fun hne => absurd rfl hne⟩

def narrow (strings : Nat) : Plugins where
  manager := { forwards := [⟨.ignore, List.replicate strings .string, []⟩] }
  registers := fun _ => ⟨0, 68, 68, 0⟩
  data := fun _ _ => 0

theorem executeForward_restores_narrow :
    ∃ after, Plugins.executeForward (fun s _ _ => (0, s)) 0 0 0 [0] (narrow 1) = some (1, after) ∧
      (after.registers 0).hea = ((narrow 1).registers 0).hea := by
  have hsome : (Plugins.executeForward (fun s _ _ => (0, s)) 0 0 0 [0] (narrow 1)).map Prod.fst =
      some 1 := by decide +kernel
  obtain ⟨⟨result, after⟩, h, rfl⟩ := Option.map_eq_some_iff.mp hsome
  refine ⟨after, h, ?_⟩
  refine (executeForward_restores_iff _ 0 0 0 [0] (narrow 1) after 1 (by decide) h).2
    (by decide) (by decide) ?_
  exact fun ps ready hprepare => ⟨rfl, by rw [(Plugins.prepareArgs_heap hprepare).1]⟩

/-- The second string has no room, and the block of the first is kept. -/
theorem executeForward_keeps_a_block :
    ¬ ∀ (execute : Plugins → Int → List Prepared → Cell × Plugins) (amx : Amx) (id addr : Cell)
      (args : List Cell) (s after : Plugins) (result : Cell),
      (s.manager.paramTypes id.toInt).length ≤ 32 →
      Plugins.executeForward execute amx id addr args s = some (result, after) →
      result = 0 → Restored amx s after := by
  intro hall
  have hsome : (Plugins.executeForward (fun s _ _ => (0, s)) 0 0 0 [0, 0] (narrow 2)).map
      (fun answer => (answer.1, (answer.2.registers 0).hea)) = some (0, 4) := by decide +kernel
  obtain ⟨⟨result, after⟩, h, hanswer⟩ := Option.map_eq_some_iff.mp hsome
  obtain ⟨hresult, hheap⟩ := Prod.mk.inj hanswer
  have hrestored := hall _ 0 0 0 _ _ after result (by decide) h hresult
  have hsame : (4 : Cell) = 0 := hheap.symm.trans hrestored.1
  exact absurd hsame (by decide)

end AmxModC.Forward
