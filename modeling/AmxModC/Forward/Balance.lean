import AmxModC.Forward.Heap

namespace AmxModC.Forward

open Foundation

/-! What a call leaves of the heap: the blocks in the order of the parameters, the run
between them, and the releases in the same order. -/

namespace Registers

variable {registers : Registers}

def Fits (registers : Registers) (cells : Nat) : Prop :=
  registers.hea.toNat + 4 * cells + 64 ≤ registers.stk.toNat ∧ registers.stk.toNat < 2 ^ 31

theorem Fits.mono {more cells : Nat} (h : registers.Fits more) (hle : cells ≤ more) :
    registers.Fits cells := by
  obtain ⟨hroom, hstk⟩ := h
  exact ⟨by omega, hstk⟩

theorem toNat_add_cells {cells : Nat} (h : registers.Fits cells) :
    (registers.hea + BitVec.ofNat 32 (4 * cells)).toNat = registers.hea.toNat + 4 * cells := by
  obtain ⟨hroom, hstk⟩ := h
  rw [BitVec.toNat_add, BitVec.toNat_ofNat]
  omega

theorem allot_of_fits {cells : Nat} (h : registers.Fits cells) :
    registers.allot cells =
      some (registers.hea,
        { registers with hea := registers.hea + BitVec.ofNat 32 (4 * cells) }) := by
  obtain ⟨hroom, hstk⟩ := h
  refine if_neg ?_
  rw [BitVec.lt_def, BitVec.toNat_sub, BitVec.toNat_sub, BitVec.toNat_ofNat]
  have hmargin : (64 : Cell).toNat = 64 := rfl
  omega

theorem toInt_release (registers : Registers) (address : Cell) :
    (registers.release address).hea.toInt = min registers.hea.toInt address.toInt := by
  unfold release
  split
  next h => exact (min_eq_right (BitVec.slt_iff_toInt_lt.mp h).le).symm
  next h =>
      have hle : ¬ address.toInt < registers.hea.toInt := fun hlt =>
        h (BitVec.slt_iff_toInt_lt.mpr hlt)
      exact (min_eq_left (not_lt.mp hle)).symm

theorem foldl_release_of_le {addresses : List Cell}
    (h : ∀ address ∈ addresses, registers.hea.toInt ≤ address.toInt) :
    addresses.foldl release registers = registers := by
  induction addresses with
  | nil => rfl
  | cons address rest ih =>
      obtain ⟨hfirst, hrest⟩ := List.forall_mem_cons.mp h
      have hkept : registers.release address = registers := by
        refine if_neg fun hlt => ?_
        exact absurd (BitVec.slt_iff_toInt_lt.mp hlt) (not_lt.mpr hfirst)
      rw [List.foldl_cons, hkept]
      exact ih hrest

theorem toInt_foldl_release (registers : Registers) {start : Cell} {addresses : List Cell}
    (h : ∀ address ∈ addresses, start.toInt ≤ address.toInt) :
    ((start :: addresses).foldl release registers).hea.toInt =
      min registers.hea.toInt start.toInt := by
  have hbelow : ∀ address ∈ addresses,
      (registers.release start).hea.toInt ≤ address.toInt := by
    intro address hmem
    rw [toInt_release]
    exact (min_le_right _ _).trans (h address hmem)
  rw [List.foldl_cons, foldl_release_of_le hbelow, toInt_release]

end Registers

def addresses (params : List RealParam) : List Cell := params.filterMap RealParam.address?

def room (lookup : Lookup) (memory : Memory) : List ForwardParam → List Arg → Nat
  | type :: types, arg :: args => cellsFor lookup memory type arg + room lookup memory types args
  | _, _ => 0

def StringExFits (memory : Memory) : ForwardParam → Arg → Prop
  | .stringEx, .value value => strlen memory value < 128
  | _, _ => True

namespace Server

variable {server after : Server} {amx : Amx}

@[simp] theorem setRegisters_registers (server : Server) (amx : Amx) (registers : Registers) :
    (server.setRegisters amx registers).registers amx = registers := by
  simp [setRegisters]

@[simp] theorem setRegisters_memory (server : Server) (amx : Amx) (registers : Registers) :
    (server.setRegisters amx registers).memory = server.memory := rfl

@[simp] theorem setRegisters_tmpArrays (server : Server) (amx : Amx) (registers : Registers) :
    (server.setRegisters amx registers).tmpArrays = server.tmpArrays := rfl

theorem prepareOne_cases {type : ForwardParam} {arg : Arg} {param : RealParam}
    (h : server.prepareOne amx type arg = some (param, after)) :
    (∃ value, passOne server.lookup server.memory type arg = some (.value value) ∧
      param = .value value ∧ after = server) ∨
    ∃ contents address registers,
      passOne server.lookup server.memory type arg = some (.block contents) ∧
      (server.registers amx).allot (cellsFor server.lookup server.memory type arg) =
        some (address, registers) ∧
      param = .block address (cellsFor server.lookup server.memory type arg) contents ∧
      after = { server.setRegisters amx registers with
        data := server.data.store amx (cellNumber address) contents } := by
  simp only [prepareOne, Option.bind_eq_bind, Option.bind_eq_some_iff] at h
  obtain ⟨passed, hpass, hrest⟩ := h
  cases passed with
  | value value =>
      cases hrest
      exact .inl ⟨value, hpass, rfl, rfl⟩
  | block contents =>
      simp only [Option.bind_eq_some_iff] at hrest
      obtain ⟨⟨address, registers⟩, hallot, hout⟩ := hrest
      cases hout
      exact .inr ⟨contents, address, registers, hpass, hallot, rfl, rfl⟩

theorem prepare_cons {type : ForwardParam} {types : List ForwardParam} {arg : Arg}
    {args : List Arg} {params : List RealParam}
    (h : server.prepare amx (type :: types) (arg :: args) = some (params, after)) :
    ∃ param next rest, server.prepareOne amx type arg = some (param, next) ∧
      next.prepare amx types args = some (rest, after) ∧ params = param :: rest := by
  simp only [prepare, Option.bind_eq_bind, Option.bind_eq_some_iff] at h
  obtain ⟨⟨param, next⟩, hone, ⟨rest, last⟩, hrest, hout⟩ := h
  cases hout
  exact ⟨param, next, rest, hone, hrest, rfl⟩

theorem prepareOne_keeps {type : ForwardParam} {arg : Arg} {param : RealParam}
    (h : server.prepareOne amx type arg = some (param, after)) :
    after.memory = server.memory ∧ after.lookup = server.lookup := by
  obtain ⟨_, _, _, rfl⟩ | ⟨_, _, _, _, _, _, rfl⟩ := prepareOne_cases h
  · exact ⟨rfl, rfl⟩
  · exact ⟨rfl, rfl⟩

end Server

/-! The contents of the blocks. -/

theorem length_setStringOld (memory : Memory) (ptr : Cell) :
    (setStringOld memory ptr).length = strlen memory ptr + 1 := by
  unfold setStringOld strlen
  split <;> simp

theorem length_of_load {array : ForwardPreparedArray} {memory : Memory} {contents : List Cell}
    (h : array.load memory = some contents) : contents.length = array.size := by
  unfold ForwardPreparedArray.load at h
  cases htype : array.type with
  | cell =>
      simp only [htype] at h
      obtain ⟨hle, rfl⟩ := Block.read_eq_some.mp h
      simp only [List.length_take, List.length_drop]
      omega
  | char =>
      simp only [htype, Option.map_eq_some_iff] at h
      obtain ⟨chars, hread, rfl⟩ := h
      obtain ⟨hle, rfl⟩ := Block.read_eq_some.mp hread
      simp only [List.length_map, List.length_take, List.length_drop]
      omega

theorem length_contents_iff {lookup : Lookup} {memory : Memory} {type : ForwardParam} {arg : Arg}
    {contents : List Cell} (h : passOne lookup memory type arg = some (.block contents)) :
    contents.length ≤ cellsFor lookup memory type arg ↔ StringExFits memory type arg := by
  unfold passOne at h
  split at h
  next => cases h
  next => cases h
  next value =>
      cases h
      simp [StringExFits, cellsFor, length_setStringOld]
  next value =>
      cases h
      simp only [StringExFits, cellsFor, length_setStringOld]
      omega
  next index prepared =>
      simp only [Option.bind_eq_bind, Option.bind_eq_some_iff] at h
      obtain ⟨array, hlookup, loaded, hload, hout⟩ := h
      cases hout
      simp [StringExFits, cellsFor, hlookup, length_of_load hload]
  next => cases h

namespace Server

variable {server after : Server} {amx : Amx}

theorem inside_iff {type : ForwardParam} {arg : Arg} {param : RealParam}
    (h : server.prepareOne amx type arg = some (param, after)) :
    param.Inside ↔ StringExFits server.memory type arg := by
  obtain ⟨value, hpass, rfl, _⟩ | ⟨contents, address, registers, hpass, _, rfl, _⟩ :=
    prepareOne_cases h
  · unfold passOne at hpass
    split at hpass
    next => exact Iff.rfl
    next => exact Iff.rfl
    next => cases hpass
    next => cases hpass
    next =>
        simp only [Option.bind_eq_bind, Option.bind_eq_some_iff] at hpass
        obtain ⟨_, _, _, _, hout⟩ := hpass
        cases hout
    next => cases hpass
  · exact length_contents_iff hpass

theorem all_inside_iff {types : List ForwardParam} {args : List Arg} {params : List RealParam}
    (h : server.prepare amx types args = some (params, after)) :
    (∀ param ∈ params, param.Inside) ↔
      ∀ pair ∈ types.zip args, StringExFits server.memory pair.1 pair.2 := by
  induction types generalizing args params server with
  | nil =>
      cases h
      simp
  | cons type types ih =>
      cases args with
      | nil => cases h
      | cons arg args =>
          obtain ⟨param, next, rest, hone, hrest, rfl⟩ := prepare_cons h
          rw [List.forall_mem_cons, List.zip_cons_cons, List.forall_mem_cons, inside_iff hone,
            ih hrest, (prepareOne_keeps hone).1]

theorem prepareOne_heap {type : ForwardParam} {arg : Arg} {param : RealParam}
    (hfits : (server.registers amx).Fits (cellsFor server.lookup server.memory type arg))
    (h : server.prepareOne amx type arg = some (param, after)) :
    (after.registers amx).stk = (server.registers amx).stk ∧
      ((param.address? = none ∧ (after.registers amx).hea = (server.registers amx).hea) ∨
        (param.address? = some (server.registers amx).hea ∧
          (after.registers amx).hea.toNat = (server.registers amx).hea.toNat +
            4 * cellsFor server.lookup server.memory type arg)) := by
  obtain ⟨value, _, rfl, rfl⟩ | ⟨contents, address, registers, _, hallot, rfl, rfl⟩ :=
    prepareOne_cases h
  · exact ⟨rfl, .inl ⟨rfl, rfl⟩⟩
  · rw [Registers.allot_of_fits hfits] at hallot
    cases hallot
    simp only [setRegisters_registers, true_and]
    exact .inr ⟨rfl, Registers.toNat_add_cells hfits⟩

theorem prepare_heap {types : List ForwardParam} {args : List Arg} {params : List RealParam}
    (hfits : (server.registers amx).Fits (room server.lookup server.memory types args))
    (h : server.prepare amx types args = some (params, after)) :
    (server.registers amx).hea.toNat ≤ (after.registers amx).hea.toNat ∧
      (after.registers amx).hea.toNat < 2 ^ 31 ∧
      ((addresses params = [] ∧ (after.registers amx).hea = (server.registers amx).hea) ∨
        ∃ rest, addresses params = (server.registers amx).hea :: rest ∧
          ∀ address ∈ rest, (server.registers amx).hea.toNat ≤ address.toNat ∧
            address.toNat < 2 ^ 31) := by
  induction types generalizing args params server with
  | nil =>
      cases h
      obtain ⟨hroom, hstk⟩ := hfits
      exact ⟨le_rfl, by omega, .inl ⟨rfl, rfl⟩⟩
  | cons type types ih =>
      cases args with
      | nil => cases h
      | cons arg args =>
          obtain ⟨param, next, rest, hone, hrest, rfl⟩ := prepare_cons h
          obtain ⟨hmemory, hlookup⟩ := prepareOne_keeps hone
          obtain ⟨hstk, hblock⟩ :=
            prepareOne_heap (hfits.mono (Nat.le_add_right _ _)) hone
          obtain ⟨hroom, hlow⟩ := hfits
          simp only [room] at hroom
          have hnext : (next.registers amx).Fits (room next.lookup next.memory types args) := by
            rw [hmemory, hlookup]
            refine ⟨?_, by rwa [hstk]⟩
            obtain ⟨_, hhea⟩ | ⟨_, hhea⟩ := hblock
            · rw [hstk, hhea]
              omega
            · rw [hstk, hhea]
              omega
          obtain ⟨hle, hlt, hrests⟩ := ih hnext hrest
          obtain ⟨haddress, hhea⟩ | ⟨haddress, hhea⟩ := hblock
          · have hskip : addresses (param :: rest) = addresses rest :=
              List.filterMap_cons_none haddress
            rw [hskip, ← hhea]
            exact ⟨hle, hlt, hrests⟩
          · have hkeep : addresses (param :: rest) =
                (server.registers amx).hea :: addresses rest :=
              List.filterMap_cons_some haddress
            refine ⟨by omega, hlt, .inr ⟨addresses rest, hkeep, ?_⟩⟩
            obtain ⟨hnone, _⟩ | ⟨others, hothers, habove⟩ := hrests
            · rw [hnone]
              exact fun address hmem => (List.not_mem_nil hmem).elim
            · rw [hothers]
              intro address hmem
              cases hmem with
              | head => exact ⟨by omega, by omega⟩
              | tail _ hmem =>
                  obtain ⟨hover, hunder⟩ := habove address hmem
                  exact ⟨by omega, hunder⟩

@[simp] theorem push_hea (server : Server) (amx : Amx) (value : Cell) :
    ((server.push amx value).registers amx).hea = (server.registers amx).hea := by
  dsimp only [push]
  split <;> simp

@[simp] theorem pushAll_hea (server : Server) (amx : Amx) (params : List RealParam) :
    ((server.pushAll amx params).registers amx).hea = (server.registers amx).hea := by
  induction params with
  | nil => rfl
  | cons param rest ih => exact (push_hea _ amx _).trans ih

theorem exec_hea {run : Run} {func : Int} {retVal : Option Cell}
    (h : exec run server amx func = (retVal, after)) :
    run server amx func = .ran after retVal errSleep ∨
      (¬ (∃ left retVal, run server amx func = .ran left retVal errSleep) ∧
        (after.registers amx).hea = (server.registers amx).hea) := by
  unfold exec at h
  cases hrun : run server amx func with
  | refused error =>
      simp only [hrun] at h
      cases h
      exact .inr ⟨by simp, rfl⟩
  | ran left written error =>
      simp only [hrun] at h
      split at h
      next hsleep =>
          cases h
          rw [hsleep]
          exact .inl rfl
      next hsleep =>
          cases h
          exact .inr ⟨by simp [hsleep], by simp⟩

end Server

/-! One call. -/

structure Balanced (types : List ForwardParam) (args : List Arg) (amx : Amx)
    (before after : Server) : Prop where
  inside : ∀ params ready, before.prepare amx types args = some (params, ready) →
    ∀ param ∈ params, param.Inside
  heap : (after.registers amx).hea = (before.registers amx).hea

def LeavesHeap (run : Run) (types : List ForwardParam) (args : List Arg) (amx : Amx) (func : Int)
    (before : Server) : Prop :=
  ∀ params ready left retVal, before.prepare amx types args = some (params, ready) →
    run (ready.pushAll amx params) amx func = .ran left retVal errSleep →
    if addresses params = [] then (left.registers amx).hea = (before.registers amx).hea
    else (before.registers amx).hea.sle (left.registers amx).hea = true

structure Kept (run : Run) (types : List ForwardParam) (args : List Arg) (amx : Amx) (func : Int)
    (before : Server) : Prop where
  stringEx : ∀ pair ∈ types.zip args, StringExFits before.memory pair.1 pair.2
  sleep : LeavesHeap run types args amx func before

def HeapFits (types : List ForwardParam) (args : List Arg) (amx : Amx) (before : Server) : Prop :=
  (before.registers amx).Fits (room before.lookup before.memory types args)

theorem toInt_eq_toNat_of_lt {cell : Cell} (h : cell.toNat < 2 ^ 31) : cell.toInt = cell.toNat :=
  BitVec.toInt_eq_toNat_of_lt (by omega)

namespace Server

variable {run : Run} {types : List ForwardParam} {args : List Arg} {before after : Server}
  {amx : Amx} {func : Int} {retVal : Option Cell}

theorem call_cases (h : before.call run types args amx func = some (retVal, after)) :
    ∃ params ready left, before.prepare amx types args = some (params, ready) ∧
      exec run (ready.pushAll amx params) amx func = (retVal, left) ∧
      after.registers amx =
        (addresses params).foldl Registers.release (left.registers amx) := by
  simp only [call, Option.bind_eq_bind, Option.bind_eq_some_iff] at h
  obtain ⟨⟨params, ready⟩, hprepare, memory, _, hout⟩ := h
  cases hout
  refine ⟨params, ready, (exec run (ready.pushAll amx params) amx func).2, hprepare, rfl, ?_⟩
  simp [releaseAll, addresses]

theorem heap_iff (hfits : HeapFits types args amx before)
    (h : before.call run types args amx func = some (retVal, after)) :
    (after.registers amx).hea = (before.registers amx).hea ↔
      LeavesHeap run types args amx func before := by
  obtain ⟨params, ready, left, hprepare, hexec, hafter⟩ := call_cases h
  obtain ⟨hle, hlt, hblocks⟩ := prepare_heap hfits hprepare
  have hstart : (before.registers amx).hea.toInt = (before.registers amx).hea.toNat :=
    toInt_eq_toNat_of_lt (by omega)
  have hready := toInt_eq_toNat_of_lt hlt
  have hleaves : LeavesHeap run types args amx func before ↔
      ∀ left retVal, run (ready.pushAll amx params) amx func = .ran left retVal errSleep →
        if addresses params = [] then (left.registers amx).hea = (before.registers amx).hea
        else (before.registers amx).hea.sle (left.registers amx).hea = true := by
    unfold LeavesHeap
    constructor
    · exact fun hall left retVal hrun => hall params ready left retVal hprepare hrun
    · intro hall params' ready' left' retVal' hprepare'
      rw [hprepare] at hprepare'
      cases hprepare'
      exact hall left' retVal'
  rw [hleaves, hafter]
  obtain ⟨hnone, hsame⟩ | ⟨rest, hsome, habove⟩ := hblocks
  · rw [hnone, List.foldl_nil]
    obtain hsleep | ⟨hawake, hkept⟩ := exec_hea hexec
    · simp [hsleep]
    · refine ⟨fun _ left' retVal' hrun => absurd ⟨left', retVal', hrun⟩ hawake, fun _ => ?_⟩
      rw [hkept, pushAll_hea, hsame]
  · have habove' : ∀ address ∈ rest, (before.registers amx).hea.toInt ≤ address.toInt := by
      intro address hmem
      obtain ⟨hover, hunder⟩ := habove address hmem
      rw [hstart, toInt_eq_toNat_of_lt hunder]
      omega
    have hlast := Registers.toInt_foldl_release (left.registers amx) habove'
    rw [hsome]
    obtain hsleep | ⟨hawake, hkept⟩ := exec_hea hexec
    · constructor
      · intro heq left' retVal' hrun
        rw [hsleep] at hrun
        cases hrun
        rw [if_neg (List.cons_ne_nil _ _), BitVec.sle_iff_toInt_le]
        rw [heq] at hlast
        omega
      · intro hleft
        have habove := hleft left retVal hsleep
        rw [if_neg (by simp), BitVec.sle_iff_toInt_le] at habove
        apply BitVec.eq_of_toInt_eq
        rw [hlast]
        exact min_eq_right habove
    · refine ⟨fun _ left' retVal' hrun => absurd ⟨left', retVal', hrun⟩ hawake, fun _ => ?_⟩
      apply BitVec.eq_of_toInt_eq
      rw [hlast, hkept, pushAll_hea]
      omega

theorem balanced_iff (hfits : HeapFits types args amx before)
    (h : before.call run types args amx func = some (retVal, after)) :
    Balanced types args amx before after ↔ Kept run types args amx func before := by
  obtain ⟨params, ready, left, hprepare, hexec, hafter⟩ := call_cases h
  have hinside : (∀ params ready, before.prepare amx types args = some (params, ready) →
      ∀ param ∈ params, param.Inside) ↔
      ∀ pair ∈ types.zip args, StringExFits before.memory pair.1 pair.2 := by
    rw [← all_inside_iff hprepare]
    constructor
    · exact fun hall => hall params ready hprepare
    · intro hall params' ready' hprepare'
      rw [hprepare] at hprepare'
      cases hprepare'
      exact hall
  constructor
  · intro ⟨hin, hheap⟩
    exact ⟨hinside.mp hin, (heap_iff hfits h).mp hheap⟩
  · intro ⟨hshort, hsleep⟩
    exact ⟨hinside.mpr hshort, (heap_iff hfits h).mpr hsleep⟩

end Server

/-- Every call that the loop makes, in the state in which it makes it, and the one call of
a single-plugin forward. -/
theorem execute_balanced_iff (isExecutable : Server → AMXForward → Bool) (run : Run)
    (args : List Arg) (server : Server) :
    (∀ (forward : CForward) (outcome : Outcome Server),
      forward.executeOn isExecutable run args server = some outcome →
      (∀ call ∈ outcome.calls, HeapFits forward.paramTypes args call.func.plugin call.before) →
      ((∀ call ∈ outcome.calls,
          Balanced forward.paramTypes args call.func.plugin call.before call.after) ↔
        ∀ call ∈ outcome.calls,
          Kept run forward.paramTypes args call.func.plugin call.func.func call.before)) ∧
    ∀ (forward : CSPForward) (uninitialised result : Cell) (after : Server),
      forward.executeOn isExecutable run uninitialised args server = some (result, after) →
      HeapFits forward.paramTypes args forward.amx server →
      ((if forward.calls isExecutable server then
          Balanced forward.paramTypes args forward.amx server after else after = server) ↔
        (forward.calls isExecutable server = true →
          Kept run forward.paramTypes args forward.amx forward.func server)) := by
  constructor
  · intro forward outcome hexecute hfits
    have hturns := CForward.turn_of_mem_calls hexecute
    have hcall : ∀ call ∈ outcome.calls,
        Balanced forward.paramTypes args call.func.plugin call.before call.after ↔
          Kept run forward.paramTypes args call.func.plugin call.func.func call.before := by
      intro call hmem
      have hturn := hturns call hmem
      simp only [CForward.turn, Option.bind_eq_bind, Option.bind_eq_some_iff] at hturn
      obtain ⟨⟨retVal, after⟩, hmade, hout⟩ := hturn
      have hafter : after = call.after := congrArg Prod.snd (Option.some.inj hout)
      rw [hafter] at hmade
      exact Server.balanced_iff (hfits call hmem) hmade
    exact forall₂_congr hcall
  · intro forward uninitialised result after hexecute hfits
    cases hcalls : forward.calls isExecutable server with
    | false =>
        simp only [CSPForward.executeOn, hcalls, Bool.false_eq_true, if_false] at hexecute
        cases hexecute
        simp
    | true =>
        simp only [CSPForward.executeOn, hcalls, if_true, Option.bind_eq_bind,
          Option.bind_eq_some_iff] at hexecute
        obtain ⟨⟨retVal, left⟩, hmade, hout⟩ := hexecute
        cases hout
        simpa using Server.balanced_iff hfits hmade

def withString (length : Nat) : Server where
  registers := fun _ => ⟨0, 1024, 1024, 0⟩
  data := fun _ _ => 0
  memory := ⟨[], 0 :: List.replicate length 97 ++ [0]⟩
  tmpArrays := []

theorem execute_balanced_iff_of_short :
    ∃ result after,
      (CSPForward.setFunc 0 0 [.stringEx]).executeOn (fun _ _ => true) (fun _ _ _ => .refused 1) 0
          [.value 1] (withString 2) = some (result, after) ∧
        Balanced [.stringEx] [.value 1] 0 (withString 2) after := by
  have hsome : ((CSPForward.setFunc 0 0 [.stringEx]).executeOn (fun _ _ => true)
      (fun _ _ _ => .refused 1) 0 [.value 1] (withString 2)).isSome = true := by decide +kernel
  obtain ⟨⟨result, after⟩, hexecute⟩ := Option.isSome_iff_exists.mp hsome
  have hfits : HeapFits [.stringEx] [.value 1] 0 (withString 2) := by
    constructor <;> decide
  refine ⟨result, after, hexecute, ?_⟩
  have hiff := (execute_balanced_iff _ _ _ _).2 _ _ _ _ hexecute hfits
  refine hiff.mpr fun _ => ⟨?_, ?_⟩
  · intro pair hmem
    obtain rfl := List.mem_singleton.mp hmem
    show strlen (withString 2).memory 1 < 128
    decide
  · intro params ready left retVal _ hrun
    cases hrun

/-- A string of 128 characters needs one cell more than its block has. -/
theorem stringEx_leaves_its_block :
    ¬ ∀ (isExecutable : Server → AMXForward → Bool) (run : Run) (args : List Arg)
      (server : Server) (forward : CSPForward) (uninitialised result : Cell) (after : Server),
      forward.executeOn isExecutable run uninitialised args server = some (result, after) →
      HeapFits forward.paramTypes args forward.amx server →
      if forward.calls isExecutable server then
        Balanced forward.paramTypes args forward.amx server after else after = server := by
  intro hall
  have hsome : ((CSPForward.setFunc 0 0 [.stringEx]).executeOn (fun _ _ => true)
      (fun _ _ _ => .refused 1) 0 [.value 1] (withString 128)).isSome = true := by decide +kernel
  obtain ⟨⟨result, after⟩, hexecute⟩ := Option.isSome_iff_exists.mp hsome
  have hfits : HeapFits [.stringEx] [.value 1] 0 (withString 128) := by
    constructor <;> decide +kernel
  have hbalanced := hall _ _ _ _ _ _ _ _ hexecute hfits
  have hready : ((withString 128).prepare 0 [.stringEx] [.value 1]).isSome = true := by
    decide +kernel
  obtain ⟨⟨params, ready⟩, hprepare⟩ := Option.isSome_iff_exists.mp hready
  have hshort := (Server.all_inside_iff hprepare).mp (hbalanced.inside params ready hprepare) _
    List.mem_cons_self
  revert hshort
  show ¬ strlen (withString 128).memory 1 < 128
  decide +kernel

end AmxModC.Forward
