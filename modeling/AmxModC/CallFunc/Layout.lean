import AmxModC.Foundation.Layout
import AmxModC.CallFunc.Model

namespace AmxModC.CallFunc

open Foundation

/-! Where `callfunc_end` puts what has been pushed, and what it takes back. -/

def Param.size : Param → Nat
  | .byref _ alloc _ => alloc.length
  | .value _ | .reused _ => 0

def Param.cells : Param → List Cell
  | .byref _ alloc _ => alloc
  | .value _ | .reused _ => []

theorem Param.length_cells (param : Param) : param.cells.length = param.size := by
  cases param with
  | value v => rfl
  | byref addr alloc copyback => rfl
  | reused i => rfl

def sizes (params : List Param) : List Nat := params.map Param.size

theorem sizes_cons (param : Param) (params : List Param) :
    sizes (param :: params) = param.size :: sizes params := rfl

theorem getElem?_sizes {params : List Param} {i : Nat} {param : Param}
    (h : params[i]? = some param) : (sizes params)[i]? = some param.size := by
  rw [sizes, List.getElem?_map, h]
  rfl

def Param.arg (cell : Nat) : Param → Arg
  | .value v => .value v
  | .byref .. => .address cell
  | .reused i => .index i

/-- The blocks of the parameters, in the heap from `base` on. -/
def blocks (plugin : Amx) (base : Nat) : List Param → Memory → Memory
  | [], memory => memory
  | .byref _ alloc _ :: params, memory =>
      (blocks plugin base params memory).store plugin (base + (sizes params).sum) alloc
  | .value _ :: params, memory | .reused _ :: params, memory => blocks plugin base params memory

section

variable {plugin amx : Amx} {base i addr cell : Nat} {params : List Param} {w w' : World}
  {args : List Arg} {alloc : List Cell} {copyback : Bool} {memory : Memory}

theorem blocks_row (plugin : Amx) (base : Nat) (params : List Param) (memory : Memory) :
    (blocks plugin base params memory).fetch plugin base (sizes params).sum =
      (params.map Param.cells).reverse.flatten := by
  induction params with
  | nil => rfl
  | cons param params ih =>
      rw [sizes_cons, List.sum_cons, List.map_cons, List.reverse_cons, List.flatten_append,
        List.flatten_singleton, Nat.add_comm, Memory.fetch_add]
      cases param with
      | value v =>
          rw [← ih]
          rfl
      | reused i =>
          rw [← ih]
          rfl
      | byref addr alloc copyback =>
          rw [blocks, Param.size, Param.cells, Memory.fetch_store_self, ← ih]
          congr 1
          refine Memory.fetch_congr fun k hk => Memory.store_of_not fun hin => ?_
          omega

/-! The first pass. -/

theorem allot_eq_some (h : w.allot amx i = some (cell, w')) :
    cell = w.hea amx ∧ w' = { w with hea := Function.update w.hea amx (w.hea amx + i) } := by
  rw [World.allot] at h
  split at h
  next => cases h
  next =>
      cases h
      exact ⟨rfl, rfl⟩

def rawArgs (base : Nat) : List Param → List Arg
  | [] => []
  | param :: params => param.arg (base + (sizes params).sum) :: rawArgs base params

theorem getElem?_rawArgs (base : Nat) (params : List Param) (i : Nat) :
    (rawArgs base params)[i]? =
      params[i]?.map fun param => param.arg (base + offset (sizes params) i) := by
  induction params generalizing i with
  | nil => rfl
  | cons param params ih =>
      cases i with
      | zero => rfl
      | succ i =>
          rw [rawArgs, List.getElem?_cons_succ, List.getElem?_cons_succ, ih]
          rfl

def allotted (w : World) (plugin : Amx) (params : List Param) : World :=
  { w with
    memory := blocks plugin (w.hea plugin) params w.memory
    hea := Function.update w.hea plugin (w.hea plugin + (sizes params).sum) }

theorem firstPass_eq (h : firstPass plugin params w = some (args, w')) :
    args = rawArgs (w.hea plugin) params ∧ w' = allotted w plugin params := by
  induction params generalizing args w' with
  | nil =>
      cases h
      refine ⟨rfl, ?_⟩
      have hsum : (sizes []).sum = 0 := rfl
      rw [allotted, hsum, Nat.add_zero, Function.update_eq_self]
      rfl
  | cons param params ih =>
      obtain ⟨⟨rest, next⟩, hrest, h⟩ := Option.bind_eq_some_iff.mp h
      obtain ⟨rfl, rfl⟩ := ih hrest
      cases param with
      | value value =>
          cases h
          refine ⟨rfl, ?_⟩
          rw [allotted, allotted, sizes_cons, List.sum_cons, Param.size, Nat.zero_add]
          rfl
      | reused i =>
          cases h
          refine ⟨rfl, ?_⟩
          rw [allotted, allotted, sizes_cons, List.sum_cons, Param.size, Nat.zero_add]
          rfl
      | byref addr alloc copyback =>
          obtain ⟨⟨cell, last⟩, hallot, heq⟩ := Option.map_eq_some_iff.mp h
          obtain ⟨rfl, rfl⟩ := allot_eq_some hallot
          cases heq
          have hhea : (allotted w plugin params).hea plugin = w.hea plugin + (sizes params).sum :=
            Function.update_self _ _ _
          rw [hhea]
          refine ⟨rfl, ?_⟩
          rw [allotted, allotted, sizes_cons, List.sum_cons, Param.size, Function.update_idem,
            Nat.add_comm alloc.length, ← Nat.add_assoc]
          rfl

theorem firstPass_of_room
    (h : w.hea plugin + (sizes params).sum + World.stkmargin ≤ w.stk plugin) :
    firstPass plugin params w = some (rawArgs (w.hea plugin) params, allotted w plugin params) := by
  have hsome : ∃ result, firstPass plugin params w = some result := by
    induction params with
    | nil => exact ⟨_, rfl⟩
    | cons param params ih =>
        rw [sizes_cons, List.sum_cons] at h
        obtain ⟨⟨args, next⟩, hrest⟩ := ih (by omega)
        obtain ⟨rfl, rfl⟩ := firstPass_eq hrest
        rw [firstPass, hrest, Option.bind_some]
        cases param with
        | value value => exact ⟨_, rfl⟩
        | reused i => exact ⟨_, rfl⟩
        | byref addr alloc copyback =>
            have hhea : (allotted w plugin params).hea plugin =
                w.hea plugin + (sizes params).sum := Function.update_self _ _ _
            have hstk : (allotted w plugin params).stk plugin = w.stk plugin := rfl
            change w.hea plugin + (alloc.length + _) + World.stkmargin ≤ _ at h
            have hroom : ¬ ((allotted w plugin params).hea plugin + alloc.length ≤
                (allotted w plugin params).stk plugin ∧ (allotted w plugin params).stk plugin <
                  (allotted w plugin params).hea plugin + alloc.length + World.stkmargin) := by
              rw [hhea, hstk]
              omega
            have hallot : ∃ result, (allotted w plugin params).allot plugin alloc.length =
                some result := ⟨_, if_neg hroom⟩
            obtain ⟨⟨cell, last⟩, hallot⟩ := hallot
            exact ⟨_, congrArg (Option.map _) hallot⟩
  obtain ⟨⟨args, next⟩, hfirst⟩ := hsome
  obtain ⟨rfl, rfl⟩ := firstPass_eq hfirst
  exact hfirst

/-! The second pass, and the stack. -/

theorem length_rawArgs (base : Nat) (params : List Param) :
    (rawArgs base params).length = params.length := by
  induction params with
  | nil => rfl
  | cons param params ih => rw [rawArgs, List.length_cons, List.length_cons, ih]

theorem secondPass_value {v : Cell} (h : params[i]? = some (.value v)) :
    (secondPass (rawArgs base params))[i]? = some (.value v) := by
  rw [secondPass, List.getElem?_map, getElem?_rawArgs, h]
  rfl

theorem secondPass_byref (h : params[i]? = some (.byref addr alloc copyback)) :
    (secondPass (rawArgs base params))[i]? =
      some (.address (base + offset (sizes params) i)) := by
  rw [secondPass, List.getElem?_map, getElem?_rawArgs, h]
  rfl

theorem secondPass_reused {o : Nat} (h : params[i]? = some (.reused o))
    (ho : params[o]? = some (.byref addr alloc copyback)) :
    (secondPass (rawArgs base params))[i]? =
      some (.address (base + offset (sizes params) o)) := by
  have howner : (rawArgs base params).getD o default =
      .address (base + offset (sizes params) o) := by
    rw [List.getD_eq_getElem?_getD, getElem?_rawArgs, ho]
    rfl
  rw [secondPass, List.getElem?_map, getElem?_rawArgs, h]
  exact congrArg some howner

theorem length_secondPass (args : List Arg) : (secondPass args).length = args.length :=
  List.length_map _

theorem pushArgs_of_room {hea stk : Nat}
    (h : hea + World.stkmargin + args.length ≤ stk + 1) :
    pushArgs hea args stk = (args, stk - args.length) := by
  induction args with
  | nil => rfl
  | cons arg args ih =>
      rw [List.length_cons] at h
      have hnot : ¬ hea + World.stkmargin > stk - args.length := by
        omega
      rw [pushArgs, ih (by omega)]
      dsimp only
      rw [if_neg hnot, List.length_cons, Nat.sub_sub]

theorem room_of_pushArgs {hea stk : Nat}
    (h : hea + World.stkmargin + 2 ≤ (pushArgs hea args stk).2) :
    hea + World.stkmargin + 2 + args.length ≤ stk := by
  induction args with
  | nil => exact h
  | cons arg args ih =>
      rw [pushArgs] at h
      dsimp only at h
      rw [List.length_cons]
      split at h
      next hfull =>
          dsimp only at h
          omega
      next =>
          dsimp only at h
          have hrest := ih (by omega)
          have hone : (pushArgs hea args stk).2 + args.length = stk := by
            rw [pushArgs_of_room (by omega)]
            dsimp only
            omega
          omega

structure Entered (w : World) (plugin : Amx) (params : List Param) (entry : Entry) : Prop where
  args : entry.args = secondPass (rawArgs (w.hea plugin) params)
  seen : entry.seen = entry.args
  memory : entry.world.memory = blocks plugin (w.hea plugin) params w.memory
  hea : entry.world.hea =
    Function.update w.hea plugin (w.hea plugin + (sizes params).sum)
  runs : entry.runs = true

/-- Room for the blocks, the arguments and what `amx_Exec` adds to them. -/
def Room (w : World) (plugin : Amx) (params : List Param) : Prop :=
  w.hea plugin + (sizes params).sum + World.stkmargin + 2 + params.length ≤ w.stk plugin

theorem entered_of_room (h : Room w plugin params) :
    ∃ entry, enter w plugin params = some entry ∧ Entered w plugin params entry := by
  have hhea : (allotted w plugin params).hea plugin = w.hea plugin + (sizes params).sum :=
    Function.update_self _ _ _
  have hstk : (allotted w plugin params).stk plugin = w.stk plugin := rfl
  have hlength : (secondPass (rawArgs (w.hea plugin) params)).length = params.length :=
    (length_secondPass _).trans (length_rawArgs _ _)
  rw [Room] at h
  have hpush := @pushArgs_of_room (secondPass (rawArgs (w.hea plugin) params))
    ((allotted w plugin params).hea plugin) ((allotted w plugin params).stk plugin)
    (by rw [hhea, hstk, hlength]; omega)
  rw [enter, firstPass_of_room (by omega), Option.map_some]
  dsimp only
  rw [hpush]
  refine ⟨_, rfl, rfl, rfl, rfl, rfl, ?_⟩
  dsimp only
  rw [hhea, hstk, hlength]
  exact decide_eq_true (by omega)

theorem entered_of_runs {entry : Entry} (h : enter w plugin params = some entry)
    (hruns : entry.runs = true) : Room w plugin params ∧ Entered w plugin params entry := by
  obtain ⟨⟨args, next⟩, hfirst, rfl⟩ := Option.map_eq_some_iff.mp h
  obtain ⟨rfl, rfl⟩ := firstPass_eq hfirst
  have hhea : (allotted w plugin params).hea plugin = w.hea plugin + (sizes params).sum :=
    Function.update_self _ _ _
  have hstk : (allotted w plugin params).stk plugin = w.stk plugin := rfl
  have hlength : (secondPass (rawArgs (w.hea plugin) params)).length = params.length :=
    (length_secondPass _).trans (length_rawArgs _ _)
  have hroom : Room w plugin params := by
    have hleft := room_of_pushArgs (of_decide_eq_true hruns)
    rw [hhea, hstk, hlength] at hleft
    exact hleft
  obtain ⟨entry, hentry, hentered⟩ := entered_of_room hroom
  cases h.symm.trans hentry
  exact ⟨hroom, hentered⟩

/-! The pass after the call. -/

theorem release_memory (w : World) (amx : Amx) (cell : Nat) :
    (w.release amx cell).memory = w.memory := by
  rw [World.release]
  split
  next => rfl
  next => rfl

def written (memory : Memory) (plugin : Amx) (cell : Nat) : Param × Arg → Option Cell
  | (.byref addr alloc true, .address first) =>
      if addr ≤ cell ∧ cell < addr + alloc.length then some (memory plugin (first + (cell - addr)))
      else none
  | _ => none

structure Apart (caller plugin : Amx) (base top : Nat) (list : List (Param × Arg)) : Prop where
  inside : ∀ addr alloc copyback first,
    (Param.byref addr alloc copyback, Arg.address first) ∈ list →
      base ≤ first ∧ first + alloc.length ≤ top
  outside : caller = plugin → ∀ addr alloc copyback first,
    (Param.byref addr alloc copyback, Arg.address first) ∈ list →
      addr + alloc.length ≤ base ∨ top ≤ addr

theorem copyBack_eq (caller plugin : Amx) (w : World) (x : Param × Arg) :
    (∃ addr alloc first, x = (.byref addr alloc true, .address first) ∧
      (copyBack caller plugin w x).memory =
        w.memory.store caller addr (w.memory.fetch plugin first alloc.length)) ∨
    ((∀ memory cell, written memory plugin cell x = none) ∧
      (copyBack caller plugin w x).memory = w.memory) := by
  obtain ⟨param, arg⟩ := x
  cases param with
  | value v => exact .inr ⟨fun _ _ => rfl, rfl⟩
  | reused i => exact .inr ⟨fun _ _ => rfl, rfl⟩
  | byref addr alloc copyback =>
      cases arg with
      | value v => exact .inr ⟨fun _ _ => by cases copyback <;> rfl, rfl⟩
      | index i => exact .inr ⟨fun _ _ => by cases copyback <;> rfl, rfl⟩
      | address first =>
          cases copyback with
          | false => exact .inr ⟨fun _ _ => rfl, release_memory _ _ _⟩
          | true => exact .inl ⟨addr, alloc, first, rfl, release_memory _ _ _⟩

theorem Apart.copyBack_keeps {caller : Amx} {top : Nat} {list : List (Param × Arg)}
    (h : Apart caller plugin base top list) {x : Param × Arg} (hx : x ∈ list)
    (hbase : base ≤ cell) (htop : cell < top) :
    (copyBack caller plugin w x).memory plugin cell = w.memory plugin cell := by
  rcases copyBack_eq caller plugin w x with ⟨addr, alloc, first, rfl, hmemory⟩ | ⟨-, hmemory⟩
  · rw [hmemory, Memory.store_of_not]
    rintro ⟨hcaller, hle, hlt⟩
    rw [Memory.length_fetch] at hlt
    rcases h.outside hcaller.symm addr alloc true first hx with hlow | hhigh
    · omega
    · omega
  · rw [hmemory]

theorem Apart.copyBack_written {caller : Amx} {top : Nat} {list : List (Param × Arg)}
    (h : Apart caller plugin base top list) {x : Param × Arg} (hx : x ∈ list)
    (hkept : ∀ cell, base ≤ cell → cell < top → w.memory plugin cell = memory plugin cell)
    (cell : Nat) :
    (copyBack caller plugin w x).memory caller cell =
      (written memory plugin cell x).getD (w.memory caller cell) := by
  rcases copyBack_eq caller plugin w x with ⟨addr, alloc, first, rfl, hmemory⟩ | ⟨hnone, hmemory⟩
  · rw [hmemory, written]
    split
    next hin =>
        obtain ⟨hbase, htop⟩ := h.inside addr alloc true first hx
        have hi : cell - addr < (w.memory.fetch plugin first alloc.length).length := by
          rw [Memory.length_fetch]
          omega
        have hstored := @Memory.store_of_lt w.memory caller addr _ _ hi
        rw [Nat.add_sub_cancel' hin.1] at hstored
        have hfetched := Memory.getElem?_fetch w.memory plugin first
          (show cell - addr < alloc.length by omega)
        rw [hstored, (List.getElem?_eq_some_iff.mp hfetched).2, Option.getD_some]
        exact hkept _ (by omega) (by omega)
    next hout =>
        rw [Memory.store_of_not, Option.getD_none]
        rw [Memory.length_fetch]
        exact fun hin => hout hin.2
  · rw [hmemory, hnone, Option.getD_none]

theorem leave_memory {caller : Amx} {top : Nat}
    (h : Apart caller plugin base top (params.zip args)) (cell : Nat) :
    (leave caller plugin params args w).memory caller cell =
      ((params.zip args).reverse.findSome? (written w.memory plugin cell)).getD
        (w.memory caller cell) := by
  have hkeep : ∀ {s : World} {x}, (∀ cell, base ≤ cell → cell < top →
      s.memory plugin cell = w.memory plugin cell) → x ∈ params.zip args →
        ∀ cell, base ≤ cell → cell < top →
          (copyBack caller plugin s x).memory plugin cell = w.memory plugin cell :=
    fun hkept hx cell hbase htop => (h.copyBack_keeps hx hbase htop).trans (hkept cell hbase htop)
  have hget : ∀ {s : World} {x}, (∀ cell, base ≤ cell → cell < top →
      s.memory plugin cell = w.memory plugin cell) → x ∈ params.zip args →
        (copyBack caller plugin s x).memory caller cell =
          (written w.memory plugin cell x).getD (s.memory caller cell) :=
    fun hkept hx => h.copyBack_written hx hkept cell
  exact @foldl_overwrite _ _ _ _ (fun s : World => s.memory caller cell) _ _ _ hkeep hget w
    fun _ _ _ => rfl

theorem leave_others {caller : Amx} (h : amx ≠ caller) (cell : Nat) :
    (leave caller plugin params args w).memory amx cell = w.memory amx cell := by
  rw [leave]
  generalize params.zip args = list
  induction list generalizing w with
  | nil => rfl
  | cons x list ih =>
      rw [List.foldl_cons, ih]
      rcases copyBack_eq caller plugin w x with ⟨addr, alloc, first, rfl, hmemory⟩ | ⟨-, hmemory⟩
      · rw [hmemory, Memory.store_of_not]
        exact fun hin => h hin.1
      · rw [hmemory]

theorem release_hea (h : cell ≤ w.hea amx) :
    (w.release amx cell).hea = Function.update w.hea amx cell := by
  rw [World.release]
  split
  next => rfl
  next hnot =>
      have hcell : cell = w.hea amx := by omega
      rw [hcell, Function.update_eq_self]

theorem leave_hea {caller : Amx} (hlength : args.length = params.length)
    (hargs : ∀ (i : Nat) addr alloc copyback,
      params[i]? = some (Param.byref addr alloc copyback) →
        args[i]? = some (Arg.address (base + offset (sizes params) i)))
    (hhea : w.hea plugin = base + (sizes params).sum) :
    (leave caller plugin params args w).hea = Function.update w.hea plugin base := by
  induction params generalizing args w with
  | nil =>
      have hsum : (sizes []).sum = 0 := rfl
      rw [hsum, Nat.add_zero] at hhea
      rw [← hhea, Function.update_eq_self]
      rfl
  | cons param params ih =>
      cases args with
      | nil => cases hlength
      | cons arg args =>
          rw [sizes_cons, List.sum_cons] at hhea
          have hturn : (copyBack caller plugin w (param, arg)).hea =
              Function.update w.hea plugin (base + (sizes params).sum) := by
            cases param with
            | value v =>
                change w.hea plugin = base + (0 + (sizes params).sum) at hhea
                rw [← Nat.zero_add (sizes params).sum, ← hhea, Function.update_eq_self]
                rfl
            | reused i =>
                change w.hea plugin = base + (0 + (sizes params).sum) at hhea
                rw [← Nat.zero_add (sizes params).sum, ← hhea, Function.update_eq_self]
                rfl
            | byref addr alloc copyback =>
                obtain rfl : arg = .address (base + (sizes params).sum) :=
                  Option.some.inj (hargs 0 addr alloc copyback rfl)
                change w.hea plugin = base + (alloc.length + (sizes params).sum) at hhea
                have hle : base + (sizes params).sum ≤ w.hea plugin := by omega
                cases copyback with
                | false => exact release_hea hle
                | true =>
                    have hrelease : ∀ memory : Memory,
                        (({ w with memory } : World).release plugin (base + (sizes params).sum)).hea =
                          Function.update w.hea plugin (base + (sizes params).sum) :=
                      fun memory => @release_hea plugin _ { w with memory } hle
                    exact hrelease _
          rw [leave, List.zip_cons_cons, List.foldl_cons]
          have hrest := @ih (copyBack caller plugin w (param, arg)) args
            (Nat.succ.inj hlength)
            (fun i addr alloc copyback hparam => hargs (i + 1) addr alloc copyback hparam)
            (by rw [hturn, Function.update_self])
          rw [leave] at hrest
          rw [hrest, hturn, Function.update_idem]

end

end AmxModC.CallFunc
