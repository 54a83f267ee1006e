import Mathlib.Data.List.Induction
import AmxModC.CallFunc.Layout

namespace AmxModC.CallFunc

open Foundation

/-! What a sequence of pushes has prepared. -/

namespace Push

def addr? : Push → Option Nat
  | byval _ => none
  | byref addr | array addr _ _ | str addr _ => some addr

def size (memory : Memory) (caller : Amx) : Push → Nat
  | byval _ => 0
  | byref _ => 1
  | array _ size _ => size
  | str addr _ => (memory.getString caller addr).length + 1

def cells (memory : Memory) (caller : Amx) (push : Push) : List Cell :=
  memory.fetch caller (push.addr?.getD 0) (push.size memory caller)

def passed (memory : Memory) (caller : Amx) : Push → List Cell
  | byval _ => []
  | byref addr => memory.fetch caller addr 1
  | array addr size _ => memory.fetch caller addr size
  | str addr _ => (memory.getString caller addr).map (·.signExtend 32) ++ [0]

theorem length_passed (memory : Memory) (caller : Amx) (push : Push) :
    (push.passed memory caller).length = push.size memory caller := by
  cases push with
  | byval v => rfl
  | byref addr => rfl
  | array addr size rest => exact Memory.length_fetch memory caller addr size
  | str addr rest =>
      rw [passed, List.length_append, List.length_map]
      rfl

def copied : Push → Bool
  | byval _ => false
  | byref _ => true
  | array _ _ rest => Globals.flag (0 :: 0 :: rest) 3
  | str _ rest => Globals.flag (0 :: rest) 3

def copyback : Push → Bool
  | byval _ => false
  | byref _ => true
  | array _ _ rest => Globals.flag rest 1
  | str _ rest => Globals.flag rest 1

end Push

abbrev Pushes := List (Memory × Push)

/-- What a plugin has pushed after its `callfunc_begin`. -/
def prepared (caller plugin : Amx) (func : Int) (pushes : Pushes) : Globals :=
  Globals.pushAll ⟨some plugin, func, []⟩ (pushes.map fun (memory, push) => (caller, memory, push))

def hasAddr (addr : Nat) (pushed : Memory × Push) : Bool := pushed.2.addr? = some addr

def isFirst (pushes : Pushes) (i : Nat) (push : Push) : Bool :=
  (push.addr?.bind fun addr => pushes.findIdx? (hasAddr addr)) = some i

def blockOf (caller : Amx) (pushes : Pushes) : (Memory × Push) × Nat → List Cell
  | ((memory, push), i) => if isFirst pushes i push then push.passed memory caller else []

def row (caller : Amx) (pushes : Pushes) : List Cell :=
  (pushes.zipIdx.map (blockOf caller pushes)).reverse.flatten

def place (caller : Amx) (pushes : Pushes) (i : Nat) : Nat :=
  offset ((pushes.zipIdx.map (blockOf caller pushes)).map List.length) i

def overCell (caller : Amx) (pushes : Pushes) (cell : Nat) : (Memory × Push) × Nat → Option Nat
  | ((memory, push), i) =>
      push.addr?.bind fun addr =>
        if isFirst pushes i push && push.copied &&
            decide (addr ≤ cell ∧ cell < addr + push.size memory caller) then
          some (place caller pushes i + (cell - addr))
        else none

def lastOver (caller : Amx) (pushes : Pushes) (cell : Nat) : Option Nat :=
  pushes.zipIdx.reverse.findSome? (overCell caller pushes cell)

structure Represents (caller : Amx) (pushes : Pushes) (params : List Param) : Prop where
  length : params.length = pushes.length
  owner : ∀ addr, params.findIdx? (Globals.owns addr) = pushes.findIdx? (hasAddr addr)
  value : ∀ (i : Nat) memory v, pushes[i]? = some (memory, .byval v) →
    params[i]? = some (Param.value v)
  first : ∀ (i : Nat) memory push addr, pushes[i]? = some (memory, push) →
    push.addr? = some addr → pushes.findIdx? (hasAddr addr) = some i →
      params[i]? = some (Param.byref addr (push.passed memory caller) push.copied)
  again : ∀ (i o : Nat) memory push addr, pushes[i]? = some (memory, push) →
    push.addr? = some addr → pushes.findIdx? (hasAddr addr) = some o → o ≠ i →
      params[i]? = some (Param.reused o)

section

variable {caller : Amx} {pushes : Pushes} {params : List Param} {memory : Memory} {push : Push}
  {addr addr' i o : Nat}

theorem findIdx?_of_addr (h : pushes[i]? = some (memory, push)) (haddr : push.addr? = some addr) :
    ∃ o, o ≤ i ∧ pushes.findIdx? (hasAddr addr) = some o := by
  obtain ⟨hi, hpush⟩ := List.getElem?_eq_some_iff.mp h
  have hhas : hasAddr addr pushes[i] = true := by
    rw [hpush]
    exact decide_eq_true haddr
  cases hfirst : pushes.findIdx? (hasAddr addr) with
  | none =>
      have hnone := List.findIdx?_eq_none_iff.mp hfirst _ (List.getElem_mem hi)
      rw [hhas] at hnone
      cases hnone
  | some o =>
      refine ⟨o, ?_, rfl⟩
      obtain ⟨_, _, hbefore⟩ := List.findIdx?_eq_some_iff_getElem.mp hfirst
      by_contra hlt
      exact hbefore i (not_le.mp hlt) hhas

theorem push_of_findIdx? (h : pushes.findIdx? (hasAddr addr) = some o) :
    ∃ memory push, pushes[o]? = some (memory, push) ∧ push.addr? = some addr := by
  obtain ⟨ho, hhas, -⟩ := List.findIdx?_eq_some_iff_getElem.mp h
  exact ⟨_, _, List.getElem?_eq_getElem ho, of_decide_eq_true hhas⟩

theorem represents_nil (caller : Amx) : Represents caller [] [] where
  length := rfl
  owner := fun _ => rfl
  value := fun _ _ _ h => nomatch h
  first := fun _ _ _ _ h => nomatch h
  again := fun _ _ _ _ _ h => nomatch h

def Push.param (caller : Amx) (params : List Param) (memory : Memory) : Push → Param
  | .byval v => .value v
  | .byref addr => Globals.reference params addr ((Push.byref addr).passed memory caller) true
  | .array addr size rest =>
      Globals.reference params addr ((Push.array addr size rest).passed memory caller)
        (Push.array addr size rest).copied
  | .str addr rest =>
      Globals.reference params addr ((Push.str addr rest).passed memory caller)
        (Push.str addr rest).copied

theorem param_of_addr (haddr : push.addr? = some addr) :
    push.param caller params memory =
      Globals.reference params addr (push.passed memory caller) push.copied := by
  cases push with
  | byval v => cases haddr
  | byref addr' =>
      cases haddr
      rfl
  | array addr' size rest =>
      cases haddr
      rfl
  | str addr' rest =>
      cases haddr
      rfl

theorem push_eq (g : Globals) (memory : Memory) (caller : Amx) (push : Push) :
    g.push memory caller push = g.accept (push.param caller g.params memory) := by
  cases push with
  | byval v => rfl
  | byref addr => rfl
  | array addr size rest => rfl
  | str addr rest => rfl

theorem owns_of_addr (haddr : push.addr? = some addr') :
    Globals.owns addr (push.param caller params memory) =
      ((params.findIdx? (Globals.owns addr')).isNone && decide (addr' = addr)) := by
  rw [param_of_addr haddr, Globals.reference]
  cases params.findIdx? (Globals.owns addr') with
  | none => rfl
  | some i => rfl

theorem getElem?_concat {α : Type*} {list : List α} {x y : α}
    (h : (list ++ [x])[i]? = some y) : list[i]? = some y ∨ i = list.length ∧ y = x := by
  rw [List.getElem?_append] at h
  split at h
  next => exact .inl h
  next hge =>
      have hlast : i - list.length = 0 := by
        have hlt := (List.getElem?_eq_some_iff.mp h).1
        rw [List.length_singleton] at hlt
        omega
      rw [hlast] at h
      exact .inr ⟨by omega, (Option.some.inj h).symm⟩

theorem Represents.owns_param (h : Represents caller pushes params)
    (hnew : pushes.findIdx? (hasAddr addr) = none) :
    Globals.owns addr (push.param caller params memory) = hasAddr addr (memory, push) := by
  cases haddr : push.addr? with
  | none =>
      cases push with
      | byval v => rfl
      | byref addr => cases haddr
      | array addr size rest => cases haddr
      | str addr rest => cases haddr
  | some addr' =>
      rw [owns_of_addr haddr, h.owner, hasAddr, haddr]
      by_cases heq : addr' = addr
      · subst heq
        simp [hnew]
      · simp [heq]

theorem findIdx?_concat (haddr : push.addr? = some addr) :
    (pushes ++ [(memory, push)]).findIdx? (hasAddr addr) =
      some ((pushes.findIdx? (hasAddr addr)).getD pushes.length) := by
  have hhas : hasAddr addr (memory, push) = true := decide_eq_true haddr
  rw [List.findIdx?_append, List.findIdx?_singleton, hhas]
  cases pushes.findIdx? (hasAddr addr) with
  | none => simp
  | some o => rfl

theorem Represents.param_first (h : Represents caller pushes params)
    (haddr : push.addr? = some addr)
    (hfind : (pushes.findIdx? (hasAddr addr)).getD pushes.length = pushes.length) :
    push.param caller params memory = .byref addr (push.passed memory caller) push.copied := by
  rw [param_of_addr haddr, Globals.reference, h.owner]
  cases hseen : pushes.findIdx? (hasAddr addr) with
  | none => rfl
  | some o =>
      obtain ⟨ho, -⟩ := List.findIdx?_eq_some_iff_getElem.mp hseen
      rw [hseen, Option.getD_some] at hfind
      exact absurd hfind ho.ne

theorem Represents.param_again (h : Represents caller pushes params)
    (haddr : push.addr? = some addr)
    (hfind : (pushes.findIdx? (hasAddr addr)).getD pushes.length = o) (hne : o ≠ pushes.length) :
    push.param caller params memory = .reused o := by
  rw [param_of_addr haddr, Globals.reference, h.owner]
  cases hseen : pushes.findIdx? (hasAddr addr) with
  | none =>
      rw [hseen, Option.getD_none] at hfind
      exact absurd hfind.symm hne
  | some o' =>
      rw [hseen, Option.getD_some] at hfind
      rw [hfind]

theorem Represents.concat (h : Represents caller pushes params) (memory : Memory) (push : Push) :
    Represents caller (pushes ++ [(memory, push)])
      (params ++ [push.param caller params memory]) := by
  have hold : ∀ {j : Nat} {param}, params[j]? = some param →
      (params ++ [push.param caller params memory])[j]? = some param := fun hj =>
    (List.getElem?_append_left (List.getElem?_eq_some_iff.mp hj).1).trans hj
  have hnew : (params ++ [push.param caller params memory])[pushes.length]? =
      some (push.param caller params memory) := by
    rw [← h.length]
    exact List.getElem?_concat_length
  have hfirst : ∀ {j : Nat} {memory' push' addr}, pushes[j]? = some (memory', push') →
      push'.addr? = some addr →
        (pushes ++ [(memory, push)]).findIdx? (hasAddr addr) =
          pushes.findIdx? (hasAddr addr) := by
    intro j memory' push' addr hj haddr
    obtain ⟨o, -, ho⟩ := findIdx?_of_addr hj haddr
    rw [List.findIdx?_append, ho, Option.some_or]
  constructor
  case length => simp [h.length]
  case owner =>
    intro addr
    rw [List.findIdx?_append, List.findIdx?_append, h.owner, h.length]
    cases hseen : pushes.findIdx? (hasAddr addr) with
    | some o => rfl
    | none => rw [List.findIdx?_singleton, List.findIdx?_singleton, h.owns_param hseen]
  case value =>
    intro i memory' v hi
    rcases getElem?_concat hi with hbefore | ⟨rfl, hlast⟩
    · exact hold (h.value i memory' v hbefore)
    · cases hlast
      exact hnew
  case first =>
    intro i memory' push' addr hi haddr hfind
    rcases getElem?_concat hi with hbefore | ⟨rfl, hlast⟩
    · exact hold (h.first i memory' push' addr hbefore haddr (hfirst hbefore haddr ▸ hfind))
    · cases hlast
      rw [findIdx?_concat haddr] at hfind
      rw [hnew, h.param_first haddr (Option.some.inj hfind)]
  case again =>
    intro i o memory' push' addr hi haddr hfind hne
    rcases getElem?_concat hi with hbefore | ⟨rfl, hlast⟩
    · exact hold (h.again i o memory' push' addr hbefore haddr (hfirst hbefore haddr ▸ hfind) hne)
    · cases hlast
      rw [findIdx?_concat haddr] at hfind
      rw [hnew, h.param_again haddr (Option.some.inj hfind) hne]

theorem represents_pushAll (caller plugin : Amx) (func : Int) (pushes : Pushes) :
    ∃ params, prepared caller plugin func pushes = ⟨some plugin, func, params⟩ ∧
      Represents caller (pushes.take callfuncMaxparams) params := by
  induction pushes using List.reverseRecOn with
  | nil => exact ⟨[], rfl, represents_nil caller⟩
  | append_singleton pushes last ih =>
      obtain ⟨memory, push⟩ := last
      obtain ⟨params, hg, hparams⟩ := ih
      rw [prepared] at hg
      rw [prepared, List.map_append, List.map_singleton, Globals.pushAll_concat, hg, push_eq,
        Globals.accept, if_neg (by simp)]
      have hlength := hparams.length
      rw [List.length_take] at hlength
      split
      next hfull =>
          have hmany : callfuncMaxparams ≤ pushes.length := by
            change params.length = callfuncMaxparams at hfull
            omega
          refine ⟨params, rfl, ?_⟩
          rw [List.take_append_of_le_length hmany]
          exact hparams
      next hroom =>
          have hfew : pushes.length < callfuncMaxparams := by
            change params.length ≠ callfuncMaxparams at hroom
            omega
          rw [List.take_of_length_le hfew.le] at hparams
          refine ⟨_, rfl, ?_⟩
          rw [List.take_of_length_le (by simpa using Nat.succ_le_of_lt hfew)]
          exact hparams.concat memory push

theorem Represents.cases (h : Represents caller pushes params)
    (hi : pushes[i]? = some (memory, push)) :
    (∃ v, push = .byval v ∧ params[i]? = some (Param.value v)) ∨
    (∃ addr, push.addr? = some addr ∧ isFirst pushes i push = true ∧
      params[i]? = some (Param.byref addr (push.passed memory caller) push.copied)) ∨
    (∃ addr o, push.addr? = some addr ∧ isFirst pushes i push = false ∧
      pushes.findIdx? (hasAddr addr) = some o ∧ params[i]? = some (Param.reused o)) := by
  cases haddr : push.addr? with
  | none =>
      cases push with
      | byval v => exact .inl ⟨v, rfl, h.value i memory v hi⟩
      | byref addr => cases haddr
      | array addr size rest => cases haddr
      | str addr rest => cases haddr
  | some addr =>
      obtain ⟨o, -, ho⟩ := findIdx?_of_addr hi haddr
      have hisFirst : isFirst pushes i push = decide (o = i) := by
        rw [isFirst, haddr, Option.bind_some, ho]
        simp
      by_cases heq : o = i
      · subst heq
        exact .inr (.inl ⟨addr, rfl, by simp [hisFirst], h.first o memory push addr hi haddr ho⟩)
      · exact .inr (.inr ⟨addr, o, rfl, by simp [hisFirst, heq], ho,
          h.again i o memory push addr hi haddr ho heq⟩)

theorem Represents.blocks_eq (h : Represents caller pushes params) :
    params.map Param.cells = pushes.zipIdx.map (blockOf caller pushes) := by
  refine List.ext_getElem? fun i => ?_
  rw [List.getElem?_map, List.getElem?_map, List.getElem?_zipIdx, Nat.zero_add]
  cases hi : pushes[i]? with
  | none =>
      rw [List.getElem?_eq_none_iff.mpr (h.length ▸ List.getElem?_eq_none_iff.mp hi)]
      rfl
  | some pushed =>
      obtain ⟨memory, push⟩ := pushed
      rw [Option.map_some, Option.map_some, blockOf]
      rcases h.cases hi with ⟨v, rfl, hparam⟩ | ⟨addr, -, hfirst, hparam⟩ |
        ⟨addr, o, -, hfirst, -, hparam⟩
      · rw [hparam]
        rfl
      · rw [hparam, hfirst]
        rfl
      · rw [hparam, hfirst]
        rfl

theorem Represents.sizes_eq (h : Represents caller pushes params) :
    sizes params = (pushes.zipIdx.map (blockOf caller pushes)).map List.length := by
  rw [← h.blocks_eq, List.map_map, sizes]
  exact List.map_congr_left fun param _ => param.length_cells.symm

theorem Represents.place_eq (h : Represents caller pushes params) (i : Nat) :
    offset (sizes params) i = place caller pushes i := by
  rw [h.sizes_eq, place]

theorem length_row (caller : Amx) (pushes : Pushes) :
    (row caller pushes).length =
      ((pushes.zipIdx.map (blockOf caller pushes)).map List.length).sum := by
  rw [row, List.length_flatten, List.map_reverse, List.sum_reverse]

theorem Represents.sum_eq (h : Represents caller pushes params) :
    (sizes params).sum = (row caller pushes).length := by
  rw [h.sizes_eq, length_row]

theorem Represents.argument (h : Represents caller pushes params)
    (hi : pushes[i]? = some (memory, push)) (haddr : push.addr? = some addr)
    (ho : pushes.findIdx? (hasAddr addr) = some o) (base : Nat) :
    (secondPass (rawArgs base params))[i]? = some (.address (base + place caller pushes o)) := by
  by_cases heq : o = i
  · subst heq
    rw [secondPass_byref (h.first o memory push addr hi haddr ho), h.place_eq]
  · obtain ⟨memory', push', ho', haddr'⟩ := push_of_findIdx? ho
    rw [secondPass_reused (h.again i o memory push addr hi haddr ho heq)
      (h.first o memory' push' addr ho' haddr' ho), h.place_eq]

theorem Represents.written_eq (h : Represents caller pushes params) (base cell : Nat)
    (after : Memory) (plugin : Amx) :
    (params.zip (secondPass (rawArgs base params))).map (written after plugin cell) =
      pushes.zipIdx.map fun pushed =>
        (overCell caller pushes cell pushed).map fun p => after plugin (base + p) := by
  refine List.ext_getElem? fun i => ?_
  rw [List.getElem?_map, List.getElem?_map, List.getElem?_zipIdx, Nat.zero_add]
  have hpair : ∀ {param arg}, params[i]? = some param →
      (secondPass (rawArgs base params))[i]? = some arg →
        (params.zip (secondPass (rawArgs base params)))[i]? = some (param, arg) :=
    fun hparam harg => List.getElem?_zip_eq_some.mpr ⟨hparam, harg⟩
  cases hi : pushes[i]? with
  | none =>
      have hparam : params[i]? = none :=
        List.getElem?_eq_none_iff.mpr (h.length ▸ List.getElem?_eq_none_iff.mp hi)
      have hzip : (params.zip (secondPass (rawArgs base params)))[i]? = none := by
        rw [List.zip, List.getElem?_zipWith', hparam]
        rfl
      rw [hzip]
      rfl
  | some pushed =>
      obtain ⟨memory, push⟩ := pushed
      rw [Option.map_some, Option.map_some]
      rcases h.cases hi with ⟨v, rfl, hparam⟩ | ⟨addr, haddr, hfirst, hparam⟩ |
        ⟨addr, o, haddr, hfirst, ho, hparam⟩
      · rw [hpair hparam (secondPass_value hparam)]
        rfl
      · rw [hpair hparam (secondPass_byref hparam), h.place_eq, overCell, haddr, Option.bind_some,
          hfirst, Option.map_some]
        cases push.copied with
        | false => rfl
        | true =>
            rw [written, Push.length_passed]
            by_cases hin : addr ≤ cell ∧ cell < addr + push.size memory caller
            · simp [hin, Nat.add_assoc]
            · simp [hin]
      · rw [hpair hparam (h.argument hi haddr ho base), overCell, haddr, Option.bind_some, hfirst]
        rfl

theorem Represents.findSome?_written (h : Represents caller pushes params) (base cell : Nat)
    (after : Memory) (plugin : Amx) :
    (params.zip (secondPass (rawArgs base params))).reverse.findSome?
        (written after plugin cell) =
      (lastOver caller pushes cell).map fun p => after plugin (base + p) := by
  have hlist := congrArg (List.findSome? id ∘ List.reverse) (h.written_eq base cell after plugin)
  rw [Function.comp_apply, Function.comp_apply, ← List.map_reverse, ← List.map_reverse,
    List.findSome?_map, List.findSome?_map] at hlist
  rw [lastOver, List.map_findSome?]
  exact hlist

/-! The places in the row. -/

theorem place_add_le (hi : pushes[i]? = some (memory, push)) (hfirst : isFirst pushes i push) :
    place caller pushes i + push.size memory caller ≤ (row caller pushes).length := by
  rw [length_row]
  refine offset_add_le_sum ?_
  rw [List.getElem?_map, List.getElem?_map, List.getElem?_zipIdx, hi, Option.map_some,
    Option.map_some, Option.map_some, Nat.zero_add, blockOf, if_pos hfirst, Push.length_passed]

theorem place_le (caller : Amx) (pushes : Pushes) (i : Nat) :
    place caller pushes i ≤ (row caller pushes).length := by
  rw [length_row]
  exact offset_le_sum _ i

theorem lastOver_eq_some {cell p : Nat} (h : lastOver caller pushes cell = some p) :
    ∃ (i : Nat) (memory : Memory) (push : Push) (addr : Nat),
      pushes[i]? = some (memory, push) ∧ push.addr? = some addr ∧
        isFirst pushes i push = true ∧ push.copied = true ∧ addr ≤ cell ∧
          cell < addr + push.size memory caller ∧ p = place caller pushes i + (cell - addr) := by
  obtain ⟨⟨⟨memory, push⟩, i⟩, hmem, hover⟩ := List.exists_of_findSome?_eq_some h
  have hi := List.mem_zipIdx_iff_getElem?.mp (List.mem_reverse.mp hmem)
  obtain ⟨addr, haddr, hover⟩ := Option.bind_eq_some_iff.mp hover
  split at hover
  next hin =>
      rw [Bool.and_eq_true, Bool.and_eq_true, decide_eq_true_eq] at hin
      exact ⟨i, memory, push, addr, hi, haddr, hin.1.1, hin.1.2, hin.2.1, hin.2.2,
        (Option.some.inj hover).symm⟩
  next => cases hover

end

end AmxModC.CallFunc
