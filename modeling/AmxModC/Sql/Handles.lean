import Mathlib.Data.List.Nodup
import Mathlib.Logic.Function.Basic

namespace AmxModC.Sql

/-! The handle table.  Identifiers are one-based, the slots and the stack of free
slots are zero-based. -/

inductive HandleType where
  | invalid
  | connection
  | database
  | query
  | oldDb
  | oldResult
  deriving DecidableEq, Repr

variable {Obj Func : Type*}

structure QHandle (Obj Func : Type*) where
  ptr : Option Obj
  func : Option Func
  type : HandleType
  isfree : Bool
  deriving DecidableEq

/-- `freeHandles` is listed from the top of the stack. -/
structure HandleTable (Obj Func : Type*) where
  handles : List (QHandle Obj Func)
  freeHandles : List Nat
  deriving DecidableEq

/-- `h->_func(h->_ptr, num)` -/
structure FreeCall (Obj Func : Type*) where
  func : Option Func
  ptr : Option Obj
  num : Nat
  deriving DecidableEq

namespace HandleTable

def empty : HandleTable Obj Func := ⟨[], []⟩

def makeHandle (table : HandleTable Obj Func) (ptr : Obj) (type : HandleType) (f : Func) :
    HandleTable Obj Func × Nat :=
  let h : QHandle Obj Func := ⟨some ptr, some f, type, false⟩
  match table.freeHandles with
  | num :: rest => (⟨table.handles.set num h, rest⟩, num + 1)
  | [] => (⟨table.handles ++ [h], []⟩, table.handles.length + 1)

def getHandle (table : HandleTable Obj Func) (num : Nat) (type : HandleType) : Option Obj :=
  match num with
  | 0 => none
  | num + 1 =>
      match table.handles[num]? with
      | none => none
      | some h => if h.isfree ∨ h.type ≠ type then none else h.ptr

def freeHandle (table : HandleTable Obj Func) (num : Nat) :
    Option (HandleTable Obj Func × FreeCall Obj Func) :=
  match num with
  | 0 => none
  | num + 1 =>
      match table.handles[num]? with
      | none => none
      | some h =>
          if h.isfree then none
          else
            some (⟨table.handles.set num ⟨none, none, h.type, true⟩, num :: table.freeHandles⟩,
              ⟨h.func, h.ptr, num + 1⟩)

/-- One turn of the loop that `freeAllHandles` and `freeHandleTable` share: slot `i` is
tested, and `i` is handed to `freeHandle`, which takes identifiers. -/
def visit (selects : HandleType → Bool)
    (swept : HandleTable Obj Func × List (FreeCall Obj Func)) (i : Nat) :
    HandleTable Obj Func × List (FreeCall Obj Func) :=
  match swept.1.handles[i]? with
  | none => swept
  | some q =>
      if !q.isfree && selects q.type then
        match swept.1.freeHandle i with
        | none => swept
        | some (table, call) => (table, swept.2 ++ [call])
      else swept

def sweep (selects : HandleType → Bool) (table : HandleTable Obj Func) :
    HandleTable Obj Func × List (FreeCall Obj Func) :=
  (List.range table.handles.length).foldl (visit selects) (table, [])

def freeAllHandles (table : HandleTable Obj Func) (type : HandleType) :
    HandleTable Obj Func × List (FreeCall Obj Func) :=
  table.sweep (· = type)

def freeHandleTable (table : HandleTable Obj Func) :
    HandleTable Obj Func × List (FreeCall Obj Func) :=
  (empty, (table.sweep fun _ => true).2)

end HandleTable

/-! What a table holds: the objects that are live, by identifier. -/

structure Object (Obj Func : Type*) where
  ptr : Obj
  type : HandleType
  func : Func
  deriving DecidableEq

def Object.call (object : Object Obj Func) (num : Nat) : FreeCall Obj Func :=
  ⟨some object.func, some object.ptr, num⟩

def Object.handle (object : Object Obj Func) : QHandle Obj Func :=
  ⟨some object.ptr, some object.func, object.type, false⟩

def QHandle.object (h : QHandle Obj Func) : Option (Object Obj Func) :=
  if h.isfree then none
  else
    match h.ptr, h.func with
    | some ptr, some func => some ⟨ptr, h.type, func⟩
    | _, _ => none

@[simp] theorem Object.object_handle (object : Object Obj Func) :
    object.handle.object = some object := rfl

@[simp] theorem QHandle.object_free (ptr : Option Obj) (func : Option Func) (type : HandleType) :
    QHandle.object ⟨ptr, func, type, true⟩ = none := rfl

namespace HandleTable

variable {table : HandleTable Obj Func} {num : Nat} {object : Object Obj Func}

def live (table : HandleTable Obj Func) : Nat → Option (Object Obj Func)
  | 0 => none
  | num + 1 => table.handles[num]?.bind QHandle.object

@[simp] theorem live_zero : table.live 0 = none := rfl

theorem live_succ (table : HandleTable Obj Func) (num : Nat) :
    table.live (num + 1) = table.handles[num]?.bind QHandle.object := rfl

@[simp] theorem live_empty : (empty : HandleTable Obj Func).live = fun _ => none := by
  funext num
  cases num with
  | zero => rfl
  | succ num => simp [live_succ, empty]

structure WellFormed (table : HandleTable Obj Func) : Prop where
  distinct : table.freeHandles.Nodup
  listed : ∀ {num : Nat}, num ∈ table.freeHandles ↔
    ∃ h, table.handles[num]? = some h ∧ h.isfree = true
  filled : ∀ {num : Nat} {h : QHandle Obj Func}, table.handles[num]? = some h →
    h.isfree = false → ∃ object : Object Obj Func, h = object.handle

theorem wellFormed_empty : (empty : HandleTable Obj Func).WellFormed where
  distinct := List.nodup_nil
  listed := by simp [empty]
  filled := by simp [empty]

theorem WellFormed.live_eq_some (hwf : table.WellFormed) :
    table.live (num + 1) = some object ↔ table.handles[num]? = some object.handle := by
  rw [live_succ, Option.bind_eq_some_iff]
  constructor
  · intro hbound
    obtain ⟨h, hslot, hobject⟩ := hbound
    cases hfree : h.isfree with
    | true => simp [QHandle.object, hfree] at hobject
    | false =>
        obtain ⟨other, rfl⟩ := hwf.filled hslot hfree
        rw [Object.object_handle, Option.some.injEq] at hobject
        rw [hslot, hobject]
  · intro hslot
    exact ⟨object.handle, hslot, rfl⟩

theorem WellFormed.live_eq_none (hwf : table.WellFormed) :
    table.live (num + 1) = none ↔ ∀ h, table.handles[num]? = some h → h.isfree = true := by
  rw [live_succ, Option.bind_eq_none_iff]
  refine forall₂_congr fun h hslot => ?_
  cases hfree : h.isfree with
  | true => simp [QHandle.object, hfree]
  | false =>
      obtain ⟨object, rfl⟩ := hwf.filled hslot hfree
      simp

theorem le_of_live (hlive : table.live num = some object) : num ≤ table.handles.length := by
  cases num with
  | zero => simp
  | succ num =>
      rw [live_succ, Option.bind_eq_some_iff] at hlive
      obtain ⟨h, hslot, -⟩ := hlive
      exact (List.getElem?_eq_some_iff.mp hslot).1

theorem WellFormed.getHandle_eq (hwf : table.WellFormed) (num : Nat) (type : HandleType) :
    table.getHandle num type = ((table.live num).filter (·.type = type)).map (·.ptr) := by
  cases num with
  | zero => rfl
  | succ num =>
      cases hlive : table.live (num + 1) with
      | none =>
          rw [hwf.live_eq_none] at hlive
          cases hslot : table.handles[num]? with
          | none => simp [getHandle, hslot]
          | some h => simp [getHandle, hslot, hlive h hslot]
      | some object =>
          rw [hwf.live_eq_some] at hlive
          by_cases htype : object.type = type
          · simp [getHandle, hlive, Object.handle, Option.filter_some, htype]
          · simp [getHandle, hlive, Object.handle, Option.filter_some, htype]

/-! Making a handle. -/

theorem WellFormed.makeHandle (hwf : table.WellFormed) (ptr : Obj) (type : HandleType) (f : Func) :
    (table.makeHandle ptr type f).1.WellFormed := by
  unfold HandleTable.makeHandle
  split
  next num rest hfree =>
    have hdistinct := hwf.distinct
    rw [hfree, List.nodup_cons] at hdistinct
    obtain ⟨hnotMem, hrest⟩ := hdistinct
    have hlisted : ∀ {other : Nat}, other ∈ num :: rest ↔
        ∃ h, table.handles[other]? = some h ∧ h.isfree = true := hfree ▸ hwf.listed
    obtain ⟨h, hslot, -⟩ := hlisted.mp List.mem_cons_self
    have hbound := (List.getElem?_eq_some_iff.mp hslot).1
    refine ⟨hrest, ?_, ?_⟩
    · intro other
      by_cases hother : other = num
      · subst hother
        simp [hbound, hnotMem]
      · rw [List.getElem?_set_ne (Ne.symm hother), ← hlisted, List.mem_cons]
        simp [hother]
    · intro other h' hslot' hbusy
      by_cases hother : other = num
      · subst hother
        rw [List.getElem?_set_self hbound, Option.some.injEq] at hslot'
        exact ⟨⟨ptr, type, f⟩, hslot'.symm⟩
      · rw [List.getElem?_set_ne (Ne.symm hother)] at hslot'
        exact hwf.filled hslot' hbusy
  next hfree =>
    have hlisted : ∀ {other : Nat} {h : QHandle Obj Func}, table.handles[other]? = some h →
        h.isfree = false := by
      intro other h hslot
      have hmem : other ∈ table.freeHandles ↔ _ := hwf.listed
      rw [hfree] at hmem
      cases hisfree : h.isfree with
      | true => exact absurd (hmem.mpr ⟨h, hslot, hisfree⟩) List.not_mem_nil
      | false => rfl
    refine ⟨List.nodup_nil, ?_, ?_⟩
    · intro other
      refine ⟨fun hmem => absurd hmem List.not_mem_nil, ?_⟩
      rintro ⟨h, hslot, hisfree⟩
      rw [List.getElem?_append] at hslot
      split at hslot
      · simp [hlisted hslot] at hisfree
      · rw [List.getElem?_singleton] at hslot
        split at hslot
        · rw [← Option.some.inj hslot] at hisfree
          exact absurd hisfree Bool.false_ne_true
        · simp at hslot
    · intro other h hslot hbusy
      rw [List.getElem?_append] at hslot
      split at hslot
      · exact hwf.filled hslot hbusy
      · rw [List.getElem?_singleton] at hslot
        split at hslot
        · exact ⟨⟨ptr, type, f⟩, (Option.some.inj hslot).symm⟩
        · simp at hslot

theorem WellFormed.live_makeHandle (hwf : table.WellFormed) (ptr : Obj) (type : HandleType)
    (f : Func) :
    table.live (table.makeHandle ptr type f).2 = none ∧
      (table.makeHandle ptr type f).1.live =
        Function.update table.live (table.makeHandle ptr type f).2 (some ⟨ptr, type, f⟩) := by
  unfold HandleTable.makeHandle
  split
  next num rest hfree =>
    obtain ⟨h, hslot, hisfree⟩ := hwf.listed.mp (hfree ▸ List.mem_cons_self)
    have hbound := (List.getElem?_eq_some_iff.mp hslot).1
    refine ⟨hwf.live_eq_none.mpr fun h' hslot' => ?_, ?_⟩
    · rw [hslot, Option.some.injEq] at hslot'
      exact hslot' ▸ hisfree
    · funext other
      cases other with
      | zero => simp
      | succ other =>
          by_cases hother : other = num
          · subst hother
            simp [live_succ, hbound, QHandle.object]
          · rw [Function.update_of_ne (by simpa using hother), live_succ, live_succ,
              List.getElem?_set_ne (Ne.symm hother)]
  next hfree =>
    refine ⟨by simp [live_succ], ?_⟩
    funext other
    cases other with
    | zero => simp
    | succ other =>
        rcases Nat.lt_trichotomy other table.handles.length with hlt | rfl | hgt
        · rw [Function.update_of_ne (by simpa using Nat.ne_of_lt hlt), live_succ, live_succ,
            List.getElem?_append_left hlt]
        · simp [live_succ, QHandle.object]
        · rw [Function.update_of_ne (by simpa using Nat.ne_of_gt hgt), live_succ, live_succ,
            List.getElem?_eq_none (by simpa using Nat.succ_le_of_lt hgt),
            List.getElem?_eq_none (Nat.le_of_lt hgt)]

theorem makeHandle_pos (ptr : Obj) (type : HandleType) (f : Func) :
    0 < (table.makeHandle ptr type f).2 := by
  unfold HandleTable.makeHandle
  split
  next => exact Nat.succ_pos _
  next => exact Nat.succ_pos _

/-! Freeing a handle. -/

theorem WellFormed.freeHandle_none (hwf : table.WellFormed) (hlive : table.live num = none) :
    table.freeHandle num = none := by
  cases num with
  | zero => rfl
  | succ num =>
      rw [hwf.live_eq_none] at hlive
      cases hslot : table.handles[num]? with
      | none => simp [freeHandle, hslot]
      | some h => simp [freeHandle, hslot, hlive h hslot]

theorem WellFormed.freeHandle_some (hwf : table.WellFormed) (hlive : table.live num = some object) :
    ∃ freed, table.freeHandle num = some (freed, object.call num) ∧ freed.WellFormed ∧
      freed.live = Function.update table.live num none ∧
      freed.handles.length = table.handles.length ∧
      ∀ other, other + 1 ≠ num → freed.handles[other]? = table.handles[other]? := by
  cases num with
  | zero => simp at hlive
  | succ num =>
      rw [hwf.live_eq_some] at hlive
      have hbound := (List.getElem?_eq_some_iff.mp hlive).1
      have hnotMem : num ∉ table.freeHandles := by
        intro hmem
        obtain ⟨h, hslot, hisfree⟩ := hwf.listed.mp hmem
        rw [hlive, Option.some.injEq] at hslot
        rw [← hslot] at hisfree
        exact absurd hisfree Bool.false_ne_true
      refine ⟨⟨table.handles.set num ⟨none, none, object.type, true⟩, num :: table.freeHandles⟩,
        by simp [freeHandle, hlive, Object.handle, Object.call], ?_, ?_, by simp, ?_⟩
      · refine ⟨List.nodup_cons.mpr ⟨hnotMem, hwf.distinct⟩, ?_, ?_⟩
        · intro other
          by_cases hother : other = num
          · subst hother
            simp [hbound]
          · rw [List.getElem?_set_ne (Ne.symm hother), ← hwf.listed, List.mem_cons]
            simp [hother]
        · intro other h hslot hbusy
          by_cases hother : other = num
          · subst hother
            rw [List.getElem?_set_self hbound, Option.some.injEq] at hslot
            rw [← hslot] at hbusy
            exact absurd hbusy.symm Bool.false_ne_true
          · rw [List.getElem?_set_ne (Ne.symm hother)] at hslot
            exact hwf.filled hslot hbusy
      · funext other
        cases other with
        | zero => simp
        | succ other =>
            by_cases hother : other = num
            · subst hother
              simp [live_succ, hbound]
            · rw [Function.update_of_ne (by simpa using hother), live_succ, live_succ,
                List.getElem?_set_ne (Ne.symm hother)]
      · intro other hother
        exact List.getElem?_set_ne (by simpa using Ne.symm hother)

theorem WellFormed.freeHandle (hwf : table.WellFormed) {freed : HandleTable Obj Func}
    {call : FreeCall Obj Func} (hfree : table.freeHandle num = some (freed, call)) :
    freed.WellFormed := by
  cases hlive : table.live num with
  | none => simp [hwf.freeHandle_none hlive] at hfree
  | some object =>
      obtain ⟨freed', hfree', hwf', -⟩ := hwf.freeHandle_some hlive
      rw [hfree', Option.some.injEq, Prod.mk.injEq] at hfree
      exact hfree.1 ▸ hwf'

/-! The loop over the table. -/

theorem freeHandle_eq_some {freed : HandleTable Obj Func} {call : FreeCall Obj Func}
    (hfree : table.freeHandle num = some (freed, call)) :
    call.num = num ∧ ∀ other, other + 1 ≠ num → freed.handles[other]? = table.handles[other]? := by
  cases num with
  | zero => simp [freeHandle] at hfree
  | succ num =>
      simp only [freeHandle] at hfree
      split at hfree
      next => simp at hfree
      next h hslot =>
        split at hfree
        next => simp at hfree
        next =>
          rw [Option.some.injEq, Prod.mk.injEq] at hfree
          obtain ⟨rfl, rfl⟩ := hfree
          exact ⟨rfl, fun other hother => List.getElem?_set_ne (by simpa using Ne.symm hother)⟩

theorem foldl_visit (selects : HandleType → Bool) (table : HandleTable Obj Func) (i : Nat) :
    let swept := (List.range i).foldl (visit selects) (table, [])
    (∀ ahead, i ≤ ahead → swept.1.handles[ahead]? = table.handles[ahead]?) ∧
      ∀ call ∈ swept.2, ∃ h, table.handles[call.num]? = some h ∧ h.isfree = false ∧
        selects h.type = true := by
  induction i with
  | zero => simp
  | succ i ih =>
      obtain ⟨hslots, hcalls⟩ := ih
      rw [List.range_succ, List.foldl_append, List.foldl_cons, List.foldl_nil]
      generalize (List.range i).foldl (visit selects) (table, []) = swept at hslots hcalls
      have hskip : ∀ ahead, i + 1 ≤ ahead → swept.1.handles[ahead]? = table.handles[ahead]? :=
        fun ahead hahead => hslots ahead (Nat.le_of_succ_le hahead)
      unfold visit
      split
      next => exact ⟨hskip, hcalls⟩
      next q hq =>
        split
        next hselected =>
          split
          next => exact ⟨hskip, hcalls⟩
          next freed call hfree =>
            obtain ⟨hnum, hframe⟩ := freeHandle_eq_some hfree
            refine ⟨fun ahead hahead => ?_, fun other hother => ?_⟩
            · rw [hframe ahead (by omega), hskip ahead hahead]
            · rw [List.mem_append, List.mem_singleton] at hother
              rcases hother with hold | rfl
              · exact hcalls other hold
              · rw [hnum, ← hslots i (Nat.le_refl i)]
                exact ⟨q, hq, by simpa using hselected⟩
        next => exact ⟨hskip, hcalls⟩

theorem mem_sweep {selects : HandleType → Bool} {call : FreeCall Obj Func}
    (hcall : call ∈ (table.sweep selects).2) :
    ∃ h, table.handles[call.num]? = some h ∧ h.isfree = false ∧ selects h.type = true :=
  (foldl_visit selects table table.handles.length).2 call hcall

theorem visit_eq {selects : HandleType → Bool}
    {swept : HandleTable Obj Func × List (FreeCall Obj Func)} (hwf : swept.1.WellFormed) (i : Nat) :
    visit selects swept i =
      if (swept.1.live (i + 1)).any (fun object => selects object.type) then
        match swept.1.freeHandle i with
        | none => swept
        | some (table, call) => (table, swept.2 ++ [call])
      else swept := by
  unfold visit
  cases hslot : swept.1.handles[i]? with
  | none => simp [live_succ, hslot]
  | some q =>
      cases hisfree : q.isfree with
      | true => simp [live_succ, hslot, hisfree, QHandle.object]
      | false =>
          obtain ⟨object, rfl⟩ := hwf.filled hslot hisfree
          simp [hwf.live_eq_some.mpr hslot, Object.handle]

theorem WellFormed.sweep (hwf : table.WellFormed) (selects : HandleType → Bool) :
    (table.sweep selects).1.WellFormed := by
  have hvisit : ∀ (swept : HandleTable Obj Func × List (FreeCall Obj Func)) (i : Nat),
      swept.1.WellFormed → (visit selects swept i).1.WellFormed := by
    intro swept i hswept
    unfold visit
    split
    next => exact hswept
    next =>
      split
      next =>
        split
        next => exact hswept
        next hfree => exact hswept.freeHandle hfree
      next => exact hswept
  have hstart : (table, ([] : List (FreeCall Obj Func))).1.WellFormed := hwf
  exact List.foldlRecOn (motive := fun swept => swept.1.WellFormed) _ _ hstart
    fun swept hswept i _ => hvisit swept i hswept

theorem sweep_eq_self {selects : HandleType → Bool}
    (hnone : ∀ {num : Nat} {h : QHandle Obj Func}, table.handles[num]? = some h →
      h.isfree = false → selects h.type = false) :
    table.sweep selects = (table, []) := by
  refine List.foldl_fixed' (fun i => ?_) _
  unfold visit
  split
  next => rfl
  next q hq =>
    cases hisfree : q.isfree with
    | true => simp
    | false => simp [hnone hq hisfree]

end HandleTable

end AmxModC.Sql
