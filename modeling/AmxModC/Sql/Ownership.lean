import AmxModC.Foundation.Run
import AmxModC.Sql.Handles

namespace AmxModC.Sql

open Foundation

/-! Runs of calls on the handle table, beside a record of who owns what. -/

variable {Obj Func : Type*}

inductive HandleOp (Obj Func : Type*) where
  | makeHandle (ptr : Obj) (type : HandleType) (f : Func)
  | getHandle (num : Nat) (type : HandleType)
  | freeHandle (num : Nat)
  | freeAllHandles (type : HandleType)
  | freeHandleTable

inductive HandleAnswer (Obj : Type*) where
  | handle (num : Nat)
  | object (ptr : Option Obj)
  | freed (done : Bool)
  | void
  deriving DecidableEq

structure HandleReply (Obj Func : Type*) where
  table : HandleTable Obj Func
  answer : HandleAnswer Obj
  calls : List (FreeCall Obj Func)

def HandleTable.perform (table : HandleTable Obj Func) :
    HandleOp Obj Func → HandleReply Obj Func
  | .makeHandle ptr type f =>
      ⟨(table.makeHandle ptr type f).1, .handle (table.makeHandle ptr type f).2, []⟩
  | .getHandle num type => ⟨table, .object (table.getHandle num type), []⟩
  | .freeHandle num =>
      match table.freeHandle num with
      | none => ⟨table, .freed false, []⟩
      | some (freed, call) => ⟨freed, .freed true, [call]⟩
  | .freeAllHandles type =>
      ⟨(table.freeAllHandles type).1, .void, (table.freeAllHandles type).2⟩
  | .freeHandleTable => ⟨table.freeHandleTable.1, .void, table.freeHandleTable.2⟩

theorem HandleTable.WellFormed.perform {table : HandleTable Obj Func} (hwf : table.WellFormed)
    (op : HandleOp Obj Func) : (table.perform op).table.WellFormed := by
  cases op with
  | makeHandle ptr type f => exact hwf.makeHandle ptr type f
  | getHandle num type => exact hwf
  | freeHandle num =>
      cases hfree : table.freeHandle num with
      | none => simpa [HandleTable.perform, hfree] using hwf
      | some freed => simpa [HandleTable.perform, hfree] using hwf.freeHandle hfree
  | freeAllHandles type => exact hwf.sweep _
  | freeHandleTable => exact HandleTable.wellFormed_empty

namespace HandleOp

def frees : HandleOp Obj Func → Nat → HandleType → Bool
  | .makeHandle .., _, _ => false
  | .getHandle .., _, _ => false
  | .freeHandle num, other, _ => num = other
  | .freeAllHandles type, _, other => type = other
  | .freeHandleTable, _, _ => true

def Sweeps : HandleOp Obj Func → HandleType → Prop
  | .freeAllHandles type, other => type = other
  | .freeHandleTable, _ => True
  | _, _ => False

end HandleOp

/-- `owned` is what `makeHandle` gave out and no call has freed since, `made` has the
free call of every object handed to `makeHandle`, `calls` those that were made. -/
structure Session (Obj Func : Type*) where
  table : HandleTable Obj Func
  owned : Nat → Option (Object Obj Func)
  made : List (FreeCall Obj Func)
  calls : List (FreeCall Obj Func)

section

variable [DecidableEq Obj] [DecidableEq Func]

def outstanding (owned : Nat → Option (Object Obj Func)) (call : FreeCall Obj Func) : Nat :=
  if (owned call.num).map (·.call call.num) = some call then 1 else 0

variable {owned : Nat → Option (Object Obj Func)} {num : Nat} {object : Object Obj Func}

@[simp] theorem outstanding_none (call : FreeCall Obj Func) :
    outstanding (fun _ => none) call = 0 := by
  simp [outstanding]

theorem outstanding_update_some (hnone : owned num = none) (call : FreeCall Obj Func) :
    outstanding (Function.update owned num (some object)) call =
      outstanding owned call + [object.call num].count call := by
  by_cases hnum : call.num = num
  · subst hnum
    simp [outstanding, hnone, List.count_singleton]
  · have hne : object.call num ≠ call := fun hcall => hnum (hcall ▸ rfl)
    simp [outstanding, hnum, hne]

theorem outstanding_update_none (hsome : owned num = some object) (call : FreeCall Obj Func) :
    outstanding owned call =
      outstanding (Function.update owned num none) call + [object.call num].count call := by
  have hback : Function.update (Function.update owned num none) num (some object) = owned := by
    rw [Function.update_idem, ← hsome, Function.update_eq_self]
  rw [← outstanding_update_some (Function.update_self num none owned), hback]

end

namespace Session

def start : Session Obj Func := ⟨.empty, fun _ => none, [], []⟩

def ownedAfter (s : Session Obj Func) : HandleOp Obj Func → Nat → Option (Object Obj Func)
  | .makeHandle ptr type f =>
      Function.update s.owned (s.table.makeHandle ptr type f).2 (some ⟨ptr, type, f⟩)
  | op => fun num => (s.owned num).filter fun object => !op.frees num object.type

def madeBy (s : Session Obj Func) : HandleOp Obj Func → List (FreeCall Obj Func)
  | .makeHandle ptr type f =>
      [(⟨ptr, type, f⟩ : Object Obj Func).call (s.table.makeHandle ptr type f).2]
  | _ => []

def after (s : Session Obj Func) (op : HandleOp Obj Func) : Session Obj Func where
  table := (s.table.perform op).table
  owned := s.ownedAfter op
  made := s.made ++ s.madeBy op
  calls := s.calls ++ (s.table.perform op).calls

def step (s : Session Obj Func) (op : HandleOp Obj Func) : Option (Session Obj Func) :=
  some (s.after op)

def Answers (s : Session Obj Func) (op : HandleOp Obj Func) : HandleAnswer Obj → Prop
  | .handle num => num ≠ 0 ∧ s.owned num = none
  | .object ptr => ∀ num type, op = .getHandle num type →
      ptr = ((s.owned num).filter (·.type = type)).map (·.ptr)
  | .freed done => ∀ num, op = .freeHandle num → done = (s.owned num).isSome
  | .void => True

/-- Every object handed to `makeHandle` has been freed once, or is owned and not freed yet. -/
def Settled [DecidableEq Obj] [DecidableEq Func] (s : Session Obj Func) : Prop :=
  ∀ call, s.made.count call = s.calls.count call + outstanding s.owned call

def Shown (s : Session Obj Func) : Prop :=
  ∀ num type, s.table.getHandle num type =
    ((s.owned num).filter (·.type = type)).map (·.ptr)

structure AsClaimed [DecidableEq Obj] [DecidableEq Func] (s : Session Obj Func)
    (op : HandleOp Obj Func) : Prop where
  answers : s.Answers op (s.table.perform op).answer
  once : (s.table.perform op).calls.Nodup
  calls : ∀ call, call ∈ (s.table.perform op).calls ↔
    ∃ num object, s.owned num = some object ∧ op.frees num object.type ∧ call = object.call num
  shown : (s.after op).Shown
  settled : (s.after op).Settled

def SweepsNothing (s : Session Obj Func) (op : HandleOp Obj Func) : Prop :=
  ∀ type, op.Sweeps type → ∀ num, s.table.getHandle num type = none

structure Consistent [DecidableEq Obj] [DecidableEq Func] (s : Session Obj Func) : Prop where
  wellFormed : s.table.WellFormed
  live : s.table.live = s.owned
  settled : s.Settled

section

variable {s : Session Obj Func} {op : HandleOp Obj Func}

/-! An operation that frees no handle, or one. -/

theorem ownedAfter_of_not_frees (hop : ∀ ptr type f, op ≠ .makeHandle ptr type f)
    (hkept : ∀ num object, s.owned num = some object → op.frees num object.type = false) :
    s.ownedAfter op = s.owned := by
  have hfilter : s.ownedAfter op =
      fun num => (s.owned num).filter fun object => !op.frees num object.type := by
    cases op with
    | makeHandle ptr type f => exact absurd rfl (hop ptr type f)
    | getHandle | freeHandle | freeAllHandles | freeHandleTable => rfl
  funext num
  cases howned : s.owned num with
  | none => simp [hfilter, howned]
  | some object => simp [hfilter, howned, Option.filter_some, hkept num object howned]

theorem ownedAfter_freeHandle (num : Nat) :
    s.ownedAfter (.freeHandle num) = Function.update s.owned num none := by
  funext other
  by_cases hother : other = num
  · subst hother
    cases howned : s.owned other with
    | none => simp [ownedAfter, howned]
    | some object => simp [ownedAfter, howned, HandleOp.frees, Option.filter_some]
  · cases howned : s.owned other with
    | none => simp [ownedAfter, howned, hother]
    | some object =>
        simp [ownedAfter, howned, HandleOp.frees, Option.filter_some, hother, Ne.symm hother]

end

section

variable [DecidableEq Obj] [DecidableEq Func] {s : Session Obj Func} {op : HandleOp Obj Func}

theorem Consistent.shown (h : s.Consistent) : s.Shown := by
  intro num type
  rw [h.wellFormed.getHandle_eq, h.live]

theorem consistent_start : (start : Session Obj Func).Consistent where
  wellFormed := HandleTable.wellFormed_empty
  live := HandleTable.live_empty
  settled := fun call => by simp [start]

theorem asClaimed_of_quiet (hanswers : s.Answers op (s.table.perform op).answer)
    (htable : (s.after op).table.WellFormed) (hlive : (s.after op).table.live = s.ownedAfter op)
    (hcalls : (s.table.perform op).calls = [])
    (hkept : ∀ num object, s.owned num = some object → op.frees num object.type = false)
    (hsettled : (s.after op).Settled) :
    s.AsClaimed op ∧ (s.after op).Consistent := by
  have hconsistent : (s.after op).Consistent := ⟨htable, hlive, hsettled⟩
  refine ⟨⟨hanswers, hcalls ▸ List.nodup_nil, fun call => ?_, hconsistent.shown, hsettled⟩,
    hconsistent⟩
  rw [hcalls]
  refine ⟨fun hmem => absurd hmem List.not_mem_nil, fun hfreed => ?_⟩
  obtain ⟨num, object, howned, hfrees, -⟩ := hfreed
  rw [hkept num object howned] at hfrees
  exact absurd hfrees Bool.false_ne_true

theorem Consistent.makeHandle (h : s.Consistent) (ptr : Obj) (type : HandleType) (f : Func) :
    s.AsClaimed (.makeHandle ptr type f) ∧ (s.after (.makeHandle ptr type f)).Consistent := by
  obtain ⟨hfresh, hlive⟩ := h.wellFormed.live_makeHandle ptr type f
  rw [h.live] at hfresh hlive
  refine asClaimed_of_quiet ⟨Nat.ne_of_gt (HandleTable.makeHandle_pos ptr type f), hfresh⟩
    (h.wellFormed.makeHandle ptr type f) hlive rfl (fun _ _ _ => rfl) fun call => ?_
  have hcount : (s.after (.makeHandle ptr type f)).made.count call =
      s.made.count call +
        [(⟨ptr, type, f⟩ : Object Obj Func).call (s.table.makeHandle ptr type f).2].count call :=
    List.count_append ..
  rw [hcount, h.settled call, Nat.add_assoc, ← outstanding_update_some hfresh]
  simp [after, HandleTable.perform, ownedAfter]

theorem Consistent.getHandle (h : s.Consistent) (num : Nat) (type : HandleType) :
    s.AsClaimed (.getHandle num type) ∧ (s.after (.getHandle num type)).Consistent := by
  have howned : s.ownedAfter (.getHandle num type) = s.owned :=
    ownedAfter_of_not_frees (by simp) fun _ _ _ => rfl
  refine asClaimed_of_quiet (fun other otherType hop => ?_) h.wellFormed (h.live.trans howned.symm) rfl
    (fun _ _ _ => rfl) fun call => ?_
  · rw [HandleOp.getHandle.injEq] at hop
    exact hop.1 ▸ hop.2 ▸ h.shown num type
  · simpa [after, howned, madeBy, HandleTable.perform] using h.settled call

theorem Consistent.freeHandle (h : s.Consistent) (num : Nat) :
    s.AsClaimed (.freeHandle num) ∧ (s.after (.freeHandle num)).Consistent := by
  cases howned : s.owned num with
  | none =>
      have hfree := h.wellFormed.freeHandle_none (h.live ▸ howned)
      have hperform : s.table.perform (.freeHandle num) = ⟨s.table, .freed false, []⟩ := by
        simp [HandleTable.perform, hfree]
      have hkept : s.ownedAfter (.freeHandle num) = s.owned := by
        rw [ownedAfter_freeHandle, ← howned, Function.update_eq_self]
      refine asClaimed_of_quiet ?_ ?_ ?_ (by rw [hperform]) (fun other object hother => ?_) fun call => ?_
      · rw [hperform]
        intro other hop
        rw [HandleOp.freeHandle.injEq] at hop
        simp [← hop, howned]
      · simpa [after, hperform] using h.wellFormed
      · simpa [after, hperform, hkept] using h.live
      · have hne : num ≠ other := by
          intro heq
          rw [← heq, howned] at hother
          simp at hother
        simpa [HandleOp.frees] using hne
      · simpa [after, hperform, hkept, madeBy] using h.settled call
  | some object =>
      obtain ⟨freed, hfree, hwf, hlive, -, -⟩ := h.wellFormed.freeHandle_some (h.live ▸ howned)
      have hperform : s.table.perform (.freeHandle num) =
          ⟨freed, .freed true, [object.call num]⟩ := by
        simp [HandleTable.perform, hfree]
      have hsettled : (s.after (.freeHandle num)).Settled := by
        intro call
        have hbefore := h.settled call
        rw [outstanding_update_none howned] at hbefore
        simp [after, hperform, madeBy, ownedAfter_freeHandle, hbefore, Nat.add_comm, Nat.add_assoc]
      have hconsistent : (s.after (.freeHandle num)).Consistent := by
        refine ⟨by simpa [after, hperform] using hwf, ?_, hsettled⟩
        rw [← h.live] at *
        simpa [after, hperform, ownedAfter_freeHandle, h.live] using hlive
      refine ⟨⟨?_, ?_, fun call => ?_, hconsistent.shown, hsettled⟩, hconsistent⟩
      · rw [hperform]
        intro other hop
        rw [HandleOp.freeHandle.injEq] at hop
        simp [← hop, howned]
      · rw [hperform]
        exact List.nodup_singleton _
      · rw [hperform, List.mem_singleton]
        constructor
        · intro hcall
          exact ⟨num, object, howned, by simp [HandleOp.frees], hcall⟩
        · intro hfreed
          obtain ⟨other, object', hother, hfrees, hcall⟩ := hfreed
          obtain rfl : num = other := by simpa [HandleOp.frees] using hfrees
          rw [howned, Option.some.injEq] at hother
          exact hother ▸ hcall

/-! The operations that go through the table. -/

theorem Consistent.type_ne (h : s.Consistent) {type : HandleType} {num : Nat}
    {object : Object Obj Func} (hnone : s.table.getHandle num type = none)
    (howned : s.owned num = some object) : object.type ≠ type := by
  rw [h.shown, howned] at hnone
  intro htype
  simp [htype] at hnone

theorem Consistent.sweep_eq (h : s.Consistent) {selects : HandleType → Bool}
    (hnone : ∀ type, selects type = true → ∀ num, s.table.getHandle num type = none) :
    s.table.sweep selects = (s.table, []) := by
  refine HandleTable.sweep_eq_self fun {num handle} hslot hbusy => ?_
  obtain ⟨object, rfl⟩ := h.wellFormed.filled hslot hbusy
  have howned : s.owned (num + 1) = some object :=
    h.live ▸ h.wellFormed.live_eq_some.mpr hslot
  cases hselects : selects object.type with
  | false => exact hselects
  | true => exact absurd rfl (h.type_ne (hnone _ hselects (num + 1)) howned)

theorem Consistent.freeAllHandles (h : s.Consistent) {type : HandleType}
    (hnothing : s.SweepsNothing (.freeAllHandles type)) :
    s.AsClaimed (.freeAllHandles type) ∧ (s.after (.freeAllHandles type)).Consistent := by
  have hnone := hnothing type rfl
  have hsweep : s.table.freeAllHandles type = (s.table, []) :=
    h.sweep_eq fun other hother => of_decide_eq_true hother ▸ hnone
  have hperform : s.table.perform (.freeAllHandles type) = ⟨s.table, .void, []⟩ := by
    simp [HandleTable.perform, hsweep]
  have hkept : ∀ num object, s.owned num = some object →
      (HandleOp.freeAllHandles type : HandleOp Obj Func).frees num object.type = false :=
    fun num object howned => decide_eq_false (Ne.symm (h.type_ne (hnone num) howned))
  have howned := ownedAfter_of_not_frees (by simp) hkept
  refine asClaimed_of_quiet (by rw [hperform]; trivial) ?_ ?_ (by rw [hperform]) hkept fun call => ?_
  · simpa [after, hperform] using h.wellFormed
  · simpa [after, hperform, howned] using h.live
  · simpa [after, hperform, howned, madeBy] using h.settled call

theorem Consistent.freeHandleTable (h : s.Consistent)
    (hnothing : s.SweepsNothing .freeHandleTable) :
    s.AsClaimed .freeHandleTable ∧ (s.after .freeHandleTable).Consistent := by
  have hsweep : s.table.sweep (fun _ => true) = (s.table, []) :=
    h.sweep_eq fun type _ => hnothing type trivial
  have hperform : s.table.perform .freeHandleTable = ⟨.empty, .void, []⟩ := by
    simp [HandleTable.perform, HandleTable.freeHandleTable, hsweep]
  have hnobody : s.owned = fun _ => none := by
    funext num
    cases howned : s.owned num with
    | none => rfl
    | some object => exact absurd rfl (h.type_ne (hnothing object.type trivial num) howned)
  have howned : s.ownedAfter .freeHandleTable = s.owned :=
    ownedAfter_of_not_frees (by simp)
      fun num object howned => by simp [hnobody] at howned
  refine asClaimed_of_quiet (by rw [hperform]; trivial) ?_ ?_ (by rw [hperform])
    (fun num object howned => by simp [hnobody] at howned) fun call => ?_
  · simpa [after, hperform] using HandleTable.wellFormed_empty
  · simp [after, hperform, howned, hnobody]
  · simpa [after, hperform, howned, madeBy] using h.settled call

theorem Consistent.after (h : s.Consistent) (hnothing : s.SweepsNothing op) :
    s.AsClaimed op ∧ (s.after op).Consistent := by
  cases op with
  | makeHandle ptr type f => exact h.makeHandle ptr type f
  | getHandle num type => exact h.getHandle num type
  | freeHandle num => exact h.freeHandle num
  | freeAllHandles type => exact h.freeAllHandles hnothing
  | freeHandleTable => exact h.freeHandleTable hnothing

theorem Consistent.neighbour (h : s.Consistent) (hclaimed : s.AsClaimed op) {type : HandleType}
    (hsweeps : op.Sweeps type) {num : Nat} {object : Object Obj Func}
    (howned : s.owned num = some object) (hfrees : op.frees num object.type = true) :
    ∃ next, s.owned (num + 1) = some next ∧ op.frees (num + 1) next.type = true := by
  have hcall := (hclaimed.calls _).mpr ⟨num, object, howned, hfrees, rfl⟩
  have hslot : ∃ handle, s.table.handles[num]? = some handle ∧ handle.isfree = false ∧
      op.frees (num + 1) handle.type = true := by
    cases op with
    | makeHandle | getHandle | freeHandle => exact hsweeps.elim
    | freeAllHandles other =>
        obtain ⟨handle, hslot, hbusy, hselects⟩ := HandleTable.mem_sweep hcall
        exact ⟨handle, hslot, hbusy, by simpa [HandleOp.frees, eq_comm] using hselects⟩
    | freeHandleTable =>
        obtain ⟨handle, hslot, hbusy, -⟩ := HandleTable.mem_sweep hcall
        exact ⟨handle, hslot, hbusy, rfl⟩
  obtain ⟨handle, hslot, hbusy, hnext⟩ := hslot
  obtain ⟨next, rfl⟩ := h.wellFormed.filled hslot hbusy
  exact ⟨next, h.live ▸ h.wellFormed.live_eq_some.mpr hslot, hnext⟩

theorem Consistent.sweepsNothing (h : s.Consistent) (hclaimed : s.AsClaimed op) :
    s.SweepsNothing op := by
  intro type hsweeps num
  rw [h.shown, Option.map_eq_none_iff, Option.filter_eq_none_iff]
  intro object howned htype
  have hfrees : op.frees num object.type = true := by
    cases op with
    | makeHandle | getHandle | freeHandle => exact hsweeps.elim
    | freeAllHandles other => exact decide_eq_true (hsweeps.trans (of_decide_eq_true htype).symm)
    | freeHandleTable => rfl
  have hevery : ∀ k, ∃ next, s.owned (num + k) = some next ∧
      op.frees (num + k) next.type = true := by
    intro k
    induction k with
    | zero => exact ⟨object, howned, hfrees⟩
    | succ k ih =>
        obtain ⟨next, hnext, hnextFrees⟩ := ih
        exact h.neighbour hclaimed hsweeps hnext hnextFrees
  obtain ⟨last, hlast, -⟩ := hevery (s.table.handles.length + 1)
  rw [← h.live] at hlast
  have hbound := HandleTable.le_of_live hlast
  omega

end

/-- Every call of a run does as it should exactly when the loops over the table
never find a handle to free. -/
theorem asClaimed_iff_sweepsNothing [DecidableEq Obj] [DecidableEq Func]
    (ops : List (HandleOp Obj Func)) :
    Meets step AsClaimed start ops ↔ Meets step SweepsNothing start ops := by
  refine (meets_congr (I := Consistent) ?_ ?_ consistent_start).symm
  · intro s op next hconsistent hnothing hstep
    rw [step, Option.some.injEq] at hstep
    exact hstep ▸ (hconsistent.after hnothing).2
  · intro s op hconsistent
    exact ⟨fun hnothing => (hconsistent.after hnothing).1, hconsistent.sweepsNothing⟩

/-- `freeHandleTable` with one handle in it. -/
theorem not_asClaimed_freeHandleTable :
    ¬∀ ops : List (HandleOp Nat Nat), Meets step AsClaimed start ops := by
  intro hall
  have hmeets := hall [.makeHandle 7 .connection 0, .freeHandleTable]
  have hcalls := ((hmeets.2 _ rfl).1.calls ⟨some 0, some 7, 1⟩).mpr
    ⟨1, ⟨7, .connection, 0⟩, by decide, rfl, rfl⟩
  exact absurd hcalls (by decide)

end Session

end AmxModC.Sql
