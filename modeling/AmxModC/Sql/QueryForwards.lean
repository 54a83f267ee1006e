import AmxModC.Foundation.Run
import AmxModC.Forward.Handout

namespace AmxModC.Sql

open Foundation Forward

/-! threading.cpp: the forwards that `SQL_ThreadQuery` registers, and the objects that are to
unregister them. -/

inductive ForwardOwner
  | query (number : Nat)
  | other
deriving DecidableEq

def ForwardOwner.number? : ForwardOwner → Option Nat
  | .query number => some number
  | .other => none

/-- `m_fwd` of a `MysqlThread`, with the number of the query that it is from. -/
structure ThreadForward where
  fwd : Int
  number : Nat
deriving DecidableEq

/-- Objects are named by the order of their allocation, and are in the worker, on one of the
two stacks, or in `Execute`.  The last three fields are no state of the module: the queries
whose handler has run or that were dropped, those whose forward a destructor unregistered,
and whose forwards went with that. -/
structure QueryForwards where
  mngr : SpForwards
  held : List (Int × ForwardOwner)
  objects : List ThreadForward
  working : List Nat
  threadQueue : List Nat
  executing : Option Nat
  freeThreads : List Nat
  issued : Nat
  finished : List Nat
  unregistered : List Nat
  hits : List (Nat × ForwardOwner)
deriving DecidableEq

/-- `terminate` is `OnTerminate` with its flag `cancel`; `execute` starts a handler and
`handled` is its return; the last two are registrations of other parties, which unregister
what they hold. -/
inductive ForwardEvent
  | threadQuery (found : Bool)
  | terminate (object : Nat) (cancel : Bool)
  | execute
  | handled
  | shutdown
  | registerElsewhere (found : Bool)
  | unregisterElsewhere (id : Int)
deriving DecidableEq

namespace QueryForwards

def start : QueryForwards := ⟨⟨[], []⟩, [], [], [], [], none, [], 0, [], [], []⟩

def number (s : QueryForwards) (object : Nat) : Nat :=
  match s.objects[object]? with
  | some thread => thread.number
  | none => 0

/-- `SQL_ThreadQuery` from its registration on, up to `MakeThread`. -/
def threadQuery (s : QueryForwards) (found : Bool) : QueryForwards :=
  let (fwd, mngr) := s.mngr.register found
  if fwd < 1 then { s with mngr := mngr }
  else
    let number := s.issued
    let s := { s with
      mngr := mngr
      held := (fwd, .query number) :: s.held
      issued := number + 1 }
    match s.freeThreads with
    | [] =>
        { s with
          objects := s.objects ++ [⟨fwd, number⟩]
          working := s.objects.length :: s.working }
    | object :: rest =>
        { s with
          objects := s.objects.set object ⟨fwd, number⟩
          freeThreads := rest
          working := object :: s.working }

/-- `MF_UnregisterSPForward`; the forward is gone for everyone who holds its id. -/
def unregister (s : QueryForwards) (fwd : Int) : QueryForwards :=
  { s with mngr := s.mngr.unregister fwd, held := s.held.filter fun h => h.1 ≠ fwd }

/-- `~MysqlThread` -/
def destroy (s : QueryForwards) (object : Nat) : QueryForwards :=
  match s.objects[object]? with
  | none => s
  | some thread =>
      if thread.fwd ≠ 0 then
        { s.unregister thread.fwd with
          unregistered := s.unregistered ++ [thread.number]
          hits := s.hits ++
            (s.held.filter fun h => h.1 = thread.fwd).map fun h => (thread.number, h.2) }
      else s

/-- `ShutdownThreading`, once the worker has stopped. -/
def shutdown (s : QueryForwards) : QueryForwards :=
  { (s.threadQueue ++ s.freeThreads).foldl destroy s with
    threadQueue := []
    freeThreads := []
    finished := s.finished ++ s.threadQueue.map s.number }

def step (s : QueryForwards) : ForwardEvent → Option QueryForwards
  | .threadQuery found => some (s.threadQuery found)
  | .terminate object cancel =>
      if object ∈ s.working then
        let s := { s with working := s.working.erase object }
        if cancel then
          some { s with
            freeThreads := object :: s.freeThreads
            finished := s.finished ++ [s.number object] }
        else some { s with threadQueue := object :: s.threadQueue }
      else none
  | .execute =>
      match s.executing, s.threadQueue with
      | none, object :: rest => some { s with threadQueue := rest, executing := some object }
      | _, _ => none
  | .handled =>
      match s.executing with
      | some object =>
          some { s with
            executing := none
            freeThreads := object :: s.freeThreads
            finished := s.finished ++ [s.number object] }
      | none => none
  | .shutdown => if s.working = [] ∧ s.executing = none then some s.shutdown else none
  | .registerElsewhere found =>
      let (fwd, mngr) := s.mngr.register found
      if fwd < 1 then some { s with mngr := mngr }
      else some { s with mngr := mngr, held := (fwd, .other) :: s.held }
  | .unregisterElsewhere id =>
      if (id, .other) ∈ s.held then some (s.unregister id) else none

structure Returned (s : QueryForwards) : Prop where
  once : ∀ n < s.issued, s.unregistered.count n = if n ∈ s.finished then 1 else 0
  held : (s.held.filterMap (·.2.number?)).length =
    ((List.range s.issued).filter (· ∉ s.finished)).length
  own : ∀ hit ∈ s.hits, hit.2 = .query hit.1

def AlwaysReturned (events : List ForwardEvent) : Prop :=
  ∀ front s, front <+: events → run step start front = some s → s.Returned

end QueryForwards

def ForwardEvent.ends : ForwardEvent → Bool
  | .handled | .terminate _ true => true
  | _ => false

namespace QueryForwards

/-! As long as no query has ended: every object is of the query of its own number. -/

structure Keeping (s : QueryForwards) (live : List Nat) : Prop where
  holds : s.mngr.Holds (s.held.map (·.1))
  queries : (s.held.filterMap (·.2.number?)).Perm live
  objects : ∀ fwd n, (fwd, ForwardOwner.query n) ∈ s.held → s.objects[n]? = some ⟨fwd, n⟩
  positive : ∀ h ∈ s.held, h.1 ≠ 0
  own : ∀ hit ∈ s.hits, hit.2 = .query hit.1

variable {s s' : QueryForwards} {live live' : List Nat} {n : Nat} {fwd : Int}

theorem Keeping.perm (h : s.Keeping live) (hperm : live.Perm live') : s.Keeping live' :=
  ⟨h.holds, h.queries.trans hperm, h.objects, h.positive, h.own⟩

theorem Keeping.holder (h : s.Keeping live) (hn : n ∈ live) :
    ∃ fwd, (fwd, ForwardOwner.query n) ∈ s.held := by
  obtain ⟨⟨fwd, owner⟩, hmem, howner⟩ := List.mem_filterMap.mp (h.queries.mem_iff.mpr hn)
  cases owner with
  | other => cases howner
  | query number =>
      obtain rfl : number = n := Option.some.inj howner
      exact ⟨fwd, hmem⟩

theorem filter_held {held : List (Int × ForwardOwner)} (hnodup : (held.map (·.1)).Nodup)
    {entry : Int × ForwardOwner} (hmem : entry ∈ held) :
    (held.filter fun h => h.1 = entry.1) = [entry] ∧
      held.Perm (entry :: held.filter fun h => h.1 ≠ entry.1) := by
  obtain ⟨front, back, rfl⟩ := List.append_of_mem hmem
  have hperm : (front ++ entry :: back).Perm (entry :: (front ++ back)) := List.perm_middle
  have hfresh : entry.1 ∉ (front ++ back).map (·.1) :=
    (List.nodup_cons.mp ((hperm.map (·.1)).nodup_iff.mp hnodup)).1
  have hne : ∀ h ∈ front ++ back, h.1 ≠ entry.1 := fun h hin heq =>
    hfresh (heq ▸ List.mem_map_of_mem hin)
  obtain ⟨hfront, hback⟩ := List.forall_mem_append.mp hne
  have hnone : ∀ {part : List (Int × ForwardOwner)}, (∀ h ∈ part, h.1 ≠ entry.1) →
      (part.filter fun h => h.1 = entry.1) = [] ∧
        (part.filter fun h => h.1 ≠ entry.1) = part := fun hpart =>
    ⟨List.filter_eq_nil_iff.mpr fun h hin => by simpa using hpart h hin,
      List.filter_eq_self.mpr fun h hin => by simpa using hpart h hin⟩
  rw [List.filter_append, List.filter_append, List.filter_cons_of_pos (by simp),
    List.filter_cons_of_neg (by simp), (hnone hfront).1, (hnone hfront).2, (hnone hback).1,
    (hnone hback).2]
  exact ⟨rfl, hperm⟩

theorem holds_unregister (hholds : s.mngr.Holds (s.held.map (·.1)))
    {entry : Int × ForwardOwner} (hmem : entry ∈ s.held) :
    (s.unregister entry.1).mngr.Holds ((s.unregister entry.1).held.map (·.1)) := by
  have hperm := ((filter_held hholds.nodup hmem).2.map (·.1)).symm
  refine (hholds.unregister (List.mem_map_of_mem hmem)).perm (List.Perm.symm ?_)
  rw [List.map_cons] at hperm
  exact List.Perm.cons_inv (hperm.trans (List.perm_cons_erase (List.mem_map_of_mem hmem)))

theorem destroy_eq (h : s.Keeping live) (hheld : (fwd, ForwardOwner.query n) ∈ s.held) :
    s.destroy n = { s.unregister fwd with
      unregistered := s.unregistered ++ [n]
      hits := s.hits ++ [(n, .query n)] } := by
  have hgone := (filter_held h.holds.nodup hheld).1
  rw [destroy, h.objects fwd n hheld]
  dsimp only
  rw [if_pos (h.positive _ hheld), hgone]
  rfl

def released (s : QueryForwards) (mngr : SpForwards) (held : List (Int × ForwardOwner))
    (numbers : List Nat) (hits : List (Nat × ForwardOwner)) : QueryForwards :=
  { s with
    mngr := mngr, held := held, unregistered := s.unregistered ++ numbers, hits := hits }

theorem Keeping.destroy (h : s.Keeping (n :: live)) :
    ∃ mngr held hits, s.destroy n = s.released mngr held [n] hits ∧
      (s.destroy n).Keeping live := by
  obtain ⟨fwd, hheld⟩ := h.holder (List.mem_cons_self ..)
  have hperm := (filter_held h.holds.nodup hheld).2
  have heq := destroy_eq h hheld
  refine ⟨_, _, _, heq, heq ▸ ⟨holds_unregister h.holds hheld, ?_, fun other k hmem => ?_,
    fun e hmem => ?_, fun hit hmem => ?_⟩⟩
  · have hnumbers := (hperm.filterMap (·.2.number?)).symm.trans h.queries
    exact List.Perm.cons_inv hnumbers
  · exact h.objects other k (List.mem_filter.mp hmem).1
  · exact h.positive e (List.mem_filter.mp hmem).1
  · rcases List.mem_append.mp hmem with hold | hnew
    · exact h.own hit hold
    · rw [List.mem_singleton.mp hnew]

theorem Keeping.destroyAll {objects : List Nat} (h : s.Keeping (objects ++ live)) :
    ∃ mngr held hits, objects.foldl QueryForwards.destroy s = s.released mngr held objects hits ∧
      (objects.foldl QueryForwards.destroy s).Keeping live := by
  induction objects generalizing s with
  | nil =>
      refine ⟨s.mngr, s.held, s.hits, ?_, h⟩
      rw [released, List.append_nil]
      rfl
  | cons n rest ih =>
      obtain ⟨mngr, held, hits, heq, hkeep⟩ := h.destroy
      obtain ⟨mngr', held', hits', heq', hkeep'⟩ := ih hkeep
      refine ⟨mngr', held', hits', ?_, hkeep'⟩
      rw [List.foldl_cons, heq', heq, released, released, released, List.append_assoc]
      rfl

def outstanding (s : QueryForwards) : List Nat :=
  s.threadQueue ++ s.working ++ s.executing.toList

structure Unended (s : QueryForwards) : Prop where
  keeping : s.Keeping s.outstanding
  free : s.freeThreads = []
  objects : s.objects.length = s.issued
  numbers : ∀ object < s.issued, s.number object = object
  places : (s.outstanding ++ s.finished).Perm (List.range s.issued)
  unregistered : s.unregistered = s.finished

namespace Unended

theorem start : QueryForwards.start.Unended where
  keeping := ⟨SpForwards.holds_nil, List.Perm.nil, fun _ _ h => absurd h List.not_mem_nil,
    fun _ h => absurd h List.not_mem_nil, fun _ h => absurd h List.not_mem_nil⟩
  free := rfl
  objects := rfl
  numbers := fun object h => absurd h (Nat.not_lt_zero object)
  places := List.Perm.nil
  unregistered := rfl

theorem lt_issued (h : s.Unended) (hn : n ∈ s.outstanding ++ s.finished) : n < s.issued :=
  List.mem_range.mp (h.places.mem_iff.mp hn)

theorem nodup (h : s.Unended) : (s.outstanding ++ s.finished).Nodup :=
  h.places.nodup_iff.mpr List.nodup_range

theorem returned (h : s.Unended) : s.Returned where
  once := by
    intro n hn
    rw [h.unregistered]
    split
    next hmem => exact List.count_eq_one_of_mem (List.nodup_append.mp h.nodup).2.1 hmem
    next hnot => exact List.count_eq_zero_of_not_mem hnot
  held := by
    have hdisjoint := (List.nodup_append.mp h.nodup).2.2
    have hleft : s.outstanding.filter (· ∉ s.finished) = s.outstanding :=
      List.filter_eq_self.mpr fun n hn =>
        decide_eq_true fun hover => hdisjoint n hn n hover rfl
    have hright : s.finished.filter (· ∉ s.finished) = [] :=
      List.filter_eq_nil_iff.mpr fun n hn => by simpa using hn
    have hperm := h.places.filter (· ∉ s.finished)
    rw [List.filter_append, hleft, hright, List.append_nil] at hperm
    exact (h.keeping.queries.trans hperm).length_eq
  own := h.keeping.own

theorem withMngr (h : s.Unended) {mngr : SpForwards} (hholds : mngr.Holds (s.held.map (·.1))) :
    { s with mngr := mngr }.Unended := by
  have hkeep := h.keeping
  exact ⟨⟨hholds, hkeep.queries, hkeep.objects, hkeep.positive, hkeep.own⟩, h.free, h.objects,
    h.numbers, h.places, h.unregistered⟩

theorem moved (h : s.Unended) {threadQueue working : List Nat} {executing : Option Nat}
    (hperm : s.outstanding.Perm (threadQueue ++ working ++ executing.toList)) :
    { s with threadQueue := threadQueue, working := working, executing := executing }.Unended := by
  have hkeep := h.keeping.perm hperm
  exact ⟨⟨hkeep.holds, hkeep.queries, hkeep.objects, hkeep.positive, hkeep.own⟩, h.free, h.objects,
    h.numbers, (hperm.append_right s.finished).symm.trans h.places, h.unregistered⟩

theorem threadQuery (h : s.Unended) (found : Bool) : (s.threadQuery found).Unended := by
  have hkeep := h.keeping
  rw [QueryForwards.threadQuery]
  cases found with
  | false =>
      obtain ⟨hid, hholds⟩ := hkeep.holds.register_missing
      generalize s.mngr.register false = registered at hid hholds
      obtain ⟨fwd, mngr⟩ := registered
      obtain rfl : fwd = -1 := hid
      exact h.withMngr hholds
  | true =>
      obtain ⟨hpos, hholds⟩ := hkeep.holds.register_found
      generalize s.mngr.register true = registered at hpos hholds
      obtain ⟨fwd, mngr⟩ := registered
      have hnew : s.objects.length = s.issued := h.objects
      have hlast : (s.objects ++ [⟨fwd, s.issued⟩])[s.issued]? = some ⟨fwd, s.issued⟩ := by
        rw [← hnew]
        exact List.getElem?_concat_length
      have hearlier : ∀ {k : Nat} {thread : ThreadForward}, s.objects[k]? = some thread →
          (s.objects ++ [⟨fwd, s.issued⟩])[k]? = some thread := fun hk => by
        rwa [List.getElem?_append_left (List.getElem?_eq_some_iff.mp hk).1]
      have hperm : ((s.threadQueue ++ s.objects.length :: s.working) ++ s.executing.toList).Perm
          (s.issued :: s.outstanding) := by
        rw [hnew, outstanding, List.append_assoc, List.append_assoc, List.cons_append]
        exact List.perm_middle
      dsimp only
      rw [if_neg (by omega), h.free]
      refine ⟨⟨hholds, ?_, fun other n hmem => ?_, fun e hmem => ?_, hkeep.own⟩, rfl, ?_, ?_, ?_,
        h.unregistered⟩
      · exact (hkeep.queries.cons s.issued).trans hperm.symm
      · rcases List.mem_cons.mp hmem with heq | hold
        · cases heq
          exact hlast
        · exact hearlier (hkeep.objects other n hold)
      · rcases List.mem_cons.mp hmem with rfl | hold
        · exact (ne_of_gt hpos)
        · exact hkeep.positive e hold
      · change (s.objects ++ [_]).length = s.issued + 1
        rw [List.length_append, hnew, List.length_singleton]
      · intro object hlt
        change (match (s.objects ++ [⟨fwd, s.issued⟩])[object]? with
          | some thread => thread.number
          | none => 0) = object
        rcases Nat.lt_or_eq_of_le (Nat.le_of_lt_succ hlt) with hless | rfl
        · rw [List.getElem?_append_left (hnew ▸ hless)]
          exact h.numbers object hless
        · rw [hlast]
      · refine (hperm.append_right s.finished).trans ?_
        rw [List.range_succ, List.cons_append]
        exact (h.places.cons s.issued).trans (List.perm_append_singleton _ _).symm

theorem registerElsewhere (h : s.Unended) (found : Bool)
    (hstep : s.step (.registerElsewhere found) = some s') : s'.Unended := by
  have hkeep := h.keeping
  rw [step] at hstep
  cases found with
  | false =>
      obtain ⟨hid, hholds⟩ := hkeep.holds.register_missing
      generalize s.mngr.register false = registered at hid hholds hstep
      obtain ⟨fwd, mngr⟩ := registered
      obtain rfl : fwd = -1 := hid
      obtain rfl := Option.some.inj hstep
      exact h.withMngr hholds
  | true =>
      obtain ⟨hpos, hholds⟩ := hkeep.holds.register_found
      generalize s.mngr.register true = registered at hpos hholds hstep
      obtain ⟨fwd, mngr⟩ := registered
      dsimp only at hstep hpos
      rw [if_neg (by omega)] at hstep
      obtain rfl := Option.some.inj hstep
      refine ⟨⟨hholds, hkeep.queries, fun other n hmem => ?_, fun e hmem => ?_, hkeep.own⟩,
        h.free, h.objects, h.numbers, h.places, h.unregistered⟩
      · rcases List.mem_cons.mp hmem with heq | hold
        · cases heq
        · exact hkeep.objects other n hold
      · rcases List.mem_cons.mp hmem with rfl | hold
        · exact (ne_of_gt hpos)
        · exact hkeep.positive e hold

theorem unregisterElsewhere (h : s.Unended) {id : Int} (hheld : (id, ForwardOwner.other) ∈ s.held) :
    (s.unregister id).Unended := by
  have hkeep := h.keeping
  have hperm := (filter_held hkeep.holds.nodup hheld).2.filterMap (·.2.number?)
  refine ⟨⟨holds_unregister hkeep.holds hheld, hperm.symm.trans hkeep.queries,
    fun other n hmem => ?_, fun e hmem => ?_, hkeep.own⟩, h.free, h.objects, h.numbers, h.places,
    h.unregistered⟩
  · exact hkeep.objects other n (List.mem_filter.mp hmem).1
  · exact hkeep.positive e (List.mem_filter.mp hmem).1

theorem shutdown (h : s.Unended) (hworking : s.working = []) (hexecuting : s.executing = none) :
    s.shutdown.Unended := by
  have houtstanding : s.outstanding = s.threadQueue := by
    rw [outstanding, hworking, hexecuting, List.append_nil, Option.toList_none, List.append_nil]
  have hkeep : s.Keeping (s.threadQueue ++ []) := by
    rw [List.append_nil, ← houtstanding]
    exact h.keeping
  obtain ⟨mngr, held, hits, heq, hkept⟩ := hkeep.destroyAll
  have hnumbers : s.threadQueue.map s.number = s.threadQueue := by
    refine (List.map_congr_left fun object hmem => h.numbers object ?_).trans (List.map_id' _)
    exact h.lt_issued (List.mem_append_left _ (houtstanding ▸ hmem))
  have hempty : (s.shutdown).outstanding = [] := by
    rw [outstanding, QueryForwards.shutdown, h.free, List.append_nil, heq]
    change [] ++ s.working ++ s.executing.toList = []
    rw [hworking, hexecuting]
    rfl
  have hover : s.shutdown.finished = s.finished ++ s.threadQueue :=
    congrArg (s.finished ++ ·) hnumbers
  have hframe : s.shutdown.unregistered = s.finished ++ s.threadQueue ∧
      s.shutdown.objects = s.objects ∧ s.shutdown.issued = s.issued ∧
      s.shutdown.mngr = mngr ∧ s.shutdown.held = held ∧ s.shutdown.hits = hits := by
    rw [QueryForwards.shutdown, h.free, List.append_nil, heq, ← h.unregistered]
    exact ⟨rfl, rfl, rfl, rfl, rfl, rfl⟩
  obtain ⟨hunregistered, hobjects, hissued, hmngr, hheld, hhits⟩ := hframe
  rw [heq] at hkept
  refine ⟨⟨?_, ?_, ?_, ?_, ?_⟩, rfl, ?_, fun object hlt => ?_, ?_, ?_⟩
  · rw [hmngr, hheld]; exact hkept.holds
  · rw [hempty, hheld]; exact hkept.queries
  · rw [hobjects, hheld]; exact hkept.objects
  · rw [hheld]; exact hkept.positive
  · rw [hhits]; exact hkept.own
  · rw [hobjects, hissued]; exact h.objects
  · rw [number, hobjects]; exact h.numbers object (hissued ▸ hlt)
  · rw [hempty, hover, hissued, List.nil_append]
    exact (List.perm_append_comm.trans (houtstanding ▸ List.Perm.refl _)).trans h.places
  · rw [hunregistered, hover]

theorem step (h : s.Unended) {event : ForwardEvent} (hends : event.ends = false)
    (hstep : s.step event = some s') : s'.Unended := by
  cases event with
  | threadQuery found =>
      obtain rfl := Option.some.inj hstep
      exact h.threadQuery found
  | terminate object cancel =>
      cases cancel with
      | true => cases hends
      | false =>
          rw [QueryForwards.step] at hstep
          split at hstep
          next hworks =>
            obtain rfl := Option.some.inj hstep
            refine h.moved ?_
            rw [outstanding]
            refine List.Perm.append_right _ ?_
            exact ((List.perm_cons_erase hworks).append_left _).trans List.perm_middle
          next => cases hstep
  | execute =>
      rw [QueryForwards.step] at hstep
      split at hstep
      next object rest hexecuting hqueue =>
        obtain rfl := Option.some.inj hstep
        refine h.moved ?_
        rw [outstanding, hqueue, hexecuting, Option.toList_none, List.append_nil,
          Option.toList_some, List.cons_append]
        exact (List.perm_append_singleton _ _).symm
      next => cases hstep
  | handled => cases hends
  | shutdown =>
      rw [QueryForwards.step] at hstep
      split at hstep
      next hstopped =>
        obtain rfl := Option.some.inj hstep
        exact h.shutdown hstopped.1 hstopped.2
      next => cases hstep
  | registerElsewhere found => exact h.registerElsewhere found hstep
  | unregisterElsewhere id =>
      rw [QueryForwards.step] at hstep
      split at hstep
      next hheld =>
        obtain rfl := Option.some.inj hstep
        exact h.unregisterElsewhere hheld
      next => cases hstep

theorem not_returned (h : s.Unended) {event : ForwardEvent} (hends : event.ends = true)
    (hstep : s.step event = some s') : ¬ s'.Returned := by
  have hleft : ∀ n ∈ s.outstanding, n < s.issued ∧ s.number n = n ∧ s.unregistered.count n = 0 := by
    intro n hn
    have hlt := h.lt_issued (List.mem_append_left _ hn)
    refine ⟨hlt, h.numbers n hlt, List.count_eq_zero_of_not_mem fun hmem => ?_⟩
    exact (List.nodup_append.mp h.nodup).2.2 n hn n (h.unregistered ▸ hmem) rfl
  -- the number of the query is among those that are over, and not among the unregistered
  have hmissing : ∀ {n}, n ∈ s.outstanding → s'.issued = s.issued →
      s'.finished = s.finished ++ [s.number n] → s'.unregistered = s.unregistered →
        ¬ s'.Returned := by
    intro n hn hissued hover hunregistered hreturned
    obtain ⟨hlt, hnumber, hcount⟩ := hleft n hn
    have honce := hreturned.once n (hissued ▸ hlt)
    rw [hunregistered, hcount, hover, hnumber, if_pos (by simp)] at honce
    cases honce
  cases event with
  | terminate object cancel =>
      cases cancel with
      | false => cases hends
      | true =>
          rw [QueryForwards.step] at hstep
          split at hstep
          next hworks =>
            obtain rfl := Option.some.inj hstep
            refine hmissing (n := object) ?_ rfl rfl rfl
            exact List.mem_append_left _ (List.mem_append_right _ hworks)
          next => cases hstep
  | handled =>
      rw [QueryForwards.step] at hstep
      split at hstep
      next object hexecuting =>
        obtain rfl := Option.some.inj hstep
        refine hmissing (n := object) ?_ rfl rfl rfl
        rw [outstanding, hexecuting]
        exact List.mem_append_right _ (List.mem_singleton_self object)
      next => cases hstep
  | threadQuery _ | execute | shutdown | registerElsewhere _ | unregisterElsewhere _ => cases hends

end Unended

theorem unended_run {events : List ForwardEvent} {s : QueryForwards}
    (hevents : ∀ event ∈ events, event.ends = false)
    (hrun : run step start events = some s) : s.Unended := by
  have hany : Meets step (fun _ _ => True) start events := meets_of_forall fun _ _ => trivial
  have hmeets := hany.and_forall hevents
  exact run_invariant (I := Unended) (fun h hallowed hstep => h.step hallowed.2 hstep)
    Unended.start hmeets hrun

/-- The forwards come back exactly as long as no query ends. -/
theorem alwaysReturned_iff {events : List ForwardEvent} {s : QueryForwards}
    (hrun : run step start events = some s) :
    AlwaysReturned events ↔ ∀ event ∈ events, event.ends = false := by
  constructor
  · intro halways
    by_contra hnot
    obtain ⟨event, hnot⟩ := not_forall.mp hnot
    obtain ⟨hmem, hends⟩ := Classical.not_imp.mp hnot
    obtain ⟨first, hfirst⟩ : ∃ first, events.find? ForwardEvent.ends = some first :=
      Option.isSome_iff_exists.mp (List.find?_isSome.mpr
        ⟨event, hmem, by simpa using hends⟩)
    obtain ⟨hends, front, back, rfl, hfront⟩ := List.find?_eq_some_iff_append.mp hfirst
    have hbefore : ∀ event ∈ front, event.ends = false := fun event hin => by
      simpa using hfront event hin
    rw [run_append] at hrun
    obtain ⟨middle, hmiddle, hrest⟩ := Option.bind_eq_some_iff.mp hrun
    obtain ⟨after, hafter, -⟩ := run_cons_eq_some.mp hrest
    refine (unended_run hbefore hmiddle).not_returned hends hafter
      (halways (front ++ [first]) after ?_ ?_)
    · exact ⟨back, by rw [List.append_assoc, List.singleton_append]⟩
    · rw [run_append, hmiddle, Option.bind_some, run_cons_eq_some]
      exact ⟨after, hafter, rfl⟩
  · intro hevents front s hfront hreach
    exact (unended_run (fun event hin => hevents event (hfront.subset hin)) hreach).returned

theorem alwaysReturned_unanswered :
    AlwaysReturned [.threadQuery true, .threadQuery false, .terminate 0 false, .execute] :=
  (alwaysReturned_iff (s := _) rfl).mpr (by decide)

/-- A handler that has run keeps its forward. -/
theorem not_returned_handled :
    ¬ ∀ events s, run step start events = some s → AlwaysReturned events := by
  intro h
  have hreturned := h [.threadQuery true, .terminate 0 false, .execute, .handled] _ rfl _ _
    (List.prefix_refl _) rfl
  exact absurd (hreturned.once 0 (by decide)) (by decide)

end QueryForwards

end AmxModC.Sql
