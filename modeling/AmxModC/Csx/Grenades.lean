import AmxModC.Foundation.Cursor
import AmxModC.Foundation.DoublyLinked
import AmxModC.Foundation.Run
import Mathlib.Order.Nat
import Mathlib.Data.List.Range
import Mathlib.Data.List.Perm.Subperm
import Mathlib.Data.List.Nodup

namespace AmxModC.Csx

open Foundation

/-! The registry of thrown grenades: a doubly linked list, swept by every search. -/

universe u v w

/-- What is recorded of a thrown grenade; `time` is when the record expires. -/
structure Registration (Edict : Type u) (Player : Type v) (Time : Type w) where
  player : Player
  grenade : Edict
  time : Time
  type : Int
  deriving DecidableEq

/-- `Grenades::Obj` -/
structure Obj (Edict : Type u) (Player : Type v) (Time : Type w) extends
    Registration Edict Player Time where
  next : Option Nat
  prev : Option Nat

/-- `fresh` is the address of the next object. -/
structure Grenades (Edict : Type u) (Player : Type v) (Time : Type w) where
  head : Option Nat
  heap : Nat → Option (Obj Edict Player Time)
  fresh : Nat

section

variable {Edict : Type u} {Player : Type v} {Time : Type w}

namespace Grenades

def empty : Grenades Edict Player Time := ⟨none, fun _ => none, 0⟩

def modify (s : Grenades Edict Player Time) (a : Nat)
    (change : Obj Edict Player Time → Obj Edict Player Time) :
    Option (Grenades Edict Player Time) :=
  if (s.heap a).isSome then some { s with heap := write s.heap (some a) change } else none

/-- `new Obj`, with its members -/
def alloc (s : Grenades Edict Player Time) (obj : Obj Edict Player Time) :
    Grenades Edict Player Time :=
  { s with
    heap := fun address => if address = s.fresh then some obj else s.heap address
    fresh := s.fresh + 1 }

def put (s : Grenades Edict Player Time) (r : Registration Edict Player Time) :
    Option (Grenades Edict Player Time) := do
  let a := s.fresh
  let s := s.alloc { r with next := s.head, prev := none }
  let s ←
    match s.head with
    | some first => s.modify first fun node => { node with prev := some a }
    | none => some s
  some { s with head := some a }

def delete (s : Grenades Edict Player Time) (a : Nat) : Grenades Edict Player Time :=
  { s with heap := fun other => if other = a then none else s.heap other }

/-- The branch of `find` that takes an object out. -/
def remove (s : Grenades Edict Player Time) (a : Nat) : Option (Grenades Edict Player Time) := do
  let obj ← s.heap a
  let s ←
    match obj.prev with
    | some above => s.modify above fun node => { node with next := obj.next }
    | none => some { s with head := obj.next }
  let s ←
    match obj.next with
    | some next => s.modify next fun node => { node with prev := obj.prev }
    | none => some s
  some (s.delete a)

def clearLoop : Nat → Grenades Edict Player Time → Option (Grenades Edict Player Time)
  | 0, s => if s.head = none then some s else none
  | fuel + 1, s =>
      match s.head with
      | none => some s
      | some a => do
          let obj ← s.heap a
          clearLoop fuel { s.delete a with head := obj.next }

def clear (s : Grenades Edict Player Time) : Option (Grenades Edict Player Time) :=
  clearLoop s.fresh s

def follow (s : Grenades Edict Player Time) :
    Nat → Option Nat → Option (List (Registration Edict Player Time))
  | _, none => some []
  | 0, some _ => none
  | fuel + 1, some a => do
      let obj ← s.heap a
      let rest ← s.follow fuel obj.next
      return obj.toRegistration :: rest

def contents (s : Grenades Edict Player Time) : Option (List (Registration Edict Player Time)) :=
  s.follow s.fresh s.head

variable [LinearOrder Time] [DecidableEq Edict]

/-- `found` carries what is written through `p` and `type`. -/
def findLoop (now : Time) (enemy : Edict) :
    Nat → Grenades Edict Player Time → Option (Player × Int) → Option Nat →
      Option (Grenades Edict Player Time × Option (Player × Int))
  | _, s, found, none => some (s, found)
  | 0, _, _, some _ => none
  | fuel + 1, s, found, some a => do
      let obj ← s.heap a
      if now < obj.time ∧ found.isNone then
        let found := if obj.grenade = enemy then some (obj.player, obj.type) else found
        findLoop now enemy fuel s found obj.next
      else
        let s ← s.remove a
        findLoop now enemy fuel s found obj.next

def find (s : Grenades Edict Player Time) (now : Time) (enemy : Edict) :
    Option (Grenades Edict Player Time × Option (Player × Int)) :=
  findLoop now enemy s.fresh s none s.head

end Grenades

/-! The linked list. -/

def links : Neighbours Nat (Obj Edict Player Time) := ⟨Obj.prev, Obj.next⟩

structure Linked (s : Grenades Edict Player Time)
    (nodes : List (Nat × Registration Edict Player Time)) : Prop where
  nodup : (nodes.map Prod.fst).Nodup
  bound : ∀ a ∈ nodes.map Prod.fst, a < s.fresh
  head : s.head = (nodes.map Prod.fst).head?
  segment : Segment links s.heap none (nodes.map Prod.fst) none
  entries : ∀ node ∈ nodes, (s.heap node.1).map Obj.toRegistration = some node.2

namespace Linked

variable {s : Grenades Edict Player Time} {a : Nat} {r : Registration Edict Player Time}
  {nodes before after : List (Nat × Registration Edict Player Time)}

theorem empty : Linked (Grenades.empty : Grenades Edict Player Time) [] :=
  ⟨.nil, by simp, rfl, trivial, by simp⟩

theorem length_le (h : Linked s nodes) : nodes.length ≤ s.fresh := by
  have hsubset : nodes.map Prod.fst ⊆ List.range s.fresh := fun a ha =>
    List.mem_range.mpr (h.bound a ha)
  have hle := (h.nodup.subperm hsubset).length_le
  simpa using hle

theorem isSome (h : Linked s nodes) (hmem : (a, r) ∈ nodes) : (s.heap a).isSome :=
  h.segment.isSome (List.mem_map_of_mem hmem)

theorem middle (h : Linked s (before ++ (a, r) :: after)) :
    ∃ obj, s.heap a = some obj ∧ obj.toRegistration = r ∧
      obj.prev = (before.map Prod.fst).getLast? ∧ obj.next = (after.map Prod.fst).head? := by
  have hsegment := h.segment
  rw [List.map_append, List.map_cons] at hsegment
  obtain ⟨obj, hobj, hprev, hnext⟩ := hsegment.middle
  have hentry := h.entries (a, r) (List.mem_append_right _ List.mem_cons_self)
  rw [hobj] at hentry
  exact ⟨obj, hobj, Option.some.inj hentry, hprev.trans Option.or_none,
    hnext.trans Option.or_none⟩

theorem contents (h : Linked s nodes) : s.contents = some (nodes.map Prod.snd) := by
  have hfollow : ∀ {fuel : Nat} {before after : List (Nat × Registration Edict Player Time)},
      Linked s (before ++ after) → after.length ≤ fuel →
        s.follow fuel (after.map Prod.fst).head? = some (after.map Prod.snd) := by
    intro fuel before after h hfuel
    induction after generalizing fuel before with
    | nil => cases fuel <;> rfl
    | cons node after ih =>
        obtain ⟨a, r⟩ := node
        obtain ⟨fuel, rfl⟩ := Nat.exists_eq_add_one.mpr (Nat.zero_lt_of_lt hfuel)
        obtain ⟨obj, hobj, rfl, -, hnext⟩ := h.middle
        have hpast : Linked s (before ++ [(a, obj.toRegistration)] ++ after) := by simpa using h
        have hrest := ih hpast (Nat.le_of_succ_le_succ hfuel)
        rw [← hnext] at hrest
        simp [Grenades.follow, hobj, hrest]
  rw [Grenades.contents, h.head]
  have hall : Linked s ([] ++ nodes) := h
  exact hfollow hall h.length_le

end Linked

namespace Grenades

variable {s : Grenades Edict Player Time} {a : Nat} {r : Registration Edict Player Time}
  {nodes before after : List (Nat × Registration Edict Player Time)}
  {change : Obj Edict Player Time → Obj Edict Player Time}

theorem modify_eq (h : (s.heap a).isSome) :
    s.modify a change = some { s with heap := write s.heap (some a) change } := if_pos h

theorem alloc_other (obj : Obj Edict Player Time) (h : a < s.fresh) :
    (s.alloc obj).heap a = s.heap a := if_neg h.ne

theorem alloc_fresh {obj : Obj Edict Player Time} : (s.alloc obj).heap s.fresh = some obj :=
  if_pos rfl

theorem put_eq (h : Linked s nodes) :
    s.put r = some
      { s.alloc { r with next := s.head, prev := none } with
        head := some s.fresh
        heap := write (s.alloc { r with next := s.head, prev := none }).heap
          (nodes.map Prod.fst).head? fun node => { node with prev := some s.fresh } } := by
  have hhead : (s.alloc { r with next := s.head, prev := none }).head =
      (nodes.map Prod.fst).head? := h.head
  simp only [put, hhead]
  cases nodes with
  | nil => rfl
  | cons node rest =>
      have hsome := h.isSome (List.mem_cons_self : node ∈ node :: rest)
      rw [← alloc_other { r with next := s.head, prev := none }
        (h.bound node.1 List.mem_cons_self)] at hsome
      simp only [List.map_cons, List.head?_cons, modify_eq hsome]
      rfl

theorem linked_put (h : Linked s nodes) :
    ∃ s', s.put r = some s' ∧ Linked s' ((s.fresh, r) :: nodes) := by
  have hfresh : s.fresh ∉ nodes.map Prod.fst := fun hmem => Nat.lt_irrefl _ (h.bound _ hmem)
  have hhead : (nodes.map Prod.fst).head? ≠ some s.fresh := fun heq =>
    hfresh (List.mem_of_head? heq)
  have hnew : write (s.alloc { r with next := s.head, prev := none }).heap
      (nodes.map Prod.fst).head? (fun node => { node with prev := some s.fresh }) s.fresh =
        some { r with next := s.head, prev := none } := (write_other hhead).trans alloc_fresh
  refine ⟨_, put_eq h, List.nodup_cons.mpr ⟨hfresh, h.nodup⟩, ?_, rfl, ⟨⟨_, hnew, rfl, ?_⟩, ?_⟩, ?_⟩
  · intro a ha
    rcases List.mem_cons.mp ha with rfl | ha
    · exact Nat.lt_succ_self _
    · exact Nat.lt_succ_of_lt (h.bound a ha)
  · exact h.head.trans Option.or_none.symm
  · have hsegment := h.segment.congr fun a ha =>
      alloc_other { r with next := s.head, prev := none } (h.bound a ha)
    exact hsegment.write_head? h.nodup (fun _ => rfl) (fun _ => rfl)
  · intro node hnode
    rcases List.mem_cons.mp hnode with rfl | hnode
    · exact congrArg (Option.map Obj.toRegistration) hnew
    · have hold := alloc_other { r with next := s.head, prev := none }
        (h.bound _ (List.mem_map_of_mem hnode))
      rw [← h.entries node hnode, ← hold]
      exact map_write fun _ => rfl

def linkedOut (heap : Nat → Option (Obj Edict Player Time)) (above below : List Nat) :
    Nat → Option (Obj Edict Player Time) :=
  write (write heap above.getLast? fun node => { node with next := below.head? })
    below.head? fun node => { node with prev := above.getLast? }

theorem remove_eq (h : Linked s (before ++ (a, r) :: after)) :
    s.remove a = some (delete
      { s with
        head := (before.map Prod.fst ++ after.map Prod.fst).head?
        heap := linkedOut s.heap (before.map Prod.fst) (after.map Prod.fst) } a) := by
  obtain ⟨obj, hobj, -, hprev, hnext⟩ := h.middle
  have hbelow : ∀ x, (after.map Prod.fst).head? = some x → (s.heap x).isSome := by
    intro x hx
    apply h.segment.isSome
    rw [List.map_append, List.map_cons]
    exact List.mem_append_right _ (List.mem_cons_of_mem _ (List.mem_of_head? hx))
  have habove : ∀ x, (before.map Prod.fst).getLast? = some x → (s.heap x).isSome := by
    intro x hx
    apply h.segment.isSome
    rw [List.map_append]
    exact List.mem_append_left _ (List.mem_of_getLast? hx)
  have hhead := h.head
  rw [List.map_append, List.map_cons] at hhead
  generalize before.map Prod.fst = front at *
  generalize after.map Prod.fst = back at *
  obtain rfl | ⟨first, p, rfl⟩ := List.eq_nil_or_concat' front
  · cases back with
    | nil => simp [remove, hobj, hprev, hnext, linkedOut, write_none]
    | cons q rest =>
        have hq := hbelow q rfl
        simp [remove, hobj, hprev, hnext, linkedOut, write_none, modify, hq]
  · have hp := habove p List.getLast?_concat
    have hsame : (first ++ [p] ++ back).head? = s.head := by
      rw [hhead, List.append_assoc, List.append_assoc]
      cases first <;> rfl
    rw [hsame]
    cases back with
    | nil => simp [remove, hobj, hprev, hnext, linkedOut, write_none, modify, hp]
    | cons q rest =>
        have hq := hbelow q rfl
        simp [remove, hobj, hprev, hnext, linkedOut, modify, hp, hq, isSome_write]

theorem delete_other {x : Nat} (h : x ≠ a) : (s.delete a).heap x = s.heap x := if_neg h

theorem linked_remove (h : Linked s (before ++ (a, r) :: after)) :
    ∃ s', s.remove a = some s' ∧ Linked s' (before ++ after) := by
  have hsegment := h.segment
  have hnodup := h.nodup
  rw [List.map_append, List.map_cons] at hsegment hnodup
  obtain ⟨hbefore, -, hafter⟩ := Segment.append_iff.mp hsegment
  obtain ⟨hout, hboth⟩ := List.nodup_cons.mp (List.nodup_middle.mp hnodup)
  obtain ⟨hnodupBefore, hnodupAfter, hdisjoint⟩ := List.nodup_append.mp hboth
  rw [← List.map_append] at hboth hout
  have hlast : ∀ x ∈ after.map Prod.fst, (before.map Prod.fst).getLast? ≠ some x :=
    fun x hx heq => hdisjoint x (List.mem_of_getLast? heq) x hx rfl
  have hfirst : ∀ x ∈ before.map Prod.fst, (after.map Prod.fst).head? ≠ some x :=
    fun x hx heq => hdisjoint x hx x (List.mem_of_head? heq) rfl
  have hleft : ∀ node ∈ before ++ after, node ∈ before ++ (a, r) :: after := fun node hnode =>
    (List.mem_append.mp hnode).elim (List.mem_append_left _)
      fun hnode => List.mem_append_right _ (List.mem_cons_of_mem _ hnode)
  have hne : ∀ x ∈ (before ++ after).map Prod.fst, x ≠ a := fun x hx heq => hout (heq ▸ hx)
  refine ⟨_, remove_eq h, hboth, ?_, ?_, ?_, ?_⟩
  · intro x hx
    obtain ⟨node, hnode, rfl⟩ := List.mem_map.mp hx
    exact h.bound node.1 (List.mem_map_of_mem (hleft node hnode))
  · rw [List.map_append]
    rfl
  · apply Segment.congr _ fun x hx => delete_other (hne x hx)
    rw [List.map_append]
    refine Segment.append_iff.mpr ⟨?_, ?_⟩
    · apply Segment.write_outside _ hfirst
      exact hbefore.write_getLast? hnodupBefore (fun _ => rfl) fun _ => Option.or_none.symm
    · exact (hafter.write_outside hlast).write_head? hnodupAfter
        (fun _ => Option.or_none.symm) (fun _ => rfl)
  · intro node hnode
    rw [← h.entries node (hleft node hnode), delete_other (hne _ (List.mem_map_of_mem hnode))]
    refine Eq.trans (map_write ?_) (map_write ?_)
    all_goals exact fun _ => rfl

theorem clearLoop_eq {fuel : Nat} {list : List Nat} {above : Option Nat}
    (hsegment : Segment links s.heap above list none) (hnodup : list.Nodup)
    (hhead : s.head = list.head?) (hfuel : list.length ≤ fuel) :
    ∃ s', clearLoop fuel s = some s' ∧ s'.head = none := by
  induction list generalizing s above fuel with
  | nil => cases fuel <;> exact ⟨s, by simp [clearLoop, show s.head = none from hhead], hhead⟩
  | cons a rest ih =>
      obtain ⟨fuel, rfl⟩ := Nat.exists_eq_add_one.mpr (Nat.zero_lt_of_lt hfuel)
      obtain ⟨⟨obj, hobj, -, hnext⟩, hrest⟩ := hsegment
      obtain ⟨hnot, hnodup⟩ := List.nodup_cons.mp hnodup
      have hkept : Segment links (s.delete a).heap (some a) rest none :=
        hrest.congr fun x hx => delete_other fun heq => hnot (heq ▸ hx)
      have hnext : obj.next = rest.head? := hnext.trans Option.or_none
      obtain ⟨s', hloop, hnone⟩ := ih (s := { s.delete a with head := obj.next }) hkept hnodup
        hnext (Nat.le_of_succ_le_succ hfuel)
      exact ⟨s', by simp [clearLoop, show s.head = some a from hhead, hobj, hloop], hnone⟩

theorem linked_clear (h : Linked s nodes) : ∃ s', s.clear = some s' ∧ Linked s' [] := by
  obtain ⟨s', hclear, hnone⟩ := clearLoop_eq h.segment h.nodup h.head
    (by simpa using h.length_le)
  exact ⟨s', hclear, .nil, by simp, hnone, trivial, by simp⟩

end Grenades

/-! A search. -/

variable [LinearOrder Time] [DecidableEq Edict]

def unexpired (now : Time) (puts : List (Registration Edict Player Time)) :
    List (Registration Edict Player Time) :=
  puts.filter fun r => decide (now < r.time)

omit [DecidableEq Edict] in
theorem unexpired_unexpired {now t : Time} (h : now ≤ t)
    {puts : List (Registration Edict Player Time)} :
    unexpired t (unexpired now puts) = unexpired t puts := by
  unfold unexpired
  rw [List.filter_filter]
  apply List.filter_congr
  intro r _
  have hlt : t < r.time → now < r.time := h.trans_lt
  simpa using hlt

def registered (now : Time) (enemy : Edict) (puts : List (Registration Edict Player Time)) :
    Option (Registration Edict Player Time) :=
  (unexpired now puts).find? fun r => decide (r.grenade = enemy)

namespace Grenades

variable {s : Grenades Edict Player Time} {now : Time} {enemy : Edict} {fuel : Nat}
  {nodes before after : List (Nat × Registration Edict Player Time)}

theorem findLoop_some (now : Time) (enemy : Edict) (answer : Player × Int)
    (h : Linked s (before ++ after)) (hfuel : after.length ≤ fuel) :
    ∃ s', findLoop now enemy fuel s (some answer) (after.map Prod.fst).head? =
        some (s', some answer) ∧ Linked s' before := by
  induction after generalizing fuel s with
  | nil =>
      rw [List.append_nil] at h
      cases fuel <;> exact ⟨s, rfl, h⟩
  | cons node after ih =>
      obtain ⟨a, r⟩ := node
      obtain ⟨fuel, rfl⟩ := Nat.exists_eq_add_one.mpr (Nat.zero_lt_of_lt hfuel)
      obtain ⟨obj, hobj, -, -, hnext⟩ := h.middle
      obtain ⟨s₁, hremove, hlinked⟩ := linked_remove h
      obtain ⟨s', hloop, hlinked⟩ := ih hlinked (Nat.le_of_succ_le_succ hfuel)
      rw [← hnext] at hloop
      exact ⟨s', by simp [findLoop, hobj, hremove, hloop], hlinked⟩

theorem findLoop_none (h : Linked s (before ++ after)) (hfuel : after.length ≤ fuel) :
    ∃ s' left, findLoop now enemy fuel s none (after.map Prod.fst).head? =
        some (s', (registered now enemy (after.map Prod.snd)).map fun r => (r.player, r.type)) ∧
      Linked s' (before ++ left) ∧
      left.map Prod.snd =
        upTo (fun r => decide (r.grenade = enemy)) (unexpired now (after.map Prod.snd)) := by
  induction after generalizing fuel s before with
  | nil => cases fuel <;> exact ⟨s, [], rfl, h, rfl⟩
  | cons node after ih =>
      obtain ⟨a, r⟩ := node
      obtain ⟨fuel, rfl⟩ := Nat.exists_eq_add_one.mpr (Nat.zero_lt_of_lt hfuel)
      have hless := Nat.le_of_succ_le_succ hfuel
      obtain ⟨obj, hobj, rfl, -, hnext⟩ := h.middle
      by_cases htime : now < obj.time
      · have hpast : Linked s (before ++ [(a, obj.toRegistration)] ++ after) := by simpa using h
        by_cases hmatch : obj.grenade = enemy
        · obtain ⟨s', hloop, hlinked⟩ := findLoop_some now enemy (obj.player, obj.type) hpast hless
          rw [← hnext] at hloop
          refine ⟨s', [(a, obj.toRegistration)], ?_, hlinked, ?_⟩
          · simp [findLoop, hobj, htime, hmatch, hloop, registered, unexpired]
          · simp [unexpired, htime, upTo, hmatch]
        · obtain ⟨s', left, hloop, hlinked, hleft⟩ := ih hpast hless
          rw [← hnext] at hloop
          refine ⟨s', (a, obj.toRegistration) :: left, ?_, by simpa using hlinked, ?_⟩
          · simp [findLoop, hobj, htime, hmatch, hloop, registered, unexpired]
          · simpa [unexpired, htime, upTo, hmatch] using hleft
      · obtain ⟨s₁, hremove, hlinked⟩ := linked_remove h
        obtain ⟨s', left, hloop, hlinked, hleft⟩ := ih hlinked hless
        rw [← hnext] at hloop
        refine ⟨s', left, ?_, hlinked, ?_⟩
        · simp [findLoop, hobj, htime, hremove, hloop, registered, unexpired]
        · simpa [unexpired, htime] using hleft

theorem find_eq (h : Linked s nodes) (now : Time) (enemy : Edict) :
    ∃ s' left, s.find now enemy =
        some (s', (registered now enemy (nodes.map Prod.snd)).map fun r => (r.player, r.type)) ∧
      Linked s' left ∧
      left.map Prod.snd =
        upTo (fun r => decide (r.grenade = enemy)) (unexpired now (nodes.map Prod.snd)) := by
  unfold find
  rw [h.head]
  have hall : Linked s ([] ++ nodes) := h
  exact findLoop_none hall h.length_le

end Grenades

/-! Sessions: any calls, while the time goes on. -/

structure Session (Edict : Type u) (Player : Type v) (Time : Type w) where
  registry : Grenades Edict Player Time
  puts : List (Registration Edict Player Time)
  now : Time

inductive Event (Edict : Type u) (Player : Type v) (Time : Type w)
  | frame (now : Time)
  | put (grenade : Edict) (time : Time) (type : Int) (player : Player)
  | find (enemy : Edict)
  | clear

end

namespace Session

section

variable {Edict : Type u} {Player : Type v} {Time : Type w}

def start (now : Time) : Session Edict Player Time := ⟨.empty, [], now⟩

variable [LinearOrder Time] [Add Time] [DecidableEq Edict]

def step (σ : Session Edict Player Time) : Event Edict Player Time →
    Option (Session Edict Player Time)
  | .frame now => if σ.now ≤ now then some { σ with now } else none
  | .put grenade time type player => do
      let r := { player, grenade, time := σ.now + time, type }
      let registry ← σ.registry.put r
      return { σ with registry, puts := r :: σ.puts }
  | .find enemy => do
      let (registry, _) ← σ.registry.find σ.now enemy
      return { σ with registry }
  | .clear => do
      let registry ← σ.registry.clear
      return { σ with registry, puts := [] }

def Right (σ : Session Edict Player Time) : Event Edict Player Time → Prop
  | .find enemy =>
      (σ.registry.find σ.now enemy).map (fun result => (result.1.contents, result.2)) =
        some (some (unexpired σ.now σ.puts),
          (registered σ.now enemy σ.puts).map fun r => (r.player, r.type))
  | .frame _ => True
  | event => (σ.step event).isSome

def Earliest (σ : Session Edict Player Time) : Event Edict Player Time → Prop
  | .find enemy =>
      ((unexpired σ.now σ.puts).dropWhile fun r => decide (r.grenade ≠ enemy)).tail = []
  | _ => True

theorem upTo_eq_self_iff {α : Type*} {p : α → Bool} {list : List α} :
    upTo p list = list ↔ (list.dropWhile fun a => !p a).tail = [] := by
  induction list with
  | nil => simp
  | cons a rest ih =>
      cases hp : p a with
      | true => simp [upTo, hp, eq_comm]
      | false => simpa [upTo, hp] using ih

def Keeps (σ : Session Edict Player Time) : Prop :=
  ∃ nodes, Linked σ.registry nodes ∧
    ∀ t, σ.now ≤ t → unexpired t (nodes.map Prod.snd) = unexpired t σ.puts

omit [Add Time] [DecidableEq Edict] in
theorem keeps_start (now : Time) : (start now : Session Edict Player Time).Keeps :=
  ⟨[], .empty, fun _ _ => rfl⟩

variable {σ σ' : Session Edict Player Time} {event : Event Edict Player Time}

theorem Keeps.right_iff (h : σ.Keeps) : σ.Right event ↔ σ.Earliest event := by
  obtain ⟨nodes, hlinked, hputs⟩ := h
  cases event with
  | frame now => exact Iff.rfl
  | put grenade time type player =>
      obtain ⟨s', hput, -⟩ := Grenades.linked_put hlinked
        (r := { player, grenade, time := σ.now + time, type })
      simp [Right, Earliest, step, hput]
  | clear =>
      obtain ⟨s', hclear, -⟩ := Grenades.linked_clear hlinked
      simp [Right, Earliest, step, hclear]
  | find enemy =>
      obtain ⟨s', left, hfind, hleft, hcontents⟩ :=
        Grenades.find_eq hlinked σ.now enemy
      have hnow := hputs σ.now le_rfl
      simp only [Right, Earliest, hfind, Option.map_some, hleft.contents, hcontents, registered,
        hnow, Option.some.injEq, Prod.mk.injEq, and_true]
      rw [upTo_eq_self_iff]
      simp

theorem Keeps.step (h : σ.Keeps) (hearliest : σ.Earliest event)
    (hstep : σ.step event = some σ') : σ'.Keeps := by
  obtain ⟨nodes, hlinked, hputs⟩ := h
  cases event with
  | frame now =>
      simp only [Session.step] at hstep
      split at hstep
      next hle =>
        cases hstep
        exact ⟨nodes, hlinked, fun t ht => hputs t (hle.trans ht)⟩
      next => cases hstep
  | put grenade time type player =>
      obtain ⟨s', hput, hlinked'⟩ := Grenades.linked_put hlinked
        (r := { player, grenade, time := σ.now + time, type })
      simp only [Session.step, hput] at hstep
      cases hstep
      refine ⟨_, hlinked', fun t ht => ?_⟩
      have ht := hputs t ht
      simp only [unexpired, List.map_cons, List.filter_cons] at ht ⊢
      rw [ht]
  | clear =>
      obtain ⟨s', hclear, hlinked'⟩ := Grenades.linked_clear hlinked
      simp only [Session.step, hclear] at hstep
      cases hstep
      exact ⟨[], hlinked', fun _ _ => rfl⟩
  | find enemy =>
      obtain ⟨s', left, hfind, hlinked', hcontents⟩ :=
        Grenades.find_eq hlinked σ.now enemy
      simp only [Session.step, hfind] at hstep
      cases hstep
      refine ⟨left, hlinked', fun t ht => ?_⟩
      have hall : upTo (fun r => decide (r.grenade = enemy)) (unexpired σ.now σ.puts) =
          unexpired σ.now σ.puts := upTo_eq_self_iff.mpr (by simpa [Earliest] using hearliest)
      rw [hcontents, hputs σ.now le_rfl, hall, unexpired_unexpired ht]

/-- A search that finds a grenade is right exactly when nothing put before that grenade
is still unexpired: everything behind the match is deleted. -/
theorem meets_right_iff_earliest (now : Time) (events : List (Event Edict Player Time)) :
    Meets step Right (start now) events ↔ Meets step Earliest (start now) events := by
  exact meets_congr (fun h hallowed hstep => h.step (h.right_iff.mp hallowed) hstep)
    (fun h => h.right_iff) (keeps_start now)

end

instance [LinearOrder Time] [Add Time] [DecidableEq Edict] [DecidableEq Player]
    (σ : Session Edict Player Time) : (event : Event Edict Player Time) →
      Decidable (σ.Right event)
  | .find enemy => inferInstanceAs (Decidable
      ((σ.registry.find σ.now enemy).map (fun result => (result.1.contents, result.2)) = _))
  | .frame _ => isTrue trivial
  | .put grenade time type player =>
      inferInstanceAs (Decidable ((σ.step (.put grenade time type player)).isSome = true))
  | .clear => inferInstanceAs (Decidable ((σ.step .clear).isSome = true))

/-- Two grenades in flight; the one thrown last is found, and the other is forgotten. -/
theorem not_meets_right_second : ¬ ∀ (now : Nat) (events : List (Event Nat Nat Nat)),
    Meets step Right (start now) events := by
  intro h
  have hbad := h 10 [.put 1 2 4 7, .put 2 2 4 8, .find 2]
  revert hbad
  decide

end Session

end AmxModC.Csx
