import Mathlib.Data.List.Nodup
import Mathlib.Data.List.Range
import Mathlib.Logic.Function.Basic

namespace AmxModC.Ham.Tables

/-! The virtual tables under the hooks: every hook keeps the pointer that it found in its slot,
and puts it back when it is destroyed. -/

inductive Pointer
  | function (address : Nat)
  | tramp (hook : Nat)
deriving DecidableEq

/-- `class Hook`, with the ids of its forwards. -/
structure Hook where
  pre : List Int
  post : List Int
  func : Pointer
  vtable : Int
  entry : Int
deriving DecidableEq

/-- The address of `vtable[entry]`, in pointers. -/
def Hook.slot (hook : Hook) : Int := hook.vtable + hook.entry

/-- `hook_t` -/
structure HookEntry where
  isset : Bool
  vtid : Int
deriving DecidableEq

/-- The memory of the virtual tables, the hooks by their pointers and `hooks`. -/
structure World where
  memory : Int → Pointer
  heap : List Hook
  hooks : Nat → List Nat

namespace World

def initial (memory : Int → Nat) : World := ⟨fun slot => .function (memory slot), [], fun _ => []⟩

/-- `hook->post.push_back(pfwd)` and `hook->pre.push_back(pfwd)` -/
def push (s : World) (id : Nat) (fwd : Int) (post : Bool) : World :=
  { s with
    heap := s.heap.modify id fun hook =>
      if post then { hook with post := hook.post ++ [fwd] }
      else { hook with pre := hook.pre ++ [fwd] } }

/-- `new Hook`, which installs its trampoline, and `hooks[func].push_back(hook)` -/
def newHook (s : World) (func : Nat) (vtable entry : Int) : World where
  memory := Function.update s.memory (vtable + entry) (.tramp s.heap.length)
  heap := s.heap ++ [⟨[], [], s.memory (vtable + entry), vtable, entry⟩]
  hooks := Function.update s.hooks func (s.hooks func ++ [s.heap.length])

theorem memory_newHook (s : World) (func : Nat) (vtable entry : Int) :
    (s.newHook func vtable entry).memory =
      Function.update s.memory (vtable + entry) (.tramp s.heap.length) := rfl

theorem hooks_newHook (s : World) (func : Nat) (vtable entry : Int) :
    (s.newHook func vtable entry).hooks =
      Function.update s.hooks func (s.hooks func ++ [s.heap.length]) := rfl

/-- What both natives do once they have the virtual table: `found` is `none` where the entity has
no private data, `fwd` is what `makefunc` returns. -/
def register (hooklist : List HookEntry) (s : World) (func : Int) (found : Option (Option Int))
    (fwd : Int) (post : Bool) : World :=
  if func < 0 then s
  else
    match hooklist[func.toNat]? with
    | none => s
    | some hook =>
        if !hook.isset then s
        else
          match found with
          | none | some none => s
          | some (some vtable) =>
              if fwd = -1 then s
              else
                match (s.hooks func.toNat).find? fun id =>
                    .tramp id = s.memory (vtable + hook.vtid) with
                | some id => s.push id fwd post
                | none => (s.newHook func.toNat vtable hook.vtid).push s.heap.length fwd post

/-- `RegisterHam`: the virtual table of an entity that is made for the class and removed. -/
def registerHam (hooklist : List HookEntry) (s : World) (func : Int)
    (classTable : Option (Option Int)) (fwd : Int) (post : Bool) : World :=
  s.register hooklist func classTable fwd post

/-- `RegisterHamFromEntity`: the virtual table of the entity. -/
def registerHamFromEntity (hooklist : List HookEntry) (s : World) (func : Int)
    (entityTable : Option (Option Int)) (fwd : Int) (post : Bool) : World :=
  s.register hooklist func entityTable fwd post

/-- `~Hook` -/
def destroy (s : World) (id : Nat) : World :=
  match s.heap[id]? with
  | none => s
  | some hook => { s with memory := Function.update s.memory hook.slot hook.func }

/-- One turn of the loop of `OnPluginsUnloaded`. -/
def unload (s : World) (func : Nat) : World :=
  { (s.hooks func).foldl destroy s with hooks := Function.update s.hooks func [] }

def onPluginsUnloaded (hooklist : List HookEntry) (s : World) : World :=
  (List.range hooklist.length).foldl unload s

end World

inductive Registration
  | registerHam (func : Int) (classTable : Option (Option Int)) (fwd : Int) (post : Bool)
  | registerHamFromEntity (func : Int) (entityTable : Option (Option Int)) (fwd : Int)
      (post : Bool)
deriving DecidableEq

def Registration.run (hooklist : List HookEntry) (s : World) : Registration → World
  | registerHam func classTable fwd post => s.registerHam hooklist func classTable fwd post
  | registerHamFromEntity func entityTable fwd post =>
      s.registerHamFromEntity hooklist func entityTable fwd post

def World.after (hooklist : List HookEntry) (s : World) (registrations : List Registration) : World :=
  registrations.foldl (Registration.run hooklist) s

inductive Reaches (heap : List Hook) : Pointer → List Nat → Nat → Prop
  | function (address : Nat) : Reaches heap (.function address) [] address
  | tramp {id : Nat} {hook : Hook} {ids : List Nat} {address : Nat}
      (hhook : heap[id]? = some hook) (hrest : Reaches heap hook.func ids address) :
      Reaches heap (.tramp id) (id :: ids) address

namespace World

def Installed (s : World) (slot : Int) (id : Nat) : Prop :=
  (∃ func, id ∈ s.hooks func) ∧ (s.heap[id]?).map Hook.slot = some slot

def Reached (memory : Int → Nat) (s : World) : Prop :=
  ∀ slot, ∃ ids, Reaches s.heap (s.memory slot) ids (memory slot) ∧ ids.Nodup ∧
    ∀ id, id ∈ ids ↔ s.Installed slot id

def Restored (memory : Int → Nat) (s : World) : Prop :=
  ∀ slot, s.memory slot = .function (memory slot)

end World

/-- Every slot reaches its function after any part of the registrations, and has it back in
the end. -/
def TablesKept (hooklist : List HookEntry) (memory : Int → Nat)
    (registrations : List Registration) : Prop :=
  (∀ done rest, registrations = done ++ rest →
    ((World.initial memory).after hooklist done).Reached memory) ∧
    (((World.initial memory).after hooklist registrations).onPluginsUnloaded hooklist).Restored
      memory

/-! What the condition is about: the functions that a slot is hooked for. -/

def accepted (hooklist : List HookEntry) (func : Int) (found : Option (Option Int)) (fwd : Int) :
    Option (Nat × Int) :=
  if func < 0 ∨ fwd = -1 then none
  else do
    let hook ← hooklist[func.toNat]?
    let vtable ← found.join
    if hook.isset then some (func.toNat, vtable + hook.vtid) else none

def Registration.accepted (hooklist : List HookEntry) : Registration → Option (Nat × Int)
  | registerHam func found fwd _ | registerHamFromEntity func found fwd _ =>
      Tables.accepted hooklist func found fwd

def hook (hooked : List Nat) (func : Nat) : List Nat :=
  if hooked.head? = some func then hooked else func :: hooked

def hookedFor (functions : List Nat) : List Nat := functions.foldl hook []

def functionsAt (hooklist : List HookEntry) (registrations : List Registration) (slot : Int) :
    List Nat :=
  ((registrations.filterMap (Registration.accepted hooklist)).filter (·.2 = slot)).map (·.1)

/-- The function hooked first comes behind every other one in `hooklist`, and is hooked once. -/
def FirstIsLast (hooked : List Nat) : Prop :=
  ∀ first ∈ hooked.getLast?, ∀ func ∈ hooked.dropLast, func < first

/-! The hooks of every slot, the last one first. -/

def pointer (memory : Int → Nat) (slot : Int) : List (Nat × Nat) → Pointer
  | [] => .function (memory slot)
  | (_, id) :: _ => .tramp id

def Linked (memory : Int → Nat) (heap : List Hook) (slot : Int) : List (Nat × Nat) → Prop
  | [] => True
  | (_, id) :: rest =>
      (∃ hook, heap[id]? = some hook ∧ hook.slot = slot ∧ hook.func = pointer memory slot rest) ∧
        Linked memory heap slot rest

structure Stacked (memory : Int → Nat) (count : Nat) (s : World)
    (stack : Int → List (Nat × Nat)) : Prop where
  top : ∀ slot, s.memory slot = pointer memory slot (stack slot)
  linked : ∀ slot, Linked memory s.heap slot (stack slot)
  hooks : ∀ func id, id ∈ s.hooks func ↔ ∃ slot, (func, id) ∈ stack slot
  known : ∀ slot, ∀ element ∈ stack slot, element.1 < count
  falling : ∀ slot, (stack slot).Pairwise fun element below => below.2 < element.2
  sorted : ∀ func, (s.hooks func).Pairwise (· < ·)

def Kept (heap heap' : List Hook) : Prop :=
  ∀ (id : Nat) (hook : Hook), heap[id]? = some hook →
    ∃ hook' : Hook, heap'[id]? = some hook' ∧ hook'.slot = hook.slot ∧ hook'.func = hook.func

namespace Linked

variable {memory : Int → Nat} {heap heap' : List Hook} {slot : Int} {stack : List (Nat × Nat)}

theorem kept (h : Linked memory heap slot stack) (hkept : Kept heap heap') :
    Linked memory heap' slot stack := by
  induction stack with
  | nil => trivial
  | cons element rest ih =>
      obtain ⟨⟨hook, hhook, hslot, hfunc⟩, hrest⟩ := h
      obtain ⟨hook', hhook', hslot', hfunc'⟩ := hkept _ hook hhook
      exact ⟨⟨hook', hhook', hslot'.trans hslot, hfunc'.trans hfunc⟩, ih hrest⟩

theorem hook_of_split {front rest : List (Nat × Nat)} {element : Nat × Nat}
    (h : Linked memory heap slot (front ++ element :: rest)) :
    ∃ hook, heap[element.2]? = some hook ∧ hook.slot = slot ∧
      hook.func = pointer memory slot rest := by
  induction front with
  | nil => exact h.1
  | cons _ _ ih => exact ih h.2

theorem slot_of_mem {element : Nat × Nat} (h : Linked memory heap slot stack)
    (hmem : element ∈ stack) : (heap[element.2]?).map Hook.slot = some slot := by
  obtain ⟨front, rest, rfl⟩ := List.append_of_mem hmem
  obtain ⟨hook, hhook, hslot, -⟩ := h.hook_of_split
  rw [hhook, Option.map_some, hslot]

theorem reaches (h : Linked memory heap slot stack) :
    Reaches heap (pointer memory slot stack) (stack.map (·.2)) (memory slot) := by
  induction stack with
  | nil => exact .function _
  | cons element rest ih =>
      obtain ⟨⟨hook, hhook, -, hfunc⟩, hrest⟩ := h
      exact .tramp hhook (hfunc ▸ ih hrest)

end Linked

namespace Stacked

variable {memory : Int → Nat} {count : Nat} {s : World} {stack : Int → List (Nat × Nat)}
  {slot : Int} {func id : Nat}

theorem initial (memory : Int → Nat) (count : Nat) :
    Stacked memory count (.initial memory) fun _ => [] where
  top _ := rfl
  linked _ := trivial
  hooks _ _ := iff_of_false List.not_mem_nil fun ⟨_, hmem⟩ => List.not_mem_nil hmem
  known _ _ hmem := by cases hmem
  falling _ := .nil
  sorted _ := .nil

theorem mem_stack (h : Stacked memory count s stack) (hid : id ∈ s.hooks func)
    (hslot : (s.heap[id]?).map Hook.slot = some slot) : (func, id) ∈ stack slot := by
  obtain ⟨other, hmem⟩ := (h.hooks func id).mp hid
  obtain rfl : other = slot :=
    Option.some.inj (((h.linked other).slot_of_mem hmem).symm.trans hslot)
  exact hmem

theorem ids_nodup (h : Stacked memory count s stack) (slot : Int) :
    ((stack slot).map (·.2)).Nodup :=
  List.pairwise_map.mpr ((h.falling slot).imp fun hlt => hlt.ne')

theorem func_eq (h : Stacked memory count s stack) {func' : Nat} (hmem : (func, id) ∈ stack slot)
    (hmem' : (func', id) ∈ stack slot) : func = func' :=
  congrArg Prod.fst (List.inj_on_of_nodup_map (h.ids_nodup slot) hmem hmem' rfl)

theorem reached (h : Stacked memory count s stack) : s.Reached memory := by
  intro slot
  refine ⟨(stack slot).map (·.2), h.top slot ▸ (h.linked slot).reaches, h.ids_nodup slot,
    fun id => ⟨fun hid => ?_, ?_⟩⟩
  · obtain ⟨element, hmem, rfl⟩ := List.mem_map.mp hid
    exact ⟨⟨element.1, (h.hooks _ _).mpr ⟨slot, hmem⟩⟩, (h.linked slot).slot_of_mem hmem⟩
  · rintro ⟨⟨func, hid⟩, hslot⟩
    exact List.mem_map_of_mem (h.mem_stack hid hslot)

theorem find?_eq_some (h : Stacked memory count s stack)
    (hfind : (s.hooks func).find? (fun id => .tramp id = s.memory slot) = some id) :
    (stack slot).head? = some (func, id) := by
  have hfound := List.find?_some hfind
  have htramp : Pointer.tramp id = s.memory slot := of_decide_eq_true hfound
  have hid := List.mem_of_find?_eq_some hfind
  rw [h.top slot] at htramp
  cases hstack : stack slot with
  | nil =>
      rw [hstack] at htramp
      cases htramp
  | cons element rest =>
      rw [hstack] at htramp
      obtain rfl := Pointer.tramp.inj htramp
      have hmem : element ∈ stack slot := hstack ▸ List.mem_cons_self
      have hmem' := h.mem_stack hid ((h.linked slot).slot_of_mem hmem)
      rw [List.head?_cons, h.func_eq hmem' hmem]

theorem find?_eq_none (h : Stacked memory count s stack)
    (hfind : (s.hooks func).find? (fun id => .tramp id = s.memory slot) = none) (id : Nat) :
    (stack slot).head? ≠ some (func, id) := by
  intro hhead
  obtain ⟨rest, hstack⟩ := List.head?_eq_some_iff.mp hhead
  have hid : id ∈ s.hooks func :=
    (h.hooks func id).mpr ⟨slot, hstack ▸ List.mem_cons_self⟩
  refine List.find?_eq_none.mp hfind id hid (decide_eq_true ?_)
  rw [h.top slot, hstack]
  rfl

theorem kept_push (s : World) (id : Nat) (fwd : Int) (post : Bool) :
    Kept s.heap (s.push id fwd post).heap := by
  intro other hook hhook
  rw [World.push, List.getElem?_modify, hhook]
  by_cases hid : id = other
  · subst hid
    simp only [if_true]
    cases post with
    | _ => exact ⟨_, rfl, rfl, rfl⟩
  · simp only [hid, if_false]
    exact ⟨hook, rfl, rfl, rfl⟩

theorem push (h : Stacked memory count s stack) (id : Nat) (fwd : Int) (post : Bool) :
    Stacked memory count (s.push id fwd post) stack :=
  ⟨h.top, fun slot => (h.linked slot).kept (kept_push s id fwd post), h.hooks, h.known, h.falling,
    h.sorted⟩

theorem id_lt (h : Stacked memory count s stack) {element : Nat × Nat}
    (hmem : element ∈ stack slot) : element.2 < s.heap.length := by
  have hslot := (h.linked slot).slot_of_mem hmem
  obtain ⟨hook, hhook, -⟩ := Option.map_eq_some_iff.mp hslot
  exact (List.getElem?_eq_some_iff.mp hhook).1

theorem kept_append (heap : List Hook) (hook : Hook) : Kept heap (heap ++ [hook]) := by
  intro id old hold
  have hlt := (List.getElem?_eq_some_iff.mp hold).1
  exact ⟨old, (List.getElem?_append_left hlt).trans hold, rfl, rfl⟩

theorem newHook (h : Stacked memory count s stack) (hfunc : func < count) (vtable entry : Int) :
    Stacked memory count (s.newHook func vtable entry)
      (Function.update stack (vtable + entry)
        ((func, s.heap.length) :: stack (vtable + entry))) := by
  have hkept := kept_append s.heap ⟨[], [], s.memory (vtable + entry), vtable, entry⟩
  have hmem {slot : Int} {element : Nat × Nat} : element ∈ Function.update stack (vtable + entry)
      ((func, s.heap.length) :: stack (vtable + entry)) slot ↔
        element ∈ stack slot ∨ slot = vtable + entry ∧ element = (func, s.heap.length) := by
    by_cases hslot : slot = vtable + entry
    · subst hslot
      rw [Function.update_self, List.mem_cons, or_comm, and_iff_right rfl]
    · rw [Function.update_of_ne hslot, or_iff_left fun hnew => hslot hnew.1]
  refine ⟨fun slot => ?_, fun slot => ?_, fun other id => ?_, fun slot element helement => ?_,
    fun slot => ?_, fun other => ?_⟩
  · rw [World.memory_newHook]
    by_cases hslot : slot = vtable + entry
    · subst hslot
      rw [Function.update_self, Function.update_self]
      rfl
    · rw [Function.update_of_ne hslot, Function.update_of_ne hslot, h.top slot]
  · by_cases hslot : slot = vtable + entry
    · subst hslot
      rw [Function.update_self]
      refine ⟨⟨_, List.getElem?_concat_length, rfl, ?_⟩, (h.linked _).kept hkept⟩
      exact h.top _
    · rw [Function.update_of_ne hslot]
      exact (h.linked slot).kept hkept
  · simp only [hmem, exists_or, ← h.hooks]
    rw [World.hooks_newHook]
    by_cases hother : other = func
    · subst hother
      rw [Function.update_self, List.mem_append, List.mem_singleton]
      refine or_congr_right ⟨fun hid => ⟨_, rfl, hid ▸ rfl⟩, ?_⟩
      rintro ⟨slot, -, hpair⟩
      exact (Prod.mk.inj hpair).2
    · rw [Function.update_of_ne hother]
      refine (or_iff_left ?_).symm
      rintro ⟨slot, -, hpair⟩
      exact hother (Prod.mk.inj hpair).1
  · rcases hmem.mp helement with hold | ⟨-, rfl⟩
    · exact h.known slot element hold
    · exact hfunc
  · by_cases hslot : slot = vtable + entry
    · subst hslot
      rw [Function.update_self]
      exact List.pairwise_cons.mpr ⟨fun element hold => h.id_lt hold, h.falling _⟩
    · rw [Function.update_of_ne hslot]
      exact h.falling slot
  · rw [World.hooks_newHook]
    by_cases hother : other = func
    · subst hother
      rw [Function.update_self, List.pairwise_append]
      refine ⟨h.sorted other, List.pairwise_singleton _ _, fun id hid new hnew => ?_⟩
      obtain ⟨slot, hold⟩ := (h.hooks other id).mp hid
      exact (List.mem_singleton.mp hnew) ▸ h.id_lt hold
    · rw [Function.update_of_ne hother]
      exact h.sorted other

end Stacked

/-! What a registration does to the stacks. -/

namespace World

variable {hooklist : List HookEntry} {func fwd : Int} {found : Option (Option Int)}

theorem register_refused (s : World) (post : Bool) (h : accepted hooklist func found fwd = none) :
    s.register hooklist func found fwd post = s := by
  rw [register]
  rw [accepted] at h
  by_cases hfunc : func < 0
  · rw [if_pos hfunc]
  · rw [if_neg hfunc]
    cases hhook : hooklist[func.toNat]? with
    | none => rfl
    | some hook =>
        cases hset : hook.isset with
        | false => simp only [hset, Bool.not_false, if_true]
        | true =>
            simp only [hset, Bool.not_true, Bool.false_eq_true, if_false]
            rcases found with _ | _ | vtable
            · rfl
            · rfl
            · by_cases hfwd : fwd = -1
              · simp only [hfwd, if_true]
              · rw [if_neg (not_or.mpr ⟨hfunc, hfwd⟩), hhook] at h
                simp [hset] at h

theorem register_accepted (s : World) (post : Bool) {number : Nat} {slot : Int}
    (h : accepted hooklist func found fwd = some (number, slot)) :
    number < hooklist.length ∧ ∃ vtable entry, slot = vtable + entry ∧
      s.register hooklist func found fwd post =
        match (s.hooks number).find? fun id => .tramp id = s.memory slot with
        | some id => s.push id fwd post
        | none => (s.newHook number vtable entry).push s.heap.length fwd post := by
  rw [accepted] at h
  rw [register]
  split at h
  · cases h
  next hvalid =>
    rw [not_or] at hvalid
    obtain ⟨hook, hhook, h⟩ := Option.bind_eq_some_iff.mp h
    obtain ⟨vtable, hvtable, h⟩ := Option.bind_eq_some_iff.mp h
    obtain rfl : found = some (some vtable) := Option.join_eq_some_iff.mp hvtable
    split at h
    next hset =>
      obtain ⟨rfl, rfl⟩ := Prod.mk.inj (Option.some.inj h)
      refine ⟨(List.getElem?_eq_some_iff.mp hhook).1, vtable, hook.vtid, rfl, ?_⟩
      simp only [if_neg hvalid.1, hhook, hset, Bool.not_true, Bool.false_eq_true, if_false,
        if_neg hvalid.2]
    · cases h

end World

namespace Stacked

variable {memory : Int → Nat} {hooklist : List HookEntry} {s : World}
  {stack : Int → List (Nat × Nat)}

theorem only_here (number : Nat) (place : Int) :
    ((some (number, place)).toList.filter (·.2 = place)).map (·.1) = [number] := by
  simp

theorem not_here {number : Nat} {place slot : Int} (h : place ≠ slot) :
    ((some (number, place)).toList.filter (·.2 = slot)).map (·.1) = [] := by
  simp [h]

theorem register (h : Stacked memory hooklist.length s stack) (func : Int)
    (found : Option (Option Int)) (fwd : Int) (post : Bool) :
    ∃ stack', Stacked memory hooklist.length (s.register hooklist func found fwd post) stack' ∧
      ∀ slot, (stack' slot).map (·.1) =
        (((accepted hooklist func found fwd).toList.filter (·.2 = slot)).map (·.1)).foldl hook
          ((stack slot).map (·.1)) := by
  cases haccepted : accepted hooklist func found fwd with
  | none =>
      rw [World.register_refused s post haccepted]
      exact ⟨stack, h, fun slot => rfl⟩
  | some element =>
      obtain ⟨number, place⟩ := element
      obtain ⟨hnumber, vtable, entry, rfl, hregister⟩ :=
        World.register_accepted s post haccepted
      rw [hregister]
      cases hfind : (s.hooks number).find? fun id => .tramp id = s.memory (vtable + entry) with
      | some id =>
          refine ⟨stack, h.push id fwd post, fun slot => ?_⟩
          by_cases hslot : vtable + entry = slot
          · subst hslot
            rw [only_here, List.foldl_cons, hook, if_pos]
            · rfl
            · rw [List.head?_map, h.find?_eq_some hfind]
              rfl
          · rw [not_here hslot]
            rfl
      | none =>
          refine ⟨_, (h.newHook hnumber vtable entry).push s.heap.length fwd post, fun slot => ?_⟩
          by_cases hslot : vtable + entry = slot
          · subst hslot
            rw [only_here, List.foldl_cons, hook, if_neg]
            · rw [Function.update_self]
              rfl
            · intro hhead
              rw [List.head?_map] at hhead
              obtain ⟨top, htop, rfl⟩ := Option.map_eq_some_iff.mp hhead
              exact h.find?_eq_none hfind top.2 htop
          · rw [not_here hslot, Function.update_of_ne (Ne.symm hslot)]
            rfl

theorem after (memory : Int → Nat) (hooklist : List HookEntry)
    (registrations : List Registration) :
    ∃ stack, Stacked memory hooklist.length
        ((World.initial memory).after hooklist registrations) stack ∧
      ∀ slot, (stack slot).map (·.1) = hookedFor (functionsAt hooklist registrations slot) := by
  induction registrations using List.reverseRecOn with
  | nil => exact ⟨_, initial memory _, fun slot => rfl⟩
  | append_singleton registrations registration ih =>
      obtain ⟨stack, hstack, hfunctions⟩ := ih
      have hlast (slot : Int) : functionsAt hooklist (registrations ++ [registration]) slot =
          functionsAt hooklist registrations slot ++
            ((registration.accepted hooklist).toList.filter (·.2 = slot)).map (·.1) := by
        rw [functionsAt, List.filterMap_append, List.filter_append, List.map_append,
          List.filterMap_cons, functionsAt]
        cases registration.accepted hooklist with
        | _ => rfl
      rw [World.after, List.foldl_append]
      cases registration with
      | registerHam func found fwd post | registerHamFromEntity func found fwd post =>
          obtain ⟨stack', hstack', hregistered⟩ := hstack.register func found fwd post
          refine ⟨stack', hstack', fun slot => ?_⟩
          rw [hlast, hookedFor, List.foldl_append, ← hookedFor, ← hfunctions]
          exact hregistered slot

end Stacked

/-! What the destructors leave: each slot has what its last hook destroyed kept. -/

namespace World

theorem destroy_hooks (s : World) (id : Nat) (hooks : Nat → List Nat) :
    { s with hooks := hooks }.destroy id = { s.destroy id with hooks := hooks } := by
  simp only [destroy]
  cases s.heap[id]? with
  | _ => rfl

theorem destroy_heap (s : World) (id : Nat) : (s.destroy id).heap = s.heap := by
  rw [destroy]
  split <;> rfl

theorem foldl_destroy_hooks (s : World) (ids : List Nat) (hooks : Nat → List Nat) :
    ids.foldl destroy { s with hooks := hooks } =
      { ids.foldl destroy s with hooks := hooks } := by
  induction ids generalizing s with
  | nil => rfl
  | cons id ids ih => rw [List.foldl_cons, destroy_hooks, ih, List.foldl_cons]

theorem foldl_destroy_heap (s : World) (ids : List Nat) : (ids.foldl destroy s).heap = s.heap := by
  induction ids generalizing s with
  | nil => rfl
  | cons id ids ih => rw [List.foldl_cons, ih, destroy_heap]

theorem foldl_unload (s : World) {funcs : List Nat} (hnodup : funcs.Nodup) :
    (funcs.foldl unload s).memory = ((funcs.flatMap s.hooks).foldl destroy s).memory := by
  induction funcs generalizing s with
  | nil => rfl
  | cons func funcs ih =>
      obtain ⟨hnot, hnodup⟩ := List.nodup_cons.mp hnodup
      have hrest : funcs.flatMap (s.unload func).hooks = funcs.flatMap s.hooks :=
        List.flatMap_congr fun other hother =>
          Function.update_of_ne (fun heq : other = func => hnot (heq ▸ hother)) ..
      rw [List.foldl_cons, ih _ hnodup, hrest, List.flatMap_cons, List.foldl_append, unload,
        foldl_destroy_hooks]

def inSlot (s : World) (slot : Int) (id : Nat) : Bool :=
  (s.heap[id]?).map Hook.slot = some slot

theorem foldl_destroy_memory (s : World) (ids : List Nat) (slot : Int) :
    (ids.foldl destroy s).memory slot =
      (((ids.filter (s.inSlot slot)).getLast?.bind (s.heap[·]?)).map Hook.func).getD
        (s.memory slot) := by
  induction ids using List.reverseRecOn with
  | nil => rfl
  | append_singleton ids id ih =>
      rw [List.foldl_append, List.foldl_cons, List.foldl_nil, destroy, foldl_destroy_heap,
        List.filter_append]
      cases hhook : s.heap[id]? with
      | none =>
          have hnot : s.inSlot slot id = false := by rw [inSlot, hhook]; rfl
          rw [List.filter_cons_of_neg (by rw [hnot]; exact Bool.false_ne_true), List.filter_nil,
            List.append_nil]
          exact ih
      | some hook =>
          change Function.update (ids.foldl destroy s).memory hook.slot hook.func slot = _
          by_cases hslot : hook.slot = slot
          · subst hslot
            have hin : s.inSlot hook.slot id = true := by
              rw [inSlot, hhook]
              exact decide_eq_true rfl
            rw [Function.update_self, List.filter_cons_of_pos hin, List.filter_nil,
              List.getLast?_concat, Option.bind_some, hhook]
            rfl
          · have hnot : s.inSlot slot id = false := by
              rw [inSlot, hhook]
              exact decide_eq_false fun heq => hslot (Option.some.inj heq)
            rw [Function.update_of_ne (Ne.symm hslot),
              List.filter_cons_of_neg (by rw [hnot]; exact Bool.false_ne_true), List.filter_nil,
              List.append_nil]
            exact ih

end World

def Before (element other : Nat × Nat) : Prop :=
  element.1 < other.1 ∨ element.1 = other.1 ∧ element.2 < other.2

def World.order (s : World) (count : Nat) : List (Nat × Nat) :=
  (List.range count).flatMap fun func => (s.hooks func).map (func, ·)

theorem World.order_ids (s : World) (count : Nat) :
    (s.order count).map (·.2) = (List.range count).flatMap s.hooks := by
  rw [order, List.map_flatMap]
  exact List.flatMap_congr fun func _ => (List.map_map ..).trans (List.map_id _)

namespace Stacked

variable {memory : Int → Nat} {count : Nat} {s : World} {stack : Int → List (Nat × Nat)}
  {slot : Int}

theorem order_sorted (h : Stacked memory count s stack) : (s.order count).Pairwise Before := by
  refine List.pairwise_flatMap.mpr ⟨fun func _ => ?_, ?_⟩
  · exact List.pairwise_map.mpr ((h.sorted func).imp fun hlt => .inr ⟨rfl, hlt⟩)
  · refine List.pairwise_lt_range.imp fun hlt element helement other hother => .inl ?_
    obtain ⟨id, -, rfl⟩ := List.mem_map.mp helement
    obtain ⟨id', -, rfl⟩ := List.mem_map.mp hother
    exact hlt

def destroyed (s : World) (count : Nat) (slot : Int) : List (Nat × Nat) :=
  (s.order count).filter fun element => s.inSlot slot element.2

theorem mem_destroyed (h : Stacked memory count s stack) {element : Nat × Nat} :
    element ∈ destroyed s count slot ↔ element ∈ stack slot := by
  rw [destroyed, List.mem_filter, World.order, List.mem_flatMap]
  constructor
  · rintro ⟨⟨func, -, hmem⟩, hslot⟩
    obtain ⟨id, hid, rfl⟩ := List.mem_map.mp hmem
    exact h.mem_stack hid (of_decide_eq_true hslot)
  · intro hmem
    refine ⟨⟨element.1, List.mem_range.mpr (h.known slot element hmem), ?_⟩,
      decide_eq_true ((h.linked slot).slot_of_mem hmem)⟩
    exact List.mem_map.mpr ⟨element.2, (h.hooks _ _).mpr ⟨slot, hmem⟩, rfl⟩

theorem before_last (h : Stacked memory count s stack) {last element : Nat × Nat}
    (hlast : (destroyed s count slot).getLast? = some last) (hmem : element ∈ stack slot) :
    element = last ∨ Before element last := by
  obtain ⟨front, hfront⟩ := List.getLast?_eq_some_iff.mp hlast
  have hsorted : (front ++ [last]).Pairwise Before := hfront ▸ h.order_sorted.filter _
  have hmem' : element ∈ front ++ [last] := hfront ▸ h.mem_destroyed.mpr hmem
  rcases List.mem_append.mp hmem' with hold | hnew
  · exact .inr ((List.pairwise_append.mp hsorted).2.2 element hold last List.mem_cons_self)
  · exact .inl (List.mem_singleton.mp hnew)

theorem memory_unloaded (s : World) (hooklist : List HookEntry) (slot : Int) :
    (s.onPluginsUnloaded hooklist).memory slot =
      (((destroyed s hooklist.length slot).getLast?.bind fun last => s.heap[last.2]?).map
        Hook.func).getD (s.memory slot) := by
  rw [World.onPluginsUnloaded, World.foldl_unload s List.nodup_range, World.foldl_destroy_memory,
    ← World.order_ids, List.filter_map, List.getLast?_map, Option.bind_map]
  rfl

theorem restored_iff {hooklist : List HookEntry} (h : Stacked memory hooklist.length s stack)
    (slot : Int) :
    (s.onPluginsUnloaded hooklist).memory slot = .function (memory slot) ↔
      FirstIsLast ((stack slot).map (·.1)) := by
  rw [memory_unloaded]
  rcases List.eq_nil_or_concat (stack slot) with hnil | ⟨front, first, hfirst⟩
  · have hnone : destroyed s hooklist.length slot = [] :=
      List.eq_nil_iff_forall_not_mem.mpr fun element hmem =>
        List.not_mem_nil (hnil ▸ h.mem_destroyed.mp hmem)
    rw [hnone, hnil]
    refine iff_of_true ?_ fun _ hnone => by cases hnone
    rw [List.getLast?_nil, Option.bind_none, Option.map_none, Option.getD_none, h.top slot, hnil]
    rfl
  · rw [List.concat_eq_append] at hfirst
    have hmem : first ∈ stack slot := by
      rw [hfirst]
      exact List.mem_append_right _ List.mem_cons_self
    have hne : destroyed s hooklist.length slot ≠ [] :=
      List.ne_nil_of_mem (h.mem_destroyed.mpr hmem)
    obtain ⟨last, hlast⟩ := Option.isSome_iff_exists.mp (List.getLast?_isSome.mpr hne)
    have hlastmem := h.mem_destroyed.mp (List.mem_of_getLast? hlast)
    have hlinked := h.linked slot
    have hcondition : FirstIsLast ((stack slot).map (·.1)) ↔
        ∀ element ∈ front, element.1 < first.1 := by
      rw [FirstIsLast, hfirst, List.map_append, List.map_singleton, List.getLast?_concat,
        List.dropLast_concat]
      simp
    rw [hcondition, hlast, Option.bind_some]
    by_cases heq : last = first
    · subst heq
      rw [hfirst] at hlinked
      obtain ⟨hook, hhook, -, hfunc⟩ := hlinked.hook_of_split
      rw [hhook, Option.map_some, Option.getD_some, hfunc]
      refine iff_of_true rfl fun element helement => ?_
      have hfalling := h.falling slot
      rw [hfirst, List.pairwise_append] at hfalling
      have hlater := hfalling.2.2 element helement last List.mem_cons_self
      rcases h.before_last hlast (hfirst ▸ List.mem_append_left _ helement) with rfl | hless | hless
      · exact (lt_irrefl _ hlater).elim
      · exact hless
      · exact (lt_asymm hless.2 hlater).elim
    · -- another one keeps the trampoline below it
      have hfront : last ∈ front := by
        rw [hfirst, List.mem_append, List.mem_singleton] at hlastmem
        exact hlastmem.resolve_right heq
      obtain ⟨above, below, rfl⟩ := List.append_of_mem hfront
      rw [hfirst, List.append_assoc, List.cons_append] at hlinked
      obtain ⟨hook, hhook, -, hfunc⟩ := hlinked.hook_of_split
      rw [hhook, Option.map_some, Option.getD_some, hfunc]
      refine iff_of_false (fun hpointer => ?_) fun hless => ?_
      · cases below with
        | _ => cases hpointer
      · rcases h.before_last hlast hmem with hsame | hbefore | hbefore
        · exact heq hsame.symm
        · exact lt_asymm hbefore (hless last hfront)
        · exact (hless last hfront).ne' hbefore.1

end Stacked

/-- A call through a slot always goes through all hooks, and every slot gets its function back
exactly where none is first hooked for a function that comes before another one of its hooks. -/
theorem tablesKept_iff (hooklist : List HookEntry) (memory : Int → Nat)
    (registrations : List Registration) :
    TablesKept hooklist memory registrations ↔
      ∀ slot, FirstIsLast (hookedFor (functionsAt hooklist registrations slot)) := by
  obtain ⟨stack, hstack, hfunctions⟩ := Stacked.after memory hooklist registrations
  have hreached (done rest : List Registration) (_ : registrations = done ++ rest) :
      ((World.initial memory).after hooklist done).Reached memory := by
    obtain ⟨_, hdone, -⟩ := Stacked.after memory hooklist done
    exact hdone.reached
  rw [TablesKept, and_iff_right hreached]
  refine forall_congr' fun slot => ?_
  rw [hstack.restored_iff slot, hfunctions slot]

/-- Two functions with one index in the table: the class is hooked for the first, then for the
second. -/
theorem shared_slot_not_kept :
    ¬ TablesKept [⟨true, 12⟩, ⟨true, 12⟩] (fun _ => 7)
      [.registerHam 0 (some (some 1000)) 1 false, .registerHam 1 (some (some 1000)) 2 false] := by
  intro hkept
  have hrestored := hkept.2 1012
  rw [World.onPluginsUnloaded] at hrestored
  revert hrestored
  decide

end AmxModC.Ham.Tables
