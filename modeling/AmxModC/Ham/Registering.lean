import AmxModC.Ham.Model
import Mathlib.Data.List.Basic
import Mathlib.Logic.Function.Basic
import Mathlib.Order.Nat

namespace AmxModC.Ham

/-! The loops of a hooked call over the lists of its hook, and the callbacks that register
forwards meanwhile. -/

/-- sdk/CVector.h with pointers to forwards: the block that `m_Data` points to, its size, and
the elements in use. -/
structure CVector where
  data : Option Nat
  size : Nat
  items : List Nat
  used_le : items.length ≤ size

namespace CVector

def empty : CVector := ⟨none, 0, [], le_rfl⟩

/-- `while (m_CurrentUsedSize + amount > newSize) newSize *= 2` -/
def double (need : Nat) : Nat → Nat → Nat
  | 0, newSize => newSize
  | turns + 1, newSize => if need > newSize then double need turns (newSize * 2) else newSize

theorem le_double (need turns newSize : Nat) : newSize ≤ double need turns newSize := by
  induction turns generalizing newSize with
  | zero => exact le_rfl
  | succ turns ih =>
      rw [double]
      split
      · exact (Nat.le_mul_of_pos_right newSize Nat.two_pos).trans (ih _)
      · exact le_rfl

/-- `Grow` up to its `while` loop. -/
def twice (v : CVector) : Nat := if v.size * 2 = 0 then 8 else v.size * 2

theorem used_lt_twice (v : CVector) : v.items.length < v.twice := by
  have hused := v.used_le
  rw [twice]
  split <;> omega

/-- `block` is what `new` returns. -/
def grow (v : CVector) (block : Nat) : CVector where
  data := some block
  size := double (v.items.length + 1) (v.items.length + 1) v.twice
  items := v.items
  used_le := v.used_lt_twice.le.trans (le_double _ _ _)

def Full (v : CVector) : Prop := v.items.length + 1 ≥ v.size

instance (v : CVector) : Decidable v.Full := inferInstanceAs (Decidable (_ ≥ _))

theorem used_lt_grow (v : CVector) (block : Nat) : v.items.length < (v.grow block).size :=
  v.used_lt_twice.trans_le (le_double _ _ _)

def pushBack (v : CVector) (elem block : Nat) : CVector :=
  if hfull : v.Full then
    { v.grow block with
      items := v.items ++ [elem]
      used_le := by
        rw [List.length_append]
        exact v.used_lt_grow block }
  else
    { v with
      items := v.items ++ [elem]
      used_le := by
        rw [List.length_append]
        exact (not_le.mp hfull).le }

@[simp] theorem items_pushBack (v : CVector) (elem block : Nat) :
    (v.pushBack elem block).items = v.items ++ [elem] := by
  rw [pushBack]
  split <;> rfl

end CVector

structure Iterator where
  block : Option Nat
  index : Nat
deriving DecidableEq

namespace CVector

/-- `begin()` -/
def first (v : CVector) : Iterator := ⟨v.data, 0⟩

/-- `end()` -/
def stop (v : CVector) : Iterator := ⟨v.data, v.items.length⟩

/-- `*i`; `none` is a read outside the elements of the vector's block. -/
def deref (v : CVector) (i : Iterator) : Option Nat :=
  if i.block = v.data then v.items[i.index]? else none

end CVector

/-- The lists of a hook by the argument `post` of `RegisterHam`, the states of the forwards by
their pointers, and the number of blocks that `new` has returned. -/
structure HookLists where
  lists : Bool → CVector
  forwards : List FwdState
  blocks : Nat
  fresh : ∀ post block, (lists post).data = some block → block < blocks
  valid : ∀ post, ∀ fwd ∈ (lists post).items, fwd < forwards.length

namespace HookLists

def empty : HookLists where
  lists _ := .empty
  forwards := []
  blocks := 0
  fresh _ _ hnone := by cases hnone
  valid _ _ hmem := by cases hmem

/-- `new Forward(fwd)` and `push_back`, where `RegisterHam` finds the hook. -/
def register (h : HookLists) (post : Bool) : HookLists where
  lists := Function.update h.lists post ((h.lists post).pushBack h.forwards.length h.blocks)
  forwards := h.forwards ++ [.ok]
  blocks := h.blocks + 1
  fresh other block hblock := by
    by_cases hother : other = post
    · subst hother
      rw [Function.update_self, CVector.pushBack] at hblock
      split at hblock
      · exact (Option.some.inj hblock) ▸ Nat.lt_succ_self _
      · exact Nat.lt_succ_of_lt (h.fresh _ _ hblock)
    · rw [Function.update_of_ne hother] at hblock
      exact Nat.lt_succ_of_lt (h.fresh _ _ hblock)
  valid other fwd hmem := by
    rw [List.length_append]
    by_cases hother : other = post
    · subst hother
      rw [Function.update_self, CVector.items_pushBack, List.mem_append] at hmem
      rcases hmem with hold | hnew
      · exact Nat.lt_succ_of_lt (h.valid _ _ hold)
      · exact (List.mem_singleton.mp hnew) ▸ Nat.lt_succ_self _
    · rw [Function.update_of_ne hother] at hmem
      exact Nat.lt_succ_of_lt (h.valid _ _ hmem)

def setState (h : HookLists) (fwd : Nat) (state : FwdState) : HookLists :=
  { h with
    forwards := h.forwards.set fwd state
    valid := fun post other hmem => by
      rw [List.length_set]
      exact h.valid post other hmem }

end HookLists

inductive HamNative
  | registerHam (post : Bool)
  | disableHamForward (fwd : Nat)
  | enableHamForward (fwd : Nat)
deriving DecidableEq

def HamNative.run (h : HookLists) : HamNative → HookLists
  | registerHam post => h.register post
  | disableHamForward fwd => h.setState fwd .stop
  | enableHamForward fwd => h.setState fwd .ok

namespace HookLists

/-- The loop of `PRE_START` or `POST_START` from an element, with the natives that are called
in each turn: the forwards executed. A read outside the list is `none`. -/
def loop (post : Bool) (callback : Nat → List HamNative) (stop : Iterator) :
    Nat → Iterator → HookLists → Option (HookLists × List Nat)
  | 0, _, _ => none
  | turns + 1, i, h =>
      if i = stop then some (h, [])
      else do
        let fwd ← (h.lists post).deref i
        if h.forwards[fwd]? = some .ok then
          let rest ← loop post callback stop turns { i with index := i.index + 1 }
            ((callback i.index).foldl HamNative.run h)
          some (rest.1, fwd :: rest.2)
        else loop post callback stop turns { i with index := i.index + 1 } h

def forEach (h : HookLists) (post : Bool) (callback : Nat → List HamNative) :
    Option (HookLists × List Nat) :=
  loop post callback (h.lists post).stop ((h.lists post).items.length + 1) (h.lists post).first h

end HookLists

/-- A hooked call by what happens in it: whether its forwards run (`DoForwards`), the natives
called in each turn of its loops and by the original function. -/
structure Script where
  doForwards : Bool
  callback : Bool → Nat → List HamNative
  original : List HamNative

namespace Script

def loop (s : Script) (h : HookLists) (post : Bool) : Option (HookLists × List Nat) :=
  if s.doForwards then h.forEach post (s.callback post) else some (h, [])

def call (s : Script) (h : HookLists) : Option (HookLists × List Nat) := do
  let pre ← s.loop h false
  let post ← s.loop (s.original.foldl HamNative.run pre.1) true
  some (post.1, pre.2 ++ post.2)

end Script

/-! The same call over the forwards that a list has at the beginning of its loop. -/

namespace HookLists

def serve (callback : Nat → List HamNative) :
    List (Nat × Nat) → HookLists → HookLists × List Nat
  | [], h => (h, [])
  | (fwd, index) :: rest, h =>
      if h.forwards[fwd]? = some .ok then
        let later := serve callback rest ((callback index).foldl HamNative.run h)
        (later.1, fwd :: later.2)
      else serve callback rest h

/-- The registrations for a list, made in the turns of all its elements but the last, leave
it its block. -/
def Roomy (h : HookLists) (post : Bool) (callback : Nat → List HamNative) : Prop :=
  let used := (h.lists post).items.length
  let used' := ((serve callback (h.lists post).items.zipIdx.dropLast h).1.lists post).items.length
  used' = used ∨ used' < (h.lists post).size

instance (h : HookLists) (post : Bool) (callback : Nat → List HamNative) :
    Decidable (h.Roomy post callback) := inferInstanceAs (Decidable (_ ∨ _))

end HookLists

namespace Script

def beforePost (s : Script) (h : HookLists) : HookLists :=
  s.original.foldl HamNative.run
    (HookLists.serve (s.callback false) (h.lists false).items.zipIdx h).1

def due (s : Script) (h : HookLists) : List Nat :=
  if s.doForwards then
    (HookLists.serve (s.callback false) (h.lists false).items.zipIdx h).2 ++
      (HookLists.serve (s.callback true) (h.lists true).items.zipIdx (s.beforePost h)).2
  else []

/-- The call reads no element outside its lists, and executes what is due; only forwards that
it registers itself come behind. -/
def Safe (s : Script) (h : HookLists) : Prop :=
  ∃ final more, s.call h = some (final, s.due h ++ more) ∧
    ∀ fwd ∈ more, h.forwards.length ≤ fwd

end Script

/-! Lists only grow: in their block, or into a block that was not there before. -/

structure Later (post : Bool) (h h' : HookLists) : Prop where
  items : ∃ new, (h'.lists post).items = (h.lists post).items ++ new ∧
    ∀ fwd ∈ new, h.forwards.length ≤ fwd
  forwards : h.forwards.length ≤ h'.forwards.length
  blocks : h.blocks ≤ h'.blocks
  block :
    ((h'.lists post).data = (h.lists post).data ∧ (h'.lists post).size = (h.lists post).size ∧
      ((h'.lists post).items.length = (h.lists post).items.length ∨
        (h'.lists post).items.length < (h.lists post).size)) ∨
    ∃ block, h.blocks ≤ block ∧ (h'.lists post).data = some block ∧
      (h.lists post).size ≤ (h'.lists post).items.length ∧
      (h.lists post).items.length < (h'.lists post).items.length

namespace Later

variable {post : Bool} {h h' h'' : HookLists}

theorem refl (post : Bool) (h : HookLists) : Later post h h :=
  ⟨⟨[], (List.append_nil _).symm, fun _ hmem => by cases hmem⟩, le_rfl, le_rfl,
    .inl ⟨rfl, rfl, .inl rfl⟩⟩

theorem length_le (hlater : Later post h h') :
    (h.lists post).items.length ≤ (h'.lists post).items.length := by
  obtain ⟨new, hitems, -⟩ := hlater.items
  rw [hitems, List.length_append]
  exact Nat.le_add_right _ _

theorem trans (hlater : Later post h h') (hlater' : Later post h' h'') : Later post h h'' := by
  obtain ⟨new, hitems, hnew⟩ := hlater.items
  obtain ⟨new', hitems', hnew'⟩ := hlater'.items
  have hlen := hlater.length_le
  have hlen' := hlater'.length_le
  refine ⟨⟨new ++ new', ?_, fun fwd hmem => ?_⟩, hlater.forwards.trans hlater'.forwards,
    hlater.blocks.trans hlater'.blocks, ?_⟩
  · rw [hitems', hitems, List.append_assoc]
  · rcases List.mem_append.mp hmem with hmem | hmem
    · exact hnew fwd hmem
    · exact hlater.forwards.trans (hnew' fwd hmem)
  · rcases hlater.block with ⟨hdata, hsize, hroom⟩ | ⟨block, hfresh, hdata, hfull, hmore⟩
    · rcases hlater'.block with ⟨hdata', hsize', hroom'⟩ | ⟨block, hfresh, hdata', hfull, hmore⟩
      · refine .inl ⟨hdata'.trans hdata, hsize'.trans hsize, ?_⟩
        omega
      · exact .inr ⟨block, hlater.blocks.trans hfresh, hdata', hsize ▸ hfull,
          hlen.trans_lt hmore⟩
    · rcases hlater'.block with ⟨hdata', -, -⟩ | ⟨block', hfresh', hdata', -, -⟩
      · exact .inr ⟨block, hfresh, hdata'.trans hdata, hfull.trans hlen', hmore.trans_le hlen'⟩
      · exact .inr ⟨block', hlater.blocks.trans hfresh', hdata', hfull.trans hlen',
          hmore.trans_le hlen'⟩

theorem data_eq_iff (hlater : Later post h h') :
    (h'.lists post).data = (h.lists post).data ↔
      (h'.lists post).items.length = (h.lists post).items.length ∨
        (h'.lists post).items.length < (h.lists post).size := by
  rcases hlater.block with ⟨hdata, -, hroom⟩ | ⟨block, hfresh, hdata, hfull, hmore⟩
  · exact iff_of_true hdata hroom
  · refine iff_of_false (fun heq => ?_) (by omega)
    exact (h.fresh post block (heq.symm.trans hdata)).not_ge hfresh

theorem data_ne (hlater : Later post h h') (hlater' : Later post h' h'')
    (hmoved : (h'.lists post).data ≠ (h.lists post).data) :
    (h''.lists post).data ≠ (h.lists post).data := by
  have hlen := hlater.length_le
  have hlen' := hlater'.length_le
  rw [Ne, hlater.data_eq_iff] at hmoved
  rw [Ne, (hlater.trans hlater').data_eq_iff]
  omega

theorem register (post other : Bool) (h : HookLists) : Later post h (h.register other) := by
  have hforwards : h.forwards.length ≤ (h.register other).forwards.length := by
    rw [HookLists.register, List.length_append]
    exact Nat.le_add_right _ _
  by_cases hother : post = other
  · subst hother
    have hlist : (h.register post).lists post =
        (h.lists post).pushBack h.forwards.length h.blocks := Function.update_self ..
    have hitems : ((h.register post).lists post).items =
        (h.lists post).items ++ [h.forwards.length] := by rw [hlist, CVector.items_pushBack]
    refine ⟨⟨_, hitems, fun fwd hmem => (List.mem_singleton.mp hmem).ge⟩, hforwards,
      Nat.le_succ _, ?_⟩
    rw [hitems, List.length_append, List.length_singleton, hlist, CVector.pushBack]
    by_cases hfull : (h.lists post).Full
    · rw [dif_pos hfull]
      exact .inr ⟨h.blocks, le_rfl, rfl, hfull, Nat.lt_succ_self _⟩
    · rw [dif_neg hfull]
      exact .inl ⟨rfl, rfl, .inr (not_le.mp hfull)⟩
  · have hlist : (h.register other).lists post = h.lists post := Function.update_of_ne hother ..
    refine ⟨⟨[], ?_, fun _ hmem => by cases hmem⟩, hforwards, Nat.le_succ _, .inl ?_⟩
    · rw [hlist, List.append_nil]
    · rw [hlist]
      exact ⟨rfl, rfl, .inl rfl⟩

theorem setState (post : Bool) (h : HookLists) (fwd : Nat) (state : FwdState) :
    Later post h (h.setState fwd state) :=
  ⟨⟨[], (List.append_nil _).symm, fun _ hmem => by cases hmem⟩, List.length_set.ge, le_rfl,
    .inl ⟨rfl, rfl, .inl rfl⟩⟩

theorem natives (post : Bool) (h : HookLists) (calls : List HamNative) :
    Later post h (calls.foldl HamNative.run h) := by
  induction calls generalizing h with
  | nil => exact refl post h
  | cons call calls ih =>
      refine trans ?_ (ih (call.run h))
      cases call with
      | registerHam other => exact register post other h
      | disableHamForward fwd => exact setState post h fwd .stop
      | enableHamForward fwd => exact setState post h fwd .ok

end Later

namespace HookLists

variable {callback : Nat → List HamNative} {h : HookLists}

def turn (callback : Nat → List HamNative) (h : HookLists) (element : Nat × Nat) : HookLists :=
  if h.forwards[element.1]? = some .ok then (callback element.2).foldl HamNative.run h else h

theorem serve_fst (callback : Nat → List HamNative) (elements : List (Nat × Nat))
    (h : HookLists) : (serve callback elements h).1 = elements.foldl (turn callback) h := by
  induction elements generalizing h with
  | nil => rfl
  | cons element rest ih =>
      rw [serve, List.foldl_cons, turn]
      split
      · exact ih _
      · exact ih h

theorem serve_append (elements rest : List (Nat × Nat)) (h : HookLists) :
    serve callback (elements ++ rest) h =
      ((serve callback rest (serve callback elements h).1).1,
        (serve callback elements h).2 ++
          (serve callback rest (serve callback elements h).1).2) := by
  induction elements generalizing h with
  | nil => rfl
  | cons element elements ih =>
      rw [List.cons_append, serve, serve]
      split
      · rw [ih]
        rfl
      · exact ih h

theorem mem_of_mem_serve {fwd : Nat} {elements : List (Nat × Nat)} {h : HookLists}
    (hmem : fwd ∈ (serve callback elements h).2) : fwd ∈ elements.map (·.1) := by
  induction elements generalizing h with
  | nil => cases hmem
  | cons element elements ih =>
      rw [serve] at hmem
      rw [List.map_cons, List.mem_cons]
      split at hmem
      · exact (List.mem_cons.mp hmem).imp_right ih
      · exact .inr (ih hmem)

theorem later_turn (callback : Nat → List HamNative) (post : Bool) (h : HookLists)
    (element : Nat × Nat) : Later post h (turn callback h element) := by
  rw [turn]
  split
  · exact .natives post h _
  · exact .refl post h

theorem later_serve (post : Bool) (h : HookLists) (elements : List (Nat × Nat)) :
    Later post h (serve callback elements h).1 := by
  rw [serve_fst]
  induction elements generalizing h with
  | nil => exact .refl post h
  | cons element elements ih => exact (later_turn callback post h element).trans (ih _)

variable {post : Bool} {start : HookLists}

theorem deref_eq (hlater : Later post start h) {done rest : List Nat} {fwd : Nat}
    (hitems : (start.lists post).items = done ++ fwd :: rest) :
    (h.lists post).deref ⟨(start.lists post).data, done.length⟩ =
      if (h.lists post).data = (start.lists post).data then some fwd else none := by
  obtain ⟨new, hnew, -⟩ := hlater.items
  rw [CVector.deref, hnew, hitems, List.append_assoc, List.getElem?_append_right le_rfl,
    Nat.sub_self]
  exact if_congr eq_comm rfl rfl

theorem loop_eq (hlater : Later post start h) {done rest : List Nat}
    (hitems : (start.lists post).items = done ++ rest) :
    loop post callback (start.lists post).stop (rest.length + 1)
        ⟨(start.lists post).data, done.length⟩ h =
      if rest = [] ∨ ((serve callback (rest.zipIdx done.length).dropLast h).1.lists post).data =
          (start.lists post).data then
        some (serve callback (rest.zipIdx done.length) h)
      else none := by
  induction rest generalizing done h with
  | nil =>
      have hstop : (start.lists post).stop = ⟨(start.lists post).data, done.length⟩ := by
        rw [CVector.stop, hitems, List.append_nil]
      rw [loop, if_pos hstop.symm, if_pos (.inl rfl)]
      rfl
  | cons fwd rest ih =>
      have hstop : (⟨(start.lists post).data, done.length⟩ : Iterator) ≠
          (start.lists post).stop := by
        rw [CVector.stop, hitems, List.length_append, List.length_cons, Ne, Iterator.mk.injEq]
        omega
      rw [loop, if_neg hstop, deref_eq hlater hitems, List.zipIdx_cons]
      by_cases hdata : (h.lists post).data = (start.lists post).data
      · have hitems' : (start.lists post).items = (done ++ [fwd]) ++ rest := by
          rw [hitems, List.append_assoc]
          rfl
        have hih := ih (hlater.trans (later_turn callback post h (fwd, done.length))) hitems'
        rw [List.length_append, List.length_singleton] at hih
        -- the last element is read in its block, and what happens in its turn does not matter
        have hcond : (rest = [] ∨ ((serve callback (rest.zipIdx (done.length + 1)).dropLast
              (turn callback h (fwd, done.length))).1.lists post).data =
                (start.lists post).data) ↔
            (fwd :: rest = [] ∨ ((serve callback
              ((fwd, done.length) :: rest.zipIdx (done.length + 1)).dropLast h).1.lists
                post).data = (start.lists post).data) := by
          rw [or_iff_right (List.cons_ne_nil fwd rest)]
          cases rest with
          | nil => exact iff_of_true (.inl rfl) hdata
          | cons next rest =>
              rw [or_iff_right (List.cons_ne_nil next rest), List.zipIdx_cons,
                List.dropLast_cons_cons, serve_fst, serve_fst, List.foldl_cons]
        rw [if_pos hdata, ← if_congr hcond rfl rfl]
        rw [turn] at hih ⊢
        change (if _ then _ else _) = _
        rw [serve]
        by_cases henabled : h.forwards[fwd]? = some .ok
        · simp only [henabled, if_true] at hih ⊢
          rw [List.length_cons, hih]
          split <;> rfl
        · simp only [henabled, if_false] at hih ⊢
          exact hih
      · rw [if_neg hdata, if_neg]
        · rfl
        · rintro (hnil | hkept)
          · cases hnil
          · exact hlater.data_ne (later_serve post h _) hdata hkept

theorem forEach_eq (callback : Nat → List HamNative) (h : HookLists) (post : Bool) :
    h.forEach post callback = if h.Roomy post callback then
      some (serve callback (h.lists post).items.zipIdx h) else none := by
  refine (loop_eq (Later.refl post h) (List.nil_append (h.lists post).items).symm).trans
    (if_congr ?_ rfl rfl)
  rw [Roomy, (later_serve post h _).data_eq_iff]
  refine or_iff_right_of_imp fun hnil => ?_
  rw [hnil]
  exact .inl (congrArg List.length hnil)

end HookLists

/-! The whole call. -/

namespace Script

variable {s : Script} {h : HookLists}

theorem later_beforePost (s : Script) (h : HookLists) : Later true h (s.beforePost h) :=
  (HookLists.later_serve true h _).trans (.natives true _ s.original)

theorem call_roomy (hforwards : s.doForwards = true) (hpre : h.Roomy false (s.callback false))
    (hpost : (s.beforePost h).Roomy true (s.callback true)) :
    s.call h =
      some ((HookLists.serve (s.callback true) ((s.beforePost h).lists true).items.zipIdx
          (s.beforePost h)).1,
        (HookLists.serve (s.callback false) (h.lists false).items.zipIdx h).2 ++
          (HookLists.serve (s.callback true) ((s.beforePost h).lists true).items.zipIdx
            (s.beforePost h)).2) := by
  rw [call, loop, if_pos hforwards, HookLists.forEach_eq, if_pos hpre]
  change (do
    let post ← s.loop (s.beforePost h) true
    some (post.1, _ ++ post.2)) = _
  rw [loop, if_pos hforwards, HookLists.forEach_eq, if_pos hpost]
  rfl

theorem roomy_of_call (hforwards : s.doForwards = true) {result : HookLists × List Nat}
    (hcall : s.call h = some result) :
    h.Roomy false (s.callback false) ∧ (s.beforePost h).Roomy true (s.callback true) := by
  rw [call, loop, if_pos hforwards, HookLists.forEach_eq] at hcall
  by_cases hpre : h.Roomy false (s.callback false)
  · refine ⟨hpre, ?_⟩
    rw [if_pos hpre] at hcall
    change (do
      let post ← s.loop (s.beforePost h) true
      some (post.1, _ ++ post.2)) = _ at hcall
    rw [loop, if_pos hforwards, HookLists.forEach_eq] at hcall
    by_contra hpost
    rw [if_neg hpost] at hcall
    cases hcall
  · rw [if_neg hpre] at hcall
    cases hcall

/-- A hooked call is safe exactly where each of its lists has room for what is registered on
it during its loop, the turn of its last element apart. -/
theorem safe_iff (s : Script) (h : HookLists) :
    s.Safe h ↔ (s.doForwards = true →
      h.Roomy false (s.callback false) ∧ (s.beforePost h).Roomy true (s.callback true)) := by
  constructor
  · rintro ⟨final, more, hcall, -⟩ hforwards
    exact roomy_of_call hforwards hcall
  · intro hroomy
    rw [Safe, due]
    by_cases hforwards : s.doForwards = true
    · obtain ⟨hpre, hpost⟩ := hroomy hforwards
      have hcall := call_roomy hforwards hpre hpost
      obtain ⟨new, hitems, hnew⟩ := (later_beforePost s h).items
      rw [hitems, List.zipIdx_append, HookLists.serve_append, ← List.append_assoc] at hcall
      rw [if_pos hforwards]
      refine ⟨_, _, hcall, fun fwd hmem => hnew fwd ?_⟩
      have hfirst := HookLists.mem_of_mem_serve hmem
      rwa [List.zipIdx_map_fst] at hfirst
    · rw [if_neg hforwards]
      refine ⟨s.original.foldl HamNative.run h, [], ?_, fun _ hmem => by cases hmem⟩
      rw [call, loop, if_neg hforwards]
      change (do
        let post ← s.loop (s.original.foldl HamNative.run h) true
        some (post.1, [] ++ post.2)) = _
      rw [loop, if_neg hforwards]
      rfl

def seventh : Script := ⟨true, fun _ index => if index = 0 then [.registerHam false] else [], []⟩

theorem seventh_not_safe :
    ¬ seventh.Safe ((List.replicate 7 (HamNative.registerHam false)).foldl HamNative.run
      .empty) := by
  rintro ⟨final, more, hcall, -⟩
  have hnone : seventh.call ((List.replicate 7 (HamNative.registerHam false)).foldl
      HamNative.run .empty) = none := by
    rfl
  rw [hnone] at hcall
  cases hcall

end Script

end AmxModC.Ham
