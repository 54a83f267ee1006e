import AmxModC.Foundation.Run
import Mathlib.Tactic.Common

namespace AmxModC.Debug

/-! The calls that a tracer has recorded, in a doubly linked list whose nodes are used again. -/

/-- `trace_info`, at the place of `nodes` that is its address. -/
structure TraceInfo where
  cip : Int
  frm : Int
  next : Option Nat
  prev : Option Nat
  used : Bool
deriving DecidableEq

def TraceInfo.new : TraceInfo := ⟨0, 0, none, none, false⟩

structure Tracer where
  nodes : List TraceInfo
  start : Option Nat
  finish : Option Nat
  reset : Bool
deriving DecidableEq

namespace Tracer

def new : Tracer := ⟨[], none, none, true⟩

variable (t : Tracer)

def modify (address : Nat) (f : TraceInfo → TraceInfo) : Tracer :=
  { t with nodes := t.nodes.modify address f }

/-- `StepI` while there is no last call. -/
def first (frm cip : Int) : Tracer :=
  let (t, address) := match t.start with
    | some address => (t, address)
    | none =>
        ({ t with nodes := t.nodes ++ [TraceInfo.new], start := some t.nodes.length }, t.nodes.length)
  { t with finish := some address, reset := true }.modify address fun node =>
    { node with cip, frm, used := true }

def pushed (last : Nat) (node : TraceInfo) (frm : Int) : Tracer :=
  let (t, address) := match node.next with
    | some next => (t.modify next fun node => { node with used := true }, next)
    | none =>
        ({ t with nodes := t.nodes ++ [TraceInfo.new] }
          |>.modify last (fun node => { node with next := some t.nodes.length })
          |>.modify t.nodes.length (fun node => { node with prev := some last, used := true }),
          t.nodes.length)
  { t with finish := some address }.modify address fun node => { node with frm }

def popped (last : Nat) (node : TraceInfo) : Tracer :=
  { t.modify last fun node => { node with used := false } with finish := node.prev }

/-- `none` stands for a failed assertion or a null pointer. -/
def stepI (frm cip : Int) : Option Tracer :=
  match t.finish with
  | none => if t.reset then some (t.first frm cip) else none
  | some last => do
      let node ← t.nodes[last]?
      let t :=
        if node.frm > frm then t.pushed last node frm
        else if node.frm < frm then t.popped last node
        else t
      let last ← t.finish
      return t.modify last fun node => { node with cip }

/-- The loop of `Reset`. -/
def clearUsed : Nat → Option Nat → List TraceInfo → List TraceInfo
  | 0, _, nodes => nodes
  | _ + 1, none, nodes => nodes
  | fuel + 1, some address, nodes =>
      match nodes[address]? with
      | some node =>
          if node.used then
            clearUsed fuel node.next (nodes.modify address fun node => { node with used := false })
          else nodes
      | none => nodes

def resetCalls : Tracer :=
  { t with nodes := clearUsed t.nodes.length t.start t.nodes, finish := none, reset := true }

/-- `GetNextTrace`. -/
def getNextTrace (node : TraceInfo) : Option Nat :=
  node.prev.filter fun prev => (t.nodes[prev]?).any TraceInfo.used

def walk : Nat → Nat → List Int
  | 0, _ => []
  | fuel + 1, address =>
      match t.nodes[address]? with
      | some node => node.frm :: ((t.getNextTrace node).map (walk fuel)).getD []
      | none => []

def trace : List Int := (t.finish.map (t.walk t.nodes.length)).getD []

/-! How the nodes are linked. -/

structure Sound : Prop where
  next : ∀ i node, t.nodes[i]? = some node →
    node.next = if i + 1 < t.nodes.length then some (i + 1) else none
  prev : ∀ i node, t.nodes[i]? = some node → node.prev = if i = 0 then none else some (i - 1)
  start : t.start = if t.nodes.length = 0 then none else some 0
  finish : ∀ last, t.finish = some last → last < t.nodes.length
  used : ∀ i node, t.nodes[i]? = some node →
    (node.used = true ↔ ∃ last, t.finish = some last ∧ i ≤ last)
  reset : t.reset = true

theorem sound_new : new.Sound where
  next i node h := by simp [new] at h
  prev i node h := by simp [new] at h
  start := rfl
  finish last h := by simp [new] at h
  used i node h := by simp [new] at h
  reset := rfl

def frames : List Int :=
  (t.finish.map fun last => ((t.nodes.map TraceInfo.frm).take (last + 1)).reverse).getD []

theorem getElem?_modify_eq_some {nodes : List TraceInfo} {address i : Nat}
    {f : TraceInfo → TraceInfo} {node' : TraceInfo} :
    (nodes.modify address f)[i]? = some node' ↔
      ∃ node, nodes[i]? = some node ∧ node' = if address = i then f node else node := by
  rw [List.getElem?_modify, Option.map_eq_map, Option.map_eq_some_iff]
  simp only [eq_comm]

theorem map_frm_modify {nodes : List TraceInfo} {address : Nat} {f : TraceInfo → TraceInfo}
    (hfrm : ∀ node, (f node).frm = node.frm) :
    (nodes.modify address f).map TraceInfo.frm = nodes.map TraceInfo.frm := by
  apply List.ext_getElem?
  intro i
  rw [List.getElem?_map, List.getElem?_map, List.getElem?_modify]
  cases nodes[i]? with
  | none => rfl
  | some node =>
      by_cases hi : address = i
      next => simp [hi, hfrm]
      next => simp [hi]

theorem map_frm_modify_frm {nodes : List TraceInfo} {address : Nat} {frm : Int} :
    (nodes.modify address fun node => { node with frm }).map TraceInfo.frm =
      (nodes.map TraceInfo.frm).set address frm := by
  apply List.ext_getElem?
  intro i
  rw [List.getElem?_map, List.getElem?_modify, List.getElem?_set]
  by_cases hi : address = i
  next =>
    subst hi
    cases hnode : nodes[address]? with
    | none => simp [List.getElem?_eq_none_iff.mp hnode]
    | some node => simp [(List.getElem?_eq_some_iff.mp hnode).1]
  next => cases hnode : nodes[i]? <;> simp [hi, hnode]

variable {t}

namespace Sound

variable {last : Nat}

theorem relabel (h : t.Sound) (address : Nat) {f : TraceInfo → TraceInfo} (finish : Option Nat)
    (hnext : ∀ node, (f node).next = node.next) (hprev : ∀ node, (f node).prev = node.prev)
    (hfinish : ∀ last, finish = some last → last < t.nodes.length)
    (hused : ∀ i node, t.nodes[i]? = some node →
      ((if address = i then f node else node).used = true ↔
        ∃ last, finish = some last ∧ i ≤ last)) :
    ({ t.modify address f with finish } : Tracer).Sound where
  next i node' hnode' := by
    obtain ⟨node, hnode, rfl⟩ := getElem?_modify_eq_some.mp hnode'
    have := h.next i node hnode
    simp only [Tracer.modify, List.length_modify]
    split <;> simp_all
  prev i node' hnode' := by
    obtain ⟨node, hnode, rfl⟩ := getElem?_modify_eq_some.mp hnode'
    have := h.prev i node hnode
    split <;> simp_all
  start := by
    simp only [Tracer.modify, List.length_modify]
    exact h.start
  finish last hlast := by
    simp only [Tracer.modify, List.length_modify]
    exact hfinish last hlast
  used i node' hnode' := by
    obtain ⟨node, hnode, rfl⟩ := getElem?_modify_eq_some.mp hnode'
    exact hused i node hnode
  reset := h.reset

theorem modify (h : t.Sound) (address : Nat) {f : TraceInfo → TraceInfo}
    (hnext : ∀ node, (f node).next = node.next) (hprev : ∀ node, (f node).prev = node.prev)
    (hused : ∀ node, (f node).used = node.used) : (t.modify address f).Sound := by
  apply h.relabel address t.finish hnext hprev h.finish
  intro i node hnode
  rw [← h.used i node hnode]
  split
  · rw [hused]
  · rfl

theorem mark (h : t.Sound) (address : Nat) (used : Bool) (finish : Option Nat)
    (hfinish : ∀ last, finish = some last → last < t.nodes.length)
    (hused : ∀ i < t.nodes.length,
      (if address = i then used = true else ∃ last, t.finish = some last ∧ i ≤ last) ↔
        ∃ last, finish = some last ∧ i ≤ last) :
    ({ t.modify address fun node => { node with used } with finish } : Tracer).Sound := by
  refine h.relabel address (f := fun node => { node with used }) finish (fun _ => rfl)
    (fun _ => rfl) hfinish fun i node hnode => ?_
  rw [← hused i (List.getElem?_eq_some_iff.mp hnode).1]
  split
  · rfl
  · exact h.used i node hnode

theorem allocate (h : t.Sound) {last : Nat} (hlast : t.finish = some last)
    (hlength : last + 1 = t.nodes.length) :
    ({ t with nodes := t.nodes ++ [TraceInfo.new] }
      |>.modify last (fun node => { node with next := some t.nodes.length })
      |>.modify t.nodes.length (fun node => { node with prev := some last })).Sound where
  next i node'' hnode'' := by
    obtain ⟨node', hnode', rfl⟩ := getElem?_modify_eq_some.mp hnode''
    obtain ⟨node, hnode, rfl⟩ := getElem?_modify_eq_some.mp hnode'
    have := h.next i node
    simp only [Tracer.modify, List.length_modify, List.length_append, List.length_singleton]
    grind [TraceInfo.new, Tracer.modify]
  prev i node'' hnode'' := by
    obtain ⟨node', hnode', rfl⟩ := getElem?_modify_eq_some.mp hnode''
    obtain ⟨node, hnode, rfl⟩ := getElem?_modify_eq_some.mp hnode'
    have := h.prev i node
    grind [TraceInfo.new, Tracer.modify]
  start := by
    have := h.start
    simp only [Tracer.modify, List.length_modify, List.length_append, List.length_singleton]
    grind [TraceInfo.new, Tracer.modify]
  finish last' hlast' := by
    have := h.finish last' hlast'
    simp only [Tracer.modify, List.length_modify, List.length_append, List.length_singleton]
    omega
  used i node'' hnode'' := by
    obtain ⟨node', hnode', rfl⟩ := getElem?_modify_eq_some.mp hnode''
    obtain ⟨node, hnode, rfl⟩ := getElem?_modify_eq_some.mp hnode'
    have := h.used i node
    grind [TraceInfo.new, Tracer.modify]
  reset := h.reset

theorem first (h : t.Sound) (hend : t.finish = none) (frm cip : Int) :
    (t.first frm cip).Sound ∧ (t.first frm cip).frames = [frm] := by
  have hstart := h.start
  cases hnodes : t.nodes with
  | nil =>
      rw [if_pos (by simp [hnodes])] at hstart
      have hfirst : t.first frm cip = ⟨[⟨cip, frm, none, none, true⟩], some 0, some 0, true⟩ := by
        simp [Tracer.first, hstart, hnodes, Tracer.modify, TraceInfo.new]
      rw [hfirst]
      refine ⟨⟨?_, ?_, rfl, ?_, ?_, rfl⟩, rfl⟩
      all_goals grind
  | cons node rest =>
      rw [if_neg (by simp [hnodes])] at hstart
      have hset := h.modify 0 (f := fun node => { node with cip, frm }) (fun _ => rfl)
        (fun _ => rfl) (fun _ => rfl)
      have hmarked := hset.mark 0 true (some 0)
        (fun last hlast => by cases hlast; simp [Tracer.modify, hnodes])
        (fun i hi => by simp [Tracer.modify, hend, eq_comm])
      have hfirst : t.first frm cip = { (t.modify 0 fun node => { node with cip, frm }).modify 0
          (fun node => { node with used := true }) with finish := some 0 } := by
        simp [Tracer.first, hstart, Tracer.modify, List.modify_modify_eq, Function.comp_def,
          h.reset]
      rw [hfirst]
      refine ⟨hmarked, ?_⟩
      simp [frames, hnodes, Tracer.modify]

end Sound

theorem frames_modify (address : Nat) {f : TraceInfo → TraceInfo}
    (hfrm : ∀ node, (f node).frm = node.frm) : (t.modify address f).frames = t.frames := by
  unfold frames Tracer.modify
  rw [map_frm_modify hfrm]

namespace Sound

theorem frames_eq (hlast : t.finish = some last) :
    t.frames = ((t.nodes.map TraceInfo.frm).take (last + 1)).reverse := by
  unfold frames
  rw [hlast]
  rfl

def extended (t : Tracer) (last : Nat) (frm : Int) : Tracer :=
  ({ t.modify (last + 1) (fun node => { node with used := true }) with
    finish := some (last + 1) } : Tracer).modify (last + 1) fun node => { node with frm }

theorem extended_spec (h : t.Sound) (hlast : t.finish = some last)
    (hlength : last + 1 < t.nodes.length) (frm : Int) :
    (extended t last frm).Sound ∧ (extended t last frm).frames = frm :: t.frames ∧
      (extended t last frm).finish = some (last + 1) := by
  have hmarked := h.mark (last + 1) true (some (last + 1))
    (fun last' hlast' => by cases hlast'; exact hlength)
    (fun i hi => by
      simp only [hlast, Option.some.injEq, exists_eq_left']
      split
      next heq => simp [heq]
      next hne => omega)
  refine ⟨hmarked.modify (last + 1) (fun _ => rfl) (fun _ => rfl) (fun _ => rfl), ?_, rfl⟩
  have hextended : (extended t last frm).finish = some (last + 1) := rfl
  rw [frames_eq hextended, frames_eq hlast]
  have hkept : (t.nodes.modify (last + 1) fun node => { node with used := true }).map
      TraceInfo.frm = t.nodes.map TraceInfo.frm := map_frm_modify fun _ => rfl
  simp only [extended, Tracer.modify]
  rw [map_frm_modify_frm, hkept, List.take_add_one (i := last + 1),
    List.take_set_of_le (Nat.le_refl _), List.getElem?_set_self (by simpa using hlength),
    Option.toList_some, List.reverse_append, List.reverse_singleton, List.singleton_append]

theorem pushed (h : t.Sound) {node : TraceInfo} (hlast : t.finish = some last)
    (hnode : t.nodes[last]? = some node) (frm : Int) :
    (t.pushed last node frm).Sound ∧ (t.pushed last node frm).frames = frm :: t.frames ∧
      (t.pushed last node frm).finish = some (last + 1) := by
  have hnext := h.next last node hnode
  by_cases hlength : last + 1 < t.nodes.length
  next =>
    rw [if_pos hlength] at hnext
    have hpushed : t.pushed last node frm = extended t last frm := by
      unfold Tracer.pushed
      rw [hnext]
      rfl
    rw [hpushed]
    exact h.extended_spec hlast hlength frm
  next =>
    rw [if_neg hlength] at hnext
    have hend : last + 1 = t.nodes.length := by
      have := h.finish last hlast
      omega
    have hallocated := h.allocate hlast hend
    have hframes : ({ t with nodes := t.nodes ++ [TraceInfo.new] }
        |>.modify last (fun node => { node with next := some t.nodes.length })
        |>.modify t.nodes.length (fun node => { node with prev := some last })).frames =
          t.frames := by
      rw [frames_modify, frames_modify, frames_eq hlast,
        frames_eq (t := { t with nodes := t.nodes ++ [TraceInfo.new] }) hlast, List.map_append,
        List.take_append_of_le_length (by simp [hend])]
      all_goals exact fun _ => rfl
    have hpushed : t.pushed last node frm = extended
        ({ t with nodes := t.nodes ++ [TraceInfo.new] }
          |>.modify last (fun node => { node with next := some t.nodes.length })
          |>.modify t.nodes.length (fun node => { node with prev := some last })) last frm := by
      unfold Tracer.pushed
      rw [hnext]
      simp [extended, Tracer.modify, List.modify_modify_eq, Function.comp_def, hend]
    rw [hpushed, ← hframes]
    refine hallocated.extended_spec hlast ?_ frm
    simp [Tracer.modify, hend]

theorem popped (h : t.Sound) {node : TraceInfo} (hlast : t.finish = some last)
    (hnode : t.nodes[last]? = some node) :
    (t.popped last node).Sound ∧ (t.popped last node).frames = t.frames.tail ∧
      (t.popped last node).finish = if last = 0 then none else some (last - 1) := by
  have hprev := h.prev last node hnode
  have hlength := h.finish last hlast
  have hkept : (t.nodes.modify last fun node => { node with used := false }).map
      TraceInfo.frm = t.nodes.map TraceInfo.frm := map_frm_modify fun _ => rfl
  refine ⟨h.mark last false node.prev ?_ ?_, ?_, hprev⟩
  · intro last' hlast'
    rw [hprev] at hlast'
    split at hlast'
    next => cases hlast'
    next => cases hlast'; omega
  · intro i hi
    rw [hprev, hlast]
    grind
  · rw [frames_eq hlast]
    cases last with
    | zero =>
        have hpopped : (t.popped 0 node).finish = none := hprev
        cases hnodes : t.nodes with
        | nil => simp [frames, hpopped]
        | cons => simp [frames, hpopped]
    | succ last =>
        have hpopped : (t.popped (last + 1) node).finish = some last := hprev
        rw [frames_eq hpopped, List.take_add_one (i := last + 1), List.reverse_append,
          List.getElem?_eq_getElem (by simpa using hlength)]
        exact congrArg (fun frms => (frms.take (last + 1)).reverse) hkept

theorem head?_frames (hlast : t.finish = some last) {node : TraceInfo}
    (hnode : t.nodes[last]? = some node) : ∃ rest, t.frames = node.frm :: rest ∧
      (rest = [] ↔ last = 0) := by
  obtain ⟨hlt, hget⟩ := List.getElem?_eq_some_iff.mp hnode
  refine ⟨((t.nodes.map TraceInfo.frm).take last).reverse, ?_, ?_⟩
  · rw [frames_eq hlast, List.take_add_one, List.reverse_append, List.getElem?_map, hnode]
    rfl
  · simp only [List.reverse_eq_nil_iff, List.take_eq_nil_iff, List.map_eq_nil_iff]
    refine ⟨fun h => h.resolve_right fun hnil => ?_, .inl⟩
    simp [hnil] at hlt

end Sound

def follow (frm : Int) : List Int → Option (List Int)
  | [] => some [frm]
  | last :: rest =>
      if last > frm then some (frm :: last :: rest)
      else if last < frm then if rest = [] then none else some rest
      else some (last :: rest)

namespace Sound

theorem saved (h : t.Sound) (cip : Int) :
    (t.finish.bind fun last => some (t.modify last fun node => { node with cip })).map
        (fun t' => t'.frames) = t.finish.map (fun _ => t.frames) ∧
      ∀ t', (t.finish.bind fun last => some (t.modify last fun node => { node with cip })) =
        some t' → t'.Sound := by
  cases hlast : t.finish with
  | none => exact ⟨rfl, fun t' ht' => nomatch ht'⟩
  | some last =>
      refine ⟨congrArg some (frames_modify last fun _ => rfl), fun t' ht' => ?_⟩
      cases ht'
      exact h.modify last (fun _ => rfl) (fun _ => rfl) (fun _ => rfl)

theorem stepI (h : t.Sound) (frm cip : Int) :
    (t.stepI frm cip).map (fun t' => t'.frames) = follow frm t.frames ∧
      ∀ t', t.stepI frm cip = some t' → t'.Sound := by
  cases hlast : t.finish with
  | none =>
      have hframes : t.frames = [] := by simp [frames, hlast]
      have hstep : t.stepI frm cip = some (t.first frm cip) := by
        unfold Tracer.stepI
        rw [hlast]
        exact if_pos h.reset
      obtain ⟨hsound, hfirst⟩ := h.first hlast frm cip
      rw [hstep, hframes]
      exact ⟨congrArg some hfirst, fun t' ht' => Option.some.inj ht' ▸ hsound⟩
  | some last =>
      have hnode := List.getElem?_eq_getElem (h.finish last hlast)
      obtain ⟨rest, hframes, hrest⟩ := head?_frames hlast hnode
      unfold Tracer.stepI follow
      rw [hlast, hframes]
      simp only [hnode, Option.bind_eq_bind, Option.bind_some, Option.pure_def]
      split
      next hpush =>
        obtain ⟨hsound, hpushed, hfinish⟩ := h.pushed hlast hnode frm
        have hsaved := hsound.saved cip
        rw [hpushed, hframes, hfinish] at hsaved
        rw [hfinish]
        exact hsaved
      next =>
        split
        next hpop =>
          obtain ⟨hsound, hpopped, hfinish⟩ := h.popped hlast hnode
          have hsaved := hsound.saved cip
          rw [hpopped, hframes, hfinish] at hsaved
          rw [hfinish]
          by_cases hzero : last = 0
          next =>
            rw [if_pos hzero] at hsaved
            rw [if_pos hzero, if_pos (hrest.mpr hzero)]
            exact hsaved
          next =>
            rw [if_neg hzero] at hsaved
            rw [if_neg hzero, if_neg fun hnil => hzero (hrest.mp hnil)]
            exact hsaved
        next =>
          have hsaved := h.saved cip
          rw [hframes, hlast] at hsaved
          rw [hlast]
          exact hsaved

end Sound

def cleared (nodes : List TraceInfo) : List TraceInfo :=
  nodes.map fun node => { node with used := false }

theorem cleared_of_unused {nodes : List TraceInfo}
    (h : ∀ (i : Nat) node, nodes[i]? = some node → ¬node.used = true) : cleared nodes = nodes := by
  apply List.ext_getElem?
  intro i
  rw [cleared, List.getElem?_map]
  cases hnode : nodes[i]? with
  | none => rfl
  | some node =>
      have hunused := Bool.eq_false_iff.mpr (h i node hnode)
      rw [Option.map_some, ← hunused]

theorem cleared_modify (nodes : List TraceInfo) (address : Nat) :
    cleared (nodes.modify address fun node => { node with used := false }) = cleared nodes := by
  apply List.ext_getElem?
  intro i
  rw [cleared, cleared, List.getElem?_map, List.getElem?_map, List.getElem?_modify]
  cases nodes[i]? with
  | none => rfl
  | some node => by_cases hi : address = i <;> simp [hi]

theorem clearUsed_eq_cleared {nodes : List TraceInfo} {fuel address : Nat} (count : Nat)
    (hfuel : nodes.length ≤ address + fuel)
    (hnext : ∀ i node, nodes[i]? = some node →
      node.next = if i + 1 < nodes.length then some (i + 1) else none)
    (hused : ∀ i node, nodes[i]? = some node → (node.used = true ↔ address ≤ i ∧ i < count)) :
    clearUsed fuel (if address < nodes.length then some address else none) nodes =
      cleared nodes := by
  induction fuel generalizing nodes address with
  | zero =>
      rw [clearUsed]
      refine (cleared_of_unused fun i node hnode hmarked => ?_).symm
      have := (List.getElem?_eq_some_iff.mp hnode).1
      have := (hused i node hnode).mp hmarked
      omega
  | succ fuel ih =>
      by_cases haddress : address < nodes.length
      next =>
        have hnode := List.getElem?_eq_getElem haddress
        rw [if_pos haddress, clearUsed, hnode]
        simp only
        split
        next hmarked =>
          have hcount := (hused address _ hnode).mp hmarked
          have hlength : (nodes.modify address fun node => { node with used := false }).length =
            nodes.length := List.length_modify _ _ _
          rw [hnext address _ hnode, ← cleared_modify nodes address, ← hlength]
          apply ih
          · rw [hlength]
            omega
          · intro i node' hnode'
            obtain ⟨node, hnode, rfl⟩ := getElem?_modify_eq_some.mp hnode'
            have := hnext i node hnode
            rw [hlength]
            split <;> exact this
          · intro i node' hnode'
            obtain ⟨node, hnode, rfl⟩ := getElem?_modify_eq_some.mp hnode'
            have := hused i node hnode
            split
            next heq => simp [heq]
            next hne => rw [this]; omega
        next hunmarked =>
          refine (cleared_of_unused fun i node hnode' hmarked => ?_).symm
          have := (hused i node hnode').mp hmarked
          have := (hused address _ hnode).not.mp hunmarked
          omega
      next =>
        rw [if_neg haddress, clearUsed]
        refine (cleared_of_unused fun i node hnode hmarked => ?_).symm
        have := (List.getElem?_eq_some_iff.mp hnode).1
        have := (hused i node hnode).mp hmarked
        omega

namespace Sound

theorem resetCalls (h : t.Sound) : t.resetCalls.Sound ∧ t.resetCalls.frames = [] := by
  have hnodes : t.resetCalls.nodes = cleared t.nodes := by
    have hstart : t.start = if 0 < t.nodes.length then some 0 else none := by
      rw [h.start]
      cases t.nodes <;> rfl
    unfold Tracer.resetCalls
    simp only
    rw [hstart]
    refine clearUsed_eq_cleared ((t.finish.map (· + 1)).getD 0) (by omega) h.next ?_
    intro i node hnode
    rw [h.used i node hnode]
    cases t.finish with
    | none => simp
    | some last => simp [Nat.lt_succ_iff]
  have hlength : t.resetCalls.nodes.length = t.nodes.length := by
    rw [hnodes]
    exact List.length_map _
  have hget : ∀ {i : Nat} {node' : TraceInfo}, t.resetCalls.nodes[i]? = some node' →
      ∃ node, t.nodes[i]? = some node ∧ node' = { node with used := false } := by
    intro i node' hnode'
    rw [hnodes, cleared, List.getElem?_map] at hnode'
    obtain ⟨node, hnode, rfl⟩ := Option.map_eq_some_iff.mp hnode'
    exact ⟨node, hnode, rfl⟩
  refine ⟨⟨?_, ?_, ?_, ?_, ?_, rfl⟩, rfl⟩
  · intro i node' hnode'
    obtain ⟨node, hnode, rfl⟩ := hget hnode'
    rw [hlength]
    exact h.next i node hnode
  · intro i node' hnode'
    obtain ⟨node, hnode, rfl⟩ := hget hnode'
    exact h.prev i node hnode
  · rw [hlength]
    exact h.start
  · exact fun last hlast => nomatch hlast
  · intro i node' hnode'
    obtain ⟨node, hnode, rfl⟩ := hget hnode'
    simp [Tracer.resetCalls]

theorem walk_eq (h : t.Sound) (hlast : t.finish = some last) {fuel address : Nat}
    (hfuel : address < fuel) (hle : address ≤ last) :
    t.walk fuel address = ((t.nodes.map TraceInfo.frm).take (address + 1)).reverse := by
  induction fuel generalizing address with
  | zero => omega
  | succ fuel ih =>
      have hlt : address < t.nodes.length := by
        have := h.finish last hlast
        omega
      have hnode := List.getElem?_eq_getElem hlt
      have hprev := h.prev address _ hnode
      rw [walk, hnode, List.take_add_one, List.reverse_append, List.getElem?_map, hnode]
      simp only [Option.map_some, Option.toList_some, List.reverse_singleton,
        List.singleton_append, List.cons.injEq, true_and]
      cases address with
      | zero =>
          have hnone : t.getNextTrace t.nodes[0] = none := by
            rw [getNextTrace, hprev]
            rfl
          rw [hnone]
          rfl
      | succ address =>
          have hbefore := List.getElem?_eq_getElem (Nat.lt_of_succ_lt hlt)
          have hmarked : t.nodes[address].used = true :=
            (h.used address _ hbefore).mpr ⟨last, hlast, by omega⟩
          have hnext : t.getNextTrace t.nodes[address + 1] = some address := by
            rw [getNextTrace, hprev]
            simp [Option.filter, hbefore, hmarked]
          rw [hnext]
          exact ih (by omega) (by omega)

theorem trace_eq_frames (h : t.Sound) : t.trace = t.frames := by
  unfold trace frames
  cases hlast : t.finish with
  | none => rfl
  | some last => exact h.walk_eq hlast (h.finish last hlast) (Nat.le_refl last)

end Sound

end Tracer

end AmxModC.Debug
