import AmxModC.Foundation.Block
import AmxModC.Foundation.Keyed
import AmxModC.Foundation.Run
import Mathlib.Data.Finset.Card
import Mathlib.Data.List.Sort

namespace AmxModC.Compiler.States

open Foundation

/-! The lists of the states that function implementations belong to, and the table with a
number for each of them. -/

/-- `*list` and `*count`.  `*listsize` elements are allocated, and nothing was written yet to an
element that is `none`. -/
structure Building where
  list : List (Option Int)
  count : Nat

namespace Building

def empty : Building := ⟨[], 0⟩

def listsize (b : Building) : Nat := b.list.length

/-- The first `*count` elements. -/
def states (b : Building) : Option (List Int) :=
  (b.list.take b.count).mapM id

/-- Four elements more where the list is full; `realloc` leaves them as they are. -/
def grown (b : Building) : List (Option Int) :=
  if b.count = b.listsize then b.list ++ List.replicate 4 none else b.list

end Building

/-- `*list[idx]`, which is `*(list[idx])`: only at `list[0]` does the caller have a pointer. -/
def pointee (list : List (Option Int)) : Nat → Option Int
  | 0 => list[0]?.join
  | _ + 1 => none

/-- The loop for the insertion point, with the turns that are left up to `*count`. -/
def insertionPoint (list : List (Option Int)) (stateid : Int) : Nat → Nat → Option Nat
  | 0, idx => some idx
  | turns + 1, idx => do
      let value ← pointee list idx
      if value < stateid then insertionPoint list stateid turns (idx + 1) else some idx

/-- `memmove` within the list -/
def memmove (list : List (Option Int)) (target source size : Nat) : Option (List (Option Int)) :=
  (Block.read list source size).bind (Block.write list target)

def stateBuildlist (b : Building) (stateid : Int) : Option Building := do
  let idx ← insertionPoint b.grown stateid b.count 0
  let list ← if idx < b.count then memmove b.grown (idx + 1) idx (b.count - idx + 1)
    else some b.grown
  let list ← Block.write list idx [some stateid]
  return { list, count := b.count + 1 }

/-- `statelist` -/
structure Statelist where
  states : List Int
  fsa : Int
  listid : Nat

namespace Statelist

def numstates (ptr : Statelist) : Nat := ptr.states.length

def combination (ptr : Statelist) : Int × List Int := (ptr.fsa, ptr.states)

end Statelist

def agreeing : List Int → List Int → Nat
  | state :: states, item :: list => if state = item then agreeing states list + 1 else 0
  | _, _ => 0

/-- The loop of `state_findlist`, with `*last`. -/
def stateFindlist (list : List Int) (fsa : Int) :
    List Statelist → Nat → Option Statelist × Nat
  | [], last => (none, last)
  | ptr :: rest, last =>
      let last := if last < ptr.listid then ptr.listid else last
      if ptr.fsa = fsa ∧ ptr.numstates = list.length ∧ agreeing ptr.states list = list.length then
        (some ptr, last)
      else stateFindlist list fsa rest last

/-- `INT_MAX` -/
abbrev intMax : Nat := 2147483647

/-- `state_addlist`; an `int` has no `last+1` behind the last. -/
def stateAddlist (tab : List Statelist) (list : List Int) (fsa : Int) :
    Option (List Statelist × Nat) :=
  match stateFindlist list fsa tab 0 with
  | (some ptr, _) => some (tab, ptr.listid)
  | (none, last) =>
      if last < intMax then some ({ states := list, fsa, listid := last + 1 } :: tab, last + 1)
      else none

/-- The states that stand behind the name of a function, by the ids that `state_add` has for
them, and their automaton. -/
structure Implementation where
  fsa : Int
  states : List Int
  nonempty : states ≠ []

/-- `statelist_tab`, and the list ids that the implementations were given. -/
structure Compilation where
  statelistTab : List Statelist
  attached : List (Implementation × Nat)

def Compilation.start : Compilation := ⟨[], []⟩

/-- What `getstates` does with the states of an implementation. -/
def getstates (c : Compilation) (d : Implementation) : Option Compilation := do
  let built ← run stateBuildlist .empty d.states
  let list ← built.states
  let (statelistTab, listid) ← stateAddlist c.statelistTab list d.fsa
  return { statelistTab, attached := c.attached ++ [(d, listid)] }

/-- Each call leaves the list sorted and with the states given so far, inside its memory, and
the ids tell the implementations apart by automaton and set of states. -/
structure Canonical (decls : List Implementation) : Prop where
  kept : ∀ d ∈ decls, ∀ given, given <+: d.states →
    ∃ built states, run stateBuildlist .empty given = some built ∧ built.states = some states ∧
      states.Pairwise (· ≤ ·) ∧ states.Perm given
  same : ∃ final, run getstates .start decls = some final ∧ final.attached.map Prod.fst = decls ∧
    ∀ first ∈ final.attached, ∀ second ∈ final.attached, first.2 = second.2 ↔
      first.1.fsa = second.1.fsa ∧ first.1.states.toFinset = second.1.states.toFinset

def Fits : List Int → Prop
  | [] | [_] | [_, _] => True
  | [first, second, third] => third ≤ first ∧ third ≤ second
  | _ => False

def Implementation.combination (d : Implementation) : Int × List Int :=
  (d.fsa, d.states.insertionSort (· ≤ ·))

structure Safe (decls : List Implementation) : Prop where
  few : ∀ d ∈ decls, Fits d.states
  /-- A state is repeated as often wherever the set of states is the same. -/
  repeats : ∀ first ∈ decls, ∀ second ∈ decls, first.fsa = second.fsa →
    first.states.toFinset = second.states.toFinset → first.states.Perm second.states
  room : (decls.map Implementation.combination).toFinset.card ≤ intMax

/-! One call. -/

structure Holds (b : Building) (states : List Int) : Prop where
  count : b.count = states.length
  written : states.map some <+: b.list
  listsize : b.listsize = (states.length + 3) / 4 * 4

/-- One more state is nothing to a list of at most one; otherwise it has to be first, and the
block has to have another element behind it. -/
def Allowed (states : List Int) (stateid : Int) : Prop :=
  states.length ≤ 1 ∨ (∀ first ∈ states.head?, stateid ≤ first) ∧ states.length % 4 ≠ 3

section

variable {b : Building} {states rest : List Int} {first stateid : Int}
  {list moved : List (Option Int)}

theorem holds_empty : Holds .empty [] := ⟨rfl, List.nil_prefix, rfl⟩

theorem mapM_id_map_some (l : List Int) : (l.map some).mapM id = some l := by
  induction l with
  | nil => rfl
  | cons a l ih => simp [ih]

theorem Holds.states_eq (h : Holds b states) : b.states = some states := by
  have htake : b.list.take b.count = states.map some := by
    have htake := List.prefix_iff_eq_take.mp h.written
    rw [List.length_map] at htake
    rw [h.count, ← htake]
  rw [Building.states, htake]
  exact mapM_id_map_some states

theorem Holds.grown_written (h : Holds b states) : states.map some <+: b.grown := by
  unfold Building.grown
  split
  · exact h.written.trans (List.prefix_append _ _)
  · exact h.written

theorem Holds.length_grown (h : Holds b states) :
    b.grown.length = (states.length / 4 + 1) * 4 := by
  have hcount := h.count
  have hsize := h.listsize
  have hlength : b.list.length = b.listsize := rfl
  unfold Building.grown
  split
  · rw [List.length_append, List.length_replicate]
    omega
  · omega

theorem insertionPoint_cons (hfirst : list[0]? = some (some first)) (turns : Nat) :
    insertionPoint list stateid (turns + 1) 0 =
      if first < stateid then if turns = 0 then some 1 else none else some 0 := by
  have hpointee : pointee list 0 = some first := by rw [pointee, hfirst, Option.join_some]
  rw [insertionPoint, hpointee, Option.bind_eq_bind, Option.bind_some]
  refine if_congr Iff.rfl ?_ rfl
  cases turns with
  | zero => rfl
  | succ turns => rfl

theorem memmove_eq_some {size : Nat} :
    memmove list 1 0 size = some moved ↔
      1 + size ≤ list.length ∧ list.take 1 ++ list.take size ++ list.drop (1 + size) = moved := by
  simp only [memmove, Option.bind_eq_some_iff, Block.read_eq_some, Block.write_eq_some]
  constructor
  · rintro ⟨_, ⟨hle, rfl⟩, hmoved, rfl⟩
    simp_all
  · rintro ⟨hle, rfl⟩
    refine ⟨_, ⟨by omega, rfl⟩, ?_, ?_⟩
    · simp
      omega
    · simp
      omega

theorem Holds.of_grown (h : Holds b states) {states' : List Int}
    (hlength : list.length = b.grown.length) (hwritten : states'.map some <+: list)
    (hstates : states'.length = states.length + 1) : Holds ⟨list, b.count + 1⟩ states' where
  count := by rw [hstates, h.count]
  written := hwritten
  listsize := by
    have hgrown := h.length_grown
    rw [Building.listsize, hlength, hstates]
    omega

theorem Holds.push (h : Holds b states) (stateid : Int) :
    ∃ list, Block.write b.grown states.length [some stateid] = some list ∧
      Holds ⟨list, b.count + 1⟩ (states ++ [stateid]) := by
  have hlength := h.length_grown
  obtain ⟨behind, hbehind⟩ := h.grown_written
  refine ⟨_, if_pos (by simp; omega), h.of_grown ?_ ?_ (by simp)⟩
  · simp
    omega
  · rw [← hbehind, List.take_left' (List.length_map some), List.map_append, List.append_assoc]
    exact (List.prefix_append_right_inj _).mpr (List.prefix_append _ _)

theorem Holds.memmove_isSome (h : Holds b states) :
    (memmove b.grown 1 0 (b.count + 1)).isSome ↔ states.length % 4 ≠ 3 := by
  have hlength := h.length_grown
  have hcount := h.count
  rw [Option.isSome_iff_exists]
  simp only [memmove_eq_some, exists_and_left, exists_eq', and_true]
  omega

theorem Holds.unshift (h : Holds b states) (stateid : Int)
    (hmove : memmove b.grown 1 0 (b.count + 1) = some moved) :
    ∃ list, Block.write moved 0 [some stateid] = some list ∧
      Holds ⟨list, b.count + 1⟩ (stateid :: states) := by
  obtain ⟨hle, rfl⟩ := memmove_eq_some.mp hmove
  have hcount := h.count
  have hstates : states.map some <+: b.grown.take (b.count + 1) :=
    List.prefix_take_iff.mpr ⟨h.grown_written, by rw [List.length_map]; omega⟩
  refine ⟨_, if_pos (by simp; omega), h.of_grown ?_ ?_ rfl⟩
  · simp
    omega
  · have hdrop : (b.grown.take 1 ++ b.grown.take (b.count + 1) ++
        b.grown.drop (1 + (b.count + 1))).drop 1 =
        b.grown.take (b.count + 1) ++ b.grown.drop (1 + (b.count + 1)) := by
      rw [List.append_assoc, List.drop_left' (by simp; omega)]
    rw [List.take_zero, List.nil_append, List.length_singleton, Nat.zero_add, hdrop, List.map_cons,
      List.singleton_append, List.prefix_cons_inj]
    exact hstates.trans (List.prefix_append _ _)

/-! What a call does, by the states it finds. -/

theorem Holds.stateBuildlist_nil (h : Holds b []) (stateid : Int) :
    ∃ next, stateBuildlist b stateid = some next ∧ Holds next [stateid] := by
  obtain ⟨list, hlist, hholds⟩ := h.push stateid
  refine ⟨_, ?_, hholds⟩
  have hcount : b.count = 0 := h.count
  rw [List.length_nil] at hlist
  simp [stateBuildlist, hcount, insertionPoint, hlist]

theorem Holds.insertionPoint_eq (h : Holds b (first :: rest)) (stateid : Int) :
    insertionPoint b.grown stateid b.count 0 =
      if first < stateid then if rest = [] then some 1 else none else some 0 := by
  obtain ⟨behind, hbehind⟩ := h.grown_written
  have hfirst : b.grown[0]? = some (some first) := by simp [← hbehind]
  rw [h.count, List.length_cons, insertionPoint_cons hfirst]
  simp

theorem Holds.stateBuildlist_le (h : Holds b (first :: rest)) (hle : stateid ≤ first) :
    (first :: rest).length % 4 = 3 ∧ stateBuildlist b stateid = none ∨
      (first :: rest).length % 4 ≠ 3 ∧ ∃ next, stateBuildlist b stateid = some next ∧
        Holds next (stateid :: first :: rest) := by
  have hpoint : insertionPoint b.grown stateid b.count 0 = some 0 := by
    rw [h.insertionPoint_eq, if_neg (Int.not_lt.mpr hle)]
  have hcount : 0 < b.count := by rw [h.count]; exact Nat.succ_pos _
  have hiff := h.memmove_isSome
  cases hmove : memmove b.grown 1 0 (b.count + 1) with
  | none =>
      rw [hmove] at hiff
      exact .inl ⟨by simpa using hiff, by simp [stateBuildlist, hpoint, hcount, hmove]⟩
  | some moved =>
      rw [hmove] at hiff
      obtain ⟨list, hlist, hholds⟩ := h.unshift stateid hmove
      refine .inr ⟨hiff.mp rfl, _, ?_, hholds⟩
      simp [stateBuildlist, hpoint, hcount, hmove, hlist]

theorem Holds.stateBuildlist_lt (h : Holds b (first :: rest)) (hlt : first < stateid) :
    rest ≠ [] ∧ stateBuildlist b stateid = none ∨
      rest = [] ∧ ∃ next, stateBuildlist b stateid = some next ∧ Holds next [first, stateid] := by
  have hpoint := h.insertionPoint_eq stateid
  rw [if_pos hlt] at hpoint
  by_cases hrest : rest = []
  · subst hrest
    obtain ⟨list, hlist, hholds⟩ := h.push stateid
    have hcount : b.count = 1 := h.count
    rw [if_pos rfl, hcount] at hpoint
    rw [List.length_singleton] at hlist
    refine .inr ⟨rfl, _, ?_, hholds⟩
    simp [stateBuildlist, hcount, hpoint, hlist]
  · rw [if_neg hrest] at hpoint
    exact .inl ⟨hrest, by simp [stateBuildlist, hpoint]⟩

theorem Holds.step (h : Holds b states) (stateid : Int) :
    ¬ Allowed states stateid ∧ stateBuildlist b stateid = none ∨
      Allowed states stateid ∧ ∃ next, stateBuildlist b stateid = some next ∧
        Holds next (states.orderedInsert (· ≤ ·) stateid) := by
  cases states with
  | nil => exact .inr ⟨.inl (Nat.zero_le _), h.stateBuildlist_nil stateid⟩
  | cons first rest =>
      by_cases hle : stateid ≤ first
      · rw [List.orderedInsert_cons, if_pos hle]
        rcases h.stateBuildlist_le hle with ⟨hfull, hnone⟩ | ⟨hroom, hsome⟩
        · refine .inl ⟨?_, hnone⟩
          rintro (hshort | ⟨-, hroom⟩)
          · omega
          · exact hroom hfull
        · exact .inr ⟨.inr ⟨by simpa using hle, hroom⟩, hsome⟩
      · rw [List.orderedInsert_cons, if_neg hle]
        rcases h.stateBuildlist_lt (Int.not_le.mp hle) with ⟨hrest, hnone⟩ | ⟨rfl, hsome⟩
        · refine .inl ⟨?_, hnone⟩
          rintro (hshort | ⟨hfirst, -⟩)
          · exact hrest (List.length_eq_zero_iff.mp (by simpa using hshort))
          · exact hle (hfirst first rfl)
        · exact .inr ⟨.inl (by simp), hsome⟩

end

/-! All calls for an implementation. -/

def AllAllowed : List Int → List Int → Prop
  | _, [] => True
  | states, stateid :: rest =>
      Allowed states stateid ∧ AllAllowed (states.orderedInsert (· ≤ ·) stateid) rest

section

variable {b built : Building} {states given ids : List Int}

theorem run_isSome_iff (h : Holds b states) :
    (run stateBuildlist b ids).isSome ↔ AllAllowed states ids := by
  induction ids generalizing b states with
  | nil => simp [AllAllowed]
  | cons stateid rest ih =>
      rw [run_cons, AllAllowed]
      rcases h.step stateid with ⟨hnot, hnone⟩ | ⟨hallowed, next, hnext, hholds⟩
      · simp [hnone, hnot]
      · rw [hnext, Option.bind_some, ih hholds]
        exact (and_iff_right hallowed).symm

theorem sort_eq_iff {l l' : List Int} :
    l.insertionSort (· ≤ ·) = l'.insertionSort (· ≤ ·) ↔ l.Perm l' := by
  have hl := List.perm_insertionSort (· ≤ ·) l
  have hl' := List.perm_insertionSort (· ≤ ·) l'
  constructor
  · intro heq
    exact hl.symm.trans (heq ▸ hl')
  · intro hperm
    exact (hl.trans (hperm.trans hl'.symm)).eq_of_pairwise'
      (List.pairwise_insertionSort (· ≤ ·) l) (List.pairwise_insertionSort (· ≤ ·) l')

theorem sort_concat (l : List Int) (stateid : Int) :
    (l ++ [stateid]).insertionSort (· ≤ ·) =
      (l.insertionSort (· ≤ ·)).orderedInsert (· ≤ ·) stateid := by
  rw [← List.insertionSort_cons, sort_eq_iff]
  exact List.perm_append_singleton stateid l

theorem Holds.of_run (h : Holds b (given.insertionSort (· ≤ ·)))
    (hrun : run stateBuildlist b ids = some built) :
    Holds built ((given ++ ids).insertionSort (· ≤ ·)) := by
  induction ids generalizing b given with
  | nil =>
      cases hrun
      rwa [List.append_nil]
  | cons stateid rest ih =>
      obtain ⟨next, hnext, hrest⟩ := run_cons_eq_some.mp hrun
      rcases h.step stateid with ⟨-, hnone⟩ | ⟨-, next', hnext', hholds⟩
      · rw [hnone] at hnext
        cases hnext
      · obtain rfl := Option.some.inj (hnext.symm.trans hnext')
        rw [← sort_concat] at hholds
        rw [List.append_cons]
        exact ih hholds hrest

theorem states_of_run (hrun : run stateBuildlist .empty ids = some built) :
    built.states = some (ids.insertionSort (· ≤ ·)) := by
  have hempty : Holds .empty (([] : List Int).insertionSort (· ≤ ·)) := holds_empty
  exact (hempty.of_run hrun).states_eq

theorem allowed_pair {first second stateid : Int} :
    Allowed [first, second] stateid ↔ stateid ≤ first := by
  simp [Allowed]

theorem not_allowed_three {stateid : Int} (h : states.length = 3) : ¬ Allowed states stateid := by
  rintro (hshort | ⟨-, hroom⟩)
  · omega
  · exact hroom (by rw [h])

theorem allAllowed_iff : AllAllowed [] ids ↔ Fits ids := by
  match ids with
  | [] => simp [AllAllowed, Fits]
  | [_] => simp [AllAllowed, Allowed, Fits]
  | [_, _] => simp [AllAllowed, Allowed, Fits]
  | [first, second, third] =>
      have hsecond : AllAllowed [] [first, second, third] ↔
          Allowed ([first].orderedInsert (· ≤ ·) second) third := by
        simp [AllAllowed, Allowed]
      rw [hsecond, Fits, List.orderedInsert_cons, List.orderedInsert_nil]
      split
      · rw [allowed_pair]
        omega
      · rw [allowed_pair]
        omega
  | first :: second :: third :: fourth :: rest =>
      simp only [AllAllowed, Fits, iff_false]
      rintro ⟨-, -, -, hfourth, -⟩
      exact not_allowed_three (by simp only [List.orderedInsert_length, List.length_nil]) hfourth

theorem built_iff_fits : (run stateBuildlist .empty ids).isSome ↔ Fits ids :=
  (run_isSome_iff holds_empty).trans allAllowed_iff

end

/-! The table. -/

structure Kept (tab : List Statelist) : Prop where
  numbered : Numbered Statelist.listid tab
  distinct : Distinct Statelist.combination tab

section

variable {tab : List Statelist} {ptr : Statelist} {list states : List Int} {fsa : Int} {last : Nat}

theorem kept_nil : Kept [] := ⟨trivial, distinct_nil⟩

theorem agreeing_eq_iff (hlength : states.length = list.length) :
    agreeing states list = list.length ↔ states = list := by
  induction list generalizing states with
  | nil =>
      obtain rfl := List.length_eq_zero_iff.mp hlength
      simp [agreeing]
  | cons item list ih =>
      cases states with
      | nil => cases hlength
      | cons state states =>
          by_cases heq : state = item
          · simp [agreeing, heq, ih (Nat.succ.inj hlength)]
          · simp [agreeing, heq]

theorem found_iff :
    (ptr.fsa = fsa ∧ ptr.numstates = list.length ∧ agreeing ptr.states list = list.length) ↔
      ptr.combination = (fsa, list) := by
  rw [Statelist.combination, Prod.mk.injEq]
  refine and_congr_right fun _ => ?_
  constructor
  · rintro ⟨hlength, hagree⟩
    exact (agreeing_eq_iff hlength).mp hagree
  · intro heq
    have hlength : ptr.states.length = list.length := congrArg List.length heq
    exact ⟨hlength, (agreeing_eq_iff hlength).mpr heq⟩

theorem stateFindlist_fst :
    (stateFindlist list fsa tab last).1 = lookup Statelist.combination tab (fsa, list) := by
  induction tab generalizing last with
  | nil => rfl
  | cons ptr rest ih =>
      rw [stateFindlist, lookup_cons]
      simp only [found_iff]
      by_cases hfound : ptr.combination = (fsa, list)
      · rw [if_pos hfound, if_pos hfound]
      · rw [if_neg hfound, if_neg hfound, ih]

theorem stateFindlist_snd (hnumbered : Numbered Statelist.listid tab)
    (hnone : lookup Statelist.combination tab (fsa, list) = none) :
    (stateFindlist list fsa tab last).2 = max last tab.length := by
  induction tab generalizing last with
  | nil => exact (Nat.max_zero last).symm
  | cons ptr rest ih =>
      obtain ⟨hlistid, hrest⟩ := hnumbered
      rw [lookup_cons] at hnone
      split at hnone
      · cases hnone
      · rename_i hne
        rw [stateFindlist]
        simp only [found_iff]
        rw [if_neg hne, ih hrest hnone, List.length_cons]
        split <;> omega

theorem stateAddlist_found (h : lookup Statelist.combination tab (fsa, list) = some ptr) :
    stateAddlist tab list fsa = some (tab, ptr.listid) := by
  have hfst : (stateFindlist list fsa tab 0).1 = some ptr := stateFindlist_fst.trans h
  rw [stateAddlist, ← Prod.eta (stateFindlist list fsa tab 0), hfst]

theorem stateAddlist_new (hkept : Kept tab)
    (h : lookup Statelist.combination tab (fsa, list) = none) :
    stateAddlist tab list fsa =
      if tab.length < intMax then
        some (⟨list, fsa, tab.length + 1⟩ :: tab, tab.length + 1)
      else none := by
  have hfst : (stateFindlist list fsa tab 0).1 = none := stateFindlist_fst.trans h
  have hsnd : (stateFindlist list fsa tab 0).2 = tab.length := by
    rw [stateFindlist_snd hkept.numbered h, Nat.zero_max]
  rw [stateAddlist, ← Prod.eta (stateFindlist list fsa tab 0), hfst, hsnd]

end

/-! A whole run. -/

def combinations (c : Compilation) : Finset (Int × List Int) :=
  (c.statelistTab.map Statelist.combination).toFinset

structure Records (c : Compilation) : Prop where
  kept : Kept c.statelistTab
  attached : ∀ a ∈ c.attached, ∃ ptr ∈ c.statelistTab,
    ptr.combination = a.1.combination ∧ ptr.listid = a.2
  room : c.statelistTab.length ≤ intMax

section

variable {c next : Compilation} {d : Implementation} {decls : List Implementation}

theorem records_start : Records .start :=
  ⟨kept_nil, fun _ ha => absurd ha List.not_mem_nil, Nat.zero_le _⟩

@[simp] theorem combinations_start : combinations .start = ∅ := rfl

theorem Records.card_combinations (h : Records c) :
    (combinations c).card = c.statelistTab.length := by
  rw [combinations, List.toFinset_card_of_nodup h.kept.distinct, List.length_map]

theorem getstates_of_not_fits (h : ¬ Fits d.states) : getstates c d = none := by
  rw [← built_iff_fits, Option.not_isSome_iff_eq_none] at h
  simp [getstates, h]

theorem getstates_of_fits (h : Fits d.states) :
    getstates c d =
      (stateAddlist c.statelistTab (d.states.insertionSort (· ≤ ·)) d.fsa).map fun result =>
        ⟨result.1, c.attached ++ [(d, result.2)]⟩ := by
  obtain ⟨built, hbuilt⟩ := Option.isSome_iff_exists.mp (built_iff_fits.mpr h)
  rw [getstates, hbuilt]
  simp only [Option.bind_eq_bind, Option.bind_some, states_of_run hbuilt]
  cases stateAddlist c.statelistTab (d.states.insertionSort (· ≤ ·)) d.fsa <;> rfl

def After (c : Compilation) (d : Implementation) (next : Compilation) : Prop :=
  Records next ∧ combinations next = insert d.combination (combinations c) ∧
    next.attached.map Prod.fst = c.attached.map Prod.fst ++ [d]

theorem Records.step_found (h : Records c) (hfits : Fits d.states) {ptr : Statelist}
    (hfound : lookup Statelist.combination c.statelistTab d.combination = some ptr) :
    ∃ next, getstates c d = some next ∧ After c d next := by
  obtain ⟨hmem, hcombination⟩ := (lookup_eq_some h.kept.distinct).mp hfound
  refine ⟨⟨c.statelistTab, c.attached ++ [(d, ptr.listid)]⟩, ?_, ⟨h.kept, ?_, h.room⟩, ?_, ?_⟩
  · rw [getstates_of_fits hfits, stateAddlist_found hfound, Option.map_some]
  · intro a ha
    rcases List.mem_append.mp ha with hold | hnew
    · exact h.attached a hold
    · obtain rfl := List.mem_singleton.mp hnew
      exact ⟨ptr, hmem, hcombination, rfl⟩
  · refine (Finset.insert_eq_of_mem ?_).symm
    exact List.mem_toFinset.mpr (List.mem_map.mpr ⟨ptr, hmem, hcombination⟩)
  · rw [List.map_append, List.map_singleton]

theorem Records.step_new (h : Records c) (hfits : Fits d.states)
    (hnone : lookup Statelist.combination c.statelistTab d.combination = none) :
    getstates c d = none ∧ c.statelistTab.length = intMax ∨
      c.statelistTab.length < intMax ∧ ∃ next, getstates c d = some next ∧ After c d next := by
  have hadd := stateAddlist_new h.kept hnone
  by_cases hroom : c.statelistTab.length < intMax
  · rw [if_pos hroom] at hadd
    have hnumbered : Numbered Statelist.listid
        (⟨d.combination.2, d.fsa, c.statelistTab.length + 1⟩ :: c.statelistTab) :=
      ⟨rfl, h.kept.numbered⟩
    refine .inr ⟨hroom, ⟨_, c.attached ++ [(d, c.statelistTab.length + 1)]⟩, ?_,
      ⟨⟨hnumbered, ?_⟩, ?_, hroom⟩, ?_, ?_⟩
    · rw [getstates_of_fits hfits]
      exact congrArg _ hadd
    · exact distinct_cons.mpr ⟨lookup_eq_none.mp hnone, h.kept.distinct⟩
    · intro a ha
      rcases List.mem_append.mp ha with hold | hnew
      · obtain ⟨ptr, hmem, hptr⟩ := h.attached a hold
        exact ⟨ptr, List.mem_cons_of_mem _ hmem, hptr⟩
      · obtain rfl := List.mem_singleton.mp hnew
        exact ⟨_, List.mem_cons_self, rfl, rfl⟩
    · exact List.toFinset_cons
    · rw [List.map_append, List.map_singleton]
  · rw [if_neg hroom] at hadd
    refine .inl ⟨?_, Nat.le_antisymm h.room (Nat.not_lt.mp hroom)⟩
    rw [getstates_of_fits hfits, hadd, Option.map_none]

theorem Records.step (h : Records c) (d : Implementation) :
    getstates c d = none ∧
        ¬ (Fits d.states ∧ (insert d.combination (combinations c)).card ≤ intMax) ∨
      Fits d.states ∧ ∃ next, getstates c d = some next ∧ After c d next := by
  by_cases hfits : Fits d.states
  · cases hlookup : lookup Statelist.combination c.statelistTab d.combination with
    | some ptr => exact .inr ⟨hfits, h.step_found hfits hlookup⟩
    | none =>
        rcases h.step_new hfits hlookup with ⟨hnone, hfull⟩ | ⟨-, hsome⟩
        · refine .inl ⟨hnone, ?_⟩
          rintro ⟨-, hcard⟩
          have hnew : d.combination ∉ combinations c := by
            rw [combinations, List.mem_toFinset, ← isSome_lookup, hlookup]
            exact Bool.false_ne_true
          rw [Finset.card_insert_of_notMem hnew, h.card_combinations, hfull] at hcard
          exact Nat.not_succ_le_self _ hcard
        · exact .inr ⟨hfits, hsome⟩
  · exact .inl ⟨getstates_of_not_fits hfits, fun hboth => hfits hboth.1⟩

def Passable (c : Compilation) (decls : List Implementation) : Prop :=
  (∀ d ∈ decls, Fits d.states) ∧
    (combinations c ∪ (decls.map Implementation.combination).toFinset).card ≤ intMax

theorem passable_cons {rest : List Implementation} (hfits : Fits d.states)
    (hnext : combinations next = insert d.combination (combinations c)) :
    Passable c (d :: rest) ↔ Passable next rest := by
  have hunion : combinations c ∪ ((d :: rest).map Implementation.combination).toFinset =
      combinations next ∪ (rest.map Implementation.combination).toFinset := by
    rw [hnext, List.map_cons, List.toFinset_cons, Finset.union_insert, Finset.insert_union]
  rw [Passable, Passable, hunion, List.forall_mem_cons, and_iff_right hfits]

theorem Records.run_isSome (h : Records c) :
    (run getstates c decls).isSome ↔ Passable c decls := by
  induction decls generalizing c with
  | nil =>
      have hroom : (combinations c).card ≤ intMax := h.card_combinations.trans_le h.room
      simp only [Passable, run_nil, Option.isSome_some, List.map_nil, List.toFinset_nil,
        Finset.union_empty]
      exact iff_of_true trivial ⟨fun _ hd => absurd hd List.not_mem_nil, hroom⟩
  | cons d rest ih =>
      rcases h.step d with ⟨hnone, hnot⟩ | ⟨hfits, next, hnext, hrecords, hcombinations, -⟩
      · rw [run_cons, hnone]
        refine iff_of_false Bool.false_ne_true fun hpass => hnot ⟨hpass.1 d List.mem_cons_self, ?_⟩
        refine (Finset.card_le_card ?_).trans hpass.2
        rw [List.map_cons, List.toFinset_cons, Finset.union_insert]
        exact Finset.insert_subset_insert _ Finset.subset_union_left
      · rw [run_cons, hnext, Option.bind_some, ih hrecords, passable_cons hfits hcombinations]

theorem Records.of_run {final : Compilation} (h : Records c)
    (hrun : run getstates c decls = some final) :
    Records final ∧ final.attached.map Prod.fst = c.attached.map Prod.fst ++ decls := by
  induction decls generalizing c with
  | nil =>
      cases hrun
      exact ⟨h, (List.append_nil _).symm⟩
  | cons d rest ih =>
      obtain ⟨next, hnext, hrest⟩ := run_cons_eq_some.mp hrun
      rcases h.step d with ⟨hnone, -⟩ | ⟨-, next', hnext', hrecords, -, hattached⟩
      · rw [hnone] at hnext
        cases hnext
      · obtain rfl := Option.some.inj (hnext.symm.trans hnext')
        obtain ⟨hfinal, hfst⟩ := ih hrecords hrest
        exact ⟨hfinal, by rw [hfst, hattached, List.append_assoc, List.singleton_append]⟩

theorem Records.listid_eq_iff (h : Records c) {first second : Implementation × Nat}
    (hfirst : first ∈ c.attached) (hsecond : second ∈ c.attached) :
    first.2 = second.2 ↔ first.1.combination = second.1.combination := by
  obtain ⟨ptr, hptr, hcombination, hlistid⟩ := h.attached first hfirst
  obtain ⟨ptr', hptr', hcombination', hlistid'⟩ := h.attached second hsecond
  rw [← hcombination, ← hcombination', ← hlistid, ← hlistid']
  constructor
  · intro heq
    rw [h.kept.numbered.distinct.eq hptr hptr' heq]
  · intro heq
    rw [h.kept.distinct.eq hptr hptr' heq]

theorem combination_eq_iff {first second : Implementation} :
    first.combination = second.combination ↔
      first.fsa = second.fsa ∧ first.states.Perm second.states := by
  rw [Implementation.combination, Implementation.combination, Prod.mk.injEq, sort_eq_iff]

theorem fits_given {given ids : List Int} (h : Fits ids) (hgiven : given <+: ids) :
    Fits given := by
  rw [← built_iff_fits] at h ⊢
  obtain ⟨rest, rfl⟩ := hgiven
  rw [run_append] at h
  exact Option.isSome_of_isSome_bind h

theorem kept_of_fits {ids given : List Int} (h : Fits ids) (hgiven : given <+: ids) :
    ∃ built states, run stateBuildlist .empty given = some built ∧ built.states = some states ∧
      states.Pairwise (· ≤ ·) ∧ states.Perm given := by
  obtain ⟨built, hbuilt⟩ := Option.isSome_iff_exists.mp
    (built_iff_fits.mpr (fits_given h hgiven))
  exact ⟨built, _, hbuilt, states_of_run hbuilt, List.pairwise_insertionSort (· ≤ ·) given,
    List.perm_insertionSort (· ≤ ·) given⟩

theorem Canonical.safe (h : Canonical decls) : Safe decls := by
  obtain ⟨final, hfinal, hattached, hsame⟩ := h.same
  have hsome : (run getstates .start decls).isSome := by rw [hfinal, Option.isSome_some]
  obtain ⟨hfew, hroom⟩ := records_start.run_isSome.mp hsome
  rw [combinations_start, Finset.empty_union] at hroom
  refine ⟨hfew, fun first hfirst second hsecond hfsa hset => ?_, hroom⟩
  rw [← hattached] at hfirst hsecond
  obtain ⟨a, ha, rfl⟩ := List.mem_map.mp hfirst
  obtain ⟨a', ha', rfl⟩ := List.mem_map.mp hsecond
  have hlistid : a.2 = a'.2 := (hsame a ha a' ha').mpr ⟨hfsa, hset⟩
  have hrecords := (records_start.of_run hfinal).1
  exact (combination_eq_iff.mp ((hrecords.listid_eq_iff ha ha').mp hlistid)).2

theorem Safe.canonical (h : Safe decls) : Canonical decls := by
  refine ⟨fun d hd given hgiven => kept_of_fits (h.few d hd) hgiven, ?_⟩
  have hsome : (run getstates .start decls).isSome :=
    records_start.run_isSome.mpr
      ⟨h.few, by rw [combinations_start, Finset.empty_union]; exact h.room⟩
  obtain ⟨final, hfinal⟩ := Option.isSome_iff_exists.mp hsome
  obtain ⟨hrecords, hattached⟩ := records_start.of_run hfinal
  have hmem : ∀ a ∈ final.attached, a.1 ∈ decls := fun a ha => by
    rw [Compilation.start, List.map_nil, List.nil_append] at hattached
    rw [← hattached]
    exact List.mem_map_of_mem ha
  refine ⟨final, hfinal, hattached, fun first hfirst second hsecond => ?_⟩
  rw [hrecords.listid_eq_iff hfirst hsecond, combination_eq_iff]
  refine and_congr_right fun hfsa => ⟨List.toFinset_eq_of_perm _ _, ?_⟩
  exact h.repeats _ (hmem first hfirst) _ (hmem second hsecond) hfsa

end

/-- The lists are canonical exactly for few states that come in an order the indexing and the
moving stand, and that are not repeated differently. -/
theorem canonical_iff_safe (decls : List Implementation) : Canonical decls ↔ Safe decls :=
  ⟨Canonical.safe, Safe.canonical⟩

/-- Three states with new ids: the third call looks behind the pointer of the caller. -/
theorem not_canonical_ascending : ¬ Canonical [⟨1, [2, 3, 4], by decide⟩] := by
  intro h
  obtain ⟨built, -, hbuilt, -⟩ := h.kept _ List.mem_cons_self [2, 3, 4] (List.prefix_refl _)
  have hnone : run stateBuildlist .empty [2, 3, 4] = none := by decide
  rw [hnone] at hbuilt
  cases hbuilt

end AmxModC.Compiler.States
