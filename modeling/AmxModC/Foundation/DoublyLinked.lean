import Mathlib.Data.List.Induction
import Mathlib.Data.List.Basic
import Mathlib.Data.Option.Basic

namespace AmxModC.Foundation

/-! Doubly linked lists in memory, as segments between a pointer above and a pointer below. -/

variable {Address Node : Type*}

structure Neighbours (Address Node : Type*) where
  up : Node → Option Address
  down : Node → Option Address

variable {links : Neighbours Address Node}

def Segment (links : Neighbours Address Node) (heap : Address → Option Node) :
    Option Address → List Address → Option Address → Prop
  | _, [], _ => True
  | above, address :: rest, below =>
      (∃ node, heap address = some node ∧ links.up node = above ∧
        links.down node = rest.head?.or below) ∧
      Segment links heap (some address) rest below

namespace Segment

variable {heap other : Address → Option Node} {above below : Option Address}
  {list first second : List Address} {address : Address}

theorem append_iff : Segment links heap above (first ++ second) below ↔
    Segment links heap above first (second.head?.or below) ∧
      Segment links heap (first.getLast?.or above) second below := by
  induction first generalizing above with
  | nil => simp [Segment]
  | cons address rest ih =>
      have hlast : (address :: rest).getLast?.or above =
          rest.getLast?.or (some address) := by
        cases rest with
        | nil => rfl
        | cons next rest => simp [List.getLast?_cons]
      rw [List.cons_append, Segment, Segment, ih, hlast, List.head?_append, Option.or_assoc,
        and_assoc]

theorem congr (h : Segment links heap above list below)
    (hagree : ∀ address ∈ list, other address = heap address) :
    Segment links other above list below := by
  induction list generalizing above with
  | nil => trivial
  | cons address rest ih =>
      obtain ⟨⟨node, hnode, hlinks⟩, hrest⟩ := h
      rw [List.forall_mem_cons] at hagree
      exact ⟨⟨node, hagree.1.trans hnode, hlinks⟩, ih hrest hagree.2⟩

theorem isSome (h : Segment links heap above list below) (hmem : address ∈ list) :
    (heap address).isSome := by
  induction list generalizing above with
  | nil => cases hmem
  | cons head rest ih =>
      obtain ⟨⟨node, hnode, -⟩, hrest⟩ := h
      cases hmem with
      | head => exact Option.isSome_of_mem hnode
      | tail _ hmem => exact ih hrest hmem

theorem middle (h : Segment links heap above (first ++ address :: second) below) :
    ∃ node, heap address = some node ∧ links.up node = first.getLast?.or above ∧
      links.down node = second.head?.or below :=
  (append_iff.mp h).2.1

end Segment

section

variable [DecidableEq Address]

def write (heap : Address → Option Node) (pointer : Option Address) (change : Node → Node) :
    Address → Option Node :=
  fun address => if pointer = some address then (heap address).map change else heap address

variable {heap : Address → Option Node} {above below target : Option Address}
  {list : List Address} {address : Address} {pointer : Option Address} {change : Node → Node}

theorem write_none : write heap none change = heap := rfl

theorem write_same : write heap (some address) change address = (heap address).map change :=
  if_pos rfl

theorem write_other (h : pointer ≠ some address) :
    write heap pointer change address = heap address := if_neg h

theorem map_write {Seen : Type*} {see : Node → Seen}
    (hsee : ∀ node, see (change node) = see node) :
    (write heap pointer change address).map see = (heap address).map see := by
  unfold write
  split
  next =>
    rw [Option.map_map]
    exact congrArg (fun f => (heap address).map f) (funext hsee)
  next => rfl

theorem isSome_write : (write heap pointer change address).isSome = (heap address).isSome := by
  unfold write
  split <;> simp

theorem Segment.write_outside (h : Segment links heap above list below)
    (houtside : ∀ address ∈ list, pointer ≠ some address) :
    Segment links (write heap pointer change) above list below :=
  h.congr fun address hmem => write_other (houtside address hmem)

theorem Segment.write_links (h : Segment links heap above list below)
    (hup : ∀ node, links.up (change node) = links.up node)
    (hdown : ∀ node, links.down (change node) = links.down node) :
    Segment links (write heap pointer change) above list below := by
  induction list generalizing above with
  | nil => trivial
  | cons address rest ih =>
      obtain ⟨⟨node, hnode, habove, hbelow⟩, hrest⟩ := h
      refine ⟨?_, ih hrest⟩
      by_cases hpointer : pointer = some address
      · refine ⟨change node, ?_, (hup node).trans habove, (hdown node).trans hbelow⟩
        rw [hpointer, write_same, hnode, Option.map_some]
      · exact ⟨node, (write_other hpointer).trans hnode, habove, hbelow⟩

theorem Segment.write_head? (h : Segment links heap above list below) (hnodup : list.Nodup)
    (hup : ∀ node, links.up (change node) = target)
    (hdown : ∀ node, links.down (change node) = links.down node) :
    Segment links (write heap list.head? change) target list below := by
  cases list with
  | nil => trivial
  | cons address rest =>
      obtain ⟨⟨node, hnode, -, hnext⟩, hrest⟩ := h
      obtain ⟨hnot, -⟩ := List.nodup_cons.mp hnodup
      refine ⟨⟨change node, ?_, hup node, (hdown node).trans hnext⟩, ?_⟩
      · rw [List.head?_cons, write_same, hnode, Option.map_some]
      · apply hrest.write_outside
        intro other hmem heq
        cases heq
        exact hnot hmem

theorem Segment.write_getLast? (h : Segment links heap above list below) (hnodup : list.Nodup)
    (hup : ∀ node, links.up (change node) = links.up node)
    (hdown : ∀ node, links.down (change node) = target) :
    Segment links (write heap list.getLast? change) above list target := by
  induction list using List.reverseRecOn with
  | nil => trivial
  | append_singleton first address _ =>
      obtain ⟨hfirst, ⟨node, hnode, hprevious, -⟩, -⟩ := Segment.append_iff.mp h
      have hnot : address ∉ first := fun hmem => (List.nodup_append.mp hnodup).2.2 address hmem
        address List.mem_cons_self rfl
      rw [List.getLast?_concat]
      refine Segment.append_iff.mpr ⟨?_, ⟨change node, ?_, (hup node).trans hprevious, ?_⟩,
        trivial⟩
      · apply hfirst.write_outside
        intro other hmem heq
        cases heq
        exact hnot hmem
      · rw [write_same, hnode, Option.map_some]
      · exact hdown node

end

end AmxModC.Foundation
