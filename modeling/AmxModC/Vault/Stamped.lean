import AmxModC.Vault.Contents
import AmxModC.Foundation.Run
import AmxModC.Foundation.Keyed

namespace AmxModC.Vault

open Foundation

section

namespace THash

variable {K V : Type} {h : THash K V} {place next : Nat} {it : Iterator} {node : THashNode K V}
  {list rest : List (THashNode K V)}

def nodesFrom (h : THash K V) (place : Nat) : List (THashNode K V) :=
  (h.buckets.drop place).flatMap fun bucket => bucket.getD []

theorem nodesFrom_zero (h : THash K V) : h.nodesFrom 0 = h.nodes := rfl

theorem nodesFrom_of_le (hplace : h.numBuckets ≤ place) : h.nodesFrom place = [] := by
  rw [nodesFrom, List.drop_eq_nil_of_le hplace]
  rfl

theorem nodesFrom_of_lt (hplace : place < h.numBuckets) :
    h.nodesFrom place = h.bucket place ++ h.nodesFrom (place + 1) := by
  rw [numBuckets] at hplace
  rw [nodesFrom, List.drop_eq_getElem_cons hplace, List.flatMap_cons, bucket,
    List.getElem?_eq_getElem hplace]
  rfl

theorem firstUsed_spec (h : THash K V) (place : Nat) :
    match h.firstUsed place with
    | none => h.nodesFrom place = []
    | some next => next < h.numBuckets ∧ h.bucket next ≠ [] ∧
        h.nodesFrom place = h.nodesFrom next := by
  rw [firstUsed]
  generalize hleft : h.numBuckets - place = left
  induction left generalizing place with
  | zero => exact nodesFrom_of_le (Nat.le_of_sub_eq_zero hleft)
  | succ left ih =>
      have hplace : place < h.numBuckets := by omega
      have hih := ih (place + 1) (by omega)
      rw [List.range'_succ, List.find?_cons]
      cases hbucket : h.bucket place with
      | nil =>
          have hskip : h.nodesFrom place = h.nodesFrom (place + 1) := by
            rw [nodesFrom_of_lt hplace, hbucket, List.nil_append]
          rw [hskip]
          exact hih
      | cons node tail => exact ⟨hplace, by simp [hbucket], rfl⟩

def Before (h : THash K V) (it : Iterator) : List (THashNode K V) → Prop
  | [] => it.end = true
  | node :: rest =>
      it.end = false ∧
        ∃ place tail, it.curbucket = some place ∧ place < h.numBuckets ∧
          (h.bucket place).drop it.iter = node :: tail ∧
          rest = tail ++ h.nodesFrom (place + 1)

theorem before_of_drop {iter : Nat} {tail : List (THashNode K V)} (hplace : place < h.numBuckets)
    (hdrop : (h.bucket place).drop iter = node :: tail) :
    h.Before ⟨some place, iter, false⟩ (node :: (tail ++ h.nodesFrom (place + 1))) :=
  ⟨rfl, place, tail, rfl, hplace, hdrop, rfl⟩

theorem before_seek (h : THash K V) (it : Iterator) (place : Nat) :
    h.Before (h.seek it place) (h.nodesFrom place) := by
  have hspec := h.firstUsed_spec place
  rw [seek]
  cases hfirst : h.firstUsed place with
  | none =>
      simp only [hfirst] at hspec
      rw [hspec]
      rfl
  | some next =>
      simp only [hfirst] at hspec
      obtain ⟨hnext, hused, hfrom⟩ := hspec
      obtain ⟨node, tail, hbucket⟩ := List.exists_cons_of_ne_nil hused
      rw [hfrom, nodesFrom_of_lt hnext, hbucket, List.cons_append]
      exact before_of_drop hnext hbucket

theorem before_begin (h : THash K V) : h.Before h.begin h.nodes := by
  rw [begin]
  split
  next hnone =>
      have hnodes := nodesFrom_of_le (Nat.le_of_eq hnone)
      rw [nodesFrom_zero] at hnodes
      rw [hnodes]
      rfl
  next => exact before_seek h _ 0

theorem Before.deref (hbefore : h.Before it (node :: rest)) : h.deref it = some node := by
  obtain ⟨-, place, tail, hcur, -, hdrop, -⟩ := hbefore
  have hhead := congrArg List.head? hdrop
  rw [List.head?_drop] at hhead
  rw [THash.deref, hcur]
  exact hhead

theorem Before.inc (hbefore : h.Before it (node :: rest)) : h.Before (h.inc it) rest := by
  obtain ⟨hend, place, tail, hcur, hplace, hdrop, rfl⟩ := hbefore
  have hsize := congrArg List.length hdrop
  rw [List.length_drop, List.length_cons] at hsize
  have htail : (h.bucket place).drop (it.iter + 1) = tail := by
    rw [← List.tail_drop, hdrop, List.tail_cons]
  have hstay : it.iter ≠ (h.bucket place).length := by omega
  simp only [THash.inc, hend, hcur, Nat.not_le.mpr hplace, hstay, if_false, Bool.false_eq_true]
  split
  next hlast =>
      rw [List.drop_eq_nil_of_le (Nat.le_of_eq hlast.symm)] at htail
      rw [← htail, List.nil_append]
      exact before_seek h _ _
  next hmore =>
      cases tail with
      | nil =>
          rw [List.drop_eq_nil_iff] at htail
          omega
      | cons second tail => exact before_of_drop hplace htail

theorem equals_finish (it : Iterator) : it.equals finish = it.end := by
  cases hend : it.end <;> simp [Iterator.equals, finish, hend]

theorem visited_eq {turns : Nat} (hturns : h.nodes.length < turns) :
    h.visited turns = some h.nodes := by
  refine @traverse_eq _ _ _ _ _ h.Before ?_ ?_ _ _ _ (before_begin h) hturns
  · intro it hbefore
    exact (equals_finish it).trans hbefore
  · intro it node rest hbefore
    exact ⟨(equals_finish it).trans hbefore.1, hbefore.deref, hbefore.inc⟩

end THash

end

section

/-! The table as a finite map with stamps. -/

variable {K V : Type}

abbrev Stamped (K V : Type) := K → Option (V × Time)

namespace Stamped

variable [DecidableEq K] [Inhabited V]

noncomputable def call (map : Stamped K V) : THash.Operation K V → Stamped K V × THash.Answer V
  | .insert key val stamp => (Function.update map key (some (val, stamp)), .done)
  | .touch key stamp =>
      (Function.update map key (some (((map key).map Prod.fst).getD default, stamp)), .done)
  | .retrieve key garbage =>
      let entry := (map key).getD (default, garbage)
      (Function.update map key (some entry), .node entry.1 entry.2)
  | .remove key => (Function.update map key none, .done)
  | .prune start «end» =>
      let removed : Stamped K V := fun key =>
        (map key).filter fun entry => THash.pruned start «end» entry.2
      (fun key => (map key).filter fun entry => !THash.pruned start «end» entry.2,
        .removed (keys removed).ncard)
  | .clear => (fun _ => none, .done)
  | .refactor => (map, .done)

end Stamped

namespace THash

variable [HashFunction K] [DecidableEq K] {h : THash K V} {map : Stamped K V}

structure Refines (h : THash K V) (map : Stamped K V) : Prop where
  once : ∀ key, h.nodes.countP (fun node => node.key = key) = if (map key).isSome then 1 else 0
  placed : ∀ place, ∀ node ∈ h.bucket place,
    place = (HashFunction.hashFunction node.key).toNat % h.numBuckets
  counted : h.items = h.nodes.length
  sized : HasCard map h.items
  exists_iff : ∀ key, h.existsKey key = (map key).isSome
  retrieved : ∀ key, h.retrieve? key = map key
  visited : ∃ list : List (THashNode K V),
    (∀ turns, h.items < turns → h.visited turns = some list) ∧
      (list.map THashNode.key).Nodup ∧
      ∀ key val stamp, ⟨key, val, stamp⟩ ∈ list ↔ map key = some (val, stamp)

theorem WellFormed.countP_key (hwf : h.WellFormed) (key : K) :
    h.nodes.countP (fun node => node.key = key) = if (h.contents key).isSome then 1 else 0 := by
  have hcount : h.nodes.countP (fun node => node.key = key) =
      (h.nodes.map THashNode.key).count key := by
    rw [List.count, List.countP_map]
    rfl
  rw [hcount, List.Nodup.count hwf.distinct, contents, Option.isSome_map]
  simp only [isSome_lookup]

theorem WellFormed.mem_iff_contents (hwf : h.WellFormed) (key : K) (val : V) (stamp : Time) :
    ⟨key, val, stamp⟩ ∈ h.nodes ↔ h.contents key = some (val, stamp) := by
  rw [contents, Option.map_eq_some_iff]
  constructor
  · intro hmem
    exact ⟨_, (lookup_eq_some hwf.distinct).mpr ⟨hmem, rfl⟩, rfl⟩
  · rintro ⟨node, hnode, hentry⟩
    obtain ⟨hmem, rfl⟩ := (lookup_eq_some hwf.distinct).mp hnode
    cases hentry
    exact hmem

theorem WellFormed.refines (hwf : h.WellFormed) : h.Refines h.contents where
  once := hwf.countP_key
  placed := fun place node hnode => (hwf.placed place node hnode).symm
  counted := hwf.counted
  sized := by
    rw [hwf.counted]
    exact hwf.distinct.hasCard _
  exists_iff := fun key => by rw [hwf.existsKey, contents, Option.isSome_map]
  retrieved := hwf.retrieve?
  visited :=
    ⟨h.nodes, fun _ hturns => visited_eq (hwf.counted ▸ hturns), hwf.distinct,
      hwf.mem_iff_contents⟩

theorem ncard_pruned (hwf : h.WellFormed) (start «end» : Time) :
    (keys fun key => (h.contents key).filter fun entry => pruned start «end» entry.2).ncard =
      (h.prune start «end»).2 := by
  have hcard := (hwf.distinct.filter fun node => pruned start «end» node.stamp).hasCard
    fun node => (node.val, node.stamp)
  have hfilter : (fun key => (h.contents key).filter fun entry => pruned start «end» entry.2) =
      fun key => (lookup THashNode.key (h.nodes.filter fun node => pruned start «end» node.stamp)
        key).map fun node => (node.val, node.stamp) := by
    funext key
    rw [lookup_filter hwf.distinct, contents, Option.filter_map]
    rfl
  rw [hfilter, hcard.2, prune, List.countP_eq_length_filter]

def Represents (h : THash K V) (map : Stamped K V) : Prop := h.WellFormed ∧ h.contents = map

theorem represents_empty : (empty : THash K V).Represents fun _ => none :=
  ⟨empty_wellFormed, funext fun _ => contents_empty⟩

variable [Inhabited V]

theorem call_spec (hwf : h.WellFormed) (op : Operation K V) :
    (h.call op).1.WellFormed ∧
      ((h.call op).1.contents, (h.call op).2) = Stamped.call h.contents op := by
  cases op with
  | insert key val stamp =>
      refine ⟨insert_wellFormed hwf key val stamp, congrArg (·, Answer.done) (funext fun other => ?_)⟩
      rw [Function.update_apply]
      exact contents_insert hwf key val stamp other
  | touch key stamp =>
      refine ⟨touch_wellFormed hwf key stamp, congrArg (·, Answer.done) (funext fun other => ?_)⟩
      rw [Function.update_apply]
      exact contents_touch hwf key stamp other
  | retrieve key garbage =>
      have hanswer := retrieve_answer hwf key garbage
      have hcontents : (h.retrieve key garbage).1.contents =
          Function.update h.contents key (some ((h.contents key).getD (default, garbage))) := by
        funext other
        rw [Function.update_apply]
        exact contents_retrieve hwf key garbage other
      refine ⟨retrieve_wellFormed hwf key garbage, ?_⟩
      rw [Stamped.call, ← hcontents, ← hanswer]
      rfl
  | remove key =>
      refine ⟨remove_wellFormed hwf key, congrArg (·, Answer.done) (funext fun other => ?_)⟩
      rw [Function.update_apply]
      exact contents_remove hwf key other
  | prune start «end» =>
      refine ⟨prune_wellFormed hwf start «end», ?_⟩
      rw [Stamped.call, ncard_pruned hwf, ← funext (contents_prune hwf start «end»)]
      rfl
  | clear =>
      exact ⟨clear_wellFormed h, congrArg (·, Answer.done) (funext fun _ => contents_clear h)⟩
  | refactor =>
      exact ⟨refactor_wellFormed hwf,
        congrArg (·, Answer.done) (funext (contents_refactor hwf))⟩

theorem Represents.call (hrep : h.Represents map) (op : Operation K V) :
    (h.call op).2 = (map.call op).2 ∧ (h.call op).1.Represents (map.call op).1 := by
  obtain ⟨hwf, rfl⟩ := hrep
  obtain ⟨hnext, hcall⟩ := call_spec hwf op
  exact ⟨congrArg Prod.snd hcall, hnext, congrArg Prod.fst hcall⟩

/-- After any calls on a new table. -/
theorem refines_stamped_map (ops : List (Operation K V)) :
    answers THash.call empty ops = answers Stamped.call (fun _ => none) ops ∧
      (ops.foldl (fun (h : THash K V) op => (h.call op).1) empty).Refines
        (ops.foldl (fun (map : Stamped K V) op => (map.call op).1) fun _ => none) := by
  constructor
  · exact answers_eq (fun hrep _ => Represents.call hrep _) represents_empty
      (meets_of_forall fun _ _ => trivial)
  · obtain ⟨hwf, hcontents⟩ := @foldl_related _ _ _ (fun (h : THash K V) op => (h.call op).1)
      (fun (map : Stamped K V) op => (map.call op).1) (fun _ _ => True) Represents
      (fun hrep _ => (Represents.call hrep _).2) _ _ ops represents_empty
      (meets_of_forall fun _ _ => trivial)
    rw [← hcontents]
    exact hwf.refines

end THash

end

end AmxModC.Vault
