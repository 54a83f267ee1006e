import AmxModC.Vault.TinyHash

namespace AmxModC.Vault

open Foundation

namespace THash

variable {K V : Type} {h h' : THash K V} {place other : Nat} {node : THashNode K V}

/-! Buckets against the flat list of nodes. -/

theorem mem_nodes : node ∈ h.nodes ↔ ∃ place, node ∈ h.bucket place := by
  constructor
  · intro hmem
    obtain ⟨bucket, hbucket, hnode⟩ := List.mem_flatMap.mp hmem
    obtain ⟨place, hplace⟩ := List.mem_iff_getElem?.mp hbucket
    refine ⟨place, ?_⟩
    rw [THash.bucket, hplace]
    exact hnode
  · rintro ⟨place, hnode⟩
    cases hplace : h.buckets[place]? with
    | none => simp [bucket, hplace] at hnode
    | some bucket =>
        rw [THash.bucket, hplace] at hnode
        exact List.mem_flatMap.mpr ⟨bucket, List.mem_of_getElem? hplace, hnode⟩

theorem bucket_sublist (h : THash K V) (place : Nat) : (h.bucket place).Sublist h.nodes := by
  cases hplace : h.buckets[place]? with
  | none => simp [bucket, hplace]
  | some bucket =>
      rw [THash.bucket, hplace, nodes, List.flatMap]
      apply List.sublist_flatten_of_mem
      exact List.mem_map.mpr ⟨bucket, List.mem_of_getElem? hplace, rfl⟩

@[simp] theorem numBuckets_pushBack (h : THash K V) (place : Nat) (node : THashNode K V) :
    (h.pushBack place node).numBuckets = h.numBuckets := by
  simp [pushBack, numBuckets]

theorem bucket_pushBack (hplace : place < h.numBuckets) :
    (h.pushBack place node).bucket other =
      if other = place then h.bucket place ++ [node] else h.bucket other := by
  rw [numBuckets] at hplace
  by_cases heq : other = place
  · subst heq
    simp [pushBack, bucket, hplace]
  · simp [pushBack, bucket, List.getElem?_set_ne (Ne.symm heq), heq]

theorem nodes_pushBack (hplace : place < h.numBuckets) :
    (h.pushBack place node).nodes.Perm (node :: h.nodes) := by
  rw [numBuckets] at hplace
  have hsplit : h.buckets = h.buckets.take place ++ h.buckets[place] :: h.buckets.drop (place + 1) := by
    simp
  have hbucket : h.bucket place = h.buckets[place].getD [] := by
    simp [bucket, hplace]
  rw [nodes, nodes, pushBack, List.set_eq_take_append_cons_drop, if_pos hplace]
  conv_rhs => rw [hsplit]
  simp only [List.flatMap_append, List.flatMap_cons, Option.getD_some, hbucket, List.append_assoc]
  have hmiddle : ∀ before own after : List (THashNode K V),
      (before ++ (own ++ node :: after)).Perm (node :: (before ++ (own ++ after))) := by
    intro before own after
    rw [← List.append_assoc, ← List.append_assoc]
    exact List.perm_middle
  exact hmiddle _ _ _

def mapBuckets (h : THash K V) (F : List (THashNode K V) → List (THashNode K V)) : THash K V :=
  { h with buckets := h.buckets.map fun bucket => bucket.map F }

theorem bucket_mapBuckets (F : List (THashNode K V) → List (THashNode K V)) (hF : F [] = []) :
    (h.mapBuckets F).bucket place = F (h.bucket place) := by
  cases hplace : h.buckets[place]? with
  | none => simp [bucket, mapBuckets, hplace, hF]
  | some bucket => cases bucket <;> simp [THash.bucket, mapBuckets, hplace, hF]

theorem nodes_mapBuckets_filter (p : THashNode K V → Bool) :
    (h.mapBuckets fun nodes => nodes.filter p).nodes = h.nodes.filter p := by
  rw [nodes, mapBuckets, List.flatMap_map, nodes, List.filter_flatMap]
  congr 1
  funext bucket
  cases bucket <;> rfl

theorem nodes_mapBuckets_map (f : THashNode K V → THashNode K V) :
    (h.mapBuckets fun nodes => nodes.map f).nodes = h.nodes.map f := by
  rw [nodes, mapBuckets, List.flatMap_map, nodes, List.map_flatMap]
  congr 1
  funext bucket
  cases bucket <;> rfl

theorem modify_eq_mapBuckets
    (h : THash K V)
    (place : Nat)
    (G F : List (THashNode K V) → List (THashNode K V))
    (hown : G (h.bucket place) = F (h.bucket place))
    (hother : ∀ other, other ≠ place → F (h.bucket other) = h.bucket other) :
    h.buckets.modify place (fun bucket => bucket.map G) = (h.mapBuckets F).buckets := by
  refine List.ext_getElem? fun other => ?_
  rw [List.getElem?_modify, mapBuckets, List.getElem?_map]
  cases hbucket : h.buckets[other]? with
  | none => simp
  | some bucket =>
      cases bucket with
      | none => simp
      | some nodes =>
          have hnodes : h.bucket other = nodes := by simp [THash.bucket, hbucket]
          by_cases heq : place = other
          · subst heq
            rw [hnodes] at hown
            simp [hown]
          · have hsame := hother other (Ne.symm heq)
            rw [hnodes] at hsame
            simp [heq, hsame]

theorem buckets_useBucket (h : THash K V) (place : Nat) :
    (h.useBucket place).buckets = h.buckets := by
  rw [useBucket]
  split <;> rfl

theorem items_useBucket (h : THash K V) (place : Nat) : (h.useBucket place).items = h.items := by
  rw [useBucket]
  split <;> rfl

section

variable [HashFunction K] {nodes : List (THashNode K V)} {key : K}

def Placed (h : THash K V) : Prop :=
  ∀ place, ∀ node ∈ h.bucket place, h.placeOf node.key = place

structure Holds (h : THash K V) (nodes : List (THashNode K V)) : Prop where
  grown : 0 < h.numBuckets
  placed : h.Placed
  perm : h.nodes.Perm nodes

theorem placeOf_lt (hgrown : 0 < h.numBuckets) (key : K) : h.placeOf key < h.numBuckets :=
  Nat.mod_lt _ hgrown

theorem Holds.of_buckets (hholds : h.Holds nodes) (hbuckets : h'.buckets = h.buckets) :
    h'.Holds nodes := by
  obtain ⟨buckets, used, items⟩ := h
  obtain ⟨buckets', used', items'⟩ := h'
  cases hbuckets
  exact ⟨hholds.grown, hholds.placed, hholds.perm⟩

theorem Holds.pushBack (hholds : h.Holds nodes) (node : THashNode K V) :
    (h.pushBack (h.placeOf node.key) node).Holds (node :: nodes) where
  grown := by
    rw [numBuckets_pushBack]
    exact hholds.grown
  placed := by
    intro place member hmember
    have hplace : (h.pushBack (h.placeOf node.key) node).placeOf member.key =
        h.placeOf member.key := by
      rw [placeOf, numBuckets_pushBack, placeOf]
    rw [bucket_pushBack (placeOf_lt hholds.grown _)] at hmember
    rw [hplace]
    split at hmember
    next heq =>
        subst heq
        rcases List.mem_append.mp hmember with hold | hnew
        · exact hholds.placed _ _ hold
        · rw [List.mem_singleton.mp hnew]
    next => exact hholds.placed _ _ hmember
  perm := (nodes_pushBack (placeOf_lt hholds.grown _)).trans (hholds.perm.cons node)

theorem Holds.rehash (hholds : h.Holds nodes) (node : THashNode K V) :
    (h.rehash node).Holds (node :: nodes) := by
  have hused := hholds.of_buckets (buckets_useBucket h (h.placeOf node.key))
  have hplace : (h.useBucket (h.placeOf node.key)).placeOf node.key = h.placeOf node.key := by
    rw [placeOf, numBuckets, buckets_useBucket]
    rfl
  have hpush := hused.pushBack node
  rw [hplace] at hpush
  exact hpush

theorem Holds.addNode (hholds : h.Holds nodes) (fresh : THashNode K V) (items : Nat) :
    ({ h.rehash fresh with items := items } : THash K V).Holds (fresh :: nodes) :=
  (hholds.rehash fresh).of_buckets rfl

theorem holds_replicate {size : Nat} (hsize : 0 < size) (used : ℚ) (items : Nat) :
    (⟨List.replicate size none, used, items⟩ : THash K V).Holds [] where
  grown := by simpa [numBuckets] using hsize
  placed := by
    intro place node hnode
    rw [bucket, List.getElem?_replicate] at hnode
    split at hnode <;> cases hnode
  perm := by simp [THash.nodes]

theorem Holds.foldl_rehash (hholds : h.Holds nodes) (more : List (THashNode K V)) :
    (more.foldl THash.rehash h).Holds (more ++ nodes) := by
  induction more generalizing h nodes with
  | nil => exact hholds
  | cons node more ih =>
      have hrest := ih (hholds.rehash node)
      exact ⟨hrest.grown, hrest.placed, hrest.perm.trans List.perm_middle⟩

theorem items_foldl_rehash (h : THash K V) (more : List (THashNode K V)) :
    (more.foldl rehash h).items = h.items := by
  induction more generalizing h with
  | nil => rfl
  | cons node more ih => exact (ih _).trans (items_useBucket h _)

theorem holds_refactor (h : THash K V) : h.refactor.Holds h.nodes := by
  rw [refactor]
  split
  next hnone =>
      have hnodes : h.nodes = [] := by
        rw [numBuckets, List.length_eq_zero_iff] at hnone
        rw [THash.nodes, hnone]
        rfl
      rw [hnodes]
      exact holds_replicate (by decide) _ _
  next hsome =>
      have hsize : 0 < h.numBuckets * 2 := by omega
      have hfold := (holds_replicate hsize 0 h.items).foldl_rehash h.nodes
      rw [List.append_nil] at hfold
      exact hfold

theorem items_refactor (h : THash K V) : h.refactor.items = h.items := by
  rw [refactor]
  split
  next => rfl
  next => exact items_foldl_rehash _ _

theorem Holds.growIfUsed (hholds : h.Holds nodes) : h.growIfUsed.Holds nodes := by
  rw [THash.growIfUsed]
  split
  next =>
      have hnew := holds_refactor h
      exact ⟨hnew.grown, hnew.placed, hnew.perm.trans hholds.perm⟩
  next => exact hholds

theorem items_growIfUsed (h : THash K V) : h.growIfUsed.items = h.items := by
  rw [growIfUsed]
  split
  next => exact items_refactor h
  next => rfl

structure WellFormed (h : THash K V) : Prop where
  grown : 0 < h.numBuckets
  placed : h.Placed
  distinct : Distinct THashNode.key h.nodes
  counted : h.items = h.nodes.length

theorem Holds.wellFormed
    (hholds : h.Holds nodes)
    (hdistinct : Distinct THashNode.key nodes)
    (hcounted : h.items = nodes.length) :
    h.WellFormed where
  grown := hholds.grown
  placed := hholds.placed
  distinct := hdistinct.perm hholds.perm.symm
  counted := hcounted.trans hholds.perm.length_eq.symm

theorem WellFormed.holds (h_wf : h.WellFormed) : h.Holds h.nodes :=
  ⟨h_wf.grown, h_wf.placed, List.Perm.refl _⟩

theorem placed_mapBuckets
    {F : List (THashNode K V) → List (THashNode K V)}
    (hplaced : h.Placed)
    (hF : ∀ nodes, ∀ node ∈ F nodes, ∃ old ∈ nodes, old.key = node.key) :
    (h.mapBuckets F).Placed := by
  have hnil : F [] = [] := by
    refine List.eq_nil_iff_forall_not_mem.mpr fun node hnode => ?_
    obtain ⟨old, hold, -⟩ := hF [] node hnode
    exact List.not_mem_nil hold
  intro place node hnode
  rw [bucket_mapBuckets F hnil] at hnode
  obtain ⟨old, hold, hkey⟩ := hF _ node hnode
  have hplace := hplaced place old hold
  rw [hkey] at hplace
  rw [← hplace, placeOf, placeOf, numBuckets, numBuckets, mapBuckets, List.length_map]

theorem WellFormed.filter
    (hwf : h.WellFormed)
    (p : THashNode K V → Bool)
    {items : Nat}
    (hitems : items = (h.nodes.filter p).length) :
    { h.mapBuckets (fun nodes => nodes.filter p) with items := items }.WellFormed where
  grown := by
    have hgrown := hwf.grown
    simpa [numBuckets, mapBuckets] using hgrown
  placed := placed_mapBuckets hwf.placed fun nodes node hnode =>
    ⟨node, (List.mem_filter.mp hnode).1, rfl⟩
  distinct := by
    have hdistinct := hwf.distinct.filter p
    rw [← nodes_mapBuckets_filter] at hdistinct
    exact hdistinct
  counted := by
    rw [hitems, ← nodes_mapBuckets_filter]
    rfl

theorem WellFormed.map
    (hwf : h.WellFormed)
    {f : THashNode K V → THashNode K V}
    (hf : ∀ node, (f node).key = node.key) :
    (h.mapBuckets fun nodes => nodes.map f).WellFormed where
  grown := by
    have hgrown := hwf.grown
    simpa [numBuckets, mapBuckets] using hgrown
  placed := placed_mapBuckets hwf.placed fun nodes node hnode => by
    obtain ⟨old, hold, rfl⟩ := List.mem_map.mp hnode
    exact ⟨old, hold, (hf old).symm⟩
  distinct := by
    rw [nodes_mapBuckets_map]
    exact hwf.distinct.map hf
  counted := by
    rw [nodes_mapBuckets_map, List.length_map]
    exact hwf.counted

theorem Placed.key_ne (hplaced : h.Placed) (hother : place ≠ h.placeOf key)
    (hnode : node ∈ h.bucket place) : node.key ≠ key := by
  rintro rfl
  exact hother (hplaced place node hnode).symm

theorem empty_holds : (empty : THash K V).Holds [] := holds_refactor ⟨[], 0, 0⟩

theorem empty_wellFormed : (empty : THash K V).WellFormed :=
  empty_holds.wellFormed distinct_nil rfl

theorem clear_holds (h : THash K V) : h.clear.Holds [] :=
  holds_refactor { h with buckets := [], items := 0 }

theorem clear_wellFormed (h : THash K V) : h.clear.WellFormed :=
  (clear_holds h).wellFormed distinct_nil (items_refactor _)

theorem refactor_wellFormed (hwf : h.WellFormed) : h.refactor.WellFormed :=
  (holds_refactor h).wellFormed hwf.distinct ((items_refactor h).trans hwf.counted)

theorem prune_wellFormed (hwf : h.WellFormed) (start «end» : Time) :
    (h.prune start «end»).1.WellFormed := by
  refine hwf.filter _ ?_
  have hcount := List.length_eq_countP_add_countP (l := h.nodes)
    fun node => pruned start «end» node.stamp
  simp only [hwf.counted, ← List.countP_eq_length_filter, hcount]
  simp

end

/-! The table as a map from keys to values with their stamps. -/

variable [DecidableEq K]

def contents (h : THash K V) (key : K) : Option (V × Time) :=
  (lookup THashNode.key h.nodes key).map fun node => (node.val, node.stamp)

variable [HashFunction K] {key other : K}

theorem WellFormed.node? (hwf : h.WellFormed) (key : K) :
    h.node? key = lookup THashNode.key h.nodes key := by
  have hbucket : Distinct THashNode.key (h.bucket (h.placeOf key)) :=
    hwf.distinct.sublist ((bucket_sublist h _).map _)
  refine Option.ext fun node => ?_
  rw [THash.node?, lookup_eq_some hbucket, lookup_eq_some hwf.distinct]
  constructor
  · intro ⟨hmem, hkey⟩
    exact ⟨mem_nodes.mpr ⟨_, hmem⟩, hkey⟩
  · intro ⟨hmem, hkey⟩
    obtain ⟨place, hnode⟩ := mem_nodes.mp hmem
    have hplace := hwf.placed place node hnode
    rw [hkey] at hplace
    rw [hplace]
    exact ⟨hnode, hkey⟩

theorem WellFormed.retrieve? (hwf : h.WellFormed) (key : K) :
    h.retrieve? key = h.contents key := by
  rw [THash.retrieve?, hwf.node?, contents]

theorem WellFormed.existsKey (hwf : h.WellFormed) (key : K) :
    h.existsKey key = (lookup THashNode.key h.nodes key).isSome := by
  rw [THash.existsKey, hwf.node?]

@[simp] theorem contents_empty : (empty : THash K V).contents key = none := by
  rw [contents, List.perm_nil.mp empty_holds.perm]
  rfl

@[simp] theorem contents_clear (h : THash K V) : h.clear.contents key = none := by
  rw [contents, List.perm_nil.mp (clear_holds h).perm]
  rfl

theorem contents_refactor (hwf : h.WellFormed) (key : K) :
    h.refactor.contents key = h.contents key := by
  rw [contents, contents, lookup_perm hwf.distinct (holds_refactor h).perm.symm]

theorem contents_prune (hwf : h.WellFormed) (start «end» : Time) (key : K) :
    (h.prune start «end»).1.contents key =
      (h.contents key).filter fun entry => !pruned start «end» entry.2 := by
  have hnodes : (h.prune start «end»).1.nodes =
      h.nodes.filter fun node => !pruned start «end» node.stamp :=
    nodes_mapBuckets_filter _
  rw [contents, contents, hnodes, lookup_filter hwf.distinct, Option.filter_map]
  rfl

theorem remove_eq (hwf : h.WellFormed) (hkey : h.existsKey key = true) :
    h.remove key =
      { h.mapBuckets (fun nodes => nodes.filter fun node => node.key ≠ key) with
        items := h.items - 1 } := by
  have hown : (h.bucket (h.placeOf key)).eraseP (fun node => node.key = key) =
      (h.bucket (h.placeOf key)).filter fun node => node.key ≠ key :=
    Distinct.eraseP_eq_filter (hwf.distinct.sublist ((bucket_sublist h _).map _))
  have hbuckets := modify_eq_mapBuckets h (h.placeOf key)
    (fun nodes => nodes.eraseP fun node => node.key = key)
    (fun nodes => nodes.filter fun node => node.key ≠ key) hown fun place hplace =>
      List.filter_eq_self.mpr fun node hnode => by
        simpa using hwf.placed.key_ne hplace hnode
  rw [remove, if_pos hkey, hbuckets]
  rfl

theorem modify_eq (hplaced : h.Placed) (f : THashNode K V → THashNode K V) :
    h.modify key f =
      h.mapBuckets fun nodes => nodes.map fun node => if node.key = key then f node else node := by
  have hbuckets := modify_eq_mapBuckets h (h.placeOf key)
    (fun nodes => nodes.map fun node => if node.key = key then f node else node)
    (fun nodes => nodes.map fun node => if node.key = key then f node else node) rfl
    fun place hplace => by
      have hsame : ∀ node ∈ h.bucket place,
          (if node.key = key then f node else node) = node := fun node hnode =>
        if_neg (hplaced.key_ne hplace hnode)
      rw [List.map_congr_left hsame, List.map_id']
  rw [modify, hbuckets]
  rfl

theorem filter_length_of_exists (hwf : h.WellFormed) (hkey : h.existsKey key = true) :
    (h.nodes.filter fun node => node.key ≠ key).length = h.nodes.length - 1 := by
  rw [hwf.existsKey, Option.isSome_iff_exists] at hkey
  obtain ⟨node, hnode⟩ := hkey
  obtain ⟨hmem, rfl⟩ := (lookup_eq_some hwf.distinct).mp hnode
  rw [← hwf.distinct.eraseP_eq_filter, List.length_eraseP_of_mem hmem (by simp)]

theorem remove_wellFormed (hwf : h.WellFormed) (key : K) : (h.remove key).WellFormed := by
  by_cases hkey : h.existsKey key = true
  · rw [remove_eq hwf hkey]
    refine hwf.filter _ ?_
    rw [filter_length_of_exists hwf hkey, hwf.counted]
  · rw [remove, if_neg hkey]
    exact hwf

theorem contents_remove (hwf : h.WellFormed) (key other : K) :
    (h.remove key).contents other = if other = key then none else h.contents other := by
  by_cases hkey : h.existsKey key = true
  · have hnodes : (h.remove key).nodes = h.nodes.filter fun node => node.key ≠ key := by
      rw [remove_eq hwf hkey]
      exact nodes_mapBuckets_filter _
    rw [contents, contents, hnodes, lookup_filter hwf.distinct]
    cases hfind : lookup THashNode.key h.nodes other with
    | none => simp
    | some node =>
        obtain ⟨-, rfl⟩ := (lookup_eq_some hwf.distinct).mp hfind
        by_cases heq : node.key = key <;> simp [Option.filter, heq]
  · rw [remove, if_neg hkey]
    split
    next heq =>
        subst heq
        rw [hwf.existsKey, Option.not_isSome_iff_eq_none] at hkey
        rw [contents, hkey]
        rfl
    next => rfl

theorem findOrInsert_wellFormed (hwf : h.WellFormed) (fresh : THashNode K V) :
    (h.findOrInsert fresh).WellFormed := by
  rw [findOrInsert]
  split
  next => exact hwf
  next hkey =>
      rw [hwf.existsKey, Option.not_isSome_iff_eq_none, lookup_eq_none] at hkey
      have hholds := hwf.holds.addNode fresh (h.items + 1)
      refine hholds.growIfUsed.wellFormed (distinct_cons.mpr ⟨hkey, hwf.distinct⟩) ?_
      rw [items_growIfUsed, List.length_cons, ← hwf.counted]

theorem lookup_findOrInsert (hwf : h.WellFormed) (fresh : THashNode K V) :
    lookup THashNode.key (h.findOrInsert fresh).nodes other =
      if other = fresh.key then some ((h.node? fresh.key).getD fresh)
      else lookup THashNode.key h.nodes other := by
  cases hnode : h.node? fresh.key with
  | some node =>
      have hkey : h.existsKey fresh.key = true := by
        rw [THash.existsKey, hnode]
        rfl
      rw [findOrInsert, if_pos hkey]
      split
      next heq => rw [heq, ← hwf.node?, hnode, Option.getD_some]
      next => rfl
  | none =>
      have hkey : h.existsKey fresh.key = false := by
        rw [THash.existsKey, hnode]
        rfl
      rw [hwf.node?, lookup_eq_none] at hnode
      have hdistinct : Distinct THashNode.key (fresh :: h.nodes) :=
        distinct_cons.mpr ⟨hnode, hwf.distinct⟩
      have hholds := hwf.holds.addNode fresh (h.items + 1)
      have hlookup := lookup_perm hdistinct hholds.growIfUsed.perm.symm (k := other)
      rw [lookup_cons] at hlookup
      rw [findOrInsert, hkey, if_neg Bool.false_ne_true, Option.getD_none]
      simp only [eq_comm (a := other)]
      exact hlookup.symm

theorem contents_findOrInsert (hwf : h.WellFormed) (fresh : THashNode K V) (other : K) :
    (h.findOrInsert fresh).contents other =
      if other = fresh.key then
        some (((h.node? fresh.key).getD fresh).val, ((h.node? fresh.key).getD fresh).stamp)
      else h.contents other := by
  rw [contents, contents, lookup_findOrInsert hwf]
  split <;> rfl

theorem node?_getD_key (hwf : h.WellFormed) (fresh : THashNode K V) :
    ((h.node? fresh.key).getD fresh).key = fresh.key := by
  cases hnode : h.node? fresh.key with
  | none => rfl
  | some node =>
      rw [hwf.node?] at hnode
      exact ((lookup_eq_some hwf.distinct).mp hnode).2

theorem modify_wellFormed (hwf : h.WellFormed) (key : K) {f : THashNode K V → THashNode K V}
    (hf : ∀ node, (f node).key = node.key) : (h.modify key f).WellFormed := by
  rw [modify_eq hwf.placed]
  refine hwf.map fun node => ?_
  split
  next => exact hf node
  next => rfl

theorem contents_write (hwf : h.WellFormed) (fresh : THashNode K V)
    (f : THashNode K V → THashNode K V) (hf : ∀ node, (f node).key = node.key) (other : K) :
    ((h.findOrInsert fresh).modify fresh.key f).contents other =
      if other = fresh.key then
        some ((f ((h.node? fresh.key).getD fresh)).val, (f ((h.node? fresh.key).getD fresh)).stamp)
      else h.contents other := by
  have hkey : ∀ node : THashNode K V,
      (if node.key = fresh.key then f node else node).key = node.key := by
    intro node
    split
    next => exact hf node
    next => rfl
  have hfound := findOrInsert_wellFormed hwf fresh
  rw [contents, contents, modify_eq hfound.placed, nodes_mapBuckets_map, lookup_map hkey,
    lookup_findOrInsert hwf]
  split
  next => simp [node?_getD_key hwf]
  next hne =>
      cases hfind : lookup THashNode.key h.nodes other with
      | none => rfl
      | some node =>
          obtain ⟨-, rfl⟩ := (lookup_eq_some hwf.distinct).mp hfind
          simp [hne]

variable [Inhabited V]

theorem insert_wellFormed (hwf : h.WellFormed) (key : K) (val : V) (stamp : Time) :
    (h.insert key val stamp).WellFormed :=
  modify_wellFormed (findOrInsert_wellFormed hwf _) key fun _ => rfl

theorem contents_insert (hwf : h.WellFormed) (key : K) (val : V) (stamp : Time) (other : K) :
    (h.insert key val stamp).contents other =
      if other = key then some (val, stamp) else h.contents other :=
  contents_write hwf ⟨key, default, 0⟩ (fun node => { node with val, stamp }) (fun _ => rfl) other

theorem touch_wellFormed (hwf : h.WellFormed) (key : K) (stamp : Time) :
    (h.touch key stamp).WellFormed :=
  modify_wellFormed (findOrInsert_wellFormed hwf _) key fun _ => rfl

theorem contents_touch (hwf : h.WellFormed) (key : K) (stamp : Time) (other : K) :
    (h.touch key stamp).contents other =
      if other = key then some (((h.contents key).map Prod.fst).getD default, stamp)
      else h.contents other := by
  have hwrite := contents_write hwf ⟨key, default, 0⟩ (fun node => { node with stamp })
    (fun _ => rfl) other
  rw [touch, hwrite, ← hwf.retrieve? key, THash.retrieve?]
  cases h.node? key <;> rfl

theorem retrieve_wellFormed (hwf : h.WellFormed) (key : K) (garbage : Time) :
    (h.retrieve key garbage).1.WellFormed :=
  findOrInsert_wellFormed hwf _

theorem retrieve_answer (hwf : h.WellFormed) (key : K) (garbage : Time) :
    (h.retrieve key garbage).2 = (h.contents key).getD (default, garbage) := by
  rw [← hwf.retrieve?, THash.retrieve?, retrieve]
  cases h.node? key <;> rfl

theorem contents_retrieve (hwf : h.WellFormed) (key : K) (garbage : Time) (other : K) :
    (h.retrieve key garbage).1.contents other =
      if other = key then some ((h.contents key).getD (default, garbage))
      else h.contents other := by
  rw [← retrieve_answer hwf]
  exact contents_findOrInsert hwf _ other

end THash

end AmxModC.Vault
