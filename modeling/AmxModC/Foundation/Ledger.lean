import Mathlib.Data.List.Nodup
import Mathlib.Data.List.Range
import Mathlib.Data.List.Perm.Basic

namespace AmxModC.Foundation

/-! Blocks that are to be given back once, each by the deallocator that fits it, and how they
change hands. -/

structure Ledger (Block Deallocator : Type*) where
  blocks : List Block
  released : List (Nat × Deallocator)
deriving DecidableEq

namespace Ledger

variable {Block Deallocator : Type*}

def empty : Ledger Block Deallocator := ⟨[], []⟩

def allocate (l : Ledger Block Deallocator) (block : Block) : Ledger Block Deallocator × Nat :=
  ({ l with blocks := l.blocks ++ [block] }, l.blocks.length)

def releaseAll (l : Ledger Block Deallocator) (rs : List (Nat × Deallocator)) :
    Ledger Block Deallocator :=
  { l with released := l.released ++ rs }

def release (l : Ledger Block Deallocator) (number : Nat) (deallocator : Deallocator) :
    Ledger Block Deallocator :=
  l.releaseAll [(number, deallocator)]

theorem releaseAll_append (l : Ledger Block Deallocator) (rs rs' : List (Nat × Deallocator)) :
    l.releaseAll (rs ++ rs') = (l.releaseAll rs).releaseAll rs' :=
  congrArg (Ledger.mk l.blocks) (List.append_assoc _ _ _).symm

theorem releaseAll_nil (l : Ledger Block Deallocator) : l.releaseAll [] = l :=
  congrArg (Ledger.mk l.blocks) (List.append_nil _)

theorem foldl_releaseAll {α : Type*} (f : α → List (Nat × Deallocator)) (as : List α)
    (l : Ledger Block Deallocator) :
    as.foldl (fun l a => l.releaseAll (f a)) l = l.releaseAll (as.flatMap f) := by
  induction as generalizing l with
  | nil => exact l.releaseAll_nil.symm
  | cons a as ih => rw [List.foldl_cons, ih, List.flatMap_cons, releaseAll_append]

section

variable (fit : Block → Deallocator) (l : Ledger Block Deallocator)

def Settled (held : List Nat) : Prop :=
  ∀ number block, l.blocks[number]? = some block → number ∉ held →
    l.released.filter (fun r => r.1 = number) = [(number, fit block)]

def Fits (r : Nat × Deallocator) : Prop := l.blocks[r.1]?.map fit = some r.2

def Matched (held : List (Nat × Deallocator)) : Prop :=
  ∀ r ∈ l.released ++ held, l.Fits fit r

def Accounted (held : List (Nat × Deallocator)) : Prop :=
  ((l.released ++ held).map Prod.fst).Perm (List.range l.blocks.length)

structure Moves (held : List (Nat × Deallocator)) (l' : Ledger Block Deallocator)
    (held' : List (Nat × Deallocator)) : Prop where
  blocks : l.blocks <+: l'.blocks
  accounted : ∀ {rest}, l.Accounted (held ++ rest) → l'.Accounted (held' ++ rest)
  fits : (∀ r ∈ held, l.Fits fit r) → ∀ r ∈ held', l'.Fits fit r
  released : ∃ late, l'.released = l.released ++ late ∧
    ((∀ r ∈ held, l.Fits fit r) → ∀ r ∈ late, l'.Fits fit r)

end

variable {fit : Block → Deallocator} {l l' l'' : Ledger Block Deallocator}
  {held held' held'' : List (Nat × Deallocator)} {r : Nat × Deallocator}

theorem Fits.eq {number : Nat} {d d' : Deallocator} (h : l.Fits fit (number, d))
    (h' : l.Fits fit (number, d')) : d = d' :=
  Option.some.inj (h.symm.trans h')

theorem Fits.mono (h : l.Fits fit r) (hblocks : l.blocks <+: l'.blocks) : l'.Fits fit r := by
  obtain ⟨block, hblock, hfit⟩ := Option.map_eq_some_iff.mp h
  obtain ⟨more, hmore⟩ := hblocks
  refine Option.map_eq_some_iff.mpr ⟨block, ?_, hfit⟩
  rw [← hmore, List.getElem?_append_left (List.getElem?_eq_some_iff.mp hblock).1, hblock]

theorem fits_iff_of_lt (hblocks : l.blocks <+: l'.blocks) (hlt : r.1 < l.blocks.length) :
    l'.Fits fit r ↔ l.Fits fit r := by
  refine ⟨fun h => ?_, fun h => h.mono hblocks⟩
  obtain ⟨more, hmore⟩ := hblocks
  rwa [Fits, ← hmore, List.getElem?_append_left hlt] at h

namespace Accounted

theorem lt (h : l.Accounted held) (hr : r ∈ l.released ++ held) : r.1 < l.blocks.length :=
  List.mem_range.mp (h.subset (List.mem_map_of_mem hr))

theorem nodup (h : l.Accounted held) : ((l.released ++ held).map Prod.fst).Nodup :=
  h.nodup_iff.mpr List.nodup_range

theorem congr (h : l.Accounted held) (hfst : (held.map Prod.fst).Perm (held'.map Prod.fst)) :
    l.Accounted held' := by
  rw [Accounted, List.map_append] at h ⊢
  exact (hfst.symm.append_left _).trans h

theorem empty : (Ledger.empty : Ledger Block Deallocator).Accounted [] := List.Perm.nil

theorem count_released (h : l.Accounted held) {number : Nat} (hlt : number < l.blocks.length)
    (hheld : number ∉ held.map Prod.fst) :
    (l.released.filter fun r => r.1 = number).length = 1 := by
  have hone : ((l.released ++ held).map Prod.fst).count number = 1 := by
    rw [h.count_eq, List.count_eq_one_of_mem List.nodup_range (List.mem_range.mpr hlt)]
  rw [List.map_append, List.count_append, List.count_eq_zero_of_not_mem hheld, Nat.add_zero,
    List.count, List.countP_map, List.countP_eq_length_filter] at hone
  simpa [Function.comp_def, beq_eq_decide] using hone

theorem settled_iff (h : l.Accounted held) :
    l.Settled fit (held.map Prod.fst) ↔ ∀ r ∈ l.released, l.Fits fit r := by
  constructor
  · intro hsettled r hr
    have hlt := h.lt (List.mem_append_left held hr)
    have hblock := List.getElem?_eq_getElem hlt
    have hdisjoint := h.nodup
    rw [List.map_append] at hdisjoint
    have hheld : r.1 ∉ held.map Prod.fst :=
      (List.disjoint_of_nodup_append hdisjoint) (List.mem_map_of_mem hr)
    have hmem : r ∈ l.released.filter (fun other => other.1 = r.1) :=
      List.mem_filter.mpr ⟨hr, decide_eq_true rfl⟩
    rw [hsettled r.1 _ hblock hheld, List.mem_singleton] at hmem
    exact (congrArg (Option.map fit) hblock).trans (congrArg some (congrArg Prod.snd hmem).symm)
  · intro hfits number block hblock hheld
    have hcount := h.count_released (List.getElem?_eq_some_iff.mp hblock).1 hheld
    obtain ⟨r, hr⟩ := List.length_eq_one_iff.mp hcount
    have hmem : r ∈ l.released ∧ r.1 = number := by
      have hmem := List.mem_filter.mp (hr ▸ List.mem_singleton_self r)
      exact ⟨hmem.1, of_decide_eq_true hmem.2⟩
    have hfit := hfits r hmem.1
    rw [Fits, hmem.2, hblock] at hfit
    rw [hr, ← hmem.2, Option.some.inj hfit]

end Accounted

theorem releaseAll_accounted {rs : List (Nat × Deallocator)} :
    (l.releaseAll rs).Accounted held ↔ l.Accounted (rs ++ held) := by
  rw [Accounted, Accounted, releaseAll, List.append_assoc]

theorem releaseAll_matched {rs : List (Nat × Deallocator)} :
    (l.releaseAll rs).Matched fit held ↔ l.Matched fit (rs ++ held) := by
  rw [Matched, Matched, releaseAll, List.append_assoc]
  rfl

theorem Matched.perm_iff (h : held.Perm held') : l.Matched fit held ↔ l.Matched fit held' :=
  forall_congr' fun _ => imp_congr_left (h.append_left _).mem_iff

namespace Moves

theorem refl (l : Ledger Block Deallocator) (held : List (Nat × Deallocator)) :
    l.Moves fit held l held where
  blocks := List.prefix_rfl
  accounted h := h
  fits h := h
  released := ⟨[], (List.append_nil _).symm, fun _ _ hr => absurd hr List.not_mem_nil⟩

theorem trans (h : l.Moves fit held l' held') (h' : l'.Moves fit held' l'' held'') :
    l.Moves fit held l'' held'' where
  blocks := h.blocks.trans h'.blocks
  accounted hrest := h'.accounted (h.accounted hrest)
  fits hheld := h'.fits (h.fits hheld)
  released := by
    obtain ⟨late, hlate, hfits⟩ := h.released
    obtain ⟨later, hlater, hfits'⟩ := h'.released
    refine ⟨late ++ later, by rw [hlater, hlate, List.append_assoc], fun hheld r hr => ?_⟩
    cases List.mem_append.mp hr with
    | inl hr => exact (hfits hheld r hr).mono h'.blocks
    | inr hr => exact hfits' (h.fits hheld) r hr

theorem perm (h : l.Moves fit held l' held') (hperm : held'.Perm held'') :
    l.Moves fit held l' held'' where
  blocks := h.blocks
  accounted hrest := (h.accounted hrest).congr ((hperm.append_right _).map _)
  fits hheld r hr := h.fits hheld r (hperm.mem_iff.mpr hr)
  released := h.released

theorem frame (h : l.Moves fit held l' held') (rest : List (Nat × Deallocator)) :
    l.Moves fit (held ++ rest) l' (held' ++ rest) where
  blocks := h.blocks
  accounted hall := by
    rw [List.append_assoc] at hall ⊢
    exact h.accounted hall
  fits hall r hr := by
    cases List.mem_append.mp hr with
    | inl hr => exact h.fits (fun r hr => hall r (List.mem_append_left _ hr)) r hr
    | inr hr => exact (hall r (List.mem_append_right _ hr)).mono h.blocks
  released := by
    obtain ⟨late, hlate, hfits⟩ := h.released
    exact ⟨late, hlate, fun hall => hfits fun r hr => hall r (List.mem_append_left _ hr)⟩

theorem allocate (l : Ledger Block Deallocator) (block : Block) :
    l.Moves fit [] (l.allocate block).1 [((l.allocate block).2, fit block)] where
  blocks := List.prefix_append _ _
  accounted {rest} h := by
    have hlast := (h.append_right [l.blocks.length]).trans
      (List.Perm.of_eq List.range_succ.symm)
    rw [Accounted]
    simp only [Ledger.allocate, List.map_append, List.map_cons, List.length_append,
      List.length_singleton, List.nil_append, List.singleton_append] at hlast ⊢
    refine List.Perm.trans ?_ hlast
    rw [List.append_assoc]
    exact (List.perm_append_singleton _ _).symm.append_left _
  fits _ r hr := by
    cases List.mem_singleton.mp hr
    simp [Fits, Ledger.allocate]
  released := ⟨[], (List.append_nil _).symm, fun _ _ hr => absurd hr List.not_mem_nil⟩

theorem releaseAll (l : Ledger Block Deallocator) (rs : List (Nat × Deallocator)) :
    l.Moves fit rs (l.releaseAll rs) [] where
  blocks := List.prefix_rfl
  accounted h := releaseAll_accounted.mpr h
  fits _ _ hr := absurd hr List.not_mem_nil
  released := ⟨rs, rfl, fun h => h⟩

theorem release (l : Ledger Block Deallocator) (number : Nat) (deallocator : Deallocator) :
    l.Moves fit [(number, deallocator)] (l.release number deallocator) [] :=
  releaseAll l _

theorem matched_iff (h : l.Moves fit held l' held') (hfits : ∀ r ∈ held, l.Fits fit r)
    {rest : List (Nat × Deallocator)} (hacc : l.Accounted (held ++ rest)) :
    l'.Matched fit (held' ++ rest) ↔ l.Matched fit (held ++ rest) := by
  obtain ⟨late, hlate, hlateFits⟩ := h.released
  constructor
  · intro hmatched r hr
    refine (fits_iff_of_lt h.blocks (hacc.lt hr)).mp ?_
    cases List.mem_append.mp hr with
    | inl hr =>
        refine hmatched r (List.mem_append_left _ ?_)
        rw [hlate]
        exact List.mem_append_left _ hr
    | inr hr =>
        cases List.mem_append.mp hr with
        | inl hr => exact (hfits r hr).mono h.blocks
        | inr hr => exact hmatched r (List.mem_append_right _ (List.mem_append_right _ hr))
  · intro hmatched r hr
    rw [hlate, List.append_assoc, List.mem_append, List.mem_append, List.mem_append] at hr
    obtain hr | hr | hr | hr := hr
    · exact (hmatched r (List.mem_append_left _ hr)).mono h.blocks
    · exact hlateFits hfits r hr
    · exact h.fits hfits r hr
    · exact (hmatched r (List.mem_append_right _ (List.mem_append_right _ hr))).mono h.blocks

end Moves

end Ledger

end AmxModC.Foundation
