import AmxModC.Image.Loading

namespace AmxModC.Image

open Foundation

/-! Runs of the plugin manager: every block is where somebody will give it back, and all of it
fits as long as every load was careful. -/

namespace CPluginMngr

variable {g g' : CPluginMngr} {event : Event}

def holdings (g : CPluginMngr) : List (Nat × Deallocator) := g.cacheHolds ++ g.pluginsHold

/-- What the cache holds always fits; what a plugin holds does as far as its flag is right. -/
structure Sound (g : CPluginMngr) : Prop where
  accounted : g.heap.Accounted g.holdings
  cache : ∀ r ∈ g.cacheHolds, g.heap.Fits fit r
  handed_lt : ∀ number ∈ g.handed, number < g.heap.blocks.length
  handed_apart : ∀ pl ∈ g.mPlcache, pl.buffer.number ∉ g.handed

def Matched (g : CPluginMngr) : Prop := g.heap.Matched fit g.holdings

/-- What becomes of the images: all is given back once and rightly that neither the cache nor a
plugin holds, which in the end is all; and the cache has none that it gave to a plugin. -/
structure Settled (g : CPluginMngr) : Prop where
  gone : g.invalidateCache.heap.Settled Block.deallocator (g.pluginsHold.map Prod.fst)
  destroyed : g.destroy.heap.Settled Block.deallocator []
  apart : ∀ pl ∈ g.mPlcache, pl.buffer.number ∉ g.handed

def CarefulEvent (g : CPluginMngr) : Event → Prop
  | .loadPlugin file reader outcomes debug =>
      ∀ hdr ∈ g.header? file reader outcomes.newProgram, Careful outcomes debug hdr
  | _ => True

theorem sound_initial : initial.Sound where
  accounted := .empty
  cache _ hr := absurd hr List.not_mem_nil
  handed_lt _ hnumber := absurd hnumber List.not_mem_nil
  handed_apart _ hpl := absurd hpl List.not_mem_nil

theorem matched_initial : initial.Matched := fun _ hr => absurd hr List.not_mem_nil

namespace Sound

theorem cacheAndLoadModules (h : g.Sound) (plugin : CString) (reader : CAmxxReader) :
    (g.cacheAndLoadModules plugin reader).Sound ∧
      ((g.cacheAndLoadModules plugin reader).Matched ↔ g.Matched) := by
  have hread := readIntoOrFromCache_read g plugin reader
  obtain ⟨hhanded, hplugins⟩ := hread.handed
  have hmoves := hread.moves
  have hhold : ∀ {g' : CPluginMngr}, g'.plugins = g.plugins → g'.pluginsHold = g.pluginsHold :=
    fun heq => congrArg (List.flatMap CPlugin.releases) heq
  unfold CPluginMngr.cacheAndLoadModules
  refine ⟨⟨?_, hmoves.fits h.cache, ?_, ?_⟩, ?_⟩
  · rw [holdings, hhold hplugins]
    exact hmoves.accounted h.accounted
  · rw [hhanded]
    exact fun number hnumber => (h.handed_lt number hnumber).trans_le hmoves.blocks.length_le
  · intro pl hpl
    rw [hhanded]
    cases hread.mem hpl with
    | inl hpl => exact h.handed_apart pl hpl
    | inr hnew =>
        intro hmem
        exact (h.handed_lt _ hmem).ne hnew
  · rw [CPluginMngr.Matched, holdings, hhold hplugins]
    exact hmoves.matched_iff h.cache h.accounted

theorem invalidateCache (h : g.Sound) :
    g.invalidateCache.Sound ∧ (g.invalidateCache.Matched ↔ g.Matched) := by
  rw [invalidateCache_eq]
  refine ⟨⟨Ledger.releaseAll_accounted.mpr h.accounted, ?_, h.handed_lt, ?_⟩, ?_⟩
  · exact fun r hr => absurd hr List.not_mem_nil
  · exact fun pl hpl => absurd hpl List.not_mem_nil
  · exact Ledger.releaseAll_matched

theorem unloadPlugin (h : g.Sound) {i : Nat} (hstep : g.unloadPlugin i = some g') :
    g'.Sound ∧ (g'.Matched ↔ g.Matched) := by
  obtain ⟨plugin, hplugin, rfl⟩ := Option.map_eq_some_iff.mp hstep
  have hperm : g.holdings.Perm
      (plugin.releases ++ (g.cacheHolds ++ (g.plugins.eraseIdx i).flatMap CPlugin.releases)) := by
    have hplugins := (perm_cons_eraseIdx_of_getElem? hplugin).flatMap_right CPlugin.releases
    refine (hplugins.append_left _).trans ?_
    rw [List.flatMap_cons, ← List.append_assoc, ← List.append_assoc]
    exact List.perm_append_comm.append_right _
  rw [unloadAmxscript_eq]
  refine ⟨⟨?_, h.cache, h.handed_lt, h.handed_apart⟩, ?_⟩
  · exact Ledger.releaseAll_accounted.mpr (h.accounted.congr (hperm.map _))
  · exact Ledger.releaseAll_matched.trans (Ledger.Matched.perm_iff hperm).symm

theorem obtained (h : g.Sound) {file : CString} {reader : CAmxxReader} {outcomes : Outcomes}
    {reading : Reading} (hobtained : Obtained outcomes g file reader reading) :
    (∀ number ∈ reading.g.handed, number < reading.g.heap.blocks.length) ∧
      ∀ pl ∈ reading.g.mPlcache, pl.buffer.number ∉ reading.g.handed := by
  have hacc := hobtained.moves.accounted h.accounted
  have hlength := hobtained.moves.blocks.length_le
  constructor
  · intro number hnumber
    cases hobtained.mem_handed hnumber with
    | inl hold => exact (h.handed_lt number hold).trans_le hlength
    | inr hnew =>
        refine hacc.lt (r := (number, .deleteArray)) ?_
        rw [hnew]
        exact List.mem_append_right _ List.mem_cons_self
  · intro pl hpl hhanded
    cases hobtained.mem_handed hhanded with
    | inl hold =>
        cases hobtained.mem_cache hpl with
        | inl hcache => exact h.handed_apart pl hcache hold
        | inr hfresh => exact (h.handed_lt _ hold).ne hfresh
    | inr hnew =>
        have hnodup := hacc.nodup
        rw [hnew, List.map_append] at hnodup
        have hmem : pl.buffer.number ∈ (reading.g.cacheHolds ++ g.pluginsHold).map Prod.fst := by
          refine List.mem_map_of_mem (f := Prod.fst) (a := (pl.buffer.number, .deleteArray)) ?_
          refine List.mem_append_left _ (List.mem_flatMap.mpr ⟨pl, hpl, ?_⟩)
          exact List.mem_singleton_self _
        exact (List.nodup_cons.mp (List.nodup_append.mp hnodup).2.1).1 hmem

theorem loadPlugin (h : g.Sound) {file : CString} {reader : CAmxxReader} {outcomes : Outcomes}
    {debug : Int} (hstep : g.loadPlugin file reader outcomes debug = some g') :
    g'.Sound ∧ (g'.Matched ↔ g.Matched ∧
      ∀ hdr ∈ g.header? file reader outcomes.newProgram, Careful outcomes debug hdr) := by
  obtain ⟨⟨gRead, loaded⟩, hload, rfl⟩ := Option.map_eq_some_iff.mp hstep
  obtain ⟨reading, hobtained, hread, right, hleft, hflag⟩ := loadAmxscript_leaves hload
  have hmoves := hobtained.moves.trans (hleft.frame reading.g.cacheHolds)
  have hfits := hmoves.fits h.cache
  rw [hread]
  dsimp only
  generalize hg' : CPluginMngr.mk loaded.heap reading.g.mPlcache reading.g.handed _ = g'
  have hplugins : g'.pluginsHold =
      g.pluginsHold ++ loaded.releases loaded.amx.imageDeallocator := by
    rw [← hg', pluginsHold, hobtained.plugins, List.flatMap_append, pluginsHold]
    exact congrArg _ (List.append_nil _)
  have hperm : ∀ d, (reading.g.cacheHolds ++ (g.pluginsHold ++ loaded.releases d)).Perm
      (loaded.releases d ++ reading.g.cacheHolds ++ g.pluginsHold) := by
    intro d
    rw [← List.append_assoc, List.append_assoc (loaded.releases d)]
    exact List.perm_append_comm
  obtain ⟨hlt, hapart⟩ := h.obtained hobtained
  have hacc := hmoves.accounted h.accounted
  have hheap : g'.heap = loaded.heap := hg' ▸ rfl
  have hcache : g'.cacheHolds = reading.g.cacheHolds := hg' ▸ rfl
  refine ⟨⟨?_, ?_, ?_, ?_⟩, ?_⟩
  · rw [holdings, hplugins, hheap, hcache]
    refine hacc.congr (List.Perm.trans ?_ ((hperm _).symm.map Prod.fst))
    simp only [List.map_append, loaded.releases_numbers right loaded.amx.imageDeallocator]
    rfl
  · rw [hheap, hcache]
    exact fun r hr => hfits r (List.mem_append_right _ hr)
  · rw [← hg']
    exact fun number hnumber => (hlt number hnumber).trans_le hleft.blocks.length_le
  · rw [← hg']
    exact hapart
  · rw [Matched, holdings, hplugins, hheap, hcache, Ledger.Matched.perm_iff (hperm _),
      List.append_assoc, Loaded.matched_iff fun r hr => hfits r (List.mem_append_left _ hr),
      ← List.append_assoc, hmoves.matched_iff h.cache h.accounted, hflag]
    rfl

theorem step (h : g.Sound) (hstep : Image.step g event = some g') :
    g'.Sound ∧ (g'.Matched ↔ g.Matched ∧ g.CarefulEvent event) := by
  cases event with
  | cacheAndLoadModules plugin reader =>
      cases hstep
      obtain ⟨hsound, hmatched⟩ := h.cacheAndLoadModules plugin reader
      exact ⟨hsound, hmatched.trans (and_true _).to_iff.symm⟩
  | invalidateCache =>
      cases hstep
      obtain ⟨hsound, hmatched⟩ := h.invalidateCache
      exact ⟨hsound, hmatched.trans (and_true _).to_iff.symm⟩
  | loadPlugin file reader outcomes debug => exact h.loadPlugin hstep
  | unloadPlugin i =>
      obtain ⟨hsound, hmatched⟩ := h.unloadPlugin hstep
      exact ⟨hsound, hmatched.trans (and_true _).to_iff.symm⟩

theorem run {events : List Event} (h : g.Sound) (hrun : Foundation.run Image.step g events = some g') :
    g'.Sound ∧ (g'.Matched ↔ g.Matched ∧ Meets Image.step CarefulEvent g events) := by
  induction events generalizing g with
  | nil =>
      cases hrun
      exact ⟨h, (and_true _).to_iff.symm⟩
  | cons event rest ih =>
      obtain ⟨next, hnext, hrest⟩ := run_cons_eq_some.mp hrun
      obtain ⟨hsound, hmatched⟩ := h.step hnext
      obtain ⟨hfinal, hall⟩ := ih hsound hrest
      refine ⟨hfinal, hall.trans ?_⟩
      rw [hmatched, and_assoc, meets_cons]
      refine and_congr_right fun _ => and_congr_right fun _ => ?_
      exact ⟨fun h other hother => Option.some.inj (hnext.symm.trans hother) ▸ h,
        fun h => h next hnext⟩

theorem settled_iff_matched (h : g.Sound) : g.Settled ↔ g.Matched := by
  have hall : g.holdings.Perm (g.pluginsHold ++ g.cacheHolds ++ []) := by
    rw [List.append_nil]
    exact List.perm_append_comm
  have hdestroy : g.destroy.heap.Accounted [] := by
    rw [destroy_heap]
    exact Ledger.releaseAll_accounted.mpr (h.accounted.congr (hall.map _))
  have hdestroyed : g.destroy.heap.Settled fit [] ↔ g.Matched := by
    refine hdestroy.settled_iff.trans ?_
    rw [destroy_heap, Matched, Ledger.Matched.perm_iff hall, ← Ledger.releaseAll_matched,
      Ledger.Matched, List.append_nil]
  refine ⟨fun hsettled => hdestroyed.mp hsettled.destroyed, fun hmatched => ?_⟩
  refine ⟨?_, hdestroyed.mpr hmatched, h.handed_apart⟩
  have hinvalid := invalidateCache_eq g
  rw [hinvalid]
  refine (Ledger.releaseAll_accounted.mpr h.accounted).settled_iff.mpr fun r hr => ?_
  cases List.mem_append.mp hr with
  | inl hr => exact hmatched r (List.mem_append_left _ hr)
  | inr hr => exact h.cache r hr

end Sound

/-- In every run, what becomes of the images is right as long as every load was careful. -/
theorem settled_iff_careful {events : List Event}
    (hrun : Foundation.run Image.step initial events = some g) :
    g.Settled ↔ Meets Image.step CarefulEvent initial events := by
  obtain ⟨hsound, hmatched⟩ := sound_initial.run hrun
  rw [hsound.settled_iff_matched, hmatched]
  exact and_iff_right matched_initial

def pluginFile (fileVersion : Int) : CAmxxReader :=
  ⟨.none, false, 64, .none, .none, ⟨amxMagic, fileVersion, 0⟩⟩

def answering (amxInit : Int) : Outcomes :=
  ⟨true, 0, amxErrNone, 7, amxInit, true, true, 4, amxErrNone, true, false, "", true, none, none⟩

def wholeLife : List Event :=
  [.cacheAndLoadModules default (pluginFile 8),
    .loadPlugin default (pluginFile 8) (answering amxErrNone) 0, .invalidateCache, .unloadPlugin 0]

theorem settled_wholeLife : ∃ g ∈ Foundation.run Image.step initial wholeLife, g.Settled := by
  have hsome : (Foundation.run Image.step initial wholeLife).isSome = true := by decide
  obtain ⟨g, hrun⟩ := Option.isSome_iff_exists.mp hsome
  refine ⟨g, hrun, (settled_iff_careful hrun).mpr ⟨trivial, fun next hnext => ?_⟩⟩
  cases hnext
  refine ⟨fun hdr _ _ _ => ⟨rfl, rfl, .inl rfl, rfl⟩, fun next _ => ?_⟩
  exact ⟨trivial, fun _ _ => ⟨trivial, fun _ _ => trivial⟩⟩

/-- An image that `amx_Init` turns down was made by `new[]`, and is given to `free`. -/
theorem not_settled_of_careless : ¬ ∀ events g,
    Foundation.run Image.step initial events = some g → g.Settled := by
  intro h
  have hsettled := h [.loadPlugin default (pluginFile 5) (answering amxErrVersion) 0] _ rfl
  exact absurd (hsettled.destroyed 0 .image rfl List.not_mem_nil) (by decide)

end CPluginMngr

end AmxModC.Image
