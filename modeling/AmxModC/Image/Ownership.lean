import AmxModC.Image.Model

namespace AmxModC.Image

open Foundation

/-! Who holds which block, and by what it will be given back: every piece of the loading from
what it is handed to what it leaves. -/

abbrev fit : Block → Deallocator := Block.deallocator

def holds (pointer : Option Nat) (deallocator : Deallocator) : List (Nat × Deallocator) :=
  pointer.toList.map fun number => (number, deallocator)

@[simp] theorem holds_none (deallocator : Deallocator) : holds none deallocator = [] := rfl

@[simp] theorem holds_some (number : Nat) (deallocator : Deallocator) :
    holds (some number) deallocator = [(number, deallocator)] := rfl

def Debugger.releases (pDebugger : Debugger) : List (Nat × Deallocator) :=
  [(pDebugger.pAmxDbg, .delete), (pDebugger.number, .delete)]

namespace TagAmx

variable (amx : TagAmx)

def releases : List (Nat × Deallocator) :=
  amx.udDebugger.elim [] Debugger.releases ++
    (holds amx.udHandler .delete ++ holds amx.utOptimizer .delete)

def imageDeallocator : Deallocator := if amx.flags.jitc then .free else .deleteArray

end TagAmx

def CPlugin.releases (plugin : CPlugin) : List (Nat × Deallocator) :=
  plugin.amx.releases ++ holds plugin.code plugin.amx.imageDeallocator

namespace Heap

variable (heap : Heap)

theorem giveBack_eq (pointer : Option Nat) (deallocator : Deallocator) :
    heap.giveBack pointer deallocator = heap.releaseAll (holds pointer deallocator) := by
  cases pointer with
  | none => exact heap.releaseAll_nil.symm
  | some number => rfl

theorem giveBack_moves (pointer : Option Nat) (deallocator : Deallocator) :
    heap.Moves fit (holds pointer deallocator) (heap.giveBack pointer deallocator) [] :=
  heap.giveBack_eq pointer deallocator ▸ .releaseAll heap _

theorem tryNew_moves (block : Block) (succeeds : Bool) :
    heap.Moves fit [] (heap.tryNew block succeeds).1
      (holds (heap.tryNew block succeeds).2 block.deallocator) := by
  unfold tryNew
  split
  next => exact .allocate heap block
  next => exact .refl heap []

@[simp] theorem tryNew_eq_none (block : Block) (succeeds : Bool) :
    (heap.tryNew block succeeds).2 = none ↔ succeeds = false := by
  cases succeeds <;> simp [tryNew]

end Heap

theorem unloadAmxscript_eq (heap : Heap) (amx : TagAmx) (program : Option Nat) :
    (unloadAmxscript heap amx program).1 =
      heap.releaseAll (amx.releases ++ holds program amx.imageDeallocator) := by
  have hdebugger : amx.udDebugger.elim heap heap.deleteDebugger =
      heap.releaseAll (amx.udDebugger.elim [] Debugger.releases) := by
    cases amx.udDebugger with
    | none => exact heap.releaseAll_nil.symm
    | some pDebugger => exact (heap.releaseAll_append [(_, .delete)] [(_, .delete)]).symm
  unfold unloadAmxscript
  rw [hdebugger, TagAmx.releases]
  simp only [Heap.giveBack_eq, Ledger.releaseAll_append]
  cases program with
  | none => exact (Ledger.releaseAll_nil _).symm
  | some prg => rfl

namespace CPluginMngr

variable (g : CPluginMngr)

def cacheHolds : List (Nat × Deallocator) :=
  g.mPlcache.flatMap fun pl => [(pl.buffer.number, .deleteArray)]

def pluginsHold : List (Nat × Deallocator) := g.plugins.flatMap CPlugin.releases

theorem invalidateCache_eq : g.invalidateCache =
    { g with heap := g.heap.releaseAll g.cacheHolds, mPlcache := [] } :=
  congrArg (fun heap => { g with heap, mPlcache := [] })
    (Ledger.foldl_releaseAll (fun pl : PlcacheEntry => [(pl.buffer.number, .deleteArray)])
      g.mPlcache g.heap)

theorem clear_eq : g.clear = { g with heap := g.heap.releaseAll g.pluginsHold, plugins := [] } := by
  have hheap : g.plugins.foldl
      (fun heap plugin => (unloadAmxscript heap plugin.amx plugin.code).1) g.heap =
        g.heap.releaseAll g.pluginsHold := by
    simp only [unloadAmxscript_eq]
    exact Ledger.foldl_releaseAll CPlugin.releases g.plugins g.heap
  rw [clear, hheap]

theorem destroy_heap : g.destroy.heap = g.heap.releaseAll (g.pluginsHold ++ g.cacheHolds) := by
  rw [destroy, clear_eq, invalidateCache_eq, Ledger.releaseAll_append]
  rfl

end CPluginMngr

section

variable {α : Type*} {l : List α} {a : α}

theorem perm_cons_eraseP_of_find? {p : α → Bool} (h : l.find? p = some a) :
    l.Perm (a :: l.eraseP p) := by
  induction l with
  | nil => cases h
  | cons b l ih =>
      cases hb : p b with
      | true =>
          rw [List.find?_cons_of_pos hb, Option.some.injEq] at h
          rw [List.eraseP_cons_of_pos hb, h]
      | false =>
          rw [List.find?_cons_of_neg (by simp [hb])] at h
          rw [List.eraseP_cons_of_neg (by simp [hb])]
          exact ((ih h).cons b).trans (.swap _ _ _)

theorem perm_cons_eraseIdx_of_getElem? {i : Nat} (h : l[i]? = some a) :
    l.Perm (a :: l.eraseIdx i) := by
  induction l generalizing i with
  | nil => cases h
  | cons b l ih =>
      cases i with
      | zero =>
          cases h
          rfl
      | succ i => exact ((ih h).cons b).trans (.swap _ _ _)

end

section

variable {g : CPluginMngr} {file : CString} {reader : CAmxxReader}

inductive Read (g : CPluginMngr) (file : CString) (reader : CAmxxReader) :
    CPluginMngr × Option (Image × Nat) → Prop
  | cached {pl : PlcacheEntry} (hfind : g.mPlcache.find? (fun pl => pl.path = file) = some pl) :
      Read g file reader (g, some (pl.buffer, pl.bufsize))
  | unread (hfind : g.mPlcache.find? (fun pl => pl.path = file) = none)
      (hreader : reader.opened ≠ .none ∨ reader.isOldFile ∨ reader.bufferSize = 0) :
      Read g file reader (g, none)
  | failed (hfind : g.mPlcache.find? (fun pl => pl.path = file) = none)
      (hreader : reader.sectioned ≠ .none) :
      Read g file reader ({ g with heap :=
        (g.heap.allocate .image).1.release (g.heap.allocate .image).2 .deleteArray }, none)
  | fresh (hfind : g.mPlcache.find? (fun pl => pl.path = file) = none)
      (hopened : reader.opened = .none) (hold : reader.isOldFile = false)
      (hsize : reader.bufferSize ≠ 0) (hsection : reader.sectioned = .none) (pl : PlcacheEntry)
      (hpl : pl = ⟨file, reader.bufferSize, ⟨(g.heap.allocate .image).2, reader.header⟩⟩) :
      Read g file reader ({ g with
        heap := (g.heap.allocate .image).1
        mPlcache := g.mPlcache ++ [pl] }, some (pl.buffer, pl.bufsize))

theorem readIntoOrFromCache_read (g : CPluginMngr) (file : CString) (reader : CAmxxReader) :
    Read g file reader (g.readIntoOrFromCache file reader) := by
  unfold CPluginMngr.readIntoOrFromCache
  split
  next pl hfind => exact .cached hfind
  next hfind =>
    split
    next hreader => exact .unread hfind (hreader.imp_right .inl)
    next hopened =>
      rw [not_or, not_not] at hopened
      split
      next hsize => exact .unread hfind (.inr (.inr hsize))
      next hsize =>
        dsimp only
        split
        next hsection => exact .failed hfind hsection
        next hsection =>
          exact .fresh hfind hopened.1 (Bool.eq_false_of_not_eq_true hopened.2) hsize
            (not_not.mp hsection) _ rfl

variable {r : CPluginMngr × Option (Image × Nat)}

theorem Read.moves (h : Read g file reader r) :
    g.heap.Moves fit g.cacheHolds r.1.heap r.1.cacheHolds := by
  have hblock : g.heap.Moves fit [] _ _ := .allocate g.heap .image
  have hnew := hblock.frame g.cacheHolds
  cases h with
  | cached hfind => exact .refl g.heap _
  | unread hfind hreader => exact .refl g.heap _
  | failed hfind hreader => exact hnew.trans ((Ledger.Moves.release _ _ _).frame g.cacheHolds)
  | fresh hfind hopened hold hsize hsection pl hpl =>
      refine hnew.perm ?_
      rw [CPluginMngr.cacheHolds, CPluginMngr.cacheHolds, List.flatMap_append, hpl]
      exact List.perm_append_comm

theorem Read.handed (h : Read g file reader r) :
    r.1.handed = g.handed ∧ r.1.plugins = g.plugins := by
  cases h <;> exact ⟨rfl, rfl⟩

theorem Read.mem (h : Read g file reader r) {pl : PlcacheEntry} (hpl : pl ∈ r.1.mPlcache) :
    pl ∈ g.mPlcache ∨ pl.buffer.number = g.heap.blocks.length := by
  cases h with
  | cached hfind => exact .inl hpl
  | unread hfind hreader => exact .inl hpl
  | failed hfind hreader => exact .inl hpl
  | fresh hfind hopened hold hsize hsection new hnew =>
      cases List.mem_append.mp hpl with
      | inl hpl => exact .inl hpl
      | inr hpl =>
          rw [List.mem_singleton.mp hpl, hnew]
          exact .inr rfl

theorem Read.find (h : Read g file reader r) {image : Image × Nat} (hr : r.2 = some image) :
    ∃ pl, r.1.mPlcache.find? (fun pl => pl.path = file) = some pl ∧ pl.buffer = image.1 := by
  cases h with
  | cached hfind =>
      cases hr
      exact ⟨_, hfind, rfl⟩
  | unread hfind hreader => cases hr
  | failed hfind hreader => cases hr
  | fresh hfind hopened hold hsize hsection new hnew =>
      cases hr
      refine ⟨new, ?_, rfl⟩
      rw [List.find?_append, hfind, Option.none_or, hnew]
      exact List.find?_cons_of_pos (decide_eq_true rfl)

variable {outcomes : Outcomes} {reading : Reading}

inductive Obtained (outcomes : Outcomes) (g : CPluginMngr) (file : CString) (reader : CAmxxReader) :
    Reading → Prop
  | handed {g' : CPluginMngr} {image : Image} {size : Nat} {pl : PlcacheEntry}
      (hread : Read g file reader (g', some (image, size)))
      (hfind : g'.mPlcache.find? (fun pl => pl.path = file) = some pl) (hpl : pl.buffer = image) :
      Obtained outcomes g file reader
        ⟨{ g' with
          mPlcache := g'.mPlcache.eraseP fun pl => pl.path = file
          handed := g'.handed ++ [image.number] }, some image, none, false⟩
  | missing {g' : CPluginMngr} {failure : Option (Int × String)} {oldfile : Bool}
      (hread : Read g file reader (g', none))
      (hreader : (reader.opened = .none ∧ reader.bufferSize ≠ 0) → outcomes.newProgram = false) :
      Obtained outcomes g file reader ⟨g', none, failure, oldfile⟩
  | own {g' : CPluginMngr} (hread : Read g file reader (g', none))
      (hopened : reader.opened = .none) (hsize : reader.bufferSize ≠ 0)
      (hnew : outcomes.newProgram = true) :
      Obtained outcomes g file reader
        ⟨{ g' with heap := (g'.heap.allocate .image).1 },
          some ⟨(g'.heap.allocate .image).2, reader.header⟩, reader.sectioned.failure?,
          reader.isOldFile⟩

theorem readProgram_obtained (outcomes : Outcomes) (g : CPluginMngr) (file : CString)
    (reader : CAmxxReader) :
    Obtained outcomes g file reader (readProgram outcomes g file reader) := by
  have hread := readIntoOrFromCache_read g file reader
  unfold readProgram
  split
  next g' image size heq =>
    rw [heq] at hread
    obtain ⟨pl, hfind, hpl⟩ := hread.find rfl
    have hcache : g'.invalidateFileInCache file false =
        { g' with mPlcache := g'.mPlcache.eraseP fun pl => pl.path = file } := by
      simp only [CPluginMngr.invalidateFileInCache, hfind]
      rfl
    rw [hcache]
    exact .handed hread hfind hpl
  next g' heq =>
    rw [heq] at hread
    split
    next hreader =>
      cases hnew : outcomes.newProgram with
      | false => exact .missing hread fun _ => hnew
      | true =>
          have hstatus : reader.status = reader.sectioned := by
            rw [CAmxxReader.status, if_pos hreader.1, if_neg hreader.2]
          rw [hstatus]
          exact .own hread hreader.1 hreader.2 hnew
    next hreader => exact .missing hread fun h => absurd h hreader

namespace Obtained

theorem moves (h : Obtained outcomes g file reader reading) :
    g.heap.Moves fit g.cacheHolds reading.g.heap
      (holds (reading.program.map Image.number) .deleteArray ++ reading.g.cacheHolds) := by
  cases h with
  | handed hread hfind hpl =>
      refine hread.moves.perm ?_
      rw [← hpl]
      exact (perm_cons_eraseP_of_find? hfind).flatMap_right _
  | missing hread hreader => exact hread.moves
  | own hread hopened hsize hnew =>
      exact hread.moves.trans ((Ledger.Moves.allocate _ _).frame _)

theorem plugins (h : Obtained outcomes g file reader reading) :
    reading.g.plugins = g.plugins := by
  cases h with
  | handed hread hfind hpl => exact hread.handed.2
  | missing hread hreader => exact hread.handed.2
  | own hread hopened hsize hnew => exact hread.handed.2

theorem mem_handed (h : Obtained outcomes g file reader reading) {number : Nat}
    (hmem : number ∈ reading.g.handed) :
    number ∈ g.handed ∨ reading.program.map Image.number = some number := by
  cases h with
  | handed hread hfind hpl =>
      cases List.mem_append.mp hmem with
      | inl hmem => exact .inl (hread.handed.1 ▸ hmem)
      | inr hmem => exact .inr (congrArg some (List.mem_singleton.mp hmem).symm)
  | missing hread hreader => exact .inl (hread.handed.1 ▸ hmem)
  | own hread hopened hsize hnew => exact .inl (hread.handed.1 ▸ hmem)

theorem mem_cache (h : Obtained outcomes g file reader reading) {pl : PlcacheEntry}
    (hmem : pl ∈ reading.g.mPlcache) :
    pl ∈ g.mPlcache ∨ pl.buffer.number = g.heap.blocks.length := by
  cases h with
  | handed hread hfind hpl => exact hread.mem (List.mem_of_mem_eraseP hmem)
  | missing hread hreader => exact hread.mem hmem
  | own hread hopened hsize hnew => exact hread.mem hmem

end Obtained

end

end AmxModC.Image
