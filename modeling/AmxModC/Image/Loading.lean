import AmxModC.Image.Ownership

namespace AmxModC.Image

open Foundation

/-! Every exit of a load: what the plugin is left with, and whether the flag that it will be
unloaded by tells how its image was allocated. -/

def Debugged (outcomes : Outcomes) (debug : Int) : Prop := 2 ≤ outcomes.amxDebug ∨ debug ≠ 0

instance (outcomes : Outcomes) (debug : Int) : Decidable (Debugged outcomes debug) :=
  inferInstanceAs (Decidable (_ ∨ _))

namespace Outcomes

structure Compiled (outcomes : Outcomes) : Prop where
  np : outcomes.newNp = true
  rt : outcomes.newRt = true ∨ outcomes.relocSize ≤ 0
  amxInitJIT : outcomes.amxInitJIT = amxErrNone

end Outcomes

namespace Loaded

variable (loaded : Loaded)

def releases (right : Deallocator) : List (Nat × Deallocator) :=
  loaded.amx.releases ++ holds loaded.program right

def Flagged (right : Deallocator) : Prop :=
  ∀ number ∈ loaded.program, loaded.amx.imageDeallocator = right

theorem releases_numbers (right right' : Deallocator) :
    (loaded.releases right).map Prod.fst = (loaded.releases right').map Prod.fst := by
  rw [releases, releases, List.map_append, List.map_append]
  cases loaded.program <;> rfl

variable {loaded} in
theorem matched_iff {heap : Heap} {right : Deallocator} {rest : List (Nat × Deallocator)}
    (hfits : ∀ r ∈ loaded.releases right, heap.Fits fit r) :
    heap.Matched fit (loaded.releases loaded.amx.imageDeallocator ++ rest) ↔
      heap.Matched fit (loaded.releases right ++ rest) ∧ loaded.Flagged right := by
  have hnumber : ∀ {d : Deallocator} {number : Nat}, number ∈ loaded.program →
      (number, d) ∈ loaded.releases d := by
    intro d number hnumber
    refine List.mem_append_right _ ?_
    rw [Option.mem_def.mp hnumber]
    exact List.mem_singleton_self _
  have hsame : loaded.Flagged right →
      loaded.releases loaded.amx.imageDeallocator = loaded.releases right := by
    intro hflag
    cases hprogram : loaded.program with
    | none => rw [releases, releases, hprogram, holds_none, holds_none]
    | some number => rw [hflag number hprogram]
  constructor
  · intro hmatched
    have hflag : loaded.Flagged right := by
      intro number hmem
      have hfit := hmatched _ (List.mem_append_right _ (List.mem_append_left rest (hnumber hmem)))
      exact hfit.eq (hfits _ (hnumber hmem))
    exact ⟨hsame hflag ▸ hmatched, hflag⟩
  · rintro ⟨hmatched, hflag⟩
    rwa [hsame hflag]

def Leaves (heap : Heap) (held : List (Nat × Deallocator)) (careful : Prop) : Prop :=
  ∃ right, heap.Moves fit held loaded.heap (loaded.releases right) ∧
    (loaded.Flagged right ↔ careful)

end Loaded

variable {outcomes : Outcomes} {debug : Int} {heap : Heap} {amx : TagAmx} {loaded : Loaded}

section

variable (outcomes heap amx) (program : Option Nat) (oldfile : Bool)

theorem finish_heap : (finish outcomes heap amx program oldfile).heap = heap := by
  unfold finish
  grind

theorem finish_program : (finish outcomes heap amx program oldfile).program = program := by
  unfold finish
  grind

theorem finish_amx : (finish outcomes heap amx program oldfile).amx =
    { amx with flags.oldfile := oldfile || outcomes.bOldPlugin } := by
  unfold finish
  grind

theorem finish_leaves (right : Deallocator) {heap' : Heap} {held : List (Nat × Deallocator)}
    (h : heap'.Moves fit held heap (amx.releases ++ holds program right)) {careful : Prop}
    (hflag : (∀ number ∈ program, amx.imageDeallocator = right) ↔ careful) :
    (finish outcomes heap amx program oldfile).Leaves heap' held careful := by
  refine ⟨right, ?_, ?_⟩
  · rw [Loaded.releases, finish_heap, finish_program, finish_amx]
    exact h
  · rw [Loaded.Flagged, finish_program, finish_amx]
    exact hflag

end

theorem loadInfo_moves (outcomes : Outcomes) (debug : Int) (heap : Heap) (hdr : AmxHeader) :
    heap.Moves fit [] (loadInfo outcomes debug heap hdr).1
      (match (loadInfo outcomes debug heap hdr).2 with
        | .ok pDbg => holds pDbg .delete
        | .error _ => []) := by
  have hnew : heap.Moves fit [] _ _ := .allocate heap .dbgInfo
  unfold loadInfo
  split
  next =>
    split
    next => exact .refl heap []
    next =>
      split
      next =>
        dsimp only
        split
        next => exact hnew.trans (.release _ _ _)
        next => exact hnew
      next => exact .refl heap []
  next => exact .refl heap []

theorem loadInfo_eq_ok_none (outcomes : Outcomes) (debug : Int) (heap : Heap) (hdr : AmxHeader) :
    (loadInfo outcomes debug heap hdr).2 = .ok none ↔ ¬ Debugged outcomes debug := by
  unfold loadInfo
  split
  next hdebug =>
    refine iff_of_false ?_ fun hnot => hnot hdebug
    split
    next => exact fun h => nomatch h
    next =>
      split
      next =>
        dsimp only
        split <;> exact fun h => nomatch h
      next => exact fun h => nomatch h
  next hdebug => exact iff_of_true rfl hdebug

theorem initJIT_moves (outcomes : Outcomes) (heap : Heap) (program : Nat) :
    ∃ right, heap.Moves fit [(program, .deleteArray)] (initJIT outcomes heap program).1
        (holds (initJIT outcomes heap program).2.1 right) ∧
      ((∀ number ∈ (initJIT outcomes heap program).2.1, Deallocator.free = right) ↔
        outcomes.Compiled) := by
  have hnp := heap.tryNew_moves .np outcomes.newNp
  have hrt := (heap.tryNew .np outcomes.newNp).1.tryNew_moves .rt outcomes.newRt
  have hnpNone := heap.tryNew_eq_none .np outcomes.newNp
  have hrtNone := (heap.tryNew .np outcomes.newNp).1.tryNew_eq_none .rt outcomes.newRt
  unfold initJIT
  dsimp only
  generalize heap.tryNew .np outcomes.newNp = new at hnp hrt hnpNone hrtNone ⊢
  obtain ⟨heapNp, np⟩ := new
  dsimp only at hnp hrt hnpNone hrtNone ⊢
  generalize heapNp.tryNew .rt outcomes.newRt = new at hrt hrtNone ⊢
  obtain ⟨heapRt, rt⟩ := new
  dsimp only at hrt hrtNone ⊢
  have hboth : heap.Moves fit [] heapRt (holds rt .deleteArray ++ holds np .deleteArray) :=
    hnp.trans (hrt.frame _)
  have hback : ∀ heap' : Heap, heap'.Moves fit (holds rt .deleteArray ++ holds np .deleteArray)
      ((heap'.giveBack np .deleteArray).giveBack rt .deleteArray) [] := by
    intro heap'
    have hback := ((heap'.giveBack_moves np .deleteArray).frame (holds rt .deleteArray)).trans
      (Heap.giveBack_moves _ rt .deleteArray)
    exact ((Ledger.Moves.refl _ _).perm List.perm_append_comm).trans hback
  have hfailed : heap.Moves fit [(program, .deleteArray)]
      ((heapRt.giveBack np .deleteArray).giveBack rt .deleteArray) [(program, .deleteArray)] :=
    (hboth.trans (hback heapRt)).frame _
  split
  next hfail =>
    refine ⟨.deleteArray, hfailed, ?_⟩
    refine iff_of_false (fun h => nomatch h program rfl) fun h => ?_
    obtain hfail | ⟨hfail, hsize⟩ := hfail
    · exact Bool.false_ne_true ((hnpNone.mp hfail).symm.trans h.np)
    · refine h.rt.elim (fun hrt => ?_) fun hrt => (not_lt.mpr hrt) hsize
      exact Bool.false_ne_true ((hrtNone.mp hfail).symm.trans hrt)
  next hgot =>
    rw [not_or, not_and, hnpNone, hrtNone, Bool.not_eq_false] at hgot
    split
    next hjit =>
      have hcompiled : outcomes.Compiled := by
        refine ⟨hgot.1, ?_, hjit⟩
        cases hnew : outcomes.newRt with
        | true => exact .inl rfl
        | false => exact .inr (not_lt.mp (hgot.2 hnew))
      refine ⟨.free, ?_, iff_of_true (fun _ _ => rfl) hcompiled⟩
      have hbase := heapRt.tryNew_moves .executable outcomes.newBase
      dsimp only
      generalize heapRt.tryNew .executable outcomes.newBase = new at hbase ⊢
      obtain ⟨heapBase, base⟩ := new
      have hscratch := (hboth.trans (hbase.frame _)).trans
        (((Ledger.Moves.refl _ _).perm List.perm_append_comm).trans
          ((hback heapBase).frame (holds base .free)))
      refine (hscratch.frame [(program, .deleteArray)]).trans ?_
      exact ((Ledger.Moves.refl _ _).perm List.perm_append_comm).trans
        ((Ledger.Moves.release _ program .deleteArray).frame (holds base .free))
    next hjit =>
      refine ⟨.deleteArray, hfailed, ?_⟩
      exact iff_of_false (fun h => nomatch h program rfl) fun h => hjit h.amxInitJIT

theorem initProgram_leaves (outcomes : Outcomes) (heap : Heap) (pDbg : Option Nat)
    (program : Nat) (oldfile : Bool) :
    (initProgram outcomes heap pDbg program oldfile).Leaves heap
      (holds pDbg .delete ++ [(program, .deleteArray)])
      (pDbg = none → outcomes.amxInit = amxErrNone ∧ outcomes.Compiled) := by
  unfold initProgram
  dsimp only
  split
  next hinit =>
    refine ⟨.deleteArray, (heap.giveBack_moves pDbg .delete).frame [(program, .deleteArray)], ?_⟩
    cases pDbg with
    | none => exact iff_of_false (fun h => nomatch h program rfl) fun h => hinit (h rfl).1
    | some pDbg => exact iff_of_true (fun _ _ => rfl) fun h => nomatch h
  next hinit =>
    have hopt := heap.tryNew_moves .optimizer (outcomes.optLevel ≠ 65536)
    generalize heap.tryNew .optimizer (outcomes.optLevel ≠ 65536) = new at hopt ⊢
    obtain ⟨heapOpt, opt⟩ := new
    have hhandler := hopt.trans ((Ledger.Moves.allocate heapOpt .handler).frame (holds opt .delete))
    dsimp only at hhandler ⊢
    cases pDbg with
    | some pDbg =>
        have hdebugger := hhandler.trans
          ((Ledger.Moves.allocate (heapOpt.allocate .handler).1 .debugger).frame _)
        refine finish_leaves _ _ _ _ _ .deleteArray ?_ ?_
        · refine (hdebugger.frame (holds (some pDbg) .delete ++ [(program, .deleteArray)])).perm ?_
          exact List.perm_middle
        · exact iff_of_true (fun _ _ => rfl) fun h => nomatch h
    | none =>
        obtain ⟨right, hjit, hflag⟩ := initJIT_moves outcomes (heapOpt.allocate .handler).1 program
        have hmoves := (hhandler.frame [(program, .deleteArray)]).trans
          (((Ledger.Moves.refl _ _).perm List.perm_append_comm).trans (hjit.frame _))
        have hcareful : outcomes.Compiled ↔
            ((none : Option Nat) = none → outcomes.amxInit = amxErrNone ∧ outcomes.Compiled) :=
          ⟨fun h _ => ⟨not_not.mp hinit, h⟩, fun h => (h rfl).2⟩
        dsimp only
        generalize initJIT outcomes (heapOpt.allocate .handler).1 program = jit at hmoves hflag ⊢
        obtain ⟨heapJit, programJit, failure⟩ := jit
        have hleft := hmoves.perm List.perm_append_comm
        cases failure with
        | none => exact finish_leaves _ _ _ _ _ right hleft (hflag.trans hcareful)
        | some failure => exact ⟨right, hleft, hflag.trans hcareful⟩

def Careful (outcomes : Outcomes) (debug : Int) (hdr : AmxHeader) : Prop :=
  hdr.magic = amxMagic → ¬ Debugged outcomes debug →
    outcomes.amxInit = amxErrNone ∧ outcomes.Compiled

theorem loadProgram_leaves (outcomes : Outcomes) (debug : Int) (heap : Heap) (program : Image)
    (oldfile : Bool) :
    (loadProgram outcomes debug heap program oldfile).Leaves heap
      [(program.number, .deleteArray)] (Careful outcomes debug program.header) := by
  unfold loadProgram
  split
  next hmagic =>
    exact ⟨.deleteArray, .refl _ _, iff_of_true (fun _ _ => rfl) fun h => absurd h hmagic⟩
  next hmagic =>
    have hmoves := loadInfo_moves outcomes debug heap program.header
    have hnone := loadInfo_eq_ok_none outcomes debug heap program.header
    split
    next heap' err error heq =>
      rw [heq] at hmoves hnone
      refine ⟨.deleteArray, hmoves.frame [(program.number, .deleteArray)], ?_⟩
      refine iff_of_true (fun _ _ => rfl) fun _ h => ?_
      exact absurd (hnone.mpr h) fun h => nomatch h
    next heap' pDbg heq =>
      rw [heq] at hmoves hnone
      obtain ⟨right, hinit, hflag⟩ := initProgram_leaves outcomes heap' pDbg program.number oldfile
      refine ⟨right, (hmoves.frame _).trans hinit, hflag.trans ?_⟩
      refine ⟨fun h _ hdebug => h (Except.ok.inj (hnone.mpr hdebug)), fun h hpDbg => ?_⟩
      exact h (not_not.mp hmagic) (hnone.mp (congrArg Except.ok hpDbg))

namespace CPluginMngr

def header? (g : CPluginMngr) (file : CString) (reader : CAmxxReader) (newProgram : Bool) :
    Option AmxHeader :=
  match g.mPlcache.find? fun pl => pl.path = file with
  | some pl => some pl.buffer.header
  | none =>
      if reader.opened = .none ∧ reader.bufferSize ≠ 0 ∧ reader.sectioned = .none ∧
          (reader.isOldFile = true → newProgram = true) then
        some reader.header
      else none

end CPluginMngr

section

variable {g : CPluginMngr} {file : CString} {reader : CAmxxReader} {reading : Reading}

theorem failure?_eq_none {error : AmxxError} : error.failure? = none ↔ error = .none := by
  cases error <;> decide

theorem Read.header? {g' : CPluginMngr} (h : Read g file reader (g', none))
    (newProgram : Bool) : g.header? file reader newProgram =
      if reader.opened = .none ∧ reader.bufferSize ≠ 0 ∧ reader.sectioned = .none ∧
          newProgram = true then some reader.header else none := by
  cases h with
  | unread hfind hreader =>
      simp only [CPluginMngr.header?, hfind]
      grind
  | failed hfind hreader =>
      simp only [CPluginMngr.header?, hfind, hreader, false_and, and_false, if_false]

theorem Obtained.header? (h : Obtained outcomes g file reader reading) :
    g.header? file reader outcomes.newProgram =
      if reading.failure = none then reading.program.map Image.header else none := by
  cases h with
  | handed hread hfind hpl =>
      rw [if_pos rfl]
      cases hread with
      | cached hcached =>
          simp only [CPluginMngr.header?, hcached]
          rfl
      | fresh hnone hopened hold hsize hsection pl hnew =>
          simp [CPluginMngr.header?, hnone, hopened, hold, hsize, hsection, hnew]
  | missing hread hreader =>
      rw [hread.header?, if_neg]
      · split <;> rfl
      · exact fun h => Bool.false_ne_true ((hreader ⟨h.1, h.2.1⟩).symm.trans h.2.2.2)
  | own hread hopened hsize hnew =>
      rw [hread.header?]
      simp [hopened, hsize, hnew, failure?_eq_none]

theorem loadAmxscript_leaves {g' : CPluginMngr} {loaded : Loaded}
    (h : loadAmxscript outcomes debug g file reader = some (g', loaded)) :
    ∃ reading, Obtained outcomes g file reader reading ∧
      g' = { reading.g with heap := loaded.heap } ∧
      loaded.Leaves reading.g.heap (holds (reading.program.map Image.number) .deleteArray)
        (∀ hdr ∈ g.header? file reader outcomes.newProgram, Careful outcomes debug hdr) := by
  have hobtained := readProgram_obtained outcomes g file reader
  have hheader := hobtained.header?
  unfold loadAmxscript at h
  dsimp only at h
  generalize readProgram outcomes g file reader = reading at hobtained hheader h
  refine ⟨reading, hobtained, ?_⟩
  split at h
  next failure program err error hfailure =>
    cases h
    refine ⟨rfl, .deleteArray, .refl _ _, iff_of_true (fun _ _ => rfl) ?_⟩
    rw [hheader, hfailure]
    exact fun hdr hhdr => nomatch hhdr
  next => cases h
  next failure found program hfailure hprogram =>
    cases h
    obtain ⟨right, hload, hflag⟩ :=
      loadProgram_leaves outcomes debug reading.g.heap program reading.oldfile
    rw [hprogram]
    refine ⟨rfl, right, hload, hflag.trans ?_⟩
    rw [hheader, hfailure, if_pos rfl, hprogram]
    exact ⟨fun h hdr hhdr => Option.some.inj hhdr ▸ h, fun h => h _ rfl⟩

end

end AmxModC.Image
