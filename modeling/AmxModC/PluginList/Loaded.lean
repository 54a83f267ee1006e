import AmxModC.PluginList.Reading

namespace AmxModC.PluginList

open Foundation

/-! Which plugins the two passes load. -/

def Entry.toPlugin (e : Entry) : CPlugin := ⟨e.name, e.second = debugWord⟩

def Marked (listed : List Entry) (name : List Byte) : Prop :=
  ∃ e ∈ listed, e.name = name ∧ e.second = disabled

instance (listed : List Entry) (name : List Byte) : Decidable (Marked listed name) :=
  inferInstanceAs (Decidable (∃ e ∈ listed, e.name = name ∧ e.second = disabled))

def firsts : List (List Byte) → List Entry → List Entry
  | _, [] => []
  | seen, e :: rest =>
      if e.name ∈ seen then firsts seen rest else e :: firsts (e.name :: seen) rest

/-- What the entries so far call for, when the lines are those of `listed`. -/
def expected (listed sofar : List Entry) : List CPlugin :=
  ((firsts [] sofar).filter fun e => ¬Marked listed e.name).map Entry.toPlugin

def LoadsListed (files : List ListFile) : Prop :=
  ∃ mngr, loadLists files = some mngr ∧
    mngr.plugins = expected (entries files) (entries files)

/-- Where a name is first listed and no line marks it, no buffer that was never written blocks
it, and it is not the beginning of a plugin that was called for before; and where a line lists a
name that another line marks, the name is blocked after all, or it is such a beginning. -/
structure Unhindered (files : List ListFile) : Prop where
  wanted : ∀ before e after, entries files = before ++ e :: after →
    e.name ∉ before.map Entry.name → ¬Marked (entries files) e.name →
      (∀ file ∈ files, ¬file.Stray e.name) ∧
        ∀ a ∈ expected (entries files) before, ¬e.name <+: a.name
  marked : ∀ before e after, entries files = before ++ e :: after →
    Marked (entries files) e.name → e.second ≠ disabled →
      (∀ e' ∈ entries files, ¬e'.Blocks e.name) → (∀ file ∈ files, ¬file.Stray e.name) →
        ∃ a ∈ expected (entries files) before, e.name <+: a.name

section

variable {listed before after : List Entry} {e : Entry} {acc : List CPlugin}
  {blockList : List (List Byte)} {name : List Byte}

def Passes (blockList : List (List Byte)) (acc : List CPlugin) (e : Entry) : Prop :=
  e.name ∉ blockList ∧ e.second ≠ disabled ∧ ∀ a ∈ acc, ¬e.name <+: a.name

def Wanted (listed before : List Entry) (e : Entry) : Prop :=
  e.name ∉ before.map Entry.name ∧ ¬Marked listed e.name

theorem findPlugin_isSome (h : startsWithAlnum name = true) :
    ((CPluginMngr.mk acc blockList).findPlugin name).isSome ↔ ∃ a ∈ acc, name <+: a.name := by
  have hne : name ≠ [] := by
    rintro rfl
    exact Bool.false_ne_true h
  rw [CPluginMngr.findPlugin, if_neg hne, List.find?_isSome]
  simp only [decide_eq_true_eq, List.prefix_iff_eq_take]
  exact exists_congr fun a => and_congr_right fun _ => eq_comm

theorem load_of_passes (hname : startsWithAlnum e.name = true) (h : Passes blockList acc e) :
    e.load ⟨acc, blockList⟩ = ⟨acc ++ [e.toPlugin], blockList⟩ := by
  obtain ⟨hblock, hsecond, hprefix⟩ := h
  have hfind : ¬((CPluginMngr.mk acc blockList).findPlugin e.name).isSome := by
    rw [findPlugin_isSome hname]
    exact fun ⟨a, ha, hfront⟩ => hprefix a ha hfront
  rw [Entry.load, if_neg (not_or.mpr ⟨hblock, hsecond⟩), if_neg hfind]
  rfl

theorem load_of_not_passes (hname : startsWithAlnum e.name = true) (h : ¬Passes blockList acc e) :
    e.load ⟨acc, blockList⟩ = ⟨acc, blockList⟩ := by
  rw [Entry.load]
  split
  next => rfl
  next hpass =>
    obtain ⟨hblock, hsecond⟩ := not_or.mp hpass
    refine if_pos ((findPlugin_isSome hname).mpr ?_)
    by_contra hnone
    exact h ⟨hblock, hsecond, fun a ha hfront => hnone ⟨a, ha, hfront⟩⟩

theorem load_extends
    (acc : List CPlugin)
    (blockList : List (List Byte))
    (hlisted : ∀ e ∈ after, startsWithAlnum e.name = true) :
    ∃ tail, after.foldl Entry.load ⟨acc, blockList⟩ =
      ⟨acc ++ tail, blockList⟩ := by
  induction after generalizing acc with
  | nil => exact ⟨[], by simp⟩
  | cons e after ih =>
      obtain ⟨hname, hafter⟩ := List.forall_mem_cons.mp hlisted
      rw [List.foldl_cons]
      by_cases hpass : Passes blockList acc e
      · rw [load_of_passes hname hpass]
        obtain ⟨tail, htail⟩ := ih (acc ++ [e.toPlugin]) hafter
        exact ⟨e.toPlugin :: tail, by rw [htail, List.append_assoc, List.singleton_append]⟩
      · rw [load_of_not_passes hname hpass]
        exact ih acc hafter

theorem not_loaded
    (hlisted : ∀ e ∈ after, startsWithAlnum e.name = true)
    (hname : name ∈ blockList ∨ ∃ a ∈ acc, name <+: a.name)
    (hacc : ∀ a ∈ acc, a.name ≠ name) :
    ∀ a ∈ (after.foldl Entry.load ⟨acc, blockList⟩).plugins, a.name ≠ name := by
  induction after generalizing acc with
  | nil => exact hacc
  | cons e after ih =>
      obtain ⟨hstart, hafter⟩ := List.forall_mem_cons.mp hlisted
      rw [List.foldl_cons]
      by_cases hpass : Passes blockList acc e
      · rw [load_of_passes hstart hpass]
        refine ih hafter ?_ fun a ha => ?_
        · refine hname.imp_right ?_
          rintro ⟨a, ha, hfront⟩
          exact ⟨a, List.mem_append_left _ ha, hfront⟩
        · rcases List.mem_append.mp ha with ha | ha
          · exact hacc a ha
          · cases List.mem_singleton.mp ha
            rintro (rfl : e.name = name)
            rcases hname with hblock | ⟨a, ha, hfront⟩
            · exact hpass.1 hblock
            · exact hpass.2.2 a ha hfront
      · rw [load_of_not_passes hstart hpass]
        exact ih hafter hname hacc

theorem firsts_concat (seen : List (List Byte)) (before : List Entry) (e : Entry) :
    firsts seen (before ++ [e]) =
      if e.name ∈ seen ∨ e.name ∈ before.map Entry.name then firsts seen before
      else firsts seen before ++ [e] := by
  induction before generalizing seen with
  | nil => simp [firsts]
  | cons first before ih =>
      rw [List.cons_append, firsts, firsts]
      split
      next hseen =>
        have hmem : (e.name ∈ seen ∨ e.name ∈ before.map Entry.name) ↔
            e.name ∈ seen ∨ e.name ∈ (first :: before).map Entry.name := by
          rw [List.map_cons, List.mem_cons, ← or_assoc]
          refine or_congr_left (or_iff_left_of_imp fun h => ?_).symm
          exact h ▸ hseen
        rw [ih, if_congr hmem rfl rfl]
      next hseen =>
        have hmem : (e.name ∈ first.name :: seen ∨ e.name ∈ before.map Entry.name) ↔
            e.name ∈ seen ∨ e.name ∈ (first :: before).map Entry.name := by
          rw [List.map_cons, List.mem_cons, List.mem_cons, or_assoc]
          exact or_left_comm
        rw [ih, if_congr hmem rfl rfl]
        split
        next => rfl
        next => rfl

theorem expected_concat (listed before : List Entry) (e : Entry) :
    expected listed (before ++ [e]) =
      if e.name ∉ before.map Entry.name ∧ ¬Marked listed e.name then
        expected listed before ++ [e.toPlugin]
      else expected listed before := by
  rw [expected, firsts_concat, expected]
  by_cases hmem : e.name ∈ before.map Entry.name
  · rw [if_pos (Or.inr hmem), if_neg fun h => h.1 hmem]
  · rw [if_neg (not_or.mpr ⟨List.not_mem_nil, hmem⟩), List.filter_append, List.map_append]
    by_cases hmark : Marked listed e.name
    · rw [if_neg fun h => h.2 hmark, List.filter_cons_of_neg (by simpa using hmark),
        List.filter_nil, List.map_nil, List.append_nil]
    · rw [if_pos ⟨hmem, hmark⟩, List.filter_cons_of_pos (by simpa using hmark), List.filter_nil,
        List.map_singleton]

theorem expected_wanted (h : Wanted listed before e) :
    expected listed (before ++ [e]) = expected listed before ++ [e.toPlugin] := by
  rw [expected_concat]
  exact if_pos h

theorem expected_not_wanted (h : ¬Wanted listed before e) :
    expected listed (before ++ [e]) = expected listed before := by
  rw [expected_concat]
  exact if_neg h

theorem mem_expected (before : List Entry) :
    ∀ a, (∃ b ∈ expected listed before, b.name = a) ↔
      a ∈ before.map Entry.name ∧ ¬Marked listed a := by
  induction before using List.reverseRecOn with
  | nil => simp [expected, firsts]
  | append_singleton before e ih =>
      intro a
      rw [List.map_append, List.mem_append, List.map_singleton, List.mem_singleton, or_and_right,
        ← ih]
      by_cases hwanted : Wanted listed before e
      · rw [expected_wanted hwanted]
        simp only [List.mem_append, List.mem_singleton, or_and_right, exists_or, exists_eq_left]
        refine or_congr_right ⟨?_, fun h => h.1.symm⟩
        rintro rfl
        exact ⟨rfl, hwanted.2⟩
      · rw [expected_not_wanted hwanted]
        refine (or_iff_left_of_imp ?_).symm
        rintro ⟨rfl, hmark⟩
        refine (ih e.name).mpr ⟨?_, hmark⟩
        by_contra hmem
        exact hwanted ⟨hmem, hmark⟩

theorem expected_append (listed before after : List Entry) :
    ∃ tail, expected listed (before ++ after) = expected listed before ++ tail ∧
      ∀ a ∈ tail, a.name ∉ before.map Entry.name ∧ ¬Marked listed a.name := by
  induction after using List.reverseRecOn with
  | nil => exact ⟨[], by simp, by simp⟩
  | append_singleton after e ih =>
      obtain ⟨tail, htail, hnew⟩ := ih
      rw [← List.append_assoc]
      by_cases hwanted : Wanted listed (before ++ after) e
      · refine ⟨tail ++ [e.toPlugin], ?_, fun a ha => ?_⟩
        · rw [expected_wanted hwanted, htail, List.append_assoc]
        · rcases List.mem_append.mp ha with ha | ha
          · exact hnew a ha
          · cases List.mem_singleton.mp ha
            obtain ⟨hfresh, hmark⟩ := hwanted
            rw [List.map_append, List.mem_append, not_or] at hfresh
            exact ⟨hfresh.1, hmark⟩
      · exact ⟨tail, (expected_not_wanted hwanted).trans htail, hnew⟩

theorem forall_split_cons {α : Type} {P : List α → α → Prop} {first : α} {rest : List α} :
    (∀ front a back, first :: rest = front ++ a :: back → P front a) ↔
      P [] first ∧ ∀ front a back, rest = front ++ a :: back → P (first :: front) a := by
  constructor
  · intro h
    exact ⟨h [] first rest rfl, fun front a back hrest =>
      h (first :: front) a back (by rw [hrest, List.cons_append])⟩
  · rintro ⟨hfirst, hrest⟩ front a back heq
    cases front with
    | nil =>
        cases heq
        exact hfirst
    | cons b front =>
        rw [List.cons_append, List.cons.injEq] at heq
        obtain ⟨rfl, heq⟩ := heq
        exact hrest front a back heq

theorem foldl_load_iff
    (hlisted : ∀ e ∈ after, startsWithAlnum e.name = true)
    (hsplit : listed = before ++ after) :
    (after.foldl Entry.load ⟨expected listed before, blockList⟩).plugins =
        expected listed listed ↔
      ∀ front e back, after = front ++ e :: back →
        (Passes blockList (expected listed (before ++ front)) e ↔
          Wanted listed (before ++ front) e) := by
  induction after generalizing before with
  | nil =>
      rw [List.append_nil] at hsplit
      subst hsplit
      refine iff_of_true rfl fun front e back h => ?_
      simp at h
  | cons e after ih =>
      obtain ⟨hname, hafter⟩ := List.forall_mem_cons.mp hlisted
      have hnext : listed = before ++ [e] ++ after := by rw [hsplit, List.append_assoc]; rfl
      rw [forall_split_cons, List.append_nil, List.foldl_cons]
      by_cases hpass : Passes blockList (expected listed before) e
      · rw [load_of_passes hname hpass]
        by_cases hwanted : Wanted listed before e
        · have hrest := ih hafter hnext
          simp only [List.append_assoc, List.singleton_append] at hrest
          rw [and_iff_right (iff_of_true hpass hwanted), ← hrest, expected_wanted hwanted]
        · refine iff_of_false (fun h => ?_) fun h => hwanted (h.1.mp hpass)
          -- what is loaded here is called for nowhere behind
          obtain ⟨tail, htail⟩ := load_extends (expected listed before ++ [e.toPlugin])
            blockList hafter
          obtain ⟨rest, hrest, hnew⟩ := expected_append listed before (e :: after)
          rw [← hsplit] at hrest
          rw [htail, hrest, List.append_assoc] at h
          have hmem : e.toPlugin ∈ rest := by
            rw [← List.append_cancel_left h]
            exact List.mem_append_left _ (List.mem_singleton_self _)
          exact hwanted (hnew _ hmem)
      · rw [load_of_not_passes hname hpass]
        by_cases hwanted : Wanted listed before e
        · refine iff_of_false (fun h => ?_) fun h => hpass (h.1.mpr hwanted)
          -- what is not loaded where it is called for is not loaded behind either
          have hmem : e ∈ listed := by
            rw [hsplit]
            exact List.mem_append_right _ List.mem_cons_self
          obtain ⟨b, hb, hname'⟩ := (mem_expected listed e.name).mpr
            ⟨List.mem_map_of_mem hmem, hwanted.2⟩
          have hold : ∀ a ∈ expected listed before, a.name ≠ e.name := fun a ha heq =>
            hwanted.1 ((mem_expected before e.name).mp ⟨a, ha, heq⟩).1
          have hstays : e.name ∈ blockList ∨
              ∃ a ∈ expected listed before, e.name <+: a.name := by
            by_contra hnone
            obtain ⟨hblock, hfront⟩ := not_or.mp hnone
            exact hpass ⟨hblock, fun hsecond => hwanted.2 ⟨e, hmem, rfl, hsecond⟩,
              fun a ha h => hfront ⟨a, ha, h⟩⟩
          rw [← h] at hb
          exact not_loaded hafter hstays hold b hb hname'
        · have hrest := ih hafter hnext
          simp only [List.append_assoc, List.singleton_append] at hrest
          rw [and_iff_right (iff_of_false hpass hwanted), ← hrest, expected_not_wanted hwanted]

end

section

variable {files : List ListFile} {e : Entry}

theorem mem_entries : e ∈ entries files ↔
    startsWithAlnum e.name = true ∧ ∃ file ∈ files, ∃ line ∈ file.lines, entryOf line = e := by
  simp [entries, and_comm]

theorem marked_of_blocks {name : List Byte} (h : ∃ e ∈ entries files, e.Blocks name) :
    Marked (entries files) name := by
  obtain ⟨e, hmem, hname, hrest⟩ := h
  obtain ⟨-, file, -, line, -, rfl⟩ := mem_entries.mp hmem
  exact ⟨_, hmem, hname, second_of_rest hrest⟩

/-- The plugins loaded are the ones that the lists call for, in their order and with their flags,
if and only if nothing hinders them. -/
theorem loadsListed_iff_unhindered
    (hshort : ∀ file ∈ files, ∀ line ∈ file.lines, line.length < 255) :
    LoadsListed files ↔ Unhindered files := by
  obtain ⟨⟨plugins, blockList⟩, hcalm, rfl, hblocks⟩ := calmFromFiles_spec hshort ⟨[], []⟩
  have hlisted : ∀ e ∈ entries files, startsWithAlnum e.name = true := fun e he =>
    (mem_entries.mp he).1
  have hload : LoadsListed files ↔
      ((entries files).foldl Entry.load ⟨expected (entries files) [], blockList⟩).plugins =
        expected (entries files) (entries files) := by
    have hrun : loadLists files =
        some ((entries files).foldl Entry.load ⟨expected (entries files) [], blockList⟩) := by
      rw [loadLists, hcalm]
      exact loadPluginsFromFiles_eq hshort _
    rw [LoadsListed, hrun]
    simp only [Option.some.injEq, exists_eq_left']
  have hblocked : ∀ e ∈ entries files, e.name ∈ blockList ↔
      (∃ e' ∈ entries files, e'.Blocks e.name) ∨ ∃ file ∈ files, file.Stray e.name := by
    intro e he
    refine (hblocks e.name).trans ?_
    constructor
    · rintro (h | ⟨file, hfile, ⟨line, hline, hname⟩ | hstray⟩)
      · cases h
      · refine Or.inl ⟨entryOf line, mem_entries.mpr ⟨?_, file, hfile, line, hline, rfl⟩, hname⟩
        rw [hname.1]
        exact hlisted e he
      · exact Or.inr ⟨file, hfile, hstray⟩
    · rintro (⟨e', he', hname⟩ | ⟨file, hfile, hstray⟩)
      · obtain ⟨-, file, hfile, line, hline, rfl⟩ := mem_entries.mp he'
        exact Or.inr ⟨file, hfile, Or.inl ⟨line, hline, hname⟩⟩
      · exact Or.inr ⟨file, hfile, Or.inr hstray⟩
  rw [hload, foldl_load_iff hlisted (List.nil_append _).symm]
  simp only [List.nil_append]
  constructor
  · intro h
    constructor
    · intro before e after hsplit hfresh hmark
      have hmem : e ∈ entries files := by simp [hsplit]
      obtain ⟨hblock, -, hfront⟩ := (h before e after hsplit).mpr ⟨hfresh, hmark⟩
      rw [hblocked e hmem, not_or] at hblock
      exact ⟨fun file hfile hstray => hblock.2 ⟨file, hfile, hstray⟩, hfront⟩
    · intro before e after hsplit hmark hsecond halone hstray
      have hmem : e ∈ entries files := by simp [hsplit]
      by_contra hnone
      have hblock : e.name ∉ blockList := by
        rw [hblocked e hmem]
        rintro (⟨e', he', hname⟩ | ⟨file, hfile, hname⟩)
        · exact halone e' he' hname
        · exact hstray file hfile hname
      have hpass : Passes blockList (expected (entries files) before) e :=
        ⟨hblock, hsecond, fun a ha hfront => hnone ⟨a, ha, hfront⟩⟩
      exact ((h before e after hsplit).mp hpass).2 hmark
  · intro h before e after hsplit
    have hmem : e ∈ entries files := by simp [hsplit]
    constructor
    · rintro ⟨hblock, hsecond, hfront⟩
      rw [hblocked e hmem, not_or] at hblock
      have hmark : ¬Marked (entries files) e.name := fun hmark => by
        obtain ⟨a, ha, hprefix⟩ := h.marked before e after hsplit hmark hsecond
          (fun e' he' hname => hblock.1 ⟨e', he', hname⟩)
          fun file hfile hname => hblock.2 ⟨file, hfile, hname⟩
        exact hfront a ha hprefix
      refine ⟨fun hseen => ?_, hmark⟩
      obtain ⟨a, ha, hname⟩ := (mem_expected before e.name).mpr ⟨hseen, hmark⟩
      exact hfront a ha (hname ▸ List.prefix_refl _)
    · rintro ⟨hfresh, hmark⟩
      obtain ⟨hstray, hfront⟩ := h.wanted before e after hsplit hfresh hmark
      refine ⟨?_, fun hsecond => hmark ⟨e, hmem, rfl, hsecond⟩, hfront⟩
      rw [hblocked e hmem]
      rintro (hblocks | ⟨file, hfile, hname⟩)
      · exact hmark (marked_of_blocks hblocks)
      · exact hstray file hfile hname

end

/-- `c.amxx debug` and a comment, without a newline at the end. -/
def oneName : List ListFile :=
  [⟨some [99, 46, 97, 109, 120, 120, 32, 100, 101, 98, 117, 103, 59, 33], []⟩]

theorem oneName_loadsListed :
    (∀ file ∈ oneName, ∀ line ∈ file.lines, line.length < 255) ∧
      (LoadsListed oneName ↔ Unhindered oneName) :=
  ⟨by decide, loadsListed_iff_unhindered (by decide)⟩

/-- `cs` and `c`, each on a line of its own. -/
def twoNames : List ListFile := [⟨some [99, 115, 10, 99, 10], []⟩]

theorem not_loadsListed_twoNames :
    ¬∀ files : List ListFile,
      (∀ file ∈ files, ∀ line ∈ file.lines, line.length < 255) → LoadsListed files := by
  intro hall
  obtain ⟨mngr, hload, hplugins⟩ := hall twoNames (by decide)
  have hloaded : (loadLists twoNames).map CPluginMngr.plugins = some [⟨[99, 115], false⟩] := by
    decide +kernel
  rw [hload, Option.map_some, hplugins] at hloaded
  exact absurd hloaded (by decide +kernel)

end AmxModC.PluginList
