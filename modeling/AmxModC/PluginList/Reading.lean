import AmxModC.Foundation.Text

namespace AmxModC.PluginList

open Foundation

/-! The two passes of the plugin manager over the lists of plugins. -/

def semicolon : Byte := 59

/-- `"disabled"` -/
def disabled : List Byte := [100, 105, 115, 97, 98, 108, 101, 100]

/-- `"debug"` -/
def debugWord : List Byte := [100, 101, 98, 117, 103]

structure CPlugin where
  name : List Byte
  debug : Bool
deriving DecidableEq, Repr

/-- The plugins from `head` on, and `m_BlockList`. -/
structure CPluginMngr where
  plugins : List CPlugin
  blockList : List (List Byte)
deriving DecidableEq, Repr

namespace CPluginMngr

/-- `strncmp` with the length of the name. -/
def findPlugin (mngr : CPluginMngr) (name : List Byte) : Option CPlugin :=
  if name = [] then none else mngr.plugins.find? fun a => a.name.take name.length = name

def loadPlugin (mngr : CPluginMngr) (name : List Byte) (debug : Bool) : CPluginMngr :=
  { mngr with plugins := mngr.plugins ++ [⟨name, debug⟩] }

end CPluginMngr

/-- A list as a run finds it, and what the stack holds where `CALMFromFile` has its line. -/
structure ListFile where
  content : Option (List Byte)
  stale : List Byte

def chars (buffer : List Byte) : List Byte := buffer.takeWhile (· ≠ 0)

def cut (line : List Byte) : List Byte := line.takeWhile (· ≠ semicolon)

/-- `String::trim`. -/
def trim (s : List Byte) : List Byte := trimRight (s.dropWhile isSpace)

def startsWithAlnum (s : List Byte) : Bool := s.head?.any isAlnum

/-- A turn of the loop in `CALMFromFile`, on the line buffer and the manager. Without a line from
the file the buffer holds what it held. -/
def calmTurn (chunk : Option (List Byte)) (s : List Byte × CPluginMngr) :
    List Byte × CPluginMngr :=
  let (buffer, mngr) := s
  let line := chars (chunk.getD buffer)
  match line with
  | [] => (line, mngr)
  | c :: _ =>
      if c = semicolon ∨ c = newline then (line, mngr)
      else
        let line := cut line
        let rline := trim line
        let pluginName := word rline
        let ptr := (rline.drop pluginName.length).dropWhile isSpace
        if ptr ≠ [] ∧ ptr = disabled then
          (line, { mngr with blockList := mngr.blockList ++ [pluginName] })
        else (line, mngr)

def calmFromFile (mngr : CPluginMngr) (file : ListFile) : Option CPluginMngr :=
  match file.content with
  | none => some mngr
  | some content =>
      (readLines 254 calmTurn (content.length + 1) content (file.stale, mngr)).map Prod.snd

/-- A turn of the loop in `loadPluginsFromFile`. -/
def loadTurn (chunk : Option (List Byte)) (mngr : CPluginMngr) : CPluginMngr :=
  let line := cut (chars (chunk.getD []))
  let pluginName := word line
  let debug := word (afterWord line)
  if ¬startsWithAlnum pluginName then mngr
  else if pluginName ∈ mngr.blockList ∨ debug = disabled then mngr
  else if (mngr.findPlugin pluginName).isSome then mngr
  else mngr.loadPlugin pluginName (startsWithAlnum debug && debug = debugWord)

def loadPluginsFromFile (mngr : CPluginMngr) (file : ListFile) : Option CPluginMngr :=
  match file.content with
  | none => some mngr
  | some content => readLines 510 loadTurn (content.length + 1) content mngr

def loadLists (files : List ListFile) : Option CPluginMngr := do
  let mngr ← files.foldlM calmFromFile ⟨[], []⟩
  files.foldlM loadPluginsFromFile mngr

/-! What a line says, and what each pass makes of it. -/

structure Entry where
  name : List Byte
  second : List Byte
  rest : List Byte
deriving DecidableEq, Repr

def entryOf (line : List Byte) : Entry :=
  let text := cut (chars line)
  { name := word text
    second := word (afterWord text)
    rest := (trimRight (afterWord text)).dropWhile isSpace }

/-- The line is the name with `disabled` behind it and nothing else. -/
def Entry.Blocks (e : Entry) (name : List Byte) : Prop := e.name = name ∧ e.rest = disabled

def ListFile.lines (file : ListFile) : List (List Byte) := (file.content.map Foundation.lines).getD []

def entries (files : List ListFile) : List Entry :=
  (files.flatMap fun file => file.lines.map entryOf).filter fun e => startsWithAlnum e.name

section

variable {line : List Byte} {name : List Byte}

theorem entryOf_spaces
    {text text' spaces : List Byte}
    (h : ∀ c ∈ spaces, isSpace c = true)
    (htext : text' = text ++ spaces) :
    word text' = word text ∧ word (afterWord text') = word (afterWord text) ∧
      trimRight (afterWord text') = trimRight (afterWord text) := by
  subst htext
  obtain ⟨rest, hrest, hafter⟩ := afterWord_append_spaces (s := text) h
  rw [hafter]
  exact ⟨word_append_spaces h, word_append_spaces hrest, trimRight_append_spaces hrest⟩

theorem cut_newline (line : List Byte) :
    ∃ spaces, (∀ c ∈ spaces, isSpace c = true) ∧
      cut (chars (line ++ [newline])) = cut (chars line) ++ spaces := by
  have hnewline : ∀ c ∈ [newline], isSpace c = true := by decide
  have hnone : ∀ c ∈ ([] : List Byte), isSpace c = true := by simp
  have hchars : chars (line ++ [newline]) = chars line ∨
      chars (line ++ [newline]) = chars line ++ [newline] := by
    rw [chars, chars, List.takeWhile_append]
    split
    next hall =>
      refine Or.inr ?_
      rw [(List.takeWhile_prefix _).eq_of_length hall]
      rfl
    next => exact Or.inl rfl
  rcases hchars with hchars | hchars
  · exact ⟨[], hnone, by rw [hchars, List.append_nil]⟩
  · rw [hchars, cut, cut, List.takeWhile_append]
    split
    next hall =>
      refine ⟨[newline], hnewline, ?_⟩
      rw [(List.takeWhile_prefix _).eq_of_length hall]
      rfl
    next => exact ⟨[], hnone, (List.append_nil _).symm⟩

theorem entryOf_newline (line : List Byte) : entryOf (line ++ [newline]) = entryOf line := by
  obtain ⟨spaces, hspaces, hcut⟩ := cut_newline line
  obtain ⟨hname, hsecond, hrest⟩ := entryOf_spaces hspaces hcut
  simp only [entryOf, hname, hsecond, hrest]

theorem not_blocks_of_nil (h : cut (chars line) = []) : ¬(entryOf line).Blocks name := by
  rintro ⟨-, hrest⟩
  rw [entryOf, h] at hrest
  exact absurd hrest (by decide)

theorem second_of_rest (h : (entryOf line).rest = disabled) :
    (entryOf line).second = disabled := by
  change word (afterWord (cut (chars line))) = _
  rw [← word_trimRight, word]
  change ((entryOf line).rest).takeWhile _ = _
  rw [h]
  decide

theorem word_trim (s : List Byte) : word (trim s) = word s := by
  rw [trim, word_trimRight, word, word, List.dropWhile_idempotent]

theorem drop_trim (s : List Byte) :
    (trim s).drop (word s).length = trimRight (afterWord s) := by
  have hsplit : s.dropWhile isSpace = word s ++ afterWord s :=
    (List.takeWhile_append_dropWhile ..).symm
  rw [trim, hsplit, trimRight_append_word fun _ => isSpace_of_mem_word, List.drop_left]

/-! The first pass. -/

def BufferBlocks (buffer name : List Byte) : Prop :=
  buffer.head? ≠ some newline ∧ (entryOf buffer).Blocks name

theorem chars_chars (buffer : List Byte) : chars (chars buffer) = chars buffer :=
  List.takeWhile_idem

theorem cut_again (line : List Byte) : cut (chars (cut (chars line))) = cut (chars line) := by
  have hchars : chars (cut (chars line)) = cut (chars line) := by
    rw [chars, List.takeWhile_eq_self_iff]
    intro c hc
    have hmem : c ∈ chars line := (List.takeWhile_sublist _).subset hc
    exact List.mem_takeWhile_imp (p := fun c : Byte => c ≠ 0) hmem
  rw [hchars]
  exact List.takeWhile_idem

theorem calmTurn_spec (chunk : Option (List Byte)) (buffer : List Byte) (mngr : CPluginMngr) :
    (calmTurn chunk (buffer, mngr)).2.plugins = mngr.plugins ∧
      (∀ name, name ∈ (calmTurn chunk (buffer, mngr)).2.blockList ↔
        name ∈ mngr.blockList ∨ BufferBlocks (chunk.getD buffer) name) ∧
      ∀ name, BufferBlocks (calmTurn chunk (buffer, mngr)).1 name →
        BufferBlocks (chunk.getD buffer) name := by
  generalize hline : chunk.getD buffer = line
  have hsame : ∀ name, BufferBlocks (chars line) name → BufferBlocks line name := by
    rintro name ⟨hhead, hblocks⟩
    rw [entryOf, chars_chars] at hblocks
    refine ⟨fun hline => hhead ?_, hblocks⟩
    cases line with
    | nil => cases hline
    | cons c line =>
        cases hline
        rfl
  cases hchars : chars line with
  | nil =>
      have hnone : ∀ name, ¬BufferBlocks line name := fun name h =>
        not_blocks_of_nil (by rw [hchars]; rfl) h.2
      have hturn : calmTurn chunk (buffer, mngr) = (chars line, mngr) := by
        simp only [calmTurn, hline, hchars]
      rw [hturn]
      exact ⟨rfl, fun name => (or_iff_left (hnone name)).symm, hsame⟩
  | cons c text =>
      have hhead : line.head? = some c := by
        cases line with
        | nil => cases hchars
        | cons c' line =>
            rw [chars, List.takeWhile_cons] at hchars
            split at hchars
            next => exact congrArg some (List.cons.inj hchars).1
            next => cases hchars
      by_cases hskip : c = semicolon ∨ c = newline
      · have hnone : ∀ name, ¬BufferBlocks line name := by
          rintro name ⟨hnewline, hblocks⟩
          rcases hskip with rfl | rfl
          · exact not_blocks_of_nil (by rw [hchars]; rfl) hblocks
          · exact hnewline hhead
        have hturn : calmTurn chunk (buffer, mngr) = (chars line, mngr) := by
          simp only [calmTurn, hline, hchars, if_pos hskip]
        rw [hturn]
        exact ⟨rfl, fun name => (or_iff_left (hnone name)).symm, hsame⟩
      · obtain ⟨hsemicolon, hnewline⟩ := not_or.mp hskip
        have hturn : calmTurn chunk (buffer, mngr) =
            if (entryOf line).rest ≠ [] ∧ (entryOf line).rest = disabled then
              (cut (chars line),
                { mngr with blockList := mngr.blockList ++ [(entryOf line).name] })
            else (cut (chars line), mngr) := by
          simp only [calmTurn, hline, entryOf, hchars, if_neg hskip, word_trim]
          rw [drop_trim]
        have hcut : cut (chars line) = c :: cut text := by
          rw [hchars, cut, List.takeWhile_cons_of_pos (by simpa using hsemicolon)]
          rfl
        have hbuffer : ∀ name, BufferBlocks (cut (chars line)) name → BufferBlocks line name := by
          rintro name ⟨-, hblocks⟩
          refine ⟨fun h => hnewline (Option.some.inj (hhead.symm.trans h)), ?_⟩
          rwa [entryOf, cut_again] at hblocks
        rw [hturn]
        split
        next hrest =>
          refine ⟨rfl, fun name => ?_, hbuffer⟩
          rw [List.mem_append, List.mem_singleton]
          refine or_congr_right ⟨?_, fun h => h.2.1.symm⟩
          rintro rfl
          exact ⟨fun h => hnewline (Option.some.inj (hhead.symm.trans h)), rfl, hrest.2⟩
        next hrest =>
          refine ⟨rfl, fun name => (or_iff_left ?_).symm, hbuffer⟩
          rintro ⟨-, -, hblocks⟩
          refine hrest ⟨?_, hblocks⟩
          rw [hblocks]
          decide

/-- The buffer of `CALMFromFile` is never written when the file is empty. -/
def ListFile.Stray (file : ListFile) (name : List Byte) : Prop :=
  file.content = some [] ∧ BufferBlocks file.stale name

theorem bufferBlocks_iff (hline : newline ∉ line) :
    (BufferBlocks line name ↔ (entryOf line).Blocks name) ∧
      (BufferBlocks (line ++ [newline]) name ↔ (entryOf line).Blocks name) := by
  rw [BufferBlocks, BufferBlocks, entryOf_newline]
  cases line with
  | nil =>
      have hnone : ¬(entryOf []).Blocks name := not_blocks_of_nil rfl
      exact ⟨and_iff_right (by decide), iff_of_false (fun h => hnone h.2) hnone⟩
  | cons c line =>
      have hhead : some c ≠ some newline := fun h =>
        hline (Option.some.inj h ▸ List.mem_cons_self)
      exact ⟨and_iff_right hhead, and_iff_right hhead⟩

/-- With the lines so far the names of `t` are blocked. -/
def Blocked (plugins : List CPlugin) (s : List Byte × CPluginMngr) (t : List Byte → Prop) : Prop :=
  s.2.plugins = plugins ∧ ∀ name, name ∈ s.2.blockList ↔ t name

def Settled (plugins : List CPlugin) (s : List Byte × CPluginMngr) (t : List Byte → Prop) : Prop :=
  Blocked plugins s t ∧ ∀ name, BufferBlocks s.1 name → t name

def addBlocks (t : List Byte → Prop) (line : List Byte) : List Byte → Prop :=
  fun name => t name ∨ (entryOf line).Blocks name

theorem addBlocks_nil (t : List Byte → Prop) : addBlocks t [] = t :=
  funext fun _ => propext (or_iff_left (not_blocks_of_nil rfl))

theorem foldl_addBlocks {t : List Byte → Prop} (entered : List (List Byte)) :
    entered.foldl addBlocks t name ↔ t name ∨ ∃ line ∈ entered, (entryOf line).Blocks name := by
  induction entered generalizing t with
  | nil => simp
  | cons line entered ih => simp [ih, addBlocks, or_assoc]

section

variable {plugins : List CPlugin} {s : List Byte × CPluginMngr} {t : List Byte → Prop}

theorem Settled.again (h : Settled plugins s t) : Settled plugins (calmTurn none s) t := by
  obtain ⟨⟨hplugins, hblocks⟩, hbuffer⟩ := h
  obtain ⟨hplugins', hblocks', hbuffer'⟩ := calmTurn_spec none s.1 s.2
  refine ⟨⟨hplugins'.trans hplugins, fun name => ?_⟩, fun name h => ?_⟩
  · rw [← hblocks, ← or_iff_left_of_imp fun h => (hblocks name).mpr (hbuffer name h)]
    exact hblocks' name
  · exact hbuffer name (hbuffer' name h)

theorem Blocked.turn
    {chunk : List Byte}
    (hchunk : ∀ name, BufferBlocks chunk name ↔ (entryOf line).Blocks name)
    (h : Blocked plugins s t) :
    Settled plugins (calmTurn (some chunk) s) (addBlocks t line) := by
  obtain ⟨hplugins, hblocks, hbuffer⟩ := calmTurn_spec (some chunk) s.1 s.2
  refine ⟨⟨hplugins.trans h.1, fun name => ?_⟩, fun name hname => ?_⟩
  · rw [addBlocks, ← h.2, ← hchunk]
    exact hblocks name
  · exact Or.inr ((hchunk name).mp (hbuffer name hname))

end

theorem calmFromFile_spec
    {file : ListFile}
    (hshort : ∀ line ∈ file.lines, line.length < 255)
    (mngr : CPluginMngr) :
    ∃ read, calmFromFile mngr file = some read ∧ read.plugins = mngr.plugins ∧
      ∀ name, name ∈ read.blockList ↔ name ∈ mngr.blockList ∨
        (∃ line ∈ file.lines, (entryOf line).Blocks name) ∨ file.Stray name := by
  obtain ⟨content, stale⟩ := file
  cases content with
  | none =>
      refine ⟨mngr, rfl, rfl, fun name => (or_iff_left ?_).symm⟩
      rintro (⟨line, hmem, -⟩ | ⟨hnone, -⟩)
      · cases hmem
      · cases hnone
  | some content =>
      by_cases hnil : content = []
      · subst hnil
        obtain ⟨hplugins, hblocks, -⟩ := calmTurn_spec none stale mngr
        refine ⟨_, rfl, hplugins, fun name => (hblocks name).trans (or_congr_right ?_)⟩
        constructor
        · exact fun h => Or.inr ⟨rfl, h⟩
        · rintro (⟨line, hmem, hline⟩ | ⟨-, h⟩)
          · cases List.mem_singleton.mp hmem
            exact absurd hline (not_blocks_of_nil rfl)
          · exact h
      · have hstart : Blocked mngr.plugins (stale, mngr) (· ∈ mngr.blockList) :=
          ⟨rfl, fun _ => Iff.rfl⟩
        obtain ⟨read, hread, ⟨hplugins, hblocks⟩, -⟩ :=
          readLines_related 254 calmTurn addBlocks (Blocked mngr.plugins) (Settled mngr.plugins)
            (by decide) addBlocks_nil And.left Settled.again
            (fun _ hline => Blocked.turn fun _ => (bufferBlocks_iff hline).2)
            (fun _ hline => Blocked.turn fun _ => (bufferBlocks_iff hline).1)
            content (fun line hmem => Nat.le_of_lt_succ (hshort line hmem))
            (Nat.lt_succ_self _) hstart fun h => absurd h hnil
        refine ⟨read.2, ?_, hplugins, fun name => ?_⟩
        · rw [calmFromFile]
          simp only
          rw [hread]
          rfl
        · rw [hblocks, foldl_addBlocks]
          refine or_congr_right (or_iff_left ?_).symm
          rintro ⟨hempty, -⟩
          exact hnil (Option.some.inj hempty)

theorem calmFromFiles_spec
    {files : List ListFile}
    (hshort : ∀ file ∈ files, ∀ line ∈ file.lines, line.length < 255)
    (mngr : CPluginMngr) :
    ∃ read, files.foldlM calmFromFile mngr = some read ∧ read.plugins = mngr.plugins ∧
      ∀ name, name ∈ read.blockList ↔ name ∈ mngr.blockList ∨
        ∃ file ∈ files, (∃ line ∈ file.lines, (entryOf line).Blocks name) ∨ file.Stray name := by
  induction files generalizing mngr with
  | nil => exact ⟨mngr, rfl, rfl, by simp⟩
  | cons file files ih =>
      obtain ⟨hfile, hfiles⟩ := List.forall_mem_cons.mp hshort
      obtain ⟨first, hfirst, hplugins, hblocks⟩ := calmFromFile_spec hfile mngr
      obtain ⟨read, hread, hplugins', hblocks'⟩ := ih hfiles first
      refine ⟨read, ?_, hplugins'.trans hplugins, fun name => ?_⟩
      · rw [List.foldlM_cons, hfirst]
        exact hread
      · rw [hblocks', hblocks, List.exists_mem_cons_iff, or_assoc]

/-! The second pass. -/

/-- What `loadPluginsFromFile` does with an entry. -/
def Entry.load (mngr : CPluginMngr) (e : Entry) : CPluginMngr :=
  if e.name ∈ mngr.blockList ∨ e.second = disabled then mngr
  else if (mngr.findPlugin e.name).isSome then mngr
  else mngr.loadPlugin e.name (e.second = debugWord)

theorem loadTurn_eq
    {chunk : List Byte}
    (hchunk : entryOf chunk = entryOf line)
    (mngr : CPluginMngr) :
    loadTurn (some chunk) mngr =
      if startsWithAlnum (entryOf line).name then (entryOf line).load mngr else mngr := by
  have hflag : (startsWithAlnum (entryOf chunk).second && (entryOf chunk).second = debugWord) =
      decide ((entryOf chunk).second = debugWord) := by
    by_cases hsecond : (entryOf chunk).second = debugWord
    · rw [hsecond]
      decide
    · simp [hsecond]
  rw [← hchunk]
  change (if ¬startsWithAlnum (entryOf chunk).name = true then mngr else
    if (entryOf chunk).name ∈ mngr.blockList ∨ (entryOf chunk).second = disabled then mngr
    else if (mngr.findPlugin (entryOf chunk).name).isSome then mngr
    else mngr.loadPlugin (entryOf chunk).name
      (startsWithAlnum (entryOf chunk).second && (entryOf chunk).second = debugWord)) = _
  rw [hflag, ite_not]
  rfl

theorem loadPluginsFromFile_eq
    {file : ListFile}
    (hshort : ∀ line ∈ file.lines, line.length < 255)
    (mngr : CPluginMngr) :
    loadPluginsFromFile mngr file =
      some (((file.lines.map entryOf).filter fun e => startsWithAlnum e.name).foldl
        Entry.load mngr) := by
  obtain ⟨content, stale⟩ := file
  cases content with
  | none => rfl
  | some content =>
      obtain ⟨read, hread, hafter⟩ := readLines_related 510 loadTurn
        (fun mngr line => if startsWithAlnum (entryOf line).name then (entryOf line).load mngr
          else mngr) Eq Eq (by decide) (fun _ => rfl) id (fun h => h ▸ rfl)
        (fun _ _ h => h ▸ loadTurn_eq (entryOf_newline _) _) (fun _ _ h => h ▸ loadTurn_eq rfl _)
        content (fun line hmem => (Nat.le_of_lt_succ (hshort line hmem)).trans (by decide))
        (Nat.lt_succ_self _) (rfl : mngr = mngr) fun _ => rfl
      change readLines 510 loadTurn (content.length + 1) content mngr = _
      rw [hread, hafter, List.foldl_filter, List.foldl_map]
      rfl

theorem loadPluginsFromFiles_eq
    {files : List ListFile}
    (hshort : ∀ file ∈ files, ∀ line ∈ file.lines, line.length < 255)
    (mngr : CPluginMngr) :
    files.foldlM loadPluginsFromFile mngr =
      some ((entries files).foldl Entry.load mngr) := by
  induction files generalizing mngr with
  | nil => rfl
  | cons file files ih =>
      obtain ⟨hfile, hfiles⟩ := List.forall_mem_cons.mp hshort
      rw [List.foldlM_cons, loadPluginsFromFile_eq hfile]
      change files.foldlM loadPluginsFromFile _ = _
      rw [ih hfiles, entries, entries, List.flatMap_cons, List.filter_append, List.foldl_append]

end

end AmxModC.PluginList
