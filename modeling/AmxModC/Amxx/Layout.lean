import AmxModC.Amxx.Model

namespace AmxModC.Amxx

open Foundation
open Image (AmxxError amxMagic)

/-! What the bytes of a file say, and that the reader finds it. -/

section Header

theorem field_overwrite {front rest : List Byte} {offset width : Nat}
    (h : offset + width ≤ front.length) :
    field (front ++ rest) offset width = field front offset width := by
  rw [field, field, List.drop_append_of_le_length (by omega), List.take_append_of_le_length]
  rw [List.length_drop]
  omega

theorem field_take {bytes : List Byte} {count offset width : Nat}
    (h : offset + width ≤ count) :
    field (bytes.take count) offset width = field bytes offset width := by
  rw [field, field, List.drop_take, List.take_take, Nat.min_eq_left (by omega)]

theorem ofBytes_take (bytes : List Byte) :
    AmxHeader.ofBytes (bytes.take sizeofHeader) = AmxHeader.ofBytes bytes := by
  simp only [AmxHeader.ofBytes]
  rw [field_take (by decide), field_take (by decide), field_take (by decide),
    field_take (by decide)]

theorem ofBytes_overwrite {stale content : List Byte} (h : sizeofHeader ≤ content.length) :
    AmxHeader.ofBytes (overwrite (content.take sizeofHeader) stale) =
      AmxHeader.ofBytes content := by
  have hlength : (content.take sizeofHeader).length = 56 := by
    rw [List.length_take, Nat.min_eq_left h]
    rfl
  rw [← ofBytes_take content, overwrite]
  simp only [AmxHeader.ofBytes]
  rw [field_overwrite (by omega), field_overwrite (by omega), field_overwrite (by omega),
    field_overwrite (by omega)]

end Header

section Widths

theorem takes_readInt8 : readInt8.Takes 1 := (Reader.takes_number 1).map _

theorem takes_readInt32 : readInt32.Takes 4 := (Reader.takes_number 4).map _

theorem takes_readPluginEntry : readPluginEntry.Takes 17 :=
  takes_readInt8.bind fun _ => takes_readInt32.bind fun _ => takes_readInt32.bind fun _ =>
    takes_readInt32.bind fun _ => takes_readInt32.bind_pure _

theorem takes_readTableEntry : readTableEntry.Takes sizeofTableEntry :=
  takes_readInt8.bind fun _ => takes_readInt32.bind fun _ => takes_readInt32.bind_pure _

end Widths

/-! The newer container. -/

def readEntries : Nat → Reader (List PluginEntry)
  | 0 => return []
  | count + 1 => do
      let pe ← readPluginEntry
      let rest ← readEntries count
      return pe :: rest

theorem takes_readEntries (count : Nat) : (readEntries count).Takes (17 * count) := by
  induction count with
  | zero => exact Reader.takes_pure []
  | succ count ih =>
      rw [Nat.mul_succ, Nat.add_comm (17 * count)]
      exact takes_readPluginEntry.bind fun pe => ih.bind_pure (pe :: ·)

theorem read_readEntries_succ (count : Nat) (f : FileStream) :
    f.read (readEntries (count + 1)) =
      (f.read readPluginEntry).bind fun pe =>
        (pe.2.read (readEntries count)).map fun rest => (pe.1 :: rest.1, rest.2) := by
  rw [readEntries, FileStream.read_bind takes_readPluginEntry fun pe =>
    (takes_readEntries count).bind_pure _]
  congr 1
  funext pe
  rw [FileStream.read_bind (takes_readEntries count) fun _ => Reader.takes_pure _]
  simp only [FileStream.read_pure, Option.map_eq_bind, Function.comp_def]

theorem length_readEntries
    {count : Nat}
    {f g : FileStream}
    {entries : List PluginEntry}
    (h : f.read (readEntries count) = some (entries, g)) :
    entries.length = count := by
  induction count generalizing f g entries with
  | zero =>
      rw [readEntries, FileStream.read_pure] at h
      cases h
      rfl
  | succ count ih =>
      rw [read_readEntries_succ] at h
      obtain ⟨pe, -, h⟩ := Option.bind_eq_some_iff.mp h
      obtain ⟨rest, hrest, h⟩ := Option.map_eq_some_iff.mp h
      cases h
      exact congrArg Nat.succ (ih hrest)

namespace CAmxxReader

theorem readTable_eq
    {count : Nat}
    (front back : List PluginEntry)
    (f : FileStream)
    (hback : back.length = count) :
    readTable count front.length (front ++ back) f =
      some ((f.read (readEntries count)).map fun entries => (front ++ entries.1, entries.2)) := by
  induction count generalizing front back f with
  | zero =>
      rw [List.length_eq_zero_iff.mp hback, readEntries, FileStream.read_pure]
      rfl
  | succ count ih =>
      obtain ⟨first, back, rfl⟩ := List.exists_cons_of_length_eq_add_one hback
      rw [readTable, if_pos (by simp), read_readEntries_succ]
      cases f.read readPluginEntry with
      | none => rfl
      | some pe =>
          have hset : (front ++ first :: back).set front.length pe.1 =
              (front ++ [pe.1]) ++ back := by
            simp
          have hrest := ih (front ++ [pe.1]) back pe.2 (Nat.succ_inj.mp hback)
          rw [List.length_append] at hrest
          simp only [hset]
          rw [List.length_singleton] at hrest
          rw [hrest, Option.bind_some, Option.map_map]
          simp only [Function.comp_def, List.append_assoc, List.singleton_append]

theorem readTable_nil (count : Nat) (f : FileStream) :
    readTable (count + 1) 0 [] f = none := rfl

theorem findEntry_eq
    (plugins : List PluginEntry)
    (cellSize : Int)
    {count i : Nat}
    (h : i + count = plugins.length) :
    findEntry plugins cellSize count i =
      some (((plugins.drop i).findIdx? fun pe => pe.cellsize.toInt = cellSize).map (i + ·)) := by
  induction count generalizing i with
  | zero =>
      have hdrop : plugins.drop i = [] := List.drop_eq_nil_of_le (by omega)
      rw [hdrop]
      rfl
  | succ count ih =>
      have hi : i < plugins.length := by omega
      rw [findEntry, List.getElem?_eq_getElem hi, Option.bind_some,
        List.drop_eq_getElem_cons hi, List.findIdx?_cons]
      split
      next hsize => simp [hsize]
      next hsize =>
        rw [ih (by omega)]
        simp only [hsize, decide_false, Bool.false_eq_true, if_false, Option.map_map,
          Function.comp_def]
        congr 2
        funext n
        omega

end CAmxxReader

/-! The older container. -/

def tableEntryAt (content : List Byte) (i : Nat) : Option TableEntry :=
  (readTableEntry (content.drop (5 + sizeofTableEntry * i))).map Prod.fst

def tableIndex? (content : List Byte) (cellSize : Int) (first count : Nat) : Option Nat :=
  (List.range' first count).find? fun i =>
    (tableEntryAt content i).any fun entry => entry.cellSize.toInt = cellSize

theorem tableEntryAt_eq_none {content : List Byte} {i : Nat} :
    tableEntryAt content i = none ↔ content.length < 5 + sizeofTableEntry * (i + 1) := by
  have hlength : (content.drop (5 + sizeofTableEntry * i)).length =
      content.length - (5 + sizeofTableEntry * i) := List.length_drop
  rw [tableEntryAt, Option.map_eq_none_iff, Nat.mul_succ]
  rcases takes_readTableEntry (content.drop (5 + sizeofTableEntry * i)) with
    ⟨hlt, hnone⟩ | ⟨hge, entry, hsome⟩
  · refine iff_of_true hnone ?_
    omega
  · rw [hsome]
    refine iff_of_false (Option.some_ne_none _) ?_
    have hpos : 0 < sizeofTableEntry := by decide
    omega

theorem read_tableEntry (content : List Byte) (i : Nat) :
    FileStream.read readTableEntry { content, pos := 5 + sizeofTableEntry * i } =
      (tableEntryAt content i).map fun entry =>
        (entry, { content, pos := 5 + sizeofTableEntry * (i + 1) }) := by
  rw [FileStream.read_of_takes takes_readTableEntry, tableEntryAt, Option.map_map]
  rfl

theorem tableIndex?_succ
    {content : List Byte}
    {cellSize : Int}
    {first count : Nat} :
    tableIndex? content cellSize first (count + 1) =
      if (tableEntryAt content first).any fun entry => entry.cellSize.toInt = cellSize then
        some first
      else tableIndex? content cellSize (first + 1) count := by
  rw [tableIndex?, List.range'_succ, List.find?_cons]
  split <;> simp_all [tableIndex?]

theorem tableIndex?_none
    {content : List Byte}
    {cellSize : Int}
    {first count : Nat}
    (h : tableEntryAt content first = none) :
    tableIndex? content cellSize first count = none := by
  rw [tableIndex?, List.find?_eq_none]
  intro i hi
  rw [tableEntryAt_eq_none] at h
  have hgone : tableEntryAt content i = none := by
    rw [tableEntryAt_eq_none]
    have hle := (List.mem_range'_1.mp hi).1
    unfold sizeofTableEntry at h ⊢
    omega
  rw [hgone]
  exact Bool.false_ne_true

theorem CAmxxReader.findTableEntry_spec
    (content : List Byte)
    (cellSize : Int)
    (count i : Nat) :
    match tableIndex? content cellSize i count with
    | some j => ∃ entry, tableEntryAt content j = some entry ∧
        findTableEntry cellSize count i { content, pos := 5 + sizeofTableEntry * i } =
          some (some (entry, j, { content, pos := 5 + sizeofTableEntry * (j + 1) }))
    | none =>
        findTableEntry cellSize count i { content, pos := 5 + sizeofTableEntry * i } = none ∨
        findTableEntry cellSize count i { content, pos := 5 + sizeofTableEntry * i } =
          some none := by
  induction count generalizing i with
  | zero => exact Or.inr rfl
  | succ count ih =>
      rw [findTableEntry, read_tableEntry]
      cases hentry : tableEntryAt content i with
      | none =>
          rw [tableIndex?_none hentry]
          exact Or.inl rfl
      | some entry =>
          rw [tableIndex?_succ, hentry]
          simp only [Option.any_some, decide_eq_true_eq, Option.map_some]
          split
          next j hj =>
            split at hj
            next hsize =>
              cases hj
              exact ⟨entry, hentry, if_pos hsize⟩
            next hsize =>
              have hrest := ih (i + 1)
              rw [hj] at hrest
              simpa only [if_neg hsize] using hrest
          next hj =>
            split at hj
            next hsize => cases hj
            next hsize =>
              have hrest := ih (i + 1)
              rw [hj] at hrest
              simpa only [if_neg hsize] using hrest

end AmxModC.Amxx
