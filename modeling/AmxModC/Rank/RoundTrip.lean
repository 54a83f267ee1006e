import AmxModC.Rank.WellFormed
import AmxModC.Rank.Model

namespace AmxModC.Rank

open Foundation Reader

/-! What is loaded from a file that has been saved. -/

theorem reads_readShort (num : BitVec 16) : Reads readShort (writeShort num) num :=
  reads_ofNat_number 2 num rfl

theorem reads_readInt (num : Cell) : Reads readInt (writeInt num) num :=
  reads_ofNat_number 4 num rfl

theorem reads_readInts (cells : List Cell) :
    Reads (readInts cells.length) (cells.flatMap writeInt) cells := by
  induction cells with
  | nil => exact reads_pure []
  | cons first rest ih => exact (reads_readInt first).bind (ih.bind_pure _)

theorem reads_readStats (d : Stats) : Reads readStats (writeStats d) d := by
  have hbody := (reads_readInts (List.ofFn d.bodyHits)).bind_pure fun bodyHits =>
    { d with bodyHits := fun i => bodyHits.getD i 0 }
  have hcells : (fun i : Fin 9 => (List.ofFn d.bodyHits).getD i 0) = d.bodyHits := by
    funext i
    rw [List.getD_eq_getElem?_getD, List.getElem?_ofFn, dif_pos i.isLt]
    rfl
  rw [hcells, List.length_ofFn] at hbody
  unfold writeStats
  simp only [List.append_assoc]
  refine (reads_readInt d.tks).bind ?_
  refine (reads_readInt d.damage).bind ?_
  refine (reads_readInt d.deaths).bind ?_
  refine (reads_readInt d.kills).bind ?_
  refine (reads_readInt d.shots).bind ?_
  refine (reads_readInt d.hits).bind ?_
  refine (reads_readInt d.hs).bind ?_
  refine (reads_readInt d.bDefusions).bind ?_
  refine (reads_readInt d.bDefused).bind ?_
  refine (reads_readInt d.bPlants).bind ?_
  refine (reads_readInt d.bExplosions).bind ?_
  exact hbody

theorem reads_readRest (d : Stats) (i : BitVec 16) :
    Reads readRest (writeStats d ++ writeShort i) (d, i) :=
  (reads_readStats d).bind ((reads_readShort i).bind_pure _)

def Short (s : CString) : Prop := s.size < 64

theorem toNat_shortlen {s : CString} (h : Short s) : (shortlen s).toNat = s.size + 1 := by
  unfold Short at h
  rw [shortlen, BitVec.toNat_ofNat]
  omega

theorem writeChars_eq {s : CString} (h : Short s) : writeChars s = s.bytes ++ [0] := by
  rw [writeChars, toNat_shortlen h, List.take_of_length_le]
  simp [CString.size]

theorem charCount_shortlen {s : CString} (h : Short s) :
    charCount (shortlen s) = s.size + 1 := by
  have hlen := toNat_shortlen h
  unfold Short at h
  rw [charCount, BitVec.toNat_signExtend, BitVec.msb_eq_false_iff_two_mul_lt.mpr (by omega),
    BitVec.toNat_setWidth, hlen]
  simp
  omega

theorem readChars_writeChars {s : CString} (h : Short s) (buffer rest : List Byte) :
    ∃ chars, readChars (shortlen s) (writeChars s ++ rest) buffer = some (true, chars, rest) ∧
      terminated chars = some s := by
  have hcount := charCount_shortlen h
  have hlength : (s.bytes ++ [0]).length = s.size + 1 := by simp [CString.size]
  refine ⟨(s.bytes ++ [0]) ++ buffer.drop (s.bytes ++ [0]).length, ?_, ?_⟩
  · rw [readChars, writeChars_eq h, hcount, List.take_left' hlength, List.drop_left' hlength, fill,
      if_pos (by unfold Short at h; omega), Option.map_some,
      decide_eq_true (by rw [List.length_append, hlength]; omega)]
  · rw [terminated, if_pos (by simp), List.append_assoc]
    exact congrArg some (CString.ofMemory_terminated s _)

namespace Ranking

def entries (r : Ranking) : List Entry := r.order.map r.entry

def load (r : Ranking) (entry : Entry) : Ranking :=
  (r.findEntryInRank entry.unique entry.name false).updatePos
    ((r.find? false entry.unique).getD r.fresh) entry.toStats none

theorem mem_findEntryInRank (r : Ranking) (unique name : CString) (isip : Bool) :
    (r.find? isip unique).getD r.fresh ∈ (r.findEntryInRank unique name isip).order := by
  unfold Ranking.findEntryInRank
  cases hfind : r.find? isip unique with
  | some a => exact List.mem_of_find?_eq_some hfind
  | none => exact List.mem_append_right _ List.mem_cons_self

end Ranking

namespace Represents

variable {s : RankSystem} {r : Ranking}

theorem entries (h : Represents s r) : s.entries = r.entries := by
  rw [RankSystem.entries, h.toList, Ranking.entries, ← List.filterMap_eq_map]
  apply List.filterMap_congr
  intro a ha
  rw [h.entry a ha]
  rfl

end Represents

def nextlen : List Entry → BitVec 16
  | [] => 0
  | entry :: _ => shortlen entry.name

def records : List Entry → List Byte
  | [] => []
  | entry :: rest =>
      writeChars entry.name ++ writeShort (shortlen entry.unique) ++ writeChars entry.unique ++
        (writeStats entry.toStats ++ writeShort (nextlen rest)) ++ records rest

theorem writeShort_records (entries : List Entry) :
    writeShort (nextlen entries) ++ records entries =
      entries.flatMap writeEntry ++ writeShort 0 := by
  induction entries with
  | nil => exact List.append_nil _
  | cons entry rest ih =>
      rw [List.flatMap_cons, List.append_assoc, ← ih]
      simp only [nextlen, records, writeEntry, List.append_assoc]

theorem shortlen_ne_zero {s : CString} (h : Short s) : shortlen s ≠ 0 := by
  intro hzero
  have := toNat_shortlen h
  rw [hzero] at this
  exact absurd this (Nat.succ_ne_zero _).symm

theorem Represents.loadLoop {entries : List Entry}
    (hshort : ∀ entry ∈ entries, Short entry.name ∧ Short entry.unique) {fuel : Nat}
    (hfuel : entries.length < fuel) {s : RankSystem} {r : Ranking} (h : Represents s r)
    (unique name : List Byte) :
    ∃ s', Rank.loadLoop (fun _ => none) fuel (nextlen entries) (records entries) unique name s = some s' ∧
      Represents s' (entries.foldl Ranking.load r) := by
  induction entries generalizing fuel s r unique name with
  | nil =>
      obtain ⟨fuel, rfl⟩ := Nat.exists_eq_add_of_lt hfuel
      exact ⟨s, by simp [Rank.loadLoop, nextlen], h⟩
  | cons entry rest ih =>
      obtain ⟨fuel, rfl⟩ := Nat.exists_eq_add_one_of_ne_zero (Nat.ne_zero_of_lt hfuel)
      obtain ⟨⟨hname, hunique⟩, hrest⟩ := List.forall_mem_cons.mp hshort
      simp only [records, List.append_assoc]
      obtain ⟨nameChars, hnameRead, hnameString⟩ := readChars_writeChars hname name _
      obtain ⟨uniqueChars, huniqueRead, huniqueString⟩ := readChars_writeChars hunique unique _
      obtain ⟨s₁, hfind, hr₁⟩ := h.findEntryInRank entry.unique entry.name false
      obtain ⟨s₂, hupdate, hr₂⟩ := hr₁.updatePos
        (r.mem_findEntryInRank entry.unique entry.name false) entry.toStats none
      obtain ⟨s', hloop, hr'⟩ := ih hrest (by simpa using hfuel) hr₂ uniqueChars nameChars
      refine ⟨s', ?_, hr'⟩
      rw [Rank.loadLoop, nextlen, if_neg (shortlen_ne_zero hname), hnameRead]
      simp only
      rw [reads_readShort]
      simp only
      rw [huniqueRead]
      simp only
      rw [← List.append_assoc, reads_readRest]
      simp only [hnameString, huniqueString, hfind, hupdate, Option.bind_eq_bind,
        Option.bind_some, hloop]

theorem Represents.loadRank_saveRank {s : RankSystem} {r : Ranking} (h : Represents s r)
    (hshort : ∀ entry ∈ r.entries, Short entry.name ∧ Short entry.unique) :
    ∃ s', loadRank (some (saveRank s)) .empty = some s' ∧
      Represents s' ((r.entries.filter fun entry => entry.score ≠ mincell).foldl
        Ranking.load .empty) := by
  have hlength : ∀ entries : List Entry, entries.length ≤ (records entries).length := by
    intro entries
    induction entries with
    | nil => exact Nat.le_refl _
    | cons entry rest ih =>
        simp only [records, List.length_append, List.length_cons, writeShort, length_littleEndian]
        omega
  rw [saveRank, h.entries, List.append_assoc, ← writeShort_records, loadRank, loadRankWith, reads_readShort]
  generalize hsaved : (r.entries.filter fun entry => entry.score ≠ mincell) = saved
  have hshortSaved : ∀ entry ∈ saved, Short entry.name ∧ Short entry.unique := fun entry hmem =>
    hshort entry (List.mem_of_mem_filter (hsaved ▸ hmem))
  simp only [if_true]
  rw [reads_readShort]
  exact Represents.loadLoop hshortSaved (Nat.lt_succ_of_le (hlength saved)) .empty _ _

/-! The same on the list of entries. -/

def rankIn (list : List Entry) (entry : Entry) : List Entry :=
  (list.rdropWhile fun other => other.score ≤ entry.score) ++
    entry :: list.rtakeWhile fun other => other.score ≤ entry.score

/-- An entry whose score is computed from its kills and deaths, and which counts no hits for
the first and the last body part. -/
structure Plain (entry : Entry) : Prop where
  score : entry.score = (entry.kills - entry.deaths).toInt
  first : entry.bodyHits 0 = 0
  last : entry.bodyHits 8 = 0

theorem Plain.new (unique name : CString) : Plain (Entry.new unique name) where
  score := by
    change (0 : Int) = ((0 : Cell) - 0).toInt
    decide
  first := rfl
  last := rfl

theorem Plain.update {entry : Entry} (h : Plain entry) (stats : Stats) :
    Plain (entry.update stats none) where
  score := rfl
  first := h.first
  last := h.last

theorem Plain.update_new {entry : Entry} (h : Plain entry) :
    (Entry.new entry.unique entry.name).update entry.toStats none = entry := by
  obtain ⟨⟨_, _, _, _, _, kills, deaths, bodyHits, _, _, _, _⟩, unique, name, score⟩ := entry
  obtain ⟨hscore, hfirst, hlast⟩ := h
  have hscore : (kills - deaths).toInt = score := hscore.symm
  have hbody : (fun i : Fin 9 => if 1 ≤ i ∧ i < 8 then bodyHits i else 0#32) = bodyHits := by
    funext i
    split
    next => rfl
    next hi =>
      have hi : i = 0 ∨ i = 8 := by omega
      obtain rfl | rfl := hi
      · exact hfirst.symm
      · exact hlast.symm
  simp only [Entry.update, Entry.new, Stats.commit, Stats.zero, Option.getD_none,
    BitVec.ofNat_eq_ofNat, BitVec.zero_add, hbody, hscore]

theorem place_nil (score : Nat → Int) (before : List Nat) (rr : Nat) :
    place score before rr [] =
      (before.rdropWhile fun a => score a ≤ score rr) ++
        rr :: before.rtakeWhile fun a => score a ≤ score rr := by
  have hsplit := List.rdropWhile_append_rtakeWhile (l := before)
    (p := fun a => decide (score a ≤ score rr))
  simp only [place]
  split
  next => rw [List.append_nil]
  next hnil =>
    rw [not_not.mp hnil, List.append_nil] at hsplit
    rw [not_not.mp hnil, hsplit]
    simp

theorem map_rankIn (entry : Nat → Entry) (before : List Nat) (rr : Nat) :
    (place (fun a => (entry a).score) before rr []).map entry =
      rankIn (before.map entry) (entry rr) := by
  rw [place_nil, rankIn, List.map_append, List.map_cons]
  simp only [List.rdropWhile, List.rtakeWhile, ← List.map_reverse, List.dropWhile_map,
    List.takeWhile_map]
  rfl

namespace Ranking

variable {r : Ranking} {entry : Entry}

structure Valid (r : Ranking) : Prop where
  nodup : r.order.Nodup
  below : ∀ a ∈ r.order, a < r.fresh

theorem find?_eq_none (hnew : ∀ other ∈ r.entries, other.unique ≠ entry.unique) :
    r.find? false entry.unique = none := by
  apply List.find?_eq_none.mpr
  intro a ha
  simpa [isEntry] using hnew (r.entry a) (List.mem_map_of_mem ha)

theorem load_eq (h : r.Valid) (hnew : ∀ other ∈ r.entries, other.unique ≠ entry.unique)
    (hplain : Plain entry) :
    (r.load entry).Valid ∧ (r.load entry).entries = rankIn r.entries entry := by
  have hfresh : ∀ a ∈ r.order, a ≠ r.fresh := fun a ha => Nat.ne_of_lt (h.below a ha)
  have hfind := find?_eq_none hnew
  have htake : (r.order ++ [r.fresh]).takeWhile (· ≠ r.fresh) = r.order := by
    rw [List.takeWhile_append_of_pos (by simpa using hfresh)]
    simp
  have hdrop : ((r.order ++ [r.fresh]).dropWhile (· ≠ r.fresh)).tail = [] := by
    rw [List.dropWhile_append_of_pos (by simpa using hfresh)]
    simp
  have horder : (r.load entry).order =
      place (fun a => ((r.load entry).entry a).score) r.order r.fresh [] := by
    simp only [load, findEntryInRank, updatePos, hfind, Option.getD_none, htake, hdrop]
  have hself : (r.load entry).entry r.fresh = entry := by
    simp [load, findEntryInRank, updatePos, hfind, hplain.update_new]
  have hother : ∀ a ∈ r.order, (r.load entry).entry a = r.entry a := by
    intro a ha
    simp [load, findEntryInRank, updatePos, hfind, hfresh a ha]
  have hnext : (r.load entry).fresh = r.fresh + 1 := by
    simp [load, findEntryInRank, updatePos, hfind]
  have hperm := place_perm (fun a => ((r.load entry).entry a).score) r.order r.fresh []
  rw [← horder] at hperm
  refine ⟨⟨?_, ?_⟩, ?_⟩
  · rw [hperm.nodup_iff, List.nodup_middle, List.append_nil]
    exact List.nodup_cons.mpr ⟨fun ha => hfresh _ ha rfl, h.nodup⟩
  · intro a ha
    rw [hperm.mem_iff, List.mem_append, List.mem_singleton] at ha
    rw [hnext]
    obtain ha | rfl := ha
    · exact Nat.lt_succ_of_lt (h.below a ha)
    · exact Nat.lt_succ_self _
  · rw [entries, horder, map_rankIn, hself, List.map_congr_left hother]
    rfl

end Ranking

section

variable {list saved : List Entry} {entry : Entry}

theorem rankIn_split (list : List Entry) (entry : Entry) :
    ∃ kept passed, list = kept ++ passed ∧ rankIn list entry = kept ++ entry :: passed ∧
      (∀ other ∈ kept.getLast?, entry.score < other.score) ∧
      ∀ other ∈ passed, other.score ≤ entry.score := by
  refine ⟨_, _, List.rdropWhile_append_rtakeWhile.symm, rfl, ?_, ?_⟩
  · intro other hother
    simpa using getLast?_rdropWhile_not hother
  · intro other hother
    simpa using List.mem_rtakeWhile_imp hother

theorem rankIn_perm (list : List Entry) (entry : Entry) :
    (rankIn list entry).Perm (list ++ [entry]) := by
  obtain ⟨kept, passed, rfl, heq, -, -⟩ := rankIn_split list entry
  rw [heq]
  exact List.perm_middle.trans (List.perm_append_singleton entry (kept ++ passed)).symm

theorem foldl_rankIn_perm (list saved : List Entry) :
    (saved.foldl rankIn list).Perm (list ++ saved) := by
  induction saved generalizing list with
  | nil => rw [List.append_nil]; exact .refl _
  | cons entry rest ih =>
      have happend := (rankIn_perm list entry).append_right rest
      rw [List.append_assoc] at happend
      exact (ih (rankIn list entry)).trans happend

theorem rankIn_of_lt (h : ∀ other ∈ list, entry.score < other.score) :
    rankIn list entry = list ++ [entry] := by
  obtain ⟨kept, passed, rfl, heq, -, hpassed⟩ := rankIn_split list entry
  have hnil : passed = [] := by
    apply List.eq_nil_iff_forall_not_mem.mpr
    intro other hother
    exact absurd (hpassed other hother) (Int.not_le.mpr (h other (List.mem_append_right _ hother)))
  rw [heq, hnil, List.append_nil]

theorem foldl_rankIn_of_lt (h : (list ++ saved).Pairwise fun a b => b.score < a.score) :
    saved.foldl rankIn list = list ++ saved := by
  induction saved generalizing list with
  | nil => exact (List.append_nil list).symm
  | cons entry rest ih =>
      have hlast : ∀ other ∈ list, entry.score < other.score := fun other hother =>
        (List.pairwise_append.mp h).2.2 other hother entry List.mem_cons_self
      rw [List.foldl_cons, rankIn_of_lt hlast, ih (by simpa using h)]
      simp

theorem sublist_foldl_rankIn (list saved : List Entry) :
    list.Sublist (saved.foldl rankIn list) := by
  induction saved generalizing list with
  | nil => exact .refl _
  | cons entry rest ih =>
      refine List.Sublist.trans ?_ (ih (rankIn list entry))
      obtain ⟨kept, passed, rfl, heq, -, -⟩ := rankIn_split list entry
      rw [heq]
      exact (List.Sublist.refl kept).append (List.sublist_cons_self entry passed)

def Sorted (list : List Entry) : Prop := list.Pairwise fun a b => b.score ≤ a.score

theorem Sorted.rankIn (h : Sorted list) (entry : Entry) : Sorted (rankIn list entry) := by
  obtain ⟨kept, passed, rfl, heq, hkept, hpassed⟩ := rankIn_split list entry
  rw [heq, Sorted, pairwise_insert h]
  refine ⟨?_, hpassed⟩
  intro other hother
  obtain rfl | ⟨front, last, rfl⟩ := List.eq_nil_or_concat' kept
  · cases hother
  · have hlast := hkept last (by simp)
    obtain hother | hother := List.mem_append.mp hother
    · have hfront := (List.pairwise_append.mp (List.pairwise_append.mp h).1).2.2 other hother
        last List.mem_cons_self
      omega
    · rw [List.mem_singleton.mp hother]
      exact Int.le_of_lt hlast

theorem Sorted.foldl_rankIn (h : Sorted list) (saved : List Entry) :
    Sorted (saved.foldl Rank.rankIn list) := by
  induction saved generalizing list with
  | nil => exact h
  | cons entry rest ih => exact ih (h.rankIn entry)

theorem not_sublist_of_nodup {α : Type*} {list : List α} {a b : α} (hnodup : list.Nodup)
    (h : [a, b].Sublist list) : ¬ [b, a].Sublist list := by
  induction list with
  | nil => cases h
  | cons x rest ih =>
      obtain ⟨hx, hrest⟩ := List.nodup_cons.mp hnodup
      intro hback
      cases h with
      | cons _ h =>
          cases hback with
          | cons _ hback => exact ih hrest h hback
          | cons_cons _ _ => exact hx (h.subset (by simp))
      | cons_cons _ h =>
          cases hback with
          | cons _ hback => exact hx (hback.subset (by simp))
          | cons_cons _ _ => exact hx (h.subset (by simp))

theorem exists_split_of_sublist {α : Type*} {list : List α} {a b : α}
    (h : [a, b].Sublist list) : ∃ pre post, list = pre ++ b :: post ∧ a ∈ pre := by
  induction list with
  | nil => cases h
  | cons x rest ih =>
      cases h with
      | cons _ h =>
          obtain ⟨pre, post, rfl, ha⟩ := ih h
          exact ⟨x :: pre, post, rfl, List.mem_cons_of_mem x ha⟩
      | cons_cons _ h =>
          obtain ⟨pre, post, rfl⟩ := List.append_of_mem (List.singleton_sublist.mp h)
          exact ⟨a :: pre, post, rfl, List.mem_cons_self⟩

theorem sublist_rankIn (h : Sorted list) {other : Entry} (hmem : other ∈ list)
    (hscore : other.score = entry.score) : [entry, other].Sublist (rankIn list entry) := by
  obtain ⟨kept, passed, rfl, heq, hkept, -⟩ := rankIn_split list entry
  rw [heq]
  obtain hmem | hmem := List.mem_append.mp hmem
  · obtain rfl | ⟨front, last, rfl⟩ := List.eq_nil_or_concat' kept
    · cases hmem
    · have hlast := hkept last (by simp)
      obtain hmem | hmem := List.mem_append.mp hmem
      · have := (List.pairwise_append.mp (List.pairwise_append.mp h).1).2.2 other hmem last
          List.mem_cons_self
        omega
      · rw [List.mem_singleton.mp hmem] at hscore
        omega
  · exact ((List.singleton_sublist.mpr hmem).cons_cons entry).trans
      (List.sublist_append_right kept _)

theorem foldl_rankIn_eq_iff (hsorted : Sorted saved) (hnodup : saved.Nodup) :
    saved.foldl rankIn [] = saved ↔ saved.Pairwise fun a b => a.score ≠ b.score := by
  constructor
  · intro heq
    apply List.pairwise_iff_forall_sublist.mpr
    intro a b hab hscore
    obtain ⟨pre, post, hsplit, ha⟩ := exists_split_of_sublist hab
    have hpre : Sorted (pre.foldl rankIn []) := Sorted.foldl_rankIn .nil pre
    have hmem : a ∈ pre.foldl rankIn [] := (foldl_rankIn_perm [] pre).mem_iff.mpr ha
    have hback := (sublist_rankIn hpre hmem hscore).trans (sublist_foldl_rankIn _ post)
    rw [← List.foldl_cons, ← List.foldl_append, ← hsplit, heq] at hback
    exact not_sublist_of_nodup hnodup hab hback
  · intro hdistinct
    apply foldl_rankIn_of_lt
    rw [List.nil_append]
    exact hsorted.imp₂ (fun a b hle hne => by omega) hdistinct

end

theorem Ranking.foldl_load {saved : List Entry} {r : Ranking} (h : r.Valid)
    (hnodup : ((r.entries ++ saved).map Entry.unique).Nodup)
    (hplain : ∀ entry ∈ saved, Plain entry) :
    (saved.foldl load r).entries = saved.foldl rankIn r.entries := by
  induction saved generalizing r with
  | nil => rfl
  | cons entry rest ih =>
      obtain ⟨hentry, hrest⟩ := List.forall_mem_cons.mp hplain
      have hnew : ∀ other ∈ r.entries, other.unique ≠ entry.unique := by
        rw [List.map_append, List.map_cons] at hnodup
        intro other hother
        exact (List.nodup_append.mp hnodup).2.2 other.unique (List.mem_map_of_mem hother)
          entry.unique List.mem_cons_self
      obtain ⟨hvalid, hentries⟩ := load_eq h hnew hentry
      have hperm : ((r.load entry).entries ++ rest).Perm (r.entries ++ entry :: rest) := by
        have happend := (rankIn_perm r.entries entry).append_right rest
        rw [List.append_assoc] at happend
        rw [hentries]
        exact happend
      rw [List.foldl_cons, List.foldl_cons, ← hentries]
      exact ih hvalid ((hperm.map Entry.unique).nodup_iff.mpr hnodup) hrest

def Event.script : Event → Option Int
  | .findEntryInRank .. => none
  | .updatePosition _ _ script => script

def Ranking.AllPlain (r : Ranking) : Prop := ∀ a ∈ r.order, Plain (r.entry a)

theorem Ranking.AllPlain.step {r r' : Ranking} {event : Event} (h : r.AllPlain)
    (hbelow : ∀ a ∈ r.order, a < r.fresh) (hscript : event.script = none)
    (hstep : r.step event = some r') : r'.AllPlain := by
  cases event with
  | findEntryInRank unique name isip =>
      cases hstep
      unfold Ranking.findEntryInRank
      split
      next => exact h
      next =>
        intro a ha
        obtain ha | ha := List.mem_append.mp ha
        · simpa [Function.update_of_ne (Nat.ne_of_lt (hbelow a ha))] using h a ha
        · rw [List.mem_singleton.mp ha]
          simpa using Plain.new unique name
  | updatePosition rr stats script =>
      cases hscript
      simp only [Ranking.step] at hstep
      split at hstep
      next hrr =>
        cases hstep
        intro a ha
        have hold : a ∈ r.order := by
          have hmem := (place_perm _ _ _ _).mem_iff.mp ha
          rwa [split hrr] at hmem
        by_cases heq : a = rr
        · simpa [updatePos, heq] using (h rr hrr).update stats
        · simpa [updatePos, Function.update_of_ne heq] using h a hold
      next => cases hstep

def RoundTrips (s : RankSystem) : Prop :=
  ∃ s', loadRank (some (saveRank s)) .empty = some s' ∧ s'.entries = s.entries

section

variable {s : RankSystem} {events : List Event}

theorem exists_plain_of_run (hrun : run step .empty events = some s)
    (hscript : ∀ event ∈ events, event.script = none) :
    ∃ r, Represents s r ∧ r.AllPlain := by
  have hrelated := Represents.run events
  rw [hrun] at hrelated
  generalize habstract : run Ranking.step .empty events = abstract at hrelated
  cases hrelated with
  | some h =>
      have hmeets : Meets Ranking.step (fun _ event => True ∧ event.script = none) .empty events :=
        Meets.and_forall (meets_of_forall fun _ _ => trivial) hscript
      have hempty : Ranking.empty.Complete ∧ Ranking.empty.AllPlain :=
        ⟨.refl [], fun _ ha => absurd ha List.not_mem_nil⟩
      have hkeep : ∀ {r : Ranking} {event : Event} {r' : Ranking}, r.Complete ∧ r.AllPlain →
          True ∧ event.script = none → r.step event = some r' → r'.Complete ∧ r'.AllPlain := by
        intro r event r' hinv hallowed hstep
        refine ⟨hinv.1.step hstep, hinv.2.step ?_ hallowed.2 hstep⟩
        intro a ha
        exact List.mem_range.mp (hinv.1.mem_iff.mp ha)
      exact ⟨_, h, (run_invariant (I := fun r => r.Complete ∧ r.AllPlain) hkeep hempty hmeets
        habstract).2⟩

theorem Represents.valid {r : Ranking} (h : Represents s r) : r.Valid := ⟨h.linked.nodup, h.below⟩

/-- A list that is sorted comes back from the file exactly if no two of its scores are the same
and none is the one that is not saved. -/
theorem roundTrips_iff (hrun : run step .empty events = some s)
    (hscript : ∀ event ∈ events, event.script = none)
    (hshort : ∀ entry ∈ s.entries, Short entry.name ∧ Short entry.unique)
    (hdistinct : (s.entries.map Entry.unique).Nodup) (hsorted : Sorted s.entries) :
    RoundTrips s ↔
      (s.entries.Pairwise fun a b => a.score ≠ b.score) ∧
        ∀ entry ∈ s.entries, entry.score ≠ mincell := by
  obtain ⟨r, hr, hplain⟩ := exists_plain_of_run hrun hscript
  rw [hr.entries] at hshort hdistinct hsorted
  obtain ⟨s', hload, hr'⟩ := hr.loadRank_saveRank hshort
  have hplainSaved : ∀ entry ∈ r.entries, Plain entry := by
    intro entry hentry
    obtain ⟨a, ha, rfl⟩ := List.mem_map.mp hentry
    exact hplain a ha
  generalize hsaved : (r.entries.filter fun entry => entry.score ≠ mincell) = saved at hr'
  have hsub : saved.Sublist r.entries := hsaved ▸ List.filter_sublist
  have hloaded := Ranking.foldl_load Represents.empty.valid (hdistinct.sublist (hsub.map _))
    fun entry hentry => hplainSaved entry (hsub.subset hentry)
  have hiff : RoundTrips s ↔ saved.foldl rankIn [] = r.entries := by
    rw [RoundTrips, hload, hr.entries]
    simp only [Option.some_inj, exists_eq_left', hr'.entries, hloaded]
    rfl
  have hall : saved = r.entries ↔ ∀ entry ∈ r.entries, entry.score ≠ mincell := by
    rw [← hsaved, List.filter_eq_self]
    simp
  have hnodup : r.entries.Nodup := List.Nodup.of_map _ hdistinct
  rw [hiff, hr.entries, ← hall]
  constructor
  · intro heq
    have hlength := (foldl_rankIn_perm [] saved).length_eq
    rw [heq] at hlength
    have hsame := hsub.eq_of_length hlength.symm
    rw [hsame] at heq
    exact ⟨(foldl_rankIn_eq_iff hsorted hnodup).mp heq, hsame⟩
  · intro hgood
    rw [hgood.2]
    exact (foldl_rankIn_eq_iff hsorted hnodup).mpr hgood.1

/-- Two players, the second of whom overtakes the first, come back as they were. -/
theorem roundTrips_overtaking : ∃ s, run step .empty overtaking = some s ∧ RoundTrips s := by
  have hview : ((run step .empty overtaking).map fun s =>
      decide ((∀ entry ∈ s.entries, entry.name.size < 64 ∧ entry.unique.size < 64) ∧
        (s.entries.map Entry.unique).Nodup ∧
        (s.entries.Pairwise fun a b => b.score ≤ a.score) ∧
        (s.entries.Pairwise fun a b => a.score ≠ b.score) ∧
        ∀ entry ∈ s.entries, entry.score ≠ mincell)) = some true := by
    decide
  obtain ⟨s, hrun, hs⟩ := Option.map_eq_some_iff.mp hview
  obtain ⟨hshort, hdistinct, hsorted, hgood⟩ := of_decide_eq_true hs
  exact ⟨s, hrun, (roundTrips_iff hrun (by decide) hshort hdistinct hsorted).mpr hgood⟩

/-- Two players without a kill or a death come back the other way round. -/
theorem not_roundTrips : ¬ ∀ (s : RankSystem) (events : List Event),
    run step .empty events = some s → (∀ event ∈ events, event.script = none) →
    (∀ entry ∈ s.entries, Short entry.name ∧ Short entry.unique) →
    (s.entries.map Entry.unique).Nodup → Sorted s.entries → RoundTrips s := by
  intro h
  let events : List Event :=
    [.findEntryInRank (.ofMemory [65]) (.ofMemory [65]) false,
      .findEntryInRank (.ofMemory [66]) (.ofMemory [66]) false]
  have hview : ((run step .empty events).map fun s =>
      decide ((∀ entry ∈ s.entries, entry.name.size < 64 ∧ entry.unique.size < 64) ∧
        (s.entries.map Entry.unique).Nodup ∧
        (s.entries.Pairwise fun a b => b.score ≤ a.score) ∧
        (loadRank (some (saveRank s)) .empty).map (fun s' => s'.entries.map Entry.unique) ≠
          some (s.entries.map Entry.unique))) = some true := by
    decide +kernel
  obtain ⟨s, hrun, hs⟩ := Option.map_eq_some_iff.mp hview
  obtain ⟨hshort, hdistinct, hsorted, hdiffers⟩ := of_decide_eq_true hs
  obtain ⟨s', hload, hentries⟩ := h s events hrun (by decide) hshort hdistinct hsorted
  exact hdiffers (by rw [hload, Option.map_some, hentries])

end

end AmxModC.Rank
