import AmxModC.Foundation.Stream
import AmxModC.Rank.RoundTrip

namespace AmxModC.Rank

open Foundation Reader

/-! What `loadRank` does to its arrays of characters, for any content of the file. -/

structure Turn where
  namelen : BitVec 16
  ahead : List Byte

namespace Turn

def name (t : Turn) : List Byte := t.ahead.take (charCount t.namelen)

def uniquelen? (t : Turn) : Option (BitVec 16 × List Byte) :=
  if charCount t.namelen ≤ t.ahead.length then readShort (t.ahead.drop (charCount t.namelen))
  else none

def unique (t : Turn) : List Byte :=
  t.uniquelen?.elim [] fun u => u.2.take (charCount u.1)

def rest? (t : Turn) : Option ((Stats × BitVec 16) × List Byte) :=
  t.uniquelen?.bind fun u =>
    if charCount u.1 ≤ u.2.length then readRest (u.2.drop (charCount u.1)) else none

def next? (t : Turn) : Option Turn := t.rest?.map fun rest => ⟨rest.1.2, rest.2⟩

def run : Nat → Turn → List Turn
  | 0, _ => []
  | fuel + 1, t => if t.namelen = 0 then [] else t :: t.next?.elim [] (run fuel)

def Fits (t : Turn) : Prop := t.name.length ≤ 64 ∧ t.unique.length ≤ 64

end Turn

def Terminated (strings : List (List Byte)) : Prop :=
  ∃ front chars later, strings = front ++ chars :: later ∧
    ∃ p : Nat, chars[p]? = some 0 ∧ ∀ other ∈ later, other.length ≤ p

/-- The strings of each turn fit, and in each complete record both arrays have a terminator; the
names and the other strings of the turns before are given. -/
def Harmless (names uniques : List (List Byte)) (turns : List Turn) : Prop :=
  ∀ front t later, turns = front ++ t :: later → t.Fits ∧
    (t.next?.isSome = true → Terminated (names ++ (front ++ [t]).map Turn.name) ∧
      Terminated (uniques ++ (front ++ [t]).map Turn.unique))

def firstTurn (file : List Byte) : Option Turn := do
  let (version, file) ← readShort file
  if version = rankVersion then do
    let (i, file) ← readShort file
    return ⟨i, file⟩
  else none

def overlay (buffer chars : List Byte) : List Byte := chars ++ buffer.drop chars.length

def arrayAfter (strings : List (List Byte)) : List Byte :=
  strings.foldl overlay (List.replicate 64 uninitialised)

section

variable {strings names uniques : List (List Byte)} {chars buffer : List Byte} {t t' : Turn}
  {turns : List Turn} {s : RankSystem} {r : Ranking} {fuel : Nat}

theorem exists_split_cons {α : Type*} {P : List α → α → List α → Prop} {x : α} {list : List α} :
    (∃ front y later, x :: list = front ++ y :: later ∧ P front y later) ↔
      P [] x list ∨ ∃ front y later, list = front ++ y :: later ∧ P (x :: front) y later := by
  constructor
  · rintro ⟨front, y, later, heq, h⟩
    cases front with
    | nil =>
        cases heq
        exact Or.inl h
    | cons _ front =>
        cases heq
        exact Or.inr ⟨front, y, later, rfl, h⟩
  · rintro (h | ⟨front, y, later, rfl, h⟩)
    · exact ⟨[], x, list, rfl, h⟩
    · exact ⟨x :: front, y, later, rfl, h⟩

theorem getElem?_overlay_eq_zero (p : Nat) : (overlay buffer chars)[p]? = some 0 ↔
    chars[p]? = some 0 ∨ buffer[p]? = some 0 ∧ chars.length ≤ p := by
  rw [overlay]
  rcases Nat.lt_or_ge p chars.length with hlt | hge
  · rw [List.getElem?_append_left hlt, or_iff_left fun h => absurd h.2 (Nat.not_le.mpr hlt)]
  · rw [List.getElem?_append_right hge, List.getElem?_drop, Nat.add_sub_cancel' hge,
      List.getElem?_eq_none hge, and_iff_left hge]
    exact (or_iff_right nofun).symm

theorem getElem?_foldl_overlay (p : Nat) : (strings.foldl overlay buffer)[p]? = some 0 ↔
    (∃ front chars later, strings = front ++ chars :: later ∧ chars[p]? = some 0 ∧
      ∀ other ∈ later, other.length ≤ p) ∨
      buffer[p]? = some 0 ∧ ∀ other ∈ strings, other.length ≤ p := by
  induction strings generalizing buffer with
  | nil =>
      refine ⟨fun h => Or.inr ⟨h, fun other hmem => absurd hmem List.not_mem_nil⟩, ?_⟩
      rintro (⟨front, chars, later, hnil, -⟩ | ⟨h, -⟩)
      · simp at hnil
      · exact h
  | cons chars strings ih =>
      rw [List.foldl_cons, ih, getElem?_overlay_eq_zero, exists_split_cons,
        List.forall_mem_cons, or_and_right, and_assoc, ← or_assoc]
      exact or_congr_left or_comm

theorem zero_mem_arrayAfter : 0 ∈ arrayAfter strings ↔ Terminated strings := by
  have hnone : ∀ p : Nat, (List.replicate 64 uninitialised)[p]? ≠ some 0 := by
    intro p h
    have hzero : (0 : Byte) = uninitialised :=
      List.eq_of_mem_replicate (List.mem_of_getElem? h)
    exact absurd hzero (by decide)
  simp only [List.mem_iff_getElem?, arrayAfter, getElem?_foldl_overlay, hnone, false_and, or_false,
    Terminated]
  constructor
  · rintro ⟨p, front, chars, later, heq, h⟩
    exact ⟨front, chars, later, heq, p, h⟩
  · rintro ⟨front, chars, later, heq, p, h⟩
    exact ⟨p, front, chars, later, heq, h⟩

theorem arrayAfter_concat : arrayAfter (strings ++ [chars]) = overlay (arrayAfter strings) chars :=
  List.foldl_concat ..

theorem harmless_nil : Harmless names uniques [] := by
  intro front t later h
  simp at h

theorem harmless_cons : Harmless names uniques (t :: turns) ↔
    (t.Fits ∧ (t.next?.isSome = true →
      Terminated (names ++ [t.name]) ∧ Terminated (uniques ++ [t.unique]))) ∧
      Harmless (names ++ [t.name]) (uniques ++ [t.unique]) turns := by
  constructor
  · intro h
    refine ⟨h [] t turns rfl, fun front t' later heq => ?_⟩
    have hnext := h (t :: front) t' later (by rw [heq]; rfl)
    simpa only [List.append_assoc, List.cons_append, List.map_cons, List.nil_append] using hnext
  · rintro ⟨hfirst, hrest⟩ front t' later heq
    cases front with
    | nil =>
        cases heq
        exact hfirst
    | cons _ front =>
        cases heq
        have hnext := hrest front t' later rfl
        simpa only [List.append_assoc, List.cons_append, List.map_cons, List.nil_append]
          using hnext

theorem terminated_isSome : (terminated buffer).isSome = true ↔ 0 ∈ buffer := by
  rw [terminated]
  split
  next h => exact iff_of_true rfl h
  next h => exact iff_of_false Bool.false_ne_true h

theorem readChars_eq (i : BitVec 16) (file buffer : List Byte) : readChars i file buffer =
    if (file.take (charCount i)).length ≤ 64 then
      some (decide (charCount i ≤ file.length), overlay buffer (file.take (charCount i)),
        file.drop (charCount i))
    else none := by
  rw [readChars]
  dsimp only [fill]
  split <;> rfl

theorem takes_readShort : Takes readShort 2 := (takes_number 2).map _

theorem takes_readInt : Takes readInt 4 := (takes_number 4).map _

theorem takes_readInts (count : Nat) : ∃ width, Takes (readInts count) width := by
  induction count with
  | zero => exact ⟨0, takes_pure []⟩
  | succ count ih =>
      obtain ⟨width, hwidth⟩ := ih
      exact ⟨_, takes_readInt.bind fun first => hwidth.bind_pure _⟩

theorem takes_readStats : ∃ width, Takes readStats width := by
  obtain ⟨width, hwidth⟩ := takes_readInts 9
  refine ⟨4 + (4 + (4 + (4 + (4 + (4 + (4 + (4 + (4 + (4 + (4 + width)))))))))), ?_⟩
  refine takes_readInt.bind fun tks => takes_readInt.bind fun damage => ?_
  refine takes_readInt.bind fun deaths => takes_readInt.bind fun kills => ?_
  refine takes_readInt.bind fun shots => takes_readInt.bind fun hits => ?_
  refine takes_readInt.bind fun hs => takes_readInt.bind fun bDefusions => ?_
  refine takes_readInt.bind fun bDefused => takes_readInt.bind fun bPlants => ?_
  exact takes_readInt.bind fun bExplosions => hwidth.bind_pure _

theorem takes_readRest : ∃ width, Takes readRest width := by
  obtain ⟨width, hwidth⟩ := takes_readStats
  exact ⟨_, hwidth.bind fun d => takes_readShort.bind_pure _⟩

theorem Turn.length_next (h : t.next? = some t') : t'.ahead.length < t.ahead.length := by
  obtain ⟨rest, hrest, rfl⟩ := Option.map_eq_some_iff.mp h
  obtain ⟨u, hu, hrest⟩ := Option.bind_eq_some_iff.mp hrest
  rw [Turn.uniquelen?] at hu
  split at hu
  next =>
      split at hrest
      next =>
          obtain ⟨width, hwidth⟩ := takes_readRest
          have hshort := takes_readShort.length_le hu
          have hlong := hwidth.length_le hrest
          rw [List.length_drop] at hshort hlong
          dsimp only
          omega
      next => cases hrest
  next => cases hu

theorem harmless_last (hnext : t.next? = none) (fuel : Nat) :
    Harmless names uniques (t :: t.next?.elim [] (Turn.run fuel)) ↔ t.Fits := by
  rw [harmless_cons, hnext]
  exact (and_iff_left harmless_nil).trans (and_iff_left nofun)

theorem loadLoop_isSome_iff (script : Nat → Option Int) (hfuel : t.ahead.length < fuel)
    (h : Represents s r) :
    (loadLoop script fuel t.namelen t.ahead (arrayAfter uniques) (arrayAfter names) s).isSome
        = true ↔ Harmless names uniques (t.run fuel) := by
  induction fuel generalizing t names uniques s r with
  | zero => exact absurd hfuel (Nat.not_lt_zero _)
  | succ fuel ih =>
      rw [loadLoop, Turn.run]
      by_cases hend : t.namelen = 0
      · rw [if_pos hend, if_pos hend]
        exact iff_of_true rfl harmless_nil
      rw [if_neg hend, if_neg hend, readChars_eq, ← Turn.name]
      by_cases hname : t.name.length ≤ 64
      case neg =>
        rw [if_neg hname]
        exact iff_of_false Bool.false_ne_true fun h => hname (harmless_cons.mp h).1.1.1
      rw [if_pos hname, ← arrayAfter_concat]
      cases hu : t.uniquelen? with
      | none =>
          -- the file ends with the name, or within the second length
          have hunique : t.unique = [] := by rw [Turn.unique, hu]; rfl
          have hnext : t.next? = none := by rw [Turn.next?, Turn.rest?, hu]; rfl
          rw [harmless_last hnext]
          refine iff_of_true ?_ ⟨hname, by rw [hunique]; exact Nat.zero_le 64⟩
          rw [Turn.uniquelen?] at hu
          split at hu
          next hle => simp only [decide_eq_true hle, hu, Option.isSome_some]
          next hlt => simp only [decide_eq_false hlt, Option.isSome_some]
      | some u =>
          have hunique : t.unique = u.2.take (charCount u.1) := by rw [Turn.unique, hu]; rfl
          have hrest? : t.rest? = if charCount u.1 ≤ u.2.length then
              readRest (u.2.drop (charCount u.1)) else none := by rw [Turn.rest?, hu]; rfl
          rw [Turn.uniquelen?] at hu
          split at hu
          case isFalse => cases hu
          next hle =>
          simp only [decide_eq_true hle, hu]
          rw [readChars_eq, ← hunique]
          by_cases hfits : t.unique.length ≤ 64
          case neg =>
            rw [if_neg hfits]
            exact iff_of_false Bool.false_ne_true fun h => hfits (harmless_cons.mp h).1.1.2
          rw [if_pos hfits, ← arrayAfter_concat]
          cases hrest : t.rest? with
          | none =>
              have hnext : t.next? = none := by rw [Turn.next?, hrest]; rfl
              rw [harmless_last hnext]
              refine iff_of_true ?_ ⟨hname, hfits⟩
              rw [hrest?] at hrest
              split at hrest
              next hlong => simp only [decide_eq_true hlong, hrest, Option.isSome_some]
              next hshort => simp only [decide_eq_false hshort, Option.isSome_some]
          | some rest =>
              have hnext : t.next? = some ⟨rest.1.2, rest.2⟩ := by rw [Turn.next?, hrest]; rfl
              have hless := Turn.length_next hnext
              rw [hrest?] at hrest
              split at hrest
              case isFalse => cases hrest
              next hlong =>
              obtain ⟨⟨d, i⟩, file⟩ := rest
              simp only [decide_eq_true hlong, hrest]
              rw [harmless_cons, hnext, ← zero_mem_arrayAfter, ← zero_mem_arrayAfter]
              by_cases hterminated : 0 ∈ arrayAfter (names ++ [t.name]) ∧
                  0 ∈ arrayAfter (uniques ++ [t.unique])
              case neg =>
                refine iff_of_false (fun hsome => hterminated ?_) fun h => hterminated (h.1.2 rfl)
                obtain ⟨s', hs'⟩ := Option.isSome_iff_exists.mp hsome
                obtain ⟨unique, hunique, hs'⟩ := Option.bind_eq_some_iff.mp hs'
                obtain ⟨name, hname, -⟩ := Option.bind_eq_some_iff.mp hs'
                exact ⟨terminated_isSome.mp (Option.isSome_of_eq_some hname),
                  terminated_isSome.mp (Option.isSome_of_eq_some hunique)⟩
              obtain ⟨s₁, hfind, hr₁⟩ := h.findEntryInRank
                (.ofMemory (arrayAfter (uniques ++ [t.unique])))
                (.ofMemory (arrayAfter (names ++ [t.name]))) false
              obtain ⟨s₂, hupdate, hr₂⟩ := hr₁.updatePos
                (r.mem_findEntryInRank _ _ false) d (script fuel)
              have hnext' : _ ↔ Harmless (names ++ [t.name]) (uniques ++ [t.unique])
                  (Turn.run fuel ⟨i, file⟩) := ih (by dsimp only at hless ⊢; omega) hr₂
              rw [terminated, if_pos hterminated.2, terminated, if_pos hterminated.1]
              simp only [Option.bind_eq_bind, Option.bind_some, hfind, hupdate]
              rw [hnext']
              exact (and_iff_right ⟨⟨hname, hfits⟩, fun _ => hterminated⟩).symm

end

theorem exists_represents {events : List Event} {s : RankSystem}
    (hrun : run step .empty events = some s) : ∃ r, Represents s r := by
  have hrelated := Represents.run events
  rw [hrun] at hrelated
  generalize run Ranking.step .empty events = abstract at hrelated
  cases hrelated with
  | some h => exact ⟨_, h⟩

/-- Whatever the score script returns, a file is survived exactly where its turns are harmless. -/
theorem loadRank_isSome_iff {events : List Event} {s : RankSystem}
    (hrun : run step .empty events = some s) (script : Nat → Option Int) (file : List Byte) :
    (loadRankWith script (some file) s).isSome = true ↔
      ∀ t, firstTurn file = some t → Harmless [] [] (t.run (t.ahead.length + 1)) := by
  obtain ⟨r, h⟩ := exists_represents hrun
  rw [loadRankWith, firstTurn]
  have hnone : ∀ t : Turn, none ≠ some t := fun t => (Option.some_ne_none t).symm
  cases hversion : readShort file with
  | none => exact iff_of_true rfl fun t ht => absurd ht (hnone t)
  | some read =>
      obtain ⟨version, file⟩ := read
      simp only [Option.bind_eq_bind, Option.bind_some]
      split
      next hcurrent =>
          cases hlength : readShort file with
          | none => exact iff_of_true rfl fun t ht => absurd ht (hnone t)
          | some read =>
              have hloop : _ ↔ Harmless [] [] (Turn.run (read.2.length + 1) ⟨read.1, read.2⟩) :=
                loadLoop_isSome_iff script (Nat.lt_succ_self _) h
              refine hloop.trans ⟨fun hharmless t ht => ?_, fun hall => hall _ rfl⟩
              obtain rfl := Option.some.inj ht
              exact hharmless
      next => exact iff_of_true rfl fun t ht => absurd ht (hnone t)

def oneRecord : List Byte :=
  writeShort rankVersion ++ writeShort 2 ++ [97, 0] ++ writeShort 2 ++ [98, 0] ++
    writeStats .zero ++ writeShort 0

theorem loadRank_oneRecord : (loadRankWith (fun _ => none) (some oneRecord) .empty).isSome = true ∧
    ∀ t, firstTurn oneRecord = some t → Harmless [] [] (t.run (t.ahead.length + 1)) := by
  have hreads : (loadRankWith (fun _ => none) (some oneRecord) .empty).isSome = true := by
    decide +kernel
  exact ⟨hreads, (loadRank_isSome_iff (rfl : run step .empty [] = some .empty) (fun _ => none)
    oneRecord).mp hreads⟩

/-- A name of 65 characters. -/
theorem not_survived_longName : ¬ ∀ file, (loadRank (some file) .empty).isSome = true := by
  intro h
  have hlong := h (writeShort rankVersion ++ writeShort 65 ++ List.replicate 65 97)
  revert hlong
  decide +kernel

end AmxModC.Rank
