import AmxModC.Foundation.CString
import AmxModC.Foundation.Text

namespace AmxModC.Libraries

open Foundation

/-! libraries.cpp: the libraries and classes that plugins and modules have. -/

inductive LibSource
  | ofPlugin
  | ofModule
deriving DecidableEq

inductive LibType
  | library
  | libClass
deriving DecidableEq

structure Library where
  name : List Byte
  src : LibSource
  type : LibType
  parent : Nat
deriving DecidableEq

def strcasecmp (s t : List Byte) : Int := strcmp (s.map toLower) (t.map toLower)

def findLibrary (libs : List Library) (name : List Byte) (type : LibType) : Bool :=
  libs.any fun lib => decide (lib.type = type) && decide (strcasecmp lib.name name = 0)

def addLibrary (libs : List Library) (name : List Byte) (type : LibType) (src : LibSource)
    (parent : Nat) : Bool × List Library :=
  if findLibrary libs name type then (false, libs) else (true, libs ++ [⟨name, src, type, parent⟩])

def comma : Byte := 44

/-- `snprintf` into all but one of the 255 bytes, the terminator among them. -/
def bufferLength : Nat := 253

/-- The loop over the buffer; each turn takes a byte at least, so `fuel` is for the length. -/
def addLoop (type : LibType) (src : LibSource) (parent : Nat) :
    Nat → List Byte → List Library → Nat → List Library × Nat
  | 0, _, libs, count => (libs, count)
  | fuel + 1, p, libs, count =>
      if p = [] then (libs, count)
      else
        let (added, libs) := addLibrary libs (p.takeWhile (· ≠ comma)) type src parent
        let count := if added then count + 1 else count
        match p.dropWhile (· ≠ comma) with
        | [] => (libs, count)
        | _ :: p => addLoop type src parent fuel (p.dropWhile (· = comma)) libs count

def addLibrariesFromString (libs : List Library) (name : CString) (type : LibType)
    (src : LibSource) (parent : Nat) : List Library × Nat :=
  let buffer := name.bytes.take bufferLength
  addLoop type src parent buffer.length buffer libs 0

def eraseLoop (erased : Library → Bool) :
    List Library → List Library → Nat → List Library × Nat
  | passed, [], count => (passed, count)
  | passed, lib :: rest, count =>
      if erased lib then eraseLoop erased passed rest (count + 1)
      else eraseLoop erased (passed ++ [lib]) rest count

def clearLibraries (libs : List Library) (src : LibSource) : List Library × Nat :=
  eraseLoop (fun lib => decide (lib.src = src)) [] libs 0

def removeLibraries (libs : List Library) (parent : Nat) : List Library × Nat :=
  eraseLoop (fun lib => decide (lib.parent = parent)) [] libs 0

inductive Call
  | addLibrary (name : CString) (type : LibType) (src : LibSource) (parent : Nat)
  | addLibrariesFromString (name : CString) (type : LibType) (src : LibSource) (parent : Nat)
  | removeLibraries (parent : Nat)
  | clearLibraries (src : LibSource)

def step (libs : List Library) : Call → List Library
  | .addLibrary name type src parent => (addLibrary libs name.bytes type src parent).2
  | .addLibrariesFromString name type src parent =>
      (addLibrariesFromString libs name type src parent).1
  | .removeLibraries parent => (removeLibraries libs parent).1
  | .clearLibraries src => (clearLibraries libs src).1

/-! The registry as a set of names of each type, up to their case. -/

def SameName (s t : List Byte) : Prop := s.map toLower = t.map toLower

instance (s t : List Byte) : Decidable (SameName s t) :=
  inferInstanceAs (Decidable (s.map toLower = t.map toLower))

def Distinct (libs : List Library) : Prop :=
  libs.Pairwise fun a b => a.type = b.type → ¬ SameName a.name b.name

def registry (calls : List Call) : List Library := calls.foldl step []

def namesOf (text : List Byte) : List (List Byte) := (text.splitOn comma).filter (· ≠ [])

def known (libs : List Library) (type : LibType) : List (List Byte) :=
  (libs.filter (·.type = type)).map Library.name

def newNames (known : List (List Byte)) : List (List Byte) → List (List Byte)
  | [] => []
  | name :: rest =>
      if ∃ other ∈ known, SameName other name then newNames known rest
      else name :: newNames (known ++ [name]) rest

def AddsNames (libs : List Library) (text : CString) (type : LibType) (src : LibSource)
    (parent : Nat) : Prop :=
  addLibrariesFromString libs text type src parent =
    (libs ++ (newNames (known libs type) (namesOf text.bytes)).map (⟨·, src, type, parent⟩),
      (newNames (known libs type) (namesOf text.bytes)).length)

/-- All the new names are in the part that the buffer has, and there is no name before a
comma in front, or it is known. -/
structure Fits (libs : List Library) (text : CString) (type : LibType) : Prop where
  buffer : newNames (known libs type) (namesOf (text.bytes.take bufferLength)) =
    newNames (known libs type) (namesOf text.bytes)
  front : text.bytes.head? = some comma → ∃ other ∈ known libs type, other = []

section

variable {libs : List Library} {names : List (List Byte)} {name p q : List Byte}
  {type : LibType} {src : LibSource} {parent count fuel : Nat}

theorem strcasecmp_eq_zero {s t : List Byte} : strcasecmp s t = 0 ↔ SameName s t :=
  strcmp_eq_zero

theorem findLibrary_iff :
    findLibrary libs name type = true ↔ ∃ other ∈ known libs type, SameName other name := by
  simp only [findLibrary, known, List.any_eq_true, Bool.and_eq_true, decide_eq_true_eq,
    strcasecmp_eq_zero, List.mem_map, List.mem_filter]
  constructor
  · rintro ⟨lib, hlib, htype, hsame⟩
    exact ⟨lib.name, ⟨lib, ⟨hlib, htype⟩, rfl⟩, hsame⟩
  · rintro ⟨_, ⟨lib, ⟨hlib, htype⟩, rfl⟩, hsame⟩
    exact ⟨lib, hlib, htype, hsame⟩

theorem eraseLoop_eq (erased : Library → Bool) (passed rest : List Library) (count : Nat) :
    eraseLoop erased passed rest count =
      (passed ++ rest.filter (!erased ·), count + rest.countP erased) := by
  induction rest generalizing passed count with
  | nil =>
      rw [List.filter_nil, List.append_nil]
      rfl
  | cons lib rest ih =>
      rw [eraseLoop]
      cases herased : erased lib with
      | true =>
          rw [if_pos rfl, ih, List.filter_cons_of_neg (by simp [herased]),
            List.countP_cons_of_pos herased]
          congr 1
          omega
      | false =>
          rw [if_neg Bool.false_ne_true, ih, List.filter_cons_of_pos (by simp [herased]),
            List.countP_cons_of_neg (by simp [herased]), List.append_assoc,
            List.singleton_append]

theorem known_append (libs added : List Library) (type : LibType) :
    known (libs ++ added) type = known libs type ++ known added type := by
  rw [known, List.filter_append, List.map_append]
  rfl

/-! The loop over the list of names. -/

theorem namesOf_append (p q : List Byte) : namesOf (p ++ comma :: q) = namesOf p ++ namesOf q := by
  rw [namesOf, List.splitOn_append_cons_self, List.filter_append]
  rfl

theorem namesOf_free (h : comma ∉ p) : namesOf p = [p].filter (· ≠ []) := by
  rw [namesOf, List.splitOn_eq_singleton h]

theorem namesOf_dropWhile (p : List Byte) : namesOf (p.dropWhile (· = comma)) = namesOf p := by
  induction p with
  | nil => rfl
  | cons c p ih =>
      by_cases hc : c = comma
      · rw [List.dropWhile_cons_of_pos (by simpa using hc), ih, hc]
        exact (namesOf_append [] p).symm
      · rw [List.dropWhile_cons_of_neg (by simpa using hc)]

theorem ne_nil_of_mem_namesOf (h : name ∈ namesOf p) : name ≠ [] :=
  of_decide_eq_true (List.mem_filter.mp h).2

def listed (p : List Byte) : List (List Byte) :=
  if p.head? = some comma then [] :: namesOf p else namesOf p

theorem listed_dropWhile (p : List Byte) :
    listed (p.dropWhile (· = comma)) = namesOf p := by
  rw [listed, namesOf_dropWhile, if_neg]
  intro hhead
  have hfirst := List.head?_dropWhile_not (fun c => decide (c = comma)) p
  rw [hhead] at hfirst
  exact absurd hfirst (by simp)

theorem listed_comma (h : comma ∉ name) (q : List Byte) :
    listed (name ++ comma :: q) = name :: namesOf q := by
  rw [listed, namesOf_append, namesOf_free h]
  cases name with
  | nil => exact if_pos rfl
  | cons c name =>
      have hhead : ¬ (c :: name ++ comma :: q).head? = some comma := fun heq =>
        h (Option.some.inj heq ▸ List.mem_cons_self)
      rw [if_neg hhead]
      rfl

theorem listed_free (h : comma ∉ name) (hne : name ≠ []) : listed name = [name] := by
  have hhead : ¬ name.head? = some comma := fun heq => h (List.mem_of_head? heq)
  rw [listed, if_neg hhead, namesOf_free h]
  exact List.filter_cons_of_pos (decide_eq_true hne)

theorem addLibrary_eq (libs : List Library) (name : List Byte) (type : LibType) (src : LibSource)
    (parent : Nat) :
    addLibrary libs name type src parent =
      (decide (newNames (known libs type) [name] = [name]),
        libs ++ (newNames (known libs type) [name]).map (⟨·, src, type, parent⟩)) := by
  rw [addLibrary, newNames]
  by_cases hfound : ∃ other ∈ known libs type, SameName other name
  · rw [if_pos (findLibrary_iff.mpr hfound), if_pos hfound, newNames, List.map_nil,
      List.append_nil, decide_eq_false (List.cons_ne_nil name []).symm]
  · rw [if_neg (fun h => hfound (findLibrary_iff.mp h)), if_neg hfound, newNames,
      decide_eq_true rfl]
    rfl

theorem newNames_cons (known : List (List Byte)) (name : List Byte) (rest : List (List Byte)) :
    newNames known (name :: rest) =
      newNames known [name] ++ newNames (known ++ newNames known [name]) rest := by
  rw [newNames, newNames]
  split
  next => rw [newNames, List.append_nil, List.nil_append]
  next => rfl

theorem newNames_one (known : List (List Byte)) (name : List Byte) :
    newNames known [name] = [] ∨ newNames known [name] = [name] := by
  rw [newNames]
  split
  next => exact .inl rfl
  next => exact .inr rfl

theorem known_entries (names : List (List Byte)) (type : LibType) (src : LibSource)
    (parent : Nat) :
    known (names.map fun name => ⟨name, src, type, parent⟩) type = names := by
  rw [known, List.filter_eq_self.mpr, List.map_map]
  · exact List.map_id names
  · intro lib hlib
    obtain ⟨name, -, rfl⟩ := List.mem_map.mp hlib
    exact decide_eq_true rfl

theorem count_new (known : List (List Byte)) (name : List Byte) (count : Nat) :
    (if decide (newNames known [name] = [name]) then count + 1 else count) =
      count + (newNames known [name]).length := by
  rcases newNames_one known name with hnone | hone
  · rw [hnone, decide_eq_false (List.cons_ne_nil name []).symm]
    rfl
  · rw [hone, decide_eq_true rfl]
    rfl

theorem split_comma (p : List Byte) :
    comma ∉ p ∨ ∃ name q, comma ∉ name ∧ p = name ++ comma :: q := by
  by_cases h : comma ∈ p
  · obtain ⟨name, q, hp, hfree⟩ := List.eq_append_cons_of_mem h
    exact .inr ⟨name, q, hfree, hp⟩
  · exact .inl h

theorem listed_nil : listed [] = [] := by decide

theorem addLoop_eq (hfuel : p.length ≤ fuel) :
    addLoop type src parent fuel p libs count =
      (libs ++ (newNames (known libs type) (listed p)).map (⟨·, src, type, parent⟩),
        count + (newNames (known libs type) (listed p)).length) := by
  induction fuel generalizing p libs count with
  | zero =>
      obtain rfl := List.eq_nil_of_length_eq_zero (Nat.le_zero.mp hfuel)
      rw [addLoop, listed_nil, newNames, List.map_nil, List.append_nil]
      rfl
  | succ fuel ih =>
      have hnot : ∀ {name : List Byte}, comma ∉ name →
          ∀ c ∈ name, decide (c ≠ comma) = true := fun hfree c hc =>
        decide_eq_true fun heq => hfree (heq ▸ hc)
      rw [addLoop]
      rcases split_comma p with hfree | ⟨name, q, hfree, rfl⟩
      · by_cases hnil : p = []
        · subst hnil
          rw [if_pos rfl, listed_nil, newNames, List.map_nil, List.append_nil]
          rfl
        · rw [if_neg hnil, List.takeWhile_eq_self_iff.mpr (hnot hfree),
            List.dropWhile_eq_nil_iff.mpr (hnot hfree), addLibrary_eq, listed_free hfree hnil]
          dsimp only
          rw [count_new]
      · have hcomma : decide (comma ≠ comma) = false := by decide
        rw [if_neg (List.append_ne_nil_of_right_ne_nil _ (List.cons_ne_nil _ _)),
          List.takeWhile_append_of_pos (hnot hfree), List.dropWhile_append_of_pos (hnot hfree),
          List.takeWhile_cons, List.dropWhile_cons, hcomma, if_neg Bool.false_ne_true,
          if_neg Bool.false_ne_true, List.append_nil, addLibrary_eq, listed_comma hfree]
        dsimp only
        rw [List.length_append, List.length_cons] at hfuel
        have hlength := List.length_dropWhile_le (fun c => decide (c = comma)) q
        rw [ih (by omega), known_append, known_entries, listed_dropWhile, count_new,
          newNames_cons _ name (namesOf q), List.map_append, List.append_assoc, List.length_append,
          Nat.add_assoc]

theorem listed_take (text : List Byte) :
    listed (text.take bufferLength) =
      if text.head? = some comma then [] :: namesOf (text.take bufferLength)
      else namesOf (text.take bufferLength) := by
  have hpos : bufferLength ≠ 0 := by decide
  rw [listed, List.head?_take, if_neg hpos]

theorem addLibrariesFromString_eq (libs : List Library) (text : CString) (type : LibType)
    (src : LibSource) (parent : Nat) :
    addLibrariesFromString libs text type src parent =
      (libs ++ (newNames (known libs type) (listed (text.bytes.take bufferLength))).map
          (⟨·, src, type, parent⟩),
        (newNames (known libs type) (listed (text.bytes.take bufferLength))).length) := by
  rw [addLibrariesFromString, addLoop_eq le_rfl, Nat.zero_add]

theorem addsNames_iff_newNames (libs : List Library) (text : CString) (type : LibType)
    (src : LibSource) (parent : Nat) :
    AddsNames libs text type src parent ↔
      newNames (known libs type) (listed (text.bytes.take bufferLength)) =
        newNames (known libs type) (namesOf text.bytes) := by
  have hentry : ∀ s t : List Byte, (⟨s, src, type, parent⟩ : Library) = ⟨t, src, type, parent⟩ →
      s = t := fun _ _ => congrArg Library.name
  rw [AddsNames, addLibrariesFromString_eq, Prod.mk.injEq, List.append_cancel_left_eq,
    List.map_inj_right hentry]
  exact ⟨And.left, fun hnames => ⟨hnames, congrArg List.length hnames⟩⟩

theorem sameName_nil {other : List Byte} : SameName other [] ↔ other = [] := List.map_eq_nil_iff

theorem mem_of_mem_newNames {known names : List (List Byte)} (h : name ∈ newNames known names) :
    name ∈ names := by
  induction names generalizing known with
  | nil => exact h
  | cons first rest ih =>
      rw [newNames] at h
      split at h
      next => exact List.mem_cons_of_mem _ (ih h)
      next =>
          rcases List.mem_cons.mp h with rfl | hrest
          · exact List.mem_cons_self
          · exact List.mem_cons_of_mem _ (ih hrest)

theorem addsNames_iff (libs : List Library) (text : CString) (type : LibType)
    (src : LibSource) (parent : Nat) :
    AddsNames libs text type src parent ↔ Fits libs text type := by
  rw [addsNames_iff_newNames, listed_take]
  by_cases hhead : text.bytes.head? = some comma
  · rw [if_pos hhead, newNames]
    by_cases hknown : ∃ other ∈ known libs type, SameName other []
    · rw [if_pos hknown]
      obtain ⟨other, hother, hempty⟩ := hknown
      exact ⟨fun hnames => ⟨hnames, fun _ => ⟨other, hother, sameName_nil.mp hempty⟩⟩, Fits.buffer⟩
    · rw [if_neg hknown]
      refine iff_of_false (fun hnames => ?_) fun hfits => hknown ?_
      · have hmem : [] ∈ newNames (known libs type) (namesOf text.bytes) := by
          rw [← hnames]
          exact List.mem_cons_self
        exact ne_nil_of_mem_namesOf (mem_of_mem_newNames hmem) rfl
      · obtain ⟨other, hother, hempty⟩ := hfits.front hhead
        exact ⟨other, hother, sameName_nil.mpr hempty⟩
  · rw [if_neg hhead]
    exact ⟨fun hnames => ⟨hnames, fun hcomma => absurd hcomma hhead⟩, Fits.buffer⟩

/-! Every step. -/

theorem distinct_newNames (known names : List (List Byte)) :
    (newNames known names).Pairwise (fun s t => ¬ SameName s t) ∧
      ∀ name ∈ newNames known names, ∀ other ∈ known, ¬ SameName other name := by
  induction names generalizing known with
  | nil => exact ⟨.nil, fun _ hmem => absurd hmem List.not_mem_nil⟩
  | cons name rest ih =>
      rw [newNames]
      split
      next => exact ih known
      next hnew =>
          obtain ⟨hpairs, hother⟩ := ih (known ++ [name])
          rw [List.pairwise_cons]
          refine ⟨⟨fun later hlater => ?_, hpairs⟩, fun later hlater other hknown hsame => ?_⟩
          · exact hother later hlater name (List.mem_append_right _ (List.mem_singleton_self name))
          · rcases List.mem_cons.mp hlater with rfl | hrest
            · exact hnew ⟨other, hknown, hsame⟩
            · exact hother later hrest other (List.mem_append_left _ hknown) hsame

theorem distinct_append (h : Distinct libs) (names : List (List Byte)) (type : LibType)
    (src : LibSource) (parent : Nat) :
    Distinct (libs ++ (newNames (known libs type) names).map (⟨·, src, type, parent⟩)) := by
  obtain ⟨hpairs, hknown⟩ := distinct_newNames (known libs type) names
  rw [Distinct, List.pairwise_append, List.pairwise_map]
  refine ⟨h, ?_, fun lib hlib added hadded htype => ?_⟩
  · refine hpairs.imp ?_
    exact fun hne _ => hne
  · obtain ⟨name, hname, rfl⟩ := List.mem_map.mp hadded
    refine hknown name hname lib.name ?_
    exact List.mem_map_of_mem (List.mem_filter.mpr ⟨hlib, decide_eq_true htype⟩)

theorem clearLibraries_eq (libs : List Library) (src : LibSource) :
    clearLibraries libs src = (libs.filter (·.src ≠ src), libs.countP (·.src = src)) := by
  rw [clearLibraries, eraseLoop_eq, Nat.zero_add]
  simp only [List.nil_append, decide_not]

theorem removeLibraries_eq (libs : List Library) (parent : Nat) :
    removeLibraries libs parent =
      (libs.filter (·.parent ≠ parent), libs.countP (·.parent = parent)) := by
  rw [removeLibraries, eraseLoop_eq, Nat.zero_add]
  simp only [List.nil_append, decide_not]

theorem distinct_step (h : Distinct libs) (call : Call) : Distinct (step libs call) := by
  cases call with
  | addLibrary name type src parent =>
      rw [step, addLibrary_eq]
      exact distinct_append h [name.bytes] type src parent
  | addLibrariesFromString name type src parent =>
      rw [step, addLibrariesFromString_eq]
      exact distinct_append h _ type src parent
  | removeLibraries parent =>
      rw [step, removeLibraries_eq]
      exact h.sublist List.filter_sublist
  | clearLibraries src =>
      rw [step, clearLibraries_eq]
      exact h.sublist List.filter_sublist

theorem distinct_run (h : Distinct libs) (calls : List Call) :
    Distinct (calls.foldl step libs) := by
  induction calls generalizing libs with
  | nil => exact h
  | cons call calls ih => exact ih (distinct_step h call)

/-- In every state no name is there twice, a removal takes what it is to take, and a list of
names counts what it adds; it adds the new names if and only if it fits. -/
theorem registry_of_run (calls : List Call) :
    Distinct (registry calls) ∧
      (∀ parent, removeLibraries (registry calls) parent =
        ((registry calls).filter (·.parent ≠ parent),
          (registry calls).countP (·.parent = parent))) ∧
      (∀ src, clearLibraries (registry calls) src =
        ((registry calls).filter (·.src ≠ src), (registry calls).countP (·.src = src))) ∧
      ∀ text type src parent,
        (∃ names : List (List Byte), addLibrariesFromString (registry calls) text type src parent =
          (registry calls ++ names.map (⟨·, src, type, parent⟩), names.length)) ∧
        (AddsNames (registry calls) text type src parent ↔ Fits (registry calls) text type) :=
  ⟨distinct_run .nil calls, removeLibraries_eq _, clearLibraries_eq _, fun text type src parent =>
    ⟨⟨_, addLibrariesFromString_eq _ text type src parent⟩, addsNames_iff _ text type src parent⟩⟩

def overlong : CString where
  bytes := List.replicate bufferLength 97 ++ [44, 98]
  noNul := by
    rw [List.mem_append, not_or]
    exact ⟨fun hmem => absurd (List.eq_of_mem_replicate hmem) (by decide), by decide⟩

/-- The second name is lost; and a comma in front makes a name of nothing. -/
theorem not_addsNames_overlong :
    addLibrariesFromString [] overlong .library .ofModule 1 =
        ([⟨List.replicate bufferLength 97, .ofModule, .library, 1⟩], 1) ∧
      ¬ AddsNames [] overlong .library .ofModule 1 ∧
      addLibrariesFromString [] ⟨[44, 97], by decide⟩ .library .ofModule 1 =
        ([⟨[], .ofModule, .library, 1⟩, ⟨[97], .ofModule, .library, 1⟩], 2) ∧
      ¬ AddsNames [] ⟨[44, 97], by decide⟩ .library .ofModule 1 := by
  refine ⟨by decide +kernel, ?_, by decide, ?_⟩
  · rw [AddsNames]
    decide +kernel
  · rw [AddsNames]
    decide

end

end AmxModC.Libraries
