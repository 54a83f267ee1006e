import Mathlib.Data.List.Basic
import AmxModC.Regex.Model

namespace AmxModC.Regex

open Foundation

/-! The handles of the module as a table of uses: the natives keep the objects in step with
it, and answer from it as far as the vector and the buffer reach. -/

variable {pcre : Pcre}

def Use.subStrings (use : Use) : Int := use.latest.elim 0 fun latest => max 0 latest.2.rc

def RegEx.Fits (x : RegEx pcre) : Option Use → Prop
  | none => x.mFree = true ∧ x.subject = none ∧ x.mSubStrings = 0
  | some use => x.mFree = false ∧ x.mSubStrings = use.subStrings ∧
      ∃ code, x.re = some code ∧ pcre.compile use.pattern (iFlags use.flags) = .inl code ∧
        ∀ latest ∈ use.latest, latest.2 = pcre.exec code latest.1 ∧
          (0 ≤ latest.2.rc → x.subject = some latest.1 ∧
            x.ovector = (latest.2.all.take Matching.room).flatMap Matching.offsets)

namespace RegEx

variable {x : RegEx pcre} {use : Use}

theorem fits_new : (new : RegEx pcre).Fits none := ⟨rfl, rfl, rfl⟩

theorem fits_clear (x : RegEx pcre) : x.clear.Fits none := ⟨rfl, rfl, rfl⟩

theorem compile_free (h : x.Fits none) (pattern : CString) (flags : Option CString) :
    (∃ code, pcre.compile pattern (iFlags flags) = .inl code ∧
      (x.compile pattern flags).2 = true ∧ (x.compile pattern flags).1.re = some code ∧
        (x.compile pattern flags).1.Fits (some ⟨pattern, flags, none⟩)) ∨
    (∃ error, pcre.compile pattern (iFlags flags) = .inr error ∧
      (x.compile pattern flags).2 = false ∧ (x.compile pattern flags).1.Fits none) := by
  obtain ⟨hfree, hsubject, hcount⟩ := h
  unfold compile
  rw [if_pos hfree]
  cases hcompile : pcre.compile pattern (iFlags flags) with
  | inl code =>
      refine .inl ⟨code, rfl, rfl, rfl, rfl, hcount, code, rfl, hcompile, ?_⟩
      intro latest hlatest
      cases hlatest
  | inr error => exact .inr ⟨error, rfl, rfl, hfree, hsubject, hcount⟩

def rematch (use : Use) (str : CString) (matching : Matching) : Use :=
  { use with latest := some (str, matching) }

theorem rc_matched (whole : Nat × Nat) (groups : List (Option (Nat × Nat))) :
    0 ≤ (Matching.matched whole groups).rc := by
  unfold Matching.rc
  dsimp only
  split
  · exact Int.natCast_nonneg (groups.length + 1)
  · exact le_rfl

theorem rc_error (code : Nat) :
    (Matching.error code).rc < 0 ∧ (Matching.error code).rc ≠ pcreErrorNomatch := by
  simp only [Matching.rc, pcreErrorNomatch]
  omega

theorem matchSubject_fits (h : x.Fits (some use)) (str : CString) :
    ∃ matching, pcre.matching? use.pattern use.flags str = some matching ∧
      ((0 ≤ matching.rc ∧ (x.matchSubject str).2 = 1 ∧
          (x.matchSubject str).1.mSubStrings = matching.rc ∧
            (x.matchSubject str).1.Fits (some (rematch use str matching))) ∨
        (matching.rc < 0 ∧ (x.matchSubject str).2 = (if matching = .noMatch then 0 else -1) ∧
          (x.matchSubject str).1.clearMatch.Fits (some (rematch use str matching)))) := by
  obtain ⟨hbusy, hcount, code, hre, hcompile, hlatest⟩ := h
  refine ⟨pcre.exec code str, by rw [Pcre.matching?, hcompile], ?_⟩
  have hfits : ∀ y : RegEx pcre, y.mFree = false → y.re = some code →
      y.mSubStrings = max 0 (pcre.exec code str).rc →
        (0 ≤ (pcre.exec code str).rc → y.subject = some str ∧
          y.ovector = ((pcre.exec code str).all.take Matching.room).flatMap Matching.offsets) →
            y.Fits (some (rematch use str (pcre.exec code str))) := by
    intro y hfree hcode hnumber hvector
    refine ⟨hfree, hnumber, code, hcode, hcompile, ?_⟩
    rintro latest ⟨⟩
    exact ⟨rfl, hvector⟩
  have hmatch : ∀ matching, pcre.exec code str = matching → x.matchSubject str =
      let y := { x.clearMatch with subject := some str, ovector := matching.ovector x.ovector }
      if matching.rc < 0 then
        if matching.rc = pcreErrorNomatch then (y, 0)
        else ({ y with mErrorOffset := matching.rc }, -1)
      else ({ y with mSubStrings := matching.rc }, 1) := by
    rintro matching rfl
    simp [matchSubject, hbusy, hre, clearMatch]
  cases hexec : pcre.exec code str with
  | matched whole groups =>
      have hrc := rc_matched whole groups
      rw [hexec] at hfits
      rw [hmatch _ hexec]
      dsimp only
      rw [if_neg (not_lt.mpr hrc)]
      exact .inl ⟨hrc, rfl, rfl, hfits _ hbusy hre (max_eq_right hrc).symm fun _ => ⟨rfl, rfl⟩⟩
  | noMatch =>
      have hrc : Matching.noMatch.rc < 0 := by decide
      rw [hexec] at hfits
      rw [hmatch _ hexec]
      dsimp only
      rw [if_pos hrc, if_pos rfl]
      exact .inr ⟨hrc, rfl, hfits _ hbusy hre (max_eq_left hrc.le).symm
        fun hpos => absurd hpos (not_le.mpr hrc)⟩
  | error number =>
      obtain ⟨hrc, hne⟩ := rc_error number
      rw [hexec] at hfits
      rw [hmatch _ hexec]
      dsimp only
      rw [if_pos hrc, if_neg hne]
      exact .inr ⟨hrc, rfl, hfits _ hbusy hre (max_eq_left hrc.le).symm
        fun hpos => absurd hpos (not_le.mpr hrc)⟩

end RegEx

section

variable {PEL : List (RegEx pcre)} {id : Nat} {x : RegEx pcre}

theorem getElem?_objectAt (h : id < PEL.length) : PEL[id]? = some (objectAt PEL id) := by
  rw [objectAt, List.getElem?_eq_getElem h]
  rfl

theorem getPEL_lt (PEL : List (RegEx pcre)) : (getPEL PEL).2 < (getPEL PEL).1.length := by
  unfold getPEL
  dsimp only
  split
  next h => exact h
  next h =>
    have hle : PEL.findIdx RegEx.mFree ≤ PEL.length := List.findIdx_le_length
    simp only [List.length_append, List.length_singleton]
    omega

theorem getPEL_old {j : Nat} (hx : PEL[j]? = some x) : (getPEL PEL).1[j]? = some x := by
  unfold getPEL
  dsimp only
  split
  next => exact hx
  next => rw [List.getElem?_append_left (List.getElem?_eq_some_iff.mp hx).1, hx]

theorem getPEL_new {j : Nat} (hx : (getPEL PEL).1[j]? = some x) :
    PEL[j]? = some x ∨ (j = PEL.length ∧ x = .new) := by
  unfold getPEL at hx
  dsimp only at hx
  split at hx
  next => exact .inl hx
  next =>
    rw [List.getElem?_append] at hx
    split at hx
    next => exact .inl hx
    next hge =>
      rw [List.getElem?_singleton] at hx
      split at hx
      next hzero => exact .inr ⟨by omega, (Option.some.inj hx).symm⟩
      next => cases hx

theorem getPEL_free (PEL : List (RegEx pcre)) :
    (objectAt (getPEL PEL).1 (getPEL PEL).2).mFree = true := by
  have hx := getElem?_objectAt (getPEL_lt PEL)
  rcases getPEL_new hx with hold | ⟨-, hnew⟩
  · obtain ⟨hlt, heq⟩ := List.getElem?_eq_some_iff.mp hold
    rw [← heq]
    exact List.findIdx_getElem (w := hlt)
  · rw [hnew]
    rfl

end

namespace Session

structure Sound (s : Session pcre) : Prop where
  fits : ∀ {id : Nat} {x : RegEx pcre}, s.PEL[id]? = some x → x.Fits (s.uses (id + 1))
  outside : ∀ {handle : Int}, (∀ id : Nat, id < s.PEL.length → handle ≠ id + 1) →
    s.uses handle = none

variable {s : Session pcre}

theorem sound_start : (start : Session pcre).Sound where
  fits h := by simp [start] at h
  outside _ := rfl

theorem Sound.isFree_iff (h : s.Sound) {id : Nat} {x : RegEx pcre} (hx : s.PEL[id]? = some x) :
    x.mFree = true ↔ s.uses (id + 1) = none := by
  have hfits := h.fits hx
  cases huse : s.uses (id + 1) with
  | none =>
      rw [huse] at hfits
      exact iff_of_true hfits.1 rfl
  | some use =>
      rw [huse] at hfits
      exact iff_of_false (by simp [hfits.1]) nofun

theorem Sound.lt_of_uses (h : s.Sound) {id : Nat} (huse : (s.uses (id + 1)).isSome) :
    id < s.PEL.length := by
  by_contra hge
  rw [h.outside fun other hother => by omega] at huse
  cases huse

theorem Sound.object?_eq_some (h : s.Sound) {handle : Int} {id : Nat} :
    object? s.PEL handle = some id ↔ handle = id + 1 ∧ (s.uses handle).isSome := by
  unfold object?
  dsimp only
  constructor
  · intro hobject
    split at hobject
    next => cases hobject
    next hcheck =>
      obtain rfl := Option.some.inj hobject
      rw [not_or, not_or] at hcheck
      obtain ⟨hlt, hpos, hbusy⟩ := hcheck
      have hid : handle = (handle - 1).toNat + 1 := by omega
      have hx : s.PEL[(handle - 1).toNat]? = some (objectAt s.PEL (handle - 1).toNat) :=
        getElem?_objectAt (by omega)
      refine ⟨hid, ?_⟩
      rw [hid, Option.isSome_iff_ne_none, ne_eq, ← h.isFree_iff hx]
      exact hbusy
  · rintro ⟨rfl, huse⟩
    have hlt := h.lt_of_uses huse
    have hbusy : (objectAt s.PEL id).mFree ≠ true := by
      rw [ne_eq, h.isFree_iff (getElem?_objectAt hlt)]
      exact Option.isSome_iff_ne_none.mp huse
    have hback : ((id : Int) + 1 - 1).toNat = id := by omega
    rw [hback, if_neg]
    rintro (hge | hneg | hfree)
    · omega
    · omega
    · exact hbusy hfree

theorem Sound.accepted (h : s.Sound) (handle : Int) :
    (object? s.PEL handle).isSome ↔ (s.uses handle).isSome := by
  constructor
  · intro hobject
    obtain ⟨id, hid⟩ := Option.isSome_iff_exists.mp hobject
    exact (h.object?_eq_some.mp hid).2
  · intro huse
    have hid : ∃ id < s.PEL.length, handle = ((id : Nat) : Int) + 1 := by
      by_contra hnone
      rw [h.outside fun id hlt heq => hnone ⟨id, hlt, heq⟩] at huse
      cases huse
    obtain ⟨id, -, hhandle⟩ := hid
    rw [h.object?_eq_some.mpr ⟨hhandle, huse⟩]
    rfl

theorem Sound.uses_of_object?_none (h : s.Sound) {handle : Int}
    (hobject : object? s.PEL handle = none) : s.uses handle = none := by
  have haccepted := h.accepted handle
  rw [hobject] at haccepted
  exact Option.not_isSome_iff_eq_none.mp fun hsome => nomatch haccepted.mpr hsome

theorem Sound.getPEL (h : s.Sound) :
    (⟨(getPEL s.PEL).1, s.uses⟩ : Session pcre).Sound where
  fits hx := by
    rcases getPEL_new hx with hold | ⟨rfl, rfl⟩
    · exact h.fits hold
    · have hnone : s.uses (s.PEL.length + 1) = none := h.outside fun other hother => by omega
      change RegEx.Fits _ (s.uses _)
      rw [hnone]
      exact RegEx.fits_new
  outside hhandle := by
    refine h.outside fun id hid => hhandle id ?_
    have hold := getPEL_old (List.getElem?_eq_getElem hid)
    exact (List.getElem?_eq_some_iff.mp hold).1

theorem Sound.getPEL_fits (h : s.Sound) :
    s.uses ((Regex.getPEL s.PEL).2 + 1) = none ∧
      (objectAt (Regex.getPEL s.PEL).1 (Regex.getPEL s.PEL).2).Fits none := by
  have hx := getElem?_objectAt (getPEL_lt s.PEL)
  have huse := (h.getPEL.isFree_iff hx).mp (getPEL_free s.PEL)
  refine ⟨huse, ?_⟩
  have hfits := h.getPEL.fits hx
  rwa [huse] at hfits

theorem Sound.set (h : s.Sound) {id : Nat} (hid : id < s.PEL.length) {x : RegEx pcre}
    {use : Option Use} (hx : x.Fits use) :
    (⟨s.PEL.set id x, Function.update s.uses (id + 1) use⟩ : Session pcre).Sound where
  fits {other y} hy := by
    rw [List.getElem?_set] at hy
    split at hy
    next heq =>
      subst heq
      obtain rfl := Option.some.inj hy
      have hself : Function.update s.uses (id + 1) use (id + 1) = use := Function.update_self ..
      exact (congrArg x.Fits hself).mpr hx
    next hne =>
      have hhandle : (other : Int) + 1 ≠ id + 1 := by omega
      have hold : Function.update s.uses (id + 1) use (other + 1) = s.uses (other + 1) :=
        Function.update_of_ne hhandle ..
      exact (congrArg y.Fits hold).mpr (h.fits hy)
  outside {handle} hhandle := by
    rw [List.length_set] at hhandle
    exact (Function.update_of_ne (hhandle id hid) ..).trans (h.outside hhandle)

theorem Sound.setFree (h : s.Sound) {id : Nat} (hid : id < s.PEL.length) {x : RegEx pcre}
    (hx : x.Fits none) (huse : s.uses (id + 1) = none) :
    (⟨s.PEL.set id x, s.uses⟩ : Session pcre).Sound := by
  have hset := h.set hid hx
  rwa [← huse, Function.update_eq_self] at hset

theorem handOut_pos {uses : Int → Option Use} {answer : Answer} (h : 0 < answer.value)
    (use : Use) : handOut uses answer use = Function.update uses answer.value (some use) :=
  if_pos h

theorem handOut_not {uses : Int → Option Use} {answer : Answer} (h : ¬ 0 < answer.value)
    (use : Use) : handOut uses answer use = uses :=
  if_neg h

theorem Sound.compile (h : s.Sound) (pattern : CString) (maxLen : Int) (flags : CString) :
    (s.call (.compile pattern maxLen flags)).1.Sound ∧
      s.Answered (s.call (.compile pattern maxLen flags)).2 (.compile pattern maxLen flags) := by
  obtain ⟨huse, hfree⟩ := h.getPEL_fits
  have hlt := getPEL_lt s.PEL
  simp only [call, regexCompile]
  rcases RegEx.compile_free hfree pattern (some flags) with
    ⟨code, hcode, htrue, hre, hfits⟩ | ⟨error, herror, hfalse, hfits⟩
  · rw [htrue, if_pos rfl, handOut_pos (Int.lt_add_one_of_le (Int.natCast_nonneg _))]
    exact ⟨h.getPEL.set hlt hfits, fun _ => huse⟩
  · have hnot : ¬ 0 < (-1 : Int) := by decide
    rw [hfalse, if_neg Bool.false_ne_true, handOut_not hnot]
    exact ⟨h.getPEL.setFree hlt hfits huse, fun hpos => absurd hpos hnot⟩

theorem Sound.matchNew (h : s.Sound) (str pattern : CString) (maxLen : Int)
    (flags : Option CString) :
    (s.call (.matchNew str pattern maxLen flags)).1.Sound ∧
      s.Answered (s.call (.matchNew str pattern maxLen flags)).2
        (.matchNew str pattern maxLen flags) := by
  obtain ⟨huse, hfree⟩ := h.getPEL_fits
  have hlt := getPEL_lt s.PEL
  simp only [call, regexMatch]
  rcases RegEx.compile_free hfree pattern flags with
    ⟨code, hcode, htrue, hre, hfits⟩ | ⟨error, herror, hfalse, hfits⟩
  · obtain ⟨matching, hmatching, hcase⟩ := RegEx.matchSubject_fits hfits str
    dsimp only at hmatching
    have hpos : (0 : Int) < (Regex.getPEL s.PEL).2 + 1 :=
      Int.lt_add_one_of_le (Int.natCast_nonneg _)
    rcases hcase with ⟨hrc, he, hcount, hmatch⟩ | ⟨hrc, he, hmatch⟩
    · simp only [htrue, he, if_true, hmatching, Option.map_some]
      rw [if_neg (by decide), if_neg (by decide), handOut_pos hpos]
      refine ⟨h.getPEL.set hlt hmatch, fun _ => huse, iff_of_false hpos.ne' ?_⟩
      intro hsame
      rw [hmatching] at hsame
      cases hsame
      exact absurd hrc (by decide)
    · have hnot : ∀ value : Int, value ≤ 0 → ¬ 0 < value := fun _ => not_lt.mpr
      simp only [htrue, he, if_true]
      cases matching with
      | matched whole groups => exact absurd hrc (not_lt.mpr (RegEx.rc_matched whole groups))
      | noMatch =>
          simp only [if_true]
          rw [if_neg (by decide), handOut_not (hnot 0 le_rfl)]
          exact ⟨h.getPEL.setFree hlt (RegEx.fits_clear _) huse,
            fun hpos => absurd hpos (lt_irrefl _), iff_of_true rfl hmatching⟩
      | error number =>
          have hfail : ¬ (-2 : Int) = 0 := by decide
          simp only [reduceCtorEq, if_false, if_true]
          rw [handOut_not (hnot (-2) (by decide))]
          refine ⟨h.getPEL.setFree hlt (RegEx.fits_clear _) huse,
            fun hpos => absurd hpos (hnot (-2) (by decide)), iff_of_false hfail ?_⟩
          rw [hmatching]
          exact nofun
  · have hnot : ¬ 0 < (-1 : Int) := by decide
    have hnone : pcre.matching? pattern flags str = none := by rw [Pcre.matching?, herror]
    simp only [hfalse, Bool.false_eq_true, if_false]
    rw [handOut_not hnot]
    refine ⟨h.getPEL.setFree hlt hfits huse, fun hpos => absurd hpos hnot, ?_⟩
    rw [hnone]
    exact iff_of_false (show ¬ (-1 : Int) = 0 by decide) nofun

end Session

theorem Matching.rc_eq_zero_iff (matching : Matching) :
    matching.rc = 0 ↔ ¬ matching.all.length ≤ room := by
  cases matching with
  | noMatch => decide
  | error number =>
      have hrc := (RegEx.rc_error number).1.ne
      exact iff_of_false hrc (not_not.mpr (Nat.zero_le _))
  | matched whole groups =>
      simp only [rc, all, List.length_cons]
      split <;> omega

namespace Session

variable {s : Session pcre}

section

variable {str : CString} {handle : Int} {use : Use} {matching : Matching}

theorem Sound.answered_matchC (h : s.Sound) (huse : s.uses handle = some use)
    (hmatching : pcre.matching? use.pattern use.flags str = some matching) (answer : Answer) :
    s.Answered answer (.matchC str handle) ↔ (answer.value = 0 ↔ matching = .noMatch) := by
  have hnew : ∀ maxLen, (regexMatch s.PEL str use.pattern maxLen use.flags).2.value = 0 ↔
      matching = .noMatch := by
    intro maxLen
    have hanswered := (h.matchNew str use.pattern maxLen use.flags).2.2
    rw [hmatching, Option.some_inj] at hanswered
    exact hanswered
  constructor
  · intro hanswered
    have hiff := (hanswered use huse).1
    rwa [hmatching, Option.some_inj] at hiff
  · intro hiff other hother
    obtain rfl := Option.some.inj (huse.symm.trans hother)
    refine ⟨?_, fun maxLen => hiff.trans (hnew maxLen).symm⟩
    rw [hmatching, Option.some_inj]
    exact hiff

theorem allowed_matchC (huse : s.uses handle = some use)
    (hmatching : pcre.matching? use.pattern use.flags str = some matching) :
    s.Allowed (.matchC str handle) ↔ matching.all.length ≤ Matching.room := by
  constructor
  · intro hallowed
    exact hallowed use matching huse hmatching
  · intro hroom other other' hother hother'
    obtain rfl := Option.some.inj (huse.symm.trans hother)
    obtain rfl := Option.some.inj (hmatching.symm.trans hother')
    exact hroom

end

theorem Sound.matchC (h : s.Sound) (str : CString) (handle : Int) :
    (s.call (.matchC str handle)).1.Sound ∧
      (s.Answered (s.call (.matchC str handle)).2 (.matchC str handle) ↔
        s.Allowed (.matchC str handle)) := by
  simp only [call, regexMatchC]
  cases hobject : object? s.PEL handle with
  | none =>
      have huse := h.uses_of_object?_none hobject
      refine ⟨?_, iff_of_true (fun use hsome => ?_) fun use matching hsome => ?_⟩
      · dsimp only
        rw [huse, Option.map_none, ← huse, Function.update_eq_self]
        exact h
      · rw [huse] at hsome
        cases hsome
      · rw [huse] at hsome
        cases hsome
  | some id =>
      obtain ⟨rfl, hsome⟩ := h.object?_eq_some.mp hobject
      obtain ⟨use, huse⟩ := Option.isSome_iff_exists.mp hsome
      have hlt := h.lt_of_uses hsome
      have hfits := h.fits (getElem?_objectAt hlt)
      rw [huse] at hfits
      obtain ⟨matching, hmatching, hcase⟩ := RegEx.matchSubject_fits hfits str
      rw [h.answered_matchC huse hmatching, allowed_matchC huse hmatching, huse]
      simp only [Option.map_some, hmatching]
      rcases hcase with ⟨hrc, he, hcount, hmatch⟩ | ⟨hrc, he, hmatch⟩
      · simp only [he]
        rw [if_neg (by decide), if_neg (by decide)]
        refine ⟨h.set hlt hmatch, ?_⟩
        have hne : matching ≠ .noMatch := by
          rintro rfl
          exact absurd hrc (by decide)
        dsimp only
        rw [hcount, matching.rc_eq_zero_iff, iff_false_right hne, not_not]
      · have hroom : matching.all.length ≤ Matching.room := by
          by_contra hmany
          exact hrc.ne (matching.rc_eq_zero_iff.mpr hmany)
        simp only [he]
        cases hkind : decide (matching = .noMatch) with
        | true =>
            have hsame := of_decide_eq_true hkind
            rw [if_pos hsame, if_neg (by decide), if_pos rfl]
            exact ⟨h.set hlt hmatch, iff_of_true (iff_of_true rfl hsame) hroom⟩
        | false =>
            have hne := of_decide_eq_false hkind
            have hfail : ¬ (-2 : Int) = 0 := by decide
            rw [if_neg hne, if_pos rfl]
            exact ⟨h.set hlt hmatch, iff_of_true (iff_of_false hfail hne) hroom⟩

theorem Sound.free (h : s.Sound) (handle : Int) : (s.call (.free handle)).1.Sound := by
  simp only [call, regexFree]
  cases hobject : object? s.PEL handle with
  | none =>
      have huse := h.uses_of_object?_none hobject
      dsimp only
      rw [← huse, Function.update_eq_self]
      exact h
  | some id =>
      obtain ⟨rfl, hsome⟩ := h.object?_eq_some.mp hobject
      have hlt := h.lt_of_uses hsome
      exact h.set hlt (RegEx.fits_clear _)

end Session

theorem Matching.getElem?_offsets (groups : List (Option (Nat × Nat))) {k first last : Nat}
    (h : groups[k]? = some (some (first, last))) :
    (groups.flatMap offsets)[2 * k]? = some (first : Int) ∧
      (groups.flatMap offsets)[2 * k + 1]? = some (last : Int) := by
  induction groups generalizing k with
  | nil => simp at h
  | cons group groups ih =>
      cases k with
      | zero =>
          obtain rfl : group = some (first, last) := by simpa using h
          exact ⟨rfl, rfl⟩
      | succ k =>
          have hrest := ih (List.getElem?_cons_succ.symm.trans h)
          have hpair : ∃ a b, offsets group = [a, b] := by
            cases group with
            | none => exact ⟨_, _, rfl⟩
            | some group => exact ⟨_, _, rfl⟩
          obtain ⟨a, b, hoffsets⟩ := hpair
          rw [List.flatMap_cons, hoffsets]
          exact hrest

theorem setAmxString_take_iff (text : List Byte) (size : Nat) (maxLen : Int) :
    setAmxString (text.take size) maxLen = setAmxString text maxLen ↔
      text.length ≤ size ∨ (0 ≤ maxLen ∧ maxLen ≤ size) := by
  constructor
  · intro hsame
    by_contra hcut
    rw [not_or, not_and] at hcut
    obtain ⟨hlong, hmax⟩ := hcut
    have hlength := congrArg List.length hsame
    unfold setAmxString at hlength
    split at hlength
    next hneg => simp only [List.length_take] at hlength; omega
    next hpos =>
      have hmore := hmax (not_lt.mp hpos)
      simp only [List.length_take] at hlength
      omega
  · rintro (hshort | ⟨hpos, hmax⟩)
    · rw [List.take_of_length_le hshort]
    · rw [setAmxString, setAmxString, if_neg (not_lt.mpr hpos), if_neg (not_lt.mpr hpos),
        List.take_take, min_eq_left (by omega)]

theorem RegEx.getSubstring_eq {x : RegEx pcre} {use : Use} (h : x.Fits (some use)) {k : Nat}
    {text : List Byte} (htext : use.group? k = some text) (max : Nat) :
    x.getSubstring k max =
      if ∀ latest ∈ use.latest, latest.2.all.length ≤ Matching.room then some (text.take max)
      else none := by
  obtain ⟨hbusy, hcount, code, hre, hcompile, hlatest⟩ := h
  obtain ⟨⟨str, matching⟩, huse, hgroup⟩ := Option.bind_eq_some_iff.mp htext
  obtain ⟨group, hget, hspan⟩ := Option.bind_eq_some_iff.mp hgroup
  obtain ⟨⟨first, last⟩, rfl, hslice⟩ := Option.bind_eq_some_iff.mp hspan
  obtain rfl := Option.some.inj hslice
  have hk : k < matching.all.length := (List.getElem?_eq_some_iff.mp hget).1
  have hrc : 0 ≤ matching.rc := by
    cases matching with
    | matched whole groups => exact rc_matched whole groups
    | noMatch => exact absurd hk (Nat.not_lt_zero _)
    | error number => exact absurd hk (Nat.not_lt_zero _)
  obtain ⟨hsubject, hvector⟩ := (hlatest (str, matching) huse).2 hrc
  have hnumber : x.mSubStrings = matching.rc := by
    rw [hcount, Use.subStrings, huse]
    exact max_eq_right hrc
  have hall : (∀ latest ∈ use.latest, latest.2.all.length ≤ Matching.room) ↔
      matching.all.length ≤ Matching.room := by
    rw [huse]
    simp
  unfold getSubstring
  simp only [hnumber, hall, Int.toNat_natCast]
  split
  next hout =>
    rw [if_neg]
    intro hroom
    have hfull : matching.rc = matching.all.length := by
      cases matching with
      | matched whole groups =>
          have hlt : groups.length < Matching.room := hroom
          simp [Matching.rc, hlt, Matching.all]
      | noMatch => exact absurd hk (Nat.not_lt_zero _)
      | error number => exact absurd hk (Nat.not_lt_zero _)
    omega
  next hin =>
    rw [not_or, not_le, not_lt] at hin
    have hroom : matching.all.length ≤ Matching.room := by
      by_contra hmany
      rw [matching.rc_eq_zero_iff.mpr hmany] at hin
      omega
    have htake : (matching.all.take Matching.room)[k]? = some (some (first, last)) := by
      rw [List.take_of_length_le hroom]
      exact hget
    obtain ⟨hfirst, hlast⟩ := Matching.getElem?_offsets _ htake
    rw [if_pos hroom, hvector, hfirst, hlast, hsubject]
    simp only [Option.getD_some, Option.elim_some, Int.toNat_natCast]
    congr 4
    omega

namespace Session

variable {s : Session pcre}

theorem Sound.substr (h : s.Sound) (handle strId maxLen : Int) :
    s.Answered (s.call (.substr handle strId maxLen)).2 (.substr handle strId maxLen) ↔
      s.Allowed (.substr handle strId maxLen) := by
  refine forall₂_congr fun use text => forall₃_congr fun huse hpos htext => ?_
  have hsome : (s.uses handle).isSome := huse ▸ rfl
  obtain ⟨id, hobject⟩ := Option.isSome_iff_exists.mp ((h.accepted handle).mpr hsome)
  obtain ⟨rfl, -⟩ := h.object?_eq_some.mp hobject
  have hfits := h.fits (getElem?_objectAt (h.lt_of_uses hsome))
  rw [huse] at hfits
  obtain ⟨k, rfl⟩ := Int.eq_ofNat_of_zero_le hpos
  rw [Int.toNat_natCast] at htext
  have hsubstring := RegEx.getSubstring_eq hfits htext 4095
  simp only [call, regexSubstr, hobject]
  rw [hsubstring]
  by_cases hroom : ∀ latest ∈ use.latest, latest.2.all.length ≤ Matching.room
  · rw [if_pos hroom, and_iff_right hroom, and_iff_right rfl, Option.some_inj]
    exact setAmxString_take_iff text 4095 maxLen
  · rw [if_neg hroom]
    refine iff_of_false ?_ fun hall => hroom hall.1
    rintro ⟨hvalue, -⟩
    cases hvalue

theorem Sound.right_iff (h : s.Sound) (call : Call) :
    (s.call call).1.Sound ∧ (s.Right call ↔ s.Allowed call) := by
  have hright : (s.call call).1.Sound → (s.Right call ↔ s.Answered (s.call call).2 call) :=
    fun hnext => ⟨Right.answered, fun hanswered => ⟨hnext.accepted, hanswered⟩⟩
  cases call with
  | compile pattern maxLen flags =>
      obtain ⟨hnext, hanswered⟩ := h.compile pattern maxLen flags
      exact ⟨hnext, (hright hnext).trans (iff_of_true hanswered trivial)⟩
  | matchNew str pattern maxLen flags =>
      obtain ⟨hnext, hanswered⟩ := h.matchNew str pattern maxLen flags
      exact ⟨hnext, (hright hnext).trans (iff_of_true hanswered trivial)⟩
  | matchC str handle =>
      obtain ⟨hnext, hanswered⟩ := h.matchC str handle
      exact ⟨hnext, (hright hnext).trans hanswered⟩
  | substr handle strId maxLen => exact ⟨h, (hright h).trans (h.substr handle strId maxLen)⟩
  | free handle =>
      exact ⟨h.free handle, (hright (h.free handle)).trans (iff_of_true trivial trivial)⟩

/-- Over a run the handles and answers are right exactly if no match has more groups than the
vector holds where that is asked for, and no group is cut by the buffer. -/
theorem calls_right_iff (calls : List Call) :
    Meets step Right (start : Session pcre) calls ↔
      Meets step Allowed (start : Session pcre) calls := by
  refine meets_congr ?_ ?_ sound_start
  · intro s call next h _ hstep
    obtain rfl := Option.some.inj hstep
    exact (h.right_iff call).1
  · intro s call h
    exact (h.right_iff call).2

/-- The letter `a` in ten groups, and ten times. -/
def tenGroups : CString := .ofMemory (List.replicate 10 [40, 97, 41]).flatten

def tenLetters : CString := .ofMemory (List.replicate 10 97)

def tenPcre : Pcre where
  Code := Unit
  compile pattern _ := if pattern = tenGroups then .inl () else .inr (.ofMemory [63], 0)
  exec _ str :=
    if str = tenLetters then
      .matched (0, 10) ((List.range 10).map fun k => some (k, k + 1))
    else .noMatch

/-- All ten groups match, and `regex_match_c` answers as if nothing had. -/
theorem not_calls_right : ¬ ∀ (pcre : Pcre) (calls : List Call),
    Meets step Right (start : Session pcre) calls := by
  intro h
  have hallowed := (calls_right_iff _).mp
    (h tenPcre [.compile tenGroups 0 (.ofMemory []), .matchC tenLetters 1])
  have hmatch := (hallowed.2 _ rfl).1
  have hroom := hmatch ⟨tenGroups, some (.ofMemory []), none⟩
    (.matched (0, 10) ((List.range 10).map fun k => some (k, k + 1))) rfl rfl
  exact absurd hroom (by decide)

end Session

end AmxModC.Regex
