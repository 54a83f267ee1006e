import AmxModC.Strings.Cells
import AmxModC.Strings.Model

namespace AmxModC.Strings

open Foundation

/-! The natives `add` and `strcat`. -/

/-- `while (*dest && c--) ++dest;` -/
def addSkip (memory : Memory) (amx : Amx) : Nat → Nat → Int → Option (Nat × Int)
  | 0, _, _ => none
  | fuel + 1, dest, c =>
      if memory amx dest = 0 then some (dest, c)
      else if c = 0 then some (dest, c - 1)
      else addSkip memory amx fuel (dest + 1) (c - 1)

/-- `while (*cdest && num) { cdest++; num--; }` -/
def strcatSkip (memory : Memory) (amx : Amx) : Nat → Nat → Int → Option (Nat × Int)
  | 0, _, _ => none
  | fuel + 1, dest, num =>
      if memory amx dest ≠ 0 ∧ num ≠ 0 then strcatSkip memory amx fuel (dest + 1) (num - 1)
      else some (dest, num)

/-- The copying loops, of which one also counts `d`, and the terminator behind them.  The
last result is what is left of the limit. -/
def appendLoop (amx : Amx) :
    Nat → Nat → Nat → Int → Option Int → Memory → Option (Memory × Nat × Int)
  | 0, _, _, _, _, _ => none
  | fuel + 1, dest, src, c, d, memory =>
      if c = 0 ∨ d = some 0 ∨ memory amx src = 0 then
        some (memory.store amx dest [0], dest, c)
      else
        appendLoop amx fuel (dest + 1) (src + 1) (c - 1) (d.map (· - 1))
          (memory.store amx dest [memory amx src])

def add (fuel : Nat) (amx : Amx) (params : Nat → Cell) (memory : Memory) :
    Option (Memory × Int) :=
  let src := cellNumber (params 3)
  let start := cellNumber (params 1)
  let d := if (params 4).toInt ≠ 0 then some (params 4).toInt else none
  (addSkip memory amx fuel start (params 2).toInt).bind fun (dest, c) =>
    (appendLoop amx fuel dest src c d memory).map fun (memory, dest, _) =>
      (memory, (dest : Int) - start)

def strcat (fuel : Nat) (amx : Amx) (params : Nat → Cell) (memory : Memory) :
    Option (Memory × Int) :=
  let csrc := cellNumber (params 2)
  (strcatSkip memory amx fuel (cellNumber (params 1)) (params 3).toInt).bind fun (cdest, num) =>
    if num = 0 then some (memory, 0)
    else
      (appendLoop amx fuel cdest csrc num none memory).map fun (memory, _, num) =>
        (memory, (params 3).toInt - num)

/-! The copying loop. -/

section

variable {memory after : Memory} {amx : Amx} {fuel dest src stop n : Nat} {c c' : Int}
  {d : Option Int}

theorem appendLoop_passed (h : appendLoop amx fuel dest src c d memory = some (after, stop, c')) :
    dest ≤ stop ∧ ∀ owner i, ¬ (owner = amx ∧ dest ≤ i ∧ i ≤ stop) →
      after owner i = memory owner i := by
  induction fuel generalizing dest src c d memory with
  | zero => cases h
  | succ fuel ih =>
      rw [appendLoop] at h
      split at h
      next =>
          cases h
          exact ⟨le_rfl, fun owner i hout =>
            Memory.store_one_of_ne 0 fun hin => hout ⟨hin.1, hin.2.ge, hin.2.le⟩⟩
      next =>
          obtain ⟨hle, hsame⟩ := ih h
          refine ⟨by omega, fun owner i hout => ?_⟩
          rw [hsame owner i fun hin => hout ⟨hin.1, by omega, hin.2.2⟩]
          exact Memory.store_one_of_ne _ fun hin => hout ⟨hin.1, hin.2.ge, by omega⟩

theorem appendLoop_step (hc : c ≠ 0) (hd : d ≠ some 0) (hsrc : memory amx src ≠ 0) :
    appendLoop amx (fuel + 1) dest src c d memory =
      appendLoop amx fuel (dest + 1) (src + 1) (c - 1) (d.map (· - 1))
        (memory.store amx dest [memory amx src]) := by
  rw [appendLoop, if_neg]
  rintro (hzero | hzero | hzero)
  · exact hc hzero
  · exact hd hzero
  · exact hsrc hzero

theorem appendLoop_wrote (hc : c ≠ 0) (hd : d ≠ some 0) (hsrc : memory amx src ≠ 0)
    (h : appendLoop amx fuel dest src c d memory = some (after, stop, c')) :
    dest < stop ∧ after amx dest = memory amx src := by
  cases fuel with
  | zero => cases h
  | succ fuel =>
      rw [appendLoop_step hc hd hsrc] at h
      obtain ⟨hle, hsame⟩ := appendLoop_passed h
      refine ⟨hle, ?_⟩
      rw [hsame amx dest fun hin => absurd hin.2.1 (Nat.not_succ_le_self dest)]
      exact Memory.store_one memory amx dest _

theorem cell_succ (memory : Memory) (amx : Amx) (first i : Nat) :
    memory amx (first + 1 + i) = memory amx (first + (i + 1)) := by
  congr 1
  omega

theorem map_pred_ne {i : Nat} (hd : d ≠ some ((i + 1 : Nat) : Int)) :
    d.map (· - 1) ≠ some (i : Int) := by
  cases d with
  | none => exact fun h => nomatch h
  | some d =>
      intro h
      have heq : d - 1 = i := Option.some.inj h
      refine hd (congrArg some ?_)
      push_cast
      omega

theorem appendLoop_steps (hc : ∀ i < n, c ≠ (i : Int)) (hd : ∀ i < n, d ≠ some (i : Int))
    (hsrc : ∀ i < n, memory amx (src + i) ≠ 0) (happart : ∀ i < n, src + i < dest ∨ dest ≤ src) :
    appendLoop amx (fuel + n) dest src c d memory =
      appendLoop amx fuel (dest + n) (src + n) (c - n) (d.map (· - (n : Int)))
        (memory.store amx dest (memory.fetch amx src n)) := by
  induction n generalizing dest src c d memory with
  | zero =>
      have hd' : d.map (· - ((0 : Nat) : Int)) = d := by cases d <;> simp
      have hmemory : memory.store amx dest (memory.fetch amx src 0) = memory := by
        funext owner i
        exact Memory.store_of_not fun hin => by
          rw [Memory.length_fetch] at hin
          omega
      rw [hd', hmemory, Nat.cast_zero, Int.sub_zero]
      rfl
  | succ n ih =>
      have hc0 : c ≠ 0 := hc 0 (Nat.succ_pos n)
      have hd0 : d ≠ some 0 := hd 0 (Nat.succ_pos n)
      have hsrc0 : memory amx src ≠ 0 := hsrc 0 (Nat.succ_pos n)
      have hunread : ∀ i < n, memory.store amx dest [memory amx src] amx (src + 1 + i) =
          memory amx (src + (i + 1)) := by
        intro i hi
        have hplace := happart (i + 1) (Nat.succ_lt_succ hi)
        rw [Memory.store_one_of_ne _ fun hin => by omega, cell_succ memory amx]
      rw [← Nat.add_assoc, appendLoop_step hc0 hd0 hsrc0, ih ?_ ?_ ?_ ?_]
      · have hfetch : (memory.store amx dest [memory amx src]).fetch amx (src + 1) n =
            memory.fetch amx (src + 1) n := by
          refine Memory.fetch_congr fun i hi => ?_
          rw [hunread i hi, cell_succ memory amx]
        have hdrop : (d.map (· - 1)).map (· - (n : Int)) = d.map (· - ((n + 1 : Nat) : Int)) := by
          cases d with
          | none => rfl
          | some d =>
              simp only [Option.map_some]
              congr 1
              push_cast
              omega
        have hleft : c - 1 - (n : Int) = c - ((n + 1 : Nat) : Int) := by
          push_cast
          omega
        rw [hfetch, hdrop, hleft, Memory.fetch_succ,
          Memory.store_cons memory amx dest (memory amx src) (memory.fetch amx (src + 1) n),
          Nat.add_right_comm dest, Nat.add_right_comm src]
        rfl
      · intro i hi
        have := hc (i + 1) (Nat.succ_lt_succ hi)
        push_cast at this
        omega
      · exact fun i hi => map_pred_ne (hd (i + 1) (Nat.succ_lt_succ hi))
      · intro i hi
        rw [hunread i hi]
        exact hsrc (i + 1) (Nat.succ_lt_succ hi)
      · intro i hi
        have := happart (i + 1) (Nat.succ_lt_succ hi)
        omega

theorem appendLoop_copies (hfuel : n < fuel) (hc : ∀ i < n, c ≠ (i : Int))
    (hd : ∀ i < n, d ≠ some (i : Int)) (hsrc : ∀ i < n, memory amx (src + i) ≠ 0)
    (happart : ∀ i < n, src + i < dest ∨ dest ≤ src)
    (hstop : c = n ∨ d = some (n : Int) ∨
      memory amx (src + n) = 0 ∧ (src + n < dest ∨ dest ≤ src)) :
    appendLoop amx fuel dest src c d memory =
      some ((memory.store amx dest (memory.fetch amx src n)).store amx (dest + n) [0], dest + n,
        c - n) := by
  obtain ⟨rest, rfl⟩ := Nat.exists_eq_add_of_lt hfuel
  rw [Nat.add_assoc, Nat.add_comm n, appendLoop_steps hc hd hsrc happart, appendLoop, if_pos]
  rcases hstop with rfl | rfl | ⟨hzero, hout⟩
  · exact .inl (Int.sub_self _)
  · exact .inr (.inl (congrArg some (Int.sub_self _)))
  · refine .inr (.inr ?_)
    rw [Memory.store_of_not, hzero]
    rw [Memory.length_fetch]
    omega

theorem appendLoop_unchanged (hc : c < 0) (hfuel : n < fuel)
    (hsame : ∀ i < n, memory amx (src + i) = memory amx (dest + i))
    (hsrc : ∀ i < n, memory amx (src + i) ≠ 0) (hd : ∀ i < n, d ≠ some (i : Int))
    (hstop : d = some (n : Int) ∨ memory amx (src + n) = 0) (hend : memory amx (dest + n) = 0) :
    appendLoop amx fuel dest src c d memory = some (memory, dest + n, c - n) := by
  induction n generalizing fuel dest src c d with
  | zero =>
      obtain ⟨fuel, rfl⟩ := Nat.exists_eq_add_one_of_ne_zero (Nat.ne_of_gt hfuel)
      have hdone : c = 0 ∨ d = some 0 ∨ memory amx src = 0 := .inr hstop
      have hzero : memory amx dest = 0 := hend
      rw [appendLoop, if_pos hdone, ← hzero, Memory.store_same, Nat.cast_zero, Int.sub_zero]
      rfl
  | succ n ih =>
      obtain ⟨fuel, rfl⟩ :=
        Nat.exists_eq_add_one_of_ne_zero (Nat.ne_of_gt (Nat.zero_lt_of_lt hfuel))
      have hd0 : d ≠ some 0 := hd 0 (Nat.succ_pos n)
      have hsrc0 : memory amx src ≠ 0 := hsrc 0 (Nat.succ_pos n)
      have hsame0 : memory amx src = memory amx dest := hsame 0 (Nat.succ_pos n)
      rw [appendLoop_step (Int.ne_of_lt hc) hd0 hsrc0, hsame0, Memory.store_same,
        ih (by omega) (by omega) ?_ ?_ ?_ ?_ ?_]
      · refine congrArg some (Prod.ext rfl (Prod.ext ?_ ?_))
        · dsimp only
          omega
        · dsimp only
          push_cast
          omega
      · intro i hi
        rw [cell_succ memory amx, cell_succ memory amx]
        exact hsame (i + 1) (Nat.succ_lt_succ hi)
      · intro i hi
        rw [cell_succ memory amx]
        exact hsrc (i + 1) (Nat.succ_lt_succ hi)
      · exact fun i hi => map_pred_ne (hd (i + 1) (Nat.succ_lt_succ hi))
      · rcases hstop with rfl | hzero
        · left
          rw [Option.map_some]
          push_cast
          rw [Int.add_sub_cancel]
        · right
          rw [cell_succ memory amx]
          exact hzero
      · rw [cell_succ memory amx]
        exact hend

theorem appendLoop_read_same (hc : c < 0)
    (h : appendLoop amx fuel dest src c d memory = some (after, dest + n, c'))
    (hsame : ∀ i < n, after amx (dest + i) = memory amx (dest + i)) :
    (∀ i < n, memory amx (src + i) = memory amx (dest + i) ∧ d ≠ some (i : Int)) ∧
      (d = some (n : Int) ∨ memory amx (src + n) = 0) := by
  induction n generalizing fuel dest src c d with
  | zero =>
      refine ⟨fun i hi => absurd hi (Nat.not_lt_zero i), ?_⟩
      by_contra hgo
      rw [not_or] at hgo
      have hwrote := (appendLoop_wrote (Int.ne_of_lt hc) hgo.1 hgo.2 h).1
      exact Nat.lt_irrefl _ hwrote
  | succ n ih =>
      cases fuel with
      | zero => cases h
      | succ fuel =>
          by_cases hgo : d ≠ some 0 ∧ memory amx src ≠ 0
          · have hsame0 : after amx dest = memory amx dest := hsame 0 (Nat.succ_pos n)
            have hread := (appendLoop_wrote (Int.ne_of_lt hc) hgo.1 hgo.2 h).2
            rw [hsame0] at hread
            have hplace : dest + (n + 1) = dest + 1 + n := by omega
            rw [appendLoop_step (Int.ne_of_lt hc) hgo.1 hgo.2, ← hread, Memory.store_same,
              hplace] at h
            obtain ⟨hall, hstop⟩ := ih (by omega) h fun i hi => by
              have hat := hsame (i + 1) (Nat.succ_lt_succ hi)
              rw [cell_succ memory amx]
              rw [← hat]
              congr 1
              omega
            refine ⟨fun i hi => ?_, ?_⟩
            · cases i with
              | zero => exact ⟨hread.symm, hgo.1⟩
              | succ i =>
                  obtain ⟨hcell, hne⟩ := hall i (Nat.lt_of_succ_lt_succ hi)
                  rw [cell_succ memory amx, cell_succ memory amx] at hcell
                  refine ⟨hcell, fun heq => hne ?_⟩
                  rw [heq, Option.map_some]
                  push_cast
                  rw [Int.add_sub_cancel]
            · rcases hstop with hd | hzero
              · left
                by_contra hne
                exact map_pred_ne hne hd
              · right
                rwa [cell_succ memory amx] at hzero
          · have hdone : c = 0 ∨ d = some 0 ∨ memory amx src = 0 := by
              rw [not_and_or, not_not, not_not] at hgo
              exact .inr hgo
            rw [appendLoop, if_pos hdone, Option.some.injEq, Prod.mk.injEq, Prod.mk.injEq] at h
            omega

theorem appendLoop_left (h : appendLoop amx fuel dest src c d memory = some (after, stop, c')) :
    c' = c - ((stop : Int) - dest) := by
  induction fuel generalizing dest src c d memory with
  | zero => cases h
  | succ fuel ih =>
      rw [appendLoop] at h
      split at h
      next =>
          cases h
          rw [Int.sub_self, Int.sub_zero]
      next =>
          have hleft := ih h
          push_cast at hleft
          omega

end

/-! The loops in front of it. -/

section

variable {memory : Memory} {amx : Amx} {fuel start dest k : Nat} {limit : Int} {D : List Cell}

theorem addSkip_eq (memory : Memory) (amx : Amx) (fuel dest : Nat) (c : Int) :
    addSkip memory amx fuel dest c = (strcatSkip memory amx fuel dest c).map fun (dest, c) =>
      (dest, if memory amx dest = 0 then c else c - 1) := by
  induction fuel generalizing dest c with
  | zero => rfl
  | succ fuel ih =>
      rw [addSkip, strcatSkip]
      by_cases hend : memory amx dest = 0
      · rw [if_pos hend, if_neg fun h => h.1 hend, Option.map_some]
        dsimp only
        rw [if_pos hend]
      · rw [if_neg hend]
        by_cases hc : c = 0
        · rw [if_pos hc, if_neg fun h => h.2 hc, Option.map_some]
          dsimp only
          rw [if_neg hend]
        · rw [if_neg hc, if_pos ⟨hend, hc⟩, ih]

theorem strcatSkip_steps (fuel : Nat) (hD : HoldsCells memory amx start D) {n : Nat}
    (hn : k + n ≤ D.length) (hlimit : ∀ i < n, limit ≠ (i : Int)) :
    strcatSkip memory amx (fuel + n) (start + k) limit =
      strcatSkip memory amx fuel (start + (k + n)) (limit - n) := by
  induction n generalizing k limit with
  | zero => rw [Nat.cast_zero, Int.sub_zero, Nat.add_zero, Nat.add_zero]
  | succ n ih =>
      have hgo : memory amx (start + k) ≠ 0 ∧ limit ≠ 0 :=
        ⟨hD.ne_zero (by omega), hlimit 0 (Nat.succ_pos n)⟩
      have hplace : k + 1 + n = k + (n + 1) := by omega
      rw [← Nat.add_assoc, strcatSkip, if_pos hgo, Nat.add_assoc start, ih (by omega) fun i hi => ?_,
        hplace]
      · congr 1
        push_cast
        omega
      · have := hlimit (i + 1) (Nat.succ_lt_succ hi)
        push_cast at this
        omega

theorem strcatSkip_full (hD : HoldsCells memory amx start D) (hfuel : D.length < fuel) {n : Nat}
    (hn : n ≤ D.length) : strcatSkip memory amx fuel start n = some (start + n, 0) := by
  obtain ⟨rest, rfl⟩ := Nat.exists_eq_add_of_lt (Nat.lt_of_le_of_lt hn hfuel)
  have hlimit : ∀ i < n, (n : Int) ≠ (i : Int) := fun i hi => by omega
  have hsteps := strcatSkip_steps (rest + 1) hD (by omega : 0 + n ≤ D.length) hlimit
  have hfuel : n + rest + 1 = rest + 1 + n := by omega
  simp only [Nat.add_zero, Nat.zero_add] at hsteps
  rw [hfuel, hsteps, Int.sub_self, strcatSkip, if_neg fun h => h.2 rfl]

theorem strcatSkip_end (limit : Int) (hD : HoldsCells memory amx start D)
    (hfuel : D.length < fuel) (hlimit : ∀ i < D.length, limit ≠ (i : Int)) :
    strcatSkip memory amx fuel start limit = some (start + D.length, limit - D.length) := by
  obtain ⟨rest, rfl⟩ := Nat.exists_eq_add_of_lt hfuel
  have hsteps := strcatSkip_steps (rest + 1) hD (by omega : 0 + D.length ≤ D.length) hlimit
  have hfuel : D.length + rest + 1 = rest + 1 + D.length := by omega
  simp only [Nat.add_zero, Nat.zero_add] at hsteps
  rw [hfuel, hsteps, strcatSkip, if_neg fun h => h.1 hD.terminator]

end

/-- What there is to append: the source, or its first `max` cells. -/
def asked (source : List Cell) (max : Int) : List Cell :=
  if 0 < max then source.take max.toNat else source

/-- `d`, where it is counted. -/
def countdown (max : Int) : Option Int := if max ≠ 0 then some max else none

structure Reads (memory : Memory) (amx : Amx) (src : Nat) (d : Option Int) (s : List Cell) :
    Prop where
  nonzero : 0 ∉ s
  cell : ∀ i (hi : i < s.length), memory amx (src + i) = s[i]
  counted : ∀ i < s.length, d ≠ some (i : Int)
  ends : d = some (s.length : Int) ∨ memory amx (src + s.length) = 0

namespace Reads

variable {memory : Memory} {amx : Amx} {src : Nat} {d : Option Int} {s s' S : List Cell} {max : Int}

theorem ne_zero (h : Reads memory amx src d s) {i : Nat} (hi : i < s.length) :
    memory amx (src + i) ≠ 0 := by
  rw [h.cell i hi]
  exact fun hzero => h.nonzero (hzero ▸ List.getElem_mem hi)

theorem length_le (h : Reads memory amx src d s) (h' : Reads memory amx src d s') :
    s.length ≤ s'.length := by
  by_contra hlt
  rcases h'.ends with hd | hzero
  · exact h.counted _ (not_le.mp hlt) hd
  · exact h.ne_zero (not_le.mp hlt) hzero

theorem unique (h : Reads memory amx src d s) (h' : Reads memory amx src d s') : s = s' :=
  List.ext_getElem (Nat.le_antisymm (h.length_le h') (h'.length_le h)) fun i hi hi' => by
    rw [← h.cell i hi, ← h'.cell i hi']

theorem of_holds (hS : HoldsCells memory amx src S) :
    Reads memory amx src (countdown max) (asked S max) := by
  rw [asked]
  by_cases hmax : 0 < max
  · rw [if_pos hmax, countdown, if_pos (Int.ne_of_gt hmax)]
    have hlength : (S.take max.toNat).length = min max.toNat S.length := List.length_take
    refine ⟨fun hmem => hS.1 (List.mem_of_mem_take hmem), fun i hi => ?_, fun i hi heq => ?_, ?_⟩
    · rw [List.getElem_take]
      exact hS.cell (by omega)
    · have := Option.some.inj heq
      omega
    · rcases Nat.lt_or_ge S.length max.toNat with hlt | hge
      · right
        rw [hlength, Nat.min_eq_right (Nat.le_of_lt hlt)]
        exact hS.terminator
      · left
        rw [hlength, Nat.min_eq_left hge, Int.toNat_of_nonneg (Int.le_of_lt hmax)]
  · rw [if_neg hmax, countdown]
    refine ⟨hS.1, fun i hi => hS.cell hi, fun i hi heq => ?_, .inr hS.terminator⟩
    split at heq
    next =>
        have := Option.some.inj heq
        omega
    next => cases heq

end Reads

def appended (limit : Int) (D source : List Cell) : List Cell :=
  D ++ source.take (limit - D.length).toNat

def Appends (before : Memory) (amx : Amx) (dest : Nat) (limit : Int) (D source : List Cell)
    (result : Option (Memory × Int)) : Prop :=
  ∃ after, result = some (after, ((appended limit D source).length : Int)) ∧
    HoldsCells after amx dest (appended limit D source) ∧
    ∀ owner i, ¬ (owner = amx ∧ dest ≤ i ∧ (i : Int) ≤ dest + max limit D.length) →
      after owner i = before owner i

def EndsWith (dest src : Nat) (limit max : Int) (D S : List Cell) : Prop :=
  S ≠ [] ∧ src + S.length = dest + D.length ∧ (D.length + S.length : Int) < limit ∧
    (0 < max → (S.length : Int) < max)

def AddFits (dest src : Nat) (limit max : Int) (D S : List Cell) : Prop :=
  if limit < 0 then S = []
  else if limit < D.length then asked S max = D.drop limit.toNat
  else ¬ EndsWith dest src limit max D S

def StrcatFits (dest src : Nat) (limit : Int) (D S : List Cell) : Prop :=
  if limit < 0 then S = []
  else (D = [] ∨ (D.length : Int) < limit) ∧ ¬ EndsWith dest src limit 0 D S

/-- What `add` returns. -/
def measured (start : Nat) (stopped : Memory × Nat × Int) : Memory × Int :=
  (stopped.1, (stopped.2.1 : Int) - start)

section

variable {memory : Memory} {amx : Amx} {fuel start src : Nat} {limit max : Int}
  {D S t : List Cell}

theorem HoldsCells.append (hD : HoldsCells memory amx start D) (ht : 0 ∉ t) :
    HoldsCells ((memory.store amx (start + D.length) t).store amx (start + D.length + t.length) [0])
      amx start (D ++ t) := by
  refine HoldsCells.of_cells ?_ (fun i hi => ?_) ?_
  · rw [List.mem_append, not_or]
    exact ⟨hD.1, ht⟩
  · rw [List.length_append] at hi
    rw [Memory.store_one_of_ne _ fun h => by omega]
    rcases Nat.lt_or_ge i D.length with hlt | hge
    · rw [Memory.store_of_not fun h => by omega, hD.cell hlt, List.getElem_append_left hlt]
    · obtain ⟨j, rfl⟩ := Nat.exists_eq_add_of_le hge
      have hj : j < t.length := Nat.lt_of_add_lt_add_left hi
      rw [← Nat.add_assoc, Memory.store_of_lt hj, List.getElem_append_right hge]
      simp only [Nat.add_sub_cancel_left]
  · rw [List.length_append, ← Nat.add_assoc, Memory.store_one]

theorem apart_of_holds (hD : HoldsCells memory amx start D) (hS : HoldsCells memory amx src S)
    {i : Nat} (hi : i < S.length) : src + i < start + D.length ∨ start + D.length ≤ src := by
  by_contra hin
  rw [not_or, not_lt, not_le] at hin
  obtain ⟨j, hj⟩ := Nat.exists_eq_add_of_le (Nat.le_of_lt hin.2)
  have hend := hD.terminator
  rw [hj] at hend
  exact hS.ne_zero (by omega) hend

theorem length_asked_le (S : List Cell) (max : Int) : (asked S max).length ≤ S.length := by
  rw [asked]
  split
  next => exact List.length_take_le' _ _
  next => exact le_rfl

theorem lt_of_uncounted (h : countdown max ≠ some ((asked S max).length : Int)) (hmax : 0 < max) :
    (S.length : Int) < max := by
  by_contra hle
  rw [countdown, if_pos (Int.ne_of_gt hmax), asked, if_pos hmax, List.length_take] at h
  refine h (congrArg some ?_)
  omega

theorem appends_of_room (hD : HoldsCells memory amx start D) (hS : HoldsCells memory amx src S)
    (hfuel : D.length + S.length < fuel) (hlimit : (D.length : Int) ≤ limit)
    (hends : ¬ EndsWith start src limit max D S) :
    Appends memory amx start limit D (asked S max)
      ((appendLoop amx fuel (start + D.length) src (limit - D.length) (countdown max) memory).map
        (measured start)) := by
  have hreads : Reads memory amx src (countdown max) (asked S max) := .of_holds hS
  have hasked := length_asked_le S max
  have hroom : ((limit - D.length).toNat : Int) = limit - D.length := Int.toNat_of_nonneg (by omega)
  obtain ⟨t, ht⟩ : ∃ t, t = (asked S max).take (limit - D.length).toNat := ⟨_, rfl⟩
  have hlength : t.length = min (limit - D.length).toNat (asked S max).length := by
    rw [ht, List.length_take]
  have hfetch : memory.fetch amx src t.length = t := by
    refine List.ext_getElem (Memory.length_fetch ..) fun i _ hit => ?_
    have hfetched := Memory.getElem?_fetch memory amx src hit
    rw [hreads.cell i (by omega)] at hfetched
    rw [(List.getElem?_eq_some_iff.mp hfetched).2]
    simp only [ht, List.getElem_take]
  have hnonzero : 0 ∉ t := fun hmem => hreads.nonzero (List.mem_of_mem_take (ht ▸ hmem))
  have happart : ∀ i < S.length, src + i < start + D.length ∨ start + D.length ≤ src :=
    fun i hi => apart_of_holds hD hS hi
  have hstop : limit - D.length = t.length ∨ countdown max = some (t.length : Int) ∨
      memory amx (src + t.length) = 0 ∧
        (src + t.length < start + D.length ∨ start + D.length ≤ src) := by
    rcases Nat.lt_or_ge (asked S max).length (limit - D.length).toNat with hlt | hge
    · have hall : t.length = (asked S max).length := by omega
      rw [hall]
      by_cases hd : countdown max = some ((asked S max).length : Int)
      · exact .inr (.inl hd)
      · have hzero := hreads.ends.resolve_left hd
        refine .inr (.inr ⟨hzero, ?_⟩)
        have hend := (hS.eq_zero_iff hasked).mp hzero
        by_contra hin
        rw [not_or, not_lt, not_le, hend] at hin
        have hpos : 0 < S.length := by omega
        have hlast := happart (S.length - 1) (Nat.sub_lt hpos Nat.one_pos)
        exact hends ⟨List.length_pos_iff.mp hpos, by omega, by omega, lt_of_uncounted hd⟩
    · left
      omega
  have hsrc : ∀ i < t.length, memory amx (src + i) ≠ 0 := fun i hi => hreads.ne_zero (by omega)
  have hloop := appendLoop_copies (by omega : t.length < fuel) (c := limit - D.length)
    (fun i hi => by omega) (fun i hi => hreads.counted i (by omega)) hsrc
    (fun i hi => happart i (by omega)) hstop
  rw [hloop, hfetch, Option.map_some, measured, Appends, appended, ← ht]
  refine ⟨_, ?_, hD.append hnonzero, fun owner i hout => ?_⟩
  · rw [List.length_append]
    congr 2
    push_cast
    omega
  · rw [Memory.store_one_of_ne _ fun h => hout ⟨h.1, by omega, by omega⟩,
      Memory.store_of_not fun h => hout ⟨h.1, by omega, by omega⟩]

theorem not_appends_of_endsWith (hS : HoldsCells memory amx src S)
    (hfuel : D.length + S.length < fuel) (hD : HoldsCells memory amx start D)
    (hends : EndsWith start src limit max D S) :
    ¬ Appends memory amx start limit D (asked S max)
      ((appendLoop amx fuel (start + D.length) src (limit - D.length) (countdown max) memory).map
        (measured start)) := by
  obtain ⟨hne, hplace, hlimit, hmax⟩ := hends
  have hpos := List.length_pos_iff.mpr hne
  have hasked := length_asked_le S max
  obtain ⟨rest, rfl⟩ := Nat.exists_eq_add_of_lt hfuel
  have hcounted : ∀ i ≤ S.length, countdown max ≠ some (i : Int) := by
    intro i hi heq
    rw [countdown] at heq
    split at heq
    next =>
        have := Option.some.inj heq
        omega
    next => cases heq
  have hfuel : D.length + S.length + rest + 1 = D.length + rest + 1 + S.length := by omega
  rw [hfuel, appendLoop_steps (n := S.length) (fun i hi => by omega)
    (fun i hi => hcounted i (Nat.le_of_lt hi)) (fun i hi => hS.ne_zero hi)
    (fun i hi => apart_of_holds hD hS hi), hS.fetch_eq]
  rintro ⟨after, hresult, -, -⟩
  rw [Option.map_eq_some_iff] at hresult
  obtain ⟨⟨after', stop, left⟩, hloop, heq⟩ := hresult
  have hstart : memory.store amx (start + D.length) S amx (src + S.length) ≠ 0 := by
    have hfirst : memory.store amx (start + D.length) S amx (start + D.length + 0) = S[0] :=
      Memory.store_of_lt hpos
    rw [Nat.add_zero, ← hplace] at hfirst
    rw [← hplace, hfirst]
    exact fun hzero => hS.1 (hzero ▸ List.getElem_mem hpos)
  have hwrote := (appendLoop_wrote (by omega) (fun heq => ?_) hstart hloop).1
  · have hret := (Prod.mk.inj heq).2
    rw [appended, List.length_append, List.length_take] at hret
    dsimp only at hret
    omega
  · rw [Option.map_eq_some_iff] at heq
    obtain ⟨d, hd, hzero⟩ := heq
    refine hcounted S.length le_rfl (hd.trans (congrArg some ?_))
    omega

theorem appends_loop_iff (max : Int) (hD : HoldsCells memory amx start D)
    (hS : HoldsCells memory amx src S) (hfuel : D.length + S.length < fuel) (hlimit : (D.length : Int) ≤ limit) :
    Appends memory amx start limit D (asked S max)
        ((appendLoop amx fuel (start + D.length) src (limit - D.length) (countdown max) memory).map
          (measured start)) ↔
      ¬ EndsWith start src limit max D S :=
  ⟨fun happends hends => not_appends_of_endsWith hS hfuel hD hends happends,
    appends_of_room hD hS hfuel hlimit⟩

theorem appended_full (D source : List Cell) (hlimit : limit ≤ D.length) :
    appended limit D source = D := by
  have hzero : (limit - D.length).toNat = 0 := by omega
  rw [appended, hzero, List.take_zero, List.append_nil]

theorem countdown_ne_zero (max : Int) : countdown max ≠ some 0 := by
  intro heq
  rw [countdown] at heq
  split at heq
  next hmax => exact hmax (Option.some.inj heq)
  next => cases heq

theorem appends_unlimited_iff (max : Int) (hD : HoldsCells memory amx start D)
    (hS : HoldsCells memory amx src S) (hfuel : 0 < fuel) (hlimit : limit < 0) (source : List Cell) :
    Appends memory amx start limit D source
        ((appendLoop amx fuel (start + D.length) src (limit - D.length) (countdown max) memory).map
          (measured start)) ↔
      S = [] := by
  rw [Appends, appended_full D source (by omega)]
  constructor
  · rintro ⟨after, hresult, -, -⟩
    obtain ⟨⟨after', stop, left⟩, hloop, heq⟩ := Option.map_eq_some_iff.mp hresult
    by_contra hne
    have hfirst : memory amx src ≠ 0 := hS.ne_zero (List.length_pos_iff.mpr hne)
    have hwrote := (appendLoop_wrote (by omega) (countdown_ne_zero max) hfirst hloop).1
    have hret := (Prod.mk.inj heq).2
    dsimp only at hret
    omega
  · rintro rfl
    have hloop : appendLoop amx fuel (start + D.length) src (limit - D.length) (countdown max)
        memory = some (memory, start + D.length + 0, limit - D.length - (0 : Nat)) :=
      appendLoop_unchanged (by omega) hfuel (fun i hi => absurd hi (Nat.not_lt_zero i))
        (fun i hi => absurd hi (Nat.not_lt_zero i)) (fun i hi => absurd hi (Nat.not_lt_zero i))
        (.inr hS.terminator) hD.terminator
    rw [Nat.add_zero] at hloop
    rw [hloop, Option.map_some, measured]
    refine ⟨memory, ?_, hD, fun _ _ _ => rfl⟩
    congr 2
    push_cast
    omega

theorem appends_over_iff (hD : HoldsCells memory amx start D) (hS : HoldsCells memory amx src S)
    (hfuel : D.length < fuel) {k : Nat} (hk : k < D.length) (source : List Cell) :
    Appends memory amx start k D source
        ((appendLoop amx fuel (start + k) src (-1) (countdown max) memory).map (measured start)) ↔
      asked S max = D.drop k := by
  have hreads : Reads memory amx src (countdown max) (asked S max) := .of_holds hS
  have hlength : (D.drop k).length = D.length - k := List.length_drop
  have hcell : ∀ i (hi : i < (D.drop k).length), memory amx (start + k + i) = (D.drop k)[i] := by
    intro i hi
    rw [List.getElem_drop, Nat.add_assoc]
    exact hD.cell (by omega)
  rw [Appends, appended_full D source (by omega)]
  constructor
  · rintro ⟨after, hresult, hafter, -⟩
    obtain ⟨⟨after', stop, left⟩, hloop, heq⟩ := Option.map_eq_some_iff.mp hresult
    obtain ⟨hmemory, hret⟩ := Prod.mk.inj heq
    have hstop : stop = start + k + (D.drop k).length := by
      dsimp only at hret
      omega
    rw [hstop] at hloop
    have hsame : ∀ i < (D.drop k).length,
        after' amx (start + k + i) = memory amx (start + k + i) := by
      intro i hi
      have hat : k + i < D.length := by omega
      have heq : after' amx (start + (k + i)) = D[k + i] :=
        (congrFun (congrFun hmemory amx) _).trans (hafter.cell hat)
      rw [Nat.add_assoc, heq, hD.cell hat]
    obtain ⟨hread, hend⟩ := appendLoop_read_same (by decide) hloop hsame
    refine hreads.unique ⟨fun hmem => hD.1 (List.mem_of_mem_drop hmem), fun i hi => ?_,
      fun i hi => (hread i hi).2, hend⟩
    rw [(hread i hi).1, hcell i hi]
  · intro hsame
    rw [hsame] at hreads
    have hend : memory amx (start + k + (D.drop k).length) = 0 := by
      rw [← hD.terminator]
      congr 1
      omega
    rw [appendLoop_unchanged (by decide) (by omega) (fun i hi => by rw [hreads.cell i hi, hcell i hi])
      (fun i hi => hreads.ne_zero hi) hreads.counted hreads.ends hend, Option.map_some, measured]
    refine ⟨memory, ?_, hD, fun _ _ _ => rfl⟩
    congr 2
    push_cast
    omega

theorem add_appends_iff {params : Nat → Cell}
    (hD : HoldsCells memory amx (cellNumber (params 1)) D)
    (hS : HoldsCells memory amx (cellNumber (params 3)) S) (hfuel : D.length + S.length < fuel) :
    Appends memory amx (cellNumber (params 1)) (params 2).toInt D (asked S (params 4).toInt)
        (add fuel amx params memory) ↔
      AddFits (cellNumber (params 1)) (cellNumber (params 3)) (params 2).toInt (params 4).toInt
        D S := by
  have hfuelD : D.length < fuel := by omega
  rw [add, addSkip_eq, AddFits]
  by_cases hneg : (params 2).toInt < 0
  · have hskip := strcatSkip_end (params 2).toInt hD hfuelD fun i _ => by omega
    rw [if_pos hneg, hskip, Option.map_some, Option.bind_some]
    dsimp only
    rw [if_pos hD.terminator]
    exact appends_unlimited_iff _ hD hS (Nat.zero_lt_of_lt hfuel) hneg _
  · rw [if_neg hneg]
    obtain ⟨k, hk⟩ := Int.eq_ofNat_of_zero_le (not_lt.mp hneg)
    by_cases hover : (params 2).toInt < D.length
    · have hlt : k < D.length := by omega
      rw [if_pos hover, hk, strcatSkip_full hD hfuelD (Nat.le_of_lt hlt), Option.map_some,
        Option.bind_some]
      dsimp only
      rw [if_neg (hD.ne_zero hlt)]
      exact appends_over_iff hD hS hfuelD hlt _
    · have hskip := strcatSkip_end (params 2).toInt hD hfuelD fun i _ => by omega
      rw [if_neg hover, hskip, Option.map_some, Option.bind_some]
      dsimp only
      rw [if_pos hD.terminator]
      exact appends_loop_iff _ hD hS hfuel (not_lt.mp hover)

theorem map_left_eq (start : Nat) {dest : Nat} {c : Int} {d : Option Int}
    (hleft : limit - c = (dest : Int) - start) :
    (appendLoop amx fuel dest src c d memory).map (fun (memory, _, num) => (memory, limit - num)) =
      (appendLoop amx fuel dest src c d memory).map (measured start) := by
  cases hloop : appendLoop amx fuel dest src c d memory with
  | none => rfl
  | some stopped =>
      obtain ⟨after, stop, num⟩ := stopped
      have hnum := appendLoop_left hloop
      have hret : limit - num = (stop : Int) - start := by omega
      rw [Option.map_some, Option.map_some, measured, ← hret]

theorem not_endsWith_full (hlimit : limit ≤ D.length) : ¬ EndsWith start src limit max D S :=
  fun h => by
    have := h.2.2.1
    omega

theorem strcat_appends_iff {params : Nat → Cell}
    (hD : HoldsCells memory amx (cellNumber (params 1)) D)
    (hS : HoldsCells memory amx (cellNumber (params 2)) S) (hfuel : D.length + S.length < fuel) :
    Appends memory amx (cellNumber (params 1)) (params 3).toInt D S
        (strcat fuel amx params memory) ↔
      StrcatFits (cellNumber (params 1)) (cellNumber (params 2)) (params 3).toInt D S := by
  have hfuelD : D.length < fuel := by omega
  rw [strcat, StrcatFits]
  by_cases hneg : (params 3).toInt < 0
  · have hskip := strcatSkip_end (params 3).toInt hD hfuelD fun i _ => by omega
    rw [if_pos hneg, hskip, Option.bind_some]
    dsimp only
    rw [if_neg (by omega), map_left_eq (cellNumber (params 1)) (by push_cast; omega)]
    exact appends_unlimited_iff 0 hD hS (Nat.zero_lt_of_lt hfuel) hneg S
  · rw [if_neg hneg]
    obtain ⟨k, hk⟩ := Int.eq_ofNat_of_zero_le (not_lt.mp hneg)
    by_cases hfull : (params 3).toInt ≤ D.length
    · have hle : k ≤ D.length := by omega
      rw [and_iff_left (not_endsWith_full hfull), hk, strcatSkip_full hD hfuelD hle, Option.bind_some]
      dsimp only
      rw [if_pos rfl, Appends, appended_full D S (by omega)]
      constructor
      · rintro ⟨after, hresult, -, -⟩
        have hzero := (Prod.mk.inj (Option.some.inj hresult)).2
        exact .inl (List.length_eq_zero_iff.mp (by omega))
      · intro hroom
        rcases hroom with rfl | hlt
        · exact ⟨memory, rfl, hD, fun _ _ _ => rfl⟩
        · omega
    · have hskip := strcatSkip_end (params 3).toInt hD hfuelD fun i _ => by omega
      rw [hskip, Option.bind_some, and_iff_right (.inr (not_le.mp hfull))]
      dsimp only
      rw [if_neg (by omega), map_left_eq (cellNumber (params 1)) (by push_cast; omega)]
      exact appends_loop_iff 0 hD hS hfuel (Int.le_of_lt (not_le.mp hfull))

/-- Both natives append within the limit exactly if the text and its limit leave them room,
or there is nothing that they would change. -/
theorem natives_append_iff (hfuel : D.length + S.length < fuel) :
    (∀ params : Nat → Cell, HoldsCells memory amx (cellNumber (params 1)) D →
      HoldsCells memory amx (cellNumber (params 3)) S →
        (Appends memory amx (cellNumber (params 1)) (params 2).toInt D (asked S (params 4).toInt)
            (add fuel amx params memory) ↔
          AddFits (cellNumber (params 1)) (cellNumber (params 3)) (params 2).toInt
            (params 4).toInt D S)) ∧
    ∀ params : Nat → Cell, HoldsCells memory amx (cellNumber (params 1)) D →
      HoldsCells memory amx (cellNumber (params 2)) S →
        (Appends memory amx (cellNumber (params 1)) (params 3).toInt D S
            (strcat fuel amx params memory) ↔
          StrcatFits (cellNumber (params 1)) (cellNumber (params 2)) (params 3).toInt D S) :=
  ⟨fun _ hD hS => add_appends_iff hD hS hfuel, fun _ hD hS => strcat_appends_iff hD hS hfuel⟩

end

/-! The text `ab` in cell 0, and the source `xyz` in cell 8. -/

section

def xyzLine : Memory := lineOf [97, 98, 0, 0, 0, 0, 0, 0, 120, 121, 122, 0]

def xyzAdd (limit : Cell) : Nat → Cell
  | 2 => limit
  | 3 => 4 * 8
  | _ => 0

def xyzStrcat : Nat → Cell
  | 2 => 4 * 8
  | 3 => 4
  | _ => 0

/-- There is room for two more characters. -/
theorem natives_append_xy :
    Appends xyzLine 0 0 4 [97, 98] [120, 121, 122] (add 6 0 (xyzAdd 4) xyzLine) ∧
      Appends xyzLine 0 0 4 [97, 98] [120, 121, 122] (strcat 6 0 xyzStrcat xyzLine) := by
  have hD : HoldsCells xyzLine 0 0 [97, 98] := by decide
  have hS : HoldsCells xyzLine 0 8 [120, 121, 122] := by decide
  have happart : ¬ EndsWith 0 8 4 0 [97, 98] [120, 121, 122] := fun h => absurd h.2.1 (by decide)
  obtain ⟨hadd, hstrcat⟩ := natives_append_iff (D := [97, 98]) (S := [120, 121, 122])
    (by decide : 2 + 3 < 6)
  constructor
  · refine (hadd (xyzAdd 4) hD hS).mpr ?_
    rw [AddFits, if_neg (by decide), if_neg (by decide)]
    exact happart
  · refine (hstrcat xyzStrcat hD hS).mpr ?_
    rw [StrcatFits, if_neg (by decide)]
    exact ⟨.inr (by decide), happart⟩

/-- Past its limit of one character, the text `ab` is overwritten from there on. -/
theorem add_passes_limit :
    ¬ ∀ (memory : Memory) (amx : Amx) (params : Nat → Cell) (D S : List Cell) (fuel : Nat),
      HoldsCells memory amx (cellNumber (params 1)) D →
        HoldsCells memory amx (cellNumber (params 3)) S → 0 ≤ (params 2).toInt →
          D.length + S.length < fuel →
            Appends memory amx (cellNumber (params 1)) (params 2).toInt D
              (asked S (params 4).toInt) (add fuel amx params memory) := by
  intro h
  obtain ⟨after, hresult, -⟩ := h xyzLine 0 (xyzAdd 1) [97, 98] [120, 121, 122] 6 (by decide)
    (by decide) (by decide) (by decide)
  have hret : (add 6 0 (xyzAdd 1) xyzLine).map (fun r => r.2) = some 4 := by decide +kernel
  rw [hresult, Option.map_some] at hret
  have hlength : ((appended 1 [97, 98] [120, 121, 122]).length : Int) ≠ 4 := by decide
  exact hlength (Option.some.inj hret)

end

end AmxModC.Strings
