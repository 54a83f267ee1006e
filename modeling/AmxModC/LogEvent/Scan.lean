import AmxModC.LogEvent.Model

namespace AmxModC.LogEvent

open Foundation

/-! The scan of `parseLogString` with every access to the log string and to the
arguments checked. -/

namespace LogEventsMngr

/-- `argument`, from the character number `b` of the log string, with `room` for so
many more. -/
def argumentAt (logString : List Byte) (stop : Byte → Bool) : Nat → Nat → Option (List Byte × Nat)
  | 0, b => logString[b]?.map fun _ => ([], b)
  | room + 1, b =>
      logString[b]?.bind fun c =>
        if c ≠ 0 && !stop c then
          (argumentAt logString stop room (b + 1)).map fun (arg, b) => (c :: arg, b)
        else some ([], b)

def skipAt (logString : List Byte) (b : Nat) : Option Nat :=
  logString[b]?.map fun c => if c ≠ 0 then b + 2 else b

def parseArgAt (logString : List Byte) (b : Nat) : Option (List Byte × Nat) :=
  logString[b]?.bind fun c =>
    if c = 34 then
      (argumentAt logString (· = 34) 127 (b + 1)).bind fun (arg, b) =>
        (skipAt logString b).map fun b => (arg, b)
    else if c = 40 then
      (argumentAt logString (· = 41) 127 (b + 1)).bind fun (arg, b) =>
        (skipAt logString b).map fun b => (arg, b)
    else
      (argumentAt logString (fun c => c = 40 || c = 34) 127 b).bind fun (arg, b) =>
        logString[b]?.bind fun c =>
          if c = 0 then some (arg, b) else if arg = [] then none else some (arg.dropLast, b)

def addArg (mngr : LogEventsMngr) (arg : List Byte) : LogEventsMngr :=
  { mngr with
    logArgs := Function.update mngr.logArgs mngr.logArgc arg
    logArgc := mngr.logArgc + 1 }

def store (mngr : LogEventsMngr) (arg : List Byte) : Option LogEventsMngr :=
  if mngr.logArgc < maxLogArgs ∧ arg.length < 128 then some (mngr.addArg arg) else none

/-- `none` also where the loop is not done with its `fuel`. -/
def parseFrom : Nat → LogEventsMngr → Nat → Option LogEventsMngr
  | 0, _, _ => none
  | fuel + 1, mngr, b =>
      mngr.logString[b]?.bind fun c =>
        if c ≠ 0 ∧ mngr.logArgc < maxLogArgs then
          (parseArgAt mngr.logString b).bind fun (arg, b) =>
            (mngr.store arg).bind fun mngr => parseFrom fuel mngr b
        else some mngr

/-- `setLogString` followed by `parseLogString`. -/
def log (fuel : Nat) (mngr : LogEventsMngr) (text : CString) : Option LogEventsMngr :=
  (mngr.setLogString text).bind fun mngr => parseFrom fuel mngr 0

def getLogArgs (mngr : LogEventsMngr) : List (List Byte) :=
  (List.range mngr.logArgc).map mngr.logArgs

structure Framed (logString : List Byte) : Prop where
  size : logString.length = 256
  last : ∀ i, 254 ≤ i → logString[i]?.getD 0 = 0

section

variable {mngr next : LogEventsMngr} {logString : List Byte} {text : CString} {b : Nat}

theorem Framed.getElem? (h : Framed logString) (hb : b < 256) :
    logString[b]? = some ((logString.drop b).headD 0) := by
  have hlt : b < logString.length := h.size.symm ▸ hb
  rw [List.drop_eq_getElem_cons hlt, List.headD_cons, List.getElem?_eq_getElem hlt]

theorem Framed.lt_of_headD (h : Framed logString) (hhead : (logString.drop b).headD 0 ≠ 0) :
    b < 254 := by
  refine Nat.lt_of_not_le fun hle => hhead ?_
  have hlast := h.last b hle
  rwa [← List.head?_drop, ← List.headD_eq_head?_getD] at hlast

theorem framed_create : Framed create.logString where
  size := List.length_replicate
  last := by
    intro i _
    rw [create, List.getElem?_replicate]
    split <;> rfl

theorem Framed.write (h : Framed logString) (text : CString) :
    Framed (text.bytes.take 254 ++ 0 :: logString.drop ((text.bytes.take 254).length + 1)) := by
  have hle : (text.bytes.take 254).length ≤ 254 := List.length_take_le _ _
  refine ⟨?_, fun i hi => ?_⟩
  · rw [List.length_append, List.length_cons, List.length_drop, h.size]
    omega
  · rw [List.getElem?_append_right (hle.trans hi), List.getElem?_cons]
    split
    next => rfl
    next hne =>
        rw [List.getElem?_drop]
        exact h.last _ (by omega)

theorem Framed.set (h : Framed logString) (n : Nat) : Framed (logString.set n 0) := by
  refine ⟨List.length_set.trans h.size, fun i hi => ?_⟩
  rw [List.getElem?_set]
  split
  next => rw [apply_ite (Option.getD · 0), Option.getD_some, Option.getD_none, ite_self]
  next => exact h.last i hi

theorem Framed.setLogString (h : Framed mngr.logString)
    (hset : mngr.setLogString text = some next) : Framed next.logString := by
  rw [LogEventsMngr.setLogString] at hset
  split at hset
  next =>
      cases hset
      exact h.write text
  next =>
      split at hset
      next =>
          cases hset
          exact (h.write text).set _
      next => cases hset

theorem setLogString_isSome_iff (h : Framed mngr.logString) (text : CString) :
    (mngr.setLogString text).isSome ↔ text.size ≤ 256 := by
  rw [LogEventsMngr.setLogString]
  dsimp only
  rw [(h.write text).size]
  split
  next hzero => simp [hzero]
  next =>
      split
      next hlt => exact iff_of_true rfl (by omega)
      next hlt => exact iff_of_false Bool.false_ne_true (by omega)

/-! The checked scan reads what the scan of the whole rest reads. -/

theorem argumentAt_eq (h : Framed logString) (stop : Byte → Bool) (room : Nat) (hb : b < 255) :
    ∃ arg, ((logString.drop b).takeWhile fun c => c ≠ 0 && !stop c).take room = arg ∧
      argumentAt logString stop room b = some (arg, b + arg.length) ∧
        b + arg.length < 255 := by
  induction room generalizing b with
  | zero =>
      refine ⟨[], List.take_zero, ?_, hb⟩
      rw [argumentAt, h.getElem? (by omega)]
      rfl
  | succ room ih =>
      have hlt : b < logString.length := by rw [h.size]; omega
      rw [argumentAt, h.getElem? (by omega), List.drop_eq_getElem_cons hlt, List.headD_cons,
        Option.bind_some]
      split
      next hgo =>
          have hnext : b < 254 := by
            refine h.lt_of_headD ?_
            rw [List.drop_eq_getElem_cons hlt, List.headD_cons]
            rw [Bool.and_eq_true, decide_eq_true_iff] at hgo
            exact hgo.1
          obtain ⟨arg, harg, hat, hle⟩ := ih (b := b + 1) (by omega)
          refine ⟨logString[b] :: arg, ?_, ?_, ?_⟩
          · rw [List.takeWhile_cons, if_pos hgo, List.take_succ_cons, harg]
          · rw [hat, Option.map_some, List.length_cons, Nat.add_right_comm, Nat.add_assoc]
          · rw [List.length_cons]
            omega
      next hstop =>
          refine ⟨[], ?_, rfl, hb⟩
          rw [List.takeWhile_cons, if_neg hstop, List.take_nil]

theorem skipAt_eq (h : Framed logString) (hb : b < 255) :
    ∃ b', skipAt logString b = some b' ∧ logString.drop b' = skip (logString.drop b) ∧
      b' < 256 := by
  rw [skipAt, skip, h.getElem? (by omega), Option.map_some]
  split
  next hhead =>
      have hlt := h.lt_of_headD hhead
      exact ⟨b + 2, rfl, List.drop_drop.symm, by omega⟩
  next => exact ⟨b, rfl, rfl, by omega⟩

theorem enclosed_eq (h : Framed logString) (stop : Byte → Bool) (hb : b < 255) :
    ∃ b', ((argumentAt logString stop 127 b).bind fun (arg, b) =>
        (skipAt logString b).map fun b => (arg, b)) =
          some (argument stop (logString.drop b), b') ∧
      logString.drop b' =
        skip ((logString.drop b).drop (argument stop (logString.drop b)).length) ∧ b' < 256 := by
  obtain ⟨arg, harg, hat, hlt⟩ := argumentAt_eq h stop 127 hb
  obtain ⟨b', hskip, hdrop, hlt'⟩ := skipAt_eq h hlt
  have hargument : argument stop (logString.drop b) = arg := harg
  rw [hargument, hat, Option.bind_some]
  dsimp only
  rw [hskip, List.drop_drop]
  exact ⟨b', rfl, hdrop, hlt'⟩

theorem bare_eq (h : Framed logString) (stop : Byte → Bool) (hb : b < 255)
    (hhead : (logString.drop b).headD 0 ≠ 0) (hgo : stop ((logString.drop b).headD 0) = false) :
    ∃ b', ((argumentAt logString stop 127 b).bind fun (arg, b) =>
        logString[b]?.bind fun c =>
          if c = 0 then some (arg, b) else if arg = [] then none else some (arg.dropLast, b)) =
        some (if (logString.drop b').headD 0 ≠ 0 then (argument stop (logString.drop b)).dropLast
          else argument stop (logString.drop b), b') ∧
      logString.drop b' = (logString.drop b).drop (argument stop (logString.drop b)).length ∧
      b' < 256 := by
  obtain ⟨arg, harg, hat, hlt⟩ := argumentAt_eq h stop 127 hb
  have hargument : argument stop (logString.drop b) = arg := harg
  have hne : arg ≠ [] := by
    have hat : b < logString.length := by rw [h.size]; omega
    rw [List.drop_eq_getElem_cons hat, List.headD_cons] at hhead hgo
    have hread : (logString[b] ≠ 0 && !stop logString[b]) = true := by
      rw [hgo, Bool.not_false, Bool.and_true]
      exact decide_eq_true hhead
    rw [List.drop_eq_getElem_cons hat, List.takeWhile_cons, if_pos hread] at harg
    rw [← harg]
    exact List.cons_ne_nil _ _
  refine ⟨b + arg.length, ?_, ?_, by omega⟩
  · rw [hargument, hat, Option.bind_some]
    dsimp only
    rw [h.getElem? (by omega), Option.bind_some, if_neg hne]
    split
    next hzero => rw [if_neg (not_not.mpr hzero)]
    next => rfl
  · rw [hargument, List.drop_drop]

theorem parseArgAt_eq (h : Framed logString) (hhead : (logString.drop b).headD 0 ≠ 0) :
    ∃ b', parseArgAt logString b = some ((parseArg (logString.drop b)).1, b') ∧
      logString.drop b' = (parseArg (logString.drop b)).2 ∧ b' < 256 := by
  have hb := h.lt_of_headD hhead
  rw [parseArgAt, parseArg, h.getElem? (by omega), Option.bind_some, List.tail_drop]
  split
  next => exact enclosed_eq h _ (by omega)
  next hquote =>
      split
      next => exact enclosed_eq h _ (by omega)
      next hparen =>
          obtain ⟨b', hat, hdrop, hlt⟩ := bare_eq h (fun c => c = 40 || c = 34) (by omega) hhead
            (Bool.or_eq_false_iff.mpr ⟨decide_eq_false hparen, decide_eq_false hquote⟩)
          refine ⟨b', ?_, hdrop, hlt⟩
          rw [hat, hdrop]

theorem parseArg_length (s : List Byte) : (parseArg s).1.length < 128 := by
  have hroom : ∀ stop s, (argument stop s).length < 128 := fun stop s =>
    Nat.lt_succ_of_le (List.length_take_le _ _)
  rw [parseArg]
  split
  next => exact hroom _ _
  next =>
      split
      next => exact hroom _ _
      next =>
          dsimp only
          split
          next =>
              rw [List.length_dropLast]
              exact Nat.lt_of_le_of_lt (Nat.sub_le _ _) (hroom _ _)
          next => exact hroom _ _

theorem parseFrom_eq (h : Framed mngr.logString) (hb : b < 256) {fuel : Nat}
    (hfuel : maxLogArgs - mngr.logArgc < fuel) :
    parseFrom fuel mngr b =
      some (mngr.parseArgs (maxLogArgs - mngr.logArgc) (mngr.logString.drop b)) := by
  induction fuel generalizing mngr b with
  | zero => cases hfuel
  | succ fuel ih =>
      rw [parseFrom, h.getElem? hb, Option.bind_some]
      split
      next hgo =>
          obtain ⟨hhead, hargc⟩ := hgo
          obtain ⟨b', hat, hdrop, hb'⟩ := parseArgAt_eq h hhead
          have hrest := @ih (mngr.addArg (parseArg (mngr.logString.drop b)).1) b' h hb' (by
            change maxLogArgs - (mngr.logArgc + 1) < fuel
            omega)
          have hturns : maxLogArgs - mngr.logArgc = maxLogArgs - (mngr.logArgc + 1) + 1 := by omega
          rw [hat, Option.bind_some]
          dsimp only
          rw [store, if_pos ⟨hargc, parseArg_length _⟩, Option.bind_some, hrest, hturns, parseArgs,
            if_pos hhead, ← hdrop]
          rfl
      next hstop =>
          cases hturns : maxLogArgs - mngr.logArgc with
          | zero => rfl
          | succ turns =>
              have hhead : (mngr.logString.drop b).headD 0 = 0 := by
                refine Classical.byContradiction fun hhead => hstop ⟨hhead, ?_⟩
                omega
              rw [parseArgs, if_neg (not_not.mpr hhead)]

end

end LogEventsMngr

end AmxModC.LogEvent
