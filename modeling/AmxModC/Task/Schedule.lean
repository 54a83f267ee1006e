import Mathlib.Tactic.Linarith
import AmxModC.Task.View

namespace AmxModC.Task

open Foundation

/-! How often a task still runs. -/

/-- The calls a task has left, the one in progress included; `none` is no bound. -/
def CTask.runsLeft (task : CTask) : Option Nat :=
  if task.loop then
    if task.repeatCount = -1 then none
    else if task.repeatCount = 0 then some 0
    else some (max 1 task.repeatCount.toNat)
  else some 1

namespace CTask

variable {task : CTask}

theorem hasCall_iff : task.HasCall ↔ task.runsLeft ≠ some 0 := by
  unfold HasCall runsLeft
  by_cases hloop : task.loop = true
  · simp only [hloop, true_and, if_true]
    split
    · simp_all
    split
    · simp_all
    · simp_all
  · simp [hloop]

theorem leave_of_endless (hfree : task.free = false) (hleft : task.runsLeft = none) :
    task.leave =
      { task with inExecute := false, nextExecTime := task.nextExecTime + task.base } := by
  unfold runsLeft at hleft
  split at hleft
  case isTrue hloop =>
    split at hleft
    case isTrue hrepeat => simp [leave, finish, hfree, hloop, hrepeat]
    case isFalse => split at hleft <;> cases hleft
  case isFalse => cases hleft

theorem leave_of_last (hleft : task.runsLeft = some 1) : task.leave.free = true := by
  cases hfree : task.free with
  | true => exact leave_of_free hfree
  | false =>
      unfold runsLeft at hleft
      split at hleft
      case isTrue hloop =>
        split at hleft
        · cases hleft
        split at hleft
        · cases hleft
        · have hrepeat : task.repeatCount - 1 ≤ 0 := by
            have := Option.some.inj hleft
            omega
          simp_all [leave, finish]
      case isFalse hloop => simp [leave, finish, hfree, hloop]

theorem leave_of_more {left : Nat} (hfree : task.free = false)
    (hleft : task.runsLeft = some (left + 2)) :
    task.leave =
      { task with
        inExecute := false
        repeatCount := task.repeatCount - 1
        nextExecTime := task.nextExecTime + task.base } ∧
      task.leave.runsLeft = some (left + 1) := by
  have hloop : task.loop = true := by
    by_contra hloop
    simp [runsLeft, hloop] at hleft
  have hrepeat : task.repeatCount = left + 2 := by
    simp only [runsLeft, hloop, if_true] at hleft
    split at hleft
    · cases hleft
    split at hleft
    · cases hleft
    · have := Option.some.inj hleft
      omega
  have hleave : task.leave =
      { task with
        inExecute := false
        repeatCount := task.repeatCount - 1
        nextExecTime := task.nextExecTime + task.base } := by
    have hmore : ¬ task.repeatCount - 1 ≤ 0 := by omega
    have hbounded : task.repeatCount ≠ -1 := by omega
    simp [leave, finish, hfree, hloop, hmore, hbounded]
  refine ⟨hleave, ?_⟩
  rw [hleave]
  simp only [runsLeft, hloop, hrepeat, if_true]
  rw [if_neg (by omega), if_neg (by omega)]
  congr 1
  omega

end CTask

namespace View

variable {v v' : View}

theorem change_task {task : CTask} (newBase : ℚ) (htask : v.task = some task) :
    (v.change newBase).task = some ((task.changeBase newBase).resetNextExecTime v.time) := by
  simp [View.change, htask]

inductive Budget (total : Nat) (v : View) : Prop where
  | spent (htask : v.task = none) (hruns : v.runs.length = total)
  | live (task : CTask) (left : Nat) (htask : v.task = some task) (hfree : task.free = false)
      (hleft : task.runsLeft = some (left + 1))
      (hruns : v.runs.length + left + (if v.position = .running then 0 else 1) = total)

theorem Budget.step {total : Nat} (h : Budget total v) (hstep : v.Step v') :
    Budget total v' := by
  cases h with
  | spent htask hruns =>
      cases hstep with
      | call task hposition hlive => exact absurd (htask.symm.trans hlive) (by simp)
      | leave hposition => exact .spent (by simp [htask]) hruns
      | drop => exact .spent rfl hruns
      | stay | start | finish | skip | enter => exact .spent htask hruns
  | live task left htask hfree hleft hruns =>
      cases hstep with
      | stay => exact .live task left htask hfree hleft hruns
      | start time hposition | finish hposition | skip hposition =>
          rw [hposition] at hruns
          exact .live task left htask hfree hleft hruns
      | enter hposition hnone => exact absurd (htask.symm.trans hnone) (by simp)
      | call other hposition hother hdue hcall =>
          obtain rfl : task = other := Option.some.inj (htask.symm.trans hother)
          rw [hposition] at hruns
          refine .live _ left rfl hfree hleft ?_
          simp only [List.length_append, List.length_singleton, if_true]
          simp only [reduceCtorEq, if_false] at hruns
          omega
      | drop other hposition hother hdue hcall =>
          obtain rfl : task = other := Option.some.inj (htask.symm.trans hother)
          exact absurd (CTask.hasCall_iff.mpr (by simp [hleft])) hcall
      | leave hposition =>
          rw [hposition] at hruns
          cases left with
          | zero =>
              refine .spent ?_ (by simpa using hruns)
              simp [htask, Option.guard, CTask.leave_of_last hleft]
          | succ left =>
              obtain ⟨hleave, hmore⟩ := CTask.leave_of_more hfree hleft
              have hlive : task.leave.free = false := by rw [hleave]; exact hfree
              refine .live task.leave left ?_ hlive hmore ?_
              · simp [htask, Option.guard, hlive]
              · simp only [if_true, reduceCtorEq, if_false] at hruns ⊢
                omega

theorem Budget.change {total : Nat} (newBase : ℚ) (h : Budget total v) :
    Budget total (v.change newBase) := by
  cases h with
  | spent htask hruns => exact .spent (by simp [View.change, htask]) hruns
  | live task left htask hfree hleft hruns =>
      exact .live _ left (change_task newBase htask) hfree hleft hruns

theorem Budget.runs_le {total : Nat} (h : Budget total v) : v.runs.length ≤ total := by
  cases h with
  | spent htask hruns => exact hruns.le
  | live task left htask hfree hleft hruns => omega

theorem Budget.left_pos {total : Nat} (h : Budget total v) :
    ∀ task ∈ v.task, ∃ left, task.runsLeft = some (left + 1) := by
  intro task htask
  cases h with
  | spent hnone hruns => exact absurd (hnone.symm.trans htask) (by simp)
  | live other left hother hfree hleft hruns =>
      obtain rfl : other = task := Option.some.inj (hother.symm.trans htask)
      exact ⟨left, hleft⟩

def Endless (v : View) : Prop :=
  ∃ task, v.task = some task ∧ task.free = false ∧ task.runsLeft = none

theorem Endless.step (h : v.Endless) (hstep : v.Step v') : v'.Endless := by
  obtain ⟨task, htask, hfree, hleft⟩ := h
  cases hstep with
  | stay | start | finish | skip | enter => exact ⟨task, htask, hfree, hleft⟩
  | call other hposition hother =>
      obtain rfl : task = other := Option.some.inj (htask.symm.trans hother)
      exact ⟨_, rfl, hfree, hleft⟩
  | drop other hposition hother hdue hcall =>
      obtain rfl : task = other := Option.some.inj (htask.symm.trans hother)
      exact absurd (CTask.hasCall_iff.mpr (by simp [hleft])) hcall
  | leave hposition =>
      have hleave := CTask.leave_of_endless hfree hleft
      refine ⟨task.leave, ?_, by rw [hleave]; exact hfree, by rw [hleave]; exact hleft⟩
      rw [hleave]
      simp [htask, hleave, Option.guard, hfree]

theorem Endless.change (newBase : ℚ) (h : v.Endless) : (v.change newBase).Endless := by
  obtain ⟨task, htask, hfree, hleft⟩ := h
  exact ⟨_, change_task newBase htask, hfree, hleft⟩

structure Dated (v : View) : Prop where
  nodup : v.runs.Nodup
  started : ∀ frame ∈ v.runs, frame < v.frames.length
  ahead : v.position = .ahead → ∀ frame ∈ v.runs, frame + 1 < v.frames.length
  clock : v.position = .ahead → v.frames ≠ []

theorem Dated.step (h : v.Dated) (hstep : v.Step v') : v'.Dated := by
  cases hstep with
  | stay => exact h
  | start time hposition =>
      refine ⟨h.nodup, fun frame hframe => ?_, fun _ frame hframe => ?_, fun _ => by simp⟩
      · have := h.started frame hframe
        simp only [List.length_append, List.length_singleton]
        omega
      · have := h.started frame hframe
        simp only [List.length_append, List.length_singleton]
        omega
  | finish | skip | enter | drop | leave =>
      exact ⟨h.nodup, h.started, fun h => by simp at h, fun h => by simp at h⟩
  | call task hposition htask hdue hcall =>
      have hpos := List.length_pos_of_ne_nil (h.clock hposition)
      refine ⟨?_, ?_, fun h => by simp at h, fun h => by simp at h⟩
      · refine List.nodup_append'.mpr ⟨h.nodup, List.nodup_singleton _, ?_⟩
        intro frame hframe hlast
        obtain rfl := List.mem_singleton.mp hlast
        have := h.ahead hposition _ hframe
        omega
      · intro frame hframe
        rcases List.mem_append.mp hframe with hold | hnew
        · exact h.started frame hold
        · obtain rfl := List.mem_singleton.mp hnew
          change v.frames.length - 1 < v.frames.length
          omega

theorem Dated.change (newBase : ℚ) (h : v.Dated) : (v.change newBase).Dated :=
  ⟨h.nodup, h.started, h.ahead, h.clock⟩

theorem Dated.remove (h : v.Dated) : v.remove.Dated :=
  ⟨h.nodup, h.started, h.ahead, h.clock⟩

end View

/-! Frames late enough for a task to run in each of them. -/

/-- How many of the frames from number `first` on are at `time` or later. -/
def lateFrames (first : Nat) (time : ℚ) (frames : List ℚ) : Nat :=
  (frames.drop first).countP fun frame => time ≤ frame

theorem lateFrames_concat (first : Nat) (time frame : ℚ) (frames : List ℚ) :
    lateFrames first time (frames ++ [frame]) ≤
      lateFrames first time frames + if time ≤ frame then 1 else 0 := by
  unfold lateFrames
  rw [List.drop_append, List.countP_append]
  have hlast := (List.drop_sublist (first - frames.length) [frame]).countP_le
    (p := fun frame => decide (time ≤ frame))
  rw [List.countP_singleton] at hlast
  simp only [decide_eq_true_eq] at hlast
  omega

theorem lateFrames_dropLast (first : Nat) (time : ℚ) (frames : List ℚ) :
    lateFrames first time frames.dropLast ≤ lateFrames first time frames := by
  have hsub : List.Sublist (frames.dropLast.drop first) (frames.drop first) :=
    (List.dropLast_sublist frames).drop first
  exact hsub.countP_le

theorem lateFrames_new (time : ℚ) (frames : List ℚ) :
    lateFrames frames.length time frames = 0 := by
  simp [lateFrames]

def CTask.lateTime (task : CTask) : ℚ :=
  if task.afterStart then task.base - 1
  else task.nextExecTime + task.runsLeft.getD 0 * max task.base 0

namespace View

variable {v v' : View}

def reached (v : View) : List ℚ :=
  if v.position = .ahead then v.frames.dropLast else v.frames

structure Punctual (first before : Nat) (time : ℚ) (v : View) : Prop where
  clock : v.position = .ahead → ∃ earlier, v.frames = earlier ++ [v.time]
  kept : ∀ task ∈ v.task, task.free = false ∧ (task.beforeEnd = true → task.afterStart = true) ∧
    task.lateTime ≤ time ∧ before + lateFrames first time v.reached ≤ v.runs.length

theorem due_of_late {task : CTask} {time now : ℚ}
    (hflags : task.beforeEnd = true → task.afterStart = true) (hlate : task.lateTime ≤ time)
    (hnow : time ≤ now) : task.Due now := by
  have hnow := hlate.trans hnow
  unfold CTask.Due
  unfold CTask.lateTime at hnow
  split
  case isTrue hafter =>
    rw [if_pos hafter] at hnow
    linarith
  case isFalse hafter =>
    rw [if_neg hafter] at hnow
    rw [if_neg fun h => hafter (hflags h)]
    have hpos : 0 ≤ (task.runsLeft.getD 0 : ℚ) * max task.base 0 :=
      mul_nonneg (Nat.cast_nonneg _) (le_max_right _ _)
    linarith

theorem lateTime_leave {task : CTask} {left : Nat} (hfree : task.free = false)
    (hleft : task.runsLeft = some (left + 2)) : task.leave.lateTime ≤ task.lateTime := by
  obtain ⟨hleave, hmore⟩ := CTask.leave_of_more hfree hleft
  unfold CTask.lateTime
  rw [hmore, hleft, hleave]
  dsimp only
  split
  case isTrue => exact le_rfl
  case isFalse =>
    have hbase : task.base ≤ max task.base 0 := le_max_left _ _
    simp only [Option.getD_some]
    push_cast
    linarith

theorem Punctual.step {first before : Nat} {time : ℚ} (h : Punctual first before time v)
    (hbudget : ∀ task ∈ v.task, ∃ left, task.runsLeft = some (left + 1))
    (hstep : v.Step v') : Punctual first before time v' := by
  cases hstep with
  | stay => exact h
  | start now hposition =>
      refine ⟨fun _ => ⟨v.frames, rfl⟩, fun task htask => ?_⟩
      obtain ⟨hfree, hflags, hlate, hruns⟩ := h.kept task htask
      refine ⟨hfree, hflags, hlate, ?_⟩
      simpa [reached, hposition] using hruns
  | finish hposition =>
      refine ⟨fun h => by simp at h, fun task htask => ?_⟩
      obtain ⟨hfree, hflags, hlate, hruns⟩ := h.kept task htask
      refine ⟨hfree, hflags, hlate, ?_⟩
      simpa [reached, hposition] using hruns
  | skip hposition hdue =>
      refine ⟨fun h => by simp at h, fun task htask => ?_⟩
      obtain ⟨hfree, hflags, hlate, hruns⟩ := h.kept task htask
      refine ⟨hfree, hflags, hlate, ?_⟩
      obtain ⟨earlier, hframes⟩ := h.clock hposition
      have hearly : ¬ time ≤ v.time := fun hnow =>
        hdue task htask (due_of_late hflags hlate hnow)
      have hgrown := lateFrames_concat first time v.time earlier
      rw [if_neg hearly] at hgrown
      simp only [reached, hposition, hframes, if_true, List.dropLast_concat, reduceCtorEq,
        if_false] at hruns ⊢
      omega
  | enter hposition hnone =>
      exact ⟨fun h => by simp at h, fun task htask => absurd htask (by simp [hnone])⟩
  | call task hposition htask hdue hcall =>
      refine ⟨fun h => by simp at h, fun other hother => ?_⟩
      obtain rfl := Option.some.inj hother
      obtain ⟨hfree, hflags, hlate, hruns⟩ := h.kept task htask
      refine ⟨hfree, hflags, hlate, ?_⟩
      obtain ⟨earlier, hframes⟩ := h.clock hposition
      have hgrown := lateFrames_concat first time v.time earlier
      have hone : (if time ≤ v.time then 1 else 0) ≤ 1 := by split <;> omega
      simp only [reached, hposition, hframes, if_true, List.dropLast_concat, reduceCtorEq,
        if_false, List.length_append, List.length_singleton] at hruns ⊢
      omega
  | drop => exact ⟨fun h => by simp at h, fun task htask => absurd htask (by simp)⟩
  | leave hposition =>
      refine ⟨fun h => by simp at h, fun task htask => ?_⟩
      obtain ⟨old, hold, hguard⟩ := Option.bind_eq_some_iff.mp htask
      obtain ⟨rfl, hlive⟩ := Option.guard_eq_some_iff.mp hguard
      obtain ⟨hfree, hflags, hlate, hruns⟩ := h.kept old hold
      obtain ⟨left, hleft⟩ := hbudget old hold
      cases left with
      | zero => simp [CTask.leave_of_last hleft] at hlive
      | succ left =>
          obtain ⟨hleave, hmore⟩ := CTask.leave_of_more hfree hleft
          refine ⟨by simpa using hlive, by rw [hleave]; exact hflags,
            (lateTime_leave hfree hleft).trans hlate, ?_⟩
          simpa [reached, hposition] using hruns

end View

end AmxModC.Task
