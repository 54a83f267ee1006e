import Mathlib.Data.List.Chain
import AmxModC.Ham.Model

namespace AmxModC.Ham

/-! Where the forwards of every hooked call run or are skipped as they should be. -/

def lastStep (last : Step) (steps : List Step) : Step :=
  steps.foldl (fun _ step => step) last

theorem lastStep_append (last : Step) (first second : List Step) :
    lastStep last (first ++ second) = lastStep (lastStep last first) second :=
  List.foldl_append

theorem isChain_append (last : Step) (first second : List Step) :
    List.IsChain Fits (last :: (first ++ second)) ↔
      List.IsChain Fits (last :: first) ∧
        List.IsChain Fits (lastStep last first :: second) := by
  induction first generalizing last with
  | nil => simp [lastStep]
  | cons step rest ih =>
      simp only [List.cons_append, List.isChain_cons_cons, ih, and_assoc]
      rfl

def Globals.After (globals : Globals) (last : Step) : Prop :=
  globals.doForwards = decide (last ≠ .clear)

def Globals.AllRight (globals : Globals) : Prop := ∀ hooked ∈ globals.log, hooked.Right

/-- A run against the steps that it should take: from a flag that is right, it logs a call
that is wrong exactly if a step does not fit. -/
structure Follows (before after : Globals) (last : Step) (steps : List Step) : Prop where
  kept : before.log ⊆ after.log
  right : before.After last →
    (after.AllRight ↔ before.AllRight ∧ List.IsChain Fits (last :: steps))
  flag : before.After last → List.IsChain Fits (last :: steps) →
    after.After (lastStep last steps)

def callStep (own : Bool) : Step := if own then .own else .other

theorem fits_callStep {globals : Globals} {last : Step} {own : Bool}
    (h : globals.After last) : Fits last (callStep own) ↔ globals.doForwards = !own := by
  rw [h]
  cases own with
  | true => simp [callStep, Fits]
  | false => simp [callStep, Fits]

theorem after_callStep (own : Bool) (log : List Hooked) :
    Globals.After ⟨true, log⟩ (callStep own) := by
  cases own with
  | true => rfl
  | false => rfl

namespace Follows

variable {before middle after : Globals} {last step : Step} {steps first second : List Step}

theorem refl (globals : Globals) (last : Step) : Follows globals globals last [] where
  kept := List.Subset.refl _
  right _ := by simp
  flag h _ := h

theorem append (hfirst : Follows before middle last first)
    (hsecond : Follows middle after (lastStep last first) second) :
    Follows before after last (first ++ second) where
  kept := List.Subset.trans hfirst.kept hsecond.kept
  right h := by
    rw [isChain_append]
    by_cases hchain : List.IsChain Fits (last :: first)
    · rw [hsecond.right (hfirst.flag h hchain), hfirst.right h, and_assoc]
    · have hmiddle : ¬ middle.AllRight := fun hright =>
        hchain ((hfirst.right h).mp hright).2
      have hafter : ¬ after.AllRight := fun hright =>
        hmiddle fun hooked hmem => hright hooked (hsecond.kept hmem)
      simp [hafter, hchain]
  flag h hchain := by
    rw [isChain_append] at hchain
    rw [lastStep_append]
    exact hsecond.flag (hfirst.flag h hchain.1) hchain.2

theorem enter {globals : Globals} (own : Bool) (order : Bool → List Step)
    (h : Follows ⟨true, globals.log ++ [⟨own, globals.doForwards⟩]⟩ after (callStep own)
      (order globals.doForwards)) :
    Follows globals after last (callStep own :: order (!own)) where
  kept := fun hooked hmem => h.kept (List.mem_append_left _ hmem)
  right hlast := by
    rw [List.isChain_cons_cons, fits_callStep hlast]
    by_cases hown : globals.doForwards = !own
    · have hbefore : Globals.AllRight ⟨true, globals.log ++ [⟨own, globals.doForwards⟩]⟩ ↔
          globals.AllRight := by
        simp [Globals.AllRight, Hooked.Right, hown, or_imp, forall_and]
      rw [h.right (after_callStep own _), hbefore, hown]
      simp
    · have hafter : ¬ after.AllRight := fun hright =>
        hown (hright _ (h.kept (List.mem_append_right _ List.mem_cons_self)))
      simp [hafter, hown]
  flag hlast hchain := by
    rw [List.isChain_cons_cons, fits_callStep hlast] at hchain
    rw [hchain.1] at h
    exact h.flag (after_callStep own _) hchain.2

theorem write (hstep : step = .clear ∨ step = .set) (hlog : after.log = before.log)
    (hflag : before.After last → after.After step) : Follows before after last [step] where
  kept := by rw [hlog]; exact List.Subset.refl _
  right _ := by
    have hfits : Fits last step := by
      obtain rfl | rfl := hstep <;> trivial
    simp [Globals.AllRight, hlog, hfits]
  flag h _ := hflag h

end Follows

theorem Execute.follows (native : Execute) (globals : Globals) (last : Step) :
    Follows globals { globals with doForwards := native.doForwards } last [native.step] := by
  cases native with
  | executeHam => exact .write (.inl rfl) rfl fun _ => rfl
  | executeHamB => exact .write (.inr rfl) rfl fun _ => rfl

theorem Globals.setup_follows (globals : Globals) (func : Nat) (tramp : Option Nat)
    (last : Step) :
    Follows globals (globals.setup func tramp) last (setupSteps func tramp) := by
  unfold Globals.setup setupSteps
  cases istramp func tramp with
  | true => exact .refl globals last
  | false =>
      cases hflag : globals.doForwards with
      | true => exact .write (.inr rfl) rfl fun _ => by simp [Globals.After, hflag]
      | false => exact .write (.inr rfl) rfl fun _ => rfl

theorem Forwards.hamUnset_le_result (forwards : Forwards) : hamUnset ≤ forwards.result := by
  match forwards with
  | .nil => exact Int.le_refl _
  | .cons state body result rest =>
      have ih := rest.hamUnset_le_result
      simp only [Forwards.result]
      split
      next => omega
      next => exact ih

@[simp] theorem PreLoop.keep_globals (loop : PreLoop) : loop.keep.globals = loop.globals := by
  unfold PreLoop.keep
  split <;> rfl

@[simp] theorem PreLoop.keep_thisResult (loop : PreLoop) :
    loop.keep.thisResult = loop.thisResult := by
  unfold PreLoop.keep
  split <;> rfl

theorem PreLoop.keep_result (loop : PreLoop) :
    loop.keep.result = max loop.result loop.thisResult := by
  unfold PreLoop.keep
  split
  next h => exact (Int.max_eq_right (Int.le_of_lt h)).symm
  next h => exact (Int.max_eq_left (Int.not_lt.mp h)).symm

theorem Forwards.runPre_result (forwards : Forwards) (loop : PreLoop)
    (hthis : loop.thisResult ≤ loop.result) (hunset : hamUnset ≤ loop.result) :
    (forwards.runPre loop).result = max loop.result forwards.result := by
  match forwards with
  | .nil => exact (Int.max_eq_left hunset).symm
  | .cons state body result rest =>
      simp only [Forwards.runPre, Forwards.result]
      have hkept := rest.runPre_result
        (if state = .ok then PreLoop.mk (body.run loop.globals) loop.result result
          else loop).keep
      simp only [PreLoop.keep_result, PreLoop.keep_thisResult] at hkept
      by_cases hok : state = .ok
      · simp only [hok, if_true] at hkept ⊢
        rw [hkept (by omega) (by omega)]
        omega
      · simp only [hok, if_false] at hkept ⊢
        rw [hkept (by omega) (by omega)]
        omega

mutual
theorem Code.follows (code : Code) (globals : Globals) (last : Step) :
    Follows globals (code.run globals) last code.order := by
  match code with
  | .done => exact .refl globals last
  | .engine call rest =>
      have hcall := call.follows false globals last
      exact hcall.append (rest.follows _ _)
  | .execute native request rest =>
      exact (request.follows native globals last).append (rest.follows _ _)

theorem Call.follows (call : Call) (own : Bool) (globals : Globals) (last : Step) :
    Follows globals (call.run own globals) last (callStep own :: call.order (!own)) := by
  match call with
  | .mk pre original post =>
      apply Follows.enter own (Call.mk pre original post).order
      simp only [Call.run, Call.order]
      generalize Globals.mk true (globals.log ++ [⟨own, globals.doForwards⟩]) = inner
      cases globals.doForwards with
      | false =>
          have horiginal := original.follows inner (callStep own)
          simpa [hamUnset, hamSupercede] using horiginal
      | true =>
          have hresult := pre.runPre_result ⟨inner, hamUnset, hamUnset⟩ (Int.le_refl _)
            (Int.le_refl _)
          rw [Int.max_eq_right pre.hamUnset_le_result] at hresult
          simp only [if_true, hresult, Bool.true_and, decide_eq_true_eq]
          refine Follows.append (Follows.append
            (pre.runPre_follows ⟨inner, hamUnset, hamUnset⟩ _) ?_) (post.runPost_follows _ _)
          by_cases hless : pre.result < hamSupercede
          · rw [if_pos hless, if_neg (Int.not_le.mpr hless)]
            exact original.follows _ _
          · rw [if_neg hless, if_pos (Int.not_lt.mp hless)]
            exact .refl _ _

theorem Forwards.runPre_follows (forwards : Forwards) (loop : PreLoop) (last : Step) :
    Follows loop.globals (forwards.runPre loop).globals last forwards.order := by
  match forwards with
  | .nil => exact .refl loop.globals last
  | .cons state body result rest =>
      have hrest := rest.runPre_follows
        (if state = .ok then PreLoop.mk (body.run loop.globals) loop.result result
          else loop).keep
      rw [PreLoop.keep_globals] at hrest
      refine Follows.append ?_ (hrest _)
      split
      next => exact body.follows loop.globals last
      next => exact .refl loop.globals last

theorem Forwards.runPost_follows (forwards : Forwards) (globals : Globals) (last : Step) :
    Follows globals (forwards.runPost globals) last forwards.order := by
  match forwards with
  | .nil => exact .refl globals last
  | .cons state body result rest =>
      refine Follows.append ?_ (rest.runPost_follows _ _)
      split
      next => exact body.follows globals last
      next => exact .refl globals last

theorem Request.follows (request : Request) (native : Execute) (globals : Globals)
    (last : Step) : Follows globals (request.run native globals) last
      (request.order native) := by
  match request with
  | .badFunction handler => exact handler.follows globals last
  | .rejected handler =>
      exact (native.follows globals last).append (handler.follows _ _)
  | .badParameter func tramp handler =>
      have hsetup := (native.follows globals last).append
        (Globals.setup_follows _ func tramp _)
      exact hsetup.append (handler.follows _ _)
  | .made func entry =>
      have hsetup := (native.follows globals last).append
        (Globals.setup_follows _ func entry.owner _)
      exact hsetup.append (entry.follows native _ _)

theorem Entry.follows (entry : Entry) (native : Execute) (globals : Globals) (last : Step) :
    Follows globals (entry.run native globals) last (entry.order native) := by
  match entry with
  | .original body => exact body.follows globals last
  | .trampoline owner call =>
      cases native with
      | executeHam => exact call.follows true globals last
      | executeHamB => exact call.follows false globals last
end

/-- The forwards of every hooked call are skipped or run as they should be exactly if, in the
order in which the code is meant to run, each call fits what comes before it. -/
theorem Code.allRight_iff (code : Code) :
    (∀ hooked ∈ (code.run .initial).log, hooked.Right) ↔
      List.IsChain Fits (.set :: code.order) := by
  have h := (code.follows .initial .set).right rfl
  simpa [Globals.AllRight, Globals.initial] using h

/-- An `ExecuteHam` that is refused for its arguments, and then a call by the engine. -/
theorem Code.not_allRight : ¬ ∀ code : Code,
    ∀ hooked ∈ (code.run .initial).log, hooked.Right := by
  intro h
  have hcall := h (.execute .executeHam (.rejected .done)
    (.engine (.mk .nil .done .nil) .done)) ⟨false, false⟩ List.mem_cons_self
  simp [Hooked.Right] at hcall

end AmxModC.Ham
