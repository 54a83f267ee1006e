import AmxModC.Machine
import AmxModC.Foundation.Run

namespace AmxModC.Fun

open Foundation

/-! Where players can hit each other. -/

/-- `char`, which has a sign -/
abbrev Char8 := BitVec 8

def hitgroupGeneric : Nat := 0
def hitgroupHead : Nat := 1
def hitgroupChest : Nat := 2
def hitgroupStomach : Nat := 3
def hitgroupLeftarm : Nat := 4
def hitgroupRightarm : Nat := 5
def hitgroupLeftleg : Nat := 6
def hitgroupRightleg : Nat := 7

def allZones : Cell :=
  1 <<< hitgroupGeneric ||| 1 <<< hitgroupHead ||| 1 <<< hitgroupChest ||| 1 <<< hitgroupStomach |||
    1 <<< hitgroupLeftarm ||| 1 <<< hitgroupRightarm ||| 1 <<< hitgroupLeftleg |||
    1 <<< hitgroupRightleg

/-- `g_bodyhits`: where the player of the first index can hit the player of the second.
`ingame` is what `CHECK_PLAYER` asks for, and `silent` is `g_silent`. -/
structure State where
  bodyhits : Int → Int → Char8
  silent : Int → Bool
  ingame : Int → Bool

variable (maxClients : Int)

def Slot (i : Int) : Prop := 1 ≤ i ∧ i ≤ maxClients

instance (i : Int) : Decidable (Slot maxClients i) := inferInstanceAs (Decidable (_ ∧ _))

namespace State

/-- `FUNUTIL_ResetPlayer` -/
def resetPlayer (s : State) (index : Int) : State :=
  { s with
    bodyhits := fun i j =>
      if i = index ∧ Slot maxClients j then allZones.setWidth 8 else s.bodyhits i j
    silent := fun i => if i = index then false else s.silent i }

/-- `CHECK_PLAYER` -/
def CheckPlayer (s : State) (x : Int) : Prop := Slot maxClients x ∧ s.ingame x = true

instance (s : State) (x : Int) : Decidable (s.CheckPlayer maxClients x) :=
  inferInstanceAs (Decidable (_ ∧ _))

def setUserHitzones (s : State) (shooter gettingHit : Int) (hitzones : Cell) : State × Cell :=
  if shooter = 0 ∧ gettingHit = 0 then
    ({ s with bodyhits := fun i j =>
        if Slot maxClients i ∧ Slot maxClients j then hitzones.setWidth 8 else s.bodyhits i j }, 1)
  else if shooter = 0 ∧ gettingHit ≠ 0 then
    if s.CheckPlayer maxClients gettingHit then
      ({ s with bodyhits := fun i j =>
          if Slot maxClients i ∧ j = gettingHit then hitzones.setWidth 8 else s.bodyhits i j }, 1)
    else (s, 0)
  else if shooter ≠ 0 ∧ gettingHit = 0 then
    if s.CheckPlayer maxClients shooter then
      ({ s with bodyhits := fun i j =>
          if i = shooter ∧ Slot maxClients j then hitzones.setWidth 8 else s.bodyhits i j }, 1)
    else (s, 0)
  else if s.CheckPlayer maxClients shooter ∧ s.CheckPlayer maxClients gettingHit then
    ({ s with bodyhits := fun i j =>
        if i = shooter ∧ j = gettingHit then hitzones.setWidth 8 else s.bodyhits i j }, 1)
  else (s, 0)

def getUserHitzones (s : State) (shooter target : Int) : Cell :=
  if s.CheckPlayer maxClients shooter then
    if s.CheckPlayer maxClients target then (s.bodyhits shooter target).signExtend 32
    else 0
  else 0

/-- `TraceLine`: whether a hit stands, or `flFraction` is set to 1.  `pHit` and `shooter` are
indices of clients. -/
def traceLine (s : State) (shooter pHit : Option Int) (iHitgroup : Fin 32) : Bool :=
  match pHit, shooter with
  | some pHit, some shooter =>
      (s.bodyhits shooter pHit).signExtend 32 &&& (1#32 <<< iHitgroup.val) ≠ 0
  | _, _ => true

end State

inductive Event
  | connect (index : Int)
  | putInServer (index : Int)
  | disconnect (index : Int)
  | set (shooter gettingHit : Int) (hitzones : Cell)
  | get (shooter target : Int)
  | traceLine (shooter pHit : Option Int) (iHitgroup : Fin 32)

/-- `zones` is what the hit zones of a pair should be: what the last call for it has set since the
two connected. -/
structure Session where
  module : State
  connected : Int → Bool
  zones : Int → Int → Cell

def Covers (shooter gettingHit i j : Int) : Prop :=
  (shooter = 0 ∨ i = shooter) ∧ (gettingHit = 0 ∨ j = gettingHit)

instance (shooter gettingHit i j : Int) : Decidable (Covers shooter gettingHit i j) :=
  inferInstanceAs (Decidable (_ ∧ _))

namespace Session

/-- After `OnPluginsLoaded`, before anyone has connected. -/
def start : Session where
  module :=
    { bodyhits := fun _ _ => allZones.setWidth 8, silent := fun _ => false
      ingame := fun _ => false }
  connected _ := false
  zones _ _ := allZones

def step (σ : Session) : Event → Option Session
  | .connect index =>
      if Slot maxClients index then
        some
          { module := { σ.module.resetPlayer maxClients index with
              ingame := fun i => if i = index then false else σ.module.ingame i }
            connected := fun i => if i = index then true else σ.connected i
            zones := fun i j => if i = index ∨ j = index then allZones else σ.zones i j }
      else none
  | .putInServer index =>
      if σ.connected index then
        some { σ with module := { σ.module with
          ingame := fun i => if i = index then true else σ.module.ingame i } }
      else none
  | .disconnect index =>
      some { σ with
        module := { σ.module with
          ingame := fun i => if i = index then false else σ.module.ingame i }
        connected := fun i => if i = index then false else σ.connected i }
  | .set shooter gettingHit hitzones =>
      let result := σ.module.setUserHitzones maxClients shooter gettingHit hitzones
      some { σ with
        module := result.1
        zones := fun i j =>
          if result.2 = 1 ∧ Covers shooter gettingHit i j then hitzones else σ.zones i j }
  | .get _ _ => some σ
  | .traceLine _ _ _ => some σ

def Consistent (σ : Session) : Prop :=
  ∀ i j, σ.connected i → σ.connected j → σ.module.bodyhits i j = (σ.zones i j).setWidth 8

def Answers (σ : Session) : Event → Prop
  | .get shooter target =>
      σ.module.CheckPlayer maxClients shooter → σ.module.CheckPlayer maxClients target →
        (σ.zones shooter target).toNat ≤ 255 →
          σ.module.getUserHitzones maxClients shooter target = σ.zones shooter target
  | .traceLine (some shooter) (some pHit) iHitgroup =>
      σ.connected shooter → σ.connected pHit →
        σ.module.traceLine (some shooter) (some pHit) iHitgroup =
          ((σ.zones shooter pHit).setWidth 8).getLsbD iHitgroup
  | _ => True

def Right (σ : Session) (event : Event) : Prop :=
  σ.Answers maxClients event ∧ ∀ next, σ.step maxClients event = some next → next.Consistent

/-- Nobody has a restriction against the slot that is connected to, no value with the sign bit is
asked for, and none is used for a hit group without a bit of its own. -/
def Plain (σ : Session) : Event → Prop
  | .connect index => Slot maxClients index → ∀ i, σ.connected i → i ≠ index →
      σ.module.bodyhits i index = allZones.setWidth 8
  | .get shooter target =>
      σ.module.CheckPlayer maxClients shooter → σ.module.CheckPlayer maxClients target →
        (σ.zones shooter target).toNat ≤ 255 → (σ.zones shooter target).toNat < 128
  | .traceLine (some shooter) (some pHit) iHitgroup =>
      σ.connected shooter → σ.connected pHit →
        iHitgroup.val < 8 ∨ ((σ.zones shooter pHit).setWidth 8).msb = false
  | _ => True

structure Inv (σ : Session) : Prop where
  consistent : σ.Consistent
  ingame : ∀ i, σ.module.ingame i → σ.connected i
  slot : ∀ i, σ.connected i → Slot maxClients i

theorem inv_start : start.Inv maxClients where
  consistent _ _ _ _ := rfl
  ingame _ h := by cases h
  slot _ h := by cases h

variable {maxClients}

theorem signExtend_char {v : Cell} (hv : v.toNat ≤ 255) :
    (v.setWidth 8).signExtend 32 = v ↔ v.toNat < 128 := by
  have hmod : v.toNat % 256 = v.toNat := Nat.mod_eq_of_lt (Nat.lt_succ_of_le hv)
  have hmsb : (v.setWidth 8).msb = decide (128 ≤ v.toNat) := by
    rw [BitVec.msb_eq_decide, BitVec.toNat_setWidth, hmod]
  rw [← BitVec.toNat_inj, BitVec.toNat_signExtend, hmsb, BitVec.toNat_setWidth,
    BitVec.toNat_setWidth, hmod, Nat.mod_eq_of_lt v.isLt]
  by_cases hsign : 128 ≤ v.toNat
  · simp [hsign]
  · simp [hsign, Nat.not_le.mp hsign]

theorem traceLine_bit (c : Char8) (h : Fin 32) :
    (decide (c.signExtend 32 &&& (1#32 <<< h.val) ≠ 0) = c.getLsbD h) ↔
      h.val < 8 ∨ c.msb = false := by
  have hbit : decide (c.signExtend 32 &&& (1#32 <<< h.val) ≠ 0) = (c.signExtend 32).getLsbD h := by
    rw [← BitVec.twoPow_eq, BitVec.and_twoPow]
    cases (c.signExtend 32).getLsbD h with
    | false => simp
    | true =>
        have htwo : BitVec.twoPow 32 h.val ≠ 0 := fun hzero => by
          have hbit := BitVec.getLsbD_twoPow (w := 32) h.val h.val
          rw [hzero] at hbit
          simp [h.isLt] at hbit
        rw [if_pos rfl]
        exact decide_eq_true htwo
  rw [hbit, BitVec.getLsbD_signExtend, decide_eq_true h.isLt, Bool.true_and]
  by_cases hlow : h.val < 8
  · simp [hlow]
  · simp [hlow, BitVec.getLsbD_of_ge c h.val (Nat.not_lt.mp hlow)]

variable {σ σ' : Session} {event : Event}

theorem setUserHitzones_bodyhits {s : State} {shooter gettingHit i j : Int} {hitzones : Cell}
    (hi : Slot maxClients i) (hj : Slot maxClients j) :
    (s.setUserHitzones maxClients shooter gettingHit hitzones).1.bodyhits i j =
      if (s.setUserHitzones maxClients shooter gettingHit hitzones).2 = 1 ∧
          Covers shooter gettingHit i j then hitzones.setWidth 8
      else s.bodyhits i j := by
  unfold State.setUserHitzones Covers
  grind

theorem setUserHitzones_ingame {s : State} {shooter gettingHit : Int} {hitzones : Cell} :
    (s.setUserHitzones maxClients shooter gettingHit hitzones).1.ingame = s.ingame := by
  unfold State.setUserHitzones
  grind

theorem consistent_connect {index : Int} (h : σ.Inv maxClients) (hindex : Slot maxClients index)
    (hstep : σ.step maxClients (.connect index) = some σ') :
    σ'.Consistent ↔ ∀ i, σ.connected i → i ≠ index →
      σ.module.bodyhits i index = allZones.setWidth 8 := by
  simp only [step, if_pos hindex] at hstep
  cases hstep
  have hslot : ∀ i, (if i = index then true else σ.connected i) = true → Slot maxClients i := by
    intro i hi
    split at hi
    next heq => exact heq ▸ hindex
    next => exact h.slot i hi
  constructor
  · intro hconsistent i hi hne
    have hpair := hconsistent i index (by simp [hi]) (by simp)
    simpa [State.resetPlayer, hne] using hpair
  · intro hplain i j hi hj
    have hj' := hslot j hj
    by_cases heq : i = index
    · simp [State.resetPlayer, heq, hj']
    · simp only [if_neg heq] at hi
      by_cases heq' : j = index
      · simp [State.resetPlayer, heq, heq', hplain i hi heq]
      · simp only [if_neg heq'] at hj
        simp [State.resetPlayer, heq, heq', h.consistent i j hi hj]

theorem consistent_step (h : σ.Inv maxClients) (hevent : ∀ index, event ≠ .connect index)
    (hstep : σ.step maxClients event = some σ') : σ'.Consistent := by
  cases event with
  | connect index => exact absurd rfl (hevent index)
  | putInServer index =>
      simp only [step] at hstep
      split at hstep
      next =>
        cases hstep
        exact h.consistent
      next => cases hstep
  | disconnect index =>
      cases hstep
      intro i j hi hj
      simp only [Bool.if_false_left, Bool.and_eq_true] at hi hj
      exact h.consistent i j hi.2 hj.2
  | set shooter gettingHit hitzones =>
      simp only [step, Option.some.injEq] at hstep
      subst hstep
      intro i j hi hj
      simp only [setUserHitzones_bodyhits (h.slot i hi) (h.slot j hj), h.consistent i j hi hj]
      exact (apply_ite (BitVec.setWidth 8) _ _ _).symm
  | get shooter target =>
      cases hstep
      exact h.consistent
  | traceLine shooter pHit iHitgroup =>
      cases hstep
      exact h.consistent

theorem Inv.right_iff (h : σ.Inv maxClients) :
    σ.Right maxClients event ↔ σ.Plain maxClients event := by
  cases event with
  | connect index =>
      unfold Right
      constructor
      · intro hright hindex
        have hstep : σ.step maxClients (.connect index) = some _ := if_pos hindex
        exact (consistent_connect h hindex hstep).mp (hright.2 _ hstep)
      · intro hplain
        refine ⟨trivial, fun next hstep => ?_⟩
        by_cases hindex : Slot maxClients index
        · exact (consistent_connect h hindex hstep).mpr (hplain hindex)
        · simp [step, hindex] at hstep
  | putInServer index =>
      exact iff_of_true ⟨trivial, fun _ => consistent_step h fun _ => by simp⟩ trivial
  | disconnect index =>
      exact iff_of_true ⟨trivial, fun _ => consistent_step h fun _ => by simp⟩ trivial
  | set shooter gettingHit hitzones =>
      exact iff_of_true ⟨trivial, fun _ => consistent_step h fun _ => by simp⟩ trivial
  | get shooter target =>
      have hnext : ∀ next, σ.step maxClients (.get shooter target) = some next →
          next.Consistent := fun _ => consistent_step h fun _ => by simp
      refine (and_iff_left hnext).trans ?_
      refine forall_congr' fun hshooter => forall_congr' fun htarget => forall_congr' fun hv => ?_
      have hpair := h.consistent shooter target (h.ingame _ hshooter.2) (h.ingame _ htarget.2)
      rw [State.getUserHitzones, if_pos hshooter, if_pos htarget, hpair, signExtend_char hv]
  | traceLine shooter pHit iHitgroup =>
      have hnext : ∀ next, σ.step maxClients (.traceLine shooter pHit iHitgroup) = some next →
          next.Consistent := fun _ => consistent_step h fun _ => by simp
      refine (and_iff_left hnext).trans ?_
      cases shooter with
      | none => exact Iff.rfl
      | some shooter =>
          cases pHit with
          | none => exact Iff.rfl
          | some pHit =>
              refine forall_congr' fun hshooter => forall_congr' fun hhit => ?_
              simp only [State.traceLine, h.consistent shooter pHit hshooter hhit]
              exact traceLine_bit _ iHitgroup

theorem Inv.step (h : σ.Inv maxClients) (hright : σ.Right maxClients event)
    (hstep : σ.step maxClients event = some σ') : σ'.Inv maxClients := by
  suffices hrest : (∀ i, σ'.module.ingame i → σ'.connected i) ∧
      ∀ i, σ'.connected i → Slot maxClients i from ⟨hright.2 σ' hstep, hrest.1, hrest.2⟩
  have hingame := h.ingame
  have hslot := h.slot
  cases event with
  | connect index =>
      simp only [Session.step] at hstep
      split at hstep
      next hindex =>
        cases hstep
        refine ⟨fun i hi => ?_, fun i hi => ?_⟩
        · grind [State.resetPlayer]
        · grind
      next => cases hstep
  | putInServer index =>
      simp only [Session.step] at hstep
      split at hstep
      next hconnected =>
        cases hstep
        refine ⟨fun i hi => ?_, hslot⟩
        grind
      next => cases hstep
  | disconnect index =>
      cases hstep
      refine ⟨fun i hi => ?_, fun i hi => ?_⟩ <;> grind
  | set shooter gettingHit hitzones =>
      simp only [Session.step, Option.some.injEq] at hstep
      subst hstep
      refine ⟨fun i hi => ?_, hslot⟩
      simp only [setUserHitzones_ingame] at hi
      exact hingame i hi
  | get shooter target =>
      cases hstep
      exact ⟨hingame, hslot⟩
  | traceLine shooter pHit iHitgroup =>
      cases hstep
      exact ⟨hingame, hslot⟩

/-- In every run: the hit zones, what is read of them and what they do to a hit are right exactly
as long as nobody connects to a slot that others were restricted against, and no value with the
sign bit is read or met by a hit group beyond the eighth. -/
theorem meets_right_iff_plain (maxClients : Int) (events : List Event) :
    Meets (step maxClients) (Right maxClients) start events ↔
      Meets (step maxClients) (Plain maxClients) start events :=
  meets_congr (fun h hright hstep => Inv.step h hright hstep) (fun h => Inv.right_iff h)
    (inv_start maxClients)

/-- Player 1 may not hit player 2; player 2 leaves, and somebody else takes the slot. -/
theorem not_meets_right_reconnect : ¬ ∀ (maxClients : Int) (events : List Event),
    Meets (step maxClients) (Right maxClients) start events := by
  intro h
  have hmeets := h 2 [.connect 1, .putInServer 1, .connect 2, .putInServer 2, .set 1 2 0,
    .disconnect 2, .connect 2]
  have hlast := (((((hmeets.2 _ rfl).2 _ rfl).2 _ rfl).2 _ rfl).2 _ rfl).2 _ rfl
  have hpair := hlast.1.2 _ rfl 1 2 rfl rfl
  revert hpair
  decide

end Session

end AmxModC.Fun
