import Mathlib.Algebra.Order.Field.Rat
import Mathlib.Data.Finset.Card
import Mathlib.Data.Finset.Filter
import Mathlib.Data.List.Nodup
import Mathlib.Tactic.Linarith

namespace AmxModC.Engine.RadiusDamage

/-! The damage of an explosion, one victim after another as the engine's search yields them. -/

structure Vector where
  x : ℚ
  y : ℚ
  z : ℚ
  deriving DecidableEq

/-- The members of an edict that are read or written here.  `client` and `monster` are flags of
`v.flags`, and `breakable` is what `is_breakable` reads off the class name. -/
structure Edict (Entity : Type*) where
  takedamage : ℚ
  client : Bool
  monster : Bool
  breakable : Bool
  health : ℚ
  armorvalue : ℚ
  dmg_take : ℚ
  velocity : Vector
  punchangle_x : ℚ
  dmg_inflictor : Option Entity
  deriving DecidableEq

/-- What `TRACE_LINE` reports; `length` is that of `tr.vecEndPos - vecSrc`. -/
structure TraceResult (Entity : Type*) where
  flFraction : ℚ
  pHit : Entity
  length : ℚ

/-- Whether `bit` has `DMG_BLAST`, has one of `DMG_FALL` and `DMG_DROWN`, and has one of those that
knock a player back. -/
structure Bits where
  blast : Bool
  fallOrDrown : Bool
  knockback : Bool

/-- The server around the call.  `push` is `vecPush`; `use`, `touch` and `death` are what
`MDLL_Use`, the touch of a `trigger_hurt` and `Death` make of a victim. -/
structure Game (Entity : Type*) where
  pAttacker : Entity
  trace : Entity → TraceResult Entity
  push : Entity → Vector
  sv_knockback1 : Option ℚ
  sv_knockback2 : Option ℚ
  sv_friendlyfire : Bool
  team : Entity → Int
  aTeam : Int
  use : Edict Entity → Edict Entity
  touch : Edict Entity → Edict Entity
  death : Edict Entity → Edict Entity

/-- The conversion of a number to `int`, towards zero -/
def trunc (q : ℚ) : Int := q.num.tdiv q.den

variable {Entity : Type*} [DecidableEq Entity]

def hurtMonster (g : Game Entity) (pMonster : Edict Entity) (dmg : ℚ) : Edict Entity :=
  let pMonster := { pMonster with health := pMonster.health - dmg }
  if trunc pMonster.health < 1 then g.touch pMonster else pMonster

def armorDamage (pVictim : Edict Entity) (dmg : ℚ) (bit : Bits) : ℚ × Edict Entity :=
  let flRatio : ℚ := 1 / 5
  let flBonus : ℚ := if bit.blast then 1 / 2 * 2 else 1 / 2
  let (dmg, pVictim) :=
    if pVictim.armorvalue ≠ 0 ∧ bit.fallOrDrown = false then
      let flNew := dmg * flRatio
      let flArmor := (dmg - flNew) * flBonus
      if flArmor > pVictim.armorvalue then
        let flArmor := pVictim.armorvalue * (1 / flBonus)
        (dmg - flArmor, { pVictim with armorvalue := 0 })
      else (flNew, { pVictim with armorvalue := pVictim.armorvalue - flArmor })
    else (dmg, pVictim)
  (dmg, { pVictim with punchangle_x := -4 })

/-- `Damage`; `victim` is the entity whose edict is `pVictim`. -/
def damage (g : Game Entity) (bit : Bits) (victim : Entity) (dmg : ℚ) (pVictim : Edict Entity) :
    Edict Entity :=
  if pVictim.takedamage > 0 then
    let pVictim := if pVictim.breakable ∧ trunc dmg > 0 then g.use pVictim else pVictim
    let pVictim :=
      if pVictim.monster ∧ trunc dmg > 0 then
        hurtMonster g { pVictim with dmg_inflictor := some g.pAttacker } dmg
      else pVictim
    if pVictim.client then
      if g.sv_friendlyfire ∨ g.team victim ≠ g.aTeam then
        let (dmg, pVictim) := armorDamage pVictim dmg bit
        if trunc dmg > 0 then
          let pVictim :=
            { pVictim with
              dmg_inflictor := some g.pAttacker
              dmg_take := pVictim.dmg_take + dmg }
          if trunc dmg ≥ trunc pVictim.health then g.death { pVictim with health := 0 }
          else { pVictim with health := pVictim.health - dmg }
        else pVictim
      else pVictim
    else pVictim
  else pVictim

def knockback (g : Game Entity) (bit : Bits) (target : Entity) (dmg : ℚ)
    (pTarget : Edict Entity) : Edict Entity :=
  if pTarget.client ∧ bit.knockback then
    let vecPush := g.push target
    let factor := dmg * (if dmg < 60 then g.sv_knockback1 else g.sv_knockback2).getD 1
    { pTarget with
      velocity := ⟨pTarget.velocity.x + vecPush.x * factor,
        pTarget.velocity.y + vecPush.y * factor, pTarget.velocity.z + vecPush.z * factor⟩ }
  else pTarget

def strike (g : Game Entity) (bit : Bits) (target : Entity) (dmg : ℚ) (pTarget : Edict Entity) :
    Edict Entity :=
  damage g bit target dmg (knockback g bit target dmg pTarget)

abbrev World (Entity : Type*) := Entity → Edict Entity

def Reached (g : Game Entity) (w : World Entity) (target : Entity) : Prop :=
  (w target).takedamage > 0 ∧ ((g.trace target).flFraction < 1 ∨ (g.trace target).pHit = target)

instance (g : Game Entity) (w : World Entity) : DecidablePred (Reached g w) :=
  fun _ => inferInstanceAs (Decidable (_ ∧ _))

/-- The loop over the targets, with what is passed to `Damage` for each. -/
def radiusLoop (g : Game Entity) (bit : Bits) (falloff : ℚ) :
    ℚ → World Entity → List Entity → World Entity × List (Entity × ℚ)
  | _, w, [] => (w, [])
  | dmg, w, pTarget :: rest =>
      if Reached g w pTarget then
        let dist := (g.trace pTarget).length * falloff
        let dmg := dmg - dist
        let w := Function.update w pTarget (strike g bit pTarget dmg (w pTarget))
        let (w, passed) := radiusLoop g bit falloff dmg w rest
        (w, (pTarget, dmg) :: passed)
      else radiusLoop g bit falloff dmg w rest

def falloff (dmg rad : ℚ) : ℚ := if rad > 0 then dmg / rad else 1

/-- `RadiusDamage_AMXMod_Base`, with the targets in the order of the search -/
def radiusDamage (g : Game Entity) (bit : Bits) (dmg rad : ℚ) (w : World Entity)
    (order : List Entity) : World Entity × List (Entity × ℚ) :=
  radiusLoop g bit (falloff dmg rad) dmg w order

/-! What the loop passes on, and what it leaves. -/

def passes (dist : Entity → ℚ) : ℚ → List Entity → List (Entity × ℚ)
  | _, [] => []
  | dmg, target :: rest => (target, dmg - dist target) :: passes dist (dmg - dist target) rest

section

variable {dist : Entity → ℚ} {dmg d : ℚ} {e : Entity} {list first second : List Entity}
  {passed passed' : List (Entity × ℚ)}

omit [DecidableEq Entity] in
theorem map_fst_passes : (passes dist dmg list).map Prod.fst = list := by
  induction list generalizing dmg with
  | nil => rfl
  | cons target rest ih => rw [passes, List.map_cons, ih]

omit [DecidableEq Entity] in
theorem passes_zero (h : ∀ e ∈ list, dist e = 0) :
    passes dist dmg list = list.map fun e => (e, dmg) := by
  induction list with
  | nil => rfl
  | cons target rest ih =>
      obtain ⟨htarget, hrest⟩ := List.forall_mem_cons.mp h
      rw [passes, htarget, sub_zero, ih hrest, List.map_cons]

theorem mem_iff_lookup (h : (passed.map Prod.fst).Nodup) :
    (e, d) ∈ passed ↔ passed.lookup e = some d := by
  induction passed with
  | nil => simp
  | cons entry rest ih =>
      obtain ⟨target, damage⟩ := entry
      obtain ⟨hnot, hnodup⟩ := List.nodup_cons.mp h
      by_cases htarget : e = target
      · subst htarget
        have hout : (e, d) ∉ rest := fun hmem =>
          hnot (List.mem_map.mpr ⟨(e, d), hmem, rfl⟩)
        simp [hout, eq_comm]
      · have hbeq : (e == target) = false := beq_false_of_ne htarget
        simp [List.lookup_cons, htarget, hbeq, ih hnodup]

theorem lookup_congr (h : (passed.map Prod.fst).Nodup) (h' : (passed'.map Prod.fst).Nodup)
    (hsame : ∀ e d, (e, d) ∈ passed ↔ (e, d) ∈ passed') : passed.lookup e = passed'.lookup e := by
  apply Option.ext
  intro d
  rw [← mem_iff_lookup h, ← mem_iff_lookup h', hsame]

end

section

variable {g : Game Entity} {bit : Bits} {falloff dmg : ℚ} {w : World Entity} {e : Entity}
  {order : List Entity}

def reach (g : Game Entity) (falloff : ℚ) (target : Entity) : ℚ :=
  (g.trace target).length * falloff

theorem reached_update {v : Edict Entity} (h : e ≠ target) :
    Reached g (Function.update w target v) e ↔ Reached g w e := by
  unfold Reached
  rw [Function.update_of_ne h]

theorem radiusLoop_passed (h : order.Nodup) :
    (radiusLoop g bit falloff dmg w order).2 =
      passes (reach g falloff) dmg (order.filter fun e => decide (Reached g w e)) := by
  induction order generalizing dmg w with
  | nil => rfl
  | cons target rest ih =>
      obtain ⟨hnot, hnodup⟩ := List.nodup_cons.mp h
      by_cases hreached : Reached g w target
      · have hrest : ∀ v, rest.filter (fun e => decide (Reached g (Function.update w target v) e)) =
            rest.filter fun e => decide (Reached g w e) := fun v =>
          List.filter_congr fun e he => by
            rw [decide_eq_decide]
            exact reached_update fun heq => hnot (heq ▸ he)
        simp only [radiusLoop, hreached, if_true, ih hnodup, hrest, decide_true,
          List.filter_cons_of_pos, passes]
        rfl
      · simp [radiusLoop, hreached, ih hnodup]

theorem radiusLoop_world (h : order.Nodup) :
    (radiusLoop g bit falloff dmg w order).1 e =
      ((radiusLoop g bit falloff dmg w order).2.lookup e).elim (w e)
        fun d => strike g bit e d (w e) := by
  induction order generalizing dmg w with
  | nil => rfl
  | cons target rest ih =>
      obtain ⟨hnot, hnodup⟩ := List.nodup_cons.mp h
      by_cases hreached : Reached g w target
      · simp only [radiusLoop, hreached, if_true, ih hnodup]
        by_cases htarget : e = target
        · subst htarget
          have hout : ∀ dmg w, (radiusLoop g bit falloff dmg w rest).2.lookup e = none := by
            intro dmg w
            rw [radiusLoop_passed hnodup, List.lookup_eq_none_iff]
            intro entry hentry
            have hmem := List.mem_map_of_mem (f := Prod.fst) hentry
            rw [map_fst_passes] at hmem
            simp only [bne_iff_ne]
            exact fun heq => hnot (heq ▸ List.mem_of_mem_filter hmem)
          simp [hout]
        · have hbeq : (e == target) = false := beq_false_of_ne htarget
          simp [List.lookup_cons, htarget, hbeq]
      · simp [radiusLoop, hreached, ih hnodup]

end

/-! Any two orders. -/

def Yields (entities : Finset Entity) (order : List Entity) : Prop :=
  order.Nodup ∧ order.toFinset = entities

def Agree (g : Game Entity) (bit : Bits) (dmg rad : ℚ) (w : World Entity)
    (order order' : List Entity) : Prop :=
  (∀ e d, (e, d) ∈ (radiusDamage g bit dmg rad w order).2 ↔
      (e, d) ∈ (radiusDamage g bit dmg rad w order').2) ∧
    ∀ e, (w e).client →
      ((radiusDamage g bit dmg rad w order).1 e).health =
          ((radiusDamage g bit dmg rad w order').1 e).health ∧
        ((radiusDamage g bit dmg rad w order).1 e).armorvalue =
          ((radiusDamage g bit dmg rad w order').1 e).armorvalue ∧
        ((radiusDamage g bit dmg rad w order).1 e).dmg_take =
          ((radiusDamage g bit dmg rad w order').1 e).dmg_take

def Single (g : Game Entity) (dmg rad : ℚ) (w : World Entity) (entities : Finset Entity) : Prop :=
  (entities.filter (Reached g w)).card ≤ 1 ∨ (rad > 0 ∧ dmg = 0) ∨
    ∀ e ∈ entities, Reached g w e → (g.trace e).length = 0

section

variable {g : Game Entity} {bit : Bits} {dmg rad : ℚ} {w : World Entity} {entities : Finset Entity}
  {order order' : List Entity}

theorem agree_of_passed (h : order.Nodup) (h' : order'.Nodup)
    (hsame : ∀ e d, (e, d) ∈ (radiusDamage g bit dmg rad w order).2 ↔
      (e, d) ∈ (radiusDamage g bit dmg rad w order').2) : Agree g bit dmg rad w order order' := by
  have hkeys : ∀ {order : List Entity}, order.Nodup →
      ((radiusDamage g bit dmg rad w order).2.map Prod.fst).Nodup := by
    intro order h
    rw [radiusDamage, radiusLoop_passed h, map_fst_passes]
    exact h.filter _
  refine ⟨hsame, fun e _ => ?_⟩
  have hfinal : (radiusDamage g bit dmg rad w order).1 e =
      (radiusDamage g bit dmg rad w order').1 e := by
    have hlookup := lookup_congr (e := e) (hkeys h) (hkeys h') hsame
    unfold radiusDamage at hlookup ⊢
    rw [radiusLoop_world h, radiusLoop_world h', hlookup]
  rw [hfinal]
  exact ⟨rfl, rfl, rfl⟩

theorem falloff_eq_zero : falloff dmg rad = 0 ↔ rad > 0 ∧ dmg = 0 := by
  unfold falloff
  split
  next h => simp [h, h.ne']
  next h => simp [h]

theorem agree_of_single (h : Single g dmg rad w entities) (horder : Yields entities order)
    (horder' : Yields entities order') : Agree g bit dmg rad w order order' := by
  obtain ⟨hnodup, hset⟩ := horder
  obtain ⟨hnodup', hset'⟩ := horder'
  have hperm : order.Perm order' := by
    rw [List.perm_ext_iff_of_nodup hnodup hnodup']
    intro e
    rw [← List.mem_toFinset, hset, ← hset', List.mem_toFinset]
  have hfilter := hperm.filter fun e => decide (Reached g w e)
  refine agree_of_passed hnodup hnodup' fun e d => ?_
  unfold radiusDamage
  rw [radiusLoop_passed hnodup, radiusLoop_passed hnodup']
  have hzero : (∀ e ∈ entities, Reached g w e → reach g (falloff dmg rad) e = 0) →
      ∀ {order : List Entity}, order.toFinset = entities →
        passes (reach g (falloff dmg rad)) dmg (order.filter fun e => decide (Reached g w e)) =
          (order.filter fun e => decide (Reached g w e)).map fun e => (e, dmg) := by
    intro hreach order hset
    refine passes_zero fun e he => ?_
    obtain ⟨hmem, hreached⟩ := List.mem_filter.mp he
    exact hreach e (hset ▸ List.mem_toFinset.mpr hmem) (of_decide_eq_true hreached)
  rcases h with hcard | hnothing | hlength
  · have hone : (order.filter fun e => decide (Reached g w e)).length ≤ 1 := by
      rw [← List.toFinset_card_of_nodup (hnodup.filter _), List.toFinset_filter, hset]
      simpa using hcard
    have heq : (order.filter fun e => decide (Reached g w e)) =
        order'.filter fun e => decide (Reached g w e) := by
      revert hone hfilter
      cases order.filter fun e => decide (Reached g w e) with
      | nil => exact fun hfilter _ => (List.nil_perm.mp hfilter).symm
      | cons a rest =>
          intro hfilter hone
          obtain rfl := List.eq_nil_of_length_eq_zero (Nat.le_zero.mp (Nat.le_of_succ_le_succ hone))
          exact List.singleton_perm.mp hfilter
    rw [heq]
  · have hreach : ∀ e ∈ entities, Reached g w e → reach g (falloff dmg rad) e = 0 :=
      fun e _ _ => by rw [reach, falloff_eq_zero.mpr hnothing, mul_zero]
    rw [hzero hreach hset, hzero hreach hset']
    exact (hfilter.map _).mem_iff
  · have hreach : ∀ e ∈ entities, Reached g w e → reach g (falloff dmg rad) e = 0 :=
      fun e he hreached => by rw [reach, hlength e he hreached, zero_mul]
    rw [hzero hreach hset, hzero hreach hset']
    exact (hfilter.map _).mem_iff

theorem exists_yields {e f : Entity} (he : e ∈ entities) (hf : f ∈ entities) (hne : f ≠ e) :
    ∃ rest, Yields entities (e :: f :: rest) ∧ Yields entities (f :: e :: rest) := by
  have hrest : ∀ a, a ∈ ((entities.erase e).erase f).toList ↔ a ≠ f ∧ a ≠ e ∧ a ∈ entities :=
    fun a => by simp
  have hnodup := ((entities.erase e).erase f).nodup_toList
  have hset : ∀ a, a = e ∨ a = f ∨ a ∈ ((entities.erase e).erase f).toList ↔ a ∈ entities := by
    intro a
    rw [hrest]
    grind
  refine ⟨((entities.erase e).erase f).toList, ⟨?_, ?_⟩, ?_, ?_⟩
  · simp [hne.symm, hnodup]
  · ext a
    simpa only [List.mem_toFinset, List.mem_cons] using hset a
  · simp [hne, hnodup]
  · ext a
    rw [← hset a, List.mem_toFinset, List.mem_cons, List.mem_cons, or_left_comm]

theorem single_of_agree (h : ∀ order order', Yields entities order → Yields entities order' →
    Agree g bit dmg rad w order order') : Single g dmg rad w entities := by
  by_contra hsingle
  simp only [Single, not_or, not_le, not_forall] at hsingle
  obtain ⟨hcard, hfalloff, e, he, hreached, hlength⟩ := hsingle
  obtain ⟨f, hf, hne⟩ := Finset.exists_mem_ne hcard e
  obtain ⟨hf, hreachedf⟩ := Finset.mem_filter.mp hf
  have hreach : reach g (falloff dmg rad) e ≠ 0 :=
    mul_ne_zero hlength fun hzero => hfalloff (falloff_eq_zero.mp hzero)
  obtain ⟨rest, hfirst, hsecond⟩ := exists_yields he hf hne
  have hkeys : ((passes (reach g (falloff dmg rad)) dmg ((f :: e :: rest).filter fun e =>
      decide (Reached g w e))).map Prod.fst).Nodup := by
    rw [map_fst_passes]
    exact hsecond.1.filter _
  have hsame := (h _ _ hfirst hsecond).1 f
    (dmg - reach g (falloff dmg rad) e - reach g (falloff dmg rad) f)
  unfold radiusDamage at hsame
  rw [radiusLoop_passed hfirst.1, radiusLoop_passed hsecond.1, mem_iff_lookup hkeys] at hsame
  have hpassed : dmg - reach g (falloff dmg rad) f =
      dmg - reach g (falloff dmg rad) e - reach g (falloff dmg rad) f := by
    simpa [hreached, hreachedf, passes] using hsame
  exact hreach (by linarith)

/-- The damage that is left is one variable for all victims: it does not depend on the order
exactly when at most one entity is reached or nothing is taken off it. -/
theorem forall_agree_iff_single : (∀ order order', Yields entities order → Yields entities order' →
    Agree g bit dmg rad w order order') ↔ Single g dmg rad w entities :=
  ⟨single_of_agree, fun h _ _ horder horder' => agree_of_single h horder horder'⟩

end

/-- An explosion of 100 within 100 units, and two players 10 units off it. -/
theorem not_agree_pair : ¬ ∀ (g : Game Bool) (bit : Bits) (dmg rad : ℚ) (w : World Bool)
    (entities : Finset Bool) (order order' : List Bool), Yields entities order →
      Yields entities order' → Agree g bit dmg rad w order order' := by
  intro h
  obtain ⟨g, hg⟩ : ∃ g : Game Bool, g.trace = fun e => ⟨1 / 2, e, 10⟩ :=
    ⟨{ pAttacker := true, trace := fun e => ⟨1 / 2, e, 10⟩, push := fun _ => ⟨0, 0, 0⟩
       sv_knockback1 := none, sv_knockback2 := none, sv_friendlyfire := true
       team := fun _ => 0, aTeam := 0, use := id, touch := id, death := id }, rfl⟩
  obtain ⟨w, hw⟩ : ∃ w : World Bool, ∀ e, (w e).takedamage = 1 :=
    ⟨fun _ => ⟨1, true, false, false, 100, 0, 0, ⟨0, 0, 0⟩, 0, none⟩, fun _ => rfl⟩
  have hreached : ∀ e, Reached g w e := fun e => by simp [Reached, hw, hg]
  rcases single_of_agree (h g ⟨true, false, true⟩ 100 100 w Finset.univ) with
    hcard | hnothing | hlength
  · rw [Finset.filter_true_of_mem fun e _ => hreached e] at hcard
    revert hcard
    decide
  · exact absurd hnothing.2 (by norm_num)
  · have hten := hlength true (Finset.mem_univ _) (hreached true)
    rw [hg] at hten
    exact absurd hten (by norm_num)

end AmxModC.Engine.RadiusDamage
