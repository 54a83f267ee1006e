import AmxModC.Rank.Model
import AmxModC.Foundation.Run
import AmxModC.Foundation.Totals

namespace AmxModC.Csx.Counting

open Foundation Rank

/-! What hits, kills and shots count in the tables of the players. -/

abbrev PlayerIndex := {i : Fin 33 // i ≠ 0}

/-- `MAX_WEAPONS` comes with the game; `MAX_CWEAPONS` is 6. -/
abbrev WeaponId (maxWeapons : Nat) := Fin (maxWeapons + 6)

section

variable {maxWeapons : Nat} [NeZero maxWeapons]

/-- `CSW_C4` -/
def cswC4 : WeaponId maxWeapons := ⟨6, by have := NeZero.pos maxWeapons; omega⟩

end

namespace Stats

/-- `hits++`, `damage += ddamage`, `bodyHits[bbody]++` -/
def hit (ddamage : Cell) (bbody : Fin 9) (s : Stats) : Stats :=
  { s with
    hits := s.hits + 1
    damage := s.damage + ddamage
    bodyHits := change s.bodyHits bbody (· + 1) }

/-- `kills++`, `hs += hhs`, `tks += ttk` -/
def kill (hhs ttk : Cell) (s : Stats) : Stats :=
  { s with kills := s.kills + 1, hs := s.hs + hhs, tks := s.tks + ttk }

/-- `deaths++`, `hs += hhs`, `tks += ttk` -/
def killed (hhs ttk : Cell) (s : Stats) : Stats :=
  { s with deaths := s.deaths + 1, hs := s.hs + hhs, tks := s.tks + ttk }

def death (s : Stats) : Stats := { s with deaths := s.deaths + 1 }

def shot (s : Stats) : Stats := { s with shots := s.shots + 1 }

end Stats

/-- `name` is the weapon whose name is pointed to. -/
structure PlayerWeapon (maxWeapons : Nat) extends Stats where
  name : Option (WeaponId maxWeapons)
  clip : Int

namespace PlayerWeapon

variable {maxWeapons : Nat}

def zero : PlayerWeapon maxWeapons := { Stats.zero with name := none, clip := 0 }

def count (f : Stats → Stats) (w : PlayerWeapon maxWeapons) : PlayerWeapon maxWeapons :=
  { w with toStats := f w.toStats }

end PlayerWeapon

structure CPlayer (maxWeapons : Nat) where
  aiming : Fin 9
  current : WeaponId maxWeapons
  weapons : WeaponId maxWeapons → PlayerWeapon maxWeapons
  attackers : Fin 33 → PlayerWeapon maxWeapons
  victims : Fin 33 → PlayerWeapon maxWeapons
  weaponsRnd : WeaponId maxWeapons → Stats
  life : Stats
  teamId : Int

abbrev Players (maxWeapons : Nat) := PlayerIndex → CPlayer maxWeapons

/-- What the code reads of the server: `csstats_rankbots`, the flag `FL_FAKECLIENT` of each
player and whether the player lives. -/
structure World where
  rankBots : Bool
  fakeClient : PlayerIndex → Bool
  alive : PlayerIndex → Bool

def ignoreBots (w : World) (pEnt : PlayerIndex) (pOther : Option PlayerIndex) : Bool :=
  !w.rankBots && (w.fakeClient pEnt || pOther.any w.fakeClient)

section

variable {maxWeapons : Nat}

def restartStats (all : Bool) (p : CPlayer maxWeapons) : CPlayer maxWeapons :=
  { p with
    weapons := if all then fun _ => .zero else p.weapons
    weaponsRnd := fun _ => Stats.zero
    attackers := fun _ => .zero
    victims := fun _ => .zero
    life := Stats.zero }

def saveKill (players : Players maxWeapons) (w : World) (index pVictim : PlayerIndex)
    (wweapon : WeaponId maxWeapons) (hhs ttk : Cell) : Players maxWeapons :=
  if ignoreBots w index (some pVictim) then players
  else if pVictim = index then
    -- killed self
    change players pVictim fun v =>
      { v with
        weapons := change v.weapons 0 (.count Stats.death)
        life := Stats.death v.life
        weaponsRnd := change v.weaponsRnd 0 Stats.death }
  else
    let players := change players pVictim fun v =>
      { v with
        attackers := book 0 (change v.attackers index fun a => { a with name := some wweapon })
          index (.count (Stats.kill hhs ttk))
        weapons := book 0 v.weapons v.current (.count Stats.death)
        life := Stats.death v.life
        weaponsRnd := book 0 v.weaponsRnd v.current Stats.death }
    change players index fun p =>
      { p with
        victims := book 0 (change p.victims pVictim fun v => { v with name := some wweapon })
          pVictim (.count (Stats.killed hhs ttk))
        weaponsRnd := book 0 p.weaponsRnd wweapon (Stats.kill hhs ttk)
        weapons := book 0 p.weapons wweapon (.count (Stats.kill hhs ttk))
        life := Stats.kill hhs ttk p.life }

def saveHit (players : Players maxWeapons) (w : World) (index pVictim : PlayerIndex)
    (wweapon : WeaponId maxWeapons) (ddamage : Cell) (bbody : Fin 9) : Players maxWeapons :=
  if ignoreBots w index (some pVictim) then players
  else if index = pVictim then players
  else
    let players := change players pVictim fun v =>
      { v with attackers := book 0 v.attackers index (.count (Stats.hit ddamage bbody)) }
    change players index fun p =>
      { p with
        victims := book 0 p.victims pVictim (.count (Stats.hit ddamage bbody))
        weaponsRnd := book 0 p.weaponsRnd wweapon (Stats.hit ddamage bbody)
        weapons := book 0 p.weapons wweapon (.count (Stats.hit ddamage bbody))
        life := Stats.hit ddamage bbody p.life }

def saveShot (players : Players maxWeapons) (w : World) (index : PlayerIndex)
    (weapon : WeaponId maxWeapons) : Players maxWeapons :=
  if ignoreBots w index none then players
  else
    change players index fun p =>
      { p with
        victims := change p.victims 0 (.count Stats.shot)
        weapons := book 0 p.weapons weapon (.count Stats.shot)
        life := Stats.shot p.life
        weaponsRnd := book 0 p.weaponsRnd weapon Stats.shot }

inductive Call (maxWeapons : Nat)
  | saveKill (index pVictim : PlayerIndex) (wweapon : WeaponId maxWeapons) (hhs ttk : Cell)
  | saveHit (index pVictim : PlayerIndex) (wweapon : WeaponId maxWeapons) (ddamage : Cell)
      (bbody : Fin 9)
  | saveShot (index : PlayerIndex) (weapon : WeaponId maxWeapons)

def Call.perform (players : Players maxWeapons) (w : World) : Call maxWeapons → Players maxWeapons
  | .saveKill index pVictim wweapon hhs ttk => Counting.saveKill players w index pVictim wweapon hhs ttk
  | .saveHit index pVictim wweapon ddamage bbody =>
      Counting.saveHit players w index pVictim wweapon ddamage bbody
  | .saveShot index weapon => Counting.saveShot players w index weapon

end

/-- `dmg_inflictor`: a client, or something else, of which `g_grenades` may know who threw it and
which may have the class name `grenade`. -/
inductive Inflictor (maxWeapons : Nat)
  | null
  | client (enemy : PlayerIndex)
  | entity (thrown : Option (PlayerIndex × WeaponId maxWeapons)) (isGrenade : Bool)

structure Game (maxWeapons : Nat) where
  players : Players maxWeapons
  weapon : WeaponId maxWeapons
  aim : Fin 9
  TA : Cell
  ignore : Bool
  pAttacker : Option PlayerIndex

inductive Event (maxWeapons : Nat)
  | call (call : Call maxWeapons)
  | damage (mPlayer : Option PlayerIndex) (damage bits : Cell) (enemy : Inflictor maxWeapons)
  | damageEnd (mPlayer : Option PlayerIndex)
  | curWeapon (mPlayer : Option PlayerIndex) (iState : Cell) (iId : WeaponId maxWeapons)
      (iClip : Int)
  | restartStats (player : PlayerIndex) (all : Bool)

namespace Game

variable {maxWeapons : Nat} [NeZero maxWeapons]

/-- `Client_Damage` -/
def clientDamage (g : Game maxWeapons) (mPlayer : Option PlayerIndex) (damage bits : Cell)
    (enemy : Inflictor maxWeapons) : Game maxWeapons × Option (Call maxWeapons) :=
  match mPlayer, enemy with
  | none, _ => ({ g with ignore := true }, none)
  | some _, .null => ({ g with ignore := true }, none)
  | some mPlayer, .client enemy =>
      if damage = 0 ∨ bits ≠ 0 then ({ g with ignore := true }, none)
      else
        let aim := (g.players enemy).aiming
        let weapon := (g.players enemy).current
        ({ g with ignore := false, aim, weapon, pAttacker := some enemy },
          some (.saveHit enemy mPlayer weapon damage aim))
  | some mPlayer, .entity thrown isGrenade =>
      if damage = 0 ∨ bits ≠ 0 then ({ g with ignore := true }, none)
      else
        match thrown with
        | some (pAttacker, weapon) =>
            ({ g with ignore := false, aim := 0, weapon, pAttacker := some pAttacker },
              some (.saveHit pAttacker mPlayer weapon damage 0))
        | none =>
            let weapon := if isGrenade then cswC4 else 0
            ({ g with ignore := false, aim := 0, weapon, pAttacker := none }, none)

/-- `Client_Damage_End` -/
def clientDamageEnd (g : Game maxWeapons) (w : World) (mPlayer : Option PlayerIndex) :
    Option (Game maxWeapons × Option (Call maxWeapons)) :=
  if g.ignore then some (g, none)
  else do
    let mPlayer ← mPlayer
    let pAttacker := g.pAttacker.getD mPlayer
    let TA : Cell :=
      if (g.players mPlayer).teamId = (g.players pAttacker).teamId ∧ mPlayer ≠ pAttacker then 1
      else 0
    let g := { g with pAttacker := some pAttacker, TA }
    if w.alive mPlayer ∨ g.weapon = cswC4 then some (g, none)
    else some (g, some (.saveKill pAttacker mPlayer g.weapon (if g.aim = 1 then 1 else 0) TA))

/-- `Client_CurWeapon`; `saveShot` does not read what is written here. -/
def clientCurWeapon (g : Game maxWeapons) (mPlayer : Option PlayerIndex) (iState : Cell)
    (iId : WeaponId maxWeapons) (iClip : Int) :
    Game maxWeapons × Option (Call maxWeapons) :=
  match mPlayer with
  | none => (g, none)
  | some mPlayer =>
      if iState = 0 then (g, none)
      else
        let fired := iClip > -1 ∧ iClip < ((g.players mPlayer).weapons iId).clip
        ({ g with
            players := change g.players mPlayer fun p =>
              { p with
                weapons := change p.weapons iId fun weapon => { weapon with clip := iClip }
                current := iId } },
          if fired then some (.saveShot mPlayer iId) else none)

def handle (g : Game maxWeapons) (w : World) : Event maxWeapons →
    Option (Game maxWeapons × Option (Call maxWeapons))
  | .call call => some (g, some call)
  | .damage mPlayer damage bits enemy => some (g.clientDamage mPlayer damage bits enemy)
  | .damageEnd mPlayer => g.clientDamageEnd w mPlayer
  | .curWeapon mPlayer iState iId iClip => some (g.clientCurWeapon mPlayer iState iId iClip)
  | .restartStats player all =>
      some ({ g with players := change g.players player (restartStats all) }, none)

def step (g : Game maxWeapons) (event : World × Event maxWeapons) : Option (Game maxWeapons) := do
  let (g, call) ← g.handle event.1 event.2
  match call with
  | none => some g
  | some call => some { g with players := call.perform g.players event.1 }

end Game

/-! The totals. -/

def weaponFields : List (Stats → Cell) :=
  [Stats.hits, Stats.damage, Stats.shots, Stats.kills, Stats.hs]

def attackerFields : List (Stats → Cell) := [Stats.hits, Stats.damage, Stats.kills]

def victimFields : List (Stats → Cell) := [Stats.hits, Stats.damage, Stats.deaths]

section

variable {ι α : Type*} [Fintype ι] [DecidableEq ι] {total i : ι} {fields : List (Stats → Cell)}
  {read : α → Stats} {table table' : ι → α} {f : Stats → Stats} {f' : α → α}

def AllBalanced (total : ι) (fields : List (Stats → Cell)) (read : α → Stats) (table : ι → α) :
    Prop :=
  ∀ field ∈ fields, Balanced total (fun a => field (read a)) table

def Adds (fields : List (Stats → Cell)) (f : Stats → Stats) : Prop :=
  ∀ field ∈ fields, ∀ s, field (f s) = field s + field (f Stats.zero)

def Leaves (fields : List (Stats → Cell)) (f : Stats → Stats) : Prop :=
  ∀ field ∈ fields, ∀ s, field (f s) = field s

theorem AllBalanced.book (h : AllBalanced total fields read table) (hf : Adds fields f)
    (hread : ∀ a, read (f' a) = f (read a)) (hi : i ≠ total) :
    AllBalanced total fields read (book total table i f') := by
  intro field hfield
  apply (h field hfield).book _ hi
  · exact field (f Stats.zero)
  · intro a
    rw [hread, hf field hfield]

theorem AllBalanced.change (h : AllBalanced total fields read table) (hf : Leaves fields f)
    (hread : ∀ a, read (f' a) = f (read a)) :
    AllBalanced total fields read (change table i f') := by
  intro field hfield
  apply (h field hfield).congr
  intro j
  refine field_change (fun a => field (read a)) ?_
  intro a
  rw [hread, hf field hfield]

theorem AllBalanced.const {a : α} (h : read a = Stats.zero)
    (hzero : ∀ field ∈ fields, field Stats.zero = 0) :
    AllBalanced total fields read fun _ => a := by
  intro field hfield
  apply balanced_const
  rw [h, hzero field hfield]

end

structure CPlayer.Totals {maxWeapons : Nat} (p : CPlayer maxWeapons) : Prop where
  weapons : AllBalanced 0 weaponFields PlayerWeapon.toStats p.weapons
  weaponsRnd : AllBalanced 0 weaponFields id p.weaponsRnd
  attackers : AllBalanced 0 attackerFields PlayerWeapon.toStats p.attackers
  victims : AllBalanced 0 victimFields PlayerWeapon.toStats p.victims

def Totals {maxWeapons : Nat} (players : Players maxWeapons) : Prop :=
  ∀ index, (players index).Totals

section

variable (ddamage hhs ttk : Cell) (bbody : Fin 9)

def countedFields : List (Stats → Cell) :=
  [Stats.hits, Stats.damage, Stats.shots, Stats.kills, Stats.hs, Stats.deaths]

theorem adds_hit : Adds countedFields (Stats.hit ddamage bbody) := by
  simp [Adds, countedFields, Stats.hit, Stats.zero]

theorem adds_kill : Adds countedFields (Stats.kill hhs ttk) := by
  simp [Adds, countedFields, Stats.kill, Stats.zero]

theorem adds_killed : Adds countedFields (Stats.killed hhs ttk) := by
  simp [Adds, countedFields, Stats.killed, Stats.zero]

theorem adds_shot : Adds countedFields Stats.shot := by
  simp [Adds, countedFields, Stats.shot, Stats.zero]

theorem leaves_death : Leaves weaponFields Stats.death := by
  simp [Leaves, weaponFields, Stats.death]

theorem leaves_shot : Leaves victimFields Stats.shot := by
  simp [Leaves, victimFields, Stats.shot]

theorem zero_counted : ∀ field ∈ countedFields, field Stats.zero = 0 := by
  simp [countedFields, Stats.zero]

theorem weaponFields_subset : weaponFields ⊆ countedFields := by
  simp [weaponFields, countedFields]

theorem attackerFields_subset : attackerFields ⊆ countedFields := by
  simp [attackerFields, countedFields]

theorem victimFields_subset : victimFields ⊆ countedFields := by
  simp [victimFields, countedFields]

theorem Adds.subset {fields fields' : List (Stats → Cell)} {f : Stats → Stats}
    (h : Adds fields f) (hsubset : fields' ⊆ fields) : Adds fields' f :=
  fun field hfield => h field (hsubset hfield)

end

section

variable {maxWeapons : Nat} {w : World} {players : Players maxWeapons} {index pVictim : PlayerIndex}
  {wweapon : WeaponId maxWeapons} {ddamage hhs ttk : Cell} {bbody : Fin 9} {p : CPlayer maxWeapons}

theorem CPlayer.Totals.restartStats (h : p.Totals) (all : Bool) : (restartStats all p).Totals where
  weapons := by
    cases all with
    | true => exact .const rfl fun field hfield => zero_counted field (weaponFields_subset hfield)
    | false => exact h.weapons
  weaponsRnd := .const rfl fun field hfield => zero_counted field (weaponFields_subset hfield)
  attackers := .const rfl fun field hfield => zero_counted field (attackerFields_subset hfield)
  victims := .const rfl fun field hfield => zero_counted field (victimFields_subset hfield)

theorem Totals.change (h : Totals players) {f : CPlayer maxWeapons → CPlayer maxWeapons}
    (hf : ∀ p, p.Totals → (f p).Totals) (index : PlayerIndex) :
    Totals (change players index f) := by
  intro other
  unfold Foundation.change
  split
  next => exact hf _ (h other)
  next => exact h other

def Call.Known (w : World) : Call maxWeapons → Prop
  | .saveKill index pVictim wweapon _ _ =>
      ignoreBots w index (some pVictim) = true ∨ index = pVictim ∨ wweapon ≠ 0
  | .saveHit index pVictim wweapon _ _ =>
      ignoreBots w index (some pVictim) = true ∨ index = pVictim ∨ wweapon ≠ 0
  | .saveShot index weapon => ignoreBots w index none = true ∨ weapon ≠ 0

theorem Totals.saveHit (h : Totals players) (hweapon : wweapon ≠ 0) :
    Totals (saveHit players w index pVictim wweapon ddamage bbody) := by
  have hhit := adds_hit ddamage bbody
  unfold Counting.saveHit
  split
  next => exact h
  next =>
    split
    next => exact h
    next =>
      refine (h.change ?_ pVictim).change ?_ index
      · intro v hv
        refine ⟨hv.weapons, hv.weaponsRnd, ?_, hv.victims⟩
        exact hv.attackers.book (hhit.subset attackerFields_subset) (fun _ => rfl) index.2
      · intro p hp
        refine ⟨?_, ?_, hp.attackers, ?_⟩
        · exact hp.weapons.book (hhit.subset weaponFields_subset) (fun _ => rfl) hweapon
        · exact hp.weaponsRnd.book (hhit.subset weaponFields_subset) (fun _ => rfl) hweapon
        · exact hp.victims.book (hhit.subset victimFields_subset) (fun _ => rfl) pVictim.2

theorem Totals.saveShot (h : Totals players) (hweapon : wweapon ≠ 0) :
    Totals (saveShot players w index wweapon) := by
  have hshot := adds_shot.subset weaponFields_subset
  unfold Counting.saveShot
  split
  next => exact h
  next =>
    refine h.change ?_ index
    intro p hp
    refine ⟨?_, ?_, hp.attackers, ?_⟩
    · exact hp.weapons.book hshot (fun _ => rfl) hweapon
    · exact hp.weaponsRnd.book hshot (fun _ => rfl) hweapon
    · exact hp.victims.change leaves_shot fun _ => rfl

theorem Totals.saveKill (h : Totals players) (hweapon : index = pVictim ∨ wweapon ≠ 0) :
    Totals (saveKill players w index pVictim wweapon hhs ttk) := by
  have hkill := adds_kill hhs ttk
  have hname : ∀ fields, Leaves fields id := fun _ _ _ _ => rfl
  unfold Counting.saveKill
  split
  next => exact h
  next =>
    split
    next =>
      refine h.change ?_ pVictim
      intro v hv
      refine ⟨?_, ?_, hv.attackers, hv.victims⟩
      · exact hv.weapons.change leaves_death fun _ => rfl
      · exact hv.weaponsRnd.change leaves_death fun _ => rfl
    next hself =>
      have hweapon := hweapon.resolve_left fun heq => hself heq.symm
      refine (h.change ?_ pVictim).change ?_ index
      · intro v hv
        refine ⟨?_, ?_, ?_, hv.victims⟩
        · exact (hv.weapons.change leaves_death fun _ => rfl).change leaves_death fun _ => rfl
        · exact (hv.weaponsRnd.change leaves_death fun _ => rfl).change leaves_death fun _ => rfl
        · have hnamed : AllBalanced (0 : Fin 33) attackerFields PlayerWeapon.toStats
              (Foundation.change v.attackers index fun a => { a with name := some wweapon }) :=
            hv.attackers.change (hname _) fun _ => rfl
          exact hnamed.book (hkill.subset attackerFields_subset) (fun _ => rfl) index.2
      · intro p hp
        refine ⟨?_, ?_, hp.attackers, ?_⟩
        · exact hp.weapons.book (hkill.subset weaponFields_subset) (fun _ => rfl) hweapon
        · exact hp.weaponsRnd.book (hkill.subset weaponFields_subset) (fun _ => rfl) hweapon
        · have hnamed : AllBalanced (0 : Fin 33) victimFields PlayerWeapon.toStats
              (Foundation.change p.victims pVictim fun v => { v with name := some wweapon }) :=
            hp.victims.change (hname _) fun _ => rfl
          exact hnamed.book ((adds_killed hhs ttk).subset victimFields_subset) (fun _ => rfl)
            pVictim.2

theorem Totals.perform (h : Totals players) {call : Call maxWeapons} (hknown : call.Known w) :
    Totals (call.perform players w) := by
  cases call with
  | saveKill index pVictim wweapon hhs ttk =>
      rcases hknown with hbots | hweapon
      · have hsame : Counting.saveKill players w index pVictim wweapon hhs ttk = players :=
          if_pos hbots
        rw [Call.perform, hsame]
        exact h
      · exact h.saveKill hweapon
  | saveHit index pVictim wweapon ddamage bbody =>
      rcases hknown with hbots | rfl | hweapon
      · have hsame : Counting.saveHit players w index pVictim wweapon ddamage bbody = players :=
          if_pos hbots
        rw [Call.perform, hsame]
        exact h
      · have hsame : Counting.saveHit players w index index wweapon ddamage bbody = players := by
          simp [Counting.saveHit]
        rw [Call.perform, hsame]
        exact h
      · exact h.saveHit hweapon
  | saveShot index weapon =>
      rcases hknown with hbots | hweapon
      · have hsame : Counting.saveShot players w index weapon = players := if_pos hbots
        rw [Call.perform, hsame]
        exact h
      · exact h.saveShot hweapon

theorem not_totals_of_weapon {players' : Players maxWeapons} (h : Totals players)
    (index : PlayerIndex) (f : Stats → Stats) (field : Stats → Cell) (hfield : field ∈ weaponFields)
    (hf : ∀ s, field (f s) = field s + 1)
    (hweapons : (players' index).weapons = book 0 (players index).weapons 0 (.count f)) :
    ¬ Totals players' := by
  intro htotals
  have hbalanced := (htotals index).weapons field hfield
  rw [hweapons] at hbalanced
  have htwice : (1 : Cell) + 1 ≠ 0 := by decide
  exact ((h index).weapons field hfield).not_book_total (fun a => hf a.toStats) htwice hbalanced

theorem Totals.known (h : Totals players) {call : Call maxWeapons}
    (hperform : Totals (call.perform players w)) : call.Known w := by
  by_contra hknown
  revert hperform
  cases call with
  | saveKill index pVictim wweapon hhs ttk =>
      simp only [Call.Known, not_or, Bool.not_eq_true, ne_eq, not_not] at hknown
      obtain ⟨hbots, hself, rfl⟩ := hknown
      apply not_totals_of_weapon h index (Stats.kill hhs ttk) Stats.kills
        (by simp [weaponFields]) fun _ => rfl
      simp [Call.perform, Counting.saveKill, hbots, hself, Ne.symm hself, change_same,
        change_other]
  | saveHit index pVictim wweapon ddamage bbody =>
      simp only [Call.Known, not_or, Bool.not_eq_true, ne_eq, not_not] at hknown
      obtain ⟨hbots, hself, rfl⟩ := hknown
      apply not_totals_of_weapon h index (Stats.hit ddamage bbody) Stats.hits
        (by simp [weaponFields]) fun _ => rfl
      simp [Call.perform, Counting.saveHit, hbots, hself, change_same, change_other]
  | saveShot index weapon =>
      simp only [Call.Known, not_or, Bool.not_eq_true, ne_eq, not_not] at hknown
      obtain ⟨hbots, rfl⟩ := hknown
      apply not_totals_of_weapon h index Stats.shot Stats.shots
        (by simp [weaponFields]) fun _ => rfl
      simp [Call.perform, Counting.saveShot, hbots, change_same]

theorem totals_perform_iff (h : Totals players) {call : Call maxWeapons} :
    Totals (call.perform players w) ↔ call.Known w := ⟨h.known, h.perform⟩

end

namespace Game

variable {maxWeapons : Nat}

def CPlayer.init : CPlayer maxWeapons where
  aiming := 0
  current := 0
  weapons _ := .zero
  attackers _ := .zero
  victims _ := .zero
  weaponsRnd _ := Stats.zero
  life := Stats.zero
  teamId := 0

def start : Game maxWeapons where
  players _ := CPlayer.init
  weapon := 0
  aim := 0
  TA := 0
  ignore := false
  pAttacker := none

theorem totals_start : Totals (start : Game maxWeapons).players := by
  intro index
  refine ⟨?_, ?_, ?_, ?_⟩
  · exact .const rfl fun field hfield => zero_counted field (weaponFields_subset hfield)
  · exact .const rfl fun field hfield => zero_counted field (weaponFields_subset hfield)
  · exact .const rfl fun field hfield => zero_counted field (attackerFields_subset hfield)
  · exact .const rfl fun field hfield => zero_counted field (victimFields_subset hfield)

variable [NeZero maxWeapons]

def Right (g : Game maxWeapons) (event : World × Event maxWeapons) : Prop :=
  ∀ next, g.step event = some next → Totals next.players

def Known (g : Game maxWeapons) (event : World × Event maxWeapons) : Prop :=
  ∀ call ∈ (g.handle event.1 event.2).bind Prod.snd, call.Known event.1

variable {g : Game maxWeapons} {w : World}

theorem clientDamage_players (mPlayer : Option PlayerIndex) (damage bits : Cell)
    (enemy : Inflictor maxWeapons) :
    (g.clientDamage mPlayer damage bits enemy).1.players = g.players := by
  unfold clientDamage
  split
  next => rfl
  next => rfl
  next => split <;> rfl
  next =>
    split
    next => rfl
    next => split <;> rfl

theorem clientDamageEnd_players {mPlayer : Option PlayerIndex}
    {result : Game maxWeapons × Option (Call maxWeapons)}
    (hresult : g.clientDamageEnd w mPlayer = some result) : result.1.players = g.players := by
  unfold clientDamageEnd at hresult
  split at hresult
  next =>
    cases hresult
    rfl
  next =>
    cases mPlayer with
    | none => cases hresult
    | some mPlayer =>
        simp only [Option.bind_eq_bind, Option.bind_some] at hresult
        split at hresult <;> cases hresult <;> rfl

omit [NeZero maxWeapons] in
theorem totals_clientCurWeapon (h : Totals g.players) (mPlayer : Option PlayerIndex)
    (iState : Cell) (iId : WeaponId maxWeapons) (iClip : Int) :
    Totals (g.clientCurWeapon mPlayer iState iId iClip).1.players := by
  unfold clientCurWeapon
  split
  next => exact h
  next mPlayer =>
    split
    next => exact h
    next =>
      have hclip : Leaves weaponFields id := fun _ _ _ => rfl
      have hwritten : ∀ p : CPlayer maxWeapons, p.Totals → CPlayer.Totals
          { p with
            weapons := Foundation.change p.weapons iId fun weapon => { weapon with clip := iClip }
            current := iId } := fun p hp =>
        ⟨hp.weapons.change hclip fun _ => rfl, hp.weaponsRnd, hp.attackers, hp.victims⟩
      exact h.change hwritten mPlayer

theorem totals_handle (h : Totals g.players) {event : Event maxWeapons}
    {result : Game maxWeapons × Option (Call maxWeapons)}
    (hresult : g.handle w event = some result) : Totals result.1.players := by
  cases event with
  | call call =>
      cases hresult
      exact h
  | damage mPlayer damage bits enemy =>
      cases hresult
      rw [clientDamage_players]
      exact h
  | damageEnd mPlayer =>
      rw [clientDamageEnd_players hresult]
      exact h
  | curWeapon mPlayer iState iId iClip =>
      cases hresult
      exact totals_clientCurWeapon h mPlayer iState iId iClip
  | restartStats player all =>
      cases hresult
      exact h.change (fun p hp => hp.restartStats all) player

theorem right_iff (h : Totals g.players) {event : World × Event maxWeapons} :
    g.Right event ↔ g.Known event := by
  unfold Right Known step
  cases hhandle : g.handle event.1 event.2 with
  | none => simp
  | some result =>
      have hresult := totals_handle h hhandle
      obtain ⟨g', call⟩ := result
      cases call with
      | none => simpa using hresult
      | some call => simpa using totals_perform_iff hresult

/-- The totals stay right exactly as long as nothing is counted with weapon 0. -/
theorem meets_right_iff_known (events : List (World × Event maxWeapons)) :
    Meets step Right (start : Game maxWeapons) events ↔
      Meets step Known (start : Game maxWeapons) events :=
  meets_congr (fun _ hright hstep => hright _ hstep) (fun h => right_iff h) totals_start

instance : (call : Call maxWeapons) → Decidable (call.Known w)
  | .saveKill _ _ _ _ _ => inferInstanceAs (Decidable (_ ∨ _))
  | .saveHit _ _ _ _ _ => inferInstanceAs (Decidable (_ ∨ _))
  | .saveShot _ _ => inferInstanceAs (Decidable (_ ∨ _))

instance (event : World × Event maxWeapons) : Decidable (g.Known event) :=
  inferInstanceAs (Decidable (∀ call ∈ (g.handle event.1 event.2).bind Prod.snd, _))

/-- A player who has drawn the knife hits another. -/
theorem meets_right_knife : Meets step Right (start : Game 32)
    [(⟨true, fun _ => false, fun _ => true⟩, .curWeapon (some ⟨1, by decide⟩) 1 29 (-1)),
      (⟨true, fun _ => false, fun _ => true⟩,
        .damage (some ⟨2, by decide⟩) 40 0 (.client ⟨1, by decide⟩))] :=
  (meets_right_iff_known _).mpr (by decide)

/-- A player who has not been told of a weapon hits another. -/
theorem not_meets_right_unarmed : ¬ ∀ events : List (World × Event 32),
    Meets step Right (start : Game 32) events := by
  intro h
  have hright := (h [(⟨true, fun _ => false, fun _ => true⟩,
    .damage (some ⟨2, by decide⟩) 40 0 (.client ⟨1, by decide⟩))]).1
  rw [right_iff totals_start] at hright
  revert hright
  decide

end Game

end AmxModC.Csx.Counting
