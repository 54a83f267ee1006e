import AmxModC.Foundation.Run
import Mathlib.Data.Int.Notation
import Mathlib.Logic.Function.Basic

namespace AmxModC.Fakemeta.Tables

open Foundation

/-! The tables of engine and game functions, and the lists of callbacks that the hooks in them
run. -/

/-- The `FM_` constants, from 1 on. -/
inductive Fm
  | precacheModel | precacheSound | setModel | modelIndex | modelFrames | setSize | changeLevel
  | vecToYaw | vecToAngles | moveToOrigin | changeYaw | changePitch | findEntityByString
  | getEntityIllum | findEntityInSphere | findClientInPVS | entitiesInPVS | makeVectors
  | angleVectors | createEntity | removeEntity | createNamedEntity | makeStatic | entIsOnFloor
  | dropToFloor | walkMove | setOrigin | emitSound | emitAmbientSound | traceLine | traceToss
  | traceMonsterHull | traceHull | traceModel | traceTexture | traceSphere | getAimVector
  | particleEffect | lightStyle | decalIndex | pointContents | messageBegin | messageEnd
  | writeByte | writeChar | writeShort | writeLong | writeAngle | writeCoord | writeString
  | writeEntity | cvarGetFloat | cvarGetString | cvarSetFloat | cvarSetString
  | freeEntPrivateData | szFromIndex | allocString | regUserMsg | animationAutomove
  | getBonePosition | getAttachment | setView | time | crosshairAngle | fadeClientVolume
  | setClientMaxspeed | createFakeClient | runPlayerMove | numberOfEntities | staticDecal
  | precacheGeneric | buildSoundMsg | getPhysicsKeyValue | setPhysicsKeyValue
  | getPhysicsInfoString | precacheEvent | playbackEvent | checkVisibility | getCurrentPlayer
  | canSkipPlayer | setGroupMask | voiceGetClientListening | voiceSetClientListening
  | infoKeyValue | setKeyValue | setClientKeyValue | getPlayerAuthId | getPlayerWONId
  | isMapValid | spawn | think | use | touch | blocked | keyValue | setAbsBox | clientConnect
  | clientDisconnect | clientKill | clientPutInServer | clientCommand | serverDeactivate
  | playerPreThink | playerPostThink | startFrame | parmsNewLevel | parmsChangeLevel
  | getGameDescription | spectatorConnect | spectatorDisconnect | spectatorThink | sysError
  | pmFindTextureType | registerEncoders | createInstancedBaselines | allowLagCompensation
  | alertMessage | onFreeEntPrivateData | gameShutdown | shouldCollide | clientUserInfoChanged
  | updateClientData | addToFullPack | cmdStart | cmdEnd | createInstancedBaseline
  | createBaseline | getInfoKeyBuffer | clientPrintf | serverPrint
deriving DecidableEq

inductive Table
  | engine
  | dll
  | newDll
deriving DecidableEq

structure Slot where
  table : Table
  function : Fm
  post : Bool
deriving DecidableEq

namespace Fm

/-- The macro of its case in `register_forward`: `DLLHOOK`, `NEWDLLHOOK` or `ENGHOOK`. -/
def table : Fm → Table
  | .spawn | .think | .use | .touch | .blocked | .keyValue | .setAbsBox | .clientConnect
  | .clientDisconnect | .clientKill | .clientPutInServer | .clientCommand | .serverDeactivate
  | .playerPreThink | .playerPostThink | .startFrame | .parmsNewLevel | .parmsChangeLevel
  | .getGameDescription | .spectatorConnect | .spectatorDisconnect | .spectatorThink | .sysError
  | .pmFindTextureType | .registerEncoders | .createInstancedBaselines | .allowLagCompensation
  | .clientUserInfoChanged | .updateClientData | .addToFullPack | .cmdStart | .cmdEnd
  | .createBaseline => .dll
  | .onFreeEntPrivateData | .gameShutdown | .shouldCollide => .newDll
  | _ => .engine

/-- `func >= FM_LAST_DONT_USE_ME || func < 1` -/
def ofNumber (func : Int) : Option Fm :=
  if func ≥ 132 ∨ func < 1 then none else some (.ofNat (func.toNat - 1))

def slot (f : Fm) (post : Bool) : Slot := ⟨f.table, f, post⟩

end Fm

/-- What `MF_RegisterSPForwardByName` returns for a function that the plugin has. -/
abbrev ForwardId := { id : Int // 0 < id }

/-- The entries that are not `NULL`, and for each phase `Engine` or `EnginePost` and
`EngineAddrs` or `EngineAddrsPost`. -/
structure World where
  entries : Slot → Bool
  callbacks : Fm × Bool → List Int
  addrs : Fm × Bool → Option Slot

namespace World

def initial : World :=
  ⟨fun slot => slot = Fm.serverDeactivate.slot true, fun _ => [], fun _ => none⟩

/-- `ENGHOOK` -/
def engHook (s : World) (f : Fm) (post : Bool) : World :=
  { s with
    addrs := Function.update s.addrs (f, post) (some ⟨.engine, f, post⟩)
    entries := Function.update s.entries ⟨.engine, f, post⟩ true }

/-- `DLLHOOK` -/
def dllHook (s : World) (f : Fm) (post : Bool) : World :=
  { s with
    addrs := Function.update s.addrs (f, post) (some ⟨.dll, f, post⟩)
    entries := Function.update s.entries ⟨.dll, f, post⟩ true }

/-- `NEWDLLHOOK` -/
def newDllHook (s : World) (f : Fm) (post : Bool) : World :=
  { s with entries := Function.update s.entries ⟨.newDll, f, post⟩ true }

/-- The `switch` of `register_forward`. -/
def hook (s : World) (f : Fm) (post : Bool) : World :=
  match f.table with
  | .engine => s.engHook f post
  | .dll => s.dllHook f post
  | .newDll => s.newDllHook f post

/-- `found` is `none` where the plugin does not have the function. -/
def registerForward (s : World) (func : Int) (found : Option ForwardId) (post : Bool) :
    World × Int :=
  match Fm.ofNumber func with
  | none => (s, 0)
  | some f =>
      let fId := found.elim (-1) Subtype.val
      let hooked := s.hook f post
      if fId = 0 then (hooked, 0)
      else
        ({ hooked with
            callbacks := Function.update s.callbacks (f, post) (s.callbacks (f, post) ++ [fId]) },
          fId)

/-- `*(void **)patchAddr = NULL` -/
def patch (s : World) (patchAddr : Option Slot) : World :=
  match patchAddr with
  | none => s
  | some slot => { s with entries := Function.update s.entries slot false }

def unregisterForward (s : World) (func funcId : Int) (post : Bool) : World × Int :=
  match Fm.ofNumber func with
  | none => (s, 0)
  | some f =>
      if funcId ∈ s.callbacks (f, post) then
        let rest := (s.callbacks (f, post)).erase funcId
        let erased := { s with callbacks := Function.update s.callbacks (f, post) rest }
        if rest = [] ∧ f ≠ .serverDeactivate then (erased.patch (s.addrs (f, post)), 1)
        else (erased, 1)
      else (s, 0)

/-- `RESETE`, `RESETD` and `RESETN`, by their table -/
def reset (s : World) (call : Table × Fm) : World where
  entries :=
    Function.update (Function.update s.entries ⟨call.1, call.2, false⟩ false)
      ⟨call.1, call.2, true⟩ false
  callbacks := Function.update (Function.update s.callbacks (call.2, false) []) (call.2, true) []
  addrs := Function.update (Function.update s.addrs (call.2, false) none) (call.2, true) none

end World

/-! The functions of `FMH_ServerDeactivate_Post` by their macro. -/

def resetE : List Fm :=
  [.precacheModel, .precacheSound, .setModel, .modelIndex, .modelFrames, .setSize, .changeLevel,
    .vecToYaw, .vecToAngles, .moveToOrigin, .changeYaw, .changePitch, .findEntityByString,
    .getEntityIllum, .findEntityInSphere, .findClientInPVS, .entitiesInPVS, .makeVectors,
    .angleVectors, .createEntity, .removeEntity, .createNamedEntity, .makeStatic, .entIsOnFloor,
    .dropToFloor, .walkMove, .setOrigin, .emitSound, .emitAmbientSound, .traceLine, .traceToss,
    .traceMonsterHull, .traceHull, .traceModel, .traceTexture, .traceSphere, .getAimVector,
    .particleEffect, .lightStyle, .decalIndex, .pointContents, .freeEntPrivateData, .szFromIndex,
    .allocString, .regUserMsg, .animationAutomove, .getBonePosition, .getAttachment, .setView,
    .time, .crosshairAngle, .fadeClientVolume, .setClientMaxspeed, .createFakeClient,
    .runPlayerMove, .numberOfEntities, .staticDecal, .precacheGeneric, .buildSoundMsg,
    .getPhysicsKeyValue, .setPhysicsKeyValue, .getPhysicsInfoString, .precacheEvent,
    .playbackEvent, .checkVisibility, .getCurrentPlayer, .canSkipPlayer, .setGroupMask,
    .voiceGetClientListening, .voiceSetClientListening, .infoKeyValue, .setKeyValue,
    .setClientKeyValue, .messageBegin, .messageEnd, .writeByte, .writeChar, .writeShort,
    .writeLong, .writeAngle, .writeCoord, .writeString, .writeEntity, .cvarGetFloat,
    .cvarGetString, .cvarSetFloat, .cvarSetString, .alertMessage, .createInstancedBaseline,
    .getInfoKeyBuffer, .clientPrintf, .getPlayerAuthId, .getPlayerWONId, .isMapValid, .serverPrint]

def resetD : List Fm :=
  [.spawn, .think, .use, .touch, .blocked, .keyValue, .setAbsBox, .clientConnect,
    .clientDisconnect, .clientKill, .clientPutInServer, .clientCommand, .serverDeactivate,
    .playerPreThink, .playerPostThink, .startFrame, .parmsNewLevel, .parmsChangeLevel,
    .getGameDescription, .spectatorConnect, .spectatorDisconnect, .spectatorThink, .sysError,
    .pmFindTextureType, .registerEncoders, .createInstancedBaselines, .allowLagCompensation,
    .clientUserInfoChanged, .updateClientData, .addToFullPack, .cmdStart, .cmdEnd, .createBaseline]

def resetN : List Fm := [.onFreeEntPrivateData, .gameShutdown, .shouldCollide]

namespace World

/-- `FMH_ServerDeactivate_Post` -/
def serverDeactivatePost (s : World) : World :=
  (resetE.map (Table.engine, ·) ++ resetD.map (Table.dll, ·) ++
    resetN.map (Table.newDll, ·)).foldl reset s

/-- `ServerActivate` -/
def serverActivate (s : World) : World :=
  { s with entries := Function.update s.entries (Fm.serverDeactivate.slot true) true }

end World

inductive Event
  | registerForward (func : Int) (found : Option ForwardId) (post : Bool)
  | unregisterForward (func funcId : Int) (post : Bool)
  | serverDeactivatePost
  | serverActivate

def World.call (s : World) : Event → World × Int
  | .registerForward func found post => s.registerForward func found post
  | .unregisterForward func funcId post => s.unregisterForward func funcId post
  | .serverDeactivatePost => (s.serverDeactivatePost, 0)
  | .serverActivate => (s.serverActivate, 0)

def World.next (s : World) (event : Event) : Option World := some (s.call event).1

def World.Matches (s : World) : Prop :=
  ∀ f ≠ Fm.serverDeactivate, ∀ post, s.entries (f.slot post) = true ↔ s.callbacks (f, post) ≠ []

/-- The tables match after the event, and a function that the plugin does not have is refused. -/
def World.Right (s : World) (event : Event) : Prop :=
  (s.call event).1.Matches ∧
    ∀ func post, event = .registerForward func none post → s.call event = (s, 0)

/-- No missing function is registered, and the last callback of a function of the new table is
not unregistered. -/
def World.Sound (s : World) : Event → Prop
  | .registerForward func found _ => found = none → Fm.ofNumber func = none
  | .unregisterForward func funcId post =>
      ∀ f, Fm.ofNumber func = some f → f.table = .newDll → s.callbacks (f, post) ≠ [funcId]
  | .serverDeactivatePost | .serverActivate => True

/-! What `EngineAddrs` says. -/

/-- An address that is recorded is the own one, and outside the new table each function with a
callback has it. -/
structure Recorded (s : World) : Prop where
  own : ∀ f post slot, s.addrs (f, post) = some slot → f.table ≠ .newDll ∧ slot = f.slot post
  recorded : ∀ f post, f.table ≠ .newDll → s.callbacks (f, post) ≠ [] →
    s.addrs (f, post) = some (f.slot post)

theorem Fm.slot_inj {f g : Fm} {post post' : Bool} :
    f.slot post = g.slot post' ↔ (f, post) = (g, post') := by
  rw [Fm.slot, Fm.slot, Slot.mk.injEq, Prod.mk.injEq]
  exact ⟨fun h => h.2, fun h => ⟨congrArg Fm.table h.1, h⟩⟩

namespace World

variable {s : World} {f : Fm} {post : Bool}

theorem hook_entries (s : World) (f : Fm) (post : Bool) :
    (s.hook f post).entries = Function.update s.entries (f.slot post) true := by
  rw [hook, Fm.slot]
  cases f.table with
  | _ => rfl

theorem hook_addrs (s : World) (f : Fm) (post : Bool) :
    (s.hook f post).addrs =
      if f.table = .newDll then s.addrs
      else Function.update s.addrs (f, post) (some (f.slot post)) := by
  rw [hook, Fm.slot]
  cases f.table with
  | _ => rfl

theorem registerForward_of_number {func : Int} (hfunc : Fm.ofNumber func = some f)
    (found : Option ForwardId) :
    s.registerForward func found post =
      ({ s.hook f post with
          callbacks := Function.update s.callbacks (f, post)
            (s.callbacks (f, post) ++ [found.elim (-1) Subtype.val]) },
        found.elim (-1) Subtype.val) := by
  have hid : found.elim (-1) Subtype.val ≠ 0 := by
    cases found with
    | none => decide
    | some id => exact Int.ne_of_gt id.2
  rw [registerForward, hfunc]
  exact if_neg hid

theorem update_both {α : Type} (values : Fm × Bool → α) (value : α) (g : Fm) (f : Fm)
    (post : Bool) :
    Function.update (Function.update values (g, false) value) (g, true) value (f, post) =
      if f = g then value else values (f, post) := by
  by_cases hf : f = g
  · subst hf
    rw [if_pos rfl]
    cases post with
    | false => rw [Function.update_of_ne (by simp), Function.update_self]
    | true => rw [Function.update_self]
  · rw [Function.update_of_ne (by simp [hf]), Function.update_of_ne (by simp [hf]), if_neg hf]

theorem callbacks_reset (s : World) (call : Table × Fm) (f : Fm) (post : Bool) :
    (s.reset call).callbacks (f, post) = if f = call.2 then [] else s.callbacks (f, post) :=
  update_both s.callbacks [] call.2 f post

theorem addrs_reset (s : World) (call : Table × Fm) (f : Fm) (post : Bool) :
    (s.reset call).addrs (f, post) = if f = call.2 then none else s.addrs (f, post) :=
  update_both s.addrs none call.2 f post

theorem entries_reset (s : World) (call : Table × Fm) (f : Fm) (post : Bool) :
    (s.reset call).entries (f.slot post) =
      if (f.table, f) = call then false else s.entries (f.slot post) := by
  obtain ⟨table, g⟩ := call
  change Function.update (Function.update s.entries ⟨table, g, false⟩ false) ⟨table, g, true⟩ false
    ⟨f.table, f, post⟩ = _
  by_cases hf : (f.table, f) = (table, g)
  · obtain ⟨rfl, rfl⟩ := Prod.mk.inj hf
    rw [if_pos rfl]
    cases post with
    | false => rw [Function.update_of_ne (by simp), Function.update_self]
    | true => rw [Function.update_self]
  · have hne (phase : Bool) : (⟨f.table, f, post⟩ : Slot) ≠ ⟨table, g, phase⟩ := by
      rw [Ne, Slot.mk.injEq]
      exact fun heq => hf (Prod.ext heq.1 heq.2.1)
    rw [Function.update_of_ne (hne true), Function.update_of_ne (hne false), if_neg hf]
    rfl

end World

namespace Recorded

variable {s : World}

theorem initial : Recorded .initial where
  own _ _ _ hnone := by cases hnone
  recorded _ _ _ hne := (hne rfl).elim

theorem registerForward (h : Recorded s) (func : Int) (found : Option ForwardId) (post : Bool) :
    Recorded (s.registerForward func found post).1 := by
  cases hfunc : Fm.ofNumber func with
  | none =>
      rw [World.registerForward, hfunc]
      exact h
  | some f =>
      rw [World.registerForward_of_number hfunc]
      refine ⟨fun g phase slot hslot => ?_, fun g phase htable hne => ?_⟩
      · change (s.hook f post).addrs (g, phase) = some slot at hslot
        rw [World.hook_addrs] at hslot
        split at hslot
        · exact h.own g phase slot hslot
        next htable =>
          by_cases heq : (g, phase) = (f, post)
          · rw [heq, Function.update_self] at hslot
            obtain ⟨rfl, rfl⟩ := Prod.mk.inj heq
            exact ⟨htable, (Option.some.inj hslot).symm⟩
          · rw [Function.update_of_ne heq] at hslot
            exact h.own g phase slot hslot
      · change (s.hook f post).addrs (g, phase) = some (g.slot phase)
        rw [World.hook_addrs]
        by_cases heq : (g, phase) = (f, post)
        · obtain ⟨rfl, rfl⟩ := Prod.mk.inj heq
          rw [if_neg htable, Function.update_self]
        · have hne' : s.callbacks (g, phase) ≠ [] := by
            change Function.update s.callbacks (f, post)
              (s.callbacks (f, post) ++ [found.elim (-1) Subtype.val]) (g, phase) ≠ [] at hne
            rwa [Function.update_of_ne heq] at hne
          split
          · exact h.recorded g phase htable hne'
          · rw [Function.update_of_ne heq]
            exact h.recorded g phase htable hne'

theorem of_fewer (h : Recorded s) {s' : World} (haddrs : s'.addrs = s.addrs)
    (hfewer : ∀ place, s'.callbacks place ≠ [] → s.callbacks place ≠ []) : Recorded s' := by
  refine ⟨fun f post slot hslot => h.own f post slot (haddrs ▸ hslot), fun f post htable hne => ?_⟩
  rw [haddrs]
  exact h.recorded f post htable (hfewer _ hne)

theorem unregisterForward (h : Recorded s) (func funcId : Int) (post : Bool) :
    Recorded (s.unregisterForward func funcId post).1 := by
  rw [World.unregisterForward]
  cases Fm.ofNumber func with
  | none => exact h
  | some f =>
      have hfewer (place : Fm × Bool)
          (hne : Function.update s.callbacks (f, post) ((s.callbacks (f, post)).erase funcId)
            place ≠ []) : s.callbacks place ≠ [] := by
        by_cases hplace : place = (f, post)
        · subst hplace
          rw [Function.update_self] at hne
          exact fun hnil => hne (by rw [hnil]; rfl)
        · rwa [Function.update_of_ne hplace] at hne
      dsimp only
      split
      · split
        · cases haddr : s.addrs (f, post) with
          | _ => exact h.of_fewer rfl hfewer
        · exact h.of_fewer rfl hfewer
      · exact h

theorem reset (h : Recorded s) (call : Table × Fm) : Recorded (s.reset call) := by
  refine ⟨fun f post slot hslot => ?_, fun f post htable hne => ?_⟩
  · rw [World.addrs_reset] at hslot
    split at hslot
    · cases hslot
    · exact h.own f post slot hslot
  · rw [World.callbacks_reset] at hne
    rw [World.addrs_reset]
    split at hne
    · exact (hne rfl).elim
    next hother =>
      rw [if_neg hother]
      exact h.recorded f post htable hne

theorem foldl_reset (h : Recorded s) (calls : List (Table × Fm)) :
    Recorded (calls.foldl World.reset s) := by
  induction calls generalizing s with
  | nil => exact h
  | cons call calls ih => exact ih (h.reset call)

theorem call (h : Recorded s) (event : Event) : Recorded (s.call event).1 := by
  cases event with
  | registerForward func found post => exact h.registerForward func found post
  | unregisterForward func funcId post => exact h.unregisterForward func funcId post
  | serverDeactivatePost => exact h.foldl_reset _
  | serverActivate => exact h.of_fewer rfl fun _ hne => hne

end Recorded

/-! A map change. -/

theorem mem_resets (f : Fm) :
    (f.table, f) ∈ resetE.map (Table.engine, ·) ++ resetD.map (Table.dll, ·) ++
      resetN.map (Table.newDll, ·) := by
  cases f with
  | _ => decide

namespace World

variable {s : World} {f : Fm}

def Cleared (s : World) (f : Fm) : Prop :=
  ∀ post, s.entries (f.slot post) = false ∧ s.callbacks (f, post) = []

theorem Cleared.reset (h : s.Cleared f) (call : Table × Fm) : (s.reset call).Cleared f := by
  intro post
  rw [entries_reset, callbacks_reset]
  constructor
  · split
    · rfl
    · exact (h post).1
  · split
    · rfl
    · exact (h post).2

theorem cleared_reset (s : World) (f : Fm) : (s.reset (f.table, f)).Cleared f := by
  intro post
  rw [entries_reset, callbacks_reset]
  exact ⟨if_pos rfl, if_pos rfl⟩

theorem Cleared.foldl (h : s.Cleared f) (calls : List (Table × Fm)) :
    (calls.foldl World.reset s).Cleared f := by
  induction calls generalizing s with
  | nil => exact h
  | cons call calls ih => exact ih (h.reset call)

theorem cleared_serverDeactivatePost (s : World) (f : Fm) : s.serverDeactivatePost.Cleared f := by
  obtain ⟨before, after, hcalls⟩ := List.append_of_mem (mem_resets f)
  rw [serverDeactivatePost, hcalls, List.foldl_append, List.foldl_cons]
  exact (cleared_reset _ f).foldl after

end World

structure Good (s : World) : Prop extends Recorded s where
  wellMatched : s.Matches

namespace Good

variable {s : World}

theorem initial : Good .initial where
  toRecorded := .initial
  wellMatched f hf post := by
    refine iff_of_false (fun hentry => hf ?_) (fun hne => hne rfl)
    exact (Prod.mk.inj (Fm.slot_inj.mp (of_decide_eq_true hentry))).1

theorem matches_register (h : Good s) {func : Int} {f : Fm} (hfunc : Fm.ofNumber func = some f)
    (found : Option ForwardId) (post : Bool) :
    (s.registerForward func found post).1.Matches := by
  rw [World.registerForward_of_number hfunc]
  intro g hg phase
  change (s.hook f post).entries (g.slot phase) = true ↔
    Function.update s.callbacks (f, post) (s.callbacks (f, post) ++ [found.elim (-1) Subtype.val])
      (g, phase) ≠ []
  rw [World.hook_entries]
  by_cases heq : (g, phase) = (f, post)
  · rw [Fm.slot_inj.mpr heq, heq, Function.update_self, Function.update_self]
    exact iff_of_true rfl (List.append_ne_nil_of_right_ne_nil _ (List.cons_ne_nil _ _))
  · rw [Function.update_of_ne (mt Fm.slot_inj.mp heq), Function.update_of_ne heq]
    exact h.wellMatched g hg phase

theorem right_register (h : Good s) (func : Int) (found : Option ForwardId) (post : Bool) :
    s.Right (.registerForward func found post) ↔
      s.Sound (.registerForward func found post) := by
  cases hfunc : Fm.ofNumber func with
  | none =>
      have hsame (found : Option ForwardId) : s.registerForward func found post = (s, 0) := by
        rw [World.registerForward, hfunc]
      refine iff_of_true ⟨?_, fun func' post' heq => ?_⟩ fun _ => hfunc
      · exact (congrArg Prod.fst (hsame found)).symm ▸ h.wellMatched
      · obtain ⟨rfl, rfl, rfl⟩ := Event.registerForward.inj heq
        exact hsame none
  | some f =>
      rw [World.Sound, hfunc]
      constructor
      · rintro ⟨-, hrefused⟩ rfl
        have hresult := congrArg Prod.snd (hrefused func post rfl)
        rw [World.call, World.registerForward_of_number hfunc] at hresult
        cases hresult
      · intro hfound
        refine ⟨h.matches_register hfunc found post, fun func' post' heq => ?_⟩
        obtain ⟨-, rfl, -⟩ := Event.registerForward.inj heq
        cases hfound rfl

theorem matches_fewer (h : Good s) {f : Fm} {post : Bool} {rest : List Int}
    (hlist : s.callbacks (f, post) ≠ []) (hrest : rest ≠ [] ∨ f = .serverDeactivate) :
    ({ s with callbacks := Function.update s.callbacks (f, post) rest } : World).Matches := by
  intro g hg phase
  change s.entries (g.slot phase) = true ↔ Function.update s.callbacks (f, post) rest (g, phase) ≠ []
  rw [h.wellMatched g hg phase]
  by_cases heq : (g, phase) = (f, post)
  · rw [heq, Function.update_self]
    exact iff_of_true hlist (hrest.resolve_right fun hf => hg ((Prod.mk.inj heq).1.trans hf))
  · rw [Function.update_of_ne heq]

theorem matches_patched (h : Good s) {f : Fm} {post : Bool} (hf : f ≠ .serverDeactivate)
    (hlist : s.callbacks (f, post) ≠ []) :
    (({ s with callbacks := Function.update s.callbacks (f, post) [] } : World).patch
      (s.addrs (f, post))).Matches ↔ f.table ≠ .newDll := by
  by_cases htable : f.table = .newDll
  · refine iff_of_false (fun hmatch => ?_) (not_not.mpr htable)
    cases haddr : s.addrs (f, post) with
    | some slot => exact (h.own f post slot haddr).1 htable
    | none =>
        rw [haddr] at hmatch
        refine (hmatch f hf post).mp ((h.wellMatched f hf post).mpr hlist) ?_
        exact Function.update_self ..
  · rw [h.recorded f post htable hlist]
    refine iff_of_true (fun g hg phase => ?_) htable
    change Function.update s.entries (f.slot post) false (g.slot phase) = true ↔
      Function.update s.callbacks (f, post) [] (g, phase) ≠ []
    by_cases heq : (g, phase) = (f, post)
    · rw [Fm.slot_inj.mpr heq, heq, Function.update_self, Function.update_self]
      exact iff_of_false Bool.false_ne_true fun hne => hne rfl
    · rw [Function.update_of_ne (mt Fm.slot_inj.mp heq), Function.update_of_ne heq]
      exact h.wellMatched g hg phase

theorem matches_unregister (h : Good s) {func funcId : Int} {f : Fm} {post : Bool}
    (hfunc : Fm.ofNumber func = some f) :
    (s.unregisterForward func funcId post).1.Matches ↔
      (f.table = .newDll → s.callbacks (f, post) ≠ [funcId]) := by
  rw [World.unregisterForward, hfunc]
  dsimp only
  by_cases hmem : funcId ∈ s.callbacks (f, post)
  · have hlist : s.callbacks (f, post) ≠ [] := List.ne_nil_of_mem hmem
    have hlast : (s.callbacks (f, post)).erase funcId = [] ↔ s.callbacks (f, post) = [funcId] :=
      List.erase_eq_nil_iff.trans (or_iff_right hlist)
    rw [if_pos hmem]
    by_cases hpatch : (s.callbacks (f, post)).erase funcId = [] ∧ f ≠ .serverDeactivate
    · rw [if_pos hpatch, hpatch.1, h.matches_patched hpatch.2 hlist]
      exact ⟨fun htable hnew => (htable hnew).elim, fun hne htable =>
        hne htable (hlast.mp hpatch.1)⟩
    · rw [if_neg hpatch]
      refine iff_of_true (h.matches_fewer hlist ?_) fun htable hone => ?_
      · rwa [not_and_or, not_not] at hpatch
      · refine hpatch ⟨hlast.mpr hone, ?_⟩
        rintro rfl
        cases htable
  · rw [if_neg hmem]
    exact iff_of_true h.wellMatched fun _ hone => hmem (hone ▸ List.mem_singleton_self funcId)

theorem right_iff_sound (h : Good s) (event : Event) : s.Right event ↔ s.Sound event := by
  cases event with
  | registerForward func found post => exact h.right_register func found post
  | unregisterForward func funcId post =>
      have hright : s.Right (.unregisterForward func funcId post) ↔
          (s.unregisterForward func funcId post).1.Matches :=
        and_iff_left fun _ _ heq => by cases heq
      rw [hright, World.Sound]
      cases hfunc : Fm.ofNumber func with
      | none =>
          rw [World.unregisterForward, hfunc]
          exact iff_of_true h.wellMatched fun f hf => by cases hf
      | some f =>
          rw [h.matches_unregister hfunc]
          exact ⟨fun hlast g hg => Option.some.inj hg ▸ hlast, fun hall => hall f rfl⟩
  | serverDeactivatePost =>
      refine iff_of_true ⟨fun f _ post => ?_, fun _ _ heq => by cases heq⟩ trivial
      obtain ⟨hentry, hlist⟩ := s.cleared_serverDeactivatePost f post
      change s.serverDeactivatePost.entries _ = true ↔ s.serverDeactivatePost.callbacks _ ≠ []
      rw [hentry, hlist]
      exact iff_of_false Bool.false_ne_true fun hne => hne rfl
  | serverActivate =>
      refine iff_of_true ⟨fun f hf post => ?_, fun _ _ heq => by cases heq⟩ trivial
      change Function.update s.entries (Fm.serverDeactivate.slot true) true (f.slot post) = true ↔
        s.callbacks (f, post) ≠ []
      have hne : f.slot post ≠ Fm.serverDeactivate.slot true :=
        fun heq => hf (Prod.mk.inj (Fm.slot_inj.mp heq)).1
      rw [Function.update_of_ne hne]
      exact h.wellMatched f hf post

end Good

/-- The tables match the lists and missing functions are refused throughout a run exactly where
none is registered, and the functions of the new table keep their last callbacks. -/
theorem tables_right_iff (events : List Event) :
    Meets World.next World.Right .initial events ↔ Meets World.next World.Sound .initial events := by
  refine meets_congr (I := Good) (fun {s event next} hgood hright hnext => ?_)
    (fun hgood => hgood.right_iff_sound _) .initial
  obtain rfl := Option.some.inj hnext
  exact ⟨hgood.call event, hright.1⟩

/-- A plugin registers a forward for a function that it does not have. -/
theorem missing_not_refused :
    ¬ Meets World.next World.Right .initial [.registerForward 1 none false] := by
  rintro ⟨⟨-, hrefused⟩, -⟩
  have hresult := congrArg Prod.snd (hrefused 1 false rfl)
  revert hresult
  decide

end AmxModC.Fakemeta.Tables
