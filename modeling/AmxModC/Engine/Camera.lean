import AmxModC.Foundation.Run
import AmxModC.Machine

namespace AmxModC.Engine.Camera

/-! Cameras: the views of `set_view`, and what the handlers of the engine do about them. -/

inductive ViewType where
  | none
  | thirdPerson
  | upLeft
  | topDown
deriving DecidableEq, Repr

/-- The cases of the switch of `set_view`. -/
def viewType? (iCameraType : Cell) : Option ViewType :=
  if iCameraType = 0 then some .none
  else if iCameraType = 1 then some .thirdPerson
  else if iCameraType = 2 then some .upLeft
  else if iCameraType = 3 then some .topDown
  else Option.none

structure Entvars where
  rendermode : Int
  renderamt : BitVec 32
deriving DecidableEq, Repr

/-- What a slot of `plinfo` keeps for its view. -/
structure PlayerInfo where
  pViewEnt : Option Nat
  iViewType : ViewType
  iRenderMode : Int
  fRenderAmt : BitVec 32
deriving DecidableEq, Repr

def PlayerInfo.clear : PlayerInfo := ⟨none, .none, 0, 0⟩

inductive Presence where
  | away
  | connected
  | inGame
deriving DecidableEq, Repr

/-- `before` is history: how the player was rendered when last taken out of the normal view. -/
structure Slot where
  presence : Presence
  info : PlayerInfo
  v : Entvars
  before : Entvars
deriving DecidableEq, Repr

structure VexdCam where
  entity : Nat
  owner : Nat
deriving DecidableEq, Repr

/-- `cameras` is those that exist, `created` the number made so far; the two hooks are
entries of the function tables. -/
structure State where
  slots : List Slot
  cameras : List VexdCam
  created : Nat
  cameraCount : Int
  addToFullPack : Bool
  playerPostThink : Bool
deriving DecidableEq

/-- `kRenderTransTexture` -/
def kRenderTransTexture : Int := 2

/-- `100` as a float -/
def hundred : BitVec 32 := 0x42C80000

inductive Entity where
  | player (index : Nat)
  | other
deriving DecidableEq, Repr

inductive Event where
  | setView (index : Nat) (iCameraType : Cell)
  | addToFullPack (ent host : Entity)
  | playerPostThink (index : Nat)
  | clientDisconnect (index : Nat)
  | clientConnect (index : Nat)
  /-- The player is in the game from here on. -/
  | putInServer (index : Nat)
  /-- Other code renders the player differently. -/
  | render (index : Nat) (v : Entvars)
deriving DecidableEq

namespace State

def put (s : State) (index : Nat) (slot : Slot) : State :=
  { s with slots := s.slots.set index slot }

def removeEntity (s : State) (entity : Nat) : State :=
  { s with cameras := s.cameras.filter fun camera => camera.entity ≠ entity }

def countDown (s : State) : State :=
  let count := if s.cameraCount - 1 < 0 then 0 else s.cameraCount - 1
  { s with
    cameraCount := count
    addToFullPack := if count = 0 then false else s.addToFullPack }

def setViewNone (s : State) (index : Nat) (slot : Slot) : State :=
  let s :=
    match slot.info.pViewEnt with
    | some entity => s.removeEntity entity
    | none => s
  let s := if slot.info.iViewType ≠ .none then s.countDown else s
  s.put index { slot with
    info := .clear
    v := ⟨slot.info.iRenderMode, slot.info.fRenderAmt⟩ }

def setViewCamera (s : State) (index : Nat) (slot : Slot) (view : ViewType) : State :=
  if slot.info.iViewType ≠ .none then
    s.put index { slot with info := { slot.info with iViewType := view } }
  else
    { s with
      cameras := ⟨s.created, index⟩ :: s.cameras
      created := s.created + 1
      cameraCount := s.cameraCount + 1
      addToFullPack := true
      playerPostThink := true
      slots := s.slots.set index { slot with
        info := ⟨some s.created, view, slot.v.rendermode, slot.v.renderamt⟩
        before := slot.v } }

def setView (s : State) (index : Nat) (iCameraType : Cell) : State :=
  match s.slots[index]? with
  | none => s
  | some slot =>
      if slot.presence = .inGame then
        match viewType? iCameraType with
        | some .none => s.setViewNone index slot
        | some view => s.setViewCamera index slot view
        | none => s
      else s

/-- `AddToFullPack`, of which only packets about players matter. -/
def addToFullPackOf (s : State) (ent host : Entity) : State :=
  if s.addToFullPack then
    match ent with
    | .other => s
    | .player index =>
        match s.slots[index]? with
        | none => s
        | some slot =>
            if slot.info.iViewType ≠ .none then
              if ent = host then
                s.put index { slot with v := ⟨kRenderTransTexture, hundred⟩ }
              else s.put index { slot with v := ⟨slot.info.iRenderMode, slot.info.fRenderAmt⟩ }
            else s
  else s

/-- `PlayerPostThink_Post`; a view of a known type leaves all of this as it is. -/
def playerPostThinkPost (s : State) (index : Nat) : State :=
  if s.playerPostThink then
    match s.slots[index]? with
    | none => s
    | some slot =>
        match slot.info.pViewEnt with
        | none => s
        | some entity =>
            match slot.info.iViewType with
            | .thirdPerson | .upLeft | .topDown => s
            | .none =>
                (s.removeEntity entity).put index { slot with
                  info := { slot.info with iViewType := .none, pViewEnt := none } }
  else s

def clientDisconnect (s : State) (index : Nat) (slot : Slot) : State :=
  let s := if slot.info.iViewType ≠ .none then s.countDown else s
  s.put index { slot with
    presence := .away
    info := { slot.info with iViewType := .none, iRenderMode := 0, fRenderAmt := 0 } }

def clientConnect (s : State) (index : Nat) (slot : Slot) : State :=
  s.put index { slot with presence := .connected, info := .clear }

def step (s : State) : Event → Option State
  | .setView index iCameraType => some (s.setView index iCameraType)
  | .addToFullPack ent host => some (s.addToFullPackOf ent host)
  | .playerPostThink index => some (s.playerPostThinkPost index)
  | .clientDisconnect index => do
      let slot ← s.slots[index]?
      if slot.presence = .away then none else return s.clientDisconnect index slot
  | .clientConnect index => do
      let slot ← s.slots[index]?
      if slot.presence = .away then return s.clientConnect index slot else none
  | .putInServer index => do
      let slot ← s.slots[index]?
      if slot.presence = .connected then return s.put index { slot with presence := .inGame }
      else none
  | .render index v => do
      let slot ← s.slots[index]?
      return s.put index { slot with v := v }

structure Initial (s : State) : Prop where
  info : ∀ slot ∈ s.slots, slot.info = .clear
  cameras : s.cameras = []
  cameraCount : s.cameraCount = 0
  addToFullPack : s.addToFullPack = false

end State

/-! What the bookkeeping should come to. -/

def Slot.modified (slot : Slot) : Bool := slot.info.iViewType ≠ .none

namespace State

structure Kept (s : State) : Prop where
  count : s.cameraCount = s.slots.countP Slot.modified
  hook : s.addToFullPack = true ↔ 0 < s.cameraCount
  holds : ∀ slot ∈ s.slots, slot.info.pViewEnt.isSome ↔ slot.info.iViewType ≠ .none
  exists_camera : ∀ index slot entity, s.slots[index]? = some slot →
    slot.info.pViewEnt = some entity → ⟨entity, index⟩ ∈ s.cameras
  removed : ∀ camera ∈ s.cameras, ∃ slot, s.slots[camera.owner]? = some slot ∧
    slot.info.pViewEnt = some camera.entity ∧ slot.info.iViewType ≠ .none ∧
      slot.presence ≠ .away

/-- A player set to the normal view is rendered as before he was taken out of it, or as he is
when he was in it. -/
def Restored (s next : State) : Event → Prop
  | .setView index iCameraType =>
      viewType? iCameraType = some .none →
        ∀ slot, s.slots[index]? = some slot → slot.presence = .inGame →
          next.slots[index]?.map Slot.v =
            some (if slot.info.iViewType ≠ .none then slot.before else slot.v)
  | _ => True

def Right (s : State) (event : Event) : Prop :=
  ∀ next, s.step event = some next → next.Kept ∧ s.Restored next event

/-- Players leave the server in the normal view only, and one in the normal view is set to it
only when his render mode and amount are 0. -/
def Allowed (s : State) : Event → Prop
  | .setView index iCameraType =>
      viewType? iCameraType = some .none →
        ∀ slot, s.slots[index]? = some slot → slot.presence = .inGame →
          slot.info.iViewType = .none → slot.v = ⟨0, 0⟩
  | .clientDisconnect index =>
      ∀ slot, s.slots[index]? = some slot → slot.presence ≠ .away → slot.info.iViewType = .none
  | _ => True

end State

end AmxModC.Engine.Camera
