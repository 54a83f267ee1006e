import Mathlib.Data.List.Nodup
import AmxModC.Engine.Hooks
import AmxModC.Forward.Nesting

namespace AmxModC.Engine

open Foundation Forward

/-! What the registrations leave in the table of forwards: an id of its own for each handler
that exists, `-1` for the others; and what a call of such an id does there. -/

/-- The ids that `registerSPForward` gives out next. -/
structure FreeInOrder (host : Forward.State) : Prop where
  nodup : host.freeSPForwards.Nodup
  slots : ∀ id ∈ host.freeSPForwards, ∃ slot < host.spForwards.length, id = spId slot

inductive Served (host : Forward.State) : Handler → Prop where
  | missing (request : Request) (hfound : request.found = none) : Served host ⟨request, -1⟩
  | found (request : Request) (hfound : request.found.isSome) (slot : Nat)
      (paramTypes : List ForwardParam)
      (hslot : host.spForwards[slot]? = some (.setName request.found request.amx paramTypes))
      (hbusy : spId slot ∉ host.freeSPForwards) : Served host ⟨request, spId slot⟩

section

variable (lookup : Lookup) (memory : Forward.Memory)

variable {lookup memory}

end

def steps (host : Forward.State) (plugins : Plugins) (handler : Handler) (params : List Cell) :
    List Forward.Event :=
  let call := .executeForwards handler.forward (params.map Given.value)
    (plugins.status handler.request.amx).isExecutable
  if (executeForwards host plugins handler.forward).1 then
    [call, .callbackReturn [] (plugins.result handler.forward)]
  else [call]

theorem executeForwards_setName {host : Forward.State} (plugins : Plugins) {request : Request}
    {slot : Nat} {paramTypes : List ForwardParam}
    (hslot : host.spForwards[slot]? = some (.setName request.found request.amx paramTypes)) :
    executeForwards host plugins (spId slot) =
      if request.found.isSome && (plugins.status request.amx).isExecutable then
        (true, plugins.result (spId slot))
      else (false, 0) := by
  have hvalid : host.isIdValid (spId slot) = true :=
    State.isIdValid_spId.mpr (List.getElem?_eq_some_iff.mp hslot).1
  simp only [executeForwards, hvalid, if_true, spId_odd, slotOf_spId, hslot, CSPForward.setName]
  cases request.found.isSome with
  | false => rfl
  | true => cases (plugins.status request.amx).isExecutable <;> rfl

structure Recorded (host host' : Forward.State) (request : Request)
    (paramTypes : List ForwardParam) : Prop where
  free : host'.freeSPForwards.Sublist host.freeSPForwards
  length : host.spForwards.length ≤ host'.spForwards.length
  others : ∀ {slot forward}, host.spForwards[slot]? = some forward →
    spId slot ∉ host.freeSPForwards → host'.spForwards[slot]? = some forward
  forwards : host'.forwards = host.forwards
  missing : request.found = none → host'.returned = -1
  found : request.found.isSome → ∃ slot, host'.returned = spId slot ∧
    host'.spForwards[slot]? = some (.setName request.found request.amx paramTypes) ∧
      spId slot ∉ host'.freeSPForwards ∧
        (host.spForwards.length ≤ slot ∨ spId slot ∈ host.freeSPForwards)

section

variable {host : Forward.State} {request : Request} {paramTypes : List ForwardParam}

theorem recorded (h : FreeInOrder host) :
    Recorded host (registerSPForwardByName host request paramTypes) request paramTypes := by
  have hfunc : (CSPForward.setName request.found request.amx paramTypes).hasFunc =
      request.found.isSome := rfl
  unfold registerSPForwardByName State.registerSPForward
  cases hfree : host.freeSPForwards with
  | nil =>
      cases hfound : request.found.isSome with
      | false =>
          simp only [hfunc, hfound, Bool.false_eq_true, if_false]
          exact ⟨by simp [hfree], le_rfl, fun hslot _ => hslot, rfl, fun _ => rfl, by simp [hfound]⟩
      | true =>
          simp only [hfunc, hfound, if_true]
          constructor
          case free => simp [hfree]
          case length => simp
          case others =>
            intro slot forward hslot _
            exact (List.getElem?_append_left (List.getElem?_eq_some_iff.mp hslot).1).trans hslot
          case forwards => rfl
          case missing => simp [Option.isSome_iff_ne_none.mp hfound]
          case found => exact fun _ => ⟨host.spForwards.length, rfl, by simp, by simp, by simp⟩
  | cons id rest =>
      obtain ⟨slot, hslot, rfl⟩ := h.slots id (by simp [hfree])
      have hothers : ∀ {other forward}, host.spForwards[other]? = some forward →
          spId other ∉ host.freeSPForwards →
          (host.spForwards.set slot (.setName request.found request.amx paramTypes))[other]? =
            some forward := by
        intro other forward hother hbusy
        have hne : slot ≠ other := by
          rintro rfl
          exact hbusy (by simp [hfree])
        rw [List.getElem?_set_ne hne]
        exact hother
      have hnodup := h.nodup
      rw [hfree, List.nodup_cons] at hnodup
      cases hfound : request.found.isSome with
      | false =>
          simp only [hfunc, hfound, Bool.false_eq_true, if_false, slotOf_spId]
          exact ⟨by simp [hfree], by simp, hothers, rfl, fun _ => rfl, by simp [hfound]⟩
      | true =>
          simp only [hfunc, hfound, if_true, slotOf_spId]
          constructor
          case free => simp [hfree]
          case length => simp
          case others => exact hothers
          case forwards => rfl
          case missing => simp [Option.isSome_iff_ne_none.mp hfound]
          case found =>
            exact fun _ => ⟨slot, rfl, by simp [hslot], hnodup.1, .inr (by simp [hfree])⟩

variable {host' : Forward.State} {handler : Handler}

theorem FreeInOrder.of_recorded (h : FreeInOrder host)
    (hrecorded : Recorded host host' request paramTypes) : FreeInOrder host' where
  nodup := hrecorded.free.nodup h.nodup
  slots id hid := by
    obtain ⟨slot, hslot, rfl⟩ := h.slots id (hrecorded.free.subset hid)
    exact ⟨slot, hslot.trans_le hrecorded.length, rfl⟩

theorem Recorded.served (hrecorded : Recorded host host' request paramTypes) :
    Served host' ⟨request, host'.returned⟩ := by
  cases hfound : request.found with
  | none =>
      rw [hrecorded.missing hfound]
      exact .missing request hfound
  | some func =>
      have hsome : request.found.isSome := by simp [hfound]
      obtain ⟨slot, hreturned, hslot, hbusy, -⟩ := hrecorded.found hsome
      rw [hreturned]
      exact .found request hsome slot paramTypes hslot hbusy

theorem Served.keep (hserved : Served host handler)
    (hrecorded : Recorded host host' request paramTypes) : Served host' handler := by
  cases hserved with
  | missing old hfound => exact .missing old hfound
  | found old hfound slot types hslot hbusy =>
      exact .found old hfound slot types (hrecorded.others hslot hbusy)
        (mt (fun hmem => hrecorded.free.subset hmem) hbusy)

theorem Served.forward_ne (hserved : Served host handler)
    (hrecorded : Recorded host host' request paramTypes)
    (hexists : handler.request.found.isSome) (hfound : request.found.isSome) :
    handler.forward ≠ host'.returned := by
  obtain ⟨new, hreturned, -, -, hnew⟩ := hrecorded.found hfound
  cases hserved with
  | missing old hold => simp [hold] at hexists
  | found old hold slot types hslot hbusy =>
      rw [hreturned]
      intro hid
      obtain rfl := spId_inj hid
      rcases hnew with hlength | hfree
      · exact absurd (List.getElem?_eq_some_iff.mp hslot).1 (not_lt.mpr hlength)
      · exact hbusy hfree

end

namespace Handler

def touch? (handler : Handler) : Option Touch :=
  match handler.request.registration with
  | .registerTouch toucher touched =>
      some ⟨touchClass toucher, touchClass touched, handler.forward⟩
  | _ => none

def think? (handler : Handler) : Option EntClass :=
  match handler.request.registration with
  | .registerThink clsname => some ⟨clsname, handler.forward⟩
  | _ => none

def impulse? (handler : Handler) : Option Impulse :=
  match handler.request.registration with
  | .registerImpulse check => some ⟨check, handler.forward⟩
  | _ => none

end Handler

structure Module.InOrder (module : Module) : Prop where
  touches : module.touches = module.handlers.filterMap Handler.touch?
  thinks : module.thinks = module.handlers.filterMap Handler.think?
  impulses : module.impulses = module.handlers.filterMap Handler.impulse?
  free : FreeInOrder module.host
  served : ∀ handler ∈ module.handlers, Served module.host handler
  once : ((module.handlers.filter fun handler => handler.request.found.isSome).map
    Handler.forward).Nodup
  general : ∀ event, ∀ id ∈ module.general event, id % 2 = 0 ∧ module.host.isIdValid id = true

theorem registerForward_valid {host : Forward.State} {execType : ForwardExecType}
    {paramTypes : List ForwardParam} {funcs : List AMXForward} {id : Int}
    (h : host.isIdValid id = true) (heven : id % 2 = 0) :
    (registerForward host execType paramTypes funcs).isIdValid id = true := by
  simp only [State.isIdValid, heven, zero_ne_one, if_false, Bool.and_eq_true,
    decide_eq_true_eq, registerForward, List.length_append] at h ⊢
  exact ⟨h.1, Nat.lt_add_right _ h.2⟩

theorem registerForward_returned (host : Forward.State) (execType : ForwardExecType)
    (paramTypes : List ForwardParam) (funcs : List AMXForward) :
    (registerForward host execType paramTypes funcs).returned % 2 = 0 ∧
      (registerForward host execType paramTypes funcs).isIdValid
        (registerForward host execType paramTypes funcs).returned = true := by
  have heven : (2 * (host.forwards.length : Int)) % 2 = 0 := by omega
  have hslot : (2 * (host.forwards.length : Int)).toNat / 2 < host.forwards.length + 1 := by omega
  exact ⟨heven, by simpa [State.isIdValid, registerForward, slotOf] using hslot⟩

namespace Module

theorem onPluginsLoaded_inOrder {host : Forward.State} (h : FreeInOrder host)
    (funcs : String → List AMXForward) : (onPluginsLoaded host funcs).InOrder where
  touches := rfl
  thinks := rfl
  impulses := rfl
  free := ⟨h.nodup, h.slots⟩
  served := by simp [onPluginsLoaded]
  once := by simp [onPluginsLoaded]
  general event id hid := by
    have hlater : ∀ {host : Forward.State} (execType : ForwardExecType)
        (paramTypes : List ForwardParam) (funcs : List AMXForward) {id : Int},
        (id % 2 = 0 ∧ host.isIdValid id = true) →
        id % 2 = 0 ∧ (registerForward host execType paramTypes funcs).isIdValid id = true :=
      fun _ _ _ _ h => ⟨h.1, registerForward_valid h.2 h.1⟩
    cases event with
    | touch ptrClass ptdClass ptrIndex ptdIndex =>
        rcases List.mem_pair.mp hid with rfl | rfl
        · exact hlater _ _ _ (registerForward_returned _ _ _ _)
        · exact registerForward_returned _ _ _ _
    | think cls index =>
        obtain rfl := List.mem_singleton.mp hid
        exact hlater _ _ _ (hlater _ _ _ (hlater _ _ _ (registerForward_returned _ _ _ _)))
    | command index impulse =>
        obtain rfl := List.mem_singleton.mp hid
        exact hlater _ _ _ (hlater _ _ _ (registerForward_returned _ _ _ _))

variable {module : Module} {request : Request}

theorem register_eq (module : Module) (request : Request) :
    ∃ paramTypes, module.register request =
      let host := registerSPForwardByName module.host request paramTypes
      let handler : Handler := ⟨request, host.returned⟩
      { module with
        host := host
        touches := module.touches ++ handler.touch?.toList
        thinks := module.thinks ++ handler.think?.toList
        impulses := module.impulses ++ handler.impulse?.toList
        handlers := module.handlers ++ [handler] } := by
  cases hregistration : request.registration with
  | registerThink clsname =>
      exact ⟨[.cell], by simp [register, hregistration, Handler.touch?, Handler.think?,
        Handler.impulse?]⟩
  | registerImpulse check =>
      exact ⟨[.cell, .cell], by simp [register, hregistration, Handler.touch?, Handler.think?,
        Handler.impulse?]⟩
  | registerTouch toucher touched =>
      exact ⟨[.cell, .cell], by simp [register, hregistration, Handler.touch?, Handler.think?,
        Handler.impulse?]⟩

theorem InOrder.register (h : module.InOrder) (request : Request) :
    (module.register request).InOrder := by
  obtain ⟨paramTypes, heq⟩ := register_eq module request
  rw [heq]
  have hrecorded : Recorded module.host (registerSPForwardByName module.host request paramTypes)
      request paramTypes := recorded h.free
  generalize registerSPForwardByName module.host request paramTypes = host at hrecorded
  dsimp only
  have hfilterMap : ∀ {β : Type} (f : Handler → Option β) (handler : Handler),
      (module.handlers ++ [handler]).filterMap f =
        module.handlers.filterMap f ++ (f handler).toList := by
    intro β f handler
    rw [List.filterMap_append]
    cases hf : f handler <;> simp [hf]
  constructor
  case touches => exact (congrArg (· ++ _) h.touches).trans (hfilterMap _ _).symm
  case thinks => exact (congrArg (· ++ _) h.thinks).trans (hfilterMap _ _).symm
  case impulses => exact (congrArg (· ++ _) h.impulses).trans (hfilterMap _ _).symm
  case free => exact h.free.of_recorded hrecorded
  case served =>
    intro handler hmem
    rcases List.mem_append.mp hmem with hold | hnew
    · exact (h.served handler hold).keep hrecorded
    · obtain rfl := List.mem_singleton.mp hnew
      exact hrecorded.served
  case once =>
    rw [List.filter_append, List.map_append]
    cases hfound : request.found.isSome with
    | false => simpa [hfound] using h.once
    | true =>
        refine List.nodup_append.mpr ⟨h.once, by simp [hfound], ?_⟩
        intro id hid other hother
        obtain ⟨handler, hmem, rfl⟩ := List.mem_map.mp hid
        obtain ⟨hmem, hexists⟩ := List.mem_filter.mp hmem
        obtain rfl : other = host.returned := by simpa [hfound] using hother
        exact (h.served handler hmem).forward_ne hrecorded hexists hfound
  case general =>
    intro event id hid
    have hold := h.general event id (by cases event <;> exact hid)
    refine ⟨hold.1, ?_⟩
    simpa [State.isIdValid, hold.1, hrecorded.forwards] using hold.2

end Module

theorem registrations_inOrder {host : Forward.State} (h : FreeInOrder host)
    (funcs : String → List AMXForward) (requests : List Request) :
    (requests.foldl Module.register (onPluginsLoaded host funcs)).InOrder := by
  induction requests using List.reverseRecOn with
  | nil => exact Module.onPluginsLoaded_inOrder h funcs
  | append_singleton requests request ih =>
      rw [List.foldl_append]
      exact ih.register request

end AmxModC.Engine
