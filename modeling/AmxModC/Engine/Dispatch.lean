import AmxModC.Engine.Registered

namespace AmxModC.Engine

open Foundation Forward

/-! The dispatchers as chains of handlers, and what stands in the way of a handler. -/

section

variable (execute : Int → Bool × Cell) (params : List Cell)

def runs (forward : Int) : Bool := (execute forward).1

def stops (forward : Int) : Bool := (execute forward).2 &&& handledMain ≠ 0

def counts (forward : Int) : Bool := (execute forward).2 ≠ 0

def calls (forwards : List Int) : List Called := forwards.map fun forward => ⟨forward, params⟩

def answered (forwards : List Int) : List Called := calls params (forwards.filter (runs execute))

variable {execute} {params}

theorem counts_of_stops {forward : Int} (h : stops execute forward = true) :
    counts execute forward = true := by
  simp only [stops, counts, decide_eq_true_eq] at h ⊢
  intro hzero
  simp [hzero] at h

@[simp] theorem answered_nil : answered execute params [] = [] := rfl

theorem answered_append (first second : List Int) :
    answered execute params (first ++ second) =
      answered execute params first ++ answered execute params second := by
  simp [answered, calls]

theorem log_eq (progress : Progress) (forward : Int) :
    progress.log (execute forward).1 ⟨forward, params⟩ =
      ⟨progress.ran ++ answered execute params [forward], progress.res⟩ := by
  cases hran : (execute forward).1 with
  | false => simp [Progress.log, answered, calls, runs, hran]
  | true => simp [Progress.log, answered, calls, runs, hran]

theorem runHandler_eq (forward : Int) (progress : Progress) :
    runHandler execute params forward progress =
      let ran := progress.ran ++ answered execute params [forward]
      if stops execute forward then .error ⟨ran, .supercede⟩
      else .ok ⟨ran, if counts execute forward then .supercede else progress.res⟩ := by
  unfold runHandler
  dsimp only
  rw [log_eq]
  simp only [stops, counts, decide_eq_true_eq, Progress.supercede]
  split
  next hstop => rfl
  next hstop => split <;> rfl

theorem runForward_eq {forward : Int} (hforward : forward ≠ -1) (progress : Progress) :
    runForward execute params forward progress =
      let ran := progress.ran ++ answered execute params [forward]
      if counts execute forward then .error ⟨ran, .supercede⟩ else .ok ⟨ran, progress.res⟩ := by
  unfold runForward
  dsimp only
  rw [if_pos hforward, log_eq]
  simp only [counts, decide_eq_true_eq, Progress.supercede]

theorem foldlM_runHandler (forwards : List Int) (progress : Progress) :
    forwards.foldlM (fun progress forward => runHandler execute params forward progress) progress =
      let ran := progress.ran ++ answered execute params (upTo (stops execute) forwards)
      if forwards.any (stops execute) then .error ⟨ran, .supercede⟩
      else .ok ⟨ran, if forwards.any (counts execute) then .supercede else progress.res⟩ := by
  induction forwards generalizing progress with
  | nil => simp [pure, Except.pure]
  | cons forward rest ih =>
      rw [List.foldlM_cons, runHandler_eq]
      cases hstop : stops execute forward with
      | true => simp [upTo_cons_pos hstop, hstop, bind, Except.bind]
      | false =>
          have hsplit : answered execute params (forward :: upTo (stops execute) rest) =
              answered execute params [forward] ++
                answered execute params (upTo (stops execute) rest) :=
            answered_append [forward] _
          simp only [Bool.false_eq_true, if_false, bind, Except.bind, ih, upTo_cons_neg hstop,
            List.any_cons, hstop, Bool.false_or, hsplit, List.append_assoc]
          congr 3
          by_cases hcount : counts execute forward = true <;> simp [hcount]

theorem foldlM_runForward (forwards : List Int) (hforwards : -1 ∉ forwards) (progress : Progress) :
    forwards.foldlM (fun progress forward => runForward execute params forward progress) progress =
      let ran := progress.ran ++ answered execute params (upTo (counts execute) forwards)
      if forwards.any (counts execute) then .error ⟨ran, .supercede⟩
      else .ok ⟨ran, progress.res⟩ := by
  induction forwards generalizing progress with
  | nil => simp [pure, Except.pure]
  | cons forward rest ih =>
      obtain ⟨hhead, htail⟩ := not_or.mp (mt List.mem_cons.mpr hforwards)
      rw [List.foldlM_cons, runForward_eq (Ne.symm hhead)]
      cases hcount : counts execute forward with
      | true => simp [upTo_cons_pos hcount, hcount, bind, Except.bind]
      | false =>
          have hsplit : answered execute params (forward :: upTo (counts execute) rest) =
              answered execute params [forward] ++
                answered execute params (upTo (counts execute) rest) :=
            answered_append [forward] _
          simp only [Bool.false_eq_true, if_false, bind, Except.bind, ih htail,
            upTo_cons_neg hcount, List.any_cons, hcount, Bool.false_or, hsplit, List.append_assoc]

end

theorem size_eq_zero {name : CString} : name.size = 0 ↔ name = anyClass := by
  refine ⟨fun hsize => ?_, fun hany => hany ▸ rfl⟩
  exact CString.ext (List.eq_nil_of_length_eq_zero hsize)

theorem strcmp_bytes {name name' : CString} : strcmp name.bytes name'.bytes = 0 ↔ name = name' :=
  strcmp_eq_zero.trans CString.ext_iff.symm

theorem touchClass_eq (name : CString) :
    touchClass name = if name = anyClass ∨ name = star then anyClass else name := by
  simp only [touchClass, size_eq_zero, strcmp_bytes]

theorem touchClass_wild {name : CString} :
    touchClass name = anyClass ↔ name = anyClass ∨ name = star := by
  rw [touchClass_eq]
  split
  next hwild => exact iff_of_true rfl hwild
  next hexact => exact iff_of_false (fun h => hexact (.inl h)) hexact

theorem touchClass_exact {name : CString} (h : touchClass name ≠ anyClass) :
    touchClass name = name :=
  (touchClass_eq name).trans (if_neg (mt touchClass_wild.mpr h))

theorem matchesClass_eq (name cls : CString) :
    Event.matchesClass name cls = true ↔ touchClass name = anyClass ∨ touchClass name = cls := by
  simp only [Event.matchesClass, Bool.or_eq_true, decide_eq_true_eq]
  by_cases hwild : touchClass name = anyClass
  · exact iff_of_true (.inl (touchClass_wild.mp hwild)) (.inl hwild)
  · rw [touchClass_exact hwild, ← touchClass_wild, touchClass_exact hwild]

section

variable (execute : Int → Bool × Cell) (params : List Cell)

def runMatching (event : Event) (handlers : List Handler) (progress : Progress) :
    Except Progress Progress :=
  ((handlers.filter fun handler => event.matchesRegistration handler.request.registration).map
    Handler.forward).foldlM (fun progress forward => runHandler execute params forward progress)
      progress

variable {execute params} {event : Event} {handler : Handler} {rest : List Handler}

theorem runMatching_cons (progress : Progress) :
    runMatching execute params event (handler :: rest) progress =
      if event.matchesRegistration handler.request.registration then do
        let progress ← runHandler execute params handler.forward progress
        runMatching execute params event rest progress
      else runMatching execute params event rest progress := by
  simp only [runMatching, List.filter_cons]
  split
  · rw [List.map_cons, List.foldlM_cons]
  · rfl

theorem touchLoop_eq {ptrClass ptdClass : CString} (ptrIndex ptdIndex : Cell)
    (handlers : List Handler) (progress : Progress) :
    touchLoop execute params ptrClass ptdClass (handlers.filterMap Handler.touch?) progress =
      runMatching execute params (.touch ptrClass ptdClass ptrIndex ptdIndex) handlers
        progress := by
  induction handlers generalizing progress with
  | nil => rfl
  | cons handler rest ih =>
      obtain ⟨⟨amx, registration, found⟩, forward⟩ := handler
      rw [runMatching_cons]
      cases registration with
      | registerThink clsname => exact ih progress
      | registerImpulse check => exact ih progress
      | registerTouch toucher touched =>
          simp only [List.filterMap_cons, Handler.touch?, touchLoop, ih, size_eq_zero,
            strcmp_bytes, Event.matchesRegistration, Bool.and_eq_true, matchesClass_eq]
          split_ifs <;> tauto

theorem thinkLoop_eq {cls : CString} (index : Cell) (handlers : List Handler)
    (progress : Progress) :
    thinkLoop execute params cls (handlers.filterMap Handler.think?) progress =
      runMatching execute params (.think cls index) handlers progress := by
  induction handlers generalizing progress with
  | nil => rfl
  | cons handler rest ih =>
      obtain ⟨⟨amx, registration, found⟩, forward⟩ := handler
      rw [runMatching_cons]
      cases registration with
      | registerTouch toucher touched => exact ih progress
      | registerImpulse check => exact ih progress
      | registerThink clsname =>
          simp only [List.filterMap_cons, Handler.think?, thinkLoop, ih, strcmp_bytes,
            Event.matchesRegistration, decide_eq_true_eq]

theorem impulseLoop_eq (index : Cell) {impulse : BitVec 8} (handlers : List Handler)
    (progress : Progress) :
    impulseLoop execute params impulse (handlers.filterMap Handler.impulse?) progress =
      runMatching execute params (.command index impulse) handlers progress := by
  induction handlers generalizing progress with
  | nil => rfl
  | cons handler rest ih =>
      obtain ⟨⟨amx, registration, found⟩, forward⟩ := handler
      rw [runMatching_cons]
      cases registration with
      | registerTouch toucher touched => exact ih progress
      | registerThink clsname => exact ih progress
      | registerImpulse check =>
          simp only [List.filterMap_cons, Handler.impulse?, impulseLoop, ih,
            Event.matchesRegistration, decide_eq_true_eq]

theorem chain_eq (forwards : List Int) {general : List Int} (hgeneral : -1 ∉ general) :
    (do
      let progress ← forwards.foldlM
        (fun progress forward => runHandler execute params forward progress) .start
      general.foldlM (fun progress forward => runForward execute params forward progress)
        progress) =
      let ran := answered execute params (upTo (stops execute) forwards ++
        if forwards.any (stops execute) then [] else upTo (counts execute) general)
      if forwards.any (stops execute) || general.any (counts execute) then
        .error ⟨ran, .supercede⟩
      else .ok ⟨ran, if forwards.any (counts execute) then .supercede else .ignored⟩ := by
  rw [foldlM_runHandler]
  cases hstops : forwards.any (stops execute) with
  | true => simp [bind, Except.bind, Progress.start]
  | false =>
      simp only [Bool.false_eq_true, if_false, bind, Except.bind, foldlM_runForward general hgeneral,
        Bool.false_or, answered_append, Progress.start, List.nil_append]

end

theorem execute_general {host : Forward.State} {plugins : Plugins} {id : Int}
    (heven : id % 2 = 0) (hvalid : host.isIdValid id = true) :
    executeForwards host plugins id = (true, plugins.result id) := by
  rw [executeForwards, if_pos hvalid, if_neg (by omega)]

theorem execute_served {host : Forward.State} {handler : Handler} (hserved : Served host handler)
    (plugins : Plugins) :
    executeForwards host plugins handler.forward =
      if handler.live plugins then (true, plugins.result handler.forward)
      else if handler.request.found.isSome then (false, 0)
      else (false, -1) := by
  cases hserved with
  | missing request hfound =>
      simp [executeForwards, State.isIdValid, Handler.live, hfound]
  | found request hfound slot paramTypes hslot hbusy =>
      rw [executeForwards_setName plugins hslot]
      simp only [Handler.live, hfound, Bool.true_and, if_true]

section

variable {module : Module} {plugins : Plugins} {event : Event}

def Module.chain (module : Module) (plugins : Plugins) (event : Event) :
    Except Progress Progress := do
  let execute := executeForwards module.host plugins
  let progress ← runMatching execute event.params event module.handlers .start
  (module.general event).foldlM
    (fun progress forward => runForward execute event.params forward progress) progress

theorem dispatch_chain (h : module.InOrder) :
    module.dispatch plugins event =
      match module.chain plugins event with
      | .error progress => progress.outcome (event.impulse?.map fun _ => 0)
      | .ok progress => progress.outcome (event.impulse?.map fun impulse =>
          if progress.res = .supercede then 0 else impulse) := by
  cases event with
  | touch ptrClass ptdClass ptrIndex ptdIndex =>
      simp only [Module.dispatch, Module.pfnTouch, h.touches,
        touchLoop_eq ptrIndex ptdIndex, Module.chain, Module.general,
        List.foldlM_cons, List.foldlM_nil, bind_pure]
      rfl
  | think cls index =>
      have hne : module.pfnThinkForward ≠ -1 := fun hmissing => by
        have hgeneral := (h.general (.think cls index) _ (List.mem_singleton_self _)).1
        simp [hmissing] at hgeneral
      simp only [Module.dispatch, Module.think, h.thinks, thinkLoop_eq index,
        Module.chain, Module.general, List.foldlM_cons, List.foldlM_nil, bind_pure, Event.params]
      cases runMatching (executeForwards module.host plugins) [index] (.think cls index)
          module.handlers .start with
      | error progress => rfl
      | ok progress =>
          simp only [bind, Except.bind, runForward, if_pos hne]
          split <;> rfl
  | command index impulse =>
      simp only [Module.dispatch, Module.cmdStart, h.impulses, impulseLoop_eq index,
        Module.chain, Module.general, List.foldlM_cons, List.foldlM_nil, bind_pure]
      rfl

theorem dispatch_eq (h : module.InOrder) :
    module.dispatch plugins event =
      let execute := executeForwards module.host plugins
      let matching := (module.matching event).map Handler.forward
      let general := module.general event
      let superceded := matching.any (counts execute) || general.any (counts execute)
      ⟨answered execute event.params (upTo (stops execute) matching ++
          if matching.any (stops execute) then [] else upTo (counts execute) general),
        if superceded then .supercede else .ignored,
        event.impulse?.map fun impulse => if superceded then 0 else impulse⟩ := by
  have hgeneral : -1 ∉ module.general event := fun hmem => by
    simpa using (h.general event (-1) hmem).1
  rw [dispatch_chain h, Module.chain]
  simp only [runMatching]
  rw [← Module.matching, chain_eq _ hgeneral]
  generalize (module.matching event).map Handler.forward = matching
  dsimp only
  cases hstops : matching.any (stops (executeForwards module.host plugins)) with
  | true =>
      have hcounts : matching.any (counts (executeForwards module.host plugins)) = true := by
        obtain ⟨forward, hmem, hstop⟩ := List.any_eq_true.mp hstops
        exact List.any_eq_true.mpr ⟨forward, hmem, counts_of_stops hstop⟩
      simp [hcounts, Progress.outcome]
  | false =>
      cases hgen : (module.general event).any (counts (executeForwards module.host plugins)) with
      | true => simp [Progress.outcome]
      | false =>
          cases hcounts : matching.any (counts (executeForwards module.host plugins)) with
          | true => simp [Progress.outcome]
          | false => simp [Progress.outcome]

/-! What the forward of a handler does in its chain, by the handler. -/

section

variable {handler : Handler}

theorem runs_served (hserved : Served module.host handler) :
    runs (executeForwards module.host plugins) handler.forward = handler.live plugins := by
  rw [runs, execute_served hserved]
  cases handler.live plugins with
  | true => rfl
  | false => cases handler.request.found.isSome <;> rfl

theorem found_of_live (hlive : handler.live plugins = true) :
    handler.request.found.isSome = true :=
  (Bool.and_eq_true_iff.mp hlive).1

theorem stops_served (hserved : Served module.host handler) :
    stops (executeForwards module.host plugins) handler.forward =
      if handler.live plugins then plugins.handled handler.forward
      else !handler.request.found.isSome := by
  have hfailed : (-1 : Cell) &&& handledMain ≠ 0 := by decide
  rw [stops, execute_served hserved]
  cases handler.live plugins with
  | true => rfl
  | false =>
      cases handler.request.found.isSome with
      | true => simp
      | false => exact decide_eq_true hfailed

theorem counts_served (hserved : Served module.host handler) :
    counts (executeForwards module.host plugins) handler.forward =
      if handler.live plugins then plugins.nonzero handler.forward
      else !handler.request.found.isSome := by
  rw [counts, execute_served hserved]
  cases handler.live plugins with
  | true => rfl
  | false => cases handler.request.found.isSome <;> rfl

end

theorem nonzero_of_handled {forward : Int} (h : plugins.handled forward = true) :
    plugins.nonzero forward = true := by
  simp only [Plugins.handled, Plugins.nonzero, decide_eq_true_eq] at h ⊢
  intro hzero
  simp [hzero] at h

def Module.live (module : Module) (plugins : Plugins) (event : Event) : List Handler :=
  (module.matching event).filter fun handler => handler.live plugins

theorem counts_general (h : module.InOrder) {id : Int} (hid : id ∈ module.general event) :
    counts (executeForwards module.host plugins) id = plugins.nonzero id := by
  obtain ⟨heven, hvalid⟩ := h.general event id hid
  rw [counts, execute_general heven hvalid]
  rfl

theorem served_matching (h : module.InOrder) {handler : Handler}
    (hmem : handler ∈ module.matching event) : Served module.host handler :=
  h.served handler (List.mem_filter.mp hmem).1

theorem runs_general (h : module.InOrder) {id : Int} (hid : id ∈ module.general event) :
    runs (executeForwards module.host plugins) id = true := by
  obtain ⟨heven, hvalid⟩ := h.general event id hid
  rw [runs, execute_general heven hvalid]

theorem upTo_general_ne_nil (module : Module) (event : Event) (p : Int → Bool) :
    upTo p (module.general event) ≠ [] := by
  cases event with
  | touch ptrClass ptdClass ptrIndex ptdIndex => exact upTo_cons_ne_nil
  | think cls index => exact upTo_cons_ne_nil
  | command index impulse => exact upTo_cons_ne_nil

def Module.stopsAt (module : Module) (plugins : Plugins) (handler : Handler) : Bool :=
  stops (executeForwards module.host plugins) handler.forward

theorem stopsAt_live (h : module.InOrder) {handler : Handler}
    (hmem : handler ∈ module.matching event) (hlive : handler.live plugins = true) :
    module.stopsAt plugins handler = plugins.handled handler.forward := by
  rw [Module.stopsAt, stops_served (served_matching h hmem), if_pos hlive]

theorem ran_eq (h : module.InOrder) :
    (module.dispatch plugins event).ran = calls event.params
      (((upTo (module.stopsAt plugins) (module.matching event)).filter
          fun handler => handler.live plugins).map Handler.forward ++
        if (module.matching event).any (module.stopsAt plugins) then []
        else upTo plugins.nonzero (module.general event)) := by
  have hmatching : (upTo (stops (executeForwards module.host plugins))
        ((module.matching event).map Handler.forward)).filter
          (runs (executeForwards module.host plugins)) =
      ((upTo (module.stopsAt plugins) (module.matching event)).filter
        fun handler => handler.live plugins).map Handler.forward := by
    rw [upTo_map, List.filter_map]
    refine congrArg (List.map Handler.forward) (List.filter_congr fun handler hmem => ?_)
    exact runs_served (served_matching h (mem_of_mem_upTo hmem))
  have hgeneral : (upTo (counts (executeForwards module.host plugins))
        (module.general event)).filter (runs (executeForwards module.host plugins)) =
      upTo plugins.nonzero (module.general event) := by
    rw [upTo_congr fun id hid => counts_general h hid]
    exact List.filter_eq_self.mpr fun id hid => runs_general h (mem_of_mem_upTo hid)
  rw [dispatch_eq h]
  dsimp only
  rw [answered, List.filter_append, hmatching]
  refine congrArg (fun rest => calls event.params (_ ++ rest)) ?_
  have hany : ((module.matching event).map Handler.forward).any
      (stops (executeForwards module.host plugins)) =
        (module.matching event).any (module.stopsAt plugins) := List.any_map
  simp only [hany]
  split
  · rfl
  · exact hgeneral

theorem expected_eq (h : module.InOrder) :
    module.expected plugins event =
      (upTo (module.stopsAt plugins) (module.live plugins event)).map Handler.forward ++
        if (module.live plugins event).any (module.stopsAt plugins) then []
        else upTo plugins.nonzero (module.general event) := by
  have hstops : ∀ handler ∈ module.live plugins event,
      (plugins.handled ∘ Handler.forward) handler = module.stopsAt plugins handler := by
    intro handler hmem
    obtain ⟨hmatching, hlive⟩ := List.mem_filter.mp hmem
    exact (stopsAt_live h hmatching hlive).symm
  have hany : ((module.live plugins event).map Handler.forward).any plugins.handled =
      (module.live plugins event).any (module.stopsAt plugins) := by
    rw [List.any_map]
    exact any_congr_of_mem hstops
  rw [Module.expected, ← Module.live]
  simp only [upTo_map, upTo_congr hstops, hany]

theorem calls_injective (params : List Cell) : Function.Injective (calls params) :=
  List.map_injective_iff.mpr fun _ _ h => congrArg Called.forward h

theorem unobstructed_iff (h : module.InOrder) :
    module.Unobstructed plugins event ↔
      ∀ handler ∈ (module.matching event).takeWhile fun handler =>
          !(handler.live plugins && module.stopsAt plugins handler),
        module.stopsAt plugins handler = true → handler.live plugins = true := by
  have htakes : (module.matching event).takeWhile (fun handler =>
        !(handler.live plugins && plugins.handled handler.forward)) =
      (module.matching event).takeWhile fun handler =>
        !(handler.live plugins && module.stopsAt plugins handler) := by
    refine takeWhile_congr fun handler hmem => ?_
    cases hlive : handler.live plugins with
    | true => rw [stopsAt_live h hmem hlive]
    | false => rfl
  rw [Module.Unobstructed, htakes]
  refine forall₂_congr fun handler hmem => ?_
  have hserved := served_matching h ((List.takeWhile_sublist _).subset hmem)
  rw [Module.stopsAt, stops_served hserved]
  cases hlive : handler.live plugins with
  | true => simp [found_of_live hlive]
  | false => simp [Option.isSome_iff_ne_none]

theorem ran_iff (h : module.InOrder) :
    (module.dispatch plugins event).ran =
        (module.expected plugins event).map (fun forward => ⟨forward, event.params⟩) ↔
      module.Unobstructed plugins event := by
  have hgeneral := upTo_general_ne_nil module event plugins.nonzero
  rw [ran_eq h, expected_eq h, unobstructed_iff h, ← upTo_filter_iff Handler.forward hgeneral]
  exact (calls_injective event.params).eq_iff

theorem any_counts_iff (h : module.InOrder) (hclear : module.Unobstructed plugins event) :
    ((module.matching event).map Handler.forward).any
        (counts (executeForwards module.host plugins)) =
      ((module.live plugins event).map Handler.forward).any plugins.nonzero := by
  rw [Bool.eq_iff_iff, List.any_map, List.any_map, List.any_eq_true, List.any_eq_true]
  constructor
  · rintro ⟨handler, hmem, hcounts⟩
    have hcounts' := (counts_served (served_matching h hmem)).symm.trans hcounts
    cases hlive : handler.live plugins with
    | true =>
        rw [hlive, if_pos rfl] at hcounts'
        exact ⟨handler, List.mem_filter.mpr ⟨hmem, hlive⟩, hcounts'⟩
    | false =>
        by_contra hnone
        have hall : (module.matching event).takeWhile (fun handler =>
            !(handler.live plugins && plugins.handled handler.forward)) =
              module.matching event := by
          refine List.takeWhile_eq_self_iff.mpr fun other hother => ?_
          rw [Bool.not_eq_true', Bool.and_eq_false_iff]
          by_contra hboth
          rw [not_or, Bool.not_eq_false, Bool.not_eq_false] at hboth
          exact hnone ⟨other, List.mem_filter.mpr ⟨hother, hboth.1⟩, nonzero_of_handled hboth.2⟩
        have hfound := hclear handler (hall.symm ▸ hmem)
        simp [hlive, hfound] at hcounts'
  · rintro ⟨handler, hmem, hnonzero⟩
    obtain ⟨hmatching, hlive⟩ := List.mem_filter.mp hmem
    refine ⟨handler, hmatching, ?_⟩
    rw [Function.comp_apply, counts_served (served_matching h hmatching), if_pos hlive]
    exact hnonzero

theorem any_expected (module : Module) (plugins : Plugins) (event : Event) :
    (module.expected plugins event).any plugins.nonzero =
      (((module.live plugins event).map Handler.forward).any plugins.nonzero ||
        (module.general event).any plugins.nonzero) := by
  rw [Module.expected, ← Module.live]
  generalize (module.live plugins event).map Handler.forward = live
  rw [List.any_append, any_upTo fun _ _ => nonzero_of_handled]
  cases hhandled : live.any plugins.handled with
  | false => simp only [Bool.false_eq_true, if_false, any_upTo fun _ _ h => h]
  | true =>
      obtain ⟨forward, hmem, hforward⟩ := List.any_eq_true.mp hhandled
      have hlive : live.any plugins.nonzero = true :=
        List.any_eq_true.mpr ⟨forward, hmem, nonzero_of_handled hforward⟩
      simp [hlive]

theorem superceded_iff (h : module.InOrder) (hclear : module.Unobstructed plugins event) :
    (module.dispatch plugins event).res = .supercede ↔
      ∃ called ∈ (module.dispatch plugins event).ran, plugins.result called.forward ≠ 0 := by
  have hran : (∃ called ∈ (module.dispatch plugins event).ran,
      plugins.result called.forward ≠ 0) ↔
        (module.expected plugins event).any plugins.nonzero = true := by
    rw [(ran_iff h).mpr hclear, List.any_eq_true]
    simp [Plugins.nonzero]
  have hgeneral : (module.general event).any (counts (executeForwards module.host plugins)) =
      (module.general event).any plugins.nonzero :=
    any_congr_of_mem fun id hid => counts_general h hid
  rw [hran, any_expected, ← any_counts_iff h hclear, ← hgeneral, dispatch_eq h]
  dsimp only
  split
  next hsuperceded => exact iff_of_true rfl hsuperceded
  next hignored => exact iff_of_false (by decide) hignored

theorem Module.InOrder.right_iff (h : module.InOrder) :
    (module.dispatch plugins event).Right module plugins event ↔
      module.Unobstructed plugins event := by
  constructor
  · intro hright
    exact (ran_iff h).mp hright.ran
  · intro hclear
    refine ⟨(ran_iff h).mpr hclear, superceded_iff h hclear, ?_⟩
    rw [dispatch_eq h]
    dsimp only
    split <;> rfl

end

def grenades : List Request :=
  let grenade := CString.ofMemory [103]
  [⟨0, .registerTouch grenade star, none⟩, ⟨1, .registerTouch grenade star, some 0⟩]

def allRunning (result : Cell) : Plugins := ⟨fun _ => .running, fun _ => result⟩

theorem freeInOrder_empty : FreeInOrder {} := ⟨List.nodup_nil, by simp⟩

end AmxModC.Engine
