import Geofence.Worker.DeploymentRuns
/-!
# What exclusive ownership is for

A partition that two workers consume brings a user's events to both. Each has its own chains and
its own presence memory, and one of them misses what the other wrote.
-/

namespace Geofence

open Framework

private theorem differs_nil_left {previous : List AreaId} (h : previous ≠ []) :
    differs [] previous = true := by
  unfold differs
  rw [if_pos]
  exact fun hlength => h (List.length_eq_zero_iff.mp hlength.symm)

private theorem differs_nil_right {current : List AreaId} (h : current ≠ []) :
    differs current [] = true := by
  unfold differs
  rw [if_pos]
  exact fun hlength => h (List.length_eq_zero_iff.mp hlength)

private theorem enterAreas_of_hasArea {pg : Postgres} {call : ReportCall} {db : Database}
    {areaIds : List AreaId} (hcast : castable pg call.capturedAt = true)
    (hlive : ∀ a ∈ areaIds, db.hasArea a = true) : ∃ r, enterAreas pg call db areaIds = .ok r := by
  induction areaIds generalizing db with
  | nil => exact ⟨_, rfl⟩
  | cons areaId rest ih =>
    have hrest : ∀ a ∈ rest, db.hasArea a = true := fun a ha => hlive a (List.mem_cons_of_mem _ ha)
    by_cases hmem : areaId ∈ db.presence.areaIds call.dto.userId
    · rw [enterAreas_conflict rest hmem]
      exact ih hrest
    · rw [enterAreas_enter rest hmem (hlive areaId (by simp)) hcast]
      have hentered : ∀ a ∈ rest, (db.enter call areaId).hasArea a = true := hrest
      obtain ⟨r, hr⟩ := ih hentered
      rw [hr]
      exact ⟨_, rfl⟩

private theorem transaction_of_hasArea {pg : Postgres} {call : ReportCall} {db : Database}
    (hdevice : call.dto.deviceId = none) (hcast : castable pg call.capturedAt = true)
    (hlive : ∀ a ∈ call.currentAreaIds, db.hasArea a = true) :
    ∃ db' result, transaction pg call db = .ok (db', result) := by
  have hentered : ∀ a ∈ call.entered (db.presence.areaIds call.dto.userId),
      db.hasArea a = true := fun a ha => hlive a (ReportCall.mem_entered.mp ha).1
  obtain ⟨r, hr⟩ := enterAreas_of_hasArea hcast hentered
  have hgate : dedupGate call db = some db := by simp [dedupGate, hdevice]
  simp only [transaction, hgate, hr, bind, Except.bind, pure, Except.pure]
  exact ⟨_, _, rfl⟩

namespace PhasedWorker

/-- The awaits of a cold user's event that changes the presence, each of them answered. -/
def changeAnswers (userId : UserId) : List PhaseAction :=
  [.lookUp userId, .seed userId none, .commit userId, .answer userId none, .invalidated userId]

def changeRun (event : LocationEventV1) : List PhaseAction :=
  .call event :: changeAnswers event.userId

variable {ext : Externals} {st : PhasedWorker} {event : LocationEventV1} {call : ReportCall}

private theorem isAnswer_of_mem {userId : UserId} {action : PhaseAction}
    (h : action ∈ changeAnswers userId) : action.isAnswer userId = true := by
  simp only [changeAnswers, List.mem_cons, List.not_mem_nil, or_false] at h
  rcases h with rfl | rfl | rfl | rfl | rfl <;> exact decide_eq_true rfl

private theorem losesCommit_of_mem {userId : UserId} {action : PhaseAction}
    (h : action ∈ changeAnswers userId) (user : UserId) : action.losesCommit user = false := by
  simp only [changeAnswers, List.mem_cons, List.not_mem_nil, or_false] at h
  rcases h with rfl | rfl | rfl | rfl | rfl <;> rfl

private theorem step_answer_of_idle {userId : UserId} {action : PhaseAction}
    (hanswer : action.isAnswer userId = true) (hidle : st.inFlight userId = none) :
    step ext st action = none := by
  cases action with
  | restart => simp [PhaseAction.isAnswer, PhaseAction.user?] at hanswer
  | swapSnapshot snapshot => simp [PhaseAction.isAnswer, PhaseAction.user?] at hanswer
  | createArea row => simp [PhaseAction.isAnswer, PhaseAction.user?] at hanswer
  | call event => cases hanswer
  | _ =>
    cases of_decide_eq_true hanswer
    simp only [step, hidle]

private theorem run_changeRun (hidle : st.inFlight event.userId = none)
    (hcold : st.memory event.userId = none) (hcall : callOf ext st.snapshot event = .ok call)
    (hcast : castable ext.pg call.capturedAt = true)
    (hlive : ∀ a ∈ call.currentAreaIds, st.db.hasArea a = true)
    (hdiff : differs call.currentAreaIds (st.db.presence.areaIds event.userId) = true) :
    ∃ next, (machine ext).run st (changeRun event) = some next ∧
      next.inFlight = st.inFlight ∧ next.memory event.userId = some call.currentAreaIds ∧
      next.db.areas = st.db.areas ∧
      ∀ a, a ∈ next.db.presence.areaIds event.userId ↔ a ∈ call.currentAreaIds := by
  have huser : call.dto.userId = event.userId := (isWorkerCall_of_callOf hcall).userId
  have hdevice := (isWorkerCall_of_callOf hcall).deviceId
  obtain ⟨db, result, htx⟩ := transaction_of_hasArea hdevice hcast hlive
  have happ := transaction_applied hdevice htx
  have hphase : ∀ (s : PhasedWorker) phase,
      (s.setPhase event.userId phase).inFlight event.userId = phase :=
    fun s phase => s.setPhase_inFlight_self event.userId phase
  let seeded : PhasedWorker :=
    { st with memory := st.memory.set event.userId (st.db.presence.areaIds event.userId) }
  have hfork : (machine ext).run st
      [.call event, .lookUp event.userId, .seed event.userId none] = some (seeded.fork call
        (st.db.presence.areaIds event.userId)) := by
    have hmemory : (st.setPhase event.userId (some (.lookingUp call))).memory event.userId =
        none := hcold
    have hcalled : step ext st (.call event) =
        some (st.setPhase event.userId (some (.lookingUp call))) := by
      simp only [step, hidle, hcall]
    rw [Machine.run_cons_eq_some]
    refine ⟨_, hcalled, ?_⟩
    simp only [Machine.run_cons, machine, step, hphase, hmemory, Option.bind_some, Machine.run_nil]
    simp only [seeded, fork, setPhase, huser, Function.update_idem]
  have hseeded : seeded.inFlight event.userId = none := hidle
  have hrest := ((run_of_changing ext hseeded huser hdiff).2 db result htx).2
  refine ⟨_, (machine ext).run_append_eq_some.mpr ⟨_, hfork, hrest⟩, rfl, ?_, happ.areas, ?_⟩
  · simp only [happ.notDuplicate, Bool.false_eq_true, if_false, PresenceMemory.set,
      Function.update_self]
  · intro a
    rw [← huser]
    exact happ.mem_areaIds a

end PhasedWorker

namespace WorkerFleet

variable {ω : Type} {ext : Externals} {assignment : PartitionAssignment ω}

private theorem run_worker [DecidableEq ω] (st : WorkerFleet ω) (w : ω) {actions : List PhaseAction}
    {next : PhasedWorker} (hadmits : ∀ action ∈ actions, ∀ s : WorkerFleet ω,
      s.admits assignment w action = true)
    (hrun : (PhasedWorker.machine ext).run (st.view w) actions = some next) :
    ∃ settled, (machine ext assignment).run st (actions.map (.worker w)) =
      some (st.put w next settled) := by
  induction actions generalizing st with
  | nil =>
    cases hrun
    refine ⟨[], ?_⟩
    simp [put, view]
  | cons action actions ih =>
    obtain ⟨mid, hmid, hrest⟩ := (PhasedWorker.machine ext).run_cons_eq_some.mp hrun
    have hstep : (st.view w).step ext action = some mid := hmid
    have hview : (st.put w mid ((st.view w).settles ext action)).view w = mid := put_view_self
    rw [← hview] at hrest
    obtain ⟨settled, htail⟩ := ih _ (fun a ha => hadmits a (List.mem_cons_of_mem _ ha)) hrest
    refine ⟨(st.view w).settles ext action ++ settled, ?_⟩
    rw [List.map_cons, Machine.run_cons_eq_some]
    refine ⟨st.put w mid ((st.view w).settles ext action), ?_, ?_⟩
    · simp only [machine, step, hadmits action (by simp) st, if_true, hstep, Option.map_some]
    · rw [htail]
      simp [put, List.append_assoc]

private theorem admits_of_user? {w : ω} {userId : UserId} (howns : assignment.owns w userId = true)
    {action : PhaseAction} (huser : action.user? = some userId) (st : WorkerFleet ω) :
    st.admits assignment w action = true := by
  cases action with
  | restart => cases huser
  | swapSnapshot snapshot => cases huser
  | createArea row => cases huser
  | call event =>
    cases huser
    exact howns
  | _ => rfl

/-- A worker takes a snapshot of all areas and handles an event that changes the presence of a
user it has not seen. -/
def takeOver (w : ω) (snapshot : Snapshot) (event : LocationEventV1) : List (FleetAction ω) :=
  .worker w (.swapSnapshot snapshot) :: (PhasedWorker.changeRun event).map (.worker w)

private theorem run_takeOver [DecidableEq ω] (st : WorkerFleet ω) {w : ω} {snapshot : Snapshot}
    (event : LocationEventV1)
    (howns : assignment.owns w event.userId = true)
    (hidle : (st.workers w).inFlight event.userId = none)
    (hcold : (st.workers w).memory event.userId = none)
    (hplain : event.accuracy = none ∧ event.capturedAt = none)
    (hareas : snapshot.areas = st.db.areas)
    (hdiff : differs (snapshot.findCoveringAreaIds ext.spatial event.lng event.lat)
      (st.db.presence.areaIds event.userId) = true) :
    ∃ t, (machine ext assignment).run st (takeOver w snapshot event) = some t ∧
      (∀ other, other ≠ w → t.workers other = st.workers other) ∧
      (t.workers w).inFlight event.userId = none ∧
      (t.workers w).memory event.userId =
        some (snapshot.findCoveringAreaIds ext.spatial event.lng event.lat) ∧
      t.db.areas = st.db.areas ∧ ∀ a, a ∈ t.db.presence.areaIds event.userId ↔
        a ∈ snapshot.findCoveringAreaIds ext.spatial event.lng event.lat := by
  let fresh : PhasedWorker := { st.view w with snapshot := some snapshot }
  have hadmits : st.admits assignment w (.swapSnapshot snapshot) = true := by
    apply List.all_eq_true.mpr
    intro a ha
    rw [hareas] at ha
    exact known_iff.mpr (Or.inl ha)
  have hswap : (machine ext assignment).step st (.worker w (.swapSnapshot snapshot)) =
      some (st.put w fresh []) := by
    simp only [machine, step, hadmits, if_true]
    rfl
  have hview : (st.put w fresh []).view w = fresh := put_view_self
  have hcall : callOf ext fresh.snapshot event = .ok ⟨event.reportDto, event.receivedAt,
      snapshot.findCoveringAreaIds ext.spatial event.lng event.lat⟩ := by
    refine callOf_eq_ok.mpr ⟨?_, snapshot, rfl, rfl⟩
    intro accuracy haccuracy
    rw [hplain.1] at haccuracy
    cases haccuracy
  have hcast : castable ext.pg (ReportCall.capturedAt ⟨event.reportDto, event.receivedAt,
      snapshot.findCoveringAreaIds ext.spatial event.lng event.lat⟩) = true := by
    simp [ReportCall.capturedAt, LocationEventV1.reportDto, hplain.2, castable]
  have hlive : ∀ a ∈ snapshot.findCoveringAreaIds ext.spatial event.lng event.lat,
      fresh.db.hasArea a = true := by
    intro a ha
    have hids := Snapshot.mem_ids_of_covering ha
    rw [hareas] at hids
    exact Database.hasArea_iff.mpr hids
  obtain ⟨next, hrun, hphases, hmemory, htables, hrows⟩ :=
    PhasedWorker.run_changeRun hidle hcold hcall hcast hlive hdiff
  rw [← hview] at hrun
  have howned : ∀ action ∈ PhasedWorker.changeRun event, ∀ s : WorkerFleet ω,
      s.admits assignment w action = true := by
    intro action haction s
    apply admits_of_user? howns
    rcases List.mem_cons.mp haction with rfl | hanswer
    · rfl
    · exact PhaseAction.user?_of_isAnswer (PhasedWorker.isAnswer_of_mem hanswer)
  obtain ⟨settled, hworker⟩ := run_worker _ w howned hrun
  refine ⟨_, (machine ext assignment).run_cons_eq_some.mpr ⟨_, hswap, hworker⟩, ?_, ?_, ?_,
    htables, hrows⟩
  · intro other hne
    simp only [put, Function.update_of_ne hne]
  · simp only [put, Function.update_self, hphases]
    exact hidle
  · simpa only [put, Function.update_self] using hmemory

/-- A position, as an event of a user without accuracy or capture time. -/
def eventAt (userId : UserId) (position : ℚ × ℚ) : LocationEventV1 where
  eventId := 0
  userId := userId
  lat := position.2
  lng := position.1
  receivedAt := 0

end WorkerFleet

namespace Deployment

variable {ω : Type} [DecidableEq ω] {ext : Externals} {assignment : PartitionAssignment ω}
  {st : Deployment ω} {w : ω}

private theorem busy_of_run {userId : UserId} {actions : List PhaseAction}
    {mid fleet : WorkerFleet ω} (hsome : actions ≠ [])
    (hanswers : ∀ action ∈ actions, action.isAnswer userId = true)
    (hrun : (WorkerFleet.machine ext assignment).run mid (actions.map (.worker w)) = some fleet) :
    (mid.workers w).inFlight userId ≠ none := by
  intro hidle
  cases actions with
  | nil => exact hsome rfl
  | cons action rest =>
    obtain ⟨after, hafter, -⟩ := (WorkerFleet.machine ext assignment).run_cons_eq_some.mp hrun
    obtain ⟨next, hnext, -⟩ := WorkerFleet.worker_of_step hafter
    have hview : (mid.view w).inFlight userId = none := hidle
    rw [PhasedWorker.step_answer_of_idle (hanswers action (by simp)) hview] at hnext
    cases hnext

private theorem resume_of_busy {task : Nat} {message : ConsumeMessage} {event : LocationEventV1}
    {action : PhaseAction} {mid : WorkerFleet ω} (hsound : Sound assignment st)
    (hfleet : st.fleet.step ext assignment (.worker w action) = some mid)
    (huser : action.user? = some event.userId)
    (hbusy : (mid.workers w).inFlight event.userId ≠ none) (consumer : FleetConsumer) :
    st.resume ext assignment w consumer task message event action = some ⟨mid,
      Function.update st.consumers w
        { consumer with work := Function.update consumer.work task .reporting },
      st.handled⟩ := by
  obtain ⟨next, hnext, rfl⟩ := WorkerFleet.worker_of_step hfleet
  have hended := PhasedWorker.isSome_outcome (hsound w).phases hnext huser
  have hview : next.inFlight event.userId ≠ none := by
    simpa only [WorkerFleet.put, Function.update_self] using hbusy
  have hopen : (st.fleet.view w).outcome ext action = none := by
    cases hphase : next.inFlight event.userId with
    | none => exact absurd hphase hview
    | some phase =>
      rw [hphase, Option.isNone_some] at hended
      exact Option.not_isSome_iff_eq_none.mp (by rw [hended]; decide)
  simp only [resume, hfleet, hopen, Option.map_some, FleetConsumer.resume, Option.toList_none,
    List.map_nil, List.append_nil]

/-- What the fleet does with the answers to a `report`, a task past its gate does with them. -/
private theorem run_answers {task : Nat} {message : ConsumeMessage} {event : LocationEventV1}
    {actions : List PhaseAction} {fleet : WorkerFleet ω} (hsound : Sound assignment st)
    (hwork : (st.consumers w).work task = .reporting)
    (hjob : (st.consumers w).job task = some (message, event))
    (hanswers : ∀ action ∈ actions, action.isAnswer event.userId = true)
    (hrun : (WorkerFleet.machine ext assignment).run st.fleet (actions.map (.worker w)) =
      some fleet) :
    ∃ t, (machine ext assignment).run st (actions.map (.report w task)) = some t ∧
      t.fleet = fleet ∧ ∀ other, other ≠ w → t.consumers other = st.consumers other := by
  induction actions generalizing st with
  | nil =>
    cases hrun
    exact ⟨st, rfl, rfl, fun _ _ => rfl⟩
  | cons action rest ih =>
    obtain ⟨mid, hmid, htail⟩ := (WorkerFleet.machine ext assignment).run_cons_eq_some.mp hrun
    have hfleet : st.fleet.step ext assignment (.worker w action) = some mid := hmid
    have hanswer := hanswers action (by simp)
    have hrest : ∀ a ∈ rest, a.isAnswer event.userId = true :=
      fun a ha => hanswers a (List.mem_cons_of_mem _ ha)
    have hreport : st.step ext assignment (.report w task action) =
        st.resume ext assignment w (st.consumers w) task message event action := by
      simp only [step, hwork, hjob, hanswer, if_true]
    by_cases hlast : rest = []
    · subst hlast
      cases htail
      have hended : ∃ t, st.resume ext assignment w (st.consumers w) task message event action =
          some t := by
        simp only [resume, hfleet, Option.map_some]
        exact ⟨_, rfl⟩
      obtain ⟨t, ht⟩ := hended
      obtain ⟨hsame, hconsumers, -⟩ := resume_eq_some ht
      rw [hfleet, Option.some.injEq] at hsame
      refine ⟨t, (machine ext assignment).run_cons_eq_some.mpr ⟨t, hreport.trans ht, rfl⟩,
        hsame.symm, fun other hne => ?_⟩
      rw [hconsumers, Function.update_of_ne hne]
    · have hstep := hreport.trans (resume_of_busy hsound hfleet
        (PhaseAction.user?_of_isAnswer hanswer) (busy_of_run hlast hrest htail) (st.consumers w))
      obtain ⟨t, ht, hend, hconsumers⟩ := ih (hsound.step (step_cases hstep)) (by simp)
        (by dsimp only; rw [Function.update_self]; exact hjob) hrest htail
      refine ⟨t, (machine ext assignment).run_cons_eq_some.mpr ⟨_, hstep, ht⟩, hend,
        fun other hne => (hconsumers other hne).trans (Function.update_of_ne hne ..)⟩

/-- A worker takes a snapshot of all areas and handles the first event it is ever given. -/
def takeOver (assignment : PartitionAssignment ω) (w : ω) (snapshot : Snapshot)
    (event : LocationEventV1) : List (DeploymentAction ω) :=
  [.swapSnapshot w snapshot,
    .deliver w (assignment.partitionOf event.userId) (.json LOCATION_EVENT_SCHEMA_VERSION event),
    .start w 0, .gate w 0 none] ++ (PhasedWorker.changeAnswers event.userId).map (.report w 0)

private theorem gate_of_no_device {event : LocationEventV1} (hdevice : event.deviceId = none)
    {task : Nat} {message : ConsumeMessage} {readError : Option PgError} :
    st.gate ext assignment w task message event readError =
      st.resume ext assignment w (st.consumers w) task message event (.call event) := by
  have hread : isDuplicate (st.consumers w).lastSeqByDevice st.fleet.db.eventState event
      readError = .ok ((st.consumers w).lastSeqByDevice, false) := by
    simp only [isDuplicate, hdevice]
  simp only [gate, hread]

/-- A worker that has just started enters `report` with the first event it is given, if no dedup
check stands before it. -/
private theorem run_first {event : LocationEventV1} {actions : List PhaseAction}
    {mid fleet : WorkerFleet ω} (hsound : Sound assignment st) (hfresh : st.consumers w = .start)
    (howns : assignment.owns w event.userId = true) (hdevice : event.deviceId = none)
    (hsome : actions ≠ []) (hanswers : ∀ action ∈ actions, action.isAnswer event.userId = true)
    (hcall : st.fleet.step ext assignment (.worker w (.call event)) = some mid)
    (hrun : (WorkerFleet.machine ext assignment).run mid (actions.map (.worker w)) =
      some fleet) :
    ∃ t, (machine ext assignment).run st
        ([.deliver w (assignment.partitionOf event.userId)
          (.json LOCATION_EVENT_SCHEMA_VERSION event), .start w 0, .gate w 0 none] ++
          actions.map (.report w 0)) = some t ∧
      t.fleet = fleet ∧ ∀ other, other ≠ w → t.consumers other = st.consumers other := by
  let content : Content := .json LOCATION_EVENT_SCHEMA_VERSION event
  let message : ConsumeMessage := ⟨1, assignment.partitionOf event.userId, content⟩
  let handed := FleetConsumer.start.handle (assignment.partitionOf event.userId) content
  let chains := { handed.chains.setPhase 0 .running with started := [0] }
  let begun : FleetConsumer :=
    { handed with chains, work := Function.update handed.work 0 .gating }
  have hdeliver : st.step ext assignment
      (.deliver w (assignment.partitionOf event.userId) content) = some (st.put w handed) := by
    have hroutes : routes assignment w (assignment.partitionOf event.userId) content = true := by
      have hparse : content.parse = some event := rfl
      simp only [routes, hparse, Option.all_some, decide_true, Bool.and_true]
      exact howns
    simp only [step, hroutes, if_true, hfresh, handed]
  have hstart : (st.put w handed).step ext assignment (.start w 0) = some (st.put w begun) := by
    have hready : handed.chains.start? 0 = some chains := rfl
    simp only [step, put, Function.update_self, hready, Option.map_some, Function.update_idem,
      begun]
  have hbegun : (st.put w begun).consumers w = begun := Function.update_self ..
  have hput : Sound assignment (st.put w begun) :=
    (hsound.step (step_cases hdeliver)).step (step_cases hstart)
  have hgate : (st.put w begun).step ext assignment (.gate w 0 none) =
      (st.put w begun).resume ext assignment w begun 0 message event (.call event) := by
    have hwork : begun.work 0 = .gating := rfl
    have hjob : begun.job 0 = some (message, event) := rfl
    simp only [step, hbegun, hwork, hjob]
    rw [gate_of_no_device hdevice, hbegun]
  let reporting : FleetConsumer :=
    { begun with work := Function.update begun.work 0 .reporting }
  let entered : Deployment ω :=
    ⟨mid, Function.update (st.put w begun).consumers w reporting, st.handled⟩
  have hentered : (st.put w begun).step ext assignment (.gate w 0 none) = some entered :=
    hgate.trans (resume_of_busy hput hcall rfl (busy_of_run hsome hanswers hrun) begun)
  have hreporting : entered.consumers w = reporting := Function.update_self ..
  have hwork : (entered.consumers w).work 0 = .reporting := by
    rw [hreporting]
    rfl
  have hjob : (entered.consumers w).job 0 = some (message, event) := by
    rw [hreporting]
    rfl
  obtain ⟨t, ht, hend, hconsumers⟩ :=
    run_answers (hput.step (step_cases hentered)) hwork hjob hanswers hrun
  refine ⟨t, (machine ext assignment).run_append_eq_some.mpr ⟨_, ?_, ht⟩, hend, ?_⟩
  · simp only [Machine.run_cons, Machine.run_nil, machine]
    rw [hdeliver, Option.bind_some, hstart, Option.bind_some, hentered, Option.bind_some]
  · intro other hne
    rw [hconsumers other hne]
    simp only [entered, put, Function.update_of_ne hne]

omit [DecidableEq ω] in
private theorem losesCommit_takeOver (snapshot : Snapshot) (event : LocationEventV1)
    (userId : UserId) :
    ∀ action ∈ takeOver assignment w snapshot event, action.losesCommit userId = false := by
  intro action haction
  rcases List.mem_append.mp haction with hfirst | hanswer
  · simp only [List.mem_cons, List.not_mem_nil, or_false] at hfirst
    rcases hfirst with rfl | rfl | rfl | rfl <;> rfl
  · obtain ⟨answer, hmem, rfl⟩ := List.mem_map.mp hanswer
    exact PhasedWorker.losesCommit_of_mem hmem userId

private theorem run_takeOver {snapshot : Snapshot} {event : LocationEventV1}
    {fleet : WorkerFleet ω} (hsound : Sound assignment st) (hfresh : st.consumers w = .start)
    (howns : assignment.owns w event.userId = true) (hdevice : event.deviceId = none)
    (hrun : (WorkerFleet.machine ext assignment).run st.fleet
      (WorkerFleet.takeOver w snapshot event) = some fleet) :
    ∃ t, (machine ext assignment).run st (takeOver assignment w snapshot event) = some t ∧
      t.fleet = fleet ∧ ∀ other, other ≠ w → t.consumers other = st.consumers other := by
  obtain ⟨swapped, hswap, hrest⟩ := (WorkerFleet.machine ext assignment).run_cons_eq_some.mp hrun
  obtain ⟨mid, hcall, htail⟩ := (WorkerFleet.machine ext assignment).run_cons_eq_some.mp hrest
  have hswapped : st.step ext assignment (.swapSnapshot w snapshot) =
      some { st with fleet := swapped } := by
    have hfleet : st.fleet.step ext assignment (.worker w (.swapSnapshot snapshot)) =
        some swapped := hswap
    simp only [step, hfleet, Option.map_some]
  obtain ⟨t, ht, hend, hconsumers⟩ := run_first (hsound.step (step_cases hswapped)) hfresh howns
    hdevice (List.cons_ne_nil _ _) (fun _ => PhasedWorker.isAnswer_of_mem) hcall htail
  exact ⟨t, (machine ext assignment).run_cons_eq_some.mpr ⟨_, hswapped, ht⟩, hend, hconsumers⟩

/-- The memories of the workers agree with the tables, in every run without a lost COMMIT, exactly
when no user's partition is consumed by two workers. -/
theorem agreesFor_iff_exclusive (ext : Externals) (assignment : PartitionAssignment ω)
    (areas : AreasTable) (inside outside : ℚ × ℚ)
    (hinside : Snapshot.findCoveringAreaIds ext.spatial ⟨1, areas⟩ inside.1 inside.2 ≠ [])
    (houtside : Snapshot.findCoveringAreaIds ext.spatial ⟨1, areas⟩ outside.1 outside.2 = []) :
    (∀ (db₀ : Database), db₀.Referential → ∀ (actions : List (DeploymentAction ω))
      (st : Deployment ω), (machine ext assignment).run (start db₀) actions = some st →
        ∀ userId, (∀ action ∈ actions, action.losesCommit userId = false) →
          st.fleet.AgreesFor userId) ↔
      assignment.Exclusive := by
  constructor
  · intro hagrees userId w w' howns howns'
    by_contra hne
    have hreferential : (Database.initial areas).Referential :=
      ⟨fun _ _ ha => absurd ha List.not_mem_nil, fun _ hrow => absurd hrow List.not_mem_nil⟩
    have henter : differs (Snapshot.findCoveringAreaIds ext.spatial ⟨1, areas⟩ inside.1 inside.2)
        ((Database.initial areas).presence.areaIds userId) = true := differs_nil_right hinside
    obtain ⟨fleet, hfleet, hsame, hidle, hmemory, hareas, hrows⟩ :=
      WorkerFleet.run_takeOver (.start (.initial areas)) (WorkerFleet.eventAt userId inside) howns
        rfl rfl ⟨rfl, rfl⟩ rfl henter
    obtain ⟨entered, hentering, rfl, hfresh⟩ :=
      run_takeOver (sound_start (.initial areas)) rfl howns rfl hfleet
    obtain ⟨a, ha⟩ := List.exists_mem_of_ne_nil _ hinside
    have hleave : differs (Snapshot.findCoveringAreaIds ext.spatial ⟨1, areas⟩ outside.1 outside.2)
        (entered.fleet.db.presence.areaIds userId) = true := by
      rw [houtside]
      exact differs_nil_left (List.ne_nil_of_mem ((hrows a).mpr ha))
    have hother := hsame w' (Ne.symm hne)
    obtain ⟨fleet', hfleet', hkept, -, -, hareas', hrows'⟩ :=
      WorkerFleet.run_takeOver entered.fleet (WorkerFleet.eventAt userId outside) howns'
        (by rw [hother]; rfl) (by rw [hother]; rfl) ⟨rfl, rfl⟩ hareas.symm hleave
    obtain ⟨left, hleaving, rfl, -⟩ :=
      run_takeOver (sound_of_run hentering) (hfresh w' (Ne.symm hne)) howns' rfl hfleet'
    have hrun := (machine ext assignment).run_append_eq_some.mpr ⟨_, hentering, hleaving⟩
    have hheard : ∀ action ∈ takeOver assignment w ⟨1, areas⟩ (WorkerFleet.eventAt userId inside) ++
        takeOver assignment w' ⟨1, areas⟩ (WorkerFleet.eventAt userId outside),
        action.losesCommit userId = false := by
      intro action haction
      rcases List.mem_append.mp haction with h | h
      · exact losesCommit_takeOver _ _ _ action h
      · exact losesCommit_takeOver _ _ _ action h
    have hfaithful := hagrees _ hreferential _ left hrun userId hheard w
    rw [hkept w hne] at hfaithful
    have hlive : left.fleet.db.hasArea a = true := by
      rw [Database.hasArea_iff, hareas', hareas]
      exact Snapshot.mem_ids_of_covering ha
    have hin := (hfaithful hidle _ hmemory a hlive).mp ha
    have hout := (hrows' a).mp hin
    rw [show (WorkerFleet.eventAt userId outside).lng = outside.1 from rfl,
      show (WorkerFleet.eventAt userId outside).lat = outside.2 from rfl, houtside] at hout
    cases hout
  · intro hexclusive db₀ hdb₀ actions st hrun userId hheard
    obtain ⟨owner, calls, hmirrored⟩ := mirrored_of_run hexclusive hrun userId
    exact (WorkerFleet.fleet_refines_naiveRun ext assignment hexclusive db₀ hdb₀ calls st.fleet
      hmirrored.run userId (hmirrored.heard hheard)).2.2

/-- Two workers on two partitions, or both of them on one. -/
private def pair (shared : Bool) : PartitionAssignment Bool where
  partitionOf userId := if userId = "u" then 1 else 0
  partitions w := if w || shared then [1] else [0]

/-- Two workers on one partition come to disagree with the tables without any failure. -/
theorem agreesFor_iff_exclusive_shared :
    ¬ ∀ (db₀ : Database), db₀.Referential → ∀ (actions : List (DeploymentAction Bool))
      (st : Deployment Bool),
        (machine .reference (pair true)).run (start db₀) actions = some st → ∀ userId,
          (∀ action ∈ actions, action.losesCommit userId = false) →
            st.fleet.AgreesFor userId := by
  intro hagrees
  have hinside : Snapshot.findCoveringAreaIds Externals.reference.spatial ⟨1, sampleAreas⟩ 1 1 ≠
      [] := by decide +kernel
  have houtside : Snapshot.findCoveringAreaIds Externals.reference.spatial ⟨1, sampleAreas⟩ 50 1 =
      [] := by decide +kernel
  have hexclusive := (agreesFor_iff_exclusive .reference (pair true) sampleAreas (1, 1) (50, 1)
    hinside houtside).mp hagrees
  have hsame : false = true := hexclusive "u" false true rfl rfl
  cases hsame

end Deployment

end Geofence
