import Geofence.Locations.WorkerRun
import Geofence.Worker.Delivery
/-!
# Redelivery and the log

An event that comes back is reported again, against the presence rows as they then stand. It
adds a log row for every area that covers it and that its user is not in, so a second report is
absorbed as long as the user is still in each area the first one logged.
-/

namespace Geofence

open Framework

private theorem Snapshot.findCoveringAreaIds_subset (lib : SpatialLibrary) {older newer : Snapshot}
    (h : older.areas.rows ⊆ newer.areas.rows) (lng lat : ℚ) :
    older.findCoveringAreaIds lib lng lat ⊆ newer.findCoveringAreaIds lib lng lat := by
  intro a ha
  have hold := (AreaSpatialIndex.findCoveringAreaIds_ofRows_perm lib older.areas.rows lng
    lat).mem_iff.mp ha
  obtain ⟨row, hrow, hid⟩ := List.mem_map.mp hold
  obtain ⟨hmem, hcovers⟩ := List.mem_filter.mp hrow
  apply (AreaSpatialIndex.findCoveringAreaIds_ofRows_perm lib newer.areas.rows lng lat).mem_iff.mpr
  exact List.mem_map.mpr ⟨row, List.mem_filter.mpr ⟨h hmem, hcovers⟩, hid⟩

/-- The newer snapshot has every row of the older one. -/
def SnapshotGrows (older newer : Option Snapshot) : Prop :=
  ∀ s ∈ older, ∃ s' ∈ newer, s.areas.rows ⊆ s'.areas.rows

theorem SnapshotGrows.refl (snapshot : Option Snapshot) : SnapshotGrows snapshot snapshot :=
  fun s hs => ⟨s, hs, List.Subset.refl _⟩

private theorem callOf_grows {ext : Externals} {older newer : Option Snapshot}
    (h : SnapshotGrows older newer) {event : LocationEventV1} {before : ReportCall}
    (hbefore : callOf ext older event = .ok before) :
    ∃ after, callOf ext newer event = .ok after ∧
      before.currentAreaIds ⊆ after.currentAreaIds := by
  obtain ⟨haccuracy, s, rfl, rfl⟩ := callOf_eq_ok.mp hbefore
  obtain ⟨s', hs', hrows⟩ := h s rfl
  refine ⟨_, callOf_eq_ok.mpr ⟨haccuracy, s', hs', rfl⟩, ?_⟩
  exact Snapshot.findCoveringAreaIds_subset ext.spatial hrows _ _

theorem WorkerReport.tables {ext : Externals} {st : ServiceState} {memory : PresenceMemory}
    {event : LocationEventV1} {answers : Answers} {outcome : ReportOutcome}
    (h : WorkerReport ext st memory event answers outcome) :
    outcome.state.snapshot = st.snapshot ∧ (outcome.state.db = st.db ∨
      ∃ call result, callOf ext st.snapshot event = .ok call ∧
        Applied call st.db outcome.state.db result) := by
  cases h with
  | threw e => exact ⟨rfl, Or.inl rfl⟩
  | unchanged call memory' hint hcall hhint hsame => exact ⟨rfl, Or.inl rfl⟩
  | rolledBack call memory' hint e hcall hhint hdiff => exact ⟨rfl, Or.inl rfl⟩
  | commitLost call memory' hint db result e hcall hhint hdiff hlost htx =>
    obtain ⟨hdto, -, -⟩ := callOf_ok hcall
    exact ⟨rfl, Or.inr ⟨call, result, hcall, transaction_applied (by rw [hdto]; rfl) htx⟩⟩
  | committed call memory' hint db result hcall hhint hdiff hdone htx =>
    obtain ⟨hdto, -, -⟩ := callOf_ok hcall
    exact ⟨rfl, Or.inr ⟨call, result, hcall, transaction_applied (by rw [hdto]; rfl) htx⟩⟩

namespace ConsumerRun

private theorem reportEvent_tables {ext : Externals} {before after : ConsumerState}
    {outcome : Outcome} {memory : PresenceMemory} {event : LocationEventV1} {answers : Answers}
    (hmemory : before.service.memory = some memory)
    (h : before.reportEvent ext event answers = (after, outcome)) :
    after.service.snapshot = before.service.snapshot ∧ (after.service.db = before.service.db ∨
      ∃ call result, callOf ext before.service.snapshot event = .ok call ∧
        Applied call before.service.db after.service.db result) := by
  have htables := (report_cases ext hmemory event answers).tables
  have hservice := reportEvent_service ext before event answers
  rw [h] at hservice
  rw [hservice]
  exact htables

theorem service_of_step {ext : Externals} {st t : ConsumerRun} {action : ConsumerAction}
    (hstep : ConsumerStep ext st action t) (hreport : ∀ task answers, action ≠ .report task answers)
    (hswap : ∀ snapshot, action ≠ .swapSnapshot snapshot) :
    t.consumer.service = st.consumer.service := by
  cases hstep with
  | passed task readError message event consumer hwork hjob hgate =>
    have hservice := gate_service st.consumer event readError
    rwa [hgate] at hservice
  | gated task readError message event consumer outcome hwork hjob hgate =>
    have hservice := gate_service st.consumer event readError
    rwa [hgate] at hservice
  | reported task answers message event consumer outcome hwork hjob hr =>
    exact absurd rfl (hreport task answers)
  | swapSnapshot snapshot => exact absurd rfl (hswap snapshot)
  | _ => rfl

end ConsumerRun

namespace Pipeline

variable {ext : Externals} {st t : Pipeline}

def db (st : Pipeline) : Database := st.worker.consumer.service.db

def snapshot (st : Pipeline) : Option Snapshot := st.worker.consumer.service.snapshot

/-- What a step of the pipeline can do to the tables and to the record kept of them. -/
inductive TableStep (ext : Externals) (st : Pipeline) (action : PipelineAction) (t : Pipeline) :
    Prop where
  | same (hdb : t.db = st.db) (hsnapshot : SnapshotGrows st.snapshot t.snapshot)
      (happlied : t.applied = st.applied) (hcontributions : t.contributions = st.contributions)
  | applied (task : Nat) (answers : Answers) (message : ConsumeMessage) (event : LocationEventV1)
      (call : ReportCall) (result : TransactionResult)
      (haction : action = .work (.report task answers))
      (hjob : st.worker.job task = some (message, event))
      (hcall : callOf ext st.snapshot event = .ok call) (happ : Applied call st.db t.db result)
      (hsnapshot : t.snapshot = st.snapshot)
      (happlied : t.applied = st.applied ++
        if t.db.presence.rows = st.db.presence.rows then [] else [event])
      (hcontributions : t.contributions = st.contributions ++
        result.enteredAreaIds.map fun areaId => (event.eventId, areaId))

private theorem grows_of_admits {snapshot : Snapshot} (h : st.admitsSnapshot snapshot = true) :
    SnapshotGrows st.snapshot (some snapshot) := by
  intro s hs
  have hall := (Option.all_eq_true ..).mp h s hs
  refine ⟨snapshot, rfl, fun row hrow => ?_⟩
  exact of_decide_eq_true (List.all_eq_true.mp hall row hrow)

private theorem record_of_same {before after : ConsumerRun} (action : ConsumerAction)
    (h : after.consumer.service.db = before.consumer.service.db) :
    transition before after action = [] ∧ contribution before after action = [] := by
  cases action with
  | report task answers =>
    cases hjob : before.job task with
    | none => simp only [transition, contribution, hjob, and_self]
    | some job => simp [transition, contribution, hjob, h]
  | _ => exact ⟨rfl, rfl⟩

private theorem tableStep_of_same {action : ConsumerAction} {worker : ConsumerRun}
    (hdb : worker.consumer.service.db = st.worker.consumer.service.db)
    (hsnapshot : worker.consumer.service.snapshot = st.worker.consumer.service.snapshot) :
    TableStep ext st (.work action) { st with
      worker
      applied := st.applied ++ transition st.worker worker action
      contributions := st.contributions ++ contribution st.worker worker action } := by
  obtain ⟨htransition, hcontribution⟩ := record_of_same action hdb
  refine .same hdb ?_ ?_ ?_
  · change SnapshotGrows _ worker.consumer.service.snapshot
    rw [hsnapshot]
    exact SnapshotGrows.refl _
  · change st.applied ++ _ = st.applied
    rw [htransition, List.append_nil]
  · change st.contributions ++ _ = st.contributions
    rw [hcontribution, List.append_nil]

private theorem tableStep_of_work (htracked : Tracked st) {action : ConsumerAction}
    {worker : ConsumerRun} (hwork : action.isWork = true)
    (hstep : ConsumerRun.ConsumerStep ext st.worker action worker) :
    TableStep ext st (.work action) { st with
      worker
      applied := st.applied ++ transition st.worker worker action
      contributions := st.contributions ++ contribution st.worker worker action } := by
  by_cases hreport : ∃ task answers, action = .report task answers
  · obtain ⟨task, answers, rfl⟩ := hreport
    obtain ⟨memory, hmemory⟩ := htracked.worker.memory
    cases hstep with
    | reported _ _ message event consumer outcome hworking hjob hr =>
      obtain ⟨hsnapshot, hdb | ⟨call, result, hcall, happ⟩⟩ :=
        ConsumerRun.reportEvent_tables hmemory hr
      · exact tableStep_of_same hdb hsnapshot
      · refine .applied task answers message event call result rfl hjob hcall happ hsnapshot ?_ ?_
        · simp only [transition, hjob]
          rfl
        · have hlogs := happ.logs
          simp only [contribution, hjob]
          change _ ++ List.map _ (List.drop _ consumer.service.db.logs) = _
          rw [hlogs, List.drop_left, List.map_map]
          rfl
  · have hservice := ConsumerRun.service_of_step hstep
      (fun task answers heq => hreport ⟨task, answers, heq⟩)
      (by rintro snapshot rfl; cases hwork)
    exact tableStep_of_same (congrArg ServiceState.db hservice)
      (congrArg ServiceState.snapshot hservice)

theorem tableStep_of_step (htracked : Tracked st) {action : PipelineAction}
    (hstep : PipelineStep ext st action t) : TableStep ext st action t := by
  cases hstep with
  | published event => exact .same rfl (SnapshotGrows.refl _) rfl rfl
  | pushed _ _ event partition hpublished hwork hsame =>
    have hservice : t.worker.consumer.service = st.worker.consumer.service :=
      ConsumerRun.service_of_step (ConsumerRun.step_cases hwork) (fun _ _ heq => nomatch heq)
        (fun _ heq => nomatch heq)
    refine .same (congrArg ServiceState.db hservice) ?_ hsame.applied hsame.contributions
    unfold snapshot
    rw [hservice]
    exact SnapshotGrows.refl _
  | worked action worker hwork hcons =>
    exact tableStep_of_work htracked hwork (ConsumerRun.step_cases hcons)
  | received _ hworker hsame =>
    refine .same ?_ ?_ hsame.applied hsame.contributions
    · rw [db, hworker, db]
    · rw [snapshot, snapshot, hworker]
      exact SnapshotGrows.refl _
  | swapped snapshot worker hadmits hcons =>
    cases hcons
    exact .same rfl (grows_of_admits hadmits) rfl rfl
  | crashed snapshot _ consumerTags hadmits hworker hsame =>
    refine .same ?_ ?_ hsame.applied hsame.contributions
    · rw [db, hworker]
      rfl
    · rw [Pipeline.snapshot.eq_1 t, hworker]
      exact grows_of_admits hadmits

/-- The event's user is in every area the event has a log row for. -/
def stillInside (st : Pipeline) (event : LocationEventV1) : Bool :=
  st.contributions.all fun entry =>
    entry.1 != event.eventId || (st.db.presence.areaIds event.userId).contains entry.2

/-- `report` is called with an event only while its user is in every area it was logged for. -/
def reportsInside (st : Pipeline) : PipelineAction → Bool
  | .work (.report task _) => (st.worker.job task).all fun job => st.stillInside job.2
  | _ => true

/-- The last event of the user whose transition was applied. -/
def lastApplied (st : Pipeline) (userId : UserId) : Option LocationEventV1 :=
  (st.applied.filter (·.userId = userId)).getLast?

theorem stillInside_eq_true {event : LocationEventV1} :
    st.stillInside event = true ↔ ∀ areaId, (event.eventId, areaId) ∈ st.contributions →
      areaId ∈ st.db.presence.areaIds event.userId := by
  simp only [stillInside, List.all_eq_true, Bool.or_eq_true, bne_iff_ne, ne_eq,
    List.contains_iff_mem]
  constructor
  · intro h areaId hmem
    exact (h _ hmem).resolve_left fun hne => hne rfl
  · rintro h ⟨eventId, areaId⟩ hmem
    by_cases hid : eventId = event.eventId
    · subst hid
      exact Or.inr (h areaId hmem)
    · exact Or.inl hid

private theorem published_subset_of_step {action : PipelineAction}
    (hstep : PipelineStep ext st action t) : st.published ⊆ t.published := by
  cases hstep with
  | published event => exact List.subset_append_left _ _
  | pushed _ _ event partition hpublished hwork hsame => exact hsame.published ▸ List.Subset.refl _
  | worked action worker hwork hcons => exact List.Subset.refl _
  | received _ hworker hsame => exact hsame.published ▸ List.Subset.refl _
  | swapped snapshot worker hadmits hcons => exact List.Subset.refl _
  | crashed snapshot _ consumerTags hadmits hworker hsame =>
    exact hsame.published ▸ List.Subset.refl _

/-- Every log row the run added is attributed to an event that the area still covers, and the
last event applied for a user finds its areas in the user's presence. -/
structure Attributed (ext : Externals) (logs : List LogRow) (st : Pipeline) : Prop where
  tracked : Tracked st
  logs : st.db.logs.map (·.areaId) = logs.map (·.areaId) ++ st.contributions.map (·.2)
  covered : ∀ entry ∈ st.contributions, ∃ event ∈ st.published, event.eventId = entry.1 ∧
    ∃ call, callOf ext st.snapshot event = .ok call ∧ entry.2 ∈ call.currentAreaIds
  last : ∀ userId event, st.lastApplied userId = some event → st.stillInside event = true

namespace Attributed

variable {logs : List LogRow}

theorem covered_by_call (h : Attributed ext logs st) {event : LocationEventV1} {areaId : AreaId}
    {call : ReportCall} (hpublished : event ∈ st.published)
    (hentry : (event.eventId, areaId) ∈ st.contributions)
    (hcall : callOf ext st.snapshot event = .ok call) : areaId ∈ call.currentAreaIds := by
  obtain ⟨e, he, hid, call', hcall', hmem⟩ := h.covered _ hentry
  have heq : e = event := h.tracked.eq_of_eventId he hpublished hid
  subst heq
  rw [hcall] at hcall'
  cases hcall'
  exact hmem

/-- A commit leaves the user in exactly the areas of the event, old and new entries alike; what
another event logged is out of its reach. -/
private theorem last_of_applied (h : Attributed ext logs st) {event : LocationEventV1}
    {call : ReportCall} {result : TransactionResult} (hevent : event ∈ st.published)
    (hcall : callOf ext st.snapshot event = .ok call) (happ : Applied call st.db t.db result)
    (happlied : t.applied = st.applied ++
      if t.db.presence.rows = st.db.presence.rows then [] else [event])
    (hcontributions : t.contributions = st.contributions ++
      result.enteredAreaIds.map fun areaId => (event.eventId, areaId))
    {userId : UserId} {e : LocationEventV1} (hlast : t.lastApplied userId = some e) :
    t.stillInside e = true := by
  obtain ⟨hdto, -, -⟩ := callOf_ok hcall
  have huser : call.dto.userId = event.userId := by rw [hdto, LocationEventV1.reportDto]
  have hself : t.stillInside event = true := by
    rw [stillInside_eq_true, hcontributions]
    intro areaId hentry
    rw [← huser, happ.mem_areaIds]
    rcases List.mem_append.mp hentry with hold | hnew
    · exact h.covered_by_call hevent hold hcall
    · obtain ⟨a, hentered, heq⟩ := List.mem_map.mp hnew
      cases heq
      exact ((happ.mem_entered areaId).mp hentered).1
  have hother : st.lastApplied userId = some e →
      t.db.presence.areaIds e.userId = st.db.presence.areaIds e.userId →
      t.stillInside e = true := by
    intro hbefore hpresence
    have happliedE : e ∈ st.applied := (List.mem_filter.mp (List.mem_of_getLast? hbefore)).1
    by_cases hid : e.eventId = event.eventId
    · have heq : e = event := h.tracked.eq_of_eventId (h.tracked.applied e happliedE) hevent hid
      exact heq ▸ hself
    · rw [stillInside_eq_true, hpresence, hcontributions]
      intro areaId hentry
      rcases List.mem_append.mp hentry with hold | hnew
      · exact stillInside_eq_true.mp (h.last userId e hbefore) areaId hold
      · obtain ⟨a, -, heq⟩ := List.mem_map.mp hnew
        exact absurd (Prod.mk.inj heq).1.symm hid
  rw [lastApplied, happlied, List.filter_append] at hlast
  by_cases hrows : t.db.presence.rows = st.db.presence.rows
  · rw [if_pos hrows, List.filter_nil, List.append_nil] at hlast
    apply hother hlast
    rw [PresenceTable.areaIds, hrows, PresenceTable.areaIds]
  · rw [if_neg hrows] at hlast
    by_cases hmine : event.userId = userId
    · rw [List.filter_cons_of_pos (by simpa using hmine), List.filter_nil,
        List.getLast?_concat] at hlast
      cases hlast
      exact hself
    · rw [List.filter_cons_of_neg (by simpa using hmine), List.filter_nil,
        List.append_nil] at hlast
      apply hother hlast
      have hof : e.userId = userId := by
        simpa using (List.mem_filter.mp (List.mem_of_getLast? hlast)).2
      exact happ.areaIds_of_ne (by rw [huser, hof]; exact Ne.symm hmine)

theorem step {action : PipelineAction} (h : Attributed ext logs st)
    (hstep : PipelineStep ext st action t) : Attributed ext logs t := by
  have htracked := h.tracked.step hstep
  have hpublished := published_subset_of_step hstep
  cases tableStep_of_step h.tracked hstep with
  | same hdb hsnapshot happlied hcontributions =>
    refine ⟨htracked, ?_, ?_, ?_⟩
    · rw [hdb, hcontributions]
      exact h.logs
    · rw [hcontributions]
      intro entry hentry
      obtain ⟨event, hevent, hid, call, hcall, hmem⟩ := h.covered entry hentry
      obtain ⟨after, hafter, hsub⟩ := callOf_grows hsnapshot hcall
      exact ⟨event, hpublished hevent, hid, after, hafter, hsub hmem⟩
    · intro userId event hlast
      rw [lastApplied, happlied] at hlast
      have hinside := h.last userId event hlast
      rw [stillInside_eq_true] at hinside ⊢
      rw [hdb, hcontributions]
      exact hinside
  | applied task answers message event call result haction hjob hcall happ hsnapshot happlied
      hcontributions =>
    have hevent : event ∈ st.published := h.tracked.job_published hjob
    refine ⟨htracked, ?_, ?_, ?_⟩
    · rw [happ.logs, hcontributions, List.map_append, List.map_append, h.logs, List.append_assoc,
        List.map_map, List.map_map]
      rfl
    · rw [hcontributions, hsnapshot]
      intro entry hentry
      rcases List.mem_append.mp hentry with hold | hnew
      · obtain ⟨e, he, hrest⟩ := h.covered entry hold
        exact ⟨e, hpublished he, hrest⟩
      · obtain ⟨areaId, hentered, rfl⟩ := List.mem_map.mp hnew
        exact ⟨event, hpublished hevent, rfl, call, hcall, ((happ.mem_entered areaId).mp hentered).1⟩
    · intro userId e hlast
      exact h.last_of_applied hevent hcall happ happlied hcontributions hlast

private theorem not_nodup_of_left (h : Attributed ext logs st) {task : Nat} {answers : Answers}
    {message : ConsumeMessage} {event : LocationEventV1}
    (hjob : st.worker.job task = some (message, event)) (hleft : st.stillInside event = false)
    (hstep : PipelineStep ext st (.work (.report task answers)) t) :
    t.db = st.db ∨ ¬ t.contributions.Nodup := by
  cases tableStep_of_step h.tracked hstep with
  | same hdb hsnapshot happlied hcontributions => exact Or.inl hdb
  | applied task' answers' message' event' call result haction hjob' hcall happ hsnapshot happlied
      hcontributions =>
    cases haction
    rw [hjob] at hjob'
    cases hjob'
    refine Or.inr fun hnodup => ?_
    have hinside : st.stillInside event = true := by
      rw [stillInside_eq_true]
      intro areaId hold
      by_contra hout
      obtain ⟨hdto, -, -⟩ := callOf_ok hcall
      have hcurrent := h.covered_by_call (h.tracked.job_published hjob) hold hcall
      have hentered : areaId ∈ result.enteredAreaIds := by
        rw [happ.mem_entered, hdto]
        exact ⟨hcurrent, hout⟩
      rw [hcontributions, List.nodup_append] at hnodup
      exact hnodup.2.2 _ hold _ (List.mem_map_of_mem hentered) rfl
    rw [hleft] at hinside
    cases hinside

end Attributed

theorem attributed_start (ext : Externals) (topology : Topology) (db : Database)
    (snapshot : Snapshot) : Attributed ext db.logs (start topology db snapshot) := by
  refine ⟨tracked_start topology db snapshot, ?_, ?_, ?_⟩
  · exact (List.append_nil _).symm
  · intro entry hentry
    cases hentry
  · intro userId event hlast
    rfl

/-- One report step: what it enters was not in the user's presence. -/
private theorem nodup_of_step {action : PipelineAction} (htracked : Tracked st)
    (hguard : st.reportsInside action = true) (hstep : PipelineStep ext st action t)
    (h : st.contributions.Nodup) : t.contributions.Nodup := by
  cases tableStep_of_step htracked hstep with
  | same hdb hsnapshot happlied hcontributions =>
    rw [hcontributions]
    exact h
  | applied task answers message event call result haction hjob hcall happ hsnapshot happlied
      hcontributions =>
    subst haction
    have hinside : st.stillInside event = true := by
      simpa [reportsInside, hjob] using hguard
    obtain ⟨hdto, -, -⟩ := callOf_ok hcall
    rw [hcontributions, List.nodup_append]
    refine ⟨h, happ.nodup.map ?_, ?_⟩
    · intro a b heq
      exact (Prod.mk.inj heq).2
    · rintro entry hold entry' hnew rfl
      obtain ⟨areaId, hentered, rfl⟩ := List.mem_map.mp hnew
      have hout := ((happ.mem_entered areaId).mp hentered).2
      rw [hdto] at hout
      exact hout (stillInside_eq_true.mp hinside areaId hold)

/-- The last event applied for a user is absorbed when it comes back. -/
theorem stillInside_of_lastApplied (topology : Topology) (ext : Externals) (db : Database)
    (snapshot : Snapshot) {actions : List PipelineAction} {st : Pipeline}
    (hrun : (machine topology ext).run (start topology db snapshot) actions = some st)
    {userId : UserId} {event : LocationEventV1} (hlast : st.lastApplied userId = some event) :
    st.stillInside event = true :=
  ((machine topology ext).run_invariant (fun _ _ _ hs hstep => hs.step (step_cases hstep))
    (attributed_start ext topology db snapshot) hrun).last userId event hlast

/-- Each event has at most one log row per area in every state of a run that reports it only
while its user is in the areas it was logged for; a report outside of that writes nothing or
adds a second row. -/
theorem log_rows_once (topology : Topology) (ext : Externals) (db : Database)
    (snapshot : Snapshot) (actions : List PipelineAction) :
    ((machine topology ext).Meets (fun st action => st.reportsInside action = true)
        (start topology db snapshot) actions →
      (machine topology ext).Always (fun st => st.contributions.Nodup ∧
        st.db.logs.map (·.areaId) = db.logs.map (·.areaId) ++ st.contributions.map (·.2))
        (start topology db snapshot) actions) ∧
    ∀ st task answers message event t,
      (machine topology ext).run (start topology db snapshot) actions = some st →
      st.worker.job task = some (message, event) → st.stillInside event = false →
      step topology ext st (.work (.report task answers)) = some t →
      t.db = st.db ∨ ¬ t.contributions.Nodup := by
  refine ⟨fun hmeets => ?_, ?_⟩
  · refine (machine topology ext).always_of_meets
      (I := fun st => Attributed ext db.logs st ∧ st.contributions.Nodup) ?_ ?_ ?_ hmeets
    · intro s a t hs hguard hstep
      have hcases := step_cases hstep
      exact ⟨hs.1.step hcases, nodup_of_step hs.1.tracked hguard hcases hs.2⟩
    · exact fun s hs => ⟨hs.2, hs.1.logs⟩
    · exact ⟨attributed_start ext topology db snapshot, List.nodup_nil⟩
  · intro st task answers message event t hrun hjob hleft hstep
    have h : Attributed ext db.logs st :=
      (machine topology ext).run_invariant (fun _ _ _ hs hst => hs.step (step_cases hst))
        (attributed_start ext topology db snapshot) hrun
    exact h.not_nodup_of_left hjob hleft (step_cases hstep)

private def solo : Topology := ⟨fun _ => 0, [0], 10⟩

private def position (seq : Nat) (lng : ℚ) : LocationEventV1 :=
  { eventId := 0, userId := "u", deviceId := some "d", seq, lat := 1, lng, receivedAt := seq }

/-- One whole task: delivered, let through and committed. -/
private def taskRun (task : Nat) : List PipelineAction :=
  [.deliver 0, .work (.start task), .work (.gate task none), .work (.report task {}),
    .work (.finish task), .work (.settle task)]

/-- The crash takes the ack with it; the event comes back and finds its own presence row. -/
private def absorbedRun : List PipelineAction :=
  .publish (position 1 1) :: taskRun 0 ++ .crash ⟨1, sampleAreas⟩ :: taskRun 0

theorem log_rows_once_absorbed :
    (machine solo .reference).Always (fun st => st.contributions.Nodup ∧
        st.db.logs.map (·.areaId) = [] ++ st.contributions.map (·.2))
      (start solo (.initial sampleAreas) ⟨1, sampleAreas⟩) absorbedRun ∧
    ∃ st, (machine solo .reference).run (start solo (.initial sampleAreas) ⟨1, sampleAreas⟩)
        absorbedRun = some st ∧ st.contributions = [(0, "a")] ∧ st.acked = [] := by
  refine ⟨(log_rows_once solo .reference _ _ absorbedRun).1 (by decide +kernel), ?_⟩
  have hend : ((machine solo .reference).run (start solo (.initial sampleAreas) ⟨1, sampleAreas⟩)
      absorbedRun).any (fun st => decide (st.contributions = [(0, "a")] ∧ st.acked = [])) = true := by
    decide +kernel
  exact Machine.exists_end _ hend

/-- An entry and the exit after it are both committed before the crash, so the entry that comes
back is an entry again. -/
theorem redelivered_entry_logged_twice :
    ∃ st, (machine solo .reference).run (start solo (.initial sampleAreas) ⟨1, sampleAreas⟩)
        ([.publish (position 1 1), .publish (position 2 50)] ++ taskRun 0 ++ taskRun 1 ++
          .crash ⟨1, sampleAreas⟩ :: taskRun 0) = some st ∧
      st.contributions = [(0, "a"), (0, "a")] ∧ ¬ st.contributions.Nodup ∧
      st.db.logs.length = 2 := by
  have hend : ((machine solo .reference).run (start solo (.initial sampleAreas) ⟨1, sampleAreas⟩)
      ([.publish (position 1 1), .publish (position 2 50)] ++ taskRun 0 ++ taskRun 1 ++
        .crash ⟨1, sampleAreas⟩ :: taskRun 0)).any (fun st =>
          decide (st.contributions = [(0, "a"), (0, "a")] ∧ ¬ st.contributions.Nodup ∧
            st.db.logs.length = 2)) = true := by
    decide +kernel
  exact Machine.exists_end _ hend

end Pipeline

end Geofence
