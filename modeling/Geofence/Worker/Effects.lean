import Geofence.Worker.EventPath
import Geofence.Worker.Redelivery
/-!
# The log rows of an accepted event

What the events the API has accepted leave in `logs`, over every run of the API, the broker and
the worker: a row carries what its event was accepted with, and a redelivered event may be logged
again, but never more often than it was delivered.
-/

namespace Geofence

open Framework

/-- The log row of an event and one of the areas it has entered. -/
def LocationEventV1.logRow (event : LocationEventV1) (areaId : AreaId) : LogRow :=
  ⟨event.userId, areaId, event.receivedAt, event.capturedAt⟩

/-! ## What a report adds to the log -/

private theorem logRow_of_callOf {ext : Externals} {snapshot : Option Snapshot}
    {event : LocationEventV1} {call : ReportCall} (hcall : callOf ext snapshot event = .ok call) :
    call.logRow = event.logRow := by
  obtain ⟨hdto, hrecordedAt, -⟩ := callOf_ok hcall
  funext areaId
  rw [ReportCall.logRow, ReportCall.capturedAt, hdto, hrecordedAt]
  simp only [LocationEventV1.reportDto, Option.or_none, LocationEventV1.logRow]

namespace ConsumerRun

/-- No frame has settled the delivery. -/
def pending (sent : List Frame) (message : ConsumeMessage) : Bool :=
  !(sent.map (·.tag)).contains message.deliveryTag

/-- The events whose deliveries the worker has not settled. -/
def unreported (st : ConsumerRun) : List Nat :=
  Pipeline.idsOf (st.delivered.filter (pending st.sent))

variable {ext : Externals} {st t : ConsumerRun}

theorem pending_eq_true {sent : List Frame} {message : ConsumeMessage} :
    pending sent message = true ↔ message.deliveryTag ∉ sent.map (·.tag) := by
  rw [pending, Bool.not_eq_true', ← Bool.not_eq_true, List.contains_iff_mem]

private theorem unreported_of_sent {more : List Frame} (hdelivered : t.delivered = st.delivered)
    (hsent : t.sent = st.sent ++ more) (k : Nat) :
    t.unreported.count k ≤ st.unreported.count k := by
  apply List.Sublist.count_le
  rw [unreported, unreported, hdelivered, hsent]
  apply List.Sublist.filterMap
  apply List.monotone_filter_right
  intro message hmessage
  rw [pending_eq_true] at hmessage ⊢
  rw [List.map_append] at hmessage
  exact fun hmem => hmessage (List.mem_append_left _ hmem)

private theorem unreported_of_report (h : Accounted st) {task : Nat} {answers : Answers}
    {message : ConsumeMessage} {event : LocationEventV1}
    (hjob : st.job task = some (message, event))
    (hstep : ConsumerStep ext st (.report task answers) t) (k : Nat) :
    t.unreported.count k + [event.eventId].count k = st.unreported.count k := by
  cases hstep with
  | reported _ _ message' event' consumer outcome hwork hjob' hreport =>
    cases hjob.symm.trans hjob'
    obtain ⟨hmessage, hparse⟩ := message?_of_job hjob
    have hdelivered := (h.mem_delivered hmessage).1
    have hnodup : st.delivered.Nodup := List.Nodup.of_map _ h.tags_nodup
    have hunsent : message.deliveryTag ∉ st.sent.map (·.tag) := by
      apply h.tag_unsent hmessage
      rw [hwork]
      decide
    let sent : List Frame := st.sent ++ [⟨message.deliveryTag, some task, outcome.settlement⟩]
    have hperm : (st.delivered.filter (pending st.sent)).Perm
        (message :: st.delivered.filter (pending sent)) := by
      refine filter_perm_cons hdelivered hnodup (pending_eq_true.mpr hunsent) ?_ ?_
      · rw [← Bool.not_eq_true, pending_eq_true, not_not, List.map_append]
        exact List.mem_append_right _ (List.mem_singleton_self _)
      · intro other hother hne
        have htag : other.deliveryTag ≠ message.deliveryTag :=
          fun heq => hne (h.eq_of_tag hother hdelivered heq)
        rw [Bool.eq_iff_iff, pending_eq_true, pending_eq_true, List.map_append, List.mem_append,
          List.map_singleton, List.mem_singleton, not_or]
        exact and_iff_left htag
    have hids := hperm.filterMap fun m => m.content.parse.map (·.eventId)
    rw [List.filterMap_cons_some (by rw [hparse, Option.map_some])] at hids
    have hcount := hids.count_eq k
    rw [← List.singleton_append, List.count_append] at hcount
    exact (Nat.add_comm _ _).trans hcount.symm

private theorem unreported_of_deliver {message : ConsumeMessage}
    (hdelivered : t.delivered = st.delivered ++ [message]) (hsent : t.sent = st.sent) (k : Nat) :
    t.unreported.count k ≤ st.unreported.count k + (Pipeline.idsOf [message]).count k := by
  rw [unreported, unreported, hdelivered, hsent, List.filter_append, Pipeline.idsOf_append,
    List.count_append]
  exact Nat.add_le_add_left (List.Sublist.count_le k (List.filter_sublist.filterMap _)) _

private theorem sent_of_step {action : ConsumerAction} (hstep : ConsumerStep ext st action t) :
    ∃ more, t.sent = st.sent ++ more := by
  cases hstep with
  | malformed | gated | reported => exact ⟨_, rfl⟩
  | _ => exact ⟨[], (List.append_nil _).symm⟩

private theorem sent_of_deliver {consumerTag : Nat} {content : Content} {event : LocationEventV1}
    (hparse : content.parse = some event)
    (hstep : ConsumerStep ext st (.deliver consumerTag content) t) : t.sent = st.sent := by
  cases hstep with
  | malformed _ _ _ hnone =>
    rw [hparse] at hnone
    cases hnone
  | enqueued => rfl

end ConsumerRun

namespace Pipeline

variable {topology : Topology} {ext : Externals} {st t : Pipeline}

/-- The log row of a recorded contribution. -/
def logRowOf (published : List LocationEventV1) (entry : Nat × AreaId) : Option LogRow :=
  (published[entry.1]?).map fun event => event.logRow entry.2

/-- Every log row the run added is that of a published event and an area. -/
structure Recorded (logs : List LogRow) (st : Pipeline) : Prop where
  rows : st.db.logs.map some = logs.map some ++ st.contributions.map (logRowOf st.published)
  known : ∀ entry ∈ st.contributions, entry.1 < st.published.length

private theorem recorded_start (topology : Topology) (db : Database) (snapshot : Snapshot) :
    Recorded db.logs (start topology db snapshot) :=
  ⟨(List.append_nil _).symm, fun _ hentry => by cases hentry⟩

private theorem getElem?_eventId (h : Tracked st) {event : LocationEventV1}
    (hevent : event ∈ st.published) : st.published[event.eventId]? = some event := by
  obtain ⟨k, hk⟩ := List.mem_iff_getElem?.mp hevent
  rw [eventId_of_published h hk]
  exact hk

private theorem published_of_step {action : PipelineAction} (hstep : PipelineStep ext st action t) :
    ∃ more, t.published = st.published ++ more := by
  cases hstep with
  | published event => exact ⟨_, rfl⟩
  | pushed _ _ _ _ _ _ hsame => exact ⟨[], hsame.published.trans (List.append_nil _).symm⟩
  | worked => exact ⟨[], (List.append_nil _).symm⟩
  | received _ _ hsame => exact ⟨[], hsame.published.trans (List.append_nil _).symm⟩
  | swapped => exact ⟨[], (List.append_nil _).symm⟩
  | crashed _ _ _ _ _ hsame => exact ⟨[], hsame.published.trans (List.append_nil _).symm⟩

theorem Recorded.logRowOf_append {logs : List LogRow} (h : Recorded logs st)
    (more : List LocationEventV1) : st.contributions.map (logRowOf (st.published ++ more)) =
      st.contributions.map (logRowOf st.published) := by
  apply List.map_congr_left
  intro entry hentry
  rw [logRowOf, logRowOf, List.getElem?_append_left (h.known entry hentry)]

theorem Recorded.step {logs : List LogRow} {action : PipelineAction} (h : Recorded logs st)
    (htracked : Tracked st) (hstep : PipelineStep ext st action t) : Recorded logs t := by
  obtain ⟨more, hpublished⟩ := published_of_step hstep
  have hlength : st.published.length ≤ t.published.length := by
    rw [hpublished, List.length_append]
    exact Nat.le_add_right _ _
  cases tableStep_of_step htracked hstep with
  | same hdb hsnapshot happlied hcontributions =>
    refine ⟨?_, ?_⟩
    · rw [hdb, hcontributions, hpublished, h.logRowOf_append more]
      exact h.rows
    · rw [hcontributions]
      exact fun entry hentry => Nat.lt_of_lt_of_le (h.known entry hentry) hlength
  | applied task answers message event call result haction hjob hcall happ hsnapshot happlied
      hcontributions =>
    have hevent : event ∈ st.published := htracked.job_published hjob
    have hindex := getElem?_eventId htracked hevent
    have hlt := (List.getElem?_eq_some_iff.mp hindex).1
    have hnew : (result.enteredAreaIds.map fun areaId => (event.eventId, areaId)).map
        (logRowOf t.published) = (result.enteredAreaIds.map call.logRow).map some := by
      rw [List.map_map, List.map_map, logRow_of_callOf hcall]
      apply List.map_congr_left
      intro areaId _
      simp only [Function.comp_apply, logRowOf, hpublished, List.getElem?_append_left hlt, hindex,
        Option.map_some]
    refine ⟨?_, ?_⟩
    · rw [happ.logs, hcontributions, List.map_append, List.map_append, hnew, hpublished,
        h.logRowOf_append more, h.rows, List.append_assoc]
    · rw [hcontributions]
      intro entry hentry
      rcases List.mem_append.mp hentry with hold | hnew
      · exact Nat.lt_of_lt_of_le (h.known entry hold) hlength
      · obtain ⟨areaId, -, rfl⟩ := List.mem_map.mp hnew
        exact Nat.lt_of_lt_of_le hlt hlength

private theorem count_entered {areaIds : List AreaId} (hnodup : areaIds.Nodup) (eventId k : Nat)
    (areaId : AreaId) : (areaIds.map fun a => (eventId, a)).count (k, areaId) ≤
      [eventId].count k := by
  by_cases hk : eventId = k
  · subst hk
    have hmap : (areaIds.map fun a => (eventId, a)).Nodup :=
      hnodup.map fun a b heq => (Prod.mk.inj heq).2
    rw [List.count_singleton_self]
    exact List.nodup_iff_count_le_one.mp hmap _
  · have hnot : (k, areaId) ∉ areaIds.map fun a => (eventId, a) := by
      intro hmem
      obtain ⟨a, -, heq⟩ := List.mem_map.mp hmem
      exact hk (Prod.mk.inj heq).1
    rw [List.count_eq_zero.mpr hnot]
    exact Nat.zero_le _

/-- The contributions of an event to an area are paid for by its deliveries: those the worker has
not reported, and those an action adds. -/
private theorem contributions_of_step {action : PipelineAction} (h : Tracked st)
    (hstep : PipelineStep ext st action t) (k : Nat) (areaId : AreaId) :
    t.contributions.count (k, areaId) + t.worker.unreported.count k ≤
      st.contributions.count (k, areaId) + st.worker.unreported.count k +
        (attempted st t).count k := by
  cases hstep with
  | published event => exact Nat.le_add_right _ _
  | pushed _ _ event partition hpublished hwork hsame =>
    have hdeliver := ConsumerRun.step_cases hwork
    have hdelivered := Tracked.delivered_of_deliver hdeliver
    have hle := ConsumerRun.unreported_of_deliver hdelivered
      (ConsumerRun.sent_of_deliver rfl hdeliver) k
    rw [hsame.contributions, attempted, hdelivered, List.drop_left]
    omega
  | worked action worker hwork hcons =>
    have hcases := ConsumerRun.step_cases hcons
    have hdelivered : worker.delivered = st.worker.delivered := by
      apply Tracked.delivered_of_step hcases
      rintro consumerTag content rfl
      cases hwork
    obtain ⟨more, hsent⟩ := ConsumerRun.sent_of_step hcases
    have hle := ConsumerRun.unreported_of_sent hdelivered hsent k
    cases tableStep_of_step h (.worked action worker hwork hcons) with
    | same _ _ _ hcontributions =>
      rw [hcontributions]
      exact Nat.le_add_right_of_le (Nat.add_le_add_left hle _)
    | applied task answers message event call result haction hjob hcall happ hsnapshot happlied
        hcontributions =>
      cases haction
      have hreport := ConsumerRun.unreported_of_report h.worker.accounted hjob hcases k
      have hentered := count_entered happ.nodup event.eventId k areaId
      rw [hcontributions, List.count_append]
      change _ + worker.unreported.count k ≤ _
      omega
  | received _ hworker hsame =>
    rw [hsame.contributions, hworker]
    exact Nat.le_add_right _ _
  | swapped snapshot worker hadmits hcons =>
    cases ConsumerRun.step_cases hcons
    exact Nat.le_add_right _ _
  | crashed snapshot _ consumerTags hadmits hworker hsame =>
    have hnone : t.worker.unreported = [] := by
      rw [hworker]
      rfl
    rw [hsame.contributions, hnone, List.count_nil]
    omega

end Pipeline

namespace EventPath

variable {topology : Topology} {ext : Externals} {policy : RetryPolicy} {st t : EventPath}

/-- What every reachable state keeps of the log. -/
structure Logged (topology : Topology) (policy : RetryPolicy) (logs : List LogRow)
    (st : EventPath) : Prop where
  accounts : Accounts topology policy st
  recorded : Pipeline.Recorded logs st.pipeline
  paid : ∀ k areaId, st.pipeline.contributions.count (k, areaId) +
    st.pipeline.worker.unreported.count k ≤ st.deliveries k

private theorem logged_start (topology : Topology) (policy : RetryPolicy) (db : Database)
    (snapshot : Snapshot) : Logged topology policy db.logs (start topology db snapshot) :=
  ⟨accounts_start topology policy db snapshot,
    Pipeline.recorded_start topology db snapshot, fun _ _ => Nat.le_refl 0⟩

theorem Logged.of_pipeline {logs : List LogRow} {action : PipelineAction} {pipeline : Pipeline}
    (h : Logged topology policy logs st)
    (hstep : st.pipeline.step topology ext action = some pipeline) :
    Pipeline.Recorded logs pipeline ∧ ∀ k areaId,
      pipeline.contributions.count (k, areaId) + pipeline.worker.unreported.count k ≤
        st.deliveries k + (st.pipeline.attempted pipeline).count k := by
  have htracked := h.accounts.brokered.tracked
  have hcases := Pipeline.step_cases hstep
  refine ⟨h.recorded.step htracked hcases, fun k areaId => ?_⟩
  have hpaid := h.paid k areaId
  have hadded := Pipeline.contributions_of_step htracked hcases k areaId
  omega

theorem Logged.step {logs : List LogRow} {action : EventPathAction}
    (h : Logged topology policy logs st)
    (hstep : EventPath.step topology ext policy st action = some t) :
    Logged topology policy logs t := by
  have haccounts := h.accounts.step hstep
  cases action with
  | api action =>
    by_cases hstored : ∃ i partition, action = .brokerReceives i (.routed partition)
    · obtain ⟨i, partition, rfl⟩ := hstored
      simp only [EventPath.step] at hstep
      split at hstep
      · cases hstep
      · split at hstep
        · obtain ⟨next, -, hrest⟩ := Option.bind_eq_some_iff.mp hstep
          obtain ⟨pipeline, hpublish, rfl⟩ := Option.map_eq_some_iff.mp hrest
          obtain ⟨hrecorded, -⟩ := h.of_pipeline hpublish
          cases hpublish
          exact ⟨haccounts, hrecorded, h.paid⟩
        · cases hstep
    · obtain ⟨next, -, rfl⟩ := map_of_step_api hstored hstep
      exact ⟨haccounts, h.recorded, h.paid⟩
  | pipeline action =>
    by_cases hpublish : ∃ event, action = .publish event
    · obtain ⟨event, rfl⟩ := hpublish
      cases hstep
    · have hother : ∀ event, action ≠ .publish event := fun event heq => hpublish ⟨event, heq⟩
      obtain ⟨pipeline, hnext, rfl⟩ := map_of_step_pipeline hother hstep
      obtain ⟨hrecorded, hpaid⟩ := h.of_pipeline hnext
      exact ⟨haccounts, ⟨hrecorded.rows, hrecorded.known⟩, hpaid⟩

private theorem logged_of_run {db : Database} {snapshot : Snapshot} {actions : List EventPathAction}
    (hrun : (machine topology ext policy).run (start topology db snapshot) actions =
      some st) : Logged topology policy db.logs st :=
  (machine topology ext policy).run_invariant (fun _ _ _ h hstep => h.step hstep)
    (logged_start topology policy db snapshot) hrun

/-- What the accepted events have left in the log. -/
structure LogsAccepted (policy : RetryPolicy) (logs : List LogRow) (st : EventPath) : Prop where
  /-- The rows added are the recorded ones, in their order: each is the row of an area and of an
  event that a call of the API was given, with the user, the time of acceptance and the
  `capturedAt` of the call. -/
  rows : ∃ added, st.pipeline.db.logs = logs ++ added ∧
    List.Forall₂ (fun (row : LogRow) (entry : Nat × AreaId) => ∃ (i partition : Nat)
      (call : PublishCall), st.api.calls[i]? = some call ∧
        st.api.queues[entry.1]? = some (partition, call.event) ∧
        row = call.event.logRow entry.2) added st.pipeline.contributions
  /-- An event is logged for an area at most once for each time it was delivered. -/
  attempts : ∀ k areaId, st.pipeline.contributions.count (k, areaId) ≤ st.deliveries k
  bounded : ∀ deliveryLimit, policy.Within deliveryLimit → ∀ k areaId,
    st.pipeline.contributions.count (k, areaId) ≤ deliveryLimit + 1

theorem Accounts.logRowOf (h : Accounts topology policy st) {row : LogRow}
    {entry : Nat × AreaId} (hrow : some row = Pipeline.logRowOf st.pipeline.published entry) :
    ∃ (i partition : Nat) (call : PublishCall), st.api.calls[i]? = some call ∧
      st.api.queues[entry.1]? = some (partition, call.event) ∧ row = call.event.logRow entry.2 := by
  obtain ⟨event, hpublished, heq⟩ := Option.map_eq_some_iff.mp hrow.symm
  rw [h.queues, List.getElem?_mapIdx] at hpublished
  obtain ⟨⟨partition, accepted⟩, hqueue, rfl⟩ := Option.map_eq_some_iff.mp hpublished
  obtain ⟨i, call, hcall, rfl, -⟩ :=
    (h.sound.queued partition accepted).mp (List.mem_of_getElem? hqueue)
  exact ⟨i, partition, call, hcall, hqueue, heq.symm⟩

theorem logs_of_accepted_events (topology : Topology) (ext : Externals) (policy : RetryPolicy)
    (db : Database) (snapshot : Snapshot) (actions : List EventPathAction) (st : EventPath)
    (hrun : (machine topology ext policy).run (start topology db snapshot) actions =
      some st) :
    LogsAccepted policy db.logs st := by
  have h := logged_of_run hrun
  have hattempts : ∀ k areaId, st.pipeline.contributions.count (k, areaId) ≤ st.deliveries k :=
    fun k areaId => Nat.le_of_add_right_le (h.paid k areaId)
  refine ⟨?_, hattempts, fun _ hwithin k areaId =>
    (hattempts k areaId).trans (h.accounts.deliveries_le hwithin k)⟩
  obtain ⟨old, added, hlogs, hold, hadded⟩ := List.map_eq_append_iff.mp h.recorded.rows
  have heq : old = db.logs := List.map_injective_iff.mpr (Option.some_injective _) hold
  subst heq
  refine ⟨added, hlogs, ?_⟩
  have hpairs : List.Forall₂
      (fun row entry => some row = Pipeline.logRowOf st.pipeline.published entry)
      added st.pipeline.contributions := by
    rw [← List.forall₂_map_right_iff, ← List.forall₂_map_left_iff, hadded]
    exact List.forall₂_refl _
  exact hpairs.imp fun _ _ hrow => h.accounts.logRowOf hrow

private def prefetchQueue : Topology := ⟨fun _ => 0, [0], 10⟩

private def acceptAt (call : Nat) (lng : ℚ) : List EventPathAction :=
  [.api (.accept { userId := "u", lat := 1, lng } call none),
    .api (.brokerReceives call (.routed 0))]

private def processTask (task : Nat) : List EventPathAction :=
  [.work (.start task), .work (.gate task none), .work (.report task {}), .work (.finish task),
    .work (.settle task)].map .pipeline

/-- The acks of an entry and of the exit after it are lost with the connection. -/
private def enteredTwice : List EventPathAction :=
  acceptAt 0 1 ++ acceptAt 1 50 ++ [.pipeline (.deliver 0), .pipeline (.deliver 0)] ++
    processTask 0 ++ processTask 1 ++
      [.pipeline (.crash ⟨1, sampleAreas⟩), .pipeline (.deliver 0)] ++ processTask 0

/-- The bound is attained: with a limit of one, an entry is logged twice. -/
theorem logs_of_accepted_events_enteredTwice :
    ∃ st, (machine prefetchQueue .reference (.limit 1)).run
        (start prefetchQueue (.initial sampleAreas) ⟨1, sampleAreas⟩) enteredTwice = some st ∧
      LogsAccepted (.limit 1) [] st ∧ (RetryPolicy.limit 1).Within 1 ∧
      st.pipeline.contributions.count (0, "a") = 2 := by
  have hend : ((machine prefetchQueue .reference (.limit 1)).run
      (start prefetchQueue (.initial sampleAreas) ⟨1, sampleAreas⟩) enteredTwice).any (fun st =>
        decide (st.pipeline.contributions.count (0, "a") = 2)) = true := by
    decide +kernel
  obtain ⟨st, hrun, hst⟩ := Machine.exists_end _ hend
  exact ⟨st, hrun, logs_of_accepted_events _ _ _ _ _ _ st hrun, RetryPolicy.within_limit 1, hst⟩

end EventPath

end Geofence
