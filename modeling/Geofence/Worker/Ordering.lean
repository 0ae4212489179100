import Geofence.Worker.Delivery
/-!
# Per-user order across retries

A user's chain runs one task at a time, so at most one event of a user is past the dedup gate.
A nack takes an event out of that order: when it comes back, later events of its user may have
been applied, and only the gate can keep it from being applied after them.
-/

namespace Geofence

open Framework

namespace ConsumerState

/-- The seq the gate compares an event with: the map's, or the table's on first sight. -/
def recordedSeq (st : ConsumerState) (userId : UserId) (deviceId : DeviceId) : Nat :=
  (st.lastSeqByDevice (dedupKey userId deviceId)).getD
    ((st.service.db.eventState.lastSeq? userId deviceId).getD 0)

/-- The event carries a device and a seq, and the worker has recorded one at least as high. -/
def absorbs (st : ConsumerState) (event : LocationEventV1) : Bool :=
  match event.deviceId, event.seq with
  | some deviceId, some seq => seq ≤ st.recordedSeq event.userId deviceId
  | _, _ => false

private theorem absorbs_of_gate {st after : ConsumerState} {event : LocationEventV1}
    {readError : Option PgError} (h : st.gate event readError = (after, none)) :
    st.absorbs event = false := by
  unfold gate isDuplicate at h
  unfold absorbs recordedSeq
  cases hdevice : event.deviceId with
  | none => rfl
  | some deviceId =>
    cases hseq : event.seq with
    | none => rfl
    | some seq =>
      simp only [hdevice, hseq] at h
      cases hlast : st.lastSeqByDevice (dedupKey event.userId deviceId) with
      | some last =>
        by_cases hle : seq ≤ last
        · simp [hlast, hle] at h
        · simp [hlast, hle]
      | none =>
        cases readError with
        | some e => simp [hlast] at h
        | none =>
          by_cases hle : seq ≤ (st.service.db.eventState.lastSeq? event.userId deviceId).getD 0
          · simp [hlast, hle] at h
          · simp [hlast, hle]

end ConsumerState

namespace ConsumerRun

/-- The task is past the gate with the event it was enqueued with. -/
def Reporting (st : ConsumerRun) (task : Nat) (event : LocationEventV1) : Prop :=
  st.work task = .reporting ∧ ∃ message, st.job task = some (message, event)

theorem job_congr {st t : ConsumerRun}
    (h : t.chains.tasks.map (·.payload) = st.chains.tasks.map (·.payload)) : t.job = st.job := by
  funext task
  have hpayload : (t.chains.tasks[task]?).map (·.payload) =
      (st.chains.tasks[task]?).map (·.payload) := by
    rw [← List.getElem?_map, h, List.getElem?_map]
  have hjob : ∀ run : ConsumerRun, run.job task = ((run.chains.tasks[task]?).map (·.payload)).bind
      fun payload => payload.content.parse.map fun event => (payload, event) := by
    intro run
    rw [job, Option.bind_map]
    rfl
  rw [hjob, hjob, hpayload]

namespace Accounted

variable {st : ConsumerRun}

theorem key?_of_job (h : Accounted st) {task : Nat} {message : ConsumeMessage}
    {event : LocationEventV1} (hjob : st.job task = some (message, event)) :
    st.chains.key? task = some event.userId := by
  obtain ⟨t, ht, hevent⟩ := Option.bind_eq_some_iff.mp hjob
  obtain ⟨e, he, heq⟩ := Option.map_eq_some_iff.mp hevent
  cases heq
  have hkeyed := h.keyed t (List.mem_of_getElem? ht)
  rw [he, Option.map_some, Option.some.injEq] at hkeyed
  rw [PromiseChains.key?, ht, Option.map_some, hkeyed]

private theorem eq_of_reporting (h : Accounted st) {i j : Nat} {e e' : LocationEventV1}
    (hi : st.Reporting i e) (hj : st.Reporting j e') (huser : e.userId = e'.userId) : i = j := by
  obtain ⟨hwork, message, hjob⟩ := hi
  obtain ⟨hwork', message', hjob'⟩ := hj
  have hkey : st.chains.key? i = st.chains.key? j := by
    rw [h.key?_of_job hjob, h.key?_of_job hjob', huser]
  apply h.bodies.eq_of_bodies hkey
  · rw [hwork]
    decide
  · rw [hwork]
    decide
  · rw [hwork']
    decide
  · rw [hwork']
    decide

/-- An event is past the gate because it was before the step, or the step let it through. -/
theorem reporting_of_step {ext : Externals} {t : ConsumerRun} {action : ConsumerAction}
    (h : Accounted st) (hstep : ConsumerStep ext st action t) {task : Nat}
    {event : LocationEventV1} (hreporting : t.Reporting task event) :
    st.Reporting task event ∨ ∃ readError message consumer, action = .gate task readError ∧
      st.job task = some (message, event) ∧
      st.consumer.gate event readError = (consumer, none) := by
  obtain ⟨hwork, message, hjob⟩ := hreporting
  have hmoved : ∀ (id : Nat) (chains : UserChains) (work : Nat → TaskWork),
      st.chains.Moved id chains → t.chains = chains → t.work = work →
      (work task = .reporting → st.work task = .reporting) → st.Reporting task event := by
    intro id chains work hmove hchains hw hback
    subst hchains hw
    have hsame : t.job = st.job := job_congr (hmove.map_eq fun _ payload => payload)
    exact ⟨hback hwork, message, hsame ▸ hjob⟩
  have hupdate : ∀ (id : Nat) (next : TaskWork), next ≠ .reporting →
      Function.update st.work id next task = .reporting → st.work task = .reporting := by
    intro id next hnext hupdated
    by_cases hid : task = id
    · rw [hid, Function.update_self] at hupdated
      exact absurd hupdated hnext
    · rwa [Function.update_of_ne hid] at hupdated
  cases hstep with
  | malformed consumerTag content hopen hparse => exact Or.inl ⟨hwork, message, hjob⟩
  | enqueued consumerTag content e hopen hparse =>
    have hlt : task < st.chains.tasks.length := by
      apply h.bodies.lt_length
      change st.work task = .reporting at hwork
      rw [hwork]
      decide
    refine Or.inl ⟨hwork, message, ?_⟩
    rwa [job, PromiseChains.append, List.getElem?_append_left hlt] at hjob
  | started id chains hstart =>
    exact Or.inl (hmoved id _ _ (PromiseChains.moved_of_start hstart) rfl rfl
      (hupdate id _ (by decide)))
  | passed id readError m e consumer hgating hgjob hgate =>
    by_cases hid : task = id
    · subst hid
      have hsame : (m, e) = (message, event) := Option.some.inj (hgjob.symm.trans hjob)
      cases hsame
      exact Or.inr ⟨readError, _, consumer, rfl, hgjob, hgate⟩
    · change Function.update st.work id .reporting task = .reporting at hwork
      rw [Function.update_of_ne hid] at hwork
      exact Or.inl ⟨hwork, message, hjob⟩
  | gated id readError m e consumer outcome hgating hgjob hgate =>
    exact Or.inl ⟨hupdate id _ (by decide) hwork, message, hjob⟩
  | reported id answers m e consumer outcome hgating hgjob hreport =>
    exact Or.inl ⟨hupdate id _ (by decide) hwork, message, hjob⟩
  | finished id chains hreturned hfinish =>
    exact Or.inl (hmoved id _ _ (PromiseChains.moved_of_finish hfinish) rfl rfl fun hw => hw)
  | settled id chains hsettle =>
    exact Or.inl (hmoved id _ _ (PromiseChains.moved_of_settle hsettle) rfl rfl fun hw => hw)
  | cleaned id chains hcleanup =>
    exact Or.inl (hmoved id _ _ (PromiseChains.moved_of_cleanup hcleanup) rfl rfl fun hw => hw)
  | swapSnapshot snapshot => exact Or.inl ⟨hwork, message, hjob⟩
  | shutdownCalled => exact Or.inl ⟨hwork, message, hjob⟩
  | cancelled tag remaining hpc => exact Or.inl ⟨hwork, message, hjob⟩
  | drained hpc => exact Or.inl ⟨hwork, message, hjob⟩
  | closed awaited hpc hsettled => exact Or.inl ⟨hwork, message, hjob⟩

end Accounted

end ConsumerRun

namespace Pipeline

/-- A later event of the same user has been applied. -/
def superseded (st : Pipeline) (event : LocationEventV1) : Bool :=
  st.applied.any fun e => e.userId = event.userId && event.eventId < e.eventId

/-- Each user's transitions were applied in publish order. -/
def AppliedInOrder (st : Pipeline) : Prop :=
  st.applied.Pairwise fun e e' => e.userId = e'.userId → e.eventId ≤ e'.eventId

instance (st : Pipeline) : Decidable (AppliedInOrder st) :=
  inferInstanceAs (Decidable (List.Pairwise _ _))

/-- Where the gate runs on a superseded event, it has recorded a seq that absorbs the event. -/
def lateAbsorbed (st : Pipeline) : PipelineAction → Bool
  | .work (.gate task _) => (st.worker.job task).all fun job =>
    !st.superseded job.2 || st.worker.consumer.absorbs job.2
  | _ => true

private theorem superseded_eq_true {st : Pipeline} {event : LocationEventV1} :
    st.superseded event = true ↔
      ∃ e ∈ st.applied, e.userId = event.userId ∧ event.eventId < e.eventId := by
  simp [superseded]

/-- No event past the gate is superseded. -/
structure InOrder (st : Pipeline) : Prop where
  tracked : Tracked st
  applied : AppliedInOrder st
  current : ∀ task event, st.worker.Reporting task event → st.superseded event = false

private theorem transition_cases (before after : ConsumerRun) (action : ConsumerAction) :
    transition before after action = [] ∨ ∃ task answers message event,
      action = .report task answers ∧ before.job task = some (message, event) ∧
      transition before after action = [event] := by
  cases action with
  | report task answers =>
    cases hjob : before.job task with
    | none => exact Or.inl (by rw [transition, hjob])
    | some job =>
      obtain ⟨message, event⟩ := job
      by_cases hsame : after.consumer.service.db.presence.rows =
          before.consumer.service.db.presence.rows
      · exact Or.inl (by simp only [transition, hjob, if_pos hsame])
      · exact Or.inr ⟨task, answers, message, event, rfl, hjob,
          by simp only [transition, hjob, if_neg hsame]⟩
  | _ => exact Or.inl rfl

namespace InOrder

variable {ext : Externals} {st t : Pipeline}

theorem of_applied_eq (h : InOrder st) (htracked : Tracked t) (happlied : t.applied = st.applied)
    (hcurrent : ∀ task event, t.worker.Reporting task event →
      st.worker.Reporting task event ∨ st.superseded event = false) : InOrder t := by
  refine ⟨htracked, ?_, ?_⟩
  · unfold AppliedInOrder
    rw [happlied]
    exact h.applied
  · intro task event hreporting
    unfold superseded
    rw [happlied]
    rcases hcurrent task event hreporting with hold | hnot
    · exact h.current task event hold
    · exact hnot

/-- The one step that applies an event is the report of the user's only task past the gate. -/
theorem report (h : InOrder st) {worker : ConsumerRun} {task : Nat} {answers : Answers}
    {event : LocationEventV1} {message : ConsumeMessage} (htracked : Tracked t)
    (hworker : t.worker = worker) (happlied : t.applied = st.applied ++ [event])
    (hjob : st.worker.job task = some (message, event))
    (hstep : ConsumerRun.ConsumerStep ext st.worker (.report task answers) worker) : InOrder t := by
  have hacc := h.tracked.worker.accounted
  obtain ⟨hworking, hover⟩ : st.worker.work task = .reporting ∧ worker.work task = .returned := by
    cases hstep with
    | reported _ _ m e consumer outcome hworking hjob' hreport =>
      exact ⟨hworking, Function.update_self ..⟩
  have hreporting : st.worker.Reporting task event := ⟨hworking, message, hjob⟩
  have hlast : ∀ e ∈ st.applied, e.userId = event.userId → e.eventId ≤ event.eventId := by
    intro e he huser
    by_contra hlt
    have hsup : st.superseded event = true :=
      superseded_eq_true.mpr ⟨e, he, huser, Nat.lt_of_not_le hlt⟩
    rw [h.current task event hreporting] at hsup
    cases hsup
  refine ⟨htracked, ?_, ?_⟩
  · unfold AppliedInOrder
    rw [happlied, List.pairwise_append]
    refine ⟨h.applied, List.pairwise_singleton _ _, ?_⟩
    intro e he e' he' huser
    rw [List.mem_singleton] at he'
    subst he'
    exact hlast e he huser
  · intro other e hother
    rw [hworker] at hother
    have hbefore : st.worker.Reporting other e := by
      rcases hacc.reporting_of_step hstep hother with hold | ⟨_, _, _, haction, _⟩
      · exact hold
      · cases haction
    have hne : event.userId ≠ e.userId := by
      intro huser
      have heq : other = task := hacc.eq_of_reporting hbefore hreporting huser.symm
      have hreturned := hother.1
      rw [heq, hover] at hreturned
      cases hreturned
    unfold superseded
    rw [happlied, List.any_append]
    have hold : (st.applied.any fun e' => e'.userId = e.userId && e.eventId < e'.eventId) = false :=
      h.current other e hbefore
    rw [hold]
    simp [hne]

theorem step {action : PipelineAction} (h : InOrder st) (hguard : st.lateAbsorbed action = true)
    (hstep : PipelineStep ext st action t) : InOrder t := by
  have htracked := h.tracked.step hstep
  have hacc := h.tracked.worker.accounted
  cases hstep with
  | published event =>
    exact h.of_applied_eq htracked rfl fun task e hreporting => Or.inl hreporting
  | pushed _ _ event partition hpublished hwork hsame =>
    refine h.of_applied_eq htracked hsame.applied fun task e hreporting => ?_
    rcases hacc.reporting_of_step (ConsumerRun.step_cases hwork) hreporting with
      hold | ⟨_, _, _, haction, _⟩
    · exact Or.inl hold
    · cases haction
  | worked action worker hwork hcons =>
    have hcases := ConsumerRun.step_cases hcons
    rcases transition_cases st.worker worker action with
      hnone | ⟨task, answers, message, event, rfl, hjob, hone⟩
    · refine h.of_applied_eq htracked ?_ ?_
      · change st.applied ++ transition st.worker worker action = st.applied
        rw [hnone, List.append_nil]
      · intro task event hreporting
        rcases hacc.reporting_of_step hcases hreporting with
          hold | ⟨readError, message, consumer, rfl, hjob, hgate⟩
        · exact Or.inl hold
        · right
          have hpassed := ConsumerState.absorbs_of_gate hgate
          simpa [lateAbsorbed, hjob, hpassed] using hguard
    · refine h.report htracked rfl ?_ hjob hcases
      change st.applied ++ transition st.worker worker _ = _
      rw [hone]
  | received _ hworker hsame =>
    refine h.of_applied_eq htracked hsame.applied fun task e hreporting => Or.inl ?_
    rwa [hworker] at hreporting
  | swapped snapshot worker hadmits hcons =>
    refine h.of_applied_eq htracked rfl fun task e hreporting => ?_
    rcases hacc.reporting_of_step (ConsumerRun.step_cases hcons) hreporting with
      hold | ⟨_, _, _, haction, _⟩
    · exact Or.inl hold
    · cases haction
  | crashed snapshot _ consumerTags hadmits hworker hsame =>
    refine h.of_applied_eq htracked hsame.applied fun task e hreporting => ?_
    rw [hworker] at hreporting
    cases hreporting.1

end InOrder

theorem inOrder_start (topology : Topology) (db : Database) (snapshot : Snapshot) :
    InOrder (start topology db snapshot) := by
  refine ⟨tracked_start topology db snapshot, List.Pairwise.nil, ?_⟩
  intro task event hreporting
  rfl

/-- In a run whose gate absorbs every late event, each user's transitions are applied in publish
order, in every state of the run. -/
theorem appliedInOrder_always (topology : Topology) (ext : Externals) (db : Database)
    (snapshot : Snapshot) (actions : List PipelineAction)
    (hlate : (machine topology ext).Meets (fun st action => st.lateAbsorbed action = true)
      (start topology db snapshot) actions) :
    (machine topology ext).Always (fun st => AppliedInOrder st ∧ st.applied ⊆ st.published ∧
      st.published.map (·.eventId) = List.range st.published.length)
      (start topology db snapshot) actions :=
  (machine topology ext).always_of_meets
    (fun _ _ _ hs hguard hstep => hs.step hguard (step_cases hstep))
    (fun _ h => ⟨h.applied, h.tracked.applied, h.tracked.ids⟩)
    (inOrder_start topology db snapshot) hlate

private def rightOf : Polygon :=
  ⟨⟨[⟨20, 0⟩, ⟨30, 0⟩, ⟨30, 10⟩, ⟨20, 10⟩, ⟨20, 0⟩], by decide, by decide +kernel⟩, []⟩

private def twoAreas : AreasTable := ⟨[⟨"a", squareWithHole⟩, ⟨"b", rightOf⟩], by decide⟩

private def onePartition : Topology := ⟨fun _ => 0, [0], 1⟩

/-- The first event's transaction fails, the second event is applied, the first comes back. -/
private def retryRun (first second : LocationEventV1) : List PipelineAction :=
  [.publish first, .publish second, .deliver 0, .work (.start 0), .work (.gate 0 none),
    .work (.report 0 { fate := .rolledBack ⟨"40001", none⟩ }), .work (.finish 0),
    .work (.settle 0), .receiveFrame, .deliver 0, .work (.start 1), .work (.gate 1 none),
    .work (.report 1 {}), .work (.finish 1), .work (.settle 1), .receiveFrame, .redeliver 0,
    .work (.start 2), .work (.gate 2 none)]

private def inA (deviceId : Option DeviceId) (seq : Option Nat) : LocationEventV1 :=
  { eventId := 0, userId := "u", deviceId, seq, lat := 1, lng := 1, receivedAt := 1 }

private def inB (deviceId : Option DeviceId) (seq : Option Nat) : LocationEventV1 :=
  { eventId := 0, userId := "u", deviceId, seq, lat := 1, lng := 25, receivedAt := 2 }

theorem appliedInOrder_always_oneDevice :
    (machine onePartition .reference).Always (fun st => AppliedInOrder st ∧
        st.applied ⊆ st.published ∧
        st.published.map (·.eventId) = List.range st.published.length)
      (start onePartition (.initial twoAreas) ⟨1, twoAreas⟩)
      (retryRun (inA (some "d") (some 1)) (inB (some "d") (some 2))) ∧
    ∃ st, (machine onePartition .reference).run
        (start onePartition (.initial twoAreas) ⟨1, twoAreas⟩)
        (retryRun (inA (some "d") (some 1)) (inB (some "d") (some 2))) = some st ∧
      st.applied.map (·.eventId) = [1] ∧ st.worker.sent.map (·.settlement) = [.nack true, .ack, .ack] := by
  refine ⟨appliedInOrder_always _ _ _ _ _ (by decide +kernel), ?_⟩
  have hend : ((machine onePartition .reference).run
      (start onePartition (.initial twoAreas) ⟨1, twoAreas⟩)
      (retryRun (inA (some "d") (some 1)) (inB (some "d") (some 2)))).any (fun st =>
        decide (st.applied.map (·.eventId) = [1] ∧
          st.worker.sent.map (·.settlement) = [.nack true, .ack, .ack])) = true := by
    decide +kernel
  exact Machine.exists_end _ hend

/-- Without a seq nothing stops the first event: its transition is applied after the second's,
and the user is left in the area of the older position. -/
theorem retried_event_applied_late :
    ∃ st, (machine onePartition .reference).run
        (start onePartition (.initial twoAreas) ⟨1, twoAreas⟩)
        (retryRun (inA none none) (inB none none) ++ [.work (.report 2 {})]) = some st ∧
      st.applied.map (·.eventId) = [1, 0] ∧ ¬ AppliedInOrder st ∧
      st.worker.consumer.service.db.presence.areaIds "u" = ["a"] := by
  have hend : ((machine onePartition .reference).run
      (start onePartition (.initial twoAreas) ⟨1, twoAreas⟩)
      (retryRun (inA none none) (inB none none) ++ [.work (.report 2 {})])).any (fun st =>
        decide (st.applied.map (·.eventId) = [1, 0] ∧ ¬ AppliedInOrder st ∧
          st.worker.consumer.service.db.presence.areaIds "u" = ["a"])) = true := by
    decide +kernel
  exact Machine.exists_end _ hend

end Pipeline

end Geofence
