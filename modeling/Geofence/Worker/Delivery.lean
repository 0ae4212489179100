import Geofence.Worker.Settlement
/-!
# The broker and the worker

Partition queues in publish order, deliveries under the prefetch budget, nacked messages that
come back at any later point, frames that travel to the broker, and crashes that take the
worker's memory and the frames still under way with them. The events whose transition reached
the tables are recorded in the order they did, with the log rows each one added.
-/

namespace Geofence

open Framework

/-- What the deployment fixes: the exchange's placement of users, the worker's partitions, and
its prefetch. -/
structure Topology where
  partitionOf : UserId → Nat
  partitions : List Nat
  prefetch : Nat

/-- `ready` and `requeued` hold event ids; `framesSeen` counts the frames of the current channel
the broker has received. -/
structure Pipeline where
  worker : ConsumerRun
  published : List LocationEventV1
  ready : List Nat
  requeued : List Nat
  acked : List Nat
  framesSeen : Nat
  applied : List LocationEventV1
  contributions : List (Nat × AreaId)

inductive PipelineAction where
  | publish (event : LocationEventV1)
  | deliver (partition : Nat)
  | redeliver (eventId : Nat)
  | work (action : ConsumerAction)
  | receiveFrame
  | swapSnapshot (snapshot : Snapshot)
  | crash (snapshot : Snapshot)

/-- The actions of the worker process itself, while it runs. -/
def ConsumerAction.isWork : ConsumerAction → Bool
  | .start _ | .gate _ _ | .report _ _ | .finish _ | .settle _ | .cleanup _ => true
  | _ => false

namespace Pipeline

def start (topology : Topology) (db : Database) (snapshot : Snapshot) : Pipeline where
  worker := .start db snapshot topology.partitions
  published := []
  ready := []
  requeued := []
  acked := []
  framesSeen := 0
  applied := []
  contributions := []

/-- The deliveries of a partition whose frame has not reached the broker. -/
def unacked (st : Pipeline) (partition : Nat) : Nat :=
  (st.worker.delivered.filter fun message => message.queue = partition &&
    !((st.worker.sent.take st.framesSeen).map (·.tag)).contains message.deliveryTag).length

/-- The broker pushes an event to the worker, within the prefetch budget. -/
def push (st : Pipeline) (topology : Topology) (ext : Externals) (eventId : Nat) :
    Option Pipeline :=
  match st.published[eventId]? with
  | none => none
  | some event =>
    let partition := topology.partitionOf event.userId
    if st.unacked partition < topology.prefetch then
      (ConsumerRun.step ext st.worker (.deliver partition (.json 1 event))).map fun worker =>
        { st with
          worker
          ready := st.ready.erase eventId
          requeued := st.requeued.erase eventId }
    else none

/-- The first event in a partition queue. -/
def head? (st : Pipeline) (topology : Topology) (partition : Nat) : Option Nat :=
  st.ready.find? fun eventId =>
    (st.published[eventId]?).any fun event => topology.partitionOf event.userId = partition

/-- The event a `report` step is about, if the tables' presence rows changed in it. -/
def transition (before after : ConsumerRun) : ConsumerAction → List LocationEventV1
  | .report task _ =>
    match before.job task with
    | some (_, event) =>
      if after.consumer.service.db.presence.rows = before.consumer.service.db.presence.rows then []
      else [event]
    | none => []
  | _ => []

/-- The log rows a `report` step added, under the id of its event. -/
def contribution (before after : ConsumerRun) : ConsumerAction → List (Nat × AreaId)
  | .report task _ =>
    match before.job task with
    | some (_, event) =>
      (after.consumer.service.db.logs.drop before.consumer.service.db.logs.length).map fun row =>
        (event.eventId, row.areaId)
    | none => []
  | _ => []

/-- A worker step, with what it did to the tables recorded. -/
def work (st : Pipeline) (ext : Externals) (action : ConsumerAction) : Option Pipeline :=
  (ConsumerRun.step ext st.worker action).map fun worker =>
    { st with
      worker
      applied := st.applied ++ transition st.worker worker action
      contributions := st.contributions ++ contribution st.worker worker action }

/-- The id of the event behind a delivery tag of the current channel. -/
def eventIdOf (st : Pipeline) (tag : Nat) : Option Nat :=
  (st.worker.delivered.find? fun message => message.deliveryTag = tag).bind fun message =>
    message.content.parse.map (·.eventId)

def receiveFrame (st : Pipeline) : Option Pipeline :=
  match st.worker.sent[st.framesSeen]? with
  | none => none
  | some frame =>
    match st.eventIdOf frame.tag, frame.settlement with
    | some eventId, .ack =>
      some { st with framesSeen := st.framesSeen + 1, acked := st.acked ++ [eventId] }
    | some eventId, .nack _ =>
      some { st with framesSeen := st.framesSeen + 1, requeued := st.requeued ++ [eventId] }
    | none, _ => some { st with framesSeen := st.framesSeen + 1 }

/-- A new process on the committed tables; every message whose ack the broker has not received
is queued again, in the original order. -/
def crash (st : Pipeline) (topology : Topology) (snapshot : Snapshot) : Pipeline :=
  { st with
    worker := .start st.worker.consumer.service.db snapshot topology.partitions
    ready := (List.range st.published.length).filter fun eventId => !st.acked.contains eventId
    requeued := []
    framesSeen := 0 }

/-- Areas are only ever created, so a newer snapshot has every row of the one it replaces. -/
def admitsSnapshot (st : Pipeline) (snapshot : Snapshot) : Bool :=
  st.worker.consumer.service.snapshot.all fun older =>
    older.areas.rows.all fun row => decide (row ∈ snapshot.areas.rows)

def step (topology : Topology) (ext : Externals) (st : Pipeline) : PipelineAction → Option Pipeline
  | .publish event =>
    some { st with
      published := st.published ++ [{ event with eventId := st.published.length }]
      ready := st.ready ++ [st.published.length] }
  | .deliver partition => (st.head? topology partition).bind (st.push topology ext)
  | .redeliver eventId => if eventId ∈ st.requeued then st.push topology ext eventId else none
  | .work action => if action.isWork then st.work ext action else none
  | .receiveFrame => st.receiveFrame
  | .swapSnapshot snapshot =>
    if st.admitsSnapshot snapshot then
      (ConsumerRun.step ext st.worker (.swapSnapshot snapshot)).map fun worker => { st with worker }
    else none
  | .crash snapshot => if st.admitsSnapshot snapshot then some (st.crash topology snapshot) else none

def machine (topology : Topology) (ext : Externals) : Machine Pipeline PipelineAction :=
  ⟨step topology ext⟩

/-- The fields of the broker that no property of the tables depends on have changed only. -/
structure SameTables (st t : Pipeline) : Prop where
  published : t.published = st.published
  applied : t.applied = st.applied
  contributions : t.contributions = st.contributions

/-- Everything a step can do, less the broker's own bookkeeping. -/
inductive PipelineStep (ext : Externals) (st : Pipeline) : PipelineAction → Pipeline → Prop where
  | published (event : LocationEventV1) :
    PipelineStep ext st (.publish event)
      { st with
        published := st.published ++ [{ event with eventId := st.published.length }]
        ready := st.ready ++ [st.published.length] }
  | pushed (action : PipelineAction) (t : Pipeline) (event : LocationEventV1) (partition : Nat)
      (hpublished : event ∈ st.published)
      (hstep : ConsumerRun.step ext st.worker (.deliver partition (.json 1 event)) = some t.worker)
      (hsame : SameTables st t) : PipelineStep ext st action t
  | worked (action : ConsumerAction) (worker : ConsumerRun) (hwork : action.isWork = true)
      (hstep : ConsumerRun.step ext st.worker action = some worker) :
    PipelineStep ext st (.work action)
      { st with
        worker
        applied := st.applied ++ transition st.worker worker action
        contributions := st.contributions ++ contribution st.worker worker action }
  | received (t : Pipeline) (hworker : t.worker = st.worker) (hsame : SameTables st t) :
    PipelineStep ext st .receiveFrame t
  | swapped (snapshot : Snapshot) (worker : ConsumerRun) (hadmits : st.admitsSnapshot snapshot = true)
      (hstep : ConsumerRun.step ext st.worker (.swapSnapshot snapshot) = some worker) :
    PipelineStep ext st (.swapSnapshot snapshot) { st with worker }
  | crashed (snapshot : Snapshot) (t : Pipeline) (consumerTags : List Nat)
      (hadmits : st.admitsSnapshot snapshot = true)
      (hworker : t.worker = .start st.worker.consumer.service.db snapshot consumerTags)
      (hsame : SameTables st t) : PipelineStep ext st (.crash snapshot) t

private theorem pushed_of_push {topology : Topology} {ext : Externals} {st t : Pipeline}
    {eventId : Nat} (h : st.push topology ext eventId = some t) (action : PipelineAction) :
    PipelineStep ext st action t := by
  unfold push at h
  split at h
  · cases h
  · rename_i event hevent
    simp only at h
    split at h
    · obtain ⟨worker, hworker, rfl⟩ := Option.map_eq_some_iff.mp h
      exact .pushed action _ event _ (List.mem_of_getElem? hevent) hworker ⟨rfl, rfl, rfl⟩
    · cases h

theorem step_cases {topology : Topology} {ext : Externals} {st t : Pipeline}
    {action : PipelineAction} (h : step topology ext st action = some t) :
    PipelineStep ext st action t := by
  cases action with
  | publish event =>
    cases h
    exact .published event
  | deliver partition =>
    obtain ⟨eventId, -, hpush⟩ := Option.bind_eq_some_iff.mp h
    exact pushed_of_push hpush _
  | redeliver eventId =>
    simp only [step] at h
    split at h
    · exact pushed_of_push h _
    · cases h
  | work action =>
    simp only [step] at h
    split at h
    · rename_i hwork
      obtain ⟨worker, hworker, rfl⟩ := Option.map_eq_some_iff.mp h
      exact .worked action worker hwork hworker
    · cases h
  | receiveFrame =>
    simp only [step, receiveFrame] at h
    split at h
    · cases h
    · split at h <;> cases h <;> exact .received _ rfl ⟨rfl, rfl, rfl⟩
  | swapSnapshot snapshot =>
    simp only [step] at h
    split at h
    · rename_i hadmits
      obtain ⟨worker, hworker, rfl⟩ := Option.map_eq_some_iff.mp h
      exact .swapped snapshot worker hadmits hworker
    · cases h
  | crash snapshot =>
    simp only [step] at h
    split at h
    · rename_i hadmits
      cases h
      exact .crashed snapshot _ topology.partitions hadmits rfl ⟨rfl, rfl, rfl⟩
    · cases h

/-- Events are told by their ids, which number them as they were published, and everything the
worker holds or has applied was published. -/
structure Tracked (st : Pipeline) : Prop where
  worker : ConsumerRun.Disciplined st.worker
  ids : st.published.map (·.eventId) = List.range st.published.length
  delivered : ∀ message ∈ st.worker.delivered, ∀ event, message.content.parse = some event →
    event ∈ st.published
  applied : ∀ event ∈ st.applied, event ∈ st.published

namespace Tracked

variable {ext : Externals} {st t : Pipeline}

theorem eq_of_eventId (h : Tracked st) {e e' : LocationEventV1} (he : e ∈ st.published)
    (he' : e' ∈ st.published) (hid : e.eventId = e'.eventId) : e = e' := by
  have hnodup : (st.published.map (·.eventId)).Nodup := by
    rw [h.ids]
    exact List.nodup_range
  exact List.inj_on_of_nodup_map hnodup he he' hid

theorem job_published (h : Tracked st) {task : Nat} {message : ConsumeMessage}
    {event : LocationEventV1} (hjob : st.worker.job task = some (message, event)) :
    event ∈ st.published := by
  obtain ⟨hmessage, hparse⟩ := ConsumerRun.message?_of_job hjob
  exact h.delivered message (h.worker.accounted.mem_delivered hmessage).1 event hparse

private theorem transition_published (h : Tracked st) {worker : ConsumerRun}
    {action : ConsumerAction}
    {event : LocationEventV1} (hevent : event ∈ transition st.worker worker action) :
    event ∈ st.published := by
  cases action with
  | report task answers =>
    simp only [transition] at hevent
    split at hevent
    · rename_i message e hjob
      split at hevent
      · cases hevent
      · rw [List.mem_singleton] at hevent
        exact hevent ▸ h.job_published hjob
    · cases hevent
  | _ => cases hevent

theorem delivered_of_step {worker next : ConsumerRun} {action : ConsumerAction}
    (hstep : ConsumerRun.ConsumerStep ext worker action next)
    (hnot : ∀ consumerTag content, action ≠ .deliver consumerTag content) :
    next.delivered = worker.delivered := by
  cases hstep with
  | malformed consumerTag content hopen hparse => exact absurd rfl (hnot consumerTag content)
  | enqueued consumerTag content event hopen hparse => exact absurd rfl (hnot consumerTag content)
  | _ => rfl

theorem delivered_of_deliver {worker next : ConsumerRun} {consumerTag : Nat} {content : Content}
    (hstep : ConsumerRun.ConsumerStep ext worker (.deliver consumerTag content) next) :
    next.delivered = worker.delivered ++ [⟨worker.delivered.length + 1, consumerTag, content⟩] := by
  cases hstep with
  | malformed => rfl
  | enqueued => rfl

theorem step {action : PipelineAction} (h : Tracked st) (hstep : PipelineStep ext st action t) :
    Tracked t := by
  cases hstep with
  | published event =>
    refine ⟨h.worker, ?_, ?_, ?_⟩
    · rw [List.map_append, h.ids, List.map_singleton, List.length_append, List.length_singleton,
        List.range_succ]
    · intro message hmem e he
      exact List.mem_append_left _ (h.delivered message hmem e he)
    · intro e he
      exact List.mem_append_left _ (h.applied e he)
  | pushed _ _ event partition hpublished hwork hsame =>
    have hcases := ConsumerRun.step_cases hwork
    refine ⟨h.worker.step hcases, ?_, ?_, ?_⟩
    · rw [hsame.published]
      exact h.ids
    · rw [hsame.published, delivered_of_deliver hcases]
      intro message hmem e he
      rcases List.mem_append.mp hmem with hold | hnew
      · exact h.delivered message hold e he
      · rw [List.mem_singleton] at hnew
        subst hnew
        have heq : event = e := by simpa [Content.parse, LOCATION_EVENT_SCHEMA_VERSION] using he
        exact heq ▸ hpublished
    · rw [hsame.published, hsame.applied]
      exact h.applied
  | worked action worker hwork hcons =>
    have hcases := ConsumerRun.step_cases hcons
    refine ⟨h.worker.step hcases, h.ids, ?_, ?_⟩
    · have hdelivered : worker.delivered = st.worker.delivered := by
        apply delivered_of_step hcases
        rintro consumerTag content rfl
        cases hwork
      change ∀ message ∈ worker.delivered, _
      rw [hdelivered]
      exact h.delivered
    · intro e he
      rcases List.mem_append.mp he with hold | hnew
      · exact h.applied e hold
      · exact h.transition_published hnew
  | received _ hworker hsame =>
    refine ⟨hworker ▸ h.worker, ?_, ?_, ?_⟩
    · rw [hsame.published]
      exact h.ids
    · rw [hworker, hsame.published]
      exact h.delivered
    · rw [hsame.published, hsame.applied]
      exact h.applied
  | swapped snapshot worker hadmits hcons =>
    have hcases := ConsumerRun.step_cases hcons
    refine ⟨h.worker.step hcases, h.ids, ?_, h.applied⟩
    have hdelivered : worker.delivered = st.worker.delivered :=
      delivered_of_step hcases fun _ _ heq => nomatch heq
    change ∀ message ∈ worker.delivered, _
    rw [hdelivered]
    exact h.delivered
  | crashed snapshot _ consumerTags hadmits hworker hsame =>
    refine ⟨?_, ?_, ?_, ?_⟩
    · rw [hworker]
      exact ConsumerRun.disciplined_start _ _ _
    · rw [hsame.published]
      exact h.ids
    · rw [hworker]
      intro message hmem
      cases hmem
    · rw [hsame.published, hsame.applied]
      exact h.applied

end Tracked

theorem tracked_start (topology : Topology) (db : Database) (snapshot : Snapshot) :
    Tracked (start topology db snapshot) := by
  refine ⟨ConsumerRun.disciplined_start _ _ _, rfl, ?_, ?_⟩
  · intro message hmem
    cases hmem
  · intro event hmem
    cases hmem

end Pipeline

end Geofence
