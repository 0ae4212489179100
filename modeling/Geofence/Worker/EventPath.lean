import Geofence.Mq.Publisher
import Geofence.Worker.Delivery
/-!
# The way of an accepted event

The publisher of the API, the broker and the worker as one system. A nacked delivery comes back
to its queue, and so do all unsettled deliveries of a connection that is lost; which messages that
have come back leave their queue for good is the retry policy's, a parameter here.
-/

namespace Geofence

open Framework

namespace Pipeline

/-- The ids of deliveries. -/
def idsOf (messages : List ConsumeMessage) : List Nat :=
  messages.filterMap fun message => message.content.parse.map (·.eventId)

/-- The delivery's frame has not reached the broker. -/
def unsettled (st : Pipeline) (message : ConsumeMessage) : Bool :=
  !((st.worker.sent.take st.framesSeen).map (·.tag)).contains message.deliveryTag

def outstanding (st : Pipeline) : List Nat := idsOf (st.worker.delivered.filter st.unsettled)

/-- The messages an action brings back to their queues. -/
def returned (st t : Pipeline) : PipelineAction → List Nat
  | .receiveFrame => t.requeued.drop st.requeued.length
  | .crash _ => st.outstanding
  | _ => []

/-- The messages an action delivers. -/
def attempted (st t : Pipeline) : List Nat :=
  idsOf (t.worker.delivered.drop st.worker.delivered.length)

end Pipeline

/-- The event a worker step settles, with the outcome it is settled by. -/
def ConsumerRun.outcomes (ext : Externals) (st : ConsumerRun) :
    ConsumerAction → List (Nat × Outcome)
  | .gate task readError =>
    match st.work task, st.job task with
    | .gating, some (_, event) =>
      ((st.consumer.gate event readError).2.map fun outcome => (event.eventId, outcome)).toList
    | _, _ => []
  | .report task answers =>
    match st.work task, st.job task with
    | .reporting, some (_, event) =>
      [(event.eventId, (st.consumer.reportEvent ext event answers).2)]
    | _, _ => []
  | _ => []

/-- The retry policy `loc-partitions` as RabbitMQ applies it: whether a message that has come back
this often leaves its queue. -/
structure RetryPolicy where
  buries : Nat → Bool

/-- A delivery limit is what RabbitMQ documents of the policy: no message comes back to its queue
more often. -/
def RetryPolicy.Within (policy : RetryPolicy) (deliveryLimit : Nat) : Prop :=
  ∀ returns, deliveryLimit < returns → policy.buries returns = true

/-- The policy that buries a message at the first return beyond the limit. -/
def RetryPolicy.limit (deliveryLimit : Nat) : RetryPolicy :=
  ⟨fun returns => decide (deliveryLimit < returns)⟩

theorem RetryPolicy.within_limit (deliveryLimit : Nat) :
    (RetryPolicy.limit deliveryLimit).Within deliveryLimit :=
  fun _ hover => decide_eq_true hover

/-- `deliveries` and `returns` count how often a message was delivered and came back; `dead` are
the messages the retry policy has taken out of their queues; `handled` records what the worker
made of an event whenever it settled one. -/
structure EventPath where
  api : MqPublisher
  pipeline : Pipeline
  deliveries : Nat → Nat
  returns : Nat → Nat
  dead : List Nat
  handled : List (Nat × Outcome)

inductive EventPathAction where
  | api (action : PublisherAction)
  | pipeline (action : PipelineAction)

namespace EventPath

def start (topology : Topology) (db : Database) (snapshot : Snapshot) : EventPath where
  api := .start
  pipeline := .start topology db snapshot
  deliveries := fun _ => 0
  returns := fun _ => 0
  dead := []
  handled := []

/-- The retry policy is applied to the messages that have come back. -/
def enforce (policy : RetryPolicy) (st : EventPath) (returned : List Nat) : EventPath :=
  let returns := fun eventId => st.returns eventId + returned.count eventId
  let dead := st.dead ++ returned.filter fun eventId => policy.buries (returns eventId)
  { st with
    returns
    dead
    pipeline := { st.pipeline with
      ready := st.pipeline.ready.filter fun eventId => eventId ∉ dead
      requeued := st.pipeline.requeued.filter fun eventId => eventId ∉ dead } }

/-- The outcomes an action of the worker settles events by. -/
def settled (ext : Externals) (st : Pipeline) : PipelineAction → List (Nat × Outcome)
  | .work action => st.worker.outcomes ext action
  | _ => []

/-- The exchange puts a message into the queue its user's key is hashed to; nothing else is put
into a partition queue. -/
def step (topology : Topology) (ext : Externals) (policy : RetryPolicy) (st : EventPath) :
    EventPathAction → Option EventPath
  | .api (.brokerReceives i (.routed partition)) =>
    match st.api.calls[i]? with
    | none => none
    | some call =>
      if partition = topology.partitionOf call.event.userId then
        (st.api.step (.brokerReceives i (.routed partition))).bind fun api =>
          (st.pipeline.step topology ext (.publish call.event)).map fun pipeline =>
            { st with api, pipeline }
      else none
  | .api action => (st.api.step action).map fun api => { st with api }
  | .pipeline (.publish _) => none
  | .pipeline action =>
    (st.pipeline.step topology ext action).map fun pipeline =>
      enforce policy
        { st with
          pipeline
          deliveries := fun eventId =>
            st.deliveries eventId + (st.pipeline.attempted pipeline).count eventId
          handled := st.handled ++ settled ext st.pipeline action }
        (st.pipeline.returned pipeline action)

def machine (topology : Topology) (ext : Externals) (policy : RetryPolicy) :
    Machine EventPath EventPathAction :=
  ⟨step topology ext policy⟩

/-- In how many places a message is: in its queue, with the worker, acknowledged, dead. -/
def places (st : EventPath) (eventId : Nat) : Nat :=
  st.pipeline.ready.count eventId + st.pipeline.requeued.count eventId +
    st.pipeline.outstanding.count eventId + st.pipeline.acked.count eventId +
    st.dead.count eventId

end EventPath

/-! ## The broker's side of a delivery -/

theorem filter_perm_cons {α : Type*} {l : List α} {p q : α → Bool} {a : α} (hmem : a ∈ l)
    (hnodup : l.Nodup) (hp : p a = true) (hq : q a = false)
    (hother : ∀ b ∈ l, b ≠ a → q b = p b) : (l.filter p).Perm (a :: l.filter q) := by
  induction l with
  | nil => cases hmem
  | cons b l ih =>
    obtain ⟨hnot, hrest⟩ := List.nodup_cons.mp hnodup
    rcases List.mem_cons.mp hmem with rfl | hmem
    · rw [List.filter_cons_of_pos hp, List.filter_cons_of_neg (by simp [hq])]
      refine List.Perm.cons _ (List.Perm.of_eq (List.filter_congr fun c hc => ?_))
      exact (hother c (List.mem_cons_of_mem _ hc) fun heq => hnot (heq ▸ hc)).symm
    · have hne : b ≠ a := fun heq => hnot (heq ▸ hmem)
      have htail := ih hmem hrest fun c hc => hother c (List.mem_cons_of_mem _ hc)
      have hsame := hother b (by simp) hne
      cases hb : p b with
      | true =>
        rw [List.filter_cons_of_pos hb, List.filter_cons_of_pos (hsame.trans hb)]
        exact (htail.cons b).trans (List.Perm.swap a b _)
      | false =>
        rw [List.filter_cons_of_neg (by simp [hb]),
          List.filter_cons_of_neg (by simp [hsame, hb])]
        exact htail

namespace Pipeline

variable {topology : Topology} {ext : Externals} {st t : Pipeline}

theorem idsOf_append (first second : List ConsumeMessage) :
    idsOf (first ++ second) = idsOf first ++ idsOf second :=
  List.filterMap_append ..

/-- What the broker's own bookkeeping keeps, beside `Tracked`: it has seen a prefix of the frames
sent, and it delivers events only. -/
structure Brokered (st : Pipeline) : Prop where
  tracked : Tracked st
  seen : st.framesSeen ≤ st.worker.sent.length
  wire : ∀ message ∈ st.worker.delivered, ∃ event, message.content.parse = some event

private theorem brokered_start (topology : Topology) (db : Database) (snapshot : Snapshot) :
    Brokered (start topology db snapshot) := by
  refine ⟨tracked_start topology db snapshot, Nat.le_refl 0, ?_⟩
  intro message hmessage
  cases hmessage

theorem Brokered.message_of_frame (h : Brokered st) {frame : Frame}
    (hframe : frame ∈ st.worker.sent) :
    ∃ message ∈ st.worker.delivered, message.deliveryTag = frame.tag := by
  rcases h.tracked.worker.accounted.own frame hframe with
    ⟨task, message, -, hmessage, htag, -⟩ | ⟨-, message, hmessage, htag, -⟩
  · exact ⟨message, (h.tracked.worker.accounted.mem_delivered hmessage).1, htag⟩
  · exact ⟨message, hmessage, htag⟩

theorem Brokered.eventIdOf_tag (h : Brokered st) {message : ConsumeMessage}
    {event : LocationEventV1} (hmessage : message ∈ st.worker.delivered)
    (hevent : message.content.parse = some event) :
    st.eventIdOf message.deliveryTag = some event.eventId := by
  have hfind : st.worker.delivered.find? (fun m => m.deliveryTag = message.deliveryTag) =
      some message := by
    cases hfound : st.worker.delivered.find? fun m => m.deliveryTag = message.deliveryTag with
    | none =>
      have hnone := List.find?_eq_none.mp hfound message hmessage
      simp at hnone
    | some other =>
      have htag : other.deliveryTag = message.deliveryTag := by
        simpa using List.find?_some hfound
      rw [h.tracked.worker.accounted.eq_of_tag (List.mem_of_find?_eq_some hfound) hmessage htag]
  rw [eventIdOf, hfind, Option.bind_some, hevent, Option.map_some]

/-- What an action does to the ledger of messages that are not dead: `attempted` go from their
queue to the worker, `returned` go back, and the worker's may be acknowledged. -/
structure Transfer (dead : List Nat) (st t : Pipeline) (attempted returned : List Nat) : Prop where
  queued : ∀ k, k ∉ dead → t.ready.count k + t.requeued.count k + attempted.count k =
    st.ready.count k + st.requeued.count k + returned.count k
  held : ∀ k, t.outstanding.count k + t.acked.count k + returned.count k =
    st.outstanding.count k + st.acked.count k + attempted.count k
  published : t.published = st.published
  attempted : ∀ k ∈ attempted, k ∈ st.ready ∨ k ∈ st.requeued
  returned : ∀ k ∈ returned, k ∈ st.outstanding

theorem Transfer.same {dead : List Nat} (hready : t.ready = st.ready)
    (hrequeued : t.requeued = st.requeued) (hacked : t.acked = st.acked)
    (houtstanding : t.outstanding = st.outstanding) (hpublished : t.published = st.published) :
    Transfer dead st t [] [] := by
  refine ⟨?_, ?_, hpublished, ?_, ?_⟩
  · intro k _
    rw [hready, hrequeued]
  · intro k
    rw [houtstanding, hacked]
  · intro k hk
    cases hk
  · intro k hk
    cases hk

theorem eventId_of_published (h : Tracked st) {eventId : Nat} {event : LocationEventV1}
    (hevent : st.published[eventId]? = some event) : event.eventId = eventId := by
  have hlt := (List.getElem?_eq_some_iff.mp hevent).1
  have hid : (st.published.map (·.eventId))[eventId]? = some event.eventId := by
    rw [List.getElem?_map, hevent, Option.map_some]
  rw [h.ids, List.getElem?_range hlt, Option.some.injEq] at hid
  exact hid.symm

/-- A delivery takes one message out of its queue and gives it to the worker. -/
theorem Brokered.push (h : Brokered st) {dead : List Nat} {eventId : Nat}
    (hplaces : ∀ k, st.ready.count k + st.requeued.count k ≤ 1)
    (hfrom : eventId ∈ st.ready ∨ eventId ∈ st.requeued)
    (hpush : st.push topology ext eventId = some t) :
    Transfer dead st t (attempted st t) [] ∧ t.worker.sent = st.worker.sent ∧
      t.framesSeen = st.framesSeen ∧ ∃ message,
        t.worker.delivered = st.worker.delivered ++ [message] ∧ ∃ event,
          message.content.parse = some event := by
  unfold Pipeline.push at hpush
  split at hpush
  · cases hpush
  · rename_i event hevent
    simp only at hpush
    split at hpush
    · obtain ⟨worker, hworker, rfl⟩ := Option.map_eq_some_iff.mp hpush
      have hparse : (Content.json 1 event).parse = some event := rfl
      have hid := eventId_of_published h.tracked hevent
      have hdeliver : worker.delivered = st.worker.delivered ++
          [⟨st.worker.delivered.length + 1, topology.partitionOf event.userId, .json 1 event⟩] ∧
          worker.sent = st.worker.sent := by
        cases ConsumerRun.step_cases hworker with
        | malformed _ _ hopen hnone =>
          rw [hparse] at hnone
          cases hnone
        | enqueued _ _ e hopen hsome => exact ⟨rfl, rfl⟩
      have hnew : attempted st { st with
          worker, ready := st.ready.erase eventId, requeued := st.requeued.erase eventId } =
          [eventId] := by
        simp only [attempted, hdeliver.1, List.drop_left]
        simp [idsOf, hparse, hid]
      have houtstanding : outstanding { st with
          worker, ready := st.ready.erase eventId, requeued := st.requeued.erase eventId } =
          st.outstanding ++ [eventId] := by
        have hunsettled : unsettled { st with
            worker, ready := st.ready.erase eventId, requeued := st.requeued.erase eventId } =
            st.unsettled := by
          funext message
          simp only [unsettled, hdeliver.2]
        have hfresh : st.unsettled ⟨st.worker.delivered.length + 1,
            topology.partitionOf event.userId, .json 1 event⟩ = true := by
          rw [unsettled, Bool.not_eq_true', ← Bool.not_eq_true, List.contains_iff_mem]
          intro hmem
          obtain ⟨frame, hframe, htag⟩ := List.mem_map.mp hmem
          obtain ⟨message, hmessage, hmtag⟩ := h.message_of_frame (List.mem_of_mem_take hframe)
          have hle := h.tracked.worker.accounted.tag_le hmessage
          have heq : message.deliveryTag = st.worker.delivered.length + 1 := hmtag.trans htag
          omega
        rw [outstanding, hunsettled]
        simp only [hdeliver.1]
        rw [List.filter_append, idsOf_append, List.filter_cons_of_pos hfresh]
        simp [idsOf, hparse, hid, outstanding]
      rw [hnew]
      refine ⟨⟨?_, ?_, rfl, ?_, ?_⟩, hdeliver.2, rfl, _, hdeliver.1, event, rfl⟩
      · intro k _
        have hle := hplaces k
        simp only [List.count_erase, List.count_singleton, List.count_nil]
        by_cases hk : eventId = k
        · subst hk
          have hpos : 0 < st.ready.count eventId ∨ 0 < st.requeued.count eventId :=
            hfrom.imp List.count_pos_iff.mpr List.count_pos_iff.mpr
          simp only [beq_self_eq_true, if_true]
          omega
        · have hne : (eventId == k) = false := beq_false_of_ne hk
          simp only [hne, Bool.false_eq_true, if_false]
          omega
      · intro k
        rw [houtstanding, List.count_append, List.count_nil]
        simp only
        omega
      · intro k hk
        rw [List.mem_singleton] at hk
        exact hk ▸ hfrom
      · intro k hk
        cases hk
    · cases hpush

theorem attempted_eq_nil (hdelivered : t.worker.delivered = st.worker.delivered) :
    attempted st t = [] := by
  rw [attempted, hdelivered, List.drop_length]
  rfl

private theorem take_of_frame {frame : Frame}
    (hframe : st.worker.sent[st.framesSeen]? = some frame) :
    st.worker.sent.take (st.framesSeen + 1) = st.worker.sent.take st.framesSeen ++ [frame] := by
  rw [List.take_add_one, hframe, Option.toList_some]

private theorem Brokered.tag_fresh (h : Brokered st) {frame : Frame}
    (hframe : st.worker.sent[st.framesSeen]? = some frame) :
    frame.tag ∉ (st.worker.sent.take st.framesSeen).map (·.tag) := by
  have hnodup : ((st.worker.sent.take (st.framesSeen + 1)).map (·.tag)).Nodup :=
    ((List.take_sublist _ _).map _).nodup h.tracked.worker.accounted.once
  rw [take_of_frame hframe, List.map_append, List.nodup_append] at hnodup
  exact fun hin => hnodup.2.2 frame.tag hin frame.tag (by simp) rfl

private theorem unsettled_of_frame {frame : Frame}
    (hframe : st.worker.sent[st.framesSeen]? = some frame) (hworker : t.worker = st.worker)
    (hseen : t.framesSeen = st.framesSeen + 1) (message : ConsumeMessage) :
    t.unsettled message = (st.unsettled message && decide (message.deliveryTag ≠ frame.tag)) := by
  rw [unsettled, unsettled, hworker, hseen, take_of_frame hframe]
  by_cases htag : message.deliveryTag = frame.tag <;> simp [htag]

private theorem Brokered.outstanding_of_frame (h : Brokered st) {frame : Frame} {eventId : Nat}
    (hframe : st.worker.sent[st.framesSeen]? = some frame)
    (hid : st.eventIdOf frame.tag = some eventId) (hworker : t.worker = st.worker)
    (hseen : t.framesSeen = st.framesSeen + 1) :
    st.outstanding.Perm (eventId :: t.outstanding) := by
  obtain ⟨message, hmessage, htag⟩ := h.message_of_frame (List.mem_of_getElem? hframe)
  obtain ⟨event, hevent⟩ := h.wire message hmessage
  have hsame := h.eventIdOf_tag hmessage hevent
  rw [htag, hid, Option.some.injEq] at hsame
  have hperm : (st.worker.delivered.filter st.unsettled).Perm
      (message :: st.worker.delivered.filter t.unsettled) := by
    apply filter_perm_cons hmessage
      (List.Nodup.of_map _ h.tracked.worker.accounted.tags_nodup)
    · rw [unsettled, htag]
      simpa using h.tag_fresh hframe
    · rw [unsettled_of_frame hframe hworker hseen, htag]
      simp
    · intro other hother hne
      have hdiffers : other.deliveryTag ≠ frame.tag := fun heq =>
        hne (h.tracked.worker.accounted.eq_of_tag hother hmessage (heq.trans htag.symm))
      rw [unsettled_of_frame hframe hworker hseen]
      simp [hdiffers]
  have hids := hperm.filterMap fun m => m.content.parse.map (·.eventId)
  rw [List.filterMap_cons, hevent, Option.map_some, ← hsame] at hids
  rw [outstanding, outstanding, hworker]
  exact hids

private theorem Brokered.count_outstanding (h : Brokered st) {frame : Frame} {eventId : Nat}
    (hframe : st.worker.sent[st.framesSeen]? = some frame)
    (hid : st.eventIdOf frame.tag = some eventId) (hworker : t.worker = st.worker)
    (hseen : t.framesSeen = st.framesSeen + 1) (k : Nat) :
    st.outstanding.count k = t.outstanding.count k + [eventId].count k := by
  rw [(h.outstanding_of_frame hframe hid hworker hseen).count_eq, ← List.singleton_append,
    List.count_append, Nat.add_comm]

private theorem Brokered.receiveFrame_cases (h : Brokered st)
    (hreceive : st.receiveFrame = some t) :
    ∃ frame eventId, st.worker.sent[st.framesSeen]? = some frame ∧
      st.eventIdOf frame.tag = some eventId ∧
      (frame.settlement = .ack ∧ t = { st with
          framesSeen := st.framesSeen + 1, acked := st.acked ++ [eventId] } ∨
        t = { st with
          framesSeen := st.framesSeen + 1, requeued := st.requeued ++ [eventId] }) := by
  unfold Pipeline.receiveFrame at hreceive
  split at hreceive
  · cases hreceive
  · rename_i frame hframe
    obtain ⟨message, hmessage, htag⟩ := h.message_of_frame (List.mem_of_getElem? hframe)
    obtain ⟨event, hevent⟩ := h.wire message hmessage
    have hid := h.eventIdOf_tag hmessage hevent
    rw [htag] at hid
    refine ⟨frame, event.eventId, hframe, hid, ?_⟩
    rw [hid] at hreceive
    cases hsettlement : frame.settlement with
    | ack =>
      simp only [hsettlement, Option.some.injEq] at hreceive
      exact Or.inl ⟨rfl, hreceive.symm⟩
    | nack requeue =>
      simp only [hsettlement, Option.some.injEq] at hreceive
      exact Or.inr hreceive.symm

/-- A frame that reaches the broker settles one outstanding message, for good or back to its
queue. -/
theorem Brokered.receiveFrame (h : Brokered st) {dead : List Nat}
    (hreceive : st.receiveFrame = some t) :
    Transfer dead st t (attempted st t) (returned st t .receiveFrame) ∧ t.worker = st.worker ∧
      t.framesSeen ≤ st.worker.sent.length ∧
      ∀ k ∈ t.acked, k ∈ st.acked ∨ ∃ frame ∈ st.worker.sent, frame.settlement = .ack ∧
        st.eventIdOf frame.tag = some k := by
  obtain ⟨frame, eventId, hframe, hid, hcases⟩ := h.receiveFrame_cases hreceive
  have hlt : st.framesSeen < st.worker.sent.length := (List.getElem?_eq_some_iff.mp hframe).1
  have hworker : t.worker = st.worker := by
    rcases hcases with ⟨-, ht⟩ | ht <;> rw [ht]
  have hseen : t.framesSeen = st.framesSeen + 1 := by
    rcases hcases with ⟨-, ht⟩ | ht <;> rw [ht]
  have hcount := h.count_outstanding hframe hid hworker hseen
  have hin : eventId ∈ st.outstanding := by
    rw [(h.outstanding_of_frame hframe hid hworker hseen).mem_iff]
    exact List.mem_cons_self
  rw [attempted_eq_nil (by rw [hworker])]
  rcases hcases with ⟨hack, ht⟩ | ht
  · have hacked : t.acked = st.acked ++ [eventId] := by rw [ht]
    have hreturned : returned st t .receiveFrame = [] := by simp [returned, ht]
    rw [hreturned]
    refine ⟨⟨?_, ?_, by rw [ht], ?_, ?_⟩, hworker, by omega, ?_⟩
    · intro k _
      rw [ht]
    · intro k
      have hk := hcount k
      rw [hacked, List.count_append, List.count_nil]
      omega
    · intro k hk
      cases hk
    · intro k hk
      cases hk
    · intro k hk
      rw [hacked] at hk
      rcases List.mem_append.mp hk with hold | hnew
      · exact Or.inl hold
      · rw [List.mem_singleton] at hnew
        exact Or.inr ⟨frame, List.mem_of_getElem? hframe, hack, hnew ▸ hid⟩
  · have hacked : t.acked = st.acked := by rw [ht]
    have hrequeued : t.requeued = st.requeued ++ [eventId] := by rw [ht]
    have hreturned : returned st t .receiveFrame = [eventId] := by simp [returned, ht]
    rw [hreturned]
    refine ⟨⟨?_, ?_, by rw [ht], ?_, ?_⟩, hworker, by omega, ?_⟩
    · intro k _
      have hready : t.ready = st.ready := by rw [ht]
      rw [hready, hrequeued, List.count_append, List.count_nil]
      omega
    · intro k
      have hk := hcount k
      rw [hacked, List.count_nil]
      omega
    · intro k hk
      cases hk
    · intro k hk
      rw [List.mem_singleton] at hk
      exact hk ▸ hin
    · intro k hk
      exact Or.inl (hacked ▸ hk)

/-- A lost connection brings back every message that was outstanding. -/
private theorem transfer_crash {dead : List Nat} (snapshot : Snapshot)
    (hplaces : ∀ k, k ∉ dead → st.ready.count k + st.requeued.count k + st.outstanding.count k +
      st.acked.count k = if k < st.published.length then 1 else 0) :
    Transfer dead st (st.crash topology snapshot) (attempted st (st.crash topology snapshot))
      (returned st (st.crash topology snapshot) (.crash snapshot)) := by
  have hnone : attempted st (st.crash topology snapshot) = [] := by
    simp [attempted, Pipeline.crash, ConsumerRun.start, idsOf]
  have hidle : (st.crash topology snapshot).outstanding = [] := by
    simp [outstanding, Pipeline.crash, ConsumerRun.start, idsOf]
  rw [hnone]
  refine ⟨?_, ?_, rfl, ?_, fun k hk => hk⟩
  · intro k hk
    have hcount := hplaces k hk
    have hready : (st.crash topology snapshot).ready.count k =
        if k < st.published.length ∧ k ∉ st.acked then 1 else 0 := by
      have hnodup : ((List.range st.published.length).filter
          fun eventId => !st.acked.contains eventId).Nodup := List.nodup_range.filter _
      have hmem : k ∈ (List.range st.published.length).filter
          (fun eventId => !st.acked.contains eventId) ↔
            k < st.published.length ∧ k ∉ st.acked := by simp
      change ((List.range st.published.length).filter
          fun eventId => !st.acked.contains eventId).count k = _
      rw [hnodup.count]
      simp only [hmem]
    have hrequeued : (st.crash topology snapshot).requeued.count k = 0 := rfl
    have hreturned : (returned st (st.crash topology snapshot) (.crash snapshot)).count k =
        st.outstanding.count k := rfl
    rw [hready, hrequeued, hreturned, List.count_nil]
    by_cases hacked : k ∈ st.acked
    · have hpos := List.count_pos_iff.mpr hacked
      rw [if_neg fun hboth => hboth.2 hacked]
      split at hcount <;> omega
    · have hzero := List.count_eq_zero.mpr hacked
      by_cases hlt : k < st.published.length
      · rw [if_pos ⟨hlt, hacked⟩]
        rw [if_pos hlt] at hcount
        omega
      · rw [if_neg fun hboth => hlt hboth.1]
        rw [if_neg hlt] at hcount
        omega
  · intro k
    have hreturned : (returned st (st.crash topology snapshot) (.crash snapshot)).count k =
        st.outstanding.count k := rfl
    have hacked : (st.crash topology snapshot).acked = st.acked := rfl
    rw [hidle, hacked, hreturned, List.count_nil]
    omega
  · intro k hk
    cases hk

theorem sent_of_work (h : Brokered st) {action : ConsumerAction} {worker : ConsumerRun}
    (hwork : action.isWork = true) (hstep : ConsumerRun.step ext st.worker action = some worker) :
    worker.delivered = st.worker.delivered ∧ (worker.sent = st.worker.sent ∨
      ∃ (frame : Frame) (event : LocationEventV1) (outcome : Outcome),
        worker.sent = st.worker.sent ++ [frame] ∧
        frame.settlement = outcome.settlement ∧ st.eventIdOf frame.tag = some event.eventId ∧
        (event.eventId, outcome) ∈ st.worker.outcomes ext action) := by
  have hsettled : ∀ task message event, st.worker.job task = some (message, event) →
      st.eventIdOf message.deliveryTag = some event.eventId := by
    intro task message event hjob
    obtain ⟨hmessage, hparse⟩ := ConsumerRun.message?_of_job hjob
    exact h.eventIdOf_tag (h.tracked.worker.accounted.mem_delivered hmessage).1 hparse
  cases ConsumerRun.step_cases hstep with
  | malformed consumerTag content hopen hparse => cases hwork
  | enqueued consumerTag content event hopen hparse => cases hwork
  | gated task readError message event consumer outcome hgating hjob hgate =>
    refine ⟨rfl, Or.inr ⟨_, event, outcome, rfl, rfl, hsettled task message event hjob, ?_⟩⟩
    simp [ConsumerRun.outcomes, hgating, hjob, hgate]
  | reported task answers message event consumer outcome hreporting hjob hreport =>
    refine ⟨rfl, Or.inr ⟨_, event, outcome, rfl, rfl, hsettled task message event hjob, ?_⟩⟩
    simp [ConsumerRun.outcomes, hreporting, hjob, hreport]
  | shutdownCalled | cancelled _ _ _ | drained _ | closed _ _ _ => cases hwork
  | _ => exact ⟨rfl, Or.inl rfl⟩

private theorem outstanding_of_sent (h : Brokered st) {worker : ConsumerRun} {more : List Frame}
    (hdelivered : worker.delivered = st.worker.delivered)
    (hsent : worker.sent = st.worker.sent ++ more)
    (u : Pipeline) (hworker : u.worker = worker) (hseen : u.framesSeen = st.framesSeen) :
    u.outstanding = st.outstanding := by
  have hunsettled : u.unsettled = st.unsettled := by
    funext message
    rw [unsettled, unsettled, hworker, hseen, hsent, List.take_append_of_le_length h.seen]
  rw [outstanding, outstanding, hunsettled, hworker, hdelivered]

theorem Brokered.frame (h : Brokered st) (hworker : t.worker = st.worker)
    (hpublished : t.published = st.published) (happlied : t.applied = st.applied)
    (hseen : t.framesSeen = st.framesSeen) : Brokered t := by
  refine ⟨⟨?_, ?_, ?_, ?_⟩, ?_, ?_⟩
  · rw [hworker]
    exact h.tracked.worker
  · rw [hpublished]
    exact h.tracked.ids
  · rw [hworker, hpublished]
    exact h.tracked.delivered
  · rw [happlied, hpublished]
    exact h.tracked.applied
  · rw [hseen, hworker]
    exact h.seen
  · rw [hworker]
    exact h.wire

private theorem Brokered.eventIdOf_frame (h : Brokered st) (ht : Brokered t)
    (hdelivered : ∀ message ∈ st.worker.delivered, message ∈ t.worker.delivered) {frame : Frame}
    (hframe : frame ∈ st.worker.sent) : t.eventIdOf frame.tag = st.eventIdOf frame.tag := by
  obtain ⟨message, hmessage, htag⟩ := h.message_of_frame hframe
  obtain ⟨event, hevent⟩ := h.wire message hmessage
  rw [← htag, h.eventIdOf_tag hmessage hevent,
    ht.eventIdOf_tag (hdelivered message hmessage) hevent]

end Pipeline

namespace EventPath

variable {topology : Topology} {ext : Externals} {policy : RetryPolicy} {st t : EventPath}

/-- What every reachable state keeps: each message published is in one place, and every ack the
worker has sent has its grounds. -/
structure Accounts (topology : Topology) (policy : RetryPolicy) (st : EventPath) : Prop where
  sound : MqPublisher.Sound st.api
  brokered : Pipeline.Brokered st.pipeline
  queues : st.pipeline.published =
    st.api.queues.mapIdx fun k entry => { entry.2 with eventId := k }
  routed : ∀ partition event, (partition, event) ∈ st.api.queues →
    partition = topology.partitionOf event.userId
  once : (st.api.queues.map fun entry => entry.2.eventId).Nodup
  places : ∀ k, st.places k = if k < st.pipeline.published.length then 1 else 0
  deliveries : ∀ k, st.deliveries k =
    st.returns k + st.pipeline.outstanding.count k + st.pipeline.acked.count k
  alive : ∀ deliveryLimit, policy.Within deliveryLimit → ∀ k, k ∉ st.dead →
    st.returns k ≤ deliveryLimit
  dead : ∀ deliveryLimit, policy.Within deliveryLimit → ∀ k ∈ st.dead,
    st.returns k ≤ deliveryLimit + 1
  acked : ∀ k ∈ st.pipeline.acked, ∃ outcome, (k, outcome) ∈ st.handled ∧
    outcome.settlement = .ack
  frames : ∀ frame ∈ st.pipeline.worker.sent, frame.settlement = .ack →
    ∀ k, st.pipeline.eventIdOf frame.tag = some k →
      ∃ outcome, (k, outcome) ∈ st.handled ∧ outcome.settlement = .ack

theorem accounts_start (topology : Topology) (policy : RetryPolicy) (db : Database)
    (snapshot : Snapshot) : Accounts topology policy (start topology db snapshot) := by
  refine ⟨MqPublisher.sound_start, Pipeline.brokered_start topology db snapshot, rfl, ?_,
    List.nodup_nil, ?_, ?_, ?_, ?_, ?_, ?_⟩
  · intro partition event hentry
    cases hentry
  · intro k
    rfl
  · intro k
    rfl
  · intro deliveryLimit _ k _
    exact Nat.zero_le _
  · intro deliveryLimit _ k hk
    cases hk
  · intro k hk
    cases hk
  · intro frame hframe
    cases hframe

section Transfer

variable {pipeline : Pipeline} {attempted returned : List Nat}

private theorem places_le (h : Accounts topology policy st) (k : Nat) :
    st.pipeline.ready.count k + st.pipeline.requeued.count k + st.pipeline.outstanding.count k +
      st.pipeline.acked.count k + st.dead.count k ≤ 1 := by
  have hplaces := h.places k
  unfold places at hplaces
  rw [hplaces]
  split <;> omega

private theorem attempted_eq_zero
    (htransfer : Pipeline.Transfer st.dead st.pipeline pipeline attempted returned) {k : Nat}
    (hready : st.pipeline.ready.count k = 0) (hrequeued : st.pipeline.requeued.count k = 0) :
    attempted.count k = 0 := by
  apply List.count_eq_zero.mpr
  intro hin
  rcases htransfer.attempted k hin with hmem | hmem
  · exact List.count_eq_zero.mp hready hmem
  · exact List.count_eq_zero.mp hrequeued hmem

theorem Accounts.returned_once (h : Accounts topology policy st)
    (htransfer : Pipeline.Transfer st.dead st.pipeline pipeline attempted returned) {k : Nat}
    (hk : k ∈ returned) : returned.count k = 1 ∧ st.pipeline.ready.count k = 0 ∧
      st.pipeline.requeued.count k = 0 ∧ st.pipeline.acked.count k = 0 ∧ st.dead.count k = 0 ∧
      attempted.count k = 0 := by
  have hpos := List.count_pos_iff.mpr hk
  have hout := List.count_pos_iff.mpr (htransfer.returned k hk)
  have hle := places_le h k
  have hheld := htransfer.held k
  have hnone := attempted_eq_zero htransfer (k := k) (by omega) (by omega)
  omega

theorem Accounts.buried (h : Accounts topology policy st)
    (htransfer : Pipeline.Transfer st.dead st.pipeline pipeline attempted returned) {k : Nat}
    (hk : k ∈ st.dead) : st.dead.count k = 1 ∧ pipeline.outstanding.count k = 0 ∧
      pipeline.acked.count k = 0 ∧ returned.count k = 0 := by
  have hpos := List.count_pos_iff.mpr hk
  have hle := places_le h k
  have hheld := htransfer.held k
  have hnone := attempted_eq_zero htransfer (k := k) (by omega) (by omega)
  have hreturned : returned.count k = 0 := by
    apply List.count_eq_zero.mpr
    intro hin
    have hzero := (h.returned_once htransfer hin).2.2.2.2.1
    omega
  omega

private theorem count_filter_eq (p : Nat → Bool) (l : List Nat) (k : Nat) :
    (l.filter p).count k = if p k then l.count k else 0 := by
  by_cases hp : p k = true
  · rw [List.count_filter hp, if_pos hp]
  · rw [if_neg hp]
    exact List.count_eq_zero.mpr fun hin => hp (List.mem_filter.mp hin).2

private theorem Accounts.count_buried (h : Accounts topology policy st)
    (htransfer : Pipeline.Transfer st.dead st.pipeline pipeline attempted returned) (k : Nat) :
    (st.dead ++ returned.filter fun eventId =>
        policy.buries (st.returns eventId + returned.count eventId)).count k =
      if k ∈ st.dead ∨ k ∈ returned ∧ policy.buries (st.returns k + 1) = true then 1 else 0 := by
  rw [List.count_append, count_filter_eq]
  by_cases hdead : k ∈ st.dead
  · obtain ⟨hone, -, -, hzero⟩ := h.buried htransfer hdead
    rw [hone, hzero, if_pos (Or.inl hdead), ite_self]
  · rw [List.count_eq_zero.mpr hdead]
    by_cases hreturned : k ∈ returned
    · rw [(h.returned_once htransfer hreturned).1]
      simp [hdead, hreturned]
    · simp [List.count_eq_zero.mpr hreturned, hdead, hreturned]

/-- The retry policy keeps the ledger. -/
theorem Accounts.enforce (h : Accounts topology policy st)
    (htransfer : Pipeline.Transfer st.dead st.pipeline pipeline attempted returned)
    (hbrokered : Pipeline.Brokered pipeline) {handled : List (Nat × Outcome)}
    (hacked : ∀ k ∈ pipeline.acked, ∃ outcome, (k, outcome) ∈ handled ∧
      outcome.settlement = .ack)
    (hframes : ∀ frame ∈ pipeline.worker.sent, frame.settlement = .ack →
      ∀ k, pipeline.eventIdOf frame.tag = some k →
        ∃ outcome, (k, outcome) ∈ handled ∧ outcome.settlement = .ack) :
    Accounts topology policy (EventPath.enforce policy
      { st with
        pipeline
        deliveries := fun eventId => st.deliveries eventId + attempted.count eventId
        handled }
      returned) := by
  have hcount := h.count_buried htransfer
  have hmem : ∀ k, k ∈ (st.dead ++ returned.filter fun eventId =>
      policy.buries (st.returns eventId + returned.count eventId)) ↔
        k ∈ st.dead ∨ k ∈ returned ∧ policy.buries (st.returns k + 1) = true := by
    intro k
    rw [← List.count_pos_iff, hcount k]
    split <;> simp_all
  refine ⟨h.sound, hbrokered.frame rfl rfl rfl rfl, ?_, h.routed, h.once, ?_, ?_, ?_, ?_, hacked,
    hframes⟩
  · change pipeline.published = _
    rw [htransfer.published]
    exact h.queues
  · intro k
    change (pipeline.ready.filter _).count k + (pipeline.requeued.filter _).count k +
      pipeline.outstanding.count k + pipeline.acked.count k + List.count k (_ ++ _) =
        if k < pipeline.published.length then 1 else 0
    have hplaces := h.places k
    unfold EventPath.places at hplaces
    rw [hcount k, count_filter_eq, count_filter_eq, htransfer.published, ← hplaces]
    simp only [hmem k, decide_eq_true_eq]
    have hheld := htransfer.held k
    have hle := places_le h k
    by_cases hdead : k ∈ st.dead
    · obtain ⟨hone, hout, hack, hzero⟩ := h.buried htransfer hdead
      simp only [hdead, true_or, not_true_eq_false, if_false, if_true]
      omega
    · have hnone := List.count_eq_zero.mpr hdead
      have hqueued := htransfer.queued k hdead
      by_cases hburied : k ∈ returned ∧ policy.buries (st.returns k + 1) = true
      · obtain ⟨hone, hready, hrequeued, hack, -, hattempted⟩ :=
          h.returned_once htransfer hburied.1
        have hout := List.count_pos_iff.mpr (htransfer.returned k hburied.1)
        rw [if_neg (by simp [hburied]), if_neg (by simp [hburied]), if_pos (Or.inr hburied)]
        omega
      · rw [if_pos (by simp [hdead, hburied]), if_pos (by simp [hdead, hburied]),
          if_neg (by simp [hdead, hburied])]
        omega
  · intro k
    change st.deliveries k + attempted.count k =
      st.returns k + returned.count k + pipeline.outstanding.count k + pipeline.acked.count k
    have hdeliveries := h.deliveries k
    have hheld := htransfer.held k
    omega
  · intro deliveryLimit hwithin k hk
    change st.returns k + returned.count k ≤ deliveryLimit
    obtain ⟨hdead, hkept⟩ := not_or.mp (mt (hmem k).mpr hk)
    have halive := h.alive deliveryLimit hwithin k hdead
    by_cases hreturned : k ∈ returned
    · -- a message that has come back and is not buried is still within the limit
      rw [(h.returned_once htransfer hreturned).1]
      by_contra hover
      exact hkept ⟨hreturned, hwithin _ (by omega)⟩
    · rw [List.count_eq_zero.mpr hreturned]
      exact halive
  · intro deliveryLimit hwithin k hk
    change st.returns k + returned.count k ≤ deliveryLimit + 1
    by_cases hdead : k ∈ st.dead
    · rw [(h.buried htransfer hdead).2.2.2]
      exact h.dead deliveryLimit hwithin k hdead
    · have halive := h.alive deliveryLimit hwithin k hdead
      have hreturned := ((hmem k).mp hk).resolve_left hdead
      rw [(h.returned_once htransfer hreturned.1).1]
      omega

end Transfer

private theorem queues_of_step {api next : MqPublisher} {action : PublisherAction}
    (hstored : ∀ i partition, action ≠ .brokerReceives i (.routed partition))
    (hstep : api.step action = some next) : next.queues = api.queues := by
  cases action with
  | accept dto receivedAt throws =>
    cases hstep
    unfold MqPublisher.accept
    split <;> rfl
  | brokerReceives i routing =>
    simp only [MqPublisher.step] at hstep
    split at hstep
    · cases hstep
    · split at hstep
      · cases hstep
        cases routing with
        | routed partition => exact absurd rfl (hstored i partition)
        | _ => exact List.append_nil _
      · cases hstep
  | messageLost i =>
    simp only [MqPublisher.step] at hstep
    split at hstep
    · cases hstep
    · split at hstep
      · cases hstep
        rfl
      · cases hstep
  | frameArrives i =>
    simp only [MqPublisher.step] at hstep
    split at hstep
    · cases hstep
    · split at hstep
      · obtain ⟨call, -, rfl⟩ := Option.map_eq_some_iff.mp hstep
        rfl
      · cases hstep
  | timerFires i | closedCallback i =>
    simp only [MqPublisher.step] at hstep
    split at hstep
    · cases hstep
    · split at hstep
      · cases hstep
        rfl
      · cases hstep
  | channelCloses | connectionCloses =>
    cases hstep
    rfl
  | reconnects =>
    simp only [MqPublisher.step] at hstep
    split at hstep
    · cases hstep
      rfl
    · cases hstep

theorem Accounts.api (h : Accounts topology policy st) {next : MqPublisher}
    (hsound : MqPublisher.Sound next) (hqueues : next.queues = st.api.queues) :
    Accounts topology policy { st with api := next } := by
  refine ⟨hsound, h.brokered, ?_, ?_, ?_, h.places, h.deliveries, h.alive, h.dead, h.acked,
    h.frames⟩
  · rw [hqueues]
    exact h.queues
  · rw [hqueues]
    exact h.routed
  · rw [hqueues]
    exact h.once

theorem Accounts.stored (h : Accounts topology policy st) {next : MqPublisher}
    {event : LocationEventV1} (hsound : MqPublisher.Sound next)
    (hqueues : next.queues = st.api.queues ++ [(topology.partitionOf event.userId, event)])
    (hfresh : ∀ entry ∈ st.api.queues, entry.2.eventId ≠ event.eventId)
    {pipeline : Pipeline}
    (hpublish : st.pipeline.step topology ext (.publish event) = some pipeline) :
    Accounts topology policy { st with api := next, pipeline } := by
  have htracked := h.brokered.tracked.step (Pipeline.step_cases hpublish)
  have hlength : st.api.queues.length = st.pipeline.published.length := by
    rw [h.queues, List.length_mapIdx]
  cases hpublish
  refine ⟨hsound, ⟨htracked, h.brokered.seen, h.brokered.wire⟩, ?_, ?_, ?_, ?_, h.deliveries,
    h.alive, h.dead, h.acked, h.frames⟩
  · change st.pipeline.published ++ [{ event with eventId := st.pipeline.published.length }] = _
    rw [hqueues, List.mapIdx_concat, ← h.queues, hlength]
  · intro partition e hentry
    rw [hqueues] at hentry
    rcases List.mem_append.mp hentry with hold | hnew
    · exact h.routed partition e hold
    · cases List.mem_singleton.mp hnew
      rfl
  · rw [hqueues, List.map_append, List.nodup_append]
    refine ⟨h.once, List.nodup_singleton _, ?_⟩
    rintro eventId hold other hnew rfl
    obtain ⟨entry, hentry, rfl⟩ := List.mem_map.mp hold
    exact hfresh entry hentry (List.mem_singleton.mp hnew)
  · intro k
    have hplaces := h.places k
    unfold EventPath.places at hplaces ⊢
    change (st.pipeline.ready ++ [st.pipeline.published.length]).count k +
      st.pipeline.requeued.count k + st.pipeline.outstanding.count k + st.pipeline.acked.count k +
        st.dead.count k = if k < (st.pipeline.published ++ [_]).length then 1 else 0
    rw [List.count_append, List.length_append, List.length_singleton, List.count_singleton]
    by_cases hk : st.pipeline.published.length = k
    · subst hk
      rw [if_neg (Nat.lt_irrefl _)] at hplaces
      rw [beq_self_eq_true, if_pos rfl, if_pos (Nat.lt_succ_self _)]
      omega
    · rw [beq_false_of_ne hk, if_neg Bool.false_ne_true]
      by_cases hlt : k < st.pipeline.published.length
      · rw [if_pos hlt] at hplaces
        rw [if_pos (by omega)]
        omega
      · rw [if_neg hlt] at hplaces
        rw [if_neg (by omega)]
        omega

theorem Accounts.pushed (h : Accounts topology policy st) {eventId : Nat}
    {pipeline : Pipeline} (htracked : Pipeline.Tracked pipeline)
    (hfrom : eventId ∈ st.pipeline.ready ∨ eventId ∈ st.pipeline.requeued)
    (hpush : st.pipeline.push topology ext eventId = some pipeline) :
    Accounts topology policy (EventPath.enforce policy
      { st with
        pipeline
        deliveries := fun eventId =>
          st.deliveries eventId + (st.pipeline.attempted pipeline).count eventId
        handled := st.handled ++ [] } []) := by
  have hqueued : ∀ k, st.pipeline.ready.count k + st.pipeline.requeued.count k ≤ 1 := by
    intro k
    have hle := places_le h k
    omega
  obtain ⟨htransfer, hsent, hseen, message, hdelivered, hevent⟩ :=
    h.brokered.push hqueued hfrom hpush
  have hacked : pipeline.acked = st.pipeline.acked := by
    unfold Pipeline.push at hpush
    split at hpush
    · cases hpush
    · simp only at hpush
      split at hpush
      · obtain ⟨worker, -, rfl⟩ := Option.map_eq_some_iff.mp hpush
        rfl
      · cases hpush
  have hbrokered : Pipeline.Brokered pipeline := by
    refine ⟨htracked, ?_, ?_⟩
    · rw [hseen, hsent]
      exact h.brokered.seen
    · intro m hm
      rw [hdelivered] at hm
      rcases List.mem_append.mp hm with hold | hnew
      · exact h.brokered.wire m hold
      · rw [List.mem_singleton] at hnew
        exact hnew ▸ hevent
  rw [List.append_nil]
  refine h.enforce htransfer hbrokered ?_ ?_
  · rw [hacked]
    exact h.acked
  · intro frame hframe hack k hk
    rw [hsent] at hframe
    rw [h.brokered.eventIdOf_frame hbrokered (fun m hm => by simp [hdelivered, hm]) hframe] at hk
    exact h.frames frame hframe hack k hk

theorem Accounts.worked (h : Accounts topology policy st) {action : ConsumerAction}
    {pipeline : Pipeline} (htracked : Pipeline.Tracked pipeline)
    (hstep : st.pipeline.step topology ext (.work action) = some pipeline) :
    Accounts topology policy (EventPath.enforce policy
      { st with
        pipeline
        deliveries := fun eventId =>
          st.deliveries eventId + (st.pipeline.attempted pipeline).count eventId
        handled := st.handled ++ st.pipeline.worker.outcomes ext action } []) := by
  simp only [Pipeline.step] at hstep
  split at hstep
  · rename_i hwork
    obtain ⟨worker, hworker, hpipeline⟩ := Option.map_eq_some_iff.mp hstep
    obtain ⟨hdelivered, hsent⟩ := Pipeline.sent_of_work h.brokered hwork hworker
    obtain ⟨more, hmore⟩ : ∃ more, worker.sent = st.pipeline.worker.sent ++ more := by
      rcases hsent with hsame | ⟨frame, -, -, hnew, -⟩
      · exact ⟨[], by rw [hsame, List.append_nil]⟩
      · exact ⟨[frame], hnew⟩
    have hnext : pipeline.worker = worker := by rw [← hpipeline]
    have hseen : pipeline.framesSeen = st.pipeline.framesSeen := by rw [← hpipeline]
    have hacked : pipeline.acked = st.pipeline.acked := by rw [← hpipeline]
    have hnextDelivered : pipeline.worker.delivered = st.pipeline.worker.delivered := by
      rw [hnext, hdelivered]
    have hbrokered : Pipeline.Brokered pipeline := by
      refine ⟨htracked, ?_, ?_⟩
      · have hle := h.brokered.seen
        rw [hseen, hnext, hmore, List.length_append]
        omega
      · rw [hnextDelivered]
        exact h.brokered.wire
    have htransfer : Pipeline.Transfer st.dead st.pipeline pipeline [] [] :=
      Pipeline.Transfer.same (by rw [← hpipeline]) (by rw [← hpipeline]) hacked
        (Pipeline.outstanding_of_sent h.brokered hdelivered hmore pipeline hnext hseen)
        (by rw [← hpipeline])
    have hold : ∀ k, (∃ outcome, (k, outcome) ∈ st.handled ∧ outcome.settlement = .ack) →
        ∃ outcome, (k, outcome) ∈ st.handled ++ st.pipeline.worker.outcomes ext action ∧
          outcome.settlement = .ack := by
      intro k hk
      obtain ⟨outcome, hmem, hsettles⟩ := hk
      exact ⟨outcome, List.mem_append_left _ hmem, hsettles⟩
    rw [Pipeline.attempted_eq_nil hnextDelivered]
    refine h.enforce htransfer hbrokered ?_ ?_
    · rw [hacked]
      exact fun k hk => hold k (h.acked k hk)
    · intro frame hframe hack k hk
      have heventId : st.pipeline.eventIdOf frame.tag = some k := by
        rw [← hk, Pipeline.eventIdOf, Pipeline.eventIdOf, hnextDelivered]
      rw [hnext] at hframe
      rcases hsent with hsame | ⟨last, event, outcome, hnew, hsettles, hid, hmem⟩
      · exact hold k (h.frames frame (hsame ▸ hframe) hack k heventId)
      · rcases List.mem_append.mp (hnew ▸ hframe) with hframe | hframe
        · exact hold k (h.frames frame hframe hack k heventId)
        · rw [List.mem_singleton] at hframe
          subst hframe
          rw [hid, Option.some.injEq] at heventId
          subst heventId
          exact ⟨outcome, List.mem_append_right _ hmem, hsettles ▸ hack⟩
  · cases hstep

theorem Accounts.crashed (h : Accounts topology policy st) (snapshot : Snapshot)
    (htracked : Pipeline.Tracked (st.pipeline.crash topology snapshot)) :
    Accounts topology policy (EventPath.enforce policy
      { st with
        pipeline := st.pipeline.crash topology snapshot
        deliveries := fun eventId => st.deliveries eventId +
          (st.pipeline.attempted (st.pipeline.crash topology snapshot)).count eventId
        handled := st.handled ++ [] }
      (st.pipeline.returned (st.pipeline.crash topology snapshot) (.crash snapshot))) := by
  have hplaces : ∀ k, k ∉ st.dead → st.pipeline.ready.count k + st.pipeline.requeued.count k +
      st.pipeline.outstanding.count k + st.pipeline.acked.count k =
        if k < st.pipeline.published.length then 1 else 0 := by
    intro k hk
    have hcount := h.places k
    unfold EventPath.places at hcount
    rw [List.count_eq_zero.mpr hk] at hcount
    exact hcount
  have hbrokered : Pipeline.Brokered (st.pipeline.crash topology snapshot) := by
    refine ⟨htracked, Nat.zero_le _, ?_⟩
    intro message hmessage
    cases hmessage
  rw [List.append_nil]
  refine h.enforce (Pipeline.transfer_crash snapshot hplaces) hbrokered h.acked ?_
  intro frame hframe
  cases hframe

theorem Accounts.pipeline (h : Accounts topology policy st) {action : PipelineAction}
    {pipeline : Pipeline} (hstored : ∀ event, action ≠ .publish event)
    (hstep : st.pipeline.step topology ext action = some pipeline) :
    Accounts topology policy (EventPath.enforce policy
      { st with
        pipeline
        deliveries := fun eventId =>
          st.deliveries eventId + (st.pipeline.attempted pipeline).count eventId
        handled := st.handled ++ settled ext st.pipeline action }
      (st.pipeline.returned pipeline action)) := by
  have htracked := h.brokered.tracked.step (Pipeline.step_cases hstep)
  cases action with
  | publish event => exact absurd rfl (hstored event)
  | deliver partition =>
    obtain ⟨eventId, hhead, hpush⟩ := Option.bind_eq_some_iff.mp hstep
    exact h.pushed htracked (Or.inl (List.mem_of_find?_eq_some hhead)) hpush
  | redeliver eventId =>
    simp only [Pipeline.step] at hstep
    split at hstep
    · rename_i hrequeued
      exact h.pushed htracked (Or.inr hrequeued) hstep
    · cases hstep
  | work action => exact h.worked htracked hstep
  | receiveFrame =>
    obtain ⟨htransfer, hworker, hseen, hacked⟩ := h.brokered.receiveFrame hstep
    have hbrokered : Pipeline.Brokered pipeline := by
      refine ⟨htracked, ?_, ?_⟩
      · rw [hworker]
        exact hseen
      · rw [hworker]
        exact h.brokered.wire
    have heventId : pipeline.eventIdOf = st.pipeline.eventIdOf := by
      funext tag
      rw [Pipeline.eventIdOf, Pipeline.eventIdOf, hworker]
    have hsettled : st.handled ++ settled ext st.pipeline .receiveFrame = st.handled :=
      List.append_nil _
    rw [hsettled]
    refine h.enforce htransfer hbrokered ?_ ?_
    · intro k hk
      rcases hacked k hk with hold | ⟨frame, hframe, hack, hid⟩
      · exact h.acked k hold
      · exact h.frames frame hframe hack k hid
    · rw [hworker, heventId]
      exact h.frames
  | swapSnapshot snapshot =>
    simp only [Pipeline.step] at hstep
    split at hstep
    · obtain ⟨worker, hworker, hpipeline⟩ := Option.map_eq_some_iff.mp hstep
      cases hworker
      have hnone : st.pipeline.attempted pipeline = [] :=
        Pipeline.attempted_eq_nil (by rw [← hpipeline])
      have hsettled : st.handled ++ settled ext st.pipeline (.swapSnapshot snapshot) = st.handled :=
        List.append_nil _
      have htransfer : Pipeline.Transfer st.dead st.pipeline pipeline [] [] := by
        rw [← hpipeline]
        exact Pipeline.Transfer.same rfl rfl rfl rfl rfl
      rw [hnone, hsettled]
      refine h.enforce htransfer ⟨htracked, ?_, ?_⟩ ?_ ?_
      · rw [← hpipeline]
        exact h.brokered.seen
      · rw [← hpipeline]
        exact h.brokered.wire
      · rw [← hpipeline]
        exact h.acked
      · rw [← hpipeline]
        exact h.frames
    · cases hstep
  | crash snapshot =>
    simp only [Pipeline.step] at hstep
    split at hstep
    · cases hstep
      exact h.crashed snapshot htracked
    · cases hstep

private theorem fresh_of_inFlight {api : MqPublisher} (h : MqPublisher.Sound api) {i : Nat}
    {call : PublishCall} (hcall : api.calls[i]? = some call) (hflight : call.message = .inFlight) :
    ∀ entry ∈ api.queues, entry.2.eventId ≠ call.event.eventId := by
  rintro ⟨partition, event⟩ hentry heq
  obtain ⟨j, other, hother, rfl, hstored⟩ := (h.queued partition event).mp hentry
  have hj : j = i := by
    rw [← h.ids j other hother, ← h.ids i call hcall]
    exact heq
  subst hj
  cases hcall.symm.trans hother
  rw [hflight] at hstored
  cases hstored

theorem map_of_step_api {action : PublisherAction}
    (hstored : ¬ ∃ i partition, action = .brokerReceives i (.routed partition))
    (hstep : EventPath.step topology ext policy st (.api action) = some t) :
    ∃ api, st.api.step action = some api ∧ { st with api } = t := by
  unfold EventPath.step at hstep
  split at hstep
  · rename_i i partition heq
    cases heq
    exact absurd ⟨i, partition, rfl⟩ hstored
  · rename_i other hne heq
    cases heq
    exact Option.map_eq_some_iff.mp hstep
  · rename_i heq
    cases heq
  · rename_i heq
    cases heq

theorem map_of_step_pipeline {action : PipelineAction}
    (hstored : ∀ event, action ≠ .publish event)
    (hstep : EventPath.step topology ext policy st (.pipeline action) = some t) :
    ∃ pipeline, st.pipeline.step topology ext action = some pipeline ∧
      EventPath.enforce policy
        { st with
          pipeline
          deliveries := fun eventId =>
            st.deliveries eventId + (st.pipeline.attempted pipeline).count eventId
          handled := st.handled ++ settled ext st.pipeline action }
        (st.pipeline.returned pipeline action) = t := by
  unfold EventPath.step at hstep
  split at hstep
  · rename_i heq
    cases heq
  · rename_i heq
    cases heq
  · rename_i event heq
    cases heq
    exact absurd rfl (hstored event)
  · rename_i other hne heq
    cases heq
    exact Option.map_eq_some_iff.mp hstep

theorem Accounts.step {action : EventPathAction} (h : Accounts topology policy st)
    (hstep : EventPath.step topology ext policy st action = some t) :
    Accounts topology policy t := by
  cases action with
  | api action =>
    by_cases hstored : ∃ i partition, action = .brokerReceives i (.routed partition)
    · obtain ⟨i, partition, rfl⟩ := hstored
      simp only [EventPath.step] at hstep
      split at hstep
      · cases hstep
      · rename_i call hcall
        split at hstep
        · rename_i hpartition
          obtain ⟨next, hnext, hrest⟩ := Option.bind_eq_some_iff.mp hstep
          obtain ⟨pipeline, hpublish, rfl⟩ := Option.map_eq_some_iff.mp hrest
          have hsound := h.sound.step (MqPublisher.step_cases hnext)
          simp only [MqPublisher.step, hcall] at hnext
          split at hnext
          · rename_i hflight
            cases hnext
            refine h.stored hsound ?_ (fresh_of_inFlight h.sound hcall hflight) hpublish
            rw [← hpartition]
          · cases hnext
        · cases hstep
    · obtain ⟨next, hnext, rfl⟩ := map_of_step_api hstored hstep
      have hother : ∀ i partition, action ≠ .brokerReceives i (.routed partition) :=
        fun i partition heq => hstored ⟨i, partition, heq⟩
      exact h.api (h.sound.step (MqPublisher.step_cases hnext)) (queues_of_step hother hnext)
  | pipeline action =>
    by_cases hpublish : ∃ event, action = .publish event
    · obtain ⟨event, rfl⟩ := hpublish
      cases hstep
    · have hother : ∀ event, action ≠ .publish event := fun event heq => hpublish ⟨event, heq⟩
      obtain ⟨pipeline, hnext, rfl⟩ := map_of_step_pipeline hother hstep
      exact h.pipeline hother hnext

theorem accounts_of_run {db : Database} {snapshot : Snapshot} {actions : List EventPathAction}
    (hrun : (machine topology ext policy).run (start topology db snapshot) actions =
      some st) :
    Accounts topology policy st :=
  (machine topology ext policy).run_invariant (fun _ _ _ h hstep => h.step hstep)
    (accounts_start topology policy db snapshot) hrun

/-- What becomes of the events the API has accepted. -/
structure Accounted (topology : Topology) (st : EventPath) : Prop where
  /-- A call that resolved, and whose message did not come back as unroutable, is the publication
  of exactly one message, in the queue of the event's user. -/
  accepted : ∀ (i : Nat) (call : PublishCall), st.api.calls[i]? = some call →
    call.promise = .resolved → call.message ≠ .returned → ∃! k : Nat, st.api.queues[k]? =
      some (topology.partitionOf call.event.userId, call.event)
  message : ∀ (k partition : Nat) (event : LocationEventV1),
    st.api.queues[k]? = some (partition, event) →
      st.pipeline.published[k]? = some { event with eventId := k }
  /-- Each message is in exactly one place. -/
  once : ∀ k < st.pipeline.published.length, st.places k = 1
  /-- No message leaves for good but by an ack, which says what the worker made of it. -/
  acked : ∀ k ∈ st.pipeline.acked, ∃ outcome, (k, outcome) ∈ st.handled ∧
    outcome.settlement = .ack

theorem accepted_events_accounted (topology : Topology) (ext : Externals) (policy : RetryPolicy)
    (db : Database) (snapshot : Snapshot) (actions : List EventPathAction) (st : EventPath)
    (hrun : (machine topology ext policy).run (start topology db snapshot) actions =
      some st) :
    Accounted topology st := by
  have h := accounts_of_run hrun
  refine ⟨?_, ?_, ?_, h.acked⟩
  · intro i call hcall hresolved hnot
    have hjustified := (h.sound.consistent i call hcall).promise
    rw [hresolved] at hjustified
    obtain ⟨partition, hstored⟩ := hjustified.resolve_right fun hback => hnot hback.1
    have hmem := (h.sound.mem_queues hcall).mpr hstored
    have hpartition := h.routed partition call.event hmem
    rw [hpartition] at hmem
    obtain ⟨k, hk⟩ := List.mem_iff_getElem?.mp hmem
    refine ⟨k, hk, ?_⟩
    intro other hother
    have hid : ∀ j : Nat,
        st.api.queues[j]? = some (topology.partitionOf call.event.userId, call.event) →
        (st.api.queues.map fun entry => entry.2.eventId)[j]? = some call.event.eventId := by
      intro j hj
      rw [List.getElem?_map, hj, Option.map_some]
    have hlt := (List.getElem?_eq_some_iff.mp (hid other hother)).1
    exact (List.getElem?_inj hlt h.once).mp ((hid other hother).trans (hid k hk).symm)
  · intro k partition event hentry
    rw [h.queues, List.getElem?_mapIdx, hentry, Option.map_some]
  · intro k hk
    rw [h.places k, if_pos hk]

private theorem Accounts.only_dead (h : Accounts topology policy st) {k : Nat} (hk : k ∈ st.dead) :
    st.pipeline.outstanding.count k = 0 ∧ st.pipeline.acked.count k = 0 ∧
      st.pipeline.ready.count k = 0 ∧ st.pipeline.requeued.count k = 0 := by
  have hpos := List.count_pos_iff.mpr hk
  have hle := places_le h k
  omega

/-- Under a delivery limit a message is delivered at most once more than the limit. -/
theorem Accounts.deliveries_le (h : Accounts topology policy st) {deliveryLimit : Nat}
    (hwithin : policy.Within deliveryLimit) (k : Nat) : st.deliveries k ≤ deliveryLimit + 1 := by
  have hdeliveries := h.deliveries k
  have hle := places_le h k
  by_cases hdead : k ∈ st.dead
  · have hreturns := h.dead deliveryLimit hwithin k hdead
    obtain ⟨hout, hacked, -, -⟩ := h.only_dead hdead
    omega
  · have halive := h.alive deliveryLimit hwithin k hdead
    omega

private def onePartition : Topology := ⟨fun _ => 0, [0], 10⟩

private def reported (lng : ℚ) : ReportLocationDto := { userId := "u", lat := 1, lng }

private def accepts (call : Nat) (lng : ℚ) : List EventPathAction :=
  [.api (.accept (reported lng) call none), .api (.brokerReceives call (.routed 0)),
    .api (.frameArrives call)]

/-- A delivery whose transaction ends as given, up to the frame's arrival. -/
private def attempt (fate : TransactionFate) : List EventPathAction :=
  [.work (.start 0), .work (.gate 0 none), .work (.report 0 { fate }), .receiveFrame].map .pipeline

/-- The first of two accepted events is processed; the second is still in its queue. -/
private def firstProcessed : List EventPathAction :=
  accepts 0 1 ++ accepts 1 50 ++ .pipeline (.deliver 0) :: attempt .completes

theorem accepted_events_accounted_firstProcessed :
    ∃ st, (machine onePartition .reference (.limit 5)).run
        (start onePartition (.initial sampleAreas) ⟨1, sampleAreas⟩) firstProcessed = some st ∧
      Accounted onePartition st ∧ st.api.calls.map (·.promise) = [.resolved, .resolved] ∧
      st.pipeline.acked = [0] ∧ st.pipeline.ready = [1] ∧
      st.handled.map (·.1) = [0] := by
  have hend : ((machine onePartition .reference (.limit 5)).run
      (start onePartition (.initial sampleAreas) ⟨1, sampleAreas⟩) firstProcessed).any (fun st =>
        decide (st.api.calls.map (·.promise) = [.resolved, .resolved] ∧
          st.pipeline.acked = [0] ∧ st.pipeline.ready = [1] ∧
          st.handled.map (·.1) = [0])) = true := by
    decide +kernel
  obtain ⟨st, hrun, hst⟩ := Machine.exists_end _ hend
  exact ⟨st, hrun, accepted_events_accounted _ _ _ _ _ _ st hrun, hst⟩

end EventPath

end Geofence
