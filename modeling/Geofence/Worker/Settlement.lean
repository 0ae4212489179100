import Geofence.Framework.TaskBodies
import Geofence.Worker.Chains
/-!
# Settlement and shutdown

The consumer as a whole: deliveries from any number of consumers on one channel, the two awaits
of `processEvent` in every running task, the frames each task sends about its own delivery, and
`onApplicationShutdown` in between. The channel stays open, so a frame that is sent arrives, and
a consumer delivers nothing once its cancel has resolved.
-/

namespace Geofence

open Framework

/-- Where a task's body stands: before its start, at one of its two awaits, or returned. -/
inductive TaskWork where
  | notStarted
  | gating
  | reporting
  | returned
  deriving DecidableEq, Repr

/-- An ack or a nack on the channel. `task` is the task that sent it; `handle` itself sends the
nack of a message it cannot parse. -/
structure Frame where
  tag : Nat
  task : Option Nat
  settlement : Settlement

/-- `onApplicationShutdown`: cancelling the consumers one by one, then waiting for the tails
found in `userChains`, then closing. -/
inductive ShutdownPc where
  | notCalled
  | cancelling (remaining : List Nat)
  | draining (tails : List Nat)
  | closed

structure ConsumerRun where
  consumer : ConsumerState
  chains : UserChains
  work : Nat → TaskWork
  delivered : List ConsumeMessage
  sent : List Frame
  consuming : List Nat
  shutdown : ShutdownPc

inductive ConsumerAction where
  | deliver (consumerTag : Nat) (content : Content)
  | start (task : Nat)
  | gate (task : Nat) (readError : Option PgError)
  | report (task : Nat) (answers : Answers)
  | finish (task : Nat)
  | settle (task : Nat)
  | cleanup (task : Nat)
  | swapSnapshot (snapshot : Snapshot)
  | onApplicationShutdown
  | cancelled
  | drain
  | close

namespace ConsumerRun

/-- A worker that has booted and consumes with the given tags. -/
def start (db : Database) (snapshot : Snapshot) (consumerTags : List Nat) : ConsumerRun where
  consumer := ⟨⟨db, some snapshot, some .empty, {}⟩, fun _ => none, 0, 0⟩
  chains := .empty
  work := fun _ => .notStarted
  delivered := []
  sent := []
  consuming := consumerTags
  shutdown := .notCalled

/-- The tails in `userChains.values()`. -/
def tails (chains : UserChains) : List Nat :=
  (List.range chains.tasks.length).filter fun task =>
    (chains.key? task).any fun userId => chains.tail userId = some task

/-- The message and the event a task was enqueued with. -/
def job (st : ConsumerRun) (task : Nat) : Option (ConsumeMessage × LocationEventV1) :=
  (st.chains.tasks[task]?).bind fun t => t.payload.content.parse.map fun event => (t.payload, event)

/-- The task sends its frame and returns. -/
def settleDelivery (st : ConsumerRun) (task : Nat) (message : ConsumeMessage) (outcome : Outcome) :
    ConsumerRun :=
  { st with
    work := Function.update st.work task .returned
    sent := st.sent ++ [⟨message.deliveryTag, some task, outcome.settlement⟩] }

/-- A delivery reaches `handle`; the broker numbers deliveries from 1. -/
def deliver (st : ConsumerRun) (consumerTag : Nat) (content : Content) : ConsumerRun :=
  let message : ConsumeMessage := ⟨st.delivered.length + 1, consumerTag, content⟩
  match content.parse with
  | none =>
    { st with
      delivered := st.delivered ++ [message]
      sent := st.sent ++ [⟨message.deliveryTag, none, Outcome.malformed.settlement⟩] }
  | some _ =>
    { st with
      delivered := st.delivered ++ [message]
      chains := st.chains.handle message }

def step (ext : Externals) (st : ConsumerRun) : ConsumerAction → Option ConsumerRun
  | .deliver consumerTag content =>
    if consumerTag ∈ st.consuming then some (st.deliver consumerTag content) else none
  | .start task =>
    (st.chains.start? task).map fun chains =>
      { st with chains, work := Function.update st.work task .gating }
  | .gate task readError =>
    match st.work task, st.job task with
    | .gating, some (message, event) =>
      match st.consumer.gate event readError with
      | (consumer, some outcome) => some ({ st with consumer }.settleDelivery task message outcome)
      | (consumer, none) =>
        some { st with consumer, work := Function.update st.work task .reporting }
    | _, _ => none
  | .report task answers =>
    match st.work task, st.job task with
    | .reporting, some (message, event) =>
      some ({ st with consumer := (st.consumer.reportEvent ext event answers).1 }.settleDelivery task
        message (st.consumer.reportEvent ext event answers).2)
    | _, _ => none
  | .finish task =>
    if st.work task = .returned then (st.chains.finish? task).map fun chains => { st with chains }
    else none
  | .settle task => (st.chains.settle? task).map fun chains => { st with chains }
  | .cleanup task => (st.chains.cleanup? task).map fun chains => { st with chains }
  | .swapSnapshot snapshot =>
    some { st with consumer :=
      { st.consumer with service := { st.consumer.service with snapshot := some snapshot } } }
  | .onApplicationShutdown =>
    match st.shutdown with
    | .notCalled => some { st with shutdown := .cancelling st.consuming }
    | _ => none
  | .cancelled =>
    match st.shutdown with
    | .cancelling (tag :: remaining) =>
      some { st with
        consuming := st.consuming.filter (· ≠ tag)
        shutdown := .cancelling remaining }
    | _ => none
  | .drain =>
    match st.shutdown with
    | .cancelling [] => some { st with shutdown := .draining (tails st.chains) }
    | _ => none
  | .close =>
    match st.shutdown with
    | .draining awaited =>
      if awaited.all st.chains.settled then some { st with shutdown := .closed } else none
    | _ => none

def machine (ext : Externals) : Machine ConsumerRun ConsumerAction := ⟨step ext⟩

/-- Everything a step can do. -/
inductive ConsumerStep (ext : Externals) (st : ConsumerRun) : ConsumerAction → ConsumerRun → Prop where
  | malformed (consumerTag : Nat) (content : Content) (hopen : consumerTag ∈ st.consuming)
      (hparse : content.parse = none) :
    ConsumerStep ext st (.deliver consumerTag content)
      { st with
        delivered := st.delivered ++ [⟨st.delivered.length + 1, consumerTag, content⟩]
        sent := st.sent ++ [⟨st.delivered.length + 1, none, .nack true⟩] }
  | enqueued (consumerTag : Nat) (content : Content) (event : LocationEventV1)
      (hopen : consumerTag ∈ st.consuming) (hparse : content.parse = some event) :
    ConsumerStep ext st (.deliver consumerTag content)
      { st with
        delivered := st.delivered ++ [⟨st.delivered.length + 1, consumerTag, content⟩]
        chains := st.chains.append event.userId ⟨st.delivered.length + 1, consumerTag, content⟩ }
  | started (task : Nat) (chains : UserChains) (h : st.chains.start? task = some chains) :
    ConsumerStep ext st (.start task)
      { st with chains, work := Function.update st.work task .gating }
  | passed (task : Nat) (readError : Option PgError) (message : ConsumeMessage)
      (event : LocationEventV1) (consumer : ConsumerState) (hwork : st.work task = .gating)
      (hjob : st.job task = some (message, event))
      (hgate : st.consumer.gate event readError = (consumer, none)) :
    ConsumerStep ext st (.gate task readError)
      { st with consumer, work := Function.update st.work task .reporting }
  | gated (task : Nat) (readError : Option PgError) (message : ConsumeMessage)
      (event : LocationEventV1) (consumer : ConsumerState) (outcome : Outcome)
      (hwork : st.work task = .gating) (hjob : st.job task = some (message, event))
      (hgate : st.consumer.gate event readError = (consumer, some outcome)) :
    ConsumerStep ext st (.gate task readError)
      ({ st with consumer }.settleDelivery task message outcome)
  | reported (task : Nat) (answers : Answers) (message : ConsumeMessage)
      (event : LocationEventV1) (consumer : ConsumerState) (outcome : Outcome)
      (hwork : st.work task = .reporting) (hjob : st.job task = some (message, event))
      (hreport : st.consumer.reportEvent ext event answers = (consumer, outcome)) :
    ConsumerStep ext st (.report task answers)
      ({ st with consumer }.settleDelivery task message outcome)
  | finished (task : Nat) (chains : UserChains) (hwork : st.work task = .returned)
      (h : st.chains.finish? task = some chains) :
    ConsumerStep ext st (.finish task) { st with chains }
  | settled (task : Nat) (chains : UserChains) (h : st.chains.settle? task = some chains) :
    ConsumerStep ext st (.settle task) { st with chains }
  | cleaned (task : Nat) (chains : UserChains) (h : st.chains.cleanup? task = some chains) :
    ConsumerStep ext st (.cleanup task) { st with chains }
  | swapSnapshot (snapshot : Snapshot) :
    ConsumerStep ext st (.swapSnapshot snapshot) { st with consumer :=
      { st.consumer with service := { st.consumer.service with snapshot := some snapshot } } }
  | shutdownCalled :
    ConsumerStep ext st .onApplicationShutdown { st with shutdown := .cancelling st.consuming }
  | cancelled (tag : Nat) (remaining : List Nat)
      (h : st.shutdown = .cancelling (tag :: remaining)) :
    ConsumerStep ext st .cancelled
      { st with consuming := st.consuming.filter (· ≠ tag), shutdown := .cancelling remaining }
  | drained (h : st.shutdown = .cancelling []) :
    ConsumerStep ext st .drain { st with shutdown := .draining (tails st.chains) }
  | closed (awaited : List Nat) (h : st.shutdown = .draining awaited)
      (hsettled : ∀ task ∈ awaited, st.chains.settled task = true) :
    ConsumerStep ext st .close { st with shutdown := .closed }

theorem step_cases {ext : Externals} {st t : ConsumerRun} {action : ConsumerAction}
    (h : step ext st action = some t) : ConsumerStep ext st action t := by
  cases action with
  | deliver consumerTag content =>
    simp only [step] at h
    split at h
    · rename_i hopen
      cases h
      cases hparse : content.parse with
      | none =>
        simp only [deliver, hparse]
        exact .malformed consumerTag content hopen hparse
      | some event =>
        simp only [deliver, hparse, UserChains.handle, UserChains.enqueue]
        exact .enqueued consumerTag content event hopen hparse
    · cases h
  | start task =>
    obtain ⟨chains, hchains, rfl⟩ := Option.map_eq_some_iff.mp h
    exact .started task chains hchains
  | gate task readError =>
    simp only [step] at h
    split at h
    · rename_i message event hwork hjob
      split at h
      · rename_i consumer outcome hgate
        cases h
        exact .gated task readError message event consumer outcome hwork hjob hgate
      · rename_i consumer hgate
        cases h
        exact .passed task readError message event consumer hwork hjob hgate
    · cases h
  | report task answers =>
    simp only [step] at h
    split at h
    · rename_i message event hwork hjob
      cases h
      exact .reported task answers message event _ _ hwork hjob rfl
    · cases h
  | finish task =>
    simp only [step] at h
    split at h
    · rename_i hwork
      obtain ⟨chains, hchains, rfl⟩ := Option.map_eq_some_iff.mp h
      exact .finished task chains hwork hchains
    · cases h
  | settle task =>
    obtain ⟨chains, hchains, rfl⟩ := Option.map_eq_some_iff.mp h
    exact .settled task chains hchains
  | cleanup task =>
    obtain ⟨chains, hchains, rfl⟩ := Option.map_eq_some_iff.mp h
    exact .cleaned task chains hchains
  | swapSnapshot snapshot =>
    cases h
    exact .swapSnapshot snapshot
  | onApplicationShutdown =>
    simp only [step] at h
    split at h
    · cases h
      exact .shutdownCalled
    · cases h
  | cancelled =>
    simp only [step] at h
    split at h
    · rename_i tag remaining hpc
      cases h
      exact .cancelled tag remaining hpc
    · cases h
  | drain =>
    simp only [step] at h
    split at h
    · rename_i hpc
      cases h
      exact .drained hpc
    · cases h
  | close =>
    simp only [step] at h
    split at h
    · rename_i awaited hpc
      split at h
      · rename_i hall
        cases h
        exact .closed awaited hpc fun task htask => List.all_eq_true.mp hall task htask
      · cases h
    · cases h

/-- The message a task was enqueued with. -/
def message? (chains : UserChains) (task : Nat) : Option ConsumeMessage :=
  (chains.tasks[task]?).map (·.payload)

private theorem message?_congr {chains next : UserChains}
    (h : next.tasks.map (·.payload) = chains.tasks.map (·.payload)) :
    message? next = message? chains := by
  funext task
  rw [message?, ← List.getElem?_map, h, List.getElem?_map, message?]

theorem message?_of_job {st : ConsumerRun} {task : Nat} {message : ConsumeMessage}
    {event : LocationEventV1} (h : st.job task = some (message, event)) :
    message? st.chains task = some message ∧ message.content.parse = some event := by
  obtain ⟨t, ht, hevent⟩ := Option.bind_eq_some_iff.mp h
  obtain ⟨e, he, heq⟩ := Option.map_eq_some_iff.mp hevent
  cases heq
  exact ⟨by rw [message?, ht, Option.map_some], he⟩

/-- Every frame is the one frame of the message it names, sent by that message's task once its
body is over, or by `handle` for a malformed message. -/
structure Accounted (st : ConsumerRun) : Prop where
  bodies : st.chains.Follows (· = .notStarted) (· = .returned) st.work
  tags : st.delivered.map (·.deliveryTag) = List.range' 1 st.delivered.length
  queued : st.chains.tasks.map (·.payload) = st.delivered.filter (·.content.parse.isSome)
  keyed : ∀ t ∈ st.chains.tasks, t.payload.content.parse.map (·.userId) = some t.key
  own : ∀ frame ∈ st.sent,
    (∃ task message, frame.task = some task ∧ message? st.chains task = some message ∧
      message.deliveryTag = frame.tag ∧ st.work task = .returned) ∨
    (frame.task = none ∧ ∃ message ∈ st.delivered, message.deliveryTag = frame.tag ∧
      message.content.parse = none)
  returned : ∀ task message, st.work task = .returned → message? st.chains task = some message →
    ∃ frame ∈ st.sent, frame.tag = message.deliveryTag
  malformed : ∀ message ∈ st.delivered, message.content.parse = none →
    ∃ frame ∈ st.sent, frame.tag = message.deliveryTag
  once : (st.sent.map (·.tag)).Nodup

namespace Accounted

variable {st : ConsumerRun}

theorem ordered (h : Accounted st) : st.chains.Ordered := h.bodies.ordered

theorem tags_nodup (h : Accounted st) : (st.delivered.map (·.deliveryTag)).Nodup := by
  rw [h.tags]
  exact List.nodup_range'

theorem tag_le (h : Accounted st) {message : ConsumeMessage} (hmem : message ∈ st.delivered) :
    message.deliveryTag ≤ st.delivered.length := by
  have htag : message.deliveryTag ∈ st.delivered.map (·.deliveryTag) := List.mem_map_of_mem hmem
  rw [h.tags, List.mem_range'_1] at htag
  omega

theorem mem_delivered (h : Accounted st) {task : Nat} {message : ConsumeMessage}
    (hmsg : message? st.chains task = some message) :
    message ∈ st.delivered ∧ message.content.parse.isSome = true := by
  obtain ⟨t, ht, rfl⟩ := Option.map_eq_some_iff.mp hmsg
  have hmem : t.payload ∈ st.chains.tasks.map (·.payload) :=
    List.mem_map_of_mem (List.mem_of_getElem? ht)
  rw [h.queued, List.mem_filter] at hmem
  exact hmem

theorem eq_of_tag (h : Accounted st) {m m' : ConsumeMessage} (hm : m ∈ st.delivered)
    (hm' : m' ∈ st.delivered) (htag : m.deliveryTag = m'.deliveryTag) : m = m' :=
  List.inj_on_of_nodup_map h.tags_nodup hm hm' htag

private theorem task_eq_of_tag (h : Accounted st) {i j : Nat} {m m' : ConsumeMessage}
    (hi : message? st.chains i = some m) (hj : message? st.chains j = some m')
    (htag : m.deliveryTag = m'.deliveryTag) : i = j := by
  have hnodup : (st.chains.tasks.map (·.payload.deliveryTag)).Nodup := by
    have hmap : st.chains.tasks.map (·.payload.deliveryTag) =
        (st.delivered.filter (·.content.parse.isSome)).map (·.deliveryTag) := by
      rw [← h.queued, List.map_map]
      rfl
    rw [hmap]
    exact (List.filter_sublist.map _).nodup h.tags_nodup
  obtain ⟨t, ht, rfl⟩ := Option.map_eq_some_iff.mp hi
  obtain ⟨t', ht', rfl⟩ := Option.map_eq_some_iff.mp hj
  have hlt : i < (st.chains.tasks.map (·.payload.deliveryTag)).length := by
    rw [List.length_map]
    exact (List.getElem?_eq_some_iff.mp ht).1
  refine (List.getElem?_inj hlt hnodup).mp ?_
  rw [List.getElem?_map, List.getElem?_map, ht, ht', Option.map_some, Option.map_some, htag]

/-- A task whose body is still running has sent nothing, and nobody else has for it. -/
theorem tag_unsent (h : Accounted st) {task : Nat} {message : ConsumeMessage}
    (hmsg : message? st.chains task = some message) (hwork : st.work task ≠ .returned) :
    message.deliveryTag ∉ st.sent.map (·.tag) := by
  intro hmem
  obtain ⟨frame, hframe, htag⟩ := List.mem_map.mp hmem
  rcases h.own frame hframe with ⟨other, m, -, hm, hmtag, hreturned⟩ | ⟨-, m, hm, hmtag, hparse⟩
  · have heq := h.task_eq_of_tag hm hmsg (hmtag.trans htag)
    exact hwork (heq ▸ hreturned)
  · obtain ⟨hdelivered, hsome⟩ := h.mem_delivered hmsg
    rw [h.eq_of_tag hdelivered hm (htag.symm.trans hmtag.symm), hparse] at hsome
    cases hsome

theorem once_snoc (h : Accounted st) {frame : Frame}
    (hunsent : frame.tag ∉ st.sent.map (·.tag)) : ((st.sent ++ [frame]).map (·.tag)).Nodup := by
  rw [List.map_append, List.map_singleton, List.nodup_append]
  refine ⟨h.once, List.nodup_singleton _, ?_⟩
  rintro tag htag tag' htag' rfl
  rw [List.mem_singleton] at htag'
  rw [htag'] at htag
  exact hunsent htag

theorem moved (h : Accounted st) {t : ConsumerRun} {task : Nat}
    (hmoved : st.chains.Moved task t.chains)
    (hbodies : t.chains.Follows (· = .notStarted) (· = .returned) t.work)
    (hdelivered : t.delivered = st.delivered) (hsent : t.sent = st.sent)
    (hreturned : ∀ i, t.work i = .returned ↔ st.work i = .returned) : Accounted t := by
  have hqueue : t.chains.tasks.map (·.payload) = st.chains.tasks.map (·.payload) :=
    hmoved.map_eq fun _ payload => payload
  have hmessage := message?_congr hqueue
  have hpairs : t.chains.tasks.map (fun t => (t.key, t.payload)) =
      st.chains.tasks.map fun t => (t.key, t.payload) := hmoved.map_eq Prod.mk
  refine ⟨hbodies, ?_, ?_, ?_, ?_, ?_, ?_, ?_⟩
  · rw [hdelivered]
    exact h.tags
  · rw [hqueue, hdelivered]
    exact h.queued
  · intro u hu
    have hmem : (u.key, u.payload) ∈ st.chains.tasks.map fun t => (t.key, t.payload) := by
      rw [← hpairs]
      exact List.mem_map_of_mem hu
    obtain ⟨v, hv, heq⟩ := List.mem_map.mp hmem
    have hkeyed := h.keyed v hv
    rw [Prod.mk.injEq] at heq
    rwa [heq.1, heq.2] at hkeyed
  · intro frame hframe
    rw [hsent] at hframe
    rw [hmessage, hdelivered]
    simp only [hreturned]
    exact h.own frame hframe
  · intro i message hi hmsg
    rw [hmessage] at hmsg
    rw [hsent]
    exact h.returned i message ((hreturned i).mp hi) hmsg
  · rw [hdelivered, hsent]
    exact h.malformed
  · rw [hsent]
    exact h.once

/-- A task sends the one frame of its own delivery and returns. -/
theorem settleDelivery (h : Accounted st) {task : Nat} {message : ConsumeMessage}
    (hmsg : message? st.chains task = some message) (hwork : st.work task ≠ .returned)
    (hbegun : st.work task ≠ .notStarted) (consumer : ConsumerState) (outcome : Outcome) :
    Accounted ({ st with consumer }.settleDelivery task message outcome) := by
  have hself : Function.update st.work task .returned task = .returned := Function.update_self ..
  have hkeep : ∀ i, st.work i = .returned → Function.update st.work task .returned i = .returned := by
    intro i hi
    by_cases hid : i = task
    · rw [hid, hself]
    · rw [Function.update_of_ne hid, hi]
  refine ⟨h.bodies.update hbegun hwork (by decide), h.tags, h.queued, h.keyed, ?_, ?_, ?_, ?_⟩
  · intro frame hframe
    rcases List.mem_append.mp hframe with hold | hnew
    · rcases h.own frame hold with ⟨i, m, hi, hm, htag, hret⟩ | hmal
      · exact Or.inl ⟨i, m, hi, hm, htag, hkeep i hret⟩
      · exact Or.inr hmal
    · rw [List.mem_singleton] at hnew
      subst hnew
      exact Or.inl ⟨task, message, rfl, hmsg, rfl, hself⟩
  · intro i m hi hm
    by_cases hid : i = task
    · subst hid
      have heq : message = m := Option.some.inj (hmsg.symm.trans hm)
      subst heq
      exact ⟨_, List.mem_append_right _ (List.mem_singleton_self _), rfl⟩
    · have hi' : st.work i = .returned := by
        simpa [ConsumerRun.settleDelivery, Function.update_of_ne hid] using hi
      obtain ⟨frame, hframe, htag⟩ := h.returned i m hi' hm
      exact ⟨frame, List.mem_append_left _ hframe, htag⟩
  · intro m hm hparse
    obtain ⟨frame, hframe, htag⟩ := h.malformed m hm hparse
    exact ⟨frame, List.mem_append_left _ hframe, htag⟩
  · exact h.once_snoc (h.tag_unsent hmsg hwork)

private theorem tags_snoc (h : Accounted st) (consumerTag : Nat) (content : Content) :
    (st.delivered ++ [(⟨st.delivered.length + 1, consumerTag, content⟩ : ConsumeMessage)]).map
        (·.deliveryTag) =
      List.range' 1 (st.delivered ++
        [(⟨st.delivered.length + 1, consumerTag, content⟩ : ConsumeMessage)]).length := by
  rw [List.map_append, h.tags, List.map_singleton, List.length_append, List.length_singleton,
    List.range'_concat]
  simp [Nat.add_comm]

private theorem deliver_malformed (h : Accounted st) (consumerTag : Nat) {content : Content}
    (hparse : content.parse = none) : Accounted { st with
      delivered := st.delivered ++ [⟨st.delivered.length + 1, consumerTag, content⟩]
      sent := st.sent ++ [⟨st.delivered.length + 1, none, .nack true⟩] } := by
  refine ⟨h.bodies, h.tags_snoc consumerTag content, ?_, h.keyed, ?_, ?_, ?_, ?_⟩
  · rw [List.filter_append, h.queued]
    simp [hparse]
  · intro frame hframe
    rcases List.mem_append.mp hframe with hold | hnew
    · rcases h.own frame hold with hown | ⟨htask, m, hm, htag⟩
      · exact Or.inl hown
      · exact Or.inr ⟨htask, m, List.mem_append_left _ hm, htag⟩
    · rw [List.mem_singleton] at hnew
      subst hnew
      exact Or.inr ⟨rfl, _, List.mem_append_right _ (List.mem_singleton_self _), rfl, hparse⟩
  · intro i m hi hm
    obtain ⟨frame, hframe, htag⟩ := h.returned i m hi hm
    exact ⟨frame, List.mem_append_left _ hframe, htag⟩
  · intro m hm hnone
    rcases List.mem_append.mp hm with hold | hnew
    · obtain ⟨frame, hframe, htag⟩ := h.malformed m hold hnone
      exact ⟨frame, List.mem_append_left _ hframe, htag⟩
    · rw [List.mem_singleton] at hnew
      subst hnew
      exact ⟨_, List.mem_append_right _ (List.mem_singleton_self _), rfl⟩
  · apply h.once_snoc
    intro hsent
    obtain ⟨frame, hframe, htag⟩ := List.mem_map.mp hsent
    change frame.tag = st.delivered.length + 1 at htag
    have hle : frame.tag ≤ st.delivered.length := by
      rcases h.own frame hframe with ⟨i, m, -, hm, hmtag, -⟩ | ⟨-, m, hm, hmtag, -⟩
      · exact hmtag ▸ h.tag_le (h.mem_delivered hm).1
      · exact hmtag ▸ h.tag_le hm
    omega

private theorem deliver_enqueued (h : Accounted st) (consumerTag : Nat) {content : Content}
    {event : LocationEventV1} (hparse : content.parse = some event) : Accounted { st with
      delivered := st.delivered ++ [⟨st.delivered.length + 1, consumerTag, content⟩]
      chains := st.chains.append event.userId
        ⟨st.delivered.length + 1, consumerTag, content⟩ } := by
  let message : ConsumeMessage := ⟨st.delivered.length + 1, consumerTag, content⟩
  have hold : ∀ i m, message? st.chains i = some m →
      message? (st.chains.append event.userId message) i = some m := by
    intro i m hm
    obtain ⟨t, ht, rfl⟩ := Option.map_eq_some_iff.mp hm
    rw [message?, PromiseChains.append,
      List.getElem?_append_left (List.getElem?_eq_some_iff.mp ht).1, ht, Option.map_some]
  have hback : ∀ i m, i < st.chains.tasks.length →
      message? (st.chains.append event.userId message) i = some m →
      message? st.chains i = some m := by
    intro i m hi hm
    rwa [message?, PromiseChains.append, List.getElem?_append_left hi] at hm
  refine ⟨h.bodies.append _ _, h.tags_snoc consumerTag content, ?_, ?_, ?_, ?_, ?_, h.once⟩
  · rw [List.filter_append, ← h.queued]
    simp [hparse, PromiseChains.append]
  · intro t ht
    rcases List.mem_append.mp ht with hmem | hnew
    · exact h.keyed t hmem
    · rw [List.mem_singleton] at hnew
      subst hnew
      rw [hparse, Option.map_some]
  · intro frame hframe
    rcases h.own frame hframe with ⟨i, m, hi, hm, htag, hret⟩ | ⟨htask, m, hm, htag⟩
    · exact Or.inl ⟨i, m, hi, hold i m hm, htag, hret⟩
    · exact Or.inr ⟨htask, m, List.mem_append_left _ hm, htag⟩
  · intro i m hi hm
    have hi' : st.work i = .returned := hi
    exact h.returned i m hi (hback i m (h.bodies.lt_length (by rw [hi']; decide)) hm)
  · intro m hm hnone
    rcases List.mem_append.mp hm with hmem | hnew
    · exact h.malformed m hmem hnone
    · rw [List.mem_singleton] at hnew
      subst hnew
      rw [hparse] at hnone
      cases hnone

theorem pass (h : Accounted st) {task : Nat} (hwork : st.work task = .gating)
    (consumer : ConsumerState) :
    Accounted { st with consumer, work := Function.update st.work task .reporting } := by
  have hreturned : ∀ i, Function.update st.work task .reporting i = .returned ↔
      st.work i = .returned := by
    intro i
    by_cases hid : i = task
    · rw [hid, Function.update_self, hwork]
      decide
    · rw [Function.update_of_ne hid]
  refine { h with bodies := ?_, own := ?_, returned := ?_ }
  · refine h.bodies.update ?_ ?_ (by decide)
    · rw [hwork]
      decide
    · rw [hwork]
      decide
  · simp only [hreturned]
    exact h.own
  · intro i message hi
    exact h.returned i message ((hreturned i).mp hi)

theorem step {ext : Externals} {t : ConsumerRun} {action : ConsumerAction} (h : Accounted st)
    (hstep : ConsumerStep ext st action t) : Accounted t := by
  cases hstep with
  | malformed consumerTag content hopen hparse => exact h.deliver_malformed consumerTag hparse
  | enqueued consumerTag content event hopen hparse => exact h.deliver_enqueued consumerTag hparse
  | started task chains hstart =>
    obtain ⟨hwaiting, -⟩ := PromiseChains.phase?_of_start hstart
    have hidle : st.work task = .notStarted := by
      apply h.bodies.waiting
      rw [h.ordered.started.mem, hwaiting]
      simp
    refine h.moved (PromiseChains.moved_of_start hstart) (h.bodies.start hstart (by decide)) rfl rfl
      fun i => ?_
    change Function.update st.work task .gating i = .returned ↔ _
    by_cases hid : i = task
    · rw [hid, Function.update_self, hidle]
      decide
    · rw [Function.update_of_ne hid]
  | passed task readError message event consumer hwork hjob hgate => exact h.pass hwork consumer
  | gated task readError message event consumer outcome hwork hjob hgate =>
    refine h.settleDelivery (message?_of_job hjob).1 ?_ ?_ consumer outcome
    · rw [hwork]; decide
    · rw [hwork]; decide
  | reported task answers message event consumer outcome hwork hjob hreport =>
    refine h.settleDelivery (message?_of_job hjob).1 ?_ ?_ consumer outcome
    · rw [hwork]; decide
    · rw [hwork]; decide
  | finished task chains hwork hfinish =>
    exact h.moved (PromiseChains.moved_of_finish hfinish) (h.bodies.finish hfinish hwork) rfl rfl
      fun _ => Iff.rfl
  | settled task chains hsettle =>
    exact h.moved (PromiseChains.moved_of_settle hsettle) (h.bodies.settle hsettle) rfl rfl
      fun _ => Iff.rfl
  | cleaned task chains hcleanup =>
    exact h.moved (PromiseChains.moved_of_cleanup hcleanup) (h.bodies.cleanup hcleanup) rfl rfl
      fun _ => Iff.rfl
  | swapSnapshot snapshot => exact { h with }
  | shutdownCalled => exact { h with }
  | cancelled tag remaining hpc => exact { h with }
  | drained hpc => exact { h with }
  | closed awaited hpc hsettled => exact { h with }

end Accounted

/-- A task is over once its tail or a later tail of its user has settled. -/
def CoveredBy (chains : UserChains) (awaited : List Nat) : Prop :=
  ∀ task userId, chains.key? task = some userId → chains.settled task = false →
    ∃ tail ∈ awaited, task ≤ tail ∧ chains.key? tail = some userId

/-- What shutdown knows at each of its awaits. -/
def ShutdownSound (st : ConsumerRun) : Prop :=
  match st.shutdown with
  | .notCalled => True
  | .cancelling remaining => st.consuming ⊆ remaining
  | .draining awaited => st.consuming = [] ∧ CoveredBy st.chains awaited
  | .closed => st.consuming = []

private theorem coveredBy_tails {chains : UserChains} (h : chains.Ordered) :
    CoveredBy chains (tails chains) := by
  intro task userId hkey hunsettled
  obtain ⟨last, hle, hlastKey, hlast⟩ := chains.exists_last hkey
  obtain ⟨tail, htail, htailKey, htailLast⟩ := h.tail_of_unsettled hkey hunsettled
  have heq : tail = last := by
    rcases Nat.lt_trichotomy tail last with hlt | heq | hgt
    · exact absurd hlastKey (htailLast last hlt)
    · exact heq
    · exact absurd htailKey (hlast tail hgt)
  subst heq
  refine ⟨tail, List.mem_filter.mpr ⟨?_, ?_⟩, hle, htailKey⟩
  · exact List.mem_range.mpr (PromiseChains.lt_length_of_key? htailKey)
  · simp [htailKey, htail]

theorem CoveredBy.moved {chains next : UserChains} {awaited : List Nat} {task : Nat}
    (h : CoveredBy chains awaited) (hmoved : chains.Moved task next) : CoveredBy next awaited := by
  intro i userId hkey hunsettled
  rw [hmoved.key?] at hkey
  have hbefore : chains.settled i = false := by
    by_contra hs
    rw [hmoved.settled (by simpa using hs)] at hunsettled
    cases hunsettled
  obtain ⟨tail, htail, hle, htailKey⟩ := h i userId hkey hbefore
  exact ⟨tail, htail, hle, by rw [hmoved.key?, htailKey]⟩

/-- When the awaited tails have settled, so have all. -/
theorem CoveredBy.settled {chains : UserChains} {awaited : List Nat} (h : CoveredBy chains awaited)
    (hordered : chains.Ordered) (hsettled : ∀ tail ∈ awaited, chains.settled tail = true)
    {task : Nat} (htask : task < chains.tasks.length) : chains.settled task = true := by
  by_contra hunsettled
  have hkey : chains.key? task = some (chains.tasks[task]).key := by
    rw [PromiseChains.key?, List.getElem?_eq_getElem htask, Option.map_some]
  obtain ⟨tail, htail, hle, htailKey⟩ := h task _ hkey (by simpa using hunsettled)
  rcases Nat.lt_or_eq_of_le hle with hlt | rfl
  · rcases PromiseChains.settled_eq_true.mp (hsettled tail htail) with hphase | hphase
    · exact hunsettled (hordered.chained.after_settled task tail _ hlt
        (hkey.trans htailKey.symm) hphase (by decide))
    · exact hunsettled (hordered.chained.after_settled task tail _ hlt
        (hkey.trans htailKey.symm) hphase (by decide))
  · exact hunsettled (hsettled task htail)

private theorem Accounted.all_settled {st : ConsumerRun} (h : Accounted st)
    (hsettled : ∀ task, task < st.chains.tasks.length → st.chains.settled task = true) :
    ∀ message ∈ st.delivered, ∃ frame ∈ st.sent, frame.tag = message.deliveryTag := by
  intro message hmem
  cases hparse : message.content.parse with
  | none => exact h.malformed message hmem hparse
  | some event =>
    have hqueued : message ∈ st.chains.tasks.map (·.payload) := by
      rw [h.queued]
      exact List.mem_filter.mpr ⟨hmem, by rw [hparse]; rfl⟩
    obtain ⟨task, htask⟩ := List.getElem?_of_mem hqueued
    rw [List.getElem?_map] at htask
    obtain ⟨t, ht, hpayload⟩ := Option.map_eq_some_iff.mp htask
    have hlt := (List.getElem?_eq_some_iff.mp ht).1
    have hreturned : st.work task = .returned := by
      rcases PromiseChains.settled_eq_true.mp (hsettled task hlt) with hphase | hphase
      · exact h.bodies.ended task _ hphase (by decide) (by decide)
      · exact h.bodies.ended task _ hphase (by decide) (by decide)
    exact h.returned task message hreturned (by rw [message?, ht, Option.map_some, hpayload])

theorem ShutdownSound.step {ext : Externals} {st t : ConsumerRun} {action : ConsumerAction}
    (h : ShutdownSound st) (hacc : Accounted st) (hstep : ConsumerStep ext st action t) :
    ShutdownSound t := by
  have hclosed : ∀ tag, tag ∈ st.consuming → ∀ delivered chains sent,
      ShutdownSound { st with delivered, chains, sent } := by
    intro tag htag delivered chains sent
    unfold ShutdownSound at h ⊢
    cases hpc : st.shutdown with
    | notCalled => trivial
    | cancelling remaining =>
      simp only [hpc] at h ⊢
      exact h
    | draining awaited =>
      simp only [hpc] at h
      rw [h.1] at htag
      cases htag
    | closed =>
      simp only [hpc] at h ⊢
      exact h
  have hmove : ∀ task chains work, st.chains.Moved task chains →
      ShutdownSound { st with chains, work } := by
    intro task chains work hmoved
    unfold ShutdownSound at h ⊢
    cases hpc : st.shutdown with
    | notCalled => trivial
    | cancelling remaining =>
      simp only [hpc] at h ⊢
      exact h
    | draining awaited =>
      simp only [hpc] at h ⊢
      exact ⟨h.1, h.2.moved hmoved⟩
    | closed =>
      simp only [hpc] at h ⊢
      exact h
  cases hstep with
  | malformed consumerTag content hopen hparse => exact hclosed consumerTag hopen _ _ _
  | enqueued consumerTag content event hopen hparse => exact hclosed consumerTag hopen _ _ _
  | started task chains hstart => exact hmove task _ _ (PromiseChains.moved_of_start hstart)
  | passed task readError message event consumer hwork hjob hgate => exact h
  | gated task readError message event consumer outcome hwork hjob hgate => exact h
  | reported task answers message event consumer outcome hwork hjob hreport => exact h
  | finished task chains hwork hfinish =>
    exact hmove task _ _ (PromiseChains.moved_of_finish hfinish)
  | settled task chains hsettle => exact hmove task _ _ (PromiseChains.moved_of_settle hsettle)
  | cleaned task chains hcleanup => exact hmove task _ _ (PromiseChains.moved_of_cleanup hcleanup)
  | swapSnapshot snapshot => exact h
  | shutdownCalled => exact List.Subset.refl _
  | cancelled tag remaining hpc =>
    unfold ShutdownSound at h
    rw [hpc] at h
    intro other hother
    obtain ⟨hmem, hne⟩ := List.mem_filter.mp hother
    rcases List.mem_cons.mp (h hmem) with rfl | hrest
    · simp at hne
    · exact hrest
  | drained hpc =>
    unfold ShutdownSound at h
    rw [hpc] at h
    exact ⟨List.subset_nil.mp h, coveredBy_tails hacc.ordered⟩
  | closed awaited hpc hsettled =>
    unfold ShutdownSound at h
    rw [hpc] at h
    exact h.1

end ConsumerRun

/-- One of the two awaits of `processEvent` threw the error, on the answers it was given. -/
inductive Threw (ext : Externals) (before after : ConsumerState) (event : LocationEventV1)
    (task : Nat) : ConsumerAction → ServiceError → Prop where
  | gate (readError : Option PgError) (error : ServiceError)
      (h : isDuplicate before.lastSeqByDevice before.service.db.eventState event readError =
        .error error)
      (hservice : after.service = before.service) :
    Threw ext before after event task (.gate task readError) error
  | report (answers : Answers) (error : ServiceError)
      (h : (report ext before.service event.reportDto event.receivedAt answers).result =
        .error error)
      (hservice : after.service =
        (report ext before.service event.reportDto event.receivedAt answers).state) :
    Threw ext before after event task (.report task answers) error

/-- The grounds on which a task may settle its delivery in the step that ends its body: what the
await it returned from was answered, and what became of the tables. -/
inductive Justified (ext : Externals) (before after : ConsumerState) (event : LocationEventV1)
    (task : Nat) : ConsumerAction → Settlement → Prop where
  | duplicate (readError : Option PgError) (lastSeqByDevice : LastSeqByDevice)
      (h : isDuplicate before.lastSeqByDevice before.service.db.eventState event readError =
        .ok (lastSeqByDevice, true))
      (hservice : after.service = before.service) :
    Justified ext before after event task (.gate task readError) .ack
  | unchanged (answers : Answers) (call : ReportCall)
      (memory memory' : PresenceMemory) (hint : List AreaId)
      (hcall : callOf ext before.service.snapshot event = .ok call)
      (hmemory : before.service.memory = some memory)
      (hhint : Hinted memory before.service.db.presence event.userId memory' hint)
      (hsame : differs call.currentAreaIds hint = false)
      (hservice : after.service = { before.service with memory := some memory' }) :
    Justified ext before after event task (.report task answers) .ack
  | committed (answers : Answers) (call : ReportCall) (result : TransactionResult)
      (hcall : callOf ext before.service.snapshot event = .ok call)
      (hfate : answers.fate = .completes)
      (htx : transaction ext.pg call before.service.db = .ok (after.service.db, result)) :
    Justified ext before after event task (.report task answers) .ack
  | staleArea (action : ConsumerAction) (driver : PgError) (constraint : String)
      (hthrew : Threw ext before after event task action (.queryFailed driver))
      (hcode : driver.code = "23503") (hconstraint : driver.constraint = some constraint)
      (harea : "area".toList <:+: constraint.toList) :
    Justified ext before after event task action .ack
  | failed (action : ConsumerAction) (error : ServiceError)
      (hthrew : Threw ext before after event task action error)
      (hnot : isStaleAreaViolation error = false) :
    Justified ext before after event task action (.nack true)

private theorem isStaleAreaViolation_eq_true {error : ServiceError}
    (h : isStaleAreaViolation error = true) :
    ∃ driver constraint, error = .queryFailed driver ∧ driver.code = "23503" ∧
      driver.constraint = some constraint ∧ "area".toList <:+: constraint.toList := by
  cases error with
  | unprocessable accuracy => cases h
  | snapshotNotBuilt => cases h
  | queryFailed driver =>
    simp only [isStaleAreaViolation, Bool.and_eq_true, decide_eq_true_eq] at h
    obtain ⟨constraint, hconstraint, harea⟩ := (Option.any_eq_true ..).mp h.2
    exact ⟨driver, constraint, rfl, h.1, hconstraint, of_decide_eq_true harea⟩

namespace ConsumerRun

theorem gate_service (st : ConsumerState) (event : LocationEventV1) (readError : Option PgError) :
    (st.gate event readError).1.service = st.service := by
  unfold ConsumerState.gate
  split
  · unfold ConsumerState.caught
    split <;> rfl
  · rfl
  · rfl

theorem reportEvent_service (ext : Externals) (st : ConsumerState) (event : LocationEventV1)
    (answers : Answers) : (st.reportEvent ext event answers).1.service =
      (report ext st.service event.reportDto event.receivedAt answers).state := by
  simp only [ConsumerState.reportEvent]
  split
  · rfl
  · unfold ConsumerState.caught
    split <;> rfl

end ConsumerRun

theorem justified_failed {ext : Externals} {before after : ConsumerState} {event : LocationEventV1}
    {task : Nat} {action : ConsumerAction} {error : ServiceError}
    (hthrew : Threw ext before after event task action error) :
    Justified ext before after event task action (Outcome.failed error).settlement := by
  rw [Outcome.settlement]
  by_cases hstale : isStaleAreaViolation error = true
  · rw [if_pos hstale]
    obtain ⟨driver, constraint, rfl, hcode, hconstraint, harea⟩ :=
      isStaleAreaViolation_eq_true hstale
    exact .staleArea action driver constraint hthrew hcode hconstraint harea
  · rw [if_neg hstale]
    exact .failed action error hthrew (by simpa using hstale)

private theorem gate_justified (ext : Externals) {before after : ConsumerState}
    {event : LocationEventV1} {readError : Option PgError} {outcome : Outcome} (task : Nat)
    (h : before.gate event readError = (after, some outcome)) :
    Justified ext before after event task (.gate task readError) outcome.settlement := by
  have hservice := ConsumerRun.gate_service before event readError
  rw [h] at hservice
  unfold ConsumerState.gate at h
  split at h
  · rename_i error herror
    cases h
    exact justified_failed (.gate readError error herror hservice)
  · rename_i lastSeqByDevice hdup
    cases h
    exact .duplicate readError lastSeqByDevice hdup rfl
  · cases h

private theorem reportEvent_justified {ext : Externals} {before after : ConsumerState}
    {event : LocationEventV1} {answers : Answers} {outcome : Outcome} {memory : PresenceMemory}
    (hmemory : before.service.memory = some memory) (task : Nat)
    (h : before.reportEvent ext event answers = (after, outcome)) :
    Justified ext before after event task (.report task answers) outcome.settlement := by
  have hcases := report_cases ext hmemory event answers
  have hservice := ConsumerRun.reportEvent_service ext before event answers
  rw [h] at hservice
  unfold ConsumerState.reportEvent at h
  cases hresult : (report ext before.service event.reportDto event.receivedAt answers).result with
  | error e =>
    simp only [hresult, Prod.mk.injEq] at h
    rw [← h.2]
    exact justified_failed (.report answers e hresult hservice)
  | ok response =>
    simp only [hresult, Prod.mk.injEq] at h
    obtain ⟨rfl, rfl⟩ := h
    generalize report ext before.service event.reportDto event.receivedAt answers = r
      at hcases hresult
    cases hcases with
    | threw e => cases hresult
    | unchanged call memory' hint hcall hhint hsame =>
      exact .unchanged answers call memory memory' hint hcall hmemory hhint hsame rfl
    | rolledBack call memory' hint e hcall hhint hdiff => cases hresult
    | commitLost call memory' hint db result e hcall hhint hdiff hfate htx => cases hresult
    | committed call memory' hint db result hcall hhint hdiff hfate htx =>
      exact .committed answers call result hcall hfate htx

theorem WorkerReport.memory {ext : Externals} {st : ServiceState} {memory : PresenceMemory}
    {event : LocationEventV1} {answers : Answers} {outcome : ReportOutcome}
    (h : WorkerReport ext st memory event answers outcome) (hmemory : st.memory = some memory) :
    ∃ memory', outcome.state.memory = some memory' := by
  cases h with
  | threw e => exact ⟨memory, hmemory⟩
  | unchanged call memory' hint hcall hhint hsame => exact ⟨memory', rfl⟩
  | rolledBack call memory' hint e hcall hhint hdiff => exact ⟨memory', rfl⟩
  | commitLost call memory' hint db result e hcall hhint hdiff hfate htx => exact ⟨memory', rfl⟩
  | committed call memory' hint db result hcall hhint hdiff hfate htx =>
    unfold afterCommit
    cases result.duplicate
    · exact ⟨_, rfl⟩
    · exact ⟨memory', rfl⟩

namespace ConsumerRun

private theorem reportEvent_memory (ext : Externals) {st : ConsumerState} {memory : PresenceMemory}
    (hmemory : st.service.memory = some memory) (event : LocationEventV1) (answers : Answers) :
    ∃ memory', (st.reportEvent ext event answers).1.service.memory = some memory' := by
  rw [reportEvent_service]
  exact (report_cases ext hmemory event answers).memory hmemory

/-- What every reachable consumer keeps. -/
structure Disciplined (st : ConsumerRun) : Prop where
  accounted : Accounted st
  shutdown : ShutdownSound st
  memory : ∃ memory, st.consumer.service.memory = some memory

theorem disciplined_start (db : Database) (snapshot : Snapshot) (consumerTags : List Nat) :
    Disciplined (start db snapshot consumerTags) := by
  refine ⟨⟨.empty rfl, rfl, rfl, ?_, ?_, ?_, ?_, List.nodup_nil⟩, trivial, ⟨_, rfl⟩⟩
  · intro t ht
    cases ht
  · intro frame hframe
    cases hframe
  · intro task message hwork
    cases hwork
  · intro message hmessage
    cases hmessage

theorem Disciplined.step {ext : Externals} {st t : ConsumerRun} {action : ConsumerAction}
    (h : Disciplined st) (hstep : ConsumerStep ext st action t) : Disciplined t := by
  refine ⟨h.accounted.step hstep, h.shutdown.step h.accounted hstep, ?_⟩
  obtain ⟨memory, hmemory⟩ := h.memory
  cases hstep with
  | passed task readError message event consumer hwork hjob hgate =>
    have hservice := gate_service st.consumer event readError
    rw [hgate] at hservice
    exact ⟨memory, by rw [← hmemory, ← hservice]⟩
  | gated task readError message event consumer outcome hwork hjob hgate =>
    have hservice := gate_service st.consumer event readError
    rw [hgate] at hservice
    exact ⟨memory, by rw [← hmemory, ← hservice]; rfl⟩
  | reported task answers message event consumer outcome hwork hjob hreport =>
    have hmem := reportEvent_memory ext hmemory event answers
    rw [hreport] at hmem
    exact hmem
  | _ => exact ⟨memory, hmemory⟩

/-- The settlement discipline of a reachable consumer. -/
structure SettlementDiscipline (ext : Externals) (st : ConsumerRun) : Prop where
  /-- No delivery is settled twice. -/
  once : (st.sent.map (·.tag)).Nodup
  /-- A frame names the delivery of the task that sent it, or a malformed one. -/
  own : ∀ frame ∈ st.sent,
    (∃ task message, frame.task = some task ∧ message? st.chains task = some message ∧
      message ∈ st.delivered ∧ message.deliveryTag = frame.tag) ∨
    (frame.task = none ∧ ∃ message ∈ st.delivered, message.deliveryTag = frame.tag ∧
      message.content.parse = none)
  /-- A frame is sent by a step on the grounds of its settlement: an ack for a duplicate, an event
  that needed no write, a committed transaction or a stale area, and a requeueing nack otherwise. -/
  grounds : ∀ action next, step ext st action = some next → ∀ frame ∈ next.sent,
    frame ∈ st.sent ∨
    (∃ task message event, st.job task = some (message, event) ∧ frame.task = some task ∧
      frame.tag = message.deliveryTag ∧
      Justified ext st.consumer next.consumer event task action frame.settlement) ∨
    (frame.task = none ∧ frame.settlement = .nack true ∧ ∃ message ∈ next.delivered,
      message.deliveryTag = frame.tag ∧ message.content.parse = none)
  /-- When shutdown closes the channel, every message delivered so far has been settled. -/
  closes : ∀ next, step ext st .close = some next → ∀ message ∈ st.delivered,
    ∃ frame ∈ st.sent, frame.tag = message.deliveryTag

theorem settlement_discipline (ext : Externals) (db : Database) (snapshot : Snapshot)
    (consumerTags : List Nat) (actions : List ConsumerAction) (st : ConsumerRun)
    (hrun : (machine ext).run (start db snapshot consumerTags) actions = some st) :
    SettlementDiscipline ext st := by
  have h : Disciplined st :=
    (machine ext).run_invariant (fun _ _ _ hs hstep => Disciplined.step hs (step_cases hstep))
      (disciplined_start db snapshot consumerTags) hrun
  refine ⟨h.accounted.once, ?_, ?_, ?_⟩
  · intro frame hframe
    rcases h.accounted.own frame hframe with ⟨task, message, htask, hmsg, htag, -⟩ | hmal
    · exact Or.inl ⟨task, message, htask, hmsg, (h.accounted.mem_delivered hmsg).1, htag⟩
    · exact Or.inr hmal
  · intro action next hstep frame hframe
    obtain ⟨memory, hmemory⟩ := h.memory
    cases step_cases hstep with
    | malformed consumerTag content hopen hparse =>
      rcases List.mem_append.mp hframe with hold | hnew
      · exact Or.inl hold
      · rw [List.mem_singleton] at hnew
        subst hnew
        exact Or.inr (Or.inr ⟨rfl, rfl, _,
          List.mem_append_right _ (List.mem_singleton_self _), rfl, hparse⟩)
    | gated task readError message event consumer outcome hwork hjob hgate =>
      rcases List.mem_append.mp hframe with hold | hnew
      · exact Or.inl hold
      · rw [List.mem_singleton] at hnew
        subst hnew
        exact Or.inr (Or.inl ⟨task, message, event, hjob, rfl, rfl, gate_justified ext task hgate⟩)
    | reported task answers message event consumer outcome hwork hjob hreport =>
      rcases List.mem_append.mp hframe with hold | hnew
      · exact Or.inl hold
      · rw [List.mem_singleton] at hnew
        subst hnew
        exact Or.inr (Or.inl ⟨task, message, event, hjob, rfl, rfl,
          reportEvent_justified hmemory task hreport⟩)
    | _ => exact Or.inl hframe
  · intro next hstep
    have hclose : ConsumerStep ext st .close next := step_cases hstep
    cases hclose with
    | closed awaited hpc hsettled =>
      have hsound := h.shutdown
      unfold ShutdownSound at hsound
      rw [hpc] at hsound
      exact h.accounted.all_settled fun task htask =>
        hsound.2.settled h.accounted.ordered hsettled htask

private def contentOf (eventId : Nat) (userId : UserId) : Content :=
  .json 1 { eventId := eventId, userId := userId, lat := 1, lng := 1, receivedAt := eventId }

/-- A malformed message, a commit, and a failed event delivered while shutdown was cancelling. -/
private def shutdownRun : List ConsumerAction :=
  [.deliver 0 .unparseable, .deliver 0 (contentOf 1 "u"), .onApplicationShutdown,
    .deliver 1 (contentOf 2 "v"), .cancelled, .start 0, .gate 0 none, .report 0 {}, .finish 0,
    .settle 0, .cancelled, .drain, .start 1, .gate 1 none,
    .report 1 { fate := .rolledBack ⟨"57014", none⟩ }, .finish 1, .settle 1, .close]

theorem settlement_discipline_shutdown :
    ∃ st, (machine .reference).run (start (.initial sampleAreas) ⟨1, sampleAreas⟩ [0, 1])
        shutdownRun = some st ∧ SettlementDiscipline .reference st ∧
      st.sent.map (fun frame => (frame.tag, frame.settlement)) =
        [(1, .nack true), (2, .ack), (3, .nack true)] ∧ st.delivered.length = 3 := by
  have hend : ((machine .reference).run (start (.initial sampleAreas) ⟨1, sampleAreas⟩ [0, 1])
      shutdownRun).any (fun st => decide (st.sent.map (fun frame => (frame.tag, frame.settlement)) =
        [(1, .nack true), (2, .ack), (3, .nack true)] ∧ st.delivered.length = 3)) = true := by
    decide +kernel
  obtain ⟨st, hrun, hst⟩ := Machine.exists_end _ hend
  exact ⟨st, hrun, settlement_discipline .reference _ _ [0, 1] shutdownRun st hrun,
    hst⟩

end ConsumerRun

end Geofence
