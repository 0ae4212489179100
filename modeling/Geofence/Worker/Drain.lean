import Geofence.Worker.EventPath
import Mathlib.Algebra.BigOperators.Fin
import Mathlib.Algebra.Order.BigOperators.Group.Finset
/-!
# Draining the queues

A delivery is worth eight steps of the broker and the worker: the delivery itself, the start of
its task, the two awaits of the task's body, the end of the task, the settling and the cleanup of
its tail, and the arrival of its frame. The retry policy bounds the deliveries of a message, so
all messages together are worth a bounded number of steps, and what stops short of them is a state
in which nothing is left to do.
-/

namespace Geofence

open Framework

/-- The steps of the broker and of the worker; the others are new messages, crashes and the
publisher's own. -/
def PipelineAction.isProgress : PipelineAction → Bool
  | .deliver _ | .redeliver _ | .work _ | .receiveFrame => true
  | .publish _ | .swapSnapshot _ | .crash _ => false

def EventPathAction.isProgress : EventPathAction → Bool
  | .pipeline action => action.isProgress
  | .api _ => false

/-! ## The steps a task still has before it -/

/-- The steps of a body and the frame it sends. -/
def TaskWork.steps : TaskWork → Nat
  | .notStarted | .gating => 3
  | .reporting => 2
  | .returned => 0

namespace ConsumerRun

variable {ext : Externals} {st t : ConsumerRun}

/-- The callbacks, the body steps and the frames that the tasks still owe. -/
def load (st : ConsumerRun) : Nat :=
  st.chains.remaining + ∑ task ∈ Finset.range st.chains.tasks.length, (st.work task).steps

private theorem sum_steps_update (work : Nat → TaskWork) {n task : Nat} (htask : task < n)
    (next : TaskWork) :
    ∑ i ∈ Finset.range n, (Function.update work task next i).steps + (work task).steps =
      ∑ i ∈ Finset.range n, (work i).steps + next.steps := by
  have hmem : task ∈ Finset.range n := Finset.mem_range.mpr htask
  have hnew := Finset.add_sum_erase (Finset.range n)
    (fun i => (Function.update work task next i).steps) hmem
  have hold := Finset.add_sum_erase (Finset.range n) (fun i => (work i).steps) hmem
  have hsame : ∑ i ∈ (Finset.range n).erase task, (Function.update work task next i).steps =
      ∑ i ∈ (Finset.range n).erase task, (work i).steps := by
    apply Finset.sum_congr rfl
    intro i hi
    rw [Function.update_of_ne (Finset.ne_of_mem_erase hi)]
  simp only [Function.update_self] at hnew
  omega

theorem tasks_length_of_moved {chains next : UserChains} {task : Nat}
    (hmoved : chains.Moved task next) : next.tasks.length = chains.tasks.length := by
  have hpayloads := congrArg List.length (hmoved.map_eq fun _ payload => payload)
  simpa only [List.length_map] using hpayloads

private theorem load_update (st u : ConsumerRun) {task : Nat}
    (htask : task < st.chains.tasks.length) (next : TaskWork) (hchains : u.chains = st.chains)
    (hwork : u.work = Function.update st.work task next) :
    u.load + (st.work task).steps = st.load + next.steps := by
  have hsum := sum_steps_update st.work htask next
  rw [load, load, hchains, hwork]
  omega

private theorem load_callback (u : ConsumerRun) {task : Nat}
    (hmoved : st.chains.Moved task u.chains) (hwork : u.work = st.work) : u.load + 1 = st.load := by
  have hremaining := hmoved.remaining
  rw [load, load, tasks_length_of_moved hmoved, hwork]
  omega

private theorem load_of_work (h : Accounted st) {action : ConsumerAction}
    (hwork : action.isWork = true) (hstep : ConsumerStep ext st action t) :
    t.load + t.sent.length + 1 ≤ st.load + st.sent.length := by
  have hjobs : ∀ task, st.work task ≠ .notStarted → task < st.chains.tasks.length :=
    fun task hbegun => h.bodies.lt_length hbegun
  cases hstep with
  | malformed consumerTag content hopen hparse => cases hwork
  | enqueued consumerTag content event hopen hparse => cases hwork
  | started task chains hstart =>
    obtain ⟨hwaiting, -⟩ := PromiseChains.phase?_of_start hstart
    have hmoved := PromiseChains.moved_of_start hstart
    have hidle : st.work task = .notStarted := by
      apply h.bodies.waiting
      rw [h.ordered.started.mem, hwaiting]
      simp
    have hremaining := hmoved.remaining
    have hsum := sum_steps_update st.work (PromiseChains.lt_length_of_phase? hwaiting) .gating
    rw [hidle] at hsum
    change chains.remaining + ∑ i ∈ Finset.range chains.tasks.length,
      (Function.update st.work task .gating i).steps + st.sent.length + 1 ≤ _
    rw [tasks_length_of_moved hmoved, load]
    have hsame : TaskWork.notStarted.steps = TaskWork.gating.steps := rfl
    omega
  | passed task readError message event consumer hgating hjob hgate =>
    have hload := load_update st
      { st with consumer, work := Function.update st.work task .reporting }
      (hjobs task (by rw [hgating]; decide)) .reporting rfl rfl
    rw [hgating] at hload
    simp only [TaskWork.steps] at hload ⊢
    omega
  | gated task readError message event consumer outcome hgating hjob hgate =>
    have hload := load_update st ({ st with consumer }.settleDelivery task message outcome)
      (hjobs task (by rw [hgating]; decide)) .returned rfl rfl
    have hsent : ({ st with consumer }.settleDelivery task message outcome).sent.length =
        st.sent.length + 1 := List.length_append
    rw [hgating] at hload
    simp only [TaskWork.steps] at hload
    omega
  | reported task answers message event consumer outcome hreporting hjob hreport =>
    have hload := load_update st ({ st with consumer }.settleDelivery task message outcome)
      (hjobs task (by rw [hreporting]; decide)) .returned rfl rfl
    have hsent : ({ st with consumer }.settleDelivery task message outcome).sent.length =
        st.sent.length + 1 := List.length_append
    rw [hreporting] at hload
    simp only [TaskWork.steps] at hload
    omega
  | finished task chains hreturned hfinish =>
    have hload := load_callback { st with chains } (PromiseChains.moved_of_finish hfinish) rfl
    change _ + st.sent.length + 1 ≤ _
    omega
  | settled task chains hsettle =>
    have hload := load_callback { st with chains } (PromiseChains.moved_of_settle hsettle) rfl
    change _ + st.sent.length + 1 ≤ _
    omega
  | cleaned task chains hcleanup =>
    have hload := load_callback { st with chains } (PromiseChains.moved_of_cleanup hcleanup) rfl
    change _ + st.sent.length + 1 ≤ _
    omega
  | swapSnapshot _ | shutdownCalled | cancelled _ _ _ | drained _ | closed _ _ _ => cases hwork

private theorem load_of_deliver (h : Accounted st) {consumerTag : Nat} {content : Content}
    {event : LocationEventV1} (hparse : content.parse = some event) :
    (st.deliver consumerTag content).load = st.load + 7 := by
  have hidle : st.work st.chains.tasks.length = .notStarted := by
    apply h.bodies.waiting
    intro hstarted
    obtain ⟨phase, hphase, -⟩ := (h.ordered.started.mem _).mp hstarted
    exact Nat.lt_irrefl _ (PromiseChains.lt_length_of_phase? hphase)
  simp only [deliver, hparse, UserChains.handle, UserChains.enqueue, load,
    PromiseChains.length_append, Finset.sum_range_succ, hidle, TaskWork.steps]
  simp only [PromiseChains.remaining, PromiseChains.append, List.map_append, List.sum_append,
    List.map_cons, List.map_nil, List.sum_cons, List.sum_nil, PromiseChains.phaseRemaining]
  omega

private theorem cleaned_of_stuck (h : Accounted st)
    (hstuck : ∀ action : ConsumerAction, action.isWork = true → step ext st action = none)
    {task : Nat} {phase : TaskPhase} (hphase : st.chains.phase? task = some phase) :
    phase = .cleaned := by
  by_contra hopen
  obtain ⟨j, -, henabled⟩ := h.ordered.exists_enabled hphase hopen
  rcases henabled with hstart | hfinish | hsettle | hcleanup
  · have hnone := hstuck (.start j) rfl
    simp only [step, Option.map_eq_none_iff] at hnone
    simp [hnone] at hstart
  · have hrunning : st.chains.phase? j = some .running := by
      unfold PromiseChains.finish? at hfinish
      split at hfinish
      · assumption
      · cases hfinish
    have hbegun := h.bodies.running j hrunning
    obtain ⟨t, ht, -⟩ := Option.map_eq_some_iff.mp hrunning
    obtain ⟨event, hevent, -⟩ := Option.map_eq_some_iff.mp (h.keyed t (List.mem_of_getElem? ht))
    have hjob : st.job j = some (t.payload, event) := by
      rw [job, ht, Option.bind_some, hevent, Option.map_some]
    cases hwork : st.work j with
    | notStarted => exact hbegun hwork
    | gating =>
      have hnone := hstuck (.gate j none) rfl
      simp only [step, hwork, hjob] at hnone
      split at hnone <;> cases hnone
    | reporting =>
      have hnone := hstuck (.report j {}) rfl
      simp only [step, hwork, hjob] at hnone
      cases hnone
    | returned =>
      have hnone := hstuck (.finish j) rfl
      simp only [step, hwork, if_true, Option.map_eq_none_iff] at hnone
      simp [hnone] at hfinish
  · have hnone := hstuck (.settle j) rfl
    simp only [step, Option.map_eq_none_iff] at hnone
    simp [hnone] at hsettle
  · have hnone := hstuck (.cleanup j) rfl
    simp only [step, Option.map_eq_none_iff] at hnone
    simp [hnone] at hcleanup

private theorem sent_of_cleaned (h : Accounted st)
    (hcleaned : ∀ task phase, st.chains.phase? task = some phase → phase = .cleaned)
    {message : ConsumeMessage} (hmessage : message ∈ st.delivered) {event : LocationEventV1}
    (hevent : message.content.parse = some event) :
    message.deliveryTag ∈ st.sent.map (·.tag) := by
  have hqueued : message ∈ st.chains.tasks.map (·.payload) := by
    rw [h.queued, List.mem_filter, hevent]
    exact ⟨hmessage, rfl⟩
  obtain ⟨t, ht, rfl⟩ := List.mem_map.mp hqueued
  obtain ⟨task, htask⟩ := List.mem_iff_getElem?.mp ht
  have hphase : st.chains.phase? task = some t.phase := by
    rw [PromiseChains.phase?, htask, Option.map_some]
  have hclean := hcleaned task t.phase hphase
  rw [hclean] at hphase
  have hreturned := h.bodies.ended task .cleaned hphase (by decide) (by decide)
  have hmessage? : message? st.chains task = some t.payload := by
    rw [message?, htask, Option.map_some]
  obtain ⟨frame, hframe, htag⟩ := h.returned task t.payload hreturned hmessage?
  exact List.mem_map.mpr ⟨frame, hframe, htag⟩

theorem consuming_of_step {action : ConsumerAction} (hstep : ConsumerStep ext st action t)
    (haction : action ≠ .cancelled) : t.consuming = st.consuming := by
  cases hstep with
  | cancelled tag remaining h => exact absurd rfl haction
  | _ => rfl

end ConsumerRun

namespace Pipeline

variable {topology : Topology} {ext : Externals} {st t : Pipeline}

theorem consuming_of_step {action : PipelineAction} (hstep : st.step topology ext action = some t)
    (hconsuming : st.worker.consuming = topology.partitions) :
    t.worker.consuming = topology.partitions := by
  have hcases := step_cases hstep
  cases hcases with
  | published event => exact hconsuming
  | pushed _ _ event partition hpublished hdeliver hsame =>
    rw [← hconsuming]
    exact ConsumerRun.consuming_of_step (ConsumerRun.step_cases hdeliver) (by simp)
  | worked action worker hwork hworker =>
    rw [← hconsuming]
    refine ConsumerRun.consuming_of_step (ConsumerRun.step_cases hworker) ?_
    rintro rfl
    cases hwork
  | received _ hworker hsame =>
    rw [hworker]
    exact hconsuming
  | swapped snapshot worker hadmits hworker =>
    rw [← hconsuming]
    exact ConsumerRun.consuming_of_step (ConsumerRun.step_cases hworker) (by simp)
  | crashed snapshot _ consumerTags hadmits hworker hsame =>
    simp only [step, hadmits, if_true, Option.some.injEq] at hstep
    rw [← hstep]
    rfl

private theorem push_isSome (hidle : ∀ message ∈ st.worker.delivered, st.unsettled message = false)
    (hconsuming : st.worker.consuming = topology.partitions)
    (hcovers : ∀ userId, topology.partitionOf userId ∈ topology.partitions)
    (hprefetch : 0 < topology.prefetch) {eventId : Nat}
    (hpublished : eventId < st.published.length) :
    (st.push topology ext eventId).isSome = true := by
  have hnone : ∀ partition, st.unacked partition = 0 := by
    intro partition
    rw [unacked, List.length_eq_zero_iff, List.filter_eq_nil_iff]
    intro message hmessage
    have hsettled := hidle message hmessage
    rw [unsettled] at hsettled
    rw [hsettled, Bool.and_false]
    exact Bool.false_ne_true
  rw [push, List.getElem?_eq_getElem hpublished]
  simp only [hnone, if_pos hprefetch, ConsumerRun.step, hconsuming, if_pos (hcovers _)]
  rfl

/-- What is still to come of the messages that the worker has been given. -/
def owed (st : Pipeline) : Nat := st.worker.load + (st.worker.sent.length - st.framesSeen)

private theorem Brokered.load_of_push (h : Brokered st) {eventId : Nat}
    (hpush : st.push topology ext eventId = some t) : t.worker.load = st.worker.load + 7 := by
  unfold Pipeline.push at hpush
  split at hpush
  · cases hpush
  · simp only at hpush
    split at hpush
    · obtain ⟨worker, hworker, rfl⟩ := Option.map_eq_some_iff.mp hpush
      simp only [ConsumerRun.step] at hworker
      split at hworker
      · cases hworker
        exact ConsumerRun.load_of_deliver h.tracked.worker.accounted rfl
      · cases hworker
    · cases hpush

private theorem owed_of_push (h : Brokered st) {eventId : Nat}
    (hplaces : ∀ k, st.ready.count k + st.requeued.count k ≤ 1)
    (hfrom : eventId ∈ st.ready ∨ eventId ∈ st.requeued)
    (hpush : st.push topology ext eventId = some t) :
    t.published = st.published ∧ (∀ k ∈ attempted st t, k ∈ st.ready ∨ k ∈ st.requeued) ∧
      1 + t.owed ≤ st.owed + 8 * (attempted st t).length := by
  have hload := h.load_of_push hpush
  obtain ⟨htransfer, hsent, hseen, message, hdelivered, event, hevent⟩ :
      Transfer [] st t (attempted st t) [] ∧ _ := h.push hplaces hfrom hpush
  have hone : (attempted st t).length = 1 := by
    simp [attempted, hdelivered, idsOf, hevent]
  refine ⟨htransfer.published, htransfer.attempted, ?_⟩
  rw [owed, owed, hload, hsent, hseen, hone]
  omega

/-- A step of the broker or the worker uses up one of the steps owed, and a delivery adds eight. -/
private theorem Brokered.owed_of_step (h : Brokered st) {action : PipelineAction}
    (hplaces : ∀ k, st.ready.count k + st.requeued.count k ≤ 1)
    (hstored : ∀ event, action ≠ .publish event)
    (hstep : st.step topology ext action = some t) :
    t.published = st.published ∧ (∀ k ∈ attempted st t, k ∈ st.ready ∨ k ∈ st.requeued) ∧
      (if action.isProgress then 1 else 0) + t.owed ≤ st.owed + 8 * (attempted st t).length := by
  have hnone : t.worker.delivered = st.worker.delivered →
      ∀ k ∈ attempted st t, k ∈ st.ready ∨ k ∈ st.requeued := by
    intro hdelivered k hk
    rw [attempted_eq_nil hdelivered] at hk
    cases hk
  cases action with
  | publish event => exact absurd rfl (hstored event)
  | deliver partition =>
    obtain ⟨eventId, hhead, hpush⟩ := Option.bind_eq_some_iff.mp hstep
    exact owed_of_push h hplaces (Or.inl (List.mem_of_find?_eq_some hhead)) hpush
  | redeliver eventId =>
    simp only [step] at hstep
    split at hstep
    · rename_i hrequeued
      exact owed_of_push h hplaces (Or.inr hrequeued) hstep
    · cases hstep
  | work action =>
    simp only [step] at hstep
    split at hstep
    · rename_i hwork
      obtain ⟨worker, hworker, hpipeline⟩ := Option.map_eq_some_iff.mp hstep
      have hnext : t.worker = worker := by rw [← hpipeline]
      have hpublished : t.published = st.published := by rw [← hpipeline]
      have hseen : t.framesSeen = st.framesSeen := by rw [← hpipeline]
      have hload := ConsumerRun.load_of_work h.tracked.worker.accounted hwork
        (ConsumerRun.step_cases hworker)
      obtain ⟨hdelivered, hsent⟩ := sent_of_work h hwork hworker
      have hlonger : st.worker.sent.length ≤ worker.sent.length := by
        rcases hsent with hsame | ⟨frame, -, -, hnew, -⟩
        · rw [hsame]
        · rw [hnew, List.length_append]
          exact Nat.le_add_right _ _
      have hle := h.seen
      refine ⟨hpublished, hnone (by rw [hnext, hdelivered]), ?_⟩
      rw [owed, owed, hnext, hseen]
      simp only [PipelineAction.isProgress, if_true]
      omega
    · cases hstep
  | receiveFrame =>
    obtain ⟨htransfer, hworker, hseen, -⟩ :
        Transfer [] st t (attempted st t) (returned st t .receiveFrame) ∧ _ := h.receiveFrame hstep
    have hnextSeen : t.framesSeen = st.framesSeen + 1 := by
      simp only [step, Pipeline.receiveFrame] at hstep
      split at hstep
      · cases hstep
      · split at hstep <;> cases hstep <;> rfl
    refine ⟨htransfer.published, htransfer.attempted, ?_⟩
    rw [owed, owed, hworker]
    simp only [PipelineAction.isProgress, if_true]
    omega
  | swapSnapshot snapshot =>
    simp only [step] at hstep
    split at hstep
    · obtain ⟨worker, hworker, rfl⟩ := Option.map_eq_some_iff.mp hstep
      cases hworker
      refine ⟨rfl, hnone rfl, ?_⟩
      simp only [owed, ConsumerRun.load, PipelineAction.isProgress, Bool.false_eq_true, if_false]
      omega
    · cases hstep
  | crash snapshot =>
    simp only [step] at hstep
    split at hstep
    · cases hstep
      have hidle : (st.crash topology snapshot).owed = 0 := rfl
      have hnoneAttempted : attempted st (st.crash topology snapshot) = [] := by
        simp [attempted, Pipeline.crash, ConsumerRun.start, idsOf]
      refine ⟨rfl, ?_, ?_⟩
      · intro k hk
        rw [hnoneAttempted] at hk
        cases hk
      · rw [hidle, hnoneAttempted]
        simp [PipelineAction.isProgress]
    · cases hstep

end Pipeline

namespace EventPath

variable {topology : Topology} {ext : Externals} {policy : RetryPolicy} {st t : EventPath}

/-- All deliveries there have been. -/
def attempts (st : EventPath) : Nat :=
  ∑ k ∈ Finset.range st.pipeline.published.length, st.deliveries k

private theorem sum_count {l : List Nat} {n : Nat} (h : ∀ k ∈ l, k < n) :
    ∑ k ∈ Finset.range n, l.count k = l.length := by
  have hsum := Multiset.sum_count_eq_card (s := Finset.range n) (m := (l : Multiset Nat))
    fun k hk => Finset.mem_range.mpr (h k (by simpa using hk))
  simpa using hsum

theorem Accounts.lt_of_queued (h : Accounts topology policy st) {k : Nat}
    (hk : k ∈ st.pipeline.ready ∨ k ∈ st.pipeline.requeued) :
    k < st.pipeline.published.length := by
  by_contra hlt
  have hplaces := h.places k
  rw [if_neg hlt, EventPath.places] at hplaces
  have hpos : 0 < st.pipeline.ready.count k ∨ 0 < st.pipeline.requeued.count k :=
    hk.imp List.count_pos_iff.mpr List.count_pos_iff.mpr
  omega

/-- What the steps taken and the steps owed come to is paid for by the deliveries. -/
theorem Accounts.paid {action : EventPathAction} (h : Accounts topology policy st)
    (hstep : EventPath.step topology ext policy st action = some t) :
    (if action.isProgress then 1 else 0) + t.pipeline.owed + 8 * st.attempts ≤
      st.pipeline.owed + 8 * t.attempts := by
  cases action with
  | api action =>
    by_cases hstored : ∃ i partition, action = .brokerReceives i (.routed partition)
    · obtain ⟨i, partition, rfl⟩ := hstored
      simp only [EventPath.step] at hstep
      split at hstep
      · cases hstep
      · split at hstep
        · obtain ⟨next, -, hrest⟩ := Option.bind_eq_some_iff.mp hstep
          obtain ⟨pipeline, hpublish, rfl⟩ := Option.map_eq_some_iff.mp hrest
          cases hpublish
          have hattempts : st.attempts ≤
              ∑ k ∈ Finset.range (st.pipeline.published.length + 1), st.deliveries k := by
            rw [Finset.sum_range_succ, attempts]
            exact Nat.le_add_right _ _
          simp only [attempts, Pipeline.owed, EventPathAction.isProgress, Bool.false_eq_true,
            if_false, List.length_append, List.length_singleton] at hattempts ⊢
          omega
        · cases hstep
    · obtain ⟨next, -, rfl⟩ := map_of_step_api hstored hstep
      simp only [attempts, EventPathAction.isProgress, Bool.false_eq_true, if_false]
      omega
  | pipeline action =>
    by_cases hpublish : ∃ event, action = .publish event
    · obtain ⟨event, rfl⟩ := hpublish
      cases hstep
    · have hother : ∀ event, action ≠ .publish event := fun event heq => hpublish ⟨event, heq⟩
      obtain ⟨pipeline, hnext, rfl⟩ := map_of_step_pipeline hother hstep
      have hqueued : ∀ k, st.pipeline.ready.count k + st.pipeline.requeued.count k ≤ 1 := by
        intro k
        have hplaces := h.places k
        unfold EventPath.places at hplaces
        split at hplaces <;> omega
      obtain ⟨hpublished, hattempted, howed⟩ := h.brokered.owed_of_step hqueued hother hnext
      have hcount : ∑ k ∈ Finset.range st.pipeline.published.length,
          (st.pipeline.attempted pipeline).count k = (st.pipeline.attempted pipeline).length :=
        sum_count fun k hk => h.lt_of_queued (hattempted k hk)
      have hattempts : ∑ k ∈ Finset.range pipeline.published.length,
          (st.deliveries k + (st.pipeline.attempted pipeline).count k) =
            st.attempts + (st.pipeline.attempted pipeline).length := by
        rw [hpublished, Finset.sum_add_distrib, hcount, attempts]
      change (if action.isProgress then 1 else 0) + pipeline.owed + 8 * st.attempts ≤
        st.pipeline.owed + 8 * ∑ k ∈ Finset.range pipeline.published.length,
          (st.deliveries k + (st.pipeline.attempted pipeline).count k)
      rw [hattempts]
      omega

/-- Every delivery is worth at most eight steps, and a delivery limit bounds the deliveries; a
system that is left with nothing to do has acknowledged or buried every message. -/
structure Drains (topology : Topology) (ext : Externals) (policy : RetryPolicy)
    (actions : List EventPathAction) (st : EventPath) : Prop where
  bounded : ∀ deliveryLimit, policy.Within deliveryLimit →
    actions.countP EventPathAction.isProgress ≤
      8 * (deliveryLimit + 1) * st.pipeline.published.length
  drained : (∀ action : EventPathAction, action.isProgress = true →
      step topology ext policy st action = none) →
    ∀ k < st.pipeline.published.length, k ∈ st.pipeline.acked ∨ k ∈ st.dead

/-- Where the system cannot move, neither can the broker and the worker. -/
private theorem stuck_pipeline
    (hstuck : ∀ action : EventPathAction, action.isProgress = true →
      step topology ext policy st action = none) {action : PipelineAction}
    (haction : action.isProgress = true) : st.pipeline.step topology ext action = none := by
  have hnone := hstuck (.pipeline action) haction
  cases action with
  | publish _ | swapSnapshot _ | crash _ => cases haction
  | deliver _ | redeliver _ | work _ | receiveFrame => exact Option.map_eq_none_iff.mp hnone

private theorem Accounts.settled_of_stuck (h : Accounts topology policy st)
    (hstuck : ∀ action : PipelineAction, action.isProgress = true →
      st.pipeline.step topology ext action = none) :
    ∀ message ∈ st.pipeline.worker.delivered, st.pipeline.unsettled message = false := by
  have haccounted := h.brokered.tracked.worker.accounted
  have hworker : ∀ action : ConsumerAction, action.isWork = true →
      ConsumerRun.step ext st.pipeline.worker action = none := by
    intro action hwork
    have hnone := hstuck (.work action) rfl
    simp only [Pipeline.step, if_pos hwork, Pipeline.work, Option.map_eq_none_iff] at hnone
    exact hnone
  have hseen : st.pipeline.worker.sent.length ≤ st.pipeline.framesSeen := by
    have hnone := hstuck .receiveFrame rfl
    simp only [Pipeline.step, Pipeline.receiveFrame] at hnone
    split at hnone
    · rename_i hframe
      exact List.getElem?_eq_none_iff.mp hframe
    · split at hnone <;> cases hnone
  intro message hmessage
  obtain ⟨event, hevent⟩ := h.brokered.wire message hmessage
  have hsent := ConsumerRun.sent_of_cleaned haccounted
    (fun task phase hphase => ConsumerRun.cleaned_of_stuck haccounted hworker hphase) hmessage
    hevent
  rw [Pipeline.unsettled, List.take_of_length_le hseen, Bool.not_eq_false',
    List.contains_iff_mem]
  exact hsent

theorem Accounts.drained (h : Accounts topology policy st)
    (hconsuming : st.pipeline.worker.consuming = topology.partitions)
    (hcovers : ∀ userId, topology.partitionOf userId ∈ topology.partitions)
    (hprefetch : 0 < topology.prefetch)
    (hstuck : ∀ action : PipelineAction, action.isProgress = true →
      st.pipeline.step topology ext action = none) :
    ∀ k < st.pipeline.published.length, k ∈ st.pipeline.acked ∨ k ∈ st.dead := by
  have hidle := h.settled_of_stuck hstuck
  have hpush : ∀ k < st.pipeline.published.length,
      (st.pipeline.push topology ext k).isSome = true :=
    fun k hk => Pipeline.push_isSome hidle hconsuming hcovers hprefetch hk
  have houtstanding : st.pipeline.outstanding = [] := by
    have hfilter : st.pipeline.worker.delivered.filter st.pipeline.unsettled = [] := by
      rw [List.filter_eq_nil_iff]
      intro message hmessage
      rw [hidle message hmessage]
      exact Bool.false_ne_true
    rw [Pipeline.outstanding, hfilter]
    rfl
  have hrequeued : ∀ k, k ∉ st.pipeline.requeued := by
    intro k hk
    have hnone := hstuck (.redeliver k) rfl
    have hsome := hpush k (h.lt_of_queued (Or.inr hk))
    simp only [Pipeline.step, if_pos hk] at hnone
    rw [hnone] at hsome
    cases hsome
  have hready : ∀ k, k ∉ st.pipeline.ready := by
    intro k hk
    have hlt := h.lt_of_queued (Or.inl hk)
    have hhead : (st.pipeline.head? topology
        (topology.partitionOf st.pipeline.published[k].userId)).isSome = true := by
      rw [Pipeline.head?, List.find?_isSome]
      exact ⟨k, hk, by simp [List.getElem?_eq_getElem hlt]⟩
    obtain ⟨first, hfirst⟩ := Option.isSome_iff_exists.mp hhead
    have hnone := hstuck (.deliver (topology.partitionOf st.pipeline.published[k].userId)) rfl
    have hsome := hpush first (h.lt_of_queued (Or.inl (List.mem_of_find?_eq_some hfirst)))
    simp only [Pipeline.step, hfirst, Option.bind_some] at hnone
    rw [hnone] at hsome
    cases hsome
  intro k hk
  have hplaces := h.places k
  rw [if_pos hk, EventPath.places, houtstanding, List.count_nil,
    List.count_eq_zero.mpr (hready k), List.count_eq_zero.mpr (hrequeued k)] at hplaces
  have hpos : 0 < st.pipeline.acked.count k ∨ 0 < st.dead.count k := by omega
  exact hpos.imp List.count_pos_iff.mp List.count_pos_iff.mp

theorem consuming_of_step {action : EventPathAction}
    (hconsuming : st.pipeline.worker.consuming = topology.partitions)
    (hstep : step topology ext policy st action = some t) :
    t.pipeline.worker.consuming = topology.partitions := by
  cases action with
  | api action =>
    by_cases hstored : ∃ i partition, action = .brokerReceives i (.routed partition)
    · obtain ⟨i, partition, rfl⟩ := hstored
      simp only [step] at hstep
      split at hstep
      · cases hstep
      · split at hstep
        · obtain ⟨next, -, hrest⟩ := Option.bind_eq_some_iff.mp hstep
          obtain ⟨pipeline, hpublish, rfl⟩ := Option.map_eq_some_iff.mp hrest
          exact Pipeline.consuming_of_step hpublish hconsuming
        · cases hstep
    · obtain ⟨next, -, rfl⟩ := map_of_step_api hstored hstep
      exact hconsuming
  | pipeline action =>
    by_cases hpublish : ∃ event, action = .publish event
    · obtain ⟨event, rfl⟩ := hpublish
      cases hstep
    · obtain ⟨pipeline, hnext, rfl⟩ :=
        map_of_step_pipeline (fun event heq => hpublish ⟨event, heq⟩) hstep
      have hkept : pipeline.worker.consuming = topology.partitions :=
        Pipeline.consuming_of_step hnext hconsuming
      exact hkept

theorem deliveries_drain (topology : Topology) (ext : Externals) (policy : RetryPolicy)
    (hcovers : ∀ userId, topology.partitionOf userId ∈ topology.partitions)
    (hprefetch : 0 < topology.prefetch) (db : Database) (snapshot : Snapshot)
    (actions : List EventPathAction) (st : EventPath)
    (hrun : (machine topology ext policy).run (start topology db snapshot) actions =
      some st) : Drains topology ext policy actions st := by
  have h := accounts_of_run hrun
  have hconsuming : st.pipeline.worker.consuming = topology.partitions :=
    (machine topology ext policy).run_invariant
      (I := fun u : EventPath => u.pipeline.worker.consuming = topology.partitions)
      (fun _ _ _ hu hstep => consuming_of_step hu hstep) rfl hrun
  refine ⟨fun deliveryLimit hwithin => ?_, fun hstuck =>
    h.drained hconsuming hcovers hprefetch fun _ haction => stuck_pipeline hstuck haction⟩
  have hpaid : actions.countP EventPathAction.isProgress + st.pipeline.owed ≤ 8 * st.attempts := by
    refine (machine topology ext policy).run_trace_invariant
      (I := fun before u => before.countP EventPathAction.isProgress + u.pipeline.owed ≤
        8 * u.attempts) ?_ ?_ hrun
    · exact Nat.le_refl 0
    intro before u action v hbefore hu hstep
    have hstepPaid := (accounts_of_run hbefore).paid hstep
    rw [List.countP_append, List.countP_singleton]
    omega
  have hattempts : st.attempts ≤ st.pipeline.published.length * (deliveryLimit + 1) := by
    have hle := Finset.sum_le_card_nsmul (Finset.range st.pipeline.published.length) st.deliveries
      (deliveryLimit + 1) fun k _ => h.deliveries_le hwithin k
    rwa [Finset.card_range, smul_eq_mul] at hle
  calc actions.countP EventPathAction.isProgress
      ≤ 8 * st.attempts := by omega
    _ ≤ 8 * (st.pipeline.published.length * (deliveryLimit + 1)) :=
        Nat.mul_le_mul_left 8 hattempts
    _ = 8 * (deliveryLimit + 1) * st.pipeline.published.length := by ring

private def oneQueue : Topology := ⟨fun _ => 0, [0], 1⟩

/-- One event on its way from the publisher's call to the arrival of its ack. -/
private def wholeDelivery : List EventPathAction :=
  [.api (.accept { userId := "u", lat := 1, lng := 1 } 7 none),
    .api (.brokerReceives 0 (.routed 0))] ++
    [.deliver 0, .work (.start 0), .work (.gate 0 none), .work (.report 0 {}), .work (.finish 0),
      .work (.settle 0), .work (.cleanup 0), .receiveFrame].map .pipeline

/-- With no redelivery allowed, the bound is met. -/
theorem deliveries_drain_wholeDelivery :
    ∃ st, (machine oneQueue .reference (.limit 0)).run
        (start oneQueue (.initial sampleAreas) ⟨1, sampleAreas⟩) wholeDelivery = some st ∧
      Drains oneQueue .reference (.limit 0) wholeDelivery st ∧
      (RetryPolicy.limit 0).Within 0 ∧ st.pipeline.acked = [0] ∧
      wholeDelivery.countP EventPathAction.isProgress =
        8 * (0 + 1) * st.pipeline.published.length := by
  have hend : ((machine oneQueue .reference (.limit 0)).run
      (start oneQueue (.initial sampleAreas) ⟨1, sampleAreas⟩) wholeDelivery).any (fun st =>
        decide (st.pipeline.acked = [0] ∧ wholeDelivery.countP EventPathAction.isProgress =
          8 * (0 + 1) * st.pipeline.published.length)) = true := by
    decide +kernel
  obtain ⟨st, hrun, hst⟩ := Machine.exists_end _ hend
  refine ⟨st, hrun, ?_, RetryPolicy.within_limit 0, hst⟩
  exact deliveries_drain _ _ _ (fun _ => List.mem_singleton_self 0) Nat.one_pos _ _ _ st hrun

end EventPath

end Geofence
