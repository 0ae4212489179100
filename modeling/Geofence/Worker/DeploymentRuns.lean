import Geofence.Worker.Deployment
/-!
# Runs of the deployment

What the consumers add to the fleet: the chains admit one body of a user at a time, so a call of
`report` never meets another of its user, and the gate lets a user's events through in the order
of their delivery. Every run of the deployment is then a run of the fleet.
-/

namespace Geofence

open Framework

namespace FleetConsumer

variable {consumer next : FleetConsumer} {task : Nat} {message : ConsumeMessage}
  {event : LocationEventV1} {userId : UserId} {owns : UserId → Bool}
  {inFlight inFlight' : UserId → Option ReportPhase}

theorem job_congr {other : FleetConsumer}
    (h : other.chains.tasks.map (·.payload) = consumer.chains.tasks.map (·.payload)) :
    other.job = consumer.job := by
  funext task
  have hpayload : (other.chains.tasks[task]?).map (·.payload) =
      (consumer.chains.tasks[task]?).map (·.payload) := by
    rw [← List.getElem?_map, h, List.getElem?_map]
  have hjob : ∀ c : FleetConsumer, c.job task = ((c.chains.tasks[task]?).map (·.payload)).bind
      fun payload => payload.content.parse.map fun event => (payload, event) := by
    intro c
    rw [job, Option.bind_map]
    rfl
  rw [hjob, hjob, hpayload]

theorem job_of_moved (hmoved : consumer.chains.Moved task next.chains) :
    next.job = consumer.job ∧ next.chains.tasks.length = consumer.chains.tasks.length := by
  have hpayloads : next.chains.tasks.map (·.payload) = consumer.chains.tasks.map (·.payload) :=
    hmoved.map_eq fun _ payload => payload
  have hlength := congrArg List.length hpayloads
  rw [List.length_map, List.length_map] at hlength
  exact ⟨job_congr hpayloads, hlength⟩

theorem job_eq_some :
    consumer.job task = some (message, event) ↔
      (consumer.chains.tasks[task]?).map (·.payload) = some message ∧
        message.content.parse = some event := by
  simp only [job, Option.bind_eq_some_iff, Option.map_eq_some_iff, Prod.mk.injEq]
  constructor
  · rintro ⟨t, ht, e, he, rfl, rfl⟩
    exact ⟨⟨t, ht, rfl⟩, he⟩
  · rintro ⟨⟨t, ht, rfl⟩, he⟩
    exact ⟨t, ht, event, he, rfl, rfl⟩

private theorem lt_length_of_job (h : consumer.job task = some (message, event)) :
    task < consumer.chains.tasks.length := by
  obtain ⟨t, ht, -⟩ := Option.bind_eq_some_iff.mp h
  exact (List.getElem?_eq_some_iff.mp ht).1

theorem job_of_handle {queue : Nat} {content : Content}
    (h : (consumer.handle queue content).job task = some (message, event)) :
    (∃ i, consumer.job i = some (message, event)) ∨
      message = ⟨consumer.delivered.length + 1, queue, content⟩ ∧ content.parse = some event := by
  cases hparse : content.parse with
  | none =>
    simp only [handle, hparse] at h
    exact Or.inl ⟨task, h⟩
  | some e =>
    simp only [handle, UserChains.handle, UserChains.enqueue, hparse] at h
    obtain ⟨hpayload, he⟩ := job_eq_some.mp h
    obtain ⟨t, ht, rfl⟩ := Option.map_eq_some_iff.mp hpayload
    rcases List.mem_append.mp (List.mem_of_getElem? ht) with hold | hnew
    · obtain ⟨i, hi⟩ := List.mem_iff_getElem?.mp hold
      exact Or.inl ⟨i, job_eq_some.mpr ⟨by rw [hi, Option.map_some], he⟩⟩
    · rw [List.mem_singleton] at hnew
      subst hnew
      exact Or.inr ⟨rfl, hparse.symm.trans he⟩

/-- The task's body has started and has not sent its frame. -/
def atWork (consumer : FleetConsumer) (task : Nat) : Bool :=
  match consumer.work task with
  | .gating | .reporting => true
  | .notStarted | .returned => false

theorem atWork_iff : consumer.atWork task = true ↔
    consumer.work task ≠ .notStarted ∧ consumer.work task ≠ .returned := by
  unfold atWork
  cases consumer.work task <;> simp

/-- What the end of `report`, or its next await, leaves of the rest. -/
structure Resumed (task : Nat) (message : ConsumeMessage) (outcome : Option Outcome)
    (consumer next : FleetConsumer) : Prop where
  chains : next.chains = consumer.chains
  work : next.work = Function.update consumer.work task
    (if outcome.isSome then .returned else .reporting)
  delivered : next.delivered = consumer.delivered
  sent : next.sent = consumer.sent ++
    outcome.toList.map fun outcome => ⟨message.deliveryTag, some task, outcome.settlement⟩

theorem resumed (hsame : consumer.SameTasks next) (task : Nat) (message : ConsumeMessage)
    (event : LocationEventV1) (outcome : Option Outcome) :
    Resumed task message outcome consumer (next.resume task message event outcome) := by
  cases outcome with
  | none =>
    refine ⟨hsame.chains, ?_, hsame.delivered, ?_⟩
    · rw [← hsame.work]
      rfl
    · rw [Option.toList_none, List.map_nil, List.append_nil]
      exact hsame.sent
  | some outcome =>
    have haccount := next.sameTasks_account event outcome
    refine ⟨haccount.chains.trans hsame.chains, ?_, haccount.delivered.trans hsame.delivered, ?_⟩
    · rw [← hsame.work, ← haccount.work]
      rfl
    · rw [← hsame.sent, ← haccount.sent]
      rfl

theorem Resumed.job_eq {outcome : Option Outcome} (h : Resumed task message outcome consumer next) :
    next.job = consumer.job :=
  job_congr (by rw [h.chains])

theorem SameTasks.job_eq (hsame : consumer.SameTasks next) : next.job = consumer.job :=
  job_congr (by rw [hsame.chains])

/-- What a worker process keeps: its chains and the bodies of its tasks move in step, and `report`
runs for exactly the tasks that have passed their gate. -/
structure Sound (owns : UserId → Bool) (inFlight : UserId → Option ReportPhase)
    (consumer : FleetConsumer) : Prop where
  bodies : consumer.chains.Follows (· = .notStarted) (· = .returned) consumer.work
  keyed : ∀ t ∈ consumer.chains.tasks, t.payload.content.parse.map (·.userId) = some t.key
  owned : ∀ task message event, consumer.job task = some (message, event) →
    owns event.userId = true
  phases : Keyed inFlight
  reporting : ∀ task, consumer.work task = .reporting → ∃ message event phase,
    consumer.job task = some (message, event) ∧ inFlight event.userId = some phase ∧
      WorkerFleet.callKey phase.reportCall = WorkerFleet.eventKey event
  inFlight : ∀ userId phase, inFlight userId = some phase → ∃ task message event,
    consumer.work task = .reporting ∧ consumer.job task = some (message, event) ∧
      event.userId = userId

namespace Sound

theorem start (owns : UserId → Bool) : Sound owns (fun _ => none) .start where
  bodies := .empty rfl
  keyed t ht := by cases ht
  owned task message event hjob := by cases hjob
  phases userId phase hphase := by cases hphase
  reporting task hwork := by cases hwork
  inFlight userId phase hphase := by cases hphase

theorem key?_of_job (h : Sound owns inFlight consumer)
    (hjob : consumer.job task = some (message, event)) :
    consumer.chains.key? task = some event.userId := by
  obtain ⟨hpayload, hparse⟩ := job_eq_some.mp hjob
  obtain ⟨t, ht, rfl⟩ := Option.map_eq_some_iff.mp hpayload
  have hkey := h.keyed t (List.mem_of_getElem? ht)
  rw [hparse, Option.map_some, Option.some.injEq] at hkey
  rw [PromiseChains.key?, ht, Option.map_some, hkey]

theorem task_eq (h : Sound owns inFlight consumer) {other : Nat} {message' : ConsumeMessage}
    {event' : LocationEventV1} (hjob : consumer.job task = some (message, event))
    (hjob' : consumer.job other = some (message', event')) (huser : event'.userId = event.userId)
    (hbegun : consumer.work task ≠ .notStarted) (hopen : consumer.work task ≠ .returned)
    (hbegun' : consumer.work other ≠ .notStarted) (hopen' : consumer.work other ≠ .returned) :
    other = task := by
  refine h.bodies.eq_of_bodies ?_ hbegun' hopen' hbegun hopen
  rw [h.key?_of_job hjob, h.key?_of_job hjob', huser]

/-- A task at its gate finds no call of its user in progress. -/
theorem idle_of_gating (h : Sound owns inFlight consumer) (hwork : consumer.work task = .gating)
    (hjob : consumer.job task = some (message, event)) : inFlight event.userId = none := by
  cases hphase : inFlight event.userId with
  | none => rfl
  | some phase =>
    obtain ⟨other, message', event', hreporting, hjob', huser⟩ := h.inFlight _ _ hphase
    have heq : other = task := by
      apply h.task_eq hjob hjob' huser
      · simp [hwork]
      · simp [hwork]
      · simp [hreporting]
      · simp [hreporting]
    rw [heq, hwork] at hreporting
    cases hreporting

theorem callKey_of_reporting (h : Sound owns inFlight consumer)
    (hwork : consumer.work task = .reporting) (hjob : consumer.job task = some (message, event))
    {phase : ReportPhase} (hphase : inFlight event.userId = some phase) :
    WorkerFleet.callKey phase.reportCall = WorkerFleet.eventKey event := by
  obtain ⟨m, e, reporting, hjob', hreporting, hkey⟩ := h.reporting task hwork
  rw [hjob, Option.some.injEq, Prod.mk.injEq] at hjob'
  obtain ⟨-, rfl⟩ := hjob'
  rw [hphase, Option.some.injEq] at hreporting
  rw [hreporting, hkey]

theorem frame (h : Sound owns inFlight consumer)
    (hbodies : next.chains.Follows (· = .notStarted) (· = .returned) next.work)
    (hkeyed : ∀ t ∈ next.chains.tasks, t.payload.content.parse.map (·.userId) = some t.key)
    (howned : ∀ task message event, next.job task = some (message, event) →
      owns event.userId = true)
    (hjob : ∀ task, consumer.work task = .reporting → next.job task = consumer.job task)
    (hwork : ∀ task, next.work task = .reporting ↔ consumer.work task = .reporting) :
    Sound owns inFlight next where
  bodies := hbodies
  keyed := hkeyed
  owned := howned
  phases := h.phases
  reporting task hreporting := by
    rw [hwork] at hreporting
    rw [hjob task hreporting]
    exact h.reporting task hreporting
  inFlight userId phase hphase := by
    obtain ⟨task, message, event, hreporting, hmessage, huser⟩ := h.inFlight userId phase hphase
    exact ⟨task, message, event, (hwork task).mpr hreporting, by rw [hjob task hreporting, hmessage],
      huser⟩

theorem congr (h : Sound owns inFlight consumer) (hsame : consumer.SameTasks next) :
    Sound owns inFlight next := by
  have hjob := hsame.job_eq
  refine h.frame ?_ ?_ ?_ (fun task _ => congrFun hjob task) fun task => by rw [hsame.work]
  · rw [hsame.chains, hsame.work]
    exact h.bodies
  · rw [hsame.chains]
    exact h.keyed
  · rw [hjob]
    exact h.owned

theorem notStarted (h : Sound owns inFlight consumer) {chains : UserChains}
    (hstart : consumer.chains.start? task = some chains) : consumer.work task = .notStarted := by
  apply h.bodies.waiting
  rw [h.bodies.ordered.started.mem, (PromiseChains.phase?_of_start hstart).1]
  simp

theorem moved (h : Sound owns inFlight consumer) (hmoved : consumer.chains.Moved task next.chains)
    (hbodies : next.chains.Follows (· = .notStarted) (· = .returned) next.work)
    (hwork : ∀ task, next.work task = .reporting ↔ consumer.work task = .reporting) :
    Sound owns inFlight next := by
  have hjob := (job_of_moved hmoved).1
  refine h.frame hbodies ?_ ?_ (fun task _ => congrFun hjob task) hwork
  · intro t ht
    have hmem : (t.key, t.payload) ∈ consumer.chains.tasks.map fun t => (t.key, t.payload) := by
      rw [← hmoved.map_eq Prod.mk]
      exact List.mem_map_of_mem ht
    obtain ⟨u, hu, heq⟩ := List.mem_map.mp hmem
    have hkeyed := h.keyed u hu
    rw [Prod.mk.injEq] at heq
    rwa [heq.1, heq.2] at hkeyed
  · rw [hjob]
    exact h.owned

theorem started (h : Sound owns inFlight consumer) {chains : UserChains}
    (hstart : consumer.chains.start? task = some chains) :
    Sound owns inFlight { consumer with
      chains, work := Function.update consumer.work task .gating } := by
  have hidle := h.notStarted hstart
  refine h.moved (PromiseChains.moved_of_start hstart) (h.bodies.start hstart (by decide)) ?_
  intro other
  change Function.update consumer.work task .gating other = .reporting ↔ _
  by_cases heq : other = task
  · rw [heq, Function.update_self, hidle]
    decide
  · rw [Function.update_of_ne heq]

theorem handle (h : Sound owns inFlight consumer) {queue : Nat} {content : Content}
    (howns : ∀ event, content.parse = some event → owns event.userId = true) :
    Sound owns inFlight (consumer.handle queue content) := by
  have howned : ∀ task message event,
      (consumer.handle queue content).job task = some (message, event) →
        owns event.userId = true := by
    intro task message event hjob
    rcases job_of_handle hjob with ⟨i, hi⟩ | ⟨-, hparse⟩
    · exact h.owned i message event hi
    · exact howns event hparse
  cases hparse : content.parse with
  | none =>
    simp only [FleetConsumer.handle, hparse] at howned ⊢
    exact h.frame h.bodies h.keyed howned (fun _ _ => rfl) fun _ => Iff.rfl
  | some event =>
    simp only [FleetConsumer.handle, UserChains.handle, UserChains.enqueue, hparse] at howned ⊢
    refine h.frame (h.bodies.append _ _) ?_ howned ?_ fun _ => Iff.rfl
    · intro t ht
      rcases List.mem_append.mp ht with hold | hnew
      · exact h.keyed t hold
      · rw [List.mem_singleton] at hnew
        subst hnew
        rw [hparse, Option.map_some]
    · intro task hreporting
      have hlt : task < consumer.chains.tasks.length :=
        h.bodies.lt_length (by rw [hreporting]; decide)
      simp only [job, PromiseChains.append, List.getElem?_append_left hlt]

theorem resume (h : Sound owns inFlight consumer) {outcome : Option Outcome}
    (hbegun : consumer.work task ≠ .notStarted) (hopen : consumer.work task ≠ .returned)
    (hjob : consumer.job task = some (message, event)) (hphases : Keyed inFlight')
    (hothers : ∀ user, user ≠ event.userId → inFlight' user = inFlight user)
    (houtcome : outcome.isSome = (inFlight' event.userId).isNone)
    (hcall : ∀ phase, inFlight' event.userId = some phase →
      WorkerFleet.callKey phase.reportCall = WorkerFleet.eventKey event) :
    Sound owns inFlight' (consumer.resume task message event outcome) := by
  have hresumed := resumed (.refl consumer) task message event outcome
  have hchains := hresumed.chains
  have hwork := hresumed.work
  have hjobs := hresumed.job_eq
  have hother : ∀ i m e, i ≠ task → consumer.work i = .reporting →
      consumer.job i = some (m, e) → e.userId ≠ event.userId := by
    intro i m e hne hreporting hi huser
    refine hne (h.task_eq hjob hi huser hbegun hopen ?_ ?_)
    · simp [hreporting]
    · simp [hreporting]
  refine ⟨?_, ?_, ?_, hphases, ?_, ?_⟩
  · rw [hchains, hwork]
    exact h.bodies.update hbegun hopen (by split <;> decide)
  · rw [hchains]
    exact h.keyed
  · rw [hjobs]
    exact h.owned
  · intro i hreporting
    rw [hjobs]
    by_cases heq : i = task
    · subst heq
      rw [hwork, Function.update_self] at hreporting
      cases hphase : inFlight' event.userId with
      | none =>
        rw [hphase] at houtcome
        cases outcome with
        | none => cases houtcome
        | some outcome => cases hreporting
      | some phase => exact ⟨message, event, phase, hjob, hphase, hcall phase hphase⟩
    · rw [hwork, Function.update_of_ne heq] at hreporting
      obtain ⟨m, e, phase, hi, hphase, hkey⟩ := h.reporting i hreporting
      exact ⟨m, e, phase, hi, by rw [hothers _ (hother i m e heq hreporting hi), hphase], hkey⟩
  · intro user phase hphase
    rw [hjobs]
    by_cases huser : user = event.userId
    · subst huser
      rw [hphase] at houtcome
      cases outcome with
      | none => exact ⟨task, message, event, by rw [hwork, Function.update_self]; rfl, hjob, rfl⟩
      | some outcome => cases houtcome
    · rw [hothers user huser] at hphase
      obtain ⟨i, m, e, hreporting, hi, heuser⟩ := h.inFlight user phase hphase
      have hne : i ≠ task := by
        rintro rfl
        rw [hjob, Option.some.injEq, Prod.mk.injEq] at hi
        exact huser (heuser.symm.trans (congrArg _ hi.2.symm))
      exact ⟨i, m, e, by rw [hwork, Function.update_of_ne hne, hreporting], hi, heuser⟩

theorem gated (h : Sound owns inFlight consumer) (hwork : consumer.work task = .gating)
    (hsame : consumer.SameTasks next) (outcome : Outcome) :
    Sound owns inFlight (next.settleDelivery task message outcome) := by
  have hchains' : (next.settleDelivery task message outcome).chains = consumer.chains :=
    hsame.chains
  have hjob : (next.settleDelivery task message outcome).job = consumer.job :=
    job_congr (by rw [hchains'])
  have hwork' : (next.settleDelivery task message outcome).work =
      Function.update consumer.work task .returned := by
    rw [← hsame.work]
    rfl
  refine h.frame ?_ ?_ ?_ (fun task _ => congrFun hjob task) ?_
  · rw [hchains', hwork']
    exact h.bodies.update (by simp [hwork]) (by simp [hwork]) (by decide)
  · rw [hchains']
    exact h.keyed
  · rw [hjob]
    exact h.owned
  · intro i
    rw [hwork']
    by_cases heq : i = task
    · rw [heq, Function.update_self, hwork]
      decide
    · rw [Function.update_of_ne heq]

end Sound

/-! ## What waits before the gates -/

/-- The event of a task that has not passed its gate, if it is one of the user. -/
def waiting (userId : UserId) (consumer : FleetConsumer) (task : Nat) : Option LocationEventV1 :=
  match consumer.work task, consumer.job task with
  | .notStarted, some (_, event) | .gating, some (_, event) =>
    if event.userId = userId then some event else none
  | _, _ => none

/-- The events of a user before their gates, in the order of their delivery. -/
def pending (userId : UserId) (consumer : FleetConsumer) : List LocationEventV1 :=
  (List.range consumer.chains.tasks.length).filterMap (consumer.waiting userId)

theorem waiting_eq_some :
    consumer.waiting userId task = some event ↔
      (consumer.work task = .notStarted ∨ consumer.work task = .gating) ∧
        (∃ message, consumer.job task = some (message, event)) ∧ event.userId = userId := by
  unfold waiting
  cases hwork : consumer.work task with
  | notStarted | gating =>
    cases hjob : consumer.job task with
    | none => simp
    | some job =>
      simp only [Option.ite_none_right_eq_some, Option.some.injEq, true_or, or_true, true_and]
      constructor
      · rintro ⟨huser, rfl⟩
        exact ⟨⟨job.1, rfl⟩, huser⟩
      · rintro ⟨⟨message, rfl⟩, huser⟩
        exact ⟨huser, rfl⟩
  | reporting | returned => simp

theorem pending_congr {other : FleetConsumer}
    (hlength : other.chains.tasks.length = consumer.chains.tasks.length)
    (hwaiting : ∀ task < consumer.chains.tasks.length,
      other.waiting userId task = consumer.waiting userId task) :
    other.pending userId = consumer.pending userId := by
  rw [pending, pending, hlength]
  apply List.filterMap_congr
  intro task htask
  exact hwaiting task (List.mem_range.mp htask)

private theorem filterMap_singleton {α β : Type} (f : α → Option β) (a : α) :
    [a].filterMap f = (f a).toList := by
  cases h : f a <;> simp [h]

private theorem filterMap_range_eq {α : Type} {f g : Nat → Option α} {n place : Nat}
    (hplace : place < n) (hbefore : ∀ i < place, f i = none) (hother : ∀ i ≠ place, g i = f i)
    (hself : g place = none) :
    (List.range n).filterMap f = (f place).toList ++ (List.range n).filterMap g := by
  induction n with
  | zero => cases hplace
  | succ n ih =>
    rw [List.range_succ, List.filterMap_append, List.filterMap_append, filterMap_singleton,
      filterMap_singleton]
    rcases Nat.lt_or_eq_of_le (Nat.lt_succ_iff.mp hplace) with hlt | rfl
    · rw [ih hlt, hother n (Nat.ne_of_gt hlt), List.append_assoc]
    · have hnone : ∀ h : Nat → Option α, (∀ i < place, h i = none) →
          (List.range place).filterMap h = [] := by
        intro h hall
        exact List.filterMap_eq_nil_iff.mpr fun i hi => hall i (List.mem_range.mp hi)
      rw [hnone f hbefore, hnone g, hself]
      · cases f place <;> rfl
      · intro i hi
        rw [hother i (Nat.ne_of_lt hi), hbefore i hi]

private theorem pending_start (userId : UserId) : FleetConsumer.start.pending userId = [] := rfl

namespace Sound

private theorem pending_of_not_owned (h : Sound owns inFlight consumer)
    (howns : owns userId = false) : consumer.pending userId = [] := by
  apply List.filterMap_eq_nil_iff.mpr
  intro task _
  cases hwaiting : consumer.waiting userId task with
  | none => rfl
  | some event =>
    obtain ⟨-, ⟨message, hjob⟩, rfl⟩ := waiting_eq_some.mp hwaiting
    rw [h.owned task message event hjob] at howns
    cases howns

private theorem waiting_eq_none (h : Sound owns inFlight consumer) {earlier : Nat}
    (hlt : earlier < task) (hjob : consumer.job task = some (message, event))
    (hbegun : consumer.work task ≠ .notStarted) (hopen : consumer.work task ≠ .returned) :
    consumer.waiting event.userId earlier = none := by
  cases hwaiting : consumer.waiting event.userId earlier with
  | none => rfl
  | some e =>
    obtain ⟨hwork, ⟨m, hearlier⟩, huser⟩ := waiting_eq_some.mp hwaiting
    have hrunning := h.bodies.phase?_of_body hbegun hopen
    have hkey : consumer.chains.key? earlier = consumer.chains.key? task := by
      rw [h.key?_of_job hearlier, h.key?_of_job hjob, huser]
    have hsettled := h.bodies.ordered.chained.after_settled earlier task _ hlt hkey hrunning
      (by decide)
    have hover : consumer.work earlier = .returned := by
      rcases PromiseChains.settled_eq_true.mp hsettled with hphase | hphase
      · exact h.bodies.ended earlier _ hphase (by decide) (by decide)
      · exact h.bodies.ended earlier _ hphase (by decide) (by decide)
    rw [hover] at hwork
    rcases hwork with hwork | hwork <;> cases hwork

/-- A body that is past its gate, or moves past it, takes the user's first waiting event along. -/
theorem pending_of_update (h : Sound owns inFlight consumer) (userId : UserId)
    (hjob : consumer.job task = some (message, event))
    (hbegun : consumer.work task ≠ .notStarted) (hopen : consumer.work task ≠ .returned)
    (hchains : next.chains = consumer.chains) {work : TaskWork}
    (hwork : next.work = Function.update consumer.work task work)
    (hpassed : work = .reporting ∨ work = .returned) :
    consumer.pending userId = (consumer.waiting userId task).toList ++ next.pending userId := by
  have hjobs : next.job = consumer.job := job_congr (by rw [hchains])
  have hself : next.waiting userId task = none := by
    cases hwaiting : next.waiting userId task with
    | none => rfl
    | some e =>
      have hidle := (waiting_eq_some.mp hwaiting).1
      rw [hwork, Function.update_self] at hidle
      rcases hpassed with rfl | rfl <;> simp at hidle
  have hother : ∀ i, i ≠ task → next.waiting userId i = consumer.waiting userId i := by
    intro i hne
    simp only [waiting, hwork, Function.update_of_ne hne, hjobs]
  cases hwaiting : consumer.waiting userId task with
  | none =>
    refine (pending_congr (by rw [hchains]) fun i _ => ?_).symm
    by_cases heq : i = task
    · rw [heq, hself, hwaiting]
    · exact hother i heq
  | some e =>
    obtain ⟨-, ⟨m, hjob'⟩, huser⟩ := waiting_eq_some.mp hwaiting
    rw [hjob, Option.some.injEq, Prod.mk.injEq] at hjob'
    obtain ⟨-, rfl⟩ := hjob'
    subst huser
    rw [← hwaiting, pending, pending, hchains]
    exact filterMap_range_eq (lt_length_of_job hjob)
      (fun i hi => h.waiting_eq_none hi hjob hbegun hopen) hother hself

end Sound

private theorem pending_handle (h : Sound owns inFlight consumer) (queue : Nat)
    (content : Content) : (consumer.handle queue content).pending userId =
      consumer.pending userId ++ (content.parse.filter fun event => event.userId = userId).toList := by
  cases hparse : content.parse with
  | none =>
    simp only [handle, hparse, Option.filter_none, Option.toList_none, List.append_nil]
    exact pending_congr rfl fun _ _ => rfl
  | some event =>
    have hnew : consumer.work consumer.chains.tasks.length = .notStarted := by
      by_contra hbegun
      exact absurd (h.bodies.lt_length hbegun) (Nat.lt_irrefl _)
    have hlength : (consumer.handle queue content).chains.tasks.length =
        consumer.chains.tasks.length + 1 := by
      simp only [handle, UserChains.handle, UserChains.enqueue, hparse]
      exact PromiseChains.length_append _ _ _
    have hold : ∀ i ∈ List.range consumer.chains.tasks.length,
        (consumer.handle queue content).waiting userId i = consumer.waiting userId i := by
      intro i hi
      have hlt := List.mem_range.mp hi
      simp only [handle, UserChains.handle, UserChains.enqueue, hparse, waiting, job,
        PromiseChains.append, List.getElem?_append_left hlt]
    have hlast : (consumer.handle queue content).waiting userId consumer.chains.tasks.length =
        (some event).filter fun event => event.userId = userId := by
      simp [handle, UserChains.handle, UserChains.enqueue, hparse, waiting, job,
        PromiseChains.append, hnew, Option.filter]
    rw [pending, hlength, List.range_succ, List.filterMap_append, List.filterMap_congr hold, pending,
      filterMap_singleton, hlast]

private theorem pending_of_start (h : Sound owns inFlight consumer)
    (hstart : consumer.chains.start? task = some next.chains)
    (hwork : next.work = Function.update consumer.work task .gating) :
    next.pending userId = consumer.pending userId := by
  have hidle := h.notStarted hstart
  obtain ⟨hjob, hlength⟩ := job_of_moved (PromiseChains.moved_of_start hstart)
  refine pending_congr hlength fun i _ => ?_
  simp only [waiting, hjob, hwork]
  by_cases heq : i = task
  · subst heq
    rw [Function.update_self, hidle]
    cases consumer.job i <;> rfl
  · rw [Function.update_of_ne heq]

private theorem pending_of_moved (hmoved : consumer.chains.Moved task next.chains)
    (hwork : next.work = consumer.work) : next.pending userId = consumer.pending userId := by
  obtain ⟨hjob, hlength⟩ := job_of_moved hmoved
  exact pending_congr hlength fun i _ => by simp only [waiting, hjob, hwork]

/-! ## What the acks stand for -/

/-- An ack answers a delivery of the channel whose event was handled to an end that is acked. -/
structure Acknowledges (handled : List (LocationEventV1 × Outcome)) (consumer : FleetConsumer) :
    Prop where
  queued : ∀ task message event, consumer.job task = some (message, event) →
    message ∈ consumer.delivered
  acked : ∀ frame ∈ consumer.sent, frame.settlement = .ack → ∃ message ∈ consumer.delivered,
    message.deliveryTag = frame.tag ∧ ∃ event outcome, message.content.parse = some event ∧
      (event, outcome) ∈ handled ∧ outcome.settlement = .ack

namespace Acknowledges

variable {handled : List (LocationEventV1 × Outcome)}

theorem start (handled : List (LocationEventV1 × Outcome)) : Acknowledges handled .start where
  queued task message event hjob := by cases hjob
  acked frame hframe := by cases hframe

theorem mono (h : Acknowledges handled consumer) {more : List (LocationEventV1 × Outcome)}
    (hmore : ∀ pair ∈ handled, pair ∈ more) : Acknowledges more consumer where
  queued := h.queued
  acked frame hframe hack := by
    obtain ⟨m, hm, htag, e, outcome, hparse, hpair, hsettled⟩ := h.acked frame hframe hack
    exact ⟨m, hm, htag, e, outcome, hparse, hmore _ hpair, hsettled⟩

theorem frame (h : Acknowledges handled consumer) (hjob : next.job = consumer.job)
    (hdelivered : next.delivered = consumer.delivered) (hsent : next.sent = consumer.sent) :
    Acknowledges handled next where
  queued := by
    rw [hjob, hdelivered]
    exact h.queued
  acked := by
    rw [hsent, hdelivered]
    exact h.acked

theorem handle (h : Acknowledges handled consumer) (queue : Nat) (content : Content) :
    Acknowledges handled (consumer.handle queue content) := by
  have hdelivered : (consumer.handle queue content).delivered =
      consumer.delivered ++ [⟨consumer.delivered.length + 1, queue, content⟩] := by
    simp only [FleetConsumer.handle]
    split <;> rfl
  have hsent : ∀ frame ∈ (consumer.handle queue content).sent, frame.settlement = .ack →
      frame ∈ consumer.sent := by
    intro frame hframe hack
    simp only [FleetConsumer.handle] at hframe
    split at hframe
    · rcases List.mem_append.mp hframe with hold | hnew
      · exact hold
      · rw [List.mem_singleton] at hnew
        rw [hnew] at hack
        cases hack
    · exact hframe
  refine ⟨fun task m e hjob => ?_, fun frame hframe hack => ?_⟩
  · rw [hdelivered]
    rcases job_of_handle hjob with ⟨i, hi⟩ | ⟨rfl, -⟩
    · exact List.mem_append_left _ (h.queued i m e hi)
    · exact List.mem_append_right _ (List.mem_singleton_self _)
  · obtain ⟨m, hm, hrest⟩ := h.acked frame (hsent frame hframe hack) hack
    rw [hdelivered]
    exact ⟨m, List.mem_append_left _ hm, hrest⟩

theorem settled (h : Acknowledges handled consumer)
    (hjob : consumer.job task = some (message, event)) (outcomes : Option Outcome)
    (hjobs : next.job = consumer.job) (hdelivered : next.delivered = consumer.delivered)
    (hsent : next.sent = consumer.sent ++ outcomes.toList.map fun outcome =>
      ⟨message.deliveryTag, some task, outcome.settlement⟩) :
    Acknowledges (handled ++ outcomes.toList.map fun outcome => (event, outcome)) next := by
  refine ⟨by rw [hjobs, hdelivered]; exact h.queued, fun frame hframe hack => ?_⟩
  rw [hdelivered]
  rw [hsent] at hframe
  rcases List.mem_append.mp hframe with hold | hnew
  · exact (h.mono fun _ hpair => List.mem_append_left _ hpair).acked frame hold hack
  · obtain ⟨outcome, houtcome, rfl⟩ := List.mem_map.mp hnew
    exact ⟨message, h.queued task message event hjob, rfl, event, outcome, (job_eq_some.mp hjob).2,
      List.mem_append_right _ (List.mem_map_of_mem houtcome), hack⟩

end Acknowledges

end FleetConsumer

theorem PhaseAction.user?_of_isAnswer {action : PhaseAction} {userId : UserId}
    (h : action.isAnswer userId = true) : action.user? = some userId := by
  cases action with
  | call event => cases h
  | _ => exact of_decide_eq_true h

theorem WorkerFleet.worker_of_step {ω : Type} [DecidableEq ω] {ext : Externals}
    {assignment : PartitionAssignment ω} {st t : WorkerFleet ω} {w : ω} {action : PhaseAction}
    (h : st.step ext assignment (.worker w action) = some t) :
    ∃ next, (st.view w).step ext action = some next ∧
      t = st.put w next ((st.view w).settles ext action) := by
  simp only [step] at h
  split at h
  · obtain ⟨next, hnext, rfl⟩ := Option.map_eq_some_iff.mp h
    exact ⟨next, hnext, rfl⟩
  · cases h

theorem WorkerFleet.workers_of_tables {ω : Type} [DecidableEq ω] {ext : Externals}
    {assignment : PartitionAssignment ω} {st t : WorkerFleet ω} {action : FleetAction ω}
    (h : st.step ext assignment action = some t) (htables : ∀ w a, action ≠ .worker w a) :
    t.workers = st.workers ∧ t.applied = st.applied := by
  cases action with
  | createArea row =>
    simp only [step] at h
    split at h
    · cases h
    · obtain ⟨db, -, rfl⟩ := Option.map_eq_some_iff.mp h
      exact ⟨rfl, rfl⟩
  | deleteArea areaId =>
    obtain ⟨db, -, rfl⟩ := Option.map_eq_some_iff.mp h
    exact ⟨rfl, rfl⟩
  | worker w a => exact absurd rfl (htables w a)

private theorem PhasedWorker.callKey_of_call {ext : Externals} {st t : PhasedWorker}
    {event : LocationEventV1} (hst : st.step ext (.call event) = some t) {phase : ReportPhase}
    (hphase : t.inFlight event.userId = some phase) :
    WorkerFleet.callKey phase.reportCall = WorkerFleet.eventKey event := by
  have hidle := idle_of_call hst
  cases step_cases hst with
  | refused _ =>
    rw [hidle] at hphase
    cases hphase
  | called _ call _ hcall =>
    rw [setPhase_inFlight_self] at hphase
    cases hphase
    obtain ⟨hdto, hat, -⟩ := callOf_ok hcall
    simp only [WorkerFleet.callKey, WorkerFleet.eventKey, ReportPhase.reportCall, hdto, hat]

namespace PhasedWorker

variable {ext : Externals} {st t : PhasedWorker} {action : PhaseAction}

private theorem recorded_of_step {applied : List ReportCall} (hkeyed : Keyed st.inFlight)
    (hst : st.step ext action = some t)
    (h : ∀ userId phase, st.inFlight userId = some phase → openCall (some phase) = [] →
      phase.reportCall ∈ applied) :
    ∀ userId phase, t.inFlight userId = some phase → openCall (some phase) = [] →
      phase.reportCall ∈ applied ++ st.settles ext action := by
  have hkept : ∀ userId phase, st.inFlight userId = some phase → openCall (some phase) = [] →
      phase.reportCall ∈ applied ++ st.settles ext action :=
    fun userId phase hphase hclosed => List.mem_append_left _ (h userId phase hphase hclosed)
  intro userId phase hphase hclosed
  have hforked : ∀ (s : PhasedWorker) (call : ReportCall) (hint : List AreaId),
      call.dto.userId = userId → (s.fork call hint).inFlight userId = some phase → False := by
    intro s call hint hcall hafter
    rw [fork, hcall, setPhase_inFlight_self] at hafter
    split at hafter
    · cases hafter
      cases hclosed
    · cases hafter
  have hstep := step_cases hst
  cases huser : action.user? with
  | none =>
    cases hstep with
    | restart => cases hphase
    | swapSnapshot snapshot => exact hkept userId phase hphase hclosed
    | createArea row db hdb => exact hkept userId phase hphase hclosed
    | _ => cases huser
  | some user =>
    by_cases hu : userId = user
    · subst hu
      cases hstep with
      | restart => cases huser
      | swapSnapshot snapshot => cases huser
      | createArea row db hdb => cases huser
      | refused event => exact hkept userId phase hphase hclosed
      | called event call hidle hcall =>
        cases huser
        rw [setPhase_inFlight_self] at hphase
        cases hphase
        cases hclosed
      | warm _ call hint hlooking hmem =>
        cases huser
        exact (hforked st call hint (hkeyed _ _ hlooking).userId hphase).elim
      | cold _ call hlooking hmem =>
        cases huser
        rw [setPhase_inFlight_self] at hphase
        cases hphase
        cases hclosed
      | seeded _ call hseeding =>
        cases huser
        exact (hforked _ call _ (hkeyed _ _ hseeding).userId hphase).elim
      | committed _ call db result hchanging htx =>
        cases huser
        rw [setPhase_inFlight_self] at hphase
        cases hphase
        simp [settles, hchanging, htx, ReportPhase.reportCall]
      | answered _ call result hcommitting =>
        cases huser
        rw [setPhase_inFlight_self] at hphase
        cases hphase
        exact hkept userId (.committing call result) hcommitting rfl
      | seedFailed _ _ _ _ | rolledBack _ _ _ _ | refusedByServer _ _ _ | lost _ _ _ _ _
      | invalidated _ _ _ =>
        cases huser
        rw [setPhase_inFlight_self] at hphase
        cases hphase
    · rw [(hstep.of_ne hkeyed huser hu).1] at hphase
      exact hkept userId phase hphase hclosed

/-- `report` returns to the consumer once the call's effect on the tables is settled. -/
private theorem settled_of_processed (hst : st.step ext action = some t)
    (houtcome : st.outcome ext action = some .processed) :
    ∃ userId phase, action.user? = some userId ∧ st.inFlight userId = some phase ∧
      (phase.reportCall ∈ st.settles ext action ∨ openCall (some phase) = []) := by
  cases step_cases hst with
  | restart => cases houtcome
  | swapSnapshot snapshot => cases houtcome
  | createArea row db hdb => cases houtcome
  | refused event =>
    simp only [outcome] at houtcome
    split at houtcome <;> simp at houtcome
  | called event call hidle hcall =>
    simp only [outcome, hcall] at houtcome
    cases houtcome
  | warm userId call hint hphase hmem =>
    refine ⟨userId, _, rfl, hphase, Or.inl ?_⟩
    simp only [outcome, hphase, hmem] at houtcome
    split at houtcome
    · cases houtcome
    · rename_i hsame
      simp [settles, hphase, hmem, hsame, ReportPhase.reportCall]
  | cold userId call hphase hmem =>
    simp only [outcome, hphase, hmem] at houtcome
    cases houtcome
  | seeded userId call hphase =>
    refine ⟨userId, _, rfl, hphase, Or.inl ?_⟩
    simp only [outcome, hphase] at houtcome
    split at houtcome
    · cases houtcome
    · rename_i hsame
      simp [settles, hphase, hsame, ReportPhase.reportCall]
  | committed userId call db result hphase htx =>
    simp only [outcome, hphase, htx] at houtcome
    cases houtcome
  | refusedByServer userId call hphase =>
    simp only [outcome, hphase] at houtcome
    split at houtcome <;> simp at houtcome
  | invalidated userId call hphase => exact ⟨userId, _, rfl, hphase, Or.inr rfl⟩
  | seedFailed _ _ _ _ | rolledBack _ _ _ _ | lost _ _ _ _ _ =>
    simp [outcome] at houtcome
  | answered _ _ _ _ => cases houtcome

end PhasedWorker

/-- A call that is past its effect on the tables is among the settled ones, in every worker. -/
def WorkerFleet.Recorded {ω : Type} (st : WorkerFleet ω) : Prop :=
  ∀ w userId phase, (st.workers w).inFlight userId = some phase → openCall (some phase) = [] →
    phase.reportCall ∈ st.applied

namespace Deployment

variable {ω : Type} {ext : Externals} {assignment : PartitionAssignment ω} {st t : Deployment ω}
  {userId : UserId}

/-- Every worker process keeps its chains, its bodies and its calls in step. -/
def Sound (assignment : PartitionAssignment ω) (st : Deployment ω) : Prop :=
  ∀ w, (st.consumers w).Sound (assignment.owns w) (st.fleet.workers w).inFlight

theorem sound_start (db : Database) : Sound assignment (start db) :=
  fun w => .start (assignment.owns w)

theorem Sound.moved_of_action {w : ω} {action : DeploymentAction ω} {task : Nat} {chains : UserChains}
    (hmoved : action = .finish w task ∧ (st.consumers w).work task = .returned ∧
        (st.consumers w).chains.finish? task = some chains ∨
      action = .settle w task ∧ (st.consumers w).chains.settle? task = some chains ∨
      action = .cleanup w task ∧ (st.consumers w).chains.cleanup? task = some chains)
    (h : Sound assignment st) : (st.consumers w).chains.Moved task chains ∧
      chains.Follows (· = .notStarted) (· = .returned) (st.consumers w).work := by
  obtain ⟨-, hwork, hfinish⟩ | ⟨-, hsettle⟩ | ⟨-, hcleanup⟩ := hmoved
  · exact ⟨PromiseChains.moved_of_finish hfinish, (h w).bodies.finish hfinish hwork⟩
  · exact ⟨PromiseChains.moved_of_settle hsettle, (h w).bodies.settle hsettle⟩
  · exact ⟨PromiseChains.moved_of_cleanup hcleanup, (h w).bodies.cleanup hcleanup⟩

variable [DecidableEq ω]

theorem resume_eq_some {w : ω} {consumer : FleetConsumer} {task : Nat} {message : ConsumeMessage}
    {event : LocationEventV1} {action : PhaseAction}
    (h : st.resume ext assignment w consumer task message event action = some t) :
    st.fleet.step ext assignment (.worker w action) = some t.fleet ∧
      t.consumers = Function.update st.consumers w (consumer.resume task message event
        ((st.fleet.view w).outcome ext action)) ∧
      t.handled = st.handled ++ ((st.fleet.view w).outcome ext action).toList.map
        fun outcome => (event, outcome) := by
  obtain ⟨fleet, hfleet, rfl⟩ := Option.map_eq_some_iff.mp h
  exact ⟨hfleet, rfl, rfl⟩

namespace Sound

variable {w : ω}

theorem put (h : Sound assignment st) {consumer : FleetConsumer} {fleet : WorkerFleet ω}
    (hworkers : fleet.workers = st.fleet.workers)
    (hconsumer : consumer.Sound (assignment.owns w) (st.fleet.workers w).inFlight)
    (handled : List (LocationEventV1 × Outcome)) :
    Sound assignment ⟨fleet, Function.update st.consumers w consumer, handled⟩ := by
  intro other
  change FleetConsumer.Sound _ (fleet.workers other).inFlight
    (Function.update st.consumers w consumer other)
  rw [hworkers]
  by_cases heq : other = w
  · subst heq
    rw [Function.update_self]
    exact hconsumer
  · rw [Function.update_of_ne heq]
    exact h other

theorem resume (h : Sound assignment st) {consumer : FleetConsumer} {task : Nat}
    {message : ConsumeMessage} {event : LocationEventV1} {action : PhaseAction}
    (hconsumer : consumer.Sound (assignment.owns w) (st.fleet.workers w).inFlight)
    (hbegun : consumer.work task ≠ .notStarted) (hopen : consumer.work task ≠ .returned)
    (hjob : consumer.job task = some (message, event))
    (huser : action.user? = some event.userId)
    (hcall : ∀ next, (st.fleet.view w).step ext action = some next →
      ∀ phase, next.inFlight event.userId = some phase →
        WorkerFleet.callKey phase.reportCall = WorkerFleet.eventKey event)
    (hst : st.resume ext assignment w consumer task message event action = some t) :
    Sound assignment t := by
  obtain ⟨hfleet, hconsumers, -⟩ := resume_eq_some hst
  obtain ⟨next, hnext, hput⟩ := WorkerFleet.worker_of_step hfleet
  have hkeyed : Keyed (st.fleet.view w).inFlight := hconsumer.phases
  have hstep := PhasedWorker.step_cases hnext
  intro other
  rw [hconsumers, hput]
  by_cases heq : other = w
  · subst heq
    rw [Function.update_self]
    simp only [WorkerFleet.put, Function.update_self]
    exact hconsumer.resume hbegun hopen hjob (hkeyed.step hstep)
      (fun user hne => (hstep.of_ne hkeyed huser hne).1)
      (PhasedWorker.isSome_outcome hkeyed hnext huser) (hcall next hnext)
  · rw [Function.update_of_ne heq]
    simp only [WorkerFleet.put, Function.update_of_ne heq]
    exact h other

theorem step (h : Sound assignment st) {action : DeploymentAction ω}
    (hst : DeploymentStep ext assignment st action t) : Sound assignment t := by
  cases hst with
  | created row fleet hfleet | deleted areaId fleet hfleet =>
    intro other
    change FleetConsumer.Sound _ (fleet.workers other).inFlight _
    rw [(WorkerFleet.workers_of_tables hfleet (by simp)).1]
    exact h other
  | restarted w fleet hfleet =>
    obtain ⟨next, hnext, rfl⟩ := WorkerFleet.worker_of_step hfleet
    cases hnext
    intro other
    by_cases heq : other = w
    · subst heq
      simp only [WorkerFleet.put, Function.update_self]
      exact .start _
    · simp only [WorkerFleet.put, Function.update_of_ne heq]
      exact h other
  | swapped w snapshot fleet hfleet =>
    obtain ⟨next, hnext, rfl⟩ := WorkerFleet.worker_of_step hfleet
    cases hnext
    intro other
    by_cases heq : other = w
    · subst heq
      simp only [WorkerFleet.put, Function.update_self]
      exact h other
    · simp only [WorkerFleet.put, Function.update_of_ne heq]
      exact h other
  | delivered w queue content hroutes =>
    apply h.put rfl
    apply (h w).handle
    intro event hparse
    simp only [routes, hparse, Option.all_some, Bool.and_eq_true, decide_eq_true_eq] at hroutes
    rw [PartitionAssignment.owns, hroutes.2]
    exact hroutes.1
  | started w task chains hstart => exact h.put rfl ((h w).started hstart) _
  | gated w task readError consumer message event outcome hsame hwork hjob houtcome =>
    exact h.put rfl ((h w).gated hwork hsame outcome) _
  | entered w task readError consumer message event _ hsame hwork hjob hresume =>
    rw [← hsame.job_eq] at hjob
    refine h.resume ((h w).congr hsame) ?_ ?_ hjob rfl ?_ hresume
    · simp [hsame.work, hwork]
    · simp [hsame.work, hwork]
    · intro next hnext phase hphase
      exact PhasedWorker.callKey_of_call hnext hphase
  | answered w task action message event _ hwork hjob hanswer hresume =>
    refine h.resume (h w) ?_ ?_ hjob (PhaseAction.user?_of_isAnswer hanswer) ?_ hresume
    · simp [hwork]
    · simp [hwork]
    · intro next hnext phase hphase
      obtain ⟨before, hbefore, hsame⟩ :=
        PhasedWorker.reportCall_of_answer (h w).phases hnext hanswer hphase
      rw [hsame]
      exact (h w).callKey_of_reporting hwork hjob hbefore
  | moved action w task chains hmoved =>
    obtain ⟨hmoved, hbodies⟩ := moved_of_action hmoved h
    refine h.put rfl ?_ _
    exact (h w).moved hmoved hbodies fun _ => Iff.rfl

private theorem isSome_gate (h : Sound assignment st) {task : Nat} {message : ConsumeMessage}
    {event : LocationEventV1} (hwork : (st.consumers w).work task = .gating)
    (hjob : (st.consumers w).job task = some (message, event)) (readError : Option PgError) :
    (st.step ext assignment (.gate w task readError)).isSome = true := by
  have hidle : (st.fleet.view w).inFlight event.userId = none := (h w).idle_of_gating hwork hjob
  have hadmits : st.fleet.admits assignment w (.call event) = true :=
    (h w).owned task message event hjob
  have hcall : ((st.fleet.view w).step ext (.call event)).isSome = true := by
    simp only [PhasedWorker.step, hidle]
    cases callOf ext (st.fleet.view w).snapshot event <;> rfl
  simp only [Deployment.step, hwork, hjob, gate]
  split
  · rfl
  · rfl
  · simp only [Deployment.resume, WorkerFleet.step, hadmits, if_true, Option.isSome_map, hcall]

end Sound

theorem sound_of_run {db₀ : Database} {actions : List (DeploymentAction ω)}
    (hrun : (machine ext assignment).run (start db₀) actions = some st) : Sound assignment st :=
  (machine ext assignment).run_invariant (fun _ _ _ h hst => h.step (step_cases hst))
    (sound_start db₀) hrun

/-! ## Every run is a run of the fleet -/

/-- The events of a user that a run hands to the workers. -/
def deliveries (userId : UserId) (actions : List (DeploymentAction ω)) : List LocationEventV1 :=
  actions.flatMap (·.delivery userId)

/-- What waits in the process that consumes the user's partition, if there is one. -/
def awaiting (owner : Option ω) (userId : UserId) (st : Deployment ω) : List LocationEventV1 :=
  match owner with
  | none => []
  | some w => (st.consumers w).pending userId

/-- What the fleet has done in a run of the deployment: the calls it was given are the user's
deliveries in their order, less the ones that wait and the ones a gate has kept back. -/
structure Mirrored (ext : Externals) (assignment : PartitionAssignment ω) (db₀ : Database)
    (owner : Option ω) (userId : UserId) (actions : List (DeploymentAction ω))
    (calls : List (FleetAction ω)) (st : Deployment ω) : Prop where
  run : (WorkerFleet.machine ext assignment).run (.start db₀) calls = some st.fleet
  heard : (∀ action ∈ actions, action.losesCommit userId = false) →
    ∀ call ∈ calls, call.losesCommit userId = false
  delivered : (WorkerFleet.deliveries userId calls ++ st.awaiting owner userId).Sublist
    (deliveries userId actions)

namespace Mirrored

variable {db₀ : Database} {owner : Option ω} {actions : List (DeploymentAction ω)}
  {calls : List (FleetAction ω)} {w : ω}

theorem extend (h : Mirrored ext assignment db₀ owner userId actions calls st)
    {action : DeploymentAction ω} {more : List (FleetAction ω)}
    (hrun : (WorkerFleet.machine ext assignment).run st.fleet more = some t.fleet)
    (hheard : action.losesCommit userId = false → ∀ call ∈ more, call.losesCommit userId = false)
    (hdelivered : (WorkerFleet.deliveries userId more ++ t.awaiting owner userId).Sublist
      (st.awaiting owner userId ++ action.delivery userId)) :
    Mirrored ext assignment db₀ owner userId (actions ++ [action]) (calls ++ more) t where
  run := (WorkerFleet.machine ext assignment).run_append_eq_some.mpr ⟨_, h.run, hrun⟩
  heard hall call hcall := by
    rcases List.mem_append.mp hcall with hold | hnew
    · exact h.heard (fun a ha => hall a (List.mem_append_left _ ha)) call hold
    · exact hheard (hall action (by simp)) call hnew
  delivered := by
    have hmore : deliveries userId (actions ++ [action]) =
        deliveries userId actions ++ action.delivery userId := by simp [deliveries]
    have hcalls : WorkerFleet.deliveries userId (calls ++ more) =
        WorkerFleet.deliveries userId calls ++ WorkerFleet.deliveries userId more := by
      simp [WorkerFleet.deliveries]
    rw [hmore, hcalls, List.append_assoc]
    refine ((List.Sublist.refl _).append hdelivered).trans ?_
    rw [← List.append_assoc]
    exact h.delivered.append (List.Sublist.refl _)

/-- A step of one worker moves what waits only where that worker consumes the user's partition. -/
theorem awaiting_of_worker (hsound : Sound assignment st)
    (howner : ∀ other, assignment.owns other userId = true → owner = some other)
    (hothers : ∀ other, other ≠ w → t.consumers other = st.consumers other)
    {entered arrived : List LocationEventV1}
    (hlocal : (entered ++ (t.consumers w).pending userId).Sublist
      ((st.consumers w).pending userId ++ arrived))
    (hforeign : assignment.owns w userId = false → arrived = []) :
    (entered ++ t.awaiting owner userId).Sublist (st.awaiting owner userId ++ arrived) := by
  have hnone : assignment.owns w userId = false → entered = [] ∧ arrived = [] := by
    intro hnot
    rw [hforeign hnot, (hsound w).pending_of_not_owned hnot, List.append_nil,
      List.sublist_nil, List.append_eq_nil_iff] at hlocal
    exact ⟨hlocal.1, hforeign hnot⟩
  cases howns : assignment.owns w userId with
  | true =>
    rw [howner w howns]
    exact hlocal
  | false =>
    obtain ⟨rfl, rfl⟩ := hnone howns
    rw [List.nil_append, List.append_nil]
    cases owner with
    | none => exact List.Sublist.refl _
    | some v =>
      by_cases heq : v = w
      · subst heq
        rw [List.nil_append, List.append_nil] at hlocal
        exact hlocal
      · simp only [awaiting, hothers v heq]
        exact List.Sublist.refl _

/-- A step that the fleet does not see. -/
theorem unseen (h : Mirrored ext assignment db₀ owner userId actions calls st)
    (hsound : Sound assignment st)
    (howner : ∀ other, assignment.owns other userId = true → owner = some other)
    {action : DeploymentAction ω} {consumer : FleetConsumer}
    {handled : List (LocationEventV1 × Outcome)}
    (hlocal : (consumer.pending userId).Sublist
      ((st.consumers w).pending userId ++ action.delivery userId))
    (hforeign : assignment.owns w userId = false → action.delivery userId = []) :
    Mirrored ext assignment db₀ owner userId (actions ++ [action]) calls
      { st.put w consumer with handled } := by
  rw [← List.append_nil calls]
  refine h.extend rfl (fun _ call hcall => nomatch hcall) ?_
  refine awaiting_of_worker (w := w) hsound howner ?_ ?_ hforeign
  · intro other hne
    simp only [put, Function.update_of_ne hne]
  · simpa only [put, Function.update_self, WorkerFleet.deliveries, List.flatMap_nil,
      List.nil_append] using hlocal

theorem resume (h : Mirrored ext assignment db₀ owner userId actions calls st)
    (hsound : Sound assignment st)
    (howner : ∀ other, assignment.owns other userId = true → owner = some other)
    {consumer : FleetConsumer} {task : Nat} {message : ConsumeMessage} {event : LocationEventV1}
    {moved : PhaseAction} {action : DeploymentAction ω} (hdelivery : action.delivery userId = [])
    (hsame : (st.consumers w).SameTasks consumer)
    (hbegun : (st.consumers w).work task ≠ .notStarted)
    (hopen : (st.consumers w).work task ≠ .returned)
    (hjob : (st.consumers w).job task = some (message, event))
    (hcalled : WorkerFleet.delivery userId (.worker w moved) =
      ((st.consumers w).waiting userId task).toList)
    (hheard : action.losesCommit userId = false → moved.losesCommit userId = false)
    (hst : st.resume ext assignment w consumer task message event moved = some t) :
    Mirrored ext assignment db₀ owner userId (actions ++ [action]) (calls ++ [.worker w moved]) t := by
  obtain ⟨hfleet, hconsumers, -⟩ := resume_eq_some hst
  have hresumed := FleetConsumer.resumed hsame task message event
    ((st.fleet.view w).outcome ext moved)
  have hwaiting := (hsound w).pending_of_update userId hjob hbegun hopen hresumed.chains
    hresumed.work (by split <;> simp)
  refine h.extend ?_ ?_ ?_
  · rw [Machine.run_cons_eq_some]
    exact ⟨_, hfleet, rfl⟩
  · intro hnot call hcall
    rw [List.mem_singleton] at hcall
    subst hcall
    exact hheard hnot
  · rw [hdelivery]
    refine awaiting_of_worker (w := w) hsound howner ?_ ?_ fun _ => rfl
    · intro other hne
      rw [hconsumers, Function.update_of_ne hne]
    · rw [hconsumers, Function.update_self, List.append_nil, hwaiting, ← hcalled]
      simp [WorkerFleet.deliveries]

theorem seen (h : Mirrored ext assignment db₀ owner userId actions calls st)
    (hsound : Sound assignment st)
    (howner : ∀ other, assignment.owns other userId = true → owner = some other)
    {action : DeploymentAction ω} {call : FleetAction ω}
    (hfleet : st.fleet.step ext assignment call = some t.fleet)
    (hdelivery : action.delivery userId = [] ∧ WorkerFleet.delivery userId call = [])
    (hheard : call.losesCommit userId = false)
    (hconsumers : t.consumers = st.consumers ∨
      ∃ w, t.consumers = Function.update st.consumers w .start) :
    Mirrored ext assignment db₀ owner userId (actions ++ [action]) (calls ++ [call]) t := by
  have hnone : WorkerFleet.deliveries userId [call] = [] := by
    simp [WorkerFleet.deliveries, hdelivery.2]
  refine h.extend ?_ ?_ ?_
  · rw [Machine.run_cons_eq_some]
    exact ⟨_, hfleet, rfl⟩
  · intro _ other hother
    rw [List.mem_singleton] at hother
    rwa [hother]
  · rw [hdelivery.1, hnone]
    rcases hconsumers with hsame | ⟨w, hstart⟩
    · rw [List.nil_append, List.append_nil]
      cases owner with
      | none => exact List.Sublist.refl _
      | some v =>
        simp only [awaiting, hsame]
        exact List.Sublist.refl _
    · refine awaiting_of_worker (w := w) hsound howner ?_ ?_ fun _ => rfl
      · intro other hne
        rw [hstart, Function.update_of_ne hne]
      · rw [hstart, Function.update_self, FleetConsumer.pending_start]
        exact List.nil_sublist _

theorem step (h : Mirrored ext assignment db₀ owner userId actions calls st)
    (hsound : Sound assignment st)
    (howner : ∀ other, assignment.owns other userId = true → owner = some other)
    {action : DeploymentAction ω} (hst : DeploymentStep ext assignment st action t) :
    ∃ more, Mirrored ext assignment db₀ owner userId (actions ++ [action]) more t := by
  cases hst with
  | created row fleet hfleet =>
    exact ⟨_, h.seen hsound howner hfleet ⟨rfl, rfl⟩ rfl (Or.inl rfl)⟩
  | deleted areaId fleet hfleet =>
    exact ⟨_, h.seen hsound howner hfleet ⟨rfl, rfl⟩ rfl (Or.inl rfl)⟩
  | restarted w fleet hfleet =>
    exact ⟨_, h.seen hsound howner hfleet ⟨rfl, rfl⟩ rfl (Or.inr ⟨w, rfl⟩)⟩
  | swapped w snapshot fleet hfleet =>
    exact ⟨_, h.seen hsound howner hfleet ⟨rfl, rfl⟩ rfl (Or.inl rfl)⟩
  | delivered w queue content hroutes =>
    refine ⟨_, h.unseen hsound howner ?_ ?_⟩
    · rw [FleetConsumer.pending_handle (hsound w)]
      exact List.Sublist.refl _
    · intro hnot
      cases hparse : content.parse with
      | none => simp [DeploymentAction.delivery, hparse]
      | some event =>
        simp only [routes, hparse, Option.all_some, Bool.and_eq_true, decide_eq_true_eq] at hroutes
        have hne : event.userId ≠ userId := by
          rintro rfl
          rw [PartitionAssignment.owns, hroutes.2, hroutes.1] at hnot
          cases hnot
        simp [DeploymentAction.delivery, hparse, Option.filter, hne]
  | started w task chains hstart =>
    refine ⟨_, h.unseen hsound howner ?_ fun _ => rfl⟩
    rw [FleetConsumer.pending_of_start (hsound w) hstart rfl]
    exact List.sublist_append_left _ _
  | gated w task readError consumer message event outcome hsame hwork hjob houtcome =>
    refine ⟨_, h.unseen hsound howner ?_ fun _ => rfl⟩
    have hkept : (consumer.settleDelivery task message outcome).chains =
        (st.consumers w).chains := hsame.chains
    have hsettled : (consumer.settleDelivery task message outcome).work =
        Function.update (st.consumers w).work task .returned := by
      rw [← hsame.work]
      rfl
    rw [(hsound w).pending_of_update userId hjob (by simp [hwork]) (by simp [hwork]) hkept hsettled
      (Or.inr rfl), List.append_assoc]
    exact (List.sublist_append_left _ _).trans (List.sublist_append_right _ _)
  | entered w task readError consumer message event _ hsame hwork hjob hresume =>
    refine ⟨_, h.resume hsound howner rfl hsame (by simp [hwork]) (by simp [hwork]) hjob
      ?_ (fun _ => rfl) hresume⟩
    simp only [WorkerFleet.delivery, FleetConsumer.waiting, hwork, hjob]
    split <;> rfl
  | answered w task action message event _ hwork hjob hanswer hresume =>
    refine ⟨_, h.resume hsound howner rfl (.refl _) (by simp [hwork]) (by simp [hwork])
      hjob ?_ id hresume⟩
    simp only [FleetConsumer.waiting, hwork, Option.toList_none]
    cases action with
    | call event => cases hanswer
    | _ => rfl
  | moved action w task chains hmoved =>
    have hdelivery : action.delivery userId = [] := by
      obtain ⟨rfl, -⟩ | ⟨rfl, -⟩ | ⟨rfl, -⟩ := hmoved <;> rfl
    refine ⟨_, h.unseen hsound howner ?_ fun _ => hdelivery⟩
    have hpending : ({ st.consumers w with chains } : FleetConsumer).pending userId =
        (st.consumers w).pending userId :=
      FleetConsumer.pending_of_moved (Sound.moved_of_action hmoved hsound).1 rfl
    rw [hpending]
    exact List.sublist_append_left _ _

end Mirrored

theorem mirrored_of_run (hexclusive : assignment.Exclusive) {db₀ : Database}
    {actions : List (DeploymentAction ω)}
    (hrun : (machine ext assignment).run (start db₀) actions = some st) (userId : UserId) :
    ∃ owner calls, Mirrored ext assignment db₀ owner userId actions calls st := by
  obtain ⟨owner, howner⟩ : ∃ owner : Option ω,
      ∀ w, assignment.owns w userId = true → owner = some w := by
    by_cases hsome : ∃ w, assignment.owns w userId = true
    · obtain ⟨w, hw⟩ := hsome
      exact ⟨some w, fun other hother => congrArg some (hexclusive userId w other hw hother)⟩
    · exact ⟨none, fun w hw => absurd ⟨w, hw⟩ hsome⟩
  refine ⟨owner, (machine ext assignment).run_trace_invariant (s := start db₀)
    (I := fun before s => ∃ calls, Mirrored ext assignment db₀ owner userId before calls s) ?_ ?_
    hrun⟩
  · have hnone : (start db₀ : Deployment ω).awaiting owner userId = [] := by
      cases owner <;> rfl
    refine ⟨[], rfl, fun _ call hcall => absurd hcall List.not_mem_nil, ?_⟩
    rw [hnone]
    exact List.Sublist.refl _
  · rintro before s action t hreach ⟨calls, hs⟩ hst
    exact hs.step (sound_of_run hreach) howner (step_cases hst)

/-! ## What has been handled to its end -/

/-- An ack answers a delivery whose event was handled to an end that is acked, and what was handled
as processed is among the settled calls. -/
structure Accounted (st : Deployment ω) : Prop where
  recorded : st.fleet.Recorded
  processed : ∀ event, (event, Outcome.processed) ∈ st.handled →
    WorkerFleet.eventKey event ∈ st.fleet.applied.map WorkerFleet.callKey
  acks : ∀ w, (st.consumers w).Acknowledges st.handled

private theorem accounted_start {ω : Type} (db : Database) : Accounted
    (start db : Deployment ω) := by
  refine ⟨?_, ?_, fun w => .start []⟩
  · intro w userId phase hphase
    cases hphase
  · intro event hevent
    cases hevent

namespace Accounted

variable {w : ω}

theorem put (h : Accounted st) {consumer : FleetConsumer} (hacks : consumer.Acknowledges st.handled) :
    Accounted (st.put w consumer) := by
  refine ⟨h.recorded, h.processed, fun other => ?_⟩
  by_cases heq : other = w
  · subst heq
    simpa only [Deployment.put, Function.update_self] using hacks
  · simpa only [Deployment.put, Function.update_of_ne heq] using h.acks other

theorem recorded_of_worker (h : Accounted st) (hsound : Sound assignment st)
    {action : PhaseAction} {fleet : WorkerFleet ω}
    (hfleet : st.fleet.step ext assignment (.worker w action) = some fleet) : fleet.Recorded := by
  obtain ⟨next, hnext, rfl⟩ := WorkerFleet.worker_of_step hfleet
  have hkeyed : Keyed (st.fleet.view w).inFlight := (hsound w).phases
  intro other userId phase hphase hclosed
  by_cases heq : other = w
  · subst heq
    simp only [WorkerFleet.put, Function.update_self] at hphase
    exact PhasedWorker.recorded_of_step hkeyed hnext (h.recorded other) userId phase hphase hclosed
  · simp only [WorkerFleet.put, Function.update_of_ne heq] at hphase
    exact List.mem_append_left _ (h.recorded other userId phase hphase hclosed)

theorem applied_of_worker {action : PhaseAction} {fleet : WorkerFleet ω}
    (hfleet : st.fleet.step ext assignment (.worker w action) = some fleet) :
    fleet.applied = st.fleet.applied ++ (st.fleet.view w).settles ext action := by
  obtain ⟨next, -, rfl⟩ := WorkerFleet.worker_of_step hfleet
  rfl

theorem idle (h : Accounted st) (hsound : Sound assignment st) {action : PhaseAction}
    {fleet : WorkerFleet ω} {consumers : ω → FleetConsumer}
    (hfleet : st.fleet.step ext assignment (.worker w action) = some fleet)
    (hacks : ∀ other, (consumers other).Acknowledges st.handled) :
    Accounted { st with fleet, consumers } := by
  refine ⟨h.recorded_of_worker hsound hfleet, fun event hevent => ?_, hacks⟩
  rw [applied_of_worker hfleet, List.map_append]
  exact List.mem_append_left _ (h.processed event hevent)

theorem resume (h : Accounted st) (hsound : Sound assignment st) {consumer : FleetConsumer}
    {task : Nat} {message : ConsumeMessage} {event : LocationEventV1} {action : PhaseAction}
    (hsame : (st.consumers w).SameTasks consumer)
    (hjob : (st.consumers w).job task = some (message, event))
    (huser : action.user? = some event.userId)
    (hcall : ∀ phase, (st.fleet.view w).inFlight event.userId = some phase →
      WorkerFleet.callKey phase.reportCall = WorkerFleet.eventKey event)
    (hst : st.resume ext assignment w consumer task message event action = some t) :
    Accounted t := by
  obtain ⟨hfleet, hconsumers, hhandled⟩ := resume_eq_some hst
  have hresumed := FleetConsumer.resumed hsame task message event
    ((st.fleet.view w).outcome ext action)
  refine ⟨h.recorded_of_worker hsound hfleet, fun e he => ?_, fun other => ?_⟩
  · rw [applied_of_worker hfleet, List.map_append]
    rw [hhandled] at he
    rcases List.mem_append.mp he with hold | hnew
    · exact List.mem_append_left _ (h.processed e hold)
    · obtain ⟨outcome, houtcome, heq⟩ := List.mem_map.mp hnew
      cases heq
      obtain ⟨next, hnext, -⟩ := WorkerFleet.worker_of_step hfleet
      obtain ⟨userId, phase, hu, hphase, hsettled⟩ :=
        PhasedWorker.settled_of_processed hnext (Option.mem_toList.mp houtcome)
      cases huser.symm.trans hu
      rw [← hcall phase hphase]
      rcases hsettled with hnow | hclosed
      · exact List.mem_append_right _ (List.mem_map_of_mem hnow)
      · exact List.mem_append_left _ (List.mem_map_of_mem (h.recorded w _ phase hphase hclosed))
  · rw [hconsumers, hhandled]
    by_cases heq : other = w
    · subst heq
      rw [Function.update_self]
      exact (h.acks other).settled hjob _ hresumed.job_eq
        hresumed.delivered hresumed.sent
    · rw [Function.update_of_ne heq]
      exact (h.acks other).mono fun _ hpair => List.mem_append_left _ hpair

theorem step (h : Accounted st) (hsound : Sound assignment st) {action : DeploymentAction ω}
    (hst : DeploymentStep ext assignment st action t) : Accounted t := by
  cases hst with
  | created row fleet hfleet | deleted areaId fleet hfleet =>
    obtain ⟨hworkers, happlied⟩ := WorkerFleet.workers_of_tables hfleet (by simp)
    refine ⟨?_, ?_, h.acks⟩
    · intro w userId phase hphase hclosed
      rw [happlied]
      rw [hworkers] at hphase
      exact h.recorded w userId phase hphase hclosed
    · rw [happlied]
      exact h.processed
  | restarted w fleet hfleet =>
    refine h.idle hsound hfleet fun other => ?_
    by_cases heq : other = w
    · rw [heq, Function.update_self]
      exact .start st.handled
    · rw [Function.update_of_ne heq]
      exact h.acks other
  | swapped w snapshot fleet hfleet => exact h.idle hsound hfleet h.acks
  | delivered w queue content hroutes => exact h.put ((h.acks w).handle queue content)
  | started w task chains hstart =>
    refine h.put ((h.acks w).frame ?_ rfl rfl)
    exact (FleetConsumer.job_of_moved (PromiseChains.moved_of_start hstart)).1
  | gated w task readError consumer message event outcome hsame hwork hjob houtcome =>
    refine ⟨h.recorded, fun e he => ?_, fun other => ?_⟩
    · rcases List.mem_append.mp he with hold | hnew
      · exact h.processed e hold
      · cases List.mem_singleton.mp hnew
        exact absurd rfl houtcome
    · by_cases heq : other = w
      · subst heq
        simp only [Deployment.put, Function.update_self]
        refine (h.acks other).settled hjob (some outcome) hsame.job_eq hsame.delivered ?_
        rw [← hsame.sent]
        rfl
      · simp only [Deployment.put, Function.update_of_ne heq]
        exact (h.acks other).mono fun _ hpair => List.mem_append_left _ hpair
  | entered w task readError consumer message event _ hsame hwork hjob hresume =>
    refine h.resume hsound hsame hjob rfl ?_ hresume
    intro phase hphase
    have hidle : (st.fleet.view w).inFlight event.userId = none :=
      (hsound w).idle_of_gating hwork hjob
    rw [hidle] at hphase
    cases hphase
  | answered w task action message event _ hwork hjob hanswer hresume =>
    refine h.resume hsound (.refl _) hjob (PhaseAction.user?_of_isAnswer hanswer) ?_
      hresume
    exact fun phase hphase => (hsound w).callKey_of_reporting hwork hjob hphase
  | moved action w task chains hmoved =>
    refine h.put ((h.acks w).frame ?_ rfl rfl)
    exact (FleetConsumer.job_of_moved (Sound.moved_of_action hmoved hsound).1).1

end Accounted

private theorem accounted_of_run {db₀ : Database} {actions : List (DeploymentAction ω)}
    (hrun : (machine ext assignment).run (start db₀) actions = some st) : Accounted st := by
  refine ((machine ext assignment).run_invariant (I := fun s => Sound assignment s ∧ Accounted s)
    ?_ ⟨sound_start db₀, accounted_start db₀⟩ hrun).2
  rintro s action t ⟨hsound, hs⟩ hst
  exact ⟨hsound.step (step_cases hst), hs.step hsound (step_cases hst)⟩

/-- What a run of the deployment keeps of one user's events. -/
structure RefinesNaiveRun (ext : Externals) (assignment : PartitionAssignment ω) (db₀ : Database)
    (userId : UserId) (actions : List (DeploymentAction ω)) (st : Deployment ω) : Prop where
  /-- The user's tables are those of a naive reading of the settled calls, deleted areas apart. -/
  tables : Follows db₀ userId st.fleet.db (st.fleet.applied.filter (·.dto.userId = userId))
  /-- The settled calls are events of the user in the order in which workers were handed them. -/
  ordered : ((st.fleet.applied.filter (·.dto.userId = userId)).map WorkerFleet.callKey).Sublist
    ((deliveries userId actions).map WorkerFleet.eventKey)
  /-- No worker remembers anything else of the user than what the tables hold. -/
  memory : st.fleet.AgreesFor userId
  /-- An event that was handled as processed is one of the settled calls. -/
  processed : ∀ event, event.userId = userId → (event, Outcome.processed) ∈ st.handled →
    WorkerFleet.eventKey event ∈
      (st.fleet.applied.filter (·.dto.userId = userId)).map WorkerFleet.callKey
  /-- An ack answers a delivery whose event was processed, a duplicate, or of a stale area. -/
  acked : ∀ w, ∀ frame ∈ (st.consumers w).sent, frame.settlement = .ack →
    ∃ message ∈ (st.consumers w).delivered, message.deliveryTag = frame.tag ∧
      ∃ event outcome, message.content.parse = some event ∧ (event, outcome) ∈ st.handled ∧
        outcome.settlement = .ack
  /-- In one process no two tasks of the user are past their start and short of their frame. -/
  oneAtATime : ∀ w i j m m' event event', (st.consumers w).job i = some (m, event) →
    (st.consumers w).job j = some (m', event') → event.userId = userId → event'.userId = userId →
    (st.consumers w).atWork i = true → (st.consumers w).atWork j = true → i = j
  /-- A task at its gate is never held up by another call of `report` for its user. -/
  gate : ∀ w task message event readError, (st.consumers w).work task = .gating →
    (st.consumers w).job task = some (message, event) →
    (st.step ext assignment (.gate w task readError)).isSome = true

/-- Where no partition is consumed by two workers and no applied COMMIT is reported as failed for a
user, every run of the deployment reads as a naive run of the user's events. -/
theorem deployment_refines_naiveRun (ext : Externals) (assignment : PartitionAssignment ω)
    (hexclusive : assignment.Exclusive) (db₀ : Database) (hdb₀ : db₀.Referential)
    (actions : List (DeploymentAction ω)) (st : Deployment ω)
    (hrun : (machine ext assignment).run (start db₀) actions = some st) (userId : UserId)
    (hheard : ∀ action ∈ actions, action.losesCommit userId = false) :
    RefinesNaiveRun ext assignment db₀ userId actions st := by
  have hsound := sound_of_run hrun
  have haccounted := accounted_of_run hrun
  obtain ⟨owner, calls, hmirrored⟩ := mirrored_of_run hexclusive hrun userId
  obtain ⟨htables, hordered, hmemory⟩ := WorkerFleet.fleet_refines_naiveRun ext assignment
    hexclusive db₀ hdb₀ calls st.fleet hmirrored.run userId (hmirrored.heard hheard)
  have hdelivered : (WorkerFleet.deliveries userId calls).Sublist (deliveries userId actions) :=
    (List.sublist_append_left _ _).trans hmirrored.delivered
  refine ⟨htables, hordered.trans (hdelivered.map _), hmemory, ?_, fun w => (haccounted.acks w).acked, ?_, ?_⟩
  · intro event huser hevent
    obtain ⟨call, hcall, hkey⟩ := List.mem_map.mp (haccounted.processed event hevent)
    have hdto : call.dto.userId = userId := by
      have hsame : call.dto = event.reportDto := congrArg Prod.fst hkey
      rw [hsame, ← huser]
      rfl
    rw [← hkey]
    exact List.mem_map_of_mem (List.mem_filter.mpr ⟨hcall, decide_eq_true hdto⟩)
  · intro w i j m m' event event' hi hj huser huser' hiw hjw
    obtain ⟨hibegun, hiopen⟩ := FleetConsumer.atWork_iff.mp hiw
    obtain ⟨hjbegun, hjopen⟩ := FleetConsumer.atWork_iff.mp hjw
    exact (hsound w).task_eq hj hi (huser.trans huser'.symm) hjbegun hjopen hibegun hiopen
  · intro w task message event readError hwork hjob
    exact hsound.isSome_gate hwork hjob readError

/-- Two workers on two partitions. -/
private def halves : PartitionAssignment Bool where
  partitionOf userId := if userId = "u" then 1 else 0
  partitions w := if w then [1] else [0]

private theorem halves_exclusive : halves.Exclusive := by
  intro userId w w' h h'
  revert h h'
  by_cases hu : userId = "u" <;> cases w <;> cases w' <;>
    simp [PartitionAssignment.owns, halves, hu]

private def visit (receivedAt seq : Nat) : Content :=
  .json 1
    { eventId := 0, userId := "u", lat := 1, lng := 1, receivedAt, deviceId := some "d",
      seq := some seq }

/-- A first visit that is handed over twice, and one after an area is gone. -/
private def visits : List (DeploymentAction Bool) :=
  [.swapSnapshot true ⟨1, AreaDeletions.twinAreas⟩, .deliver true 1 (visit 0 1), .start true 0,
    .deliver true 1 (visit 0 1), .gate true 0 none, .report true 0 (.lookUp "u"),
    .report true 0 (.seed "u" none), .report true 0 (.commit "u"),
    .report true 0 (.answer "u" none), .report true 0 (.invalidated "u"), .finish true 0,
    .settle true 0, .start true 1, .gate true 1 none, .deliver true 1 .unparseable,
    .deleteArea "a", .finish true 1, .settle true 1, .deliver true 1 (visit 5 2), .start true 2,
    .gate true 2 none, .report true 2 (.lookUp "u"), .restart false]

theorem deployment_refines_naiveRun_visits :
    ∃ st, (machine .reference halves).run (start (.initial AreaDeletions.twinAreas)) visits =
        some st ∧
      (st.fleet.applied.filter (·.dto.userId = "u")).map (·.recordedAt) = [0, 5] ∧
      st.fleet.db.presence.areaIds "u" = ["b"] ∧
      (st.consumers true).sent.map (·.settlement) = [.ack, .ack, .nack true, .ack] ∧
      RefinesNaiveRun .reference halves (.initial AreaDeletions.twinAreas) "u" visits st := by
  have hend : ((machine .reference halves).run (start (.initial AreaDeletions.twinAreas))
      visits).any (fun st => decide (
        (st.fleet.applied.filter (·.dto.userId = "u")).map (·.recordedAt) = [0, 5] ∧
          st.fleet.db.presence.areaIds "u" = ["b"] ∧
          (st.consumers true).sent.map (·.settlement) = [.ack, .ack, .nack true, .ack])) = true := by
    decide +kernel
  obtain ⟨st, hrun, happlied, hrows, hsent⟩ := Machine.exists_end _ hend
  have hreferential : (Database.initial AreaDeletions.twinAreas).Referential :=
    ⟨fun _ _ ha => absurd ha List.not_mem_nil, fun _ hrow => absurd hrow List.not_mem_nil⟩
  have hheard : ∀ action ∈ visits, action.losesCommit "u" = false := by decide
  exact ⟨st, hrun, happlied, hrows, hsent, deployment_refines_naiveRun .reference halves
    halves_exclusive _ hreferential visits st hrun "u" hheard⟩

end Deployment

end Geofence
