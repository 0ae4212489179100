import Geofence.Worker.FleetRuns
import Geofence.Worker.Settlement
/-!
# The deployment

Any number of worker processes over one database, each with its chains, its dedup map and its
presence memory. A task that passes its gate runs `report` await by await, and what the chains
guarantee is what the memory needs: no two calls of a user are in progress in one process.
-/

namespace Geofence

open Framework

/-- The consumer of a worker process, beside what `report` holds. -/
structure FleetConsumer where
  chains : UserChains
  work : Nat → TaskWork
  lastSeqByDevice : LastSeqByDevice
  staleAreaDropCount : Nat
  processedCount : Nat
  delivered : List ConsumeMessage
  sent : List Frame

namespace FleetConsumer

def start : FleetConsumer where
  chains := .empty
  work := fun _ => .notStarted
  lastSeqByDevice := fun _ => none
  staleAreaDropCount := 0
  processedCount := 0
  delivered := []
  sent := []

/-- The message and the event a task was enqueued with. -/
def job (consumer : FleetConsumer) (task : Nat) : Option (ConsumeMessage × LocationEventV1) :=
  (consumer.chains.tasks[task]?).bind fun t =>
    t.payload.content.parse.map fun event => (t.payload, event)

/-- A delivery reaches `handle`. -/
def handle (consumer : FleetConsumer) (queue : Nat) (content : Content) : FleetConsumer :=
  let message : ConsumeMessage := ⟨consumer.delivered.length + 1, queue, content⟩
  match content.parse with
  | none =>
    { consumer with
      delivered := consumer.delivered ++ [message]
      sent := consumer.sent ++ [⟨message.deliveryTag, none, Outcome.malformed.settlement⟩] }
  | some _ =>
    { consumer with
      delivered := consumer.delivered ++ [message]
      chains := consumer.chains.handle message }

/-- The task sends its frame and returns. -/
def settleDelivery (consumer : FleetConsumer) (task : Nat) (message : ConsumeMessage)
    (outcome : Outcome) : FleetConsumer :=
  { consumer with
    work := Function.update consumer.work task .returned
    sent := consumer.sent ++ [⟨message.deliveryTag, some task, outcome.settlement⟩] }

/-- The bookkeeping of `processEvent` before the frame: after `report`, or in the `catch`. -/
def account (consumer : FleetConsumer) (event : LocationEventV1) : Outcome → FleetConsumer
  | .processed =>
    { consumer with
      lastSeqByDevice := rememberSeq consumer.lastSeqByDevice event
      processedCount := consumer.processedCount + 1 }
  | .failed error =>
    if isStaleAreaViolation error then
      { consumer with
        staleAreaDropCount := consumer.staleAreaDropCount + 1
        processedCount := consumer.processedCount + 1 }
    else consumer
  | .malformed | .duplicate => consumer

/-- The dedup map and the counters apart, nothing has changed. -/
structure SameTasks (consumer next : FleetConsumer) : Prop where
  chains : next.chains = consumer.chains
  work : next.work = consumer.work
  delivered : next.delivered = consumer.delivered
  sent : next.sent = consumer.sent

theorem SameTasks.refl (consumer : FleetConsumer) : consumer.SameTasks consumer :=
  ⟨rfl, rfl, rfl, rfl⟩

theorem sameTasks_account (consumer : FleetConsumer) (event : LocationEventV1)
    (outcome : Outcome) : consumer.SameTasks (consumer.account event outcome) := by
  cases outcome with
  | failed error =>
    rw [account]
    split <;> exact ⟨rfl, rfl, rfl, rfl⟩
  | _ => exact ⟨rfl, rfl, rfl, rfl⟩

/-- `report` has come to its next await, or to its end and with it `processEvent`. -/
def resume (consumer : FleetConsumer) (task : Nat) (message : ConsumeMessage)
    (event : LocationEventV1) : Option Outcome → FleetConsumer
  | none => { consumer with work := Function.update consumer.work task .reporting }
  | some outcome => (consumer.account event outcome).settleDelivery task message outcome

end FleetConsumer

/-- How `report` ends, where an action ends it. -/
def PhasedWorker.outcome (ext : Externals) (st : PhasedWorker) : PhaseAction → Option Outcome
  | .call event =>
    match callOf ext st.snapshot event with
    | .error e => some (.failed e)
    | .ok _ => none
  | .lookUp userId =>
    match st.inFlight userId, st.memory userId with
    | some (.lookingUp call), some hint =>
      if differs call.currentAreaIds hint then none else some .processed
    | _, _ => none
  | .seed userId none =>
    match st.inFlight userId with
    | some (.seeding call) =>
      if differs call.currentAreaIds (st.db.presence.areaIds userId) then none else some .processed
    | _ => none
  | .commit userId =>
    match st.inFlight userId with
    | some (.changing call) =>
      match transaction ext.pg call st.db with
      | .error e => some (.failed (.queryFailed e))
      | .ok _ => none
    | _ => none
  | .seed _ (some e) | .rollBack _ e | .answer _ (some e) => some (.failed (.queryFailed e))
  | .invalidated _ => some .processed
  | .answer _ none | .restart | .swapSnapshot _ | .createArea _ => none

/-- The answers to an await of a user's `report`. -/
def PhaseAction.isAnswer (userId : UserId) : PhaseAction → Bool
  | .call _ => false
  | action => action.user? = some userId

/-- `handled` records how the handling of each event ended. -/
structure Deployment (ω : Type) where
  fleet : WorkerFleet ω
  consumers : ω → FleetConsumer
  handled : List (LocationEventV1 × Outcome)

inductive DeploymentAction (ω : Type) where
  | createArea (row : AreaGeometryRow)
  | deleteArea (areaId : AreaId)
  | restart (w : ω)
  | swapSnapshot (w : ω) (snapshot : Snapshot)
  | deliver (w : ω) (queue : Nat) (content : Content)
  | start (w : ω) (task : Nat)
  | gate (w : ω) (task : Nat) (readError : Option PgError)
  | report (w : ω) (task : Nat) (action : PhaseAction)
  | finish (w : ω) (task : Nat)
  | settle (w : ω) (task : Nat)
  | cleanup (w : ω) (task : Nat)

namespace Deployment

variable {ω : Type}

def start (db : Database) : Deployment ω := ⟨.start db, fun _ => .start, []⟩

/-- A worker is given messages of the queues it consumes; the exchange has put an event into the
queue of its user. -/
def routes (assignment : PartitionAssignment ω) (w : ω) (queue : Nat) (content : Content) : Bool :=
  (assignment.partitions w).contains queue &&
    content.parse.all fun event => decide (assignment.partitionOf event.userId = queue)

variable [DecidableEq ω]

def put (st : Deployment ω) (w : ω) (consumer : FleetConsumer) : Deployment ω :=
  { st with consumers := Function.update st.consumers w consumer }

/-- One stretch of a task's `report`, from one await to the next. -/
def resume (ext : Externals) (assignment : PartitionAssignment ω) (st : Deployment ω) (w : ω)
    (consumer : FleetConsumer) (task : Nat) (message : ConsumeMessage) (event : LocationEventV1)
    (action : PhaseAction) : Option (Deployment ω) :=
  (st.fleet.step ext assignment (.worker w action)).map fun fleet =>
    let outcome := (st.fleet.view w).outcome ext action
    { fleet
      consumers := Function.update st.consumers w (consumer.resume task message event outcome)
      handled := st.handled ++ outcome.toList.map fun outcome => (event, outcome) }

/-- The first await of `processEvent`; the event it lets through goes into `report` at once. -/
def gate (ext : Externals) (assignment : PartitionAssignment ω) (st : Deployment ω) (w : ω)
    (task : Nat) (message : ConsumeMessage) (event : LocationEventV1)
    (readError : Option PgError) : Option (Deployment ω) :=
  let consumer := st.consumers w
  match isDuplicate consumer.lastSeqByDevice st.fleet.db.eventState event readError with
  | .error e =>
    some { st.put w ((consumer.account event (.failed e)).settleDelivery task message (.failed e))
      with handled := st.handled ++ [(event, .failed e)] }
  | .ok (lastSeqByDevice, true) =>
    some { st.put w ({ consumer with lastSeqByDevice }.settleDelivery task message .duplicate)
      with handled := st.handled ++ [(event, .duplicate)] }
  | .ok (lastSeqByDevice, false) =>
    st.resume ext assignment w { consumer with lastSeqByDevice } task message event (.call event)

def step (ext : Externals) (assignment : PartitionAssignment ω) (st : Deployment ω) :
    DeploymentAction ω → Option (Deployment ω)
  | .createArea row =>
    (st.fleet.step ext assignment (.createArea row)).map fun fleet => { st with fleet }
  | .deleteArea areaId =>
    (st.fleet.step ext assignment (.deleteArea areaId)).map fun fleet => { st with fleet }
  | .restart w =>
    (st.fleet.step ext assignment (.worker w .restart)).map fun fleet =>
      { st with fleet, consumers := Function.update st.consumers w .start }
  | .swapSnapshot w snapshot =>
    (st.fleet.step ext assignment (.worker w (.swapSnapshot snapshot))).map fun fleet =>
      { st with fleet }
  | .deliver w queue content =>
    if routes assignment w queue content then some (st.put w ((st.consumers w).handle queue content))
    else none
  | .start w task =>
    ((st.consumers w).chains.start? task).map fun chains =>
      st.put w { st.consumers w with
        chains, work := Function.update (st.consumers w).work task .gating }
  | .gate w task readError =>
    match (st.consumers w).work task, (st.consumers w).job task with
    | .gating, some (message, event) => st.gate ext assignment w task message event readError
    | _, _ => none
  | .report w task action =>
    match (st.consumers w).work task, (st.consumers w).job task with
    | .reporting, some (message, event) =>
      if action.isAnswer event.userId then
        st.resume ext assignment w (st.consumers w) task message event action
      else none
    | _, _ => none
  | .finish w task =>
    if (st.consumers w).work task = .returned then
      ((st.consumers w).chains.finish? task).map fun chains =>
        st.put w { st.consumers w with chains }
    else none
  | .settle w task =>
    ((st.consumers w).chains.settle? task).map fun chains => st.put w { st.consumers w with chains }
  | .cleanup w task =>
    ((st.consumers w).chains.cleanup? task).map fun chains =>
      st.put w { st.consumers w with chains }

def machine (ext : Externals) (assignment : PartitionAssignment ω) :
    Machine (Deployment ω) (DeploymentAction ω) :=
  ⟨step ext assignment⟩

end Deployment

/-- An error raised by a COMMIT of the user that the server applied. -/
def DeploymentAction.losesCommit {ω : Type} (userId : UserId) : DeploymentAction ω → Bool
  | .report _ _ action => action.losesCommit userId
  | _ => false

/-- The events of a user that an action hands to a worker. -/
def DeploymentAction.delivery {ω : Type} (userId : UserId) :
    DeploymentAction ω → List LocationEventV1
  | .deliver _ _ content => (content.parse.filter fun event => event.userId = userId).toList
  | _ => []

namespace Deployment

variable {ω : Type} [DecidableEq ω]

/-- Everything a step can do. -/
inductive DeploymentStep (ext : Externals) (assignment : PartitionAssignment ω)
    (st : Deployment ω) : DeploymentAction ω → Deployment ω → Prop
  | created (row : AreaGeometryRow) (fleet : WorkerFleet ω)
      (hfleet : st.fleet.step ext assignment (.createArea row) = some fleet) :
    DeploymentStep ext assignment st (.createArea row) { st with fleet }
  | deleted (areaId : AreaId) (fleet : WorkerFleet ω)
      (hfleet : st.fleet.step ext assignment (.deleteArea areaId) = some fleet) :
    DeploymentStep ext assignment st (.deleteArea areaId) { st with fleet }
  | restarted (w : ω) (fleet : WorkerFleet ω)
      (hfleet : st.fleet.step ext assignment (.worker w .restart) = some fleet) :
    DeploymentStep ext assignment st (.restart w)
      { st with fleet, consumers := Function.update st.consumers w .start }
  | swapped (w : ω) (snapshot : Snapshot) (fleet : WorkerFleet ω)
      (hfleet : st.fleet.step ext assignment (.worker w (.swapSnapshot snapshot)) = some fleet) :
    DeploymentStep ext assignment st (.swapSnapshot w snapshot) { st with fleet }
  | delivered (w : ω) (queue : Nat) (content : Content)
      (hroutes : routes assignment w queue content = true) :
    DeploymentStep ext assignment st (.deliver w queue content)
      (st.put w ((st.consumers w).handle queue content))
  | started (w : ω) (task : Nat) (chains : UserChains)
      (hstart : (st.consumers w).chains.start? task = some chains) :
    DeploymentStep ext assignment st (.start w task) (st.put w { st.consumers w with
      chains, work := Function.update (st.consumers w).work task .gating })
  | gated (w : ω) (task : Nat) (readError : Option PgError) (consumer : FleetConsumer)
      (message : ConsumeMessage) (event : LocationEventV1) (outcome : Outcome)
      (hsame : (st.consumers w).SameTasks consumer)
      (hwork : (st.consumers w).work task = .gating)
      (hjob : (st.consumers w).job task = some (message, event))
      (houtcome : outcome ≠ .processed) :
    DeploymentStep ext assignment st (.gate w task readError)
      { st.put w (consumer.settleDelivery task message outcome) with
        handled := st.handled ++ [(event, outcome)] }
  | entered (w : ω) (task : Nat) (readError : Option PgError) (consumer : FleetConsumer)
      (message : ConsumeMessage) (event : LocationEventV1) (t : Deployment ω)
      (hsame : (st.consumers w).SameTasks consumer)
      (hwork : (st.consumers w).work task = .gating)
      (hjob : (st.consumers w).job task = some (message, event))
      (hresume : st.resume ext assignment w consumer task message event (.call event) = some t) :
    DeploymentStep ext assignment st (.gate w task readError) t
  | answered (w : ω) (task : Nat) (action : PhaseAction) (message : ConsumeMessage)
      (event : LocationEventV1) (t : Deployment ω)
      (hwork : (st.consumers w).work task = .reporting)
      (hjob : (st.consumers w).job task = some (message, event))
      (hanswer : action.isAnswer event.userId = true)
      (hresume : st.resume ext assignment w (st.consumers w) task message event action = some t) :
    DeploymentStep ext assignment st (.report w task action) t
  | moved (action : DeploymentAction ω) (w : ω) (task : Nat) (chains : UserChains)
      (hmoved : action = .finish w task ∧ (st.consumers w).work task = .returned ∧
          (st.consumers w).chains.finish? task = some chains ∨
        action = .settle w task ∧ (st.consumers w).chains.settle? task = some chains ∨
        action = .cleanup w task ∧ (st.consumers w).chains.cleanup? task = some chains) :
    DeploymentStep ext assignment st action (st.put w { st.consumers w with chains })

variable {ext : Externals} {assignment : PartitionAssignment ω} {st t : Deployment ω}

private theorem gate_cases {w : ω} {task : Nat} {readError : Option PgError}
    {message : ConsumeMessage} {event : LocationEventV1}
    (hwork : (st.consumers w).work task = .gating)
    (hjob : (st.consumers w).job task = some (message, event))
    (h : st.gate ext assignment w task message event readError = some t) :
    DeploymentStep ext assignment st (.gate w task readError) t := by
  unfold gate at h
  simp only at h
  split at h
  · rename_i e hread
    cases h
    exact .gated w task readError _ message event (.failed e)
      (FleetConsumer.sameTasks_account _ event (.failed e)) hwork hjob (by simp)
  · rename_i lastSeqByDevice hread
    cases h
    exact .gated w task readError { st.consumers w with lastSeqByDevice } message event .duplicate
      ⟨rfl, rfl, rfl, rfl⟩ hwork hjob (by simp)
  · rename_i lastSeqByDevice hread
    exact .entered w task readError { st.consumers w with lastSeqByDevice } message event t
      ⟨rfl, rfl, rfl, rfl⟩ hwork hjob h

theorem step_cases {action : DeploymentAction ω}
    (h : st.step ext assignment action = some t) :
    DeploymentStep ext assignment st action t := by
  cases action with
  | createArea row =>
    obtain ⟨fleet, hfleet, rfl⟩ := Option.map_eq_some_iff.mp h
    exact .created row fleet hfleet
  | deleteArea areaId =>
    obtain ⟨fleet, hfleet, rfl⟩ := Option.map_eq_some_iff.mp h
    exact .deleted areaId fleet hfleet
  | restart w =>
    simp only [step, Option.map_eq_some_iff] at h
    obtain ⟨fleet, hfleet, rfl⟩ := h
    exact .restarted w fleet hfleet
  | swapSnapshot w snapshot =>
    obtain ⟨fleet, hfleet, rfl⟩ := Option.map_eq_some_iff.mp h
    exact .swapped w snapshot fleet hfleet
  | deliver w queue content =>
    simp only [step] at h
    split at h
    · rename_i hroutes
      cases h
      exact .delivered w queue content hroutes
    · cases h
  | start w task =>
    obtain ⟨chains, hchains, rfl⟩ := Option.map_eq_some_iff.mp h
    exact .started w task chains hchains
  | gate w task readError =>
    simp only [step] at h
    split at h
    · rename_i message event hwork hjob
      exact gate_cases hwork hjob h
    · cases h
  | report w task action =>
    simp only [step] at h
    split at h
    · rename_i message event hwork hjob
      split at h
      · rename_i hanswer
        exact .answered w task action message event t hwork hjob hanswer h
      · cases h
    · cases h
  | finish w task =>
    simp only [step] at h
    split at h
    · rename_i hwork
      obtain ⟨chains, hchains, rfl⟩ := Option.map_eq_some_iff.mp h
      exact .moved _ w task chains (Or.inl ⟨rfl, hwork, hchains⟩)
    · cases h
  | settle w task =>
    obtain ⟨chains, hchains, rfl⟩ := Option.map_eq_some_iff.mp h
    exact .moved _ w task chains (Or.inr (Or.inl ⟨rfl, hchains⟩))
  | cleanup w task =>
    obtain ⟨chains, hchains, rfl⟩ := Option.map_eq_some_iff.mp h
    exact .moved _ w task chains (Or.inr (Or.inr ⟨rfl, hchains⟩))

end Deployment

/-! ## One call of a user at a time -/

namespace PhasedWorker

variable {ext : Externals} {st t : PhasedWorker} {action : PhaseAction} {userId : UserId}

/-- `report` has ended exactly when no call of the user is left in progress. -/
theorem isSome_outcome (hkeyed : Keyed st.inFlight) (hst : st.step ext action = some t)
    (huser : action.user? = some userId) :
    (st.outcome ext action).isSome = (t.inFlight userId).isNone := by
  have hforked : ∀ (s : PhasedWorker) (call : ReportCall) (hint : List AreaId),
      call.dto.userId = userId → ((s.fork call hint).inFlight userId).isNone =
        !differs call.currentAreaIds hint := by
    intro s call hint hcall
    rw [fork, hcall, setPhase_inFlight_self]
    cases differs call.currentAreaIds hint <;> rfl
  cases action with
  | restart => cases huser
  | swapSnapshot snapshot => cases huser
  | createArea row => cases huser
  | call event =>
    cases huser
    simp only [step] at hst
    split at hst
    · cases hst
    · rename_i e hidle hcall
      cases hst
      simp [outcome, hcall, hidle]
    · rename_i call hidle hcall
      cases hst
      simp [outcome, hcall, setPhase_inFlight_self]
  | lookUp user =>
    cases huser
    simp only [step] at hst
    split at hst
    · rename_i call hphase
      split at hst
      · rename_i hint hmem
        cases hst
        rw [hforked st call hint (hkeyed _ _ hphase).userId]
        simp only [outcome, hphase, hmem]
        cases differs call.currentAreaIds hint <;> rfl
      · rename_i hmem
        cases hst
        simp [outcome, hphase, hmem, setPhase_inFlight_self]
    · cases hst
  | seed user error =>
    cases huser
    simp only [step] at hst
    split at hst
    · rename_i call e hphase
      cases hst
      simp [outcome, setPhase_inFlight_self]
    · rename_i call hphase
      cases hst
      rw [hforked _ call _ (hkeyed _ _ hphase).userId]
      simp only [outcome, hphase]
      cases differs call.currentAreaIds (st.db.presence.areaIds userId) <;> rfl
    · cases hst
  | rollBack user e =>
    cases huser
    simp only [step] at hst
    split at hst
    · cases hst
      simp [outcome, setPhase_inFlight_self]
    · cases hst
  | commit user =>
    cases huser
    simp only [step] at hst
    split at hst
    · rename_i call hphase
      split at hst
      · rename_i e htx
        cases hst
        simp [outcome, hphase, htx, setPhase_inFlight_self]
      · rename_i db result htx
        cases hst
        simp [outcome, hphase, htx, setPhase_inFlight_self]
    · cases hst
  | answer user error =>
    cases huser
    simp only [step] at hst
    split at hst
    · cases hst
      simp [outcome, setPhase_inFlight_self]
    · cases hst
      simp [outcome, setPhase_inFlight_self]
    · cases hst
  | invalidated user =>
    cases huser
    simp only [step] at hst
    split at hst
    · cases hst
      simp [outcome, setPhase_inFlight_self]
    · cases hst

theorem reportCall_of_answer (hkeyed : Keyed st.inFlight) (hst : st.step ext action = some t)
    (hanswer : action.isAnswer userId = true) {after : ReportPhase}
    (hafter : t.inFlight userId = some after) :
    ∃ before, st.inFlight userId = some before ∧ after.reportCall = before.reportCall := by
  have hforked : ∀ (s : PhasedWorker) (call : ReportCall) (hint : List AreaId),
      call.dto.userId = userId → (s.fork call hint).inFlight userId = some after →
        after.reportCall = call := by
    intro s call hint hcall hphase
    rw [fork, hcall, setPhase_inFlight_self] at hphase
    split at hphase
    · cases hphase
      rfl
    · cases hphase
  cases step_cases hst with
  | restart => simp [PhaseAction.isAnswer, PhaseAction.user?] at hanswer
  | swapSnapshot snapshot => simp [PhaseAction.isAnswer, PhaseAction.user?] at hanswer
  | createArea row db hdb => simp [PhaseAction.isAnswer, PhaseAction.user?] at hanswer
  | refused event => cases hanswer
  | called event call hidle hcall => cases hanswer
  | warm user call hint hphase hmem =>
    cases of_decide_eq_true hanswer
    exact ⟨_, hphase, hforked st call hint (hkeyed _ _ hphase).userId hafter⟩
  | cold user call hphase hmem =>
    cases of_decide_eq_true hanswer
    rw [setPhase_inFlight_self] at hafter
    cases hafter
    exact ⟨_, hphase, rfl⟩
  | seeded user call hphase =>
    cases of_decide_eq_true hanswer
    exact ⟨_, hphase, hforked _ call _ (hkeyed _ _ hphase).userId hafter⟩
  | committed user call db result hphase htx =>
    cases of_decide_eq_true hanswer
    rw [setPhase_inFlight_self] at hafter
    cases hafter
    exact ⟨_, hphase, rfl⟩
  | answered user call result hphase =>
    cases of_decide_eq_true hanswer
    rw [setPhase_inFlight_self] at hafter
    cases hafter
    exact ⟨_, hphase, rfl⟩
  | seedFailed _ _ _ _ | rolledBack _ _ _ _ | refusedByServer _ _ _ | lost _ _ _ _ _
  | invalidated _ _ _ =>
    cases of_decide_eq_true hanswer
    rw [setPhase_inFlight_self] at hafter
    cases hafter

end PhasedWorker

end Geofence
