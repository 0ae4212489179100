import Geofence.Framework.Machine
import Geofence.Locations.Report
/-!
# `LocationIngestService.accept` and `MqPublisherService.publish`

Any number of accepts over one confirm channel that closes and reconnects. The promise of a call
is settled by whichever comes first of the confirm callback, the timer and an exception, while
what the broker does with the message is decided when it gets there, if it does.
-/

namespace Geofence

open Framework

def PUBLISH_CONFIRM_TIMEOUT_MS : Nat := 5000

/-- The error the filter answers with 503. -/
structure MqUnavailableError where
  reason : String
  deriving DecidableEq, Repr

/-- What a publish was rejected for. -/
inductive Rejection where
  | notConnected
  | threw (message : String)
  | nack
  | channelClosed
  | timeout
  deriving DecidableEq, Repr

/-- The callback cannot tell a nack from a channel that closed under it. -/
def Rejection.error : Rejection → MqUnavailableError
  | .notConnected => ⟨"not connected"⟩
  | .threw message => ⟨message⟩
  | .nack | .channelClosed => ⟨"broker rejected the publish (nack)"⟩
  | .timeout => ⟨"confirm not received within " ++ toString PUBLISH_CONFIRM_TIMEOUT_MS ++ "ms"⟩

inductive PublishPromise where
  | pending
  | resolved
  | rejected (cause : Rejection)
  deriving DecidableEq, Repr

/-- Where the message is. -/
inductive MessageFate where
  | unsent
  | inFlight
  | lost
  | stored (partition : Nat)
  | returned
  | refused
  deriving DecidableEq, Repr

/-- What the broker makes of a message: no partition is bound to its key, or an internal error
makes the broker refuse it. -/
inductive Routing where
  | routed (partition : Nat)
  | unroutable
  | refused
  deriving DecidableEq, Repr

inductive BrokerFrame where
  | basicReturn
  | ack
  | nack
  deriving DecidableEq, Repr

/-- One call of `publish`: the channel it captured, its promise, timer and callback, and the
broker's side of it. -/
structure PublishCall where
  event : LocationEventV1
  channel : Option Nat
  promise : PublishPromise
  timer : Bool
  callback : Bool
  message : MessageFate
  frames : List BrokerFrame
  returnLogged : Bool

namespace PublishCall

/-- A promise is settled once. -/
def settle (call : PublishCall) (promise : PublishPromise) : PublishCall :=
  match call.promise with
  | .pending => { call with promise }
  | _ => call

/-- The confirm callback: `clearTimeout`, then resolve or reject. -/
def onConfirm (call : PublishCall) (promise : PublishPromise) : PublishCall :=
  { call.settle promise with timer := false, callback := false }

/-- The broker handles the message. A returned message is confirmed after its return. -/
def receive (call : PublishCall) : Routing → PublishCall
  | .routed partition => { call with message := .stored partition, frames := [.ack] }
  | .unroutable => { call with message := .returned, frames := [.basicReturn, .ack] }
  | .refused => { call with message := .refused, frames := [.nack] }

/-- The next frame reaches the client; a return is logged and nothing else. -/
def readFrame (call : PublishCall) : Option PublishCall :=
  match call.frames with
  | [] => none
  | .basicReturn :: frames => some { call with frames, returnLogged := true }
  | .ack :: frames => some ({ call with frames }.onConfirm .resolved)
  | .nack :: frames => some ({ call with frames }.onConfirm (.rejected .nack))

def fireTimer (call : PublishCall) : PublishCall :=
  { call.settle (.rejected .timeout) with timer := false }

/-- What `accept` gives its caller: the event's id, or the error. -/
def result (call : PublishCall) : Option (Except MqUnavailableError Nat) :=
  match call.promise with
  | .pending => none
  | .resolved => some (.ok call.event.eventId)
  | .rejected cause => some (.error cause.error)

end PublishCall

/-- `channel` is the service's field, the last of `opened` channels, and `channelOpen` tells
whether that channel still is; `queues` is what the partition queues have been given. -/
structure MqPublisher where
  channel : Option Nat
  channelOpen : Bool
  opened : Nat
  calls : List PublishCall
  queues : List (Nat × LocationEventV1)

inductive PublisherAction where
  | accept (dto : ReportLocationDto) (receivedAt : Timestamp) (throws : Option String)
  | brokerReceives (call : Nat) (routing : Routing)
  | messageLost (call : Nat)
  | frameArrives (call : Nat)
  | timerFires (call : Nat)
  | channelCloses
  | connectionCloses
  | closedCallback (call : Nat)
  | reconnects

namespace MqPublisher

/-- After a bootstrap that found the exchange. -/
def start : MqPublisher := ⟨some 0, true, 1, [], []⟩

/-- The event `accept` builds; `capturedAt` wins over its deprecated alias. -/
def eventOf (eventId : Nat) (dto : ReportLocationDto) (receivedAt : Timestamp) :
    LocationEventV1 where
  eventId := eventId
  userId := dto.userId
  deviceId := dto.deviceId
  seq := dto.seq
  lat := dto.lat
  lng := dto.lng
  accuracy := dto.accuracy
  capturedAt := dto.capturedAt.or dto.observedAt
  receivedAt := receivedAt

/-- `publish` up to its first return to the event loop. -/
def publish (channel : Option Nat) (event : LocationEventV1) (throws : Option String) :
    PublishCall :=
  match channel, throws with
  | none, _ => ⟨event, none, .rejected .notConnected, false, false, .unsent, [], false⟩
  | some ch, some text => ⟨event, some ch, .rejected (.threw text), false, false, .unsent, [], false⟩
  | some ch, none => ⟨event, some ch, .pending, true, true, .inFlight, [], false⟩

/-- A reading above the accuracy maximum is refused with 422 before anything is published. A
channel that has closed throws on every publish. -/
def accept (st : MqPublisher) (dto : ReportLocationDto) (receivedAt : Timestamp)
    (throws : Option String) : MqPublisher :=
  if dto.accuracy.any fun accuracy => MAX_ACCURACY_METERS < accuracy then st
  else { st with
    calls := st.calls ++ [publish st.channel (eventOf st.calls.length dto receivedAt)
      (if st.channelOpen then throws else some "Channel closed")] }

/-- The channel a call captured can still bring it frames. -/
def reaches (st : MqPublisher) (call : PublishCall) : Bool :=
  decide (call.channel = st.channel) && st.channelOpen

def setCall (st : MqPublisher) (i : Nat) (call : PublishCall) : MqPublisher :=
  { st with calls := st.calls.set i call }

def step (st : MqPublisher) : PublisherAction → Option MqPublisher
  | .accept dto receivedAt throws => some (st.accept dto receivedAt throws)
  | .brokerReceives i routing =>
    match st.calls[i]? with
    | none => none
    | some call =>
      if call.message = .inFlight then
        some { st.setCall i (call.receive routing) with
          queues := st.queues ++
            match routing with
            | .routed partition => [(partition, call.event)]
            | _ => [] }
      else none
  | .messageLost i =>
    match st.calls[i]? with
    | none => none
    | some call =>
      if call.message = .inFlight then some (st.setCall i { call with message := .lost }) else none
  | .frameArrives i =>
    match st.calls[i]? with
    | none => none
    | some call =>
      if call.callback && st.reaches call then call.readFrame.map (st.setCall i)
      else none
  | .timerFires i =>
    match st.calls[i]? with
    | none => none
    | some call => if call.timer then some (st.setCall i call.fireTimer) else none
  | .channelCloses => some { st with channelOpen := false }
  | .connectionCloses => some { st with channel := none, channelOpen := false }
  | .closedCallback i =>
    match st.calls[i]? with
    | none => none
    | some call =>
      if call.callback && !st.reaches call then
        some (st.setCall i (call.onConfirm (.rejected .channelClosed)))
      else none
  | .reconnects =>
    match st.channel with
    | none => some { st with channel := some st.opened, channelOpen := true, opened := st.opened + 1 }
    | some _ => none

def machine : Machine MqPublisher PublisherAction := ⟨step⟩

end MqPublisher

namespace PublishCall

/-- What a settled promise says about the message. -/
def Justifies (message : MessageFate) (returnLogged : Bool) : PublishPromise → Prop
  | .resolved => (∃ partition, message = .stored partition) ∨
    message = .returned ∧ returnLogged = true
  | .rejected .notConnected | .rejected (.threw _) => message = .unsent
  | .rejected .nack => message = .refused
  | .pending | .rejected .channelClosed | .rejected .timeout => True

/-- The frames the broker has sent about the message and the client has not read. -/
def Awaiting (message : MessageFate) (returnLogged : Bool) (frames : List BrokerFrame) : Prop :=
  match message with
  | .unsent | .inFlight | .lost => frames = []
  | .stored _ => frames = [.ack] ∨ frames = []
  | .returned => frames = [.basicReturn, .ack] ∨
    (frames = [.ack] ∨ frames = []) ∧ returnLogged = true
  | .refused => frames = [.nack] ∨ frames = []

structure Consistent (call : PublishCall) : Prop where
  frames : Awaiting call.message call.returnLogged call.frames
  promise : Justifies call.message call.returnLogged call.promise
  timer : call.promise = .pending → call.timer = true

theorem Justifies.of_inFlight {logged logged' : Bool} {promise : PublishPromise}
    (h : Justifies .inFlight logged promise) (message : MessageFate) :
    Justifies message logged' promise := by
  cases promise with
  | pending => trivial
  | resolved =>
    rcases h with ⟨partition, hstored⟩ | ⟨hreturned, -⟩
    · cases hstored
    · cases hreturned
  | rejected cause =>
    cases cause with
    | notConnected => cases h
    | threw text => cases h
    | nack => cases h
    | channelClosed => trivial
    | timeout => trivial

theorem Justifies.logged {message : MessageFate} {logged : Bool} {promise : PublishPromise}
    (h : Justifies message logged promise) : Justifies message true promise := by
  cases promise with
  | pending => trivial
  | resolved =>
    rcases h with hstored | ⟨hreturned, -⟩
    · exact Or.inl hstored
    · exact Or.inr ⟨hreturned, rfl⟩
  | rejected cause => cases cause <;> exact h

section Settle

variable (call : PublishCall) (promise : PublishPromise)

@[simp] theorem settle_event : (call.settle promise).event = call.event := by
  unfold settle
  split <;> rfl

@[simp] theorem settle_message : (call.settle promise).message = call.message := by
  unfold settle
  split <;> rfl

private theorem settle_frames : (call.settle promise).frames = call.frames := by
  unfold settle
  split <;> rfl

private theorem settle_returnLogged : (call.settle promise).returnLogged = call.returnLogged := by
  unfold settle
  split <;> rfl

theorem settle_promise : (call.settle promise).promise = promise ∨
    (call.promise ≠ .pending ∧ (call.settle promise).promise = call.promise) := by
  unfold settle
  cases hpromise : call.promise with
  | pending => exact Or.inl rfl
  | resolved => exact Or.inr ⟨by simp, hpromise⟩
  | rejected cause => exact Or.inr ⟨by simp, hpromise⟩

theorem settle_of_ne {call : PublishCall} (h : call.promise ≠ .pending) :
    (call.settle promise).promise = call.promise := by
  unfold settle
  split
  · rename_i hpending
    exact absurd hpending h
  · rfl

end Settle

namespace Consistent

variable {call next : PublishCall}

theorem publish (channel : Option Nat) (event : LocationEventV1) (throws : Option String) :
    Consistent (MqPublisher.publish channel event throws) := by
  cases channel with
  | none => exact ⟨rfl, rfl, fun h => nomatch h⟩
  | some ch =>
    cases throws with
    | none => exact ⟨rfl, trivial, fun _ => rfl⟩
    | some text => exact ⟨rfl, rfl, fun h => nomatch h⟩

theorem receive (h : Consistent call) (hflight : call.message = .inFlight) (routing : Routing) :
    Consistent (call.receive routing) := by
  have hpromise : ∀ message, Justifies message call.returnLogged call.promise := by
    intro message
    have hbefore := h.promise
    rw [hflight] at hbefore
    exact hbefore.of_inFlight message
  cases routing with
  | routed partition => exact ⟨Or.inl rfl, hpromise _, h.timer⟩
  | unroutable => exact ⟨Or.inl rfl, hpromise _, h.timer⟩
  | refused => exact ⟨Or.inl rfl, hpromise _, h.timer⟩

private theorem lose (h : Consistent call) (hflight : call.message = .inFlight) :
    Consistent { call with message := .lost } := by
  have hframes := h.frames
  have hpromise := h.promise
  rw [hflight] at hframes hpromise
  exact ⟨hframes, hpromise.of_inFlight _, h.timer⟩

theorem onConfirm {promise : PublishPromise}
    (hframes : Awaiting call.message call.returnLogged call.frames)
    (hpromise : Justifies call.message call.returnLogged call.promise)
    (hsettled : promise ≠ .pending)
    (hjustified : Justifies call.message call.returnLogged promise) :
    Consistent (call.onConfirm promise) := by
  refine ⟨?_, ?_, ?_⟩
  · simpa [PublishCall.onConfirm, settle_frames, settle_returnLogged] using hframes
  · have hgoal : Justifies call.message call.returnLogged (call.settle promise).promise := by
      rcases call.settle_promise promise with hnew | ⟨-, hold⟩
      · rw [hnew]
        exact hjustified
      · rw [hold]
        exact hpromise
    simpa [PublishCall.onConfirm, settle_returnLogged] using hgoal
  · intro hpending
    change (call.settle promise).promise = .pending at hpending
    rcases call.settle_promise promise with hnew | ⟨hne, hold⟩
    · exact absurd (hnew.symm.trans hpending) hsettled
    · exact absurd (hold.symm.trans hpending) hne

private theorem ack (h : Consistent call) (hframes : call.frames = [.ack])
    (hrest : Awaiting call.message call.returnLogged [])
    (hjustified : Justifies call.message call.returnLogged .resolved)
    (hread : call.readFrame = some next) : Consistent next := by
  rw [PublishCall.readFrame, hframes] at hread
  cases hread
  exact onConfirm hrest h.promise (by simp) hjustified

theorem readFrame (h : Consistent call) (hread : call.readFrame = some next) :
    Consistent next := by
  have hempty : call.frames ≠ [] := by
    intro hnil
    rw [PublishCall.readFrame, hnil] at hread
    cases hread
  have hframes := h.frames
  cases hmessage : call.message with
  | unsent => exact absurd (by simpa [hmessage, Awaiting] using hframes) hempty
  | inFlight => exact absurd (by simpa [hmessage, Awaiting] using hframes) hempty
  | lost => exact absurd (by simpa [hmessage, Awaiting] using hframes) hempty
  | stored partition =>
    rw [hmessage] at hframes
    refine h.ack (hframes.resolve_right hempty) ?_ ?_ hread
    · rw [hmessage]
      exact Or.inr rfl
    · exact Or.inl ⟨partition, hmessage⟩
  | returned =>
    rw [hmessage] at hframes
    rcases hframes with hboth | ⟨hack | hnil, hlogged⟩
    · rw [PublishCall.readFrame, hboth] at hread
      cases hread
      refine ⟨?_, h.promise.logged, h.timer⟩
      change Awaiting call.message true [.ack]
      rw [hmessage]
      exact Or.inr ⟨Or.inl rfl, rfl⟩
    · refine h.ack hack ?_ ?_ hread
      · rw [hmessage]
        exact Or.inr ⟨Or.inr rfl, hlogged⟩
      · exact Or.inr ⟨hmessage, hlogged⟩
    · exact absurd hnil hempty
  | refused =>
    rw [hmessage] at hframes
    rw [PublishCall.readFrame, hframes.resolve_right hempty] at hread
    cases hread
    refine onConfirm ?_ h.promise (by simp) hmessage
    change Awaiting call.message call.returnLogged []
    rw [hmessage]
    exact Or.inr rfl

theorem fireTimer (h : Consistent call) : Consistent call.fireTimer := by
  have hconfirm : Consistent (call.onConfirm (.rejected .timeout)) :=
    onConfirm h.frames h.promise (by simp) trivial
  exact ⟨hconfirm.frames, hconfirm.promise, hconfirm.timer⟩

end Consistent

private theorem readFrame_frame {call next : PublishCall} (h : call.readFrame = some next) :
    next.event = call.event ∧ next.message = call.message ∧
      (call.promise ≠ .pending → next.promise = call.promise) := by
  unfold readFrame at h
  split at h
  · cases h
  · cases h
    exact ⟨rfl, rfl, fun _ => rfl⟩
  · cases h
    exact ⟨settle_event _ _, settle_message _ _, fun hne => settle_of_ne _ hne⟩
  · cases h
    exact ⟨settle_event _ _, settle_message _ _, fun hne => settle_of_ne _ hne⟩

end PublishCall

namespace MqPublisher

open PublishCall

/-- A call moves on without a message being stored. -/
structure Moves (call next : PublishCall) : Prop where
  event : next.event = call.event
  stored : ∀ partition, next.message = .stored partition ↔ call.message = .stored partition
  promise : call.promise ≠ .pending → next.promise = call.promise
  consistent : call.Consistent → next.Consistent

/-- Everything a step can do. -/
inductive PublisherStep (st : MqPublisher) : MqPublisher → Prop where
  | connection (channel : Option Nat) (channelOpen : Bool) (opened : Nat) :
    PublisherStep st { st with channel, channelOpen, opened }
  | published (dto : ReportLocationDto) (receivedAt : Timestamp) (throws : Option String) :
    PublisherStep st { st with
      calls := st.calls ++ [publish st.channel (eventOf st.calls.length dto receivedAt) throws] }
  | received (i partition : Nat) (call : PublishCall) (hcall : st.calls[i]? = some call)
      (hflight : call.message = .inFlight) :
    PublisherStep st { st.setCall i (call.receive (.routed partition)) with
      queues := st.queues ++ [(partition, call.event)] }
  | moved (i : Nat) (call next : PublishCall) (hcall : st.calls[i]? = some call)
      (hmoves : Moves call next) : PublisherStep st (st.setCall i next)

private theorem step_of_receive {st : MqPublisher} {i : Nat} {call : PublishCall}
    (hcall : st.calls[i]? = some call) (hflight : call.message = .inFlight) (routing : Routing) :
    PublisherStep st { st.setCall i (call.receive routing) with
      queues := st.queues ++
        match routing with
        | .routed partition => [(partition, call.event)]
        | _ => [] } := by
  cases routing with
  | routed partition => exact .received i partition call hcall hflight
  | unroutable =>
    have hmoves : Moves call (call.receive .unroutable) :=
      ⟨rfl, fun partition => by simp [receive, hflight], fun _ => rfl, fun h => h.receive hflight _⟩
    simp only [List.append_nil]
    exact .moved i call _ hcall hmoves
  | refused =>
    have hmoves : Moves call (call.receive .refused) :=
      ⟨rfl, fun partition => by simp [receive, hflight], fun _ => rfl, fun h => h.receive hflight _⟩
    simp only [List.append_nil]
    exact .moved i call _ hcall hmoves

theorem step_cases {st t : MqPublisher} {action : PublisherAction}
    (h : st.step action = some t) : PublisherStep st t := by
  cases action with
  | accept dto receivedAt throws =>
    cases h
    unfold accept
    split
    · exact .connection st.channel st.channelOpen st.opened
    · exact .published dto receivedAt _
  | brokerReceives i routing =>
    simp only [step] at h
    split at h
    · cases h
    · rename_i call hcall
      split at h
      · rename_i hflight
        cases h
        exact step_of_receive hcall hflight routing
      · cases h
  | messageLost i =>
    simp only [step] at h
    split at h
    · cases h
    · rename_i call hcall
      split at h
      · rename_i hflight
        cases h
        exact .moved i call _ hcall
          ⟨rfl, fun partition => by simp [hflight], fun _ => rfl, fun hc => hc.lose hflight⟩
      · cases h
  | frameArrives i =>
    simp only [step] at h
    split at h
    · cases h
    · rename_i call hcall
      split at h
      · obtain ⟨next, hread, rfl⟩ := Option.map_eq_some_iff.mp h
        obtain ⟨hevent, hmessage, hpromise⟩ := readFrame_frame hread
        exact .moved i call next hcall
          ⟨hevent, fun partition => by rw [hmessage], hpromise, fun hc => hc.readFrame hread⟩
      · cases h
  | timerFires i =>
    simp only [step] at h
    split at h
    · cases h
    · rename_i call hcall
      split at h
      · cases h
        exact .moved i call _ hcall ⟨settle_event _ _, fun partition => by simp [fireTimer],
          fun hne => settle_of_ne _ hne, fun hc => hc.fireTimer⟩
      · cases h
  | channelCloses =>
    cases h
    exact .connection _ _ _
  | connectionCloses =>
    cases h
    exact .connection _ _ _
  | closedCallback i =>
    simp only [step] at h
    split at h
    · cases h
    · rename_i call hcall
      split at h
      · cases h
        exact .moved i call _ hcall ⟨settle_event _ _, fun partition => by simp [onConfirm],
          fun hne => settle_of_ne _ hne,
          fun hc => PublishCall.Consistent.onConfirm hc.frames hc.promise (by simp) trivial⟩
      · cases h
  | reconnects =>
    simp only [step] at h
    split at h
    · cases h
      exact .connection _ _ _
    · cases h

/-- Calls are numbered by their events, and the queues hold the messages stored, no others. -/
structure Sound (st : MqPublisher) : Prop where
  ids : ∀ (i : Nat) (call : PublishCall), st.calls[i]? = some call → call.event.eventId = i
  consistent : ∀ (i : Nat) (call : PublishCall), st.calls[i]? = some call → call.Consistent
  queued : ∀ partition event, (partition, event) ∈ st.queues ↔ ∃ (i : Nat) (call : PublishCall),
    st.calls[i]? = some call ∧ call.event = event ∧ call.message = .stored partition

private theorem getElem?_setCall {st : MqPublisher} {i : Nat} {call : PublishCall}
    (hcall : st.calls[i]? = some call) (next : PublishCall) (j : Nat) :
    (st.setCall i next).calls[j]? = if j = i then some next else st.calls[j]? := by
  have hlt := (List.getElem?_eq_some_iff.mp hcall).1
  rw [setCall, List.getElem?_set]
  by_cases hj : i = j
  · subst hj
    simp [hlt]
  · simp [hj, Ne.symm hj]

private theorem call_cases {st : MqPublisher} {i j : Nat} {call next other : PublishCall}
    (hcall : st.calls[i]? = some call) (hother : (st.setCall i next).calls[j]? = some other) :
    (j = i ∧ other = next) ∨ (j ≠ i ∧ st.calls[j]? = some other) := by
  rw [getElem?_setCall hcall] at hother
  by_cases hj : j = i
  · rw [if_pos hj, Option.some.injEq] at hother
    exact Or.inl ⟨hj, hother.symm⟩
  · rw [if_neg hj] at hother
    exact Or.inr ⟨hj, hother⟩

private theorem mem_append_call {calls : List PublishCall} {call other : PublishCall} {j : Nat}
    (h : (calls ++ [call])[j]? = some other) :
    calls[j]? = some other ∨ (j = calls.length ∧ other = call) := by
  rcases Nat.lt_trichotomy j calls.length with hlt | rfl | hgt
  · rw [List.getElem?_append_left hlt] at h
    exact Or.inl h
  · rw [List.getElem?_concat_length, Option.some.injEq] at h
    exact Or.inr ⟨rfl, h.symm⟩
  · rw [List.getElem?_append_right (Nat.le_of_lt hgt), List.getElem?_singleton,
      if_neg (by omega)] at h
    cases h

namespace Sound

variable {st t : MqPublisher}

theorem publish (h : Sound st) (dto : ReportLocationDto) (receivedAt : Timestamp)
    (throws : Option String) : Sound { st with
      calls := st.calls ++
        [MqPublisher.publish st.channel (eventOf st.calls.length dto receivedAt) throws] } := by
  have hevent : (MqPublisher.publish st.channel (eventOf st.calls.length dto receivedAt)
      throws).event = eventOf st.calls.length dto receivedAt := by
    unfold MqPublisher.publish
    split <;> rfl
  have hunstored : ∀ partition, (MqPublisher.publish st.channel
      (eventOf st.calls.length dto receivedAt) throws).message ≠ .stored partition := by
    intro partition
    unfold MqPublisher.publish
    split <;> simp
  refine ⟨?_, ?_, ?_⟩
  · intro i call hcall
    rcases mem_append_call hcall with hold | ⟨rfl, rfl⟩
    · exact h.ids i call hold
    · rw [hevent]
      rfl
  · intro i call hcall
    rcases mem_append_call hcall with hold | ⟨rfl, rfl⟩
    · exact h.consistent i call hold
    · exact .publish _ _ _
  · intro partition event
    rw [h.queued]
    constructor
    · rintro ⟨i, call, hcall, hrest⟩
      have hlt := (List.getElem?_eq_some_iff.mp hcall).1
      exact ⟨i, call, by rw [List.getElem?_append_left hlt, hcall], hrest⟩
    · rintro ⟨i, call, hcall, hev, hstored⟩
      rcases mem_append_call hcall with hold | ⟨rfl, rfl⟩
      · exact ⟨i, call, hold, hev, hstored⟩
      · exact absurd hstored (hunstored partition)

theorem move (h : Sound st) {i : Nat} {call next : PublishCall} (hcall : st.calls[i]? = some call)
    (hmoves : Moves call next) : Sound (st.setCall i next) := by
  refine ⟨?_, ?_, ?_⟩
  · intro j other hother
    rcases call_cases hcall hother with ⟨rfl, rfl⟩ | ⟨-, hold⟩
    · rw [hmoves.event]
      exact h.ids j call hcall
    · exact h.ids j other hold
  · intro j other hother
    rcases call_cases hcall hother with ⟨rfl, rfl⟩ | ⟨-, hold⟩
    · exact hmoves.consistent (h.consistent j call hcall)
    · exact h.consistent j other hold
  · intro partition event
    change (partition, event) ∈ st.queues ↔ _
    rw [h.queued]
    constructor
    · rintro ⟨j, other, hother, hev, hstored⟩
      by_cases hj : j = i
      · subst hj
        cases hcall.symm.trans hother
        exact ⟨j, next, by rw [getElem?_setCall hcall, if_pos rfl], hmoves.event.trans hev,
          (hmoves.stored partition).mpr hstored⟩
      · exact ⟨j, other, by rw [getElem?_setCall hcall, if_neg hj, hother], hev, hstored⟩
    · rintro ⟨j, other, hother, hev, hstored⟩
      rcases call_cases hcall hother with ⟨rfl, rfl⟩ | ⟨-, hold⟩
      · exact ⟨j, call, hcall, hmoves.event.symm.trans hev, (hmoves.stored partition).mp hstored⟩
      · exact ⟨j, other, hold, hev, hstored⟩

theorem receive (h : Sound st) {i partition : Nat} {call : PublishCall}
    (hcall : st.calls[i]? = some call) (hflight : call.message = .inFlight) :
    Sound { st.setCall i (call.receive (.routed partition)) with
      queues := st.queues ++ [(partition, call.event)] } := by
  refine ⟨?_, ?_, ?_⟩
  · intro j other hother
    rcases call_cases hcall hother with ⟨rfl, rfl⟩ | ⟨-, hold⟩
    · exact h.ids j call hcall
    · exact h.ids j other hold
  · intro j other hother
    rcases call_cases hcall hother with ⟨rfl, rfl⟩ | ⟨-, hold⟩
    · exact (h.consistent j call hcall).receive hflight _
    · exact h.consistent j other hold
  · intro p event
    rw [List.mem_append, List.mem_singleton, h.queued]
    constructor
    · rintro (⟨j, other, hother, hev, hstored⟩ | heq)
      · have hj : j ≠ i := by
          rintro rfl
          cases hcall.symm.trans hother
          rw [hflight] at hstored
          cases hstored
        exact ⟨j, other, by rw [getElem?_setCall hcall, if_neg hj, hother], hev, hstored⟩
      · cases heq
        exact ⟨i, call.receive (.routed partition),
          by rw [getElem?_setCall hcall, if_pos rfl], rfl, rfl⟩
    · rintro ⟨j, other, hother, hev, hstored⟩
      rcases call_cases hcall hother with ⟨rfl, rfl⟩ | ⟨-, hold⟩
      · cases hstored
        exact Or.inr (by rw [← hev]; rfl)
      · exact Or.inl ⟨j, other, hold, hev, hstored⟩

theorem step (h : Sound st) (hstep : PublisherStep st t) : Sound t := by
  cases hstep with
  | connection channel channelOpen opened => exact ⟨h.ids, h.consistent, h.queued⟩
  | published dto receivedAt throws => exact h.publish dto receivedAt throws
  | received i partition call hcall hflight => exact h.receive hcall hflight
  | moved i call next hcall hmoves => exact h.move hcall hmoves

end Sound

theorem sound_start : Sound start := by
  refine ⟨?_, ?_, ?_⟩
  · intro i call hcall
    cases hcall
  · intro i call hcall
    cases hcall
  · intro partition event
    constructor
    · intro hmem
      cases hmem
    · rintro ⟨i, call, hcall, -⟩
      cases hcall

theorem sound_of_run {st t : MqPublisher} {actions : List PublisherAction} (h : Sound st)
    (hrun : machine.run st actions = some t) : Sound t :=
  machine.run_invariant (fun _ _ _ hs hstep => hs.step (step_cases hstep)) h hrun

private theorem settled_of_step {st t : MqPublisher} (hstep : PublisherStep st t) {i : Nat}
    {call : PublishCall} (hcall : st.calls[i]? = some call) (hsettled : call.promise ≠ .pending) :
    ∃ next, t.calls[i]? = some next ∧ next.event = call.event ∧ next.promise = call.promise := by
  cases hstep with
  | connection channel channelOpen opened => exact ⟨call, hcall, rfl, rfl⟩
  | published dto receivedAt throws =>
    have hlt := (List.getElem?_eq_some_iff.mp hcall).1
    exact ⟨call, by rw [List.getElem?_append_left hlt, hcall], rfl, rfl⟩
  | received j partition other hother hflight =>
    by_cases hi : i = j
    · subst hi
      cases hcall.symm.trans hother
      exact ⟨_, (getElem?_setCall hother _ i).trans (if_pos rfl), rfl, rfl⟩
    · exact ⟨call, by rw [getElem?_setCall hother, if_neg hi, hcall], rfl, rfl⟩
  | moved j other next hother hmoves =>
    by_cases hi : i = j
    · subst hi
      cases hcall.symm.trans hother
      exact ⟨next, by rw [getElem?_setCall hother, if_pos rfl], hmoves.event,
        hmoves.promise hsettled⟩
    · exact ⟨call, by rw [getElem?_setCall hother, if_neg hi, hcall], rfl, rfl⟩

theorem settled_of_run {st t : MqPublisher} {actions : List PublisherAction}
    (hrun : machine.run st actions = some t) {i : Nat} {call : PublishCall}
    (hcall : st.calls[i]? = some call) (hsettled : call.promise ≠ .pending) :
    ∃ next, t.calls[i]? = some next ∧ next.event = call.event ∧ next.promise = call.promise := by
  refine machine.run_invariant (I := fun u : MqPublisher => ∃ next, u.calls[i]? = some next ∧
    next.event = call.event ∧ next.promise = call.promise) ?_ ⟨call, hcall, rfl, rfl⟩ hrun
  rintro u action v ⟨next, hnext, hevent, hpromise⟩ hstep
  obtain ⟨after, hafter, hevent', hpromise'⟩ :=
    settled_of_step (step_cases hstep) hnext (by rw [hpromise]; exact hsettled)
  exact ⟨after, hafter, hevent'.trans hevent, hpromise'.trans hpromise⟩

/-- A message of a call is in a queue exactly if that call's message was stored there. -/
theorem Sound.mem_queues {st : MqPublisher} (h : Sound st) {i partition : Nat} {call : PublishCall}
    (hcall : st.calls[i]? = some call) :
    (partition, call.event) ∈ st.queues ↔ call.message = .stored partition := by
  rw [h.queued]
  constructor
  · rintro ⟨j, other, hother, hevent, hstored⟩
    have hj : j = i := by
      rw [← h.ids j other hother, hevent, h.ids i call hcall]
    subst hj
    cases hcall.symm.trans hother
    exact hstored
  · exact fun hstored => ⟨i, call, hcall, rfl, hstored⟩

/-- What the outcome of `accept` says about the queues. -/
structure AcceptContract (st : MqPublisher) : Prop where
  /-- A call that resolves was confirmed: its message is in a partition queue, or it came back as
  unroutable and the return has been logged. -/
  accepted : ∀ (i eventId : Nat) (call : PublishCall), st.calls[i]? = some call →
    call.result = some (.ok eventId) → call.event.eventId = eventId ∧
      ((∃ partition, (partition, call.event) ∈ st.queues) ∨
        call.message = .returned ∧ call.returnLogged = true)
  /-- A call rejected for want of a channel, by a throw or by a nack has put nothing into a queue
  and never will. -/
  refused : ∀ (i : Nat) (call : PublishCall) (cause : Rejection), st.calls[i]? = some call →
    call.promise = .rejected cause →
    (cause = .notConnected ∨ (∃ text, cause = .threw text) ∨ cause = .nack) →
    ∀ more t, machine.run st more = some t → ∀ partition, (partition, call.event) ∉ t.queues
  /-- No call waits for ever: its timer is running. -/
  bounded : ∀ (i : Nat) (call : PublishCall), st.calls[i]? = some call →
    call.promise = .pending → call.timer = true

theorem accept_contract (actions : List PublisherAction) (st : MqPublisher)
    (hrun : machine.run start actions = some st) : AcceptContract st := by
  have h : Sound st := sound_of_run sound_start hrun
  refine ⟨?_, ?_, ?_⟩
  · intro i eventId call hcall hresult
    have hjustified := (h.consistent i call hcall).promise
    unfold result at hresult
    split at hresult
    · cases hresult
    · rename_i hresolved
      rw [hresolved] at hjustified
      cases hresult
      refine ⟨rfl, ?_⟩
      rcases hjustified with ⟨partition, hstored⟩ | hreturned
      · exact Or.inl ⟨partition, (h.mem_queues hcall).mpr hstored⟩
      · exact Or.inr hreturned
    · cases hresult
  · intro i call cause hcall hrejected hcause more t hmore partition hmem
    have ht : Sound t := sound_of_run h hmore
    obtain ⟨next, hnext, hevent, hpromise⟩ :=
      settled_of_run hmore hcall (by rw [hrejected]; simp)
    rw [← hevent, ht.mem_queues hnext] at hmem
    have hjustified := (ht.consistent i next hnext).promise
    rw [hpromise, hrejected, hmem] at hjustified
    rcases hcause with rfl | ⟨text, rfl⟩ | rfl
    · cases hjustified
    · cases hjustified
    · cases hjustified
  · intro i call hcall hpending
    exact (h.consistent i call hcall).timer hpending

private def reading : ReportLocationDto := { userId := "u", lat := 1, lng := 1 }

/-- One call is stored and confirmed, one is nacked, and one finds the connection gone. -/
private def threeCalls : List PublisherAction :=
  [.accept reading 1 none, .accept reading 2 none, .brokerReceives 0 (.routed 3),
    .brokerReceives 1 .refused, .frameArrives 0, .frameArrives 1, .connectionCloses,
    .accept reading 3 none]

theorem accept_contract_threeCalls :
    ∃ st, machine.run start threeCalls = some st ∧ AcceptContract st ∧
      st.calls.map (·.promise) = [.resolved, .rejected .nack, .rejected .notConnected] ∧
      st.queues.map (fun entry => (entry.1, entry.2.eventId)) = [(3, 0)] := by
  have hend : (machine.run start threeCalls).any (fun st => decide (
      st.calls.map (·.promise) = [.resolved, .rejected .nack, .rejected .notConnected] ∧
      st.queues.map (fun entry => (entry.1, entry.2.eventId)) = [(3, 0)])) = true := by
    decide +kernel
  obtain ⟨st, hrun, hst⟩ := Machine.exists_end _ hend
  exact ⟨st, hrun, accept_contract threeCalls st hrun, hst⟩

/-- An unroutable message is confirmed after its return, so `accept` resolves with nothing
queued; and a confirm that comes after the timer leaves a queued message behind a 503. -/
theorem outcome_belies_queues :
    (∃ st, machine.run start [.accept reading 1 none, .brokerReceives 0 .unroutable,
        .frameArrives 0, .frameArrives 0] = some st ∧
      st.calls.map (·.promise) = [.resolved] ∧ st.queues.length = 0) ∧
    ∃ st, machine.run start [.accept reading 1 none, .brokerReceives 0 (.routed 3),
        .timerFires 0, .frameArrives 0] = some st ∧
      st.calls.map (·.promise) = [.rejected .timeout] ∧
      st.queues.map (fun entry => (entry.1, entry.2.eventId)) = [(3, 0)] := by
  have hreturned : (machine.run start [.accept reading 1 none, .brokerReceives 0 .unroutable,
      .frameArrives 0, .frameArrives 0]).any (fun st => decide (
        st.calls.map (·.promise) = [.resolved] ∧ st.queues.length = 0)) = true := by
    decide +kernel
  have hlate : (machine.run start [.accept reading 1 none, .brokerReceives 0 (.routed 3),
      .timerFires 0, .frameArrives 0]).any (fun st => decide (
        st.calls.map (·.promise) = [.rejected .timeout] ∧
        st.queues.map (fun entry => (entry.1, entry.2.eventId)) = [(3, 0)])) = true := by
    decide +kernel
  exact ⟨Machine.exists_end _ hreturned, Machine.exists_end _ hlate⟩

end MqPublisher

end Geofence
