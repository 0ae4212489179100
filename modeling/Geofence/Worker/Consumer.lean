import Geofence.Locations.Report
import Mathlib.Data.List.Infix
/-!
# `WorkerConsumerService`, one message at a time

The synchronous parts of the consumer: the parse of a message, the dedup map, the narrow test
for a stale-area violation, and what `processEvent` does with the outcome of each of its awaits.
-/

namespace Geofence

def LOCATION_EVENT_SCHEMA_VERSION : Nat := 1

/-- The bytes of a message: not JSON at all, or an event under a schema version. -/
inductive Content where
  | unparseable
  | json (v : Nat) (event : LocationEventV1)

/-- What `handle` makes of the bytes; an unknown version is as malformed as no JSON. -/
def Content.parse : Content → Option LocationEventV1
  | .unparseable => none
  | .json v event => if v ≠ LOCATION_EVENT_SCHEMA_VERSION then none else some event

/-- A delivery: its tag on the channel, the queue it came from and its bytes. -/
structure ConsumeMessage where
  deliveryTag : Nat
  queue : Nat
  content : Content

/-- What a task tells the broker about its delivery. -/
inductive Settlement where
  | ack
  | nack (requeue : Bool)
  deriving DecidableEq, Repr

/-- `lastSeqByDevice`, keyed by the text `userId:deviceId`. -/
abbrev LastSeqByDevice := String → Option Nat

def dedupKey (userId : UserId) (deviceId : DeviceId) : String := userId ++ ":" ++ deviceId

/-- The dedup gate: the map, or the read-only table on first sight. -/
def isDuplicate (lastSeqByDevice : LastSeqByDevice) (table : EventStateTable)
    (event : LocationEventV1) (readError : Option PgError) :
    Except ServiceError (LastSeqByDevice × Bool) :=
  match event.deviceId, event.seq with
  | some deviceId, some seq =>
    match lastSeqByDevice (dedupKey event.userId deviceId), readError with
    | some lastSeq, _ => .ok (lastSeqByDevice, seq ≤ lastSeq)
    | none, some e => .error (.queryFailed e)
    | none, none =>
      let lastSeq := (table.lastSeq? event.userId deviceId).getD 0
      .ok (Function.update lastSeqByDevice (dedupKey event.userId deviceId) (some lastSeq),
        seq ≤ lastSeq)
  | _, _ => .ok (lastSeqByDevice, false)

def rememberSeq (lastSeqByDevice : LastSeqByDevice) (event : LocationEventV1) : LastSeqByDevice :=
  match event.deviceId, event.seq with
  | some deviceId, some seq =>
    if (lastSeqByDevice (dedupKey event.userId deviceId)).getD 0 < seq then
      Function.update lastSeqByDevice (dedupKey event.userId deviceId) (some seq)
    else lastSeqByDevice
  | _, _ => lastSeqByDevice

def PG_FOREIGN_KEY_VIOLATION : String := "23503"

/-- Only a query failure carries a driver error, and `includes` is a substring test. -/
def isStaleAreaViolation : ServiceError → Bool
  | .queryFailed driver =>
    driver.code = PG_FOREIGN_KEY_VIOLATION &&
      driver.constraint.any fun constraint => decide ("area".toList <:+: constraint.toList)
  | _ => false

/-- The consumer's own state beside the service it calls. -/
structure ConsumerState where
  service : ServiceState
  lastSeqByDevice : LastSeqByDevice
  staleAreaDropCount : Nat := 0
  processedCount : Nat := 0

/-- How the handling of a message ended. -/
inductive Outcome where
  | malformed
  | duplicate
  | processed
  | failed (error : ServiceError)

/-- The settlement the code makes for each outcome. -/
def Outcome.settlement : Outcome → Settlement
  | .malformed => .nack true
  | .duplicate | .processed => .ack
  | .failed error => if isStaleAreaViolation error then .ack else .nack true

namespace ConsumerState

/-- The `catch` of `processEvent`: the one narrow exception is counted and dropped. -/
def caught (st : ConsumerState) (error : ServiceError) : ConsumerState :=
  if isStaleAreaViolation error then
    { st with
      staleAreaDropCount := st.staleAreaDropCount + 1
      processedCount := st.processedCount + 1 }
  else st

/-- The first await of `processEvent`. `none` lets the event through to `report`. -/
def gate (st : ConsumerState) (event : LocationEventV1) (readError : Option PgError) :
    ConsumerState × Option Outcome :=
  match isDuplicate st.lastSeqByDevice st.service.db.eventState event readError with
  | .error e => (st.caught e, some (.failed e))
  | .ok (lastSeqByDevice, true) => ({ st with lastSeqByDevice }, some .duplicate)
  | .ok (lastSeqByDevice, false) => ({ st with lastSeqByDevice }, none)

/-- The second await: `report`, then the bookkeeping before the ack, or the `catch`. -/
def reportEvent (ext : Externals) (st : ConsumerState) (event : LocationEventV1)
    (answers : Answers) : ConsumerState × Outcome :=
  let outcome := report ext st.service event.reportDto event.receivedAt answers
  match outcome.result with
  | .ok _ =>
    ({ st with
        service := outcome.state
        lastSeqByDevice := rememberSeq st.lastSeqByDevice event
        processedCount := st.processedCount + 1 }, .processed)
  | .error e => ({ st with service := outcome.state }.caught e, .failed e)

/-- A whole task, run without interruption. -/
def processEvent (ext : Externals) (st : ConsumerState) (event : LocationEventV1)
    (readError : Option PgError) (answers : Answers) : ConsumerState × Outcome :=
  match st.gate event readError with
  | (st, some outcome) => (st, outcome)
  | (st, none) => st.reportEvent ext event answers

end ConsumerState

end Geofence
