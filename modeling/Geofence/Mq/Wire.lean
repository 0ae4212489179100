import Geofence.Framework.Json
import Geofence.Mq.Publisher
import Geofence.Worker.Consumer
/-!
# Events on the wire

The text `publish` gives to the channel and what `handle` makes of a text. A report is on the
wire as it is in the request: ids and instants are texts, and numbers are told by their digits.
-/

namespace Geofence

open Framework

/-- A validated report, before its numbers are anything but numerals. -/
structure WireReport where
  userId : String
  lat : Decimal
  lng : Decimal
  deviceId : Option String := none
  seq : Option Decimal := none
  capturedAt : Option String := none
  observedAt : Option String := none
  accuracy : Option Decimal := none

/-- `LocationEventV1`, but for its `v`. -/
structure WireEvent where
  eventId : String
  userId : String
  deviceId : Option String
  seq : Option Decimal
  lat : Decimal
  lng : Decimal
  accuracy : Option Decimal
  capturedAt : Option String
  receivedAt : String
  deriving DecidableEq

/-- How the texts of ids and instants are numbered. -/
structure Naming where
  eventId : String → Nat
  instant : String → Timestamp

namespace WireReport

def toDto (report : WireReport) : ReportLocationDto where
  userId := report.userId
  lat := report.lat.value
  lng := report.lng.value
  deviceId := report.deviceId
  seq := report.seq.map (·.natValue)
  capturedAt := report.capturedAt
  observedAt := report.observedAt
  accuracy := report.accuracy.map (·.value)

/-- The event `accept` builds; `capturedAt` wins over its deprecated alias. -/
def event (report : WireReport) (eventId receivedAt : String) : WireEvent where
  eventId
  userId := report.userId
  deviceId := report.deviceId
  seq := report.seq
  lat := report.lat
  lng := report.lng
  accuracy := report.accuracy
  capturedAt := report.capturedAt.or report.observedAt
  receivedAt

end WireReport

namespace WireEvent

/-- `?? null` -/
def nullable {α : Type*} (toJson : α → Json) : Option α → Json
  | none => .null
  | some a => toJson a

def toEvent (naming : Naming) (e : WireEvent) : LocationEventV1 where
  eventId := naming.eventId e.eventId
  userId := e.userId
  deviceId := e.deviceId
  seq := e.seq.map (·.natValue)
  lat := e.lat.value
  lng := e.lng.value
  accuracy := e.accuracy.map (·.value)
  capturedAt := e.capturedAt
  receivedAt := naming.instant e.receivedAt

def fields (e : WireEvent) : List (String × Json) :=
  [("v", .num (.ofNat LOCATION_EVENT_SCHEMA_VERSION)),
    ("eventId", .str e.eventId),
    ("userId", .str e.userId),
    ("deviceId", nullable .str e.deviceId),
    ("seq", nullable .num e.seq),
    ("lat", .num e.lat),
    ("lng", .num e.lng),
    ("accuracy", nullable .num e.accuracy),
    ("capturedAt", nullable .str e.capturedAt),
    ("receivedAt", .str e.receivedAt)]

/-- `JSON.stringify(payload)` -/
def payload (e : WireEvent) : String := String.ofList (Json.obj e.fields).stringify

/-! ## Reading the fields of an event -/

def str? : Json → Option String
  | .str text => some text
  | _ => none

def num? : Json → Option Decimal
  | .num n => some n
  | _ => none

def nullable? {α : Type*} (read : Json → Option α) : Json → Option (Option α)
  | .null => some none
  | value => (read value).map some

/-- The fields of a `LocationEventV1`; the code reads them off unchecked, and `none` stands for an
object that has not got them. -/
def ofFields? (fields : List (String × Json)) : Option WireEvent := do
  return {
    eventId := ← (Json.get? fields "eventId").bind str?
    userId := ← (Json.get? fields "userId").bind str?
    deviceId := ← (Json.get? fields "deviceId").bind (nullable? str?)
    seq := ← (Json.get? fields "seq").bind (nullable? num?)
    lat := ← (Json.get? fields "lat").bind num?
    lng := ← (Json.get? fields "lng").bind num?
    accuracy := ← (Json.get? fields "accuracy").bind (nullable? num?)
    capturedAt := ← (Json.get? fields "capturedAt").bind (nullable? str?)
    receivedAt := ← (Json.get? fields "receivedAt").bind str? }

end WireEvent

/-- `event.v` is the version. The text is parsed to the nearest double: the neighbours of 1 are
`1 - 2 ^ -53` and `1 + 2 ^ -52`, and a tie goes to 1, whose significand is even. -/
def isSchemaVersion (v : Decimal) : Bool :=
  LOCATION_EVENT_SCHEMA_VERSION - 1 / 2 ^ 54 ≤ v.value &&
    v.value ≤ LOCATION_EVENT_SCHEMA_VERSION + 1 / 2 ^ 53

/-- The `try` of `handle`: a text that is no JSON, `null`, and everything without a `v` of 1 are
malformed. -/
def handledFields? (text : String) : Option (List (String × Json)) :=
  match Json.parse? text with
  | some (.obj fields) =>
    match Json.get? fields "v" with
    | some (.num v) => if isSchemaVersion v then some fields else none
    | _ => none
  | _ => none

example : (handledFields? "\x7b\"v\":1.0000000000000000001\x7d").isSome = true := by decide +kernel

/-- The content of a delivery with the given text, unless it is an object of version 1 that is not
a `LocationEventV1`. -/
def Content.ofText? (naming : Naming) (text : String) : Option Content :=
  match handledFields? text with
  | none => some .unparseable
  | some fields => (WireEvent.ofFields? fields).map fun e =>
      .json LOCATION_EVENT_SCHEMA_VERSION (e.toEvent naming)

namespace WireEvent

variable (e : WireEvent)

theorem keysOnce_nullable {α : Type*} {toJson : α → Json} (h : ∀ a, Json.KeysOnce (toJson a))
    (o : Option α) : Json.KeysOnce (nullable toJson o) := by
  cases o with
  | none => trivial
  | some a => exact h a

theorem keysOnce_fields : Json.KeysOnce (.obj e.fields) := by
  have hstr : ∀ text, Json.KeysOnce (.str text) := fun _ => trivial
  have hnum : ∀ n, Json.KeysOnce (.num n) := fun _ => trivial
  refine ⟨?_, hnum _, hstr _, hstr _, keysOnce_nullable hstr _, keysOnce_nullable hnum _, hnum _,
    hnum _, keysOnce_nullable hnum _, keysOnce_nullable hstr _, hstr _, trivial⟩
  change ["v", "eventId", "userId", "deviceId", "seq", "lat", "lng", "accuracy", "capturedAt",
    "receivedAt"].Nodup
  decide

private theorem nullable_str (o : Option String) : nullable? str? (nullable .str o) = some o := by
  cases o <;> rfl

private theorem nullable_num (o : Option Decimal) : nullable? num? (nullable .num o) = some o := by
  cases o <;> rfl

/-- An object that has the fields of an event among its own is read as that event. -/
theorem ofFields_of_subset {fields : List (String × Json)} (hnodup : (fields.map (·.1)).Nodup)
    (hsubset : ∀ field ∈ e.fields, field ∈ fields) : ofFields? fields = some e := by
  have hget : ∀ field ∈ e.fields, Json.get? fields field.1 = some field.2 :=
    fun field hfield => (Json.get?_eq_some hnodup).mpr (hsubset field hfield)
  simp only [WireEvent.fields, List.forall_mem_cons] at hget
  obtain ⟨-, heventId, huserId, hdeviceId, hseq, hlat, hlng, haccuracy, hcapturedAt, hreceivedAt,
    -⟩ := hget
  simp only [ofFields?, heventId, huserId, hdeviceId, hseq, hlat, hlng, haccuracy, hcapturedAt,
    hreceivedAt, Option.bind_some, nullable_str, nullable_num, str?, num?, bind, pure]

end WireEvent

section Version

variable {fields : List (String × Json)}

private theorem isSchemaVersion_ofNat :
    isSchemaVersion (.ofNat LOCATION_EVENT_SCHEMA_VERSION) = true := by
  decide +kernel

private theorem handledFields_of_mem (hkeys : Json.KeysOnce (.obj fields))
    (hversion : ("v", .num (.ofNat LOCATION_EVENT_SCHEMA_VERSION)) ∈ fields) :
    handledFields? (String.ofList (Json.obj fields).stringify) = some fields := by
  have hget := (Json.get?_eq_some hkeys.1).mpr hversion
  rw [handledFields?, Json.parse_stringify hkeys]
  simp only [hget, isSchemaVersion_ofNat, if_true]

private theorem handledFields_of_other (hkeys : Json.KeysOnce (.obj fields))
    (hversion : ∀ v, ("v", .num v) ∈ fields → isSchemaVersion v = false) :
    handledFields? (String.ofList (Json.obj fields).stringify) = none := by
  rw [handledFields?, Json.parse_stringify hkeys]
  simp only
  split
  · rename_i v hget
    rw [if_neg]
    simp [hversion v ((Json.get?_eq_some hkeys.1).mp hget)]
  · rfl

end Version

/-- What the worker makes of the texts of events. -/
structure WireContract (naming : Naming) (report : WireReport) (eventId receivedAt : String) :
    Prop where
  /-- The text that is published for a report is the event of the report. -/
  handled : Content.ofText? naming (report.event eventId receivedAt).payload =
    some (.json LOCATION_EVENT_SCHEMA_VERSION
      (MqPublisher.eventOf (naming.eventId eventId) report.toDto (naming.instant receivedAt)))
  /-- So is the text of any object that has the event's fields, in any order and with others
  between them. -/
  extended : ∀ fields, Json.KeysOnce (.obj fields) →
    (∀ field ∈ (report.event eventId receivedAt).fields, field ∈ fields) →
      Content.ofText? naming (String.ofList (Json.obj fields).stringify) =
        some (.json LOCATION_EVENT_SCHEMA_VERSION
          (MqPublisher.eventOf (naming.eventId eventId) report.toDto (naming.instant receivedAt)))
  /-- Another version, or none, is malformed. -/
  versioned : ∀ fields, Json.KeysOnce (.obj fields) →
    (∀ v, ("v", .num v) ∈ fields → isSchemaVersion v = false) →
      Content.ofText? naming (String.ofList (Json.obj fields).stringify) = some .unparseable
  /-- No two events have one text. -/
  injective : ∀ other : WireEvent, other.payload = (report.event eventId receivedAt).payload →
    other = report.event eventId receivedAt

theorem ofText_of_subset (naming : Naming) (e : WireEvent) {fields : List (String × Json)}
    (hkeys : Json.KeysOnce (.obj fields)) (hsubset : ∀ field ∈ e.fields, field ∈ fields) :
    Content.ofText? naming (String.ofList (Json.obj fields).stringify) =
      some (.json LOCATION_EVENT_SCHEMA_VERSION (e.toEvent naming)) := by
  have hversion : ("v", .num (.ofNat LOCATION_EVENT_SCHEMA_VERSION)) ∈ fields :=
    hsubset _ List.mem_cons_self
  rw [Content.ofText?, handledFields_of_mem hkeys hversion]
  simp only [e.ofFields_of_subset hkeys.1 hsubset, Option.map_some]

theorem wire_contract (naming : Naming) (report : WireReport) (eventId receivedAt : String) :
    WireContract naming report eventId receivedAt := by
  refine ⟨?_, ?_, ?_, ?_⟩
  · exact ofText_of_subset naming (report.event eventId receivedAt)
      (WireEvent.keysOnce_fields _) fun _ hfield => hfield
  · intro fields hkeys hsubset
    exact ofText_of_subset naming (report.event eventId receivedAt) hkeys hsubset
  · intro fields hkeys hversion
    rw [Content.ofText?, handledFields_of_other hkeys hversion]
  · intro other hpayload
    have hfields : other.fields = (report.event eventId receivedAt).fields := by
      have hparse := congrArg Json.parse? hpayload
      rw [WireEvent.payload, WireEvent.payload, Json.parse_stringify other.keysOnce_fields,
        Json.parse_stringify (WireEvent.keysOnce_fields _), Option.some.injEq, Json.obj.injEq]
        at hparse
      exact hparse
    have hother := other.ofFields_of_subset other.keysOnce_fields.1 fun _ hfield => hfield
    have hevent := (report.event eventId receivedAt).ofFields_of_subset
      (WireEvent.keysOnce_fields _).1 fun _ hfield => hfield
    rw [hfields, hevent, Option.some.injEq] at hother
    exact hother.symm

end Geofence
