import Geofence.Areas.Snapshot
import Geofence.Locations.Transaction
/-!
# `LocationsService.report`

One call, from the accuracy gate to the cache invalidation, against the service's state and
the answers the outside world gives at each await. The worker provides `PresenceMemoryService`;
the API process does not and asks the cache for its hint instead.
-/

namespace Geofence

/-- The library and server code a call runs on. -/
structure Externals where
  spatial : SpatialLibrary
  pg : Postgres

/-- Reference libraries and a server that accepts every timestamp. -/
def Externals.reference : Externals :=
  ⟨.reference, ⟨fun text => text.length, fun _ => true⟩⟩

def MAX_ACCURACY_METERS : ℚ := 100

/-- The wire schema `v: 1` of a location event. -/
structure LocationEventV1 where
  eventId : Nat
  userId : UserId
  deviceId : Option DeviceId := none
  seq : Option Nat := none
  lat : ℚ
  lng : ℚ
  accuracy : Option ℚ := none
  capturedAt : Option String := none
  receivedAt : Timestamp

/-- The dto the worker hands to `report`: `deviceId` and `seq` are deliberately not passed. -/
def LocationEventV1.reportDto (event : LocationEventV1) : ReportLocationDto where
  userId := event.userId
  lat := event.lat
  lng := event.lng
  accuracy := event.accuracy
  capturedAt := event.capturedAt

/-- `PresenceMemoryService.areaIdsByUser` -/
abbrev PresenceMemory := UserId → Option (List AreaId)

namespace PresenceMemory

def empty : PresenceMemory := fun _ => none

def set (memory : PresenceMemory) (userId : UserId) (areaIds : List AreaId) : PresenceMemory :=
  Function.update memory userId (some areaIds)

end PresenceMemory

inductive PresenceCacheRead where
  | hit (areaIds : List AreaId)
  | miss
  | error
  deriving DecidableEq, Repr

/-- The commands a call sends to Redis besides its read. -/
inductive RedisCommand where
  | set (userId : UserId) (areaIds : List AreaId)
  | del (userId : UserId)
  deriving DecidableEq, Repr

structure PresenceMetrics where
  invalidateFailedGetsOk : Nat := 0
  invalidateFailedGetsFailing : Nat := 0
  changePathNoop : Nat := 0
  deriving DecidableEq, Repr

namespace PresenceMetrics

def recordInvalidateFailure (metrics : PresenceMetrics) (getsWereSucceeding : Bool) :
    PresenceMetrics :=
  if getsWereSucceeding then
    { metrics with invalidateFailedGetsOk := metrics.invalidateFailedGetsOk + 1 }
  else { metrics with invalidateFailedGetsFailing := metrics.invalidateFailedGetsFailing + 1 }

def recordChangePathNoop (metrics : PresenceMetrics) : PresenceMetrics :=
  { metrics with changePathNoop := metrics.changePathNoop + 1 }

end PresenceMetrics

/-- What a call can throw: the 422 with the accuracy its text quotes, the missing snapshot, or
a failed query with its driver error. -/
inductive ServiceError where
  | unprocessable (accuracy : ℚ)
  | snapshotNotBuilt
  | queryFailed (driverError : PgError)
  deriving DecidableEq

/-- How the transaction's round trips end. `commitLost` is a COMMIT the server applied but
answered with an error. -/
inductive TransactionFate where
  | completes
  | rolledBack (driverError : PgError)
  | commitLost (driverError : PgError)
  deriving DecidableEq

/-- The answers of Redis and Postgres during one call. -/
structure Answers where
  cacheRead : PresenceCacheRead := .miss
  unlockedRead : Option PgError := none
  fate : TransactionFate := .completes
  invalidated : Bool := true

structure ServiceState where
  db : Database
  snapshot : Option Snapshot
  memory : Option PresenceMemory
  metrics : PresenceMetrics := {}

structure LocationReportResponse where
  enteredAreaIds : List AreaId
  duplicate : Bool
  deriving DecidableEq, Repr

structure ReportOutcome where
  state : ServiceState
  redis : List RedisCommand
  result : Except ServiceError LocationReportResponse

/-- The length-plus-subset comparison. -/
def differs (currentAreaIds previousAreaIds : List AreaId) : Bool :=
  if currentAreaIds.length ≠ previousAreaIds.length then true
  else currentAreaIds.any fun areaId => !previousAreaIds.contains areaId

/-- Steps before the first await: the accuracy gate and the covering set. -/
def coveringAreaIds (ext : Externals) (snapshot : Option Snapshot) (dto : ReportLocationDto) :
    Except ServiceError (List AreaId) :=
  match dto.accuracy with
  | some accuracy =>
    if MAX_ACCURACY_METERS < accuracy then .error (.unprocessable accuracy) else covering
  | none => covering
where
  covering :=
    match snapshot with
    | none => .error .snapshotNotBuilt
    | some snapshot => .ok (snapshot.findCoveringAreaIds ext.spatial dto.lng dto.lat)

/-- Plain read, no lock, no transaction. -/
def readPresenceUnlocked (st : ServiceState) (userId : UserId) (answers : Answers) :
    Except ServiceError (List AreaId) :=
  match answers.unlockedRead with
  | some e => .error (.queryFailed e)
  | none => .ok (st.db.presence.areaIds userId)

/-- The previous-membership hint, the cache read that served it, and the seeded memory. -/
def previousHint (st : ServiceState) (userId : UserId) (answers : Answers) :
    Except ServiceError (ServiceState × Option PresenceCacheRead × List AreaId) :=
  match st.memory with
  | some memory =>
    match memory userId with
    | some remembered => .ok (st, none, remembered)
    | none => do
      let hint ← readPresenceUnlocked st userId answers
      return ({ st with memory := some (memory.set userId hint) }, none, hint)
  | none =>
    match answers.cacheRead with
    | .hit areaIds => .ok (st, some (.hit areaIds), areaIds)
    | read => do
      let hint ← readPresenceUnlocked st userId answers
      return (st, some read, hint)

/-- After the commit: the no-op counter, the memory update, the invalidation and its counter. -/
def afterCommit (st : ServiceState) (call : ReportCall) (cacheRead : Option PresenceCacheRead)
    (answers : Answers) (result : TransactionResult) : ServiceState :=
  let metrics :=
    if !result.duplicate && !result.wroteAnything then st.metrics.recordChangePathNoop
    else st.metrics
  let memory :=
    if result.duplicate then st.memory
    else st.memory.map fun memory => memory.set call.dto.userId call.currentAreaIds
  let metrics :=
    if answers.invalidated then metrics
    else metrics.recordInvalidateFailure (cacheRead.isSome && cacheRead != some .error)
  { st with memory, metrics }

/-- The change path: the hint opened it, the transaction recomputes everything it writes. -/
def changePath (ext : Externals) (st : ServiceState) (call : ReportCall)
    (cacheRead : Option PresenceCacheRead) (answers : Answers) : ReportOutcome :=
  match answers.fate, transaction ext.pg call st.db with
  | .rolledBack e, _ => ⟨st, [], .error (.queryFailed e)⟩
  | _, .error e => ⟨st, [], .error (.queryFailed e)⟩
  | .commitLost e, .ok (db, _) => ⟨{ st with db }, [], .error (.queryFailed e)⟩
  | .completes, .ok (db, result) =>
    ⟨afterCommit { st with db } call cacheRead answers result, [.del call.dto.userId],
      .ok ⟨result.enteredAreaIds, result.duplicate⟩⟩

def report (ext : Externals) (st : ServiceState) (dto : ReportLocationDto)
    (recordedAt : Timestamp) (answers : Answers) : ReportOutcome :=
  match coveringAreaIds ext st.snapshot dto with
  | .error e => ⟨st, [], .error e⟩
  | .ok currentAreaIds =>
    match previousHint st dto.userId answers with
    | .error e => ⟨st, [], .error e⟩
    | .ok (st, cacheRead, hint) =>
      if differs currentAreaIds hint then
        changePath ext st ⟨dto, recordedAt, currentAreaIds⟩ cacheRead answers
      else
        ⟨st, if cacheRead = some .miss then [.set dto.userId hint] else [], .ok ⟨[], false⟩⟩

/-- On a repeat-free covering set, "no difference" means equality as sets. -/
theorem differs_eq_false {current previous : List AreaId} (hnodup : current.Nodup)
    (h : differs current previous = false) : ∀ a, a ∈ current ↔ a ∈ previous := by
  unfold differs at h
  split at h
  · cases h
  · rename_i hlen
    have hsub : current ⊆ previous := by
      intro a ha
      have := List.any_eq_false.mp h a ha
      simpa using this
    have hperm : current.Perm previous :=
      (List.subperm_of_subset hnodup hsub).perm_of_length_le (by omega)
    exact fun a => hperm.mem_iff

theorem differs_of_same {current previous : List AreaId} (hnodup : current.Nodup)
    (hprev : previous.Nodup) (h : ∀ a, a ∈ current ↔ a ∈ previous) :
    differs current previous = false := by
  have hperm := (List.perm_ext_iff_of_nodup hnodup hprev).mpr h
  have hany : (current.any fun areaId => !previous.contains areaId) = false := by
    apply List.any_eq_false.mpr
    intro a ha
    simpa using (h a).mp ha
  unfold differs
  rw [if_neg (by simp [hperm.length_eq]), hany]

theorem coveringAreaIds_eq_ok {ext : Externals} {snapshot : Option Snapshot}
    {dto : ReportLocationDto} {current : List AreaId} :
    coveringAreaIds ext snapshot dto = .ok current ↔
      (∀ accuracy, dto.accuracy = some accuracy → accuracy ≤ MAX_ACCURACY_METERS) ∧
      ∃ s, snapshot = some s ∧ current = s.findCoveringAreaIds ext.spatial dto.lng dto.lat := by
  unfold coveringAreaIds coveringAreaIds.covering
  cases dto.accuracy with
  | none => cases snapshot <;> simp [eq_comm]
  | some accuracy =>
    by_cases hlt : MAX_ACCURACY_METERS < accuracy
    · simp [hlt]
    · cases snapshot <;> simp [hlt, not_lt.mp hlt, eq_comm]

theorem coveringAreaIds_nodup {ext : Externals} {snapshot : Option Snapshot}
    {dto : ReportLocationDto} {current : List AreaId}
    (h : coveringAreaIds ext snapshot dto = .ok current) : current.Nodup := by
  obtain ⟨-, s, -, rfl⟩ := coveringAreaIds_eq_ok.mp h
  exact Snapshot.findCoveringAreaIds_nodup _ _ _ _

/-- The call `report` makes of an event, with the covering set it was given. -/
def callOf (ext : Externals) (snapshot : Option Snapshot) (event : LocationEventV1) :
    Except ServiceError ReportCall :=
  (coveringAreaIds ext snapshot event.reportDto).map fun currentAreaIds =>
    ⟨event.reportDto, event.receivedAt, currentAreaIds⟩

theorem callOf_eq_ok {ext : Externals} {snapshot : Option Snapshot}
    {event : LocationEventV1} {call : ReportCall} :
    callOf ext snapshot event = .ok call ↔
      (∀ accuracy, event.accuracy = some accuracy → accuracy ≤ MAX_ACCURACY_METERS) ∧
      ∃ s, snapshot = some s ∧ call = ⟨event.reportDto, event.receivedAt,
        s.findCoveringAreaIds ext.spatial event.lng event.lat⟩ := by
  rw [callOf]
  cases hcovering : coveringAreaIds ext snapshot event.reportDto with
  | error e =>
    refine iff_of_false (fun h => by cases h) ?_
    rintro ⟨haccuracy, s, hs, -⟩
    rw [coveringAreaIds_eq_ok.mpr ⟨haccuracy, s, hs, rfl⟩] at hcovering
    cases hcovering
  | ok current =>
    obtain ⟨haccuracy, s, hs, rfl⟩ := coveringAreaIds_eq_ok.mp hcovering
    constructor
    · intro h
      cases h
      exact ⟨haccuracy, s, hs, rfl⟩
    · rintro ⟨-, s', hs', rfl⟩
      cases hs.symm.trans hs'
      rfl

theorem callOf_ok {ext : Externals} {snapshot : Option Snapshot} {event : LocationEventV1}
    {call : ReportCall} (h : callOf ext snapshot event = .ok call) :
    call.dto = event.reportDto ∧ call.recordedAt = event.receivedAt ∧
      call.currentAreaIds.Nodup := by
  obtain ⟨-, s, -, rfl⟩ := callOf_eq_ok.mp h
  exact ⟨rfl, rfl, Snapshot.findCoveringAreaIds_nodup _ _ _ _⟩

/-- The worker's hint: the remembered value, or the rows a cold user is seeded with. -/
inductive Hinted (memory : PresenceMemory) (presence : PresenceTable) (userId : UserId) :
    PresenceMemory → List AreaId → Prop where
  | warm {hint} (h : memory userId = some hint) : Hinted memory presence userId memory hint
  | cold (h : memory userId = none) :
    Hinted memory presence userId (memory.set userId (presence.areaIds userId))
      (presence.areaIds userId)

theorem Hinted.self {memory memory' : PresenceMemory} {presence : PresenceTable} {userId : UserId}
    {hint : List AreaId} (h : Hinted memory presence userId memory' hint) :
    memory' userId = some hint := by
  cases h with
  | warm h => exact h
  | cold _ => simp [PresenceMemory.set]

/-- Everything a call with worker memory can do. -/
inductive WorkerReport (ext : Externals) (st : ServiceState) (memory : PresenceMemory)
    (event : LocationEventV1) (answers : Answers) : ReportOutcome → Prop where
  | threw (e : ServiceError) : WorkerReport ext st memory event answers ⟨st, [], .error e⟩
  | unchanged (call : ReportCall) (memory' : PresenceMemory) (hint : List AreaId)
      (hcall : callOf ext st.snapshot event = .ok call)
      (hhint : Hinted memory st.db.presence event.userId memory' hint)
      (hsame : differs call.currentAreaIds hint = false) :
    WorkerReport ext st memory event answers
      ⟨{ st with memory := some memory' }, [], .ok ⟨[], false⟩⟩
  | rolledBack (call : ReportCall) (memory' : PresenceMemory) (hint : List AreaId) (e : PgError)
      (hcall : callOf ext st.snapshot event = .ok call)
      (hhint : Hinted memory st.db.presence event.userId memory' hint)
      (hdiff : differs call.currentAreaIds hint = true) :
    WorkerReport ext st memory event answers
      ⟨{ st with memory := some memory' }, [], .error (.queryFailed e)⟩
  | commitLost (call : ReportCall) (memory' : PresenceMemory) (hint : List AreaId)
      (db : Database) (result : TransactionResult) (e : PgError)
      (hcall : callOf ext st.snapshot event = .ok call)
      (hhint : Hinted memory st.db.presence event.userId memory' hint)
      (hdiff : differs call.currentAreaIds hint = true)
      (hfate : answers.fate = .commitLost e)
      (htx : transaction ext.pg call st.db = .ok (db, result)) :
    WorkerReport ext st memory event answers
      ⟨{ st with db, memory := some memory' }, [], .error (.queryFailed e)⟩
  | committed (call : ReportCall) (memory' : PresenceMemory) (hint : List AreaId)
      (db : Database) (result : TransactionResult)
      (hcall : callOf ext st.snapshot event = .ok call)
      (hhint : Hinted memory st.db.presence event.userId memory' hint)
      (hdiff : differs call.currentAreaIds hint = true)
      (hfate : answers.fate = .completes)
      (htx : transaction ext.pg call st.db = .ok (db, result)) :
    WorkerReport ext st memory event answers
      ⟨afterCommit { st with db, memory := some memory' } call none answers result,
        [.del event.userId], .ok ⟨result.enteredAreaIds, result.duplicate⟩⟩

private theorem previousHint_hinted {st : ServiceState} {memory : PresenceMemory}
    {userId : UserId} {answers : Answers} (hmem : st.memory = some memory)
    {r : ServiceState × Option PresenceCacheRead × List AreaId}
    (h : previousHint st userId answers = .ok r) :
    ∃ memory', Hinted memory st.db.presence userId memory' r.2.2 ∧ r.2.1 = none ∧
      r.1 = { st with memory := some memory' } := by
  unfold previousHint at h
  rw [hmem] at h
  cases hu : memory userId with
  | some remembered =>
    simp only [hu, Except.ok.injEq] at h
    subst h
    exact ⟨memory, .warm hu, rfl, by rw [← hmem]⟩
  | none =>
    unfold readPresenceUnlocked at h
    cases hread : answers.unlockedRead with
    | some e => simp [hu, hread, bind, Except.bind] at h
    | none =>
      simp only [hu, hread, bind, Except.bind, pure, Except.pure, Except.ok.injEq] at h
      subst h
      exact ⟨_, .cold hu, rfl, rfl⟩

theorem report_cases (ext : Externals) {st : ServiceState} {memory : PresenceMemory}
    (hmem : st.memory = some memory) (event : LocationEventV1) (answers : Answers) :
    WorkerReport ext st memory event answers
      (report ext st event.reportDto event.receivedAt answers) := by
  unfold report
  cases hcov : coveringAreaIds ext st.snapshot event.reportDto with
  | error e => exact .threw e
  | ok current =>
    have hcall : callOf ext st.snapshot event =
        .ok ⟨event.reportDto, event.receivedAt, current⟩ := by simp [callOf, hcov, Except.map]
    cases hhint : previousHint st event.reportDto.userId answers with
    | error e => exact .threw e
    | ok r =>
      obtain ⟨st', read, hint⟩ := r
      obtain ⟨memory', hhinted, hread, hst⟩ := previousHint_hinted hmem hhint
      dsimp only at hhinted hread hst
      subst hread hst
      dsimp only
      cases hdiff : differs current hint with
      | false =>
        simpa using WorkerReport.unchanged _ memory' hint hcall hhinted hdiff
      | true =>
        rw [if_pos rfl]
        unfold changePath
        dsimp only
        cases htx : transaction ext.pg ⟨event.reportDto, event.receivedAt, current⟩ st.db with
        | error e =>
          cases hfate : answers.fate with
          | completes => exact .rolledBack _ memory' hint e hcall hhinted hdiff
          | rolledBack e' => exact .rolledBack _ memory' hint e' hcall hhinted hdiff
          | commitLost e' => exact .rolledBack _ memory' hint e hcall hhinted hdiff
        | ok r =>
          cases hfate : answers.fate with
          | completes => exact .committed _ memory' hint r.1 r.2 hcall hhinted hdiff hfate htx
          | rolledBack e' => exact .rolledBack _ memory' hint e' hcall hhinted hdiff
          | commitLost e' =>
            exact .commitLost _ memory' hint r.1 r.2 e' hcall hhinted hdiff hfate htx

end Geofence
