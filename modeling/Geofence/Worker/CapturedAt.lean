import Geofence.Locations.Hints
import Geofence.Locations.WorkerRun
import Geofence.Mq.Publisher
import Geofence.Worker.Consumer
/-!
# `capturedAt` from the request to the log row

A request is accepted, published and processed. The client's own time travels with it and is only
stored, but it is stored by the transaction that makes the entry, and the cast of its text can
fail there.
-/

namespace Geofence

def USER_ID_MAX_LENGTH : Nat := 64

/-- The decorators of the dto; `isDateString` is the library's test of a date's text. -/
def ReportLocationDto.passesValidation (isDateString : String → Bool) (dto : ReportLocationDto) :
    Bool :=
  dto.userId ≠ "" && dto.userId.length ≤ USER_ID_MAX_LENGTH &&
    -90 ≤ dto.lat && dto.lat ≤ 90 && -180 ≤ dto.lng && dto.lng ≤ 180 &&
    dto.deviceId.isSome == dto.seq.isSome &&
    (dto.deviceId.all fun deviceId => deviceId ≠ "" && deviceId.length ≤ USER_ID_MAX_LENGTH) &&
    dto.capturedAt.all isDateString && dto.observedAt.all isDateString &&
    dto.accuracy.all fun accuracy => 0 ≤ accuracy

/-- What the partition queues are given for one request. -/
def MqPublisher.enqueued (mq : MqPublisher) (dto : ReportLocationDto) (receivedAt : Timestamp)
    (throws : Option String) (routing : Routing) : Option LocationEventV1 :=
  ((mq.accept dto receivedAt throws).step (.brokerReceives mq.calls.length routing)).bind
    fun mq' => (mq'.queues.drop mq.queues.length).head?.map Prod.snd

/-- A delivery is parsed and processed without interruption. -/
def ConsumerState.consume (ext : Externals) (st : ConsumerState) (content : Content)
    (readError : Option PgError) (answers : Answers) : ConsumerState × Outcome :=
  match content.parse with
  | none => (st, .malformed)
  | some event => st.processEvent ext event readError answers

/-- What a request meets on its way besides its own fields. -/
structure Journey where
  mq : MqPublisher
  receivedAt : Timestamp
  throws : Option String
  routing : Routing
  readError : Option PgError
  answers : Answers

/-- A request through `accept`, the queue and `processEvent`. -/
def Journey.send (journey : Journey) (ext : Externals) (st : ConsumerState)
    (dto : ReportLocationDto) : ConsumerState × Option Settlement :=
  match journey.mq.enqueued dto journey.receivedAt journey.throws journey.routing with
  | none => (st, none)
  | some event =>
    let (st, outcome) := st.consume ext (.json LOCATION_EVENT_SCHEMA_VERSION event)
      journey.readError journey.answers
    (st, some outcome.settlement)

def LogRow.withoutCapturedAt (row : LogRow) : LogRow := { row with capturedAt := none }

/-- Two requests have come to the same, `captured_at` apart. -/
structure Indifferent (r r' : ConsumerState × Option Settlement) : Prop where
  presence : r.1.service.db.presence.rows = r'.1.service.db.presence.rows
  logs : r.1.service.db.logs.map LogRow.withoutCapturedAt =
    r'.1.service.db.logs.map LogRow.withoutCapturedAt
  memory : r.1.service.memory = r'.1.service.memory
  lastSeqByDevice : r.1.lastSeqByDevice = r'.1.lastSeqByDevice
  settlement : r.2 = r'.2

/-- A call that the hint sends into the transaction. -/
def OpensTransaction (ext : Externals) (st : ServiceState) (event : LocationEventV1)
    (answers : Answers) (call : ReportCall) : Prop :=
  callOf ext st.snapshot event = .ok call ∧
    ∃ hint, hint? st event.userId answers = some hint ∧ differs call.currentAreaIds hint = true

/-- The transaction comes to an insert into `logs`: the first area it enters is still there. -/
def InsertsLog (db : Database) (call : ReportCall) : Prop :=
  ∃ areaId rest, call.entered (db.presence.areaIds call.dto.userId) = areaId :: rest ∧
    db.hasArea areaId = true

/-- The event comes to an insert into `logs`: it is no duplicate, its covering set differs from
the hint, and the transaction is not rolled back for reasons of its own. -/
def ReachesLogInsert (ext : Externals) (st : ConsumerState) (event : LocationEventV1)
    (readError : Option PgError) (answers : Answers) : Prop :=
  ∃ lastSeqByDevice call,
    isDuplicate st.lastSeqByDevice st.service.db.eventState event readError =
      .ok (lastSeqByDevice, false) ∧
    OpensTransaction ext st.service event answers call ∧
    (∀ e, answers.fate ≠ .rolledBack e) ∧ InsertsLog st.service.db call

/-! ## Tables that differ in `captured_at` only -/

structure Database.Alike (db db' : Database) : Prop where
  areas : db.areas = db'.areas
  areaVersion : db.areaVersion = db'.areaVersion
  presence : db.presence = db'.presence
  logs : db.logs.map LogRow.withoutCapturedAt = db'.logs.map LogRow.withoutCapturedAt
  eventState : db.eventState = db'.eventState

/-- Statements that end alike: with one error, or with one value and tables that are alike. -/
inductive EndAlike {β : Type} :
    Except PgError (Database × β) → Except PgError (Database × β) → Prop where
  | error (e : PgError) : EndAlike (.error e) (.error e)
  | ok {db db' : Database} (h : db.Alike db') (value : β) : EndAlike (.ok (db, value)) (.ok (db', value))

theorem EndAlike.map {β γ : Type} {r r' : Except PgError (Database × β)} (h : EndAlike r r')
    {f f' : Database × β → Database × γ}
    (hf : ∀ db db' value, db.Alike db' →
      (f (db, value)).1.Alike (f' (db', value)).1 ∧ (f (db, value)).2 = (f' (db', value)).2) :
    EndAlike (r.map f) (r'.map f') := by
  cases h with
  | error e => exact .error e
  | @ok db db' h value =>
    obtain ⟨halike, hvalue⟩ := hf db db' value h
    simp only [Except.map]
    rw [← Prod.mk.eta (p := f (db, value)), ← Prod.mk.eta (p := f' (db', value)), hvalue]
    exact .ok halike _

theorem Database.Alike.refl (db : Database) : db.Alike db := ⟨rfl, rfl, rfl, rfl, rfl⟩

/-- The same call with another text of the client's time. -/
def ReportCall.recaptured (call : ReportCall) (capturedAt : Option String) : ReportCall :=
  { call with dto := { call.dto with capturedAt } }

def LocationEventV1.recaptured (event : LocationEventV1) (capturedAt : Option String) :
    LocationEventV1 :=
  { event with capturedAt }

section Alike

variable {pg : Postgres} {call : ReportCall} {capturedAt : Option String} {db db' : Database}

theorem Database.Alike.hasArea (h : db.Alike db') : db.hasArea = db'.hasArea := by
  unfold Database.hasArea
  rw [h.areas]

theorem Database.Alike.enter (h : db.Alike db') (areaId : AreaId) :
    (db.enter call areaId).Alike (db'.enter (call.recaptured capturedAt) areaId) where
  areas := h.areas
  areaVersion := h.areaVersion
  presence := by
    simp only [Database.enter, h.presence]
    rfl
  logs := by
    simp only [Database.enter, List.map_append, h.logs]
    rfl
  eventState := h.eventState

theorem Database.Alike.deleteDeparted (h : db.Alike db') (departed : List AreaId) :
    (deleteDeparted call db departed).Alike
      (deleteDeparted (call.recaptured capturedAt) db' departed) := by
  unfold Geofence.deleteDeparted
  split
  · refine { h with presence := ?_ }
    simp only [h.presence]
    rfl
  · exact h

private theorem enterAreas_alike (areaIds : List AreaId)
    (hcast : castable pg call.capturedAt = castable pg (call.recaptured capturedAt).capturedAt)
    (h : db.Alike db') :
    EndAlike (enterAreas pg call db areaIds)
      (enterAreas pg (call.recaptured capturedAt) db' areaIds) := by
  induction areaIds generalizing db db' with
  | nil => exact .ok h []
  | cons areaId rest ih =>
    by_cases hmem : areaId ∈ db.presence.areaIds call.dto.userId
    · have hmem' : areaId ∈ db'.presence.areaIds (call.recaptured capturedAt).dto.userId :=
        h.presence ▸ hmem
      rw [enterAreas_conflict rest hmem, enterAreas_conflict rest hmem']
      exact ih h
    · have hmem' : areaId ∉ db'.presence.areaIds (call.recaptured capturedAt).dto.userId :=
        h.presence ▸ hmem
      cases harea : db.hasArea areaId with
      | false =>
        rw [enterAreas_missing rest hmem harea, enterAreas_missing rest hmem' (h.hasArea ▸ harea)]
        exact .error _
      | true =>
        have harea' : db'.hasArea areaId = true := h.hasArea ▸ harea
        cases hcasts : castable pg call.capturedAt with
        | false =>
          rw [enterAreas_uncastable rest hmem harea hcasts,
            enterAreas_uncastable rest hmem' harea' (hcast ▸ hcasts)]
          exact .error _
        | true =>
          rw [enterAreas_enter rest hmem harea hcasts,
            enterAreas_enter rest hmem' harea' (hcast ▸ hcasts)]
          apply (ih (h.enter areaId)).map
          intro db db' value h
          exact ⟨h, rfl⟩

theorem transaction_without_device (hdevice : call.dto.deviceId = none) :
    transaction pg call db =
      (enterAreas pg call db (call.entered (db.presence.areaIds call.dto.userId))).map fun r =>
        (deleteDeparted call r.1 (call.departed (db.presence.areaIds call.dto.userId)),
          ⟨r.2, false, decide (0 < r.2.length) ||
            decide (0 < (call.departed (db.presence.areaIds call.dto.userId)).length)⟩) := by
  have hgate : dedupGate call db = some db := by simp [dedupGate, hdevice]
  simp only [transaction, hgate, bind, Except.bind, pure, Except.pure]
  cases enterAreas pg call db (call.entered (db.presence.areaIds call.dto.userId)) with
  | error e => rfl
  | ok r => rfl

theorem transaction_alike_of_enterAreas (hdevice : call.dto.deviceId = none)
    (h : EndAlike
      (enterAreas pg call db (call.entered (db.presence.areaIds call.dto.userId)))
      (enterAreas pg (call.recaptured capturedAt) db
        (call.entered (db.presence.areaIds call.dto.userId)))) :
    EndAlike (transaction pg call db) (transaction pg (call.recaptured capturedAt) db) := by
  have hdevice' : (call.recaptured capturedAt).dto.deviceId = none := hdevice
  rw [transaction_without_device hdevice, transaction_without_device hdevice']
  apply h.map
  intro db db' value h
  exact ⟨h.deleteDeparted _, rfl⟩

/-- A transaction that comes to no log insert ends the same with any text. -/
private theorem transaction_alike_of_no_insert (hdevice : call.dto.deviceId = none)
    (h : ¬ InsertsLog db call) :
    EndAlike (transaction pg call db) (transaction pg (call.recaptured capturedAt) db) := by
  apply transaction_alike_of_enterAreas hdevice
  cases hentered : call.entered (db.presence.areaIds call.dto.userId) with
  | nil => exact .ok (.refl db) []
  | cons areaId rest =>
    have harea : db.hasArea areaId = false :=
      Bool.eq_false_iff.mpr fun hthere => h ⟨areaId, rest, hentered, hthere⟩
    have hmem : areaId ∉ db.presence.areaIds call.dto.userId := by
      have hfirst : areaId ∈ call.entered (db.presence.areaIds call.dto.userId) := by
        rw [hentered]
        exact List.mem_cons_self
      exact (ReportCall.mem_entered.mp hfirst).2
    have hmem' : areaId ∉ db.presence.areaIds (call.recaptured capturedAt).dto.userId := hmem
    rw [enterAreas_missing rest hmem harea, enterAreas_missing rest hmem' harea]
    exact .error _

end Alike

/-- Two calls have left the service alike and answered the same. -/
structure ReportOutcome.Alike (outcome outcome' : ReportOutcome) : Prop where
  db : outcome.state.db.Alike outcome'.state.db
  memory : outcome.state.memory = outcome'.state.memory
  result : outcome.result = outcome'.result

section Calls

variable {ext : Externals} {capturedAt : Option String} {answers : Answers}

private theorem changePath_alike (st : ServiceState) (call : ReportCall)
    (cacheRead : Option PresenceCacheRead)
    (h : (∀ e, answers.fate ≠ .rolledBack e) →
      EndAlike (transaction ext.pg call st.db)
        (transaction ext.pg (call.recaptured capturedAt) st.db)) :
    (changePath ext st call cacheRead answers).Alike
      (changePath ext st (call.recaptured capturedAt) cacheRead answers) := by
  unfold changePath
  cases hfate : answers.fate with
  | rolledBack e => exact ⟨.refl _, rfl, rfl⟩
  | completes =>
    have halike := h (fun e => by simp [hfate])
    generalize transaction ext.pg call st.db = r at halike
    generalize transaction ext.pg (call.recaptured capturedAt) st.db = r' at halike
    cases halike with
    | error e => exact ⟨.refl _, rfl, rfl⟩
    | ok hdb result => exact ⟨hdb, rfl, rfl⟩
  | commitLost e =>
    have halike := h (fun e => by simp [hfate])
    generalize transaction ext.pg call st.db = r at halike
    generalize transaction ext.pg (call.recaptured capturedAt) st.db = r' at halike
    cases halike with
    | error e => exact ⟨.refl _, rfl, rfl⟩
    | ok hdb result => exact ⟨hdb, rfl, rfl⟩

private theorem report_alike (st : ServiceState) (event : LocationEventV1)
    (h : ∀ call, OpensTransaction ext st event answers call →
      (∀ e, answers.fate ≠ .rolledBack e) →
      EndAlike (transaction ext.pg call st.db)
        (transaction ext.pg (call.recaptured capturedAt) st.db)) :
    (report ext st event.reportDto event.receivedAt answers).Alike
      (report ext st (event.recaptured capturedAt).reportDto event.receivedAt answers) := by
  have hcovering' : coveringAreaIds ext st.snapshot (event.recaptured capturedAt).reportDto =
      coveringAreaIds ext st.snapshot event.reportDto := rfl
  cases hcovering : coveringAreaIds ext st.snapshot event.reportDto with
  | error e =>
    rw [hcovering] at hcovering'
    simp only [report, hcovering, hcovering']
    exact ⟨.refl _, rfl, rfl⟩
  | ok current =>
    rw [hcovering] at hcovering'
    cases hprevious : previousHint st event.userId answers with
    | error e =>
      have hprevious₁ : previousHint st event.reportDto.userId answers = .error e := hprevious
      have hprevious₂ : previousHint st (event.recaptured capturedAt).reportDto.userId answers =
        .error e := hprevious
      simp only [report, hcovering, hcovering', hprevious₁, hprevious₂]
      exact ⟨.refl _, rfl, rfl⟩
    | ok r =>
      obtain ⟨st', read, hint⟩ := r
      have hprevious₁ : previousHint st event.reportDto.userId answers = .ok (st', read, hint) :=
        hprevious
      have hprevious₂ : previousHint st (event.recaptured capturedAt).reportDto.userId answers =
        .ok (st', read, hint) := hprevious
      cases hdiffers : differs current hint with
      | false =>
        rw [report_of_not_differs hcovering hprevious₁ hdiffers,
          report_of_not_differs hcovering' hprevious₂ hdiffers]
        exact ⟨.refl _, rfl, rfl⟩
      | true =>
        rw [report_of_differs hcovering hprevious₁ hdiffers,
          report_of_differs hcovering' hprevious₂ hdiffers]
        refine changePath_alike st' ⟨event.reportDto, event.receivedAt, current⟩ read ?_
        rw [(previousHint_frame hprevious).1]
        apply h
        refine ⟨?_, hint, ?_, hdiffers⟩
        · simp [callOf, hcovering, Except.map]
        · simp [hint?, hprevious, Except.toOption]

private theorem transaction_alike {st : ConsumerState} {event : LocationEventV1}
    {readError : Option PgError} {lastSeqByDevice : LastSeqByDevice}
    (hgate : isDuplicate st.lastSeqByDevice st.service.db.eventState event readError =
      .ok (lastSeqByDevice, false))
    (h : castable ext.pg event.capturedAt = castable ext.pg capturedAt ∨
      ¬ ReachesLogInsert ext st event readError answers) (call : ReportCall)
    (hopens : OpensTransaction ext st.service event answers call)
    (hfate : ∀ e, answers.fate ≠ .rolledBack e) :
    EndAlike (transaction ext.pg call st.service.db)
      (transaction ext.pg (call.recaptured capturedAt) st.service.db) := by
  have hdto := (callOf_ok hopens.1).1
  have hdevice : call.dto.deviceId = none := by rw [hdto]; rfl
  rcases h with hcast | hnot
  · apply transaction_alike_of_enterAreas hdevice
    apply enterAreas_alike _ _ (.refl _)
    have hfirst : call.capturedAt = event.capturedAt := by
      simp [ReportCall.capturedAt, hdto, LocationEventV1.reportDto]
    have hsecond : (call.recaptured capturedAt).capturedAt = capturedAt := by
      simp [ReportCall.capturedAt, ReportCall.recaptured, hdto, LocationEventV1.reportDto]
    rw [hfirst, hsecond]
    exact hcast
  · apply transaction_alike_of_no_insert hdevice
    intro hinserts
    exact hnot ⟨lastSeqByDevice, call, hgate, hopens, hfate, hinserts⟩

private theorem reportEvent_alike (st : ConsumerState) (event : LocationEventV1)
    (h : (report ext st.service event.reportDto event.receivedAt answers).Alike
      (report ext st.service (event.recaptured capturedAt).reportDto event.receivedAt answers)) :
    Indifferent
      ((st.reportEvent ext event answers).1,
        some (st.reportEvent ext event answers).2.settlement)
      ((st.reportEvent ext (event.recaptured capturedAt) answers).1,
        some (st.reportEvent ext (event.recaptured capturedAt) answers).2.settlement) := by
  have hresult := h.result
  have hreceived : (event.recaptured capturedAt).receivedAt = event.receivedAt := rfl
  unfold ConsumerState.reportEvent
  rw [hreceived]
  cases houtcome : (report ext st.service event.reportDto event.receivedAt answers).result with
  | ok response =>
    rw [houtcome] at hresult
    simp only [houtcome, ← hresult]
    exact ⟨congrArg PresenceTable.rows h.db.presence, h.db.logs, h.memory, rfl, rfl⟩
  | error e =>
    rw [houtcome] at hresult
    simp only [houtcome, ← hresult, ConsumerState.caught]
    split <;> exact ⟨congrArg PresenceTable.rows h.db.presence, h.db.logs, h.memory, rfl, rfl⟩

/-- A task that was run with either event ends alike. -/
private theorem processEvent_alike {st : ConsumerState} {event : LocationEventV1}
    {readError : Option PgError}
    (h : castable ext.pg event.capturedAt = castable ext.pg capturedAt ∨
      ¬ ReachesLogInsert ext st event readError answers) :
    Indifferent
      ((st.processEvent ext event readError answers).1,
        some (st.processEvent ext event readError answers).2.settlement)
      ((st.processEvent ext (event.recaptured capturedAt) readError answers).1,
        some (st.processEvent ext (event.recaptured capturedAt) readError answers).2.settlement) := by
  have hgate' : st.gate (event.recaptured capturedAt) readError = st.gate event readError := rfl
  unfold ConsumerState.processEvent
  rw [hgate']
  unfold ConsumerState.gate
  cases hgate : isDuplicate st.lastSeqByDevice st.service.db.eventState event readError with
  | error e => exact ⟨rfl, rfl, rfl, rfl, rfl⟩
  | ok r =>
    obtain ⟨lastSeqByDevice, duplicate⟩ := r
    cases duplicate with
    | true => exact ⟨rfl, rfl, rfl, rfl, rfl⟩
    | false =>
      have halike := report_alike st.service event (transaction_alike hgate h)
      exact reportEvent_alike { st with lastSeqByDevice } event halike

end Calls

/-! ## Texts that cast differently -/

section Cast

variable {ext : Externals} {pg : Postgres} {call : ReportCall} {db : Database} {answers : Answers}

private theorem transaction_uncastable (hdevice : call.dto.deviceId = none) (h : InsertsLog db call)
    (hcast : castable pg call.capturedAt = false) :
    transaction pg call db = .error ⟨"22008", none⟩ := by
  obtain ⟨areaId, rest, hentered, harea⟩ := h
  have hfirst : areaId ∈ call.entered (db.presence.areaIds call.dto.userId) := by
    rw [hentered]
    exact List.mem_cons_self
  rw [transaction_without_device hdevice, hentered,
    enterAreas_uncastable rest (ReportCall.mem_entered.mp hfirst).2 harea hcast]
  rfl

private theorem enterAreas_error_of_castable {areaIds : List AreaId} {e : PgError}
    (hcast : castable pg call.capturedAt = true) (h : enterAreas pg call db areaIds = .error e) :
    e = ⟨"23503", some "fk_presence_area"⟩ := by
  induction areaIds generalizing db with
  | nil => cases h
  | cons areaId rest ih =>
    by_cases hmem : areaId ∈ db.presence.areaIds call.dto.userId
    · rw [enterAreas_conflict rest hmem] at h
      exact ih h
    · cases harea : db.hasArea areaId with
      | false =>
        rw [enterAreas_missing rest hmem harea] at h
        cases h
        rfl
      | true =>
        rw [enterAreas_enter rest hmem harea hcast] at h
        cases hrest : enterAreas pg call (db.enter call areaId) rest with
        | error e' =>
          rw [hrest] at h
          cases h
          exact ih hrest
        | ok r =>
          rw [hrest] at h
          cases h

private theorem transaction_castable (hdevice : call.dto.deviceId = none) (h : InsertsLog db call)
    (hcast : castable pg call.capturedAt = true) :
    transaction pg call db = .error ⟨"23503", some "fk_presence_area"⟩ ∨
      ∃ db' result, transaction pg call db = .ok (db', result) ∧
        db'.presence.rows ≠ db.presence.rows := by
  cases htx : transaction pg call db with
  | error e =>
    rw [transaction_without_device hdevice] at htx
    cases hloop : enterAreas pg call db (call.entered (db.presence.areaIds call.dto.userId)) with
    | error e' =>
      rw [hloop] at htx
      cases htx
      rw [enterAreas_error_of_castable hcast hloop]
      exact Or.inl rfl
    | ok r =>
      rw [hloop] at htx
      cases htx
  | ok r =>
    refine Or.inr ⟨r.1, r.2, rfl, ?_⟩
    intro hrows
    obtain ⟨areaId, rest, hentered, -⟩ := h
    have hfirst : areaId ∈ call.entered (db.presence.areaIds call.dto.userId) := by
      rw [hentered]
      exact List.mem_cons_self
    obtain ⟨hcurrent, hmem⟩ := ReportCall.mem_entered.mp hfirst
    have happlied := transaction_applied hdevice htx
    have hmem' := (happlied.mem_areaIds areaId).mpr hcurrent
    rw [PresenceTable.areaIds, hrows] at hmem'
    exact hmem hmem'

private theorem report_opens {st : ServiceState} {event : LocationEventV1}
    (h : OpensTransaction ext st event answers call) :
    ∃ st' read, st'.db = st.db ∧ report ext st event.reportDto event.receivedAt answers =
      changePath ext st' call read answers := by
  obtain ⟨hcall, hint, hhint, hdiffers⟩ := h
  obtain ⟨st', read, hprevious⟩ := hint?_eq_some hhint
  refine ⟨st', read, (previousHint_frame hprevious).1, ?_⟩
  obtain ⟨haccuracy, s, hs, rfl⟩ := callOf_eq_ok.mp hcall
  exact report_of_differs (coveringAreaIds_eq_ok.mpr ⟨haccuracy, s, hs, rfl⟩) hprevious hdiffers

theorem processEvent_reaches {st : ConsumerState} {event : LocationEventV1}
    {readError : Option PgError} (h : ReachesLogInsert ext st event readError answers) :
    ∃ lastSeqByDevice st' call read, st'.db = st.service.db ∧ call.dto.deviceId = none ∧
      call.capturedAt = event.capturedAt ∧
      (∀ e, answers.fate ≠ .rolledBack e) ∧ InsertsLog st'.db call ∧
      report ext st.service event.reportDto event.receivedAt answers =
        changePath ext st' call read answers ∧
      st.processEvent ext event readError answers =
        { st with lastSeqByDevice }.reportEvent ext event answers := by
  obtain ⟨lastSeqByDevice, call, hgate, hopens, hfate, hinserts⟩ := h
  obtain ⟨st', read, hdb, hreport⟩ := report_opens hopens
  have hdto := (callOf_ok hopens.1).1
  refine ⟨lastSeqByDevice, st', call, read, hdb, ?_, ?_, hfate, ?_, hreport, ?_⟩
  · rw [hdto]
    rfl
  · simp [ReportCall.capturedAt, hdto, LocationEventV1.reportDto]
  · rw [hdb]
    exact hinserts
  · simp [ConsumerState.processEvent, ConsumerState.gate, hgate]

private theorem processEvent_uncastable {st : ConsumerState} {event : LocationEventV1}
    {readError : Option PgError} (h : ReachesLogInsert ext st event readError answers)
    (hcast : castable ext.pg event.capturedAt = false) :
    (st.processEvent ext event readError answers).1.service.db = st.service.db ∧
      (st.processEvent ext event readError answers).2.settlement = .nack true := by
  obtain ⟨lastSeqByDevice, st', call, read, hdb, hdevice, hcaptured, hfate, hinserts, hreport,
    hprocess⟩ := processEvent_reaches h
  have hcast' : castable ext.pg call.capturedAt = false := by
    rw [hcaptured]
    exact hcast
  have htx := transaction_uncastable hdevice hinserts hcast'
  have hchange : changePath ext st' call read answers =
      ⟨st', [], .error (.queryFailed ⟨"22008", none⟩)⟩ := by
    unfold changePath
    rw [htx]
    cases hf : answers.fate with
    | rolledBack e => exact absurd hf (hfate e)
    | completes => rfl
    | commitLost e => rfl
  rw [hprocess]
  simp only [ConsumerState.reportEvent, hreport, hchange, ConsumerState.caught,
    isStaleAreaViolation, Outcome.settlement, PG_FOREIGN_KEY_VIOLATION]
  exact ⟨hdb, rfl⟩

private theorem processEvent_castable {st : ConsumerState} {event : LocationEventV1}
    {readError : Option PgError} (h : ReachesLogInsert ext st event readError answers)
    (hcast : castable ext.pg event.capturedAt = true) :
    (st.processEvent ext event readError answers).2.settlement = .ack ∨
      (st.processEvent ext event readError answers).1.service.db.presence.rows ≠
        st.service.db.presence.rows := by
  obtain ⟨lastSeqByDevice, st', call, read, hdb, hdevice, hcaptured, hfate, hinserts, hreport,
    hprocess⟩ := processEvent_reaches h
  have hcast' : castable ext.pg call.capturedAt = true := by
    rw [hcaptured]
    exact hcast
  rw [hprocess]
  rcases transaction_castable hdevice hinserts hcast' with htx | ⟨db', result, htx, hrows⟩
  · have hchange : changePath ext st' call read answers =
        ⟨st', [], .error (.queryFailed ⟨"23503", some "fk_presence_area"⟩)⟩ := by
      unfold changePath
      rw [htx]
      cases hf : answers.fate with
      | rolledBack e => exact absurd hf (hfate e)
      | completes => rfl
      | commitLost e => rfl
    left
    simp only [ConsumerState.reportEvent, hreport, hchange, Outcome.settlement]
    decide +kernel
  · cases hf : answers.fate with
    | rolledBack e => exact absurd hf (hfate e)
    | completes =>
      left
      simp [ConsumerState.reportEvent, hreport, changePath, htx, hf, Outcome.settlement]
    | commitLost e =>
      right
      have hstate : ({ st with lastSeqByDevice }.reportEvent ext event answers).1.service.db = db' := by
        simp only [ConsumerState.reportEvent, hreport, changePath, htx, hf, ConsumerState.caught]
        split <;> rfl
      rw [hstate, ← hdb]
      exact hrows

end Cast

/-! ## The whole way -/

theorem Indifferent.symm {r r' : ConsumerState × Option Settlement} (h : Indifferent r r') :
    Indifferent r' r :=
  ⟨h.presence.symm, h.logs.symm, h.memory.symm, h.lastSeqByDevice.symm, h.settlement.symm⟩

/-- What a delivered event comes to. -/
def settled (ext : Externals) (st : ConsumerState) (event : LocationEventV1)
    (readError : Option PgError) (answers : Answers) : ConsumerState × Option Settlement :=
  ((st.processEvent ext event readError answers).1,
    some (st.processEvent ext event readError answers).2.settlement)

/-- Only one of two texts casts: only one of the events is processed. -/
theorem not_indifferent_of_cast {ext : Externals} {st : ConsumerState}
    {event event' : LocationEventV1} {readError : Option PgError} {answers : Answers}
    (h : ReachesLogInsert ext st event readError answers)
    (h' : ReachesLogInsert ext st event' readError answers)
    (hcast : castable ext.pg event.capturedAt = true)
    (hcast' : castable ext.pg event'.capturedAt = false) :
    ¬ Indifferent (settled ext st event readError answers)
      (settled ext st event' readError answers) := by
  intro hsame
  obtain ⟨hdb, hnack⟩ := processEvent_uncastable h' hcast'
  rcases processEvent_castable h hcast with hack | hrows
  · have hsettlement := hsame.settlement
    simp only [settled, hack, hnack, Option.some.injEq] at hsettlement
    cases hsettlement
  · have hpresence := hsame.presence
    simp only [settled, hdb] at hpresence
    exact hrows hpresence

theorem ReachesLogInsert.recaptured {ext : Externals} {st : ConsumerState}
    {event : LocationEventV1} {readError : Option PgError} {answers : Answers}
    (h : ReachesLogInsert ext st event readError answers) (capturedAt : Option String) :
    ReachesLogInsert ext st (event.recaptured capturedAt) readError answers := by
  obtain ⟨lastSeqByDevice, call, hgate, ⟨hcall, hhint⟩, hfate, hinserts⟩ := h
  refine ⟨lastSeqByDevice, call.recaptured capturedAt, hgate, ⟨?_, hhint⟩, hfate, hinserts⟩
  obtain ⟨haccuracy, s, hs, rfl⟩ := callOf_eq_ok.mp hcall
  exact callOf_eq_ok.mpr ⟨haccuracy, s, hs, rfl⟩

private theorem settled_indifferent_iff (ext : Externals) (st : ConsumerState)
    (event : LocationEventV1)
    (capturedAt : Option String) (readError : Option PgError) (answers : Answers) :
    Indifferent (settled ext st event readError answers)
        (settled ext st (event.recaptured capturedAt) readError answers) ↔
      castable ext.pg event.capturedAt = castable ext.pg capturedAt ∨
        ¬ ReachesLogInsert ext st event readError answers := by
  constructor
  · intro hsame
    by_contra hboth
    rw [not_or, not_not] at hboth
    obtain ⟨hcast, hreaches⟩ := hboth
    have hreaches' := hreaches.recaptured capturedAt
    cases hfirst : castable ext.pg event.capturedAt with
    | true =>
      have hsecond : castable ext.pg (event.recaptured capturedAt).capturedAt = false := by
        rw [hfirst] at hcast
        exact Bool.eq_false_iff.mpr fun heq => hcast heq.symm
      exact not_indifferent_of_cast hreaches hreaches' hfirst hsecond hsame
    | false =>
      have hsecond : castable ext.pg (event.recaptured capturedAt).capturedAt = true := by
        rw [hfirst] at hcast
        exact Bool.ne_false_iff.mp fun heq => hcast heq.symm
      exact not_indifferent_of_cast hreaches' hreaches hsecond hfirst hsame.symm
  · exact processEvent_alike

/-- A request is published and routed, whatever times it carries. -/
def MqPublisher.passes (mq : MqPublisher) (accuracy : Option ℚ) (throws : Option String)
    (routing : Routing) : Bool :=
  !(accuracy.any fun accuracy => MAX_ACCURACY_METERS < accuracy) && mq.channel.isSome &&
    mq.channelOpen && throws.isNone &&
    match routing with
    | .routed _ => true
    | _ => false

private theorem MqPublisher.enqueued_eq (mq : MqPublisher) (dto : ReportLocationDto)
    (receivedAt : Timestamp) (throws : Option String) (routing : Routing) :
    mq.enqueued dto receivedAt throws routing =
      if mq.passes dto.accuracy throws routing then
        some (eventOf mq.calls.length dto receivedAt)
      else none := by
  unfold enqueued accept passes
  cases haccuracy : dto.accuracy.any fun accuracy => decide (MAX_ACCURACY_METERS < accuracy) with
  | true => simp [step]
  | false =>
    cases hchannel : mq.channel with
    | none => simp [step, publish]
    | some ch =>
      cases hopen : mq.channelOpen with
      | false => simp [step, publish]
      | true =>
        cases throws with
        | some text => simp [step, publish]
        | none =>
          cases routing with
          | routed partition => simp [step, publish, setCall]
          | unroutable => simp [step, publish, setCall]
          | refused => simp [step, publish, setCall]

/-- A request whose event is delivered and comes to a log insert. -/
def Journey.ReachesLogInsert (journey : Journey) (ext : Externals) (st : ConsumerState)
    (dto : ReportLocationDto) : Prop :=
  ∃ event, journey.mq.enqueued dto journey.receivedAt journey.throws journey.routing = some event ∧
    Geofence.ReachesLogInsert ext st event journey.readError journey.answers

/-- Exactly when the client's time takes part in no logic: the two texts are both fit for the
column or both unfit, or the request comes to no log insert. -/
theorem capturedAt_in_no_logic_iff (ext : Externals) (journey : Journey) (st : ConsumerState)
    (dto : ReportLocationDto) (capturedAt observedAt : Option String) :
    Indifferent (journey.send ext st dto)
        (journey.send ext st { dto with capturedAt, observedAt }) ↔
      castable ext.pg (dto.capturedAt.or dto.observedAt) =
          castable ext.pg (capturedAt.or observedAt) ∨
        ¬ journey.ReachesLogInsert ext st dto := by
  unfold Journey.send Journey.ReachesLogInsert
  simp only [MqPublisher.enqueued_eq]
  cases hpasses : journey.mq.passes dto.accuracy journey.throws journey.routing with
  | false =>
    simp only [Bool.false_eq_true, if_false]
    constructor
    · intro _
      exact Or.inr fun ⟨event, hevent, _⟩ => nomatch hevent
    · intro _
      exact ⟨rfl, rfl, rfl, rfl, rfl⟩
  | true =>
    simp only [if_true, Option.some.injEq, exists_eq_left']
    exact settled_indifferent_iff ext st
      (MqPublisher.eventOf journey.mq.calls.length dto journey.receivedAt)
      (capturedAt.or observedAt) journey.readError journey.answers

/-- The shape of a date and time, digit by digit. -/
private def hasDateShape (text : String) : Bool :=
  text.length = 20 && (text.toList.zip "0000-00-00T00:00:00Z".toList).all fun (c, shape) =>
    if shape = '0' then c.isDigit else c = shape

/-- A server that knows how long February is. -/
private def calendarExternals : Externals :=
  ⟨.reference, ⟨fun text => text.length, fun text => text ≠ "2026-02-30T12:00:00Z"⟩⟩

private def insideRequest (capturedAt : String) : ReportLocationDto where
  userId := "u"
  lat := 1
  lng := 1
  capturedAt := some capturedAt

private def quietJourney : Journey :=
  ⟨.start, 10, none, .routed 0, none, {}⟩

private def freshConsumer : ConsumerState where
  service := ⟨.initial sampleAreas, some ⟨1, sampleAreas⟩, some PresenceMemory.empty, {}⟩
  lastSeqByDevice _ := none

/-- Two requests that pass validation and differ in `capturedAt` only; the one that names the
thirtieth of February loses its entry and is sent back. -/
theorem entry_lost_to_impossible_date :
    (insideRequest "2026-02-28T12:00:00Z").passesValidation hasDateShape = true ∧
      (insideRequest "2026-02-30T12:00:00Z").passesValidation hasDateShape = true ∧
      ¬ Indifferent
        (quietJourney.send calendarExternals freshConsumer (insideRequest "2026-02-28T12:00:00Z"))
        (quietJourney.send calendarExternals freshConsumer
          (insideRequest "2026-02-30T12:00:00Z")) := by
  refine ⟨by decide +kernel, by decide +kernel, ?_⟩
  intro hsame
  have hack : (quietJourney.send calendarExternals freshConsumer
      (insideRequest "2026-02-28T12:00:00Z")).2 = some .ack := by decide +kernel
  have hnack : (quietJourney.send calendarExternals freshConsumer
      (insideRequest "2026-02-30T12:00:00Z")).2 = some (.nack true) := by decide +kernel
  have hsettlement := hsame.settlement
  rw [hack, hnack] at hsettlement
  cases hsettlement

end Geofence
