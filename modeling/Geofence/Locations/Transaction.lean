import Geofence.Database.Tables
import Mathlib.Data.List.Sort
import Mathlib.Data.String.Basic
/-!
# The change-path transaction

The body `LocationsService.report` passes to `dataSource.transaction`, run alone on one
database state: the locked presence read, the per-device dedup, the insert loop and the exit
delete. `Applied` says what a transaction that passed the dedup gate does to every table.
-/

namespace Geofence

structure ReportLocationDto where
  userId : UserId
  lat : ℚ
  lng : ℚ
  deviceId : Option DeviceId := none
  seq : Option Nat := none
  capturedAt : Option String := none
  observedAt : Option String := none
  accuracy : Option ℚ := none

/-- What the transaction body closes over. -/
structure ReportCall where
  dto : ReportLocationDto
  recordedAt : Timestamp
  currentAreaIds : List AreaId

namespace ReportCall

/-- `dto.capturedAt ?? dto.observedAt ?? null` -/
def capturedAt (call : ReportCall) : Option String :=
  call.dto.capturedAt.or call.dto.observedAt

def presenceRow (call : ReportCall) (areaId : AreaId) : PresenceRow :=
  ⟨call.dto.userId, areaId, call.recordedAt, call.recordedAt⟩

def logRow (call : ReportCall) (areaId : AreaId) : LogRow :=
  ⟨call.dto.userId, areaId, call.recordedAt, call.capturedAt⟩

/-- `currentAreaIds.filter((areaId) => !previous.has(areaId)).sort()` -/
def entered (call : ReportCall) (previousAreaIds : List AreaId) : List AreaId :=
  (call.currentAreaIds.filter fun areaId => !previousAreaIds.contains areaId).insertionSort (· ≤ ·)

/-- `previousAreaIds.filter((areaId) => !current.has(areaId))` -/
def departed (call : ReportCall) (previousAreaIds : List AreaId) : List AreaId :=
  previousAreaIds.filter fun areaId => !call.currentAreaIds.contains areaId

theorem mem_entered {call : ReportCall} {previous : List AreaId} {areaId : AreaId} :
    areaId ∈ call.entered previous ↔ areaId ∈ call.currentAreaIds ∧ areaId ∉ previous := by
  simp [entered, List.mem_insertionSort]

theorem mem_departed {call : ReportCall} {previous : List AreaId} {areaId : AreaId} :
    areaId ∈ call.departed previous ↔ areaId ∈ previous ∧ areaId ∉ call.currentAreaIds := by
  simp [departed]

end ReportCall

structure TransactionResult where
  enteredAreaIds : List AreaId
  duplicate : Bool
  wroteAnything : Bool
  deriving DecidableEq, Repr

/-- Per-device dedup: `none` when the event is a duplicate, else the tables after the upsert. -/
def dedupGate (call : ReportCall) (db : Database) : Option Database :=
  match call.dto.deviceId, call.dto.seq with
  | some deviceId, some seq =>
    if (db.eventState.lastSeq? call.dto.userId deviceId).any fun last => decide (seq ≤ last) then none
    else
      some { db with
        eventState := db.eventState.upsert ⟨call.dto.userId, deviceId, seq, call.recordedAt⟩ }
  | _, _ => some db

/-- The insert loop: a log row only for an insert that returned a row. -/
def enterAreas (pg : Postgres) (call : ReportCall) :
    Database → List AreaId → Except PgError (Database × List AreaId)
  | db, [] => .ok (db, [])
  | db, areaId :: rest => do
    let (db, inserted) ← db.insertPresence (call.presenceRow areaId)
    if 0 < inserted.length then
      let db ← db.insertLog pg (call.logRow areaId)
      let (db, enteredAreaIds) ← enterAreas pg call db rest
      return (db, areaId :: enteredAreaIds)
    else enterAreas pg call db rest

def deleteDeparted (call : ReportCall) (db : Database) (departed : List AreaId) : Database :=
  if 0 < departed.length then
    { db with presence := db.presence.deleteAreas call.dto.userId departed }
  else db

def transaction (pg : Postgres) (call : ReportCall) (db : Database) :
    Except PgError (Database × TransactionResult) := do
  let previousAreaIds := db.presence.areaIds call.dto.userId
  match dedupGate call db with
  | none => return (db, ⟨[], true, false⟩)
  | some db =>
    let departed := call.departed previousAreaIds
    let (db, enteredAreaIds) ← enterAreas pg call db (call.entered previousAreaIds)
    return (deleteDeparted call db departed,
      ⟨enteredAreaIds, false, decide (0 < enteredAreaIds.length) || decide (0 < departed.length)⟩)

/-- What the insert loop does: the areas not yet present get a presence row and a log row. -/
structure EntersAreas (call : ReportCall) (db db' : Database) (areaIds inserted : List AreaId) :
    Prop where
  presence : db'.presence.rows = db.presence.rows ++ inserted.map call.presenceRow
  logs : db'.logs = db.logs ++ inserted.map call.logRow
  areas : db'.areas = db.areas
  areaVersion : db'.areaVersion = db.areaVersion
  eventState : db'.eventState = db.eventState
  mem_inserted : ∀ areaId, areaId ∈ inserted ↔
    areaId ∈ areaIds ∧ areaId ∉ db.presence.areaIds call.dto.userId
  nodup : inserted.Nodup

theorem insertPresence_eq_ok {db : Database} {row : PresenceRow}
    {r : Database × List AreaId} :
    db.insertPresence row = .ok r ↔
      (row.areaId ∈ db.presence.areaIds row.userId ∧ r = (db, [])) ∨
        (row.areaId ∉ db.presence.areaIds row.userId ∧ db.hasArea row.areaId = true ∧
          r = ({ db with presence := (db.presence.insertOnConflictDoNothing row).1 },
            [row.areaId])) := by
  unfold Database.insertPresence
  by_cases hmem : row.areaId ∈ db.presence.areaIds row.userId
  · rw [PresenceTable.insert_of_mem row hmem, if_pos (by simp)]
    constructor
    · intro h
      cases h
      exact Or.inl ⟨hmem, rfl⟩
    · rintro (⟨-, rfl⟩ | ⟨hn, -⟩)
      · rfl
      · exact absurd hmem hn
  · rw [(PresenceTable.insert_of_notMem row hmem).2]
    by_cases harea : db.hasArea row.areaId = true
    · rw [if_pos (by simp [harea])]
      constructor
      · intro h
        cases h
        exact Or.inr ⟨hmem, harea, rfl⟩
      · rintro (⟨hm, -⟩ | ⟨-, -, rfl⟩)
        · exact absurd hm hmem
        · rfl
    · rw [if_neg (by simp [harea])]
      constructor
      · intro h
        cases h
      · rintro (⟨hm, -⟩ | ⟨-, ha, -⟩)
        · exact absurd hm hmem
        · exact absurd ha harea

/-- The texts `captured_at` can be cast from. -/
def castable (pg : Postgres) (capturedAt : Option String) : Bool :=
  capturedAt.all fun text => pg.acceptsTimestamptz text

theorem insertLog_eq_ok {pg : Postgres} {db db' : Database} {row : LogRow} :
    db.insertLog pg row = .ok db' ↔ castable pg row.capturedAt = true ∧
      db.hasArea row.areaId = true ∧ db' = { db with logs := db.logs ++ [row] } := by
  have hcast : castable pg row.capturedAt =
      !(row.capturedAt.any fun text => !pg.acceptsTimestamptz text) := by
    cases hc : row.capturedAt <;> simp [castable]
  unfold Database.insertLog
  rw [hcast]
  cases row.capturedAt.any fun text => !pg.acceptsTimestamptz text with
  | true => simp
  | false =>
    by_cases harea : db.hasArea row.areaId = true
    · simp [harea, eq_comm]
    · simp [harea]

/-- The tables after one iteration that inserted its row. -/
def Database.enter (db : Database) (call : ReportCall) (areaId : AreaId) : Database :=
  { db with
    presence := (db.presence.insertOnConflictDoNothing (call.presenceRow areaId)).1
    logs := db.logs ++ [call.logRow areaId] }

theorem mem_areaIds_enter {call : ReportCall} {db : Database} {areaId : AreaId}
    (h : areaId ∉ db.presence.areaIds call.dto.userId) (a : AreaId) :
    a ∈ (db.enter call areaId).presence.areaIds call.dto.userId ↔
      a ∈ db.presence.areaIds call.dto.userId ∨ a = areaId := by
  rw [Database.enter, PresenceTable.areaIds_insert_of_notMem (call.presenceRow areaId) h]
  simp [ReportCall.presenceRow]

section Iteration

variable {pg : Postgres} {call : ReportCall} {db : Database} {areaId : AreaId}

theorem enterAreas_conflict (rest : List AreaId)
    (hmem : areaId ∈ db.presence.areaIds call.dto.userId) :
    enterAreas pg call db (areaId :: rest) = enterAreas pg call db rest := by
  have hins : db.insertPresence (call.presenceRow areaId) = .ok (db, []) :=
    insertPresence_eq_ok.mpr (Or.inl ⟨hmem, rfl⟩)
  simp [enterAreas, hins, bind, Except.bind]

theorem enterAreas_missing (rest : List AreaId)
    (hmem : areaId ∉ db.presence.areaIds call.dto.userId) (harea : db.hasArea areaId = false) :
    enterAreas pg call db (areaId :: rest) = .error ⟨"23503", some "fk_presence_area"⟩ := by
  have hins : db.insertPresence (call.presenceRow areaId) =
      .error ⟨"23503", some "fk_presence_area"⟩ := by
    unfold Database.insertPresence
    rw [(PresenceTable.insert_of_notMem (call.presenceRow areaId) hmem).2]
    simp [ReportCall.presenceRow, harea]
  simp [enterAreas, hins, bind, Except.bind]

theorem insertPresence_new (hmem : areaId ∉ db.presence.areaIds call.dto.userId)
    (harea : db.hasArea areaId = true) :
    db.insertPresence (call.presenceRow areaId) = .ok ({ db with
      presence := (db.presence.insertOnConflictDoNothing (call.presenceRow areaId)).1 },
      [areaId]) :=
  insertPresence_eq_ok.mpr (Or.inr ⟨hmem, harea, rfl⟩)

theorem enterAreas_uncastable (rest : List AreaId)
    (hmem : areaId ∉ db.presence.areaIds call.dto.userId) (harea : db.hasArea areaId = true)
    (hcast : castable pg call.capturedAt = false) :
    enterAreas pg call db (areaId :: rest) = .error ⟨"22008", none⟩ := by
  have hlog : Database.insertLog pg { db with
      presence := (db.presence.insertOnConflictDoNothing (call.presenceRow areaId)).1 }
      (call.logRow areaId) = .error ⟨"22008", none⟩ := by
    unfold Database.insertLog
    rw [if_pos]
    cases hcaptured : call.capturedAt <;> simp_all [castable, ReportCall.logRow]
  simp [enterAreas, insertPresence_new hmem harea, hlog, bind, Except.bind]

theorem enterAreas_enter (rest : List AreaId)
    (hmem : areaId ∉ db.presence.areaIds call.dto.userId) (harea : db.hasArea areaId = true)
    (hcast : castable pg call.capturedAt = true) :
    enterAreas pg call db (areaId :: rest) =
      (enterAreas pg call (db.enter call areaId) rest).map fun r => (r.1, areaId :: r.2) := by
  have hlog : Database.insertLog pg { db with
      presence := (db.presence.insertOnConflictDoNothing (call.presenceRow areaId)).1 }
      (call.logRow areaId) = .ok (db.enter call areaId) :=
    insertLog_eq_ok.mpr ⟨hcast, harea, rfl⟩
  simp only [enterAreas, insertPresence_new hmem harea, hlog, bind, Except.bind, pure, Except.pure,
    List.length_singleton, Nat.zero_lt_one, if_true]
  cases enterAreas pg call (db.enter call areaId) rest with
  | error e => rfl
  | ok r => rfl

/-- One iteration of the insert loop: the conflict branch, or a presence row and its log row. -/
theorem enterAreas_cons_eq_ok {db' : Database} {rest inserted : List AreaId} :
    enterAreas pg call db (areaId :: rest) = .ok (db', inserted) ↔
      (areaId ∈ db.presence.areaIds call.dto.userId ∧
        enterAreas pg call db rest = .ok (db', inserted)) ∨
      (areaId ∉ db.presence.areaIds call.dto.userId ∧ db.hasArea areaId = true ∧
        castable pg call.capturedAt = true ∧ ∃ later,
          enterAreas pg call (db.enter call areaId) rest = .ok (db', later) ∧
            inserted = areaId :: later) := by
  by_cases hmem : areaId ∈ db.presence.areaIds call.dto.userId
  · rw [enterAreas_conflict rest hmem]
    simp [hmem]
  · cases harea : db.hasArea areaId with
    | false =>
      rw [enterAreas_missing rest hmem harea]
      simp [hmem]
    | true =>
      cases hcast : castable pg call.capturedAt with
      | false =>
        rw [enterAreas_uncastable rest hmem harea hcast]
        simp [hmem]
      | true =>
        rw [enterAreas_enter rest hmem harea hcast]
        cases enterAreas pg call (db.enter call areaId) rest with
        | error e => simp [hmem, Except.map]
        | ok r => simp [hmem, Except.map, Prod.ext_iff, eq_comm]

end Iteration

theorem enterAreas_append {pg : Postgres} {call : ReportCall} {db db₁ db₂ : Database}
    {first second inserted more : List AreaId}
    (h₁ : enterAreas pg call db first = .ok (db₁, inserted))
    (h₂ : enterAreas pg call db₁ second = .ok (db₂, more)) :
    enterAreas pg call db (first ++ second) = .ok (db₂, inserted ++ more) := by
  induction first generalizing db inserted with
  | nil =>
    cases h₁
    exact h₂
  | cons areaId rest ih =>
    rw [List.cons_append, enterAreas_cons_eq_ok]
    rcases enterAreas_cons_eq_ok.mp h₁ with ⟨hmem, hrest⟩ | ⟨hmem, harea, hcast, later, hrest, rfl⟩
    · exact Or.inl ⟨hmem, ih hrest⟩
    · exact Or.inr ⟨hmem, harea, hcast, _, ih hrest, rfl⟩

theorem enterAreas_ok {pg : Postgres} {call : ReportCall} {db db' : Database}
    {areaIds inserted : List AreaId} (h : enterAreas pg call db areaIds = .ok (db', inserted)) :
    EntersAreas call db db' areaIds inserted := by
  induction areaIds generalizing db inserted with
  | nil =>
    cases h
    constructor <;> simp
  | cons areaId rest ih =>
    rcases enterAreas_cons_eq_ok.mp h with ⟨hmem, hrest⟩ | ⟨hmem, -, -, later, hrest, rfl⟩
    · have hrest := ih hrest
      refine { hrest with mem_inserted := ?_ }
      intro a
      rw [hrest.mem_inserted, List.mem_cons]
      constructor
      · exact fun ⟨ha, hn⟩ => ⟨Or.inr ha, hn⟩
      · rintro ⟨rfl | ha, hn⟩
        · exact absurd hmem hn
        · exact ⟨ha, hn⟩
    · have hrest := ih hrest
      have hids := mem_areaIds_enter hmem
      refine ⟨?_, ?_, hrest.areas, hrest.areaVersion, hrest.eventState, ?_, ?_⟩
      · have hrows := (PresenceTable.insert_of_notMem (call.presenceRow areaId) hmem).1
        simp [hrest.presence, Database.enter, hrows]
      · simp [hrest.logs, Database.enter]
      · intro a
        rw [List.mem_cons, hrest.mem_inserted, hids, List.mem_cons]
        constructor
        · rintro (rfl | ⟨ha, hn⟩)
          · exact ⟨Or.inl rfl, hmem⟩
          · exact ⟨Or.inr ha, fun h => hn (Or.inl h)⟩
        · rintro ⟨rfl | ha, hn⟩
          · exact Or.inl rfl
          · by_cases heq : a = areaId
            · exact Or.inl heq
            · exact Or.inr ⟨ha, fun h => h.elim hn heq⟩
      · refine List.nodup_cons.mpr ⟨fun hin => ?_, hrest.nodup⟩
        exact ((hrest.mem_inserted areaId).mp hin).2 ((hids areaId).mpr (Or.inr rfl))

/-- What a transaction that passed the dedup gate does to the tables. -/
structure Applied (call : ReportCall) (db db' : Database) (result : TransactionResult) : Prop where
  presence : db'.presence.rows =
    (db.presence.rows.filter fun row => !(row.userId = call.dto.userId &&
        !call.currentAreaIds.contains row.areaId)) ++
      result.enteredAreaIds.map call.presenceRow
  logs : db'.logs = db.logs ++ result.enteredAreaIds.map call.logRow
  areas : db'.areas = db.areas
  areaVersion : db'.areaVersion = db.areaVersion
  mem_entered : ∀ areaId, areaId ∈ result.enteredAreaIds ↔
    areaId ∈ call.currentAreaIds ∧ areaId ∉ db.presence.areaIds call.dto.userId
  nodup : result.enteredAreaIds.Nodup
  notDuplicate : result.duplicate = false

theorem dedupGate_some {call : ReportCall} {db db' : Database} (h : dedupGate call db = some db') :
    db'.presence = db.presence ∧ db'.logs = db.logs ∧ db'.areas = db.areas ∧
      db'.areaVersion = db.areaVersion := by
  unfold dedupGate at h
  split at h
  · split at h
    · cases h
    · cases h
      exact ⟨rfl, rfl, rfl, rfl⟩
  · cases h
    exact ⟨rfl, rfl, rfl, rfl⟩

private theorem deleteDeparted_rows (call : ReportCall) (db : Database) (departed : List AreaId) :
    (deleteDeparted call db departed).presence.rows = db.presence.rows.filter fun row =>
      !(row.userId = call.dto.userId && departed.contains row.areaId) := by
  unfold deleteDeparted
  split
  · rfl
  · rename_i h
    have hnil : departed = [] := List.length_eq_zero_iff.mp (Nat.eq_zero_of_not_pos h)
    simp [hnil]

theorem mem_departed_of_row {db : Database} {call : ReportCall} {row : PresenceRow}
    (hrow : row ∈ db.presence.rows) (hu : row.userId = call.dto.userId) :
    row.areaId ∈ call.departed (db.presence.areaIds call.dto.userId) ↔
      row.areaId ∉ call.currentAreaIds := by
  have hmem : row.areaId ∈ db.presence.areaIds call.dto.userId :=
    PresenceTable.mem_areaIds.mpr (List.mem_map.mpr ⟨row, hrow, by rw [← hu]; rfl⟩)
  rw [ReportCall.mem_departed, and_iff_right hmem]

private theorem deleteDeparted_frame (call : ReportCall) (db : Database) (departed : List AreaId) :
    (deleteDeparted call db departed).logs = db.logs ∧
      (deleteDeparted call db departed).areas = db.areas ∧
      (deleteDeparted call db departed).areaVersion = db.areaVersion := by
  unfold deleteDeparted
  split <;> exact ⟨rfl, rfl, rfl⟩

/-- A transaction returns as a duplicate with the tables untouched, or is `Applied`. -/
theorem transaction_ok {pg : Postgres} {call : ReportCall} {db db' : Database}
    {result : TransactionResult} (h : transaction pg call db = .ok (db', result)) :
    (dedupGate call db = none ∧ db' = db ∧ result = ⟨[], true, false⟩) ∨
      Applied call db db' result := by
  unfold transaction at h
  cases hgate : dedupGate call db with
  | none =>
    simp only [hgate, pure, Except.pure, Except.ok.injEq, Prod.mk.injEq] at h
    exact Or.inl ⟨rfl, h.1.symm, h.2.symm⟩
  | some db₁ =>
    obtain ⟨hpres, hlogs, hareas, hversion⟩ := dedupGate_some hgate
    cases henter : enterAreas pg call db₁ (call.entered (db.presence.areaIds call.dto.userId)) with
    | error e => simp [hgate, henter, bind, Except.bind] at h
    | ok r =>
      obtain ⟨db₂, inserted⟩ := r
      simp only [hgate, henter, bind, Except.bind, pure, Except.pure, Except.ok.injEq,
        Prod.mk.injEq] at h
      obtain ⟨rfl, rfl⟩ := h
      have hent := enterAreas_ok henter
      have hins : ∀ a, a ∈ inserted ↔
          a ∈ call.currentAreaIds ∧ a ∉ db.presence.areaIds call.dto.userId := by
        intro a
        rw [hent.mem_inserted, ReportCall.mem_entered, hpres]
        tauto
      obtain ⟨hdlogs, hdareas, hdversion⟩ :=
        deleteDeparted_frame call db₂ (call.departed (db.presence.areaIds call.dto.userId))
      refine Or.inr ⟨?_, ?_, ?_, ?_, hins, hent.nodup, rfl⟩
      · rw [deleteDeparted_rows, hent.presence, hpres, List.filter_append]
        congr 1
        · apply List.filter_congr
          intro row hrow
          by_cases hu : row.userId = call.dto.userId
          · simp [hu, mem_departed_of_row hrow hu]
          · simp [hu]
        · apply List.filter_eq_self.mpr
          intro row hrow
          obtain ⟨a, ha, rfl⟩ := List.mem_map.mp hrow
          have hcur := ((hins a).mp ha).1
          simp [ReportCall.presenceRow, ReportCall.departed, hcur]
      · rw [hdlogs, hent.logs, hlogs]
      · rw [hdareas, hent.areas, hareas]
      · rw [hdversion, hent.areaVersion, hversion]

namespace Applied

variable {call : ReportCall} {db db' : Database} {result : TransactionResult}

/-- Afterwards the user's presence rows are exactly the covering set. -/
theorem mem_areaIds (h : Applied call db db' result) (areaId : AreaId) :
    areaId ∈ db'.presence.areaIds call.dto.userId ↔ areaId ∈ call.currentAreaIds := by
  rw [PresenceTable.mem_areaIds, h.presence, List.map_append, List.mem_append]
  simp only [List.mem_map, List.mem_filter, Bool.not_eq_true', Bool.and_eq_false_iff,
    decide_eq_false_iff_not, Bool.not_eq_false', List.contains_iff_mem, PresenceRow.key,
    Prod.mk.injEq]
  constructor
  · rintro (⟨row, ⟨-, hkeep⟩, hu, rfl⟩ | ⟨row, ⟨a, ha, rfl⟩, -, rfl⟩)
    · exact hkeep.resolve_left (fun hne => hne hu)
    · exact ((h.mem_entered a).mp ha).1
  · intro hcur
    by_cases hprev : areaId ∈ db.presence.areaIds call.dto.userId
    · obtain ⟨row, hrow, hkey⟩ := List.mem_map.mp (PresenceTable.mem_areaIds.mp hprev)
      simp only [PresenceRow.key, Prod.mk.injEq] at hkey
      exact Or.inl ⟨row, ⟨hrow, Or.inr (hkey.2 ▸ hcur)⟩, hkey.1, hkey.2⟩
    · exact Or.inr ⟨_, ⟨areaId, (h.mem_entered areaId).mpr ⟨hcur, hprev⟩, rfl⟩, rfl, rfl⟩

private theorem rows_of_ne (h : Applied call db db' result) {other : UserId}
    (hne : other ≠ call.dto.userId) :
    db'.presence.rows.filter (·.userId = other) = db.presence.rows.filter (·.userId = other) := by
  rw [h.presence, List.filter_append, List.filter_filter]
  have hnew : (result.enteredAreaIds.map call.presenceRow).filter (·.userId = other) = [] := by
    simp [List.filter_map, Function.comp_def, ReportCall.presenceRow, Ne.symm hne]
  rw [hnew, List.append_nil]
  apply List.filter_congr
  intro row _
  by_cases hu : row.userId = other <;> simp [hu, hne]

theorem areaIds_of_ne (h : Applied call db db' result) {other : UserId}
    (hne : other ≠ call.dto.userId) :
    db'.presence.areaIds other = db.presence.areaIds other := by
  rw [PresenceTable.areaIds, h.rows_of_ne hne, PresenceTable.areaIds]

end Applied

theorem transaction_of_same (pg : Postgres) (call : ReportCall) {db gated : Database}
    (hgate : dedupGate call db = some gated)
    (hsame : ∀ a, a ∈ call.currentAreaIds ↔ a ∈ db.presence.areaIds call.dto.userId) :
    transaction pg call db = .ok (gated, ⟨[], false, false⟩) := by
  have hent : call.entered (db.presence.areaIds call.dto.userId) = [] := by
    apply List.eq_nil_iff_forall_not_mem.mpr
    intro a ha
    obtain ⟨hcur, hprev⟩ := ReportCall.mem_entered.mp ha
    exact hprev ((hsame a).mp hcur)
  have hdep : call.departed (db.presence.areaIds call.dto.userId) = [] := by
    apply List.eq_nil_iff_forall_not_mem.mpr
    intro a ha
    obtain ⟨hprev, hcur⟩ := ReportCall.mem_departed.mp ha
    exact hcur ((hsame a).mpr hprev)
  simp [transaction, hgate, hent, hdep, enterAreas, deleteDeparted, bind, Except.bind, pure,
    Except.pure]

theorem transaction_no_change (pg : Postgres) (call : ReportCall) (db : Database)
    (hdevice : call.dto.deviceId = none)
    (hsame : ∀ a, a ∈ call.currentAreaIds ↔ a ∈ db.presence.areaIds call.dto.userId) :
    transaction pg call db = .ok (db, ⟨[], false, false⟩) := by
  have hgate : dedupGate call db = some db := by simp [dedupGate, hdevice]
  exact transaction_of_same pg call hgate hsame

end Geofence
