import Geofence.Areas.SpatialIndex
import Mathlib.Data.List.Nodup
/-!
# Tables and statements

The Postgres tables the service writes, as lists of rows. A primary key is a field of its
table, so no statement can build a table with two rows of one key. Each statement of the
transition path is a function on the tables; the ones that can fail return the driver error.
-/

namespace Geofence

abbrev UserId := String
abbrev DeviceId := String

/-- A point in time since the epoch, at the precision the column keeps. -/
abbrev Timestamp := Nat

/-- The fields of a driver error that the service reads. -/
structure PgError where
  code : String
  constraint : Option String
  deriving DecidableEq, Repr

/-- What the server decides on its own: the hash behind an advisory lock key, and which texts
the `timestamptz` cast accepts. -/
structure Postgres where
  hashtext : String → Int
  acceptsTimestamptz : String → Bool

structure AreasTable where
  rows : List AreaGeometryRow
  primaryKey : (rows.map (·.id)).Nodup

/-- One area, the square with a hole. -/
def sampleAreas : AreasTable := ⟨[⟨"a", squareWithHole⟩], by decide⟩

/-- A row of `user_area_presence`. -/
structure PresenceRow where
  userId : UserId
  areaId : AreaId
  enteredAt : Timestamp
  lastSeenAt : Timestamp
  deriving DecidableEq, Repr

def PresenceRow.key (row : PresenceRow) : UserId × AreaId := (row.userId, row.areaId)

structure PresenceTable where
  rows : List PresenceRow
  primaryKey : (rows.map PresenceRow.key).Nodup

/-- A row of `logs`, less its generated id. -/
structure LogRow where
  userId : UserId
  areaId : AreaId
  recordedAt : Timestamp
  capturedAt : Option String
  deriving DecidableEq, Repr

def LogRow.key (row : LogRow) : UserId × AreaId := (row.userId, row.areaId)

/-- A row of `user_event_state`. -/
structure EventStateRow where
  userId : UserId
  deviceId : DeviceId
  lastSeq : Nat
  lastEventAt : Timestamp
  deriving DecidableEq, Repr

def EventStateRow.key (row : EventStateRow) : UserId × DeviceId := (row.userId, row.deviceId)

structure EventStateTable where
  rows : List EventStateRow
  primaryKey : (rows.map EventStateRow.key).Nodup

structure Database where
  areas : AreasTable
  areaVersion : Nat
  presence : PresenceTable
  logs : List LogRow
  eventState : EventStateTable

namespace PresenceTable

/-- `SELECT "area_id" FROM "user_area_presence" WHERE "user_id" = $1` -/
def areaIds (table : PresenceTable) (userId : UserId) : List AreaId :=
  (table.rows.filter (·.userId = userId)).map (·.areaId)

/-- `INSERT ... ON CONFLICT ("user_id", "area_id") DO NOTHING RETURNING "area_id"` -/
def insertOnConflictDoNothing (table : PresenceTable) (row : PresenceRow) :
    PresenceTable × List AreaId :=
  if h : row.key ∈ table.rows.map PresenceRow.key then (table, [])
  else
    (⟨table.rows ++ [row], by
      rw [List.map_append, List.nodup_append]
      refine ⟨table.primaryKey, by simp, ?_⟩
      intro k hk k' hk' heq
      rw [List.map_singleton, List.mem_singleton] at hk'
      exact h (hk' ▸ heq ▸ hk)⟩, [row.areaId])

/-- `DELETE FROM "user_area_presence" WHERE "user_id" = $1 AND "area_id" = ANY($2)` -/
def deleteAreas (table : PresenceTable) (userId : UserId) (departed : List AreaId) :
    PresenceTable where
  rows := table.rows.filter fun row => !(row.userId = userId && departed.contains row.areaId)
  primaryKey := (List.filter_sublist.map _).nodup table.primaryKey

/-- The keys of the rows that DELETE removes. -/
def deletedKeys (table : PresenceTable) (userId : UserId) (departed : List AreaId) :
    List (UserId × AreaId) :=
  (table.rows.filter fun row => row.userId = userId && departed.contains row.areaId).map
    PresenceRow.key

theorem mem_areaIds {table : PresenceTable} {userId : UserId} {areaId : AreaId} :
    areaId ∈ table.areaIds userId ↔ (userId, areaId) ∈ table.rows.map PresenceRow.key := by
  simp only [areaIds, List.mem_map, List.mem_filter, decide_eq_true_eq, PresenceRow.key,
    Prod.mk.injEq]
  constructor
  · rintro ⟨row, ⟨hrow, hu⟩, ha⟩
    exact ⟨row, hrow, hu, ha⟩
  · rintro ⟨row, hrow, hu, ha⟩
    exact ⟨row, ⟨hrow, hu⟩, ha⟩

theorem areaIds_nodup (table : PresenceTable) (userId : UserId) :
    (table.areaIds userId).Nodup := by
  have hsub := (List.filter_sublist (p := fun row : PresenceRow => decide (row.userId = userId))
    (l := table.rows)).map PresenceRow.key
  have hpair : ((table.areaIds userId).map fun areaId => (userId, areaId)).Nodup := by
    have heq : (table.areaIds userId).map (fun areaId => (userId, areaId)) =
        (table.rows.filter (·.userId = userId)).map PresenceRow.key := by
      rw [areaIds, List.map_map]
      apply List.map_congr_left
      intro row hrow
      have hu : row.userId = userId := by simpa using (List.mem_filter.mp hrow).2
      simp [PresenceRow.key, hu]
    rw [heq]
    exact hsub.nodup table.primaryKey
  exact List.Nodup.of_map _ hpair

theorem insert_of_mem {table : PresenceTable} (row : PresenceRow)
    (h : row.areaId ∈ table.areaIds row.userId) :
    table.insertOnConflictDoNothing row = (table, []) := by
  have hkey : row.key ∈ table.rows.map PresenceRow.key := mem_areaIds.mp h
  rw [insertOnConflictDoNothing, dif_pos hkey]

theorem insert_of_notMem {table : PresenceTable} (row : PresenceRow)
    (h : row.areaId ∉ table.areaIds row.userId) :
    (table.insertOnConflictDoNothing row).1.rows = table.rows ++ [row] ∧
      (table.insertOnConflictDoNothing row).2 = [row.areaId] := by
  have hkey : row.key ∉ table.rows.map PresenceRow.key := mt mem_areaIds.mpr h
  rw [insertOnConflictDoNothing, dif_neg hkey]
  exact ⟨rfl, rfl⟩

theorem areaIds_insert_of_notMem {table : PresenceTable} (row : PresenceRow)
    (h : row.areaId ∉ table.areaIds row.userId) (userId : UserId) :
    (table.insertOnConflictDoNothing row).1.areaIds userId =
      table.areaIds userId ++ if row.userId = userId then [row.areaId] else [] := by
  rw [areaIds, (insert_of_notMem row h).1, List.filter_append, List.map_append]
  congr 1
  by_cases hu : row.userId = userId <;> simp [hu]

end PresenceTable

namespace EventStateTable

/-- `SELECT "last_seq" FROM "user_event_state" WHERE "user_id" = $1 AND "device_id" = $2` -/
def lastSeq? (table : EventStateTable) (userId : UserId) (deviceId : DeviceId) : Option Nat :=
  (table.rows.find? fun row => row.userId = userId && row.deviceId = deviceId).map (·.lastSeq)

/-- `INSERT ... ON CONFLICT ("user_id", "device_id") DO UPDATE SET "last_seq" = $3, ...` -/
def upsert (table : EventStateTable) (row : EventStateRow) : EventStateTable :=
  if h : row.key ∈ table.rows.map EventStateRow.key then
    ⟨table.rows.map fun old => if old.key = row.key then row else old, by
      rw [List.map_map]
      have heq : table.rows.map (EventStateRow.key ∘ fun old => if old.key = row.key then row else old) =
          table.rows.map EventStateRow.key := by
        apply List.map_congr_left
        intro old _
        by_cases hk : old.key = row.key <;> simp [hk]
      rw [heq]
      exact table.primaryKey⟩
  else
    ⟨table.rows ++ [row], by
      rw [List.map_append, List.nodup_append]
      refine ⟨table.primaryKey, by simp, ?_⟩
      intro k hk k' hk' heq
      rw [List.map_singleton, List.mem_singleton] at hk'
      exact h (hk' ▸ heq ▸ hk)⟩

private theorem find?_replace {rows : List EventStateRow} (row : EventStateRow)
    {p : EventStateRow → Bool} (hp : ∀ old, old.key = row.key → p old = false) :
    (rows.map fun old => if old.key = row.key then row else old).find? p = rows.find? p := by
  induction rows with
  | nil => rfl
  | cons old rows ih =>
    rw [List.map_cons]
    by_cases hk : old.key = row.key
    · rw [if_pos hk, List.find?_cons_of_neg (by simp [hp row rfl]),
        List.find?_cons_of_neg (by simp [hp old hk]), ih]
    · rw [if_neg hk, List.find?_cons, List.find?_cons, ih]

private theorem find?_replaced {rows : List EventStateRow} {row : EventStateRow}
    (h : row.key ∈ rows.map EventStateRow.key) {p : EventStateRow → Bool}
    (hp : ∀ old, p old = true ↔ old.key = row.key) :
    (rows.map fun old => if old.key = row.key then row else old).find? p = some row := by
  induction rows with
  | nil => cases h
  | cons old rows ih =>
    rw [List.map_cons]
    by_cases hk : old.key = row.key
    · rw [if_pos hk, List.find?_cons_of_pos ((hp row).mpr rfl)]
    · rw [if_neg hk, List.find?_cons_of_neg fun hold => hk ((hp old).mp hold)]
      apply ih
      rw [List.map_cons, List.mem_cons] at h
      exact h.resolve_left fun heq => hk heq.symm

theorem lastSeq?_upsert_self (table : EventStateTable) (row : EventStateRow) :
    (table.upsert row).lastSeq? row.userId row.deviceId = some row.lastSeq := by
  have hp : ∀ old : EventStateRow,
      (decide (old.userId = row.userId) && decide (old.deviceId = row.deviceId)) = true ↔
        old.key = row.key := by
    intro old
    simp [EventStateRow.key]
  unfold upsert lastSeq?
  split
  · rename_i hmem
    rw [find?_replaced hmem hp, Option.map_some]
  · rename_i hmem
    have hnone : (table.rows.find? fun old =>
        decide (old.userId = row.userId) && decide (old.deviceId = row.deviceId)) = none := by
      apply List.find?_eq_none.mpr
      intro old hold heq
      exact hmem (List.mem_map.mpr ⟨old, hold, (hp old).mp heq⟩)
    rw [List.find?_append, hnone, Option.none_or]
    simp

theorem lastSeq?_upsert_of_key_ne (table : EventStateTable) {row : EventStateRow}
    {userId : UserId} {deviceId : DeviceId} (hne : row.key ≠ (userId, deviceId)) :
    (table.upsert row).lastSeq? userId deviceId = table.lastSeq? userId deviceId := by
  have hp : ∀ old : EventStateRow, old.key = row.key →
      (decide (old.userId = userId) && decide (old.deviceId = deviceId)) = false := by
    intro old hk
    rw [← hk] at hne
    rw [Bool.and_eq_false_iff, decide_eq_false_iff_not, decide_eq_false_iff_not, ← not_and_or]
    rintro ⟨rfl, rfl⟩
    exact hne rfl
  unfold upsert lastSeq?
  split
  · exact congrArg _ (find?_replace row hp)
  · have hrow := hp row rfl
    rw [List.find?_append, List.find?_singleton]
    simp only [hrow, Bool.false_eq_true, if_false, Option.or_none]

theorem lastSeq?_upsert_of_ne (table : EventStateTable) {row : EventStateRow} {userId : UserId}
    (hne : row.userId ≠ userId) (deviceId : DeviceId) :
    (table.upsert row).lastSeq? userId deviceId = table.lastSeq? userId deviceId :=
  lastSeq?_upsert_of_key_ne table fun hkey => hne (congrArg Prod.fst hkey)

end EventStateTable

namespace Database

/-- The given areas, with empty presence, log and dedup tables. -/
def initial (areas : AreasTable) : Database :=
  ⟨areas, 1, ⟨[], .nil⟩, [], ⟨[], .nil⟩⟩

/-- The transaction of `AreasService.create`: the row, under a generated id no other row has,
and the version bump commit together. -/
def createArea (db : Database) (row : AreaGeometryRow) : Option Database :=
  if h : row.id ∈ db.areas.rows.map (·.id) then none
  else some { db with
    areas := ⟨db.areas.rows ++ [row], by
      rw [List.map_append, List.nodup_append]
      refine ⟨db.areas.primaryKey, by simp, ?_⟩
      intro id hid id' hid' heq
      rw [List.map_singleton, List.mem_singleton] at hid'
      exact h (hid' ▸ heq ▸ hid)⟩
    areaVersion := db.areaVersion + 1 }

theorem createArea_eq_some {db db' : Database} {row : AreaGeometryRow}
    (h : db.createArea row = some db') :
    db'.areas.rows = db.areas.rows ++ [row] ∧ db'.areaVersion = db.areaVersion + 1 ∧
      db'.presence = db.presence ∧ db'.logs = db.logs := by
  unfold createArea at h
  split at h
  · cases h
  · cases h
    exact ⟨rfl, rfl, rfl, rfl⟩

def hasArea (db : Database) (areaId : AreaId) : Bool :=
  db.areas.rows.any fun row => row.id = areaId

/-- The presence insert; a dangling area id violates `fk_presence_area`. -/
def insertPresence (db : Database) (row : PresenceRow) :
    Except PgError (Database × List AreaId) :=
  if (db.presence.insertOnConflictDoNothing row).2 = [] || db.hasArea row.areaId then
    .ok ({ db with presence := (db.presence.insertOnConflictDoNothing row).1 },
      (db.presence.insertOnConflictDoNothing row).2)
  else .error ⟨"23503", some "fk_presence_area"⟩

/-- The log insert; it casts `captured_at` and checks `fk_logs_area`. -/
def insertLog (pg : Postgres) (db : Database) (row : LogRow) : Except PgError Database :=
  if row.capturedAt.any fun text => !pg.acceptsTimestamptz text then .error ⟨"22008", none⟩
  else if db.hasArea row.areaId then .ok { db with logs := db.logs ++ [row] }
  else .error ⟨"23503", some "fk_logs_area"⟩

end Database

end Geofence
