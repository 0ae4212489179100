import Geofence.Areas.Deletion
import Geofence.Locations.ReportPhases
import Geofence.Worker.StaleArea
/-!
# Several workers over one database

Partition ownership is static: the exchange routes all events of a user to one partition, and a
worker consumes the partitions its configuration lists. Each worker has a presence memory of its
own, and nothing in the database tells it that another process wrote a user's rows.
-/

namespace Geofence

open Framework

/-- Where the exchange routes a user's events, and the partitions each worker consumes. -/
structure PartitionAssignment (ω : Type) where
  partitionOf : UserId → ℕ
  partitions : ω → List ℕ

namespace PartitionAssignment

variable {ω : Type}

def owns (assignment : PartitionAssignment ω) (w : ω) (userId : UserId) : Bool :=
  (assignment.partitions w).contains (assignment.partitionOf userId)

/-- No user's partition is consumed by two workers. -/
def Exclusive (assignment : PartitionAssignment ω) : Prop :=
  ∀ userId w w', assignment.owns w userId = true → assignment.owns w' userId = true → w = w'

end PartitionAssignment

/-- What `report` holds in one worker process; the chains and the dedup map come with the consumer. -/
structure WorkerProcess where
  snapshot : Option Snapshot
  memory : PresenceMemory
  inFlight : UserId → Option ReportPhase

/-- Any number of workers. `applied` records the calls whose effect on the tables is settled: by
the COMMIT of their transaction, or by a hint that shows no change. -/
structure WorkerFleet (ω : Type) where
  db : Database
  deleted : List AreaId
  workers : ω → WorkerProcess
  applied : List ReportCall

/-- Areas are created by the API and deleted by raw SQL; everything else a worker does. -/
inductive FleetAction (ω : Type) where
  | createArea (row : AreaGeometryRow)
  | deleteArea (areaId : AreaId)
  | worker (w : ω) (action : PhaseAction)

/-- An error raised to a worker by a COMMIT of the user that the server applied. -/
def FleetAction.losesCommit {ω : Type} (userId : UserId) : FleetAction ω → Bool
  | .worker _ action => action.losesCommit userId
  | _ => false

/-- The call whose effect on the tables an action of a worker settles. -/
def PhasedWorker.settles (ext : Externals) (st : PhasedWorker) : PhaseAction → List ReportCall
  | .lookUp userId =>
    match st.inFlight userId, st.memory userId with
    | some (.lookingUp call), some hint => if differs call.currentAreaIds hint then [] else [call]
    | _, _ => []
  | .seed userId none =>
    match st.inFlight userId with
    | some (.seeding call) =>
      if differs call.currentAreaIds (st.db.presence.areaIds userId) then [] else [call]
    | _ => []
  | .commit userId =>
    match st.inFlight userId with
    | some (.changing call) =>
      match transaction ext.pg call st.db with
      | .error _ => []
      | .ok _ => [call]
    | _ => []
  | _ => []

namespace WorkerFleet

variable {ω : Type}

def start (db : Database) : WorkerFleet ω := ⟨db, [], fun _ => ⟨none, .empty, fun _ => none⟩, []⟩

/-- One worker, on the tables all of them share. -/
def view (st : WorkerFleet ω) (w : ω) : PhasedWorker :=
  ⟨st.db, (st.workers w).snapshot, (st.workers w).memory, (st.workers w).inFlight⟩

/-- The area is in the table, or was. -/
def known (st : WorkerFleet ω) (areaId : AreaId) : Bool :=
  st.db.areas.ids.contains areaId || st.deleted.contains areaId

/-- An event reaches the workers that consume its user's partition, and the rows of a snapshot
have been read from the table. Areas are not created by workers. -/
def admits (assignment : PartitionAssignment ω) (st : WorkerFleet ω) (w : ω) : PhaseAction → Bool
  | .call event => assignment.owns w event.userId
  | .swapSnapshot snapshot => snapshot.areas.ids.all st.known
  | .createArea _ => false
  | _ => true

/-- The fleet after an action led one worker from its view to `t`. -/
def put [DecidableEq ω] (st : WorkerFleet ω) (w : ω) (t : PhasedWorker)
    (settled : List ReportCall) : WorkerFleet ω where
  db := t.db
  deleted := st.deleted
  workers := Function.update st.workers w ⟨t.snapshot, t.memory, t.inFlight⟩
  applied := st.applied ++ settled

/-- An id is generated for a new area, never one that was used before. A worker that restarts
loses its memory and the transactions it has not committed. -/
def step [DecidableEq ω] (ext : Externals) (assignment : PartitionAssignment ω)
    (st : WorkerFleet ω) : FleetAction ω → Option (WorkerFleet ω)
  | .createArea row =>
    if row.id ∈ st.deleted then none
    else (st.db.createArea row).map fun db => { st with db }
  | .deleteArea areaId =>
    (st.db.deleteArea areaId).map fun db => { st with db, deleted := st.deleted ++ [areaId] }
  | .worker w action =>
    if st.admits assignment w action then
      ((st.view w).step ext action).map fun t => st.put w t ((st.view w).settles ext action)
    else none

def machine [DecidableEq ω] (ext : Externals) (assignment : PartitionAssignment ω) :
    Machine (WorkerFleet ω) (FleetAction ω) :=
  ⟨step ext assignment⟩

/-- With no call of the user in progress in a worker, its memory has no value for the user, or,
of the areas that exist, the ones of the user's committed presence. -/
def AgreesFor (userId : UserId) (st : WorkerFleet ω) : Prop :=
  ∀ w, (st.workers w).inFlight userId = none →
    ∀ areaIds, (st.workers w).memory userId = some areaIds →
      ∀ a, st.db.hasArea a = true → (a ∈ areaIds ↔ a ∈ st.db.presence.areaIds userId)

end WorkerFleet

/-- The tables' foreign keys on the areas. -/
structure Database.Referential (db : Database) : Prop where
  presence : ∀ userId, ∀ a ∈ db.presence.areaIds userId, db.hasArea a = true
  logs : ∀ row ∈ db.logs, db.hasArea row.areaId = true

/-- The tables hold what the naive reading of a user's calls leaves, deleted areas apart: the last
covering set, and one log row for every area a covering set has and the one before lacks. -/
structure Follows (db₀ : Database) (userId : UserId) (db : Database) (calls : List ReportCall) :
    Prop where
  presence : ∀ a, a ∈ db.presence.areaIds userId ↔
    a ∈ lastCovering (db₀.presence.areaIds userId) calls ∧ db.hasArea a = true
  logs : (db.logs.filter (·.userId = userId)).Perm
    ((db₀.logs.filter (·.userId = userId) ++
      entryLogs (db₀.presence.areaIds userId) calls).filter fun row => db.hasArea row.areaId)

theorem lastCovering_append_singleton (rows : List AreaId) (calls : List ReportCall)
    (call : ReportCall) : lastCovering rows (calls ++ [call]) = call.currentAreaIds := by
  simp [lastCovering]

theorem entryLogs_append_singleton (rows : List AreaId) (calls : List ReportCall)
    (call : ReportCall) : entryLogs rows (calls ++ [call]) = entryLogs rows calls ++
      (call.currentAreaIds.filter fun a => !(lastCovering rows calls).contains a).map
        call.logRow := by
  induction calls generalizing rows with
  | nil => simp [entryLogs, lastCovering]
  | cons first calls ih =>
    have hlast : lastCovering rows (first :: calls) = lastCovering first.currentAreaIds calls := by
      cases hcalls : calls.getLast? with
      | none => simp [lastCovering, List.getLast?_cons, hcalls]
      | some last => simp [lastCovering, List.getLast?_cons, hcalls]
    rw [List.cons_append, entryLogs, ih, entryLogs, hlast, List.append_assoc]

private theorem exists_of_mem_entryLogs {rows : List AreaId} {calls : List ReportCall}
    {log : LogRow}
    (h : log ∈ entryLogs rows calls) : ∃ call ∈ calls, log.areaId ∈ call.currentAreaIds := by
  induction calls generalizing rows with
  | nil => cases h
  | cons call calls ih =>
    rw [entryLogs, List.mem_append] at h
    rcases h with hfirst | hrest
    · obtain ⟨a, ha, rfl⟩ := List.mem_map.mp hfirst
      exact ⟨call, by simp, (List.mem_filter.mp ha).1⟩
    · obtain ⟨later, hlater, hid⟩ := ih hrest
      exact ⟨later, List.mem_cons_of_mem call hlater, hid⟩

theorem Database.hasArea_iff {db : Database} {areaId : AreaId} :
    db.hasArea areaId = true ↔ areaId ∈ db.areas.ids := by
  simp [hasArea, AreasTable.ids]

/-- What is left of the tables when an area is deleted. -/
structure Database.Deletes (areaId : AreaId) (db db' : Database) : Prop where
  hasArea : ∀ a, db'.hasArea a = (decide (a ≠ areaId) && db.hasArea a)
  presence : ∀ userId a, a ∈ db'.presence.areaIds userId ↔
    a ≠ areaId ∧ a ∈ db.presence.areaIds userId
  logs : db'.logs = db.logs.filter fun row => row.areaId ≠ areaId

theorem Database.deletes_of_deleteArea {db db' : Database} {areaId : AreaId}
    (h : db.deleteArea areaId = some db') : db.Deletes areaId db' := by
  have hids := mem_ids_delete h
  have hlive : ∀ a, db'.hasArea a = (decide (a ≠ areaId) && db.hasArea a) := by
    intro a
    rw [Bool.eq_iff_iff, Bool.and_eq_true, decide_eq_true_iff, hasArea_iff, hasArea_iff, hids,
      and_comm]
  unfold deleteArea at h
  split at h
  · cases h
    refine ⟨hlive, ?_, rfl⟩
    · intro userId a
      simp only [PresenceTable.areaIds, List.mem_map, List.mem_filter, decide_eq_true_eq]
      constructor
      · rintro ⟨row, ⟨⟨hrow, hne⟩, hu⟩, rfl⟩
        exact ⟨hne, row, ⟨hrow, hu⟩, rfl⟩
      · rintro ⟨hne, row, ⟨hrow, hu⟩, rfl⟩
        exact ⟨row, ⟨⟨hrow, hne⟩, hu⟩, rfl⟩
  · cases h

namespace Follows

variable {db₀ db db' : Database} {userId : UserId} {calls : List ReportCall}

theorem start (hdb₀ : db₀.Referential) : Follows db₀ userId db₀ [] := by
  constructor
  · intro a
    rw [show lastCovering (db₀.presence.areaIds userId) [] = db₀.presence.areaIds userId from rfl]
    exact ⟨fun ha => ⟨ha, hdb₀.presence userId a ha⟩, And.left⟩
  · rw [entryLogs, List.append_nil]
    refine List.Perm.of_eq (List.filter_eq_self.mpr ?_).symm
    intro row hrow
    exact hdb₀.logs row (List.mem_filter.mp hrow).1

theorem frame (h : Follows db₀ userId db calls)
    (hrows : db'.presence.areaIds userId = db.presence.areaIds userId)
    (hlogs : db'.logs.filter (·.userId = userId) = db.logs.filter (·.userId = userId))
    (hareas : db'.areas = db.areas) : Follows db₀ userId db' calls := by
  have hlive : db'.hasArea = db.hasArea := by
    funext a
    rw [Database.hasArea, hareas, Database.hasArea]
  refine ⟨?_, ?_⟩
  · intro a
    rw [hrows, hlive]
    exact h.presence a
  · rw [hlogs, hlive]
    exact h.logs

/-- A call that the hint shows to change nothing. -/
theorem unchanged (h : Follows db₀ userId db calls) {call : ReportCall}
    (hsame : ∀ a, db.hasArea a = true →
      (a ∈ call.currentAreaIds ↔ a ∈ db.presence.areaIds userId)) :
    Follows db₀ userId db (calls ++ [call]) := by
  constructor
  · intro a
    rw [lastCovering_append_singleton]
    constructor
    · intro ha
      have hlive := ((h.presence a).mp ha).2
      exact ⟨(hsame a hlive).mpr ha, hlive⟩
    · exact fun ⟨ha, hlive⟩ => (hsame a hlive).mp ha
  · have hnone : ((call.currentAreaIds.filter fun a =>
        !(lastCovering (db₀.presence.areaIds userId) calls).contains a).map call.logRow).filter
          (fun row => db.hasArea row.areaId) = [] := by
      apply List.filter_eq_nil_iff.mpr
      intro row hrow hlive
      obtain ⟨a, ha, rfl⟩ := List.mem_map.mp hrow
      obtain ⟨hcovering, hnew⟩ := List.mem_filter.mp ha
      have hin := ((h.presence a).mp ((hsame a hlive).mp hcovering)).1
      simp [hin] at hnew
    rw [entryLogs_append_singleton, ← List.append_assoc, List.filter_append, hnone, List.append_nil]
    exact h.logs

/-- A call whose transaction committed: the areas it entered exist. -/
theorem committed (h : Follows db₀ userId db calls) {call : ReportCall}
    {result : TransactionResult} (happ : Applied call db db' result)
    (hcall : IsWorkerCall userId call)
    (hentered : ∀ a ∈ result.enteredAreaIds, db.hasArea a = true) :
    Follows db₀ userId db' (calls ++ [call]) := by
  have huser := hcall.userId
  have hlive : db'.hasArea = db.hasArea := by
    funext a
    rw [Database.hasArea, happ.areas, Database.hasArea]
  have hrows : ∀ a, a ∈ db.presence.areaIds userId →
      a ∈ lastCovering (db₀.presence.areaIds userId) calls ∧ db.hasArea a = true :=
    fun a => (h.presence a).mp
  have hexists : ∀ a ∈ call.currentAreaIds, db.hasArea a = true := by
    intro a ha
    by_cases hprev : a ∈ db.presence.areaIds userId
    · exact (hrows a hprev).2
    · exact hentered a ((happ.mem_entered a).mpr ⟨ha, by rwa [huser]⟩)
  constructor
  · intro a
    rw [lastCovering_append_singleton, ← huser, happ.mem_areaIds, hlive]
    exact ⟨fun ha => ⟨ha, hexists a ha⟩, And.left⟩
  · have hnew : ∀ a ∈ call.currentAreaIds, (a ∉ db.presence.areaIds userId ↔
        a ∉ lastCovering (db₀.presence.areaIds userId) calls) := by
      intro a ha
      rw [not_iff_not, h.presence a, and_iff_left (hexists a ha)]
    have hadded : (result.enteredAreaIds.map call.logRow).Perm
        ((call.currentAreaIds.filter fun a =>
          !(lastCovering (db₀.presence.areaIds userId) calls).contains a).map call.logRow) := by
      apply List.Perm.map
      refine (List.perm_ext_iff_of_nodup happ.nodup (hcall.nodup.filter _)).mpr fun a => ?_
      rw [happ.mem_entered, huser]
      simp only [List.mem_filter, Bool.not_eq_true', List.contains_eq_mem, decide_eq_false_iff_not]
      exact and_congr_right fun ha => hnew a ha
    have hkept : ((call.currentAreaIds.filter fun a =>
        !(lastCovering (db₀.presence.areaIds userId) calls).contains a).map call.logRow).filter
          (fun row => db.hasArea row.areaId) = (call.currentAreaIds.filter fun a =>
        !(lastCovering (db₀.presence.areaIds userId) calls).contains a).map call.logRow := by
      apply List.filter_eq_self.mpr
      intro row hrow
      obtain ⟨a, ha, rfl⟩ := List.mem_map.mp hrow
      exact hexists a (List.mem_filter.mp ha).1
    have hown : (result.enteredAreaIds.map call.logRow).filter (·.userId = userId) =
        result.enteredAreaIds.map call.logRow := by
      apply List.filter_eq_self.mpr
      intro row hrow
      obtain ⟨a, -, rfl⟩ := List.mem_map.mp hrow
      simp [ReportCall.logRow, huser]
    rw [happ.logs, List.filter_append, hown, entryLogs_append_singleton, ← List.append_assoc,
      List.filter_append, hlive, hkept]
    exact h.logs.append hadded

theorem createArea (h : Follows db₀ userId db calls) {row : AreaGeometryRow}
    (hcreate : db.createArea row = some db') (hrows : row.id ∉ lastCovering
      (db₀.presence.areaIds userId) calls)
    (hlogs : ∀ log ∈ db₀.logs.filter (·.userId = userId) ++
      entryLogs (db₀.presence.areaIds userId) calls, log.areaId ≠ row.id) :
    Follows db₀ userId db' calls := by
  obtain ⟨hareas, -, hpresence, hlogrows⟩ := Database.createArea_eq_some hcreate
  have hlive : ∀ a, a ≠ row.id → db'.hasArea a = db.hasArea a := by
    intro a hne
    simp [Database.hasArea, hareas, Ne.symm hne]
  constructor
  · intro a
    rw [hpresence, h.presence a]
    apply and_congr_right
    intro ha
    rw [hlive a fun heq => hrows (heq ▸ ha)]
  · rw [hlogrows]
    refine h.logs.trans (List.Perm.of_eq (List.filter_congr fun log hlog => ?_))
    rw [hlive _ (hlogs log hlog)]

theorem deleteArea (h : Follows db₀ userId db calls) {areaId : AreaId}
    (hdelete : db.deleteArea areaId = some db') : Follows db₀ userId db' calls := by
  have hdeleted := Database.deletes_of_deleteArea hdelete
  constructor
  · intro a
    rw [hdeleted.presence, h.presence a, hdeleted.hasArea, Bool.and_eq_true, decide_eq_true_iff]
    exact and_left_comm
  · have hperm := h.logs.filter fun row => decide (row.areaId ≠ areaId)
    rw [List.filter_filter, List.filter_filter] at hperm
    rw [hdeleted.logs, List.filter_filter]
    refine (List.Perm.of_eq (List.filter_congr fun row _ => Bool.and_comm _ _)).trans
      (hperm.trans (List.Perm.of_eq (List.filter_congr fun row _ => ?_)))
    exact (hdeleted.hasArea row.areaId).symm

end Follows

private theorem enterAreas_hasArea {pg : Postgres} {call : ReportCall} {db db' : Database}
    {areaIds inserted : List AreaId} (h : enterAreas pg call db areaIds = .ok (db', inserted)) :
    ∀ a ∈ inserted, db.hasArea a = true := by
  induction areaIds generalizing db inserted with
  | nil =>
    cases h
    simp
  | cons areaId rest ih =>
    rcases enterAreas_cons_eq_ok.mp h with ⟨-, hrest⟩ | ⟨-, harea, -, later, hrest, rfl⟩
    · exact ih hrest
    · intro a ha
      rcases List.mem_cons.mp ha with rfl | ha
      · exact harea
      · exact ih hrest a ha

private theorem transaction_hasArea {pg : Postgres} {call : ReportCall} {db db' : Database}
    {result : TransactionResult} (h : transaction pg call db = .ok (db', result)) :
    ∀ a ∈ result.enteredAreaIds, db.hasArea a = true := by
  unfold transaction at h
  cases hgate : dedupGate call db with
  | none =>
    simp only [hgate, pure, Except.pure, Except.ok.injEq, Prod.mk.injEq] at h
    rw [← h.2]
    simp
  | some gated =>
    cases henter : enterAreas pg call gated
        (call.entered (db.presence.areaIds call.dto.userId)) with
    | error e => simp [hgate, henter, bind, Except.bind] at h
    | ok r =>
      simp only [hgate, henter, bind, Except.bind, pure, Except.pure, Except.ok.injEq,
        Prod.mk.injEq] at h
      intro a ha
      rw [← h.2] at ha
      have harea := enterAreas_hasArea henter a ha
      rwa [Database.hasArea, (dedupGate_some hgate).2.2.1] at harea

/-- A value is the user's rows, deleted areas apart. -/
def RemembersLive (db : Database) (userId : UserId) (value : Option (List AreaId)) : Prop :=
  ∀ areaIds, value = some areaIds →
    ∀ a, db.hasArea a = true → (a ∈ areaIds ↔ a ∈ db.presence.areaIds userId)

theorem remembersLive_none {db : Database} {userId : UserId} : RemembersLive db userId none := by
  intro ids hids
  cases hids

/-- What the memory will be once the worker has heard from the server. -/
def anticipated (remembered : Option (List AreaId)) : Option ReportPhase → Option (List AreaId)
  | some (.committing call _) => some call.currentAreaIds
  | _ => remembered

/-- A transaction of the worker is never a duplicate. -/
def NoDuplicate : Option ReportPhase → Prop
  | some (.committing _ result) => result.duplicate = false
  | _ => True

/-- What a worker knows of a user it owns. -/
structure PhasedWorker.Tracks (userId : UserId) (st : PhasedWorker) : Prop where
  memory : RemembersLive st.db userId (anticipated (st.memory userId) (st.inFlight userId))
  applied : NoDuplicate (st.inFlight userId)

namespace PhasedWorker

theorem Tracks.frame {userId : UserId} {st t : PhasedWorker} (h : st.Tracks userId)
    (hrows : t.db.presence.areaIds userId = st.db.presence.areaIds userId)
    (hareas : t.db.areas = st.db.areas) (hmemory : t.memory userId = st.memory userId)
    (hphase : t.inFlight userId = st.inFlight userId) : t.Tracks userId := by
  refine ⟨?_, by rw [hphase]; exact h.applied⟩
  rw [hmemory, hphase]
  intro areaIds hids a hlive
  rw [hrows]
  rw [Database.hasArea, hareas] at hlive
  exact h.memory areaIds hids a hlive

theorem Tracks.setPhase {userId : UserId} {st : PhasedWorker} {phase : Option ReportPhase}
    (h : RemembersLive st.db userId (st.memory userId))
    (hphase : ∀ call result, phase ≠ some (.committing call result)) :
    (st.setPhase userId phase).Tracks userId := by
  constructor
  · rw [setPhase_inFlight_self]
    cases phase with
    | none => exact h
    | some phase =>
      cases phase with
      | committing call result => exact absurd rfl (hphase call result)
      | _ => exact h
  · rw [setPhase_inFlight_self]
    cases phase with
    | none => trivial
    | some phase =>
      cases phase with
      | committing call result => exact absurd rfl (hphase call result)
      | _ => trivial

section Own

variable {ext : Externals} {db₀ : Database} {userId : UserId} {calls : List ReportCall}
  {st t : PhasedWorker} {action : PhaseAction}

private theorem tracks_fork (st : PhasedWorker) (h : Follows db₀ userId st.db calls)
    {call : ReportCall} {hint : List AreaId} (hcall : IsWorkerCall userId call)
    (hmemory : st.memory userId = some hint)
    (hrem : RemembersLive st.db userId (st.memory userId)) :
    (st.fork call hint).Tracks userId ∧ Follows db₀ userId st.db
      (calls ++ if differs call.currentAreaIds hint then [] else [call]) := by
  constructor
  · rw [fork, hcall.userId]
    apply Tracks.setPhase hrem
    intro c result
    split <;> simp
  · cases hdiff : differs call.currentAreaIds hint with
    | true =>
      rw [if_pos rfl, List.append_nil]
      exact h
    | false =>
      rw [if_neg Bool.false_ne_true]
      apply h.unchanged
      intro a hlive
      rw [differs_eq_false hcall.nodup hdiff a]
      exact hrem hint hmemory a hlive

private theorem unsettled {db : Database} (h : Follows db₀ userId db calls) :
    Follows db₀ userId db (calls ++ []) := by
  rwa [List.append_nil]

/-- A step of the user's own call in the worker that owns the user. -/
theorem Tracks.step_own (h : st.Tracks userId) (hfollows : Follows db₀ userId st.db calls)
    (hst : step ext st action = some t) (hkeyed : Keyed st.inFlight)
    (huser : action.user? = some userId) (hheard : ∀ e, action ≠ .answer userId (some e)) :
    t.Tracks userId ∧ Follows db₀ userId t.db (calls ++ st.settles ext action) := by
  have hmemory := h.memory
  cases step_cases hst with
  | restart => cases huser
  | swapSnapshot snapshot => cases huser
  | createArea row db hdb => cases huser
  | refused event => exact ⟨h, unsettled hfollows⟩
  | called event call hidle hcall =>
    cases huser
    rw [hidle] at hmemory
    exact ⟨.setPhase hmemory (by simp), unsettled hfollows⟩
  | warm user call hint hphase hmem =>
    cases huser
    rw [hphase] at hmemory
    simp only [settles, hphase, hmem]
    exact tracks_fork st hfollows (hkeyed _ _ hphase) hmem hmemory
  | cold user call hphase hmem =>
    cases huser
    rw [hphase] at hmemory
    simp only [settles, hphase, hmem]
    exact ⟨.setPhase hmemory (by simp), unsettled hfollows⟩
  | seedFailed user call e hphase =>
    cases huser
    rw [hphase] at hmemory
    exact ⟨.setPhase hmemory (by simp), unsettled hfollows⟩
  | seeded user call hphase =>
    cases huser
    have hset : st.memory.set userId (st.db.presence.areaIds userId) userId =
        some (st.db.presence.areaIds userId) := Function.update_self ..
    simp only [settles, hphase]
    refine tracks_fork { st with
      memory := st.memory.set userId (st.db.presence.areaIds userId) } hfollows
      (hkeyed _ _ hphase) hset ?_
    intro areaIds hids a hlive
    have hrows : st.db.presence.areaIds userId = areaIds := Option.some.inj (hset.symm.trans hids)
    rw [← hrows]
  | rolledBack user call e hphase =>
    cases huser
    rw [hphase] at hmemory
    exact ⟨.setPhase hmemory (by simp), unsettled hfollows⟩
  | refusedByServer user call hphase =>
    cases huser
    rw [hphase] at hmemory
    have hnone : st.settles ext (.commit userId) = [] := by
      cases htx : transaction ext.pg call st.db with
      | error e => simp only [settles, hphase, htx]
      | ok r =>
        simp only [step, hphase, htx, Option.some.injEq] at hst
        have hidle := congrFun (congrArg PhasedWorker.inFlight hst) userId
        rw [setPhase_inFlight_self, setPhase_inFlight_self] at hidle
        cases hidle
    rw [hnone]
    exact ⟨.setPhase hmemory (by simp), unsettled hfollows⟩
  | committed user call db result hphase htx =>
    cases huser
    have hcall : IsWorkerCall userId call := hkeyed _ _ hphase
    have happ := transaction_applied hcall.deviceId htx
    simp only [settles, hphase, htx]
    refine ⟨⟨?_, ?_⟩, hfollows.committed happ hcall (transaction_hasArea htx)⟩
    · rw [setPhase_inFlight_self]
      intro areaIds hids a hlive
      cases hids
      have hrows := happ.mem_areaIds a
      rw [hcall.userId] at hrows
      exact hrows.symm
    · rw [setPhase_inFlight_self]
      exact happ.notDuplicate
  | lost user call result e hphase =>
    cases huser
    exact absurd rfl (hheard e)
  | answered user call result hphase =>
    cases huser
    have hdup := h.applied
    rw [hphase] at hmemory hdup
    refine ⟨.setPhase ?_ (by simp), unsettled hfollows⟩
    change RemembersLive st.db userId ((if result.duplicate then st.memory
      else st.memory.set userId call.currentAreaIds) userId)
    rw [show result.duplicate = false from hdup, if_neg Bool.false_ne_true, PresenceMemory.set,
      Function.update_self]
    exact hmemory
  | invalidated user call hphase =>
    cases huser
    rw [hphase] at hmemory
    exact ⟨.setPhase hmemory (by simp), unsettled hfollows⟩

end Own

/-- The areas a worker can bring up for a user are known. -/
structure Mentions (known : AreaId → Bool) (userId : UserId) (st : PhasedWorker) : Prop where
  snapshot : ∀ s, st.snapshot = some s → ∀ a ∈ s.areas.ids, known a = true
  memory : ∀ areaIds, st.memory userId = some areaIds → ∀ a ∈ areaIds, known a = true
  calls : ∀ phase, st.inFlight userId = some phase →
    ∀ a ∈ phase.reportCall.currentAreaIds, known a = true

namespace Mentions

variable {known : AreaId → Bool} {userId : UserId} {st : PhasedWorker}

theorem mono (h : st.Mentions known userId) {more : AreaId → Bool}
    (hmore : ∀ a, known a = true → more a = true) : st.Mentions more userId :=
  ⟨fun s hs a ha => hmore a (h.snapshot s hs a ha),
    fun ids hids a ha => hmore a (h.memory ids hids a ha),
    fun phase hphase a ha => hmore a (h.calls phase hphase a ha)⟩

theorem anticipated (h : st.Mentions known userId) {areaIds : List AreaId}
    (hids : Geofence.anticipated (st.memory userId) (st.inFlight userId) = some areaIds) :
    ∀ a ∈ areaIds, known a = true := by
  unfold Geofence.anticipated at hids
  split at hids
  · rename_i call result hphase
    cases hids
    exact h.calls _ hphase
  · exact h.memory areaIds hids

theorem setPhase (h : st.Mentions known userId) {phase : Option ReportPhase}
    (hphase : ∀ p, phase = some p → ∀ a ∈ p.reportCall.currentAreaIds, known a = true) :
    (st.setPhase userId phase).Mentions known userId := by
  refine ⟨h.snapshot, h.memory, ?_⟩
  intro p hp
  rw [setPhase_inFlight_self] at hp
  exact hphase p hp

theorem idle (h : st.Mentions known userId) : (st.setPhase userId none).Mentions known userId :=
  h.setPhase fun _ hp => by cases hp

theorem moved (h : st.Mentions known userId) {before after : ReportPhase}
    (hphase : st.inFlight userId = some before) (hcall : after.reportCall = before.reportCall) :
    (st.setPhase userId (some after)).Mentions known userId := by
  refine h.setPhase fun p hp => ?_
  cases hp
  rw [hcall]
  exact h.calls before hphase

theorem remember (h : st.Mentions known userId) {areaIds : List AreaId}
    (hids : ∀ a ∈ areaIds, known a = true) :
    ({ st with memory := st.memory.set userId areaIds } : PhasedWorker).Mentions known userId := by
  refine ⟨h.snapshot, ?_, h.calls⟩
  intro ids hset
  change st.memory.set userId areaIds userId = some ids at hset
  rw [PresenceMemory.set, Function.update_self, Option.some.injEq] at hset
  exact hset ▸ hids

theorem fork (h : st.Mentions known userId) {call : ReportCall} (hcall : call.dto.userId = userId)
    (hids : ∀ a ∈ call.currentAreaIds, known a = true) (hint : List AreaId) :
    (st.fork call hint).Mentions known userId := by
  rw [PhasedWorker.fork, hcall]
  refine h.setPhase fun p hp => ?_
  split at hp
  · cases hp
    exact hids
  · cases hp

theorem step_own (h : st.Mentions known userId) {ext : Externals} {t : PhasedWorker}
    {action : PhaseAction} (hstep : PhaseStep ext st action t) (hkeyed : Keyed st.inFlight)
    (huser : action.user? = some userId)
    (hrows : ∀ a ∈ st.db.presence.areaIds userId, known a = true) :
    t.Mentions known userId := by
  cases hstep with
  | restart => cases huser
  | swapSnapshot snapshot => cases huser
  | createArea row db hdb => cases huser
  | refused event => exact h
  | called event call hidle hcall =>
    cases huser
    refine h.setPhase fun p hp a ha => ?_
    cases hp
    obtain ⟨s, hs, hserved⟩ := serves_of_callOf hcall ha
    exact h.snapshot s hs a hserved
  | warm user call hint hphase hmem =>
    cases huser
    exact h.fork (hkeyed _ _ hphase).userId (h.calls _ hphase) hint
  | cold user call hphase hmem =>
    cases huser
    exact h.moved hphase rfl
  | seedFailed user call e hphase =>
    cases huser
    exact h.idle
  | seeded user call hphase =>
    cases huser
    exact (h.remember hrows).fork (hkeyed _ _ hphase).userId (h.calls _ hphase) _
  | rolledBack user call e hphase =>
    cases huser
    exact h.idle
  | refusedByServer user call hphase =>
    cases huser
    exact h.idle
  | committed user call db result hphase htx =>
    cases huser
    have hmoved : (st.setPhase userId (some (.committing call result))).Mentions known userId :=
      h.moved hphase rfl
    exact ⟨h.snapshot, h.memory, hmoved.calls⟩
  | lost user call result e hphase =>
    cases huser
    exact h.idle
  | answered user call result hphase =>
    cases huser
    cases result.duplicate with
    | true => exact h.moved hphase rfl
    | false =>
      have hremembered := h.remember (h.calls _ hphase)
      exact hremembered.moved hphase rfl
  | invalidated user call hphase =>
    cases huser
    exact h.idle

end Mentions

theorem mem_settles {ext : Externals} {st : PhasedWorker} {action : PhaseAction}
    {call : ReportCall} (h : call ∈ st.settles ext action) :
    ∃ userId phase, action.user? = some userId ∧ st.inFlight userId = some phase ∧
      phase.reportCall = call := by
  unfold settles at h
  split at h
  · rename_i userId
    split at h
    · rename_i c hint hphase hmem
      split at h
      · cases h
      · cases List.mem_singleton.mp h
        exact ⟨userId, _, rfl, hphase, rfl⟩
    · cases h
  · rename_i userId
    split at h
    · rename_i c hphase
      split at h
      · cases h
      · cases List.mem_singleton.mp h
        exact ⟨userId, _, rfl, hphase, rfl⟩
    · cases h
  · rename_i userId
    split at h
    · rename_i c hphase
      split at h
      · cases h
      · cases List.mem_singleton.mp h
        exact ⟨userId, _, rfl, hphase, rfl⟩
    · cases h
  · cases h

theorem settles_filter_own {ext : Externals} {st : PhasedWorker} {action : PhaseAction}
    (hkeyed : Keyed st.inFlight) {userId : UserId} (huser : action.user? = some userId) :
    (st.settles ext action).filter (·.dto.userId = userId) = st.settles ext action := by
  apply List.filter_eq_self.mpr
  intro call hcall
  obtain ⟨user, phase, hmoved, hphase, rfl⟩ := mem_settles hcall
  cases huser.symm.trans hmoved
  exact decide_eq_true (hkeyed _ _ hphase).userId

theorem settles_filter_of_ne {ext : Externals} {st : PhasedWorker} {action : PhaseAction}
    (hkeyed : Keyed st.inFlight) {userId user : UserId} (huser : action.user? = some user)
    (hne : userId ≠ user) : (st.settles ext action).filter (·.dto.userId = userId) = [] := by
  apply List.filter_eq_nil_iff.mpr
  intro call hcall hcalluser
  obtain ⟨moved, phase, hmoved, hphase, rfl⟩ := mem_settles hcall
  cases huser.symm.trans hmoved
  exact hne ((of_decide_eq_true hcalluser).symm.trans (hkeyed _ _ hphase).userId)

private theorem PhaseStep.snapshot_eq {ext : Externals} {st t : PhasedWorker} {action : PhaseAction}
    (hstep : PhaseStep ext st action t) {userId : UserId} (huser : action.user? = some userId) :
    t.snapshot = st.snapshot := by
  cases hstep with
  | swapSnapshot snapshot => cases huser
  | _ => rfl

/-- A worker writes to the tables only with a transaction of the user it moves. -/
theorem PhaseStep.tables {ext : Externals} {st t : PhasedWorker} {action : PhaseAction}
    (hstep : PhaseStep ext st action t) (hkeyed : Keyed st.inFlight) {userId : UserId}
    (huser : action.user? = some userId) :
    t.db = st.db ∨ ∃ call result, IsWorkerCall userId call ∧ Applied call st.db t.db result := by
  cases hstep with
  | createArea row db hdb => cases huser
  | committed user call db result hphase htx =>
    cases huser
    have hcall : IsWorkerCall userId call := hkeyed _ _ hphase
    exact Or.inr ⟨call, result, hcall, transaction_applied hcall.deviceId htx⟩
  | _ => exact Or.inl rfl

end PhasedWorker

namespace WorkerFleet

variable {ω : Type} {ext : Externals} {assignment : PartitionAssignment ω} {db₀ : Database}
  {userId : UserId} {st t : WorkerFleet ω}

/-- What holds of a user in every state of a fleet in which nobody else owns the user. -/
structure Kept (assignment : PartitionAssignment ω) (db₀ : Database) (userId : UserId)
    (st : WorkerFleet ω) : Prop where
  keyed : ∀ w, Keyed (st.workers w).inFlight
  owned : ∀ w user, assignment.owns w user = false →
    (st.workers w).memory user = none ∧ (st.workers w).inFlight user = none
  mentions : ∀ w, (st.view w).Mentions st.known userId
  applied : ∀ call ∈ st.applied, call.dto.userId = userId →
    ∀ a ∈ call.currentAreaIds, st.known a = true
  initial : (∀ a ∈ db₀.presence.areaIds userId, st.known a = true) ∧
    ∀ log ∈ db₀.logs, st.known log.areaId = true
  tracks : ∀ w, (st.view w).Tracks userId
  follows : Follows db₀ userId st.db (st.applied.filter (·.dto.userId = userId))

theorem known_iff {a : AreaId} : st.known a = true ↔ a ∈ st.db.areas.ids ∨ a ∈ st.deleted := by
  simp [known]

theorem put_view_self [DecidableEq ω] {w : ω} {next : PhasedWorker} {calls : List ReportCall} :
    (st.put w next calls).view w = next := by
  simp only [view, put, Function.update_self]

theorem put_view_of_ne [DecidableEq ω] {w other : ω} {next : PhasedWorker}
    {calls : List ReportCall} (hne : other ≠ w) :
    (st.put w next calls).view other = { st.view other with db := next.db } := by
  simp only [view, put, Function.update_of_ne hne]

theorem kept_start (hdb₀ : db₀.Referential) :
    (start db₀ : WorkerFleet ω).Kept assignment db₀ userId := by
  have hknown : ∀ a, db₀.hasArea a = true → (start db₀ : WorkerFleet ω).known a = true :=
    fun a ha => known_iff.mpr (Or.inl (Database.hasArea_iff.mp ha))
  refine ⟨?_, fun w user hnot => ⟨rfl, rfl⟩, fun w => ⟨?_, ?_, ?_⟩, ?_,
    ⟨fun a ha => hknown a (hdb₀.presence _ a ha), fun log hlog => hknown _ (hdb₀.logs log hlog)⟩,
    fun w => ⟨remembersLive_none, trivial⟩, .start hdb₀⟩
  · intro w user phase hphase
    cases hphase
  · intro s hs
    cases hs
  · intro ids hids
    cases hids
  · intro phase hphase
    cases hphase
  · intro call hcall
    cases hcall

namespace Kept

theorem covered (h : st.Kept assignment db₀ userId) :
    ∀ a ∈ lastCovering (db₀.presence.areaIds userId)
      (st.applied.filter (·.dto.userId = userId)), st.known a = true := by
  intro a ha
  unfold lastCovering at ha
  cases hlast : (st.applied.filter (·.dto.userId = userId)).getLast? with
  | none =>
    rw [hlast] at ha
    exact h.initial.1 a ha
  | some call =>
    rw [hlast] at ha
    obtain ⟨hcall, huser⟩ := List.mem_filter.mp (List.mem_of_getLast? hlast)
    exact h.applied call hcall (of_decide_eq_true huser) a ha

theorem logged (h : st.Kept assignment db₀ userId) :
    ∀ log ∈ db₀.logs.filter (·.userId = userId) ++ entryLogs (db₀.presence.areaIds userId)
      (st.applied.filter (·.dto.userId = userId)), st.known log.areaId = true := by
  intro log hlog
  rcases List.mem_append.mp hlog with hold | hentry
  · exact h.initial.2 log (List.mem_filter.mp hold).1
  · obtain ⟨call, hcall, hid⟩ := exists_of_mem_entryLogs hentry
    obtain ⟨happlied, huser⟩ := List.mem_filter.mp hcall
    exact h.applied call happlied (of_decide_eq_true huser) _ hid

theorem rows (h : st.Kept assignment db₀ userId) :
    ∀ a ∈ st.db.presence.areaIds userId, st.known a = true := by
  intro a ha
  have hlive := ((h.follows.presence a).mp ha).2
  exact known_iff.mpr (Or.inl (Database.hasArea_iff.mp hlive))

theorem of_tables (h : st.Kept assignment db₀ userId) {db : Database} {deleted : List AreaId}
    (hknown : ∀ a, st.known a = true → ({ st with db, deleted } : WorkerFleet ω).known a = true)
    (hfollows : Follows db₀ userId db (st.applied.filter (·.dto.userId = userId)))
    (hlive : ∀ a, st.known a = true → db.hasArea a = true →
      st.db.hasArea a = true ∧
        (a ∈ db.presence.areaIds userId ↔ a ∈ st.db.presence.areaIds userId))
    (hnew : ∀ a, db.hasArea a = true → st.known a = false → a ∉ db.presence.areaIds userId) :
    ({ st with db, deleted } : WorkerFleet ω).Kept assignment db₀ userId where
  keyed := h.keyed
  owned := h.owned
  mentions w := ⟨((h.mentions w).mono hknown).snapshot, ((h.mentions w).mono hknown).memory,
    ((h.mentions w).mono hknown).calls⟩
  applied call hcall huser a ha := hknown a (h.applied call hcall huser a ha)
  initial := ⟨fun a ha => hknown a (h.initial.1 a ha),
    fun log hlog => hknown _ (h.initial.2 log hlog)⟩
  tracks w := by
    refine ⟨?_, (h.tracks w).applied⟩
    intro ids hids a ha
    change db.hasArea a = true at ha
    change a ∈ ids ↔ a ∈ db.presence.areaIds userId
    cases hold : st.known a with
    | true =>
      obtain ⟨hthere, hsame⟩ := hlive a hold ha
      rw [hsame]
      exact (h.tracks w).memory ids hids a hthere
    | false =>
      refine iff_of_false (fun hin => ?_) (hnew a ha hold)
      rw [(h.mentions w).anticipated hids a hin] at hold
      cases hold
  follows := hfollows

theorem createArea (h : st.Kept assignment db₀ userId) {row : AreaGeometryRow} {db : Database}
    (hfresh : row.id ∉ st.deleted) (hcreate : st.db.createArea row = some db) :
    ({ st with db } : WorkerFleet ω).Kept assignment db₀ userId := by
  have hids := mem_ids_create hcreate
  have hpresence := (Database.createArea_eq_some hcreate).2.2.1
  have hunknown : st.known row.id = false := by
    rw [Bool.eq_false_iff, ne_eq, known_iff, not_or]
    exact ⟨notMem_ids_of_create hcreate, hfresh⟩
  refine h.of_tables ?_ ?_ ?_ ?_
  · intro a ha
    rw [known_iff] at ha ⊢
    exact ha.imp_left fun hthere => (hids a).mpr (Or.inl hthere)
  · apply h.follows.createArea hcreate
    · intro hin
      rw [h.covered _ hin] at hunknown
      cases hunknown
    · intro log hlog heq
      rw [← heq, h.logged log hlog] at hunknown
      cases hunknown
  · intro a hknown hlive
    refine ⟨?_, by rw [hpresence]⟩
    rcases (hids a).mp (Database.hasArea_iff.mp hlive) with hthere | rfl
    · exact Database.hasArea_iff.mpr hthere
    · rw [hknown] at hunknown
      cases hunknown
  · intro a _ hnot hin
    rw [hpresence] at hin
    rw [h.rows a hin] at hnot
    cases hnot

theorem deleteArea (h : st.Kept assignment db₀ userId) {areaId : AreaId} {db : Database}
    (hdelete : st.db.deleteArea areaId = some db) :
    ({ st with db, deleted := st.deleted ++ [areaId] } : WorkerFleet ω).Kept assignment db₀
      userId := by
  have hdeleted := Database.deletes_of_deleteArea hdelete
  have hids := mem_ids_delete hdelete
  have hbefore : ∀ a, db.hasArea a = true → a ≠ areaId ∧ st.db.hasArea a = true := by
    intro a ha
    rwa [hdeleted.hasArea, Bool.and_eq_true, decide_eq_true_iff] at ha
  refine h.of_tables ?_ (h.follows.deleteArea hdelete) ?_ ?_
  · intro a ha
    rw [known_iff] at ha ⊢
    by_cases heq : a = areaId
    · exact Or.inr (by simp [heq])
    · exact ha.imp (fun hthere => (hids a).mpr ⟨hthere, heq⟩)
        (fun hgone => List.mem_append_left _ hgone)
  · intro a _ hlive
    obtain ⟨hne, hthere⟩ := hbefore a hlive
    exact ⟨hthere, (hdeleted.presence userId a).trans (and_iff_right hne)⟩
  · intro a hlive hnot
    have hthere := Database.hasArea_iff.mp (hbefore a hlive).2
    rw [known_iff.mpr (Or.inl hthere)] at hnot
    cases hnot

theorem owns_of_step (h : st.Kept assignment db₀ userId) {w : ω} {action : PhaseAction}
    {user : UserId} {next : PhasedWorker} (hadmits : st.admits assignment w action = true)
    (hstep : PhasedWorker.PhaseStep ext (st.view w) action next)
    (huser : action.user? = some user) : assignment.owns w user = true := by
  have hbusy : ∀ phase, (st.workers w).inFlight user = some phase →
      assignment.owns w user = true := by
    intro phase hphase
    by_contra hnot
    rw [(h.owned w user (by simpa using hnot)).2] at hphase
    cases hphase
  cases hstep with
  | restart => cases huser
  | swapSnapshot snapshot => cases huser
  | createArea row db hdb => cases huser
  | refused event | called event call hidle hcall =>
    cases huser
    exact hadmits
  | warm _ _ _ hphase _ | cold _ _ hphase _ | seedFailed _ _ _ hphase | seeded _ _ hphase
  | rolledBack _ _ _ hphase | refusedByServer _ _ hphase | committed _ _ _ _ hphase _
  | lost _ _ _ _ hphase | answered _ _ _ hphase | invalidated _ _ hphase =>
    cases huser
    exact hbusy _ hphase

section Put

variable [DecidableEq ω] {w : ω} {next : PhasedWorker} {calls : List ReportCall}

/-- What a step of one worker has to keep. -/
theorem put (h : st.Kept assignment db₀ userId) (hareas : next.db.areas = st.db.areas)
    (hkeyed : Keyed next.inFlight)
    (howned : ∀ user, assignment.owns w user = false →
      next.memory user = none ∧ next.inFlight user = none)
    (hmentions : next.Mentions st.known userId)
    (happlied : ∀ call ∈ calls, call.dto.userId = userId →
      ∀ a ∈ call.currentAreaIds, st.known a = true)
    (htracks : next.Tracks userId)
    (hothers : ∀ other, other ≠ w → ({ st.view other with db := next.db } : PhasedWorker).Tracks
      userId)
    (hfollows : Follows db₀ userId next.db
      (st.applied.filter (·.dto.userId = userId) ++ calls.filter (·.dto.userId = userId))) :
    (st.put w next calls).Kept assignment db₀ userId := by
  have hknown : (st.put w next calls).known = st.known := by
    funext a
    simp only [known, WorkerFleet.put, hareas]
  refine ⟨?_, ?_, ?_, ?_, by rw [hknown]; exact h.initial, ?_, ?_⟩
  · intro other
    by_cases heq : other = w
    · subst heq
      simpa only [WorkerFleet.put, Function.update_self] using hkeyed
    · simpa only [WorkerFleet.put, Function.update_of_ne heq] using h.keyed other
  · intro other user hnot
    by_cases heq : other = w
    · subst heq
      simpa only [WorkerFleet.put, Function.update_self] using howned user hnot
    · simpa only [WorkerFleet.put, Function.update_of_ne heq] using h.owned other user hnot
  · intro other
    rw [hknown]
    by_cases heq : other = w
    · rw [heq, put_view_self]
      exact hmentions
    · rw [put_view_of_ne heq]
      exact ⟨(h.mentions other).snapshot, (h.mentions other).memory, (h.mentions other).calls⟩
  · intro call hcall huser a ha
    rw [hknown]
    rcases List.mem_append.mp hcall with hold | hnew
    · exact h.applied call hold huser a ha
    · exact happlied call hnew huser a ha
  · intro other
    by_cases heq : other = w
    · rw [heq, put_view_self]
      exact htracks
    · rw [put_view_of_ne heq]
      exact hothers other heq
  · have hcalls : (st.put w next calls).applied = st.applied ++ calls := rfl
    rw [hcalls, List.filter_append]
    exact hfollows

theorem step_own (h : st.Kept assignment db₀ userId) (hexclusive : assignment.Exclusive)
    {action : PhaseAction} (hadmits : st.admits assignment w action = true)
    (hst : (st.view w).step ext action = some next) (huser : action.user? = some userId)
    (hheard : ∀ e, action ≠ .answer userId (some e)) :
    (st.put w next ((st.view w).settles ext action)).Kept assignment db₀ userId := by
  have hstep := PhasedWorker.step_cases hst
  have howns := h.owns_of_step hadmits hstep huser
  obtain ⟨htracks, hfollows⟩ :=
    (h.tracks w).step_own h.follows hst (h.keyed w) huser hheard
  have hsettled : ∀ call ∈ (st.view w).settles ext action, ∃ phase,
      (st.workers w).inFlight userId = some phase ∧ phase.reportCall = call := by
    intro call hcall
    obtain ⟨user, phase, hmoved, hphase, hreport⟩ := PhasedWorker.mem_settles hcall
    cases huser.symm.trans hmoved
    exact ⟨phase, hphase, hreport⟩
  have hareas : next.db.areas = st.db.areas := by
    rcases hstep.tables (h.keyed w) huser with hsame | ⟨call, result, -, happ⟩
    · rw [hsame]
      rfl
    · exact happ.areas
  have hmentions := (h.mentions w).step_own hstep (h.keyed w) huser h.rows
  refine h.put hareas ((h.keyed w).step hstep) ?_ hmentions ?_ htracks ?_ ?_
  · intro user hnot
    have hne : user ≠ userId := by
      rintro rfl
      rw [howns] at hnot
      cases hnot
    obtain ⟨hphase, hmemory, -⟩ := hstep.of_ne (h.keyed w) huser hne
    rw [hmemory, hphase]
    exact h.owned w user hnot
  · intro call hcall _ a ha
    obtain ⟨phase, hphase, rfl⟩ := hsettled call hcall
    exact (h.mentions w).calls phase hphase a ha
  · intro other hne
    have hnot : assignment.owns other userId = false := by
      rw [Bool.eq_false_iff]
      exact fun hother => hne (hexclusive userId other w hother howns)
    obtain ⟨hmemory, hphase⟩ := h.owned other userId hnot
    constructor
    · change RemembersLive next.db userId
        (anticipated ((st.workers other).memory userId) ((st.workers other).inFlight userId))
      rw [hmemory, hphase]
      exact remembersLive_none
    · change NoDuplicate ((st.workers other).inFlight userId)
      rw [hphase]
      trivial
  · rw [PhasedWorker.settles_filter_own (h.keyed w) huser]
    exact hfollows

private theorem step_other (h : st.Kept assignment db₀ userId) {action : PhaseAction}
    {user : UserId} (hadmits : st.admits assignment w action = true)
    (hst : (st.view w).step ext action = some next) (huser : action.user? = some user)
    (hne : userId ≠ user) :
    (st.put w next ((st.view w).settles ext action)).Kept assignment db₀ userId := by
  have hstep := PhasedWorker.step_cases hst
  have howns := h.owns_of_step hadmits hstep huser
  obtain ⟨hphase, hmemory, hrows⟩ := hstep.of_ne (h.keyed w) huser hne
  have htables : next.db.areas = st.db.areas ∧ next.db.logs.filter (·.userId = userId) =
      st.db.logs.filter (·.userId = userId) := by
    rcases hstep.tables (h.keyed w) huser with hsame | ⟨call, result, hcall, happ⟩
    · rw [hsame]
      exact ⟨rfl, rfl⟩
    · refine ⟨happ.areas, ?_⟩
      have hnone : (result.enteredAreaIds.map call.logRow).filter (·.userId = userId) = [] := by
        simp [List.filter_map, Function.comp_def, ReportCall.logRow, hcall.userId, Ne.symm hne]
      rw [happ.logs, List.filter_append, hnone, List.append_nil]
      rfl
  have hsnapshot : next.snapshot = (st.view w).snapshot := hstep.snapshot_eq huser
  refine h.put htables.1 ((h.keyed w).step hstep) ?_ ?_ ?_ ?_ ?_ ?_
  · intro other hnot
    have hother : other ≠ user := by
      rintro rfl
      rw [howns] at hnot
      cases hnot
    obtain ⟨hphase', hmemory', -⟩ := hstep.of_ne (h.keyed w) huser hother
    rw [hmemory', hphase']
    exact h.owned w other hnot
  · have hm := h.mentions w
    exact ⟨by rw [hsnapshot]; exact hm.snapshot, by rw [hmemory]; exact hm.memory,
      by rw [hphase]; exact hm.calls⟩
  · intro call hcall hcalluser
    obtain ⟨moved, phase, hmoved, hcallphase, rfl⟩ := PhasedWorker.mem_settles hcall
    cases huser.symm.trans hmoved
    exact absurd (hcalluser.symm.trans (h.keyed w _ _ hcallphase).userId) hne
  · exact (h.tracks w).frame hrows htables.1 hmemory hphase
  · intro other _
    exact (h.tracks other).frame hrows htables.1 rfl rfl
  · rw [PhasedWorker.settles_filter_of_ne (h.keyed w) huser hne, List.append_nil]
    exact h.follows.frame hrows htables.2 htables.1

theorem step_idle (h : st.Kept assignment db₀ userId) {action : PhaseAction}
    (hadmits : st.admits assignment w action = true)
    (hst : (st.view w).step ext action = some next) (huser : action.user? = none) :
    (st.put w next ((st.view w).settles ext action)).Kept assignment db₀ userId := by
  have hm := h.mentions w
  have hsame : ∀ other, other ≠ w → ({ st.view other with db := st.db } : PhasedWorker).Tracks
      userId := fun other _ => h.tracks other
  have hfollows : Follows db₀ userId st.db (st.applied.filter (·.dto.userId = userId) ++
      ([] : List ReportCall).filter (·.dto.userId = userId)) := by
    rw [List.filter_nil, List.append_nil]
    exact h.follows
  cases PhasedWorker.step_cases hst with
  | restart =>
    refine h.put rfl ?_ (fun user _ => ⟨rfl, rfl⟩) ⟨hm.snapshot, ?_, ?_⟩ ?_
      ⟨remembersLive_none, trivial⟩ hsame hfollows
    · intro user phase hphase
      cases hphase
    · intro ids hids
      cases hids
    · intro phase hphase
      cases hphase
    · intro call hcall
      cases hcall
  | swapSnapshot snapshot =>
    refine h.put rfl (h.keyed w) (h.owned w) ⟨?_, hm.memory, hm.calls⟩ ?_
      ⟨(h.tracks w).memory, (h.tracks w).applied⟩ hsame hfollows
    · intro s hs
      cases hs
      exact List.all_eq_true.mp hadmits
    · intro call hcall
      cases hcall
  | createArea row db hdb => cases hadmits
  | _ => cases huser

end Put

theorem step [DecidableEq ω] (h : st.Kept assignment db₀ userId)
    (hexclusive : assignment.Exclusive) {action : FleetAction ω}
    (hheard : action.losesCommit userId = false)
    (hst : WorkerFleet.step ext assignment st action = some t) :
    t.Kept assignment db₀ userId := by
  cases action with
  | createArea row =>
    simp only [WorkerFleet.step] at hst
    split at hst
    · cases hst
    · rename_i hfresh
      obtain ⟨db, hcreate, rfl⟩ := Option.map_eq_some_iff.mp hst
      exact h.createArea hfresh hcreate
  | deleteArea areaId =>
    obtain ⟨db, hdelete, rfl⟩ := Option.map_eq_some_iff.mp hst
    exact h.deleteArea hdelete
  | worker w action =>
    simp only [WorkerFleet.step] at hst
    split at hst
    · rename_i hadmits
      obtain ⟨next, hnext, rfl⟩ := Option.map_eq_some_iff.mp hst
      cases huser : action.user? with
      | none => exact h.step_idle hadmits hnext huser
      | some user =>
        by_cases hu : userId = user
        · subst hu
          refine h.step_own hexclusive hadmits hnext huser fun e heq => ?_
          subst heq
          simp [FleetAction.losesCommit, PhaseAction.losesCommit] at hheard
        · exact h.step_other hadmits hnext huser hu
    · cases hst

theorem agreesFor (h : st.Kept assignment db₀ userId) : st.AgreesFor userId := by
  intro w hidle ids hids
  have hmemory := (h.tracks w).memory
  simp only [view, hidle] at hmemory
  exact hmemory ids hids

end Kept

end WorkerFleet

end Geofence
