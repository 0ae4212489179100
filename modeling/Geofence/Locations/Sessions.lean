import Geofence.Framework.Machine
import Geofence.Locations.Report
import Mathlib.Data.Fintype.Basic
/-!
# Concurrent transactions, statement by statement

Any number of processes run the change path at the same time. Each statement reads the
committed tables with its own session's writes replayed over them (READ COMMITTED), writes stay
in the session until its COMMIT, the advisory lock is held to the end of the transaction, and a
statement waits while another open session has written the row it would write. The advisory
lock alone makes every COMMIT the atomic `transaction` on the tables it commits to.
-/

namespace Geofence

open Framework

inductive Write where
  | presence (row : PresenceRow)
  | log (row : LogRow)
  | delete (userId : UserId) (departed : List AreaId)
  | eventState (row : EventStateRow)

namespace Write

def apply (db : Database) : Write → Database
  | .presence row => { db with presence := (db.presence.insertOnConflictDoNothing row).1 }
  | .log row => { db with logs := db.logs ++ [row] }
  | .delete userId departed => { db with presence := db.presence.deleteAreas userId departed }
  | .eventState row => { db with eventState := db.eventState.upsert row }

/-- Two writes to one row, or to one unique key. -/
def conflicts : Write → Write → Bool
  | .presence row, .presence other => row.key = other.key
  | .presence row, .delete userId departed => row.userId = userId && departed.contains row.areaId
  | .delete userId departed, .presence row => row.userId = userId && departed.contains row.areaId
  | .delete userId departed, .delete other areaIds => userId = other && departed.any areaIds.contains
  | .eventState row, .eventState other => row.key = other.key
  | _, _ => false

end Write

/-- The tables with a session's writes replayed over them. -/
def Database.replay (db : Database) (writes : List Write) : Database :=
  writes.foldl Write.apply db

theorem Database.replay_append (db : Database) (first second : List Write) :
    db.replay (first ++ second) = (db.replay first).replay second :=
  List.foldl_append ..

/-- The next statement of an open transaction. `inserting _ []` is the end of the insert loop,
before the exit delete is decided. -/
inductive TransactionPc where
  | lock
  | readPresence
  | selectLastSeq (previous : List AreaId)
  | upsertLastSeq (previous : List AreaId)
  | inserting (previous remaining inserted : List AreaId)
  | logging (previous : List AreaId) (areaId : AreaId) (remaining inserted : List AreaId)
  | deleting (previous inserted : List AreaId)
  | commit (result : TransactionResult)

/-- An open transaction: what it has written, and the rows its DELETE removed. -/
structure Session where
  call : ReportCall
  pc : TransactionPc
  writes : List Write
  deleted : List (UserId × AreaId)

namespace Session

def userId (s : Session) : UserId := s.call.dto.userId

def opened (call : ReportCall) : Session := ⟨call, .lock, [], []⟩

/-- Past its first statement the session holds its user's advisory lock. -/
def holdsLock (s : Session) : Bool :=
  match s.pc with
  | .lock => false
  | _ => true

/-- The row write the next statement makes, if it makes one. -/
def nextWrite (s : Session) : Option Write :=
  match s.pc with
  | .upsertLastSeq _ =>
    match s.call.dto.deviceId, s.call.dto.seq with
    | some deviceId, some seq => some (.eventState ⟨s.userId, deviceId, seq, s.call.recordedAt⟩)
    | _, _ => none
  | .inserting _ (areaId :: _) _ => some (.presence (s.call.presenceRow areaId))
  | .logging _ areaId _ _ => some (.log (s.call.logRow areaId))
  | .deleting previous _ => some (.delete s.userId (s.call.departed previous))
  | _ => none

def goto (s : Session) (pc : TransactionPc) : Session := { s with pc }

def write (s : Session) (write : Write) : Session := { s with writes := s.writes ++ [write] }

/-- The diff against the authoritative read, then the insert loop. -/
def startLoop (s : Session) (previous : List AreaId) : Session :=
  s.goto (.inserting previous (s.call.entered previous) [])

/-- After the last statement: the result the transaction body returns. -/
def finish (s : Session) (previous inserted : List AreaId) : Session :=
  s.goto (.commit ⟨inserted, false,
    decide (0 < inserted.length) || decide (0 < (s.call.departed previous).length)⟩)

/-- The next statement, on the tables the session sees; the errors abort the transaction. -/
def exec (pg : Postgres) (db : Database) (s : Session) : Except PgError Session :=
  let view := db.replay s.writes
  match s.pc with
  | .lock => .ok (s.goto .readPresence)
  | .readPresence =>
    let previous := view.presence.areaIds s.userId
    match s.call.dto.deviceId, s.call.dto.seq with
    | some _, some _ => .ok (s.goto (.selectLastSeq previous))
    | _, _ => .ok (s.startLoop previous)
  | .selectLastSeq previous =>
    match s.call.dto.deviceId, s.call.dto.seq with
    | some deviceId, some seq =>
      if (view.eventState.lastSeq? s.userId deviceId).any fun last => decide (seq ≤ last) then
        .ok (s.goto (.commit ⟨[], true, false⟩))
      else .ok (s.goto (.upsertLastSeq previous))
    | _, _ => .ok s
  | .upsertLastSeq previous =>
    match s.nextWrite with
    | some write => .ok ((s.write write).startLoop previous)
    | none => .ok s
  | .inserting previous [] inserted =>
    if 0 < (s.call.departed previous).length then .ok (s.goto (.deleting previous inserted))
    else .ok (s.finish previous inserted)
  | .inserting previous (areaId :: rest) inserted =>
    match view.insertPresence (s.call.presenceRow areaId) with
    | .error e => .error e
    | .ok (_, returned) =>
      if 0 < returned.length then
        .ok ((s.write (.presence (s.call.presenceRow areaId))).goto
          (.logging previous areaId rest inserted))
      else .ok (s.goto (.inserting previous rest inserted))
  | .logging previous areaId rest inserted =>
    match view.insertLog pg (s.call.logRow areaId) with
    | .error e => .error e
    | .ok _ =>
      .ok ((s.write (.log (s.call.logRow areaId))).goto
        (.inserting previous rest (inserted ++ [areaId])))
  | .deleting previous inserted =>
    let departed := s.call.departed previous
    .ok ({ s with
      writes := s.writes ++ [Write.delete s.userId departed]
      deleted := view.presence.deletedKeys s.userId departed }.finish previous inserted)
  | .commit _ => .ok s

end Session

/-- `n` processes on one database. `exits` collects the presence rows removed by committed
DELETEs, `applied` the calls whose transaction committed past the dedup gate. -/
structure Cluster (n : Nat) where
  db : Database
  session : Fin n → Option Session
  exits : List (UserId × AreaId)
  applied : List ReportCall

/-- `report` is a call that has computed its covering set and its hint, whatever they are. -/
inductive ClusterAction (n : Nat) where
  | report (p : Fin n) (call : ReportCall) (hint : List AreaId)
  | exec (p : Fin n)
  | rollBack (p : Fin n)
  | createArea (row : AreaGeometryRow)

namespace Cluster

variable {n : Nat}

def start (areas : AreasTable) : Cluster n := ⟨.initial areas, fun _ => none, [], []⟩

def setSession (st : Cluster n) (p : Fin n) (session : Option Session) : Cluster n :=
  { st with session := Function.update st.session p session }

/-- No other session holds the advisory lock with this key. -/
def lockFree (pg : Postgres) (st : Cluster n) (p : Fin n) (userId : UserId) : Bool :=
  decide (∀ q, q ≠ p → ∀ s ∈ st.session q, s.holdsLock = true →
    pg.hashtext s.userId ≠ pg.hashtext userId)

/-- No other session has written a row the next statement would write. -/
def rowFree (st : Cluster n) (p : Fin n) (s : Session) : Bool :=
  decide (∀ q, q ≠ p → ∀ other ∈ st.session q, ∀ write ∈ s.nextWrite,
    ∀ written ∈ other.writes, write.conflicts written = false)

/-- The statement can run now; otherwise it waits. -/
def admits (pg : Postgres) (st : Cluster n) (p : Fin n) (s : Session) : Bool :=
  match s.pc with
  | .lock => st.lockFree pg p s.userId
  | _ => st.rowFree p s

def commit (st : Cluster n) (p : Fin n) (s : Session) (result : TransactionResult) : Cluster n :=
  ⟨st.db.replay s.writes, Function.update st.session p none, st.exits ++ s.deleted,
    if result.duplicate then st.applied else st.applied ++ [s.call]⟩

def step (pg : Postgres) (st : Cluster n) : ClusterAction n → Option (Cluster n)
  | .report p call hint =>
    match st.session p with
    | some _ => none
    | none =>
      if differs call.currentAreaIds hint then some (st.setSession p (some (.opened call)))
      else some st
  | .exec p =>
    match st.session p with
    | none => none
    | some s =>
      if st.admits pg p s then
        match s.pc with
        | .commit result => some (st.commit p s result)
        | _ =>
          match s.exec pg st.db with
          | .error _ => some (st.setSession p none)
          | .ok s => some (st.setSession p (some s))
      else none
  | .rollBack p =>
    match st.session p with
    | some _ => some (st.setSession p none)
    | none => none
  | .createArea row => (st.db.createArea row).map fun db => { st with db }

def machine (pg : Postgres) : Machine (Cluster n) (ClusterAction n) := ⟨step pg⟩

end Cluster

/-- What one user's transaction reads: the user's rows, and which areas exist. -/
structure Database.SameUser (userId : UserId) (db db' : Database) : Prop where
  areaIds : db'.presence.areaIds userId = db.presence.areaIds userId
  lastSeq : ∀ deviceId,
    db'.eventState.lastSeq? userId deviceId = db.eventState.lastSeq? userId deviceId
  hasArea : ∀ areaId, db.hasArea areaId = true → db'.hasArea areaId = true

private theorem Database.sameUser_createArea {db db' : Database} {row : AreaGeometryRow}
    (h : db.createArea row = some db') (userId : UserId) : db.SameUser userId db' := by
  obtain ⟨hrows, -, hpresence, -⟩ := createArea_eq_some h
  refine ⟨by rw [hpresence], fun deviceId => ?_, fun areaId harea => ?_⟩
  · unfold createArea at h
    split at h
    · cases h
    · cases h
      rfl
  · simp only [hasArea] at harea ⊢
    rw [hrows, List.any_append, harea, Bool.true_or]

theorem transaction_gated {pg : Postgres} {call : ReportCall} {db db' : Database}
    {result : TransactionResult} (h : transaction pg call db = .ok (db', result)) :
    (dedupGate call db = none ∧ db' = db ∧ result.duplicate = true) ∨
      ∃ gated, dedupGate call db = some gated ∧ db'.eventState = gated.eventState ∧
        result.duplicate = false := by
  unfold transaction at h
  cases hgate : dedupGate call db with
  | none =>
    simp only [hgate, pure, Except.pure, Except.ok.injEq, Prod.mk.injEq] at h
    exact Or.inl ⟨rfl, h.1.symm, by rw [← h.2]⟩
  | some db₁ =>
    cases henter : enterAreas pg call db₁ (call.entered (db.presence.areaIds call.dto.userId)) with
    | error e => simp [hgate, henter, bind, Except.bind] at h
    | ok r =>
      simp only [hgate, henter, bind, Except.bind, pure, Except.pure, Except.ok.injEq,
        Prod.mk.injEq] at h
      have hdelete : ∀ db departed,
          (deleteDeparted call db departed).eventState = db.eventState := by
        intro db departed
        unfold deleteDeparted
        split <;> rfl
      refine Or.inr ⟨db₁, rfl, ?_, by rw [← h.2]⟩
      rw [← h.1, hdelete, (enterAreas_ok henter).eventState]

private theorem transaction_eventState {pg : Postgres} {call : ReportCall} {db db' : Database}
    {result : TransactionResult} (h : transaction pg call db = .ok (db', result)) :
    db'.eventState = db.eventState ∨ ∃ deviceId seq,
      db'.eventState = db.eventState.upsert ⟨call.dto.userId, deviceId, seq, call.recordedAt⟩ := by
  rcases transaction_gated h with ⟨-, rfl, -⟩ | ⟨gated, hgate, hstate, -⟩
  · exact Or.inl rfl
  · rw [hstate]
    unfold dedupGate at hgate
    split at hgate
    · rename_i deviceId seq _ _
      split at hgate
      · cases hgate
      · cases hgate
        exact Or.inr ⟨deviceId, seq, rfl⟩
    · cases hgate
      exact Or.inl rfl

private theorem transaction_sameUser {pg : Postgres} {call : ReportCall} {db db' : Database}
    {result : TransactionResult} (h : transaction pg call db = .ok (db', result))
    {userId : UserId} (hne : userId ≠ call.dto.userId) : db.SameUser userId db' := by
  rcases transaction_ok h with ⟨-, rfl, -⟩ | happ
  · exact ⟨rfl, fun _ => rfl, fun _ harea => harea⟩
  · refine ⟨happ.areaIds_of_ne hne, fun deviceId => ?_, fun areaId harea => ?_⟩
    · rcases transaction_eventState h with heq | ⟨device, seq, heq⟩
      · rw [heq]
      · rw [heq, EventStateTable.lastSeq?_upsert_of_ne _ (Ne.symm hne)]
    · simpa only [Database.hasArea, happ.areas] using harea

namespace ReportCall

/-- The write of a passed dedup gate. -/
def gateWrites (call : ReportCall) : List Write :=
  match call.dto.deviceId, call.dto.seq with
  | some deviceId, some seq => [.eventState ⟨call.dto.userId, deviceId, seq, call.recordedAt⟩]
  | _, _ => []

/-- The writes of the insert loop. -/
def enterWrites (call : ReportCall) (inserted : List AreaId) : List Write :=
  inserted.flatMap fun areaId => [.presence (call.presenceRow areaId), .log (call.logRow areaId)]

theorem enterWrites_append (call : ReportCall) (first second : List AreaId) :
    call.enterWrites (first ++ second) = call.enterWrites first ++ call.enterWrites second :=
  List.flatMap_append ..

/-- The write of the exit delete. -/
def exitWrites (call : ReportCall) (previous : List AreaId) : List Write :=
  if 0 < (call.departed previous).length then [.delete call.dto.userId (call.departed previous)]
  else []

end ReportCall

theorem replay_gateWrites_presence (call : ReportCall) (db : Database) :
    (db.replay call.gateWrites).presence = db.presence ∧
      (db.replay call.gateWrites).hasArea = db.hasArea := by
  unfold ReportCall.gateWrites
  split <;> exact ⟨rfl, rfl⟩

private theorem replay_exitWrites (call : ReportCall) (db : Database) (previous : List AreaId) :
    db.replay (call.exitWrites previous) = deleteDeparted call db (call.departed previous) := by
  unfold ReportCall.exitWrites deleteDeparted
  split <;> rfl

private theorem dedupGate_of_no_identity {call : ReportCall} (db : Database)
    (hnone : ∀ deviceId seq, call.dto.deviceId = some deviceId → call.dto.seq = some seq → False) :
    call.gateWrites = [] ∧ dedupGate call db = some db := by
  unfold ReportCall.gateWrites dedupGate
  constructor
  · split
    · rename_i hdevice hseq
      exact absurd hseq (hnone _ _ hdevice)
    · rfl
  · split
    · rename_i hdevice hseq
      exact absurd hseq (hnone _ _ hdevice)
    · rfl

private theorem dedupGate_eq_some {call : ReportCall} {db db' : Database}
    (h : dedupGate call db = some db') : db' = db.replay call.gateWrites := by
  unfold dedupGate at h
  unfold ReportCall.gateWrites
  cases hdevice : call.dto.deviceId with
  | none =>
    simp only [hdevice, Option.some.injEq] at h
    exact h.symm
  | some deviceId =>
    cases hseq : call.dto.seq with
    | none =>
      simp only [hdevice, hseq, Option.some.injEq] at h
      exact h.symm
    | some seq =>
      simp only [hdevice, hseq] at h
      split at h
      · cases h
      · cases h
        rfl

theorem dedupGate_sameUser {call : ReportCall} {db db' : Database}
    (hsame : db.SameUser call.dto.userId db') :
    (dedupGate call db').isSome = (dedupGate call db).isSome := by
  unfold dedupGate
  split
  · rename_i deviceId seq _ _
    rw [hsame.lastSeq deviceId]
    split <;> rfl
  · rfl

private theorem enterAreas_sameUser {pg : Postgres} {call : ReportCall} {db db' r : Database}
    {areaIds inserted : List AreaId}
    (hids : ∀ a, a ∈ db'.presence.areaIds call.dto.userId ↔
      a ∈ db.presence.areaIds call.dto.userId)
    (harea : ∀ a, db.hasArea a = true → db'.hasArea a = true)
    (h : enterAreas pg call db areaIds = .ok (r, inserted)) :
    enterAreas pg call db' areaIds = .ok (db'.replay (call.enterWrites inserted), inserted) := by
  induction areaIds generalizing db db' inserted with
  | nil =>
    cases h
    rfl
  | cons areaId rest ih =>
    rw [enterAreas_cons_eq_ok]
    rcases enterAreas_cons_eq_ok.mp h with ⟨hmem, hrest⟩ | ⟨hmem, hexists, hcast, later, hrest, rfl⟩
    · exact Or.inl ⟨(hids areaId).mpr hmem, ih hids harea hrest⟩
    · have hmem' : areaId ∉ db'.presence.areaIds call.dto.userId := mt (hids areaId).mp hmem
      have hids' : ∀ a, a ∈ (db'.enter call areaId).presence.areaIds call.dto.userId ↔
          a ∈ (db.enter call areaId).presence.areaIds call.dto.userId := by
        intro a
        rw [mem_areaIds_enter hmem', mem_areaIds_enter hmem, hids a]
      exact Or.inr ⟨hmem', harea areaId hexists, hcast, later, ih hids' harea hrest, rfl⟩

/-- The insert loop has passed the gate and run over `done`, inserting `inserted`. -/
structure Looped (pg : Postgres) (call : ReportCall) (db : Database) (done inserted : List AreaId) :
    Prop where
  gate : dedupGate call db = some (db.replay call.gateWrites)
  loop : enterAreas pg call (db.replay call.gateWrites) done =
    .ok (db.replay (call.gateWrites ++ call.enterWrites inserted), inserted)

namespace Looped

variable {pg : Postgres} {call : ReportCall} {db db' : Database} {done inserted : List AreaId}

theorem sameUser (h : Looped pg call db done inserted) (hsame : db.SameUser call.dto.userId db') :
    Looped pg call db' done inserted := by
  have hgate : (dedupGate call db').isSome = true := by
    rw [dedupGate_sameUser hsame, h.gate]
    rfl
  obtain ⟨gated, hgated⟩ := Option.isSome_iff_exists.mp hgate
  refine ⟨by rw [hgated, dedupGate_eq_some hgated], ?_⟩
  obtain ⟨hpres, harea⟩ := replay_gateWrites_presence call db
  obtain ⟨hpres', harea'⟩ := replay_gateWrites_presence call db'
  rw [Database.replay_append]
  refine enterAreas_sameUser (fun a => ?_) (fun a ha => ?_) h.loop
  · rw [hpres, hpres', hsame.areaIds]
  · rw [harea']
    exact hsame.hasArea a (harea ▸ ha)

theorem view_rows (h : Looped pg call db done inserted) :
    (db.replay (call.gateWrites ++ call.enterWrites inserted)).presence.rows =
      db.presence.rows ++ inserted.map call.presenceRow := by
  rw [(enterAreas_ok h.loop).presence, (replay_gateWrites_presence call db).1]

theorem mem_view (h : Looped pg call db done inserted) {areaId : AreaId} :
    areaId ∈ (db.replay (call.gateWrites ++ call.enterWrites inserted)).presence.areaIds
      call.dto.userId ↔ areaId ∈ db.presence.areaIds call.dto.userId ∨ areaId ∈ inserted := by
  rw [PresenceTable.mem_areaIds, PresenceTable.mem_areaIds, h.view_rows, List.map_append,
    List.mem_append]
  simp [ReportCall.presenceRow, PresenceRow.key]

private theorem mem_done (h : Looped pg call db done inserted) {areaId : AreaId}
    (hmem : areaId ∈ inserted) : areaId ∈ done :=
  (((enterAreas_ok h.loop).mem_inserted areaId).mp hmem).1

private theorem deletedKeys_eq
    (h : Looped pg call db (call.entered (db.presence.areaIds call.dto.userId)) inserted) :
    (db.replay (call.gateWrites ++ call.enterWrites inserted)).presence.deletedKeys call.dto.userId
      (call.departed (db.presence.areaIds call.dto.userId)) =
      (call.departed (db.presence.areaIds call.dto.userId)).map
        fun areaId => (call.dto.userId, areaId) := by
  have hnew : (inserted.map call.presenceRow).filter (fun row =>
      row.userId = call.dto.userId &&
        (call.departed (db.presence.areaIds call.dto.userId)).contains row.areaId) = [] := by
    apply List.filter_eq_nil_iff.mpr
    intro row hrow
    obtain ⟨a, ha, rfl⟩ := List.mem_map.mp hrow
    have hcur : a ∈ call.currentAreaIds := (ReportCall.mem_entered.mp (h.mem_done ha)).1
    simp [ReportCall.presenceRow, ReportCall.departed, hcur]
  have hold : db.presence.rows.filter (fun row => row.userId = call.dto.userId &&
        (call.departed (db.presence.areaIds call.dto.userId)).contains row.areaId) =
      (db.presence.rows.filter (·.userId = call.dto.userId)).filter
        (fun row => !call.currentAreaIds.contains row.areaId) := by
    rw [List.filter_filter]
    apply List.filter_congr
    intro row hrow
    by_cases hu : row.userId = call.dto.userId
    · simp [hu, mem_departed_of_row hrow hu]
    · simp [hu]
  rw [PresenceTable.deletedKeys, h.view_rows, List.filter_append, hnew, List.append_nil, hold,
    ReportCall.departed, PresenceTable.areaIds, List.filter_map, List.map_map]
  apply List.map_congr_left
  intro row hrow
  have hu : row.userId = call.dto.userId := by
    simpa using (List.mem_filter.mp (List.mem_filter.mp hrow).1).2
  simp [PresenceRow.key, hu]

theorem nil (hgate : dedupGate call db = some (db.replay call.gateWrites)) :
    Looped pg call db [] [] := by
  refine ⟨hgate, ?_⟩
  simp [enterAreas, ReportCall.enterWrites]

private theorem skip (h : Looped pg call db done inserted) {areaId : AreaId}
    (hmem : areaId ∈ (db.replay (call.gateWrites ++ call.enterWrites inserted)).presence.areaIds
      call.dto.userId) : Looped pg call db (done ++ [areaId]) inserted := by
  have hone : enterAreas pg call (db.replay (call.gateWrites ++ call.enterWrites inserted))
      [areaId] = .ok (db.replay (call.gateWrites ++ call.enterWrites inserted), []) :=
    enterAreas_cons_eq_ok.mpr (Or.inl ⟨hmem, rfl⟩)
  refine ⟨h.gate, ?_⟩
  simpa using enterAreas_append h.loop hone

theorem enter (h : Looped pg call db done inserted) {areaId : AreaId}
    (hmem : areaId ∉ (db.replay (call.gateWrites ++ call.enterWrites inserted)).presence.areaIds
      call.dto.userId)
    (harea : (db.replay (call.gateWrites ++ call.enterWrites inserted)).hasArea areaId = true)
    (hcast : castable pg call.capturedAt = true) :
    Looped pg call db (done ++ [areaId]) (inserted ++ [areaId]) := by
  have hone : enterAreas pg call (db.replay (call.gateWrites ++ call.enterWrites inserted))
      [areaId] = .ok ((db.replay (call.gateWrites ++ call.enterWrites inserted)).enter call areaId,
        [areaId]) :=
    enterAreas_cons_eq_ok.mpr (Or.inr ⟨hmem, harea, hcast, [], rfl, rfl⟩)
  refine ⟨h.gate, ?_⟩
  rw [enterAreas_append h.loop hone, ReportCall.enterWrites_append, ← List.append_assoc,
    Database.replay_append _ (call.gateWrites ++ _)]
  rfl

/-- With the loop over, the transaction is the writes made so far and the exit delete. -/
theorem transaction_eq (h : Looped pg call db
    (call.entered (db.presence.areaIds call.dto.userId)) inserted) :
    transaction pg call db = .ok
      (db.replay (call.gateWrites ++ call.enterWrites inserted ++
        call.exitWrites (db.presence.areaIds call.dto.userId)),
        ⟨inserted, false, decide (0 < inserted.length) ||
          decide (0 < (call.departed (db.presence.areaIds call.dto.userId)).length)⟩) := by
  rw [Database.replay_append _ (call.gateWrites ++ _), replay_exitWrites]
  simp only [transaction, h.gate, h.loop, bind, Except.bind, pure, Except.pure]

end Looped

/-- How far an open transaction has come on the tables as they are committed now: its writes are
those of the statements it has run, and they ran as they would run alone. -/
inductive Progress (pg : Postgres) (db : Database) (call : ReportCall) :
    TransactionPc → List Write → List (UserId × AreaId) → Prop where
  | lock : Progress pg db call .lock [] []
  | readPresence : Progress pg db call .readPresence [] []
  | selectLastSeq {previous : List AreaId}
      (hprev : previous = db.presence.areaIds call.dto.userId) :
    Progress pg db call (.selectLastSeq previous) [] []
  | upsertLastSeq {previous : List AreaId}
      (hprev : previous = db.presence.areaIds call.dto.userId)
      (hgate : dedupGate call db = some (db.replay call.gateWrites)) :
    Progress pg db call (.upsertLastSeq previous) [] []
  | inserting {previous remaining inserted : List AreaId} (done : List AreaId)
      (hprev : previous = db.presence.areaIds call.dto.userId)
      (hentered : call.entered previous = done ++ remaining)
      (hloop : Looped pg call db done inserted) :
    Progress pg db call (.inserting previous remaining inserted)
      (call.gateWrites ++ call.enterWrites inserted) []
  | logging {previous remaining inserted : List AreaId} {areaId : AreaId} (done : List AreaId)
      (hprev : previous = db.presence.areaIds call.dto.userId)
      (hentered : call.entered previous = done ++ areaId :: remaining)
      (hloop : Looped pg call db done inserted)
      (hmem : areaId ∉ (db.replay (call.gateWrites ++ call.enterWrites inserted)).presence.areaIds
        call.dto.userId) :
    Progress pg db call (.logging previous areaId remaining inserted)
      (call.gateWrites ++ call.enterWrites inserted ++ [.presence (call.presenceRow areaId)]) []
  | deleting {previous inserted : List AreaId}
      (hprev : previous = db.presence.areaIds call.dto.userId)
      (hloop : Looped pg call db (call.entered previous) inserted)
      (hdeparted : 0 < (call.departed previous).length) :
    Progress pg db call (.deleting previous inserted)
      (call.gateWrites ++ call.enterWrites inserted) []
  | duplicate (hgate : dedupGate call db = none) :
    Progress pg db call (.commit ⟨[], true, false⟩) [] []
  | commit {previous inserted : List AreaId}
      (hprev : previous = db.presence.areaIds call.dto.userId)
      (hloop : Looped pg call db (call.entered previous) inserted) :
    Progress pg db call
      (.commit ⟨inserted, false,
        decide (0 < inserted.length) || decide (0 < (call.departed previous).length)⟩)
      (call.gateWrites ++ call.enterWrites inserted ++ call.exitWrites previous)
      ((call.departed previous).map fun areaId => (call.dto.userId, areaId))

namespace Progress

variable {pg : Postgres} {db db' : Database} {call : ReportCall} {pc : TransactionPc}
  {writes : List Write} {deleted : List (UserId × AreaId)}

/-- Commits of other users and new areas do not disturb an open transaction. -/
theorem sameUser (h : Progress pg db call pc writes deleted)
    (hsame : db.SameUser call.dto.userId db') : Progress pg db' call pc writes deleted := by
  cases h with
  | lock => exact .lock
  | readPresence => exact .readPresence
  | selectLastSeq hprev => exact .selectLastSeq (hprev.trans hsame.areaIds.symm)
  | upsertLastSeq hprev hgate =>
    exact .upsertLastSeq (hprev.trans hsame.areaIds.symm)
      ((Looped.nil hgate).sameUser hsame : Looped pg call db' [] []).gate
  | inserting done hprev hentered hloop =>
    exact .inserting done (hprev.trans hsame.areaIds.symm) hentered (hloop.sameUser hsame)
  | logging done hprev hentered hloop hmem =>
    refine .logging done (hprev.trans hsame.areaIds.symm) hentered (hloop.sameUser hsame) ?_
    rw [(hloop.sameUser hsame).mem_view, hsame.areaIds, ← hloop.mem_view]
    exact hmem
  | deleting hprev hloop hdeparted =>
    exact .deleting (hprev.trans hsame.areaIds.symm) (hloop.sameUser hsame) hdeparted
  | duplicate hgate =>
    refine .duplicate ?_
    have hnone := dedupGate_sameUser hsame
    rw [hgate] at hnone
    exact Option.isSome_eq_false_iff.mp hnone |> Option.isNone_iff_eq_none.mp
  | commit hprev hloop => exact .commit (hprev.trans hsame.areaIds.symm) (hloop.sameUser hsame)

/-- A session about to commit holds the result and the writes of the atomic transaction. -/
theorem transaction_eq {result : TransactionResult}
    (h : Progress pg db call (.commit result) writes deleted) :
    transaction pg call db = .ok (db.replay writes, result) := by
  cases h with
  | duplicate hgate => simp [transaction, hgate, Database.replay, pure, Except.pure]
  | commit hprev hloop =>
    subst hprev
    exact hloop.transaction_eq

end Progress

section Statements

variable {pg : Postgres} {db : Database} {call : ReportCall} {s' : Session}

private theorem exec_progress_readPresence
    (hexec : Session.exec pg db ⟨call, .readPresence, [], []⟩ = .ok s') :
    s'.call = call ∧ Progress pg db s'.call s'.pc s'.writes s'.deleted := by
  simp only [Session.exec] at hexec
  split at hexec
  · cases hexec
    exact ⟨rfl, .selectLastSeq rfl⟩
  · rename_i hnone
    cases hexec
    obtain ⟨hwrites, hgate⟩ := dedupGate_of_no_identity db hnone
    have hloop : Looped pg call db [] [] := .nil (by rw [hwrites]; exact hgate)
    have hprogress := Progress.inserting [] rfl (List.nil_append _).symm hloop
    rw [hwrites] at hprogress
    exact ⟨rfl, hprogress⟩

private theorem exec_progress_selectLastSeq {previous : List AreaId}
    (hprev : previous = db.presence.areaIds call.dto.userId)
    (hexec : Session.exec pg db ⟨call, .selectLastSeq previous, [], []⟩ = .ok s') :
    s'.call = call ∧ Progress pg db s'.call s'.pc s'.writes s'.deleted := by
  simp only [Session.exec] at hexec
  split at hexec
  · rename_i deviceId seq hdevice hseq
    have hgate : dedupGate call db = if (db.eventState.lastSeq? call.dto.userId deviceId).any
        (fun last => decide (seq ≤ last)) then none
        else some (db.replay call.gateWrites) := by
      simp only [dedupGate, ReportCall.gateWrites, hdevice, hseq]
      rfl
    split at hexec
    · rename_i hdup
      cases hexec
      exact ⟨rfl, .duplicate (hgate.trans (if_pos hdup))⟩
    · rename_i hfresh
      cases hexec
      exact ⟨rfl, .upsertLastSeq hprev (hgate.trans (if_neg hfresh))⟩
  · cases hexec
    exact ⟨rfl, .selectLastSeq hprev⟩

private theorem exec_progress_upsertLastSeq {previous : List AreaId}
    (hprev : previous = db.presence.areaIds call.dto.userId)
    (hgate : dedupGate call db = some (db.replay call.gateWrites))
    (hexec : Session.exec pg db ⟨call, .upsertLastSeq previous, [], []⟩ = .ok s') :
    s'.call = call ∧ Progress pg db s'.call s'.pc s'.writes s'.deleted := by
  simp only [Session.exec] at hexec
  split at hexec
  · rename_i write hwrite
    cases hexec
    have hwrites : call.gateWrites = [write] := by
      simp only [Session.nextWrite] at hwrite
      split at hwrite
      · rename_i hdevice hseq
        cases hwrite
        simp only [ReportCall.gateWrites, hdevice, hseq]
        rfl
      · cases hwrite
    have hprogress := Progress.inserting [] hprev (List.nil_append _).symm
      (Looped.nil hgate : Looped pg call db [] [])
    rw [hwrites] at hprogress
    exact ⟨rfl, hprogress⟩
  · cases hexec
    exact ⟨rfl, .upsertLastSeq hprev hgate⟩

private theorem exec_progress_entered {previous inserted : List AreaId}
    (hprev : previous = db.presence.areaIds call.dto.userId)
    (hloop : Looped pg call db (call.entered previous) inserted)
    (hexec : Session.exec pg db ⟨call, .inserting previous [] inserted,
      call.gateWrites ++ call.enterWrites inserted, []⟩ = .ok s') :
    s'.call = call ∧ Progress pg db s'.call s'.pc s'.writes s'.deleted := by
  simp only [Session.exec] at hexec
  split at hexec
  · rename_i hdeparted
    cases hexec
    exact ⟨rfl, .deleting hprev hloop hdeparted⟩
  · rename_i hdeparted
    cases hexec
    have hexit : call.exitWrites previous = [] := if_neg hdeparted
    have hnil : call.departed previous = [] :=
      List.length_eq_zero_iff.mp (Nat.eq_zero_of_not_pos hdeparted)
    have hprogress := Progress.commit hprev hloop
    rw [hexit, List.append_nil, hnil] at hprogress
    refine ⟨rfl, ?_⟩
    simpa only [Session.finish, Session.goto, hnil, List.map_nil] using hprogress

private theorem exec_progress_inserting {previous rest inserted : List AreaId} {areaId : AreaId}
    (done : List AreaId) (hprev : previous = db.presence.areaIds call.dto.userId)
    (hentered : call.entered previous = done ++ areaId :: rest)
    (hloop : Looped pg call db done inserted)
    (hexec : Session.exec pg db ⟨call, .inserting previous (areaId :: rest) inserted,
      call.gateWrites ++ call.enterWrites inserted, []⟩ = .ok s') :
    s'.call = call ∧ Progress pg db s'.call s'.pc s'.writes s'.deleted := by
  have hnext : call.entered previous = (done ++ [areaId]) ++ rest := by
    rw [hentered, List.append_assoc, List.singleton_append]
  simp only [Session.exec] at hexec
  split at hexec
  · cases hexec
  · rename_i returned hins
    rcases insertPresence_eq_ok.mp hins with ⟨hmem, hr⟩ | ⟨hmem, harea, hr⟩
    · cases hr
      cases hexec
      exact ⟨rfl, .inserting (done ++ [areaId]) hprev hnext (hloop.skip hmem)⟩
    · cases hr
      cases hexec
      exact ⟨rfl, .logging done hprev hentered hloop hmem⟩

private theorem exec_progress_logging {previous rest inserted : List AreaId} {areaId : AreaId}
    (done : List AreaId) (hprev : previous = db.presence.areaIds call.dto.userId)
    (hentered : call.entered previous = done ++ areaId :: rest)
    (hloop : Looped pg call db done inserted)
    (hmem : areaId ∉ (db.replay (call.gateWrites ++ call.enterWrites inserted)).presence.areaIds
      call.dto.userId)
    (hexec : Session.exec pg db ⟨call, .logging previous areaId rest inserted,
      call.gateWrites ++ call.enterWrites inserted ++ [.presence (call.presenceRow areaId)], []⟩ =
        .ok s') :
    s'.call = call ∧ Progress pg db s'.call s'.pc s'.writes s'.deleted := by
  simp only [Session.exec] at hexec
  split at hexec
  · cases hexec
  · rename_i db' hins
    cases hexec
    obtain ⟨hcast, harea, -⟩ := insertLog_eq_ok.mp hins
    rw [Database.replay_append] at harea
    have hnext : call.entered previous = (done ++ [areaId]) ++ rest := by
      rw [hentered, List.append_assoc, List.singleton_append]
    have hprogress := Progress.inserting (done ++ [areaId]) hprev hnext
      (hloop.enter hmem harea hcast)
    rw [ReportCall.enterWrites_append] at hprogress
    refine ⟨rfl, ?_⟩
    simpa [Session.goto, Session.write, ReportCall.enterWrites] using hprogress

end Statements

/-- A statement that succeeds makes progress. -/
theorem Session.exec_progress {pg : Postgres} {db : Database} {s s' : Session}
    (h : Progress pg db s.call s.pc s.writes s.deleted) (hexec : s.exec pg db = .ok s') :
    s'.call = s.call ∧ Progress pg db s'.call s'.pc s'.writes s'.deleted := by
  obtain ⟨call, pc, writes, deleted⟩ := s
  change Progress pg db call pc writes deleted at h
  cases h with
  | lock =>
    cases hexec
    exact ⟨rfl, .readPresence⟩
  | readPresence => exact exec_progress_readPresence hexec
  | selectLastSeq hprev => exact exec_progress_selectLastSeq hprev hexec
  | upsertLastSeq hprev hgate => exact exec_progress_upsertLastSeq hprev hgate hexec
  | inserting done hprev hentered hloop =>
    rename_i previous remaining inserted
    cases remaining with
    | nil =>
      rw [List.append_nil] at hentered
      subst hentered
      exact exec_progress_entered hprev hloop hexec
    | cons areaId rest => exact exec_progress_inserting done hprev hentered hloop hexec
  | logging done hprev hentered hloop hmem =>
    exact exec_progress_logging done hprev hentered hloop hmem hexec
  | deleting hprev hloop hdeparted =>
    rename_i previous inserted
    cases hexec
    have hexit : call.exitWrites previous = [.delete call.dto.userId (call.departed previous)] :=
      if_pos hdeparted
    have hprogress := Progress.commit hprev hloop
    rw [hexit] at hprogress
    subst hprev
    rw [← hloop.deletedKeys_eq] at hprogress
    exact ⟨rfl, hprogress⟩
  | duplicate hgate =>
    cases hexec
    exact ⟨rfl, .duplicate hgate⟩
  | commit hprev hloop =>
    cases hexec
    exact ⟨rfl, .commit hprev hloop⟩

namespace Cluster

variable {n : Nat} {pg : Postgres} {st t : Cluster n} {action : ClusterAction n}

/-- Everything a step of the cluster can do. -/
inductive ClusterStep (pg : Postgres) (st : Cluster n) : ClusterAction n → Cluster n → Prop where
  | noChange (p : Fin n) (call : ReportCall) (hint : List AreaId) :
    ClusterStep pg st (.report p call hint) st
  | opened (p : Fin n) (call : ReportCall) (hint : List AreaId) (hidle : st.session p = none) :
    ClusterStep pg st (.report p call hint) (st.setSession p (some (.opened call)))
  | statement (p : Fin n) (s s' : Session) (hs : st.session p = some s)
      (hadmits : st.admits pg p s = true) (hexec : s.exec pg st.db = .ok s') :
    ClusterStep pg st (.exec p) (st.setSession p (some s'))
  | committed (p : Fin n) (s : Session) (result : TransactionResult) (hs : st.session p = some s)
      (hpc : s.pc = .commit result) :
    ClusterStep pg st (.exec p) (st.commit p s result)
  | aborted (action : ClusterAction n) (p : Fin n)
      (haction : action = .exec p ∨ action = .rollBack p) :
    ClusterStep pg st action (st.setSession p none)
  | createArea (row : AreaGeometryRow) (db : Database) (h : st.db.createArea row = some db) :
    ClusterStep pg st (.createArea row) { st with db }

theorem step_cases (h : step pg st action = some t) : ClusterStep pg st action t := by
  cases action with
  | report p call hint =>
    simp only [step] at h
    split at h
    · cases h
    · rename_i hidle
      split at h
      · cases h
        exact .opened p call hint hidle
      · cases h
        exact .noChange p call hint
  | exec p =>
    simp only [step] at h
    split at h
    · cases h
    · rename_i s hs
      split at h
      · rename_i hadmits
        split at h
        · rename_i result hpc
          cases h
          exact .committed p s result hs hpc
        · split at h
          · cases h
            exact .aborted _ p (Or.inl rfl)
          · rename_i s' hexec
            cases h
            exact .statement p s s' hs hadmits hexec
      · cases h
  | rollBack p =>
    simp only [step] at h
    split at h
    · cases h
      exact .aborted _ p (Or.inr rfl)
    · cases h
  | createArea row =>
    obtain ⟨db, hdb, rfl⟩ := Option.map_eq_some_iff.mp h
    exact .createArea row db hdb

theorem setSession_self (st : Cluster n) (p : Fin n) (session : Option Session) :
    (st.setSession p session).session p = session :=
  Function.update_self ..

theorem setSession_of_ne (st : Cluster n) {p q : Fin n} (hq : q ≠ p) (session : Option Session) :
    (st.setSession p session).session q = st.session q :=
  Function.update_of_ne hq ..

/-- What the advisory lock keeps: one session per user is past its first statement, and every
open session has run as it would have run alone on the tables as they are. -/
structure Serial (pg : Postgres) (st : Cluster n) : Prop where
  exclusive : ∀ p q s s', st.session p = some s → st.session q = some s' →
    s.holdsLock = true → s'.holdsLock = true → s.userId = s'.userId → p = q
  progress : ∀ p s, st.session p = some s → Progress pg st.db s.call s.pc s.writes s.deleted

theorem serial_start (pg : Postgres) (areas : AreasTable) : Serial pg (start areas : Cluster n) := by
  constructor
  · intro p q s s' hs
    cases hs
  · intro p s hs
    cases hs

theorem Serial.setSession (h : Serial pg st) (p : Fin n) (session : Option Session)
    (hexclusive : ∀ s q s', session = some s → q ≠ p → st.session q = some s' →
      s.holdsLock = true → s'.holdsLock = true → s.userId ≠ s'.userId)
    (hprogress : ∀ s, session = some s → Progress pg st.db s.call s.pc s.writes s.deleted) :
    Serial pg (st.setSession p session) := by
  have hself := st.setSession_self p session
  have hother : ∀ q, q ≠ p → (st.setSession p session).session q = st.session q :=
    fun q hq => st.setSession_of_ne hq session
  constructor
  · intro q r s s' hs hs' hl hl' huser
    by_cases hq : q = p
    · by_cases hr : r = p
      · rw [hq, hr]
      · rw [hq, hself] at hs
        rw [hother r hr] at hs'
        exact absurd huser (hexclusive s r s' hs hr hs' hl hl')
    · rw [hother q hq] at hs
      by_cases hr : r = p
      · rw [hr, hself] at hs'
        exact absurd huser.symm (hexclusive s' q s hs' hq hs hl' hl)
      · rw [hother r hr] at hs'
        exact h.exclusive q r s s' hs hs' hl hl' huser
  · intro q s hs
    by_cases hq : q = p
    · rw [hq, hself] at hs
      exact hprogress s hs
    · rw [hother q hq] at hs
      exact h.progress q s hs

theorem Serial.removed (h : Serial pg st) (p : Fin n) : Serial pg (st.setSession p none) :=
  h.setSession p none (fun _ _ _ hs => nomatch hs) (fun _ hs => nomatch hs)

theorem Serial.transfer (h : Serial pg st) (hsession : t.session = st.session)
    (hsame : ∀ p s, st.session p = some s → s.holdsLock = true → st.db.SameUser s.userId t.db) :
    Serial pg t := by
  refine ⟨by rw [hsession]; exact h.exclusive, fun p s hs => ?_⟩
  rw [hsession] at hs
  cases hlock : s.holdsLock with
  | true => exact (h.progress p s hs).sameUser (hsame p s hs hlock)
  | false =>
    have hprogress := h.progress p s hs
    obtain ⟨call, pc, writes, deleted⟩ := s
    cases pc with
    | lock =>
      cases hprogress
      exact .lock
    | _ => simp [Session.holdsLock] at hlock

private theorem lockFree_user {p q : Fin n} {userId : UserId} {s : Session}
    (hfree : st.lockFree pg p userId = true) (hq : q ≠ p) (hs : st.session q = some s)
    (hlock : s.holdsLock = true) : userId ≠ s.userId := by
  intro huser
  exact of_decide_eq_true hfree q hq s hs hlock (by rw [huser])

theorem Serial.step (h : Serial pg st) (hstep : ClusterStep pg st action t) : Serial pg t := by
  cases hstep with
  | noChange p call hint => exact h
  | opened p call hint hidle =>
    apply h.setSession
    · intro s q s' hs hq hs' hlock
      cases hs
      cases hlock
    · intro s hs
      cases hs
      exact .lock
  | statement p s s' hs hadmits hexec =>
    obtain ⟨hcall, hprogress⟩ := Session.exec_progress (h.progress p s hs) hexec
    apply h.setSession
    · intro u q other hu hq hother hlock hlock'
      cases hu
      have huser : s'.userId = s.userId := by rw [Session.userId, hcall, Session.userId]
      rw [huser]
      cases hheld : s.holdsLock with
      | true => exact fun heq => hq (h.exclusive p q s other hs hother hheld hlock' heq).symm
      | false =>
        have hpc : s.pc = .lock := by
          unfold Session.holdsLock at hheld
          split at hheld
          · assumption
          · cases hheld
        have hfree : st.lockFree pg p s.userId = true := by
          simpa only [admits, hpc] using hadmits
        exact lockFree_user hfree hq hother hlock'
    · intro u hu
      cases hu
      exact hprogress
  | committed p s result hs hpc =>
    have hprogress := h.progress p s hs
    rw [hpc] at hprogress
    have htx := hprogress.transaction_eq
    have hlock : s.holdsLock = true := by rw [Session.holdsLock, hpc]
    refine (h.removed p).transfer rfl fun q other hother hheld => ?_
    by_cases hq : q = p
    · rw [hq, setSession_self] at hother
      cases hother
    · rw [setSession_of_ne st hq] at hother
      refine transaction_sameUser htx fun heq => hq ?_
      exact h.exclusive q p other s hother hs hheld hlock heq
  | aborted _ p haction => exact h.removed p
  | createArea row db hdb =>
    exact h.transfer rfl fun p s _ _ => Database.sameUser_createArea hdb s.userId

/-- Every COMMIT is the atomic transaction on the tables it commits to. -/
theorem Serial.commit_eq (h : Serial pg st) {p : Fin n} {s : Session} {result : TransactionResult}
    (hs : st.session p = some s) (hpc : s.pc = .commit result) :
    transaction pg s.call st.db = .ok ((st.commit p s result).db, result) := by
  have hprogress := h.progress p s hs
  rw [hpc] at hprogress
  exact hprogress.transaction_eq

end Cluster

end Geofence
