import Geofence.Areas.Versioning
/-!
# `AreasService.create`

Any number of calls on any instances: the `ST_IsValid` query, the transaction that inserts the row
and bumps the version, and the refresh after the commit, queued behind whatever rebuilds the
instance has. Each query may fail. A bump holds the row of `area_version` until its transaction
ends, so no version is bumped twice from the same value.
-/

namespace Geofence

open Framework AreaSnapshotService

structure CreateAreaDto where
  name : String
  boundary : Polygon

/-- The saved entity, less `created_at`. -/
structure AreaEntity where
  id : AreaId
  name : String
  boundary : Polygon
  deriving DecidableEq

def AreaEntity.row (area : AreaEntity) : AreaGeometryRow := ⟨area.id, area.boundary⟩

/-- `ST_IsValid` and `ST_IsValidReason`. -/
structure PostGis where
  isValid : Polygon → Bool
  isValidReason : Polygon → Option String

inductive CreateError where
  | badRequest (message : String)
  | query
  | refresh
  deriving DecidableEq

/-- What a call of `create` awaits. After the commit the answer is still on its way. -/
inductive CreateStage where
  | validating
  | inserting
  | bumping (area : AreaEntity)
  | committing (area : AreaEntity) (version : Nat)
  | committed (area : AreaEntity)
  | refreshing (area : AreaEntity) (rebuild : Nat)
  | resolved (area : AreaEntity)
  | rejected (error : CreateError)
  deriving DecidableEq

/-- A call, with the database and the number of commits it found. -/
structure CreateCall where
  process : Nat
  dto : CreateAreaDto
  before : Database
  seen : Nat
  stage : CreateStage

structure AreaCommit where
  call : Nat
  row : AreaGeometryRow
  deriving DecidableEq

structure AreaCreations where
  cluster : AreaCluster
  versionLock : Option Nat
  calls : List CreateCall
  commits : List AreaCommit

inductive CallAction where
  | validity
  | insert (id : AreaId)
  | bump
  | commit
  | refreshNow
  | settle
  | fail
  | loseAnswer

inductive CreateAction where
  | create (process : Nat) (dto : CreateAreaDto)
  | call (i : Nat) (action : CallAction)
  | service (process : Nat) (action : SnapshotAction)

/-- The commit of an insert and of the version its bump has written. -/
def AreaCluster.commitArea (st : AreaCluster) (row : AreaGeometryRow) (version : Nat) :
    Option AreaCluster :=
  (st.db.createArea row).map fun db =>
    { st with
      db := { db with areaVersion := version }
      history := st.history ++ [(version, db.areas.rows)] }

namespace AreaCreations

def start (db : Database) : AreaCreations := ⟨.start db, none, [], []⟩

def setStage (st : AreaCreations) (i : Nat) (stage : CreateStage) : AreaCreations :=
  { st with calls := st.calls.modify i fun call => { call with stage } }

/-- The end of a call's transaction. -/
def unlock (st : AreaCreations) (i : Nat) : AreaCreations :=
  { st with versionLock := if st.versionLock = some i then none else st.versionLock }

/-- The next step of call `i`: an answer arrives, or fails to. -/
def callStep (gis : PostGis) (st : AreaCreations) (i : Nat) (call : CreateCall) :
    CallAction → Option AreaCreations
  | .validity =>
    match call.stage with
    | .validating =>
      if gis.isValid call.dto.boundary then some (st.setStage i .inserting)
      else some (st.setStage i (.rejected (.badRequest
        ("invalid polygon: " ++ (gis.isValidReason call.dto.boundary).getD "unknown reason"))))
    | _ => none
  | .insert id =>
    match call.stage with
    | .inserting =>
      if id ∈ st.cluster.db.areas.rows.map (·.id) then none
      else some (st.setStage i (.bumping ⟨id, call.dto.name, call.dto.boundary⟩))
    | _ => none
  | .bump =>
    match st.versionLock, call.stage with
    | none, .bumping area =>
      some { st.setStage i (.committing area (st.cluster.db.areaVersion + 1)) with
        versionLock := some i }
    | _, _ => none
  | .commit =>
    match call.stage with
    | .committing area version =>
      (st.cluster.commitArea area.row version).map fun cluster =>
        { (st.setStage i (.committed area)).unlock i with
          cluster, commits := st.commits ++ [⟨i, area.row⟩] }
    | _ => none
  | .refreshNow =>
    match call.stage with
    | .committed area =>
      (st.cluster.step (.service call.process .refreshNow)).map fun cluster =>
        { st.setStage i (.refreshing area
            (st.cluster.instances call.process).rebuildChain.tasks.length) with cluster }
    | _ => none
  | .settle =>
    match call.stage with
    | .refreshing area rebuild =>
      match (st.cluster.instances call.process).rebuilds rebuild with
      | .resolved => some (st.setStage i (.resolved area))
      | .rejected => some (st.setStage i (.rejected .refresh))
      | _ => none
    | _ => none
  | .fail =>
    match call.stage with
    | .validating | .inserting | .bumping _ | .committing _ _ =>
      some ((st.setStage i (.rejected .query)).unlock i)
    | _ => none
  | .loseAnswer =>
    match call.stage with
    | .committed _ => some (st.setStage i (.rejected .query))
    | _ => none

def step (gis : PostGis) (st : AreaCreations) : CreateAction → Option AreaCreations
  | .create process dto =>
    some { st with
      calls := st.calls ++ [⟨process, dto, st.cluster.db, st.commits.length, .validating⟩] }
  | .call i action => (st.calls[i]?).bind fun call => st.callStep gis i call action
  | .service process action =>
    (st.cluster.step (.service process action)).map fun cluster => { st with cluster }

def machine (gis : PostGis) : Machine AreaCreations CreateAction := ⟨step gis⟩

/-- The commits since a call was made. -/
def since (st : AreaCreations) (call : CreateCall) : List AreaCommit := st.commits.drop call.seen

/-- The rows that call `i` has committed. -/
def rowsOf (i : Nat) (commits : List AreaCommit) : List AreaGeometryRow :=
  (commits.filter (·.call = i)).map (·.row)

/-- A call that has rejected has left the areas and their version as it found them but for the
commits of other calls. One that has resolved has added one area and one version, and the
snapshot of its instance has the area. -/
structure AtomicOutcomes (st : AreaCreations) : Prop where
  changes : ∀ (i : Nat) call, st.calls[i]? = some call →
    st.cluster.db.areas.rows = call.before.areas.rows ++ (st.since call).map (·.row) ∧
      st.cluster.db.areaVersion = call.before.areaVersion + (st.since call).length
  rejected : ∀ (i : Nat) call error, st.calls[i]? = some call → call.stage = .rejected error →
    ∀ commit ∈ st.since call, commit.call ≠ i
  resolved : ∀ (i : Nat) call area, st.calls[i]? = some call → call.stage = .resolved area →
    area.name = call.dto.name ∧ area.boundary = call.dto.boundary ∧
      rowsOf i (st.since call) = [area.row] ∧
      ∃ s, (st.cluster.instances call.process).snapshot = some s ∧ area.row ∈ s.areas.rows

/-- A call that resumes from its refresh finds the rebuild it awaited resolved, and no commit is
made whose answer does not arrive. -/
def confirmsCommits (st : AreaCreations) : CreateAction → Bool
  | .call i .settle =>
    match st.calls[i]? with
    | some call =>
      match call.stage with
      | .refreshing _ rebuild =>
        match (st.cluster.instances call.process).rebuilds rebuild with
        | .rejected => false
        | _ => true
      | _ => true
    | none => true
  | .call _ .loseAnswer => false
  | _ => true

/-! ## What a call has committed -/

end AreaCreations

namespace CreateStage

/-- The entity a call has saved. -/
def area? : CreateStage → Option AreaEntity
  | .bumping area | .committing area _ | .committed area | .refreshing area _ | .resolved area =>
    some area
  | _ => none

/-- What a call that has come this far has committed. -/
def committedRows : CreateStage → List AreaGeometryRow
  | .committed area | .refreshing area _ | .resolved area => [area.row]
  | _ => []

end CreateStage

namespace AreaCluster

theorem commitArea_eq_step {st : AreaCluster} {row : AreaGeometryRow} {version : Nat}
    (h : version = st.db.areaVersion + 1) : st.commitArea row version = st.step (.create row) := by
  subst h
  simp only [commitArea, step]
  cases hcreate : st.db.createArea row with
  | none => rfl
  | some db =>
    obtain ⟨-, hversion, -, -⟩ := Database.createArea_eq_some hcreate
    simp only [Option.map_some]
    rw [← hversion]

theorem db_of_service {st t : AreaCluster} {process : Nat} {action : SnapshotAction}
    (hstep : st.step (.service process action) = some t) : t.db = st.db := by
  obtain ⟨svc, -, rfl⟩ := Option.map_eq_some_iff.mp hstep
  rfl

theorem committed?_of_step {st t : AreaCluster} {action : AreaAction} {process rebuild : Nat}
    {committed : List AreaGeometryRow}
    (h : (st.instances process).committed? rebuild = some committed)
    (hstep : st.step action = some t) :
    (t.instances process).committed? rebuild = some committed := by
  have hrun : machine.run st [action] = some t := machine.run_cons_eq_some.mpr ⟨t, hstep, rfl⟩
  exact committed?_of_run h hrun

end AreaCluster

namespace AreaCreations

/-- What is known of call `i`. -/
structure Accounted (st : AreaCreations) (i : Nat) (call : CreateCall) : Prop where
  seen : call.seen ≤ st.commits.length
  rows : st.cluster.db.areas.rows = call.before.areas.rows ++ (st.since call).map (·.row)
  version : st.cluster.db.areaVersion = call.before.areaVersion + (st.since call).length
  own : rowsOf i (st.since call) = call.stage.committedRows
  entity : ∀ area, call.stage.area? = some area →
    area.name = call.dto.name ∧ area.boundary = call.dto.boundary
  locked : ∀ area version, call.stage = .committing area version →
    st.versionLock = some i ∧ version = st.cluster.db.areaVersion + 1
  called : ∀ area rebuild, call.stage = .refreshing area rebuild →
    ∃ committed, (st.cluster.instances call.process).committed? rebuild = some committed ∧
      area.row ∈ committed
  served : ∀ area, call.stage = .resolved area →
    ∃ s, (st.cluster.instances call.process).snapshot = some s ∧ area.row ∈ s.areas.rows

structure Consistent (st : AreaCreations) : Prop where
  versioned : st.cluster.Versioned
  commits : ∀ commit ∈ st.commits, commit.call < st.calls.length
  calls : ∀ (i : Nat) call, st.calls[i]? = some call → Accounted st i call

theorem consistent_start (db : Database) : Consistent (start db) := by
  refine ⟨AreaCluster.versioned_start db, ?_, ?_⟩
  · intro commit hcommit
    cases hcommit
  · intro i call hcall
    cases hcall

private theorem Consistent.atomicOutcomes {st : AreaCreations} (h : Consistent st) :
    AtomicOutcomes st := by
  refine ⟨?_, ?_, ?_⟩
  · intro i call hcall
    exact ⟨(h.calls i call hcall).rows, (h.calls i call hcall).version⟩
  · intro i call error hcall hstage commit hcommit heq
    have hown := (h.calls i call hcall).own
    rw [hstage] at hown
    have hmem : commit.row ∈ rowsOf i (st.since call) :=
      List.mem_map_of_mem (List.mem_filter.mpr ⟨hcommit, by simpa using heq⟩)
    rw [hown] at hmem
    cases hmem
  · intro i call area hcall hstage
    have hacc := h.calls i call hcall
    have hown := hacc.own
    rw [hstage] at hown
    obtain ⟨hname, hboundary⟩ := hacc.entity area (by rw [hstage]; rfl)
    exact ⟨hname, hboundary, hown, hacc.served area hstage⟩

theorem rowsOf_append (i : Nat) (commits : List AreaCommit) (commit : AreaCommit) :
    rowsOf i (commits ++ [commit]) =
      rowsOf i commits ++ if commit.call = i then [commit.row] else [] := by
  unfold rowsOf
  rw [List.filter_append, List.map_append]
  by_cases h : commit.call = i
  · rw [if_pos h, List.filter_cons_of_pos (by simpa using h)]
    rfl
  · rw [if_neg h, List.filter_cons_of_neg (by simpa using h)]
    rfl

/-- A step as a call that does not take it sees it: commits may be added, none of them its own. -/
structure Unaffected (st t : AreaCreations) (j : Nat) : Prop where
  changes : (t.commits = st.commits ∧ t.cluster.db = st.cluster.db) ∨
    ∃ commit, commit.call ≠ j ∧ t.commits = st.commits ++ [commit] ∧
      t.cluster.db.areas.rows = st.cluster.db.areas.rows ++ [commit.row] ∧
      t.cluster.db.areaVersion = st.cluster.db.areaVersion + 1
  lock : st.versionLock = some j →
    t.versionLock = some j ∧ t.cluster.db.areaVersion = st.cluster.db.areaVersion
  committed : ∀ process rebuild committed,
    (st.cluster.instances process).committed? rebuild = some committed →
      (t.cluster.instances process).committed? rebuild = some committed
  forward : ∀ process,
    Forward (st.cluster.instances process).snapshot (t.cluster.instances process).snapshot

theorem Accounted.unaffected {st t : AreaCreations} {j : Nat} {call : CreateCall}
    (h : Accounted st j call) (hsame : Unaffected st t j) : Accounted t j call := by
  have hlocked : ∀ area version, call.stage = .committing area version →
      t.versionLock = some j ∧ version = t.cluster.db.areaVersion + 1 := by
    intro area version hstage
    obtain ⟨hlock, hversion⟩ := h.locked area version hstage
    obtain ⟨hlock', hversion'⟩ := hsame.lock hlock
    exact ⟨hlock', by omega⟩
  have hcalled : ∀ area rebuild, call.stage = .refreshing area rebuild →
      ∃ committed, (t.cluster.instances call.process).committed? rebuild = some committed ∧
        area.row ∈ committed := by
    intro area rebuild hstage
    obtain ⟨committed, hcommitted, hmem⟩ := h.called area rebuild hstage
    exact ⟨committed, hsame.committed _ _ _ hcommitted, hmem⟩
  have hserved : ∀ area, call.stage = .resolved area →
      ∃ s, (t.cluster.instances call.process).snapshot = some s ∧ area.row ∈ s.areas.rows := by
    intro area hstage
    obtain ⟨s, hs, hmem⟩ := h.served area hstage
    obtain ⟨s', hs', -, hsub⟩ := hsame.forward call.process s hs
    exact ⟨s', hs', hsub hmem⟩
  rcases hsame.changes with ⟨hcommits, hdb⟩ | ⟨commit, hcall, hcommits, hrows, hversion⟩
  · have hsince : t.since call = st.since call := by rw [since, since, hcommits]
    refine ⟨by rw [hcommits]; exact h.seen, ?_, ?_, ?_, h.entity, hlocked, hcalled, hserved⟩
    · rw [hdb, hsince]
      exact h.rows
    · rw [hdb, hsince]
      exact h.version
    · rw [hsince]
      exact h.own
  · have hsince : t.since call = st.since call ++ [commit] := by
      rw [since, since, hcommits, List.drop_append_of_le_length h.seen]
    have hseen := h.seen
    refine ⟨?_, ?_, ?_, ?_, h.entity, hlocked, hcalled, hserved⟩
    · rw [hcommits, List.length_append]
      omega
    · rw [hrows, hsince, h.rows, List.map_append, List.append_assoc, List.map_singleton]
    · rw [hversion, hsince, h.version, List.length_append, List.length_singleton, Nat.add_assoc]
    · rw [hsince, rowsOf_append, if_neg hcall, List.append_nil]
      exact h.own

theorem Consistent.of_call {st t : AreaCreations} {i : Nat} {call : CreateCall}
    {next : CreateStage} (h : Consistent st) (hcall : st.calls[i]? = some call)
    (hcalls : t.calls = (st.setStage i next).calls) (hversioned : t.cluster.Versioned)
    (hcommits : ∀ commit ∈ t.commits, commit ∈ st.commits ∨ commit.call = i)
    (hothers : ∀ j, j ≠ i → Unaffected st t j)
    (hown : Accounted t i { call with stage := next }) : Consistent t := by
  have hlength : t.calls.length = st.calls.length := by
    rw [hcalls, setStage, List.length_modify]
  refine ⟨hversioned, ?_, ?_⟩
  · intro commit hcommit
    rw [hlength]
    rcases hcommits commit hcommit with hold | hnew
    · exact h.commits commit hold
    · rw [hnew]
      exact (List.getElem?_eq_some_iff.mp hcall).1
  · intro j other hother
    rw [hcalls, setStage, List.getElem?_modify] at hother
    by_cases hj : i = j
    · subst hj
      rw [hcall] at hother
      simp only [if_true, Option.map_eq_map, Option.map_some, Option.some.injEq] at hother
      rw [← hother]
      exact hown
    · simp only [if_neg hj, id_map'] at hother
      exact (h.calls j other hother).unaffected (hothers j (Ne.symm hj))

theorem Unaffected.of_lock {st t : AreaCreations} {j : Nat} (hcommits : t.commits = st.commits)
    (hcluster : t.cluster = st.cluster)
    (hlock : st.versionLock = some j → t.versionLock = some j) : Unaffected st t j := by
  refine ⟨Or.inl ⟨hcommits, by rw [hcluster]⟩, ?_, ?_, ?_⟩
  · intro hj
    exact ⟨hlock hj, by rw [hcluster]⟩
  · rw [hcluster]
    exact fun _ _ _ hcommitted => hcommitted
  · intro process
    rw [hcluster]
    exact Forward.refl _

theorem Unaffected.of_service {st t : AreaCreations} {j process : Nat} {action : SnapshotAction}
    (h : st.cluster.Versioned) (hcommits : t.commits = st.commits)
    (hlock : t.versionLock = st.versionLock)
    (hstep : st.cluster.step (.service process action) = some t.cluster) : Unaffected st t j := by
  have hdb := AreaCluster.db_of_service hstep
  refine ⟨Or.inl ⟨hcommits, hdb⟩, ?_, ?_, ?_⟩
  · intro hj
    rw [hlock, hdb]
    exact ⟨hj, rfl⟩
  · intro other rebuild committed hcommitted
    exact AreaCluster.committed?_of_step hcommitted hstep
  · exact AreaCluster.forward_of_step h hstep

theorem Accounted.saved {st : AreaCreations} {i : Nat} {call : CreateCall} {next : CreateStage}
    (h : Accounted st i call) (hsame : next.area? = call.stage.area?) :
    ∀ area, next.area? = some area →
      area.name = call.dto.name ∧ area.boundary = call.dto.boundary := by
  intro area hnext
  rw [hsame] at hnext
  exact h.entity area hnext

theorem Accounted.advance {st t : AreaCreations} {i : Nat} {call : CreateCall}
    {next : CreateStage} (h : Accounted st i call) (hcommits : t.commits = st.commits)
    (hdb : t.cluster.db = st.cluster.db) (hrows : next.committedRows = call.stage.committedRows)
    (hentity : ∀ area, next.area? = some area →
      area.name = call.dto.name ∧ area.boundary = call.dto.boundary)
    (hlocked : ∀ area version, next = .committing area version →
      t.versionLock = some i ∧ version = st.cluster.db.areaVersion + 1)
    (hcalled : ∀ area rebuild, next = .refreshing area rebuild →
      ∃ committed, (t.cluster.instances call.process).committed? rebuild = some committed ∧
        area.row ∈ committed)
    (hserved : ∀ area, next = .resolved area →
      ∃ s, (t.cluster.instances call.process).snapshot = some s ∧ area.row ∈ s.areas.rows) :
    Accounted t i { call with stage := next } := by
  have hsince : t.since { call with stage := next } = st.since call := by
    rw [since, since, hcommits]
  refine ⟨by rw [hcommits]; exact h.seen, ?_, ?_, ?_, hentity, ?_, hcalled, hserved⟩
  · rw [hdb, hsince]
    exact h.rows
  · rw [hdb, hsince]
    exact h.version
  · rw [hsince, h.own]
    exact hrows.symm
  · rw [hdb]
    exact hlocked

theorem Consistent.of_quiet {st t : AreaCreations} {i : Nat} {call : CreateCall}
    {next : CreateStage} (h : Consistent st) (hcall : st.calls[i]? = some call)
    (hcalls : t.calls = (st.setStage i next).calls) (hcluster : t.cluster = st.cluster)
    (hcommits : t.commits = st.commits)
    (hlock : ∀ j, j ≠ i → st.versionLock = some j → t.versionLock = some j)
    (hrows : next.committedRows = call.stage.committedRows)
    (hentity : ∀ area, next.area? = some area →
      area.name = call.dto.name ∧ area.boundary = call.dto.boundary)
    (hlocked : ∀ area version, next = .committing area version →
      t.versionLock = some i ∧ version = st.cluster.db.areaVersion + 1)
    (hcalled : ∀ area rebuild, next ≠ .refreshing area rebuild)
    (hserved : ∀ area, next = .resolved area → ∃ s,
      (st.cluster.instances call.process).snapshot = some s ∧ area.row ∈ s.areas.rows) :
    Consistent t := by
  refine h.of_call hcall hcalls (by rw [hcluster]; exact h.versioned) ?_ ?_ ?_
  · intro commit hcommit
    rw [hcommits] at hcommit
    exact Or.inl hcommit
  · exact fun j hj => .of_lock hcommits hcluster (hlock j hj)
  · refine (h.calls i call hcall).advance hcommits (by rw [hcluster]) hrows hentity hlocked ?_ ?_
    · exact fun area rebuild hstage => absurd hstage (hcalled area rebuild)
    · rw [hcluster]
      exact hserved

theorem Consistent.of_blank {st t : AreaCreations} {i : Nat} {call : CreateCall}
    {next : CreateStage} (h : Consistent st) (hcall : st.calls[i]? = some call)
    (hnone : call.stage.committedRows = []) (hblank : next.area? = none)
    (hcalls : t.calls = (st.setStage i next).calls)
    (hcluster : t.cluster = st.cluster) (hcommits : t.commits = st.commits)
    (hlock : ∀ j, j ≠ i → st.versionLock = some j → t.versionLock = some j) : Consistent t := by
  have hrows : next.committedRows = [] := by
    cases next with
    | validating => rfl
    | inserting => rfl
    | rejected error => rfl
    | bumping area => cases hblank
    | committing area version => cases hblank
    | committed area => cases hblank
    | refreshing area rebuild => cases hblank
    | resolved area => cases hblank
  refine h.of_quiet hcall hcalls hcluster hcommits hlock (hrows.trans hnone.symm) ?_ ?_ ?_ ?_
  · intro area harea
    rw [hblank] at harea
    cases harea
  · rintro area version rfl
    cases hblank
  · rintro area rebuild rfl
    cases hblank
  · rintro area rfl
    cases hblank

theorem unlock_of_ne {st : AreaCreations} {i j : Nat} (hj : j ≠ i)
    (hlock : st.versionLock = some j) : (st.unlock i).versionLock = some j := by
  simp only [unlock, hlock, Option.some.injEq, if_neg hj]

theorem Consistent.commit {st : AreaCreations} {i version : Nat} {call : CreateCall}
    {area : AreaEntity} {cluster : AreaCluster} (h : Consistent st)
    (hcall : st.calls[i]? = some call) (hstage : call.stage = .committing area version)
    (hcommit : st.cluster.commitArea area.row version = some cluster) :
    Consistent { (st.setStage i (.committed area)).unlock i with
      cluster, commits := st.commits ++ [⟨i, area.row⟩] } := by
  have hacc := h.calls i call hcall
  obtain ⟨hlock, hversion⟩ := hacc.locked area version hstage
  rw [AreaCluster.commitArea_eq_step hversion] at hcommit
  have hversioned := h.versioned.step hcommit
  have hforward := AreaCluster.forward_of_step h.versioned hcommit
  have hkept : ∀ process rebuild committed,
      (st.cluster.instances process).committed? rebuild = some committed →
        (cluster.instances process).committed? rebuild = some committed :=
    fun _ _ _ hcommitted => AreaCluster.committed?_of_step hcommitted hcommit
  obtain ⟨db, hcreate, rfl⟩ := Option.map_eq_some_iff.mp hcommit
  obtain ⟨hrows, hbumped, -, -⟩ := Database.createArea_eq_some hcreate
  refine h.of_call hcall rfl hversioned ?_ ?_ ?_
  · intro commit hmem
    rcases List.mem_append.mp hmem with hold | hnew
    · exact Or.inl hold
    · rw [List.mem_singleton.mp hnew]
      exact Or.inr rfl
  · intro j hj
    refine ⟨Or.inr ⟨⟨i, area.row⟩, Ne.symm hj, rfl, hrows, hbumped⟩, ?_, hkept, hforward⟩
    intro hother
    rw [hlock, Option.some.injEq] at hother
    exact absurd hother.symm hj
  · have hsince : (st.commits ++ [(⟨i, area.row⟩ : AreaCommit)]).drop call.seen =
        st.since call ++ [⟨i, area.row⟩] := by
      rw [since, List.drop_append_of_le_length hacc.seen]
    have hseen := hacc.seen
    refine ⟨?_, ?_, ?_, ?_, ?_, ?_, ?_, ?_⟩
    · simp only [List.length_append]
      omega
    · simp only [since]
      rw [hsince, hrows, hacc.rows, List.map_append, List.append_assoc, List.map_singleton]
    · simp only [since]
      rw [hsince, hbumped, hacc.version, List.length_append, List.length_singleton, Nat.add_assoc]
    · simp only [since]
      rw [hsince, rowsOf_append, hacc.own, hstage, if_pos rfl]
      rfl
    · exact hacc.saved (by rw [hstage]; rfl)
    · exact fun area version hnext => nomatch hnext
    · exact fun area rebuild hnext => nomatch hnext
    · exact fun area hnext => nomatch hnext

theorem Consistent.refreshNow {st : AreaCreations} {i : Nat} {call : CreateCall}
    {area : AreaEntity} {cluster : AreaCluster} (h : Consistent st)
    (hcall : st.calls[i]? = some call) (hstage : call.stage = .committed area)
    (hstep : st.cluster.step (.service call.process .refreshNow) = some cluster) :
    Consistent { st.setStage i (.refreshing area
      (st.cluster.instances call.process).rebuildChain.tasks.length) with cluster } := by
  have hacc := h.calls i call hcall
  have hdb := AreaCluster.db_of_service hstep
  have hversioned := h.versioned.step hstep
  have hrow : area.row ∈ st.cluster.db.areas.rows := by
    have hown := hacc.own
    rw [hstage] at hown
    have hmem : area.row ∈ rowsOf i (st.since call) := by
      rw [hown]
      exact List.mem_singleton_self _
    rw [hacc.rows]
    obtain ⟨commit, hcommit, heq⟩ := List.mem_map.mp hmem
    refine List.mem_append_right _ (List.mem_map.mpr ⟨commit, ?_, heq⟩)
    exact (List.mem_filter.mp hcommit).1
  refine h.of_call hcall rfl hversioned (fun commit hcommit => Or.inl hcommit) ?_ ?_
  · exact fun j hj => .of_service h.versioned rfl rfl hstep
  · refine hacc.advance rfl hdb ?_ ?_ ?_ ?_ ?_
    · rw [hstage]
      rfl
    · exact hacc.saved (by rw [hstage]; rfl)
    · intro area version hnext
      cases hnext
    · intro entity rebuild hnext
      obtain ⟨rfl, rfl⟩ := CreateStage.refreshing.inj hnext
      refine ⟨st.cluster.db.areas.rows, ?_, hrow⟩
      cases hstep
      simp [committed?, enqueueRebuild, PromiseChains.append]
    · intro area hnext
      cases hnext

theorem Consistent.resolve {st : AreaCreations} {i rebuild : Nat} {call : CreateCall}
    {area : AreaEntity} (h : Consistent st) (hcall : st.calls[i]? = some call)
    (hstage : call.stage = .refreshing area rebuild)
    (hresolved : (st.cluster.instances call.process).rebuilds rebuild = .resolved) :
    Consistent (st.setStage i (.resolved area)) := by
  have hacc := h.calls i call hcall
  refine h.of_quiet hcall rfl rfl rfl (fun _ _ hlock => hlock) ?_ ?_ ?_ ?_ ?_
  · rw [hstage]
    rfl
  · exact hacc.saved (by rw [hstage]; rfl)
  · exact fun area version hnext => nomatch hnext
  · exact fun area rebuild hnext => nomatch hnext
  · intro entity hnext
    obtain rfl := CreateStage.resolved.inj hnext
    obtain ⟨committed, hcommitted, hmem⟩ := hacc.called area rebuild hstage
    obtain ⟨s, hs, hsub⟩ := (h.versioned.sound call.process).resolved rebuild hresolved
    exact ⟨s, hs, hsub committed hcommitted hmem⟩

theorem Consistent.callStep {gis : PostGis} {st t : AreaCreations} {i : Nat} {call : CreateCall}
    {action : CallAction} (h : Consistent st) (hcall : st.calls[i]? = some call)
    (hconfirms : st.confirmsCommits (.call i action) = true)
    (hstep : st.callStep gis i call action = some t) : Consistent t := by
  have hacc := h.calls i call hcall
  cases action with
  | validity =>
    simp only [AreaCreations.callStep] at hstep
    split at hstep
    · rename_i hstage
      split at hstep
      · cases hstep
        exact h.of_blank hcall (by rw [hstage]; rfl) rfl rfl rfl rfl fun _ _ hlock => hlock
      · cases hstep
        exact h.of_blank hcall (by rw [hstage]; rfl) rfl rfl rfl rfl fun _ _ hlock => hlock
    · cases hstep
  | insert id =>
    simp only [AreaCreations.callStep] at hstep
    split at hstep
    · rename_i hstage
      split at hstep
      · cases hstep
      · cases hstep
        refine h.of_quiet hcall rfl rfl rfl (fun _ _ hlock => hlock) (by rw [hstage]; rfl)
          ?_ ?_ ?_ ?_
        · intro area harea
          obtain rfl := Option.some.inj harea
          exact ⟨rfl, rfl⟩
        · exact fun area version hnext => nomatch hnext
        · exact fun area rebuild hnext => nomatch hnext
        · exact fun area hnext => nomatch hnext
    · cases hstep
  | bump =>
    simp only [AreaCreations.callStep] at hstep
    split at hstep
    · rename_i area hfree hstage
      cases hstep
      refine h.of_quiet hcall rfl rfl rfl ?_ (by rw [hstage]; rfl) ?_ ?_ ?_ ?_
      · intro j hj hlock
        rw [hfree] at hlock
        cases hlock
      · exact hacc.saved (by rw [hstage]; rfl)
      · intro entity version hnext
        obtain ⟨-, rfl⟩ := CreateStage.committing.inj hnext
        exact ⟨rfl, rfl⟩
      · exact fun area rebuild hnext => nomatch hnext
      · exact fun area hnext => nomatch hnext
    · cases hstep
  | commit =>
    simp only [AreaCreations.callStep] at hstep
    split at hstep
    · rename_i area version hstage
      obtain ⟨cluster, hcommit, rfl⟩ := Option.map_eq_some_iff.mp hstep
      exact h.commit hcall hstage hcommit
    · cases hstep
  | refreshNow =>
    simp only [AreaCreations.callStep] at hstep
    split at hstep
    · rename_i area hstage
      obtain ⟨cluster, hrefresh, rfl⟩ := Option.map_eq_some_iff.mp hstep
      exact h.refreshNow hcall hstage hrefresh
    · cases hstep
  | settle =>
    simp only [AreaCreations.callStep] at hstep
    split at hstep
    · rename_i area rebuild hstage
      split at hstep
      · rename_i hresolved
        cases hstep
        exact h.resolve hcall hstage hresolved
      · rename_i hrejected
        simp only [confirmsCommits, hcall, hstage, hrejected] at hconfirms
        cases hconfirms
      · cases hstep
    · cases hstep
  | fail =>
    have hnone : call.stage.committedRows = [] ∧
        t = (st.setStage i (.rejected .query)).unlock i := by
      simp only [AreaCreations.callStep] at hstep
      split at hstep
      all_goals first
        | cases hstep; done
        | rename_i hstage
          cases hstep
          rw [hstage]
          exact ⟨rfl, rfl⟩
    obtain ⟨hrows, rfl⟩ := hnone
    exact h.of_blank hcall hrows rfl rfl rfl rfl fun j hj hlock => unlock_of_ne hj hlock
  | loseAnswer => cases hconfirms

theorem Consistent.step {gis : PostGis} {st t : AreaCreations} {action : CreateAction}
    (h : Consistent st) (hconfirms : st.confirmsCommits action = true)
    (hstep : st.step gis action = some t) : Consistent t := by
  cases action with
  | create process dto =>
    cases hstep
    refine ⟨h.versioned, ?_, ?_⟩
    · intro commit hcommit
      rw [List.length_append]
      exact Nat.lt_add_right _ (h.commits commit hcommit)
    · intro i call hcall
      rw [List.getElem?_append] at hcall
      split at hcall
      · exact (h.calls i call hcall).unaffected (.of_lock rfl rfl id)
      · rename_i hlt
        rw [List.getElem?_singleton] at hcall
        split at hcall
        · rename_i hi
          cases hcall
          have hnone : st.commits.drop st.commits.length = [] := List.drop_length
          refine ⟨Nat.le_refl _, ?_, ?_, ?_, ?_, ?_, ?_, ?_⟩
          · simp only [since, hnone, List.map_nil, List.append_nil]
          · simp only [since, hnone, List.length_nil, Nat.add_zero]
          · simp only [since, hnone]
            rfl
          · exact fun area harea => nomatch harea
          · exact fun area version hnext => nomatch hnext
          · exact fun area rebuild hnext => nomatch hnext
          · exact fun area hnext => nomatch hnext
        · cases hcall
  | call i action =>
    obtain ⟨call, hcall, hstep⟩ := Option.bind_eq_some_iff.mp hstep
    exact h.callStep hcall hconfirms hstep
  | service process action =>
    obtain ⟨cluster, hservice, rfl⟩ := Option.map_eq_some_iff.mp hstep
    refine ⟨h.versioned.step hservice, h.commits, ?_⟩
    intro i call hcall
    exact (h.calls i call hcall).unaffected (.of_service h.versioned rfl rfl hservice)

/-- A call that has committed rejects: what it has committed stays. -/
theorem Consistent.not_atomicOutcomes {st : AreaCreations} {i : Nat} {call : CreateCall}
    {area : AreaEntity} {error : CreateError} (h : Consistent st)
    (hcall : st.calls[i]? = some call) (hrows : call.stage.committedRows = [area.row]) :
    ¬ AtomicOutcomes (st.setStage i (.rejected error)) := by
  intro hatomic
  have hnext : (st.setStage i (.rejected error)).calls[i]? =
      some { call with stage := .rejected error } := by
    rw [setStage, List.getElem?_modify_eq, hcall]
    rfl
  have hown := (h.calls i call hcall).own
  rw [hrows] at hown
  have hmem : area.row ∈ rowsOf i (st.since call) := by
    rw [hown]
    exact List.mem_singleton_self _
  obtain ⟨commit, hcommit, -⟩ := List.mem_map.mp hmem
  obtain ⟨hsince, hi⟩ := List.mem_filter.mp hcommit
  exact hatomic.rejected i _ error hnext rfl commit hsince (by simpa using hi)

theorem Consistent.fault {gis : PostGis} {st t : AreaCreations} {action : CreateAction}
    (h : Consistent st) (hconfirms : ¬ st.confirmsCommits action = true)
    (hstep : st.step gis action = some t) : ¬ AtomicOutcomes t := by
  cases action with
  | create process dto => exact absurd rfl hconfirms
  | service process action => exact absurd rfl hconfirms
  | call i action =>
    obtain ⟨call, hcall, hstep⟩ := Option.bind_eq_some_iff.mp hstep
    cases action with
    | settle =>
      simp only [AreaCreations.callStep] at hstep
      split at hstep
      · rename_i area rebuild hstage
        split at hstep
        · rename_i hresolved
          simp only [confirmsCommits, hcall, hstage, hresolved] at hconfirms
          exact absurd trivial hconfirms
        · cases hstep
          exact h.not_atomicOutcomes hcall (by rw [hstage]; rfl)
        · cases hstep
      · cases hstep
    | loseAnswer =>
      simp only [AreaCreations.callStep] at hstep
      split at hstep
      · rename_i area hstage
        cases hstep
        exact h.not_atomicOutcomes hcall (by rw [hstage]; rfl)
      · cases hstep
    | _ => exact absurd rfl hconfirms

/-- Every reached state shows atomic outcomes exactly when no call resumes from a rejected refresh
and no commit's answer is lost. -/
theorem create_atomic_iff (gis : PostGis) (db : Database) (actions : List CreateAction)
    (st : AreaCreations) (hrun : (machine gis).run (start db) actions = some st) :
    (machine gis).Always AtomicOutcomes (start db) actions ↔
      (machine gis).Meets (fun u action => u.confirmsCommits action = true) (start db) actions :=
  (machine gis).always_iff_meets (fun _ _ _ h => h.step) (fun _ h => h.atomicOutcomes)
    (fun _ _ _ h => h.fault) (consistent_start db) hrun

/-- A square without its hole is taken for self-intersecting. -/
private def sampleGis : PostGis := ⟨fun boundary => decide (boundary.holes ≠ []), fun _ => none⟩

private def sampleDto : CreateAreaDto := ⟨"yard", squareWithHole⟩

private def invalidDto : CreateAreaDto := ⟨"bowtie", { squareWithHole with holes := [] }⟩

private def rebuildActions (process rebuild : Nat) : List CreateAction :=
  [.service process (.start rebuild), .service process (.queryVersion rebuild),
    .service process (.queryRows rebuild), .service process (.assign rebuild),
    .service process (.finish rebuild), .service process (.settle rebuild)]

private def insertActions (i : Nat) (id : AreaId) : List CreateAction :=
  [.call i .validity, .call i (.insert id)]

private def commitActions (i : Nat) : List CreateAction :=
  [.call i .bump, .call i .commit, .call i .refreshNow]

/-- Four calls on two instances: two of them overlap and resolve, the second one's refresh queued
behind a rebuild that fails, one is invalid and one loses its insert. -/
private def createsRun : List CreateAction :=
  [.create 0 sampleDto, .create 1 sampleDto, .create 0 invalidDto, .create 0 sampleDto] ++
    insertActions 0 "b" ++ insertActions 1 "c" ++ commitActions 0 ++
    [.call 2 .validity, .call 3 .validity, .call 3 .fail, .service 1 .refreshNow] ++
    commitActions 1 ++ rebuildActions 0 0 ++
    [.service 1 (.start 0), .service 1 (.queryVersion 0), .service 1 (.fail 0),
      .service 1 (.finish 0), .service 1 (.settle 0)] ++ rebuildActions 1 1 ++
    [.call 0 .settle, .call 1 .settle]

theorem create_atomic_iff_createsRun :
    ∃ st, (machine sampleGis).run (start (.initial sampleAreas)) createsRun = some st ∧
      (machine sampleGis).Always AtomicOutcomes (start (.initial sampleAreas)) createsRun ∧
      st.calls.map (·.stage) =
        [.resolved ⟨"b", "yard", squareWithHole⟩, .resolved ⟨"c", "yard", squareWithHole⟩,
          .rejected (.badRequest "invalid polygon: unknown reason"), .rejected .query] ∧
      st.cluster.db.areaVersion = 3 := by
  have hend : ((machine sampleGis).run (start (.initial sampleAreas)) createsRun).any
      (fun st => decide (st.calls.map (·.stage) =
        [.resolved ⟨"b", "yard", squareWithHole⟩, .resolved ⟨"c", "yard", squareWithHole⟩,
          .rejected (.badRequest "invalid polygon: unknown reason"), .rejected .query] ∧
      st.cluster.db.areaVersion = 3)) = true := by
    decide +kernel
  obtain ⟨st, hrun, hst⟩ := Machine.exists_end _ hend
  have hmeets : (machine sampleGis).Meets (fun u action => u.confirmsCommits action = true)
      (start (.initial sampleAreas)) createsRun := by
    decide +kernel
  exact ⟨st, hrun, (create_atomic_iff _ _ _ st hrun).mpr hmeets, hst⟩

/-- The area is committed, and the second query of the refresh after it fails. -/
private def refreshFailsRun : List CreateAction :=
  .create 0 sampleDto :: insertActions 0 "b" ++ commitActions 0 ++
    [.service 0 (.start 0), .service 0 (.queryVersion 0), .service 0 (.fail 0), .call 0 .settle]

theorem create_rejects_after_commit :
    ∃ st, (machine sampleGis).run (start (.initial sampleAreas)) refreshFailsRun = some st ∧
      ¬ AtomicOutcomes st ∧ st.calls.map (·.stage) = [.rejected .refresh] ∧
      st.calls.map (fun call => (call.before.areas.rows.length, call.before.areaVersion)) =
        [(1, 1)] ∧
      st.cluster.db.areas.rows.length = 2 ∧ st.cluster.db.areaVersion = 2 := by
  have hend : ((machine sampleGis).run (start (.initial sampleAreas)) refreshFailsRun).any
      (fun st => decide (st.calls.map (·.stage) = [.rejected .refresh] ∧
      st.calls.map (fun call => (call.before.areas.rows.length, call.before.areaVersion)) =
        [(1, 1)] ∧
      st.cluster.db.areas.rows.length = 2 ∧ st.cluster.db.areaVersion = 2) &&
        decide (st.calls.map (fun call => st.since call) = [[⟨0, ⟨"b", squareWithHole⟩⟩]])) =
        true := by
    decide +kernel
  obtain ⟨st, hrun, hst⟩ := (Option.any_eq_true ..).mp hend
  obtain ⟨hst, hsince⟩ := Bool.and_eq_true_iff.mp hst
  refine ⟨st, hrun, ?_, of_decide_eq_true hst⟩
  intro hatomic
  obtain ⟨hstages, -⟩ := of_decide_eq_true hst
  have hsince := of_decide_eq_true hsince
  obtain ⟨call, hcalls, hstage⟩ := List.map_eq_singleton_iff.mp hstages
  rw [hcalls, List.map_singleton, List.cons.injEq] at hsince
  have hmem : (⟨0, ⟨"b", squareWithHole⟩⟩ : AreaCommit) ∈ st.since call := by
    rw [hsince.1]
    exact List.mem_singleton_self _
  exact hatomic.rejected 0 call .refresh (by rw [hcalls]; rfl) hstage _ hmem rfl

end AreaCreations

end Geofence
