import Geofence.Areas.Creation
/-!
# Looking up what was created

An area passes `ST_IsValid` before its row is written, a rebuild reads the rows back through
`ST_AsGeoJSON`, and a point is looked up in the index of one instance. Calls of `create` and
rebuilds may fail anywhere, before a commit and after it.
-/

namespace Geofence

open Framework AreaSnapshotService

/-- PostGIS as a rebuild reads it. `ST_AsGeoJSON` prints at most nine decimals, so a boundary may
come back rounded. -/
structure PostGisGeometry extends PostGis where
  asGeoJson : Polygon → Polygon

def PostGisGeometry.readRow (gis : PostGisGeometry) (row : AreaGeometryRow) : AreaGeometryRow :=
  ⟨row.id, gis.asGeoJson row.boundary⟩

/-- The lookup of a point on an instance. -/
def AreaSnapshotService.findCoveringAreaIds (gis : PostGisGeometry) (lib : SpatialLibrary)
    (svc : AreaSnapshotService) (lng lat : ℚ) : Except String (List AreaId) :=
  match svc.snapshot with
  | none => .error "area snapshot not built — bootstrap has not completed"
  | some s =>
    .ok ((AreaSpatialIndex.ofRows (s.areas.rows.map gis.readRow)).findCoveringAreaIds lib lng lat)

/-- An area with its holes inside is found by its own boundary, whatever the others are. -/
private theorem AreaSpatialIndex.mem_findCoveringAreaIds (lib : SpatialLibrary)
    {rows : List AreaGeometryRow} (hids : (rows.map (·.id)).Nodup) {row : AreaGeometryRow}
    (hrow : row ∈ rows) (hholes : row.boundary.HolesInside) (lng lat : ℚ) :
    row.id ∈ (ofRows rows).findCoveringAreaIds lib lng lat ↔ row.boundary.Covers ⟨lng, lat⟩ := by
  have hturf := lib.turf.booleanPointInPolygon_iff ⟨lng, lat⟩ row.boundary hholes
  rw [(findCoveringAreaIds_ofRows_perm lib rows lng lat).mem_iff, List.mem_map]
  constructor
  · rintro ⟨found, hfound, hid⟩
    obtain ⟨hmem, hpasses⟩ := List.mem_filter.mp hfound
    have hsame : found = row := List.inj_on_of_nodup_map hids hmem hrow hid
    rw [hsame] at hpasses
    exact hturf.mp (Bool.and_eq_true_iff.mp hpasses).2
  · intro hcovers
    have hbox := toIndexedArea_intersects row hholes ⟨lng, lat⟩ hcovers
    exact ⟨row, List.mem_filter.mpr ⟨hrow, Bool.and_eq_true_iff.mpr ⟨hbox, hturf.mpr hcovers⟩⟩, rfl⟩

namespace AreaCreations

variable {gis : PostGis} {st t : AreaCreations}

/-- The entity has the boundary of the request, and the check has passed it. -/
structure Passed (gis : PostGis) (dto : CreateAreaDto) (area : AreaEntity) : Prop where
  boundary : area.boundary = dto.boundary
  valid : gis.isValid area.boundary = true

/-- What is known of call `i` at a stage, whatever has failed. -/
def Gated (gis : PostGis) (st : AreaCreations) (i : Nat) (call : CreateCall) : CreateStage → Prop
  | .validating | .rejected _ => True
  | .inserting => gis.isValid call.dto.boundary = true
  | .bumping area => Passed gis call.dto area
  | .committing area version => Passed gis call.dto area ∧ st.versionLock = some i ∧
      version = st.cluster.db.areaVersion + 1
  | .committed area => Passed gis call.dto area ∧ area.row ∈ st.cluster.db.areas.rows
  | .refreshing area rebuild => Passed gis call.dto area ∧
      ∃ committed, (st.cluster.instances call.process).committed? rebuild = some committed ∧
        area.row ∈ committed
  | .resolved area => Passed gis call.dto area ∧
      ∃ s, (st.cluster.instances call.process).snapshot = some s ∧ area.row ∈ s.areas.rows

/-- No row of the table is one that `ST_IsValid` refuses. -/
structure Guarded (gis : PostGis) (st : AreaCreations) : Prop where
  versioned : st.cluster.Versioned
  valid : ∀ row ∈ st.cluster.db.areas.rows, gis.isValid row.boundary = true
  calls : ∀ (i : Nat) call, st.calls[i]? = some call → Gated gis st i call call.stage

private theorem guarded_start {db : Database}
    (hstored : ∀ row ∈ db.areas.rows, gis.isValid row.boundary = true) :
    Guarded gis (start db) := by
  refine ⟨AreaCluster.versioned_start db, hstored, ?_⟩
  intro i call hcall
  cases hcall

theorem Gated.unaffected {j : Nat} {call : CreateCall} {stage : CreateStage}
    (h : Gated gis st j call stage) (hsame : Unaffected st t j) : Gated gis t j call stage := by
  cases stage with
  | validating => trivial
  | rejected error => trivial
  | inserting => exact h
  | bumping area => exact h
  | committing area version =>
    obtain ⟨hpassed, hlock, hversion⟩ := h
    obtain ⟨hlock', hversion'⟩ := hsame.lock hlock
    exact ⟨hpassed, hlock', by omega⟩
  | committed area =>
    obtain ⟨hpassed, hrow⟩ := h
    refine ⟨hpassed, ?_⟩
    rcases hsame.changes with ⟨-, hdb⟩ | ⟨commit, -, -, hrows, -⟩
    · rw [hdb]
      exact hrow
    · rw [hrows]
      exact List.mem_append_left _ hrow
  | refreshing area rebuild =>
    obtain ⟨hpassed, committed, hcommitted, hrow⟩ := h
    exact ⟨hpassed, committed, hsame.committed _ _ _ hcommitted, hrow⟩
  | resolved area =>
    obtain ⟨hpassed, s, hs, hrow⟩ := h
    obtain ⟨s', hs', -, hsub⟩ := hsame.forward call.process s hs
    exact ⟨hpassed, s', hs', hsub hrow⟩

section Steps

variable {i : Nat} {call : CreateCall} {area : AreaEntity} {next : CreateStage}

theorem Guarded.of_call (h : Guarded gis st) (hcall : st.calls[i]? = some call)
    (hcalls : t.calls = (st.setStage i next).calls) (hversioned : t.cluster.Versioned)
    (hvalid : ∀ row ∈ t.cluster.db.areas.rows, gis.isValid row.boundary = true)
    (hothers : ∀ j, j ≠ i → Unaffected st t j) (hown : Gated gis t i call next) :
    Guarded gis t := by
  refine ⟨hversioned, hvalid, ?_⟩
  intro j other hother
  rw [hcalls, setStage, List.getElem?_modify] at hother
  by_cases hj : i = j
  · subst hj
    rw [hcall] at hother
    simp only [if_true, Option.map_eq_map, Option.map_some, Option.some.injEq] at hother
    rw [← hother]
    cases next <;> exact hown
  · simp only [if_neg hj, id_map'] at hother
    exact (h.calls j other hother).unaffected (hothers j (Ne.symm hj))

theorem Guarded.of_quiet (h : Guarded gis st) (hcall : st.calls[i]? = some call)
    (hcalls : t.calls = (st.setStage i next).calls) (hcluster : t.cluster = st.cluster)
    (hcommits : t.commits = st.commits)
    (hlock : ∀ j, j ≠ i → st.versionLock = some j → t.versionLock = some j)
    (hown : Gated gis t i call next) : Guarded gis t := by
  refine h.of_call hcall hcalls (by rw [hcluster]; exact h.versioned) ?_ ?_ hown
  · rw [hcluster]
    exact h.valid
  · exact fun j hj => .of_lock hcommits hcluster (hlock j hj)

theorem Guarded.at_stage (h : Guarded gis st) (hcall : st.calls[i]? = some call)
    (hstage : call.stage = next) : Gated gis st i call next :=
  hstage ▸ h.calls i call hcall

theorem Guarded.commit {version : Nat} {cluster : AreaCluster} (h : Guarded gis st)
    (hcall : st.calls[i]? = some call) (hstage : call.stage = .committing area version)
    (hcommit : st.cluster.commitArea area.row version = some cluster) :
    Guarded gis { (st.setStage i (.committed area)).unlock i with
      cluster, commits := st.commits ++ [⟨i, area.row⟩] } := by
  obtain ⟨hpassed, hlock, hversion⟩ := h.at_stage hcall hstage
  rw [AreaCluster.commitArea_eq_step hversion] at hcommit
  have hversioned := h.versioned.step hcommit
  have hforward := AreaCluster.forward_of_step h.versioned hcommit
  have hkept : ∀ process rebuild committed,
      (st.cluster.instances process).committed? rebuild = some committed →
        (cluster.instances process).committed? rebuild = some committed :=
    fun _ _ _ hcommitted => AreaCluster.committed?_of_step hcommitted hcommit
  obtain ⟨db, hcreate, rfl⟩ := Option.map_eq_some_iff.mp hcommit
  obtain ⟨hrows, hbumped, -, -⟩ := Database.createArea_eq_some hcreate
  refine h.of_call hcall rfl hversioned ?_ ?_ ⟨hpassed, ?_⟩
  · intro row hrow
    change row ∈ db.areas.rows at hrow
    rw [hrows] at hrow
    rcases List.mem_append.mp hrow with hold | hnew
    · exact h.valid row hold
    · rw [List.mem_singleton.mp hnew]
      exact hpassed.valid
  · intro j hj
    refine ⟨Or.inr ⟨⟨i, area.row⟩, Ne.symm hj, rfl, hrows, hbumped⟩, ?_, hkept, hforward⟩
    intro hother
    rw [hlock, Option.some.injEq] at hother
    exact absurd hother.symm hj
  · change area.row ∈ db.areas.rows
    rw [hrows]
    exact List.mem_append_right _ (List.mem_singleton_self _)

theorem Guarded.refreshNow {cluster : AreaCluster} (h : Guarded gis st)
    (hcall : st.calls[i]? = some call) (hstage : call.stage = .committed area)
    (hstep : st.cluster.step (.service call.process .refreshNow) = some cluster) :
    Guarded gis { st.setStage i (.refreshing area
      (st.cluster.instances call.process).rebuildChain.tasks.length) with cluster } := by
  obtain ⟨hpassed, hrow⟩ := h.at_stage hcall hstage
  have hdb := AreaCluster.db_of_service hstep
  refine h.of_call hcall rfl (h.versioned.step hstep) ?_ ?_ ⟨hpassed, ?_⟩
  · change ∀ row ∈ cluster.db.areas.rows, gis.isValid row.boundary = true
    rw [hdb]
    exact h.valid
  · exact fun j hj => .of_service h.versioned rfl rfl hstep
  · refine ⟨st.cluster.db.areas.rows, ?_, hrow⟩
    cases hstep
    simp [committed?, enqueueRebuild, PromiseChains.append]

theorem Guarded.resolve {rebuild : Nat} (h : Guarded gis st) (hcall : st.calls[i]? = some call)
    (hstage : call.stage = .refreshing area rebuild)
    (hresolved : (st.cluster.instances call.process).rebuilds rebuild = .resolved) :
    Guarded gis (st.setStage i (.resolved area)) := by
  obtain ⟨hpassed, committed, hcommitted, hrow⟩ := h.at_stage hcall hstage
  obtain ⟨s, hs, hsub⟩ := (h.versioned.sound call.process).resolved rebuild hresolved
  exact h.of_quiet hcall rfl rfl rfl (fun _ _ hlock => hlock)
    ⟨hpassed, s, hs, hsub committed hcommitted hrow⟩

theorem Guarded.callStep {action : CallAction} (h : Guarded gis st)
    (hcall : st.calls[i]? = some call) (hstep : st.callStep gis i call action = some t) :
    Guarded gis t := by
  have hquiet : ∀ j, j ≠ i → st.versionLock = some j → st.versionLock = some j :=
    fun _ _ hlock => hlock
  cases action with
  | validity =>
    simp only [AreaCreations.callStep] at hstep
    split at hstep
    · split at hstep
      · rename_i hvalid
        cases hstep
        exact h.of_quiet hcall rfl rfl rfl hquiet hvalid
      · cases hstep
        exact h.of_quiet hcall rfl rfl rfl hquiet trivial
    · cases hstep
  | insert id =>
    simp only [AreaCreations.callStep] at hstep
    split at hstep
    · rename_i hstage
      have hvalid := h.at_stage hcall hstage
      split at hstep
      · cases hstep
      · cases hstep
        exact h.of_quiet hcall rfl rfl rfl hquiet ⟨rfl, hvalid⟩
    · cases hstep
  | bump =>
    simp only [AreaCreations.callStep] at hstep
    split at hstep
    · rename_i area hfree hstage
      have hpassed := h.at_stage hcall hstage
      cases hstep
      refine h.of_quiet hcall rfl rfl rfl ?_ ⟨hpassed, rfl, rfl⟩
      intro j hj hlock
      rw [hfree] at hlock
      cases hlock
    · cases hstep
  | commit =>
    simp only [AreaCreations.callStep] at hstep
    split at hstep
    · rename_i area version hstage
      obtain ⟨cluster, hcommit, rfl⟩ := Option.map_eq_some_iff.mp hstep
      exact h.commit hcall hstage hcommit
    · cases hstep
  | refreshNow =>
    simp only [AreaCreations.callStep] at hstep
    split at hstep
    · rename_i area hstage
      obtain ⟨cluster, hrefresh, rfl⟩ := Option.map_eq_some_iff.mp hstep
      exact h.refreshNow hcall hstage hrefresh
    · cases hstep
  | settle =>
    simp only [AreaCreations.callStep] at hstep
    split at hstep
    · rename_i area rebuild hstage
      split at hstep
      · rename_i hresolved
        cases hstep
        exact h.resolve hcall hstage hresolved
      · cases hstep
        exact h.of_quiet hcall rfl rfl rfl hquiet trivial
      · cases hstep
    · cases hstep
  | fail =>
    have hrejects : t = (st.setStage i (.rejected .query)).unlock i := by
      simp only [AreaCreations.callStep] at hstep
      split at hstep
      all_goals first
        | cases hstep; done
        | cases hstep; rfl
    subst hrejects
    exact h.of_quiet hcall rfl rfl rfl (fun j hj hlock => unlock_of_ne hj hlock) trivial
  | loseAnswer =>
    simp only [AreaCreations.callStep] at hstep
    split at hstep
    · cases hstep
      exact h.of_quiet hcall rfl rfl rfl hquiet trivial
    · cases hstep

theorem Guarded.step {action : CreateAction} (h : Guarded gis st)
    (hstep : st.step gis action = some t) : Guarded gis t := by
  cases action with
  | create process dto =>
    cases hstep
    refine ⟨h.versioned, h.valid, ?_⟩
    intro j other hother
    rw [List.getElem?_append] at hother
    split at hother
    · exact (h.calls j other hother).unaffected (.of_lock rfl rfl id)
    · rw [List.mem_singleton.mp (List.mem_of_getElem? hother)]
      trivial
  | call i action =>
    obtain ⟨call, hcall, hstep⟩ := Option.bind_eq_some_iff.mp hstep
    exact h.callStep hcall hstep
  | service process action =>
    obtain ⟨cluster, hservice, rfl⟩ := Option.map_eq_some_iff.mp hstep
    refine ⟨h.versioned.step hservice, ?_, ?_⟩
    · change ∀ row ∈ cluster.db.areas.rows, gis.isValid row.boundary = true
      rw [AreaCluster.db_of_service hservice]
      exact h.valid
    · intro j other hother
      exact (h.calls j other hother).unaffected (.of_service h.versioned rfl rfl hservice)

private theorem guarded_of_run {db : Database} {actions : List CreateAction}
    (hstored : ∀ row ∈ db.areas.rows, gis.isValid row.boundary = true)
    (hrun : (machine gis).run (start db) actions = some st) : Guarded gis st :=
  (machine gis).run_invariant (fun _ _ _ h hstep => h.step hstep) (guarded_start hstored) hrun

end Steps

/-- What an instance answers for a point. Only areas that come back from PostGIS as they were
written are found by the boundary of their request. -/
structure Answers (gis : PostGisGeometry) (st : AreaCreations) (process : Nat) (lng lat : ℚ)
    (ids : List AreaId) : Prop where
  nodup : ids.Nodup
  known : ∀ id ∈ ids, ∃ row ∈ st.cluster.db.areas.rows, row.id = id ∧
    (gis.asGeoJson row.boundary = row.boundary → row.boundary.Covers ⟨lng, lat⟩)
  current : (st.cluster.instances process).snapshot.map (·.version) =
      some st.cluster.db.areaVersion →
    ∀ row ∈ st.cluster.db.areas.rows, gis.asGeoJson row.boundary = row.boundary →
      (row.id ∈ ids ↔ row.boundary.Covers ⟨lng, lat⟩)
  created : ∀ (i : Nat) call area, st.calls[i]? = some call → call.process = process →
    call.stage = .resolved area → gis.asGeoJson call.dto.boundary = call.dto.boundary →
      (area.id ∈ ids ↔ call.dto.boundary.Covers ⟨lng, lat⟩)

section Answers

variable {gis : PostGisGeometry}

theorem mem_answer_iff (hvalid : ∀ boundary, gis.isValid boundary = true → boundary.HolesInside)
    (lib : SpatialLibrary) (s : Snapshot) {row : AreaGeometryRow} (hrow : row ∈ s.areas.rows)
    (hpassed : gis.isValid row.boundary = true)
    (hread : gis.asGeoJson row.boundary = row.boundary) (lng lat : ℚ) :
    row.id ∈ (AreaSpatialIndex.ofRows (s.areas.rows.map gis.readRow)).findCoveringAreaIds lib
      lng lat ↔ row.boundary.Covers ⟨lng, lat⟩ := by
  have hids : ((s.areas.rows.map gis.readRow).map (·.id)).Nodup := by
    rw [List.map_map]
    exact s.areas.primaryKey
  have hsame : gis.readRow row = row := by rw [PostGisGeometry.readRow, hread]
  exact AreaSpatialIndex.mem_findCoveringAreaIds lib hids
    (List.mem_map.mpr ⟨row, hrow, hsame⟩) (hvalid row.boundary hpassed) lng lat

theorem Guarded.answers {lib : SpatialLibrary} {process : Nat} {lng lat : ℚ} {ids : List AreaId}
    (h : Guarded gis.toPostGis st)
    (hvalid : ∀ boundary, gis.isValid boundary = true → boundary.HolesInside)
    (hanswer : (st.cluster.instances process).findCoveringAreaIds gis lib lng lat = .ok ids) :
    Answers gis st process lng lat ids := by
  simp only [AreaSnapshotService.findCoveringAreaIds] at hanswer
  split at hanswer
  · cases hanswer
  rename_i s hs
  cases hanswer
  have hlabel := (h.versioned.sound process).label s hs
  refine ⟨?_, ?_, ?_, ?_⟩
  · apply AreaSpatialIndex.findCoveringAreaIds_nodup
    rw [List.map_map]
    exact s.areas.primaryKey
  · intro id hid
    have hmem := (AreaSpatialIndex.findCoveringAreaIds_ofRows_perm lib _ lng lat).mem_iff.mp hid
    obtain ⟨read, hread, rfl⟩ := List.mem_map.mp hmem
    obtain ⟨row, hrow, rfl⟩ := List.mem_map.mp (List.mem_filter.mp hread).1
    have hthere := hlabel.committed hrow
    refine ⟨row, hthere, rfl, ?_⟩
    intro hsame
    exact (mem_answer_iff hvalid lib s hrow (h.valid row hthere) hsame lng lat).mp hid
  · intro hversion row hrow hsame
    rw [hs, Option.map_some, Option.some.injEq] at hversion
    have hserved : row ∈ s.areas.rows :=
      hlabel.complete _ h.versioned.recorded.present (Nat.le_of_eq hversion.symm) hrow
    exact mem_answer_iff hvalid lib s hserved (h.valid row hrow) hsame lng lat
  · intro i call area hcall hprocess hstage hsame
    obtain ⟨hpassed, s', hs', hrow⟩ := h.at_stage hcall hstage
    rw [hprocess, hs] at hs'
    cases hs'
    rw [← hpassed.boundary] at hsame ⊢
    exact mem_answer_iff hvalid lib s hrow hpassed.valid hsame lng lat

/-- From a table of valid areas, whatever fails, only valid areas are written, an instance that has
booted answers, and every answer is of the areas that cover the point. -/
theorem created_areas_looked_up (gis : PostGisGeometry) (lib : SpatialLibrary) (db : Database)
    (actions : List CreateAction) (st : AreaCreations)
    (hvalid : ∀ boundary, gis.isValid boundary = true → boundary.HolesInside)
    (hstored : ∀ row ∈ db.areas.rows, gis.isValid row.boundary = true)
    (hrun : (machine gis.toPostGis).run (start db) actions = some st) :
    (∀ row ∈ st.cluster.db.areas.rows, gis.isValid row.boundary = true) ∧
      ∀ process lng lat,
        ((st.cluster.instances process).boot = .ready → ∃ ids,
          (st.cluster.instances process).findCoveringAreaIds gis lib lng lat = .ok ids) ∧
        ∀ ids, (st.cluster.instances process).findCoveringAreaIds gis lib lng lat = .ok ids →
          Answers gis st process lng lat ids := by
  have h := guarded_of_run hstored hrun
  refine ⟨h.valid, fun process lng lat => ⟨?_, fun ids => h.answers hvalid⟩⟩
  intro hboot
  obtain ⟨s, hs⟩ := (h.versioned.sound process).built hboot
  rw [AreaSnapshotService.findCoveringAreaIds, hs]
  exact ⟨_, rfl⟩

end Answers

/-- A square without holes. -/
private def square : Polygon := { squareWithHole with holes := [] }

/-- PostGIS on that square. -/
private def squareGis : PostGisGeometry where
  isValid boundary := decide (boundary = square)
  isValidReason _ := some "Self-intersection"
  asGeoJson boundary := boundary

private def lookupRun : List CreateAction :=
  [.service 0 .onApplicationBootstrap, .service 0 (.start 0), .service 0 (.queryVersion 0),
    .service 0 (.queryRows 0), .service 0 (.assign 0), .service 0 (.finish 0),
    .service 0 (.settle 0), .service 0 .bootstrapped, .create 0 ⟨"yard", square⟩,
    .call 0 .validity, .call 0 (.insert "b"), .call 0 .bump, .call 0 .commit, .call 0 .refreshNow,
    .service 0 (.start 1), .service 0 (.queryVersion 1), .service 0 (.queryRows 1),
    .service 0 (.assign 1), .call 0 .settle]

/-- The corner belongs to the area. -/
theorem created_areas_looked_up_corner :
    ∃ st ids, (machine squareGis.toPostGis).run (start (.initial ⟨[], .nil⟩)) lookupRun = some st ∧
      (st.cluster.instances 0).findCoveringAreaIds squareGis .reference 10 10 = .ok ids ∧
      "b" ∈ ids := by
  have hend : ((machine squareGis.toPostGis).run (start (.initial ⟨[], .nil⟩)) lookupRun).any
      (fun st => decide (st.calls.map (fun call => (call.process, call.dto.boundary, call.stage)) =
          [(0, square, .resolved ⟨"b", "yard", square⟩)] ∧
        (st.cluster.instances 0).snapshot.isSome = true)) = true := by
    decide +kernel
  obtain ⟨st, hrun, hcalls, hbuilt⟩ := Machine.exists_end _ hend
  obtain ⟨call, hcall, hfields⟩ := List.map_eq_singleton_iff.mp hcalls
  simp only [Prod.mk.injEq] at hfields
  obtain ⟨hprocess, hboundary, hstage⟩ := hfields
  have hvalid : ∀ boundary, squareGis.isValid boundary = true → boundary.HolesInside := by
    intro boundary hsquare hole hhole
    rw [of_decide_eq_true hsquare] at hhole
    cases hhole
  have hstored : ∀ row ∈ (Database.initial ⟨[], .nil⟩).areas.rows,
      squareGis.isValid row.boundary = true := by
    intro row hrow
    cases hrow
  have hanswer : ∃ ids,
      (st.cluster.instances 0).findCoveringAreaIds squareGis .reference 10 10 = .ok ids := by
    obtain ⟨s, hs⟩ := Option.isSome_iff_exists.mp hbuilt
    rw [AreaSnapshotService.findCoveringAreaIds, hs]
    exact ⟨_, rfl⟩
  obtain ⟨ids, hids⟩ := hanswer
  have hanswers := ((created_areas_looked_up squareGis .reference _ lookupRun st hvalid hstored
    hrun).2 0 10 10).2 ids hids
  have hfound := hanswers.created 0 call _ (by rw [hcall]; rfl) hprocess hstage rfl
  rw [hboundary] at hfound
  exact ⟨st, ids, hrun, hids, hfound.mpr (by decide +kernel)⟩

end AreaCreations

end Geofence
