import Geofence.Areas.SnapshotService
/-!
# Snapshot versions across instances

Areas change only through `create`, whose row and version bump commit together. Whatever the
interleaving of creates, polls, refreshes and failures on any number of instances, no snapshot's
label runs ahead of its rows.
-/

namespace Geofence

open Framework AreaSnapshotService

structure AreaCluster where
  db : Database
  history : AreaHistory
  instances : Nat → AreaSnapshotService

inductive AreaAction where
  | create (row : AreaGeometryRow)
  | service (process : Nat) (action : SnapshotAction)

namespace AreaCluster

def start (db : Database) : AreaCluster :=
  ⟨db, [(db.areaVersion, db.areas.rows)], fun _ => .initial⟩

def step (st : AreaCluster) : AreaAction → Option AreaCluster
  | .create row =>
    (st.db.createArea row).map fun db =>
      { st with db, history := st.history ++ [(db.areaVersion, db.areas.rows)] }
  | .service process action =>
    ((st.instances process).step st.db action).map fun svc =>
      { st with instances := Function.update st.instances process svc }

def machine : Machine AreaCluster AreaAction := ⟨step⟩

structure Versioned (st : AreaCluster) : Prop where
  recorded : Recorded st.db st.history
  sound : ∀ process, Sound st.db st.history (st.instances process)

theorem versioned_start (db : Database) : Versioned (start db) := by
  refine ⟨⟨List.mem_singleton_self _, ?_⟩, fun process => sound_initial _ _⟩
  intro entry hentry
  rw [List.mem_singleton.mp hentry]
  exact ⟨Nat.le_refl _, List.Subset.refl _⟩

theorem Versioned.step {st t : AreaCluster} {action : AreaAction} (h : Versioned st)
    (hstep : st.step action = some t) : Versioned t := by
  cases action with
  | create row =>
    obtain ⟨db, hcreate, rfl⟩ := Option.map_eq_some_iff.mp hstep
    exact ⟨h.recorded.create hcreate, fun process => (h.sound process).create hcreate⟩
  | service process action =>
    obtain ⟨svc, hsvc, rfl⟩ := Option.map_eq_some_iff.mp hstep
    refine ⟨h.recorded, fun other => ?_⟩
    change Sound st.db st.history (Function.update st.instances process svc other)
    by_cases hother : other = process
    · rw [hother, Function.update_self]
      exact (h.sound process).step h.recorded (step_cases hsvc)
    · rw [Function.update_of_ne hother]
      exact h.sound other

theorem versioned_of_run {st t : AreaCluster} {actions : List AreaAction} (h : Versioned st)
    (hrun : machine.run st actions = some t) : Versioned t :=
  machine.run_invariant (fun _ _ _ hs hstep => hs.step hstep) h hrun

theorem forward_of_step {st t : AreaCluster} {action : AreaAction} (h : Versioned st)
    (hstep : st.step action = some t) (process : Nat) :
    Forward (st.instances process).snapshot (t.instances process).snapshot := by
  cases action with
  | create row =>
    obtain ⟨db, hcreate, rfl⟩ := Option.map_eq_some_iff.mp hstep
    exact Forward.refl _
  | service other action =>
    obtain ⟨svc, hsvc, rfl⟩ := Option.map_eq_some_iff.mp hstep
    change Forward _ (Function.update st.instances other svc process).snapshot
    by_cases hother : process = other
    · rw [hother, Function.update_self]
      exact (h.sound other).forward (step_cases hsvc)
    · rw [Function.update_of_ne hother]
      exact Forward.refl _

private theorem forward_of_run {st t : AreaCluster} {actions : List AreaAction} (h : Versioned st)
    (hrun : machine.run st actions = some t) (process : Nat) :
    Forward (st.instances process).snapshot (t.instances process).snapshot := by
  induction actions generalizing st with
  | nil =>
    cases hrun
    exact Forward.refl _
  | cons action actions ih =>
    obtain ⟨u, hu, hrest⟩ := machine.run_cons_eq_some.mp hrun
    exact (forward_of_step h hu process).trans (ih (h.step hu) hrest)

private theorem over_of_run {st t : AreaCluster} {actions : List AreaAction} (h : Versioned st)
    (hrun : machine.run st actions = some t) (process : Nat) {rebuild : Nat}
    (hover : ((st.instances process).rebuilds rebuild).isOver) :
    (t.instances process).rebuilds rebuild = (st.instances process).rebuilds rebuild := by
  induction actions generalizing st with
  | nil =>
    cases hrun
    rfl
  | cons action actions ih =>
    obtain ⟨u, hu, hrest⟩ := machine.run_cons_eq_some.mp hrun
    have hsame : (u.instances process).rebuilds rebuild =
        (st.instances process).rebuilds rebuild := by
      cases action with
      | create row =>
        obtain ⟨db, hcreate, rfl⟩ := Option.map_eq_some_iff.mp hu
        rfl
      | service other action =>
        obtain ⟨svc, hsvc, rfl⟩ := Option.map_eq_some_iff.mp hu
        change (Function.update st.instances other svc process).rebuilds rebuild = _
        by_cases hother : process = other
        · subst hother
          rw [Function.update_self]
          exact (h.sound process).over_of_step (step_cases hsvc) hover
        · rw [Function.update_of_ne hother]
    rw [ih (h.step hu) hrest (by rw [hsame]; exact hover), hsame]

private theorem history_of_run {st t : AreaCluster} {actions : List AreaAction}
    (hrun : machine.run st actions = some t) : st.history ⊆ t.history := by
  refine machine.run_invariant (I := fun u => st.history ⊆ u.history) ?_ (List.Subset.refl _) hrun
  intro u action v hu hstep
  cases action with
  | create row =>
    obtain ⟨db, hcreate, rfl⟩ := Option.map_eq_some_iff.mp hstep
    exact List.subset_append_of_subset_left _ hu
  | service process action =>
    obtain ⟨svc, hsvc, rfl⟩ := Option.map_eq_some_iff.mp hstep
    exact hu

theorem committed?_of_run {st t : AreaCluster} {actions : List AreaAction} {process rebuild : Nat}
    {committed : List AreaGeometryRow}
    (h : (st.instances process).committed? rebuild = some committed)
    (hrun : machine.run st actions = some t) :
    (t.instances process).committed? rebuild = some committed := by
  refine machine.run_invariant
    (I := fun u => (u.instances process).committed? rebuild = some committed) ?_ h hrun
  intro u action v hu hstep
  cases action with
  | create row =>
    obtain ⟨db, hcreate, rfl⟩ := Option.map_eq_some_iff.mp hstep
    exact hu
  | service other action =>
    obtain ⟨svc, hsvc, rfl⟩ := Option.map_eq_some_iff.mp hstep
    change (Function.update u.instances other svc process).committed? rebuild = _
    by_cases hother : process = other
    · subst hother
      rw [Function.update_self]
      exact committed?_of_step hu (step_cases hsvc)
    · rw [Function.update_of_ne hother]
      exact hu

/-- A run of one instance is a run of the cluster. -/
theorem run_service {st : AreaCluster} {process : Nat} {actions : List SnapshotAction}
    {svc : AreaSnapshotService}
    (hrun : (Machine.mk (AreaSnapshotService.step st.db)).run (st.instances process) actions =
      some svc) :
    machine.run st (actions.map (.service process)) =
      some { st with instances := Function.update st.instances process svc } := by
  induction actions generalizing st with
  | nil =>
    cases hrun
    rw [Function.update_eq_self]
    rfl
  | cons action actions ih =>
    obtain ⟨u, hu, hrest⟩ := (Machine.mk _).run_cons_eq_some.mp hrun
    change AreaSnapshotService.step st.db (st.instances process) action = some u at hu
    rw [List.map_cons, machine.run_cons_eq_some]
    refine ⟨{ st with instances := Function.update st.instances process u }, ?_, ?_⟩
    · change (AreaSnapshotService.step st.db (st.instances process) action).map _ = _
      rw [hu, Option.map_some]
    · have hself : Function.update st.instances process u process = u := Function.update_self ..
      have hnext := @ih { st with instances := Function.update st.instances process u }
        (by rw [← hself] at hrest; exact hrest)
      rw [hnext]
      simp only [Function.update_idem]

/-- What holds of every instance in a state reached from `db` by `actions`. -/
structure SnapshotVersioning (db : Database) (actions : List AreaAction) (st : AreaCluster) :
    Prop where
  /-- After bootstrap there is a snapshot. -/
  built : ∀ process, (st.instances process).boot = .ready →
    ∃ s, (st.instances process).snapshot = some s
  /-- It has every area that was committed when the version was its label. -/
  complete : ∀ process s, (st.instances process).snapshot = some s →
    ∀ before after u, actions = before ++ after → machine.run (start db) before = some u →
      u.db.areaVersion = s.version → u.db.areas.rows ⊆ s.areas.rows
  /-- Under the committed version it is the areas table. -/
  exact : ∀ process s, (st.instances process).snapshot = some s → s.version = st.db.areaVersion →
    ∀ row, row ∈ s.areas.rows ↔ row ∈ st.db.areas.rows
  /-- Neither the label nor the area set goes backwards. -/
  forward : ∀ more t, machine.run st more = some t → ∀ process s,
    (st.instances process).snapshot = some s → ∃ s', (t.instances process).snapshot = some s' ∧
      s.version ≤ s'.version ∧ s.areas.rows ⊆ s'.areas.rows
  /-- When the rebuild of a `refreshNow` called here has resolved, the snapshot has every area
  committed here. -/
  readYourWrites : ∀ process v more t, st.step (.service process .refreshNow) = some v →
    machine.run v more = some t →
    (t.instances process).rebuilds (st.instances process).rebuildChain.tasks.length = .resolved →
    ∃ s, (t.instances process).snapshot = some s ∧ st.db.areas.rows ⊆ s.areas.rows
  /-- The snapshot changes only as a rebuild resolves, and a rebuild that is over stays as it
  ended: one that fails has left the snapshot as it was. -/
  failure : ∀ process action t, st.step (.service process action) = some t →
    (t.instances process).snapshot = (st.instances process).snapshot ∨
      ∃ rebuild, action = .assign rebuild ∧ (t.instances process).rebuilds rebuild = .resolved
  final : ∀ more t, machine.run st more = some t → ∀ process rebuild,
    ((st.instances process).rebuilds rebuild).isOver →
      (t.instances process).rebuilds rebuild = (st.instances process).rebuilds rebuild
  /-- Whatever has failed, every queued rebuild comes to its end, and those that have not failed
  resolve if their queries are answered. -/
  unblocked : ∀ process, ∃ (more : List SnapshotAction) (t : AreaCluster),
    (∀ action ∈ more, advances action = true) ∧
    machine.run st (more.map (.service process)) = some t ∧
    ∀ rebuild, rebuild < (st.instances process).rebuildChain.tasks.length →
      (t.instances process).rebuildChain.settled rebuild = true ∧
      ((st.instances process).rebuilds rebuild ≠ .rejected →
        (t.instances process).rebuilds rebuild = .resolved)

theorem snapshot_versioning (db : Database) (actions : List AreaAction) (st : AreaCluster)
    (hrun : machine.run (start db) actions = some st) : SnapshotVersioning db actions st := by
  have h : Versioned st := versioned_of_run (versioned_start db) hrun
  refine ⟨fun process => (h.sound process).built, ?_, ?_, ?_, ?_, ?_, ?_, ?_⟩
  · intro process s hs before after u hactions hbefore hlabel
    have hu : Versioned u := versioned_of_run (versioned_start db) hbefore
    obtain ⟨u', hu', hafter⟩ := machine.run_append_eq_some.mp (hactions ▸ hrun)
    rw [hbefore] at hu'
    cases hu'
    have hentry := history_of_run hafter hu.recorded.present
    exact ((h.sound process).label s hs).complete _ hentry (Nat.le_of_eq hlabel)
  · intro process s hs hlabel row
    have hbacked := (h.sound process).label s hs
    constructor
    · exact fun hrow => hbacked.committed hrow
    · exact fun hrow => hbacked.complete _ h.recorded.present (Nat.le_of_eq hlabel.symm) hrow
  · exact fun more t hmore process => forward_of_run h hmore process
  · intro process v more t hcall hmore hresolved
    have hv : Versioned v := h.step hcall
    have ht : Versioned t := versioned_of_run hv hmore
    cases hcall
    have hcommitted : ((Function.update st.instances process
        ((st.instances process).enqueueRebuild st.db.areas.rows)) process).committed?
          (st.instances process).rebuildChain.tasks.length = some st.db.areas.rows := by
      rw [Function.update_self]
      simp [committed?, enqueueRebuild, PromiseChains.append]
    have hkept := committed?_of_run hcommitted hmore
    obtain ⟨s, hs, hrows⟩ := (ht.sound process).resolved _ hresolved
    exact ⟨s, hs, hrows _ hkept⟩
  · intro process action t hstep
    obtain ⟨svc, hsvc, rfl⟩ := Option.map_eq_some_iff.mp hstep
    simp only [Function.update_self]
    cases step_cases hsvc with
    | assigned rebuild version areas hstage =>
      exact Or.inr ⟨rebuild, rfl, Function.update_self ..⟩
    | _ => exact Or.inl rfl
  · exact fun more t hmore process rebuild hover => over_of_run h hmore process hover
  · intro process
    obtain ⟨more, svc, hadvances, hsvc, hdone⟩ :=
      exists_drain (h.sound process) h.recorded
    refine ⟨more, _, hadvances, run_service hsvc, fun rebuild hlt => ?_⟩
    change ((Function.update st.instances process svc) process).rebuildChain.settled rebuild = true ∧ _
    simp only [Function.update_self]
    exact hdone rebuild hlt

private def secondArea : AreaGeometryRow := ⟨"b", squareWithHole⟩

private def rebuildRun (process rebuild : Nat) : List AreaAction :=
  [.service process (.start rebuild), .service process (.queryVersion rebuild),
    .service process (.queryRows rebuild), .service process (.assign rebuild),
    .service process (.finish rebuild), .service process (.settle rebuild)]

/-- Two instances boot, an area is created on the first between the two queries of a rebuild of
the second, the first one's refresh fails, and a poll of the second finds its label behind. -/
private def createRun : List AreaAction :=
  .service 0 .onApplicationBootstrap :: rebuildRun 0 0 ++
    [.service 0 .bootstrapped, .service 1 .onApplicationBootstrap, .service 1 (.start 0),
      .service 1 (.queryVersion 0), .create secondArea, .service 1 (.queryRows 0),
      .service 1 (.assign 0), .service 1 (.finish 0), .service 1 .bootstrapped,
      .service 0 .refreshNow, .service 0 (.start 1), .service 0 (.queryVersion 1),
      .service 0 (.fail 1), .service 1 .pollTick, .service 1 (.pollQuery 0),
      .service 1 (.pollCompare 0), .service 1 (.settle 0)] ++ rebuildRun 1 1

theorem snapshot_versioning_createRun :
    ∃ st, machine.run (start (.initial sampleAreas)) createRun = some st ∧
      SnapshotVersioning (.initial sampleAreas) createRun st ∧
      (st.instances 0).snapshot.map (fun s => (s.version, s.areas.rows.length)) = some (1, 1) ∧
      (st.instances 1).snapshot.map (fun s => (s.version, s.areas.rows.length)) = some (2, 2) := by
  have hend : (machine.run (start (.initial sampleAreas)) createRun).any (fun st => decide (
      (st.instances 0).snapshot.map (fun s => (s.version, s.areas.rows.length)) = some (1, 1) ∧
      (st.instances 1).snapshot.map (fun s => (s.version, s.areas.rows.length)) = some (2, 2))) =
        true := by
    decide +kernel
  obtain ⟨st, hrun, hst⟩ := Machine.exists_end _ hend
  exact ⟨st, hrun, snapshot_versioning _ createRun st hrun, hst⟩

end AreaCluster

end Geofence
