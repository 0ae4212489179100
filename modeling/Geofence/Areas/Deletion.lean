import Geofence.Areas.Versioning
/-!
# Areas deleted out of band

The service has no way to delete an area, and raw SQL that does takes the presence and log rows
along and leaves `area_version` as it is. An instance learns of it when a rebuild reads the rows
again, and a poll asks for a rebuild only when the version it reads is not its snapshot's label.
-/

namespace Geofence

open Framework AreaSnapshotService

def AreasTable.ids (table : AreasTable) : List AreaId := table.rows.map (·.id)

/-- `DELETE FROM "areas" WHERE "id" = $1`, with what the foreign keys take along. -/
def Database.deleteArea (db : Database) (areaId : AreaId) : Option Database :=
  if areaId ∈ db.areas.ids then
    some { db with
      areas := ⟨db.areas.rows.filter fun row => row.id ≠ areaId,
        (List.filter_sublist.map _).nodup db.areas.primaryKey⟩
      presence := ⟨db.presence.rows.filter fun row => row.areaId ≠ areaId,
        (List.filter_sublist.map _).nodup db.presence.primaryKey⟩
      logs := db.logs.filter fun row => row.areaId ≠ areaId }
  else none

/-- A poll: the areas that had been deleted when it began, and what its comparison led to, which
is no rebuild or the one it awaits. -/
structure PollRecord where
  deletedBefore : List AreaId
  compared : Option (Option Nat)
  deriving DecidableEq

/-- Any number of instances over one database. `createdAt` is the version an area was created
under. -/
structure AreaDeletions where
  db : Database
  deleted : List AreaId
  createdAt : AreaId → Nat
  instances : Nat → AreaSnapshotService
  polls : Nat → List PollRecord

inductive DeletionAction where
  | create (row : AreaGeometryRow)
  | delete (areaId : AreaId)
  | service (process : Nat) (action : SnapshotAction)

/-- What is known of an instance's polls after an action of it. -/
def AreaSnapshotService.recordPolls (svc : AreaSnapshotService) (deleted : List AreaId)
    (polls : List PollRecord) : SnapshotAction → List PollRecord
  | .pollTick => polls ++ [⟨deleted, none⟩]
  | .pollCompare poll =>
    match svc.polls[poll]? with
    | some (.comparing version) =>
      polls.modify poll fun record => { record with
        compared := some (if svc.snapshot.map (·.version) ≠ some version then
          some svc.rebuildChain.tasks.length else none) }
    | _ => polls
  | _ => polls

namespace AreaDeletions

def start (db : Database) : AreaDeletions := ⟨db, [], fun _ => 0, fun _ => .initial, fun _ => []⟩

/-- An id is generated for a new area, never one that was used before. -/
def step (st : AreaDeletions) : DeletionAction → Option AreaDeletions
  | .create row =>
    if row.id ∈ st.deleted then none
    else (st.db.createArea row).map fun db =>
      { st with db, createdAt := Function.update st.createdAt row.id db.areaVersion }
  | .delete areaId =>
    (st.db.deleteArea areaId).map fun db => { st with db, deleted := st.deleted ++ [areaId] }
  | .service process action =>
    ((st.instances process).step st.db action).map fun svc =>
      { st with
        instances := Function.update st.instances process svc
        polls := Function.update st.polls process
          ((st.instances process).recordPolls st.deleted (st.polls process) action) }

def machine : Machine AreaDeletions DeletionAction := ⟨step⟩

end AreaDeletions

/-- The poll has completed without error: it found its label, or the rebuild it awaits has
resolved. -/
def PollRecord.Completed (record : PollRecord) (svc : AreaSnapshotService) : Prop :=
  record.compared = some none ∨
    ∃ rebuild, record.compared = some (some rebuild) ∧ svc.rebuilds rebuild = .resolved

/-- The area is in the snapshot. -/
def Serves (snapshot : Option Snapshot) (areaId : AreaId) : Prop :=
  ∃ s, snapshot = some s ∧ areaId ∈ s.areas.ids

/-- A poll that finds its label under the version it has read leaves no area in the snapshot that
was deleted before it began. -/
def AreaSnapshotService.noticesDeletions (svc : AreaSnapshotService) (polls : List PollRecord)
    (poll : Nat) : Bool :=
  match svc.polls[poll]?, polls[poll]?, svc.snapshot with
  | some (.comparing version), some record, some s =>
    s.version ≠ version || record.deletedBefore.all fun areaId => areaId ∉ s.areas.ids
  | _, _, _ => true

/-! ## What an instance can still bring back -/

/-- Neither the snapshot nor a rebuild that has read its rows has the area. -/
structure Clean (svc : AreaSnapshotService) (areaId : AreaId) : Prop where
  snapshot : ¬ Serves svc.snapshot areaId
  assigning : ∀ rebuild version areas, svc.rebuilds rebuild = .assigning version areas →
    areaId ∉ areas.ids

/-- The rebuild reads its rows without the area, and leaves the instance clean. -/
structure Cleans (svc : AreaSnapshotService) (rebuild : Nat) (areaId : AreaId) : Prop where
  assigning : ∀ version areas, svc.rebuilds rebuild = .assigning version areas →
    areaId ∉ areas.ids
  resolved : svc.rebuilds rebuild = .resolved → Clean svc areaId

section Deleted

variable {db : Database} {svc t : AreaSnapshotService} {areaId : AreaId}

private theorem not_serves_some {s : Snapshot} (h : areaId ∉ s.areas.ids) :
    ¬ Serves (some s) areaId := by
  rintro ⟨s', hs, hmem⟩
  cases hs
  exact h hmem

theorem Clean.setRebuild (h : Clean svc areaId) {rebuild : Nat} {next : RebuildStage}
    (hnext : ∀ version areas, next = .assigning version areas → areaId ∉ areas.ids) :
    Clean (svc.setRebuild rebuild next) areaId := by
  refine ⟨h.snapshot, ?_⟩
  intro i version areas hstage
  rcases setRebuild_stage hstage with ⟨-, hnew⟩ | hold
  · exact hnext version areas hnew
  · exact h.assigning i version areas hold

theorem Clean.step (h : Clean svc areaId) (hgone : areaId ∉ db.areas.ids) {action : SnapshotAction}
    (hstep : SnapshotStep db svc action t) : Clean t areaId := by
  cases hstep with
  | kept action polls boot hboot => exact ⟨h.snapshot, h.assigning⟩
  | enqueued action polls boot hboot => exact ⟨h.snapshot, h.assigning⟩
  | started rebuild rebuildChain hstart =>
    have hset : Clean (svc.setRebuild rebuild .readingVersion) areaId :=
      h.setRebuild fun _ _ heq => nomatch heq
    exact ⟨hset.snapshot, hset.assigning⟩
  | versionRead rebuild hstage => exact h.setRebuild fun _ _ heq => nomatch heq
  | rowsRead rebuild version hstage =>
    apply h.setRebuild
    intro v areas heq
    cases heq
    exact hgone
  | assigned rebuild version areas hstage =>
    have hset : Clean (svc.setRebuild rebuild .resolved) areaId :=
      h.setRebuild fun _ _ heq => nomatch heq
    exact ⟨not_serves_some (h.assigning rebuild version areas hstage), hset.assigning⟩
  | failed rebuild hbegun hopen => exact h.setRebuild fun _ _ heq => nomatch heq
  | finished rebuild rebuildChain hover hfinish => exact ⟨h.snapshot, h.assigning⟩
  | settled rebuild rebuildChain hsettle => exact ⟨h.snapshot, h.assigning⟩

private theorem cleans_of_idle {rebuild : Nat} (h : (svc.rebuilds rebuild).isIdle) :
    Cleans svc rebuild areaId := by
  constructor
  · intro version areas hstage
    rw [hstage] at h
    cases h
  · intro hstage
    rw [hstage] at h
    cases h

theorem Cleans.setRebuild {i : Nat} (h : Cleans svc i areaId) {rebuild : Nat} {next : RebuildStage}
    (hnext : ∀ version areas, next = .assigning version areas → areaId ∉ areas.ids)
    (hresolved : next ≠ .resolved) : Cleans (svc.setRebuild rebuild next) i areaId := by
  constructor
  · intro version areas hstage
    rcases setRebuild_stage hstage with ⟨-, hnew⟩ | hold
    · exact hnext version areas hnew
    · exact h.assigning version areas hold
  · intro hstage
    rcases setRebuild_stage hstage with ⟨-, hnew⟩ | hold
    · exact absurd hnew hresolved
    · exact (h.resolved hold).setRebuild hnext

theorem Cleans.of_same {i : Nat} (h : Cleans svc i areaId) (hrebuilds : t.rebuilds = svc.rebuilds)
    (hsnapshot : t.snapshot = svc.snapshot) : Cleans t i areaId := by
  constructor
  · rw [hrebuilds]
    exact h.assigning
  · intro hstage
    rw [hrebuilds] at hstage
    have hclean := h.resolved hstage
    exact ⟨by rw [hsnapshot]; exact hclean.snapshot, by rw [hrebuilds]; exact hclean.assigning⟩

theorem Cleans.step {i : Nat} (h : Cleans svc i areaId) (hserial : svc.Serialized)
    (hgone : areaId ∉ db.areas.ids) {action : SnapshotAction}
    (hstep : SnapshotStep db svc action t) : Cleans t i areaId := by
  cases hstep with
  | kept action polls boot hboot => exact h.of_same rfl rfl
  | enqueued action polls boot hboot => exact h.of_same rfl rfl
  | started rebuild rebuildChain hstart =>
    have hset : Cleans (svc.setRebuild rebuild .readingVersion) i areaId :=
      h.setRebuild (fun _ _ heq => nomatch heq) (by simp)
    exact hset.of_same rfl rfl
  | versionRead rebuild hstage => exact h.setRebuild (fun _ _ heq => nomatch heq) (by simp)
  | rowsRead rebuild version hstage =>
    refine h.setRebuild ?_ (by simp)
    intro v areas heq
    cases heq
    exact hgone
  | assigned rebuild version areas hstage =>
    have hbegun : ¬ (svc.rebuilds rebuild).isIdle := by rw [hstage]; exact id
    have hopen : ¬ (svc.rebuilds rebuild).isOver := by rw [hstage]; exact id
    have halone := hserial.alone hbegun hopen
    constructor
    · intro v a hassigning
      exact absurd hassigning (halone i id id)
    · intro hresolved
      refine ⟨not_serves_some ?_, fun j v a hassigning => absurd hassigning (halone j id id)⟩
      rcases setRebuild_stage hresolved with ⟨rfl, -⟩ | hbefore
      · exact h.assigning version areas hstage
      · exact (h.resolved hbefore).assigning rebuild version areas hstage
  | failed rebuild hbegun hopen => exact h.setRebuild (fun _ _ heq => nomatch heq) (by simp)
  | finished rebuild rebuildChain hover hfinish => exact h.of_same rfl rfl
  | settled rebuild rebuildChain hsettle => exact h.of_same rfl rfl

end Deleted

/-! ## What an instance knows -/

section Known

variable {db db' : Database} {deleted : List AreaId} {createdAt : AreaId → Nat}
  {svc t : AreaSnapshotService} {version : Nat} {ids : List AreaId}

/-- Rows read under a version: areas that are there or have been deleted, and all that are there
but those created under a later version. -/
structure ReadUnder (db : Database) (deleted : List AreaId) (createdAt : AreaId → Nat)
    (version : Nat) (ids : List AreaId) : Prop where
  reached : version ≤ db.areaVersion
  known : ∀ a ∈ ids, a ∈ db.areas.ids ∨ a ∈ deleted
  later : ∀ a ∈ db.areas.ids, a ∉ ids → version < createdAt a

theorem mem_ids_create {row : AreaGeometryRow} (hcreate : db.createArea row = some db')
    (a : AreaId) : a ∈ db'.areas.ids ↔ a ∈ db.areas.ids ∨ a = row.id := by
  rw [AreasTable.ids, (Database.createArea_eq_some hcreate).1, List.map_append, List.mem_append,
    List.map_singleton, List.mem_singleton, AreasTable.ids]

theorem notMem_ids_of_create {row : AreaGeometryRow} (hcreate : db.createArea row = some db') :
    row.id ∉ db.areas.ids := by
  intro hmem
  unfold Database.createArea at hcreate
  rw [dif_pos (show row.id ∈ db.areas.rows.map (·.id) from hmem)] at hcreate
  cases hcreate

theorem mem_ids_delete {areaId : AreaId} (hdelete : db.deleteArea areaId = some db')
    (a : AreaId) : a ∈ db'.areas.ids ↔ a ∈ db.areas.ids ∧ a ≠ areaId := by
  unfold Database.deleteArea at hdelete
  split at hdelete
  · cases hdelete
    simp only [AreasTable.ids, List.mem_map, List.mem_filter, decide_eq_true_eq]
    constructor
    · rintro ⟨row, ⟨hrow, hne⟩, rfl⟩
      exact ⟨⟨row, hrow, rfl⟩, hne⟩
    · rintro ⟨⟨row, hrow, rfl⟩, hne⟩
      exact ⟨row, ⟨hrow, hne⟩, rfl⟩
  · cases hdelete

theorem areaVersion_delete {areaId : AreaId} (hdelete : db.deleteArea areaId = some db') :
    db'.areaVersion = db.areaVersion := by
  unfold Database.deleteArea at hdelete
  split at hdelete
  · cases hdelete
    rfl
  · cases hdelete

theorem ReadUnder.create {row : AreaGeometryRow} (h : ReadUnder db deleted createdAt version ids)
    (hcreate : db.createArea row = some db') :
    ReadUnder db' deleted (Function.update createdAt row.id db'.areaVersion) version ids := by
  have hversion := (Database.createArea_eq_some hcreate).2.1
  have hreached := h.reached
  refine ⟨by omega, ?_, ?_⟩
  · intro a ha
    rw [mem_ids_create hcreate]
    rcases h.known a ha with hthere | hgone
    · exact Or.inl (Or.inl hthere)
    · exact Or.inr hgone
  · intro a ha hnot
    by_cases hnew : a = row.id
    · rw [hnew, Function.update_self]
      omega
    · rw [Function.update_of_ne hnew]
      rcases (mem_ids_create hcreate a).mp ha with hthere | heq
      · exact h.later a hthere hnot
      · exact absurd heq hnew

theorem ReadUnder.delete {areaId : AreaId} (h : ReadUnder db deleted createdAt version ids)
    (hdelete : db.deleteArea areaId = some db') :
    ReadUnder db' (deleted ++ [areaId]) createdAt version ids := by
  refine ⟨?_, ?_, ?_⟩
  · rw [areaVersion_delete hdelete]
    exact h.reached
  · intro a ha
    rw [mem_ids_delete hdelete, List.mem_append, List.mem_singleton]
    rcases h.known a ha with hthere | hgone
    · by_cases heq : a = areaId
      · exact Or.inr (Or.inr heq)
      · exact Or.inl ⟨hthere, heq⟩
    · exact Or.inr (Or.inl hgone)
  · intro a ha hnot
    exact h.later a ((mem_ids_delete hdelete a).mp ha).1 hnot

/-- What an instance has read, against the tables. A rebuild at work has at least the areas of the
snapshot's version. -/
structure Traced (db : Database) (deleted : List AreaId) (createdAt : AreaId → Nat)
    (svc : AreaSnapshotService) : Prop where
  serial : svc.Serialized
  label : ∀ s, svc.snapshot = some s → ReadUnder db deleted createdAt s.version s.areas.ids
  reading : ∀ rebuild version, svc.rebuilds rebuild = .readingRows version →
    version ≤ db.areaVersion
  assigning : ∀ rebuild version areas, svc.rebuilds rebuild = .assigning version areas →
    ReadUnder db deleted createdAt version areas.ids ∧ ∀ s, svc.snapshot = some s →
      ∀ a ∈ areas.ids, a ∉ s.areas.ids → s.version < createdAt a

namespace Traced

theorem initial (db : Database) (deleted : List AreaId) (createdAt : AreaId → Nat) :
    Traced db deleted createdAt AreaSnapshotService.initial := by
  refine ⟨.empty trivial, ?_, ?_, ?_⟩
  · intro s hs
    cases hs
  · intro rebuild version hstage
    cases hstage
  · intro rebuild version areas hstage
    cases hstage

theorem create {row : AreaGeometryRow} (h : Traced db deleted createdAt svc)
    (hfresh : row.id ∉ deleted) (hcreate : db.createArea row = some db') :
    Traced db' deleted (Function.update createdAt row.id db'.areaVersion) svc := by
  have hversion := (Database.createArea_eq_some hcreate).2.1
  refine ⟨h.serial, fun s hs => (h.label s hs).create hcreate, ?_, ?_⟩
  · intro rebuild version hstage
    have hle := h.reading rebuild version hstage
    omega
  · intro rebuild version areas hstage
    obtain ⟨hread, hbehind⟩ := h.assigning rebuild version areas hstage
    refine ⟨hread.create hcreate, ?_⟩
    intro s hs a ha hnot
    have hne : a ≠ row.id := by
      rintro rfl
      rcases hread.known _ ha with hthere | hgone
      · exact notMem_ids_of_create hcreate hthere
      · exact hfresh hgone
    rw [Function.update_of_ne hne]
    exact hbehind s hs a ha hnot

theorem delete {areaId : AreaId} (h : Traced db deleted createdAt svc)
    (hdelete : db.deleteArea areaId = some db') :
    Traced db' (deleted ++ [areaId]) createdAt svc := by
  refine ⟨h.serial, fun s hs => (h.label s hs).delete hdelete, ?_, ?_⟩
  · intro rebuild version hstage
    rw [areaVersion_delete hdelete]
    exact h.reading rebuild version hstage
  · intro rebuild version areas hstage
    obtain ⟨hread, hbehind⟩ := h.assigning rebuild version areas hstage
    exact ⟨hread.delete hdelete, hbehind⟩

theorem setRebuild (h : Traced db deleted createdAt svc) {rebuild : Nat} {next : RebuildStage}
    (hserial : (svc.setRebuild rebuild next).Serialized)
    (hreading : ∀ version, next = .readingRows version → version ≤ db.areaVersion)
    (hassigning : ∀ version areas, next = .assigning version areas →
      ReadUnder db deleted createdAt version areas.ids ∧ ∀ s, svc.snapshot = some s →
        ∀ a ∈ areas.ids, a ∉ s.areas.ids → s.version < createdAt a) :
    Traced db deleted createdAt (svc.setRebuild rebuild next) := by
  refine ⟨hserial, h.label, ?_, ?_⟩
  · intro i version hstage
    rcases setRebuild_stage hstage with ⟨-, hnew⟩ | hold
    · exact hreading version hnew
    · exact h.reading i version hold
  · intro i version areas hstage
    rcases setRebuild_stage hstage with ⟨-, hnew⟩ | hold
    · exact hassigning version areas hnew
    · exact h.assigning i version areas hold

theorem of_same (h : Traced db deleted createdAt svc) (hserial : t.Serialized)
    (hsnapshot : t.snapshot = svc.snapshot) (hrebuilds : t.rebuilds = svc.rebuilds) :
    Traced db deleted createdAt t := by
  refine ⟨hserial, ?_, ?_, ?_⟩
  · rw [hsnapshot]
    exact h.label
  · rw [hrebuilds]
    exact h.reading
  · rw [hsnapshot, hrebuilds]
    exact h.assigning

theorem step (h : Traced db deleted createdAt svc) {action : SnapshotAction}
    (hstep : SnapshotStep db svc action t) : Traced db deleted createdAt t := by
  have hserial := h.serial.step hstep
  cases hstep with
  | kept action polls boot hboot => exact h.of_same hserial rfl rfl
  | enqueued action polls boot hboot => exact h.of_same hserial rfl rfl
  | started rebuild rebuildChain hstart =>
    refine ⟨hserial, h.label, ?_, ?_⟩
    · intro i version hstage
      rcases setRebuild_stage hstage with ⟨-, hnew⟩ | hold
      · cases hnew
      · exact h.reading i version hold
    · intro i version areas hstage
      rcases setRebuild_stage hstage with ⟨-, hnew⟩ | hold
      · cases hnew
      · exact h.assigning i version areas hold
  | versionRead rebuild hstage =>
    refine h.setRebuild hserial ?_ (fun _ _ heq => nomatch heq)
    intro version heq
    cases heq
    exact Nat.le_refl _
  | rowsRead rebuild version hstage =>
    refine h.setRebuild hserial (fun _ heq => nomatch heq) ?_
    intro v areas heq
    cases heq
    refine ⟨⟨h.reading rebuild version hstage, fun a ha => Or.inl ha, ?_⟩, ?_⟩
    · intro a ha hnot
      exact absurd ha hnot
    · intro s hs a ha hnot
      exact (h.label s hs).later a ha hnot
  | assigned rebuild version areas hstage =>
    have hbegun : ¬ (svc.rebuilds rebuild).isIdle := by rw [hstage]; exact id
    have hopen : ¬ (svc.rebuilds rebuild).isOver := by rw [hstage]; exact id
    have halone := h.serial.alone hbegun hopen
    refine ⟨hserial, ?_, ?_, ?_⟩
    · intro s hs
      cases hs
      exact (h.assigning rebuild version areas hstage).1
    · intro i v hreading
      exact absurd hreading (halone i id id)
    · intro i v a hassigning
      exact absurd hassigning (halone i id id)
  | failed rebuild hbegun hopen =>
    exact h.setRebuild hserial (fun _ heq => nomatch heq) (fun _ _ heq => nomatch heq)
  | finished rebuild rebuildChain hover hfinish => exact h.of_same hserial rfl rfl
  | settled rebuild rebuildChain hsettle => exact h.of_same hserial rfl rfl

end Traced

end Known

/-! ## What a completed poll leaves -/

/-- What an action does to the polls of its instance. -/
inductive PollMove (db : Database) (svc t : AreaSnapshotService) : SnapshotAction → Prop where
  | tick (h : t.polls = svc.polls ++ [.reading]) : PollMove db svc t .pollTick
  | query (poll : Nat) (h : t.polls = svc.polls.set poll (.comparing db.areaVersion)) :
    PollMove db svc t (.pollQuery poll)
  | compare (poll version : Nat) (hpoll : svc.polls[poll]? = some (.comparing version))
      (h : t = svc.compare poll version db.areas.rows) : PollMove db svc t (.pollCompare poll)
  | fail (poll : Nat) (h : t.polls = svc.polls.set poll .ended) : PollMove db svc t (.pollFail poll)
  | none (action : SnapshotAction) (h : t.polls = svc.polls)
      (hrecord : ∀ deleted polls, svc.recordPolls deleted polls action = polls) :
    PollMove db svc t action

theorem pollMove_of_step {db : Database} {svc t : AreaSnapshotService} {action : SnapshotAction}
    (h : svc.step db action = some t) : PollMove db svc t action := by
  cases action with
  | pollTick =>
    simp only [AreaSnapshotService.step] at h
    split at h
    · cases h
      exact .tick rfl
    · cases h
  | pollQuery poll =>
    simp only [AreaSnapshotService.step] at h
    split at h
    · cases h
      exact .query poll rfl
    · cases h
  | pollCompare poll =>
    simp only [AreaSnapshotService.step] at h
    split at h
    · rename_i version hpoll
      cases h
      exact .compare poll version hpoll rfl
    · cases h
  | pollFail poll =>
    simp only [AreaSnapshotService.step] at h
    split at h
    · cases h
      exact .fail poll rfl
    · cases h
      exact .fail poll rfl
    · cases h
  | onApplicationBootstrap =>
    simp only [AreaSnapshotService.step] at h
    split at h
    · cases h
      exact .none _ rfl fun _ _ => rfl
    · cases h
  | bootstrapped =>
    simp only [AreaSnapshotService.step] at h
    split at h
    · split at h
      · cases h
        exact .none _ rfl fun _ _ => rfl
      · cases h
        exact .none _ rfl fun _ _ => rfl
      · cases h
    · cases h
  | refreshNow =>
    cases h
    exact .none _ rfl fun _ _ => rfl
  | start rebuild =>
    obtain ⟨rebuildChain, hchain, rfl⟩ := Option.map_eq_some_iff.mp h
    exact .none _ rfl fun _ _ => rfl
  | queryVersion rebuild =>
    simp only [AreaSnapshotService.step] at h
    split at h
    · cases h
      exact .none _ rfl fun _ _ => rfl
    · cases h
  | queryRows rebuild =>
    simp only [AreaSnapshotService.step] at h
    split at h
    · cases h
      exact .none _ rfl fun _ _ => rfl
    · cases h
  | assign rebuild =>
    simp only [AreaSnapshotService.step] at h
    split at h
    · cases h
      exact .none _ rfl fun _ _ => rfl
    · cases h
  | fail rebuild =>
    simp only [AreaSnapshotService.step] at h
    split at h
    · cases h
      exact .none _ rfl fun _ _ => rfl
    · cases h
      exact .none _ rfl fun _ _ => rfl
    · cases h
      exact .none _ rfl fun _ _ => rfl
    · cases h
  | finish rebuild =>
    simp only [AreaSnapshotService.step] at h
    split at h
    · obtain ⟨rebuildChain, hchain, rfl⟩ := Option.map_eq_some_iff.mp h
      exact .none _ rfl fun _ _ => rfl
    · obtain ⟨rebuildChain, hchain, rfl⟩ := Option.map_eq_some_iff.mp h
      exact .none _ rfl fun _ _ => rfl
    · cases h
  | settle rebuild =>
    obtain ⟨rebuildChain, hchain, rfl⟩ := Option.map_eq_some_iff.mp h
    exact .none _ rfl fun _ _ => rfl

/-- The polls of an instance: a poll that found its label leaves the instance clean of what was
deleted before it, and one that awaits a rebuild is cleaned by it. -/
structure Polled (deleted : List AreaId) (createdAt : AreaId → Nat) (svc : AreaSnapshotService)
    (polls : List PollRecord) : Prop where
  length : polls.length = svc.polls.length
  before : ∀ record ∈ polls, record.deletedBefore ⊆ deleted
  comparing : ∀ (poll : Nat) record version, polls[poll]? = some record →
    svc.polls[poll]? = some (.comparing version) →
      ∀ a ∈ record.deletedBefore, createdAt a ≤ version
  same : ∀ record ∈ polls, record.compared = some none →
    ∀ a ∈ record.deletedBefore, Clean svc a
  awaits : ∀ record ∈ polls, ∀ rebuild, record.compared = some (some rebuild) →
    ∀ a ∈ record.deletedBefore, Cleans svc rebuild a

section Polls

variable {db : Database} {deleted : List AreaId} {createdAt : AreaId → Nat}
  {svc t : AreaSnapshotService} {polls : List PollRecord}

private theorem mem_modify {f : PollRecord → PollRecord} {poll : Nat} {record : PollRecord}
    (h : record ∈ polls.modify poll f) :
    record ∈ polls ∨ ∃ old, polls[poll]? = some old ∧ record = f old := by
  obtain ⟨i, hi⟩ := List.mem_iff_getElem?.mp h
  rw [List.getElem?_modify] at hi
  obtain ⟨old, hold, heq⟩ := Option.map_eq_some_iff.mp hi
  by_cases hpoll : poll = i
  · rw [if_pos hpoll] at heq
    exact Or.inr ⟨old, hpoll ▸ hold, heq.symm⟩
  · rw [if_neg hpoll] at heq
    exact Or.inl (List.mem_iff_getElem?.mpr ⟨i, heq ▸ hold⟩)

/-- The comparison that found the label: by the label, no rebuild at work has an area that was
deleted before the poll and is not in the snapshot. -/
private theorem clean_of_label (htraced : Traced db deleted createdAt svc)
    (h : Polled deleted createdAt svc polls) {poll version : Nat} {record : PollRecord}
    (hnotices : svc.noticesDeletions polls poll = true)
    (hpoll : svc.polls[poll]? = some (.comparing version)) (hrecord : polls[poll]? = some record)
    (hlabel : svc.snapshot.map (·.version) = some version) {a : AreaId}
    (ha : a ∈ record.deletedBefore) : Clean svc a := by
  obtain ⟨s, hs, hversion⟩ := Option.map_eq_some_iff.mp hlabel
  have hnot : a ∉ s.areas.ids := by
    simp only [noticesDeletions, hpoll, hrecord, hs, hversion, ne_eq, not_true_eq_false,
      decide_false, Bool.false_or, List.all_eq_true, decide_eq_true_eq] at hnotices
    exact hnotices a ha
  refine ⟨?_, ?_⟩
  · rw [hs]
    exact not_serves_some hnot
  · intro rebuild v areas hstage hmem
    have hlt := (htraced.assigning rebuild v areas hstage).2 s hs a hmem hnot
    have hle := h.comparing poll record version hrecord hpoll a ha
    omega

theorem Polled.moved (h : Polled deleted createdAt svc polls)
    (hclean : ∀ a ∈ deleted, Clean svc a → Clean t a)
    (hcleans : ∀ a ∈ deleted, ∀ rebuild, Cleans svc rebuild a → Cleans t rebuild a)
    (hlength : t.polls.length = svc.polls.length)
    (hcomparing : ∀ (poll : Nat) record version, polls[poll]? = some record →
      t.polls[poll]? = some (.comparing version) →
        ∀ a ∈ record.deletedBefore, createdAt a ≤ version) :
    Polled deleted createdAt t polls := by
  refine ⟨h.length.trans hlength.symm, h.before, hcomparing, ?_, ?_⟩
  · intro record hrecord hcompared a ha
    exact hclean a (h.before record hrecord ha) (h.same record hrecord hcompared a ha)
  · intro record hrecord rebuild hcompared a ha
    exact hcleans a (h.before record hrecord ha) rebuild
      (h.awaits record hrecord rebuild hcompared a ha)

private theorem comparing_set (h : Polled deleted createdAt svc polls) {poll : Nat}
    {stage : PollStage}
    (hstage : ∀ version, stage = .comparing version → ∀ a ∈ deleted, createdAt a ≤ version)
    (i : Nat) (record : PollRecord) (version : Nat) (hrecord : polls[i]? = some record)
    (hi : (svc.polls.set poll stage)[i]? = some (.comparing version)) :
    ∀ a ∈ record.deletedBefore, createdAt a ≤ version := by
  intro a ha
  rw [List.getElem?_set] at hi
  split at hi
  · split at hi
    · cases hi
      exact hstage version rfl a (h.before record (List.mem_of_getElem? hrecord) ha)
    · cases hi
  · exact h.comparing i record version hrecord hi a ha

theorem Polled.tick (h : Polled deleted createdAt svc polls)
    (hpolls : t.polls = svc.polls ++ [.reading]) (hclean : ∀ a ∈ deleted, Clean svc a → Clean t a)
    (hcleans : ∀ a ∈ deleted, ∀ rebuild, Cleans svc rebuild a → Cleans t rebuild a) :
    Polled deleted createdAt t (polls ++ [⟨deleted, none⟩]) := by
  have hlength := h.length
  refine ⟨by simp [hpolls, hlength], ?_, ?_, ?_, ?_⟩
  · intro record hrecord
    rcases List.mem_append.mp hrecord with hold | hnew
    · exact h.before record hold
    · rw [List.mem_singleton.mp hnew]
      exact List.Subset.refl _
  · intro poll record version hrecord hpoll
    rw [hpolls] at hpoll
    have hlt : poll < svc.polls.length := by
      by_contra hge
      rw [List.getElem?_append_right (by omega), List.getElem?_singleton] at hpoll
      split at hpoll
      · cases hpoll
      · cases hpoll
    rw [List.getElem?_append_left hlt] at hpoll
    rw [List.getElem?_append_left (by omega)] at hrecord
    exact h.comparing poll record version hrecord hpoll
  · intro record hrecord hcompared a ha
    rcases List.mem_append.mp hrecord with hold | hnew
    · exact hclean a (h.before record hold ha) (h.same record hold hcompared a ha)
    · rw [List.mem_singleton.mp hnew] at hcompared
      cases hcompared
  · intro record hrecord rebuild hcompared a ha
    rcases List.mem_append.mp hrecord with hold | hnew
    · exact hcleans a (h.before record hold ha) rebuild (h.awaits record hold rebuild hcompared a ha)
    · rw [List.mem_singleton.mp hnew] at hcompared
      cases hcompared

theorem compare_frame (svc : AreaSnapshotService) (poll version : Nat)
    (committed : List AreaGeometryRow) :
    (svc.compare poll version committed).snapshot = svc.snapshot ∧
      (svc.compare poll version committed).rebuilds = svc.rebuilds ∧
      (svc.compare poll version committed).polls = svc.polls.set poll .ended := by
  unfold AreaSnapshotService.compare
  split
  · exact ⟨rfl, rfl, rfl⟩
  · exact ⟨rfl, rfl, rfl⟩

theorem Polled.compare (h : Polled deleted createdAt svc polls)
    (htraced : Traced db deleted createdAt svc) {poll version : Nat}
    (hpoll : svc.polls[poll]? = some (.comparing version))
    (hnotices : svc.noticesDeletions polls poll = true) (committed : List AreaGeometryRow) :
    Polled deleted createdAt (svc.compare poll version committed)
      (svc.recordPolls deleted polls (.pollCompare poll)) := by
  obtain ⟨hsnapshot, hrebuilds, hpolls⟩ := compare_frame svc poll version committed
  have hclean : ∀ a, Clean svc a → Clean (svc.compare poll version committed) a := by
    intro a ha
    exact ⟨hsnapshot ▸ ha.snapshot, hrebuilds ▸ ha.assigning⟩
  have hcleans : ∀ a rebuild, Cleans svc rebuild a →
      Cleans (svc.compare poll version committed) rebuild a := by
    intro a rebuild ha
    exact ha.of_same hrebuilds hsnapshot
  simp only [recordPolls, hpoll]
  refine ⟨?_, ?_, ?_, ?_, ?_⟩
  · rw [List.length_modify, hpolls, List.length_set]
    exact h.length
  · intro record hrecord
    rcases mem_modify hrecord with hold | ⟨old, hold, rfl⟩
    · exact h.before record hold
    · exact h.before old (List.mem_of_getElem? hold)
  · intro i record v hrecord hi
    rw [hpolls] at hi
    rw [List.getElem?_modify] at hrecord
    obtain ⟨old, hold, heq⟩ := Option.map_eq_some_iff.mp hrecord
    have hbefore : record.deletedBefore = old.deletedBefore := by
      rw [← heq]
      split <;> rfl
    rw [hbefore]
    refine comparing_set h ?_ i old v hold hi
    intro w hw
    cases hw
  · intro record hrecord hcompared a ha
    rcases mem_modify hrecord with hold | ⟨old, hold, rfl⟩
    · exact hclean a (h.same record hold hcompared a ha)
    · by_cases hlabel : svc.snapshot.map (·.version) = some version
      · exact hclean a (clean_of_label htraced h hnotices hpoll hold hlabel ha)
      · rw [if_pos hlabel] at hcompared
        cases hcompared
  · intro record hrecord rebuild hcompared a ha
    rcases mem_modify hrecord with hold | ⟨old, hold, rfl⟩
    · exact hcleans a rebuild (h.awaits record hold rebuild hcompared a ha)
    · by_cases hlabel : svc.snapshot.map (·.version) = some version
      · rw [if_neg (not_not.mpr hlabel)] at hcompared
        cases hcompared
      · rw [if_pos hlabel] at hcompared
        cases hcompared
        apply hcleans
        apply cleans_of_idle
        by_contra hbegun
        exact absurd (htraced.serial.lt_length hbegun) (Nat.lt_irrefl _)

theorem Polled.step (h : Polled deleted createdAt svc polls)
    (htraced : Traced db deleted createdAt svc) (hgone : ∀ a ∈ deleted, a ∉ db.areas.ids)
    (hcreated : ∀ a ∈ deleted, createdAt a ≤ db.areaVersion) {action : SnapshotAction}
    (hstep : svc.step db action = some t)
    (hnotices : ∀ poll, action = .pollCompare poll → svc.noticesDeletions polls poll = true) :
    Polled deleted createdAt t (svc.recordPolls deleted polls action) := by
  have hcases := step_cases hstep
  have hclean : ∀ a ∈ deleted, Clean svc a → Clean t a :=
    fun a ha hbefore => hbefore.step (hgone a ha) hcases
  have hcleans : ∀ a ∈ deleted, ∀ rebuild, Cleans svc rebuild a → Cleans t rebuild a :=
    fun a ha rebuild hbefore => hbefore.step htraced.serial (hgone a ha) hcases
  cases pollMove_of_step hstep with
  | tick hpolls => exact h.tick hpolls hclean hcleans
  | query poll hpolls =>
    refine h.moved hclean hcleans (by rw [hpolls, List.length_set]) ?_
    rw [hpolls]
    apply comparing_set h
    intro version heq
    cases heq
    exact hcreated
  | compare poll version hpoll heq =>
    rw [heq]
    exact h.compare htraced hpoll (hnotices poll rfl) db.areas.rows
  | fail poll hpolls =>
    refine h.moved hclean hcleans (by rw [hpolls, List.length_set]) ?_
    rw [hpolls]
    apply comparing_set h
    intro version heq
    cases heq
  | none action hpolls hrecord =>
    rw [hrecord]
    refine h.moved hclean hcleans (by rw [hpolls]) ?_
    rw [hpolls]
    exact h.comparing

end Polls

/-! ## Runs -/

namespace AreaDeletions

/-- Every deletion is known to the tables, and every instance keeps to them. -/
structure Kept (st : AreaDeletions) : Prop where
  gone : ∀ a ∈ st.deleted, a ∉ st.db.areas.ids
  created : ∀ a, a ∈ st.db.areas.ids ∨ a ∈ st.deleted → st.createdAt a ≤ st.db.areaVersion
  traced : ∀ process, Traced st.db st.deleted st.createdAt (st.instances process)
  polled : ∀ process,
    Polled st.deleted st.createdAt (st.instances process) (st.polls process)

/-- The condition on a step: a comparison notices what was deleted before its poll. -/
def Notices (st : AreaDeletions) : DeletionAction → Prop
  | .service process (.pollCompare poll) =>
    (st.instances process).noticesDeletions (st.polls process) poll = true
  | _ => True

instance decidableNotices (st : AreaDeletions) (action : DeletionAction) :
    Decidable (st.Notices action) :=
  match action with
  | .service process (.pollCompare poll) =>
    inferInstanceAs (Decidable
      ((st.instances process).noticesDeletions (st.polls process) poll = true))
  | .create _ | .delete _ => isTrue trivial
  | .service _ .onApplicationBootstrap | .service _ .bootstrapped | .service _ .refreshNow
  | .service _ .pollTick | .service _ (.pollQuery _) | .service _ (.pollFail _)
  | .service _ (.start _) | .service _ (.queryVersion _) | .service _ (.queryRows _)
  | .service _ (.assign _) | .service _ (.fail _) | .service _ (.finish _)
  | .service _ (.settle _) => isTrue trivial

theorem kept_start (db : Database) : Kept (start db) := by
  refine ⟨?_, fun _ _ => Nat.zero_le _, fun process => .initial .., fun process => ?_⟩
  · intro a ha
    cases ha
  · refine ⟨rfl, ?_, ?_, ?_, ?_⟩
    · intro record hrecord
      cases hrecord
    · intro poll record version hrecord
      cases hrecord
    · intro record hrecord
      cases hrecord
    · intro record hrecord
      cases hrecord

theorem Kept.create {st : AreaDeletions} {db : Database} {row : AreaGeometryRow} (h : Kept st)
    (hfresh : row.id ∉ st.deleted) (hcreate : st.db.createArea row = some db) :
    Kept { st with db, createdAt := Function.update st.createdAt row.id db.areaVersion } := by
  have hversion := (Database.createArea_eq_some hcreate).2.1
  have hother : ∀ a ∈ st.deleted, a ≠ row.id := by
    rintro a ha rfl
    exact hfresh ha
  refine ⟨?_, ?_, fun process => (h.traced process).create hfresh hcreate, fun process => ?_⟩
  · intro a ha hmem
    rcases (mem_ids_create hcreate a).mp hmem with hthere | hnew
    · exact h.gone a ha hthere
    · exact hother a ha hnew
  · intro a ha
    change Function.update st.createdAt row.id db.areaVersion a ≤ db.areaVersion
    by_cases hnew : a = row.id
    · rw [hnew, Function.update_self]
    · rw [Function.update_of_ne hnew]
      have hbefore : st.createdAt a ≤ st.db.areaVersion := by
        apply h.created
        rcases ha with hthere | hgone
        · exact Or.inl (((mem_ids_create hcreate a).mp hthere).resolve_right hnew)
        · exact Or.inr hgone
      omega
  · have hpolled := h.polled process
    refine { hpolled with comparing := ?_ }
    intro poll record version hrecord hpoll a ha
    have hdeleted := hpolled.before record (List.mem_of_getElem? hrecord) ha
    change Function.update st.createdAt row.id db.areaVersion a ≤ version
    rw [Function.update_of_ne (hother a hdeleted)]
    exact hpolled.comparing poll record version hrecord hpoll a ha

theorem Kept.delete {st : AreaDeletions} {db : Database} {areaId : AreaId} (h : Kept st)
    (hdelete : st.db.deleteArea areaId = some db) :
    Kept { st with db, deleted := st.deleted ++ [areaId] } := by
  refine ⟨?_, ?_, fun process => (h.traced process).delete hdelete, fun process => ?_⟩
  · intro a ha hmem
    obtain ⟨hthere, hne⟩ := (mem_ids_delete hdelete a).mp hmem
    rcases List.mem_append.mp ha with hold | hnew
    · exact h.gone a hold hthere
    · exact hne (List.mem_singleton.mp hnew)
  · intro a ha
    change st.createdAt a ≤ db.areaVersion
    rw [areaVersion_delete hdelete]
    apply h.created
    rcases ha with hthere | hgone
    · exact Or.inl ((mem_ids_delete hdelete a).mp hthere).1
    · rcases List.mem_append.mp hgone with hold | hnew
      · exact Or.inr hold
      · rw [List.mem_singleton.mp hnew]
        left
        unfold Database.deleteArea at hdelete
        split at hdelete
        · rename_i hmem
          exact hmem
        · cases hdelete
  · have hpolled := h.polled process
    refine { hpolled with before := ?_ }
    intro record hrecord
    exact List.subset_append_of_subset_left _ (hpolled.before record hrecord)

theorem Kept.step {st t : AreaDeletions} {action : DeletionAction} (h : Kept st)
    (hnotices : st.Notices action) (hstep : st.step action = some t) : Kept t := by
  cases action with
  | create row =>
    simp only [AreaDeletions.step] at hstep
    split at hstep
    · cases hstep
    · rename_i hfresh
      obtain ⟨db, hcreate, rfl⟩ := Option.map_eq_some_iff.mp hstep
      exact h.create hfresh hcreate
  | delete areaId =>
    obtain ⟨db, hdelete, rfl⟩ := Option.map_eq_some_iff.mp hstep
    exact h.delete hdelete
  | service process action =>
    obtain ⟨svc, hsvc, rfl⟩ := Option.map_eq_some_iff.mp hstep
    refine ⟨h.gone, h.created, fun other => ?_, fun other => ?_⟩
    · change Traced st.db st.deleted st.createdAt (Function.update st.instances process svc other)
      by_cases hother : other = process
      · rw [hother, Function.update_self]
        exact (h.traced process).step (step_cases hsvc)
      · rw [Function.update_of_ne hother]
        exact h.traced other
    · change Polled st.deleted st.createdAt (Function.update st.instances process svc other)
        (Function.update st.polls process _ other)
      by_cases hother : other = process
      · rw [hother, Function.update_self, Function.update_self]
        refine (h.polled process).step (h.traced process) h.gone
          (fun a ha => h.created a (Or.inr ha)) hsvc ?_
        rintro poll rfl
        exact hnotices
      · rw [Function.update_of_ne hother, Function.update_of_ne hother]
        exact h.polled other

/-- A completed poll leaves no area in the snapshot that was deleted before it began. -/
theorem Kept.not_serves {st : AreaDeletions} (h : Kept st) {process : Nat} {record : PollRecord}
    (hrecord : record ∈ st.polls process) (hcompleted : record.Completed (st.instances process))
    {areaId : AreaId} (hbefore : areaId ∈ record.deletedBefore) :
    ¬ Serves (st.instances process).snapshot areaId := by
  rcases hcompleted with hsame | ⟨rebuild, hawaits, hresolved⟩
  · exact ((h.polled process).same record hrecord hsame areaId hbefore).snapshot
  · exact (((h.polled process).awaits record hrecord rebuild hawaits areaId hbefore).resolved
      hresolved).snapshot

/-- A comparison that does not notice leaves a completed poll and a deleted area in the snapshot. -/
theorem served_of_not_notices {st t : AreaDeletions} {action : DeletionAction}
    (hnotices : ¬ st.Notices action) (hstep : st.step action = some t) :
    ∃ process record areaId, record ∈ t.polls process ∧ record.Completed (t.instances process) ∧
      areaId ∈ record.deletedBefore ∧ Serves (t.instances process).snapshot areaId := by
  unfold Notices at hnotices
  split at hnotices
  · rename_i process poll
    obtain ⟨svc, hsvc, rfl⟩ := Option.map_eq_some_iff.mp hstep
    unfold noticesDeletions at hnotices
    split at hnotices
    · rename_i version record s hpoll hrecord hs
      simp only [Bool.or_eq_true, decide_eq_true_eq, List.all_eq_true, not_or, not_not,
        not_forall] at hnotices
      obtain ⟨hlabel, areaId, hbefore, hserved⟩ := hnotices
      have hsame : svc = (st.instances process).compare poll version st.db.areas.rows := by
        simp only [AreaSnapshotService.step, hpoll, Option.some.injEq] at hsvc
        exact hsvc.symm
      have hsnapshot : svc.snapshot = some s := by
        rw [hsame, (compare_frame ..).1, hs]
      have hfound : (st.instances process).snapshot.map (·.version) = some version := by
        rw [hs, Option.map_some, hlabel]
      refine ⟨process, { record with compared := some none }, areaId, ?_, Or.inl rfl, hbefore, s,
        ?_, hserved⟩
      · change _ ∈ Function.update st.polls process _ process
        rw [Function.update_self]
        simp only [recordPolls, hpoll, hfound, ne_eq, not_true_eq_false, if_false]
        apply List.mem_iff_getElem?.mpr
        exact ⟨poll, by simp [hrecord]⟩
      · change (Function.update st.instances process svc process).snapshot = some s
        rw [Function.update_self, hsnapshot]
    · exact absurd rfl hnotices
  · exact absurd trivial hnotices

end AreaDeletions

end Geofence
