import Geofence.Areas.Snapshot
import Geofence.Framework.Machine
import Geofence.Framework.TaskBodies
import Mathlib.Algebra.Order.BigOperators.Group.Finset
/-!
# `AreaSnapshotService` on every instance

Any number of instances over one database: `AreasService.create` commits anywhere, polls overlap,
`refreshNow` is called at any time, and each instance's rebuilds queue on its `rebuildChain`. A
rebuild reads the version and the rows in two queries; the rows it assigns are those of the
moment its second query ran.
-/

namespace Geofence

open Framework

/-- Where a call of `rebuild` stands: each query is answered at a moment of its own, and the
assignment is made when the second answer has arrived. -/
inductive RebuildStage where
  | notStarted
  | readingVersion
  | readingRows (version : Nat)
  | assigning (version : Nat) (areas : AreasTable)
  | resolved
  | rejected

inductive PollStage where
  | reading
  | comparing (version : Nat)
  | ended

inductive BootStage where
  | notCalled
  | building (rebuild : Nat)
  | ready
  | aborted

/-- A rebuild is queued with the rows that were committed when it was asked for. -/
structure AreaSnapshotService where
  snapshot : Option Snapshot
  rebuildChain : PromiseChains Unit (List AreaGeometryRow)
  rebuilds : Nat → RebuildStage
  polls : List PollStage
  boot : BootStage

inductive SnapshotAction where
  | onApplicationBootstrap
  | bootstrapped
  | refreshNow
  | pollTick
  | pollQuery (poll : Nat)
  | pollCompare (poll : Nat)
  | pollFail (poll : Nat)
  | start (rebuild : Nat)
  | queryVersion (rebuild : Nat)
  | queryRows (rebuild : Nat)
  | assign (rebuild : Nat)
  | fail (rebuild : Nat)
  | finish (rebuild : Nat)
  | settle (rebuild : Nat)

namespace RebuildStage

def isIdle : RebuildStage → Prop
  | .notStarted => True
  | _ => False

def isOver : RebuildStage → Prop
  | .resolved | .rejected => True
  | _ => False

private theorem not_isOver_of_isIdle {stage : RebuildStage}
    (h : stage.isIdle) : ¬ stage.isOver := by
  cases stage with
  | notStarted => exact id
  | _ => cases h

end RebuildStage

namespace AreaSnapshotService

def initial : AreaSnapshotService := ⟨none, .empty, fun _ => .notStarted, [], .notCalled⟩

/-- `rebuildChain.then(() => this.rebuild())`, and its `catch` as the new tail. -/
def enqueueRebuild (svc : AreaSnapshotService) (committed : List AreaGeometryRow) :
    AreaSnapshotService :=
  { svc with rebuildChain := svc.rebuildChain.append () committed }

def setRebuild (svc : AreaSnapshotService) (rebuild : Nat) (stage : RebuildStage) :
    AreaSnapshotService :=
  { svc with rebuilds := Function.update svc.rebuilds rebuild stage }

def setPoll (svc : AreaSnapshotService) (poll : Nat) (stage : PollStage) : AreaSnapshotService :=
  { svc with polls := svc.polls.set poll stage }

/-- The rows that were committed when the rebuild was asked for. -/
def committed? (svc : AreaSnapshotService) (rebuild : Nat) : Option (List AreaGeometryRow) :=
  (svc.rebuildChain.tasks[rebuild]?).map (·.payload)

/-- The answer of a poll's query, against the snapshot as it is now. -/
def compare (svc : AreaSnapshotService) (poll version : Nat) (committed : List AreaGeometryRow) :
    AreaSnapshotService :=
  if svc.snapshot.map (·.version) ≠ some version then
    (svc.setPoll poll .ended).enqueueRebuild committed
  else svc.setPoll poll .ended

def step (db : Database) (svc : AreaSnapshotService) : SnapshotAction → Option AreaSnapshotService
  | .onApplicationBootstrap =>
    match svc.boot with
    | .notCalled =>
      some { svc.enqueueRebuild db.areas.rows with boot := .building svc.rebuildChain.tasks.length }
    | _ => none
  | .bootstrapped =>
    match svc.boot with
    | .building rebuild =>
      match svc.rebuilds rebuild with
      | .resolved => some { svc with boot := .ready }
      | .rejected => some { svc with boot := .aborted }
      | _ => none
    | _ => none
  | .refreshNow => some (svc.enqueueRebuild db.areas.rows)
  | .pollTick =>
    match svc.boot with
    | .ready => some { svc with polls := svc.polls ++ [.reading] }
    | _ => none
  | .pollQuery poll =>
    match svc.polls[poll]? with
    | some .reading => some (svc.setPoll poll (.comparing db.areaVersion))
    | _ => none
  | .pollCompare poll =>
    match svc.polls[poll]? with
    | some (.comparing version) => some (svc.compare poll version db.areas.rows)
    | _ => none
  | .pollFail poll =>
    match svc.polls[poll]? with
    | some .reading | some (.comparing _) => some (svc.setPoll poll .ended)
    | _ => none
  | .start rebuild =>
    (svc.rebuildChain.start? rebuild).map fun rebuildChain =>
      { svc.setRebuild rebuild .readingVersion with rebuildChain }
  | .queryVersion rebuild =>
    match svc.rebuilds rebuild with
    | .readingVersion => some (svc.setRebuild rebuild (.readingRows db.areaVersion))
    | _ => none
  | .queryRows rebuild =>
    match svc.rebuilds rebuild with
    | .readingRows version => some (svc.setRebuild rebuild (.assigning version db.areas))
    | _ => none
  | .assign rebuild =>
    match svc.rebuilds rebuild with
    | .assigning version areas =>
      some { svc.setRebuild rebuild .resolved with snapshot := some ⟨version, areas⟩ }
    | _ => none
  | .fail rebuild =>
    match svc.rebuilds rebuild with
    | .readingVersion | .readingRows _ | .assigning _ _ => some (svc.setRebuild rebuild .rejected)
    | _ => none
  | .finish rebuild =>
    match svc.rebuilds rebuild with
    | .resolved | .rejected =>
      (svc.rebuildChain.finish? rebuild).map fun rebuildChain => { svc with rebuildChain }
    | _ => none
  | .settle rebuild =>
    (svc.rebuildChain.settle? rebuild).map fun rebuildChain => { svc with rebuildChain }

/-- Everything a step can do. -/
inductive SnapshotStep (db : Database) (svc : AreaSnapshotService) :
    SnapshotAction → AreaSnapshotService → Prop where
  | kept (action : SnapshotAction) (polls : List PollStage) (boot : BootStage)
      (hboot : boot = .ready → svc.boot = .ready ∨ ∃ rebuild, svc.rebuilds rebuild = .resolved) :
    SnapshotStep db svc action { svc with polls, boot }
  | enqueued (action : SnapshotAction) (polls : List PollStage) (boot : BootStage)
      (hboot : boot = .ready → svc.boot = .ready) :
    SnapshotStep db svc action { svc.enqueueRebuild db.areas.rows with polls, boot }
  | started (rebuild : Nat) (rebuildChain : PromiseChains Unit (List AreaGeometryRow))
      (h : svc.rebuildChain.start? rebuild = some rebuildChain) :
    SnapshotStep db svc (.start rebuild)
      { svc.setRebuild rebuild .readingVersion with rebuildChain }
  | versionRead (rebuild : Nat) (h : svc.rebuilds rebuild = .readingVersion) :
    SnapshotStep db svc (.queryVersion rebuild)
      (svc.setRebuild rebuild (.readingRows db.areaVersion))
  | rowsRead (rebuild version : Nat) (h : svc.rebuilds rebuild = .readingRows version) :
    SnapshotStep db svc (.queryRows rebuild) (svc.setRebuild rebuild (.assigning version db.areas))
  | assigned (rebuild version : Nat) (areas : AreasTable)
      (h : svc.rebuilds rebuild = .assigning version areas) :
    SnapshotStep db svc (.assign rebuild)
      { svc.setRebuild rebuild .resolved with snapshot := some ⟨version, areas⟩ }
  | failed (rebuild : Nat) (hbegun : ¬ (svc.rebuilds rebuild).isIdle)
      (hopen : ¬ (svc.rebuilds rebuild).isOver) :
    SnapshotStep db svc (.fail rebuild) (svc.setRebuild rebuild .rejected)
  | finished (rebuild : Nat) (rebuildChain : PromiseChains Unit (List AreaGeometryRow))
      (hover : (svc.rebuilds rebuild).isOver)
      (h : svc.rebuildChain.finish? rebuild = some rebuildChain) :
    SnapshotStep db svc (.finish rebuild) { svc with rebuildChain }
  | settled (rebuild : Nat) (rebuildChain : PromiseChains Unit (List AreaGeometryRow))
      (h : svc.rebuildChain.settle? rebuild = some rebuildChain) :
    SnapshotStep db svc (.settle rebuild) { svc with rebuildChain }

theorem step_cases {db : Database} {svc t : AreaSnapshotService} {action : SnapshotAction}
    (h : step db svc action = some t) : SnapshotStep db svc action t := by
  cases action with
  | onApplicationBootstrap =>
    simp only [step] at h
    split at h
    · cases h
      exact .enqueued _ svc.polls _ fun hready => nomatch hready
    · cases h
  | bootstrapped =>
    simp only [step] at h
    split at h
    · split at h
      · rename_i hresolved
        cases h
        exact .kept _ svc.polls .ready fun _ => Or.inr ⟨_, hresolved⟩
      · cases h
        exact .kept _ svc.polls .aborted fun hready => nomatch hready
      · cases h
    · cases h
  | refreshNow =>
    cases h
    exact .enqueued _ svc.polls svc.boot fun hready => hready
  | pollTick =>
    simp only [step] at h
    split at h
    · cases h
      exact .kept _ _ svc.boot fun hready => Or.inl hready
    · cases h
  | pollQuery poll =>
    simp only [step] at h
    split at h
    · cases h
      exact .kept _ _ svc.boot fun hready => Or.inl hready
    · cases h
  | pollCompare poll =>
    simp only [step, compare] at h
    split at h
    · cases h
      split
      · exact .enqueued _ _ svc.boot fun hready => hready
      · exact .kept _ _ svc.boot fun hready => Or.inl hready
    · cases h
  | pollFail poll =>
    simp only [step] at h
    split at h
    · cases h
      exact .kept _ _ svc.boot fun hready => Or.inl hready
    · cases h
      exact .kept _ _ svc.boot fun hready => Or.inl hready
    · cases h
  | start rebuild =>
    obtain ⟨rebuildChain, hchain, rfl⟩ := Option.map_eq_some_iff.mp h
    exact .started rebuild rebuildChain hchain
  | queryVersion rebuild =>
    simp only [step] at h
    split at h
    · rename_i hstage
      cases h
      exact .versionRead rebuild hstage
    · cases h
  | queryRows rebuild =>
    simp only [step] at h
    split at h
    · rename_i version hstage
      cases h
      exact .rowsRead rebuild version hstage
    · cases h
  | assign rebuild =>
    simp only [step] at h
    split at h
    · rename_i version areas hstage
      cases h
      exact .assigned rebuild version areas hstage
    · cases h
  | fail rebuild =>
    simp only [step] at h
    split at h
    · rename_i hstage
      cases h
      exact .failed rebuild (by rw [hstage]; exact id) (by rw [hstage]; exact id)
    · rename_i version hstage
      cases h
      exact .failed rebuild (by rw [hstage]; exact id) (by rw [hstage]; exact id)
    · rename_i version areas hstage
      cases h
      exact .failed rebuild (by rw [hstage]; exact id) (by rw [hstage]; exact id)
    · cases h
  | finish rebuild =>
    simp only [step] at h
    split at h
    · rename_i hstage
      obtain ⟨rebuildChain, hchain, rfl⟩ := Option.map_eq_some_iff.mp h
      exact .finished rebuild rebuildChain (by rw [hstage]; trivial) hchain
    · rename_i hstage
      obtain ⟨rebuildChain, hchain, rfl⟩ := Option.map_eq_some_iff.mp h
      exact .finished rebuild rebuildChain (by rw [hstage]; trivial) hchain
    · cases h
  | settle rebuild =>
    obtain ⟨rebuildChain, hchain, rfl⟩ := Option.map_eq_some_iff.mp h
    exact .settled rebuild rebuildChain hchain

theorem setRebuild_stage {svc : AreaSnapshotService} {rebuild i : Nat} {next stage : RebuildStage}
    (h : (svc.setRebuild rebuild next).rebuilds i = stage) :
    (i = rebuild ∧ next = stage) ∨ svc.rebuilds i = stage := by
  change Function.update svc.rebuilds rebuild next i = stage at h
  by_cases hi : i = rebuild
  · rw [hi, Function.update_self] at h
    exact Or.inl ⟨hi, h⟩
  · rw [Function.update_of_ne hi] at h
    exact Or.inr h

/-- The rebuilds' bodies keep to their places in the chain. -/
def Serialized (svc : AreaSnapshotService) : Prop :=
  svc.rebuildChain.Follows RebuildStage.isIdle RebuildStage.isOver svc.rebuilds

namespace Serialized

variable {db : Database} {svc t : AreaSnapshotService}

private theorem eq_of_working (h : svc.Serialized) {i j : Nat} (hi : ¬ (svc.rebuilds i).isIdle)
    (hi' : ¬ (svc.rebuilds i).isOver) (hj : ¬ (svc.rebuilds j).isIdle)
    (hj' : ¬ (svc.rebuilds j).isOver) : i = j := by
  refine h.eq_of_bodies ?_ hi hi' hj hj'
  rw [PromiseChains.key?, PromiseChains.key?, List.getElem?_eq_getElem (h.lt_length hi),
    List.getElem?_eq_getElem (h.lt_length hj)]
  rfl

theorem alone (h : svc.Serialized) {rebuild : Nat} (hbegun : ¬ (svc.rebuilds rebuild).isIdle)
    (hopen : ¬ (svc.rebuilds rebuild).isOver) (i : Nat) {stage : RebuildStage}
    (hidle : ¬ stage.isIdle) (hover : ¬ stage.isOver) :
    (svc.setRebuild rebuild .resolved).rebuilds i ≠ stage := by
  intro heq
  rcases setRebuild_stage heq with ⟨-, hresolved⟩ | hsame
  · rw [← hresolved] at hover
    exact hover trivial
  · have hi : i = rebuild :=
      h.eq_of_working (hsame ▸ hidle) (hsame ▸ hover) hbegun hopen
    rw [hi, setRebuild] at heq
    rw [← heq] at hover
    exact hover (by simp [RebuildStage.isOver])

theorem step (h : svc.Serialized) {action : SnapshotAction}
    (hstep : SnapshotStep db svc action t) : t.Serialized := by
  cases hstep with
  | kept action polls boot hboot => exact h
  | enqueued action polls boot hboot => exact h.append () db.areas.rows
  | started rebuild rebuildChain hstart => exact h.start hstart id
  | versionRead rebuild hstage =>
    exact h.update (by rw [hstage]; exact id) (by rw [hstage]; exact id) id
  | rowsRead rebuild version hstage =>
    exact h.update (by rw [hstage]; exact id) (by rw [hstage]; exact id) id
  | assigned rebuild version areas hstage =>
    exact h.update (by rw [hstage]; exact id) (by rw [hstage]; exact id) id
  | failed rebuild hbegun hopen => exact h.update hbegun hopen id
  | finished rebuild rebuildChain hover hfinish => exact h.finish hfinish hover
  | settled rebuild rebuildChain hsettle => exact h.settle hsettle

end Serialized

/-- Every state the areas were committed in, as the version and the rows it had. -/
abbrev AreaHistory := List (Nat × List AreaGeometryRow)

/-- The history holds the present state, and no state has more than the present one. -/
structure Recorded (db : Database) (history : AreaHistory) : Prop where
  present : (db.areaVersion, db.areas.rows) ∈ history
  past : ∀ entry ∈ history, entry.1 ≤ db.areaVersion ∧ entry.2 ⊆ db.areas.rows

/-- Rows that may stand under a version: committed ones, and all that were when the version was
reached. -/
structure Backed (db : Database) (history : AreaHistory) (version : Nat)
    (rows : List AreaGeometryRow) : Prop where
  reached : version ≤ db.areaVersion
  committed : rows ⊆ db.areas.rows
  complete : ∀ entry ∈ history, entry.1 ≤ version → entry.2 ⊆ rows

theorem Backed.create {db db' : Database} {history : AreaHistory} {version : Nat}
    {rows : List AreaGeometryRow} {row : AreaGeometryRow} (h : Backed db history version rows)
    (hcreate : db.createArea row = some db') :
    Backed db' (history ++ [(db'.areaVersion, db'.areas.rows)]) version rows := by
  obtain ⟨hrows, hversion, -⟩ := Database.createArea_eq_some hcreate
  have hle := h.reached
  refine ⟨by omega, ?_, ?_⟩
  · rw [hrows]
    exact List.subset_append_of_subset_left _ h.committed
  · intro entry hentry hlabel
    rcases List.mem_append.mp hentry with hold | hnew
    · exact h.complete entry hold hlabel
    · rw [List.mem_singleton] at hnew
      subst hnew
      change db'.areaVersion ≤ version at hlabel
      omega

theorem Recorded.create {db db' : Database} {history : AreaHistory} {row : AreaGeometryRow}
    (h : Recorded db history) (hcreate : db.createArea row = some db') :
    Recorded db' (history ++ [(db'.areaVersion, db'.areas.rows)]) := by
  obtain ⟨hrows, hversion, -⟩ := Database.createArea_eq_some hcreate
  refine ⟨List.mem_append_right _ (List.mem_singleton_self _), ?_⟩
  intro entry hentry
  rcases List.mem_append.mp hentry with hold | hnew
  · obtain ⟨hle, hsub⟩ := h.past entry hold
    refine ⟨by omega, ?_⟩
    rw [hrows]
    exact List.subset_append_of_subset_left _ hsub
  · rw [List.mem_singleton] at hnew
    subst hnew
    exact ⟨Nat.le_refl _, List.Subset.refl _⟩

/-- The snapshot never falls behind: a later label and more rows. -/
def Forward (before after : Option Snapshot) : Prop :=
  ∀ s, before = some s → ∃ s', after = some s' ∧ s.version ≤ s'.version ∧
    s.areas.rows ⊆ s'.areas.rows

theorem Forward.refl (snapshot : Option Snapshot) : Forward snapshot snapshot :=
  fun s hs => ⟨s, hs, Nat.le_refl _, List.Subset.refl _⟩

theorem Forward.trans {a b c : Option Snapshot} (hab : Forward a b) (hbc : Forward b c) :
    Forward a c := by
  intro s hs
  obtain ⟨s', hs', hle, hsub⟩ := hab s hs
  obtain ⟨s'', hs'', hle', hsub'⟩ := hbc s' hs'
  exact ⟨s'', hs'', Nat.le_trans hle hle', List.Subset.trans hsub hsub'⟩

/-- What a rebuild at work knows against the snapshot it will replace, and what each resolved
one has left behind. -/
structure Sound (db : Database) (history : AreaHistory) (svc : AreaSnapshotService) : Prop where
  bodies : svc.rebuildChain.Follows RebuildStage.isIdle RebuildStage.isOver svc.rebuilds
  label : ∀ s, svc.snapshot = some s → Backed db history s.version s.areas.rows
  reading : ∀ rebuild version, svc.rebuilds rebuild = .readingRows version →
    version ≤ db.areaVersion ∧ ∀ s, svc.snapshot = some s → s.version ≤ version
  assigning : ∀ rebuild version areas, svc.rebuilds rebuild = .assigning version areas →
    Backed db history version areas.rows ∧ Forward svc.snapshot (some ⟨version, areas⟩) ∧
      ∀ committed, svc.committed? rebuild = some committed → committed ⊆ areas.rows
  called : ∀ rebuild committed, svc.committed? rebuild = some committed →
    committed ⊆ db.areas.rows
  resolved : ∀ rebuild, svc.rebuilds rebuild = .resolved → ∃ s, svc.snapshot = some s ∧
    ∀ committed, svc.committed? rebuild = some committed → committed ⊆ s.areas.rows
  built : svc.boot = .ready → ∃ s, svc.snapshot = some s

theorem sound_initial (db : Database) (history : AreaHistory) : Sound db history initial := by
  refine ⟨.empty trivial, ?_, ?_, ?_, ?_, ?_, ?_⟩
  · intro s hs
    cases hs
  · intro rebuild version hstage
    cases hstage
  · intro rebuild version areas hstage
    cases hstage
  · intro rebuild committed hcommitted
    cases hcommitted
  · intro rebuild hstage
    cases hstage
  · intro hboot
    cases hboot

namespace Sound

variable {db db' : Database} {history : AreaHistory} {svc t : AreaSnapshotService}

theorem create {row : AreaGeometryRow} (h : Sound db history svc)
    (hcreate : db.createArea row = some db') :
    Sound db' (history ++ [(db'.areaVersion, db'.areas.rows)]) svc := by
  obtain ⟨hrows, hversion, -⟩ := Database.createArea_eq_some hcreate
  refine ⟨h.bodies, ?_, ?_, ?_, ?_, h.resolved, h.built⟩
  · intro s hs
    exact (h.label s hs).create hcreate
  · intro rebuild version hstage
    obtain ⟨hle, hlabel⟩ := h.reading rebuild version hstage
    exact ⟨by omega, hlabel⟩
  · intro rebuild version areas hstage
    obtain ⟨hbacked, hrest⟩ := h.assigning rebuild version areas hstage
    exact ⟨hbacked.create hcreate, hrest⟩
  · intro rebuild committed hcommitted
    rw [hrows]
    exact List.subset_append_of_subset_left _ (h.called rebuild committed hcommitted)

theorem setRebuild (h : Sound db history svc) {rebuild : Nat} {next : RebuildStage}
    (hbegun : ¬ (svc.rebuilds rebuild).isIdle) (hopen : ¬ (svc.rebuilds rebuild).isOver)
    (hnext : ¬ next.isIdle)
    (hreading : ∀ version, next = .readingRows version →
      version ≤ db.areaVersion ∧ ∀ s, svc.snapshot = some s → s.version ≤ version)
    (hassigning : ∀ version areas, next = .assigning version areas →
      Backed db history version areas.rows ∧ Forward svc.snapshot (some ⟨version, areas⟩) ∧
        ∀ committed, svc.committed? rebuild = some committed → committed ⊆ areas.rows)
    (hresolved : next ≠ .resolved) : Sound db history (svc.setRebuild rebuild next) := by
  refine ⟨h.bodies.update hbegun hopen hnext, h.label, ?_, ?_, h.called, ?_, h.built⟩
  · intro i version hstage
    rcases setRebuild_stage hstage with ⟨-, hnew⟩ | hold
    · exact hreading version hnew
    · exact h.reading i version hold
  · intro i version areas hstage
    rcases setRebuild_stage hstage with ⟨rfl, hnew⟩ | hold
    · exact hassigning version areas hnew
    · exact h.assigning i version areas hold
  · intro i hstage
    rcases setRebuild_stage hstage with ⟨-, hnew⟩ | hold
    · exact absurd hnew hresolved
    · exact h.resolved i hold

/-- The assignment: no other rebuild is at work, so nothing read before it is assigned later. -/
theorem assign (h : Sound db history svc) {rebuild version : Nat} {areas : AreasTable}
    (hstage : svc.rebuilds rebuild = .assigning version areas) :
    Sound db history
      { svc.setRebuild rebuild .resolved with snapshot := some ⟨version, areas⟩ } := by
  obtain ⟨hbacked, hforward, hcommitted⟩ := h.assigning rebuild version areas hstage
  have hbegun : ¬ (svc.rebuilds rebuild).isIdle := by rw [hstage]; exact id
  have hopen : ¬ (svc.rebuilds rebuild).isOver := by rw [hstage]; exact id
  have halone := Serialized.alone h.bodies hbegun hopen
  refine ⟨h.bodies.update hbegun hopen id, ?_, ?_, ?_, h.called, ?_, ?_⟩
  · intro s hs
    cases hs
    exact hbacked
  · intro i v hi
    exact absurd hi (halone i id id)
  · intro i v a hi
    exact absurd hi (halone i id id)
  · intro i hi
    refine ⟨_, rfl, fun committed hc => ?_⟩
    by_cases hid : i = rebuild
    · subst hid
      exact hcommitted committed hc
    · change Function.update svc.rebuilds rebuild .resolved i = .resolved at hi
      rw [Function.update_of_ne hid] at hi
      obtain ⟨s, hs, hsub⟩ := h.resolved i hi
      obtain ⟨s', hs', -, hrows⟩ := hforward s hs
      cases hs'
      exact List.Subset.trans (hsub committed hc) hrows
  · intro _
    exact ⟨_, rfl⟩

theorem of_same (h : Sound db history svc)
    (hbodies : t.rebuildChain.Follows RebuildStage.isIdle RebuildStage.isOver t.rebuilds)
    (hsnapshot : t.snapshot = svc.snapshot)
    (hcommitted : ∀ rebuild, t.committed? rebuild = svc.committed? rebuild)
    (hstage : ∀ rebuild, t.rebuilds rebuild = .readingVersion ∨
      t.rebuilds rebuild = svc.rebuilds rebuild)
    (hboot : t.boot = .ready → ∃ s, svc.snapshot = some s) : Sound db history t := by
  have hback : ∀ rebuild stage, t.rebuilds rebuild = stage → stage ≠ .readingVersion →
      svc.rebuilds rebuild = stage := by
    intro rebuild stage heq hne
    rcases hstage rebuild with hreading | hsame
    · exact absurd (heq.symm.trans hreading) hne
    · exact hsame.symm.trans heq
  refine ⟨hbodies, ?_, ?_, ?_, ?_, ?_, ?_⟩
  · rw [hsnapshot]
    exact h.label
  · rw [hsnapshot]
    intro rebuild version heq
    exact h.reading rebuild version (hback rebuild _ heq (by simp))
  · intro rebuild version areas heq
    rw [hsnapshot, hcommitted]
    exact h.assigning rebuild version areas (hback rebuild _ heq (by simp))
  · intro rebuild committed heq
    rw [hcommitted] at heq
    exact h.called rebuild committed heq
  · intro rebuild heq
    rw [hsnapshot, hcommitted]
    exact h.resolved rebuild (hback rebuild _ heq (by simp))
  · rw [hsnapshot]
    exact hboot

theorem enqueue (h : Sound db history svc) (polls : List PollStage) {boot : BootStage}
    (hboot : boot = .ready → svc.boot = .ready) :
    Sound db history { svc.enqueueRebuild db.areas.rows with polls, boot } := by
  have hnew : ∀ rebuild committed,
      (svc.enqueueRebuild db.areas.rows).committed? rebuild = some committed →
      svc.committed? rebuild = some committed ∨
        (rebuild = svc.rebuildChain.tasks.length ∧ committed = db.areas.rows) := by
    intro rebuild committed heq
    simp only [committed?, enqueueRebuild, PromiseChains.append] at heq ⊢
    rcases Nat.lt_trichotomy rebuild svc.rebuildChain.tasks.length with hlt | rfl | hgt
    · rw [List.getElem?_append_left hlt] at heq
      exact Or.inl heq
    · rw [List.getElem?_concat_length, Option.map_some, Option.some.injEq] at heq
      exact Or.inr ⟨rfl, heq.symm⟩
    · rw [List.getElem?_append_right (Nat.le_of_lt hgt), List.getElem?_singleton,
        if_neg (by omega)] at heq
      cases heq
  have hold : ∀ rebuild committed, ¬ (svc.rebuilds rebuild).isIdle →
      (svc.enqueueRebuild db.areas.rows).committed? rebuild = some committed →
      svc.committed? rebuild = some committed := by
    intro rebuild committed hbegun heq
    rcases hnew rebuild committed heq with hsame | ⟨rfl, -⟩
    · exact hsame
    · exact absurd (h.bodies.lt_length hbegun) (Nat.lt_irrefl _)
  refine ⟨h.bodies.append () db.areas.rows, h.label, h.reading, ?_, ?_, ?_, ?_⟩
  · intro rebuild version areas hstage
    obtain ⟨hbacked, hforward, hcommitted⟩ := h.assigning rebuild version areas hstage
    refine ⟨hbacked, hforward, fun committed heq => hcommitted committed ?_⟩
    change svc.rebuilds rebuild = _ at hstage
    exact hold rebuild committed (by rw [hstage]; exact id) heq
  · intro rebuild committed heq
    rcases hnew rebuild committed heq with hsame | ⟨-, rfl⟩
    · exact h.called rebuild committed hsame
    · exact List.Subset.refl _
  · intro rebuild hstage
    obtain ⟨s, hs, hcommitted⟩ := h.resolved rebuild hstage
    refine ⟨s, hs, fun committed heq => hcommitted committed ?_⟩
    change svc.rebuilds rebuild = _ at hstage
    exact hold rebuild committed (by rw [hstage]; exact id) heq
  · exact fun hready => h.built (hboot hready)

theorem committed?_of_moved {rebuildChain : PromiseChains Unit (List AreaGeometryRow)}
    {id : Nat} (hmoved : svc.rebuildChain.Moved id rebuildChain) (rebuild : Nat) :
    (rebuildChain.tasks[rebuild]?).map (·.payload) = svc.committed? rebuild := by
  rw [← List.getElem?_map, hmoved.map_eq fun _ payload => payload, List.getElem?_map, committed?]

theorem step (h : Sound db history svc) (hrecorded : Recorded db history)
    {action : SnapshotAction} (hstep : SnapshotStep db svc action t) : Sound db history t := by
  cases hstep with
  | kept action polls boot hboot =>
    refine h.of_same h.bodies rfl (fun _ => rfl) (fun _ => Or.inr rfl) fun hready => ?_
    rcases hboot hready with hbefore | ⟨rebuild, hresolved⟩
    · exact h.built hbefore
    · obtain ⟨s, hs, -⟩ := h.resolved rebuild hresolved
      exact ⟨s, hs⟩
  | enqueued action polls boot hboot => exact h.enqueue polls hboot
  | started rebuild rebuildChain hstart =>
    refine h.of_same (h.bodies.start hstart id) rfl
      (committed?_of_moved (PromiseChains.moved_of_start hstart)) (fun i => ?_) h.built
    by_cases hi : i = rebuild
    · exact Or.inl (by rw [hi]; exact Function.update_self ..)
    · exact Or.inr (Function.update_of_ne hi ..)
  | versionRead rebuild hstage =>
    refine h.setRebuild (by rw [hstage]; exact id) (by rw [hstage]; exact id) id ?_ ?_ (by simp)
    · intro version heq
      cases heq
      exact ⟨Nat.le_refl _, fun s hs => (h.label s hs).reached⟩
    · intro version areas heq
      cases heq
  | rowsRead rebuild version hstage =>
    obtain ⟨hle, hlabel⟩ := h.reading rebuild version hstage
    refine h.setRebuild (by rw [hstage]; exact id) (by rw [hstage]; exact id) id ?_ ?_ (by simp)
    · intro v heq
      cases heq
    · intro v areas heq
      cases heq
      refine ⟨⟨hle, List.Subset.refl _, ?_⟩, ?_, ?_⟩
      · exact fun entry hentry _ => (hrecorded.past entry hentry).2
      · exact fun s hs => ⟨_, rfl, hlabel s hs, (h.label s hs).committed⟩
      · exact fun committed heq => h.called rebuild committed heq
  | assigned rebuild version areas hstage => exact h.assign hstage
  | failed rebuild hbegun hopen =>
    exact h.setRebuild hbegun hopen id (fun _ heq => nomatch heq) (fun _ _ heq => nomatch heq)
      (by simp)
  | finished rebuild rebuildChain hover hfinish =>
    exact h.of_same (h.bodies.finish hfinish hover) rfl
      (committed?_of_moved (PromiseChains.moved_of_finish hfinish)) (fun _ => Or.inr rfl) h.built
  | settled rebuild rebuildChain hsettle =>
    exact h.of_same (h.bodies.settle hsettle) rfl
      (committed?_of_moved (PromiseChains.moved_of_settle hsettle)) (fun _ => Or.inr rfl) h.built

theorem over_of_step (h : Sound db history svc) {action : SnapshotAction}
    (hstep : SnapshotStep db svc action t) {rebuild : Nat}
    (hover : (svc.rebuilds rebuild).isOver) : t.rebuilds rebuild = svc.rebuilds rebuild := by
  have hupdate : ∀ i next, ¬ (svc.rebuilds i).isOver →
      Function.update svc.rebuilds i next rebuild = svc.rebuilds rebuild := by
    intro i next hopen
    have hi : rebuild ≠ i := by
      rintro rfl
      exact hopen hover
    exact Function.update_of_ne hi ..
  cases hstep with
  | started i rebuildChain hstart =>
    obtain ⟨hwaiting, -⟩ := PromiseChains.phase?_of_start hstart
    apply hupdate i _
    apply RebuildStage.not_isOver_of_isIdle
    apply h.bodies.waiting
    rw [h.bodies.ordered.started.mem, hwaiting]
    simp
  | versionRead i hstage => exact hupdate i _ (by rw [hstage]; exact id)
  | rowsRead i version hstage => exact hupdate i _ (by rw [hstage]; exact id)
  | assigned i version areas hstage => exact hupdate i _ (by rw [hstage]; exact id)
  | failed i hbegun hopen => exact hupdate i _ hopen
  | _ => rfl

theorem forward (h : Sound db history svc) {action : SnapshotAction}
    (hstep : SnapshotStep db svc action t) : Forward svc.snapshot t.snapshot := by
  cases hstep with
  | assigned rebuild version areas hstage => exact (h.assigning rebuild version areas hstage).2.1
  | _ => exact Forward.refl _

end Sound

theorem committed?_of_step {db : Database} {svc t : AreaSnapshotService} {action : SnapshotAction}
    {rebuild : Nat} {committed : List AreaGeometryRow}
    (h : svc.committed? rebuild = some committed) (hstep : SnapshotStep db svc action t) :
    t.committed? rebuild = some committed := by
  cases hstep with
  | enqueued action polls boot hboot =>
    obtain ⟨task, htask, hpayload⟩ := Option.map_eq_some_iff.mp h
    have hlt := (List.getElem?_eq_some_iff.mp htask).1
    rw [committed?, enqueueRebuild, PromiseChains.append, List.getElem?_append_left hlt]
    exact h
  | started i rebuildChain hstart =>
    exact (Sound.committed?_of_moved (PromiseChains.moved_of_start hstart) rebuild).trans h
  | finished i rebuildChain hover hfinish =>
    exact (Sound.committed?_of_moved (PromiseChains.moved_of_finish hfinish) rebuild).trans h
  | settled i rebuildChain hsettle =>
    exact (Sound.committed?_of_moved (PromiseChains.moved_of_settle hsettle) rebuild).trans h
  | _ => exact h

/-- The steps of a rebuild whose queries are answered. -/
def advances : SnapshotAction → Bool
  | .start _ | .queryVersion _ | .queryRows _ | .assign _ | .finish _ | .settle _ => true
  | _ => false

/-- The steps a rebuild has before it. -/
def stepsLeft (svc : AreaSnapshotService) (rebuild : Nat) : Nat :=
  match svc.rebuildChain.phase? rebuild, svc.rebuilds rebuild with
  | some .waiting, _ => 6
  | some .running, .readingVersion => 5
  | some .running, .readingRows _ => 4
  | some .running, .assigning _ _ => 3
  | some .running, _ => 2
  | some .finished, _ => 1
  | _, _ => 0

def totalStepsLeft (svc : AreaSnapshotService) : Nat :=
  ∑ rebuild ∈ Finset.range svc.rebuildChain.tasks.length, svc.stepsLeft rebuild

section Progress

variable {db : Database} {history : AreaHistory} {svc t : AreaSnapshotService}

private theorem totalStepsLeft_lt {rebuild : Nat}
    (hlength : t.rebuildChain.tasks.length = svc.rebuildChain.tasks.length)
    (hlt : rebuild < svc.rebuildChain.tasks.length)
    (hne : ∀ i, i ≠ rebuild → t.stepsLeft i = svc.stepsLeft i)
    (hless : t.stepsLeft rebuild < svc.stepsLeft rebuild) :
    t.totalStepsLeft < svc.totalStepsLeft := by
  rw [totalStepsLeft, hlength]
  apply Finset.sum_lt_sum
  · intro i _
    by_cases hi : i = rebuild
    · rw [hi]
      exact Nat.le_of_lt hless
    · exact Nat.le_of_eq (hne i hi)
  · exact ⟨rebuild, Finset.mem_range.mpr hlt, hless⟩

/-- One step of one rebuild, with every query answered. -/
structure Advance (db : Database) (svc t : AreaSnapshotService) (action : SnapshotAction) :
    Prop where
  advances : advances action = true
  step : step db svc action = some t
  fewer : t.totalStepsLeft < svc.totalStepsLeft
  length : t.rebuildChain.tasks.length = svc.rebuildChain.tasks.length
  rejected : ∀ rebuild, t.rebuilds rebuild = .rejected → svc.rebuilds rebuild = .rejected

private theorem advance_of_setRebuild {rebuild : Nat} {next : RebuildStage}
    {snapshot : Option Snapshot} {action : SnapshotAction} (hadvances : advances action = true)
    (hstep : step db svc action = some { svc.setRebuild rebuild next with snapshot })
    (hrunning : svc.rebuildChain.phase? rebuild = some .running) (hnext : next ≠ .rejected)
    (hless : ({ svc.setRebuild rebuild next with snapshot } : AreaSnapshotService).stepsLeft
      rebuild < svc.stepsLeft rebuild) :
    Advance db svc { svc.setRebuild rebuild next with snapshot } action := by
  refine ⟨hadvances, hstep, ?_, rfl, ?_⟩
  · refine totalStepsLeft_lt rfl (PromiseChains.lt_length_of_phase? hrunning) (fun i hi => ?_) hless
    simp only [stepsLeft, setRebuild, Function.update_of_ne hi]
  · intro i hi
    change Function.update svc.rebuilds rebuild next i = .rejected at hi
    by_cases hid : i = rebuild
    · rw [hid, Function.update_self] at hi
      exact absurd hi hnext
    · rwa [Function.update_of_ne hid] at hi

private theorem advance_of_moved {rebuild : Nat} {action : SnapshotAction}
    (hadvances : advances action = true) (hstep : step db svc action = some t)
    (hmoved : svc.rebuildChain.Moved rebuild t.rebuildChain)
    (hlt : rebuild < svc.rebuildChain.tasks.length)
    (hbodies : ∀ i, i ≠ rebuild → t.rebuilds i = svc.rebuilds i)
    (hself : t.rebuilds rebuild = .rejected → svc.rebuilds rebuild = .rejected)
    (hless : t.stepsLeft rebuild < svc.stepsLeft rebuild) : Advance db svc t action := by
  have hlength : t.rebuildChain.tasks.length = svc.rebuildChain.tasks.length := by
    simpa using congrArg List.length (hmoved.map_eq fun _ payload => payload)
  refine ⟨hadvances, hstep, ?_, hlength, ?_⟩
  · refine totalStepsLeft_lt hlength hlt (fun i hi => ?_) hless
    rw [stepsLeft, stepsLeft, hmoved.phase?_of_ne hi, hbodies i hi]
  · intro i hi
    by_cases hid : i = rebuild
    · subst hid
      exact hself hi
    · rwa [hbodies i hid] at hi

private theorem finish_advance {rebuild : Nat}
    (hrunning : svc.rebuildChain.phase? rebuild = some .running)
    (hstage : svc.rebuilds rebuild = .resolved ∨ svc.rebuilds rebuild = .rejected) :
    ∃ action t, Advance db svc t action := by
  obtain ⟨rebuildChain, hchain⟩ : ∃ rebuildChain,
      svc.rebuildChain.finish? rebuild = some rebuildChain := by
    simp [PromiseChains.finish?, hrunning]
  have hfinished := PromiseChains.phase?_of_finish hchain
  refine ⟨.finish rebuild, { svc with rebuildChain }, ?_⟩
  refine advance_of_moved rfl ?_ (PromiseChains.moved_of_finish hchain)
    (PromiseChains.lt_length_of_phase? hrunning) (fun _ _ => rfl) id ?_
  · rcases hstage with hstage | hstage
    · simp [step, hstage, hchain]
    · simp [step, hstage, hchain]
  · rcases hstage with hstage | hstage
    · simp [stepsLeft, hfinished, hrunning, hstage]
    · simp [stepsLeft, hfinished, hrunning, hstage]

/-- Until every rebuild is over, some rebuild can take its next step. -/
private theorem exists_advance (h : Sound db history svc) {rebuild : Nat}
    (hlt : rebuild < svc.rebuildChain.tasks.length)
    (hunsettled : svc.rebuildChain.settled rebuild = false) :
    ∃ action t, Advance db svc t action := by
  obtain ⟨j, phase, hle, -, hphase, hopen, hstart⟩ :=
    h.bodies.ordered.exists_first_unsettled hlt hunsettled
  have hj : j < svc.rebuildChain.tasks.length := Nat.lt_of_le_of_lt hle hlt
  cases phase with
  | waiting =>
    obtain ⟨rebuildChain, hchain⟩ := Option.isSome_iff_exists.mp (hstart rfl)
    obtain ⟨-, hrunning⟩ := PromiseChains.phase?_of_start hchain
    refine ⟨.start j, { svc.setRebuild j .readingVersion with rebuildChain }, ?_⟩
    refine advance_of_moved rfl (by simp [step, hchain]) (PromiseChains.moved_of_start hchain) hj
      (fun i hi => Function.update_of_ne hi ..) ?_ ?_
    · intro hrejected
      change Function.update svc.rebuilds j .readingVersion j = .rejected at hrejected
      rw [Function.update_self] at hrejected
      cases hrejected
    · simp [stepsLeft, setRebuild, hrunning, hphase]
  | running =>
    cases hstage : svc.rebuilds j with
    | notStarted => exact absurd (by rw [hstage]; trivial) (h.bodies.running j hphase)
    | readingVersion =>
      refine ⟨.queryVersion j, svc.setRebuild j (.readingRows db.areaVersion), ?_⟩
      exact advance_of_setRebuild rfl (by simp only [step, hstage]; rfl) hphase (by simp)
        (by simp [stepsLeft, setRebuild, hphase, hstage])
    | readingRows version =>
      refine ⟨.queryRows j, svc.setRebuild j (.assigning version db.areas), ?_⟩
      exact advance_of_setRebuild rfl (by simp only [step, hstage]; rfl) hphase (by simp)
        (by simp [stepsLeft, setRebuild, hphase, hstage])
    | assigning version areas =>
      refine ⟨.assign j, { svc.setRebuild j .resolved with snapshot := some ⟨version, areas⟩ }, ?_⟩
      exact advance_of_setRebuild rfl (by simp only [step, hstage]) hphase (by simp)
        (by simp [stepsLeft, setRebuild, hphase, hstage])
    | resolved => exact finish_advance hphase (Or.inl hstage)
    | rejected => exact finish_advance hphase (Or.inr hstage)
  | finished =>
    obtain ⟨rebuildChain, hchain⟩ : ∃ rebuildChain,
        svc.rebuildChain.settle? j = some rebuildChain := by
      simp [PromiseChains.settle?, hphase]
    obtain ⟨-, hsettled⟩ := PromiseChains.phase?_of_settle hchain
    refine ⟨.settle j, { svc with rebuildChain }, ?_⟩
    refine advance_of_moved rfl (by simp [step, hchain]) (PromiseChains.moved_of_settle hchain) hj
      (fun _ _ => rfl) id ?_
    simp [stepsLeft, hsettled, hphase]
  | settled => cases hopen
  | cleaned => cases hopen

/-- Every rebuild that has been queued can be seen through, whatever happened to those before it:
with its queries answered it resolves. -/
theorem exists_drain (h : Sound db history svc) (hrecorded : Recorded db history) :
    ∃ actions t, (∀ action ∈ actions, advances action = true) ∧
      (Machine.mk (step db)).run svc actions = some t ∧
      ∀ rebuild, rebuild < svc.rebuildChain.tasks.length →
        t.rebuildChain.settled rebuild = true ∧
        (svc.rebuilds rebuild ≠ .rejected → t.rebuilds rebuild = .resolved) := by
  induction hn : svc.totalStepsLeft using Nat.strongRecOn generalizing svc with
  | _ n ih =>
    by_cases hall : ∀ rebuild, rebuild < svc.rebuildChain.tasks.length →
        svc.rebuildChain.settled rebuild = true
    · refine ⟨[], svc, by simp, rfl, fun rebuild hlt => ⟨hall rebuild hlt, fun hrejected => ?_⟩⟩
      have hover : (svc.rebuilds rebuild).isOver := by
        rcases PromiseChains.settled_eq_true.mp (hall rebuild hlt) with hphase | hphase
        · exact h.bodies.ended rebuild _ hphase (by decide) (by decide)
        · exact h.bodies.ended rebuild _ hphase (by decide) (by decide)
      cases hstage : svc.rebuilds rebuild with
      | resolved => rfl
      | rejected => exact absurd hstage hrejected
      | notStarted => rw [hstage] at hover; cases hover
      | readingVersion => rw [hstage] at hover; cases hover
      | readingRows version => rw [hstage] at hover; cases hover
      | assigning version areas => rw [hstage] at hover; cases hover
    · push Not at hall
      obtain ⟨rebuild, hlt, hunsettled⟩ := hall
      obtain ⟨action, u, hadvance⟩ := exists_advance h hlt (by simpa using hunsettled)
      have hu := h.step hrecorded (step_cases hadvance.step)
      obtain ⟨actions, t, hadvances, hrun, hdone⟩ :=
        ih _ (hn ▸ hadvance.fewer) hu rfl
      refine ⟨action :: actions, t, ?_, ?_, fun i hi => ?_⟩
      · intro a ha
        rcases List.mem_cons.mp ha with rfl | hmem
        · exact hadvance.advances
        · exact hadvances a hmem
      · exact (Machine.mk (step db)).run_cons_eq_some.mpr ⟨u, hadvance.step, hrun⟩
      · obtain ⟨hsettled, hresolved⟩ := hdone i (hadvance.length ▸ hi)
        exact ⟨hsettled, fun hrejected => hresolved fun hnow => hrejected (hadvance.rejected i hnow)⟩

end Progress

end AreaSnapshotService

end Geofence
