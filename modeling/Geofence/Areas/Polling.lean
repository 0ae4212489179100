import Geofence.Areas.Deletion
/-!
# What a poll catches up with

An instance that did not create an area learns of it by a poll: the version the poll reads is its
snapshot's label, or it awaits a rebuild. Polls overlap, rebuilds queue behind each other, any
query may fail, and areas are created and deleted meanwhile.
-/

namespace Geofence

open Framework

namespace AreaSnapshotService

/-- The snapshot's label is at least the version. -/
def Reached (svc : AreaSnapshotService) (version : Nat) : Prop :=
  ∃ s, svc.snapshot = some s ∧ version ≤ s.version

/-- What a rebuild has read or assigned is at least the version. -/
structure Catches (svc : AreaSnapshotService) (version rebuild : Nat) :
    Prop where
  reading : ∀ v, svc.rebuilds rebuild = .readingRows v → version ≤ v
  assigning : ∀ v areas, svc.rebuilds rebuild = .assigning v areas → version ≤ v
  resolved : svc.rebuilds rebuild = .resolved → svc.Reached version

/-- No rebuild at work has read a version before the snapshot's label. -/
structure Forthcoming (svc : AreaSnapshotService) : Prop where
  reading : ∀ rebuild v, svc.rebuilds rebuild = .readingRows v →
    ∀ s, svc.snapshot = some s → s.version ≤ v
  assigning : ∀ rebuild v areas, svc.rebuilds rebuild = .assigning v areas →
    ∀ s, svc.snapshot = some s → s.version ≤ v

/-- A poll that began under the version: what it has read, and what its comparison led to. -/
structure Follows (svc : AreaSnapshotService) (polls : List PollRecord) (version poll : Nat) :
    Prop where
  comparing : ∀ v, svc.polls[poll]? = some (.comparing v) → version ≤ v
  same : ∀ record, polls[poll]? = some record → record.compared = some none →
    svc.Reached version
  awaits : ∀ record, polls[poll]? = some record → ∀ rebuild,
    record.compared = some (some rebuild) → svc.Catches version rebuild

section Polls

variable {db : Database} {deleted : List AreaId} {createdAt : AreaId → Nat}
  {svc t : AreaSnapshotService} {polls : List PollRecord} {version poll : Nat}

private theorem forthcoming_initial : initial.Forthcoming where
  reading := fun _ _ hstage => by cases hstage
  assigning := fun _ _ _ hstage => by cases hstage

theorem Forthcoming.of_same (h : svc.Forthcoming) (hsnapshot : t.snapshot = svc.snapshot)
    (hrebuilds : t.rebuilds = svc.rebuilds) : t.Forthcoming := by
  refine ⟨?_, ?_⟩
  · rw [hsnapshot, hrebuilds]
    exact h.reading
  · rw [hsnapshot, hrebuilds]
    exact h.assigning

theorem Forthcoming.setRebuild (h : svc.Forthcoming) {rebuild : Nat} {next : RebuildStage}
    (hreading : ∀ v, next = .readingRows v → ∀ s, svc.snapshot = some s → s.version ≤ v)
    (hassigning : ∀ v areas, next = .assigning v areas →
      ∀ s, svc.snapshot = some s → s.version ≤ v) :
    (svc.setRebuild rebuild next).Forthcoming := by
  refine ⟨?_, ?_⟩
  · intro i v hstage
    rcases setRebuild_stage hstage with ⟨-, hnew⟩ | hold
    · exact hreading v hnew
    · exact h.reading i v hold
  · intro i v areas hstage
    rcases setRebuild_stage hstage with ⟨-, hnew⟩ | hold
    · exact hassigning v areas hnew
    · exact h.assigning i v areas hold

theorem Forthcoming.step (h : svc.Forthcoming) (htraced : Traced db deleted createdAt svc)
    {action : SnapshotAction} (hstep : SnapshotStep db svc action t) : t.Forthcoming := by
  cases hstep with
  | kept | enqueued | finished | settled => exact h.of_same rfl rfl
  | started rebuild rebuildChain hstart =>
    have hset : (svc.setRebuild rebuild .readingVersion).Forthcoming :=
      h.setRebuild (fun _ heq => (by cases heq)) fun _ _ heq => (by cases heq)
    exact hset.of_same rfl rfl
  | versionRead rebuild hstage =>
    refine h.setRebuild ?_ fun _ _ heq => (by cases heq)
    intro v heq s hs
    cases heq
    exact (htraced.label s hs).reached
  | rowsRead rebuild v hstage =>
    refine h.setRebuild (fun _ heq => (by cases heq)) ?_
    intro w areas heq s hs
    cases heq
    exact h.reading rebuild v hstage s hs
  | assigned rebuild v areas hstage =>
    have hbegun : ¬(svc.rebuilds rebuild).isIdle := by rw [hstage]; exact id
    have hopen : ¬(svc.rebuilds rebuild).isOver := by rw [hstage]; exact id
    have halone := htraced.serial.alone hbegun hopen
    refine ⟨?_, ?_⟩
    · intro i w hreading
      exact absurd hreading (halone i id id)
    · intro i w rows hassigning
      exact absurd hassigning (halone i id id)
  | failed rebuild hbegun hopen =>
    exact h.setRebuild (fun _ heq => (by cases heq)) fun _ _ heq => (by cases heq)

theorem Reached.step (h : svc.Reached version) (hforth : svc.Forthcoming) {action : SnapshotAction}
    (hstep : SnapshotStep db svc action t) : t.Reached version := by
  obtain ⟨s, hs, hle⟩ := h
  cases hstep with
  | assigned rebuild v areas hstage =>
    exact ⟨_, rfl, hle.trans (hforth.assigning rebuild v areas hstage s hs)⟩
  | _ => exact ⟨s, hs, hle⟩

private theorem catches_of_idle {rebuild : Nat} (h : (svc.rebuilds rebuild).isIdle) :
    svc.Catches version rebuild := by
  refine ⟨?_, ?_, ?_⟩
  · intro v hstage
    rw [hstage] at h
    cases h
  · intro v areas hstage
    rw [hstage] at h
    cases h
  · intro hstage
    rw [hstage] at h
    cases h

theorem Catches.of_same {rebuild : Nat} (h : svc.Catches version rebuild)
    (hsnapshot : t.snapshot = svc.snapshot) (hrebuilds : t.rebuilds = svc.rebuilds) :
    t.Catches version rebuild := by
  refine ⟨?_, ?_, ?_⟩
  · rw [hrebuilds]
    exact h.reading
  · rw [hrebuilds]
    exact h.assigning
  · rw [hrebuilds, Reached, hsnapshot]
    exact h.resolved

theorem Catches.setRebuild {i rebuild : Nat} {next : RebuildStage} (h : svc.Catches version i)
    (hreading : ∀ v, i = rebuild → next = .readingRows v → version ≤ v)
    (hassigning : ∀ v areas, i = rebuild → next = .assigning v areas → version ≤ v)
    (hresolved : next ≠ .resolved) : (svc.setRebuild rebuild next).Catches version i := by
  refine ⟨?_, ?_, ?_⟩
  · intro v hstage
    rcases setRebuild_stage hstage with ⟨hi, hnew⟩ | hold
    · exact hreading v hi hnew
    · exact h.reading v hold
  · intro v areas hstage
    rcases setRebuild_stage hstage with ⟨hi, hnew⟩ | hold
    · exact hassigning v areas hi hnew
    · exact h.assigning v areas hold
  · intro hstage
    rcases setRebuild_stage hstage with ⟨-, hnew⟩ | hold
    · exact absurd hnew hresolved
    · exact h.resolved hold

theorem Catches.step {i : Nat} (h : svc.Catches version i) (hforth : svc.Forthcoming)
    (hversion : version ≤ db.areaVersion) {action : SnapshotAction}
    (hstep : SnapshotStep db svc action t) : t.Catches version i := by
  cases hstep with
  | kept | enqueued | finished | settled => exact h.of_same rfl rfl
  | started rebuild rebuildChain hstart =>
    have hset : (svc.setRebuild rebuild .readingVersion).Catches version i :=
      h.setRebuild (fun _ _ heq => (by cases heq)) (fun _ _ _ heq => (by cases heq))
        (by intro heq; cases heq)
    exact hset.of_same rfl rfl
  | versionRead rebuild hstage =>
    refine h.setRebuild ?_ (fun _ _ _ heq => (by cases heq)) (by intro heq; cases heq)
    intro v _ heq
    cases heq
    exact hversion
  | rowsRead rebuild v hstage =>
    refine h.setRebuild (fun _ _ heq => (by cases heq)) ?_ (by intro heq; cases heq)
    intro w areas hi heq
    cases heq
    exact h.reading v (hi ▸ hstage)
  | assigned rebuild v areas hstage =>
    refine ⟨?_, ?_, ?_⟩
    · intro w hreading
      rcases setRebuild_stage hreading with ⟨-, hnew⟩ | hold
      · cases hnew
      · exact h.reading w hold
    · intro w rows hassigning
      rcases setRebuild_stage hassigning with ⟨-, hnew⟩ | hold
      · cases hnew
      · exact h.assigning w rows hold
    · intro hresolved
      rcases setRebuild_stage hresolved with ⟨hi, -⟩ | hold
      · exact ⟨_, rfl, h.assigning v areas (hi ▸ hstage)⟩
      · have hassign : SnapshotStep db svc (.assign rebuild) _ := .assigned rebuild v areas hstage
        exact (h.resolved hold).step hforth hassign
  | failed rebuild hbegun hopen =>
    exact h.setRebuild (fun _ _ heq => (by cases heq)) (fun _ _ _ heq => (by cases heq))
      (by intro heq; cases heq)

theorem Follows.moved (h : svc.Follows polls version poll)
    (hreached : svc.Reached version → t.Reached version)
    (hcatches : ∀ rebuild, svc.Catches version rebuild → t.Catches version rebuild)
    (hcomparing : ∀ v, t.polls[poll]? = some (.comparing v) →
      svc.polls[poll]? = some (.comparing v) ∨ version ≤ v) :
    t.Follows polls version poll := by
  refine ⟨?_, ?_, ?_⟩
  · intro v hv
    rcases hcomparing v hv with hold | hle
    · exact h.comparing v hold
    · exact hle
  · intro record hrecord hcompared
    exact hreached (h.same record hrecord hcompared)
  · intro record hrecord rebuild hcompared
    exact hcatches rebuild (h.awaits record hrecord rebuild hcompared)

theorem comparing_of_set {i : Nat} {stage : PollStage} {v : Nat}
    (hv : (svc.polls.set i stage)[poll]? = some (.comparing v)) :
    svc.polls[poll]? = some (.comparing v) ∨ stage = .comparing v := by
  rw [List.getElem?_set] at hv
  split at hv
  · split at hv
    · exact Or.inr (Option.some.inj hv)
    · cases hv
  · exact Or.inl hv

theorem Follows.compare (h : svc.Follows polls version poll) (hserial : svc.Serialized)
    {i v : Nat} (hpoll : svc.polls[i]? = some (.comparing v)) (committed : List AreaGeometryRow) :
    (svc.compare i v committed).Follows (svc.recordPolls deleted polls (.pollCompare i)) version
      poll := by
  obtain ⟨hsnapshot, hrebuilds, hpolls⟩ := compare_frame svc i v committed
  have hreached : svc.Reached version → (svc.compare i v committed).Reached version := by
    rw [Reached, Reached, hsnapshot]
    exact id
  have hcatches : ∀ rebuild, svc.Catches version rebuild →
      (svc.compare i v committed).Catches version rebuild :=
    fun rebuild hbefore => hbefore.of_same hsnapshot hrebuilds
  simp only [recordPolls, hpoll]
  refine ⟨?_, ?_, ?_⟩
  · intro w hw
    rw [hpolls] at hw
    rcases comparing_of_set hw with hold | heq
    · exact h.comparing w hold
    · cases heq
  · intro record hrecord hcompared
    rw [List.getElem?_modify] at hrecord
    obtain ⟨old, hold, rfl⟩ := Option.map_eq_some_iff.mp hrecord
    by_cases hi : i = poll
    · rw [if_pos hi] at hcompared
      by_cases hlabel : svc.snapshot.map (·.version) = some v
      · obtain ⟨s, hs, hversion⟩ := Option.map_eq_some_iff.mp hlabel
        exact hreached ⟨s, hs, hversion ▸ h.comparing v (hi ▸ hpoll)⟩
      · simp only [ne_eq, hlabel, not_false_eq_true, if_true] at hcompared
        cases hcompared
    · rw [if_neg hi] at hcompared
      exact hreached (h.same old hold hcompared)
  · intro record hrecord rebuild hcompared
    rw [List.getElem?_modify] at hrecord
    obtain ⟨old, hold, rfl⟩ := Option.map_eq_some_iff.mp hrecord
    by_cases hi : i = poll
    · rw [if_pos hi] at hcompared
      by_cases hlabel : svc.snapshot.map (·.version) = some v
      · simp only [ne_eq, hlabel, not_true_eq_false, if_false] at hcompared
        cases hcompared
      · simp only [ne_eq, hlabel, not_false_eq_true, if_true] at hcompared
        cases hcompared
        apply hcatches
        apply catches_of_idle
        by_contra hbegun
        exact absurd (hserial.lt_length hbegun) (Nat.lt_irrefl _)
    · rw [if_neg hi] at hcompared
      exact hcatches rebuild (h.awaits old hold rebuild hcompared)

theorem Follows.tick (h : svc.Follows polls version poll)
    (hreached : svc.Reached version → t.Reached version)
    (hcatches : ∀ rebuild, svc.Catches version rebuild → t.Catches version rebuild)
    (hpolls : t.polls = svc.polls ++ [.reading]) :
    t.Follows (polls ++ [⟨deleted, none⟩]) version poll := by
  have hold : ∀ record, (polls ++ [⟨deleted, none⟩])[poll]? = some record →
      ∀ compared, record.compared = some compared → polls[poll]? = some record := by
    intro record hrecord compared hcompared
    rw [List.getElem?_append] at hrecord
    split at hrecord
    · exact hrecord
    · rw [List.mem_singleton.mp (List.mem_of_getElem? hrecord)] at hcompared
      cases hcompared
  refine ⟨?_, ?_, ?_⟩
  · intro v hv
    rw [hpolls, List.getElem?_append] at hv
    split at hv
    · exact h.comparing v hv
    · cases List.mem_singleton.mp (List.mem_of_getElem? hv)
  · intro record hrecord hcompared
    exact hreached (h.same record (hold record hrecord _ hcompared) hcompared)
  · intro record hrecord rebuild hcompared
    exact hcatches rebuild (h.awaits record (hold record hrecord _ hcompared) rebuild hcompared)

theorem Follows.step (h : svc.Follows polls version poll) (hforth : svc.Forthcoming)
    (htraced : Traced db deleted createdAt svc) (hversion : version ≤ db.areaVersion)
    {action : SnapshotAction} (hstep : svc.step db action = some t) :
    t.Follows (svc.recordPolls deleted polls action) version poll := by
  have hcases := step_cases hstep
  have hreached : svc.Reached version → t.Reached version := fun hr => hr.step hforth hcases
  have hcatches : ∀ rebuild, svc.Catches version rebuild → t.Catches version rebuild :=
    fun rebuild hc => hc.step hforth hversion hcases
  cases pollMove_of_step hstep with
  | tick hpolls => exact h.tick hreached hcatches hpolls
  | query i hpolls =>
    refine h.moved hreached hcatches fun v hv => ?_
    rw [hpolls] at hv
    rcases comparing_of_set hv with hold | heq
    · exact Or.inl hold
    · cases heq
      exact Or.inr hversion
  | compare i v hpoll heq =>
    rw [heq]
    exact h.compare htraced.serial hpoll db.areas.rows
  | fail i hpolls =>
    refine h.moved hreached hcatches fun v hv => ?_
    rw [hpolls] at hv
    rcases comparing_of_set hv with hold | heq
    · exact Or.inl hold
    · cases heq
  | none action hpolls hrecord =>
    rw [hrecord]
    refine h.moved hreached hcatches fun v hv => ?_
    rw [hpolls] at hv
    exact Or.inl hv

end Polls

end AreaSnapshotService

namespace AreaDeletions

/-- What every reachable state keeps. -/
structure Steady (st : AreaDeletions) : Prop where
  created : ∀ a ∈ st.db.areas.ids, st.createdAt a ≤ st.db.areaVersion
  traced : ∀ process, Traced st.db st.deleted st.createdAt (st.instances process)
  forthcoming : ∀ process, (st.instances process).Forthcoming
  length : ∀ process, (st.polls process).length = (st.instances process).polls.length

/-- The areas that were there when a poll began, under a version, are there as they were or have
been deleted, and the poll is on its way to them. -/
structure Catching (known : List AreaId) (version process poll : Nat) (st : AreaDeletions) :
    Prop where
  steady : st.Steady
  behind : version ≤ st.db.areaVersion
  known : ∀ a ∈ known, a ∈ st.deleted ∨ a ∈ st.db.areas.ids ∧ st.createdAt a ≤ version
  follows : (st.instances process).Follows (st.polls process) version poll

private theorem length_recordPolls {db : Database} {svc t : AreaSnapshotService}
    {action : SnapshotAction}
    {polls : List PollRecord} (h : polls.length = svc.polls.length) (deleted : List AreaId)
    (hstep : svc.step db action = some t) :
    (svc.recordPolls deleted polls action).length = t.polls.length := by
  cases pollMove_of_step hstep with
  | tick hpolls =>
    rw [hpolls, AreaSnapshotService.recordPolls, List.length_append, List.length_append, h]
    rfl
  | query i hpolls =>
    rw [hpolls, List.length_set]
    exact h
  | compare i v hpoll heq =>
    simp only [AreaSnapshotService.recordPolls, hpoll]
    rw [heq, (compare_frame ..).2.2, List.length_modify, List.length_set]
    exact h
  | fail i hpolls =>
    rw [hpolls, List.length_set]
    exact h
  | none action hpolls hrecord =>
    rw [hpolls, hrecord]
    exact h

variable {st t : AreaDeletions} {action : DeletionAction} {known : List AreaId}
  {version process poll : Nat}

private theorem steady_start (db : Database) : Steady (start db) where
  created := fun _ _ => Nat.zero_le _
  traced := fun _ => .initial ..
  forthcoming := fun _ => AreaSnapshotService.forthcoming_initial
  length := fun _ => rfl

theorem Steady.service (h : st.Steady) {process : Nat} {action : SnapshotAction}
    {svc : AreaSnapshotService} (hstep : (st.instances process).step st.db action = some svc) :
    Steady { st with
      instances := Function.update st.instances process svc
      polls := Function.update st.polls process
        ((st.instances process).recordPolls st.deleted (st.polls process) action) } := by
  have hcases := AreaSnapshotService.step_cases hstep
  refine ⟨h.created, fun other => ?_, fun other => ?_, fun other => ?_⟩
  · change Traced st.db st.deleted st.createdAt (Function.update st.instances process svc other)
    by_cases hother : other = process
    · rw [hother, Function.update_self]
      exact (h.traced process).step hcases
    · rw [Function.update_of_ne hother]
      exact h.traced other
  · change (Function.update st.instances process svc other).Forthcoming
    by_cases hother : other = process
    · rw [hother, Function.update_self]
      exact (h.forthcoming process).step (h.traced process) hcases
    · rw [Function.update_of_ne hother]
      exact h.forthcoming other
  · change (Function.update st.polls process _ other).length =
      (Function.update st.instances process svc other).polls.length
    by_cases hother : other = process
    · rw [hother, Function.update_self, Function.update_self]
      exact length_recordPolls (h.length process) st.deleted hstep
    · rw [Function.update_of_ne hother, Function.update_of_ne hother]
      exact h.length other

theorem Steady.create {db : Database} {row : AreaGeometryRow} (h : st.Steady)
    (hfresh : row.id ∉ st.deleted) (hcreate : st.db.createArea row = some db) :
    Steady { st with db, createdAt := Function.update st.createdAt row.id db.areaVersion } := by
  have hversion := (Database.createArea_eq_some hcreate).2.1
  refine ⟨?_, fun process => (h.traced process).create hfresh hcreate, h.forthcoming, h.length⟩
  intro a ha
  change Function.update st.createdAt row.id db.areaVersion a ≤ db.areaVersion
  by_cases hnew : a = row.id
  · rw [hnew, Function.update_self]
  · rw [Function.update_of_ne hnew]
    have hbefore := h.created a (((mem_ids_create hcreate a).mp ha).resolve_right hnew)
    omega

theorem Steady.delete {db : Database} {areaId : AreaId} (h : st.Steady)
    (hdelete : st.db.deleteArea areaId = some db) :
    Steady { st with db, deleted := st.deleted ++ [areaId] } := by
  refine ⟨?_, fun process => (h.traced process).delete hdelete, h.forthcoming, h.length⟩
  intro a ha
  change st.createdAt a ≤ db.areaVersion
  rw [areaVersion_delete hdelete]
  exact h.created a ((mem_ids_delete hdelete a).mp ha).1

theorem Steady.step (h : st.Steady) (hstep : st.step action = some t) : t.Steady := by
  cases action with
  | create row =>
    simp only [AreaDeletions.step] at hstep
    split at hstep
    · cases hstep
    · rename_i hfresh
      obtain ⟨db, hcreate, rfl⟩ := Option.map_eq_some_iff.mp hstep
      exact h.create hfresh hcreate
  | delete areaId =>
    obtain ⟨db, hdelete, rfl⟩ := Option.map_eq_some_iff.mp hstep
    exact h.delete hdelete
  | service process action =>
    obtain ⟨svc, hsvc, rfl⟩ := Option.map_eq_some_iff.mp hstep
    exact h.service hsvc

theorem Catching.step (h : st.Catching known version process poll)
    (hstep : st.step action = some t) : t.Catching known version process poll := by
  have hsteady := h.steady.step hstep
  cases action with
  | create row =>
    simp only [AreaDeletions.step] at hstep
    split at hstep
    · cases hstep
    · obtain ⟨db, hcreate, rfl⟩ := Option.map_eq_some_iff.mp hstep
      have hversion := (Database.createArea_eq_some hcreate).2.1
      have hle := h.behind
      refine ⟨hsteady, by change version ≤ db.areaVersion; omega, fun a ha => ?_, h.follows⟩
      rcases h.known a ha with hgone | ⟨hthere, hcreated⟩
      · exact Or.inl hgone
      · have hne : a ≠ row.id := fun heq => notMem_ids_of_create hcreate (heq ▸ hthere)
        refine Or.inr ⟨(mem_ids_create hcreate a).mpr (Or.inl hthere), ?_⟩
        change Function.update st.createdAt row.id db.areaVersion a ≤ version
        rw [Function.update_of_ne hne]
        exact hcreated
  | delete areaId =>
    obtain ⟨db, hdelete, rfl⟩ := Option.map_eq_some_iff.mp hstep
    refine ⟨hsteady, (areaVersion_delete hdelete).symm ▸ h.behind, fun a ha => ?_, h.follows⟩
    rcases h.known a ha with hgone | ⟨hthere, hcreated⟩
    · exact Or.inl (List.mem_append_left _ hgone)
    · by_cases heq : a = areaId
      · exact Or.inl (List.mem_append_right _ (List.mem_singleton.mpr heq))
      · exact Or.inr ⟨(mem_ids_delete hdelete a).mpr ⟨hthere, heq⟩, hcreated⟩
  | service other action =>
    obtain ⟨svc, hsvc, rfl⟩ := Option.map_eq_some_iff.mp hstep
    refine ⟨hsteady, h.behind, h.known, ?_⟩
    change (Function.update st.instances other svc process).Follows
      (Function.update st.polls other _ process) version poll
    by_cases hother : process = other
    · subst hother
      rw [Function.update_self, Function.update_self]
      exact h.follows.step (h.steady.forthcoming process) (h.steady.traced process) h.behind hsvc
    · rw [Function.update_of_ne hother, Function.update_of_ne hother]
      exact h.follows

theorem Steady.ticked (h : st.Steady)
    (hstep : st.step (.service process .pollTick) = some t) :
    t.Catching st.db.areas.ids st.db.areaVersion process (st.polls process).length := by
  have hsteady := h.step hstep
  obtain ⟨svc, hsvc, rfl⟩ := Option.map_eq_some_iff.mp hstep
  refine ⟨hsteady, Nat.le_refl _, fun a ha => Or.inr ⟨ha, h.created a ha⟩, ?_⟩
  change (Function.update st.instances process svc process).Follows
    (Function.update st.polls process _ process) st.db.areaVersion (st.polls process).length
  rw [Function.update_self, Function.update_self]
  have hrecord : ((st.polls process) ++ [⟨st.deleted, none⟩])[(st.polls process).length]? =
      some ⟨st.deleted, none⟩ := List.getElem?_concat_length ..
  cases pollMove_of_step hsvc with
  | tick hpolls =>
    refine ⟨?_, ?_, ?_⟩
    · intro v hv
      rw [hpolls, h.length process, List.getElem?_concat_length] at hv
      cases hv
    · intro record hmem hcompared
      cases hrecord.symm.trans hmem
      cases hcompared
    · intro record hmem rebuild hcompared
      cases hrecord.symm.trans hmem
      cases hcompared
  | none action hpolls hsame =>
    have habsurd := congrArg List.length (hsame st.deleted [])
    cases habsurd

private theorem steady_of_run {db : Database} {actions : List DeletionAction}
    (hrun : machine.run (start db) actions = some st) : st.Steady :=
  machine.run_invariant (fun _ _ _ hsteady hstep => hsteady.step hstep) (steady_start db) hrun

private theorem Catching.of_run {actions : List DeletionAction}
    (h : st.Catching known version process poll)
    (hrun : machine.run st actions = some t) : t.Catching known version process poll :=
  machine.run_invariant (fun _ _ _ hcatching hstep => hcatching.step hstep) h hrun

/-- The poll has completed: the label has reached the version it began under. -/
theorem Catching.reached (h : st.Catching known version process poll) {record : PollRecord}
    (hrecord : (st.polls process)[poll]? = some record)
    (hcompleted : record.Completed (st.instances process)) :
    (st.instances process).Reached version := by
  rcases hcompleted with hsame | ⟨rebuild, hawaits, hresolved⟩
  · exact h.follows.same record hrecord hsame
  · exact (h.follows.awaits record hrecord rebuild hawaits).resolved hresolved

/-- An instance whose label has reached the version has every area of then, and no area that was
never there. -/
theorem Catching.serves (h : st.Catching known version process poll)
    (hreached : (st.instances process).Reached version) :
    (∀ a ∈ known, a ∉ st.deleted → Serves (st.instances process).snapshot a) ∧
      ∀ a, Serves (st.instances process).snapshot a → a ∈ st.db.areas.ids ∨ a ∈ st.deleted := by
  obtain ⟨s, hs, hle⟩ := hreached
  have hlabel := (h.steady.traced process).label s hs
  constructor
  · intro a ha hstays
    obtain ⟨hthere, hcreated⟩ := (h.known a ha).resolve_left hstays
    refine ⟨s, hs, ?_⟩
    by_contra hmissing
    have hlater := hlabel.later a hthere hmissing
    omega
  · rintro a ⟨s', hs', ha⟩
    cases hs.symm.trans hs'
    exact hlabel.known a ha

/-- Once a poll has completed, its instance has every area that was committed when the poll began
and has not been deleted since, and only areas that were committed. -/
theorem polls_catch_up (db : Database) (before after : List DeletionAction) (process : Nat)
    (st t : AreaDeletions) (record : PollRecord)
    (hbefore : machine.run (start db) before = some st)
    (hafter : machine.run st (.service process .pollTick :: after) = some t)
    (hrecord : (t.polls process)[(st.polls process).length]? = some record)
    (hcompleted : record.Completed (t.instances process)) :
    (∀ a ∈ st.db.areas.ids, a ∉ t.deleted → Serves (t.instances process).snapshot a) ∧
      ∀ a, Serves (t.instances process).snapshot a → a ∈ t.db.areas.ids ∨ a ∈ t.deleted := by
  obtain ⟨u, htick, hrest⟩ := machine.run_cons_eq_some.mp hafter
  have hcatching := ((steady_of_run hbefore).ticked htick).of_run hrest
  exact hcatching.serves (hcatching.reached hrecord hcompleted)

private instance decidableResolved (stage : RebuildStage) : Decidable (stage = .resolved) :=
  match stage with
  | .resolved => isTrue rfl
  | .notStarted => isFalse RebuildStage.noConfusion
  | .readingVersion => isFalse RebuildStage.noConfusion
  | .readingRows _ => isFalse RebuildStage.noConfusion
  | .assigning _ _ => isFalse RebuildStage.noConfusion
  | .rejected => isFalse RebuildStage.noConfusion

/-- Another instance creates an area after the boot. -/
private def createdRun : List DeletionAction :=
  [.service 0 .onApplicationBootstrap, .service 0 (.start 0), .service 0 (.queryVersion 0),
    .service 0 (.queryRows 0), .service 0 (.assign 0), .service 0 (.finish 0),
    .service 0 (.settle 0), .service 0 .bootstrapped, .create ⟨"c", squareWithHole⟩]

/-- The poll's rebuild, with a deletion before it reads its rows. -/
private def rebuildRun : List DeletionAction :=
  [.service 0 (.pollQuery 0), .service 0 (.pollCompare 0), .service 0 (.start 1),
    .service 0 (.queryVersion 1), .delete "a", .service 0 (.queryRows 1), .service 0 (.assign 1)]

theorem polls_catch_up_created :
    ∃ st t, machine.run (start (.initial sampleAreas)) createdRun = some st ∧
      machine.run st (.service 0 .pollTick :: rebuildRun) = some t ∧ t.deleted = ["a"] ∧
      Serves (t.instances 0).snapshot "c" := by
  have hbefore : ((machine.run (start (.initial sampleAreas)) createdRun).any fun st =>
      decide (("c" ∈ st.db.areas.ids ∧ (st.polls 0).length = 0) ∧
        ((machine.run st (.service 0 .pollTick :: rebuildRun)).any fun t =>
          decide ((t.polls 0)[0]? = some ⟨[], some (some 1)⟩ ∧ t.deleted = ["a"] ∧
            (t.instances 0).rebuilds 1 = .resolved)) = true)) = true := by
    decide +kernel
  obtain ⟨st, hrun, ⟨hcreated, hlength⟩, hafter⟩ := Machine.exists_end _ hbefore
  obtain ⟨t, hrest, hrecord, hdeleted, hresolved⟩ := Machine.exists_end _ hafter
  have hcaught := polls_catch_up (.initial sampleAreas) createdRun rebuildRun 0 st t
    ⟨[], some (some 1)⟩ hrun hrest (hlength.symm ▸ hrecord) (Or.inr ⟨1, rfl, hresolved⟩)
  exact ⟨st, t, hrun, hrest, hdeleted, hcaught.1 "c" hcreated (by rw [hdeleted]; simp)⟩

end AreaDeletions

end Geofence
