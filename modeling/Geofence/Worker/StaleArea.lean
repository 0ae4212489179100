import Geofence.Areas.Deletion
import Geofence.Worker.Consumer
/-!
# Deleted areas and the stale-area branch

A worker whose snapshot still has a deleted area answers an event inside it by dropping the whole
event. The drops end for good with a poll that notices the deletion; the version counter does not
count deletions, so a poll can complete without noticing.
-/

namespace Geofence

open Framework

/-- The stale-area branch drops the event, and the first area it would enter that is not in the
table is the given one. -/
def DroppedFor (ext : Externals) (st : ConsumerState) (event : LocationEventV1)
    (readError : Option PgError) (answers : Answers) (areaId : AreaId) : Prop :=
  (∃ e, (st.processEvent ext event readError answers).2 = .failed e ∧
    isStaleAreaViolation e = true) ∧
  ∃ call, callOf ext st.service.snapshot event = .ok call ∧
    (call.entered (st.service.db.presence.areaIds event.userId)).find?
      (fun entered => !st.service.db.hasArea entered) = some areaId

namespace AreaDeletions

/-- Once a poll has completed without error, the instance's snapshot has no area that was deleted
before the poll began, and no worker with that snapshot drops an event because of one. -/
def DeletedUnserved (st : AreaDeletions) : Prop :=
  ∀ process record, record ∈ st.polls process → record.Completed (st.instances process) →
    ∀ areaId ∈ record.deletedBefore,
      ¬ Serves (st.instances process).snapshot areaId ∧
      ∀ (ext : Externals) (consumer : ConsumerState) (event : LocationEventV1)
        (readError : Option PgError) (answers : Answers),
        consumer.service.snapshot = (st.instances process).snapshot →
          ¬ DroppedFor ext consumer event readError answers areaId

end AreaDeletions

theorem Snapshot.mem_ids_of_covering {lib : SpatialLibrary} {snapshot : Snapshot} {lng lat : ℚ}
    {areaId : AreaId} (h : areaId ∈ snapshot.findCoveringAreaIds lib lng lat) :
    areaId ∈ snapshot.areas.ids := by
  have hperm := AreaSpatialIndex.findCoveringAreaIds_ofRows_perm lib snapshot.areas.rows lng lat
  exact (List.filter_sublist.map _).subset (hperm.mem_iff.mp h)

theorem serves_of_callOf {ext : Externals} {snapshot : Option Snapshot} {event : LocationEventV1}
    {call : ReportCall} (h : callOf ext snapshot event = .ok call) {areaId : AreaId}
    (hmem : areaId ∈ call.currentAreaIds) : Serves snapshot areaId := by
  obtain ⟨-, s, rfl, rfl⟩ := callOf_eq_ok.mp h
  exact ⟨s, rfl, Snapshot.mem_ids_of_covering hmem⟩

/-- An event is dropped only for an area of the snapshot. -/
theorem DroppedFor.serves {ext : Externals} {st : ConsumerState} {event : LocationEventV1}
    {readError : Option PgError} {answers : Answers} {areaId : AreaId}
    (h : DroppedFor ext st event readError answers areaId) :
    Serves st.service.snapshot areaId := by
  obtain ⟨-, call, hcall, hfind⟩ := h
  exact serves_of_callOf hcall (ReportCall.mem_entered.mp (List.mem_of_find?_eq_some hfind)).1

namespace AreaDeletions

private theorem Kept.deletedUnserved {st : AreaDeletions} (h : Kept st) : DeletedUnserved st := by
  intro process record hrecord hcompleted areaId hbefore
  have hnot := h.not_serves hrecord hcompleted hbefore
  refine ⟨hnot, ?_⟩
  intro ext consumer event readError answers hsnapshot hdropped
  exact hnot (hsnapshot ▸ hdropped.serves)

/-- Exactly when completed polls end the serving of deleted areas: every comparison of the run
either finds a version that is not its snapshot's label, or a snapshot without the areas deleted
before its poll. -/
theorem deleted_unserved_iff (db : Database) (actions : List DeletionAction) (st : AreaDeletions)
    (hrun : machine.run (start db) actions = some st) :
    machine.Always DeletedUnserved (start db) actions ↔
      machine.Meets Notices (start db) actions := by
  apply machine.always_iff_meets ?_ (fun _ h => h.deletedUnserved) ?_ (kept_start db) hrun
  · intro s action t h hnotices hstep
    exact h.step hnotices hstep
  · intro s action t h hnotices hstep hunserved
    obtain ⟨process, record, areaId, hrecord, hcompleted, hbefore, hserves⟩ :=
      served_of_not_notices hnotices hstep
    exact (hunserved process record hrecord hcompleted areaId hbefore).1 hserves

/-- Two areas of one shape. -/
def twinAreas : AreasTable := ⟨[⟨"a", squareWithHole⟩, ⟨"b", squareWithHole⟩], by decide⟩

private def bootRun : List DeletionAction :=
  [.service 0 .onApplicationBootstrap, .service 0 (.start 0), .service 0 (.queryVersion 0),
    .service 0 (.queryRows 0), .service 0 (.assign 0), .service 0 (.finish 0),
    .service 0 (.settle 0), .service 0 .bootstrapped]

private def pollRun : List DeletionAction :=
  [.service 0 .pollTick, .service 0 (.pollQuery 0), .service 0 (.pollCompare 0)]

/-- A deletion, a create that moves the version, and the poll that finds it. -/
private def noticedRun : List DeletionAction :=
  bootRun ++ [.delete "a", .create ⟨"c", squareWithHole⟩] ++ pollRun ++
    [.service 0 (.start 1), .service 0 (.queryVersion 1), .service 0 (.queryRows 1),
      .service 0 (.assign 1)]

theorem deleted_unserved_noticed :
    (machine.run (start (.initial twinAreas)) noticedRun).map (fun st => st.polls 0) =
        some [⟨["a"], some (some 1)⟩] ∧
      machine.Always DeletedUnserved (start (.initial twinAreas)) noticedRun := by
  have hpolls : (machine.run (start (.initial twinAreas)) noticedRun).map (fun st => st.polls 0) =
      some [⟨["a"], some (some 1)⟩] := by decide +kernel
  obtain ⟨st, hrun, -⟩ := Option.map_eq_some_iff.mp hpolls
  refine ⟨hpolls, (deleted_unserved_iff _ noticedRun st hrun).mpr ?_⟩
  decide +kernel

private def deletedRun : List DeletionAction := bootRun ++ [.delete "a"] ++ pollRun

private def insideEvent : LocationEventV1 where
  eventId := 1
  userId := "u"
  lat := 1
  lng := 1
  receivedAt := 10

private def workerAt (st : AreaDeletions) : ConsumerState where
  service := ⟨st.db, (st.instances 0).snapshot, some PresenceMemory.empty, {}⟩
  lastSeqByDevice _ := none

/-- A poll that began after the deletion has completed without error; the snapshot still has the
area, and an event that also enters the live area `b` is acked and dropped. -/
theorem deleted_area_still_served :
    ∃ st, machine.run (start (.initial twinAreas)) deletedRun = some st ∧ ¬ DeletedUnserved st ∧
      ((workerAt st).processEvent .reference insideEvent none {}).2.settlement = .ack ∧
      ((workerAt st).processEvent .reference insideEvent none {}).1.service.db.logs = [] := by
  have hany : (machine.run (start (.initial twinAreas)) deletedRun).any (fun st =>
      st.polls 0 == [⟨["a"], some none⟩] &&
      (st.instances 0).snapshot.map (fun s => s.areas.ids) == some ["a", "b"] &&
      decide (((workerAt st).processEvent .reference insideEvent none {}).2.settlement = .ack) &&
      ((workerAt st).processEvent .reference insideEvent none {}).1.service.db.logs == []) =
        true := by
    decide +kernel
  obtain ⟨st, hrun, hst⟩ := (Option.any_eq_true ..).mp hany
  simp only [Bool.and_eq_true, beq_iff_eq, decide_eq_true_eq] at hst
  obtain ⟨⟨⟨hpolls, hids⟩, hack⟩, hlogs⟩ := hst
  obtain ⟨s, hs, hareas⟩ := Option.map_eq_some_iff.mp hids
  refine ⟨st, hrun, ?_, hack, hlogs⟩
  intro hunserved
  have hrecord : (⟨["a"], some none⟩ : PollRecord) ∈ st.polls 0 := by
    rw [hpolls]
    exact List.mem_singleton_self _
  apply (hunserved 0 _ hrecord (Or.inl rfl) "a" (by simp)).1
  exact ⟨s, hs, by rw [hareas]; simp⟩

end AreaDeletions

end Geofence
