import Geofence.Framework.Machine
import Geofence.Locations.Report
/-!
# Runs of the worker's report path

The worker calls `report` with its presence memory: one call after another, restarted or given
a new area snapshot between any two of them. The naive reading of the same events runs the
locked transaction for every one of them. The memory and the no-change fast path are
correct because the memory, where it has a value, is the committed presence.
-/

namespace Geofence

open Framework

/-- The worker's service state and, oldest first, the calls that resolved. -/
structure WorkerRun where
  service : ServiceState
  resolved : List ReportCall

inductive RunAction where
  | restart
  | swapSnapshot (snapshot : Snapshot)
  | report (event : LocationEventV1) (answers : Answers)

/-- A call that throws has its transaction rolled back. -/
def RunAction.rollsBack : RunAction → Prop
  | .report _ answers => ∀ e, answers.fate ≠ .commitLost e
  | _ => True

namespace WorkerRun

def start (db : Database) (snapshot : Snapshot) : WorkerRun :=
  ⟨{ db, snapshot := some snapshot, memory := some PresenceMemory.empty }, []⟩

def step (ext : Externals) (st : WorkerRun) : RunAction → WorkerRun
  | .restart =>
    { st with service := { st.service with memory := some PresenceMemory.empty } }
  | .swapSnapshot snapshot =>
    { st with service := { st.service with snapshot := some snapshot } }
  | .report event answers =>
    let outcome := Geofence.report ext st.service event.reportDto event.receivedAt answers
    ⟨outcome.state,
      match outcome.result with
      | .ok _ => st.resolved ++ (callOf ext st.service.snapshot event).toOption.toList
      | .error _ => st.resolved⟩

def machine (ext : Externals) : Machine WorkerRun RunAction :=
  ⟨fun st action => some (step ext st action)⟩

end WorkerRun

/-- The naive reading: every resolved event runs the locked transaction. -/
def naiveRun (pg : Postgres) : Database → List ReportCall → Except PgError Database
  | db, [] => .ok db
  | db, call :: calls => do
    let (db, _) ← transaction pg call db
    naiveRun pg db calls

/-- `C_last`: the covering set of the last call, or the presence at the start. -/
def lastCovering (start : List AreaId) (calls : List ReportCall) : List AreaId :=
  (calls.getLast?.map (·.currentAreaIds)).getD start

/-- One log row for every call and every area of its covering set that the one before lacked. -/
def entryLogs : List AreaId → List ReportCall → List LogRow
  | _, [] => []
  | previous, call :: calls =>
    (call.currentAreaIds.filter fun areaId => !previous.contains areaId).map call.logRow ++
      entryLogs call.currentAreaIds calls

/-- Where the memory has a value for a user, it is the user's committed presence. -/
def MemoryAgrees (memory : PresenceMemory) (presence : PresenceTable) : Prop :=
  ∀ userId areaIds, memory userId = some areaIds →
    areaIds.Nodup ∧ ∀ a, a ∈ areaIds ↔ a ∈ presence.areaIds userId

theorem memoryAgrees_empty (presence : PresenceTable) :
    MemoryAgrees PresenceMemory.empty presence := by
  intro userId areaIds h
  cases h

theorem MemoryAgrees.set {memory : PresenceMemory} {presence presence' : PresenceTable}
    {userId : UserId} {areaIds : List AreaId} (h : MemoryAgrees memory presence)
    (hother : ∀ other, other ≠ userId → presence'.areaIds other = presence.areaIds other)
    (hnodup : areaIds.Nodup) (hsame : ∀ a, a ∈ areaIds ↔ a ∈ presence'.areaIds userId) :
    MemoryAgrees (memory.set userId areaIds) presence' := by
  intro other ids hids
  by_cases hu : other = userId
  · subst hu
    rw [PresenceMemory.set, Function.update_self, Option.some.injEq] at hids
    exact hids ▸ ⟨hnodup, hsame⟩
  · rw [PresenceMemory.set, Function.update_of_ne hu] at hids
    rw [hother other hu]
    exact h other ids hids

theorem Hinted.agrees {memory memory' : PresenceMemory} {presence : PresenceTable}
    {userId : UserId} {hint : List AreaId} (h : Hinted memory presence userId memory' hint)
    (hagrees : MemoryAgrees memory presence) : MemoryAgrees memory' presence := by
  cases h with
  | warm _ => exact hagrees
  | cold _ =>
    exact hagrees.set (fun _ _ => rfl) (PresenceTable.areaIds_nodup _ _) (fun _ => Iff.rfl)

theorem afterCommit_memory (st : ServiceState) (call : ReportCall)
    (read : Option PresenceCacheRead) (answers : Answers) (result : TransactionResult) :
    (afterCommit st call read answers result).memory =
      if result.duplicate then st.memory
      else st.memory.map fun memory => memory.set call.dto.userId call.currentAreaIds := rfl

/-- A worker transaction carries no dedup identity, so it is always applied. -/
theorem transaction_applied {pg : Postgres} {call : ReportCall} {db db' : Database}
    {result : TransactionResult} (hdevice : call.dto.deviceId = none)
    (h : transaction pg call db = .ok (db', result)) : Applied call db db' result := by
  rcases transaction_ok h with ⟨hgate, -⟩ | happ
  · simp [dedupGate, hdevice] at hgate
  · exact happ

private theorem memoryAgrees_afterCommit {call : ReportCall} {st : ServiceState} {db : Database}
    {memory : PresenceMemory} {result : TransactionResult} {answers : Answers}
    (happ : Applied call st.db db result) (hnodup : call.currentAreaIds.Nodup)
    (hagrees : MemoryAgrees memory st.db.presence) :
    ∃ memory', (afterCommit { st with db, memory := some memory } call none answers
        result).memory = some memory' ∧ MemoryAgrees memory' db.presence := by
  refine ⟨memory.set call.dto.userId call.currentAreaIds, ?_, ?_⟩
  · simp [afterCommit_memory, happ.notDuplicate]
  · exact hagrees.set (fun other hne => happ.areaIds_of_ne hne) hnodup
      (fun a => (happ.mem_areaIds a).symm)

/-- One call of the worker: it throws and the tables stay, or it resolves and the tables are
those of the locked transaction. Either way the memory stays right. -/
theorem WorkerReport.refines {ext : Externals} {st : ServiceState} {memory : PresenceMemory}
    {event : LocationEventV1} {answers : Answers} {outcome : ReportOutcome}
    (h : WorkerReport ext st memory event answers outcome)
    (hmem : st.memory = some memory) (hagrees : MemoryAgrees memory st.db.presence)
    (hfate : ∀ e, answers.fate ≠ .commitLost e) :
    (∃ memory', outcome.state.memory = some memory' ∧
      MemoryAgrees memory' outcome.state.db.presence) ∧
    ((∃ e, outcome.result = .error e ∧ outcome.state.db = st.db) ∨
      ∃ response call result, outcome.result = .ok response ∧
        callOf ext st.snapshot event = .ok call ∧
        transaction ext.pg call st.db = .ok (outcome.state.db, result)) := by
  cases h with
  | threw e => exact ⟨⟨memory, hmem, hagrees⟩, Or.inl ⟨e, rfl, rfl⟩⟩
  | unchanged call memory' hint hcall hhint hsame =>
    refine ⟨⟨memory', rfl, hhint.agrees hagrees⟩, Or.inr ⟨_, call, ⟨[], false, false⟩, rfl, hcall, ?_⟩⟩
    obtain ⟨hdto, -, hnodup⟩ := callOf_ok hcall
    have hrows := (hhint.agrees hagrees _ _ hhint.self).2
    apply transaction_no_change
    · rw [hdto]
      rfl
    · intro a
      rw [hdto, differs_eq_false hnodup hsame a]
      exact hrows a
  | rolledBack call memory' hint e hcall hhint hdiff =>
    exact ⟨⟨memory', rfl, hhint.agrees hagrees⟩, Or.inl ⟨_, rfl, rfl⟩⟩
  | commitLost call memory' hint db result e hcall hhint hdiff hlost htx =>
    exact absurd hlost (hfate e)
  | committed call memory' hint db result hcall hhint hdiff hdone htx =>
    obtain ⟨hdto, -, hnodup⟩ := callOf_ok hcall
    have happ := transaction_applied (by rw [hdto]; rfl) htx
    exact ⟨memoryAgrees_afterCommit happ hnodup (hhint.agrees hagrees),
      Or.inr ⟨_, call, result, rfl, hcall, htx⟩⟩

/-- What a run keeps: the memory is right and the tables are the naive run's. -/
structure Refines (ext : Externals) (db₀ : Database) (st : WorkerRun) : Prop where
  memory : ∃ memory, st.service.memory = some memory ∧
    MemoryAgrees memory st.service.db.presence
  naive : naiveRun ext.pg db₀ st.resolved = .ok st.service.db
  calls : ∀ call ∈ st.resolved, call.dto.deviceId = none ∧ call.currentAreaIds.Nodup

private theorem naiveRun_append (pg : Postgres) (db : Database) (calls more : List ReportCall) :
    naiveRun pg db (calls ++ more) = (naiveRun pg db calls).bind fun db => naiveRun pg db more := by
  induction calls generalizing db with
  | nil => rfl
  | cons call calls ih =>
    simp only [List.cons_append, naiveRun, bind, Except.bind]
    cases transaction pg call db with
    | error e => rfl
    | ok r => exact ih r.1

theorem Refines.step {ext : Externals} {db₀ : Database} {st : WorkerRun} (h : Refines ext db₀ st)
    (action : RunAction) (hrolls : action.rollsBack) :
    Refines ext db₀ (WorkerRun.step ext st action) := by
  cases action with
  | restart => exact ⟨⟨_, rfl, memoryAgrees_empty _⟩, h.naive, h.calls⟩
  | swapSnapshot snapshot => exact ⟨h.memory, h.naive, h.calls⟩
  | report event answers =>
    obtain ⟨memory, hmem, hagrees⟩ := h.memory
    obtain ⟨hmemory, hcases⟩ := (report_cases ext hmem event answers).refines hmem hagrees hrolls
    rcases hcases with ⟨e, herr, hdb⟩ | ⟨response, call, result, hok, hcall, htx⟩
    · refine ⟨hmemory, ?_, ?_⟩
      · simpa only [WorkerRun.step, herr, hdb] using h.naive
      · simpa only [WorkerRun.step, herr] using h.calls
    · obtain ⟨hdto, -, hnodup⟩ := callOf_ok hcall
      refine ⟨hmemory, ?_, ?_⟩
      · simp only [WorkerRun.step, hok, hcall, Except.toOption, Option.toList_some, naiveRun_append,
          h.naive, Except.bind, naiveRun, htx, bind]
      · intro c hc
        simp only [WorkerRun.step, hok, hcall, Except.toOption, Option.toList_some,
          List.mem_append, List.mem_singleton] at hc
        rcases hc with hc | rfl
        · exact h.calls c hc
        · exact ⟨by rw [hdto]; rfl, hnodup⟩

/-- The naive run of a user's calls leaves the last covering set and one log row per entry. -/
theorem naiveRun_user {pg : Postgres} {db db' : Database} {calls : List ReportCall}
    (h : naiveRun pg db calls = .ok db')
    (hcalls : ∀ call ∈ calls, call.dto.deviceId = none ∧ call.currentAreaIds.Nodup)
    (userId : UserId) {previous : List AreaId}
    (hprev : ∀ a, a ∈ previous ↔ a ∈ db.presence.areaIds userId) :
    (∀ a, a ∈ db'.presence.areaIds userId ↔
        a ∈ lastCovering previous (calls.filter (·.dto.userId = userId))) ∧
      ∃ added, db'.logs.filter (·.userId = userId) =
          db.logs.filter (·.userId = userId) ++ added ∧
        added.Perm (entryLogs previous (calls.filter (·.dto.userId = userId))) := by
  induction calls generalizing db previous with
  | nil =>
    cases h
    exact ⟨fun a => (hprev a).symm, [], by simp, .nil⟩
  | cons call calls ih =>
    rw [naiveRun] at h
    cases htx : transaction pg call db with
    | error e => simp [htx, bind, Except.bind] at h
    | ok r =>
      obtain ⟨db₁, result⟩ := r
      simp only [htx, bind, Except.bind] at h
      obtain ⟨hdevice, hnodup⟩ := hcalls call (by simp)
      have happ := transaction_applied hdevice htx
      have hrest := fun c hc => hcalls c (List.mem_cons_of_mem _ hc)
      by_cases hu : call.dto.userId = userId
      · subst hu
        obtain ⟨hids, added, hlogs, hperm⟩ := ih h hrest
          (fun a => (happ.mem_areaIds a).symm)
        rw [List.filter_cons_of_pos (by simp)]
        refine ⟨?_, result.enteredAreaIds.map call.logRow ++ added, ?_, ?_⟩
        · intro a
          rw [hids a]
          cases hlast : (calls.filter (·.dto.userId = call.dto.userId)).getLast? with
          | none => simp [lastCovering, List.getLast?_cons, hlast]
          | some c => simp [lastCovering, List.getLast?_cons, hlast]
        · rw [hlogs, happ.logs, List.filter_append, List.append_assoc]
          congr 2
          apply List.filter_eq_self.mpr
          intro row hrow
          obtain ⟨a, -, rfl⟩ := List.mem_map.mp hrow
          simp [ReportCall.logRow]
        · refine List.Perm.append (List.Perm.map _ ?_) hperm
          refine (List.perm_ext_iff_of_nodup happ.nodup (hnodup.filter _)).mpr fun a => ?_
          rw [happ.mem_entered]
          simp [hprev]
      · have hne : userId ≠ call.dto.userId := fun heq => hu heq.symm
        have hsame : ∀ a, a ∈ previous ↔ a ∈ db₁.presence.areaIds userId := by
          intro a
          rw [happ.areaIds_of_ne hne, hprev a]
        obtain ⟨hids, added, hlogs, hperm⟩ := ih h hrest hsame
        rw [List.filter_cons_of_neg (by simpa using hu)]
        refine ⟨hids, added, ?_, hperm⟩
        rw [hlogs, happ.logs, List.filter_append]
        have hnone : (result.enteredAreaIds.map call.logRow).filter (·.userId = userId) = [] := by
          simp [List.filter_map, Function.comp_def, ReportCall.logRow, hu]
        rw [hnone, List.append_nil]

/-- The worker's memory and fast path refine the naive transition, over every run: the tables
are those of running the locked transaction for every resolved event, the user's presence is
the last covering set, and the log rows added for the user are one per entry. -/
theorem worker_refines_naiveRun (ext : Externals) (db₀ : Database) (snapshot : Snapshot)
    (actions : List RunAction) (hrolls : ∀ action ∈ actions, action.rollsBack)
    (st : WorkerRun)
    (hrun : (WorkerRun.machine ext).run (.start db₀ snapshot) actions = some st)
    (userId : UserId) :
    naiveRun ext.pg db₀ st.resolved = .ok st.service.db ∧
      (∀ a, a ∈ st.service.db.presence.areaIds userId ↔
        a ∈ lastCovering (db₀.presence.areaIds userId)
          (st.resolved.filter (·.dto.userId = userId))) ∧
      ∃ added, st.service.db.logs.filter (·.userId = userId) =
          db₀.logs.filter (·.userId = userId) ++ added ∧
        added.Perm (entryLogs (db₀.presence.areaIds userId)
          (st.resolved.filter (·.dto.userId = userId))) := by
  have hstart : Refines ext db₀ (.start db₀ snapshot) :=
    ⟨⟨_, rfl, memoryAgrees_empty _⟩, rfl, by simp [WorkerRun.start]⟩
  have hfinal : Refines ext db₀ st := by
    refine (WorkerRun.machine ext).run_invariant_of_meets (I := Refines ext db₀)
      (G := fun _ action => action.rollsBack) ?_ hstart
      ((WorkerRun.machine ext).meets_of_forall_mem _ hrolls) hrun
    intro s action t hs hguard hstep
    cases hstep
    exact hs.step action hguard
  exact ⟨hfinal.naive, naiveRun_user hfinal.naive hfinal.calls userId (fun _ => Iff.rfl)⟩

private def sampleEvent (eventId : Nat) (lng : ℚ) (receivedAt : Timestamp) : LocationEventV1 where
  eventId := eventId
  userId := "u"
  lat := 1
  lng := lng
  receivedAt := receivedAt

private def sampleRun : List RunAction :=
  [.report (sampleEvent 1 1 10) { fate := .rolledBack ⟨"57014", none⟩ },
    .report (sampleEvent 1 1 10) {}, .restart, .report (sampleEvent 2 2 20) {},
    .report (sampleEvent 3 50 30) { invalidated := false }, .report (sampleEvent 4 1 40) {}]

/-- A failed event and its retry, a restart, a fast-path event, an exit and a re-entry. -/
theorem worker_refines_naiveRun_sample :
    ∃ st, (WorkerRun.machine .reference).run (.start (.initial sampleAreas) ⟨1, sampleAreas⟩)
        sampleRun = some st ∧
      st.resolved.map (·.recordedAt) = [10, 20, 30, 40] ∧
      st.service.db.logs = [⟨"u", "a", 10, none⟩, ⟨"u", "a", 40, none⟩] ∧
      naiveRun Externals.reference.pg (.initial sampleAreas) st.resolved = .ok st.service.db ∧
      "a" ∈ st.service.db.presence.areaIds "u" := by
  have hrolls : ∀ action ∈ sampleRun, action.rollsBack := by
    simp [sampleRun, RunAction.rollsBack]
  refine ⟨_, rfl, by decide +kernel, by decide +kernel, ?_, ?_⟩
  · exact (worker_refines_naiveRun .reference _ _ sampleRun hrolls _ rfl "u").1
  · rw [(worker_refines_naiveRun .reference _ _ sampleRun hrolls _ rfl "u").2.1]
    decide +kernel

end Geofence
