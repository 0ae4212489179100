import Geofence.Framework.Machine
import Geofence.Locations.WorkerRun
/-!
# The worker's presence memory across awaits

`report` in the worker, cut at its awaits, so that calls of different users and the answers of
the server interleave freely. A COMMIT has two sides: the server applies it, and the worker is
told. The memory follows what the worker is told.
-/

namespace Geofence

open Framework

/-- The await a call of `report` is suspended on. -/
inductive ReportPhase where
  | lookingUp (call : ReportCall)
  | seeding (call : ReportCall)
  | changing (call : ReportCall)
  | committing (call : ReportCall) (result : TransactionResult)
  | invalidating (call : ReportCall)

/-- The worker, with the call in progress for each user. The per-user chain starts a user's next
call only after the one before has settled. -/
structure PhasedWorker where
  db : Database
  snapshot : Option Snapshot
  memory : PresenceMemory
  inFlight : UserId → Option ReportPhase

/-- `rollBack` is any error of the transaction before the server applied it; `answer` is what
the worker hears about a COMMIT the server applied. -/
inductive PhaseAction where
  | restart
  | swapSnapshot (snapshot : Snapshot)
  | createArea (row : AreaGeometryRow)
  | call (event : LocationEventV1)
  | lookUp (userId : UserId)
  | seed (userId : UserId) (error : Option PgError)
  | rollBack (userId : UserId) (error : PgError)
  | commit (userId : UserId)
  | answer (userId : UserId) (error : Option PgError)
  | invalidated (userId : UserId)

namespace PhasedWorker

def start (db : Database) (snapshot : Snapshot) : PhasedWorker :=
  ⟨db, some snapshot, .empty, fun _ => none⟩

def setPhase (st : PhasedWorker) (userId : UserId) (phase : Option ReportPhase) : PhasedWorker :=
  { st with inFlight := Function.update st.inFlight userId phase }

/-- The fork on the hint: the no-change path resolves, the change path opens a transaction. -/
def fork (st : PhasedWorker) (call : ReportCall) (hint : List AreaId) : PhasedWorker :=
  st.setPhase call.dto.userId
    (if differs call.currentAreaIds hint then some (.changing call) else none)

def step (ext : Externals) (st : PhasedWorker) : PhaseAction → Option PhasedWorker
  | .restart => some { st with memory := .empty, inFlight := fun _ => none }
  | .swapSnapshot snapshot => some { st with snapshot := some snapshot }
  | .createArea row => (st.db.createArea row).map fun db => { st with db }
  | .call event =>
    match st.inFlight event.userId, callOf ext st.snapshot event with
    | some _, _ => none
    | none, .error _ => some st
    | none, .ok call => some (st.setPhase event.userId (some (.lookingUp call)))
  | .lookUp userId =>
    match st.inFlight userId with
    | some (.lookingUp call) =>
      match st.memory userId with
      | some remembered => some (st.fork call remembered)
      | none => some (st.setPhase userId (some (.seeding call)))
    | _ => none
  | .seed userId error =>
    match st.inFlight userId, error with
    | some (.seeding _), some _ => some (st.setPhase userId none)
    | some (.seeding call), none =>
      let hint := st.db.presence.areaIds userId
      some ({ st with memory := st.memory.set userId hint }.fork call hint)
    | _, _ => none
  | .rollBack userId _ =>
    match st.inFlight userId with
    | some (.changing _) => some (st.setPhase userId none)
    | _ => none
  | .commit userId =>
    match st.inFlight userId with
    | some (.changing call) =>
      match transaction ext.pg call st.db with
      | .error _ => some (st.setPhase userId none)
      | .ok (db, result) =>
        some ({ st with db }.setPhase userId (some (.committing call result)))
    | _ => none
  | .answer userId error =>
    match st.inFlight userId, error with
    | some (.committing _ _), some _ => some (st.setPhase userId none)
    | some (.committing call result), none =>
      let memory :=
        if result.duplicate then st.memory else st.memory.set userId call.currentAreaIds
      some ({ st with memory }.setPhase userId (some (.invalidating call)))
    | _, _ => none
  | .invalidated userId =>
    match st.inFlight userId with
    | some (.invalidating _) => some (st.setPhase userId none)
    | _ => none

def machine (ext : Externals) : Machine PhasedWorker PhaseAction := ⟨step ext⟩

/-- With no call of the user in progress, the memory has no value for the user, or the user's
committed presence as a set. -/
def Agrees (userId : UserId) (st : PhasedWorker) : Prop :=
  st.inFlight userId = none → ∀ areaIds, st.memory userId = some areaIds →
    ∀ a, a ∈ areaIds ↔ a ∈ st.db.presence.areaIds userId

/-- Everything a step can do. -/
inductive PhaseStep (ext : Externals) (st : PhasedWorker) : PhaseAction → PhasedWorker → Prop where
  | restart : PhaseStep ext st .restart { st with memory := .empty, inFlight := fun _ => none }
  | swapSnapshot (snapshot : Snapshot) :
    PhaseStep ext st (.swapSnapshot snapshot) { st with snapshot := some snapshot }
  | createArea (row : AreaGeometryRow) (db : Database) (h : st.db.createArea row = some db) :
    PhaseStep ext st (.createArea row) { st with db }
  | refused (event : LocationEventV1) : PhaseStep ext st (.call event) st
  | called (event : LocationEventV1) (call : ReportCall) (h : st.inFlight event.userId = none)
      (hcall : callOf ext st.snapshot event = .ok call) :
    PhaseStep ext st (.call event) (st.setPhase event.userId (some (.lookingUp call)))
  | warm (userId : UserId) (call : ReportCall) (hint : List AreaId)
      (h : st.inFlight userId = some (.lookingUp call)) (hmem : st.memory userId = some hint) :
    PhaseStep ext st (.lookUp userId) (st.fork call hint)
  | cold (userId : UserId) (call : ReportCall)
      (h : st.inFlight userId = some (.lookingUp call)) (hmem : st.memory userId = none) :
    PhaseStep ext st (.lookUp userId) (st.setPhase userId (some (.seeding call)))
  | seedFailed (userId : UserId) (call : ReportCall) (e : PgError)
      (h : st.inFlight userId = some (.seeding call)) :
    PhaseStep ext st (.seed userId (some e)) (st.setPhase userId none)
  | seeded (userId : UserId) (call : ReportCall) (h : st.inFlight userId = some (.seeding call)) :
    PhaseStep ext st (.seed userId none)
      ({ st with memory := st.memory.set userId (st.db.presence.areaIds userId) }.fork call
        (st.db.presence.areaIds userId))
  | rolledBack (userId : UserId) (call : ReportCall) (e : PgError)
      (h : st.inFlight userId = some (.changing call)) :
    PhaseStep ext st (.rollBack userId e) (st.setPhase userId none)
  | refusedByServer (userId : UserId) (call : ReportCall)
      (h : st.inFlight userId = some (.changing call)) :
    PhaseStep ext st (.commit userId) (st.setPhase userId none)
  | committed (userId : UserId) (call : ReportCall) (db : Database) (result : TransactionResult)
      (h : st.inFlight userId = some (.changing call))
      (htx : transaction ext.pg call st.db = .ok (db, result)) :
    PhaseStep ext st (.commit userId)
      ({ st with db }.setPhase userId (some (.committing call result)))
  | lost (userId : UserId) (call : ReportCall) (result : TransactionResult) (e : PgError)
      (h : st.inFlight userId = some (.committing call result)) :
    PhaseStep ext st (.answer userId (some e)) (st.setPhase userId none)
  | answered (userId : UserId) (call : ReportCall) (result : TransactionResult)
      (h : st.inFlight userId = some (.committing call result)) :
    PhaseStep ext st (.answer userId none)
      ({ st with memory :=
          if result.duplicate then st.memory
          else st.memory.set userId call.currentAreaIds }.setPhase userId
        (some (.invalidating call)))
  | invalidated (userId : UserId) (call : ReportCall)
      (h : st.inFlight userId = some (.invalidating call)) :
    PhaseStep ext st (.invalidated userId) (st.setPhase userId none)

theorem step_cases {ext : Externals} {st t : PhasedWorker} {action : PhaseAction}
    (h : step ext st action = some t) : PhaseStep ext st action t := by
  cases action with
  | restart =>
    cases h
    exact .restart
  | swapSnapshot snapshot =>
    cases h
    exact .swapSnapshot snapshot
  | createArea row =>
    obtain ⟨db, hdb, rfl⟩ := Option.map_eq_some_iff.mp h
    exact .createArea row db hdb
  | call event =>
    simp only [step] at h
    split at h
    · cases h
    · cases h
      exact .refused event
    · rename_i call hnone hcall
      cases h
      exact .called event call hnone hcall
  | lookUp userId =>
    simp only [step] at h
    split at h
    · rename_i call hphase
      split at h
      · rename_i hint hmem
        cases h
        exact .warm userId call hint hphase hmem
      · rename_i hmem
        cases h
        exact .cold userId call hphase hmem
    · cases h
  | seed userId error =>
    simp only [step] at h
    split at h
    · rename_i call e hphase
      cases h
      exact .seedFailed userId call e hphase
    · rename_i call hphase
      cases h
      exact .seeded userId call hphase
    · cases h
  | rollBack userId e =>
    simp only [step] at h
    split at h
    · rename_i call hphase
      cases h
      exact .rolledBack userId call e hphase
    · cases h
  | commit userId =>
    simp only [step] at h
    split at h
    · rename_i call hphase
      split at h
      · cases h
        exact .refusedByServer userId call hphase
      · rename_i db result htx
        cases h
        exact .committed userId call db result hphase htx
    · cases h
  | answer userId error =>
    simp only [step] at h
    split at h
    · rename_i call result e hphase
      cases h
      exact .lost userId call result e hphase
    · rename_i call result hphase
      cases h
      exact .answered userId call result hphase
    · cases h
  | invalidated userId =>
    simp only [step] at h
    split at h
    · rename_i call hphase
      cases h
      exact .invalidated userId call hphase
    · cases h

end PhasedWorker

def ReportPhase.reportCall : ReportPhase → ReportCall
  | .lookingUp call | .seeding call | .changing call | .committing call _ | .invalidating call =>
    call

/-- What the worker passes for an event: its user, no dedup identity, a repeat-free covering set. -/
structure IsWorkerCall (userId : UserId) (call : ReportCall) : Prop where
  userId : call.dto.userId = userId
  deviceId : call.dto.deviceId = none
  nodup : call.currentAreaIds.Nodup

theorem isWorkerCall_of_callOf {ext : Externals} {snapshot : Option Snapshot}
    {event : LocationEventV1} {call : ReportCall} (h : callOf ext snapshot event = .ok call) :
    IsWorkerCall event.userId call := by
  obtain ⟨hdto, -, hnodup⟩ := callOf_ok h
  exact ⟨by rw [hdto]; rfl, by rw [hdto]; rfl, hnodup⟩

/-- Every call in progress is a worker call of the user it runs for. -/
def Keyed (inFlight : UserId → Option ReportPhase) : Prop :=
  ∀ userId phase, inFlight userId = some phase → IsWorkerCall userId phase.reportCall

namespace Keyed

variable {inFlight : UserId → Option ReportPhase} {userId : UserId} {call : ReportCall}

theorem update {phase : Option ReportPhase} (hkeyed : Keyed inFlight)
    (hphase : ∀ p, phase = some p → IsWorkerCall userId p.reportCall) :
    Keyed (Function.update inFlight userId phase) := by
  intro other p hp
  by_cases hu : other = userId
  · subst hu
    rw [Function.update_self] at hp
    exact hphase p hp
  · rw [Function.update_of_ne hu] at hp
    exact hkeyed other p hp

theorem idle (hkeyed : Keyed inFlight) : Keyed (Function.update inFlight userId none) :=
  hkeyed.update fun _ hp => nomatch hp

theorem moved {before after : ReportPhase} (hkeyed : Keyed inFlight)
    (hphase : inFlight userId = some before) (hcall : after.reportCall = before.reportCall) :
    Keyed (Function.update inFlight userId (some after)) := by
  refine hkeyed.update fun p hp => ?_
  cases hp
  rw [hcall]
  exact hkeyed userId before hphase

theorem forked (hkeyed : Keyed inFlight) (hcall : IsWorkerCall userId call)
    (hint : List AreaId) : Keyed (Function.update inFlight call.dto.userId
      (if differs call.currentAreaIds hint then some (.changing call) else none)) := by
  refine hkeyed.update fun p hp => ?_
  split at hp
  · cases hp
    exact hcall.userId ▸ hcall
  · cases hp

theorem step {ext : Externals} {st t : PhasedWorker} {action : PhaseAction}
    (hkeyed : Keyed st.inFlight) (h : PhasedWorker.PhaseStep ext st action t) :
    Keyed t.inFlight := by
  cases h with
  | restart =>
    intro userId phase hphase
    cases hphase
  | swapSnapshot snapshot => exact hkeyed
  | createArea row db hdb => exact hkeyed
  | refused event => exact hkeyed
  | called event call hidle hcall =>
    refine hkeyed.update fun p hp => ?_
    cases hp
    exact isWorkerCall_of_callOf hcall
  | warm userId call hint hphase hmem => exact hkeyed.forked (hkeyed _ _ hphase) hint
  | cold userId call hphase hmem => exact hkeyed.moved hphase rfl
  | seedFailed userId call e hphase => exact hkeyed.idle
  | seeded userId call hphase => exact hkeyed.forked (hkeyed _ _ hphase) _
  | rolledBack userId call e hphase => exact hkeyed.idle
  | refusedByServer userId call hphase => exact hkeyed.idle
  | committed userId call db result hphase htx => exact hkeyed.moved hphase rfl
  | lost userId call result e hphase => exact hkeyed.idle
  | answered userId call result hphase => exact hkeyed.moved hphase rfl
  | invalidated userId call hphase => exact hkeyed.idle

end Keyed

/-- A remembered value is the user's rows. -/
def Remembers (rows : List AreaId) (remembered : Option (List AreaId)) : Prop :=
  ∀ areaIds, remembered = some areaIds → areaIds.Nodup ∧ ∀ a, a ∈ areaIds ↔ a ∈ rows

/-- What holds of a user's rows and memory in each phase. Only between the server's COMMIT and
its answer do they differ, and there they do differ. -/
inductive Consistent (rows : List AreaId) (remembered : Option (List AreaId)) :
    Option ReportPhase → Prop where
  | idle (h : Remembers rows remembered) : Consistent rows remembered none
  | lookingUp (call : ReportCall) (h : Remembers rows remembered) :
    Consistent rows remembered (some (.lookingUp call))
  | seeding (call : ReportCall) (h : Remembers rows remembered) :
    Consistent rows remembered (some (.seeding call))
  | changing (call : ReportCall) (hint : List AreaId) (hhint : remembered = some hint)
      (h : Remembers rows remembered) (hdiff : differs call.currentAreaIds hint = true) :
    Consistent rows remembered (some (.changing call))
  | committing (call : ReportCall) (result : TransactionResult) (hint : List AreaId)
      (hhint : remembered = some hint) (hdup : result.duplicate = false)
      (hrows : ∀ a, a ∈ call.currentAreaIds ↔ a ∈ rows) (hstale : ¬ ∀ a, a ∈ hint ↔ a ∈ rows) :
    Consistent rows remembered (some (.committing call result))
  | invalidating (call : ReportCall) (h : Remembers rows remembered) :
    Consistent rows remembered (some (.invalidating call))

/-- The user's rows, memory and phase agree with each other. -/
def PhasedWorker.ConsistentFor (userId : UserId) (st : PhasedWorker) : Prop :=
  Consistent (st.db.presence.areaIds userId) (st.memory userId) (st.inFlight userId)

/-- An error raised to the worker by a COMMIT of the user that the server applied. -/
def PhaseAction.losesCommit (userId : UserId) : PhaseAction → Bool
  | .answer user (some _) => user = userId
  | _ => false

private theorem PhaseAction.losesCommit_eq_true {userId : UserId} {action : PhaseAction}
    (h : action.losesCommit userId = true) : ∃ e, action = .answer userId (some e) := by
  unfold losesCommit at h
  split at h
  · rename_i user e
    exact ⟨e, by rw [of_decide_eq_true h]⟩
  · cases h

/-- The user whose call an action moves. -/
def PhaseAction.user? : PhaseAction → Option UserId
  | .restart | .swapSnapshot _ | .createArea _ => none
  | .call event => some event.userId
  | .lookUp userId | .seed userId _ | .rollBack userId _ | .commit userId | .answer userId _
  | .invalidated userId => some userId

namespace PhasedWorker

theorem setPhase_inFlight_self (st : PhasedWorker) (userId : UserId) (phase : Option ReportPhase) :
    (st.setPhase userId phase).inFlight userId = phase :=
  Function.update_self ..

theorem setPhase_inFlight_of_ne (st : PhasedWorker) {userId other : UserId} (hne : other ≠ userId)
    (phase : Option ReportPhase) :
    (st.setPhase userId phase).inFlight other = st.inFlight other :=
  Function.update_of_ne hne ..

theorem memory_set_of_ne (memory : PresenceMemory) {userId other : UserId} (hne : other ≠ userId)
    (areaIds : List AreaId) : memory.set userId areaIds other = memory other :=
  Function.update_of_ne hne ..

/-- A step of another user's call leaves this user's rows, memory and phase alone. -/
theorem PhaseStep.of_ne {ext : Externals} {st t : PhasedWorker} {action : PhaseAction}
    (h : PhaseStep ext st action t) (hkeyed : Keyed st.inFlight) {userId other : UserId}
    (huser : action.user? = some userId) (hne : other ≠ userId) :
    t.inFlight other = st.inFlight other ∧ t.memory other = st.memory other ∧
      t.db.presence.areaIds other = st.db.presence.areaIds other := by
  cases h with
  | restart => cases huser
  | swapSnapshot snapshot => cases huser
  | createArea row db hdb => cases huser
  | refused event => exact ⟨rfl, rfl, rfl⟩
  | called event call hidle hcall =>
    cases huser
    exact ⟨st.setPhase_inFlight_of_ne hne _, rfl, rfl⟩
  | warm user call hint hphase hmem =>
    cases huser
    have huser := (hkeyed _ _ hphase).userId
    exact ⟨st.setPhase_inFlight_of_ne (huser ▸ hne) _, rfl, rfl⟩
  | cold user call hphase hmem =>
    cases huser
    exact ⟨st.setPhase_inFlight_of_ne hne _, rfl, rfl⟩
  | seedFailed user call e hphase =>
    cases huser
    exact ⟨st.setPhase_inFlight_of_ne hne _, rfl, rfl⟩
  | seeded user call hphase =>
    cases huser
    have huser := (hkeyed _ _ hphase).userId
    exact ⟨setPhase_inFlight_of_ne _ (huser ▸ hne) _, memory_set_of_ne _ hne _, rfl⟩
  | rolledBack user call e hphase =>
    cases huser
    exact ⟨st.setPhase_inFlight_of_ne hne _, rfl, rfl⟩
  | refusedByServer user call hphase =>
    cases huser
    exact ⟨st.setPhase_inFlight_of_ne hne _, rfl, rfl⟩
  | committed user call db result hphase htx =>
    cases huser
    have hcall : IsWorkerCall userId call := hkeyed _ _ hphase
    have happ := transaction_applied hcall.deviceId htx
    exact ⟨setPhase_inFlight_of_ne _ hne _, rfl, happ.areaIds_of_ne (hcall.userId ▸ hne)⟩
  | lost user call result e hphase =>
    cases huser
    exact ⟨st.setPhase_inFlight_of_ne hne _, rfl, rfl⟩
  | answered user call result hphase =>
    cases huser
    refine ⟨setPhase_inFlight_of_ne _ hne _, ?_, rfl⟩
    change (if result.duplicate then st.memory else st.memory.set userId call.currentAreaIds) other =
      st.memory other
    split
    · rfl
    · exact memory_set_of_ne _ hne _
  | invalidated user call hphase =>
    cases huser
    exact ⟨st.setPhase_inFlight_of_ne hne _, rfl, rfl⟩

theorem ConsistentFor.fork {st : PhasedWorker} {userId : UserId} {call : ReportCall}
    {hint : List AreaId} (hcall : IsWorkerCall userId call) (hmem : st.memory userId = some hint)
    (h : Remembers (st.db.presence.areaIds userId) (st.memory userId)) :
    (st.fork call hint).ConsistentFor userId := by
  have hphase : (st.fork call hint).inFlight userId =
      if differs call.currentAreaIds hint then some (.changing call) else none := by
    rw [PhasedWorker.fork, hcall.userId, setPhase_inFlight_self]
  rw [ConsistentFor, hphase]
  by_cases hdiff : differs call.currentAreaIds hint = true
  · rw [if_pos hdiff]
    exact .changing call hint hmem h hdiff
  · rw [if_neg hdiff]
    exact .idle h

private theorem consistent_committing {ext : Externals} {st : PhasedWorker} {userId : UserId}
    {call : ReportCall} {db : Database} {result : TransactionResult} {hint : List AreaId}
    (hcall : IsWorkerCall userId call) (hhint : st.memory userId = some hint)
    (hrem : Remembers (st.db.presence.areaIds userId) (st.memory userId))
    (hdiff : differs call.currentAreaIds hint = true)
    (htx : transaction ext.pg call st.db = .ok (db, result)) :
    Consistent (db.presence.areaIds userId) (st.memory userId)
      (some (.committing call result)) := by
  have happ := transaction_applied hcall.deviceId htx
  have hrows : ∀ a, a ∈ call.currentAreaIds ↔ a ∈ db.presence.areaIds userId := by
    intro a
    rw [← hcall.userId, happ.mem_areaIds a]
  refine .committing call result hint hhint happ.notDuplicate hrows fun hsame => ?_
  have hequal : differs call.currentAreaIds hint = false :=
    differs_of_same hcall.nodup (hrem hint hhint).1 fun a => (hrows a).trans (hsame a).symm
  rw [hequal] at hdiff
  cases hdiff

theorem ConsistentFor.step_own {ext : Externals} {st t : PhasedWorker} {action : PhaseAction}
    {userId : UserId} (h : st.ConsistentFor userId) (hstep : PhaseStep ext st action t)
    (hkeyed : Keyed st.inFlight) (huser : action.user? = some userId)
    (hheard : ∀ e, action ≠ .answer userId (some e)) : t.ConsistentFor userId := by
  unfold ConsistentFor at h
  cases hstep with
  | restart => cases huser
  | swapSnapshot snapshot => cases huser
  | createArea row db hdb => cases huser
  | refused event => exact h
  | called event call hidle hcall =>
    cases huser
    rw [hidle] at h
    cases h with
    | idle hrem =>
      rw [ConsistentFor, setPhase_inFlight_self]
      exact .lookingUp call hrem
  | warm user call hint hphase hmem =>
    cases huser
    rw [hphase] at h
    cases h with
    | lookingUp _ hrem => exact .fork (hkeyed _ _ hphase) hmem hrem
  | cold user call hphase hmem =>
    cases huser
    rw [hphase] at h
    cases h with
    | lookingUp _ hrem =>
      rw [ConsistentFor, setPhase_inFlight_self]
      exact .seeding call hrem
  | seedFailed user call e hphase =>
    cases huser
    rw [hphase] at h
    cases h with
    | seeding _ hrem =>
      rw [ConsistentFor, setPhase_inFlight_self]
      exact .idle hrem
  | seeded user call hphase =>
    cases huser
    have hset : st.memory.set userId (st.db.presence.areaIds userId) userId =
        some (st.db.presence.areaIds userId) := Function.update_self ..
    refine .fork (hkeyed _ _ hphase) hset ?_
    intro areaIds hids
    have hrows : st.db.presence.areaIds userId = areaIds := Option.some.inj (hset.symm.trans hids)
    rw [← hrows]
    exact ⟨PresenceTable.areaIds_nodup _ _, fun _ => Iff.rfl⟩
  | rolledBack user call e hphase =>
    cases huser
    rw [hphase] at h
    cases h with
    | changing _ hint hhint hrem hdiff =>
      rw [ConsistentFor, setPhase_inFlight_self]
      exact .idle hrem
  | refusedByServer user call hphase =>
    cases huser
    rw [hphase] at h
    cases h with
    | changing _ hint hhint hrem hdiff =>
      rw [ConsistentFor, setPhase_inFlight_self]
      exact .idle hrem
  | committed user call db result hphase htx =>
    cases huser
    rw [hphase] at h
    cases h with
    | changing _ hint hhint hrem hdiff =>
      rw [ConsistentFor, setPhase_inFlight_self]
      change Consistent (db.presence.areaIds userId) (st.memory userId) _
      exact consistent_committing (hkeyed _ _ hphase) hhint hrem hdiff htx
  | lost user call result e hphase =>
    cases huser
    exact absurd rfl (hheard e)
  | answered user call result hphase =>
    cases huser
    rw [hphase] at h
    cases h with
    | committing _ _ hint hhint hdup hrows hstale =>
      rw [ConsistentFor, setPhase_inFlight_self]
      refine .invalidating call fun areaIds hids => ?_
      have hcall : IsWorkerCall userId call := hkeyed _ _ hphase
      change (if result.duplicate then st.memory else st.memory.set userId call.currentAreaIds)
        userId = some areaIds at hids
      rw [hdup, if_neg Bool.false_ne_true, PresenceMemory.set, Function.update_self,
        Option.some.injEq] at hids
      rw [← hids]
      exact ⟨hcall.nodup, hrows⟩
  | invalidated user call hphase =>
    cases huser
    rw [hphase] at h
    cases h with
    | invalidating _ hrem =>
      rw [ConsistentFor, setPhase_inFlight_self]
      exact .idle hrem

/-- Every step but an error for an applied COMMIT keeps the user's state consistent. -/
theorem ConsistentFor.step {ext : Externals} {st t : PhasedWorker} {action : PhaseAction}
    {userId : UserId} (h : st.ConsistentFor userId) (hstep : PhaseStep ext st action t)
    (hkeyed : Keyed st.inFlight) (hheard : ∀ e, action ≠ .answer userId (some e)) :
    t.ConsistentFor userId := by
  cases huser : action.user? with
  | none =>
    cases hstep with
    | restart => exact .idle fun _ hids => nomatch hids
    | swapSnapshot snapshot => exact h
    | createArea row db hdb =>
      rw [ConsistentFor, (Database.createArea_eq_some hdb).2.2.1]
      exact h
    | _ => cases huser
  | some user =>
    by_cases hu : userId = user
    · subst hu
      exact h.step_own hstep hkeyed huser hheard
    · obtain ⟨hphase, hmem, hrows⟩ := hstep.of_ne hkeyed huser hu
      rw [ConsistentFor, hphase, hmem, hrows]
      exact h

theorem ConsistentFor.agrees {st : PhasedWorker} {userId : UserId} (h : st.ConsistentFor userId) :
    st.Agrees userId := by
  intro hidle areaIds hids
  unfold ConsistentFor at h
  rw [hidle] at h
  cases h with
  | idle hrem => exact (hrem areaIds hids).2

/-- Right after an applied COMMIT is reported as failed, the memory is stale. -/
private theorem PhaseStep.lost_stale {ext : Externals} {st t : PhasedWorker} {userId : UserId}
    {e : PgError}
    (hstep : PhaseStep ext st (.answer userId (some e)) t) (h : st.ConsistentFor userId) :
    ¬ t.Agrees userId := by
  unfold ConsistentFor at h
  cases hstep with
  | lost _ call result _ hphase =>
    rw [hphase] at h
    cases h with
    | committing _ _ hint hhint hdup hrows hstale =>
      exact fun hagrees => hstale (hagrees (st.setPhase_inFlight_self userId none) hint hhint)

theorem consistent_start (db : Database) (snapshot : Snapshot) (userId : UserId) :
    Keyed (start db snapshot).inFlight ∧ (start db snapshot).ConsistentFor userId := by
  constructor
  · intro user phase hphase
    cases hphase
  · apply Consistent.idle
    intro areaIds hids
    cases hids

/-- The state `report` runs in, as one call. -/
def service (st : PhasedWorker) : ServiceState := ⟨st.db, st.snapshot, some st.memory, {}⟩

theorem run_to_fork (ext : Externals) {st : PhasedWorker} {event : LocationEventV1}
    {call : ReportCall} {memory : PresenceMemory} {hint : List AreaId}
    (hidle : st.inFlight event.userId = none) (hcall : callOf ext st.snapshot event = .ok call)
    (hhint : Hinted st.memory st.db.presence event.userId memory hint) :
    ∃ actions, (∀ action ∈ actions, action.user? = some event.userId) ∧
      (machine ext).run st actions = some ({ st with memory }.fork call hint) := by
  have huser : call.dto.userId = event.userId := (isWorkerCall_of_callOf hcall).userId
  have hstep : step ext st (.call event) =
      some (st.setPhase event.userId (some (.lookingUp call))) := by
    simp only [step, hidle, hcall]
  have hphase : ∀ phase, (st.setPhase event.userId phase).inFlight event.userId = phase :=
    fun phase => st.setPhase_inFlight_self event.userId phase
  cases hhint with
  | warm hmem =>
    refine ⟨[.call event, .lookUp event.userId], by simp [PhaseAction.user?], ?_⟩
    have hmem' : (st.setPhase event.userId (some (.lookingUp call))).memory event.userId =
        some hint := hmem
    rw [Machine.run_cons_eq_some]
    refine ⟨_, hstep, ?_⟩
    simp only [Machine.run_cons, machine, step, hphase, hmem', Option.bind_some, Machine.run_nil]
    simp only [fork, setPhase, huser, Function.update_idem]
  | cold hmem =>
    refine ⟨[.call event, .lookUp event.userId, .seed event.userId none],
      by simp [PhaseAction.user?], ?_⟩
    have hmem' : (st.setPhase event.userId (some (.lookingUp call))).memory event.userId =
        none := hmem
    rw [Machine.run_cons_eq_some]
    refine ⟨_, hstep, ?_⟩
    simp only [Machine.run_cons, machine, step, hphase, hmem', Option.bind_some, Machine.run_nil,
      setPhase_inFlight_self]
    simp only [fork, setPhase, huser, Function.update_idem]

theorem run_of_changing (ext : Externals) {st : PhasedWorker} {event : LocationEventV1}
    {call : ReportCall} {hint : List AreaId} (hidle : st.inFlight event.userId = none)
    (huser : call.dto.userId = event.userId) (hdiff : differs call.currentAreaIds hint = true) :
    (∀ e, (machine ext).run (st.fork call hint) [.rollBack event.userId e] = some st) ∧
      ∀ db result, transaction ext.pg call st.db = .ok (db, result) →
        (∀ e, (machine ext).run (st.fork call hint)
          [.commit event.userId, .answer event.userId (some e)] = some { st with db }) ∧
        (machine ext).run (st.fork call hint)
          [.commit event.userId, .answer event.userId none, .invalidated event.userId] =
          some { st with
            db
            memory := if result.duplicate then st.memory
              else st.memory.set event.userId call.currentAreaIds } := by
  have hfork : st.fork call hint = st.setPhase event.userId (some (.changing call)) := by
    rw [fork, huser, if_pos hdiff]
  have hrestore : Function.update st.inFlight event.userId none = st.inFlight := by
    rw [← hidle, Function.update_eq_self]
  have hphase : ∀ (s : PhasedWorker) phase,
      (s.setPhase event.userId phase).inFlight event.userId = phase :=
    fun s phase => s.setPhase_inFlight_self event.userId phase
  rw [hfork]
  refine ⟨fun e => ?_, fun db result htx => ⟨fun e => ?_, ?_⟩⟩
  · simp only [Machine.run_cons, machine, step, hphase, Option.bind_some, Machine.run_nil]
    simp only [setPhase, Function.update_idem, hrestore]
  · have htx' : transaction ext.pg call
        (st.setPhase event.userId (some (.changing call))).db = .ok (db, result) := htx
    simp only [Machine.run_cons, machine, step, hphase, htx', Option.bind_some, Machine.run_nil]
    simp only [setPhase, Function.update_idem, hrestore]
  · have htx' : transaction ext.pg call
        (st.setPhase event.userId (some (.changing call))).db = .ok (db, result) := htx
    simp only [Machine.run_cons, machine, step, hphase, htx', Option.bind_some, Machine.run_nil]
    simp only [setPhase, Function.update_idem, hrestore]

/-- What `report` does in one go is what the phases of an undisturbed call do. -/
theorem report_eq_undisturbed_run (ext : Externals) (st : PhasedWorker) (event : LocationEventV1)
    (answers : Answers) (hidle : st.inFlight event.userId = none) :
    ∃ actions t, (∀ action ∈ actions, action.user? = some event.userId) ∧
      (machine ext).run st actions = some t ∧ t.inFlight = st.inFlight ∧
      (report ext st.service event.reportDto event.receivedAt answers).state.db = t.db ∧
      (report ext st.service event.reportDto event.receivedAt answers).state.memory =
        some t.memory := by
  have hcases : WorkerReport ext st.service st.memory event answers
      (report ext st.service event.reportDto event.receivedAt answers) :=
    report_cases ext rfl event answers
  generalize report ext st.service event.reportDto event.receivedAt answers = outcome at hcases ⊢
  cases hcases with
  | threw e => exact ⟨[], st, by simp, rfl, rfl, rfl, rfl⟩
  | unchanged call memory hint hcall hhint hsame =>
    obtain ⟨actions, hown, hrun⟩ := run_to_fork ext hidle hcall hhint
    have huser : call.dto.userId = event.userId := (isWorkerCall_of_callOf hcall).userId
    refine ⟨actions, _, hown, hrun, ?_, rfl, rfl⟩
    change Function.update st.inFlight call.dto.userId _ = st.inFlight
    rw [hsame, if_neg Bool.false_ne_true, huser, ← hidle, Function.update_eq_self]
  | rolledBack call memory hint e hcall hhint hdiff =>
    obtain ⟨actions, hown, hrun⟩ := run_to_fork ext hidle hcall hhint
    have hidle' : ({ st with memory } : PhasedWorker).inFlight event.userId = none := hidle
    have huser : call.dto.userId = event.userId := (isWorkerCall_of_callOf hcall).userId
    have hrest := (run_of_changing ext hidle' huser hdiff).1 e
    refine ⟨_, _, ?_, (machine ext).run_append_eq_some.mpr ⟨_, hrun, hrest⟩, ?_, ?_, ?_⟩
    · simpa [PhaseAction.user?, or_imp, forall_and] using hown
    · rfl
    · rfl
    · rfl
  | commitLost call memory hint db result e hcall hhint hdiff hfate htx =>
    obtain ⟨actions, hown, hrun⟩ := run_to_fork ext hidle hcall hhint
    have hidle' : ({ st with memory } : PhasedWorker).inFlight event.userId = none := hidle
    have huser : call.dto.userId = event.userId := (isWorkerCall_of_callOf hcall).userId
    have hrest := ((run_of_changing ext hidle' huser hdiff).2 db result htx).1 e
    refine ⟨_, _, ?_, (machine ext).run_append_eq_some.mpr ⟨_, hrun, hrest⟩, ?_, ?_, ?_⟩
    · simpa [PhaseAction.user?, or_imp, forall_and] using hown
    · rfl
    · rfl
    · rfl
  | committed call memory hint db result hcall hhint hdiff hfate htx =>
    obtain ⟨actions, hown, hrun⟩ := run_to_fork ext hidle hcall hhint
    have hidle' : ({ st with memory } : PhasedWorker).inFlight event.userId = none := hidle
    have huser : call.dto.userId = event.userId := (isWorkerCall_of_callOf hcall).userId
    have hrest := ((run_of_changing ext hidle' huser hdiff).2 db result htx).2
    refine ⟨_, _, ?_, (machine ext).run_append_eq_some.mpr ⟨_, hrun, hrest⟩, ?_, ?_, ?_⟩
    · simpa [PhaseAction.user?, or_imp, forall_and] using hown
    · rfl
    · rfl
    · rw [afterCommit_memory, huser]
      cases result.duplicate <;> rfl

/-- The worker's memory agrees with the committed presence of a user in every state of a run
exactly when no COMMIT the server applied for that user is reported to the worker as failed. -/
theorem agrees_always_iff (ext : Externals) (db : Database) (snapshot : Snapshot)
    (actions : List PhaseAction) (st : PhasedWorker)
    (hrun : (machine ext).run (start db snapshot) actions = some st) (userId : UserId) :
    (machine ext).Always (Agrees userId) (start db snapshot) actions ↔
      ∀ action ∈ actions, action.losesCommit userId = false := by
  refine (machine ext).always_iff_no_fault
    (I := fun s => Keyed s.inFlight ∧ s.ConsistentFor userId) ?_ ?_ ?_
    (consistent_start db snapshot userId) hrun
  · intro s action t hs hheard hstep
    refine ⟨hs.1.step (step_cases hstep), hs.2.step (step_cases hstep) hs.1 fun e heq => ?_⟩
    subst heq
    simp [PhaseAction.losesCommit] at hheard
  · exact fun s hs => hs.2.agrees
  · intro s action t hs hlost hstep
    obtain ⟨e, rfl⟩ := PhaseAction.losesCommit_eq_true hlost
    have hcases : PhaseStep ext s (.answer userId (some e)) t := step_cases hstep
    exact hcases.lost_stale hs.2

private def insideEvent : LocationEventV1 where
  eventId := 1
  userId := "u"
  lat := 1
  lng := 1
  receivedAt := 10

private def heardRun : List PhaseAction :=
  [.call insideEvent, .lookUp "u", .seed "u" none, .commit "u", .answer "u" none, .invalidated "u"]

/-- An entry whose COMMIT is answered: the memory follows. -/
theorem agrees_always_iff_heard :
    ∃ st, (machine .reference).run (start (.initial sampleAreas) ⟨1, sampleAreas⟩) heardRun =
        some st ∧
      (machine .reference).Always (Agrees "u") (start (.initial sampleAreas) ⟨1, sampleAreas⟩)
        heardRun ∧
      st.memory "u" = some ["a"] ∧ st.db.presence.areaIds "u" = ["a"] := by
  have hheard : ∀ action ∈ heardRun, action.losesCommit "u" = false := by decide
  have hend : ((machine .reference).run (start (.initial sampleAreas) ⟨1, sampleAreas⟩)
      heardRun).any (fun st => decide (st.memory "u" = some ["a"] ∧
        st.db.presence.areaIds "u" = ["a"])) = true := by decide +kernel
  obtain ⟨st, hrun, hst⟩ := Machine.exists_end _ hend
  exact ⟨st, hrun, (agrees_always_iff .reference _ _ heardRun st hrun "u").mpr hheard,
    hst⟩

private def lostRun : List PhaseAction :=
  [.call insideEvent, .lookUp "u", .seed "u" none, .commit "u",
    .answer "u" (some ⟨"08006", none⟩), .call { insideEvent with eventId := 2, lng := 50 },
    .lookUp "u"]

/-- The server applies the entry's COMMIT and the worker hears an error: the cold seed stays in
memory, and the next event, outside, is taken for no change while the presence row stays. -/
theorem lost_commit_leaves_memory_stale :
    ∃ st, (machine .reference).run (start (.initial sampleAreas) ⟨1, sampleAreas⟩) lostRun =
        some st ∧
      st.inFlight "u" = none ∧ st.memory "u" = some [] ∧ st.db.presence.areaIds "u" = ["a"] ∧
      ¬ st.Agrees "u" := by
  have hend : ((machine .reference).run (start (.initial sampleAreas) ⟨1, sampleAreas⟩)
      lostRun).any (fun st => decide ((st.inFlight "u").isNone = true ∧ st.memory "u" = some [] ∧
        st.db.presence.areaIds "u" = ["a"])) = true := by decide +kernel
  obtain ⟨st, hrun, hidle, hmem, hrows⟩ := Machine.exists_end _ hend
  have hnone := Option.isNone_iff_eq_none.mp hidle
  refine ⟨st, hrun, hnone, hmem, hrows, fun hagrees => ?_⟩
  have hin : "a" ∈ ([] : List AreaId) := (hagrees hnone [] hmem "a").mpr (by rw [hrows]; simp)
  cases hin

end PhasedWorker

end Geofence
