import Geofence.Worker.Fleet
/-!
# Runs of a fleet

With every partition consumed by one worker at most, any interleaving of any number of workers,
restarts, snapshots and area changes leaves the tables of the naive reading.
-/

namespace Geofence

open Framework

/-- The call whose effect on the tables is still open. -/
def openCall : Option ReportPhase → List ReportCall
  | some (.lookingUp call) | some (.seeding call) | some (.changing call) => [call]
  | _ => []

namespace PhasedWorker

private theorem fork_openCall (st : PhasedWorker) {userId : UserId} {call : ReportCall}
    (hcall : call.dto.userId = userId) (hint : List AreaId) :
    (if differs call.currentAreaIds hint then [] else [call]) ++
      openCall ((st.fork call hint).inFlight userId) = [call] := by
  rw [fork, hcall, setPhase_inFlight_self]
  cases differs call.currentAreaIds hint with
  | true => rfl
  | false => rfl

theorem idle_of_call {ext : Externals} {st t : PhasedWorker} {event : LocationEventV1}
    (hst : step ext st (.call event) = some t) : st.inFlight event.userId = none := by
  cases hphase : st.inFlight event.userId with
  | none => rfl
  | some phase =>
    simp only [step, hphase] at hst
    cases hst

/-- An action settles the open call, leaves it open or drops it. -/
private theorem settles_openCall {ext : Externals} {st t : PhasedWorker} {action : PhaseAction}
    {userId : UserId} (hst : step ext st action = some t) (hkeyed : Keyed st.inFlight)
    (huser : action.user? = some userId) (hcall : ∀ event, action ≠ .call event) :
    (st.settles ext action ++ openCall (t.inFlight userId)).Sublist
      (openCall (st.inFlight userId)) := by
  cases step_cases hst with
  | restart => cases huser
  | swapSnapshot snapshot => cases huser
  | createArea row db hdb => cases huser
  | refused event => exact absurd rfl (hcall event)
  | called event call hidle hok => exact absurd rfl (hcall event)
  | warm user call hint hphase hmem =>
    cases huser
    have hcalluser : call.dto.userId = userId := (hkeyed _ _ hphase).userId
    simp only [settles, hphase, hmem]
    rw [fork_openCall st hcalluser hint]
    exact List.Sublist.refl _
  | cold user call hphase hmem =>
    cases huser
    simp only [settles, hphase, hmem, setPhase_inFlight_self]
    exact List.Sublist.refl _
  | seeded user call hphase =>
    cases huser
    have hcalluser : call.dto.userId = userId := (hkeyed _ _ hphase).userId
    simp only [settles, hphase]
    rw [fork_openCall _ hcalluser]
    exact List.Sublist.refl _
  | refusedByServer user call hphase =>
    cases huser
    rw [setPhase_inFlight_self, hphase]
    cases htx : transaction ext.pg call st.db with
    | error e =>
      simp only [settles, hphase, htx]
      exact List.nil_sublist _
    | ok r =>
      simp only [settles, hphase, htx]
      exact List.Sublist.refl _
  | committed user call db result hphase htx =>
    cases huser
    simp only [settles, hphase, htx, setPhase_inFlight_self]
    exact List.Sublist.refl _
  | seedFailed _ _ _ _ | rolledBack _ _ _ _ | lost _ _ _ _ _ | answered _ _ _ _
  | invalidated _ _ _ =>
    cases huser
    rw [setPhase_inFlight_self]
    exact List.nil_sublist _

end PhasedWorker

namespace WorkerFleet

variable {ω : Type} {ext : Externals} {assignment : PartitionAssignment ω}

/-- The events of a user that an action delivers to a worker. -/
def delivery (userId : UserId) : FleetAction ω → List LocationEventV1
  | .worker _ (.call event) => if event.userId = userId then [event] else []
  | _ => []

def deliveries (userId : UserId) (actions : List (FleetAction ω)) : List LocationEventV1 :=
  actions.flatMap (delivery userId)

/-- What a call and the event it was made of have in common. -/
def eventKey (event : LocationEventV1) : ReportLocationDto × Timestamp :=
  (event.reportDto, event.receivedAt)

def callKey (call : ReportCall) : ReportLocationDto × Timestamp := (call.dto, call.recordedAt)

/-- The settled calls of a user, with one in progress after them, are events of the user in the
order of their delivery. -/
structure InOrder (userId : UserId) (actions : List (FleetAction ω)) (st : WorkerFleet ω) :
    Prop where
  applied : ((st.applied.filter (·.dto.userId = userId)).map callKey).Sublist
    ((deliveries userId actions).map eventKey)
  pending : ∀ w, ((st.applied.filter (·.dto.userId = userId) ++
    openCall ((st.workers w).inFlight userId)).map callKey).Sublist
      ((deliveries userId actions).map eventKey)

namespace InOrder

variable {userId : UserId} {actions : List (FleetAction ω)} {st t : WorkerFleet ω}

theorem deliveries_append (action : FleetAction ω) :
    deliveries userId (actions ++ [action]) =
      deliveries userId actions ++ delivery userId action := by
  simp [deliveries]

theorem sublist_of_step (action : FleetAction ω) {keys : List (ReportLocationDto × Timestamp)}
    (h : keys.Sublist ((deliveries userId actions).map eventKey)) :
    keys.Sublist ((deliveries userId (actions ++ [action])).map eventKey) := by
  rw [deliveries_append, List.map_append]
  exact h.trans (List.sublist_append_left _ _)

theorem frame (h : st.InOrder userId actions) (action : FleetAction ω)
    (happlied : t.applied.filter (·.dto.userId = userId) =
      st.applied.filter (·.dto.userId = userId))
    (hphases : ∀ w, (t.workers w).inFlight userId = (st.workers w).inFlight userId) :
    t.InOrder userId (actions ++ [action]) := by
  refine ⟨?_, fun w => ?_⟩
  · rw [happlied]
    exact sublist_of_step action h.applied
  · rw [happlied, hphases]
    exact sublist_of_step action (h.pending w)

theorem step_own [DecidableEq ω] {ext : Externals} {assignment : PartitionAssignment ω}
    {db₀ : Database} {w : ω} {action : PhaseAction} {next : PhasedWorker}
    (h : st.InOrder userId actions) (hkept : st.Kept assignment db₀ userId)
    (hexclusive : assignment.Exclusive) (hadmits : st.admits assignment w action = true)
    (hst : (st.view w).step ext action = some next) (huser : action.user? = some userId) :
    (st.put w next ((st.view w).settles ext action)).InOrder userId
      (actions ++ [.worker w action]) := by
  have hstep := PhasedWorker.step_cases hst
  have howns := hkept.owns_of_step hadmits hstep huser
  have happlied : (st.put w next ((st.view w).settles ext action)).applied.filter
      (·.dto.userId = userId) =
        st.applied.filter (·.dto.userId = userId) ++ (st.view w).settles ext action := by
    have hkeyed : Keyed (st.view w).inFlight := hkept.keyed w
    simp only [put, List.filter_append, PhasedWorker.settles_filter_own hkeyed huser]
  have hwhole : ((st.applied.filter (·.dto.userId = userId) ++ ((st.view w).settles ext action ++
      openCall (next.inFlight userId))).map callKey).Sublist
        ((deliveries userId (actions ++ [.worker w action])).map eventKey) := by
    by_cases hcall : ∃ event, action = .call event
    · obtain ⟨event, rfl⟩ := hcall
      have hdelivered : delivery userId (.worker w (.call event)) = [event] := by
        cases huser
        exact if_pos rfl
      have hnone : (st.view w).settles ext (.call event) = [] := rfl
      rw [deliveries_append, hdelivered, hnone, List.nil_append, List.map_append, List.map_append]
      apply h.applied.append
      cases hstep with
      | refused _ =>
        cases huser
        rw [PhasedWorker.idle_of_call hst]
        exact List.nil_sublist _
      | called _ call hidle hok =>
        cases huser
        obtain ⟨hdto, hat, -⟩ := callOf_ok hok
        rw [PhasedWorker.setPhase_inFlight_self]
        simp [openCall, callKey, eventKey, hdto, hat]
    · have hsub := PhasedWorker.settles_openCall hst (hkept.keyed w) huser
        fun event heq => hcall ⟨event, heq⟩
      apply sublist_of_step
      exact (((List.Sublist.refl _).append hsub).map callKey).trans (h.pending w)
  have hsettled := (List.sublist_append_left (st.applied.filter (·.dto.userId = userId) ++
    (st.view w).settles ext action) (openCall (next.inFlight userId))).map callKey
  rw [List.append_assoc] at hsettled
  refine ⟨?_, fun other => ?_⟩
  · rw [happlied]
    exact hsettled.trans hwhole
  · rw [happlied]
    by_cases heq : other = w
    · subst heq
      rw [List.append_assoc]
      simpa only [put, Function.update_self] using hwhole
    · have hnot : assignment.owns other userId = false := by
        rw [Bool.eq_false_iff]
        exact fun hother => heq (hexclusive userId other w hother howns)
      simp only [put, Function.update_of_ne heq, (hkept.owned other userId hnot).2, openCall,
        List.append_nil]
      exact hsettled.trans hwhole

theorem step_idle [DecidableEq ω] {ext : Externals} {w : ω} {action : PhaseAction}
    {next : PhasedWorker} (h : st.InOrder userId actions)
    (hst : (st.view w).step ext action = some next) (huser : action.user? = none) :
    (st.put w next ((st.view w).settles ext action)).InOrder userId
      (actions ++ [.worker w action]) := by
  have hnone : (st.view w).settles ext action = [] := by
    cases action with
    | restart | swapSnapshot _ | createArea _ => rfl
    | _ => cases huser
  have hphase : next.inFlight = (st.workers w).inFlight ∨ next.inFlight userId = none := by
    cases PhasedWorker.step_cases hst with
    | restart => exact Or.inr rfl
    | swapSnapshot _ | createArea _ _ _ => exact Or.inl rfl
    | _ => cases huser
  have happlied := sublist_of_step (.worker w action) h.applied
  rw [hnone]
  refine ⟨?_, fun other => ?_⟩
  · simpa only [put, List.append_nil] using happlied
  · simp only [put, List.append_nil]
    by_cases heq : other = w
    · subst heq
      simp only [Function.update_self]
      rcases hphase with hsame | hidle
      · rw [hsame]
        exact sublist_of_step _ (h.pending other)
      · have hclosed : openCall (next.inFlight userId) = [] := by rw [hidle]; rfl
        rw [hclosed, List.append_nil]
        exact happlied
    · rw [Function.update_of_ne heq]
      exact sublist_of_step _ (h.pending other)

theorem step [DecidableEq ω] {ext : Externals} {assignment : PartitionAssignment ω}
    {db₀ : Database} {action : FleetAction ω} (h : st.InOrder userId actions)
    (hkept : st.Kept assignment db₀ userId) (hexclusive : assignment.Exclusive)
    (hst : WorkerFleet.step ext assignment st action = some t) :
    t.InOrder userId (actions ++ [action]) := by
  cases action with
  | createArea row =>
    simp only [WorkerFleet.step] at hst
    split at hst
    · cases hst
    · obtain ⟨db, -, rfl⟩ := Option.map_eq_some_iff.mp hst
      exact h.frame _ rfl fun _ => rfl
  | deleteArea areaId =>
    obtain ⟨db, -, rfl⟩ := Option.map_eq_some_iff.mp hst
    exact h.frame _ rfl fun _ => rfl
  | worker w action =>
    simp only [WorkerFleet.step] at hst
    split at hst
    · rename_i hadmits
      obtain ⟨next, hnext, rfl⟩ := Option.map_eq_some_iff.mp hst
      have hkeyed : Keyed (st.view w).inFlight := hkept.keyed w
      cases huser : action.user? with
      | none => exact h.step_idle hnext huser
      | some user =>
        by_cases hu : userId = user
        · subst hu
          exact h.step_own hkept hexclusive hadmits hnext huser
        · have hstep := PhasedWorker.step_cases hnext
          apply h.frame
          · simp only [put, List.filter_append,
              PhasedWorker.settles_filter_of_ne hkeyed huser hu, List.append_nil]
          · intro other
            by_cases heq : other = w
            · subst heq
              simp only [put, Function.update_self]
              exact (hstep.of_ne hkeyed huser hu).1
            · simp only [put, Function.update_of_ne heq]
    · cases hst

end InOrder

theorem inOrder_start (db₀ : Database) (userId : UserId) :
    (start db₀ : WorkerFleet ω).InOrder userId [] :=
  ⟨List.Sublist.refl _, fun _ => List.Sublist.refl _⟩

private theorem kept_of_run [DecidableEq ω] {ext : Externals} {assignment : PartitionAssignment ω}
    (hexclusive : assignment.Exclusive) {db₀ : Database} (hdb₀ : db₀.Referential)
    {actions : List (FleetAction ω)} {st : WorkerFleet ω}
    (hrun : (machine ext assignment).run (start db₀) actions = some st) {userId : UserId}
    (hheard : ∀ action ∈ actions, action.losesCommit userId = false) :
    st.Kept assignment db₀ userId ∧ st.InOrder userId actions := by
  refine (machine ext assignment).run_trace_invariant (s := start db₀)
    (I := fun before s => (∀ action ∈ before, action.losesCommit userId = false) →
      s.Kept assignment db₀ userId ∧ s.InOrder userId before)
    (fun _ => ⟨kept_start hdb₀, inOrder_start db₀ userId⟩) ?_ hrun hheard
  intro before s action t _ hs hstep hmore
  obtain ⟨hkept, hordered⟩ := hs fun a ha => hmore a (List.mem_append_left _ ha)
  exact ⟨hkept.step hexclusive (hmore action (by simp)) hstep,
    hordered.step hkept hexclusive hstep⟩

/-- Where partitions are exclusive and no applied COMMIT is reported as failed for a user, every
state of every run has the user's tables of a naive reading, deleted areas apart: of the settled
calls, which are events of the user in the order of their delivery. Every worker's memory agrees
with the tables. -/
theorem fleet_refines_naiveRun [DecidableEq ω] (ext : Externals)
    (assignment : PartitionAssignment ω) (hexclusive : assignment.Exclusive) (db₀ : Database)
    (hdb₀ : db₀.Referential) (actions : List (FleetAction ω)) (st : WorkerFleet ω)
    (hrun : (machine ext assignment).run (start db₀) actions = some st) (userId : UserId)
    (hheard : ∀ action ∈ actions, action.losesCommit userId = false) :
    Follows db₀ userId st.db (st.applied.filter (·.dto.userId = userId)) ∧
      ((st.applied.filter (·.dto.userId = userId)).map callKey).Sublist
        ((deliveries userId actions).map eventKey) ∧
      st.AgreesFor userId := by
  obtain ⟨hkept, hordered⟩ := kept_of_run hexclusive hdb₀ hrun hheard
  exact ⟨hkept.follows, hordered.applied, hkept.agreesFor⟩

end WorkerFleet

end Geofence
