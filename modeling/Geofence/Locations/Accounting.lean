import Geofence.Locations.Sessions
import Mathlib.Data.List.Count
/-!
# Log and presence accounting

For every user and area, the log rows less the committed exit deletions are the presence row.
The counts are moved only by a COMMIT, and a COMMIT is the atomic transaction.
-/

namespace Geofence

open Framework

/-- The log rows of a pair. -/
def logCount (db : Database) (userId : UserId) (areaId : AreaId) : Nat :=
  db.logs.countP fun row => row.key = (userId, areaId)

/-- Every log row is paid for by the presence row or by an exit. -/
def Balanced (db : Database) (exits : List (UserId × AreaId)) : Prop :=
  ∀ userId areaId, logCount db userId areaId =
    exits.count (userId, areaId) + if areaId ∈ db.presence.areaIds userId then 1 else 0

/-- A presence row carries the time of the last log row of its pair. -/
def EntersLogged (db : Database) : Prop :=
  ∀ row ∈ db.presence.rows,
    ((db.logs.filter (·.key = row.key)).getLast?.map (·.recordedAt)) = some row.enteredAt

namespace Applied

variable {call : ReportCall} {db db' : Database} {result : TransactionResult}

private theorem logCount_of_ne (h : Applied call db db' result) {userId : UserId}
    (hne : userId ≠ call.dto.userId) (areaId : AreaId) :
    logCount db' userId areaId = logCount db userId areaId := by
  have hnone : (result.enteredAreaIds.map call.logRow).countP
      (fun row => decide (row.key = (userId, areaId))) = 0 := by
    apply List.countP_eq_zero.mpr
    intro row hrow
    obtain ⟨a, -, rfl⟩ := List.mem_map.mp hrow
    simp [LogRow.key, ReportCall.logRow, Ne.symm hne]
  rw [logCount, h.logs, List.countP_append, hnone, Nat.add_zero, logCount]

private theorem logCount_self (h : Applied call db db' result) (areaId : AreaId) :
    logCount db' call.dto.userId areaId = logCount db call.dto.userId areaId +
      if areaId ∈ result.enteredAreaIds then 1 else 0 := by
  have hnew : (result.enteredAreaIds.map call.logRow).countP
      (fun row => decide (row.key = (call.dto.userId, areaId))) =
        result.enteredAreaIds.count areaId := by
    rw [List.countP_map, List.count]
    apply List.countP_congr
    intro a _
    simp only [LogRow.key, ReportCall.logRow, Function.comp_apply, Prod.mk.injEq, true_and,
      beq_iff_eq]
    exact ⟨of_decide_eq_true, decide_eq_true⟩
  rw [logCount, h.logs, List.countP_append, hnew, h.nodup.count, logCount]

end Applied

private theorem count_departed (call : ReportCall) (db : Database) (userId : UserId)
    (areaId : AreaId) :
    ((call.departed (db.presence.areaIds call.dto.userId)).map
      fun a => (call.dto.userId, a)).count (userId, areaId) =
      if userId = call.dto.userId ∧ areaId ∈ db.presence.areaIds call.dto.userId ∧
        areaId ∉ call.currentAreaIds then 1 else 0 := by
  have hnodup : ((call.departed (db.presence.areaIds call.dto.userId)).map
      fun a => (call.dto.userId, a)).Nodup := by
    apply List.Nodup.map
    · intro a b hab
      exact congrArg Prod.snd hab
    · exact (PresenceTable.areaIds_nodup _ _).filter _
  rw [hnodup.count]
  congr 1
  rw [List.mem_map, eq_iff_iff]
  constructor
  · rintro ⟨a, ha, heq⟩
    cases heq
    exact ⟨rfl, ReportCall.mem_departed.mp ha⟩
  · rintro ⟨rfl, ha⟩
    exact ⟨areaId, ReportCall.mem_departed.mpr ha, rfl⟩

/-- A transaction that applied keeps the balance when its deletions are counted as exits. -/
theorem Balanced.applied {call : ReportCall} {db db' : Database} {result : TransactionResult}
    {exits : List (UserId × AreaId)} (h : Balanced db exits) (happ : Applied call db db' result) :
    Balanced db' (exits ++ (call.departed (db.presence.areaIds call.dto.userId)).map
      fun a => (call.dto.userId, a)) := by
  intro userId areaId
  rw [List.count_append, count_departed]
  by_cases hu : userId = call.dto.userId
  · subst hu
    rw [happ.logCount_self, h]
    simp only [happ.mem_entered, happ.mem_areaIds, true_and]
    by_cases hcur : areaId ∈ call.currentAreaIds <;>
      by_cases hprev : areaId ∈ db.presence.areaIds call.dto.userId <;> simp [hcur, hprev]
  · rw [happ.logCount_of_ne hu, happ.areaIds_of_ne hu, h]
    simp [hu]

theorem EntersLogged.applied {call : ReportCall} {db db' : Database} {result : TransactionResult}
    (h : EntersLogged db) (happ : Applied call db db' result) : EntersLogged db' := by
  intro row hrow
  rw [happ.presence, List.mem_append] at hrow
  rw [happ.logs, List.filter_append, List.getLast?_append]
  rcases hrow with hold | hnew
  · obtain ⟨hmem, -⟩ := List.mem_filter.mp hold
    have hnone : (result.enteredAreaIds.map call.logRow).filter (·.key = row.key) = [] := by
      apply List.filter_eq_nil_iff.mpr
      intro log hlog
      obtain ⟨a, ha, rfl⟩ := List.mem_map.mp hlog
      simp only [decide_eq_true_eq]
      intro hkey
      have hprev : a ∈ db.presence.areaIds call.dto.userId :=
        PresenceTable.mem_areaIds.mpr (List.mem_map.mpr ⟨row, hmem, hkey.symm⟩)
      exact ((happ.mem_entered a).mp ha).2 hprev
    rw [hnone, List.getLast?_nil, Option.none_or]
    exact h row hmem
  · obtain ⟨a, ha, rfl⟩ := List.mem_map.mp hnew
    have hin : call.logRow a ∈ (result.enteredAreaIds.map call.logRow).filter
        (·.key = (call.presenceRow a).key) :=
      List.mem_filter.mpr ⟨List.mem_map_of_mem ha, by simp [LogRow.key, PresenceRow.key,
        ReportCall.logRow, ReportCall.presenceRow]⟩
    obtain ⟨last, hlast⟩ := Option.isSome_iff_exists.mp
      (List.getLast?_isSome.mpr (List.ne_nil_of_mem hin))
    have hmem := (List.mem_filter.mp (List.mem_of_getLast? hlast)).1
    obtain ⟨b, -, rfl⟩ := List.mem_map.mp hmem
    rw [hlast]
    rfl

namespace Cluster

variable {n : Nat} {pg : Postgres} {st t : Cluster n} {action : ClusterAction n}

/-- What every reachable cluster keeps. -/
structure Accounts (pg : Postgres) (st : Cluster n) : Prop where
  serial : Serial pg st
  balanced : Balanced st.db st.exits
  entersLogged : EntersLogged st.db

theorem accounts_start (pg : Postgres) (areas : AreasTable) :
    Accounts pg (start areas : Cluster n) := by
  refine ⟨serial_start pg areas, ?_, ?_⟩
  · intro userId areaId
    rfl
  · intro row hrow
    cases hrow

/-- What a COMMIT does to the tables and the ghosts. -/
theorem Serial.commit_cases (h : Serial pg st) {p : Fin n} {s : Session}
    {result : TransactionResult} (hs : st.session p = some s) (hpc : s.pc = .commit result) :
    (result.duplicate = true ∧ (st.commit p s result).db = st.db ∧ s.deleted = []) ∨
      (result.duplicate = false ∧ Applied s.call st.db (st.commit p s result).db result ∧
        s.deleted = (s.call.departed (st.db.presence.areaIds s.userId)).map
          fun a => (s.userId, a)) := by
  have htx := h.commit_eq hs hpc
  have hprogress := h.progress p s hs
  rw [hpc] at hprogress
  generalize s.writes = writes at hprogress
  generalize s.deleted = deleted at hprogress ⊢
  cases hprogress with
  | duplicate hgate =>
    rcases transaction_ok htx with ⟨-, hdb, -⟩ | happ
    · exact Or.inl ⟨rfl, hdb, rfl⟩
    · exact absurd happ.notDuplicate (by simp)
  | commit hprev hloop =>
    rcases transaction_ok htx with ⟨-, -, hresult⟩ | happ
    · cases hresult
    · refine Or.inr ⟨rfl, happ, ?_⟩
      rw [hprev]
      rfl

theorem Accounts.step (h : Accounts pg st) (hstep : ClusterStep pg st action t) :
    Accounts pg t := by
  have hserial := h.serial.step hstep
  cases hstep with
  | noChange p call hint => exact h
  | opened p call hint hidle => exact ⟨hserial, h.balanced, h.entersLogged⟩
  | statement p s s' hs hadmits hexec => exact ⟨hserial, h.balanced, h.entersLogged⟩
  | committed p s result hs hpc =>
    rcases h.serial.commit_cases hs hpc with ⟨hdup, hdb, hdel⟩ | ⟨hdup, happ, hdel⟩
    · refine ⟨hserial, ?_, by rw [hdb]; exact h.entersLogged⟩
      rw [hdb]
      change Balanced st.db (st.exits ++ s.deleted)
      rw [hdel, List.append_nil]
      exact h.balanced
    · refine ⟨hserial, ?_, h.entersLogged.applied happ⟩
      change Balanced _ (st.exits ++ s.deleted)
      rw [hdel]
      exact h.balanced.applied happ
  | aborted _ p haction => exact ⟨hserial, h.balanced, h.entersLogged⟩
  | createArea row db hdb =>
    obtain ⟨-, -, hpresence, hlogs⟩ := Database.createArea_eq_some hdb
    refine ⟨hserial, ?_, ?_⟩
    · intro userId areaId
      rw [logCount, hlogs, hpresence]
      exact h.balanced userId areaId
    · intro row hrow
      rw [hlogs]
      exact h.entersLogged row (hpresence ▸ hrow)

theorem accounts_of_run {areas : AreasTable} {actions : List (ClusterAction n)}
    (hrun : (machine pg).run (start areas) actions = some st) : Accounts pg st :=
  (machine pg).run_invariant (fun _ _ _ hs hstep => Accounts.step hs (step_cases hstep))
    (accounts_start pg areas) hrun

/-- If the action starts a report of the user, the report is inside the area. -/
def ReportsInside (userId : UserId) (areaId : AreaId) : ClusterAction n → Prop
  | .report _ call _ => call.dto.userId = userId → areaId ∈ call.currentAreaIds
  | _ => True

/-- What a run keeps in which every report of the user is inside the area: no exit from it, and
the presence row appears with the first commit. -/
structure Entering (userId : UserId) (areaId : AreaId) (st₀ st : Cluster n) : Prop where
  inside : ∀ p s, st.session p = some s → s.userId = userId → areaId ∈ s.call.currentAreaIds
  exits : st.exits.count (userId, areaId) = st₀.exits.count (userId, areaId)
  applied : ∃ calls, st.applied = st₀.applied ++ calls ∧
    (areaId ∈ st.db.presence.areaIds userId ↔ ∃ call ∈ calls, call.dto.userId = userId)

theorem Entering.setSession {userId : UserId} {areaId : AreaId} {st₀ : Cluster n}
    (h : Entering userId areaId st₀ st) (p : Fin n) (session : Option Session)
    (hinside : ∀ s, session = some s → s.userId = userId → areaId ∈ s.call.currentAreaIds) :
    Entering userId areaId st₀ (st.setSession p session) := by
  refine ⟨fun q s hs huser => ?_, h.exits, h.applied⟩
  by_cases hq : q = p
  · rw [hq, setSession_self] at hs
    exact hinside s hs huser
  · rw [setSession_of_ne st hq] at hs
    exact h.inside q s hs huser

theorem Entering.commit {userId : UserId} {areaId : AreaId} {st₀ : Cluster n}
    (h : Entering userId areaId st₀ st) (hserial : Serial pg st) {p : Fin n} {s : Session}
    {result : TransactionResult} (hs : st.session p = some s) (hpc : s.pc = .commit result) :
    Entering userId areaId st₀ (st.commit p s result) := by
  have hinside : ∀ q other, (st.commit p s result).session q = some other →
      other.userId = userId → areaId ∈ other.call.currentAreaIds :=
    (h.setSession p none fun _ hnone => nomatch hnone).inside
  obtain ⟨calls, happlied, hpresent⟩ := h.applied
  rcases hserial.commit_cases hs hpc with ⟨hdup, hdb, hdel⟩ | ⟨hdup, happ, hdel⟩
  · refine ⟨hinside, ?_, calls, ?_, by rw [hdb]; exact hpresent⟩
    · change (st.exits ++ s.deleted).count (userId, areaId) = _
      rw [hdel, List.append_nil]
      exact h.exits
    · change (if result.duplicate then st.applied else _) = _
      rw [if_pos hdup]
      exact happlied
  · refine ⟨hinside, ?_, calls ++ [s.call], ?_, ?_⟩
    · change (st.exits ++ s.deleted).count (userId, areaId) = _
      rw [hdel, List.count_append, Session.userId, count_departed, h.exits, if_neg, Nat.add_zero]
      rintro ⟨huser, -, hout⟩
      exact hout (h.inside p s hs huser.symm)
    · change (if result.duplicate then _ else st.applied ++ [s.call]) = _
      rw [hdup, if_neg Bool.false_ne_true, happlied, List.append_assoc]
    · by_cases huser : s.call.dto.userId = userId
      · have hcur : areaId ∈ s.call.currentAreaIds := h.inside p s hs huser
        rw [← huser, happ.mem_areaIds]
        simp [hcur]
      · rw [happ.areaIds_of_ne (Ne.symm huser), hpresent]
        simp [huser]

theorem Entering.step {userId : UserId} {areaId : AreaId} {st₀ : Cluster n}
    (h : Entering userId areaId st₀ st) (hserial : Serial pg st)
    (hreport : ReportsInside userId areaId action)
    (hstep : ClusterStep pg st action t) : Entering userId areaId st₀ t := by
  cases hstep with
  | noChange p call hint => exact h
  | opened p call hint hidle =>
    refine h.setSession p _ fun s hs huser => ?_
    cases hs
    exact hreport huser
  | statement p s s' hs hadmits hexec =>
    obtain ⟨hcall, -⟩ := Session.exec_progress (hserial.progress p s hs) hexec
    refine h.setSession p _ fun u hu huser => ?_
    cases hu
    rw [hcall]
    rw [Session.userId, hcall] at huser
    exact h.inside p s hs huser
  | committed p s result hs hpc => exact h.commit hserial hs hpc
  | aborted _ p haction =>
    refine h.setSession p none fun s hs => ?_
    cases hs
  | createArea row db hdb =>
    obtain ⟨-, -, hpresence, -⟩ := Database.createArea_eq_some hdb
    obtain ⟨calls, happlied, hpresent⟩ := h.applied
    refine ⟨h.inside, h.exits, calls, happlied, ?_⟩
    rw [hpresence]
    exact hpresent

/-- Reports inside an area, from a user who is not in it and has no other report running, add one
log row as soon as one of them commits, and never a second. -/
theorem entering_logs_once {areas : AreasTable} {actions more : List (ClusterAction n)}
    {userId : UserId} {areaId : AreaId}
    (hrun : (machine pg).run (start areas) actions = some st)
    (habsent : areaId ∉ st.db.presence.areaIds userId)
    (hquiet : ∀ p s, st.session p = some s → s.userId ≠ userId)
    (hinside : ∀ action ∈ more, ReportsInside userId areaId action)
    (hmore : (machine pg).run st more = some t) :
    ∃ calls, t.applied = st.applied ++ calls ∧
      logCount t.db userId areaId = logCount st.db userId areaId +
        if ∃ call ∈ calls, call.dto.userId = userId then 1 else 0 := by
  have hstart : Accounts pg st ∧ Entering userId areaId st st := by
    refine ⟨accounts_of_run hrun, fun p s hs huser => absurd huser (hquiet p s hs), rfl, [], ?_, ?_⟩
    · rw [List.append_nil]
    · simp [habsent]
  have hend : Accounts pg t ∧ Entering userId areaId st t := by
    refine (machine pg).run_invariant_of_meets
      (I := fun s => Accounts pg s ∧ Entering userId areaId st s) ?_ hstart
      ((machine pg).meets_of_forall_mem st hinside) hmore
    intro s action u hs hreport hstep
    exact ⟨hs.1.step (step_cases hstep), hs.2.step hs.1.serial hreport (step_cases hstep)⟩
  obtain ⟨calls, happlied, hpresent⟩ := hend.2.applied
  refine ⟨calls, happlied, ?_⟩
  rw [hend.1.balanced, hstart.1.balanced, hend.2.exits, if_neg habsent, Nat.add_zero]
  congr 1
  simp only [hpresent]

/-- In every committed state of any interleaving: log rows less exits are the presence row, a
presence row dates from the last log row of its pair, and reports inside an area from a user
who is outside it with no other report running log one entry between them. -/
theorem presence_accounting (pg : Postgres) (areas : AreasTable)
    (actions : List (ClusterAction n)) (st : Cluster n)
    (hrun : (machine pg).run (start areas) actions = some st) :
    (∀ userId areaId, (logCount st.db userId areaId : Int) - st.exits.count (userId, areaId) =
        if areaId ∈ st.db.presence.areaIds userId then 1 else 0) ∧
      (∀ row ∈ st.db.presence.rows,
        (st.db.logs.filter (·.key = row.key)).getLast?.map (·.recordedAt) = some row.enteredAt) ∧
      ∀ userId areaId more t, areaId ∉ st.db.presence.areaIds userId →
        (∀ p s, st.session p = some s → s.userId ≠ userId) →
        (∀ action ∈ more, ReportsInside userId areaId action) →
        (machine pg).run st more = some t →
        ∃ calls, t.applied = st.applied ++ calls ∧
          logCount t.db userId areaId = logCount st.db userId areaId +
            if ∃ call ∈ calls, call.dto.userId = userId then 1 else 0 := by
  have haccounts := accounts_of_run hrun
  refine ⟨fun userId areaId => ?_, haccounts.entersLogged, ?_⟩
  · have hbalanced := haccounts.balanced userId areaId
    by_cases hpresent : areaId ∈ st.db.presence.areaIds userId
    · rw [if_pos hpresent] at hbalanced ⊢
      omega
    · rw [if_neg hpresent] at hbalanced ⊢
      omega
  · intro userId areaId more t habsent hquiet hinside hmore
    exact entering_logs_once hrun habsent hquiet hinside hmore

private def raceCall (recordedAt : Timestamp) : ReportCall :=
  ⟨{ userId := "u", lat := 1, lng := 1 }, recordedAt, ["a"]⟩

private def raceRun : List (ClusterAction 2) :=
  [.report 0 (raceCall 10) [], .report 1 (raceCall 11) [], .exec 1, .exec 1, .exec 1, .exec 1,
    .rollBack 1, .exec 0, .exec 0, .report 1 (raceCall 12) [], .exec 0, .exec 0, .exec 0, .exec 0,
    .exec 1, .exec 1, .exec 1, .exec 1]

/-- Three racing entries, the first rolled back after its log insert: one log row. -/
theorem presence_accounting_race :
    ∃ st, (machine Externals.reference.pg).run (start sampleAreas) raceRun = some st ∧
      st.applied.map (·.recordedAt) = [10, 12] ∧
      (logCount st.db "u" "a" : Int) - st.exits.count ("u", "a") = 1 ∧
      st.db.logs = [⟨"u", "a", 10, none⟩] := by
  have hend : ((machine Externals.reference.pg).run (start sampleAreas) raceRun).any
      (fun st => decide (st.applied.map (·.recordedAt) = [10, 12] ∧
        "a" ∈ st.db.presence.areaIds "u" ∧ st.db.logs = [⟨"u", "a", 10, none⟩])) = true := by
    decide +kernel
  obtain ⟨st, hrun, happlied, hpresent, hlogs⟩ := Machine.exists_end _ hend
  refine ⟨st, hrun, happlied, ?_, hlogs⟩
  rw [(presence_accounting _ _ raceRun st hrun).1, if_pos hpresent]

end Cluster

end Geofence
