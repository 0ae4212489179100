import Geofence.Locations.Sessions
import Mathlib.Algebra.BigOperators.Fin
import Mathlib.Algebra.Order.BigOperators.Group.Finset
/-!
# Waiting for locks

An open transaction waits for its user's advisory lock, or for a row another transaction has
written. The advisory lock is taken first, so the second kind of wait never happens: a session
that holds its lock runs to its end, and the sessions that wait all wait for one that does not.
-/

namespace Geofence

open Framework

namespace Write

/-- The user whose row a write is of. -/
def userId : Write → UserId
  | .presence row => row.userId
  | .log row => row.userId
  | .delete userId _ => userId
  | .eventState row => row.userId

private theorem conflicts_of_ne {write written : Write} (hne : write.userId ≠ written.userId) :
    write.conflicts written = false := by
  cases write with
  | presence row =>
    cases written with
    | presence other =>
      apply decide_eq_false
      exact fun hkey => hne (congrArg Prod.fst hkey)
    | delete userId departed =>
      simp only [conflicts, Bool.and_eq_false_iff, decide_eq_false_iff_not]
      exact Or.inl hne
    | _ => rfl
  | delete userId departed =>
    cases written with
    | presence row =>
      simp only [conflicts, Bool.and_eq_false_iff, decide_eq_false_iff_not]
      exact Or.inl (Ne.symm hne)
    | delete other areaIds =>
      simp only [conflicts, Bool.and_eq_false_iff, decide_eq_false_iff_not]
      exact Or.inl hne
    | _ => rfl
  | eventState row =>
    cases written with
    | eventState other =>
      apply decide_eq_false
      exact fun hkey => hne (congrArg Prod.fst hkey)
    | _ => rfl
  | log row => rfl

end Write

namespace ReportCall

variable (call : ReportCall)

private theorem userId_of_mem_gateWrites {write : Write} (h : write ∈ call.gateWrites) :
    write.userId = call.dto.userId := by
  unfold gateWrites at h
  split at h
  · cases List.mem_singleton.mp h
    rfl
  · cases h

private theorem userId_of_mem_enterWrites {inserted : List AreaId} {write : Write}
    (h : write ∈ call.enterWrites inserted) : write.userId = call.dto.userId := by
  obtain ⟨areaId, -, hwrite⟩ := List.mem_flatMap.mp h
  rcases List.mem_cons.mp hwrite with rfl | hwrite
  · rfl
  · cases List.mem_singleton.mp hwrite
    rfl

private theorem userId_of_mem_exitWrites {previous : List AreaId} {write : Write}
    (h : write ∈ call.exitWrites previous) : write.userId = call.dto.userId := by
  unfold exitWrites at h
  split at h
  · cases List.mem_singleton.mp h
    rfl
  · cases h

end ReportCall

private theorem Progress.userId_of_mem {pg : Postgres} {db : Database} {call : ReportCall}
    {pc : TransactionPc} {writes : List Write} {deleted : List (UserId × AreaId)}
    (h : Progress pg db call pc writes deleted) {write : Write} (hwrite : write ∈ writes) :
    write.userId = call.dto.userId := by
  have hlooped : ∀ inserted, write ∈ call.gateWrites ++ call.enterWrites inserted →
      write.userId = call.dto.userId := by
    intro inserted hmem
    rcases List.mem_append.mp hmem with hgate | henter
    · exact call.userId_of_mem_gateWrites hgate
    · exact call.userId_of_mem_enterWrites henter
  cases h with
  | lock | readPresence | selectLastSeq _ | upsertLastSeq _ _ | duplicate _ => cases hwrite
  | inserting done hprev hentered hloop => exact hlooped _ hwrite
  | logging done hprev hentered hloop hmem =>
    rcases List.mem_append.mp hwrite with hbefore | hrow
    · exact hlooped _ hbefore
    · cases List.mem_singleton.mp hrow
      rfl
  | deleting hprev hloop hdeparted => exact hlooped _ hwrite
  | commit hprev hloop =>
    rcases List.mem_append.mp hwrite with hbefore | hexit
    · exact hlooped _ hbefore
    · exact call.userId_of_mem_exitWrites hexit

private theorem Progress.writes_lock {pg : Postgres} {db : Database} {call : ReportCall}
    {writes : List Write} {deleted : List (UserId × AreaId)}
    (h : Progress pg db call .lock writes deleted) : writes = [] := by
  cases h
  rfl

namespace Session

private theorem userId_of_nextWrite {s : Session} {write : Write} (h : write ∈ s.nextWrite) :
    write.userId = s.userId := by
  unfold nextWrite at h
  split at h
  · split at h
    · cases h
      rfl
    · cases h
  · cases h
    rfl
  · cases h
    rfl
  · cases h
    rfl
  · cases h

theorem pc_of_not_holdsLock {s : Session} (h : s.holdsLock = false) : s.pc = .lock := by
  unfold holdsLock at h
  split at h
  · assumption
  · cases h

/-- The statements a session still has to run, at most. -/
def work (s : Session) : ℕ :=
  match s.pc with
  | .lock => 2 * s.call.currentAreaIds.length + 7
  | .readPresence => 2 * s.call.currentAreaIds.length + 6
  | .selectLastSeq _ => 2 * s.call.currentAreaIds.length + 5
  | .upsertLastSeq _ => 2 * s.call.currentAreaIds.length + 4
  | .inserting _ remaining _ => 2 * remaining.length + 3
  | .logging _ _ remaining _ => 2 * remaining.length + 4
  | .deleting _ _ => 2
  | .commit _ => 1

private theorem work_pos (s : Session) : 0 < s.work := by
  unfold work
  split <;> omega

/-- The dedup statements run for calls with a device and a sequence number only. -/
def Identified (s : Session) : Prop :=
  match s.pc with
  | .selectLastSeq _ | .upsertLastSeq _ =>
    ∃ deviceId seq, s.call.dto.deviceId = some deviceId ∧ s.call.dto.seq = some seq
  | _ => True

private theorem length_entered_le (call : ReportCall) (previous : List AreaId) :
    (call.entered previous).length ≤ call.currentAreaIds.length := by
  unfold ReportCall.entered
  rw [List.length_insertionSort]
  exact List.length_filter_le _ _

theorem work_startLoop (s : Session) (previous : List AreaId) :
    (s.startLoop previous).work ≤ 2 * s.call.currentAreaIds.length + 3 := by
  have hle := length_entered_le s.call previous
  simp only [startLoop, goto, work]
  omega

theorem exec_work {pg : Postgres} {db : Database} {s s' : Session} (h : s.Identified)
    (hpc : ∀ result, s.pc ≠ .commit result) (hexec : s.exec pg db = .ok s') :
    s'.work < s.work ∧ s'.Identified := by
  obtain ⟨call, pc, writes, deleted⟩ := s
  cases pc with
  | lock =>
    cases hexec
    exact ⟨by simp [work, goto], trivial⟩
  | readPresence =>
    simp only [exec] at hexec
    split at hexec
    · rename_i deviceId seq hdevice hseq
      cases hexec
      exact ⟨by simp [work, goto], deviceId, seq, hdevice, hseq⟩
    · cases hexec
      refine ⟨?_, trivial⟩
      have hle := work_startLoop ⟨call, .readPresence, writes, deleted⟩
        ((db.replay writes).presence.areaIds call.dto.userId)
      exact Nat.lt_of_le_of_lt hle (by simp [work])
  | selectLastSeq previous =>
    obtain ⟨deviceId, seq, hdevice, hseq⟩ : ∃ deviceId seq,
        call.dto.deviceId = some deviceId ∧ call.dto.seq = some seq := h
    simp only [exec, hdevice, hseq] at hexec
    split at hexec
    · cases hexec
      exact ⟨by simp [work, goto], trivial⟩
    · cases hexec
      exact ⟨by simp [work, goto], deviceId, seq, hdevice, hseq⟩
  | upsertLastSeq previous =>
    obtain ⟨deviceId, seq, hdevice, hseq⟩ : ∃ deviceId seq,
        call.dto.deviceId = some deviceId ∧ call.dto.seq = some seq := h
    simp only [exec, nextWrite, hdevice, hseq] at hexec
    cases hexec
    refine ⟨?_, trivial⟩
    have hle := work_startLoop (write ⟨call, .upsertLastSeq previous, writes, deleted⟩
      (.eventState ⟨call.dto.userId, deviceId, seq, call.recordedAt⟩)) previous
    exact Nat.lt_of_le_of_lt hle (by simp [work, write])
  | inserting previous remaining inserted =>
    cases remaining with
    | nil =>
      simp only [exec] at hexec
      split at hexec
      · cases hexec
        exact ⟨by simp [work, goto], trivial⟩
      · cases hexec
        exact ⟨by simp [work, finish, goto], trivial⟩
    | cons areaId rest =>
      simp only [exec] at hexec
      split at hexec
      · cases hexec
      · split at hexec
        · cases hexec
          refine ⟨?_, trivial⟩
          simp only [work, goto, write, List.length_cons]
          omega
        · cases hexec
          exact ⟨by simp [work, goto], trivial⟩
  | logging previous areaId rest inserted =>
    simp only [exec] at hexec
    split at hexec
    · cases hexec
    · cases hexec
      exact ⟨by simp [work, goto, write], trivial⟩
  | deleting previous inserted =>
    cases hexec
    exact ⟨by simp [work, finish, goto], trivial⟩
  | commit result => exact absurd rfl (hpc result)

end Session

namespace Cluster

variable {n : ℕ} {pg : Postgres} {st t : Cluster n}

/-- A session that holds its lock waits for nothing. -/
theorem Serial.admits_of_holdsLock (h : Serial pg st) {p : Fin n} {s : Session}
    (hs : st.session p = some s) (hlock : s.holdsLock = true) : st.admits pg p s = true := by
  have hfree : st.rowFree p s = true := by
    apply decide_eq_true
    intro q hq other hother write hwrite written hwritten
    apply Write.conflicts_of_ne
    rw [Session.userId_of_nextWrite hwrite]
    have hprogress := h.progress q other hother
    rw [hprogress.userId_of_mem hwritten]
    intro huser
    have hheld : other.holdsLock = true := by
      by_contra hnot
      rw [Session.pc_of_not_holdsLock (by simpa using hnot)] at hprogress
      rw [hprogress.writes_lock] at hwritten
      cases hwritten
    exact hq (h.exclusive q p other s hother hs hheld hlock huser.symm)
  unfold admits
  split
  · rename_i hpc
    rw [Session.holdsLock, hpc] at hlock
    cases hlock
  · exact hfree

/-- Some open session can run its next statement. -/
private theorem Serial.exists_admits (h : Serial pg st) {p : Fin n} {s : Session}
    (hs : st.session p = some s) :
    ∃ q s', st.session q = some s' ∧ st.admits pg q s' = true := by
  by_cases hheld : ∃ q s', st.session q = some s' ∧ s'.holdsLock = true
  · obtain ⟨q, s', hs', hlock⟩ := hheld
    exact ⟨q, s', hs', h.admits_of_holdsLock hs' hlock⟩
  · refine ⟨p, s, hs, ?_⟩
    have hnone : ∀ q s', st.session q = some s' → s'.holdsLock = false := by
      intro q s' hs'
      by_contra hnot
      exact hheld ⟨q, s', hs', by simpa using hnot⟩
    have hfree : st.lockFree pg p s.userId = true := by
      apply decide_eq_true
      intro q hq other hother hlock
      rw [hnone q other hother] at hlock
      cases hlock
    simpa only [admits, Session.pc_of_not_holdsLock (hnone p s hs)] using hfree

theorem step_of_admits {p : Fin n} {s : Session} (hs : st.session p = some s)
    (hadmits : st.admits pg p s = true) : ∃ t, step pg st (.exec p) = some t := by
  simp only [step, hs, hadmits, if_true]
  split
  · exact ⟨_, rfl⟩
  · split
    · exact ⟨_, rfl⟩
    · exact ⟨_, rfl⟩

/-- What a session adds to the work of the cluster. -/
def sessionWork : Option Session → ℕ
  | none => 0
  | some s => s.work

/-- The statements the open sessions still have to run, at most. -/
def work (st : Cluster n) : ℕ := ∑ p, sessionWork (st.session p)

def Identified (st : Cluster n) : Prop := ∀ p s, st.session p = some s → s.Identified

theorem work_lt {p : Fin n} (hother : ∀ q, q ≠ p → t.session q = st.session q)
    (hless : sessionWork (t.session p) < sessionWork (st.session p)) : t.work < st.work := by
  apply Finset.sum_lt_sum
  · intro q _
    by_cases hq : q = p
    · rw [hq]
      exact hless.le
    · rw [hother q hq]
  · exact ⟨p, Finset.mem_univ p, hless⟩

theorem Identified.setSession (h : Identified st) (p : Fin n) (session : Option Session)
    (hsession : ∀ s, session = some s → s.Identified) : Identified (st.setSession p session) := by
  intro q s hs
  by_cases hq : q = p
  · rw [hq, setSession_self] at hs
    exact hsession s hs
  · rw [setSession_of_ne st hq] at hs
    exact h q s hs

theorem Identified.step {action : ClusterAction n} (h : Identified st)
    (hstep : step pg st action = some t) : Identified t := by
  cases action with
  | report p call hint =>
    cases step_cases hstep with
    | noChange => exact h
    | opened _ _ _ hidle =>
      refine h.setSession p _ fun s hs => ?_
      cases hs
      trivial
    | aborted _ q haction => rcases haction with h | h <;> cases h
  | createArea row =>
    cases step_cases hstep with
    | aborted _ q haction => rcases haction with h | h <;> cases h
    | createArea _ db hdb => exact h
  | rollBack p =>
    cases step_cases hstep with
    | aborted _ q haction =>
      refine h.setSession q _ fun s hs => ?_
      cases hs
  | exec p =>
    simp only [Cluster.step] at hstep
    split at hstep
    · cases hstep
    · rename_i s hs
      split at hstep
      · split at hstep
        · cases hstep
          refine h.setSession p none fun s hs => ?_
          cases hs
        · rename_i hpc
          split at hstep
          · cases hstep
            refine h.setSession p none fun s hs => ?_
            cases hs
          · rename_i s' hexec
            cases hstep
            refine h.setSession p _ fun u hu => ?_
            cases hu
            exact (Session.exec_work (h p s hs) hpc hexec).2
      · cases hstep

/-- Every statement that runs leaves less to run. -/
private theorem work_exec (h : Identified st) {p : Fin n} (hstep : step pg st (.exec p) = some t) :
    t.work < st.work := by
  simp only [step] at hstep
  split at hstep
  · cases hstep
  · rename_i s hs
    have hclosed : sessionWork none < sessionWork (st.session p) := by
      rw [hs]
      exact s.work_pos
    split at hstep
    · split at hstep
      · cases hstep
        refine work_lt (p := p) (fun q hq => Function.update_of_ne hq _ _) ?_
        simp only [commit, Function.update_self]
        exact hclosed
      · rename_i hpc
        split at hstep
        · cases hstep
          refine work_lt (p := p) (fun q hq => setSession_of_ne st hq _) ?_
          rw [setSession_self]
          exact hclosed
        · rename_i s' hexec
          cases hstep
          refine work_lt (p := p) (fun q hq => setSession_of_ne st hq _) ?_
          rw [setSession_self, hs]
          exact (Session.exec_work (h p s hs) hpc hexec).1
    · cases hstep

theorem serial_of_run {areas : AreasTable} {actions : List (ClusterAction n)}
    (hrun : (machine pg).run (start areas) actions = some st) : Serial pg st ∧ Identified st := by
  refine (machine pg).run_invariant (I := fun s => Serial pg s ∧ Identified s) ?_
    ⟨serial_start pg areas, fun p s hs => by cases hs⟩ hrun
  intro s action t hs hstep
  exact ⟨hs.1.step (step_cases hstep), hs.2.step hstep⟩

/-- In every reachable state of any number of concurrent transactions, one that holds its user's
advisory lock can run its next statement. Scheduled in any order, the open ones run no more
statements than the work they have left, and when none of them can go on none of them is open. -/
theorem transactions_drain (pg : Postgres) (areas : AreasTable) (actions : List (ClusterAction n))
    (st : Cluster n) (hrun : (machine pg).run (start areas) actions = some st) :
    (∀ p s, st.session p = some s → s.holdsLock = true →
      ∃ t, step pg st (.exec p) = some t) ∧
      ∀ (schedule : List (Fin n)) (t : Cluster n),
        (machine pg).run st (schedule.map .exec) = some t →
          schedule.length ≤ st.work ∧
            ((∀ p, step pg t (.exec p) = none) → ∀ p, t.session p = none) := by
  obtain ⟨hserial, hidentified⟩ := serial_of_run hrun
  refine ⟨fun p s hs hlock => step_of_admits hs (hserial.admits_of_holdsLock hs hlock), ?_⟩
  intro schedule t hdrain
  have hall := (machine pg).run_append_eq_some.mpr ⟨st, hrun, hdrain⟩
  constructor
  · have hbound := (machine pg).run_length_le (p := fun action => ∃ q, action = .exec q)
      (I := Identified) (m := work) ?_ ?_ hidentified hdrain
    · rw [List.length_map] at hbound
      omega
    · rintro s action t hs ⟨q, rfl⟩ hstep
      have hexec : step pg s (.exec q) = some t := hstep
      exact ⟨hs.step hexec, work_exec hs hexec⟩
    · intro action haction
      obtain ⟨q, -, rfl⟩ := List.mem_map.mp haction
      exact ⟨q, rfl⟩
  · intro hstuck p
    cases hs : t.session p with
    | none => rfl
    | some s =>
      obtain ⟨q, s', hs', hadmits⟩ := (serial_of_run hall).1.exists_admits hs
      obtain ⟨u, hu⟩ := step_of_admits hs' hadmits
      rw [hstuck q] at hu
      cases hu

private def enteringCall : ReportCall := ⟨{ userId := "u", lat := 1, lng := 1 }, 10, ["a"]⟩

/-- Two processes open a transaction of one user each, and the first takes the lock. -/
private def contended (p q : Fin 2) : List (ClusterAction 2) :=
  [.report p enteringCall [], .report q enteringCall [], .exec p]

/-- The second transaction waits, the first can go on, and once it is done so can the second. -/
theorem transactions_drain_contended :
    ∃ st : Cluster 2, (machine Externals.reference.pg).run (start sampleAreas) (contended 0 1) =
        some st ∧
      (step Externals.reference.pg st (.exec 1)).isNone = true ∧
      (∃ t, step Externals.reference.pg st (.exec 0) = some t) ∧
      ∃ t : Cluster 2, (machine Externals.reference.pg).run st
          ([0, 0, 0, 0, 0, 1, 1, 1, 1].map .exec) = some t ∧ ∀ p, t.session p = none := by
  have hend : ((machine Externals.reference.pg).run (start sampleAreas) (contended 0 1)).any
      (fun st : Cluster 2 => decide ((step Externals.reference.pg st (.exec 1)).isNone = true ∧
        (st.session 0).any Session.holdsLock = true ∧
        ((machine Externals.reference.pg).run st ([0, 0, 0, 0, 0, 1, 1, 1, 1].map .exec)).any
          (fun t : Cluster 2 => decide (∀ p : Fin 2,
            (step Externals.reference.pg t (.exec p)).isNone = true)) = true)) = true := by
    decide +kernel
  obtain ⟨st, hrun, hwaits, hheld, hdrain⟩ := Machine.exists_end _ hend
  obtain ⟨s, hs, hlock⟩ := (Option.any_eq_true ..).mp hheld
  obtain ⟨t, ht, hstuck⟩ := Machine.exists_end _ hdrain
  obtain ⟨hruns, hdrains⟩ :=
    transactions_drain Externals.reference.pg sampleAreas (contended 0 1) st hrun
  exact ⟨st, hrun, hwaits, hruns 0 s hs hlock, t, ht,
    (hdrains _ t ht).2 fun p => Option.isNone_iff_eq_none.mp (hstuck p)⟩

end Cluster

end Geofence
