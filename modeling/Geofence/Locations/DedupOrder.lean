import Geofence.Locations.Accounting
/-!
# The order of applied sequence numbers

The gate reads `last_seq` and upserts it without a condition. That the value never falls is the
work of the advisory lock: a COMMIT is the atomic transaction on the tables it commits to, so the
value the gate compared with is the committed one.
-/

namespace Geofence

open Framework

/-- The sequence numbers of a device among the calls applied, in the order of their commits. -/
def appliedSeqs (applied : List ReportCall) (userId : UserId) (deviceId : DeviceId) : List Nat :=
  (applied.filter fun call =>
    call.dto.userId = userId && call.dto.deviceId = some deviceId).filterMap (·.dto.seq)

/-- No device's `last_seq` is lost or falls. -/
def Advanced (before after : EventStateTable) : Prop :=
  ∀ userId deviceId last, before.lastSeq? userId deviceId = some last →
    ∃ last', after.lastSeq? userId deviceId = some last' ∧ last ≤ last'

theorem Advanced.refl (table : EventStateTable) : Advanced table table :=
  fun _ _ last hlast => ⟨last, hlast, Nat.le_refl _⟩

theorem Advanced.trans {a b c : EventStateTable} (hab : Advanced a b) (hbc : Advanced b c) :
    Advanced a c := by
  intro userId deviceId last hlast
  obtain ⟨middle, hmiddle, hle⟩ := hab userId deviceId last hlast
  obtain ⟨final, hfinal, hle'⟩ := hbc userId deviceId middle hmiddle
  exact ⟨final, hfinal, Nat.le_trans hle hle'⟩

/-- What a passed gate does for a device: its own call has a number beyond the one reached and
leaves its number there, any other call leaves what is there. -/
inductive Gated (call : ReportCall) (userId : UserId) (deviceId : DeviceId) :
    Option Nat → Option Nat → Prop where
  | own (seq : Nat) (before : Option Nat) (huser : call.dto.userId = userId)
      (hdevice : call.dto.deviceId = some deviceId) (hseq : call.dto.seq = some seq)
      (hbeyond : ∀ last, before = some last → last < seq) :
    Gated call userId deviceId before (some seq)
  | other (before : Option Nat)
      (h : ∀ seq, call.dto.userId = userId → call.dto.deviceId = some deviceId →
        call.dto.seq ≠ some seq) :
    Gated call userId deviceId before before

private theorem gated_of_dedupGate {call : ReportCall} {db gated : Database}
    (h : dedupGate call db = some gated) (userId : UserId) (deviceId : DeviceId) :
    Gated call userId deviceId (db.eventState.lastSeq? userId deviceId)
      (gated.eventState.lastSeq? userId deviceId) := by
  unfold dedupGate at h
  split at h
  · rename_i device seq hdevice hseq
    split at h
    · cases h
    · rename_i hfresh
      cases h
      by_cases hkey : (call.dto.userId, device) = (userId, deviceId)
      · obtain ⟨huser, heq⟩ := Prod.mk.inj hkey
        rw [← huser, ← heq]
        have hself := db.eventState.lastSeq?_upsert_self
          ⟨call.dto.userId, device, seq, call.recordedAt⟩
        dsimp only at hself ⊢
        rw [hself]
        refine .own seq _ rfl hdevice hseq ?_
        intro last hlast
        rw [hlast] at hfresh
        simpa using hfresh
      · have hne : (db.eventState.upsert
            ⟨call.dto.userId, device, seq, call.recordedAt⟩).lastSeq? userId deviceId =
            db.eventState.lastSeq? userId deviceId :=
          db.eventState.lastSeq?_upsert_of_key_ne hkey
        dsimp only
        rw [hne]
        refine .other _ ?_
        intro seq' huser hdevice' _
        rw [hdevice, Option.some.injEq] at hdevice'
        exact hkey (by rw [huser, hdevice'])
  · rename_i hnone
    cases h
    refine .other _ ?_
    intro seq huser hdevice hseq
    exact hnone deviceId seq hdevice hseq

theorem Gated.advances {call : ReportCall} {userId : UserId} {deviceId : DeviceId}
    {before after : Option Nat} (h : Gated call userId deviceId before after) {last : Nat}
    (hlast : before = some last) : ∃ last', after = some last' ∧ last ≤ last' := by
  cases h with
  | own seq before huser hdevice hseq hbeyond =>
    exact ⟨seq, rfl, Nat.le_of_lt (hbeyond last hlast)⟩
  | other before hother => exact ⟨last, hlast, Nat.le_refl _⟩

/-- The calls applied to a device have rising numbers, none of them beyond what is reached. -/
structure InOrder (seqs : List Nat) (reached : Option Nat) : Prop where
  rising : seqs.Pairwise (· < ·)
  within : ∀ seq ∈ seqs, ∃ last, reached = some last ∧ seq ≤ last

private theorem appliedSeqs_append (applied : List ReportCall) (call : ReportCall) (userId : UserId)
    (deviceId : DeviceId) :
    appliedSeqs (applied ++ [call]) userId deviceId = appliedSeqs applied userId deviceId ++
      if call.dto.userId = userId ∧ call.dto.deviceId = some deviceId then call.dto.seq.toList
      else [] := by
  unfold appliedSeqs
  rw [List.filter_append, List.filterMap_append]
  congr 1
  by_cases hown : call.dto.userId = userId ∧ call.dto.deviceId = some deviceId
  · rw [if_pos hown, List.filter_cons_of_pos (by simp [hown.1, hown.2]), List.filter_nil]
    cases hseq : call.dto.seq with
    | none => simp [hseq]
    | some seq => simp [hseq]
  · rw [if_neg hown, List.filter_cons_of_neg (by simpa using hown), List.filter_nil]
    rfl

theorem InOrder.applied {applied : List ReportCall} {call : ReportCall} {userId : UserId}
    {deviceId : DeviceId} {before after : Option Nat}
    (h : InOrder (appliedSeqs applied userId deviceId) before)
    (hgated : Gated call userId deviceId before after) :
    InOrder (appliedSeqs (applied ++ [call]) userId deviceId) after := by
  rw [appliedSeqs_append]
  cases hgated with
  | own seq before huser hdevice hseq hbeyond =>
    rw [if_pos ⟨huser, hdevice⟩, hseq, Option.toList_some]
    constructor
    · rw [List.pairwise_append]
      refine ⟨h.rising, List.pairwise_singleton _ _, ?_⟩
      intro earlier hearlier new hnew
      obtain ⟨last, hlast, hle⟩ := h.within earlier hearlier
      have hlt := hbeyond last hlast
      rw [List.mem_singleton] at hnew
      omega
    · intro earlier hearlier
      rcases List.mem_append.mp hearlier with hold | hnew
      · obtain ⟨last, hlast, hle⟩ := h.within earlier hold
        have hlt := hbeyond last hlast
        exact ⟨seq, rfl, by omega⟩
      · rw [List.mem_singleton.mp hnew]
        exact ⟨seq, rfl, Nat.le_refl _⟩
  | other before hother =>
    have hnone : (if call.dto.userId = userId ∧ call.dto.deviceId = some deviceId then
        call.dto.seq.toList else []) = [] := by
      split
      · rename_i hown
        cases hseq : call.dto.seq with
        | none => rfl
        | some seq => exact absurd hseq (hother seq hown.1 hown.2)
      · rfl
    rw [hnone, List.append_nil]
    exact h

namespace Cluster

variable {n : Nat} {pg : Postgres} {st t : Cluster n} {action : ClusterAction n}

/-- Any tables, and no transaction open. -/
def startAt (db : Database) : Cluster n := ⟨db, fun _ => none, [], []⟩

private theorem serial_startAt (pg : Postgres) (db : Database) :
    Serial pg (startAt db : Cluster n) := by
  constructor
  · intro p q s s' hs
    cases hs
  · intro p s hs
    cases hs

/-- What a step does to `user_event_state` and the calls applied. -/
inductive EventStateStep (st t : Cluster n) : Prop where
  | kept (hstate : t.db.eventState = st.db.eventState) (happlied : t.applied = st.applied)
  | gated (call : ReportCall) (happlied : t.applied = st.applied ++ [call])
      (h : ∀ userId deviceId, Gated call userId deviceId
        (st.db.eventState.lastSeq? userId deviceId) (t.db.eventState.lastSeq? userId deviceId))

private theorem eventStateStep (h : Serial pg st) (hstep : ClusterStep pg st action t) :
    EventStateStep st t := by
  cases hstep with
  | noChange p call hint => exact .kept rfl rfl
  | opened p call hint hidle => exact .kept rfl rfl
  | statement p s s' hs hadmits hexec => exact .kept rfl rfl
  | aborted _ p haction => exact .kept rfl rfl
  | createArea row db hdb =>
    refine .kept ?_ rfl
    unfold Database.createArea at hdb
    split at hdb
    · cases hdb
    · cases hdb
      rfl
  | committed p s result hs hpc =>
    rcases transaction_gated (h.commit_eq hs hpc) with ⟨-, hdb, hdup⟩ | ⟨gated, hgate, hstate, hdup⟩
    · refine .kept (by rw [hdb]) ?_
      rw [commit, if_pos hdup]
    · refine .gated s.call ?_ ?_
      · rw [commit, if_neg (by rw [hdup]; exact Bool.false_ne_true)]
      · intro userId deviceId
        rw [hstate]
        exact gated_of_dedupGate hgate userId deviceId

/-- What every reachable cluster keeps, from the tables of an earlier one on. -/
structure Ordered (pg : Postgres) (before : EventStateTable) (st : Cluster n) : Prop where
  serial : Serial pg st
  advanced : Advanced before st.db.eventState
  inOrder : ∀ userId deviceId, InOrder (appliedSeqs st.applied userId deviceId)
    (st.db.eventState.lastSeq? userId deviceId)

theorem Ordered.step {before : EventStateTable} (h : Ordered pg before st)
    (hstep : ClusterStep pg st action t) : Ordered pg before t := by
  have hserial := h.serial.step hstep
  cases eventStateStep h.serial hstep with
  | kept hstate happlied =>
    refine ⟨hserial, ?_, ?_⟩
    · rw [hstate]
      exact h.advanced
    · rw [hstate, happlied]
      exact h.inOrder
  | gated call happlied hgated =>
    refine ⟨hserial, h.advanced.trans ?_, ?_⟩
    · intro userId deviceId last hlast
      exact (hgated userId deviceId).advances hlast
    · intro userId deviceId
      rw [happlied]
      exact (h.inOrder userId deviceId).applied (hgated userId deviceId)

theorem ordered_of_run {before : EventStateTable} {actions : List (ClusterAction n)}
    (h : Ordered pg before st) (hrun : (machine pg).run st actions = some t) :
    Ordered pg before t :=
  (machine pg).run_invariant (fun _ _ _ hs hstep => hs.step (step_cases hstep)) h hrun

theorem ordered_startAt (pg : Postgres) (db : Database) :
    Ordered pg db.eventState (startAt db : Cluster n) := by
  refine ⟨serial_startAt pg db, .refl _, ?_⟩
  intro userId deviceId
  exact ⟨.nil, fun seq hseq => nomatch hseq⟩

/-- What the dedup inside the transaction keeps, in a state reached from `db` by `actions`. -/
structure DedupOrder (pg : Postgres) (db : Database) (actions : List (ClusterAction n))
    (st : Cluster n) : Prop where
  /-- The committed `last_seq` never decreases. -/
  lastSeq : ∀ before after u, actions = before ++ after →
    (machine pg).run (startAt db) before = some u → Advanced u.db.eventState st.db.eventState
  /-- Applied calls of a device committed with rising numbers. -/
  increasing : ∀ userId deviceId, (appliedSeqs st.applied userId deviceId).Pairwise (· < ·)
  /-- No number was applied twice. -/
  once : ∀ userId deviceId, (appliedSeqs st.applied userId deviceId).Nodup
  /-- A call that ends as a duplicate leaves every table as it was. -/
  duplicate : ∀ p s result t, st.session p = some s → s.pc = .commit result →
    result.duplicate = true → step pg st (.exec p) = some t →
      t.db = st.db ∧ t.applied = st.applied

theorem dedup_strictly_monotone (pg : Postgres) (db : Database)
    (actions : List (ClusterAction n)) (st : Cluster n)
    (hrun : (machine pg).run (startAt db) actions = some st) :
    DedupOrder pg db actions st := by
  have hordered : Ordered pg db.eventState st := ordered_of_run (ordered_startAt pg db) hrun
  have hincreasing : ∀ userId deviceId,
      (appliedSeqs st.applied userId deviceId).Pairwise (· < ·) :=
    fun userId deviceId => (hordered.inOrder userId deviceId).rising
  refine ⟨?_, hincreasing, ?_, ?_⟩
  · intro before after u hactions hbefore
    obtain ⟨u', hu', hafter⟩ := (machine pg).run_append_eq_some.mp (hactions ▸ hrun)
    rw [hbefore] at hu'
    cases hu'
    have hu : Ordered pg db.eventState u := ordered_of_run (ordered_startAt pg db) hbefore
    have hfrom : Ordered pg u.db.eventState u := ⟨hu.serial, .refl _, hu.inOrder⟩
    exact (ordered_of_run hfrom hafter).advanced
  · intro userId deviceId
    apply (hincreasing userId deviceId).imp
    intro a b hlt
    exact Nat.ne_of_lt hlt
  · intro p s result t hs hpc hdup hstep
    have hcommit : t = st.commit p s result := by
      simp only [step, hs, hpc] at hstep
      split at hstep
      · exact (Option.some.inj hstep).symm
      · cases hstep
    rw [hcommit]
    rcases transaction_gated (hordered.serial.commit_eq hs hpc) with ⟨-, hdb, -⟩ |
      ⟨gated, -, -, hnot⟩
    · exact ⟨hdb, by rw [commit, if_pos hdup]⟩
    · rw [hdup] at hnot
      cases hnot

private def deviceCall (deviceId : DeviceId) (seq recordedAt : Nat) (covering : List AreaId) :
    ReportCall :=
  ⟨{ userId := "u", lat := 1, lng := 1, deviceId := some deviceId, seq := some seq }, recordedAt,
    covering⟩

private def replayRun (p q : Fin 2) : List (ClusterAction 2) :=
  [.report p (deviceCall "d" 1 10 ["a"]) [], .report q (deviceCall "d" 1 11 ["a"]) []] ++
    List.replicate 8 (.exec p) ++ List.replicate 4 (.exec q) ++
    [.report q (deviceCall "d" 2 12 []) ["a"], .exec q, .exec q, .exec q, .exec q, .rollBack q,
      .report p (deviceCall "d" 2 13 []) ["a"], .report q (deviceCall "e" 1 14 ["a"]) []] ++
    List.replicate 7 (.exec p) ++ List.replicate 8 (.exec q)

/-- A replay that is answered as a duplicate, an exit rolled back after its upsert and retried,
and a second device with a counter of its own. -/
theorem dedup_strictly_monotone_replay :
    ∃ st, (machine Externals.reference.pg).run (startAt (.initial sampleAreas)) (replayRun 0 1) =
        some st ∧
      appliedSeqs st.applied "u" "d" = [1, 2] ∧ appliedSeqs st.applied "u" "e" = [1] ∧
      st.db.logs.map (·.recordedAt) = [10, 14] ∧
      DedupOrder Externals.reference.pg (.initial sampleAreas) (replayRun 0 1) st := by
  have hend : ((machine Externals.reference.pg).run (startAt (.initial sampleAreas))
      (replayRun 0 1)).any (fun st => decide (appliedSeqs st.applied "u" "d" = [1, 2] ∧
        appliedSeqs st.applied "u" "e" = [1] ∧ st.db.logs.map (·.recordedAt) = [10, 14])) =
          true := by
    decide +kernel
  obtain ⟨st, hrun, hfirst, hsecond, hlogs⟩ := Machine.exists_end _ hend
  exact ⟨st, hrun, hfirst, hsecond, hlogs, dedup_strictly_monotone _ _ (replayRun 0 1) st hrun⟩

end Cluster

end Geofence
