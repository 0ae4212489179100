import Geofence.Locations.Hints
import Geofence.Locations.Sessions
import Geofence.Worker.Dedup
/-!
# The dedup map of one device

The events of one device, one after another through `processEvent`, with the `report` each of them
comes to. What others do in between may change the service in any way but for the row the device
has in `user_event_state`.
-/

namespace Geofence

open Framework

/-- The worker, and what became of each event of the device so far. -/
structure DeviceRun where
  consumer : ConsumerState
  outcomes : List (LocationEventV1 × Outcome)

inductive DeviceAction where
  | processes (event : LocationEventV1) (readError : Option PgError) (answers : Answers)
  | elsewhere (service : ServiceState)

/-- The `last_seq` of the device's row, if it has one. -/
def ServiceState.lastSeq? (service : ServiceState) (device : Device) : Option Nat :=
  service.db.eventState.lastSeq? device.userId device.deviceId

namespace DeviceRun

def start (service : ServiceState) : DeviceRun := ⟨⟨service, fun _ => none, 0, 0⟩, []⟩

def step (ext : Externals) (device : Device) (st : DeviceRun) : DeviceAction → Option DeviceRun
  | .processes event readError answers =>
    if event.device? = some device then
      let (consumer, outcome) := st.consumer.processEvent ext event readError answers
      some ⟨consumer, st.outcomes ++ [(event, outcome)]⟩
    else none
  | .elsewhere service =>
    if service.lastSeq? device = st.consumer.service.lastSeq? device then
      some { st with consumer := { st.consumer with service } }
    else none

def machine (ext : Externals) (device : Device) : Machine DeviceRun DeviceAction :=
  ⟨step ext device⟩

/-- The seq of an event that was processed successfully. -/
def seqOf : LocationEventV1 × Outcome → Option Nat
  | (event, .processed) => event.seq
  | _ => none

def processedSeqs (st : DeviceRun) : List Nat := st.outcomes.filterMap seqOf

end DeviceRun

/-- The table had a seq at least as high, or this process has processed one. -/
def Seen (lastSeq : Option Nat) (processed : List Nat) (seq : Nat) : Prop :=
  (∃ last, lastSeq = some last ∧ seq ≤ last) ∨ ∃ other ∈ processed, seq ≤ other

/-- The value an event of the device is compared with: the map's, or the table's on first sight. -/
def ConsumerState.comparedWith (st : ConsumerState) (device : Device) : Nat :=
  (st.lastSeqByDevice device.key).getD ((st.service.lastSeq? device).getD 0)

section Gate

variable {st : ConsumerState} {event : LocationEventV1} {device : Device} {seq : Nat}

private theorem dedupKey_of_device (hevent : event.device? = some device) :
    dedupKey event.userId device.deviceId = device.key := by
  rw [(device?_eq_some hevent).1]
  rfl

private theorem lastSeq_of_device (st : ConsumerState) (hevent : event.device? = some device) :
    st.service.db.eventState.lastSeq? event.userId device.deviceId =
      st.service.lastSeq? device := by
  rw [(device?_eq_some hevent).1]
  rfl

/-- What the gate comes to for an event of the device: it compares with one value and leaves that
value in the map, or the read of the row has failed. -/
theorem gate_cases (hevent : event.device? = some device) (hseq : event.seq = some seq)
    (readError : Option PgError) :
    (∃ e, readError = some e ∧ st.lastSeqByDevice device.key = none ∧
      st.gate event readError = (st.caught (.queryFailed e), some (.failed (.queryFailed e)))) ∨
    ∃ map, map device.key = some (st.comparedWith device) ∧
      st.gate event readError = ({ st with lastSeqByDevice := map },
        if seq ≤ st.comparedWith device then some .duplicate else none) := by
  have hdevice := (device?_eq_some hevent).2.1
  have hkey := dedupKey_of_device hevent
  have hrow := lastSeq_of_device st hevent
  unfold ConsumerState.gate isDuplicate ConsumerState.comparedWith
  simp only [hdevice, hseq, hkey, hrow]
  cases hlast : st.lastSeqByDevice device.key with
  | some last =>
    refine Or.inr ⟨st.lastSeqByDevice, hlast, ?_⟩
    by_cases hle : seq ≤ last
    · simp [hle]
    · simp [hle]
  | none =>
    cases readError with
    | some e => exact Or.inl ⟨e, rfl, rfl, rfl⟩
    | none =>
      refine Or.inr ⟨Function.update st.lastSeqByDevice device.key
        (some ((st.service.lastSeq? device).getD 0)), Function.update_self .., ?_⟩
      by_cases hle : seq ≤ (st.service.lastSeq? device).getD 0
      · simp [hle]
      · simp [hle]

theorem processEvent_duplicate_iff (ext : Externals) (hevent : event.device? = some device)
    (hseq : event.seq = some seq) (answers : Answers) :
    (st.processEvent ext event none answers).2 = .duplicate ↔ seq ≤ st.comparedWith device := by
  rcases gate_cases hevent hseq none with ⟨e, he, -⟩ | ⟨map, -, hgate⟩
  · cases he
  · unfold ConsumerState.processEvent
    rw [hgate]
    by_cases hle : seq ≤ st.comparedWith device
    · simp [hle]
    · simp only [hle, if_false, iff_false]
      unfold ConsumerState.reportEvent
      dsimp only
      split
      · intro h
        cases h
      · intro h
        cases h

end Gate

private theorem report_eventState (ext : Externals) (st : ServiceState) (event : LocationEventV1)
    (recordedAt : Timestamp) (answers : Answers) :
    (report ext st event.reportDto recordedAt answers).state.db.eventState = st.db.eventState := by
  rcases report_writes ext st event.reportDto recordedAt answers with
    hsame | ⟨current, result, -, htx⟩
  · rw [hsame]
  · rcases transaction_gated htx with ⟨-, hdb, -⟩ | ⟨gated, hgate, hstate, -⟩
    · rw [hdb]
    · cases hgate
      exact hstate

section Processed

variable {ext : Externals} {st : ConsumerState} {event : LocationEventV1} {device : Device}
  {seq : Nat}

private theorem caught_compares (st : ConsumerState) (e : ServiceError) (device : Device) :
    (st.caught e).comparedWith device = st.comparedWith device ∧
      (st.caught e).service = st.service := by
  unfold ConsumerState.caught
  split
  · exact ⟨rfl, rfl⟩
  · exact ⟨rfl, rfl⟩

/-- The row stays as it is, and only an event that was processed moves the value that the next
one is compared with. -/
structure Compares (before after : ConsumerState) (device : Device) (seq : Nat)
    (outcome : Outcome) : Prop where
  row : after.service.lastSeq? device = before.service.lastSeq? device
  processed : outcome = .processed →
    after.comparedWith device = max (before.comparedWith device) seq
  otherwise : outcome ≠ .processed → after.comparedWith device = before.comparedWith device

private theorem reportEvent_compares (ext : Externals) (st : ConsumerState)
    (hevent : event.device? = some device) (hseq : event.seq = some seq) {last : Nat}
    (hlast : st.lastSeqByDevice device.key = some last) (answers : Answers) :
    Compares st (st.reportEvent ext event answers).1 device seq
      (st.reportEvent ext event answers).2 := by
  have htable := report_eventState ext st.service event event.receivedAt answers
  have hdevice := (device?_eq_some hevent).2.1
  have hkey := dedupKey_of_device hevent
  have hbefore : st.comparedWith device = last := by simp [ConsumerState.comparedWith, hlast]
  unfold ConsumerState.reportEvent
  dsimp only
  split
  · refine ⟨?_, ?_, fun h => absurd rfl h⟩
    · simp only [ServiceState.lastSeq?, htable]
    · intro _
      rw [hbefore]
      simp only [ConsumerState.comparedWith, rememberSeq, hdevice, hseq, hkey, hlast,
        Option.getD_some]
      by_cases hlt : last < seq
      · rw [if_pos hlt, Function.update_self, Option.getD_some]
        omega
      · rw [if_neg hlt, hlast, Option.getD_some]
        omega
  · rename_i e herror
    obtain ⟨hcompared, hservice⟩ := caught_compares
      { st with service := (report ext st.service event.reportDto event.receivedAt answers).state }
      e device
    refine ⟨?_, ?_, fun _ => ?_⟩
    · rw [hservice]
      simp only [ServiceState.lastSeq?, htable]
    · intro h
      cases h
    · rw [hcompared]
      simp [ConsumerState.comparedWith, hlast]

private theorem processEvent_compares (hevent : event.device? = some device)
    (hseq : event.seq = some seq) (readError : Option PgError) (answers : Answers) :
    Compares st (st.processEvent ext event readError answers).1 device seq
      (st.processEvent ext event readError answers).2 := by
  unfold ConsumerState.processEvent
  rcases gate_cases hevent hseq readError with ⟨e, -, -, hgate⟩ | ⟨map, hmap, hgate⟩
  · rw [hgate]
    obtain ⟨hcompared, hservice⟩ := caught_compares st (.queryFailed e) device
    exact ⟨by rw [hservice], fun h => (nomatch h), fun _ => hcompared⟩
  · have hsame : ConsumerState.comparedWith { st with lastSeqByDevice := map } device =
        st.comparedWith device := by
      change (map device.key).getD _ = _
      rw [hmap, Option.getD_some]
    rw [hgate]
    by_cases hle : seq ≤ st.comparedWith device
    · rw [if_pos hle]
      exact ⟨rfl, fun h => (nomatch h), fun _ => hsame⟩
    · rw [if_neg hle]
      have hreport := reportEvent_compares ext { st with lastSeqByDevice := map } hevent hseq hmap
        answers
      exact ⟨hreport.row, fun h => (hreport.processed h).trans (by rw [hsame]),
        fun h => (hreport.otherwise h).trans hsame⟩

end Processed

namespace DeviceRun

variable {ext : Externals} {device : Device} {row : Option Nat}

/-- What the runs of a device's events keep: the value compared with is the highest of the row's
seq, or zero, and those processed. -/
structure Tracks (device : Device) (row : Option Nat) (st : DeviceRun) : Prop where
  table : st.consumer.service.lastSeq? device = row
  least : row.getD 0 ≤ st.consumer.comparedWith device
  bound : ∀ seq ∈ st.processedSeqs, seq ≤ st.consumer.comparedWith device
  reached : st.consumer.comparedWith device = row.getD 0 ∨
    st.consumer.comparedWith device ∈ st.processedSeqs

private theorem tracks_start (service : ServiceState) :
    Tracks device (service.lastSeq? device) (start service) :=
  ⟨rfl, Nat.le_refl _, fun _ h => (nomatch h), Or.inl rfl⟩

private theorem processedSeqs_append (consumer : ConsumerState)
    (outcomes : List (LocationEventV1 × Outcome)) (last : LocationEventV1 × Outcome) :
    processedSeqs ⟨consumer, outcomes ++ [last]⟩ =
      outcomes.filterMap seqOf ++ (seqOf last).toList := by
  unfold processedSeqs
  rw [List.filterMap_append]
  cases h : seqOf last with
  | none => simp [h]
  | some seq => simp [h]

theorem Tracks.processes {st : DeviceRun} (h : Tracks device row st) {event : LocationEventV1}
    {after : ConsumerState} {outcome : Outcome} {seq : Nat} (hseq : event.seq = some seq)
    (hcompares : Compares st.consumer after device seq outcome) :
    Tracks device row ⟨after, st.outcomes ++ [(event, outcome)]⟩ := by
  have hrow : after.service.lastSeq? device = row := hcompares.row.trans h.table
  by_cases hprocessed : outcome = .processed
  · subst hprocessed
    have hnow := hcompares.processed rfl
    have hseqs : processedSeqs ⟨after, st.outcomes ++ [(event, .processed)]⟩ =
        st.processedSeqs ++ [seq] := by
      rw [processedSeqs_append, seqOf, hseq]
      rfl
    refine ⟨hrow, ?_, ?_, ?_⟩
    · rw [hnow]
      exact h.least.trans (Nat.le_max_left _ _)
    · intro other hother
      rw [hseqs, List.mem_append, List.mem_singleton] at hother
      rw [hnow]
      rcases hother with hother | rfl
      · exact (h.bound other hother).trans (Nat.le_max_left _ _)
      · exact Nat.le_max_right _ _
    · rw [hseqs, hnow]
      rcases Nat.le_total seq (st.consumer.comparedWith device) with hle | hle
      · rw [Nat.max_eq_left hle]
        rcases h.reached with heq | hmem
        · exact Or.inl heq
        · exact Or.inr (List.mem_append_left _ hmem)
      · rw [Nat.max_eq_right hle]
        exact Or.inr (List.mem_append_right _ (List.mem_singleton_self seq))
  · have hnow := hcompares.otherwise hprocessed
    have hnone : seqOf (event, outcome) = none := by
      cases outcome with
      | processed => exact absurd rfl hprocessed
      | malformed => rfl
      | duplicate => rfl
      | failed e => rfl
    have hseqs : processedSeqs ⟨after, st.outcomes ++ [(event, outcome)]⟩ = st.processedSeqs := by
      rw [processedSeqs_append, hnone]
      exact List.append_nil _
    refine ⟨hrow, ?_, ?_, ?_⟩
    · rw [hnow]
      exact h.least
    · rw [hseqs, hnow]
      exact h.bound
    · rw [hseqs, hnow]
      exact h.reached

theorem Tracks.elsewhere {st : DeviceRun} (h : Tracks device row st) {service : ServiceState}
    (hservice : service.lastSeq? device = st.consumer.service.lastSeq? device) :
    Tracks device row { st with consumer := { st.consumer with service } } := by
  have hnow : ConsumerState.comparedWith { st.consumer with service } device =
      st.consumer.comparedWith device := by
    unfold ConsumerState.comparedWith
    rw [hservice]
  refine ⟨hservice.trans h.table, ?_, ?_, ?_⟩
  · rw [hnow]
    exact h.least
  · rw [hnow]
    exact h.bound
  · rw [hnow]
    exact h.reached

theorem Tracks.step {st t : DeviceRun} {action : DeviceAction} (h : Tracks device row st)
    (hstep : DeviceRun.step ext device st action = some t) : Tracks device row t := by
  cases action with
  | processes event readError answers =>
    simp only [DeviceRun.step] at hstep
    split at hstep
    · rename_i hevent
      cases hstep
      obtain ⟨-, -, seq, hseq⟩ := device?_eq_some hevent
      exact h.processes hseq (processEvent_compares hevent hseq readError answers)
    · cases hstep
  | elsewhere service =>
    simp only [DeviceRun.step] at hstep
    split at hstep
    · rename_i hservice
      cases hstep
      exact h.elsewhere hservice
    · cases hstep

private theorem tracks_run {service : ServiceState} {actions : List DeviceAction} {st : DeviceRun}
    (hrun : (machine ext device).run (start service) actions = some st) :
    Tracks device (service.lastSeq? device) st :=
  (machine ext device).run_invariant (fun _ _ _ h hstep => h.step hstep) (tracks_start service) hrun

/-- The value compared with stands for what was seen, but for a seq of zero before anything
was. -/
private theorem Tracks.compares_iff {st : DeviceRun} (h : Tracks device row st) (seq : Nat) :
    (seq ≤ st.consumer.comparedWith device ↔ Seen row st.processedSeqs seq) ↔
      row.isSome = true ∨ 0 < seq ∨ st.processedSeqs ≠ [] := by
  have hseen : Seen row st.processedSeqs seq → seq ≤ st.consumer.comparedWith device := by
    rintro (⟨last, rfl, hle⟩ | ⟨other, hother, hle⟩)
    · exact hle.trans h.least
    · exact hle.trans (h.bound other hother)
  constructor
  · intro hiff
    by_contra hnot
    simp only [not_or, Bool.not_eq_true, Option.isSome_eq_false_iff, Option.isNone_iff_eq_none,
      Nat.not_lt, Nat.le_zero, ne_eq, not_not] at hnot
    obtain ⟨hrow, hzero, hnil⟩ := hnot
    rcases hiff.mp (by rw [hzero]; exact Nat.zero_le _) with ⟨last, hlast, -⟩ | ⟨other, hother, -⟩
    · rw [hrow] at hlast
      cases hlast
    · rw [hnil] at hother
      cases hother
  · intro hcond
    refine ⟨fun hle => ?_, hseen⟩
    rcases h.reached with heq | hmem
    · rw [heq] at hle
      cases hrow : row with
      | some last =>
        rw [hrow, Option.getD_some] at hle
        exact Or.inl ⟨last, rfl, hle⟩
      | none =>
        rw [hrow, Option.getD_none] at hle
        rcases hcond with hsome | hpos | hne
        · rw [hrow] at hsome
          cases hsome
        · omega
        · obtain ⟨other, hother⟩ := List.exists_mem_of_ne_nil _ hne
          exact Or.inr ⟨other, hother, by omega⟩
    · exact Or.inr ⟨_, hmem, hle⟩

/-- After any run of its events, an event of the device is acked as a duplicate if and only if its
seq was seen, in exactly the cases where the device has a row, the seq is not zero, or an event of
the device has been processed. -/
theorem duplicate_iff_seen_iff (ext : Externals) (device : Device) (service : ServiceState)
    (actions : List DeviceAction) (st : DeviceRun)
    (hrun : (machine ext device).run (start service) actions = some st)
    (event : LocationEventV1) (seq : Nat) (hevent : event.device? = some device)
    (hseq : event.seq = some seq) (answers : Answers) :
    ((st.consumer.processEvent ext event none answers).2 = .duplicate ↔
        Seen (service.lastSeq? device) st.processedSeqs seq) ↔
      (service.lastSeq? device).isSome = true ∨ 0 < seq ∨ st.processedSeqs ≠ [] := by
  rw [processEvent_duplicate_iff ext hevent hseq answers]
  exact (tracks_run hrun).compares_iff seq

private def phone : Device := ⟨"u", "d"⟩

private def unseen : ServiceState where
  db := .initial sampleAreas
  snapshot := some ⟨1, sampleAreas⟩
  memory := some .empty

private def insideWith (seq : Nat) : LocationEventV1 where
  eventId := seq
  userId := phone.userId
  deviceId := some phone.deviceId
  seq := some seq
  lat := 1
  lng := 1
  receivedAt := 10

private def retriedRun : List DeviceAction :=
  [.processes (insideWith 3) none { fate := .rolledBack ⟨"57014", none⟩ },
    .processes (insideWith 3) none {}]

/-- An event that failed is processed when it comes back, and then the lower ones, zero included,
are duplicates. -/
theorem duplicate_iff_seen_retried :
    ∃ st, (machine .reference phone).run (start unseen) retriedRun = some st ∧
      st.processedSeqs = [3] ∧ Seen (unseen.lastSeq? phone) st.processedSeqs 0 ∧
      (st.consumer.processEvent .reference (insideWith 0) none {}).2 = .duplicate := by
  have hend : ((machine .reference phone).run (start unseen) retriedRun).any
      (fun st => st.processedSeqs = [3]) = true := by
    decide +kernel
  obtain ⟨st, hrun, hseqs⟩ := Machine.exists_end _ hend
  have hseen : Seen (unseen.lastSeq? phone) st.processedSeqs 0 :=
    Or.inr ⟨3, by rw [hseqs]; exact List.mem_singleton_self 3, Nat.zero_le 3⟩
  have hiff := (duplicate_iff_seen_iff .reference phone unseen retriedRun st hrun (insideWith 0) 0
    rfl rfl {}).mpr (Or.inr (Or.inr (by rw [hseqs]; exact List.cons_ne_nil 3 [])))
  exact ⟨st, hrun, hseqs, hseen, hiff.mpr hseen⟩

/-- The very first event of a device, with seq zero: nothing was seen of it, and it is acked as a
duplicate and leaves no log row. With seq one it leaves one. -/
theorem first_event_dropped :
    ¬ ((((start unseen).consumer.processEvent .reference (insideWith 0) none {}).2 = .duplicate ↔
        Seen (unseen.lastSeq? phone) (start unseen).processedSeqs 0)) ∧
      ((start unseen).consumer.processEvent .reference (insideWith 0) none {}).1.service.db.logs =
        [] ∧
      ((start unseen).consumer.processEvent .reference (insideWith 1) none {}).1.service.db.logs =
        [⟨"u", "a", 10, none⟩] := by
  have hduplicate :
      ((start unseen).consumer.processEvent .reference (insideWith 0) none {}).2 = .duplicate := by
    have hdevice : (insideWith 0).device? = some phone := rfl
    have hseq : (insideWith 0).seq = some 0 := rfl
    apply (processEvent_duplicate_iff .reference hdevice hseq {}).mpr
    exact Nat.zero_le _
  refine ⟨?_, by decide +kernel, by decide +kernel⟩
  intro hiff
  rcases hiff.mp hduplicate with ⟨last, hlast, -⟩ | ⟨other, hother, -⟩
  · cases hlast
  · cases hother

end DeviceRun

end Geofence
