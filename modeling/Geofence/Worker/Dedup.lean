import Geofence.Framework.Machine
import Geofence.Worker.Consumer
/-!
# The dedup map between devices

`isDuplicate` and `rememberSeq` in the tasks of all users at once. A user's tasks run one after
the other; between users every `await` is a point where another task may come in, also the one
between the look into `lastSeqByDevice` and the write of what the table had. How `report` ends is
up to the environment.
-/

namespace Geofence

open Framework

deriving instance DecidableEq for LocationEventV1

/-- A device of a user. -/
structure Device where
  userId : UserId
  deviceId : DeviceId
  deriving DecidableEq, Repr

def Device.key (device : Device) : String := dedupKey device.userId device.deviceId

/-- The device of an event; a legacy event carries no dedup identity. -/
def LocationEventV1.device? (event : LocationEventV1) : Option Device :=
  match event.deviceId, event.seq with
  | some deviceId, some _ => some ⟨event.userId, deviceId⟩
  | _, _ => none

/-- `isDuplicate` up to its `await`: the answer, where the map has one. -/
def knownVerdict (lastSeqByDevice : LastSeqByDevice) (event : LocationEventV1) : Option Bool :=
  match event.deviceId, event.seq with
  | some deviceId, some seq =>
    (lastSeqByDevice (dedupKey event.userId deviceId)).map fun lastSeq => decide (seq ≤ lastSeq)
  | _, _ => some false

/-- The rest of `isDuplicate`, with the row it has read. -/
def loadVerdict (lastSeqByDevice : LastSeqByDevice) (table : EventStateTable)
    (event : LocationEventV1) : LastSeqByDevice × Bool :=
  match event.deviceId, event.seq with
  | some deviceId, some seq =>
    let lastSeq := (table.lastSeq? event.userId deviceId).getD 0
    (Function.update lastSeqByDevice (dedupKey event.userId deviceId) (some lastSeq),
      decide (seq ≤ lastSeq))
  | _, _ => (lastSeqByDevice, false)

/-- Run without interruption, the two parts are `isDuplicate`. -/
theorem isDuplicate_eq (lastSeqByDevice : LastSeqByDevice) (table : EventStateTable)
    (event : LocationEventV1) (readError : Option PgError) :
    isDuplicate lastSeqByDevice table event readError =
      match knownVerdict lastSeqByDevice event, readError with
      | some verdict, _ => .ok (lastSeqByDevice, verdict)
      | none, some e => .error (.queryFailed e)
      | none, none => .ok (loadVerdict lastSeqByDevice table event) := by
  unfold isDuplicate knownVerdict loadVerdict
  cases hdevice : event.deviceId with
  | none => rfl
  | some deviceId =>
    cases hseq : event.seq with
    | none => rfl
    | some seq =>
      cases hlast : lastSeqByDevice (dedupKey event.userId deviceId) with
      | none => cases readError <;> simp [hlast]
      | some lastSeq => simp [hlast]

/-- The `await` of a task: `isDuplicate`, with what the map knew when it was called, or `report`. -/
inductive DedupStage where
  | gating (known : Option Bool)
  | reporting
  deriving DecidableEq, Repr

/-- The map, the table it is loaded from, the task at work for each user, and the verdicts given
so far. -/
structure DedupRun where
  lastSeqByDevice : LastSeqByDevice
  eventState : EventStateTable
  working : UserId → Option (LocationEventV1 × DedupStage)
  verdicts : List (LocationEventV1 × Bool)

inductive DedupAction where
  | begins (event : LocationEventV1)
  | judges (event : LocationEventV1) (readError : Option PgError)
  | reports (event : LocationEventV1) (succeeded : Bool)
  | upserts (row : EventStateRow)

namespace DedupRun

/-- A worker that has just started: its map is empty. -/
def start (table : EventStateTable) : DedupRun := ⟨fun _ => none, table, fun _ => none, []⟩

/-- A duplicate is acked and its task is over; any other event goes on to `report`. -/
def judge (st : DedupRun) (event : LocationEventV1) (verdict : Bool) : DedupRun :=
  { st with
    working := Function.update st.working event.userId
      (if verdict then none else some (event, .reporting))
    verdicts := st.verdicts ++ [(event, verdict)] }

def leave (st : DedupRun) (userId : UserId) : DedupRun :=
  { st with working := Function.update st.working userId none }

def step (st : DedupRun) : DedupAction → Option DedupRun
  | .begins event =>
    match st.working event.userId with
    | some _ => none
    | none =>
      some { st with
        working := Function.update st.working event.userId
          (some (event, .gating (knownVerdict st.lastSeqByDevice event))) }
  | .judges event readError =>
    match st.working event.userId with
    | some (working, .gating known) =>
      if working = event then
        match known, readError with
        | some verdict, _ => some (st.judge event verdict)
        | none, some _ => some (st.leave event.userId)
        | none, none =>
          some ({ st with
            lastSeqByDevice := (loadVerdict st.lastSeqByDevice st.eventState event).1 }.judge
              event (loadVerdict st.lastSeqByDevice st.eventState event).2)
      else none
    | _ => none
  | .reports event succeeded =>
    match st.working event.userId with
    | some (working, .reporting) =>
      if working = event then
        some ({ st with
          lastSeqByDevice :=
            if succeeded then rememberSeq st.lastSeqByDevice event else st.lastSeqByDevice }.leave
              event.userId)
      else none
    | _ => none
  | .upserts row => some { st with eventState := st.eventState.upsert row }

def machine : Machine DedupRun DedupAction := ⟨step⟩

end DedupRun

/-- The event an action is about. -/
def DedupAction.event? : DedupAction → Option LocationEventV1
  | .begins event | .judges event _ | .reports event _ => some event
  | .upserts _ => none

/-- The action is not about an event of another device, nor about a legacy event. -/
def DedupAction.isOf (device : Device) (action : DedupAction) : Bool :=
  action.event?.all fun event => decide (event.device? = some device)

theorem device?_eq_some {event : LocationEventV1} {device : Device}
    (h : event.device? = some device) : event.userId = device.userId ∧
      event.deviceId = some device.deviceId ∧ ∃ seq, event.seq = some seq := by
  unfold LocationEventV1.device? at h
  cases hdevice : event.deviceId with
  | none => simp [hdevice] at h
  | some deviceId =>
    cases hseq : event.seq with
    | none => simp [hdevice, hseq] at h
    | some seq =>
      simp only [hdevice, hseq, Option.some.injEq] at h
      subst h
      exact ⟨rfl, rfl, seq, rfl⟩

theorem device?_eq_none {event : LocationEventV1} (h : event.device? = none) :
    event.deviceId = none ∨ event.seq = none := by
  unfold LocationEventV1.device? at h
  cases hdevice : event.deviceId with
  | none => exact Or.inl rfl
  | some deviceId =>
    cases hseq : event.seq with
    | none => exact Or.inr rfl
    | some seq => simp [hdevice, hseq] at h

section Entries

variable {map map' : LastSeqByDevice} {event : LocationEventV1} {device : Device}

private theorem knownVerdict_congr (hevent : event.device? = some device)
    (hmap : map' device.key = map device.key) :
    knownVerdict map' event = knownVerdict map event := by
  obtain ⟨huser, hdevice, seq, hseq⟩ := device?_eq_some hevent
  have hkey : map' (dedupKey event.userId device.deviceId) =
      map (dedupKey event.userId device.deviceId) := by
    rw [huser]
    exact hmap
  simp only [knownVerdict, hdevice, hseq, hkey]

private theorem loadVerdict_congr (map map' : LastSeqByDevice) {table table' : EventStateTable}
    (htable : table' = table) (hevent : event.device? = some device) :
    (loadVerdict map' table' event).1 device.key = (loadVerdict map table event).1 device.key ∧
      (loadVerdict map' table' event).2 = (loadVerdict map table event).2 := by
  obtain ⟨huser, hdevice, seq, hseq⟩ := device?_eq_some hevent
  have hkey : device.key = dedupKey event.userId device.deviceId := by
    rw [huser]
    rfl
  simp [loadVerdict, hdevice, hseq, hkey, htable]

private theorem rememberSeq_congr (hevent : event.device? = some device)
    (hmap : map' device.key = map device.key) :
    rememberSeq map' event device.key = rememberSeq map event device.key := by
  obtain ⟨huser, hdevice, seq, hseq⟩ := device?_eq_some hevent
  have hkey : device.key = dedupKey event.userId device.deviceId := by
    rw [huser]
    rfl
  rw [hkey] at hmap ⊢
  simp only [rememberSeq, hdevice, hseq, hmap]
  split
  · simp
  · exact hmap

private theorem loadVerdict_of_ne (table : EventStateTable) {key : String}
    (hother : ∀ other, event.device? = some other → other.key ≠ key) :
    (loadVerdict map table event).1 key = map key := by
  cases hevent : event.device? with
  | none => rcases device?_eq_none hevent with hnone | hnone <;> simp [loadVerdict, hnone]
  | some other =>
    obtain ⟨huser, hdevice, seq, hseq⟩ := device?_eq_some hevent
    have hne : key ≠ dedupKey event.userId other.deviceId := by
      rw [huser]
      exact (hother other hevent).symm
    simp [loadVerdict, hdevice, hseq, Function.update_of_ne hne]

private theorem rememberSeq_of_ne {key : String}
    (hother : ∀ other, event.device? = some other → other.key ≠ key) :
    rememberSeq map event key = map key := by
  cases hevent : event.device? with
  | none => rcases device?_eq_none hevent with hnone | hnone <;> simp [rememberSeq, hnone]
  | some other =>
    obtain ⟨huser, hdevice, seq, hseq⟩ := device?_eq_some hevent
    have hne : key ≠ dedupKey event.userId other.deviceId := by
      rw [huser]
      exact (hother other hevent).symm
    simp only [rememberSeq, hdevice, hseq]
    split
    · rw [Function.update_of_ne hne]
    · rfl

end Entries

theorem isOf_event {device : Device} {a : DedupAction} {event : LocationEventV1}
    (hof : a.isOf device = true) (hevent : a.event? = some event) :
    event.device? = some device := by
  simpa [DedupAction.isOf, hevent] using hof

namespace DedupRun

/-- Everything a step can do. -/
inductive DedupStep (st : DedupRun) : DedupAction → DedupRun → Prop
  | begins (event : LocationEventV1) : st.working event.userId = none →
    DedupStep st (.begins event) { st with
      working := Function.update st.working event.userId
        (some (event, .gating (knownVerdict st.lastSeqByDevice event))) }
  | known (event : LocationEventV1) (readError : Option PgError) (verdict : Bool) :
    st.working event.userId = some (event, .gating (some verdict)) →
    DedupStep st (.judges event readError) (st.judge event verdict)
  | unread (event : LocationEventV1) (e : PgError) :
    st.working event.userId = some (event, .gating none) →
    DedupStep st (.judges event (some e)) (st.leave event.userId)
  | loads (event : LocationEventV1) : st.working event.userId = some (event, .gating none) →
    DedupStep st (.judges event none)
      ({ st with
        lastSeqByDevice := (loadVerdict st.lastSeqByDevice st.eventState event).1 }.judge
          event (loadVerdict st.lastSeqByDevice st.eventState event).2)
  | reports (event : LocationEventV1) (succeeded : Bool) :
    st.working event.userId = some (event, .reporting) →
    DedupStep st (.reports event succeeded)
      ({ st with
        lastSeqByDevice :=
          if succeeded then rememberSeq st.lastSeqByDevice event else st.lastSeqByDevice }.leave
            event.userId)
  | upserts (row : EventStateRow) :
    DedupStep st (.upserts row) { st with eventState := st.eventState.upsert row }

theorem step_iff {st st' : DedupRun} {action : DedupAction} :
    st.step action = some st' ↔ DedupStep st action st' := by
  constructor
  · intro h
    cases action with
    | begins event =>
      simp only [step] at h
      cases hworking : st.working event.userId with
      | some w => simp [hworking] at h
      | none =>
        simp only [hworking, Option.some.injEq] at h
        subst h
        exact .begins event hworking
    | judges event readError =>
      simp only [step] at h
      rcases hworking : st.working event.userId with _ | ⟨working, known | _⟩
      · simp [hworking] at h
      · by_cases heq : working = event
        · subst heq
          rcases known with _ | verdict
          · rcases readError with _ | e
            · simp only [hworking, if_true, Option.some.injEq] at h
              subst h
              exact .loads working hworking
            · simp only [hworking, if_true, Option.some.injEq] at h
              subst h
              exact .unread working e hworking
          · simp only [hworking, if_true, Option.some.injEq] at h
            subst h
            exact .known working readError verdict hworking
        · simp [hworking, heq] at h
      · simp [hworking] at h
    | reports event succeeded =>
      simp only [step] at h
      rcases hworking : st.working event.userId with _ | ⟨working, known | _⟩
      · simp [hworking] at h
      · simp [hworking] at h
      · by_cases heq : working = event
        · subst heq
          simp only [hworking, if_true, Option.some.injEq] at h
          subst h
          exact .reports working succeeded hworking
        · simp [hworking, heq] at h
    | upserts row =>
      cases h
      exact .upserts row
  · intro h
    cases h with
    | begins event hworking => simp [step, hworking]
    | known event readError verdict hworking => simp [step, hworking]
    | unread event e hworking => simp [step, hworking]
    | loads event hworking => simp [step, hworking]
    | reports event succeeded hworking => simp [step, hworking]
    | upserts row => rfl

/-- An action about another device is about another key. -/
def OtherKey (device : Device) (a : DedupAction) : Prop :=
  ∀ event other, a.event? = some event → event.device? = some other → other ≠ device →
    other.key ≠ device.key

/-- What the run of one device's events has in common with the run they were taken from. -/
structure Isolates (device : Device) (full alone : DedupRun) : Prop where
  entry : alone.lastSeqByDevice device.key = full.lastSeqByDevice device.key
  table : alone.eventState = full.eventState
  working : alone.working device.userId =
    (full.working device.userId).filter fun w => decide (w.1.device? = some device)
  verdicts : alone.verdicts =
    full.verdicts.filter fun v => decide (v.1.device? = some device)

namespace Isolates

variable {device : Device} {full full' alone : DedupRun} {event : LocationEventV1}

theorem start (device : Device) (table : EventStateTable) :
    Isolates device (start table) (start table) :=
  ⟨rfl, rfl, rfl, rfl⟩

theorem working_of_event (h : Isolates device full alone) (hevent : event.device? = some device)
    {stage : DedupStage} (hworking : full.working event.userId = some (event, stage)) :
    alone.working event.userId = some (event, stage) := by
  have huser := (device?_eq_some hevent).1
  rw [huser] at hworking ⊢
  rw [h.working, hworking]
  simp [hevent]

/-- The two sides move on together with an event of the device. -/
theorem move (h : Isolates device full alone) (hevent : event.device? = some device)
    {map map' : LastSeqByDevice} (hmap : map' device.key = map device.key)
    (next : Option (LocationEventV1 × DedupStage)) (hnext : ∀ w, next = some w → w.1 = event)
    (given : List (LocationEventV1 × Bool)) (hgiven : ∀ v ∈ given, v.1 = event) :
    Isolates device
      { full with
        lastSeqByDevice := map
        working := Function.update full.working event.userId next
        verdicts := full.verdicts ++ given }
      { alone with
        lastSeqByDevice := map'
        working := Function.update alone.working event.userId next
        verdicts := alone.verdicts ++ given } := by
  have huser := (device?_eq_some hevent).1
  refine ⟨hmap, h.table, ?_, ?_⟩
  · change Function.update alone.working event.userId next device.userId =
      (Function.update full.working event.userId next device.userId).filter _
    rw [huser, Function.update_self, Function.update_self]
    cases hnext' : next with
    | none => rfl
    | some w =>
      have hw := hnext w hnext'
      rw [Option.filter_some, hw, hevent]
      simp
  · change alone.verdicts ++ given = (full.verdicts ++ given).filter _
    rw [List.filter_append, ← h.verdicts]
    congr 1
    apply (List.filter_eq_self.mpr ?_).symm
    intro v hv
    simp [hgiven v hv, hevent]

/-- An event that is not of the device moves on without the other side. -/
theorem pass (h : Isolates device full alone) (hevent : event.device? ≠ some device)
    (hbefore : ∀ w, full.working event.userId = some w → w.1 = event)
    {map : LastSeqByDevice} (hmap : map device.key = full.lastSeqByDevice device.key)
    (next : Option (LocationEventV1 × DedupStage)) (hnext : ∀ w, next = some w → w.1 = event)
    (given : List (LocationEventV1 × Bool)) (hgiven : ∀ v ∈ given, v.1 = event) :
    Isolates device
      { full with
        lastSeqByDevice := map
        working := Function.update full.working event.userId next
        verdicts := full.verdicts ++ given } alone := by
  have hnone : ∀ w : Option (LocationEventV1 × DedupStage), (∀ v, w = some v → v.1 = event) →
      (w.filter fun v => decide (v.1.device? = some device)) = none := by
    intro w hw
    cases hw' : w with
    | none => rfl
    | some v => simp [hw v hw', hevent]
  refine ⟨h.entry.trans hmap.symm, h.table, ?_, ?_⟩
  · change alone.working device.userId =
      (Function.update full.working event.userId next device.userId).filter _
    by_cases huser : device.userId = event.userId
    · rw [h.working, huser, Function.update_self, hnone _ hbefore, hnone _ hnext]
    · rw [Function.update_of_ne huser, h.working]
  · change alone.verdicts = (full.verdicts ++ given).filter _
    rw [List.filter_append, ← h.verdicts]
    have hdropped : (given.filter fun v => decide (v.1.device? = some device)) = [] := by
      apply List.filter_eq_nil_iff.mpr
      intro v hv
      simp [hgiven v hv, hevent]
    rw [hdropped, List.append_nil]

theorem kept {a : DedupAction} (h : Isolates device full alone) (hof : a.isOf device = true)
    (hstep : DedupStep full a full') :
    ∃ alone', DedupStep alone a alone' ∧ Isolates device full' alone' := by
  cases hstep with
  | begins event hworking =>
    have hevent : event.device? = some device := isOf_event hof rfl
    have huser := (device?_eq_some hevent).1
    have hidle : alone.working event.userId = none := by
      rw [huser, h.working, ← huser, hworking]
      rfl
    refine ⟨_, .begins event hidle, ?_⟩
    rw [knownVerdict_congr hevent h.entry]
    have hmove := h.move hevent h.entry
      (some (event, .gating (knownVerdict full.lastSeqByDevice event))) (by simp) [] (by simp)
    simpa using hmove
  | known event readError verdict hworking =>
    have hevent : event.device? = some device := isOf_event hof rfl
    refine ⟨_, .known event readError verdict (h.working_of_event hevent hworking), ?_⟩
    exact h.move hevent h.entry _ (by cases verdict <;> simp) [(event, verdict)] (by simp)
  | unread event e hworking =>
    have hevent : event.device? = some device := isOf_event hof rfl
    refine ⟨_, .unread event e (h.working_of_event hevent hworking), ?_⟩
    have hmove := h.move hevent h.entry none (by simp) [] (by simp)
    simpa [leave] using hmove
  | loads event hworking =>
    have hevent : event.device? = some device := isOf_event hof rfl
    obtain ⟨hentry, hverdict⟩ :=
      loadVerdict_congr full.lastSeqByDevice alone.lastSeqByDevice h.table hevent
    refine ⟨_, .loads event (h.working_of_event hevent hworking), ?_⟩
    rw [hverdict]
    refine h.move hevent hentry _ ?_ [(event, _)] (by simp)
    cases (loadVerdict full.lastSeqByDevice full.eventState event).2 <;> simp
  | reports event succeeded hworking =>
    have hevent : event.device? = some device := isOf_event hof rfl
    refine ⟨_, .reports event succeeded (h.working_of_event hevent hworking), ?_⟩
    have hentry : (if succeeded then rememberSeq alone.lastSeqByDevice event
          else alone.lastSeqByDevice) device.key =
        (if succeeded then rememberSeq full.lastSeqByDevice event
          else full.lastSeqByDevice) device.key := by
      cases succeeded with
      | true => exact rememberSeq_congr hevent h.entry
      | false => exact h.entry
    have hmove := h.move hevent hentry none (by simp) [] (by simp)
    simpa [leave] using hmove
  | upserts row =>
    exact ⟨_, .upserts row, h.entry, by rw [h.table], h.working, h.verdicts⟩

theorem dropped {a : DedupAction} (h : Isolates device full alone) (hof : a.isOf device = false)
    (hother : OtherKey device a) (hstep : DedupStep full a full') : Isolates device full' alone := by
  have hne : ∀ event, a.event? = some event → event.device? ≠ some device ∧
      ∀ other, event.device? = some other → other.key ≠ device.key := by
    intro event hevent
    have hnot : event.device? ≠ some device := by
      simpa [DedupAction.isOf, hevent] using hof
    refine ⟨hnot, ?_⟩
    intro other hdevice
    apply hother event other hevent hdevice
    intro heq
    exact hnot (heq ▸ hdevice)
  cases hstep with
  | begins event hworking =>
    obtain ⟨hevent, -⟩ := hne event rfl
    have hpass := h.pass hevent (by simp [hworking]) rfl
      (some (event, .gating (knownVerdict full.lastSeqByDevice event))) (by simp) [] (by simp)
    simpa using hpass
  | known event readError verdict hworking =>
    obtain ⟨hevent, -⟩ := hne event rfl
    exact h.pass hevent (by simp [hworking]) rfl _ (by cases verdict <;> simp)
      [(event, verdict)] (by simp)
  | unread event e hworking =>
    obtain ⟨hevent, -⟩ := hne event rfl
    have hpass := h.pass hevent (by simp [hworking]) rfl none (by simp) [] (by simp)
    simpa [leave] using hpass
  | loads event hworking =>
    obtain ⟨hevent, hkey⟩ := hne event rfl
    refine h.pass hevent (by simp [hworking]) (loadVerdict_of_ne full.eventState hkey) _ ?_
      [(event, _)] (by simp)
    cases (loadVerdict full.lastSeqByDevice full.eventState event).2 <;> simp
  | reports event succeeded hworking =>
    obtain ⟨hevent, hkey⟩ := hne event rfl
    have hentry : (if succeeded then rememberSeq full.lastSeqByDevice event
        else full.lastSeqByDevice) device.key = full.lastSeqByDevice device.key := by
      cases succeeded with
      | true => exact rememberSeq_of_ne hkey
      | false => rfl
    have hpass := h.pass hevent (by simp [hworking]) hentry none (by simp) [] (by simp)
    simpa [leave] using hpass
  | upserts row => simp [DedupAction.isOf, DedupAction.event?] at hof

end Isolates

/-- Among the given devices, the verdicts on the events of `device` are those of a run in which no
other event takes place. -/
def IsolatedFrom (device : Device) (others : Set Device) : Prop :=
  ∀ (table : EventStateTable) (as : List DedupAction) (st : DedupRun),
    machine.run (start table) as = some st →
    (∀ a ∈ as, ∀ event other, a.event? = some event → event.device? = some other →
      other = device ∨ other ∈ others) →
    ∃ alone, machine.run (start table) (as.filter fun a => a.isOf device) = some alone ∧
      alone.verdicts = st.verdicts.filter fun v => decide (v.1.device? = some device)

private theorem isolatedFrom_of_keys {device : Device} {others : Set Device}
    (hkeys : ∀ other ∈ others, other ≠ device → other.key ≠ device.key) :
    IsolatedFrom device others := by
  intro table as st hrun hdevices
  have hother : ∀ a ∈ as, OtherKey device a := by
    intro a ha event other hevent hdevice hne
    rcases hdevices a ha event other hevent hdevice with heq | hmem
    · exact absurd heq hne
    · exact hkeys other hmem hne
  have hkept : ∀ (full alone : DedupRun) (a : DedupAction) (full' : DedupRun),
      OtherKey device a → a.isOf device = true → Isolates device full alone →
      machine.step full a = some full' →
      ∃ alone', machine.step alone a = some alone' ∧ Isolates device full' alone' := by
    intro full alone a full' _ hof hisolates hstep
    obtain ⟨alone', hstep', hisolates'⟩ := hisolates.kept hof (step_iff.mp hstep)
    exact ⟨alone', step_iff.mpr hstep', hisolates'⟩
  have hdropped : ∀ (full alone : DedupRun) (a : DedupAction) (full' : DedupRun),
      OtherKey device a → a.isOf device = false → Isolates device full alone →
      machine.step full a = some full' → Isolates device full' alone := by
    intro full alone a full' hothers hof hisolates hstep
    exact hisolates.dropped hof hothers (step_iff.mp hstep)
  obtain ⟨alone, halone, hisolates⟩ :=
    machine.run_filter hkept hdropped hother (Isolates.start device table) hrun
  exact ⟨alone, halone, hisolates.verdicts⟩

/-- An event of a device, as one run of the worker may see it. -/
def eventOf (device : Device) (seq : Nat) : LocationEventV1 where
  eventId := 1
  userId := device.userId
  deviceId := some device.deviceId
  seq := some seq
  lat := 0
  lng := 0
  receivedAt := 0

/-- One event of another device is processed, then one of the device is judged. -/
def collidingRun (device other : Device) : List DedupAction :=
  [.begins (eventOf other 1), .judges (eventOf other 1) none, .reports (eventOf other 1) true,
    .begins (eventOf device 1), .judges (eventOf device 1) none]

def emptyTable : EventStateTable := ⟨[], List.nodup_nil⟩

theorem collidingRun_verdicts {device other : Device} (hkey : other.key = device.key) :
    (machine.run (start emptyTable) (collidingRun device other)).map verdicts =
      some [(eventOf other 1, false), (eventOf device 1, true)] := by
  have hkey' : dedupKey other.userId other.deviceId = dedupKey device.userId device.deviceId := hkey
  simp [collidingRun, Machine.run, machine, step, start, eventOf, knownVerdict, loadVerdict,
    emptyTable, EventStateTable.lastSeq?, judge, leave, rememberSeq, hkey']

theorem alone_verdicts (device : Device) :
    (machine.run (start emptyTable)
      [.begins (eventOf device 1), .judges (eventOf device 1) none]).map verdicts =
        some [(eventOf device 1, false)] := by
  simp [Machine.run, machine, step, start, eventOf, knownVerdict, loadVerdict, emptyTable,
    EventStateTable.lastSeq?, judge]

theorem collidingRun_filter {device other : Device} (hne : other ≠ device) :
    (collidingRun device other).filter (fun a => a.isOf device) =
      [.begins (eventOf device 1), .judges (eventOf device 1) none] := by
  simp [collidingRun, DedupAction.isOf, DedupAction.event?, eventOf, LocationEventV1.device?, hne]

theorem not_isolatedFrom_of_key {device other : Device} {others : Set Device}
    (hother : other ∈ others) (hne : other ≠ device) (hkey : other.key = device.key) :
    ¬ IsolatedFrom device others := by
  intro hisolated
  obtain ⟨st, hrun, hverdicts⟩ := Option.map_eq_some_iff.mp (collidingRun_verdicts hkey)
  have hdevices : ∀ a ∈ collidingRun device other, ∀ event other', a.event? = some event →
      event.device? = some other' → other' = device ∨ other' ∈ others := by
    intro a ha event other' hevent hdevice
    have hcases : event = eventOf other 1 ∨ event = eventOf device 1 := by
      simp only [collidingRun, List.mem_cons, List.not_mem_nil, or_false] at ha
      rcases ha with rfl | rfl | rfl | rfl | rfl <;>
        simp only [DedupAction.event?, Option.some.injEq] at hevent <;> simp [hevent]
    rcases hcases with rfl | rfl
    · cases hdevice
      exact Or.inr hother
    · cases hdevice
      exact Or.inl rfl
  obtain ⟨alone, halone, hsame⟩ := hisolated emptyTable _ st hrun hdevices
  rw [collidingRun_filter hne] at halone
  have hfalse := alone_verdicts device
  rw [halone, Option.map_some, Option.some.injEq, hsame, hverdicts] at hfalse
  simp [eventOf, LocationEventV1.device?, hne] at hfalse

/-- A device's verdicts are its own exactly when no other device of the run has the same
`userId:deviceId`. -/
theorem isolatedFrom_iff (device : Device) (others : Set Device) :
    IsolatedFrom device others ↔ ∀ other ∈ others, other ≠ device → other.key ≠ device.key := by
  constructor
  · intro hisolated other hother hne hkey
    exact not_isolatedFrom_of_key hother hne hkey hisolated
  · exact isolatedFrom_of_keys

/-- User `a:b` with device `c` and user `a` with device `b:c` have one entry in the map: an event
of the one makes an event of the other a duplicate, which it is not in a run of its own. -/
theorem isolation_broken_by_colon :
    ¬ IsolatedFrom ⟨"a", "b:c"⟩ {⟨"a:b", "c"⟩} ∧
      (machine.run (start emptyTable) (collidingRun ⟨"a", "b:c"⟩ ⟨"a:b", "c"⟩)).map verdicts =
        some [(eventOf ⟨"a:b", "c"⟩ 1, false), (eventOf ⟨"a", "b:c"⟩ 1, true)] ∧
      (machine.run (start emptyTable) ((collidingRun ⟨"a", "b:c"⟩ ⟨"a:b", "c"⟩).filter fun a =>
        a.isOf ⟨"a", "b:c"⟩)).map verdicts = some [(eventOf ⟨"a", "b:c"⟩ 1, false)] := by
  have hkey : (⟨"a:b", "c"⟩ : Device).key = (⟨"a", "b:c"⟩ : Device).key := by decide
  have hne : (⟨"a:b", "c"⟩ : Device) ≠ ⟨"a", "b:c"⟩ := by decide
  refine ⟨?_, collidingRun_verdicts hkey, ?_⟩
  · exact not_isolatedFrom_of_key rfl hne hkey
  · rw [collidingRun_filter hne]
    exact alone_verdicts _

end DedupRun

end Geofence
