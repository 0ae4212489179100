import Geofence.Locations.Report
/-!
# What a hint can do

The previous membership a call compares with may come from the worker's memory, from Redis or
from an unlocked read, and may be stale in any way. It decides whether the transaction is opened
and nothing else: the transaction works from the rows it reads under the lock.
-/

namespace Geofence

/-- The areas of two lists are the same, in any order and any number of times. -/
def SameAreas (current hint : List AreaId) : Prop := ∀ areaId, areaId ∈ current ↔ areaId ∈ hint

/-- The hint a call compares its covering set with, where its reads give one. -/
def hint? (st : ServiceState) (userId : UserId) (answers : Answers) : Option (List AreaId) :=
  (previousHint st userId answers).toOption.map fun r => r.2.2

theorem previousHint_frame {st st' : ServiceState} {userId : UserId} {answers : Answers}
    {read : Option PresenceCacheRead} {hint : List AreaId}
    (h : previousHint st userId answers = .ok (st', read, hint)) :
    st'.db = st.db ∧ st'.snapshot = st.snapshot ∧ st'.metrics = st.metrics := by
  unfold previousHint at h
  split at h
  · split at h
    · cases h
      exact ⟨rfl, rfl, rfl⟩
    · cases hread : readPresenceUnlocked st userId answers with
      | error e =>
        rw [hread] at h
        cases h
      | ok areaIds =>
        rw [hread] at h
        cases h
        exact ⟨rfl, rfl, rfl⟩
  · split at h
    · cases h
      exact ⟨rfl, rfl, rfl⟩
    · cases hread : readPresenceUnlocked st userId answers with
      | error e =>
        rw [hread] at h
        cases h
      | ok areaIds =>
        rw [hread] at h
        cases h
        exact ⟨rfl, rfl, rfl⟩

theorem hint?_eq_some {st : ServiceState} {userId : UserId} {answers : Answers}
    {hint : List AreaId} (h : hint? st userId answers = some hint) :
    ∃ st' read, previousHint st userId answers = .ok (st', read, hint) := by
  unfold hint? at h
  cases hprevious : previousHint st userId answers with
  | error e => simp [hprevious, Except.toOption] at h
  | ok r =>
    obtain ⟨st', read, hint'⟩ := r
    simp only [hprevious, Except.toOption, Option.map_some, Option.some.injEq] at h
    subst h
    exact ⟨st', read, rfl⟩

/-- What the change path leaves and answers, from the rows and the fate of the transaction. -/
def changed (ext : Externals) (db : Database) (call : ReportCall) (fate : TransactionFate) :
    Database × Except ServiceError LocationReportResponse :=
  match fate, transaction ext.pg call db with
  | .rolledBack e, _ => (db, .error (.queryFailed e))
  | _, .error e => (db, .error (.queryFailed e))
  | .commitLost e, .ok (db, _) => (db, .error (.queryFailed e))
  | .completes, .ok (db, result) => (db, .ok ⟨result.enteredAreaIds, result.duplicate⟩)

/-- `report` returns before `dataSource.transaction`: whatever a transaction would have come to,
nothing is entered, no `DEL` is sent, and the hint is `SET` after a clean miss. -/
def SkipsTransaction (ext : Externals) (st : ServiceState) (dto : ReportLocationDto)
    (recordedAt : Timestamp) (answers : Answers) : Prop :=
  ∃ st' read hint, previousHint st dto.userId answers = .ok (st', read, hint) ∧
    ∀ fate, report ext st dto recordedAt { answers with fate } =
      ⟨st', if read = some .miss then [.set dto.userId hint] else [], .ok ⟨[], false⟩⟩

/-- `report` opens the transaction: its tables and its answer are those of the transaction on the
covering set, whatever becomes of it. -/
def RunsTransaction (ext : Externals) (st : ServiceState) (dto : ReportLocationDto)
    (recordedAt : Timestamp) (answers : Answers) (current : List AreaId) : Prop :=
  ∀ fate, ((report ext st dto recordedAt { answers with fate }).state.db,
    (report ext st dto recordedAt { answers with fate }).result) =
    changed ext st.db ⟨dto, recordedAt, current⟩ fate

theorem changePath_changed (ext : Externals) (st : ServiceState) (call : ReportCall)
    (cacheRead : Option PresenceCacheRead) (answers : Answers) :
    ((changePath ext st call cacheRead answers).state.db,
      (changePath ext st call cacheRead answers).result) =
      changed ext st.db call answers.fate := by
  unfold changePath changed
  cases htx : transaction ext.pg call st.db with
  | error e => cases answers.fate <;> rfl
  | ok r => cases answers.fate <;> rfl

private theorem changed_db (ext : Externals) (db : Database) (call : ReportCall)
    (fate : TransactionFate) : (changed ext db call fate).1 = db ∨
      ∃ result, transaction ext.pg call db = .ok ((changed ext db call fate).1, result) := by
  unfold changed
  cases htx : transaction ext.pg call db with
  | error e => cases fate <;> exact Or.inl rfl
  | ok r =>
    cases fate with
    | rolledBack e => exact Or.inl rfl
    | completes => exact Or.inr ⟨r.2, rfl⟩
    | commitLost e => exact Or.inr ⟨r.2, rfl⟩

theorem not_skipsTransaction {ext : Externals} {st : ServiceState} {dto : ReportLocationDto}
    {recordedAt : Timestamp} {answers : Answers} {current : List AreaId}
    (hruns : RunsTransaction ext st dto recordedAt answers current) :
    ¬ SkipsTransaction ext st dto recordedAt answers := by
  rintro ⟨st', read, hint, -, hskips⟩
  have hfails := congrArg Prod.snd (hruns (.rolledBack ⟨"40001", none⟩))
  rw [hskips (.rolledBack ⟨"40001", none⟩)] at hfails
  cases hfails

section Hinted

variable {ext : Externals} {st st' : ServiceState} {dto : ReportLocationDto}
  {recordedAt : Timestamp} {answers : Answers} {current hint : List AreaId}
  {read : Option PresenceCacheRead}

theorem report_of_not_differs (hcovering : coveringAreaIds ext st.snapshot dto = .ok current)
    (hprevious : previousHint st dto.userId answers = .ok (st', read, hint))
    (hdiffers : differs current hint = false) :
    report ext st dto recordedAt answers =
      ⟨st', if read = some .miss then [.set dto.userId hint] else [], .ok ⟨[], false⟩⟩ := by
  simp [report, hcovering, hprevious, hdiffers]

theorem report_of_differs (hcovering : coveringAreaIds ext st.snapshot dto = .ok current)
    (hprevious : previousHint st dto.userId answers = .ok (st', read, hint))
    (hdiffers : differs current hint = true) :
    report ext st dto recordedAt answers =
      changePath ext st' ⟨dto, recordedAt, current⟩ read answers := by
  simp [report, hcovering, hprevious, hdiffers]

private theorem skips_of_not_differs (hcovering : coveringAreaIds ext st.snapshot dto = .ok current)
    (hprevious : previousHint st dto.userId answers = .ok (st', read, hint))
    (hdiffers : differs current hint = false) :
    SkipsTransaction ext st dto recordedAt answers :=
  ⟨st', read, hint, hprevious, fun _ => report_of_not_differs hcovering hprevious hdiffers⟩

private theorem runs_of_differs (hcovering : coveringAreaIds ext st.snapshot dto = .ok current)
    (hprevious : previousHint st dto.userId answers = .ok (st', read, hint))
    (hdiffers : differs current hint = true) :
    RunsTransaction ext st dto recordedAt answers current := by
  intro fate
  have hsame : previousHint st dto.userId { answers with fate } = .ok (st', read, hint) := hprevious
  rw [report_of_differs hcovering hsame hdiffers, changePath_changed,
    (previousHint_frame hprevious).1]

/-- The transaction is skipped exactly when the comparison says so, and is run otherwise. -/
theorem skipsTransaction_iff (hcovering : coveringAreaIds ext st.snapshot dto = .ok current)
    (hhint : hint? st dto.userId answers = some hint) :
    (SkipsTransaction ext st dto recordedAt answers ↔ differs current hint = false) ∧
      (RunsTransaction ext st dto recordedAt answers current ↔ differs current hint = true) := by
  obtain ⟨st', read, hprevious⟩ := hint?_eq_some hhint
  cases hdiffers : differs current hint with
  | false =>
    have hskips : SkipsTransaction ext st dto recordedAt answers :=
      skips_of_not_differs hcovering hprevious hdiffers
    refine ⟨iff_of_true hskips rfl, iff_of_false ?_ Bool.false_ne_true⟩
    exact fun hruns => not_skipsTransaction hruns hskips
  | true =>
    have hruns : RunsTransaction ext st dto recordedAt answers current :=
      runs_of_differs hcovering hprevious hdiffers
    exact ⟨iff_of_false (not_skipsTransaction hruns) (by simp), iff_of_true hruns rfl⟩

/-- A hint that does not agree runs the transaction. -/
theorem runs_of_not_sameAreas (hhint : hint? st dto.userId answers = some hint)
    (hcovering : coveringAreaIds ext st.snapshot dto = .ok current)
    (hother : ¬ SameAreas current hint) :
    RunsTransaction ext st dto recordedAt answers current := by
  apply (skipsTransaction_iff hcovering hhint).2.mpr
  cases hdiffers : differs current hint with
  | true => rfl
  | false => exact absurd (differs_eq_false (coveringAreaIds_nodup hcovering) hdiffers) hother

end Hinted

/-- What a hint can do to a call, for every content of the memory and every answer of Redis:
`writes` is the whole effect on the tables, `runs` says what a call does that does not skip the
transaction, and `same` compares two contents that both disagree with the covering set. -/
structure HintContract (ext : Externals) (st : ServiceState) (dto : ReportLocationDto)
    (recordedAt : Timestamp) (answers : Answers) : Prop where
  writes : (report ext st dto recordedAt answers).state.db = st.db ∨
    ∃ current result, coveringAreaIds ext st.snapshot dto = .ok current ∧
      transaction ext.pg ⟨dto, recordedAt, current⟩ st.db =
        .ok ((report ext st dto recordedAt answers).state.db, result)
  skips_only : ∀ current hint, coveringAreaIds ext st.snapshot dto = .ok current →
    hint? st dto.userId answers = some hint →
    SkipsTransaction ext st dto recordedAt answers → SameAreas current hint ∧ current.Nodup
  skips_always : ∀ current hint, coveringAreaIds ext st.snapshot dto = .ok current →
    hint? st dto.userId answers = some hint → hint.Nodup → SameAreas current hint →
    SkipsTransaction ext st dto recordedAt answers
  runs : ∀ current hint, coveringAreaIds ext st.snapshot dto = .ok current →
    hint? st dto.userId answers = some hint →
    (¬ SkipsTransaction ext st dto recordedAt answers ↔
      RunsTransaction ext st dto recordedAt answers current) ∧
    (¬ SameAreas current hint → RunsTransaction ext st dto recordedAt answers current)
  same : ∀ memory cacheRead current hint hint',
    coveringAreaIds ext st.snapshot dto = .ok current →
    hint? st dto.userId answers = some hint →
    hint? { st with memory } dto.userId { answers with cacheRead } = some hint' →
    ¬ SameAreas current hint → ¬ SameAreas current hint' →
    (report ext { st with memory } dto recordedAt { answers with cacheRead }).state.db =
        (report ext st dto recordedAt answers).state.db ∧
      (report ext { st with memory } dto recordedAt { answers with cacheRead }).result =
        (report ext st dto recordedAt answers).result

theorem report_writes (ext : Externals) (st : ServiceState) (dto : ReportLocationDto)
    (recordedAt : Timestamp) (answers : Answers) :
    (report ext st dto recordedAt answers).state.db = st.db ∨
      ∃ current result, coveringAreaIds ext st.snapshot dto = .ok current ∧
        transaction ext.pg ⟨dto, recordedAt, current⟩ st.db =
          .ok ((report ext st dto recordedAt answers).state.db, result) := by
  cases hcovering : coveringAreaIds ext st.snapshot dto with
  | error e => exact Or.inl (by simp [report, hcovering])
  | ok current =>
    cases hprevious : previousHint st dto.userId answers with
    | error e => exact Or.inl (by simp [report, hcovering, hprevious])
    | ok r =>
      obtain ⟨st', read, hint⟩ := r
      have hdb := (previousHint_frame hprevious).1
      cases hdiffers : differs current hint with
      | false =>
        rw [report_of_not_differs hcovering hprevious hdiffers]
        exact Or.inl hdb
      | true =>
        rw [report_of_differs hcovering hprevious hdiffers]
        have hchanged := congrArg Prod.fst
          (changePath_changed ext st' ⟨dto, recordedAt, current⟩ read answers)
        dsimp only at hchanged
        rw [hchanged, hdb]
        rcases changed_db ext st.db ⟨dto, recordedAt, current⟩ answers.fate with hsame | ⟨result, htx⟩
        · exact Or.inl hsame
        · exact Or.inr ⟨current, result, rfl, htx⟩

/-- A hint never feeds a write. -/
theorem hint_contract (ext : Externals) (st : ServiceState) (dto : ReportLocationDto)
    (recordedAt : Timestamp) (answers : Answers) :
    HintContract ext st dto recordedAt answers where
  writes := report_writes ext st dto recordedAt answers
  skips_only := by
    intro current hint hcovering hhint hskips
    have hnodup := coveringAreaIds_nodup hcovering
    exact ⟨differs_eq_false hnodup ((skipsTransaction_iff hcovering hhint).1.mp hskips), hnodup⟩
  skips_always := by
    intro current hint hcovering hhint hnodup hsame
    apply (skipsTransaction_iff hcovering hhint).1.mpr
    exact differs_of_same (coveringAreaIds_nodup hcovering) hnodup hsame
  runs := by
    intro current hint hcovering hhint
    have hskips : SkipsTransaction ext st dto recordedAt answers ↔ differs current hint = false :=
      (skipsTransaction_iff hcovering hhint).1
    have hruns : RunsTransaction ext st dto recordedAt answers current ↔
        differs current hint = true := (skipsTransaction_iff hcovering hhint).2
    refine ⟨?_, runs_of_not_sameAreas hhint hcovering⟩
    rw [hskips, hruns, Bool.not_eq_false]
  same := by
    intro memory cacheRead current hint hint' hcovering hhint hhint' hother hother'
    have hfirst : RunsTransaction ext st dto recordedAt answers current :=
      runs_of_not_sameAreas hhint hcovering hother
    have hsecond : RunsTransaction ext { st with memory } dto recordedAt
        { answers with cacheRead } current := runs_of_not_sameAreas hhint' hcovering hother'
    have hboth := (hsecond answers.fate).trans (hfirst answers.fate).symm
    exact Prod.mk.inj hboth

/-- A report from inside area `a` by a service that has seen nothing of the user yet. -/
private def freshService (memory : Option PresenceMemory) : ServiceState where
  db := .initial sampleAreas
  snapshot := some ⟨1, sampleAreas⟩
  memory := memory

private def insideDto : ReportLocationDto := ⟨"u", 1, 1, none, none, none, none, none⟩

/-- A stale hit of another area and a worker's memory of none: both open the transaction, which
enters area `a` either way. -/
theorem hint_contract_stale_hit :
    coveringAreaIds .reference (freshService none).snapshot insideDto = .ok ["a"] ∧
      hint? (freshService none) "u" { cacheRead := .hit ["b", "b"] } = some ["b", "b"] ∧
      hint? (freshService (some fun _ => some [])) "u" {} = some [] ∧
      (report .reference (freshService (some fun _ => some [])) insideDto 10 {}).state.db =
        (report .reference (freshService none) insideDto 10
          { cacheRead := .hit ["b", "b"] }).state.db ∧
      (report .reference (freshService (some fun _ => some [])) insideDto 10
        {}).state.db.logs = [⟨"u", "a", 10, none⟩] := by
  have hcovering : coveringAreaIds .reference (freshService none).snapshot insideDto =
      .ok ["a"] := by decide +kernel
  have hcontract := hint_contract .reference (freshService none) insideDto 10
    { cacheRead := .hit ["b", "b"] }
  have hsame := hcontract.same (some fun _ => some []) .miss ["a"] ["b", "b"] [] hcovering rfl rfl
    (fun h => absurd ((h "a").mp (by simp)) (by simp))
    (fun h => absurd ((h "a").mp (by simp)) (by simp))
  exact ⟨hcovering, rfl, rfl, hsame.1, by decide +kernel⟩

end Geofence
