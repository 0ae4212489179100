import Geofence.Framework.Machine
import Geofence.Locations.Hints
/-!
# Suppressed visits and the no-op counter

The reports of one user on the path without worker memory, one after another, over one Redis key.
A DEL that fails leaves the key stale, and reports that agree with a stale key write nothing. The
counter of no-op transactions is meant to bound the visits that are lost so.
-/

namespace Geofence

open Framework

/-- A report as the visits see it: the areas that cover it, the user's presence rows before it and
the areas it logged. -/
structure ReportRecord where
  covering : List AreaId
  before : List AreaId
  logged : List AreaId
  deriving DecidableEq, Repr

/-- The reports from `entry` up to `exit`, the one that ends the visit. -/
structure Visit where
  areaId : AreaId
  entry : Nat
  exit : Nat
  deriving DecidableEq, Repr

/-- Reports inside the area, none of which logs it, the first without a presence row. -/
structure Unlogged (areaId : AreaId) (block : List ReportRecord) : Prop where
  covered : ∀ record ∈ block, areaId ∈ record.covering
  unlogged : ∀ record ∈ block, areaId ∉ record.logged
  absent : ∃ record, block.head? = some record ∧ areaId ∉ record.before

/-- The block is maximal: a report outside the area stands before it and another one behind it. -/
def SuppressedVisit (history : List ReportRecord) (visit : Visit) : Prop :=
  ∃ earlier outside block leaving later,
    history = (earlier ++ outside :: block) ++ leaving :: later ∧
      visit.entry = earlier.length + 1 ∧ visit.exit = earlier.length + 1 + block.length ∧
      visit.areaId ∉ outside.covering ∧ visit.areaId ∉ leaving.covering ∧
      Unlogged visit.areaId block

/-- The reports since the last one outside the area. -/
def currentBlock (history : List ReportRecord) (areaId : AreaId) : List ReportRecord :=
  (history.reverse.takeWhile fun record => record.covering.contains areaId).reverse

/-- The user is on a visit to the area that has begun and gone on without a row and a log. -/
def onUnloggedVisit (history : List ReportRecord) (areaId : AreaId) : Bool :=
  let block := currentBlock history areaId
  decide (block.length < history.length) &&
    block.all (fun record => !record.logged.contains areaId) &&
    block.head?.any fun record => !record.before.contains areaId

/-- The suppressed visits that a report covered by `current` ends. -/
def endedBy (history : List ReportRecord) (current : List AreaId) : List AreaId :=
  match history.getLast? with
  | none => []
  | some last => last.covering.filter fun areaId =>
      onUnloggedVisit history areaId && !current.contains areaId

private theorem currentBlock_append {areaId : AreaId} (earlier : List ReportRecord)
    {block : List ReportRecord} {outside : ReportRecord} (houtside : areaId ∉ outside.covering)
    (hblock : ∀ record ∈ block, areaId ∈ record.covering) :
    currentBlock (earlier ++ outside :: block) areaId = block := by
  have hreverse : (earlier ++ outside :: block).reverse =
      block.reverse ++ outside :: earlier.reverse := by
    simp
  have hcovered : ∀ record ∈ block.reverse,
      (fun record : ReportRecord => record.covering.contains areaId) record = true := by
    intro record hrecord
    simpa using hblock record (List.mem_reverse.mp hrecord)
  rw [currentBlock, hreverse, List.takeWhile_append_of_pos hcovered,
    List.takeWhile_cons_of_neg (by simpa using houtside), List.append_nil, List.reverse_reverse]

/-- A visit that a report outside its area would end now. -/
def EndsNow (history : List ReportRecord) (visit : Visit) : Prop :=
  ∃ earlier outside block, history = earlier ++ outside :: block ∧
    visit.entry = earlier.length + 1 ∧ visit.exit = history.length ∧
    visit.areaId ∉ outside.covering ∧ Unlogged visit.areaId block

theorem SuppressedVisit.exit_lt {history : List ReportRecord} {visit : Visit}
    (h : SuppressedVisit history visit) : visit.exit < history.length := by
  obtain ⟨earlier, outside, block, leaving, later, rfl, -, hexit, -⟩ := h
  rw [hexit]
  simp only [List.length_append, List.length_cons]
  omega

/-- One more report ends the visits that end now and no others. -/
theorem SuppressedVisit.of_append {history : List ReportRecord} {record : ReportRecord}
    {visit : Visit} (h : SuppressedVisit (history ++ [record]) visit) :
    SuppressedVisit history visit ∨
      (EndsNow history visit ∧ visit.areaId ∉ record.covering) := by
  obtain ⟨earlier, outside, block, leaving, later, heq, hentry, hexit, houtside, hleaving,
    hblock⟩ := h
  rcases later.eq_nil_or_concat with rfl | ⟨rest, last, rfl⟩
  · obtain ⟨rfl, hlast⟩ := List.append_inj' heq rfl
    obtain rfl := (List.cons.inj hlast).1
    refine Or.inr ⟨⟨earlier, outside, block, rfl, hentry, ?_, houtside, hblock⟩, hleaving⟩
    rw [hexit, List.length_append, List.length_cons]
    omega
  · rw [List.concat_eq_append, ← List.cons_append, ← List.append_assoc] at heq
    obtain ⟨rfl, -⟩ := List.append_inj' heq rfl
    exact Or.inl ⟨earlier, outside, block, leaving, rest, rfl, hentry, hexit, houtside, hleaving,
      hblock⟩

private theorem EndsNow.mem_endedBy {history : List ReportRecord} {visit : Visit}
    {current : List AreaId} (h : EndsNow history visit) (hcurrent : visit.areaId ∉ current) :
    visit.areaId ∈ endedBy history current ∧
      visit = ⟨visit.areaId, history.length - (currentBlock history visit.areaId).length,
        history.length⟩ := by
  obtain ⟨earlier, outside, block, rfl, hentry, hexit, houtside, hblock⟩ := h
  obtain ⟨first, hfirst, habsent⟩ := hblock.absent
  have hcurrentBlock := currentBlock_append earlier houtside hblock.covered
  have hne : block ≠ [] := by
    rintro rfl
    cases hfirst
  have hlast : (earlier ++ outside :: block).getLast? = some (block.getLast hne) := by
    rw [List.getLast?_append_of_ne_nil _ (List.cons_ne_nil _ _), List.getLast?_cons_of_ne_nil hne,
      List.getLast?_eq_some_getLast hne]
  constructor
  · have honVisit : onUnloggedVisit (earlier ++ outside :: block) visit.areaId = true := by
      simp only [onUnloggedVisit, hcurrentBlock, hfirst, Option.any_some, Bool.and_eq_true,
        decide_eq_true_eq, List.all_eq_true]
      refine ⟨⟨?_, ?_⟩, by simpa using habsent⟩
      · simp only [List.length_append, List.length_cons]
        omega
      · intro record hrecord
        simpa using hblock.unlogged record hrecord
    simp only [endedBy, hlast, List.mem_filter]
    refine ⟨hblock.covered _ (List.getLast_mem hne), ?_⟩
    rw [honVisit]
    simpa using hcurrent
  · obtain ⟨areaId, entry, exit⟩ := visit
    simp only at hentry hexit hcurrentBlock ⊢
    rw [hcurrentBlock, hentry, hexit, Visit.mk.injEq]
    refine ⟨rfl, ?_, rfl⟩
    simp only [List.length_append, List.length_cons]
    omega

/-- The fates of the commands and queries of one report. -/
structure ReportFate where
  getFails : Bool := false
  unlockedRead : Option PgError := none
  fate : TransactionFate := .completes
  populated : Bool := true
  invalidated : Bool := true

/-- The service, the user's key and the reports so far. -/
structure UserReports where
  service : ServiceState
  key : Option (List AreaId)
  history : List ReportRecord

/-- `expire` is the key's TTL at any moment; areas are created and snapshots rebuilt at any
moment, too. -/
inductive UserReportsAction where
  | report (dto : ReportLocationDto) (recordedAt : Timestamp) (fate : ReportFate)
  | expire
  | createArea (row : AreaGeometryRow)
  | rebuilt (snapshot : Snapshot)

namespace UserReports

def start (db : Database) (snapshot : Option Snapshot) (key : Option (List AreaId)) : UserReports :=
  ⟨{ db, snapshot, memory := none }, key, []⟩

def answers (st : UserReports) (fate : ReportFate) : Answers where
  cacheRead :=
    if fate.getFails then .error
    else
      match st.key with
      | some areaIds => .hit areaIds
      | none => .miss
  unlockedRead := fate.unlockedRead
  fate := fate.fate
  invalidated := fate.invalidated

/-- The key after a command of the report. -/
def applyRedis (fate : ReportFate) (key : Option (List AreaId)) :
    RedisCommand → Option (List AreaId)
  | .set _ areaIds => if fate.populated then some areaIds else key
  | .del _ => if fate.invalidated then none else key

/-- The areas of the log rows added between two states. -/
def loggedBetween (before after : Database) : List AreaId :=
  (after.logs.drop before.logs.length).map (·.areaId)

def reported (ext : Externals) (st : UserReports) (dto : ReportLocationDto)
    (recordedAt : Timestamp) (fate : ReportFate) : UserReports :=
  let outcome := report ext st.service dto recordedAt (st.answers fate)
  { service := outcome.state
    key := outcome.redis.foldl (applyRedis fate) st.key
    history :=
      match coveringAreaIds ext st.service.snapshot dto with
      | .ok covering => st.history ++ [⟨covering, st.service.db.presence.areaIds dto.userId,
          loggedBetween st.service.db outcome.state.db⟩]
      | .error _ => st.history }

def step (ext : Externals) (userId : UserId) (st : UserReports) :
    UserReportsAction → Option UserReports
  | .report dto recordedAt fate =>
    if dto.userId = userId then some (st.reported ext dto recordedAt fate) else none
  | .expire => some { st with key := none }
  | .createArea row =>
    (st.service.db.createArea row).map fun db => { st with service := { st.service with db } }
  | .rebuilt snapshot => some { st with service := { st.service with snapshot := some snapshot } }

def machine (ext : Externals) (userId : UserId) : Machine UserReports UserReportsAction :=
  ⟨step ext userId⟩

/-- However the suppressed visits are counted, there are no more of them than no-op
transactions. -/
def NoopBound (st : UserReports) : Prop :=
  ∀ visits : List Visit, visits.Nodup → (∀ visit ∈ visits, SuppressedVisit st.history visit) →
    visits.length ≤ st.service.metrics.changePathNoop

/-- The report opens a transaction on its hint, passes the dedup gate and finds the committed
presence to be its covering set. -/
def findsNothing (st : UserReports) (dto : ReportLocationDto) (recordedAt : Timestamp)
    (fate : ReportFate) (current : List AreaId) : Bool :=
  (hint? st.service dto.userId (st.answers fate)).any (differs current) &&
    !differs current (st.service.db.presence.areaIds dto.userId) &&
    (dedupGate ⟨dto, recordedAt, current⟩ st.service.db).isSome && decide (fate.fate = .completes)

/-- A report that ends suppressed visits ends one only, and finds nothing to write. -/
def endsVisitsSingly (ext : Externals) (st : UserReports) : UserReportsAction → Bool
  | .report dto recordedAt fate =>
    match coveringAreaIds ext st.service.snapshot dto with
    | .ok current =>
      (endedBy st.history current).length ≤
        if st.findsNothing dto recordedAt fate current then 1 else 0
    | .error _ => true
  | _ => true

end UserReports

/-! ## The counter -/

private theorem recordInvalidateFailure_changePathNoop (metrics : PresenceMetrics) (gets : Bool) :
    (metrics.recordInvalidateFailure gets).changePathNoop = metrics.changePathNoop := by
  cases gets <;> rfl

theorem afterCommit_changePathNoop (st : ServiceState) (call : ReportCall)
    (cacheRead : Option PresenceCacheRead) (answers : Answers) (result : TransactionResult) :
    (afterCommit st call cacheRead answers result).metrics.changePathNoop =
      st.metrics.changePathNoop +
        if !result.duplicate && !result.wroteAnything then 1 else 0 := by
  have hcount : (if !result.duplicate && !result.wroteAnything then
      st.metrics.recordChangePathNoop else st.metrics).changePathNoop =
        st.metrics.changePathNoop +
          if !result.duplicate && !result.wroteAnything then 1 else 0 := by
    split
    · rfl
    · rfl
  simp only [afterCommit]
  split
  · exact hcount
  · rw [recordInvalidateFailure_changePathNoop]
    exact hcount

private theorem changePath_changePathNoop_le (ext : Externals) (st : ServiceState)
    (call : ReportCall) (cacheRead : Option PresenceCacheRead) (answers : Answers) :
    st.metrics.changePathNoop ≤
      (changePath ext st call cacheRead answers).state.metrics.changePathNoop := by
  unfold changePath
  split
  · exact Nat.le_refl _
  · exact Nat.le_refl _
  · exact Nat.le_refl _
  · rw [afterCommit_changePathNoop]
    exact Nat.le_add_right _ _

theorem report_changePathNoop_le (ext : Externals) (st : ServiceState) (dto : ReportLocationDto)
    (recordedAt : Timestamp) (answers : Answers) :
    st.metrics.changePathNoop ≤
      (report ext st dto recordedAt answers).state.metrics.changePathNoop := by
  cases hcovering : coveringAreaIds ext st.snapshot dto with
  | error e => simp [report, hcovering]
  | ok current =>
    cases hprevious : previousHint st dto.userId answers with
    | error e => simp [report, hcovering, hprevious]
    | ok r =>
      obtain ⟨st', read, hint⟩ := r
      have hmetrics := (previousHint_frame hprevious).2.2
      cases hdiffers : differs current hint with
      | false =>
        rw [report_of_not_differs hcovering hprevious hdiffers, hmetrics]
      | true =>
        rw [report_of_differs hcovering hprevious hdiffers, ← hmetrics]
        exact changePath_changePathNoop_le ext st' _ read answers

namespace UserReports

private theorem report_of_findsNothing {ext : Externals} {st : UserReports}
    {dto : ReportLocationDto} {recordedAt : Timestamp} {fate : ReportFate} {current : List AreaId}
    (hcovering : coveringAreaIds ext st.service.snapshot dto = .ok current)
    (h : st.findsNothing dto recordedAt fate current = true) :
    (report ext st.service dto recordedAt (st.answers fate)).state.metrics.changePathNoop =
      st.service.metrics.changePathNoop + 1 := by
  simp only [findsNothing, Bool.and_eq_true, Bool.not_eq_true', decide_eq_true_eq] at h
  obtain ⟨⟨⟨hopens, hsame⟩, hgate⟩, hfate⟩ := h
  obtain ⟨hint, hhint, hdiffers⟩ := (Option.any_eq_true ..).mp hopens
  obtain ⟨st', read, hprevious⟩ := hint?_eq_some hhint
  obtain ⟨gated, hgated⟩ := Option.isSome_iff_exists.mp hgate
  obtain ⟨hdb, -, hmetrics⟩ := previousHint_frame hprevious
  have htx : transaction ext.pg ⟨dto, recordedAt, current⟩ st'.db =
      .ok (gated, ⟨[], false, false⟩) := by
    rw [hdb]
    exact transaction_of_same _ _ hgated
      (differs_eq_false (coveringAreaIds_nodup hcovering) hsame)
  have hcompletes : (st.answers fate).fate = .completes := hfate
  rw [report_of_differs hcovering hprevious hdiffers, changePath, hcompletes, htx]
  simp only [afterCommit_changePathNoop]
  rw [hmetrics]
  rfl

private theorem reported_changePathNoop {ext : Externals} {st : UserReports}
    {dto : ReportLocationDto} {recordedAt : Timestamp} {fate : ReportFate} {current : List AreaId}
    (hcovering : coveringAreaIds ext st.service.snapshot dto = .ok current) :
    st.service.metrics.changePathNoop +
        (if st.findsNothing dto recordedAt fate current then 1 else 0) ≤
      (st.reported ext dto recordedAt fate).service.metrics.changePathNoop := by
  cases hfinds : st.findsNothing dto recordedAt fate current with
  | false => exact report_changePathNoop_le ext st.service dto recordedAt (st.answers fate)
  | true => exact Nat.le_of_eq (report_of_findsNothing hcovering hfinds).symm

/-- One more report adds at most the visits it ends. -/
private theorem length_le_of_append {history : List ReportRecord} {record : ReportRecord}
    {visits : List Visit} {bound : Nat} (hnodup : visits.Nodup)
    (hvisits : ∀ visit ∈ visits, SuppressedVisit (history ++ [record]) visit)
    (hbound : ∀ old : List Visit, old.Nodup →
      (∀ visit ∈ old, SuppressedVisit history visit) → old.length ≤ bound) :
    visits.length ≤ bound + (endedBy history record.covering).length := by
  have hold := hbound (visits.filter fun visit => visit.exit ≠ history.length)
    (hnodup.filter _) (by
      intro visit hvisit
      obtain ⟨hmem, hexit⟩ := List.mem_filter.mp hvisit
      rcases (hvisits visit hmem).of_append with hbefore | ⟨hends, -⟩
      · exact hbefore
      · obtain ⟨_, _, _, -, -, hnow, -⟩ := hends
        simp [hnow] at hexit)
  have hnew : (visits.filter fun visit => !decide (visit.exit ≠ history.length)).length ≤
      (endedBy history record.covering).length := by
    have hsubset : (visits.filter fun visit => !decide (visit.exit ≠ history.length)) ⊆
        (endedBy history record.covering).map fun areaId =>
          ⟨areaId, history.length - (currentBlock history areaId).length, history.length⟩ := by
      intro visit hvisit
      obtain ⟨hmem, hexit⟩ := List.mem_filter.mp hvisit
      rcases (hvisits visit hmem).of_append with hbefore | ⟨hends, hleft⟩
      · have hlt := hbefore.exit_lt
        simp only [ne_eq, decide_not, Bool.not_not, decide_eq_true_eq] at hexit
        omega
      · obtain ⟨hended, heq⟩ := hends.mem_endedBy hleft
        rw [heq]
        exact List.mem_map_of_mem hended
    have hle := (List.subperm_of_subset (hnodup.filter _) hsubset).length_le
    rwa [List.length_map] at hle
  rw [List.length_eq_length_filter_add fun visit => decide (visit.exit ≠ history.length)]
  omega

theorem NoopBound.step {ext : Externals} {userId : UserId} {st t : UserReports}
    {action : UserReportsAction} (h : NoopBound st)
    (hsingly : st.endsVisitsSingly ext action = true)
    (hstep : st.step ext userId action = some t) : NoopBound t := by
  cases action with
  | report dto recordedAt fate =>
    simp only [UserReports.step] at hstep
    split at hstep
    · cases hstep
      cases hcovering : coveringAreaIds ext st.service.snapshot dto with
      | error e =>
        have hhistory : (st.reported ext dto recordedAt fate).history = st.history := by
          simp only [reported, hcovering]
        intro visits hnodup hvisits
        rw [hhistory] at hvisits
        exact (h visits hnodup hvisits).trans
          (report_changePathNoop_le ext st.service dto recordedAt (st.answers fate))
      | ok current =>
        simp only [endsVisitsSingly, hcovering, decide_eq_true_eq] at hsingly
        intro visits hnodup hvisits
        simp only [reported, hcovering] at hvisits
        calc visits.length
            ≤ st.service.metrics.changePathNoop + (endedBy st.history current).length :=
              length_le_of_append hnodup hvisits h
          _ ≤ st.service.metrics.changePathNoop +
                (if st.findsNothing dto recordedAt fate current then 1 else 0) :=
              Nat.add_le_add_left hsingly _
          _ ≤ (st.reported ext dto recordedAt fate).service.metrics.changePathNoop :=
              reported_changePathNoop hcovering
    · cases hstep
  | expire =>
    cases hstep
    exact h
  | createArea row =>
    obtain ⟨db, -, rfl⟩ := Option.map_eq_some_iff.mp hstep
    exact h
  | rebuilt snapshot =>
    cases hstep
    exact h

private theorem noopBound_start (db : Database) (snapshot : Option Snapshot)
    (key : Option (List AreaId)) : NoopBound (start db snapshot key) := by
  intro visits hnodup hvisits
  cases visits with
  | nil => exact Nat.zero_le _
  | cons visit visits =>
    have hlt := (hvisits visit List.mem_cons_self).exit_lt
    exact absurd hlt (Nat.not_lt_zero _)

/-- In every run in which no report ends a suppressed visit without being a no-op, or two at once,
the counter bounds the suppressed visits in every state. -/
theorem noop_counter_bounds (ext : Externals) (userId : UserId) (db : Database)
    (snapshot : Option Snapshot) (key : Option (List AreaId)) (actions : List UserReportsAction)
    (hmeets : (machine ext userId).Meets (fun st action => st.endsVisitsSingly ext action = true)
      (start db snapshot key) actions) :
    (machine ext userId).Always NoopBound (start db snapshot key) actions :=
  (machine ext userId).always_of_meets (fun _ _ _ h => h.step) (fun _ h => h)
    (noopBound_start db snapshot key) hmeets

private def sampleStart : UserReports := start (.initial sampleAreas) (some ⟨1, sampleAreas⟩) none

private def inArea : ReportLocationDto := { userId := "u", lat := 1, lng := 1 }

private def nowhere : ReportLocationDto := { userId := "u", lat := 20, lng := 20 }

/-- The DEL after the exit fails, and the next visit agrees with the key that it has left. -/
private def staleKeyRun : List UserReportsAction :=
  [.report inArea 1 {}, .report inArea 2 {}, .report nowhere 3 { invalidated := false },
    .report inArea 4 {}]

/-- A visit lost to a stale key. -/
private def lostVisit : List ReportRecord :=
  [⟨["a"], [], ["a"]⟩, ⟨["a"], ["a"], []⟩, ⟨[], ["a"], []⟩, ⟨["a"], [], []⟩, ⟨[], [], []⟩]

private theorem lostVisit_suppressed : SuppressedVisit lostVisit ⟨"a", 3, 4⟩ := by
  refine ⟨[⟨["a"], [], ["a"]⟩, ⟨["a"], ["a"], []⟩], ⟨[], ["a"], []⟩, [⟨["a"], [], []⟩],
    ⟨[], [], []⟩, [], rfl, rfl, rfl, by simp, by simp, ?_⟩
  exact ⟨by simp, by simp, ⟨_, rfl, by simp⟩⟩

/-- The exit finds the stale key and heals it. -/
theorem noop_counter_bounds_healed :
    ∃ st, (machine .reference "u").run sampleStart (staleKeyRun ++ [.report nowhere 5 {}]) =
        some st ∧
      NoopBound st ∧ SuppressedVisit st.history ⟨"a", 3, 4⟩ ∧
      st.service.metrics.changePathNoop = 1 := by
  have hend : ((machine .reference "u").run sampleStart
      (staleKeyRun ++ [.report nowhere 5 {}])).any (fun st => decide (st.history = lostVisit ∧
        st.service.metrics.changePathNoop = 1)) = true := by
    decide +kernel
  obtain ⟨st, hrun, hhistory, hcounter⟩ := Machine.exists_end _ hend
  have hmeets : (machine .reference "u").Meets
      (fun st action => st.endsVisitsSingly .reference action = true) sampleStart
      (staleKeyRun ++ [.report nowhere 5 {}]) := by
    decide +kernel
  refine ⟨st, hrun, noop_counter_bounds _ _ _ _ _ _ hmeets _ st List.prefix_rfl hrun, ?_, hcounter⟩
  rw [hhistory]
  exact lostVisit_suppressed

/-- The stale key expires before the exit, which then agrees with Postgres and opens no
transaction. -/
theorem noop_counter_misses_expired :
    ∃ st, (machine .reference "u").run sampleStart
        (staleKeyRun ++ [.expire, .report nowhere 5 {}]) = some st ∧
      SuppressedVisit st.history ⟨"a", 3, 4⟩ ∧ st.service.metrics.changePathNoop = 0 ∧
      ¬ NoopBound st := by
  have hend : ((machine .reference "u").run sampleStart
      (staleKeyRun ++ [.expire, .report nowhere 5 {}])).any (fun st => decide (
        st.history = lostVisit ∧ st.service.metrics.changePathNoop = 0)) = true := by
    decide +kernel
  obtain ⟨st, hrun, hhistory, hcounter⟩ := Machine.exists_end _ hend
  have hvisit : SuppressedVisit st.history ⟨"a", 3, 4⟩ := by
    rw [hhistory]
    exact lostVisit_suppressed
  refine ⟨st, hrun, hvisit, hcounter, fun hbound => ?_⟩
  have hle := hbound [⟨"a", 3, 4⟩] (List.nodup_singleton _) (by simpa using hvisit)
  rw [hcounter] at hle
  exact absurd hle (by decide)

end UserReports

end Geofence
