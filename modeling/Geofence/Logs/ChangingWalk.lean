import Geofence.Logs.Walk
/-!
# Walking `GET /logs` under changing filters

A cursor encodes a position and no filter, so a client may go on under other filters than before.
Rows are inserted anywhere meanwhile, and the rows of an area that is deleted go with it, those
that have been given and the one the cursor was made of among them.
-/

namespace Geofence

open Framework

/-- The foreign key takes the rows of a deleted area along. -/
def LogsTable.deleteArea {columns : PgColumns} (table : LogsTable columns) (areaId : AreaId) :
    LogsTable columns where
  rows := table.rows.filter fun row => row.areaId ≠ areaId
  primaryKey := table.primaryKey.sublist (List.filter_sublist.map _)
  canonical := fun row hrow => table.canonical row (List.mem_of_mem_filter hrow)

/-- A read: its own filters and page size, the rows given before it, and its page. -/
structure FilteredRead where
  query : ListLogsQueryDto
  before : List StoredLog
  page : LogsPage

/-- `used` has the ids that were ever given to a row. -/
structure ChangingWalk (columns : PgColumns) where
  table : LogsTable columns
  used : List String
  cursor : Option String
  rows : List StoredLog
  reads : List FilteredRead
  ended : Bool

inductive ChangingAction where
  | insert (row : StoredLog)
  | deleteArea (areaId : AreaId)
  | read (query : ListLogsQueryDto)

/-- The read begins above the row and does not stop above it. -/
def FilteredRead.Spans (read : FilteredRead) (row : StoredLog) : Prop :=
  LogsWalk.After read.before row ∧
    (read.page.nextCursor = none ∨ ¬LogsWalk.After (read.before ++ read.page.rows) row)

namespace ChangingWalk

variable {columns : PgColumns}

def start (table : LogsTable columns) : ChangingWalk columns :=
  ⟨table, table.rows.map StoredLog.id, none, [], [], false⟩

def turn (walk : ChangingWalk columns) (query : ListLogsQueryDto) (page : LogsPage) :
    ChangingWalk columns :=
  { walk with
    cursor := page.nextCursor
    rows := walk.rows ++ page.rows
    reads := walk.reads ++ [⟨query, walk.rows, page⟩]
    ended := page.nextCursor.isNone }

/-- An id is generated for a new row, never one that was used before. A request sends its own
filters with the cursor of the page before. -/
def step (walk : ChangingWalk columns) : ChangingAction → Option (ChangingWalk columns)
  | .insert row =>
    if row.id ∈ walk.used then none
    else (walk.table.insert row).map fun table =>
      { walk with table, used := walk.used ++ [row.id] }
  | .deleteArea areaId => some { walk with table := walk.table.deleteArea areaId }
  | .read query =>
    if walk.ended = false ∧ 1 ≤ query.limit ∧ query.limit ≤ MAX_LOGS_PAGE_SIZE then
      (list walk.table { query with cursor := walk.cursor }).toOption.map (walk.turn query)
    else none

def machine (columns : PgColumns) : Machine (ChangingWalk columns) ChangingAction := ⟨step⟩

/-- The walk along the key that the pages are. -/
def keyset (walk : ChangingWalk columns) : KeysetWalk StoredLog (Timestamp ×ₗ String) :=
  ⟨walk.table.rows, walk.rows.getLast?.map StoredLog.key, walk.rows, walk.ended⟩

/-- A read has come to the row and its filters do not let it pass. -/
def Misses (walk : ChangingWalk columns) (row : StoredLog) : Prop :=
  ∃ read ∈ walk.reads, read.Spans row ∧ ¬SatisfiesFilters columns read.query row

/-- Where the page of a read lies in what was given. -/
def Places (walk : ChangingWalk columns) (read : FilteredRead) : Prop :=
  ∃ later, walk.rows = read.before ++ read.page.rows ++ later ∧
    (read.page.nextCursor = none → walk.ended = true ∧ later = [])

/-- The walk of pages is a walk along the key, and its cursor is that of the last row given. -/
structure Follows (initial : List StoredLog) (walk : ChangingWalk columns) : Prop where
  survives : walk.keyset.Survives StoredLog.key walk.Misses initial
  points : walk.ended = false → walk.cursor =
    walk.rows.getLast?.map fun row => encodeLogsCursor (row.cursor columns)
  canonical : ∀ row ∈ walk.rows, columns.uuid row.id = some row.id
  used : ∀ row ∈ initial, row.id ∈ walk.used
  given : walk.rows = walk.reads.flatMap fun read => read.page.rows
  places : ∀ read ∈ walk.reads, walk.Places read
  filtered : ∀ read ∈ walk.reads, ∀ row ∈ read.page.rows,
    SatisfiesFilters columns read.query row

theorem ahead_iff_after (walk : ChangingWalk columns) (row : StoredLog) :
    walk.keyset.Ahead StoredLog.key row ↔ LogsWalk.After walk.rows row := by
  constructor
  · intro hahead last hlast
    exact hahead last.key (Option.map_eq_some_iff.mpr ⟨last, hlast, rfl⟩)
  · intro hafter p hp
    obtain ⟨last, hlast, rfl⟩ := Option.map_eq_some_iff.mp hp
    exact hafter last hlast

theorem follows_start (table : LogsTable columns) : Follows table.rows (start table) := by
  refine ⟨.start _ (LogsWalk.keys_nodup table), fun _ => rfl, ?_, ?_, rfl, ?_, ?_⟩
  · intro row hrow
    cases hrow
  · intro row hrow
    exact List.mem_map_of_mem hrow
  · intro read hread
    cases hread
  · intro read hread
    cases hread

variable {initial : List StoredLog} {walk walk' : ChangingWalk columns}

theorem Follows.insert (h : Follows initial walk) {row : StoredLog}
    {table : LogsTable columns} (hfresh : row.id ∉ walk.used)
    (htable : walk.table.insert row = some table) :
    Follows initial { walk with table, used := walk.used ++ [row.id] } := by
  have hrows := LogsWalk.insert_eq_some htable
  have hkeys := LogsWalk.keys_nodup table
  rw [hrows] at hkeys
  have hnew : row ∉ initial := fun hrow => hfresh (h.used row hrow)
  have hsurvives := h.survives.insert hnew hkeys
  refine ⟨?_, h.points, h.canonical, ?_, h.given, h.places, h.filtered⟩
  · simp only [keyset, hrows]
    exact hsurvives
  · intro old hold
    exact List.mem_append_left _ (h.used old hold)

theorem Follows.deleteArea (h : Follows initial walk) (areaId : AreaId) :
    Follows initial { walk with table := walk.table.deleteArea areaId } :=
  ⟨h.survives.remove _, h.points, h.canonical, h.used, h.given, h.places, h.filtered⟩

theorem Follows.position (h : Follows initial walk) (hcolumns : columns.TextsCastBack)
    (hended : walk.ended = false) {cursor : Option LogsCursor}
    {pos : Option (Timestamp ×ₗ String)} (hdecode : decodeCursor? walk.cursor = .ok cursor)
    (hpos : startPosition? columns cursor = some pos) :
    pos = walk.rows.getLast?.map StoredLog.key := by
  rw [h.points hended] at hdecode
  cases hlast : walk.rows.getLast? with
  | none =>
    rw [hlast] at hdecode
    cases hdecode
    cases hpos
    rfl
  | some last =>
    rw [hlast] at hdecode
    have hid := h.canonical last (List.mem_of_getLast? hlast)
    exact LogsWalk.startPosition_of_row hcolumns hid hdecode hpos

theorem Places.turn (hended : walk.ended = false) {query : ListLogsQueryDto} {page : LogsPage}
    {read : FilteredRead} (h : walk.Places read) : (walk.turn query page).Places read := by
  obtain ⟨later, hrows, hlast⟩ := h
  refine ⟨later ++ page.rows, ?_, ?_⟩
  · simp only [ChangingWalk.turn, hrows, List.append_assoc]
  · intro hnone
    rw [(hlast hnone).1] at hended
    cases hended

/-- Turning a page is reading on along the key, under the filters of the request. -/
theorem Follows.turn (h : Follows initial walk) (hcolumns : columns.TextsCastBack)
    (hended : walk.ended = false) {query : ListLogsQueryDto} (hlimit : 1 ≤ query.limit)
    {page : LogsPage} (hpage : list walk.table { query with cursor := walk.cursor } = .ok page) :
    Follows initial (walk.turn query page) := by
  obtain ⟨cursor, keep, pos, hdecode, hkeep, hpos, hrows, hnext⟩ := list_eq_ok hpage
  have hfilters : filters? columns query = some keep := hkeep
  have hposition := h.position hcolumns hended hdecode hpos
  subst hposition
  dsimp only at hrows hnext
  rw [hrows] at hnext
  have hnone := LogsWalk.nextCursor_isNone hlimit hnext
  have hkeyset : (walk.turn query page).keyset =
      walk.keyset.read StoredLog.key keep query.limit := by
    simp only [keyset, ChangingWalk.turn, KeysetWalk.read, hrows, LogsWalk.pageEnd_getLast]
    congr 1
    rw [Bool.eq_iff_iff, Option.isNone_iff_eq_none, hnone]
    exact decide_eq_true_iff.symm
  have hin : ∀ row ∈ page.rows, row ∈ walk.table.rows ∧ SatisfiesFilters columns query row := by
    intro row hrow
    rw [hrows] at hrow
    obtain ⟨hthere, hpasses, -⟩ := mem_rowsBelow.mp (List.mem_of_mem_take hrow)
    exact ⟨hthere, (filters?_iff hfilters row).mp hpasses⟩
  refine ⟨?_, ?_, ?_, h.used, ?_, ?_, ?_⟩
  · rw [hkeyset]
    apply h.survives.read hlimit
    · rintro row ⟨read, hread, hmissed⟩
      exact ⟨read, List.mem_append_left _ hread, hmissed⟩
    · intro row hdrops hahead hpassed
      refine ⟨⟨query, walk.rows, page⟩, List.mem_append_right _ (List.mem_singleton_self _),
        ⟨(ahead_iff_after walk row).mp hahead, ?_⟩, ?_⟩
      · rw [← hkeyset, ahead_iff_after] at hpassed
        rcases hpassed with hlast | hleft
        · exact Or.inl (Option.isNone_iff_eq_none.mp hlast)
        · exact Or.inr hleft
      · intro hsatisfies
        rw [(filters?_iff hfilters row).mpr hsatisfies] at hdrops
        cases hdrops
  · intro hmore
    change page.nextCursor = (walk.rows ++ page.rows).getLast?.map _
    rw [hrows]
    apply LogsWalk.nextCursor_of_ne_none walk.rows hnext
    intro hnone'
    simp [ChangingWalk.turn, hnone'] at hmore
  · intro row hrow
    rcases List.mem_append.mp hrow with hold | hnew
    · exact h.canonical row hold
    · exact walk.table.canonical row (hin row hnew).1
  · simp only [ChangingWalk.turn, List.flatMap_append, List.flatMap_singleton, ← h.given]
  · intro read hread
    rcases List.mem_append.mp hread with hold | hnew
    · exact (h.places read hold).turn hended
    · rw [List.mem_singleton.mp hnew]
      refine ⟨[], (List.append_nil _).symm, ?_⟩
      intro hlast
      exact ⟨Option.isNone_iff_eq_none.mpr hlast, rfl⟩
  · intro read hread
    rcases List.mem_append.mp hread with hold | hnew
    · exact h.filtered read hold
    · rw [List.mem_singleton.mp hnew]
      exact fun row hrow => (hin row hrow).2

theorem Follows.step (h : Follows initial walk) (hcolumns : columns.TextsCastBack)
    {action : ChangingAction} (hstep : walk.step action = some walk') :
    Follows initial walk' := by
  cases action with
  | insert row =>
    simp only [ChangingWalk.step] at hstep
    split at hstep
    · cases hstep
    · rename_i hfresh
      obtain ⟨table, htable, rfl⟩ := Option.map_eq_some_iff.mp hstep
      exact h.insert hfresh htable
  | deleteArea areaId =>
    cases hstep
    exact h.deleteArea areaId
  | read query =>
    simp only [ChangingWalk.step] at hstep
    split at hstep
    · rename_i hguard
      obtain ⟨page, hpage, rfl⟩ := Option.map_eq_some_iff.mp hstep
      apply h.turn hcolumns hguard.1 hguard.2.1
      cases hlist : list walk.table { query with cursor := walk.cursor } with
      | error e =>
        rw [hlist] at hpage
        cases hpage
      | ok page' =>
        rw [hlist] at hpage
        cases hpage
        rfl
    · cases hstep

/-- A row that was given is given by the read that comes to it. -/
private theorem Places.mem_page {read : FilteredRead} (h : walk.Places read)
    (hfalling : walk.rows.Pairwise fun a b => b.key < a.key) {row : StoredLog}
    (hrow : row ∈ walk.rows) (hspans : read.Spans row) : row ∈ read.page.rows := by
  obtain ⟨later, hrows, hlast⟩ := h
  rw [hrows] at hfalling hrow
  obtain ⟨hgiven, -, hlater⟩ := List.pairwise_append.mp hfalling
  rcases List.mem_append.mp hrow with hupto | hafter
  · rcases List.mem_append.mp hupto with hbefore | hpage
    · have hend := List.getLast?_eq_some_getLast (List.ne_nil_of_mem hbefore)
      have hle := getLast_le (List.pairwise_append.mp hgiven).1 hend hbefore
      exact absurd (hspans.1 _ hend) (not_lt.mpr hle)
    · exact hpage
  · rcases hspans.2 with hnone | hnot
    · rw [(hlast hnone).2] at hafter
      cases hafter
    · refine absurd ?_ hnot
      intro last hend
      exact hlater last (List.mem_of_getLast? hend) row hafter

/-- What a walk gives its client when rows come and go and its filters change. -/
structure ChangingContract (table : LogsTable columns) (walk : ChangingWalk columns) : Prop where
  falling : walk.rows.Pairwise fun a b => b.key < a.key
  given : walk.rows = walk.reads.flatMap fun read => read.page.rows
  filtered : ∀ read ∈ walk.reads, ∀ row ∈ read.page.rows,
    SatisfiesFilters columns read.query row
  complete : walk.ended = true → ∀ row ∈ table.rows, row ∈ walk.table.rows →
    (row ∈ walk.rows ↔
      ∀ read ∈ walk.reads, read.Spans row → SatisfiesFilters columns read.query row)

theorem Follows.contract {table : LogsTable columns} (h : Follows table.rows walk) :
    ChangingContract table walk := by
  have hfalling := h.survives.falls.falling
  refine ⟨hfalling, h.given, h.filtered, ?_⟩
  intro hended row hrow hstays
  constructor
  · intro hgiven read hread hspans
    exact h.filtered read hread row ((h.places read hread).mem_page hfalling hgiven hspans)
  · intro hpasses
    rcases h.survives.covered row hrow hstays with hseen | hmissed | ⟨hopen, -⟩
    · exact hseen
    · obtain ⟨read, hread, hspans, hnot⟩ := hmissed
      exact absurd (hpasses read hread hspans) hnot
    · change walk.ended = false at hopen
      rw [hended] at hopen
      cases hopen

/-- The keyset walk of `GET /logs` over a log that changes, with filters that do. -/
theorem changing_walk_contract (hcolumns : columns.TextsCastBack) (table : LogsTable columns)
    (actions : List ChangingAction) (walk : ChangingWalk columns)
    (hrun : (machine columns).run (start table) actions = some walk) :
    ChangingContract table walk := by
  have hfollows : Follows table.rows walk := by
    refine (machine columns).run_invariant ?_ (follows_start table) hrun
    intro walk action walk' h hstep
    exact h.step hcolumns hstep
  exact hfollows.contract

private def firstLog : StoredLog :=
  ⟨"0b5f2c1e-9a77-4d1b-8c0e-1f2a3b4c5d61", "u1", "b", 1, none⟩

private def secondLog : StoredLog :=
  ⟨"0b5f2c1e-9a77-4d1b-8c0e-1f2a3b4c5d60", "u2", "a", 1, none⟩

private def lastLog : StoredLog :=
  ⟨"0b5f2c1e-9a77-4d1b-8c0e-1f2a3b4c5d62", "u1", "a", 0, none⟩

private def twoAreaLogs : LogsTable LogsWalk.sampleColumns :=
  ⟨[firstLog, secondLog, lastLog], by decide +kernel, by decide +kernel⟩

/-- The row the cursor was made of is deleted, and the next request asks for one user only. -/
private def changingRun : List ChangingAction :=
  [.read { limit := 1 }, .deleteArea "b", .read { userId := some "u2", limit := 50 }]

theorem changing_walk_contract_refiltered :
    ∃ walk, (machine LogsWalk.sampleColumns).run (start twoAreaLogs) changingRun = some walk ∧
      walk.ended = true ∧ walk.rows = [firstLog, secondLog] ∧
      ChangingContract twoAreaLogs walk := by
  have hend : ((machine LogsWalk.sampleColumns).run (start twoAreaLogs) changingRun).any
      (fun walk => decide (walk.ended = true ∧ walk.rows = [firstLog, secondLog])) = true := by
    decide +kernel
  obtain ⟨walk, hrun, hended, hrows⟩ := Machine.exists_end _ hend
  exact ⟨walk, hrun, hended, hrows, changing_walk_contract LogsWalk.sampleColumns_textsCastBack
    twoAreaLogs changingRun walk hrun⟩

end ChangingWalk

end Geofence
