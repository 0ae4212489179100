import Geofence.Framework.Machine
import Geofence.Logs.Listing
/-!
# Walking `GET /logs`

A client follows `nextCursor` from the first page on, with pages of any size, while rows are
inserted anywhere. The walk is a walk along the key `(recorded_at, id)`.
-/

namespace Geofence

open Framework

def MAX_LOGS_PAGE_SIZE : Nat := 500

/-- An insert; the server's own key constraint refuses an id that is taken. -/
def LogsTable.insert {columns : PgColumns} (table : LogsTable columns) (row : StoredLog) :
    Option (LogsTable columns) :=
  if h : row.id ∉ table.rows.map StoredLog.id ∧ columns.uuid row.id = some row.id then
    some ⟨table.rows ++ [row], by
      rw [List.map_append, List.map_singleton, ← List.concat_eq_append]
      exact table.primaryKey.concat h.1, by
      intro r hr
      rcases List.mem_append.mp hr with hold | hnew
      · exact table.canonical r hold
      · rw [List.mem_singleton.mp hnew]
        exact h.2⟩
  else none

/-- A read: the rows of the table then, the page, and all rows given up to its end. -/
structure LogsRead where
  table : List StoredLog
  page : LogsPage
  given : List StoredLog

/-- A walk: the table, the cursor of the next request, the rows given so far, the reads that gave
them, and whether a page without a cursor has come. -/
structure LogsWalk (columns : PgColumns) where
  table : LogsTable columns
  cursor : Option String
  rows : List StoredLog
  reads : List LogsRead
  ended : Bool

inductive WalkAction where
  | insert (row : StoredLog)
  | read (limit : Nat)

namespace LogsWalk

variable {columns : PgColumns}

def start (table : LogsTable columns) : LogsWalk columns := ⟨table, none, [], [], false⟩

def turn (walk : LogsWalk columns) (page : LogsPage) : LogsWalk columns where
  table := walk.table
  cursor := page.nextCursor
  rows := walk.rows ++ page.rows
  reads := walk.reads ++ [⟨walk.table.rows, page, walk.rows ++ page.rows⟩]
  ended := page.nextCursor.isNone

/-- A request whose page size does not pass validation, or that is answered with an error, gives
no page. -/
def step (query : ListLogsQueryDto) (walk : LogsWalk columns) :
    WalkAction → Option (LogsWalk columns)
  | .insert row => (walk.table.insert row).map fun table => { walk with table }
  | .read limit =>
    if walk.ended = false ∧ 1 ≤ limit ∧ limit ≤ MAX_LOGS_PAGE_SIZE then
      (list walk.table { query with cursor := walk.cursor, limit }).toOption.map walk.turn
    else none

def machine (columns : PgColumns) (query : ListLogsQueryDto) :
    Machine (LogsWalk columns) WalkAction := ⟨step query⟩

/-- The filters as a test, where their texts cast. -/
def keep (columns : PgColumns) (query : ListLogsQueryDto) : StoredLog → Bool :=
  (filters? columns query).getD fun _ => false

/-- The walk along the key that a walk of pages is. -/
def keyset (walk : LogsWalk columns) : KeysetWalk StoredLog (Timestamp ×ₗ String) :=
  ⟨walk.table.rows, walk.rows.getLast?.map StoredLog.key, walk.rows, walk.ended⟩

/-- A row comes after the end of a page. -/
def After (given : List StoredLog) (row : StoredLog) : Prop :=
  ∀ last, given.getLast? = some last → row.key < last.key

/-- What a read says about the rows behind its page. -/
def LogsRead.Honest (columns : PgColumns) (query : ListLogsQueryDto) (read : LogsRead) : Prop :=
  read.page.nextCursor = none ↔
    ∀ row ∈ read.table, SatisfiesFilters columns query row → ¬ After read.given row

/-- The walk of pages is a sound walk along the key, and its cursor is that of the last row. -/
structure Follows (query : ListLogsQueryDto) (initial : List StoredLog)
    (walk : LogsWalk columns) : Prop where
  sound : walk.keyset.Sound StoredLog.key (keep columns query) initial
  points : walk.ended = false → walk.cursor =
    walk.rows.getLast?.map fun row => encodeLogsCursor (row.cursor columns)
  cast : walk.reads ≠ [] → (filters? columns query).isSome = true
  begun : walk.rows ≠ [] ∨ walk.ended = true → walk.reads ≠ []
  honest : ∀ read ∈ walk.reads, LogsRead.Honest columns query read

theorem keys_nodup (table : LogsTable columns) : (table.rows.map StoredLog.key).Nodup := by
  have hids := table.primaryKey
  rw [List.Nodup, List.pairwise_map] at hids ⊢
  apply hids.imp
  intro a b hab hkey
  have hpair : (a.recordedAt, a.id) = (b.recordedAt, b.id) := toLex_inj.mp hkey
  exact hab (Prod.mk.inj hpair).2

theorem follows_start (query : ListLogsQueryDto) (table : LogsTable columns) :
    Follows query table.rows (start table) := by
  refine ⟨KeysetWalk.Sound.start _ (keys_nodup table), fun _ => rfl, ?_, ?_, ?_⟩
  · intro hreads
    exact absurd rfl hreads
  · intro hbegun
    rcases hbegun with hrows | hended
    · exact absurd rfl hrows
    · cases hended
  · intro read hread
    cases hread

theorem insert_eq_some {table table' : LogsTable columns} {row : StoredLog}
    (h : table.insert row = some table') : table'.rows = table.rows ++ [row] := by
  unfold LogsTable.insert at h
  split at h
  · cases h
    rfl
  · cases h

theorem startPosition_of_row (hcolumns : columns.TextsCastBack) {row : StoredLog}
    (hid : columns.uuid row.id = some row.id) {cursor : Option LogsCursor}
    {pos : Option (Timestamp ×ₗ String)}
    (hdecode : decodeCursor? (some (encodeLogsCursor (row.cursor columns))) = .ok cursor)
    (hpos : startPosition? columns cursor = some pos) : pos = some row.key := by
  simp only [decodeCursor?, decodeLogsCursor_encode] at hdecode
  split at hdecode
  · cases hdecode
    simp only [startPosition?, LogsCursor.position?, StoredLog.cursor, hcolumns row.recordedAt,
      hid, bind, Option.bind_some, pure, Option.map_some, Option.some.injEq] at hpos
    exact hpos.symm
  · cases hdecode

theorem Follows.position {query : ListLogsQueryDto} {initial : List StoredLog}
    {walk : LogsWalk columns} (h : Follows query initial walk) (hcolumns : columns.TextsCastBack)
    (hended : walk.ended = false) {cursor : Option LogsCursor}
    {pos : Option (Timestamp ×ₗ String)} (hdecode : decodeCursor? walk.cursor = .ok cursor)
    (hpos : startPosition? columns cursor = some pos) :
    pos = walk.rows.getLast?.map StoredLog.key := by
  rw [h.points hended] at hdecode
  cases hlast : walk.rows.getLast? with
  | none =>
    rw [hlast] at hdecode
    cases hdecode
    cases hpos
    rfl
  | some last =>
    have hstored : last ∈ walk.table.rows := h.sound.stored last (List.mem_of_getLast? hlast)
    rw [hlast] at hdecode
    exact startPosition_of_row hcolumns (walk.table.canonical last hstored) hdecode hpos

theorem pageEnd_getLast (given page : List StoredLog) :
    pageEnd StoredLog.key (given.getLast?.map StoredLog.key) page =
      (given ++ page).getLast?.map StoredLog.key := by
  unfold pageEnd
  rw [List.getLast?_append]
  cases page.getLast? with
  | none => simp
  | some last => simp

theorem nextCursor_isNone {limit : Nat} (hlimit : 1 ≤ limit) {below : List StoredLog}
    {nextCursor : Option String}
    (h : nextCursor = if limit < below.length then
      (below.take limit).getLast?.map fun row => encodeLogsCursor (row.cursor columns) else none) :
    nextCursor = none ↔ below.length ≤ limit := by
  by_cases hmore : limit < below.length
  · rw [if_pos hmore] at h
    have hne : below.take limit ≠ [] := by
      intro hnil
      rcases List.take_eq_nil_iff.mp hnil with hzero | hempty
      · omega
      · rw [hempty] at hmore
        exact absurd hmore (Nat.not_lt_zero _)
    rw [List.getLast?_eq_some_getLast hne, Option.map_some] at h
    rw [h]
    simp
    omega
  · rw [if_neg hmore] at h
    simp [h]
    omega

theorem nextCursor_of_ne_none (given : List StoredLog) {limit : Nat} {below : List StoredLog}
    {nextCursor : Option String}
    (h : nextCursor = if limit < below.length then
      (below.take limit).getLast?.map fun row => encodeLogsCursor (row.cursor columns) else none)
    (hne : nextCursor ≠ none) : nextCursor = (given ++ below.take limit).getLast?.map fun row =>
      encodeLogsCursor (row.cursor columns) := by
  by_cases hmore : limit < below.length
  · rw [if_pos hmore] at h
    cases hlast : (below.take limit).getLast? with
    | none =>
      rw [hlast] at h
      exact absurd h hne
    | some last => rw [h, List.getLast?_append, hlast, Option.some_or]
  · rw [if_neg hmore] at h
    exact absurd h hne

/-- Turning a page is reading on along the key. -/
theorem Follows.read {query : ListLogsQueryDto} {initial : List StoredLog}
    {walk : LogsWalk columns} (h : Follows query initial walk) (hcolumns : columns.TextsCastBack)
    (hended : walk.ended = false) {limit : Nat} (hlimit : 1 ≤ limit) {page : LogsPage}
    (hpage : list walk.table { query with cursor := walk.cursor, limit } = .ok page) :
    Follows query initial (walk.turn page) := by
  obtain ⟨cursor, keep', pos, hdecode, hkeep, hpos, hrows, hnext⟩ := list_eq_ok hpage
  have hkeep' : keep columns query = keep' := by
    have hsame : filters? columns query = some keep' := hkeep
    rw [keep, hsame, Option.getD_some]
  have hposition := h.position hcolumns hended hdecode hpos
  subst hkeep' hposition
  have hsame : filters? columns query = some (keep columns query) := hkeep
  dsimp only at hrows hnext
  rw [hrows] at hnext
  have hnone := nextCursor_isNone hlimit hnext
  have hkeyset : (walk.turn page).keyset =
      walk.keyset.read StoredLog.key (keep columns query) limit := by
    simp only [keyset, turn, KeysetWalk.read, hrows, pageEnd_getLast]
    congr 1
    rw [Bool.eq_iff_iff, Option.isNone_iff_eq_none, hnone]
    exact decide_eq_true_iff.symm
  refine ⟨?_, ?_, ?_, ?_, ?_⟩
  · rw [hkeyset]
    exact h.sound.read hlimit
  · intro hmore
    change page.nextCursor = (walk.rows ++ page.rows).getLast?.map _
    rw [hrows]
    apply nextCursor_of_ne_none walk.rows hnext
    intro hnone'
    simp [turn, hnone'] at hmore
  · intro _
    rw [hsame]
    rfl
  · intro _
    simp [turn]
  · intro read hread
    rcases List.mem_append.mp hread with hold | hnew
    · exact h.honest read hold
    · rw [List.mem_singleton] at hnew
      subst hnew
      change page.nextCursor = none ↔ ∀ row ∈ walk.table.rows,
        SatisfiesFilters columns query row → ¬ After (walk.rows ++ page.rows) row
      rw [hnone, length_le_iff_pageEnd (keys_nodup walk.table) hlimit, ← hrows, pageEnd_getLast]
      constructor
      · intro hall row hrow hsat hafter
        refine hall row hrow ((filters?_iff hsame row).mpr hsat) ?_
        intro p hp
        obtain ⟨last, hlast, rfl⟩ := Option.map_eq_some_iff.mp hp
        exact hafter last hlast
      · intro hall row hrow hkept hlt
        refine hall row hrow ((filters?_iff hsame row).mp hkept) ?_
        intro last hlast
        exact hlt last.key (Option.map_eq_some_iff.mpr ⟨last, hlast, rfl⟩)

theorem Follows.step {query : ListLogsQueryDto} {initial : List StoredLog}
    {walk walk' : LogsWalk columns} {action : WalkAction} (h : Follows query initial walk)
    (hcolumns : columns.TextsCastBack) (hstep : walk.step query action = some walk') :
    Follows query initial walk' := by
  cases action with
  | insert row =>
    obtain ⟨table, htable, rfl⟩ := Option.map_eq_some_iff.mp hstep
    have hrows := insert_eq_some htable
    refine ⟨?_, h.points, h.cast, h.begun, h.honest⟩
    have hkeys := keys_nodup table
    rw [hrows] at hkeys
    have hsound := h.sound.insert hkeys
    simpa [keyset, KeysetWalk.insert, hrows] using hsound
  | read limit =>
    simp only [LogsWalk.step] at hstep
    by_cases hguard : walk.ended = false ∧ 1 ≤ limit ∧ limit ≤ MAX_LOGS_PAGE_SIZE
    · rw [if_pos hguard] at hstep
      obtain ⟨page, hpage, rfl⟩ := Option.map_eq_some_iff.mp hstep
      apply h.read hcolumns hguard.1 hguard.2.1
      cases hlist : list walk.table { query with cursor := walk.cursor, limit } with
      | error e =>
        rw [hlist] at hpage
        cases hpage
      | ok page' =>
        rw [hlist] at hpage
        cases hpage
        rfl
    · rw [if_neg hguard] at hstep
      cases hstep

/-- What a walk gives its client, for every table it begins with, every filter, every sequence of
page sizes and inserts between the reads. -/
structure WalkContract (query : ListLogsQueryDto) (table : LogsTable columns)
    (walk : LogsWalk columns) : Prop where
  falling : walk.rows.Pairwise fun a b => b.key < a.key
  nodup : walk.rows.Nodup
  filtered : ∀ row ∈ walk.rows, SatisfiesFilters columns query row
  complete : walk.ended = true → ∀ row ∈ table.rows, SatisfiesFilters columns query row →
    walk.rows.count row = 1
  nextCursor : ∀ read ∈ walk.reads, LogsRead.Honest columns query read

theorem Follows.contract {query : ListLogsQueryDto} {table : LogsTable columns}
    {walk : LogsWalk columns} (h : Follows query table.rows walk) :
    WalkContract query table walk := by
  have hnodup : walk.rows.Nodup := by
    apply h.sound.falling.imp
    intro a b hlt heq
    rw [heq] at hlt
    exact absurd hlt (lt_irrefl _)
  have hcast : walk.reads ≠ [] → filters? columns query = some (keep columns query) := by
    intro hreads
    obtain ⟨test, htest⟩ := Option.isSome_iff_exists.mp (h.cast hreads)
    rw [keep, htest, Option.getD_some]
  refine ⟨h.sound.falling, hnodup, ?_, ?_, h.honest⟩
  · intro row hrow
    have hfilters := hcast (h.begun (Or.inl (List.ne_nil_of_mem hrow)))
    exact (filters?_iff hfilters row).mp (h.sound.kept row hrow)
  · intro hended row hrow hsat
    have hfilters := hcast (h.begun (Or.inr hended))
    apply List.count_eq_one_of_mem hnodup
    rcases h.sound.covered row hrow ((filters?_iff hfilters row).mpr hsat) with hseen | ⟨hopen, -⟩
    · exact hseen
    · change walk.ended = false at hopen
      rw [hended] at hopen
      cases hopen

/-- The keyset walk of `GET /logs`. -/
theorem walk_contract (hcolumns : columns.TextsCastBack) (query : ListLogsQueryDto)
    (table : LogsTable columns) (as : List WalkAction) (walk : LogsWalk columns)
    (hrun : (machine columns query).run (start table) as = some walk) :
    WalkContract query table walk := by
  have hfollows : Follows query table.rows walk := by
    refine (machine columns query).run_invariant ?_ (follows_start query table) hrun
    intro walk action walk' h hstep
    exact h.step hcolumns hstep
  exact hfollows.contract

private def farText (t : Timestamp) : String := String.ofList (List.replicate t 'x')

/-- The server's texts for the first two instants; what it gives for later ones plays no part. -/
def sampleColumns : PgColumns where
  timestamptz text :=
    if text = "1970-01-01 00:00:00+00" then some 0
    else if text = "1970-01-01 00:00:00.000001+00" then some 1
    else some text.length
  timestamptzText
    | 0 => "1970-01-01 00:00:00+00"
    | 1 => "1970-01-01 00:00:00.000001+00"
    | t => farText t
  uuid text := if CursorText.uuid text then some text.toLower else none
  isoText _ := "1970-01-01T00:00:00.000Z"

private theorem farText_ne (t : Timestamp) {text : String} (h : text.toList.head? = some '1') :
    farText (t + 2) ≠ text := by
  intro heq
  rw [← heq, farText, String.toList_ofList, List.replicate_succ, List.head?_cons] at h
  cases h

theorem sampleColumns_textsCastBack : sampleColumns.TextsCastBack := by
  intro t
  match t with
  | 0 => rfl
  | 1 => rfl
  | t + 2 =>
    have hfirst : farText (t + 2) ≠ "1970-01-01 00:00:00+00" := farText_ne t (by decide +kernel)
    have hsecond : farText (t + 2) ≠ "1970-01-01 00:00:00.000001+00" :=
      farText_ne t (by decide +kernel)
    change (if farText (t + 2) = "1970-01-01 00:00:00+00" then some 0
      else if farText (t + 2) = "1970-01-01 00:00:00.000001+00" then some 1
      else some (farText (t + 2)).length) = some (t + 2)
    rw [if_neg hfirst, if_neg hsecond]
    simp [farText]

private def sampleRow (id : String) (recordedAt : Timestamp) : StoredLog :=
  ⟨id, "u1", "a", recordedAt, none⟩

private def firstId : String := "0b5f2c1e-9a77-4d1b-8c0e-1f2a3b4c5d60"

private def secondId : String := "0b5f2c1e-9a77-4d1b-8c0e-1f2a3b4c5d61"

private def thirdId : String := "0b5f2c1e-9a77-4d1b-8c0e-1f2a3b4c5d62"

private def aheadId : String := "0b5f2c1e-9a77-4d1b-8c0e-1f2a3b4c5d63"

private def behindId : String := "0b5f2c1e-9a77-4d1b-8c0e-1f2a3b4c5d5f"

/-- Two of three rows share their instant. -/
def sampleLogs : LogsTable sampleColumns :=
  ⟨[sampleRow firstId 1, sampleRow secondId 0, sampleRow thirdId 1], by decide +kernel,
    by decide +kernel⟩

/-- A walk over a tie, with a row inserted ahead of it and one behind it. -/
theorem walk_contract_sample : ∃ walk,
    (machine sampleColumns { userId := some "u1", limit := 50 }).run (start sampleLogs)
      [.read 1, .insert (sampleRow aheadId 1), .insert (sampleRow behindId 1), .read 2,
        .read 500] = some walk ∧
    walk.ended = true ∧
    walk.rows = [sampleRow thirdId 1, sampleRow firstId 1, sampleRow behindId 1,
      sampleRow secondId 0] ∧
    WalkContract { userId := some "u1", limit := 50 } sampleLogs walk := by
  have hany : ((machine sampleColumns { userId := some "u1", limit := 50 }).run (start sampleLogs)
      [.read 1, .insert (sampleRow aheadId 1), .insert (sampleRow behindId 1), .read 2,
        .read 500]).any (fun walk => walk.ended && walk.rows == [sampleRow thirdId 1,
          sampleRow firstId 1, sampleRow behindId 1, sampleRow secondId 0]) = true := by
    decide +kernel
  obtain ⟨walk, hrun, hwalk⟩ := (Option.any_eq_true ..).mp hany
  rw [Bool.and_eq_true, beq_iff_eq] at hwalk
  exact ⟨walk, hrun, hwalk.1, hwalk.2,
    walk_contract sampleColumns_textsCastBack _ sampleLogs _ walk hrun⟩

end LogsWalk

end Geofence
