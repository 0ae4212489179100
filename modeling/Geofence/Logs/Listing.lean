import Geofence.Database.Tables
import Geofence.Framework.KeysetWalk
import Geofence.Logs.Cursor
import Mathlib.Data.Prod.Lex
import Mathlib.Data.List.Sort
import Mathlib.Data.String.Basic
/-!
# `LogsService.list`

One page: the `WHERE` clause with its positional parameters, the ordered read of one row more than
the page holds, and the cursor made of the last row of the page. What the server does with the
texts of timestamps and uuids is its own affair.
-/

namespace Geofence

open Framework

/-- The casts and texts of the server, and the driver's `Date` as `toISOString` gives it. -/
structure PgColumns where
  timestamptz : String → Option Timestamp
  timestamptzText : Timestamp → String
  uuid : String → Option String
  isoText : Timestamp → String

/-- The text the server gives for a value casts back to it. -/
def PgColumns.TextsCastBack (columns : PgColumns) : Prop :=
  ∀ t, columns.timestamptz (columns.timestamptzText t) = some t

/-- A row of `logs` with the id the server gave it. -/
structure StoredLog where
  id : String
  userId : UserId
  areaId : AreaId
  recordedAt : Timestamp
  capturedAt : Option Timestamp
  deriving DecidableEq, Repr

/-- `("recorded_at", "id")`, compared as a row value. -/
def StoredLog.key (row : StoredLog) : Timestamp ×ₗ String := toLex (row.recordedAt, row.id)

/-- Ids are unique, and each is the text its own uuid has. -/
structure LogsTable (columns : PgColumns) where
  rows : List StoredLog
  primaryKey : (rows.map StoredLog.id).Nodup
  canonical : ∀ row ∈ rows, columns.uuid row.id = some row.id

structure ListLogsQueryDto where
  userId : Option String := none
  areaId : Option String := none
  recordedFrom : Option String := none
  recordedTo : Option String := none
  cursor : Option String := none
  limit : Nat

inductive SqlParam where
  | text (value : String)
  | int (value : Nat)
  deriving DecidableEq, Repr

/-- A condition of the `WHERE` clause; the numbers are those of its `$n`. -/
inductive LogCondition where
  | userIdIs (n : Nat)
  | areaIdIs (n : Nat)
  | recordedAtLeast (n : Nat)
  | recordedAtMost (n : Nat)
  | before (recordedAt id : Nat)
  deriving DecidableEq, Repr

/-- `conditions` and `params` while the clause is built. -/
structure WhereClause where
  conditions : List LogCondition
  params : List SqlParam

/-- `conditions.push(... $${bind(value)} ...)`, where `bind` gives the new length of `params`. -/
def WhereClause.pushIf (clause : WhereClause) (value : Option String)
    (condition : Nat → LogCondition) : WhereClause :=
  match value with
  | none => clause
  | some value =>
    ⟨clause.conditions ++ [condition (clause.params.length + 1)], clause.params ++ [.text value]⟩

/-- The condition of the cursor binds two parameters. -/
def WhereClause.pushCursor (clause : WhereClause) (cursor : Option LogsCursor) : WhereClause :=
  match cursor with
  | none => clause
  | some cursor =>
    ⟨clause.conditions ++ [.before (clause.params.length + 1) (clause.params.length + 2)],
      clause.params ++ [.text cursor.recordedAt, .text cursor.id]⟩

def whereClause (query : ListLogsQueryDto) (cursor : Option LogsCursor) : WhereClause :=
  ((((WhereClause.mk [] []).pushIf query.userId .userIdIs).pushIf query.areaId .areaIdIs).pushIf
    query.recordedFrom .recordedAtLeast).pushIf query.recordedTo .recordedAtMost
    |>.pushCursor cursor

def textParam (params : List SqlParam) (n : Nat) : Option String :=
  match params[n - 1]? with
  | some (.text value) => some value
  | _ => none

def intParam (params : List SqlParam) (n : Nat) : Option Nat :=
  match params[n - 1]? with
  | some (.int value) => some value
  | _ => none

/-- A condition with its parameters cast; a text that does not cast fails the query. -/
def LogCondition.predicate (columns : PgColumns) (params : List SqlParam) :
    LogCondition → Option (StoredLog → Bool)
  | .userIdIs n => (textParam params n).map fun userId row => row.userId = userId
  | .areaIdIs n =>
    ((textParam params n).bind columns.uuid).map fun areaId row => row.areaId = areaId
  | .recordedAtLeast n =>
    ((textParam params n).bind columns.timestamptz).map fun t row => t ≤ row.recordedAt
  | .recordedAtMost n =>
    ((textParam params n).bind columns.timestamptz).map fun t row => row.recordedAt ≤ t
  | .before recordedAt id => do
    let t ← (textParam params recordedAt).bind columns.timestamptz
    let id ← (textParam params id).bind columns.uuid
    return fun row => row.key < toLex (t, id)

/-- `SELECT ... WHERE ... ORDER BY "recorded_at" DESC, "id" DESC LIMIT $n` -/
def selectLogs {columns : PgColumns} (table : LogsTable columns) (conditions : List LogCondition)
    (params : List SqlParam) (limit : Nat) : Option (List StoredLog) := do
  let predicates ← conditions.mapM (LogCondition.predicate columns params)
  let limit ← intParam params limit
  return ((table.rows.filter fun row => predicates.all fun p => p row).insertionSort
    fun a b => b.key ≤ a.key).take limit

structure LogItemDto where
  id : String
  userId : UserId
  areaId : AreaId
  recordedAt : String
  capturedAt : Option String
  deriving DecidableEq, Repr

/-- A page with the rows it was made of. -/
structure LogsPage where
  rows : List StoredLog
  nextCursor : Option String
  deriving DecidableEq, Repr

def StoredLog.item (columns : PgColumns) (row : StoredLog) : LogItemDto where
  id := row.id
  userId := row.userId
  areaId := row.areaId
  recordedAt := columns.isoText row.recordedAt
  capturedAt := row.capturedAt.map columns.isoText

def LogsPage.items (columns : PgColumns) (page : LogsPage) : List LogItemDto :=
  page.rows.map (StoredLog.item columns)

def decodeCursor? : Option String → Except LogsError (Option LogsCursor)
  | none => .ok none
  | some raw => (decodeLogsCursor raw).map some

def list {columns : PgColumns} (table : LogsTable columns) (query : ListLogsQueryDto) :
    Except LogsError LogsPage :=
  match decodeCursor? query.cursor with
  | .error e => .error e
  | .ok cursor =>
    let clause := whereClause query cursor
    let params := clause.params ++ [.int (query.limit + 1)]
    match selectLogs table clause.conditions params params.length with
    | none => .error .queryFailed
    | some rows =>
      let hasMore := decide (query.limit < rows.length)
      let page := if hasMore then rows.take query.limit else rows
      .ok ⟨page,
        if hasMore then page.getLast?.map fun lastRow =>
          encodeLogsCursor ⟨columns.timestamptzText lastRow.recordedAt, lastRow.id⟩
        else none⟩

/-! ## What the clause means -/

/-- A row passes both conditions; a query with a text that does not cast has no rows at all. -/
def conjoin (p q : Option (StoredLog → Bool)) : Option (StoredLog → Bool) :=
  p.bind fun p => q.map fun q row => p row && q row

/-- A condition that is only there when its parameter is. -/
def whenGiven {β : Type} (value : Option β) (meaning : β → Option (StoredLog → Bool)) :
    Option (StoredLog → Bool) :=
  match value with
  | none => some fun _ => true
  | some value => meaning value

/-- The filters of a query, without the positions their parameters have. -/
def filters? (columns : PgColumns) (query : ListLogsQueryDto) : Option (StoredLog → Bool) :=
  conjoin (conjoin (conjoin (conjoin (some fun _ => true)
    (whenGiven query.userId fun userId => some fun row => row.userId = userId))
    (whenGiven query.areaId fun text =>
      (columns.uuid text).map fun areaId row => row.areaId = areaId))
    (whenGiven query.recordedFrom fun text =>
      (columns.timestamptz text).map fun t row => t ≤ row.recordedAt))
    (whenGiven query.recordedTo fun text =>
      (columns.timestamptz text).map fun t row => row.recordedAt ≤ t)

/-- The position a cursor stands for. -/
def LogsCursor.position? (columns : PgColumns) (cursor : LogsCursor) :
    Option (Timestamp ×ₗ String) := do
  let t ← columns.timestamptz cursor.recordedAt
  let id ← columns.uuid cursor.id
  return toLex (t, id)

/-- What a clause means for a row under a parameter list. -/
def WhereClause.meaning (columns : PgColumns) (params : List SqlParam) (clause : WhereClause) :
    Option (StoredLog → Bool) :=
  (clause.conditions.mapM (LogCondition.predicate columns params)).map
    fun predicates row => predicates.all fun p => p row

theorem textParam_of_extension {params more all : List SqlParam} {value : String}
    (h : params ++ .text value :: more <+: all) :
    textParam all (params.length + 1) = some value := by
  obtain ⟨rest, rfl⟩ := h
  simp [textParam]

private theorem meaning_push (columns : PgColumns) (params : List SqlParam)
    (conditions : List LogCondition) (more : List SqlParam) (condition : LogCondition) :
    (WhereClause.mk (conditions ++ [condition]) more).meaning columns params =
      conjoin ((WhereClause.mk conditions more).meaning columns params)
        (condition.predicate columns params) := by
  unfold WhereClause.meaning conjoin
  rw [List.mapM_append]
  cases conditions.mapM (LogCondition.predicate columns params) with
  | none => rfl
  | some predicates =>
    cases hlast : condition.predicate columns params with
    | none => simp [hlast]
    | some p => simp [hlast]

theorem WhereClause.meaning_pushIf {columns : PgColumns} {params : List SqlParam}
    {clause : WhereClause} {value : Option String} {condition : Nat → LogCondition}
    {reading : String → Option (StoredLog → Bool)}
    (hreading : ∀ n text, textParam params n = some text →
      (condition n).predicate columns params = reading text)
    (hparams : (clause.pushIf value condition).params <+: params) :
    (clause.pushIf value condition).meaning columns params =
      conjoin (clause.meaning columns params) (whenGiven value reading) := by
  cases value with
  | none =>
    change clause.meaning columns params = conjoin (clause.meaning columns params)
      (some fun _ => true)
    unfold conjoin
    cases clause.meaning columns params with
    | none => rfl
    | some p => simp
  | some text =>
    have htext := textParam_of_extension hparams
    simp only [pushIf, whenGiven]
    rw [meaning_push, hreading _ _ htext]
    rfl

theorem WhereClause.textParam_pushCursor {params : List SqlParam} {clause : WhereClause}
    {cursor : LogsCursor} (hparams : (clause.pushCursor (some cursor)).params <+: params) :
    textParam params (clause.params.length + 1) = some cursor.recordedAt ∧
      textParam params (clause.params.length + 2) = some cursor.id := by
  have hprefix : (clause.params ++ [.text cursor.recordedAt]) ++ [.text cursor.id] <+: params := by
    rw [List.append_assoc]
    exact hparams
  have htext := textParam_of_extension hprefix
  rw [List.length_append, List.length_singleton] at htext
  exact ⟨textParam_of_extension hparams, htext⟩

private theorem WhereClause.meaning_pushCursor {columns : PgColumns} {params : List SqlParam}
    {clause : WhereClause} {cursor : Option LogsCursor}
    (hparams : (clause.pushCursor cursor).params <+: params) :
    (clause.pushCursor cursor).meaning columns params =
      conjoin (clause.meaning columns params) (whenGiven cursor fun cursor =>
        (cursor.position? columns).map fun pos row => decide (row.key < pos)) := by
  cases cursor with
  | none =>
    change clause.meaning columns params = conjoin (clause.meaning columns params)
      (some fun _ => true)
    unfold conjoin
    cases clause.meaning columns params with
    | none => rfl
    | some p => simp
  | some cursor =>
    obtain ⟨hfirst, hsecond⟩ := textParam_pushCursor hparams
    simp only [pushCursor, whenGiven]
    rw [meaning_push]
    simp only [LogCondition.predicate, hfirst, hsecond, Option.bind_some, LogsCursor.position?]
    congr 1
    cases columns.timestamptz cursor.recordedAt with
    | none => rfl
    | some t =>
      cases columns.uuid cursor.id with
      | none => rfl
      | some id => rfl

theorem WhereClause.params_pushIf (clause : WhereClause) (value : Option String)
    (condition : Nat → LogCondition) : clause.params <+: (clause.pushIf value condition).params := by
  cases value with
  | none => exact List.prefix_rfl
  | some text => exact List.prefix_append _ _

private theorem WhereClause.params_pushCursor (clause : WhereClause) (cursor : Option LogsCursor) :
    clause.params <+: (clause.pushCursor cursor).params := by
  cases cursor with
  | none => exact List.prefix_rfl
  | some cursor => exact List.prefix_append _ _

/-- Every condition of the clause gets the parameter it was built for. -/
private theorem meaning_whereClause {columns : PgColumns} {query : ListLogsQueryDto}
    {cursor : Option LogsCursor} {params : List SqlParam}
    (hparams : (whereClause query cursor).params <+: params) :
    (whereClause query cursor).meaning columns params =
      conjoin (filters? columns query) (whenGiven cursor fun cursor =>
        (cursor.position? columns).map fun pos row => decide (row.key < pos)) := by
  have hto := (WhereClause.params_pushCursor _ cursor).trans hparams
  have hfrom := (WhereClause.params_pushIf _ query.recordedTo .recordedAtMost).trans hto
  have harea := (WhereClause.params_pushIf _ query.recordedFrom .recordedAtLeast).trans hfrom
  have huser := (WhereClause.params_pushIf _ query.areaId .areaIdIs).trans harea
  unfold whereClause filters?
  rw [WhereClause.meaning_pushCursor hparams, WhereClause.meaning_pushIf ?_ hto,
    WhereClause.meaning_pushIf ?_ hfrom, WhereClause.meaning_pushIf ?_ harea,
    WhereClause.meaning_pushIf ?_ huser]
  · rfl
  · intro n text htext
    simp [LogCondition.predicate, htext]
  · intro n text htext
    simp [LogCondition.predicate, htext]
  · intro n text htext
    simp [LogCondition.predicate, htext]
  · intro n text htext
    simp [LogCondition.predicate, htext]

/-- The position a read starts below. -/
def startPosition? (columns : PgColumns) : Option LogsCursor →
    Option (Option (Timestamp ×ₗ String))
  | none => some none
  | some cursor => (cursor.position? columns).map some

/-- The rows of the statement: those below the position that pass the filters, newest first. -/
theorem selectLogs_eq {columns : PgColumns} (table : LogsTable columns) (query : ListLogsQueryDto)
    (cursor : Option LogsCursor) (limit : Nat) :
    selectLogs table (whereClause query cursor).conditions
        ((whereClause query cursor).params ++ [SqlParam.int limit])
        ((whereClause query cursor).params ++ [SqlParam.int limit]).length =
      (filters? columns query).bind fun keep => (startPosition? columns cursor).map fun pos =>
        (rowsBelow StoredLog.key keep pos table.rows).take limit := by
  have hmeaning : (whereClause query cursor).meaning columns
      ((whereClause query cursor).params ++ [SqlParam.int limit]) = _ :=
    meaning_whereClause (List.prefix_append _ _)
  have hlimit : intParam ((whereClause query cursor).params ++ [SqlParam.int limit])
      ((whereClause query cursor).params ++ [SqlParam.int limit]).length = some limit := by
    simp [intParam]
  unfold WhereClause.meaning at hmeaning
  unfold selectLogs
  cases hpredicates : (whereClause query cursor).conditions.mapM (LogCondition.predicate columns
      ((whereClause query cursor).params ++ [SqlParam.int limit])) with
  | none =>
    rw [hpredicates] at hmeaning
    cases hkeep : filters? columns query with
    | none => rfl
    | some keep =>
      cases cursor with
      | none => simp [conjoin, whenGiven, hkeep] at hmeaning
      | some cursor =>
        cases hpos : cursor.position? columns with
        | none => simp [startPosition?, hpos]
        | some pos => simp [conjoin, whenGiven, hkeep, hpos] at hmeaning
  | some predicates =>
    rw [hpredicates] at hmeaning
    simp only [hlimit, bind, Option.bind_some, pure]
    cases hkeep : filters? columns query with
    | none => simp [conjoin, hkeep] at hmeaning
    | some keep =>
      cases cursor with
      | none =>
        simp only [conjoin, whenGiven, hkeep, Option.map_some, Option.bind_some,
          Option.some.injEq] at hmeaning
        simp only [Option.bind_some, startPosition?, Option.map_some, Option.some.injEq, rowsBelow,
          Option.all_none]
        have hpred : ∀ row, (predicates.all fun p => p row) = (keep row && true) :=
          fun row => congrFun hmeaning row
        simp only [hpred]
      | some cursor =>
        cases hpos : cursor.position? columns with
        | none => simp [conjoin, whenGiven, hkeep, hpos] at hmeaning
        | some pos =>
          simp only [conjoin, whenGiven, hkeep, hpos, Option.map_some, Option.bind_some,
            Option.some.injEq] at hmeaning
          simp only [Option.bind_some, startPosition?, hpos, Option.map_some, Option.some.injEq,
            rowsBelow, Option.all_some]
          have hpred : ∀ row, (predicates.all fun p => p row) =
              (keep row && decide (row.key < pos)) := fun row => congrFun hmeaning row
          simp only [hpred]

/-- A row passes every filter the query gives. -/
structure SatisfiesFilters (columns : PgColumns) (query : ListLogsQueryDto) (row : StoredLog) :
    Prop where
  userId : ∀ userId, query.userId = some userId → row.userId = userId
  areaId : ∀ text, query.areaId = some text → columns.uuid text = some row.areaId
  recordedFrom : ∀ text, query.recordedFrom = some text →
    ∃ t, columns.timestamptz text = some t ∧ t ≤ row.recordedAt
  recordedTo : ∀ text, query.recordedTo = some text →
    ∃ t, columns.timestamptz text = some t ∧ row.recordedAt ≤ t

theorem conjoin_eq_some {p q : Option (StoredLog → Bool)} {keep : StoredLog → Bool}
    (h : conjoin p q = some keep) :
    ∃ p' q', p = some p' ∧ q = some q' ∧ ∀ row, keep row = (p' row && q' row) := by
  unfold conjoin at h
  obtain ⟨p', hp, hrest⟩ := Option.bind_eq_some_iff.mp h
  obtain ⟨q', hq, rfl⟩ := Option.map_eq_some_iff.mp hrest
  exact ⟨p', q', hp, hq, fun row => rfl⟩

theorem whenGiven_eq_some {β : Type} {value : Option β} {meaning : β → Option (StoredLog → Bool)}
    {keep : StoredLog → Bool} (h : whenGiven value meaning = some keep) (row : StoredLog) :
    keep row = true ↔ ∀ v, value = some v → ∃ p, meaning v = some p ∧ p row = true := by
  cases value with
  | none =>
    cases h
    simp
  | some v =>
    have hmeaning : meaning v = some keep := h
    constructor
    · intro hkeep w hw
      cases hw
      exact ⟨keep, hmeaning, hkeep⟩
    · intro hall
      obtain ⟨p, hp, hrow⟩ := hall v rfl
      rw [hmeaning] at hp
      cases hp
      exact hrow

theorem filters?_iff {columns : PgColumns} {query : ListLogsQueryDto} {keep : StoredLog → Bool}
    (h : filters? columns query = some keep) (row : StoredLog) :
    keep row = true ↔ SatisfiesFilters columns query row := by
  obtain ⟨p₃, upTo, h₃, hupTo, hkeep₃⟩ := conjoin_eq_some h
  obtain ⟨p₂, since, h₂, hsince, hkeep₂⟩ := conjoin_eq_some h₃
  obtain ⟨p₁, area, h₁, harea, hkeep₁⟩ := conjoin_eq_some h₂
  obtain ⟨p₀, user, h₀, huser, hkeep₀⟩ := conjoin_eq_some h₁
  cases h₀
  rw [hkeep₃, hkeep₂, hkeep₁, hkeep₀, Bool.true_and, Bool.and_eq_true, Bool.and_eq_true,
    Bool.and_eq_true, whenGiven_eq_some huser, whenGiven_eq_some harea, whenGiven_eq_some hsince,
    whenGiven_eq_some hupTo]
  constructor
  · intro hall
    obtain ⟨⟨⟨hu, ha⟩, hs⟩, ht⟩ := hall
    refine ⟨?_, ?_, ?_, ?_⟩
    · intro userId hgiven
      obtain ⟨p, hp, hrow⟩ := hu userId hgiven
      cases hp
      simpa using hrow
    · intro text hgiven
      obtain ⟨p, hp, hrow⟩ := ha text hgiven
      obtain ⟨areaId, hcast, rfl⟩ := Option.map_eq_some_iff.mp hp
      have hareaId : row.areaId = areaId := by simpa using hrow
      rw [hcast, hareaId]
    · intro text hgiven
      obtain ⟨p, hp, hrow⟩ := hs text hgiven
      obtain ⟨t, hcast, rfl⟩ := Option.map_eq_some_iff.mp hp
      exact ⟨t, hcast, by simpa using hrow⟩
    · intro text hgiven
      obtain ⟨p, hp, hrow⟩ := ht text hgiven
      obtain ⟨t, hcast, rfl⟩ := Option.map_eq_some_iff.mp hp
      exact ⟨t, hcast, by simpa using hrow⟩
  · intro hsat
    refine ⟨⟨⟨?_, ?_⟩, ?_⟩, ?_⟩
    · intro userId hgiven
      exact ⟨_, rfl, by simpa using hsat.userId userId hgiven⟩
    · intro text hgiven
      exact ⟨_, Option.map_eq_some_iff.mpr ⟨_, hsat.areaId text hgiven, rfl⟩, by simp⟩
    · intro text hgiven
      obtain ⟨t, hcast, hle⟩ := hsat.recordedFrom text hgiven
      exact ⟨_, Option.map_eq_some_iff.mpr ⟨t, hcast, rfl⟩, by simpa using hle⟩
    · intro text hgiven
      obtain ⟨t, hcast, hle⟩ := hsat.recordedTo text hgiven
      exact ⟨_, Option.map_eq_some_iff.mpr ⟨t, hcast, rfl⟩, by simpa using hle⟩

/-- The cursor of a row. -/
def StoredLog.cursor (columns : PgColumns) (row : StoredLog) : LogsCursor :=
  ⟨columns.timestamptzText row.recordedAt, row.id⟩

theorem list_eq_ok {columns : PgColumns} {table : LogsTable columns} {query : ListLogsQueryDto}
    {page : LogsPage} (h : list table query = .ok page) :
    ∃ cursor keep pos, decodeCursor? query.cursor = .ok cursor ∧
      filters? columns query = some keep ∧ startPosition? columns cursor = some pos ∧
      page.rows = (rowsBelow StoredLog.key keep pos table.rows).take query.limit ∧
      page.nextCursor =
        if query.limit < (rowsBelow StoredLog.key keep pos table.rows).length then
          page.rows.getLast?.map fun row => encodeLogsCursor (row.cursor columns)
        else none := by
  unfold list at h
  cases hcursor : decodeCursor? query.cursor with
  | error e => simp [hcursor] at h
  | ok cursor =>
    simp only [hcursor, selectLogs_eq] at h
    cases hkeep : filters? columns query with
    | none => simp [hkeep] at h
    | some keep =>
      cases hpos : startPosition? columns cursor with
      | none => simp [hkeep, hpos] at h
      | some pos =>
        simp only [hkeep, hpos, Option.bind_some, Option.map_some, Except.ok.injEq] at h
        subst h
        refine ⟨cursor, keep, pos, rfl, rfl, hpos, ?_⟩
        by_cases hmore : query.limit < (rowsBelow StoredLog.key keep pos table.rows).length
        · have hlength : query.limit <
              ((rowsBelow StoredLog.key keep pos table.rows).take (query.limit + 1)).length := by
            rw [List.length_take]
            omega
          have htake : ((rowsBelow StoredLog.key keep pos table.rows).take
              (query.limit + 1)).take query.limit =
              (rowsBelow StoredLog.key keep pos table.rows).take query.limit := by
            rw [List.take_take]
            congr 1
            omega
          simp only [hlength, decide_true, if_true, htake, hmore]
          exact ⟨trivial, rfl⟩
        · have htake : (rowsBelow StoredLog.key keep pos table.rows).take (query.limit + 1) =
              (rowsBelow StoredLog.key keep pos table.rows).take query.limit := by
            rw [List.take_of_length_le (by omega), List.take_of_length_le (by omega)]
          simp [htake, hmore]

end Geofence
