import Geofence.Framework.JsText
import Geofence.Logs.Listing
/-!
# What the texts of a cursor mean to the server

The decoder tests the form of both fields, and the statement then casts them. A text of the right
form casts only if it names an instant: a date of the calendar, a time of day and an offset.
-/

namespace Geofence

open Framework

namespace CursorText

def isLeapYear (year : Nat) : Bool := year % 4 = 0 && (year % 100 ≠ 0 || year % 400 = 0)

def daysInMonth (year : Nat) : Nat → Nat
  | 2 => if isLeapYear year then 29 else 28
  | 4 | 6 | 9 | 11 => 30
  | _ => 31

/-- A date of the calendar, which has no year zero. -/
def existingDate (year month day : Nat) : Bool :=
  1 ≤ year && 1 ≤ month && month ≤ 12 && 1 ≤ day && day ≤ daysInMonth year month

/-- The fraction of a second to the nearest microsecond, ties to even. -/
def microseconds (digits : List Char) : Nat :=
  let scaled := JsText.decimal digits * 1000000
  let unit := 10 ^ digits.length
  let below := scaled / unit
  if 2 * (scaled % unit) < unit || (2 * (scaled % unit) = unit && below % 2 = 0) then below
  else below + 1

/-- From midnight to midnight; a minute may have a leap second. -/
def timeOfDay (hour minute second microseconds : Nat) : Bool :=
  minute ≤ 59 && second ≤ 60 &&
    ((hour * 60 + minute) * 60 + second) * 1000000 + microseconds ≤ 24 * 60 * 60 * 1000000

/-- The offset behind its sign, less than sixteen hours; without one it is the session's. -/
def offsetInRange : List Char → Bool
  | [] => true
  | _ :: text => JsText.decimal (text.take 2) ≤ 15 && JsText.decimal (text.drop 3) ≤ 59

def splitFraction : List Char → List Char × List Char
  | '.' :: text => (text.takeWhile Char.isDigit, text.dropWhile Char.isDigit)
  | text => ([], text)

/-- A text of the form `timestamptz` asks for names an instant. -/
def namesInstant (text : String) : Bool :=
  let field (start length : Nat) := JsText.decimal ((text.toList.drop start).take length)
  let (fraction, offset) := splitFraction (text.toList.drop 19)
  existingDate (field 0 4) (field 5 2) (field 8 2) &&
    timeOfDay (field 11 2) (field 14 2) (field 17 2) (microseconds fraction) &&
    offsetInRange offset

example : namesInstant "2024-02-29 23:59:60.9999+15:59" = false := by decide +kernel

example : namesInstant "2024-02-29T24:00:00-12" = true := by decide +kernel

end CursorText

/-- A text of the right form casts to a `timestamptz` exactly when it names an instant, and every
text of the right form casts to a `uuid`. -/
structure PgColumns.CastsByMeaning (columns : PgColumns) : Prop where
  timestamptz : ∀ text, CursorText.timestamptz text = true →
    ((columns.timestamptz text).isSome ↔ CursorText.namesInstant text = true)
  uuid : ∀ text, CursorText.uuid text = true → (columns.uuid text).isSome

/-- The statement `list` issues, with the limit as its last parameter. -/
def Issues (query : ListLogsQueryDto) (clause : WhereClause) : Prop :=
  ∃ cursor, decodeCursor? query.cursor = .ok cursor ∧
    clause = ⟨(whereClause query cursor).conditions,
      (whereClause query cursor).params ++ [.int (query.limit + 1)]⟩

/-- Both casts of the condition on the cursor succeed. -/
structure WhereClause.CursorCasts (columns : PgColumns) (clause : WhereClause) : Prop where
  present : ∃ recordedAt id, .before recordedAt id ∈ clause.conditions
  succeed : ∀ recordedAt id, .before recordedAt id ∈ clause.conditions →
    ((textParam clause.params recordedAt).bind columns.timestamptz).isSome ∧
      ((textParam clause.params id).bind columns.uuid).isSome

/-- A request with this cursor is refused as malformed or issues a statement whose casts of the
cursor succeed, and it is no reason for the statement to fail. -/
structure CursorHarmless {columns : PgColumns} (table : LogsTable columns)
    (query : ListLogsQueryDto) (raw : String) : Prop where
  answer : list table { query with cursor := some raw } = .error (.badRequest MALFORMED_CURSOR) ∨
    ∃ clause, Issues { query with cursor := some raw } clause ∧ clause.CursorCasts columns
  no500 : (filters? columns query).isSome →
    list table { query with cursor := some raw } ≠ .error .queryFailed

/-- The pair of texts a cursor carries, of whatever form they are. -/
def carriedPair (raw : String) : Option (String × String) :=
  (String.fromUTF8? ⟨(Base64Url.decode raw).toArray⟩).bind JsonString.parsePair

theorem decodeLogsCursor_eq_ok_iff {raw : String} {cursor : LogsCursor} :
    decodeLogsCursor raw = .ok cursor ↔
      carriedPair raw = some (cursor.recordedAt, cursor.id) ∧ cursor.WellFormed := by
  unfold decodeLogsCursor carriedPair
  cases (String.fromUTF8? ⟨(Base64Url.decode raw).toArray⟩).bind JsonString.parsePair with
  | none =>
    constructor
    · intro h
      cases h
    · rintro ⟨h, -⟩
      cases h
  | some pair =>
    obtain ⟨recordedAt, id⟩ := pair
    dsimp only
    constructor
    · intro h
      split at h
      · rename_i hform
        cases h
        exact ⟨rfl, Bool.and_eq_true_iff.mp hform⟩
      · cases h
    · rintro ⟨hpair, hform⟩
      cases hpair
      rw [if_pos (Bool.and_eq_true_iff.mpr hform)]

private theorem decodeLogsCursor_cases (raw : String) :
    decodeLogsCursor raw = .error (.badRequest MALFORMED_CURSOR) ∨
      ∃ cursor, decodeLogsCursor raw = .ok cursor := by
  unfold decodeLogsCursor
  split
  · exact Or.inl rfl
  · split
    · exact Or.inr ⟨_, rfl⟩
    · exact Or.inl rfl

theorem before_mem_pushIf {clause : WhereClause} {value : Option String}
    {condition : Nat → LogCondition} (hcondition : ∀ n a b, condition n ≠ .before a b)
    {a b : Nat} (h : .before a b ∈ (clause.pushIf value condition).conditions) :
    .before a b ∈ clause.conditions := by
  cases value with
  | none => exact h
  | some text =>
    rcases List.mem_append.mp h with hold | hnew
    · exact hold
    · exact absurd (List.mem_singleton.mp hnew).symm (hcondition _ a b)

theorem before_not_mem_filters (query : ListLogsQueryDto) (a b : Nat) :
    .before a b ∉ (whereClause query none).conditions := by
  intro h
  have hto := before_mem_pushIf (by simp) h
  have hfrom := before_mem_pushIf (by simp) hto
  have harea := before_mem_pushIf (by simp) hfrom
  have huser := before_mem_pushIf (by simp) harea
  cases huser

theorem WhereClause.cursorCasts_pushCursor {columns : PgColumns} {clause : WhereClause}
    {cursor : LogsCursor} {more : List SqlParam}
    (hnone : ∀ a b, .before a b ∉ clause.conditions) :
    (WhereClause.mk (clause.pushCursor (some cursor)).conditions
        ((clause.pushCursor (some cursor)).params ++ more)).CursorCasts columns ↔
      (columns.timestamptz cursor.recordedAt).isSome ∧ (columns.uuid cursor.id).isSome := by
  obtain ⟨hfirst, hsecond⟩ := textParam_pushCursor
    (List.prefix_append (clause.pushCursor (some cursor)).params more)
  have hmem : .before (clause.params.length + 1) (clause.params.length + 2) ∈
      (clause.pushCursor (some cursor)).conditions :=
    List.mem_append_right _ (List.mem_singleton_self _)
  constructor
  · intro h
    have hcasts := h.succeed _ _ hmem
    rw [hfirst, hsecond] at hcasts
    exact hcasts
  · intro h
    refine ⟨⟨_, _, hmem⟩, ?_⟩
    intro a b hab
    rcases List.mem_append.mp hab with hold | hnew
    · exact absurd hold (hnone a b)
    · obtain ⟨rfl, rfl⟩ := LogCondition.before.inj (List.mem_singleton.mp hnew)
      rw [hfirst, hsecond]
      exact h

section Request

variable {columns : PgColumns} {table : LogsTable columns} {query : ListLogsQueryDto}
  {raw : String} {cursor : LogsCursor}

theorem list_of_malformed (table : LogsTable columns) (query : ListLogsQueryDto)
    (h : decodeLogsCursor raw = .error (.badRequest MALFORMED_CURSOR)) :
    list table { query with cursor := some raw } = .error (.badRequest MALFORMED_CURSOR) := by
  simp only [list, decodeCursor?, h, Except.map]

private theorem list_ne_badRequest (h : decodeLogsCursor raw = .ok cursor) (message : String) :
    list table { query with cursor := some raw } ≠ .error (.badRequest message) := by
  simp only [list, decodeCursor?, h, Except.map]
  split
  · simp
  · simp

private theorem list_ne_queryFailed (h : decodeLogsCursor raw = .ok cursor)
    (hfilters : (filters? columns query).isSome)
    (htimestamptz : (columns.timestamptz cursor.recordedAt).isSome)
    (huuid : (columns.uuid cursor.id).isSome) :
    list table { query with cursor := some raw } ≠ .error .queryFailed := by
  obtain ⟨keep, hkeep⟩ := Option.isSome_iff_exists.mp hfilters
  obtain ⟨t, ht⟩ := Option.isSome_iff_exists.mp htimestamptz
  obtain ⟨id, hid⟩ := Option.isSome_iff_exists.mp huuid
  have hfilters : filters? columns { query with cursor := some raw } = some keep := hkeep
  have hposition : startPosition? columns (some cursor) = some (some (toLex (t, id))) := by
    simp [startPosition?, LogsCursor.position?, ht, hid]
  simp only [list, decodeCursor?, h, Except.map]
  rw [selectLogs_eq, hfilters, hposition]
  simp

private theorem list_of_uncast (table : LogsTable columns) (query : ListLogsQueryDto)
    (h : decodeLogsCursor raw = .ok cursor) (hcast : columns.timestamptz cursor.recordedAt = none) :
    list table { query with cursor := some raw } = .error .queryFailed := by
  have hposition : startPosition? columns (some cursor) = none := by
    simp [startPosition?, LogsCursor.position?, hcast]
  simp only [list, decodeCursor?, h, Except.map]
  rw [selectLogs_eq, hposition]
  simp

theorem issues_iff (h : decodeLogsCursor raw = .ok cursor) {clause : WhereClause} :
    Issues { query with cursor := some raw } clause ↔
      clause = ⟨(whereClause query (some cursor)).conditions,
        (whereClause query (some cursor)).params ++ [.int (query.limit + 1)]⟩ := by
  unfold Issues
  simp only [decodeCursor?, h, Except.map, Except.ok.injEq, exists_eq_left']
  rfl

/-- A cursor that is not refused is harmless exactly when its timestamp casts. -/
theorem cursorHarmless_of_decoded (hcolumns : columns.CastsByMeaning)
    (h : decodeLogsCursor raw = .ok cursor) :
    CursorHarmless table query raw ↔ CursorText.namesInstant cursor.recordedAt = true := by
  obtain ⟨-, hrecordedAt, hid⟩ := decodeLogsCursor_eq_ok_iff.mp h
  have huuid := hcolumns.uuid cursor.id hid
  rw [← hcolumns.timestamptz cursor.recordedAt hrecordedAt]
  constructor
  · intro hharmless
    rcases hharmless.answer with hrefused | ⟨clause, hissues, hcasts⟩
    · exact absurd hrefused (list_ne_badRequest h _)
    · rw [(issues_iff h).mp hissues] at hcasts
      exact ((WhereClause.cursorCasts_pushCursor (before_not_mem_filters query)).mp hcasts).1
  · intro htimestamptz
    refine ⟨Or.inr ⟨_, (issues_iff h).mpr rfl, ?_⟩, fun hfilters => ?_⟩
    · exact (WhereClause.cursorCasts_pushCursor (before_not_mem_filters query)).mpr
        ⟨htimestamptz, huuid⟩
    · exact list_ne_queryFailed h hfilters htimestamptz huuid

private theorem cursorHarmless_of_malformed
    (h : decodeLogsCursor raw = .error (.badRequest MALFORMED_CURSOR)) :
    CursorHarmless table query raw := by
  refine ⟨Or.inl (list_of_malformed table query h), fun _ => ?_⟩
  rw [list_of_malformed table query h]
  simp

end Request

/-- A cursor is harmless exactly when it does not carry a text of the form of a timestamp, beside
one of the form of a uuid, that names no instant. -/
theorem cursor_harmless_iff (columns : PgColumns) (hcolumns : columns.CastsByMeaning)
    (table : LogsTable columns) (query : ListLogsQueryDto) (raw : String) :
    CursorHarmless table query raw ↔
      ∀ recordedAt id, carriedPair raw = some (recordedAt, id) →
        CursorText.timestamptz recordedAt = true → CursorText.uuid id = true →
          CursorText.namesInstant recordedAt = true := by
  rcases decodeLogsCursor_cases raw with hmalformed | ⟨cursor, hok⟩
  · refine ⟨fun _ recordedAt id hpair hform huuid => ?_,
      fun _ => cursorHarmless_of_malformed hmalformed⟩
    have hok : decodeLogsCursor raw = .ok ⟨recordedAt, id⟩ :=
      decodeLogsCursor_eq_ok_iff.mpr ⟨hpair, hform, huuid⟩
    rw [hmalformed] at hok
    cases hok
  · obtain ⟨hcarried, hform⟩ := decodeLogsCursor_eq_ok_iff.mp hok
    rw [cursorHarmless_of_decoded hcolumns hok]
    constructor
    · intro hnames recordedAt id hpair _ _
      rw [hcarried, Option.some.injEq, Prod.mk.injEq] at hpair
      rw [← hpair.1]
      exact hnames
    · intro hall
      exact hall _ _ hcarried hform.1 hform.2

/-- The cast of the texts this development has values for. -/
private def epochColumns : PgColumns where
  timestamptz text := if CursorText.namesInstant text then some 0 else none
  timestamptzText _ := "1970-01-01 00:00:00+00"
  uuid text := if CursorText.uuid text then some text.toLower else none
  isoText _ := "1970-01-01T00:00:00.000Z"

private theorem epochColumns_castsByMeaning : epochColumns.CastsByMeaning := by
  refine ⟨fun text _ => ?_, fun text huuid => ?_⟩
  · simp only [epochColumns]
    split
    · rename_i hnames
      simp [hnames]
    · rename_i hnames
      simp [hnames]
  · simp [epochColumns, huuid]

private def noLogs : LogsTable epochColumns := ⟨[], List.nodup_nil, fun _ h => nomatch h⟩

private def cursorAt (recordedAt : String) : LogsCursor :=
  ⟨recordedAt, "78c2098f-7b44-4e3e-afc5-ac2ce7d016e9"⟩

theorem cursor_harmless_iff_epoch :
    epochColumns.CastsByMeaning ∧
      CursorHarmless noLogs { limit := 50 }
        (encodeLogsCursor (cursorAt "1970-01-01 00:00:00+00")) := by
  have hform : (cursorAt "1970-01-01 00:00:00+00").WellFormed := by
    unfold LogsCursor.WellFormed
    decide +kernel
  have hcarried := (decodeLogsCursor_eq_ok_iff.mp (decodeLogsCursor_of_wellFormed hform)).1
  refine ⟨epochColumns_castsByMeaning,
    (cursor_harmless_iff _ epochColumns_castsByMeaning noLogs _ _).mpr ?_⟩
  intro recordedAt id hpair _ _
  rw [hcarried, Option.some.injEq, Prod.mk.injEq] at hpair
  rw [← hpair.1]
  decide +kernel

/-- The thirtieth of February has the form of a date. -/
theorem cursor_fails_statement :
    list noLogs { cursor := encodeLogsCursor (cursorAt "2026-02-30 00:00:00+00"), limit := 50 } =
      .error .queryFailed ∧
    ¬ CursorHarmless noLogs { limit := 50 }
      (encodeLogsCursor (cursorAt "2026-02-30 00:00:00+00")) := by
  have hform : (cursorAt "2026-02-30 00:00:00+00").WellFormed := by
    unfold LogsCursor.WellFormed
    decide +kernel
  have hdecode := decodeLogsCursor_of_wellFormed hform
  have hnames : CursorText.namesInstant "2026-02-30 00:00:00+00" = false := by
    decide +kernel
  constructor
  · apply list_of_uncast noLogs { limit := 50 } hdecode
    simp [epochColumns, cursorAt, hnames]
  · rw [cursorHarmless_of_decoded epochColumns_castsByMeaning hdecode]
    simp [cursorAt, hnames]

end Geofence
