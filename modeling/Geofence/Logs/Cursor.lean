import Geofence.Framework.Base64Url
import Geofence.Framework.JsonString
/-!
# The keyset cursor of `GET /logs`

A cursor is a position: the `recorded_at` of a row as the text Postgres gives for it, and the
row's id. It travels as base64url of a JSON pair and is checked when it comes back.
-/

namespace Geofence

open Framework

structure LogsCursor where
  recordedAt : String
  id : String
  deriving DecidableEq, Repr

inductive LogsError where
  | badRequest (message : String)
  | queryFailed
  deriving DecidableEq, Repr

def MALFORMED_CURSOR : String :=
  "malformed cursor: pass the nextCursor value from a previous response, unmodified"

namespace CursorText

/-- The given number of characters of a class. -/
def take (p : Char → Bool) : Nat → List Char → Option (List Char)
  | 0, text => some text
  | n + 1, c :: text => if p c then take p n text else none
  | _ + 1, [] => none

def isHex (c : Char) : Bool := c.isDigit || ('a' ≤ c && c ≤ 'f') || ('A' ≤ c && c ≤ 'F')

def dash (c : Char) : Bool := c = '-'

def colon (c : Char) : Bool := c = ':'

/-- `([+-]\d{2}(:\d{2})?)?$` -/
def offset (text : List Char) : Bool :=
  match text with
  | [] => true
  | _ =>
    match take (fun c => c = '+' || c = '-') 1 text >>= take Char.isDigit 2 with
    | none => false
    | some [] => true
    | some rest => (take colon 1 rest >>= take Char.isDigit 2) = some []

/-- `(\.\d+)?` and the offset behind it. -/
def fraction : List Char → Bool
  | '.' :: c :: rest => c.isDigit && offset (rest.dropWhile Char.isDigit)
  | text => offset text

/-- `PG_TIMESTAMPTZ_TEXT` -/
def timestamptz (text : String) : Bool :=
  match take Char.isDigit 4 text.toList >>= take dash 1 >>= take Char.isDigit 2 >>= take dash 1 >>=
      take Char.isDigit 2 >>= take (fun c => c = ' ' || c = 'T') 1 >>= take Char.isDigit 2 >>=
      take colon 1 >>= take Char.isDigit 2 >>= take colon 1 >>= take Char.isDigit 2 with
  | none => false
  | some rest => fraction rest

/-- `UUID` -/
def uuid (text : String) : Bool :=
  (take isHex 8 text.toList >>= take dash 1 >>= take isHex 4 >>= take dash 1 >>= take isHex 4 >>=
    take dash 1 >>= take isHex 4 >>= take dash 1 >>= take isHex 12) = some []

end CursorText

def encodeLogsCursor (cursor : LogsCursor) : String :=
  Base64Url.encode (JsonString.stringifyPair cursor.recordedAt cursor.id).toByteArray.data.toList

/-- Bytes that are not UTF-8 and texts that are not a pair of strings are refused like a pair that
fails the tests. -/
def decodeLogsCursor (raw : String) : Except LogsError LogsCursor :=
  match (String.fromUTF8? ⟨(Base64Url.decode raw).toArray⟩).bind JsonString.parsePair with
  | none => .error (.badRequest MALFORMED_CURSOR)
  | some (recordedAt, id) =>
    if CursorText.timestamptz recordedAt && CursorText.uuid id then .ok ⟨recordedAt, id⟩
    else .error (.badRequest MALFORMED_CURSOR)

private theorem fromUTF8?_toByteArray (text : String) :
    String.fromUTF8? ⟨text.toByteArray.data.toList.toArray⟩ = some text := by
  have hvalid : ByteArray.IsValidUTF8 ⟨text.toByteArray.data.toList.toArray⟩ := by
    rw [Array.toArray_toList]
    exact text.isValidUTF8
  unfold String.fromUTF8?
  rw [dif_pos hvalid, Option.some.injEq, ← String.toByteArray_inj]
  simp [String.fromUTF8]

/-- A cursor that was handed out comes back as it was, or not at all. -/
theorem decodeLogsCursor_encode (cursor : LogsCursor) :
    decodeLogsCursor (encodeLogsCursor cursor) =
      if CursorText.timestamptz cursor.recordedAt && CursorText.uuid cursor.id then .ok cursor
      else .error (.badRequest MALFORMED_CURSOR) := by
  unfold decodeLogsCursor encodeLogsCursor
  rw [Base64Url.decode_encode, fromUTF8?_toByteArray, Option.bind_some,
    JsonString.parsePair_stringifyPair]

/-- Both fields have the form the decoder asks for. -/
def LogsCursor.WellFormed (cursor : LogsCursor) : Prop :=
  CursorText.timestamptz cursor.recordedAt = true ∧ CursorText.uuid cursor.id = true

/-- `[A-Za-z0-9_-]` -/
def urlSafe (c : Char) : Bool := c.isUpper || c.isLower || c.isDigit || c = '_' || c = '-'

theorem decodeLogsCursor_of_wellFormed {cursor : LogsCursor} (h : cursor.WellFormed) :
    decodeLogsCursor (encodeLogsCursor cursor) = .ok cursor := by
  rw [decodeLogsCursor_encode, h.1, h.2]
  rfl

private theorem urlSafe_of_mem_alphabet : ∀ c ∈ Base64Url.alphabet, urlSafe c = true := by
  have hall : Base64Url.alphabet.all urlSafe = true := by decide +kernel
  exact List.all_eq_true.mp hall

private theorem urlSafe_of_mem_encodeLogsCursor (cursor : LogsCursor) :
    ∀ c ∈ (encodeLogsCursor cursor).toList, urlSafe c = true := by
  intro c hc
  exact urlSafe_of_mem_alphabet c (Base64Url.mem_alphabet_of_mem_encode _ c hc)

/-- A well-formed cursor comes back as it was, no other one has its text, and the text needs no
escaping in a URL. -/
theorem cursor_round_trip (cursor : LogsCursor) (h : cursor.WellFormed) :
    decodeLogsCursor (encodeLogsCursor cursor) = .ok cursor ∧
      (∀ other : LogsCursor, other.WellFormed →
        encodeLogsCursor other = encodeLogsCursor cursor → other = cursor) ∧
      ∀ c ∈ (encodeLogsCursor cursor).toList, urlSafe c = true := by
  refine ⟨decodeLogsCursor_of_wellFormed h, ?_, urlSafe_of_mem_encodeLogsCursor cursor⟩
  intro other hother heq
  have hdecode : Except.ok other = (Except.ok cursor : Except LogsError LogsCursor) := by
    calc Except.ok other = decodeLogsCursor (encodeLogsCursor other) :=
          (decodeLogsCursor_of_wellFormed hother).symm
      _ = decodeLogsCursor (encodeLogsCursor cursor) := by rw [heq]
      _ = .ok cursor := decodeLogsCursor_of_wellFormed h
  exact Except.ok.inj hdecode

/-- No fraction, an offset with minutes, and a uuid in both letter cases. -/
theorem cursor_round_trip_mixedCase :
    decodeLogsCursor (encodeLogsCursor
        ⟨"2026-08-07T17:50:52-03:30", "0B5F2C1E-9a77-4D1b-8c0e-1f2a3b4c5d6E"⟩) =
      .ok ⟨"2026-08-07T17:50:52-03:30", "0B5F2C1E-9a77-4D1b-8c0e-1f2a3b4c5d6E"⟩ :=
  (cursor_round_trip _ (by unfold LogsCursor.WellFormed; decide +kernel)).1

example : CursorText.timestamptz "2026-08-07 17:50:52.845123+00" = true := by decide +kernel

example : CursorText.uuid "0b5f2c1e-9a77-4d1b-8c0e-1f2a3b4c5d6e" = true := by decide +kernel

end Geofence
