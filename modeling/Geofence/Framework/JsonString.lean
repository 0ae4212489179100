import Mathlib.Tactic.Common
/-!
# JSON texts of string pairs

`JSON.stringify` of an array of two strings, and the reader that accepts exactly the JSON texts
of such arrays: white space between the tokens and every escape that stands for a character. The
escape of half a surrogate pair stands for none and is refused.
-/

namespace Geofence.Framework.JsonString

def hexDigit (d : Nat) : Char := "0123456789abcdef".toList.getD d '0'

def hexValue (c : Char) : Option Nat :=
  "0123456789abcdef".toList.idxOf? c.toLower

/-- The escapes of `JSON.stringify`: the quote, the backslash and the control characters. -/
def escapeChar (c : Char) : List Char :=
  if c = '"' then ['\\', '"']
  else if c = '\\' then ['\\', '\\']
  else if c = '\n' then ['\\', 'n']
  else if c = '\r' then ['\\', 'r']
  else if c = '\t' then ['\\', 't']
  else if c.toNat = 8 then ['\\', 'b']
  else if c.toNat = 12 then ['\\', 'f']
  else if c.toNat < 32 then
    ['\\', 'u', '0', '0', hexDigit (c.toNat / 16), hexDigit (c.toNat % 16)]
  else [c]

def quote (text : List Char) : List Char := '"' :: text.flatMap escapeChar ++ ['"']

/-- `JSON.stringify([first, second])` -/
def stringifyPair (first second : String) : String :=
  String.ofList ('[' :: quote first.toList ++ ',' :: quote second.toList ++ [']'])

/-- Four hexadecimal digits. -/
def readUnit : List Char → Option (Nat × List Char)
  | a :: b :: c :: d :: rest => do
    let a ← hexValue a
    let b ← hexValue b
    let c ← hexValue c
    let d ← hexValue d
    return (((a * 16 + b) * 16 + c) * 16 + d, rest)
  | _ => none

/-- The character of a code unit, or of the surrogate pair it begins. -/
def readUnicode (text : List Char) : Option (Char × List Char) := do
  let (unit, rest) ← readUnit text
  if unit < 0xD800 ∨ 0xE000 ≤ unit then some (Char.ofNat unit, rest)
  else if unit < 0xDC00 then
    match rest with
    | '\\' :: 'u' :: rest => do
      let (low, rest) ← readUnit rest
      if 0xDC00 ≤ low ∧ low < 0xE000 then
        some (Char.ofNat (0x10000 + (unit - 0xD800) * 0x400 + (low - 0xDC00)), rest)
      else none
    | _ => none
  else none

/-- One character of a string, behind the backslash if it has one. -/
def readChar : List Char → Option (Char × List Char)
  | '\\' :: '"' :: rest => some ('"', rest)
  | '\\' :: '\\' :: rest => some ('\\', rest)
  | '\\' :: '/' :: rest => some ('/', rest)
  | '\\' :: 'n' :: rest => some ('\n', rest)
  | '\\' :: 'r' :: rest => some ('\r', rest)
  | '\\' :: 't' :: rest => some ('\t', rest)
  | '\\' :: 'b' :: rest => some (Char.ofNat 8, rest)
  | '\\' :: 'f' :: rest => some (Char.ofNat 12, rest)
  | '\\' :: 'u' :: rest => readUnicode rest
  | '\\' :: _ => none
  | c :: rest => if c.toNat < 32 then none else some (c, rest)
  | [] => none

/-- The rest of a string up to its closing quote; every character takes one unit of fuel. -/
def readString : Nat → List Char → Option (List Char × List Char)
  | 0, _ => none
  | _ + 1, '"' :: rest => some ([], rest)
  | fuel + 1, text => do
    let (c, rest) ← readChar text
    let (cs, rest) ← readString fuel rest
    return (c :: cs, rest)

def isSpace (c : Char) : Bool := c = ' ' || c = '\n' || c = '\r' || c = '\t'

/-- A token after the white space before it. -/
def expect (c : Char) (text : List Char) : Option (List Char) :=
  match text.dropWhile isSpace with
  | d :: rest => if d = c then some rest else none
  | [] => none

/-- The value of a text that is a JSON array of two strings; `none` for every other text. -/
def parsePair (text : String) : Option (String × String) := do
  let rest ← expect '[' text.toList
  let rest ← expect '"' rest
  let (first, rest) ← readString text.length rest
  let rest ← expect ',' rest
  let rest ← expect '"' rest
  let (second, rest) ← readString text.length rest
  let rest ← expect ']' rest
  if rest.all isSpace then some (String.ofList first, String.ofList second) else none

example : readChar "\\uD83d\\ude00!".toList = some (Char.ofNat 0x1F600, ['!']) := by decide +kernel

theorem hexValue_hexDigit (d : Nat) (hd : d < 16) : hexValue (hexDigit d) = some d := by
  revert d
  decide +kernel

private theorem readChar_of_plain {c : Char} (hslash : c ≠ '\\') (hplain : ¬ c.toNat < 32)
    (rest : List Char) : readChar (c :: rest) = some (c, rest) := by
  simp [readChar, hslash, hplain]

private theorem readChar_of_control (n : Nat) (hn : n < 32) (rest : List Char) :
    readChar ('\\' :: 'u' :: '0' :: '0' :: hexDigit (n / 16) :: hexDigit (n % 16) :: rest) =
      some (Char.ofNat n, rest) := by
  have hzero : hexValue '0' = some 0 := hexValue_hexDigit 0 (by omega)
  have hhigh := hexValue_hexDigit (n / 16) (by omega)
  have hlow := hexValue_hexDigit (n % 16) (by omega)
  have hvalue : ((0 * 16 + 0) * 16 + n / 16) * 16 + n % 16 = n := by omega
  have hunit : readUnit ('0' :: '0' :: hexDigit (n / 16) :: hexDigit (n % 16) :: rest) =
      some (n, rest) := by
    simp only [readUnit, hzero, hhigh, hlow, bind, Option.bind, pure, hvalue]
  simp only [readChar, readUnicode, hunit, bind, Option.bind]
  exact if_pos (Or.inl (by omega))

private theorem readChar_escape (c : Char) (rest : List Char) :
    readChar (escapeChar c ++ rest) = some (c, rest) := by
  unfold escapeChar
  by_cases hquote : c = '"'
  · subst hquote
    rfl
  by_cases hslash : c = '\\'
  · subst hslash
    rfl
  by_cases hn : c = '\n'
  · subst hn
    rfl
  by_cases hr : c = '\r'
  · subst hr
    rfl
  by_cases ht : c = '\t'
  · subst ht
    rfl
  rw [if_neg hquote, if_neg hslash, if_neg hn, if_neg hr, if_neg ht]
  by_cases hb : c.toNat = 8
  · rw [if_pos hb, ← c.ofNat_toNat, hb]
    rfl
  by_cases hf : c.toNat = 12
  · rw [if_neg hb, if_pos hf, ← c.ofNat_toNat, hf]
    rfl
  rw [if_neg hb, if_neg hf]
  by_cases hcontrol : c.toNat < 32
  · rw [if_pos hcontrol]
    have hread := readChar_of_control c.toNat hcontrol rest
    rw [c.ofNat_toNat] at hread
    exact hread
  · rw [if_neg hcontrol]
    exact readChar_of_plain hslash hcontrol rest

theorem escapeChar_head (c : Char) (rest : List Char) :
    ∃ d more, escapeChar c ++ rest = d :: more ∧ d ≠ '"' := by
  unfold escapeChar
  by_cases hquote : c = '"'
  · exact ⟨'\\', '"' :: rest, by simp [hquote], by decide⟩
  · rw [if_neg hquote]
    split_ifs
    · exact ⟨_, _, rfl, by decide⟩
    · exact ⟨_, _, rfl, by decide⟩
    · exact ⟨_, _, rfl, by decide⟩
    · exact ⟨_, _, rfl, by decide⟩
    · exact ⟨_, _, rfl, by decide⟩
    · exact ⟨_, _, rfl, by decide⟩
    · exact ⟨_, _, rfl, by decide⟩
    · exact ⟨_, _, rfl, hquote⟩

theorem readString_quoted (text rest : List Char) (fuel : Nat) (hfuel : text.length < fuel) :
    readString fuel (text.flatMap escapeChar ++ '"' :: rest) = some (text, rest) := by
  induction text generalizing fuel with
  | nil =>
    cases fuel with
    | zero => cases hfuel
    | succ fuel => rfl
  | cons c text ih =>
    cases fuel with
    | zero => cases hfuel
    | succ fuel =>
      have hrest := ih fuel (by simpa using hfuel)
      have hread := readChar_escape c (text.flatMap escapeChar ++ '"' :: rest)
      obtain ⟨d, more, hhead, hd⟩ := escapeChar_head c (text.flatMap escapeChar ++ '"' :: rest)
      rw [List.flatMap_cons, List.append_assoc]
      rw [hhead] at hread ⊢
      simp [readString, hd, hread, hrest]

theorem expect_of_head (c : Char) (rest : List Char) (hspace : isSpace c = false) :
    expect c (c :: rest) = some rest := by
  simp [expect, hspace]

theorem length_le_flatMap_escapeChar (text : List Char) :
    text.length ≤ (text.flatMap escapeChar).length := by
  induction text with
  | nil => exact Nat.le_refl _
  | cons c text ih =>
    obtain ⟨d, more, hhead, -⟩ := escapeChar_head c []
    have hpos : 0 < (escapeChar c).length := by
      rw [List.append_nil] at hhead
      rw [hhead]
      simp
    rw [List.flatMap_cons, List.length_cons, List.length_append]
    omega

/-- The texts `JSON.stringify` gives for two strings read back as these strings. -/
theorem parsePair_stringifyPair (first second : String) :
    parsePair (stringifyPair first second) = some (first, second) := by
  have hfirst := length_le_flatMap_escapeChar first.toList
  have hsecond := length_le_flatMap_escapeChar second.toList
  have hlength : (stringifyPair first second).length =
      (first.toList.flatMap escapeChar).length + (second.toList.flatMap escapeChar).length + 7 := by
    simp only [stringifyPair, quote, String.length_ofList, List.length_cons, List.length_append,
      List.length_nil]
    omega
  have htext : (stringifyPair first second).toList = '[' :: '"' ::
      (first.toList.flatMap escapeChar ++ '"' :: ',' :: '"' ::
        (second.toList.flatMap escapeChar ++ ['"', ']'])) := by
    simp [stringifyPair, quote]
  have hread₁ := readString_quoted first.toList
    (',' :: '"' :: (second.toList.flatMap escapeChar ++ ['"', ']']))
    (stringifyPair first second).length (by omega)
  have hread₂ := readString_quoted second.toList [']'] (stringifyPair first second).length
    (by omega)
  have hopen := expect_of_head '[' ('"' :: (first.toList.flatMap escapeChar ++ '"' :: ',' :: '"' ::
    (second.toList.flatMap escapeChar ++ ['"', ']']))) rfl
  have hquote₁ := expect_of_head '"' (first.toList.flatMap escapeChar ++ '"' :: ',' :: '"' ::
    (second.toList.flatMap escapeChar ++ ['"', ']'])) rfl
  have hcomma := expect_of_head ',' ('"' :: (second.toList.flatMap escapeChar ++ ['"', ']'])) rfl
  have hquote₂ := expect_of_head '"' (second.toList.flatMap escapeChar ++ ['"', ']']) rfl
  have hclose := expect_of_head ']' [] rfl
  unfold parsePair
  simp only [htext, hopen, hquote₁, hread₁, hcomma, hquote₂, hread₂, hclose, bind, Option.bind,
    List.all_nil, if_true, String.ofList_toList]

end Geofence.Framework.JsonString
