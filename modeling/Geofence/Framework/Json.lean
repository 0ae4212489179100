import Geofence.Framework.Decimal
import Geofence.Framework.JsonString
/-!
# JSON texts

`JSON.stringify` and `JSON.parse` over texts of whole characters, with numbers by their shortest
digits. The fields of an object keep the order in which they came first, and a field that comes
twice has its last value.
-/

namespace Geofence.Framework

inductive Json where
  | null
  | bool (b : Bool)
  | num (n : Decimal)
  | str (text : String)
  | arr (items : List Json)
  | obj (fields : List (String × Json))

namespace Json

open JsonString

mutual

def stringify : Json → List Char
  | .null => ['n', 'u', 'l', 'l']
  | .bool true => ['t', 'r', 'u', 'e']
  | .bool false => ['f', 'a', 'l', 's', 'e']
  | .num n => n.toText
  | .str text => quote text.toList
  | .arr [] => ['[', ']']
  | .arr (item :: items) => '[' :: stringify item ++ stringifyItems items
  | .obj [] => ['{', '}']
  | .obj ((key, value) :: fields) =>
    '{' :: quote key.toList ++ ':' :: stringify value ++ stringifyFields fields

/-- The items after the first, and the closing bracket. -/
def stringifyItems : List Json → List Char
  | [] => [']']
  | item :: items => ',' :: stringify item ++ stringifyItems items

def stringifyFields : List (String × Json) → List Char
  | [] => ['}']
  | (key, value) :: fields =>
    ',' :: quote key.toList ++ ':' :: stringify value ++ stringifyFields fields

end

/-- A field that is there already keeps its place. -/
def setField (fields : List (String × Json)) (key : String) (value : Json) : List (String × Json) :=
  if key ∈ fields.map (·.1) then
    fields.map fun field => if field.1 = key then (key, value) else field
  else fields ++ [(key, value)]

def get? (fields : List (String × Json)) (key : String) : Option Json :=
  (fields.find? fun field => field.1 = key).map (·.2)

/-- A string token, with the white space before it. -/
def readKey? (text : List Char) : Option (String × List Char) := do
  let rest ← expect '"' text
  let (key, rest) ← readString (rest.length + 1) rest
  let rest ← expect ':' rest
  return (String.ofList key, rest)

mutual

/-- A value, with the white space before it. -/
def readValue? : Nat → List Char → Option (Json × List Char)
  | 0, _ => none
  | fuel + 1, text =>
    match text.dropWhile isSpace with
    | 'n' :: 'u' :: 'l' :: 'l' :: rest => some (.null, rest)
    | 't' :: 'r' :: 'u' :: 'e' :: rest => some (.bool true, rest)
    | 'f' :: 'a' :: 'l' :: 's' :: 'e' :: rest => some (.bool false, rest)
    | '"' :: rest =>
      (readString (rest.length + 1) rest).map fun (text, rest) => (.str (String.ofList text), rest)
    | '[' :: rest =>
      match expect ']' rest with
      | some rest => some (.arr [], rest)
      | none => do
        let (item, rest) ← readValue? fuel rest
        let (items, rest) ← readItems? fuel rest
        return (.arr (item :: items), rest)
    | '{' :: rest =>
      match expect '}' rest with
      | some rest => some (.obj [], rest)
      | none => do
        let (key, rest) ← readKey? rest
        let (value, rest) ← readValue? fuel rest
        let (fields, rest) ← readFields? fuel [(key, value)] rest
        return (.obj fields, rest)
    | text => (Decimal.read? text).map fun (n, rest) => (.num n, rest)

def readItems? : Nat → List Char → Option (List Json × List Char)
  | 0, _ => none
  | fuel + 1, text =>
    match expect ']' text with
    | some rest => some ([], rest)
    | none => do
      let rest ← expect ',' text
      let (item, rest) ← readValue? fuel rest
      let (items, rest) ← readItems? fuel rest
      return (item :: items, rest)

/-- The fields after those read so far. -/
def readFields? : Nat → List (String × Json) → List Char →
    Option (List (String × Json) × List Char)
  | 0, _, _ => none
  | fuel + 1, fields, text =>
    match expect '}' text with
    | some rest => some (fields, rest)
    | none => do
      let rest ← expect ',' text
      let (key, rest) ← readKey? rest
      let (value, rest) ← readValue? fuel rest
      readFields? fuel (setField fields key value) rest

end

/-- `JSON.parse`, `none` where it throws. -/
def parse? (text : String) : Option Json := do
  let (value, rest) ← readValue? (text.length + 1) text.toList
  if rest.all isSpace then some value else none

mutual

/-- No object has two fields of one name. -/
def KeysOnce : Json → Prop
  | .arr items => ItemsKeysOnce items
  | .obj fields => (fields.map (·.1)).Nodup ∧ FieldsKeysOnce fields
  | _ => True

def ItemsKeysOnce : List Json → Prop
  | [] => True
  | item :: items => KeysOnce item ∧ ItemsKeysOnce items

def FieldsKeysOnce : List (String × Json) → Prop
  | [] => True
  | (_, value) :: fields => KeysOnce value ∧ FieldsKeysOnce fields

end

/-! ## What is written is read back -/

theorem expect_of_ne {c d : Char} (rest : List Char) (hspace : isSpace d = false) (hne : d ≠ c) :
    expect c (d :: rest) = none := by
  simp [expect, hspace, hne]

theorem quote_append (text rest : List Char) :
    quote text ++ rest = '"' :: (text.flatMap escapeChar ++ '"' :: rest) := by
  simp [quote]

theorem readString_quote (text : String) (rest : List Char) {fuel : Nat}
    (hfuel : (text.toList.flatMap escapeChar ++ '"' :: rest).length < fuel) :
    readString fuel (text.toList.flatMap escapeChar ++ '"' :: rest) = some (text.toList, rest) := by
  have hlength := length_le_flatMap_escapeChar text.toList
  rw [List.length_append] at hfuel
  exact readString_quoted text.toList rest fuel (by omega)

theorem readKey_quote (key : String) (rest : List Char) :
    readKey? (quote key.toList ++ ':' :: rest) = some (key, rest) := by
  have hopen := expect_of_head '"' (key.toList.flatMap escapeChar ++ '"' :: ':' :: rest) rfl
  have hread := readString_quote key (':' :: rest) (Nat.lt_succ_self _)
  have hcolon := expect_of_head ':' rest rfl
  rw [quote_append, readKey?]
  simp only [hopen, hread, hcolon, bind, Option.bind, pure, String.ofList_toList]

theorem stringify_head (value : Json) :
    ∃ c rest, stringify value = c :: rest ∧ isSpace c = false ∧ c ≠ ']' := by
  cases value with
  | null => exact ⟨_, _, rfl, rfl, by decide⟩
  | bool b => cases b <;> exact ⟨_, _, rfl, rfl, by decide⟩
  | num n =>
    obtain ⟨c, rest, htext, hc⟩ := n.toText_head
    refine ⟨c, rest, htext, ?_, ?_⟩
    · rcases hc with hdigit | rfl
      · by_contra hspace
        simp only [isSpace, Bool.not_eq_false, Bool.or_eq_true, decide_eq_true_eq] at hspace
        rcases hspace with ((rfl | rfl) | rfl) | rfl <;> cases hdigit
      · rfl
    · rintro rfl
      rcases hc with hdigit | heq
      · cases hdigit
      · cases heq
  | str text => exact ⟨_, _, rfl, rfl, by decide⟩
  | arr items => cases items <;> exact ⟨_, _, rfl, rfl, by decide⟩
  | obj fields =>
    rcases fields with - | ⟨⟨key, value⟩, fields⟩ <;> exact ⟨_, _, rfl, rfl, by decide⟩

private theorem readValue_num (n : Decimal) {rest : List Char} (hrest : Decimal.EndsNumeral rest)
    (fuel : Nat) : readValue? (fuel + 1) (n.toText ++ rest) = some (.num n, rest) := by
  obtain ⟨c, more, htext, hc⟩ := n.toText_head
  obtain ⟨d, more', hhead, hspace, -⟩ := stringify_head (.num n)
  have heq : d = c := by
    rw [stringify, htext] at hhead
    exact (List.cons.inj hhead).1.symm
  subst heq
  have hread := Decimal.read_toText n hrest
  have hdrop : (n.toText ++ rest).dropWhile isSpace = n.toText ++ rest := by
    rw [htext, List.cons_append, List.dropWhile_cons_of_neg (by simp [hspace])]
  have hchar : ∀ c ∈ ['n', 't', 'f', '"', '[', '{'], d ≠ c := by
    have hother : ∀ c ∈ ['n', 't', 'f', '"', '[', '{'], c.isDigit = false ∧ c ≠ '-' := by simp
    rintro c hmem rfl
    obtain ⟨hnot, hminus⟩ := hother d hmem
    rcases hc with hdigit | heq
    · rw [hnot] at hdigit
      cases hdigit
    · exact hminus heq
  rw [readValue?, hdrop]
  split
  all_goals first
    | rename_i heq
      rw [htext] at heq
      exact absurd (List.cons.inj heq).1 (hchar _ (by simp))
    | rw [hread, Option.map_some]

theorem endsNumeral_cons {c : Char} (hc : c ∈ [',', ']', '}']) (rest : List Char) :
    Decimal.EndsNumeral (c :: rest) := by
  have hall : ∀ c ∈ [',', ']', '}'], c.isDigit = false ∧ c ≠ '.' ∧ c ≠ 'e' ∧ c ≠ 'E' := by simp
  intro d hd
  cases hd
  exact hall c hc

theorem endsNumeral_items (items : List Json) (rest : List Char) :
    Decimal.EndsNumeral (stringifyItems items ++ rest) := by
  cases items with
  | nil => exact endsNumeral_cons (by simp) _
  | cons item items => exact endsNumeral_cons (by simp) _

theorem endsNumeral_fields (fields : List (String × Json)) (rest : List Char) :
    Decimal.EndsNumeral (stringifyFields fields ++ rest) := by
  rcases fields with - | ⟨⟨key, value⟩, fields⟩
  · exact endsNumeral_cons (by simp) _
  · exact endsNumeral_cons (by simp) _

private theorem setField_new {fields : List (String × Json)} {key : String} (value : Json)
    (hnew : key ∉ fields.map (·.1)) : setField fields key value = fields ++ [(key, value)] := by
  rw [setField, if_neg hnew]

mutual

theorem readValue_stringify : ∀ (value : Json), KeysOnce value → ∀ (fuel : Nat) (rest : List Char),
    (stringify value).length < fuel → Decimal.EndsNumeral rest →
      readValue? fuel (stringify value ++ rest) = some (value, rest)
  | value, hkeys, 0, rest, hfuel, hrest => by cases hfuel
  | .null, hkeys, fuel + 1, rest, hfuel, hrest => rfl
  | .bool true, hkeys, fuel + 1, rest, hfuel, hrest => rfl
  | .bool false, hkeys, fuel + 1, rest, hfuel, hrest => rfl
  | .num n, hkeys, fuel + 1, rest, hfuel, hrest => readValue_num n hrest fuel
  | .str text, hkeys, fuel + 1, rest, hfuel, hrest => by
    have hread := readString_quote text rest (Nat.lt_succ_self _)
    have hdrop := List.dropWhile_cons_of_neg (p := isSpace) (a := '"')
      (l := text.toList.flatMap escapeChar ++ '"' :: rest) (by decide)
    rw [stringify, quote_append, readValue?, hdrop]
    simp only [hread, Option.map_some, String.ofList_toList]
  | .arr [], hkeys, fuel + 1, rest, hfuel, hrest => rfl
  | .arr (item :: items), hkeys, fuel + 1, rest, hfuel, hrest => by
    rw [stringify] at hfuel
    simp only [List.length_append, List.length_cons] at hfuel
    have htext : stringify (.arr (item :: items)) ++ rest =
        '[' :: (stringify item ++ (stringifyItems items ++ rest)) := by
      simp [stringify]
    have hdrop := List.dropWhile_cons_of_neg (p := isSpace) (a := '[')
      (l := stringify item ++ (stringifyItems items ++ rest)) (by decide)
    have hopen : expect ']' (stringify item ++ (stringifyItems items ++ rest)) = none := by
      obtain ⟨c, more, hhead, hspace, hne⟩ := stringify_head item
      rw [hhead]
      exact expect_of_ne _ hspace hne
    have hitem := readValue_stringify item hkeys.1 fuel (stringifyItems items ++ rest) (by omega)
      (endsNumeral_items items rest)
    have hitems := readItems_stringify items hkeys.2 fuel rest (by omega)
    rw [htext, readValue?, hdrop]
    simp only [hopen, hitem, hitems, bind, Option.bind, pure]
  | .obj [], hkeys, fuel + 1, rest, hfuel, hrest => rfl
  | .obj ((key, value) :: fields), hkeys, fuel + 1, rest, hfuel, hrest => by
    rw [stringify] at hfuel
    simp only [List.length_append, List.length_cons] at hfuel
    obtain ⟨hnodup, hvalueKeys, hfieldsKeys⟩ := hkeys
    have htext : stringify (.obj ((key, value) :: fields)) ++ rest =
        '{' :: (quote key.toList ++ ':' ::
          (stringify value ++ (stringifyFields fields ++ rest))) := by
      simp [stringify]
    have hdrop := List.dropWhile_cons_of_neg (p := isSpace) (a := '{')
      (l := quote key.toList ++ ':' :: (stringify value ++ (stringifyFields fields ++ rest)))
      (by decide)
    have hopen : expect '}' (quote key.toList ++ ':' ::
        (stringify value ++ (stringifyFields fields ++ rest))) = none := by
      rw [quote_append]
      exact expect_of_ne _ rfl (by decide)
    have hkey := readKey_quote key (stringify value ++ (stringifyFields fields ++ rest))
    have hvalue := readValue_stringify value hvalueKeys fuel (stringifyFields fields ++ rest)
      (by omega) (endsNumeral_fields fields rest)
    have hfields := readFields_stringify fields hfieldsKeys fuel [(key, value)] rest hnodup
      (by omega)
    rw [htext, readValue?, hdrop]
    simp only [hopen, hkey, hvalue, hfields, bind, Option.bind, pure, List.singleton_append]

theorem readItems_stringify : ∀ (items : List Json), ItemsKeysOnce items → ∀ (fuel : Nat)
    (rest : List Char), (stringifyItems items).length < fuel →
      readItems? fuel (stringifyItems items ++ rest) = some (items, rest)
  | items, hkeys, 0, rest, hfuel => by cases hfuel
  | [], hkeys, fuel + 1, rest, hfuel => rfl
  | item :: items, hkeys, fuel + 1, rest, hfuel => by
    rw [stringifyItems] at hfuel
    simp only [List.length_append, List.length_cons] at hfuel
    have htext : stringifyItems (item :: items) ++ rest =
        ',' :: (stringify item ++ (stringifyItems items ++ rest)) := by
      simp [stringifyItems]
    have hopen : expect ']' (',' :: (stringify item ++ (stringifyItems items ++ rest))) = none :=
      expect_of_ne _ rfl (by decide)
    have hcomma := expect_of_head ',' (stringify item ++ (stringifyItems items ++ rest)) rfl
    have hitem := readValue_stringify item hkeys.1 fuel (stringifyItems items ++ rest) (by omega)
      (endsNumeral_items items rest)
    have hitems := readItems_stringify items hkeys.2 fuel rest (by omega)
    rw [htext, readItems?]
    simp only [hopen, hcomma, hitem, hitems, bind, Option.bind, pure]

theorem readFields_stringify : ∀ (fields : List (String × Json)), FieldsKeysOnce fields →
    ∀ (fuel : Nat) (before : List (String × Json)) (rest : List Char),
      ((before ++ fields).map (·.1)).Nodup → (stringifyFields fields).length < fuel →
        readFields? fuel before (stringifyFields fields ++ rest) = some (before ++ fields, rest)
  | fields, hkeys, 0, before, rest, hnodup, hfuel => by cases hfuel
  | [], hkeys, fuel + 1, before, rest, hnodup, hfuel => by
    rw [List.append_nil]
    rfl
  | (key, value) :: fields, hkeys, fuel + 1, before, rest, hnodup, hfuel => by
    rw [stringifyFields] at hfuel
    simp only [List.length_append, List.length_cons] at hfuel
    have htext : stringifyFields ((key, value) :: fields) ++ rest =
        ',' :: (quote key.toList ++ ':' ::
          (stringify value ++ (stringifyFields fields ++ rest))) := by
      simp [stringifyFields]
    have hopen : expect '}' (',' :: (quote key.toList ++ ':' ::
        (stringify value ++ (stringifyFields fields ++ rest)))) = none :=
      expect_of_ne _ rfl (by decide)
    have hcomma := expect_of_head ',' (quote key.toList ++ ':' ::
      (stringify value ++ (stringifyFields fields ++ rest))) rfl
    have hkey := readKey_quote key (stringify value ++ (stringifyFields fields ++ rest))
    have hvalue := readValue_stringify value hkeys.1 fuel (stringifyFields fields ++ rest)
      (by omega) (endsNumeral_fields fields rest)
    have hassoc : before ++ [(key, value)] ++ fields = before ++ (key, value) :: fields := by
      rw [List.append_assoc, List.singleton_append]
    have hnew : key ∉ before.map (·.1) := by
      rw [List.map_append, List.nodup_append] at hnodup
      exact fun hmem => hnodup.2.2 key hmem key (by simp) rfl
    have hfields := readFields_stringify fields hkeys.2 fuel (before ++ [(key, value)]) rest
      (by rw [hassoc]; exact hnodup) (by omega)
    rw [hassoc] at hfields
    rw [htext, readFields?]
    simp only [hopen, hcomma, hkey, hvalue, setField_new value hnew, hfields, bind, Option.bind]

end

/-- `JSON.parse` reads back what `JSON.stringify` writes. -/
theorem parse_stringify {value : Json} (hkeys : KeysOnce value) :
    parse? (String.ofList (stringify value)) = some value := by
  have hread := readValue_stringify value hkeys ((stringify value).length + 1) []
    (Nat.lt_succ_self _) (by intro c hc; cases hc)
  rw [List.append_nil] at hread
  rw [parse?, String.toList_ofList, String.length_ofList, hread]
  rfl

theorem get?_eq_some {fields : List (String × Json)} (hnodup : (fields.map (·.1)).Nodup)
    {key : String} {value : Json} : get? fields key = some value ↔ (key, value) ∈ fields := by
  induction fields with
  | nil => simp [get?]
  | cons field fields ih =>
    obtain ⟨name, other⟩ := field
    rw [List.map_cons, List.nodup_cons] at hnodup
    obtain ⟨hnew, hrest⟩ := hnodup
    have ih := ih hrest
    by_cases hname : name = key
    · subst hname
      have hnot : (name, value) ∉ fields :=
        fun hmem => hnew (List.mem_map.mpr ⟨(name, value), hmem, rfl⟩)
      simp [get?, hnot, eq_comm]
    · have htail : get? ((name, other) :: fields) key = get? fields key := by
        simp [get?, hname]
      rw [htail, ih, List.mem_cons]
      simp [Ne.symm hname]

end Json

end Geofence.Framework
