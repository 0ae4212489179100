import Geofence.Framework.FloatNat
import Geofence.Framework.JsText
import Mathlib.Data.List.Sort
/-!
# `parsePartitionSpec` and the pattern that guards it at boot

A worker's partitions as `WORKER_PARTITIONS` gives them: numbers and inclusive ranges between
commas. The bounds are JavaScript numbers, and the loop over a range counts in them.
-/

namespace Geofence

open Framework Framework.FloatNat Framework.JsText

/-- A number as the parser has it: a natural number of the format, or `Infinity`. -/
abbrev JsInteger := ℕ∞

/-- The segment is as the specification has it, not trimmed. -/
inductive PartitionError where
  | invalidSegment (part : String)
  | endBeforeStart (part : String)
  deriving DecidableEq

def PartitionError.message : PartitionError → String
  | .invalidSegment part =>
    "invalid WORKER_PARTITIONS segment '" ++ part ++ "' (use \"0-3\" or \"0,2,5\")"
  | .endBeforeStart part => "invalid WORKER_PARTITIONS range '" ++ part ++ "': end before start"

/-- `match(/^(\d+)(?:-(\d+))?$/)`: the first group, and the second if it took part. -/
def matchSegment (text : List Char) : Option (List Char × Option (List Char)) :=
  match text.takeWhile Char.isDigit, text.dropWhile Char.isDigit with
  | [], _ => none
  | first, [] => some (first, none)
  | first, '-' :: second =>
    if !second.isEmpty && second.all Char.isDigit then some (first, some second) else none
  | _, _ => none

/-- `parseInt(digits, 10)` -/
def parseInt (digits : List Char) : JsInteger := binary64.round (decimal digits)

/-- `partitions.add(i)` -/
def addPartition (partitions : List JsInteger) (i : JsInteger) : List JsInteger :=
  if i ∈ partitions then partitions else partitions ++ [i]

/-- One turn of the loop over the segments; `none` is a range that takes more fuel. -/
def parsePart (fuel : ℕ) (partitions : List JsInteger) (part : List Char) :
    Option (Except PartitionError (List JsInteger)) :=
  match matchSegment (trim part) with
  | none => some (.error (.invalidSegment (String.ofList part)))
  | some (first, second) =>
    let start := parseInt first
    let last :=
      match second with
      | none => start
      | some digits => parseInt digits
    if last < start then some (.error (.endBeforeStart (String.ofList part)))
    else (binary64.countUp addPartition last fuel start partitions).map .ok

def parseParts (fuel : ℕ) :
    List JsInteger → List (List Char) → Option (Except PartitionError (List JsInteger))
  | partitions, [] => some (.ok partitions)
  | partitions, part :: parts =>
    match parsePart fuel partitions part with
    | none => none
    | some (.error e) => some (.error e)
    | some (.ok partitions) => parseParts fuel partitions parts

def segments (spec : String) : List (List Char) := spec.toList.splitOn ','

/-- The parser with fuel for the turns of each of its range loops. -/
def parsePartitionSpec (fuel : ℕ) (spec : String) :
    Option (Except PartitionError (List JsInteger)) :=
  (parseParts fuel [] (segments spec)).map fun result =>
    result.map fun partitions => partitions.insertionSort (· ≤ ·)

/-- The call comes to an end, with this result. -/
def ParsesTo (spec : String) (result : Except PartitionError (List JsInteger)) : Prop :=
  ∃ fuel, parsePartitionSpec fuel spec = some result

/-- `\d+(-\d+)?` -/
def segmentPattern : RegularExpression Char :=
  digits * (1 + RegularExpression.char '-' * digits)

/-- `/^\d+(-\d+)?(,\s*\d+(-\d+)?)*$/` of `envValidationSchema` -/
def bootPattern : RegularExpression Char :=
  segmentPattern *
    (RegularExpression.char ',' * (anyOf whiteSpace).star * segmentPattern).star

/-! ## What a specification says -/

/-- A trimmed segment and the bounds of its range. -/
inductive Denotes : List Char → ℕ → ℕ → Prop where
  | single {digits : List Char} (h : IsDigits digits) :
    Denotes digits (decimal digits) (decimal digits)
  | range {first last : List Char} (hfirst : IsDigits first) (hlast : IsDigits last) :
    Denotes (first ++ '-' :: last) (decimal first) (decimal last)

/-- Not digits or digits-digits, or a range that ends before it starts. -/
def Rejected (part : List Char) : Prop := ∀ x y, Denotes (trim part) x y → y < x

/-- The number lies in the range of the segment. -/
def Specifies (part : List Char) (n : ℕ) : Prop :=
  ∃ x y, Denotes (trim part) x y ∧ x ≤ n ∧ n ≤ y

/-- The parser does what the specification says. -/
structure ParsesExactly (spec : String) : Prop where
  terminates : ∃ result, ParsesTo spec result
  throws : ∀ result, ParsesTo spec result →
    ((∃ error, result = .error error) ↔ ∃ part ∈ segments spec, Rejected part)
  returns : ∀ partitions, ParsesTo spec (.ok partitions) →
    partitions.Pairwise (· < ·) ∧
      ∀ i, i ∈ partitions ↔ ∃ n : ℕ, i = n ∧ ∃ part ∈ segments spec, Specifies part n
  accepted : spec.toList ∈ bootPattern.matches' → ∀ error, ParsesTo spec (.error error) →
    ∃ part ∈ segments spec, error = .endBeforeStart (String.ofList part) ∧
      ∃ x y, Denotes (trim part) x y ∧ y < x

/-- The bounds of a segment are told apart where they are the wrong way round, and its loop gets
to its end where they are not. -/
def Tractable (part : List Char) : Prop :=
  ∀ x y, Denotes (trim part) x y →
    (y < x → binary64.round y < binary64.round x) ∧ (x ≤ y → binary64.Counts x y)

/-- Every segment up to the first one that is rejected is tractable. -/
def TractableUpToReject : List (List Char) → Prop
  | [] => True
  | part :: parts => Tractable part ∧ (¬ Rejected part → TractableUpToReject parts)

/-! ## The segment's pattern -/

private theorem matchSegment_single {digits : List Char} (h : IsDigits digits) :
    matchSegment digits = some (digits, none) := by
  have htake : digits.takeWhile Char.isDigit = digits := List.takeWhile_eq_self_iff.mpr h.2
  have hdrop : digits.dropWhile Char.isDigit = [] := List.dropWhile_eq_nil_iff.mpr h.2
  obtain ⟨c, rest, rfl⟩ := List.exists_cons_of_ne_nil h.1
  simp only [matchSegment, htake, hdrop]

private theorem matchSegment_range {first last : List Char} (hfirst : IsDigits first)
    (hlast : IsDigits last) : matchSegment (first ++ '-' :: last) = some (first, some last) := by
  have hdash : ¬ Char.isDigit '-' = true := by decide
  have htake : (first ++ '-' :: last).takeWhile Char.isDigit = first := by
    rw [List.takeWhile_append_of_pos hfirst.2, List.takeWhile_cons_of_neg hdash, List.append_nil]
  have hdrop : (first ++ '-' :: last).dropWhile Char.isDigit = '-' :: last := by
    rw [List.dropWhile_append_of_pos hfirst.2, List.dropWhile_cons_of_neg hdash]
  have hdigits : (!last.isEmpty && last.all Char.isDigit) = true := by
    rw [Bool.and_eq_true, List.all_eq_true]
    exact ⟨by simpa using hlast.1, hlast.2⟩
  obtain ⟨c, rest, rfl⟩ := List.exists_cons_of_ne_nil hfirst.1
  simp only [matchSegment, htake, hdrop, hdigits, if_true]

private theorem denotes_of_matchSegment {text first : List Char} {second : Option (List Char)}
    (h : matchSegment text = some (first, second)) :
    Denotes text (decimal first) (decimal (second.getD first)) := by
  have hsplit : text.takeWhile Char.isDigit ++ text.dropWhile Char.isDigit = text :=
    List.takeWhile_append_dropWhile
  have htake : ∀ c ∈ text.takeWhile Char.isDigit, c.isDigit = true :=
    fun c hc => List.mem_takeWhile_imp hc
  unfold matchSegment at h
  split at h
  · cases h
  · rename_i hdrop hne
    cases h
    rw [hdrop, List.append_nil] at hsplit
    rw [hsplit] at htake hne ⊢
    exact .single ⟨fun heq => hne heq, htake⟩
  · rename_i second hdrop hne
    split at h
    · rename_i hdigits
      cases h
      rw [Bool.and_eq_true, List.all_eq_true] at hdigits
      have hrange := Denotes.range ⟨fun heq => hne heq, htake⟩
        ⟨by simpa using hdigits.1, hdigits.2⟩
      rw [← hdrop, hsplit] at hrange
      exact hrange
    · cases h
  · cases h

theorem Denotes.matchSegment {text : List Char} {x y : ℕ} (h : Denotes text x y) :
    ∃ first second, Geofence.matchSegment text = some (first, second) ∧ x = decimal first ∧
      y = decimal (second.getD first) := by
  cases h with
  | single h => exact ⟨_, none, matchSegment_single h, rfl, rfl⟩
  | range hfirst hlast => exact ⟨_, some _, matchSegment_range hfirst hlast, rfl, rfl⟩

theorem Denotes.unique {text : List Char} {x y x' y' : ℕ} (h : Denotes text x y)
    (h' : Denotes text x' y') : x = x' ∧ y = y' := by
  obtain ⟨first, second, hmatch, rfl, rfl⟩ := h.matchSegment
  obtain ⟨first', second', hmatch', rfl, rfl⟩ := h'.matchSegment
  rw [hmatch] at hmatch'
  cases hmatch'
  exact ⟨rfl, rfl⟩

/-! ## One segment -/

theorem parsePart_of_malformed {part : List Char} (h : ∀ x y, ¬ Denotes (trim part) x y)
    (fuel : ℕ) (partitions : List JsInteger) :
    parsePart fuel partitions part = some (.error (.invalidSegment (String.ofList part))) := by
  cases hmatch : matchSegment (trim part) with
  | none => simp only [parsePart, hmatch]
  | some groups =>
    obtain ⟨first, second⟩ := groups
    exact absurd (denotes_of_matchSegment hmatch) (h _ _)

theorem parsePart_of_denotes {part : List Char} {x y : ℕ} (h : Denotes (trim part) x y)
    (fuel : ℕ) (partitions : List JsInteger) :
    parsePart fuel partitions part =
      if binary64.round y < binary64.round x then
        some (.error (.endBeforeStart (String.ofList part)))
      else (binary64.countUp addPartition (binary64.round y) fuel (binary64.round x)
        partitions).map .ok := by
  obtain ⟨first, second, hmatch, rfl, rfl⟩ := h.matchSegment
  cases second with
  | none =>
    simp only [parsePart, hmatch, parseInt, Option.getD_none]
    rfl
  | some digits =>
    simp only [parsePart, hmatch, parseInt, Option.getD_some]
    rfl

private theorem mem_addPartition {partitions : List JsInteger} {i j : JsInteger} :
    j ∈ addPartition partitions i ↔ j ∈ partitions ∨ j = i := by
  unfold addPartition
  split
  · rename_i hmem
    constructor
    · exact Or.inl
    · rintro (hj | rfl)
      · exact hj
      · exact hmem
  · rw [List.mem_append, List.mem_singleton]

private theorem nodup_addPartition {partitions : List JsInteger} (h : partitions.Nodup)
    (i : JsInteger) : (addPartition partitions i).Nodup := by
  unfold addPartition
  split
  · exact h
  · rename_i hmem
    rw [List.nodup_append]
    refine ⟨h, List.nodup_singleton i, ?_⟩
    intro a ha b hb heq
    rw [List.mem_singleton.mp hb] at heq
    exact hmem (heq ▸ ha)

private theorem foldl_addPartition (ns : List ℕ) {partitions : List JsInteger}
    (h : partitions.Nodup) :
    (ns.foldl (fun partitions (n : ℕ) => addPartition partitions n) partitions).Nodup ∧
      ∀ i, i ∈ ns.foldl (fun partitions (n : ℕ) => addPartition partitions n) partitions ↔
        i ∈ partitions ∨ ∃ n ∈ ns, i = (n : ℕ) := by
  induction ns generalizing partitions with
  | nil => exact ⟨h, fun i => by simp⟩
  | cons n ns ih =>
    obtain ⟨hnodup, hmem⟩ := ih (nodup_addPartition h n)
    refine ⟨hnodup, fun i => ?_⟩
    rw [List.foldl_cons, hmem, mem_addPartition, List.exists_mem_cons_iff, or_assoc]

/-- What an error says of its segment. -/
inductive Complains (part : List Char) : PartitionError → Prop where
  | invalidSegment (h : ∀ x y, ¬ Denotes (trim part) x y) :
    Complains part (.invalidSegment (String.ofList part))
  | endBeforeStart {x y : ℕ} (h : Denotes (trim part) x y) (hlt : y < x) :
    Complains part (.endBeforeStart (String.ofList part))

private theorem parsePart_throws {part : List Char} (hrejected : Rejected part)
    (htractable : Tractable part) (fuel : ℕ) (partitions : List JsInteger) :
    ∃ error, parsePart fuel partitions part = some (.error error) ∧ Complains part error := by
  by_cases hdenotes : ∃ x y, Denotes (trim part) x y
  · obtain ⟨x, y, h⟩ := hdenotes
    have hlt := hrejected x y h
    rw [parsePart_of_denotes h, if_pos ((htractable x y h).1 hlt)]
    exact ⟨_, rfl, .endBeforeStart h hlt⟩
  · have hnone : ∀ x y, ¬ Denotes (trim part) x y := fun x y h => hdenotes ⟨x, y, h⟩
    rw [parsePart_of_malformed hnone]
    exact ⟨_, rfl, .invalidSegment hnone⟩

theorem Rejected.exists_of_not {part : List Char} (h : ¬ Rejected part) :
    ∃ x y, Denotes (trim part) x y ∧ x ≤ y := by
  by_contra hnone
  refine h fun x y hdenotes => ?_
  by_contra hle
  exact hnone ⟨x, y, hdenotes, Nat.not_lt.mp hle⟩

private theorem parsePart_returns {part : List Char} (hrejected : ¬ Rejected part)
    (htractable : Tractable part) {partitions : List JsInteger} (hnodup : partitions.Nodup) :
    ∃ fuel partitions', parsePart fuel partitions part = some (.ok partitions') ∧
      partitions'.Nodup ∧
      ∀ i, i ∈ partitions' ↔ i ∈ partitions ∨ ∃ n : ℕ, i = n ∧ Specifies part n := by
  obtain ⟨x, y, h, hxy⟩ := Rejected.exists_of_not hrejected
  obtain ⟨fuel, hcount⟩ :=
    binary64.countUp_of_counts addPartition hxy ((htractable x y h).2 hxy) partitions
  obtain ⟨hnodup', hmem⟩ := foldl_addPartition (List.range' x (y + 1 - x)) hnodup
  refine ⟨fuel, _, ?_, hnodup', fun i => ?_⟩
  · rw [parsePart_of_denotes h, if_neg (not_lt.mpr (binary64.round_mono hxy)), hcount]
    rfl
  · rw [hmem]
    refine or_congr Iff.rfl ?_
    constructor
    · rintro ⟨n, hn, rfl⟩
      rw [List.mem_range'_1] at hn
      exact ⟨n, rfl, x, y, h, hn.1, by omega⟩
    · rintro ⟨n, rfl, x', y', h', hlow, hhigh⟩
      obtain ⟨rfl, rfl⟩ := h.unique h'
      exact ⟨n, List.mem_range'_1.mpr ⟨hlow, by omega⟩, rfl⟩

private theorem parsePart_ne_error {part : List Char} (h : ¬ Rejected part) (fuel : ℕ)
    (partitions : List JsInteger) (error : PartitionError) :
    parsePart fuel partitions part ≠ some (.error error) := by
  obtain ⟨x, y, hdenotes, hxy⟩ := Rejected.exists_of_not h
  rw [parsePart_of_denotes hdenotes, if_neg (not_lt.mpr (binary64.round_mono hxy))]
  intro heq
  obtain ⟨partitions', -, hok⟩ := Option.map_eq_some_iff.mp heq
  cases hok

private theorem parsePart_diverges {part : List Char} (h : ¬ Tractable part) (fuel : ℕ)
    (partitions : List JsInteger) : parsePart fuel partitions part = none := by
  simp only [Tractable, not_forall] at h
  obtain ⟨x, y, hdenotes, hnot⟩ := h
  have hle : binary64.round x ≤ binary64.round y := by
    rcases Nat.lt_or_ge y x with hlt | hge
    · rw [← not_lt]
      intro htold
      exact hnot ⟨fun _ => htold, fun hge => absurd hlt (Nat.not_lt.mpr hge)⟩
    · exact binary64.round_mono hge
  have hcounts : ¬ (x ≤ y ∧ binary64.Counts x y) := by
    rintro ⟨hge, hcounts⟩
    exact hnot ⟨fun hlt => absurd hge (Nat.not_le.mpr hlt), fun _ => hcounts⟩
  rw [parsePart_of_denotes hdenotes, if_neg (not_lt.mpr hle),
    binary64.countUp_eq_none addPartition hle hcounts]
  rfl

theorem parsePart_mono {fuel more : ℕ} (hle : fuel ≤ more) {partitions : List JsInteger}
    {part : List Char} {result : Except PartitionError (List JsInteger)}
    (h : parsePart fuel partitions part = some result) :
    parsePart more partitions part = some result := by
  by_cases hdenotes : ∃ x y, Denotes (trim part) x y
  · obtain ⟨x, y, hxy⟩ := hdenotes
    rw [parsePart_of_denotes hxy] at h ⊢
    split at h
    · rename_i hlt
      rw [if_pos hlt]
      exact h
    · rename_i hlt
      rw [if_neg hlt]
      obtain ⟨partitions', hcount, rfl⟩ := Option.map_eq_some_iff.mp h
      rw [binary64.countUp_mono addPartition hle hcount]
      rfl
  · have hnone : ∀ x y, ¬ Denotes (trim part) x y := fun x y h => hdenotes ⟨x, y, h⟩
    rw [parsePart_of_malformed hnone] at h ⊢
    exact h

/-! ## All segments -/

theorem parseParts_mono {fuel more : ℕ} (hle : fuel ≤ more) {partitions : List JsInteger}
    {parts : List (List Char)} {result : Except PartitionError (List JsInteger)}
    (h : parseParts fuel partitions parts = some result) :
    parseParts more partitions parts = some result := by
  induction parts generalizing partitions with
  | nil => exact h
  | cons part parts ih =>
    rw [parseParts] at h ⊢
    cases hpart : parsePart fuel partitions part with
    | none =>
      rw [hpart] at h
      cases h
    | some first =>
      rw [hpart] at h
      rw [parsePart_mono hle hpart]
      cases first with
      | error e => exact h
      | ok partitions' => exact ih h

theorem ParsesTo.unique {spec : String} {result result' : Except PartitionError (List JsInteger)}
    (h : ParsesTo spec result) (h' : ParsesTo spec result') : result = result' := by
  obtain ⟨fuel, hfuel⟩ := h
  obtain ⟨fuel', hfuel'⟩ := h'
  obtain ⟨parsed, hparsed, rfl⟩ := Option.map_eq_some_iff.mp hfuel
  obtain ⟨parsed', hparsed', rfl⟩ := Option.map_eq_some_iff.mp hfuel'
  have hmore := parseParts_mono (Nat.le_max_left fuel fuel') hparsed
  rw [parseParts_mono (Nat.le_max_right fuel fuel') hparsed'] at hmore
  rw [Option.some.inj hmore]

/-- How the loop over the segments ends. -/
inductive PartsOutcome (partitions : List JsInteger) (parts : List (List Char)) :
    Except PartitionError (List JsInteger) → Prop where
  | threw {part : List Char} {error : PartitionError} (hpart : part ∈ parts)
      (hrejected : Rejected part) (hcomplains : Complains part error) :
    PartsOutcome partitions parts (.error error)
  | returned {partitions' : List JsInteger} (haccepted : ∀ part ∈ parts, ¬ Rejected part)
      (hnodup : partitions'.Nodup)
      (hmem : ∀ i, i ∈ partitions' ↔
        i ∈ partitions ∨ ∃ n : ℕ, i = n ∧ ∃ part ∈ parts, Specifies part n) :
    PartsOutcome partitions parts (.ok partitions')

private theorem parseParts_ends {parts : List (List Char)} (h : TractableUpToReject parts)
    {partitions : List JsInteger} (hnodup : partitions.Nodup) :
    ∃ fuel result, parseParts fuel partitions parts = some result ∧
      PartsOutcome partitions parts result := by
  induction parts generalizing partitions with
  | nil =>
    refine ⟨0, _, rfl, .returned (fun _ hpart => nomatch hpart) hnodup fun i => ?_⟩
    constructor
    · exact Or.inl
    · rintro (hi | ⟨n, -, part, hpart, -⟩)
      · exact hi
      · cases hpart
  | cons part parts ih =>
    obtain ⟨htractable, hrest⟩ := h
    by_cases hrejected : Rejected part
    · obtain ⟨error, hthrows, hcomplains⟩ := parsePart_throws hrejected htractable 0 partitions
      refine ⟨0, .error error, ?_, .threw List.mem_cons_self hrejected hcomplains⟩
      rw [parseParts, hthrows]
    · obtain ⟨fuel, partitions', hreturns, hnodup', hmem⟩ :=
        parsePart_returns hrejected htractable hnodup
      obtain ⟨fuel', result, hparts, houtcome⟩ := ih (hrest hrejected) hnodup'
      refine ⟨max fuel fuel', result, ?_, ?_⟩
      · rw [parseParts, parsePart_mono (Nat.le_max_left fuel fuel') hreturns]
        exact parseParts_mono (Nat.le_max_right fuel fuel') hparts
      · cases houtcome with
        | threw hpart hrejected' hcomplains =>
          exact .threw (List.mem_cons_of_mem part hpart) hrejected' hcomplains
        | returned haccepted hnodup'' hmem' =>
          refine .returned (List.forall_mem_cons.mpr ⟨hrejected, haccepted⟩) hnodup'' fun i => ?_
          rw [hmem', hmem, or_assoc]
          refine or_congr Iff.rfl ?_
          simp only [List.exists_mem_cons_iff, and_or_left, exists_or]

private theorem parseParts_diverges {parts : List (List Char)} (h : ¬ TractableUpToReject parts)
    (fuel : ℕ) (partitions : List JsInteger) : parseParts fuel partitions parts = none := by
  induction parts generalizing partitions with
  | nil => exact absurd trivial h
  | cons part parts ih =>
    by_cases htractable : Tractable part
    · have hrest : ¬ Rejected part ∧ ¬ TractableUpToReject parts := by
        by_contra hnot
        exact h ⟨htractable, fun hrejected => by
          by_contra hparts
          exact hnot ⟨hrejected, hparts⟩⟩
      rw [parseParts]
      cases hpart : parsePart fuel partitions part with
      | none => rfl
      | some first =>
        cases first with
        | error e => exact absurd hpart (parsePart_ne_error hrest.1 fuel partitions e)
        | ok partitions' => exact ih hrest.2 partitions'
    · rw [parseParts, parsePart_diverges htractable]

/-! ## What the boot accepts -/

theorem Denotes.chars {text : List Char} {x y : ℕ} (h : Denotes text x y) :
    ∀ c ∈ text, c.isDigit = true ∨ c = '-' := by
  cases h with
  | single h => exact fun c hc => Or.inl (h.2 c hc)
  | range hfirst hlast =>
    intro c hc
    rcases List.mem_append.mp hc with hc | hc
    · exact Or.inl (hfirst.2 c hc)
    · rcases List.mem_cons.mp hc with rfl | hc
      · exact Or.inr rfl
      · exact Or.inl (hlast.2 c hc)

theorem Denotes.isWhiteSpace_eq_false {text : List Char} {x y : ℕ} (h : Denotes text x y) :
    ∀ c ∈ text, isWhiteSpace c = false := by
  intro c hc
  rcases h.chars c hc with hdigit | rfl
  · exact isWhiteSpace_of_isDigit hdigit
  · decide

theorem Denotes.comma_not_mem {text : List Char} {x y : ℕ} (h : Denotes text x y) :
    ',' ∉ text := by
  intro hc
  rcases h.chars ',' hc with hdigit | hdash
  · exact absurd hdigit (by decide)
  · exact absurd hdash (by decide)

theorem denotes_of_mem_segmentPattern {text : List Char} (h : text ∈ segmentPattern.matches') :
    ∃ x y, Denotes text x y := by
  rw [segmentPattern, RegularExpression.matches'_mul] at h
  obtain ⟨first, hfirst, rest, hrest, rfl⟩ := Language.mem_mul.mp h
  have hfirst' := isDigits_of_mem hfirst
  rw [RegularExpression.matches'_add, RegularExpression.matches'_epsilon,
    RegularExpression.matches'_mul, RegularExpression.matches'_char, Language.mem_add] at hrest
  rcases hrest with hempty | hsecond
  · rw [Language.mem_one] at hempty
    subst hempty
    exact ⟨_, _, by rw [List.append_nil]; exact .single hfirst'⟩
  · obtain ⟨dash, hdash, last, hlast, rfl⟩ := Language.mem_mul.mp hsecond
    rw [Set.mem_singleton_iff.mp hdash]
    exact ⟨_, _, .range hfirst' (isDigits_of_mem hlast)⟩

private theorem spaced_of_mem {text : List Char}
    (h : text ∈ (RegularExpression.char ',' * (anyOf whiteSpace).star *
      segmentPattern).matches') :
    ∃ space segment x y, text = ',' :: (space ++ segment) ∧
      (∀ c ∈ space, isWhiteSpace c = true) ∧ Denotes segment x y := by
  rw [RegularExpression.matches'_mul, RegularExpression.matches'_mul,
    RegularExpression.matches'_char] at h
  obtain ⟨before, hbefore, segment, hsegment, rfl⟩ := Language.mem_mul.mp h
  obtain ⟨comma, hcomma, space, hspace, rfl⟩ := Language.mem_mul.mp hbefore
  obtain ⟨x, y, hdenotes⟩ := denotes_of_mem_segmentPattern hsegment
  rw [Set.mem_singleton_iff.mp hcomma]
  refine ⟨space, segment, x, y, rfl, ?_, hdenotes⟩
  intro c hc
  exact decide_eq_true (mem_star_anyOf hspace c hc)

private theorem denotes_of_mem_splitOn {first : List Char} {words : List (List Char)}
    (hcomma : ',' ∉ first) (hfirst : ∃ x y, Denotes (trim first) x y)
    (hwords : ∀ word ∈ words, word ∈ (RegularExpression.char ',' * (anyOf whiteSpace).star *
      segmentPattern).matches') :
    ∀ part ∈ (first ++ words.flatten).splitOn ',', ∃ x y, Denotes (trim part) x y := by
  induction words generalizing first with
  | nil =>
    rw [List.flatten_nil, List.append_nil, List.splitOn_eq_singleton hcomma]
    intro part hpart
    rw [List.mem_singleton.mp hpart]
    exact hfirst
  | cons word words ih =>
    obtain ⟨space, segment, x, y, rfl, hspace, hdenotes⟩ :=
      spaced_of_mem (hwords word List.mem_cons_self)
    have hnext : ',' ∉ space ++ segment := by
      intro hc
      rcases List.mem_append.mp hc with hc | hc
      · exact absurd (hspace ',' hc) (by decide)
      · exact hdenotes.comma_not_mem hc
    have htrim : trim (space ++ segment) = segment :=
      trim_append hspace hdenotes.isWhiteSpace_eq_false
    rw [List.flatten_cons, List.cons_append, List.splitOn_append_cons_self_of_not_mem hcomma]
    intro part hpart
    rcases List.mem_cons.mp hpart with rfl | hpart
    · exact hfirst
    · refine ih hnext ⟨x, y, ?_⟩ (fun w hw => hwords w (List.mem_cons_of_mem _ hw)) part hpart
      rw [htrim]
      exact hdenotes

/-- What the boot lets through is made of segments the parser reads. -/
private theorem denotes_of_mem_bootPattern {spec : String}
    (h : spec.toList ∈ bootPattern.matches') :
    ∀ part ∈ segments spec, ∃ x y, Denotes (trim part) x y := by
  rw [bootPattern, RegularExpression.matches'_mul, RegularExpression.matches'_star] at h
  obtain ⟨first, hfirst, rest, hrest, hspec⟩ := Language.mem_mul.mp h
  obtain ⟨words, rfl, hwords⟩ := Language.mem_kstar.mp hrest
  obtain ⟨x, y, hdenotes⟩ := denotes_of_mem_segmentPattern hfirst
  have htrim : trim first = first :=
    trim_append (List.forall_mem_nil _) hdenotes.isWhiteSpace_eq_false
  rw [segments, ← hspec]
  refine denotes_of_mem_splitOn hdenotes.comma_not_mem ⟨x, y, ?_⟩ hwords
  rw [htrim]
  exact hdenotes

/-! ## The whole specification -/

theorem not_parsesTo {spec : String} (h : ¬ TractableUpToReject (segments spec))
    (result : Except PartitionError (List JsInteger)) : ¬ ParsesTo spec result := by
  rintro ⟨fuel, hfuel⟩
  rw [parsePartitionSpec, parseParts_diverges h] at hfuel
  cases hfuel

private theorem parsesTo_of_tractable {spec : String} (h : TractableUpToReject (segments spec)) :
    ∃ result, ParsesTo spec (result.map fun partitions => partitions.insertionSort (· ≤ ·)) ∧
      PartsOutcome [] (segments spec) result := by
  obtain ⟨fuel, result, hparts, houtcome⟩ := parseParts_ends h List.nodup_nil
  refine ⟨result, ⟨fuel, ?_⟩, houtcome⟩
  rw [parsePartitionSpec, hparts]
  rfl

/-- The parser does what the specification says of the strings whose segments are tractable up to
the first one that is rejected, and of no others. -/
theorem parsePartitionSpec_exact_iff (spec : String) :
    ParsesExactly spec ↔ TractableUpToReject (segments spec) := by
  constructor
  · intro hexact
    by_contra hnot
    obtain ⟨result, hresult⟩ := hexact.terminates
    exact not_parsesTo hnot result hresult
  · intro h
    obtain ⟨result, hparses, houtcome⟩ := parsesTo_of_tractable h
    cases houtcome with
    | threw hpart hrejected hcomplains =>
      refine ⟨⟨_, hparses⟩, ?_, ?_, ?_⟩
      · intro result hresult
        rw [hresult.unique hparses]
        exact iff_of_true ⟨_, rfl⟩ ⟨_, hpart, hrejected⟩
      · intro partitions hok
        cases hok.unique hparses
      · intro hboot error herror
        cases herror.unique hparses
        obtain ⟨x, y, hdenotes⟩ := denotes_of_mem_bootPattern hboot _ hpart
        cases hcomplains with
        | invalidSegment hnone => exact absurd hdenotes (hnone x y)
        | endBeforeStart hrange hlt => exact ⟨_, hpart, rfl, _, _, hrange, hlt⟩
    | returned haccepted hnodup hmem =>
      refine ⟨⟨_, hparses⟩, ?_, ?_, ?_⟩
      · intro result hresult
        rw [hresult.unique hparses]
        refine iff_of_false ?_ ?_
        · rintro ⟨error, herror⟩
          cases herror
        · rintro ⟨part, hpart, hrejected⟩
          exact haccepted part hpart hrejected
      · intro partitions hok
        cases hok.unique hparses
        refine ⟨?_, ?_⟩
        · have hnodup' := (List.perm_insertionSort (· ≤ ·) _).nodup_iff.mpr hnodup
          exact (List.sortedLE_insertionSort.sortedLT_of_nodup hnodup').pairwise
        · intro i
          rw [List.mem_insertionSort, hmem]
          exact or_iff_right (List.not_mem_nil)
      · intro hboot error herror
        cases herror.unique hparses

example : parsePartitionSpec 5 "0-3, 2,5" = some (.ok [0, 1, 2, 3, 5]) := by decide +kernel

theorem denotes_two_pow : Denotes (trim "9007199254740992".toList) (2 ^ 53) (2 ^ 53) := by
  have hdigits : IsDigits "9007199254740992".toList :=
    ⟨by decide +kernel, List.all_eq_true.mp (by decide +kernel)⟩
  have htrim : trim "9007199254740992".toList = "9007199254740992".toList := by decide +kernel
  have hdecimal : decimal "9007199254740992".toList = 2 ^ 53 := by decide +kernel
  rw [htrim, ← hdecimal]
  exact .single hdigits

/-- `2 ^ 53` alone passes the boot's pattern and is no range that ends before it starts, and the
call does not come to an end. -/
theorem parsePartitionSpec_endless :
    "9007199254740992".toList ∈ bootPattern.matches' ∧
      (∀ part ∈ segments "9007199254740992", ¬ Rejected part) ∧
      (∀ result, ¬ ParsesTo "9007199254740992" result) ∧ ¬ ParsesExactly "9007199254740992" := by
  have hboot : "9007199254740992".toList ∈ bootPattern.matches' :=
    (RegularExpression.rmatch_iff_matches' _ _).mp (by decide +kernel)
  have hsegments : segments "9007199254740992" = ["9007199254740992".toList] := by decide +kernel
  have hcounts : ¬ binary64.Counts (2 ^ 53) (2 ^ 53) := by
    rintro (hlt | ⟨-, hties⟩)
    · exact absurd hlt (Nat.lt_irrefl _)
    · exact absurd hties.1 (Nat.lt_irrefl _)
  have hendless : ∀ result, ¬ ParsesTo "9007199254740992" result := by
    apply not_parsesTo
    rw [hsegments]
    intro h
    exact hcounts ((h.1 _ _ denotes_two_pow).2 (Nat.le_refl _))
  refine ⟨hboot, ?_, hendless, ?_⟩
  · rw [hsegments]
    intro part hpart hrejected
    rw [List.mem_singleton.mp hpart] at hrejected
    exact absurd (hrejected _ _ denotes_two_pow) (Nat.lt_irrefl _)
  · rintro ⟨⟨result, hresult⟩, -⟩
    exact hendless result hresult

end Geofence
