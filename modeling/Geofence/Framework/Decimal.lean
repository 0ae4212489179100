import Mathlib.Algebra.Order.Field.Rat
import Mathlib.Data.Int.Order.Basic
import Mathlib.Data.List.Basic
import Mathlib.Tactic.Common
/-!
# Numbers by their shortest digits

A number is its decimal digits, without zeros at the end, and an exponent. `toText` lays them out
as `Number.prototype.toString` does: without an exponent where the decimal point is not further
than 21 digits to the right or 6 zeros to the left. `read?` takes the numerals of JSON.
-/

namespace Geofence.Framework

/-- `± digits * 10 ^ exponent` -/
structure Decimal where
  negative : Bool
  digits : Nat
  exponent : Int
  canonical : digits % 10 ≠ 0 ∨ (negative = false ∧ digits = 0 ∧ exponent = 0)
  deriving DecidableEq

/-- The parts of a numeral: the digits before and behind the point, and the exponent. -/
structure Numeral where
  negative : Bool
  whole : List Char
  fraction : List Char
  exponent : Option Int

namespace Numeral

def exponentText : Option Int → List Char
  | none => []
  | some e => 'e' :: (if e < 0 then '-' else '+') :: Nat.toDigits 10 e.natAbs

def text (n : Numeral) : List Char :=
  (if n.negative then ['-'] else []) ++ n.whole ++
    (if n.fraction = [] then [] else '.' :: n.fraction) ++ exponentText n.exponent

end Numeral

namespace Decimal

def zero : Decimal := ⟨false, 0, 0, Or.inr ⟨rfl, rfl, rfl⟩⟩

/-- Zeros at the end of the digits go to the exponent; there is one zero. -/
def ofDigits (negative : Bool) : Nat → Nat → Int → Decimal
  | 0, _, _ => zero
  | fuel + 1, digits, exponent =>
    if h : digits % 10 = 0 then ofDigits negative fuel (digits / 10) (exponent + 1)
    else ⟨negative, digits, exponent, Or.inl h⟩

/-- The number a numeral stands for. -/
def ofNumeral (n : Numeral) : Decimal :=
  let digits := Nat.ofDigitChars 10 (n.whole ++ n.fraction) 0
  ofDigits n.negative digits digits (n.exponent.getD 0 - n.fraction.length)

/-- The layout of `Number.prototype.toString`; `point` is where the decimal point comes. -/
def numeral (d : Decimal) : Numeral :=
  let digits := Nat.toDigits 10 d.digits
  let point := digits.length + d.exponent
  if 0 ≤ d.exponent ∧ point ≤ 21 then
    ⟨d.negative, digits ++ List.replicate d.exponent.toNat '0', [], none⟩
  else if 0 < point ∧ point ≤ 21 then
    ⟨d.negative, digits.take point.toNat, digits.drop point.toNat, none⟩
  else if -6 < point ∧ point ≤ 0 then
    ⟨d.negative, ['0'], List.replicate (-point).toNat '0' ++ digits, none⟩
  else ⟨d.negative, digits.take 1, digits.drop 1, some (point - 1)⟩

def toText (d : Decimal) : List Char := d.numeral.text

def ofNat (n : Nat) : Decimal := ofDigits false n n 0

/-- The number itself. -/
def value (d : Decimal) : ℚ :=
  (if d.negative then -1 else 1) * d.digits * 10 ^ d.exponent

/-- The value of a whole number that is not negative. -/
def natValue (d : Decimal) : Nat := d.digits * 10 ^ d.exponent.toNat

/-! ## Reading numerals -/

def readFraction? : List Char → Option (List Char × List Char)
  | '.' :: rest =>
    match rest.takeWhile Char.isDigit with
    | [] => none
    | digits => some (digits, rest.dropWhile Char.isDigit)
  | text => some ([], text)

def readSign : List Char → Bool × List Char
  | '-' :: rest => (true, rest)
  | '+' :: rest => (false, rest)
  | text => (false, text)

def readExponent? : List Char → Option (Option Int × List Char)
  | [] => some (none, [])
  | c :: rest =>
    if c = 'e' ∨ c = 'E' then
      let (negative, rest) := readSign rest
      match rest.takeWhile Char.isDigit with
      | [] => none
      | digits =>
        let value : Int := Nat.ofDigitChars 10 digits 0
        some (some (if negative then -value else value), rest.dropWhile Char.isDigit)
    else some (none, c :: rest)

/-- The digits before the point do not begin with a zero, unless it is the only one. -/
def readWhole? (text : List Char) : Option (List Char × List Char) :=
  match text.takeWhile Char.isDigit with
  | [] => none
  | '0' :: _ :: _ => none
  | digits => some (digits, text.dropWhile Char.isDigit)

def readUnsigned? (negative : Bool) (text : List Char) : Option (Numeral × List Char) := do
  let (whole, text) ← readWhole? text
  let (fraction, text) ← readFraction? text
  let (exponent, text) ← readExponent? text
  return (⟨negative, whole, fraction, exponent⟩, text)

def readNumeral? : List Char → Option (Numeral × List Char)
  | '-' :: rest => readUnsigned? true rest
  | text => readUnsigned? false text

def read? (text : List Char) : Option (Decimal × List Char) :=
  (readNumeral? text).map fun (n, rest) => (ofNumeral n, rest)

/-- What follows a numeral does not go on with it. -/
def EndsNumeral (rest : List Char) : Prop :=
  ∀ c ∈ rest.head?, c.isDigit = false ∧ c ≠ '.' ∧ c ≠ 'e' ∧ c ≠ 'E'

theorem span_digits {digits rest : List Char} (hdigits : ∀ c ∈ digits, c.isDigit = true)
    (hrest : ∀ c ∈ rest.head?, c.isDigit = false) :
    (digits ++ rest).takeWhile Char.isDigit = digits ∧
      (digits ++ rest).dropWhile Char.isDigit = rest := by
  rw [List.takeWhile_append_of_pos hdigits, List.dropWhile_append_of_pos hdigits]
  cases rest with
  | nil => exact ⟨List.append_nil _, rfl⟩
  | cons c rest =>
    have hc := hrest c rfl
    rw [List.takeWhile_cons_of_neg (by simp [hc]), List.dropWhile_cons_of_neg (by simp [hc]),
      List.append_nil]
    exact ⟨rfl, rfl⟩

/-- What `readNumeral?` accepts: digits before the point, without needless zeros, and digits
behind it. -/
structure WellFormed (n : Numeral) : Prop where
  whole : ∀ c ∈ n.whole, c.isDigit = true
  nonempty : n.whole ≠ []
  noLeadingZero : n.whole.head? = some '0' → n.whole = ['0']
  fraction : ∀ c ∈ n.fraction, c.isDigit = true

theorem isDigit_of_mem_toDigits {n : Nat} {c : Char} (hc : c ∈ Nat.toDigits 10 n) :
    c.isDigit = true :=
  Nat.isDigit_of_mem_toDigits (by decide) (by decide) hc

private theorem readWhole_append {whole rest : List Char} (hwhole : ∀ c ∈ whole, c.isDigit = true)
    (hnonempty : whole ≠ []) (hzero : whole.head? = some '0' → whole = ['0'])
    (hrest : ∀ c ∈ rest.head?, c.isDigit = false) :
    readWhole? (whole ++ rest) = some (whole, rest) := by
  obtain ⟨htake, hdrop⟩ := span_digits hwhole hrest
  unfold readWhole?
  rw [htake, hdrop]
  split
  · exact absurd rfl hnonempty
  · have hone := hzero rfl
    simp at hone
  · rfl

private theorem readFraction_append {fraction rest : List Char}
    (hfraction : ∀ c ∈ fraction, c.isDigit = true)
    (hrest : ∀ c ∈ rest.head?, c.isDigit = false ∧ c ≠ '.') :
    readFraction? ((if fraction = [] then [] else '.' :: fraction) ++ rest) =
      some (fraction, rest) := by
  by_cases hempty : fraction = []
  · rw [if_pos hempty, hempty, List.nil_append]
    cases rest with
    | nil => rfl
    | cons c rest =>
      have hdot := (hrest c rfl).2
      simp [readFraction?, hdot]
  · obtain ⟨htake, hdrop⟩ := span_digits hfraction fun c hc => (hrest c hc).1
    rw [if_neg hempty, List.cons_append, readFraction?, htake, hdrop]
    split
    · exact absurd rfl hempty
    · rfl

private theorem readExponent_append (exponent : Option Int) {rest : List Char}
    (hrest : EndsNumeral rest) :
    readExponent? (Numeral.exponentText exponent ++ rest) = some (exponent, rest) := by
  cases exponent with
  | none =>
    cases rest with
    | nil => rfl
    | cons c rest =>
      obtain ⟨-, -, he, hE⟩ := hrest c rfl
      simp [Numeral.exponentText, readExponent?, he, hE]
  | some e =>
    have hdigits : ∀ c ∈ Nat.toDigits 10 e.natAbs, c.isDigit = true :=
      fun c hc => isDigit_of_mem_toDigits hc
    obtain ⟨htake, hdrop⟩ := span_digits hdigits fun c hc => (hrest c hc).1
    have hsign : readSign ((if e < 0 then '-' else '+') :: (Nat.toDigits 10 e.natAbs ++ rest)) =
        (decide (e < 0), Nat.toDigits 10 e.natAbs ++ rest) := by
      by_cases hneg : e < 0
      · simp [hneg, readSign]
      · simp [hneg, readSign]
    have hvalue : (if decide (e < 0) = true then
        -((Nat.ofDigitChars 10 (Nat.toDigits 10 e.natAbs) 0 : Nat) : Int) else
          ((Nat.ofDigitChars 10 (Nat.toDigits 10 e.natAbs) 0 : Nat) : Int)) = e := by
      rw [Nat.ofDigitChars_ten_toDigits]
      by_cases hneg : e < 0
      · rw [if_pos (by simpa using hneg)]
        omega
      · rw [if_neg (by simpa using hneg)]
        omega
    rw [Numeral.exponentText, List.cons_append, List.cons_append, readExponent?,
      if_pos (Or.inl rfl), hsign]
    simp only [htake, hdrop]
    split
    · rename_i hnil
      exact absurd hnil Nat.toDigits_ne_nil
    · rw [hvalue]

private theorem readNumeral_text {n : Numeral} (h : WellFormed n) {rest : List Char}
    (hrest : EndsNumeral rest) : readNumeral? (n.text ++ rest) = some (n, rest) := by
  have hexponent := readExponent_append n.exponent hrest
  have hafterFraction : ∀ c ∈ (Numeral.exponentText n.exponent ++ rest).head?,
      c.isDigit = false ∧ c ≠ '.' := by
    intro c hc
    cases hexp : n.exponent with
    | none =>
      rw [hexp] at hc
      exact ⟨(hrest c hc).1, (hrest c hc).2.1⟩
    | some e =>
      rw [hexp] at hc
      cases hc
      exact ⟨rfl, by decide⟩
  have hfraction := readFraction_append h.fraction hafterFraction
  have hafterWhole : ∀ c ∈ ((if n.fraction = [] then [] else '.' :: n.fraction) ++
      (Numeral.exponentText n.exponent ++ rest)).head?, c.isDigit = false := by
    intro c hc
    by_cases hempty : n.fraction = []
    · rw [if_pos hempty, List.nil_append] at hc
      exact (hafterFraction c hc).1
    · rw [if_neg hempty] at hc
      cases hc
      rfl
  have hwhole := readWhole_append h.whole h.nonempty h.noLeadingZero hafterWhole
  obtain ⟨first, more, hfirst⟩ := List.exists_cons_of_ne_nil h.nonempty
  have hdigit : first.isDigit = true := h.whole first (by simp [hfirst])
  have hminus : first ≠ '-' := by
    rintro rfl
    cases hdigit
  have hunsigned : readUnsigned? n.negative (n.whole ++
      ((if n.fraction = [] then [] else '.' :: n.fraction) ++
        (Numeral.exponentText n.exponent ++ rest))) = some (n, rest) := by
    simp only [readUnsigned?, hwhole, hfraction, hexponent, Option.bind_eq_bind, Option.bind_some]
    rfl
  cases hnegative : n.negative with
  | true =>
    have htext : n.text ++ rest = '-' :: (n.whole ++
        ((if n.fraction = [] then [] else '.' :: n.fraction) ++
          (Numeral.exponentText n.exponent ++ rest))) := by
      simp [Numeral.text, hnegative]
    rw [htext, readNumeral?, ← hnegative]
    exact hunsigned
  | false =>
    have htext : n.text ++ rest = n.whole ++
        ((if n.fraction = [] then [] else '.' :: n.fraction) ++
          (Numeral.exponentText n.exponent ++ rest)) := by
      simp [Numeral.text, hnegative]
    rw [htext, hfirst, List.cons_append, readNumeral?, ← List.cons_append, ← hfirst, ← hnegative]
    · exact hunsigned
    · exact fun _ heq => hminus (List.cons.inj heq).1

/-! ## The numeral of a number stands for it -/

private theorem ofDigits_mul_pow (negative : Bool) {digits : Nat} (hdigits : digits % 10 ≠ 0)
    (e : Int) (zeros fuel : Nat) (hfuel : zeros < fuel) :
    ofDigits negative fuel (digits * 10 ^ zeros) (e - zeros) =
      ⟨negative, digits, e, Or.inl hdigits⟩ := by
  induction zeros generalizing fuel with
  | zero =>
    obtain ⟨fuel, rfl⟩ := Nat.exists_eq_succ_of_ne_zero (Nat.ne_of_gt hfuel)
    simp [ofDigits, hdigits]
  | succ zeros ih =>
    obtain ⟨fuel, rfl⟩ := Nat.exists_eq_succ_of_ne_zero (Nat.ne_of_gt (Nat.zero_lt_of_lt hfuel))
    have hmod : digits * 10 ^ (zeros + 1) % 10 = 0 := by
      rw [Nat.pow_succ, ← Nat.mul_assoc, Nat.mul_mod_left]
    have hdiv : digits * 10 ^ (zeros + 1) / 10 = digits * 10 ^ zeros := by
      rw [Nat.pow_succ, ← Nat.mul_assoc, Nat.mul_div_cancel _ (by decide)]
    have hexponent : e - ((zeros + 1 : Nat) : Int) + 1 = e - zeros := by omega
    rw [Nat.succ_eq_add_one, ofDigits, dif_pos hmod, hdiv, hexponent]
    exact ih fuel (by omega)

theorem head_toDigits {n : Nat} (hn : n ≠ 0) : (Nat.toDigits 10 n).head? ≠ some '0' := by
  induction n using Nat.strongRecOn with
  | _ n ih =>
    by_cases hlt : n < 10
    · have hdigits : ∀ m < 10, m ≠ 0 → m.digitChar ≠ '0' := by decide
      rw [Nat.toDigits_of_lt_base hlt]
      exact fun hzero => hdigits n hlt hn (Option.some.inj hzero)
    · have hrest := ih (n / 10) (by omega) (by omega)
      rw [Nat.toDigits_of_base_le (by decide) (by omega),
        List.head?_append_of_ne_nil _ Nat.toDigits_ne_nil]
      exact hrest

/-- Where the number's digits are found in a numeral, with zeros behind them, the numeral stands
for the number. -/
theorem ofNumeral_eq {d : Decimal} (hdigits : d.digits % 10 ≠ 0) {n : Numeral} (zeros : Nat)
    (hnegative : n.negative = d.negative)
    (hvalue : Nat.ofDigitChars 10 (n.whole ++ n.fraction) 0 = d.digits * 10 ^ zeros)
    (hexponent : n.exponent.getD 0 - n.fraction.length = d.exponent - zeros) :
    ofNumeral n = d := by
  have hpos : 0 < d.digits := by omega
  have hfuel : zeros < d.digits * 10 ^ zeros :=
    Nat.lt_of_lt_of_le (Nat.lt_pow_self (by decide)) (Nat.le_mul_of_pos_left _ hpos)
  rw [ofNumeral, hvalue, hexponent, hnegative,
    ofDigits_mul_pow d.negative hdigits d.exponent zeros _ hfuel]

private theorem eq_zero_of_digits {d : Decimal} (h : d.digits % 10 = 0) : d = zero := by
  obtain ⟨negative, digits, exponent, hcanonical⟩ := d
  obtain ⟨rfl, rfl, rfl⟩ := hcanonical.resolve_left fun hne => hne h
  rfl

section Layout

variable (d : Decimal)

/-- What the layout of a number with digits has to satisfy to be read back. -/
private def Faithful (n : Numeral) : Prop := WellFormed n ∧ ofNumeral n = d

private theorem faithful_integer (hdigits : d.digits % 10 ≠ 0) (hexponent : 0 ≤ d.exponent) :
    Faithful d ⟨d.negative, Nat.toDigits 10 d.digits ++ List.replicate d.exponent.toNat '0', [],
      none⟩ := by
  have hhead : (Nat.toDigits 10 d.digits ++ List.replicate d.exponent.toNat '0').head? ≠
      some '0' := by
    rw [List.head?_append_of_ne_nil _ Nat.toDigits_ne_nil]
    exact head_toDigits (by omega)
  refine ⟨⟨?_, ?_, fun hzero => absurd hzero hhead, by simp⟩, ?_⟩
  · intro c hc
    rcases List.mem_append.mp hc with hc | hc
    · exact isDigit_of_mem_toDigits hc
    · rw [List.eq_of_mem_replicate hc]
      rfl
  · simp [Nat.toDigits_ne_nil]
  · apply ofNumeral_eq hdigits d.exponent.toNat rfl
    · simp only [List.append_nil, Nat.ofDigitChars_append, Nat.ofDigitChars_ten_toDigits,
        Nat.ofDigitChars_replicate_zero]
      exact Nat.mul_comm _ _
    · simp only [Option.getD_none, List.length_nil]
      omega

private theorem faithful_split {i : Nat} (hdigits : d.digits % 10 ≠ 0) (hpos : 0 < i)
    (exponent : Option Int)
    (hexponent : exponent.getD 0 - ((Nat.toDigits 10 d.digits).length - i : Nat) = d.exponent) :
    Faithful d ⟨d.negative, (Nat.toDigits 10 d.digits).take i, (Nat.toDigits 10 d.digits).drop i,
      exponent⟩ := by
  have hne : Nat.toDigits 10 d.digits ≠ [] := Nat.toDigits_ne_nil
  have htake : (Nat.toDigits 10 d.digits).take i ≠ [] := by
    rw [Ne, List.take_eq_nil_iff]
    exact fun h => h.elim (by omega) hne
  have hhead : ((Nat.toDigits 10 d.digits).take i).head? ≠ some '0' := by
    rw [List.head?_take, if_neg (by omega)]
    exact head_toDigits (by omega)
  refine ⟨⟨?_, htake, fun hzero => absurd hzero hhead, ?_⟩, ?_⟩
  · exact fun c hc => isDigit_of_mem_toDigits (List.mem_of_mem_take hc)
  · exact fun c hc => isDigit_of_mem_toDigits (List.mem_of_mem_drop hc)
  · apply ofNumeral_eq hdigits 0 rfl
    · simp only [List.take_append_drop, Nat.ofDigitChars_ten_toDigits, Nat.pow_zero, Nat.mul_one]
    · simp only [List.length_drop]
      omega

private theorem faithful_fraction {zeros : Nat} (hdigits : d.digits % 10 ≠ 0)
    (hexponent : -((zeros + (Nat.toDigits 10 d.digits).length : Nat) : Int) = d.exponent) :
    Faithful d ⟨d.negative, ['0'], List.replicate zeros '0' ++ Nat.toDigits 10 d.digits, none⟩ := by
  refine ⟨⟨?_, by simp, fun _ => rfl, ?_⟩, ?_⟩
  · intro c hc
    rw [List.mem_singleton.mp hc]
    rfl
  · intro c hc
    rcases List.mem_append.mp hc with hc | hc
    · rw [List.eq_of_mem_replicate hc]
      rfl
    · exact isDigit_of_mem_toDigits hc
  · apply ofNumeral_eq hdigits 0 rfl
    · rw [← List.append_assoc, Nat.ofDigitChars_append]
      have hzero : Nat.ofDigitChars 10 (['0'] ++ List.replicate zeros '0') 0 = 0 := by
        rw [Nat.ofDigitChars_append, Nat.ofDigitChars_replicate_zero]
        rfl
      rw [hzero, Nat.ofDigitChars_ten_toDigits, Nat.pow_zero, Nat.mul_one]
    · simp only [Option.getD_none, List.length_append, List.length_replicate]
      omega

private theorem faithful_numeral : Faithful d d.numeral := by
  by_cases hdigits : d.digits % 10 = 0
  · rw [eq_zero_of_digits hdigits]
    have hnumeral : zero.numeral = ⟨false, ['0'], [], none⟩ := rfl
    rw [hnumeral]
    exact ⟨⟨by simp, by simp, fun _ => rfl, by simp⟩, by decide⟩
  · have hlength : 0 < (Nat.toDigits 10 d.digits).length :=
      List.length_pos_iff.mpr Nat.toDigits_ne_nil
    unfold numeral
    simp only
    split_ifs with hinteger hpoint hfraction
    · exact faithful_integer d hdigits hinteger.1
    · refine faithful_split d hdigits (by omega) none ?_
      simp only [Option.getD_none]
      omega
    · exact faithful_fraction d hdigits (by omega)
    · refine faithful_split d hdigits Nat.one_pos _ ?_
      simp only [Option.getD_some]
      omega

end Layout

/-- The text of a number reads back as the number, whatever follows it. -/
theorem read_toText (d : Decimal) {rest : List Char} (hrest : EndsNumeral rest) :
    read? (d.toText ++ rest) = some (d, rest) := by
  obtain ⟨hwellFormed, hvalue⟩ := faithful_numeral d
  rw [read?, toText, readNumeral_text hwellFormed hrest, Option.map_some]
  simp only [hvalue]

theorem toText_head (d : Decimal) :
    ∃ c rest, d.toText = c :: rest ∧ (c.isDigit = true ∨ c = '-') := by
  obtain ⟨hwellFormed, -⟩ := faithful_numeral d
  obtain ⟨c, rest, hwhole⟩ := List.exists_cons_of_ne_nil hwellFormed.nonempty
  have hdigit := hwellFormed.whole c (by simp [hwhole])
  unfold toText Numeral.text
  cases d.numeral.negative with
  | true => exact ⟨'-', _, rfl, Or.inr rfl⟩
  | false =>
    rw [hwhole]
    exact ⟨c, _, rfl, Or.inl hdigit⟩

end Decimal

end Geofence.Framework
