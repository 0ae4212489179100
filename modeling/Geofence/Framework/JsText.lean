import Mathlib.Computability.RegularExpressions
import Mathlib.Data.List.DropRight
/-!
# Texts as JavaScript reads them

Trimming, decimal digits and character classes of regular expressions, over lists of characters.
-/

namespace Geofence.Framework.JsText

/-- White space and line terminators, which `trim` removes and `\s` matches. -/
def whiteSpace : List Char :=
  [9, 10, 11, 12, 13, 32, 0xA0, 0x1680, 0x2000, 0x2001, 0x2002, 0x2003, 0x2004, 0x2005, 0x2006,
    0x2007, 0x2008, 0x2009, 0x200A, 0x2028, 0x2029, 0x202F, 0x205F, 0x3000, 0xFEFF].map Char.ofNat

def isWhiteSpace (c : Char) : Bool := c ∈ whiteSpace

def trim (text : List Char) : List Char :=
  (text.dropWhile isWhiteSpace).rdropWhile isWhiteSpace

theorem trim_append {space text : List Char} (hspace : ∀ c ∈ space, isWhiteSpace c = true)
    (htext : ∀ c ∈ text, isWhiteSpace c = false) : trim (space ++ text) = text := by
  have hdrop : (space ++ text).dropWhile isWhiteSpace = text := by
    rw [List.dropWhile_append_of_pos hspace]
    cases text with
    | nil => rfl
    | cons c text => rw [List.dropWhile_cons_of_neg (by simp [htext c List.mem_cons_self])]
  rw [trim, hdrop, List.rdropWhile_eq_self_iff]
  intro hne
  rw [htext _ (List.getLast_mem hne)]
  exact Bool.false_ne_true

/-- A text of digits, and at least one. -/
def IsDigits (text : List Char) : Prop := text ≠ [] ∧ ∀ c ∈ text, c.isDigit = true

/-- The number a text of digits stands for. -/
def decimal (digits : List Char) : Nat :=
  digits.foldl (fun n c => 10 * n + (c.toNat - '0'.toNat)) 0

theorem isWhiteSpace_of_isDigit {c : Char} (h : c.isDigit = true) : isWhiteSpace c = false := by
  have hnone : whiteSpace.all (fun c => !c.isDigit) = true := by decide +kernel
  rw [isWhiteSpace, decide_eq_false_iff_not]
  intro hmem
  have hc := List.all_eq_true.mp hnone c hmem
  rw [h] at hc
  cases hc

/-! ## Character classes -/

/-- One character of a class. -/
def anyOf (chars : List Char) : RegularExpression Char :=
  (chars.map RegularExpression.char).foldr (· + ·) 0

theorem mem_anyOf {chars text : List Char} (h : text ∈ (anyOf chars).matches') :
    ∃ c ∈ chars, text = [c] := by
  induction chars with
  | nil => cases h
  | cons c chars ih =>
    rcases h with hfirst | hrest
    · exact ⟨c, List.mem_cons_self, hfirst⟩
    · obtain ⟨d, hd, heq⟩ := ih hrest
      exact ⟨d, List.mem_cons_of_mem c hd, heq⟩

theorem mem_star_anyOf {chars text : List Char} (h : text ∈ (anyOf chars).star.matches') :
    ∀ c ∈ text, c ∈ chars := by
  rw [RegularExpression.matches'_star] at h
  obtain ⟨words, rfl, hwords⟩ := Language.mem_kstar.mp h
  intro c hc
  obtain ⟨word, hword, hmem⟩ := List.mem_flatten.mp hc
  obtain ⟨d, hd, rfl⟩ := mem_anyOf (hwords word hword)
  rw [List.mem_singleton.mp hmem]
  exact hd

/-- `\d` -/
def digit : RegularExpression Char := anyOf "0123456789".toList

/-- `\d+` -/
def digits : RegularExpression Char := digit * digit.star

theorem isDigits_of_mem {text : List Char} (h : text ∈ digits.matches') : IsDigits text := by
  have hclass : "0123456789".toList.all Char.isDigit = true := by decide +kernel
  rw [digits, RegularExpression.matches'_mul] at h
  obtain ⟨first, hfirst, rest, hrest, rfl⟩ := Language.mem_mul.mp h
  obtain ⟨c, hc, rfl⟩ := mem_anyOf hfirst
  refine ⟨List.cons_ne_nil _ _, ?_⟩
  intro d hd
  rcases List.mem_cons.mp hd with rfl | hd
  · exact List.all_eq_true.mp hclass d hc
  · exact List.all_eq_true.mp hclass d (mem_star_anyOf hrest d hd)

end Geofence.Framework.JsText
