import Mathlib.Data.List.TakeWhile
/-!
# base64url

The encoding of bytes in the URL-safe alphabet without padding, and the lenient decoder that goes
with it: it reads the low byte of every UTF-16 code unit, ends at the first padding character and
passes over what is in neither base64 alphabet.
-/

namespace Geofence.Framework.Base64Url

/-- Three bytes are four digits; what is left at the end is padded with zero bits. -/
def digits : List Nat → List Nat
  | a :: b :: c :: rest =>
    a / 4 :: (a % 4 * 16 + b / 16) :: (b % 16 * 4 + c / 64) :: c % 64 :: digits rest
  | [a, b] => [a / 4, a % 4 * 16 + b / 16, b % 16 * 4]
  | [a] => [a / 4, a % 4 * 16]
  | [] => []

/-- Four digits are three bytes; a last digit alone has not enough bits for one. -/
def bytes : List Nat → List Nat
  | w :: x :: y :: z :: rest =>
    (w * 4 + x / 16) :: (x % 16 * 16 + y / 4) :: (y % 4 * 64 + z) :: bytes rest
  | [w, x, y] => [w * 4 + x / 16, x % 16 * 16 + y / 4]
  | [w, x] => [w * 4 + x / 16]
  | _ => []

theorem digits_lt (data : List Nat) (hdata : ∀ b ∈ data, b < 256) : ∀ d ∈ digits data, d < 64 := by
  induction data using digits.induct with
  | case1 a b c rest ih =>
    have ha := hdata a (by simp)
    have hb := hdata b (by simp)
    have hc := hdata c (by simp)
    have hrest := ih fun x hx => hdata x (by simp [hx])
    intro d hd
    simp only [digits, List.mem_cons] at hd
    rcases hd with rfl | rfl | rfl | rfl | hd
    · omega
    · omega
    · omega
    · omega
    · exact hrest d hd
  | case2 a b =>
    have ha := hdata a (by simp)
    have hb := hdata b (by simp)
    intro d hd
    simp only [digits, List.mem_cons, List.not_mem_nil, or_false] at hd
    rcases hd with rfl | rfl | rfl <;> omega
  | case3 a =>
    have ha := hdata a (by simp)
    intro d hd
    simp only [digits, List.mem_cons, List.not_mem_nil, or_false] at hd
    rcases hd with rfl | rfl <;> omega
  | case4 =>
    intro d hd
    cases hd

private theorem bytes_digits (data : List Nat) (hdata : ∀ b ∈ data, b < 256) :
    bytes (digits data) = data := by
  induction data using digits.induct with
  | case1 a b c rest ih =>
    have ha := hdata a (by simp)
    have hb := hdata b (by simp)
    have hc := hdata c (by simp)
    have hrest := ih fun x hx => hdata x (by simp [hx])
    have h₁ : a / 4 * 4 + (a % 4 * 16 + b / 16) / 16 = a := by omega
    have h₂ : (a % 4 * 16 + b / 16) % 16 * 16 + (b % 16 * 4 + c / 64) / 4 = b := by omega
    have h₃ : (b % 16 * 4 + c / 64) % 4 * 64 + c % 64 = c := by omega
    simp only [digits, bytes, h₁, h₂, h₃, hrest]
  | case2 a b =>
    have ha := hdata a (by simp)
    have hb := hdata b (by simp)
    have h₁ : a / 4 * 4 + (a % 4 * 16 + b / 16) / 16 = a := by omega
    have h₂ : (a % 4 * 16 + b / 16) % 16 * 16 + b % 16 * 4 / 4 = b := by omega
    simp only [digits, bytes, h₁, h₂]
  | case3 a =>
    have ha := hdata a (by simp)
    have h₁ : a / 4 * 4 + a % 4 * 16 / 16 = a := by omega
    simp only [digits, bytes, h₁]
  | case4 => rfl

def alphabet : List Char :=
  "ABCDEFGHIJKLMNOPQRSTUVWXYZabcdefghijklmnopqrstuvwxyz0123456789-_".toList

def digitChar (d : Nat) : Char := alphabet.getD d 'A'

/-- The digit of a character of either alphabet. -/
def charDigit (c : Char) : Option Nat :=
  if c = '+' then some 62
  else if c = '/' then some 63
  else alphabet.idxOf? c

private theorem charDigit_digitChar (d : Nat) (hd : d < 64) : charDigit (digitChar d) = some d := by
  revert d
  decide +kernel

private theorem filterMap_charDigit (ds : List Nat) (hds : ∀ d ∈ ds, d < 64) :
    (ds.map digitChar).filterMap charDigit = ds := by
  induction ds with
  | nil => rfl
  | cons d ds ih =>
    rw [List.map_cons, List.filterMap_cons, charDigit_digitChar d (hds d (by simp)),
      ih fun x hx => hds x (List.mem_cons_of_mem d hx)]

theorem toNat_lt_of_mem (data : List UInt8) : ∀ b ∈ data.map UInt8.toNat, b < 256 := by
  intro b hb
  obtain ⟨x, -, rfl⟩ := List.mem_map.mp hb
  exact x.toNat_lt

def encode (data : List UInt8) : String :=
  String.ofList ((digits (data.map UInt8.toNat)).map digitChar)

/-- The UTF-16 code units of a character. -/
def codeUnits (c : Char) : List Nat :=
  if c.toNat < 0x10000 then [c.toNat]
  else [0xD800 + (c.toNat - 0x10000) / 0x400, 0xDC00 + (c.toNat - 0x10000) % 0x400]

/-- What the decoder sees of a text: a code unit that does not fit a byte loses its high one. -/
def lowBytes (text : List Char) : List Char :=
  (text.flatMap codeUnits).map fun unit => Char.ofNat (unit % 256)

def decode (text : String) : List UInt8 :=
  (bytes (((lowBytes text.toList).takeWhile (· ≠ '=')).filterMap charDigit)).map UInt8.ofNat

private theorem lowBytes_of_ascii {text : List Char} (h : ∀ c ∈ text, c.toNat < 128) :
    lowBytes text = text := by
  induction text with
  | nil => rfl
  | cons c text ih =>
    have hc := h c List.mem_cons_self
    have hunits : codeUnits c = [c.toNat] := if_pos (by omega)
    have hrest := ih fun d hd => h d (List.mem_cons_of_mem c hd)
    unfold lowBytes at hrest ⊢
    rw [List.flatMap_cons, hunits, List.map_append, hrest, List.map_singleton,
      Nat.mod_eq_of_lt (by omega), Char.ofNat_toNat, List.singleton_append]

private theorem digitChar_mem_alphabet (d : Nat) (hd : d < 64) : digitChar d ∈ alphabet := by
  revert d
  decide +kernel

theorem mem_alphabet_of_mem_encode (data : List UInt8) :
    ∀ c ∈ (encode data).toList, c ∈ alphabet := by
  intro c hc
  rw [encode, String.toList_ofList] at hc
  obtain ⟨d, hd, rfl⟩ := List.mem_map.mp hc
  exact digitChar_mem_alphabet d (digits_lt _ (toNat_lt_of_mem data) d hd)

theorem decode_encode (data : List UInt8) : decode (encode data) = data := by
  have hdata : ∀ b ∈ data.map UInt8.toNat, b < 256 := toNat_lt_of_mem data
  have hbytes : ∀ x : UInt8, UInt8.ofNat x.toNat = x := fun x => UInt8.ofNat_toNat
  have hascii : alphabet.all (fun c => decide (c.toNat < 128)) = true := by decide +kernel
  have hlow : lowBytes (encode data).toList = (encode data).toList := by
    apply lowBytes_of_ascii
    intro c hc
    exact of_decide_eq_true (List.all_eq_true.mp hascii c (mem_alphabet_of_mem_encode data c hc))
  have hwhole : (encode data).toList.takeWhile (· ≠ '=') = (encode data).toList := by
    rw [List.takeWhile_eq_self_iff]
    intro c hc
    have hmem := mem_alphabet_of_mem_encode data c hc
    rw [decide_eq_true_eq]
    rintro rfl
    revert hmem
    decide +kernel
  rw [decode, hlow, hwhole, encode, String.toList_ofList, filterMap_charDigit _ (digits_lt _ hdata),
    bytes_digits _ hdata, List.map_map]
  calc data.map (UInt8.ofNat ∘ UInt8.toNat) = data.map id := by
        apply List.map_congr_left
        intro x _
        exact hbytes x
    _ = data := List.map_id data

end Geofence.Framework.Base64Url
