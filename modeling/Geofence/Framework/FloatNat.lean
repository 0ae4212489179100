import Mathlib.Data.ENat.Basic
import Mathlib.Tactic.Ring
/-!
# Natural numbers in floating point

A natural number rounded to `p` significant bits, ties to even, and to infinity from `2 ^ emax`
on. Up to `2 ^ p` nothing is lost. Above, adding one gives the same number back, but for the odd
multiples of two below `2 ^ (p + 1)`, where the tie goes up.
-/

namespace Geofence.Framework.FloatNat

/-- The quotient to the nearest integer, ties to even. -/
def roundDiv (n d : ℕ) : ℕ :=
  if 2 * (n % d) < d ∨ (2 * (n % d) = d ∧ n / d % 2 = 0) then n / d else n / d + 1

private theorem le_roundDiv (n d : ℕ) : n / d ≤ roundDiv n d := by
  unfold roundDiv
  split
  · exact Nat.le_refl _
  · exact Nat.le_succ _

private theorem roundDiv_le (n d : ℕ) : roundDiv n d ≤ n / d + 1 := by
  unfold roundDiv
  split
  · exact Nat.le_succ _
  · exact Nat.le_refl _

private theorem roundDiv_one (n : ℕ) : roundDiv n 1 = n := by
  simp [roundDiv, Nat.mod_one]

private theorem roundDiv_mul_add {q r d : ℕ} (hr : r < d) :
    roundDiv (q * d + r) d = if 2 * r < d ∨ (2 * r = d ∧ q % 2 = 0) then q else q + 1 := by
  have hpos : 0 < d := Nat.lt_of_le_of_lt (Nat.zero_le r) hr
  have hmod : (q * d + r) % d = r := by
    rw [Nat.mul_comm, Nat.mul_add_mod, Nat.mod_eq_of_lt hr]
  have hdiv : (q * d + r) / d = q := by
    rw [Nat.mul_comm, Nat.mul_add_div hpos, Nat.div_eq_of_lt hr, Nat.add_zero]
  rw [roundDiv, hmod, hdiv]

private theorem roundDiv_mono {n m d : ℕ} (h : n ≤ m) : roundDiv n d ≤ roundDiv m d := by
  rcases Nat.lt_or_eq_of_le (Nat.div_le_div_right h : n / d ≤ m / d) with hlt | heq
  · calc roundDiv n d ≤ n / d + 1 := roundDiv_le n d
      _ ≤ m / d := hlt
      _ ≤ roundDiv m d := le_roundDiv m d
  · have hmod : n % d ≤ m % d := by
      have hn := Nat.div_add_mod n d
      have hm := Nat.div_add_mod m d
      rw [heq] at hn
      omega
    unfold roundDiv
    rw [heq]
    split
    · split
      · exact Nat.le_refl _
      · exact Nat.le_succ _
    · rename_i hup
      rw [if_neg]
      rintro (hlt | ⟨htie, heven⟩)
      · exact hup (Or.inl (by omega))
      · rcases Nat.lt_or_eq_of_le hmod with hless | hsame
        · exact hup (Or.inl (by omega))
        · exact hup (Or.inr ⟨by omega, heven⟩)

/-- The number of low bits that do not fit. -/
def dropped (p n : ℕ) : ℕ := n.log2 + 1 - p

/-- The nearest number of `p` significant bits. -/
def roundTo (p n : ℕ) : ℕ := roundDiv n (2 ^ dropped p n) * 2 ^ dropped p n

section Rounding

variable {p : ℕ} (hp : 0 < p)
include hp

private theorem dropped_of_lt {n : ℕ} (h : n < 2 ^ p) : dropped p n = 0 := by
  unfold dropped
  rcases Nat.eq_zero_or_pos n with rfl | hpos
  · rw [Nat.log2_zero]
    omega
  · have := (Nat.log2_lt (Nat.ne_of_gt hpos)).mpr h
    omega

theorem roundTo_of_lt {n : ℕ} (h : n < 2 ^ p) : roundTo p n = n := by
  rw [roundTo, dropped_of_lt hp h, Nat.pow_zero, roundDiv_one, Nat.mul_one]

theorem dropped_mul_add {q e r : ℕ} (hq : 2 ^ (p - 1) ≤ q) (hq' : q < 2 ^ p)
    (hr : r < 2 ^ e) : dropped p (q * 2 ^ e + r) = e := by
  have hlow : 2 ^ (p - 1 + e) ≤ q * 2 ^ e + r := by
    rw [Nat.pow_add]
    exact Nat.le_add_right_of_le (Nat.mul_le_mul_right _ hq)
  have hhigh : q * 2 ^ e + r < 2 ^ (p - 1 + e + 1) := by
    calc q * 2 ^ e + r < q * 2 ^ e + 2 ^ e := Nat.add_lt_add_left hr _
      _ = (q + 1) * 2 ^ e := by ring
      _ ≤ 2 ^ p * 2 ^ e := Nat.mul_le_mul_right _ hq'
      _ = 2 ^ (p - 1 + e + 1) := by
        rw [← Nat.pow_add]
        congr 1
        omega
  have hne : q * 2 ^ e + r ≠ 0 := by
    have := Nat.two_pow_pos (p - 1 + e)
    omega
  have hlog := (Nat.log2_eq_iff hne).mpr ⟨hlow, hhigh⟩
  rw [dropped, hlog]
  omega

theorem roundTo_mul_add {q e r : ℕ} (hq : 2 ^ (p - 1) ≤ q) (hq' : q < 2 ^ p)
    (hr : r < 2 ^ e) : roundTo p (q * 2 ^ e + r) =
      (if 2 * r < 2 ^ e ∨ (2 * r = 2 ^ e ∧ q % 2 = 0) then q else q + 1) * 2 ^ e := by
  rw [roundTo, dropped_mul_add hp hq hq' hr, roundDiv_mul_add hr]

theorem exists_leading {n : ℕ} (h : 2 ^ p ≤ n) :
    ∃ q e r, n = q * 2 ^ e + r ∧ 2 ^ (p - 1) ≤ q ∧ q < 2 ^ p ∧ r < 2 ^ e ∧ 1 ≤ e := by
  have hne : n ≠ 0 := by
    have := Nat.two_pow_pos p
    omega
  have hle : p ≤ n.log2 := (Nat.le_log2 hne).mpr h
  refine ⟨n / 2 ^ (n.log2 + 1 - p), n.log2 + 1 - p, n % 2 ^ (n.log2 + 1 - p), ?_, ?_, ?_, ?_, ?_⟩
  · exact (Nat.div_add_mod' n _).symm
  · rw [Nat.le_div_iff_mul_le (Nat.two_pow_pos _), ← Nat.pow_add]
    have hexp : p - 1 + (n.log2 + 1 - p) = n.log2 := by omega
    rw [hexp]
    exact Nat.log2_self_le hne
  · rw [Nat.div_lt_iff_lt_mul (Nat.two_pow_pos _), ← Nat.pow_add]
    have hexp : p + (n.log2 + 1 - p) = n.log2 + 1 := by omega
    rw [hexp]
    exact Nat.lt_log2_self
  · exact Nat.mod_lt _ (Nat.two_pow_pos _)
  · omega

private theorem roundTo_two_pow : roundTo p (2 ^ p) = 2 ^ p := by
  have hlead : 2 ^ p = 2 ^ (p - 1) * 2 ^ 1 + 0 := by
    rw [← Nat.pow_add, Nat.sub_add_cancel hp, Nat.add_zero]
  have hlt : 2 ^ (p - 1) < 2 ^ p := Nat.pow_lt_pow_right (by decide) (Nat.sub_lt hp (by decide))
  have hround := roundTo_mul_add hp (Nat.le_refl _) hlt (Nat.two_pow_pos 1)
  rw [hlead, hround, if_pos (Or.inl (by decide)), Nat.add_zero]

theorem roundTo_bounds {n : ℕ} (hn : n ≠ 0) :
    2 ^ n.log2 ≤ roundTo p n ∧ roundTo p n ≤ 2 ^ (n.log2 + 1) := by
  rcases Nat.lt_or_ge n (2 ^ p) with hlt | hge
  · rw [roundTo_of_lt hp hlt]
    exact ⟨Nat.log2_self_le hn, Nat.le_of_lt Nat.lt_log2_self⟩
  · obtain ⟨q, e, r, rfl, hq, hq', hr, -⟩ := exists_leading hp hge
    have hdropped := dropped_mul_add hp hq hq' hr
    have hle : p ≤ (q * 2 ^ e + r).log2 := (Nat.le_log2 hn).mpr hge
    have hlog : (q * 2 ^ e + r).log2 = p - 1 + e := by
      unfold dropped at hdropped
      omega
    rw [hlog, roundTo_mul_add hp hq hq' hr]
    constructor
    · rw [Nat.pow_add]
      apply Nat.mul_le_mul_right
      split
      · exact hq
      · exact Nat.le_succ_of_le hq
    · have hexp : p - 1 + e + 1 = p + e := by omega
      rw [hexp, Nat.pow_add]
      apply Nat.mul_le_mul_right
      split
      · exact Nat.le_of_lt hq'
      · exact hq'

private theorem roundTo_mono {n m : ℕ} (h : n ≤ m) : roundTo p n ≤ roundTo p m := by
  rcases Nat.eq_zero_or_pos n with rfl | hpos
  · rw [roundTo_of_lt hp (Nat.two_pow_pos p)]
    exact Nat.zero_le _
  have hn : n ≠ 0 := Nat.ne_of_gt hpos
  have hm : m ≠ 0 := Nat.ne_of_gt (Nat.lt_of_lt_of_le hpos h)
  have hlog : n.log2 ≤ m.log2 := (Nat.le_log2 hm).mpr ((Nat.log2_self_le hn).trans h)
  rcases Nat.lt_or_eq_of_le hlog with hlt | heq
  · calc roundTo p n ≤ 2 ^ (n.log2 + 1) := (roundTo_bounds hp hn).2
      _ ≤ 2 ^ m.log2 := Nat.pow_le_pow_right (by decide) hlt
      _ ≤ roundTo p m := (roundTo_bounds hp hm).1
  · have hsame : dropped p n = dropped p m := by rw [dropped, dropped, heq]
    rw [roundTo, roundTo, hsame]
    exact Nat.mul_le_mul_right _ (roundDiv_mono h)

theorem roundTo_add_one {q e : ℕ} (hq : 2 ^ (p - 1) ≤ q) (hq' : q < 2 ^ p) (he : 1 ≤ e) :
    roundTo p (q * 2 ^ e + 1) = if e = 1 ∧ q % 2 = 1 then (q + 1) * 2 ^ e else q * 2 ^ e := by
  have hone : 1 < 2 ^ e := Nat.one_lt_two_pow (by omega)
  rw [roundTo_mul_add hp hq hq' hone]
  rcases Nat.lt_or_eq_of_le he with hmore | rfl
  · have htwo : 2 * 1 < 2 ^ e := by
      calc 2 * 1 < 2 ^ 2 := by decide
        _ ≤ 2 ^ e := Nat.pow_le_pow_right (by decide) hmore
    rw [if_pos (Or.inl htwo), if_neg (by omega)]
  · rcases Nat.mod_two_eq_zero_or_one q with heven | hodd
    · rw [if_pos (Or.inr ⟨rfl, heven⟩), if_neg (by omega)]
    · rw [if_neg (by omega), if_pos ⟨rfl, hodd⟩]

theorem roundTo_stays {q e : ℕ} (hq : 2 ^ (p - 1) ≤ q) (hq' : q ≤ 2 ^ p) (he : 1 ≤ e)
    (hodd : ¬ (e = 1 ∧ q % 2 = 1)) : roundTo p (q * 2 ^ e + 1) = q * 2 ^ e := by
  rcases Nat.lt_or_eq_of_le hq' with hlt | rfl
  · rw [roundTo_add_one hp hq hlt he, if_neg hodd]
  · have hlt : 2 ^ (p - 1) < 2 ^ p := Nat.pow_lt_pow_right (by decide) (Nat.sub_lt hp (by decide))
    have hlead : 2 ^ p * 2 ^ e = 2 ^ (p - 1) * 2 ^ (e + 1) := by
      rw [← Nat.pow_add, ← Nat.pow_add]
      congr 1
      omega
    rw [hlead, roundTo_add_one hp (Nat.le_refl _) hlt (by omega), if_neg (by omega)]

end Rounding

/-- The numbers from which adding one goes on: between `2 ^ p` and `2 ^ (p + 1)`, and twice an odd
number. -/
def TiesUp (p n : ℕ) : Prop := 2 ^ p < n ∧ n < 2 ^ (p + 1) ∧ n % 4 = 2

instance (p n : ℕ) : Decidable (TiesUp p n) :=
  inferInstanceAs (Decidable (2 ^ p < n ∧ n < 2 ^ (p + 1) ∧ n % 4 = 2))

/-- Such a number is exact, no other one rounds to it, and adding one leads to one that stays. -/
theorem roundTo_of_tiesUp {p x : ℕ} (hp : 0 < p) (h : TiesUp p x) :
    roundTo p x = x ∧ roundTo p (x + 1) = x + 2 ∧ roundTo p (x + 2 + 1) = x + 2 ∧
      roundTo p (x - 1) = x - 2 := by
  obtain ⟨hlow, hhigh, hmod⟩ := h
  have hhalf : 2 ^ p = 2 ^ (p - 1) * 2 := by
    rw [← Nat.pow_succ, Nat.succ_eq_add_one, Nat.sub_add_cancel hp]
  have htwice : 2 ^ (p + 1) = 2 ^ p * 2 := Nat.pow_succ ..
  have hx : x = x / 2 * 2 ^ 1 := by omega
  have hq : 2 ^ (p - 1) ≤ x / 2 := by omega
  have hq' : x / 2 < 2 ^ p := by omega
  refine ⟨?_, ?_, ?_, ?_⟩
  · have hround := roundTo_mul_add hp hq hq' (Nat.two_pow_pos 1)
    rw [if_pos (Or.inl (by decide)), Nat.add_zero, ← hx] at hround
    exact hround
  · have hround := roundTo_add_one hp hq hq' (Nat.le_refl 1)
    rw [if_pos ⟨rfl, by omega⟩, ← hx] at hround
    omega
  · have hround := roundTo_stays hp (Nat.le_succ_of_le hq) hq' (Nat.le_refl 1) (by omega)
    have hnext : x + 2 = (x / 2 + 1) * 2 ^ 1 := by omega
    rw [hnext]
    exact hround
  · have hq₁ : 2 ^ (p - 1) ≤ x / 2 - 1 := by omega
    have hround := roundTo_stays hp hq₁ (by omega) (Nat.le_refl 1) (by omega)
    have hbelow : x - 1 = (x / 2 - 1) * 2 ^ 1 + 1 := by omega
    rw [hbelow, hround]
    omega

/-- A rounded number from `2 ^ p` on stays where it is when one is added, but for those exact ones
that tie up. -/
private theorem roundTo_add_one_cases {p x : ℕ} (hp : 2 ≤ p) (hx : 2 ^ p ≤ x) :
    roundTo p (roundTo p x + 1) = roundTo p x ∨ TiesUp p x := by
  have hpos : 0 < p := by omega
  obtain ⟨q, e, r, rfl, hq, hq', hr, he⟩ := exists_leading hpos hx
  rw [roundTo_mul_add hpos hq hq' hr]
  by_cases hup : 2 * r < 2 ^ e ∨ (2 * r = 2 ^ e ∧ q % 2 = 0)
  · rw [if_pos hup]
    by_cases hodd : e = 1 ∧ q % 2 = 1
    · obtain ⟨rfl, hodd⟩ := hodd
      have hhalf : 2 ^ p = 2 ^ (p - 2) * 2 * 2 := by
        rw [← Nat.pow_succ, ← Nat.pow_succ]
        congr 1
        omega
      have hhalf' : 2 ^ p = 2 ^ (p - 1) * 2 := by
        rw [← Nat.pow_succ, Nat.succ_eq_add_one, Nat.sub_add_cancel hpos]
      have htwice : 2 ^ (p + 1) = 2 ^ p * 2 := Nat.pow_succ ..
      exact Or.inr ⟨by omega, by omega, by omega⟩
    · exact Or.inl (roundTo_stays hpos hq (Nat.le_of_lt hq') he hodd)
  · rw [if_neg hup]
    refine Or.inl (roundTo_stays hpos (Nat.le_succ_of_le hq) hq' he ?_)
    rintro ⟨rfl, hodd⟩
    exact hup (by omega)

/-- A floating-point format, as far as natural numbers go: the significant bits and the exponent
that is infinity. -/
structure Format where
  p : ℕ
  emax : ℕ
  two_le : 2 ≤ p
  lt_emax : p + 1 < emax

def binary64 : Format := ⟨53, 1024, by decide, by decide⟩

namespace Format

variable (F : Format)

/-- The number the format has for `n`. -/
def round (n : ℕ) : ℕ∞ :=
  if roundTo F.p n < 2 ^ F.emax then (roundTo F.p n : ℕ) else ⊤

/-- `i + 1` -/
def addOne : ℕ∞ → ℕ∞
  | ⊤ => ⊤
  | (n : ℕ) => F.round (n + 1)

theorem pos : 0 < F.p := Nat.lt_of_lt_of_le (by decide) F.two_le

theorem round_of_roundTo {n m : ℕ} (h : roundTo F.p n = m) (hm : m ≤ 2 ^ (F.p + 1)) :
    F.round n = (m : ℕ) := by
  have hlt : m < 2 ^ F.emax := Nat.lt_of_le_of_lt hm (Nat.pow_lt_pow_right (by decide) F.lt_emax)
  rw [round, h, if_pos hlt]

theorem round_of_le {n : ℕ} (h : n ≤ 2 ^ F.p) : F.round n = (n : ℕ) := by
  have hroundTo : roundTo F.p n = n := by
    rcases Nat.lt_or_eq_of_le h with hlt | rfl
    · exact roundTo_of_lt F.pos hlt
    · exact roundTo_two_pow F.pos
  exact F.round_of_roundTo hroundTo (h.trans (Nat.pow_le_pow_right (by decide) (Nat.le_succ _)))

theorem round_mono {n m : ℕ} (h : n ≤ m) : F.round n ≤ F.round m := by
  have hle := roundTo_mono F.pos h
  unfold round
  split
  · split
    · exact Nat.cast_le.mpr hle
    · exact le_top
  · rename_i hn
    rw [if_neg (by omega)]

theorem addOne_of_lt {n : ℕ} (h : n < 2 ^ F.p) : F.addOne (n : ℕ) = (n + 1 : ℕ) := F.round_of_le h

theorem addOne_round_cases {x : ℕ} (hx : 2 ^ F.p ≤ x) :
    F.addOne (F.round x) = F.round x ∨ TiesUp F.p x := by
  by_cases hover : roundTo F.p x < 2 ^ F.emax
  · have hfinite : F.round x = (roundTo F.p x : ℕ) := if_pos hover
    rcases roundTo_add_one_cases F.two_le hx with hstays | hties
    · refine Or.inl ?_
      rw [hfinite]
      change F.round (roundTo F.p x + 1) = _
      rw [round, hstays, if_pos hover]
    · exact Or.inr hties
  · have htop : F.round x = ⊤ := if_neg hover
    rw [htop]
    exact Or.inl rfl

theorem addOne_of_tiesUp {x : ℕ} (h : TiesUp F.p x) :
    F.round x = (x : ℕ) ∧ F.addOne (x : ℕ) = (x + 2 : ℕ) ∧
      F.addOne (x + 2 : ℕ) = (x + 2 : ℕ) := by
  obtain ⟨hexact, hnext, hlast, -⟩ := roundTo_of_tiesUp F.pos h
  obtain ⟨-, hlt, hmod⟩ := h
  have hle : x + 2 ≤ 2 ^ (F.p + 1) := by
    have heven : 2 ^ (F.p + 1) % 4 = 0 := by
      obtain ⟨k, hk⟩ := Nat.exists_eq_add_of_le' F.two_le
      rw [hk, Nat.pow_succ, Nat.pow_succ, Nat.pow_succ]
      omega
    omega
  exact ⟨F.round_of_roundTo hexact (by omega), F.round_of_roundTo hnext hle,
    F.round_of_roundTo hlast hle⟩

private theorem round_lt_of_tiesUp {x y : ℕ} (h : TiesUp F.p x) (hy : y < x) : F.round y <
    (x : ℕ) := by
  obtain ⟨-, -, -, hbelow⟩ := roundTo_of_tiesUp F.pos h
  obtain ⟨hlow, hlt, -⟩ := h
  calc F.round y ≤ F.round (x - 1) := F.round_mono (by omega)
    _ = (x - 2 : ℕ) := F.round_of_roundTo hbelow (by omega)
    _ < (x : ℕ) := Nat.cast_lt.mpr (by omega)

private theorem addOne_two_pow : F.addOne (2 ^ F.p : ℕ) = (2 ^ F.p : ℕ) := by
  have hexact := F.round_of_le (Nat.le_refl (2 ^ F.p))
  rcases F.addOne_round_cases (Nat.le_refl (2 ^ F.p)) with hstays | hties
  · rwa [hexact] at hstays
  · exact absurd hties.1 (Nat.lt_irrefl _)

/-! ## Loops that count -/

variable {σ : Type*} (body : σ → ℕ∞ → σ)

/-- `for (i = from; i <= to; i += 1)`, with fuel for its turns. -/
def countUp (last : ℕ∞) : ℕ → ℕ∞ → σ → Option σ
  | 0, _, _ => none
  | fuel + 1, i, s => if i ≤ last then countUp last fuel (F.addOne i) (body s i) else some s

theorem countUp_mono {last i : ℕ∞} {fuel more : ℕ} {s t : σ} (hle : fuel ≤ more)
    (h : F.countUp body last fuel i s = some t) : F.countUp body last more i s = some t := by
  induction fuel generalizing more i s with
  | zero => cases h
  | succ fuel ih =>
    obtain ⟨more, rfl⟩ := Nat.exists_eq_add_of_lt hle
    rw [countUp] at h ⊢
    split at h
    · rename_i hi
      rw [if_pos hi]
      exact ih (by omega) h
    · rename_i hi
      rw [if_neg hi]
      exact h

private theorem countUp_of_lt {y : ℕ} (hy : y < 2 ^ F.p) (count x : ℕ) (hcount : x + count = y + 1)
    (s : σ) : F.countUp body (y : ℕ) (count + 1) (x : ℕ) s =
      some ((List.range' x count).foldl (fun s (n : ℕ) => body s n) s) := by
  induction count generalizing x s with
  | zero =>
    have hover : ¬ ((x : ℕ) : ℕ∞) ≤ (y : ℕ) := by
      rw [Nat.cast_le]
      omega
    rw [countUp, if_neg hover]
    rfl
  | succ count ih =>
    have hin : ((x : ℕ) : ℕ∞) ≤ (y : ℕ) := Nat.cast_le.mpr (by omega)
    rw [countUp, if_pos hin, F.addOne_of_lt (by omega), ih (x + 1) (by omega), List.range'_succ,
      List.foldl_cons]

theorem countUp_eq_none_of_stays {last i : ℕ∞} (hi : i ≤ last) (hstays : F.addOne i = i)
    (fuel : ℕ) (s : σ) : F.countUp body last fuel i s = none := by
  induction fuel generalizing s with
  | zero => rfl
  | succ fuel ih => rw [countUp, if_pos hi, hstays, ih]

/-- A loop that has to pass `2 ^ p` does not get past it. -/
private theorem countUp_eq_none_of_le {last : ℕ∞} (hlast : (2 ^ F.p : ℕ) ≤ last) {x : ℕ}
    (hx : x ≤ 2 ^ F.p) (fuel : ℕ) (s : σ) : F.countUp body last fuel (x : ℕ) s = none := by
  induction fuel generalizing x s with
  | zero => rfl
  | succ fuel ih =>
    rcases Nat.lt_or_eq_of_le hx with hlt | rfl
    · have hin : ((x : ℕ) : ℕ∞) ≤ last := (Nat.cast_le.mpr hx).trans hlast
      rw [countUp, if_pos hin, F.addOne_of_lt hlt]
      exact ih hlt _
    · exact F.countUp_eq_none_of_stays body hlast F.addOne_two_pow _ s

/-- The ranges a loop gets to the end of. -/
def Counts (x y : ℕ) : Prop := y < 2 ^ F.p ∨ (x = y ∧ TiesUp F.p x)

theorem countUp_of_counts {x y : ℕ} (hxy : x ≤ y) (h : F.Counts x y) (s : σ) :
    ∃ fuel, F.countUp body (F.round y) fuel (F.round x) s =
      some ((List.range' x (y + 1 - x)).foldl (fun s (n : ℕ) => body s n) s) := by
  rcases h with hy | ⟨rfl, hties⟩
  · refine ⟨y + 1 - x + 1, ?_⟩
    rw [F.round_of_le (Nat.le_of_lt hy), F.round_of_le (by omega)]
    exact F.countUp_of_lt body hy (y + 1 - x) x (by omega) s
  · refine ⟨2, ?_⟩
    obtain ⟨hexact, hnext, -⟩ := F.addOne_of_tiesUp hties
    have hover : ¬ ((x + 2 : ℕ) : ℕ∞) ≤ (x : ℕ) := by
      rw [Nat.cast_le]
      omega
    have hone : x + 1 - x = 1 := by omega
    rw [hexact, countUp, if_pos (le_refl _), hnext, countUp, if_neg hover, hone]
    rfl

theorem countUp_eq_none {x y : ℕ} (hxy : F.round x ≤ F.round y)
    (h : ¬ (x ≤ y ∧ F.Counts x y)) (fuel : ℕ) (s : σ) :
    F.countUp body (F.round y) fuel (F.round x) s = none := by
  have hy : 2 ^ F.p ≤ y := by
    by_contra hlt
    rw [F.round_of_le (by omega : y ≤ 2 ^ F.p)] at hxy
    rcases Nat.lt_or_ge (2 ^ F.p) x with hover | hle
    · have hlast := F.round_mono (Nat.le_of_lt hover)
      rw [F.round_of_le (Nat.le_refl _)] at hlast
      exact hlt (Nat.cast_le.mp (hlast.trans hxy))
    · rw [F.round_of_le hle, Nat.cast_le] at hxy
      exact h ⟨hxy, Or.inl (by omega)⟩
  have hlast : ((2 ^ F.p : ℕ) : ℕ∞) ≤ F.round y := by
    rw [← F.round_of_le (Nat.le_refl _)]
    exact F.round_mono hy
  rcases Nat.lt_or_ge (2 ^ F.p) x with hover | hle
  · rcases F.addOne_round_cases (Nat.le_of_lt hover) with hstays | hties
    · exact F.countUp_eq_none_of_stays body hxy hstays fuel s
    · obtain ⟨hexact, hnext, hstays⟩ := F.addOne_of_tiesUp hties
      rcases Nat.lt_trichotomy x y with hless | heq | hmore
      · have htarget : ((x + 2 : ℕ) : ℕ∞) ≤ F.round y := by
          rw [← hnext]
          exact F.round_mono hless
        cases fuel with
        | zero => rfl
        | succ fuel =>
          rw [countUp, if_pos hxy, hexact, hnext]
          exact F.countUp_eq_none_of_stays body htarget hstays fuel _
      · exact absurd ⟨Nat.le_of_eq heq, Or.inr ⟨heq, hties⟩⟩ h
      · have hbelow := F.round_lt_of_tiesUp hties hmore
        rw [hexact] at hxy
        exact absurd hxy (not_le.mpr hbelow)
  · rw [F.round_of_le hle]
    exact F.countUp_eq_none_of_le body hlast hle fuel s

end Format

end Geofence.Framework.FloatNat
