import Mathlib.Algebra.Order.Field.Basic
import Mathlib.Algebra.Ring.Parity
import Mathlib.Tactic.Linarith
import Mathlib.Tactic.Ring
/-!
# Even-odd containment in a closed ring

A ring is the list of its vertices, the first repeated at the end. A point is inside when a
ray to its right crosses an odd number of edges. Along any path the number of edges crossing
a horizontal line has the parity of the change of side between its ends, so a closed ring
crosses it evenly, and neither the inside nor the boundary leaves a box around the vertices.
-/

namespace Geofence.Framework

structure Point (K : Type*) where
  x : K
  y : K
  deriving DecidableEq

namespace Ring

variable {K : Type*}

def edges (ring : List (Point K)) : List (Point K × Point K) :=
  ring.zip ring.tail

theorem mem_of_mem_edges {ring : List (Point K)} {e : Point K × Point K}
    (he : e ∈ edges ring) : e.1 ∈ ring ∧ e.2 ∈ ring := by
  obtain ⟨a, b⟩ := e
  have h := List.of_mem_zip he
  exact ⟨h.1, List.mem_of_mem_tail h.2⟩

private theorem edges_cons_cons (a b : Point K) (ring : List (Point K)) :
    edges (a :: b :: ring) = (a, b) :: edges (b :: ring) := rfl

variable [Field K] [LinearOrder K]

/-- `p` lies on the closed segment from `a` to `b`. -/
def onSegment (p a b : Point K) : Prop :=
  (b.x - a.x) * (p.y - a.y) = (p.x - a.x) * (b.y - a.y) ∧
    min a.x b.x ≤ p.x ∧ p.x ≤ max a.x b.x ∧ min a.y b.y ≤ p.y ∧ p.y ≤ max a.y b.y

/-- The edge has its ends on different sides of the horizontal line at `y`; a vertex on the
line counts as below it. -/
def straddles (y : K) (a b : Point K) : Bool :=
  decide (y < a.y) != decide (y < b.y)

/-- The ray from `p` to the right crosses the edge. -/
def crosses (p a b : Point K) : Bool :=
  straddles p.y a b && decide (p.x < a.x + (p.y - a.y) / (b.y - a.y) * (b.x - a.x))

def crossings (p : Point K) (ring : List (Point K)) : Nat :=
  (edges ring).countP fun e => crosses p e.1 e.2

def OnRing (p : Point K) (ring : List (Point K)) : Prop :=
  ∃ e ∈ edges ring, onSegment p e.1 e.2

def Inside (p : Point K) (ring : List (Point K)) : Prop :=
  Odd (crossings p ring)

instance (p a b : Point K) : Decidable (onSegment p a b) :=
  inferInstanceAs (Decidable (_ ∧ _))

instance (p : Point K) (ring : List (Point K)) : Decidable (OnRing p ring) :=
  inferInstanceAs (Decidable (∃ e ∈ edges ring, _))

instance (p : Point K) (ring : List (Point K)) : Decidable (Inside p ring) :=
  inferInstanceAs (Decidable (Odd _))

/-- Every vertex of the ring lies in the box. -/
structure Bounds (ring : List (Point K)) (minX minY maxX maxY : K) : Prop where
  left : ∀ v ∈ ring, minX ≤ v.x
  bottom : ∀ v ∈ ring, minY ≤ v.y
  right : ∀ v ∈ ring, v.x ≤ maxX
  top : ∀ v ∈ ring, v.y ≤ maxY

omit [Field K] in
/-- Along a path the straddling edges change side once each. -/
theorem odd_straddles_iff (y : K) (a : Point K) (path : List (Point K)) :
    Odd ((edges (a :: path)).countP fun e => straddles y e.1 e.2) ↔
      ¬(y < a.y ↔ y < (path.getLastD a).y) := by
  induction path generalizing a with
  | nil => simp [edges]
  | cons b path ih =>
    rw [edges_cons_cons, List.countP_cons, List.getLastD_cons]
    have hb := ih b
    by_cases hs : straddles y a b = true
    · have hab : ¬(y < a.y ↔ y < b.y) := by simpa [straddles] using hs
      rw [if_pos hs, Nat.odd_add_one, hb]
      tauto
    · have hab : y < a.y ↔ y < b.y := by simpa [straddles] using hs
      rw [if_neg hs, Nat.add_zero, hb, hab]

omit [Field K] in
private theorem even_straddles_of_closed (y : K) {ring : List (Point K)}
    (hclosed : ring.head? = ring.getLast?) :
    Even ((edges ring).countP fun e => straddles y e.1 e.2) := by
  cases ring with
  | nil => simp [edges]
  | cons a path =>
    rw [← Nat.not_odd_iff_even, odd_straddles_iff]
    rw [List.head?_cons, List.getLast?_cons, Option.some.injEq,
      ← List.getLastD_eq_getLast?] at hclosed
    rw [← hclosed]
    simp

variable [IsStrictOrderedRing K]

private theorem straddle_ratio {y : K} {a b : Point K} (h : straddles y a b = true) :
    0 ≤ (y - a.y) / (b.y - a.y) ∧ (y - a.y) / (b.y - a.y) ≤ 1 := by
  simp only [straddles, bne_iff_ne, ne_eq, decide_eq_decide] at h
  by_cases ha : y < a.y
  · have hb : b.y ≤ y := by
      by_contra hb
      exact h ⟨fun _ => lt_of_not_ge hb, fun _ => ha⟩
    have hd : b.y - a.y < 0 := by linarith
    exact ⟨div_nonneg_of_nonpos (by linarith) hd.le, (div_le_one_of_neg hd).mpr (by linarith)⟩
  · have hb : y < b.y := by
      by_contra hb
      exact h ⟨fun h' => absurd h' ha, fun h' => absurd h' hb⟩
    have hd : 0 < b.y - a.y := by linarith
    exact ⟨div_nonneg (by linarith) hd.le, (div_le_one hd).mpr (by linarith)⟩

private theorem le_between {lo s u v : K} (hs : 0 ≤ s) (hs' : s ≤ 1) (hu : lo ≤ u) (hv : lo ≤ v) :
    lo ≤ u + s * (v - u) := by
  have h₁ : 0 ≤ (1 - s) * (u - lo) := mul_nonneg (by linarith) (by linarith)
  have h₂ : 0 ≤ s * (v - lo) := mul_nonneg hs (by linarith)
  linarith [show u + s * (v - u) - lo = (1 - s) * (u - lo) + s * (v - lo) by ring]

private theorem between_le {hi s u v : K} (hs : 0 ≤ s) (hs' : s ≤ 1) (hu : u ≤ hi) (hv : v ≤ hi) :
    u + s * (v - u) ≤ hi := by
  have h₁ : 0 ≤ (1 - s) * (hi - u) := mul_nonneg (by linarith) (by linarith)
  have h₂ : 0 ≤ s * (hi - v) := mul_nonneg hs (by linarith)
  linarith [show hi - (u + s * (v - u)) = (1 - s) * (hi - u) + s * (hi - v) by ring]

section Box

variable {ring : List (Point K)} {minX minY maxX maxY : K} {p : Point K}

private theorem crossings_left (hbox : Bounds ring minX minY maxX maxY) (hp : p.x < minX) :
    crossings p ring = (edges ring).countP fun e => straddles p.y e.1 e.2 := by
  apply List.countP_congr
  intro e he
  obtain ⟨h₁, h₂⟩ := mem_of_mem_edges he
  simp only [crosses, Bool.and_eq_true, decide_eq_true_eq, and_iff_left_iff_imp]
  intro hs
  obtain ⟨h0, h1⟩ := straddle_ratio hs
  exact lt_of_lt_of_le hp (le_between h0 h1 (hbox.left _ h₁) (hbox.left _ h₂))

private theorem crossings_right (hbox : Bounds ring minX minY maxX maxY) (hp : maxX < p.x) :
    crossings p ring = 0 := by
  apply List.countP_eq_zero.mpr
  intro e he hc
  obtain ⟨h₁, h₂⟩ := mem_of_mem_edges he
  simp only [crosses, Bool.and_eq_true, decide_eq_true_eq] at hc
  obtain ⟨h0, h1⟩ := straddle_ratio hc.1
  have := between_le h0 h1 (hbox.right _ h₁) (hbox.right _ h₂)
  linarith [hc.2]

theorem crossings_off_rows (hbox : Bounds ring minX minY maxX maxY)
    (hp : p.y < minY ∨ maxY < p.y) : crossings p ring = 0 := by
  apply List.countP_eq_zero.mpr
  intro e he hc
  obtain ⟨h₁, h₂⟩ := mem_of_mem_edges he
  simp only [crosses, straddles, Bool.and_eq_true, bne_iff_ne, ne_eq, decide_eq_decide] at hc
  rcases hp with hp | hp
  · have ha := hbox.bottom _ h₁
    have hb := hbox.bottom _ h₂
    exact hc.1 ⟨fun _ => by linarith, fun _ => by linarith⟩
  · have ha := hbox.top _ h₁
    have hb := hbox.top _ h₂
    exact hc.1 ⟨fun h => by linarith, fun h => by linarith⟩

theorem mem_box_of_inside (hclosed : ring.head? = ring.getLast?)
    (hbox : Bounds ring minX minY maxX maxY) (hp : Inside p ring) :
    (minX ≤ p.x ∧ p.x ≤ maxX) ∧ minY ≤ p.y ∧ p.y ≤ maxY := by
  unfold Inside at hp
  refine ⟨⟨?_, ?_⟩, ?_, ?_⟩ <;> by_contra h <;> rw [not_le] at h
  · rw [crossings_left hbox h, ← Nat.not_even_iff_odd] at hp
    exact hp (even_straddles_of_closed p.y hclosed)
  · simp [crossings_right hbox h] at hp
  · simp [crossings_off_rows hbox (Or.inl h)] at hp
  · simp [crossings_off_rows hbox (Or.inr h)] at hp

omit [IsStrictOrderedRing K] in
theorem mem_box_of_onRing (hbox : Bounds ring minX minY maxX maxY) (hp : OnRing p ring) :
    (minX ≤ p.x ∧ p.x ≤ maxX) ∧ minY ≤ p.y ∧ p.y ≤ maxY := by
  obtain ⟨e, he, -, hx, hx', hy, hy'⟩ := hp
  obtain ⟨h₁, h₂⟩ := mem_of_mem_edges he
  refine ⟨⟨le_trans (le_min ?_ ?_) hx, le_trans hx' (max_le ?_ ?_)⟩,
    le_trans (le_min ?_ ?_) hy, le_trans hy' (max_le ?_ ?_)⟩
  · exact hbox.left _ h₁
  · exact hbox.left _ h₂
  · exact hbox.right _ h₁
  · exact hbox.right _ h₂
  · exact hbox.bottom _ h₁
  · exact hbox.bottom _ h₂
  · exact hbox.top _ h₁
  · exact hbox.top _ h₂

end Box

end Ring

end Geofence.Framework
