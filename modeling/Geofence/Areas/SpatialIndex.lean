import Geofence.Framework.Ring
import Mathlib.Algebra.Order.Field.Rat
import Mathlib.Data.List.Perm.Basic
import Mathlib.Order.WithBot
/-!
# The in-memory spatial index

`AreaSpatialIndex` answers a point query in two stages: an R-tree search over bounding boxes,
then an exact containment test. The box of an area is built from its outer ring alone. The
R-tree and the containment test are library code, taken here as parameters that carry the
behaviour the index relies on.
-/

namespace Geofence

open Framework Framework.Ring

abbrev AreaId := String
abbrev Position := Point ℚ

/-- A GeoJSON linear ring: at least four positions, the last one repeating the first. -/
structure LinearRing where
  positions : List Position
  four_le : 4 ≤ positions.length
  closed : positions.head? = positions.getLast?
  deriving DecidableEq

/-- `coordinates[0]` is the outer ring, the remaining rings are holes. -/
structure Polygon where
  outer : LinearRing
  holes : List LinearRing
  deriving DecidableEq

namespace Polygon

/-- The boundary line counts as inside: on some ring, or inside the outer ring and no hole. -/
def Covers (boundary : Polygon) (p : Position) : Prop :=
  (∃ ring ∈ boundary.outer :: boundary.holes, OnRing p ring.positions) ∨
    Inside p boundary.outer.positions ∧ ∀ hole ∈ boundary.holes, ¬Inside p hole.positions

instance (boundary : Polygon) (p : Position) : Decidable (boundary.Covers p) :=
  inferInstanceAs (Decidable (_ ∨ _))

/-- Every hole's ring runs within the closed region of the outer ring. -/
def HolesInside (boundary : Polygon) : Prop :=
  ∀ hole ∈ boundary.holes, ∀ p, OnRing p hole.positions →
    OnRing p boundary.outer.positions ∨ Inside p boundary.outer.positions

end Polygon

/-- A 10×10 square with a 2×2 hole at its centre. -/
def squareWithHole : Polygon where
  outer := ⟨[⟨0, 0⟩, ⟨10, 0⟩, ⟨10, 10⟩, ⟨0, 10⟩, ⟨0, 0⟩], by decide, by decide +kernel⟩
  holes := [⟨[⟨4, 4⟩, ⟨6, 4⟩, ⟨6, 6⟩, ⟨4, 6⟩, ⟨4, 4⟩], by decide, by decide +kernel⟩]

structure AreaGeometryRow where
  id : AreaId
  boundary : Polygon
  deriving DecidableEq

/-- A coordinate bound: a number, `Infinity` or `-Infinity`. -/
abbrev Bound := WithBot (WithTop ℚ)

def Bound.ofRat (q : ℚ) : Bound := ((q : WithTop ℚ) : WithBot (WithTop ℚ))

structure Box where
  minX : Bound
  minY : Bound
  maxX : Bound
  maxY : Bound
  deriving DecidableEq

structure IndexedArea extends Box where
  id : AreaId
  boundary : Polygon

/-- One iteration of the loop over the outer ring. -/
def Box.grow (box : Box) (pos : Position) : Box where
  minX := if Bound.ofRat pos.x < box.minX then Bound.ofRat pos.x else box.minX
  maxX := if box.maxX < Bound.ofRat pos.x then Bound.ofRat pos.x else box.maxX
  minY := if Bound.ofRat pos.y < box.minY then Bound.ofRat pos.y else box.minY
  maxY := if box.maxY < Bound.ofRat pos.y then Bound.ofRat pos.y else box.maxY

/-- Bbox from the outer ring only. -/
def toIndexedArea (row : AreaGeometryRow) : IndexedArea :=
  { row.boundary.outer.positions.foldl Box.grow ⟨⊤, ⊤, ⊥, ⊥⟩ with
    id := row.id
    boundary := row.boundary }

/-- The R-tree's overlap test of two boxes, borders included. -/
def Box.intersects (a b : Box) : Bool :=
  decide (b.minX ≤ a.maxX) && decide (b.minY ≤ a.maxY) &&
    decide (a.minX ≤ b.maxX) && decide (a.minY ≤ b.maxY)

/-- The R-tree: `search` returns exactly the loaded entries whose box meets the query box. -/
structure RBush where
  search : List IndexedArea → Box → List IndexedArea
  search_perm : ∀ entries query,
    (search entries query).Perm (entries.filter fun entry => query.intersects entry.toBox)

/-- The containment test with `ignoreBoundary: false`, specified on polygons whose holes lie
in their outer ring. -/
structure Turf where
  booleanPointInPolygon : Position → Polygon → Bool
  booleanPointInPolygon_iff : ∀ p boundary, boundary.HolesInside →
    (booleanPointInPolygon p boundary = true ↔ boundary.Covers p)

structure SpatialLibrary where
  rbush : RBush
  turf : Turf

/-- A reference implementation of both libraries: a linear search and the exact predicate. -/
def SpatialLibrary.reference : SpatialLibrary where
  rbush :=
    { search := fun entries query => entries.filter fun entry => query.intersects entry.toBox
      search_perm := fun _ _ => .refl _ }
  turf :=
    { booleanPointInPolygon := fun p boundary => decide (boundary.Covers p)
      booleanPointInPolygon_iff := fun _ _ _ => decide_eq_true_iff }

structure AreaSpatialIndex where
  tree : List IndexedArea
  areaCount : Nat

namespace AreaSpatialIndex

def ofRows (rows : List AreaGeometryRow) : AreaSpatialIndex where
  tree := rows.map toIndexedArea
  areaCount := rows.length

def findCoveringAreaIds (lib : SpatialLibrary) (index : AreaSpatialIndex) (lng lat : ℚ) :
    List AreaId :=
  ((lib.rbush.search index.tree
      ⟨Bound.ofRat lng, Bound.ofRat lat, Bound.ofRat lng, Bound.ofRat lat⟩).filter fun entry =>
    lib.turf.booleanPointInPolygon ⟨lng, lat⟩ entry.boundary).map (·.id)

end AreaSpatialIndex

@[simp] theorem Bound.ofRat_le {p q : ℚ} : Bound.ofRat p ≤ Bound.ofRat q ↔ p ≤ q := by
  simp [Bound.ofRat]

@[simp] theorem Bound.ofRat_lt {p q : ℚ} : Bound.ofRat p < Bound.ofRat q ↔ p < q := by
  simp [Bound.ofRat]

private theorem Bound.ofRat_lt_top (q : ℚ) : Bound.ofRat q < ⊤ :=
  WithBot.coe_lt_coe.mpr (WithTop.coe_lt_top q)

private theorem Bound.bot_lt_ofRat (q : ℚ) : ⊥ < Bound.ofRat q :=
  WithBot.bot_lt_coe _

private def Box.ofRats (minX minY maxX maxY : ℚ) : Box :=
  ⟨Bound.ofRat minX, Bound.ofRat minY, Bound.ofRat maxX, Bound.ofRat maxY⟩

private theorem grow_ofRats (a b c d : ℚ) (pos : Position) :
    (Box.ofRats a b c d).grow pos =
      Box.ofRats (min pos.x a) (min pos.y b) (max c pos.x) (max d pos.y) := by
  simp only [Box.grow, Box.ofRats, Bound.ofRat_lt, Box.mk.injEq]
  refine ⟨?_, ?_, ?_, ?_⟩
  · by_cases h : pos.x < a
    · rw [if_pos h, min_eq_left h.le]
    · rw [if_neg h, min_eq_right (not_lt.mp h)]
  · by_cases h : pos.y < b
    · rw [if_pos h, min_eq_left h.le]
    · rw [if_neg h, min_eq_right (not_lt.mp h)]
  · by_cases h : c < pos.x
    · rw [if_pos h, max_eq_right h.le]
    · rw [if_neg h, max_eq_left (not_lt.mp h)]
  · by_cases h : d < pos.y
    · rw [if_pos h, max_eq_right h.le]
    · rw [if_neg h, max_eq_left (not_lt.mp h)]

private theorem foldl_grow_bounds (positions : List Position) (a b c d : ℚ) :
    ∃ a' b' c' d', positions.foldl Box.grow (Box.ofRats a b c d) = Box.ofRats a' b' c' d' ∧
      Bounds positions a' b' c' d' ∧ a' ≤ a ∧ b' ≤ b ∧ c ≤ c' ∧ d ≤ d' := by
  induction positions generalizing a b c d with
  | nil => exact ⟨a, b, c, d, rfl, ⟨by simp, by simp, by simp, by simp⟩, le_rfl, le_rfl, le_rfl, le_rfl⟩
  | cons v vs ih =>
    rw [List.foldl_cons, grow_ofRats]
    obtain ⟨a', b', c', d', hfold, hvs, ha, hb, hc, hd⟩ :=
      ih (min v.x a) (min v.y b) (max c v.x) (max d v.y)
    refine ⟨a', b', c', d', hfold, ⟨?_, ?_, ?_, ?_⟩, ha.trans (min_le_right _ _),
      hb.trans (min_le_right _ _), (le_max_left _ _).trans hc, (le_max_left _ _).trans hd⟩
    · exact List.forall_mem_cons.mpr ⟨ha.trans (min_le_left _ _), hvs.left⟩
    · exact List.forall_mem_cons.mpr ⟨hb.trans (min_le_left _ _), hvs.bottom⟩
    · exact List.forall_mem_cons.mpr ⟨(le_max_right _ _).trans hc, hvs.right⟩
    · exact List.forall_mem_cons.mpr ⟨(le_max_right _ _).trans hd, hvs.top⟩

private theorem toIndexedArea_bounds (row : AreaGeometryRow) :
    ∃ a b c d : ℚ, (toIndexedArea row).toBox =
        ⟨Bound.ofRat a, Bound.ofRat b, Bound.ofRat c, Bound.ofRat d⟩ ∧
      Bounds row.boundary.outer.positions a b c d := by
  have hlen := row.boundary.outer.four_le
  change ∃ a b c d : ℚ, row.boundary.outer.positions.foldl Box.grow ⟨⊤, ⊤, ⊥, ⊥⟩ = _ ∧ _
  cases hp : row.boundary.outer.positions with
  | nil => simp [hp] at hlen
  | cons v vs =>
    have hfirst : Box.grow ⟨⊤, ⊤, ⊥, ⊥⟩ v = Box.ofRats v.x v.y v.x v.y := by
      simp [Box.grow, Box.ofRats, Bound.ofRat_lt_top, Bound.bot_lt_ofRat]
    obtain ⟨a, b, c, d, hfold, hvs, ha, hb, hc, hd⟩ := foldl_grow_bounds vs v.x v.y v.x v.y
    refine ⟨a, b, c, d, ?_, ⟨?_, ?_, ?_, ?_⟩⟩
    · rw [List.foldl_cons, hfirst, hfold]
      rfl
    · exact List.forall_mem_cons.mpr ⟨ha, hvs.left⟩
    · exact List.forall_mem_cons.mpr ⟨hb, hvs.bottom⟩
    · exact List.forall_mem_cons.mpr ⟨hc, hvs.right⟩
    · exact List.forall_mem_cons.mpr ⟨hd, hvs.top⟩

private theorem Polygon.Covers.onRing_or_inside {boundary : Polygon} {p : Position}
    (h : boundary.Covers p) (hholes : boundary.HolesInside) :
    OnRing p boundary.outer.positions ∨ Inside p boundary.outer.positions := by
  rcases h with ⟨ring, hring, hon⟩ | ⟨hin, -⟩
  · rcases List.mem_cons.mp hring with rfl | hhole
    · exact Or.inl hon
    · exact hholes ring hhole p hon
  · exact Or.inr hin

/-- The box of the outer ring never filters out a covering polygon. -/
theorem toIndexedArea_intersects (row : AreaGeometryRow) (hholes : row.boundary.HolesInside)
    (p : Position) (hp : row.boundary.Covers p) :
    Box.intersects ⟨Bound.ofRat p.x, Bound.ofRat p.y, Bound.ofRat p.x, Bound.ofRat p.y⟩
      (toIndexedArea row).toBox = true := by
  obtain ⟨a, b, c, d, hbox, hbounds⟩ := toIndexedArea_bounds row
  have hmem : (a ≤ p.x ∧ p.x ≤ c) ∧ b ≤ p.y ∧ p.y ≤ d := by
    rcases hp.onRing_or_inside hholes with hon | hin
    · exact mem_box_of_onRing hbounds hon
    · exact mem_box_of_inside row.boundary.outer.closed hbounds hin
  obtain ⟨⟨ha, hc⟩, hb, hd⟩ := hmem
  simp [Box.intersects, Bound.ofRat_le, hbox, ha, hb, hc, hd]

namespace AreaSpatialIndex

variable (lib : SpatialLibrary) (rows : List AreaGeometryRow) (lng lat : ℚ)

/-- The reference answer: scan every row with the exact test. -/
def scan (rows : List AreaGeometryRow) (lng lat : ℚ) : List AreaId :=
  (rows.filter fun row => decide (row.boundary.Covers ⟨lng, lat⟩)).map (·.id)

theorem findCoveringAreaIds_ofRows_perm :
    ((ofRows rows).findCoveringAreaIds lib lng lat).Perm
      ((rows.filter fun row =>
        Box.intersects ⟨Bound.ofRat lng, Bound.ofRat lat, Bound.ofRat lng, Bound.ofRat lat⟩
            (toIndexedArea row).toBox &&
          lib.turf.booleanPointInPolygon ⟨lng, lat⟩ row.boundary).map (·.id)) := by
  have h := (lib.rbush.search_perm (rows.map toIndexedArea)
    ⟨Bound.ofRat lng, Bound.ofRat lat, Bound.ofRat lng, Bound.ofRat lat⟩).filter
      (fun entry => lib.turf.booleanPointInPolygon ⟨lng, lat⟩ entry.boundary)
  refine (h.map (·.id)).trans (List.Perm.of_eq ?_)
  rw [List.filter_filter, List.filter_map, List.map_map]
  congr 1
  apply List.filter_congr
  intro row _
  simp only [Function.comp_apply]
  exact Bool.and_comm _ _

theorem findCoveringAreaIds_nodup (hids : (rows.map (·.id)).Nodup) :
    ((ofRows rows).findCoveringAreaIds lib lng lat).Nodup := by
  rw [(findCoveringAreaIds_ofRows_perm lib rows lng lat).nodup_iff]
  exact (List.filter_sublist.map _).nodup hids

/-- The indexed query is the full scan. -/
theorem findCoveringAreaIds_eq_scan (hids : (rows.map (·.id)).Nodup)
    (hholes : ∀ row ∈ rows, row.boundary.HolesInside) :
    ((ofRows rows).findCoveringAreaIds lib lng lat).Perm (scan rows lng lat) ∧
      ((ofRows rows).findCoveringAreaIds lib lng lat).Nodup ∧
      ∀ id, id ∈ (ofRows rows).findCoveringAreaIds lib lng lat ↔
        ∃ row ∈ rows, row.id = id ∧ row.boundary.Covers ⟨lng, lat⟩ := by
  have hscan : ((ofRows rows).findCoveringAreaIds lib lng lat).Perm (scan rows lng lat) := by
    refine (findCoveringAreaIds_ofRows_perm lib rows lng lat).trans (List.Perm.of_eq ?_)
    unfold scan
    congr 1
    apply List.filter_congr
    intro row hrow
    have hturf := lib.turf.booleanPointInPolygon_iff ⟨lng, lat⟩ row.boundary (hholes row hrow)
    by_cases hcov : row.boundary.Covers ⟨lng, lat⟩
    · have hbox := toIndexedArea_intersects row (hholes row hrow) ⟨lng, lat⟩ hcov
      simp [hcov, hbox, hturf.mpr hcov]
    · have hfalse := mt hturf.mp hcov
      simp [hcov, hfalse]
  refine ⟨hscan, findCoveringAreaIds_nodup lib rows lng lat hids, ?_⟩
  intro id
  rw [hscan.mem_iff]
  simp only [scan, List.mem_map, List.mem_filter, decide_eq_true_eq]
  constructor
  · rintro ⟨row, ⟨hrow, hcov⟩, hid⟩
    exact ⟨row, hrow, hid, hcov⟩
  · rintro ⟨row, hrow, hid, hcov⟩
    exact ⟨row, ⟨hrow, hcov⟩, hid⟩

private theorem squareWithHole_holesInside : squareWithHole.HolesInside := by
  intro hole hhole p hp
  simp only [squareWithHole, List.mem_singleton] at hhole
  subst hhole
  have hbox : Bounds [⟨4, 4⟩, ⟨6, 4⟩, ⟨6, 6⟩, ⟨4, 6⟩, ⟨4, 4⟩] (4 : ℚ) 4 6 6 := by
    constructor <;> decide +kernel
  obtain ⟨⟨hx, hx'⟩, hy, hy'⟩ := mem_box_of_onRing hbox hp
  have h₁ : ¬p.y < 0 := by linarith
  have h₂ : p.y < 10 := by linarith
  have h₃ : p.x < 10 := by linarith
  have h₄ : ¬p.x < 0 := by linarith
  right
  simp [squareWithHole, Inside, crossings, edges, crosses, straddles, h₁, h₂, h₃, h₄]

theorem squareWithHole_covering :
    "h" ∈ (ofRows [⟨"h", squareWithHole⟩]).findCoveringAreaIds .reference 4 4 ∧
      "h" ∉ (ofRows [⟨"h", squareWithHole⟩]).findCoveringAreaIds .reference 5 5 := by
  have hids : ([⟨"h", squareWithHole⟩].map AreaGeometryRow.id).Nodup := by decide
  have hholes : ∀ row ∈ [(⟨"h", squareWithHole⟩ : AreaGeometryRow)], row.boundary.HolesInside := by
    simpa using squareWithHole_holesInside
  constructor
  · apply ((findCoveringAreaIds_eq_scan .reference _ 4 4 hids hholes).2.2 "h").mpr
    exact ⟨_, List.mem_singleton_self _, rfl, by decide +kernel⟩
  · rw [(findCoveringAreaIds_eq_scan .reference _ 5 5 hids hholes).2.2 "h"]
    rintro ⟨row, hrow, -, hcov⟩
    rw [List.mem_singleton.mp hrow] at hcov
    revert hcov
    decide +kernel

end AreaSpatialIndex

end Geofence
