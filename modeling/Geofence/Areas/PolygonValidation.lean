import Geofence.Areas.SpatialIndex
/-!
# `geoJsonPolygonFailure`

The structural check of a request's `boundary`, over any value a JSON body can hold. The source
reads the first and the last position of a ring under a cast; here such a read fails if the value
is not what the cast says.
-/

namespace Geofence

open Framework

/-- A number as `typeof` sees one; `1e400` in a body is an infinity. -/
inductive JsNumber where
  | finite (value : ℚ)
  | infinite (negative : Bool)
  | nan

namespace JsNumber

/-- `===` -/
def strictEquals : JsNumber → JsNumber → Bool
  | .finite a, .finite b => a = b
  | .infinite a, .infinite b => a = b
  | _, _ => false

end JsNumber

/-- What `JSON.parse` returns. Of two members with one name the last one is kept. -/
inductive JsonValue where
  | null
  | bool (value : Bool)
  | number (value : JsNumber)
  | string (value : String)
  | array (items : List JsonValue)
  | object (members : List (String × JsonValue))

/-- A value was not what a cast says it is. -/
inductive CastFault where
  | notThere

namespace JsonValue

/-- A property of an object; an array has neither `type` nor `coordinates`. -/
def property? (name : String) : JsonValue → Option JsonValue
  | .object members => members.reverse.lookup name
  | _ => none

/-- `(value as [number, number])[i]` -/
def numberAt (value : Option JsonValue) (i : Nat) : Except CastFault JsNumber :=
  match value with
  | some (.array items) =>
    match items[i]? with
    | some (.number n) => .ok n
    | _ => .error .notThere
  | _ => .error .notThere

end JsonValue

open JsonValue

def LNG_RANGE : ℚ := 180

def LAT_RANGE : ℚ := 90

def MIN_RING_POSITIONS : Nat := 4

def MAX_POLYGON_VERTICES : Nat := 1000

section Checks

variable (numberText : ℚ → String)

/-- The body of the inner loop. -/
def positionFailure (ringIndex positionIndex : Nat) : JsonValue → Option String
  | .array [lng, lat] =>
    match lng, lat with
    | .number (.finite lng), .number (.finite lat) =>
      if LNG_RANGE < |lng| then
        some ("ring " ++ toString ringIndex ++ " position " ++ toString positionIndex ++
          ": longitude " ++ numberText lng ++
          " out of range [-180, 180] — coordinates are [lng, lat]")
      else if LAT_RANGE < |lat| then
        some ("ring " ++ toString ringIndex ++ " position " ++ toString positionIndex ++
          ": latitude " ++ numberText lat ++
          " out of range [-90, 90] — coordinates are [lng, lat]")
      else none
    | _, _ =>
      some ("ring " ++ toString ringIndex ++ " position " ++ toString positionIndex ++
        " must contain finite numbers")
  | _ =>
    some ("ring " ++ toString ringIndex ++ " position " ++ toString positionIndex ++
      " must be a [lng, lat] pair")

/-- The inner loop, from `positionIndex` on. -/
def positionsFailure (ringIndex : Nat) : Nat → List JsonValue → Option String
  | _, [] => none
  | positionIndex, position :: rest =>
    match positionFailure numberText ringIndex positionIndex position with
    | some message => some message
    | none => positionsFailure ringIndex (positionIndex + 1) rest

/-- `first[0] !== last[0] || first[1] !== last[1]` -/
def isOpen (ring : List JsonValue) : Except CastFault Bool := do
  let first := ring[0]?
  let last := ring[ring.length - 1]?
  if (← numberAt first 0).strictEquals (← numberAt last 0) then
    return !(← numberAt first 1).strictEquals (← numberAt last 1)
  else
    return true

/-- The outer loop, from `ringIndex` on, and the count after it. -/
def ringsFailure : Nat → Nat → List JsonValue → Except CastFault (Option String)
  | _, vertexCount, [] =>
    if MAX_POLYGON_VERTICES < vertexCount then
      .ok (some ("polygon has " ++ toString vertexCount ++ " vertices; the maximum is " ++
        toString MAX_POLYGON_VERTICES ++ " (closing repeats excluded)"))
    else .ok none
  | ringIndex, vertexCount, .array ring :: rings =>
    if ring.length < MIN_RING_POSITIONS then
      .ok (some ("ring " ++ toString ringIndex ++ " must be an array of at least " ++
        toString MIN_RING_POSITIONS ++
        " positions (a closed ring repeats its first position last)"))
    else
      match positionsFailure numberText ringIndex 0 ring with
      | some message => .ok (some message)
      | none => do
        if ← isOpen ring then
          return some ("ring " ++ toString ringIndex ++
            " is not closed: the last position must repeat the first")
        else
          ringsFailure (ringIndex + 1) (vertexCount + (ring.length - 1)) rings
  | ringIndex, _, _ :: _ =>
    .ok (some ("ring " ++ toString ringIndex ++ " must be an array of at least " ++
      toString MIN_RING_POSITIONS ++
      " positions (a closed ring repeats its first position last)"))

def geoJsonPolygonFailure (value : JsonValue) : Except CastFault (Option String) :=
  match value with
  | .object _ | .array _ =>
    match value.property? "type" with
    | some (.string "Polygon") =>
      match value.property? "coordinates" with
      | some (.array (ring :: rings)) => ringsFailure numberText 0 0 (ring :: rings)
      | _ => .ok (some "boundary.coordinates must be a non-empty array of linear rings")
    | _ => .ok (some "boundary.type must be 'Polygon'")
  | _ => .ok (some "boundary must be a GeoJSON Polygon object")

end Checks

/-! ## The grammar -/

/-- A pair of finite numbers in range. -/
def IsPosition (position : JsonValue) : Prop :=
  ∃ lng lat : ℚ, position = .array [.number (.finite lng), .number (.finite lat)] ∧
    |lng| ≤ LNG_RANGE ∧ |lat| ≤ LAT_RANGE

/-- At least four positions, the last one equal to the first. -/
structure IsRing (ring : List JsonValue) : Prop where
  four_le : MIN_RING_POSITIONS ≤ ring.length
  positions : ∀ position ∈ ring, IsPosition position
  closed : ring.head? = ring.getLast?

/-- The positions of a ring, less the one that closes it. -/
def vertices : JsonValue → Nat
  | .array ring => ring.length - 1
  | _ => 0

structure IsPolygonJson (value : JsonValue) (rings : List JsonValue) : Prop where
  isObject : ∃ members, value = .object members
  type : value.property? "type" = some (.string "Polygon")
  coordinates : value.property? "coordinates" = some (.array rings)
  nonempty : rings ≠ []
  each : ∀ ring ∈ rings, ∃ positions, ring = .array positions ∧ IsRing positions
  count : (rings.map vertices).sum ≤ MAX_POLYGON_VERTICES

/-! ## The checks against the grammar -/

/-- The check says `null` where the property holds, and a message everywhere else. -/
structure Reports (result : Except CastFault (Option String)) (P : Prop) : Prop where
  passes : P → result = .ok none
  fails : ¬ P → ∃ message, result = .ok (some message)

theorem Reports.of_message {message : String} {P : Prop} (h : ¬ P) :
    Reports (.ok (some message)) P :=
  ⟨fun hP => absurd hP h, fun _ => ⟨message, rfl⟩⟩

theorem Reports.congr {result : Except CastFault (Option String)} {P Q : Prop}
    (h : Reports result P) (hPQ : P ↔ Q) : Reports result Q :=
  ⟨fun hQ => h.passes (hPQ.mpr hQ), fun hQ => h.fails fun hP => hQ (hPQ.mp hP)⟩

theorem Reports.eq_none_iff {result : Except CastFault (Option String)} {P : Prop}
    (h : Reports result P) : result = .ok none ↔ P := by
  constructor
  · intro hnone
    by_contra hP
    obtain ⟨message, hmessage⟩ := h.fails hP
    rw [hnone] at hmessage
    cases hmessage
  · exact h.passes

section Proofs

variable (numberText : ℚ → String)

theorem positionFailure_eq_none_iff (ringIndex positionIndex : Nat) (position : JsonValue) :
    positionFailure numberText ringIndex positionIndex position = none ↔ IsPosition position := by
  unfold positionFailure
  split
  · rename_i lng lat
    split
    · rename_i lng lat
      constructor
      · intro h
        split at h
        · cases h
        · split at h
          · cases h
          · rename_i hlng hlat
            exact ⟨lng, lat, rfl, not_lt.mp hlng, not_lt.mp hlat⟩
      · rintro ⟨lng', lat', heq, hlng, hlat⟩
        cases heq
        rw [if_neg (not_lt.mpr hlng), if_neg (not_lt.mpr hlat)]
    · rename_i hnumbers
      constructor
      · exact fun h => nomatch h
      · rintro ⟨lng', lat', heq, -⟩
        cases heq
        exact absurd rfl (hnumbers lng' lat' rfl)
  · rename_i hpair
    constructor
    · exact fun h => nomatch h
    · rintro ⟨lng, lat, heq, -⟩
      exact absurd heq (hpair _ _)

theorem positionsFailure_eq_none_iff (ringIndex positionIndex : Nat) (ring : List JsonValue) :
    positionsFailure numberText ringIndex positionIndex ring = none ↔
      ∀ position ∈ ring, IsPosition position := by
  induction ring generalizing positionIndex with
  | nil => simp [positionsFailure]
  | cons position rest ih =>
    rw [positionsFailure, List.forall_mem_cons]
    cases h : positionFailure numberText ringIndex positionIndex position with
    | none =>
      have hposition := (positionFailure_eq_none_iff numberText _ _ _).mp h
      exact (ih (positionIndex + 1)).trans (and_iff_right hposition).symm
    | some message =>
      constructor
      · exact fun hnone => nomatch hnone
      · rintro ⟨hposition, -⟩
        rw [(positionFailure_eq_none_iff numberText _ _ _).mpr hposition] at h
        cases h

end Proofs

/-- Behind the inner loop the casts hold, and the comparison is that of the positions. -/
private theorem isOpen_eq {ring : List JsonValue} (hne : ring ≠ [])
    (hpositions : ∀ position ∈ ring, IsPosition position) :
    ∃ isOpen', isOpen ring = .ok isOpen' ∧ (isOpen' = false ↔ ring.head? = ring.getLast?) := by
  have hlength : 0 < ring.length := List.length_pos_iff.mpr hne
  have hfirst : ring[0]? = some (ring.head hne) := by
    rw [← List.head?_eq_getElem?, List.head?_eq_some_head hne]
  have hlast : ring[ring.length - 1]? = some (ring.getLast hne) := by
    rw [← List.getLast?_eq_getElem?, List.getLast?_eq_some_getLast hne]
  obtain ⟨lng, lat, hhead, -⟩ := hpositions _ (List.head_mem hne)
  obtain ⟨lng', lat', hend, -⟩ := hpositions _ (List.getLast_mem hne)
  have hclosed : ring.head? = ring.getLast? ↔ lng = lng' ∧ lat = lat' := by
    rw [List.head?_eq_some_head hne, List.getLast?_eq_some_getLast hne, hhead, hend]
    simp
  rw [hclosed]
  unfold isOpen
  rw [hfirst, hlast, hhead, hend]
  by_cases hlng : lng = lng'
  · refine ⟨!decide (lat = lat'), ?_, ?_⟩
    · simp [numberAt, JsNumber.strictEquals, hlng, bind, Except.bind, pure, Except.pure]
    · simp [hlng]
  · refine ⟨true, ?_, ?_⟩
    · simp [numberAt, JsNumber.strictEquals, hlng, bind, Except.bind, pure, Except.pure]
    · simp [hlng]

theorem Reports.of_ring {message : String} {ring : JsonValue} {rings : List JsonValue} {P : Prop}
    (h : ∀ positions, ring = .array positions → ¬ IsRing positions) :
    Reports (.ok (some message))
      ((∀ r ∈ ring :: rings, ∃ positions, r = .array positions ∧ IsRing positions) ∧ P) := by
  apply Reports.of_message
  rintro ⟨hall, -⟩
  obtain ⟨positions, heq, hring⟩ := hall _ List.mem_cons_self
  exact h positions heq hring

/-- The outer loop reports on the rings it has not seen and on the count they lead to. -/
private theorem ringsFailure_reports (numberText : ℚ → String) (ringIndex vertexCount : Nat)
    (rings : List JsonValue) :
    Reports (ringsFailure numberText ringIndex vertexCount rings)
      ((∀ ring ∈ rings, ∃ positions, ring = .array positions ∧ IsRing positions) ∧
        vertexCount + (rings.map vertices).sum ≤ MAX_POLYGON_VERTICES) := by
  induction rings generalizing ringIndex vertexCount with
  | nil =>
    rw [ringsFailure]
    split
    · rename_i hcount
      apply Reports.of_message
      rintro ⟨-, hle⟩
      exact absurd hcount (Nat.not_lt.mpr (by simpa using hle))
    · rename_i hcount
      refine ⟨fun _ => rfl, fun h => absurd ⟨fun _ hring => (nomatch hring), ?_⟩ h⟩
      simpa using hcount
  | cons ring rings ih =>
    cases ring with
    | array ring =>
      rw [ringsFailure]
      by_cases hshort : ring.length < MIN_RING_POSITIONS
      · rw [if_pos hshort]
        apply Reports.of_ring
        intro positions heq hring
        cases heq
        exact absurd hring.four_le (Nat.not_le.mpr hshort)
      rw [if_neg hshort]
      cases hloop : positionsFailure numberText ringIndex 0 ring with
      | some message =>
        apply Reports.of_ring
        intro positions heq hring
        cases heq
        rw [(positionsFailure_eq_none_iff numberText _ _ _).mpr hring.positions] at hloop
        cases hloop
      | none =>
        have hpositions := (positionsFailure_eq_none_iff numberText _ _ _).mp hloop
        have hne : ring ≠ [] := by
          rintro rfl
          exact hshort (by decide)
        obtain ⟨isOpen', hopen, hclosed⟩ := isOpen_eq hne hpositions
        simp only [hopen, bind, Except.bind]
        cases isOpen' with
        | true =>
          apply Reports.of_ring
          intro positions heq hring
          cases heq
          cases hclosed.mpr hring.closed
        | false =>
          have hring : IsRing ring := ⟨Nat.not_lt.mp hshort, hpositions, hclosed.mp rfl⟩
          refine (ih (ringIndex + 1) (vertexCount + (ring.length - 1))).congr ?_
          rw [List.forall_mem_cons, List.map_cons, List.sum_cons, Nat.add_assoc]
          constructor
          · rintro ⟨hall, hcount⟩
            exact ⟨⟨⟨ring, rfl, hring⟩, hall⟩, hcount⟩
          · rintro ⟨⟨-, hall⟩, hcount⟩
            exact ⟨hall, hcount⟩
    | _ =>
      apply Reports.of_ring
      intro positions heq
      cases heq

theorem geoJsonPolygonFailure_reports (numberText : ℚ → String) (value : JsonValue) :
    Reports (geoJsonPolygonFailure numberText value) (∃ rings, IsPolygonJson value rings) := by
  unfold geoJsonPolygonFailure
  split
  · rename_i members
    split
    · rename_i htype
      split
      · rename_i ring rings hcoordinates
        refine (ringsFailure_reports numberText 0 0 (ring :: rings)).congr ?_
        rw [Nat.zero_add]
        constructor
        · rintro ⟨heach, hcount⟩
          exact ⟨ring :: rings, ⟨members, rfl⟩, htype, hcoordinates, List.cons_ne_nil _ _, heach,
            hcount⟩
        · rintro ⟨rings', h⟩
          have heq := h.coordinates
          rw [hcoordinates, Option.some.injEq, JsonValue.array.injEq] at heq
          subst heq
          exact ⟨h.each, h.count⟩
      · rename_i hnone
        apply Reports.of_message
        rintro ⟨rings, h⟩
        obtain ⟨ring, rings, rfl⟩ := List.exists_cons_of_ne_nil h.nonempty
        exact hnone ring rings h.coordinates
    · rename_i hnone
      apply Reports.of_message
      rintro ⟨rings, h⟩
      exact hnone h.type
  · rename_i items
    apply Reports.of_message
    rintro ⟨rings, h⟩
    obtain ⟨members, heq⟩ := h.isObject
    cases heq
  · rename_i hobject harray
    apply Reports.of_message
    rintro ⟨rings, h⟩
    obtain ⟨members, heq⟩ := h.isObject
    exact hobject members heq

/-- The check passes exactly what is a polygon, and refuses everything else with a message. -/
theorem geoJsonPolygonFailure_exact (numberText : ℚ → String) (value : JsonValue) :
    (geoJsonPolygonFailure numberText value = .ok none ↔ ∃ rings, IsPolygonJson value rings) ∧
      ((¬ ∃ rings, IsPolygonJson value rings) →
        ∃ message, geoJsonPolygonFailure numberText value = .ok (some message)) :=
  ⟨(geoJsonPolygonFailure_reports numberText value).eq_none_iff,
    (geoJsonPolygonFailure_reports numberText value).fails⟩

/-! ## The boundary that is handed on -/

namespace JsonValue

def position? : JsonValue → Option Position
  | .array [.number (.finite lng), .number (.finite lat)] => some ⟨lng, lat⟩
  | _ => none

def linearRing? : JsonValue → Option LinearRing
  | .array items =>
    (items.mapM position?).bind fun positions =>
      if h : 4 ≤ positions.length ∧ positions.head? = positions.getLast? then
        some ⟨positions, h.1, h.2⟩
      else none
  | _ => none

/-- The value as the polygon the spatial index is built from. -/
def polygon? (value : JsonValue) : Option Polygon :=
  match value.property? "coordinates" with
  | some (.array rings) =>
    (rings.mapM linearRing?).bind fun rings =>
      match rings with
      | outer :: holes => some ⟨outer, holes⟩
      | [] => none
  | _ => none

end JsonValue

theorem mapM_eq_some_map {α β : Type*} {f : α → Option β} {g : α → β} {items : List α}
    (h : ∀ x ∈ items, f x = some (g x)) : items.mapM f = some (items.map g) := by
  induction items with
  | nil => rfl
  | cons x items ih =>
    rw [List.mapM_cons, h x List.mem_cons_self, ih fun y hy => h y (List.mem_cons_of_mem x hy)]
    rfl

private theorem linearRing?_of_isRing {positions : List JsonValue} (h : IsRing positions) :
    (JsonValue.linearRing? (.array positions)).isSome := by
  have hread : ∀ position ∈ positions,
      position.position? = some (position.position?.getD ⟨0, 0⟩) := by
    intro position hposition
    obtain ⟨lng, lat, rfl, -⟩ := h.positions position hposition
    rfl
  have hmap := mapM_eq_some_map hread
  have hlength : 4 ≤ (positions.map fun position => position.position?.getD ⟨0, 0⟩).length := by
    rw [List.length_map]
    exact h.four_le
  simp only [JsonValue.linearRing?, hmap, Option.bind_some]
  rw [dif_pos ⟨hlength, by rw [List.head?_map, List.getLast?_map, h.closed]⟩]
  rfl

/-- What the check passes is a polygon in the sense of the spatial index. -/
theorem polygon?_of_passes {numberText : ℚ → String} {value : JsonValue}
    (h : geoJsonPolygonFailure numberText value = .ok none) : value.polygon?.isSome := by
  obtain ⟨rings, hpolygon⟩ := (geoJsonPolygonFailure_reports numberText value).eq_none_iff.mp h
  have hread : ∀ ring ∈ rings, ring.linearRing? =
      some (ring.linearRing?.getD ⟨List.replicate 4 ⟨0, 0⟩, by simp, rfl⟩) := by
    intro ring hring
    obtain ⟨positions, rfl, hpositions⟩ := hpolygon.each ring hring
    obtain ⟨linearRing, hsome⟩ := Option.isSome_iff_exists.mp (linearRing?_of_isRing hpositions)
    rw [hsome]
    rfl
  obtain ⟨outer, holes, hrings⟩ := List.exists_cons_of_ne_nil hpolygon.nonempty
  simp only [JsonValue.polygon?, hpolygon.coordinates, mapM_eq_some_map hread, Option.bind_some]
  rw [hrings]
  rfl

end Geofence
