import Geofence.Areas.Creation
import Geofence.Framework.OffsetWalk
import Mathlib.Data.Prod.Lex
import Mathlib.Data.String.Basic
/-!
# `AreasService.findAll`

`GET /areas` by `limit` and `offset`, and a client that pages from the first area on while areas
are created and deleted.
-/

namespace Geofence

open Framework

def DEFAULT_AREAS_PAGE_SIZE : Nat := 50

def MAX_AREAS_PAGE_SIZE : Nat := 500

structure ListAreasQueryDto where
  limit : Nat := DEFAULT_AREAS_PAGE_SIZE
  offset : Nat := 0

/-- What the pipe lets through. -/
def ListAreasQueryDto.isValid (query : ListAreasQueryDto) : Bool :=
  decide (1 ≤ query.limit ∧ query.limit ≤ MAX_AREAS_PAGE_SIZE)

/-- A row of `areas`. -/
structure StoredArea where
  area : AreaEntity
  createdAt : Timestamp
  deriving DecidableEq

def StoredArea.id (row : StoredArea) : AreaId := row.area.id

/-- `order: { createdAt: 'ASC', id: 'ASC' }` -/
def StoredArea.key (row : StoredArea) : Timestamp ×ₗ AreaId := toLex (row.createdAt, row.id)

structure StoredAreas where
  rows : List StoredArea
  primaryKey : (rows.map StoredArea.id).Nodup

namespace StoredAreas

def findAll (table : StoredAreas) (query : ListAreasQueryDto) : List StoredArea :=
  pageAt StoredArea.key query.offset query.limit table.rows

def insert (table : StoredAreas) (row : StoredArea) : Option StoredAreas :=
  if h : row.id ∉ table.rows.map StoredArea.id then
    some ⟨table.rows ++ [row], by
      rw [List.map_append, List.map_singleton, ← List.concat_eq_append]
      exact table.primaryKey.concat h⟩
  else none

def delete (table : StoredAreas) (areaId : AreaId) : Option StoredAreas :=
  if areaId ∈ table.rows.map StoredArea.id then
    some ⟨table.rows.filter fun row => row.id ≠ areaId,
      (List.filter_sublist.map _).nodup table.primaryKey⟩
  else none

end StoredAreas

/-- A client's walk: the table, the offset of its next request, the areas it was given, how many
pages it has read, how many areas were created meanwhile, and whether a page was short. -/
structure AreasWalk where
  table : StoredAreas
  offset : Nat
  given : List StoredArea
  pages : Nat
  created : Nat
  ended : Bool

/-- An area is seen when its transaction commits, whatever its `created_at`. -/
inductive AreasWalkAction where
  | created (row : StoredArea)
  | deleted (areaId : AreaId)
  | page (limit : Nat)

namespace AreasWalk

def start (table : StoredAreas) : AreasWalk := ⟨table, 0, [], 0, 0, false⟩

def turn (walk : AreasWalk) (limit : Nat) (page : List StoredArea) : AreasWalk :=
  { walk with
    offset := walk.offset + limit
    given := walk.given ++ page
    pages := walk.pages + 1
    ended := decide (page.length < limit) }

def step (walk : AreasWalk) : AreasWalkAction → Option AreasWalk
  | .created row => (walk.table.insert row).map fun table =>
    { walk with table, created := walk.created + 1 }
  | .deleted areaId => (walk.table.delete areaId).map fun table => { walk with table }
  | .page limit =>
    let query : ListAreasQueryDto := { limit, offset := walk.offset }
    if walk.ended = false ∧ query.isValid then
      some (walk.turn limit (walk.table.findAll query))
    else none

def machine : Machine AreasWalk AreasWalkAction := ⟨step⟩

/-- Every area of `initial` that is still there has been given. -/
def Complete (initial : List StoredArea) (walk : AreasWalk) : Prop :=
  ∀ row ∈ initial, row ∈ walk.table.rows → row ∈ walk.given

/-- The next page would begin with an area of `initial` that has not been given, and the deletion
of an area before it takes it out of reach. -/
def Skips (initial : List StoredArea) (walk : AreasWalk) (areaId : AreaId) : Prop :=
  ∃ gone ∈ walk.table.rows, gone.id = areaId ∧ ∃ row ∈ initial, row ∈ walk.table.rows ∧
    row ∉ walk.given ∧ gone.key < row.key ∧
      rank StoredArea.key walk.table.rows row = walk.offset

/-- The area before the next page has been given, and the creation of one before it pushes it into
the page. -/
def Pushes (walk : AreasWalk) (row : StoredArea) : Prop :=
  ∃ given ∈ walk.given, given ∈ walk.table.rows ∧ row.key < given.key ∧
    rank StoredArea.key walk.table.rows given + 1 = walk.offset

/-- A new area is none of those there were, and no deletion skips an area. -/
def Keeps (initial : List StoredArea) (walk : AreasWalk) : AreasWalkAction → Prop
  | .created row => row ∉ initial
  | .deleted areaId => ¬walk.Skips initial areaId
  | .page _ => True

/-- A new area is none of those given, and pushes none of them up. -/
def Follows (walk : AreasWalk) : AreasWalkAction → Prop
  | .created row => row ∉ walk.given ∧ ¬walk.Pushes row
  | _ => True

instance (initial : List StoredArea) (walk : AreasWalk) (areaId : AreaId) :
    Decidable (walk.Skips initial areaId) :=
  inferInstanceAs (Decidable (∃ gone ∈ walk.table.rows, gone.id = areaId ∧ ∃ row ∈ initial, _))

instance (walk : AreasWalk) (row : StoredArea) : Decidable (walk.Pushes row) :=
  inferInstanceAs (Decidable (∃ given ∈ walk.given, _))

instance (initial : List StoredArea) (walk : AreasWalk) :
    ∀ action, Decidable (walk.Keeps initial action)
  | .created row => inferInstanceAs (Decidable (row ∉ initial))
  | .deleted areaId => inferInstanceAs (Decidable ¬walk.Skips initial areaId)
  | .page _ => isTrue trivial

instance (walk : AreasWalk) : ∀ action, Decidable (walk.Follows action)
  | .created row => inferInstanceAs (Decidable (row ∉ walk.given ∧ ¬walk.Pushes row))
  | .deleted _ => isTrue trivial
  | .page _ => isTrue trivial

/-! ## The walk along the offset -/

def offsetWalk (walk : AreasWalk) : OffsetWalk StoredArea :=
  ⟨walk.table.rows, walk.offset, walk.given, walk.ended⟩

theorem keys_nodup (table : StoredAreas) : (table.rows.map StoredArea.key).Nodup := by
  have hids := table.primaryKey
  rw [List.Nodup, List.pairwise_map] at hids ⊢
  apply hids.imp
  intro a b hab hkey
  have hpair : (a.createdAt, a.id) = (b.createdAt, b.id) := toLex_inj.mp hkey
  exact hab (Prod.mk.inj hpair).2

/-- What an action does to the walk along the offset. -/
inductive Move (walk : AreasWalk) : AreasWalkAction → AreasWalk → Prop
  | created (row : StoredArea) (walk' : AreasWalk)
      (hwalk : walk'.offsetWalk = walk.offsetWalk.insert row)
      (hpages : walk'.pages = walk.pages) (hcreated : walk'.created = walk.created + 1) :
      Move walk (.created row) walk'
  | deleted (gone : StoredArea) (walk' : AreasWalk) (hgone : gone ∈ walk.table.rows)
      (hwalk : walk'.offsetWalk = walk.offsetWalk.remove StoredArea.key gone)
      (hpages : walk'.pages = walk.pages) (hcreated : walk'.created = walk.created) :
      Move walk (.deleted gone.id) walk'
  | page (limit : Nat) (walk' : AreasWalk) (hended : walk.ended = false) (hlimit : 0 < limit)
      (hwalk : walk'.offsetWalk = walk.offsetWalk.read StoredArea.key limit)
      (hpages : walk'.pages = walk.pages + 1) (hcreated : walk'.created = walk.created) :
      Move walk (.page limit) walk'

variable {walk walk' : AreasWalk} {action : AreasWalkAction} {initial : List StoredArea}

theorem filter_id {table : StoredAreas} {gone : StoredArea} (hgone : gone ∈ table.rows) :
    table.rows.filter (fun row => row.id ≠ gone.id) =
      table.rows.filter fun row => decide (row.key ≠ gone.key) := by
  apply List.filter_congr
  intro row hrow
  have hiff : row.id = gone.id ↔ row.key = gone.key := by
    constructor
    · intro hid
      rw [List.inj_on_of_nodup_map table.primaryKey hrow hgone hid]
    · intro hkey
      exact (Prod.mk.inj (toLex_inj.mp hkey)).2
  simp only [ne_eq, hiff]

theorem move_of_step (hstep : machine.step walk action = some walk') : Move walk action walk' := by
  change AreasWalk.step walk action = some walk' at hstep
  cases action with
  | created row =>
    obtain ⟨table, hinsert, rfl⟩ := Option.map_eq_some_iff.mp hstep
    refine .created row _ ?_ rfl rfl
    unfold StoredAreas.insert at hinsert
    split at hinsert
    · cases hinsert
      rfl
    · cases hinsert
  | deleted areaId =>
    obtain ⟨table, hdelete, rfl⟩ := Option.map_eq_some_iff.mp hstep
    unfold StoredAreas.delete at hdelete
    split at hdelete
    · rename_i hmem
      obtain ⟨gone, hgone, rfl⟩ := List.mem_map.mp hmem
      cases hdelete
      refine .deleted gone _ hgone ?_ rfl rfl
      simp only [offsetWalk, OffsetWalk.remove, filter_id hgone]
    · cases hdelete
  | page limit =>
    simp only [AreasWalk.step] at hstep
    split at hstep
    · rename_i hvalid
      cases hstep
      have hlimits := of_decide_eq_true hvalid.2
      exact .page limit _ hvalid.1 hlimits.1 rfl rfl rfl
    · cases hstep

private theorem step_created {row : StoredArea}
    (hnew : row.id ∉ walk.table.rows.map StoredArea.id) :
    ∃ table, table.rows = walk.table.rows ++ [row] ∧ machine.step walk (.created row) =
      some { walk with table, created := walk.created + 1 } :=
  ⟨_, rfl, congrArg (Option.map _) (dif_pos hnew)⟩

private theorem step_deleted {gone : StoredArea} (hgone : gone ∈ walk.table.rows) :
    ∃ table, table.rows = walk.table.rows.filter (fun row => decide (row.key ≠ gone.key)) ∧
      machine.step walk (.deleted gone.id) = some { walk with table } :=
  ⟨_, filter_id hgone, congrArg (Option.map _) (if_pos (List.mem_map_of_mem hgone))⟩

theorem step_page {limit : Nat} (hopen : walk.ended = false)
    (hvalid : 1 ≤ limit ∧ limit ≤ MAX_AREAS_PAGE_SIZE) : machine.step walk (.page limit) =
      some (walk.turn limit (walk.table.findAll ⟨limit, walk.offset⟩)) :=
  if_pos ⟨hopen, decide_eq_true hvalid⟩

theorem covers_of_move (h : walk.offsetWalk.Covers StoredArea.key initial)
    (hkeeps : walk.Keeps initial action) (hmove : Move walk action walk') :
    walk'.offsetWalk.Covers StoredArea.key initial := by
  have hkeys : (walk.offsetWalk.rows.map StoredArea.key).Nodup := keys_nodup walk.table
  cases hmove with
  | created row _ hwalk =>
    rw [hwalk]
    exact h.insert hkeeps
  | deleted gone _ hgone hwalk =>
    rw [hwalk]
    refine h.remove hkeys hgone fun hskips => hkeeps ⟨gone, hgone, rfl, hskips⟩
  | page limit _ _ _ hwalk =>
    rw [hwalk]
    exact h.read hkeys

theorem distinct_of_move (h : walk.offsetWalk.Distinct StoredArea.key)
    (hfollows : walk.Follows action) (hmove : Move walk action walk') :
    walk'.offsetWalk.Distinct StoredArea.key := by
  have hkeys : (walk.offsetWalk.rows.map StoredArea.key).Nodup := keys_nodup walk.table
  cases hmove with
  | created row _ hwalk =>
    rw [hwalk]
    exact h.insert hfollows.1 hfollows.2
  | deleted gone _ hgone hwalk =>
    rw [hwalk]
    exact h.remove hkeys hgone
  | page limit _ _ _ hwalk =>
    rw [hwalk]
    exact h.read hkeys

theorem complete_of_covers (h : walk.offsetWalk.Covers StoredArea.key initial)
    (hended : walk.ended = true) : walk.Complete initial := by
  intro row hinitial hrow
  rcases h row hinitial hrow with hgiven | ⟨hopen, -⟩
  · exact hgiven
  · exact absurd (hended.symm.trans hopen) (by decide)

/-- The pages of a walk are bounded by the areas there were and those created meanwhile. -/
structure Counted (initial : List StoredArea) (walk : AreasWalk) : Prop where
  rows : walk.table.rows.length ≤ initial.length + walk.created
  opened : walk.ended = false →
    walk.pages ≤ walk.offset ∧ walk.offset ≤ initial.length + walk.created
  pages : walk.pages ≤ initial.length + walk.created + 1

private theorem counted_start (table : StoredAreas) : Counted table.rows (start table) :=
  ⟨Nat.le_refl _, fun _ => ⟨Nat.le_refl _, Nat.zero_le _⟩, Nat.zero_le _⟩

private theorem counted_of_move (h : Counted initial walk) (hmove : Move walk action walk') :
    Counted initial walk' := by
  cases hmove with
  | created row _ hwalk hpages hcreated =>
    have hrows : walk'.table.rows = walk.table.rows ++ [row] := congrArg OffsetWalk.rows hwalk
    have hoffset : walk'.offset = walk.offset := congrArg OffsetWalk.offset hwalk
    have hended : walk'.ended = walk.ended := congrArg OffsetWalk.ended hwalk
    refine ⟨?_, fun hopen => ?_, ?_⟩
    · rw [hrows, hcreated, List.length_append, List.length_singleton, ← Nat.add_assoc]
      exact Nat.succ_le_succ h.rows
    · obtain ⟨hle, hbound⟩ := h.opened (hended.symm.trans hopen)
      omega
    · have hle := h.pages
      omega
  | deleted gone _ hgone hwalk hpages hcreated =>
    have hrows : walk'.table.rows = walk.table.rows.filter _ := congrArg OffsetWalk.rows hwalk
    have hoffset : walk'.offset = walk.offset := congrArg OffsetWalk.offset hwalk
    have hended : walk'.ended = walk.ended := congrArg OffsetWalk.ended hwalk
    refine ⟨?_, fun hopen => ?_, ?_⟩
    · rw [hrows, hcreated]
      exact (List.length_filter_le _ _).trans h.rows
    · rw [hpages, hoffset, hcreated]
      exact h.opened (hended.symm.trans hopen)
    · rw [hpages, hcreated]
      exact h.pages
  | page limit _ hopen hlimit hwalk hpages hcreated =>
    have hrows : walk'.table.rows = walk.table.rows := congrArg OffsetWalk.rows hwalk
    have hoffset : walk'.offset = walk.offset + limit := congrArg OffsetWalk.offset hwalk
    have hended : walk'.ended = (walk.offsetWalk.read StoredArea.key limit).ended :=
      congrArg OffsetWalk.ended hwalk
    obtain ⟨hle, hbound⟩ := h.opened hopen
    have hrowsBound := h.rows
    refine ⟨by rw [hrows, hcreated]; exact h.rows, fun hopen' => ?_, by omega⟩
    have hlong : ¬(walk.table.rows.length < walk.offset + limit ∧ 0 < limit) := by
      intro hshort
      have hread : (walk.offsetWalk.read StoredArea.key limit).ended = true :=
        OffsetWalk.ended_read.mpr hshort
      rw [← hended, hopen'] at hread
      cases hread
    omega

/-! ## Walks to the end -/

theorem pages_invariant {I : AreasWalk → Prop} {limits : List Nat}
    (hpage : ∀ walk walk' limit, I walk → Move walk (.page limit) walk' → I walk')
    (hwalk : I walk) (hrun : machine.run walk (limits.map .page) = some walk') : I walk' := by
  induction limits generalizing walk with
  | nil =>
    cases hrun
    exact hwalk
  | cons limit limits ih =>
    obtain ⟨next, hstep, hrest⟩ := machine.run_cons_eq_some.mp hrun
    exact ih (hpage walk next limit hwalk (move_of_step hstep)) hrest

private theorem lost_of_page {row : StoredArea} {limit : Nat}
    (h : walk.offsetWalk.Lost StoredArea.key row) (hmove : Move walk (.page limit) walk') :
    walk'.offsetWalk.Lost StoredArea.key row := by
  cases hmove with
  | page _ _ _ _ hwalk =>
    rw [hwalk]
    exact h.read (keys_nodup walk.table)

/-- Left to itself, a walk comes to a short page. -/
theorem ends (hopen : walk.ended = false) :
    ∃ (limits : List Nat) (final : AreasWalk),
      machine.run walk (limits.map .page) = some final ∧ final.ended = true := by
  induction hmeasure : walk.table.rows.length - walk.offset using Nat.strong_induction_on
    generalizing walk with
  | _ m ih =>
    let next := walk.turn MAX_AREAS_PAGE_SIZE
      (walk.table.findAll ⟨MAX_AREAS_PAGE_SIZE, walk.offset⟩)
    have hstep : machine.step walk (.page MAX_AREAS_PAGE_SIZE) = some next :=
      step_page hopen (by decide)
    cases hended : next.ended with
    | true =>
      exact ⟨[MAX_AREAS_PAGE_SIZE], next, machine.run_cons_eq_some.mpr ⟨next, hstep, rfl⟩, hended⟩
    | false =>
      have hlong : walk.offset + MAX_AREAS_PAGE_SIZE ≤ walk.table.rows.length := by
        by_contra hshort
        have hread : (walk.offsetWalk.read StoredArea.key MAX_AREAS_PAGE_SIZE).ended = true :=
          OffsetWalk.ended_read.mpr ⟨Nat.lt_of_not_le hshort, by decide⟩
        exact absurd (hread.symm.trans hended) (by decide)
      have hpositive : 0 < MAX_AREAS_PAGE_SIZE := by decide
      have hless : next.table.rows.length - next.offset < m := by
        change walk.table.rows.length - (walk.offset + MAX_AREAS_PAGE_SIZE) < m
        omega
      obtain ⟨limits, final, hrun, hfinal⟩ := ih _ hless hended rfl
      exact ⟨MAX_AREAS_PAGE_SIZE :: limits, final,
        machine.run_cons_eq_some.mpr ⟨next, hstep, hrun⟩, hfinal⟩

/-- What a walk gives whose new areas are new and whose deletions skip nothing, and which deletion
would lose it an area. -/
structure GivesAll (initial : List StoredArea) (walk : AreasWalk) : Prop where
  complete : walk.ended = true → walk.Complete initial
  skips_iff : walk.ended = false → ∀ areaId ∈ walk.table.rows.map StoredArea.id,
    (walk.Skips initial areaId ↔ ∃ (limits : List Nat) (final : AreasWalk),
      machine.run walk (.deleted areaId :: limits.map .page) = some final ∧
        final.ended = true ∧ ¬final.Complete initial)

/-- What a walk gives into which no area is pushed again, and which creation would do so. -/
structure GivesOnce (walk : AreasWalk) : Prop where
  once : walk.given.Nodup
  pushes_iff : walk.ended = false → ∀ row, row.id ∉ walk.table.rows.map StoredArea.id →
    row ∉ walk.given → (walk.Pushes row ↔ ∃ (limits : List Nat) (final : AreasWalk),
      machine.run walk (.created row :: limits.map .page) = some final ∧ ¬final.given.Nodup)

private theorem Skips.incomplete {areaId : AreaId} (h : walk.Skips initial areaId)
    (hopen : walk.ended = false) : ∃ (limits : List Nat) (final : AreasWalk),
      machine.run walk (.deleted areaId :: limits.map .page) = some final ∧
        final.ended = true ∧ ¬final.Complete initial := by
  obtain ⟨gone, hgone, rfl, hskips⟩ := h
  obtain ⟨table, htable, hstep⟩ := step_deleted hgone
  have hskips : walk.offsetWalk.Skips StoredArea.key initial gone := hskips
  obtain ⟨row, hinitial, hlost⟩ := hskips.lost (keys_nodup walk.table) hgone
  obtain ⟨limits, final, hrun, hended⟩ := @ends { walk with table } hopen
  refine ⟨limits, final, machine.run_cons_eq_some.mpr ⟨_, hstep, hrun⟩, hended, fun hall => ?_⟩
  have hfinal : final.offsetWalk.Lost StoredArea.key row := by
    refine pages_invariant (I := fun walk => walk.offsetWalk.Lost StoredArea.key row)
      (fun _ _ _ h hmove => lost_of_page h hmove) ?_ hrun
    simpa only [offsetWalk, OffsetWalk.remove, htable] using hlost
  exact hfinal.unseen (hall row hinitial hfinal.stored)

private theorem covers_of_pages {limits : List Nat}
    (h : walk.offsetWalk.Covers StoredArea.key initial)
    (hrun : machine.run walk (limits.map .page) = some walk') :
    walk'.offsetWalk.Covers StoredArea.key initial := by
  refine pages_invariant (I := fun walk => walk.offsetWalk.Covers StoredArea.key initial) ?_ h hrun
  intro walk walk' limit h hmove
  have hkeeps : walk.Keeps initial (.page limit) := trivial
  exact covers_of_move h hkeeps hmove

private theorem distinct_of_pages {limits : List Nat} (h : walk.offsetWalk.Distinct StoredArea.key)
    (hrun : machine.run walk (limits.map .page) = some walk') :
    walk'.offsetWalk.Distinct StoredArea.key := by
  refine pages_invariant (I := fun walk => walk.offsetWalk.Distinct StoredArea.key) ?_ h hrun
  intro walk walk' limit h hmove
  have hfollows : walk.Follows (.page limit) := trivial
  exact distinct_of_move h hfollows hmove

private theorem givesAll_of_covers (h : walk.offsetWalk.Covers StoredArea.key initial) :
    walk.GivesAll initial where
  complete := complete_of_covers h
  skips_iff := by
    intro hopen areaId hareaId
    refine ⟨fun hskips => hskips.incomplete hopen, ?_⟩
    rintro ⟨limits, final, hrun, hended, hincomplete⟩
    by_contra hskips
    obtain ⟨next, hstep, hpages⟩ := machine.run_cons_eq_some.mp hrun
    have hkeeps : walk.Keeps initial (.deleted areaId) := hskips
    have hnext := covers_of_move h hkeeps (move_of_step hstep)
    exact hincomplete (complete_of_covers (covers_of_pages hnext hpages) hended)

theorem Pushes.repeats {row : StoredArea} (h : walk.Pushes row) (hopen : walk.ended = false)
    (hnew : row.id ∉ walk.table.rows.map StoredArea.id) :
    ∃ (limits : List Nat) (final : AreasWalk),
      machine.run walk (.created row :: limits.map .page) = some final ∧ ¬final.given.Nodup := by
  obtain ⟨table, htable, hstep⟩ := step_created hnew
  let next : AreasWalk := { walk with table, created := walk.created + 1 }
  have hpage : machine.step next (.page 1) = some _ := step_page hopen (by decide)
  refine ⟨[1], _, machine.run_cons_eq_some.mpr ⟨next, hstep,
    machine.run_cons_eq_some.mpr ⟨_, hpage, rfl⟩⟩, ?_⟩
  have hpushes : walk.offsetWalk.Pushes StoredArea.key row := h
  have hkeys : ((walk.table.rows ++ [row]).map StoredArea.key).Nodup := htable ▸ keys_nodup table
  have hrepeats := hpushes.repeats hkeys Nat.one_pos
  simp only [offsetWalk, OffsetWalk.insert, OffsetWalk.read, ← htable] at hrepeats
  exact hrepeats

private theorem givesOnce_of_distinct
    (h : walk.offsetWalk.Distinct StoredArea.key) : walk.GivesOnce where
  once := h.nodup
  pushes_iff := by
    intro hopen row hnew hunseen
    refine ⟨fun hpushes => hpushes.repeats hopen hnew, ?_⟩
    rintro ⟨limits, final, hrun, hrepeats⟩
    by_contra hpushes
    obtain ⟨next, hstep, hpages⟩ := machine.run_cons_eq_some.mp hrun
    have hfollows : walk.Follows (.created row) := ⟨hunseen, hpushes⟩
    have hnext := distinct_of_move h hfollows (move_of_step hstep)
    exact hrepeats (distinct_of_pages hnext hpages).nodup

theorem areas_walk_shifts (table : StoredAreas) {actions : List AreasWalkAction}
    (hrun : machine.run (start table) actions = some walk) :
    walk.pages ≤ table.rows.length + walk.created + 1 ∧
      (machine.Meets (fun walk => walk.Keeps table.rows) (start table) actions →
        walk.GivesAll table.rows) ∧
      (machine.Meets Follows (start table) actions → walk.GivesOnce) := by
  refine ⟨?_, fun hkeeps => ?_, fun hfollows => ?_⟩
  · have hcounted : walk.Counted table.rows := machine.run_invariant (I := Counted table.rows)
      (fun _ _ _ h hstep => counted_of_move h (move_of_step hstep)) (counted_start table) hrun
    exact hcounted.pages
  · exact givesAll_of_covers (machine.run_invariant_of_meets
      (I := fun walk => walk.offsetWalk.Covers StoredArea.key table.rows)
      (fun _ _ _ h hkeeps hstep => covers_of_move h hkeeps (move_of_step hstep))
      (OffsetWalk.covers_start table.rows) hkeeps hrun)
  · exact givesOnce_of_distinct (machine.run_invariant_of_meets
      (I := fun walk => walk.offsetWalk.Distinct StoredArea.key)
      (fun _ _ _ h hfollows hstep => distinct_of_move h hfollows (move_of_step hstep))
      (OffsetWalk.distinct_start table.rows) hfollows hrun)

/-- Three areas, created one after the other. -/
def listedAreas : StoredAreas :=
  ⟨[⟨⟨"c", "c", squareWithHole⟩, 3⟩, ⟨⟨"a", "a", squareWithHole⟩, 1⟩,
    ⟨⟨"b", "b", squareWithHole⟩, 2⟩], by decide⟩

/-- After a page of two areas, the deletion of the first loses the third. -/
theorem areas_walk_shifts_skipped :
    ∃ walk, machine.run (start listedAreas) [.page 2] = some walk ∧
      walk.GivesAll listedAreas.rows ∧ walk.GivesOnce ∧
      ∃ (limits : List Nat) (final : AreasWalk),
        machine.run walk (.deleted "a" :: limits.map .page) = some final ∧
          final.ended = true ∧ ¬final.Complete listedAreas.rows := by
  have hend : ((machine.run (start listedAreas) [.page 2]).any fun walk =>
      decide (walk.ended = false ∧ "a" ∈ walk.table.rows.map StoredArea.id ∧
        walk.Skips listedAreas.rows "a")) = true := by
    decide +kernel
  obtain ⟨walk, hrun, hopen, hareaId, hskips⟩ := Machine.exists_end _ hend
  obtain ⟨-, hall, honce⟩ := areas_walk_shifts listedAreas hrun
  have hgivesAll := hall (by decide +kernel)
  exact ⟨walk, hrun, hgivesAll, honce (by decide +kernel),
    (hgivesAll.skips_iff hopen "a" hareaId).mp hskips⟩

end AreasWalk

end Geofence
