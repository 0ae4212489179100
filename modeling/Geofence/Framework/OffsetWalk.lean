import Mathlib.Data.List.Sort
import Mathlib.Data.List.Nodup
import Mathlib.Order.Lattice
/-!
# Walks along an offset

A list of rows is read page by page, smallest key first, each page beginning where the last one
has ended. A row is found by its rank, which inserts raise and removals lower: a walk passes over
the row that falls behind the offset and gives twice the row that is pushed up to it.
-/

namespace Geofence.Framework

variable {α κ : Type*} [LinearOrder κ] (key : α → κ)

/-- The rows, smallest key first. -/
def inKeyOrder (rows : List α) : List α := rows.insertionSort fun a b => key a ≤ key b

/-- How many rows come before a row. -/
def rank (rows : List α) (r : α) : Nat := rows.countP fun a => decide (key a < key r)

def pageAt (offset limit : Nat) (rows : List α) : List α :=
  ((inKeyOrder key rows).drop offset).take limit

section PageAt

variable {key} {rows : List α} {offset limit : Nat} {r : α}

theorem rank_cons (a : α) :
    rank key (a :: rows) r = rank key rows r + if key a < key r then 1 else 0 := by
  simp [rank, List.countP_cons]

theorem mem_take_of_pairwise {sorted : List α}
    (hsorted : sorted.Pairwise fun a b => key a < key b) :
    r ∈ sorted.take limit ↔ r ∈ sorted ∧ rank key sorted r < limit := by
  induction sorted generalizing limit with
  | nil => simp
  | cons a sorted ih =>
    obtain ⟨hhead, htail⟩ := List.pairwise_cons.mp hsorted
    cases limit with
    | zero => simp
    | succ limit =>
      rw [List.take_succ_cons, List.mem_cons, List.mem_cons, ih htail, rank_cons]
      constructor
      · rintro (rfl | ⟨hr, hlt⟩)
        · have hzero : rank key sorted r = 0 := by
            rw [rank, List.countP_eq_zero]
            intro b hb
            simpa using (hhead b hb).le
          refine ⟨Or.inl rfl, ?_⟩
          simp [hzero]
        · refine ⟨Or.inr hr, ?_⟩
          rw [if_pos (hhead r hr)]
          exact Nat.succ_lt_succ hlt
      · rintro ⟨rfl | hr, hlt⟩
        · exact Or.inl rfl
        · rw [if_pos (hhead r hr)] at hlt
          exact Or.inr ⟨hr, Nat.lt_of_succ_lt_succ hlt⟩

theorem mem_drop_of_pairwise {sorted : List α}
    (hsorted : sorted.Pairwise fun a b => key a < key b) :
    r ∈ sorted.drop offset ↔ r ∈ sorted ∧ offset ≤ rank key sorted r := by
  have hnodup : sorted.Nodup := hsorted.imp fun hlt heq => absurd (heq ▸ hlt) (lt_irrefl _)
  rw [← Nat.not_lt]
  constructor
  · intro hdrop
    refine ⟨List.mem_of_mem_drop hdrop, fun hlt => ?_⟩
    have htake := (mem_take_of_pairwise hsorted).mpr ⟨List.mem_of_mem_drop hdrop, hlt⟩
    exact List.disjoint_take_drop hnodup (Nat.le_refl _) htake hdrop
  · rintro ⟨hr, hge⟩
    rw [← List.take_append_drop offset sorted, List.mem_append] at hr
    rcases hr with htake | hdrop
    · exact absurd ((mem_take_of_pairwise hsorted).mp htake).2 hge
    · exact hdrop

theorem inKeyOrder_pairwise (hkeys : (rows.map key).Nodup) :
    (inKeyOrder key rows).Pairwise fun a b => key a < key b := by
  have hsorted : (inKeyOrder key rows).Pairwise fun a b => key a ≤ key b := by
    have htotal : Std.Total (fun a b : α => key a ≤ key b) := ⟨fun a b => le_total _ _⟩
    have htrans : IsTrans α (fun a b : α => key a ≤ key b) := ⟨fun a b c hab hbc => hab.trans hbc⟩
    exact List.pairwise_insertionSort _ _
  have hnodup : ((inKeyOrder key rows).map key).Nodup :=
    ((List.perm_insertionSort _ rows).map key).nodup_iff.mpr hkeys
  rw [List.Nodup, List.pairwise_map] at hnodup
  apply (hsorted.and hnodup).imp
  intro a b hab
  exact lt_of_le_of_ne hab.1 hab.2

private theorem rank_inKeyOrder : rank key (inKeyOrder key rows) r = rank key rows r :=
  (List.perm_insertionSort _ rows).countP_eq _

private theorem length_inKeyOrder : (inKeyOrder key rows).length = rows.length :=
  (List.perm_insertionSort _ rows).length_eq

theorem mem_pageAt (hkeys : (rows.map key).Nodup) :
    r ∈ pageAt key offset limit rows ↔
      r ∈ rows ∧ offset ≤ rank key rows r ∧ rank key rows r < offset + limit := by
  have hsorted := inKeyOrder_pairwise hkeys
  have hdrop := hsorted.sublist (List.drop_sublist offset _)
  have hmem : r ∈ inKeyOrder key rows ↔ r ∈ rows := List.mem_insertionSort _
  have hsplit : (inKeyOrder key rows).drop offset =
      ((inKeyOrder key rows).drop offset).take limit ++
        (inKeyOrder key rows).drop (offset + limit) := by
    rw [← List.drop_drop, List.take_append_drop]
  rw [← hmem, ← rank_inKeyOrder]
  constructor
  · intro hpage
    have hfrom := (mem_drop_of_pairwise hsorted).mp (List.mem_of_mem_take hpage)
    refine ⟨hfrom.1, hfrom.2, Nat.lt_of_not_le fun hge => ?_⟩
    have hbehind := (mem_drop_of_pairwise hsorted).mpr ⟨hfrom.1, hge⟩
    rw [hsplit, List.pairwise_append] at hdrop
    exact lt_irrefl _ (hdrop.2.2 r hpage r hbehind)
  · rintro ⟨hr, hle, hlt⟩
    have hfrom := (mem_drop_of_pairwise hsorted).mpr ⟨hr, hle⟩
    rw [hsplit, List.mem_append] at hfrom
    rcases hfrom with hpage | hbehind
    · exact hpage
    · exact absurd ((mem_drop_of_pairwise hsorted).mp hbehind).2 (Nat.not_le.mpr hlt)

private theorem pageAt_nodup (hkeys : (rows.map key).Nodup) :
    (pageAt key offset limit rows).Nodup := by
  have hsorted := inKeyOrder_pairwise hkeys
  have hpage := (hsorted.sublist (List.drop_sublist offset _)).sublist (List.take_sublist limit _)
  exact hpage.imp fun hlt heq => absurd (heq ▸ hlt) (lt_irrefl _)

private theorem length_pageAt :
    (pageAt key offset limit rows).length = min limit (rows.length - offset) := by
  rw [pageAt, List.length_take, List.length_drop, length_inKeyOrder]

private theorem rank_lt_length (hr : r ∈ rows) : rank key rows r < rows.length := by
  refine Nat.lt_of_le_of_ne List.countP_le_length fun hall => ?_
  have hself := List.countP_eq_length.mp hall r hr
  simp at hself

theorem rank_append_singleton (row : α) :
    rank key (rows ++ [row]) r = rank key rows r + if key row < key r then 1 else 0 := by
  rw [rank, List.countP_append, List.countP_singleton, rank]
  simp

theorem rank_filter {row : α} (hkeys : (rows.map key).Nodup) (hrow : row ∈ rows) :
    rank key rows r = rank key (rows.filter fun a => decide (key a ≠ key row)) r +
      if key row < key r then 1 else 0 := by
  induction rows with
  | nil => cases hrow
  | cons a rows ih =>
    obtain ⟨hhead, htail⟩ := List.nodup_cons.mp hkeys
    by_cases ha : key a = key row
    · have hrest : rows.filter (fun b => decide (key b ≠ key row)) = rows := by
        rw [List.filter_eq_self]
        intro b hb
        have hne : key b ≠ key a := fun heq => hhead (heq ▸ List.mem_map_of_mem hb)
        simpa [← ha] using hne
      rw [List.filter_cons_of_neg (by simp [ha]), hrest, rank_cons, ha]
    · have hmem : row ∈ rows := by
        rcases List.mem_cons.mp hrow with rfl | hmem
        · exact absurd rfl ha
        · exact hmem
      rw [List.filter_cons_of_pos (by simp [ha]), rank_cons, rank_cons, ih htail hmem]
      exact Nat.add_right_comm _ _ _

end PageAt

/-- The rows there are, the offset of the next page, the rows given so far, and whether a page
has been short. -/
structure OffsetWalk (α : Type*) where
  rows : List α
  offset : Nat
  seen : List α
  ended : Bool

namespace OffsetWalk

def start (rows : List α) : OffsetWalk α := ⟨rows, 0, [], false⟩

def read (limit : Nat) (walk : OffsetWalk α) : OffsetWalk α :=
  { walk with
    offset := walk.offset + limit
    seen := walk.seen ++ pageAt key walk.offset limit walk.rows
    ended := decide ((pageAt key walk.offset limit walk.rows).length < limit) }

def insert (row : α) (walk : OffsetWalk α) : OffsetWalk α :=
  { walk with rows := walk.rows ++ [row] }

def remove (row : α) (walk : OffsetWalk α) : OffsetWalk α :=
  { walk with rows := walk.rows.filter fun a => decide (key a ≠ key row) }

/-- The rows of `initial` that are still there have been given or are still to come. -/
def Covers (initial : List α) (walk : OffsetWalk α) : Prop :=
  ∀ r ∈ initial, r ∈ walk.rows →
    r ∈ walk.seen ∨ walk.ended = false ∧ walk.offset ≤ rank key walk.rows r

/-- The first row of the next page is one of `initial` that has not been given, and comes behind
`row`. -/
def Skips (initial : List α) (walk : OffsetWalk α) (row : α) : Prop :=
  ∃ r ∈ initial, r ∈ walk.rows ∧ r ∉ walk.seen ∧ key row < key r ∧
    rank key walk.rows r = walk.offset

/-- A row that the walk has passed over. -/
structure Lost (walk : OffsetWalk α) (r : α) : Prop where
  stored : r ∈ walk.rows
  unseen : r ∉ walk.seen
  passed : rank key walk.rows r < walk.offset

/-- No row has been given twice or is going to be. -/
structure Distinct (walk : OffsetWalk α) : Prop where
  nodup : walk.seen.Nodup
  passed : ∀ r ∈ walk.seen, r ∈ walk.rows → rank key walk.rows r < walk.offset

/-- The last row before the next page has been given, and comes behind `row`. -/
def Pushes (walk : OffsetWalk α) (row : α) : Prop :=
  ∃ r ∈ walk.seen, r ∈ walk.rows ∧ key row < key r ∧ rank key walk.rows r + 1 = walk.offset

variable {key} {initial : List α} {walk : OffsetWalk α} {row r : α} {limit : Nat}

theorem covers_start (rows : List α) : Covers key rows (start rows) :=
  fun _ _ _ => Or.inr ⟨rfl, Nat.zero_le _⟩

theorem distinct_start (rows : List α) : Distinct key (start rows) :=
  ⟨List.nodup_nil, fun _ hseen => by cases hseen⟩

theorem ended_read : (walk.read key limit).ended = true ↔
    walk.rows.length < walk.offset + limit ∧ 0 < limit := by
  rw [read, decide_eq_true_eq, length_pageAt]
  omega

theorem Covers.read (h : Covers key initial walk) (hkeys : (walk.rows.map key).Nodup) :
    Covers key initial (walk.read key limit) := by
  intro r hinitial hr
  rcases h r hinitial hr with hseen | ⟨-, hle⟩
  · exact Or.inl (List.mem_append_left _ hseen)
  · by_cases hlt : rank key walk.rows r < walk.offset + limit
    · exact Or.inl (List.mem_append_right _ ((mem_pageAt hkeys).mpr ⟨hr, hle, hlt⟩))
    · refine Or.inr ⟨Bool.eq_false_iff.mpr fun hended => hlt ?_, Nat.le_of_not_lt hlt⟩
      exact (rank_lt_length hr).trans (ended_read.mp hended).1

theorem Covers.insert (h : Covers key initial walk) (hnew : row ∉ initial) :
    Covers key initial (walk.insert row) := by
  intro r hinitial hr
  have hstored : r ∈ walk.rows := by
    rcases List.mem_append.mp hr with hold | hlast
    · exact hold
    · exact absurd (List.mem_singleton.mp hlast ▸ hinitial) hnew
  rcases h r hinitial hstored with hseen | ⟨hended, hle⟩
  · exact Or.inl hseen
  · refine Or.inr ⟨hended, ?_⟩
    rw [OffsetWalk.insert, rank_append_singleton]
    exact Nat.le_add_right_of_le hle

theorem Covers.remove (h : Covers key initial walk) (hkeys : (walk.rows.map key).Nodup)
    (hrow : row ∈ walk.rows) (hskips : ¬Skips key initial walk row) :
    Covers key initial (walk.remove key row) := by
  intro r hinitial hr
  have hstored : r ∈ walk.rows := List.mem_of_mem_filter hr
  by_cases hseen : r ∈ walk.seen
  · exact Or.inl hseen
  · obtain ⟨hended, hle⟩ := (h r hinitial hstored).resolve_left hseen
    refine Or.inr ⟨hended, ?_⟩
    have hrank := rank_filter (r := r) hkeys hrow
    change walk.offset ≤ rank key (walk.rows.filter fun a => decide (key a ≠ key row)) r
    by_cases hlt : key row < key r
    · have hne : rank key walk.rows r ≠ walk.offset :=
        fun heq => hskips ⟨r, hinitial, hstored, hseen, hlt, heq⟩
      rw [if_pos hlt] at hrank
      omega
    · rw [if_neg hlt] at hrank
      omega

theorem Skips.lost (h : Skips key initial walk row) (hkeys : (walk.rows.map key).Nodup)
    (hrow : row ∈ walk.rows) : ∃ r ∈ initial, Lost key (walk.remove key row) r := by
  obtain ⟨r, hinitial, hstored, hseen, hlt, heq⟩ := h
  refine ⟨r, hinitial, List.mem_filter.mpr ⟨hstored, by simpa using hlt.ne'⟩, hseen, ?_⟩
  have hrank := rank_filter (r := r) hkeys hrow
  rw [if_pos hlt] at hrank
  change rank key (walk.rows.filter fun a => decide (key a ≠ key row)) r < walk.offset
  omega

theorem Lost.read (h : Lost key walk r) (hkeys : (walk.rows.map key).Nodup) :
    Lost key (walk.read key limit) r := by
  refine ⟨h.stored, fun hseen => ?_, Nat.lt_add_right _ h.passed⟩
  rcases List.mem_append.mp hseen with hold | hpage
  · exact h.unseen hold
  · exact absurd ((mem_pageAt hkeys).mp hpage).2.1 (Nat.not_le.mpr h.passed)

theorem Distinct.read (h : Distinct key walk) (hkeys : (walk.rows.map key).Nodup) :
    Distinct key (walk.read key limit) where
  nodup := by
    refine List.nodup_append.mpr ⟨h.nodup, pageAt_nodup hkeys, ?_⟩
    rintro r hseen _ hpage rfl
    obtain ⟨hstored, hle, -⟩ := (mem_pageAt hkeys).mp hpage
    exact absurd hle (Nat.not_le.mpr (h.passed r hseen hstored))
  passed := by
    intro r hseen hstored
    rcases List.mem_append.mp hseen with hold | hpage
    · exact Nat.lt_add_right _ (h.passed r hold hstored)
    · exact ((mem_pageAt hkeys).mp hpage).2.2

theorem Distinct.insert (h : Distinct key walk) (hnew : row ∉ walk.seen)
    (hpushes : ¬Pushes key walk row) : Distinct key (walk.insert row) where
  nodup := h.nodup
  passed := by
    intro r hseen hr
    have hstored : r ∈ walk.rows := by
      rcases List.mem_append.mp hr with hold | hlast
      · exact hold
      · exact absurd (List.mem_singleton.mp hlast ▸ hseen) hnew
    have hlt := h.passed r hseen hstored
    rw [OffsetWalk.insert, rank_append_singleton]
    by_cases hbehind : key row < key r
    · have hne : rank key walk.rows r + 1 ≠ walk.offset :=
        fun heq => hpushes ⟨r, hseen, hstored, hbehind, heq⟩
      rw [if_pos hbehind]
      exact Nat.lt_of_le_of_ne hlt hne
    · rw [if_neg hbehind]
      exact hlt

theorem Distinct.remove (h : Distinct key walk) (hkeys : (walk.rows.map key).Nodup)
    (hrow : row ∈ walk.rows) : Distinct key (walk.remove key row) where
  nodup := h.nodup
  passed := by
    intro r hseen hr
    have hlt := h.passed r hseen (List.mem_of_mem_filter hr)
    rw [rank_filter (r := r) hkeys hrow] at hlt
    exact Nat.lt_of_le_of_lt (Nat.le_add_right _ _) hlt

/-- A row that is pushed up to the offset is given again by the next page. -/
theorem Pushes.repeats (h : Pushes key walk row) (hkeys : ((walk.rows ++ [row]).map key).Nodup)
    (hlimit : 0 < limit) : ¬((walk.insert row).read key limit).seen.Nodup := by
  obtain ⟨r, hseen, hstored, hlt, heq⟩ := h
  have hrank : rank key (walk.rows ++ [row]) r = walk.offset := by
    rw [rank_append_singleton, if_pos hlt, heq]
  have hpage : r ∈ pageAt key walk.offset limit (walk.rows ++ [row]) :=
    (mem_pageAt hkeys).mpr ⟨List.mem_append_left _ hstored, by omega, by omega⟩
  intro hnodup
  exact (List.nodup_append.mp hnodup).2.2 r hseen r hpage rfl

end OffsetWalk

end Geofence.Framework
