import Mathlib.Data.List.Sort
import Mathlib.Data.List.Nodup
import Mathlib.Order.Lattice
/-!
# Walks along a key

A list of rows is read page by page, greatest key first. A read starts below the key of the last
row it has given, so that rows may be inserted and removed anywhere between two reads. Where the
key is unique, no row is given twice and none of the rows that were there from the beginning and
stay is left out, unless it does not pass the filter of the read that comes to it.
-/

namespace Geofence.Framework

variable {α κ : Type*} [LinearOrder κ] (key : α → κ)

/-- The rows that pass a filter and lie below a position, greatest key first. -/
def rowsBelow (keep : α → Bool) (pos : Option κ) (rows : List α) : List α :=
  (rows.filter fun r => keep r && pos.all fun p => decide (key r < p)).insertionSort
    fun a b => key b ≤ key a

section RowsBelow

variable {key} {keep : α → Bool} {pos : Option κ} {rows : List α}

theorem mem_rowsBelow {r : α} :
    r ∈ rowsBelow key keep pos rows ↔ r ∈ rows ∧ keep r = true ∧ ∀ p, pos = some p → key r < p := by
  simp only [rowsBelow, List.mem_insertionSort, List.mem_filter, Bool.and_eq_true]
  cases pos with
  | none => simp
  | some p => simp

theorem rowsBelow_pairwise (hkeys : (rows.map key).Nodup) :
    (rowsBelow key keep pos rows).Pairwise fun a b => key b < key a := by
  have hsorted : (rowsBelow key keep pos rows).Pairwise fun a b => key b ≤ key a := by
    have htotal : Std.Total (fun a b : α => key b ≤ key a) := ⟨fun a b => le_total _ _⟩
    have htrans : IsTrans α (fun a b : α => key b ≤ key a) := ⟨fun a b c hab hbc => hbc.trans hab⟩
    exact List.pairwise_insertionSort _ _
  have hnodup : ((rowsBelow key keep pos rows).map key).Nodup := by
    have hperm := (List.perm_insertionSort (fun a b : α => key b ≤ key a)
      (rows.filter fun r => keep r && pos.all fun p => decide (key r < p))).map key
    rw [rowsBelow, hperm.nodup_iff]
    exact hkeys.sublist (List.filter_sublist.map key)
  rw [List.Nodup, List.pairwise_map] at hnodup
  apply (hsorted.and hnodup).imp
  intro a b hab
  exact lt_of_le_of_ne hab.1 (Ne.symm hab.2)

/-- Where a page of at least one row ends, or where it would have begun. -/
def pageEnd (key : α → κ) (pos : Option κ) (page : List α) : Option κ :=
  (page.getLast?.map key).or pos

private theorem lt_of_mem_drop {below : List α} {limit : Nat} {a b : α}
    (hbelow : below.Pairwise fun a b => key b < key a) (ha : a ∈ below.take limit)
    (hb : b ∈ below.drop limit) : key b < key a := by
  rw [← List.take_append_drop limit below, List.pairwise_append] at hbelow
  exact hbelow.2.2 a ha b hb

theorem getLast_le {page : List α} {last r : α}
    (hpage : page.Pairwise fun a b => key b < key a) (hlast : page.getLast? = some last)
    (hr : r ∈ page) : key last ≤ key r := by
  obtain ⟨before, rfl⟩ := List.getLast?_eq_some_iff.mp hlast
  rcases List.mem_append.mp hr with hbefore | hend
  · rw [List.pairwise_append] at hpage
    exact (hpage.2.2 r hbefore last (by simp)).le
  · rw [List.mem_singleton] at hend
    rw [hend]

theorem mem_rowsBelow_pageEnd (hkeys : (rows.map key).Nodup) {limit : Nat} (hlimit : 0 < limit)
    {r : α} :
    r ∈ rowsBelow key keep (pageEnd key pos ((rowsBelow key keep pos rows).take limit)) rows ↔
      r ∈ (rowsBelow key keep pos rows).drop limit := by
  have hpairwise : (rowsBelow key keep pos rows).Pairwise fun a b => key b < key a :=
    rowsBelow_pairwise hkeys
  have hpage := hpairwise.sublist (List.take_sublist limit _)
  cases hlast : ((rowsBelow key keep pos rows).take limit).getLast? with
  | none =>
    have hnil : rowsBelow key keep pos rows = [] := by
      have htake := List.getLast?_eq_none_iff.mp hlast
      rcases List.take_eq_nil_iff.mp htake with hzero | hnil
      · omega
      · exact hnil
    simp [pageEnd, hnil]
  | some last =>
    have hmem : last ∈ (rowsBelow key keep pos rows).take limit := List.mem_of_getLast? hlast
    have hlast' := mem_rowsBelow.mp (List.mem_of_mem_take hmem)
    simp only [pageEnd, hlast, Option.map_some, Option.some_or]
    constructor
    · intro hr
      obtain ⟨hrow, hkeep, hlt⟩ := mem_rowsBelow.mp hr
      have hlt := hlt (key last) rfl
      have hbelow : r ∈ rowsBelow key keep pos rows :=
        mem_rowsBelow.mpr ⟨hrow, hkeep, fun p hp => hlt.trans (hlast'.2.2 p hp)⟩
      rw [← List.take_append_drop limit (rowsBelow key keep pos rows), List.mem_append] at hbelow
      rcases hbelow with htake | hdrop
      · exact absurd hlt (not_lt.mpr (getLast_le hpage hlast htake))
      · exact hdrop
    · intro hr
      obtain ⟨hrow, hkeep, -⟩ := mem_rowsBelow.mp (List.mem_of_mem_drop hr)
      refine mem_rowsBelow.mpr ⟨hrow, hkeep, ?_⟩
      intro p hp
      cases hp
      exact lt_of_mem_drop hpairwise hmem hr

theorem length_le_iff_pageEnd (hkeys : (rows.map key).Nodup) {limit : Nat} (hlimit : 0 < limit) :
    (rowsBelow key keep pos rows).length ≤ limit ↔
      ∀ r ∈ rows, keep r = true →
        ¬ ∀ p, pageEnd key pos ((rowsBelow key keep pos rows).take limit) = some p → key r < p := by
  rw [← List.drop_eq_nil_iff, List.eq_nil_iff_forall_not_mem]
  constructor
  · intro hnil r hrow hkeep hlt
    exact hnil r ((mem_rowsBelow_pageEnd hkeys hlimit).mp (mem_rowsBelow.mpr ⟨hrow, hkeep, hlt⟩))
  · intro hnone r hr
    obtain ⟨hrow, hkeep, hlt⟩ := mem_rowsBelow.mp ((mem_rowsBelow_pageEnd hkeys hlimit).mpr hr)
    exact hnone r hrow hkeep hlt

end RowsBelow

/-- The rows there are, the position of the walk, the rows it has given, and whether it has come
to its end. -/
structure KeysetWalk (α κ : Type*) where
  rows : List α
  pos : Option κ
  seen : List α
  ended : Bool

namespace KeysetWalk

variable {key}

def start (rows : List α) : KeysetWalk α κ := ⟨rows, none, [], false⟩

def read (key : α → κ) (keep : α → Bool) (limit : Nat) (walk : KeysetWalk α κ) :
    KeysetWalk α κ :=
  { walk with
    pos := pageEnd key walk.pos ((rowsBelow key keep walk.pos walk.rows).take limit)
    seen := walk.seen ++ (rowsBelow key keep walk.pos walk.rows).take limit
    ended := decide ((rowsBelow key keep walk.pos walk.rows).length ≤ limit) }

def insert (row : α) (walk : KeysetWalk α κ) : KeysetWalk α κ :=
  { walk with rows := walk.rows ++ [row] }

/-- Rows are removed, and those that pass the test stay. -/
def remove (stays : α → Bool) (walk : KeysetWalk α κ) : KeysetWalk α κ :=
  { walk with rows := walk.rows.filter stays }

/-- The row comes after the position. -/
def Ahead (key : α → κ) (walk : KeysetWalk α κ) (r : α) : Prop :=
  ∀ p, walk.pos = some p → key r < p

/-- The rows given so far fall in key, and the position is not above any of them. -/
structure Falling (key : α → κ) (walk : KeysetWalk α κ) : Prop where
  keys : (walk.rows.map key).Nodup
  falling : walk.seen.Pairwise fun a b => key b < key a
  passed : ∀ r ∈ walk.seen, ∃ p, walk.pos = some p ∧ p ≤ key r

namespace Falling

variable {keep : α → Bool} {walk : KeysetWalk α κ}

theorem start {rows : List α} (hkeys : (rows.map key).Nodup) : Falling key (start rows) := by
  refine ⟨hkeys, List.Pairwise.nil, ?_⟩
  intro r hr
  cases hr

theorem insert (h : Falling key walk) {row : α}
    (hkeys : ((walk.rows ++ [row]).map key).Nodup) : Falling key (walk.insert row) :=
  ⟨hkeys, h.falling, h.passed⟩

theorem remove (h : Falling key walk) (stays : α → Bool) : Falling key (walk.remove stays) :=
  ⟨h.keys.sublist (List.filter_sublist.map key), h.falling, h.passed⟩

theorem page_pairwise (h : Falling key walk) (keep : α → Bool) (limit : Nat) :
    ((rowsBelow key keep walk.pos walk.rows).take limit).Pairwise fun a b => key b < key a :=
  (rowsBelow_pairwise h.keys).sublist (List.take_sublist limit _)

/-- A page lies below everything given before it. -/
theorem page_lt (h : Falling key walk) {limit : Nat} {a b : α} (ha : a ∈ walk.seen)
    (hb : b ∈ (rowsBelow key keep walk.pos walk.rows).take limit) : key b < key a := by
  obtain ⟨p, hp, hle⟩ := h.passed a ha
  obtain ⟨-, -, hlt⟩ := mem_rowsBelow.mp (List.mem_of_mem_take hb)
  exact (hlt p hp).trans_le hle

private theorem pageEnd_le (h : Falling key walk) {limit : Nat} {r : α}
    (hr : r ∈ walk.seen ++ (rowsBelow key keep walk.pos walk.rows).take limit) :
    ∃ p, pageEnd key walk.pos ((rowsBelow key keep walk.pos walk.rows).take limit) = some p ∧
      p ≤ key r := by
  have hpage := h.page_pairwise keep limit
  cases hlast : ((rowsBelow key keep walk.pos walk.rows).take limit).getLast? with
  | none =>
    rw [List.getLast?_eq_none_iff.mp hlast, List.append_nil] at hr
    simpa [pageEnd, hlast] using h.passed r hr
  | some last =>
    refine ⟨key last, by simp [pageEnd, hlast], ?_⟩
    rcases List.mem_append.mp hr with hseen | hnew
    · exact (h.page_lt hseen (List.mem_of_getLast? hlast)).le
    · exact getLast_le hpage hlast hnew

theorem read (h : Falling key walk) (keep : α → Bool) (limit : Nat) :
    Falling key (walk.read key keep limit) := by
  refine ⟨h.keys, ?_, fun _ => h.pageEnd_le⟩
  have hpage := h.page_pairwise keep limit
  exact List.pairwise_append.mpr ⟨h.falling, hpage, fun _ ha _ hb => h.page_lt ha hb⟩

end Falling

/-- A row that was there from the beginning and still is has been given, has been missed, or is
still to come. -/
structure Survives (key : α → κ) (missed : α → Prop) (initial : List α)
    (walk : KeysetWalk α κ) : Prop where
  falls : Falling key walk
  covered : ∀ r ∈ initial, r ∈ walk.rows →
    r ∈ walk.seen ∨ missed r ∨ walk.ended = false ∧ walk.Ahead key r

namespace Survives

variable {missed missed' : α → Prop} {initial : List α} {walk : KeysetWalk α κ}

theorem start (missed : α → Prop) {rows : List α} (hkeys : (rows.map key).Nodup) :
    Survives key missed rows (start rows) := by
  refine ⟨.start hkeys, ?_⟩
  intro r _ _
  refine Or.inr (Or.inr ⟨rfl, ?_⟩)
  intro p hp
  cases hp

theorem insert (h : Survives key missed initial walk) {row : α} (hfresh : row ∉ initial)
    (hkeys : ((walk.rows ++ [row]).map key).Nodup) :
    Survives key missed initial (walk.insert row) := by
  refine ⟨h.falls.insert hkeys, ?_⟩
  intro r hr hrow
  rcases List.mem_append.mp hrow with hold | hnew
  · exact h.covered r hr hold
  · exact absurd (List.mem_singleton.mp hnew ▸ hr) hfresh

theorem remove (h : Survives key missed initial walk) (stays : α → Bool) :
    Survives key missed initial (walk.remove stays) :=
  ⟨h.falls.remove stays, fun r hr hrow => h.covered r hr (List.mem_of_mem_filter hrow)⟩

/-- A read misses the rows that its filter drops and that it does not leave ahead. -/
theorem read (h : Survives key missed initial walk) {keep : α → Bool} {limit : Nat}
    (hlimit : 0 < limit) (hmissed : ∀ r, missed r → missed' r)
    (hdropped : ∀ r, keep r = false → walk.Ahead key r →
      (walk.read key keep limit).ended = true ∨ ¬(walk.read key keep limit).Ahead key r →
        missed' r) :
    Survives key missed' initial (walk.read key keep limit) := by
  refine ⟨h.falls.read keep limit, ?_⟩
  intro r hr hrow
  rcases h.covered r hr hrow with hseen | hbefore | ⟨-, hahead⟩
  · exact Or.inl (List.mem_append_left _ hseen)
  · exact Or.inr (Or.inl (hmissed r hbefore))
  by_cases hkeep : keep r = true
  · have hbelow : r ∈ rowsBelow key keep walk.pos walk.rows :=
      mem_rowsBelow.mpr ⟨hrow, hkeep, hahead⟩
    rw [← List.take_append_drop limit (rowsBelow key keep walk.pos walk.rows),
      List.mem_append] at hbelow
    rcases hbelow with htake | hdrop
    · exact Or.inl (List.mem_append_right _ htake)
    · have hmore : ¬(rowsBelow key keep walk.pos walk.rows).length ≤ limit := by
        rw [← List.drop_eq_nil_iff]
        exact List.ne_nil_of_mem hdrop
      obtain ⟨-, -, hend⟩ :=
        mem_rowsBelow.mp ((mem_rowsBelow_pageEnd h.falls.keys hlimit).mpr hdrop)
      exact Or.inr (Or.inr ⟨by simp [KeysetWalk.read, hmore], hend⟩)
  · by_cases hleft : (walk.read key keep limit).ended = false ∧
        (walk.read key keep limit).Ahead key r
    · exact Or.inr (Or.inr hleft)
    · refine Or.inr (Or.inl (hdropped r (Bool.eq_false_iff.mpr hkeep) hahead ?_))
      cases hended : (walk.read key keep limit).ended with
      | true => exact Or.inl rfl
      | false => exact Or.inr fun hafter => hleft ⟨hended, hafter⟩

end Survives

/-- The rows given so far fall in key and pass the filter, and a row that was there from the
beginning and passes it has been given or is still to come. -/
structure Sound (key : α → κ) (keep : α → Bool) (initial : List α) (walk : KeysetWalk α κ) :
    Prop where
  keys : (walk.rows.map key).Nodup
  falling : walk.seen.Pairwise fun a b => key b < key a
  kept : ∀ r ∈ walk.seen, keep r = true
  stored : ∀ r ∈ walk.seen, r ∈ walk.rows
  passed : ∀ r ∈ walk.seen, ∃ p, walk.pos = some p ∧ p ≤ key r
  grows : initial ⊆ walk.rows
  covered : ∀ r ∈ initial, keep r = true → r ∈ walk.seen ∨
    walk.ended = false ∧ ∀ p, walk.pos = some p → key r < p

namespace Sound

variable {keep : α → Bool} {initial : List α} {walk : KeysetWalk α κ}

theorem start (keep : α → Bool) {rows : List α} (hkeys : (rows.map key).Nodup) :
    Sound key keep rows (start rows) := by
  refine ⟨hkeys, List.Pairwise.nil, ?_, ?_, ?_, List.Subset.refl _, ?_⟩
  · intro r hr
    cases hr
  · intro r hr
    cases hr
  · intro r hr
    cases hr
  · intro r _ _
    exact Or.inr ⟨rfl, fun p hp => nomatch hp⟩

theorem insert (h : Sound key keep initial walk) {row : α}
    (hkeys : ((walk.rows ++ [row]).map key).Nodup) : Sound key keep initial (walk.insert row) := by
  refine ⟨hkeys, h.falling, h.kept, ?_, h.passed, ?_, h.covered⟩
  · intro r hr
    exact List.mem_append_left _ (h.stored r hr)
  · exact List.subset_append_of_subset_left _ h.grows

theorem falls (h : Sound key keep initial walk) : Falling key walk :=
  ⟨h.keys, h.falling, h.passed⟩

theorem read (h : Sound key keep initial walk) {limit : Nat}
    (hlimit : 0 < limit) : Sound key keep initial (walk.read key keep limit) := by
  have hread := h.falls.read keep limit
  refine ⟨h.keys, hread.falling, ?_, ?_, hread.passed, h.grows, ?_⟩
  · intro r hr
    rcases List.mem_append.mp hr with hseen | hnew
    · exact h.kept r hseen
    · exact (mem_rowsBelow.mp (List.mem_of_mem_take hnew)).2.1
  · intro r hr
    rcases List.mem_append.mp hr with hseen | hnew
    · exact h.stored r hseen
    · exact (mem_rowsBelow.mp (List.mem_of_mem_take hnew)).1
  · intro r hr hkeep
    rcases h.covered r hr hkeep with hseen | ⟨-, hlt⟩
    · exact Or.inl (List.mem_append_left _ hseen)
    · have hbelow : r ∈ rowsBelow key keep walk.pos walk.rows :=
        mem_rowsBelow.mpr ⟨h.grows hr, hkeep, hlt⟩
      rw [← List.take_append_drop limit (rowsBelow key keep walk.pos walk.rows),
        List.mem_append] at hbelow
      rcases hbelow with htake | hdrop
      · exact Or.inl (List.mem_append_right _ htake)
      · have hmore : ¬ (rowsBelow key keep walk.pos walk.rows).length ≤ limit := by
          rw [← List.drop_eq_nil_iff]
          exact List.ne_nil_of_mem hdrop
        obtain ⟨-, -, hend⟩ := mem_rowsBelow.mp ((mem_rowsBelow_pageEnd h.keys hlimit).mpr hdrop)
        exact Or.inr ⟨by simp [KeysetWalk.read, hmore], hend⟩

end Sound

end KeysetWalk

end Geofence.Framework
