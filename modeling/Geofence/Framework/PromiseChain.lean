import Mathlib.Algebra.GroupWithZero.Nat
import Mathlib.Data.List.Basic
import Mathlib.Logic.Function.Basic
import Mathlib.Tactic.Common
/-!
# Keyed promise chains

Tasks are appended to a chain per key: a new task runs after the tail registered for its key,
and its own tail is registered in its place. A tail settles some time after its task has
finished, however the task ended, and a cleanup callback then removes the registration if it is
still its own. Callbacks run in any order. Tasks are numbered as they are appended.
-/

namespace Geofence.Framework

/-- `finished`: the task's promise has settled; `settled`: its tail has too; `cleaned`: the
cleanup callback has run. -/
inductive TaskPhase where
  | waiting
  | running
  | finished
  | settled
  | cleaned
  deriving DecidableEq, Repr

def TaskPhase.tailSettled : TaskPhase → Bool
  | .settled | .cleaned => true
  | _ => false

/-- `prev` is the tail the task was chained to, if one was registered. -/
structure ChainTask (κ π : Type*) where
  key : κ
  payload : π
  prev : Option Nat
  phase : TaskPhase

/-- `started` lists the tasks in the order they started. -/
structure PromiseChains (κ π : Type*) where
  tasks : List (ChainTask κ π)
  tail : κ → Option Nat
  started : List Nat

namespace PromiseChains

variable {κ π : Type*}

def empty : PromiseChains κ π := ⟨[], fun _ => none, []⟩

def key? (c : PromiseChains κ π) (id : Nat) : Option κ := (c.tasks[id]?).map (·.key)

def phase? (c : PromiseChains κ π) (id : Nat) : Option TaskPhase := (c.tasks[id]?).map (·.phase)

def prev? (c : PromiseChains κ π) (id : Nat) : Option Nat := (c.tasks[id]?).bind (·.prev)

def settled (c : PromiseChains κ π) (id : Nat) : Bool := (c.phase? id).any TaskPhase.tailSettled

/-- The promise a waiting task is chained to has settled. -/
def ready (c : PromiseChains κ π) (id : Nat) : Bool := (c.prev? id).all c.settled

def setPhase (c : PromiseChains κ π) (id : Nat) (phase : TaskPhase) : PromiseChains κ π :=
  { c with tasks := c.tasks.modify id fun task => { task with phase } }

def start? (c : PromiseChains κ π) (id : Nat) : Option (PromiseChains κ π) :=
  if c.phase? id = some .waiting ∧ c.ready id = true then
    some { c.setPhase id .running with started := c.started ++ [id] }
  else none

def finish? (c : PromiseChains κ π) (id : Nat) : Option (PromiseChains κ π) :=
  if c.phase? id = some .running then some (c.setPhase id .finished) else none

def settle? (c : PromiseChains κ π) (id : Nat) : Option (PromiseChains κ π) :=
  if c.phase? id = some .finished then some (c.setPhase id .settled) else none

section Keyed

variable [DecidableEq κ]

def append (c : PromiseChains κ π) (key : κ) (payload : π) : PromiseChains κ π where
  tasks := c.tasks ++ [⟨key, payload, c.tail key, .waiting⟩]
  tail := Function.update c.tail key (some c.tasks.length)
  started := c.started

/-- The registration goes only if it still is this task's tail. -/
def cleanup? (c : PromiseChains κ π) (id : Nat) : Option (PromiseChains κ π) :=
  match c.phase? id, c.key? id with
  | some .settled, some key =>
    some { c.setPhase id .cleaned with
      tail := if c.tail key = some id then Function.update c.tail key none else c.tail }
  | _, _ => none

end Keyed

theorem key?_setPhase (c : PromiseChains κ π) (id : Nat) (phase : TaskPhase) (j : Nat) :
    (c.setPhase id phase).key? j = c.key? j := by
  simp only [key?, setPhase, List.getElem?_modify]
  cases c.tasks[j]? with
  | none => rfl
  | some task => by_cases h : id = j <;> simp [h]

theorem prev?_setPhase (c : PromiseChains κ π) (id : Nat) (phase : TaskPhase) (j : Nat) :
    (c.setPhase id phase).prev? j = c.prev? j := by
  simp only [prev?, setPhase, List.getElem?_modify]
  cases c.tasks[j]? with
  | none => rfl
  | some task => by_cases h : id = j <;> simp [h]

theorem phase?_setPhase_of_ne (c : PromiseChains κ π) {id j : Nat} (hne : j ≠ id)
    (phase : TaskPhase) : (c.setPhase id phase).phase? j = c.phase? j := by
  simp only [phase?, setPhase, List.getElem?_modify]
  cases c.tasks[j]? with
  | none => rfl
  | some task => simp [Ne.symm hne]

theorem phase?_setPhase_self (c : PromiseChains κ π) {id : Nat} {old : TaskPhase}
    (h : c.phase? id = some old) (phase : TaskPhase) :
    (c.setPhase id phase).phase? id = some phase := by
  simp only [phase?, setPhase, List.getElem?_modify] at h ⊢
  cases htask : c.tasks[id]? with
  | none => simp [htask] at h
  | some task => simp

theorem key?_append_of_lt [DecidableEq κ] (c : PromiseChains κ π) (key : κ) (payload : π) {j : Nat}
    (hj : j < c.tasks.length) : (c.append key payload).key? j = c.key? j := by
  rw [key?, append, List.getElem?_append_left hj, key?]

theorem phase?_append_of_lt [DecidableEq κ] (c : PromiseChains κ π) (key : κ) (payload : π)
    {j : Nat} (hj : j < c.tasks.length) : (c.append key payload).phase? j = c.phase? j := by
  rw [phase?, append, List.getElem?_append_left hj, phase?]

theorem prev?_append_of_lt [DecidableEq κ] (c : PromiseChains κ π) (key : κ) (payload : π)
    {j : Nat} (hj : j < c.tasks.length) : (c.append key payload).prev? j = c.prev? j := by
  rw [prev?, append, List.getElem?_append_left hj, prev?]

theorem append_new [DecidableEq κ] (c : PromiseChains κ π) (key : κ) (payload : π) :
    (c.append key payload).key? c.tasks.length = some key ∧
      (c.append key payload).phase? c.tasks.length = some .waiting ∧
      (c.append key payload).prev? c.tasks.length = c.tail key := by
  simp [key?, phase?, prev?, append]

theorem length_append [DecidableEq κ] (c : PromiseChains κ π) (key : κ) (payload : π) :
    (c.append key payload).tasks.length = c.tasks.length + 1 := by
  rw [append, List.length_append, List.length_singleton]

theorem lt_length_of_key? {c : PromiseChains κ π} {id : Nat} {key : κ}
    (h : c.key? id = some key) : id < c.tasks.length := by
  obtain ⟨task, htask, -⟩ := Option.map_eq_some_iff.mp h
  exact (List.getElem?_eq_some_iff.mp htask).1

theorem lt_length_of_phase? {c : PromiseChains κ π} {id : Nat} {phase : TaskPhase}
    (h : c.phase? id = some phase) : id < c.tasks.length := by
  obtain ⟨task, htask, -⟩ := Option.map_eq_some_iff.mp h
  exact (List.getElem?_eq_some_iff.mp htask).1

theorem settled_eq_true {c : PromiseChains κ π} {id : Nat} :
    c.settled id = true ↔ c.phase? id = some .settled ∨ c.phase? id = some .cleaned := by
  unfold settled
  cases c.phase? id with
  | none => simp
  | some phase => cases phase <;> simp [TaskPhase.tailSettled]

/-- A key's tasks are chained in the order they were appended: a task under way comes after
settled ones only, and a waiting task is chained to the one right before it, or to none. -/
structure Chained (c : PromiseChains κ π) : Prop where
  after_settled : ∀ j id phase, j < id → c.key? j = c.key? id → c.phase? id = some phase →
    phase ≠ .waiting → c.settled j = true
  unlinked : ∀ j id, j < id → c.key? j = c.key? id → c.phase? id = some .waiting →
    c.prev? id = none → c.settled j = true
  linked : ∀ id t, c.phase? id = some .waiting → c.prev? id = some t →
    t < id ∧ c.key? t = c.key? id ∧ ∀ j, t < j → j < id → c.key? j ≠ c.key? id

/-- `started` lists every task under way or over once, a key's tasks in their order. -/
structure StartedInOrder (c : PromiseChains κ π) : Prop where
  mem : ∀ id, id ∈ c.started ↔ ∃ phase, c.phase? id = some phase ∧ phase ≠ .waiting
  nodup : c.started.Nodup
  sorted : c.started.Pairwise fun i j => c.key? i = c.key? j → i < j

/-- The registration of a key is the tail of its last task, until that tail is cleaned up. -/
def TailIsLast (c : PromiseChains κ π) : Prop :=
  ∀ key t, c.tail key = some t ↔
    c.key? t = some key ∧ c.phase? t ≠ some .cleaned ∧ ∀ j, t < j → c.key? j ≠ some key

/-- What every operation on the chains keeps. -/
structure Ordered (c : PromiseChains κ π) : Prop where
  chained : Chained c
  started : StartedInOrder c
  tail : TailIsLast c

namespace Chained

variable {c c' : PromiseChains κ π}

theorem congr (h : Chained c) (htasks : c'.tasks = c.tasks) : Chained c' := by
  have hkey : c'.key? = c.key? := by funext j; rw [key?, htasks, key?]
  have hphase : c'.phase? = c.phase? := by funext j; rw [phase?, htasks, phase?]
  have hprev : c'.prev? = c.prev? := by funext j; rw [prev?, htasks, prev?]
  have hsettled : c'.settled = c.settled := by funext j; rw [settled, hphase, settled]
  constructor
  · rw [hkey, hphase, hsettled]
    exact h.after_settled
  · rw [hkey, hphase, hprev, hsettled]
    exact h.unlinked
  · rw [hkey, hphase, hprev]
    exact h.linked

theorem settled_of_ready (h : Chained c) {j id : Nat} (hj : j < id) (hkey : c.key? j = c.key? id)
    (hwaiting : c.phase? id = some .waiting) (hready : c.ready id = true) :
    c.settled j = true := by
  cases hprev : c.prev? id with
  | none => exact h.unlinked j id hj hkey hwaiting hprev
  | some t =>
    obtain ⟨htid, htkey, hbetween⟩ := h.linked id t hwaiting hprev
    have ht : c.settled t = true := by simpa [ready, hprev] using hready
    rcases Nat.lt_trichotomy j t with hlt | rfl | hgt
    · obtain hp | hp := settled_eq_true.mp ht
      · exact h.after_settled j t _ hlt (hkey.trans htkey.symm) hp (by decide)
      · exact h.after_settled j t _ hlt (hkey.trans htkey.symm) hp (by decide)
    · exact ht
    · exact absurd hkey (hbetween j hgt hj)

/-- A waiting task is ready exactly when the earlier tasks of its key have settled. -/
theorem ready_iff (h : Chained c) {id : Nat} (hwaiting : c.phase? id = some .waiting) :
    c.ready id = true ↔ ∀ j, j < id → c.key? j = c.key? id → c.settled j = true := by
  constructor
  · exact fun hready j hj hkey => h.settled_of_ready hj hkey hwaiting hready
  · intro hall
    unfold ready
    cases hprev : c.prev? id with
    | none => rfl
    | some t =>
      obtain ⟨htid, htkey, -⟩ := h.linked id t hwaiting hprev
      exact hall t htid htkey

/-- Two tasks of one key are not both under way. -/
theorem eq_of_unsettled (h : Chained c) {i j : Nat} {p q : TaskPhase}
    (hkey : c.key? i = c.key? j) (hi : c.phase? i = some p) (hj : c.phase? j = some q)
    (hp : p ≠ .waiting) (hq : q ≠ .waiting) (hip : p.tailSettled = false)
    (hjq : q.tailSettled = false) : i = j := by
  rcases Nat.lt_trichotomy i j with hlt | heq | hgt
  · have hs := h.after_settled i j q hlt hkey hj hq
    simp [settled, hi, hip] at hs
  · exact heq
  · have hs := h.after_settled j i p hgt hkey.symm hi hp
    simp [settled, hj, hjq] at hs

theorem setPhase (h : Chained c) {id : Nat} {old new : TaskPhase} (hold : c.phase? id = some old)
    (hn : new ≠ .waiting) (hmono : old.tailSettled = true → new.tailSettled = true)
    (hafter : ∀ j, j < id → c.key? j = c.key? id → c.settled j = true) :
    Chained (c.setPhase id new) := by
  have hself := c.phase?_setPhase_self hold new
  have hother : ∀ j, j ≠ id → (c.setPhase id new).phase? j = c.phase? j :=
    fun j hj => c.phase?_setPhase_of_ne hj new
  have hkeep : ∀ j, c.settled j = true → (c.setPhase id new).settled j = true := by
    intro j hj
    by_cases hid : j = id
    · subst hid
      simp only [settled, hold, hself, Option.any_some] at hj ⊢
      exact hmono hj
    · simpa only [settled, hother j hid] using hj
  have hwaiting : ∀ j, (c.setPhase id new).phase? j = some .waiting →
      c.phase? j = some .waiting := by
    intro j hj
    by_cases hid : j = id
    · subst hid
      rw [hself] at hj
      exact absurd (Option.some.inj hj) hn
    · rwa [hother j hid] at hj
  constructor
  · intro j i phase hj hkey hphase hp
    rw [key?_setPhase, key?_setPhase] at hkey
    apply hkeep
    by_cases hid : i = id
    · subst hid
      exact hafter j hj hkey
    · rw [hother i hid] at hphase
      exact h.after_settled j i phase hj hkey hphase hp
  · intro j i hj hkey hphase hprev
    rw [key?_setPhase, key?_setPhase] at hkey
    rw [prev?_setPhase] at hprev
    exact hkeep j (h.unlinked j i hj hkey (hwaiting i hphase) hprev)
  · intro i t hphase hprev
    rw [prev?_setPhase] at hprev
    simp only [key?_setPhase]
    exact h.linked i t (hwaiting i hphase) hprev

end Chained

theorem exists_last (c : PromiseChains κ π) {key : κ} {j : Nat} (hj : c.key? j = some key) :
    ∃ t, j ≤ t ∧ c.key? t = some key ∧ ∀ i, t < i → c.key? i ≠ some key := by
  induction hn : c.tasks.length - j using Nat.strongRecOn generalizing j with
  | _ n ih =>
    by_cases hlast : ∀ i, j < i → c.key? i ≠ some key
    · exact ⟨j, Nat.le_refl j, hj, hlast⟩
    · push Not at hlast
      obtain ⟨i, hji, hi⟩ := hlast
      have hilt := lt_length_of_key? hi
      obtain ⟨t, hit, ht, hrest⟩ := ih (c.tasks.length - i) (by omega) hi rfl
      exact ⟨t, by omega, ht, hrest⟩

namespace Ordered

variable {c c' : PromiseChains κ π} {id : Nat}

theorem empty : Ordered (empty : PromiseChains κ π) := by
  refine ⟨⟨?_, ?_, ?_⟩, ⟨?_, ?_, ?_⟩, ?_⟩ <;> simp [PromiseChains.empty, TailIsLast, phase?, key?]

private theorem tail_setPhase (h : TailIsLast c) {old new : TaskPhase}
    (hold : c.phase? id = some old) (ho : old ≠ .cleaned) (hn : new ≠ .cleaned) :
    TailIsLast (c.setPhase id new) := by
  intro key t
  change c.tail key = some t ↔ _
  rw [h key t]
  simp only [key?_setPhase]
  by_cases hid : t = id
  · subst hid
    rw [hold, c.phase?_setPhase_self hold]
    simp [ho, hn]
  · rw [c.phase?_setPhase_of_ne hid]

private theorem started_setPhase (h : StartedInOrder c) {old new : TaskPhase}
    (hold : c.phase? id = some old) (ho : old ≠ .waiting) (hn : new ≠ .waiting) :
    StartedInOrder (c.setPhase id new) := by
  refine ⟨?_, h.nodup, ?_⟩
  · intro i
    change i ∈ c.started ↔ _
    rw [h.mem]
    by_cases hid : i = id
    · subst hid
      rw [hold, c.phase?_setPhase_self hold]
      simp [ho, hn]
    · rw [c.phase?_setPhase_of_ne hid]
  · simp only [key?_setPhase]
    exact h.sorted

theorem advance (h : Ordered c) {old new : TaskPhase} (hold : c.phase? id = some old)
    (ho : old ≠ .waiting) (hn : new ≠ .waiting) (hc : old ≠ .cleaned) (hc' : new ≠ .cleaned)
    (hmono : old.tailSettled = true → new.tailSettled = true) : Ordered (c.setPhase id new) where
  chained := h.chained.setPhase hold hn hmono fun j hj hkey =>
    h.chained.after_settled j id old hj hkey hold ho
  started := started_setPhase h.started hold ho hn
  tail := tail_setPhase h.tail hold hc hc'

theorem start (h : Ordered c) (hstart : c.start? id = some c') : Ordered c' := by
  unfold start? at hstart
  split at hstart
  · rename_i hcond
    obtain ⟨hwait, hready⟩ := hcond
    cases hstart
    have hchained : Chained (c.setPhase id .running) :=
      h.chained.setPhase hwait (by decide) (by decide) fun j hj hkey =>
        h.chained.settled_of_ready hj hkey hwait hready
    have hfresh : id ∉ c.started := by
      rw [h.started.mem, hwait]
      simp
    refine ⟨hchained.congr rfl, ⟨?_, ?_, ?_⟩, tail_setPhase h.tail hwait (by decide) (by decide)⟩
    · intro i
      change i ∈ c.started ++ [id] ↔ ∃ phase, (c.setPhase id .running).phase? i = some phase ∧ _
      rw [List.mem_append, h.started.mem, List.mem_singleton]
      by_cases hid : i = id
      · subst hid
        rw [c.phase?_setPhase_self hwait]
        simp
      · rw [c.phase?_setPhase_of_ne hid]
        simp [hid]
    · rw [List.nodup_append]
      refine ⟨h.started.nodup, by simp, ?_⟩
      rintro i hi j hj rfl
      rw [List.mem_singleton] at hj
      exact hfresh (hj ▸ hi)
    · change (c.started ++ [id]).Pairwise fun i j =>
        (c.setPhase id .running).key? i = (c.setPhase id .running).key? j → i < j
      simp only [key?_setPhase]
      rw [List.pairwise_append]
      refine ⟨h.started.sorted, by simp, ?_⟩
      intro i hi j hj hkey
      rw [List.mem_singleton] at hj
      subst hj
      obtain ⟨phase, hphase, hp⟩ := (h.started.mem i).mp hi
      rcases Nat.lt_trichotomy i j with hlt | rfl | hgt
      · exact hlt
      · exact absurd hi hfresh
      · have hs := h.chained.after_settled j i phase hgt hkey.symm hphase hp
        simp [settled, hwait, TaskPhase.tailSettled] at hs
  · cases hstart

theorem finish (h : Ordered c) (hfinish : c.finish? id = some c') : Ordered c' := by
  unfold finish? at hfinish
  split at hfinish
  · rename_i hphase
    cases hfinish
    exact h.advance hphase (by decide) (by decide) (by decide) (by decide) (by decide)
  · cases hfinish

theorem settle (h : Ordered c) (hsettle : c.settle? id = some c') : Ordered c' := by
  unfold settle? at hsettle
  split at hsettle
  · rename_i hphase
    cases hsettle
    exact h.advance hphase (by decide) (by decide) (by decide) (by decide) (by decide)
  · cases hsettle

private theorem settled_of_tail_none (h : Ordered c) {key : κ} (htail : c.tail key = none) {j : Nat}
    (hj : c.key? j = some key) : c.settled j = true := by
  obtain ⟨t, hjt, ht, hlast⟩ := c.exists_last hj
  have hcleaned : c.phase? t = some .cleaned := by
    by_contra hne
    have hreg := (h.tail key t).mpr ⟨ht, hne, hlast⟩
    rw [htail] at hreg
    cases hreg
  rcases Nat.lt_or_ge j t with hlt | hge
  · exact h.chained.after_settled j t _ hlt (hj.trans ht.symm) hcleaned (by decide)
  · have heq : j = t := Nat.le_antisymm hjt hge
    rw [heq, settled_eq_true]
    exact Or.inr hcleaned

theorem tail_eq_none (h : Ordered c)
    (hall : ∀ j phase, c.phase? j = some phase → phase = .cleaned) (key : κ) :
    c.tail key = none := by
  cases htail : c.tail key with
  | none => rfl
  | some t =>
    obtain ⟨hkey, hphase, -⟩ := (h.tail key t).mp htail
    have hlt := lt_length_of_key? hkey
    have hsome : c.phase? t = some (c.tasks[t]).phase := by
      simp [phase?, List.getElem?_eq_getElem hlt]
    exact absurd (hall t _ hsome ▸ hsome) hphase

/-- A task of a key that has not settled keeps the last task of the key registered. -/
theorem tail_of_unsettled (h : Ordered c) {key : κ} (hkey : c.key? id = some key)
    (hunsettled : c.settled id = false) :
    ∃ t, c.tail key = some t ∧ c.key? t = some key ∧ ∀ j, t < j → c.key? j ≠ some key := by
  obtain ⟨t, hit, ht, hlast⟩ := c.exists_last hkey
  refine ⟨t, (h.tail key t).mpr ⟨ht, fun hcleaned => ?_, hlast⟩, ht, hlast⟩
  rcases Nat.lt_or_ge id t with hlt | hge
  · have hs := h.chained.after_settled id t _ hlt (hkey.trans ht.symm) hcleaned (by decide)
    rw [hunsettled] at hs
    cases hs
  · have heq : id = t := Nat.le_antisymm hit hge
    rw [heq, ← Bool.not_eq_true, settled_eq_true] at hunsettled
    exact hunsettled (Or.inr hcleaned)

variable [DecidableEq κ]

theorem cleanup (h : Ordered c) (hcleanup : c.cleanup? id = some c') : Ordered c' := by
  unfold cleanup? at hcleanup
  split at hcleanup
  · rename_i key hphase hkey
    cases hcleanup
    have hchained : Chained (c.setPhase id .cleaned) :=
      h.chained.setPhase hphase (by decide) (by decide) fun j hj hk =>
        h.chained.after_settled j id _ hj hk hphase (by decide)
    have hstarted := started_setPhase h.started hphase (by decide : TaskPhase.settled ≠ .waiting)
      (by decide : TaskPhase.cleaned ≠ .waiting)
    refine ⟨hchained.congr rfl, ⟨hstarted.mem, hstarted.nodup, hstarted.sorted⟩, ?_⟩
    intro k t
    change (if c.tail key = some id then Function.update c.tail key none else c.tail) k = some t ↔
      (c.setPhase id .cleaned).key? t = some k ∧
        (c.setPhase id .cleaned).phase? t ≠ some .cleaned ∧
        ∀ j, t < j → (c.setPhase id .cleaned).key? j ≠ some k
    simp only [key?_setPhase]
    by_cases ht : t = id
    · subst ht
      rw [c.phase?_setPhase_self hphase]
      simp only [ne_eq, not_true_eq_false, false_and, and_false, iff_false]
      split
      · rename_i hreg
        by_cases hk : k = key
        · subst hk
          simp
        · rw [Function.update_of_ne hk]
          intro hother
          have hkey' := ((h.tail k t).mp hother).1
          rw [hkey, Option.some.injEq] at hkey'
          exact hk hkey'.symm
      · rename_i hreg
        intro hother
        have hkey' := ((h.tail k t).mp hother).1
        rw [hkey, Option.some.injEq] at hkey'
        exact hreg (hkey' ▸ hother)
    · rw [c.phase?_setPhase_of_ne ht, ← h.tail k t]
      split
      · rename_i hreg
        by_cases hk : k = key
        · subst hk
          rw [Function.update_self, hreg]
          simp [Ne.symm ht]
        · rw [Function.update_of_ne hk]
      · rfl
  · cases hcleanup

private theorem phase_append_cases {key : κ} {payload : π} {i : Nat} {phase : TaskPhase}
    (hphase : (c.append key payload).phase? i = some phase) :
    (i < c.tasks.length ∧ c.phase? i = some phase) ∨ (i = c.tasks.length ∧ phase = .waiting) := by
  have hlt := lt_length_of_phase? hphase
  rw [length_append] at hlt
  rcases Nat.lt_or_eq_of_le (Nat.lt_succ_iff.mp hlt) with hi | rfl
  · exact Or.inl ⟨hi, c.phase?_append_of_lt key payload hi ▸ hphase⟩
  · rw [(c.append_new key payload).2.1] at hphase
    exact Or.inr ⟨rfl, (Option.some.inj hphase).symm⟩

private theorem append_chained (h : Ordered c) (key : κ) (payload : π) :
    Chained (c.append key payload) := by
  obtain ⟨hnewKey, hnewPhase, hnewPrev⟩ := c.append_new key payload
  have hsettled : ∀ j, j < c.tasks.length → c.settled j = true →
      (c.append key payload).settled j = true := by
    intro j hj hs
    rwa [settled, c.phase?_append_of_lt key payload hj]
  refine ⟨?_, ?_, ?_⟩
  · intro j i phase hj hkey hphase hp
    rcases phase_append_cases hphase with ⟨hi, hphase⟩ | ⟨-, rfl⟩
    · have hjlt : j < c.tasks.length := by omega
      rw [c.key?_append_of_lt key payload hjlt, c.key?_append_of_lt key payload hi] at hkey
      exact hsettled j hjlt (h.chained.after_settled j i phase hj hkey hphase hp)
    · exact absurd rfl hp
  · intro j i hj hkey hphase hprev
    rcases phase_append_cases hphase with ⟨hi, hphase⟩ | ⟨rfl, -⟩
    · have hjlt : j < c.tasks.length := by omega
      rw [c.key?_append_of_lt key payload hjlt, c.key?_append_of_lt key payload hi] at hkey
      rw [c.prev?_append_of_lt key payload hi] at hprev
      exact hsettled j hjlt (h.chained.unlinked j i hj hkey hphase hprev)
    · rw [c.key?_append_of_lt key payload hj, hnewKey] at hkey
      rw [hnewPrev] at hprev
      exact hsettled j hj (h.settled_of_tail_none hprev hkey)
  · intro i t hphase hprev
    rcases phase_append_cases hphase with ⟨hi, hphase⟩ | ⟨rfl, -⟩
    · rw [c.prev?_append_of_lt key payload hi] at hprev
      obtain ⟨hti, htkey, hbetween⟩ := h.chained.linked i t hphase hprev
      rw [c.key?_append_of_lt key payload hi,
        c.key?_append_of_lt key payload (Nat.lt_trans hti hi)]
      refine ⟨hti, htkey, fun j htj hji => ?_⟩
      rw [c.key?_append_of_lt key payload (Nat.lt_trans hji hi)]
      exact hbetween j htj hji
    · rw [hnewPrev] at hprev
      obtain ⟨htkey, -, hlast⟩ := (h.tail key t).mp hprev
      have htlt := lt_length_of_key? htkey
      rw [hnewKey, c.key?_append_of_lt key payload htlt]
      refine ⟨htlt, htkey, fun j htj hji => ?_⟩
      rw [c.key?_append_of_lt key payload hji]
      exact hlast j htj

private theorem append_started (h : Ordered c) (key : κ) (payload : π) :
    StartedInOrder (c.append key payload) := by
  refine ⟨?_, h.started.nodup, ?_⟩
  · intro i
    change i ∈ c.started ↔ _
    rw [h.started.mem]
    constructor
    · rintro ⟨phase, hphase, hp⟩
      exact ⟨phase, by rw [c.phase?_append_of_lt key payload (lt_length_of_phase? hphase), hphase], hp⟩
    · rintro ⟨phase, hphase, hp⟩
      rcases phase_append_cases hphase with ⟨-, hphase⟩ | ⟨-, rfl⟩
      · exact ⟨phase, hphase, hp⟩
      · exact absurd rfl hp
  · refine h.started.sorted.imp_of_mem fun hi hj himp hkey => himp ?_
    obtain ⟨p, hp, -⟩ := (h.started.mem _).mp hi
    obtain ⟨q, hq, -⟩ := (h.started.mem _).mp hj
    rwa [c.key?_append_of_lt key payload (lt_length_of_phase? hp),
      c.key?_append_of_lt key payload (lt_length_of_phase? hq)] at hkey

private theorem key_append_of_ne (c : PromiseChains κ π) {key k : κ} (hk : k ≠ key) (payload : π)
    (j : Nat) : (c.append key payload).key? j = some k ↔ c.key? j = some k := by
  constructor
  · intro hj
    have hlt := lt_length_of_key? hj
    rw [length_append] at hlt
    have hne : j ≠ c.tasks.length := by
      intro heq
      rw [heq, (c.append_new key payload).1] at hj
      exact hk (Option.some.inj hj).symm
    rwa [c.key?_append_of_lt key payload (by omega)] at hj
  · intro hj
    rwa [c.key?_append_of_lt key payload (lt_length_of_key? hj)]

private theorem append_tail (h : Ordered c) (key : κ) (payload : π) :
    TailIsLast (c.append key payload) := by
  obtain ⟨hnewKey, hnewPhase, -⟩ := c.append_new key payload
  intro k t
  change Function.update c.tail key (some c.tasks.length) k = some t ↔ _
  by_cases hk : k = key
  · subst hk
    rw [Function.update_self, Option.some.injEq]
    constructor
    · rintro rfl
      refine ⟨hnewKey, by rw [hnewPhase]; decide, fun j hj hkey => ?_⟩
      have hlt := lt_length_of_key? hkey
      rw [length_append] at hlt
      omega
    · rintro ⟨htkey, -, hlast⟩
      have hlt := lt_length_of_key? htkey
      rw [length_append] at hlt
      rcases Nat.lt_or_ge t c.tasks.length with htlt | hge
      · exact absurd hnewKey (hlast _ htlt)
      · omega
  · rw [Function.update_of_ne hk, h.tail k t]
    simp only [ne_eq, key_append_of_ne c hk payload]
    refine and_congr_right fun htkey => ?_
    rw [c.phase?_append_of_lt key payload (lt_length_of_key? htkey)]

theorem append (h : Ordered c) (key : κ) (payload : π) : Ordered (c.append key payload) :=
  ⟨h.append_chained key payload, h.append_started key payload, h.append_tail key payload⟩

omit [DecidableEq κ] in
theorem exists_first_unsettled (h : Ordered c) (hid : id < c.tasks.length)
    (hunsettled : c.settled id = false) :
    ∃ j phase, j ≤ id ∧ c.key? j = c.key? id ∧ c.phase? j = some phase ∧
      phase.tailSettled = false ∧ (phase = .waiting → (c.start? j).isSome = true) := by
  induction id using Nat.strongRecOn with
  | _ id ih =>
    obtain ⟨phase, hphase⟩ : ∃ phase, c.phase? id = some phase := by
      rw [phase?, List.getElem?_eq_getElem hid, Option.map_some]
      exact ⟨_, rfl⟩
    have hopen : phase.tailSettled = false := by simpa [settled, hphase] using hunsettled
    by_cases hready : phase = .waiting → c.ready id = true
    · refine ⟨id, phase, Nat.le_refl id, rfl, hphase, hopen, fun hwaiting => ?_⟩
      simp [start?, hphase, hwaiting, hready hwaiting]
    · push Not at hready
      obtain ⟨rfl, hnot⟩ := hready
      rw [Ne, h.chained.ready_iff hphase] at hnot
      push Not at hnot
      obtain ⟨j, hj, hkey, hbefore⟩ := hnot
      obtain ⟨i, phase, hle, hikey, hrest⟩ :=
        ih j hj (Nat.lt_trans hj hid) (by simpa using hbefore)
      exact ⟨i, phase, Nat.le_trans hle (Nat.le_of_lt hj), hikey.trans hkey, hrest⟩

/-- A task that is not cleaned up yet is not stuck: some task of its key can move. -/
theorem exists_enabled (h : Ordered c) {phase : TaskPhase} (hphase : c.phase? id = some phase)
    (hopen : phase ≠ .cleaned) :
    ∃ j, c.key? j = c.key? id ∧ ((c.start? j).isSome = true ∨ (c.finish? j).isSome = true ∨
      (c.settle? j).isSome = true ∨ (c.cleanup? j).isSome = true) := by
  by_cases hsettled : phase = .settled
  · subst hsettled
    obtain ⟨task, htask, -⟩ := Option.map_eq_some_iff.mp hphase
    have hkey : c.key? id = some task.key := by rw [key?, htask, Option.map_some]
    exact ⟨id, rfl, by simp [cleanup?, hphase, hkey]⟩
  · have hunsettled : c.settled id = false := by
      cases phase <;> simp_all [settled, TaskPhase.tailSettled]
    obtain ⟨j, p, -, hkey, hp, hnot, hstart⟩ :=
      h.exists_first_unsettled (lt_length_of_phase? hphase) hunsettled
    refine ⟨j, hkey, ?_⟩
    cases p with
    | waiting => exact Or.inl (hstart rfl)
    | running => exact Or.inr (Or.inl (by simp [finish?, hp]))
    | finished => exact Or.inr (Or.inr (Or.inl (by simp [settle?, hp])))
    | settled => cases hnot
    | cleaned => cases hnot

end Ordered

/-- The callbacks a task still has before it. -/
def phaseRemaining : TaskPhase → Nat
  | .waiting => 4
  | .running => 3
  | .finished => 2
  | .settled => 1
  | .cleaned => 0

def remaining (c : PromiseChains κ π) : Nat := (c.tasks.map (phaseRemaining ·.phase)).sum

private theorem sum_modify {α : Type*} {l : List α} {id : Nat} {a : α} (f : α → α) (g : α → Nat)
    (h : l[id]? = some a) : ((l.modify id f).map g).sum + g a = (l.map g).sum + g (f a) := by
  induction l generalizing id with
  | nil => simp at h
  | cons b l ih =>
    cases id with
    | zero =>
      simp only [List.getElem?_cons_zero, Option.some.injEq] at h
      subst h
      simp only [List.modify_zero_cons, List.map_cons, List.sum_cons]
      omega
    | succ id =>
      simp only [List.getElem?_cons_succ] at h
      have hrest := ih h
      simp only [List.modify_succ_cons, List.map_cons, List.sum_cons]
      omega

/-- A callback moves one task by one phase. -/
def Moved (c : PromiseChains κ π) (id : Nat) (c' : PromiseChains κ π) : Prop :=
  ∃ old new, c.phase? id = some old ∧ c'.tasks = (c.setPhase id new).tasks ∧
    phaseRemaining new + 1 = phaseRemaining old

section Moves

variable {c c' : PromiseChains κ π} {id : Nat}

theorem phase?_of_start (h : c.start? id = some c') :
    c.phase? id = some .waiting ∧ c'.phase? id = some .running := by
  unfold start? at h
  split at h
  · rename_i hcond
    cases h
    exact ⟨hcond.1, c.phase?_setPhase_self hcond.1 .running⟩
  · cases h

theorem phase?_of_finish (h : c.finish? id = some c') : c'.phase? id = some .finished := by
  unfold finish? at h
  split at h
  · rename_i hphase
    cases h
    exact c.phase?_setPhase_self hphase .finished
  · cases h

theorem phase?_of_settle (h : c.settle? id = some c') :
    c.phase? id = some .finished ∧ c'.phase? id = some .settled := by
  unfold settle? at h
  split at h
  · rename_i hphase
    cases h
    exact ⟨hphase, c.phase?_setPhase_self hphase .settled⟩
  · cases h

theorem phase?_of_cleanup [DecidableEq κ] (h : c.cleanup? id = some c') :
    c.phase? id = some .settled ∧ c'.phase? id = some .cleaned := by
  unfold cleanup? at h
  split at h
  · rename_i hphase hkey
    cases h
    exact ⟨hphase, c.phase?_setPhase_self hphase .cleaned⟩
  · cases h

theorem moved_of_start (h : c.start? id = some c') : c.Moved id c' := by
  unfold start? at h
  split at h
  · rename_i hcond
    cases h
    exact ⟨_, _, hcond.1, rfl, rfl⟩
  · cases h

theorem moved_of_finish (h : c.finish? id = some c') : c.Moved id c' := by
  unfold finish? at h
  split at h
  · rename_i hphase
    cases h
    exact ⟨_, _, hphase, rfl, rfl⟩
  · cases h

theorem moved_of_settle (h : c.settle? id = some c') : c.Moved id c' := by
  unfold settle? at h
  split at h
  · rename_i hphase
    cases h
    exact ⟨_, _, hphase, rfl, rfl⟩
  · cases h

theorem moved_of_cleanup [DecidableEq κ] (h : c.cleanup? id = some c') : c.Moved id c' := by
  unfold cleanup? at h
  split at h
  · rename_i hphase hkey
    cases h
    exact ⟨_, _, hphase, rfl, rfl⟩
  · cases h

theorem Moved.remaining (h : c.Moved id c') : c'.remaining + 1 = c.remaining := by
  obtain ⟨old, new, hold, htasks, hcount⟩ := h
  obtain ⟨task, htask, rfl⟩ := Option.map_eq_some_iff.mp hold
  have hsum := sum_modify (fun task => { task with phase := new }) (phaseRemaining ·.phase) htask
  rw [PromiseChains.remaining, htasks, PromiseChains.remaining]
  simp only [PromiseChains.setPhase] at hsum ⊢
  omega

theorem Moved.key? (h : c.Moved id c') (j : Nat) : c'.key? j = c.key? j := by
  obtain ⟨old, new, -, htasks, -⟩ := h
  rw [PromiseChains.key?, htasks]
  exact c.key?_setPhase id new j

theorem Moved.phase?_of_ne (h : c.Moved id c') {j : Nat} (hj : j ≠ id) :
    c'.phase? j = c.phase? j := by
  obtain ⟨old, new, -, htasks, -⟩ := h
  rw [PromiseChains.phase?, htasks]
  exact c.phase?_setPhase_of_ne hj new

theorem Moved.mem_started (h : c.Moved id c') (hc : c.Ordered) (hc' : c'.Ordered) {j : Nat}
    (hj : j ∈ c.started ∨ j = id) : j ∈ c'.started := by
  rw [hc'.started.mem]
  by_cases hid : j = id
  · subst hid
    obtain ⟨old, new, hold, htasks, hcount⟩ := h
    refine ⟨new, ?_, ?_⟩
    · rw [PromiseChains.phase?, htasks]
      exact c.phase?_setPhase_self hold new
    · rintro rfl
      cases old <;> simp [phaseRemaining] at hcount
  · rw [h.phase?_of_ne hid, ← hc.started.mem]
    exact hj.resolve_right hid

theorem Moved.settled (h : c.Moved id c') {j : Nat} (hj : c.settled j = true) :
    c'.settled j = true := by
  obtain ⟨old, new, hold, htasks, hcount⟩ := h
  have hphase : c'.phase? j = (c.setPhase id new).phase? j := by
    rw [PromiseChains.phase?, htasks, PromiseChains.phase?]
  rw [PromiseChains.settled, hphase]
  by_cases hid : j = id
  · subst hid
    rw [PromiseChains.settled, hold] at hj
    rw [c.phase?_setPhase_self hold]
    cases old <;> cases new <;> simp_all [phaseRemaining, TaskPhase.tailSettled]
  · rw [c.phase?_setPhase_of_ne hid]
    exact hj

theorem Moved.map_eq (h : c.Moved id c') {β : Type*} (f : κ → π → β) :
    c'.tasks.map (fun task => f task.key task.payload) =
      c.tasks.map (fun task => f task.key task.payload) := by
  obtain ⟨old, new, -, htasks, -⟩ := h
  rw [htasks]
  apply List.ext_getElem?
  intro i
  simp only [List.getElem?_map, PromiseChains.setPhase, List.getElem?_modify]
  cases c.tasks[i]? with
  | none => rfl
  | some t => by_cases hi : id = i <;> simp [hi]

end Moves

end PromiseChains

end Geofence.Framework
