import Geofence.Framework.PromiseChain
/-!
# The bodies of chained tasks

A task's body has a state of its own, idle before the task starts and over before it finishes.
The chain and the bodies move in step, and since a key's tasks run one at a time, so do their
bodies.
-/

namespace Geofence.Framework

namespace PromiseChains

variable {κ π β : Type*} {c c' : PromiseChains κ π} {body : Nat → β} {idle ended : β → Prop}

/-- A body leaves its idle state when its task starts, and is over when its task has finished. -/
structure Follows (c : PromiseChains κ π) (idle ended : β → Prop) (body : Nat → β) : Prop where
  ordered : c.Ordered
  waiting : ∀ id, id ∉ c.started → idle (body id)
  running : ∀ id, c.phase? id = some .running → ¬ idle (body id)
  ended : ∀ id phase, c.phase? id = some phase → phase ≠ .waiting → phase ≠ .running →
    ended (body id)

namespace Follows

theorem empty {initial : β} (hidle : idle initial) :
    Follows (PromiseChains.empty : PromiseChains κ π) idle ended fun _ => initial := by
  refine ⟨.empty, fun _ _ => hidle, ?_, ?_⟩
  · intro id hphase
    cases hphase
  · intro id phase hphase
    cases hphase

theorem lt_length (h : Follows c idle ended body) {id : Nat} (hbegun : ¬ idle (body id)) :
    id < c.tasks.length := by
  have hstarted : id ∈ c.started := by
    by_contra hout
    exact hbegun (h.waiting id hout)
  obtain ⟨phase, hphase, -⟩ := (h.ordered.started.mem id).mp hstarted
  exact lt_length_of_phase? hphase

theorem phase?_of_body (h : Follows c idle ended body) {id : Nat} (hbegun : ¬ idle (body id))
    (hopen : ¬ ended (body id)) : c.phase? id = some .running := by
  by_contra hnot
  have hstarted : id ∈ c.started := by
    by_contra hout
    exact hbegun (h.waiting id hout)
  obtain ⟨phase, hphase, hwaiting⟩ := (h.ordered.started.mem id).mp hstarted
  refine hopen (h.ended id phase hphase hwaiting ?_)
  rintro rfl
  exact hnot hphase

/-- At most one body of a key is at work. -/
theorem eq_of_bodies (h : Follows c idle ended body) {i j : Nat} (hkey : c.key? i = c.key? j)
    (hi : ¬ idle (body i)) (hi' : ¬ ended (body i)) (hj : ¬ idle (body j))
    (hj' : ¬ ended (body j)) : i = j :=
  h.ordered.chained.eq_of_unsettled hkey (h.phase?_of_body hi hi') (h.phase?_of_body hj hj')
    (by decide) (by decide) rfl rfl

theorem update (h : Follows c idle ended body) {id : Nat} {next : β} (hbegun : ¬ idle (body id))
    (hopen : ¬ ended (body id)) (hnext : ¬ idle next) :
    Follows c idle ended (Function.update body id next) := by
  have hrunning := h.phase?_of_body hbegun hopen
  refine ⟨h.ordered, ?_, ?_, ?_⟩
  · intro j hj
    by_cases hid : j = id
    · subst hid
      exact absurd ((h.ordered.started.mem j).mpr ⟨_, hrunning, by decide⟩) hj
    · rw [Function.update_of_ne hid]
      exact h.waiting j hj
  · intro j hphase
    by_cases hid : j = id
    · rw [hid, Function.update_self]
      exact hnext
    · rw [Function.update_of_ne hid]
      exact h.running j hphase
  · intro j phase hphase hwaiting hrun
    by_cases hid : j = id
    · subst hid
      rw [hrunning, Option.some.injEq] at hphase
      exact absurd hphase.symm hrun
    · rw [Function.update_of_ne hid]
      exact h.ended j phase hphase hwaiting hrun

theorem start (h : Follows c idle ended body) {id : Nat} {next : β} (hstart : c.start? id = some c')
    (hnext : ¬ idle next) : Follows c' idle ended (Function.update body id next) := by
  have hmoved := moved_of_start hstart
  have hordered := h.ordered.start hstart
  obtain ⟨-, hrunning⟩ := phase?_of_start hstart
  refine ⟨hordered, ?_, ?_, ?_⟩
  · intro j hj
    have hid : j ≠ id := by
      rintro rfl
      exact hj (hmoved.mem_started h.ordered hordered (Or.inr rfl))
    rw [Function.update_of_ne hid]
    exact h.waiting j fun hold => hj (hmoved.mem_started h.ordered hordered (Or.inl hold))
  · intro j hphase
    by_cases hid : j = id
    · rw [hid, Function.update_self]
      exact hnext
    · rw [Function.update_of_ne hid]
      rw [hmoved.phase?_of_ne hid] at hphase
      exact h.running j hphase
  · intro j phase hphase hwaiting hrun
    by_cases hid : j = id
    · subst hid
      rw [hrunning, Option.some.injEq] at hphase
      exact absurd hphase.symm hrun
    · rw [Function.update_of_ne hid]
      rw [hmoved.phase?_of_ne hid] at hphase
      exact h.ended j phase hphase hwaiting hrun

/-- A callback of a task whose body is over. -/
theorem moved (h : Follows c idle ended body) {id : Nat} (hmoved : c.Moved id c')
    (hordered : c'.Ordered) (hover : ended (body id)) (hrunning : c'.phase? id ≠ some .running) :
    Follows c' idle ended body := by
  refine ⟨hordered, ?_, ?_, ?_⟩
  · intro j hj
    exact h.waiting j fun hold => hj (hmoved.mem_started h.ordered hordered (Or.inl hold))
  · intro j hphase
    have hid : j ≠ id := by
      rintro rfl
      exact hrunning hphase
    rw [hmoved.phase?_of_ne hid] at hphase
    exact h.running j hphase
  · intro j phase hphase hwaiting hrun
    by_cases hid : j = id
    · exact hid ▸ hover
    · rw [hmoved.phase?_of_ne hid] at hphase
      exact h.ended j phase hphase hwaiting hrun

theorem finish (h : Follows c idle ended body) {id : Nat} (hfinish : c.finish? id = some c')
    (hover : ended (body id)) : Follows c' idle ended body := by
  apply h.moved (moved_of_finish hfinish) (h.ordered.finish hfinish) hover
  rw [phase?_of_finish hfinish]
  decide

theorem settle (h : Follows c idle ended body) {id : Nat} (hsettle : c.settle? id = some c') :
    Follows c' idle ended body := by
  obtain ⟨hfinished, hsettled⟩ := phase?_of_settle hsettle
  refine h.moved (moved_of_settle hsettle) (h.ordered.settle hsettle)
    (h.ended id _ hfinished (by decide) (by decide)) ?_
  rw [hsettled]
  decide

theorem cleanup [DecidableEq κ] (h : Follows c idle ended body) {id : Nat}
    (hcleanup : c.cleanup? id = some c') : Follows c' idle ended body := by
  obtain ⟨hsettled, hcleaned⟩ := phase?_of_cleanup hcleanup
  refine h.moved (moved_of_cleanup hcleanup) (h.ordered.cleanup hcleanup)
    (h.ended id _ hsettled (by decide) (by decide)) ?_
  rw [hcleaned]
  decide

theorem append [DecidableEq κ] (h : Follows c idle ended body) (key : κ) (payload : π) :
    Follows (c.append key payload) idle ended body := by
  have hordered := h.ordered.append key payload
  have hback : ∀ id phase, (c.append key payload).phase? id = some phase → phase ≠ .waiting →
      c.phase? id = some phase := by
    intro id phase hphase hwaiting
    have hmem : id ∈ c.started := (hordered.started.mem id).mpr ⟨phase, hphase, hwaiting⟩
    obtain ⟨p, hp, -⟩ := (h.ordered.started.mem id).mp hmem
    rwa [c.phase?_append_of_lt key payload (lt_length_of_phase? hp)] at hphase
  refine ⟨hordered, h.waiting, ?_, ?_⟩
  · intro id hphase
    exact h.running id (hback id _ hphase (by decide))
  · intro id phase hphase hwaiting hrun
    exact h.ended id phase (hback id phase hphase hwaiting) hwaiting hrun

end Follows

end PromiseChains

end Geofence.Framework
