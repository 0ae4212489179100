import Geofence.Framework.Machine
import Geofence.Framework.PromiseChain
import Geofence.Worker.Consumer
/-!
# Per-user chains

`handle` appends every parsed message to its user's promise chain. What a task does is left
open here: it may finish or throw at any time. The callbacks of settled promises run in any
order, so a cleanup may come before or after the next `handle` of its user.
-/

namespace Geofence

open Framework

/-- `userChains`, with the tasks behind its promises. -/
abbrev UserChains := PromiseChains UserId ConsumeMessage

namespace UserChains

def enqueue (chains : UserChains) (userId : UserId) (message : ConsumeMessage) : UserChains :=
  chains.append userId message

/-- A malformed message is settled on the spot and never reaches a chain. -/
def handle (chains : UserChains) (message : ConsumeMessage) : UserChains :=
  match message.content.parse with
  | none => chains
  | some event => chains.enqueue event.userId message

end UserChains

/-- `finish` is the end of a task, whether it returned or threw out of its own error handling;
the `catch` in the tail makes both the same. -/
inductive ChainAction where
  | handle (message : ConsumeMessage)
  | start (task : Nat)
  | finish (task : Nat) (thrown : Option String)
  | settle (task : Nat)
  | cleanup (task : Nat)

namespace UserChains

def step (chains : UserChains) : ChainAction → Option UserChains
  | .handle message => some (chains.handle message)
  | .start task => chains.start? task
  | .finish task _ => chains.finish? task
  | .settle task => chains.settle? task
  | .cleanup task => chains.cleanup? task

def machine : Machine UserChains ChainAction := ⟨step⟩

private theorem ordered_step {chains next : UserChains} {action : ChainAction} (h : chains.Ordered)
    (hstep : chains.step action = some next) : next.Ordered := by
  cases action with
  | handle message =>
    cases hstep
    unfold handle
    split
    · exact h
    · exact h.append _ _
  | start task => exact h.start hstep
  | finish task thrown => exact h.finish hstep
  | settle task => exact h.settle hstep
  | cleanup task => exact h.cleanup hstep

theorem ordered_of_run {actions : List ChainAction} {chains : UserChains}
    (hrun : machine.run .empty actions = some chains) : chains.Ordered :=
  machine.run_invariant (fun _ _ _ h hstep => ordered_step h hstep) .empty hrun

/-- The messages handed to `handle` that parse, with their users, in order. -/
def handled (actions : List ChainAction) : List (UserId × ConsumeMessage) :=
  actions.filterMap fun
    | .handle message => message.content.parse.map fun event => (event.userId, message)
    | _ => none

/-- The queue of tasks as it was handed over. -/
def queue (chains : UserChains) : List (UserId × ConsumeMessage) :=
  chains.tasks.map fun task => (task.key, task.payload)

/-- An action that is a callback or the end of a task, not a new message. -/
def isCallback : ChainAction → Bool
  | .handle _ => false
  | _ => true

theorem moved_of_step {chains next : UserChains} {action : ChainAction}
    (hcallback : isCallback action = true) (hstep : chains.step action = some next) :
    ∃ task, chains.Moved task next := by
  cases action with
  | handle message => cases hcallback
  | start task => exact ⟨task, PromiseChains.moved_of_start hstep⟩
  | finish task thrown => exact ⟨task, PromiseChains.moved_of_finish hstep⟩
  | settle task => exact ⟨task, PromiseChains.moved_of_settle hstep⟩
  | cleanup task => exact ⟨task, PromiseChains.moved_of_cleanup hstep⟩

private theorem queue_step {chains next : UserChains} {action : ChainAction}
    (hstep : chains.step action = some next) : next.queue = chains.queue ++ handled [action] := by
  cases hcallback : isCallback action with
  | true =>
    obtain ⟨task, hmoved⟩ := moved_of_step hcallback hstep
    have hnone : handled [action] = [] := by
      cases action with
      | handle message => cases hcallback
      | _ => rfl
    rw [hnone, List.append_nil]
    exact hmoved.map_eq Prod.mk
  | false =>
    cases action with
    | handle message =>
      cases hstep
      unfold handle
      cases hparse : message.content.parse with
      | none => simp [handled, hparse]
      | some event => simp [handled, hparse, queue, enqueue, PromiseChains.append]
    | _ => cases hcallback

private theorem queue_run {actions : List ChainAction} {chains next : UserChains}
    (hrun : machine.run chains actions = some next) :
    next.queue = chains.queue ++ handled actions := by
  induction actions generalizing chains with
  | nil =>
    cases hrun
    simp [handled]
  | cons action actions ih =>
    obtain ⟨mid, hmid, hrest⟩ := machine.run_cons_eq_some.mp hrun
    have hcons : handled (action :: actions) = handled [action] ++ handled actions := by
      rw [handled, handled, handled, ← List.filterMap_append, List.singleton_append]
    rw [ih hrest, queue_step hmid, List.append_assoc, hcons]

private theorem length_le_remaining {actions : List ChainAction} {chains next : UserChains}
    (hcallbacks : ∀ action ∈ actions, isCallback action = true)
    (hrun : machine.run chains actions = some next) :
    next.remaining + actions.length = chains.remaining := by
  induction actions generalizing chains with
  | nil =>
    cases hrun
    rfl
  | cons action actions ih =>
    obtain ⟨mid, hmid, hrest⟩ := machine.run_cons_eq_some.mp hrun
    obtain ⟨task, hmoved⟩ := moved_of_step (hcallbacks action (by simp)) hmid
    have hcount := hmoved.remaining
    have hlen := ih (fun a ha => hcallbacks a (List.mem_cons_of_mem action ha)) hrest
    rw [List.length_cons]
    omega

/-- The discipline of the chains in a state reached by `actions`. -/
structure Discipline (actions : List ChainAction) (chains : UserChains) : Prop where
  /-- At most one task of a user runs at a time. -/
  oneRunning : ∀ i j userId, chains.key? i = some userId → chains.key? j = some userId →
    chains.phase? i = some .running → chains.phase? j = some .running → i = j
  /-- The tasks are the parsed messages in the order of their `handle` calls, none dropped. -/
  queued : chains.queue = handled actions
  /-- A user's tasks start in the order they were handed over: none overtakes an earlier one. -/
  startOrder : chains.started.Pairwise fun i j => chains.key? i = chains.key? j → i < j
  noneSkipped : ∀ i j, i < j → chains.key? i = chains.key? j → j ∈ chains.started →
    i ∈ chains.started
  /-- No task starts twice, and only the tasks that have not started yet are waiting. -/
  startedOnce : chains.started.Nodup
  startedIff : ∀ task phase, chains.phase? task = some phase →
    (task ∈ chains.started ↔ phase ≠ .waiting)
  /-- No task is lost: until it is over and cleaned up, some callback of its own user can run,
  and only finitely many callbacks can run before that. -/
  progress : ∀ task phase, chains.phase? task = some phase → phase ≠ .cleaned →
    ∃ other, chains.key? other = chains.key? task ∧
      ((chains.step (.start other)).isSome = true ∨ (chains.step (.finish other none)).isSome = true ∨
        (chains.step (.settle other)).isSome = true ∨ (chains.step (.cleanup other)).isSome = true)
  bounded : ∀ more next, (∀ action ∈ more, isCallback action = true) →
    machine.run chains more = some next → more.length ≤ chains.remaining
  /-- A task can start exactly when the earlier tasks of its own user are over. -/
  startIff : ∀ task, (chains.step (.start task)).isSome = true ↔
    chains.phase? task = some .waiting ∧
      ∀ j, j < task → chains.key? j = chains.key? task → chains.settled j = true
  /-- A user with an unfinished task has an entry, every entry is the tail of the user's last
  task, and with nothing left to run the map is empty. -/
  entry : ∀ task userId, chains.key? task = some userId → chains.settled task = false →
    (chains.tail userId).isSome = true
  entryLast : ∀ userId task, chains.tail userId = some task →
    chains.key? task = some userId ∧ ∀ j, task < j → chains.key? j ≠ some userId
  drained : (∀ task phase, chains.phase? task = some phase → phase = .cleaned) →
    ∀ userId, chains.tail userId = none

theorem discipline_of_run (actions : List ChainAction) (chains : UserChains)
    (hrun : machine.run .empty actions = some chains) : Discipline actions chains := by
  have h : chains.Ordered := ordered_of_run hrun
  have hstarted : ∀ task phase, chains.phase? task = some phase →
      (task ∈ chains.started ↔ phase ≠ .waiting) := by
    intro task phase hphase
    rw [h.started.mem, hphase]
    simp
  constructor
  · intro i j userId hi hj hri hrj
    exact h.chained.eq_of_unsettled (hi.trans hj.symm) hri hrj (by decide) (by decide) rfl rfl
  · rw [queue_run hrun]
    rfl
  · exact h.started.sorted
  · intro i j hij hkey hj
    obtain ⟨phase, hphase, hp⟩ := (h.started.mem j).mp hj
    have hs := h.chained.after_settled i j phase hij hkey hphase hp
    rw [h.started.mem]
    rcases PromiseChains.settled_eq_true.mp hs with hi | hi
    · exact ⟨_, hi, by decide⟩
    · exact ⟨_, hi, by decide⟩
  · exact h.started.nodup
  · exact hstarted
  · intro task phase hphase hopen
    exact h.exists_enabled hphase hopen
  · intro more next hcallbacks hmore
    have hlen := length_le_remaining hcallbacks hmore
    omega
  · intro task
    simp only [step, PromiseChains.start?]
    by_cases hwaiting : chains.phase? task = some .waiting
    · simp only [hwaiting, true_and, ← h.chained.ready_iff hwaiting]
      by_cases hready : chains.ready task = true <;> simp [hready]
    · simp [hwaiting]
  · intro task userId hkey hunsettled
    obtain ⟨t, htail, -⟩ := h.tail_of_unsettled hkey hunsettled
    rw [htail]
    rfl
  · intro userId task htail
    obtain ⟨hkey, -, hlast⟩ := (h.tail userId task).mp htail
    exact ⟨hkey, hlast⟩
  · exact fun hall userId => h.tail_eq_none hall userId

private def messageOf (tag : Nat) (userId : UserId) : ConsumeMessage :=
  ⟨tag, 0, .json 1 { eventId := tag, userId := userId, lat := 1, lng := 1, receivedAt := tag }⟩

/-- A new message arrives after the tail of the first has settled and before its cleanup. -/
private def cleanupRace : List ChainAction :=
  [.handle (messageOf 1 "u"), .handle ⟨2, 0, .unparseable⟩, .handle (messageOf 3 "v"), .start 0,
    .finish 0 (some "defect"), .settle 0, .handle (messageOf 4 "u"), .cleanup 0, .start 2]

theorem discipline_of_run_cleanupRace :
    ∃ chains, machine.run .empty cleanupRace = some chains ∧ Discipline cleanupRace chains ∧
      chains.started = [0, 2] ∧ chains.tail "u" = some 2 ∧ chains.tail "v" = some 1 := by
  refine ⟨_, rfl, discipline_of_run cleanupRace _ rfl, ?_, ?_, ?_⟩
  · decide
  · decide
  · decide

end UserChains

end Geofence
