import Geofence.Framework.Machine
import Mathlib.Data.List.Range
import Mathlib.Tactic.IntervalCases
/-!
# `declare-topology.sh`

The one-shot job that declares the exchanges, the partition queues and the retry policy, request
by request, over a broker that keeps what it was given. A request may fail, carried out or not,
and ends the job; the next job starts over.
-/

namespace Geofence

open Framework

structure QueueProperties where
  durable : Bool
  queueType : String
  deriving DecidableEq, Repr

def quorumQueue : QueueProperties := ⟨true, "quorum"⟩

/-- The requests of `req`. -/
inductive TopologyRequest where
  | putExchange (name type : String)
  | putQueue (name : String)
  | postBinding (exchange queue routingKey : String)
  | putPolicy (deliveryLimit : Nat)
  deriving DecidableEq, Repr

/-- What the management API serves; `policy` is the delivery limit of `loc-partitions`. -/
structure Broker where
  exchanges : List (String × String)
  queues : List (String × QueueProperties)
  bindings : List (String × String × String)
  policy : Option Nat
  deriving DecidableEq, Repr

/-- A PUT is a no-op on an object with the same properties and refused on one with others. -/
def putObject {α : Type*} [DecidableEq α] (objects : List (String × α)) (name : String)
    (properties : α) : Option (List (String × α)) :=
  match objects.lookup name with
  | none => some (objects ++ [(name, properties)])
  | some existing => if existing = properties then some objects else none

namespace Broker

def empty : Broker := ⟨[], [], [], none⟩

/-- `none` for an answer that is not 2xx. -/
def apply (broker : Broker) : TopologyRequest → Option Broker
  | .putExchange name type =>
    (putObject broker.exchanges name type).map fun exchanges => { broker with exchanges }
  | .putQueue name =>
    (putObject broker.queues name quorumQueue).map fun queues => { broker with queues }
  | .postBinding exchange queue routingKey =>
    if (broker.exchanges.lookup exchange).isSome ∧ (broker.queues.lookup queue).isSome then
      if (exchange, queue, routingKey) ∈ broker.bindings then some broker
      else some { broker with bindings := broker.bindings ++ [(exchange, queue, routingKey)] }
    else none
  | .putPolicy deliveryLimit => some { broker with policy := some deliveryLimit }

end Broker

/-- `loc.events.p$i` -/
def partitionQueue (i : Nat) : String := "loc.events.p" ++ toString i

/-- The pattern of `grep`, whose dots are any characters. -/
def matchesPattern : List Char → List Char → Bool
  | [], _ => true
  | _ :: _, [] => false
  | p :: pattern, c :: text => (p = '.' || p = c) && matchesPattern pattern text

def isPartitionQueue (name : String) : Bool := matchesPattern "loc.events.p".toList name.toList

/-- The queues `grep -c` counts. -/
def Broker.partitionQueues (broker : Broker) : List String :=
  (broker.queues.map (·.1)).filter isPartitionQueue

/-- The exchanges and the dead-letter queue. -/
def preludeRequests : List TopologyRequest :=
  [.putExchange "loc.events" "x-consistent-hash", .putExchange "loc.dlx" "fanout",
    .putQueue "loc.dead", .postBinding "loc.dlx" "loc.dead" ""]

/-- The loop from partition `i` on. -/
def partitionRequests (count i : Nat) : List TopologyRequest :=
  (List.range' i (count - i)).flatMap fun j =>
    [.putQueue (partitionQueue j), .postBinding "loc.events" (partitionQueue j) "1"]

def topologyRequests (count deliveryLimit : Nat) : List TopologyRequest :=
  preludeRequests ++ partitionRequests count 0 ++ [.putPolicy deliveryLimit]

/-- The requests a job has still to make, with its partition count. -/
structure RunningJob where
  count : Nat
  requests : List TopologyRequest

/-- `exits` are the jobs that are over, with their counts, and whether they exited with 0. -/
structure TopologyJobs where
  broker : Broker
  running : Option RunningJob
  exits : List (Nat × Bool)

/-- A listing that fails counts no queues; `failed` is a request that is not answered, or a job
that is stopped. -/
inductive TopologyAction where
  | started (count deliveryLimit : Nat) (listed : Bool)
  | answered
  | failed (carriedOut : Bool)
  | finished

namespace TopologyJobs

def start : TopologyJobs := ⟨.empty, none, []⟩

/-- The immutability guard. -/
def guards (existing count : Nat) : Bool := decide (0 < existing ∧ existing ≠ count)

/-- The job exits. -/
def exit (st : TopologyJobs) (count : Nat) (succeeded : Bool) : TopologyJobs :=
  { st with running := none, exits := st.exits ++ [(count, succeeded)] }

def step (st : TopologyJobs) : TopologyAction → Option TopologyJobs
  | .started count deliveryLimit listed =>
    match st.running with
    | some _ => none
    | none =>
      let existing := if listed then st.broker.partitionQueues.length else 0
      if guards existing count then some (st.exit count false)
      else some { st with running := some ⟨count, topologyRequests count deliveryLimit⟩ }
  | .answered =>
    match st.running with
    | some ⟨count, request :: requests⟩ =>
      match st.broker.apply request with
      | none => some (st.exit count false)
      | some broker => some { st with broker, running := some ⟨count, requests⟩ }
    | _ => none
  | .failed carriedOut =>
    match st.running with
    | some ⟨count, request :: _⟩ =>
      let broker := if carriedOut then (st.broker.apply request).getD st.broker else st.broker
      some ({ st with broker }.exit count false)
    | _ => none
  | .finished =>
    match st.running with
    | some ⟨count, []⟩ => some (st.exit count true)
    | _ => none

def machine : Machine TopologyJobs TopologyAction := ⟨step⟩

end TopologyJobs

/-- `checkQueue` on every partition a worker is given: a missing queue aborts the boot. -/
def Broker.boots (broker : Broker) (partitions : List Nat) : Bool :=
  partitions.all fun i => (broker.queues.lookup (partitionQueue i)).isSome

/-! ## The brokers a job leaves behind -/

theorem partitionQueue_injective {i j : Nat} (h : partitionQueue i = partitionQueue j) : i = j := by
  have hlists := congrArg String.toList h
  rw [partitionQueue, partitionQueue, String.toList_append, String.toList_append] at hlists
  have hdigits := List.append_cancel_left hlists
  rw [Nat.toString_eq_repr, Nat.toString_eq_repr, Nat.toList_repr, Nat.toList_repr] at hdigits
  have hvalues := congrArg (fun digits => Nat.ofDigitChars 10 digits 0) hdigits
  simpa only [Nat.ofDigitChars_ten_toDigits] using hvalues

private theorem matchesPattern_append (pattern text : List Char) :
    matchesPattern pattern (pattern ++ text) = true := by
  induction pattern with
  | nil => rfl
  | cons p pattern ih => simp [matchesPattern, ih]

theorem isPartitionQueue_partitionQueue (i : Nat) : isPartitionQueue (partitionQueue i) = true := by
  rw [isPartitionQueue, partitionQueue, String.toList_append]
  exact matchesPattern_append _ _

private theorem dead_ne_partitionQueue (i : Nat) : "loc.dead" ≠ partitionQueue i := by
  intro heq
  have hmatches := isPartitionQueue_partitionQueue i
  rw [← heq] at hmatches
  revert hmatches
  decide

namespace Broker

/-- The broker on which `made` of the first requests, the partition queues below `queued` and the
bindings below `bound` have been carried out. -/
def declared (made queued bound : Nat) (policy : Option Nat) : Broker where
  exchanges := [("loc.events", "x-consistent-hash"), ("loc.dlx", "fanout")].take made
  queues := (if 3 ≤ made then [("loc.dead", quorumQueue)] else []) ++
    (List.range queued).map fun i => (partitionQueue i, quorumQueue)
  bindings := (if 4 ≤ made then [("loc.dlx", "loc.dead", "")] else []) ++
    (List.range bound).map fun i => ("loc.events", partitionQueue i, "1")
  policy

variable {made queued bound : Nat} {policy : Option Nat}

private theorem partitionQueues_declared :
    (declared made queued bound policy).partitionQueues =
      (List.range queued).map partitionQueue := by
  have hpartitions : ((List.range queued).map partitionQueue).filter isPartitionQueue =
      (List.range queued).map partitionQueue := by
    rw [List.filter_eq_self]
    intro name hname
    obtain ⟨i, -, rfl⟩ := List.mem_map.mp hname
    exact isPartitionQueue_partitionQueue i
  have hnames : ((List.range queued).map fun i => (partitionQueue i, quorumQueue)).map (·.1) =
      (List.range queued).map partitionQueue := by
    rw [List.map_map]
    rfl
  rw [partitionQueues, declared, List.map_append, List.filter_append, hnames, hpartitions]
  split
  · rfl
  · rfl

private theorem lookup_partitions (queued i : Nat) :
    ((List.range queued).map fun i => (partitionQueue i, quorumQueue)).lookup (partitionQueue i) =
      if i < queued then some quorumQueue else none := by
  induction queued with
  | zero => rfl
  | succ queued ih =>
    rw [List.range_succ, List.map_append, List.lookup_append, ih]
    by_cases hi : i = queued
    · subst hi
      simp
    · have hne : (partitionQueue i == partitionQueue queued) = false :=
        beq_false_of_ne fun heq => hi (partitionQueue_injective heq)
      by_cases hlt : i < queued
      · rw [if_pos hlt, if_pos (by omega)]
        rfl
      · rw [if_neg hlt, if_neg (by omega)]
        simp [List.lookup_cons, hne]

theorem lookup_declared (i : Nat) :
    (declared made queued bound policy).queues.lookup (partitionQueue i) =
      if i < queued then some quorumQueue else none := by
  have hne : (partitionQueue i == "loc.dead") = false :=
    beq_false_of_ne (dead_ne_partitionQueue i).symm
  rw [declared, List.lookup_append, lookup_partitions]
  split
  · simp [List.lookup_cons, hne]
  · rfl

private theorem boots_declared (partitions : List Nat) :
    (declared made queued bound policy).boots partitions = true ↔
      ∀ i ∈ partitions, i < queued := by
  simp only [boots, List.all_eq_true, lookup_declared]
  constructor
  · intro h i hi
    have hsome := h i hi
    by_contra hge
    rw [if_neg hge] at hsome
    cases hsome
  · intro h i hi
    rw [if_pos (h i hi)]
    rfl

private theorem apply_prelude {d : Nat} {request : TopologyRequest}
    (hrequest : preludeRequests[d]? = some request) (hd : d ≤ made) (hmade : made ≤ 4)
    (hfirst : made < 4 → queued = 0 ∧ bound = 0) :
    (declared made queued bound policy).apply request =
      some (declared (max made (d + 1)) queued bound policy) := by
  have hlt : d < 4 := (List.getElem?_eq_some_iff.mp hrequest).1
  by_cases hall : made = 4
  · subst hall
    rw [Nat.max_eq_left (by omega)]
    interval_cases d <;> cases hrequest
    · rfl
    · rfl
    · rfl
    · rfl
  · obtain ⟨rfl, rfl⟩ := hfirst (by omega)
    interval_cases made <;> interval_cases d <;> cases hrequest <;> rfl

private theorem apply_queue {i : Nat} (hi : i ≤ queued) :
    (declared made queued bound policy).apply (.putQueue (partitionQueue i)) =
      some (declared made (max queued (i + 1)) bound policy) := by
  rw [apply, putObject, lookup_declared]
  by_cases hlt : i < queued
  · rw [if_pos hlt, Nat.max_eq_left (by omega)]
    simp
  · have heq : i = queued := by omega
    subst heq
    rw [if_neg hlt, Nat.max_eq_right (by omega)]
    simp [declared, List.range_succ]

private theorem apply_binding {i : Nat} (hi : i < queued) (hbound : i ≤ bound) :
    (declared 4 queued bound policy).apply
        (.postBinding "loc.events" (partitionQueue i) "1") =
      some (declared 4 queued (max bound (i + 1)) policy) := by
  have hmem : ("loc.events", partitionQueue i, "1") ∈ (declared 4 queued bound policy).bindings ↔
      i < bound := by
    simp only [declared, Nat.le_refl, if_true, List.mem_append, List.mem_map, List.mem_range,
      Prod.mk.injEq, true_and, and_true, List.mem_singleton]
    constructor
    · rintro (⟨heq, -⟩ | ⟨j, hj, heq⟩)
      · exact absurd heq (by decide)
      · exact partitionQueue_injective heq ▸ hj
    · exact fun hlt => Or.inr ⟨i, hlt, rfl⟩
  rw [apply, lookup_declared, if_pos hi, if_pos ⟨rfl, rfl⟩]
  by_cases hlt : i < bound
  · rw [if_pos (hmem.mpr hlt), Nat.max_eq_left (by omega)]
  · have heq : i = bound := by omega
    subst heq
    rw [if_neg (mt hmem.mp hlt), Nat.max_eq_right (by omega)]
    simp [declared, List.range_succ]

end Broker

/-! ## One job -/

/-- How far the jobs have come; the partition queues and their bindings are declared in turn. -/
structure Extent where
  made : Nat
  queued : Nat
  bound : Nat
  policy : Option Nat
  made_le : made ≤ 4
  first : made < 4 → queued = 0
  bound_le : bound ≤ queued
  queued_le : queued ≤ bound + 1

namespace Extent

def empty : Extent where
  made := 0
  queued := 0
  bound := 0
  policy := none
  made_le := by decide
  first := fun _ => rfl
  bound_le := by decide
  queued_le := by decide

def broker (e : Extent) : Broker := Broker.declared e.made e.queued e.bound e.policy

private theorem made_eq {e : Extent} (h : 0 < e.queued) : e.made = 4 := by
  have hfirst := e.first
  have hle := e.made_le
  omega

/-- Nothing declared is taken back. -/
structure Grows (e e' : Extent) : Prop where
  queued : e.queued ≤ e'.queued
  bound : e.bound ≤ e'.bound

theorem Grows.refl (e : Extent) : Grows e e := ⟨Nat.le_refl _, Nat.le_refl _⟩

end Extent

private theorem partitionRequests_self (count : Nat) : partitionRequests count count = [] := by
  rw [partitionRequests, Nat.sub_self]
  rfl

private theorem partitionRequests_of_lt {count i : Nat} (hi : i < count) :
    partitionRequests count i = .putQueue (partitionQueue i) ::
      .postBinding "loc.events" (partitionQueue i) "1" :: partitionRequests count (i + 1) := by
  rw [partitionRequests, partitionRequests, show count - i = (count - (i + 1)) + 1 by omega,
    List.range'_succ]
  rfl

/-- What a job of `count` partitions has still to request of a broker declared to `e`. -/
inductive JobProgress (count limit : Nat) (e : Extent) : List TopologyRequest → Prop
  | prelude (d : Nat) (hd : d ≤ e.made) : JobProgress count limit e
      (preludeRequests.drop d ++ partitionRequests count 0 ++ [.putPolicy limit])
  | queue (i : Nat) (hmade : e.made = 4) (hcount : i ≤ count) (hi : i ≤ e.bound) :
      JobProgress count limit e (partitionRequests count i ++ [.putPolicy limit])
  | binding (i : Nat) (hmade : e.made = 4) (hcount : i < count) (hi : i < e.queued)
      (hbound : i ≤ e.bound) : JobProgress count limit e
        (.postBinding "loc.events" (partitionQueue i) "1" ::
          (partitionRequests count (i + 1) ++ [.putPolicy limit]))
  | done (hmade : e.made = 4) (hcount : count ≤ e.bound) (hpolicy : e.policy = some limit) :
      JobProgress count limit e []

/-- Where one request takes a broker. -/
structure Advance (count limit : Nat) (e : Extent) (request : TopologyRequest)
    (requests : List TopologyRequest) (e' : Extent) : Prop where
  applied : e.broker.apply request = some e'.broker
  progress : JobProgress count limit e' requests
  grows : e.Grows e'
  within : e.queued ≤ count → e'.queued ≤ count

namespace JobProgress

variable {count limit : Nat} {e : Extent} {request : TopologyRequest}
  {requests : List TopologyRequest}

private theorem advance_prelude {d : Nat} (hd : d < 4) (hmade : d ≤ e.made)
    (hrequest : preludeRequests[d]? = some request) :
    ∃ e', Advance count limit e request
      (preludeRequests.drop (d + 1) ++ partitionRequests count 0 ++ [.putPolicy limit]) e' := by
  have hmax : max e.made (d + 1) ≤ 4 := by
    have hle := e.made_le
    omega
  have hfirst : max e.made (d + 1) < 4 → e.queued = 0 := fun hlt => e.first (by omega)
  refine ⟨⟨max e.made (d + 1), e.queued, e.bound, e.policy, hmax, hfirst, e.bound_le,
    e.queued_le⟩, ?_, .prelude (d + 1) (Nat.le_max_right _ _), ⟨Nat.le_refl _, Nat.le_refl _⟩, id⟩
  refine Broker.apply_prelude hrequest hmade e.made_le fun hlt => ?_
  have hqueued := e.first hlt
  have hbound := e.bound_le
  omega

private theorem advance_queue {i : Nat} (hmade : e.made = 4) (hcount : i < count)
    (hi : i ≤ e.bound) : ∃ e', Advance count limit e (.putQueue (partitionQueue i))
      (.postBinding "loc.events" (partitionQueue i) "1" ::
        (partitionRequests count (i + 1) ++ [.putPolicy limit])) e' := by
  have hbound := e.bound_le
  have hqueued := e.queued_le
  have hle : max e.queued (i + 1) ≤ e.bound + 1 := by omega
  have hbound' : e.bound ≤ max e.queued (i + 1) := by omega
  refine ⟨⟨e.made, max e.queued (i + 1), e.bound, e.policy, e.made_le, fun hlt => by omega,
    hbound', hle⟩, Broker.apply_queue (by omega), .binding i hmade hcount ?_ hi,
    ⟨Nat.le_max_left _ _, Nat.le_refl _⟩, fun hwithin => Nat.max_le.mpr ⟨hwithin, hcount⟩⟩
  exact Nat.lt_of_lt_of_le (Nat.lt_succ_self i) (Nat.le_max_right _ _)

private theorem advance_binding {i : Nat} (hmade : e.made = 4) (hcount : i < count)
    (hi : i < e.queued) (hbound : i ≤ e.bound) :
    ∃ e', Advance count limit e (.postBinding "loc.events" (partitionQueue i) "1")
      (partitionRequests count (i + 1) ++ [.putPolicy limit]) e' := by
  have hle := e.bound_le
  have hqueued := e.queued_le
  have hle' : max e.bound (i + 1) ≤ e.queued := by omega
  have hqueued' : e.queued ≤ max e.bound (i + 1) + 1 := by omega
  refine ⟨⟨e.made, e.queued, max e.bound (i + 1), e.policy, e.made_le, e.first, hle', hqueued'⟩,
    ?_, .queue (i + 1) hmade hcount (Nat.le_max_right _ _), ⟨Nat.le_refl _, Nat.le_max_left _ _⟩,
    id⟩
  have happly : (Broker.declared 4 e.queued e.bound e.policy).apply
      (.postBinding "loc.events" (partitionQueue i) "1") =
        some (Broker.declared 4 e.queued (max e.bound (i + 1)) e.policy) :=
    Broker.apply_binding hi hbound
  simpa only [Extent.broker, hmade] using happly

private theorem advance_policy (hmade : e.made = 4) (hcount : count ≤ e.bound) :
    ∃ e', Advance count limit e (.putPolicy limit) [] e' :=
  ⟨⟨e.made, e.queued, e.bound, some limit, e.made_le, e.first, e.bound_le, e.queued_le⟩, rfl,
    .done hmade hcount rfl, ⟨Nat.le_refl _, Nat.le_refl _⟩, id⟩

theorem advance_partitions {i : Nat} (hmade : e.made = 4) (hcount : i ≤ count)
    (hi : i ≤ e.bound)
    (hrequests : partitionRequests count i ++ [.putPolicy limit] = request :: requests) :
    ∃ e', Advance count limit e request requests e' := by
  rcases Nat.lt_or_eq_of_le hcount with hlt | rfl
  · rw [partitionRequests_of_lt hlt] at hrequests
    obtain ⟨rfl, rfl⟩ := List.cons.inj hrequests
    exact advance_queue hmade hlt hi
  · rw [partitionRequests_self] at hrequests
    obtain ⟨rfl, rfl⟩ := List.cons.inj hrequests
    exact advance_policy hmade hi

theorem advance (hprogress : JobProgress count limit e (request :: requests)) :
    ∃ e', Advance count limit e request requests e' := by
  generalize hall : request :: requests = all at hprogress
  cases hprogress with
  | prelude d hd =>
    by_cases hlt : d < 4
    · have hdrop : preludeRequests.drop d = preludeRequests[d] :: preludeRequests.drop (d + 1) :=
        List.drop_eq_getElem_cons hlt
      rw [hdrop] at hall
      obtain ⟨rfl, rfl⟩ := List.cons.inj hall
      exact advance_prelude hlt hd (List.getElem?_eq_getElem hlt)
    · rw [List.drop_eq_nil_of_le (by exact Nat.le_of_not_lt hlt)] at hall
      have hle := e.made_le
      exact advance_partitions (by omega) (Nat.zero_le _) (Nat.zero_le _) hall.symm
  | queue i hmade hcount hi => exact advance_partitions hmade hcount hi hall.symm
  | binding i hmade hcount hi hbound =>
    obtain ⟨rfl, rfl⟩ := List.cons.inj hall
    exact advance_binding hmade hcount hi hbound
  | done => cases hall

theorem completed (hprogress : JobProgress count limit e []) :
    e.made = 4 ∧ count ≤ e.bound ∧ e.policy = some limit := by
  generalize hall : ([] : List TopologyRequest) = all at hprogress
  cases hprogress with
  | prelude d hd => simp at hall
  | queue i hmade hcount hi => simp at hall
  | binding i hmade hcount hi hbound => cases hall
  | done hmade hcount hpolicy => exact ⟨hmade, hcount, hpolicy⟩

end JobProgress

/-! ## Every run of jobs -/

/-- The listing the guard counts is the broker's. -/
def TopologyAction.Listed : TopologyAction → Prop
  | .started _ _ listed => listed = true
  | _ => True

namespace TopologyJobs

structure Standing (st : TopologyJobs) (e : Extent) : Prop where
  broker : st.broker = e.broker
  running : ∀ job, st.running = some job → ∃ limit, JobProgress job.count limit e job.requests
  exits : ∀ count, (count, true) ∈ st.exits → count ≤ e.bound

/-- What one action does to a broker declared to `e`. -/
inductive Move (st : TopologyJobs) (e : Extent) :
    TopologyAction → TopologyJobs → Extent → Prop
  | refused (count limit : Nat) (listed : Bool) (hidle : st.running = none) :
      Move st e (.started count limit listed) (st.exit count false) e
  | began (count limit : Nat) (listed : Bool) (hidle : st.running = none)
      (hguard : listed = true → e.queued = 0 ∨ e.queued = count) :
      Move st e (.started count limit listed)
        ⟨st.broker, some ⟨count, topologyRequests count limit⟩, st.exits⟩ e
  | requested (count limit : Nat) (request : TopologyRequest) (requests : List TopologyRequest)
      (e' : Extent) (hrunning : st.running = some ⟨count, request :: requests⟩)
      (hadvance : Advance count limit e request requests e') :
      Move st e .answered ⟨e'.broker, some ⟨count, requests⟩, st.exits⟩ e'
  | aborted (carriedOut : Bool) (job : RunningJob) (e' : Extent)
      (hrunning : st.running = some job) (hgrows : e.Grows e')
      (hwithin : e.queued ≤ job.count → e'.queued ≤ job.count) :
      Move st e (.failed carriedOut) ⟨e'.broker, none, st.exits ++ [(job.count, false)]⟩ e'
  | finished (count : Nat) (hrunning : st.running = some ⟨count, []⟩) (hbound : count ≤ e.bound) :
      Move st e .finished (st.exit count true) e

variable {st st' : TopologyJobs} {e e' : Extent} {action : TopologyAction}

theorem standing_start : start.Standing .empty where
  broker := rfl
  running := fun _ h => by cases h
  exits := fun _ h => by cases h

theorem Standing.partitionQueues (h : st.Standing e) :
    st.broker.partitionQueues = (List.range e.queued).map partitionQueue := by
  rw [h.broker]
  exact Broker.partitionQueues_declared

theorem Standing.existing (h : st.Standing e) : st.broker.partitionQueues.length = e.queued := by
  rw [h.partitionQueues, List.length_map, List.length_range]

theorem Standing.move (h : st.Standing e) (hstep : machine.step st action = some st') :
    ∃ e', Move st e action st' e' := by
  change TopologyJobs.step st action = some st' at hstep
  cases action with
  | started count limit listed =>
    cases hrunning : st.running with
    | some job => simp [step, hrunning] at hstep
    | none =>
      simp only [step, hrunning, h.existing] at hstep
      by_cases hguard : guards (if listed then e.queued else 0) count = true
      · rw [if_pos hguard] at hstep
        cases hstep
        exact ⟨e, .refused count limit listed hrunning⟩
      · rw [if_neg hguard] at hstep
        cases hstep
        refine ⟨e, .began count limit listed hrunning fun hlisted => ?_⟩
        subst hlisted
        simp only [if_true, guards, decide_eq_true_eq] at hguard
        omega
  | answered =>
    cases hrunning : st.running with
    | none => simp [step, hrunning] at hstep
    | some job =>
      obtain ⟨count, requests⟩ := job
      cases requests with
      | nil => simp [step, hrunning] at hstep
      | cons request requests =>
        obtain ⟨limit, hprogress⟩ := h.running _ hrunning
        obtain ⟨e', hadvance⟩ := hprogress.advance
        simp only [step, hrunning, h.broker, hadvance.applied] at hstep
        cases hstep
        exact ⟨e', .requested count limit request requests e' hrunning hadvance⟩
  | failed carriedOut =>
    cases hrunning : st.running with
    | none => simp [step, hrunning] at hstep
    | some job =>
      obtain ⟨count, requests⟩ := job
      cases requests with
      | nil => simp [step, hrunning] at hstep
      | cons request requests =>
        obtain ⟨limit, hprogress⟩ := h.running _ hrunning
        obtain ⟨e', hadvance⟩ := hprogress.advance
        simp only [step, hrunning, h.broker, hadvance.applied, exit, Option.getD_some] at hstep
        cases carriedOut with
        | true =>
          cases hstep
          exact ⟨e', .aborted true _ e' hrunning hadvance.grows hadvance.within⟩
        | false =>
          cases hstep
          exact ⟨e, .aborted false _ e hrunning (.refl e) id⟩
  | finished =>
    cases hrunning : st.running with
    | none => simp [step, hrunning] at hstep
    | some job =>
      obtain ⟨count, requests⟩ := job
      cases requests with
      | cons request requests => simp [step, hrunning] at hstep
      | nil =>
        obtain ⟨limit, hprogress⟩ := h.running _ hrunning
        simp only [step, hrunning] at hstep
        cases hstep
        exact ⟨e, .finished count hrunning hprogress.completed.2.1⟩

theorem Move.grows (hmove : Move st e action st' e') : e.Grows e' := by
  cases hmove with
  | refused => exact .refl e
  | began => exact .refl e
  | requested count limit request requests _ _ hadvance => exact hadvance.grows
  | aborted _ _ _ _ hgrows => exact hgrows
  | finished => exact .refl e

theorem Standing.of_move (h : st.Standing e) (hmove : Move st e action st' e') :
    st'.Standing e' := by
  have hkept : ∀ count, (count, true) ∈ st.exits → count ≤ e'.bound := fun count hexit =>
    Nat.le_trans (h.exits count hexit) hmove.grows.bound
  cases hmove with
  | refused count =>
    refine ⟨h.broker, fun _ hnone => (by cases hnone), fun n hexit => hkept n ?_⟩
    simpa [exit] using hexit
  | began count limit =>
    refine ⟨h.broker, fun job hrunning => ?_, hkept⟩
    cases hrunning
    exact ⟨limit, .prelude 0 (Nat.zero_le _)⟩
  | requested count limit request requests _ hrunning hadvance =>
    refine ⟨rfl, fun job hjob => ?_, hkept⟩
    cases hjob
    exact ⟨limit, hadvance.progress⟩
  | aborted carriedOut job =>
    refine ⟨rfl, fun _ hnone => (by cases hnone), fun n hexit => hkept n ?_⟩
    simpa using hexit
  | finished count hrunning hbound =>
    refine ⟨h.broker, fun _ hnone => (by cases hnone), fun n hexit => ?_⟩
    rcases List.mem_append.mp hexit with hbefore | hlast
    · exact hkept n hbefore
    · cases List.mem_singleton.mp hlast
      exact hbound

/-- The running job declares no queue beyond the count the guard has compared. -/
def Guarded (st : TopologyJobs) (e : Extent) : Prop :=
  ∀ job, st.running = some job → e.queued ≤ job.count

/-- The broker has its `count` partition queues for good. -/
structure Settled (st : TopologyJobs) (e : Extent) (count : Nat) : Prop where
  queued : e.queued = count
  running : ∀ job, st.running = some job → job.count = count

theorem Guarded.of_move (h : st.Guarded e) (hlisted : action.Listed)
    (hmove : Move st e action st' e') : st'.Guarded e' := by
  intro job hjob
  cases hmove with
  | refused => cases hjob
  | began count limit listed hidle hguard =>
    cases hjob
    rcases hguard hlisted with hzero | heq
    · exact hzero ▸ Nat.zero_le _
    · exact Nat.le_of_eq heq
  | requested count limit request requests _ hrunning hadvance =>
    cases hjob
    exact hadvance.within (h _ hrunning)
  | aborted => cases hjob
  | finished => cases hjob

theorem Settled.of_move {count : Nat} (h : st.Settled e count) (hcount : 0 < count)
    (hlisted : action.Listed) (hmove : Move st e action st' e') : st'.Settled e' count := by
  have hle : e.queued ≤ e'.queued := hmove.grows.queued
  cases hmove with
  | refused => exact ⟨h.queued, fun _ hjob => by cases hjob⟩
  | began n limit listed hidle hguard =>
    refine ⟨h.queued, fun job hjob => ?_⟩
    cases hjob
    have hqueued := h.queued
    rcases hguard hlisted with hzero | heq
    · omega
    · exact heq.symm.trans hqueued
  | requested n limit request requests _ hrunning hadvance =>
    have hn : n = count := h.running _ hrunning
    refine ⟨?_, fun job hjob => ?_⟩
    · have hwithin := hadvance.within (by rw [h.queued, hn])
      have hqueued := h.queued
      omega
    · cases hjob
      exact hn
  | aborted carriedOut job _ hrunning hgrows hwithin =>
    have hn : job.count = count := h.running _ hrunning
    refine ⟨?_, fun _ hjob => by cases hjob⟩
    have hwithin := hwithin (by rw [h.queued, hn])
    have hqueued := h.queued
    omega
  | finished => exact ⟨h.queued, fun _ hjob => by cases hjob⟩

/-- A job that exits with 0 settles its count. -/
private theorem Guarded.settled_of_move {count : Nat} (h : st.Guarded e) (hcount : 0 < count)
    (hlisted : action.Listed) (hexits : (count, true) ∈ st.exits → st.Settled e count)
    (hmove : Move st e action st' e') (hexit : (count, true) ∈ st'.exits) :
    st'.Settled e' count := by
  by_cases hbefore : (count, true) ∈ st.exits
  · exact (hexits hbefore).of_move hcount hlisted hmove
  · cases hmove with
    | refused => exact absurd (by simpa [exit] using hexit) hbefore
    | began => exact absurd hexit hbefore
    | requested => exact absurd hexit hbefore
    | aborted => exact absurd (by simpa using hexit) hbefore
    | finished n hrunning hbound =>
      rcases List.mem_append.mp hexit with hold | hlast
      · exact absurd hold hbefore
      · cases List.mem_singleton.mp hlast
        refine ⟨Nat.le_antisymm (h _ hrunning) ?_, fun _ hjob => by cases hjob⟩
        exact Nat.le_trans hbound e.bound_le

/-- The count compared by the guard is that of the broker, and a completed job has settled it. -/
structure Compared (st : TopologyJobs) (e : Extent) : Prop where
  standing : st.Standing e
  guarded : st.Guarded e
  settled : ∀ count, 0 < count → (count, true) ∈ st.exits → st.Settled e count

theorem Compared.of_move (h : st.Compared e) (hlisted : action.Listed)
    (hmove : Move st e action st' e') : st'.Compared e' where
  standing := h.standing.of_move hmove
  guarded := h.guarded.of_move hlisted hmove
  settled := fun count hcount hexit =>
    h.guarded.settled_of_move hcount hlisted (h.settled count hcount) hmove hexit

theorem standing_of_run {actions : List TopologyAction}
    (hrun : machine.run start actions = some st) : ∃ e, st.Standing e := by
  refine machine.run_invariant (I := fun st => ∃ e, Standing st e) ?_ ⟨_, standing_start⟩ hrun
  rintro st action st' ⟨e, hstanding⟩ hstep
  obtain ⟨e', hmove⟩ := hstanding.move hstep
  exact ⟨e', hstanding.of_move hmove⟩

theorem compared_of_run {actions : List TopologyAction} (hlisted : ∀ a ∈ actions, a.Listed)
    (hrun : machine.run start actions = some st) : ∃ e, st.Compared e := by
  refine machine.run_invariant_of_meets (I := fun st => ∃ e, Compared st e) ?_
    ⟨_, standing_start, fun _ hjob => (by cases hjob), fun _ _ hexit => (by cases hexit)⟩
    (machine.meets_of_forall_mem start hlisted) hrun
  rintro st action st' ⟨e, hcompared⟩ haction hstep
  obtain ⟨e', hmove⟩ := hcompared.standing.move hstep
  exact ⟨e', hcompared.of_move haction hmove⟩

/-- Once settled, the count stays through any further listed runs. -/
theorem Compared.settled_of_run {actions : List TopologyAction} {count : Nat}
    (h : st.Compared e) (hsettled : st.Settled e count) (hcount : 0 < count)
    (hlisted : ∀ a ∈ actions, a.Listed) (hrun : machine.run st actions = some st') :
    ∃ e', st'.Compared e' ∧ st'.Settled e' count := by
  refine machine.run_invariant_of_meets (I := fun st => ∃ e, Compared st e ∧ Settled st e count)
    ?_ ⟨e, h, hsettled⟩ (machine.meets_of_forall_mem st hlisted) hrun
  rintro st action st' ⟨e, hcompared, hsettled⟩ haction hstep
  obtain ⟨e', hmove⟩ := hcompared.standing.move hstep
  exact ⟨e', hcompared.of_move haction hmove, hsettled.of_move hcount haction hmove⟩

/-- A job whose every request is answered. -/
def deployment (count deliveryLimit : Nat) : List TopologyAction :=
  .started count deliveryLimit true ::
    ((topologyRequests count deliveryLimit).map fun _ => .answered) ++ [.finished]

private theorem Standing.finishes {count limit : Nat} {requests : List TopologyRequest}
    (h : st.Standing e) (hrunning : st.running = some ⟨count, requests⟩)
    (hprogress : JobProgress count limit e requests) (hwithin : e.queued ≤ count) :
    ∃ final e', machine.run st ((requests.map fun _ => .answered) ++ [.finished]) = some final ∧
      final.Standing e' ∧ e'.made = 4 ∧ e'.queued = count ∧ e'.bound = count ∧
      e'.policy = some limit := by
  induction requests generalizing st e with
  | nil =>
    obtain ⟨hmade, hbound, hpolicy⟩ := hprogress.completed
    have hfinished : machine.step st .finished = some (st.exit count true) := by
      simp [machine, step, hrunning]
    have hle := e.bound_le
    refine ⟨_, e, machine.run_cons_eq_some.mpr ⟨_, hfinished, rfl⟩,
      h.of_move (.finished count hrunning hbound), hmade, ?_, ?_, hpolicy⟩
    · omega
    · omega
  | cons request requests ih =>
    obtain ⟨e', hadvance⟩ := hprogress.advance
    have hanswered : machine.step st .answered =
        some ⟨e'.broker, some ⟨count, requests⟩, st.exits⟩ := by
      simp [machine, step, hrunning, h.broker, hadvance.applied]
    obtain ⟨final, e'', hrun, hfinal⟩ :=
      ih (h.of_move (.requested count limit request requests e' hrunning hadvance)) rfl
        hadvance.progress (hadvance.within hwithin)
    exact ⟨final, e'', machine.run_cons_eq_some.mpr ⟨_, hanswered, hrun⟩, hfinal⟩

private theorem Standing.redeploys {count : Nat} (limit : Nat) (h : st.Standing e)
    (hidle : st.running = none) (hexisting : e.queued = 0 ∨ e.queued = count) :
    ∃ final e', machine.run st (deployment count limit) = some final ∧ final.Standing e' ∧
      e'.made = 4 ∧ e'.queued = count ∧ e'.bound = count ∧ e'.policy = some limit := by
  have hguard : ¬guards e.queued count = true := by
    simp only [guards, decide_eq_true_eq]
    omega
  have hstarted : machine.step st (.started count limit true) =
      some ⟨st.broker, some ⟨count, topologyRequests count limit⟩, st.exits⟩ := by
    simp [machine, step, hidle, h.existing, hguard]
  have hbegan : Move st e (.started count limit true)
      ⟨st.broker, some ⟨count, topologyRequests count limit⟩, st.exits⟩ e :=
    .began count limit true hidle fun _ => hexisting
  obtain ⟨final, e', hrun, hfinal⟩ := (h.of_move hbegan).finishes rfl
    (.prelude 0 (Nat.zero_le _)) (by omega : e.queued ≤ count)
  exact ⟨final, e', machine.run_cons_eq_some.mpr ⟨_, hstarted, hrun⟩, hfinal⟩

/-- The broker carries the two exchanges, the bound dead-letter queue and the queues of exactly
the partitions below `count`, all bound to `loc.events` with weight 1, and a worker boots on its
partitions when they are among them. -/
structure Carries (broker : Broker) (count : Nat) : Prop where
  exchanges : broker.exchanges = [("loc.events", "x-consistent-hash"), ("loc.dlx", "fanout")]
  dead : broker.queues.lookup "loc.dead" = some quorumQueue ∧
    ("loc.dlx", "loc.dead", "") ∈ broker.bindings
  queues : broker.partitionQueues = (List.range count).map partitionQueue
  partitions : ∀ i < count, broker.queues.lookup (partitionQueue i) = some quorumQueue ∧
    ("loc.events", partitionQueue i, "1") ∈ broker.bindings
  boots : ∀ partitions, broker.boots partitions = true ↔ ∀ i ∈ partitions, i < count

theorem Standing.partition (h : st.Standing e) {i : Nat} (hi : i < e.bound) :
    st.broker.queues.lookup (partitionQueue i) = some quorumQueue ∧
      ("loc.events", partitionQueue i, "1") ∈ st.broker.bindings := by
  have hqueued : i < e.queued := Nat.lt_of_lt_of_le hi e.bound_le
  rw [h.broker, Extent.broker, Broker.lookup_declared, if_pos hqueued]
  exact ⟨rfl, List.mem_append_right _ (List.mem_map.mpr ⟨i, List.mem_range.mpr hi, rfl⟩)⟩

theorem Standing.carries {count : Nat} (h : st.Standing e) (hmade : e.made = 4)
    (hqueued : e.queued = count) (hbound : e.bound = count) : Carries st.broker count := by
  subst hqueued
  refine ⟨?_, ⟨?_, ?_⟩, h.partitionQueues, fun i hi => h.partition (hbound ▸ hi),
    fun partitions => ?_⟩
  · rw [h.broker, Extent.broker, hmade]
    rfl
  · rw [h.broker, Extent.broker, hmade]
    rfl
  · rw [h.broker, Extent.broker, hmade]
    exact List.mem_append_left _ (List.mem_singleton_self _)
  · rw [h.broker]
    exact Broker.boots_declared partitions

/-- What holds whatever the listings have answered. -/
structure Provisioned (st : TopologyJobs) : Prop where
  numbered : ∃ queued, st.broker.partitionQueues = (List.range queued).map partitionQueue
  completed : ∀ count, (count, true) ∈ st.exits → ∀ i < count,
    st.broker.queues.lookup (partitionQueue i) = some quorumQueue ∧
      ("loc.events", partitionQueue i, "1") ∈ st.broker.bindings

/-- What the guard adds when every listing is the broker's. -/
structure Immutable (st : TopologyJobs) : Prop where
  settled : ∀ count, 0 < count → (count, true) ∈ st.exits → Carries st.broker count
  redeployed : st.running = none → ∀ count limit,
    st.broker.partitionQueues.length = 0 ∨ st.broker.partitionQueues.length = count →
    ∃ final, machine.run st (deployment count limit) = some final ∧
      Carries final.broker count ∧ final.broker.policy = some limit
  refused : st.running = none → ∀ count limit, 0 < st.broker.partitionQueues.length →
    st.broker.partitionQueues.length ≠ count →
    machine.step st (.started count limit true) = some (st.exit count false)
  kept : st.running = none → 0 < st.broker.partitionQueues.length → ∀ actions later,
    (∀ a ∈ actions, a.Listed) → machine.run st actions = some later →
    later.broker.partitionQueues = st.broker.partitionQueues ∧
      ∀ count, 0 < count → (count, true) ∈ later.exits →
        count = st.broker.partitionQueues.length

private theorem Standing.provisioned (h : st.Standing e) : st.Provisioned where
  numbered := ⟨e.queued, h.partitionQueues⟩
  completed := by
    intro count hexit i hi
    exact h.partition (Nat.lt_of_lt_of_le hi (h.exits count hexit))

theorem Compared.kept {actions : List TopologyAction} (h : st.Compared e)
    (hidle : st.running = none) (hexisting : 0 < e.queued) (hlisted : ∀ a ∈ actions, a.Listed)
    (hrun : machine.run st actions = some st') :
    st'.broker.partitionQueues = st.broker.partitionQueues ∧
      ∀ count, 0 < count → (count, true) ∈ st'.exits → count = e.queued := by
  have hsettled : st.Settled e e.queued :=
    ⟨rfl, fun job hjob => by rw [hidle] at hjob; cases hjob⟩
  obtain ⟨e', hcompared, hkept⟩ := h.settled_of_run hsettled hexisting hlisted hrun
  refine ⟨?_, fun count hcount hexit => ?_⟩
  · rw [hcompared.standing.partitionQueues, h.standing.partitionQueues, hkept.queued]
  · exact (hcompared.settled count hcount hexit).queued.symm.trans hkept.queued

private theorem Compared.immutable (h : st.Compared e) : st.Immutable where
  settled := by
    intro count hcount hexit
    have hqueued := (h.settled count hcount hexit).queued
    have hbound := h.standing.exits count hexit
    have hle := e.bound_le
    exact h.standing.carries (Extent.made_eq (by omega)) hqueued (by omega)
  redeployed := by
    intro hidle count limit hexisting
    rw [h.standing.existing] at hexisting
    obtain ⟨final, e', hrun, hstanding, hmade, hqueued, hbound, hpolicy⟩ :=
      h.standing.redeploys limit hidle hexisting
    refine ⟨final, hrun, hstanding.carries hmade hqueued hbound, ?_⟩
    rw [hstanding.broker]
    exact hpolicy
  refused := by
    intro hidle count limit hexisting hne
    have hguard : guards st.broker.partitionQueues.length count = true :=
      decide_eq_true ⟨hexisting, hne⟩
    simp [machine, step, hidle, hguard]
  kept := by
    intro hidle hexisting actions later hlisted hrun
    rw [h.standing.existing] at hexisting ⊢
    exact h.kept hidle hexisting hlisted hrun

/-- Whatever fails and is run again, the broker carries an initial segment of the partition
queues and every completed job's partitions; the guard makes a count immutable, and holds an
interrupted first run to the queues it got to. -/
theorem topology_jobs_provision {actions : List TopologyAction}
    (hrun : machine.run start actions = some st) :
    st.Provisioned ∧ ((∀ a ∈ actions, a.Listed) → st.Immutable) := by
  refine ⟨?_, fun hlisted => ?_⟩
  · obtain ⟨e, hstanding⟩ := standing_of_run hrun
    exact hstanding.provisioned
  · obtain ⟨e, hcompared⟩ := compared_of_run hlisted hrun
    exact hcompared.immutable

/-- A job of two partitions that dies before its second queue. -/
def interruptedJob : List TopologyAction :=
  .started 2 5 true :: List.replicate 6 .answered ++ [.failed false]

theorem topology_jobs_provision_interrupted :
    ∃ st, machine.run start interruptedJob = some st ∧ st.Provisioned ∧ st.Immutable ∧
      machine.step st (.started 2 5 true) = some (st.exit 2 false) := by
  have hend : ((machine.run start interruptedJob).any fun st =>
      decide (st.running.isNone = true ∧ st.broker.partitionQueues.length = 1)) = true := by
    decide +kernel
  obtain ⟨st, hrun, hidle, hexisting⟩ := Machine.exists_end _ hend
  obtain ⟨hprovisioned, himmutable⟩ := topology_jobs_provision hrun
  have hguarded := himmutable (by
    intro action haction
    simp only [interruptedJob, List.mem_cons, List.mem_append, List.mem_replicate,
      List.mem_nil_iff, or_false] at haction
    rcases haction with (rfl | ⟨-, rfl⟩) | rfl
    · rfl
    · trivial
    · trivial)
  refine ⟨st, hrun, hprovisioned, hguarded, hguarded.refused ?_ 2 5 (by omega) (by omega)⟩
  exact Option.isNone_iff_eq_none.mp hidle

end TopologyJobs

end Geofence
