import Geofence.Mq.Connection
/-!
# Recovery and ownership of the publisher's connection

A service that is up has an open channel or is on its way to one, as long as no event passes it
by that nothing listens to, and owns one connection at most.
-/

namespace Geofence

open Framework

namespace MqPublisherService

/-! ## Recovery -/

/-- Between the bootstrap and the shutdown, as long as the process lives, the stored channel is
open, a timer is pending or a `connect` is in progress. -/
def NotStuck (st : MqPublisherService) : Prop :=
  st.booted = true → st.closing = false → st.exited = false →
    (∃ n, st.channel = some n ∧ (st.connections n).channelOpen = true) ∨
      st.timers ≠ [] ∨ st.connects ≠ []

/-- A `connect` that runs on to its end finds the channel it is about to store open. -/
def attachesOpen (st : MqPublisherService) (k : Nat) : Bool :=
  match (st.connects[k]?).map ConnectCall.stage with
  | some (.exchangeVerified n) => (st.connections n).channelOpen
  | _ => true

/-- Until the shutdown, the broker does not close the stored channel under its connection, and no
channel is stored that has closed while `connect` was on its way to attach the handlers. -/
def KeepsChannel (st : MqPublisherService) : ConnectionAction → Prop
  | .channelCloses n => st.closing = false → st.channel ≠ some n
  | .resolves k => st.closing = false → st.attachesOpen k = true
  | _ => True

instance (st : MqPublisherService) : ∀ a, Decidable (st.KeepsChannel a)
  | .channelCloses n => inferInstanceAs (Decidable (st.closing = false → st.channel ≠ some n))
  | .resolves k => inferInstanceAs (Decidable (st.closing = false → st.attachesOpen k = true))
  | .rejects _ | .connectionCloses _ _ | .timerFires _ | .publish | .shutdown | .shutdownResumes =>
    isTrue trivial

/-- A phase that the service leaves by itself or that can publish. -/
def Phase.Alive (st : MqPublisherService) : Phase → Prop
  | .idle => st.booted = true → st.exited = true
  | .connected n => (st.connections n).channelOpen = true
  | .waiting _ | .connecting _ => True

structure Recovering (st : MqPublisherService) (phase : Phase) : Prop where
  wired : Wired st phase
  alive : st.closing = false → phase.Alive st

private theorem Recovering.notStuck {st : MqPublisherService} {phase : Phase}
    (h : Recovering st phase) : st.NotStuck := by
  intro hbooted hflag hlives
  have halive := h.alive hflag
  have hwired := h.wired
  cases phase with
  | idle =>
    have hexited : st.exited = true := halive hbooted
    rw [hlives] at hexited
    cases hexited
  | waiting timer =>
    refine Or.inr (Or.inl ?_)
    rw [hwired.timers]
    exact List.cons_ne_nil _ _
  | connecting call =>
    refine Or.inr (Or.inr ?_)
    rw [hwired.connects]
    exact List.cons_ne_nil _ _
  | connected n => exact Or.inl ⟨n, hwired.channel, halive⟩

/-- A channel that closes, or a connection that is not the stored one, leaves a phase alive unless
it is the phase's own channel. -/
theorem Phase.Alive.update {st : MqPublisherService} {phase : Phase} {n : Nat}
    {connection : AmqpConnection} (h : phase.Alive st) (hne : phase.connection? ≠ some n) :
    phase.Alive (st.setConnection n connection) := by
  cases phase with
  | idle => exact h
  | waiting timer => trivial
  | connecting call => trivial
  | connected m =>
    have hm : m ≠ n := fun heq => hne (congrArg some heq)
    change ((st.setConnection n connection).connections m).channelOpen = true
    rw [setConnection_of_ne st connection hm]
    exact h

theorem Recovering.moves {st st' : MqPublisherService} {phase phase' : Phase}
    {a : ConnectionAction} (h : Recovering st phase) (hkeeps : st.KeepsChannel a)
    (hmoves : Moves st phase a phase' st') : Recovering st' phase' := by
  refine ⟨h.wired.moves hmoves, ?_⟩
  intro hflag
  cases hmoves with
  | opens call hstage => trivial
  | createsChannel call n hstage hopen => trivial
  | verifies call n hstage hopen => trivial
  | attaches call n hstage =>
    have hopen : (st.connections n).channelOpen = true := by
      have hattaches := hkeeps hflag
      simpa [attachesOpen, h.wired.first, hstage] using hattaches
    change ((st.attach n).connections n).channelOpen = true
    simpa [attach, setConnection_self] using hopen
  | aborts call hcaller hfails =>
    intro hbooted
    have hdown := h.wired.booted.mp hcaller
    rw [show st.booted = true from hbooted] at hdown
    cases hdown
  | retries call hcaller hfails => trivial
  | exits _ a hunheard => exact fun _ => rfl
  | disconnects n a stage hopen hclosing hopenFlag => trivial
  | ends n a stage hopen hclosing hclosed =>
    change st.closing = false at hflag
    rw [hclosed] at hflag
    cases hflag
  | closesUnheard _ n a stage hopen hhandlers hclosing hheard =>
    apply (h.alive hflag).update
    intro hphase
    cases phase with
    | connected m =>
      cases hphase
      rw [h.wired.heard.attached n rfl] at hhandlers
      cases hhandlers
    | idle => cases hphase
    | waiting timer => cases hphase
    | connecting call => cases hphase
  | channelCloses _ n hopen hhandlers =>
    apply (h.alive hflag).update
    rw [← h.wired.channel]
    exact hkeeps hflag
  | fires timer => trivial
  | publishes _ => exact h.alive hflag
  | shutsDownWaiting timer hcalled => cases hflag
  | shutsDownBare _ hcalled hnone hphase => cases hflag
  | shutsDown n hcalled hopen => cases hflag
  | shutsDownThrows n hcalled hopen => cases hflag
  | closesNoChannel _ hstage =>
    have hcalled := h.wired.flag.mp hflag
    rw [hstage] at hcalled
    cases hcalled
  | closesChannel _ n hstage hopen =>
    have hcalled := h.wired.flag.mp hflag
    rw [hstage] at hcalled
    cases hcalled
  | returns _ hstage =>
    have hcalled := h.wired.flag.mp hflag
    rcases hstage with hstage | ⟨n, -, hstage | hstage⟩ <;> rw [hstage] at hcalled <;> cases hcalled

/-- A stored channel that is closed leaves nothing to wait for. -/
theorem Wired.stuck {st : MqPublisherService} {n : Nat} (h : Wired st (.connected n))
    (hflag : st.closing = false) (hlives : st.exited = false)
    (hclosed : (st.connections n).channelOpen = false) : ¬ st.NotStuck := by
  intro hnot
  have htimers : st.timers = [] := h.timers
  have hconnects : st.connects = [] := h.connects
  have hchannel : st.channel = some n := h.channel
  rcases hnot h.booted hflag hlives with ⟨m, hm, hopen⟩ | hpending | hprogress
  · rw [hchannel] at hm
    cases hm
    rw [hclosed] at hopen
    cases hopen
  · exact hpending htimers
  · exact hprogress hconnects

private theorem Wired.stuck_of_not_keeps {st st' : MqPublisherService} {phase phase' : Phase}
    {a : ConnectionAction} (h : Wired st phase) (hlives : st.exited = false)
    (hkeeps : ¬ st.KeepsChannel a)
    (hmoves : Moves st phase a phase' st') : ¬ st'.NotStuck := by
  have h' := h.moves hmoves
  cases a with
  | channelCloses n =>
    simp only [KeepsChannel, ne_eq, Classical.not_imp, not_not] at hkeeps
    obtain ⟨hflag, hchannel⟩ := hkeeps
    rw [h.channel] at hchannel
    cases hmoves with
    | exits _ _ hunheard =>
      cases hunheard with
      | ofChannel _ hopen hhandlers =>
        cases phase with
        | connected m =>
          cases hchannel
          rw [h.heard.attached n rfl] at hhandlers
          cases hhandlers
        | idle => cases hchannel
        | waiting timer => cases hchannel
        | connecting call => cases hchannel
    | closesUnheard _ m _ stage hopen hhandlers hclosing hheard => cases hclosing
    | disconnects m _ stage hopen hclosing hopenFlag => cases hclosing
    | ends m _ stage hopen hclosing hclosed => cases hclosing
    | channelCloses _ _ hopen hhandlers =>
      cases phase with
      | connected m =>
        cases hchannel
        exact h'.stuck hflag hlives (by simp [setConnection_self])
      | idle => cases hchannel
      | waiting timer => cases hchannel
      | connecting call => cases hchannel
  | resolves k =>
    simp only [KeepsChannel, Classical.not_imp, Bool.not_eq_true] at hkeeps
    obtain ⟨hflag, hattaches⟩ := hkeeps
    cases hmoves with
    | opens call hstage => simp [attachesOpen, h.first, hstage] at hattaches
    | createsChannel call n hstage hopen =>
      simp [attachesOpen, h.first, hstage] at hattaches
    | verifies call n hstage hopen => simp [attachesOpen, h.first, hstage] at hattaches
    | attaches call n hstage =>
      simp only [attachesOpen, h.first, hstage, Option.map_some] at hattaches
      exact h'.stuck hflag hlives (by simpa [attach, setConnection_self] using hattaches)
    | exits _ _ hunheard => cases hunheard
    | disconnects n _ stage hopen hclosing hopenFlag => cases hclosing
    | ends n _ stage hopen hclosing hclosed => cases hclosing
    | closesUnheard _ n _ stage hopen hhandlers hclosing hheard => cases hclosing
  | rejects k => exact absurd trivial hkeeps
  | connectionCloses n cause => exact absurd trivial hkeeps
  | timerFires id => exact absurd trivial hkeeps
  | publish => exact absurd trivial hkeeps
  | shutdown => exact absurd trivial hkeeps
  | shutdownResumes => exact absurd trivial hkeeps

/-- After a successful bootstrap and until the shutdown the publisher always has an open channel or
is on its way to one, in exactly the runs that keep the stored channel. -/
theorem never_stuck_iff {as : List ConnectionAction} {st : MqPublisherService}
    (hrun : machine.run start as = some st) :
    machine.Always NotStuck start as ↔ machine.Meets KeepsChannel start as := by
  apply machine.always_iff_meets (I := fun st => ∃ phase, Recovering st phase) ?_ ?_ ?_ ?_ hrun
  · intro st a st' hrec hkeeps hstep
    obtain ⟨phase, hrec⟩ := hrec
    obtain ⟨phase', hmoves⟩ := hrec.wired.step_moves hstep
    exact ⟨phase', hrec.moves hkeeps hmoves⟩
  · intro st hrec
    obtain ⟨phase, hrec⟩ := hrec
    exact hrec.notStuck
  · intro st a st' hrec hkeeps hstep
    obtain ⟨phase, hrec⟩ := hrec
    obtain ⟨phase', hmoves⟩ := hrec.wired.step_moves hstep
    exact hrec.wired.stuck_of_not_keeps (react_of_step hstep).1 hkeeps hmoves
  · exact ⟨_, wired_start, fun _ => trivial⟩

/-- A bootstrap, and a reconnect whose first attempt loses its connection to an operator while it
waits for the exchange. -/
def reconnectRun : List ConnectionAction :=
  [.resolves 0, .resolves 0, .resolves 0, .resolves 0, .publish, .connectionCloses 0 .failure,
    .timerFires 0, .resolves 0, .resolves 0, .connectionCloses 1 .requested, .rejects 0,
    .timerFires 1, .resolves 0, .resolves 0, .resolves 0, .resolves 0]

theorem never_stuck_reconnect :
    ∃ st, machine.run start reconnectRun = some st ∧ st.channel = some 2 ∧
      machine.Always NotStuck start reconnectRun := by
  have hsome : (machine.run start reconnectRun).any (fun st => decide (st.channel = some 2)) =
      true := by decide
  obtain ⟨st, hrun, hchannel⟩ := (Option.any_eq_true ..).mp hsome
  exact ⟨st, hrun, by simpa using hchannel, (never_stuck_iff hrun).mpr (by decide)⟩

/-- The broker closes the channel and leaves the connection open: `error` is logged, and that is
all that happens. -/
theorem stuck_after_channelCloses :
    ∃ st, machine.run start [.resolves 0, .resolves 0, .resolves 0, .resolves 0, .publish,
        .channelCloses 0] = some st ∧ st.booted = true ∧ st.closing = false ∧
      st.channel = some 0 ∧ (st.connections 0).channelOpen = false ∧
      (st.connections 0).isOpen = true ∧ st.timers = [] ∧ st.connects = [] ∧
      st.exited = false ∧ ¬ st.NotStuck := by
  refine ⟨_, rfl, rfl, rfl, rfl, rfl, rfl, rfl, rfl, rfl, ?_⟩
  intro hnot
  rcases hnot rfl rfl rfl with ⟨n, hchannel, hopen⟩ | htimers | hconnects
  · cases hchannel
    cases hopen
  · exact htimers rfl
  · exact hconnects rfl

/-! ## One connection -/

/-- At most one connection the service has opened is open, at most one timer is pending, and none
is while a `connect` is in progress. -/
structure OneConnection (st : MqPublisherService) : Prop where
  one : ∀ m n, (st.connections m).isOpen = true → (st.connections n).isOpen = true → m = n
  timers : st.timers.length ≤ 1
  apart : st.connects ≠ [] → st.timers = []

/-- The connection a phase has opened and not closed. -/
def Phase.owned? : Phase → Option Nat
  | .connecting call => call.stage.connection?
  | .connected n => some n
  | .idle | .waiting _ => none

structure Owning (st : MqPublisherService) (phase : Phase) : Prop where
  wired : Wired st phase
  owned : ∀ n, (st.connections n).isOpen = true → phase.owned? = some n

private theorem Owning.oneConnection {st : MqPublisherService} {phase : Phase}
    (h : Owning st phase) : st.OneConnection := by
  refine ⟨?_, ?_, ?_⟩
  · intro m n hm hn
    have heq := (h.owned m hm).symm.trans (h.owned n hn)
    exact Option.some.inj heq
  · rw [h.wired.timers]
    cases phase <;> simp [Phase.timers]
  · intro hconnects
    rw [h.wired.connects] at hconnects
    rw [h.wired.timers]
    cases phase with
    | connecting call => rfl
    | idle => exact absurd rfl hconnects
    | waiting timer => exact absurd rfl hconnects
    | connected n => exact absurd rfl hconnects

theorem isOpen_of_update {connections : Nat → AmqpConnection} {m n : Nat}
    {connection : AmqpConnection}
    (hopen : (Function.update connections n connection m).isOpen = true)
    (hconnection : connection.isOpen = true → (connections n).isOpen = true) :
    (connections m).isOpen = true := by
  by_cases hm : m = n
  · subst hm
    rw [Function.update_self] at hopen
    exact hconnection hopen
  · rwa [Function.update_of_ne hm] at hopen

theorem isOpen_of_close {connections : Nat → AmqpConnection} {m n : Nat}
    (hopen : (Function.update connections n (connections n).close m).isOpen = true) :
    m ≠ n ∧ (connections m).isOpen = true := by
  by_cases hm : m = n
  · subst hm
    rw [Function.update_self] at hopen
    cases hopen
  · rw [Function.update_of_ne hm] at hopen
    exact ⟨hm, hopen⟩

private theorem Owning.none_open {st : MqPublisherService} {call : ConnectCall}
    (h : Owning st (.connecting call)) (hfails : st.Fails call.stage) (n : Nat) :
    (st.connections n).isOpen = false := by
  cases hopen : (st.connections n).isOpen with
  | false => rfl
  | true =>
    have hconnection : call.stage.connection? = some n := h.owned n hopen
    cases hstage : call.stage with
    | connecting =>
      rw [hstage] at hconnection
      cases hconnection
    | creatingChannel m =>
      rw [hstage] at hconnection hfails
      cases hconnection
      exact hopen.symm.trans hfails
    | checkingExchange m =>
      rw [hstage] at hconnection hfails
      cases hconnection
      exact hopen.symm.trans hfails
    | exchangeVerified m =>
      rw [hstage] at hfails
      cases hfails

theorem Owning.moves {st st' : MqPublisherService} {phase phase' : Phase}
    {a : ConnectionAction} (h : Owning st phase) (hmoves : Moves st phase a phase' st') :
    Owning st' phase' := by
  refine ⟨h.wired.moves hmoves, ?_⟩
  intro m hopen
  cases hmoves with
  | opens call hstage =>
    by_cases hm : m = st.opened
    · rw [hm]
      rfl
    · have hbefore : (st.connections m).isOpen = true := by
        rwa [← setConnection_of_ne st ⟨true, false, false⟩ hm]
      have hnone : call.stage.connection? = some m := h.owned m hbefore
      rw [hstage] at hnone
      cases hnone
  | createsChannel call n hstage hconnection =>
    have hsome : call.stage.connection? = some m := h.owned m (isOpen_of_update hopen id)
    rw [hstage] at hsome
    exact hsome
  | verifies call n hstage hchannel =>
    have hsome : call.stage.connection? = some m := h.owned m hopen
    rw [hstage] at hsome
    exact hsome
  | attaches call n hstage =>
    have hsome : call.stage.connection? = some m := h.owned m (isOpen_of_update hopen id)
    rw [hstage] at hsome
    exact hsome
  | aborts call hcaller hfails =>
    have hclosed := h.none_open hfails m
    exact absurd (hopen.symm.trans hclosed) (by simp)
  | retries call hcaller hfails =>
    have hclosed := h.none_open hfails m
    exact absurd (hopen.symm.trans hclosed) (by simp)
  | exits _ a hunheard => cases hopen
  | disconnects n a stage hconnection hclosing hflag =>
    obtain ⟨hm, hbefore⟩ := isOpen_of_close hopen
    have hsome := h.owned m hbefore
    cases hsome
    exact absurd rfl hm
  | ends n a stage hconnection hclosing hflag =>
    obtain ⟨hm, hbefore⟩ := isOpen_of_close hopen
    have hsome := h.owned m hbefore
    cases hsome
    exact absurd rfl hm
  | closesUnheard _ n a stage hconnection hhandlers hclosing hheard =>
    exact h.owned m (isOpen_of_close hopen).2
  | channelCloses _ n hchannel hhandlers => exact h.owned m (isOpen_of_update hopen id)
  | fires timer =>
    have hnone := h.owned m hopen
    cases hnone
  | publishes _ => exact h.owned m hopen
  | shutsDownWaiting timer hcalled =>
    have hnone := h.owned m hopen
    cases hnone
  | shutsDownBare _ hcalled hnone hphase => exact h.owned m hopen
  | shutsDown n hcalled hchannel => exact h.owned m hopen
  | shutsDownThrows n hcalled hchannel => exact h.owned m hopen
  | closesNoChannel _ hstage => exact h.owned m hopen
  | closesChannel _ n hstage hconnection => exact h.owned m (isOpen_of_update hopen id)
  | returns _ hstage => exact h.owned m hopen

theorem owning_start : Owning start (.connecting ⟨.bootstrap, .connecting, false⟩) := by
  refine ⟨wired_start, ?_⟩
  intro n hopen
  cases hopen

/-- In every state of every run the service owns at most one connection and waits for at most one
timer. -/
theorem one_connection_always (as : List ConnectionAction) :
    machine.Always OneConnection start as := by
  rintro before st - hrun
  have howning : ∃ phase, Owning st phase := by
    refine machine.run_invariant (I := fun st => ∃ phase, Owning st phase) ?_
      ⟨_, owning_start⟩ hrun
    rintro st a st' ⟨phase, howning⟩ hstep
    obtain ⟨phase', hmoves⟩ := howning.wired.step_moves hstep
    exact ⟨phase', howning.moves hmoves⟩
  obtain ⟨phase, howning⟩ := howning
  exact howning.oneConnection

/-- An exchange that is missing after a reset of the broker ends the process, with the one
connection it has. -/
example : (machine.run start [.resolves 0, .resolves 0, .resolves 0, .resolves 0,
    .connectionCloses 0 .failure, .timerFires 0, .resolves 0, .resolves 0, .rejects 0]).any
      (fun st => st.exited) = true := by decide

end MqPublisherService

end Geofence
