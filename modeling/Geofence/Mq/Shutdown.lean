import Geofence.Mq.Recovery
/-!
# The shutdown of the publisher

`onApplicationShutdown` against a connection that closes, a timer that is pending and a `connect`
that is in progress.
-/

namespace Geofence

open Framework

/-- The `await` of the channel's close comes before `this.connection` is read. -/
def ShutdownStage.isClosingChannel : ShutdownStage → Bool
  | .closingChannel _ => true
  | _ => false

namespace MqPublisherService

/-- Once `onApplicationShutdown` has returned and every `connect` it found in progress has
settled, no timer is pending and no connection is open. -/
def ShutdownFinal (st : MqPublisherService) : Prop :=
  st.shutdown = .returned → (∀ call ∈ st.connects, call.closing = true) →
    st.timers = [] ∧ ∀ n, (st.connections n).isOpen = false

/-- A `connect` is about to store an open connection that the shutdown will not read any more. -/
def attachesLate (st : MqPublisherService) (k : Nat) : Bool :=
  match (st.connects[k]?).map ConnectCall.stage with
  | some (.exchangeVerified n) => (st.connections n).isOpen && !st.shutdown.isClosingChannel
  | _ => false

/-- The failure of a `connect` is caught by the timer that called it. -/
def reschedules (st : MqPublisherService) (k : Nat) : Bool :=
  (st.connects[k]?).any fun call => decide (call.caller = .timer)

/-- The stored channel is closed and its connection is not, so that closing the channel throws
before the connection is closed. -/
def skipsConnection (st : MqPublisherService) : Bool :=
  st.channel.any fun n => !(st.connections n).channelOpen && (st.connections n).isOpen

/-- After the shutdown has begun, no reconnect fails and none stores an open connection behind
its back, and the shutdown does not find the stored channel closed on an open connection. -/
def ClosesAll (st : MqPublisherService) : ConnectionAction → Prop
  | .rejects k => st.closing = true → st.reschedules k = false
  | .resolves k => st.closing = true → st.attachesLate k = false
  | .shutdown => st.skipsConnection = false
  | _ => True

instance (st : MqPublisherService) : ∀ a, Decidable (st.ClosesAll a)
  | .rejects k => inferInstanceAs (Decidable (st.closing = true → st.reschedules k = false))
  | .resolves k => inferInstanceAs (Decidable (st.closing = true → st.attachesLate k = false))
  | .shutdown => inferInstanceAs (Decidable (st.skipsConnection = false))
  | .connectionCloses _ _ | .channelCloses _ | .timerFires _ | .publish | .shutdownResumes =>
    isTrue trivial

/-- Whatever is stored and open is what the shutdown is about to close. -/
def Leads (connections : Nat → AmqpConnection) (phase : Phase) : ShutdownStage → Prop
  | .notCalled | .closingChannel none => True
  | .closingChannel (some n) => phase = .connected n ∨ phase = .idle
  | .closingConnection none | .returned =>
    ∀ n, phase = .connected n → (connections n).isOpen = false
  | .closingConnection (some n) =>
    ∀ m, phase = .connected m → m = n ∨ (connections m).isOpen = false

private theorem leads_idle (connections : Nat → AmqpConnection) (stage : ShutdownStage) :
    Leads connections .idle stage := by
  rcases stage with _ | (_ | n) | (_ | n) | _
  · trivial
  · trivial
  · exact Or.inr rfl
  · intro m hm
    cases hm
  · intro m hm
    cases hm
  · intro m hm
    cases hm

theorem Leads.connecting {connections connections' : Nat → AmqpConnection}
    {call call' : ConnectCall} {stage : ShutdownStage}
    (h : Leads connections (.connecting call) stage) :
    Leads connections' (.connecting call') stage := by
  rcases stage with _ | (_ | n) | (_ | n) | _
  · trivial
  · trivial
  · rcases h with h | h <;> cases h
  · intro m hm
    cases hm
  · intro m hm
    cases hm
  · intro m hm
    cases hm

/-- Connections that close keep what the shutdown leads to. -/
theorem Leads.mono {connections connections' : Nat → AmqpConnection} {phase : Phase}
    {stage : ShutdownStage} (h : Leads connections phase stage)
    (hle : ∀ n, (connections' n).isOpen = true → (connections n).isOpen = true) :
    Leads connections' phase stage := by
  have hclosed : ∀ n, (connections n).isOpen = false → (connections' n).isOpen = false := by
    intro n hn
    cases hn' : (connections' n).isOpen with
    | false => rfl
    | true =>
      rw [hle n hn'] at hn
      cases hn
  rcases stage with _ | (_ | n) | (_ | n) | _
  · trivial
  · trivial
  · exact h
  · intro m hm
    exact hclosed m (h m hm)
  · intro m hm
    rcases h m hm with heq | hnot
    · exact Or.inl heq
    · exact Or.inr (hclosed m hnot)
  · intro m hm
    exact hclosed m (h m hm)

theorem Leads.attach {connections connections' : Nat → AmqpConnection} {call : ConnectCall}
    {stage : ShutdownStage} {n : Nat} (h : Leads connections (.connecting call) stage)
    (hlate : stage.isClosingChannel = true ∨ stage = .notCalled ∨
      (connections' n).isOpen = false) : Leads connections' (.connected n) stage := by
  rcases stage with _ | (_ | m) | (_ | m) | _
  · trivial
  · trivial
  · rcases h with h | h <;> cases h
  · rcases hlate with hlate | hlate | hlate
    · cases hlate
    · cases hlate
    · intro m hm
      cases hm
      exact hlate
  · rcases hlate with hlate | hlate | hlate
    · cases hlate
    · cases hlate
    · intro m hm
      cases hm
      exact Or.inr hlate
  · rcases hlate with hlate | hlate | hlate
    · cases hlate
    · cases hlate
    · intro m hm
      cases hm
      exact hlate

theorem Owning.leads_closeConnection {st : MqPublisherService} {phase : Phase}
    (h : Owning st phase) : Leads st.connections phase st.closeConnection := by
  have hconnection := h.wired.connection
  unfold closeConnection
  rw [hconnection]
  cases phase with
  | connected n =>
    cases hopen : (st.connections n).isOpen with
    | true =>
      simp only [Phase.connection?, hopen, if_true]
      intro m hm
      cases hm
      exact Or.inl rfl
    | false =>
      simp only [Phase.connection?, hopen, Bool.false_eq_true, if_false]
      intro m hm
      cases hm
      exact hopen
  | idle =>
    intro m hm
    cases hm
  | waiting timer =>
    intro m hm
    cases hm
  | connecting call =>
    intro m hm
    cases hm

structure Ending (st : MqPublisherService) (phase : Phase) : Prop where
  owning : Owning st phase
  early : ∀ call, phase = .connecting call → call.closing = false
  calm : st.closing = true → ∀ timer, phase ≠ .waiting timer
  leads : Leads st.connections phase st.shutdown

theorem Ending.final {st : MqPublisherService} {phase : Phase} (h : Ending st phase) :
    st.ShutdownFinal := by
  intro hreturned hsettled
  have hwired := h.owning.wired
  have hclosing : st.closing = true := by
    cases hflag : st.closing with
    | true => rfl
    | false =>
      have hcalled := hwired.flag.mp hflag
      rw [hreturned] at hcalled
      cases hcalled
  have hleads := h.leads
  rw [hreturned] at hleads
  have hphase : ∀ call, phase ≠ .connecting call := by
    intro call hcall
    have hearly := h.early call hcall
    have hlate := hsettled call (by rw [hwired.connects, hcall]; exact List.mem_singleton_self _)
    rw [hearly] at hlate
    cases hlate
  refine ⟨?_, ?_⟩
  · rw [hwired.timers]
    cases phase with
    | waiting timer => exact absurd rfl (h.calm hclosing timer)
    | idle => rfl
    | connecting call => rfl
    | connected n => rfl
  · intro n
    cases hopen : (st.connections n).isOpen with
    | false => rfl
    | true =>
      have howned := h.owning.owned n hopen
      cases phase with
      | connected m =>
        cases howned
        have hclosed := hleads n rfl
        rw [hopen] at hclosed
        cases hclosed
      | connecting call => exact absurd rfl (hphase call)
      | idle => cases howned
      | waiting timer => cases howned

theorem Owning.ending_idle {st : MqPublisherService} (h : Owning st .idle) : Ending st .idle where
  owning := h
  early := by
    intro call hcall
    cases hcall
  calm := by
    intro _ timer htimer
    cases htimer
  leads := leads_idle _ _

theorem Owning.ending_connecting {st : MqPublisherService} {call : ConnectCall}
    (h : Owning st (.connecting call)) (hearly : call.closing = false)
    (hleads : Leads st.connections (.connecting call) st.shutdown) :
    Ending st (.connecting call) where
  owning := h
  early := by
    intro call' hcall
    cases hcall
    exact hearly
  calm := by
    intro _ timer htimer
    cases htimer
  leads := hleads

theorem Owning.ending_connected {st : MqPublisherService} {n : Nat} (h : Owning st (.connected n))
    (hleads : Leads st.connections (.connected n) st.shutdown) : Ending st (.connected n) where
  owning := h
  early := by
    intro call hcall
    cases hcall
  calm := by
    intro _ timer htimer
    cases htimer
  leads := hleads

theorem Owning.ending_waiting {st : MqPublisherService} {timer : ReconnectTimer}
    (h : Owning st (.waiting timer)) (hflag : st.closing = false) : Ending st (.waiting timer) where
  owning := h
  early := by
    intro call hcall
    cases hcall
  calm := by
    intro hclosing
    rw [hflag] at hclosing
    cases hclosing
  leads := by
    rw [h.wired.flag.mp hflag]
    trivial

private theorem Ending.attaches {st : MqPublisherService} {call : ConnectCall} {n : Nat}
    (h : Ending st (.connecting call)) (hstage : call.stage = .exchangeVerified n)
    (hcloses : st.ClosesAll (.resolves 0)) :
    Leads (st.attach n).connections (.connected n) st.shutdown := by
  apply h.leads.attach
  cases hflag : st.closing with
  | false => exact Or.inr (Or.inl (h.owning.wired.flag.mp hflag))
  | true =>
    have hlate := hcloses hflag
    simp only [attachesLate, h.owning.wired.first, hstage, Option.map_some, Bool.and_eq_false_iff,
      Bool.not_eq_false'] at hlate
    rcases hlate with hclosed | hreads
    · refine Or.inr (Or.inr ?_)
      simpa [attach, setConnection_self] using hclosed
    · exact Or.inl hreads

private theorem Ending.closesUnheard {st : MqPublisherService} {phase : Phase} {n : Nat}
    {a : ConnectionAction} {stage : ShutdownStage} (h : Ending st phase)
    (hclosing : Closing st n a stage) :
    Leads (Function.update st.connections n (st.connections n).close) phase stage := by
  have hkept : Leads (Function.update st.connections n (st.connections n).close) phase
      st.shutdown := h.leads.mono fun m hm => (isOpen_of_close hm).2
  cases hclosing with
  | byBroker cause => exact hkept
  | byShutdown hstage =>
    rw [hstage] at hkept
    intro m hm
    rcases hkept m hm with heq | hclosed
    · change (Function.update st.connections n (st.connections n).close m).isOpen = false
      rw [heq, Function.update_self]
      rfl
    · exact hclosed

private theorem Ending.returns {st : MqPublisherService} {phase : Phase} (h : Ending st phase)
    (hstage : st.shutdown = .closingConnection none ∨
      ∃ n, (st.connections n).isOpen = false ∧
        (st.shutdown = .closingChannel (some n) ∨ st.shutdown = .closingConnection (some n))) :
    Leads st.connections phase .returned := by
  have hleads := h.leads
  intro m hm
  rcases hstage with hstage | ⟨n, hclosed, hstage | hstage⟩
  · rw [hstage] at hleads
    exact hleads m hm
  · rw [hstage] at hleads
    rcases hleads with hconnected | hidle
    · rw [hm] at hconnected
      cases hconnected
      exact hclosed
    · rw [hm] at hidle
      cases hidle
  · rw [hstage] at hleads
    rcases hleads m hm with heq | hnot
    · rw [heq]
      exact hclosed
    · exact hnot

theorem Ending.moves {st st' : MqPublisherService} {phase phase' : Phase}
    {a : ConnectionAction} (h : Ending st phase) (hcloses : st.ClosesAll a)
    (hmoves : Moves st phase a phase' st') : Ending st' phase' := by
  have howning := h.owning.moves hmoves
  have hwired := h.owning.wired
  cases hmoves with
  | opens call hstage => exact howning.ending_connecting (h.early call rfl) h.leads.connecting
  | createsChannel call n hstage hconnection =>
    exact howning.ending_connecting (h.early call rfl) h.leads.connecting
  | verifies call n hstage hchannel =>
    exact howning.ending_connecting (h.early call rfl) h.leads.connecting
  | attaches call n hstage => exact howning.ending_connected (h.attaches hstage hcloses)
  | aborts call hcaller hfails => exact howning.ending_idle
  | exits _ a hunheard => exact howning.ending_idle
  | retries call hcaller hfails =>
    apply howning.ending_waiting
    change st.closing = false
    cases hflag : st.closing with
    | false => rfl
    | true =>
      have hnot := hcloses hflag
      simp [reschedules, h.owning.wired.first, hcaller] at hnot
  | disconnects n a stage hconnection hclosing hflag => exact howning.ending_waiting hflag
  | ends n a stage hconnection hclosing hflag => exact howning.ending_idle
  | closesUnheard _ n a stage hconnection hhandlers hclosing hheard =>
    exact ⟨howning, h.early, h.calm, h.closesUnheard hclosing⟩
  | channelCloses _ n hchannel hhandlers =>
    exact ⟨howning, h.early, h.calm, h.leads.mono fun m hm => isOpen_of_update hm id⟩
  | fires timer =>
    have hflag : st.closing = false := by
      cases hflag : st.closing with
      | false => rfl
      | true => exact absurd rfl (h.calm hflag timer)
    apply howning.ending_connecting hflag
    change Leads _ _ st.shutdown
    rw [hwired.flag.mp hflag]
    trivial
  | publishes _ => exact h
  | shutsDownWaiting timer hcalled => exact howning.ending_idle
  | shutsDownBare _ hcalled hnone hphase =>
    refine ⟨howning, h.early, ?_, trivial⟩
    intro _ timer htimer
    rw [hwired.timers, htimer] at hnone
    cases hnone
  | shutsDown n hcalled hchannel => exact howning.ending_connected (Or.inl rfl)
  | shutsDownThrows n hcalled hchannel =>
    apply howning.ending_connected
    intro m hm
    cases hm
    have hskips : st.skipsConnection = false := hcloses
    simpa [skipsConnection, hwired.channel, Phase.connection?, hchannel] using hskips
  | closesNoChannel _ hstage => exact ⟨howning, h.early, h.calm, h.owning.leads_closeConnection⟩
  | closesChannel _ n hstage hconnection =>
    exact ⟨howning, h.early, h.calm,
      h.owning.leads_closeConnection.mono fun m hm => isOpen_of_update hm id⟩
  | returns _ hstage => exact ⟨howning, h.early, h.calm, h.returns hstage⟩

/-- In every run of the service whose steps leave nothing to the shutdown that it cannot close,
the shutdown is final. -/
theorem shutdown_final_always {as : List ConnectionAction}
    (hmeets : machine.Meets ClosesAll start as) : machine.Always ShutdownFinal start as := by
  refine machine.always_of_meets (I := fun st => ∃ phase, Ending st phase) ?_ ?_ ?_ hmeets
  · intro st a st' hending hcloses hstep
    obtain ⟨phase, hending⟩ := hending
    obtain ⟨phase', hmoves⟩ := hending.owning.wired.step_moves hstep
    exact ⟨phase', hending.moves hcloses hmoves⟩
  · intro st hending
    obtain ⟨phase, hending⟩ := hending
    exact hending.final
  · refine ⟨_, owning_start, ?_, ?_, trivial⟩
    · intro call hcall
      cases hcall
      rfl
    · intro hclosing
      cases hclosing

/-- A reconnect, and then a shutdown that closes the channel and the connection. -/
def shutdownRun : List ConnectionAction :=
  [.resolves 0, .resolves 0, .resolves 0, .resolves 0, .connectionCloses 0 .failure, .timerFires 0,
    .resolves 0, .resolves 0, .resolves 0, .resolves 0, .shutdown, .shutdownResumes,
    .shutdownResumes]

theorem shutdown_final_after_reconnect :
    (∃ st, machine.run start shutdownRun = some st ∧ st.shutdown = .returned) ∧
      machine.Always ShutdownFinal start shutdownRun := by
  refine ⟨⟨_, rfl, rfl⟩, shutdown_final_always ?_⟩
  decide

theorem not_shutdownFinal {st : MqPublisherService} (hreturned : st.shutdown = .returned)
    (hconnects : st.connects = [])
    (hleft : st.timers ≠ [] ∨ ∃ n, (st.connections n).isOpen = true) : ¬ st.ShutdownFinal := by
  intro hfinal
  have hsettled : ∀ call ∈ st.connects, call.closing = true := by
    rw [hconnects]
    intro call hcall
    cases hcall
  obtain ⟨htimers, hclosed⟩ := hfinal hreturned hsettled
  rcases hleft with hpending | ⟨n, hopen⟩
  · exact hpending htimers
  · rw [hclosed n] at hopen
    cases hopen

/-- A shutdown while a reconnect waits for its channel: the reconnect succeeds and stores an open
connection, or it fails and sets the next timer. -/
theorem reconnect_survives_shutdown :
    (∃ st, machine.run start [.resolves 0, .resolves 0, .resolves 0, .resolves 0,
        .connectionCloses 0 .failure, .timerFires 0, .resolves 0, .shutdown, .shutdownResumes,
        .shutdownResumes, .resolves 0, .resolves 0, .resolves 0] = some st ∧
      st.shutdown = .returned ∧ st.connects = [] ∧ (st.connections 1).isOpen = true ∧
      ¬ st.ShutdownFinal) ∧
    ∃ st, machine.run start [.resolves 0, .resolves 0, .resolves 0, .resolves 0,
        .connectionCloses 0 .failure, .timerFires 0, .shutdown, .shutdownResumes, .shutdownResumes,
        .rejects 0] = some st ∧
      st.shutdown = .returned ∧ st.connects = [] ∧ st.timers = [⟨1, 1000⟩] ∧
      ¬ st.ShutdownFinal := by
  refine ⟨⟨_, rfl, rfl, rfl, rfl, ?_⟩, ⟨_, rfl, rfl, rfl, rfl, ?_⟩⟩
  · exact not_shutdownFinal rfl rfl (Or.inr ⟨1, rfl⟩)
  · exact not_shutdownFinal rfl rfl (Or.inl (List.cons_ne_nil _ _))

end MqPublisherService

end Geofence
