import Geofence.Framework.Machine
import Mathlib.Algebra.Group.Nat.Defs
/-!
# The connection of `MqPublisherService`

`connect`, its reconnect timer and `onApplicationShutdown`, over the connections the service has
opened. Every `await` is a point where the broker, a timer or the shutdown may come in between.
`connect` attaches its handlers after its last `await`: an `error` that a connection or a channel
emits before that is heard by nobody, and ends the process.
-/

namespace Geofence

open Framework

def RECONNECT_BASE_DELAY_MS : Nat := 500

def RECONNECT_MAX_DELAY_MS : Nat := 5000

/-- A connection `amqp.connect` has given, with the one channel the service opens on it and
whether `connect` has attached its handlers to both. -/
structure AmqpConnection where
  isOpen : Bool
  channelOpen : Bool
  handlers : Bool
  deriving DecidableEq, Repr

/-- A closed connection takes its channel with it. -/
def AmqpConnection.close (connection : AmqpConnection) : AmqpConnection :=
  { connection with isOpen := false, channelOpen := false }

/-- A connection that ends on request, of the operator or of the service, emits `close` alone;
one that fails emits `error` first. -/
inductive CloseCause where
  | requested
  | failure
  deriving DecidableEq, Repr

/-- Who awaits the call: a failed bootstrap aborts the boot, a failed reconnect is scheduled
again. -/
inductive ConnectCaller where
  | bootstrap
  | timer
  deriving DecidableEq, Repr

/-- The `await` a call of `connect` is at, with the connection it has opened; `exchangeVerified`
is a call whose last `await` is answered and that has not run on yet. -/
inductive ConnectStage where
  | connecting
  | creatingChannel (connection : Nat)
  | checkingExchange (connection : Nat)
  | exchangeVerified (connection : Nat)
  deriving DecidableEq, Repr

def ConnectStage.connection? : ConnectStage → Option Nat
  | .connecting => none
  | .creatingChannel n | .checkingExchange n | .exchangeVerified n => some n

/-- A call of `connect` in progress; `closing` is the flag as it was when the call began. -/
structure ConnectCall where
  caller : ConnectCaller
  stage : ConnectStage
  closing : Bool
  deriving DecidableEq, Repr

structure ReconnectTimer where
  id : Nat
  delay : Nat
  deriving DecidableEq, Repr

/-- The `await` of `onApplicationShutdown`, with the object it closes. -/
inductive ShutdownStage where
  | notCalled
  | closingChannel (channel : Option Nat)
  | closingConnection (connection : Option Nat)
  | returned
  deriving DecidableEq, Repr

/-- The service's fields, the connections it has opened, the timers that have not fired and the
calls that have not returned. -/
structure MqPublisherService where
  connection : Option Nat
  channel : Option Nat
  closing : Bool
  reconnectTimer : Option Nat
  reconnectAttempt : Nat
  connections : Nat → AmqpConnection
  opened : Nat
  timers : List ReconnectTimer
  timersSet : Nat
  connects : List ConnectCall
  booted : Bool
  shutdown : ShutdownStage
  exited : Bool

/-- What may happen next: the `await` of a `connect` is answered or fails, the broker or the
network closes a connection or a channel, a timer fires, a request publishes, the application
shuts down. -/
inductive ConnectionAction where
  | resolves (call : Nat)
  | rejects (call : Nat)
  | connectionCloses (connection : Nat) (cause : CloseCause)
  | channelCloses (channel : Nat)
  | timerFires (timer : Nat)
  | publish
  | shutdown
  | shutdownResumes
  deriving DecidableEq, Repr

namespace MqPublisherService

/-- The bootstrap has called `connect`. -/
def start : MqPublisherService where
  connection := none
  channel := none
  closing := false
  reconnectTimer := none
  reconnectAttempt := 0
  connections := fun _ => ⟨false, false, false⟩
  opened := 0
  timers := []
  timersSet := 0
  connects := [⟨.bootstrap, .connecting, false⟩]
  booted := false
  shutdown := .notCalled
  exited := false

def scheduleReconnect (st : MqPublisherService) : MqPublisherService :=
  { st with
    reconnectAttempt := st.reconnectAttempt + 1
    reconnectTimer := some st.timersSet
    timers := st.timers ++ [⟨st.timersSet,
      min (RECONNECT_BASE_DELAY_MS * 2 ^ st.reconnectAttempt) RECONNECT_MAX_DELAY_MS⟩]
    timersSet := st.timersSet + 1 }

/-- The `close` handler of `connect`. -/
def onClose (st : MqPublisherService) : MqPublisherService :=
  if st.closing then { st with connection := none, channel := none }
  else scheduleReconnect { st with connection := none, channel := none }

def setConnection (st : MqPublisherService) (n : Nat) (connection : AmqpConnection) :
    MqPublisherService :=
  { st with connections := Function.update st.connections n connection }

/-- An `error` without a listener is thrown and ends the process: its connections close, and its
timers and calls are gone. -/
def exit (st : MqPublisherService) : MqPublisherService :=
  { st with
    connection := none
    channel := none
    connections := fun n => (st.connections n).close
    timers := []
    connects := []
    exited := true }

/-- A connection is gone. Before the handlers are attached nobody hears its `close`, and its
`error` ends the process. -/
def connectionClosed (st : MqPublisherService) (n : Nat) (cause : CloseCause) :
    MqPublisherService :=
  if (st.connections n).handlers then (st.setConnection n (st.connections n).close).onClose
  else
    match cause with
    | .requested => st.setConnection n (st.connections n).close
    | .failure => st.exit

/-- A channel the broker closes emits `error`, which the handler only logs. -/
def channelClosed (st : MqPublisherService) (n : Nat) : MqPublisherService :=
  if (st.connections n).handlers then
    st.setConnection n { st.connections n with channelOpen := false }
  else st.exit

/-- The rest of `connect` once the exchange is verified: the handlers, then the fields. -/
def attach (st : MqPublisherService) (n : Nat) : MqPublisherService :=
  { st.setConnection n { st.connections n with handlers := true } with
    connection := some n
    channel := some n
    reconnectAttempt := 0 }

/-- The awaited call of `connect` is answered. A channel is only created on an open connection,
and an exchange only found through an open channel. -/
def resolve (st : MqPublisherService) (k : Nat) (call : ConnectCall) :
    Option MqPublisherService :=
  match call.stage with
  | .connecting =>
    some { st.setConnection st.opened ⟨true, false, false⟩ with
      opened := st.opened + 1
      connects := st.connects.set k { call with stage := .creatingChannel st.opened } }
  | .creatingChannel n =>
    if (st.connections n).isOpen then
      some { st.setConnection n { st.connections n with channelOpen := true } with
        connects := st.connects.set k { call with stage := .checkingExchange n } }
    else none
  | .checkingExchange n =>
    if (st.connections n).channelOpen then
      some { st with connects := st.connects.set k { call with stage := .exchangeVerified n } }
    else none
  | .exchangeVerified n =>
    some { st.attach n with
      connects := st.connects.eraseIdx k
      booted := st.booted || decide (call.caller = .bootstrap) }

/-- `connect` fails: the boot is aborted, or the timer's `catch` schedules the next attempt. -/
def failConnect (st : MqPublisherService) (k : Nat) (call : ConnectCall) : MqPublisherService :=
  match call.caller with
  | .bootstrap => { st with connects := st.connects.eraseIdx k }
  | .timer => scheduleReconnect { st with connects := st.connects.eraseIdx k }

/-- The awaited call of `connect` fails. On an open connection it fails because the broker closes
the channel, as it does for an exchange that is missing, and nobody hears the `error` of that. -/
def reject (st : MqPublisherService) (k : Nat) (call : ConnectCall) :
    Option MqPublisherService :=
  match call.stage with
  | .connecting => some (st.failConnect k call)
  | .creatingChannel n | .checkingExchange n =>
    if (st.connections n).isOpen then some st.exit else some (st.failConnect k call)
  | .exchangeVerified _ => none

/-- `this.channel?.close()`, the first `await` of `onApplicationShutdown`; closing a channel that
is closed throws, and the `catch` ends the call. -/
def closeChannel (st : MqPublisherService) : ShutdownStage :=
  match st.channel with
  | none => .closingChannel none
  | some n => if (st.connections n).channelOpen then .closingChannel (some n) else .returned

/-- `this.connection?.close()`, the second one. -/
def closeConnection (st : MqPublisherService) : ShutdownStage :=
  match st.connection with
  | none => .closingConnection none
  | some n => if (st.connections n).isOpen then .closingConnection (some n) else .returned

def onApplicationShutdown (st : MqPublisherService) : MqPublisherService :=
  { st with
    closing := true
    timers := st.timers.filter fun timer => decide (st.reconnectTimer ≠ some timer.id)
    shutdown := st.closeChannel }

/-- The `await` of `onApplicationShutdown` is over. -/
def resumeShutdown (st : MqPublisherService) : Option MqPublisherService :=
  match st.shutdown with
  | .notCalled | .returned => none
  | .closingChannel none => some { st with shutdown := st.closeConnection }
  | .closingChannel (some n) =>
    if (st.connections n).isOpen then
      some { st.setConnection n { st.connections n with channelOpen := false } with
        shutdown := st.closeConnection }
    else some { st with shutdown := .returned }
  | .closingConnection none => some { st with shutdown := .returned }
  | .closingConnection (some n) =>
    if (st.connections n).isOpen then
      some { st.connectionClosed n .requested with shutdown := .returned }
    else some { st with shutdown := .returned }

/-- What the running process does; `publish` reads `channel` and writes no field. -/
def react (st : MqPublisherService) : ConnectionAction → Option MqPublisherService
  | .resolves k => st.connects[k]?.bind (st.resolve k)
  | .rejects k => st.connects[k]?.bind (st.reject k)
  | .connectionCloses n cause =>
    if (st.connections n).isOpen then some (st.connectionClosed n cause) else none
  | .channelCloses n =>
    if (st.connections n).channelOpen then some (st.channelClosed n) else none
  | .timerFires id =>
    if st.timers.any fun timer => decide (timer.id = id) then
      some { st with
        timers := st.timers.filter fun timer => decide (timer.id ≠ id)
        connects := st.connects ++ [⟨.timer, .connecting, st.closing⟩] }
    else none
  | .publish => some st
  | .shutdown => if st.shutdown = .notCalled then some st.onApplicationShutdown else none
  | .shutdownResumes => st.resumeShutdown

def step (st : MqPublisherService) (a : ConnectionAction) : Option MqPublisherService :=
  if st.exited then none else st.react a

def machine : Machine MqPublisherService ConnectionAction := ⟨step⟩

/-! ## One thing at a time -/

/-- What the service waits for: a timer, a call of `connect`, the end of its connection, or
nothing any more. -/
inductive Phase where
  | idle
  | waiting (timer : ReconnectTimer)
  | connecting (call : ConnectCall)
  | connected (connection : Nat)

namespace Phase

def timers : Phase → List ReconnectTimer
  | .waiting timer => [timer]
  | _ => []

def connects : Phase → List ConnectCall
  | .connecting call => [call]
  | _ => []

def connection? : Phase → Option Nat
  | .connected n => some n
  | _ => none

/-- A timer that is pending is the one in the field. -/
def Pending (reconnectTimer : Option Nat) : Phase → Prop
  | .waiting timer => reconnectTimer = some timer.id
  | _ => True

/-- A bootstrap is connecting until the service is up for the first time. -/
def Booted (booted : Bool) : Phase → Prop
  | .idle => True
  | .waiting _ | .connected _ => booted = true
  | .connecting call => call.caller = .bootstrap ↔ booted = false

end Phase

/-- Only the connection the service has stored is heard when it closes. -/
structure Heard (connections : Nat → AmqpConnection) (phase : Phase) : Prop where
  stored : ∀ n, (connections n).isOpen = true → (connections n).handlers = true →
    phase = .connected n
  attached : ∀ n, phase = .connected n → (connections n).handlers = true
  live : ∀ n, (connections n).channelOpen = true → (connections n).isOpen = true

/-- The service is in one phase. -/
structure Wired (st : MqPublisherService) (phase : Phase) : Prop where
  connects : st.connects = phase.connects
  timers : st.timers = phase.timers
  connection : st.connection = phase.connection?
  channel : st.channel = phase.connection?
  pending : phase.Pending st.reconnectTimer
  booted : phase.Booted st.booted
  flag : st.closing = false ↔ st.shutdown = .notCalled
  heard : Heard st.connections phase

theorem Heard.update {connections : Nat → AmqpConnection} {phase : Phase} {n : Nat}
    {connection : AmqpConnection} (h : Heard connections phase)
    (hstored : connection.isOpen = true → connection.handlers = true → phase = .connected n)
    (hattached : phase = .connected n → connection.handlers = true)
    (hlive : connection.channelOpen = true → connection.isOpen = true) :
    Heard (Function.update connections n connection) phase := by
  refine ⟨?_, ?_, ?_⟩
  · intro m hopen hhandler
    by_cases hm : m = n
    · subst hm
      rw [Function.update_self] at hopen hhandler
      exact hstored hopen hhandler
    · rw [Function.update_of_ne hm] at hopen hhandler
      exact h.stored m hopen hhandler
  · intro m hphase
    by_cases hm : m = n
    · subst hm
      rw [Function.update_self]
      exact hattached hphase
    · rw [Function.update_of_ne hm]
      exact h.attached m hphase
  · intro m hopen
    by_cases hm : m = n
    · subst hm
      rw [Function.update_self] at hopen ⊢
      exact hlive hopen
    · rw [Function.update_of_ne hm] at hopen ⊢
      exact h.live m hopen

theorem Heard.leave {connections : Nat → AmqpConnection} {phase phase' : Phase}
    (h : Heard connections phase) (hphase : phase.connection? = none)
    (hphase' : phase'.connection? = none) : Heard connections phase' := by
  refine ⟨?_, ?_, h.live⟩
  · intro n hopen hhandler
    rw [h.stored n hopen hhandler] at hphase
    cases hphase
  · intro n hconnected
    rw [hconnected] at hphase'
    cases hphase'

theorem Heard.closeChannel {connections : Nat → AmqpConnection} {phase : Phase}
    (h : Heard connections phase) (n : Nat) :
    Heard (Function.update connections n { connections n with channelOpen := false }) phase :=
  h.update (h.stored n) (h.attached n) (fun hopen => nomatch hopen)

theorem Heard.disconnect {connections : Nat → AmqpConnection} {phase' : Phase} {n : Nat}
    (h : Heard connections (.connected n)) (hphase' : phase'.connection? = none) :
    Heard (Function.update connections n (connections n).close) phase' := by
  have hclosed : Heard (Function.update connections n (connections n).close) (.connected n) :=
    h.update (fun _ _ => rfl) (h.attached n) (fun hopen => nomatch hopen)
  refine ⟨?_, ?_, hclosed.live⟩
  · intro m hopen hhandler
    have hconnected := hclosed.stored m hopen hhandler
    injection hconnected with hm
    subst hm
    rw [Function.update_self] at hopen
    cases hopen
  · intro m hconnected
    rw [hconnected] at hphase'
    cases hphase'

/-- A connection whose handler is being attached is stored by the same step. -/
theorem Heard.attach {connections : Nat → AmqpConnection} {phase : Phase}
    (h : Heard connections phase) (hphase : phase.connection? = none) (n : Nat) :
    Heard (Function.update connections n { connections n with handlers := true })
      (.connected n) := by
  refine ⟨?_, ?_, ?_⟩
  · intro m hopen hhandler
    by_cases hm : m = n
    · rw [hm]
    · rw [Function.update_of_ne hm] at hopen hhandler
      rw [h.stored m hopen hhandler] at hphase
      cases hphase
  · intro m hconnected
    injection hconnected with hm
    rw [hm, Function.update_self]
  · intro m hopen
    by_cases hm : m = n
    · subst hm
      rw [Function.update_self] at hopen ⊢
      exact h.live m hopen
    · rw [Function.update_of_ne hm] at hopen ⊢
      exact h.live m hopen

theorem wired_start : Wired start (.connecting ⟨.bootstrap, .connecting, false⟩) where
  connects := rfl
  timers := rfl
  connection := rfl
  channel := rfl
  pending := trivial
  booted := by simp [Phase.Booted, start]
  flag := by simp [start]
  heard := by
    refine ⟨?_, ?_, ?_⟩
    · intro n hopen
      cases hopen
    · intro n h
      cases h
    · intro n hopen
      cases hopen

/-- A connection closes: by itself, or as the last thing `onApplicationShutdown` waits for. -/
inductive Closing (st : MqPublisherService) (n : Nat) : ConnectionAction → ShutdownStage → Prop
  | byBroker (cause : CloseCause) : Closing st n (.connectionCloses n cause) st.shutdown
  | byShutdown : st.shutdown = .closingConnection (some n) → Closing st n .shutdownResumes .returned

/-- The timer `scheduleReconnect` sets. -/
def nextTimer (st : MqPublisherService) : ReconnectTimer :=
  ⟨st.timersSet, min (RECONNECT_BASE_DELAY_MS * 2 ^ st.reconnectAttempt) RECONNECT_MAX_DELAY_MS⟩

/-- A `connect` that fails has no connection, or one that is closed. -/
def Fails (st : MqPublisherService) : ConnectStage → Prop
  | .connecting => True
  | .creatingChannel n | .checkingExchange n => (st.connections n).isOpen = false
  | .exchangeVerified _ => False

/-- An `error` of an object that `connect` has not attached its handlers to. -/
inductive Unheard (st : MqPublisherService) : ConnectionAction → Prop
  | ofConnection (n : Nat) : (st.connections n).isOpen = true →
    (st.connections n).handlers = false → Unheard st (.connectionCloses n .failure)
  | ofChannel (n : Nat) : (st.connections n).channelOpen = true →
    (st.connections n).handlers = false → Unheard st (.channelCloses n)
  | ofCall (k : Nat) (call : ConnectCall) (n : Nat) : st.connects[k]? = some call →
    (call.stage = .creatingChannel n ∨ call.stage = .checkingExchange n) →
    (st.connections n).isOpen = true → Unheard st (.rejects k)

/-- Everything a step can do to a service in a phase. -/
inductive Moves (st : MqPublisherService) :
    Phase → ConnectionAction → Phase → MqPublisherService → Prop
  | opens (call : ConnectCall) : call.stage = .connecting →
    Moves st (.connecting call) (.resolves 0)
      (.connecting { call with stage := .creatingChannel st.opened })
      { st.setConnection st.opened ⟨true, false, false⟩ with
        opened := st.opened + 1
        connects := [{ call with stage := .creatingChannel st.opened }] }
  | createsChannel (call : ConnectCall) (n : Nat) : call.stage = .creatingChannel n →
    (st.connections n).isOpen = true →
    Moves st (.connecting call) (.resolves 0)
      (.connecting { call with stage := .checkingExchange n })
      { st.setConnection n { st.connections n with channelOpen := true } with
        connects := [{ call with stage := .checkingExchange n }] }
  | verifies (call : ConnectCall) (n : Nat) : call.stage = .checkingExchange n →
    (st.connections n).channelOpen = true →
    Moves st (.connecting call) (.resolves 0)
      (.connecting { call with stage := .exchangeVerified n })
      { st with connects := [{ call with stage := .exchangeVerified n }] }
  | attaches (call : ConnectCall) (n : Nat) : call.stage = .exchangeVerified n →
    Moves st (.connecting call) (.resolves 0) (.connected n)
      { st.attach n with
        connects := []
        booted := st.booted || decide (call.caller = .bootstrap) }
  | aborts (call : ConnectCall) : call.caller = .bootstrap → st.Fails call.stage →
    Moves st (.connecting call) (.rejects 0) .idle { st with connects := [] }
  | retries (call : ConnectCall) : call.caller = .timer → st.Fails call.stage →
    Moves st (.connecting call) (.rejects 0) (.waiting st.nextTimer)
      (scheduleReconnect { st with connects := [] })
  | exits (phase : Phase) (a : ConnectionAction) : st.Unheard a → Moves st phase a .idle st.exit
  | disconnects (n : Nat) (a : ConnectionAction) (stage : ShutdownStage) :
    (st.connections n).isOpen = true → Closing st n a stage → st.closing = false →
    Moves st (.connected n) a (.waiting st.nextTimer)
      { (scheduleReconnect { st.setConnection n (st.connections n).close with
          connection := none, channel := none }) with shutdown := stage }
  | ends (n : Nat) (a : ConnectionAction) (stage : ShutdownStage) :
    (st.connections n).isOpen = true → Closing st n a stage → st.closing = true →
    Moves st (.connected n) a .idle
      { st.setConnection n (st.connections n).close with
        connection := none, channel := none, shutdown := stage }
  | closesUnheard (phase : Phase) (n : Nat) (a : ConnectionAction) (stage : ShutdownStage) :
    (st.connections n).isOpen = true → (st.connections n).handlers = false →
    Closing st n a stage → a ≠ .connectionCloses n .failure →
    Moves st phase a phase { st.setConnection n (st.connections n).close with shutdown := stage }
  | channelCloses (phase : Phase) (n : Nat) : (st.connections n).channelOpen = true →
    (st.connections n).handlers = true →
    Moves st phase (.channelCloses n) phase
      (st.setConnection n { st.connections n with channelOpen := false })
  | fires (timer : ReconnectTimer) :
    Moves st (.waiting timer) (.timerFires timer.id)
      (.connecting ⟨.timer, .connecting, st.closing⟩)
      { st with timers := [], connects := [⟨.timer, .connecting, st.closing⟩] }
  | publishes (phase : Phase) : Moves st phase .publish phase st
  | shutsDownWaiting (timer : ReconnectTimer) : st.shutdown = .notCalled →
    Moves st (.waiting timer) .shutdown .idle
      { st with closing := true, timers := [], shutdown := .closingChannel none }
  | shutsDownBare (phase : Phase) : st.shutdown = .notCalled → st.timers = [] →
    phase.connection? = none →
    Moves st phase .shutdown phase { st with closing := true, shutdown := .closingChannel none }
  | shutsDown (n : Nat) : st.shutdown = .notCalled → (st.connections n).channelOpen = true →
    Moves st (.connected n) .shutdown (.connected n)
      { st with closing := true, shutdown := .closingChannel (some n) }
  | shutsDownThrows (n : Nat) : st.shutdown = .notCalled → (st.connections n).channelOpen = false →
    Moves st (.connected n) .shutdown (.connected n)
      { st with closing := true, shutdown := .returned }
  | closesNoChannel (phase : Phase) : st.shutdown = .closingChannel none →
    Moves st phase .shutdownResumes phase { st with shutdown := st.closeConnection }
  | closesChannel (phase : Phase) (n : Nat) : st.shutdown = .closingChannel (some n) →
    (st.connections n).isOpen = true →
    Moves st phase .shutdownResumes phase
      { st.setConnection n { st.connections n with channelOpen := false } with
        shutdown := st.closeConnection }
  | returns (phase : Phase) :
    (st.shutdown = .closingConnection none ∨ ∃ n, (st.connections n).isOpen = false ∧
      (st.shutdown = .closingChannel (some n) ∨ st.shutdown = .closingConnection (some n))) →
    Moves st phase .shutdownResumes phase { st with shutdown := .returned }

theorem setConnection_of_ne (st : MqPublisherService) {m n : Nat} (connection : AmqpConnection)
    (h : m ≠ n) : (st.setConnection n connection).connections m = st.connections m :=
  Function.update_of_ne h ..

theorem setConnection_self (st : MqPublisherService) (n : Nat)
    (connection : AmqpConnection) : (st.setConnection n connection).connections n = connection :=
  Function.update_self ..

theorem Wired.first {st : MqPublisherService} {call : ConnectCall}
    (h : Wired st (.connecting call)) : st.connects[0]? = some call := by
  rw [h.connects]
  rfl

theorem Wired.calls {st : MqPublisherService} {phase : Phase} {k : Nat} {call : ConnectCall}
    (h : Wired st phase) (hcall : st.connects[k]? = some call) :
    k = 0 ∧ phase = .connecting call := by
  rw [h.connects] at hcall
  cases phase with
  | idle => cases hcall
  | waiting timer => cases hcall
  | connected n => cases hcall
  | connecting call' =>
    cases k with
    | zero =>
      cases hcall
      exact ⟨rfl, rfl⟩
    | succ k => cases hcall

private theorem resolve_moves {st st' : MqPublisherService} {call : ConnectCall}
    (h : Wired st (.connecting call)) (hresolve : st.resolve 0 call = some st') :
    ∃ phase', Moves st (.connecting call) (.resolves 0) phase' st' := by
  have hconnects : st.connects = [call] := h.connects
  unfold resolve at hresolve
  rw [hconnects] at hresolve
  cases hstage : call.stage with
  | connecting =>
    rw [hstage] at hresolve
    cases hresolve
    exact ⟨_, .opens call hstage⟩
  | creatingChannel n =>
    simp only [hstage] at hresolve
    by_cases hopen : (st.connections n).isOpen = true
    · rw [if_pos hopen] at hresolve
      cases hresolve
      exact ⟨_, .createsChannel call n hstage hopen⟩
    · rw [if_neg hopen] at hresolve
      cases hresolve
  | checkingExchange n =>
    simp only [hstage] at hresolve
    by_cases hopen : (st.connections n).channelOpen = true
    · rw [if_pos hopen] at hresolve
      cases hresolve
      exact ⟨_, .verifies call n hstage hopen⟩
    · rw [if_neg hopen] at hresolve
      cases hresolve
  | exchangeVerified n =>
    rw [hstage] at hresolve
    cases hresolve
    exact ⟨_, .attaches call n hstage⟩

private theorem fail_moves {st : MqPublisherService} {call : ConnectCall}
    (h : Wired st (.connecting call)) (hfails : st.Fails call.stage) :
    ∃ phase', Moves st (.connecting call) (.rejects 0) phase' (st.failConnect 0 call) := by
  have hconnects : st.connects = [call] := h.connects
  unfold failConnect
  rw [hconnects]
  cases hcaller : call.caller with
  | bootstrap => exact ⟨_, .aborts call hcaller hfails⟩
  | timer => exact ⟨_, .retries call hcaller hfails⟩

private theorem reject_moves {st st' : MqPublisherService} {call : ConnectCall}
    (h : Wired st (.connecting call)) (hreject : st.reject 0 call = some st') :
    ∃ phase', Moves st (.connecting call) (.rejects 0) phase' st' := by
  have hfails : st.Fails call.stage →
      ∃ phase', Moves st (.connecting call) (.rejects 0) phase' (st.failConnect 0 call) :=
    fail_moves h
  have hexits : ∀ n, call.stage = .creatingChannel n ∨ call.stage = .checkingExchange n →
      (st.connections n).isOpen = true →
      ∃ phase', Moves st (.connecting call) (.rejects 0) phase' st.exit := fun n hstage hopen =>
    ⟨_, .exits _ _ (.ofCall 0 call n h.first hstage hopen)⟩
  unfold reject at hreject
  cases hstage : call.stage with
  | connecting =>
    rw [hstage] at hreject hfails
    cases hreject
    exact hfails trivial
  | creatingChannel n =>
    simp only [hstage] at hreject
    rw [hstage] at hfails
    cases hopen : (st.connections n).isOpen with
    | true =>
      rw [if_pos hopen] at hreject
      cases hreject
      exact hexits n (Or.inl hstage) hopen
    | false =>
      rw [if_neg (by simp [hopen])] at hreject
      cases hreject
      exact hfails hopen
  | checkingExchange n =>
    simp only [hstage] at hreject
    rw [hstage] at hfails
    cases hopen : (st.connections n).isOpen with
    | true =>
      rw [if_pos hopen] at hreject
      cases hreject
      exact hexits n (Or.inr hstage) hopen
    | false =>
      rw [if_neg (by simp [hopen])] at hreject
      cases hreject
      exact hfails hopen
  | exchangeVerified n =>
    rw [hstage] at hreject
    cases hreject

private theorem onClose_of_closing {s : MqPublisherService} (h : s.closing = true) :
    s.onClose = { s with connection := none, channel := none } :=
  if_pos h

private theorem onClose_of_open {s : MqPublisherService} (h : s.closing = false) :
    s.onClose = scheduleReconnect { s with connection := none, channel := none } :=
  if_neg (by simp [h])

private theorem heard_moves {st : MqPublisherService} {phase : Phase} {n : Nat}
    {a : ConnectionAction} {stage : ShutdownStage} (h : Wired st phase)
    (hopen : (st.connections n).isOpen = true) (hhandlers : (st.connections n).handlers = true)
    (hclosing : Closing st n a stage) :
    ∃ phase', Moves st phase a phase'
      { (st.setConnection n (st.connections n).close).onClose with shutdown := stage } := by
  have hphase := h.heard.stored n hopen hhandlers
  subst hphase
  cases hflag : st.closing with
  | false =>
    have hclose := onClose_of_open (s := st.setConnection n (st.connections n).close) hflag
    rw [hclose]
    exact ⟨_, .disconnects n a stage hopen hclosing hflag⟩
  | true =>
    have hclose := onClose_of_closing (s := st.setConnection n (st.connections n).close) hflag
    rw [hclose]
    exact ⟨_, .ends n a stage hopen hclosing hflag⟩

private theorem onClose_shutdown (s : MqPublisherService) : s.onClose.shutdown = s.shutdown := by
  unfold onClose
  split <;> rfl

private theorem connectionCloses_moves {st : MqPublisherService} {phase : Phase} {n : Nat}
    {cause : CloseCause} (h : Wired st phase) (hopen : (st.connections n).isOpen = true) :
    ∃ phase', Moves st phase (.connectionCloses n cause) phase' (st.connectionClosed n cause) := by
  unfold connectionClosed
  cases hhandlers : (st.connections n).handlers with
  | true =>
    rw [if_pos rfl]
    have hmoves := heard_moves h hopen hhandlers (.byBroker cause)
    have hshutdown :
        (st.setConnection n (st.connections n).close).onClose.shutdown = st.shutdown :=
      onClose_shutdown _
    rwa [← hshutdown] at hmoves
  | false =>
    rw [if_neg (by simp)]
    cases cause with
    | requested =>
      exact ⟨_, .closesUnheard phase n _ st.shutdown hopen hhandlers (.byBroker _) (by simp)⟩
    | failure => exact ⟨_, .exits phase _ (.ofConnection n hopen hhandlers)⟩

private theorem shutdownCloses_moves {st : MqPublisherService} {phase : Phase} {n : Nat}
    (h : Wired st phase) (hopen : (st.connections n).isOpen = true)
    (hstage : st.shutdown = .closingConnection (some n)) :
    ∃ phase', Moves st phase .shutdownResumes phase'
      { st.connectionClosed n .requested with shutdown := .returned } := by
  unfold connectionClosed
  cases hhandlers : (st.connections n).handlers with
  | true =>
    rw [if_pos rfl]
    exact heard_moves h hopen hhandlers (.byShutdown hstage)
  | false =>
    rw [if_neg (by simp)]
    exact ⟨_, .closesUnheard phase n _ .returned hopen hhandlers (.byShutdown hstage) (by simp)⟩

private theorem channelCloses_moves {st : MqPublisherService} (phase : Phase) {n : Nat}
    (hopen : (st.connections n).channelOpen = true) :
    ∃ phase', Moves st phase (.channelCloses n) phase' (st.channelClosed n) := by
  unfold channelClosed
  cases hhandlers : (st.connections n).handlers with
  | true =>
    rw [if_pos rfl]
    exact ⟨_, .channelCloses phase n hopen hhandlers⟩
  | false =>
    rw [if_neg (by simp)]
    exact ⟨_, .exits phase _ (.ofChannel n hopen hhandlers)⟩

private theorem fires_moves {st st' : MqPublisherService} {phase : Phase} {id : Nat}
    (h : Wired st phase) (hstep : st.react (.timerFires id) = some st') :
    ∃ phase', Moves st phase (.timerFires id) phase' st' := by
  have htimers := h.timers
  have hconnects := h.connects
  simp only [react] at hstep
  rw [htimers, hconnects] at hstep
  cases phase with
  | idle => cases hstep
  | connecting call => cases hstep
  | connected n => cases hstep
  | waiting timer =>
    by_cases hid : timer.id = id
    · subst hid
      simp [Phase.timers, Phase.connects] at hstep
      subst hstep
      exact ⟨_, .fires timer⟩
    · simp [Phase.timers, hid] at hstep

private theorem shutdown_moves {st : MqPublisherService} {phase : Phase} (h : Wired st phase)
    (hcalled : st.shutdown = .notCalled) :
    ∃ phase', Moves st phase .shutdown phase' st.onApplicationShutdown := by
  have hkept : st.timers = [] → (st.timers.filter fun timer =>
      decide (st.reconnectTimer ≠ some timer.id)) = st.timers := by
    intro hnone
    simp [hnone]
  have htimers := h.timers
  have hchannel := h.channel
  have hclose : phase.connection? = none → st.closeChannel = .closingChannel none := by
    intro hnone
    simp [closeChannel, hchannel, hnone]
  unfold onApplicationShutdown
  cases phase with
  | idle =>
    rw [hkept htimers, hclose rfl]
    exact ⟨_, .shutsDownBare .idle hcalled htimers rfl⟩
  | connecting call =>
    rw [hkept htimers, hclose rfl]
    exact ⟨_, .shutsDownBare (.connecting call) hcalled htimers rfl⟩
  | waiting timer =>
    have hcleared : (st.timers.filter fun timer =>
        decide (st.reconnectTimer ≠ some timer.id)) = [] := by
      have hlast : st.reconnectTimer = some timer.id := h.pending
      rw [htimers, hlast]
      simp [Phase.timers]
    rw [hcleared, hclose rfl]
    exact ⟨_, .shutsDownWaiting timer hcalled⟩
  | connected n =>
    rw [hkept htimers]
    cases hopen : (st.connections n).channelOpen with
    | true =>
      have hclose : st.closeChannel = .closingChannel (some n) := by
        simp [closeChannel, hchannel, Phase.connection?, hopen]
      rw [hclose]
      exact ⟨_, .shutsDown n hcalled hopen⟩
    | false =>
      have hclose : st.closeChannel = .returned := by
        simp [closeChannel, hchannel, Phase.connection?, hopen]
      rw [hclose]
      exact ⟨_, .shutsDownThrows n hcalled hopen⟩

private theorem resume_moves {st st' : MqPublisherService} {phase : Phase} (h : Wired st phase)
    (hresume : st.resumeShutdown = some st') :
    ∃ phase', Moves st phase .shutdownResumes phase' st' := by
  unfold resumeShutdown at hresume
  cases hstage : st.shutdown with
  | notCalled =>
    rw [hstage] at hresume
    cases hresume
  | returned =>
    rw [hstage] at hresume
    cases hresume
  | closingChannel channel =>
    cases channel with
    | none =>
      rw [hstage] at hresume
      cases hresume
      exact ⟨_, .closesNoChannel phase hstage⟩
    | some n =>
      simp only [hstage] at hresume
      cases hopen : (st.connections n).isOpen with
      | true =>
        rw [if_pos hopen] at hresume
        cases hresume
        exact ⟨_, .closesChannel phase n hstage hopen⟩
      | false =>
        rw [if_neg (by simp [hopen])] at hresume
        cases hresume
        exact ⟨_, .returns phase (Or.inr ⟨n, hopen, Or.inl hstage⟩)⟩
  | closingConnection connection =>
    cases connection with
    | none =>
      rw [hstage] at hresume
      cases hresume
      exact ⟨_, .returns phase (Or.inl hstage)⟩
    | some n =>
      simp only [hstage] at hresume
      cases hopen : (st.connections n).isOpen with
      | true =>
        rw [if_pos hopen] at hresume
        cases hresume
        exact shutdownCloses_moves h hopen hstage
      | false =>
        rw [if_neg (by simp [hopen])] at hresume
        cases hresume
        exact ⟨_, .returns phase (Or.inr ⟨n, hopen, Or.inr hstage⟩)⟩

theorem react_of_step {st st' : MqPublisherService} {a : ConnectionAction}
    (hstep : st.step a = some st') : st.exited = false ∧ st.react a = some st' := by
  unfold step at hstep
  cases hexited : st.exited with
  | false => simpa [hexited] using hstep
  | true => simp [hexited] at hstep

theorem Wired.step_moves {st st' : MqPublisherService} {phase : Phase} {a : ConnectionAction}
    (h : Wired st phase) (hstep : st.step a = some st') :
    ∃ phase', Moves st phase a phase' st' := by
  replace hstep := (react_of_step hstep).2
  cases a with
  | resolves k =>
    obtain ⟨call, hcall, hresolve⟩ := Option.bind_eq_some_iff.mp hstep
    obtain ⟨rfl, rfl⟩ := h.calls hcall
    exact resolve_moves h hresolve
  | rejects k =>
    obtain ⟨call, hcall, hreject⟩ := Option.bind_eq_some_iff.mp hstep
    obtain ⟨rfl, rfl⟩ := h.calls hcall
    exact reject_moves h hreject
  | connectionCloses n cause =>
    simp only [react] at hstep
    cases hopen : (st.connections n).isOpen with
    | true =>
      rw [if_pos hopen] at hstep
      cases hstep
      exact connectionCloses_moves h hopen
    | false =>
      rw [if_neg (by simp [hopen])] at hstep
      cases hstep
  | channelCloses n =>
    simp only [react] at hstep
    cases hopen : (st.connections n).channelOpen with
    | true =>
      rw [if_pos hopen] at hstep
      cases hstep
      exact channelCloses_moves phase hopen
    | false =>
      rw [if_neg (by simp [hopen])] at hstep
      cases hstep
  | timerFires id => exact fires_moves h hstep
  | publish =>
    cases hstep
    exact ⟨_, .publishes phase⟩
  | shutdown =>
    simp only [react] at hstep
    by_cases hcalled : st.shutdown = .notCalled
    · rw [if_pos hcalled] at hstep
      cases hstep
      exact shutdown_moves h hcalled
    · rw [if_neg hcalled] at hstep
      cases hstep
  | shutdownResumes => exact resume_moves h hstep

theorem Heard.exit {connections : Nat → AmqpConnection} :
    Heard (fun n => (connections n).close) .idle where
  stored := by
    intro n hopen
    cases hopen
  attached := by
    intro n hconnected
    cases hconnected
  live := by
    intro n hopen
    cases hopen

theorem Closing.flag {st : MqPublisherService} {n : Nat} {a : ConnectionAction}
    {stage : ShutdownStage} (h : Closing st n a stage)
    (hflag : st.closing = false ↔ st.shutdown = .notCalled) :
    st.closing = false ↔ stage = .notCalled := by
  cases h with
  | byBroker cause => exact hflag
  | byShutdown hstage =>
    rw [hflag, hstage]
    simp

theorem closeConnection_ne (st : MqPublisherService) : st.closeConnection ≠ .notCalled := by
  unfold closeConnection
  split
  · simp
  · split <;> simp

theorem Wired.flag_of {st : MqPublisherService} {phase : Phase} {stage : ShutdownStage}
    (h : Wired st phase) (hcalled : st.shutdown ≠ .notCalled) (hstage : stage ≠ .notCalled) :
    st.closing = false ↔ stage = .notCalled := by
  rw [h.flag]
  exact iff_of_false hcalled hstage

theorem Wired.moves {st st' : MqPublisherService} {phase phase' : Phase} {a : ConnectionAction}
    (h : Wired st phase) (hmoves : Moves st phase a phase' st') : Wired st' phase' := by
  cases hmoves with
  | opens call hstage =>
    have hleft : Heard st.connections
        (.connecting { call with stage := .creatingChannel st.opened }) := h.heard.leave rfl rfl
    refine ⟨rfl, h.timers, h.connection, h.channel, trivial, h.booted, h.flag, ?_⟩
    exact hleft.update (fun _ hhandler => nomatch hhandler) (fun hconnected => nomatch hconnected)
      (fun _ => rfl)
  | createsChannel call n hstage hopen =>
    have hleft : Heard st.connections (.connecting { call with stage := .checkingExchange n }) :=
      h.heard.leave rfl rfl
    refine ⟨rfl, h.timers, h.connection, h.channel, trivial, h.booted, h.flag, ?_⟩
    exact hleft.update (hleft.stored n) (hleft.attached n) (fun _ => hopen)
  | verifies call n hstage hopen =>
    exact ⟨rfl, h.timers, h.connection, h.channel, trivial, h.booted, h.flag, h.heard.leave rfl rfl⟩
  | attaches call n hstage =>
    have hbooted : call.caller = .bootstrap ↔ st.booted = false := h.booted
    refine ⟨rfl, h.timers, rfl, rfl, trivial, ?_, h.flag, h.heard.attach rfl n⟩
    change (st.booted || decide (call.caller = .bootstrap)) = true
    cases hb : st.booted with
    | true => rfl
    | false => simp [hbooted.mpr hb]
  | aborts call hcaller hfails =>
    exact ⟨rfl, h.timers, h.connection, h.channel, trivial, trivial, h.flag, h.heard.leave rfl rfl⟩
  | retries call hcaller hfails =>
    have hbooted : call.caller = .bootstrap ↔ st.booted = false := h.booted
    have hnone : st.timers = [] := h.timers
    refine ⟨rfl, ?_, h.connection, h.channel, rfl, ?_, h.flag, h.heard.leave rfl rfl⟩
    · simp only [scheduleReconnect, hnone]
      rfl
    · change st.booted = true
      cases hb : st.booted with
      | true => rfl
      | false =>
        rw [hbooted.mpr hb] at hcaller
        cases hcaller
  | exits _ a hunheard => exact ⟨rfl, rfl, rfl, rfl, trivial, trivial, h.flag, .exit⟩
  | disconnects n a stage hopen hclosing hflag =>
    have hnone : st.timers = [] := h.timers
    refine ⟨h.connects, ?_, rfl, rfl, rfl, h.booted, hclosing.flag h.flag, h.heard.disconnect rfl⟩
    simp only [scheduleReconnect, setConnection, hnone]
    rfl
  | ends n a stage hopen hclosing hflag =>
    exact ⟨h.connects, h.timers, rfl, rfl, trivial, trivial, hclosing.flag h.flag,
      h.heard.disconnect rfl⟩
  | closesUnheard _ n a stage hopen hhandlers hclosing hheard =>
    refine ⟨h.connects, h.timers, h.connection, h.channel, h.pending, h.booted, hclosing.flag h.flag,
      ?_⟩
    exact h.heard.update (fun hclosed => nomatch hclosed) (h.heard.attached n)
      (fun hclosed => nomatch hclosed)
  | channelCloses _ n hopen hhandlers =>
    exact ⟨h.connects, h.timers, h.connection, h.channel, h.pending, h.booted, h.flag,
      h.heard.closeChannel n⟩
  | fires timer =>
    have hbooted : st.booted = true := h.booted
    refine ⟨rfl, rfl, h.connection, h.channel, trivial, ?_, h.flag, h.heard.leave rfl rfl⟩
    simp [Phase.Booted, hbooted]
  | publishes _ => exact h
  | shutsDownWaiting timer hcalled =>
    exact ⟨h.connects, rfl, h.connection, h.channel, trivial, trivial, by simp, h.heard.leave rfl rfl⟩
  | shutsDownBare _ hcalled hnone hphase =>
    exact ⟨h.connects, h.timers, h.connection, h.channel, h.pending, h.booted, by simp, h.heard⟩
  | shutsDown n hcalled hopen =>
    exact ⟨h.connects, h.timers, h.connection, h.channel, h.pending, h.booted, by simp, h.heard⟩
  | shutsDownThrows n hcalled hopen =>
    exact ⟨h.connects, h.timers, h.connection, h.channel, h.pending, h.booted, by simp, h.heard⟩
  | closesNoChannel _ hstage =>
    exact ⟨h.connects, h.timers, h.connection, h.channel, h.pending, h.booted,
      h.flag_of (by simp [hstage]) st.closeConnection_ne, h.heard⟩
  | closesChannel _ n hstage hopen =>
    exact ⟨h.connects, h.timers, h.connection, h.channel, h.pending, h.booted,
      h.flag_of (by simp [hstage]) st.closeConnection_ne, h.heard.closeChannel n⟩
  | returns _ hstage =>
    have hcalled : st.shutdown ≠ .notCalled := by
      rcases hstage with hstage | ⟨n, -, hstage | hstage⟩ <;> simp [hstage]
    exact ⟨h.connects, h.timers, h.connection, h.channel, h.pending, h.booted,
      h.flag_of hcalled (by simp), h.heard⟩

end MqPublisherService

end Geofence
