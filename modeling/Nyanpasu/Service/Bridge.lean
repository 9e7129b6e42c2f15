import Nyanpasu.Lib.Channel
import Nyanpasu.Lib.Moves
import Nyanpasu.Service.Adapter

/-!
# The event stream

The status bridge turns the manager's status and the echoed core type into events, the hub
fans them out over a ring, and every socket forwards its share. The three kinds of tasks run
beside each other: every read, send and mark is a move of its own.
-/

namespace Nyanpasu.Service

section Projection

/-- `CoreState` of the wire. -/
inductive IpcState where
  | running
  | stopped (reason : Option String)
  deriving DecidableEq, Repr

/-- The display text of a stop reason. -/
def stopReasonText : StopReason → String
  | .finished => "core exited"
  | .user => "stopped by user"
  | .error message => message

/-- `map_core_state`. -/
def mapCoreState : CoreState → IpcState
  | .running _ _ | .switching _ _ | .stopping _ => .running
  | .starting _ | .restarting _ _ => .stopped none
  | .stopped reason => .stopped (reason.map stopReasonText)

/-- `CoreStateDetail`. -/
inductive CoreStateDetail where
  | stopped (reason : Option String)
  | starting (epoch : ℕ)
  | running (epoch pid : ℕ)
  | restarting (epoch attempt : ℕ)
  | switching (source : Option ℕ) (target : ℕ)
  | stopping (epoch : ℕ)
  deriving DecidableEq, Repr

/-- `map_state_detail`. -/
def mapStateDetail : CoreState → CoreStateDetail
  | .stopped reason => .stopped (reason.map stopReasonText)
  | .starting epoch => .starting epoch
  | .running epoch pid => .running epoch pid
  | .restarting epoch attempt => .restarting epoch attempt
  | .switching source target => .switching source target
  | .stopping epoch => .stopping epoch

/-- `map_controller`. `strip` removes the user information from a URL. -/
def mapController (strip : String → String) : Host → Host
  | .namedPipe path => .namedPipe path
  | .unixSocket path => .unixSocket path
  | .http url => .http (strip url)

/-- `CoreInfos`. -/
structure CoreInfos where
  type : Option CoreType
  state : IpcState
  stateChangedAt : ℤ
  configPath : Option Path
  controller : Option Host
  health : Option HealthStatus
  revision : Option ConfigRevisionInfo
  detail : CoreStateDetail
  deriving DecidableEq, Repr

/-- `project_core_infos`. -/
def projectCoreInfos (strip : String → String) (status : CoreStatus)
    (requestedCore : Option CoreType) : CoreInfos where
  type := requestedCore
  state := mapCoreState status.state
  stateChangedAt := status.changedAt
  configPath := status.spec.map (·.configPath)
  controller := status.controller.map (mapController strip)
  health := status.health
  revision := status.revision.map mapRevision
  detail := mapStateDetail status.state

end Projection

/-- An event of the stream. A log line is opaque. -/
inductive WsEvent where
  | coreStatusChanged (infos : CoreInfos)
  | coreStateChanged (state : IpcState)
  | coreLog (line : String)
  deriving DecidableEq, Repr

/-- `EVENT_CHANNEL_CAPACITY`. -/
def eventChannelCapacity : ℕ := 256

/-- Where the bridge stands. -/
inductive BridgePhase where
  /-- Spawned, before its first read. -/
  | unstarted
  /-- In `select!`. -/
  | waiting
  /-- `states.changed()` has returned. -/
  | statusWoken
  | statusRead (raw : CoreStatus)
  | statusPaired (raw : CoreStatus) (requested : Option CoreType)
  /-- The snapshot is sent, the legacy state is next. -/
  | legacy (raw : CoreStatus)
  /-- `requested_core.changed()` has returned. -/
  | echoWoken
  | echoRead (raw : CoreStatus)
  | echoPaired (raw : CoreStatus) (requested : Option CoreType)
  deriving DecidableEq

/-- `status_bridge`: its place, the legacy state it has reported, and the versions that its
receivers have seen. -/
structure Bridge where
  phase : BridgePhase
  last : IpcState
  seenStatus : ℕ
  seenEcho : ℕ
  deriving DecidableEq

/-- Where the sender of a socket stands. -/
inductive SocketPhase where
  /-- Subscribed, before the status is read for a snapshot. -/
  | subscribed
  | statusRead (raw : CoreStatus)
  /-- In `sink.send`. -/
  | sending (event : WsEvent)
  /-- In `select!`. -/
  | idle
  /-- Told that it has fallen behind. -/
  | lagged
  | closed
  deriving DecidableEq

/-- `handle_socket`: its place, its position in the ring, and what it has delivered, newest
first. -/
structure Socket where
  phase : SocketPhase
  cursor : ℕ
  delivered : List WsEvent
  deriving DecidableEq

/-- The channels and the tasks. -/
structure Stream where
  status : Watch CoreStatus
  echo : Watch (Option CoreType)
  bridge : Bridge
  ring : Broadcast WsEvent
  sockets : List Socket

/-- The arms of the bridge's `select!`. -/
inductive Arm where
  | states
  | requestedCore
  deriving DecidableEq, Repr

/-- What can happen next. -/
inductive StreamMove where
  /-- The manager publishes a status. -/
  | publish (status : CoreStatus)
  /-- `publish_requested_core`. -/
  | commit (committed : Option CoreType)
  /-- The bridge makes a step; the arm matters where both are ready. -/
  | bridge (arm : Arm)
  /-- A socket connects and subscribes. -/
  | connect
  /-- The sender of a socket makes a step. -/
  | socket (index : ℕ)
  /-- The sender of a socket takes a line from the log ring. -/
  | log (index : ℕ) (line : String)
  | disconnect (index : ℕ)

namespace Stream

/-- The bridge moves on. -/
def enter (s : Stream) (phase : BridgePhase) : Stream :=
  { s with bridge := { s.bridge with phase } }

/-- The guards of the legacy stream, and what they let through. -/
def legacyEvent (last : IpcState) (raw : CoreStatus) : Option IpcState :=
  let next := mapCoreState raw.state
  let arriving := match raw.state with
    | .stopping _ | .switching _ _ => true
    | _ => false
  let stopped := match last with
    | .stopped _ => true
    | .running => false
  -- `same_ipc_state` is the equality of wire states.
  if (arriving && stopped) || decide (last = next) then none else some next

/-- One step of `status_bridge`. -/
def bridgeStep (strip : String → String) (s : Stream) (arm : Arm) : Option Stream :=
  match s.bridge.phase with
  | .unstarted =>
      some { s with bridge := { s.bridge with
        phase := .waiting
        last := mapCoreState s.status.value.state
        seenStatus := s.status.version } }
  | .waiting =>
      match arm with
      | .states =>
          if s.status.changed s.bridge.seenStatus then
            some { s with bridge := { s.bridge with
              phase := .statusWoken, seenStatus := s.status.version } }
          else none
      | .requestedCore =>
          if s.echo.changed s.bridge.seenEcho then
            some { s with bridge := { s.bridge with
              phase := .echoWoken, seenEcho := s.echo.version } }
          else none
  | .statusWoken =>
      some { s with bridge := { s.bridge with
        phase := .statusRead s.status.value, seenStatus := s.status.version } }
  | .statusRead raw =>
      some { s with bridge := { s.bridge with
        phase := .statusPaired raw s.echo.value, seenEcho := s.echo.version } }
  | .statusPaired raw requested =>
      some { s.enter (.legacy raw) with
        ring := s.ring.send (.coreStatusChanged (projectCoreInfos strip raw requested)) }
  | .legacy raw =>
      match legacyEvent s.bridge.last raw with
      | none => some (s.enter .waiting)
      | some next =>
          some { s with
            bridge := { s.bridge with phase := .waiting, last := next }
            ring := s.ring.send (.coreStateChanged next) }
  | .echoWoken => some (s.enter (.echoRead s.status.value))
  | .echoRead raw =>
      some { s with bridge := { s.bridge with
        phase := .echoPaired raw s.echo.value, seenEcho := s.echo.version } }
  | .echoPaired raw requested =>
      some { s.enter .waiting with
        ring := s.ring.send (.coreStatusChanged (projectCoreInfos strip raw requested)) }

/-- One step of the sender of a socket. -/
def socketStep (strip : String → String) (s : Stream) (socket : Socket) : Option Socket :=
  match socket.phase with
  | .subscribed => some { socket with phase := .statusRead s.status.value }
  | .statusRead raw =>
      some { socket with
        phase := .sending (.coreStatusChanged (projectCoreInfos strip raw s.echo.value)) }
  | .sending event => some { socket with phase := .idle, delivered := event :: socket.delivered }
  | .idle =>
      match s.ring.recv eventChannelCapacity socket.cursor with
      | .empty => none
      | .lagged _ => some { socket with phase := .lagged }
      | .value event => some { socket with phase := .sending event, cursor := socket.cursor + 1 }
  -- `resubscribe` jumps to the tail.
  | .lagged => some { socket with phase := .subscribed, cursor := s.ring.tail }
  | .closed => none

/-- Change the socket at an index. -/
def atSocket (s : Stream) (index : ℕ) (f : Socket → Option Socket) : Option Stream := do
  let socket ← s.sockets[index]?
  let socket ← f socket
  return { s with sockets := s.sockets.set index socket }

/-- One move. -/
def step (strip : String → String) (s : Stream) : StreamMove → Option Stream
  | .publish status => some { s with status := s.status.send status }
  | .commit committed => some { s with echo := s.echo.send (committed.or s.echo.value) }
  | .bridge arm => s.bridgeStep strip arm
  | .connect => some { s with sockets := s.sockets ++ [⟨.subscribed, s.ring.tail, []⟩] }
  | .socket index => s.atSocket index (s.socketStep strip)
  | .log index line => s.atSocket index fun socket =>
      match socket.phase with
      | .idle => some { socket with phase := .sending (.coreLog line) }
      | _ => none
  | .disconnect index => s.atSocket index fun socket => some { socket with phase := .closed }

end Stream

/-- The moment of `spawn_bridges`: both receivers have seen what is there. -/
structure Stream.Spawned (s : Stream) : Prop where
  phase : s.bridge.phase = .unstarted
  seenStatus : s.bridge.seenStatus = s.status.version
  seenEcho : s.bridge.seenEcho = s.echo.version
  ring : s.ring.sent = []
  sockets : s.sockets = []

end Nyanpasu.Service
