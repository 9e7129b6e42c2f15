import Nyanpasu.Lib.Moves
import Nyanpasu.Manager.Effect

/-!
# The monitor of an instance

One task watches a spawned core: it takes the events of the supervisor and the observations
of the probe driver, acknowledges readiness, enforces the deadlines and publishes the status.
Beside it a stop may run, which writes the same status. Every read, write, lock and channel
operation that the two tasks and their environment share is a move of its own; what a task
does between two of them with its own variables belongs to the move.
-/

namespace Nyanpasu.Instance

open Manager (ProcessError ReapOutcome)

section Health

/-- `ProbeResult`. -/
inductive ProbeResult where
  | healthy
  | unhealthy (detail : Option String)
  deriving DecidableEq, Repr

/-- `TrackerState`. -/
inductive TrackerState where
  | starting
  | healthy
  | unhealthy
  deriving DecidableEq, Repr

/-- `TrackerUpdate`. -/
structure TrackerUpdate where
  state : TrackerState
  consecutiveFailures : ℕ
  lastError : Option String
  deriving DecidableEq, Repr

/-- `HealthTracker`. Instants are nanoseconds. -/
structure HealthTracker where
  policy : HealthPolicy
  startedAt : ℕ
  graceEnded : Bool
  state : TrackerState
  consecutiveFailures : ℕ
  consecutiveSuccesses : ℕ
  lastError : Option String
  deriving DecidableEq, Repr

/-- `HealthTracker::new`. -/
def HealthTracker.new (policy : HealthPolicy) (startedAt : ℕ) : HealthTracker :=
  ⟨policy, startedAt, false, .starting, 0, 0, none⟩

/-- `saturating_add(1)` of a 32-bit counter. -/
def saturatingSucc (count : ℕ) : ℕ := min (count + 1) (2 ^ 32 - 1)

/-- The longest part of a text that fits into a number of bytes. -/
def takeBytes : ℕ → List Char → List Char
  | _, [] => []
  | budget, c :: cs => if c.utf8Size ≤ budget then c :: takeBytes (budget - c.utf8Size) cs else []

/-- `cap_detail`, with `MAX_LAST_ERROR_BYTES`. -/
def capDetail (detail : String) : String :=
  if detail.utf8ByteSize ≤ 512 then detail else String.ofList (takeBytes 512 detail.toList)

/-- The tracker after a success. -/
def HealthTracker.succeed (tracker : HealthTracker) : HealthTracker :=
  let tracker := { tracker with graceEnded := true, consecutiveFailures := 0, lastError := none }
  if tracker.state = .healthy then { tracker with consecutiveSuccesses := 0 }
  else
    let successes := saturatingSucc tracker.consecutiveSuccesses
    if tracker.policy.successThreshold ≤ successes then
      { tracker with state := .healthy, consecutiveSuccesses := 0 }
    else { tracker with consecutiveSuccesses := successes }

/-- The tracker after a failure. -/
def HealthTracker.fail (tracker : HealthTracker) (now : ℕ) (detail : Option String) :
    HealthTracker :=
  let tracker := { tracker with consecutiveSuccesses := 0, lastError := detail.map capDetail }
  if !tracker.graceEnded && now < tracker.startedAt + tracker.policy.startPeriod then tracker
  else
    let failures := saturatingSucc tracker.consecutiveFailures
    if tracker.state ≠ .unhealthy ∧ tracker.policy.failureThreshold ≤ failures then
      { tracker with state := .unhealthy, consecutiveFailures := failures }
    else { tracker with consecutiveFailures := failures }

/-- `HealthTracker::observe`, without the update. -/
def HealthTracker.observe (tracker : HealthTracker) (now : ℕ) : ProbeResult → HealthTracker
  | .healthy => tracker.succeed
  | .unhealthy detail => tracker.fail now detail

/-- The update that `HealthTracker::observe` returns. -/
def HealthTracker.update (tracker : HealthTracker) : TrackerUpdate :=
  ⟨tracker.state, tracker.consecutiveFailures, tracker.lastError⟩

/-- `ProbeObservation`. -/
structure Observation where
  runId : ℕ
  pid : ℕ
  completedAt : ℕ
  completedAtMs : ℤ
  result : ProbeResult
  deriving DecidableEq, Repr

/-- `reset_starting_health`. -/
def resetStartingHealth (now : ℤ) (previous : Option HealthStatus) : HealthStatus where
  state := .starting
  changedAt := ((previous.filter (·.state = .starting)).map (·.changedAt)).getD now
  consecutiveFailures := 0
  lastError := none
  lastSuccessAt := none

/-- The health state of a tracker state. -/
def TrackerState.health : TrackerState → HealthState
  | .starting => .starting
  | .healthy => .healthy
  | .unhealthy => .unhealthy

/-- `health_status`. -/
def healthStatus (previous : Option HealthStatus) (update : TrackerUpdate)
    (observation : Observation) : HealthStatus where
  state := update.state.health
  changedAt := ((previous.filter (·.state = update.state.health)).map (·.changedAt)).getD
    observation.completedAtMs
  consecutiveFailures := update.consecutiveFailures
  lastError := update.lastError
  lastSuccessAt := if observation.result = .healthy then some observation.completedAtMs
    else previous.bind (·.lastSuccessAt)

end Health

/-- `TerminatedPayload`, with its debug text. -/
structure TerminatedPayload where
  code : Option ℤ
  debug : String
  deriving DecidableEq, Repr

/-- `SupervisorEvent`. -/
inductive SupervisorEvent where
  | started (pid : ℕ)
  | ready
  | restarting (attempt : ℕ)
  | exited (payload : TerminatedPayload)
  | gaveUp
  | stopped
  deriving DecidableEq, Repr

/-- `RunState`. -/
structure RunState where
  runId : ℕ
  pid : ℕ
  ackAttempted : Bool
  ready : Bool
  tracker : HealthTracker
  deriving DecidableEq, Repr

/-- `observation_applies`. -/
def Observation.applies (observation : Observation) (run : RunState) : Bool :=
  observation.runId = run.runId && observation.pid = run.pid

/-- What the monitor is started with. -/
structure Settings where
  health : HealthPolicy
  startupTimeout : ℕ
  initialDeadline : ℕ

/-- The variables of `monitor_loop`. The driver is known by the run it probes for. -/
structure Local where
  everReady : Bool
  timeoutFired : Bool
  probesCancelled : Bool
  nextRunId : ℕ
  current : Option RunState
  driver : Option ℕ
  respawnDeadline : Option ℕ
  lastExit : Option TerminatedPayload

/-- Forget the current run and its deadline. -/
def Local.forget (l : Local) : Local := { l with current := none, respawnDeadline := none }

/-- `beyond_initial_deadline || beyond_respawn_deadline`. -/
def Local.late (settings : Settings) (l : Local) (observation : Observation) : Bool :=
  (!l.everReady && settings.initialDeadline < observation.completedAt) ||
    l.respawnDeadline.any (· < observation.completedAt)

/-- The two deadline timers. -/
inductive Timer where
  | initial
  | respawn
  deriving DecidableEq, Repr

/-- Who applies an observation: the observation arm, or the drain of a timer arm. A drain
remembers what was queued when it began, and the part of it that is still queued. -/
inductive Context where
  | arm
  | drain (timer : Timer) (queued rest : List Observation)

/-- What follows the end of a probe driver. -/
inductive AfterStop where
  | cancelled
  | started (pid : ℕ)
  | restarting (attempt : ℕ)
  | exited (payload : TerminatedPayload)
  | gaveUp
  | stopped
  | timedOut

/-- Where the monitor stands. -/
inductive Phase where
  -- The arms of the biased `select!`, polled in this order.
  | pollCancel
  | pollEvents
  | pollInitial
  | pollRespawn
  | pollRequests
  | pollObservations
  /-- In `stop_probe_driver`. -/
  | stopDriver (next : AfterStop)
  -- A new run: its health is reset and published, then the run is current.
  | startedHealth (pid startedAt : ℕ) (previous : Option HealthStatus)
  | startedPublish (pid startedAt : ℕ) (previous : Option HealthStatus) (lifecycle : InstanceState)
  | startedRun (pid startedAt : ℕ)
  | restartingPublish (attempt : ℕ) (previous : Option HealthStatus)
  /-- Before the next `try_recv` of a drain. -/
  | drain (timer : Timer) (queued rest : List Observation)
  -- The end of a timeout.
  | storeTimeout
  | cancelProbes
  | cancelAll
  -- An acknowledgement.
  | ackLock (observation : Observation) (update : TrackerUpdate) (context : Context)
  | ackCall (observation : Observation) (update : TrackerUpdate) (context : Context)
  | ackHealth (pid : ℕ) (observation : Observation) (update : TrackerUpdate) (context : Context)
  | ackPublish (pid : ℕ) (observation : Observation) (update : TrackerUpdate) (context : Context)
      (previous : Option HealthStatus)
  -- An observation that is not acknowledged.
  | healthRead (observation : Observation) (update : TrackerUpdate) (context : Context)
  | healthLifecycle (observation : Observation) (update : TrackerUpdate) (context : Context)
      (previous : Option HealthStatus)
  | healthPublish (observation : Observation) (update : TrackerUpdate) (context : Context)
      (previous : Option HealthStatus) (lifecycle : InstanceState)
  -- The end.
  | gaveUpPublish
  | terminal
  | final (reason : StopReason)
  | finished

/-- Where `stop_and_confirm_dead` stands. -/
inductive StopPhase where
  | unrequested
  | begun
  | verifying (context : String)
  | storing
  | cancelling
  | publishing
  | locking
  | stopping (present : Bool)
  | joining (result : Except String Unit)
  | aborting (result : Except String Unit)
  | reading (result : Except String Unit) (confirmed : Bool)
  | reaping (error : String) (terminal : Bool)
  | publishStopped
  | done (result : Except Error Unit)

/-- Where a published status comes from. -/
inductive Source where
  | started
  | restarting
  | acknowledged (observation : Observation)
  | observed (observation : Observation)
  | gaveUp
  | terminal
  | stop
  deriving DecidableEq, Repr

/-- A published status. -/
structure Published where
  status : InstanceStatus
  source : Source
  deriving DecidableEq, Repr

/-- A run that has begun, with the deadline that was set for it. -/
structure Begun where
  runId : ℕ
  pid : ℕ
  deadline : Option ℕ
  deriving DecidableEq, Repr

/-- A call of `acknowledge_ready`, with the variables of the moment. -/
structure Ack where
  run : RunState
  observation : Observation
  verdict : TrackerState
  everReady : Bool
  respawnDeadline : Option ℕ
  /-- A timeout or a probe cancellation was handled before. -/
  closed : Bool
  acknowledged : Bool

/-- An observation that has updated the tracker of a run. -/
structure Applied where
  runId : ℕ
  pid : ℕ
  observation : Observation
  deriving DecidableEq, Repr

/-- A timeout that was declared, with what was queued when its timer arm began. -/
structure Declared where
  run : Option RunState
  deadline : ℕ
  queued : List Observation
  applied : List Applied

/-- What has happened so far; every list has its newest entry first. No task reads it. -/
structure History where
  published : List Published
  begun : List Begun
  acks : List Ack
  applied : List Applied
  declared : List Declared
  /-- A timeout or a probe cancellation was handled. -/
  closed : Bool

/-- The instance: its shared state, its two tasks and its history. -/
structure Sys where
  status : InstanceStatus
  events : List SupervisorEvent
  /-- Every sender of the event channel is gone. -/
  eventsClosed : Bool
  /-- The runs and pids that probe drivers were started for. -/
  drivers : List (ℕ × ℕ)
  observations : List Observation
  requests : List ℕ
  /-- The probe requests that were refused, with the detail. -/
  refused : List (ℕ × String)
  now : ℕ
  userStop : Bool
  probeTimeout : Bool
  probeCancel : Bool
  cancel : Bool
  /-- The slot of the supervisor is filled. -/
  supervisor : Bool
  /-- The monitor holds the lock of the supervisor. -/
  locked : Bool
  /-- The monitor was aborted. -/
  aborted : Bool
  vars : Local
  phase : Phase
  stop : StopPhase
  history : History

/-- What the environment answers to a step of the monitor. -/
structure Choice where
  /-- The timer that is polled fires, if its time has come. -/
  fires : Bool
  acknowledged : Bool
  diagnostics : String
  clock : ℤ

/-- What the environment answers to a step of the stop. -/
structure StopChoice where
  /-- The stop of the supervisor; `none` when it exceeds the timeout. -/
  supervisor : Option (Except ProcessError Unit)
  timeoutText : String
  /-- The timer of the join fires before the monitor has finished. -/
  expired : Bool
  verified : Except String Unit
  /-- The epoch has a pid record, next to its config. -/
  hasRecord : Bool
  hasParent : Bool
  reaped : Except String ReapOutcome

/-- What can happen next. -/
inductive Move where
  | event (event : SupervisorEvent)
  | closeEvents
  /-- A probe driver sends an observation of the run it was started for. -/
  | observation (observation : Observation)
  | request (id : ℕ)
  | tick (duration : ℕ)
  /-- The instance is dropped. -/
  | drop
  | monitor (choice : Choice)
  | callStop
  | stop (choice : StopChoice)

namespace Sys

/-- Change the variables of the monitor. -/
def withVars (s : Sys) (f : Local → Local) : Sys := { s with vars := f s.vars }

/-- The monitor moves on. -/
def enter (s : Sys) (phase : Phase) : Sys := { s with phase }

/-- `send` of a status. -/
def publishStatus (s : Sys) (source : Source) (status : InstanceStatus) : Sys :=
  { s with
    status
    history := { s.history with published := ⟨status, source⟩ :: s.history.published } }

/-- `Shared::publish`. -/
def publish (s : Sys) (source : Source) (state : InstanceState) : Sys :=
  s.publishStatus source ⟨state, match state with
    | .stopping | .stopped _ => none
    | _ => s.status.health⟩

/-- A timeout or a cancellation is handled. -/
def close (s : Sys) : Sys := { s with history := { s.history with closed := true } }

/-- What follows an application that did not make the run ready. -/
def resume : Context → Phase
  | .arm => .pollCancel
  | .drain timer queued rest => .drain timer queued rest

/-- The observation is applied to the run: the tracker is updated, and the first healthy
verdict of the run is acknowledged. -/
def applyTo (s : Sys) (run : RunState) (observation : Observation) (context : Context) : Sys :=
  let tracker := run.tracker.observe observation.completedAt observation.result
  let update := tracker.update
  let shouldAck := !run.ackAttempted && update.state = .healthy
  let run := { run with tracker, ackAttempted := run.ackAttempted || shouldAck }
  let s := { s with
    vars := { s.vars with current := some run }
    history := { s.history with applied := ⟨run.runId, run.pid, observation⟩ ::
      s.history.applied } }
  if shouldAck then s.enter (.ackLock observation update context)
  else s.enter (.healthRead observation update context)

/-- The beginning of `apply_probe_observation`, up to its first await. -/
def applyObservation (settings : Settings) (s : Sys) (observation : Observation)
    (context : Context) : Sys :=
  match s.vars.current with
  | none => s.enter (resume context)
  | some run =>
      if !observation.applies run || s.vars.late settings observation then
        s.enter (resume context)
      else s.applyTo run observation context

/-- The end of a driver, with what follows in the variables. -/
def driverStopped (s : Sys) (next : AfterStop) : Sys :=
  let s := s.withVars fun l => { l with driver := none }
  match next with
  | .cancelled => (s.close.withVars Local.forget).enter .pollCancel
  | .started pid =>
      (s.withVars fun l => { l with nextRunId := min (l.nextRunId + 1) (2 ^ 64 - 1) }).enter
        (.startedHealth pid s.now s.status.health)
  | .restarting attempt =>
      (s.withVars Local.forget).enter (.restartingPublish attempt s.status.health)
  | .exited payload =>
      (s.withVars fun l => { l.forget with lastExit := some payload }).enter .pollCancel
  | .gaveUp => s.enter .gaveUpPublish
  | .stopped => s.enter .terminal
  | .timedOut => s.enter .storeTimeout

/-- The reason of `publish_terminal`. -/
def terminalReason (s : Sys) (diagnostics : String) : StopReason :=
  if s.userStop then .user
  else if s.probeTimeout then .error ("health probe timed out\n" ++ diagnostics)
  else if s.vars.lastExit.any fun payload => payload.code = some 0 then .finished
  else .error ("core exited unexpectedly (" ++
    ((s.vars.lastExit.map fun payload => "Some(" ++ payload.debug ++ ")").getD "None") ++ ")\n" ++
    diagnostics)

/-- The event arm. -/
def handleEvent (s : Sys) : SupervisorEvent → Sys
  | .started pid => s.enter (.stopDriver (.started pid))
  | .ready => s.enter .pollCancel
  | .restarting attempt => s.enter (.stopDriver (.restarting attempt))
  | .exited payload => s.enter (.stopDriver (.exited payload))
  | .gaveUp => s.enter (.stopDriver .gaveUp)
  | .stopped => s.enter (.stopDriver .stopped)

/-- The request arm. A reconciliation is left to the driver. -/
def handleRequest (s : Sys) (id : ℕ) : Sys :=
  let refuse (detail : String) : Sys := { s with refused := (id, detail) :: s.refused }
  if s.vars.current.any (·.ready) then
    if s.vars.driver.isSome then s else refuse "instance probe driver is not running"
  else refuse "instance is not running"

/-- The deadline of a timer. -/
def deadline (settings : Settings) (s : Sys) : Timer → Option ℕ
  | .initial =>
    if !s.vars.everReady && !s.vars.timeoutFired then some settings.initialDeadline else none
  | .respawn => s.vars.respawnDeadline

/-- A timer arm is polled: it fires only when its time has come. -/
def pollTimer (settings : Settings) (s : Sys) (timer : Timer) (fires : Bool) (next : Phase) : Sys :=
  match s.deadline settings timer with
  | some deadline =>
      if fires && deadline ≤ s.now then s.enter (.drain timer s.observations s.observations)
      else s.enter next
  | none => s.enter next

/-- The new run becomes current, and its driver is started. -/
def startRun (settings : Settings) (s : Sys) (pid startedAt : ℕ) : Sys :=
  let l := s.vars
  let run : RunState := ⟨l.nextRunId, pid, false, false, .new settings.health startedAt⟩
  let respawnDeadline := if l.everReady then some (s.now + settings.startupTimeout) else none
  { s with
    drivers := if l.probesCancelled then s.drivers else (run.runId, pid) :: s.drivers
    vars := { l with
      current := some run
      respawnDeadline
      driver := if l.probesCancelled then l.driver else some run.runId }
    phase := .pollCancel
    history := { s.history with
      begun := ⟨run.runId, pid, respawnDeadline⟩ :: s.history.begun } }

/-- A timer arm has drained the observations and the run is not ready: the timeout is
declared. -/
def declare (settings : Settings) (s : Sys) (timer : Timer) (queued : List Observation) : Sys :=
  match s.deadline settings timer with
  | none => s.enter .pollCancel
  | some deadline =>
      { s with
        vars := { s.vars.forget with
          timeoutFired := s.vars.timeoutFired || timer = .initial }
        phase := .stopDriver .timedOut
        history := { s.history with
          declared := ⟨s.vars.current, deadline, queued, s.history.applied⟩ :: s.history.declared
          closed := true } }

/-- `acknowledge_ready`, if the supervisor is still there. -/
def acknowledge (s : Sys) (run : RunState) (observation : Observation) (update : TrackerUpdate)
    (context : Context) (answer : Bool) : Sys :=
  let acknowledged := s.supervisor && answer
  let ack : Ack := ⟨run, observation, update.state, s.vars.everReady, s.vars.respawnDeadline,
    s.history.closed, acknowledged⟩
  let s := { s with
    locked := false
    history := { s.history with
      acks := if s.supervisor then ack :: s.history.acks else s.history.acks } }
  if acknowledged then
    { s with
      vars := { s.vars with
        everReady := true, respawnDeadline := none, current := some { run with ready := true } }
      phase := .ackHealth run.pid observation update context }
  else s.enter (resume context)

/-- One step of `monitor_loop`. -/
def monitorStep (settings : Settings) (s : Sys) (c : Choice) : Option Sys :=
  match s.phase with
  | .pollCancel =>
      if !s.vars.probesCancelled && s.probeCancel then
        some ((s.withVars fun l => { l with probesCancelled := true }).enter
          (.stopDriver .cancelled))
      else some (s.enter .pollEvents)
  | .pollEvents =>
      match s.events with
      | event :: events => some ({ s with events }.handleEvent event)
      | [] => if s.eventsClosed then some (s.enter .terminal) else some (s.enter .pollInitial)
  | .pollInitial => some (s.pollTimer settings .initial c.fires .pollRespawn)
  | .pollRespawn => some (s.pollTimer settings .respawn c.fires .pollRequests)
  | .pollRequests =>
      match s.requests with
      | id :: requests => some (({ s with requests }.handleRequest id).enter .pollCancel)
      | [] => some (s.enter .pollObservations)
  | .pollObservations =>
      match s.observations with
      | observation :: observations =>
          some ({ s with observations }.applyObservation settings observation .arm)
      | [] => some (s.enter .pollCancel)
  -- No instance lives long enough to use up the run ids.
  | .stopDriver next =>
      if s.vars.nextRunId < 2 ^ 64 - 1 then some (s.driverStopped next) else none
  | .startedHealth pid startedAt previous =>
      some (s.enter (.startedPublish pid startedAt previous s.status.state))
  | .startedPublish pid startedAt previous lifecycle =>
      some ((s.publishStatus .started
        ⟨lifecycle, some (resetStartingHealth c.clock previous)⟩).enter (.startedRun pid startedAt))
  | .startedRun pid startedAt => some (s.startRun settings pid startedAt)
  | .restartingPublish attempt previous =>
      some ((s.publishStatus .restarting
        ⟨.restarting attempt, some (resetStartingHealth c.clock previous)⟩).enter .pollCancel)
  | .drain timer queued rest =>
      match s.observations with
      | observation :: observations =>
          some ({ s with observations }.applyObservation settings observation
            (.drain timer queued rest.tail))
      | [] => some (s.declare settings timer queued)
  | .storeTimeout => some ({ s with probeTimeout := true }.enter .cancelProbes)
  | .cancelProbes => some ({ s with probeCancel := true }.enter .cancelAll)
  | .cancelAll => some ({ s with cancel := true }.enter .pollCancel)
  | .ackLock observation update context =>
      some ({ s with locked := true }.enter (.ackCall observation update context))
  | .ackCall observation update context =>
      s.vars.current.map fun run => s.acknowledge run observation update context c.acknowledged
  | .ackHealth pid observation update context =>
      some (s.enter (.ackPublish pid observation update context s.status.health))
  | .ackPublish pid observation update _ previous =>
      some ((s.publishStatus (.acknowledged observation)
        ⟨.running pid, some (healthStatus previous update observation)⟩).enter .pollCancel)
  | .healthRead observation update context =>
      some (s.enter (.healthLifecycle observation update context s.status.health))
  | .healthLifecycle observation update context previous =>
      some (s.enter (.healthPublish observation update context previous s.status.state))
  | .healthPublish observation update context previous lifecycle =>
      some ((s.publishStatus (.observed observation)
        ⟨lifecycle, some (healthStatus previous update observation)⟩).enter (resume context))
  | .gaveUpPublish =>
      let reason := "core kept crashing; restart budget exhausted\n" ++ c.diagnostics
      some ((s.publishStatus .gaveUp ⟨.stopped (.error reason), none⟩).enter .finished)
  | .terminal => some (s.enter (.final (s.terminalReason c.diagnostics)))
  | .final reason =>
      some ((s.publishStatus .terminal ⟨.stopped reason, none⟩).enter .finished)
  | .finished => none

/-- The stop moves on. -/
def enterStop (s : Sys) (stop : StopPhase) : Sys := { s with stop }

/-- The stop fails. -/
def unconfirmed (s : Sys) (detail : String) : Sys :=
  s.enterStop (.done (.error (.stopUnconfirmed detail)))

/-- The result of the supervisor's stop. -/
def supervisorResult (c : StopChoice) : Except String Unit :=
  match c.supervisor with
  | some (.ok ()) | some (.error .alreadyExited) => .ok ()
  | some (.error (.other detail)) => .error ("supervisor stop failed: " ++ detail)
  | none => .error ("supervisor stop exceeded " ++ c.timeoutText)

/-- The answer of the reaper, when the supervisor or the monitor did not confirm the end. -/
def reap (s : Sys) (c : StopChoice) (error : String) (terminal : Bool) : Sys :=
  if !c.hasRecord then s.unconfirmed error
  else if !c.hasParent then s.unconfirmed "runtime config has no parent directory"
  else match c.reaped with
    | .error detail => s.unconfirmed (error ++ "; epoch identity reaper failed: " ++ detail)
    | .ok outcome =>
        if outcome ≠ .notFound ∨ terminal = true then
          s.enterStop (if terminal then .done (.ok ()) else .publishStopped)
        else s.unconfirmed error

/-- One step of `stop_and_confirm_dead`. -/
def stopStep (s : Sys) (c : StopChoice) : Option Sys :=
  match s.stop with
  | .unrequested => none
  | .begun =>
      if s.status.state.isTerminal then
        some (s.enterStop (.verifying "terminal instance identity verification failed: "))
      else some (s.enterStop .storing)
  | .verifying context =>
      match c.verified with
      | .ok () => some (s.enterStop (.done (.ok ())))
      | .error detail => some (s.unconfirmed (context ++ detail))
  | .storing => some ({ s with userStop := true }.enterStop .cancelling)
  | .cancelling => some ({ s with probeCancel := true }.enterStop .publishing)
  | .publishing => some ((s.publish .stop .stopping).enterStop .locking)
  | .locking =>
      if s.locked then none
      else some ({ s with supervisor := false }.enterStop (.stopping s.supervisor))
  | .stopping present =>
      some (s.enterStop (.joining (if present then supervisorResult c else .ok ())))
  | .joining result =>
      match s.phase with
      | .finished => some (s.enterStop (.reading result true))
      | _ => if c.expired then some (s.enterStop (.aborting result)) else none
  | .aborting result =>
      some ({ s with aborted := true, locked := false }.enterStop (.reading result false))
  | .reading result confirmed =>
      let terminal := s.status.state.isTerminal
      match result with
      | .ok () =>
          if confirmed || terminal then
            some (s.enterStop (.verifying "stopped instance identity verification failed: "))
          else some (s.enterStop (.reaping "instance monitor did not confirm termination" terminal))
      | .error detail => some (s.enterStop (.reaping detail terminal))
  | .reaping error terminal => some (s.reap c error terminal)
  | .publishStopped => some ((s.publish .stop (.stopped .user)).enterStop (.done (.ok ())))
  | .done _ => none

/-- One move. -/
def step (settings : Settings) (s : Sys) : Move → Option Sys
  | .event event => if s.eventsClosed then none else some { s with events := s.events ++ [event] }
  | .closeEvents => some { s with eventsClosed := true }
  | .observation observation =>
      if (observation.runId, observation.pid) ∈ s.drivers then
        some { s with observations := s.observations ++ [observation] }
      else none
  | .request id => some { s with requests := s.requests ++ [id] }
  | .tick duration => some { s with now := s.now + duration }
  | .drop => some { s with probeCancel := true, cancel := true }
  | .monitor choice => if s.aborted then none else s.monitorStep settings choice
  | .callStop =>
      match s.stop with
      | .unrequested => some (s.enterStop .begun)
      | _ => none
  | .stop choice => s.stopStep choice

end Sys

/-- An instance that was just spawned. -/
structure Sys.Spawned (s : Sys) : Prop where
  status : s.status.state = .starting ∧ s.status.health.map (·.state) = some .starting
  drivers : s.drivers = []
  observations : s.observations = []
  userStop : s.userStop = false
  probeTimeout : s.probeTimeout = false
  locked : s.locked = false
  aborted : s.aborted = false
  vars : s.vars = ⟨false, false, false, 0, none, none, none, none⟩
  phase : s.phase = .pollCancel
  stop : s.stop = .unrequested
  history : s.history = ⟨[], [], [], [], [], false⟩

/-- An instance as `spawn` leaves it, at the beginning of time. -/
def Sys.launch : Sys where
  status := ⟨.starting, some (.starting 0)⟩
  events := []
  eventsClosed := false
  drivers := []
  observations := []
  requests := []
  refused := []
  now := 0
  userStop := false
  probeTimeout := false
  probeCancel := false
  cancel := false
  supervisor := true
  locked := false
  aborted := false
  vars := ⟨false, false, false, 0, none, none, none, none⟩
  phase := .pollCancel
  stop := .unrequested
  history := ⟨[], [], [], [], [], false⟩

theorem Sys.launch_spawned : Sys.launch.Spawned :=
  ⟨⟨rfl, rfl⟩, rfl, rfl, rfl, rfl, rfl, rfl, rfl, rfl, rfl, rfl⟩

end Nyanpasu.Instance
