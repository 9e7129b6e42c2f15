import Nyanpasu.Instance.Readiness

/-!
# Probe drivers

Every run of a core has a driver, a task that probes it: periodically, and once for each
`probe_now` that the monitor hands over. Drivers and callers are put here beside the
monitor. A caller waits for the answer of a oneshot, whose sender travels from the queue of
the monitor to the queue of a driver and is dropped with the task that holds it; the monitor
replaces a driver only after awaiting its end. The log is a record that no task reads.
-/

namespace Nyanpasu.Instance

open Moves

/-- `ProbePhase`. -/
inductive ProbePhase where
  | readiness
  | liveness
  | reconcile
  deriving DecidableEq, Repr

/-- What an attempt is made for: the timer, or a caller of `probe_now`. -/
inductive Purpose where
  | periodic (phase : ProbePhase)
  | reconcile (caller : ℕ)
  deriving DecidableEq, Repr

/-- The phase of an attempt. -/
def Purpose.phase : Purpose → ProbePhase
  | .periodic phase => phase
  | .reconcile _ => .reconcile

/-- The callers that an attempt answers. -/
def Purpose.callers : Purpose → List ℕ
  | .periodic _ => []
  | .reconcile caller => [caller]

/-- `DriverCommand`, with the caller in the place of its oneshot. -/
inductive DriverCommand where
  | useLiveness
  | reconcile (caller : ℕ)
  deriving DecidableEq, Repr

/-- The callers whose oneshots are in a queue of commands. -/
def callersOf (commands : List DriverCommand) : List ℕ :=
  commands.filterMap fun command =>
    match command with
    | .useLiveness => none
    | .reconcile caller => some caller

/-- Where the task of a driver stands. -/
inductive Stage where
  -- The arms of the biased `select!` of the loop, polled in this order.
  | pollCancel
  | pollCommands
  | pollTimer
  -- The arms of the biased `select!` of `run_attempt`.
  | attemptCancel (purpose : Purpose)
  | attemptProbe (purpose : Purpose)
  /-- Before the `send` of the response. -/
  | respond (observation : Observation) (caller : ℕ)
  /-- Before the `send` of the observation. -/
  | observe (observation : Observation)
  | ended
  deriving DecidableEq, Repr

/-- The task of a `ProbeDriver`. -/
structure Task where
  pid : ℕ
  commands : List DriverCommand
  cancelled : Bool
  /-- The sender of the commands was dropped. -/
  closed : Bool
  periodic : Option ProbePhase
  stage : Stage
  deriving DecidableEq, Repr

/-- The task that `ProbeDriver::start` spawns. -/
def Task.start (pid : ℕ) : Task := ⟨pid, [], false, false, some .readiness, .pollCancel⟩

/-- One call of `run_attempt`. -/
structure Attempt where
  run : ℕ
  pid : ℕ
  purpose : Purpose
  deriving DecidableEq, Repr

/-- What happens with probes. -/
inductive Event where
  /-- A caller of `probe_now` has sent its request. -/
  | requested (caller : ℕ)
  /-- The monitor takes the request, with its current run. -/
  | taken (caller : ℕ) (current : Option RunState)
  | began (attempt : Attempt)
  | finished (attempt : Attempt) (result : ProbeResult)
  | abandoned (attempt : Attempt)
  /-- A driver sends an observation. -/
  | observed (run : ℕ)
  /-- The `stop` of a driver returns. -/
  | stopped (run : ℕ)
  /-- `probe_now` returns. -/
  | answered (caller : ℕ) (result : ProbeResult)
  deriving DecidableEq, Repr

/-- An instance with its driver tasks, by their runs, and its callers, by their numbers.
The log has its newest entry first. -/
structure Probing where
  sys : Sys
  tasks : ℕ → Option Task
  calls : ℕ
  log : List Event

/-- What drivers are started with. -/
structure Plan where
  /-- There is a liveness probe. -/
  liveness : Bool
  /-- The debug text of the probe timeout. -/
  timeoutText : String

/-- How a probe ends. -/
inductive Outcome where
  | checked (result : ProbeResult)
  | timedOut
  deriving DecidableEq, Repr

/-- What the environment answers to a step of a driver task. -/
structure TaskChoice where
  /-- The probe timer fires. -/
  fires : Bool
  /-- How the probe ends; `none` when it is still pending. -/
  outcome : Option Outcome
  clock : ℤ

/-- What can happen next. -/
inductive ProbingMove where
  /-- `probe_now`. -/
  | call (phase : ProbePhase)
  | sys (move : Move)
  /-- `ProbeDriver::stop` cancels the task. -/
  | cancelDriver
  | task (run : ℕ) (choice : TaskChoice)

/-- The monitor has returned. -/
def Phase.isFinished : Phase → Bool
  | .finished => true
  | _ => false

/-- The acknowledgement has succeeded. -/
def Phase.acknowledged : Phase → Bool
  | .ackHealth .. => true
  | _ => false

/-- The task of the monitor is there. -/
def Sys.live (s : Sys) : Bool := !s.phase.isFinished && !s.aborted

/-- The result of an attempt. -/
def Outcome.result (plan : Plan) : Outcome → ProbeResult
  | .checked result => result
  | .timedOut => .unhealthy (some ("probe timed out after " ++ plan.timeoutText))

namespace Probing

/-- Something happens. -/
def record (p : Probing) (event : Event) : Probing := { p with log := event :: p.log }

/-- `probe_now` returns without a healthy result. -/
def refuse (p : Probing) (caller : ℕ) (detail : String) : Probing :=
  p.record (.answered caller (.unhealthy (some detail)))

/-- Oneshot senders are dropped, so their callers see the end of the driver. -/
def drop (p : Probing) (callers : List ℕ) : Probing :=
  { p with
    log := callers.map (fun caller =>
      .answered caller (.unhealthy (some "instance probe driver stopped"))) ++ p.log }

/-- A driver task changes. -/
def setTask (p : Probing) (run : ℕ) (task : Task) : Probing :=
  { p with tasks := Function.update p.tasks run (some task) }

/-- `send` of a command. A task that has ended receives nothing. -/
def send (p : Probing) (run : ℕ) (command : DriverCommand) : Probing :=
  match p.tasks run with
  | none => p.drop (callersOf [command])
  | some task =>
      if task.stage = .ended then p.drop (callersOf [command])
      else p.setTask run { task with commands := task.commands ++ [command] }

/-- The task of a driver ends, and its queue is dropped. -/
def endTask (p : Probing) (run : ℕ) (task : Task) : Probing :=
  (p.setTask run { task with commands := [], stage := .ended }).drop (callersOf task.commands)

/-- The beginning of `run_attempt`. -/
def beginAttempt (p : Probing) (run : ℕ) (task : Task) (purpose : Purpose) : Probing :=
  (p.setTask run { task with stage := .attemptCancel purpose }).record
    (.began ⟨run, task.pid, purpose⟩)

/-- What follows an attempt that has a result. -/
def finishAttempt (p : Probing) (run : ℕ) (task : Task) (purpose : Purpose)
    (result : ProbeResult) (clock : ℤ) : Probing :=
  let observation : Observation := ⟨run, task.pid, p.sys.now, clock, result⟩
  let stage :=
    match purpose with
    | .periodic _ => Stage.observe observation
    | .reconcile caller => .respond observation caller
  (p.setTask run { task with stage }).record (.finished ⟨run, task.pid, purpose⟩ result)

/-- One step of the task of a driver. -/
def taskStep (settings : Settings) (plan : Plan) (p : Probing) (run : ℕ) (c : TaskChoice) :
    Option Probing :=
  match p.tasks run with
  | none => none
  | some task =>
    match task.stage with
    | .pollCancel =>
        if task.cancelled then some (p.endTask run task)
        else some (p.setTask run { task with stage := .pollCommands })
    | .pollCommands =>
        match task.commands with
        | .useLiveness :: commands =>
            some (p.setTask run { task with
              commands
              periodic := if plan.liveness then some .liveness else none
              stage := .pollCancel })
        | .reconcile caller :: commands =>
            some (p.beginAttempt run { task with commands } (.reconcile caller))
        | [] =>
            if task.closed then some (p.endTask run task)
            else some (p.setTask run { task with stage := .pollTimer })
    | .pollTimer =>
        match task.periodic with
        | some phase =>
            if c.fires then some (p.beginAttempt run task (.periodic phase))
            else some (p.setTask run { task with stage := .pollCancel })
        | none => some (p.setTask run { task with stage := .pollCancel })
    | .attemptCancel purpose =>
        if task.cancelled then
          some (((p.setTask run { task with stage := .pollCancel }).record
            (.abandoned ⟨run, task.pid, purpose⟩)).drop purpose.callers)
        else some (p.setTask run { task with stage := .attemptProbe purpose })
    | .attemptProbe purpose =>
        match c.outcome with
        | none => some (p.setTask run { task with stage := .attemptCancel purpose })
        | some outcome =>
            some (p.finishAttempt run task purpose (outcome.result plan) c.clock)
    | .respond observation caller =>
        some ((p.setTask run { task with stage := .observe observation }).record
          (.answered caller observation.result))
    | .observe observation =>
        (p.sys.step settings (.observation observation)).map fun sys =>
          ({ p with sys }.setTask run { task with stage := .pollCancel }).record (.observed run)
    | .ended => none

/-- The monitor is gone: its queue is dropped, and so is its driver. -/
def release (p : Probing) : Probing :=
  let p := p.drop p.sys.requests
  match p.sys.vars.driver with
  | none => p
  | some run =>
      match p.tasks run with
      | none => p
      | some task => p.setTask run { task with cancelled := true, closed := true }

/-- A move of the instance, which may be the end of its monitor. -/
def advance (p : Probing) (sys : Sys) : Probing :=
  if p.sys.live && !sys.live then { p.release with sys } else { p with sys }

/-- The monitor has taken a request. -/
def takeRequest (p : Probing) (vars : Local) (caller : ℕ) : Probing :=
  let p := p.record (.taken caller vars.current)
  if vars.current.any (·.ready) then
    match vars.driver with
    | some run => p.send run (.reconcile caller)
    | none => p.refuse caller "instance probe driver is not running"
  else p.refuse caller "instance is not running"

/-- What a step of the monitor does to drivers and callers. -/
def follow (p : Probing) (sys : Sys) : Probing :=
  match p.sys.phase with
  | .stopDriver _ =>
      match p.sys.vars.driver with
      | some run => { p with sys }.record (.stopped run)
      | none => { p with sys }
  | .startedRun pid _ =>
      if p.sys.vars.probesCancelled then { p with sys }
      else { p with sys }.setTask p.sys.vars.nextRunId (.start pid)
  | .pollRequests =>
      match p.sys.requests with
      | caller :: _ => { p with sys }.takeRequest p.sys.vars caller
      | [] => { p with sys }
  | .ackCall .. =>
      match p.sys.vars.driver with
      | some run =>
          if sys.phase.acknowledged then { p with sys }.send run .useLiveness else { p with sys }
      | none => { p with sys }
  | _ => p.advance sys

/-- The monitor does not wait for the end of a driver task. -/
def awaited (p : Probing) : Bool :=
  match p.sys.phase with
  | .stopDriver _ =>
      p.sys.vars.driver.all fun run => (p.tasks run).all fun task => task.stage = .ended
  | _ => true

/-- `probe_now`. -/
def probeNow (settings : Settings) (p : Probing) (phase : ProbePhase) : Option Probing :=
  let caller := p.calls
  let p := { p with calls := p.calls + 1 }
  if phase ≠ .reconcile then
    some (p.refuse caller "only reconciliation probes can be requested directly")
  else if p.sys.live then
    (p.sys.step settings (.request caller)).map fun sys => { p with sys }.record (.requested caller)
  else some (p.refuse caller "instance probe monitor is not running")

/-- One move. -/
def step (settings : Settings) (plan : Plan) (p : Probing) : ProbingMove → Option Probing
  | .call phase => p.probeNow settings phase
  | .sys move =>
      match move with
      | .observation _ | .request _ => none
      | .monitor c => if p.awaited then (p.sys.step settings (.monitor c)).map p.follow else none
      | move => (p.sys.step settings move).map p.advance
  | .cancelDriver =>
      match p.sys.phase, p.sys.vars.driver with
      | .stopDriver _, some run =>
          if p.sys.aborted then none
          else (p.tasks run).map fun task => p.setTask run { task with cancelled := true }
      | _, _ => none
  | .task run c => p.taskStep settings plan run c

end Probing

/-- An instance that was just spawned, without callers. -/
structure Probing.Spawned (p : Probing) : Prop where
  sys : p.sys.Spawned
  requests : p.sys.requests = []
  tasks : p.tasks = fun _ => none
  calls : p.calls = 0
  log : p.log = []

end Nyanpasu.Instance
