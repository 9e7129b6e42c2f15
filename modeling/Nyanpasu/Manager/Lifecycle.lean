import Nyanpasu.Manager.Effect

/-!
# One instance

The spawn of an instance, the wait for its readiness, and the stop that must prove the
death of its process: by the supervisor and the monitor, by a terminal state, or by the
reaper of the epoch's pid record.
-/

namespace Nyanpasu.Manager

/-- `epoch_pid_path`: the pid record, when it and the config are the artifacts of the
epoch. -/
def epochPidPath (spec : InstanceSpec) (epoch : ℕ) : Option Artifact :=
  if spec.pidFile = some (.runtime (.pid epoch)) ∧ spec.configPath = .runtime (.config epoch) then
    some (.pid epoch)
  else none

/-- Whether `Utf8Path::parent` finds a parent directory. -/
def hasParent : Path → Bool
  | .runtime _ => true
  | .external text => text ≠ "" && text ≠ "/"

/-- `InstanceBuilder::spawn`. The launch arguments of every kind are defined, so their check
cannot fail. -/
def spawnInstance (options : Options) (site : LaunchSite) (spec : InstanceSpec) (epoch : ℕ)
    (controller : ResolvedController) : Action (Except Error Instance) := do
  if !(← metadata spec.configPath) then
    return .error (.configNotFound (options.text spec.configPath))
  else if !(← metadata (.external spec.core.binaryPath)) then
    return .error (.binaryNotFound spec.core.binaryPath)
  else
    (perform (.probeClient controller)).andThen fun () => do
    let answer : SpawnAnswer ← perform (.spawn site spec epoch controller)
    return answer.result.map fun id => ⟨id, epoch, spec, controller⟩

/-- The error of an instance that stopped before it was ready. -/
def readinessError (id : ℕ) (reason : StopReason) : Action Error := do
  let text := match reason with
    | .error text => text
    | other => "stopped before ready: " ++ other.debug
  let stderrTail : String ← perform (.failureSummary id text)
  let timedOut : Bool ← perform (.probeTimeout id)
  return if timedOut then .startupTimeout stderrTail else .startupFailed stderrTail

/-- `wait_ready`. -/
def Instance.waitReady (handle : Instance) : Action (Except Error Unit) := do
  let settled : Option InstanceState ← perform (.settle handle.id)
  match settled with
  | some (.stopped reason) => return .error (← readinessError handle.id reason)
  | some _ => return .ok ()
  | none =>
      let tail : String ← perform (.diagnostics handle.id)
      return .error (.startupFailed tail)

/-- `reap_epoch_record_if_present`. -/
def Instance.reapEpochRecordIfPresent (handle : Instance) : Action (Except Error Unit) :=
  match epochPidPath handle.spec handle.epoch with
  | none => return .ok ()
  | some pidFile =>
      (perform (.tryExists pidFile)).andThen fun present =>
      if !present then return .ok ()
      else if !hasParent handle.spec.configPath then
        return .error (.stopUnconfirmed "runtime config has no parent directory")
      else (perform (.reap handle.epoch)).andThen fun _ => return .ok ()

/-- A verification whose failure leaves the stop unconfirmed. -/
def Instance.verifyIdentity (handle : Instance) (context : String) :
    Action (Except Error Unit) := do
  match ← handle.reapEpochRecordIfPresent with
  | .error error => return .error (.stopUnconfirmed (context ++ error.message))
  | .ok () => return .ok ()

/-- The stop of the supervisor under the stop timeout. -/
def Instance.stopSupervisor (options : Options) (handle : Instance) :
    Action (Except String Unit) := do
  let present : Bool ← perform (.takeSupervisor handle.id)
  if present then
    let stopped : Option (Except ProcessError Unit) ← perform (.supervisorStop handle.id)
    match stopped with
    | some (.ok ()) => return .ok ()
    | some (.error .alreadyExited) => return .ok ()
    | some (.error (.other detail)) => return .error ("supervisor stop failed: " ++ detail)
    | none => return .error ("supervisor stop exceeded " ++ options.stopTimeout)
  else return .ok ()

/-- The wait for the monitor under the stop timeout; a monitor that does not finish is
aborted. -/
def Instance.confirmMonitor (handle : Instance) : Action Bool := do
  let present : Bool ← perform (.takeMonitor handle.id)
  if present then
    let finished : Bool ← perform (.joinMonitor handle.id)
    if finished then return true
    else
      perform (.abortMonitor handle.id)
      return false
  else return false

/-- The fallback of a stop that the supervisor did not confirm: only the structured pid
record of the epoch can prove the death. -/
def Instance.reapUnconfirmed (handle : Instance) (stopError : String) (terminal : Bool) :
    Action (Except Error Unit) :=
  match epochPidPath handle.spec handle.epoch with
  | none => return .error (.stopUnconfirmed stopError)
  | some _ =>
      if !hasParent handle.spec.configPath then
        return .error (.stopUnconfirmed "runtime config has no parent directory")
      else do
        let reaped : Except Error ReapOutcome ← perform (.reap handle.epoch)
        match reaped with
        | .error error =>
            return .error (.stopUnconfirmed
              (stopError ++ "; epoch identity reaper failed: " ++ error.message))
        | .ok outcome =>
            if outcome = .alreadyExited ∨ outcome = .killed ∨ (outcome = .notFound ∧ terminal) then
              if !terminal then
                perform (.publishCell handle.id (.stopped .user))
                return .ok ()
              else return .ok ()
            else return .error (.stopUnconfirmed stopError)

/-- The steps of `stop_and_confirm_dead`. -/
def Instance.proveDead (options : Options) (handle : Instance) : Action (Except Error Unit) := do
  let status ← handle.borrow
  if status.state.isTerminal then
    handle.verifyIdentity "terminal instance identity verification failed: "
  else
    perform (.publishCell handle.id .stopping)
    let stopResult ← handle.stopSupervisor options
    let monitorConfirmed ← handle.confirmMonitor
    let status ← handle.borrow
    let terminal := status.state.isTerminal
    match stopResult with
    | .ok () =>
        if monitorConfirmed || terminal then
          handle.verifyIdentity "stopped instance identity verification failed: "
        else
          handle.reapUnconfirmed "instance monitor did not confirm termination" terminal
    | .error stopError => handle.reapUnconfirmed stopError terminal

/-- `stop_and_confirm_dead`. -/
def Instance.stopAndConfirmDead (options : Options) (handle : Instance) :
    Action (Except Error Unit) := do
  match ← handle.proveDead options with
  | .error error =>
      mark (.stopUnconfirmed handle.epoch)
      return .error error
  | .ok () => return .ok ()

end Nyanpasu.Manager
