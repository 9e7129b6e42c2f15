import Nyanpasu.State
import Nyanpasu.Lib.Program
import Nyanpasu.Config.Prepare

/-!
# The data of the manager and its effects

The control state of the manager, the records it hands between its operations, and the
effects that its operations perform: on the control state, on the published status, on the
processes, on the runtime directory, and on everything outside.
-/

namespace Nyanpasu.Manager

open Config

/-- `Instance`: the handle of one spawned process, with what it was spawned from. -/
structure Instance where
  id : ℕ
  epoch : ℕ
  spec : InstanceSpec
  controller : ResolvedController
  deriving DecidableEq

/-- The task that forwards the updates of an instance to the published status. -/
structure Forwarder where
  instanceId : ℕ
  epoch : ℕ
  deriving DecidableEq, Repr

/-- `Active`. -/
structure Active where
  handle : Instance
  forwarder : Forwarder
  sourceSpec : InstanceSpec
  revision : ConfigRevision
  capabilities : List Feature
  runtimeFeatures : List RuntimeFeature
  sourceDocument : Document
  effectiveDocument : Document
  deriving DecidableEq

/-- `QuarantinedEpoch`. -/
structure QuarantinedEpoch where
  epoch : ℕ
  reason : String
  deathProven : Bool
  deriving DecidableEq, Repr

/-- `Ctrl`: what the control lock protects. -/
structure Ctrl where
  current : Option Active
  lastSpec : Option InstanceSpec
  quarantine : List QuarantinedEpoch
  deriving DecidableEq

/-- `ResolvedFeatures`. -/
structure ResolvedFeatures where
  capabilities : List Feature
  runtime : List RuntimeFeature
  version : Option String

/-- `PreparedLaunch`. -/
structure PreparedLaunch where
  sourceSpec : InstanceSpec
  effectiveSpec : InstanceSpec
  controller : ResolvedController
  revision : ConfigRevision
  capabilities : List Feature
  runtimeFeatures : List RuntimeFeature
  sourceDocument : Document
  effectiveDocument : Document

/-- `PreparedGraceful`. -/
structure PreparedGraceful where
  launch : PreparedLaunch
  fullStaged : Artifact
  restoration : Option (ConfigPatch × RuntimeProjection)

/-- `PreparedApply`. -/
structure PreparedApply where
  desired : PreparedLaunch
  staged : Artifact

/-- `DegradeReason`. -/
inductive DegradeReason where
  | notRunning
  | unsupportedKind
  | dnsListen
  | inboundConflict
  | patchFailed
  | httpController
  deriving DecidableEq, Repr

/-- `SwitchOutcome`. -/
inductive SwitchOutcome where
  | graceful
  | hard (reason : DegradeReason)
  | durabilityUncertain (outcome : SwitchOutcome) (warning : String)
  deriving DecidableEq, Repr

/-- `ApplyOutcome`. -/
inductive ApplyOutcome where
  | noop (revision : ConfigRevision)
  | patched (revision : ConfigRevision)
  | reloaded (revision : ConfigRevision)
  | restarted (revision : ConfigRevision)
  | switched (revision : ConfigRevision)
  | rolledBack (revision : ConfigRevision) (failedApply : String)
  | durabilityUncertain (outcome : ApplyOutcome) (warning : String)
  deriving DecidableEq, Repr

/-- The part of `ManagerOptions` that the operations read, with the libraries they call. -/
structure Options where
  site : Site
  ip : IpText
  /-- The debug text of instance options. -/
  debugOptions : InstanceOptions → String
  /-- `runtime_dir`. -/
  runtimeDir : String
  processId : ℕ
  /-- The debug text of `stop_timeout`. -/
  stopTimeout : String

/-- The file name of an artifact. -/
def Options.fileName (options : Options) : Artifact → String
  | .config epoch => "config-" ++ toString epoch ++ ".yaml"
  | .backup epoch generation =>
      "config-" ++ toString epoch ++ ".yaml.backup-" ++ toString generation
  | .staged epoch counter =>
      ".config-" ++ toString epoch ++ ".yaml.tmp-" ++ toString options.processId ++ "-" ++
        toString counter
  | .pid epoch => "core-" ++ toString epoch ++ ".pid"
  | .pidTemp epoch suffix => "core-" ++ toString epoch ++ ".pid.tmp-" ++ toString suffix
  | .socket epoch => "core-" ++ toString epoch ++ ".sock"

/-- The text of a path. -/
def Options.text (options : Options) : Path → String
  | .external text => text
  | .runtime artifact => options.runtimeDir ++ "/" ++ options.fileName artifact

/-- `OrphanReapOutcome`. -/
inductive ReapOutcome where
  | notFound
  | alreadyExited
  | killed
  deriving DecidableEq, Repr

/-- `ProcessError` of a supervisor stop. -/
inductive ProcessError where
  | alreadyExited
  | other (detail : String)
  deriving DecidableEq, Repr

/-- What `symlink_metadata` finds at a socket path. -/
inductive SocketKind where
  | missing
  | socket
  | unsafeFile
  deriving DecidableEq, Repr

/-- The place that spawns a process. -/
inductive LaunchSite where
  | startPrepared
  | gracefulSwitch
  | spawnReplacement
  deriving DecidableEq, Repr

/-- What the supervisor library answers to a spawn: the new process or an error, with the
process artifacts it left in the runtime directory. -/
structure SpawnAnswer where
  result : Except Error ℕ
  artifacts : List Artifact

/-- Points of a run that a specification refers to. They change nothing. -/
inductive Mark where
  /-- `stop_and_confirm_dead` returns an error for the epoch. -/
  | stopUnconfirmed (epoch : ℕ)
  /-- A stopped instance was discarded and its artifacts could not be removed. -/
  | staleLeft (epoch : ℕ)
  /-- A graceful switch has installed its instance and could not remove the artifacts of the
  old epoch. -/
  | uncleaned (epoch : ℕ)
  deriving DecidableEq, Repr

/-- The effects of the manager's operations. -/
inductive Effect where
  -- The outside world.
  /-- `ConfigSnapshot::load`. -/
  | load (path : Path)
  /-- `tokio::fs::metadata`: whether the file is there. -/
  | metadata (path : Path)
  /-- `resolve_features`. -/
  | resolveFeatures (core : CoreSpec)
  /-- `managed_endpoint_path`. -/
  | endpoint (epoch : ℕ)
  /-- `kind::check_config`. -/
  | checkConfig (spec : InstanceSpec)
  /-- `ControllerVersionProbe::new`, unless a readiness probe is configured. -/
  | probeClient (controller : ResolvedController)
  /-- `build_control_client`. -/
  | controlClient (controller : ResolvedController)
  /-- `Client::patch_config`. -/
  | patchConfig (controller : ResolvedController) (patch : ConfigPatch)
  /-- `Client::configs`, serialized. -/
  | configs (controller : ResolvedController)
  /-- `Client::update_config` from a path. -/
  | updateConfig (controller : ResolvedController) (path : String)
  /-- `Instance::probe_now(Reconcile)`, as `is_healthy`. -/
  | probeNow (id : ℕ)
  /-- `Shared::failure_summary`. -/
  | failureSummary (id : ℕ) (lifecycle : String)
  /-- `Shared::diagnostics`. -/
  | diagnostics (id : ℕ)
  /-- Whether the monitor's startup timeout has fired. -/
  | probeTimeout (id : ℕ)
  /-- The timer of a `tokio::time::timeout`: whether it has elapsed. -/
  | elapsed
  /-- The end of the log sink. -/
  | shutdownSink
  -- The control state.
  /-- `next_epoch`. -/
  | nextEpoch
  | ctrl
  /-- `ctrl.current.take()`. -/
  | takeCurrent
  | setCurrent (active : Active)
  | setLastSpec (spec : InstanceSpec)
  | setQuarantine (quarantine : List QuarantinedEpoch)
  -- The published status.
  | publish (publication : Publication)
  | spawnForwarder (forwarder : Forwarder)
  | abortForwarder (forwarder : Forwarder)
  -- The processes.
  /-- The supervisor's `spawn`. -/
  | spawn (site : LaunchSite) (spec : InstanceSpec) (epoch : ℕ) (controller : ResolvedController)
  /-- The first `Running` or `Stopped` state of the instance, unless its channel closes. -/
  | settle (id : ℕ)
  /-- `instance.state().borrow()`. -/
  | borrow (id : ℕ)
  /-- `Shared::publish` of the instance. -/
  | publishCell (id : ℕ) (state : InstanceState)
  | takeSupervisor (id : ℕ)
  /-- `supervisor.stop()` under the stop timeout. -/
  | supervisorStop (id : ℕ)
  | takeMonitor (id : ℕ)
  /-- Awaits the monitor under the stop timeout: whether it finished. -/
  | joinMonitor (id : ℕ)
  | abortMonitor (id : ℕ)
  /-- `try_exists`. -/
  | tryExists (artifact : Artifact)
  /-- `reap_epoch_pid_file` of the epoch's pid record. -/
  | reap (epoch : ℕ)
  -- The runtime directory.
  /-- `TEMP_COUNTER.fetch_add`. -/
  | freshTemp
  | validateAbsent (artifact : Artifact)
  | validateExisting (artifact : Artifact)
  | createNew (artifact : Artifact)
  | setPermissions (artifact : Artifact)
  /-- `write_all`, `flush` and `sync_all`. A failure leaves some bytes. -/
  | writeAll (artifact : Artifact) (contents : List UInt8)
  | read (artifact : Artifact)
  /-- `atomic_move_new`. -/
  | moveNew (source target : Artifact)
  /-- `atomic_replace`. -/
  | replace (source target : Artifact)
  | syncDir
  /-- `remove_regular_file`: a missing file is no error. -/
  | removeRegular (artifact : Artifact)
  | socketKind (artifact : Artifact)
  /-- `tokio::fs::remove_file`. -/
  | removeFile (artifact : Artifact)
  /-- The drop of a staged file that was not consumed: whether it was removed. -/
  | dropStaged (artifact : Artifact)
  | readDir
  | nextEntry
  | mark (point : Mark)

/-- The answers to an effect. -/
@[reducible] def Answer : Effect → Type
  | .load _ => Except Error ConfigSnapshot
  | .metadata _ => Bool
  | .resolveFeatures _ => Except Error ResolvedFeatures
  | .endpoint _ => Except Error String
  | .checkConfig _ => Except Error Unit
  | .probeClient _ => Except Error Unit
  | .controlClient _ => Except Error Unit
  | .patchConfig _ _ => Except Error Unit
  | .configs _ => Except Error Value
  | .updateConfig _ _ => Except Error Unit
  | .probeNow _ => Bool
  | .failureSummary _ _ => String
  | .diagnostics _ => String
  | .probeTimeout _ => Bool
  | .elapsed => Bool
  | .shutdownSink => Unit
  | .nextEpoch => ℕ
  | .ctrl => Ctrl
  | .takeCurrent => Option Active
  | .setCurrent _ => Unit
  | .setLastSpec _ => Unit
  | .setQuarantine _ => Unit
  | .publish _ => ℤ
  | .spawnForwarder _ => Unit
  | .abortForwarder _ => Unit
  | .spawn _ _ _ _ => SpawnAnswer
  | .settle _ => Option InstanceState
  | .borrow _ => InstanceStatus
  | .publishCell _ _ => Unit
  | .takeSupervisor _ => Bool
  | .supervisorStop _ => Option (Except ProcessError Unit)
  | .takeMonitor _ => Bool
  | .joinMonitor _ => Bool
  | .abortMonitor _ => Unit
  | .tryExists _ => Except Error Bool
  | .reap _ => Except Error ReapOutcome
  | .freshTemp => ℕ
  | .validateAbsent _ => Except Error Unit
  | .validateExisting _ => Except Error Unit
  | .createNew _ => Except Error Unit
  | .setPermissions _ => Except Error Unit
  | .writeAll _ _ => Except (Error × List UInt8) Unit
  | .read _ => Except Error (List UInt8)
  | .moveNew _ _ => Except Error Unit
  | .replace _ _ => Except Error Unit
  | .syncDir => Except Error Unit
  | .removeRegular _ => Except Error Unit
  | .socketKind _ => Except Error SocketKind
  | .removeFile _ => Except Error Unit
  | .dropStaged _ => Bool
  | .readDir => Except Error (List Artifact)
  | .nextEntry => Except Error Unit
  | .mark _ => Unit

/-- An effect that was performed, with its answer. -/
abbrev Performed := (effect : Effect) × Answer effect

/-- Whether an operation is suspended in the effect. -/
def Effect.awaits : Effect → Bool
  | .endpoint _ | .probeClient _ | .controlClient _ | .failureSummary _ _ | .diagnostics _
  | .probeTimeout _ | .nextEpoch | .ctrl | .takeCurrent | .setCurrent _
  | .setLastSpec _ | .setQuarantine _ | .publish _ | .spawnForwarder _
  | .borrow _ | .publishCell _ _ | .freshTemp | .dropStaged _ | .mark _ => false
  | _ => true

/-- An operation of the manager. -/
abbrev Action : Type → Type := Program Effect Answer

/-- Perform an effect. -/
abbrev perform (effect : Effect) : Action (Answer effect) := Program.perform effect

section Effects

/-! The effects as operations, with their answers written out. -/

def load (path : Path) : Action (Except Error ConfigSnapshot) := perform (.load path)

def metadata (path : Path) : Action Bool := perform (.metadata path)

def resolveFeatures (core : CoreSpec) : Action (Except Error ResolvedFeatures) :=
  perform (.resolveFeatures core)

def endpoint (epoch : ℕ) : Action (Except Error String) := perform (.endpoint epoch)

def checkConfig (spec : InstanceSpec) : Action (Except Error Unit) := perform (.checkConfig spec)

def nextEpoch : Action ℕ := perform .nextEpoch

def getCtrl : Action Ctrl := perform .ctrl

def takeCurrent : Action (Option Active) := perform .takeCurrent

def setCurrent (active : Active) : Action Unit := perform (.setCurrent active)

def setLastSpec (spec : InstanceSpec) : Action Unit := perform (.setLastSpec spec)

def setQuarantine (quarantine : List QuarantinedEpoch) : Action Unit :=
  perform (.setQuarantine quarantine)

def mark (point : Mark) : Action Unit := perform (.mark point)

/-- `Instance::state` and `borrow`. -/
def Instance.borrow (handle : Instance) : Action InstanceStatus := perform (.borrow handle.id)

/-- `Instance::pid`. -/
def Instance.pid (handle : Instance) : Action (Option ℕ) := do
  let status ← handle.borrow
  return status.state.pid

/-- `abort_and_await`. -/
def abortAndAwait (forwarder : Forwarder) : Action Unit := perform (.abortForwarder forwarder)

/-- `spawn_forwarder`. -/
def spawnForwarder (handle : Instance) (epoch : ℕ) : Action Forwarder := do
  let forwarder : Forwarder := ⟨handle.id, epoch⟩
  perform (.spawnForwarder forwarder)
  return forwarder

end Effects

end Nyanpasu.Manager
