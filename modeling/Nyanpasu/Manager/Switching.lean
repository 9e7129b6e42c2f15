import Nyanpasu.Manager.Lifecycle
import Nyanpasu.Manager.Publish
import Nyanpasu.Config.Inbounds

/-!
# Start, stop and switch

The operations that replace the running core. A hard switch stops the old core before it
starts the new one; a graceful switch boots the new core from a document without inbounds
while the old one serves, then stops the old core and restores the inbounds.
-/

namespace Nyanpasu.Manager

open Config

/-- `validate_launchable`. -/
def validateLaunchable (spec : InstanceSpec) : Action (Except Error Unit) := do
  if ← metadata (.external spec.core.binaryPath) then return .ok ()
  else return .error (.binaryNotFound spec.core.binaryPath)

/-- `ConfigSnapshot::prepare_full` with the endpoint it asks for. -/
def prepareFull (options : Options) (snapshot : ConfigSnapshot) (epoch : ℕ)
    (runtime : List RuntimeFeature) : Action (Except Error PreparedConfig) := do
  let managed ← endpoint epoch
  return snapshot.prepareFull options.site (fun _ => managed) epoch runtime

/-- `ConfigSnapshot::prepare_bootstrap` with the endpoint it asks for. -/
def prepareBootstrap (options : Options) (snapshot : ConfigSnapshot) (epoch : ℕ)
    (runtime : List RuntimeFeature) : Action (Except Error PreparedConfig) := do
  let managed ← endpoint epoch
  return snapshot.prepareBootstrap options.site (fun _ => managed) epoch runtime

/-- The check of a staged document, whose failure drops it. -/
def checkStaged (spec : InstanceSpec) (staged : Artifact) : Action (Except Error Unit) :=
  orDrop staged (checkConfig { spec with configPath := .runtime staged })

/-- The spec that an epoch is launched from. -/
def effectiveSpec (spec : InstanceSpec) (epoch : ℕ) (runtimePath : Path) : InstanceSpec :=
  { spec with configPath := runtimePath, pidFile := some (.runtime (.pid epoch)) }

/-- The launch of a prepared document. -/
def preparedLaunch (spec : InstanceSpec) (epoch generation : ℕ) (runtimePath : Path)
    (snapshot : ConfigSnapshot) (resolved : ResolvedFeatures) (prepared : PreparedConfig) :
    PreparedLaunch where
  sourceSpec := spec
  effectiveSpec := effectiveSpec spec epoch runtimePath
  controller := prepared.controller
  revision := ⟨epoch, generation, prepared.sourceHash, prepared.effectiveHash, runtimePath⟩
  capabilities := resolved.capabilities
  runtimeFeatures := resolved.runtime
  sourceDocument := snapshot.document
  effectiveDocument := prepared.document

/-- `prepare_launch_with_features`. -/
def prepareLaunchWithFeatures (options : Options) (spec : InstanceSpec) (epoch : ℕ)
    (snapshot : ConfigSnapshot) (resolved : ResolvedFeatures) :
    Action (Except Error PreparedLaunch) :=
  (prepareFull options snapshot epoch resolved.runtime).andThen fun prepared =>
  (stage epoch prepared.bytes).andThen fun staged =>
  (checkStaged spec staged).andThen fun () =>
  (commitNew options staged epoch).andThen fun runtimePath =>
  return .ok (preparedLaunch spec epoch 1 runtimePath snapshot resolved prepared)

/-- `prepare_launch`. -/
def prepareLaunch (options : Options) (spec : InstanceSpec) (epoch : ℕ)
    (snapshot : ConfigSnapshot) : Action (Except Error PreparedLaunch) :=
  (validateLaunchable spec).andThen fun () =>
  (resolveFeatures spec.core).andThen fun resolved =>
  prepareLaunchWithFeatures options spec epoch snapshot resolved

/-- The part of `prepare_graceful` that writes files: the full document stays staged, the
bootstrap document is committed. -/
def commitBootstrap (options : Options) (spec : InstanceSpec) (epoch : ℕ)
    (fullStaged : Artifact) (bytes : List UInt8) : Action (Except Error Path) :=
  orDrop fullStaged (
    (checkConfig { spec with configPath := .runtime fullStaged }).andThen fun () =>
    (stage epoch bytes).andThen fun bootstrapStaged =>
    (checkStaged spec bootstrapStaged).andThen fun () =>
    commitNew options bootstrapStaged epoch)

/-- `prepare_graceful`. -/
def prepareGraceful (options : Options) (spec : InstanceSpec) (epoch : ℕ)
    (snapshot : ConfigSnapshot) (resolved : ResolvedFeatures) :
    Action (Except Error PreparedGraceful) :=
  (prepareFull options snapshot epoch resolved.runtime).andThen fun full =>
  (prepareBootstrap options snapshot epoch resolved.runtime).andThen fun bootstrap =>
  if full.controller ≠ bootstrap.controller then
    return .error (.invalidConfig "full and bootstrap configs resolved different controllers")
  else match restorationPatch options.ip bootstrap.document.entries full.document.entries with
  | .error error => return .error error
  | .ok restoration =>
      (stage epoch full.bytes).andThen fun fullStaged =>
      (commitBootstrap options spec epoch fullStaged bootstrap.bytes).andThen fun runtimePath =>
      return .ok ⟨preparedLaunch spec epoch 1 runtimePath snapshot resolved full, fullStaged,
        restoration⟩

/-- The `Active` of a launch whose instance is ready. -/
def PreparedLaunch.activate (prepared : PreparedLaunch) (handle : Instance)
    (forwarder : Forwarder) : Active where
  handle := handle
  forwarder := forwarder
  sourceSpec := prepared.sourceSpec
  revision := prepared.revision
  capabilities := prepared.capabilities
  runtimeFeatures := prepared.runtimeFeatures
  sourceDocument := prepared.sourceDocument
  effectiveDocument := prepared.effectiveDocument

/-- The publication of a launch in progress. -/
def PreparedLaunch.announce (prepared : PreparedLaunch) (state : CoreState) : Action Unit :=
  publishLaunch state prepared.sourceSpec prepared.capabilities prepared.runtimeFeatures
    prepared.controller.host prepared.revision

/-- `install_switched`: the status is published before the forwarder exists. -/
def installSwitched (handle : Instance) (prepared : PreparedLaunch) : Action Unit := do
  let epoch := prepared.revision.epoch
  let pid := (← handle.pid).getD 0
  publishInstance handle (.running epoch pid) prepared.sourceSpec prepared.revision
    prepared.capabilities prepared.runtimeFeatures
  let forwarder ← spawnForwarder handle epoch
  setLastSpec prepared.sourceSpec
  setCurrent (prepared.activate handle forwarder)

/-- The result of an operation whose new instance was refused. -/
def refuse {α : Type} (options : Options) (epoch : ℕ) (error : Error)
    (publication : Action Unit) : Action (Except Error α) := do
  let _ ← cleanupEpoch options epoch
  publication
  return .error error

/-- `start_prepared`. -/
def startPrepared (options : Options) (prepared : PreparedLaunch) : Action (Except Error Unit) := do
  let epoch := prepared.revision.epoch
  prepared.announce (.starting epoch)
  match ← spawnInstance options .startPrepared prepared.effectiveSpec epoch prepared.controller with
  | .error error => refuse options epoch error (publishTerminalError error)
  | .ok handle =>
    match ← handle.waitReady with
    | .error readinessError =>
      match ← handle.stopAndConfirmDead options with
      | .ok () => refuse options epoch readinessError (publishTerminalError readinessError)
      | .error stopError =>
          let error ← latchQuarantine epoch (.stopUnconfirmed (readinessError.message ++
            "; failed to stop rejected initial instance: " ++ stopError.message))
          return .error error
    | .ok () =>
      installSwitched handle prepared
      return .ok ()

/-- `start_locked`. -/
def startLocked (options : Options) (spec : InstanceSpec) : Action (Except Error Unit) := do
  let epoch ← nextEpoch
  match ← load spec.configPath with
  | .error error => failTerminally error
  | .ok snapshot =>
    match ← prepareLaunch options spec epoch snapshot with
    | .error error => refuse options epoch error (publishTerminalError error)
    | .ok prepared => startPrepared options prepared

/-- Whether the manager holds an instance that has not stopped. -/
def isRunning (current : Option Active) : Action Bool :=
  match current with
  | none => return false
  | some active => do
      let status ← active.handle.borrow
      return !status.state.isTerminal

/-- The removal of an instance that has stopped by itself. -/
def discardStale (options : Options) : Action (Except Error Unit) := do
  match ← takeCurrent with
  | none => return .ok ()
  | some stale =>
      abortAndAwait stale.forwarder
      let epoch := stale.handle.epoch
      match ← stale.handle.stopAndConfirmDead options with
      | .error error => latchUnconfirmed epoch error (return .error error)
      | .ok () =>
        match ← cleanupEpoch options epoch with
        | .error error =>
            mark (.staleLeft epoch)
            return .error error
        | .ok () => return .ok ()

/-- `CoreManager::start`. -/
def start (options : Options) (spec : InstanceSpec) : Action (Except Error Unit) := do
  let ctrl ← getCtrl
  match rejectQuarantine ctrl with
  | .error error => return .error error
  | .ok () =>
    if ← isRunning ctrl.current then return .error .alreadyRunning
    else (discardStale options).andThen fun () => startLocked options spec

/-- The end of a stop: the instance is stopped, its artifacts are removed, and what is
published last depends on `finish`. -/
def stopTaken (options : Options) (handle : Instance) (finish : Action (Except Error Unit)) :
    Action (Except Error Unit) := do
  let epoch := handle.epoch
  match ← handle.stopAndConfirmDead options with
  | .error error => latchUnconfirmed epoch error (failTerminally error)
  | .ok () =>
    match ← cleanupEpoch options epoch with
    | .error error => failTerminally error
    | .ok () => finish

/-- The publication of a user stop. -/
def publishStopped : Action (Except Error Unit) := do
  publish (.stopped (some .user)) none none none
  return .ok ()

/-- `CoreManager::stop`. -/
def stop (options : Options) : Action (Except Error Unit) := do
  match ← takeCurrent with
  | none => return .error .notStarted
  | some active =>
    let captured ← active.handle.borrow
    abortAndAwait active.forwarder
    let epoch := active.handle.epoch
    if captured.state.isTerminal then
      publishLaunch (instanceCoreState epoch captured.state) active.sourceSpec
        active.capabilities active.runtimeFeatures active.handle.controller.host active.revision
      match ← active.handle.stopAndConfirmDead options with
      | .error error => latchUnconfirmed epoch error (return .error error)
      | .ok () =>
        match ← cleanupEpoch options epoch with
        | .error error => failTerminally error
        | .ok () => return .error .notStarted
    else
      publishLaunch (.stopping epoch) active.sourceSpec active.capabilities
        active.runtimeFeatures active.handle.controller.host active.revision
      stopTaken options active.handle publishStopped

/-- The stop of `shutdown`. -/
def shutdownActive (options : Options) : Action (Except Error Unit) := do
  match ← takeCurrent with
  | none => return .ok ()
  | some active =>
    abortAndAwait active.forwarder
    let epoch := active.handle.epoch
    publishLaunch (.stopping epoch) active.sourceSpec active.capabilities
      active.runtimeFeatures active.handle.controller.host active.revision
    stopTaken options active.handle publishStopped

/-- `CoreManager::shutdown`. -/
def shutdown (options : Options) : Action (Except Error Unit) := do
  let result ← shutdownActive options
  perform .shutdownSink
  return result

/-- `graceful_degrade_reason`. -/
def gracefulDegradeReason (localController : Bool) (kind : CoreKind)
    (block : Option OverlapBlock) : Option DegradeReason :=
  if !localController then some .httpController
  else if kind ≠ .mihomo then some .unsupportedKind
  else match block with
    | some .dnsListen => some .dnsListen
    | some .inboundSurface => some .inboundConflict
    | none => none

/-- A failed `expect`. -/
def expectFailed {α : Type} (message : String) : Except Error α :=
  .error (.process ("panicked: " ++ message))

/-- `hard_switch`. -/
def hardSwitch (options : Options) (spec : InstanceSpec) (snapshot : ConfigSnapshot)
    (resolved : ResolvedFeatures) : Action (Except Error Unit) := do
  let epoch ← nextEpoch
  match ← prepareLaunchWithFeatures options spec epoch snapshot resolved with
  | .error error => refuse options epoch error republishRetained
  | .ok prepared =>
    let ctrl ← getCtrl
    prepared.announce (.switching (ctrl.current.map (·.handle.epoch)) epoch)
    match ← takeCurrent with
    | none => return expectFailed "running checked by caller"
    | some old =>
      abortAndAwait old.forwarder
      let oldEpoch := old.handle.epoch
      match ← old.handle.stopAndConfirmDead options with
      | .error error =>
          let _ ← cleanupEpoch options epoch
          latchUnconfirmed oldEpoch error (failTerminally error)
      | .ok () =>
        match ← cleanupEpoch options oldEpoch with
        | .error error => failTerminally error
        | .ok () => startPrepared options prepared

/-- `spawn_replacement`. -/
def spawnReplacement (options : Options) (spec : InstanceSpec) (epoch : ℕ)
    (controller : ResolvedController) : Action (Except Error Instance) :=
  (spawnInstance options .spawnReplacement spec epoch controller).andThen fun handle => do
  match ← handle.waitReady with
  | .ok () => return .ok handle
  | .error error =>
    match ← handle.stopAndConfirmDead options with
    | .ok () => return .error error
    | .error stopError =>
        return .error (.stopUnconfirmed (error.message ++
          "; failed to stop rejected replacement: " ++ stopError.message))

/-- `patch_and_verify`. -/
def patchAndVerify (handle : Instance) (patch : ConfigPatch) (projection : RuntimeProjection) :
    Action Bool := do
  let client : Except Error Unit ← perform (.controlClient handle.controller)
  match client with
  | .error _ => return false
  | .ok () =>
    let _ ← perform (.patchConfig handle.controller patch)
    let runtime : Except Error Value ← perform (.configs handle.controller)
    match runtime with
    | .error _ => return false
    | .ok runtime =>
      if projection.verify runtime then perform (.probeNow handle.id) else return false

/-- An operation under `tokio::time::timeout`, false when the timer elapses first. -/
def withinReconcileTimeout (attempt : Action Bool) : Action Bool := do
  let reconciled ← attempt.timeout .elapsed id
  return reconciled.getD false

/-- `with_switch_durability_result`. -/
def withSwitchDurabilityResult (result : Except Error SwitchOutcome) (warning : Option String) :
    Except Error SwitchOutcome :=
  match result, warning with
  | .ok outcome, some warning => .ok (.durabilityUncertain outcome warning)
  | .ok outcome, none => .ok outcome
  | .error error, some warning => .error (.durabilityUncertain error warning)
  | .error error, none => .error error

/-- The end of a graceful switch: the new instance is installed and the old epoch cleaned. -/
def finishSwitch (options : Options) (handle : Instance) (launch : PreparedLaunch)
    (oldEpoch : ℕ) (outcome : SwitchOutcome) (warning : Option String) :
    Action (Except Error SwitchOutcome) := do
  installSwitched handle launch
  match ← cleanupEpoch options oldEpoch with
  | .error error =>
      mark (.uncleaned oldEpoch)
      return withSwitchDurabilityResult (.error error) warning
  | .ok () => return withSwitchDurabilityResult (.ok outcome) warning

/-- The fallback of a graceful switch whose inbounds were not restored: the bootstrap is
replaced by a process that starts from the committed full document. -/
def replaceBootstrap (options : Options) (handle : Instance) (launch : PreparedLaunch)
    (oldEpoch : ℕ) (warning : Option String) : Action (Except Error SwitchOutcome) := do
  let epoch := launch.revision.epoch
  match ← handle.stopAndConfirmDead options with
  | .error error =>
      let result ← latchUnconfirmed epoch error (failTerminally error)
      return withSwitchDurabilityResult result warning
  | .ok () =>
    match ← spawnReplacement options launch.effectiveSpec epoch launch.controller with
    | .ok replacement =>
        finishSwitch options replacement launch oldEpoch (.hard .patchFailed) warning
    | .error error =>
        if isStopUnconfirmed error then
          let error ← latchQuarantine epoch error
          return withSwitchDurabilityResult (.error error) warning
        else
          let _ ← cleanupEpoch options epoch
          publishTerminalError error
          return withSwitchDurabilityResult (.error error) warning

/-- The restoration of the inbounds of a booted instance. -/
def reconcileBootstrap (handle : Instance)
    (restoration : Option (ConfigPatch × RuntimeProjection)) : Action Bool :=
  withinReconcileTimeout (match restoration with
    | some (patch, projection) => patchAndVerify handle patch projection
    | none => perform (.probeNow handle.id))

/-- The part of a graceful switch after the death of the old instance. -/
def commitFull (options : Options) (handle : Instance) (prepared : PreparedGraceful)
    (oldEpoch : ℕ) : Action (Except Error SwitchOutcome) := do
  let epoch := prepared.launch.revision.epoch
  match ← commitReplace options prepared.fullStaged epoch with
  | .error error =>
    match ← handle.stopAndConfirmDead options with
    | .ok () =>
        let _ ← cleanupEpoch options epoch
        latchUnconfirmed epoch error (failTerminally error)
    | .error newError =>
        let error ← latchQuarantine epoch (.stopUnconfirmed ("full runtime commit failed: " ++
          error.message ++ "; bootstrap stop also failed: " ++ newError.message))
        return .error error
  | .ok commit =>
    if ← reconcileBootstrap handle prepared.restoration then
      finishSwitch options handle prepared.launch oldEpoch .graceful commit.warning
    else replaceBootstrap options handle prepared.launch oldEpoch commit.warning

/-- The failure of the old instance's stop during a graceful switch: the bootstrap is
stopped too. -/
def abandonBootstrap (options : Options) (handle : Instance) (fullStaged : Artifact)
    (oldEpoch : ℕ) (error : Error) : Action (Except Error SwitchOutcome) := do
  let epoch := handle.epoch
  dropStaged fullStaged
  match ← handle.stopAndConfirmDead options with
  | .ok () =>
      let _ ← cleanupEpoch options epoch
      latchUnconfirmed oldEpoch error (failTerminally error)
  | .error newError =>
      if isStopUnconfirmed error then
        let _ ← quarantineEpoch oldEpoch error.message
        let error ← latchQuarantine epoch (.stopUnconfirmed ("old epoch stop failed: " ++
          error.message ++ "; new bootstrap stop also failed: " ++ newError.message))
        return .error error
      else
        let error ← latchQuarantine epoch (.stopUnconfirmed ("old epoch stop failed: " ++
          error.message ++ "; new bootstrap stop also failed: " ++ newError.message))
        return .error error

/-- The rejection of a bootstrap that is not ready: the old instance is retained. -/
def rejectBootstrap (options : Options) (handle : Instance) (fullStaged : Artifact)
    (error : Error) : Action (Except Error SwitchOutcome) := do
  let epoch := handle.epoch
  dropStaged fullStaged
  match ← handle.stopAndConfirmDead options with
  | .ok () => refuse options epoch error republishRetained
  | .error stopError =>
      let error ← latchQuarantine epoch (.stopUnconfirmed (error.message ++
        "; failed to stop rejected graceful bootstrap: " ++ stopError.message))
      return .error error

/-- The point of no return of a graceful switch: the old instance is taken and stopped. -/
def handOver (options : Options) (handle : Instance) (prepared : PreparedGraceful) :
    Action (Except Error SwitchOutcome) := do
  match ← takeCurrent with
  | none => return expectFailed "running checked by caller"
  | some old =>
    abortAndAwait old.forwarder
    let oldEpoch := old.handle.epoch
    match ← old.handle.stopAndConfirmDead options with
    | .error error => abandonBootstrap options handle prepared.fullStaged oldEpoch error
    | .ok () => commitFull options handle prepared oldEpoch

/-- `graceful_switch`. -/
def gracefulSwitch (options : Options) (spec : InstanceSpec) (snapshot : ConfigSnapshot)
    (resolved : ResolvedFeatures) : Action (Except Error SwitchOutcome) := do
  let ctrl ← getCtrl
  let epoch ← nextEpoch
  match ← prepareGraceful options spec epoch snapshot resolved with
  | .error error => refuse options epoch error republishRetained
  | .ok prepared =>
    prepared.launch.announce (.switching (ctrl.current.map (·.handle.epoch)) epoch)
    match ← spawnInstance options .gracefulSwitch prepared.launch.effectiveSpec epoch
        prepared.launch.controller with
    | .error error =>
        dropStaged prepared.fullStaged
        refuse options epoch error republishRetained
    | .ok handle =>
      match ← handle.waitReady with
      | .error error => rejectBootstrap options handle prepared.fullStaged error
      | .ok () => handOver options handle prepared

/-- `switch_locked`. -/
def switchLocked (options : Options) (spec : InstanceSpec) :
    Action (Except Error SwitchOutcome) := do
  let ctrl ← getCtrl
  if ← isRunning ctrl.current then
    (load spec.configPath).andThen fun snapshot =>
    (validateLaunchable spec).andThen fun () =>
    (resolveFeatures spec.core).andThen fun resolved =>
    match gracefulDegradeReason (resolved.runtime.contains .localIpc) spec.core.kind
        (overlapBlock snapshot.document.entries) with
    | some reason =>
        (hardSwitch options spec snapshot resolved).andThen fun () => return .ok (.hard reason)
    | none => gracefulSwitch options spec snapshot resolved
  else
    (discardStale options).andThen fun () =>
    (startLocked options spec).andThen fun () => return .ok (.hard .notRunning)

/-- `CoreManager::switch`. -/
def switch (options : Options) (spec : InstanceSpec) : Action (Except Error SwitchOutcome) := do
  let ctrl ← getCtrl
  match rejectQuarantine ctrl with
  | .error error => return .error error
  | .ok () => switchLocked options spec

/-- `CoreManager::restart`. -/
def restart (options : Options) : Action (Except Error SwitchOutcome) := do
  let ctrl ← getCtrl
  match rejectQuarantine ctrl with
  | .error error => return .error error
  | .ok () =>
    match ctrl.lastSpec with
    | none => return .error .notStarted
    | some spec => switchLocked options spec

end Nyanpasu.Manager
