import Nyanpasu.Manager.Switching

/-!
# Applying a configuration

`apply_config` compares the prepared document with the active one and patches, reloads,
restarts or switches the core. The two strategies that stop the old core compensate: when
the desired core does not come up, the old one is started again.
-/

namespace Nyanpasu.Manager

open Config

/-- `with_durability_result`. -/
def withDurabilityResult (result : Except Error ApplyOutcome) (warning : Option String) :
    Except Error ApplyOutcome :=
  match result, warning with
  | .ok outcome, some warning => .ok (.durabilityUncertain outcome warning)
  | .ok outcome, none => .ok outcome
  | .error error, some warning => .error (.durabilityUncertain error warning)
  | .error error, none => .error error

/-- `prepare_apply`. -/
def prepareApply (options : Options) (current : Active) (input : InstanceSpec)
    (snapshot : ConfigSnapshot) : Action (Except Error PreparedApply) :=
  (validateLaunchable input).andThen fun () =>
  (resolveFeatures input.core).andThen fun resolved =>
  (prepareFull options snapshot current.revision.epoch resolved.runtime).andThen fun prepared =>
  (stage current.revision.epoch prepared.bytes).andThen fun staged =>
  (checkStaged input staged).andThen fun () =>
  return .ok ⟨preparedLaunch input current.revision.epoch (current.revision.generation + 1)
    current.revision.runtimePath snapshot resolved prepared, staged⟩

/-- `reconcile_in_place`. -/
def reconcileInPlace (options : Options) (current : Active) (change : ConfigChange)
    (desired : PreparedLaunch) : Action Bool :=
  match change with
  | .patch patch projection => patchAndVerify current.handle patch projection
  | .switch => return false
  | .noop => return true
  | .reload => do
      let client : Except Error Unit ← perform (.controlClient current.handle.controller)
      match client with
      | .error _ => return false
      | .ok () =>
        let updated : Except Error Unit ← perform (.updateConfig current.handle.controller
          (options.text desired.revision.runtimePath))
        match updated with
        | .error _ => return false
        | .ok () => perform (.probeNow current.handle.id)

/-- The install of a replacement: its forwarder exists before the status is published. -/
def installReplacement (active : Forwarder → Active) (handle : Instance) (epoch : ℕ) :
    Action Unit := do
  let pid := (← handle.pid).getD 0
  let forwarder ← spawnForwarder handle epoch
  let active := active forwarder
  setLastSpec active.sourceSpec
  setCurrent active
  publishActive active (.running epoch pid)

/-- The `Active` that a rollback puts back. -/
def Active.reinstate (old : Active) (handle : Instance) (forwarder : Forwarder) : Active :=
  { old with handle, forwarder }

/-- The publication that the old core is coming back. -/
def Active.announceRestart (old : Active) : Action Unit :=
  publishLaunch (.restarting old.revision.epoch 0) old.sourceSpec old.capabilities
    old.runtimeFeatures old.handle.controller.host old.revision

/-- The restart of the old core after a failed apply. `finish` is what follows the install. -/
def rollBack (options : Options) (old : Active) (applyText context : String)
    (finish : Action Unit) : Action (Except Error ApplyOutcome) := do
  old.announceRestart
  match ← spawnReplacement options old.handle.spec old.revision.epoch old.handle.controller with
  | .ok handle =>
      installReplacement (old.reinstate handle) handle old.revision.epoch
      finish
      return .ok (.rolledBack old.revision applyText)
  | .error rollbackError =>
      if isStopUnconfirmed rollbackError then
        let error ← latchQuarantine old.revision.epoch (.stopUnconfirmed (context ++ " (" ++
          applyText ++ "); rollback replacement " ++ rollbackError.message))
        return .error error
      else failTerminally (.applyRollbackFailed applyText rollbackError.message)

/-- The rollback of a restart: the committed file is restored from its backup first. -/
def restoreAndRollBack (options : Options) (old : Active) (saved : RuntimeConfigBackup)
    (applyText : String) : Action (Except Error ApplyOutcome) := do
  match ← restore options saved with
  | .error restoreError =>
      failTerminally (.applyRollbackFailed applyText
        ("runtime restore failed: " ++ restoreError.message))
  | .ok commit =>
      let rollback ← rollBack options old applyText "desired apply failed" do
        let _ ← removeBackup saved
        return ()
      return withDurabilityResult rollback commit.warning

/-- `restart_with_compensation`. -/
def restartWithCompensation (options : Options) (desired : PreparedLaunch)
    (saved : RuntimeConfigBackup) : Action (Except Error ApplyOutcome) := do
  match ← takeCurrent with
  | none => return expectFailed "current held by control lock"
  | some old =>
    abortAndAwait old.forwarder
    match ← old.handle.stopAndConfirmDead options with
    | .error error =>
        latchUnconfirmed old.revision.epoch error (failTerminally (.applyFailed
          ("failed to stop current epoch for reconcile: " ++ error.message)))
    | .ok () =>
      let epoch := desired.revision.epoch
      desired.announce (.restarting epoch 0)
      match ← spawnReplacement options desired.effectiveSpec epoch desired.controller with
      | .ok handle =>
          installReplacement (desired.activate handle) handle epoch
          let _ ← removeBackup saved
          return .ok (.restarted desired.revision)
      | .error error =>
          if isStopUnconfirmed error then
            let error ← latchQuarantine epoch error
            return .error error
          else restoreAndRollBack options old saved error.message

/-- `switch_with_compensation`. -/
def switchWithCompensation (options : Options) (input : InstanceSpec) (snapshot : ConfigSnapshot) :
    Action (Except Error ApplyOutcome) := do
  let epoch ← nextEpoch
  (prepareLaunch options input epoch snapshot).andThen fun desired => do
  match ← takeCurrent with
  | none => return expectFailed "current held by control lock"
  | some old =>
    let oldEpoch := old.revision.epoch
    abortAndAwait old.forwarder
    match ← old.handle.stopAndConfirmDead options with
    | .error error =>
        let _ ← cleanupEpoch options epoch
        latchUnconfirmed oldEpoch error (failTerminally (.applyFailed
          ("failed to stop current epoch for switch: " ++ error.message)))
    | .ok () =>
      let epoch := desired.revision.epoch
      desired.announce (.switching (some oldEpoch) epoch)
      match ← spawnReplacement options desired.effectiveSpec epoch desired.controller with
      | .ok handle =>
          installReplacement (desired.activate handle) handle epoch
          let _ ← cleanupEpoch options oldEpoch
          return .ok (.switched desired.revision)
      | .error error =>
          if isStopUnconfirmed error then
            let error ← latchQuarantine epoch error
            return .error error
          else
            let _ ← cleanupEpoch options epoch
            rollBack options old error.message "desired switch failed" (return ())

/-- The success of an in-place change: the `Active` is updated and published. -/
def adoptInPlace (desired : PreparedLaunch) (saved : RuntimeConfigBackup)
    (outcome : ApplyOutcome) (warning : Option String) : Action (Except Error ApplyOutcome) := do
  let ctrl ← getCtrl
  match ctrl.current with
  | none => return expectFailed "current held by control lock"
  | some active =>
    let active := desired.activate active.handle active.forwarder
    setCurrent active
    let pid := (← active.handle.pid).getD 0
    publishActive active (.running desired.revision.epoch pid)
    setLastSpec active.sourceSpec
    let _ ← removeBackup saved
    return withDurabilityResult (.ok outcome) warning

/-- The outcome of an in-place change. -/
def inPlaceOutcome (change : ConfigChange) (revision : ConfigRevision) : ApplyOutcome :=
  match change with
  | .patch _ _ => .patched revision
  | _ => .reloaded revision

/-- The in-place strategies: the file is replaced, the core is told, and a core that does
not follow is restarted. -/
def applyInPlace (options : Options) (current : Active) (prepared : PreparedApply)
    (change : ConfigChange) : Action (Except Error ApplyOutcome) :=
  let desired := prepared.desired
  (orDrop prepared.staged (backup current.revision.epoch desired.revision.generation)).andThen
    fun saved => do
  match ← commitReplace options prepared.staged desired.revision.epoch with
  | .error error =>
      let _ ← removeBackup saved
      return .error error
  | .ok commit =>
    if ← withinReconcileTimeout (reconcileInPlace options current change desired) then
      adoptInPlace desired saved (inPlaceOutcome change desired.revision) commit.warning
    else
      let result ← restartWithCompensation options desired saved
      return withDurabilityResult result commit.warning

/-- The choice of a strategy. -/
def applyChange (options : Options) (current : Active) (input : InstanceSpec)
    (snapshot : ConfigSnapshot) (prepared : PreparedApply) : Action (Except Error ApplyOutcome) :=
  let desired := prepared.desired
  match classify options.ip options.debugOptions current.sourceDocument.entries
      current.effectiveDocument.entries current.sourceSpec desired.sourceDocument.entries
      desired.effectiveDocument.entries desired.sourceSpec with
  | .error error => do
      dropStaged prepared.staged
      return .error error
  | .ok .noop => do
      dropStaged prepared.staged
      return .ok (.noop current.revision)
  | .ok .switch => do
      dropStaged prepared.staged
      switchWithCompensation options input snapshot
  | .ok change => applyInPlace options current prepared change

/-- `CoreManager::apply_config`. -/
def applyConfig (options : Options) (input : InstanceSpec) (expected : Option RevisionId) :
    Action (Except Error ApplyOutcome) := do
  let ctrl ← getCtrl
  match rejectQuarantine ctrl with
  | .error error => return .error error
  | .ok () =>
    match ctrl.current with
    | none => return .error .notStarted
    | some current =>
      let status ← current.handle.borrow
      if status.state.isTerminal then return .error .notStarted
      else match expected.filter (· ≠ current.revision.id) with
      | some expected =>
          return .error (.revisionConflict expected (some current.revision.id))
      | none =>
          (load input.configPath).andThen fun snapshot =>
          (prepareApply options current input snapshot).andThen fun prepared =>
          applyChange options current input snapshot prepared

end Nyanpasu.Manager
