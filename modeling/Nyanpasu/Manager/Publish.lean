import Nyanpasu.Manager.Store

/-!
# Publications and the quarantine list

The publications of the manager, and the list of epochs whose process may be alive. While
the list is not empty the operations that could spawn a process are rejected.
-/

namespace Nyanpasu.Manager

/-- `Inner::publish`. -/
def publish (state : CoreState) (spec : Option SpecSummary) (controller : Option Host)
    (revision : Option ConfigRevision) : Action Unit := do
  let _ ← perform (.publish ⟨state, .ofState, spec, controller, revision⟩)
  return ()

/-- A publication about a launch that is being prepared, started or restored. -/
def publishLaunch (state : CoreState) (sourceSpec : InstanceSpec) (capabilities : List Feature)
    (runtimeFeatures : List RuntimeFeature) (host : Host) (revision : ConfigRevision) :
    Action Unit :=
  publish state (some (specSummary sourceSpec capabilities runtimeFeatures)) (some host)
    (some revision)

/-- `Inner::publish_instance`: the health is read first. -/
def publishInstance (handle : Instance) (state : CoreState) (sourceSpec : InstanceSpec)
    (revision : ConfigRevision) (capabilities : List Feature)
    (runtimeFeatures : List RuntimeFeature) : Action Unit := do
  let status ← handle.borrow
  let _ ← perform (.publish ⟨state, .exactly status.health,
    some (specSummary sourceSpec capabilities runtimeFeatures),
    some handle.controller.host, some revision⟩)
  return ()

/-- `Inner::publish_active`. -/
def publishActive (active : Active) (state : CoreState) : Action Unit :=
  publishInstance active.handle state active.sourceSpec active.revision active.capabilities
    active.runtimeFeatures

/-- `publish_terminal_error`. -/
def publishTerminalError (error : Error) : Action Unit :=
  publish (.stopped (some (.error error.message))) none none none

/-- `republish_retained`. -/
def republishRetained : Action Unit := do
  let ctrl ← getCtrl
  match ctrl.current with
  | none => return ()
  | some active =>
      let status ← active.handle.borrow
      publishActive active (instanceCoreState active.handle.epoch status.state)

/-- `quarantine_error`. -/
def quarantineError : List QuarantinedEpoch → Option Error
  | [] => none
  | [first] => some (.managerQuarantined first.epoch first.reason)
  | first :: rest =>
      let epochs := ", ".intercalate ((first :: rest).map fun entry => toString entry.epoch)
      some (.managerQuarantined first.epoch
        (first.reason ++ "; additional uncertain epochs: " ++ epochs))

/-- `reject_quarantine`. -/
def rejectQuarantine (ctrl : Ctrl) : Except Error Unit :=
  match quarantineError ctrl.quarantine with
  | some error => .error error
  | none => .ok ()

/-- `record_quarantine`: an epoch that is listed already gets the new reason. -/
def recordQuarantine (quarantine : List QuarantinedEpoch) (epoch : ℕ) (reason : String) :
    List QuarantinedEpoch :=
  match quarantine with
  | [] => [⟨epoch, reason, false⟩]
  | entry :: rest =>
      if entry.epoch = epoch then { entry with reason } :: rest
      else entry :: recordQuarantine rest epoch reason

/-- Record an epoch in the control state. -/
def quarantineEpoch (epoch : ℕ) (reason : String) : Action (List QuarantinedEpoch) := do
  let ctrl ← getCtrl
  let quarantine := recordQuarantine ctrl.quarantine epoch reason
  setQuarantine quarantine
  return quarantine

/-- `latch_quarantine`. -/
def latchQuarantine (epoch : ℕ) (error : Error) : Action Error := do
  let quarantine ← quarantineEpoch epoch error.message
  match quarantineError quarantine with
  | some rejection =>
      publishTerminalError rejection
      return error
  | none => return error

/-- Whether the error is `StopUnconfirmed`. -/
def isStopUnconfirmed : Error → Bool
  | .stopUnconfirmed _ => true
  | _ => false

/-- An unconfirmed stop is latched; any other error is handled by the caller. -/
def latchUnconfirmed {α : Type} (epoch : ℕ) (error : Error)
    (otherwise : Action (Except Error α)) : Action (Except Error α) := do
  if isStopUnconfirmed error then
    let error ← latchQuarantine epoch error
    return .error error
  else otherwise

/-- `publish_terminal_error` followed by the return of the error. -/
def failTerminally {α : Type} (error : Error) : Action (Except Error α) := do
  publishTerminalError error
  return .error error

end Nyanpasu.Manager
