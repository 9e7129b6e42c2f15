import Mathlib.Data.Int.Notation
import Nyanpasu.Spec

/-!
# Instance and manager states

The state machines of one instance and of the manager, and the status snapshot that the
manager publishes. The three ways to write the snapshot are functions on it: a lifecycle
publication, a publication for an instance, and the delivery of an instance update, which
is filtered by the epoch of the published revision.
-/

namespace Nyanpasu

/-- `HealthState`. -/
inductive HealthState where
  | starting
  | healthy
  | unhealthy
  deriving DecidableEq, Repr

/-- `HealthStatus`. Times are Unix milliseconds. -/
structure HealthStatus where
  state : HealthState
  changedAt : ℤ
  consecutiveFailures : ℕ
  lastError : Option String
  lastSuccessAt : Option ℤ
  deriving DecidableEq, Repr

/-- `HealthStatus::starting`. -/
def HealthStatus.starting (now : ℤ) : HealthStatus := ⟨.starting, now, 0, none, none⟩

/-- `StopReason`. -/
inductive StopReason where
  | finished
  | user
  | error (message : String)
  deriving DecidableEq, Repr

/-- The debug text of a stop reason. -/
def StopReason.debug : StopReason → String
  | .finished => "Finished"
  | .user => "User"
  | .error message => "Error(\"" ++ message ++ "\")"

/-- `InstanceState`. -/
inductive InstanceState where
  | starting
  | running (pid : ℕ)
  | restarting (attempt : ℕ)
  | stopping
  | stopped (reason : StopReason)
  deriving DecidableEq, Repr

/-- `InstanceState::is_terminal`. -/
def InstanceState.isTerminal : InstanceState → Bool
  | .stopped _ => true
  | _ => false

/-- `InstanceStatus`. -/
structure InstanceStatus where
  state : InstanceState
  health : Option HealthStatus
  deriving DecidableEq, Repr

/-- `InstanceStatus::initial`. -/
def InstanceStatus.initial (now : ℤ) : InstanceStatus := ⟨.starting, some (.starting now)⟩

/-- `Instance::pid` of a state. -/
def InstanceState.pid : InstanceState → Option ℕ
  | .running pid => some pid
  | _ => none

/-- `CoreState`. -/
inductive CoreState where
  | stopped (reason : Option StopReason)
  | starting (epoch : ℕ)
  | running (epoch pid : ℕ)
  | restarting (epoch attempt : ℕ)
  | switching (source : Option ℕ) (target : ℕ)
  | stopping (epoch : ℕ)
  deriving DecidableEq, Repr

/-- Whether the state is `Stopped`. -/
def CoreState.isStopped : CoreState → Bool
  | .stopped _ => true
  | _ => false

/-- Whether the state is `Running`. -/
def CoreState.isRunning : CoreState → Bool
  | .running _ _ => true
  | _ => false

/-- The epoch of a state that belongs to one epoch. -/
def CoreState.epoch? : CoreState → Option ℕ
  | .starting epoch | .running epoch _ | .restarting epoch _ | .stopping epoch => some epoch
  | .stopped _ | .switching _ _ => none

/-- The epoch that a state names, which is the target of a switch. -/
def CoreState.target? : CoreState → Option ℕ
  | .starting epoch | .running epoch _ | .restarting epoch _ | .stopping epoch
  | .switching _ epoch => some epoch
  | .stopped _ => none

/-- `SpecSummary`. -/
structure SpecSummary where
  kind : CoreKind
  configPath : Path
  capabilities : List Feature
  runtimeFeatures : List RuntimeFeature
  deriving DecidableEq, Repr

/-- `ConfigRevision`. -/
structure ConfigRevision where
  epoch : ℕ
  generation : ℕ
  sourceHash : String
  effectiveHash : String
  runtimePath : Path
  deriving DecidableEq, Repr

/-- `ConfigRevision::id`. -/
def ConfigRevision.id (revision : ConfigRevision) : RevisionId :=
  ⟨revision.epoch, revision.generation, revision.effectiveHash⟩

/-- `CoreStatus`: the published snapshot. -/
structure CoreStatus where
  state : CoreState
  changedAt : ℤ
  health : Option HealthStatus
  spec : Option SpecSummary
  controller : Option Host
  revision : Option ConfigRevision
  deriving DecidableEq, Repr

/-- `CoreStatus::initial`. -/
def CoreStatus.initial (now : ℤ) : CoreStatus := ⟨.stopped none, now, none, none, none, none⟩

/-- `spec_summary`. -/
def specSummary (spec : InstanceSpec) (capabilities : List Feature)
    (runtimeFeatures : List RuntimeFeature) : SpecSummary :=
  ⟨spec.core.kind, spec.configPath, capabilities, runtimeFeatures⟩

/-- `instance_core_state`. -/
def instanceCoreState (epoch : ℕ) : InstanceState → CoreState
  | .starting => .starting epoch
  | .running pid => .running epoch pid
  | .restarting attempt => .restarting epoch attempt
  | .stopping => .stopping epoch
  | .stopped reason => .stopped (some reason)

/-- The health that a lifecycle state stands for, if any. -/
def CoreState.defaultHealth : CoreState → Option HealthState
  | .starting _ | .restarting _ _ | .switching _ _ => some .starting
  | .running _ _ => some .healthy
  | .stopping _ | .stopped _ => none

/-- `default_health_for_state`: the counters of an unchanged health state are kept. -/
def defaultHealthForState (now : ℤ) (previous : Option HealthStatus) (state : CoreState) :
    Option HealthStatus :=
  state.defaultHealth.map fun target =>
    match previous.filter (·.state = target) with
    | some status => { status with state := target }
    | none => { HealthStatus.starting now with state := target }

/-- How a publication sets the health. -/
inductive HealthUpdate where
  /-- `Inner::publish`: the default of the new lifecycle state. -/
  | ofState
  /-- `Inner::publish_instance`: the health read from the instance. -/
  | exactly (health : Option HealthStatus)
  deriving DecidableEq, Repr

/-- A publication of the manager itself. -/
structure Publication where
  state : CoreState
  health : HealthUpdate
  spec : Option SpecSummary
  controller : Option Host
  revision : Option ConfigRevision
  deriving DecidableEq, Repr

/-- The snapshot after a publication. -/
def CoreStatus.publish (status : CoreStatus) (now : ℤ) (p : Publication) : CoreStatus where
  state := p.state
  changedAt := if status.state ≠ p.state then now else status.changedAt
  health := match p.health with
    | .ofState => defaultHealthForState now status.health p.state
    | .exactly health => health
  spec := p.spec
  controller := p.controller
  revision := p.revision

/-- `apply_epoch_status`: the snapshot after the delivery of an instance update. An update
of an epoch other than the published one is ignored. -/
def applyEpochStatus (now : ℤ) (status : CoreStatus) (epoch : ℕ) (update : InstanceStatus) :
    CoreStatus :=
  if status.revision.map (·.epoch) ≠ some epoch then status
  else
    let state := instanceCoreState epoch update.state
    { status with
      state
      health := update.health
      changedAt := if status.state ≠ state then now else status.changedAt }

/-- A delivery never changes the published revision. -/
@[simp] theorem applyEpochStatus_revision (now : ℤ) (status : CoreStatus) (epoch : ℕ)
    (update : InstanceStatus) :
    (applyEpochStatus now status epoch update).revision = status.revision := by
  unfold applyEpochStatus
  split <;> rfl

/-- A delivery to the published epoch leaves the state and the health of the update. -/
theorem applyEpochStatus_of_epoch {now : ℤ} {status : CoreStatus} {epoch : ℕ}
    (update : InstanceStatus) (h : status.revision.map (·.epoch) = some epoch) :
    (applyEpochStatus now status epoch update).state = instanceCoreState epoch update.state ∧
      (applyEpochStatus now status epoch update).health = update.health := by
  simp [applyEpochStatus, h]

/-- A delivery to any other epoch changes nothing. -/
theorem applyEpochStatus_of_ne {now : ℤ} {status : CoreStatus} {epoch : ℕ}
    (update : InstanceStatus) (h : status.revision.map (·.epoch) ≠ some epoch) :
    applyEpochStatus now status epoch update = status := if_pos h

/-- Only a terminal instance is shown as stopped. -/
theorem isStopped_instanceCoreState (epoch : ℕ) (state : InstanceState) :
    (instanceCoreState epoch state).isStopped = state.isTerminal := by
  cases state <;> rfl

/-- A live instance is shown in a state of its epoch. -/
theorem epoch?_instanceCoreState {epoch : ℕ} {state : InstanceState}
    (h : state.isTerminal = false) : (instanceCoreState epoch state).epoch? = some epoch := by
  cases state <;> first | rfl | cases h

/-- What is shown for an instance names its epoch, or is `Stopped`. -/
theorem names_instanceCoreState (epoch : ℕ) (state : InstanceState) :
    (instanceCoreState epoch state).isStopped = true ∨
      (instanceCoreState epoch state).target? = some epoch := by
  cases state with
  | stopped reason => exact Or.inl rfl
  | starting => exact Or.inr rfl
  | running pid => exact Or.inr rfl
  | restarting attempt => exact Or.inr rfl
  | stopping => exact Or.inr rfl

end Nyanpasu
