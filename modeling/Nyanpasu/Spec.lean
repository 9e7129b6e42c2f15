import Nyanpasu.Error
import Mathlib.Algebra.GroupWithZero.Nat

/-!
# Launch specifications

The immutable description of a core process to launch, and the paths it names. Files that
the manager owns are named by what they are for; every other path is an opaque text.
-/

namespace Nyanpasu

/-- The epoch artifacts of the runtime directory. A staged temp carries the counter of the
process that made it. -/
inductive Artifact where
  /-- `config-{epoch}.yaml`. -/
  | config (epoch : ℕ)
  /-- `config-{epoch}.yaml.backup-{generation}`. -/
  | backup (epoch generation : ℕ)
  /-- `.config-{epoch}.yaml.tmp-{pid}-{counter}`. -/
  | staged (epoch counter : ℕ)
  /-- `core-{epoch}.pid`. -/
  | pid (epoch : ℕ)
  /-- `core-{epoch}.pid.tmp-{suffix}`. -/
  | pidTemp (epoch suffix : ℕ)
  /-- `core-{epoch}.sock`. -/
  | socket (epoch : ℕ)
  deriving DecidableEq, Repr

/-- The epoch that owns an artifact. -/
def Artifact.epoch : Artifact → ℕ
  | .config epoch => epoch
  | .backup epoch _ => epoch
  | .staged epoch _ => epoch
  | .pid epoch => epoch
  | .pidTemp epoch _ => epoch
  | .socket epoch => epoch

/-- A path: an artifact of the runtime directory, or anything else. -/
inductive Path where
  | external (text : String)
  | runtime (artifact : Artifact)
  deriving DecidableEq, Repr

/-- `HealthPolicy`, with durations in nanoseconds. -/
structure HealthPolicy where
  interval : ℕ
  timeout : ℕ
  failureThreshold : ℕ
  successThreshold : ℕ
  startPeriod : ℕ
  deriving DecidableEq, Repr

/-- `NonZeroU32`. -/
structure NonZeroU32 where
  get : ℕ
  pos : 0 < get
  lt : get < 2 ^ 32

/-- `HealthPolicy::new`. -/
def HealthPolicy.new (interval timeout : ℕ) (failureThreshold successThreshold : NonZeroU32)
    (startPeriod : ℕ) : Except Error HealthPolicy :=
  if interval = 0 then
    .error (.invalidHealthPolicy "interval must be greater than zero")
  else if timeout = 0 then
    .error (.invalidHealthPolicy "timeout must be greater than zero")
  else
    .ok ⟨interval, timeout, failureThreshold.get, successThreshold.get, startPeriod⟩

/-- What `HealthPolicy::new` accepts has nonzero times and thresholds of 32 bits. -/
theorem HealthPolicy.new_spec {interval timeout startPeriod : ℕ}
    {failureThreshold successThreshold : NonZeroU32} {policy : HealthPolicy}
    (h : HealthPolicy.new interval timeout failureThreshold successThreshold startPeriod =
      .ok policy) :
    interval ≠ 0 ∧ timeout ≠ 0 ∧
      policy = ⟨interval, timeout, failureThreshold.get, successThreshold.get, startPeriod⟩ := by
  unfold HealthPolicy.new at h
  split at h
  · cases h
  · split at h
    · cases h
    · exact ⟨by assumption, by assumption, (Except.ok.inj h).symm⟩

/-- `InstanceOptions`. The restart policy and the backoff belong to the process library and
are known by their debug text. -/
structure InstanceOptions where
  startupTimeout : ℕ
  health : HealthPolicy
  restartPolicy : String
  backoff : String
  deriving DecidableEq, Repr

/-- `CoreSpec`. -/
structure CoreSpec where
  kind : CoreKind
  binaryPath : String
  version : Option String
  features : List String
  deriving DecidableEq, Repr

/-- `InstanceSpec`. -/
structure InstanceSpec where
  core : CoreSpec
  configPath : Path
  workingDir : String
  pidFile : Option Path
  options : InstanceOptions
  deriving DecidableEq, Repr

/-- `clash_api::Host`. A URL is known by its text. -/
inductive Host where
  | namedPipe (path : String)
  | unixSocket (path : String)
  | http (url : String)
  deriving DecidableEq, Repr

/-- `ResolvedController`. -/
structure ResolvedController where
  host : Host
  secret : Option String
  deriving DecidableEq, Repr

/-- `Feature`: what a core build supports. -/
inductive Feature where
  | namedPipeIpc
  | unixSocketIpc
  | disableTcpController
  deriving DecidableEq, Repr

/-- `RuntimeFeature`: what the manager turned on for an epoch. -/
inductive RuntimeFeature where
  | localIpc
  deriving DecidableEq, Repr

end Nyanpasu
