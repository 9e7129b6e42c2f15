import Nyanpasu.Manager.Runs

/-!
# The service around the manager

`CoreManagerService` turns wire requests into requests of the manager and keeps the core
type that was asked for last, since the manager knows nothing of the alpha variants. Its
operations are serialized by a lock of their own.
-/

namespace Nyanpasu.Service

open Manager

/-- `ClashCoreType`. -/
inductive ClashCoreType where
  | mihomo
  | mihomoAlpha
  | clashRust
  | clashRustAlpha
  | clashPremium
  | meow
  deriving DecidableEq, Repr

/-- `CoreType`: a core as the wire names it. -/
inductive CoreType where
  | clash (core : ClashCoreType)
  | singBox
  deriving DecidableEq, Repr

/-- `core_kind`. -/
def coreKind : CoreType → Except String CoreKind
  | .clash .mihomo | .clash .mihomoAlpha => .ok .mihomo
  | .clash .clashRust | .clash .clashRustAlpha => .ok .clashRust
  | .clash .clashPremium => .ok .clashPremium
  | .clash .meow => .ok .meow
  | .singBox => .error "sing-box is not a supported core"

/-- A path of the operating system, with its display text. -/
structure OsPath where
  text : String
  isUtf8 : Bool
  deriving DecidableEq, Repr

/-- `Utf8PathBuf::from_path_buf`. -/
def OsPath.toUtf8 (path : OsPath) : Option String := if path.isUtf8 then some path.text else none

/-- `Path::join` with the name of a file. -/
def OsPath.join (dir : OsPath) (name : String) : OsPath :=
  { dir with text := if dir.text.endsWith "/" || dir.text.isEmpty then dir.text ++ name
      else dir.text ++ "/" ++ name }

/-- The directories of `RuntimeInfos` that the operations read. -/
structure RuntimeInfos where
  nyanpasuDataDir : OsPath
  nyanpasuAppDir : OsPath

/-- What the service is built with, and what it takes from its libraries. -/
structure Settings where
  manager : Options
  infos : RuntimeInfos
  /-- `CoreType::get_executable_name`. -/
  executableName : CoreType → String
  /-- `InstanceOptions::default`. -/
  instanceOptions : InstanceOptions

/-- `find_binary_path` in a file system, given by the files that exist. -/
def findBinaryPath (settings : Settings) (present : OsPath → Bool) (core : CoreType) :
    Except String OsPath :=
  let name := settings.executableName core
  let inDataDir := settings.infos.nyanpasuDataDir.join name
  let inAppDir := settings.infos.nyanpasuAppDir.join name
  if present inDataDir then .ok inDataDir
  else if present inAppDir then .ok inAppDir
  else .error (name ++ " not found")

/-- `OpError`. -/
structure OpError where
  kind : Option String
  message : String
  deriving DecidableEq, Repr

/-- `OpError::plain`. -/
def OpError.plain (message : String) : OpError := ⟨none, message⟩

/-- `OpError::with_kind`. -/
def OpError.withKind (kind message : String) : OpError := ⟨some kind, message⟩

/-- `map_error_kind`, with the kinds of the wire protocol. -/
def mapErrorKind : Error → Option String
  | .notStarted => some "not_started"
  | .alreadyRunning => some "already_running"
  | .revisionConflict _ _ => some "revision_conflict"
  | .managerQuarantined _ _ => some "quarantined"
  | .configCheckFailed _ => some "config_check_failed"
  | .configNotFound _ => some "config_not_found"
  | .binaryNotFound _ => some "binary_not_found"
  | .invalidConfig _ | .yaml _ => some "invalid_config"
  | .controllerMissing => some "controller_missing"
  | .applyFailed _ => some "apply_failed"
  | .applyRollbackFailed _ _ => some "apply_rollback_failed"
  | .stopUnconfirmed _ => some "stop_unconfirmed"
  | .durabilityUncertain source _ => mapErrorKind source
  | _ => none

/-- `From<ManagerError> for OpError`. -/
def OpError.ofError (error : Error) : OpError :=
  ⟨mapErrorKind error, match error with
    | .notStarted => "core have not been started yet"
    | _ => error.message⟩

/-- `ApplyOutcomeKind`. -/
inductive ApplyOutcomeKind where
  | noop
  | patched
  | reloaded
  | restarted
  | switched
  | rolledBack
  deriving DecidableEq, Repr

/-- `ConfigRevisionInfo`. -/
structure ConfigRevisionInfo where
  epoch : ℕ
  generation : ℕ
  sourceHash : String
  effectiveHash : String
  deriving DecidableEq, Repr

/-- `map_revision`. -/
def mapRevision (revision : ConfigRevision) : ConfigRevisionInfo :=
  ⟨revision.epoch, revision.generation, revision.sourceHash, revision.effectiveHash⟩

/-- `CoreApplyData`. -/
structure CoreApplyData where
  outcome : ApplyOutcomeKind
  revision : ConfigRevisionInfo
  warning : Option String
  failedApply : Option String
  deriving DecidableEq, Repr

/-- The loop of `map_apply_outcome`, which collects the warnings. -/
def unwrapWarnings : ApplyOutcome → List String → ApplyOutcome × List String
  | .durabilityUncertain outcome warning, warnings => unwrapWarnings outcome (warnings ++ [warning])
  | outcome, warnings => (outcome, warnings)

/-- The match of `map_apply_outcome`; `none` is its unreachable arm. -/
def outcomeParts : ApplyOutcome → Option (ApplyOutcomeKind × ConfigRevision × Option String)
  | .noop revision => some (.noop, revision, none)
  | .patched revision => some (.patched, revision, none)
  | .reloaded revision => some (.reloaded, revision, none)
  | .restarted revision => some (.restarted, revision, none)
  | .switched revision => some (.switched, revision, none)
  | .rolledBack revision failedApply => some (.rolledBack, revision, some failedApply)
  | .durabilityUncertain _ _ => none

/-- The warnings of an apply as one text. -/
def joinWarnings (warnings : List String) : Option String :=
  if warnings.isEmpty then none else some ("; ".intercalate warnings)

/-- `map_apply_outcome`. -/
def mapApplyOutcome (outcome : ApplyOutcome) : Option CoreApplyData :=
  let (current, warnings) := unwrapWarnings outcome []
  (outcomeParts current).map fun (kind, revision, failedApply) =>
    ⟨kind, mapRevision revision, joinWarnings warnings, failedApply⟩

/-- An error of `canonicalize`. -/
structure IoError where
  notFound : Bool
  text : String

/-- The effects of the service. -/
inductive Effect where
  | manager (effect : Manager.Effect)
  /-- Reads the closing latch. -/
  | closing
  | close
  /-- `canonicalize_utf8`, simplified. -/
  | canonicalizeUtf8 (path : String)
  /-- `tokio::fs::canonicalize`, simplified. -/
  | canonicalize (path : OsPath)
  | metadata (path : String)
  /-- `manager.status().state`. -/
  | status
  /-- The files that exist when a binary is looked up. -/
  | files
  /-- `requested_core.send_modify`. -/
  | publishRequestedCore (committed : Option CoreType)

/-- The answers to an effect. -/
@[reducible] def Answer : Effect → Type
  | .manager effect => Manager.Answer effect
  | .closing => Bool
  | .close => Unit
  | .canonicalizeUtf8 _ => Except String String
  | .canonicalize _ => Except IoError OsPath
  | .metadata _ => Except String Unit
  | .status => CoreState
  | .files => OsPath → Bool
  | .publishRequestedCore _ => Unit

/-- An operation of the service. -/
abbrev Action : Type → Type := Program Effect Answer

/-- Perform an effect. -/
abbrev perform (effect : Effect) : Action (Answer effect) := Program.perform effect

/-- An operation of the manager. -/
def manage {α : Type} (p : Manager.Action α) : Action α := p.lift Effect.manager fun _ => id

/-- An operation that the closing latch refuses. -/
def unlessClosing {E α : Type} (refusal : String → E) (p : Action (Except E α)) :
    Action (Except E α) := do
  if ← perform .closing then return .error (refusal "service is shutting down") else p

/-- `instance_spec`. -/
def instanceSpec (settings : Settings) (core : CoreType) (configPath : String) :
    Action (Except OpError InstanceSpec) := do
  match settings.infos.nyanpasuDataDir.toUtf8 with
  | none =>
      return .error (.plain ("nyanpasu data dir is not UTF-8: " ++
        settings.infos.nyanpasuDataDir.text))
  | some workingDir =>
    let present ← perform .files
    match findBinaryPath settings present core with
    | .error message => return .error (.withKind "binary_not_found" message)
    | .ok path =>
      match path.toUtf8, coreKind core with
      | none, _ => return .error (.plain ("core binary path is not UTF-8: " ++ path.text))
      | some _, .error message => return .error (.plain message)
      | some binaryPath, .ok kind =>
          return .ok {
            core := ⟨kind, binaryPath, none, []⟩
            configPath := .external configPath
            workingDir
            pidFile := none
            options := settings.instanceOptions }

/-- `CoreManagerService::start`. -/
def start (settings : Settings) (core : CoreType) (configPath : String) :
    Action (Except String Unit) :=
  unlessClosing id <|
  (perform (.canonicalizeUtf8 configPath)).andThen fun configPath =>
  (perform (.metadata configPath)).andThen fun () => do
  let state ← perform .status
  if !state.isStopped then return .error "core is already running"
  else
    match ← instanceSpec settings core configPath with
    | .error error => return .error error.message
    | .ok spec =>
      match ← manage (Manager.start settings.manager spec) with
      | .error error => return .error error.message
      | .ok () =>
        perform (.publishRequestedCore (some core))
        return .ok ()

/-- The answer to a manager that is not started is a text of the protocol. -/
def notStartedAs (message : String) (error : Error) : String :=
  if error = .notStarted then message else error.message

/-- `CoreManagerService::stop`. -/
def stop (settings : Settings) : Action (Except String Unit) :=
  unlessClosing id do
  let result ← manage (Manager.stop settings.manager)
  return result.mapError (notStartedAs "core is already stopped")

/-- `CoreManagerService::restart`. -/
def restart (settings : Settings) : Action (Except String Unit) :=
  unlessClosing id do
  let result ← manage (Manager.restart settings.manager)
  return (result.map fun _ => ()).mapError (notStartedAs "core have not been started yet")

/-- `canonical_config_path`. -/
def canonicalConfigPath (configFile : OsPath) : Action (Except OpError String) := do
  let canonical : Except IoError OsPath ← perform (.canonicalize configFile)
  match canonical with
  | .error error =>
      let message := "failed to resolve config path " ++ configFile.text ++ ": " ++ error.text
      if error.notFound then return .error (.withKind "config_not_found" message)
      else return .error (.plain message)
  | .ok canonical =>
    match canonical.toUtf8 with
    | none => return .error (.plain ("config path is not UTF-8: " ++ canonical.text))
    | some path => return .ok path

/-- `CoreManagerService::apply`. -/
def apply (settings : Settings) (core : CoreType) (configFile : OsPath)
    (expected : Option RevisionId) : Action (Except OpError CoreApplyData) :=
  unlessClosing OpError.plain <|
  (canonicalConfigPath configFile).andThen fun configPath =>
  (instanceSpec settings core configPath).andThen fun spec => do
  match ← manage (applyConfig settings.manager spec expected) with
  | .error error => return .error (.ofError error)
  | .ok outcome =>
    match mapApplyOutcome outcome with
    | none => return .error (.plain "panicked: unwrapped by the loop above")
    | some data =>
      perform (.publishRequestedCore (if data.outcome = .rolledBack then none else some core))
      return .ok data

/-- `CoreManagerService::recover`. -/
def recover (settings : Settings) : Action (Except OpError Unit) :=
  unlessClosing OpError.plain do
  let result ← manage (recoverQuarantine settings.manager)
  return result.mapError .ofError

/-- `CoreManagerService::shutdown`, which logs its error. -/
def shutdown (settings : Settings) : Action Unit := do
  if ← perform .closing then return ()
  else
    perform .close
    let _ ← manage (Manager.shutdown settings.manager)
    return ()

/-- A request to the service. -/
inductive Request where
  | start (core : CoreType) (configPath : String)
  | stop
  | restart
  | apply (core : CoreType) (configFile : OsPath) (expected : Option RevisionId)
  | recover
  | shutdown

/-- What a request is answered. -/
inductive Response where
  | done (result : Except String Unit)
  | applied (result : Except OpError CoreApplyData)
  | recovered (result : Except OpError Unit)
  | closed

/-- The program of a request. -/
def Request.program (settings : Settings) : Request → Action Response
  | .start core configPath => do
      let result ← Service.start settings core configPath
      return .done result
  | .stop => do
      let result ← Service.stop settings
      return .done result
  | .restart => do
      let result ← Service.restart settings
      return .done result
  | .apply core configFile expected => do
      let result ← Service.apply settings core configFile expected
      return .applied result
  | .recover => do
      let result ← Service.recover settings
      return .recovered result
  | .shutdown => do
      Service.shutdown settings
      return .closed

/-- The state of the service. -/
structure State where
  world : World
  requestedCore : Option CoreType
  closing : Bool
  /-- The file systems in which binaries were looked up, newest first. No operation reads
  them. -/
  lookups : List (OsPath → Bool)

/-- Whether the state allows an answer. -/
def State.allowed (s : State) : (effect : Effect) → Answer effect → Prop
  | .manager effect, answer => s.world.allowed effect answer
  | .closing, answer => answer = s.closing
  | _, _ => True

/-- The state after an answered effect. -/
def State.step (s : State) : (effect : Effect) → Answer effect → State
  | .manager effect, answer => { s with world := s.world.step effect answer }
  | .close, _ => { s with closing := true }
  | .files, present => { s with lookups := present :: s.lookups }
  | .publishRequestedCore (some core), _ => { s with requestedCore := some core }
  | _, _ => s

/-- Whether an operation is suspended in the effect. -/
def Effect.awaits : Effect → Bool
  | .manager effect => effect.awaits
  | .canonicalize _ | .metadata _ => true
  | _ => false

/-- The machine of the service. -/
def machine : Machine Effect Answer State where
  allowed := State.allowed
  step := State.step
  awaits := Effect.awaits

/-- The plant of the service, where every request runs to its end. -/
def plant (settings : Settings) : Serial.Plant Effect Answer State Request Response where
  machine := machine
  program := Request.program settings
  Drift := Empty
  drift := fun d => d.elim
  Drop := Empty
  drop := fun d => d.elim
  cuts := fun _ => False

/-- `CoreManagerService::new`. -/
structure Built (settings : Settings) (s : State) : Prop where
  world : Manager.Built settings.manager s.world
  requestedCore : s.requestedCore = none
  closing : s.closing = false
  lookups : s.lookups = []

/-- The configurations that a service reaches. -/
def Run (settings : Settings) : Serial.Config Effect Answer State Request Response → Prop :=
  Serial.Reach (plant settings) (Built settings)

end Nyanpasu.Service
