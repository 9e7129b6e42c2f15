import Nyanpasu.Lib.Assoc
import Nyanpasu.Lib.Counter
import Nyanpasu.Lib.Serial
import Nyanpasu.Manager.Recover

/-!
# The world of the manager

What the effects of the manager act on: its control state and epoch counter, the runtime
directory, the processes with the evidence of their death, and the forwarder tasks. The
history records what the specifications speak about and is never read by an operation.
-/

namespace Nyanpasu.Manager

open Config

/-- A spawned process, with the slots of its instance and the evidence of its end. -/
structure Process where
  epoch : ℕ
  supervisor : Bool
  monitor : Bool
  /-- A stop has written the state of the instance. -/
  halting : Bool
  /-- The instance was seen `Running`. -/
  ready : Bool
  /-- The instance was seen `Stopped`. -/
  terminal : Bool
  /-- The supervisor's stop returned `Ok` or `AlreadyExited`. -/
  stopped : Bool
  /-- The monitor finished. -/
  joined : Bool
  /-- The reaper of the epoch answered `AlreadyExited` or `Killed`. -/
  reaped : Bool
  /-- The statuses that were read from the instance, newest first. -/
  reads : List InstanceStatus
  deriving DecidableEq, Repr

/-- The proofs of death that the manager accepts. -/
def Process.provenDead (process : Process) : Bool :=
  process.terminal || (process.stopped && process.joined) || process.reaped

/-- A process that was just spawned. -/
def Process.fresh (epoch : ℕ) : Process :=
  ⟨epoch, true, true, false, false, false, false, false, false, []⟩

/-- What a stop uses up of an instance: its supervisor, its monitor and its last state. -/
def Process.slots (process : Process) : Bool × Bool × Bool :=
  (process.supervisor, process.monitor, process.halting)

/-- The circumstances of a spawn. -/
structure Launch where
  site : LaunchSite
  epoch : ℕ
  /-- The earlier processes that were not proven dead. -/
  alive : List ℕ
  /-- The instance that the manager held. -/
  current : Option ℕ
  quarantine : List QuarantinedEpoch

/-- The circumstances in which an epoch left the quarantine list. -/
structure Release where
  epoch : ℕ
  /-- The processes of the epoch that were not proven dead. -/
  alive : List ℕ
  /-- The artifacts of the epoch in the runtime directory. -/
  artifacts : List Artifact

/-- What has happened so far; every list has its newest entry first. -/
structure History where
  /-- The artifacts found in the runtime directory at construction. -/
  found : List Artifact
  allocated : List ℕ
  loads : List ConfigSnapshot
  installs : List Active
  launches : List Launch
  publications : List Publication
  /-- The statuses that had been read from each instance at the last publication, newest
  first. -/
  sights : ℕ → List InstanceStatus
  /-- The forwarders that existed at some moment since the last publication. -/
  heard : List Forwarder
  /-- The epochs whose stop was not confirmed, until they are released. -/
  unconfirmed : List ℕ
  releases : List Release
  /-- The old epochs that a graceful switch could not remove after its install. -/
  uncleaned : List ℕ
  /-- An instance that had stopped was discarded without any publication since. -/
  stale : Bool
  /-- An operation holds what `ctrl` and the status do not show: a taken `Active`, a new
  process, a replaced file of the `Active`, or an announced launch. -/
  exposed : Bool
  /-- Since the last install an epoch was quarantined beside the instance, or an operation
  was dropped. -/
  muted : Bool

/-- The largest epoch found in the runtime directory at construction. -/
def History.top (history : History) : ℕ := (history.found.map (·.epoch)).foldr max 0

/-- The world. -/
structure World where
  ctrl : Ctrl
  /-- The epoch counter, an `AtomicU64`. -/
  epoch : ℕ
  files : List (Artifact × List UInt8)
  temps : ℕ
  spawned : ℕ
  processes : ℕ → Process
  forwarders : List Forwarder
  history : History

namespace World

/-- The epoch of every listed entry. -/
def quarantined (w : World) : List ℕ := w.ctrl.quarantine.map (·.epoch)

/-- `next_epoch`: what `fetch_add(1) + 1` makes of the counter. -/
def nextEpoch (w : World) : ℕ := (w.epoch + 1) % 2 ^ 64

/-- The processes that are not proven dead. -/
def alive (w : World) : List ℕ :=
  (List.range w.spawned).filter fun id => !(w.processes id).provenDead

/-- Change one process. -/
def observe (w : World) (id : ℕ) (f : Process → Process) : World :=
  { w with processes := fun j => if j = id then f (w.processes j) else w.processes j }

/-- Change every process of an epoch. -/
def observeEpoch (w : World) (epoch : ℕ) (f : Process → Process) : World :=
  { w with processes := fun j =>
      if (w.processes j).epoch = epoch then f (w.processes j) else w.processes j }

/-- Change the directory. -/
def setFiles (w : World) (files : List (Artifact × List UInt8)) : World := { w with files }

/-- The artifacts that the process of an epoch writes by itself. -/
def isProcessArtifact (epoch : ℕ) : Artifact → Bool
  | .pid owner | .pidTemp owner _ | .socket owner => owner = epoch
  | _ => false

/-- The record of a spawn in the present circumstances. -/
def launch (w : World) (site : LaunchSite) (epoch : ℕ) : Launch :=
  ⟨site, epoch, w.alive, w.ctrl.current.map (·.handle.id), w.ctrl.quarantine⟩

/-- The record of a release in the present circumstances. -/
def release (w : World) (epoch : ℕ) : Release :=
  ⟨epoch, w.alive.filter fun id => (w.processes id).epoch = epoch,
    (w.files.map Prod.fst).filter fun artifact => artifact.epoch = epoch⟩

/-- The epochs that a new quarantine list no longer holds. -/
def released (w : World) (quarantine : List QuarantinedEpoch) : List ℕ :=
  w.quarantined.filter fun epoch => epoch ∉ quarantine.map (·.epoch)

/-- Whether a publication leaves nothing of an operation unannounced: the manager is
stopped, or the publication is about the held instance. -/
def settledBy (w : World) (p : Publication) : Bool :=
  p.state.isStopped || (w.ctrl.current.any fun active => p.revision = some active.revision)

/-- The history after a publication. -/
def published (w : World) (p : Publication) : History :=
  { w.history with
    publications := p :: w.history.publications
    sights := fun id => (w.processes id).reads
    heard := w.forwarders
    stale := false
    exposed := !w.settledBy p && (w.history.exposed || w.ctrl.current.isNone) }

/-- The files after a move. -/
def moved (w : World) (source target : Artifact) : List (Artifact × List UInt8) :=
  match w.files.lookup source with
  | some contents => Assoc.insert (Assoc.erase w.files source) target contents
  | none => w.files

/-- Whether a path is the committed file of the held instance. -/
def isCommitted (w : World) (target : Artifact) : Bool :=
  w.ctrl.current.any fun active => target = .config active.revision.epoch

/-- Whether the state allows an answer. -/
def allowed (w : World) : (effect : Effect) → Answer effect → Prop
  | .load path, answer => ∀ snapshot ∈ answer.toOption, snapshot.sourcePath = path
  -- No manager lives long enough to give out an epoch twice.
  | .nextEpoch, answer => answer = w.nextEpoch ∧ w.history.allocated.length < 2 ^ 64
  | .ctrl, answer => answer = w.ctrl
  | .takeCurrent, answer => answer = w.ctrl.current
  | .spawn _ _ epoch _, answer =>
      (∀ id ∈ answer.result.toOption, id = w.spawned) ∧
        ∀ artifact ∈ answer.artifacts, isProcessArtifact epoch artifact = true
  | .settle _, answer => ∀ state ∈ answer, state.isTerminal = true ∨ state.pid.isSome = true
  | .takeSupervisor id, answer => answer = (w.processes id).supervisor
  | .takeMonitor id, answer => answer = (w.processes id).monitor
  | .freshTemp, answer => answer = w.temps
  | .validateAbsent artifact, answer =>
      answer.toOption.isSome = true → w.files.lookup artifact = none
  | .validateExisting artifact, answer =>
      answer.toOption.isSome = true → w.files.lookup artifact ≠ none
  | .createNew artifact, answer =>
      answer.toOption.isSome = true → w.files.lookup artifact = none
  | .read artifact, answer => ∀ contents ∈ answer.toOption, w.files.lookup artifact = some contents
  | .moveNew source target, answer => answer.toOption.isSome = true →
      w.files.lookup source ≠ none ∧ w.files.lookup target = none
  | .replace source _, answer => answer.toOption.isSome = true → w.files.lookup source ≠ none
  | .socketKind artifact, answer =>
      answer.toOption = some .missing → w.files.lookup artifact = none
  | .readDir, answer => ∀ entries ∈ answer.toOption,
      (∀ artifact ∈ w.files.map Prod.fst, artifact ∈ entries) ∧
        ∀ artifact ∈ entries, artifact ∈ w.files.map Prod.fst
  | _, _ => True

/-- The world after an answered effect. -/
def step (w : World) : (effect : Effect) → Answer effect → World
  | .load _, .ok snapshot =>
      { w with history := { w.history with loads := snapshot :: w.history.loads } }
  | .nextEpoch, epoch =>
      { w with epoch, history := { w.history with allocated := epoch :: w.history.allocated } }
  | .takeCurrent, _ =>
      { w with
        ctrl := { w.ctrl with current := none }
        history := { w.history with
          exposed := w.history.exposed || w.ctrl.current.isSome } }
  | .setCurrent active, _ =>
      { w with
        ctrl := { w.ctrl with current := some active }
        history := { w.history with
          installs := active :: w.history.installs
          exposed := false
          muted := false } }
  | .setLastSpec spec, _ => { w with ctrl := { w.ctrl with lastSpec := some spec } }
  | .setQuarantine quarantine, _ =>
      { w with
        ctrl := { w.ctrl with quarantine }
        history := { w.history with
          releases := (w.released quarantine).map w.release ++ w.history.releases
          unconfirmed := w.history.unconfirmed.filter (· ∉ w.released quarantine)
          muted := w.history.muted ||
            (w.ctrl.current.isSome && w.ctrl.quarantine.length < quarantine.length) } }
  | .publish p, _ => { w with history := w.published p }
  | .spawnForwarder forwarder, _ =>
      { w with
        forwarders := w.forwarders ++ [forwarder]
        history := { w.history with heard := w.history.heard ++ [forwarder], stale := false } }
  | .abortForwarder forwarder, _ => { w with forwarders := w.forwarders.erase forwarder }
  | .spawn site _ epoch _, answer =>
      let files := Assoc.insertAll w.files (answer.artifacts.map fun artifact => (artifact, []))
      match answer.result with
      | .error _ => w.setFiles files
      | .ok id =>
          { w with
            files
            spawned := w.spawned + 1
            processes := fun j => if j = id then .fresh epoch else w.processes j
            history := { w.history with
              launches := w.launch site epoch :: w.history.launches
              exposed := true } }
  | .settle id, some (.stopped _) => w.observe id fun process => { process with terminal := true }
  | .settle id, some _ => w.observe id fun process => { process with ready := true }
  | .borrow id, status =>
      w.observe id fun process => { process with
        terminal := process.terminal || status.state.isTerminal
        reads := status :: process.reads }
  | .publishCell id _, _ => w.observe id fun process => { process with halting := true }
  | .takeSupervisor id, _ => w.observe id fun process => { process with supervisor := false }
  | .supervisorStop id, some (.ok ()) =>
      w.observe id fun process => { process with stopped := true }
  | .supervisorStop id, some (.error .alreadyExited) =>
      w.observe id fun process => { process with stopped := true }
  | .takeMonitor id, _ => w.observe id fun process => { process with monitor := false }
  | .joinMonitor id, true => w.observe id fun process => { process with joined := true }
  | .reap epoch, .ok .alreadyExited =>
      w.observeEpoch epoch fun process => { process with reaped := true }
  | .reap epoch, .ok .killed =>
      w.observeEpoch epoch fun process => { process with reaped := true }
  | .freshTemp, _ => { w with temps := w.temps + 1 }
  | .createNew artifact, .ok () => w.setFiles (Assoc.insert w.files artifact [])
  | .writeAll artifact contents, .ok () => w.setFiles (Assoc.insert w.files artifact contents)
  | .writeAll artifact _, .error (_, left) => w.setFiles (Assoc.insert w.files artifact left)
  | .moveNew source target, .ok () => w.setFiles (w.moved source target)
  | .replace source target, .ok () =>
      { w with
        files := w.moved source target
        history := { w.history with exposed := w.history.exposed || w.isCommitted target } }
  | .removeRegular artifact, .ok () => w.setFiles (Assoc.erase w.files artifact)
  | .removeFile artifact, .ok () => w.setFiles (Assoc.erase w.files artifact)
  | .dropStaged artifact, true => w.setFiles (Assoc.erase w.files artifact)
  | .mark (.stopUnconfirmed epoch), _ =>
      { w with history := { w.history with unconfirmed := epoch :: w.history.unconfirmed } }
  | .mark (.staleLeft _), _ =>
      { w with history := { w.history with stale := w.forwarders.isEmpty, exposed := false } }
  | .mark (.uncleaned epoch), _ =>
      { w with history := { w.history with uncleaned := epoch :: w.history.uncleaned } }
  | _, _ => w

end World

/-- The machine of the manager. -/
def machine : Machine Effect Answer World where
  allowed := World.allowed
  step := World.step
  awaits := Effect.awaits

/-- The drop of a suspended operation removes staged files, as far as it can. -/
def World.drop (w : World) (removed : List Artifact) : World :=
  { w with
    files := w.files.filter fun entry =>
      match entry.1 with
      | .staged epoch counter => .staged epoch counter ∉ removed
      | _ => true
    history := { w.history with muted := true } }

/-- A drop removes staged files only. -/
theorem World.lookup_drop_config {w : World} {removed : List Artifact} {epoch : ℕ} :
    (w.drop removed).files.lookup (.config epoch) = w.files.lookup (.config epoch) :=
  Assoc.lookup_filter_key w.files (fun artifact => match artifact with
    | .staged epoch counter => .staged epoch counter ∉ removed
    | _ => true) (.config epoch)

/-- The plant of the manager: its requests are served one at a time. -/
def plant (options : Options) (cuts : World → Prop) :
    Serial.Plant Effect Answer World Request (Except Error Outcome) where
  machine := machine
  program := Request.program options
  Drift := Empty
  drift := fun d => d.elim
  Drop := List Artifact
  drop := fun removed w => w.drop removed
  cuts := cuts

/-- A process that finds an empty memory and some runtime directory. -/
structure Blank (w : World) : Prop where
  ctrl : w.ctrl = ⟨none, none, []⟩
  epoch : w.epoch = 0
  spawned : w.spawned = 0
  forwarders : w.forwarders = []
  history : w.history =
    ⟨w.files.map Prod.fst, [], [], [], [], [], fun _ => [], [], [], [], [], false, false, false⟩
  /-- The epoch in the name of an artifact is a `u64`. -/
  numbers : ∀ artifact ∈ w.files.map Prod.fst, artifact.epoch < 2 ^ 64

/-- `CoreManager::new`: the directory is swept and the counter starts at the largest epoch
found in it. -/
def Built (options : Options) (w : World) : Prop :=
  ∃ w₀ w₁ maxEpoch, Blank w₀ ∧ machine.Runs (sweepOrphans options) w₀ (.ok maxEpoch) w₁ ∧
    w = { w₁ with epoch := maxEpoch }

end Nyanpasu.Manager
