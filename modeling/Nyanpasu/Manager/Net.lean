import Nyanpasu.Lib.Channel
import Nyanpasu.Manager.Runs

/-!
# The published status and the forwarders

Beside the operations of the manager the instances change their state, and one forwarder per
instance carries the changes into the published status. Both happen at any moment. The runs
of this larger system project to the runs of the manager, so what holds of the manager holds
here, and what the channels hold is related to the record that the manager keeps.
-/

namespace Nyanpasu.Manager

open Machine Serial

/-- A forwarder task: the version it has seen, the status it is about to publish, and whether
it has returned. -/
structure Task where
  seen : ℕ
  holding : Option InstanceStatus
  ended : Bool
  deriving DecidableEq, Repr

/-- The manager with the channels around it. -/
structure Net where
  world : World
  /-- The state channel of every instance. -/
  cells : ℕ → Watch InstanceStatus
  /-- What each state channel has held so far, newest first. -/
  shown : ℕ → List InstanceStatus
  tasks : Forwarder → Task
  /-- The status channel of the manager. -/
  status : CoreStatus
  /-- What was published on it so far, newest first. -/
  published : List CoreStatus

namespace Net

/-- A state channel gets a value. -/
def send (n : Net) (id : ℕ) (status : InstanceStatus) : Net :=
  { n with
    cells := fun j => if j = id then (n.cells j).send status else n.cells j
    shown := fun j => if j = id then status :: n.shown j else n.shown j }

/-- A forwarder moves on. -/
def setTask (n : Net) (forwarder : Forwarder) (task : Task) : Net :=
  { n with tasks := fun f => if f = forwarder then task else n.tasks f }

/-- The status channel gets a value. -/
def write (n : Net) (status : CoreStatus) : Net :=
  { n with status, published := status :: n.published }

/-- `Shared::publish` of the instance, whose channel exists once it is spawned. -/
def publishCell (n : Net) (id : ℕ) (state : InstanceState) : Net :=
  if id < n.world.spawned then
    n.send id ⟨state, match state with
      | .stopping | .stopped _ => none
      | _ => (n.cells id).value.health⟩
  else n

/-- Whether the channels allow an answer. -/
def allowed (n : Net) : (effect : Effect) → Answer effect → Prop
  | .borrow id, answer => answer = (n.cells id).value
  | .settle id, answer => ∀ state ∈ answer, (n.cells id).value.state = state
  | _, _ => True

/-- The channels after an answered effect. -/
def react (n : Net) : (effect : Effect) → Answer effect → Net
  | .publish p, now => n.write (n.status.publish now p)
  | .publishCell id state, _ => n.publishCell id state
  | .spawnForwarder forwarder, _ => n.setTask forwarder ⟨0, none, false⟩
  | _, _ => n

/-- The net after an answered effect. -/
def step (n : Net) (effect : Effect) (answer : Answer effect) : Net :=
  { n.react effect answer with world := n.world.step effect answer }

/-- What happens beside the operations. -/
inductive Drift where
  /-- The monitor of an instance publishes a status. -/
  | transition (id : ℕ) (status : InstanceStatus)
  /-- A forwarder wakes up and reads. -/
  | read (forwarder : Forwarder)
  /-- It delivers what it has read. -/
  | deliver (forwarder : Forwarder) (now : ℤ)

/-- `send_if_modified` of a delivery. -/
def delivered (n : Net) (forwarder : Forwarder) (now : ℤ) (status : InstanceStatus) : Net :=
  let value := applyEpochStatus now n.status forwarder.epoch status
  if value = n.status then n else n.write value

/-- One move beside the operations. A monitor that has published the end has returned. -/
def drift (n : Net) : Drift → Option Net
  | .transition id status =>
      if id < n.world.spawned ∧ (n.cells id).value.state.isTerminal = false then
        some (n.send id status)
      else none
  | .read forwarder =>
      let task := n.tasks forwarder
      let cell := n.cells forwarder.instanceId
      if forwarder ∈ n.world.forwarders ∧ task.ended = false ∧ task.holding = none ∧
          cell.changed task.seen = true then
        some (n.setTask forwarder ⟨cell.version, some cell.value, false⟩)
      else none
  | .deliver forwarder now =>
      let task := n.tasks forwarder
      match task.holding with
      | some status =>
          if forwarder ∈ n.world.forwarders then
            some ((n.delivered forwarder now status).setTask forwarder
              ⟨task.seen, none, status.state.isTerminal⟩)
          else none
      | none => none

/-- A drop acts on the manager. -/
def drop (removed : List Artifact) (n : Net) : Net := { n with world := n.world.drop removed }

/-- The forwarder has nothing left to deliver. -/
def Idle (n : Net) (forwarder : Forwarder) : Prop :=
  (n.tasks forwarder).ended = true ∨ ((n.tasks forwarder).holding = none ∧
    (n.tasks forwarder).seen = (n.cells forwarder.instanceId).version)

end Net

/-- Conditions on the steps of the net. -/
abbrev Condition : Type := Net → (effect : Effect) → Answer effect → Prop

/-- The manager among its channels, with fewer allowed steps. -/
def net (options : Options) (cuts : Net → Prop) (admits : Condition) :
    Plant Effect Answer Net Request (Except Error Outcome) where
  machine := Machine.restrict
    ⟨fun n effect answer => n.world.allowed effect answer ∧ n.allowed effect answer, Net.step,
      Effect.awaits⟩ admits
  program := Request.program options
  Drift := Net.Drift
  drift := fun d n => n.drift d
  Drop := List Artifact
  drop := Net.drop
  cuts := cuts

/-- A manager that was just built, with every channel at its first value. -/
structure NetBuilt (options : Options) (n : Net) : Prop where
  world : Built options n.world
  status : ∃ now, n.status = CoreStatus.initial now
  published : n.published = []
  cells : ∀ id, (n.cells id).version = 0 ∧ (n.cells id).value.state = .starting
  shown : ∀ id, n.shown id = [(n.cells id).value]

section Projection

variable {options : Options} {cuts : Net → Prop} {admits : Condition}
  {c : Config Effect Answer Net Request (Except Error Outcome)} {n n' : Net}

theorem Net.drift_world {d : Net.Drift} (h : n.drift d = some n') : n'.world = n.world := by
  cases d with
  | transition id status =>
    obtain ⟨-, heq⟩ := Option.ite_none_right_eq_some.mp h
    obtain rfl := Option.some.inj heq
    rfl
  | read forwarder =>
    obtain ⟨-, heq⟩ := Option.ite_none_right_eq_some.mp h
    obtain rfl := Option.some.inj heq
    rfl
  | deliver forwarder now =>
    simp only [Net.drift] at h
    split at h
    · obtain ⟨-, heq⟩ := Option.ite_none_right_eq_some.mp h
      obtain rfl := Option.some.inj heq
      simp only [Net.setTask, Net.delivered]
      split <;> rfl
    · cases h

/-- The net refines the manager. -/
theorem net_refines {cuts' : World → Prop} (hcuts : ∀ n, cuts n → cuts' n.world) :
    Refines (net options cuts admits) (plant options cuts') Net.world where
  program := fun _ => rfl
  awaits := fun _ => rfl
  allowed := fun _ _ _ h => h.1.1
  step := fun _ _ _ _ => rfl
  drift := fun _ _ _ h => Net.drift_world h
  drop := fun removed _ => ⟨removed, rfl⟩
  cuts := hcuts

end Projection

section Effects

/-! What the effects that the channels do not hear of leave alone. -/

/-- The evidence about an instance that is read off its channel. -/
def Process.evidence (process : Process) : Bool × Bool × Bool × List InstanceStatus :=
  (process.ready, process.terminal, process.halting, process.reads)

/-- The effects that read or write the state of an instance. -/
def Effect.testifies : Effect → Bool
  | .settle _ | .borrow _ | .publishCell _ _ | .spawn _ _ _ _ => true
  | _ => false

/-- The evidence about every instance. -/
def World.evidence (w : World) : ℕ × (ℕ → Bool × Bool × Bool × List InstanceStatus) :=
  (w.spawned, fun id => (w.processes id).evidence)

theorem World.evidence_observe {w : World} {id : ℕ} {f : Process → Process}
    (hf : ∀ p : Process, (f p).evidence = p.evidence) : (w.observe id f).evidence = w.evidence := by
  refine Prod.ext rfl (funext fun j => ?_)
  simp only [World.evidence, World.observe]
  split
  · exact hf _
  · rfl

theorem World.evidence_observeEpoch {w : World} {epoch : ℕ} {f : Process → Process}
    (hf : ∀ p : Process, (f p).evidence = p.evidence) :
    (w.observeEpoch epoch f).evidence = w.evidence := by
  refine Prod.ext rfl (funext fun j => ?_)
  simp only [World.evidence, World.observeEpoch]
  split
  · exact hf _
  · rfl

/-- Other effects leave the evidence alone. -/
theorem World.evidence_step {w : World} {effect : Effect} (h : effect.testifies = false)
    (answer : Answer effect) : (w.step effect answer).evidence = w.evidence := by
  cases effect
  case settle | borrow | publishCell | spawn => cases h
  case takeSupervisor id => exact World.evidence_observe fun _ => rfl
  case takeMonitor id => exact World.evidence_observe fun _ => rfl
  case mark point => cases point <;> rfl
  case supervisorStop id =>
    match answer with
    | some (.ok _) => exact World.evidence_observe fun _ => rfl
    | some (.error .alreadyExited) => exact World.evidence_observe fun _ => rfl
    | some (.error (.other _)) => rfl
    | none => rfl
  case joinMonitor id =>
    cases answer with
    | true => exact World.evidence_observe fun _ => rfl
    | false => rfl
  case reap epoch =>
    match answer with
    | .ok .alreadyExited => exact World.evidence_observeEpoch fun _ => rfl
    | .ok .killed => exact World.evidence_observeEpoch fun _ => rfl
    | .ok .notFound => rfl
    | .error _ => rfl
  all_goals first
    | rfl
    | (rcases answer with _ | _ <;> rfl)

/-- The record of the publications and of who could have written since. -/
structure Voice where
  publications : List Publication
  sights : ℕ → List InstanceStatus
  heard : List Forwarder
  stale : Bool
  muted : Bool
  forwarders : List Forwarder

/-- The voice of a world. -/
def World.voice (w : World) : Voice :=
  ⟨w.history.publications, w.history.sights, w.history.heard, w.history.stale, w.history.muted,
    w.forwarders⟩

/-- The effects that change the record. -/
def Effect.speaks : Effect → Bool
  | .publish _ | .spawnForwarder _ | .abortForwarder _ | .setCurrent _ | .setQuarantine _
  | .mark (.staleLeft _) => true
  | _ => false

/-- Other effects leave the record alone. -/
theorem World.voice_step {w : World} {effect : Effect} (h : effect.speaks = false)
    (answer : Answer effect) : (w.step effect answer).voice = w.voice := by
  cases effect
  case publish | spawnForwarder | abortForwarder | setCurrent | setQuarantine => cases h
  case mark point => cases point <;> first | rfl | cases h
  case spawn site spec epoch controller =>
    obtain ⟨result, artifacts⟩ := answer
    cases result <;> rfl
  case settle id =>
    match answer with
    | some (.stopped _) => rfl
    | some .starting => rfl
    | some (.running _) => rfl
    | some (.restarting _) => rfl
    | some .stopping => rfl
    | none => rfl
  case supervisorStop id =>
    match answer with
    | some (.ok _) => rfl
    | some (.error .alreadyExited) => rfl
    | some (.error (.other _)) => rfl
    | none => rfl
  case reap epoch =>
    match answer with
    | .ok .alreadyExited => rfl
    | .ok .killed => rfl
    | .ok .notFound => rfl
    | .error _ => rfl
  all_goals first
    | rfl
    | (rcases answer with _ | _ <;> rfl)

theorem World.forwarders_step {w : World} {effect : Effect} (h : effect.speaks = false)
    (answer : Answer effect) : (w.step effect answer).forwarders = w.forwarders :=
  congrArg Voice.forwarders (World.voice_step h answer)

theorem World.sights_step {w : World} {effect : Effect} (h : effect.speaks = false)
    (answer : Answer effect) : (w.step effect answer).history.sights = w.history.sights :=
  congrArg Voice.sights (World.voice_step h answer)

theorem World.publications_step {w : World} {effect : Effect} (h : effect.speaks = false)
    (answer : Answer effect) :
    (w.step effect answer).history.publications = w.history.publications :=
  congrArg Voice.publications (World.voice_step h answer)

theorem World.heard_step {w : World} {effect : Effect} (h : effect.speaks = false)
    (answer : Answer effect) : (w.step effect answer).history.heard = w.history.heard :=
  congrArg Voice.heard (World.voice_step h answer)

end Effects

end Nyanpasu.Manager
