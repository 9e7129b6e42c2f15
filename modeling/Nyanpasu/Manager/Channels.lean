import Nyanpasu.Manager.Net

/-!
# What the channels hold

Two invariants of every step of the net. What the manager has seen of an instance was held by
its state channel, and what a forwarder holds was read from it. The published status comes
from the last publication of the manager, or from a forwarder that could write since.
-/

namespace Nyanpasu.Manager

open Machine Serial

/-- What the manager has seen of an instance was held by its channel. -/
structure Evident (process : Process) (cell : Watch InstanceStatus)
    (shown : List InstanceStatus) : Prop where
  ready : process.ready = true → cell.version ≠ 0
  terminal : process.terminal = true → ∃ status ∈ shown, status.state.isTerminal = true
  reads : ∀ status ∈ process.reads, status ∈ shown
  /-- Unless a stop has written the state, the end of the instance is its last state. -/
  last : process.halting = false → ∀ status ∈ shown, status.state.isTerminal = true →
    cell.value = status

/-- The state channels of a net. -/
structure Cells (n : Net) : Prop where
  unborn : ∀ id, n.world.spawned ≤ id → (n.cells id).version = 0 ∧
    ∀ status ∈ n.shown id, status.state = .starting
  initial : ∀ id, (n.cells id).version = 0 → (n.cells id).value.state = .starting
  latest : ∀ id, (n.cells id).value ∈ n.shown id
  evident : ∀ id < n.world.spawned, Evident (n.world.processes id) (n.cells id) (n.shown id)

/-- What a forwarder has read of its channel. -/
structure Task.Ok (task : Task) (cell : Watch InstanceStatus) (shown : List InstanceStatus) :
    Prop where
  seen : task.seen ≤ cell.version
  holding : ∀ status ∈ task.holding, status ∈ shown ∧
    (task.seen = cell.version → status = cell.value)
  ended : task.ended = true → task.holding = none ∧
    ∃ status ∈ shown, status.state.isTerminal = true

/-- The forwarders of a net. -/
def Tasks (n : Net) : Prop :=
  ∀ f ∈ n.world.forwarders, (n.tasks f).Ok (n.cells f.instanceId) (n.shown f.instanceId)

/-- The state of the last publication, or one that a forwarder of its epoch could write
since. -/
def Attributed (n : Net) (p : Publication) : Prop :=
  n.status.state = p.state ∨ ∃ f ∈ n.world.history.heard, p.revision.map (·.epoch) = some f.epoch ∧
    ∃ status ∈ n.shown f.instanceId, n.status.state = instanceCoreState f.epoch status.state

/-- The published status of a net. -/
structure Status (n : Net) : Prop where
  heard : n.world.forwarders ⊆ n.world.history.heard
  initial : n.world.history.publications = [] → n.status.revision = none ∧
    n.status.state.isStopped = true
  revision : ∀ p ∈ n.world.history.publications.head?, n.status.revision = p.revision
  spec : ∀ p ∈ n.world.history.publications.head?, n.status.spec = p.spec
  controller : ∀ p ∈ n.world.history.publications.head?, n.status.controller = p.controller
  attributed : ∀ p ∈ n.world.history.publications.head?, Attributed n p

section Cells

variable {n : Net} {w : World} {id : ℕ} {status : InstanceStatus} {f : Process → Process}

/-- Other effects than those of the evidence do not matter. -/
theorem Evident.of_evidence {p p' : Process} {cell : Watch InstanceStatus}
    {shown : List InstanceStatus} (h : Evident p cell shown) (hp : p'.evidence = p.evidence) :
    Evident p' cell shown := by
  simp only [Process.evidence, Prod.mk.injEq] at hp
  obtain ⟨hready, hterminal, hhalting, hreads⟩ := hp
  exact ⟨hready ▸ h.ready, hterminal ▸ h.terminal, hreads ▸ h.reads, hhalting ▸ h.last⟩

theorem Cells.of_evidence {n' : Net} (h : Cells n)
    (hworld : n'.world.evidence = n.world.evidence) (hcells : n'.cells = n.cells)
    (hshown : n'.shown = n.shown) : Cells n' := by
  obtain ⟨hspawned, hprocesses⟩ := Prod.ext_iff.mp hworld
  have hspawned : n'.world.spawned = n.world.spawned := hspawned
  refine ⟨?_, ?_, ?_, fun id hid => ?_⟩
  · rw [hspawned, hcells, hshown]
    exact h.unborn
  · rw [hcells]
    exact h.initial
  · rw [hcells, hshown]
    exact h.latest
  · rw [hcells, hshown]
    exact (h.evident id (hspawned ▸ hid)).of_evidence (congrFun hprocesses id)

/-- One process is seen. -/
theorem Cells.observe (h : Cells n)
    (hf : id < n.world.spawned → Evident (f (n.world.processes id)) (n.cells id) (n.shown id)) :
    Cells { n with world := n.world.observe id f } := by
  refine ⟨h.unborn, h.initial, h.latest, fun j hj => ?_⟩
  by_cases heq : j = id
  · subst heq
    simpa [World.observe] using hf hj
  · simpa [World.observe, heq] using h.evident j hj

/-- A channel gets a value: before the end of the instance, or from a stop. -/
theorem Cells.send (h : Cells n) (hid : id < n.world.spawned)
    (hlast : (n.world.processes id).halting = true ∨
      (n.cells id).value.state.isTerminal = false) : Cells (n.send id status) := by
  refine ⟨fun j hj => ?_, fun j => ?_, fun j => ?_, fun j hj => ?_⟩ <;>
    by_cases heq : j = id
  · subst heq
    exact absurd hid (Nat.not_lt.mpr hj)
  · simpa [Net.send, heq] using h.unborn j hj
  · simp [Net.send, heq, Watch.send]
  · simpa [Net.send, heq] using h.initial j
  · simp [Net.send, heq, Watch.send]
  · simpa [Net.send, heq] using h.latest j
  · subst heq
    have hevident := h.evident j hj
    simp only [Net.send, if_true]
    refine ⟨fun _ => Nat.succ_ne_zero _, fun hterminal => ?_, fun read hread => ?_, ?_⟩
    · obtain ⟨old, hold, hend⟩ := hevident.terminal hterminal
      exact ⟨old, List.mem_cons_of_mem _ hold, hend⟩
    · exact List.mem_cons_of_mem _ (hevident.reads read hread)
    · intro hhalting old hold hend
      rcases List.mem_cons.mp hold with rfl | hold
      · rfl
      · have hvalue := hevident.last hhalting old hold hend
        rcases hlast with hlast | hlast
        · simp [hhalting] at hlast
        · simp [hvalue, hend] at hlast
  · simpa [Net.send, heq] using h.evident j hj

/-- A new process has an unwritten channel. -/
theorem Cells.spawned (h : Cells n) (hspawned : w.spawned = n.world.spawned + 1)
    (hfresh : ∃ epoch, w.processes n.world.spawned = .fresh epoch)
    (hothers : ∀ id, id ≠ n.world.spawned → w.processes id = n.world.processes id) :
    Cells { n with world := w } := by
  refine ⟨fun id hid => ?_, h.initial, h.latest, fun id hid => ?_⟩
  · have hid : w.spawned ≤ id := hid
    exact h.unborn id (by omega)
  · by_cases heq : id = n.world.spawned
    · obtain ⟨epoch, hepoch⟩ := hfresh
      obtain ⟨-, hshown⟩ := h.unborn id heq.ge
      rw [heq] at hshown ⊢
      rw [hepoch]
      refine ⟨nofun, nofun, nofun, fun _ status hmem hend => ?_⟩
      rw [hshown status hmem] at hend
      cases hend
    · have hid : id < w.spawned := hid
      rw [hothers id heq]
      exact h.evident id (by omega)

/-- Every step keeps the state channels. -/
theorem Cells.step (h : Cells n) {effect : Effect} {answer : Answer effect}
    (hworld : n.world.allowed effect answer) (hallowed : n.allowed effect answer) :
    Cells (n.step effect answer) := by
  cases effect
  case settle id =>
    have hinitial := h.initial id
    have hlatest := h.latest id
    obtain _ | state := answer
    · exact h
    · have hvalue : (n.cells id).value.state = state := hallowed state rfl
      cases state with
      | stopped reason =>
        refine h.observe (f := fun process => { process with terminal := true }) fun hid => ?_
        exact { h.evident id hid with terminal := fun _ => ⟨_, hlatest, by rw [hvalue]; rfl⟩ }
      | _ =>
        refine h.observe (f := fun process => { process with ready := true }) fun hid => ?_
        refine { h.evident id hid with ready := fun _ hzero => ?_ }
        have hstarting := hvalue.symm.trans (hinitial hzero)
        cases hworld _ rfl <;> simp_all [InstanceState.isTerminal, InstanceState.pid]
  case borrow id =>
    obtain rfl : answer = (n.cells id).value := hallowed
    refine h.observe (f := fun process => { process with
      terminal := process.terminal || (n.cells id).value.state.isTerminal
      reads := (n.cells id).value :: process.reads }) fun hid => ?_
    have hevident := h.evident id hid
    refine { hevident with terminal := fun hend => ?_, reads := fun status hmem => ?_ }
    · rcases Bool.or_eq_true_iff.mp hend with hend | hend
      · exact hevident.terminal hend
      · exact ⟨_, h.latest id, hend⟩
    · rcases List.mem_cons.mp hmem with rfl | hmem
      · exact h.latest id
      · exact hevident.reads status hmem
  case publishCell id state =>
    have hhalted : Cells { n with world := n.world.step (.publishCell id state) () } :=
      h.observe (f := fun process => { process with halting := true }) fun hid =>
        { h.evident id hid with last := by rintro ⟨⟩ }
    change Cells { n.publishCell id state with world := n.world.step (.publishCell id state) () }
    unfold Net.publishCell
    split
    · rename_i hid
      exact hhalted.send hid (Or.inl (by simp [World.step, World.observe]))
    · exact hhalted
  case spawn site spec epoch controller =>
    obtain ⟨result, artifacts⟩ := answer
    cases result with
    | error error => exact h.of_evidence rfl rfl rfl
    | ok id =>
      obtain rfl : id = n.world.spawned := hworld.1 id rfl
      exact h.spawned rfl ⟨epoch, by simp [World.step]⟩ fun j hj => by simp [World.step, hj]
  all_goals exact h.of_evidence (World.evidence_step rfl answer) rfl rfl

end Cells

section Tasks

variable {n n' : Net} {task : Task} {cell : Watch InstanceStatus} {shown : List InstanceStatus}
  {id : ℕ} {status : InstanceStatus} {f : Forwarder}

/-- What a forwarder has read stays read. -/
theorem Task.Ok.send (h : task.Ok cell shown) (status : InstanceStatus) :
    task.Ok (cell.send status) (status :: shown) := by
  refine ⟨h.seen.trans (Nat.le_succ _), fun held hheld => ⟨?_, fun hseen => ?_⟩, fun hended => ?_⟩
  · exact List.mem_cons_of_mem _ (h.holding held hheld).1
  · have hle := h.seen
    have hseen : task.seen = cell.version + 1 := hseen
    omega
  · obtain ⟨hnone, last, hlast, hterminal⟩ := h.ended hended
    exact ⟨hnone, last, List.mem_cons_of_mem _ hlast, hterminal⟩

theorem Tasks.send (h : Tasks n) : Tasks (n.send id status) := by
  intro f hf
  by_cases heq : f.instanceId = id
  · simpa [Net.send, heq] using (h f hf).send status
  · simpa [Net.send, heq] using h f hf

@[simp] theorem Net.publishCell_world {state : InstanceState} :
    (n.publishCell id state).world = n.world := by
  unfold Net.publishCell
  split <;> rfl

theorem Tasks.publishCell (h : Tasks n) (id : ℕ) (state : InstanceState) :
    Tasks (n.publishCell id state) := by
  unfold Net.publishCell
  split
  · exact h.send
  · exact h

/-- Fewer forwarders have read what they have read. -/
theorem Tasks.congr (h : Tasks n) (hforwarders : n'.world.forwarders ⊆ n.world.forwarders)
    (htasks : n'.tasks = n.tasks) (hcells : n'.cells = n.cells) (hshown : n'.shown = n.shown) :
    Tasks n' := by
  intro f hf
  rw [htasks, hcells, hshown]
  exact h f (hforwarders hf)

/-- One forwarder moves on. -/
theorem Tasks.setTask (h : ∀ g ∈ n.world.forwarders, g ≠ f →
      (n.tasks g).Ok (n.cells g.instanceId) (n.shown g.instanceId))
    (hf : task.Ok (n.cells f.instanceId) (n.shown f.instanceId)) : Tasks (n.setTask f task) := by
  intro g hg
  by_cases heq : g = f
  · subst heq
    simpa [Net.setTask] using hf
  · simpa [Net.setTask, heq] using h g hg heq

/-- Every step keeps the forwarders. -/
theorem Tasks.step (h : Tasks n) (effect : Effect) (answer : Answer effect) :
    Tasks (n.step effect answer) := by
  cases hspeaks : effect.speaks with
  | false =>
    have hforwarders : (n.world.step effect answer).forwarders ⊆ n.world.forwarders :=
      fun _ hf => World.forwarders_step hspeaks answer ▸ hf
    cases effect
    case publishCell id state =>
      refine (h.publishCell id state).congr ?_ rfl rfl rfl
      rw [Net.publishCell_world]
      exact hforwarders
    case publish | spawnForwarder => cases hspeaks
    all_goals exact h.congr hforwarders rfl rfl rfl
  | true =>
    cases effect
    case spawnForwarder f =>
      have hfresh : Task.Ok ⟨0, none, false⟩ (n.cells f.instanceId) (n.shown f.instanceId) :=
        ⟨Nat.zero_le _, fun _ hnone => (nomatch hnone), fun hended => nomatch hended⟩
      refine Tasks.setTask (n := { n with world := n.world.step (.spawnForwarder f) () })
        (f := f) (fun g hg hne => ?_) hfresh
      have hg : g ∈ n.world.forwarders ++ [f] := hg
      simp only [List.mem_append, List.mem_singleton, hne, or_false] at hg
      exact h g hg
    case abortForwarder f => exact h.congr List.erase_subset rfl rfl rfl
    case publish | setCurrent | setQuarantine => exact h.congr (List.Subset.refl _) rfl rfl rfl
    case mark point =>
      cases point <;> exact h.congr (List.Subset.refl _) rfl rfl rfl
    all_goals cases hspeaks

end Tasks

section Status

variable {n n' : Net} {id : ℕ} {status : InstanceStatus} {f : Forwarder}

theorem Net.shown_send (j : ℕ) : n.shown j ⊆ (n.send id status).shown j := by
  by_cases heq : j = id <;> simp [Net.send, heq]

@[simp] theorem Net.publishCell_status {state : InstanceState} :
    (n.publishCell id state).status = n.status := by
  unfold Net.publishCell
  split <;> rfl

theorem Net.shown_publishCell {state : InstanceState} (j : ℕ) :
    n.shown j ⊆ (n.publishCell id state).shown j := by
  unfold Net.publishCell
  split
  · exact Net.shown_send j
  · exact List.Subset.refl _

/-- The status stands while nothing is published. -/
theorem Status.congr (h : Status n) (hstatus : n'.status = n.status)
    (hpublications : n'.world.history.publications = n.world.history.publications)
    (hheard : n.world.history.heard ⊆ n'.world.history.heard)
    (hforwarders : n'.world.forwarders ⊆ n'.world.history.heard)
    (hshown : ∀ id, n.shown id ⊆ n'.shown id) : Status n' := by
  refine ⟨hforwarders, ?_, ?_, ?_, ?_, ?_⟩
  · rw [hpublications, hstatus]
    exact h.initial
  · rw [hpublications, hstatus]
    exact h.revision
  · rw [hpublications, hstatus]
    exact h.spec
  · rw [hpublications, hstatus]
    exact h.controller
  · intro p hp
    rw [hpublications] at hp
    rcases h.attributed p hp with hstate | ⟨f, hf, hepoch, status, hmem, hstate⟩
    · exact Or.inl (hstatus ▸ hstate)
    · exact Or.inr ⟨f, hheard hf, hepoch, status, hshown _ hmem, hstatus ▸ hstate⟩

/-- Every step keeps the status attributed. -/
theorem Status.step (h : Status n) (effect : Effect) (answer : Answer effect) :
    Status (n.step effect answer) := by
  cases hspeaks : effect.speaks with
  | false =>
    have hpublications : (n.world.step effect answer).history.publications =
        n.world.history.publications :=
      congrArg Voice.publications (World.voice_step hspeaks answer)
    have hheard := World.heard_step (w := n.world) hspeaks answer
    have hkept : n.world.history.heard ⊆ (n.world.step effect answer).history.heard :=
      fun _ hf => hheard ▸ hf
    have hsub : (n.world.step effect answer).forwarders ⊆
        (n.world.step effect answer).history.heard := by
      rw [hheard, World.forwarders_step hspeaks]
      exact h.heard
    cases effect
    case publishCell id state =>
      exact h.congr Net.publishCell_status hpublications hkept hsub Net.shown_publishCell
    case publish | spawnForwarder => cases hspeaks
    all_goals exact h.congr rfl hpublications hkept hsub fun _ => List.Subset.refl _
  | true =>
    cases effect
    case publish p =>
      refine ⟨List.Subset.refl _, nofun, ?_, ?_, ?_, ?_⟩ <;>
        · rintro _ ⟨⟩
          first | rfl | exact Or.inl rfl
    case spawnForwarder f =>
      refine h.congr rfl rfl (List.subset_append_left _ _) ?_ fun _ => List.Subset.refl _
      exact List.append_subset.mpr ⟨List.subset_append_of_subset_left _ h.heard,
        List.subset_append_right _ _⟩
    case abortForwarder f =>
      exact h.congr rfl rfl (List.Subset.refl _) (List.Subset.trans List.erase_subset h.heard)
        fun _ => List.Subset.refl _
    case setCurrent | setQuarantine =>
      exact h.congr rfl rfl (List.Subset.refl _) h.heard fun _ => List.Subset.refl _
    case mark point =>
      cases point <;>
        exact h.congr rfl rfl (List.Subset.refl _) h.heard fun _ => List.Subset.refl _
    all_goals cases hspeaks

/-- A delivery writes the status alone. -/
theorem Net.delivered_eq (n : Net) (f : Forwarder) (status : InstanceStatus) (now : ℤ) :
    ∃ published,
    (published = n.published ∨
      published = applyEpochStatus now n.status f.epoch status :: n.published) ∧
    n.delivered f now status =
      { n with status := applyEpochStatus now n.status f.epoch status, published } := by
  simp only [Net.delivered]
  split
  · rename_i heq
    exact ⟨n.published, Or.inl rfl, by rw [heq]⟩
  · exact ⟨_, Or.inr rfl, rfl⟩

/-- A delivery keeps the status attributed. -/
theorem Status.deliver (h : Status n) (now : ℤ) (published : List CoreStatus)
    (hf : f ∈ n.world.forwarders) (hmem : status ∈ n.shown f.instanceId) :
    Status { n with status := applyEpochStatus now n.status f.epoch status, published } := by
  by_cases hepoch : n.status.revision.map (·.epoch) = some f.epoch
  · refine ⟨h.heard, fun hnone => ?_, fun p hp => ?_, fun p hp => ?_, fun p hp => ?_,
      fun p hp => Or.inr ⟨f, h.heard hf, ?_, status, hmem, ?_⟩⟩
    · simp [(h.initial hnone).1] at hepoch
    · exact (applyEpochStatus_revision _ _ _ _).trans (h.revision p hp)
    · simpa [applyEpochStatus, hepoch] using h.spec p hp
    · simpa [applyEpochStatus, hepoch] using h.controller p hp
    · rw [← h.revision p hp, hepoch]
    · exact (applyEpochStatus_of_epoch status hepoch).1
  · exact h.congr (applyEpochStatus_of_ne status hepoch) rfl (List.Subset.refl _) h.heard
      fun _ => List.Subset.refl _

end Status

/-- The channels of a net with what the manager knows of them. -/
structure Linked (n : Net) : Prop where
  cells : Cells n
  tasks : Tasks n
  status : Status n

section Linked

variable {n n' : Net}

theorem Linked.step (h : Linked n) {effect : Effect} {answer : Answer effect}
    (hworld : n.world.allowed effect answer) (hallowed : n.allowed effect answer) :
    Linked (n.step effect answer) :=
  ⟨h.cells.step hworld hallowed, h.tasks.step effect answer, h.status.step effect answer⟩

/-- Nothing that happens beside the operations breaks the links. -/
theorem Linked.drift (h : Linked n) {d : Net.Drift} (hd : n.drift d = some n') : Linked n' := by
  cases d with
  | transition id status =>
    obtain ⟨⟨hid, hlive⟩, heq⟩ := Option.ite_none_right_eq_some.mp hd
    obtain rfl := Option.some.inj heq
    exact ⟨h.cells.send hid (Or.inr hlive), h.tasks.send,
      h.status.congr rfl rfl (List.Subset.refl _) h.status.heard Net.shown_send⟩
  | read f =>
    obtain ⟨⟨hf, -, -, -⟩, heq⟩ := Option.ite_none_right_eq_some.mp hd
    obtain rfl := Option.some.inj heq
    refine ⟨h.cells.of_evidence rfl rfl rfl, Tasks.setTask (fun g hg _ => h.tasks g hg) ?_,
      h.status.congr rfl rfl (List.Subset.refl _) h.status.heard fun _ => List.Subset.refl _⟩
    refine ⟨le_refl _, fun status hstatus => ?_, by rintro ⟨⟩⟩
    obtain rfl := Option.some.inj hstatus
    exact ⟨h.cells.latest _, fun _ => rfl⟩
  | deliver f now =>
    simp only [Net.drift] at hd
    split at hd
    · rename_i status hholding
      obtain ⟨hf, heq⟩ := Option.ite_none_right_eq_some.mp hd
      obtain rfl := Option.some.inj heq
      have htask := h.tasks f hf
      obtain ⟨hmem, -⟩ := htask.holding status hholding
      obtain ⟨published, -, heq⟩ := n.delivered_eq f status now
      have hstatus := h.status.deliver now published hf hmem
      rw [heq]
      refine ⟨h.cells.of_evidence rfl rfl rfl, Tasks.setTask (fun g hg _ => h.tasks g hg) ?_,
        hstatus.congr rfl rfl (List.Subset.refl _) hstatus.heard fun _ => List.Subset.refl _⟩
      exact ⟨htask.seen, by rintro _ ⟨⟩, fun hended => ⟨rfl, status, hmem, hended⟩⟩
    · cases hd

theorem Linked.drop (h : Linked n) (removed : List Artifact) : Linked (n.drop removed) :=
  ⟨h.cells.of_evidence rfl rfl rfl, h.tasks.congr (List.Subset.refl _) rfl rfl rfl,
    h.status.congr rfl rfl (List.Subset.refl _) h.status.heard fun _ => List.Subset.refl _⟩

/-- The channels of a manager that was just built. -/
theorem NetBuilt.linked {options : Options} (h : NetBuilt options n) : Linked n := by
  have hspawned := h.world.spawned
  have hforwarders := h.world.forwarders
  obtain ⟨found, hhistory⟩ := h.world.history
  obtain ⟨now, hstatus⟩ := h.status
  refine ⟨⟨fun id _ => ⟨(h.cells id).1, fun status hmem => ?_⟩, fun id _ => (h.cells id).2,
    fun id => ?_, fun id hid => ?_⟩, fun f hf => ?_, ?_, fun _ => ?_, ?_, ?_, ?_, ?_⟩
  · rw [h.shown id, List.mem_singleton] at hmem
    rw [hmem, (h.cells id).2]
  · rw [h.shown id]
    exact List.mem_singleton_self _
  · simp [hspawned] at hid
  · simp [hforwarders] at hf
  · simp [hforwarders]
  · rw [hstatus]
    exact ⟨rfl, rfl⟩
  all_goals simp [hhistory]

end Linked

end Nyanpasu.Manager
