import Nyanpasu.Manager.Agreement

/-!
# Publications that overtake a forwarder

The manager reads the state and the health of an instance before it publishes them, and the
forwarder of the instance may deliver a newer state in between. The last writer wins. The
status of an instance whose forwarder has delivered everything is the instance's own, in
every run in which the instance does not move between the reads and the publication.
-/

namespace Nyanpasu.Manager

open Config Machine Serial

/-- The last two reads of an instance found what it still is. -/
def Net.Unmoved (n : Net) (id : ℕ) (reads : List InstanceStatus) : Prop :=
  reads.take 2 = [(n.cells id).value, (n.cells id).value]

/-- Whether a publication that reads the held instance comes in time: unless the forwarder
has an update to deliver, the instance has not moved since it was read, and it has a pid when
it is said to run. -/
def Net.Upholds (n : Net) : Effect → Prop
  | .publish p => p.health ≠ .ofState → ∀ f ∈ n.world.forwarders,
      p.revision.map (·.epoch) = some f.epoch → n.Idle f →
      n.Unmoved f.instanceId (n.world.processes f.instanceId).reads ∧
        (p.state.isRunning = true → (n.cells f.instanceId).value.state.pid.isSome = true)
  | _ => True

/-- The steps that come in time and quarantine no epoch beside the held instance. -/
def timely : Condition := fun n effect _ => n.hushes effect = false ∧ n.Upholds effect

/-- The published status is the one of an instance. -/
structure Net.Shows (n : Net) (id epoch : ℕ) : Prop where
  state : n.status.state = instanceCoreState epoch (n.cells id).value.state
  health : n.status.health = (n.cells id).value.health

/-- The published status is the one of the held instance, once its forwarder has delivered
every update. -/
def Net.Mirrors (n : Net) : Prop := ∀ active, n.world.ctrl.current = some active →
  n.Idle active.forwarder → n.Shows active.handle.id active.handle.epoch

/-- The last publication stands, and the instance has not moved since it was read for it. -/
def Net.Stands (n : Net) (id : ℕ) : Prop :=
  ∃ p, n.world.history.publications.head? = some p ∧ n.status.state = p.state ∧
    ∀ health, p.health = .exactly health → n.status.health = health ∧
      n.Unmoved id (n.world.history.sights id) ∧
        (p.state.isRunning = true → (n.cells id).value.state.pid.isSome = true)

/-- Without an update to deliver the status shows the instance, or the last publication
stands, as long as the forwarder is the only writer since and no stop writes the state of its
instance. -/
def Delivered (n : Net) : Prop := ∀ f, n.world.history.heard = [f] → f ∈ n.world.forwarders →
  f.instanceId < n.world.spawned → (n.world.processes f.instanceId).halting = false →
  (n.cells f.instanceId).version ≠ 0 → n.status.revision.map (·.epoch) = some f.epoch →
  n.Idle f → n.Shows f.instanceId f.epoch ∨ n.Stands f.instanceId

section Delivered

variable {n n' : Net}

theorem Net.Shows.congr {id epoch : ℕ} (h : n.Shows id epoch) (hcells : n'.cells id = n.cells id)
    (hstatus : n'.status = n.status) : n'.Shows id epoch :=
  ⟨by rw [hstatus, hcells, h.state], by rw [hstatus, hcells, h.health]⟩

theorem Net.Stands.congr {id : ℕ} (h : n.Stands id)
    (hpublications : n'.world.history.publications = n.world.history.publications)
    (hsights : n'.world.history.sights = n.world.history.sights)
    (hcells : n'.cells id = n.cells id) (hstatus : n'.status = n.status) : n'.Stands id := by
  unfold Net.Stands Net.Unmoved
  rw [hpublications, hsights, hcells, hstatus]
  exact h

theorem Delivered.congr (h : Delivered n) (hheard : n'.world.history.heard = n.world.history.heard)
    (hpublications : n'.world.history.publications = n.world.history.publications)
    (hsights : n'.world.history.sights = n.world.history.sights)
    (hforwarders : n'.world.forwarders ⊆ n.world.forwarders)
    (hspawned : n'.world.spawned = n.world.spawned)
    (hhalting : ∀ id, (n'.world.processes id).halting = (n.world.processes id).halting)
    (hcells : n'.cells = n.cells) (htasks : n'.tasks = n.tasks) (hstatus : n'.status = n.status) :
    Delivered n' := by
  unfold Delivered Net.Idle
  rw [hheard, hspawned, hcells, htasks, hstatus]
  intro f hone hf hid hhalt hversion hepoch hidle
  refine (h f hone (hforwarders hf) hid (hhalting _ ▸ hhalt) hversion hepoch hidle).imp ?_ ?_
  · exact fun hshows => hshows.congr (congrFun hcells _) hstatus
  · exact fun hstands => hstands.congr hpublications hsights (congrFun hcells _) hstatus

/-- The effects outside of the evidence and of the record. -/
theorem Delivered.unseen (h : Delivered n) {effect : Effect} {answer : Answer effect}
    (htestifies : effect.testifies = false)
    (hheard : (n.world.step effect answer).history.heard = n.world.history.heard)
    (hpublications :
      (n.world.step effect answer).history.publications = n.world.history.publications)
    (hsights : (n.world.step effect answer).history.sights = n.world.history.sights)
    (hforwarders : (n.world.step effect answer).forwarders ⊆ n.world.forwarders)
    (hcells : (n.react effect answer).cells = n.cells)
    (htasks : (n.react effect answer).tasks = n.tasks)
    (hstatus : (n.react effect answer).status = n.status) : Delivered (n.step effect answer) := by
  obtain ⟨hspawned, hprocesses⟩ :=
    Prod.ext_iff.mp (World.evidence_step (w := n.world) htestifies answer)
  refine h.congr hheard hpublications hsights hforwarders hspawned (fun id => ?_) hcells htasks
    hstatus
  exact congrArg (·.2.2.1) (congrFun hprocesses id)

/-- Timely steps keep what was delivered. -/
theorem Delivered.step (h : Delivered n) (hlinked : Linked n) {effect : Effect}
    {answer : Answer effect} (hworld : n.world.allowed effect answer)
    (htimely : timely n effect answer) : Delivered (n.step effect answer) := by
  cases effect
  case publish p =>
    intro f hone hf _ _ _ hepoch hidle
    refine Or.inr ⟨p, rfl, rfl, fun health hhealth => ?_⟩
    obtain ⟨hunmoved, hrunning⟩ := htimely.2 (by simp [hhealth]) f hf hepoch hidle
    refine ⟨?_, hunmoved, hrunning⟩
    simp [Net.step, Net.react, Net.write, CoreStatus.publish, hhealth]
  case spawnForwarder g =>
    intro f hone _ _ _ hversion _ hidle
    have hone : n.world.history.heard ++ [g] = [f] := hone
    obtain ⟨-, rfl⟩ : n.world.history.heard = [] ∧ g = f := by
      simpa [List.append_eq_singleton_iff] using hone
    simp only [Net.Idle, Net.step, Net.react, Net.setTask, if_true, Bool.false_eq_true,
      false_or] at hidle
    exact absurd hidle.2.symm hversion
  case abortForwarder g =>
    exact h.unseen rfl rfl rfl rfl List.erase_subset rfl rfl rfl
  case publishCell id state =>
    intro f hone hf hid hhalting hversion hepoch hidle
    have hne : f.instanceId ≠ id := by
      rintro rfl
      simp [Net.step, World.step, World.observe] at hhalting
    have hcell : (n.publishCell id state).cells f.instanceId = n.cells f.instanceId := by
      unfold Net.publishCell
      split <;> simp [Net.send, hne]
    have htasks : (n.publishCell id state).tasks = n.tasks := by
      unfold Net.publishCell
      split <;> rfl
    have hstatus : (n.publishCell id state).status = n.status := Net.publishCell_status
    simp only [Net.Idle, Net.step, Net.react, htasks, hcell, hstatus] at hversion hepoch hidle
    have hhalting : (n.world.processes f.instanceId).halting = false := by
      simpa [Net.step, World.step, World.observe, hne] using hhalting
    refine (h f hone hf hid hhalting hversion hepoch hidle).imp ?_ ?_
    · exact fun hshows => hshows.congr hcell hstatus
    · exact fun hstands => hstands.congr rfl rfl hcell hstatus
  case spawn site spec epoch controller =>
    obtain ⟨result, artifacts⟩ := answer
    cases result with
    | error error => exact h.congr rfl rfl rfl (List.Subset.refl _) rfl (fun _ => rfl) rfl rfl rfl
    | ok id =>
      obtain rfl : id = n.world.spawned := hworld.1 id rfl
      intro f hone hf hid hhalting hversion hepoch hidle
      have hid : f.instanceId < n.world.spawned + 1 := hid
      have hne : f.instanceId ≠ n.world.spawned := fun heq =>
        hversion (hlinked.cells.unborn f.instanceId heq.ge).1
      have hhalting : (n.world.processes f.instanceId).halting = false := by
        simpa [Net.step, World.step, hne] using hhalting
      refine (h f hone hf (by omega) hhalting hversion hepoch hidle).imp ?_ ?_
      · exact fun hshows => hshows.congr rfl rfl
      · exact fun hstands => hstands.congr rfl rfl rfl rfl
  case settle id =>
    obtain _ | state := answer
    · exact h
    · cases state <;>
        · refine h.congr rfl rfl rfl (List.Subset.refl _) rfl (fun j => ?_) rfl rfl rfl
          simp only [Net.step, World.step, World.observe]
          split <;> rfl
  case borrow id =>
    refine h.congr rfl rfl rfl (List.Subset.refl _) rfl (fun j => ?_) rfl rfl rfl
    simp only [Net.step, World.step, World.observe]
    split <;> rfl
  case setCurrent | setQuarantine =>
    exact h.unseen rfl rfl rfl rfl (List.Subset.refl _) rfl rfl rfl
  case mark point =>
    cases point <;> exact h.unseen rfl rfl rfl rfl (List.Subset.refl _) rfl rfl rfl
  all_goals
    exact h.unseen rfl (World.heard_step rfl answer) (World.publications_step rfl answer)
      (World.sights_step rfl answer) (fun _ hf => World.forwarders_step rfl answer ▸ hf) rfl rfl rfl

/-- What happens beside the operations keeps what was delivered. -/
theorem Delivered.drift (h : Delivered n) (hlinked : Linked n) {d : Net.Drift}
    (hd : n.drift d = some n') : Delivered n' := by
  -- Every forwarder that could act is the only one that was heard.
  have honly : ∀ {f g}, n.world.history.heard = [f] → g ∈ n.world.forwarders → g = f := by
    intro f g hone hg
    simpa [hone] using hlinked.status.heard hg
  cases d with
  | transition id status =>
    obtain ⟨⟨hid, hlive⟩, heq⟩ := Option.ite_none_right_eq_some.mp hd
    obtain rfl := Option.some.inj heq
    intro f hone hf hspawned hhalting hversion hepoch hidle
    by_cases hmine : f.instanceId = id
    · subst hmine
      have htask := hlinked.tasks f hf
      simp only [Net.Idle, Net.send, if_true, Watch.send] at hidle
      rcases hidle with hended | ⟨-, hseen⟩
      · obtain ⟨-, last, hlast, hend⟩ := htask.ended hended
        rw [(hlinked.cells.evident _ hid).last hhalting last hlast hend, hend] at hlive
        cases hlive
      · have hle := htask.seen
        omega
    · have hcell : (n.send id status).cells f.instanceId = n.cells f.instanceId := by
        simp [Net.send, hmine]
      simp only [Net.Idle, Net.send, hmine, if_false] at hversion hepoch hidle
      refine (h f hone hf hspawned hhalting hversion hepoch hidle).imp ?_ ?_
      · exact fun hshows => hshows.congr hcell rfl
      · exact fun hstands => hstands.congr rfl rfl hcell rfl
  | read g =>
    obtain ⟨⟨hg, -, -, -⟩, heq⟩ := Option.ite_none_right_eq_some.mp hd
    obtain rfl := Option.some.inj heq
    intro f hone hf hspawned hhalting hversion hepoch hidle
    obtain rfl := honly hone hg
    simp [Net.Idle, Net.setTask] at hidle
  | deliver g now =>
    simp only [Net.drift] at hd
    split at hd
    · rename_i status hholding
      obtain ⟨hg, heq⟩ := Option.ite_none_right_eq_some.mp hd
      obtain rfl := Option.some.inj heq
      obtain ⟨published, -, heq⟩ := n.delivered_eq g status now
      rw [heq]
      intro f hone hf hspawned hhalting hversion hepoch hidle
      obtain rfl := honly hone hg
      have htask := hlinked.tasks g hg
      obtain ⟨hmem, hlatest⟩ := htask.holding status hholding
      have hvalue : status = (n.cells g.instanceId).value := by
        simp only [Net.Idle, Net.setTask, if_true] at hidle
        rcases hidle with hend | ⟨-, hseen⟩
        · exact ((hlinked.cells.evident _ hspawned).last hhalting status hmem hend).symm
        · exact hlatest hseen
      have hrevision : n.status.revision.map (·.epoch) = some g.epoch := by
        simpa [Net.setTask] using hepoch
      obtain ⟨hstate, hhealth⟩ :
          (applyEpochStatus now n.status g.epoch status).state =
            instanceCoreState g.epoch status.state ∧
          (applyEpochStatus now n.status g.epoch status).health = status.health :=
        applyEpochStatus_of_epoch status hrevision
      exact Or.inl ⟨hstate.trans (congrArg (fun s => instanceCoreState g.epoch s.state) hvalue),
        hhealth.trans (congrArg InstanceStatus.health hvalue)⟩
    · cases hd

end Delivered

section Forwarding

variable {options : Options} {c : Config Effect Answer Net Request (Except Error Outcome)}

theorem NetRun.delivered (h : NetRun options timely c) :
    Delivered c.state ∧ c.state.world.history.muted = false := by
  have hall : Linked c.state ∧ Delivered c.state ∧ c.state.world.history.muted = false :=
    Reach.always (P := net options (fun _ => False) timely)
      (J := fun n => Linked n ∧ Delivered n ∧ n.world.history.muted = false)
      (fun n hbuilt => ⟨hbuilt.linked, fun f hone => ?_, hbuilt.unmuted⟩)
      (fun _ _ _ hJ hallowed => ⟨hJ.1.step hallowed.1.1 hallowed.1.2,
        hJ.2.1.step hJ.1 hallowed.1.1 hallowed.2, Net.unmuted_step hJ.2.2 hallowed.2.1⟩)
      (fun _ _ _ hJ hd => ⟨hJ.1.drift hd, hJ.2.1.drift hJ.1 hd, ?_⟩) (fun _ _ hcut => hcut.elim) h
  · exact hall.2
  · obtain ⟨found, hhistory⟩ := hbuilt.world.history
    simp [hhistory] at hone
  · rw [Net.drift_world hd]
    exact hJ.2.2

/-- A publication that stands and was made from the last two reads shows the instance. -/
theorem Net.Stands.shows {n : Net} {id epoch : ℕ} {p : Publication} (h : n.Stands id)
    (hp : n.world.history.publications.head? = some p)
    (hsighted : Sighted (n.world.history.sights id) epoch p) : n.Shows id epoch := by
  obtain ⟨q, hq, hstate, hstands⟩ := h
  obtain rfl : p = q := Option.some.inj (hp.symm.trans hq)
  obtain ⟨first, second, rest, hreads, hhealth, hshown⟩ := hsighted
  obtain ⟨hpublished, hunmoved, hrunning⟩ := hstands _ hhealth
  rw [Net.Unmoved, hreads] at hunmoved
  simp only [List.take_succ_cons, List.take_zero, List.cons.injEq, and_true] at hunmoved
  obtain ⟨rfl, rfl⟩ := hunmoved
  refine ⟨hstate.trans ?_, hpublished⟩
  rcases hshown with hshown | hshown
  · exact hshown
  · obtain ⟨pid, hpid⟩ := Option.isSome_iff_exists.mp (hrunning (by rw [hshown]; rfl))
    rw [hshown, hpid]
    cases hvalue : (n.cells id).value.state <;> simp_all [InstanceState.pid, instanceCoreState]

/-- In every run of timely steps the published status is the one of the held instance,
whenever the control lock is free and every update is delivered. -/
theorem status_mirrors (h : NetRun options timely c) (hfree : c.active = none) :
    c.state.Mirrors := by
  intro active hcurrent hidle
  have hlinked := h.linked
  have hsettled := h.settled hfree
  obtain ⟨hdelivered, hmuted⟩ := h.delivered
  have hheld : Held c.state.world active.handle :=
    hsettled.inv.custody.held _ (by simp [World.held, hcurrent])
  have hok := hsettled.inv.chronicle.current active hcurrent
  have hspoken := (hsettled.spoken active hcurrent).resolve_left (by simp [hmuted])
  obtain ⟨p, hp, habout, hsighted, -⟩ := hspoken.published
  have hforwarder := hok.forwarder
  have hshown := hdelivered active.forwarder hspoken.heard
    (by simp [hsettled.tasks, hcurrent]) (by rw [hforwarder]; exact hheld.spawned)
    (by rw [hforwarder]; exact congrArg (·.2.2) hheld.slots)
    (by rw [hforwarder]; exact (hlinked.cells.evident _ hheld.spawned).ready hok.ready)
    (by rw [hlinked.status.revision p hp, habout.revision, hforwarder, ← hok.epoch]; rfl) hidle
  rw [hforwarder] at hshown
  rw [hok.epoch] at hsighted
  exact hshown.elim id fun hstands => hstands.shows hp hsighted

instance (n : Net) (id : ℕ) (reads : List InstanceStatus) : Decidable (n.Unmoved id reads) :=
  inferInstanceAs (Decidable (_ = _))

instance (n : Net) (effect : Effect) : Decidable (n.Upholds effect) := by
  apply @Effect.casesOn (fun effect => Decidable (n.Upholds effect)) effect <;> intros <;>
    dsimp only [Net.Upholds] <;> infer_instance

instance (n : Net) (effect : Effect) (answer : Answer effect) :
    Decidable (timely n effect answer) := inferInstanceAs (Decidable (_ = false ∧ _))

/-- The status after a start and an apply that patches the running instance. -/
theorem status_mirrors_patched : ∃ c active, NetRun httpOptions timely c ∧ c.active = none ∧
    c.state.world.ctrl.current = some active ∧ active.revision.generation = 2 ∧
    c.state.Idle active.forwarder ∧ c.state.Mirrors := by
  obtain ⟨c, hrun, hc⟩ := exists_cutRun (fun _ => False) timely
    (started ++ [.serve 0 (.apply mihomoSpec none) 300 (watched "direct")])
    (p := fun c => c.active.isNone && c.state.world.ctrl.current.any fun active =>
      active.revision.generation = 2 && decide (c.state.Idle active.forwarder))
    (by decide +kernel)
  simp only [Bool.and_eq_true, Option.isNone_iff_eq_none, Option.any_eq_true,
    decide_eq_true_eq] at hc
  obtain ⟨hfree, active, hcurrent, hgeneration, hidle⟩ := hc
  exact ⟨c, active, hrun, hfree, hcurrent, hgeneration, hidle, status_mirrors hrun hfree⟩

/-- The steps in which a probe finds an instance healthy only while it runs. -/
def probed : Condition := fun n effect answer =>
  match effect with
  | .probeNow id => answer = true → (n.cells id).value.state.pid.isSome = true
  | _ => True

instance (n : Net) (effect : Effect) (answer : Answer effect) :
    Decidable (probed n effect answer) := by
  revert answer
  apply @Effect.casesOn (fun effect => ∀ answer, Decidable (probed n effect answer)) effect <;>
    intros <;> dsimp only [probed] <;> infer_instance

/-- An in-place apply finds its instance healthy; then the instance crashes, its forwarder
delivers the restart, and the apply publishes it as running, with the pid 0. -/
theorem crash_after_probe : ∃ c active, NetRun httpOptions probed c ∧ c.active = none ∧
    c.state.world.ctrl.current = some active ∧ c.state.Idle active.forwarder ∧
    c.state.status.state = .running 1 0 ∧
    (c.state.cells active.handle.id).value.state = .restarting 1 ∧ ¬ c.state.Mirrors := by
  obtain ⟨c, hrun, hc⟩ := exists_cutRun (fun _ => False) probed (started ++
      [.enter 0 (.apply mihomoSpec none) 34 (watched "direct"),
        .drift (.transition 0 ⟨.restarting 1, some (.starting 0)⟩), .drift (.read ⟨0, 1⟩),
        .drift (.deliver ⟨0, 1⟩ 0), .proceed 7 (watched "direct"), .finish])
    (p := fun c => c.active.isNone && c.state.world.ctrl.current.any fun active =>
      decide (c.state.Idle active.forwarder) && (decide (c.state.status.state = .running 1 0) &&
        decide ((c.state.cells active.handle.id).value.state = .restarting 1)))
    (by decide +kernel)
  simp only [Bool.and_eq_true, Option.isNone_iff_eq_none, Option.any_eq_true,
    decide_eq_true_eq] at hc
  obtain ⟨hfree, active, hcurrent, hidle, hshown, hstate⟩ := hc
  refine ⟨c, active, hrun, hfree, hcurrent, hidle, hshown, hstate, fun hmirrors => ?_⟩
  have hequal := (hmirrors active hcurrent hidle).state
  rw [hshown, hstate] at hequal
  cases hequal

end Forwarding

end Nyanpasu.Manager
