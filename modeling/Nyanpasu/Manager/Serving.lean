import Nyanpasu.Manager.Phase

/-!
# Entering and leaving the middle

The rules for the settled world, for the instance that serves while its successor is
prepared, and for the installs that settle the world again.
-/

namespace Nyanpasu.Manager

open Config Machine

variable {site : Site} {b w w' : World} {T T' : Artifact → Prop} {hand : List Instance}
  {pending : List ℕ} {handle : Instance} {active : Active} {α : Type}

/-- A settled operation may be suspended. -/
theorem Settled.cut (h : Settled site w) : Cut site w := fun _ => h.toBase

theorem Spoken.quiet (h : Spoken w active) (hw : Quiet T noInstance w w') : Spoken w' active := by
  obtain ⟨⟨p, hp, habout, hsighted, hstate⟩, hheard⟩ := h
  refine ⟨⟨p, by rw [hw.history, hp], habout, by rw [hw.history]; exact hsighted, ?_⟩,
    by rw [hw.history, hheard]⟩
  exact hstate.imp_right fun hstopped => ⟨hstopped.1, (hw.grows _).terminal hstopped.2⟩

/-- Quiet steps that leave the committed file alone keep the world settled. -/
theorem Settled.quiet (h : Settled site w) (hw : Quiet T noInstance w w')
    (hT : ∀ active, w.ctrl.current = some active → ¬ T (.config active.revision.epoch)) :
    Settled site w' where
  inv := h.inv.quiet hw
  file := fun active hactive => by
    rw [hw.ctrl] at hactive
    exact (h.file active hactive).congr (hw.files _ (hT active hactive))
  tasks := by rw [hw.forwarders, hw.ctrl, h.tasks]
  silent := fun hnone => by
    rw [hw.ctrl] at hnone
    rw [hw.history]
    exact (h.silent hnone).imp_left fun hsilent => hsilent.of_history hw.history
  spoken := fun active hactive => by
    rw [hw.ctrl] at hactive
    rw [hw.history]
    exact (h.spoken active hactive).imp_right fun hspoken => hspoken.quiet hw
  covered := by rw [hw.history, h.covered]

/-- A new epoch is allocated in a settled world. -/
theorem Settled.allocated (h : Settled site w) :
    Settled site (w.step .nextEpoch w.nextEpoch) where
  inv := h.inv.allocated
  file := fun active hactive => (h.file active hactive).congr rfl
  tasks := h.tasks
  silent := h.silent
  spoken := fun active hactive => (h.spoken active hactive).imp_right
    fun hspoken => ⟨hspoken.published, hspoken.heard⟩
  covered := h.covered

/-- A document is loaded in a settled world. -/
theorem Settled.loaded {path : Path} {answer : Except Error ConfigSnapshot} (h : Settled site w) :
    Settled site (w.step (.load path) answer) := by
  cases answer with
  | error error => exact h
  | ok snapshot =>
    exact {
      inv := h.inv.unseen rfl
      file := fun active hactive => (h.file active hactive).congr rfl
      tasks := h.tasks
      silent := h.silent
      spoken := fun active hactive => (h.spoken active hactive).imp_right
        fun hspoken => ⟨hspoken.published, hspoken.heard⟩
      covered := h.covered }

/-- A settled world without an instance is in the middle already. -/
theorem Settled.mid (h : Settled site w) (hnone : w.ctrl.current = none) : Mid w T [] [] w where
  inv := h.inv
  current := hnone
  quarantine := fun _ => rfl
  forwarders := by simp [h.tasks, hnone]
  exposed := Or.inr ⟨rfl, rfl, h.silent hnone⟩
  since := .refl w

theorem Settled.serving (h : Settled site w) (hcurrent : w.ctrl.current = some active) :
    Serving site active [] [] w where
  inv := h.inv
  current := hcurrent
  file := h.file active hcurrent
  tasks := by simp [h.tasks, hcurrent]

theorem Serving.base (h : Serving site active [] [] w) : Base site w where
  inv := h.inv
  file := fun other hother => by
    obtain rfl : active = other := Option.some.inj (h.current.symm.trans hother)
    exact h.file
  tasks := by simp [h.tasks, h.current]
  silent := fun hnone => by simp [h.current] at hnone

theorem Serving.quiet (h : Serving site active hand pending w) (hw : Quiet T noInstance w w')
    (hT : ¬ T (.config active.revision.epoch)) : Serving site active hand pending w' where
  inv := h.inv.quiet hw
  current := by rw [hw.ctrl, h.current]
  file := h.file.congr (hw.files _ hT)
  tasks := hw.forwarders.trans h.tasks

/-- A publication leaves the serving instance alone. -/
theorem Serving.published {p : Publication} {now : ℤ} (h : Serving site active hand pending w) :
    Serving site active hand pending (w.step (.publish p) now) where
  inv := h.inv.published
  current := h.current
  file := h.file.congr rfl
  tasks := h.tasks

/-- The instance is taken and its forwarder ends: the operation is in the middle. -/
theorem Holding.taken (h : Holding active hand pending w)
    (hw : Quiet noArtifact noInstance (w.step .takeCurrent (some active)) w') :
    Mid w T (active.handle :: hand) pending (w'.step (.abortForwarder active.forwarder) ()) := by
  have hinv := (h.inv.taken h.current).quiet hw
  have hexposed : w'.history.exposed = true := by
    rw [hw.history]
    simp [World.step, h.current]
  refine ⟨hinv.unseen rfl, ?_, fun _ => ?_, ?_, Or.inl hexposed,
    ⟨hw.numbering, le_of_eq hw.spawned.symm, hw.ledger, ?_, fun a _ => hw.files a id,
      fun id _ => hw.grows id⟩⟩
  · exact (congrArg Ctrl.current hw.ctrl :)
  · exact (congrArg Ctrl.quarantine hw.ctrl :)
  · have htasks : w'.forwarders = [active.forwarder] := hw.forwarders.trans h.tasks
    simp [World.step, htasks]
  · exact (congrArg History.loads hw.history :)

/-- `ctrl.current.take()` finds the current instance. -/
theorem Holding.take {f : Option Active → Action α} {post : α → World → Prop}
    (h : Holding active hand pending w)
    (hpost : machine.wp (Cut site) (f (some active)) post (w.step .takeCurrent (some active))) :
    machine.wp (Cut site) (takeCurrent >>= f) post w := by
  refine wp_seq (Q := fun taken w' => taken = some active ∧
    w' = w.step .takeCurrent (some active)) (wp_sync rfl fun taken htaken => ?_) ?_
  · obtain rfl : taken = some active := htaken.trans h.current
    exact ⟨rfl, rfl⟩
  · rintro _ _ ⟨rfl, rfl⟩
    exact hpost

theorem Holding.abort (h : Holding active hand pending w)
    (hw : Quiet noArtifact noInstance (w.step .takeCurrent (some active)) w') :
    machine.wp (Cut site) (abortAndAwait active.forwarder)
      (fun _ => Mid w T (active.handle :: hand) pending) w' := by
  have hexposed : w'.history.exposed = true := by
    rw [hw.history]
    simp [World.step, h.current]
  refine wp_perform (fun _ hcovered => ?_) fun _ _ => ⟨fun _ hcovered => ?_, h.taken hw⟩
  · simp [hexposed] at hcovered
  · exact absurd (hexposed.symm.trans hcovered) (by rintro ⟨⟩)

/-- The publication about the serving instance settles the world. -/
theorem Serving.settled {p : Publication} {now : ℤ} (h : Serving site active [] [] w)
    (habout : SpeaksOf active p)
    (hsighted : Sighted (w.processes active.handle.id).reads active.revision.epoch p)
    (hstate : p.state.epoch? = some active.revision.epoch ∨
      (p.state.isStopped = true ∧ (w.processes active.handle.id).terminal = true)) :
    Settled site (w.step (.publish p) now) where
  toBase := h.published.base
  spoken := fun other hother => by
    obtain rfl : active = other := Option.some.inj (h.current.symm.trans hother)
    exact Or.inr ⟨⟨p, rfl, habout, hsighted, hstate⟩, h.tasks⟩
  covered := by simp [World.step, World.published, World.settledBy, h.current, habout.revision]

/-- The state that is shown for an instance belongs to its epoch, unless it has stopped. -/
theorem epoch?_or_stopped (epoch : ℕ) (state : InstanceState) :
    (instanceCoreState epoch state).epoch? = some epoch ∨
      ((instanceCoreState epoch state).isStopped = true ∧ state.isTerminal = true) := by
  cases hterminal : state.isTerminal with
  | false => exact Or.inl (epoch?_instanceCoreState hterminal)
  | true => exact Or.inr ⟨by rw [isStopped_instanceCoreState, hterminal], rfl⟩

/-- The publication of `publish_instance`: the health is what was read last. -/
theorem publishInstance_spec {state : CoreState} {spec : InstanceSpec} {revision : ConfigRevision}
    {capabilities : List Feature} {runtimeFeatures : List RuntimeFeature} {cut Q : World → Prop}
    (hpost : ∀ w' p now, Quiet noArtifact noInstance w w' → p.state = state →
      (∃ status, (w'.processes handle.id).reads = status :: (w.processes handle.id).reads ∧
        p.health = .exactly status.health) →
      (∀ active : Active, active.handle = handle → active.sourceSpec = spec →
        active.revision = revision → active.capabilities = capabilities →
        active.runtimeFeatures = runtimeFeatures → SpeaksOf active p) →
      Q (w'.step (.publish p) now)) :
    machine.wp cut (publishInstance handle state spec revision capabilities runtimeFeatures)
      (fun _ => Q) w := by
  refine wp_seq (borrow_spec (T := noArtifact) (I := noInstance) (.refl w)) fun status w₁ hw₁ => ?_
  refine wp_seq (Q := fun _ => Q) ?_ fun _ _ h => h
  refine wp_sync rfl fun now _ => hpost w₁ _ now hw₁.1 rfl ⟨status, hw₁.2.2.2, rfl⟩ ?_
  rintro active rfl rfl rfl rfl rfl
  exact ⟨rfl, rfl, rfl⟩

/-- `republish_retained` settles the world of a serving instance. -/
theorem Serving.republish (h : Serving site active [] [] w) :
    machine.wp (Cut site) republishRetained (fun _ w' => Settled site w' ∧ w'.ctrl = w.ctrl ∧
      w'.ledger = w.ledger) w := by
  refine wp_seq (Q := fun ctrl w' => ctrl = w.ctrl ∧ w = w')
    (wp_sync rfl fun ctrl hctrl => ⟨hctrl, rfl⟩) ?_
  rintro _ _ ⟨rfl, rfl⟩
  rw [h.current]
  refine wp_seq (borrow_spec (T := noArtifact) (I := noInstance) (.refl w)) ?_
  rintro status w₁ ⟨hw₁, -, hterminal, hread⟩
  have hserving : Serving site active [] [] w₁ := h.quiet hw₁ id
  refine publishInstance_spec fun w₂ p now hw₂ hstate hhealth habout => ⟨?_, ?_, ?_⟩
  · obtain ⟨second, hsecond, hhealth⟩ := hhealth
    rw [hread] at hsecond
    refine (hserving.quiet hw₂ id).settled (habout active rfl rfl rfl rfl rfl)
      ⟨status, second, _, hsecond, hhealth, Or.inl ?_⟩ ?_
    all_goals rw [hstate, (h.inv.chronicle.current active h.current).epoch]
    refine (epoch?_or_stopped _ status.state).imp_right fun hstopped => ⟨hstopped.1, ?_⟩
    exact (hw₂.grows _).terminal (hterminal hstopped.2)
  · exact hw₂.ctrl.trans hw₁.ctrl
  · exact hw₂.ledger.trans hw₁.ledger

/-- The boot of a successor beside the serving instance. -/
theorem Serving.booted {spec : InstanceSpec} {epoch : ℕ} {controller : ResolvedController}
    (h : Serving site active [] [] w) (hw : SpawnedBy .gracefulSwitch epoch w w')
    (hquarantine : w.ctrl.quarantine = []) (hepoch : epoch ∈ w.history.allocated)
    (hfresh : epoch ≠ active.handle.epoch) :
    Serving site active [⟨w.spawned, epoch, spec, controller⟩] [] w' where
  inv := h.inv.spawned hw hquarantine (Or.inr rfl) hepoch (by simp [World.held, h.current, hfresh])
  current := by rw [hw.ctrl, h.current]
  file := h.file.congr (hw.files _ rfl)
  tasks := hw.forwarders.trans h.tasks

/-- The stop of a booted successor that was refused. -/
theorem Serving.stop {options : Options} (h : Serving site active (handle :: hand) pending w)
    (hexposed : w.history.exposed = true) :
    machine.wp (Cut site) (handle.stopAndConfirmDead options) (fun result w' =>
      w'.ledger = w.ledger ∧ w'.ctrl.current = w.ctrl.current ∧ match result with
      | .ok _ => Serving site active hand pending w'
      | .error error => isStopUnconfirmed error = true ∧
          Serving site active hand (handle.epoch :: pending) w') w := by
  have hheld : Held w handle := h.inv.custody.held handle (by simp [World.held])
  have hcut : ∀ w', Quiet noArtifact (onlyInstance handle.id) w w' → Cut site w' := by
    intro w' hw hcovered
    rw [hw.history, hexposed] at hcovered
    cases hcovered
  refine wp_imp (stopAndConfirmDead_spec hheld hcut) fun result w' hw => ?_
  cases result with
  | ok value =>
    obtain ⟨hw, hdead⟩ := hw
    exact ⟨hw.ledger, by rw [hw.ctrl], ⟨h.inv.stopped hw hdead, by rw [hw.ctrl, h.current],
      hw.forwarders.trans h.tasks⟩, h.file.congr (hw.files _ id)⟩
  | error error =>
    obtain ⟨herror, w₁, hw, rfl⟩ := hw
    refine ⟨hw.ledger, (congrArg Ctrl.current hw.ctrl :), herror, ⟨h.inv.unconfirmed hw, ?_,
      hw.forwarders.trans h.tasks⟩, h.file.congr (hw.files _ id)⟩
    rw [World.unconfirm, hw.ctrl, h.current]

/-- A failed stop is latched while another instance serves: the status no longer speaks
about that instance. -/
theorem Serving.latch {epoch : ℕ} {error : Error}
    (h : Serving site active [] [epoch] w) :
    machine.wp (Cut site) (latchQuarantine epoch error) (fun _ w' => Settled site w' ∧
      w'.ctrl.current = w.ctrl.current ∧ w'.ledger = w.ledger) w := by
  have hnew : epoch ∉ w.quarantined := h.inv.custody.trusted epoch (by simp [World.owed])
  have hheld : epoch ∉ (w.held []).map (·.epoch) := by
    have hnodup : (epoch :: (w.held []).map (·.epoch)).Nodup := h.inv.custody.apart
    exact (List.nodup_cons.mp hnodup).1
  refine wp_imp latchQuarantine_spec ?_
  rintro _ _ ⟨-, p, message, now, hstate, hrevision, rfl⟩
  have hinv := h.inv.quarantined error.message hheld hnew
  rw [List.erase_cons_head] at hinv
  have hserving : Serving site active [] [] (w.quarantineEpoch epoch error.message) :=
    ⟨⟨hinv, h.current, h.tasks⟩, h.file.congr rfl⟩
  refine ⟨⟨hserving.published.base, fun _ _ => Or.inl ?_, ?_⟩, rfl, rfl⟩
  · simp [World.step, World.published, World.quarantineEpoch, h.current,
      recordQuarantine_of_notMem _ hnew]
  · simp [World.step, World.published, World.settledBy, CoreState.isStopped, hstate]

/-- The refusal of a launch removes its files and republishes the serving instance. -/
theorem Serving.refuse {options : Options} {epoch : ℕ} {error : Error}
    (h : Serving site active [] [] w) (hepoch : epoch ≠ active.revision.epoch) :
    machine.wp (Cut site) (refuse options epoch error republishRetained : Action (Except Error α))
      (fun result w' => (∃ error, result = .error error) ∧ Settled site w' ∧
        w'.ctrl = w.ctrl ∧ w'.ledger = w.ledger) w := by
  have hquiet : ∀ {w'}, Quiet (ofEpoch epoch) noInstance w w' → Serving site active [] [] w' :=
    fun hw => h.quiet hw fun hmine => hepoch hmine.symm
  refine wp_seq (wp_frame cleanupEpoch_quietly fun w' hw _ => (hquiet hw).base) ?_
  intro _ w₁ hw₁
  refine wp_seq (hquiet hw₁).republish ?_
  rintro _ w₂ ⟨hsettled, hctrl, hledger⟩
  exact ⟨⟨error, rfl⟩, hsettled, hctrl.trans hw₁.ctrl, hledger.trans hw₁.ledger⟩

/-- What an install needs: the instance is ready, its file is committed, and its revision
follows the earlier ones. -/
structure Installable (site : Site) (b : World) (active : Active) (w : World) : Prop where
  epoch : active.revision.epoch = active.handle.epoch
  forwarder : active.forwarder = ⟨active.handle.id, active.handle.epoch⟩
  ready : (w.processes active.handle.id).ready = true
  spec : active.handle.spec.configPath = .runtime (.config active.handle.epoch)
  unlisted : b.ctrl.quarantine = []
  file : Committed site w active.revision active.effectiveDocument
  follows : ∀ older ∈ b.history.installs, active.Follows b.history.top older

theorem Installable.quiet (h : Installable site b active w)
    (hw : Quiet noArtifact noInstance w w') :
    Installable site b active w' :=
  { h with
    ready := (hw.grows _).ready h.ready
    file := h.file.congr (hw.files _ id) }

/-- The world after the forwarder, the spec and the `Active` of an install. -/
def World.install (w : World) (active : Active) : World :=
  ((w.step (.spawnForwarder active.forwarder) ()).step (.setLastSpec active.sourceSpec) ()).step
    (.setCurrent active) ()

/-- An install ends the middle. -/
theorem Mid.install (h : Mid b T [active.handle] [] w) (hactive : Installable site b active w) :
    Serving site active [] [] (w.install active) ∧ Launched b active (w.install active) := by
  have hinv : Inv [active.handle] [] ((w.step (.spawnForwarder active.forwarder) ()).step
      (.setLastSpec active.sourceSpec) ()) := h.inv.unseen rfl
  refine ⟨⟨⟨?_, rfl, ?_⟩, hactive.file.congr rfl⟩, ⟨rfl, ?_, rfl⟩, h.since.loads⟩
  · refine hinv.installed h.current hactive.epoch hactive.forwarder hactive.ready
      hactive.spec ((h.quarantine rfl).trans hactive.unlisted) ?_
    intro older holder
    change active.Follows w.history.top older
    rw [top_of_numbering h.since.numbering]
    exact hactive.follows older (h.since.installs ▸ holder)
  · simp [World.install, World.step, h.forwarders]
  · rw [← h.since.ledger]
    rfl

/-- A pid is what was read last. -/
theorem pid_spec {cut : World → Prop} :
    machine.wp cut handle.pid (fun pid w' => Quiet noArtifact noInstance w w' ∧
      ∃ status rest, (w'.processes handle.id).reads = status :: rest ∧
        pid = status.state.pid) w :=
  wp_seq (borrow_spec (.refl w)) fun status _ hw => ⟨hw.1, status, _, hw.2.2.2, rfl⟩

theorem spawnForwarder_spec {epoch : ℕ} {cut : World → Prop} :
    machine.wp cut (spawnForwarder handle epoch) (fun forwarder w' =>
      forwarder = ⟨handle.id, epoch⟩ ∧ w' = w.step (.spawnForwarder ⟨handle.id, epoch⟩) ()) w := by
  refine wp_seq (Q := fun _ w' => w' = w.step (.spawnForwarder ⟨handle.id, epoch⟩) ())
    (wp_sync rfl fun _ _ => rfl) ?_
  rintro _ _ rfl
  exact ⟨rfl, rfl⟩

/-- `install_switched` ends the middle with the new instance. -/
theorem installSwitched_spec {prepared : PreparedLaunch}
    (h : Mid b T [handle] [] w)
    (hactive : Installable site b (prepared.activate handle ⟨handle.id, handle.epoch⟩) w) :
    machine.wp (Cut site) (installSwitched handle prepared) (fun _ w' => Settled site w' ∧
      Launched b (prepared.activate handle ⟨handle.id, handle.epoch⟩) w') w := by
  have hepoch : prepared.revision.epoch = handle.epoch := hactive.epoch
  unfold installSwitched
  refine wp_seq pid_spec ?_
  rintro _ w₁ ⟨hw₁, first, rest, hfirst, rfl⟩
  refine wp_seq (publishInstance_spec (Q := fun w' => ∃ w₂ p now, Quiet noArtifact noInstance w w₂ ∧
    p.state = .running prepared.revision.epoch (first.state.pid.getD 0) ∧
    Sighted (w₂.processes handle.id).reads prepared.revision.epoch p ∧
    SpeaksOf (prepared.activate handle ⟨handle.id, handle.epoch⟩) p ∧
    w' = w₂.step (.publish p) now) fun w₂ p now hw₂ hstate hhealth habout => ?_) ?_
  · obtain ⟨second, hsecond, hhealth⟩ := hhealth
    rw [hfirst] at hsecond
    exact ⟨w₂, p, now, hw₁.trans hw₂, hstate,
      ⟨first, second, rest, hsecond, hhealth, Or.inr hstate⟩,
      habout _ rfl rfl rfl rfl rfl, rfl⟩
  rintro _ _ ⟨w₂, p, now, hw₂, hstate, hsighted, habout, rfl⟩
  have hrunning : p.state.isStopped = false := by rw [hstate]; rfl
  have hmid : Mid b T [handle] [] (w₂.step (.publish p) now) :=
    (h.quiet hw₂ nofun).published hrunning
  have hinstallable : Installable site b (prepared.activate handle ⟨handle.id, handle.epoch⟩)
      (w₂.step (.publish p) now) :=
    { hactive.quiet hw₂ with file := (hactive.quiet hw₂).file.congr rfl }
  refine wp_seq spawnForwarder_spec ?_
  rintro _ _ ⟨rfl, rfl⟩
  rw [hepoch]
  refine wp_seq (Q := fun _ w' => w' = ((w₂.step (.publish p) now).step
    (.spawnForwarder ⟨handle.id, handle.epoch⟩) ()).step (.setLastSpec prepared.sourceSpec) ())
    (wp_sync rfl fun _ _ => rfl) ?_
  rintro _ _ rfl
  obtain ⟨hserving, hlaunched⟩ := hmid.install hinstallable
  refine wp_sync rfl fun _ _ => ⟨⟨hserving.base, fun other hother => Or.inr ?_, rfl⟩, hlaunched⟩
  obtain rfl := Option.some.inj hother
  refine ⟨⟨p, rfl, habout, hsighted, Or.inl ?_⟩, ?_⟩
  · rw [hstate]
    rfl
  · simp [World.step, World.published, hw₂.forwarders, h.forwarders, PreparedLaunch.activate]

/-- The publication of a running instance, with the pid that was read, settles the world. -/
theorem Serving.publishRunning {first : InstanceStatus} {rest : List InstanceStatus}
    (h : Serving site active [] [] w)
    (hfirst : (w.processes active.handle.id).reads = first :: rest) :
    machine.wp (Cut site)
      (publishActive active (.running active.revision.epoch (first.state.pid.getD 0)))
      (fun _ w' => Settled site w' ∧ w'.ctrl = w.ctrl ∧ w'.ledger = w.ledger ∧
        w'.history.muted = w.history.muted ∧ w'.history.loads = w.history.loads) w := by
  refine publishInstance_spec fun w₁ p now hw₁ hstate hhealth habout => ⟨?_, ?_, ?_, ?_, ?_⟩
  · obtain ⟨second, hsecond, hhealth⟩ := hhealth
    rw [hfirst] at hsecond
    exact (h.quiet hw₁ id).settled (habout active rfl rfl rfl rfl rfl)
      ⟨first, second, rest, hsecond, hhealth, Or.inr hstate⟩ (Or.inl (by rw [hstate]; rfl))
  · exact hw₁.ctrl
  · exact hw₁.ledger
  · exact (congrArg History.muted hw₁.history :)
  · exact (congrArg History.loads hw₁.history :)

/-- The install of a replacement ends the middle. -/
theorem installReplacement_spec {activate : Forwarder → Active}
    (h : Mid b T [active.handle] [] w) (hactive : Installable site b active w)
    (hactivate : activate active.forwarder = active) :
    machine.wp (Cut site) (installReplacement activate active.handle active.revision.epoch)
      (fun _ w' => Settled site w' ∧ Launched b active w') w := by
  have hforwarder : (⟨active.handle.id, active.revision.epoch⟩ : Forwarder) = active.forwarder := by
    rw [hactive.forwarder, hactive.epoch]
  unfold installReplacement
  refine wp_seq pid_spec ?_
  rintro _ w₁ ⟨hw₁, first, rest, hfirst, rfl⟩
  obtain ⟨hserving, hlaunched⟩ := (h.quiet hw₁ nofun).install (hactive.quiet hw₁)
  refine wp_seq spawnForwarder_spec ?_
  rintro _ _ ⟨rfl, rfl⟩
  rw [hforwarder, hactivate]
  refine wp_seq (Q := fun _ w' => w' = (w₁.step (.spawnForwarder active.forwarder) ()).step
    (.setLastSpec active.sourceSpec) ()) (wp_sync rfl fun _ _ => rfl) ?_
  rintro _ _ rfl
  refine wp_seq (Q := fun _ w' => w' = w₁.install active) (wp_sync rfl fun _ _ => rfl) ?_
  rintro _ _ rfl
  refine wp_imp (hserving.publishRunning hfirst) ?_
  rintro _ w' ⟨hsettled, hctrl, hledger, hmuted, hloads⟩
  exact ⟨hsettled, ⟨by rw [hctrl, hlaunched.current], hledger.trans hlaunched.ledger,
    hmuted.trans hlaunched.clear⟩, hloads.trans hlaunched.loads⟩

end Nyanpasu.Manager
