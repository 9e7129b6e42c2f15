import Nyanpasu.Config.Soundness
import Nyanpasu.Manager.Plain

/-!
# Where a publication comes from

A publication that names a revision was made from the launch of that revision, which was
prepared from a loaded document, and its health was read from an instance of the epoch or is
left to the state. Every operation keeps this at each of its effects, so it holds in every
run, wherever operations are dropped.
-/

namespace Nyanpasu.Manager

open Config Machine Serial Program

/-- The launch was prepared from a document that was loaded. -/
def Drawn (options : Options) (w : World) (launch : PreparedLaunch) : Prop :=
  ∃ snapshot ∈ w.history.loads, ∃ spec epoch generation,
    PreparedFrom options spec epoch generation snapshot launch

/-- The handle is the one of a process of its epoch. -/
structure Hosted (w : World) (handle : Instance) : Prop where
  spawned : handle.id < w.spawned
  process : (w.processes handle.id).epoch = handle.epoch

/-- An `Active` comes from the launch of its revision and a process of its epoch. -/
structure Sourced (options : Options) (w : World) (active : Active) : Prop where
  launch : ∃ launch, Drawn options w launch ∧ launch.controller = active.handle.controller ∧
    active = launch.activate active.handle active.forwarder
  epoch : active.handle.epoch = active.revision.epoch
  hosted : Hosted w active.handle

/-- A publication about a revision fits together. -/
structure Fitting (options : Options) (w : World) (p : Publication) (revision : ConfigRevision) :
    Prop where
  names : p.state.isStopped = true ∨ p.state.target? = some revision.epoch
  launch : ∃ launch, Drawn options w launch ∧ launch.revision = revision ∧
    p.spec = some (specSummary launch.sourceSpec launch.capabilities launch.runtimeFeatures) ∧
    p.controller = some launch.controller.host
  health : p.health = .ofState ∨ ∃ id < w.spawned, (w.processes id).epoch = revision.epoch ∧
    ∃ status ∈ (w.processes id).reads, p.health = .exactly status.health

/-- A publication fits together, or it says that nothing runs. -/
def Fits (options : Options) (w : World) (p : Publication) : Prop :=
  match p.revision with
  | some revision => Fitting options w p revision
  | none => p.state.isStopped = true ∧ p.health = .ofState

/-- A forwarder belongs to a process of its epoch. -/
def Forwarder.Hosted (w : World) (f : Forwarder) : Prop :=
  f.instanceId < w.spawned ∧ (w.processes f.instanceId).epoch = f.epoch

/-- What every operation keeps at each of its effects. -/
structure Truthful (options : Options) (w : World) : Prop where
  publications : ∀ p ∈ w.history.publications, Fits options w p
  current : ∀ active, w.ctrl.current = some active → Sourced options w active
  forwarders : ∀ f ∈ w.forwarders, f.Hosted w

/-- What the state must offer for an effect. -/
def Entitled (options : Options) (w : World) : Effect → Prop
  | .publish p => Fits options w p
  | .setCurrent active => Sourced options w active
  | .spawnForwarder f => f.Hosted w
  | _ => True

section Later

variable {options : Options} {w w' : World} {launch : PreparedLaunch} {handle : Instance}
  {active : Active} {p : Publication} {revision : ConfigRevision} {f : Forwarder}

theorem Drawn.later (h : Drawn options w launch) (hw : Later w w') : Drawn options w' launch := by
  obtain ⟨snapshot, hmem, hfrom⟩ := h
  exact ⟨snapshot, hw.loads hmem, hfrom⟩

theorem Hosted.later (h : Hosted w handle) (hw : Later w w') : Hosted w' handle where
  spawned := Nat.lt_of_lt_of_le h.spawned hw.spawned
  process := (hw.grows _ h.spawned).epoch.trans h.process

theorem Sourced.later (h : Sourced options w active) (hw : Later w w') :
    Sourced options w' active where
  launch := by
    obtain ⟨launch, hdrawn, hrest⟩ := h.launch
    exact ⟨launch, hdrawn.later hw, hrest⟩
  epoch := h.epoch
  hosted := h.hosted.later hw

theorem Fitting.later (h : Fitting options w p revision) (hw : Later w w') :
    Fitting options w' p revision where
  names := h.names
  launch := by
    obtain ⟨launch, hdrawn, hrest⟩ := h.launch
    exact ⟨launch, hdrawn.later hw, hrest⟩
  health := by
    rcases h.health with hstate | ⟨id, hid, hepoch, status, hmem, hexactly⟩
    · exact Or.inl hstate
    · have hgrows := hw.grows id hid
      exact Or.inr ⟨id, Nat.lt_of_lt_of_le hid hw.spawned, hgrows.epoch.trans hepoch, status,
        hgrows.reads hmem, hexactly⟩

theorem Fits.later (h : Fits options w p) (hw : Later w w') : Fits options w' p := by
  unfold Fits at h ⊢
  split at h
  · exact Fitting.later h hw
  · exact h

theorem Forwarder.Hosted.later (h : f.Hosted w) (hw : Later w w') : f.Hosted w' :=
  ⟨Nat.lt_of_lt_of_le h.1 hw.spawned, (hw.grows _ h.1).epoch.trans h.2⟩

/-- What the record shows stays true while nothing is added to it. -/
theorem Truthful.later (h : Truthful options w) (hw : Later w w')
    (hpublications : w'.history.publications = w.history.publications)
    (hcurrent : w'.ctrl.current = w.ctrl.current) (hforwarders : w'.forwarders ⊆ w.forwarders) :
    Truthful options w' where
  publications := by
    intro p hp
    rw [hpublications] at hp
    exact (h.publications p hp).later hw
  current := by
    intro active hactive
    rw [hcurrent] at hactive
    exact (h.current active hactive).later hw
  forwarders := fun f hf => (h.forwarders f (hforwarders hf)).later hw

end Later

section Steps

variable {options : Options} {w w' : World} {α β : Type}

/-- An effect that the state is entitled to keeps the record true. -/
theorem Truthful.step {effect : Effect} {answer : Answer effect} (h : Truthful options w)
    (hallowed : w.allowed effect answer) (hentitled : Entitled options w effect) :
    Truthful options (w.step effect answer) := by
  have hlater : Later w (w.step effect answer) := .step hallowed
  cases effect
  case publish p =>
    refine ⟨fun p' hp' => ?_, ?_, ?_⟩
    · rcases List.mem_cons.mp hp' with rfl | hp'
      · exact Fits.later hentitled hlater
      · exact (h.publications p' hp').later hlater
    · exact fun active hactive => (h.current active hactive).later hlater
    · exact fun f hf => (h.forwarders f hf).later hlater
  case setCurrent active =>
    refine ⟨?_, fun active' hactive' => ?_, ?_⟩
    · exact fun p hp => (h.publications p hp).later hlater
    · obtain rfl : active = active' := Option.some.inj hactive'
      exact Sourced.later hentitled hlater
    · exact fun f hf => (h.forwarders f hf).later hlater
  case spawnForwarder f =>
    refine ⟨?_, ?_, fun f' hf' => ?_⟩
    · exact fun p hp => (h.publications p hp).later hlater
    · exact fun active hactive => (h.current active hactive).later hlater
    · rcases List.mem_append.mp hf' with hf' | hf'
      · exact (h.forwarders f' hf').later hlater
      · obtain rfl : f' = f := List.mem_singleton.mp hf'
        exact Forwarder.Hosted.later hentitled hlater
  case takeCurrent =>
    refine ⟨fun p hp => (h.publications p hp).later hlater, fun active hactive => ?_,
      fun f hf => (h.forwarders f hf).later hlater⟩
    cases hactive
  case setLastSpec | setQuarantine | nextEpoch =>
    exact h.later hlater rfl rfl (List.Subset.refl _)
  case abortForwarder f => exact h.later hlater rfl rfl List.erase_subset
  case mark point => cases point <;> exact h.later hlater rfl rfl (List.Subset.refl _)
  case load path => cases answer <;> exact h.later hlater rfl rfl (List.Subset.refl _)
  case replace source target => cases answer <;> exact h.later hlater rfl rfl (List.Subset.refl _)
  case spawn site spec epoch controller =>
    obtain ⟨result, artifacts⟩ := answer
    cases result <;> exact h.later hlater rfl rfl (List.Subset.refl _)
  all_goals
    have hquiet := Effect.Quietly.step (w := w) (T := fun _ => True) (I := fun _ => True)
      (by simp [Effect.Quietly]) answer
    refine h.later hlater (congrArg History.publications hquiet.history :)
      (congrArg Ctrl.current hquiet.ctrl :) ?_
    rw [hquiet.forwarders]
    exact List.Subset.refl _

/-- The record at the end of a part of an operation. -/
structure Steady (options : Options) (w w' : World) : Prop where
  truthful : Truthful options w'
  later : Later w w'
  ctrl : w'.ctrl = w.ctrl

theorem Steady.trans {w'' : World} (h : Steady options w w') (h' : Steady options w' w'') :
    Steady options w w'' :=
  ⟨h'.truthful, h.later.trans h'.later, h'.ctrl.trans h.ctrl⟩

/-- The rule for an effect. -/
theorem wp_entitled {effect : Effect} {post : Answer effect → World → Prop}
    (h : Truthful options w) (hentitled : Entitled options w effect)
    (hpost : ∀ answer, w.allowed effect answer →
      Truthful options (w.step effect answer) → post answer (w.step effect answer)) :
    machine.eager.wp (Truthful options) (perform effect) post w := by
  refine wp_perform (fun _ => h) fun answer hanswer => ?_
  have hstep := h.step hanswer hentitled
  exact ⟨fun _ => hstep, hpost answer hanswer hstep⟩

theorem Effect.Plain.entitled {effect : Effect} (h : effect.Plain) : Entitled options w effect := by
  cases effect <;> trivial

/-- The rule for a plain part of an operation, with what is known of its result. -/
theorem Truthful.plain {p : Action α} {post : α → World → Prop} (h : Truthful options w)
    (hplain : p.Uses Effect.Plain) (hp : machine.wp (fun _ => True) p post w) :
    machine.eager.wp (Truthful options) p
      (fun value w' => post value w' ∧ Steady options w w') w := by
  suffices hgeneral : ∀ w', Steady options w w' → machine.wp (fun _ => True) p post w' →
      machine.eager.wp (Truthful options) p (fun value w'' => post value w'' ∧
        Steady options w w'') w' from
    hgeneral w ⟨h, .refl w, rfl⟩ hp
  clear hp
  induction p with
  | ret value => exact fun w' hw' hpost => ⟨hpost, hw'⟩
  | call effect next ih =>
    intro w' hw' hpost
    refine ⟨fun _ => hw'.truthful, fun answer hanswer => ?_⟩
    have hstep := hw'.truthful.step hanswer hplain.1.entitled
    refine ⟨fun _ => hstep, ih answer (hplain.2 answer) _ ?_ (hpost.2 answer hanswer).2⟩
    exact hw'.trans ⟨hstep, .step hanswer, hplain.1.ctrl answer⟩

/-- The rule for a plain part whose result does not matter. -/
theorem Truthful.ignore {p : Action α} (h : Truthful options w) (hplain : p.Uses Effect.Plain) :
    machine.eager.wp (Truthful options) p (fun _ w' => Steady options w w') w :=
  wp_imp (h.plain hplain (wp_of_returns (returns_of_forall (fun _ => trivial) p)))
    fun _ _ hw' => hw'.2

/-- An operation keeps the record true at each of its effects. -/
def Keeps (options : Options) (p : Action α) (w : World) : Prop :=
  machine.eager.wp (Truthful options) p (fun _ w' => Truthful options w') w

theorem keeps_seq {p : Action α} {f : α → Action β} (hp : Keeps options p w)
    (hf : ∀ value w', Truthful options w' → Keeps options (f value) w') :
    Keeps options (p >>= f) w := wp_seq hp hf

theorem keeps_andThen {p : Action (Except Error α)} {f : α → Action (Except Error β)}
    (hp : Keeps options p w) (hf : ∀ value w', Truthful options w' → Keeps options (f value) w') :
    Keeps options (p.andThen f) w := wp_andThen hp hf fun _ _ hw' => hw'

theorem Truthful.keeps {p : Action α} (h : Truthful options w) (hplain : p.Uses Effect.Plain) :
    Keeps options p w := wp_imp (h.ignore hplain) fun _ _ hw' => hw'.truthful

/-- The rule for an effect whose answer does not matter. -/
theorem Truthful.performs {effect : Effect} (h : Truthful options w)
    (hentitled : Entitled options w effect) : Keeps options (perform effect) w :=
  wp_entitled h hentitled fun _ _ hstep => hstep

end Steps

section Publications

/-! ## What is published -/

variable {options : Options} {w w' : World} {launch : PreparedLaunch} {handle : Instance}
  {active : Active} {p : Publication} {state : CoreState} {α : Type}

/-- A publication about a launch. -/
theorem Drawn.fits (h : Drawn options w launch)
    (hnames : state.isStopped = true ∨ state.target? = some launch.revision.epoch) :
    Fits options w ⟨state, .ofState,
      some (specSummary launch.sourceSpec launch.capabilities launch.runtimeFeatures),
      some launch.controller.host, some launch.revision⟩ :=
  ⟨hnames, ⟨launch, h, rfl, rfl, rfl⟩, Or.inl rfl⟩

theorem Truthful.publish {spec : Option SpecSummary} {controller : Option Host}
    {revision : Option ConfigRevision} (h : Truthful options w)
    (hfits : Fits options w ⟨state, .ofState, spec, controller, revision⟩) :
    machine.eager.wp (Truthful options) (publish state spec controller revision)
      (fun _ w' => Steady options w w') w := by
  refine wp_seq (Q := fun _ w' => Steady options w w') ?_ fun _ _ hw' => hw'
  exact wp_entitled h hfits fun now hallowed hstep => ⟨hstep, .step hallowed, rfl⟩

theorem Truthful.announce (h : Truthful options w) (hdrawn : Drawn options w launch)
    (hnames : state.isStopped = true ∨ state.target? = some launch.revision.epoch) :
    machine.eager.wp (Truthful options) (launch.announce state)
      (fun _ w' => Steady options w w') w := h.publish (hdrawn.fits hnames)

/-- The launch of an `Active`, in its terms. -/
theorem Sourced.cases (h : Sourced options w active) : ∃ launch : PreparedLaunch,
    Drawn options w launch ∧ launch.controller = active.handle.controller ∧
      launch.revision = active.revision ∧ launch.sourceSpec = active.sourceSpec ∧
      launch.capabilities = active.capabilities ∧
      launch.runtimeFeatures = active.runtimeFeatures := by
  obtain ⟨launch, hdrawn, hcontroller, heq⟩ := h.launch
  refine ⟨launch, hdrawn, hcontroller, ?_⟩
  rw [heq]
  exact ⟨rfl, rfl, rfl, rfl⟩

/-- A publication about an `Active`. -/
theorem Sourced.publishLaunch (h : Truthful options w) (hactive : Sourced options w active)
    (hnames : state.isStopped = true ∨ state.target? = some active.handle.epoch) :
    machine.eager.wp (Truthful options)
      (publishLaunch state active.sourceSpec active.capabilities active.runtimeFeatures
        active.handle.controller.host active.revision)
      (fun _ w' => Steady options w w') w := by
  obtain ⟨launch, hdrawn, hcontroller, hrevision, hspec, hcapabilities, hfeatures⟩ := hactive.cases
  rw [hactive.epoch, ← hrevision] at hnames
  rw [← hcontroller, ← hrevision, ← hspec, ← hcapabilities, ← hfeatures]
  exact h.publish (hdrawn.fits hnames)

/-- The health that is published is read from the instance. -/
theorem Truthful.publishInstance (h : Truthful options w) (hdrawn : Drawn options w launch)
    (hcontroller : launch.controller = handle.controller) (hhosted : Hosted w handle)
    (hepoch : handle.epoch = launch.revision.epoch)
    (hnames : state.isStopped = true ∨ state.target? = some launch.revision.epoch) :
    machine.eager.wp (Truthful options)
      (publishInstance handle state launch.sourceSpec launch.revision launch.capabilities
        launch.runtimeFeatures) (fun _ w' => Steady options w w') w := by
  refine wp_seq (Q := fun status w' => Steady options w w' ∧
    status ∈ (w'.processes handle.id).reads) ?_ ?_
  · refine wp_entitled h trivial fun status hallowed hstep => ⟨⟨hstep, .step hallowed, rfl⟩, ?_⟩
    simp [World.step, World.observe]
  · rintro status w₁ ⟨hw₁, hread⟩
    have hlater := hhosted.later hw₁.later
    refine wp_seq (Q := fun _ w' => Steady options w w') ?_ fun _ _ hw' => hw'
    refine wp_entitled hw₁.truthful ⟨hnames, ?_, Or.inr ?_⟩ fun now hallowed hstep =>
      hw₁.trans ⟨hstep, .step hallowed, rfl⟩
    · exact ⟨launch, hdrawn.later hw₁.later, rfl, rfl, by rw [hcontroller]⟩
    · exact ⟨handle.id, hlater.spawned, hlater.process.trans hepoch, status, hread, rfl⟩

theorem Sourced.publishActive (h : Truthful options w) (hactive : Sourced options w active)
    (hnames : state.isStopped = true ∨ state.target? = some active.handle.epoch) :
    machine.eager.wp (Truthful options) (publishActive active state)
      (fun _ w' => Steady options w w') w := by
  obtain ⟨launch, hdrawn, hcontroller, hrevision, hspec, hcapabilities, hfeatures⟩ := hactive.cases
  have hepoch : active.handle.epoch = launch.revision.epoch :=
    hactive.epoch.trans (by rw [hrevision])
  rw [hepoch] at hnames
  unfold Manager.publishActive
  rw [← hrevision, ← hspec, ← hcapabilities, ← hfeatures]
  exact h.publishInstance hdrawn hcontroller hactive.hosted hepoch hnames

theorem Truthful.publishTerminalError {error : Error} (h : Truthful options w) :
    Keeps options (publishTerminalError error) w :=
  wp_imp (h.publish ⟨rfl, rfl⟩) fun _ _ hw' => hw'.truthful

theorem Truthful.failTerminally {error : Error} (h : Truthful options w) :
    Keeps options (failTerminally (α := α) error) w :=
  keeps_seq h.publishTerminalError fun _ _ hw' => hw'

theorem Truthful.getCtrl (h : Truthful options w) :
    machine.eager.wp (Truthful options) getCtrl (fun ctrl w' => ctrl = w.ctrl ∧ w = w') w :=
  wp_entitled h trivial fun _ hallowed _ => ⟨hallowed, rfl⟩

theorem Truthful.quarantineEpoch {epoch : ℕ} {reason : String} (h : Truthful options w) :
    Keeps options (quarantineEpoch epoch reason) w := by
  refine wp_seq h.getCtrl ?_
  rintro _ _ ⟨rfl, rfl⟩
  exact keeps_seq (h.performs trivial) fun _ _ hw' => hw'

theorem Truthful.latchQuarantine {epoch : ℕ} {error : Error} (h : Truthful options w) :
    Keeps options (latchQuarantine epoch error) w := by
  refine keeps_seq h.quarantineEpoch fun quarantine w₁ hw₁ => ?_
  split
  · exact keeps_seq hw₁.publishTerminalError fun _ _ hw' => hw'
  · exact hw₁

theorem Truthful.latchUnconfirmed {epoch : ℕ} {error : Error} {otherwise : Action (Except Error α)}
    (h : Truthful options w) (hotherwise : Keeps options otherwise w) :
    Keeps options (latchUnconfirmed epoch error otherwise) w := by
  unfold Manager.latchUnconfirmed
  split
  · exact keeps_seq h.latchQuarantine fun _ _ hw' => hw'
  · exact hotherwise

/-- `republish_retained`. -/
theorem Truthful.republishRetained (h : Truthful options w) :
    Keeps options republishRetained w := by
  refine wp_seq h.getCtrl ?_
  rintro _ _ ⟨rfl, rfl⟩
  cases hcurrent : w.ctrl.current with
  | none => exact h
  | some active =>
    refine wp_seq (h.ignore (uses_perform trivial)) fun status w₁ hw₁ => ?_
    have hactive := (h.current active hcurrent).later hw₁.later
    exact wp_imp (hactive.publishActive hw₁.truthful (names_instanceCoreState _ _))
      fun _ _ hw' => hw'.truthful

theorem Truthful.refuse {epoch : ℕ} {error : Error} {publication : Action Unit}
    (h : Truthful options w)
    (hpublication : ∀ w', Truthful options w' → Keeps options publication w') :
    Keeps options (refuse (α := α) options epoch error publication) w := by
  refine keeps_seq (h.keeps cleanupEpoch_plain) fun _ w₁ hw₁ => ?_
  exact keeps_seq (hpublication w₁ hw₁) fun _ _ hw' => hw'

end Publications

section Installs

/-! ## What is installed -/

variable {options : Options} {w w' : World} {launch : PreparedLaunch} {handle : Instance}
  {active : Active} {α : Type}

/-- A process that was spawned for a launch. -/
structure Bound (options : Options) (w : World) (launch : PreparedLaunch) (handle : Instance) :
    Prop where
  drawn : Drawn options w launch
  controller : launch.controller = handle.controller
  epoch : handle.epoch = launch.revision.epoch
  hosted : Hosted w handle

theorem Bound.later (h : Bound options w launch handle) (hw : Later w w') :
    Bound options w' launch handle :=
  ⟨h.drawn.later hw, h.controller, h.epoch, h.hosted.later hw⟩

theorem Bound.sourced (h : Bound options w launch handle) (forwarder : Forwarder) :
    Sourced options w (launch.activate handle forwarder) :=
  ⟨⟨launch, h.drawn, h.controller, rfl⟩, h.epoch, h.hosted⟩

/-- Another process with the same controller takes the place of the old one. -/
theorem Sourced.reinstate (h : Sourced options w active)
    (hcontroller : handle.controller = active.handle.controller)
    (hepoch : handle.epoch = active.revision.epoch) (hhosted : Hosted w handle)
    (forwarder : Forwarder) : Sourced options w (active.reinstate handle forwarder) := by
  obtain ⟨launch, hdrawn, hlaunch, heq⟩ := h.launch
  refine ⟨⟨launch, hdrawn, hlaunch.trans hcontroller.symm, ?_⟩, hepoch, hhosted⟩
  rw [Active.reinstate, heq]
  rfl

theorem Truthful.spawnForwarder {epoch : ℕ} (h : Truthful options w) (hhosted : Hosted w handle)
    (hepoch : handle.epoch = epoch) :
    machine.eager.wp (Truthful options) (spawnForwarder handle epoch)
      (fun _ w' => Steady options w w') w := by
  subst hepoch
  refine wp_seq (Q := fun _ w' => Steady options w w') ?_ fun _ _ hw' => hw'
  exact wp_entitled h ⟨hhosted.spawned, hhosted.process⟩ fun _ hallowed hstep =>
    ⟨hstep, .step hallowed, rfl⟩

theorem Truthful.pid (h : Truthful options w) :
    machine.eager.wp (Truthful options) handle.pid (fun _ w' => Steady options w w') w :=
  h.ignore (uses_bind (uses_perform trivial) fun _ => trivial)

/-- `install_switched`. -/
theorem Bound.installSwitched (h : Truthful options w) (hbound : Bound options w launch handle) :
    Keeps options (installSwitched handle launch) w := by
  refine wp_seq h.pid fun pid w₁ hw₁ => ?_
  have hbound₁ := hbound.later hw₁.later
  refine wp_seq (hw₁.truthful.publishInstance hbound₁.drawn hbound₁.controller hbound₁.hosted
    hbound₁.epoch (Or.inr rfl)) fun _ w₂ hw₂ => ?_
  have hbound₂ := hbound₁.later hw₂.later
  refine wp_seq (hw₂.truthful.spawnForwarder hbound₂.hosted hbound₂.epoch) fun f w₃ hw₃ => ?_
  have hbound₃ := hbound₂.later hw₃.later
  refine wp_seq (Q := fun _ w' => Truthful options w' ∧ Later w₃ w') ?_ fun _ w₄ hw₄ => ?_
  · exact wp_entitled hw₃.truthful trivial fun _ hallowed hstep => ⟨hstep, .step hallowed⟩
  · exact hw₄.1.performs ((hbound₃.later hw₄.2).sourced f)

/-- The install of a replacement. -/
theorem Truthful.installReplacement {activate : Forwarder → Active} {epoch : ℕ}
    (h : Truthful options w) (hhosted : Hosted w handle) (hepoch : handle.epoch = epoch)
    (hhandle : ∀ f, (activate f).handle = handle)
    (hsourced : ∀ w' f, Later w w' → Sourced options w' (activate f)) :
    Keeps options (installReplacement activate handle epoch) w := by
  refine wp_seq h.pid fun pid w₁ hw₁ => ?_
  refine wp_seq (hw₁.truthful.spawnForwarder (hhosted.later hw₁.later) hepoch) fun f w₂ hw₂ => ?_
  have hlater₂ := hw₁.later.trans hw₂.later
  refine wp_seq (Q := fun _ w' => Truthful options w' ∧ Later w w') ?_ fun _ w₃ hw₃ => ?_
  · exact wp_entitled hw₂.truthful trivial fun _ hallowed hstep =>
      ⟨hstep, hlater₂.trans (.step hallowed)⟩
  refine wp_seq (Q := fun _ w' => Truthful options w' ∧ Later w w') ?_ fun _ w₄ hw₄ => ?_
  · exact wp_entitled hw₃.1 (hsourced w₃ f hw₃.2) fun _ hallowed hstep =>
      ⟨hstep, hw₃.2.trans (.step hallowed)⟩
  refine wp_imp ((hsourced w₄ f hw₄.2).publishActive hw₄.1 ?_) fun _ _ hw' => hw'.truthful
  rw [hhandle f, hepoch]
  exact Or.inr rfl

/-- Every program goes on from what was. -/
theorem wp_later (p : Action α) (w : World) :
    machine.wp (fun _ => True) p (fun _ w' => Later w w') w := by
  suffices hgeneral : ∀ w', Later w w' → machine.wp (fun _ => True) p (fun _ w'' => Later w w'') w'
    from hgeneral w (.refl w)
  induction p with
  | ret value => exact fun _ hw' => hw'
  | call effect next ih =>
    intro w' hw'
    refine ⟨fun _ => trivial, fun answer hanswer => ⟨fun _ => trivial, ?_⟩⟩
    exact ih answer _ (hw'.trans (.step hanswer))

/-- A spawned process, for the launch whose controller it was given. -/
theorem spawnInstance_hosted {site : LaunchSite} {spec : InstanceSpec} {epoch : ℕ}
    {controller : ResolvedController} :
    machine.wp (fun _ => True) (spawnInstance options site spec epoch controller)
      (fun result w' => ∀ handle, result = .ok handle → handle.controller = controller ∧
        handle.epoch = epoch ∧ Hosted w' handle) w := by
  refine wp_imp (spawnInstance_spec (fun _ _ => trivial) fun _ _ => trivial) ?_
  rintro result w' hresult handle rfl
  obtain ⟨rfl, hspawned⟩ := hresult
  refine ⟨rfl, rfl, ?_, ?_⟩
  · rw [hspawned.spawned]
    exact Nat.lt_succ_self _
  · rw [hspawned.fresh]
    rfl

theorem spawnReplacement_hosted {spec : InstanceSpec} {epoch : ℕ}
    {controller : ResolvedController} :
    machine.wp (fun _ => True) (spawnReplacement options spec epoch controller)
      (fun result w' => ∀ handle, result = .ok handle → handle.controller = controller ∧
        handle.epoch = epoch ∧ Hosted w' handle) w := by
  refine wp_andThen spawnInstance_hosted ?_ fun error w' _ handle hok => by cases hok
  intro handle w₁ hhandle
  obtain ⟨hcontroller, hepoch, hhosted⟩ := hhandle handle rfl
  refine wp_seq (wp_later handle.waitReady w₁) fun ready w₂ hw₂ => ?_
  cases ready with
  | ok value =>
    intro handle' hok
    obtain rfl := Except.ok.inj hok
    exact ⟨hcontroller, hepoch, hhosted.later hw₂⟩
  | error error =>
    refine wp_seq (wp_later (handle.stopAndConfirmDead options) w₂) fun stopped w₃ _ => ?_
    cases stopped with
    | ok value =>
      intro handle' hok
      cases hok
    | error stopError =>
      intro handle' hok
      cases hok

theorem load_drawn {path : Path} :
    machine.wp (fun _ => True) (load path)
      (fun result w' => ∀ snapshot, result = .ok snapshot → snapshot ∈ w'.history.loads) w := by
  refine wp_perform (fun _ => trivial) fun answer _ => ⟨fun _ => trivial, ?_⟩
  rintro snapshot rfl
  exact List.mem_cons_self

/-- The instance that the manager held is in the hand of the operation. -/
theorem Truthful.takeCurrent (h : Truthful options w) :
    machine.eager.wp (Truthful options) takeCurrent (fun current w' =>
      (∀ active, current = some active → Sourced options w' active) ∧ Truthful options w') w := by
  refine wp_entitled h trivial fun current hallowed hstep => ⟨fun active hactive => ?_, hstep⟩
  have hcurrent : w.ctrl.current = some active := hallowed.symm.trans hactive
  exact (h.current active hcurrent).later (.step hallowed)

end Installs

section Operations

/-! ## The operations -/

variable {options : Options} {w : World} {launch : PreparedLaunch} {handle : Instance}
  {active : Active} {spec : InstanceSpec} {snapshot : ConfigSnapshot}
  {resolved : ResolvedFeatures}

theorem Drawn.startPrepared (h : Truthful options w) (hdrawn : Drawn options w launch) :
    Keeps options (startPrepared options launch) w := by
  refine wp_seq (h.announce hdrawn (Or.inr rfl)) fun _ w₁ hw₁ => ?_
  refine wp_seq (hw₁.truthful.plain spawnInstance_plain spawnInstance_hosted) ?_
  rintro spawned w₂ ⟨hhandle, hw₂⟩
  cases spawned with
  | error error => exact hw₂.truthful.refuse fun _ hw' => hw'.publishTerminalError
  | ok handle =>
    obtain ⟨hcontroller, hepoch, hhosted⟩ := hhandle handle rfl
    have hbound : Bound options w₂ launch handle :=
      ⟨hdrawn.later (hw₁.later.trans hw₂.later), hcontroller.symm, hepoch, hhosted⟩
    refine wp_seq (hw₂.truthful.ignore waitReady_plain) fun ready w₃ hw₃ => ?_
    cases ready with
    | error readinessError =>
      refine wp_seq (hw₃.truthful.ignore stopAndConfirmDead_plain) fun stopped w₄ hw₄ => ?_
      cases stopped with
      | ok value => exact hw₄.truthful.refuse fun _ hw' => hw'.publishTerminalError
      | error stopError => exact keeps_seq hw₄.truthful.latchQuarantine fun _ _ hw' => hw'
    | ok value =>
      exact keeps_seq ((hbound.later hw₃.later).installSwitched hw₃.truthful) fun _ _ hw' => hw'

/-- A launch that was prepared from a loaded document. -/
theorem prepareLaunch_drawn {epoch : ℕ} (hsnapshot : snapshot ∈ w.history.loads) :
    machine.wp (fun _ => True) (prepareLaunch options spec epoch snapshot)
      (fun result w' => ∀ launch, result = .ok launch →
        Drawn options w' launch ∧ launch.revision.epoch = epoch) w := by
  refine wp_imp (prepareLaunch_spec fun _ _ => trivial) ?_
  rintro result w' ⟨hquiet, hprepared⟩ launch hlaunch
  have hfrom := (hprepared launch hlaunch).1
  refine ⟨⟨snapshot, hquiet.later.loads hsnapshot, spec, epoch, 1, hfrom⟩, ?_⟩
  obtain ⟨resolved, managed, prepared, -, rfl⟩ := hfrom
  rfl

theorem prepareLaunchWithFeatures_drawn {epoch : ℕ} (hsnapshot : snapshot ∈ w.history.loads) :
    machine.wp (fun _ => True) (prepareLaunchWithFeatures options spec epoch snapshot resolved)
      (fun result w' => ∀ launch, result = .ok launch →
        Drawn options w' launch ∧ launch.revision.epoch = epoch) w := by
  refine wp_imp (prepareLaunchWithFeatures_spec fun _ _ => trivial) ?_
  rintro result w' ⟨hquiet, hprepared⟩ launch hlaunch
  have hfrom := (hprepared launch hlaunch).1
  refine ⟨⟨snapshot, hquiet.later.loads hsnapshot, spec, epoch, 1, hfrom⟩, ?_⟩
  obtain ⟨resolved, managed, prepared, -, rfl⟩ := hfrom
  rfl

theorem Truthful.startLocked (h : Truthful options w) :
    Keeps options (startLocked options spec) w := by
  refine keeps_seq (h.performs trivial) fun epoch w₁ hw₁ => ?_
  refine wp_seq (hw₁.plain (uses_perform trivial) load_drawn) ?_
  rintro loaded w₂ ⟨hsnapshot, hw₂⟩
  cases loaded with
  | error error => exact hw₂.truthful.failTerminally
  | ok snapshot =>
    refine wp_seq (hw₂.truthful.plain prepareLaunch_plain
      (prepareLaunch_drawn (hsnapshot snapshot rfl))) ?_
    rintro prepared w₃ ⟨hdrawn, hw₃⟩
    cases prepared with
    | error error => exact hw₃.truthful.refuse fun _ hw' => hw'.publishTerminalError
    | ok launch => exact (hdrawn launch rfl).1.startPrepared hw₃.truthful

theorem isRunning_plain {current : Option Active} : (isRunning current).Uses Effect.Plain := by
  cases current with
  | none => trivial
  | some active => exact uses_bind (uses_perform trivial) fun _ => trivial

theorem Truthful.discardStale (h : Truthful options w) :
    Keeps options (discardStale options) w := by
  refine wp_seq h.takeCurrent ?_
  rintro current w₁ ⟨-, hw₁⟩
  cases current with
  | none => exact hw₁
  | some stale =>
    refine keeps_seq (hw₁.keeps abortAndAwait_plain) fun _ w₂ hw₂ => ?_
    refine keeps_seq (hw₂.keeps stopAndConfirmDead_plain) fun stopped w₃ hw₃ => ?_
    cases stopped with
    | error error => exact hw₃.latchUnconfirmed hw₃
    | ok value =>
      refine keeps_seq (hw₃.keeps cleanupEpoch_plain) fun cleaned w₄ hw₄ => ?_
      cases cleaned with
      | error error => exact keeps_seq (hw₄.performs trivial) fun _ _ hw' => hw'
      | ok value => exact hw₄

theorem Truthful.start (h : Truthful options w) : Keeps options (start options spec) w := by
  refine wp_seq h.getCtrl ?_
  rintro _ _ ⟨rfl, rfl⟩
  split
  · exact h
  refine keeps_seq (h.keeps isRunning_plain) fun running w₁ hw₁ => ?_
  split
  · exact hw₁
  · exact keeps_andThen hw₁.discardStale fun _ _ hw₂ => hw₂.startLocked

theorem Truthful.publishStopped (h : Truthful options w) : Keeps options publishStopped w :=
  wp_seq (h.publish ⟨rfl, rfl⟩) fun _ _ hw' => hw'.truthful

theorem Truthful.stopTaken {finish : Action (Except Error Unit)} (h : Truthful options w)
    (hfinish : ∀ w', Truthful options w' → Keeps options finish w') :
    Keeps options (stopTaken options handle finish) w := by
  refine keeps_seq (h.keeps stopAndConfirmDead_plain) fun stopped w₁ hw₁ => ?_
  cases stopped with
  | error error => exact hw₁.latchUnconfirmed hw₁.failTerminally
  | ok value =>
    refine keeps_seq (hw₁.keeps cleanupEpoch_plain) fun cleaned w₂ hw₂ => ?_
    cases cleaned with
    | error error => exact hw₂.failTerminally
    | ok value => exact hfinish w₂ hw₂

theorem Truthful.stop (h : Truthful options w) : Keeps options (stop options) w := by
  refine wp_seq h.takeCurrent ?_
  rintro current w₁ ⟨hsourced, hw₁⟩
  cases current with
  | none => exact hw₁
  | some active =>
    have hactive := hsourced active rfl
    refine wp_seq (hw₁.ignore (uses_perform trivial)) fun captured w₂ hw₂ => ?_
    refine wp_seq (hw₂.truthful.ignore abortAndAwait_plain) fun _ w₃ hw₃ => ?_
    have hactive₃ := hactive.later (hw₂.later.trans hw₃.later)
    split
    · refine wp_seq (hactive₃.publishLaunch hw₃.truthful (names_instanceCoreState _ _))
        fun _ w₄ hw₄ => ?_
      refine keeps_seq (hw₄.truthful.keeps stopAndConfirmDead_plain) fun stopped w₅ hw₅ => ?_
      cases stopped with
      | error error => exact hw₅.latchUnconfirmed hw₅
      | ok value =>
        refine keeps_seq (hw₅.keeps cleanupEpoch_plain) fun cleaned w₆ hw₆ => ?_
        cases cleaned with
        | error error => exact hw₆.failTerminally
        | ok value => exact hw₆
    · refine wp_seq (hactive₃.publishLaunch hw₃.truthful (Or.inr rfl)) fun _ w₄ hw₄ => ?_
      exact hw₄.truthful.stopTaken fun _ hw' => hw'.publishStopped

theorem Truthful.shutdown (h : Truthful options w) : Keeps options (shutdown options) w := by
  refine keeps_seq ?_ fun result w₁ hw₁ =>
    keeps_seq (hw₁.performs trivial) fun _ _ hw' => hw'
  refine wp_seq h.takeCurrent ?_
  rintro current w₁ ⟨hsourced, hw₁⟩
  cases current with
  | none => exact hw₁
  | some active =>
    refine wp_seq (hw₁.ignore abortAndAwait_plain) fun _ w₂ hw₂ => ?_
    refine wp_seq (((hsourced active rfl).later hw₂.later).publishLaunch hw₂.truthful
      (Or.inr rfl)) fun _ w₃ hw₃ => ?_
    exact hw₃.truthful.stopTaken fun _ hw' => hw'.publishStopped

theorem Truthful.hardSwitch (h : Truthful options w) (hsnapshot : snapshot ∈ w.history.loads) :
    Keeps options (hardSwitch options spec snapshot resolved) w := by
  refine wp_seq (h.ignore (uses_perform trivial)) fun epoch w₁ hw₁ => ?_
  refine wp_seq (hw₁.truthful.plain prepareLaunchWithFeatures_plain
    (prepareLaunchWithFeatures_drawn (hw₁.later.loads hsnapshot))) ?_
  rintro prepared w₂ ⟨hdrawn, hw₂⟩
  cases prepared with
  | error error => exact hw₂.truthful.refuse fun _ hw' => hw'.republishRetained
  | ok launch =>
    obtain ⟨hdrawn, hepoch⟩ := hdrawn launch rfl
    refine wp_seq hw₂.truthful.getCtrl ?_
    rintro _ _ ⟨rfl, rfl⟩
    refine wp_seq (hw₂.truthful.announce hdrawn (Or.inr (congrArg some hepoch.symm)))
      fun _ w₃ hw₃ => ?_
    have hdrawn₃ := hdrawn.later hw₃.later
    refine wp_seq (Q := fun _ w' => Truthful options w' ∧ Drawn options w' launch) ?_ ?_
    · exact wp_entitled hw₃.truthful trivial fun _ hallowed hstep =>
        ⟨hstep, hdrawn₃.later (.step hallowed)⟩
    rintro current w₄ ⟨hw₄, hdrawn₄⟩
    cases current with
    | none => exact hw₄
    | some old =>
      refine wp_seq (hw₄.ignore abortAndAwait_plain) fun _ w₅ hw₅ => ?_
      refine wp_seq (hw₅.truthful.ignore stopAndConfirmDead_plain) fun stopped w₆ hw₆ => ?_
      cases stopped with
      | error error =>
        refine keeps_seq (hw₆.truthful.keeps cleanupEpoch_plain) fun _ w₇ hw₇ => ?_
        exact hw₇.latchUnconfirmed hw₇.failTerminally
      | ok value =>
        refine wp_seq (hw₆.truthful.ignore cleanupEpoch_plain) fun cleaned w₇ hw₇ => ?_
        cases cleaned with
        | error error => exact hw₇.truthful.failTerminally
        | ok value =>
          have hdrawn₇ := hdrawn₄.later ((hw₅.later.trans hw₆.later).trans hw₇.later)
          exact hdrawn₇.startPrepared hw₇.truthful

theorem Bound.finishSwitch {oldEpoch : ℕ} {outcome : SwitchOutcome} {warning : Option String}
    (h : Truthful options w) (hbound : Bound options w launch handle) :
    Keeps options (finishSwitch options handle launch oldEpoch outcome warning) w := by
  refine keeps_seq (hbound.installSwitched h) fun _ w₁ hw₁ => ?_
  refine keeps_seq (hw₁.keeps cleanupEpoch_plain) fun cleaned w₂ hw₂ => ?_
  cases cleaned with
  | error error => exact keeps_seq (hw₂.performs trivial) fun _ _ hw' => hw'
  | ok value => exact hw₂

theorem Drawn.replaceBootstrap {oldEpoch : ℕ} {warning : Option String} (h : Truthful options w)
    (hdrawn : Drawn options w launch) :
    Keeps options (replaceBootstrap options handle launch oldEpoch warning) w := by
  refine wp_seq (h.ignore stopAndConfirmDead_plain) fun stopped w₁ hw₁ => ?_
  cases stopped with
  | error error =>
    exact keeps_seq (hw₁.truthful.latchUnconfirmed hw₁.truthful.failTerminally)
      fun _ _ hw' => hw'
  | ok value =>
    refine wp_seq (hw₁.truthful.plain spawnReplacement_plain spawnReplacement_hosted) ?_
    rintro spawned w₂ ⟨hreplacement, hw₂⟩
    cases spawned with
    | ok replacement =>
      obtain ⟨hcontroller, hepoch, hhosted⟩ := hreplacement replacement rfl
      have hbound : Bound options w₂ launch replacement :=
        ⟨hdrawn.later (hw₁.later.trans hw₂.later), hcontroller.symm, hepoch, hhosted⟩
      exact hbound.finishSwitch hw₂.truthful
    | error error =>
      dsimp only
      split
      · exact keeps_seq hw₂.truthful.latchQuarantine fun _ _ hw' => hw'
      · refine keeps_seq (hw₂.truthful.keeps cleanupEpoch_plain) fun _ w₃ hw₃ => ?_
        exact keeps_seq hw₃.publishTerminalError fun _ _ hw' => hw'

theorem Bound.commitFull {prepared : PreparedGraceful} {oldEpoch : ℕ} (h : Truthful options w)
    (hbound : Bound options w prepared.launch handle) :
    Keeps options (commitFull options handle prepared oldEpoch) w := by
  refine wp_seq (h.ignore commitReplace_plain) fun committed w₁ hw₁ => ?_
  have hbound₁ := hbound.later hw₁.later
  cases committed with
  | error error =>
    refine keeps_seq (hw₁.truthful.keeps stopAndConfirmDead_plain) fun stopped w₂ hw₂ => ?_
    cases stopped with
    | ok value =>
      refine keeps_seq (hw₂.keeps cleanupEpoch_plain) fun _ w₃ hw₃ => ?_
      exact hw₃.latchUnconfirmed hw₃.failTerminally
    | error newError => exact keeps_seq hw₂.latchQuarantine fun _ _ hw' => hw'
  | ok commit =>
    refine wp_seq (hw₁.truthful.ignore reconcileBootstrap_plain) fun restored w₂ hw₂ => ?_
    have hbound₂ := hbound₁.later hw₂.later
    split
    · exact hbound₂.finishSwitch hw₂.truthful
    · exact hbound₂.drawn.replaceBootstrap hw₂.truthful

theorem Truthful.abandonBootstrap {fullStaged : Artifact} {oldEpoch : ℕ} {error : Error}
    (h : Truthful options w) :
    Keeps options (abandonBootstrap options handle fullStaged oldEpoch error) w := by
  refine keeps_seq (h.keeps dropStaged_plain) fun _ w₁ hw₁ => ?_
  refine keeps_seq (hw₁.keeps stopAndConfirmDead_plain) fun stopped w₂ hw₂ => ?_
  cases stopped with
  | ok value =>
    refine keeps_seq (hw₂.keeps cleanupEpoch_plain) fun _ w₃ hw₃ => ?_
    exact hw₃.latchUnconfirmed hw₃.failTerminally
  | error newError =>
    dsimp only
    split
    · refine keeps_seq hw₂.quarantineEpoch fun _ w₃ hw₃ => ?_
      exact keeps_seq hw₃.latchQuarantine fun _ _ hw' => hw'
    · exact keeps_seq hw₂.latchQuarantine fun _ _ hw' => hw'

theorem Truthful.rejectBootstrap {fullStaged : Artifact} {error : Error} (h : Truthful options w) :
    Keeps options (rejectBootstrap options handle fullStaged error) w := by
  refine keeps_seq (h.keeps dropStaged_plain) fun _ w₁ hw₁ => ?_
  refine keeps_seq (hw₁.keeps stopAndConfirmDead_plain) fun stopped w₂ hw₂ => ?_
  cases stopped with
  | ok value => exact hw₂.refuse fun _ hw' => hw'.republishRetained
  | error stopError => exact keeps_seq hw₂.latchQuarantine fun _ _ hw' => hw'

theorem Bound.handOver {prepared : PreparedGraceful} (h : Truthful options w)
    (hbound : Bound options w prepared.launch handle) :
    Keeps options (handOver options handle prepared) w := by
  refine wp_seq (Q := fun _ w' => Truthful options w' ∧ Later w w') ?_ ?_
  · exact wp_entitled h trivial fun _ hallowed hstep => ⟨hstep, .step hallowed⟩
  rintro current w₁ ⟨hw₁, hlater⟩
  cases current with
  | none => exact hw₁
  | some old =>
    refine wp_seq (hw₁.ignore abortAndAwait_plain) fun _ w₂ hw₂ => ?_
    refine wp_seq (hw₂.truthful.ignore stopAndConfirmDead_plain) fun stopped w₃ hw₃ => ?_
    cases stopped with
    | error error => exact hw₃.truthful.abandonBootstrap
    | ok value =>
      exact (hbound.later (hlater.trans (hw₂.later.trans hw₃.later))).commitFull hw₃.truthful

theorem prepareGraceful_drawn {epoch : ℕ} (hsnapshot : snapshot ∈ w.history.loads) :
    machine.wp (fun _ => True) (prepareGraceful options spec epoch snapshot resolved)
      (fun result w' => ∀ prepared, result = .ok prepared →
        Drawn options w' prepared.launch ∧ prepared.launch.revision.epoch = epoch) w := by
  refine wp_imp (prepareGraceful_spec fun _ _ => trivial) ?_
  rintro result w' ⟨hquiet, hprepared⟩ prepared hresult
  have hfrom := (hprepared prepared hresult).1
  refine ⟨⟨snapshot, hquiet.later.loads hsnapshot, spec, epoch, 1, hfrom⟩, ?_⟩
  obtain ⟨resolved, managed, config, -, heq⟩ := hfrom
  rw [heq]
  rfl

theorem Truthful.gracefulSwitch (h : Truthful options w) (hsnapshot : snapshot ∈ w.history.loads) :
    Keeps options (gracefulSwitch options spec snapshot resolved) w := by
  refine wp_seq h.getCtrl ?_
  rintro _ _ ⟨rfl, rfl⟩
  refine wp_seq (h.ignore (uses_perform trivial)) fun epoch w₁ hw₁ => ?_
  refine wp_seq (hw₁.truthful.plain prepareGraceful_plain
    (prepareGraceful_drawn (hw₁.later.loads hsnapshot))) ?_
  rintro result w₂ ⟨hdrawn, hw₂⟩
  cases result with
  | error error => exact hw₂.truthful.refuse fun _ hw' => hw'.republishRetained
  | ok prepared =>
    obtain ⟨hdrawn, hepoch⟩ := hdrawn prepared rfl
    refine wp_seq (hw₂.truthful.announce hdrawn (Or.inr (congrArg some hepoch.symm)))
      fun _ w₃ hw₃ => ?_
    refine wp_seq (hw₃.truthful.plain spawnInstance_plain spawnInstance_hosted) ?_
    rintro spawned w₄ ⟨hhandle, hw₄⟩
    cases spawned with
    | error error =>
      refine keeps_seq (hw₄.truthful.keeps dropStaged_plain) fun _ w₅ hw₅ => ?_
      exact hw₅.refuse fun _ hw' => hw'.republishRetained
    | ok handle =>
      obtain ⟨hcontroller, hown, hhosted⟩ := hhandle handle rfl
      have hbound : Bound options w₄ prepared.launch handle :=
        ⟨hdrawn.later (hw₃.later.trans hw₄.later), hcontroller.symm, hown.trans hepoch.symm,
          hhosted⟩
      refine wp_seq (hw₄.truthful.ignore waitReady_plain) fun ready w₅ hw₅ => ?_
      cases ready with
      | error error => exact hw₅.truthful.rejectBootstrap
      | ok value => exact (hbound.later hw₅.later).handOver hw₅.truthful

theorem Truthful.switchLocked (h : Truthful options w) :
    Keeps options (switchLocked options spec) w := by
  refine wp_seq h.getCtrl ?_
  rintro _ _ ⟨rfl, rfl⟩
  refine keeps_seq (h.keeps isRunning_plain) fun running w₁ hw₁ => ?_
  split
  · refine wp_andThen (hw₁.plain (uses_perform trivial) load_drawn) ?_ fun _ _ hw' =>
      hw'.2.truthful
    rintro snapshot w₂ ⟨hsnapshot, hw₂⟩
    refine wp_andThen (hw₂.truthful.ignore validateLaunchable_plain) ?_ fun _ _ hw' => hw'.truthful
    intro _ w₃ hw₃
    refine wp_andThen (hw₃.truthful.ignore (uses_perform trivial)) ?_ fun _ _ hw' => hw'.truthful
    intro resolved w₄ hw₄
    have hloaded := (hw₃.later.trans hw₄.later).loads (hsnapshot snapshot rfl)
    split
    · exact keeps_andThen (hw₄.truthful.hardSwitch hloaded) fun _ _ hw' => hw'
    · exact hw₄.truthful.gracefulSwitch hloaded
  · refine keeps_andThen hw₁.discardStale fun _ w₂ hw₂ => ?_
    exact keeps_andThen hw₂.startLocked fun _ _ hw' => hw'

theorem Truthful.switch (h : Truthful options w) : Keeps options (switch options spec) w := by
  refine wp_seq h.getCtrl ?_
  rintro _ _ ⟨rfl, rfl⟩
  split
  · exact h
  · exact h.switchLocked

theorem Truthful.restart (h : Truthful options w) : Keeps options (restart options) w := by
  refine wp_seq h.getCtrl ?_
  rintro _ _ ⟨rfl, rfl⟩
  split
  · exact h
  split
  · exact h
  · exact h.switchLocked

end Operations

section Applies

/-! ## Applying and recovering -/

variable {options : Options} {w w' : World} {launch desired : PreparedLaunch} {old current : Active}
  {input : InstanceSpec} {snapshot : ConfigSnapshot} {saved : RuntimeConfigBackup}

/-- A change that does not switch is made through the controller of the running core. -/
theorem Drawn.controller_eq {change : ConfigChange} (h : Drawn options w launch)
    (hdesired : Drawn options w' desired)
    (hclassify : classify options.ip options.debugOptions launch.sourceDocument.entries
      launch.effectiveDocument.entries launch.sourceSpec desired.sourceDocument.entries
      desired.effectiveDocument.entries desired.sourceSpec = .ok change)
    (hchange : change ≠ .switch) : desired.controller = launch.controller := by
  obtain ⟨_, -, _, _, _, _, _, preparedA, ha, rfl⟩ := h
  obtain ⟨_, -, _, _, _, _, _, preparedB, hb, rfl⟩ := hdesired
  refine (controller_eq_of_agree ha hb fun key hkey => ?_).symm
  rcases (classify_cases hclassify hchange).2 with ⟨-, hdiff⟩ | hdocuments
  · have hsame : preparedA.document = preparedB.document := (diff_eq_nil_iff _ _).mp hdiff
    rw [hsame]
  · exact controllerFields_agree hdocuments hchange hkey

/-- The runtime path of a launch is the committed file of its epoch. -/
theorem Sourced.runtimePath (h : Sourced options w current) :
    current.revision.runtimePath = .runtime (.config current.revision.epoch) := by
  obtain ⟨launch, ⟨snapshot, -, spec, epoch, generation, resolved, managed, prepared, -, rfl⟩, -,
    heq⟩ := h.launch
  rw [heq]
  rfl

theorem Sourced.rollBack {applyText context : String} {finish : Action Unit}
    (h : Truthful options w) (hold : Sourced options w old)
    (hfinish : ∀ w', Truthful options w' → Keeps options finish w') :
    Keeps options (rollBack options old applyText context finish) w := by
  refine wp_seq (hold.publishLaunch h (Or.inr (congrArg some hold.epoch.symm))) fun _ w₁ hw₁ => ?_
  refine wp_seq (hw₁.truthful.plain spawnReplacement_plain spawnReplacement_hosted) ?_
  rintro spawned w₂ ⟨hhandle, hw₂⟩
  have hold₂ := hold.later (hw₁.later.trans hw₂.later)
  cases spawned with
  | ok handle =>
    obtain ⟨hcontroller, hepoch, hhosted⟩ := hhandle handle rfl
    refine keeps_seq (hw₂.truthful.installReplacement hhosted hepoch (fun _ => rfl)
      fun w' f hlater => ?_) fun _ w₃ hw₃ => ?_
    · exact (hold₂.later hlater).reinstate hcontroller hepoch (hhosted.later hlater) f
    · exact keeps_seq (hfinish w₃ hw₃) fun _ _ hw' => hw'
  | error error =>
    dsimp only
    split
    · exact keeps_seq hw₂.truthful.latchQuarantine fun _ _ hw' => hw'
    · exact hw₂.truthful.failTerminally

theorem Sourced.restoreAndRollBack {applyText : String} (h : Truthful options w)
    (hold : Sourced options w old) :
    Keeps options (restoreAndRollBack options old saved applyText) w := by
  refine wp_seq (h.ignore restore_plain) fun restored w₁ hw₁ => ?_
  cases restored with
  | error error => exact hw₁.truthful.failTerminally
  | ok commit =>
    refine keeps_seq ((hold.later hw₁.later).rollBack hw₁.truthful fun w' hw' => ?_)
      fun _ _ hw' => hw'
    exact keeps_seq (hw'.keeps removeBackup_plain) fun _ _ hw' => hw'

theorem Drawn.restartWithCompensation (h : Truthful options w) (hdrawn : Drawn options w desired) :
    Keeps options (restartWithCompensation options desired saved) w := by
  refine wp_seq (Q := fun current w' => (∀ active, current = some active →
    Sourced options w' active) ∧ Truthful options w' ∧ Later w w') ?_ ?_
  · refine wp_entitled h trivial fun taken hallowed hstep => ⟨fun active hactive => ?_, hstep,
      .step hallowed⟩
    exact (h.current active (hallowed.symm.trans hactive)).later (.step hallowed)
  rintro taken w₁ ⟨hsourced, hw₁, hlater⟩
  cases taken with
  | none => exact hw₁
  | some old =>
    refine wp_seq (hw₁.ignore abortAndAwait_plain) fun _ w₂ hw₂ => ?_
    refine wp_seq (hw₂.truthful.ignore stopAndConfirmDead_plain) fun stopped w₃ hw₃ => ?_
    cases stopped with
    | error error => exact hw₃.truthful.latchUnconfirmed hw₃.truthful.failTerminally
    | ok value =>
      have hlater₃ := hlater.trans (hw₂.later.trans hw₃.later)
      refine wp_seq (hw₃.truthful.announce (hdrawn.later hlater₃) (Or.inr rfl)) fun _ w₄ hw₄ => ?_
      refine wp_seq (hw₄.truthful.plain spawnReplacement_plain spawnReplacement_hosted) ?_
      rintro spawned w₅ ⟨hhandle, hw₅⟩
      have hlater₅ := hlater₃.trans (hw₄.later.trans hw₅.later)
      cases spawned with
      | ok handle =>
        obtain ⟨hcontroller, hepoch, hhosted⟩ := hhandle handle rfl
        have hbound : Bound options w₅ desired handle :=
          ⟨hdrawn.later hlater₅, hcontroller.symm, hepoch, hhosted⟩
        refine keeps_seq (hw₅.truthful.installReplacement hhosted hepoch (fun _ => rfl)
          fun w' f hw' => (hbound.later hw').sourced f) fun _ w₆ hw₆ => ?_
        exact keeps_seq (hw₆.keeps removeBackup_plain) fun _ _ hw' => hw'
      | error error =>
        dsimp only
        split
        · exact keeps_seq hw₅.truthful.latchQuarantine fun _ _ hw' => hw'
        · have hold := (hsourced old rfl).later ((hw₂.later.trans hw₃.later).trans
            (hw₄.later.trans hw₅.later))
          exact hold.restoreAndRollBack hw₅.truthful

theorem Truthful.switchWithCompensation (h : Truthful options w)
    (hsnapshot : snapshot ∈ w.history.loads) :
    Keeps options (switchWithCompensation options input snapshot) w := by
  refine wp_seq (h.ignore (uses_perform trivial)) fun epoch w₁ hw₁ => ?_
  refine wp_andThen (hw₁.truthful.plain prepareLaunch_plain
    (prepareLaunch_drawn (hw₁.later.loads hsnapshot))) ?_ fun _ _ hw' => hw'.2.truthful
  rintro desired w₂ ⟨hdrawn, hw₂⟩
  have hdrawn := (hdrawn desired rfl).1
  refine wp_seq (Q := fun current w' => (∀ active, current = some active →
    Sourced options w' active) ∧ Truthful options w' ∧ Later w₂ w') ?_ ?_
  · refine wp_entitled hw₂.truthful trivial fun taken hallowed hstep => ⟨fun active hactive => ?_,
      hstep, .step hallowed⟩
    exact (hw₂.truthful.current active (hallowed.symm.trans hactive)).later (.step hallowed)
  rintro taken w₃ ⟨hsourced, hw₃, hlater⟩
  cases taken with
  | none => exact hw₃
  | some old =>
    refine wp_seq (hw₃.ignore abortAndAwait_plain) fun _ w₄ hw₄ => ?_
    refine wp_seq (hw₄.truthful.ignore stopAndConfirmDead_plain) fun stopped w₅ hw₅ => ?_
    cases stopped with
    | error error =>
      refine keeps_seq (hw₅.truthful.keeps cleanupEpoch_plain) fun _ w₆ hw₆ => ?_
      exact hw₆.latchUnconfirmed hw₆.failTerminally
    | ok value =>
      have hlater₅ := hlater.trans (hw₄.later.trans hw₅.later)
      refine wp_seq (hw₅.truthful.announce (hdrawn.later hlater₅) (Or.inr rfl)) fun _ w₆ hw₆ => ?_
      refine wp_seq (hw₆.truthful.plain spawnReplacement_plain spawnReplacement_hosted) ?_
      rintro spawned w₇ ⟨hhandle, hw₇⟩
      have hlater₇ := hlater₅.trans (hw₆.later.trans hw₇.later)
      cases spawned with
      | ok handle =>
        obtain ⟨hcontroller, hepoch, hhosted⟩ := hhandle handle rfl
        have hbound : Bound options w₇ desired handle :=
          ⟨hdrawn.later hlater₇, hcontroller.symm, hepoch, hhosted⟩
        refine keeps_seq (hw₇.truthful.installReplacement hhosted hepoch (fun _ => rfl)
          fun w' f hw' => (hbound.later hw').sourced f) fun _ w₈ hw₈ => ?_
        exact keeps_seq (hw₈.keeps cleanupEpoch_plain) fun _ _ hw' => hw'
      | error error =>
        dsimp only
        split
        · exact keeps_seq hw₇.truthful.latchQuarantine fun _ _ hw' => hw'
        · have hold := (hsourced old rfl).later ((hw₄.later.trans hw₅.later).trans
            (hw₆.later.trans hw₇.later))
          refine wp_seq (hw₇.truthful.ignore cleanupEpoch_plain) fun _ w₈ hw₈ => ?_
          exact (hold.later hw₈.later).rollBack hw₈.truthful fun _ hw' => hw'

/-- The held instance can take the desired launch in its place. -/
def Adopts (w : World) (desired : PreparedLaunch) : Prop :=
  ∀ active, w.ctrl.current = some active →
    desired.controller = active.handle.controller ∧ active.handle.epoch = desired.revision.epoch

theorem Drawn.adoptInPlace {outcome : ApplyOutcome} {warning : Option String}
    (h : Truthful options w) (hdrawn : Drawn options w desired) (hadopts : Adopts w desired) :
    Keeps options (adoptInPlace desired saved outcome warning) w := by
  refine wp_seq h.getCtrl ?_
  rintro _ _ ⟨rfl, rfl⟩
  split
  · exact h
  next held hcurrent =>
    obtain ⟨hcontroller, hepoch⟩ := hadopts held hcurrent
    have hsourced : ∀ w', Later w w' →
        Sourced options w' (desired.activate held.handle held.forwarder) := by
      intro w' hw'
      have hbound : Bound options w desired held.handle :=
        ⟨hdrawn, hcontroller, hepoch, (h.current held hcurrent).hosted⟩
      exact (hbound.later hw').sourced held.forwarder
    refine wp_seq (Q := fun _ w' => Truthful options w' ∧ Later w w') ?_ fun _ w₁ hw₁ => ?_
    · exact wp_entitled h (hsourced w (.refl w)) fun _ hallowed hstep => ⟨hstep, .step hallowed⟩
    refine wp_seq hw₁.1.pid fun pid w₂ hw₂ => ?_
    refine wp_seq ((hsourced w₂ (hw₁.2.trans hw₂.later)).publishActive hw₂.truthful
      (Or.inr (congrArg some hepoch.symm))) fun _ w₃ hw₃ => ?_
    refine keeps_seq (hw₃.truthful.performs trivial) fun _ w₄ hw₄ => ?_
    exact keeps_seq (hw₄.keeps removeBackup_plain) fun _ _ hw' => hw'

theorem Drawn.applyInPlace {prepared : PreparedApply} {change : ConfigChange}
    (h : Truthful options w) (hdrawn : Drawn options w prepared.desired)
    (hadopts : Adopts w prepared.desired) :
    Keeps options (applyInPlace options current prepared change) w := by
  refine wp_andThen (h.ignore (orDrop_plain backup_plain)) ?_ fun _ _ hw' => hw'.truthful
  intro saved w₁ hw₁
  refine wp_seq (hw₁.truthful.ignore commitReplace_plain) fun committed w₂ hw₂ => ?_
  cases committed with
  | error error => exact keeps_seq (hw₂.truthful.keeps removeBackup_plain) fun _ _ hw' => hw'
  | ok commit =>
    refine wp_seq (hw₂.truthful.ignore reconcileInPlace_plain) fun reconciled w₃ hw₃ => ?_
    have hsteady := (hw₁.trans hw₂).trans hw₃
    have hdrawn₃ := hdrawn.later hsteady.later
    split
    · refine hdrawn₃.adoptInPlace hw₃.truthful fun active hactive => hadopts active ?_
      rw [← hsteady.ctrl]
      exact hactive
    · exact keeps_seq (hdrawn₃.restartWithCompensation hw₃.truthful) fun _ _ hw' => hw'

theorem Sourced.applyChange {prepared : PreparedApply} (h : Truthful options w)
    (hcurrent : w.ctrl.current = some current) (hsourced : Sourced options w current)
    (hsnapshot : snapshot ∈ w.history.loads) (hdrawn : Drawn options w prepared.desired)
    (hepoch : prepared.desired.revision.epoch = current.revision.epoch) :
    Keeps options (applyChange options current input snapshot prepared) w := by
  have hadopts : ∀ change, classify options.ip options.debugOptions current.sourceDocument.entries
      current.effectiveDocument.entries current.sourceSpec prepared.desired.sourceDocument.entries
      prepared.desired.effectiveDocument.entries prepared.desired.sourceSpec = .ok change →
      change ≠ .switch → Adopts w prepared.desired := by
    intro change hclassify hchange active hactive
    obtain rfl : current = active := Option.some.inj (hcurrent.symm.trans hactive)
    obtain ⟨launch, hlaunch, hcontroller, heq⟩ := hsourced.launch
    rw [heq] at hclassify
    refine ⟨(hlaunch.controller_eq hdrawn hclassify hchange).trans hcontroller, ?_⟩
    rw [hsourced.epoch, hepoch]
  unfold Manager.applyChange
  dsimp only
  split
  · exact keeps_seq (h.keeps dropStaged_plain) fun _ _ hw' => hw'
  · exact keeps_seq (h.keeps dropStaged_plain) fun _ _ hw' => hw'
  · refine wp_seq (h.ignore dropStaged_plain) fun _ w₁ hw₁ => ?_
    exact hw₁.truthful.switchWithCompensation (hw₁.later.loads hsnapshot)
  next change _ hswitch hclassify =>
    refine hdrawn.applyInPlace h (hadopts change hclassify ?_)
    rintro rfl
    exact hswitch rfl

theorem Truthful.applyConfig {expected : Option RevisionId} (h : Truthful options w) :
    Keeps options (applyConfig options input expected) w := by
  refine wp_seq h.getCtrl ?_
  rintro _ _ ⟨rfl, rfl⟩
  split
  · exact h
  cases hcurrent : w.ctrl.current with
  | none => exact h
  | some current =>
    dsimp only
    refine wp_seq (h.ignore (uses_perform trivial)) fun status w₁ hw₁ => ?_
    split
    · exact hw₁.truthful
    split
    · exact hw₁.truthful
    refine wp_andThen (hw₁.truthful.plain (uses_perform trivial) load_drawn) ?_
      fun _ _ hw' => hw'.2.truthful
    rintro snapshot w₂ ⟨hsnapshot, hw₂⟩
    have hsteady₂ := hw₁.trans hw₂
    have hsourced₂ := (h.current current hcurrent).later hsteady₂.later
    refine wp_andThen (hw₂.truthful.plain prepareApply_plain
      (prepareApply_spec hsourced₂.runtimePath fun _ _ => trivial)) ?_
      fun _ _ hw' => hw'.2.truthful
    rintro prepared w₃ ⟨⟨-, hprepared⟩, hw₃⟩
    have hfrom := (hprepared prepared rfl).1
    have hloaded := hw₃.later.loads (hsnapshot snapshot rfl)
    have hcurrent₃ : w₃.ctrl.current = some current := by
      rw [(hsteady₂.trans hw₃).ctrl]
      exact hcurrent
    refine (hsourced₂.later hw₃.later).applyChange hw₃.truthful hcurrent₃ hloaded
      ⟨snapshot, hloaded, input, _, _, hfrom⟩ ?_
    obtain ⟨_, _, _, -, heq⟩ := hfrom
    rw [heq]
    rfl

theorem proveEpochDead_plain {entry : QuarantinedEpoch} :
    (proveEpochDead entry).Uses Effect.Plain := by
  unfold proveEpochDead
  split
  · trivial
  · refine uses_bind (uses_perform trivial) fun reaped => ?_
    match reaped with
    | .ok .notFound => trivial
    | .ok .alreadyExited => trivial
    | .ok .killed => trivial
    | .error error => trivial

theorem Truthful.recoverEntry {entry : QuarantinedEpoch} (h : Truthful options w) :
    Keeps options (recoverEntry options entry) w := by
  refine keeps_seq (h.keeps proveEpochDead_plain) fun failure w₁ hw₁ => ?_
  cases failure with
  | some failure => exact hw₁
  | none =>
    refine wp_seq hw₁.getCtrl ?_
    rintro _ _ ⟨rfl, rfl⟩
    refine keeps_seq (hw₁.performs trivial) fun _ w₂ hw₂ => ?_
    refine keeps_seq (hw₂.keeps cleanupEpoch_plain) fun cleaned w₃ hw₃ => ?_
    cases cleaned with
    | error error => exact hw₃
    | ok value =>
      refine wp_seq hw₃.getCtrl ?_
      rintro _ _ ⟨rfl, rfl⟩
      exact keeps_seq (hw₃.performs trivial) fun _ _ hw' => hw'

theorem Truthful.recoverEntries {entries : List QuarantinedEpoch} (h : Truthful options w) :
    Keeps options (recoverEntries options entries) w := by
  induction entries generalizing w with
  | nil => exact h
  | cons entry entries ih =>
    refine keeps_seq h.recoverEntry fun _ w₁ hw₁ => ?_
    exact keeps_seq (ih hw₁) fun _ _ hw' => hw'

theorem Truthful.recoverQuarantine (h : Truthful options w) :
    Keeps options (recoverQuarantine options) w := by
  refine wp_seq h.getCtrl ?_
  rintro _ _ ⟨rfl, rfl⟩
  split
  · exact h
  refine keeps_seq h.recoverEntries fun failures w₁ hw₁ => ?_
  split
  · exact wp_seq (hw₁.publish ⟨rfl, rfl⟩) fun _ _ hw' => hw'.truthful
  · refine wp_seq hw₁.getCtrl ?_
    rintro _ _ ⟨rfl, rfl⟩
    exact hw₁

end Applies

section Runs

variable {options : Options} {w : World}

/-- Every request keeps the record true at each of its effects. -/
theorem Truthful.request (h : Truthful options w) (request : Request) :
    Keeps options (request.program options) w := by
  cases request with
  | start spec => exact keeps_andThen h.start fun _ _ hw' => hw'
  | stop => exact keeps_andThen h.stop fun _ _ hw' => hw'
  | switch spec => exact keeps_andThen h.switch fun _ _ hw' => hw'
  | restart => exact keeps_andThen h.restart fun _ _ hw' => hw'
  | apply input expected => exact keeps_andThen h.applyConfig fun _ _ hw' => hw'
  | recover => exact keeps_andThen h.recoverQuarantine fun _ _ hw' => hw'
  | shutdown => exact keeps_andThen h.shutdown fun _ _ hw' => hw'

/-- The drop of an operation adds nothing to the record. -/
theorem Truthful.drop (h : Truthful options w) (removed : List Artifact) :
    Truthful options (w.drop removed) := by
  have hlater : Later w (w.drop removed) := ⟨List.Subset.refl _, le_rfl, fun _ _ => .refl _⟩
  exact h.later hlater rfl rfl (List.Subset.refl _)

theorem Built.truthful (h : Built options w) : Truthful options w := by
  obtain ⟨found, hhistory⟩ := h.history
  refine ⟨fun p hp => ?_, fun active hactive => ?_, fun f hf => ?_⟩
  · rw [hhistory] at hp
    cases hp
  · rw [h.ctrl] at hactive
    cases hactive
  · rw [h.forwarders] at hf
    cases hf

/-- The record is true in every run, wherever operations are dropped. -/
theorem reach_truthful {cuts : World → Prop}
    {c : Config Effect Answer World Request (Except Error Outcome)}
    (h : Reach (plant options cuts) (Built options) c) : Truthful options c.state :=
  (Reach.everywhere (P := plant options cuts) (fun _ hbuilt => hbuilt.truthful)
    (fun request _ hw => hw.request request) (fun d _ => Empty.elim d)
    (fun removed _ hw => hw.drop removed) h).1

end Runs

end Nyanpasu.Manager
