import Nyanpasu.Manager.GracefulLaws

/-!
# The contract of an apply

What each result of `apply_config` says about the world that it leaves, compared with the
world in which it got the lock.
-/

namespace Nyanpasu.Manager

open Config Machine

section Contract

/-- The input was read and prepared, and its launch is the new current instance. -/
structure Fulfilled (options : Options) (input : InstanceSpec) (b : World) (active : Active)
    (w : World) : Prop extends Installed b active w where
  prepared : ∃ snapshot launch, w.history.loads = snapshot :: b.history.loads ∧
    snapshot.sourcePath = input.configPath ∧
    PreparedFrom options input active.revision.epoch active.revision.generation snapshot launch ∧
    active = launch.activate active.handle active.forwarder

/-- The next generation of the same epoch runs the input. -/
def NextGeneration (options : Options) (input : InstanceSpec) (b : World)
    (revision : ConfigRevision) (w : World) : Prop :=
  ∃ old active, b.ctrl.current = some old ∧ Fulfilled options input b active w ∧
    active.revision = revision ∧ revision.epoch = old.revision.epoch ∧
    revision.generation = old.revision.generation + 1

/-- The first generation of a new epoch runs the input. -/
def NextEpoch (options : Options) (input : InstanceSpec) (b : World) (revision : ConfigRevision)
    (w : World) : Prop :=
  ∃ active, Fulfilled options input b active w ∧ active.revision = revision ∧
    revision.generation = 1 ∧ revision.epoch = b.nextEpoch ∧ b.Unused revision.epoch

/-- The old instance was started again: everything but the process is as it was. -/
def Reinstated (b : World) (revision : ConfigRevision) (w : World) : Prop :=
  ∃ old active, b.ctrl.current = some old ∧ w.ctrl.current = some active ∧
    w.ledger = b.ledger.install active ∧ revision = old.revision ∧
    active = old.reinstate active.handle active.forwarder ∧
    active.handle.spec = old.handle.spec ∧ active.handle.controller = old.handle.controller

/-- Nothing was installed or published. -/
structure Untouched (b w : World) : Prop where
  ctrl : w.ctrl = b.ctrl
  publications : w.history.publications = b.history.publications
  ledger : w.ledger = b.ledger

/-- What an outcome says about the world that it leaves. Of a no-op the staged file of the
comparison may be left behind. -/
def ApplyOutcome.Holds (options : Options) (input : InstanceSpec) (b w : World) :
    ApplyOutcome → Prop
  | .noop revision => Untouched b w ∧
      (∃ active, b.ctrl.current = some active ∧ revision = active.revision) ∧
      ∀ artifact, artifact ≠ .staged revision.epoch b.temps →
        w.files.lookup artifact = b.files.lookup artifact
  | .patched revision | .reloaded revision | .restarted revision =>
      NextGeneration options input b revision w
  | .switched revision => NextEpoch options input b revision w
  | .rolledBack revision _ => Reinstated b revision w
  | .durabilityUncertain outcome _ => outcome.Holds options input b w

/-- What a result says about the world that it leaves. -/
def ApplyContract (options : Options) (input : InstanceSpec) (b : World)
    (result : Except Error ApplyOutcome) (w : World) : Prop :=
  match result with
  | .ok outcome => outcome.Holds options input b w
  | .error _ => Untouched b w ∨ Ended b w

/-- The errors of an apply that is turned away at its beginning. -/
inductive TurnedAway (expected : RevisionId) : Error → Prop
  | conflict (current : RevisionId) : current ≠ expected →
      TurnedAway expected (.revisionConflict expected (some current))
  | notStarted : TurnedAway expected .notStarted
  | quarantined (epoch : ℕ) (reason : String) :
      TurnedAway expected (.managerQuarantined epoch reason)

/-- An apply with an expected revision finds it current, or is turned away and leaves the
control state, the runtime directory and the history as they are. -/
def Guarded (expected : Option RevisionId) (b : World) (result : Except Error ApplyOutcome)
    (w : World) : Prop :=
  ∀ id, expected = some id → (∃ active, b.ctrl.current = some active ∧ active.revision.id = id) ∨
    ((∃ error, result = .error error ∧ TurnedAway id error) ∧ w.ctrl = b.ctrl ∧
      w.files = b.files ∧ w.history = b.history)

end Contract

variable {options : Options} {b w w' : World} {T : Artifact → Prop} {desired : PreparedLaunch}
  {input : InstanceSpec} {snapshot : ConfigSnapshot} {handle : Instance} {old active : Active}
  {site : Site}

/-- A warning does not change the contract. -/
theorem ApplyContract.withDurabilityResult {result : Except Error ApplyOutcome}
    {warning : Option String} (h : ApplyContract options input b result w) :
    ApplyContract options input b (withDurabilityResult result warning) w := by
  cases result <;> cases warning <;> exact h

/-- `prepare_apply` stages the document of the next generation. -/
theorem prepareApply_spec {cut : World → Prop}
    (hpath : old.revision.runtimePath = .runtime (.config old.revision.epoch))
    (hcut : ∀ w', Quiet (isStaged old.revision.epoch w) noInstance w w' → cut w') :
    machine.wp cut (prepareApply options old input snapshot) (fun result w' =>
      Quiet (isStaged old.revision.epoch w) noInstance w w' ∧
        ∀ prepared, result = .ok prepared →
          PreparedFrom options input old.revision.epoch (old.revision.generation + 1) snapshot
            prepared.desired ∧
          StagedFor options.site prepared.desired prepared.staged w' ∧
          isStaged old.revision.epoch w prepared.staged) w := by
  have hstart : Quiet (isStaged old.revision.epoch w) noInstance w w := .refl w
  unfold prepareApply
  refine wp_andThen (validateLaunchable_spec (hcut w hstart)) ?_
    fun error _ hw => hw ▸ ⟨hstart, fun _ hok => nomatch hok⟩
  rintro ⟨⟩ _ rfl
  refine wp_andThen (resolveFeatures_spec (hcut w hstart)) ?_
    fun error _ hw => hw ▸ ⟨hstart, fun _ hok => nomatch hok⟩
  rintro resolved _ rfl
  refine wp_andThen prepareFull_spec ?_ fun error _ hw => hw.1 ▸ ⟨hstart, fun _ hok => nomatch hok⟩
  rintro prepared _ ⟨rfl, managed, hprepared⟩
  refine wp_andThen (stage_spec hcut) ?_ fun error _ hw => ⟨hw.1, fun _ hok => nomatch hok⟩
  rintro staged w₁ ⟨hq₁, hstaged⟩
  have hstaged := hstaged staged rfl
  have hdropped : ∀ {w'}, Quiet (· = staged) noInstance w₁ w' →
      Quiet (isStaged old.revision.epoch w) noInstance w w' :=
    fun hw => hq₁.trans (hw.mono (fun a ha => ha.trans hstaged.named) fun _ h => h)
  refine wp_andThen (checkStaged_spec fun w' hw' => hcut w' (hdropped hw')) ?_
    fun error _ hw => ⟨hdropped hw.1, fun _ hok => nomatch hok⟩
  rintro ⟨⟩ w₂ ⟨-, hsame⟩
  obtain rfl := hsame rfl
  refine ⟨hq₁, fun result hok => ?_⟩
  obtain rfl := Except.ok.inj hok
  rw [hpath]
  exact ⟨⟨resolved, managed, prepared, hprepared.symm, rfl⟩,
    stagedFor_of_prepared hprepared.symm hstaged, hstaged.named⟩

/-- The current install follows every other one. -/
theorem Chronicle.follows_current {pending : List ℕ} (h : Chronicle pending w)
    (hcurrent : w.ctrl.current = some active) :
    ∀ older ∈ w.history.installs, active.Follows w.history.top older := by
  have hnewest := (h.current active hcurrent).newest
  have hordered := h.ordered
  cases hinstalls : w.history.installs with
  | nil => simp
  | cons newest rest =>
    rw [hinstalls] at hnewest hordered
    obtain rfl : newest = active := Option.some.inj hnewest
    intro older holder
    rcases List.mem_cons.mp holder with rfl | holder
    · exact Or.inr ⟨rfl, rfl, rfl⟩
    · exact (List.pairwise_cons.mp hordered).1 older holder

/-- A reinstated install follows what the old one follows. -/
theorem Active.Follows.reinstate {top : ℕ} {older : Active} {forwarder : Forwarder}
    (h : old.Follows top older) : (old.reinstate handle forwarder).Follows top older :=
  h.imp id fun h => ⟨h.revision, h.sourceDocument, h.effectiveDocument⟩

/-- The apply got the lock in the world `o` with the old instance, and nothing was installed
until the world `b`. -/
structure Origin (o : World) (old : Active) (b : World) : Prop where
  current : o.ctrl.current = some old
  ledger : b.ledger = o.ledger
  spec : old.handle.spec.configPath = .runtime (.config old.revision.epoch)

/-- An apply that ended without an instance meets its contract. -/
theorem Origin.ended {o : World} {error : Error} (h : Origin o old b) (hended : Ended b w) :
    ApplyContract options input o (.error error) w :=
  Or.inr (hended.rebase h.ledger)

/-- A quiet program keeps a settled world with a new install. -/
theorem wp_settledFrame {α : Type} {p : Action α} (hsettled : Settled site w)
    (hlaunched : Launched b active w) (hp : p.Uses (Effect.Quietly T noInstance))
    (hT : ¬ T (.config active.revision.epoch)) :
    machine.wp (Cut site) p (fun _ w' => Settled site w' ∧ Launched b active w') w := by
  have hkept : ∀ other, w.ctrl.current = some other → ¬ T (.config other.revision.epoch) := by
    intro other hother
    obtain rfl := Option.some.inj (hlaunched.current.symm.trans hother)
    exact hT
  refine wp_imp (wp_frame hp fun w' hw' => (hsettled.quiet hw' hkept).cut) fun _ w' hw' => ?_
  exact ⟨hsettled.quiet hw' hkept, ⟨by rw [hw'.ctrl, hlaunched.current],
    hw'.ledger.trans hlaunched.ledger, by rw [hw'.history, hlaunched.clear]⟩,
    by rw [hw'.history, hlaunched.loads]⟩

/-- The restart of the old core. -/
theorem rollBack_spec {o : World} {applyText context : String} {finish : Action Unit}
    {P : Artifact → Prop} (h : Mid b T [] [] w) (horigin : Origin o old b)
    (hquarantine : b.ctrl.quarantine = [])
    (hfile : Committed site w old.revision old.effectiveDocument)
    (hallocated : old.revision.epoch ∈ b.history.allocated)
    (hfollows : ∀ older ∈ b.history.installs, old.Follows b.history.top older)
    (hfinish : finish.Uses (Effect.Quietly P noInstance))
    (hP : ¬ P (.config old.revision.epoch)) :
    machine.wp (Cut site) (rollBack options old applyText context finish)
      (fun result w' => Settled site w' ∧ ApplyContract options input o result w') w := by
  have hquarantine : w.ctrl.quarantine = [] := (h.quarantine rfl).trans hquarantine
  have hallocated : old.revision.epoch ∈ w.history.allocated :=
    allocated_of_numbering h.since.numbering ▸ hallocated
  have horigin : Origin o old w := ⟨horigin.current, h.since.ledger.trans horigin.ledger,
    horigin.spec⟩
  have hfollows : ∀ older ∈ w.history.installs, old.Follows w.history.top older := by
    rw [h.since.installs, top_of_numbering h.since.numbering]
    exact hfollows
  have h : Mid w (ofProcess old.revision.epoch) [] [] w := h.rebase
  unfold rollBack
  refine wp_seq (h.announce rfl) fun _ w₁ h₁ => ?_
  refine wp_seq (spawnReplacement_spec h₁ hquarantine hallocated) fun result w₂ h₂ => ?_
  cases result with
  | error error =>
    obtain ⟨pending, h₂, hconfirmed, hpending, hunlisted⟩ := h₂
    refine wp_failedReplacement h₂ hconfirmed ?_ fun h₂ => ?_
    · exact wp_seq (h₂.latch hpending hunlisted) fun _ _ h => ⟨h.1, horigin.ended h.2⟩
    · refine wp_imp h₂.fail ?_
      rintro _ w₃ ⟨⟨error, rfl⟩, hsettled, hended⟩
      exact ⟨hsettled, horigin.ended hended⟩
  | ok handle =>
    obtain ⟨hepoch, hspec, hcontroller, hready, h₂⟩ := h₂
    have hpath : handle.spec.configPath = .runtime (.config handle.epoch) := by
      rw [hspec, horigin.spec, hepoch]
    have hinstallable : Installable site w (old.reinstate handle ⟨handle.id, handle.epoch⟩) w₂ :=
      ⟨hepoch.symm, rfl, hready, hpath, hquarantine, h₂.committed hfile not_ofProcess_config,
        fun older holder => (hfollows older holder).reinstate⟩
    refine wp_seq (installReplacement_spec
      (show Mid _ _ [(old.reinstate handle ⟨handle.id, handle.epoch⟩).handle] [] w₂ from h₂)
      hinstallable rfl) ?_
    rintro _ w₃ ⟨hsettled, hlaunched⟩
    refine wp_seq (wp_settledFrame hsettled hlaunched hfinish hP) ?_
    rintro _ w₄ ⟨hsettled, hlaunched⟩
    exact ⟨hsettled, old, old.reinstate handle ⟨handle.id, handle.epoch⟩, horigin.current,
      hlaunched.current, hlaunched.ledger.trans (by rw [horigin.ledger]), rfl, rfl, hspec,
      hcontroller⟩

/-- The restoration of the committed file and the restart of the old core. -/
theorem restoreAndRollBack_spec {o : World} {saved : RuntimeConfigBackup} {applyText : String}
    {bytes : List UInt8} (h : Mid b (ofProcess old.revision.epoch) [] [] w)
    (horigin : Origin o old b) (hquarantine : b.ctrl.quarantine = [])
    (hsaved : saved = ⟨.backup old.revision.epoch (old.revision.generation + 1),
      old.revision.epoch⟩)
    (hbackup : w.files.lookup saved.path = some bytes)
    (hpath : old.revision.runtimePath = .runtime (.config old.revision.epoch))
    (hserialize : site.serialize old.effectiveDocument.entries = .ok bytes)
    (hhash : old.revision.effectiveHash = semanticHash bytes)
    (hallocated : old.revision.epoch ∈ b.history.allocated)
    (hfollows : ∀ older ∈ b.history.installs, old.Follows b.history.top older) :
    machine.wp (Cut site) (restoreAndRollBack options old saved applyText)
      (fun result w' => Settled site w' ∧ ApplyContract options input o result w') w := by
  have h : Mid b (ofEpoch old.revision.epoch) [] [] w := h.mono fun _ => ofEpoch_of_ofProcess
  have hmine : ∀ a, ofRestore saved.epoch w a → ofEpoch old.revision.epoch a := by
    subst hsaved
    rintro a (rfl | rfl) <;> rfl
  unfold restoreAndRollBack
  refine wp_seq (restore_spec h.current fun w' hw' => (h.quiet hw' hmine).cut) ?_
  rintro result w₁ ⟨hq₁, hrestored⟩
  have h₁ := h.quiet hq₁ hmine
  cases result with
  | error error =>
    refine wp_imp h₁.fail ?_
    rintro _ w₂ ⟨⟨error, rfl⟩, hsettled, hended⟩
    exact ⟨hsettled, horigin.ended hended⟩
  | ok commit =>
    have hfile : Committed site w₁ old.revision old.effectiveDocument := by
      refine ⟨hpath, bytes, ?_, hserialize, hhash⟩
      have hconfig := hrestored commit rfl
      rw [hbackup] at hconfig
      subst hsaved
      exact hconfig
    exact wp_seq (rollBack_spec (P := (· = saved.path)) h₁ horigin hquarantine hfile hallocated
      hfollows (Program.uses_bind (removeBackup_quietly rfl) fun _ => trivial)
      (by subst hsaved; nofun)) fun _ _ hdone => ⟨hdone.1, hdone.2.withDurabilityResult⟩

/-- The install of a prepared input meets its contract. -/
theorem fulfilled_of_launched {o : World} {epoch generation : ℕ} {forwarder : Forwarder}
    (hlaunched : Launched b (desired.activate handle forwarder) w)
    (hledger : b.ledger = o.ledger)
    (hloads : b.history.loads = snapshot :: o.history.loads)
    (hsource : snapshot.sourcePath = input.configPath)
    (hfrom : PreparedFrom options input epoch generation snapshot desired) :
    Fulfilled options input o (desired.activate handle forwarder) w := by
  refine ⟨hlaunched.toInstalled.rebase hledger, snapshot, desired,
    hlaunched.loads.trans hloads, hsource, ?_, rfl⟩
  obtain ⟨resolved, managed, prepared, hprepared, rfl⟩ := hfrom
  exact ⟨resolved, managed, prepared, hprepared, rfl⟩

/-- What an in-place apply has done when the committed file is the desired one. -/
structure Swapped (options : Options) (input : InstanceSpec) (snapshot : ConfigSnapshot)
    (old : Active) (desired : PreparedLaunch) (o : World) (w : World) : Prop extends
    Holding old [] [] w where
  exposed : w.history.exposed = true
  quarantine : w.ctrl.quarantine = []
  origin : Origin o old w
  loads : w.history.loads = snapshot :: o.history.loads
  source : snapshot.sourcePath = input.configPath
  prepared : PreparedFrom options input old.revision.epoch (old.revision.generation + 1) snapshot
    desired
  file : Committed options.site w desired.revision desired.effectiveDocument
  path : old.revision.runtimePath = .runtime (.config old.revision.epoch)
  backup : ∃ bytes, w.files.lookup (.backup old.revision.epoch (old.revision.generation + 1)) =
      some bytes ∧ options.site.serialize old.effectiveDocument.entries = .ok bytes ∧
    old.revision.effectiveHash = semanticHash bytes

theorem Swapped.cut {o : World} (h : Swapped options input snapshot old desired o w) :
    Cut site w := fun hcovered => by
  simp [h.exposed] at hcovered

/-- The desired revision is the next generation. -/
theorem PreparedFrom.revision_eq {epoch generation : ℕ}
    (h : PreparedFrom options input epoch generation snapshot desired) :
    desired.revision.epoch = epoch ∧ desired.revision.generation = generation := by
  obtain ⟨_, _, _, -, rfl⟩ := h
  exact ⟨rfl, rfl⟩

/-- The next generation is later than every install. -/
theorem later_of_nextGeneration {top : ℕ} {x : Active}
    (hepoch : x.revision.epoch = old.revision.epoch)
    (hgeneration : x.revision.generation = old.revision.generation + 1)
    (hfollows : ∀ older ∈ w.history.installs, old.Follows top older) :
    ∀ older ∈ w.history.installs, x.Later top older := by
  have hnext : x.Later top old := Or.inr ⟨hepoch.symm, by omega⟩
  intro older holder
  rcases hfollows older holder with hlater | hsame
  · exact hnext.trans hlater
  · unfold Active.Later at *
    rwa [← hsame.revision]

theorem Swapped.next {o : World} {forwarder : Forwarder}
    (h : Swapped options input snapshot old desired o w)
    (hlaunched : Launched w (desired.activate handle forwarder) w') :
    NextGeneration options input o desired.revision w' :=
  ⟨old, desired.activate handle forwarder, h.origin.current,
    fulfilled_of_launched hlaunched h.origin.ledger h.loads h.source h.prepared, rfl,
    h.prepared.revision_eq.1, h.prepared.revision_eq.2⟩

theorem not_ofProcess_backup {epoch owner generation : ℕ} :
    ¬ ofProcess epoch (.backup owner generation) := nofun

/-- `restart_with_compensation`. -/
theorem restartWithCompensation_spec {o : World} {saved : RuntimeConfigBackup}
    (h : Swapped options input snapshot old desired o w)
    (hsaved : saved = ⟨.backup old.revision.epoch (old.revision.generation + 1),
      old.revision.epoch⟩) :
    machine.wp (Cut options.site) (restartWithCompensation options desired saved)
      (fun result w' => Settled options.site w' ∧ ApplyContract options input o result w') w := by
  have hok := h.inv.chronicle.current old h.current
  have hfollows := h.inv.chronicle.follows_current h.current
  obtain ⟨hepoch, hgeneration⟩ := h.prepared.revision_eq
  have hallocated : old.revision.epoch ∈ w.history.allocated := by
    rw [hok.epoch]
    exact h.inv.custody.epoch_mem (by simp [World.held, h.current])
  have hend : ∀ {result : Except Error ApplyOutcome} {w'}, ((∃ error, result = .error error) ∧
      Settled options.site w' ∧ Ended w w') →
      Settled options.site w' ∧ ApplyContract options input o result w' := by
    rintro _ w' ⟨⟨error, rfl⟩, hsettled, hended⟩
    exact ⟨hsettled, h.origin.ended hended⟩
  unfold restartWithCompensation
  refine h.take ?_
  refine wp_seq (h.abort (T := ofProcess old.revision.epoch) (.refl _)) fun _ w₁ h₁ => ?_
  refine wp_seq h₁.stop fun result w₂ h₂ => ?_
  cases result with
  | error error =>
    rw [← hok.epoch] at h₂
    exact wp_imp (h₂.2.latchUnconfirmed h₂.1) fun _ _ => hend
  | ok value =>
    refine wp_seq (h₂.announce rfl) fun _ w₃ h₃ => ?_
    rw [← hepoch] at h₃ hallocated
    refine wp_seq (spawnReplacement_spec h₃ h.quarantine hallocated) fun result w₄ h₄ => ?_
    cases result with
    | ok handle =>
      obtain ⟨hsame, hspec, -, hready, h₄⟩ := h₄
      have hpath : handle.spec.configPath = .runtime (.config handle.epoch) := by
        rw [hspec, h.prepared.effectivePath, hsame]
      have hinstallable : Installable options.site w
          (desired.activate handle ⟨handle.id, handle.epoch⟩) w₄ := by
        refine ⟨hsame.symm, rfl, hready, hpath, h.quarantine,
          h₄.committed h.file not_ofProcess_config, ?_⟩
        exact fun older holder =>
          Or.inl (later_of_nextGeneration hepoch hgeneration hfollows older holder)
      refine wp_seq (installReplacement_spec
        (show Mid _ _ [(desired.activate handle ⟨handle.id, handle.epoch⟩).handle] [] w₄ from h₄)
        hinstallable rfl) ?_
      rintro _ w₅ ⟨hsettled, hlaunched⟩
      refine wp_seq (wp_settledFrame (T := (· = saved.path)) hsettled hlaunched
        (removeBackup_quietly rfl) (by subst hsaved; rintro ⟨⟩)) ?_
      rintro _ w₆ ⟨hsettled, hlaunched⟩
      exact ⟨hsettled, h.next hlaunched⟩
    | error error =>
      obtain ⟨pending, h₄, hconfirmed, hpending, hunlisted⟩ := h₄
      refine wp_failedReplacement h₄ hconfirmed ?_ fun h₄ => ?_
      · exact wp_seq (h₄.latch hpending hunlisted) fun error _ hdone => hend ⟨⟨error, rfl⟩, hdone⟩
      · rw [hepoch] at h₄ hallocated
        obtain ⟨bytes, hbackup, hserialize, hhash⟩ := h.backup
        refine restoreAndRollBack_spec h₄ h.origin h.quarantine hsaved ?_ h.path hserialize hhash
          hallocated hfollows
        subst hsaved
        exact (h₄.since.files _ not_ofProcess_backup).trans hbackup

/-- An apply that has read its input and changed nothing that counts. -/
structure Preparing (options : Options) (input : InstanceSpec) (snapshot : ConfigSnapshot)
    (old : Active) (o w : World) : Prop where
  settled : Settled options.site w
  untouched : Untouched o w
  current : o.ctrl.current = some old
  quarantine : o.ctrl.quarantine = []
  numbering : w.numbering = o.numbering
  loads : w.history.loads = snapshot :: o.history.loads
  source : snapshot.sourcePath = input.configPath

section Preparing

variable {o : World}

theorem Preparing.serving (h : Preparing options input snapshot old o w) :
    Serving options.site old [] [] w :=
  h.settled.serving (h.untouched.ctrl ▸ h.current)

theorem Preparing.quiet (h : Preparing options input snapshot old o w)
    (hw : Quiet T noInstance w w') (hT : ¬ T (.config old.revision.epoch)) :
    Preparing options input snapshot old o w' where
  settled := h.settled.quiet hw fun other hother => by
    obtain rfl := Option.some.inj (h.serving.current.symm.trans hother)
    exact hT
  untouched := ⟨hw.ctrl.trans h.untouched.ctrl, by rw [hw.history, h.untouched.publications],
    hw.ledger.trans h.untouched.ledger⟩
  current := h.current
  quarantine := h.quarantine
  numbering := hw.numbering.trans h.numbering
  loads := by rw [hw.history, h.loads]
  source := h.source

/-- A failure before the point of no return. -/
theorem Preparing.error {error : Error} (h : Preparing options input snapshot old o w) :
    Settled options.site w ∧ ApplyContract options input o (.error error) w :=
  ⟨h.settled, Or.inl h.untouched⟩

/-- `switch_with_compensation`. -/
theorem switchWithCompensation_spec (h : Preparing options input snapshot old o w) :
    machine.wp (Cut options.site) (switchWithCompensation options input snapshot)
      (fun result w' => Settled options.site w' ∧ ApplyContract options input o result w') w := by
  unfold switchWithCompensation
  refine wp_seq nextEpoch_spec ?_
  rintro _ _ ⟨rfl, hroom, rfl⟩
  have hfresh : FreshEpoch (w.step .nextEpoch w.nextEpoch) w.nextEpoch :=
    h.settled.inv.freshEpoch hroom
  have h₁ : Serving options.site old [] [] (w.step .nextEpoch w.nextEpoch) :=
    h.settled.allocated.serving h.serving.current
  have hnew := hfresh.ne_current h₁
  have hother : ¬ ofEpoch w.nextEpoch (.config old.revision.epoch) := fun h => hnew h.symm
  refine wp_andThen (prepareLaunch_spec fun w' hw' _ => (h₁.quiet hw' hother).base) ?_ ?_
  · rintro desired w₂ ⟨hq₂, hprepared⟩
    obtain ⟨hfrom, hfile⟩ := hprepared desired rfl
    obtain ⟨hepoch, hgeneration⟩ := hfrom.revision_eq
    have h₂ : Serving options.site old [] [] w₂ := h₁.quiet hq₂ hother
    have hok := h₂.inv.chronicle.current old h₂.current
    have horigin : Origin o old w₂ :=
      ⟨h.current, hq₂.ledger.trans h.untouched.ledger, hok.epoch ▸ hok.spec⟩
    have hquarantine : w₂.ctrl.quarantine = [] := by
      rw [hq₂.ctrl]
      exact (congrArg Ctrl.quarantine h.untouched.ctrl).trans h.quarantine
    have hfresh₂ : FreshEpoch w₂ desired.revision.epoch := by
      rw [hepoch]
      exact hfresh.congr hq₂.numbering (installs_of_ledger hq₂.ledger)
    have hend : ∀ {result : Except Error ApplyOutcome} {w'}, ((∃ error, result = .error error) ∧
        Settled options.site w' ∧ Ended w₂ w') →
        Settled options.site w' ∧ ApplyContract options input o result w' := by
      rintro _ w' ⟨⟨error, rfl⟩, hsettled, hended⟩
      exact ⟨hsettled, horigin.ended hended⟩
    refine h₂.take ?_
    refine wp_seq (h₂.abort (T := ofProcess desired.revision.epoch) (.refl _)) fun _ w₃ h₃ => ?_
    refine wp_seq h₃.stop fun result w₄ h₄ => ?_
    cases result with
    | error error =>
      rw [← hok.epoch] at h₄
      have h₄' : Mid _ anyArtifact [] _ w₄ := h₄.2.mono fun _ _ => trivial
      refine wp_seq (h₄'.cleanup fun _ _ => trivial) fun _ w₅ h₅ => ?_
      exact wp_imp (h₅.latchUnconfirmed h₄.1) fun _ _ => hend
    | ok value =>
      refine wp_seq (h₄.announce rfl) fun _ w₅ h₅ => ?_
      refine wp_seq (spawnReplacement_spec h₅ hquarantine hfresh₂.allocated) fun result w₆ h₆ => ?_
      cases result with
      | ok handle =>
        obtain ⟨hsame, hspec, -, hready, h₆⟩ := h₆
        have hinstallable := installable_of_fresh hsame.symm hready hspec hquarantine
          (h₆.committed hfile not_ofProcess_config) hfresh₂ hfrom
        refine wp_seq (installReplacement_spec
          (show Mid _ _ [(desired.activate handle ⟨handle.id, handle.epoch⟩).handle] [] w₆ from h₆)
          hinstallable rfl) ?_
        rintro _ w₇ ⟨hsettled, hlaunched⟩
        refine wp_seq (wp_settledFrame (T := ofEpoch old.revision.epoch) hsettled hlaunched
          cleanupEpoch_quietly fun hmine => hnew (hepoch.symm.trans hmine)) ?_
        rintro _ w₈ ⟨hsettled, hlaunched⟩
        refine ⟨hsettled, desired.activate handle ⟨handle.id, handle.epoch⟩, ?_, rfl, hgeneration,
          ?_, hfresh₂.unused.of_ledger horigin.ledger⟩
        · refine fulfilled_of_launched hlaunched horigin.ledger ?_ h.source hfrom
          exact (congrArg History.loads hq₂.history).trans h.loads
        · rw [hepoch, nextEpoch_of_numbering h.numbering]
      | error error =>
        obtain ⟨pending, h₆, hconfirmed, hpending, hunlisted⟩ := h₆
        refine wp_failedReplacement h₆ hconfirmed ?_ fun h₆ => ?_
        · exact wp_seq (h₆.latch hpending hunlisted) fun error _ hdone => hend ⟨⟨error, rfl⟩, hdone⟩
        · have h₆ := h₆.mono fun _ => ofEpoch_of_ofProcess
          rw [← hepoch] at hother
          refine wp_seq (h₆.cleanup fun _ => id) fun _ w₇ h₇ => ?_
          refine rollBack_spec (P := noArtifact) h₇ horigin hquarantine
            (h₇.committed h₂.file hother)
            ?_ (h₂.inv.chronicle.follows_current h₂.current) trivial id
          rw [hok.epoch]
          exact h₂.inv.custody.epoch_mem (by simp [World.held, h₂.current])
  · rintro error w₂ ⟨hq₂, -⟩
    refine ⟨h.settled.allocated.quiet hq₂ fun other hcurrent => ?_, Or.inl ⟨?_, ?_, ?_⟩⟩
    · obtain rfl := Option.some.inj (h₁.current.symm.trans hcurrent)
      exact hother
    · exact hq₂.ctrl.trans h.untouched.ctrl
    · exact (congrArg History.publications hq₂.history).trans h.untouched.publications
    · exact hq₂.ledger.trans h.untouched.ledger

theorem Swapped.quiet (h : Swapped options input snapshot old desired o w)
    (hw : Quiet noArtifact noInstance w w') : Swapped options input snapshot old desired o w' where
  inv := h.inv.quiet hw
  current := by rw [hw.ctrl, h.current]
  tasks := hw.forwarders.trans h.tasks
  exposed := by rw [hw.history, h.exposed]
  quarantine := by rw [hw.ctrl, h.quarantine]
  origin := ⟨h.origin.current, hw.ledger.trans h.origin.ledger, h.origin.spec⟩
  loads := by rw [hw.history, h.loads]
  source := h.source
  prepared := h.prepared
  file := h.file.congr (hw.files _ id)
  path := h.path
  backup := hw.files _ id ▸ h.backup

/-- The record of the last spec is not seen by a settled world. -/
theorem Settled.lastSpec {spec : InstanceSpec} (h : Settled site w) :
    Settled site (w.step (.setLastSpec spec) ()) where
  inv := h.inv.unseen rfl
  file := fun active hactive => (h.file active hactive).congr rfl
  tasks := h.tasks
  silent := h.silent
  spoken := fun active hactive => (h.spoken active hactive).imp_right
    fun hspoken => ⟨hspoken.published, hspoken.heard⟩
  covered := h.covered

/-- The success of an in-place change. -/
theorem adoptInPlace_spec {saved : RuntimeConfigBackup} {outcome : ApplyOutcome}
    {warning : Option String} (h : Swapped options input snapshot old desired o w)
    (hsaved : saved = ⟨.backup old.revision.epoch (old.revision.generation + 1),
      old.revision.epoch⟩)
    (houtcome : ∀ w', NextGeneration options input o desired.revision w' →
      outcome.Holds options input o w') :
    machine.wp (Cut options.site) (adoptInPlace desired saved outcome warning)
      (fun result w' => Settled options.site w' ∧ ApplyContract options input o result w') w := by
  have hfollows := h.inv.chronicle.follows_current h.current
  obtain ⟨hepoch, hgeneration⟩ := h.prepared.revision_eq
  unfold adoptInPlace
  refine wp_seq getCtrl_spec ?_
  rintro _ _ ⟨rfl, rfl⟩
  rw [h.current]
  refine wp_seq (Q := fun _ w' =>
    Serving options.site (desired.activate old.handle old.forwarder) [] [] w' ∧
      w'.history.installs = desired.activate old.handle old.forwarder :: w.history.installs ∧
      w'.history.uncleaned = w.history.uncleaned ∧ w'.history.muted = false ∧
      w'.history.loads = w.history.loads) ?_ ?_
  · refine wp_sync rfl fun _ _ => ⟨⟨⟨?_, rfl, h.tasks⟩, h.file.congr rfl⟩, rfl, rfl, rfl, rfl⟩
    refine h.inv.amended h.current rfl rfl hepoch h.quarantine fun older holder => Or.inl ?_
    exact later_of_nextGeneration hepoch hgeneration hfollows older holder
  rintro _ w₁ ⟨h₁, hinstalls₁, huncleaned₁, hmuted₁, hloads₁⟩
  refine wp_seq pid_spec ?_
  rintro _ w₂ ⟨hw₂, first, rest, hfirst, rfl⟩
  refine wp_seq ((h₁.quiet hw₂ id).publishRunning hfirst) ?_
  rintro _ w₃ ⟨hsettled, hctrl, hledger, hmuted, hloads⟩
  have hledger₃ : w₃.ledger = w₁.ledger := hledger.trans hw₂.ledger
  have hcurrent₃ : w₃.ctrl.current = some (desired.activate old.handle old.forwarder) := by
    rw [hctrl, hw₂.ctrl, h₁.current]
  refine wp_seq (Q := fun _ w' => Settled options.site w' ∧
    Launched w (desired.activate old.handle old.forwarder) w') ?_ ?_
  · refine wp_sync rfl fun _ _ => ⟨hsettled.lastSpec, ⟨hcurrent₃, ?_, ?_⟩, ?_⟩
    · have hinstalls₃ := (congrArg Ledger.installs hledger₃).trans hinstalls₁
      have huncleaned₃ := (congrArg Ledger.uncleaned hledger₃).trans huncleaned₁
      simp only [World.ledger] at hinstalls₃ huncleaned₃
      simp only [World.ledger, World.step, Ledger.install, hinstalls₃, huncleaned₃]
    · exact hmuted.trans (by rw [hw₂.history, hmuted₁])
    · exact hloads.trans (by rw [hw₂.history, hloads₁])
  rintro _ w₄ ⟨hsettled, hlaunched₄⟩
  refine wp_seq (wp_settledFrame (T := (· = saved.path)) hsettled hlaunched₄
    (removeBackup_quietly rfl) (by subst hsaved; rintro ⟨⟩)) ?_
  rintro _ w₅ ⟨hsettled, hlaunched⟩
  have hcontract : ApplyContract options input o (.ok outcome) w₅ :=
    houtcome w₅ (h.next hlaunched)
  exact ⟨hsettled, hcontract.withDurabilityResult⟩

theorem reconcileInPlace_quietly {I : ℕ → Prop} {change : ConfigChange} :
    (reconcileInPlace options old change desired).Uses (Effect.Quietly T I) := by
  cases change with
  | noop => trivial
  | switch => trivial
  | patch patch projection => exact patchAndVerify_quietly
  | reload =>
    refine Program.uses_bind (Program.uses_perform trivial) fun client => ?_
    cases client with
    | error error => trivial
    | ok value =>
      refine Program.uses_bind (Program.uses_perform trivial) fun updated => ?_
      cases updated with
      | error error => trivial
      | ok value => exact Program.uses_perform trivial

/-- The backup of the committed file, which drops the staged one when it fails. -/
theorem Preparing.backup {staged : Artifact} (h : Preparing options input snapshot old o w)
    (hmine : ∃ counter, staged = .staged old.revision.epoch counter)
    (hpresent : w.files.lookup staged ≠ none) :
    machine.wp (Cut options.site)
      (orDrop staged (backup old.revision.epoch (old.revision.generation + 1)))
      (fun result w' => Preparing options input snapshot old o w' ∧ ∀ saved, result = .ok saved →
        saved = ⟨.backup old.revision.epoch (old.revision.generation + 1), old.revision.epoch⟩ ∧
        w'.files.lookup staged = w.files.lookup staged ∧
        w'.files.lookup (.backup old.revision.epoch (old.revision.generation + 1)) =
          w.files.lookup (.config old.revision.epoch)) w := by
  have hquiet : ∀ {w'}, Quiet (ofBackup old.revision.epoch (old.revision.generation + 1) w)
      noInstance w w' → Preparing options input snapshot old o w' :=
    fun hw => h.quiet hw fun hmine => nomatch hmine
  refine wp_orDrop (wp_imp (backup_spec fun w' hw' => (hquiet hw').settled.cut) ?_)
  rintro result w₁ ⟨hq₁, hsaved⟩
  cases result with
  | error error =>
    intro removed
    have hstart : Quiet (· = staged) noInstance w₁ w₁ := .refl w₁
    refine ⟨(hquiet hq₁).quiet (hstart.dropStaged rfl removed) ?_, fun _ hok => nomatch hok⟩
    obtain ⟨counter, rfl⟩ := hmine
    exact nofun
  | ok saved =>
    obtain ⟨rfl, habsent, contents, hconfig, hbackup⟩ := hsaved saved rfl
    refine ⟨hquiet hq₁, fun saved hok => ?_⟩
    obtain rfl := Except.ok.inj hok
    refine ⟨rfl, hq₁.files _ ?_, hbackup.trans hconfig.symm⟩
    rintro (hsame | hsame)
    · exact hpresent (hsame ▸ habsent)
    · obtain ⟨counter, hcounter⟩ := hmine
      rw [hcounter] at hsame
      cases hsame

/-- The replacement of the committed file. -/
theorem Preparing.swapped {u : World} {staged : Artifact}
    (h : Preparing options input snapshot old o w)
    (hfrom : PreparedFrom options input old.revision.epoch (old.revision.generation + 1) snapshot
      desired)
    (hmine : ∃ counter, staged = .staged old.revision.epoch counter)
    (hw : Quiet (ofCommit staged (.config desired.revision.epoch)) noInstance
      (w.expose (.config desired.revision.epoch)) w')
    (hexposed : w'.history.exposed = true)
    (hfile : Committed options.site w' desired.revision desired.effectiveDocument)
    (hold : Committed options.site u old.revision old.effectiveDocument)
    (hbackup : w.files.lookup (.backup old.revision.epoch (old.revision.generation + 1)) =
      u.files.lookup (.config old.revision.epoch)) :
    Swapped options input snapshot old desired o w' := by
  have hinv : Inv [] [] (w.expose (.config desired.revision.epoch)) := h.settled.inv.unseen rfl
  have hok := h.settled.inv.chronicle.current old h.serving.current
  refine ⟨⟨hinv.quiet hw, ?_, ?_⟩, hexposed, ?_, ⟨h.current, ?_, hok.epoch ▸ hok.spec⟩, ?_,
    h.source, hfrom, hfile,
    hold.path, ?_⟩
  · exact (congrArg Ctrl.current hw.ctrl).trans h.serving.current
  · exact hw.forwarders.trans h.serving.tasks
  · exact (congrArg Ctrl.quarantine (hw.ctrl.trans h.untouched.ctrl)).trans h.quarantine
  · exact hw.ledger.trans h.untouched.ledger
  · exact (congrArg History.loads hw.history).trans h.loads
  · obtain ⟨bytes, hbytes, hserialize, hhash⟩ := hold.contents
    refine ⟨bytes, ?_, hserialize, hhash⟩
    rw [← hbytes, ← hbackup]
    refine hw.files _ ?_
    obtain ⟨counter, rfl⟩ := hmine
    rintro (hsame | hsame) <;> cases hsame

/-- The in-place strategies. -/
theorem applyInPlace_spec {prepared : PreparedApply} {change : ConfigChange}
    (h : Preparing options input snapshot old o w)
    (hfrom : PreparedFrom options input old.revision.epoch (old.revision.generation + 1) snapshot
      prepared.desired)
    (hstaged : StagedFor options.site prepared.desired prepared.staged w) :
    machine.wp (Cut options.site) (applyInPlace options old prepared change)
      (fun result w' => Settled options.site w' ∧ ApplyContract options input o result w') w := by
  obtain ⟨hepoch, hgeneration⟩ := hfrom.revision_eq
  have hmine : ∃ counter, prepared.staged = .staged old.revision.epoch counter := hepoch ▸ hstaged.1
  have hpresent : w.files.lookup prepared.staged ≠ none := by
    obtain ⟨-, bytes, hbytes, -, -⟩ := hstaged
    simp [hbytes]
  have hdistinct : ¬ (Artifact.config old.revision.epoch = prepared.staged) := by
    obtain ⟨counter, hcounter⟩ := hmine
    rw [hcounter]
    exact (by rintro ⟨⟩)
  simp only [applyInPlace, hgeneration]
  refine wp_andThen (h.backup hmine hpresent) ?_ fun error w' hw' => hw'.1.error
  rintro saved w₁ ⟨h₁, hsaved⟩
  obtain ⟨hsaved, hkept, hbackup⟩ := hsaved saved rfl
  have hstaged₁ := hstaged.congr hkept
  have hcommitted : w₁.isCommitted (.config prepared.desired.revision.epoch) = true := by
    simp [World.isCommitted, h₁.serving.current, hepoch]
  have hexposed : ∀ {w'}, Quiet (ofCommit prepared.staged (.config prepared.desired.revision.epoch))
      noInstance (w₁.expose (.config prepared.desired.revision.epoch)) w' →
      w'.history.exposed = true := by
    intro w' hw'
    rw [hw'.history]
    simp [World.expose, hcommitted]
  refine wp_seq (commitReplace_spec (fun w' hw' => (h₁.quiet hw' hdistinct).settled.cut)
    fun w' hw' hcovered => ?_) ?_
  · simp [hexposed hw'] at hcovered
  intro result w₂ hreplaced
  cases result with
  | error error =>
    have h₂ := h₁.quiet hreplaced hdistinct
    have hremoved : ¬ (Artifact.config old.revision.epoch = saved.path) := by
      subst hsaved
      exact (by rintro ⟨⟩)
    refine wp_seq (wp_frame (T := (· = saved.path)) (removeBackup_quietly rfl)
      fun w' hw' => (h₂.quiet hw' hremoved).settled.cut) fun _ w₃ hw₃ => ?_
    exact (h₂.quiet hw₃ hremoved).error
  | ok commit =>
    obtain ⟨hq₂, contents, hcontents, htarget⟩ := hreplaced
    have hswapped : Swapped options input snapshot old prepared.desired o w₂ :=
      h₁.swapped hfrom hmine hq₂ (hexposed hq₂) (hstaged₁.committed hfrom.path hcontents htarget)
        h.serving.file hbackup
    refine wp_seq (wp_frame (T := noArtifact) (I := noInstance)
      (withinReconcileTimeout_quietly reconcileInPlace_quietly)
      fun w' hw' => (hswapped.quiet hw').cut) fun reconciled w₃ hw₃ => ?_
    cases reconciled with
    | true =>
      refine adoptInPlace_spec (hswapped.quiet hw₃) hsaved fun w' hnext => ?_
      cases change <;> exact hnext
    | false =>
      exact wp_seq (restartWithCompensation_spec (hswapped.quiet hw₃) hsaved)
        fun _ _ hdone => ⟨hdone.1, hdone.2.withDurabilityResult⟩

/-- The choice of a strategy. -/
theorem applyChange_spec {prepared : PreparedApply}
    (h : Preparing options input snapshot old o w)
    (hfrom : PreparedFrom options input old.revision.epoch (old.revision.generation + 1) snapshot
      prepared.desired)
    (hstaged : StagedFor options.site prepared.desired prepared.staged w)
    (hnamed : prepared.staged = .staged old.revision.epoch o.temps)
    (hfiles : ∀ a, a ≠ .staged old.revision.epoch o.temps →
      w.files.lookup a = o.files.lookup a) :
    machine.wp (Cut options.site) (applyChange options old input snapshot prepared)
      (fun result w' => Settled options.site w' ∧ ApplyContract options input o result w') w := by
  have hdropped : ∀ {w'}, Quiet (· = prepared.staged) noInstance w w' →
      Preparing options input snapshot old o w' := by
    rw [hnamed]
    exact fun hw => h.quiet hw nofun
  simp only [applyChange]
  split
  · exact wp_seq dropStaged_spec fun _ _ hw => (hdropped hw).error
  · refine wp_seq dropStaged_spec fun _ w₁ hw => ⟨(hdropped hw).settled, (hdropped hw).untouched,
      ⟨old, h.current, rfl⟩, fun a ha => ?_⟩
    rw [hw.files a (hnamed ▸ ha), hfiles a ha]
  · exact wp_seq dropStaged_spec fun _ _ hw => switchWithCompensation_spec (hdropped hw)
  · exact applyInPlace_spec h hfrom hstaged

end Preparing

/-- The world after a load. -/
theorem preparing_loaded {o : World} (hsettled : Settled options.site o)
    (hcurrent : o.ctrl.current = some old) (hquarantine : o.ctrl.quarantine = [])
    (hw : Quiet noArtifact noInstance o w) (hsource : snapshot.sourcePath = input.configPath) :
    Preparing options input snapshot old o (w.step (.load input.configPath) (.ok snapshot)) where
  settled := (hsettled.quiet hw fun _ _ => id).loaded
  untouched := ⟨hw.ctrl, (congrArg History.publications hw.history :),
    hw.ledger⟩
  current := hcurrent
  quarantine := hquarantine
  numbering := hw.numbering
  loads := congrArg (snapshot :: ·) (congrArg History.loads hw.history)
  source := hsource

/-- An apply that is turned away changes nothing. -/
theorem turnedAway {error : Error} {expected : Option RevisionId} (h : Settled options.site w)
    (hw : Quiet noArtifact noInstance w w') (hfiles : w'.files = w.files)
    (haway : ∀ id, expected = some id → TurnedAway id error) :
    Settled options.site w' ∧ ApplyContract options input w (.error error) w' ∧
      Guarded expected w (.error error) w' := by
  refine ⟨h.quiet hw fun _ _ => id, Or.inl ⟨hw.ctrl, by rw [hw.history], hw.ledger⟩, ?_⟩
  exact fun id hid => Or.inr ⟨⟨error, rfl, haway id hid⟩, hw.ctrl, hfiles, hw.history⟩

/-- The quarantine error names an epoch. -/
theorem rejectQuarantine_error {ctrl : Ctrl} {error : Error}
    (h : rejectQuarantine ctrl = .error error) :
    ∃ epoch reason, error = .managerQuarantined epoch reason := by
  unfold rejectQuarantine at h
  match hlist : ctrl.quarantine with
  | [] => simp [hlist, quarantineError] at h
  | [first] =>
    simp only [hlist, quarantineError, Except.error.injEq] at h
    exact ⟨_, _, h.symm⟩
  | first :: second :: rest =>
    simp only [hlist, quarantineError, Except.error.injEq] at h
    exact ⟨_, _, h.symm⟩

theorem borrow_files :
    machine.wp (fun _ => True) handle.borrow
      (fun _ w' => w'.files = w.files ∧ w'.temps = w.temps) w :=
  wp_sync rfl fun _ _ => ⟨rfl, rfl⟩

/-- `CoreManager::apply_config`. -/
theorem applyConfig_spec {expected : Option RevisionId} (h : Settled options.site w) :
    machine.wp (Cut options.site) (applyConfig options input expected) (fun result w' =>
      Settled options.site w' ∧ ApplyContract options input w result w' ∧
        Guarded expected w result w') w := by
  unfold applyConfig
  refine wp_seq getCtrl_spec ?_
  rintro _ _ ⟨rfl, rfl⟩
  cases hreject : rejectQuarantine w.ctrl with
  | error error =>
    obtain ⟨epoch, reason, rfl⟩ := rejectQuarantine_error hreject
    exact turnedAway h (.refl w) rfl fun _ _ => .quarantined epoch reason
  | ok value =>
  have hquarantine := rejectQuarantine_ok hreject
  cases hcurrent : w.ctrl.current with
  | none => exact turnedAway h (.refl w) rfl fun _ _ => .notStarted
  | some old =>
  refine wp_seq (wp_and (borrow_spec (T := noArtifact) (I := noInstance) (.refl w))
    borrow_files) ?_
  rintro status w₁ ⟨⟨hw₁, -, -⟩, hfiles₁, htemps₁⟩
  split
  · exact turnedAway h hw₁ hfiles₁ fun _ _ => .notStarted
  split
  · rename_i conflict hconflict
    obtain ⟨hexpected, hne⟩ := Option.filter_eq_some_iff.mp hconflict
    refine turnedAway h hw₁ hfiles₁ fun id hid => ?_
    obtain rfl := Option.some.inj (hid.symm.trans hexpected)
    exact .conflict _ fun heq => by simp [heq] at hne
  · rename_i hfilter
    have hguard : ∀ result w', Guarded expected w result w' := by
      intro result w' id hid
      have heq : id = old.revision.id := by simpa [hid] using hfilter
      exact Or.inl ⟨old, hcurrent, heq.symm⟩
    have hstart : Settled options.site w₁ := h.quiet hw₁ fun _ _ => id
    have hfinish : ∀ result w', Settled options.site w' ∧ ApplyContract options input w result w' →
        Settled options.site w' ∧ ApplyContract options input w result w' ∧
          Guarded expected w result w' :=
      fun result w' hdone => ⟨hdone.1, hdone.2, hguard result w'⟩
    refine wp_imp ?_ hfinish
    refine wp_andThen (Q := fun answer w' =>
      w₁.allowed (.load input.configPath) answer ∧ w' = w₁.step (.load input.configPath) answer)
      (wp_perform (fun _ => hstart.cut) fun answer hanswer =>
        ⟨fun _ => hstart.loaded.cut, hanswer, rfl⟩) ?_ ?_
    · rintro snapshot w₂ ⟨hsource, rfl⟩
      have h₂ := preparing_loaded h hcurrent hquarantine hw₁ (hsource snapshot rfl)
      have hpath := (h.file old hcurrent).path
      have hkept : ¬ isStaged old.revision.epoch (w₁.step (.load input.configPath) (.ok snapshot))
          (.config old.revision.epoch) := nofun
      refine wp_andThen (prepareApply_spec hpath fun w' hw' => (h₂.quiet hw' hkept).settled.cut) ?_
        fun error w₃ hw₃ => (h₂.quiet hw₃.1 hkept).error
      rintro prepared w₃ ⟨hq₃, hprepared⟩
      obtain ⟨hfrom, hstaged, hnamed⟩ := hprepared prepared rfl
      have hnamed : prepared.staged = .staged old.revision.epoch w.temps := htemps₁ ▸ hnamed
      refine applyChange_spec (h₂.quiet hq₃ hkept) hfrom hstaged hnamed fun a ha => ?_
      rw [hq₃.files a fun hmine => ha (htemps₁ ▸ hmine)]
      exact congrArg (·.lookup a) hfiles₁
    · rintro error w₂ ⟨-, rfl⟩
      exact ⟨hstart, Or.inl ⟨hw₁.ctrl, (congrArg History.publications hw₁.history :), hw₁.ledger⟩⟩

end Nyanpasu.Manager
