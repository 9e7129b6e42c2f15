import Nyanpasu.Manager.SwitchLaws

/-!
# What a graceful switch does

The bootstrap is booted beside the serving instance. Every way out of the overlap stops one
of the two, or quarantines the epoch that could not be stopped.
-/

namespace Nyanpasu.Manager

open Config Machine

variable {options : Options} {b w w' : World} {T : Artifact → Prop} {launch : PreparedLaunch}
  {prepared : PreparedGraceful} {spec : InstanceSpec} {snapshot : ConfigSnapshot}
  {resolved : ResolvedFeatures} {handle : Instance} {active : Active} {oldEpoch : ℕ}
  {warning : Option String} {site : Site} {epoch : ℕ}

/-- A warning does not change what was done. -/
theorem SwitchResult.withDurability {result : Except Error SwitchOutcome}
    (h : SwitchResult spec epoch b w result) :
    SwitchResult spec epoch b w (withSwitchDurabilityResult result warning) := by
  cases result <;> cases warning
  · exact h
  · exact h.error _
  · exact h
  · exact h.ok _

/-- The record of an old epoch that was left behind is not seen by a settled world. -/
theorem Settled.uncleaned (h : Settled site w) :
    Settled site (w.step (.mark (.uncleaned oldEpoch)) ()) where
  inv := h.inv.unseen rfl
  file := fun active hactive => (h.file active hactive).congr rfl
  tasks := h.tasks
  silent := h.silent
  spoken := fun active hactive => (h.spoken active hactive).imp_right
    fun hspoken => ⟨hspoken.published, hspoken.heard⟩
  covered := h.covered

/-- The end of a graceful switch installs the instance and removes the old files. -/
theorem finishSwitch_spec {outcome : SwitchOutcome} (h : Mid b T [handle] [] w)
    (hepoch : launch.revision.epoch = handle.epoch)
    (hready : (w.processes handle.id).ready = true) (hspec : handle.spec = launch.effectiveSpec)
    (hquarantine : b.ctrl.quarantine = [])
    (hfile : Committed site w launch.revision launch.effectiveDocument)
    (hfresh : FreshEpoch b launch.revision.epoch) (hold : oldEpoch ≠ launch.revision.epoch)
    (hfrom : PreparedFrom options spec epoch 1 snapshot launch) :
    machine.wp (Cut site) (finishSwitch options handle launch oldEpoch outcome warning)
      (fun result w' => Settled site w' ∧ SwitchResult spec epoch b w' result) w := by
  refine wp_seq (installSwitched_spec h (installable_of_fresh hepoch hready hspec hquarantine
    hfile hfresh hfrom)) ?_
  rintro _ w₁ ⟨hsettled, hlaunched⟩
  have hkept : ∀ other, w₁.ctrl.current = some other →
      ¬ ofEpoch oldEpoch (.config other.revision.epoch) := by
    intro other hother
    obtain rfl := Option.some.inj (hlaunched.current.symm.trans hother)
    exact fun h => hold h.symm
  refine wp_seq (wp_frame cleanupEpoch_quietly fun w' hw' => (hsettled.quiet hw' hkept).cut) ?_
  intro result w₂ hw₂
  have hsettled₂ : Settled site w₂ := hsettled.quiet hw₂ hkept
  have hcurrent : w₂.ctrl.current = some (launch.activate handle ⟨handle.id, handle.epoch⟩) := by
    rw [hw₂.ctrl, hlaunched.current]
  have hledger := hw₂.ledger.trans hlaunched.ledger
  have hclear : w₂.history.muted = false := by rw [hw₂.history, hlaunched.clear]
  cases result with
  | ok value =>
    exact ⟨hsettled₂,
      (SwitchResult.switched ⟨hcurrent, hledger, hclear⟩ (hfrom.opens hfresh)).withDurability⟩
  | error error =>
    refine wp_seq (Q := fun _ w' => w' = w₂.step (.mark (.uncleaned oldEpoch)) ())
      (wp_sync rfl fun _ _ => rfl) ?_
    rintro _ _ rfl
    have huncleaned : w₂.history.uncleaned = b.history.uncleaned :=
      congrArg Ledger.uncleaned hledger
    have hleft : (w₂.step (.mark (.uncleaned oldEpoch)) ()).ledger =
        { b.ledger.install (launch.activate handle ⟨handle.id, handle.epoch⟩) with
          uncleaned := oldEpoch :: b.ledger.uncleaned } := by
      rw [← hledger]
      simp only [World.ledger, World.step, huncleaned]
    have hresult : SwitchResult spec epoch b (w₂.step (.mark (.uncleaned oldEpoch)) ())
        (.error error : Except Error SwitchOutcome) :=
      .uncleaned hcurrent hleft (hfrom.opens hfresh)
    exact ⟨hsettled₂.uncleaned, hresult.withDurability⟩

/-- A replacement that failed ends the operation. -/
theorem wp_failedReplacement {α : Type} {error : Error} {pending : List ℕ}
    {latched failed : Action α} {post : α → World → Prop}
    (h : Mid b T [] pending w) (hconfirmed : isStopUnconfirmed error = false → pending = [])
    (hlatched : machine.wp (Cut site) latched post w)
    (hfailed : Mid b T [] [] w → machine.wp (Cut site) failed post w) :
    machine.wp (Cut site) (if isStopUnconfirmed error then latched else failed) post w := by
  cases herror : isStopUnconfirmed error with
  | true => exact hlatched
  | false =>
    obtain rfl := hconfirmed herror
    exact hfailed h

/-- The replacement of a bootstrap whose inbounds were not restored. -/
theorem replaceBootstrap_spec (h : Mid b T [handle] [] w) (hquarantine : b.ctrl.quarantine = [])
    (hepoch : launch.revision.epoch = handle.epoch)
    (hfile : Committed site w launch.revision launch.effectiveDocument)
    (hfresh : FreshEpoch b launch.revision.epoch) (hold : oldEpoch ≠ launch.revision.epoch)
    (hfrom : PreparedFrom options spec epoch 1 snapshot launch) :
    machine.wp (Cut site) (replaceBootstrap options handle launch oldEpoch warning)
      (fun result w' => Settled site w' ∧ SwitchResult spec epoch b w' result) w := by
  have hquarantine : w.ctrl.quarantine = [] := (h.quarantine rfl).trans hquarantine
  have hfresh : FreshEpoch w launch.revision.epoch := hfresh.of_since h.since
  have hnone : w.ctrl.current = b.ctrl.current ∨ w.ctrl.current = none := Or.inr h.current
  have hledger := h.since.ledger
  have hend : ∀ {result : Except Error SwitchOutcome} {w'}, ((∃ error, result = .error error) ∧
      Settled site w' ∧ Ended w w') → Settled site w' ∧
        SwitchResult spec epoch b w' (withSwitchDurabilityResult result warning) :=
    fun hend => ⟨hend.2.1, ((Ended.failed hend).2.rebase hnone hledger).withDurability⟩
  have h : Mid w (ofProcess launch.revision.epoch) [handle] [] w := h.rebase
  unfold replaceBootstrap
  refine wp_seq h.stop fun result w₁ h₁ => ?_
  cases result with
  | error error =>
    rw [← hepoch] at h₁
    exact wp_seq (h₁.2.latchUnconfirmed h₁.1) fun _ _ => hend
  | ok value =>
    refine wp_seq (spawnReplacement_spec h₁ hquarantine hfresh.allocated) fun result w₂ h₂ => ?_
    cases result with
    | ok replacement =>
      obtain ⟨hsame, hspec, -, hready, h₂⟩ := h₂
      refine wp_imp (finishSwitch_spec h₂ hsame.symm hready hspec hquarantine
        (h₂.committed hfile not_ofProcess_config) hfresh hold hfrom) ?_
      exact fun _ _ hdone => ⟨hdone.1, hdone.2.rebase hnone hledger⟩
    | error error =>
      obtain ⟨pending, h₂, hconfirmed, hpending, hunlisted⟩ := h₂
      refine wp_failedReplacement h₂ hconfirmed ?_ fun h₂ => ?_
      · exact wp_seq (h₂.latch hpending hunlisted) fun error _ h => hend ⟨⟨error, rfl⟩, h⟩
      · have h₂ := h₂.mono fun _ => ofEpoch_of_ofProcess
        refine wp_seq (h₂.cleanup fun _ => id) fun _ w₃ h₃ => ?_
        exact wp_seq h₃.terminal fun _ _ h => hend ⟨⟨error, rfl⟩, h⟩

theorem patchAndVerify_quietly {I : ℕ → Prop} {patch : ConfigPatch}
    {projection : RuntimeProjection} :
    (patchAndVerify handle patch projection).Uses (Effect.Quietly T I) := by
  refine Program.uses_bind (Program.uses_perform trivial) fun client => ?_
  cases client with
  | error error => trivial
  | ok value =>
    refine Program.uses_bind (Program.uses_perform trivial) fun _ => ?_
    refine Program.uses_bind (Program.uses_perform trivial) fun runtime => ?_
    cases runtime with
    | error error => trivial
    | ok runtime =>
      simp only
      split
      · exact Program.uses_perform trivial
      · trivial

theorem withinReconcileTimeout_quietly {I : ℕ → Prop} {attempt : Action Bool}
    (h : attempt.Uses (Effect.Quietly T I)) :
    (withinReconcileTimeout attempt).Uses (Effect.Quietly T I) :=
  Program.uses_bind (Program.uses_timeout h trivial) fun _ => trivial

/-- The restoration of the inbounds talks to the core alone. -/
theorem reconcileBootstrap_quietly {I : ℕ → Prop}
    {restoration : Option (ConfigPatch × RuntimeProjection)} :
    (reconcileBootstrap handle restoration).Uses (Effect.Quietly T I) := by
  refine withinReconcileTimeout_quietly ?_
  cases restoration with
  | none => exact Program.uses_perform trivial
  | some restoration => exact patchAndVerify_quietly

/-- The part of a graceful switch after the death of the old instance. -/
theorem commitFull_spec (h : Mid b noArtifact [handle] [] w) (hquarantine : b.ctrl.quarantine = [])
    (hepoch : prepared.launch.revision.epoch = handle.epoch)
    (hspec : handle.spec = prepared.launch.effectiveSpec)
    (hfrom : PreparedFrom options spec epoch 1 snapshot prepared.launch)
    (hready : (w.processes handle.id).ready = true)
    (hstaged : StagedFor site prepared.launch prepared.fullStaged w)
    (hfresh : FreshEpoch b prepared.launch.revision.epoch)
    (hold : oldEpoch ≠ prepared.launch.revision.epoch) :
    machine.wp (Cut site) (commitFull options handle prepared oldEpoch)
      (fun result w' => Settled site w' ∧ SwitchResult spec epoch b w' result) w := by
  have hmine : ofEpoch prepared.launch.revision.epoch prepared.fullStaged := by
    obtain ⟨⟨counter, hnamed⟩, -⟩ := hstaged
    rw [hnamed]
    rfl
  have h : Mid b (ofEpoch prepared.launch.revision.epoch) [handle] [] w :=
    h.mono fun _ h => h.elim
  have hexpose : w.expose (.config prepared.launch.revision.epoch) = w :=
    World.expose_of_none h.current
  unfold commitFull
  refine wp_seq (commitReplace_spec
    (fun w' hw' => (h.quiet (hw'.ofDropped hmine) fun _ => id).cut)
    fun w' hw' => (h.quiet (hexpose ▸ hw'.ofCommitted hmine) fun _ => id).cut) ?_
  intro result w₁ hreplaced
  cases result with
  | error error =>
    have h₁ := h.quiet (hreplaced.ofDropped hmine) fun _ => id
    refine wp_seq h₁.stop fun result w₂ h₂ => ?_
    cases result with
    | ok value =>
      refine wp_seq (h₂.cleanup fun _ => id) fun _ w₃ h₃ => ?_
      exact wp_imp (h₃.latchOrFail hquarantine) fun _ _ h => Ended.failed h
    | error stopError =>
      rw [← hepoch] at h₂
      exact wp_seq (h₂.2.latch (by simp) (h₂.2.notMem_quarantined List.mem_cons_self))
        fun error _ h => Ended.failed ⟨⟨error, rfl⟩, h⟩
  | ok commit =>
    obtain ⟨hq₁, contents, hcontents, htarget⟩ := hreplaced
    rw [hexpose] at hq₁
    have h₁ := h.quiet (hq₁.ofCommitted hmine) fun _ => id
    have hfile := hstaged.committed hfrom.path hcontents htarget
    refine wp_seq (wp_frame (T := noArtifact) (I := noInstance) reconcileBootstrap_quietly
      fun w' hw' => (h₁.quiet hw' nofun).cut) fun reconciled w₂ hw₂ => ?_
    have h₂ := h₁.quiet hw₂ nofun
    have hfile₂ := hfile.congr (hw₂.files _ id)
    split
    · refine finishSwitch_spec h₂ hepoch ?_ hspec hquarantine hfile₂ hfresh hold hfrom
      exact (hw₂.grows _).ready ((hq₁.grows _).ready hready)
    · exact replaceBootstrap_spec h₂ hquarantine hepoch hfile₂ hfresh hold hfrom

theorem dropStaged_spec {staged : Artifact} {cut : World → Prop} :
    machine.wp cut (dropStaged staged) (fun _ => Quiet (· = staged) noInstance w) w := by
  refine wp_seq (Q := fun _ => Quiet (· = staged) noInstance w) ?_ fun _ _ h => h
  have hstart : Quiet (· = staged) noInstance w w := .refl w
  exact wp_sync rfl fun removed _ => hstart.dropStaged rfl removed

/-- Both the old instance and the bootstrap have to go. -/
theorem abandonBootstrap_spec {fullStaged : Artifact} {error : Error}
    (h : Mid b anyArtifact [handle] [oldEpoch] w) (herror : isStopUnconfirmed error = true) :
    machine.wp (Cut site) (abandonBootstrap options handle fullStaged oldEpoch error)
      (fun result w' => Settled site w' ∧ SwitchResult spec epoch b w' result) w := by
  unfold abandonBootstrap
  refine wp_seq dropStaged_spec fun _ w₁ hw₁ => ?_
  have h₁ := h.quiet hw₁ fun _ _ => trivial
  refine wp_seq h₁.stop fun result w₂ h₂ => ?_
  cases result with
  | ok value =>
    refine wp_seq (h₂.cleanup fun _ _ => trivial) fun _ w₃ h₃ => ?_
    exact wp_imp (h₃.latchUnconfirmed herror) fun _ _ h => Ended.failed h
  | error newError =>
    simp only [herror, if_true]
    refine wp_seq h₂.2.record fun _ w₃ h₃ => ?_
    exact wp_seq (h₃.latch (by simp) (h₃.notMem_quarantined List.mem_cons_self))
      fun error _ h => Ended.failed ⟨⟨error, rfl⟩, h⟩

/-- A bootstrap that is not ready has to go; the old instance is retained. -/
theorem rejectBootstrap_spec {fullStaged : Artifact} {error : Error}
    (h : Serving site active [handle] [] w) (hexposed : w.history.exposed = true)
    (hstaged : ofEpoch handle.epoch fullStaged) (hnew : handle.epoch ≠ active.revision.epoch) :
    machine.wp (Cut site) (rejectBootstrap options handle fullStaged error)
      (fun result w' => Settled site w' ∧ SwitchResult spec epoch w w' result) w := by
  unfold rejectBootstrap
  refine wp_seq dropStaged_spec fun _ w₁ hw₁ => ?_
  have h₁ := h.quiet (hw₁.ofDropped hstaged) fun h => hnew h.symm
  refine wp_seq (h₁.stop (by rw [hw₁.history, hexposed])) ?_
  rintro result w₂ ⟨hkept, hsame, h₂⟩
  have hledger : w₂.ledger = w.ledger := hkept.trans hw₁.ledger
  have hcurrent : w₂.ctrl.current = w.ctrl.current := hsame.trans (by rw [hw₁.ctrl])
  cases result with
  | ok value =>
    refine wp_imp (h₂.refuse hnew) ?_
    rintro _ w₃ ⟨⟨error, rfl⟩, hsettled, hctrl, hkept⟩
    exact ⟨hsettled, .kept (by rw [hctrl, hcurrent]) (hkept.trans hledger)⟩
  | error stopError =>
    refine wp_seq h₂.2.latch ?_
    rintro error w₃ ⟨hsettled, hsame, hkept⟩
    exact ⟨hsettled, .kept (hsame.trans hcurrent) (hkept.trans hledger)⟩

/-- The point of no return of a graceful switch. -/
theorem handOver_spec (h : Serving site active [handle] [] w)
    (hquarantine : w.ctrl.quarantine = [])
    (hepoch : prepared.launch.revision.epoch = handle.epoch)
    (hspec : handle.spec = prepared.launch.effectiveSpec)
    (hfrom : PreparedFrom options spec epoch 1 snapshot prepared.launch)
    (hready : (w.processes handle.id).ready = true)
    (hstaged : StagedFor site prepared.launch prepared.fullStaged w)
    (hfresh : FreshEpoch w prepared.launch.revision.epoch) :
    machine.wp (Cut site) (handOver options handle prepared)
      (fun result w' => Settled site w' ∧ SwitchResult spec epoch w w' result) w := by
  have hspawned : handle.id < w.spawned :=
    (h.inv.custody.held handle (by simp [World.held, h.current])).spawned
  have hold : active.handle.epoch ≠ prepared.launch.revision.epoch := by
    rw [← (h.inv.chronicle.current active h.current).epoch]
    exact (hfresh.ne_current h).symm
  unfold handOver
  refine h.take ?_
  refine wp_seq (h.abort (T := noArtifact) (.refl _)) fun _ w₁ h₁ => ?_
  refine wp_seq h₁.stop fun result w₂ h₂ => ?_
  cases result with
  | error error => exact abandonBootstrap_spec (h₂.2.mono fun _ _ => trivial) h₂.1
  | ok value =>
    exact commitFull_spec h₂ hquarantine hepoch hspec hfrom
      ((h₂.since.grows _ hspawned).ready hready)
      (hstaged.congr (h₂.since.files _ id)) hfresh hold

/-- `graceful_switch`. -/
theorem gracefulSwitch_spec (h : Serving options.site active [] [] w)
    (hsettled : Settled options.site w) (hquarantine : w.ctrl.quarantine = []) :
    machine.wp (Cut options.site) (gracefulSwitch options spec snapshot resolved)
      (fun result w' => Settled options.site w' ∧
        SwitchResult spec w.nextEpoch w w' result) w := by
  unfold gracefulSwitch
  refine wp_seq getCtrl_spec ?_
  rintro _ _ ⟨rfl, rfl⟩
  refine wp_seq nextEpoch_spec ?_
  rintro _ _ ⟨rfl, hroom, rfl⟩
  have hfresh : FreshEpoch (w.step .nextEpoch w.nextEpoch) w.nextEpoch := h.inv.freshEpoch hroom
  have h₁ : Serving options.site active [] [] (w.step .nextEpoch w.nextEpoch) :=
    hsettled.allocated.serving h.current
  have hnew := hfresh.ne_current h₁
  have hother : ¬ ofEpoch w.nextEpoch (.config active.revision.epoch) := fun h => hnew h.symm
  refine wp_seq (prepareGraceful_spec fun w' hw' _ => (h₁.quiet hw' hother).base) ?_
  rintro result w₂ ⟨hq₂, hprepared⟩
  have h₂ := h₁.quiet hq₂ hother
  have hledger : w₂.ledger = w.ledger := hq₂.ledger
  have hsame : w₂.ctrl.current = w.ctrl.current := (congrArg Ctrl.current hq₂.ctrl :)
  cases result with
  | error error =>
    refine wp_imp (h₂.refuse hnew) ?_
    rintro _ w₃ ⟨⟨error, rfl⟩, hsettled, hctrl, hkept⟩
    exact ⟨hsettled, .kept (by rw [hctrl, hsame]) (hkept.trans hledger)⟩
  | ok prepared =>
    obtain ⟨hfrom, hstaged⟩ := hprepared prepared rfl
    have hepoch := hfrom.epoch_eq
    have hmine : ofEpoch w.nextEpoch prepared.fullStaged := by
      obtain ⟨⟨counter, hnamed⟩, -⟩ := hstaged
      rw [hnamed, ← hepoch]
      rfl
    refine wp_seq publish_spec ?_
    rintro _ _ ⟨now, rfl⟩
    generalize hw₃ : w₂.step _ now = w₃
    have h₃ : Serving options.site active [] [] w₃ := hw₃ ▸ h₂.published
    have hledger₃ : w₃.ledger = w.ledger := hw₃ ▸ hledger
    have hsame₃ : w₃.ctrl.current = w.ctrl.current := hw₃ ▸ hsame
    have hquarantine₃ : w₃.ctrl.quarantine = [] := by
      rw [← hw₃]
      exact (congrArg Ctrl.quarantine hq₂.ctrl).trans hquarantine
    have hfresh₃ : FreshEpoch w₃ w.nextEpoch := by
      rw [← hw₃]
      exact hfresh.congr hq₂.numbering (installs_of_ledger hledger)
    have hstaged₃ : StagedFor options.site prepared.launch prepared.fullStaged w₃ :=
      hstaged.congr (by rw [← hw₃]; rfl)
    have hfreshHandle : w.nextEpoch ≠ active.handle.epoch := by
      rw [← (h₃.inv.chronicle.current active h₃.current).epoch]
      exact hnew
    have hbooted : ∀ {w'}, SpawnedBy .gracefulSwitch w.nextEpoch w₃ w' →
        w'.history.exposed = true := fun hw => by rw [hw.history]
    refine wp_seq (spawnInstance_spec
      (fun w' hw' _ => (h₃.quiet hw' not_ofProcess_config).base) fun w' hw' hcovered => ?_) ?_
    · simp [hbooted hw'] at hcovered
    intro result w₄ hspawned
    cases result with
    | error error =>
      have h₄ := h₃.quiet hspawned not_ofProcess_config
      refine wp_seq dropStaged_spec fun _ w₅ hw₅ => ?_
      refine wp_imp ((h₄.quiet (hw₅.ofDropped hmine) hother).refuse hnew) ?_
      rintro _ w₆ ⟨⟨error, rfl⟩, hsettled, hctrl, hkept⟩
      refine ⟨hsettled, .kept ?_ ?_⟩
      · rw [hctrl, hw₅.ctrl, hspawned.ctrl, hsame₃]
      · rw [hkept, hw₅.ledger, hspawned.ledger, hledger₃]
    | ok handle =>
      obtain ⟨rfl, hspawned⟩ := hspawned
      have h₄ : Serving options.site active [⟨_, _, prepared.launch.effectiveSpec,
          prepared.launch.controller⟩] [] _ :=
        h₃.booted hspawned hquarantine₃ hfresh₃.allocated hfreshHandle
      refine wp_seq (waitReady_spec fun w' hw' hcovered => ?_) ?_
      · rw [hw'.history, hbooted hspawned] at hcovered
        cases hcovered
      rintro result w₅ ⟨hw₅, hready⟩
      have h₅ := h₄.quiet hw₅ id
      have hledger₅ : w₅.ledger = w.ledger := by
        rw [hw₅.ledger, ← hledger₃]
        simp only [World.ledger, hspawned.ctrl, hspawned.history]
      have hsame₅ : w₅.ctrl.current = w.ctrl.current ∨ w₅.ctrl.current = none :=
        Or.inl (by rw [hw₅.ctrl, hspawned.ctrl, hsame₃])
      cases result with
      | error error =>
        exact wp_imp
          (rejectBootstrap_spec h₅ (by rw [hw₅.history, hbooted hspawned]) hmine hnew)
          fun _ _ hdone => ⟨hdone.1, hdone.2.rebase hsame₅ hledger₅⟩
      | ok value =>
        have hfresh₅ : FreshEpoch w₅ prepared.launch.revision.epoch := by
          rw [hepoch]
          refine hfresh₃.congr (hw₅.numbering.trans ?_)
            (installs_of_ledger (hledger₅.trans hledger₃.symm))
          simp only [World.numbering, hspawned.counter, hspawned.history]
        have hstaged₅ : StagedFor options.site prepared.launch prepared.fullStaged w₅ := by
          refine hstaged₃.congr ((hw₅.files _ id).trans (hspawned.files _ ?_))
          obtain ⟨⟨counter, hnamed⟩, -⟩ := hstaged₃
          rw [hnamed]
          rfl
        refine wp_imp (handOver_spec h₅ ?_ hepoch rfl hfrom (hready rfl) hstaged₅ hfresh₅) ?_
        · rw [hw₅.ctrl, hspawned.ctrl, hquarantine₃]
        · exact fun _ _ hdone => ⟨hdone.1, hdone.2.rebase hsame₅ hledger₅⟩

/-- `switch_locked`. -/
theorem switchLocked_spec (h : Settled options.site w) (hquarantine : w.ctrl.quarantine = []) :
    machine.wp (Cut options.site) (switchLocked options spec)
      (fun result w' => Settled options.site w' ∧
        SwitchResult spec w.nextEpoch w w' result) w := by
  unfold switchLocked
  refine wp_seq getCtrl_spec ?_
  rintro _ _ ⟨rfl, rfl⟩
  refine wp_seq isRunning_spec ?_
  rintro running w₁ ⟨hq₁, hcurrent⟩
  have h₁ : Settled options.site w₁ := h.quiet hq₁ fun _ _ => id
  have hquarantine₁ : w₁.ctrl.quarantine = [] := by rw [hq₁.ctrl, hquarantine]
  have hsame₁ : w₁.ctrl.current = w.ctrl.current := by rw [hq₁.ctrl]
  cases running with
  | false =>
    refine wp_andThen (discardStale_spec h₁) ?_ ?_
    · intro _ w₂ h₂
      have hstart : machine.wp (Cut options.site) (startLocked options spec) (fun result w' =>
          Settled options.site w' ∧ StartResult spec w₁.nextEpoch w₁ w' result) w₂ :=
        startLocked_spec h₂ hquarantine₁
      rw [nextEpoch_of_numbering hq₁.numbering] at hstart
      refine wp_andThen hstart ?_ ?_
      · exact fun _ _ hdone =>
          ⟨hdone.1, (hdone.2.switchResult.ok _).rebase (Or.inl hsame₁) hq₁.ledger⟩
      · exact fun _ _ hdone =>
          ⟨hdone.1, (hdone.2.switchResult.error _).rebase (Or.inl hsame₁) hq₁.ledger⟩
    · exact fun _ _ hdone => ⟨hdone.1, .ended hdone.2.1 (hdone.2.2.trans hq₁.ledger)⟩
  | true =>
    refine wp_andThen (Q := fun _ w' => Settled options.site w' ∧ w'.ctrl = w.ctrl ∧
      w'.ledger = w.ledger ∧ w'.numbering = w.numbering) ?_ ?_ ?_
    · refine wp_perform (fun _ => h₁.cut) fun answer _ =>
        ⟨fun _ => h₁.loaded.cut, h₁.loaded, ctrl_load.trans hq₁.ctrl,
          ledger_load.trans hq₁.ledger, numbering_load.trans hq₁.numbering⟩
    · rintro snapshot w₂ ⟨h₂, hctrl, hledger, hnumbering⟩
      have hsame₂ : w₂.ctrl.current = w.ctrl.current := by rw [hctrl]
      have hdone : ∀ error : Error, Settled options.site w₂ ∧
          SwitchResult spec w.nextEpoch w w₂ (.error error : Except Error SwitchOutcome) :=
        fun _ => ⟨h₂, .kept hsame₂ hledger⟩
      refine wp_andThen (validateLaunchable_spec h₂.cut) ?_ fun error _ hw => hw ▸ hdone error
      rintro ⟨⟩ _ rfl
      refine wp_andThen (resolveFeatures_spec h₂.cut) ?_ fun error _ hw => hw ▸ hdone error
      rintro resolved _ rfl
      obtain ⟨active, hactive⟩ := Option.isSome_iff_exists.mp (hcurrent rfl)
      have hserving : Serving options.site active [] [] w₂ := h₂.serving (by rw [hctrl, hactive])
      have hquarantine₂ : w₂.ctrl.quarantine = [] := by rw [hctrl, hquarantine]
      rw [← nextEpoch_of_numbering hnumbering]
      split
      · refine wp_andThen (hardSwitch_spec hserving h₂ hquarantine₂) ?_ ?_
        · exact fun _ _ hdone => ⟨hdone.1, (hdone.2.ok _).rebase (Or.inl hsame₂) hledger⟩
        · exact fun _ _ hdone => ⟨hdone.1, (hdone.2.error _).rebase (Or.inl hsame₂) hledger⟩
      · refine wp_imp (gracefulSwitch_spec hserving h₂ hquarantine₂) ?_
        exact fun _ _ hdone => ⟨hdone.1, hdone.2.rebase (Or.inl hsame₂) hledger⟩
    · rintro error w₂ ⟨h₂, hctrl, hledger, -⟩
      exact ⟨h₂, .kept (by rw [hctrl]) hledger⟩

/-- `CoreManager::switch`. -/
theorem switch_spec (h : Settled options.site w) :
    machine.wp (Cut options.site) (switch options spec)
      (fun result w' => Settled options.site w' ∧
        SwitchResult spec w.nextEpoch w w' result) w :=
  wp_unlessQuarantined (fun _ => ⟨h, .kept rfl rfl⟩) fun hquarantine =>
    switchLocked_spec h hquarantine

/-- `CoreManager::restart` is a switch to the last spec. -/
theorem restart_spec (h : Settled options.site w) :
    machine.wp (Cut options.site) (restart options)
      (fun result w' => Settled options.site w' ∧
        ((w.ctrl.lastSpec = none ∧ w'.ctrl = w.ctrl ∧ w'.ledger = w.ledger ∧
          ∃ error, result = .error error) ∨
        ∃ spec, w.ctrl.lastSpec = some spec ∧ SwitchResult spec w.nextEpoch w w' result)) w := by
  refine wp_unlessQuarantined (fun error => ⟨h, ?_⟩) fun hquarantine => ?_
  · cases hlast : w.ctrl.lastSpec with
    | none => exact Or.inl ⟨rfl, rfl, rfl, error, rfl⟩
    | some spec => exact Or.inr ⟨spec, rfl, .kept rfl rfl⟩
  · cases hlast : w.ctrl.lastSpec with
    | none => exact ⟨h, Or.inl ⟨rfl, rfl, rfl, _, rfl⟩⟩
    | some spec =>
      exact wp_imp (switchLocked_spec h hquarantine)
        fun _ _ hdone => ⟨hdone.1, Or.inr ⟨spec, rfl, hdone.2⟩⟩

end Nyanpasu.Manager
