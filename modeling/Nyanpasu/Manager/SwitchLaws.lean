import Nyanpasu.Manager.PrepareLaws

/-!
# What start, stop and switch do

Every exit of these operations leaves a settled world. A success has installed the spec in
the new epoch; a failure has kept the instance or left none, but for the one that could not
remove the artifacts of the old epoch after its install.
-/

namespace Nyanpasu.Manager

open Config Machine

variable {options : Options} {b w w' : World} {T : Artifact → Prop} {launch : PreparedLaunch}
  {spec : InstanceSpec} {epoch generation : ℕ} {snapshot : ConfigSnapshot}
  {resolved : ResolvedFeatures} {handle : Instance} {active : Active} {α : Type}

theorem PreparedFrom.epoch_eq (h : PreparedFrom options spec epoch generation snapshot launch) :
    launch.revision.epoch = epoch := by
  obtain ⟨_, _, _, -, rfl⟩ := h
  rfl

theorem PreparedFrom.path (h : PreparedFrom options spec epoch generation snapshot launch) :
    launch.revision.runtimePath = .runtime (.config launch.revision.epoch) := by
  obtain ⟨_, _, _, -, rfl⟩ := h
  rfl

/-- A launch is spawned with the file of its epoch. -/
theorem PreparedFrom.effectivePath
    (h : PreparedFrom options spec epoch generation snapshot launch) :
    launch.effectiveSpec.configPath = .runtime (.config launch.revision.epoch) := by
  obtain ⟨_, _, _, -, rfl⟩ := h
  rfl

/-- The epoch of a launch was allocated after every install. -/
structure FreshEpoch (b : World) (epoch : ℕ) : Prop where
  allocated : epoch ∈ b.history.allocated
  later : ∀ older ∈ b.history.installs,
    epochOrder b.history.top older.revision.epoch < epochOrder b.history.top epoch

/-- A new epoch is fresh. -/
theorem Inv.freshEpoch {hand : List Instance} {pending : List ℕ} (h : Inv hand pending w)
    (hroom : w.history.allocated.length < 2 ^ 64) :
    FreshEpoch (w.step .nextEpoch w.nextEpoch) w.nextEpoch :=
  ⟨List.mem_cons_self, fun older holder =>
    h.chronicle.order_lt_nextEpoch hroom (h.chronicle.installed older holder)⟩

/-- An epoch stays fresh until another one is allocated or something is installed. -/
theorem FreshEpoch.congr (h : FreshEpoch b epoch) (hnumbering : w.numbering = b.numbering)
    (hinstalls : w.history.installs = b.history.installs) : FreshEpoch w epoch := by
  refine ⟨allocated_of_numbering hnumbering ▸ h.allocated, ?_⟩
  rw [hinstalls, top_of_numbering hnumbering]
  exact h.later

theorem FreshEpoch.of_since (h : FreshEpoch b epoch) (hw : Since b T w) : FreshEpoch w epoch :=
  h.congr hw.numbering hw.installs

/-- No install has had the epoch. -/
def World.Unused (b : World) (epoch : ℕ) : Prop :=
  ∀ older ∈ b.history.installs, older.revision.epoch ≠ epoch

theorem FreshEpoch.unused (h : FreshEpoch b epoch) : b.Unused epoch := by
  rintro older holder rfl
  have hlater := h.later older holder
  omega

theorem World.Unused.of_ledger (h : w.Unused epoch) (hledger : w.ledger = b.ledger) :
    b.Unused epoch := fun older holder => h older (installs_of_ledger hledger ▸ holder)

/-- The install is the first one of the epoch and has the given spec. -/
structure Opens (b : World) (spec : InstanceSpec) (epoch : ℕ) (active : Active) : Prop where
  spec : active.sourceSpec = spec
  epoch : active.revision.epoch = epoch
  generation : active.revision.generation = 1
  unused : b.Unused active.revision.epoch

theorem Opens.rebase (h : Opens w spec epoch active) (hledger : w.ledger = b.ledger) :
    Opens b spec epoch active := { h with unused := h.unused.of_ledger hledger }

/-- How the world `w` and the result of an operation on the world `b` belong together, when
the operation launches the spec in the epoch. -/
inductive SwitchResult (spec : InstanceSpec) (epoch : ℕ) (b w : World) : Except Error α → Prop
  | switched {value : α} {active : Active} : Installed b active w → Opens b spec epoch active →
      SwitchResult spec epoch b w (.ok value)
  | kept {error : Error} : w.ctrl.current = b.ctrl.current → w.ledger = b.ledger →
      SwitchResult spec epoch b w (.error error)
  | ended {error : Error} : w.ctrl.current = none → w.ledger = b.ledger →
      SwitchResult spec epoch b w (.error error)
  /-- The new instance is installed, but the old epoch could not be removed. -/
  | uncleaned {error : Error} {active : Active} {oldEpoch : ℕ} : w.ctrl.current = some active →
      w.ledger = { b.ledger.install active with uncleaned := oldEpoch :: b.ledger.uncleaned } →
      Opens b spec epoch active → SwitchResult spec epoch b w (.error error)

/-- The results of a start, which never leaves an old epoch behind its install. -/
inductive StartResult (spec : InstanceSpec) (epoch : ℕ) (b w : World) : Except Error α → Prop
  | switched {value : α} {active : Active} : Installed b active w → Opens b spec epoch active →
      StartResult spec epoch b w (.ok value)
  | kept {error : Error} : w.ctrl.current = b.ctrl.current → w.ledger = b.ledger →
      StartResult spec epoch b w (.error error)
  | ended {error : Error} : w.ctrl.current = none → w.ledger = b.ledger →
      StartResult spec epoch b w (.error error)

theorem StartResult.switchResult {result : Except Error α}
    (h : StartResult spec epoch b w result) : SwitchResult spec epoch b w result := by
  cases h with
  | switched hinstalled hopens => exact .switched hinstalled hopens
  | kept hsame hkept => exact .kept hsame hkept
  | ended hnone hkept => exact .ended hnone hkept

/-- The result of a later part of a start. -/
theorem StartResult.rebase {result : Except Error α} (h : StartResult spec epoch w w' result)
    (hcurrent : w.ctrl.current = b.ctrl.current ∨ w.ctrl.current = none)
    (hledger : w.ledger = b.ledger) : StartResult spec epoch b w' result := by
  cases h with
  | switched hinstalled hopens =>
    exact .switched (hinstalled.rebase hledger) (hopens.rebase hledger)
  | kept hsame hkept =>
    rcases hcurrent with hcurrent | hcurrent
    · exact .kept (hsame.trans hcurrent) (hkept.trans hledger)
    · exact .ended (hsame.trans hcurrent) (hkept.trans hledger)
  | ended hnone hkept => exact .ended hnone (hkept.trans hledger)

/-- The result of a later part of an operation. -/
theorem SwitchResult.rebase {result : Except Error α} (h : SwitchResult spec epoch w w' result)
    (hcurrent : w.ctrl.current = b.ctrl.current ∨ w.ctrl.current = none)
    (hledger : w.ledger = b.ledger) : SwitchResult spec epoch b w' result := by
  cases h with
  | switched hinstalled hopens =>
    exact .switched (hinstalled.rebase hledger) (hopens.rebase hledger)
  | kept hsame hkept =>
    rcases hcurrent with hcurrent | hcurrent
    · exact .kept (hsame.trans hcurrent) (hkept.trans hledger)
    · exact .ended (hsame.trans hcurrent) (hkept.trans hledger)
  | ended hnone hkept => exact .ended hnone (hkept.trans hledger)
  | uncleaned hactive hkept hopens =>
    exact .uncleaned hactive (hledger ▸ hkept) (hopens.rebase hledger)

/-- The value of a success does not count. -/
theorem SwitchResult.ok {β : Type} {value : α} (h : SwitchResult spec epoch b w (.ok value))
    (value' : β) : SwitchResult spec epoch b w (.ok value' : Except Error β) := by
  cases h with
  | switched hinstalled hopens => exact .switched hinstalled hopens

/-- Neither does the error of a failure. -/
theorem SwitchResult.error {β : Type} {error : Error}
    (h : SwitchResult spec epoch b w (.error error : Except Error α)) (error' : Error) :
    SwitchResult spec epoch b w (.error error' : Except Error β) := by
  cases h with
  | kept hsame hkept => exact .kept hsame hkept
  | ended hnone hkept => exact .ended hnone hkept
  | uncleaned hactive hkept hopens => exact .uncleaned hactive hkept hopens

/-- An operation that ended without an instance has failed. -/
theorem Ended.failed {site : Site} {result : Except Error α}
    (h : (∃ error, result = .error error) ∧ Settled site w ∧ Ended b w) :
    Settled site w ∧ SwitchResult spec epoch b w result := by
  obtain ⟨⟨error, rfl⟩, hsettled, hended⟩ := h
  exact ⟨hsettled, .ended hended.current hended.ledger⟩

/-- A start that ended without an instance has failed. -/
theorem Ended.refused {site : Site} {result : Except Error α}
    (h : (∃ error, result = .error error) ∧ Settled site w ∧ Ended b w) :
    StartResult spec epoch b w result := by
  obtain ⟨⟨error, rfl⟩, -, hended⟩ := h
  exact .ended hended.current hended.ledger

/-- What a prepared launch opens when it is activated. -/
theorem PreparedFrom.opens {forwarder : Forwarder}
    (h : PreparedFrom options spec epoch 1 snapshot launch)
    (hfresh : FreshEpoch b launch.revision.epoch) :
    Opens b spec epoch (launch.activate handle forwarder) := by
  obtain ⟨_, _, _, -, rfl⟩ := h
  exact ⟨rfl, rfl, rfl, hfresh.unused⟩

/-- The install of a launch of a fresh epoch. -/
theorem installable_of_fresh {site : Site} (hepoch : launch.revision.epoch = handle.epoch)
    (hready : (w.processes handle.id).ready = true) (hspec : handle.spec = launch.effectiveSpec)
    (hquarantine : b.ctrl.quarantine = [])
    (hfile : Committed site w launch.revision launch.effectiveDocument)
    (hfresh : FreshEpoch b launch.revision.epoch)
    (hfrom : PreparedFrom options spec epoch generation snapshot launch) :
    Installable site b (launch.activate handle ⟨handle.id, handle.epoch⟩) w where
  epoch := hepoch
  forwarder := rfl
  ready := hready
  spec := by
    change handle.spec.configPath = _
    rw [hspec, hfrom.effectivePath, hepoch]
    rfl
  unlisted := hquarantine
  file := hfile
  follows := fun older holder => Or.inl (Or.inl (hfresh.later older holder))

theorem not_ofProcess_config {epoch owner : ℕ} : ¬ ofProcess epoch (.config owner) := nofun

/-- The artifacts of a process belong to its epoch. -/
theorem ofEpoch_of_ofProcess {epoch : ℕ} {artifact : Artifact} (h : ofProcess epoch artifact) :
    ofEpoch epoch artifact := by
  cases artifact <;> simp_all [ofProcess, World.isProcessArtifact, ofEpoch, Artifact.epoch]

/-- `start_prepared`, from the middle. -/
theorem startPrepared_spec {site : Site} (h : Mid b T [] [] w)
    (hquarantine : b.ctrl.quarantine = [])
    (hfile : Committed site w launch.revision launch.effectiveDocument)
    (hfresh : FreshEpoch b launch.revision.epoch)
    (hfrom : PreparedFrom options spec epoch 1 snapshot launch) :
    machine.wp (Cut site) (startPrepared options launch)
      (fun result w' => Settled site w' ∧ StartResult spec epoch b w' result) w := by
  have hquarantine : w.ctrl.quarantine = [] := (h.quarantine rfl).trans hquarantine
  have hfresh : FreshEpoch w launch.revision.epoch := hfresh.of_since h.since
  have hnone : w.ctrl.current = b.ctrl.current ∨ w.ctrl.current = none := Or.inr h.current
  have hledger := h.since.ledger
  have hend : ∀ {result : Except Error Unit} {w'}, ((∃ error, result = .error error) ∧
      Settled site w' ∧ Ended w w') → Settled site w' ∧ StartResult spec epoch b w' result :=
    fun hend => ⟨hend.2.1, (Ended.refused hend).rebase hnone hledger⟩
  unfold startPrepared
  -- From here on only the process artifacts of the new epoch are written.
  have h : Mid w (ofProcess launch.revision.epoch) [] [] w := h.rebase
  refine wp_seq (h.announce rfl) fun _ w₁ h₁ => ?_
  refine wp_seq (h₁.spawn hquarantine hfresh.allocated fun _ => id) fun result w₂ h₂ => ?_
  cases result with
  | error error =>
    exact wp_imp ((h₂.mono fun _ => ofEpoch_of_ofProcess).refuse fun _ => id) fun _ _ => hend
  | ok handle =>
    obtain ⟨hhandle, h₂⟩ := h₂
    have hepoch : launch.revision.epoch = handle.epoch := by rw [hhandle]
    refine wp_seq h₂.wait fun result w₃ hwait => ?_
    obtain ⟨h₃, hready⟩ := hwait
    cases result with
    | ok value =>
      have hinstallable := installable_of_fresh (b := w) hepoch (hready rfl) (by rw [hhandle])
        hquarantine (h₃.committed hfile not_ofProcess_config) hfresh hfrom
      refine wp_seq (installSwitched_spec h₃ hinstallable) fun _ w₄ hdone => ?_
      exact ⟨hdone.1, .switched (hdone.2.toInstalled.rebase hledger)
        ((hfrom.opens hfresh).rebase hledger)⟩
    | error error =>
      refine wp_seq h₃.stop fun result w₄ h₄ => ?_
      cases result with
      | ok value =>
        exact wp_imp ((h₄.mono fun _ => ofEpoch_of_ofProcess).refuse fun _ => id) fun _ _ => hend
      | error stopError =>
        rw [← hepoch] at h₄
        exact wp_seq (h₄.2.latch (by simp) (h₄.2.notMem_quarantined List.mem_cons_self))
          fun error _ h => hend ⟨⟨error, rfl⟩, h⟩

/-- A new epoch is allocated in the middle. -/
theorem Mid.allocated {hand : List Instance} {pending : List ℕ} {T' : Artifact → Prop}
    (h : Mid b T hand pending w) :
    Mid (w.step .nextEpoch w.nextEpoch) T' hand pending (w.step .nextEpoch w.nextEpoch) where
  inv := h.inv.allocated
  current := h.current
  quarantine := fun _ => rfl
  forwarders := h.forwarders
  exposed := h.exposed
  since := .refl _

/-- A document is loaded in the middle. -/
theorem Mid.loaded {hand : List Instance} {pending : List ℕ} {T' : Artifact → Prop} {path : Path}
    {answer : Except Error ConfigSnapshot} (h : Mid b T hand pending w) :
    Mid (w.step (.load path) answer) T' hand pending (w.step (.load path) answer) := by
  cases answer with
  | error error => exact h.rebase
  | ok snapshot =>
    exact ⟨h.inv.unseen rfl, h.current, fun _ => rfl, h.forwarders, h.exposed, .refl _⟩

/-- A load is not written down. -/
theorem ledger_load {path : Path} {answer : Except Error ConfigSnapshot} :
    (w.step (.load path) answer).ledger = w.ledger := by
  cases answer <;> rfl

theorem ctrl_load {path : Path} {answer : Except Error ConfigSnapshot} :
    (w.step (.load path) answer).ctrl = w.ctrl := by
  cases answer <;> rfl

theorem numbering_load {path : Path} {answer : Except Error ConfigSnapshot} :
    (w.step (.load path) answer).numbering = w.numbering := by
  cases answer <;> rfl

theorem nextEpoch_spec {cut : World → Prop} :
    machine.wp cut nextEpoch (fun epoch w' => epoch = w.nextEpoch ∧
      w.history.allocated.length < 2 ^ 64 ∧ w' = w.step .nextEpoch w.nextEpoch) w := by
  refine wp_sync rfl fun epoch hepoch => ?_
  obtain ⟨rfl, hroom⟩ : epoch = w.nextEpoch ∧ w.history.allocated.length < 2 ^ 64 := hepoch
  exact ⟨rfl, hroom, rfl⟩

/-- `start_locked`, from the middle. -/
theorem startLocked_spec (h : Mid b T [] [] w) (hquarantine : b.ctrl.quarantine = []) :
    machine.wp (Cut options.site) (startLocked options spec)
      (fun result w' => Settled options.site w' ∧
        StartResult spec b.nextEpoch b w' result) w := by
  have hquarantine : w.ctrl.quarantine = [] := (h.quarantine rfl).trans hquarantine
  have hledger := h.since.ledger
  rw [← nextEpoch_of_numbering h.since.numbering]
  unfold startLocked
  refine wp_seq nextEpoch_spec ?_
  rintro _ w₁ ⟨rfl, hroom, rfl⟩
  have hfresh := h.inv.freshEpoch hroom
  have h₁ : Mid _ (ofEpoch w.nextEpoch) [] [] (w.step .nextEpoch w.nextEpoch) := h.allocated
  refine wp_seq (Q := fun answer w' => w' = (w.step .nextEpoch w.nextEpoch).step
    (.load spec.configPath) answer) ?_ ?_
  · refine wp_perform (fun _ => h₁.cut) fun answer _ => ⟨fun _ => ?_, rfl⟩
    exact (show Mid _ (ofEpoch w.nextEpoch) [] [] _ from h₁.loaded).cut
  rintro answer w₂ rfl
  generalize hw₂ : (w.step .nextEpoch w.nextEpoch).step (.load spec.configPath) answer = w₂
  have h₂ : Mid w₂ (ofEpoch w.nextEpoch) [] [] w₂ := hw₂ ▸ h₁.loaded
  have hledger₂ : w₂.ledger = b.ledger := by
    rw [← hw₂, ledger_load]
    exact hledger
  have hnone : w₂.ctrl.current = b.ctrl.current ∨ w₂.ctrl.current = none := Or.inr h₂.current
  have hquarantine₂ : w₂.ctrl.quarantine = [] := by
    rw [← hw₂, ctrl_load]
    exact hquarantine
  have hfresh₂ : FreshEpoch w₂ w.nextEpoch := by
    rw [← hw₂]
    exact hfresh.congr numbering_load (installs_of_ledger ledger_load)
  have hend : ∀ {result : Except Error Unit} {w'}, ((∃ error, result = .error error) ∧
      Settled options.site w' ∧ Ended w₂ w') → Settled options.site w' ∧
        StartResult spec w.nextEpoch b w' result :=
    fun hend => ⟨hend.2.1, (Ended.refused hend).rebase hnone hledger₂⟩
  cases answer with
  | error error => exact wp_imp h₂.fail fun _ _ => hend
  | ok snapshot =>
    refine wp_seq (prepareLaunch_spec fun w' hw' => (h₂.quiet hw' fun _ => id).cut) ?_
    rintro result w₃ ⟨hq₃, hprepared⟩
    have h₃ : Mid w₂ (ofEpoch w.nextEpoch) [] [] w₃ := h₂.quiet hq₃ fun _ => id
    cases result with
    | error error => exact wp_imp (h₃.refuse fun _ => id) fun _ _ => hend
    | ok launch =>
      obtain ⟨hfrom, hfile⟩ := hprepared launch rfl
      refine wp_imp (startPrepared_spec h₃ hquarantine₂ hfile (hfrom.epoch_eq ▸ hfresh₂) hfrom) ?_
      exact fun _ _ hdone => ⟨hdone.1, hdone.2.rebase hnone hledger₂⟩

/-- Any artifact at all. -/
def anyArtifact (_ : Artifact) : Prop := True

/-- Without an instance there is nothing to take. -/
theorem step_takeCurrent_none (h : w.ctrl.current = none) : w.step .takeCurrent none = w := by
  obtain ⟨⟨current, _, _⟩, _, _, _, _, _, _, history⟩ := w
  obtain rfl : current = none := h
  simp [World.step]

/-- `ctrl.current.take()` in a settled world. -/
theorem Settled.take {site : Site} {f : Option Active → Action α} {post : α → World → Prop}
    (h : Settled site w)
    (hnone : w.ctrl.current = none → machine.wp (Cut site) (f none) post w)
    (hsome : ∀ active, Serving site active [] [] w →
      machine.wp (Cut site) (f (some active)) post (w.step .takeCurrent (some active))) :
    machine.wp (Cut site) (takeCurrent >>= f) post w := by
  cases hcurrent : w.ctrl.current with
  | some active => exact (h.serving hcurrent).take (hsome active (h.serving hcurrent))
  | none =>
    refine wp_seq (Q := fun taken w' => taken = none ∧ w = w')
      (wp_sync rfl fun taken htaken => ?_) ?_
    · obtain rfl : taken = none := htaken.trans hcurrent
      exact ⟨rfl, (step_takeCurrent_none hcurrent).symm⟩
    · rintro _ _ ⟨rfl, rfl⟩
      exact hnone hcurrent

/-- A discarded instance whose artifacts are left behind. -/
theorem Mid.staleLeft {site : Site} (h : Mid b T [] [] w) :
    Settled site (w.step (.mark (.staleLeft epoch)) ()) where
  inv := h.inv.unseen rfl
  file := fun active hactive => by simp [World.step, h.current] at hactive
  tasks := by simp [World.step, h.current, h.forwarders]
  silent := fun _ => Or.inr (by simp [World.step, h.forwarders])
  spoken := fun active hactive => by simp [World.step, h.current] at hactive
  covered := rfl

/-- The removal of a stopped instance ends in the middle, or the operation has ended. -/
theorem discardStale_spec {site : Site} (h : Settled site w) :
    machine.wp (Cut site) (discardStale options) (fun result w' => match result with
      | .ok _ => Mid w anyArtifact [] [] w'
      | .error _ => Settled site w' ∧ w'.ctrl.current = none ∧ w'.ledger = w.ledger) w := by
  unfold discardStale
  refine h.take (fun hnone => h.mid hnone) fun active hserving => ?_
  refine wp_seq (hserving.abort (T := anyArtifact) (.refl _)) fun _ w₁ h₁ => ?_
  refine wp_seq h₁.stop fun result w₂ h₂ => ?_
  cases result with
  | error error =>
    refine wp_imp (h₂.2.latchUnconfirmed h₂.1) ?_
    rintro _ w₃ ⟨⟨error, rfl⟩, hsettled, hended⟩
    exact ⟨hsettled, hended.current, hended.ledger⟩
  | ok value =>
    refine wp_seq (h₂.cleanup fun _ _ => trivial) fun result w₃ h₃ => ?_
    cases result with
    | ok value => exact h₃
    | error error =>
      refine wp_seq (Q := fun _ w' => w' = w₃.step (.mark (.staleLeft active.handle.epoch)) ())
        (wp_sync rfl fun _ _ => rfl) ?_
      rintro _ _ rfl
      exact ⟨h₃.staleLeft, h₃.current, h₃.since.ledger⟩

/-- An operation that passes the quarantine check finds the list empty. -/
theorem rejectQuarantine_ok {ctrl : Ctrl} (h : rejectQuarantine ctrl = .ok ()) :
    ctrl.quarantine = [] := by
  unfold rejectQuarantine at h
  cases hlist : ctrl.quarantine with
  | nil => rfl
  | cons first rest => cases rest <;> simp [hlist, quarantineError] at h

/-- The control state is read without waiting. -/
theorem getCtrl_spec {cut : World → Prop} :
    machine.wp cut getCtrl (fun ctrl w' => w.ctrl = ctrl ∧ w = w') w :=
  wp_sync rfl fun _ hctrl => ⟨Eq.symm hctrl, rfl⟩

/-- The rule for an operation that is rejected while an epoch is quarantined. -/
theorem wp_unlessQuarantined {cut : World → Prop} {f : Ctrl → Action (Except Error α)}
    {post : Except Error α → World → Prop} (herror : ∀ error, post (.error error) w)
    (hok : w.ctrl.quarantine = [] → machine.wp cut (f w.ctrl) post w) :
    machine.wp cut (do
      let ctrl ← getCtrl
      match rejectQuarantine ctrl with
      | .error error => return .error error
      | .ok () => f ctrl) post w := by
  refine wp_seq getCtrl_spec ?_
  rintro _ _ ⟨rfl, rfl⟩
  cases hreject : rejectQuarantine w.ctrl with
  | error error => exact herror error
  | ok value => exact hok (rejectQuarantine_ok hreject)

/-- The running check reads the state of the current instance. -/
theorem isRunning_spec {cut : World → Prop} :
    machine.wp cut (isRunning w.ctrl.current) (fun running w' =>
      Quiet noArtifact noInstance w w' ∧ (running = true → w.ctrl.current.isSome = true)) w := by
  unfold isRunning
  cases hcurrent : w.ctrl.current with
  | none => exact ⟨.refl w, fun h => nomatch h⟩
  | some active => exact wp_seq (borrow_spec (.refl w)) fun _ _ hw => ⟨hw.1, fun _ => rfl⟩

/-- `CoreManager::start`. -/
theorem start_spec (h : Settled options.site w) :
    machine.wp (Cut options.site) (start options spec)
      (fun result w' => Settled options.site w' ∧
        StartResult spec w.nextEpoch w w' result) w := by
  refine wp_unlessQuarantined (fun _ => ⟨h, .kept rfl rfl⟩) fun hquarantine => ?_
  refine wp_seq isRunning_spec ?_
  rintro running w₁ ⟨hq₁, -⟩
  have h₁ : Settled options.site w₁ := h.quiet hq₁ fun _ _ => id
  have hsame : w₁.ctrl.current = w.ctrl.current := by rw [hq₁.ctrl]
  cases running with
  | true => exact ⟨h₁, .kept hsame hq₁.ledger⟩
  | false =>
    refine wp_andThen (discardStale_spec h₁) ?_ ?_
    · intro _ w₂ h₂
      refine wp_imp (startLocked_spec h₂ (by rw [hq₁.ctrl, hquarantine])) ?_
      rw [nextEpoch_of_numbering hq₁.numbering]
      exact fun _ _ hdone => ⟨hdone.1, hdone.2.rebase (Or.inl hsame) hq₁.ledger⟩
    · exact fun _ _ hdone => ⟨hdone.1, .ended hdone.2.1 (hdone.2.2.trans hq₁.ledger)⟩

theorem publish_spec {state : CoreState} {summary : Option SpecSummary} {host : Option Host}
    {revision : Option ConfigRevision} {cut : World → Prop} :
    machine.wp cut (publish state summary host revision) (fun _ w' =>
      ∃ now, w' = w.step (.publish ⟨state, .ofState, summary, host, revision⟩) now) w :=
  wp_seq (Q := fun _ w' => ∃ now, w' = w.step (.publish ⟨state, .ofState, summary, host, revision⟩)
    now) (wp_sync rfl fun now _ => ⟨now, rfl⟩) fun _ _ h => h

/-- A stop has left no instance and written nothing down. -/
structure StopResult (b w : World) : Prop where
  current : w.ctrl.current = none
  ledger : w.ledger = b.ledger

/-- The end of a stop settles the world. -/
theorem stopTaken_spec {site : Site} (h : Mid b anyArtifact [handle] [] w) :
    machine.wp (Cut site) (stopTaken options handle publishStopped)
      (fun _ w' => Settled site w' ∧ StopResult b w') w := by
  have hend : ∀ {w'}, Settled site w' ∧ Ended b w' → Settled site w' ∧ StopResult b w' :=
    fun hend => ⟨hend.1, hend.2.current, hend.2.ledger⟩
  unfold stopTaken
  refine wp_seq h.stop fun result w₁ h₁ => ?_
  cases result with
  | error error => exact wp_imp (h₁.2.latchUnconfirmed h₁.1) fun _ _ h => hend h.2
  | ok value =>
    refine wp_seq (h₁.cleanup fun _ _ => trivial) fun result w₂ h₂ => ?_
    cases result with
    | error error => exact wp_imp h₂.fail fun _ _ h => hend h.2
    | ok value =>
      refine wp_seq publish_spec ?_
      rintro _ _ ⟨now, rfl⟩
      exact ⟨h₂.inv.settled_stopped h₂.current h₂.forwarders rfl rfl, h₂.current, h₂.since.ledger⟩

/-- An instance that had stopped by itself is published as stopped before its stop is
confirmed: from then on nothing is hidden. -/
structure Retired (handle : Instance) (w : World) : Prop where
  inv : Inv [handle] [] w
  current : w.ctrl.current = none
  forwarders : w.forwarders = []
  silent : Silent w
  covered : w.history.exposed = false
  dead : (w.processes handle.id).provenDead = true

/-- The process of a retired instance is dead, so nothing is held. -/
theorem Retired.settled {site : Site} (h : Retired handle w) : Settled site w where
  inv := h.inv.stopped (T := noArtifact) (.refl w) h.dead
  file := fun active hactive => by simp [h.current] at hactive
  tasks := by simp [h.current, h.forwarders]
  silent := fun _ => Or.inl h.silent
  spoken := fun active hactive => by simp [h.current] at hactive
  covered := h.covered

/-- Quiet steps keep a world without an instance settled. -/
theorem Settled.quiet_of_none {site : Site} {I : ℕ → Prop} (h : Settled site w)
    (hcurrent : w.ctrl.current = none) (hw : Quiet T I w w') : Settled site w' := by
  have hcurrent' : w'.ctrl.current = none := by rw [hw.ctrl, hcurrent]
  refine ⟨⟨h.inv.quiet_of_none hcurrent hw, fun active hactive => ?_, ?_, fun _ => ?_⟩,
    fun active hactive => ?_, by rw [hw.history, h.covered]⟩
  · simp [hcurrent'] at hactive
  · rw [hw.forwarders, hw.ctrl, h.tasks]
  · rw [hw.history]
    exact (h.silent hcurrent).imp_left fun hsilent => hsilent.of_history hw.history
  · simp [hcurrent'] at hactive

/-- The confirmation of a retired instance. -/
theorem Retired.confirm {site : Site} (h : Retired handle w) :
    machine.wp (Cut site) (do
      match ← handle.stopAndConfirmDead options with
      | .error error => latchUnconfirmed handle.epoch error (return .error error)
      | .ok () =>
        match ← cleanupEpoch options handle.epoch with
        | .error error => failTerminally error
        | .ok () => return .error .notStarted : Action (Except Error Unit))
      (fun _ w' => Settled site w' ∧ StopResult w w') w := by
  have hheld : Held w handle := h.inv.custody.held handle (by simp [World.held])
  have hquiet : ∀ {w'}, Quiet noArtifact (onlyInstance handle.id) w w' → Settled site w' :=
    fun hw => h.settled.quiet_of_none h.current hw
  refine wp_seq (stopAndConfirmDead_spec hheld fun w' hw => (hquiet hw).cut) ?_
  intro result w₁ hstopped
  cases result with
  | error error =>
    obtain ⟨herror, w₀, hw₀, rfl⟩ := hstopped
    have hinv : Inv [] [handle.epoch] (w₀.unconfirm handle.epoch) := h.inv.unconfirmed hw₀
    simp only [latchUnconfirmed, herror, if_true]
    have hledger : (w₀.unconfirm handle.epoch).ledger = w.ledger := hw₀.ledger
    refine wp_seq (hinv.latch (hw₀.ctrl ▸ h.current) (hw₀.forwarders.trans h.forwarders) (by simp)
      (hinv.custody.trusted _ (by simp [World.owed]))) ?_
    exact fun _ _ hend => ⟨hend.1, hend.2.current, hend.2.ledger.trans hledger⟩
  | ok value =>
    obtain ⟨hw₁, -⟩ := hstopped
    have hnone : w₁.ctrl.current = none := by rw [hw₁.ctrl, h.current]
    refine wp_seq (wp_frame (I := noInstance) cleanupEpoch_quietly
      fun w' hw' => ((hquiet hw₁).quiet_of_none hnone hw').cut) ?_
    intro result w₂ hw₂
    have hsettled : Settled site w₂ := (hquiet hw₁).quiet_of_none hnone hw₂
    have hledger : w₂.ledger = w.ledger := hw₂.ledger.trans hw₁.ledger
    have hnone₂ : w₂.ctrl.current = none := by rw [hw₂.ctrl, hnone]
    cases result with
    | error error =>
      refine wp_imp ((hsettled.mid (T := anyArtifact) hnone₂).fail) ?_
      exact fun _ _ hend => ⟨hend.2.1, hend.2.2.current, hend.2.2.ledger.trans hledger⟩
    | ok value => exact ⟨hsettled, hnone₂, hledger⟩

/-- `CoreManager::stop`. -/
theorem stop_spec {site : Site} (h : Settled site w) :
    machine.wp (Cut site) (stop options)
      (fun _ w' => Settled site w' ∧ StopResult w w') w := by
  unfold stop
  refine h.take (fun hnone => ⟨h, hnone, rfl⟩) fun active hserving => ?_
  refine wp_seq (borrow_spec (T := noArtifact) (I := noInstance) (.refl _)) ?_
  rintro captured w₁ ⟨hw₁, -, hterminal, -⟩
  have hkept : machine.wp (fun _ => True) (abortAndAwait active.forwarder)
      (fun _ w' => w'.processes = w₁.processes) w₁ :=
    wp_perform (fun _ => trivial) fun _ _ => ⟨fun _ => trivial, rfl⟩
  refine wp_seq (wp_and (hserving.abort (T := anyArtifact) hw₁) hkept) ?_
  rintro _ w₂ ⟨h₂, hprocesses⟩
  split
  · rename_i hstopped
    refine wp_seq (Q := fun _ w' => Retired active.handle w' ∧ w'.ledger = w.ledger) ?_ ?_
    · refine wp_seq (Q := fun _ w' => Retired active.handle w' ∧
        w'.ledger = w.ledger) (wp_sync rfl fun now _ => ⟨?_, ?_⟩) fun _ _ h => h
      · have hstate : (instanceCoreState active.handle.epoch captured.state).isStopped = true := by
          rw [isStopped_instanceCoreState, hstopped]
        refine ⟨h₂.inv.published, h₂.current, h₂.forwarders, ?_, ?_, ?_⟩
        · simp [Silent, World.step, World.published, hstate, h₂.forwarders]
        · simp [World.step, World.published, World.settledBy, hstate]
        · change (w₂.processes active.handle.id).provenDead = true
          simp [hprocesses, Process.provenDead, hterminal hstopped]
      · exact h₂.since.ledger
    · rintro _ w₃ ⟨hretired, hledger⟩
      exact wp_imp hretired.confirm
        fun _ _ hend => ⟨hend.1, hend.2.current, hend.2.ledger.trans hledger⟩
  · exact wp_seq (h₂.announce rfl) fun _ _ h₃ => stopTaken_spec h₃

/-- `CoreManager::shutdown`. -/
theorem shutdown_spec {site : Site} (h : Settled site w) :
    machine.wp (Cut site) (shutdown options)
      (fun _ w' => Settled site w' ∧ StopResult w w') w := by
  refine wp_seq (Q := fun _ w' => Settled site w' ∧ StopResult w w') ?_ ?_
  · refine h.take (fun hnone => ⟨h, hnone, rfl⟩) fun active hserving => ?_
    refine wp_seq (hserving.abort (T := anyArtifact) (.refl _)) fun _ w₁ h₁ => ?_
    exact wp_seq (h₁.announce rfl) fun _ _ h₂ => stopTaken_spec h₂
  · rintro result w₁ ⟨hsettled, hstopped⟩
    refine wp_seq (wp_inert (fun _ => rfl) hsettled.cut) ?_
    rintro _ _ ⟨-, rfl⟩
    exact ⟨hsettled, hstopped⟩

/-- The current instance is not of a fresh epoch. -/
theorem FreshEpoch.ne_current {site : Site} {hand : List Instance} {pending : List ℕ}
    (h : FreshEpoch w epoch) (hserving : Serving site active hand pending w) :
    epoch ≠ active.revision.epoch := by
  have hnewest := (hserving.inv.chronicle.current active hserving.current).newest
  exact (h.unused active (List.mem_of_head? hnewest)).symm

/-- An error after the death of every instance in hand. -/
theorem Mid.latchOrFail {site : Site} {error : Error} (h : Mid b T [] [] w)
    (hquarantine : b.ctrl.quarantine = []) :
    machine.wp (Cut site) (Manager.latchUnconfirmed epoch error (failTerminally error) :
      Action (Except Error α)) (fun result w' =>
        (∃ error, result = .error error) ∧ Settled site w' ∧ Ended b w') w := by
  unfold Manager.latchUnconfirmed
  split
  · refine wp_seq (h.latch rfl ?_) fun error _ hend => ⟨⟨error, rfl⟩, hend⟩
    simp [World.quarantined, h.quarantine rfl, hquarantine]
  · exact h.fail

/-- `hard_switch`. -/
theorem hardSwitch_spec (h : Serving options.site active [] [] w)
    (hsettled : Settled options.site w)
    (hquarantine : w.ctrl.quarantine = []) :
    machine.wp (Cut options.site) (hardSwitch options spec snapshot resolved)
      (fun result w' => Settled options.site w' ∧
        SwitchResult spec w.nextEpoch w w' result) w := by
  unfold hardSwitch
  refine wp_seq nextEpoch_spec ?_
  rintro _ _ ⟨rfl, hroom, rfl⟩
  have hfresh : FreshEpoch (w.step .nextEpoch w.nextEpoch) w.nextEpoch := h.inv.freshEpoch hroom
  have h₁ : Serving options.site active [] [] (w.step .nextEpoch w.nextEpoch) :=
    hsettled.allocated.serving h.current
  have hnew := hfresh.ne_current h₁
  have hother : ¬ ofEpoch w.nextEpoch (.config active.revision.epoch) := fun h => hnew h.symm
  refine wp_seq (prepareLaunchWithFeatures_spec fun w' hw' _ => (h₁.quiet hw' hother).base) ?_
  rintro result w₂ ⟨hq₂, hprepared⟩
  have h₂ := h₁.quiet hq₂ hother
  have hledger : w₂.ledger = w.ledger := hq₂.ledger
  have hsame : w₂.ctrl.current = w.ctrl.current := (congrArg Ctrl.current hq₂.ctrl :)
  cases result with
  | error error =>
    refine wp_imp (h₂.refuse hnew) ?_
    rintro _ w₃ ⟨⟨error, rfl⟩, hsettled, hctrl, hkept⟩
    exact ⟨hsettled, .kept (by rw [hctrl, hsame]) (hkept.trans hledger)⟩
  | ok launch =>
    obtain ⟨hfrom, hfile⟩ := hprepared launch rfl
    have hepoch := hfrom.epoch_eq
    refine wp_seq getCtrl_spec ?_
    rintro _ _ ⟨rfl, rfl⟩
    refine wp_seq publish_spec ?_
    rintro _ _ ⟨now, rfl⟩
    generalize hw₃ : w₂.step _ now = w₃
    have h₃ : Serving options.site active [] [] w₃ := hw₃ ▸ h₂.published
    have hledger₃ : w₃.ledger = w.ledger := by
      rw [← hw₃]
      exact hledger
    have hsame₃ : w₃.ctrl.current = w.ctrl.current ∨ w₃.ctrl.current = none := by
      rw [← hw₃]
      exact Or.inl hsame
    have hquarantine₃ : w₃.ctrl.quarantine = [] := by
      rw [← hw₃]
      exact (congrArg Ctrl.quarantine hq₂.ctrl).trans hquarantine
    have hfresh₃ : FreshEpoch w₃ launch.revision.epoch := by
      rw [hepoch, ← hw₃]
      exact hfresh.congr hq₂.numbering (installs_of_ledger hledger)
    have hfile₃ : Committed options.site w₃ launch.revision launch.effectiveDocument :=
      hfile.congr (by rw [← hw₃]; rfl)
    have hkept : ¬ ofEpoch active.handle.epoch (.config launch.revision.epoch) := by
      rw [hepoch, ← (h₃.inv.chronicle.current active h₃.current).epoch]
      exact hnew
    have hend : ∀ {result : Except Error Unit} {w'}, ((∃ error, result = .error error) ∧
        Settled options.site w' ∧ Ended w₃ w') → Settled options.site w' ∧
          SwitchResult spec w.nextEpoch w w' result :=
      fun hend => ⟨hend.2.1, (Ended.failed hend).2.rebase hsame₃ hledger₃⟩
    refine h₃.take ?_
    refine wp_seq (h₃.abort (T := ofEpoch active.handle.epoch) (.refl _)) fun _ w₄ h₄ => ?_
    refine wp_seq h₄.stop fun result w₅ h₅ => ?_
    cases result with
    | error error =>
      have h₅' : Mid _ anyArtifact [] _ w₅ := h₅.2.mono fun _ _ => trivial
      refine wp_seq (h₅'.cleanup fun _ _ => trivial) fun _ w₆ h₆ => ?_
      exact wp_imp (h₆.latchUnconfirmed h₅.1) fun _ _ => hend
    | ok value =>
      refine wp_seq (h₅.cleanup fun _ => id) fun result w₆ h₆ => ?_
      cases result with
      | error error => exact wp_imp h₆.fail fun _ _ => hend
      | ok value =>
        refine wp_imp (startPrepared_spec h₆ hquarantine₃ (h₆.committed hfile₃ hkept) hfresh₃
          hfrom) ?_
        exact fun _ _ hdone => ⟨hdone.1, hdone.2.switchResult.rebase hsame₃ hledger₃⟩

/-- `spawn_replacement`, from the middle: the instance is ready, or the failed stop of a
replacement that was not ready is pending. -/
theorem spawnReplacement_spec {site : Site} {controller : ResolvedController}
    (h : Mid b (ofProcess epoch) [] [] w) (hquarantine : b.ctrl.quarantine = [])
    (hepoch : epoch ∈ b.history.allocated) :
    machine.wp (Cut site) (spawnReplacement options spec epoch controller) (fun result w' =>
      match result with
      | .ok handle => handle.epoch = epoch ∧ handle.spec = spec ∧ handle.controller = controller ∧
          (w'.processes handle.id).ready = true ∧ Mid b (ofProcess epoch) [handle] [] w'
      | .error error => ∃ pending, Mid b (ofProcess epoch) [] pending w' ∧
          (isStopUnconfirmed error = false → pending = []) ∧
          pending.erase epoch = [] ∧ epoch ∉ w'.quarantined) w := by
  have hunlisted : ∀ {w'}, Mid b (ofProcess epoch) [] [] w' → epoch ∉ w'.quarantined :=
    fun h => by simp [World.quarantined, h.quarantine rfl, hquarantine]
  refine wp_andThen (h.spawn hquarantine hepoch fun _ => id) ?_ ?_
  · rintro handle w₁ ⟨rfl, h₁⟩
    refine wp_seq h₁.wait fun result w₂ hwait => ?_
    obtain ⟨h₂, hready⟩ := hwait
    cases result with
    | ok value => exact ⟨rfl, rfl, rfl, hready rfl, h₂⟩
    | error error =>
      refine wp_seq h₂.stop fun result w₃ h₃ => ?_
      cases result with
      | ok value => exact ⟨[], h₃, fun _ => rfl, rfl, hunlisted h₃⟩
      | error stopError =>
        exact ⟨[epoch], h₃.2, by rintro ⟨⟩, by simp, h₃.2.notMem_quarantined List.mem_cons_self⟩
  · intro error w₁ h₁
    exact ⟨[], h₁, fun _ => rfl, rfl, hunlisted h₁⟩

end Nyanpasu.Manager
