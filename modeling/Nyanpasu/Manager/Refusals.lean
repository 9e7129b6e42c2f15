import Nyanpasu.Manager.Plain

/-!
# What a failed apply says

Up to the point of no return a failure of `apply_config` leaves the manager as it was, and its
error is one of the surroundings or of the guards at the beginning. Past that point every
failure is told by an error that only the manager makes: the stop of a process was not
confirmed, and its epoch is quarantined, or the old core did not come back either.
-/

namespace Nyanpasu

/-- An error that says how an apply has failed past the point of no return. -/
def Error.isFinal : Error → Bool
  | .stopUnconfirmed _ | .applyRollbackFailed _ _ => true
  | .durabilityUncertain source _ => isFinal source
  | _ => false

/-- An error that says that a process may be alive. -/
def Error.isUnconfirmed : Error → Bool
  | .stopUnconfirmed _ => true
  | .durabilityUncertain source _ => isUnconfirmed source
  | _ => false

/-- An error that only the manager makes. -/
def Error.isOwn : Error → Bool
  | .alreadyRunning | .notStarted | .stopUnconfirmed _ | .managerQuarantined _ _
  | .revisionConflict _ _ | .applyFailed _ | .applyRollbackFailed _ _
  | .durabilityUncertain _ _ => true
  | _ => false

namespace Manager

open Config Machine Serial

variable {options : Options} {b w w' : World} {α β : Type}

theorem isFinal_of_isStopUnconfirmed {error : Error} (h : isStopUnconfirmed error = true) :
    error.isFinal = true ∧ error.isUnconfirmed = true := by
  cases error <;> first | exact ⟨rfl, rfl⟩ | cases h

section Standing

variable {old : Active}

/-- The control state and the installs so far. -/
def World.standing (w : World) : Ctrl × List Active := (w.ctrl, w.history.installs)

/-- A plain step leaves the standing of the manager. -/
theorem Effect.Plain.standing {effect : Effect} (h : effect.Plain) (answer : Answer effect) :
    (w.step effect answer).standing = w.standing := by
  cases effect
  case takeCurrent | setCurrent | setLastSpec | setQuarantine | publish | spawnForwarder =>
    cases h
  case load path => cases answer <;> rfl
  case spawn site spec epoch controller =>
    obtain ⟨result, artifacts⟩ := answer
    cases result <;> rfl
  case replace source target => cases answer <;> rfl
  case mark point => cases point <;> rfl
  case nextEpoch | abortForwarder => rfl
  all_goals
    have hquiet := Effect.Quietly.step (w := w) (T := fun _ => True) (I := fun _ => True)
      (by simp [Effect.Quietly]) answer
    rw [World.standing, hquiet.ctrl, hquiet.history, World.standing]

/-- A plain program leaves the standing. -/
theorem wp_plain_standing {p : Action α} (hp : p.Uses Effect.Plain) :
    machine.wp (fun _ => True) p (fun _ w' => w'.standing = w.standing) w := by
  induction p generalizing w with
  | ret value => rfl
  | call effect next ih =>
    refine ⟨fun _ => trivial, fun answer _ => ⟨fun _ => trivial, ?_⟩⟩
    have hstep := hp.1.standing (w := w) answer
    exact wp_imp (ih answer (hp.2 answer)) fun _ _ hw => hw.trans hstep

theorem current_of_standing (h : w'.standing = w.standing) (hcurrent : w.ctrl.current = some old) :
    w'.ctrl.current = some old := (congrArg (fun s => s.1.current) h).trans hcurrent

/-- What was current is gone: no instance is current, or another one was installed. -/
structure Vacant (b w : World) : Prop where
  counted : b.history.installs.length ≤ w.history.installs.length
  vacant : w.ctrl.current = none ∨ b.history.installs.length < w.history.installs.length

/-- Only an install ends a vacancy. -/
theorem Vacant.step (h : Vacant b w) (effect : Effect) (answer : Answer effect) :
    Vacant b (w.step effect answer) := by
  by_cases hplain : effect.Plain
  · have hstanding := hplain.standing (w := w) answer
    have hctrl : (w.step effect answer).ctrl = w.ctrl := congrArg Prod.fst hstanding
    have hinstalls : (w.step effect answer).history.installs = w.history.installs :=
      congrArg Prod.snd hstanding
    refine ⟨hinstalls ▸ h.counted, ?_⟩
    rw [hctrl, hinstalls]
    exact h.vacant
  · cases effect
    case takeCurrent => exact ⟨h.counted, Or.inl rfl⟩
    case setCurrent active =>
      have hmore : b.history.installs.length < w.history.installs.length + 1 :=
        Nat.lt_succ_of_le h.counted
      exact ⟨hmore.le, Or.inr hmore⟩
    case setLastSpec | setQuarantine | publish | spawnForwarder => exact ⟨h.counted, h.vacant⟩
    all_goals exact absurd trivial hplain

/-- An instance that is gone is not the one of a manager that nothing has happened to. -/
theorem Vacant.current (h : Vacant b w) (hledger : w.ledger = b.ledger) :
    w.ctrl.current = none := by
  have hinstalls : w.history.installs = b.history.installs := congrArg Ledger.installs hledger
  refine h.vacant.resolve_right fun hmore => ?_
  rw [hinstalls] at hmore
  exact absurd hmore (lt_irrefl _)

end Standing

section Final

variable {handle : Instance} {old : Active} {desired : PreparedLaunch}

/-- What an operation that is past the point of no return says when it fails. -/
def Final (result : Except Error α) (w : World) : Prop :=
  ∀ error, result = .error error → error.isFinal = true ∧
    (error.isUnconfirmed = true → w.ctrl.quarantine ≠ [])

/-- Every failure of a program is final. -/
def Finishes (p : Action (Except Error α)) (w : World) : Prop :=
  machine.wp (fun _ => True) p Final w

theorem final_ok {value : α} : Final (.ok value : Except Error α) w := by
  rintro _ ⟨⟩

theorem Final.withDurabilityResult {result : Except Error ApplyOutcome} (h : Final result w)
    (warning : Option String) : Final (withDurabilityResult result warning) w := by
  cases result with
  | ok outcome => cases warning <;> exact final_ok
  | error error =>
    cases warning with
    | none => exact h
    | some warning =>
      rintro _ ⟨⟩
      exact h error rfl

/-- A stop that fails is unconfirmed. -/
theorem proveDead_error : (handle.proveDead options).Returns fun result =>
    ∀ error, result = .error error → isStopUnconfirmed error = true := by
  have hverify : ∀ context, (handle.verifyIdentity context).Returns fun result =>
      ∀ error, result = .error error → isStopUnconfirmed error = true := by
    intro context
    refine Program.returns_then fun result => ?_
    cases result with
    | error error => rintro _ ⟨⟩; rfl
    | ok value => exact nofun
  have hreap : ∀ text terminal, (handle.reapUnconfirmed text terminal).Returns fun result =>
      ∀ error, result = .error error → isStopUnconfirmed error = true := by
    intro text terminal
    unfold Instance.reapUnconfirmed
    split
    · rintro _ ⟨⟩; rfl
    · split
      · rintro _ ⟨⟩; rfl
      · refine Program.returns_then fun reaped => ?_
        cases reaped with
        | error error => rintro _ ⟨⟩; rfl
        | ok outcome =>
          simp only
          split
          · split
            · exact Program.returns_then fun _ => nofun
            · exact nofun
          · rintro _ ⟨⟩; rfl
  refine Program.returns_then fun status => ?_
  split
  · exact hverify _
  · refine Program.returns_then fun _ => Program.returns_then fun stopResult =>
      Program.returns_then fun monitorConfirmed => Program.returns_then fun status => ?_
    cases stopResult with
    | error stopError => exact hreap _ _
    | ok value =>
      simp only
      split
      · exact hverify _
      · exact hreap _ _

theorem stopAndConfirmDead_error : (handle.stopAndConfirmDead options).Returns fun result =>
    ∀ error, result = .error error → isStopUnconfirmed error = true := by
  refine Program.returns_bind proveDead_error fun result hresult => ?_
  cases result with
  | ok value => exact nofun
  | error error => exact Program.returns_then fun _ => hresult

/-- A latched epoch is in quarantine. -/
theorem latchQuarantine_listed {epoch : ℕ} {error : Error} :
    machine.wp (fun _ => True) (latchQuarantine epoch error)
      (fun error' w' => error' = error ∧ w'.ctrl.quarantine ≠ []) w := by
  have hne : ∀ quarantine epoch reason, recordQuarantine quarantine epoch reason ≠ [] := by
    intro quarantine epoch reason
    cases quarantine with
    | nil => exact List.cons_ne_nil _ _
    | cons entry rest =>
      unfold recordQuarantine
      split <;> exact List.cons_ne_nil _ _
  refine wp_seq (Q := fun quarantine w' => w'.ctrl.quarantine = quarantine ∧ quarantine ≠ []) ?_ ?_
  · refine wp_seq getCtrl_spec ?_
    rintro ctrl _ ⟨-, rfl⟩
    refine wp_seq (Q := fun _ w' => w'.ctrl.quarantine =
      recordQuarantine ctrl.quarantine epoch error.message)
      (wp_perform (fun _ => trivial) fun _ _ => ⟨fun _ => trivial, rfl⟩) ?_
    intro _ w₁ hlisted
    exact ⟨hlisted, hne _ _ _⟩
  · rintro quarantine w₁ ⟨hlisted, hsome⟩
    split
    · refine wp_seq (Q := fun _ w' => w'.ctrl.quarantine ≠ []) ?_ fun _ _ h => ⟨rfl, h⟩
      refine wp_seq (Q := fun _ w' => w'.ctrl.quarantine ≠ []) ?_ fun _ _ h => h
      exact wp_perform (fun _ => trivial) fun _ _ => ⟨fun _ => trivial, hlisted ▸ hsome⟩
    · exact ⟨rfl, hlisted ▸ hsome⟩

/-- A stop that was not confirmed is latched. -/
theorem latch_finishes {epoch : ℕ} {error : Error} (h : isStopUnconfirmed error = true) :
    machine.wp (fun _ => True) (do
      let error ← latchQuarantine epoch error
      return (.error error : Except Error α)) Final w := by
  obtain ⟨hfinal, hunconfirmed⟩ := isFinal_of_isStopUnconfirmed h
  refine wp_seq latchQuarantine_listed ?_
  rintro _ w₁ ⟨rfl, hlisted⟩ _ ⟨⟩
  exact ⟨hfinal, fun _ => hlisted⟩

theorem failTerminally_finishes {apply rollback : String} :
    Finishes
      (failTerminally (.applyRollbackFailed apply rollback) : Action (Except Error α)) w := by
  refine wp_seq (wp_any _ _) ?_
  rintro _ w₁ - _ ⟨⟩
  exact ⟨rfl, nofun⟩

/-- Nothing fails any more. -/
theorem finishes_of_ok {p : Action β} {value : β → α} :
    Finishes (do
      let done ← p
      return (.ok (value done) : Except Error α)) w :=
  wp_seq (wp_any _ _) fun _ _ _ => final_ok

variable {saved : RuntimeConfigBackup}

theorem rollBack_finishes {applyText context : String} {finish : Action Unit} :
    Finishes (rollBack options old applyText context finish) w := by
  refine wp_seq (wp_any _ _) fun _ w₁ _ => ?_
  refine wp_seq (wp_any _ _) fun result w₂ _ => ?_
  cases result with
  | ok handle => exact wp_seq (wp_any _ _) fun _ _ _ => finishes_of_ok
  | error error =>
    simp only
    split
    · exact latch_finishes rfl
    · exact failTerminally_finishes

theorem restoreAndRollBack_finishes {applyText : String} :
    Finishes (restoreAndRollBack options old saved applyText) w := by
  refine wp_seq (wp_any _ _) fun result w₁ _ => ?_
  cases result with
  | error error => exact failTerminally_finishes
  | ok commit => exact wp_seq rollBack_finishes fun _ _ h => h.withDurabilityResult _

theorem latchUnconfirmed_finishes {epoch : ℕ} {error : Error} {otherwise : Action (Except Error α)}
    (h : isStopUnconfirmed error = true) : Finishes (latchUnconfirmed epoch error otherwise) w := by
  rw [latchUnconfirmed, if_pos h]
  exact latch_finishes h

/-- The `Active` that is held is the one that is taken, and its place is vacant then. -/
theorem takeCurrent_held (hcurrent : b.ctrl.current = some old) (hw : w.standing = b.standing) :
    machine.wp (fun _ => True) takeCurrent (fun taken w' => taken = some old ∧ Vacant b w') w := by
  refine wp_perform (fun _ => trivial) fun _ htaken => ⟨fun _ => trivial, ?_, ?_, Or.inl rfl⟩
  · exact htaken.trans (current_of_standing hw hcurrent)
  · exact (congrArg (fun s => s.2.length) hw).ge

/-- What a program that has taken the instance does when it fails. -/
theorem finishes_vacant {p : Action (Except Error α)} (h : Finishes p w) (hvacant : Vacant b w) :
    machine.wp (fun _ => True) p (fun result w' => Final result w' ∧ Vacant b w') w :=
  wp_and h (wp_kept (fun _ effect answer hstep => Vacant.step hstep effect answer) hvacant)

/-- Past the point of no return a restart fails with a final error only. -/
theorem restartWithCompensation_finishes (hcurrent : b.ctrl.current = some old)
    (hw : w.standing = b.standing) :
    machine.wp (fun _ => True) (restartWithCompensation options desired saved)
      (fun result w' => Final result w' ∧ Vacant b w') w := by
  refine wp_seq (takeCurrent_held hcurrent hw) ?_
  rintro _ w₁ ⟨rfl, hvacant⟩
  refine finishes_vacant ?_ hvacant
  refine wp_seq (wp_any _ _) fun _ w₂ _ => ?_
  refine wp_seq (wp_of_returns stopAndConfirmDead_error) fun result w₃ hresult => ?_
  cases result with
  | error error => exact latchUnconfirmed_finishes (hresult error rfl)
  | ok value =>
    refine wp_seq (wp_any _ _) fun _ w₄ _ => ?_
    refine wp_seq (wp_any _ _) fun result w₅ _ => ?_
    cases result with
    | ok handle => exact wp_seq (wp_any _ _) fun _ _ _ => finishes_of_ok
    | error error =>
      simp only
      split
      · rename_i hunconfirmed
        exact latch_finishes hunconfirmed
      · exact restoreAndRollBack_finishes

/-- The part of a switch that follows the preparation. -/
def switchPrepared (options : Options) (desired : PreparedLaunch) (epoch : ℕ) :
    Action (Except Error ApplyOutcome) := do
  match ← takeCurrent with
  | none => return expectFailed "current held by control lock"
  | some old =>
    let oldEpoch := old.revision.epoch
    abortAndAwait old.forwarder
    match ← old.handle.stopAndConfirmDead options with
    | .error error =>
        let _ ← cleanupEpoch options epoch
        latchUnconfirmed oldEpoch error (failTerminally (.applyFailed
          ("failed to stop current epoch for switch: " ++ error.message)))
    | .ok () =>
      let epoch := desired.revision.epoch
      desired.announce (.switching (some oldEpoch) epoch)
      match ← spawnReplacement options desired.effectiveSpec epoch desired.controller with
      | .ok handle =>
          installReplacement (desired.activate handle) handle epoch
          let _ ← cleanupEpoch options oldEpoch
          return .ok (.switched desired.revision)
      | .error error =>
          if isStopUnconfirmed error then
            let error ← latchQuarantine epoch error
            return .error error
          else
            let _ ← cleanupEpoch options epoch
            rollBack options old error.message "desired switch failed" (return ())

theorem switchWithCompensation_eq {input : InstanceSpec} {snapshot : ConfigSnapshot} :
    switchWithCompensation options input snapshot = (do
      let epoch ← nextEpoch
      (prepareLaunch options input epoch snapshot).andThen fun desired =>
        switchPrepared options desired epoch) := rfl

theorem switchPrepared_finishes {epoch : ℕ} (hcurrent : b.ctrl.current = some old)
    (hw : w.standing = b.standing) :
    machine.wp (fun _ => True) (switchPrepared options desired epoch)
      (fun result w' => Final result w' ∧ Vacant b w') w := by
  refine wp_seq (takeCurrent_held hcurrent hw) ?_
  rintro _ w₁ ⟨rfl, hvacant⟩
  refine finishes_vacant ?_ hvacant
  refine wp_seq (wp_any _ _) fun _ w₂ _ => ?_
  refine wp_seq (wp_of_returns stopAndConfirmDead_error) fun result w₃ hresult => ?_
  cases result with
  | error error =>
    exact wp_seq (wp_any _ _) fun _ _ _ => latchUnconfirmed_finishes (hresult error rfl)
  | ok value =>
    refine wp_seq (wp_any _ _) fun _ w₄ _ => ?_
    refine wp_seq (wp_any _ _) fun result w₅ _ => ?_
    cases result with
    | ok handle => exact wp_seq (wp_any _ _) fun _ _ _ => finishes_of_ok
    | error error =>
      simp only
      split
      · rename_i hunconfirmed
        exact latch_finishes hunconfirmed
      · exact wp_seq (wp_any _ _) fun _ _ _ => rollBack_finishes

end Final

section Foreign

variable {spec input : InstanceSpec} {epoch generation : ℕ} {snapshot : ConfigSnapshot}
  {staged : Artifact} {current : Active}

/-- A failure that is not one of the manager's own. -/
def Foreign (result : Except Error α) : Prop := ∀ error, result = .error error → error.isOwn = false

/-- The errors of the files, the cores and the libraries are their own. -/
def Plainspoken (_ : World) : (effect : Effect) → Answer effect → Prop
  | .load _, answer => Foreign answer
  | .resolveFeatures _, answer => Foreign answer
  | .endpoint _, answer => Foreign answer
  | .checkConfig _, answer => Foreign answer
  | .validateAbsent _, answer => Foreign answer
  | .validateExisting _, answer => Foreign answer
  | .createNew _, answer => Foreign answer
  | .setPermissions _, answer => Foreign answer
  | .writeAll _ _, answer => ∀ error left, answer = .error (error, left) → error.isOwn = false
  | .read _, answer => Foreign answer
  | .moveNew _ _, answer => Foreign answer
  | .replace _ _, answer => Foreign answer
  | .syncDir, answer => Foreign answer
  | _, _ => True

/-- The errors of the libraries that a site brings. -/
structure SitePlainspoken (site : Site) : Prop where
  http : ∀ address, Foreign (site.http address)
  serialize : ∀ document, Foreign (site.serialize document)

/-- A program that fails with foreign errors only. -/
def Complains (p : Action (Except Error α)) : Prop :=
  ∀ w, (machine.restrict Plainspoken).wp (fun _ => True) p (fun result _ => Foreign result) w

/-- The rule for an effect that fails with its own errors. -/
theorem wp_admitted {effect : Effect} {post : Answer effect → Prop}
    (h : ∀ answer, Plainspoken w effect answer → post answer) :
    (machine.restrict Plainspoken).wp (fun _ => True) (perform effect) (fun answer _ => post answer)
      w :=
  wp_perform (fun _ => trivial) fun answer hanswer => ⟨fun _ => trivial, h answer hanswer.2⟩

theorem foreign_ok {value : α} : Foreign (.ok value : Except Error α) := by
  rintro _ ⟨⟩

theorem foreign_error {error : Error} (h : error.isOwn = false) :
    Foreign (.error error : Except Error α) := by
  rintro _ ⟨⟩
  exact h

theorem Foreign.error {error : Error} (h : Foreign (.error error : Except Error α)) :
    Foreign (.error error : Except Error β) := foreign_error (h error rfl)

theorem Foreign.map {result : Except Error α} {f : α → β} (h : Foreign result) :
    Foreign (result.map f) := by
  cases result with
  | error error => exact h.error
  | ok value => exact foreign_ok

theorem complains_andThen {p : Action (Except Error α)} {f : α → Action (Except Error β)}
    (hp : Complains p) (hf : ∀ value, Complains (f value)) : Complains (p.andThen f) :=
  fun w => wp_andThen (hp w) (fun value w₁ _ => hf value w₁) fun _ _ h => h.error

theorem complains_ok {value : α} : Complains (return .ok value) := fun _ => foreign_ok

theorem complains_orDrop {attempt : Action (Except Error α)} (h : Complains attempt) :
    Complains (orDrop staged attempt) := by
  intro w
  refine wp_seq (h w) fun result w₁ hforeign => ?_
  cases result with
  | error error => exact wp_seq (wp_any _ _) fun _ _ _ => hforeign
  | ok value => exact foreign_ok

theorem complains_stage {contents : List UInt8} : Complains (stage epoch contents) := by
  intro w
  refine wp_seq (wp_any _ _) fun counter w₁ _ => ?_
  refine complains_andThen (fun w => ?_) (fun () => complains_andThen (fun w => ?_) fun () =>
    complains_andThen (fun w => ?_) fun () w => ?_) w₁
  · exact wp_admitted fun _ h => h
  · exact wp_admitted fun _ h => h
  · exact wp_admitted fun _ h => h
  · refine wp_seq (Q := fun answer _ => ∀ error left, answer = .error (error, left) →
      error.isOwn = false) ?_ ?_
    · exact wp_admitted fun _ h => h
    · intro answer w₂ hanswer
      cases answer with
      | ok value => exact foreign_ok
      | error failure =>
        exact wp_seq (wp_any _ _) fun _ _ _ => foreign_error (hanswer _ _ rfl)

theorem complains_checkStaged : Complains (checkStaged spec staged) :=
  complains_orDrop fun _ =>
    wp_admitted fun _ h => h

theorem complains_validateStaged : Complains (validateStaged options staged epoch) := by
  intro w
  unfold validateStaged
  split
  · split
    · exact wp_admitted fun _ h => h
    · exact foreign_error rfl
  · exact foreign_error rfl

theorem complains_syncDir : Complains (perform .syncDir) :=
  fun _ => wp_admitted fun _ h => h

theorem complains_commitNew : Complains (commitNew options staged epoch) := by
  refine complains_andThen (complains_orDrop ?_) fun () =>
    complains_andThen complains_syncDir fun () => complains_ok
  refine complains_andThen complains_validateStaged fun () =>
    complains_andThen (fun w => ?_) fun () w => ?_
  · exact wp_admitted fun _ h => h
  · exact wp_admitted fun _ h => h

theorem complains_commitReplace : Complains (commitReplace options staged epoch) := by
  refine complains_andThen (complains_orDrop ?_) fun () w =>
    wp_seq (wp_any _ _) fun _ _ _ => foreign_ok
  refine complains_andThen complains_validateStaged fun () =>
    complains_andThen (fun w => ?_) fun () w => ?_
  · exact wp_admitted fun _ h => h
  · exact wp_admitted fun _ h => h

theorem complains_backup : Complains (backup epoch generation) := by
  refine complains_andThen (fun w => ?_) fun () => complains_andThen (fun w => ?_) fun contents =>
    complains_andThen complains_stage fun stagedBackup =>
    complains_andThen (complains_orDrop (complains_andThen (fun w => ?_) fun () w => ?_)) fun () =>
    complains_andThen complains_syncDir fun () => complains_ok
  all_goals
    exact wp_admitted fun _ h => h

theorem foreign_resolveController {info : ConfigInfo} (hsite : SitePlainspoken options.site) :
    Foreign (resolveController options.site info) := by
  unfold resolveController
  split
  · exact foreign_error rfl
  · exact foreign_ok
  · exact foreign_ok
  · exact (hsite.http _).map

theorem foreign_managedDocument {managed : Except Error String} {rewrite : Bool}
    {document : Mapping}
    (hmanaged : Foreign managed) :
    Foreign (managedDocument options.site (fun _ => managed) epoch rewrite document) := by
  unfold managedDocument
  split
  · exact hmanaged.map
  · exact foreign_ok

/-- A preparation fails with the errors of its endpoint and its libraries. -/
theorem foreign_prepareFull {managed : Except Error String} {runtime : List RuntimeFeature}
    (hsite : SitePlainspoken options.site) (hmanaged : Foreign managed) :
    Foreign (snapshot.prepareFull options.site (fun _ => managed) epoch runtime) := by
  simp only [ConfigSnapshot.prepareFull, ConfigSnapshot.prepare, bind, Except.bind, pure,
    Except.pure]
  split
  · rename_i error hdocument
    exact foreign_error (foreign_managedDocument hmanaged error hdocument)
  split
  · rename_i error hcontroller
    exact foreign_error (foreign_resolveController hsite error hcontroller)
  split
  · rename_i error hbytes
    exact foreign_error (hsite.serialize _ error hbytes)
  · exact foreign_ok

theorem complains_prepareFull {runtime : List RuntimeFeature}
    (hsite : SitePlainspoken options.site) :
    Complains (prepareFull options snapshot epoch runtime) :=
  fun _ => wp_seq (wp_admitted fun _ h => h) fun _ _ hmanaged =>
    foreign_prepareFull hsite hmanaged

theorem complains_validateLaunchable : Complains (validateLaunchable spec) := by
  intro w
  refine wp_seq (wp_any _ _) fun present w₁ _ => ?_
  split
  · exact foreign_ok
  · exact foreign_error rfl

theorem complains_prepareLaunch (hsite : SitePlainspoken options.site) :
    Complains (prepareLaunch options spec epoch snapshot) := by
  refine complains_andThen complains_validateLaunchable fun () =>
    complains_andThen (fun w => wp_admitted fun _ h => h) fun resolved => ?_
  exact complains_andThen (complains_prepareFull hsite) fun prepared =>
    complains_andThen complains_stage fun staged =>
    complains_andThen complains_checkStaged fun () =>
    complains_andThen complains_commitNew fun path => complains_ok

theorem complains_prepareApply (hsite : SitePlainspoken options.site) :
    Complains (prepareApply options current input snapshot) := by
  refine complains_andThen complains_validateLaunchable fun () =>
    complains_andThen (fun w => wp_admitted fun _ h => h) fun resolved => ?_
  exact complains_andThen (complains_prepareFull hsite) fun prepared =>
    complains_andThen complains_stage fun staged =>
    complains_andThen complains_checkStaged fun () => complains_ok

theorem foreign_filterMapping {value : Value} {allowed : List String} :
    Foreign (filterMapping value allowed) := by
  unfold filterMapping
  split
  · exact foreign_error rfl
  · exact foreign_ok

theorem foreign_patchRoot {desired : Mapping} {root : String} :
    Foreign (patchRoot desired root) := by
  unfold patchRoot
  split
  · exact foreign_ok
  · split
    · exact foreign_filterMapping.map
    · split
      · exact foreign_filterMapping.map
      · exact foreign_ok

theorem foreign_patchDocument {desired : Mapping} {roots : List String} :
    ∀ document, Foreign (patchDocument desired roots document) := by
  induction roots with
  | nil => exact fun document => foreign_ok
  | cons root roots ih =>
    intro document
    simp only [patchDocument]
    split
    · rename_i error hfailed
      exact foreign_error (foreign_patchRoot error hfailed)
    · exact foreign_ok
    · exact ih _

theorem foreign_buildPatch {ip : IpText} {desired : Mapping} {changes : List DiffEntry} :
    Foreign (buildPatch ip desired changes) := by
  unfold buildPatch
  split
  · rename_i error hfailed
    exact foreign_error (foreign_patchDocument _ error hfailed)
  · exact foreign_ok
  · split
    · exact foreign_ok
    · split <;> exact foreign_ok

/-- A classification fails on a document that no patch can be made of. -/
theorem foreign_classify {ip : IpText} {debugOptions : InstanceOptions → String}
    {source effective source' effective' : Mapping} {spec' : InstanceSpec} :
    Foreign (classify ip debugOptions source effective spec source' effective' spec') := by
  unfold classify
  split
  · exact foreign_ok
  simp only
  split
  · split <;> exact foreign_ok
  split
  · exact foreign_ok
  unfold classifyDocuments
  split
  · exact foreign_ok
  simp only
  split
  · exact foreign_ok
  split
  · exact foreign_buildPatch
  split <;> exact foreign_ok

end Foreign

section Told

variable {input : InstanceSpec} {snapshot : ConfigSnapshot} {old : Active}
  {prepared : PreparedApply} {change : ConfigChange} {expected : Option RevisionId}

/-- A failure is final and the instance is gone, or it is a foreign one and the standing of the
manager is what it was. -/
def Told (b : World) (result : Except Error α) (w : World) : Prop :=
  ∀ error, result = .error error →
    (error.isFinal = true ∧ (error.isUnconfirmed = true → w.ctrl.quarantine ≠ []) ∧ Vacant b w) ∨
      (error.isOwn = false ∧ w.standing = b.standing)

theorem told_ok {value : α} : Told b (.ok value : Except Error α) w := by
  rintro _ ⟨⟩

theorem Final.told {result : Except Error α} (h : Final result w) (hvacant : Vacant b w) :
    Told b result w := by
  intro error herror
  obtain ⟨hfinal, hunconfirmed⟩ := h error herror
  exact Or.inl ⟨hfinal, hunconfirmed, hvacant⟩

theorem Foreign.told {result : Except Error α} (h : Foreign result)
    (hw : w.standing = b.standing) : Told b result w :=
  fun error herror => Or.inr ⟨h error herror, hw⟩

/-- The rule for a plain program. -/
theorem stands {p : Action α} (hp : p.Uses Effect.Plain) (hw : w.standing = b.standing) :
    (machine.restrict Plainspoken).wp (fun _ => True) p (fun _ w' => w'.standing = b.standing) w :=
  wp_restrict (wp_imp (wp_plain_standing hp) fun _ _ hstanding => hstanding.trans hw)

/-- The rule for a plain program whose failures are foreign. -/
theorem Complains.spec {p : Action (Except Error α)} (h : Complains p) (hp : p.Uses Effect.Plain)
    (hw : w.standing = b.standing) :
    (machine.restrict Plainspoken).wp (fun _ => True) p
      (fun result w' => Foreign result ∧ w'.standing = b.standing) w := wp_and (h w) (stands hp hw)

theorem switchWithCompensation_told (hsite : SitePlainspoken options.site)
    (hcurrent : b.ctrl.current = some old) (hw : w.standing = b.standing) :
    (machine.restrict Plainspoken).wp (fun _ => True)
      (switchWithCompensation options input snapshot) (Told b) w := by
  rw [switchWithCompensation_eq]
  refine wp_seq (stands (Program.uses_perform trivial) hw) fun epoch w₁ hw₁ => ?_
  refine wp_andThen ((complains_prepareLaunch hsite).spec prepareLaunch_plain hw₁) ?_ ?_
  · rintro desired w₂ ⟨-, hw₂⟩
    exact wp_imp (wp_restrict (switchPrepared_finishes hcurrent hw₂)) fun _ _ h => h.1.told h.2
  · rintro error w₂ ⟨hforeign, hw₂⟩
    exact hforeign.error.told hw₂

theorem applyInPlace_told (hcurrent : b.ctrl.current = some old) (hw : w.standing = b.standing) :
    (machine.restrict Plainspoken).wp (fun _ => True) (applyInPlace options old prepared change)
      (Told b) w := by
  refine wp_andThen ((complains_orDrop complains_backup).spec (orDrop_plain backup_plain) hw) ?_ ?_
  · rintro saved w₁ ⟨-, hw₁⟩
    refine wp_seq (complains_commitReplace.spec commitReplace_plain hw₁) ?_
    rintro result w₂ ⟨hforeign, hw₂⟩
    cases result with
    | error error =>
      refine wp_seq (stands removeBackup_plain hw₂) fun _ w₃ hw₃ => ?_
      exact hforeign.error.told hw₃
    | ok commit =>
      refine wp_seq (stands reconcileInPlace_plain hw₂) fun reconciled w₃ hw₃ => ?_
      cases reconciled with
      | false =>
        refine wp_seq (wp_restrict (restartWithCompensation_finishes hcurrent hw₃)) ?_
        exact fun _ _ h => (h.1.withDurabilityResult _).told h.2
      | true =>
        refine wp_seq (wp_restrict getCtrl_spec) ?_
        rintro _ _ ⟨rfl, rfl⟩
        rw [current_of_standing hw₃ hcurrent]
        refine wp_restrict (wp_seq (wp_any _ _) fun _ _ _ => wp_seq (wp_any _ _) fun _ _ _ =>
          wp_seq (wp_any _ _) fun _ _ _ => wp_seq (wp_any _ _) fun _ _ _ =>
          wp_seq (wp_any _ _) fun _ _ _ => ?_)
        cases commit.warning <;> exact told_ok
  · rintro error w₁ ⟨hforeign, hw₁⟩
    exact hforeign.error.told hw₁

theorem applyChange_told (hsite : SitePlainspoken options.site)
    (hcurrent : b.ctrl.current = some old) (hw : w.standing = b.standing) :
    (machine.restrict Plainspoken).wp (fun _ => True)
      (applyChange options old input snapshot prepared) (Told b) w := by
  simp only [applyChange]
  split
  · rename_i error hfailed
    exact wp_seq (stands dropStaged_plain hw) fun _ w₁ hw₁ =>
      (foreign_error (foreign_classify error hfailed)).told hw₁
  · exact wp_seq (stands dropStaged_plain hw) fun _ w₁ _ => told_ok
  · exact wp_seq (stands dropStaged_plain hw) fun _ w₁ hw₁ =>
      switchWithCompensation_told hsite hcurrent hw₁
  · exact applyInPlace_told hcurrent hw

/-- An apply that is turned away at its beginning, with the reason. -/
inductive Refused (expected : Option RevisionId) (b w : World) : Error → Prop
  | quarantined (epoch : ℕ) (reason : String) : b.ctrl.quarantine ≠ [] →
      Refused expected b w (.managerQuarantined epoch reason)
  | notStarted : (∀ active, b.ctrl.current = some active →
      (w.processes active.handle.id).terminal = true) → Refused expected b w .notStarted
  | conflict (active : Active) (id : RevisionId) : b.ctrl.current = some active →
      expected = some id → active.revision.id ≠ id →
      Refused expected b w (.revisionConflict id (some active.revision.id))

/-- Nothing but the look at the instance has happened. -/
structure Alike (b w : World) : Prop where
  ctrl : w.ctrl = b.ctrl
  files : w.files = b.files
  history : w.history = b.history

/-- What a failed apply says: it was refused, or it failed on a current instance and tells how. -/
def Accounts (expected : Option RevisionId) (b : World) (result : Except Error ApplyOutcome)
    (w : World) : Prop :=
  ∀ error, result = .error error →
    (Refused expected b w error ∧ Alike b w) ∨
      (b.ctrl.current ≠ none ∧ Told b (.error error : Except Error ApplyOutcome) w)

theorem Told.accounts {result : Except Error ApplyOutcome} (h : Told b result w)
    (hcurrent : b.ctrl.current = some old) : Accounts expected b result w := by
  rintro error rfl
  exact Or.inr ⟨by simp [hcurrent], h⟩

/-- Every failed apply accounts for itself. -/
theorem applyConfig_accounts (hsite : SitePlainspoken options.site) :
    (machine.restrict Plainspoken).wp (fun _ => True) (applyConfig options input expected)
      (Accounts expected w) w := by
  have hrefuse : ∀ {w' error}, Refused expected w w' error → Alike w w' →
      Accounts expected w (.error error : Except Error ApplyOutcome) w' := by
    rintro w' error hrefused halike _ ⟨⟩
    exact Or.inl ⟨hrefused, halike⟩
  unfold applyConfig
  refine wp_seq (wp_restrict getCtrl_spec) ?_
  rintro _ _ ⟨rfl, rfl⟩
  cases hreject : rejectQuarantine w.ctrl with
  | error error =>
    obtain ⟨epoch, reason, rfl⟩ := rejectQuarantine_error hreject
    refine hrefuse (.quarantined epoch reason fun hempty => ?_) ⟨rfl, rfl, rfl⟩
    simp [rejectQuarantine, hempty, quarantineError] at hreject
  | ok value =>
  cases hcurrent : w.ctrl.current with
  | none =>
    refine hrefuse (.notStarted fun active hactive => ?_) ⟨rfl, rfl, rfl⟩
    rw [hcurrent] at hactive
    cases hactive
  | some old =>
  have haccounts : ∀ {p : Action (Except Error ApplyOutcome)} {w'},
      (machine.restrict Plainspoken).wp (fun _ => True) p (Told w) w' →
      (machine.restrict Plainspoken).wp (fun _ => True) p (Accounts expected w) w' :=
    fun h => wp_imp h fun _ _ htold => htold.accounts hcurrent
  refine wp_seq (wp_restrict (wp_and (borrow_spec (T := noArtifact) (I := noInstance) (.refl w))
    borrow_files)) ?_
  rintro status w₁ ⟨⟨hw₁, -, hterminal, -⟩, hfiles₁, -⟩
  have halike : Alike w w₁ := ⟨hw₁.ctrl, hfiles₁, hw₁.history⟩
  split
  · rename_i hstopped
    refine hrefuse (.notStarted fun active hactive => ?_) halike
    obtain rfl := Option.some.inj (hcurrent.symm.trans hactive)
    exact hterminal hstopped
  split
  · rename_i id hconflict
    obtain ⟨hexpected, hne⟩ := Option.filter_eq_some_iff.mp hconflict
    rw [decide_eq_true_eq] at hne
    exact hrefuse (.conflict old id hcurrent hexpected hne.symm) halike
  · have hstood : w₁.standing = w.standing := by
      rw [World.standing, hw₁.ctrl, hw₁.history, World.standing]
    have hload : Complains (load input.configPath) := fun _ => wp_admitted fun _ h => h
    refine haccounts (wp_andThen (hload.spec (Program.uses_perform trivial) hstood) ?_ ?_)
    · rintro snapshot w₂ ⟨-, hw₂⟩
      refine wp_andThen ((complains_prepareApply hsite).spec prepareApply_plain hw₂) ?_ ?_
      · rintro prepared w₃ ⟨-, hw₃⟩
        exact applyChange_told hsite hcurrent hw₃
      · rintro error w₃ ⟨hforeign, hw₃⟩
        exact hforeign.error.told hw₃
    · rintro error w₂ ⟨hforeign, hw₂⟩
      exact hforeign.error.told hw₂

end Told

end Manager

end Nyanpasu
