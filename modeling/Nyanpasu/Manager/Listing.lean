import Nyanpasu.Manager.Plain

/-!
# The quarantine list

An operation writes the quarantine list only as a change of the list that it has just read:
an epoch is recorded, its death is marked as proven, or it is released. So in every run no
epoch is listed twice, and a proof of death is kept for as long as its entry is.
-/

namespace Nyanpasu.Manager

open Config Machine Program Serial

/-- The changes of the quarantine list. -/
inductive Relists (old : List QuarantinedEpoch) : List QuarantinedEpoch → Prop
  | same : Relists old old
  | record (epoch : ℕ) (reason : String) : Relists old (recordQuarantine old epoch reason)
  | prove (epoch : ℕ) : Relists old (setDeathProven old epoch)
  | release (epoch : ℕ) : Relists old (releaseEpoch old epoch)

/-- An effect changes the list that is known. -/
def Effect.Relists (known : Option (List QuarantinedEpoch)) : Effect → Prop
  | .setQuarantine quarantine => ∃ old, known = some old ∧ Manager.Relists old quarantine
  | _ => True

/-- The list that is known after an effect. -/
def Effect.learns (known : Option (List QuarantinedEpoch)) :
    (effect : Effect) → Answer effect → Option (List QuarantinedEpoch)
  | .ctrl, answer => some answer.quarantine
  | .setQuarantine quarantine, _ => some quarantine
  | _, _ => known

/-- Every list that the program writes is a change of the list that it knows. -/
def Tracks {α : Type} : Option (List QuarantinedEpoch) → Action α → Prop
  | _, .ret _ => True
  | known, .call effect next =>
      effect.Relists known ∧ ∀ answer, Tracks (effect.learns known answer) (next answer)

section Programs

variable {options : Options} {α β : Type} {known : Option (List QuarantinedEpoch)}
  {effect : Effect}

theorem Effect.Relists.of_none (h : effect.Relists none) : effect.Relists known := by
  cases effect
  case setQuarantine quarantine =>
    obtain ⟨old, hnone, -⟩ := h
    cases hnone
  all_goals trivial

theorem Effect.learns_none (known : Option (List QuarantinedEpoch)) (answer : Answer effect) :
    effect.learns none answer = none ∧ effect.learns known answer = known ∨
      effect.learns none answer = effect.learns known answer := by
  cases effect
  case ctrl | setQuarantine => exact .inr rfl
  all_goals exact .inl ⟨rfl, rfl⟩

/-- A program that knows nothing before it reads may be told more. -/
theorem Tracks.of_none {p : Action α} (h : Tracks none p) : Tracks known p := by
  induction p generalizing known with
  | ret value => trivial
  | call effect next ih =>
    refine ⟨h.1.of_none, fun answer => ?_⟩
    rcases Effect.learns_none known answer with ⟨hnone, hknown⟩ | heq
    · rw [hknown]
      exact ih answer (hnone ▸ h.2 answer)
    · rw [← heq]
      exact h.2 answer

theorem tracks_bind {p : Action α} {f : α → Action β} (hp : Tracks known p)
    (hf : ∀ value, Tracks none (f value)) : Tracks known (p >>= f) := by
  change Tracks known (p.bind f)
  induction p generalizing known with
  | ret value => exact (hf value).of_none
  | call effect next ih => exact ⟨hp.1, fun answer => ih answer (hp.2 answer)⟩

theorem tracks_andThen {p : Action (Except Error α)} {f : α → Action (Except Error β)}
    (hp : Tracks known p) (hf : ∀ value, Tracks none (f value)) :
    Tracks known (p.andThen f) := by
  refine tracks_bind hp fun result => ?_
  cases result with
  | ok value => exact hf value
  | error error => trivial

/-- An effect that is not the write of a list needs to know nothing. -/
theorem tracks_perform (h : effect.Relists none) : Tracks known (perform effect) :=
  ⟨h.of_none, fun _ => trivial⟩

/-- A program that never writes the list needs to know nothing. -/
theorem tracks_of_plain {p : Action α} (h : p.Uses Effect.Plain) : Tracks known p := by
  induction p generalizing known with
  | ret value => trivial
  | call effect next ih =>
    refine ⟨?_, fun answer => ih answer (h.2 answer)⟩
    have hplain := h.1
    cases effect <;> trivial

theorem quarantineEpoch_tracks {epoch : ℕ} {reason : String} :
    Tracks none (quarantineEpoch epoch reason) :=
  ⟨trivial, fun ctrl => ⟨⟨ctrl.quarantine, rfl, .record epoch reason⟩, fun _ => trivial⟩⟩

theorem publish_tracks {state : CoreState} {spec : Option SpecSummary} {host : Option Host}
    {revision : Option ConfigRevision} : Tracks none (publish state spec host revision) :=
  tracks_bind (tracks_perform trivial) fun _ => trivial

theorem publishInstance_tracks {handle : Instance} {state : CoreState} {spec : InstanceSpec}
    {revision : ConfigRevision} {capabilities : List Feature} {runtime : List RuntimeFeature} :
    Tracks none (publishInstance handle state spec revision capabilities runtime) :=
  tracks_bind (tracks_perform trivial) fun _ =>
  tracks_bind (tracks_perform trivial) fun _ => trivial

theorem republishRetained_tracks : Tracks none republishRetained := by
  refine tracks_bind (tracks_perform trivial) fun ctrl => ?_
  split
  · trivial
  · exact tracks_bind (tracks_perform trivial) fun _ => publishInstance_tracks

theorem latchQuarantine_tracks {epoch : ℕ} {error : Error} :
    Tracks none (latchQuarantine epoch error) := by
  refine tracks_bind quarantineEpoch_tracks fun quarantine => ?_
  split
  · exact tracks_bind publish_tracks fun _ => trivial
  · trivial

theorem latched_tracks {epoch : ℕ} {error : Error} :
    Tracks none (do return .error (← latchQuarantine epoch error) : Action (Except Error α)) :=
  tracks_bind latchQuarantine_tracks fun _ => trivial

theorem failTerminally_tracks {error : Error} :
    Tracks none (failTerminally error : Action (Except Error α)) :=
  tracks_bind publish_tracks fun _ => trivial

theorem latchUnconfirmed_tracks {epoch : ℕ} {error : Error}
    {otherwise : Action (Except Error α)} (h : Tracks none otherwise) :
    Tracks none (latchUnconfirmed epoch error otherwise) := by
  unfold latchUnconfirmed
  split
  · exact latched_tracks
  · exact h

theorem refuse_tracks {epoch : ℕ} {error : Error} {publication : Action Unit}
    (h : Tracks none publication) :
    Tracks none (refuse options epoch error publication : Action (Except Error α)) :=
  tracks_bind (tracks_of_plain cleanupEpoch_plain) fun _ =>
  tracks_bind h fun _ => trivial

theorem installSwitched_tracks {handle : Instance} {prepared : PreparedLaunch} :
    Tracks none (installSwitched handle prepared) := by
  refine tracks_bind (tracks_bind (tracks_perform trivial) fun _ => trivial) fun pid => ?_
  refine tracks_bind publishInstance_tracks fun _ => ?_
  refine tracks_bind (tracks_bind (tracks_perform trivial) fun _ => trivial) fun forwarder => ?_
  exact tracks_bind (tracks_perform trivial) fun _ => tracks_perform trivial

theorem startPrepared_tracks {prepared : PreparedLaunch} :
    Tracks none (startPrepared options prepared) := by
  refine tracks_bind publish_tracks fun _ => ?_
  refine tracks_bind (tracks_of_plain spawnInstance_plain) fun spawned => ?_
  cases spawned with
  | error error => exact refuse_tracks publish_tracks
  | ok handle =>
    refine tracks_bind (tracks_of_plain waitReady_plain) fun ready => ?_
    cases ready with
    | ok value => exact tracks_bind installSwitched_tracks fun _ => trivial
    | error readinessError =>
      refine tracks_bind (tracks_of_plain stopAndConfirmDead_plain) fun stopped => ?_
      cases stopped with
      | ok value => exact refuse_tracks publish_tracks
      | error stopError => exact latched_tracks

theorem startLocked_tracks {spec : InstanceSpec} : Tracks none (startLocked options spec) := by
  refine tracks_bind (tracks_perform trivial) fun epoch => ?_
  refine tracks_bind (tracks_perform trivial) fun loaded => ?_
  cases loaded with
  | error error => exact failTerminally_tracks
  | ok snapshot =>
    refine tracks_bind (tracks_of_plain prepareLaunch_plain) fun prepared => ?_
    cases prepared with
    | error error => exact refuse_tracks publish_tracks
    | ok prepared => exact startPrepared_tracks

theorem isRunning_tracks {current : Option Active} : Tracks none (isRunning current) := by
  cases current with
  | none => trivial
  | some active => exact tracks_bind (tracks_perform trivial) fun _ => trivial

theorem discardStale_tracks : Tracks none (discardStale options) := by
  refine tracks_bind (tracks_perform trivial) fun taken => ?_
  cases taken with
  | none => trivial
  | some stale =>
    refine tracks_bind (tracks_of_plain abortAndAwait_plain) fun _ => ?_
    refine tracks_bind (tracks_of_plain stopAndConfirmDead_plain) fun stopped => ?_
    cases stopped with
    | error error => exact latchUnconfirmed_tracks trivial
    | ok value =>
      refine tracks_bind (tracks_of_plain cleanupEpoch_plain) fun cleaned => ?_
      cases cleaned with
      | error error => exact tracks_bind (tracks_perform trivial) fun _ => trivial
      | ok value => trivial

theorem start_tracks {spec : InstanceSpec} : Tracks none (start options spec) := by
  refine tracks_bind (tracks_perform trivial) fun ctrl => ?_
  split
  · trivial
  · refine tracks_bind isRunning_tracks fun running => ?_
    split
    · trivial
    · exact tracks_andThen discardStale_tracks fun _ => startLocked_tracks

theorem stopTaken_tracks {handle : Instance} {finish : Action (Except Error Unit)}
    (h : Tracks none finish) : Tracks none (stopTaken options handle finish) := by
  refine tracks_bind (tracks_of_plain stopAndConfirmDead_plain) fun stopped => ?_
  cases stopped with
  | error error => exact latchUnconfirmed_tracks failTerminally_tracks
  | ok value =>
    refine tracks_bind (tracks_of_plain cleanupEpoch_plain) fun cleaned => ?_
    cases cleaned with
    | error error => exact failTerminally_tracks
    | ok value => exact h

theorem publishStopped_tracks : Tracks none publishStopped :=
  tracks_bind publish_tracks fun _ => trivial

theorem stop_tracks : Tracks none (stop options) := by
  refine tracks_bind (tracks_perform trivial) fun taken => ?_
  cases taken with
  | none => trivial
  | some active =>
    refine tracks_bind (tracks_perform trivial) fun captured => ?_
    refine tracks_bind (tracks_of_plain abortAndAwait_plain) fun _ => ?_
    dsimp only
    split
    · refine tracks_bind publish_tracks fun _ => ?_
      refine tracks_bind (tracks_of_plain stopAndConfirmDead_plain) fun stopped => ?_
      cases stopped with
      | error error => exact latchUnconfirmed_tracks trivial
      | ok value =>
        refine tracks_bind (tracks_of_plain cleanupEpoch_plain) fun cleaned => ?_
        cases cleaned with
        | error error => exact failTerminally_tracks
        | ok value => trivial
    · exact tracks_bind publish_tracks fun _ => stopTaken_tracks publishStopped_tracks

theorem shutdown_tracks : Tracks none (shutdown options) := by
  refine tracks_bind ?_ fun _ => tracks_bind (tracks_perform trivial) fun _ => trivial
  refine tracks_bind (tracks_perform trivial) fun taken => ?_
  cases taken with
  | none => trivial
  | some active =>
    refine tracks_bind (tracks_of_plain abortAndAwait_plain) fun _ => ?_
    exact tracks_bind publish_tracks fun _ => stopTaken_tracks publishStopped_tracks

theorem hardSwitch_tracks {spec : InstanceSpec} {snapshot : ConfigSnapshot}
    {resolved : ResolvedFeatures} : Tracks none (hardSwitch options spec snapshot resolved) := by
  refine tracks_bind (tracks_perform trivial) fun epoch => ?_
  refine tracks_bind (tracks_of_plain prepareLaunchWithFeatures_plain) fun prepared => ?_
  cases prepared with
  | error error => exact refuse_tracks republishRetained_tracks
  | ok prepared =>
    refine tracks_bind (tracks_perform trivial) fun ctrl => ?_
    refine tracks_bind publish_tracks fun _ => ?_
    refine tracks_bind (tracks_perform trivial) fun taken => ?_
    cases taken with
    | none => trivial
    | some old =>
      refine tracks_bind (tracks_of_plain abortAndAwait_plain) fun _ => ?_
      refine tracks_bind (tracks_of_plain stopAndConfirmDead_plain) fun stopped => ?_
      cases stopped with
      | error error =>
        exact tracks_bind (tracks_of_plain cleanupEpoch_plain) fun _ =>
          latchUnconfirmed_tracks failTerminally_tracks
      | ok value =>
        refine tracks_bind (tracks_of_plain cleanupEpoch_plain) fun cleaned => ?_
        cases cleaned with
        | error error => exact failTerminally_tracks
        | ok value => exact startPrepared_tracks

theorem finishSwitch_tracks {handle : Instance} {launch : PreparedLaunch} {oldEpoch : ℕ}
    {outcome : SwitchOutcome} {warning : Option String} :
    Tracks none (finishSwitch options handle launch oldEpoch outcome warning) := by
  refine tracks_bind installSwitched_tracks fun _ => ?_
  refine tracks_bind (tracks_of_plain cleanupEpoch_plain) fun cleaned => ?_
  cases cleaned with
  | error error => exact tracks_bind (tracks_perform trivial) fun _ => trivial
  | ok value => trivial

theorem replaceBootstrap_tracks {handle : Instance} {launch : PreparedLaunch} {oldEpoch : ℕ}
    {warning : Option String} :
    Tracks none (replaceBootstrap options handle launch oldEpoch warning) := by
  refine tracks_bind (tracks_of_plain stopAndConfirmDead_plain) fun stopped => ?_
  cases stopped with
  | error error =>
    exact tracks_bind (latchUnconfirmed_tracks failTerminally_tracks) fun _ => trivial
  | ok value =>
    refine tracks_bind (tracks_of_plain spawnReplacement_plain) fun replaced => ?_
    cases replaced with
    | ok replacement => exact finishSwitch_tracks
    | error error =>
      dsimp only
      split
      · exact tracks_bind latchQuarantine_tracks fun _ => trivial
      · exact tracks_bind (tracks_of_plain cleanupEpoch_plain) fun _ =>
          tracks_bind publish_tracks fun _ => trivial

theorem commitFull_tracks {handle : Instance} {prepared : PreparedGraceful} {oldEpoch : ℕ} :
    Tracks none (commitFull options handle prepared oldEpoch) := by
  refine tracks_bind (tracks_of_plain commitReplace_plain) fun committed => ?_
  cases committed with
  | error error =>
    refine tracks_bind (tracks_of_plain stopAndConfirmDead_plain) fun stopped => ?_
    cases stopped with
    | ok value =>
      exact tracks_bind (tracks_of_plain cleanupEpoch_plain) fun _ =>
        latchUnconfirmed_tracks failTerminally_tracks
    | error newError => exact latched_tracks
  | ok commit =>
    refine tracks_bind (tracks_of_plain reconcileBootstrap_plain) fun reconciled => ?_
    split
    · exact finishSwitch_tracks
    · exact replaceBootstrap_tracks

theorem abandonBootstrap_tracks {handle : Instance} {fullStaged : Artifact} {oldEpoch : ℕ}
    {error : Error} : Tracks none (abandonBootstrap options handle fullStaged oldEpoch error) := by
  refine tracks_bind (tracks_of_plain dropStaged_plain) fun _ => ?_
  refine tracks_bind (tracks_of_plain stopAndConfirmDead_plain) fun stopped => ?_
  cases stopped with
  | ok value =>
    exact tracks_bind (tracks_of_plain cleanupEpoch_plain) fun _ =>
      latchUnconfirmed_tracks failTerminally_tracks
  | error newError =>
    dsimp only
    split
    · exact tracks_bind quarantineEpoch_tracks fun _ => latched_tracks
    · exact latched_tracks

theorem gracefulSwitch_tracks {spec : InstanceSpec} {snapshot : ConfigSnapshot}
    {resolved : ResolvedFeatures} :
    Tracks none (gracefulSwitch options spec snapshot resolved) := by
  refine tracks_bind (tracks_perform trivial) fun ctrl => ?_
  refine tracks_bind (tracks_perform trivial) fun epoch => ?_
  refine tracks_bind (tracks_of_plain prepareGraceful_plain) fun prepared => ?_
  cases prepared with
  | error error => exact refuse_tracks republishRetained_tracks
  | ok prepared =>
    refine tracks_bind publish_tracks fun _ => ?_
    refine tracks_bind (tracks_of_plain spawnInstance_plain) fun spawned => ?_
    cases spawned with
    | error error =>
      exact tracks_bind (tracks_of_plain dropStaged_plain) fun _ =>
        refuse_tracks republishRetained_tracks
    | ok handle =>
      refine tracks_bind (tracks_of_plain waitReady_plain) fun ready => ?_
      cases ready with
      | error error =>
        refine tracks_bind (tracks_of_plain dropStaged_plain) fun _ => ?_
        refine tracks_bind (tracks_of_plain stopAndConfirmDead_plain) fun stopped => ?_
        cases stopped with
        | ok value => exact refuse_tracks republishRetained_tracks
        | error stopError => exact latched_tracks
      | ok value =>
        refine tracks_bind (tracks_perform trivial) fun taken => ?_
        cases taken with
        | none => trivial
        | some old =>
          refine tracks_bind (tracks_of_plain abortAndAwait_plain) fun _ => ?_
          refine tracks_bind (tracks_of_plain stopAndConfirmDead_plain) fun stopped => ?_
          cases stopped with
          | error error => exact abandonBootstrap_tracks
          | ok value => exact commitFull_tracks

theorem switchLocked_tracks {spec : InstanceSpec} : Tracks none (switchLocked options spec) := by
  refine tracks_bind (tracks_perform trivial) fun ctrl => ?_
  refine tracks_bind isRunning_tracks fun running => ?_
  split
  · refine tracks_andThen (tracks_perform trivial) fun snapshot => ?_
    refine tracks_andThen (tracks_of_plain validateLaunchable_plain) fun _ => ?_
    refine tracks_andThen (tracks_perform trivial) fun resolved => ?_
    split
    · exact tracks_andThen hardSwitch_tracks fun _ => trivial
    · exact gracefulSwitch_tracks
  · exact tracks_andThen discardStale_tracks fun _ =>
      tracks_andThen startLocked_tracks fun _ => trivial

theorem switch_tracks {spec : InstanceSpec} : Tracks none (switch options spec) := by
  refine tracks_bind (tracks_perform trivial) fun ctrl => ?_
  split
  · trivial
  · exact switchLocked_tracks

theorem restart_tracks : Tracks none (restart options) := by
  refine tracks_bind (tracks_perform trivial) fun ctrl => ?_
  split
  · trivial
  · split
    · trivial
    · exact switchLocked_tracks

theorem installReplacement_tracks {active : Forwarder → Active} {handle : Instance} {epoch : ℕ} :
    Tracks none (installReplacement active handle epoch) := by
  refine tracks_bind (tracks_bind (tracks_perform trivial) fun _ => trivial) fun pid => ?_
  refine tracks_bind (tracks_bind (tracks_perform trivial) fun _ => trivial) fun forwarder => ?_
  exact tracks_bind (tracks_perform trivial) fun _ =>
    tracks_bind (tracks_perform trivial) fun _ => publishInstance_tracks

theorem rollBack_tracks {old : Active} {applyText context : String} {finish : Action Unit}
    (h : Tracks none finish) : Tracks none (rollBack options old applyText context finish) := by
  refine tracks_bind publish_tracks fun _ => ?_
  refine tracks_bind (tracks_of_plain spawnReplacement_plain) fun replaced => ?_
  cases replaced with
  | ok handle =>
    exact tracks_bind installReplacement_tracks fun _ => tracks_bind h fun _ => trivial
  | error error =>
    dsimp only
    split
    · exact latched_tracks
    · exact failTerminally_tracks

theorem restartWithCompensation_tracks {desired : PreparedLaunch} {saved : RuntimeConfigBackup} :
    Tracks none (restartWithCompensation options desired saved) := by
  refine tracks_bind (tracks_perform trivial) fun taken => ?_
  cases taken with
  | none => trivial
  | some old =>
    refine tracks_bind (tracks_of_plain abortAndAwait_plain) fun _ => ?_
    refine tracks_bind (tracks_of_plain stopAndConfirmDead_plain) fun stopped => ?_
    cases stopped with
    | error error => exact latchUnconfirmed_tracks failTerminally_tracks
    | ok value =>
      refine tracks_bind publish_tracks fun _ => ?_
      refine tracks_bind (tracks_of_plain spawnReplacement_plain) fun replaced => ?_
      cases replaced with
      | ok handle =>
        exact tracks_bind installReplacement_tracks fun _ =>
          tracks_bind (tracks_of_plain removeBackup_plain) fun _ => trivial
      | error error =>
        dsimp only
        split
        · exact latched_tracks
        · refine tracks_bind (tracks_of_plain restore_plain) fun restored => ?_
          cases restored with
          | error error => exact failTerminally_tracks
          | ok commit =>
            refine tracks_bind (rollBack_tracks ?_) fun _ => trivial
            exact tracks_bind (tracks_of_plain removeBackup_plain) fun _ => trivial

theorem switchWithCompensation_tracks {input : InstanceSpec} {snapshot : ConfigSnapshot} :
    Tracks none (switchWithCompensation options input snapshot) := by
  refine tracks_bind (tracks_perform trivial) fun epoch => ?_
  refine tracks_andThen (tracks_of_plain prepareLaunch_plain) fun desired => ?_
  refine tracks_bind (tracks_perform trivial) fun taken => ?_
  cases taken with
  | none => trivial
  | some old =>
    refine tracks_bind (tracks_of_plain abortAndAwait_plain) fun _ => ?_
    refine tracks_bind (tracks_of_plain stopAndConfirmDead_plain) fun stopped => ?_
    cases stopped with
    | error error =>
      exact tracks_bind (tracks_of_plain cleanupEpoch_plain) fun _ =>
        latchUnconfirmed_tracks failTerminally_tracks
    | ok value =>
      refine tracks_bind publish_tracks fun _ => ?_
      refine tracks_bind (tracks_of_plain spawnReplacement_plain) fun replaced => ?_
      cases replaced with
      | ok handle =>
        exact tracks_bind installReplacement_tracks fun _ =>
          tracks_bind (tracks_of_plain cleanupEpoch_plain) fun _ => trivial
      | error error =>
        dsimp only
        split
        · exact latched_tracks
        · exact tracks_bind (tracks_of_plain cleanupEpoch_plain) fun _ =>
            rollBack_tracks trivial

theorem adoptInPlace_tracks {desired : PreparedLaunch} {saved : RuntimeConfigBackup}
    {outcome : ApplyOutcome} {warning : Option String} :
    Tracks none (adoptInPlace desired saved outcome warning) := by
  refine tracks_bind (tracks_perform trivial) fun ctrl => ?_
  split
  · trivial
  · refine tracks_bind (tracks_perform trivial) fun _ => ?_
    refine tracks_bind (tracks_bind (tracks_perform trivial) fun _ => trivial) fun pid => ?_
    refine tracks_bind publishInstance_tracks fun _ => ?_
    refine tracks_bind (tracks_perform trivial) fun _ => ?_
    exact tracks_bind (tracks_of_plain removeBackup_plain) fun _ => trivial

theorem applyInPlace_tracks {current : Active} {prepared : PreparedApply}
    {change : ConfigChange} : Tracks none (applyInPlace options current prepared change) := by
  refine tracks_andThen (tracks_of_plain (orDrop_plain backup_plain)) fun saved => ?_
  refine tracks_bind (tracks_of_plain commitReplace_plain) fun committed => ?_
  cases committed with
  | error error => exact tracks_bind (tracks_of_plain removeBackup_plain) fun _ => trivial
  | ok commit =>
    refine tracks_bind (tracks_of_plain reconcileInPlace_plain) fun reconciled => ?_
    split
    · exact adoptInPlace_tracks
    · exact tracks_bind restartWithCompensation_tracks fun _ => trivial

theorem applyConfig_tracks {input : InstanceSpec} {expected : Option RevisionId} :
    Tracks none (applyConfig options input expected) := by
  refine tracks_bind (tracks_perform trivial) fun ctrl => ?_
  split
  · trivial
  split
  · trivial
  refine tracks_bind (tracks_perform trivial) fun status => ?_
  split
  · trivial
  split
  · trivial
  refine tracks_andThen (tracks_perform trivial) fun snapshot => ?_
  refine tracks_andThen (tracks_of_plain prepareApply_plain) fun prepared => ?_
  unfold applyChange
  dsimp only
  split
  · exact tracks_bind (tracks_of_plain dropStaged_plain) fun _ => trivial
  · exact tracks_bind (tracks_of_plain dropStaged_plain) fun _ => trivial
  · exact tracks_bind (tracks_of_plain dropStaged_plain) fun _ => switchWithCompensation_tracks
  · exact applyInPlace_tracks

theorem recoverEntry_tracks {entry : QuarantinedEpoch} :
    Tracks none (recoverEntry options entry) := by
  refine tracks_bind ?_ fun failure => ?_
  · unfold proveEpochDead
    split
    · trivial
    · refine tracks_bind (tracks_perform trivial) fun reaped => ?_
      split <;> trivial
  · cases failure with
    | some failure => trivial
    | none =>
      refine ⟨trivial, fun ctrl => ⟨⟨ctrl.quarantine, rfl, ?_⟩, fun _ => Tracks.of_none ?_⟩⟩
      · split
        · exact .same
        · exact .prove entry.epoch
      · refine tracks_bind (p := cleanupEpoch options entry.epoch)
          (tracks_of_plain cleanupEpoch_plain) fun cleaned => ?_
        cases cleaned with
        | error error => trivial
        | ok value =>
          exact ⟨trivial, fun ctrl =>
            ⟨⟨ctrl.quarantine, rfl, .release entry.epoch⟩, fun _ => trivial⟩⟩

theorem recoverEntries_tracks {entries : List QuarantinedEpoch} :
    Tracks none (recoverEntries options entries) := by
  induction entries with
  | nil => trivial
  | cons entry entries ih =>
    exact tracks_bind recoverEntry_tracks fun _ => tracks_bind ih fun _ => trivial

theorem recoverQuarantine_tracks : Tracks none (recoverQuarantine options) := by
  refine tracks_bind (tracks_perform trivial) fun ctrl => ?_
  split
  · trivial
  refine tracks_bind recoverEntries_tracks fun failures => ?_
  split
  · exact tracks_bind publish_tracks fun _ => trivial
  · exact tracks_bind (tracks_perform trivial) fun _ => trivial

/-- Every request writes the list as a change of what it read. -/
theorem request_tracks (request : Request) : Tracks none (request.program options) := by
  cases request with
  | start spec => exact tracks_andThen start_tracks fun _ => trivial
  | stop => exact tracks_andThen stop_tracks fun _ => trivial
  | switch spec => exact tracks_andThen switch_tracks fun _ => trivial
  | restart => exact tracks_andThen restart_tracks fun _ => trivial
  | apply input expected => exact tracks_andThen applyConfig_tracks fun _ => trivial
  | recover => exact tracks_andThen recoverQuarantine_tracks fun _ => trivial
  | shutdown => exact tracks_andThen shutdown_tracks fun _ => trivial

end Programs

section Steps

variable {known : Option (List QuarantinedEpoch)} {effect : Effect} {w : World}

/-- The known list is the one of the world. -/
def Knows (known : Option (List QuarantinedEpoch)) (w : World) : Prop :=
  ∀ old, known = some old → w.ctrl.quarantine = old

/-- Only one effect writes the list. -/
theorem quarantine_step (effect : Effect) (answer : Answer effect) :
    (∃ quarantine, effect = .setQuarantine quarantine ∧
      (w.step effect answer).ctrl.quarantine = quarantine) ∨
    (∀ known, effect.learns known answer = known ∨ effect = .ctrl) ∧
      (w.step effect answer).ctrl.quarantine = w.ctrl.quarantine := by
  cases effect
  case setQuarantine quarantine => exact .inl ⟨quarantine, rfl, rfl⟩
  case ctrl => exact .inr ⟨fun _ => .inr rfl, rfl⟩
  case load path => cases answer <;> exact .inr ⟨fun _ => .inl rfl, rfl⟩
  case spawn site spec epoch controller =>
    obtain ⟨result, artifacts⟩ := answer
    cases result <;> exact .inr ⟨fun _ => .inl rfl, rfl⟩
  case replace source target => cases answer <;> exact .inr ⟨fun _ => .inl rfl, rfl⟩
  case mark point => cases point <;> exact .inr ⟨fun _ => .inl rfl, rfl⟩
  case nextEpoch | takeCurrent | setCurrent | setLastSpec | publish | spawnForwarder
    | abortForwarder => exact .inr ⟨fun _ => .inl rfl, rfl⟩
  all_goals
    refine .inr ⟨fun _ => .inl rfl, ?_⟩
    exact congrArg Ctrl.quarantine (Effect.Quietly.step (T := fun _ => True) (I := fun _ => True)
      (by simp [Effect.Quietly]) answer).ctrl

/-- What a program learns is true. -/
theorem Knows.step (h : Knows known w) {answer : Answer effect}
    (hallowed : w.allowed effect answer) :
    Knows (effect.learns known answer) (w.step effect answer) := by
  rcases quarantine_step (w := w) effect answer with ⟨quarantine, rfl, hstep⟩ | ⟨hlearns, hstep⟩
  · intro old hold
    obtain rfl := Option.some.inj hold
    exact hstep
  · rcases hlearns known with hknown | rfl
    · rw [Knows, hknown, hstep]
      exact h
    · intro old hold
      obtain rfl := Option.some.inj hold
      obtain rfl : answer = w.ctrl := hallowed
      exact hstep

/-- Each epoch is listed once. -/
def Unlike (quarantine : List QuarantinedEpoch) : Prop :=
  (quarantine.map (·.epoch)).Nodup

/-- A proof of death is kept for as long as its entry is. -/
def Kept (old new : List QuarantinedEpoch) : Prop :=
  ∀ entry ∈ old, entry.deathProven = true →
    ∀ entry' ∈ new, entry'.epoch = entry.epoch → entry'.deathProven = true

variable {old new : List QuarantinedEpoch} {entry entry' : QuarantinedEpoch} {epoch : ℕ}

theorem Unlike.eq (h : Unlike old) (hentry : entry ∈ old) (hentry' : entry' ∈ old)
    (hepoch : entry'.epoch = entry.epoch) : entry' = entry :=
  List.inj_on_of_nodup_map h hentry' hentry hepoch

/-- A list of the same epochs in which no proof is taken back. -/
theorem Kept.of_entries (h : Unlike old)
    (hnew : ∀ entry' ∈ new, ∃ entry ∈ old, entry.epoch = entry'.epoch ∧
      (entry.deathProven = true → entry'.deathProven = true)) : Kept old new := by
  intro entry hentry hproven entry' hentry' hepoch
  obtain ⟨source, hsource, hsame, hkeeps⟩ := hnew entry' hentry'
  obtain rfl := h.eq hentry hsource (hsame.trans hepoch)
  exact hkeeps hproven

theorem mem_recordQuarantine {reason : String} (h : entry' ∈ recordQuarantine old epoch reason) :
    (∃ entry ∈ old, entry.epoch = entry'.epoch ∧ entry.deathProven = entry'.deathProven) ∨
      entry'.epoch = epoch ∧ epoch ∉ old.map (·.epoch) := by
  induction old with
  | nil =>
    obtain rfl := List.mem_singleton.mp h
    exact .inr ⟨rfl, by simp⟩
  | cons first rest ih =>
    unfold recordQuarantine at h
    split at h
    · rcases List.mem_cons.mp h with rfl | h
      · exact .inl ⟨first, List.mem_cons_self, rfl, rfl⟩
      · exact .inl ⟨entry', List.mem_cons_of_mem _ h, rfl, rfl⟩
    next hne =>
      rcases List.mem_cons.mp h with rfl | h
      · exact .inl ⟨entry', List.mem_cons_self, rfl, rfl⟩
      · rcases ih h with ⟨entry, hentry, hsame⟩ | ⟨hepoch, hnot⟩
        · exact .inl ⟨entry, List.mem_cons_of_mem _ hentry, hsame⟩
        · refine .inr ⟨hepoch, ?_⟩
          rw [List.map_cons, List.mem_cons, not_or]
          exact ⟨Ne.symm hne, hnot⟩

theorem Unlike.recordQuarantine {reason : String} (h : Unlike old) :
    Unlike (recordQuarantine old epoch reason) := by
  have hmap : (Manager.recordQuarantine old epoch reason).map (·.epoch) =
      if epoch ∈ old.map (·.epoch) then old.map (·.epoch) else old.map (·.epoch) ++ [epoch] := by
    clear h
    induction old with
    | nil => rfl
    | cons first rest ih =>
      unfold Manager.recordQuarantine
      by_cases hfirst : first.epoch = epoch
      · simp [hfirst]
      · rw [if_neg hfirst, List.map_cons, ih]
        have hiff : epoch ∈ (first :: rest).map (·.epoch) ↔ epoch ∈ rest.map (·.epoch) := by
          rw [List.map_cons, List.mem_cons]
          exact or_iff_right (Ne.symm hfirst)
        by_cases hrest : epoch ∈ rest.map (·.epoch)
        · rw [if_pos hrest, if_pos (hiff.mpr hrest)]
          rfl
        · rw [if_neg hrest, if_neg (mt hiff.mp hrest)]
          rfl
  rw [Unlike, hmap]
  split
  · exact h
  next hnot => exact h.append (List.nodup_singleton epoch) (by simpa using hnot)

theorem source_of_setDeathProven (h : entry' ∈ setDeathProven old epoch) :
    ∃ entry ∈ old, entry.epoch = entry'.epoch ∧
      (entry.deathProven = true → entry'.deathProven = true) := by
  induction old with
  | nil => exact absurd h List.not_mem_nil
  | cons first rest ih =>
    unfold setDeathProven at h
    split at h
    · rcases List.mem_cons.mp h with rfl | h
      · exact ⟨first, List.mem_cons_self, rfl, fun _ => rfl⟩
      · exact ⟨entry', List.mem_cons_of_mem _ h, rfl, id⟩
    · rcases List.mem_cons.mp h with rfl | h
      · exact ⟨entry', List.mem_cons_self, rfl, id⟩
      · obtain ⟨entry, hentry, hsame⟩ := ih h
        exact ⟨entry, List.mem_cons_of_mem _ hentry, hsame⟩

/-- A change lists no epoch twice and keeps the proofs. -/
theorem Relists.kept (h : Relists old new) (hold : Unlike old) : Unlike new ∧ Kept old new := by
  cases h with
  | same => exact ⟨hold, .of_entries hold fun entry hentry => ⟨entry, hentry, rfl, id⟩⟩
  | record epoch reason =>
    refine ⟨hold.recordQuarantine, ?_⟩
    intro entry hentry hproven entry' hentry' hepoch
    rcases mem_recordQuarantine hentry' with ⟨source, hsource, hsame, hproof⟩ | ⟨hnew, hnot⟩
    · obtain rfl := hold.eq hentry hsource (hsame.trans hepoch)
      exact hproof ▸ hproven
    · rw [hnew] at hepoch
      exact absurd (hepoch ▸ List.mem_map_of_mem hentry) hnot
  | prove epoch =>
    refine ⟨by rw [Unlike, map_setDeathProven]; exact hold, .of_entries hold ?_⟩
    exact fun entry' hentry' => source_of_setDeathProven hentry'
  | release epoch =>
    refine ⟨(List.filter_sublist.map _).nodup hold, .of_entries hold ?_⟩
    intro entry' hentry'
    exact ⟨entry', List.mem_of_mem_filter hentry', rfl, id⟩

/-- A step of a program that tracks the list changes the list or leaves it. -/
theorem relists_step {α : Type} {next : Answer effect → Action α}
    (h : Tracks known (.call effect next)) (hknows : Knows known w) (answer : Answer effect) :
    Relists w.ctrl.quarantine (w.step effect answer).ctrl.quarantine := by
  rcases quarantine_step (w := w) effect answer with ⟨quarantine, rfl, hstep⟩ | ⟨-, hstep⟩
  · obtain ⟨old, hold, hrelists⟩ := h.1
    rw [hstep, hknows old hold]
    exact hrelists
  · rw [hstep]
    exact .same

end Steps

section Runs

variable {options : Options} {cuts : World → Prop}
  {c : Config Effect Answer World Request (Except Error Outcome)}

/-- In every run the list has no epoch twice, and the request in progress knows what it reads. -/
theorem reach_tracks (h : Reach (plant options cuts) (Built options) c) :
    Unlike c.state.ctrl.quarantine ∧ ∀ job, c.active = some job →
      ∃ known, Tracks known job.rest ∧ Knows known c.state := by
  induction h with
  | start hs =>
    refine ⟨?_, by simp⟩
    simp [hs.ctrl, Unlike]
  | @acquire s replies client request _ ih =>
    refine ⟨ih.1, fun job hjob => ?_⟩
    obtain rfl := Option.some.inj hjob
    exact ⟨none, request_tracks request, fun old hold => nomatch hold⟩
  | @call s replies client request before effect next answer _ hanswer ih =>
    obtain ⟨known, htracks, hknows⟩ := ih.2 _ rfl
    refine ⟨((relists_step htracks hknows answer).kept ih.1).1, fun job hjob => ?_⟩
    obtain rfl := Option.some.inj hjob
    exact ⟨effect.learns known answer, htracks.2 answer, hknows.step hanswer⟩
  | finish _ ih => exact ⟨ih.1, by simp⟩
  | drift d => exact d.elim
  | cutBefore d _ _ _ ih => exact ⟨ih.1, by simp⟩
  | @cutAfter s replies client request before effect next d answer _ _ _ _ ih =>
    obtain ⟨known, htracks, hknows⟩ := ih.2 _ rfl
    exact ⟨((relists_step htracks hknows answer).kept ih.1).1, by simp⟩

end Runs

end Nyanpasu.Manager
