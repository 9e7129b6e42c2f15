import Nyanpasu.Manager.Runs

/-!
# Steps that say nothing

Most parts of an operation neither change the control state nor publish: they load and write
files, spawn a process, or wait and stop. The operations are made of such parts and of a few
that record what happened. Whatever is answered, the record of what was loaded, spawned and
read only grows.
-/

namespace Nyanpasu.Manager

open Config Machine Program

/-- The effects that neither change the control state nor announce anything. -/
def Effect.Plain : Effect → Prop
  | .takeCurrent | .setCurrent _ | .setLastSpec _ | .setQuarantine _ | .publish _
  | .spawnForwarder _ => False
  | _ => True

theorem Effect.Quietly.plain {effect : Effect} {T : Artifact → Prop} {I : ℕ → Prop}
    (h : effect.Quietly T I) : effect.Plain := by
  cases effect <;> trivial

/-- The record of what was loaded, spawned and read only grows. -/
structure Later (w w' : World) : Prop where
  loads : w.history.loads ⊆ w'.history.loads
  spawned : w.spawned ≤ w'.spawned
  grows : ∀ id < w.spawned, (w.processes id).Grows (w'.processes id)

section Later

variable {w w' w'' : World} {T : Artifact → Prop} {I : ℕ → Prop}

theorem Later.refl (w : World) : Later w w :=
  ⟨List.Subset.refl _, le_refl _, fun _ _ => .refl _⟩

theorem Later.trans (h : Later w w') (h' : Later w' w'') : Later w w'' where
  loads := List.Subset.trans h.loads h'.loads
  spawned := h.spawned.trans h'.spawned
  grows := by
    intro id hid
    exact (h.grows id hid).trans (h'.grows id (Nat.lt_of_lt_of_le hid h.spawned))

theorem Quiet.later (h : Quiet T I w w') : Later w w' where
  loads := by
    rw [h.history]
    exact List.Subset.refl _
  spawned := h.spawned.ge
  grows := fun id _ => h.grows id

/-- Every step goes on. -/
theorem Later.step {effect : Effect} {answer : Answer effect} (h : w.allowed effect answer) :
    Later w (w.step effect answer) := by
  cases effect
  case load path =>
    cases answer with
    | error error => exact .refl w
    | ok snapshot => exact { Later.refl w with loads := List.subset_cons_self _ _ }
  case spawn site spec epoch controller =>
    obtain ⟨result, artifacts⟩ := answer
    cases result with
    | error error => exact { Later.refl w with }
    | ok id =>
      obtain rfl : id = w.spawned := h.1 id rfl
      refine ⟨List.Subset.refl _, Nat.le_succ _, fun id hid => ?_⟩
      have hne : id ≠ w.spawned := Nat.ne_of_lt hid
      simp only [World.step, hne, if_false]
      exact .refl _
  case nextEpoch | takeCurrent | setCurrent | setLastSpec | setQuarantine | publish
    | spawnForwarder | abortForwarder => exact { Later.refl w with }
  case replace source target =>
    cases answer with
    | error error => exact .refl w
    | ok value => exact { Later.refl w with }
  case mark point => cases point <;> exact { Later.refl w with }
  all_goals
    exact Quiet.later (T := fun _ => True) (I := fun _ => True)
      (Effect.Quietly.step (by simp [Effect.Quietly]) answer)

/-- A plain step leaves the control state. -/
theorem Effect.Plain.ctrl {effect : Effect} (h : effect.Plain) (answer : Answer effect) :
    (w.step effect answer).ctrl = w.ctrl := by
  cases effect
  case takeCurrent | setCurrent | setLastSpec | setQuarantine | publish | spawnForwarder =>
    cases h
  case load path => cases answer <;> rfl
  case spawn site spec epoch controller =>
    obtain ⟨result, artifacts⟩ := answer
    cases result <;> rfl
  case replace source target => cases answer <;> rfl
  case mark point => cases point <;> rfl
  case nextEpoch | abortForwarder => rfl
  all_goals
    exact (Effect.Quietly.step (T := fun _ => True) (I := fun _ => True)
      (by simp [Effect.Quietly]) answer).ctrl

end Later

section Programs

/-! The parts of the operations that are plain. -/

variable {options : Options} {α β : Type} {T : Artifact → Prop} {I : ℕ → Prop}

theorem plain_of_quietly {p : Action α} (h : p.Uses (Effect.Quietly T I)) :
    p.Uses Effect.Plain := h.mono fun _ => Effect.Quietly.plain

theorem dropStaged_plain {staged : Artifact} : (dropStaged staged).Uses Effect.Plain :=
  uses_bind (uses_perform trivial) fun _ => trivial

theorem orDrop_plain {staged : Artifact} {attempt : Action (Except Error α)}
    (h : attempt.Uses Effect.Plain) : (orDrop staged attempt).Uses Effect.Plain := by
  refine uses_bind h fun result => ?_
  cases result with
  | error error => exact uses_bind dropStaged_plain fun _ => trivial
  | ok value => trivial

theorem stage_plain {epoch : ℕ} {contents : List UInt8} :
    (stage epoch contents).Uses Effect.Plain := by
  refine uses_bind (uses_perform trivial) fun counter => ?_
  refine uses_andThen (uses_perform trivial) fun _ => ?_
  refine uses_andThen (uses_perform trivial) fun _ => ?_
  refine uses_andThen (uses_perform trivial) fun _ => ?_
  refine uses_bind (uses_perform trivial) fun result => ?_
  cases result with
  | error failure => exact uses_bind (uses_perform trivial) fun _ => trivial
  | ok value => trivial

theorem checkStaged_plain {spec : InstanceSpec} {staged : Artifact} :
    (checkStaged spec staged).Uses Effect.Plain := orDrop_plain (uses_perform trivial)

theorem validateStaged_plain {staged : Artifact} {epoch : ℕ} :
    (validateStaged options staged epoch).Uses Effect.Plain :=
  plain_of_quietly (T := noArtifact) (I := noInstance) validateStaged_quietly

theorem commitNew_plain {staged : Artifact} {epoch : ℕ} :
    (commitNew options staged epoch).Uses Effect.Plain :=
  uses_andThen (orDrop_plain (uses_andThen validateStaged_plain fun _ =>
    uses_andThen (uses_perform trivial) fun _ => uses_perform trivial))
    fun _ => uses_andThen (uses_perform trivial) fun _ => trivial

theorem commitReplace_plain {staged : Artifact} {epoch : ℕ} :
    (commitReplace options staged epoch).Uses Effect.Plain :=
  uses_andThen (orDrop_plain (uses_andThen validateStaged_plain fun _ =>
    uses_andThen (uses_perform trivial) fun _ => uses_perform trivial))
    fun _ => uses_bind (uses_perform trivial) fun _ => trivial

theorem backup_plain {epoch generation : ℕ} : (backup epoch generation).Uses Effect.Plain :=
  uses_andThen (uses_perform trivial) fun _ =>
  uses_andThen (uses_perform trivial) fun _ =>
  uses_andThen stage_plain fun _ =>
  uses_andThen (orDrop_plain (uses_andThen (uses_perform trivial) fun _ =>
    uses_perform trivial)) fun _ =>
  uses_andThen (uses_perform trivial) fun _ => trivial

theorem restore_plain {saved : RuntimeConfigBackup} : (restore options saved).Uses Effect.Plain :=
  uses_andThen (uses_perform trivial) fun _ =>
  uses_andThen (uses_perform trivial) fun _ =>
  uses_andThen stage_plain fun _ => commitReplace_plain

theorem removeBackup_plain {saved : RuntimeConfigBackup} :
    (removeBackup saved).Uses Effect.Plain := uses_perform trivial

theorem cleanupEpoch_plain {epoch : ℕ} : (cleanupEpoch options epoch).Uses Effect.Plain :=
  plain_of_quietly (I := noInstance) cleanupEpoch_quietly

theorem validateLaunchable_plain {spec : InstanceSpec} :
    (validateLaunchable spec).Uses Effect.Plain := by
  refine uses_bind (uses_perform trivial) fun present => ?_
  cases present <;> trivial

theorem prepareFull_plain {snapshot : ConfigSnapshot} {epoch : ℕ} {runtime : List RuntimeFeature} :
    (prepareFull options snapshot epoch runtime).Uses Effect.Plain :=
  uses_bind (uses_perform trivial) fun _ => trivial

theorem prepareLaunchWithFeatures_plain {spec : InstanceSpec} {epoch : ℕ}
    {snapshot : ConfigSnapshot} {resolved : ResolvedFeatures} :
    (prepareLaunchWithFeatures options spec epoch snapshot resolved).Uses Effect.Plain :=
  uses_andThen prepareFull_plain fun _ =>
  uses_andThen stage_plain fun _ =>
  uses_andThen checkStaged_plain fun _ =>
  uses_andThen commitNew_plain fun _ => trivial

theorem prepareLaunch_plain {spec : InstanceSpec} {epoch : ℕ} {snapshot : ConfigSnapshot} :
    (prepareLaunch options spec epoch snapshot).Uses Effect.Plain :=
  uses_andThen validateLaunchable_plain fun _ =>
  uses_andThen (uses_perform trivial) fun _ => prepareLaunchWithFeatures_plain

theorem prepareGraceful_plain {spec : InstanceSpec} {epoch : ℕ} {snapshot : ConfigSnapshot}
    {resolved : ResolvedFeatures} :
    (prepareGraceful options spec epoch snapshot resolved).Uses Effect.Plain := by
  refine uses_andThen prepareFull_plain fun full => ?_
  refine uses_andThen (uses_bind (uses_perform trivial) fun _ => trivial) fun bootstrap => ?_
  split
  · trivial
  split
  · trivial
  refine uses_andThen stage_plain fun fullStaged => ?_
  refine uses_andThen (orDrop_plain ?_) fun _ => trivial
  exact uses_andThen (uses_perform trivial) fun _ =>
    uses_andThen stage_plain fun _ => uses_andThen checkStaged_plain fun _ => commitNew_plain

theorem prepareApply_plain {current : Active} {input : InstanceSpec} {snapshot : ConfigSnapshot} :
    (prepareApply options current input snapshot).Uses Effect.Plain :=
  uses_andThen validateLaunchable_plain fun _ =>
  uses_andThen (uses_perform trivial) fun _ =>
  uses_andThen prepareFull_plain fun _ =>
  uses_andThen stage_plain fun _ =>
  uses_andThen checkStaged_plain fun _ => trivial

theorem spawnInstance_plain {site : LaunchSite} {spec : InstanceSpec} {epoch : ℕ}
    {controller : ResolvedController} :
    (spawnInstance options site spec epoch controller).Uses Effect.Plain := by
  refine uses_bind (uses_perform trivial) fun present => ?_
  split
  · trivial
  refine uses_bind (uses_perform trivial) fun present => ?_
  split
  · trivial
  exact uses_andThen (uses_perform trivial) fun _ =>
    uses_bind (uses_perform trivial) fun _ => trivial

variable {handle : Instance}

theorem waitReady_plain : handle.waitReady.Uses Effect.Plain := by
  refine uses_bind (uses_perform trivial) fun settled => ?_
  match settled with
  | some (.stopped reason) =>
    exact uses_bind (plain_of_quietly (T := noArtifact) (I := noInstance) readinessError_quietly)
      fun _ => trivial
  | some .starting | some (.running _) | some (.restarting _) | some .stopping => trivial
  | none => exact uses_bind (uses_perform trivial) fun _ => trivial

theorem verifyIdentity_plain {context : String} :
    (handle.verifyIdentity context).Uses Effect.Plain := by
  refine uses_bind (plain_of_quietly (T := noArtifact) (I := noInstance)
    reapEpochRecordIfPresent_quietly) fun result => ?_
  cases result <;> trivial

theorem reapUnconfirmed_plain {stopError : String} {terminal : Bool} :
    (handle.reapUnconfirmed stopError terminal).Uses Effect.Plain := by
  unfold Instance.reapUnconfirmed
  split
  · trivial
  split
  · trivial
  refine uses_bind (uses_perform trivial) fun reaped => ?_
  cases reaped with
  | error error => trivial
  | ok outcome =>
    dsimp only
    split
    · split
      · exact uses_bind (uses_perform trivial) fun _ => trivial
      · trivial
    · trivial

theorem stopSupervisor_plain : (handle.stopSupervisor options).Uses Effect.Plain := by
  refine uses_bind (uses_perform trivial) fun present => ?_
  cases present with
  | false => trivial
  | true =>
    refine uses_bind (uses_perform trivial) fun stopped => ?_
    match stopped with
    | some (.ok ()) | some (.error .alreadyExited) | some (.error (.other _)) | none => trivial

theorem confirmMonitor_plain : handle.confirmMonitor.Uses Effect.Plain := by
  refine uses_bind (uses_perform trivial) fun present => ?_
  cases present with
  | false => trivial
  | true =>
    refine uses_bind (uses_perform trivial) fun finished => ?_
    cases finished with
    | true => trivial
    | false => exact uses_bind (uses_perform trivial) fun _ => trivial

theorem proveDead_plain : (handle.proveDead options).Uses Effect.Plain := by
  refine uses_bind (uses_perform trivial) fun status => ?_
  split
  · exact verifyIdentity_plain
  refine uses_bind (uses_perform trivial) fun _ => ?_
  refine uses_bind stopSupervisor_plain fun stopResult => ?_
  refine uses_bind confirmMonitor_plain fun confirmed => ?_
  refine uses_bind (uses_perform trivial) fun status => ?_
  cases stopResult with
  | error stopError => exact reapUnconfirmed_plain
  | ok value =>
    dsimp only
    split
    · exact verifyIdentity_plain
    · exact reapUnconfirmed_plain

theorem stopAndConfirmDead_plain : (handle.stopAndConfirmDead options).Uses Effect.Plain := by
  refine uses_bind proveDead_plain fun result => ?_
  cases result with
  | error error => exact uses_bind (uses_perform trivial) fun _ => trivial
  | ok value => trivial

theorem spawnReplacement_plain {spec : InstanceSpec} {epoch : ℕ} {controller : ResolvedController} :
    (spawnReplacement options spec epoch controller).Uses Effect.Plain := by
  refine uses_andThen spawnInstance_plain fun handle => ?_
  refine uses_bind waitReady_plain fun ready => ?_
  cases ready with
  | ok value => trivial
  | error error =>
    refine uses_bind stopAndConfirmDead_plain fun stopped => ?_
    cases stopped <;> trivial

theorem reconcileBootstrap_plain {restoration : Option (ConfigPatch × RuntimeProjection)} :
    (reconcileBootstrap handle restoration).Uses Effect.Plain :=
  plain_of_quietly (T := noArtifact) (I := noInstance) reconcileBootstrap_quietly

theorem reconcileInPlace_plain {current : Active} {change : ConfigChange}
    {desired : PreparedLaunch} :
    (withinReconcileTimeout (reconcileInPlace options current change desired)).Uses Effect.Plain :=
  plain_of_quietly (T := noArtifact) (I := noInstance)
    (withinReconcileTimeout_quietly reconcileInPlace_quietly)

theorem abortAndAwait_plain {forwarder : Forwarder} :
    (abortAndAwait forwarder).Uses Effect.Plain := uses_perform trivial

end Programs

end Nyanpasu.Manager
