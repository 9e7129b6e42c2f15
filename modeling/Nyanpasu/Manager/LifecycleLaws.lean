import Nyanpasu.Manager.StoreLaws

/-!
# What the instance operations do

A spawn adds one process and its record. A stop empties the slots of its instance, and its
success comes with a proof of death; its failure is always `StopUnconfirmed`.
-/

namespace Nyanpasu.Manager

open Machine

variable {T : Artifact → Prop} {I : ℕ → Prop} {w w₀ : World} {cut : World → Prop} {α : Type}

/-- The handle is the one of a process whose slots are full. -/
structure Held (w : World) (handle : Instance) : Prop where
  spawned : handle.id < w.spawned
  epoch : (w.processes handle.id).epoch = handle.epoch
  slots : (w.processes handle.id).slots = (true, true, false)

/-- A held instance stays held while other instances are stopped. -/
theorem Held.quiet {handle : Instance} {w' : World} (h : Held w handle) (hw : Quiet T I w w')
    (hI : ¬ I handle.id) : Held w' handle where
  spawned := hw.spawned ▸ h.spawned
  epoch := (hw.grows handle.id).epoch.trans h.epoch
  slots := (hw.slots handle.id hI).trans h.slots

/-- The world after a spawn. -/
structure SpawnedBy (site : LaunchSite) (epoch : ℕ) (w w' : World) : Prop where
  ctrl : w'.ctrl = w.ctrl
  counter : w'.epoch = w.epoch
  forwarders : w'.forwarders = w.forwarders
  files : ∀ artifact, World.isProcessArtifact epoch artifact = false →
    w'.files.lookup artifact = w.files.lookup artifact
  spawned : w'.spawned = w.spawned + 1
  fresh : w'.processes w.spawned = .fresh epoch
  others : ∀ id, id ≠ w.spawned → w'.processes id = w.processes id
  history : w'.history = { w.history with
    launches := w.launch site epoch :: w.history.launches
    exposed := true }

/-- The process artifacts of an epoch. -/
def ofProcess (epoch : ℕ) (artifact : Artifact) : Prop :=
  World.isProcessArtifact epoch artifact = true

/-- Files that only process artifacts are added to. -/
theorem lookup_insertAll_process {files : List (Artifact × List UInt8)} {epoch : ℕ}
    {artifacts : List Artifact} (h : ∀ a ∈ artifacts, World.isProcessArtifact epoch a = true)
    {artifact : Artifact} (ha : World.isProcessArtifact epoch artifact = false) :
    (Assoc.insertAll files (artifacts.map fun a => (a, []))).lookup artifact =
      files.lookup artifact := by
  induction artifacts generalizing files with
  | nil => rfl
  | cons a artifacts ih =>
    have hne : artifact ≠ a := by
      rintro rfl
      simp [h artifact] at ha
    have hrest : (Assoc.insertAll (Assoc.insert files a []) (artifacts.map fun a => (a, []))).lookup
        artifact = (Assoc.insert files a []).lookup artifact :=
      ih fun b hb => h b (List.mem_cons_of_mem a hb)
    rw [List.map_cons, show Assoc.insertAll files ((a, []) :: _) =
      Assoc.insertAll (Assoc.insert files a []) _ from rfl, hrest, Assoc.lookup_insert, if_neg hne]

/-- The step of a successful spawn. -/
theorem spawnedBy_step (site : LaunchSite) (spec : InstanceSpec) {epoch : ℕ}
    (controller : ResolvedController) {artifacts : List Artifact}
    (h : ∀ a ∈ artifacts, World.isProcessArtifact epoch a = true) :
    SpawnedBy site epoch w
      (w.step (.spawn site spec epoch controller) ⟨.ok w.spawned, artifacts⟩) where
  ctrl := rfl
  counter := rfl
  forwarders := rfl
  files := fun _ ha => lookup_insertAll_process h ha
  spawned := rfl
  fresh := by simp [World.step]
  others := fun id hne => by simp [World.step, hne]
  history := rfl

/-- `InstanceBuilder::spawn` adds one process, or fails and leaves process artifacts at
most. -/
theorem spawnInstance_spec {options : Options} {site : LaunchSite} {spec : InstanceSpec}
    {epoch : ℕ} {controller : ResolvedController}
    (hbefore : ∀ w', Quiet (ofProcess epoch) noInstance w w' → cut w')
    (hafter : ∀ w', SpawnedBy site epoch w w' → cut w') :
    machine.wp cut (spawnInstance options site spec epoch controller) (fun result w' =>
      match result with
      | .error _ => Quiet (ofProcess epoch) noInstance w w'
      | .ok handle => handle = ⟨w.spawned, epoch, spec, controller⟩ ∧ SpawnedBy site epoch w w')
      w := by
  have hw : cut w := hbefore w (.refl w)
  unfold spawnInstance metadata
  refine wp_seq (wp_inert (fun _ => rfl) hw) ?_
  rintro present _ ⟨-, rfl⟩
  split
  · exact Quiet.refl w
  refine wp_seq (wp_inert (fun _ => rfl) hw) ?_
  rintro present _ ⟨-, rfl⟩
  split
  · exact Quiet.refl w
  refine wp_andThen (wp_inert (fun _ => rfl) hw) ?_ ?_
  · rintro ⟨⟩ _ ⟨-, rfl⟩
    refine wp_seq (Q := fun answer w' =>
      (∀ error, answer.result = .error error → Quiet (ofProcess epoch) noInstance w w') ∧
        ∀ id, answer.result = .ok id → id = w.spawned ∧ SpawnedBy site epoch w w') ?_ ?_
    · refine wp_perform (fun _ => hw) ?_
      rintro ⟨result, artifacts⟩ ⟨hid, hartifacts⟩
      cases result with
      | error error =>
        have hq : Quiet (ofProcess epoch) noInstance w
            (w.setFiles (Assoc.insertAll w.files (artifacts.map fun a => (a, [])))) :=
          Quiet.ofFiles fun a ha =>
            lookup_insertAll_process hartifacts (by simpa [ofProcess] using ha)
        exact ⟨fun _ => hbefore _ hq, fun _ _ => hq, by rintro _ ⟨⟩⟩
      | ok id =>
        obtain rfl : id = w.spawned := hid id rfl
        have hspawned := spawnedBy_step site spec controller hartifacts (w := w)
        refine ⟨fun _ => hafter _ hspawned, by rintro _ ⟨⟩, ?_⟩
        rintro _ ⟨⟩
        exact ⟨rfl, hspawned⟩
    · rintro ⟨result, artifacts⟩ w₁ hresult
      cases result with
      | error error => exact hresult.1 error rfl
      | ok id =>
        obtain ⟨rfl, hspawned⟩ := hresult.2 id rfl
        exact ⟨rfl, hspawned⟩
  · rintro error _ ⟨-, rfl⟩
    exact Quiet.refl w

theorem readinessError_quietly {id : ℕ} {reason : StopReason} :
    (readinessError id reason).Uses (Effect.Quietly T I) :=
  Program.uses_bind (Program.uses_perform trivial) fun _ =>
    Program.uses_bind (Program.uses_perform trivial) fun _ => trivial

/-- `wait_ready` returns for an instance that was seen running. -/
theorem waitReady_spec {handle : Instance}
    (hcut : ∀ w', Quiet noArtifact noInstance w w' → cut w') :
    machine.wp cut handle.waitReady (fun result w' => Quiet noArtifact noInstance w w' ∧
      (result = .ok () → (w'.processes handle.id).ready = true)) w := by
  unfold Instance.waitReady
  refine wp_seq (wp_quiet trivial hcut) ?_
  rintro settled w₁ ⟨hq₁, hsettled, rfl⟩
  match settled with
  | none =>
    refine wp_seq (wp_quiet_from hq₁ trivial hcut) ?_
    rintro tail w₂ ⟨hq₂, -, -⟩
    exact ⟨hq₂, fun hok => nomatch hok⟩
  | some (.stopped reason) =>
    refine wp_seq (wp_frame_from hq₁ readinessError_quietly hcut) ?_
    rintro error w₂ hq₂
    exact ⟨hq₂, fun hok => nomatch hok⟩
  | some (.running pid) => exact ⟨hq₁, fun _ => by simp [World.step, World.observe]⟩
  | some .starting | some (.restarting _) | some .stopping =>
    simp [World.allowed, InstanceState.isTerminal, InstanceState.pid] at hsettled

theorem reapEpochRecordIfPresent_quietly {handle : Instance} :
    handle.reapEpochRecordIfPresent.Uses (Effect.Quietly T I) := by
  unfold Instance.reapEpochRecordIfPresent
  split
  · trivial
  refine Program.uses_andThen (Program.uses_perform trivial) fun present => ?_
  split
  · trivial
  split
  · trivial
  · exact Program.uses_andThen (Program.uses_perform trivial) fun _ => trivial

/-- Every failure of a stop is `StopUnconfirmed`. -/
def Unconfirmed : Except Error Unit → Prop
  | .ok _ => True
  | .error error => isStopUnconfirmed error = true

/-- The verification of a dead process adds evidence at most. -/
theorem verifyIdentity_spec {handle : Instance} {context : String} (hw : Quiet T I w₀ w)
    (hcut : ∀ w', Quiet T I w₀ w' → cut w') :
    machine.wp cut (handle.verifyIdentity context) (fun result w' =>
      Quiet T I w₀ w' ∧ Unconfirmed result ∧
        ((w.processes handle.id).provenDead = true →
          (w'.processes handle.id).provenDead = true)) w := by
  have hstart : Quiet T I w w := .refl w
  refine wp_seq (wp_frame_from hstart reapEpochRecordIfPresent_quietly
    fun w' hw' => hcut w' (hw.trans hw')) ?_
  intro result w' hw'
  have hdead := (hw'.grows handle.id).provenDead
  cases result with
  | ok value => exact ⟨hw.trans hw', trivial, hdead⟩
  | error error => exact ⟨hw.trans hw', rfl, hdead⟩

/-- The stop of the supervisor: its success is recorded. -/
theorem stopSupervisor_spec {options : Options} {handle : Instance}
    (hw : Quiet noArtifact (onlyInstance handle.id) w₀ w)
    (hfull : (w.processes handle.id).supervisor = true)
    (hcut : ∀ w', Quiet noArtifact (onlyInstance handle.id) w₀ w' → cut w') :
    machine.wp cut (handle.stopSupervisor options) (fun result w' =>
      Quiet noArtifact (onlyInstance handle.id) w₀ w' ∧
        (result = .ok () → (w'.processes handle.id).stopped = true)) w := by
  unfold Instance.stopSupervisor
  refine wp_seq (wp_quiet_from hw rfl hcut) ?_
  rintro present w₁ ⟨hq₁, hpresent, -⟩
  obtain rfl : present = true := hpresent.trans hfull
  refine wp_seq (wp_quiet_from hq₁ trivial hcut) ?_
  rintro stopped w₂ ⟨hq₂, -, rfl⟩
  rcases stopped with _ | ((_ | detail) | ⟨⟨⟩⟩)
  · exact ⟨hq₂, by rintro ⟨⟩⟩
  · exact ⟨hq₂, fun _ => by simp [World.step, World.observe]⟩
  · exact ⟨hq₂, by rintro ⟨⟩⟩
  · exact ⟨hq₂, fun _ => by simp [World.step, World.observe]⟩

/-- The wait for the monitor: its end is recorded. -/
theorem confirmMonitor_spec {handle : Instance}
    (hw : Quiet noArtifact (onlyInstance handle.id) w₀ w)
    (hcut : ∀ w', Quiet noArtifact (onlyInstance handle.id) w₀ w' → cut w') :
    machine.wp cut handle.confirmMonitor (fun confirmed w' =>
      Quiet noArtifact (onlyInstance handle.id) w₀ w' ∧
        (w.processes handle.id).Grows (w'.processes handle.id) ∧
        (confirmed = true → (w'.processes handle.id).joined = true)) w := by
  unfold Instance.confirmMonitor
  have hstart : Quiet noArtifact (onlyInstance handle.id) w w := .refl w
  have hcut' : ∀ w', Quiet noArtifact (onlyInstance handle.id) w w' → cut w' :=
    fun w' hw' => hcut w' (hw.trans hw')
  refine wp_seq (wp_quiet_from hstart rfl hcut') ?_
  rintro present w₁ ⟨hq₁, -, -⟩
  cases present with
  | false => exact ⟨hw.trans hq₁, hq₁.grows _, fun hok => nomatch hok⟩
  | true =>
    refine wp_seq (wp_quiet_from hq₁ trivial hcut') ?_
    rintro finished w₂ ⟨hq₂, -, rfl⟩
    cases finished with
    | true => exact ⟨hw.trans hq₂, hq₂.grows _, fun _ => by simp [World.step, World.observe]⟩
    | false =>
      refine wp_seq (wp_quiet_from hq₂ trivial hcut') ?_
      rintro _ w₃ ⟨hq₃, -, -⟩
      exact ⟨hw.trans hq₃, hq₃.grows _, fun hok => nomatch hok⟩

/-- The fallback of a stop: only the reaper or a terminal state confirms it. -/
theorem reapUnconfirmed_spec {handle : Instance} {stopError : String} {terminal : Bool}
    (hw : Quiet noArtifact (onlyInstance handle.id) w₀ w)
    (hepoch : (w.processes handle.id).epoch = handle.epoch)
    (hterminal : terminal = true → (w.processes handle.id).terminal = true)
    (hcut : ∀ w', Quiet noArtifact (onlyInstance handle.id) w₀ w' → cut w') :
    machine.wp cut (handle.reapUnconfirmed stopError terminal) (fun result w' =>
      Quiet noArtifact (onlyInstance handle.id) w₀ w' ∧ Unconfirmed result ∧
        (result = .ok () → (w'.processes handle.id).provenDead = true)) w := by
  unfold Instance.reapUnconfirmed
  split
  · exact ⟨hw, rfl, fun hok => nomatch hok⟩
  split
  · exact ⟨hw, rfl, fun hok => nomatch hok⟩
  refine wp_seq (wp_quiet_from hw trivial hcut) ?_
  rintro reaped w₁ ⟨hq₁, -, rfl⟩
  match reaped with
  | .error error => exact ⟨hq₁, rfl, fun hok => nomatch hok⟩
  | .ok outcome =>
    simp only
    split
    · rename_i houtcome
      have hdead : ((w.step (.reap handle.epoch) (.ok outcome)).processes
          handle.id).provenDead = true := by
        cases outcome with
        | alreadyExited => simp [World.step, World.observeEpoch, hepoch, Process.provenDead]
        | killed => simp [World.step, World.observeEpoch, hepoch, Process.provenDead]
        | notFound =>
          obtain rfl : terminal = true := by simpa using houtcome
          simp [World.step, hterminal rfl, Process.provenDead]
      split
      · refine wp_seq (wp_quiet (T := noArtifact) (I := onlyInstance handle.id) rfl
          fun w' hw' => hcut w' (hq₁.trans hw')) ?_
        rintro _ w₂ ⟨hq₂, -, -⟩
        exact ⟨hq₁.trans hq₂, trivial, fun _ => (hq₂.grows handle.id).provenDead hdead⟩
      · exact ⟨hq₁, trivial, fun _ => hdead⟩
    · exact ⟨hq₁, rfl, fun hok => nomatch hok⟩

/-- A status that was read as terminal is evidence. -/
theorem borrow_spec {handle : Instance} (hw : Quiet T I w₀ w) :
    machine.wp cut handle.borrow (fun status w' => Quiet T I w₀ w' ∧
      (w.processes handle.id).Grows (w'.processes handle.id) ∧
      (status.state.isTerminal = true → (w'.processes handle.id).terminal = true) ∧
      (w'.processes handle.id).reads = status :: (w.processes handle.id).reads) w := by
  have hquietly : (Effect.borrow handle.id).Quietly T I := trivial
  refine wp_sync rfl fun status _ => ?_
  have hq : Quiet T I w (w.step (.borrow handle.id) status) := hquietly.step status
  refine ⟨hw.trans hq, hq.grows _, fun hterminal => ?_, ?_⟩
  · simp [World.step, World.observe, hterminal]
  · simp [World.step, World.observe]

/-- `stop_and_confirm_dead` returns `Ok` only with a proof of death. -/
theorem proveDead_spec {options : Options} {handle : Instance} (hheld : Held w handle)
    (hcut : ∀ w', Quiet noArtifact (onlyInstance handle.id) w w' → cut w') :
    machine.wp cut (handle.proveDead options) (fun result w' =>
      Quiet noArtifact (onlyInstance handle.id) w w' ∧ Unconfirmed result ∧
        (result = .ok () → (w'.processes handle.id).provenDead = true)) w := by
  unfold Instance.proveDead
  have hwiden : ∀ {w'}, Quiet noArtifact noInstance w w' →
      Quiet noArtifact (onlyInstance handle.id) w w' := fun h =>
        h.mono (fun _ h => h) (by rintro _ ⟨⟩)
  refine wp_seq (borrow_spec (T := noArtifact) (I := noInstance) (.refl w)) ?_
  rintro status w₁ ⟨hquiet, -, hterminal₁, -⟩
  have hq₁ := hwiden hquiet
  split
  · rename_i hterminal
    refine wp_imp (verifyIdentity_spec hq₁ hcut) ?_
    rintro result w₂ ⟨hq₂, herror, hdead⟩
    exact ⟨hq₂, herror, fun _ => hdead (by simp [Process.provenDead, hterminal₁ hterminal])⟩
  refine wp_seq (wp_quiet_from hq₁ rfl hcut) ?_
  rintro _ _ ⟨hq, -, rfl⟩
  have hfull : ((w₁.step (.publishCell handle.id .stopping) ()).processes handle.id).supervisor =
      true := by
    have hslots : (w₁.processes handle.id).slots = (true, true, false) :=
      (hquiet.slots handle.id (by rintro ⟨⟩)).trans hheld.slots
    have hsupervisor : (w₁.processes handle.id).supervisor = true := congrArg Prod.fst hslots
    simpa [World.step, World.observe] using hsupervisor
  refine wp_seq (stopSupervisor_spec hq hfull hcut) ?_
  rintro stopResult w₂ ⟨hq₂, hstopped⟩
  refine wp_seq (confirmMonitor_spec hq₂ hcut) ?_
  rintro confirmed w₃ ⟨hq₃, hgrows₃, hjoined⟩
  refine wp_seq (borrow_spec hq₃) ?_
  rintro status w₄ ⟨hq₄, hgrows₄, hterminal₄, -⟩
  have hepoch : (w₄.processes handle.id).epoch = handle.epoch :=
    (hq₄.grows handle.id).epoch.trans hheld.epoch
  cases stopResult with
  | error stopError => exact reapUnconfirmed_spec hq₄ hepoch hterminal₄ hcut
  | ok value =>
    simp only
    split
    · rename_i hconfirmed
      refine wp_imp (verifyIdentity_spec hq₄ hcut) ?_
      rintro result w₅ ⟨hq₅, herror, hdead⟩
      refine ⟨hq₅, herror, fun _ => hdead ?_⟩
      simp only [Process.provenDead, Bool.or_eq_true, Bool.and_eq_true] at hconfirmed ⊢
      rcases hconfirmed with hconfirmed | hterminal
      · exact Or.inl (Or.inr ⟨hgrows₄.stopped (hgrows₃.stopped (hstopped rfl)),
          hgrows₄.joined (hjoined hconfirmed)⟩)
      · exact Or.inl (Or.inl (hterminal₄ hterminal))
    · exact reapUnconfirmed_spec hq₄ hepoch hterminal₄ hcut

/-- The world in which the stop of an epoch is on record as unconfirmed. -/
def World.unconfirm (w : World) (epoch : ℕ) : World :=
  { w with history := { w.history with unconfirmed := epoch :: w.history.unconfirmed } }

/-- The result of `stop_and_confirm_dead`. -/
def StoppedBy (handle : Instance) (w : World) : Except Error Unit → World → Prop
  | .ok _, w' => Quiet noArtifact (onlyInstance handle.id) w w' ∧
      (w'.processes handle.id).provenDead = true
  | .error error, w' => isStopUnconfirmed error = true ∧
      ∃ w₁, Quiet noArtifact (onlyInstance handle.id) w w₁ ∧ w' = w₁.unconfirm handle.epoch

theorem stopAndConfirmDead_spec {options : Options} {handle : Instance} (hheld : Held w handle)
    (hcut : ∀ w', Quiet noArtifact (onlyInstance handle.id) w w' → cut w') :
    machine.wp cut (handle.stopAndConfirmDead options) (StoppedBy handle w) w := by
  refine wp_seq (proveDead_spec hheld hcut) ?_
  rintro result w₁ ⟨hq, herror, hdead⟩
  cases result with
  | ok value => exact ⟨hq, hdead rfl⟩
  | error error =>
    refine wp_seq (Q := fun _ w' => w' = w₁.unconfirm handle.epoch) ?_ ?_
    · exact wp_perform (fun h => nomatch h) fun _ _ => ⟨fun h => (nomatch h), rfl⟩
    · rintro _ _ rfl
      exact ⟨herror, w₁, hq, rfl⟩

end Nyanpasu.Manager
