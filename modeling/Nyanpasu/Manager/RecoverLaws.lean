import Mathlib.Data.List.MinMax
import Mathlib.Order.Nat
import Nyanpasu.Manager.ApplyLaws

/-!
# Recovery and construction

An epoch leaves the quarantine list only when each of its processes is proven dead and none
of its artifacts is left. The sweep at construction finds a bound on every epoch that left
an artifact.
-/

namespace Nyanpasu.Manager

open Config Machine

/-- Every process of the epoch is proven dead. -/
def World.EpochDead (w : World) (epoch : ℕ) : Prop :=
  ∀ id < w.spawned, (w.processes id).epoch = epoch → (w.processes id).provenDead = true

/-- The quarantine list that may replace the present one: it lists no new epoch, what it
calls proven is proven, and the epochs it omits are dead and cleaned. -/
structure Relisted (w : World) (quarantine : List QuarantinedEpoch) : Prop where
  listed : ∀ epoch ∈ quarantine.map (·.epoch), epoch ∈ w.quarantined
  length : quarantine.length ≤ w.ctrl.quarantine.length
  proven : ∀ entry ∈ quarantine, entry.deathProven = true → w.EpochDead entry.epoch
  released : ∀ epoch ∈ w.released quarantine, w.EpochDead epoch ∧ Cleaned epoch w

variable {options : Options} {site : Site} {T : Artifact → Prop} {I : ℕ → Prop} {b w w' : World}
  {hand : List Instance} {pending : List ℕ} {quarantine : List QuarantinedEpoch} {epoch : ℕ}
  {entry : QuarantinedEpoch}

/-- A proof of death is never lost. -/
theorem World.EpochDead.quiet (h : w.EpochDead epoch) (hw : Quiet T I w w') :
    w'.EpochDead epoch := by
  intro id hid hepoch
  rw [(hw.grows id).epoch] at hepoch
  exact (hw.grows id).provenDead (h id (hw.spawned ▸ hid) hepoch)

/-- A dead and cleaned epoch is released safely. -/
theorem release_safe (hdead : w.EpochDead epoch) (hcleaned : Cleaned epoch w) :
    (w.release epoch).Safe where
  alive := by
    refine List.filter_eq_nil_iff.mpr fun id hid => ?_
    simp only [World.alive, List.mem_filter, List.mem_range, Bool.not_eq_true'] at hid
    intro hepoch
    have hproven := hdead id hid.1 (of_decide_eq_true hepoch)
    simp [hid.2] at hproven
  artifacts := by
    refine List.filter_eq_nil_iff.mpr fun artifact hmem => ?_
    intro hepoch
    have hnone := hcleaned artifact (of_decide_eq_true hepoch)
    obtain ⟨⟨key, contents⟩, hentry, rfl⟩ := List.mem_map.mp hmem
    have hkey := List.lookup_eq_none_iff.mp hnone (key, contents) hentry
    simp at hkey

/-- The list is replaced by a lawful one. -/
theorem Inv.relisted (h : Inv hand pending w) (hlist : Relisted w quarantine) :
    Inv hand pending (w.step (.setQuarantine quarantine) ()) := by
  have hkept : ∀ epoch ∈ w.quarantined, epoch ∉ w.released quarantine →
      epoch ∈ quarantine.map (·.epoch) := by
    intro epoch hmem hnot
    by_contra hgone
    exact hnot (List.mem_filter.mpr ⟨hmem, decide_eq_true hgone⟩)
  obtain ⟨⟨c₁, c₂, c₃, c₄, c₅, c₆⟩, ⟨d₁, d₂, d₃, d₄, d₅, d₆, d₇, d₈, d₉⟩⟩ := h
  refine ⟨⟨c₁, fun id hid => ?_, fun other hmem => ?_, c₄, fun epoch hmem hq => ?_, hlist.proven⟩,
    ⟨d₁, fun release hmem => ?_, fun epoch hmem => ?_, d₄, d₅, d₆, d₇, d₈,
      fun active hactive => ?_⟩⟩
  · rcases c₂ id hid with hdead | hq | hp | hheld
    · exact Or.inl hdead
    · by_cases hgone : (w.processes id).epoch ∈ w.released quarantine
      · exact Or.inl ((hlist.released _ hgone).1 id hid rfl)
      · exact Or.inr (Or.inl (hkept _ hq hgone))
    · exact Or.inr (Or.inr (Or.inl hp))
    · exact Or.inr (Or.inr (Or.inr hheld))
  · have hother := c₃ other hmem
    exact ⟨hother.spawned, hother.epoch, hother.slots⟩
  · exact c₅ epoch hmem (hlist.listed epoch hq)
  · rcases List.mem_append.mp hmem with hmem | hmem
    · obtain ⟨epoch, hgone, rfl⟩ := List.mem_map.mp hmem
      exact release_safe (hlist.released epoch hgone).1 (hlist.released epoch hgone).2
    · exact d₂ release hmem
  · obtain ⟨hmem, hnot⟩ := List.mem_filter.mp hmem
    exact (d₃ epoch hmem).imp_left fun hq => hkept epoch hq (of_decide_eq_true hnot)
  · have hok := d₉ active hactive
    refine ⟨hok.newest, hok.epoch, hok.forwarder, hok.ready, hok.spec, ?_⟩
    rcases hok.hushed with hempty | hmuted
    · refine Or.inl (List.eq_nil_of_length_eq_zero (Nat.le_zero.mp ?_))
      exact hlist.length.trans (by simp [hempty])
    · exact Or.inr (by simp [World.step, hmuted])

theorem Settled.relisted (h : Settled site w) (hlist : Relisted w quarantine) :
    Settled site (w.step (.setQuarantine quarantine) ()) where
  inv := h.inv.relisted hlist
  file := fun active hactive => (h.file active hactive).congr rfl
  tasks := h.tasks
  silent := h.silent
  spoken := fun active hactive => by
    rcases h.spoken active hactive with hmuted | hspoken
    · exact Or.inl (by simp [World.step, hmuted])
    · exact Or.inr ⟨hspoken.published, hspoken.heard⟩
  covered := h.covered

section Lists

theorem map_setDeathProven :
    (setDeathProven quarantine epoch).map (·.epoch) = quarantine.map (·.epoch) := by
  induction quarantine with
  | nil => rfl
  | cons entry rest ih =>
    unfold setDeathProven
    split
    · rfl
    · rw [List.map_cons, ih, List.map_cons]

theorem mem_setDeathProven (h : entry ∈ setDeathProven quarantine epoch) :
    entry ∈ quarantine ∨ entry.epoch = epoch := by
  induction quarantine with
  | nil => exact absurd h List.not_mem_nil
  | cons first rest ih =>
    unfold setDeathProven at h
    split at h
    · rename_i hfirst
      rcases List.mem_cons.mp h with rfl | hmem
      · exact Or.inr hfirst
      · exact Or.inl (List.mem_cons_of_mem first hmem)
    · rcases List.mem_cons.mp h with rfl | hmem
      · exact Or.inl List.mem_cons_self
      · exact (ih hmem).imp_left (List.mem_cons_of_mem first)

/-- The list itself is lawful. -/
theorem relisted_self (h : Inv hand pending w) : Relisted w w.ctrl.quarantine where
  listed := fun _ hmem => hmem
  length := le_refl _
  proven := h.custody.proven
  released := by
    rw [World.released_eq_nil fun _ hmem => hmem]
    exact fun epoch hmem => absurd hmem List.not_mem_nil

/-- A death may be written down when it is proven. -/
theorem relisted_setDeathProven (h : Inv hand pending w) (hdead : w.EpochDead epoch) :
    Relisted w (setDeathProven w.ctrl.quarantine epoch) where
  listed := fun epoch hmem => by rwa [map_setDeathProven] at hmem
  length := by
    have hmap : ((setDeathProven w.ctrl.quarantine epoch).map (·.epoch)).length =
        (w.ctrl.quarantine.map (·.epoch)).length := by rw [map_setDeathProven]
    simp only [List.length_map] at hmap
    exact le_of_eq hmap
  proven := fun entry hmem hproven => by
    rcases mem_setDeathProven hmem with hmem | rfl
    · exact h.custody.proven entry hmem hproven
    · exact hdead
  released := by
    rw [World.released_eq_nil fun _ hmem => by rw [map_setDeathProven]; exact hmem]
    exact fun epoch hmem => absurd hmem List.not_mem_nil

/-- A dead and cleaned epoch may leave the list. -/
theorem relisted_releaseEpoch (h : Inv hand pending w) (hdead : w.EpochDead epoch)
    (hcleaned : Cleaned epoch w) : Relisted w (releaseEpoch w.ctrl.quarantine epoch) where
  listed := fun epoch hmem => (List.filter_sublist.map _).subset hmem
  length := List.length_filter_le _ _
  proven := fun entry hmem => h.custody.proven entry (List.mem_of_mem_filter hmem)
  released := fun other hmem => by
    obtain ⟨hmem, hgone⟩ := List.mem_filter.mp hmem
    obtain ⟨entry, hentry, rfl⟩ := List.mem_map.mp hmem
    have heq : entry.epoch = epoch := by
      by_contra hne
      exact of_decide_eq_true hgone
        (List.mem_map_of_mem (List.mem_filter.mpr ⟨hentry, decide_eq_true hne⟩))
    exact heq ▸ ⟨hdead, hcleaned⟩

end Lists

/-- The recovery of a settled world `b` has come to the world `w`. -/
structure Recovering (site : Site) (b w : World) : Prop where
  settled : Settled site w
  current : w.ctrl.current = b.ctrl.current
  ledger : w.ledger = b.ledger
  muted : b.history.muted = true → w.history.muted = true
  dead : ∀ epoch, b.EpochDead epoch → w.EpochDead epoch

theorem Recovering.refl (h : Settled site b) : Recovering site b b :=
  ⟨h, rfl, rfl, id, fun _ => id⟩

theorem Recovering.quiet (h : Recovering site b w) (hw : Quiet T noInstance w w')
    (hT : ∀ active, b.ctrl.current = some active → ¬ T (.config active.revision.epoch)) :
    Recovering site b w' where
  settled := h.settled.quiet hw fun active hactive => hT active (h.current ▸ hactive)
  current := by rw [hw.ctrl, h.current]
  ledger := hw.ledger.trans h.ledger
  muted := hw.history ▸ h.muted
  dead := fun epoch hdead => (h.dead epoch hdead).quiet hw

theorem Recovering.relisted (h : Recovering site b w) (hlist : Relisted w quarantine) :
    Recovering site b (w.step (.setQuarantine quarantine) ()) where
  settled := h.settled.relisted hlist
  current := h.current
  ledger := h.ledger
  muted := fun hmuted => by simp [World.step, h.muted hmuted]
  dead := h.dead

/-- The reaper proves the death of every process of the epoch. -/
theorem epochDead_reaped :
    (w.observeEpoch epoch fun process => { process with reaped := true }).EpochDead epoch := by
  intro id _ hepoch
  by_cases hmine : (w.processes id).epoch = epoch
  · simp [World.observeEpoch, hmine, Process.provenDead]
  · simp [World.observeEpoch, hmine] at hepoch

theorem proveEpochDead_spec (h : Recovering site b w)
    (hproven : entry.deathProven = true → b.EpochDead entry.epoch) :
    machine.wp (Cut site) (proveEpochDead entry) (fun failure w' => Recovering site b w' ∧
      (failure = none → w'.EpochDead entry.epoch)) w := by
  unfold proveEpochDead
  split
  · rename_i hdead
    exact ⟨h, fun _ => h.dead _ (hproven hdead)⟩
  · have hquiet : ∀ w', Quiet noArtifact noInstance w w' → Recovering site b w' :=
      fun w' hw' => h.quiet hw' fun _ _ => id
    refine wp_seq (wp_quiet trivial fun w' hw' => (hquiet w' hw').settled.cut) ?_
    rintro reaped w₁ ⟨hq₁, -, rfl⟩
    rcases reaped with error | outcome
    · exact ⟨hquiet _ hq₁, fun hnone => nomatch hnone⟩
    cases outcome with
    | notFound => exact ⟨hquiet _ hq₁, fun hnone => nomatch hnone⟩
    | alreadyExited => exact ⟨hquiet _ hq₁, fun _ => epochDead_reaped⟩
    | killed => exact ⟨hquiet _ hq₁, fun _ => epochDead_reaped⟩

/-- The list is replaced without waiting. -/
theorem setQuarantine_spec {cut : World → Prop} :
    machine.wp cut (setQuarantine quarantine)
      (fun _ w' => w' = w.step (.setQuarantine quarantine) ()) w :=
  wp_sync rfl fun _ _ => rfl

/-- One round of the recovery, for an epoch that is not the current one. -/
theorem recoverEntry_spec (h : Recovering site b w)
    (hother : ∀ active, b.ctrl.current = some active → active.revision.epoch ≠ entry.epoch)
    (hproven : entry.deathProven = true → b.EpochDead entry.epoch) :
    machine.wp (Cut site) (recoverEntry options entry) (fun _ => Recovering site b) w := by
  unfold recoverEntry
  refine wp_seq (proveEpochDead_spec h hproven) ?_
  rintro failure w₁ ⟨h₁, hdead⟩
  cases failure with
  | some failure => exact h₁
  | none =>
  have hdead := hdead rfl
  refine wp_seq getCtrl_spec ?_
  rintro _ _ ⟨rfl, rfl⟩
  have hlist : Relisted w₁ (if entry.deathProven then w₁.ctrl.quarantine
      else setDeathProven w₁.ctrl.quarantine entry.epoch) := by
    split
    · exact relisted_self h₁.settled.inv
    · exact relisted_setDeathProven h₁.settled.inv hdead
  refine wp_seq setQuarantine_spec ?_
  rintro _ w₂ hw₂
  have h₂ : Recovering site b w₂ := hw₂ ▸ h₁.relisted hlist
  have hdead : w₂.EpochDead entry.epoch := hw₂ ▸ hdead
  have hquiet : ∀ w', Quiet (ofEpoch entry.epoch) noInstance w₂ w' → Recovering site b w' :=
    fun w' hw' => h₂.quiet hw' hother
  refine wp_seq (cleanupEpoch_spec fun w' hw' => (hquiet w' hw').settled.cut) ?_
  rintro result w₃ ⟨hq₃, hcleaned⟩
  have h₃ := hquiet w₃ hq₃
  cases result with
  | error error => exact h₃
  | ok value =>
    refine wp_seq getCtrl_spec ?_
    rintro _ _ ⟨rfl, rfl⟩
    refine wp_seq setQuarantine_spec ?_
    rintro _ _ rfl
    exact h₃.relisted (relisted_releaseEpoch h₃.settled.inv (hdead.quiet hq₃) (hcleaned rfl))

theorem recoverEntries_spec {entries : List QuarantinedEpoch} (h : Recovering site b w)
    (hother : ∀ entry ∈ entries, ∀ active, b.ctrl.current = some active →
      active.revision.epoch ≠ entry.epoch)
    (hproven : ∀ entry ∈ entries, entry.deathProven = true → b.EpochDead entry.epoch) :
    machine.wp (Cut site) (recoverEntries options entries) (fun _ => Recovering site b) w := by
  induction entries generalizing w with
  | nil => exact h
  | cons entry entries ih =>
    refine wp_seq (recoverEntry_spec h (hother entry List.mem_cons_self)
      (hproven entry List.mem_cons_self)) fun failure w₁ h₁ => ?_
    refine wp_seq (ih h₁ (fun e he => hother e (List.mem_cons_of_mem entry he))
      fun e he => hproven e (List.mem_cons_of_mem entry he)) fun failures w₂ h₂ => ?_
    exact h₂

/-- The stop that a recovery publishes settles the world. -/
theorem Settled.stopPublished {now : ℤ} {p : Publication} (h : Settled site w)
    (hstate : p.state.isStopped = true) (hrevision : p.revision = none)
    (hmuted : ∀ active, w.ctrl.current = some active → w.history.muted = true) :
    Settled site (w.step (.publish p) now) := by
  cases hcurrent : w.ctrl.current with
  | none => exact h.inv.settled_stopped hcurrent (by simp [h.tasks, hcurrent]) hstate hrevision
  | some active =>
    refine ⟨(h.serving hcurrent).published.base, fun other hother => Or.inl ?_, ?_⟩
    · exact hmuted active hcurrent
    · simp [World.step, World.published, World.settledBy, hstate]

/-- `recover_quarantine` keeps the current instance and what is written down. -/
theorem recoverQuarantine_spec (h : Settled site w) :
    machine.wp (Cut site) (recoverQuarantine options) (fun _ w' => Settled site w' ∧
      w'.ctrl.current = w.ctrl.current ∧ w'.ledger = w.ledger) w := by
  unfold recoverQuarantine
  refine wp_seq getCtrl_spec ?_
  rintro _ _ ⟨rfl, rfl⟩
  split
  · exact ⟨h, rfl, rfl⟩
  rename_i hlisted
  have hother : ∀ entry ∈ w.ctrl.quarantine, ∀ active, w.ctrl.current = some active →
      active.revision.epoch ≠ entry.epoch := by
    intro entry hentry active hactive heq
    have hepoch := (h.inv.chronicle.current active hactive).epoch
    refine h.inv.custody.trusted active.handle.epoch (by simp [World.owed, World.held, hactive]) ?_
    rw [← hepoch, heq]
    exact List.mem_map_of_mem hentry
  have hmuted : ∀ active, w.ctrl.current = some active → w.history.muted = true := by
    intro active hactive
    refine (h.inv.chronicle.current active hactive).hushed.resolve_left fun hempty => ?_
    simp [hempty] at hlisted
  refine wp_seq (recoverEntries_spec (.refl h) hother h.inv.custody.proven) fun failures w₁ h₁ => ?_
  split
  · refine wp_seq publish_spec ?_
    rintro _ _ ⟨now, rfl⟩
    refine ⟨h₁.settled.stopPublished rfl rfl fun active hactive => ?_, h₁.current, h₁.ledger⟩
    exact h₁.muted (hmuted active (h₁.current ▸ hactive))
  · refine wp_seq getCtrl_spec ?_
    rintro _ _ ⟨rfl, rfl⟩
    exact ⟨h₁.settled, h₁.current, h₁.ledger⟩

section Construction

theorem collectEpochs_spec {cut : World → Prop} {entries : List Artifact} (hcut : cut w) :
    machine.wp cut (collectEpochs entries) (fun result w' => w = w' ∧
      ∀ epochs, result = .ok epochs → epochs = entries.map (·.epoch)) w := by
  induction entries with
  | nil =>
    refine wp_andThen (wp_inert (fun _ => rfl) hcut) ?_
      fun error _ hw => ⟨hw.2, fun _ hok => nomatch hok⟩
    rintro ⟨⟩ _ ⟨-, rfl⟩
    exact ⟨rfl, fun epochs hok => (Except.ok.inj hok).symm⟩
  | cons entry entries ih =>
    refine wp_andThen (wp_inert (fun _ => rfl) hcut) ?_
      fun error _ hw => ⟨hw.2, fun _ hok => nomatch hok⟩
    rintro ⟨⟩ _ ⟨-, rfl⟩
    refine wp_andThen ih ?_ fun error _ hw => ⟨hw.1, fun _ hok => nomatch hok⟩
    rintro epochs _ ⟨rfl, hepochs⟩
    refine ⟨rfl, fun result hok => ?_⟩
    rw [← Except.ok.inj hok, hepochs epochs rfl, List.map_cons]

/-- `artifact_epochs` finds the epochs of the artifacts. -/
theorem artifactEpochs_spec {cut : World → Prop} (hcut : cut w) :
    machine.wp cut artifactEpochs (fun result w' => w = w' ∧ ∀ epochs, result = .ok epochs →
      ∀ epoch, epoch ∈ epochs ↔ epoch ∈ (w.files.map Prod.fst).map (·.epoch)) w := by
  refine wp_andThen (wp_inert (fun _ => rfl) hcut) ?_
    fun error _ hw => ⟨hw.2, fun _ hok => nomatch hok⟩
  rintro entries _ ⟨hentries, rfl⟩
  refine wp_andThen (collectEpochs_spec hcut) ?_ fun error _ hw => ⟨hw.1, fun _ hok => nomatch hok⟩
  rintro epochs _ ⟨rfl, hepochs⟩
  refine ⟨rfl, fun result hok epoch => ?_⟩
  rw [← Except.ok.inj hok, hepochs epochs rfl, List.mem_dedup, List.mem_mergeSort]
  obtain ⟨hlisted, hpresent⟩ := hentries entries rfl
  simp only [List.mem_map (f := Artifact.epoch)]
  constructor
  · rintro ⟨artifact, hmem, rfl⟩
    exact ⟨artifact, hpresent artifact hmem, rfl⟩
  · rintro ⟨artifact, hmem, rfl⟩
    exact ⟨artifact, hlisted artifact hmem, rfl⟩

/-- The sweep touches files and processes only. -/
theorem sweepEpochs_spec {epochs : List ℕ} :
    machine.wp (fun _ => True) (sweepEpochs options epochs)
      (fun _ => Quiet anyArtifact noInstance w) w := by
  have hcleanup : ∀ {epoch rest w₁}, Quiet anyArtifact noInstance w w₁ →
      (∀ {w₂}, Quiet anyArtifact noInstance w w₂ → machine.wp (fun _ => True)
        (sweepEpochs options rest) (fun _ => Quiet anyArtifact noInstance w) w₂) →
      machine.wp (fun _ => True)
        ((cleanupEpoch options epoch).andThen fun () => sweepEpochs options rest)
        (fun _ => Quiet anyArtifact noInstance w) w₁ := by
    intro epoch rest w₁ hw₁ hrest
    have hframe : machine.wp (fun _ => True) (cleanupEpoch options epoch)
        (fun _ => Quiet anyArtifact noInstance w) w₁ :=
      wp_imp (wp_frame cleanupEpoch_quietly fun _ _ => trivial)
        fun _ _ hw => hw₁.trans (hw.mono (fun _ _ => trivial) fun _ h => h)
    exact wp_andThen hframe (fun _ _ hw => hrest hw) fun _ _ hw => hw
  suffices h : ∀ {w₁}, Quiet anyArtifact noInstance w w₁ → machine.wp (fun _ => True)
      (sweepEpochs options epochs) (fun _ => Quiet anyArtifact noInstance w) w₁ from h (.refl w)
  induction epochs with
  | nil => exact fun hw => hw
  | cons epoch epochs ih =>
    intro w₁ hw₁
    refine wp_andThen (wp_quiet_from hw₁ trivial fun _ _ => trivial) ?_ fun _ _ hw => hw.1
    rintro present w₂ ⟨hw₂, -, -⟩
    cases present with
    | false => exact hcleanup hw₂ ih
    | true =>
      refine wp_andThen (wp_quiet_from hw₂ trivial fun _ _ => trivial) ?_ fun _ _ hw => hw.1
      rintro _ w₃ ⟨hw₃, -, -⟩
      exact hcleanup hw₃ ih

/-- The maximum of some epochs depends on what they are only. -/
theorem foldr_max_congr {epochs epochs' : List ℕ} (h : ∀ epoch, epoch ∈ epochs ↔ epoch ∈ epochs') :
    epochs.foldr max 0 = epochs'.foldr max 0 := by
  apply le_antisymm
  · exact List.max_le_of_forall_le _ _ fun epoch hmem =>
      List.le_max_of_le' _ ((h epoch).mp hmem) le_rfl
  · exact List.max_le_of_forall_le _ _ fun epoch hmem =>
      List.le_max_of_le' _ ((h epoch).mpr hmem) le_rfl

/-- `sweep_orphans` returns the largest epoch of the artifacts it found. -/
theorem sweepOrphans_spec :
    machine.wp (fun _ => True) (sweepOrphans options) (fun result w' =>
      Quiet anyArtifact noInstance w w' ∧ ∀ maxEpoch, result = .ok maxEpoch →
        maxEpoch = ((w.files.map Prod.fst).map (·.epoch)).foldr max 0) w := by
  refine wp_andThen (artifactEpochs_spec trivial) ?_
    fun error _ hw => ⟨hw.1 ▸ .refl w, fun _ hok => nomatch hok⟩
  rintro epochs _ ⟨rfl, hepochs⟩
  refine wp_andThen sweepEpochs_spec ?_ fun error _ hw => ⟨hw, fun _ hok => nomatch hok⟩
  rintro ⟨⟩ w₁ hw₁
  refine ⟨hw₁, fun maxEpoch hok => ?_⟩
  rw [← Except.ok.inj hok]
  exact foldr_max_congr (hepochs epochs rfl)

/-- A new manager holds nothing. -/
theorem Built.ctrl (h : Built options w) : w.ctrl = ⟨none, none, []⟩ := by
  obtain ⟨w₀, w₁, maxEpoch, hblank, hruns, rfl⟩ := h
  exact (hruns.satisfies sweepOrphans_spec).1.ctrl.trans hblank.ctrl

/-- A new manager has spawned nothing. -/
theorem Built.spawned (h : Built options w) : w.spawned = 0 := by
  obtain ⟨w₀, w₁, maxEpoch, hblank, hruns, rfl⟩ := h
  exact (hruns.satisfies sweepOrphans_spec).1.spawned.trans hblank.spawned

/-- A new manager has no forwarder. -/
theorem Built.forwarders (h : Built options w) : w.forwarders = [] := by
  obtain ⟨w₀, w₁, maxEpoch, hblank, hruns, rfl⟩ := h
  exact (hruns.satisfies sweepOrphans_spec).1.forwarders.trans hblank.forwarders

/-- A new manager has a history of nothing but the artifacts it found. -/
theorem Built.history (h : Built options w) : ∃ found, w.history =
    ⟨found, [], [], [], [], [], fun _ => [], [], [], [], [], false, false, false⟩ := by
  obtain ⟨w₀, w₁, maxEpoch, hblank, hruns, rfl⟩ := h
  exact ⟨_, (hruns.satisfies sweepOrphans_spec).1.history.trans hblank.history⟩

/-- The counter of a new manager starts at the largest epoch found. -/
theorem Built.counter (h : Built options w) : w.epoch = w.history.top ∧ w.history.top < 2 ^ 64 := by
  obtain ⟨w₀, w₁, maxEpoch, hblank, hruns, rfl⟩ := h
  obtain ⟨hquiet, hmax⟩ := hruns.satisfies sweepOrphans_spec
  have hfound : w₁.history.found = w₀.files.map Prod.fst :=
    congrArg History.found (hquiet.history.trans hblank.history)
  have htop : w₁.history.top = maxEpoch := by rw [hmax maxEpoch rfl, History.top, hfound]
  refine ⟨htop.symm, ?_⟩
  have hle : w₁.history.top ≤ 2 ^ 64 - 1 := by
    rw [History.top, hfound]
    refine List.max_le_of_forall_le _ _ fun epoch hmem => ?_
    obtain ⟨artifact, hartifact, rfl⟩ := List.mem_map.mp hmem
    exact Nat.le_sub_one_of_lt (hblank.numbers artifact hartifact)
  exact Nat.lt_of_le_sub_one (by decide) hle

/-- A new manager is settled. -/
theorem Built.settled (h : Built options w) : Settled site w := by
  obtain ⟨hepoch, htop⟩ := h.counter
  obtain ⟨found, hhistory⟩ := h.history
  have hcounter : w.epoch = (w.history.top + w.history.allocated.length) % 2 ^ 64 := by
    rw [hepoch, congrArg History.allocated hhistory]
    exact (Nat.mod_eq_of_lt htop).symm
  refine ⟨⟨⟨⟨?_, ?_, ?_, ?_, ?_, ?_⟩, ⟨?_, ?_, ?_, htop, ?_, hcounter, ?_, ?_, ?_⟩⟩,
    ?_, ?_, ?_⟩, ?_, ?_⟩
  all_goals simp [World.owed, World.held, World.quarantined, Silent, Counter.issued, h.ctrl,
    h.spawned, h.forwarders, hhistory]

end Construction

end Nyanpasu.Manager
