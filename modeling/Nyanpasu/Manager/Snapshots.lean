import Nyanpasu.Manager.Agreement
import Nyanpasu.Manager.Provenance

/-!
# Snapshots that fit together

A published status that names a revision shows the launch of that revision, and the health of
an instance of its epoch. One step breaks this: a lifecycle publication takes the health of
the status before it when its state is unchanged, with the failures and the times that were
counted for another epoch.
-/

namespace Nyanpasu.Manager

open Config Machine Serial

/-- The state only: no failure count, no last error, no last success. -/
structure Unmarked (health : HealthStatus) : Prop where
  failures : health.consecutiveFailures = 0
  error : health.lastError = none
  success : health.lastSuccessAt = none

/-- The health was shown by an instance of the epoch. -/
def Shown (n : Net) (epoch : ℕ) (health : HealthStatus) : Prop :=
  ∃ id < n.world.spawned, (n.world.processes id).epoch = epoch ∧
    ∃ status ∈ n.shown id, status.health = some health

/-- A status that names a revision fits together. -/
structure Paired (options : Options) (n : Net) (status : CoreStatus) (revision : ConfigRevision) :
    Prop where
  names : status.state.isStopped = true ∨ status.state.target? = some revision.epoch
  launch : ∃ launch, Drawn options n.world launch ∧ launch.revision = revision ∧
    status.spec = some (specSummary launch.sourceSpec launch.capabilities launch.runtimeFeatures) ∧
    status.controller = some launch.controller.host
  health : ∀ health, status.health = some health →
    Unmarked health ∨ Shown n revision.epoch health

/-- Whether a publication keeps marks that were counted for another epoch. -/
def Net.mixes (n : Net) : Effect → Bool
  | .publish p =>
    decide (p.health = .ofState) && p.revision.any fun revision =>
      decide (n.status.revision.map (·.epoch) ≠ some revision.epoch) &&
        n.status.health.any fun health => decide (p.state.defaultHealth = some health.state) &&
          !(health.consecutiveFailures = 0 && health.lastError.isNone &&
            health.lastSuccessAt.isNone)
  | _ => false

/-- The steps that carry no health from one epoch to another. -/
def unmixed : Condition := fun n effect _ => n.mixes effect = false

/-- What is published, and what the next publication starts from. -/
structure Sincere (options : Options) (n : Net) : Prop where
  published : ∀ status ∈ n.published, ∀ revision, status.revision = some revision →
    Paired options n status revision
  status : ∀ revision, n.status.revision = some revision → Paired options n n.status revision
  silent : n.status.revision = none → n.status.health = none

section Growth

variable {options : Options} {n n' : Net} {epoch : ℕ} {health : HealthStatus}
  {status : CoreStatus} {revision : ConfigRevision}

/-- Nothing that was loaded, spawned or shown is forgotten. -/
structure Net.Grows (n n' : Net) : Prop where
  later : Later n.world n'.world
  shown : ∀ id, n.shown id ⊆ n'.shown id

theorem Shown.grows (h : Shown n epoch health) (hn : n.Grows n') : Shown n' epoch health := by
  obtain ⟨id, hid, hepoch, status, hmem, hstatus⟩ := h
  exact ⟨id, Nat.lt_of_lt_of_le hid hn.later.spawned,
    (hn.later.grows id hid).epoch.trans hepoch, status, hn.shown id hmem, hstatus⟩

theorem Paired.grows (h : Paired options n status revision) (hn : n.Grows n') :
    Paired options n' status revision where
  names := h.names
  launch := by
    obtain ⟨launch, hdrawn, hrest⟩ := h.launch
    exact ⟨launch, hdrawn.later hn.later, hrest⟩
  health := fun health hhealth => (h.health health hhealth).imp_right fun hshown =>
    hshown.grows hn

/-- The status stands while nothing is published. -/
theorem Sincere.grows (h : Sincere options n) (hn : n.Grows n') (hstatus : n'.status = n.status)
    (hpublished : n'.published = n.published) : Sincere options n' where
  published := by
    rw [hpublished]
    exact fun status hmem revision hrevision =>
      (h.published status hmem revision hrevision).grows hn
  status := by
    rw [hstatus]
    exact fun revision hrevision => (h.status revision hrevision).grows hn
  silent := by
    rw [hstatus]
    exact h.silent

/-- A new status that fits together is published. -/
theorem Sincere.write (h : Sincere options n) {status : CoreStatus}
    (hpaired : ∀ revision, status.revision = some revision → Paired options n status revision)
    (hsilent : status.revision = none → status.health = none) :
    Sincere options (n.write status) := by
  have hgrows : n.Grows (n.write status) := ⟨.refl _, fun _ => List.Subset.refl _⟩
  refine ⟨fun other hother revision hrevision => ?_, fun revision hrevision => ?_, hsilent⟩
  · rcases List.mem_cons.mp hother with rfl | hother
    · exact (hpaired revision hrevision).grows hgrows
    · exact (h.published other hother revision hrevision).grows hgrows
  · exact (hpaired revision hrevision).grows hgrows

end Growth

section Steps

variable {options : Options} {n n' : Net}

theorem Net.grows_step {effect : Effect} {answer : Answer effect}
    (h : n.world.allowed effect answer) : n.Grows (n.step effect answer) := by
  refine ⟨.step h, fun id => ?_⟩
  cases effect
  case publishCell id' state => exact Net.shown_publishCell id
  all_goals exact List.Subset.refl _

/-- The health of a lifecycle publication is unmarked, or kept from the status before. -/
theorem defaultHealthForState_cases {now : ℤ} {previous : Option HealthStatus} {state : CoreState}
    {health : HealthStatus} (h : defaultHealthForState now previous state = some health) :
    Unmarked health ∨ (previous = some health ∧ state.defaultHealth = some health.state) := by
  rw [defaultHealthForState, Option.map_eq_some_iff] at h
  obtain ⟨target, htarget, hhealth⟩ := h
  split at hhealth
  next status hprevious =>
    obtain ⟨hsome, hstate⟩ := Option.filter_eq_some_iff.mp hprevious
    rw [decide_eq_true_eq] at hstate
    obtain rfl : status = health := by
      rw [← hhealth, ← hstate]
    exact Or.inr ⟨hsome, htarget.trans (congrArg some hstate.symm)⟩
  next =>
    rw [← hhealth]
    exact Or.inl ⟨rfl, rfl, rfl⟩

/-- A publication that mixes no epochs fits together with what it says. -/
theorem Sincere.published_paired {p : Publication} {now : ℤ} {revision : ConfigRevision}
    {w' : World} (h : Sincere options n) (hlinked : Linked n) (hlater : Later n.world w')
    (hprocesses : w'.processes = n.world.processes) (hspawned : w'.spawned = n.world.spawned)
    (hfits : Fits options w' p) (hrevision : p.revision = some revision)
    (hunmixed : n.mixes (.publish p) = false) :
    Paired options { n with world := w' } (n.status.publish now p) revision := by
  have hgrows : n.Grows { n with world := w' } := ⟨hlater, fun _ => List.Subset.refl _⟩
  have hfitting : Fitting options w' p revision := by
    rw [Fits, hrevision] at hfits
    exact hfits
  refine ⟨hfitting.names, hfitting.launch, fun health hhealth => ?_⟩
  rcases hfitting.health with hstate | ⟨id, hid, hepoch, status, hread, hexactly⟩
  · have hdefault : defaultHealthForState now n.status.health p.state = some health := by
      simpa [CoreStatus.publish, hstate] using hhealth
    rcases defaultHealthForState_cases hdefault with hunmarked | ⟨hkept, htarget⟩
    · exact Or.inl hunmarked
    by_cases hepoch : n.status.revision.map (·.epoch) = some revision.epoch
    · obtain ⟨before, hbefore, heq⟩ := Option.map_eq_some_iff.mp hepoch
      rw [← heq]
      exact ((h.status before hbefore).health health hkept).imp_right fun hshown =>
        hshown.grows hgrows
    · -- The mark of another epoch would be mixed in.
      left
      simp only [Net.mixes, hstate, hrevision, hkept, htarget, Option.any_some, decide_true,
        Bool.true_and, ne_eq, hepoch, not_false_eq_true, Bool.not_eq_false', Bool.and_eq_true,
        decide_eq_true_eq, Option.isNone_iff_eq_none] at hunmixed
      exact ⟨hunmixed.1.1, hunmixed.1.2, hunmixed.2⟩
  · right
    have hhealth : status.health = some health := by
      simpa [CoreStatus.publish, hexactly] using hhealth
    rw [hprocesses] at hepoch hread
    rw [hspawned] at hid
    refine ⟨id, hspawned ▸ hid, ?_, status, (hlinked.cells.evident id hid).reads status hread,
      hhealth⟩
    rw [hprocesses]
    exact hepoch

theorem Net.publishCell_published {id : ℕ} {state : InstanceState} :
    (n.publishCell id state).published = n.published := by
  unfold Net.publishCell
  split <;> rfl

/-- Every step that mixes no epochs keeps the snapshots. -/
theorem Sincere.step {effect : Effect} {answer : Answer effect} (h : Sincere options n)
    (hlinked : Linked n) (hallowed : n.world.allowed effect answer)
    (htruthful : Truthful options (n.world.step effect answer))
    (hunmixed : n.mixes effect = false) : Sincere options (n.step effect answer) := by
  have hgrows : n.Grows (n.step effect answer) := Net.grows_step hallowed
  cases effect
  case publish p =>
    have hbase : Sincere options { n with world := n.world.step (.publish p) answer } :=
      h.grows ⟨hgrows.later, fun _ => List.Subset.refl _⟩ rfl rfl
    have hfits := htruthful.publications p List.mem_cons_self
    change Sincere options (Net.write { n with world := n.world.step (.publish p) answer }
      (n.status.publish answer p))
    refine hbase.write (fun revision hrevision => ?_) ?_
    · exact h.published_paired hlinked hgrows.later rfl rfl hfits hrevision hunmixed
    · intro hnone
      have hrevision : p.revision = none := hnone
      rw [Fits, hrevision] at hfits
      obtain ⟨hstopped, hstate⟩ := hfits
      have hdefault : p.state.defaultHealth = none := by
        cases hp : p.state with
        | stopped reason => rfl
        | starting epoch | running epoch pid | restarting epoch attempt | stopping epoch
          | switching source target =>
          rw [hp] at hstopped
          cases hstopped
      simp [CoreStatus.publish, hstate, defaultHealthForState, hdefault]
  case publishCell id state => exact h.grows hgrows Net.publishCell_status Net.publishCell_published
  all_goals exact h.grows hgrows rfl rfl

/-- An update of an instance fits together with the status of its epoch. -/
theorem Sincere.delivered {f : Forwarder} {status : InstanceStatus} (h : Sincere options n)
    (hf : f.Hosted n.world) (hshown : status ∈ n.shown f.instanceId) (now : ℤ) :
    Sincere options (n.delivered f now status) := by
  unfold Net.delivered
  dsimp only
  split
  · exact h
  refine h.write (fun revision hrevision => ?_) fun hnone => ?_
  · rw [applyEpochStatus_revision] at hrevision
    have hbefore := h.status revision hrevision
    by_cases hepoch : n.status.revision.map (·.epoch) = some f.epoch
    · have happlied : (applyEpochStatus now n.status f.epoch status).state
            = instanceCoreState f.epoch status.state ∧
          (applyEpochStatus now n.status f.epoch status).health = status.health :=
        applyEpochStatus_of_epoch status hepoch
      obtain ⟨hstate, hhealth⟩ := happlied
      have hsame : f.epoch = revision.epoch := by
        rw [hrevision, Option.map_some] at hepoch
        exact (Option.some.inj hepoch).symm
      obtain ⟨launch, hdrawn, hlaunch, hspec, hcontroller⟩ := hbefore.launch
      refine ⟨?_, ⟨launch, hdrawn, hlaunch, ?_, ?_⟩, fun health heq => Or.inr ?_⟩
      · rw [hstate, ← hsame]
        exact names_instanceCoreState f.epoch status.state
      · rw [applyEpochStatus, if_neg (not_not.mpr hepoch)]
        exact hspec
      · rw [applyEpochStatus, if_neg (not_not.mpr hepoch)]
        exact hcontroller
      · exact ⟨f.instanceId, hf.1, hf.2.trans hsame, status, hshown, hhealth.symm.trans heq⟩
    · rw [applyEpochStatus_of_ne status hepoch]
      exact hbefore
  · rw [applyEpochStatus_revision] at hnone
    have hepoch : n.status.revision.map (·.epoch) ≠ some f.epoch := by
      simp [hnone]
    rw [applyEpochStatus_of_ne status hepoch]
    exact h.silent hnone

/-- What happens beside the operations keeps the snapshots. -/
theorem Sincere.drift {d : Net.Drift} (h : Sincere options n) (hlinked : Linked n)
    (htruthful : Truthful options n.world) (hd : n.drift d = some n') : Sincere options n' := by
  cases d with
  | transition id status =>
    obtain ⟨-, heq⟩ := Option.ite_none_right_eq_some.mp hd
    obtain rfl := Option.some.inj heq
    exact h.grows ⟨.refl _, Net.shown_send⟩ rfl rfl
  | read f =>
    obtain ⟨-, heq⟩ := Option.ite_none_right_eq_some.mp hd
    obtain rfl := Option.some.inj heq
    exact h.grows ⟨.refl _, fun _ => List.Subset.refl _⟩ rfl rfl
  | deliver f now =>
    simp only [Net.drift] at hd
    split at hd
    next status hholding =>
      obtain ⟨hf, heq⟩ := Option.ite_none_right_eq_some.mp hd
      obtain rfl := Option.some.inj heq
      obtain ⟨hmem, -⟩ := (hlinked.tasks f hf).holding status hholding
      have hdelivered := h.delivered (htruthful.forwarders f hf) hmem now
      exact hdelivered.grows ⟨.refl _, fun _ => List.Subset.refl _⟩ rfl rfl
    next => cases hd

theorem NetBuilt.sincere (h : NetBuilt options n) : Sincere options n := by
  obtain ⟨now, hstatus⟩ := h.status
  refine ⟨?_, ?_, ?_⟩
  · rw [h.published]
    intro status hmem
    cases hmem
  · rw [hstatus]
    intro revision hrevision
    cases hrevision
  · rw [hstatus]
    exact fun _ => rfl

end Steps

section Snapshots

variable {options : Options} {cuts : Net → Prop} {admits : Condition}
  {c : Config Effect Answer Net Request (Except Error Outcome)}

theorem CutRun.truthful (h : CutRun options cuts admits c) : Truthful options c.state.world := by
  have hrefines : Refines (net options cuts admits) (plant options fun _ => True) Net.world :=
    net_refines fun _ _ => trivial
  exact reach_truthful (hrefines.reach (fun _ hbuilt => hbuilt.world) h)

end Snapshots

section Scripts

instance (n : Net) (effect : Effect) (answer : Answer effect) :
    Decidable (unmixed n effect answer) := inferInstanceAs (Decidable (_ = false))

/-- An instance that was restarted and does not answer yet. -/
def refused : InstanceStatus :=
  ⟨.restarting 1, some ⟨.starting, 0, 2, some "connection refused", none⟩⟩

/-- Failures are shown for an epoch that has no process. -/
def Net.misattributes (n : Net) (status : CoreStatus) : Bool :=
  status.revision.any fun revision => status.health.any fun health =>
    decide (health.consecutiveFailures = 2) &&
      decide (∀ id < n.world.spawned, (n.world.processes id).epoch ≠ revision.epoch)

end Scripts

end Nyanpasu.Manager
