import Nyanpasu.Manager.Invariant

/-!
# The phases of an operation

When the control lock is free the world is settled: the file of the current instance is the
committed one and the status speaks about it. An operation first prepares beside the serving
instance. When it has taken that instance, or when there was none, it is in the middle, and
it leaves the middle by publishing an error, by latching the quarantine, or by installing an
instance.
-/

namespace Nyanpasu.Manager

open Config Machine

/-- The file of a revision holds the serialization of its document, and the revision names
that file and its hash. -/
structure Committed (site : Site) (w : World) (revision : ConfigRevision) (document : Document) :
    Prop where
  path : revision.runtimePath = .runtime (.config revision.epoch)
  contents : ∃ bytes, w.files.lookup (.config revision.epoch) = some bytes ∧
    site.serialize document.entries = .ok bytes ∧ revision.effectiveHash = semanticHash bytes

/-- The publication is about an install. -/
structure SpeaksOf (active : Active) (p : Publication) : Prop where
  revision : p.revision = some active.revision
  spec : p.spec = some (specSummary active.sourceSpec active.capabilities active.runtimeFeatures)
  controller : p.controller = some active.handle.controller.host

/-- The publication was made from the last two reads of an instance: its state from the first
one, or from the pid that was found there, and its health from the second one. -/
def Sighted (reads : List InstanceStatus) (epoch : ℕ) (p : Publication) : Prop :=
  ∃ first second rest, reads = second :: first :: rest ∧ p.health = .exactly second.health ∧
    (p.state = instanceCoreState epoch first.state ∨
      p.state = .running epoch (first.state.pid.getD 0))

/-- The last publication is about the current instance, and no other forwarder could have
written since. -/
structure Spoken (w : World) (active : Active) : Prop where
  published : ∃ p, w.history.publications.head? = some p ∧ SpeaksOf active p ∧
    Sighted (w.history.sights active.handle.id) active.revision.epoch p ∧
    (p.state.epoch? = some active.revision.epoch ∨
      (p.state.isStopped = true ∧ (w.processes active.handle.id).terminal = true))
  heard : w.history.heard = [active.forwarder]

/-- The last publication says that the manager is stopped, and no forwarder can have
written since. -/
def Silent (w : World) : Prop :=
  ∀ p ∈ w.history.publications.head?, p.state.isStopped = true ∧
    (p.revision = none ∨ w.history.heard = [])

/-- What holds whenever no operation hides anything. -/
structure Base (site : Site) (w : World) : Prop where
  inv : Inv [] [] w
  file : ∀ active, w.ctrl.current = some active →
    Committed site w active.revision active.effectiveDocument
  tasks : w.forwarders = (w.ctrl.current.map (·.forwarder)).toList
  silent : w.ctrl.current = none → Silent w ∨ w.history.stale = true

/-- What holds whenever the control lock is free. -/
structure Settled (site : Site) (w : World) : Prop extends Base site w where
  spoken : ∀ active, w.ctrl.current = some active → w.history.muted = true ∨ Spoken w active
  covered : w.history.exposed = false

/-- The condition of the states in which an operation is suspended. -/
def Cut (site : Site) (w : World) : Prop := w.history.exposed = false → Base site w

/-- What the operations write down about their success. -/
structure Ledger where
  lastSpec : Option InstanceSpec
  installs : List Active
  uncleaned : List ℕ

/-- The ledger of a world. -/
def World.ledger (w : World) : Ledger := ⟨w.ctrl.lastSpec, w.history.installs, w.history.uncleaned⟩

/-- The ledger after an install. -/
def Ledger.install (ledger : Ledger) (active : Active) : Ledger :=
  { ledger with lastSpec := some active.sourceSpec, installs := active :: ledger.installs }

/-- The epoch counter, with the artifacts that it started above and what it gave out. -/
structure Numbering where
  epoch : ℕ
  found : List Artifact
  allocated : List ℕ

/-- The numbering of a world. -/
def World.numbering (w : World) : Numbering := ⟨w.epoch, w.history.found, w.history.allocated⟩

/-- What an operation has not changed since the world `b`; of the files, those outside
`T`. -/
structure Since (b : World) (T : Artifact → Prop) (w : World) : Prop where
  numbering : w.numbering = b.numbering
  spawned : b.spawned ≤ w.spawned
  ledger : w.ledger = b.ledger
  loads : w.history.loads = b.history.loads
  files : ∀ artifact, ¬ T artifact → w.files.lookup artifact = b.files.lookup artifact
  grows : ∀ id < b.spawned, (b.processes id).Grows (w.processes id)

/-- An operation holds the lock beside the current instance, with the instances of `hand` in
its variables. -/
structure Holding (active : Active) (hand : List Instance) (pending : List ℕ) (w : World) :
    Prop where
  inv : Inv hand pending w
  current : w.ctrl.current = some active
  tasks : w.forwarders = [active.forwarder]

/-- The current instance serves from its committed file while an operation prepares its
successor. -/
structure Serving (site : Site) (active : Active) (hand : List Instance) (pending : List ℕ)
    (w : World) : Prop extends Holding active hand pending w where
  file : Committed site w active.revision active.effectiveDocument

/-- The middle of an operation: no instance is current. -/
structure Mid (b : World) (T : Artifact → Prop) (hand : List Instance) (pending : List ℕ)
    (w : World) : Prop where
  inv : Inv hand pending w
  current : w.ctrl.current = none
  /-- Only failed stops are quarantined. -/
  quarantine : pending = [] → w.ctrl.quarantine = b.ctrl.quarantine
  forwarders : w.forwarders = []
  /-- What the operation holds is exposed. -/
  exposed : w.history.exposed = true ∨
    (hand = [] ∧ pending = [] ∧ (Silent w ∨ w.history.stale = true))
  since : Since b T w

/-- An operation ended without an instance and published an error. -/
structure Ended (b w : World) : Prop where
  current : w.ctrl.current = none
  published : ∃ p message, w.history.publications.head? = some p ∧
    p.state = .stopped (some (.error message)) ∧ p.revision = none
  ledger : w.ledger = b.ledger

/-- A new install is current. -/
structure Installed (b : World) (active : Active) (w : World) : Prop where
  current : w.ctrl.current = some active
  ledger : w.ledger = b.ledger.install active
  /-- Nothing has hushed the instance since. -/
  clear : w.history.muted = false

/-- An operation ended with a new install. -/
structure Launched (b : World) (active : Active) (w : World) : Prop extends
    Installed b active w where
  loads : w.history.loads = b.history.loads

section Rules

variable {site : Site} {b w w' : World} {T T' : Artifact → Prop} {I : ℕ → Prop}
  {hand : List Instance} {pending : List ℕ} {handle : Instance} {active : Active} {α : Type}

theorem Committed.congr {revision : ConfigRevision} {document : Document}
    (h : Committed site w revision document)
    (hfile : w'.files.lookup (.config revision.epoch) = w.files.lookup (.config revision.epoch)) :
    Committed site w' revision document :=
  ⟨h.path, hfile ▸ h.contents⟩

/-- Quiet steps write nothing down. -/
theorem Quiet.ledger (h : Quiet T I w w') : w'.ledger = w.ledger := by
  simp only [World.ledger, h.ctrl, h.history]

theorem Quiet.numbering (h : Quiet T I w w') : w'.numbering = w.numbering := by
  simp only [World.numbering, h.epoch, h.history]

/-- A numbering is of the manager that found its artifacts. -/
theorem top_of_numbering (h : w.numbering = b.numbering) : w.history.top = b.history.top :=
  congrArg (fun numbering => (numbering.found.map (·.epoch)).foldr max 0) h

/-- Equal numberings have given out the same epochs. -/
theorem allocated_of_numbering (h : w.numbering = b.numbering) :
    w.history.allocated = b.history.allocated := congrArg Numbering.allocated h

/-- The next epoch is read off the counter. -/
theorem nextEpoch_of_numbering (h : w.numbering = b.numbering) : w.nextEpoch = b.nextEpoch :=
  congrArg (fun numbering : Numbering => (numbering.epoch + 1) % 2 ^ 64) h

/-- Equal ledgers have equal installs. -/
theorem installs_of_ledger (h : w.ledger = b.ledger) :
    w.history.installs = b.history.installs := congrArg Ledger.installs h

theorem Since.installs (h : Since b T w) : w.history.installs = b.history.installs :=
  installs_of_ledger h.ledger

theorem Ended.installs (h : Ended b w) : w.history.installs = b.history.installs :=
  installs_of_ledger h.ledger

theorem Installed.installs (h : Installed b active w) :
    w.history.installs = active :: b.history.installs := congrArg Ledger.installs h.ledger

theorem Since.refl (b : World) : Since b T b :=
  ⟨rfl, le_refl _, rfl, rfl, fun _ _ => rfl, fun _ _ => .refl _⟩

theorem Since.quiet (h : Since b T w) (hw : Quiet T' I w w') (hT : ∀ a, T' a → T a) :
    Since b T w' where
  numbering := hw.numbering.trans h.numbering
  spawned := hw.spawned ▸ h.spawned
  ledger := hw.ledger.trans h.ledger
  loads := by rw [hw.history, h.loads]
  files := fun a ha => (hw.files a fun hTa => ha (hT a hTa)).trans (h.files a ha)
  grows := fun id hid => (h.grows id hid).trans (hw.grows id)

theorem Since.mono (h : Since b T w) (hT : ∀ a, T a → T' a) : Since b T' w :=
  { h with files := fun a ha => h.files a fun hTa => ha (hT a hTa) }

theorem Silent.of_history (h : Silent w) (hw : w'.history = w.history) : Silent w' := by
  unfold Silent
  rw [hw]
  exact h

/-- An operation in the middle may be suspended anywhere. -/
theorem Mid.cut (h : Mid b T hand pending w) : Cut site w := fun hcovered => by
  rcases h.exposed with hexposed | ⟨rfl, rfl, hsilent⟩
  · simp [hcovered] at hexposed
  · refine ⟨h.inv, fun active hactive => ?_, ?_, fun _ => hsilent⟩
    · simp [h.current] at hactive
    · simp [h.current, h.forwarders]

/-- What the middle of an operation keeps of its beginning may be forgotten. -/
theorem Mid.rebase (h : Mid b T hand pending w) : Mid w T' hand pending w :=
  { h with quarantine := fun _ => rfl, since := .refl w }

theorem Mid.mono (h : Mid b T hand pending w) (hT : ∀ a, T a → T' a) : Mid b T' hand pending w :=
  { h with since := h.since.mono hT }

/-- A committed file outside of what an operation writes stays committed. -/
theorem Mid.committed {revision : ConfigRevision} {document : Document}
    (h : Mid b T hand pending w) (hfile : Committed site b revision document)
    (hT : ¬ T (.config revision.epoch)) : Committed site w revision document :=
  hfile.congr (h.since.files _ hT)

theorem Mid.quiet (h : Mid b T hand pending w) (hw : Quiet T' noInstance w w')
    (hT : ∀ a, T' a → T a) : Mid b T hand pending w' where
  inv := h.inv.quiet hw
  current := by rw [hw.ctrl, h.current]
  quarantine := by rw [hw.ctrl]; exact h.quarantine
  forwarders := hw.forwarders.trans h.forwarders
  exposed := by
    rw [hw.history]
    exact h.exposed.imp_right fun ⟨hhand, hpending, hsilent⟩ =>
      ⟨hhand, hpending, hsilent.imp_left fun hsilent => hsilent.of_history hw.history⟩
  since := h.since.quiet hw hT

/-- A quiet program in the middle. -/
theorem Mid.frame {p : Action α} (h : Mid b T hand pending w)
    (hp : p.Uses (Effect.Quietly T noInstance)) :
    machine.wp (Cut site) p (fun _ => Mid b T hand pending) w :=
  wp_imp (wp_frame hp fun _ hw => (h.quiet hw fun _ => id).cut)
    fun _ _ hw => h.quiet hw fun _ => id

/-- The removal of the files of an epoch in the middle. -/
theorem Mid.cleanup {options : Options} {epoch : ℕ} (h : Mid b T hand pending w)
    (hT : ∀ a, ofEpoch epoch a → T a) :
    machine.wp (Cut site) (cleanupEpoch options epoch) (fun _ => Mid b T hand pending) w :=
  wp_imp (wp_frame cleanupEpoch_quietly fun _ hw => (h.quiet hw hT).cut)
    fun _ _ hw => h.quiet hw hT

/-- An epoch whose failed stop is pending is not listed. -/
theorem Mid.notMem_quarantined (h : Mid b T hand pending w) {epoch : ℕ} (hmem : epoch ∈ pending) :
    epoch ∉ w.quarantined :=
  h.inv.custody.trusted epoch (List.mem_append_left _ hmem)

theorem Mid.exposed_of_hand (h : Mid b T (handle :: hand) pending w) :
    w.history.exposed = true :=
  h.exposed.resolve_right fun hnone => nomatch hnone.1

/-- A stop in the middle. -/
theorem Mid.stop {options : Options} (h : Mid b T (handle :: hand) pending w) :
    machine.wp (Cut site) (handle.stopAndConfirmDead options) (fun result w' =>
      match result with
      | .ok _ => Mid b T hand pending w'
      | .error error => isStopUnconfirmed error = true ∧
          Mid b T hand (handle.epoch :: pending) w') w := by
  have hheld : Held w handle := h.inv.custody.held handle (by simp [World.held])
  have hcut : ∀ w', Quiet noArtifact (onlyInstance handle.id) w w' → Cut site w' := by
    intro w' hw hcovered
    rw [hw.history, h.exposed_of_hand] at hcovered
    cases hcovered
  refine wp_imp (stopAndConfirmDead_spec hheld hcut) fun result w' hw => ?_
  cases result with
  | ok value =>
    obtain ⟨hw, hdead⟩ := hw
    exact ⟨h.inv.stopped hw hdead, by rw [hw.ctrl, h.current], by rw [hw.ctrl]; exact h.quarantine,
      hw.forwarders.trans h.forwarders, Or.inl (by rw [hw.history, h.exposed_of_hand]),
      h.since.quiet hw (by rintro _ ⟨⟩)⟩
  | error error =>
    obtain ⟨herror, w₁, hw, rfl⟩ := hw
    have hsince := h.since.quiet hw (by rintro _ ⟨⟩)
    exact ⟨herror, h.inv.unconfirmed hw, by rw [World.unconfirm, hw.ctrl, h.current], by rintro ⟨⟩,
      hw.forwarders.trans h.forwarders,
      Or.inl ((congrArg History.exposed hw.history).trans h.exposed_of_hand),
      ⟨hsince.numbering, hsince.spawned, hsince.ledger, hsince.loads, hsince.files, hsince.grows⟩⟩

/-- The boot of an instance in the middle. -/
theorem Mid.spawn {options : Options} {place : LaunchSite} {spec : InstanceSpec} {epoch : ℕ}
    {controller : ResolvedController} (h : Mid b T [] [] w)
    (hquarantine : b.ctrl.quarantine = []) (hepoch : epoch ∈ b.history.allocated)
    (hT : ∀ a, ofProcess epoch a → T a) :
    machine.wp (Cut site) (spawnInstance options place spec epoch controller) (fun result w' =>
      match result with
      | .error _ => Mid b T [] [] w'
      | .ok handle => handle = ⟨w.spawned, epoch, spec, controller⟩ ∧ Mid b T [handle] [] w')
      w := by
  have hboot : ∀ {w'}, SpawnedBy place epoch w w' →
      Mid b T [⟨w.spawned, epoch, spec, controller⟩] [] w' := by
    intro w' hw
    have hnone : w.ctrl.quarantine = [] := (h.quarantine rfl).trans hquarantine
    have hledger : w'.ledger = w.ledger := by simp only [World.ledger, hw.ctrl, hw.history]
    refine ⟨h.inv.spawned hw hnone (Or.inl h.current)
      (allocated_of_numbering h.since.numbering ▸ hepoch)
      (by simp [World.held, h.current]), by rw [hw.ctrl, h.current],
      fun _ => by rw [hw.ctrl, h.quarantine rfl], hw.forwarders.trans h.forwarders,
      Or.inl (by rw [hw.history]), ?_, ?_, hledger.trans h.since.ledger,
      by rw [hw.history, h.since.loads], ?_, ?_⟩
    · have hnumbering : w'.numbering = w.numbering := by
        simp only [World.numbering, hw.counter, hw.history]
      exact hnumbering.trans h.since.numbering
    · rw [hw.spawned]
      exact h.since.spawned.trans (Nat.le_succ _)
    · intro a ha
      rw [hw.files a (Bool.eq_false_iff.mpr fun hprocess => ha (hT a hprocess)), h.since.files a ha]
    · intro id hid
      rw [hw.others id (Nat.ne_of_lt (Nat.lt_of_lt_of_le hid h.since.spawned))]
      exact h.since.grows id hid
  refine wp_imp (spawnInstance_spec (fun w' hw => (h.quiet hw hT).cut)
    fun w' hw => (hboot hw).cut) fun result w' hw => ?_
  cases result with
  | error error => exact h.quiet hw hT
  | ok handle =>
    obtain ⟨rfl, hw⟩ := hw
    exact ⟨rfl, hboot hw⟩

/-- The wait for an instance in the middle. -/
theorem Mid.wait (h : Mid b T hand pending w) :
    machine.wp (Cut site) handle.waitReady (fun result w' => Mid b T hand pending w' ∧
      (result = .ok () → (w'.processes handle.id).ready = true)) w :=
  wp_imp (waitReady_spec fun _ hw => (h.quiet hw nofun).cut)
    fun _ _ hw => ⟨h.quiet hw.1 nofun, hw.2⟩

/-- The end of a later part of an operation is its end. -/
theorem Ended.rebase (h : Ended w w') (hledger : w.ledger = b.ledger) : Ended b w' :=
  { h with ledger := h.ledger.trans hledger }

theorem Installed.rebase (h : Installed w active w') (hledger : w.ledger = b.ledger) :
    Installed b active w' :=
  { h with ledger := by rw [h.ledger, hledger] }

/-- A publication is not seen by the invariant. -/
theorem Inv.published {p : Publication} {now : ℤ} (h : Inv hand pending w) :
    Inv hand pending (w.step (.publish p) now) := h.unseen rfl

/-- A publication about a launch exposes the middle. -/
theorem Mid.published {p : Publication} {now : ℤ} (h : Mid b T hand pending w)
    (hp : p.state.isStopped = false) : Mid b T hand pending (w.step (.publish p) now) where
  inv := h.inv.published
  current := h.current
  quarantine := h.quarantine
  forwarders := h.forwarders
  exposed := Or.inl (by simp [World.step, World.published, World.settledBy, h.current, hp])
  since := ⟨h.since.numbering, h.since.spawned, h.since.ledger, h.since.loads, h.since.files,
    h.since.grows⟩

/-- The announcement of a launch in the middle. -/
theorem Mid.announce {state : CoreState} {spec : Option SpecSummary} {controller : Option Host}
    {revision : Option ConfigRevision} {cut : World → Prop} (h : Mid b T hand pending w)
    (hstate : state.isStopped = false) :
    machine.wp cut (publish state spec controller revision)
      (fun _ => Mid b T hand pending) w :=
  wp_seq (Q := fun _ => Mid b T hand pending) (wp_sync rfl fun _ _ => h.published hstate)
    fun _ _ h => h

/-- A world without an instance is settled by the publication of a stop. -/
theorem Inv.settled_stopped {p : Publication} {now : ℤ} (h : Inv [] [] w)
    (hcurrent : w.ctrl.current = none) (hforwarders : w.forwarders = [])
    (hstate : p.state.isStopped = true) (hrevision : p.revision = none) :
    Settled site (w.step (.publish p) now) := by
  refine ⟨⟨h.published, ?_, ?_, fun _ => Or.inl ?_⟩, ?_, ?_⟩
  · intro active hactive
    simp [World.step, hcurrent] at hactive
  · simp [World.step, hcurrent, hforwarders]
  · simp [Silent, World.step, World.published, hstate, hrevision]
  · intro active hactive
    simp [World.step, hcurrent] at hactive
  · simp [World.step, World.published, World.settledBy, hstate]

/-- The publication of an error ends the operation. -/
theorem Mid.errorPublished {p : Publication} {now : ℤ} {message : String} (h : Mid b T [] [] w)
    (hstate : p.state = .stopped (some (.error message))) (hrevision : p.revision = none) :
    Settled site (w.step (.publish p) now) ∧ Ended b (w.step (.publish p) now) :=
  ⟨h.inv.settled_stopped h.current h.forwarders (by rw [hstate]; rfl) hrevision,
    h.current, ⟨p, message, rfl, hstate, hrevision⟩, h.since.ledger⟩

/-- The publication of an error ends the operation. -/
theorem Mid.terminal {error : Error} (h : Mid b T [] [] w) :
    machine.wp (Cut site) (publishTerminalError error)
      (fun _ w' => Settled site w' ∧ Ended b w') w :=
  wp_seq (Q := fun _ w' => Settled site w' ∧ Ended b w')
    (wp_sync rfl fun _ _ => h.errorPublished rfl rfl) fun _ _ h => h

/-- The same end, with the error returned. -/
theorem Mid.fail {error : Error} (h : Mid b T [] [] w) :
    machine.wp (Cut site) (failTerminally error : Action (Except Error α)) (fun result w' =>
      (∃ error, result = .error error) ∧ Settled site w' ∧ Ended b w') w :=
  wp_seq h.terminal fun _ _ hend => ⟨⟨error, rfl⟩, hend⟩

/-- The refusal of a launch removes its files and publishes the error. -/
theorem Mid.refuse {options : Options} {epoch : ℕ} {error reason : Error} (h : Mid b T [] [] w)
    (hT : ∀ a, ofEpoch epoch a → T a) :
    machine.wp (Cut site)
      (refuse options epoch error (publishTerminalError reason) : Action (Except Error α))
      (fun result w' => (∃ error, result = .error error) ∧ Settled site w' ∧ Ended b w') w := by
  refine wp_seq (h.cleanup hT) fun _ w₁ h₁ => ?_
  exact wp_seq h₁.terminal fun _ _ hend => ⟨⟨error, rfl⟩, hend⟩

/-- A recorded epoch is a reason to reject. -/
theorem quarantineError_recordQuarantine (quarantine : List QuarantinedEpoch) (epoch : ℕ)
    (reason : String) :
    ∃ error, quarantineError (recordQuarantine quarantine epoch reason) = some error := by
  have hsome : ∀ entry rest, ∃ error, quarantineError (entry :: rest) = some error := by
    rintro entry (_ | ⟨next, rest⟩)
    · exact ⟨_, rfl⟩
    · exact ⟨_, rfl⟩
  cases quarantine with
  | nil => exact hsome _ _
  | cons entry rest =>
    unfold recordQuarantine
    split
    · exact hsome _ _
    · exact hsome _ _

theorem quarantineEpoch_spec {epoch : ℕ} {reason : String} {cut : World → Prop} :
    machine.wp cut (quarantineEpoch epoch reason) (fun quarantine w' =>
      quarantine = recordQuarantine w.ctrl.quarantine epoch reason ∧
        w' = w.quarantineEpoch epoch reason) w := by
  refine wp_seq (Q := fun ctrl w' => ctrl = w.ctrl ∧ w = w')
    (wp_sync rfl fun ctrl hctrl => ⟨hctrl, rfl⟩) ?_
  rintro _ _ ⟨rfl, rfl⟩
  refine wp_seq (Q := fun _ w' => w' = w.quarantineEpoch epoch reason)
    (wp_sync rfl fun _ _ => rfl) ?_
  rintro _ _ rfl
  exact ⟨rfl, rfl⟩

/-- The second world is the first one with an error published. -/
def ErrorPublished (w w' : World) : Prop :=
  ∃ (p : Publication) (message : String) (now : ℤ), p.state = .stopped (some (.error message)) ∧
    p.revision = none ∧ w' = w.step (.publish p) now

/-- `latch_quarantine` records the epoch and publishes an error. -/
theorem latchQuarantine_spec {epoch : ℕ} {error : Error} {cut : World → Prop} :
    machine.wp cut (latchQuarantine epoch error) (fun result w' => result = error ∧
      ErrorPublished (w.quarantineEpoch epoch error.message) w') w := by
  refine wp_seq quarantineEpoch_spec ?_
  rintro _ w₁ ⟨rfl, rfl⟩
  obtain ⟨rejection, hrejection⟩ :=
    quarantineError_recordQuarantine w.ctrl.quarantine epoch error.message
  rw [hrejection]
  refine wp_seq (Q := fun _ => ErrorPublished (w.quarantineEpoch epoch error.message)) ?_
    fun _ _ h => ⟨rfl, h⟩
  refine wp_seq (Q := fun _ => ErrorPublished (w.quarantineEpoch epoch error.message)) ?_
    fun _ _ h => h
  exact wp_sync rfl fun now _ => ⟨⟨_, .ofState, none, none, none⟩, _, now, rfl, rfl, rfl⟩

/-- The last failed stop is latched: the world is settled. -/
theorem Inv.latch {epoch : ℕ} {error : Error} (h : Inv [] pending w)
    (hcurrent : w.ctrl.current = none) (hforwarders : w.forwarders = [])
    (hpending : pending.erase epoch = []) (hnew : epoch ∉ w.quarantined) :
    machine.wp (Cut site) (latchQuarantine epoch error)
      (fun _ w' => Settled site w' ∧ Ended w w') w := by
  refine wp_imp latchQuarantine_spec ?_
  rintro _ _ ⟨-, p, message, now, hstate, hrevision, rfl⟩
  have hinv := h.quarantined error.message (by simp [World.held, hcurrent]) hnew
  rw [hpending] at hinv
  exact ⟨hinv.settled_stopped hcurrent hforwarders (by rw [hstate]; rfl) hrevision,
    hcurrent, ⟨p, message, rfl, hstate, hrevision⟩, rfl⟩

/-- The last failed stop is latched: the operation ends. -/
theorem Mid.latch {epoch : ℕ} {error : Error} (h : Mid b T [] pending w)
    (hpending : pending.erase epoch = []) (hnew : epoch ∉ w.quarantined) :
    machine.wp (Cut site) (latchQuarantine epoch error)
      (fun _ w' => Settled site w' ∧ Ended b w') w :=
  wp_imp (h.inv.latch h.current h.forwarders hpending hnew)
    fun _ _ hend => ⟨hend.1, hend.2.rebase h.since.ledger⟩

/-- A failed stop is latched by its error. -/
theorem Mid.latchUnconfirmed {epoch : ℕ} {error : Error}
    {otherwise : Action (Except Error α)} (h : Mid b T [] [epoch] w)
    (herror : isStopUnconfirmed error = true) :
    machine.wp (Cut site) (latchUnconfirmed epoch error otherwise) (fun result w' =>
      (∃ error, result = .error error) ∧ Settled site w' ∧ Ended b w') w := by
  unfold Manager.latchUnconfirmed
  rw [if_pos herror]
  exact wp_seq (h.latch (by simp) (h.notMem_quarantined List.mem_cons_self))
    fun error _ hend => ⟨⟨error, rfl⟩, hend⟩

/-- A failed stop is recorded while another one is pending. -/
theorem Mid.record {epoch other : ℕ} {reason : String} {cut : World → Prop}
    (h : Mid b T [] [other, epoch] w) :
    machine.wp cut (quarantineEpoch epoch reason) (fun _ => Mid b T [] [other]) w := by
  have hnodup : other ≠ epoch := by
    have := (List.nodup_append.mp h.inv.custody.apart).1
    simp only [List.nodup_cons, List.mem_singleton] at this
    exact this.1
  refine wp_imp quarantineEpoch_spec ?_
  rintro _ _ ⟨-, rfl⟩
  have hinv := h.inv.quarantined reason (by simp [World.held, h.current])
    (h.notMem_quarantined (List.mem_cons_of_mem _ (List.mem_singleton_self epoch)))
  rw [show [other, epoch].erase epoch = [other] by simp [hnodup]] at hinv
  refine ⟨hinv, h.current, by rintro ⟨⟩, h.forwarders, Or.inl ?_,
    ⟨h.since.numbering, h.since.spawned,
    h.since.ledger, h.since.loads, h.since.files, h.since.grows⟩⟩
  refine h.exposed.resolve_right ?_
  rintro ⟨-, ⟨⟩, -⟩

end Rules

end Nyanpasu.Manager
