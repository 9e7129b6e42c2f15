import Nyanpasu.Manager.LifecycleLaws

/-!
# The invariant of the manager

Between its effects an operation holds some instances in local variables. The invariant is
stated relative to them: every process is proven dead, or its epoch is quarantined, or its
instance is the current one or in hand. It also fixes what the history may say about the
launches, the released epochs, the allocated epochs and the installed revisions.
-/

namespace Nyanpasu.Manager

open Config

/-- The instances that are held: the current one and those in hand. -/
def World.held (w : World) (hand : List Instance) : List Instance :=
  (w.ctrl.current.map (·.handle)).toList ++ hand

/-- A launch is safe when nothing is quarantined and every earlier process is proven dead,
but for the current instance while a graceful switch boots its successor. -/
structure Launch.Safe (launch : Launch) : Prop where
  quarantine : launch.quarantine = []
  alive : ∀ id ∈ launch.alive, launch.current = some id ∧ launch.site = .gracefulSwitch

/-- A release is safe when the epoch has no process left alive and no artifact. -/
structure Release.Safe (release : Release) : Prop where
  alive : release.alive = []
  artifacts : release.artifacts = []

/-- The place of an epoch in the order in which a manager that found `top` gives them out. -/
def epochOrder (top epoch : ℕ) : ℕ := Counter.order (2 ^ 64) top epoch

/-- The revision of the install `x` was given out after that of `y`. -/
def Active.Later (top : ℕ) (x y : Active) : Prop :=
  epochOrder top y.revision.epoch < epochOrder top x.revision.epoch ∨
    (y.revision.epoch = x.revision.epoch ∧ y.revision.generation < x.revision.generation)

/-- Both installs have the same revision and documents. -/
structure Active.SameRevision (x y : Active) : Prop where
  revision : x.revision = y.revision
  sourceDocument : x.sourceDocument = y.sourceDocument
  effectiveDocument : x.effectiveDocument = y.effectiveDocument

/-- How two installs of one manager are related, the newer one first. -/
def Active.Follows (top : ℕ) (x y : Active) : Prop := x.Later top y ∨ x.SameRevision y

theorem Active.Later.trans {top : ℕ} {x y z : Active} (h : x.Later top y) (h' : y.Later top z) :
    x.Later top z := by
  unfold Active.Later at *
  rcases h with h | ⟨h, hgeneration⟩ <;> rcases h' with h' | ⟨h', hgeneration'⟩
  · exact Or.inl (h'.trans h)
  · exact Or.inl (by rwa [h'])
  · exact Or.inl (by rwa [← h])
  · exact Or.inr ⟨h'.trans h, hgeneration'.trans hgeneration⟩

theorem Active.Follows.trans {top : ℕ} {x y z : Active} (h : x.Follows top y)
    (h' : y.Follows top z) : x.Follows top z := by
  rcases h with h | h <;> rcases h' with h' | h'
  · exact Or.inl (h.trans h')
  · exact Or.inl (by unfold Active.Later at *; rwa [← h'.revision])
  · exact Or.inl (by unfold Active.Later at *; rwa [h.revision])
  · exact Or.inr ⟨h.revision.trans h'.revision, h.sourceDocument.trans h'.sourceDocument,
      h.effectiveDocument.trans h'.effectiveDocument⟩

/-- What is known of the current instance. -/
structure CurrentOk (w : World) (active : Active) : Prop where
  newest : w.history.installs.head? = some active
  epoch : active.revision.epoch = active.handle.epoch
  forwarder : active.forwarder = ⟨active.handle.id, active.handle.epoch⟩
  ready : (w.processes active.handle.id).ready = true
  /-- The process loads the file of its epoch whenever it is spawned again. -/
  spec : active.handle.spec.configPath = .runtime (.config active.handle.epoch)
  /-- An epoch that was quarantined beside the instance is on record. -/
  hushed : w.ctrl.quarantine = [] ∨ w.history.muted = true

/-- The epochs that an operation answers for: those of the held instances, and those whose
stop failed and is not quarantined yet. -/
def World.owed (w : World) (hand : List Instance) (pending : List ℕ) : List ℕ :=
  pending ++ (w.held hand).map (·.epoch)

/-- The custody of the processes in a world where the instances of `hand` are in local
variables and the failed stops of the epochs in `pending` are not quarantined yet. -/
structure Custody (hand : List Instance) (pending : List ℕ) (w : World) : Prop where
  counted : ∀ id < w.spawned, (w.processes id).epoch ∈ w.history.allocated
  /-- No process is forgotten. -/
  law : ∀ id < w.spawned, (w.processes id).provenDead = true ∨
    (w.processes id).epoch ∈ w.quarantined ∨ (w.processes id).epoch ∈ pending ∨
    id ∈ (w.held hand).map (·.id)
  held : ∀ handle ∈ w.held hand, Held w handle
  apart : (w.owed hand pending).Nodup
  trusted : ∀ epoch ∈ w.owed hand pending, epoch ∉ w.quarantined
  proven : ∀ entry ∈ w.ctrl.quarantine, entry.deathProven = true →
    ∀ id < w.spawned, (w.processes id).epoch = entry.epoch → (w.processes id).provenDead = true

/-- What the history may say in such a world. -/
structure Chronicle (pending : List ℕ) (w : World) : Prop where
  launches : ∀ launch ∈ w.history.launches, launch.Safe
  releases : ∀ release ∈ w.history.releases, release.Safe
  unconfirmed : ∀ epoch ∈ w.history.unconfirmed, epoch ∈ w.quarantined ∨ epoch ∈ pending
  top : w.history.top < 2 ^ 64
  allocated : w.history.allocated =
    Counter.issued (2 ^ 64) w.history.top w.history.allocated.length
  counter : w.epoch = (w.history.top + w.history.allocated.length) % 2 ^ 64
  ordered : w.history.installs.Pairwise (Active.Follows w.history.top)
  installed : ∀ active ∈ w.history.installs, active.revision.epoch ∈ w.history.allocated
  current : ∀ active, w.ctrl.current = some active → CurrentOk w active

/-- The invariant between the effects of an operation. -/
structure Inv (hand : List Instance) (pending : List ℕ) (w : World) : Prop where
  custody : Custody hand pending w
  chronicle : Chronicle pending w

section Lemmas

variable {T : Artifact → Prop} {I : ℕ → Prop} {w w' : World} {hand hand' : List Instance}
  {pending pending' : List ℕ} {handle : Instance}

theorem World.held_of_none (h : w.ctrl.current = none) : w.held hand = hand := by
  simp [World.held, h]

theorem World.mem_held_cons {other : Instance} (h : other ∈ w.held hand) :
    other ∈ w.held (handle :: hand) := by
  simp only [World.held, List.mem_append, List.mem_cons] at h ⊢
  tauto

/-- The held instance may be put first. -/
theorem World.owed_cons_perm :
    (w.owed (handle :: hand) pending).Perm (w.owed hand (handle.epoch :: pending)) := by
  simp only [World.owed, World.held, List.map_append, List.map_cons, List.cons_append]
  rw [← List.append_assoc, ← List.append_assoc]
  exact List.perm_middle

/-- Quiet steps keep the custody, where an instance in hand may be let go when its process
is proven dead or its epoch becomes pending. -/
theorem Custody.advance (h : Custody hand pending w) (hw : Quiet T I w w')
    (hsub : hand'.Sublist hand) (hpending : pending ⊆ pending')
    (howed : (w.owed hand' pending').Subperm (w.owed hand pending))
    (hI : ∀ handle ∈ w.held hand', ¬ I handle.id)
    (hgone : ∀ handle ∈ hand, handle ∉ hand' →
      (w'.processes handle.id).provenDead = true ∨ handle.epoch ∈ pending') :
    Custody hand' pending' w' := by
  have hquarantined : w'.quarantined = w.quarantined := by simp [World.quarantined, hw.ctrl]
  have hheld : w'.held hand' = w.held hand' := by simp [World.held, hw.ctrl]
  have howed' : w'.owed hand' pending' = w.owed hand' pending' := by simp [World.owed, hheld]
  have hsublist : (w.held hand').Sublist (w.held hand) := hsub.append_left _
  have hepoch : ∀ id, (w'.processes id).epoch = (w.processes id).epoch :=
    fun id => (hw.grows id).epoch
  refine ⟨?_, ?_, ?_, ?_, ?_, ?_⟩
  · intro id hid
    rw [hepoch, hw.history]
    exact h.counted id (hw.spawned ▸ hid)
  · intro id hid
    rw [hepoch, hquarantined, hheld]
    rcases h.law id (hw.spawned ▸ hid) with hproof | hq | hpend | hmem
    · exact Or.inl ((hw.grows id).provenDead hproof)
    · exact Or.inr (Or.inl hq)
    · exact Or.inr (Or.inr (Or.inl (hpending hpend)))
    · obtain ⟨other, hother, rfl⟩ := List.mem_map.mp hmem
      by_cases hkept : other ∈ w.held hand'
      · exact Or.inr (Or.inr (Or.inr (List.mem_map_of_mem hkept)))
      have hother' : other ∈ hand ∧ other ∉ hand' := by
        simp only [World.held, List.mem_append] at hother hkept
        tauto
      rcases hgone other hother'.1 hother'.2 with hdead | hpend
      · exact Or.inl hdead
      · exact Or.inr (Or.inr (Or.inl ((h.held other hother).epoch ▸ hpend)))
  · intro other hmem
    rw [hheld] at hmem
    exact (h.held other (hsublist.subset hmem)).quiet hw (hI other hmem)
  · rw [howed']
    obtain ⟨owed, hperm, hsublist⟩ := howed
    exact hperm.nodup_iff.mp (h.apart.sublist hsublist)
  · rw [howed', hquarantined]
    exact fun epoch hmem => h.trusted epoch (howed.subset hmem)
  · intro entry hentry hproven id hid hmine
    rw [hw.ctrl] at hentry
    rw [hepoch] at hmine
    exact (hw.grows id).provenDead (h.proven entry hentry hproven id (hw.spawned ▸ hid) hmine)

/-- Quiet steps write no history. -/
theorem Chronicle.quiet (h : Chronicle pending w) (hw : Quiet T I w w') : Chronicle pending w' := by
  have hquarantined : w'.quarantined = w.quarantined := by simp [World.quarantined, hw.ctrl]
  refine ⟨?_, ?_, ?_, ?_, ?_, ?_, ?_, ?_, ?_⟩
  · rw [hw.history]; exact h.launches
  · rw [hw.history]; exact h.releases
  · rw [hw.history, hquarantined]; exact h.unconfirmed
  · rw [hw.history]; exact h.top
  · rw [hw.history]; exact h.allocated
  · rw [hw.history, hw.epoch]; exact h.counter
  · rw [hw.history]; exact h.ordered
  · rw [hw.history]; exact h.installed
  · intro active hactive
    rw [hw.ctrl] at hactive
    have hok := h.current active hactive
    refine ⟨hw.history ▸ hok.newest, hok.epoch, hok.forwarder, (hw.grows _).ready hok.ready,
      hok.spec, ?_⟩
    rw [hw.ctrl, hw.history]
    exact hok.hushed

/-- Quiet steps that stop no instance keep the invariant. -/
theorem Inv.quiet (h : Inv hand pending w) (hw : Quiet T noInstance w w') : Inv hand pending w' :=
  ⟨h.custody.advance hw (.refl hand) (List.Subset.refl _) (.refl _) (fun _ _ => id)
    fun _ hmem hnot => absurd hmem hnot, h.chronicle.quiet hw⟩

/-- Without held instances every quiet step keeps the invariant. -/
theorem Inv.quiet_of_none (h : Inv [] pending w) (hcurrent : w.ctrl.current = none)
    (hw : Quiet T I w w') : Inv [] pending w' :=
  ⟨h.custody.advance hw (.refl []) (List.Subset.refl _) (.refl _)
    (fun _ hmem => by simp [World.held, hcurrent] at hmem) fun _ hmem _ => absurd hmem (by simp),
    h.chronicle.quiet hw⟩

/-- The epoch of an instance in hand is owed once. -/
theorem Custody.epoch_notMem (h : Custody (handle :: hand) pending w) :
    handle.epoch ∉ w.owed hand pending := by
  have hnodup := World.owed_cons_perm.nodup_iff.mp h.apart
  simp only [World.owed, List.cons_append, List.nodup_cons] at hnodup
  exact hnodup.1

/-- Held instances have distinct processes. -/
theorem Custody.ne_id (h : Custody (handle :: hand) pending w) {other : Instance}
    (hother : other ∈ w.held hand) : other.id ≠ handle.id := by
  intro heq
  have hmem : handle ∈ w.held (handle :: hand) := by simp [World.held]
  have hepoch : other.epoch = handle.epoch := by
    rw [← (h.held _ (World.mem_held_cons hother)).epoch, heq, (h.held _ hmem).epoch]
  exact h.epoch_notMem (List.mem_append_right _ (hepoch ▸ List.mem_map_of_mem hother))

/-- A proven death lets go of an instance. -/
theorem Inv.stopped (h : Inv (handle :: hand) pending w)
    (hw : Quiet T (onlyInstance handle.id) w w')
    (hdead : (w'.processes handle.id).provenDead = true) : Inv hand pending w' := by
  refine ⟨h.custody.advance hw (List.sublist_cons_self handle hand) (List.Subset.refl _) ?_
    (fun other hmem => h.custody.ne_id hmem) fun other hmem hnot => ?_, h.chronicle.quiet hw⟩
  · refine List.Sublist.subperm (List.Sublist.append_left (List.Sublist.map _ ?_) _)
    exact List.Sublist.append_left (List.sublist_cons_self handle hand) _
  · rcases List.mem_cons.mp hmem with rfl | hmem
    · exact Or.inl hdead
    · exact absurd hmem hnot

/-- A failed stop makes the epoch of its instance pending. -/
theorem Inv.unconfirmed (h : Inv (handle :: hand) pending w)
    (hw : Quiet T (onlyInstance handle.id) w w') :
    Inv hand (handle.epoch :: pending) (w'.unconfirm handle.epoch) := by
  have hcustody : Custody hand (handle.epoch :: pending) w' := by
    refine h.custody.advance hw (List.sublist_cons_self handle hand)
      (List.subset_cons_self _ _) World.owed_cons_perm.symm.subperm
      (fun other hmem => h.custody.ne_id hmem) fun other hmem hnot => ?_
    rcases List.mem_cons.mp hmem with rfl | hmem
    · exact Or.inr List.mem_cons_self
    · exact absurd hmem hnot
  have hchronicle := h.chronicle.quiet hw
  refine ⟨⟨hcustody.counted, hcustody.law, fun other hmem => ?_, hcustody.apart,
    hcustody.trusted, hcustody.proven⟩, { hchronicle with unconfirmed := ?_, current := ?_ }⟩
  · have hheld := hcustody.held other hmem
    exact ⟨hheld.spawned, hheld.epoch, hheld.slots⟩
  · intro epoch hmem
    rcases List.mem_cons.mp hmem with rfl | hmem
    · exact Or.inr List.mem_cons_self
    · exact (hchronicle.unconfirmed epoch hmem).imp_right (List.mem_cons_of_mem _)
  · intro active hactive
    have hok := hchronicle.current active hactive
    exact ⟨hok.newest, hok.epoch, hok.forwarder, hok.ready, hok.spec, hok.hushed⟩

/-- A held instance has an epoch that was allocated. -/
theorem Custody.epoch_mem (h : Custody hand pending w) (hmem : handle ∈ w.held hand) :
    handle.epoch ∈ w.history.allocated := by
  have hheld := h.held handle hmem
  exact hheld.epoch ▸ h.counted handle.id hheld.spawned

/-- The parts of the world that the invariant reads. -/
structure View where
  current : Option Active
  quarantine : List QuarantinedEpoch
  epoch : ℕ
  spawned : ℕ
  processes : ℕ → Process
  found : List Artifact
  allocated : List ℕ
  installs : List Active
  launches : List Launch
  unconfirmed : List ℕ
  releases : List Release
  muted : Bool

/-- What the invariant reads of a world. -/
def World.view (w : World) : View where
  current := w.ctrl.current
  quarantine := w.ctrl.quarantine
  epoch := w.epoch
  spawned := w.spawned
  processes := w.processes
  found := w.history.found
  allocated := w.history.allocated
  installs := w.history.installs
  launches := w.history.launches
  unconfirmed := w.history.unconfirmed
  releases := w.history.releases
  muted := w.history.muted

/-- Steps that the invariant does not see keep it. -/
theorem Inv.unseen (h : Inv hand pending w) (hview : w'.view = w.view) : Inv hand pending w' := by
  obtain ⟨ctrl, epoch, _, _, spawned, processes, _, history⟩ := w
  obtain ⟨ctrl', epoch', _, _, spawned', processes', _, history'⟩ := w'
  obtain ⟨current, _, quarantine⟩ := ctrl
  obtain ⟨current', _, quarantine'⟩ := ctrl'
  obtain ⟨found, allocated, _, installs, launches, _, _, _, unconfirmed, releases, _, _, _,
    muted⟩ := history
  obtain ⟨found', allocated', _, installs', launches', _, _, _, unconfirmed', releases', _, _, _,
    muted'⟩ := history'
  simp only [World.view, View.mk.injEq] at hview
  obtain ⟨rfl, rfl, rfl, rfl, rfl, rfl, rfl, rfl, rfl, rfl, rfl, rfl⟩ := hview
  obtain ⟨⟨c₁, c₂, c₃, c₄, c₅, c₆⟩, ⟨d₁, d₂, d₃, d₄, d₅, d₆, d₇, d₈, d₉⟩⟩ := h
  refine ⟨⟨c₁, c₂, fun other hmem => ?_, c₄, c₅, c₆⟩,
    ⟨d₁, d₂, d₃, d₄, d₅, d₆, d₇, d₈, fun active hactive => ?_⟩⟩
  · have hheld := c₃ other hmem
    exact ⟨hheld.spawned, hheld.epoch, hheld.slots⟩
  · have hok := d₉ active hactive
    exact ⟨hok.newest, hok.epoch, hok.forwarder, hok.ready, hok.spec, hok.hushed⟩

/-- The taken `Active` is in hand. -/
theorem Inv.taken {active : Active} (h : Inv hand pending w)
    (hcurrent : w.ctrl.current = some active) :
    Inv (active.handle :: hand) pending (w.step .takeCurrent (some active)) := by
  have hheld : w.held hand = active.handle :: hand := by simp [World.held, hcurrent]
  obtain ⟨⟨c₁, c₂, c₃, c₄, c₅, c₆⟩, ⟨d₁, d₂, d₃, d₄, d₅, d₆, d₇, d₈, -⟩⟩ := h
  rw [World.owed, hheld] at c₄ c₅
  rw [hheld] at c₂ c₃
  refine ⟨⟨c₁, c₂, fun other hmem => ?_, c₄, c₅, c₆⟩,
    ⟨d₁, d₂, d₃, d₄, d₅, d₆, d₇, d₈, fun active hactive => nomatch hactive⟩⟩
  have hother := c₃ other hmem
  exact ⟨hother.spawned, hother.epoch, hother.slots⟩

/-- An instance in hand becomes the current one. -/
theorem Inv.installed {active : Active} (h : Inv (active.handle :: hand) pending w)
    (hcurrent : w.ctrl.current = none) (hepoch : active.revision.epoch = active.handle.epoch)
    (hforwarder : active.forwarder = ⟨active.handle.id, active.handle.epoch⟩)
    (hready : (w.processes active.handle.id).ready = true)
    (hspec : active.handle.spec.configPath = .runtime (.config active.handle.epoch))
    (hquarantine : w.ctrl.quarantine = [])
    (hfollows : ∀ older ∈ w.history.installs, active.Follows w.history.top older) :
    Inv hand pending (w.step (.setCurrent active) ()) := by
  have hheld : w.held (active.handle :: hand) = active.handle :: hand :=
    World.held_of_none hcurrent
  have hallocated : active.revision.epoch ∈ w.history.allocated := by
    rw [hepoch]
    exact h.custody.epoch_mem (by simp [World.held])
  obtain ⟨⟨c₁, c₂, c₃, c₄, c₅, c₆⟩, ⟨d₁, d₂, d₃, d₄, d₅, d₆, d₇, d₈, -⟩⟩ := h
  rw [World.owed, hheld] at c₄ c₅
  rw [hheld] at c₂ c₃
  refine ⟨⟨c₁, c₂, fun other hmem => ?_, c₄, c₅, c₆⟩,
    ⟨d₁, d₂, d₃, d₄, d₅, d₆, List.pairwise_cons.mpr ⟨hfollows, d₇⟩, ?_, ?_⟩⟩
  · have hother := c₃ other hmem
    exact ⟨hother.spawned, hother.epoch, hother.slots⟩
  · intro other hmem
    rcases List.mem_cons.mp hmem with rfl | hmem
    · exact hallocated
    · exact d₈ other hmem
  · intro other hother
    obtain rfl : active = other := Option.some.inj hother
    exact ⟨rfl, hepoch, hforwarder, hready, hspec, Or.inl hquarantine⟩

/-- The current instance gets a new revision. -/
theorem Inv.amended {old active : Active} (h : Inv hand pending w)
    (hcurrent : w.ctrl.current = some old) (hhandle : active.handle = old.handle)
    (hforwarder : active.forwarder = old.forwarder)
    (hepoch : active.revision.epoch = old.revision.epoch) (hquarantine : w.ctrl.quarantine = [])
    (hfollows : ∀ older ∈ w.history.installs, active.Follows w.history.top older) :
    Inv hand pending (w.step (.setCurrent active) ()) := by
  have hok := h.chronicle.current old hcurrent
  have hheld : w.held hand = active.handle :: hand := by simp [World.held, hcurrent, hhandle]
  have hallocated : active.revision.epoch ∈ w.history.allocated := by
    rw [hepoch, hok.epoch]
    exact h.custody.epoch_mem (by simp [World.held, hcurrent])
  obtain ⟨⟨c₁, c₂, c₃, c₄, c₅, c₆⟩, ⟨d₁, d₂, d₃, d₄, d₅, d₆, d₇, d₈, -⟩⟩ := h
  rw [World.owed, hheld] at c₄ c₅
  rw [hheld] at c₂ c₃
  refine ⟨⟨c₁, c₂, fun other hmem => ?_, c₄, c₅, c₆⟩,
    ⟨d₁, d₂, d₃, d₄, d₅, d₆, List.pairwise_cons.mpr ⟨hfollows, d₇⟩, ?_, ?_⟩⟩
  · have hother := c₃ other hmem
    exact ⟨hother.spawned, hother.epoch, hother.slots⟩
  · intro other hmem
    rcases List.mem_cons.mp hmem with rfl | hmem
    · exact hallocated
    · exact d₈ other hmem
  · intro other hother
    obtain rfl : active = other := Option.some.inj hother
    exact ⟨rfl, by rw [hepoch, hok.epoch, hhandle], by rw [hforwarder, hok.forwarder, hhandle],
      hhandle ▸ hok.ready, hhandle ▸ hok.spec, Or.inl hquarantine⟩

/-- The next epoch of a manager. -/
theorem Chronicle.nextEpoch_eq (h : Chronicle pending w) :
    w.nextEpoch = Counter.value (2 ^ 64) w.history.top w.history.allocated.length :=
  (Counter.value_eq_succ h.counter).symm

/-- A new epoch comes after every epoch that was given out. -/
theorem Chronicle.order_lt_nextEpoch (h : Chronicle pending w)
    (hroom : w.history.allocated.length < 2 ^ 64) {epoch : ℕ}
    (hmem : epoch ∈ w.history.allocated) :
    epochOrder w.history.top epoch < epochOrder w.history.top w.nextEpoch := by
  rw [h.allocated] at hmem
  have hlt := Counter.order_lt hmem (Nat.le_of_lt hroom)
  rw [h.nextEpoch_eq, epochOrder, epochOrder, Counter.order_value hroom]
  exact hlt

/-- A new epoch is given out. -/
theorem Inv.allocated (h : Inv hand pending w) :
    Inv hand pending (w.step .nextEpoch w.nextEpoch) := by
  have hnext := h.chronicle.nextEpoch_eq
  obtain ⟨⟨c₁, c₂, c₃, c₄, c₅, c₆⟩, ⟨d₁, d₂, d₃, d₄, d₅, d₆, d₇, d₈, d₉⟩⟩ := h
  refine ⟨⟨fun id hid => List.mem_cons_of_mem _ (c₁ id hid), c₂, fun other hmem => ?_, c₄, c₅, c₆⟩,
    ⟨d₁, d₂, d₃, d₄, ?_, ?_, d₇, fun active hmem => List.mem_cons_of_mem _ (d₈ active hmem),
      fun active hactive => ?_⟩⟩
  · have hother := c₃ other hmem
    exact ⟨hother.spawned, hother.epoch, hother.slots⟩
  · change w.nextEpoch :: w.history.allocated =
      Counter.issued (2 ^ 64) w.history.top (w.history.allocated.length + 1)
    rw [hnext, Counter.issued, ← d₅]
  · change w.nextEpoch = (w.history.top + (w.history.allocated.length + 1)) % 2 ^ 64
    rw [hnext]
    rfl
  · have hok := d₉ active hactive
    exact ⟨hok.newest, hok.epoch, hok.forwarder, hok.ready, hok.spec, hok.hushed⟩

/-- The processes that are alive when nothing is pending or quarantined are held. -/
theorem Custody.alive_held (h : Custody hand [] w) (hquarantine : w.ctrl.quarantine = [])
    {id : ℕ} (hid : id ∈ w.alive) : id ∈ (w.held hand).map (·.id) := by
  simp only [World.alive, List.mem_filter, List.mem_range, Bool.not_eq_true'] at hid
  rcases h.law id hid.1 with hdead | hq | hpend | hmem
  · simp [hid.2] at hdead
  · simp [World.quarantined, hquarantine] at hq
  · simp at hpend
  · exact hmem

/-- A launch is safe when nothing but the current instance is held, and that only at the
boot of a graceful switch. -/
theorem Inv.launch_safe {site : LaunchSite} {epoch : ℕ} (h : Inv [] [] w)
    (hquarantine : w.ctrl.quarantine = [])
    (hsite : w.ctrl.current = none ∨ site = .gracefulSwitch) : (w.launch site epoch).Safe where
  quarantine := hquarantine
  alive := by
    intro id hid
    have hmem := h.custody.alive_held hquarantine hid
    simp only [World.held, List.append_nil, List.mem_map, Option.mem_toList] at hmem
    obtain ⟨handle, hhandle, rfl⟩ := hmem
    obtain ⟨active, hactive, rfl⟩ := Option.map_eq_some_iff.mp hhandle
    have hcurrent : w.ctrl.current = some active := hactive
    refine ⟨by simp [World.launch, hcurrent], ?_⟩
    rcases hsite with hnone | hsite
    · simp [hnone] at hcurrent
    · exact hsite

/-- The spawned instance is in hand. -/
theorem Inv.spawned {site : LaunchSite} {epoch : ℕ} {spec : InstanceSpec}
    {controller : ResolvedController} (h : Inv [] [] w) (hw : SpawnedBy site epoch w w')
    (hquarantine : w.ctrl.quarantine = [])
    (hsite : w.ctrl.current = none ∨ site = .gracefulSwitch)
    (hepoch : epoch ∈ w.history.allocated)
    (hfresh : epoch ∉ (w.held []).map (·.epoch)) :
    Inv [⟨w.spawned, epoch, spec, controller⟩] [] w' := by
  have hsafe : (w.launch site epoch).Safe := h.launch_safe hquarantine hsite
  have hquarantined : w'.quarantined = [] := by simp [World.quarantined, hw.ctrl, hquarantine]
  have hheld : w'.held [⟨w.spawned, epoch, spec, controller⟩] =
      w.held [] ++ [⟨w.spawned, epoch, spec, controller⟩] := by simp [World.held, hw.ctrl]
  have hold : ∀ id < w.spawned, w'.processes id = w.processes id :=
    fun id hid => hw.others id (Nat.ne_of_lt hid)
  have hcases : ∀ id, id < w'.spawned → id < w.spawned ∨ id = w.spawned := by
    intro id hid
    rw [hw.spawned] at hid
    omega
  obtain ⟨⟨c₁, c₂, c₃, c₄, c₅, c₆⟩, ⟨d₁, d₂, d₃, d₄, d₅, d₆, d₇, d₈, d₉⟩⟩ := h
  refine ⟨⟨?_, ?_, ?_, ?_, ?_, ?_⟩, ⟨?_, ?_, ?_, ?_, ?_, ?_, ?_, ?_, ?_⟩⟩
  · intro id hid
    rw [hw.history]
    rcases hcases id hid with hid | rfl
    · rw [hold id hid]
      exact c₁ id hid
    · rw [hw.fresh]
      exact hepoch
  · intro id hid
    rw [hheld, List.map_append]
    rcases hcases id hid with hid | rfl
    · rw [hold id hid, hquarantined]
      rcases c₂ id hid with hdead | hq | hpend | hmem
      · exact Or.inl hdead
      · simp [World.quarantined, hquarantine] at hq
      · exact absurd hpend List.not_mem_nil
      · exact Or.inr (Or.inr (Or.inr (List.mem_append_left _ hmem)))
    · exact Or.inr (Or.inr (Or.inr (List.mem_append_right _ (by simp))))
  · intro other hmem
    rw [hheld] at hmem
    rcases List.mem_append.mp hmem with hmem | hmem
    · have hother := c₃ other hmem
      have hprocess := hold other.id hother.spawned
      exact ⟨hw.spawned ▸ Nat.lt_succ_of_lt hother.spawned, hprocess ▸ hother.epoch,
        hprocess ▸ hother.slots⟩
    · obtain rfl := List.mem_singleton.mp hmem
      exact ⟨hw.spawned ▸ Nat.lt_succ_self _, by rw [hw.fresh]; rfl, by rw [hw.fresh]; rfl⟩
  · rw [World.owed, hheld, List.map_append, List.nil_append]
    refine List.nodup_append.mpr ⟨by simpa [World.owed] using c₄, by simp, ?_⟩
    intro a ha b hb hab
    obtain rfl : b = epoch := by simpa using hb
    exact hfresh (hab ▸ ha)
  · intro epoch _
    simp [hquarantined]
  · intro entry hentry
    rw [hw.ctrl, hquarantine] at hentry
    exact absurd hentry List.not_mem_nil
  · intro launch hlaunch
    rw [hw.history] at hlaunch
    rcases List.mem_cons.mp hlaunch with rfl | hlaunch
    · exact hsafe
    · exact d₁ launch hlaunch
  · rw [hw.history]; exact d₂
  · intro epoch hmem
    rw [hw.history] at hmem
    have hlisted := d₃ epoch hmem
    simp [World.quarantined, hquarantine] at hlisted
  · rw [hw.history]; exact d₄
  · rw [hw.history]; exact d₅
  · rw [hw.history, hw.counter]; exact d₆
  · rw [hw.history]; exact d₇
  · rw [hw.history]; exact d₈
  · intro active hactive
    rw [hw.ctrl] at hactive
    have hok := d₉ active hactive
    have hhandle : active.handle ∈ w.held [] := by simp [World.held, hactive]
    refine ⟨hw.history ▸ hok.newest, hok.epoch, hok.forwarder, ?_, hok.spec, Or.inl ?_⟩
    · rw [hold _ (c₃ _ hhandle).spawned]
      exact hok.ready
    · rw [hw.ctrl, hquarantine]

/-- An epoch that is not listed is added at the end. -/
theorem recordQuarantine_of_notMem {quarantine : List QuarantinedEpoch} {epoch : ℕ}
    (reason : String) (h : epoch ∉ quarantine.map (·.epoch)) :
    recordQuarantine quarantine epoch reason = quarantine ++ [⟨epoch, reason, false⟩] := by
  induction quarantine with
  | nil => rfl
  | cons entry rest ih =>
    simp only [List.map_cons, List.mem_cons, not_or] at h
    rw [recordQuarantine, if_neg (Ne.symm h.1), ih h.2, List.cons_append]

/-- A new quarantine list that keeps every epoch releases none. -/
theorem World.released_eq_nil {quarantine : List QuarantinedEpoch}
    (h : ∀ epoch ∈ w.quarantined, epoch ∈ quarantine.map (·.epoch)) :
    w.released quarantine = [] := by
  simp only [World.released, List.filter_eq_nil_iff, decide_eq_true_eq, not_not]
  exact h

/-- The world after an epoch is recorded. -/
def World.quarantineEpoch (w : World) (epoch : ℕ) (reason : String) : World :=
  w.step (.setQuarantine (recordQuarantine w.ctrl.quarantine epoch reason)) ()

/-- A recorded epoch is no longer pending. -/
theorem Inv.quarantined {epoch : ℕ} (h : Inv hand pending w) (reason : String)
    (hheld : epoch ∉ (w.held hand).map (·.epoch)) (hnew : epoch ∉ w.quarantined) :
    Inv hand (pending.erase epoch) (w.quarantineEpoch epoch reason) := by
  have hrecord := recordQuarantine_of_notMem reason hnew
  have hreleased : w.released (w.ctrl.quarantine ++ [⟨epoch, reason, false⟩]) = [] := by
    refine World.released_eq_nil fun e he => ?_
    rw [List.map_append]
    exact List.mem_append_left _ he
  have hmem : ∀ e, e ∈ (w.quarantineEpoch epoch reason).quarantined ↔
      e ∈ w.quarantined ∨ e = epoch := by
    intro e
    simp [World.quarantineEpoch, World.quarantined, World.step, hrecord]
  obtain ⟨⟨c₁, c₂, c₃, c₄, c₅, c₆⟩, ⟨d₁, d₂, d₃, d₄, d₅, d₆, d₇, d₈, d₉⟩⟩ := h
  have hpending : pending.Nodup := (List.nodup_append.mp c₄).1
  have hpend : ∀ e, e ∈ pending → e = epoch ∨ e ∈ pending.erase epoch := by
    intro e he
    by_cases heq : e = epoch
    · exact Or.inl heq
    · exact Or.inr ((List.mem_erase_of_ne heq).mpr he)
  refine ⟨⟨c₁, ?_, fun other hother => ?_, ?_, ?_, ?_⟩, ⟨d₁, ?_, ?_, d₄, d₅, d₆, d₇, d₈, ?_⟩⟩
  · intro id hid
    rw [hmem]
    rcases c₂ id hid with hdead | hq | hp | hheld
    · exact Or.inl hdead
    · exact Or.inr (Or.inl (Or.inl hq))
    · rcases hpend _ hp with heq | hp
      · exact Or.inr (Or.inl (Or.inr heq))
      · exact Or.inr (Or.inr (Or.inl hp))
    · exact Or.inr (Or.inr (Or.inr hheld))
  · have hother := c₃ other hother
    exact ⟨hother.spawned, hother.epoch, hother.slots⟩
  · exact c₄.sublist (List.Sublist.append_right List.erase_sublist _)
  · intro e he
    rw [hmem]
    rintro (hq | rfl)
    · refine c₅ e ?_ hq
      rcases List.mem_append.mp he with he | he
      · exact List.mem_append_left _ (List.mem_of_mem_erase he)
      · exact List.mem_append_right _ he
    · rcases List.mem_append.mp he with he | he
      · exact hpending.not_mem_erase he
      · exact hheld he
  · intro entry hentry hproven
    simp only [World.quarantineEpoch, World.step, hrecord, List.mem_append,
      List.mem_singleton] at hentry
    rcases hentry with hentry | rfl
    · exact c₆ entry hentry hproven
    · cases hproven
  · simpa [World.quarantineEpoch, World.step, hrecord, hreleased] using d₂
  · intro e he
    rw [hmem]
    simp only [World.quarantineEpoch, World.step, hrecord, hreleased, List.not_mem_nil,
      not_false_eq_true, decide_true, List.filter_true] at he
    rcases d₃ e he with hq | hp
    · exact Or.inl (Or.inl hq)
    · rcases hpend e hp with heq | hp
      · exact Or.inl (Or.inr heq)
      · exact Or.inr hp
  · intro active hactive
    have hok := d₉ active hactive
    have hcurrent : w.ctrl.current = some active := hactive
    refine ⟨hok.newest, hok.epoch, hok.forwarder, hok.ready, hok.spec, Or.inr ?_⟩
    simp [World.quarantineEpoch, World.step, hrecord, hcurrent]

end Lemmas

end Nyanpasu.Manager
