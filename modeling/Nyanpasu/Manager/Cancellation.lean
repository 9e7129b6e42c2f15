import Nyanpasu.Manager.Agreement

/-!
# Operations that are dropped

The future of an operation may be dropped wherever it awaits. While it hides something, that
is a taken `Active`, an announced launch, a new process or a replaced file of the `Active`,
the drop leaves the manager in a state that it does not expect. A drop anywhere else is safe.
-/

namespace Nyanpasu.Manager

open Config Machine Serial

/-- What holds between the operations, however they end. -/
structure CutSafe (site : Site) (n : Net) : Prop where
  stopped : n.world.ctrl.current = none → n.status.state.isStopped = true
  file : ∀ active, n.world.ctrl.current = some active →
    Committed site n.world active.revision active.effectiveDocument
  /-- A process is spawned only when every earlier one is proven dead or quarantined, but for
  the current instance at the boot of a graceful switch. -/
  launches : ∀ launch ∈ n.world.history.launches, launch.Safe

/-- The operation that runs hides nothing. -/
def Net.Covered (n : Net) : Prop := n.world.history.exposed = false

/-- No discarded instance stays shown. -/
def steady : Condition := fun n effect _ => n.abandons effect = false

section Drop

variable {site : Site} {options : Options} {w : World} {removed : List Artifact}

/-- A drop is not seen by the invariant, but for its record. -/
theorem Inv.dropped (h : Inv [] [] w) : Inv [] [] (w.drop removed) := by
  obtain ⟨⟨c₁, c₂, c₃, c₄, c₅, c₆⟩, ⟨d₁, d₂, d₃, d₄, d₅, d₆, d₇, d₈, d₉⟩⟩ := h
  refine ⟨⟨c₁, c₂, fun other hmem => ?_, c₄, c₅, c₆⟩,
    ⟨d₁, d₂, d₃, d₄, d₅, d₆, d₇, d₈, fun active hactive => ?_⟩⟩
  · have hheld := c₃ other hmem
    exact ⟨hheld.spawned, hheld.epoch, hheld.slots⟩
  · have hok := d₉ active hactive
    exact ⟨hok.newest, hok.epoch, hok.forwarder, hok.ready, hok.spec, Or.inr rfl⟩

/-- A drop that hides nothing leaves the world settled. -/
theorem Base.drop (h : Base site w) (hcovered : w.history.exposed = false) :
    Settled site (w.drop removed) where
  inv := h.inv.dropped
  file := fun active hactive => (h.file active hactive).congr World.lookup_drop_config
  tasks := h.tasks
  silent := h.silent
  spoken := fun _ _ => Or.inl rfl
  covered := hcovered

end Drop

section Runs

variable {options : Options} {cuts : Net → Prop} {admits : Condition}

/-- When no operation is dropped while it hides something, the free states are settled. -/
theorem covered_sound {c : Config Effect Answer World Request (Except Error Outcome)}
    (h : Reach (plant options fun w => w.history.exposed = false) (Built options) c) :
    Sound (plant options fun w => w.history.exposed = false) (Settled options.site)
      (Request.Contract options) c :=
  Reach.sound (fun _ hbuilt => hbuilt.settled)
    (fun request _ hsettled => wp_mono (request_spec request hsettled)
      (fun _ hcut hcovered _ => (hcut hcovered).drop hcovered) fun _ _ => id)
    (fun d => d.elim) h

variable {c : Config Effect Answer Net Request (Except Error Outcome)}

theorem CutRun.discarded (h : CutRun options cuts steady c) : Discarded c.state :=
  Reach.always (P := net options cuts steady) (fun _ hbuilt => hbuilt.discarded)
    (fun _ _ _ hdiscarded hallowed => hdiscarded.step hallowed.2)
    (fun _ _ _ hdiscarded hd => hdiscarded.drift hd) (fun _ _ _ hdiscarded => hdiscarded) h

/-- In every run in which operations are dropped only where they hide nothing, the manager is
safe whenever the control lock is free. -/
theorem cut_safe (h : CutRun options Net.Covered steady c) (hfree : c.active = none) :
    CutSafe options.site c.state := by
  have hrefines : Refines (net options Net.Covered steady)
      (plant options fun w => w.history.exposed = false) Net.world := net_refines fun _ hcut => hcut
  have hrun := hrefines.reach (fun _ hbuilt => hbuilt.world) h
  have hsettled : Settled options.site c.state.world :=
    (covered_sound hrun).free (by simp [Config.map, hfree])
  refine ⟨fun hnone => ?_, hsettled.file, hsettled.inv.chronicle.launches⟩
  rcases hsettled.silent hnone with hsilent | hstale
  · exact h.linked.silent hsilent
  · exact (h.discarded hstale).2

instance (n : Net) : Decidable n.Covered := inferInstanceAs (Decidable (_ = false))

instance (n : Net) (effect : Effect) (answer : Answer effect) :
    Decidable (steady n effect answer) := inferInstanceAs (Decidable (_ = false))

/-- An apply is dropped while it prepares; the next one patches the instance. -/
theorem cut_safe_apply : ∃ c active, CutRun httpOptions Net.Covered steady c ∧ c.active = none ∧
    c.state.world.ctrl.current = some active ∧ active.revision.generation = 2 ∧
    CutSafe httpSite c.state := by
  obtain ⟨c, hrun, hc⟩ := exists_cutRun Net.Covered steady (started ++
      [.enter 0 (.apply mihomoSpec none) 3 (watched "direct"), .cut [],
        .serve 0 (.apply mihomoSpec none) 300 (watched "direct")])
    (p := fun c => c.active.isNone &&
      c.state.world.ctrl.current.any fun active => active.revision.generation = 2)
    (by decide +kernel)
  simp only [Bool.and_eq_true, Option.isNone_iff_eq_none, Option.any_eq_true,
    decide_eq_true_eq] at hc
  obtain ⟨hfree, active, hcurrent, hgeneration⟩ := hc
  exact ⟨c, active, hrun, hfree, hcurrent, hgeneration, cut_safe hrun hfree⟩

/-- A stop is dropped after it has taken the `Active`: the instance is gone from the control
state and the status shows it running. -/
theorem dropped_stop : ∃ c, CutRun httpOptions (fun _ => True) anyStep c ∧ c.active = none ∧
    c.state.world.ctrl.current = none ∧ c.state.status.state = .running 1 100 ∧
    ¬ CutSafe httpSite c.state := by
  obtain ⟨c, hrun, hc⟩ := exists_cutRun (fun _ => True) anyStep
    (started ++ [.enter 0 .stop 2 (watched "rule"), .cut []])
    (p := fun c => c.active.isNone && (c.state.world.ctrl.current.isNone &&
      decide (c.state.status.state = .running 1 100)))
    (by decide +kernel)
  simp only [Bool.and_eq_true, Option.isNone_iff_eq_none, decide_eq_true_eq] at hc
  obtain ⟨hfree, hnone, hshown⟩ := hc
  refine ⟨c, hrun, hfree, hnone, hshown, fun hsafe => ?_⟩
  have hstopped := hsafe.stopped hnone
  rw [hshown] at hstopped
  cases hstopped

end Runs

end Nyanpasu.Manager
