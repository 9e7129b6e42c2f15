import Nyanpasu.Manager.Channels

/-!
# The published status and the held instance

When the control lock is free, the published status speaks about the held instance, and it is
stopped when there is none. Two kinds of steps break this: an epoch is quarantined beside the
held instance, or an instance that had stopped is discarded while the status still shows it.
In every run without them the status agrees.
-/

namespace Nyanpasu.Manager

open Config Machine Serial

/-- The configurations that a net reaches when requests are dropped in certain states and
every step meets a condition. -/
def CutRun (options : Options) (cuts : Net → Prop) (admits : Condition) :
    Config Effect Answer Net Request (Except Error Outcome) → Prop :=
  Reach (net options cuts admits) (NetBuilt options)

/-- The configurations that a net reaches when no request is dropped. -/
abbrev NetRun (options : Options) (admits : Condition) :
    Config Effect Answer Net Request (Except Error Outcome) → Prop :=
  CutRun options (fun _ => False) admits

/-- Whether a step quarantines another epoch beside the held instance. -/
def Net.hushes (n : Net) : Effect → Bool
  | .setQuarantine quarantine =>
      n.world.ctrl.current.isSome && n.world.ctrl.quarantine.length < quarantine.length
  | _ => false

/-- Whether a step gives up the discard of a stopped instance that the status still shows. -/
def Net.abandons (n : Net) : Effect → Bool
  | .mark (.staleLeft _) => !n.status.state.isStopped
  | _ => false

/-- The steps after which the manager still says what it holds. -/
def candid : Condition := fun n effect _ => n.hushes effect = false ∧ n.abandons effect = false

/-- The published status agrees with what the manager holds. -/
structure Net.Agrees (n : Net) : Prop where
  /-- The instance lives, and its forwarder has delivered every update. -/
  current : ∀ active, n.world.ctrl.current = some active →
    (n.cells active.handle.id).value.state.isTerminal = false → n.Idle active.forwarder →
    n.status.revision = some active.revision ∧
      n.status.state.epoch? = some active.revision.epoch
  none : n.world.ctrl.current = none → n.status.state.isStopped = true

/-- A discarded instance is not shown any more. -/
def Discarded (n : Net) : Prop := n.world.history.stale = true →
  n.world.forwarders = [] ∧ n.status.state.isStopped = true

section Candid

variable {options : Options} {n n' : Net}

theorem NetBuilt.unmuted (h : NetBuilt options n) : n.world.history.muted = false := by
  obtain ⟨found, hhistory⟩ := h.world.history
  rw [hhistory]

theorem NetBuilt.discarded (h : NetBuilt options n) : Discarded n := by
  obtain ⟨found, hhistory⟩ := h.world.history
  simp [Discarded, hhistory]

/-- Nothing else hushes an instance. -/
theorem Net.unmuted_step {effect : Effect} {answer : Answer effect}
    (h : n.world.history.muted = false) (hquiet : n.hushes effect = false) :
    (n.step effect answer).world.history.muted = false := by
  cases hspeaks : effect.speaks with
  | false =>
    exact (congrArg Voice.muted (World.voice_step (w := n.world) hspeaks answer)).trans h
  | true =>
    cases effect
    case publish | spawnForwarder | abortForwarder => exact h
    case setCurrent active => rfl
    case setQuarantine quarantine =>
      simp only [Net.hushes] at hquiet
      simp [Net.step, World.step, h, hquiet]
    case mark point => cases point <;> exact h
    all_goals cases hspeaks

theorem Discarded.step (h : Discarded n) {effect : Effect} {answer : Answer effect}
    (hkept : n.abandons effect = false) : Discarded (n.step effect answer) := by
  intro hleft
  cases hspeaks : effect.speaks with
  | false =>
    have hstatus : (n.step effect answer).status = n.status := by
      cases effect <;> first | rfl | exact Net.publishCell_status | cases hspeaks
    have hstale : (n.world.step effect answer).history.stale = n.world.history.stale :=
      congrArg Voice.stale (World.voice_step hspeaks answer)
    obtain ⟨hnone, hstopped⟩ := h (hstale.symm.trans hleft)
    exact ⟨(World.forwarders_step hspeaks answer).trans hnone, hstatus ▸ hstopped⟩
  | true =>
    cases effect
    case publish | spawnForwarder => exact nomatch hleft
    case abortForwarder f =>
      obtain ⟨hnone, hstopped⟩ := h hleft
      exact ⟨by simp [Net.step, World.step, hnone], hstopped⟩
    case setCurrent | setQuarantine => exact h hleft
    case mark point =>
      cases point with
      | staleLeft epoch =>
        have hstopped : n.status.state.isStopped = true := by simpa [Net.abandons] using hkept
        exact ⟨List.isEmpty_iff.mp hleft, hstopped⟩
      | _ => cases hspeaks
    all_goals cases hspeaks

theorem Discarded.drift (h : Discarded n) {d : Net.Drift} (hd : n.drift d = some n') :
    Discarded n' := by
  intro hleft
  rw [Net.drift_world hd] at hleft ⊢
  obtain ⟨hnone, hstopped⟩ := h hleft
  refine ⟨hnone, ?_⟩
  cases d with
  | transition id status =>
    obtain ⟨-, heq⟩ := Option.ite_none_right_eq_some.mp hd
    obtain rfl := Option.some.inj heq
    exact hstopped
  | read f =>
    obtain ⟨-, heq⟩ := Option.ite_none_right_eq_some.mp hd
    obtain rfl := Option.some.inj heq
    exact hstopped
  | deliver f now =>
    simp only [Net.drift, hnone] at hd
    split at hd <;> simp at hd

end Candid

section Agreement

variable {options : Options} {admits : Condition} {n : Net}
  {c : Config Effect Answer Net Request (Except Error Outcome)}

/-- The runs of the net are linked. -/
theorem CutRun.linked {cuts : Net → Prop} (h : CutRun options cuts admits c) : Linked c.state :=
  Reach.always (P := net options cuts admits) (fun _ hbuilt => hbuilt.linked)
    (fun _ _ _ hlinked hallowed => hlinked.step hallowed.1.1 hallowed.1.2)
    (fun _ _ _ hlinked hd => hlinked.drift hd) (fun removed _ _ hlinked => hlinked.drop removed) h

/-- A run of the net is a run of the manager. -/
theorem NetRun.run (h : NetRun options admits c) : Run options (c.map Net.world) :=
  have hrefines : Refines (net options (fun _ => False) admits) (completing options) Net.world :=
    net_refines fun _ hcut => hcut
  hrefines.reach (fun _ hbuilt => hbuilt.world) h

theorem NetRun.settled (h : NetRun options admits c) (hfree : c.active = none) :
    Settled options.site c.state.world :=
  h.run.sound.free (by simp [Config.map, hfree])

/-- Candid steps hush no instance, and no discarded instance is shown. -/
theorem NetRun.candid (h : NetRun options candid c) :
    c.state.world.history.muted = false ∧ Discarded c.state := by
  refine Reach.always (P := net options (fun _ => False) Manager.candid)
    (J := fun n => n.world.history.muted = false ∧ Discarded n)
    (fun _ hbuilt => ⟨hbuilt.unmuted, hbuilt.discarded⟩)
    (fun _ _ _ hJ hallowed => ⟨Net.unmuted_step hJ.1 hallowed.2.1, hJ.2.step hallowed.2.2⟩)
    (fun _ _ _ hJ hd => ⟨?_, hJ.2.drift hd⟩) (fun _ _ hcut => hcut.elim) h
  rw [Net.drift_world hd]
  exact hJ.1

/-- The end of a live instance that no stop has touched was never shown. -/
theorem Linked.live {handle : Instance} {status : InstanceStatus} (h : Linked n)
    (hheld : Held n.world handle) (hlive : (n.cells handle.id).value.state.isTerminal = false)
    (hmem : status ∈ n.shown handle.id) : status.state.isTerminal = false := by
  have hhalting : (n.world.processes handle.id).halting = false :=
    congrArg (·.2.2) hheld.slots
  by_contra hend
  have hend : status.state.isTerminal = true := by simpa using hend
  rw [(h.cells.evident _ hheld.spawned).last hhalting status hmem hend, hend] at hlive
  cases hlive

/-- What was spoken about a live instance is shown. -/
theorem Linked.spoken {active : Active} (h : Linked n) (hheld : Held n.world active.handle)
    (hok : CurrentOk n.world active) (hspoken : Spoken n.world active)
    (hlive : (n.cells active.handle.id).value.state.isTerminal = false) :
    n.status.revision = some active.revision ∧
      n.status.state.epoch? = some active.revision.epoch := by
  obtain ⟨p, hp, habout, -, hstate⟩ := hspoken.published
  refine ⟨(h.status.revision p hp).trans habout.revision, ?_⟩
  rcases h.status.attributed p hp with hshown | ⟨f, hf, -, status, hmem, hshown⟩
  · rw [hshown]
    refine hstate.resolve_right fun hstopped => ?_
    obtain ⟨status, hmem, hend⟩ := (h.cells.evident _ hheld.spawned).terminal hstopped.2
    simp [h.live hheld hlive hmem] at hend
  · rw [hspoken.heard, List.mem_singleton] at hf
    rw [hf, hok.forwarder] at hmem
    rw [hshown, epoch?_instanceCoreState (h.live hheld hlive hmem), hf, hok.forwarder, hok.epoch]

/-- A silent manager is shown as stopped. -/
theorem Linked.silent (h : Linked n) (hsilent : Silent n.world) :
    n.status.state.isStopped = true := by
  cases hpublications : n.world.history.publications with
  | nil => exact (h.status.initial hpublications).2
  | cons p rest =>
    have hp : p ∈ n.world.history.publications.head? := by simp [hpublications]
    obtain ⟨hstopped, hquiet⟩ := hsilent p hp
    rcases h.status.attributed p hp with hshown | ⟨f, hf, hepoch, -⟩
    · rw [hshown, hstopped]
    · rcases hquiet with hnone | hnone
      · simp [hnone] at hepoch
      · simp [hnone] at hf

/-- In every run of candid steps the published status agrees with the held instance whenever
the control lock is free. -/
theorem status_agrees (h : NetRun options candid c) (hfree : c.active = none) :
    c.state.Agrees := by
  have hlinked := h.linked
  obtain ⟨hmuted, hdiscarded⟩ := h.candid
  have hsettled := h.settled hfree
  refine ⟨fun active hcurrent hlive _ => ?_, fun hnone => ?_⟩
  · have hheld : Held c.state.world active.handle :=
      hsettled.inv.custody.held _ (by simp [World.held, hcurrent])
    have hspoken := (hsettled.spoken active hcurrent).resolve_left (by simp [hmuted])
    exact hlinked.spoken hheld (hsettled.inv.chronicle.current active hcurrent) hspoken hlive
  · rcases hsettled.silent hnone with hsilent | hstale
    · exact hlinked.silent hsilent
    · exact (hdiscarded hstale).2

end Agreement

section Scripts

/-! Runs of the net that are played. -/

instance (n : Net) (effect : Effect) (answer : Answer effect) :
    Decidable (n.allowed effect answer) := by
  revert answer
  apply @Effect.casesOn (fun effect => ∀ answer, Decidable (n.allowed effect answer)) effect <;>
    intros <;> dsimp only [Net.allowed] <;> infer_instance

instance (options : Options) (cuts : Net → Prop) (admits : Condition)
    [∀ n effect answer, Decidable (admits n effect answer)] (n : Net) (effect : Effect)
    (answer : Answer effect) :
    Decidable ((net options cuts admits).machine.allowed n effect answer) :=
  inferInstanceAs (Decidable ((n.world.allowed effect answer ∧ n.allowed effect answer) ∧
    admits n effect answer))

instance (options : Options) (cuts : Net → Prop) (admits : Condition) [DecidablePred cuts]
    (n : Net) : Decidable ((net options cuts admits).cuts n) :=
  inferInstanceAs (Decidable (cuts n))

instance (n : Net) (effect : Effect) (answer : Answer effect) :
    Decidable (candid n effect answer) :=
  inferInstanceAs (Decidable (_ = false ∧ _ = false))

instance (n : Net) (f : Forwarder) : Decidable (n.Idle f) :=
  inferInstanceAs (Decidable (_ ∨ _ ∧ _))

/-- Everything succeeds, and the channels are read as they are. -/
def watched (mode : String) (n : Net) : (effect : Effect) → Answer effect
  | .borrow id => (n.cells id).value
  | .settle id => some (n.cells id).value.state
  | effect => smooth mode n.world effect

/-- A healthy instance. -/
def healthy (pid : ℕ) : InstanceStatus := ⟨.running pid, some ⟨.healthy, 0, 0, none, some 0⟩⟩

/-- The net around an empty runtime directory. -/
def blankNet : Net where
  world := blankWorld
  cells := fun _ => ⟨.initial 0, 0⟩
  shown := fun _ => [.initial 0]
  tasks := fun _ => ⟨0, none, false⟩
  status := .initial 0
  published := []

theorem netBuilt_blankNet : NetBuilt httpOptions blankNet :=
  ⟨built_blankWorld, ⟨0, rfl⟩, rfl, fun _ => ⟨rfl, rfl⟩, fun _ => rfl⟩

/-- A move of a played run. -/
abbrev NetMove : Type := Move Effect Answer Net Request Net.Drift (List Artifact)

/-- What is true of the end of a run that was played is true of some run. -/
theorem exists_cutRun (cuts : Net → Prop) [DecidablePred cuts] (admits : Condition)
    [∀ n effect answer, Decidable (admits n effect answer)] (moves : List NetMove)
    {p : Config Effect Answer Net Request (Except Error Outcome) → Bool}
    (h : (play (net httpOptions cuts admits) moves ⟨blankNet, none, []⟩).any p = true) :
    ∃ c, CutRun httpOptions cuts admits c ∧ p c = true := by
  obtain ⟨c, hplayed, hc⟩ := (Option.any_eq_true p _).mp h
  exact ⟨c, Reach.play (.start netBuilt_blankNet) hplayed, hc⟩

/-- A start whose instance runs, with its update delivered. -/
def started : List NetMove :=
  [.enter 0 (.start mihomoSpec) 22 (watched "rule"), .drift (.transition 0 (healthy 100)),
    .proceed 7 (watched "rule"), .finish, .drift (.read ⟨0, 1⟩), .drift (.deliver ⟨0, 1⟩ 0)]

/-- The status after a start. -/
theorem status_agrees_started : ∃ c active, NetRun httpOptions candid c ∧ c.active = none ∧
    c.state.world.ctrl.current = some active ∧ c.state.Agrees := by
  obtain ⟨c, hrun, hc⟩ := exists_cutRun (fun _ => False) candid started
    (p := fun c => c.active.isNone && c.state.world.ctrl.current.isSome) (by decide +kernel)
  simp only [Bool.and_eq_true, Option.isNone_iff_eq_none, Option.isSome_iff_exists] at hc
  obtain ⟨hfree, active, hcurrent⟩ := hc
  exact ⟨c, active, hrun, hfree, hcurrent, status_agrees hrun hfree⟩

/-- No step is refused. -/
def anyStep : Condition := fun _ _ _ => True

instance (n : Net) (effect : Effect) (answer : Answer effect) :
    Decidable (anyStep n effect answer) := inferInstanceAs (Decidable True)

/-- The pid record of an epoch cannot be looked up. -/
def unverifiable (n : Net) : (effect : Effect) → Answer effect
  | .tryExists _ => .error (.process "permission denied")
  | effect => watched "rule" n effect

/-- A graceful switch whose bootstrap fails and whose stop is not confirmed quarantines the
new epoch and publishes the error, while the old instance runs on. -/
theorem quarantined_beside_running : ∃ c, NetRun httpOptions anyStep c ∧ c.active = none ∧
    ¬ c.state.Agrees := by
  obtain ⟨c, hrun, hc⟩ := exists_cutRun (fun _ => False) anyStep (started ++
      [.enter 0 (.switch mihomoSpec) 31 (watched "rule"),
        .drift (.transition 1 ⟨.stopped (.error "bootstrap failed"), none⟩),
        .proceed 10 unverifiable, .finish])
    (p := fun c => c.active.isNone && c.state.world.ctrl.current.any fun active =>
      !(c.state.cells active.handle.id).value.state.isTerminal &&
        decide (c.state.Idle active.forwarder) && c.state.status.revision.isNone)
    (by decide +kernel)
  simp only [Bool.and_eq_true, Option.isNone_iff_eq_none, Option.any_eq_true,
    Bool.not_eq_true', decide_eq_true_eq] at hc
  obtain ⟨hfree, active, hcurrent, ⟨hlive, hidle⟩, hrevision⟩ := hc
  refine ⟨c, hrun, hfree, fun hagrees => ?_⟩
  have hspoken := (hagrees.current active hcurrent hlive hidle).1
  simp [hrevision] at hspoken

end Scripts

end Nyanpasu.Manager
