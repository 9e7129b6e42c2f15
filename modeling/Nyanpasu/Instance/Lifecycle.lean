import Nyanpasu.Instance.Publishing

/-!
# The end of an instance

After stopping an instance is stopped, once and for all, and neither state has a health. The
stop and the monitor write the status without a common lock, so this holds in the runs where
the monitor announces nothing over a stop, and the stop nothing over an end.
-/

namespace Nyanpasu.Instance

open Moves

variable {settings : Settings} {s s' : Sys}

section Statements

/-- The end of the documented state machine, for an entry after the ones before it. -/
structure Ordered (before : List Published) (p : Published) : Prop where
  /-- Only stopped follows stopping. -/
  stopping : ∀ q ∈ before, q.status.state = .stopping →
    p.status.state = .stopping ∨ p.status.state.isTerminal = true
  /-- Nothing follows stopped. -/
  final : ∀ q ∈ before, q.status.state.isTerminal = false
  health : p.status.state = .stopping ∨ p.status.state.isTerminal = true → p.status.health = none

/-- The published statuses end as documented, and a stop that succeeds leaves a stopped
instance. -/
structure EndsProperly (s : Sys) : Prop where
  published : Along Ordered s.history.published
  confirmed : s.stop = .done (.ok ()) →
    ∃ p ∈ s.history.published.head?, p.status.state.isTerminal = true

/-- The monitor is about to publish the status of a run. -/
def Phase.announces : Phase → Bool
  | .startedPublish _ _ _ _ | .restartingPublish _ _ | .ackPublish _ _ _ _ _
  | .healthPublish _ _ _ _ _ => true
  | _ => false

/-- The stop is about to publish that the instance is stopping. -/
def StopPhase.announces : StopPhase → Bool
  | .publishing => true
  | _ => false

/-- The monitor publishes no status of a run while the instance is stopping, and the stop does
not begin to publish when the instance has ended. -/
def Orderly (s : Sys) : Move → Bool
  | .monitor _ => !(s.phase.announces && s.status.state = .stopping)
  | .stop _ => !(s.stop.announces && s.status.state.isTerminal)
  | _ => true

end Statements

section Invariant

/-- The instance is stopping or stopped. -/
def Ending (state : InstanceState) : Prop := state = .stopping ∨ state.isTerminal = true

/-- A lifecycle that was read before the published one. -/
structure Older (lifecycle state : InstanceState) : Prop where
  stopping : lifecycle = .stopping → Ending state
  stopped : lifecycle.isTerminal = true → state.isTerminal = true

/-- A lifecycle that the monitor holds on to is not newer than the published one. -/
def Held (state : InstanceState) : Phase → Prop
  | .startedPublish _ _ _ lifecycle | .healthPublish _ _ _ _ lifecycle => Older lifecycle state
  | _ => True

/-- The monitor makes no more steps. -/
def Halted (s : Sys) : Prop := s.phase = .finished ∨ s.aborted = true

/-- What the stop knows. -/
def StopOk (s : Sys) : StopPhase → Prop
  | .verifying _ | .done (.ok ()) => s.status.state.isTerminal = true
  | .reading _ confirmed => Halted s ∧ (confirmed = true → s.phase = .finished)
  | .reaping _ terminal => Halted s ∧ s.status.state.isTerminal = terminal
  | .publishStopped => Halted s ∧ s.status.state.isTerminal = false
  | _ => True

/-- The invariant of orderly runs. -/
structure EndInv (s : Sys) : Prop where
  published : Along Ordered s.history.published
  stopping : ∀ q ∈ s.history.published, q.status.state = .stopping → Ending s.status.state
  stopped : ∀ q ∈ s.history.published, q.status.state.isTerminal = true →
    s.status.state.isTerminal = true
  shown : s.status.state.isTerminal = true → ∃ p ∈ s.history.published.head?, p.status = s.status
  halted : s.status.state.isTerminal = true → Halted s
  finished : s.phase = .finished → s.status.state.isTerminal = true
  phase : Held s.status.state s.phase
  stop : StopOk s s.stop

theorem EndInv.endsProperly (h : EndInv s) : EndsProperly s := by
  refine ⟨h.published, fun hstop => ?_⟩
  have hok := h.stop
  rw [hstop] at hok
  obtain ⟨p, hp, heq⟩ := h.shown hok
  exact ⟨p, hp, heq ▸ hok⟩

theorem held_of_plain {state : InstanceState} {phase : Phase} (h : phase.plain = true) :
    Held state phase := by
  cases phase <;> trivial

/-- Nothing is newer than an end. -/
theorem held_stopped (reason : StopReason) (phase : Phase) : Held (.stopped reason) phase := by
  unfold Held
  split <;> first | exact ⟨fun _ => .inr rfl, fun _ => rfl⟩ | trivial

end Invariant

section Steps

/-- While the monitor makes steps, the stop knows nothing that they could change. -/
theorem StopOk.live {stop : StopPhase} (h : StopOk s stop) (hlive : ¬ Halted s)
    (hnot : s.status.state.isTerminal = false) : StopOk s' stop := by
  unfold StopOk at h ⊢
  split at h
  · exact absurd (hnot.symm.trans h) nofun
  · exact absurd (hnot.symm.trans h) nofun
  · exact absurd h.1 hlive
  · exact absurd h.1 hlive
  · exact absurd h.1 hlive
  · trivial

theorem Older.refl (state : InstanceState) : Older state state := ⟨.inl, id⟩

/-- A step of the monitor that publishes nothing. -/
theorem EndInv.beside (h : EndInv s) (hlive : ¬ Halted s) (hbeside : Beside s s')
    (hfinished : s'.phase ≠ .finished) (hphase : Held s.status.state s'.phase) : EndInv s' := by
  have hnot : s.status.state.isTerminal = false := Bool.eq_false_iff.mpr (mt h.halted hlive)
  exact {
    published := hbeside.published ▸ h.published
    stopping := by rw [hbeside.published, hbeside.status]; exact h.stopping
    stopped := by rw [hbeside.published, hbeside.status]; exact h.stopped
    shown := by rw [hbeside.published, hbeside.status]; exact h.shown
    halted := fun hterminal => absurd ((hbeside.status ▸ hterminal).symm.trans hnot) nofun
    finished := fun hphase => absurd hphase hfinished
    phase := by rw [hbeside.status]; exact hphase
    stop := by rw [hbeside.stop]; exact h.stop.live hlive hnot }

/-- The monitor publishes the status of a run. -/
theorem EndInv.announced {source : Source} {status : InstanceStatus} (h : EndInv s)
    (hlive : ¬ Halted s) (horderly : s.status.state ≠ .stopping) (hwrote : Wrote s s' source status)
    (hstatus : ¬ Ending status.state) (hphase : s'.phase.plain = true) : EndInv s' := by
  have hnot : s.status.state.isTerminal = false := Bool.eq_false_iff.mpr (mt h.halted hlive)
  have hcalm : ¬ Ending s.status.state := fun hending =>
    hending.elim horderly fun hterminal => absurd (hterminal.symm.trans hnot) nofun
  have hold : ∀ q ∈ s.history.published, ¬ Ending q.status.state := fun q hq hending =>
    hending.elim (fun hstopping => hcalm (h.stopping q hq hstopping))
      fun hterminal => hcalm (.inr (h.stopped q hq hterminal))
  have hnew : ∀ q ∈ s'.history.published, ¬ Ending q.status.state := by
    rw [hwrote.published]
    intro q hq
    rcases List.mem_cons.mp hq with rfl | hq
    · exact hstatus
    · exact hold q hq
  exact {
    published := by
      rw [hwrote.published]
      exact ⟨⟨fun q hq hstopping => absurd (.inl hstopping) (hold q hq),
        fun q hq => Bool.eq_false_iff.mpr fun hterminal => hold q hq (.inr hterminal),
        fun hending => absurd hending hstatus⟩, h.published⟩
    stopping := fun q hq hstopping => absurd (.inl hstopping) (hnew q hq)
    stopped := fun q hq hterminal => absurd (.inr hterminal) (hnew q hq)
    shown := fun hterminal => absurd (.inr (hwrote.status ▸ hterminal)) hstatus
    halted := fun hterminal => absurd (.inr (hwrote.status ▸ hterminal)) hstatus
    finished := fun hfinished => by
      rw [hfinished] at hphase
      cases hphase
    phase := held_of_plain hphase
    stop := by
      rw [hwrote.stop]
      exact h.stop.live hlive hnot }

/-- An end is published. -/
theorem EndInv.ended {source : Source} {reason : StopReason} (h : EndInv s)
    (hnot : s.status.state.isTerminal = false) (hstatus : s'.status = ⟨.stopped reason, none⟩)
    (hpublished : s'.history.published = ⟨⟨.stopped reason, none⟩, source⟩ :: s.history.published)
    (hhalted : Halted s') (hstop : StopOk s' s'.stop) : EndInv s' := by
  have hterminal : s'.status.state.isTerminal = true := by rw [hstatus]; rfl
  exact {
    published := by
      rw [hpublished]
      exact ⟨⟨fun _ _ _ => .inr rfl, fun q hq => Bool.eq_false_iff.mpr fun hended =>
        absurd ((h.stopped q hq hended).symm.trans hnot) nofun, fun _ => rfl⟩, h.published⟩
    stopping := fun _ _ _ => .inr hterminal
    stopped := fun _ _ _ => hterminal
    shown := fun _ => ⟨_, by rw [hpublished]; rfl, hstatus.symm⟩
    halted := fun _ => hhalted
    finished := fun _ => hterminal
    phase := by rw [hstatus]; exact held_stopped reason s'.phase
    stop := hstop }

/-- What the monitor publishes keeps the order. -/
theorem EndInv.publishes {c : Choice} {source : Source} {status : InstanceStatus} (h : EndInv s)
    (hlive : ¬ Halted s) (horderly : Orderly s (.monitor c) = true)
    (hwrote : Wrote s s' source status) (hpublishes : Publishes s.phase source status s'.phase) :
    EndInv s' := by
  have hnot : s.status.state.isTerminal = false := Bool.eq_false_iff.mpr (mt h.halted hlive)
  have hheld := h.phase
  have hcalm (hannounces : s.phase.announces = true) : s.status.state ≠ .stopping := by
    simpa [Orderly, hannounces] using horderly
  have holder {lifecycle : InstanceState} (hcalm : s.status.state ≠ .stopping)
      (hlifecycle : Older lifecycle s.status.state) : ¬ Ending lifecycle := fun hending =>
    hending.elim (fun hstopping => (hlifecycle.stopping hstopping).elim hcalm
        fun hterminal => absurd (hterminal.symm.trans hnot) nofun)
      fun hterminal => absurd ((hlifecycle.stopped hterminal).symm.trans hnot) nofun
  have hended {reason : StopReason} (hstatus : status = ⟨.stopped reason, none⟩)
      (hfinished : s'.phase = .finished) : EndInv s' := by
    subst hstatus
    refine h.ended hnot hwrote.status hwrote.published (.inl hfinished) ?_
    rw [hwrote.stop]
    exact h.stop.live hlive hnot
  generalize hphase : s.phase = phase at hpublishes hheld
  generalize hphase' : s'.phase = phase' at hpublishes
  cases hpublishes with
  | started pid startedAt previous lifecycle clock =>
    have hcalm := hcalm (by rw [hphase]; rfl)
    exact h.announced hlive hcalm hwrote (holder hcalm hheld) (by rw [hphase']; rfl)
  | restarting attempt previous clock =>
    exact h.announced hlive (hcalm (by rw [hphase]; rfl)) hwrote
      (by simp [Ending, InstanceState.isTerminal])
      (by rw [hphase']; rfl)
  | acknowledged pid o update context previous =>
    exact h.announced hlive (hcalm (by rw [hphase]; rfl)) hwrote
      (by simp [Ending, InstanceState.isTerminal])
      (by rw [hphase']; rfl)
  | observed o update context previous lifecycle =>
    have hcalm := hcalm (by rw [hphase]; rfl)
    exact h.announced hlive hcalm hwrote (holder hcalm hheld)
      (by rw [hphase']; exact Phase.plain_resume context)
  | gaveUp detail => exact hended rfl hphase'
  | terminal reason => exact hended rfl hphase'

/-- An orderly step of the monitor keeps the order. -/
theorem EndInv.monitor {c : Choice} (h : EndInv s) (hlive : ¬ Halted s)
    (horderly : Orderly s (.monitor c) = true) (hcase : MonitorCase settings s s') : EndInv s' := by
  cases hcase with
  | plain hbeside hphase =>
    refine h.beside hlive hbeside (fun hfinished => ?_) (held_of_plain hphase)
    rw [hfinished] at hphase
    cases hphase
  | took o run hbeside htakes hwent =>
    have hboth : s'.phase ≠ .finished ∧ Held s.status.state s'.phase := by
      generalize s'.phase = phase at hwent
      cases hwent <;> exact ⟨nofun, trivial⟩
    exact h.beside hlive hbeside hboth.1 hboth.2
  | passed hbeside hpassed =>
    have hboth : s'.phase ≠ .finished ∧ Held s.status.state s'.phase := by
      generalize s.phase = phase at hpassed
      generalize s'.phase = phase' at hpassed
      cases hpassed with
      | startedHealth => exact ⟨nofun, .refl _⟩
      | healthLifecycle => exact ⟨nofun, .refl _⟩
      | _ => exact ⟨nofun, trivial⟩
    exact h.beside hlive hbeside hboth.1 hboth.2
  | wrote source status hwrote hpublishes => exact h.publishes hlive horderly hwrote hpublishes

/-- A move that leaves the status and the monitor alone. -/
theorem EndInv.aside (h : EndInv s) (hstatus : s'.status = s.status)
    (hpublished : s'.history.published = s.history.published) (hphase : s'.phase = s.phase)
    (haborted : s.aborted = true → s'.aborted = true) (hstop : StopOk s' s'.stop) : EndInv s' where
  published := hpublished ▸ h.published
  stopping := by rw [hpublished, hstatus]; exact h.stopping
  stopped := by rw [hpublished, hstatus]; exact h.stopped
  shown := by rw [hpublished, hstatus]; exact h.shown
  halted := fun hterminal => by
    have hhalted := h.halted (hstatus ▸ hterminal)
    rw [Halted, hphase]
    exact hhalted.imp_right haborted
  finished := by rw [hphase, hstatus]; exact h.finished
  phase := by rw [hphase, hstatus]; exact h.phase
  stop := hstop

theorem EndInv.enterStop {stop : StopPhase} (h : EndInv s) (hstop : StopOk s stop) :
    EndInv (s.enterStop stop) := by
  refine h.aside rfl rfl rfl id ?_
  change StopOk (s.enterStop stop) stop
  unfold StopOk at hstop ⊢
  split at hstop <;> exact hstop

/-- The stop publishes that the instance is stopping. -/
theorem EndInv.stopping_published (h : EndInv s) (hnot : s.status.state.isTerminal = false) :
    EndInv ((s.publish .stop .stopping).enterStop .locking) where
  published := ⟨⟨fun _ _ _ => .inl rfl, fun q hq => Bool.eq_false_iff.mpr fun hended =>
    absurd ((h.stopped q hq hended).symm.trans hnot) nofun, fun _ => rfl⟩, h.published⟩
  stopping := fun _ _ _ => .inl rfl
  stopped := fun q hq hterminal => by
    rcases List.mem_cons.mp hq with rfl | hq
    · exact hterminal
    · exact absurd ((h.stopped q hq hterminal).symm.trans hnot) nofun
  shown := nofun
  halted := nofun
  finished := fun hfinished => absurd ((h.finished hfinished).symm.trans hnot) nofun
  phase := by
    have hheld := h.phase
    change Held .stopping s.phase
    unfold Held at hheld ⊢
    split at hheld
    · exact ⟨fun _ => .inl rfl, fun hterminal =>
        absurd ((hheld.stopped hterminal).symm.trans hnot) nofun⟩
    · exact ⟨fun _ => .inl rfl, fun hterminal =>
        absurd ((hheld.stopped hterminal).symm.trans hnot) nofun⟩
    · trivial
  stop := trivial

/-- The answer of the reaper keeps the order. -/
theorem EndInv.reap {c : StopChoice} {error : String} {terminal : Bool} (h : EndInv s)
    (hstop : s.stop = .reaping error terminal) : EndInv (s.reap c error terminal) := by
  have hok := h.stop
  rw [hstop] at hok
  unfold Sys.reap
  split
  · exact h.enterStop trivial
  split
  · exact h.enterStop trivial
  split
  · exact h.enterStop trivial
  split
  · cases terminal with
    | true => exact h.enterStop hok.2
    | false => exact h.enterStop hok
  · exact h.enterStop trivial

/-- An orderly step of the stop keeps the order. -/
theorem EndInv.stopStep {c : StopChoice} (h : EndInv s) (horderly : Orderly s (.stop c) = true)
    (hstep : s.stopStep c = some s') : EndInv s' := by
  have hok := h.stop
  cases hstop : s.stop with
  | unrequested => simp [Sys.stopStep, hstop] at hstep
  | begun =>
    simp only [Sys.stopStep, hstop] at hstep
    split at hstep <;> obtain rfl := Option.some.inj hstep
    · rename_i hterminal
      exact h.enterStop hterminal
    · exact h.enterStop trivial
  | verifying context =>
    rw [hstop] at hok
    simp only [Sys.stopStep, hstop] at hstep
    split at hstep <;> obtain rfl := Option.some.inj hstep
    · exact h.enterStop hok
    · exact h.enterStop trivial
  | storing =>
    simp only [Sys.stopStep, hstop] at hstep
    obtain rfl := Option.some.inj hstep
    exact h.aside rfl rfl rfl id trivial
  | cancelling =>
    simp only [Sys.stopStep, hstop] at hstep
    obtain rfl := Option.some.inj hstep
    exact h.aside rfl rfl rfl id trivial
  | publishing =>
    simp only [Sys.stopStep, hstop] at hstep
    obtain rfl := Option.some.inj hstep
    exact h.stopping_published (by simpa [Orderly, hstop, StopPhase.announces] using horderly)
  | locking =>
    simp only [Sys.stopStep, hstop] at hstep
    split at hstep
    · cases hstep
    · obtain rfl := Option.some.inj hstep
      exact h.aside rfl rfl rfl id trivial
  | stopping present =>
    simp only [Sys.stopStep, hstop] at hstep
    obtain rfl := Option.some.inj hstep
    exact h.enterStop trivial
  | joining result =>
    simp only [Sys.stopStep, hstop] at hstep
    split at hstep
    · rename_i hfinished
      obtain rfl := Option.some.inj hstep
      exact h.enterStop ⟨.inl hfinished, fun _ => hfinished⟩
    · obtain ⟨-, heq⟩ := Option.ite_none_right_eq_some.mp hstep
      obtain rfl := Option.some.inj heq
      exact h.enterStop trivial
  | aborting result =>
    simp only [Sys.stopStep, hstop] at hstep
    obtain rfl := Option.some.inj hstep
    exact h.aside rfl rfl rfl (fun _ => rfl) ⟨.inr rfl, nofun⟩
  | reading result confirmed =>
    rw [hstop] at hok
    simp only [Sys.stopStep, hstop] at hstep
    split at hstep
    · split at hstep <;> obtain rfl := Option.some.inj hstep
      · rename_i hconfirmed
        rw [Bool.or_eq_true] at hconfirmed
        exact h.enterStop (hconfirmed.elim (fun htrue => h.finished (hok.2 htrue)) id)
      · exact h.enterStop ⟨hok.1, rfl⟩
    · obtain rfl := Option.some.inj hstep
      exact h.enterStop ⟨hok.1, rfl⟩
  | reaping error terminal =>
    simp only [Sys.stopStep, hstop] at hstep
    obtain rfl := Option.some.inj hstep
    exact h.reap hstop
  | publishStopped =>
    rw [hstop] at hok
    simp only [Sys.stopStep, hstop] at hstep
    obtain rfl := Option.some.inj hstep
    exact h.ended hok.2 rfl rfl hok.1 rfl
  | done result => simp [Sys.stopStep, hstop] at hstep

/-- An orderly move keeps the order. -/
theorem EndInv.step {m : Move} (h : EndInv s) (horderly : Orderly s m = true)
    (hstep : s.step settings m = some s') : EndInv s' := by
  cases step_cases hstep with
  | monitor c haborted hphase hcase =>
    have hlive : ¬ Halted s := fun hhalted => hhalted.elim hphase fun htrue =>
      absurd (haborted.symm.trans htrue) nofun
    exact h.monitor hlive horderly hcase
  | callStop hstop heq =>
    subst heq
    exact h.enterStop trivial
  | stop c hstop => exact h.stopStep horderly hstop
  | beside m hbeside hphase =>
    refine h.aside hbeside.status hbeside.published hphase (by rw [hbeside.aborted]; exact id) ?_
    have hok := h.stop
    rw [hbeside.stop]
    unfold StopOk Halted at hok ⊢
    rwa [hbeside.status, hphase, hbeside.aborted]

/-- The order holds when an instance is spawned. -/
theorem Sys.Spawned.endInv (h : s.Spawned) : EndInv s where
  published := by rw [h.history]; trivial
  stopping := by simp [h.history]
  stopped := by simp [h.history]
  shown := by simp [h.status.1, InstanceState.isTerminal]
  halted := by simp [h.status.1, InstanceState.isTerminal]
  finished := by simp [h.phase]
  phase := by rw [h.phase]; trivial
  stop := by rw [h.stop]; trivial

end Steps

/-- The stop has succeeded. -/
def StopPhase.succeeded : StopPhase → Bool
  | .done (.ok ()) => true
  | _ => false

end Nyanpasu.Instance
