import Nyanpasu.Instance.Publishing
import Nyanpasu.Instance.Readiness

/-!
# Lifecycle and health

While an instance starts or restarts, its health should be starting, and it begins to run as
healthy. The monitor publishes every verdict of the tracker next to the lifecycle of the
moment, so the pairing depends on the probes: it is kept as long as no verdict is reached
before the run is acknowledged.
-/

namespace Nyanpasu.Instance

open Moves

variable {settings : Settings} {s s' : Sys} {run : RunState} {o : Observation}

section Statements

/-- The lifecycle of an instance that is not ready. -/
def waiting : InstanceState → Bool
  | .starting | .restarting _ => true
  | _ => false

/-- A status with a health state. -/
def Shows (status : InstanceStatus) (state : HealthState) : Prop :=
  status.health.map (·.state) = some state

/-- An acknowledged process is shown as healthy. -/
structure FirstRunning (pid : ℕ) (p : Published) : Prop where
  state : p.status.state = .running pid
  source : ∃ o, p.source = .acknowledged o
  healthy : Shows p.status .healthy

/-- The documented pairing of an entry, after the ones before it. -/
structure Paired (before : List Published) (p : Published) : Prop where
  waiting : waiting p.status.state = true → Shows p.status .starting
  /-- The publication of an acknowledged run is healthy, -/
  acknowledged : ∀ o, p.source = .acknowledged o → Shows p.status .healthy
  /-- and no process is shown as running before. -/
  running : ∀ pid, p.status.state = .running pid → ∃ q ∈ p :: before, FirstRunning pid q

/-- The tracker is not at its threshold after the observation. -/
def HealthTracker.tolerates (tracker : HealthTracker) (o : Observation) : Bool :=
  match o.result with
  | .healthy => true
  | .unhealthy _ =>
      (!tracker.graceEnded && o.completedAt < tracker.startedAt + tracker.policy.startPeriod) ||
        saturatingSucc tracker.consecutiveFailures < tracker.policy.failureThreshold

/-- Nobody asks the instance to stop. -/
def Move.unstopped : Move → Bool
  | .callStop => false
  | _ => true

/-- Nobody asks the instance to stop, and an observation that is taken while the instance is
not ready neither brings the failures to their threshold nor comes after a refused
acknowledgement. -/
def Calm (settings : Settings) (s : Sys) : Move → Bool
  | .callStop => false
  | .monitor _ =>
      match s.observations.head?, s.vars.current with
      | some o, some run =>
          !s.phase.takes || !o.applies run || s.vars.late settings o || !waiting s.status.state ||
            (run.tracker.state = .starting && run.tracker.tolerates o)
      | _, _ => true
  | _ => true

end Statements

section Invariant

/-- What the monitor holds on to. -/
def Carried (state : InstanceState) : Phase → Prop
  | .startedPublish _ _ _ lifecycle => lifecycle = state
  | .ackLock _ update _ | .ackCall _ update _ | .ackHealth _ _ update _
  | .ackPublish _ _ update _ _ =>
      update.state = .healthy
  | .healthRead _ update _ | .healthLifecycle _ update _ _ =>
      waiting state = true → update.state = .starting
  | .healthPublish _ update _ _ lifecycle =>
      lifecycle = state ∧ (waiting state = true → update.state = .starting)
  | _ => True

/-- The invariant of calm runs. -/
structure Calmed (s : Sys) : Prop where
  stop : s.stop = .unrequested
  published : Along Paired s.history.published
  status : waiting s.status.state = true → Shows s.status .starting
  running : ∀ pid, s.status.state = .running pid → ∃ q ∈ s.history.published, FirstRunning pid q
  phase : Carried s.status.state s.phase

theorem carried_of_plain {state : InstanceState} {phase : Phase} (h : phase.plain = true) :
    Carried state phase := by
  cases phase <;> trivial

/-- A tolerated observation does not make a starting tracker unhealthy. -/
theorem HealthTracker.observe_tolerates {tracker : HealthTracker}
    (hstate : tracker.state = .starting) (h : tracker.tolerates o = true) :
    (tracker.observe o.completedAt o.result).state ≠ .unhealthy := by
  unfold HealthTracker.tolerates at h
  unfold HealthTracker.observe
  cases hresult : o.result with
  | healthy =>
    simp only [HealthTracker.succeed, hstate]
    split
    · simp
    · split <;> simp
  | unhealthy detail =>
    rw [hresult] at h
    simp only [HealthTracker.fail]
    split
    · simp [hstate]
    · rename_i hgrace
      have hbelow : saturatingSucc tracker.consecutiveFailures <
          tracker.policy.failureThreshold := by
        simpa [hgrace] using h
      rw [if_neg (by simp only [not_and, Nat.not_le]; exact fun _ => hbelow)]
      simp [hstate]

/-- The verdict of an admitted observation. -/
theorem verdict_of_calm {c : Choice} (h : Calm settings s (.monitor c) = true)
    (htakes : Takes settings s o run) (hwaiting : waiting s.status.state = true) :
    run.tracker.state = .starting ∧
      (run.tracker.observe o.completedAt o.result).state ≠ .unhealthy := by
  unfold Calm at h
  rw [htakes.queue, htakes.current] at h
  simp only [htakes.phase, htakes.applies, htakes.late, hwaiting, Bool.not_true, Bool.false_or,
    Bool.and_eq_true, decide_eq_true_eq] at h
  exact ⟨h.1, HealthTracker.observe_tolerates h.1 h.2⟩

end Invariant

section Steps

/-- A step that publishes nothing. -/
theorem Calmed.beside (h : Calmed s) (hbeside : Beside s s')
    (hphase : Carried s.status.state s'.phase) : Calmed s' where
  stop := hbeside.stop.trans h.stop
  published := hbeside.published ▸ h.published
  status := hbeside.status ▸ h.status
  running := by
    rw [hbeside.status, hbeside.published]
    exact h.running
  phase := by
    rw [hbeside.status]
    exact hphase

/-- A step that publishes an entry. -/
theorem Calmed.wrote {source : Source} {status : InstanceStatus} (h : Calmed s)
    (hwrote : Wrote s s' source status) (hpaired : Paired s.history.published ⟨status, source⟩)
    (hphase : Carried status.state s'.phase) : Calmed s' where
  stop := hwrote.stop.trans h.stop
  published := by
    rw [hwrote.published]
    exact ⟨hpaired, h.published⟩
  status := by
    rw [hwrote.status]
    exact hpaired.waiting
  running := by
    rw [hwrote.status, hwrote.published]
    exact hpaired.running
  phase := by
    rw [hwrote.status]
    exact hphase

/-- The observation that was taken is carried on. -/
theorem Calmed.took {c : Choice} (h : Calmed s) (hinv : Inv settings s)
    (hcalm : Calm settings s (.monitor c) = true) (hbeside : Beside s s')
    (htakes : Takes settings s o run) (hwent : Went o run s'.phase) : Calmed s' := by
  refine h.beside hbeside ?_
  generalize s'.phase = phase at hwent
  cases hwent with
  | acknowledge update context hupdate hattempted hhealthy => exact hhealthy
  | observe update context hupdate hnot =>
    intro hwaiting
    obtain ⟨hstate, hverdict⟩ := verdict_of_calm hcalm htakes hwaiting
    have hfree := (hinv.current run htakes.current).attempt hstate
    subst hupdate
    have hunhealthy := hnot.resolve_left (by simp [hfree])
    simp only [HealthTracker.update] at hunhealthy ⊢
    cases hcase : (run.tracker.observe o.completedAt o.result).state with
    | starting => rfl
    | healthy => exact absurd hcase hunhealthy
    | unhealthy => exact absurd hcase hverdict

theorem Calmed.passed (h : Calmed s) (hbeside : Beside s s')
    (hpassed : Passed s.status.state s.phase s'.phase) : Calmed s' := by
  refine h.beside hbeside ?_
  have hphase := h.phase
  generalize s.phase = phase at hpassed hphase
  generalize s'.phase = phase' at hpassed
  cases hpassed with
  | startedHealth => rfl
  | ackLock => exact hphase
  | ackCall => exact hphase
  | ackHealth => exact hphase
  | healthRead => exact hphase
  | healthLifecycle => exact ⟨rfl, hphase⟩

/-- What the monitor publishes is paired. -/
theorem Calmed.publishes {source : Source} {status : InstanceStatus} (h : Calmed s)
    (hwrote : Wrote s s' source status) (hpublishes : Publishes s.phase source status s'.phase) :
    Calmed s' := by
  have hphase := h.phase
  have hrunning {pid : ℕ} {p : Published} (hstate : s.status.state = .running pid) :
      ∃ q ∈ p :: s.history.published, FirstRunning pid q := by
    obtain ⟨q, hq, hfirst⟩ := h.running pid hstate
    exact ⟨q, List.mem_cons_of_mem _ hq, hfirst⟩
  suffices hboth : Paired s.history.published ⟨status, source⟩ ∧ Carried status.state s'.phase from
    h.wrote hwrote hboth.1 hboth.2
  generalize s.phase = phase at hpublishes hphase
  generalize s'.phase = phase' at hpublishes
  cases hpublishes with
  | started pid startedAt previous lifecycle clock =>
    obtain rfl : lifecycle = s.status.state := hphase
    exact ⟨⟨fun _ => rfl, nofun, fun pid hstate => hrunning hstate⟩, trivial⟩
  | restarting attempt previous clock =>
    exact ⟨⟨fun _ => rfl, nofun, nofun⟩, trivial⟩
  | acknowledged pid o update context previous =>
    have hhealthy : Shows ⟨.running pid, some (healthStatus previous update o)⟩ .healthy := by
      have hstate : update.state = .healthy := hphase
      simp [Shows, healthStatus, hstate, TrackerState.health]
    refine ⟨⟨nofun, fun _ _ => hhealthy, fun other hother => ?_⟩, trivial⟩
    obtain rfl := InstanceState.running.inj hother
    exact ⟨_, List.mem_cons_self, rfl, ⟨o, rfl⟩, hhealthy⟩
  | observed o update context previous lifecycle =>
    obtain ⟨rfl, hupdate⟩ := hphase
    refine ⟨⟨fun hwaiting => ?_, nofun, fun pid hstate => hrunning hstate⟩,
      carried_of_plain (Phase.plain_resume context)⟩
    simp [Shows, healthStatus, hupdate hwaiting, TrackerState.health]
  | gaveUp detail => exact ⟨⟨nofun, nofun, nofun⟩, trivial⟩
  | terminal reason => exact ⟨⟨nofun, nofun, nofun⟩, trivial⟩

/-- A calm move keeps the pairing. -/
theorem Calmed.step {m : Move} (h : Calmed s) (hinv : Inv settings s)
    (hcalm : Calm settings s m = true) (hstep : s.step settings m = some s') : Calmed s' := by
  cases step_cases hstep with
  | monitor c _ _ hcase =>
    cases hcase with
    | plain hbeside hphase => exact h.beside hbeside (carried_of_plain hphase)
    | took o run hbeside htakes hwent => exact h.took hinv hcalm hbeside htakes hwent
    | passed hbeside hpassed => exact h.passed hbeside hpassed
    | wrote source status hwrote hpublishes => exact h.publishes hwrote hpublishes
  | callStop hstop heq => cases hcalm
  | stop c hstop =>
    rw [Sys.stopStep, h.stop] at hstop
    cases hstop
  | beside m hbeside hphase =>
    refine h.beside hbeside ?_
    rw [hphase]
    exact h.phase

/-- The pairing holds when an instance is spawned. -/
theorem Sys.Spawned.calmed (h : s.Spawned) : Calmed s where
  stop := h.stop
  published := by
    rw [h.history]
    trivial
  status := fun _ => h.status.2
  running := fun pid hpid => absurd (h.status.1.symm.trans hpid) nofun
  phase := by
    rw [h.phase]
    trivial

end Steps

end Nyanpasu.Instance
