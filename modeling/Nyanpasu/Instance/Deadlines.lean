import Nyanpasu.Instance.Probes

/-!
# Deadlines and the range of instants

Four sums of an instant and a duration are computed for an instance: the initial deadline when
it is spawned, the deadline of a run after the first readiness, the next probe of a driver, and
the end of the grace period when a probe fails. The durations are the caller's, and a sum beyond
the last instant panics. Here every move of the instance is put together with the sums that it
computes.
-/

namespace Nyanpasu.Instance

open Moves

/-- The last instant of a 64-bit Unix, in nanoseconds: seconds are an `i64`. -/
def instantMax : ℕ := 2 ^ 63 * 10 ^ 9 - 1

/-- `Duration::MAX`, in nanoseconds: seconds are a `u64`. -/
def durationMax : ℕ := 2 ^ 64 * 10 ^ 9 - 1

/-- An evaluation of `Instant + Duration`. -/
structure Addition where
  instant : ℕ
  duration : ℕ
  deriving DecidableEq, Repr

/-- The sum does not panic. -/
def Addition.InRange (addition : Addition) : Prop :=
  addition.instant + addition.duration ≤ instantMax

instance (addition : Addition) : Decidable addition.InRange :=
  inferInstanceAs (Decidable (_ ≤ _))

/-- The sums of `HealthTracker::observe`: `grace_ended` is checked first. -/
def HealthTracker.additions (tracker : HealthTracker) : ProbeResult → List Addition
  | .healthy => []
  | .unhealthy _ =>
      if tracker.graceEnded then [] else [⟨tracker.startedAt, tracker.policy.startPeriod⟩]

/-- The sums of `apply_probe_observation`. -/
def Sys.observeAdditions (settings : Settings) (s : Sys) (observation : Observation) :
    List Addition :=
  match s.vars.current with
  | none => []
  | some run =>
      if !observation.applies run || s.vars.late settings observation then []
      else run.tracker.additions observation.result

/-- The sums of a step of the monitor. -/
def Sys.monitorAdditions (settings : Settings) (s : Sys) : List Addition :=
  match s.phase with
  | .startedRun _ _ => if s.vars.everReady then [⟨s.now, settings.startupTimeout⟩] else []
  | .pollObservations | .drain _ _ _ =>
      match s.observations with
      | observation :: _ => s.observeAdditions settings observation
      | [] => []
  | _ => []

namespace Probing

/-- What the driver of a run was probing for last. -/
def lastPurpose (p : Probing) (run : ℕ) : Option Purpose :=
  p.log.findSome? fun event =>
    match event with
    | .began attempt => if attempt.run = run then some attempt.purpose else none
    | _ => none

/-- The sums of a step of a driver: `next_probe` is set when the driver turns to liveness, and
after every attempt of the timer, whether it was answered or cancelled. -/
def taskAdditions (settings : Settings) (p : Probing) (run : ℕ) : List Addition :=
  let next : Addition := ⟨p.sys.now, settings.health.interval⟩
  match p.tasks run with
  | none => []
  | some task =>
    match task.stage with
    | .pollCommands =>
        match task.commands with
        | .useLiveness :: _ => [next]
        | _ => []
    | .attemptCancel (.periodic _) => if task.cancelled then [next] else []
    | .observe _ =>
        match p.lastPurpose run with
        | some (.periodic _) => [next]
        | _ => []
    | _ => []

/-- The sums of a move. -/
def additions (settings : Settings) (p : Probing) : ProbingMove → List Addition
  | .sys (.monitor _) => p.sys.monitorAdditions settings
  | .task run _ => p.taskAdditions settings run
  | _ => []

end Probing

/-- An instance with the sums computed for it so far, newest first. -/
structure Clocked where
  probing : Probing
  additions : List Addition

/-- One move, with its sums. -/
def Clocked.step (settings : Settings) (plan : Plan) (c : Clocked) (move : ProbingMove) :
    Option Clocked :=
  (c.probing.step settings plan move).map fun probing =>
    ⟨probing, c.probing.additions settings move ++ c.additions⟩

/-- `spawn_configured` has computed the initial deadline. -/
structure Clocked.Spawned (settings : Settings) (c : Clocked) : Prop where
  probing : c.probing.Spawned
  deadline : ∃ instant ≤ c.probing.sys.now,
    settings.initialDeadline = instant + settings.startupTimeout ∧
      c.additions = [⟨instant, settings.startupTimeout⟩]

/-- Every duration fits between the clock and the last instant. -/
def Clocked.HasRoom (settings : Settings) (c : Clocked) : Prop :=
  c.probing.sys.now + settings.startupTimeout ≤ instantMax ∧
    c.probing.sys.now + settings.health.interval ≤ instantMax ∧
    c.probing.sys.now + settings.health.startPeriod ≤ instantMax

/-- There was room when the initial deadline was computed. -/
structure Clocked.SpawnedWithRoom (settings : Settings) (c : Clocked) : Prop where
  spawned : c.Spawned settings
  room : c.HasRoom settings

section Dates

variable {settings : Settings} {plan : Plan} {s s' : Sys} {p p' : Probing}

/-- The instant at which a new run was seen, while it is being entered. -/
def Phase.startedAt? : Phase → Option ℕ
  | .startedHealth _ startedAt _ | .startedPublish _ startedAt _ _
  | .startedRun _ startedAt => some startedAt
  | _ => none

/-- Runs have started in the past, with the policy of the instance. -/
structure Sys.Dated (settings : Settings) (s : Sys) : Prop where
  phase : ∀ startedAt, s.phase.startedAt? = some startedAt → startedAt ≤ s.now
  run : ∀ run, s.vars.current = some run →
    run.tracker.policy = settings.health ∧ run.tracker.startedAt ≤ s.now

theorem HealthTracker.observe_frame (tracker : HealthTracker) (now : ℕ) (result : ProbeResult) :
    (tracker.observe now result).policy = tracker.policy ∧
      (tracker.observe now result).startedAt = tracker.startedAt := by
  cases result with
  | healthy =>
    simp only [HealthTracker.observe, HealthTracker.succeed]
    split
    · exact ⟨rfl, rfl⟩
    · split <;> exact ⟨rfl, rfl⟩
  | unhealthy detail =>
    simp only [HealthTracker.observe, HealthTracker.fail]
    split
    · exact ⟨rfl, rfl⟩
    · split <;> exact ⟨rfl, rfl⟩

/-- A step that enters no run and keeps the dates of the current one. -/
theorem Sys.Dated.keep (h : s.Dated settings) (hnow : s.now ≤ s'.now)
    (hphase : ∀ startedAt, s'.phase.startedAt? = some startedAt →
      s.phase.startedAt? = some startedAt)
    (hrun : ∀ run', s'.vars.current = some run' → ∃ run, s.vars.current = some run ∧
      run'.tracker.policy = run.tracker.policy ∧
      run'.tracker.startedAt = run.tracker.startedAt) : s'.Dated settings where
  phase := fun startedAt hstarted => (h.phase startedAt (hphase startedAt hstarted)).trans hnow
  run := by
    intro run' hrun'
    obtain ⟨run, hcurrent, hpolicy, hstarted⟩ := hrun run' hrun'
    obtain ⟨hp, hs⟩ := h.run run hcurrent
    exact ⟨hpolicy.trans hp, hstarted ▸ hs.trans hnow⟩

theorem Sys.Dated.same (h : s.Dated settings) (hnow : s.now ≤ s'.now)
    (hphase : ∀ startedAt, s'.phase.startedAt? = some startedAt →
      s.phase.startedAt? = some startedAt)
    (hvars : s'.vars.current = s.vars.current) : s'.Dated settings :=
  h.keep hnow hphase fun run' hrun' => ⟨run', hvars ▸ hrun', rfl, rfl⟩

theorem startedAt?_resume (context : Context) : (Sys.resume context).startedAt? = none := by
  cases context <;> rfl

theorem Sys.Dated.applyObservation (h : s.Dated settings) {o : Observation}
    {observations : List Observation} {context : Context} :
    (Sys.applyObservation settings { s with observations } o context).Dated settings := by
  have hresume : ({ s with observations, phase := Sys.resume context } : Sys).Dated settings :=
    h.same (le_refl _) (by simp [startedAt?_resume]) rfl
  unfold Sys.applyObservation
  cases hcurrent : s.vars.current with
  | none => exact hresume
  | some run =>
    simp only
    split
    · exact hresume
    · obtain ⟨hpolicy, hstarted⟩ := run.tracker.observe_frame o.completedAt o.result
      simp only [Sys.applyTo]
      split
      all_goals
        refine h.keep (le_refl _) (by rintro _ ⟨⟩) fun run' hrun' => ?_
        obtain rfl := Option.some.inj hrun'
        exact ⟨run, hcurrent, hpolicy, hstarted⟩

theorem Sys.Dated.driverStopped (h : s.Dated settings) (next : AfterStop) :
    (s.driverStopped next).Dated settings := by
  cases next with
  | started pid =>
    refine ⟨fun startedAt hstarted => ?_, h.run⟩
    obtain rfl := Option.some.inj hstarted
    exact le_refl s.now
  | cancelled => exact ⟨by rintro _ ⟨⟩, by rintro _ ⟨⟩⟩
  | restarting attempt => exact ⟨by rintro _ ⟨⟩, by rintro _ ⟨⟩⟩
  | exited payload => exact ⟨by rintro _ ⟨⟩, by rintro _ ⟨⟩⟩
  | gaveUp => exact ⟨by rintro _ ⟨⟩, h.run⟩
  | stopped => exact ⟨by rintro _ ⟨⟩, h.run⟩
  | timedOut => exact ⟨by rintro _ ⟨⟩, h.run⟩

theorem Sys.Dated.pollTimer (h : s.Dated settings) {timer : Timer} {fires : Bool} {next : Phase}
    (hnext : next.startedAt? = none) : (s.pollTimer settings timer fires next).Dated settings := by
  have henter : (s.enter next).Dated settings := h.same (le_refl _) (by simp [Sys.enter, hnext]) rfl
  unfold Sys.pollTimer
  split
  · split
    · exact h.same (le_refl _) (by rintro _ ⟨⟩) rfl
    · exact henter
  · exact henter

theorem Sys.Dated.monitorStep (h : s.Dated settings) {c : Choice}
    (hstep : s.monitorStep settings c = some s') : s'.Dated settings := by
  have hkeep : ∀ {s' : Sys}, s'.phase.startedAt? = none → s'.now = s.now →
      s'.vars.current = s.vars.current → s'.Dated settings := fun hphase hnow hcurrent =>
    h.same hnow.ge (by simp [hphase]) hcurrent
  cases hphase : s.phase with
  | pollEvents =>
    simp only [Sys.monitorStep, hphase] at hstep
    split at hstep
    · rename_i event events _
      obtain rfl := Option.some.inj hstep
      cases event <;> exact hkeep rfl rfl rfl
    · split at hstep <;> obtain rfl := Option.some.inj hstep <;> exact hkeep rfl rfl rfl
  | pollInitial | pollRespawn =>
    simp only [Sys.monitorStep, hphase, Option.some.injEq] at hstep
    exact hstep ▸ h.pollTimer rfl
  | pollRequests =>
    simp only [Sys.monitorStep, hphase] at hstep
    split at hstep <;> obtain rfl := Option.some.inj hstep
    · refine hkeep rfl ?_ ?_
      all_goals
        simp only [Sys.handleRequest, Sys.enter]
        split
        · split <;> rfl
        · rfl
    · exact hkeep rfl rfl rfl
  | pollObservations =>
    simp only [Sys.monitorStep, hphase] at hstep
    split at hstep <;> obtain rfl := Option.some.inj hstep
    · exact h.applyObservation
    · exact hkeep rfl rfl rfl
  | stopDriver next =>
    simp only [Sys.monitorStep, hphase, Option.ite_none_right_eq_some, Option.some.injEq] at hstep
    exact hstep.2 ▸ h.driverStopped next
  | startedHealth pid startedAt previous =>
    simp only [Sys.monitorStep, hphase, Option.some.injEq] at hstep
    subst hstep
    exact h.same (le_refl _) (by simp [Sys.enter, hphase, Phase.startedAt?]) rfl
  | startedPublish pid startedAt previous lifecycle =>
    simp only [Sys.monitorStep, hphase, Option.some.injEq] at hstep
    subst hstep
    exact h.same (le_refl _) (by simp [Sys.enter, hphase, Phase.startedAt?]) rfl
  | startedRun pid startedAt =>
    simp only [Sys.monitorStep, hphase, Option.some.injEq] at hstep
    subst hstep
    refine ⟨by rintro _ ⟨⟩, fun run hrun => ?_⟩
    obtain rfl := Option.some.inj hrun
    exact ⟨rfl, h.phase startedAt (by simp [hphase, Phase.startedAt?])⟩
  | drain timer queued rest =>
    simp only [Sys.monitorStep, hphase] at hstep
    split at hstep <;> obtain rfl := Option.some.inj hstep
    · exact h.applyObservation
    · unfold Sys.declare
      split
      · exact hkeep rfl rfl rfl
      · exact ⟨by rintro _ ⟨⟩, by rintro _ ⟨⟩⟩
  | ackCall o update context =>
    simp only [Sys.monitorStep, hphase] at hstep
    obtain ⟨run, hrun, rfl⟩ := Option.map_eq_some_iff.mp hstep
    simp only [Sys.acknowledge]
    split
    · refine h.keep (le_refl _) (by rintro _ ⟨⟩) fun run' hrun' => ?_
      obtain rfl := Option.some.inj hrun'
      exact ⟨run, hrun, rfl, rfl⟩
    · exact hkeep (startedAt?_resume context) rfl rfl
  | pollCancel =>
    simp only [Sys.monitorStep, hphase] at hstep
    split at hstep <;> obtain rfl := Option.some.inj hstep <;> exact hkeep rfl rfl rfl
  | healthPublish o update context previous lifecycle =>
    simp only [Sys.monitorStep, hphase, Option.some.injEq] at hstep
    subst hstep
    exact hkeep (startedAt?_resume context) rfl rfl
  | finished => simp [Sys.monitorStep, hphase] at hstep
  | _ =>
    simp only [Sys.monitorStep, hphase, Option.some.injEq] at hstep
    subst hstep
    exact hkeep rfl rfl rfl

theorem Sys.Dated.step (h : s.Dated settings) {move : Move}
    (hstep : s.step settings move = some s') : s'.Dated settings := by
  cases move with
  | event event =>
    obtain ⟨-, heq⟩ := Option.ite_none_left_eq_some.mp hstep
    obtain rfl := Option.some.inj heq
    exact h.same (le_refl _) (fun _ => id) rfl
  | closeEvents =>
    obtain rfl := Option.some.inj hstep
    exact h.same (le_refl _) (fun _ => id) rfl
  | observation o =>
    obtain ⟨-, heq⟩ := Option.ite_none_right_eq_some.mp hstep
    obtain rfl := Option.some.inj heq
    exact h.same (le_refl _) (fun _ => id) rfl
  | request id' =>
    obtain rfl := Option.some.inj hstep
    exact h.same (le_refl _) (fun _ => id) rfl
  | tick duration =>
    obtain rfl := Option.some.inj hstep
    exact h.same (Nat.le_add_right _ _) (fun _ => id) rfl
  | drop =>
    obtain rfl := Option.some.inj hstep
    exact h.same (le_refl _) (fun _ => id) rfl
  | monitor c =>
    obtain ⟨-, heq⟩ := Option.ite_none_left_eq_some.mp hstep
    exact h.monitorStep heq
  | callStop =>
    simp only [Sys.step] at hstep
    split at hstep
    · obtain rfl := Option.some.inj hstep
      exact h.same (le_refl _) (fun _ => id) rfl
    · cases hstep
  | stop c =>
    obtain ⟨hvars, hphase, -, -, hnow⟩ := Sys.stopStep_frame hstep
    exact h.same hnow.ge (fun _ => hphase ▸ id) (by rw [hvars])

end Dates

section Frame

variable {settings : Settings} {plan : Plan} {sys : Sys} {p p' : Probing}

theorem Probing.sys_send (run : ℕ) (command : DriverCommand) :
    (p.send run command).sys = p.sys := by
  unfold Probing.send
  split
  · rfl
  · split <;> rfl

theorem Probing.sys_advance : (p.advance sys).sys = sys := by
  unfold Probing.advance
  split <;> rfl

theorem Probing.sys_takeRequest (vars : Local) (caller : ℕ) :
    (p.takeRequest vars caller).sys = p.sys := by
  unfold Probing.takeRequest
  dsimp only
  split
  · split
    · exact Probing.sys_send _ _
    · rfl
  · rfl

theorem Probing.sys_follow : (p.follow sys).sys = sys := by
  unfold Probing.follow
  split
  · split <;> rfl
  · split <;> rfl
  · split
    · exact Probing.sys_takeRequest _ _
    · rfl
  · split
    · split
      · exact Probing.sys_send _ _
      · rfl
    · rfl
  · exact Probing.sys_advance

/-- A step of a driver moves the instance only when it sends an observation. -/
theorem Probing.sys_taskStep {run : ℕ} {c : TaskChoice}
    (hstep : p.taskStep settings plan run c = some p') :
    p'.sys = p.sys ∨ ∃ move, p.sys.step settings move = some p'.sys := by
  unfold Probing.taskStep at hstep
  split at hstep
  · cases hstep
  rename_i task _
  cases hstage : task.stage with
  | observe o =>
    simp only [hstage] at hstep
    obtain ⟨sys, hsys, rfl⟩ := Option.map_eq_some_iff.mp hstep
    exact .inr ⟨_, hsys⟩
  | ended => simp [hstage] at hstep
  | pollCancel =>
    simp only [hstage] at hstep
    split at hstep <;> obtain rfl := Option.some.inj hstep <;> exact .inl rfl
  | pollCommands =>
    simp only [hstage] at hstep
    split at hstep
    · obtain rfl := Option.some.inj hstep
      exact .inl rfl
    · obtain rfl := Option.some.inj hstep
      exact .inl rfl
    · split at hstep <;> obtain rfl := Option.some.inj hstep <;> exact .inl rfl
  | pollTimer =>
    simp only [hstage] at hstep
    split at hstep
    · split at hstep <;> obtain rfl := Option.some.inj hstep <;> exact .inl rfl
    · obtain rfl := Option.some.inj hstep
      exact .inl rfl
  | attemptCancel purpose =>
    simp only [hstage] at hstep
    split at hstep <;> obtain rfl := Option.some.inj hstep <;> exact .inl rfl
  | attemptProbe purpose =>
    simp only [hstage] at hstep
    split at hstep <;> obtain rfl := Option.some.inj hstep <;> exact .inl rfl
  | respond o caller =>
    simp only [hstage, Option.some.injEq] at hstep
    subst hstep
    exact .inl rfl

/-- Every move makes one step of the instance, or none. -/
theorem Probing.sys_step {move : ProbingMove} (hstep : p.step settings plan move = some p') :
    p'.sys = p.sys ∨ ∃ move, p.sys.step settings move = some p'.sys := by
  cases move with
  | call phase =>
    simp only [Probing.step, Probing.probeNow] at hstep
    split at hstep
    · obtain rfl := Option.some.inj hstep
      exact .inl rfl
    · split at hstep
      · obtain ⟨sys, hsys, rfl⟩ := Option.map_eq_some_iff.mp hstep
        exact .inr ⟨_, hsys⟩
      · obtain rfl := Option.some.inj hstep
        exact .inl rfl
  | sys move =>
    simp only [Probing.step] at hstep
    split at hstep
    · cases hstep
    · cases hstep
    · obtain ⟨-, heq⟩ := Option.ite_none_right_eq_some.mp hstep
      obtain ⟨sys, hsys, rfl⟩ := Option.map_eq_some_iff.mp heq
      exact .inr ⟨_, by rw [Probing.sys_follow]; exact hsys⟩
    · obtain ⟨sys, hsys, rfl⟩ := Option.map_eq_some_iff.mp hstep
      exact .inr ⟨_, by rw [Probing.sys_advance]; exact hsys⟩
  | cancelDriver =>
    simp only [Probing.step] at hstep
    split at hstep
    · obtain ⟨-, heq⟩ := Option.ite_none_left_eq_some.mp hstep
      obtain ⟨task, -, rfl⟩ := Option.map_eq_some_iff.mp heq
      exact .inl rfl
    · cases hstep
  | task run c => exact Probing.sys_taskStep hstep

end Frame

section Range

variable {settings : Settings} {plan : Plan} {c : Clocked}

theorem HealthTracker.additions_inRange {tracker : HealthTracker} {result : ProbeResult}
    (h : tracker.startedAt + tracker.policy.startPeriod ≤ instantMax) :
    ∀ a ∈ tracker.additions result, a.InRange := by
  intro a ha
  cases result with
  | healthy => cases ha
  | unhealthy detail =>
    simp only [HealthTracker.additions] at ha
    split at ha
    · cases ha
    · obtain rfl := List.mem_singleton.mp ha
      exact h

theorem Sys.observeAdditions_inRange {s : Sys} {o : Observation} (h : s.Dated settings)
    (hroom : s.now + settings.health.startPeriod ≤ instantMax) :
    ∀ a ∈ s.observeAdditions settings o, a.InRange := by
  unfold Sys.observeAdditions
  cases hcurrent : s.vars.current with
  | none => simp
  | some run =>
    obtain ⟨hpolicy, hstarted⟩ := h.run run hcurrent
    dsimp only
    split
    · simp
    · refine HealthTracker.additions_inRange ?_
      rw [hpolicy]
      omega

theorem Sys.monitorAdditions_inRange {s : Sys} (h : s.Dated settings)
    (hstartup : s.now + settings.startupTimeout ≤ instantMax)
    (hperiod : s.now + settings.health.startPeriod ≤ instantMax) :
    ∀ a ∈ s.monitorAdditions settings, a.InRange := by
  intro a ha
  unfold Sys.monitorAdditions at ha
  split at ha
  · split at ha
    · obtain rfl := List.mem_singleton.mp ha
      exact hstartup
    · cases ha
  · split at ha
    · exact Sys.observeAdditions_inRange h hperiod a ha
    · cases ha
  · split at ha
    · exact Sys.observeAdditions_inRange h hperiod a ha
    · cases ha
  · cases ha

theorem Probing.taskAdditions_inRange {p : Probing} {run : ℕ}
    (hroom : p.sys.now + settings.health.interval ≤ instantMax) :
    ∀ a ∈ p.taskAdditions settings run, a.InRange := by
  have hnext : ∀ a ∈ [(⟨p.sys.now, settings.health.interval⟩ : Addition)], a.InRange := by
    intro a ha
    obtain rfl := List.mem_singleton.mp ha
    exact hroom
  intro a ha
  unfold Probing.taskAdditions at ha
  dsimp only at ha
  split at ha
  · cases ha
  · split at ha
    · split at ha
      · exact hnext a ha
      · cases ha
    · split at ha
      · exact hnext a ha
      · cases ha
    · split at ha
      · exact hnext a ha
      · cases ha
    · cases ha

/-- A move from a state with room computes sums in range. -/
theorem Probing.additions_inRange {p : Probing} {move : ProbingMove} {additions : List Addition}
    (h : p.sys.Dated settings) (hroom : Clocked.HasRoom settings ⟨p, additions⟩) :
    ∀ a ∈ p.additions settings move, a.InRange := by
  obtain ⟨hstartup, hinterval, hperiod⟩ := hroom
  intro a ha
  unfold Probing.additions at ha
  split at ha
  · exact Sys.monitorAdditions_inRange h hstartup hperiod a ha
  · exact Probing.taskAdditions_inRange hinterval a ha
  · cases ha

/-- No sum overflows in a run that always has room between its clock and the last instant. -/
theorem sums_inRange (h : Reach (Clocked.step settings plan) (fun c _ => c.HasRoom settings)
    (Clocked.SpawnedWithRoom settings) c) : ∀ a ∈ c.additions, a.InRange := by
  have hinv : c.probing.sys.Dated settings ∧ ∀ a ∈ c.additions, a.InRange := by
    refine h.invariant (I := fun c => c.probing.sys.Dated settings ∧ ∀ a ∈ c.additions, a.InRange)
      ?_ ?_
    · rintro c ⟨⟨hspawned, instant, hle, -, hadditions⟩, hroom⟩
      obtain ⟨hphase, hvars⟩ : c.probing.sys.phase = .pollCancel ∧
          c.probing.sys.vars.current = none := by
        rw [hspawned.sys.phase, hspawned.sys.vars]
        exact ⟨rfl, rfl⟩
      refine ⟨⟨by simp [hphase, Phase.startedAt?], by simp [hvars]⟩, ?_⟩
      intro a ha
      rw [hadditions] at ha
      obtain rfl := List.mem_singleton.mp ha
      have := hroom.1
      unfold Addition.InRange
      dsimp only
      omega
    · rintro c move c' ⟨hdated, hadditions⟩ hroom hstep
      obtain ⟨probing, hprobing, rfl⟩ := Option.map_eq_some_iff.mp hstep
      refine ⟨?_, fun a ha => ?_⟩
      · rcases Probing.sys_step hprobing with heq | ⟨move, hmove⟩
        · exact heq ▸ hdated
        · exact hdated.step hmove
      · rcases List.mem_append.mp ha with ha | ha
        · exact Probing.additions_inRange hdated hroom a ha
        · exact hadditions a ha
  exact hinv.2

/-- A second for the start and for each probe, and no start period. -/
def promptSettings (interval : ℕ) : Settings :=
  ⟨⟨interval, 1000000000, 3, 1, 0⟩, 1000000000, 1000000000⟩

/-- An instance that was spawned at the beginning of time. -/
def Clocked.launch : Clocked := ⟨⟨.launch, fun _ => none, 0, []⟩, [⟨0, 1000000000⟩]⟩

theorem Clocked.launch_spawned (interval : ℕ) : Clocked.launch.Spawned (promptSettings interval) :=
  ⟨⟨Sys.launch_spawned, rfl, rfl, rfl, rfl⟩, 0, le_refl 0, (Nat.zero_add _).symm, rfl⟩

instance (settings : Settings) (c : Clocked) : Decidable (c.HasRoom settings) :=
  inferInstanceAs (Decidable (_ ∧ _))

/-- The first probe of the first run. -/
def firstProbe : List ProbingMove :=
  .sys (.event (.started 7)) :: List.replicate 6 (.sys (.monitor ⟨false, true, "", 0⟩)) ++
    List.replicate 6 (.task 1 ⟨true, some (.checked .healthy), 50⟩)

theorem sums_inRange_firstProbe :
    ∃ c : Clocked, ⟨0, 250⟩ ∈ c.additions ∧ ∀ a ∈ c.additions, a.InRange := by
  have hinit : Clocked.launch.SpawnedWithRoom (promptSettings 250) :=
    ⟨Clocked.launch_spawned 250, by decide +kernel⟩
  obtain ⟨c, hreach, hc⟩ := exists_reach (Clocked.step (promptSettings 250) ⟨false, "1s"⟩)
    (fun c _ => c.HasRoom (promptSettings 250)) (p := fun c => decide (⟨0, 250⟩ ∈ c.additions))
    hinit firstProbe (by decide +kernel)
  exact ⟨c, of_decide_eq_true hc, sums_inRange hreach⟩

/-- An accepted policy with the longest interval: the driver panics after its first probe. -/
theorem longest_interval_overflows :
    HealthPolicy.new durationMax 1000000000 ⟨3, by decide, by decide⟩ ⟨1, by decide, by decide⟩ 0 =
        .ok (promptSettings durationMax).health ∧
      ∃ c, Reach (Clocked.step (promptSettings durationMax) ⟨false, "1s"⟩) (fun _ _ => True)
          (Clocked.Spawned (promptSettings durationMax)) c ∧
        ∃ a ∈ c.additions, ¬a.InRange := by
  refine ⟨rfl, ?_⟩
  obtain ⟨c, hreach, hc⟩ := exists_reach
    (Clocked.step (promptSettings durationMax) ⟨false, "1s"⟩) (fun _ _ => True)
    (p := fun c => c.additions.any fun a => !decide a.InRange) (Clocked.launch_spawned durationMax)
    firstProbe (by decide +kernel)
  obtain ⟨a, ha, hrange⟩ := List.any_eq_true.mp hc
  exact ⟨c, hreach, a, ha, by simpa using hrange⟩

end Range

end Nyanpasu.Instance
