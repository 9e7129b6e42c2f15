import Nyanpasu.Instance.Monitor

/-!
# The discipline of readiness

Readiness is acknowledged at most once for each run, only on an observation of that run which
was completed in time, and never after a timeout or a cancellation. The invariant follows the
identifiers of the runs, the observations that wait in the queue, and the places where the
monitor holds on to what it has read.
-/

namespace Nyanpasu.Instance

open Moves

variable {settings : Settings} {s s' : Sys} {run : RunState} {o : Observation}

section Statements

/-- The tracker that the observations of a run lead to. -/
def replay (settings : Settings) (startedAt runId : ℕ) (applied : List Applied) : HealthTracker :=
  (applied.filter (·.runId = runId)).foldr
    (fun entry tracker => tracker.observe entry.observation.completedAt entry.observation.result)
    (.new settings.health startedAt)

/-- A process with the pid was acknowledged. -/
def Acked (acks : List Ack) (pid : ℕ) : Prop :=
  ∃ ack ∈ acks, ack.run.pid = pid ∧ ack.acknowledged = true

/-- An observation was applied. -/
def Logged (applied : List Applied) (o : Observation) : Prop :=
  ∃ entry ∈ applied, entry.observation = o

/-- A call of `acknowledge_ready` is in order: the observation belongs to the run, the verdict
is healthy, nothing was closed, and the observation was completed by the deadline that
applies. -/
structure Ack.Ok (settings : Settings) (begun : List Begun) (ack : Ack) : Prop where
  applies : ack.observation.applies ack.run = true
  verdict : ack.verdict = .healthy
  initial : ack.everReady = false → ack.observation.completedAt ≤ settings.initialDeadline
  respawn : ack.everReady = true → ∃ deadline, ack.respawnDeadline = some deadline ∧
    ack.observation.completedAt ≤ deadline ∧
    ⟨ack.run.runId, ack.run.pid, some deadline⟩ ∈ begun
  closed : ack.closed = false

/-- Before a timeout is declared, whatever was queued for its run in time is applied. -/
def Declared.Ok (declared : Declared) : Prop :=
  ∀ run, declared.run = some run → ∀ o ∈ declared.queued, o.applies run = true →
    o.completedAt ≤ declared.deadline → Logged declared.applied o

/-- A published status shows a pid only of an acknowledged run, and the health of
observations that were applied. -/
structure Published.Ok (acks : List Ack) (applied : List Applied) (p : Published) : Prop where
  running : ∀ pid, p.status.state = .running pid → Acked acks pid
  observed : ∀ o, p.source = .acknowledged o ∨ p.source = .observed o → Logged applied o

/-- The discipline of readiness. -/
structure Disciplined (settings : Settings) (s : Sys) : Prop where
  /-- At most one acknowledgement for each run. -/
  once : (s.history.acks.map (·.run.runId)).Nodup
  acks : ∀ ack ∈ s.history.acks, ack.Ok settings s.history.begun
  /-- An observation is applied to its own run only, -/
  applied : ∀ entry ∈ s.history.applied,
    entry.observation.runId = entry.runId ∧ entry.observation.pid = entry.pid
  /-- and nothing else moves the tracker of a run. -/
  tracker : ∀ run, s.vars.current = some run →
    ∃ startedAt, run.tracker = replay settings startedAt run.runId s.history.applied
  declared : ∀ declared ∈ s.history.declared, declared.Ok
  published : ∀ p ∈ s.history.published, p.Ok s.history.acks s.history.applied

end Statements

section Invariant

/-- A new run was counted and is not current yet. -/
def Phase.opening : Phase → Bool
  | .startedHealth _ _ _ | .startedPublish _ _ _ _ | .startedRun _ _ => true
  | _ => false

/-- The acknowledgement of the current run is decided and not called yet. -/
def Phase.asking : Phase → Bool
  | .ackLock _ _ _ | .ackCall _ _ _ => true
  | _ => false

/-- The cancellation arm waits for the driver. -/
def Phase.cancelling : Phase → Bool
  | .stopDriver .cancelled => true
  | _ => false

/-- The run identifiers below are taken. -/
def Sys.bound (s : Sys) : ℕ := if s.phase.opening then s.vars.nextRunId else s.vars.nextRunId + 1

/-- Between a declared timeout and its cancellation arm. -/
def Expiring (s : Sys) : Phase → Prop
  | .stopDriver .timedOut | .storeTimeout | .cancelProbes => True
  | .cancelAll | .pollCancel => s.probeCancel = true
  | _ => False

/-- The current run has not been acknowledged and may be. -/
def Unasked (s : Sys) (run : RunState) : Prop := run.ackAttempted = false ∨ s.phase.asking = true

/-- What is known about the current run. -/
structure CurrentOk (settings : Settings) (s : Sys) (run : RunState) : Prop where
  id : run.runId < s.bound
  tracker : ∃ startedAt, run.tracker = replay settings startedAt run.runId s.history.applied
  attempt : run.tracker.state = .starting → run.ackAttempted = false
  begun : Unasked s run → ⟨run.runId, run.pid, s.vars.respawnDeadline⟩ ∈ s.history.begun
  deadline : Unasked s run → s.vars.everReady = true → s.vars.respawnDeadline.isSome = true
  unasked : Unasked s run → ∀ ack ∈ s.history.acks, ack.run.runId ≠ run.runId

/-- What was queued at the beginning of a drain is still queued or has been handled. -/
structure DrainOk (settings : Settings) (l : Local) (observations : List Observation)
    (applied : List Applied) (queued rest : List Observation) : Prop where
  waiting : rest <+: observations
  handled : ∀ o ∈ queued, o ∈ rest ∨ ∀ run, l.current = some run → o.applies run = true →
    l.late settings o = true ∨ Logged applied o

/-- What is known where an observation is applied. -/
def ContextOk (settings : Settings) (s : Sys) : Context → Prop
  | .arm => True
  | .drain _ queued rest => DrainOk settings s.vars s.observations s.history.applied queued rest

/-- An acknowledgement is in order when it is decided. -/
structure AskOk (settings : Settings) (l : Local) (closed : Bool) (o : Observation)
    (update : TrackerUpdate) : Prop where
  run : ∃ run, l.current = some run ∧ o.applies run = true ∧ run.ackAttempted = true
  verdict : update.state = .healthy
  late : l.late settings o = false
  unclosed : closed = false

/-- A lifecycle state that was read shows an acknowledged process. -/
def Shown (acks : List Ack) (lifecycle : InstanceState) : Prop :=
  ∀ pid, lifecycle = .running pid → Acked acks pid

/-- What is known where the monitor stands. -/
def PhaseOk (settings : Settings) (s : Sys) : Phase → Prop
  | .stopDriver .cancelled => s.vars.probesCancelled = true
  | .startedPublish _ _ _ lifecycle => Shown s.history.acks lifecycle
  | .drain _ queued rest => DrainOk settings s.vars s.observations s.history.applied queued rest
  | .ackLock o update context | .ackCall o update context =>
      AskOk settings s.vars s.history.closed o update ∧ Logged s.history.applied o ∧
        ContextOk settings s context
  | .ackHealth pid o _ _ | .ackPublish pid o _ _ _ =>
    Acked s.history.acks pid ∧ Logged s.history.applied o
  | .healthRead o _ context | .healthLifecycle o _ context _ =>
      Logged s.history.applied o ∧ ContextOk settings s context
  | .healthPublish o _ context _ lifecycle =>
      Logged s.history.applied o ∧ ContextOk settings s context ∧ Shown s.history.acks lifecycle
  | _ => True

/-- The invariant. -/
structure Inv (settings : Settings) (s : Sys) : Prop where
  drivers : ∀ driver ∈ s.drivers, driver.1 < s.bound
  queued : ∀ o ∈ s.observations, (o.runId, o.pid) ∈ s.drivers
  ackIds : ∀ ack ∈ s.history.acks, ack.run.runId < s.bound
  appliedIds : ∀ entry ∈ s.history.applied, entry.runId < s.bound
  current : ∀ run, s.vars.current = some run → CurrentOk settings s run
  respawn : s.vars.everReady = false → s.vars.respawnDeadline = none
  once : (s.history.acks.map (·.run.runId)).Nodup
  acks : ∀ ack ∈ s.history.acks, ack.Ok settings s.history.begun
  applied : ∀ entry ∈ s.history.applied,
    entry.observation.runId = entry.runId ∧ entry.observation.pid = entry.pid
  declared : ∀ declared ∈ s.history.declared, declared.Ok
  /-- After a cancellation no run has a driver. -/
  cancelled : s.vars.probesCancelled = true → s.phase.cancelling = false →
    ∀ run, s.vars.current = some run → ∀ driver ∈ s.drivers, driver.1 ≠ run.runId
  /-- A declared timeout leads straight to the cancellation. -/
  closed : s.history.closed = true → s.vars.probesCancelled = false →
    s.vars.current = none ∧ Expiring s s.phase
  running : Shown s.history.acks s.status.state
  published : ∀ p ∈ s.history.published, p.Ok s.history.acks s.history.applied
  phase : PhaseOk settings s s.phase

theorem Inv.disciplined (h : Inv settings s) : Disciplined settings s :=
  ⟨h.once, h.acks, h.applied, fun run hrun => (h.current run hrun).tracker, h.declared, h.published⟩

end Invariant

section Steps

/-- A move that leaves the current run, the queue and the record of the runs alone. -/
theorem Inv.moved (h : Inv settings s) (hbound : s'.bound = s.bound)
    (hcurrent : s'.vars.current = s.vars.current)
    (hdeadline : s'.vars.respawnDeadline = s.vars.respawnDeadline)
    (hready : s'.vars.everReady = s.vars.everReady) (hdrivers : s'.drivers = s.drivers)
    (hobservations : s'.observations = s.observations)
    (hhistory : s'.history = { s.history with published := s'.history.published })
    (hasking : s'.phase.asking = true → s.phase.asking = true)
    (hcancelled : s'.vars.probesCancelled = true → s'.phase.cancelling = false →
      s.vars.probesCancelled = true ∧ s.phase.cancelling = false)
    (hexpiring : s'.vars.probesCancelled = false →
      s.vars.probesCancelled = false ∧ (Expiring s s.phase → Expiring s' s'.phase))
    (hrunning : Shown s.history.acks s'.status.state)
    (hpublished : ∀ p ∈ s'.history.published, p.Ok s.history.acks s.history.applied)
    (hphase : PhaseOk settings s' s'.phase) : Inv settings s' := by
  have hacks : s'.history.acks = s.history.acks := by rw [hhistory]
  have happlied : s'.history.applied = s.history.applied := by rw [hhistory]
  have hbegun : s'.history.begun = s.history.begun := by rw [hhistory]
  have hdeclared : s'.history.declared = s.history.declared := by rw [hhistory]
  have hclosed : s'.history.closed = s.history.closed := by rw [hhistory]
  refine ⟨by rw [hbound, hdrivers]; exact h.drivers,
    by rw [hobservations, hdrivers]; exact h.queued,
    by rw [hbound, hacks]; exact h.ackIds, by rw [hbound, happlied]; exact h.appliedIds, ?_,
    by rw [hready, hdeadline]; exact h.respawn, by rw [hacks]; exact h.once,
    by rw [hacks, hbegun]; exact h.acks, by rw [happlied]; exact h.applied,
    by rw [hdeclared]; exact h.declared, ?_, ?_, by rw [hacks]; exact hrunning,
    by rw [hacks, happlied]; exact hpublished, hphase⟩
  · intro run hrun
    have hok := h.current run (hcurrent ▸ hrun)
    have hun : Unasked s' run → Unasked s run := fun h => h.imp_right hasking
    exact ⟨hbound ▸ hok.id, by rw [happlied]; exact hok.tracker, hok.attempt,
      fun h => by rw [hdeadline, hbegun]; exact hok.begun (hun h),
      fun h => by rw [hready, hdeadline]; exact hok.deadline (hun h),
      fun h => by rw [hacks]; exact hok.unasked (hun h)⟩
  · rw [hcurrent, hdrivers]
    intro htaken hnot
    exact h.cancelled (hcancelled htaken hnot).1 (hcancelled htaken hnot).2
  · rw [hclosed, hcurrent]
    intro hclosed hnot
    obtain ⟨hbefore, hkeep⟩ := hexpiring hnot
    exact ⟨(h.closed hclosed hbefore).1, hkeep (h.closed hclosed hbefore).2⟩

/-- What is known where the monitor stands does not depend on the rest. -/
theorem PhaseOk.congr {phase : Phase} (h : PhaseOk settings s phase) (hvars : s'.vars = s.vars)
    (hobservations : s'.observations = s.observations)
    (hacks : s'.history.acks = s.history.acks) (happlied : s'.history.applied = s.history.applied)
    (hclosed : s'.history.closed = s.history.closed) : PhaseOk settings s' phase := by
  have hcontext : ContextOk settings s' = ContextOk settings s := by
    funext context
    cases context with
    | arm => rfl
    | drain timer queued rest => simp only [ContextOk, hvars, hobservations, happlied]
  unfold PhaseOk at h ⊢
  simpa only [hvars, hobservations, hacks, happlied, hclosed, hcontext] using h

/-- The monitor moves on and changes nothing. -/
theorem Inv.entered {p phase : Phase} (h : Inv settings s) (hold : s.phase = p)
    (hopening : phase.opening = p.opening) (hasking : phase.asking = true → p.asking = true)
    (hcancelling : p.cancelling = false)
    (hexpiring : s.vars.probesCancelled = false → Expiring s p → Expiring s phase)
    (hphase : PhaseOk settings s phase) : Inv settings (s.enter phase) := by
  subst hold
  refine h.moved (by simp [Sys.bound, Sys.enter, hopening]) rfl rfl rfl rfl rfl rfl hasking
    (fun htaken _ => ⟨htaken, hcancelling⟩) (fun hnot => ⟨hnot, fun hold => ?_⟩)
    h.running h.published (hphase.congr rfl rfl rfl rfl rfl)
  change Expiring (s.enter phase) phase
  have := hexpiring hnot hold
  cases phase <;> exact this

/-- The monitor moves on from where no declared timeout leads. -/
theorem Inv.left {p phase : Phase} (h : Inv settings s) (hold : s.phase = p)
    (hopening : phase.opening = p.opening) (hasking : phase.asking = true → p.asking = true)
    (hcancelling : p.cancelling = false) (hexpiring : ¬ Expiring s p)
    (hphase : PhaseOk settings s phase) : Inv settings (s.enter phase) :=
  h.entered hold hopening hasking hcancelling (fun _ hold => absurd hold hexpiring) hphase

/-- A status is published. -/
theorem Inv.publishing {p phase : Phase} {source : Source} {status : InstanceStatus}
    (h : Inv settings s) (hold : s.phase = p) (hopening : phase.opening = p.opening)
    (hasking : phase.asking = false) (hcancelling : p.cancelling = false)
    (hexpiring : ¬ Expiring s p) (hshown : Shown s.history.acks status.state)
    (hsource : ∀ o, source = .acknowledged o ∨ source = .observed o → Logged s.history.applied o)
    (hphase : PhaseOk settings s phase) :
    Inv settings ((s.publishStatus source status).enter phase) := by
  subst hold
  refine h.moved (by simp [Sys.bound, Sys.enter, Sys.publishStatus, hopening])
    rfl rfl rfl rfl rfl rfl
    (fun hask => absurd (hask.symm.trans hasking) nofun) (fun htaken _ => ⟨htaken, hcancelling⟩)
    (fun hnot => ⟨hnot, fun hold => absurd hold hexpiring⟩) hshown (fun p hp => ?_)
    (hphase.congr rfl rfl rfl rfl rfl)
  rcases List.mem_cons.mp hp with rfl | hp
  · exact ⟨hshown, hsource⟩
  · exact h.published p hp

theorem DrainOk.pushed {l : Local} {observations more queued rest : List Observation}
    {applied : List Applied} (h : DrainOk settings l observations applied queued rest) :
    DrainOk settings l (observations ++ more) applied queued rest :=
  { h with waiting := h.waiting.trans (List.prefix_append _ _) }

theorem ContextOk.pushed {context : Context} {more : List Observation}
    (h : ContextOk settings s context) :
    ContextOk settings { s with observations := s.observations ++ more } context := by
  cases context with
  | arm => trivial
  | drain timer queued rest => exact DrainOk.pushed h

/-- A probe driver sends an observation. -/
theorem Inv.pushed (h : Inv settings s) (hdriver : (o.runId, o.pid) ∈ s.drivers) :
    Inv settings { s with observations := s.observations ++ [o] } where
  drivers := h.drivers
  queued := fun other hother => by
    rcases List.mem_append.mp hother with hold | hnew
    · exact h.queued other hold
    · rwa [List.mem_singleton.mp hnew]
  ackIds := h.ackIds
  appliedIds := h.appliedIds
  current := fun run hrun => { h.current run hrun with }
  respawn := h.respawn
  once := h.once
  acks := h.acks
  applied := h.applied
  declared := h.declared
  cancelled := h.cancelled
  closed := fun hclosed hnot => ⟨(h.closed hclosed hnot).1, by
    have := (h.closed hclosed hnot).2
    change Expiring { s with observations := s.observations ++ [o] } s.phase
    cases hphase : s.phase <;> rw [hphase] at this <;> exact this⟩
  running := h.running
  published := h.published
  phase := by
    have hold := h.phase
    change PhaseOk settings { s with observations := s.observations ++ [o] } s.phase
    cases hphase : s.phase <;> rw [hphase] at hold
    case stopDriver next => cases next <;> exact hold
    case drain => exact DrainOk.pushed hold
    case ackLock | ackCall => exact ⟨hold.1, hold.2.1, hold.2.2.pushed⟩
    case healthRead | healthLifecycle => exact ⟨hold.1, hold.2.pushed⟩
    case healthPublish => exact ⟨hold.1, hold.2.1.pushed, hold.2.2⟩
    all_goals exact hold

/-- The monitor takes an observation from the queue. -/
theorem Inv.popped {p : Phase} {observations : List Observation} (h : Inv settings s)
    (hqueue : s.observations = o :: observations) (hold : s.phase = p)
    (hopening : p.opening = false)
    (hcancelling : p.cancelling = false) (hexpiring : ¬ Expiring s p) :
    Inv settings ({ s with observations }.enter .pollObservations) := by
  have hentered : Inv settings (s.enter .pollObservations) :=
    h.left hold hopening.symm nofun hcancelling hexpiring trivial
  exact { hentered with
    queued := fun other hother => h.queued other (hqueue ▸ List.mem_cons_of_mem o hother)
    current := fun run hrun => { hentered.current run hrun with }
    closed := fun hclosed hnot => absurd (hold ▸ (h.closed hclosed hnot).2) hexpiring
    phase := trivial }

/-- The tracker of the current run is updated by an observation. -/
def Sys.counted (s : Sys) (run : RunState) (o : Observation) (asked : Bool) : Sys :=
  { s with
    vars := { s.vars with current := some { run with
      tracker := run.tracker.observe o.completedAt o.result, ackAttempted := asked } }
    history := { s.history with applied := ⟨run.runId, run.pid, o⟩ :: s.history.applied } }

theorem Sys.bound_of_opening (h : s.phase.opening = false) : s.bound = s.vars.nextRunId + 1 := by
  simp [Sys.bound, h]

/-- What is known about a drain, or about nothing, just after an observation was taken. -/
def Pending (settings : Settings) (s : Sys) (o : Observation) : Context → Prop
  | .arm => True
  | .drain _ queued rest => rest <+: s.observations ∧ ∀ q ∈ queued, q ∈ rest ∨ q = o ∨
      ∀ run, s.vars.current = some run → q.applies run = true →
        s.vars.late settings q = true ∨ Logged s.history.applied q

/-- The observation that was taken does not count. -/
theorem Pending.skipped {context : Context} (h : Pending settings s o context)
    (hskip : ∀ run, s.vars.current = some run → o.applies run = true →
      s.vars.late settings o = true) : ContextOk settings s context := by
  cases context with
  | arm => trivial
  | drain timer queued rest =>
    refine ⟨h.1, fun q hq => ?_⟩
    rcases h.2 q hq with hrest | rfl | hdone
    · exact .inl hrest
    · exact .inr fun run hrun happlies => .inl (hskip run hrun happlies)
    · exact .inr hdone

theorem Logged.cons {applied : List Applied} {entry : Applied} (h : Logged applied o) :
    Logged (entry :: applied) o := by
  obtain ⟨other, hother, heq⟩ := h
  exact ⟨other, List.mem_cons_of_mem _ hother, heq⟩

theorem Published.Ok.logged {acks : List Ack} {applied : List Applied} {p : Published}
    {entry : Applied} (h : p.Ok acks applied) : p.Ok acks (entry :: applied) :=
  ⟨h.running, fun o ho => (h.observed o ho).cons⟩

/-- The observation that was taken has updated the tracker. -/
theorem Pending.counted {context : Context} {asked : Bool} {phase : Phase}
    (h : Pending settings s o context) (hrun : s.vars.current = some run) :
    ContextOk settings ((s.counted run o asked).enter phase) context := by
  cases context with
  | arm => trivial
  | drain timer queued rest =>
    refine ⟨h.1, fun q hq => ?_⟩
    rcases h.2 q hq with hrest | rfl | hdone
    · exact .inl hrest
    · exact .inr fun _ _ _ => .inr ⟨_, List.mem_cons_self, rfl⟩
    · refine .inr fun other hother happlies => ?_
      obtain rfl := Option.some.inj hother
      exact (hdone run hrun happlies).imp_right Logged.cons

/-- What follows an observation that does not count. -/
theorem Inv.resumed {p : Phase} {context : Context} (h : Inv settings s) (hold : s.phase = p)
    (hopening : p.opening = false) (hcancelling : p.cancelling = false)
    (hexpiring : ¬ Expiring s p) (hcontext : ContextOk settings s context) :
    Inv settings (s.enter (Sys.resume context)) := by
  cases context with
  | arm => exact h.left hold hopening.symm nofun hcancelling hexpiring trivial
  | drain timer queued rest =>
    exact h.left hold hopening.symm nofun hcancelling hexpiring hcontext

theorem Observation.applies_iff : o.applies run = true ↔ o.runId = run.runId ∧ o.pid = run.pid := by
  simp [Observation.applies]

/-- A tracker that is still starting has always been. -/
theorem HealthTracker.state_of_observe {tracker : HealthTracker} {now : ℕ} {result : ProbeResult}
    (h : (tracker.observe now result).state = .starting) : tracker.state = .starting := by
  cases result with
  | healthy =>
    simp only [HealthTracker.observe, HealthTracker.succeed] at h
    split at h
    · exact h
    · split at h
      · cases h
      · exact h
  | unhealthy detail =>
    simp only [HealthTracker.observe, HealthTracker.fail] at h
    split at h
    · exact h
    · split at h
      · cases h
      · exact h

/-- A queued observation of the current run says that nothing was closed. -/
theorem Inv.unclosed (h : Inv settings s) (hcancelling : s.phase.cancelling = false)
    (hdriver : (o.runId, o.pid) ∈ s.drivers) (hrun : s.vars.current = some run)
    (happlies : o.applies run = true) : s.history.closed = false := by
  cases hclosed : s.history.closed with
  | false => rfl
  | true =>
    cases hcancelled : s.vars.probesCancelled with
    | false => exact absurd ((h.closed hclosed hcancelled).1.symm.trans hrun) nofun
    | true =>
      exact absurd (Observation.applies_iff.mp happlies).1
        (h.cancelled hcancelled hcancelling run hrun _ hdriver)

theorem replay_cons (startedAt : ℕ) (applied : List Applied) (runId pid : ℕ) :
    replay settings startedAt runId (⟨runId, pid, o⟩ :: applied) =
      (replay settings startedAt runId applied).observe o.completedAt o.result := by
  simp [replay]

/-- The tracker of the current run is updated. -/
theorem Inv.tracked {phase : Phase} {asked : Bool} (h : Inv settings s)
    (hpoll : s.phase = .pollObservations) (hrun : s.vars.current = some run)
    (happlies : o.applies run = true) (hopening : phase.opening = false)
    (hasking : phase.asking = true → run.ackAttempted = false)
    (hasked : asked = false → run.ackAttempted = false)
    (hattempt : (run.tracker.observe o.completedAt o.result).state = .starting → asked = false)
    (hphase : PhaseOk settings ((s.counted run o asked).enter phase) phase) :
    Inv settings ((s.counted run o asked).enter phase) := by
  have hok := h.current run hrun
  have hbound : ((s.counted run o asked).enter phase).bound = s.bound := by
    rw [Sys.bound_of_opening (s := s) (by rw [hpoll]; rfl), Sys.bound_of_opening hopening]
    rfl
  exact {
    drivers := fun driver hdriver => hbound ▸ h.drivers driver hdriver
    queued := h.queued
    ackIds := fun ack hack => hbound ▸ h.ackIds ack hack
    appliedIds := fun entry hentry => by
      rw [hbound]
      rcases List.mem_cons.mp hentry with rfl | hold
      · exact hok.id
      · exact h.appliedIds entry hold
    current := fun other hother => by
      obtain rfl := Option.some.inj hother
      have hold (hun : _ ∨ phase.asking = true) : Unasked s run := .inl (hun.elim hasked hasking)
      obtain ⟨startedAt, htracker⟩ := hok.tracker
      exact ⟨hbound ▸ hok.id, ⟨startedAt, by
          change run.tracker.observe _ _ = replay settings startedAt run.runId
            (⟨run.runId, run.pid, o⟩ :: _)
          rw [replay_cons, htracker]⟩, hattempt,
        fun hun => hok.begun (hold hun), fun hun => hok.deadline (hold hun),
        fun hun => hok.unasked (hold hun)⟩
    respawn := h.respawn
    once := h.once
    acks := h.acks
    applied := fun entry hentry => by
      rcases List.mem_cons.mp hentry with rfl | hold
      · exact Observation.applies_iff.mp happlies
      · exact h.applied entry hold
    declared := h.declared
    cancelled := fun hcancelled _ other hother => by
      obtain rfl := Option.some.inj hother
      exact h.cancelled hcancelled (by rw [hpoll]; rfl) run hrun
    closed := fun hclosed hnot =>
      absurd ((h.closed hclosed hnot).1.symm.trans hrun) nofun
    running := h.running
    published := fun p hp => (h.published p hp).logged
    phase := hphase }

/-- An observation that was taken is applied. -/
theorem Inv.applying {context : Context} (h : Inv settings s) (hpoll : s.phase = .pollObservations)
    (hdriver : (o.runId, o.pid) ∈ s.drivers) (hcontext : Pending settings s o context) :
    Inv settings (s.applyObservation settings o context) := by
  have hcancelling : s.phase.cancelling = false := by rw [hpoll]; rfl
  have hskip (hskip : ∀ run, s.vars.current = some run → o.applies run = true →
      s.vars.late settings o = true) : Inv settings (s.enter (Sys.resume context)) :=
    h.resumed hpoll rfl rfl id (hcontext.skipped hskip)
  unfold Sys.applyObservation
  split
  · rename_i hnone
    exact hskip fun run hrun => absurd (hnone.symm.trans hrun) nofun
  rename_i run hrun
  split
  · rename_i hnot
    refine hskip fun other hother happlies => ?_
    obtain rfl := Option.some.inj (hrun.symm.trans hother)
    simpa [happlies] using hnot
  · rename_i hcount
    simp only [Bool.or_eq_true, Bool.not_eq_true', not_or, Bool.not_eq_false,
      Bool.not_eq_true] at hcount
    obtain ⟨happlies, hlate⟩ := hcount
    have hlogged : Logged (⟨run.runId, run.pid, o⟩ :: s.history.applied) o :=
      ⟨_, List.mem_cons_self, rfl⟩
    simp only [Sys.applyTo]
    split
    · rename_i hask
      simp only [Bool.and_eq_true, Bool.not_eq_true', decide_eq_true_eq] at hask
      refine h.tracked hpoll hrun happlies rfl (fun _ => hask.1) (by simp [hask.2])
        (fun hstarting => absurd (hstarting.symm.trans hask.2) nofun)
        ⟨⟨⟨_, rfl, happlies, by simp [hask]⟩, hask.2, hlate,
          h.unclosed hcancelling hdriver hrun happlies⟩, hlogged, hcontext.counted hrun⟩
    · rename_i hask
      refine h.tracked hpoll hrun happlies rfl nofun (fun hasked => ?_) (fun hstarting => ?_)
        ⟨hlogged, hcontext.counted hrun⟩
      · exact (Bool.or_eq_false_iff.mp hasked).1
      · rw [Bool.or_eq_false_iff]
        exact ⟨(h.current run hrun).attempt (HealthTracker.state_of_observe hstarting),
          Bool.eq_false_iff.mpr hask⟩

/-- The run is forgotten. -/
theorem Inv.forgot (h : Inv settings s) (hbound : s'.bound = s.bound)
    (hcurrent : s'.vars.current = none) (hdeadline : s'.vars.respawnDeadline = none)
    (hdrivers : s'.drivers = s.drivers) (hobservations : s'.observations = s.observations)
    (hstatus : s'.status = s.status)
    (hhistory : s'.history = { s.history with
      declared := s'.history.declared, closed := s'.history.closed })
    (hdeclared : ∀ declared ∈ s'.history.declared, declared.Ok)
    (hclosed : s'.history.closed = true → s'.vars.probesCancelled = false → Expiring s' s'.phase)
    (hphase : PhaseOk settings s' s'.phase) : Inv settings s' := by
  have hacks : s'.history.acks = s.history.acks := by rw [hhistory]
  have happlied : s'.history.applied = s.history.applied := by rw [hhistory]
  have hbegun : s'.history.begun = s.history.begun := by rw [hhistory]
  have hpublished : s'.history.published = s.history.published := by rw [hhistory]
  exact {
    drivers := by rw [hbound, hdrivers]; exact h.drivers
    queued := by rw [hobservations, hdrivers]; exact h.queued
    ackIds := by rw [hbound, hacks]; exact h.ackIds
    appliedIds := by rw [hbound, happlied]; exact h.appliedIds
    current := fun run hrun => absurd (hcurrent.symm.trans hrun) nofun
    respawn := fun _ => hdeadline
    once := by rw [hacks]; exact h.once
    acks := by rw [hacks, hbegun]; exact h.acks
    applied := by rw [happlied]; exact h.applied
    declared := hdeclared
    cancelled := fun _ _ run hrun => absurd (hcurrent.symm.trans hrun) nofun
    closed := fun hclosed' hnot => ⟨hcurrent, hclosed hclosed' hnot⟩
    running := by rw [hacks, hstatus]; exact h.running
    published := by rw [hpublished, hacks, happlied]; exact h.published
    phase := hphase }

/-- The end of a driver. -/
theorem Inv.driverStopped {next : AfterStop} (h : Inv settings s)
    (hroom : s.vars.nextRunId < 2 ^ 64 - 1) (hphase : s.phase = .stopDriver next) :
    Inv settings (s.driverStopped next) := by
  have hopening : s.phase.opening = false := by rw [hphase]; rfl
  have hkeep {t : Sys} (hnew : t.phase.opening = false)
      (hnext : t.vars.nextRunId = s.vars.nextRunId) : t.bound = s.bound := by
    rw [Sys.bound_of_opening hopening, Sys.bound_of_opening hnew, hnext]
  have hunclosed (hnot : ¬ Expiring s (.stopDriver next)) (hclosed : s.history.closed = true)
      (hnone : s.vars.probesCancelled = false) : False :=
    hnot (hphase ▸ (h.closed hclosed hnone).2)
  cases next with
  | cancelled =>
    have htaken : s.vars.probesCancelled = true := by
      have := h.phase
      rwa [hphase] at this
    simp only [Sys.driverStopped, Sys.close, Sys.withVars, Local.forget, Sys.enter]
    exact h.forgot (hkeep rfl rfl) rfl rfl rfl rfl rfl rfl h.declared
      (fun _ hnot => absurd (htaken.symm.trans hnot) nofun) trivial
  | started pid =>
    refine h.moved ?_ rfl rfl rfl rfl rfl rfl nofun (fun htaken _ => ⟨htaken, by rw [hphase]; rfl⟩)
      (fun hnot => ⟨hnot, fun hold => ?_⟩) h.running h.published trivial
    · rw [Sys.bound_of_opening hopening]
      change min (s.vars.nextRunId + 1) (2 ^ 64 - 1) = s.vars.nextRunId + 1
      omega
    · rw [hphase] at hold
      exact hold.elim
  | restarting attempt =>
    exact h.forgot (hkeep rfl rfl) rfl rfl rfl rfl
      rfl rfl h.declared (fun hclosed hnot => (hunclosed id hclosed hnot).elim) trivial
  | exited payload =>
    exact h.forgot (hkeep rfl rfl) rfl rfl rfl rfl rfl rfl h.declared
      (fun hclosed hnot => (hunclosed id hclosed hnot).elim) trivial
  | gaveUp =>
    exact h.moved (hkeep rfl rfl) rfl rfl rfl rfl rfl rfl nofun
      (fun htaken _ => ⟨htaken, by rw [hphase]; rfl⟩)
      (fun hnot => ⟨hnot, fun hold => (hphase ▸ hold : Expiring s (.stopDriver .gaveUp)).elim⟩)
      h.running h.published trivial
  | stopped =>
    exact h.moved (hkeep rfl rfl) rfl rfl rfl rfl rfl rfl nofun
      (fun htaken _ => ⟨htaken, by rw [hphase]; rfl⟩)
      (fun hnot => ⟨hnot, fun hold => (hphase ▸ hold : Expiring s (.stopDriver .stopped)).elim⟩)
      h.running h.published trivial
  | timedOut =>
    exact h.moved (hkeep rfl rfl) rfl rfl rfl rfl rfl rfl nofun
      (fun htaken _ => ⟨htaken, by rw [hphase]; rfl⟩) (fun hnot => ⟨hnot, fun _ => trivial⟩)
      h.running h.published trivial

theorem replay_fresh {startedAt runId : ℕ} {applied : List Applied}
    (h : ∀ entry ∈ applied, entry.runId < runId) :
    replay settings startedAt runId applied = .new settings.health startedAt := by
  have hnone : applied.filter (·.runId = runId) = [] := by
    rw [List.filter_eq_nil_iff]
    intro entry hentry
    simpa using (h entry hentry).ne
  simp [replay, hnone]

theorem Ack.Ok.begun {begun : List Begun} {entry : Begun} {ack : Ack}
    (h : ack.Ok settings begun) : ack.Ok settings (entry :: begun) :=
  { h with
    respawn := fun hready => by
      obtain ⟨deadline, hsome, hle, hmem⟩ := h.respawn hready
      exact ⟨deadline, hsome, hle, List.mem_cons_of_mem _ hmem⟩ }

/-- A new run becomes current. -/
theorem Inv.startRun {pid startedAt : ℕ} (h : Inv settings s)
    (hphase : s.phase = .startedRun pid startedAt) :
    Inv settings (s.startRun settings pid startedAt) := by
  have hbound : s.bound = s.vars.nextRunId := by simp [Sys.bound, hphase, Phase.opening]
  have hbound' : (s.startRun settings pid startedAt).bound = s.vars.nextRunId + 1 := rfl
  have hexpiring : ¬ Expiring s s.phase := by rw [hphase]; exact id
  have hdrivers : ∀ driver ∈ (s.startRun settings pid startedAt).drivers,
      driver = (s.vars.nextRunId, pid) ∧ s.vars.probesCancelled = false ∨ driver ∈ s.drivers := by
    intro driver hdriver
    simp only [Sys.startRun] at hdriver
    split at hdriver
    · exact .inr hdriver
    · rename_i hnot
      exact (List.mem_cons.mp hdriver).imp_left fun heq => ⟨heq, by simpa using hnot⟩
  exact {
    drivers := fun driver hdriver => by
      rw [hbound']
      rcases hdrivers driver hdriver with ⟨rfl, -⟩ | hold
      · exact Nat.lt_succ_self _
      · have := hbound ▸ h.drivers driver hold
        omega
    queued := fun o ho => by
      have hold := h.queued o ho
      simp only [Sys.startRun]
      split
      · exact hold
      · exact List.mem_cons_of_mem _ hold
    ackIds := fun ack hack => by
      have := hbound ▸ h.ackIds ack hack
      omega
    appliedIds := fun entry hentry => by
      have := hbound ▸ h.appliedIds entry hentry
      omega
    current := fun run hrun => by
      obtain rfl := Option.some.inj hrun
      refine ⟨Nat.lt_succ_self _, ⟨startedAt, ?_⟩, fun _ => rfl, fun _ => List.mem_cons_self,
        fun _ hready => ?_,
        fun _ ack hack => (hbound ▸ h.ackIds ack hack).ne⟩
      · exact (replay_fresh fun entry hentry => hbound ▸ h.appliedIds entry hentry).symm
      · have hready : s.vars.everReady = true := hready
        simp [Sys.startRun, hready]
    respawn := fun hready => by
      have hready : s.vars.everReady = false := hready
      simp [Sys.startRun, hready]
    once := h.once
    acks := fun ack hack => (h.acks ack hack).begun
    applied := h.applied
    declared := h.declared
    cancelled := fun htaken _ run hrun driver hdriver => by
      obtain rfl := Option.some.inj hrun
      rcases hdrivers driver hdriver with ⟨-, hnot⟩ | hold
      · exact absurd (hnot.symm.trans htaken) nofun
      · exact (hbound ▸ h.drivers driver hold).ne
    closed := fun hclosed hnot => absurd (h.closed hclosed hnot).2 hexpiring
    running := h.running
    published := h.published
    phase := trivial }

/-- The deadline of a timer is the only one that applies. -/
theorem Inv.late_iff {timer : Timer} {deadline : ℕ} (h : Inv settings s)
    (hdeadline : s.deadline settings timer = some deadline) :
    s.vars.late settings o = true ↔ deadline < o.completedAt := by
  cases timer with
  | initial =>
    simp only [Sys.deadline, Option.ite_none_right_eq_some, Bool.and_eq_true, Bool.not_eq_true',
      Option.some.injEq] at hdeadline
    obtain ⟨⟨hready, -⟩, rfl⟩ := hdeadline
    simp [Local.late, hready, h.respawn hready]
  | respawn =>
    have hready : s.vars.everReady = true := by
      cases hready : s.vars.everReady with
      | true => rfl
      | false => exact absurd ((h.respawn hready).symm.trans hdeadline) nofun
    have hsome : s.vars.respawnDeadline = some deadline := hdeadline
    simp [Local.late, hready, hsome]

/-- A timer arm has drained the queue. -/
theorem Inv.declare {timer : Timer} {queued rest : List Observation} (h : Inv settings s)
    (hphase : s.phase = .drain timer queued rest) (hempty : s.observations = []) :
    Inv settings (s.declare settings timer queued) := by
  have hopening : s.phase.opening = false := by rw [hphase]; rfl
  have hexpiring : ¬ Expiring s s.phase := by rw [hphase]; exact id
  unfold Sys.declare
  split
  · exact h.left hphase rfl nofun rfl id trivial
  · rename_i deadline hdeadline
    have hdrain : DrainOk settings s.vars s.observations s.history.applied queued rest := by
      have := h.phase
      rwa [hphase] at this
    refine h.forgot ?_ rfl rfl rfl rfl rfl rfl ?_ (fun _ _ => trivial) trivial
    · rw [Sys.bound_of_opening hopening]
      rfl
    · intro declared hdeclared
      rcases List.mem_cons.mp hdeclared with rfl | hold
      · intro run hrun o ho happlies hin
        have hnot : o ∉ rest := by
          have := hdrain.waiting
          rw [hempty, List.prefix_nil] at this
          simp [this]
        rcases ((hdrain.handled o ho).resolve_left hnot) run hrun happlies with hlate | hlogged
        · exact absurd ((h.late_iff hdeadline).mp hlate) hin.not_gt
        · exact hlogged
      · exact h.declared declared hold

/-- What an acknowledgement in order records is in order. -/
theorem Inv.ackOk {update : TrackerUpdate} {acknowledged : Bool} (h : Inv settings s)
    (hask : AskOk settings s.vars s.history.closed o update) (hasking : s.phase.asking = true)
    (hrun : s.vars.current = some run) :
    Ack.Ok settings s.history.begun ⟨run, o, update.state, s.vars.everReady,
      s.vars.respawnDeadline, s.history.closed, acknowledged⟩ := by
  have hok := h.current run hrun
  obtain ⟨other, hother, happlies, -⟩ := hask.run
  obtain rfl := Option.some.inj (hrun.symm.trans hother)
  have hlate := hask.late
  simp only [Local.late, Bool.or_eq_false_iff, Bool.and_eq_false_iff, Bool.not_eq_false',
    decide_eq_false_iff_not, Nat.not_lt] at hlate
  refine ⟨happlies, hask.verdict, fun hready => ?_, fun hready => ?_, hask.unclosed⟩
  · exact hlate.1.resolve_left (by simp [show s.vars.everReady = false from hready])
  · obtain ⟨deadline, hdeadline⟩ :=
      Option.isSome_iff_exists.mp (hok.deadline (.inr hasking) hready)
    refine ⟨deadline, hdeadline, ?_, hdeadline ▸ hok.begun (.inr hasking)⟩
    simpa [hdeadline] using hlate.2

theorem Acked.cons {acks : List Ack} {ack : Ack} {pid : ℕ} (h : Acked acks pid) :
    Acked (ack :: acks) pid := by
  obtain ⟨other, hother, heq⟩ := h
  exact ⟨other, List.mem_cons_of_mem _ hother, heq⟩

/-- The call of `acknowledge_ready` is recorded. -/
def Sys.called (s : Sys) (run : RunState) (o : Observation) (update : TrackerUpdate)
    (acknowledged : Bool) : Sys :=
  { s with
    locked := false
    history := { s.history with acks := ⟨run, o, update.state, s.vars.everReady,
      s.vars.respawnDeadline, s.history.closed, acknowledged⟩ :: s.history.acks } }

/-- The call is in order. -/
theorem Inv.called {acknowledged : Bool} {update : TrackerUpdate} (h : Inv settings s)
    (hask : AskOk settings s.vars s.history.closed o update) (hasking : s.phase.asking = true)
    (hopening : s.phase.opening = false) (hexpiring : ¬ Expiring s s.phase)
    (hrun : s.vars.current = some run) :
    Inv settings ((s.called run o update acknowledged).enter .pollObservations) := by
  have hok := h.current run hrun
  obtain ⟨other, hother, happlies, hattempted⟩ := hask.run
  obtain rfl := Option.some.inj (hrun.symm.trans hother)
  have hbound : s.bound = s.vars.nextRunId + 1 := Sys.bound_of_opening hopening
  have hcancelling : s.phase.cancelling = false := by
    cases hphase : s.phase <;> first | rfl | (rw [hphase] at hasking; cases hasking)
  exact {
    drivers := fun driver hdriver => (hbound ▸ h.drivers driver hdriver :)
    queued := h.queued
    ackIds := fun ack hack => by
      rcases List.mem_cons.mp hack with rfl | hold
      · exact (hbound ▸ hok.id :)
      · exact (hbound ▸ h.ackIds ack hold :)
    appliedIds := fun entry hentry => (hbound ▸ h.appliedIds entry hentry :)
    current := fun other hother => by
      obtain rfl := Option.some.inj (hrun.symm.trans hother)
      have hasked : ¬ (run.ackAttempted = false ∨ false = true) := by simp [hattempted]
      exact ⟨(hbound ▸ hok.id :), hok.tracker, hok.attempt, fun hun => absurd hun hasked,
        fun hun => absurd hun hasked, fun hun => absurd hun hasked⟩
    respawn := h.respawn
    once := by
      refine List.nodup_cons.mpr ⟨fun hmem => ?_, h.once⟩
      obtain ⟨ack, hack, heq⟩ := List.mem_map.mp hmem
      exact hok.unasked (.inr hasking) ack hack heq
    acks := fun ack hack => by
      rcases List.mem_cons.mp hack with rfl | hold
      · exact h.ackOk hask hasking hrun
      · exact h.acks ack hold
    applied := h.applied
    declared := h.declared
    cancelled := fun htaken _ => h.cancelled htaken hcancelling
    closed := fun hclosed hnot => absurd (h.closed hclosed hnot).2 hexpiring
    running := fun pid hpid => (h.running pid hpid).cons
    published := fun p hp =>
      ⟨fun pid hpid => ((h.published p hp).running pid hpid).cons, (h.published p hp).observed⟩
    phase := trivial }

/-- The run is ready. -/
theorem Inv.becameReady {update : TrackerUpdate} {context : Context} (h : Inv settings s)
    (hpoll : s.phase = .pollObservations) (hrun : s.vars.current = some run)
    (hattempted : run.ackAttempted = true) (hacked : Acked s.history.acks run.pid)
    (hlogged : Logged s.history.applied o) :
    Inv settings { s with
      vars := { s.vars with
        everReady := true, respawnDeadline := none, current := some { run with ready := true } }
      phase := .ackHealth run.pid o update context } := by
  have hok := h.current run hrun
  have hbound : s.bound = s.vars.nextRunId + 1 := Sys.bound_of_opening (by rw [hpoll]; rfl)
  exact {
    drivers := fun driver hdriver => (hbound ▸ h.drivers driver hdriver :)
    queued := h.queued
    ackIds := fun ack hack => (hbound ▸ h.ackIds ack hack :)
    appliedIds := fun entry hentry => (hbound ▸ h.appliedIds entry hentry :)
    current := fun other hother => by
      obtain rfl := Option.some.inj hother
      have hasked : ¬ (run.ackAttempted = false ∨ false = true) := by simp [hattempted]
      exact ⟨(hbound ▸ hok.id :), hok.tracker, hok.attempt, fun hun => absurd hun hasked,
        fun hun => absurd hun hasked, fun hun => absurd hun hasked⟩
    respawn := fun _ => rfl
    once := h.once
    acks := h.acks
    applied := h.applied
    declared := h.declared
    cancelled := fun htaken _ other hother => by
      obtain rfl := Option.some.inj hother
      exact h.cancelled htaken (by rw [hpoll]; rfl) run hrun
    closed := fun hclosed hnot => absurd ((h.closed hclosed hnot).1.symm.trans hrun) nofun
    running := h.running
    published := h.published
    phase := ⟨hacked, hlogged⟩ }

/-- `acknowledge_ready` is called, or the supervisor is gone. -/
theorem Inv.acknowledge {update : TrackerUpdate} {context : Context} {answer : Bool}
    (h : Inv settings s) (hphase : s.phase = .ackCall o update context)
    (hrun : s.vars.current = some run) :
    Inv settings (s.acknowledge run o update context answer) := by
  have hasking : s.phase.asking = true := by rw [hphase]; rfl
  have hopening : s.phase.opening = false := by rw [hphase]; rfl
  have hcancelling : s.phase.cancelling = false := by rw [hphase]; rfl
  have hexpiring : ¬ Expiring s s.phase := by rw [hphase]; exact id
  have hknown := h.phase
  rw [hphase] at hknown
  obtain ⟨hask, hlogged, hcontext⟩ := hknown
  obtain ⟨other, hother, -, hattempted⟩ := hask.run
  obtain rfl := Option.some.inj (hrun.symm.trans hother)
  cases hsupervisor : s.supervisor with
  | false =>
    have hfree : Inv settings ({ s with locked := false }.enter .pollObservations) :=
      h.moved (by rw [Sys.bound_of_opening hopening]; rfl) rfl rfl rfl rfl rfl rfl nofun
        (fun htaken _ => ⟨htaken, hcancelling⟩)
        (fun hnot => ⟨hnot, fun hold => absurd hold hexpiring⟩)
        h.running h.published trivial
    have hstep : s.acknowledge run o update context answer =
        ({ s with locked := false }.enter .pollObservations).enter (Sys.resume context) := by
      simp [Sys.acknowledge, Sys.enter, hsupervisor]
    rw [hstep]
    exact hfree.resumed rfl rfl rfl id (by cases context <;> exact hcontext)
  | true =>
    have hcalled : Inv settings ((s.called run o update answer).enter .pollObservations) :=
      h.called hask hasking hopening hexpiring hrun
    cases answer with
    | false =>
      have hstep : s.acknowledge run o update context false =
          ((s.called run o update false).enter .pollObservations).enter (Sys.resume context) := by
        simp [Sys.acknowledge, Sys.called, Sys.enter, hsupervisor]
      rw [hstep]
      exact hcalled.resumed rfl rfl rfl id (by cases context <;> exact hcontext)
    | true =>
      have hready : Inv settings { (s.called run o update true).enter .pollObservations with
          vars := { s.vars with
            everReady := true, respawnDeadline := none, current := some { run with ready := true } }
          phase := .ackHealth run.pid o update context } :=
        hcalled.becameReady rfl hrun hattempted ⟨_, List.mem_cons_self, rfl, rfl⟩ hlogged
      simpa [Sys.acknowledge, Sys.called, Sys.enter, hsupervisor] using hready

/-- A move beside the monitor. -/
theorem Inv.framed (h : Inv settings s) (hvars : s'.vars = s.vars)
    (hdrivers : s'.drivers = s.drivers)
    (hobservations : s'.observations = s.observations) (hphase : s'.phase = s.phase)
    (hhistory : s'.history = { s.history with published := s'.history.published })
    (hcancel : s.probeCancel = true → s'.probeCancel = true)
    (hrunning : Shown s.history.acks s'.status.state)
    (hpublished : ∀ p ∈ s'.history.published, p.Ok s.history.acks s.history.applied) :
    Inv settings s' := by
  refine h.moved (by simp only [Sys.bound, hvars, hphase]) (by rw [hvars]) (by rw [hvars])
    (by rw [hvars]) hdrivers hobservations hhistory (by rw [hphase]; exact id)
    (by rw [hvars, hphase]; exact And.intro) (fun hnot => ⟨hvars ▸ hnot, fun hold => ?_⟩) hrunning
    hpublished ?_
  · rw [hphase]
    unfold Expiring at hold ⊢
    split at hold <;> first | exact hold | exact hcancel hold
  · rw [hphase]
    exact h.phase.congr hvars hobservations (by rw [hhistory]) (by rw [hhistory]) (by rw [hhistory])

/-- A timer arm is polled. -/
theorem Inv.pollTimer {p next : Phase} {timer : Timer} {fires : Bool} (h : Inv settings s)
    (hold : s.phase = p) (hopening : p.opening = false) (hcancelling : p.cancelling = false)
    (hexpiring : ¬ Expiring s p)
    (hnext : Inv settings (s.enter next)) :
    Inv settings (s.pollTimer settings timer fires next) := by
  unfold Sys.pollTimer
  split
  · split
    · exact h.left hold hopening.symm nofun hcancelling hexpiring
        ⟨List.prefix_rfl, fun _ ho => .inl ho⟩
    · exact hnext
  · exact hnext

/-- The event arm. -/
theorem Inv.handleEvent {event : SupervisorEvent} (h : Inv settings s)
    (hphase : s.phase = .pollEvents) : Inv settings (s.handleEvent event) := by
  cases event <;> exact h.left hphase rfl nofun rfl id trivial

/-- The request arm. -/
theorem Inv.handleRequest {id : ℕ} {requests : List ℕ} (h : Inv settings s)
    (hphase : s.phase = .pollRequests) :
    Inv settings (({ s with requests }.handleRequest id).enter .pollCancel) := by
  have hframed (refused : List (ℕ × String)) : Inv settings { s with requests, refused } :=
    h.framed rfl rfl rfl rfl rfl (fun h => h) h.running h.published
  have hleft (refused : List (ℕ × String)) :
      Inv settings ({ s with requests, refused }.enter .pollCancel) :=
    (hframed refused).left hphase rfl nofun rfl (fun h => h) trivial
  simp only [Sys.handleRequest]
  split
  · split <;> exact hleft _
  · exact hleft _

/-- An observation is taken and applied. -/
theorem Inv.taken {p : Phase} {observations : List Observation} {context : Context}
    (h : Inv settings s) (hqueue : s.observations = o :: observations) (hold : s.phase = p)
    (hopening : p.opening = false) (hcancelling : p.cancelling = false)
    (hexpiring : ¬ Expiring s p) (hcontext : Pending settings { s with observations } o context) :
    Inv settings ({ s with observations }.applyObservation settings o context) := by
  have hpopped := h.popped hqueue hold hopening hcancelling hexpiring
  have hsame : ({ s with observations }.enter .pollObservations).applyObservation
      settings o context =
      { s with observations }.applyObservation settings o context := by
    simp only [Sys.applyObservation, Sys.applyTo, Sys.enter]
    rfl
  rw [← hsame]
  refine hpopped.applying rfl (h.queued o (hqueue ▸ List.mem_cons_self)) ?_
  cases context <;> exact hcontext

/-- The next observation of a drain. -/
theorem DrainOk.pending {timer : Timer} {observations queued rest : List Observation}
    (h : DrainOk settings s.vars s.observations s.history.applied queued rest)
    (hqueue : s.observations = o :: observations) :
    Pending settings { s with observations } o (.drain timer queued rest.tail) := by
  have hwaiting := h.waiting
  rw [hqueue] at hwaiting
  cases rest with
  | nil =>
    exact ⟨List.nil_prefix, fun q hq => .inr (.inr ((h.handled q hq).resolve_left (by simp)))⟩
  | cons first rest =>
    obtain ⟨rfl, hrest⟩ := List.cons_prefix_cons.mp hwaiting
    refine ⟨hrest, fun q hq => ?_⟩
    rcases h.handled q hq with hmem | hdone
    · exact (List.mem_cons.mp hmem).elim (fun heq => .inr (.inl heq)) .inl
    · exact .inr (.inr hdone)

/-- A step of the monitor keeps the invariant. -/
theorem Inv.monitorStep {c : Choice} (h : Inv settings s)
    (hstep : s.monitorStep settings c = some s') : Inv settings s' := by
  have hknown := h.phase
  cases hphase : s.phase with
  | pollCancel =>
    simp only [Sys.monitorStep, hphase] at hstep
    split at hstep <;> obtain rfl := Option.some.inj hstep
    · refine h.moved ?_ rfl rfl rfl rfl rfl rfl nofun nofun nofun h.running h.published rfl
      rw [Sys.bound_of_opening (s := s) (by rw [hphase]; rfl)]
      rfl
    · rename_i hnot
      refine h.entered hphase rfl nofun rfl (fun hnone hold => ?_) trivial
      have hcancel : s.probeCancel = true := hold
      exact absurd (by simp [hnone, hcancel]) hnot
  | pollEvents =>
    simp only [Sys.monitorStep, hphase] at hstep
    split at hstep
    · rename_i event events _
      obtain rfl := Option.some.inj hstep
      have hframed : Inv settings { s with events } :=
        h.framed rfl rfl rfl rfl rfl id h.running h.published
      exact hphase ▸ hframed.handleEvent hphase
    · split at hstep <;> obtain rfl := Option.some.inj hstep
      all_goals exact h.left hphase rfl nofun rfl id trivial
  | pollInitial =>
    simp only [Sys.monitorStep, hphase] at hstep
    obtain rfl := Option.some.inj hstep
    exact h.pollTimer hphase rfl rfl id (h.left hphase rfl nofun rfl id trivial)
  | pollRespawn =>
    simp only [Sys.monitorStep, hphase] at hstep
    obtain rfl := Option.some.inj hstep
    exact h.pollTimer hphase rfl rfl id (h.left hphase rfl nofun rfl id trivial)
  | pollRequests =>
    simp only [Sys.monitorStep, hphase] at hstep
    split at hstep <;> obtain rfl := Option.some.inj hstep
    · exact hphase ▸ h.handleRequest hphase
    · exact h.left hphase rfl nofun rfl id trivial
  | pollObservations =>
    simp only [Sys.monitorStep, hphase] at hstep
    split at hstep <;> obtain rfl := Option.some.inj hstep
    · rename_i hqueue
      exact h.taken hqueue hphase rfl rfl id trivial
    · exact h.left hphase rfl nofun rfl id trivial
  | stopDriver next =>
    simp only [Sys.monitorStep, hphase, Option.ite_none_right_eq_some] at hstep
    obtain ⟨hroom, hstep⟩ := hstep
    obtain rfl := Option.some.inj hstep
    exact h.driverStopped hroom hphase
  | startedHealth pid startedAt previous =>
    simp only [Sys.monitorStep, hphase] at hstep
    obtain rfl := Option.some.inj hstep
    exact h.left hphase rfl nofun rfl id h.running
  | startedPublish pid startedAt previous lifecycle =>
    simp only [Sys.monitorStep, hphase] at hstep
    obtain rfl := Option.some.inj hstep
    rw [hphase] at hknown
    exact h.publishing hphase rfl rfl rfl id hknown (by simp) trivial
  | startedRun pid startedAt =>
    simp only [Sys.monitorStep, hphase] at hstep
    obtain rfl := Option.some.inj hstep
    exact h.startRun hphase
  | restartingPublish attempt previous =>
    simp only [Sys.monitorStep, hphase] at hstep
    obtain rfl := Option.some.inj hstep
    exact h.publishing hphase rfl rfl rfl id nofun (by simp) trivial
  | drain timer queued rest =>
    rw [hphase] at hknown
    simp only [Sys.monitorStep, hphase] at hstep
    split at hstep <;> obtain rfl := Option.some.inj hstep
    · rename_i hqueue
      exact h.taken hqueue hphase rfl rfl id (DrainOk.pending hknown hqueue)
    · rename_i hempty
      exact h.declare hphase hempty
  | storeTimeout =>
    simp only [Sys.monitorStep, hphase] at hstep
    obtain rfl := Option.some.inj hstep
    have hframed : Inv settings { s with probeTimeout := true } :=
      h.framed rfl rfl rfl rfl rfl id h.running h.published
    exact hframed.entered hphase rfl nofun rfl (fun _ _ => trivial) trivial
  | cancelProbes =>
    simp only [Sys.monitorStep, hphase] at hstep
    obtain rfl := Option.some.inj hstep
    have hframed : Inv settings { s with probeCancel := true } :=
      h.framed rfl rfl rfl rfl rfl (fun _ => rfl) h.running h.published
    exact hframed.entered hphase rfl nofun rfl (fun _ _ => rfl) trivial
  | cancelAll =>
    simp only [Sys.monitorStep, hphase] at hstep
    obtain rfl := Option.some.inj hstep
    have hframed : Inv settings { s with cancel := true } :=
      h.framed rfl rfl rfl rfl rfl id h.running h.published
    exact hframed.entered hphase rfl nofun rfl (fun _ hold => hold) trivial
  | ackLock o update context =>
    rw [hphase] at hknown
    simp only [Sys.monitorStep, hphase] at hstep
    obtain rfl := Option.some.inj hstep
    have hframed : Inv settings { s with locked := true } :=
      h.framed rfl rfl rfl rfl rfl id h.running h.published
    exact hframed.left hphase rfl (fun _ => rfl) rfl id
      ⟨hknown.1, hknown.2.1, by cases context <;> exact hknown.2.2⟩
  | ackCall o update context =>
    simp only [Sys.monitorStep, hphase, Option.map_eq_some_iff] at hstep
    obtain ⟨run, hrun, rfl⟩ := hstep
    exact h.acknowledge hphase hrun
  | ackHealth pid o update context =>
    rw [hphase] at hknown
    simp only [Sys.monitorStep, hphase] at hstep
    obtain rfl := Option.some.inj hstep
    exact h.left hphase rfl nofun rfl id hknown
  | ackPublish pid o update context previous =>
    rw [hphase] at hknown
    simp only [Sys.monitorStep, hphase] at hstep
    obtain rfl := Option.some.inj hstep
    refine h.publishing hphase rfl rfl rfl id (fun other hother => ?_) (by simp [hknown.2]) trivial
    obtain rfl := InstanceState.running.inj hother
    exact hknown.1
  | healthRead o update context =>
    rw [hphase] at hknown
    simp only [Sys.monitorStep, hphase] at hstep
    obtain rfl := Option.some.inj hstep
    exact h.left hphase rfl nofun rfl id hknown
  | healthLifecycle o update context previous =>
    rw [hphase] at hknown
    simp only [Sys.monitorStep, hphase] at hstep
    obtain rfl := Option.some.inj hstep
    exact h.left hphase rfl nofun rfl id ⟨hknown.1, hknown.2, h.running⟩
  | healthPublish o update context previous lifecycle =>
    rw [hphase] at hknown
    simp only [Sys.monitorStep, hphase] at hstep
    obtain rfl := Option.some.inj hstep
    refine h.publishing hphase ?_ ?_ rfl id hknown.2.2 (by simp [hknown.1]) ?_
    · cases context <;> rfl
    · cases context <;> rfl
    · cases context <;> exact hknown.2.1
  | gaveUpPublish =>
    simp only [Sys.monitorStep, hphase] at hstep
    obtain rfl := Option.some.inj hstep
    exact h.publishing hphase rfl rfl rfl id nofun (by simp) trivial
  | terminal =>
    simp only [Sys.monitorStep, hphase] at hstep
    obtain rfl := Option.some.inj hstep
    exact h.left hphase rfl nofun rfl id trivial
  | final reason =>
    simp only [Sys.monitorStep, hphase] at hstep
    obtain rfl := Option.some.inj hstep
    exact h.publishing hphase rfl rfl rfl id nofun (by simp) trivial
  | finished => simp [Sys.monitorStep, hphase] at hstep

/-- The stop publishes a status that shows no process. -/
theorem Inv.stopPublish {state : InstanceState} (h : Inv settings s)
    (hstate : ∀ pid, state ≠ .running pid) : Inv settings (s.publish .stop state) := by
  have hshown : Shown s.history.acks state := fun pid hpid => absurd hpid (hstate pid)
  refine h.framed rfl rfl rfl rfl rfl id hshown fun p hp => ?_
  rcases List.mem_cons.mp hp with rfl | hold
  · exact ⟨hshown, by simp⟩
  · exact h.published p hold

theorem Inv.enterStop {stop : StopPhase} (h : Inv settings s) : Inv settings (s.enterStop stop) :=
  h.framed rfl rfl rfl rfl rfl id h.running h.published

/-- The answer of the reaper only moves the stop. -/
theorem Sys.reap_eq (s : Sys) (c : StopChoice) (error : String) (terminal : Bool) :
    ∃ stop, s.reap c error terminal = s.enterStop stop := by
  unfold Sys.reap
  split
  · exact ⟨_, rfl⟩
  split
  · exact ⟨_, rfl⟩
  split
  · exact ⟨_, rfl⟩
  split <;> exact ⟨_, rfl⟩

/-- A step of the stop leaves the monitor, its queues and the clock alone. -/
theorem Sys.stopStep_frame {c : StopChoice} (hstep : s.stopStep c = some s') :
    s'.vars = s.vars ∧ s'.phase = s.phase ∧ s'.drivers = s.drivers ∧ s'.requests = s.requests ∧
      s'.now = s.now := by
  cases hstop : s.stop with
  | unrequested => simp [Sys.stopStep, hstop] at hstep
  | begun =>
    simp only [Sys.stopStep, hstop] at hstep
    split at hstep <;> obtain rfl := Option.some.inj hstep <;> exact ⟨rfl, rfl, rfl, rfl, rfl⟩
  | verifying context =>
    simp only [Sys.stopStep, hstop] at hstep
    split at hstep <;> obtain rfl := Option.some.inj hstep <;> exact ⟨rfl, rfl, rfl, rfl, rfl⟩
  | locking =>
    simp only [Sys.stopStep, hstop] at hstep
    split at hstep
    · cases hstep
    · obtain rfl := Option.some.inj hstep
      exact ⟨rfl, rfl, rfl, rfl, rfl⟩
  | joining result =>
    simp only [Sys.stopStep, hstop] at hstep
    split at hstep
    · obtain rfl := Option.some.inj hstep
      exact ⟨rfl, rfl, rfl, rfl, rfl⟩
    · obtain ⟨_, heq⟩ := Option.ite_none_right_eq_some.mp hstep
      obtain rfl := Option.some.inj heq
      exact ⟨rfl, rfl, rfl, rfl, rfl⟩
  | reading result confirmed =>
    simp only [Sys.stopStep, hstop] at hstep
    split at hstep
    · split at hstep <;> obtain rfl := Option.some.inj hstep <;> exact ⟨rfl, rfl, rfl, rfl, rfl⟩
    · obtain rfl := Option.some.inj hstep
      exact ⟨rfl, rfl, rfl, rfl, rfl⟩
  | reaping error terminal =>
    simp only [Sys.stopStep, hstop, Option.some.injEq] at hstep
    obtain ⟨stop, heq⟩ := s.reap_eq c error terminal
    rw [← hstep, heq]
    exact ⟨rfl, rfl, rfl, rfl, rfl⟩
  | done result => simp [Sys.stopStep, hstop] at hstep
  | _ =>
    simp only [Sys.stopStep, hstop, Option.some.injEq] at hstep
    subst hstep
    exact ⟨rfl, rfl, rfl, rfl, rfl⟩

/-- A step of the stop keeps the invariant. -/
theorem Inv.stopStep {c : StopChoice} (h : Inv settings s) (hstep : s.stopStep c = some s') :
    Inv settings s' := by
  cases hstop : s.stop with
  | unrequested => simp [Sys.stopStep, hstop] at hstep
  | begun =>
    simp only [Sys.stopStep, hstop] at hstep
    split at hstep <;> obtain rfl := Option.some.inj hstep <;> exact h.enterStop
  | verifying context =>
    simp only [Sys.stopStep, hstop] at hstep
    split at hstep <;> obtain rfl := Option.some.inj hstep <;> exact h.enterStop
  | storing =>
    simp only [Sys.stopStep, hstop] at hstep
    obtain rfl := Option.some.inj hstep
    exact h.framed rfl rfl rfl rfl rfl id h.running h.published
  | cancelling =>
    simp only [Sys.stopStep, hstop] at hstep
    obtain rfl := Option.some.inj hstep
    exact h.framed rfl rfl rfl rfl rfl (fun _ => rfl) h.running h.published
  | publishing =>
    simp only [Sys.stopStep, hstop] at hstep
    obtain rfl := Option.some.inj hstep
    exact (h.stopPublish fun _ => InstanceState.noConfusion).enterStop
  | locking =>
    simp only [Sys.stopStep, hstop] at hstep
    split at hstep
    · cases hstep
    · obtain rfl := Option.some.inj hstep
      exact h.framed rfl rfl rfl rfl rfl id h.running h.published
  | stopping present =>
    simp only [Sys.stopStep, hstop] at hstep
    obtain rfl := Option.some.inj hstep
    exact h.enterStop
  | joining result =>
    simp only [Sys.stopStep, hstop] at hstep
    split at hstep
    · obtain rfl := Option.some.inj hstep
      exact h.enterStop
    · obtain ⟨-, heq⟩ := Option.ite_none_right_eq_some.mp hstep
      obtain rfl := Option.some.inj heq
      exact h.enterStop
  | aborting result =>
    simp only [Sys.stopStep, hstop] at hstep
    obtain rfl := Option.some.inj hstep
    exact h.framed rfl rfl rfl rfl rfl id h.running h.published
  | reading result confirmed =>
    simp only [Sys.stopStep, hstop] at hstep
    split at hstep
    · split at hstep <;> obtain rfl := Option.some.inj hstep <;> exact h.enterStop
    · obtain rfl := Option.some.inj hstep
      exact h.enterStop
  | reaping error terminal =>
    simp only [Sys.stopStep, hstop] at hstep
    obtain rfl := Option.some.inj hstep
    obtain ⟨stop, heq⟩ := s.reap_eq c error terminal
    rw [heq]
    exact h.enterStop
  | publishStopped =>
    simp only [Sys.stopStep, hstop] at hstep
    obtain rfl := Option.some.inj hstep
    exact (h.stopPublish fun _ => InstanceState.noConfusion).enterStop
  | done result => simp [Sys.stopStep, hstop] at hstep

/-- A move keeps the invariant. -/
theorem Inv.step {m : Move} (h : Inv settings s) (hstep : s.step settings m = some s') :
    Inv settings s' := by
  cases m with
  | event event =>
    obtain ⟨-, heq⟩ := Option.ite_none_left_eq_some.mp hstep
    obtain rfl := Option.some.inj heq
    exact h.framed rfl rfl rfl rfl rfl id h.running h.published
  | closeEvents =>
    obtain rfl := Option.some.inj hstep
    exact h.framed rfl rfl rfl rfl rfl id h.running h.published
  | observation o =>
    obtain ⟨hdriver, heq⟩ := Option.ite_none_right_eq_some.mp hstep
    obtain rfl := Option.some.inj heq
    exact h.pushed hdriver
  | request id =>
    obtain rfl := Option.some.inj hstep
    exact h.framed rfl rfl rfl rfl rfl (fun h => h) h.running h.published
  | tick duration =>
    obtain rfl := Option.some.inj hstep
    exact h.framed rfl rfl rfl rfl rfl id h.running h.published
  | drop =>
    obtain rfl := Option.some.inj hstep
    exact h.framed rfl rfl rfl rfl rfl (fun _ => rfl) h.running h.published
  | monitor c =>
    obtain ⟨-, hstep⟩ := Option.ite_none_left_eq_some.mp hstep
    exact h.monitorStep hstep
  | callStop =>
    simp only [Sys.step] at hstep
    split at hstep
    · obtain rfl := Option.some.inj hstep
      exact h.enterStop
    · cases hstep
  | stop c => exact h.stopStep hstep

/-- The invariant holds when an instance is spawned. -/
theorem Sys.Spawned.inv (h : s.Spawned) : Inv settings s where
  drivers := by simp [h.drivers]
  queued := by simp [h.observations]
  ackIds := by simp [h.history]
  appliedIds := by simp [h.history]
  current := by simp [h.vars]
  respawn := by simp [h.vars]
  once := by simp [h.history]
  acks := by simp [h.history]
  applied := by simp [h.history]
  declared := by simp [h.history]
  cancelled := by simp [h.vars]
  closed := by simp [h.history]
  running := by simp [Shown, h.status.1]
  published := by simp [h.history]
  phase := by simp [h.phase, PhaseOk]

end Steps

/-- Every run of an instance keeps the discipline of readiness. -/
theorem readiness_disciplined
    (h : Reach (Sys.step settings) (fun _ _ => True) Sys.Spawned s) : Disciplined settings s :=
  Inv.disciplined (h.invariant (fun _ hs => hs.inv) fun _ _ _ hinv _ hstep => Inv.step hinv hstep)

/-- A core that starts, answers its first probe and is acknowledged. -/
theorem readiness_disciplined_running : ∃ s, s.status.state = .running 7 ∧
    s.history.acks.length = 1 ∧
    Disciplined ⟨⟨10, 10, 3, 1, 0⟩, 100, 100⟩ s := by
  obtain ⟨s, hreach, hp⟩ := exists_reach (Sys.step ⟨⟨10, 10, 3, 1, 0⟩, 100, 100⟩) (fun _ _ => True)
    (p := fun s => s.status.state = .running 7 && s.history.acks.length = 1)
    Sys.launch_spawned
    (.event (.started 7) :: List.replicate 6 (.monitor ⟨false, true, "", 0⟩) ++
      .observation ⟨1, 7, 50, 50, .healthy⟩ :: List.replicate 10 (.monitor ⟨false, true, "", 0⟩))
    (by decide +kernel)
  simp only [Bool.and_eq_true, decide_eq_true_eq] at hp
  exact ⟨s, hp.1, hp.2, readiness_disciplined hreach⟩

end Nyanpasu.Instance
