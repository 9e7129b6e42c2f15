import Nyanpasu.Instance.Probes

/-!
# What is known about probes

Three things are kept apart: how the driver tasks belong to the variables of the monitor, how
they belong to the log, and where the oneshots of the callers are. The first rests on what a
step of the monitor can do to its driver, said once in `driver_cases`.
-/

namespace Nyanpasu.Instance

open Moves

variable {settings : Settings} {plan : Plan} {s s' : Sys} {p p' : Probing}

@[simp] theorem Probing.setTask_self (p : Probing) (r : ℕ) (t : Task) :
    (p.setTask r t).tasks r = some t := Function.update_self ..

theorem Probing.setTask_of_ne (p : Probing) {r r' : ℕ} (h : r' ≠ r) (t : Task) :
    (p.setTask r t).tasks r' = p.tasks r' := Function.update_of_ne h ..

/-- A task that is there after a change is the changed one or another one. -/
theorem update_eq_some {tasks : ℕ → Option Task} {r r' : ℕ} {t t' : Task}
    (h : Function.update tasks r (some t) r' = some t') :
    r' = r ∧ t' = t ∨ r' ≠ r ∧ tasks r' = some t' := by
  by_cases heq : r' = r
  · subst heq
    rw [Function.update_self] at h
    exact .inl ⟨rfl, (Option.some.inj h).symm⟩
  · rw [Function.update_of_ne heq] at h
    exact .inr ⟨heq, h⟩

section Frame

/-- A move of the instance that leaves its driver alone. -/
structure Sys.Steady (s s' : Sys) : Prop where
  driver : s'.vars.driver = s.vars.driver
  drivers : s'.drivers = s.drivers
  current : ∀ run', s'.vars.current = some run' →
    ∃ run, s.vars.current = some run ∧ run.runId = run'.runId ∧ run.pid = run'.pid
  opening : s'.phase.opening = true → s.phase.opening = true

/-- It leaves the queue of requests alone as well. -/
structure Sys.Quiet (s s' : Sys) : Prop extends s.Steady s' where
  requests : s'.requests = s.requests

theorem Sys.Quiet.of_vars (hvars : s'.vars = s.vars) (hdrivers : s'.drivers = s.drivers)
    (hrequests : s'.requests = s.requests)
    (hopening : s'.phase.opening = true → s.phase.opening = true) : s.Quiet s' where
  driver := by rw [hvars]
  drivers := hdrivers
  requests := hrequests
  current := fun run hrun => ⟨run, by rw [← hvars, hrun], rfl, rfl⟩
  opening := hopening

/-- A move that forgets the run, or keeps it with another tracker. -/
theorem Sys.Quiet.of_current (hdriver : s'.vars.driver = s.vars.driver)
    (hdrivers : s'.drivers = s.drivers) (hrequests : s'.requests = s.requests)
    (hcurrent : s'.vars.current = none ∨ ∃ run run', s.vars.current = some run ∧
      s'.vars.current = some run' ∧ run.runId = run'.runId ∧ run.pid = run'.pid)
    (hopening : s'.phase.opening = true → s.phase.opening = true) : s.Quiet s' := by
  refine ⟨⟨hdriver, hdrivers, fun run' hrun' => ?_, hopening⟩, hrequests⟩
  rcases hcurrent with hnone | ⟨run, new, hold, hnew, hid, hpid⟩
  · rw [hnone] at hrun'
    cases hrun'
  · rw [hnew] at hrun'
    obtain rfl := Option.some.inj hrun'
    exact ⟨run, hold, hid, hpid⟩

theorem Sys.opening_resume (context : Context) : (Sys.resume context).opening = false := by
  cases context <;> rfl

theorem quiet_applyObservation {o : Observation} {observations : List Observation}
    {context : Context} :
    s.Quiet (Sys.applyObservation settings { s with observations } o context) := by
  unfold Sys.applyObservation
  cases hcurrent : s.vars.current with
  | none =>
    exact .of_vars rfl rfl rfl (by simp [Sys.enter, Sys.opening_resume])
  | some run =>
    simp only
    split
    · exact .of_vars rfl rfl rfl (by simp [Sys.enter, Sys.opening_resume])
    · simp only [Sys.applyTo]
      split
      all_goals
        exact .of_current rfl rfl rfl (Or.inr ⟨run, _, hcurrent, rfl, rfl, rfl⟩) (by rintro ⟨⟩)

theorem quiet_pollTimer {timer : Timer} {fires : Bool} {next : Phase}
    (hnext : next.opening = false) : s.Quiet (s.pollTimer settings timer fires next) := by
  have henter : (s.enter next).phase.opening = true → s.phase.opening = true := by
    simp [Sys.enter, hnext]
  unfold Sys.pollTimer
  split
  · split
    · exact .of_vars rfl rfl rfl (by rintro ⟨⟩)
    · exact .of_vars rfl rfl rfl henter
  · exact .of_vars rfl rfl rfl henter

theorem quiet_declare {timer : Timer} {queued : List Observation} :
    s.Quiet (s.declare settings timer queued) := by
  unfold Sys.declare
  split
  · exact .of_vars rfl rfl rfl (by rintro ⟨⟩)
  · exact .of_current rfl rfl rfl (Or.inl rfl) (by rintro ⟨⟩)

theorem quiet_acknowledge {run : RunState} {o : Observation} {update : TrackerUpdate}
    {context : Context} {answer : Bool} (hrun : s.vars.current = some run) :
    s.Quiet (s.acknowledge run o update context answer) := by
  simp only [Sys.acknowledge]
  split
  · exact .of_current rfl rfl rfl (Or.inr ⟨run, _, hrun, rfl, rfl, rfl⟩) (by rintro ⟨⟩)
  · exact .of_vars rfl rfl rfl (by simp [Sys.enter, Sys.opening_resume])

/-- What a step of the monitor can do to the driver. -/
inductive DriverCase (settings : Settings) (s s' : Sys) : Prop where
  | stopDriver (next : AfterStop) (hphase : s.phase = .stopDriver next)
      (hlive : s'.live = true) (hdriver : s'.vars.driver = none)
      (hdrivers : s'.drivers = s.drivers) (hrequests : s'.requests = s.requests)
  | startedRun (pid startedAt : ℕ) (hphase : s.phase = .startedRun pid startedAt)
      (heq : s' = s.startRun settings pid startedAt)
  | request (caller : ℕ) (requests : List ℕ) (hphase : s.phase = .pollRequests)
      (hqueue : s.requests = caller :: requests) (hlive : s'.live = true)
      (hvars : s'.vars = s.vars) (hdrivers : s'.drivers = s.drivers)
      (hrequests : s'.requests = requests) (hopening : s'.phase.opening = false)
  | acknowledge (o : Observation) (update : TrackerUpdate) (context : Context)
      (hphase : s.phase = .ackCall o update context) (hlive : s'.live = true)
      (hquiet : s.Quiet s')
  | quiet (hfollow : ∀ p : Probing, p.sys = s → p.follow s' = p.advance s')
      (hquiet : s.Quiet s')

theorem Sys.live_of (hphase : s.phase.isFinished = false) (haborted : s.aborted = false) :
    s.live = true := by
  simp [Sys.live, hphase, haborted]

theorem Sys.driverStopped_frame (s : Sys) (next : AfterStop) :
    (s.driverStopped next).phase.isFinished = false ∧ (s.driverStopped next).aborted = s.aborted ∧
      (s.driverStopped next).vars.driver = none ∧ (s.driverStopped next).drivers = s.drivers ∧
      (s.driverStopped next).requests = s.requests := by
  cases next <;> exact ⟨rfl, rfl, rfl, rfl, rfl⟩

theorem Sys.handleRequest_frame (s : Sys) (caller : ℕ) :
    (s.handleRequest caller).vars = s.vars ∧ (s.handleRequest caller).drivers = s.drivers ∧
      (s.handleRequest caller).requests = s.requests ∧
      (s.handleRequest caller).aborted = s.aborted := by
  simp only [Sys.handleRequest]
  split
  · split <;> exact ⟨rfl, rfl, rfl, rfl⟩
  · exact ⟨rfl, rfl, rfl, rfl⟩

theorem Sys.isFinished_resume (context : Context) : (Sys.resume context).isFinished = false := by
  cases context <;> rfl

/-- Off the special phases a step of the monitor is followed like any other move. -/
theorem follow_eq_advance (hstop : ∀ next, s.phase ≠ .stopDriver next)
    (hstart : ∀ pid startedAt, s.phase ≠ .startedRun pid startedAt)
    (hrequest : s.phase ≠ .pollRequests)
    (hack : ∀ o update context, s.phase ≠ .ackCall o update context) (p : Probing)
    (hp : p.sys = s) : p.follow s' = p.advance s' := by
  subst hp
  unfold Probing.follow
  split
  · rename_i next hphase
    exact absurd hphase (hstop next)
  · rename_i pid startedAt hphase
    exact absurd hphase (hstart pid startedAt)
  · rename_i hphase
    exact absurd hphase hrequest
  · rename_i o update context hphase
    exact absurd hphase (hack o update context)
  · rfl

/-- A step that does not end the monitor is a plain move. -/
theorem advance_of_live (p : Probing) (hlive : s'.live = true) :
    p.advance s' = { p with sys := s' } := by
  simp [Probing.advance, hlive]

/-- **Inversion.** -/
theorem driver_cases {c : Choice} (hlive : s.aborted = false)
    (hstep : s.monitorStep settings c = some s') : DriverCase settings s s' := by
  cases hphase : s.phase with
  | stopDriver next =>
    simp only [Sys.monitorStep, hphase, Option.ite_none_right_eq_some, Option.some.injEq] at hstep
    obtain ⟨-, rfl⟩ := hstep
    obtain ⟨hfinished, haborted, hdriver, hdrivers, hrequests⟩ := s.driverStopped_frame next
    exact .stopDriver next hphase (Sys.live_of hfinished (haborted.trans hlive)) hdriver
      hdrivers hrequests
  | startedRun pid startedAt =>
    simp only [Sys.monitorStep, hphase, Option.some.injEq] at hstep
    exact .startedRun pid startedAt hphase hstep.symm
  | pollRequests =>
    simp only [Sys.monitorStep, hphase] at hstep
    cases hrequests : s.requests with
    | cons caller requests =>
      simp only [hrequests, Option.some.injEq] at hstep
      subst hstep
      obtain ⟨hvars, hdrivers, hqueue, haborted⟩ := Sys.handleRequest_frame
        { s with requests, phase := .pollRequests } caller
      exact .request caller requests hphase hrequests (Sys.live_of rfl (haborted.trans hlive)) hvars
        hdrivers hqueue rfl
    | nil =>
      simp only [hrequests, Option.some.injEq] at hstep
      subst hstep
      refine .quiet (fun p hp => ?_) (.of_vars rfl rfl rfl (by rintro ⟨⟩))
      subst hp
      rw [advance_of_live p (by simp [Sys.live, Sys.enter, Phase.isFinished, hlive])]
      simp [Probing.follow, hphase, hrequests]
  | ackCall o update context =>
    simp only [Sys.monitorStep, hphase] at hstep
    obtain ⟨run, hrun, rfl⟩ := Option.map_eq_some_iff.mp hstep
    refine .acknowledge o update context hphase ?_ (quiet_acknowledge hrun)
    simp only [Sys.acknowledge]
    split
    · exact Sys.live_of rfl hlive
    · exact Sys.live_of (Sys.isFinished_resume context) hlive
  | pollCancel =>
    refine .quiet (follow_eq_advance (by simp [hphase]) (by simp [hphase]) (by simp [hphase])
      (by simp [hphase])) ?_
    simp only [Sys.monitorStep, hphase] at hstep
    split at hstep <;> obtain rfl := Option.some.inj hstep
    · exact ⟨⟨rfl, rfl, fun run hrun => ⟨run, hrun, rfl, rfl⟩, by rintro ⟨⟩⟩, rfl⟩
    · exact .of_vars rfl rfl rfl (by rintro ⟨⟩)
  | pollEvents =>
    refine .quiet (follow_eq_advance (by simp [hphase]) (by simp [hphase]) (by simp [hphase])
      (by simp [hphase])) ?_
    simp only [Sys.monitorStep, hphase] at hstep
    split at hstep
    · rename_i event events _
      obtain rfl := Option.some.inj hstep
      cases event <;> exact .of_vars rfl rfl rfl (by rintro ⟨⟩)
    · split at hstep
      all_goals
        obtain rfl := Option.some.inj hstep
        exact .of_vars rfl rfl rfl (by rintro ⟨⟩)
  | pollObservations =>
    refine .quiet (follow_eq_advance (by simp [hphase]) (by simp [hphase]) (by simp [hphase])
      (by simp [hphase])) ?_
    simp only [Sys.monitorStep, hphase] at hstep
    split at hstep <;> obtain rfl := Option.some.inj hstep
    · exact quiet_applyObservation
    · exact .of_vars rfl rfl rfl (by rintro ⟨⟩)
  | pollInitial | pollRespawn =>
    refine .quiet (follow_eq_advance (by simp [hphase]) (by simp [hphase]) (by simp [hphase])
      (by simp [hphase])) ?_
    simp only [Sys.monitorStep, hphase, Option.some.injEq] at hstep
    exact hstep ▸ quiet_pollTimer rfl
  | drain timer queued rest =>
    refine .quiet (follow_eq_advance (by simp [hphase]) (by simp [hphase]) (by simp [hphase])
      (by simp [hphase])) ?_
    simp only [Sys.monitorStep, hphase] at hstep
    split at hstep <;> obtain rfl := Option.some.inj hstep
    · exact quiet_applyObservation
    · exact quiet_declare
  | finished => simp [Sys.monitorStep, hphase] at hstep
  | healthPublish o update context previous lifecycle =>
    refine .quiet (follow_eq_advance (by simp [hphase]) (by simp [hphase]) (by simp [hphase])
      (by simp [hphase])) ?_
    simp only [Sys.monitorStep, hphase, Option.some.injEq] at hstep
    subst hstep
    exact .of_vars rfl rfl rfl (by simp [Sys.enter, Sys.opening_resume])
  | _ =>
    refine .quiet (follow_eq_advance (by simp [hphase]) (by simp [hphase]) (by simp [hphase])
      (by simp [hphase])) ?_
    simp only [Sys.monitorStep, hphase, Option.some.injEq] at hstep
    subst hstep
    exact .of_vars rfl rfl rfl (by simp [hphase, Sys.enter, Sys.publishStatus, Phase.opening])

end Frame

section Links

/-- How the tasks belong to the variables of the monitor. -/
structure Linked (s : Sys) (tasks : ℕ → Option Task) : Prop where
  started : ∀ r t, tasks r = some t → (r, t.pid) ∈ s.drivers
  /-- Only the driver of the monitor may still run. -/
  only : ∀ r t, tasks r = some t → t.stage ≠ .ended → s.vars.driver = some r
  /-- The driver is there, and the current run is its run. -/
  driver : ∀ r, s.vars.driver = some r → ∃ t, tasks r = some t ∧
    ∀ run, s.vars.current = some run → run.runId = r ∧ run.pid = t.pid
  /-- Without a monitor no driver goes on. -/
  halted : s.live = false → ∀ r t, tasks r = some t → t.stage ≠ .ended → t.cancelled = true
  emptied : ∀ r t, tasks r = some t → t.stage = .ended → t.commands = []
  opening : s.phase.opening = true → s.vars.driver = none

variable {tasks : ℕ → Option Task} {r : ℕ} {t t' : Task}

theorem Linked.quiet (h : Linked s tasks) (hquiet : s.Steady s')
    (hlive : s'.live = false → s.live = false) : Linked s' tasks where
  started := fun r t ht => hquiet.drivers ▸ h.started r t ht
  only := fun r t ht hstage => hquiet.driver.trans (h.only r t ht hstage)
  driver := by
    intro r hr
    obtain ⟨t, ht, hcurrent⟩ := h.driver r (hquiet.driver ▸ hr)
    refine ⟨t, ht, fun run' hrun' => ?_⟩
    obtain ⟨run, hrun, hid, hpid⟩ := hquiet.current run' hrun'
    rw [← hid, ← hpid]
    exact hcurrent run hrun
  halted := fun hdead => h.halted (hlive hdead)
  emptied := h.emptied
  opening := fun hopening => hquiet.driver.trans (h.opening (hquiet.opening hopening))

/-- A task changes without coming back to life. -/
theorem Linked.set (h : Linked s tasks) (ht : tasks r = some t) (hpid : t'.pid = t.pid)
    (hended : t.stage = .ended → t'.stage = .ended) (hcancelled : t.cancelled = true →
      t'.cancelled = true) (hempty : t'.stage = .ended → t'.commands = []) :
    Linked s (Function.update tasks r (some t')) := by
  refine ⟨fun r' t'' hr' => ?_, fun r' t'' hr' hstage => ?_, fun r' hr' => ?_,
    fun hdead r' t'' hr' hstage => ?_, fun r' t'' hr' hstage => ?_, h.opening⟩
  · rcases update_eq_some hr' with ⟨rfl, rfl⟩ | ⟨_, hold⟩
    · exact hpid ▸ h.started r' t ht
    · exact h.started r' t'' hold
  · rcases update_eq_some hr' with ⟨rfl, rfl⟩ | ⟨_, hold⟩
    · exact h.only r' t ht fun hend => hstage (hended hend)
    · exact h.only r' t'' hold hstage
  · obtain ⟨t₀, ht₀, hcurrent⟩ := h.driver r' hr'
    by_cases heq : r' = r
    · subst heq
      obtain rfl : t₀ = t := by simpa [ht₀] using ht
      exact ⟨t', Function.update_self .., fun run hrun => by
        rw [hpid]
        exact hcurrent run hrun⟩
    · exact ⟨t₀, by rw [Function.update_of_ne heq, ht₀], hcurrent⟩
  · rcases update_eq_some hr' with ⟨rfl, rfl⟩ | ⟨_, hold⟩
    · exact hcancelled (h.halted hdead r' t ht fun hend => hstage (hended hend))
    · exact h.halted hdead r' t'' hold hstage
  · rcases update_eq_some hr' with ⟨rfl, rfl⟩ | ⟨_, hold⟩
    · exact hempty hstage
    · exact h.emptied r' t'' hold hstage

/-- The monitor ends: its driver is cancelled. -/
theorem Linked.halt (h : Linked s tasks) (hquiet : s.Steady s')
    (hcancelled : ∀ r t, s.vars.driver = some r → tasks r = some t → t.cancelled = true) :
    Linked s' tasks where
  started := fun r t ht => hquiet.drivers ▸ h.started r t ht
  only := fun r t ht hstage => hquiet.driver.trans (h.only r t ht hstage)
  driver := by
    intro r hr
    obtain ⟨t, ht, hcurrent⟩ := h.driver r (hquiet.driver ▸ hr)
    refine ⟨t, ht, fun run' hrun' => ?_⟩
    obtain ⟨run, hrun, hid, hpid⟩ := hquiet.current run' hrun'
    rw [← hid, ← hpid]
    exact hcurrent run hrun
  halted := fun _ r t ht hstage => hcancelled r t (h.only r t ht hstage) ht
  emptied := h.emptied
  opening := fun hopening => hquiet.driver.trans (h.opening (hquiet.opening hopening))

/-- The driver has ended and is taken. -/
theorem Linked.stopped (h : Linked s tasks) (hlive : s'.live = true)
    (hdriver : s'.vars.driver = none) (hdrivers : s'.drivers = s.drivers)
    (hended : ∀ r t, s.vars.driver = some r → tasks r = some t → t.stage = .ended) :
    Linked s' tasks where
  started := fun r t ht => hdrivers ▸ h.started r t ht
  only := fun r t ht hstage => absurd (hended r t (h.only r t ht hstage) ht) hstage
  driver := fun r hr => by
    rw [hdriver] at hr
    cases hr
  halted := fun hdead => by
    rw [hlive] at hdead
    cases hdead
  emptied := h.emptied
  opening := fun _ => hdriver

/-- The new run has no task yet. -/
theorem Linked.fresh (h : Linked s tasks) (hinv : Inv settings s)
    (hopening : s.phase.opening = true) : tasks s.vars.nextRunId = none := by
  cases ht : tasks s.vars.nextRunId with
  | none => rfl
  | some t =>
    have hlt := hinv.drivers _ (h.started _ t ht)
    simp [Sys.bound, hopening] at hlt

/-- A new run becomes current with its driver. -/
theorem Linked.startRun {pid startedAt : ℕ} (h : Linked s tasks)
    (hphase : s.phase = .startedRun pid startedAt) (hlive : s.live = true)
    (hcancelled : s.vars.probesCancelled = false) :
    Linked (s.startRun settings pid startedAt)
      (Function.update tasks s.vars.nextRunId (some (.start pid))) := by
  have hnone : s.vars.driver = none := h.opening (by rw [hphase]; rfl)
  have hended : ∀ r t, tasks r = some t → t.stage = .ended := by
    intro r t ht
    by_contra hstage
    have := h.only r t ht hstage
    rw [hnone] at this
    cases this
  have hdrivers : (s.startRun settings pid startedAt).drivers =
      (s.vars.nextRunId, pid) :: s.drivers := by
    simp [Sys.startRun, hcancelled]
  have hdriver : (s.startRun settings pid startedAt).vars.driver = some s.vars.nextRunId := by
    simp [Sys.startRun, hcancelled]
  refine ⟨fun r' t'' hr' => ?_, fun r' t'' hr' hstage => ?_, fun r' hr' => ?_, fun hdead => ?_,
    fun r' t'' hr' hstage => ?_, by rintro ⟨⟩⟩
  · rw [hdrivers]
    rcases update_eq_some hr' with ⟨rfl, rfl⟩ | ⟨_, hold⟩
    · exact List.mem_cons_self
    · exact List.mem_cons_of_mem _ (h.started r' t'' hold)
  · rcases update_eq_some hr' with ⟨rfl, rfl⟩ | ⟨_, hold⟩
    · exact hdriver
    · exact absurd (hended r' t'' hold) hstage
  · rw [hdriver] at hr'
    obtain rfl := Option.some.inj hr'
    refine ⟨.start pid, Function.update_self .., fun run hrun => ?_⟩
    obtain rfl : _ = run := Option.some.inj hrun
    exact ⟨rfl, rfl⟩
  · have : s.aborted = false := by
      simp only [Sys.live, Bool.and_eq_true, Bool.not_eq_true'] at hlive
      exact hlive.2
    simp [Sys.live, Sys.startRun, Phase.isFinished, this] at hdead
  · rcases update_eq_some hr' with ⟨rfl, rfl⟩ | ⟨_, hold⟩
    · cases hstage
    · exact h.emptied r' t'' hold hstage

end Links

section Records

variable {log log' : List Event} {tasks : ℕ → Option Task} {r : ℕ} {t t' : Task} {e : Event}

/-- The monitor took the request of a caller while the run was current and ready, after the
request was made. -/
def Taken (log : List Event) (caller run pid : ℕ) : Prop :=
  ∃ current before, .taken caller (some current) :: before <:+ log ∧ current.ready = true ∧
    current.runId = run ∧ current.pid = pid ∧ .requested caller ∈ before

/-- An attempt began, for a caller only after its request was taken. -/
def Attempted (log : List Event) (a : Attempt) : Prop :=
  ∃ before, .began a :: before <:+ log ∧
    ∀ caller, a.purpose = .reconcile caller → Taken before caller a.run a.pid

/-- An attempt finished with a result before its driver was stopped. -/
def Completed (log : List Event) (a : Attempt) (result : ProbeResult) : Prop :=
  ∃ before, .finished a result :: before <:+ log ∧ Attempted before a ∧ .stopped a.run ∉ before

/-- What must have happened before an event. -/
def Event.Ok (before : List Event) : Event → Prop
  | .observed run => .stopped run ∉ before
  | .answered caller .healthy => ∃ run pid, Completed before ⟨run, pid, .reconcile caller⟩ .healthy
  | _ => True

/-- Every event of a log is in order. -/
def InOrder : List Event → Prop
  | [] => True
  | e :: before => e.Ok before ∧ InOrder before

theorem InOrder.of_suffix {before : List Event} (h : InOrder log) (hsuffix : e :: before <:+ log) :
    e.Ok before := by
  induction log with
  | nil => simp at hsuffix
  | cons f log ih =>
    rcases List.suffix_cons_iff.mp hsuffix with heq | hsuffix
    · cases heq
      exact h.1
    · exact ih h.2 hsuffix

theorem Taken.cons {caller run pid : ℕ} (h : Taken log caller run pid) (e : Event) :
    Taken (e :: log) caller run pid := by
  obtain ⟨current, before, hsuffix, hrest⟩ := h
  exact ⟨current, before, hsuffix.trans (List.suffix_cons e log), hrest⟩

theorem Attempted.cons {a : Attempt} (h : Attempted log a) (e : Event) :
    Attempted (e :: log) a := by
  obtain ⟨before, hsuffix, hrest⟩ := h
  exact ⟨before, hsuffix.trans (List.suffix_cons e log), hrest⟩

theorem Completed.cons {a : Attempt} {result : ProbeResult} (h : Completed log a result)
    (e : Event) : Completed (e :: log) a result := by
  obtain ⟨before, hsuffix, hrest⟩ := h
  exact ⟨before, hsuffix.trans (List.suffix_cons e log), hrest⟩

/-- What is known where a task stands. -/
def Stage.Ok (log : List Event) (run pid : ℕ) : Stage → Prop
  | .attemptCancel purpose | .attemptProbe purpose => Attempted log ⟨run, pid, purpose⟩
  | .respond o caller =>
      Completed log ⟨run, pid, .reconcile caller⟩ o.result ∧ o.runId = run ∧ o.pid = pid
  | .observe o => o.runId = run ∧ o.pid = pid
  | _ => True

theorem Stage.Ok.cons {run pid : ℕ} {stage : Stage} (h : stage.Ok log run pid) (e : Event) :
    stage.Ok (e :: log) run pid := by
  cases stage with
  | attemptCancel purpose | attemptProbe purpose => exact Attempted.cons h e
  | respond o caller => exact ⟨h.1.cons e, h.2⟩
  | observe o => exact h
  | _ => trivial

/-- How the tasks belong to the log. -/
structure Recorded (tasks : ℕ → Option Task) (log : List Event) : Prop where
  commands : ∀ r t caller, tasks r = some t → .reconcile caller ∈ t.commands →
    Taken log caller r t.pid
  stage : ∀ r t, tasks r = some t → t.stage.Ok log r t.pid
  stopped : ∀ r, .stopped r ∈ log → ∃ t, tasks r = some t ∧ t.stage = .ended
  inOrder : InOrder log

theorem Recorded.record (h : Recorded tasks log) (hok : e.Ok log)
    (hstopped : ∀ r, e = .stopped r → ∃ t, tasks r = some t ∧ t.stage = .ended) :
    Recorded tasks (e :: log) where
  commands := fun r t caller ht hmem => (h.commands r t caller ht hmem).cons e
  stage := fun r t ht => (h.stage r t ht).cons e
  stopped := by
    intro r hmem
    rcases List.mem_cons.mp hmem with heq | hmem
    · exact hstopped r heq.symm
    · exact h.stopped r hmem
  inOrder := ⟨hok, h.inOrder⟩

/-- Callers are told that their driver has stopped. -/
theorem Recorded.drop (h : Recorded tasks log) (detail : String) (callers : List ℕ) :
    Recorded tasks (callers.map (fun caller => .answered caller (.unhealthy (some detail))) ++
      log) := by
  induction callers with
  | nil => exact h
  | cons caller callers ih => exact ih.record trivial nofun

theorem Recorded.set (h : Recorded tasks log) (ht : tasks r = some t) (hpid : t'.pid = t.pid)
    (hcommands : ∀ caller, .reconcile caller ∈ t'.commands → Taken log caller r t.pid)
    (hstage : t'.stage.Ok log r t.pid) (hended : t.stage = .ended → t'.stage = .ended) :
    Recorded (Function.update tasks r (some t')) log where
  commands := by
    intro r' t'' caller hr' hmem
    rcases update_eq_some hr' with ⟨rfl, rfl⟩ | ⟨heq, hr'⟩
    · exact hpid ▸ hcommands caller hmem
    · exact h.commands r' t'' caller hr' hmem
  stage := by
    intro r' t'' hr'
    rcases update_eq_some hr' with ⟨rfl, rfl⟩ | ⟨heq, hr'⟩
    · exact hpid ▸ hstage
    · exact h.stage r' t'' hr'
  stopped := by
    intro r' hmem
    obtain ⟨t₀, ht₀, hend⟩ := h.stopped r' hmem
    by_cases heq : r' = r
    · subst heq
      obtain rfl : t₀ = t := by simpa [ht₀] using ht
      exact ⟨t', Function.update_self .., hended hend⟩
    · exact ⟨t₀, by rw [Function.update_of_ne heq, ht₀], hend⟩
  inOrder := h.inOrder

/-- A driver is started for a run that has no task. -/
theorem Recorded.start (h : Recorded tasks log) (hnone : tasks r = none) (pid : ℕ) :
    Recorded (Function.update tasks r (some (.start pid))) log where
  commands := by
    intro r' t'' caller hr' hmem
    rcases update_eq_some hr' with ⟨rfl, rfl⟩ | ⟨heq, hr'⟩
    · cases hmem
    · exact h.commands r' t'' caller hr' hmem
  stage := by
    intro r' t'' hr'
    rcases update_eq_some hr' with ⟨rfl, rfl⟩ | ⟨heq, hr'⟩
    · trivial
    · exact h.stage r' t'' hr'
  stopped := by
    intro r' hmem
    obtain ⟨t₀, ht₀, hend⟩ := h.stopped r' hmem
    have hne : r' ≠ r := by
      rintro rfl
      rw [hnone] at ht₀
      cases ht₀
    exact ⟨t₀, by rw [Function.update_of_ne hne, ht₀], hend⟩
  inOrder := h.inOrder

/-- The attempts that have begun and not ended. -/
def inFlight : List Event → List Attempt
  | [] => []
  | .began a :: before => a :: inFlight before
  | .finished a _ :: before => (inFlight before).erase a
  | .abandoned a :: before => (inFlight before).erase a
  | _ :: before => inFlight before

/-- The purpose of the attempt that a task is in. -/
def Stage.purpose : Stage → Option Purpose
  | .attemptCancel purpose | .attemptProbe purpose => some purpose
  | _ => none

/-- The attempts in flight are those that tasks are in, and there is at most one. -/
inductive Flight (tasks : ℕ → Option Task) (log : List Event) : Prop where
  | idle (hlog : inFlight log = []) (hidle : ∀ r t, tasks r = some t → t.stage.purpose = none)
  | one (r : ℕ) (t : Task) (purpose : Purpose) (ht : tasks r = some t)
      (hpurpose : t.stage.purpose = some purpose) (hlog : inFlight log = [⟨r, t.pid, purpose⟩])
      (hidle : ∀ r' t', tasks r' = some t' → r' ≠ r → t'.stage.purpose = none)

theorem Flight.length_le (h : Flight tasks log) : (inFlight log).length ≤ 1 := by
  cases h with
  | idle hlog => simp [hlog]
  | one r t purpose ht hpurpose hlog => simp [hlog]

/-- Nothing but the beginning and the end of attempts changes what is in flight. -/
def Event.plain : Event → Bool
  | .began _ | .finished _ _ | .abandoned _ => false
  | _ => true

theorem inFlight_plain (h : e.plain = true) : inFlight (e :: log) = inFlight log := by
  cases e <;> first | rfl | cases h

theorem Flight.record (h : Flight tasks log) (he : e.plain = true) : Flight tasks (e :: log) := by
  cases h with
  | idle hlog hidle => exact .idle ((inFlight_plain he).trans hlog) hidle
  | one r t purpose ht hpurpose hlog hidle =>
    exact .one r t purpose ht hpurpose ((inFlight_plain he).trans hlog) hidle

theorem Flight.drop (h : Flight tasks log) (detail : String) (callers : List ℕ) :
    Flight tasks (callers.map (fun caller => .answered caller (.unhealthy (some detail))) ++
      log) := by
  induction callers with
  | nil => exact h
  | cons caller callers ih => exact ih.record rfl

/-- A task changes and stays in its attempt, or out of one. -/
theorem Flight.set (h : Flight tasks log) (ht : tasks r = some t) (hpid : t'.pid = t.pid)
    (hpurpose : t'.stage.purpose = t.stage.purpose) :
    Flight (Function.update tasks r (some t')) log := by
  cases h with
  | idle hlog hidle =>
    refine .idle hlog fun r' t'' hr' => ?_
    rcases update_eq_some hr' with ⟨rfl, rfl⟩ | ⟨heq, hr'⟩
    · exact hpurpose.trans (hidle r' t ht)
    · exact hidle r' t'' hr'
  | one r₀ t₀ purpose ht₀ hpurpose₀ hlog hidle =>
    have hothers : ∀ r' t'', Function.update tasks r (some t') r' = some t'' → r' ≠ r₀ →
        t''.stage.purpose = none := by
      intro r' t'' hr' hne
      rcases update_eq_some hr' with ⟨rfl, rfl⟩ | ⟨heq, hr'⟩
      · exact hpurpose.trans (hidle r' t ht hne)
      · exact hidle r' t'' hr' hne
    by_cases heq : r₀ = r
    · subst heq
      obtain rfl : t₀ = t := by simpa [ht₀] using ht
      exact .one r₀ t' purpose (Function.update_self ..) (hpurpose.trans hpurpose₀)
        (by rw [hpid, hlog]) hothers
    · exact .one r₀ t₀ purpose (by rw [Function.update_of_ne heq, ht₀]) hpurpose₀ hlog hothers

/-- A task that is in no attempt begins one, and no other task is in one. -/
theorem Flight.begin (h : Flight tasks log) (hpid : t'.pid = t.pid)
    (hidle : ∀ r' t', tasks r' = some t' → t'.stage.purpose = none) {purpose : Purpose}
    (hpurpose : t'.stage.purpose = some purpose) :
    Flight (Function.update tasks r (some t')) (.began ⟨r, t.pid, purpose⟩ :: log) := by
  have hlog : inFlight log = [] := by
    cases h with
    | idle hlog => exact hlog
    | one r₀ t₀ purpose₀ ht₀ hpurpose₀ =>
      rw [hidle r₀ t₀ ht₀] at hpurpose₀
      cases hpurpose₀
  refine .one r t' purpose (Function.update_self ..) hpurpose ?_ fun r' t'' hr' hne => ?_
  · rw [inFlight, hlog, hpid]
  · rw [Function.update_of_ne hne] at hr'
    exact hidle r' t'' hr'

/-- The task in the attempt leaves it. -/
theorem Flight.finish (h : Flight tasks log) (ht : tasks r = some t) {purpose : Purpose}
    (hpurpose : t.stage.purpose = some purpose) (hdone : t'.stage.purpose = none)
    (he : inFlight (e :: log) = (inFlight log).erase ⟨r, t.pid, purpose⟩) :
    Flight (Function.update tasks r (some t')) (e :: log) := by
  cases h with
  | idle hlog hidle =>
    rw [hidle r t ht] at hpurpose
    cases hpurpose
  | one r₀ t₀ purpose₀ ht₀ hpurpose₀ hlog hidle =>
    have heq : r = r₀ := by
      by_contra hne
      rw [hidle r t ht hne] at hpurpose
      cases hpurpose
    subst heq
    obtain rfl : t₀ = t := by simpa [ht₀] using ht
    obtain rfl : purpose₀ = purpose := by simpa [hpurpose₀] using hpurpose
    refine .idle ?_ fun r' t'' hr' => ?_
    · rw [he, hlog]
      simp
    · by_cases heq : r' = r
      · subst heq
        rw [Function.update_self] at hr'
        obtain rfl := Option.some.inj hr'
        exact hdone
      · rw [Function.update_of_ne heq] at hr'
        exact hidle r' t'' hr' heq

theorem Flight.start (h : Flight tasks log) (hnone : tasks r = none) (pid : ℕ) :
    Flight (Function.update tasks r (some (.start pid))) log := by
  have hnew : ∀ r' t'', Function.update tasks r (some (.start pid)) r' = some t'' →
      t''.stage.purpose = none ∨ tasks r' = some t'' := by
    intro r' t'' hr'
    rcases update_eq_some hr' with ⟨rfl, rfl⟩ | ⟨heq, hr'⟩
    · exact .inl rfl
    · exact .inr hr'
  cases h with
  | idle hlog hidle =>
    refine .idle hlog fun r' t'' hr' => ?_
    rcases hnew r' t'' hr' with hidle' | hold
    · exact hidle'
    · exact hidle r' t'' hold
  | one r₀ t₀ purpose ht₀ hpurpose hlog hidle =>
    have hne : r₀ ≠ r := by
      rintro rfl
      rw [hnone] at ht₀
      cases ht₀
    refine .one r₀ t₀ purpose (by rw [Function.update_of_ne hne, ht₀]) hpurpose hlog
      fun r' t'' hr' hne' => ?_
    rcases hnew r' t'' hr' with hidle' | hold
    · exact hidle'
    · exact hidle r' t'' hold hne'

end Records

section Callers

/-- The caller whose oneshot a task holds outside its queue. -/
def Stage.caller : Stage → Option ℕ
  | .attemptCancel (.reconcile caller) | .attemptProbe (.reconcile caller) | .respond _ caller =>
      some caller
  | _ => none

/-- A task holds the oneshot of a caller. -/
def Task.Holds (t : Task) (caller : ℕ) : Prop :=
  .reconcile caller ∈ t.commands ∨ t.stage.caller = some caller

/-- Where the oneshot of a caller is: answered, with the monitor, or with a driver. -/
def Placed (p : Probing) (caller : ℕ) : Prop :=
  (∃ result, .answered caller result ∈ p.log) ∨
    (p.sys.live = true ∧ caller ∈ p.sys.requests) ∨ ∃ r t, p.tasks r = some t ∧ t.Holds caller

/-- No oneshot is lost. -/
def Accounted (p : Probing) : Prop := ∀ caller < p.calls, Placed p caller

theorem Accounted.mono (h : Accounted p) (hcalls : p'.calls = p.calls)
    (hlog : ∀ e ∈ p.log, e ∈ p'.log)
    (hqueue : ∀ caller, p.sys.live = true → caller ∈ p.sys.requests → Placed p' caller)
    (htasks : ∀ r t caller, p.tasks r = some t → t.Holds caller → Placed p' caller) :
    Accounted p' := by
  intro caller hcaller
  rw [hcalls] at hcaller
  rcases h caller hcaller with ⟨result, hmem⟩ | ⟨hlive, hmem⟩ | ⟨r, t, ht, hholds⟩
  · exact .inl ⟨result, hlog _ hmem⟩
  · exact hqueue caller hlive hmem
  · exact htasks r t caller ht hholds

/-- A task moves on with the oneshots that it holds, or answers them. -/
theorem Accounted.set (h : Accounted p) {r : ℕ} {t t' : Task} (ht : p.tasks r = some t)
    (hcalls : p'.calls = p.calls) (hlive : p'.sys.live = p.sys.live)
    (hrequests : p'.sys.requests = p.sys.requests) (hlog : ∀ e ∈ p.log, e ∈ p'.log)
    (htasks : p'.tasks = Function.update p.tasks r (some t'))
    (hholds : ∀ caller, t.Holds caller →
      t'.Holds caller ∨ ∃ result, .answered caller result ∈ p'.log) : Accounted p' := by
  refine h.mono hcalls hlog (fun caller hl hmem => .inr (.inl ⟨hlive ▸ hl, hrequests ▸ hmem⟩))
    fun r' t'' caller hr' hheld => ?_
  by_cases heq : r' = r
  · subst heq
    obtain rfl : t'' = t := by simpa [hr'] using ht
    rcases hholds caller hheld with hnew | hanswered
    · exact .inr (.inr ⟨r', t', by rw [htasks, Function.update_self], hnew⟩)
    · exact .inl hanswered
  · exact .inr (.inr ⟨r', t'', by rw [htasks, Function.update_of_ne heq, hr'], hheld⟩)

end Callers

end Nyanpasu.Instance
