import Nyanpasu.Instance.Monitor

/-!
# Who writes the status of an instance

A step of the monitor or of the stop either leaves the status alone or publishes one entry.
The cases below say which steps publish what, and which steps only hold on to what they have
read; the properties of the published sequence are derived from them.
-/

namespace Nyanpasu.Instance

variable {settings : Settings} {s s' : Sys}

/-- A property of every entry of a history, with the entries that came before it. -/
def Along (P : List Published → Published → Prop) : List Published → Prop
  | [] => True
  | p :: before => P before p ∧ Along P before

/-- Every entry of the history has the property. -/
theorem Along.of_suffix {P : List Published → Published → Prop} {published before : List Published}
    {p : Published} (h : Along P published) (hsuffix : p :: before <:+ published) : P before p := by
  induction published with
  | nil => simp at hsuffix
  | cons q published ih =>
    rcases List.suffix_cons_iff.mp hsuffix with heq | hrest
    · obtain ⟨rfl, rfl⟩ := List.cons.inj heq
      exact h.1
    · exact ih h.2 hrest

/-- A step that publishes nothing. -/
structure Beside (s s' : Sys) : Prop where
  status : s'.status = s.status
  published : s'.history.published = s.history.published
  stop : s'.stop = s.stop
  aborted : s'.aborted = s.aborted

/-- A step that publishes a status. -/
structure Wrote (s s' : Sys) (source : Source) (value : InstanceStatus) : Prop where
  status : s'.status = value
  published : s'.history.published = ⟨value, source⟩ :: s.history.published
  stop : s'.stop = s.stop
  aborted : s'.aborted = s.aborted

/-- The monitor holds nothing that it will publish. -/
def Phase.plain : Phase → Bool
  | .startedPublish _ _ _ _ | .ackLock _ _ _ | .ackCall _ _ _ | .ackHealth _ _ _ _
  | .ackPublish _ _ _ _ _ | .healthRead _ _ _ | .healthLifecycle _ _ _ _
  | .healthPublish _ _ _ _ _ | .finished => false
  | _ => true

theorem Phase.plain_resume (context : Context) : (Sys.resume context).plain = true := by
  cases context <;> rfl

/-- The monitor takes observations from the queue. -/
def Phase.takes : Phase → Bool
  | .pollObservations | .drain _ _ _ => true
  | _ => false

/-- An observation is taken from the queue and updates the tracker of the current run. -/
structure Takes (settings : Settings) (s : Sys) (o : Observation) (run : RunState) : Prop where
  phase : s.phase.takes = true
  queue : s.observations.head? = some o
  current : s.vars.current = some run
  applies : o.applies run = true
  late : s.vars.late settings o = false

/-- Where the monitor goes with an observation. -/
inductive Went (o : Observation) (run : RunState) : Phase → Prop
  | acknowledge (update : TrackerUpdate) (context : Context)
      (hupdate : update = (run.tracker.observe o.completedAt o.result).update)
      (hattempted : run.ackAttempted = false) (hhealthy : update.state = .healthy) :
      Went o run (.ackLock o update context)
  | observe (update : TrackerUpdate) (context : Context)
      (hupdate : update = (run.tracker.observe o.completedAt o.result).update)
      (hnot : run.ackAttempted = true ∨ update.state ≠ .healthy) :
      Went o run (.healthRead o update context)

/-- A phase that reads on. -/
inductive Passed (state : InstanceState) : Phase → Phase → Prop
  | startedHealth (pid startedAt previous) :
      Passed state (.startedHealth pid startedAt previous)
        (.startedPublish pid startedAt previous state)
  | ackLock (o update context) :
      Passed state (.ackLock o update context) (.ackCall o update context)
  | ackCall (o update context pid) :
      Passed state (.ackCall o update context) (.ackHealth pid o update context)
  | ackHealth (pid o update context previous) :
      Passed state (.ackHealth pid o update context) (.ackPublish pid o update context previous)
  | healthRead (o update context previous) :
      Passed state (.healthRead o update context) (.healthLifecycle o update context previous)
  | healthLifecycle (o update context previous) : Passed state
      (.healthLifecycle o update context previous) (.healthPublish o update context previous state)

/-- A phase that publishes. -/
inductive Publishes : Phase → Source → InstanceStatus → Phase → Prop
  | started (pid startedAt previous lifecycle clock) :
      Publishes (.startedPublish pid startedAt previous lifecycle) .started
        ⟨lifecycle, some (resetStartingHealth clock previous)⟩ (.startedRun pid startedAt)
  | restarting (attempt previous clock) :
      Publishes (.restartingPublish attempt previous) .restarting
        ⟨.restarting attempt, some (resetStartingHealth clock previous)⟩ .pollCancel
  | acknowledged (pid o update context previous) :
      Publishes (.ackPublish pid o update context previous) (.acknowledged o)
        ⟨.running pid, some (healthStatus previous update o)⟩ .pollCancel
  | observed (o update context previous lifecycle) :
      Publishes (.healthPublish o update context previous lifecycle) (.observed o)
        ⟨lifecycle, some (healthStatus previous update o)⟩ (Sys.resume context)
  | gaveUp (detail) : Publishes .gaveUpPublish .gaveUp ⟨.stopped (.error detail), none⟩ .finished
  | terminal (reason) : Publishes (.final reason) .terminal ⟨.stopped reason, none⟩ .finished

/-- What a step of the monitor does. -/
inductive MonitorCase (settings : Settings) (s s' : Sys) : Prop
  | plain (h : Beside s s') (hphase : s'.phase.plain = true)
  | took (o : Observation) (run : RunState) (h : Beside s s') (htakes : Takes settings s o run)
      (hwent : Went o run s'.phase)
  | passed (h : Beside s s') (hpassed : Passed s.status.state s.phase s'.phase)
  | wrote (source : Source) (status : InstanceStatus) (h : Wrote s s' source status)
      (hpublishes : Publishes s.phase source status s'.phase)

/-- An observation is taken from the queue. -/
theorem applyObservation_cases {o : Observation} {observations : List Observation}
    {context : Context}
    (hphase : s.phase.takes = true) (hqueue : s.observations = o :: observations) :
    MonitorCase settings s ({ s with observations }.applyObservation settings o context) := by
  unfold Sys.applyObservation
  split
  · exact .plain ⟨rfl, rfl, rfl, rfl⟩ (Phase.plain_resume context)
  rename_i run hrun
  split
  · exact .plain ⟨rfl, rfl, rfl, rfl⟩ (Phase.plain_resume context)
  rename_i hcount
  simp only [Bool.or_eq_true, Bool.not_eq_true', not_or, Bool.not_eq_false,
    Bool.not_eq_true] at hcount
  have htakes : Takes settings s o run := ⟨hphase, by rw [hqueue]; rfl, hrun, hcount.1, hcount.2⟩
  simp only [Sys.applyTo]
  split
  · rename_i hask
    simp only [Bool.and_eq_true, Bool.not_eq_true', decide_eq_true_eq] at hask
    exact .took o run ⟨rfl, rfl, rfl, rfl⟩ htakes (.acknowledge _ _ rfl hask.1 hask.2)
  · rename_i hask
    simp only [Bool.and_eq_true, Bool.not_eq_true', decide_eq_true_eq, not_and_or,
      Bool.not_eq_false] at hask
    exact .took o run ⟨rfl, rfl, rfl, rfl⟩ htakes (.observe _ _ rfl hask)

/-- The end of a driver publishes nothing. -/
theorem driverStopped_cases {next : AfterStop} : MonitorCase settings s (s.driverStopped next) := by
  cases next <;> simp only [Sys.driverStopped, Sys.close, Sys.withVars, Local.forget, Sys.enter]
  all_goals exact .plain ⟨rfl, rfl, rfl, rfl⟩ rfl

/-- An acknowledgement publishes nothing by itself. -/
theorem acknowledge_cases {run : RunState} {o : Observation} {update : TrackerUpdate}
    {context : Context} {answer : Bool} (hphase : s.phase = .ackCall o update context) :
    MonitorCase settings s (s.acknowledge run o update context answer) := by
  simp only [Sys.acknowledge]
  split
  · exact .passed ⟨rfl, rfl, rfl, rfl⟩ (hphase ▸ .ackCall o update context run.pid)
  · exact .plain ⟨rfl, rfl, rfl, rfl⟩ (Phase.plain_resume context)

theorem pollTimer_cases {timer : Timer} {fires : Bool} {next : Phase} (hnext : next.plain = true) :
    MonitorCase settings s (s.pollTimer settings timer fires next) := by
  unfold Sys.pollTimer
  split
  · split
    · exact .plain ⟨rfl, rfl, rfl, rfl⟩ rfl
    · exact .plain ⟨rfl, rfl, rfl, rfl⟩ hnext
  · exact .plain ⟨rfl, rfl, rfl, rfl⟩ hnext

theorem handleRequest_cases {id : ℕ} {requests : List ℕ} :
    MonitorCase settings s (({ s with requests }.handleRequest id).enter .pollCancel) := by
  simp only [Sys.handleRequest]
  split
  · split <;> exact .plain ⟨rfl, rfl, rfl, rfl⟩ rfl
  · exact .plain ⟨rfl, rfl, rfl, rfl⟩ rfl

theorem declare_cases {timer : Timer} {queued : List Observation} :
    MonitorCase settings s (s.declare settings timer queued) := by
  unfold Sys.declare
  split <;> exact .plain ⟨rfl, rfl, rfl, rfl⟩ rfl

/-- The cases of a step of the monitor. -/
theorem monitorStep_cases {c : Choice} (hstep : s.monitorStep settings c = some s') :
    MonitorCase settings s s' := by
  unfold Sys.monitorStep at hstep
  cases hphase : s.phase with
  | pollCancel =>
    simp only [hphase] at hstep
    split at hstep <;> obtain rfl := Option.some.inj hstep
    all_goals exact .plain ⟨rfl, rfl, rfl, rfl⟩ rfl
  | pollEvents =>
    rw [hphase] at hstep
    dsimp only at hstep
    split at hstep
    · rename_i event events _
      obtain rfl := Option.some.inj hstep
      cases event <;> exact .plain ⟨rfl, rfl, rfl, rfl⟩ rfl
    · split at hstep <;> obtain rfl := Option.some.inj hstep
      all_goals exact .plain ⟨rfl, rfl, rfl, rfl⟩ rfl
  | pollInitial =>
    simp only [hphase] at hstep
    obtain rfl := Option.some.inj hstep
    exact pollTimer_cases rfl
  | pollRespawn =>
    simp only [hphase] at hstep
    obtain rfl := Option.some.inj hstep
    exact pollTimer_cases rfl
  | pollRequests =>
    rw [hphase] at hstep
    dsimp only at hstep
    split at hstep <;> obtain rfl := Option.some.inj hstep
    · exact hphase ▸ handleRequest_cases
    · exact .plain ⟨rfl, rfl, rfl, rfl⟩ rfl
  | pollObservations =>
    rw [hphase] at hstep
    dsimp only at hstep
    split at hstep <;> obtain rfl := Option.some.inj hstep
    · rename_i hqueue
      exact applyObservation_cases (by rw [hphase]; rfl) hqueue
    · exact .plain ⟨rfl, rfl, rfl, rfl⟩ rfl
  | stopDriver next =>
    simp only [hphase, Option.ite_none_right_eq_some] at hstep
    obtain ⟨-, hstep⟩ := hstep
    obtain rfl := Option.some.inj hstep
    exact driverStopped_cases
  | startedHealth pid startedAt previous =>
    simp only [hphase] at hstep
    obtain rfl := Option.some.inj hstep
    exact .passed ⟨rfl, rfl, rfl, rfl⟩ (hphase ▸ .startedHealth pid startedAt previous)
  | startedPublish pid startedAt previous lifecycle =>
    simp only [hphase] at hstep
    obtain rfl := Option.some.inj hstep
    exact .wrote _ _ ⟨rfl, rfl, rfl, rfl⟩
      (hphase ▸ .started pid startedAt previous lifecycle c.clock)
  | startedRun pid startedAt =>
    simp only [hphase] at hstep
    obtain rfl := Option.some.inj hstep
    exact .plain ⟨rfl, rfl, rfl, rfl⟩ rfl
  | restartingPublish attempt previous =>
    simp only [hphase] at hstep
    obtain rfl := Option.some.inj hstep
    exact .wrote _ _ ⟨rfl, rfl, rfl, rfl⟩ (hphase ▸ .restarting attempt previous c.clock)
  | drain timer queued rest =>
    rw [hphase] at hstep
    dsimp only at hstep
    split at hstep <;> obtain rfl := Option.some.inj hstep
    · rename_i hqueue
      exact applyObservation_cases (by rw [hphase]; rfl) hqueue
    · exact declare_cases
  | storeTimeout | cancelProbes | cancelAll | terminal =>
    simp only [hphase] at hstep
    obtain rfl := Option.some.inj hstep
    exact .plain ⟨rfl, rfl, rfl, rfl⟩ rfl
  | ackLock o update context =>
    simp only [hphase] at hstep
    obtain rfl := Option.some.inj hstep
    exact .passed ⟨rfl, rfl, rfl, rfl⟩ (by rw [hphase]; exact .ackLock o update context)
  | ackCall o update context =>
    simp only [hphase, Option.map_eq_some_iff] at hstep
    obtain ⟨run, -, rfl⟩ := hstep
    exact acknowledge_cases hphase
  | ackHealth pid o update context =>
    simp only [hphase] at hstep
    obtain rfl := Option.some.inj hstep
    exact .passed ⟨rfl, rfl, rfl, rfl⟩ (hphase ▸ .ackHealth pid o update context s.status.health)
  | ackPublish pid o update context previous =>
    simp only [hphase] at hstep
    obtain rfl := Option.some.inj hstep
    exact .wrote _ _ ⟨rfl, rfl, rfl, rfl⟩ (hphase ▸ .acknowledged pid o update context previous)
  | healthRead o update context =>
    simp only [hphase] at hstep
    obtain rfl := Option.some.inj hstep
    exact .passed ⟨rfl, rfl, rfl, rfl⟩ (hphase ▸ .healthRead o update context s.status.health)
  | healthLifecycle o update context previous =>
    simp only [hphase] at hstep
    obtain rfl := Option.some.inj hstep
    exact .passed ⟨rfl, rfl, rfl, rfl⟩ (hphase ▸ .healthLifecycle o update context previous)
  | healthPublish o update context previous lifecycle =>
    simp only [hphase] at hstep
    obtain rfl := Option.some.inj hstep
    exact .wrote _ _ ⟨rfl, rfl, rfl, rfl⟩ (hphase ▸ .observed o update context previous lifecycle)
  | gaveUpPublish =>
    simp only [hphase] at hstep
    obtain rfl := Option.some.inj hstep
    exact .wrote _ _ ⟨rfl, rfl, rfl, rfl⟩ (hphase ▸ .gaveUp _)
  | final reason =>
    simp only [hphase] at hstep
    obtain rfl := Option.some.inj hstep
    exact .wrote _ _ ⟨rfl, rfl, rfl, rfl⟩ (hphase ▸ .terminal reason)
  | finished => simp [hphase] at hstep

/-- What a move does. -/
inductive MoveCase (settings : Settings) (s s' : Sys) : Move → Prop
  | monitor (c : Choice) (haborted : s.aborted = false) (hphase : s.phase ≠ .finished)
      (h : MonitorCase settings s s') :
      MoveCase settings s s' (.monitor c)
  | callStop (hstop : s.stop = .unrequested) (h : s' = s.enterStop .begun) :
      MoveCase settings s s' .callStop
  | stop (c : StopChoice) (h : s.stopStep c = some s') : MoveCase settings s s' (.stop c)
  /-- The environment moves. -/
  | beside (m : Move) (h : Beside s s') (hphase : s'.phase = s.phase) : MoveCase settings s s' m

/-- The cases of a move. -/
theorem step_cases {m : Move} (hstep : s.step settings m = some s') : MoveCase settings s s' m := by
  cases m with
  | event event =>
    obtain ⟨-, heq⟩ := Option.ite_none_left_eq_some.mp hstep
    obtain rfl := Option.some.inj heq
    exact .beside _ ⟨rfl, rfl, rfl, rfl⟩ rfl
  | observation o =>
    obtain ⟨-, heq⟩ := Option.ite_none_right_eq_some.mp hstep
    obtain rfl := Option.some.inj heq
    exact .beside _ ⟨rfl, rfl, rfl, rfl⟩ rfl
  | closeEvents | request _ | tick _ | drop =>
    obtain rfl := Option.some.inj hstep
    exact .beside _ ⟨rfl, rfl, rfl, rfl⟩ rfl
  | monitor c =>
    obtain ⟨haborted, hstep⟩ := Option.ite_none_left_eq_some.mp hstep
    refine .monitor c (Bool.eq_false_iff.mpr haborted) (fun hphase => ?_) (monitorStep_cases hstep)
    simp [Sys.monitorStep, hphase] at hstep
  | callStop =>
    simp only [Sys.step] at hstep
    split at hstep
    · rename_i hstop
      exact .callStop hstop (Option.some.inj hstep).symm
    · cases hstep
  | stop c => exact .stop c hstep

end Nyanpasu.Instance
