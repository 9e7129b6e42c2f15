import Nyanpasu.Instance.ProbeInvariant

/-!
# Serialized probes

Only the driver that the monitor holds may have a task that still runs, since the monitor
awaits the end of a driver before it takes another. From this follow that attempts never
overlap, that a stopped driver sends nothing, and that an answer is about the run for which
the monitor took the request. A oneshot is never lost: it is answered, queued at a monitor
that is there, or held by a task that has not ended.
-/

namespace Nyanpasu.Instance

open Moves

variable {settings : Settings} {plan : Plan} {s s' : Sys} {p p' : Probing}

section Steps

/-- The invariant, apart from the oneshots. -/
structure Sound (settings : Settings) (p : Probing) : Prop where
  inv : Inv settings p.sys
  linked : Linked p.sys p.tasks
  recorded : Recorded p.tasks p.log
  flight : Flight p.tasks p.log
  asked : ∀ caller ∈ p.sys.requests, .requested caller ∈ p.log

/-- A move of the instance that keeps its monitor, or does not have one. -/
theorem Sound.moved (h : Sound settings p) (hinv : Inv settings s') (hquiet : p.sys.Quiet s')
    (hlive : s'.live = false → p.sys.live = false) : Sound settings { p with sys := s' } :=
  ⟨hinv, h.linked.quiet hquiet.toSteady hlive, h.recorded, h.flight, fun caller hmem =>
    h.asked caller (hquiet.requests ▸ hmem)⟩

theorem Sound.record {e : Event} (h : Sound settings p) (hok : e.Ok p.log) (he : e.plain = true)
    (hstopped : ∀ r, e ≠ .stopped r) : Sound settings (p.record e) where
  inv := h.inv
  linked := h.linked
  recorded := h.recorded.record hok fun r heq => absurd heq (hstopped r)
  flight := h.flight.record he
  asked := fun caller hmem => List.mem_cons_of_mem e (h.asked caller hmem)

theorem Sound.refuse (h : Sound settings p) (caller : ℕ) (detail : String) :
    Sound settings (p.refuse caller detail) := h.record trivial rfl nofun

theorem Sound.drop (h : Sound settings p) (callers : List ℕ) : Sound settings (p.drop callers) where
  inv := h.inv
  linked := h.linked
  recorded := h.recorded.drop _ callers
  flight := h.flight.drop _ callers
  asked := fun caller hmem => List.mem_append_right _ (h.asked caller hmem)

/-- A task changes and stays in its attempt, or out of one. -/
theorem Sound.set {r : ℕ} {t t' : Task} (h : Sound settings p) (ht : p.tasks r = some t)
    (hpid : t'.pid = t.pid) (hended : t.stage = .ended → t'.stage = .ended)
    (hcancelled : t.cancelled = true → t'.cancelled = true)
    (hempty : t'.stage = .ended → t'.commands = [])
    (hcommands : ∀ caller, .reconcile caller ∈ t'.commands → Taken p.log caller r t.pid)
    (hstage : t'.stage.Ok p.log r t.pid) (hpurpose : t'.stage.purpose = t.stage.purpose) :
    Sound settings (p.setTask r t') where
  inv := h.inv
  linked := h.linked.set ht hpid hended hcancelled hempty
  recorded := h.recorded.set ht hpid hcommands hstage hended
  flight := h.flight.set ht hpid hpurpose
  asked := h.asked

/-- No other task than a running one is in an attempt. -/
theorem Sound.others_idle {r : ℕ} {t : Task} (h : Sound settings p) (ht : p.tasks r = some t)
    (hrunning : t.stage ≠ .ended) (hidle : t.stage.purpose = none) :
    ∀ r' t', p.tasks r' = some t' → t'.stage.purpose = none := by
  intro r' t' ht'
  by_cases hended : t'.stage = .ended
  · rw [hended]
    rfl
  · have hr := h.linked.only r t ht hrunning
    have hr' := h.linked.only r' t' ht' hended
    rw [hr] at hr'
    obtain rfl := Option.some.inj hr'
    obtain rfl : t' = t := by simpa [ht'] using ht
    exact hidle

/-- A running task that is in no attempt begins one. -/
theorem Sound.beginAttempt {r : ℕ} {t : Task} {commands : List DriverCommand} {purpose : Purpose}
    (h : Sound settings p) (ht : p.tasks r = some t) (hrunning : t.stage ≠ .ended)
    (hidle : t.stage.purpose = none) (hcommands : ∀ command ∈ commands, command ∈ t.commands)
    (htaken : ∀ caller, purpose = .reconcile caller → Taken p.log caller r t.pid) :
    Sound settings (p.beginAttempt r { t with commands } purpose) := by
  have hpid : ({ t with commands, stage := .attemptCancel purpose } : Task).pid = t.pid := rfl
  have hbegun : Attempted (.began ⟨r, t.pid, purpose⟩ :: p.log) ⟨r, t.pid, purpose⟩ :=
    ⟨p.log, List.suffix_rfl, htaken⟩
  have hlog : Recorded p.tasks (.began ⟨r, t.pid, purpose⟩ :: p.log) :=
    h.recorded.record trivial nofun
  refine ⟨h.inv, h.linked.set ht hpid (fun hend => absurd hend hrunning) id nofun, ?_, ?_,
    fun caller hmem => List.mem_cons_of_mem _ (h.asked caller hmem)⟩
  · refine hlog.set ht hpid (fun caller hmem => ?_) hbegun fun hend => absurd hend hrunning
    exact (h.recorded.commands r t caller ht (hcommands _ hmem)).cons _
  · exact h.flight.begin hpid (h.others_idle ht hrunning hidle) rfl

/-- A task that is in an attempt leaves it. -/
theorem Sound.leaveAttempt {r : ℕ} {t : Task} {purpose : Purpose} {e : Event} {stage : Stage}
    (h : Sound settings p) (ht : p.tasks r = some t) (hpurpose : t.stage.purpose = some purpose)
    (hok : e.Ok p.log) (hstopped : ∀ r, e ≠ .stopped r)
    (he : inFlight (e :: p.log) = (inFlight p.log).erase ⟨r, t.pid, purpose⟩)
    (hdone : stage.purpose = none) (hrunning : stage ≠ .ended)
    (hstage : stage.Ok (e :: p.log) r t.pid) :
    Sound settings ((p.setTask r { t with stage }).record e) := by
  have hpid : ({ t with stage } : Task).pid = t.pid := rfl
  have hnot : t.stage ≠ .ended := by
    intro hend
    rw [hend] at hpurpose
    cases hpurpose
  have hlog : Recorded p.tasks (e :: p.log) :=
    h.recorded.record hok fun r heq => absurd heq (hstopped r)
  refine ⟨h.inv, h.linked.set ht hpid (fun hend => absurd hend hnot) id
    (fun hend => absurd hend hrunning), ?_, h.flight.finish ht hpurpose hdone he,
    fun caller hmem => List.mem_cons_of_mem _ (h.asked caller hmem)⟩
  refine hlog.set ht hpid (fun caller hmem => ?_) hstage fun hend => absurd hend hnot
  exact (h.recorded.commands r t caller ht hmem).cons _

/-- A running driver was not stopped. -/
theorem Sound.not_stopped {r : ℕ} {t : Task} (h : Sound settings p) (ht : p.tasks r = some t)
    (hrunning : t.stage ≠ .ended) : .stopped r ∉ p.log := by
  intro hmem
  obtain ⟨t', ht', hend⟩ := h.recorded.stopped r hmem
  obtain rfl : t' = t := by simpa [ht'] using ht
  exact hrunning hend

/-- The end of a task. -/
theorem Sound.endTask {r : ℕ} {t : Task} (h : Sound settings p) (ht : p.tasks r = some t)
    (hidle : t.stage.purpose = none) : Sound settings (p.endTask r t) := by
  have hset : Sound settings (p.setTask r { t with commands := [], stage := .ended }) :=
    h.set ht rfl (fun _ => rfl) id (fun _ => rfl) nofun trivial hidle.symm
  exact hset.drop _

/-- A plain change of the stage of a running task. -/
theorem Sound.setStage {r : ℕ} {t : Task} {stage : Stage} (h : Sound settings p)
    (ht : p.tasks r = some t) (hrunning : t.stage ≠ .ended) (hnext : stage ≠ .ended)
    (hstage : stage.Ok p.log r t.pid) (hpurpose : stage.purpose = t.stage.purpose) :
    Sound settings (p.setTask r { t with stage }) :=
  h.set ht rfl (fun hend => absurd hend hrunning) id (fun hend => absurd hend hnext)
    (fun caller hmem => h.recorded.commands r t caller ht hmem) hstage hpurpose

/-- A step of a driver task keeps the invariant. -/
theorem Sound.taskStep {r : ℕ} {c : TaskChoice} (h : Sound settings p)
    (hstep : p.taskStep settings plan r c = some p') : Sound settings p' := by
  cases ht : p.tasks r with
  | none => simp [Probing.taskStep, ht] at hstep
  | some t =>
    have hknown := h.recorded.stage r t ht
    cases hstage : t.stage with
    | pollCancel =>
      simp only [Probing.taskStep, ht, hstage] at hstep
      split at hstep <;> obtain rfl := Option.some.inj hstep
      · exact h.endTask ht (by rw [hstage]; rfl)
      · exact h.setStage ht (by simp [hstage]) nofun trivial (by rw [hstage]; rfl)
    | pollCommands =>
      simp only [Probing.taskStep, ht, hstage] at hstep
      cases hcommands : t.commands with
      | nil =>
        simp only [hcommands] at hstep
        split at hstep <;> obtain rfl := Option.some.inj hstep
        · exact h.endTask ht (by rw [hstage]; rfl)
        · exact h.set ht rfl (by simp [hstage]) id nofun nofun trivial (by rw [hstage]; rfl)
      | cons command commands =>
        have htail : ∀ caller, .reconcile caller ∈ commands → Taken p.log caller r t.pid :=
          fun caller hmem => h.recorded.commands r t caller ht
            (by rw [hcommands]; exact List.mem_cons_of_mem _ hmem)
        cases command with
        | useLiveness =>
          simp only [hcommands, Option.some.injEq] at hstep
          subst hstep
          exact h.set ht rfl (by simp [hstage]) id nofun htail trivial (by rw [hstage]; rfl)
        | reconcile caller =>
          simp only [hcommands, Option.some.injEq] at hstep
          subst hstep
          refine h.beginAttempt ht (by simp [hstage]) (by rw [hstage]; rfl) (fun command hmem => ?_)
            fun caller' heq => ?_
          · rw [hcommands]
            exact List.mem_cons_of_mem _ hmem
          · cases heq
            exact h.recorded.commands r t caller ht (by rw [hcommands]; exact List.mem_cons_self)
    | pollTimer =>
      have hagain : Sound settings (p.setTask r { t with stage := .pollCancel }) :=
        h.setStage ht (by simp [hstage]) nofun trivial (by rw [hstage]; rfl)
      simp only [Probing.taskStep, ht, hstage] at hstep
      split at hstep
      · split at hstep <;> obtain rfl := Option.some.inj hstep
        · exact h.beginAttempt ht (by simp [hstage]) (by rw [hstage]; rfl)
            (fun _ hmem => hmem) nofun
        · exact hagain
      · obtain rfl := Option.some.inj hstep
        exact hagain
    | attemptCancel purpose =>
      rw [hstage] at hknown
      simp only [Probing.taskStep, ht, hstage] at hstep
      split at hstep <;> obtain rfl := Option.some.inj hstep
      · have hleft : Sound settings ((p.setTask r { t with stage := .pollCancel }).record
            (.abandoned ⟨r, t.pid, purpose⟩)) :=
          h.leaveAttempt ht (by rw [hstage]; rfl) trivial nofun rfl rfl nofun trivial
        exact hleft.drop _
      · exact h.setStage ht (by simp [hstage]) nofun hknown (by rw [hstage]; rfl)
    | attemptProbe purpose =>
      rw [hstage] at hknown
      simp only [Probing.taskStep, ht, hstage] at hstep
      split at hstep <;> obtain rfl := Option.some.inj hstep
      · exact h.setStage ht (by simp [hstage]) nofun hknown (by rw [hstage]; rfl)
      · rename_i outcome _
        have hdone : Completed (.finished ⟨r, t.pid, purpose⟩ (outcome.result plan) :: p.log)
            ⟨r, t.pid, purpose⟩ (outcome.result plan) :=
          ⟨p.log, List.suffix_rfl, hknown, h.not_stopped ht (by simp [hstage])⟩
        cases purpose with
        | periodic phase =>
          exact h.leaveAttempt ht (by rw [hstage]; rfl) trivial nofun rfl rfl nofun ⟨rfl, rfl⟩
        | reconcile caller =>
          exact h.leaveAttempt ht (by rw [hstage]; rfl) trivial nofun rfl rfl nofun
            ⟨hdone, rfl, rfl⟩
    | respond o caller =>
      rw [hstage] at hknown
      simp only [Probing.taskStep, ht, hstage, Option.some.injEq] at hstep
      subst hstep
      have hset : Sound settings (p.setTask r { t with stage := .observe o }) :=
        h.setStage ht (by simp [hstage]) nofun hknown.2 (by rw [hstage]; rfl)
      refine hset.record ?_ rfl nofun
      cases hresult : o.result with
      | healthy =>
        have hcompleted := hknown.1
        rw [hresult] at hcompleted
        exact ⟨r, t.pid, hcompleted⟩
      | unhealthy detail => trivial
    | observe o =>
      rw [hstage] at hknown
      simp only [Probing.taskStep, ht, hstage] at hstep
      obtain ⟨sys, hsys, rfl⟩ := Option.map_eq_some_iff.mp hstep
      have hinv := h.inv.step hsys
      obtain ⟨_, heq⟩ := Option.ite_none_right_eq_some.mp hsys
      obtain rfl := Option.some.inj heq
      have hmoved : Sound settings
          { p with sys := { p.sys with observations := p.sys.observations ++ [o] } } :=
        h.moved hinv (.of_vars rfl rfl rfl id) id
      have hset : Sound settings (Probing.setTask _ r { t with stage := .pollCancel }) :=
        hmoved.setStage ht (by simp [hstage]) nofun trivial (by rw [hstage]; rfl)
      exact hset.record (h.not_stopped ht (by simp [hstage])) rfl nofun
    | ended => simp [Probing.taskStep, ht, hstage] at hstep

section Oneshots

variable {caller : ℕ}

theorem Placed.record (h : Placed p caller) (e : Event) : Placed (p.record e) caller := by
  rcases h with ⟨result, hmem⟩ | hqueue | htask
  · exact .inl ⟨result, List.mem_cons_of_mem e hmem⟩
  · exact .inr (.inl hqueue)
  · exact .inr (.inr htask)

theorem Placed.drop (h : Placed p caller) (callers : List ℕ) : Placed (p.drop callers) caller := by
  rcases h with ⟨result, hmem⟩ | hqueue | htask
  · exact .inl ⟨result, List.mem_append_right _ hmem⟩
  · exact .inr (.inl hqueue)
  · exact .inr (.inr htask)

theorem placed_of_drop {callers : List ℕ} (h : caller ∈ callers) :
    Placed (p.drop callers) caller :=
  .inl ⟨_, List.mem_append_left _ (List.mem_map_of_mem h)⟩

/-- A task changes and keeps what it holds. -/
theorem Placed.set {r : ℕ} {t t' : Task} (h : Placed p caller) (ht : p.tasks r = some t)
    (hholds : t.Holds caller → t'.Holds caller) : Placed (p.setTask r t') caller := by
  rcases h with hanswered | hqueue | ⟨r', t'', hr', hheld⟩
  · exact .inl hanswered
  · exact .inr (.inl hqueue)
  · by_cases heq : r' = r
    · subst heq
      obtain rfl : t'' = t := by simpa [hr'] using ht
      exact .inr (.inr ⟨r', t', Function.update_self .., hholds hheld⟩)
    · exact .inr (.inr ⟨r', t'', (p.setTask_of_ne heq t').trans hr', hheld⟩)

theorem Placed.send (h : Placed p caller) (r : ℕ) (command : DriverCommand) :
    Placed (p.send r command) caller := by
  unfold Probing.send
  split
  · exact h.drop _
  · rename_i t ht
    split
    · exact h.drop _
    · exact h.set ht fun hholds => hholds.imp_left (List.mem_append_left _)

/-- A caller that is handed to a driver is held by it, or told that it has stopped. -/
theorem placed_of_send (p : Probing) (r caller : ℕ) :
    Placed (p.send r (.reconcile caller)) caller := by
  unfold Probing.send
  split
  · exact placed_of_drop (by simp [callersOf])
  · split
    · exact placed_of_drop (by simp [callersOf])
    · exact .inr (.inr ⟨r, _, Function.update_self .., .inl (by simp)⟩)

theorem Accounted.record (h : Accounted p) (e : Event) : Accounted (p.record e) :=
  fun caller hcaller => (h caller hcaller).record e

/-- A task moves on and keeps its caller. -/
theorem Accounted.setStage {r : ℕ} {t : Task} {stage : Stage} (h : Accounted p)
    (ht : p.tasks r = some t)
    (hsame : ∀ caller, t.stage.caller = some caller → stage.caller = some caller) :
    Accounted (p.setTask r { t with stage }) :=
  fun caller hcaller => (h caller hcaller).set ht fun hholds => hholds.imp_right (hsame caller)

end Oneshots

/-- The end of a task drops the oneshots of its queue. -/
theorem answered_of_endTask {r : ℕ} {t : Task} {caller : ℕ} (hnone : t.stage.caller = none)
    (hholds : t.Holds caller) : ∃ result, .answered caller result ∈ (p.endTask r t).log := by
  rcases hholds with hmem | hcaller
  · refine ⟨_, List.mem_append_left _ (List.mem_map_of_mem ?_)⟩
    exact List.mem_filterMap.mpr ⟨.reconcile caller, hmem, rfl⟩
  · rw [hnone] at hcaller
    cases hcaller

/-- A step of a driver task loses no oneshot. -/
theorem Accounted.taskStep {r : ℕ} {c : TaskChoice} (hheld : Accounted p)
    (hstep : p.taskStep settings plan r c = some p') : Accounted p' := by
  cases ht : p.tasks r with
  | none => simp [Probing.taskStep, ht] at hstep
  | some t =>
    -- A task that polls holds no caller outside its queue.
    have hidle : t.stage.caller = none → ∀ stage, Accounted (p.setTask r { t with stage }) :=
      fun hnone stage => hheld.setStage ht fun caller hcaller => by
        rw [hnone] at hcaller
        cases hcaller
    have hend : t.stage.caller = none → Accounted (p.endTask r t) := fun hnone =>
      hheld.set ht rfl rfl rfl (fun e he => List.mem_append_right _ he) rfl fun caller hholds =>
        .inr (answered_of_endTask hnone hholds)
    cases hstage : t.stage with
    | pollCancel =>
      simp only [Probing.taskStep, ht, hstage] at hstep
      split at hstep <;> obtain rfl := Option.some.inj hstep
      · exact hend (by rw [hstage]; rfl)
      · exact hidle (by rw [hstage]; rfl) _
    | pollCommands =>
      simp only [Probing.taskStep, ht, hstage] at hstep
      cases hcommands : t.commands with
      | nil =>
        simp only [hcommands] at hstep
        split at hstep <;> obtain rfl := Option.some.inj hstep
        · exact hend (by rw [hstage]; rfl)
        · exact hcommands ▸ hidle (by rw [hstage]; rfl) .pollTimer
      | cons command commands =>
        have hqueue : ∀ caller, t.Holds caller → .reconcile caller ∈ command :: commands := by
          intro caller hholds
          rcases hholds with hmem | hcaller
          · exact hcommands ▸ hmem
          · rw [hstage] at hcaller
            cases hcaller
        cases command with
        | useLiveness =>
          simp only [hcommands, Option.some.injEq] at hstep
          subst hstep
          refine hheld.set ht rfl rfl rfl (fun e he => he) rfl fun caller hholds => ?_
          exact .inl (.inl (by simpa using hqueue caller hholds))
        | reconcile caller =>
          simp only [hcommands, Option.some.injEq] at hstep
          subst hstep
          refine hheld.set ht rfl rfl rfl (fun e he => List.mem_cons_of_mem _ he) rfl
            fun caller' hholds => ?_
          rcases List.mem_cons.mp (hqueue caller' hholds) with heq | hmem
          · cases heq
            exact .inl (.inr rfl)
          · exact .inl (.inl hmem)
    | pollTimer =>
      simp only [Probing.taskStep, ht, hstage] at hstep
      split at hstep
      · split at hstep <;> obtain rfl := Option.some.inj hstep
        · exact (hidle (by rw [hstage]; rfl) _).record _
        · exact hidle (by rw [hstage]; rfl) _
      · obtain rfl := Option.some.inj hstep
        exact hidle (by rw [hstage]; rfl) _
    | attemptCancel purpose =>
      simp only [Probing.taskStep, ht, hstage] at hstep
      split at hstep <;> obtain rfl := Option.some.inj hstep
      · refine hheld.set ht rfl rfl rfl
          (fun e he => List.mem_append_right _ (List.mem_cons_of_mem _ he)) rfl
          fun caller hholds => ?_
        rcases hholds with hmem | hcaller
        · exact .inl (.inl hmem)
        · right
          refine ⟨_, List.mem_append_left _ (List.mem_map_of_mem ?_)⟩
          rw [hstage] at hcaller
          cases purpose with
          | periodic phase => cases hcaller
          | reconcile caller' => simpa [Purpose.callers, Stage.caller, eq_comm] using hcaller
      · refine hheld.setStage ht fun caller hcaller => ?_
        rw [hstage] at hcaller
        cases purpose <;> exact hcaller
    | attemptProbe purpose =>
      simp only [Probing.taskStep, ht, hstage] at hstep
      split at hstep <;> obtain rfl := Option.some.inj hstep
      · refine hheld.setStage ht fun caller hcaller => ?_
        rw [hstage] at hcaller
        cases purpose <;> exact hcaller
      · refine Accounted.record (hheld.setStage ht fun caller hcaller => ?_) _
        rw [hstage] at hcaller
        cases purpose <;> exact hcaller
    | respond o caller =>
      simp only [Probing.taskStep, ht, hstage, Option.some.injEq] at hstep
      subst hstep
      refine hheld.set ht rfl rfl rfl (fun e he => List.mem_cons_of_mem _ he) rfl
        fun caller' hholds => ?_
      rcases hholds with hmem | hcaller
      · exact .inl (.inl hmem)
      · rw [hstage] at hcaller
        obtain rfl : caller = caller' := Option.some.inj hcaller
        exact .inr ⟨o.result, List.mem_cons_self⟩
    | observe o =>
      simp only [Probing.taskStep, ht, hstage] at hstep
      obtain ⟨sys, hsys, rfl⟩ := Option.map_eq_some_iff.mp hstep
      obtain ⟨_, heq⟩ := Option.ite_none_right_eq_some.mp hsys
      obtain rfl := Option.some.inj heq
      refine hheld.set ht rfl rfl rfl (fun e he => List.mem_cons_of_mem _ he) rfl
        fun caller hholds => .inl ?_
      rcases hholds with hmem | hcaller
      · exact .inl hmem
      · rw [hstage] at hcaller
        cases hcaller
    | ended => simp [Probing.taskStep, ht, hstage] at hstep

theorem Sound.send {r : ℕ} {command : DriverCommand} (h : Sound settings p)
    (htaken : ∀ t caller, p.tasks r = some t → command = .reconcile caller →
      Taken p.log caller r t.pid) : Sound settings (p.send r command) := by
  unfold Probing.send
  split
  · exact h.drop _
  · rename_i t ht
    split
    · exact h.drop _
    · rename_i hrunning
      refine h.set ht rfl id id (fun hend => absurd hend hrunning) (fun caller hmem => ?_)
        (h.recorded.stage r t ht) rfl
      rcases List.mem_append.mp hmem with hold | hnew
      · exact h.recorded.commands r t caller ht hold
      · exact htaken t caller ht (List.mem_singleton.mp hnew).symm

/-- The end of the monitor. -/
theorem Sound.release (h : Sound settings p) (hinv : Inv settings s') (hquiet : p.sys.Quiet s') :
    Sound settings { p.release with sys := s' } := by
  have hdropped := h.drop p.sys.requests
  have hrequests : ∀ caller ∈ s'.requests, .requested caller ∈ (p.drop p.sys.requests).log :=
    fun caller hmem => hdropped.asked caller (hquiet.requests ▸ hmem)
  simp only [Probing.release]
  split
  · rename_i hnone
    refine ⟨hinv, hdropped.linked.halt hquiet.toSteady fun r t hr => ?_, hdropped.recorded,
      hdropped.flight, hrequests⟩
    rw [hnone] at hr
    cases hr
  · rename_i run hrun
    split
    · rename_i hnone
      refine ⟨hinv, hdropped.linked.halt hquiet.toSteady fun r t hr ht => ?_, hdropped.recorded,
        hdropped.flight, hrequests⟩
      rw [hrun] at hr
      obtain rfl := Option.some.inj hr
      rw [hnone] at ht
      cases ht
    · rename_i t ht
      have hset : Sound settings ((p.drop p.sys.requests).setTask run
          { t with cancelled := true, closed := true }) :=
        hdropped.set ht rfl id (fun _ => rfl) (hdropped.linked.emptied run t ht)
          (fun caller hmem => hdropped.recorded.commands run t caller ht hmem)
          (hdropped.recorded.stage run t ht) rfl
      refine ⟨hinv, hset.linked.halt hquiet.toSteady fun r t' hr ht' => ?_, hset.recorded,
        hset.flight, hrequests⟩
      obtain rfl : run = r := Option.some.inj (hrun.symm.trans hr)
      rw [Probing.setTask_self] at ht'
      obtain rfl := Option.some.inj ht'
      rfl

theorem Sound.advance (h : Sound settings p) (hinv : Inv settings s') (hquiet : p.sys.Quiet s') :
    Sound settings (p.advance s') := by
  unfold Probing.advance
  split
  · exact h.release hinv hquiet
  · rename_i hnot
    refine h.moved hinv hquiet fun hdead => ?_
    simpa [hdead] using hnot

theorem Accounted.moved (h : Accounted p) (hquiet : p.sys.Quiet s')
    (hlive : p.sys.live = true → s'.live = true) : Accounted { p with sys := s' } := by
  intro caller hcaller
  rcases h caller hcaller with hanswered | ⟨hl, hmem⟩ | htask
  · exact .inl hanswered
  · exact .inr (.inl ⟨hlive hl, hquiet.requests ▸ hmem⟩)
  · exact .inr (.inr htask)

theorem Accounted.release (h : Accounted p) : Accounted { p.release with sys := s' } := by
  have hplaced : ∀ caller < p.calls, (∃ result, .answered caller result ∈ p.release.log) ∨
      ∃ r t, p.release.tasks r = some t ∧ t.Holds caller := by
    intro caller hcaller
    have hdropped : (∃ result, .answered caller result ∈ (p.drop p.sys.requests).log) ∨
        ∃ r t, p.tasks r = some t ∧ t.Holds caller := by
      rcases h caller hcaller with ⟨result, hmem⟩ | ⟨_, hmem⟩ | htask
      · exact .inl ⟨result, List.mem_append_right _ hmem⟩
      · exact .inl ⟨_, List.mem_append_left _ (List.mem_map_of_mem hmem)⟩
      · exact .inr htask
    simp only [Probing.release]
    split
    · exact hdropped
    · rename_i run _
      split
      · exact hdropped
      · rename_i t ht
        refine hdropped.imp_right fun ⟨r, t', hr, hholds⟩ => ?_
        by_cases heq : r = run
        · subst heq
          obtain rfl : t' = t := Option.some.inj (hr.symm.trans ht)
          exact ⟨r, _, Function.update_self .., hholds⟩
        · exact ⟨r, t', (Function.update_of_ne heq ..).trans hr, hholds⟩
  have hcalls : p.release.calls = p.calls := by
    simp only [Probing.release]
    split
    · rfl
    · split <;> rfl
  intro caller hcaller
  have hcaller : caller < p.release.calls := hcaller
  rw [hcalls] at hcaller
  exact (hplaced caller hcaller).imp_right .inr

theorem Accounted.advance (h : Accounted p) (hquiet : p.sys.Quiet s') :
    Accounted (p.advance s') := by
  unfold Probing.advance
  split
  · exact h.release
  · rename_i hnot
    refine h.moved hquiet fun hlive => ?_
    by_contra hdead
    simp [hlive, hdead] at hnot

/-- The monitor takes a request. -/
theorem Sound.takeRequest {vars : Local} {caller : ℕ} (h : Sound settings p)
    (hvars : p.sys.vars = vars) (hasked : .requested caller ∈ p.log) :
    Sound settings (p.takeRequest vars caller) := by
  have hrecord : Sound settings (p.record (.taken caller vars.current)) :=
    h.record trivial rfl nofun
  simp only [Probing.takeRequest]
  split
  · rename_i hready
    split
    · rename_i run hrun
      obtain ⟨current, hcurrent, hcurrentReady⟩ := (Option.any_eq_true ..).mp hready
      obtain ⟨t, ht, hpaired⟩ := h.linked.driver run (hvars ▸ hrun)
      obtain ⟨hid, hpid⟩ := hpaired current (hvars ▸ hcurrent)
      refine hrecord.send fun t' caller' ht' heq => ?_
      obtain rfl : t' = t := Option.some.inj (ht'.symm.trans ht)
      cases heq
      exact ⟨current, p.log, by rw [hcurrent]; exact List.suffix_rfl, hcurrentReady, hid, hpid,
        hasked⟩
    · exact hrecord.refuse _ _
  · exact hrecord.refuse _ _

theorem Placed.takeRequest {vars : Local} {caller caller' : ℕ} (h : Placed p caller') :
    Placed (p.takeRequest vars caller) caller' := by
  simp only [Probing.takeRequest]
  split
  · split
    · exact (h.record _).send _ _
    · exact (h.record _).record _
  · exact (h.record _).record _

theorem placed_of_takeRequest {vars : Local} {caller : ℕ} :
    Placed (p.takeRequest vars caller) caller := by
  simp only [Probing.takeRequest]
  split
  · split
    · exact placed_of_send ..
    · exact .inl ⟨_, List.mem_cons_self⟩
  · exact .inl ⟨_, List.mem_cons_self⟩

theorem Probing.calls_send (p : Probing) (r : ℕ) (command : DriverCommand) :
    (p.send r command).calls = p.calls := by
  unfold Probing.send
  split
  · rfl
  · split <;> rfl

theorem Probing.calls_takeRequest (p : Probing) (vars : Local) (caller : ℕ) :
    (p.takeRequest vars caller).calls = p.calls := by
  simp only [Probing.takeRequest]
  split
  · split
    · exact Probing.calls_send ..
    · rfl
  · rfl

/-- Once its end is awaited, the driver of the monitor has ended. -/
theorem ended_of_awaited {next : AfterStop} (hphase : p.sys.phase = .stopDriver next)
    (hawaited : p.awaited = true) {r : ℕ} {t : Task} (hr : p.sys.vars.driver = some r)
    (ht : p.tasks r = some t) : t.stage = .ended := by
  simpa [Probing.awaited, hphase, hr, ht] using hawaited

/-- A step of the monitor keeps the invariant and loses no oneshot. -/
theorem Sound.monitor {c : Choice} (h : Sound settings p) (hheld : Accounted p)
    (hawaited : p.awaited = true) (hstep : p.sys.step settings (.monitor c) = some s') :
    Sound settings (p.follow s') ∧ Accounted (p.follow s') := by
  have hinv := h.inv.step hstep
  obtain ⟨haborted, hstep⟩ := Option.ite_none_left_eq_some.mp hstep
  rw [Bool.not_eq_true] at haborted
  have hlive : p.sys.live = true := by
    have hfinished : p.sys.phase.isFinished = false := by
      cases hphase : p.sys.phase <;> first | rfl | simp [Sys.monitorStep, hphase] at hstep
    exact Sys.live_of hfinished haborted
  cases driver_cases haborted hstep with
  | stopDriver next hphase hlive' hdriver hdrivers hrequests =>
    have hended : ∀ r t, p.sys.vars.driver = some r → p.tasks r = some t → t.stage = .ended :=
      fun r t hr ht => ended_of_awaited hphase hawaited hr ht
    have hmoved : Sound settings { p with sys := s' } :=
      ⟨hinv, h.linked.stopped hlive' hdriver hdrivers hended, h.recorded, h.flight,
        fun caller hmem => h.asked caller (hrequests ▸ hmem)⟩
    have hheld' : Accounted { p with sys := s' } := hheld.mono rfl (fun e he => he)
      (fun caller _ hmem => .inr (.inl ⟨hlive', hrequests ▸ hmem⟩))
      fun r t caller ht hholds => .inr (.inr ⟨r, t, ht, hholds⟩)
    simp only [Probing.follow, hphase]
    split
    · rename_i run hrun
      obtain ⟨t, ht, _⟩ := h.linked.driver run hrun
      refine ⟨⟨hinv, hmoved.linked, hmoved.recorded.record trivial fun r heq => ?_,
        hmoved.flight.record rfl, fun caller hmem =>
          List.mem_cons_of_mem _ (hmoved.asked caller hmem)⟩,
        fun caller hcaller => (hheld' caller hcaller).record _⟩
      obtain rfl : run = r := by simpa using heq
      exact ⟨t, ht, hended run t hrun ht⟩
    · exact ⟨hmoved, hheld'⟩
  | startedRun pid startedAt hphase heq =>
    have hopening : p.sys.phase.opening = true := by rw [hphase]; rfl
    have hlive' : s'.live = true := by
      rw [heq]
      exact Sys.live_of rfl haborted
    have hrequests : s'.requests = p.sys.requests := by rw [heq]; rfl
    simp only [Probing.follow, hphase]
    split
    · rename_i hcancelled
      have hdriver : s'.vars.driver = none := by
        rw [heq]
        simpa [Sys.startRun, hcancelled] using h.linked.opening hopening
      have hdrivers : s'.drivers = p.sys.drivers := by
        rw [heq]
        simp [Sys.startRun, hcancelled]
      refine ⟨⟨hinv, h.linked.stopped hlive' hdriver hdrivers fun r t hr => ?_, h.recorded,
        h.flight, fun caller hmem => h.asked caller (hrequests ▸ hmem)⟩,
        hheld.mono rfl (fun e he => he)
        (fun caller _ hmem => .inr (.inl ⟨hlive', hrequests ▸ hmem⟩))
        fun r t caller ht hholds => .inr (.inr ⟨r, t, ht, hholds⟩)⟩
      rw [h.linked.opening hopening] at hr
      cases hr
    · rename_i hcancelled
      rw [Bool.not_eq_true] at hcancelled
      have hfresh := h.linked.fresh h.inv hopening
      refine ⟨⟨hinv, ?_, h.recorded.start hfresh pid, h.flight.start hfresh pid,
        fun caller hmem => h.asked caller (hrequests ▸ hmem)⟩, hheld.mono rfl (fun e he => he)
        (fun caller _ hmem => .inr (.inl ⟨hlive', hrequests ▸ hmem⟩))
        fun r t caller ht hholds => ?_⟩
      · rw [heq]
        exact h.linked.startRun hphase hlive hcancelled
      · have hne : r ≠ p.sys.vars.nextRunId := by
          rintro rfl
          rw [hfresh] at ht
          cases ht
        exact .inr (.inr ⟨r, t, (Probing.setTask_of_ne _ hne _).trans ht, hholds⟩)
  | request caller requests hphase hqueue hlive' hvars hdrivers hrequests hopening =>
    have hsteady : p.sys.Steady s' :=
      ⟨by rw [hvars], hdrivers, fun run hrun => ⟨run, by rw [← hvars, hrun], rfl, rfl⟩,
        by simp [hopening]⟩
    have hasked : .requested caller ∈ p.log :=
      h.asked caller (by rw [hqueue]; exact List.mem_cons_self)
    have hmoved : Sound settings { p with sys := s' } :=
      ⟨hinv, h.linked.quiet hsteady (by simp [hlive']), h.recorded, h.flight,
        fun caller' hmem => h.asked caller' (by
          rw [hqueue]
          exact List.mem_cons_of_mem _ (hrequests ▸ hmem))⟩
    simp only [Probing.follow, hphase, hqueue]
    refine ⟨hmoved.takeRequest hvars hasked, fun caller' hcaller' => ?_⟩
    rw [Probing.calls_takeRequest] at hcaller'
    rcases hheld caller' hcaller' with hanswered | ⟨_, hmem⟩ | htask
    · exact Placed.takeRequest (.inl hanswered)
    · rw [hqueue] at hmem
      rcases List.mem_cons.mp hmem with rfl | hmem
      · exact placed_of_takeRequest
      · exact Placed.takeRequest (.inr (.inl ⟨hlive', hrequests ▸ hmem⟩))
    · exact Placed.takeRequest (.inr (.inr htask))
  | acknowledge o update context hphase hlive' hquiet =>
    have hmoved : Sound settings { p with sys := s' } :=
      h.moved hinv hquiet (by simp [hlive'])
    have hheld' := hheld.moved hquiet fun _ => hlive'
    simp only [Probing.follow, hphase]
    split
    · split
      · refine ⟨hmoved.send (by rintro t caller ht ⟨⟩), fun caller hcaller => ?_⟩
        rw [Probing.calls_send] at hcaller
        exact (hheld' caller hcaller).send _ _
      · exact ⟨hmoved, hheld'⟩
    · exact ⟨hmoved, hheld'⟩
  | quiet hfollow hquiet =>
    rw [hfollow p rfl]
    exact ⟨h.advance hinv hquiet, hheld.advance hquiet⟩

/-- A step of the stop leaves the driver and the requests alone. -/
theorem quiet_stopStep {c : StopChoice} (hstep : s.stopStep c = some s') : s.Quiet s' := by
  obtain ⟨hvars, hphase, hdrivers, hrequests, -⟩ := Sys.stopStep_frame hstep
  exact .of_vars hvars hdrivers hrequests fun hopening => hphase ▸ hopening

/-- A call of `probe_now` keeps the invariant and loses no oneshot. -/
theorem Sound.probeNow {phase : ProbePhase} (h : Sound settings p) (hheld : Accounted p)
    (hstep : p.probeNow settings phase = some p') : Sound settings p' ∧ Accounted p' := by
  have hcalled : Sound settings { p with calls := p.calls + 1 } :=
    ⟨h.inv, h.linked, h.recorded, h.flight, h.asked⟩
  have hrefused : ∀ detail,
      Accounted (Probing.refuse { p with calls := p.calls + 1 } p.calls detail) := by
    intro detail caller hcaller
    have hle : caller < p.calls + 1 := hcaller
    by_cases heq : caller = p.calls
    · subst heq
      exact .inl ⟨_, List.mem_cons_self⟩
    · have hplaced : Placed { p with calls := p.calls + 1 } caller := hheld caller (by omega)
      exact hplaced.record _
  simp only [Probing.probeNow] at hstep
  split at hstep
  · obtain rfl := Option.some.inj hstep
    exact ⟨hcalled.refuse _ _, hrefused _⟩
  · split at hstep
    · rename_i hlive
      obtain ⟨sys, hsys, rfl⟩ := Option.map_eq_some_iff.mp hstep
      have hinv := h.inv.step hsys
      obtain rfl := Option.some.inj hsys
      have hsteady : p.sys.Steady { p.sys with requests := p.sys.requests ++ [p.calls] } :=
        ⟨rfl, rfl, fun run hrun => ⟨run, hrun, rfl, rfl⟩, id⟩
      refine ⟨⟨hinv, h.linked.quiet hsteady id, h.recorded.record trivial nofun,
        h.flight.record rfl, fun caller hmem => ?_⟩, fun caller hcaller => ?_⟩
      · rcases List.mem_append.mp hmem with hold | hnew
        · exact List.mem_cons_of_mem _ (h.asked caller hold)
        · rw [List.mem_singleton.mp hnew]
          exact List.mem_cons_self
      · have hle : caller < p.calls + 1 := hcaller
        by_cases heq : caller = p.calls
        · exact .inr (.inl ⟨hlive, List.mem_append_right _ (List.mem_singleton.mpr heq)⟩)
        · rcases hheld caller (by omega) with ⟨result, hmem⟩ | ⟨_, hmem⟩ | htask
          · exact .inl ⟨result, List.mem_cons_of_mem _ hmem⟩
          · exact .inr (.inl ⟨hlive, List.mem_append_left _ hmem⟩)
          · exact .inr (.inr htask)
    · obtain rfl := Option.some.inj hstep
      exact ⟨hcalled.refuse _ _, hrefused _⟩

/-- The stop of the driver cancels its task. -/
theorem Sound.cancelDriver (h : Sound settings p) (hheld : Accounted p)
    (hstep : p.step settings plan .cancelDriver = some p') : Sound settings p' ∧ Accounted p' := by
  simp only [Probing.step] at hstep
  split at hstep
  · rename_i run _ _
    obtain ⟨_, hmap⟩ := Option.ite_none_left_eq_some.mp hstep
    obtain ⟨t, ht, rfl⟩ := Option.map_eq_some_iff.mp hmap
    refine ⟨h.set ht rfl id (fun _ => rfl) (h.linked.emptied _ t ht)
      (fun caller hmem => h.recorded.commands _ t caller ht hmem) (h.recorded.stage _ t ht) rfl, ?_⟩
    exact fun caller hcaller => (hheld caller hcaller).set ht id
  · cases hstep

/-- Every move keeps the invariant and loses no oneshot. -/
theorem Sound.step {m : ProbingMove} (h : Sound settings p) (hheld : Accounted p)
    (hstep : p.step settings plan m = some p') : Sound settings p' ∧ Accounted p' := by
  have hmoved : ∀ move : Move, (p.sys.step settings move).map p.advance = some p' →
      (∀ s', p.sys.step settings move = some s' → p.sys.Quiet s') →
      Sound settings p' ∧ Accounted p' := by
    intro move hmap hquiet
    obtain ⟨s', hsys, rfl⟩ := Option.map_eq_some_iff.mp hmap
    exact ⟨h.advance (h.inv.step hsys) (hquiet s' hsys), hheld.advance (hquiet s' hsys)⟩
  cases m with
  | call phase => exact h.probeNow hheld hstep
  | cancelDriver => exact h.cancelDriver hheld hstep
  | task run c => exact ⟨h.taskStep hstep, hheld.taskStep hstep⟩
  | sys move =>
    cases move with
    | observation o => cases hstep
    | request id => cases hstep
    | monitor c =>
      obtain ⟨hawaited, hmap⟩ := Option.ite_none_right_eq_some.mp hstep
      obtain ⟨s', hsys, rfl⟩ := Option.map_eq_some_iff.mp hmap
      exact h.monitor hheld hawaited hsys
    | event event =>
      refine hmoved (.event event) hstep fun s' hsys => ?_
      obtain ⟨_, heq⟩ := Option.ite_none_left_eq_some.mp hsys
      obtain rfl := Option.some.inj heq
      exact .of_vars rfl rfl rfl id
    | callStop =>
      refine hmoved .callStop hstep fun s' hsys => ?_
      simp only [Sys.step] at hsys
      split at hsys
      · obtain rfl := Option.some.inj hsys
        exact .of_vars rfl rfl rfl id
      · cases hsys
    | stop c => exact hmoved (.stop c) hstep fun s' hsys => quiet_stopStep hsys
    | closeEvents =>
      refine hmoved .closeEvents hstep fun s' hsys => ?_
      obtain rfl := Option.some.inj hsys
      exact .of_vars rfl rfl rfl id
    | tick duration =>
      refine hmoved (.tick duration) hstep fun s' hsys => ?_
      obtain rfl := Option.some.inj hsys
      exact .of_vars rfl rfl rfl id
    | drop =>
      refine hmoved .drop hstep fun s' hsys => ?_
      obtain rfl := Option.some.inj hsys
      exact .of_vars rfl rfl rfl id

theorem Probing.Spawned.sound (h : p.Spawned) : Sound settings p ∧ Accounted p := by
  obtain ⟨hsys, hrequests, htasks, hcalls, hlog⟩ := h
  refine ⟨⟨hsys.inv, ?_, ?_, ?_, ?_⟩, ?_⟩
  · constructor <;> simp [htasks, hsys.vars]
  · constructor <;> simp [htasks, hlog, InOrder]
  · exact .idle (by simp [hlog, inFlight]) (by simp [htasks])
  · simp [hrequests]
  · intro caller hcaller
    rw [hcalls] at hcaller
    exact absurd hcaller (Nat.not_lt_zero caller)

/-- Every run keeps the invariant and loses no oneshot. -/
theorem reach_sound
    (h : Reach (Probing.step settings plan) (fun _ _ => True) Probing.Spawned p) :
    Sound settings p ∧ Accounted p :=
  h.invariant (I := fun p => Sound settings p ∧ Accounted p) (fun _ hp => hp.sound)
    fun _ _ _ hinv _ hstep => hinv.1.step hinv.2 hstep

end Steps

section Progress

/-- How many steps a cancelled task has left at most. -/
def Stage.rank : Stage → ℕ
  | .ended => 0
  | .pollCancel => 1
  | .attemptCancel _ | .observe _ => 2
  | .pollTimer | .respond _ _ => 3
  | .pollCommands | .attemptProbe _ => 4

/-- A task that is bound to end: its next step is always possible, every step of its own
comes closer to the end, and no other move takes it back. -/
structure BoundToEnd (settings : Settings) (plan : Plan) (p : Probing) (run : ℕ) (t : Task) :
    Prop where
  possible : ∀ c, ∃ p', p.step settings plan (.task run c) = some p'
  closer : ∀ m p', p.step settings plan m = some p' → ∃ t', p'.tasks run = some t' ∧
    t'.cancelled = true ∧ t'.stage.rank ≤ t.stage.rank ∧
    ∀ c, m = .task run c → t'.stage.rank < t.stage.rank

variable {r : ℕ} {t : Task}

/-- Every step of a cancelled task comes closer to its end. -/
theorem closer_of_taskStep {c : TaskChoice} (ht : p.tasks r = some t)
    (hcancelled : t.cancelled = true) (hstep : p.taskStep settings plan r c = some p') :
    ∃ t', p'.tasks r = some t' ∧ t'.cancelled = true ∧ t'.stage.rank < t.stage.rank := by
  cases hstage : t.stage with
  | pollCancel =>
    simp only [Probing.taskStep, ht, hstage, hcancelled, if_true, Option.some.injEq] at hstep
    subst hstep
    exact ⟨_, Function.update_self .., hcancelled, Nat.zero_lt_one⟩
  | pollCommands =>
    simp only [Probing.taskStep, ht, hstage] at hstep
    split at hstep
    · obtain rfl := Option.some.inj hstep
      exact ⟨_, Function.update_self .., hcancelled, by simp [Stage.rank]⟩
    · obtain rfl := Option.some.inj hstep
      exact ⟨_, Function.update_self .., hcancelled, by simp [Stage.rank]⟩
    · split at hstep <;> obtain rfl := Option.some.inj hstep
      · exact ⟨_, Function.update_self .., hcancelled, by simp [Stage.rank]⟩
      · exact ⟨_, Function.update_self .., hcancelled, by simp [Stage.rank]⟩
  | pollTimer =>
    simp only [Probing.taskStep, ht, hstage] at hstep
    split at hstep
    · split at hstep <;> obtain rfl := Option.some.inj hstep
      · exact ⟨_, Function.update_self .., hcancelled, by simp [Stage.rank]⟩
      · exact ⟨_, Function.update_self .., hcancelled, by simp [Stage.rank]⟩
    · obtain rfl := Option.some.inj hstep
      exact ⟨_, Function.update_self .., hcancelled, by simp [Stage.rank]⟩
  | attemptCancel purpose =>
    simp only [Probing.taskStep, ht, hstage, hcancelled, if_true, Option.some.injEq] at hstep
    subst hstep
    exact ⟨_, Function.update_self .., rfl, by simp [Stage.rank]⟩
  | attemptProbe purpose =>
    simp only [Probing.taskStep, ht, hstage] at hstep
    split at hstep <;> obtain rfl := Option.some.inj hstep
    · exact ⟨_, Function.update_self .., hcancelled, by simp [Stage.rank]⟩
    · exact ⟨_, Function.update_self .., hcancelled, by cases purpose <;> simp [Stage.rank]⟩
  | respond o caller =>
    simp only [Probing.taskStep, ht, hstage, Option.some.injEq] at hstep
    subst hstep
    exact ⟨_, Function.update_self .., hcancelled, by simp [Stage.rank]⟩
  | observe o =>
    simp only [Probing.taskStep, ht, hstage] at hstep
    obtain ⟨sys, _, rfl⟩ := Option.map_eq_some_iff.mp hstep
    exact ⟨_, Function.update_self .., hcancelled, by simp [Stage.rank]⟩
  | ended => simp [Probing.taskStep, ht, hstage] at hstep

/-- A task that has not ended can always step. -/
theorem Sound.possible (h : Sound settings p) (ht : p.tasks r = some t)
    (hrunning : t.stage ≠ .ended) (c : TaskChoice) :
    ∃ p', p.taskStep settings plan r c = some p' := by
  have hknown := h.recorded.stage r t ht
  cases hstage : t.stage with
  | ended => exact absurd hstage hrunning
  | observe o =>
    rw [hstage] at hknown
    have hmem : (o.runId, o.pid) ∈ p.sys.drivers := by
      rw [hknown.1, hknown.2]
      exact h.linked.started r t ht
    simp only [Probing.taskStep, ht, hstage, Sys.step, if_pos hmem, Option.map_some]
    exact ⟨_, rfl⟩
  | pollCancel | attemptCancel =>
    simp only [Probing.taskStep, ht, hstage]
    split <;> exact ⟨_, rfl⟩
  | pollCommands =>
    simp only [Probing.taskStep, ht, hstage]
    split
    · exact ⟨_, rfl⟩
    · exact ⟨_, rfl⟩
    · split <;> exact ⟨_, rfl⟩
  | pollTimer =>
    simp only [Probing.taskStep, ht, hstage]
    split
    · split <;> exact ⟨_, rfl⟩
    · exact ⟨_, rfl⟩
  | attemptProbe purpose =>
    simp only [Probing.taskStep, ht, hstage]
    split <;> exact ⟨_, rfl⟩
  | respond o caller =>
    simp only [Probing.taskStep, ht, hstage]
    exact ⟨_, rfl⟩

/-- A task stays where it stands, and cancelled. -/
def Stays (p p' : Probing) (r : ℕ) : Prop :=
  ∀ t, p.tasks r = some t → ∃ t', p'.tasks r = some t' ∧ t'.stage = t.stage ∧
    (t.cancelled = true → t'.cancelled = true)

theorem Stays.of_tasks (h : p'.tasks r = p.tasks r) : Stays p p' r :=
  fun t ht => ⟨t, h.trans ht, rfl, id⟩

/-- Another task, or the same in another way. -/
theorem Stays.set {r' : ℕ} {t' : Task} (ht : p.tasks r' = some t) (hstage : t'.stage = t.stage)
    (hcancelled : t.cancelled = true → t'.cancelled = true) : Stays p (p.setTask r' t') r := by
  intro t₀ ht₀
  by_cases heq : r = r'
  · subst heq
    obtain rfl : t₀ = t := Option.some.inj (ht₀.symm.trans ht)
    exact ⟨t', Probing.setTask_self .., hstage, hcancelled⟩
  · exact ⟨t₀, (p.setTask_of_ne heq t').trans ht₀, rfl, id⟩

theorem stays_send (p : Probing) (r r' : ℕ) (command : DriverCommand) :
    Stays p (p.send r' command) r := by
  unfold Probing.send
  split
  · exact .of_tasks rfl
  · rename_i t ht
    split
    · exact .of_tasks rfl
    · exact .set ht rfl id

theorem stays_advance (p : Probing) (s' : Sys) (r : ℕ) : Stays p (p.advance s') r := by
  unfold Probing.advance
  split
  · simp only [Probing.release]
    split
    · exact .of_tasks rfl
    · split
      · exact .of_tasks rfl
      · rename_i t ht
        have hkept : Stays p (p.setTask _ { t with cancelled := true, closed := true }) r :=
          .set ht rfl fun _ => rfl
        exact hkept
  · exact .of_tasks rfl

theorem stays_takeRequest (p : Probing) (vars : Local) (caller r : ℕ) :
    Stays p (p.takeRequest vars caller) r := by
  simp only [Probing.takeRequest]
  split
  · split
    · exact stays_send (p.record _) _ _ _
    · exact .of_tasks rfl
  · exact .of_tasks rfl

/-- A step of the monitor touches no running task. -/
theorem Sound.stays_follow (h : Sound settings p) (s' : Sys) (ht : p.tasks r = some t) :
    Stays p (p.follow s') r := by
  unfold Probing.follow
  split
  · split <;> exact .of_tasks rfl
  · rename_i pid startedAt hphase
    split
    · exact .of_tasks rfl
    · have hfresh := h.linked.fresh h.inv (by rw [hphase]; rfl)
      have hne : r ≠ p.sys.vars.nextRunId := by
        rintro rfl
        rw [hfresh] at ht
        cases ht
      exact .of_tasks (Probing.setTask_of_ne _ hne _)
  · split
    · exact stays_takeRequest { p with sys := s' } _ _ r
    · exact .of_tasks rfl
  · split
    · split
      · exact stays_send { p with sys := s' } r _ _
      · exact .of_tasks rfl
    · exact .of_tasks rfl
  · exact stays_advance p s' r

/-- Another driver task moves. -/
theorem stays_taskStep {r' : ℕ} {c : TaskChoice} (hne : r ≠ r')
    (hstep : p.taskStep settings plan r' c = some p') : Stays p p' r := by
  refine .of_tasks ?_
  simp only [Probing.taskStep] at hstep
  split at hstep
  · cases hstep
  · repeat' split at hstep
    all_goals first
      | (obtain rfl := Option.some.inj hstep; exact Function.update_of_ne hne ..)
      | (obtain ⟨sys, _, rfl⟩ := Option.map_eq_some_iff.mp hstep
         exact Function.update_of_ne hne ..)
      | cases hstep

/-- **A cancelled driver ends.** -/
theorem Sound.ending (h : Sound settings p) (ht : p.tasks r = some t)
    (hcancelled : t.cancelled = true) (hrunning : t.stage ≠ .ended) :
    BoundToEnd settings plan p r t := by
  refine ⟨fun c => h.possible ht hrunning c, fun m p' hstep => ?_⟩
  have hstays : Stays p p' r → (∀ c, m ≠ .task r c) → ∃ t', p'.tasks r = some t' ∧
      t'.cancelled = true ∧ t'.stage.rank ≤ t.stage.rank ∧
      ∀ c, m = .task r c → t'.stage.rank < t.stage.rank := by
    intro hkept hother
    obtain ⟨t', ht', hstage, hcancelled'⟩ := hkept t ht
    exact ⟨t', ht', hcancelled' hcancelled, by rw [hstage], fun c heq => absurd heq (hother c)⟩
  cases m with
  | task run c =>
    by_cases heq : r = run
    · subst heq
      obtain ⟨t', ht', hcancelled', hlt⟩ := closer_of_taskStep ht hcancelled hstep
      exact ⟨t', ht', hcancelled', by omega, fun _ _ => hlt⟩
    · refine hstays (stays_taskStep heq hstep) fun c' hc' => heq ?_
      cases hc'
      rfl
  | call phase =>
    refine hstays (.of_tasks ?_) nofun
    simp only [Probing.step, Probing.probeNow] at hstep
    split at hstep
    · obtain rfl := Option.some.inj hstep
      rfl
    · split at hstep
      · obtain ⟨sys, _, rfl⟩ := Option.map_eq_some_iff.mp hstep
        rfl
      · obtain rfl := Option.some.inj hstep
        rfl
  | cancelDriver =>
    refine hstays ?_ nofun
    simp only [Probing.step] at hstep
    split at hstep
    · obtain ⟨_, hmap⟩ := Option.ite_none_left_eq_some.mp hstep
      obtain ⟨t', ht', rfl⟩ := Option.map_eq_some_iff.mp hmap
      exact .set ht' rfl fun _ => rfl
    · cases hstep
  | sys move =>
    refine hstays ?_ nofun
    have hmoved : ∀ move : Move, (p.sys.step settings move).map p.advance = some p' →
        Stays p p' r := by
      intro move hmap
      obtain ⟨s', _, rfl⟩ := Option.map_eq_some_iff.mp hmap
      exact stays_advance p s' r
    cases move with
    | observation o => cases hstep
    | request id => cases hstep
    | monitor c =>
      obtain ⟨_, hmap⟩ := Option.ite_none_right_eq_some.mp hstep
      obtain ⟨s', _, rfl⟩ := Option.map_eq_some_iff.mp hmap
      exact h.stays_follow s' ht
    | event event => exact hmoved _ hstep
    | closeEvents => exact hmoved .closeEvents hstep
    | tick duration => exact hmoved (.tick duration) hstep
    | drop => exact hmoved .drop hstep
    | callStop => exact hmoved .callStop hstep
    | stop c => exact hmoved _ hstep

end Progress

/-- What every interleaving keeps. -/
structure Serialized (settings : Settings) (plan : Plan) (p : Probing) : Prop where
  /-- At most one attempt is in flight, across all drivers. -/
  single : (inFlight p.log).length ≤ 1
  /-- No observation of a driver is sent after its stop has returned. -/
  observed : ∀ run before, .observed run :: before <:+ p.log → .stopped run ∉ before
  /-- A healthy answer is that of a reconciliation which began after the request was made, on
  the run that was current and ready when the monitor took it, and which finished before the
  driver of that run was stopped. -/
  healthy : ∀ caller before, .answered caller .healthy :: before <:+ p.log →
    ∃ run pid, Completed before ⟨run, pid, .reconcile caller⟩ .healthy
  /-- A caller that has no answer waits for a monitor that is there, or for a driver that has
  neither ended nor been stopped. -/
  waiting : ∀ caller < p.calls, (∀ result, .answered caller result ∉ p.log) →
    p.sys.live = true ∧ caller ∈ p.sys.requests ∨
      ∃ run t, p.tasks run = some t ∧ t.Holds caller ∧ t.stage ≠ .ended ∧ .stopped run ∉ p.log
  /-- The end of the monitor cancels its driver. -/
  released : p.sys.live = false → ∀ run t, p.tasks run = some t → t.stage ≠ .ended →
    t.cancelled = true
  /-- A cancelled driver ends, and drops what it holds. -/
  ending : ∀ run t, p.tasks run = some t → t.cancelled = true → t.stage ≠ .ended →
    BoundToEnd settings plan p run t

theorem Task.Holds.not_ended {p : Probing} {r caller : ℕ} {t : Task} (h : Sound settings p)
    (ht : p.tasks r = some t) (hholds : t.Holds caller) : t.stage ≠ .ended := by
  intro hend
  rcases hholds with hmem | hcaller
  · rw [h.linked.emptied r t ht hend] at hmem
    cases hmem
  · rw [hend] at hcaller
    cases hcaller

/-- **Probe serialization and reconcile freshness.** -/
theorem probes_serialized
    (h : Reach (Probing.step settings plan) (fun _ _ => True) Probing.Spawned p) :
    Serialized settings plan p := by
  obtain ⟨hsound, hheld⟩ := reach_sound h
  refine ⟨hsound.flight.length_le, fun run before hsuffix => ?_, fun caller before hsuffix => ?_,
    fun caller hcaller hnot => ?_, hsound.linked.halted, fun run t ht hcancelled hrunning =>
      hsound.ending ht hcancelled hrunning⟩
  · exact hsound.recorded.inOrder.of_suffix hsuffix
  · exact hsound.recorded.inOrder.of_suffix hsuffix
  · rcases hheld caller hcaller with ⟨result, hmem⟩ | hqueue | ⟨run, t, ht, hholds⟩
    · exact absurd hmem (hnot result)
    · exact .inl hqueue
    · have hrunning := hholds.not_ended hsound ht
      exact .inr ⟨run, t, ht, hholds, hrunning, hsound.not_stopped ht hrunning⟩

/-- An instance as `spawn` leaves it. -/
def Probing.launch : Probing := ⟨.launch, fun _ => none, 0, []⟩

theorem Probing.launch_spawned : Probing.launch.Spawned :=
  ⟨Sys.launch_spawned, rfl, rfl, rfl, rfl⟩

/-- A step of the monitor whose acknowledgement succeeds. -/
def monitorMove : ProbingMove := .sys (.monitor ⟨false, true, "", 0⟩)

/-- A step of the first driver, whose probes succeed. -/
def driverMove : ProbingMove := .task 1 ⟨true, some (.checked .healthy), 50⟩

/-- A core becomes ready, and a reconciliation is answered. -/
theorem probes_serialized_reconciled : ∃ p, .answered 0 .healthy ∈ p.log ∧
    Serialized ⟨⟨10, 10, 3, 1, 0⟩, 100, 100⟩ ⟨false, "1s"⟩ p := by
  obtain ⟨p, hreach, hp⟩ := exists_reach
    (Probing.step ⟨⟨10, 10, 3, 1, 0⟩, 100, 100⟩ ⟨false, "1s"⟩) (fun _ _ => True)
    (p := fun p => decide (.answered 0 .healthy ∈ p.log)) Probing.launch_spawned
    (.sys (.event (.started 7)) :: List.replicate 6 monitorMove ++ List.replicate 6 driverMove ++
      List.replicate 11 monitorMove ++ .call .reconcile :: List.replicate 4 monitorMove ++
      List.replicate 9 driverMove)
    (by decide +kernel)
  exact ⟨p, of_decide_eq_true hp, probes_serialized hreach⟩

end Nyanpasu.Instance
