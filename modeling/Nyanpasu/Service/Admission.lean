import Nyanpasu.Service.Gate
import Nyanpasu.Service.Shutdown

/-!
# The gate before the manager

The service serves its requests one after the other, and the gate says how its lock and its latch
bring that about. Here the two are connected. Every run of the service, with the drops of its
requests, is matched by a run of the gate that has the same latch, and the request that is served
stands there where its program has got. In particular it is in the manager only as a control
operation that keeps the lock, or as the shutdown that has set the latch.
-/

namespace Nyanpasu.Service

open Moves

variable {settings : Settings} {s : State} {request : Request} {rest : Action Response} {g : Gate}
  {index : ℕ} {caller : Caller} {stage : CallerStage} {α : Type}

/-- The shape of a request. -/
def Request.kind : Request → CallerKind
  | .start _ _ | .stop | .restart | .apply _ _ _ | .recover => .control
  | .shutdown => .shutdown

theorem Request.kind_of_ne (h : request ≠ .shutdown) : request.kind = .control := by
  cases request with
  | shutdown => exact absurd rfl h
  | start core configPath | stop | restart | apply core configFile expected | recover => rfl

section Programs

/-- A program that does not set the latch. -/
def LeavesLatch (p : Action α) : Prop := p.Uses (· ≠ .close)

theorem leavesLatch_manage (p : Manager.Action α) : LeavesLatch (manage p) := by
  induction p with
  | ret value => trivial
  | call effect next ih => exact ⟨by simp, fun answer => ih answer⟩

theorem leavesLatch_instanceSpec {core : CoreType} {configPath : String} :
    LeavesLatch (instanceSpec settings core configPath) := by
  unfold instanceSpec
  split
  · trivial
  refine Program.uses_bind (Program.uses_perform (by simp)) fun present => ?_
  split
  · trivial
  · split <;> trivial

theorem leavesLatch_canonicalConfigPath {configFile : OsPath} :
    LeavesLatch (canonicalConfigPath configFile) := by
  refine Program.uses_bind (Program.uses_perform (by simp)) fun canonical => ?_
  split
  · split <;> trivial
  · split <;> trivial

/-- A control operation reads the latch, and is refused or leaves it alone. -/
theorem Request.control_program (settings : Settings) (hne : request ≠ .shutdown) :
    ∃ served : Action Response, LeavesLatch served ∧
      request.program settings = .call .closing fun closing =>
        if closing then .ret request.refusal else served := by
  have hgated : ∀ {E γ : Type} {refusal : String → E} {p : Action (Except E γ)}
      {respond : Except E γ → Response},
      respond (.error (refusal "service is shutting down")) = request.refusal → LeavesLatch p →
      request.program settings = (do
        let result ← unlessClosing refusal p
        return respond result) →
      ∃ served : Action Response, LeavesLatch served ∧
        request.program settings = .call .closing fun closing =>
          if closing then .ret request.refusal else served := by
    intro E γ refusal p respond hrefusal hp hprogram
    refine ⟨p >>= fun result => .ret (respond result), Program.uses_bind hp fun _ => trivial, ?_⟩
    rw [hprogram]
    refine congrArg (Program.call Effect.closing) (funext fun closing => ?_)
    cases closing with
    | true => exact congrArg Program.ret hrefusal
    | false => rfl
  cases request with
  | start core configPath =>
    refine hgated rfl ?_ rfl
    refine Program.uses_andThen (Program.uses_perform (by simp)) fun configPath => ?_
    refine Program.uses_andThen (Program.uses_perform (by simp)) fun () => ?_
    refine Program.uses_bind (Program.uses_perform (by simp)) fun state => ?_
    split
    · trivial
    refine Program.uses_bind leavesLatch_instanceSpec fun result => ?_
    cases result with
    | error error => trivial
    | ok spec =>
      refine Program.uses_bind (leavesLatch_manage _) fun result => ?_
      cases result with
      | error error => trivial
      | ok value => exact Program.uses_bind (Program.uses_perform (by simp)) fun _ => trivial
  | stop =>
    refine hgated rfl ?_ rfl
    exact Program.uses_bind (leavesLatch_manage _) fun _ => trivial
  | restart =>
    refine hgated rfl ?_ rfl
    exact Program.uses_bind (leavesLatch_manage _) fun _ => trivial
  | apply core configFile expected =>
    refine hgated rfl ?_ rfl
    refine Program.uses_andThen leavesLatch_canonicalConfigPath fun configPath => ?_
    refine Program.uses_andThen leavesLatch_instanceSpec fun spec => ?_
    refine Program.uses_bind (leavesLatch_manage _) fun result => ?_
    cases result with
    | error error => trivial
    | ok outcome =>
      simp only
      split
      · trivial
      · exact Program.uses_bind (Program.uses_perform (by simp)) fun _ => trivial
  | recover =>
    refine hgated rfl ?_ rfl
    exact Program.uses_bind (leavesLatch_manage _) fun _ => trivial
  | shutdown => exact absurd rfl hne

/-- The shutdown reads the latch, and returns or sets it. -/
theorem Request.shutdown_program (settings : Settings) :
    ∃ stopped : Action Response, LeavesLatch stopped ∧
      Request.program settings .shutdown = .call .closing fun closing =>
        if closing then .ret .closed else .call .close fun () => stopped := by
  let stopped : Action Unit := manage (Manager.shutdown settings.manager) >>= fun _ => pure ()
  refine ⟨stopped >>= fun () => .ret .closed,
    Program.uses_bind (Program.uses_bind (leavesLatch_manage _) fun _ => trivial)
      fun _ => trivial, ?_⟩
  refine congrArg (Program.call Effect.closing) (funext fun closing => ?_)
  cases closing <;> rfl

/-- Every request reads the latch first. -/
theorem Request.program_reads (settings : Settings) (request : Request) :
    ∃ next, request.program settings = .call .closing next := by
  by_cases hshutdown : request = .shutdown
  · subst hshutdown
    obtain ⟨stopped, -, hprogram⟩ := Request.shutdown_program settings
    exact ⟨_, hprogram⟩
  · obtain ⟨served, -, hprogram⟩ := Request.control_program settings hshutdown
    exact ⟨_, hprogram⟩

/-- Only one effect sets the latch. -/
theorem State.closing_step {effect : Effect} (h : effect ≠ .close) (answer : Answer effect) :
    (s.step effect answer).closing = s.closing := by
  cases effect with
  | close => exact absurd rfl h
  | publishRequestedCore committed => cases committed <;> rfl
  | manager effect => rfl
  | closing | canonicalizeUtf8 path | canonicalize path | metadata path | status | files => rfl

theorem Effect.ne_close_of_awaits {effect : Effect} (h : effect.awaits = true) :
    effect ≠ .close := by
  rintro rfl
  cases h

end Programs

/-- Where a request stands in the gate, by what is left of its program. -/
inductive Stands (settings : Settings) (closing : Bool) (request : Request) :
    CallerStage → Action Response → Prop
  | locked : Stands settings closing request .locked (request.program settings)
  /-- The shutdown has read the latch and sets it next, both under the lock. -/
  | latching (stopped : Action Response) : request = .shutdown → closing = false →
      LeavesLatch stopped →
      Stands settings closing request .locked (.call .close fun () => stopped)
  | serving (rest : Action Response) : request ≠ .shutdown → LeavesLatch rest →
      Stands settings closing request .serving rest
  | stopping (rest : Action Response) : request = .shutdown → closing = true → LeavesLatch rest →
      Stands settings closing request .stopping rest
  | refused (response : Response) : Stands settings closing request .refused (.ret response)

/-- A gate with the latch of the service, in which a request stands where its program has got. -/
structure Gate.Admits (settings : Settings) (g : Gate) (s : State) (request : Request)
    (rest : Action Response) (index : ℕ) (stage : CallerStage) : Prop where
  run : Gate.Run g
  closing : g.closing = s.closing
  place : g.callers[index]? = some ⟨request.kind, stage⟩
  /-- The lock is free but for what this request has of it. -/
  lock : g.lock + (Caller.mk request.kind stage).locks.toNat = 1
  stands : Stands settings s.closing request stage rest

/-- A gate with the latch of the service, and a free lock. -/
structure Gate.Rests (g : Gate) (s : State) : Prop where
  run : Gate.Run g
  closing : g.closing = s.closing
  lock : g.lock = 1

@[simp] theorem Gate.enter_callers (hget : g.callers[index]? = some caller) :
    (g.enter index caller stage).callers[index]? = some { caller with stage } := by
  rw [Gate.enter, List.getElem?_set_self', hget]
  rfl

/-- A request comes in and gets the free lock. -/
theorem Gate.Rests.acquire (settings : Settings) (request : Request) (h : g.Rests s) : ∃ g' index,
    Gate.Admits settings g' s request (request.program settings) index .locked := by
  let arrived : Gate := { g with callers := g.callers ++ [⟨request.kind, .waiting⟩] }
  have hget : arrived.callers[g.callers.length]? = some ⟨request.kind, .waiting⟩ := by
    simp [arrived]
  have hfree : 0 < arrived.lock := by
    have hlock := h.lock
    change 0 < g.lock
    omega
  have hrun : Gate.Run arrived := .move (.arrive request.kind) h.run trivial rfl
  refine ⟨{ arrived.enter g.callers.length ⟨request.kind, .waiting⟩ .locked with
    lock := arrived.lock - 1 }, g.callers.length, ?_, h.closing, Gate.enter_callers hget, ?_,
    .locked⟩
  · refine .move (.acquire g.callers.length) hrun trivial ?_
    simp [Gate.step, hget, hfree]
  · have hlock : arrived.lock = 1 := h.lock
    simp [hlock, Caller.locks]

/-- A request with the lock looks at the latch. -/
theorem Gate.Run.look (h : Gate.Run g) (hget : g.callers[index]? = some caller)
    (hstage : caller.stage = .locked) : Gate.Run (g.look index caller) := by
  refine .move (.look index) h trivial ?_
  simp [Gate.step, hget, hstage]

theorem Gate.look_of_closing (h : g.closing = true) : g.look index caller =
    { g.enter index caller .refused with lock := g.lock + 1 } := if_pos h

theorem Gate.look_of_control (h : g.closing = false) (hkind : caller.kind = .control) :
    g.look index caller = g.enter index caller .serving := by
  simp [Gate.look, h, hkind]

theorem Gate.look_of_shutdown (h : g.closing = false) (hkind : caller.kind = .shutdown) :
    g.look index caller =
      { g.enter index caller .stopping with closing := true, lock := g.lock + 1 } := by
  simp [Gate.look, h, hkind]

/-- The gate follows an effect of the request. -/
theorem Gate.Admits.call {effect : Effect} {next : Answer effect → Action Response}
    {answer : Answer effect} (h : Gate.Admits settings g s request (.call effect next) index stage)
    (hanswer : s.allowed effect answer) : ∃ g' stage', Gate.Admits settings g'
      (s.step effect answer) request (next answer) index stage' := by
  obtain ⟨hrun, hclosing, hget, hlock, hstands⟩ := h
  generalize hcall : Program.call effect next = p at hstands
  cases hstands with
  | locked =>
    have hlook := hrun.look hget rfl
    have hfree : g.lock = 0 := by simpa [Caller.locks] using hlock
    by_cases hshutdown : request = .shutdown
    · subst hshutdown
      obtain ⟨stopped, hleaves, hprogram⟩ := Request.shutdown_program settings
      rw [hprogram] at hcall
      cases hcall
      obtain rfl : answer = s.closing := hanswer
      cases hset : s.closing with
      | true =>
        rw [Gate.look_of_closing (hclosing.trans hset)] at hlook
        exact ⟨_, .refused, hlook, hclosing, Gate.enter_callers hget, by simp [hfree, Caller.locks],
          .refused .closed⟩
      | false =>
        exact ⟨g, .locked, hrun, hclosing, hget, hlock, .latching stopped rfl hset hleaves⟩
    · obtain ⟨served, hleaves, hprogram⟩ := Request.control_program settings hshutdown
      rw [hprogram] at hcall
      cases hcall
      obtain rfl : answer = s.closing := hanswer
      cases hset : s.closing with
      | true =>
        rw [Gate.look_of_closing (hclosing.trans hset)] at hlook
        exact ⟨_, .refused, hlook, hclosing, Gate.enter_callers hget, by simp [hfree, Caller.locks],
          .refused request.refusal⟩
      | false =>
        rw [Gate.look_of_control (hclosing.trans hset) (Request.kind_of_ne hshutdown)] at hlook
        exact ⟨_, .serving, hlook, hclosing, Gate.enter_callers hget,
          by simp [Gate.enter, hfree, Caller.locks], .serving served hshutdown hleaves⟩
  | latching stopped hshutdown hopen hleaves =>
    subst hshutdown
    cases hcall
    have hlook := hrun.look hget rfl
    have hfree : g.lock = 0 := by simpa [Caller.locks] using hlock
    rw [Gate.look_of_shutdown (hclosing.trans hopen) rfl] at hlook
    exact ⟨_, .stopping, hlook, rfl, Gate.enter_callers hget, by simp [hfree, Caller.locks],
      .stopping stopped rfl rfl hleaves⟩
  | serving rest hne hleaves =>
    subst hcall
    have hsame := State.closing_step hleaves.1 (s := s) answer
    exact ⟨g, .serving, hrun, hclosing.trans hsame.symm, hget, hlock,
      .serving _ hne (hleaves.2 answer)⟩
  | stopping rest hshutdown hset hleaves =>
    subst hcall
    have hsame := State.closing_step hleaves.1 (s := s) answer
    exact ⟨g, .stopping, hrun, hclosing.trans hsame.symm, hget, hlock,
      .stopping _ hshutdown (hsame.trans hset) (hleaves.2 answer)⟩
  | refused response => cases hcall

/-- A request that returns leaves the lock free. -/
theorem Gate.Admits.finish {response : Response}
    (h : Gate.Admits settings g s request (.ret response) index stage) :
    ∃ g' : Gate, g'.Rests s := by
  obtain ⟨hrun, hclosing, hget, hlock, hstands⟩ := h
  generalize hret : Program.ret response = p at hstands
  cases hstands with
  | locked =>
    obtain ⟨first, hprogram⟩ := Request.program_reads settings request
    rw [hprogram] at hret
    cases hret
  | latching stopped hshutdown hopen hleaves => cases hret
  | serving rest hne hleaves =>
    have hfree : g.lock = 0 := by simpa [Caller.locks] using hlock
    refine ⟨{ g.enter index ⟨request.kind, .serving⟩ .served with lock := g.lock + 1 },
      .move (.finish index) hrun trivial ?_, hclosing, ?_⟩
    · simp [Gate.step, hget, Gate.finish]
    · simp [hfree]
  | stopping rest hshutdown hset hleaves =>
    have hone : g.lock = 1 := by simpa [Caller.locks] using hlock
    refine ⟨g.enter index ⟨request.kind, .stopping⟩ .stopped,
      .move (.finish index) hrun trivial ?_, hclosing, hone⟩
    simp [Gate.step, hget, Gate.finish]
  | refused value => exact ⟨g, hrun, hclosing, by simpa [Caller.locks] using hlock⟩

/-- A request is dropped where it awaits, which is in the manager and before the latch is set. -/
theorem Gate.Admits.drop {effect : Effect} {next : Answer effect → Action Response}
    (h : Gate.Admits settings g s request (.call effect next) index stage)
    (hawaits : effect.awaits = true) (hopen : s.closing = false) :
    ∃ g' : Gate, g'.Rests s := by
  obtain ⟨hrun, hclosing, hget, hlock, hstands⟩ := h
  generalize hcall : Program.call effect next = p at hstands
  cases hstands with
  | locked =>
    obtain ⟨first, hprogram⟩ := Request.program_reads settings request
    rw [hprogram] at hcall
    cases hcall
    cases hawaits
  | latching stopped hshutdown hopen hleaves =>
    cases hcall
    cases hawaits
  | serving rest hne hleaves =>
    have hfree : g.lock = 0 := by simpa [Caller.locks] using hlock
    refine ⟨{ g.enter index ⟨request.kind, .serving⟩ .dropped with lock := g.lock + 1 },
      .move (.drop index) hrun trivial ?_, hclosing, ?_⟩
    · simp [Gate.step, hget, Gate.drop]
    · simp [hfree]
  | stopping rest hshutdown hset hleaves =>
    rw [hopen] at hset
    cases hset
  | refused response => cases hcall

section Runs

variable {c : Serial.Config Effect Answer State Request Response}

/-- The gate of a configuration: at rest, or with the request at work in its place. -/
def Gate.Mirrors (settings : Settings) (g : Gate)
    (c : Serial.Config Effect Answer State Request Response) : Prop :=
  match c.active with
  | none => g.Rests c.state
  | some job => ∃ index stage, Gate.Admits settings g c.state job.request job.rest index stage

/-- **Every run of the service goes through the gate.** Some run of the gate has the latch of the
service, and in it the lock and the request at work are as in the service. -/
theorem exists_gate (h : Serial.Reach (droppable settings) (Built settings) c) :
    ∃ g : Gate, g.Mirrors settings c := by
  induction h with
  | start hbuilt => exact ⟨newGate, .start rfl, hbuilt.closing.symm, rfl⟩
  | acquire client request _ ih =>
    obtain ⟨g, hrests⟩ := ih
    obtain ⟨g', index, hadmits⟩ := Gate.Rests.acquire settings request hrests
    exact ⟨g', index, _, hadmits⟩
  | call answer _ hanswer ih =>
    obtain ⟨g, index, stage, hadmits⟩ := ih
    obtain ⟨g', stage', hadmits'⟩ := hadmits.call hanswer
    exact ⟨g', index, stage', hadmits'⟩
  | finish _ ih =>
    obtain ⟨g, index, stage, hadmits⟩ := ih
    exact hadmits.finish
  | drift d _ _ _ => exact d.elim
  | cutBefore removed _ hawaits hcut ih =>
    obtain ⟨g, index, stage, hadmits⟩ := ih
    obtain ⟨g', hrests⟩ := hadmits.drop hawaits hcut.1
    exact ⟨g', hrests.run, hrests.closing, hrests.lock⟩
  | @cutAfter s _ _ _ _ _ _ removed answer _ hawaits hanswer hcut ih =>
    obtain ⟨g, index, stage, hadmits⟩ := ih
    have hsame := State.closing_step (Effect.ne_close_of_awaits hawaits) (s := s) answer
    obtain ⟨g', hrests⟩ := hadmits.drop hawaits (hsame.symm.trans hcut.1)
    exact ⟨g', hrests.run, hrests.closing.trans hsame.symm, hrests.lock⟩

/-- A request is in the manager only where the gate says so. -/
theorem manages_of_call {job : Serial.Job Effect Answer State Request Response}
    (h : Serial.Reach (droppable settings) (Built settings) c) (hactive : c.active = some job)
    {effect : Manager.Effect} {next : Answer (.manager effect) → Action Response}
    (hcall : job.rest = .call (.manager effect) next) : ∃ (g : Gate) (index : ℕ) (caller : Caller),
      Gate.Run g ∧ g.closing = c.state.closing ∧ g.callers[index]? = some caller ∧
        caller.kind = job.request.kind ∧ caller.manages = true := by
  obtain ⟨g, hmirrors⟩ := exists_gate h
  rw [Gate.Mirrors, hactive] at hmirrors
  obtain ⟨index, stage, hrun, hclosing, hget, -, hstands⟩ := hmirrors
  refine ⟨g, index, _, hrun, hclosing, hget, rfl, ?_⟩
  rw [hcall] at hstands
  generalize hp : Program.call (Effect.manager effect) next = p at hstands
  cases hstands with
  | locked =>
    obtain ⟨first, hprogram⟩ := Request.program_reads settings job.request
    rw [hprogram] at hp
    cases hp
  | latching stopped => cases hp
  | serving | stopping => rfl
  | refused response => cases hp

end Runs

end Nyanpasu.Service
