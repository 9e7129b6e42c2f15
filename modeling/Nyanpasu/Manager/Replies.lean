import Nyanpasu.Manager.Runs

/-!
# What the replies of a run say

The replies of the manager are compared with the worlds before and after each request: what
an apply reports, what a switch reports, and which spec the manager remembers. A switch
whose old epoch cannot be removed after the install reports an error, and an apply that
finds nothing to change forgets the path it was given.
-/

namespace Nyanpasu.Manager

open Config Machine Serial

variable {options : Options} {b w : World} {result : Except Error Outcome}
  {c : Config Effect Answer World Request (Except Error Outcome)}
  {reply : Reply World Request (Except Error Outcome)}

section Outcomes

/-- The reply of an apply describes the world that it leaves. -/
theorem apply_outcome {input : InstanceSpec} {expected : Option RevisionId} (h : Run options c)
    (hreply : reply ∈ c.replies) (hrequest : reply.request = .apply input expected) :
    ∃ applied : Except Error ApplyOutcome, reply.result = applied.map .applied ∧
      ApplyContract options input reply.before applied reply.after := by
  have hcontract := (h.sound.replied reply hreply).2.2
  rw [hrequest] at hcontract
  obtain ⟨applied, hresult, hcontract, -⟩ := hcontract
  exact ⟨applied, hresult, hcontract⟩

/-- What is true of the last reply of a run that was played is true of some reply. -/
theorem exists_reply (requests : List (Request × (World → (effect : Effect) → Answer effect)))
    {p : Reply World Request (Except Error Outcome) → Bool}
    (h : (playRequests requests).any (fun c => c.replies.head?.any p) = true) :
    ∃ c reply, Run httpOptions c ∧ reply ∈ c.replies ∧ p reply = true := by
  obtain ⟨c, hrun, hc⟩ := exists_run requests h
  obtain ⟨reply, hreply, hp⟩ := (Option.any_eq_true p _).mp hc
  exact ⟨c, reply, hrun, List.mem_of_head? hreply, hp⟩

/-- Whether the request is an apply of the spec. -/
def Request.applies (input : InstanceSpec) : Request → Bool
  | .apply spec _ => spec = input
  | _ => false

theorem Request.eq_of_applies {request : Request} {input : InstanceSpec}
    (h : request.applies input = true) : ∃ expected, request = .apply input expected := by
  cases request <;> simp only [Request.applies, Bool.false_eq_true, decide_eq_true_eq] at h
  exact ⟨_, by rw [h]⟩

/-- The outcome of an apply, if it has one. -/
def applied? : Except Error Outcome → Option ApplyOutcome
  | .ok (.applied outcome) => some outcome
  | _ => none

/-- An apply that patches the running core. -/
theorem apply_outcome_patched : ∃ c reply applied, Run httpOptions c ∧ reply ∈ c.replies ∧
    ((reply.result = applied.map .applied ∧
        ApplyContract httpOptions mihomoSpec reply.before applied reply.after) ∧
      (applied? reply.result).any (fun outcome => outcome matches .patched _)) := by
  obtain ⟨c, reply, hrun, hreply, hp⟩ := exists_reply
    [(.start mihomoSpec, smooth "rule"), (.apply mihomoSpec none, smooth "direct")]
    (p := fun reply => reply.request.applies mihomoSpec &&
      (applied? reply.result).any fun outcome => outcome matches .patched _)
    (by decide +kernel)
  simp only [Bool.and_eq_true] at hp
  obtain ⟨expected, hrequest⟩ := Request.eq_of_applies hp.1
  obtain ⟨applied, hresult, hcontract⟩ := apply_outcome hrun hreply hrequest
  exact ⟨c, reply, applied, hrun, hreply, ⟨hresult, hcontract⟩, hp.2⟩

/-- The drop of a staged file fails. -/
def undropped (mode : String) (w : World) : (effect : Effect) → Answer effect
  | .dropStaged _ => false
  | effect => smooth mode w effect

/-- A no-op whose staged file is not removed changes the runtime directory. -/
theorem noop_leaves_staged : ∃ c reply, Run httpOptions c ∧ reply ∈ c.replies ∧
    (applied? reply.result).any (fun outcome => outcome matches .noop _) ∧
    reply.after.files.map Prod.fst ≠ reply.before.files.map Prod.fst := by
  obtain ⟨c, reply, hrun, hreply, hp⟩ := exists_reply
    [(.start mihomoSpec, smooth "rule"), (.apply mihomoSpec none, undropped "rule")]
    (p := fun reply => (applied? reply.result).any (fun outcome => outcome matches .noop _) &&
      reply.after.files.map Prod.fst ≠ reply.before.files.map Prod.fst)
    (by decide +kernel)
  simp only [Bool.and_eq_true, decide_eq_true_eq] at hp
  exact ⟨c, reply, hrun, hreply, hp.1, hp.2⟩

end Outcomes

section Switches

/-- The spec that a switch or a restart launches. -/
def Request.target (b : World) : Request → Option InstanceSpec
  | .switch spec => some spec
  | .restart => b.ctrl.lastSpec
  | _ => none

/-- Whether the request is a switch or a restart. -/
def Request.switches : Request → Bool
  | .switch _ | .restart => true
  | _ => false

/-- The result says whether the new epoch was installed: a success leaves an instance of the
new epoch with the requested spec, and an error leaves the very instance that was held, with
the spec that was remembered, or none. -/
def Reported (request : Request) (b : World) (result : Except Error Outcome) (w : World) : Prop :=
  match result with
  | .ok _ => ∃ spec active, request.target b = some spec ∧ w.ctrl.current = some active ∧
      active.revision.epoch = b.nextEpoch ∧ active.sourceSpec = spec ∧ w.ctrl.lastSpec = some spec
  | .error _ => (w.ctrl.current = b.ctrl.current ∧ w.ctrl.lastSpec = b.ctrl.lastSpec) ∨
      w.ctrl.current = none

/-- An install of an epoch that was not used is not the instance that was held. -/
theorem Settled.ne_current {active : Active} (h : Settled options.site b)
    (hunused : b.Unused active.revision.epoch) : b.ctrl.current ≠ some active := by
  intro hcurrent
  have hnewest := (h.inv.chronicle.current active hcurrent).newest
  exact hunused active (List.mem_of_head? hnewest) rfl

theorem SwitchResult.reported {request : Request} {spec : InstanceSpec}
    (h : SwitchResult spec b.nextEpoch b w result) (hsettled : Settled options.site b)
    (hspec : request.target b = some spec) :
    Reported request b result w ↔ w.history.uncleaned = b.history.uncleaned := by
  cases h with
  | @switched value active hinstalled hopens =>
    refine iff_of_true ⟨spec, active, hspec, hinstalled.current, hopens.epoch, hopens.spec, ?_⟩
      (congrArg Ledger.uncleaned hinstalled.ledger)
    rw [← hopens.spec]
    exact congrArg Ledger.lastSpec hinstalled.ledger
  | kept hcurrent hledger =>
    exact iff_of_true (Or.inl ⟨hcurrent, congrArg Ledger.lastSpec hledger⟩)
      (congrArg Ledger.uncleaned hledger)
  | ended hnone hledger => exact iff_of_true (Or.inr hnone) (congrArg Ledger.uncleaned hledger)
  | @uncleaned error active oldEpoch hcurrent hledger hopens =>
    refine iff_of_false ?_ fun hsame => ?_
    · rintro (⟨hkept, -⟩ | hnone)
      · exact hsettled.ne_current hopens.unused (hkept.symm.trans hcurrent)
      · simp [hcurrent] at hnone
    · have hleft : w.history.uncleaned = oldEpoch :: b.history.uncleaned :=
        congrArg Ledger.uncleaned hledger
      simp [hsame] at hleft

/-- A switch or a restart reports what it did if and only if it did not leave the old epoch
behind after the install of the new one. -/
theorem switch_reported_iff (h : Run options c) (hreply : reply ∈ c.replies)
    (hswitch : reply.request.switches = true) :
    Reported reply.request reply.before reply.result reply.after ↔
      reply.after.history.uncleaned = reply.before.history.uncleaned := by
  obtain ⟨hsettled, -, hcontract⟩ := h.sound.replied reply hreply
  cases hrequest : reply.request with
  | switch spec =>
    rw [hrequest] at hcontract
    exact SwitchResult.reported hcontract hsettled rfl
  | restart =>
    rw [hrequest] at hcontract
    rcases hcontract with ⟨-, hctrl, hledger, error, hresult⟩ | ⟨spec, hlast, hdone⟩
    · refine iff_of_true ?_ (congrArg Ledger.uncleaned hledger)
      rw [hresult, Reported, hctrl]
      exact Or.inl ⟨rfl, rfl⟩
    · exact hdone.reported hsettled hlast
  | _ => simp [hrequest, Request.switches] at hswitch

/-- A graceful switch whose cleanup succeeds. -/
theorem switch_reported_graceful : ∃ c reply, Run httpOptions c ∧ reply ∈ c.replies ∧
    reply.request.switches = true ∧ reply.result.toBool = true ∧
    Reported reply.request reply.before reply.result reply.after := by
  obtain ⟨c, reply, hrun, hreply, hp⟩ := exists_reply
    [(.start mihomoSpec, smooth "rule"), (.switch mihomoSpec, smooth "rule")]
    (p := fun reply => reply.request.switches && (reply.result.toBool &&
      reply.after.history.uncleaned = reply.before.history.uncleaned)) (by decide +kernel)
  simp only [Bool.and_eq_true, decide_eq_true_eq] at hp
  exact ⟨c, reply, hrun, hreply, hp.1, hp.2.1, (switch_reported_iff hrun hreply hp.1).mpr hp.2.2⟩

/-- The config of the first epoch cannot be removed. -/
def unremovable (mode : String) (w : World) : (effect : Effect) → Answer effect
  | .removeRegular (.config 1) => .error (.process "permission denied")
  | effect => smooth mode w effect

/-- A graceful switch that cannot remove the old config reports an error, and the new epoch
is installed. -/
theorem switch_misreported : ∃ c reply, Run httpOptions c ∧ reply ∈ c.replies ∧
    reply.request.switches = true ∧
    ¬ Reported reply.request reply.before reply.result reply.after := by
  obtain ⟨c, reply, hrun, hreply, hp⟩ := exists_reply
    [(.start mihomoSpec, smooth "rule"), (.switch mihomoSpec, unremovable "rule")]
    (p := fun reply => reply.request.switches && (!reply.result.toBool &&
      (reply.after.ctrl.current.isSome && reply.after.ctrl.current ≠ reply.before.ctrl.current)))
    (by decide +kernel)
  simp only [Bool.and_eq_true, decide_eq_true_eq] at hp
  obtain ⟨hswitch, hfailed, hsome, hne⟩ := hp
  refine ⟨c, reply, hrun, hreply, hswitch, ?_⟩
  cases hresult : reply.result with
  | ok outcome => simp [hresult, Except.toBool] at hfailed
  | error error =>
    rintro (⟨hkept, -⟩ | hnone)
    · exact hne hkept
    · simp [hnone] at hsome

end Switches

section Memory

/-- The spec that a request is given. -/
def Request.input : Request → Option InstanceSpec
  | .start spec | .switch spec | .apply spec _ => some spec
  | _ => none

/-- Whether the result is a success that was not rolled back. -/
def succeeded : Except Error Outcome → Bool
  | .ok (.applied outcome) => !outcome.isRolledBack
  | .ok _ => true
  | .error _ => false

/-- The manager remembers, holds and publishes the spec. -/
structure Remembers (spec : InstanceSpec) (w : World) : Prop where
  lastSpec : w.ctrl.lastSpec = some spec
  sourceSpec : ∃ active, w.ctrl.current = some active ∧ active.sourceSpec = spec
  published : ∃ p summary, w.history.publications.head? = some p ∧ p.spec = some summary ∧
    summary.configPath = spec.configPath

/-- The remembered spec follows a request: a success leaves the spec it was given, a restart
launches the remembered one, and a stop or an error that keeps the instance changes
nothing. -/
structure Followed (request : Request) (b : World) (result : Except Error Outcome) (w : World) :
    Prop where
  given : ∀ spec, request.input = some spec → succeeded result = true → Remembers spec w
  restarted : request = .restart → succeeded result = true →
    ∃ spec, b.ctrl.lastSpec = some spec ∧ Remembers spec w
  stopped : request = .stop → w.ctrl.lastSpec = b.ctrl.lastSpec
  kept : result.toBool = false → w.ctrl.current = b.ctrl.current →
    w.ctrl.lastSpec = b.ctrl.lastSpec

/-- Whether an outcome is a no-op. -/
def ApplyOutcome.isNoop (outcome : ApplyOutcome) : Bool :=
  match outcome.innermost with
  | .noop _ => true
  | _ => false

/-- The warnings around an outcome say nothing about the world. -/
theorem ApplyOutcome.Holds.inner {input : InstanceSpec} {outcome : ApplyOutcome}
    (h : outcome.Holds options input b w) : outcome.innermost.Holds options input b w := by
  induction outcome with
  | durabilityUncertain outcome warning ih => exact ih h
  | _ => exact h

/-- An install that nothing hushed since is remembered, held and published. -/
theorem Installed.remembers {active : Active} (h : Installed b active w)
    (hsettled : Settled options.site w) : Remembers active.sourceSpec w where
  lastSpec := congrArg Ledger.lastSpec h.ledger
  sourceSpec := ⟨active, h.current, rfl⟩
  published := by
    have hspoken := (hsettled.spoken active h.current).resolve_left (by simp [h.clear])
    obtain ⟨⟨p, hp, habout, -⟩, -⟩ := hspoken
    exact ⟨p, _, hp, habout.spec, rfl⟩

theorem Fulfilled.sourceSpec {input : InstanceSpec} {active : Active}
    (h : Fulfilled options input b active w) : active.sourceSpec = input := by
  obtain ⟨snapshot, launch, -, -, ⟨_, _, _, -, rfl⟩, hactive⟩ := h.prepared
  rw [hactive]
  rfl

theorem SwitchResult.remembers {spec : InstanceSpec} {epoch : ℕ}
    (h : SwitchResult spec epoch b w result) (hsettled : Settled options.site w)
    (hok : succeeded result = true) : Remembers spec w := by
  cases h with
  | switched hinstalled hopens => exact hopens.spec ▸ hinstalled.remembers hsettled
  | _ => cases hok

theorem SwitchResult.kept_lastSpec {spec : InstanceSpec}
    (h : SwitchResult spec b.nextEpoch b w result) (hsettled : Settled options.site b)
    (hfailed : result.toBool = false) (hcurrent : w.ctrl.current = b.ctrl.current) :
    w.ctrl.lastSpec = b.ctrl.lastSpec := by
  cases h with
  | switched => cases hfailed
  | kept _ hledger => exact congrArg Ledger.lastSpec hledger
  | ended _ hledger => exact congrArg Ledger.lastSpec hledger
  | uncleaned hactive _ hopens =>
    exact absurd (hcurrent.symm.trans hactive) (hsettled.ne_current hopens.unused)

/-- An apply that succeeds and changes something is remembered. -/
theorem ApplyOutcome.Holds.remembers {input : InstanceSpec} {outcome : ApplyOutcome}
    (h : outcome.Holds options input b w) (hsettled : Settled options.site w)
    (hrolledBack : outcome.isRolledBack = false) (hnoop : outcome.isNoop = false) :
    Remembers input w := by
  have hdone : ∀ {active}, Fulfilled options input b active w → Remembers input w :=
    fun hdone => hdone.sourceSpec ▸ hdone.toInstalled.remembers hsettled
  have hnext : ∀ {revision}, NextGeneration options input b revision w → Remembers input w := by
    rintro _ ⟨_, _, -, hfulfilled, -⟩
    exact hdone hfulfilled
  induction outcome with
  | noop revision => cases hnoop
  | patched revision => exact hnext h
  | reloaded revision => exact hnext h
  | restarted revision => exact hnext h
  | switched revision =>
    obtain ⟨active, hfulfilled, -⟩ := h
    exact hdone hfulfilled
  | rolledBack revision failedApply => cases hrolledBack
  | durabilityUncertain outcome warning ih => exact ih h hrolledBack hnoop

/-- A no-op leaves what was remembered. -/
theorem ApplyOutcome.Holds.remembers_noop {input spec : InstanceSpec} {outcome : ApplyOutcome}
    (h : outcome.Holds options input b w) (hnoop : outcome.isNoop = true) :
    Remembers spec w ↔ Remembers spec b := by
  have huntouched : Untouched b w := by
    have hinner := h.inner
    unfold ApplyOutcome.isNoop at hnoop
    split at hnoop
    · rename_i revision hrevision
      rw [hrevision] at hinner
      exact hinner.1
    · cases hnoop
  constructor
  · rintro ⟨hlast, hsource, hpublished⟩
    exact ⟨huntouched.ctrl ▸ hlast, huntouched.ctrl ▸ hsource, huntouched.publications ▸ hpublished⟩
  · rintro ⟨hlast, hsource, hpublished⟩
    exact ⟨huntouched.ctrl ▸ hlast, huntouched.ctrl ▸ hsource, huntouched.publications ▸ hpublished⟩

theorem ApplyOutcome.isRolledBack_of_isNoop {outcome : ApplyOutcome}
    (h : outcome.isNoop = true) : outcome.isRolledBack = false := by
  unfold ApplyOutcome.isNoop at h
  unfold ApplyOutcome.isRolledBack
  split at h
  · rename_i revision hrevision
    rw [hrevision]
  · cases h

/-- What an apply that is answered as a no-op is given is remembered already. -/
def NoopRemembered (request : Request) (b : World) (result : Except Error Outcome) : Prop :=
  ∀ input expected outcome, request = .apply input expected → result = .ok (.applied outcome) →
    outcome.isNoop = true → Remembers input b

/-- A launch of the spec that a request is given follows it. -/
theorem SwitchResult.followed {request : Request} {spec : InstanceSpec}
    (h : SwitchResult spec b.nextEpoch b w result) (hbefore : Settled options.site b)
    (hafter : Settled options.site w) (hinput : request.input = some spec) :
    Followed request b result w where
  given := fun given hgiven hok => by
    obtain rfl := Option.some.inj (hinput.symm.trans hgiven)
    exact h.remembers hafter hok
  restarted := by
    rintro rfl
    cases hinput
  stopped := by
    rintro rfl
    cases hinput
  kept := h.kept_lastSpec hbefore

theorem ApplyContract.followed {input : InstanceSpec} {expected : Option RevisionId}
    {applied : Except Error ApplyOutcome} (h : ApplyContract options input b applied w)
    (hafter : Settled options.site w)
    (hnoop : NoopRemembered (.apply input expected) b (applied.map .applied)) :
    Followed (.apply input expected) b (applied.map .applied) w := by
  refine ⟨fun given hgiven hok => ?_, nofun, nofun, fun hfailed hcurrent => ?_⟩
  · obtain rfl : input = given := Option.some.inj hgiven
    cases applied with
    | error error => cases hok
    | ok outcome =>
      have hrolledBack : outcome.isRolledBack = false := by
        simpa [Except.map, succeeded] using hok
      cases hkind : outcome.isNoop with
      | true =>
        refine (ApplyOutcome.Holds.remembers_noop h hkind).mpr ?_
        exact hnoop input expected outcome rfl rfl hkind
      | false => exact ApplyOutcome.Holds.remembers h hafter hrolledBack hkind
  · cases applied with
    | ok outcome => cases hfailed
    | error error =>
      rcases h with huntouched | hended
      · rw [huntouched.ctrl]
      · exact congrArg Ledger.lastSpec hended.ledger

/-- The contract of a request follows it, unless a no-op forgets its spec. -/
theorem Request.Contract.followed {request : Request}
    (h : request.Contract options b result w) (hbefore : Settled options.site b)
    (hafter : Settled options.site w) (hnoop : NoopRemembered request b result) :
    Followed request b result w := by
  have hledger : ∀ {r : Request}, r.input = none → r ≠ .restart → w.ledger = b.ledger →
      Followed r b result w := fun hinput hrestart hledger =>
    ⟨fun _ hgiven => by simp [hinput] at hgiven, fun h => absurd h hrestart,
      fun _ => congrArg Ledger.lastSpec hledger, fun _ _ => congrArg Ledger.lastSpec hledger⟩
  cases request with
  | start spec => exact SwitchResult.followed h hbefore hafter rfl
  | switch spec => exact SwitchResult.followed h hbefore hafter rfl
  | restart =>
    have hnotGiven : ∀ spec, Request.restart.input = some spec → succeeded result = true →
        Remembers spec w := fun _ hgiven => by cases hgiven
    rcases h with ⟨-, hctrl, -, error, rfl⟩ | ⟨spec, hlast, h⟩
    · exact ⟨hnotGiven, fun _ hok => (nomatch hok), nofun, fun _ _ => by rw [hctrl]⟩
    · exact ⟨hnotGiven, fun _ hok => ⟨spec, hlast, h.remembers hafter hok⟩, nofun,
        h.kept_lastSpec hbefore⟩
  | apply input expected =>
    obtain ⟨applied, rfl, hcontract, -⟩ := h
    exact hcontract.followed hafter hnoop
  | stop => exact hledger rfl nofun h.ledger
  | shutdown => exact hledger rfl nofun h.ledger
  | recover => exact hledger rfl nofun h.2

/-- The remembered spec follows a request if and only if an apply that is answered as a no-op
was given the spec that is remembered already. -/
theorem remembered_iff (h : Run options c) (hreply : reply ∈ c.replies) :
    Followed reply.request reply.before reply.result reply.after ↔
      NoopRemembered reply.request reply.before reply.result := by
  obtain ⟨hbefore, hafter, hcontract⟩ := h.sound.replied reply hreply
  refine ⟨fun hfollowed => ?_, hcontract.followed hbefore hafter⟩
  intro input expected outcome hrequest hresult hnoop
  have hdone := hfollowed.given input (by rw [hrequest]; rfl) (by
    simp [hresult, succeeded, ApplyOutcome.isRolledBack_of_isNoop hnoop])
  rw [hrequest, hresult] at hcontract
  obtain ⟨applied, happlied, hcontract, -⟩ := hcontract
  cases applied with
  | error error => cases happlied
  | ok inner =>
    obtain rfl : outcome = inner := by simpa [Except.map] using happlied
    exact (ApplyOutcome.Holds.remembers_noop hcontract hnoop).mp hdone

/-- The same config under another path. -/
def movedSpec : InstanceSpec := { mihomoSpec with configPath := .external "moved.yaml" }

/-- An apply that patches the core from another path. -/
theorem remembered_patch : ∃ c reply, Run httpOptions c ∧ reply ∈ c.replies ∧
    reply.request.applies movedSpec = true ∧ reply.result.toBool = true ∧
    Followed reply.request reply.before reply.result reply.after := by
  obtain ⟨c, reply, hrun, hreply, hp⟩ := exists_reply
    [(.start mihomoSpec, smooth "rule"), (.apply movedSpec none, smooth "direct")]
    (p := fun reply => reply.request.applies movedSpec && (reply.result.toBool &&
      (applied? reply.result).any fun outcome => !outcome.isNoop)) (by decide +kernel)
  simp only [Bool.and_eq_true] at hp
  refine ⟨c, reply, hrun, hreply, hp.1, hp.2.1, (remembered_iff hrun hreply).mpr ?_⟩
  intro input expected outcome _ hresult hnoop
  simp [hresult, applied?, hnoop] at hp

/-- An apply of the same document from another path is answered as a no-op and forgotten. -/
theorem noop_forgets : ∃ c reply, Run httpOptions c ∧ reply ∈ c.replies ∧
    ¬ Followed reply.request reply.before reply.result reply.after := by
  obtain ⟨c, reply, hrun, hreply, hp⟩ := exists_reply
    [(.start mihomoSpec, smooth "rule"), (.apply movedSpec none, smooth "rule")]
    (p := fun reply => reply.request.applies movedSpec && (succeeded reply.result &&
      reply.after.ctrl.lastSpec = some mihomoSpec)) (by decide +kernel)
  simp only [Bool.and_eq_true, decide_eq_true_eq] at hp
  refine ⟨c, reply, hrun, hreply, fun hfollowed => ?_⟩
  obtain ⟨expected, hrequest⟩ := Request.eq_of_applies hp.1
  have hlast := (hfollowed.given movedSpec (by rw [hrequest]; rfl) hp.2.1).lastSpec
  rw [hp.2.2] at hlast
  exact absurd hlast (by decide)

end Memory

section Noops

variable {input : InstanceSpec} {old : Active}

/-- The result is no no-op. -/
def Acts (result : Except Error ApplyOutcome) : Prop :=
  ∀ outcome, result = .ok outcome → outcome.isNoop = false

theorem acts_error (error : Error) : Acts (.error error) := nofun

theorem Acts.withDurabilityResult {result : Except Error ApplyOutcome} (h : Acts result)
    (warning : Option String) : Acts (withDurabilityResult result warning) := by
  cases result with
  | error error => cases warning <;> exact acts_error _
  | ok outcome =>
    rcases warning with _ | warning <;> rintro _ ⟨⟩
    · exact h outcome rfl
    · exact h outcome rfl

theorem returns_failTerminally {α : Type} {P : Except Error α → Prop} {error : Error}
    (h : ∀ error, P (.error error)) : (failTerminally error).Returns P :=
  Program.returns_then fun _ => h error

theorem returns_latchUnconfirmed {α : Type} {P : Except Error α → Prop} {epoch : ℕ}
    {error : Error} {fallback : Action (Except Error α)} (h : ∀ error, P (.error error))
    (hfallback : fallback.Returns P) : (latchUnconfirmed epoch error fallback).Returns P := by
  unfold latchUnconfirmed
  split
  · exact Program.returns_then fun error => h error
  · exact hfallback

/-- A rollback is no no-op. -/
theorem rollBack_acts {applyText context : String} {finish : Action Unit} :
    (rollBack options old applyText context finish).Returns Acts := by
  refine Program.returns_then fun _ => Program.returns_then fun result => ?_
  cases result with
  | ok handle =>
    refine Program.returns_then fun _ => Program.returns_then fun _ => ?_
    rintro _ ⟨⟩
    rfl
  | error error =>
    dsimp only
    split
    · exact Program.returns_then fun error => acts_error error
    · exact returns_failTerminally acts_error

theorem restartWithCompensation_acts {desired : PreparedLaunch} {saved : RuntimeConfigBackup} :
    (restartWithCompensation options desired saved).Returns Acts := by
  refine Program.returns_then fun taken => ?_
  cases taken with
  | none => exact acts_error _
  | some old =>
    refine Program.returns_then fun _ => Program.returns_then fun stopped => ?_
    cases stopped with
    | error error => exact returns_latchUnconfirmed acts_error (returns_failTerminally acts_error)
    | ok value =>
      refine Program.returns_then fun _ => Program.returns_then fun result => ?_
      cases result with
      | ok handle =>
        refine Program.returns_then fun _ => Program.returns_then fun _ => ?_
        rintro _ ⟨⟩
        rfl
      | error error =>
        dsimp only
        split
        · exact Program.returns_then fun error => acts_error error
        · refine Program.returns_then fun restored => ?_
          cases restored with
          | error error => exact returns_failTerminally acts_error
          | ok commit =>
            exact Program.returns_bind rollBack_acts fun result h => h.withDurabilityResult _

theorem switchWithCompensation_acts {snapshot : ConfigSnapshot} :
    (switchWithCompensation options input snapshot).Returns Acts := by
  refine Program.returns_then fun epoch => ?_
  refine Program.returns_andThen (Program.returns_of_forall (fun _ => trivial) _)
    (fun desired (_ : True) => ?_) acts_error
  refine Program.returns_then fun taken => ?_
  cases taken with
  | none => exact acts_error _
  | some old =>
    refine Program.returns_then fun _ => Program.returns_then fun stopped => ?_
    cases stopped with
    | error error =>
      exact Program.returns_then fun _ =>
        returns_latchUnconfirmed acts_error (returns_failTerminally acts_error)
    | ok value =>
      refine Program.returns_then fun _ => Program.returns_then fun result => ?_
      cases result with
      | ok handle =>
        refine Program.returns_then fun _ => Program.returns_then fun _ => ?_
        rintro _ ⟨⟩
        rfl
      | error error =>
        dsimp only
        split
        · exact Program.returns_then fun error => acts_error error
        · exact Program.returns_then fun _ => rollBack_acts

theorem applyInPlace_acts {prepared : PreparedApply} {change : ConfigChange} :
    (applyInPlace options old prepared change).Returns Acts := by
  refine Program.returns_andThen (Program.returns_of_forall (fun _ => trivial) _)
    (fun saved (_ : True) => ?_) acts_error
  refine Program.returns_then fun committed => ?_
  cases committed with
  | error error => exact Program.returns_then fun _ => acts_error _
  | ok commit =>
    refine Program.returns_then fun reconciled => ?_
    cases reconciled with
    | false =>
      exact Program.returns_bind restartWithCompensation_acts fun _ h => h.withDurabilityResult _
    | true =>
      refine Program.returns_then fun ctrl => ?_
      cases hcurrent : ctrl.current with
      | none => exact acts_error _
      | some active =>
        refine Program.returns_then fun _ => Program.returns_then fun _ =>
          Program.returns_then fun _ => Program.returns_then fun _ =>
          Program.returns_then fun _ => Acts.withDurabilityResult ?_ _
        cases change <;> rintro _ ⟨⟩ <;> rfl

/-- The launch of a prepared apply is one of the input. -/
theorem prepareApply_sourceSpec {snapshot : ConfigSnapshot} :
    (prepareApply options old input snapshot).Returns fun result =>
      ∀ prepared, result = .ok prepared → prepared.desired.sourceSpec = input := by
  have hany : ∀ {α : Type} (p : Action (Except Error α)), p.Returns fun _ => True :=
    fun p => Program.returns_of_forall (fun _ => trivial) p
  refine Program.returns_andThen (hany _) (fun _ _ => ?_) fun _ _ h => nomatch h
  refine Program.returns_andThen (hany _) (fun _ _ => ?_) fun _ _ h => nomatch h
  refine Program.returns_andThen (hany _) (fun _ _ => ?_) fun _ _ h => nomatch h
  refine Program.returns_andThen (hany _) (fun _ _ => ?_) fun _ _ h => nomatch h
  refine Program.returns_andThen (hany _) (fun _ _ => ?_) fun _ _ h => nomatch h
  rintro _ ⟨⟩
  rfl

/-- A change is found to be none only between specs of the same process. -/
theorem processSpecChanged_of_classify {ip : IpText} {debugOptions : InstanceOptions → String}
    {source effective source' effective' : Mapping} {spec spec' : InstanceSpec}
    (h : classify ip debugOptions source effective spec source' effective' spec' = .ok .noop) :
    processSpecChanged debugOptions spec spec' = false := by
  by_contra hchanged
  simp [classify, Bool.eq_true_of_not_eq_false hchanged] at h

theorem applyChange_noop {snapshot : ConfigSnapshot} {prepared : PreparedApply}
    (hsource : prepared.desired.sourceSpec = input) :
    (applyChange options old input snapshot prepared).Returns fun result =>
      ∀ outcome, result = .ok outcome → outcome.isNoop = true →
        processSpecChanged options.debugOptions old.sourceSpec input = false := by
  have hacts : ∀ result, Acts result → ∀ outcome, result = .ok outcome → outcome.isNoop = true →
      processSpecChanged options.debugOptions old.sourceSpec input = false :=
    fun _ h outcome hok hnoop => by simp [h outcome hok] at hnoop
  simp only [applyChange]
  split
  · refine Program.returns_then fun _ => ?_
    rintro _ ⟨⟩
  · rename_i hnoop
    refine Program.returns_then fun _ => fun _ _ _ => ?_
    rw [← hsource]
    exact processSpecChanged_of_classify hnoop
  · exact Program.returns_then fun _ => switchWithCompensation_acts.mono hacts
  · exact applyInPlace_acts.mono hacts

/-- An apply is answered as a no-op only for a spec of the same process. -/
theorem applyConfig_noop {expected : Option RevisionId} :
    machine.wp (fun _ => True) (applyConfig options input expected) (fun result _ =>
      ∀ outcome, result = .ok outcome → outcome.isNoop = true → ∃ active,
        w.ctrl.current = some active ∧
          processSpecChanged options.debugOptions active.sourceSpec input = false) w := by
  refine wp_seq getCtrl_spec ?_
  rintro _ _ ⟨rfl, rfl⟩
  refine wp_of_returns ?_
  cases rejectQuarantine w.ctrl with
  | error error => exact fun _ hok => nomatch hok
  | ok value =>
  cases hcurrent : w.ctrl.current with
  | none => exact fun _ hok => nomatch hok
  | some old =>
  refine Program.returns_then fun status => ?_
  split
  · exact fun _ hok => nomatch hok
  split
  · exact fun _ hok => nomatch hok
  refine Program.returns_andThen (Program.returns_of_forall (fun _ => trivial) _)
    (fun snapshot (_ : True) => ?_) fun _ _ hok => nomatch hok
  refine Program.returns_andThen prepareApply_sourceSpec (fun prepared hsource => ?_)
    fun _ _ hok => nomatch hok
  exact (applyChange_noop (hsource prepared rfl)).mono fun _ h outcome hok hnoop =>
    ⟨old, rfl, h outcome hok hnoop⟩

end Noops

end Nyanpasu.Manager
