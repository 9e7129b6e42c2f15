import Nyanpasu.Manager.Refusals
import Nyanpasu.Service.Shutdown

/-!
# The kinds of failed applies

A failed apply is answered with a kind that a client branches on. The kinds keep their word
when the errors of the files, the cores and the libraries are their own: a kind of the
surroundings says that the manager is as it was, a refusal names the guard that has turned the
request away, and past the point of no return the kind says what has become of the core.
-/

namespace Nyanpasu.Service

open Manager Machine

variable {settings : Settings} {s s' : State} {core : CoreType} {configFile : OsPath}
  {expected : Option RevisionId}

section Kinds

variable {error : Error}

/-- The kinds of the failures that the manager only passes on. -/
def foreignKinds : List (Option String) :=
  [none, some "config_check_failed", some "config_not_found", some "binary_not_found",
    some "invalid_config", some "controller_missing"]

/-- An error of the surroundings has a foreign kind. -/
theorem mapErrorKind_foreign (h : error.isOwn = false) : mapErrorKind error ∈ foreignKinds := by
  cases error <;> first | (simp [mapErrorKind, foreignKinds]; done) | cases h

/-- A final error says which of the two ends it was, however often it is wrapped. -/
theorem mapErrorKind_final (h : error.isFinal = true) :
    mapErrorKind error = some "stop_unconfirmed" ∧ error.isUnconfirmed = true ∨
      mapErrorKind error = some "apply_rollback_failed" := by
  induction error with
  | stopUnconfirmed detail => exact Or.inl ⟨rfl, rfl⟩
  | applyRollbackFailed apply rollback => exact Or.inr rfl
  | durabilityUncertain source warning ih => exact ih h
  | _ => cases h

/-- What the kind of a failed apply says of the service before it and after it. -/
inductive Explains (expected : Option RevisionId) (s s' : State) : Option String → Prop
  /-- The apply has failed before the core was touched. -/
  | foreign (kind : Option String) : kind ∈ foreignKinds → Untouched s.world s'.world →
      Explains expected s s' kind
  /-- The expected revision is not the one that runs. -/
  | conflict (active : Active) (id : RevisionId) : s.world.ctrl.current = some active →
      expected = some id → active.revision.id ≠ id → Alike s.world s'.world →
      Explains expected s s' (some "revision_conflict")
  /-- An epoch was in quarantine already. -/
  | quarantined : s.world.ctrl.quarantine ≠ [] → Alike s.world s'.world →
      Explains expected s s' (some "quarantined")
  /-- There is no core, or it was seen to have ended. -/
  | notStarted : (∀ active, s.world.ctrl.current = some active →
        (s'.world.processes active.handle.id).terminal = true) → Alike s.world s'.world →
      Explains expected s s' (some "not_started")
  /-- No core is held, and a process may be alive. -/
  | unconfirmed : Ended s.world s'.world → s'.world.ctrl.quarantine ≠ [] →
      Explains expected s s' (some "stop_unconfirmed")
  /-- Neither the new core nor the old one is held. -/
  | rollbackFailed : Ended s.world s'.world → Explains expected s s' (some "apply_rollback_failed")

/-- The kinds that an apply fails with. -/
theorem Explains.kind_mem {kind : Option String} (h : Explains expected s s' kind) :
    kind ∈ foreignKinds ++ [some "revision_conflict", some "quarantined", some "not_started",
      some "stop_unconfirmed", some "apply_rollback_failed"] := by
  cases h with
  | foreign _ hkind _ => exact List.mem_append_left _ hkind
  | conflict | quarantined | notStarted | unconfirmed | rollbackFailed => simp

theorem Alike.untouched {b w : World} (h : Alike b w) : Untouched b w where
  ctrl := h.ctrl
  publications := congrArg History.publications h.history
  ledger := by rw [World.ledger, h.ctrl, h.history, World.ledger]

/-- An error of the manager's `apply_config` is explained by its kind. -/
theorem explains_error {options : Options} {input : InstanceSpec}
    (hcontract : ApplyContract options input s.world (.error error) s'.world)
    (haccounts : Accounts expected s.world (.error error) s'.world) :
    Explains expected s s' (OpError.ofError error).kind := by
  rcases haccounts error rfl with ⟨hrefused, halike⟩ | ⟨hsome, htold⟩
  · cases hrefused with
    | quarantined epoch reason hlatched => exact .quarantined hlatched halike
    | notStarted hterminal => exact .notStarted hterminal halike
    | conflict active id hcurrent hexpected hne =>
      exact .conflict active id hcurrent hexpected hne halike
  rcases htold error rfl with ⟨hfinal, hunconfirmed, hvacant⟩ | ⟨hforeign, hstanding⟩
  · have hended : Ended s.world s'.world := by
      refine hcontract.resolve_left fun huntouched => hsome ?_
      rw [← huntouched.ctrl]
      exact hvacant.current huntouched.ledger
    rcases mapErrorKind_final hfinal with ⟨hkind, halive⟩ | hkind
    · change Explains expected s s' (mapErrorKind error)
      rw [hkind]
      exact .unconfirmed hended (hunconfirmed halive)
    · change Explains expected s s' (mapErrorKind error)
      rw [hkind]
      exact .rollbackFailed hended
  · refine .foreign _ (mapErrorKind_foreign hforeign)
      (hcontract.resolve_right fun hended => hsome ?_)
    have hctrl : s'.world.ctrl = s.world.ctrl := congrArg Prod.fst hstanding
    rw [← hctrl]
    exact hended.current

end Kinds

section Operations

/-- The errors that the manager is answered with are no errors of its own. -/
def Honest (s : State) : (effect : Effect) → Answer effect → Prop
  | .manager effect, answer => Plainspoken s.world effect answer
  | _, _ => True

/-- The manager in honest surroundings does not know the echo. -/
theorem contains_honest : Contains (machine.restrict Honest) (Manager.machine.restrict Plainspoken)
    Effect.manager (fun _ => id) State.world State.requestedCore where
  allowed := fun _ _ _ h => h
  step := fun _ _ _ => rfl
  rest := fun _ _ _ => rfl
  awaits := fun _ => rfl

/-- A failure of an apply is explained, and the echo stays. -/
def Explained (expected : Option RevisionId) (s : State) (result : Except OpError CoreApplyData)
    (s' : State) : Prop :=
  ∀ error, result = .error error →
    Explains expected s s' error.kind ∧ s'.requestedCore = s.requestedCore

/-- A failure of the service itself comes before the manager is asked. -/
theorem explained_looked {error : OpError} (hs : Looked s s') (hkind : error.kind ∈ foreignKinds) :
    Explained expected s (.error error) s' := by
  rintro _ ⟨⟩
  refine ⟨.foreign _ hkind ?_, hs.requestedCore⟩
  rw [hs.world]
  exact ⟨rfl, rfl, rfl⟩

theorem canonicalConfigPath_kind : (canonicalConfigPath configFile).Returns fun result =>
    ∀ error, result = .error error → error.kind ∈ foreignKinds := by
  refine Program.returns_then fun canonical => ?_
  cases canonical with
  | error error =>
    simp only
    split <;> rintro _ ⟨⟩ <;> simp [OpError.withKind, OpError.plain, foreignKinds]
  | ok canonical =>
    simp only
    split
    · rintro _ ⟨⟩
      simp [OpError.plain, foreignKinds]
    · rintro _ ⟨⟩

theorem instanceSpec_kind {configPath : String} :
    (instanceSpec settings core configPath).Returns fun result =>
      ∀ error, result = .error error → error.kind ∈ foreignKinds := by
  unfold instanceSpec
  split
  · rintro _ ⟨⟩
    simp [OpError.plain, foreignKinds]
  refine Program.returns_then fun present => ?_
  split
  · rintro _ ⟨⟩
    simp [OpError.withKind, foreignKinds]
  split
  · rintro _ ⟨⟩
    simp [OpError.plain, foreignKinds]
  · rintro _ ⟨⟩
    simp [OpError.plain, foreignKinds]
  · rintro _ ⟨⟩

/-- The kind of a failed apply keeps its word. -/
theorem apply_explained (hsite : SitePlainspoken settings.manager.site)
    (h : Settled settings.manager.site s.world) :
    (machine.restrict Honest).wp (fun _ => True) (apply settings core configFile expected)
      (Explained expected s) s := by
  refine wp_seq (wp_restrict (look_spec fun _ => rfl)) ?_
  rintro closing _ rfl
  cases closing with
  | true => exact explained_looked (.refl s) (by simp [OpError.plain, foreignKinds])
  | false =>
  refine wp_andThen (wp_restrict (wp_and canonicalConfigPath_spec
    (wp_of_returns canonicalConfigPath_kind))) ?_ ?_
  · rintro configPath _ ⟨rfl, -⟩
    refine wp_andThen
      (wp_restrict (wp_and instanceSpec_spec (wp_of_returns instanceSpec_kind))) ?_ ?_
    · rintro spec s₁ ⟨⟨hs₁, -⟩, -⟩
      have hcontract : Manager.machine.wp (Manager.Cut settings.manager.site)
          (applyConfig settings.manager spec expected) _ s₁.world :=
            applyConfig_spec (hs₁.world ▸ h)
      have hspec := wp_and (wp_restrict hcontract) (applyConfig_accounts hsite)
      refine wp_seq (wp_mono (wp_lift contains_honest hspec) (fun _ _ => trivial)
        fun _ _ hdone => hdone) ?_
      rintro result s₂ ⟨⟨⟨-, hcontract, -⟩, haccounts⟩, hcore⟩
      cases result with
      | error error =>
        rintro _ ⟨⟩
        rw [hs₁.world] at hcontract haccounts
        exact ⟨explains_error hcontract haccounts, hcore.trans hs₁.requestedCore⟩
      | ok outcome =>
        obtain ⟨data, hdata, -⟩ := exists_mapApplyOutcome outcome
        dsimp only
        rw [hdata]
        refine wp_seq (wp_any _ _) fun _ _ _ => ?_
        rintro _ ⟨⟩
    · rintro error s₁ ⟨⟨hs₁, -⟩, hkind⟩
      exact explained_looked hs₁ (hkind error rfl)
  · rintro error _ ⟨rfl, hkind⟩
    exact explained_looked (.refl s) (hkind error rfl)

/-- The plant of the service in honest surroundings, where a request may be dropped while it hides
nothing. -/
def honest (settings : Settings) : Serial.Plant Effect Answer State Request Response :=
  { droppable settings with machine := machine.restrict Honest }

/-- A failed apply is explained; nothing is said of the other requests. -/
def Request.Explained (request : Request) (s : State) (response : Response) (s' : State) : Prop :=
  ∀ core configFile expected error, request = .apply core configFile expected →
    response = .applied (.error error) →
    Explains expected s s' error.kind ∧ s'.requestedCore = s.requestedCore

/-- Every request keeps the order of the service, and a failed apply is explained. -/
theorem request_explained (hsite : SitePlainspoken settings.manager.site) (request : Request)
    (h : Orderly settings s) :
    (machine.restrict Honest).wp (Droppable settings) (request.program settings)
      (fun response s' => Orderly settings s' ∧ request.Explained s response s') s := by
  have horderly : (machine.restrict Honest).wp (Droppable settings) (request.program settings)
      (request.Final settings s) s := wp_restrict (request_final request h)
  cases request with
  | apply core configFile expected =>
    have hexplained : (machine.restrict Honest).wp (fun _ => True)
        ((Request.apply core configFile expected).program settings)
        ((Request.apply core configFile expected).Explained s) s := by
      refine wp_seq (apply_explained hsite h.settled) fun result s' hresult => ?_
      rintro _ _ _ error ⟨⟩ ⟨⟩
      exact hresult error rfl
    exact wp_imp (wp_and horderly hexplained) fun _ _ hdone => ⟨hdone.1.2.2, hdone.2⟩
  | start core configPath | stop | restart | recover | shutdown =>
    refine wp_imp horderly fun _ _ hdone => ⟨hdone.2.2, ?_⟩
    rintro _ _ _ _ ⟨⟩

end Operations

section Runs

variable {c : Serial.Config Effect Answer State Request Response}

/-- **The kinds of failed applies keep their word**, in every run whose drops hide nothing. -/
theorem kinds_keep_word (hsite : SitePlainspoken settings.manager.site)
    (h : Serial.Reach (honest settings) (Built settings) c)
    {reply : Serial.Reply State Request Response} (hreply : reply ∈ c.replies) {error : OpError}
    (hrequest : reply.request = .apply core configFile expected)
    (hresult : reply.result = .applied (.error error)) :
    Explains expected reply.before reply.after error.kind ∧
      reply.after.requestedCore = reply.before.requestedCore ∧
      error.kind ≠ some "apply_failed" ∧ error.kind ≠ some "already_running" := by
  have hsound : Serial.Sound (honest settings) (Orderly settings) Request.Explained c := by
    refine Serial.Reach.sound (fun _ hbuilt => hbuilt.orderly) (fun request s hs => ?_)
      (fun d => d.elim) h
    refine wp_mono (request_explained hsite request hs) (fun s' hcut hcuts removed => ?_)
      fun _ _ => id
    obtain ⟨hopen, hcovered⟩ := hcuts
    refine ⟨(hcut hcovered).drop hcovered, fun hset => ?_⟩
    have hset' : s'.closing = true := hset
    rw [hopen] at hset'
    cases hset'
  obtain ⟨-, -, hexplained⟩ := hsound.replied reply hreply
  obtain ⟨hexplains, hcore⟩ := hexplained core configFile expected error hrequest hresult
  have hkind := hexplains.kind_mem
  refine ⟨hexplains, hcore, fun heq => ?_, fun heq => ?_⟩ <;>
    simp [heq, foreignKinds] at hkind

theorem sitePlainspoken_httpSite : SitePlainspoken Config.httpSite where
  http := fun _ => foreign_ok
  serialize := fun document error herror => by
    simp only [Config.httpSite] at herror
    split at herror
    · cases herror
    · obtain rfl := Except.error.inj herror
      rfl

instance {α : Type} (result : Except Error α) : Decidable (Foreign result) :=
  Except.casesOn result
    (fun error => decidable_of_iff (error.isOwn = false)
      ⟨fun h _ heq => Except.error.inj heq ▸ h, fun h => h error rfl⟩)
    fun _ => isTrue foreign_ok

instance (result : Except (Error × List UInt8) Unit) :
    Decidable (∀ error left, result = .error (error, left) → error.isOwn = false) :=
  Except.casesOn result
    (fun failure => decidable_of_iff (failure.1.isOwn = false) (by simp +contextual [Prod.ext_iff]))
    fun _ => isTrue (by rintro _ _ ⟨⟩)

instance (w : World) (effect : Manager.Effect) (answer : Manager.Answer effect) :
    Decidable (Plainspoken w effect answer) := by
  revert answer
  apply @Manager.Effect.casesOn (fun effect => ∀ answer, Decidable (Plainspoken w effect answer))
    effect <;> intros <;> dsimp only [Plainspoken] <;> infer_instance

instance (s : State) (effect : Effect) (answer : Answer effect) :
    Decidable (Honest s effect answer) := by
  revert answer
  apply @Effect.casesOn (fun effect => ∀ answer, Decidable (Honest s effect answer)) effect <;>
    intros <;> dsimp only [Honest] <;> infer_instance

instance (s : State) (effect : Effect) (answer : Answer effect) :
    Decidable ((honest settings).machine.allowed s effect answer) :=
  inferInstanceAs (Decidable ((droppable settings).machine.allowed s effect answer ∧ _))

instance (s : State) : Decidable ((honest settings).cuts s) :=
  inferInstanceAs (Decidable ((droppable settings).cuts s))

/-- Whether a reply is a failed apply of a kind. -/
def failedAs (kind : String) (reply : Serial.Reply State Request Response) : Bool :=
  match reply.request, reply.result with
  | .apply _ _ _, .applied (.error error) => error.kind = some kind
  | _, _ => false

/-- Neither the new core nor the old one gets ready, and the service says so. -/
theorem kinds_keep_word_rolledBack : ∃ c expected reply error,
    Serial.Reach (honest httpSettings) (Built httpSettings) c ∧ reply ∈ c.replies ∧
      reply.result = .applied (.error error) ∧ error.kind = some "apply_rollback_failed" ∧
      Explains expected reply.before reply.after error.kind := by
  have hplayed : (Serial.play (honest httpSettings)
      [.serve 0 (.start (.clash .mihomo) "config.yaml") 300 (serve "rule" 9),
        .serve 0 (.apply (.clash .mihomoAlpha) ⟨"config.yaml", true⟩ none) 300
          fun s => serve "rule" (s.world.spawned - 1) s]
      ⟨blankState, none, []⟩).any (fun c => c.replies.any fun reply =>
        failedAs "apply_rollback_failed" reply) = true := by
    decide +kernel
  obtain ⟨c, hc, hend⟩ := (Option.any_eq_true _ _).mp hplayed
  have hrun : Serial.Reach (honest httpSettings) (Built httpSettings) c :=
    Serial.Reach.play (.start built_blankState) hc
  obtain ⟨reply, hreply, hfailed⟩ := List.any_eq_true.mp hend
  unfold failedAs at hfailed
  split at hfailed
  · rename_i core configFile expected error hrequest hresult
    have hkind := of_decide_eq_true hfailed
    have hkept := kinds_keep_word sitePlainspoken_httpSite hrun hreply hrequest hresult
    exact ⟨c, expected, reply, error, hrun, hreply, hresult, hkind, hkept.1⟩
  · cases hfailed

end Runs

end Nyanpasu.Service
