import Nyanpasu.Api.Client
import Nyanpasu.Lib.Moves

/-!
# Attempts at one operation

`execute` makes attempts at an operation until one succeeds, one fails in a way that the
injected policy does not repeat, or the policy has no delay left. What the exponential policy
repeats depends on what an operation says of itself: the typed operations say that it is safe to
read again, and to delete a single named thing again.
-/

namespace Nyanpasu.Api

open Moves

/-- `RequestMetadata`. -/
structure RequestMetadata where
  operation : String
  method : Method
  retrySafe : Bool
  deriving DecidableEq, Repr

/-- What a `reqwest::Error` says of itself. -/
structure Transport where
  isConnect : Bool
  isTimeout : Bool
  isRequest : Bool
  deriving DecidableEq, Repr

/-- The errors of an attempt. A status is known by its number. -/
inductive AttemptError where
  | request (source : Transport)
  | httpStatus (status : ℕ)
  /-- `reqwest_websocket::Error::Reqwest`. -/
  | upgrade (source : Transport)
  /-- `HandshakeError::UnexpectedStatusCode`. -/
  | handshake (status : ℕ)
  /-- Any other error of a handshake. -/
  | webSocket
  /-- The request could not be made. -/
  | unmade
  deriving DecidableEq, Repr

/-- `is_connect`, `is_timeout` or `is_request`. -/
def Transport.isTransient (source : Transport) : Bool :=
  source.isConnect || source.isTimeout || source.isRequest

/-- `BAD_GATEWAY`, `SERVICE_UNAVAILABLE` or `GATEWAY_TIMEOUT`. -/
def isTransientStatus (status : ℕ) : Bool := [502, 503, 504].contains status

/-- `is_transient`. -/
def isTransient : AttemptError → Bool
  | .request source => source.isTransient
  | .httpStatus status => isTransientStatus status
  | .upgrade source => source.isTransient
  | .handshake status => isTransientStatus status
  | .webSocket => false
  | .unmade => false

/-- `RetryPolicy`. The delays are what `next` gives each time, in nanoseconds. -/
structure RetryPolicy where
  delays : RequestMetadata → ℕ → Option ℕ
  isRetryable : RequestMetadata → AttemptError → Bool

/-- `NoRetry`. -/
def noRetry : RetryPolicy where
  delays := fun _ _ => none
  isRetryable := fun _ _ => false

/-- `ExponentialRetry`. -/
structure ExponentialRetry where
  maxRetries : ℕ
  minDelay : ℕ
  maxDelay : ℕ
  jitter : Bool
  deriving DecidableEq, Repr

/-- The delays that the backoff library builds for a policy: as many as it has retries. -/
structure Backoff where
  build : ExponentialRetry → List ℕ
  length_build : ∀ policy, (build policy).length = policy.maxRetries

/-- The policy of an `ExponentialRetry`. -/
def ExponentialRetry.policy (backoff : Backoff) (retry : ExponentialRetry) : RetryPolicy where
  delays := fun _ n => (backoff.build retry)[n]?
  isRetryable := fun request error => request.retrySafe && isTransient error

@[simp] theorem ExponentialRetry.policy_delays (backoff : Backoff) (retry : ExponentialRetry)
    (request : RequestMetadata) (n : ℕ) :
    (retry.policy backoff).delays request n = (backoff.build retry)[n]? := rfl

@[simp] theorem ExponentialRetry.policy_isRetryable (backoff : Backoff) (retry : ExponentialRetry)
    (request : RequestMetadata) (error : AttemptError) :
    (retry.policy backoff).isRetryable request error =
      (request.retrySafe && isTransient error) := rfl

section Execute

variable {α : Type}

/-- `execute` before an attempt, or when it has returned: the outcomes of the attempts made so
far, the oldest first, and how long it has slept between them. -/
structure Execution (α : Type) where
  outcomes : List (Except AttemptError α)
  slept : List ℕ
  returned : Option (Except AttemptError α)

/-- One attempt with its outcome, and what `execute` does after it. -/
def Execution.step (policy : RetryPolicy) (request : RequestMetadata) (e : Execution α)
    (outcome : Except AttemptError α) : Option (Execution α) :=
  match e.returned with
  | some _ => none
  | none =>
    let made := { e with outcomes := e.outcomes ++ [outcome] }
    match outcome with
    | .ok _ => some { made with returned := some outcome }
    | .error error =>
      if policy.isRetryable request error then
        match policy.delays request e.slept.length with
        | none => some { made with returned := some outcome }
        | some delay => some { made with slept := e.slept ++ [delay] }
      else some { made with returned := some outcome }

/-- The states that `execute` gets into, whatever the outcomes of its attempts. -/
abbrev Executes (policy : RetryPolicy) (request : RequestMetadata) : Execution α → Prop :=
  Reach (Execution.step policy request) (fun _ _ => True) (Eq ⟨[], [], none⟩)

/-- What is known of an execution: each attempt but the last was followed by a sleep, and failed
in a way that the policy repeats. -/
structure Execution.Sound (policy : RetryPolicy) (request : RequestMetadata) (e : Execution α) :
    Prop where
  slept : ∀ n < e.slept.length, policy.delays request n = e.slept[n]?
  repeated : ∀ outcome ∈ e.outcomes.take e.slept.length,
    ∃ error, outcome = .error error ∧ policy.isRetryable request error = true
  running : e.returned = none → e.outcomes.length = e.slept.length
  returned : ∀ result, e.returned = some result →
    e.outcomes.length = e.slept.length + 1 ∧ e.outcomes.getLast? = some result ∧
      ∀ error, result = .error error → policy.isRetryable request error = true →
        policy.delays request e.slept.length = none

variable {policy : RetryPolicy} {request : RequestMetadata} {e e' : Execution α}
  {outcome : Except AttemptError α}

/-- An attempt after which `execute` returns. -/
theorem Execution.Sound.finish (h : e.Sound policy request) (hreturned : e.returned = none)
    (hlast : ∀ error, outcome = .error error → policy.isRetryable request error = true →
      policy.delays request e.slept.length = none) :
    Execution.Sound policy request
      { e with outcomes := e.outcomes ++ [outcome], returned := some outcome } := by
  have hlength := h.running hreturned
  refine ⟨h.slept, ?_, ?_, ?_⟩
  · intro repeated hmem
    rw [List.take_append_of_le_length hlength.ge] at hmem
    exact h.repeated repeated hmem
  · intro hnone
    cases hnone
  · intro result hresult
    obtain rfl := Option.some.inj hresult
    refine ⟨?_, List.getLast?_concat, hlast⟩
    rw [List.length_append, List.length_singleton, hlength]

/-- An attempt after which `execute` sleeps. -/
theorem Execution.Sound.sleep (h : e.Sound policy request) (hreturned : e.returned = none)
    {error : AttemptError} {delay : ℕ} (hretryable : policy.isRetryable request error = true)
    (hdelay : policy.delays request e.slept.length = some delay) :
    Execution.Sound policy request
      { e with outcomes := e.outcomes ++ [.error error], slept := e.slept ++ [delay] } := by
  have hlength := h.running hreturned
  refine ⟨?_, ?_, ?_, ?_⟩
  · intro n hn
    rw [List.length_append, List.length_singleton] at hn
    by_cases hlt : n < e.slept.length
    · rw [List.getElem?_append_left hlt]
      exact h.slept n hlt
    · obtain rfl : n = e.slept.length := by omega
      rw [List.getElem?_concat_length, hdelay]
  · intro repeated hmem
    have hall : (e.outcomes ++ [Except.error error]).length = (e.slept ++ [delay]).length := by
      rw [List.length_append, List.length_append, hlength]
      rfl
    rw [← hall, List.take_length, List.mem_append, List.mem_singleton] at hmem
    rcases hmem with hmem | rfl
    · refine h.repeated repeated ?_
      rw [← hlength, List.take_length]
      exact hmem
    · exact ⟨error, rfl, hretryable⟩
  · intro _
    rw [List.length_append, List.length_append, hlength]
    rfl
  · intro result hresult
    rw [hreturned] at hresult
    cases hresult

theorem Execution.Sound.step (h : e.Sound policy request)
    (hstep : e.step policy request outcome = some e') : e'.Sound policy request := by
  rw [Execution.step] at hstep
  cases hreturned : e.returned with
  | some result =>
    simp only [hreturned] at hstep
    cases hstep
  | none =>
    simp only [hreturned] at hstep
    cases outcome with
    | ok value =>
      obtain rfl := Option.some.inj hstep
      refine h.finish hreturned ?_
      intro error herror
      cases herror
    | error error =>
      simp only at hstep
      split at hstep
      next hretryable =>
        cases hdelay : policy.delays request e.slept.length with
        | none =>
          simp only [hdelay] at hstep
          obtain rfl := Option.some.inj hstep
          exact h.finish hreturned fun _ _ _ => hdelay
        | some delay =>
          simp only [hdelay] at hstep
          obtain rfl := Option.some.inj hstep
          have hsleep := h.sleep hreturned hretryable hdelay
          rw [hreturned] at hsleep
          exact hsleep
      next hretryable =>
        obtain rfl := Option.some.inj hstep
        refine h.finish hreturned ?_
        intro other hother hrepeat
        obtain rfl := Except.error.inj hother
        exact absurd hrepeat hretryable

theorem Executes.sound (h : Executes policy request e) : e.Sound policy request := by
  refine Reach.invariant ?_ (fun e outcome e' he _ hstep => he.step hstep) h
  rintro start rfl
  refine ⟨?_, ?_, fun _ => rfl, ?_⟩
  · intro n hn
    cases hn
  · intro outcome hmem
    cases hmem
  · intro result hresult
    cases hresult

/-- Without retries there is one attempt. -/
theorem noRetry_outcomes (h : Executes noRetry request e) :
    e.outcomes.length ≤ 1 ∧ e.slept = [] := by
  have hsound := h.sound
  have hslept : e.slept = [] := by
    rw [← List.length_eq_zero_iff]
    by_contra hne
    have hsome := hsound.slept 0 (Nat.pos_of_ne_zero hne)
    rw [List.getElem?_eq_getElem (Nat.pos_of_ne_zero hne)] at hsome
    cases hsome
  refine ⟨?_, hslept⟩
  cases hreturned : e.returned with
  | none =>
    have hlength := hsound.running hreturned
    rw [hslept, List.length_nil] at hlength
    omega
  | some result =>
    have hlength := (hsound.returned result hreturned).1
    rw [hslept, List.length_nil] at hlength
    omega

end Execute

/-! ## The typed operations -/

/-- The typed operations of the client. -/
inductive ClientOperation where
  | groups | group | groupDelay | proxies | proxy | proxyDelay | selectProxy
  | clearProxySelection | proxyProviders | proxyProvider | updateProxyProvider
  | healthcheckProxyProvider | providerProxy | providerProxyDelay | rules | patchRules
  | ruleProviders | updateRuleProvider | connections | connectionsWs | closeConnection
  | closeAllConnections | traffic | trafficWs | memory | memoryWs | logs | logsWs
  | structuredLogs | structuredLogsWs | configs | updateConfig | patchConfig | updateGeoDatabases
  | hello | collectGarbage | flushFakeIpCache | flushDnsCache | restart | upgrade | upgradeUi
  | upgradeGeoDatabases | storageGet | storagePut | storageDelete | dnsQuery | version
  deriving DecidableEq, Repr

/-- The metadata that an operation is sent with. -/
def ClientOperation.metadata : ClientOperation → RequestMetadata
  | .groups => ⟨"groups", .get, true⟩
  | .group => ⟨"group", .get, true⟩
  | .groupDelay => ⟨"group_delay", .get, false⟩
  | .proxies => ⟨"proxies", .get, true⟩
  | .proxy => ⟨"proxy", .get, true⟩
  | .proxyDelay => ⟨"proxy_delay", .get, false⟩
  | .selectProxy => ⟨"select_proxy", .put, false⟩
  | .clearProxySelection => ⟨"clear_proxy_selection", .delete, false⟩
  | .proxyProviders => ⟨"proxy_providers", .get, true⟩
  | .proxyProvider => ⟨"proxy_provider", .get, true⟩
  | .updateProxyProvider => ⟨"update_proxy_provider", .put, false⟩
  | .healthcheckProxyProvider => ⟨"healthcheck_proxy_provider", .get, false⟩
  | .providerProxy => ⟨"provider_proxy", .get, true⟩
  | .providerProxyDelay => ⟨"provider_proxy_delay", .get, false⟩
  | .rules => ⟨"rules", .get, true⟩
  | .patchRules => ⟨"patch_rules", .patch, false⟩
  | .ruleProviders => ⟨"rule_providers", .get, true⟩
  | .updateRuleProvider => ⟨"update_rule_provider", .put, false⟩
  | .connections => ⟨"connections", .get, true⟩
  | .connectionsWs => ⟨"connections_ws", .get, true⟩
  | .closeConnection => ⟨"close_connection", .delete, true⟩
  | .closeAllConnections => ⟨"close_all_connections", .delete, false⟩
  | .traffic => ⟨"traffic", .get, true⟩
  | .trafficWs => ⟨"traffic_ws", .get, true⟩
  | .memory => ⟨"memory", .get, true⟩
  | .memoryWs => ⟨"memory_ws", .get, true⟩
  | .logs => ⟨"logs", .get, true⟩
  | .logsWs => ⟨"logs_ws", .get, true⟩
  | .structuredLogs => ⟨"structured_logs", .get, true⟩
  | .structuredLogsWs => ⟨"structured_logs_ws", .get, true⟩
  | .configs => ⟨"configs", .get, true⟩
  | .updateConfig => ⟨"update_config", .put, false⟩
  | .patchConfig => ⟨"patch_config", .patch, false⟩
  | .updateGeoDatabases => ⟨"update_geo_databases", .post, false⟩
  | .hello => ⟨"hello", .get, true⟩
  | .collectGarbage => ⟨"collect_garbage", .put, false⟩
  | .flushFakeIpCache => ⟨"flush_fake_ip_cache", .post, false⟩
  | .flushDnsCache => ⟨"flush_dns_cache", .post, false⟩
  | .restart => ⟨"restart", .post, false⟩
  | .upgrade => ⟨"upgrade", .post, false⟩
  | .upgradeUi => ⟨"upgrade_ui", .post, false⟩
  | .upgradeGeoDatabases => ⟨"upgrade_geo_databases", .post, false⟩
  | .storageGet => ⟨"storage_get", .get, true⟩
  | .storagePut => ⟨"storage_put", .put, false⟩
  | .storageDelete => ⟨"storage_delete", .delete, true⟩
  | .dnsQuery => ⟨"dns_query", .get, true⟩
  | .version => ⟨"version", .get, true⟩

/-- The deletions of one thing that is named. -/
def ClientOperation.deletesOne (operation : ClientOperation) : Bool :=
  [.closeConnection, .storageDelete].contains operation

/-- What says that it may be repeated reads, or deletes one thing that is named. -/
theorem ClientOperation.reads_or_deletesOne {operation : ClientOperation}
    (h : operation.metadata.retrySafe = true) :
    operation.metadata.method = .get ∨ operation.deletesOne = true := by
  revert h
  cases operation <;> decide

/-- How often an operation is attempted under an exponential policy. -/
structure Attempted {α : Type} (retry : ExponentialRetry) (operation : ClientOperation)
    (e : Execution α) : Prop where
  bounded : e.outcomes.length ≤ retry.maxRetries + 1
  /-- What is sent again says that it may be. -/
  repeats : 1 < e.outcomes.length → operation.metadata.retrySafe = true
  /-- What is sent again reads, or deletes one thing that is named. -/
  harmless : 1 < e.outcomes.length →
    operation.metadata.method = .get ∨ operation.deletesOne = true
  /-- It is sent again after transient failures only. -/
  transient : ∀ n, n + 1 < e.outcomes.length →
    ∃ error, e.outcomes[n]? = some (.error error) ∧ isTransient error = true
  /-- What is returned is how the last attempt went. -/
  last : ∀ result, e.returned = some result → e.outcomes.getLast? = some result
  /-- A transient failure of what may be repeated is returned after every retry was made. -/
  exhausted : ∀ error, e.returned = some (.error error) → isTransient error = true →
    operation.metadata.retrySafe = true → e.outcomes.length = retry.maxRetries + 1

variable {α : Type} {backoff : Backoff} {retry : ExponentialRetry} {operation : ClientOperation}
  {e : Execution α}

/-- **Writes are sent once.** Whatever the outcomes of the attempts, an operation is attempted
again after a transient failure only and as often as the policy has retries, and only if it says
that it may be repeated; then it reads, or deletes one thing that is named. -/
theorem operation_attempted (h : Executes (retry.policy backoff) operation.metadata e) :
    Attempted retry operation e := by
  have hsound := h.sound
  have hlength : (backoff.build retry).length = retry.maxRetries := backoff.length_build retry
  have hslept : e.slept.length ≤ retry.maxRetries := by
    by_contra hlt
    have hsome := hsound.slept retry.maxRetries (by omega)
    rw [ExponentialRetry.policy_delays, ← hlength, List.getElem?_eq_none le_rfl] at hsome
    have hlt' : (backoff.build retry).length < e.slept.length := by omega
    rw [List.getElem?_eq_getElem hlt'] at hsome
    cases hsome
  have hoften : e.outcomes.length ≤ e.slept.length + 1 := by
    cases hreturned : e.returned with
    | none => exact (hsound.running hreturned).le.trans (Nat.le_succ _)
    | some result => exact (hsound.returned result hreturned).1.le
  have hrepeated : ∀ n, n < e.slept.length → n < e.outcomes.length →
      ∃ error, e.outcomes[n]? = some (.error error) ∧ operation.metadata.retrySafe = true ∧
        isTransient error = true := by
    intro n hn hmade
    have hmem : e.outcomes[n] ∈ e.outcomes.take e.slept.length :=
      List.mem_take_iff_getElem.mpr ⟨n, by omega, rfl⟩
    obtain ⟨error, herror, hretryable⟩ := hsound.repeated _ hmem
    rw [ExponentialRetry.policy_isRetryable, Bool.and_eq_true] at hretryable
    exact ⟨error, by rw [List.getElem?_eq_getElem hmade, herror], hretryable⟩
  have hsafe : 1 < e.outcomes.length → operation.metadata.retrySafe = true := by
    intro hmany
    obtain ⟨-, -, hsafe, -⟩ := hrepeated 0 (by omega) (by omega)
    exact hsafe
  refine ⟨by omega, hsafe, ?_, ?_, ?_, ?_⟩
  · intro hmany
    exact ClientOperation.reads_or_deletesOne (hsafe hmany)
  · intro n hn
    obtain ⟨error, herror, -, htransient⟩ := hrepeated n (by omega) (by omega)
    exact ⟨error, herror, htransient⟩
  · intro result hresult
    exact (hsound.returned result hresult).2.1
  · intro error herror htransient hsafe
    obtain ⟨hmade, -, hlast⟩ := hsound.returned _ herror
    have hretryable : (retry.policy backoff).isRetryable operation.metadata error = true := by
      rw [ExponentialRetry.policy_isRetryable, hsafe, htransient]
      rfl
    have hnone : (backoff.build retry)[e.slept.length]? = none := hlast error rfl hretryable
    have hle := List.getElem?_eq_none_iff.mp hnone
    omega

/-- Each delay twice the one before it, up to the longest. -/
def doubling : Backoff where
  build := fun retry => (List.range retry.maxRetries).map fun n =>
    min retry.maxDelay (retry.minDelay * 2 ^ n)
  length_build := fun retry => by rw [List.length_map, List.length_range]

/-- `conservative`, without jitter. -/
def conservative : ExponentialRetry := ⟨3, 100000000, 2000000000, false⟩

/-- A connection is closed at the second attempt. -/
theorem operation_attempted_twice : ∃ e : Execution Unit,
    Attempted conservative .closeConnection e ∧ e.slept = [100000000] ∧
      e.returned.isSome = true := by
  obtain ⟨e, hreach, he⟩ := exists_reach
    (Execution.step (conservative.policy doubling) ClientOperation.closeConnection.metadata)
    (fun _ _ => True)
    (p := fun e : Execution Unit => decide (e.slept = [100000000]) && e.returned.isSome)
    (Eq.refl (⟨[], [], none⟩ : Execution Unit)) [.error (.httpStatus 503), .ok ()]
    (by decide +kernel)
  rw [Bool.and_eq_true, decide_eq_true_eq] at he
  exact ⟨e, operation_attempted hreach, he⟩

end Nyanpasu.Api
