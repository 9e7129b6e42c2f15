import Nyanpasu.Instance.Monitor
import Nyanpasu.Lib.Text

/-!
# Health hysteresis

The tracker of a run remembers two counters, the end of its grace period and the last error,
and updates them at every probe result. The reference below keeps nothing: it reads the whole
history of results, newest first, and says from it when the verdict changes.
-/

namespace Nyanpasu.Instance

/-- A probe result, with the instant at which it was observed. -/
structure Sample where
  now : ℕ
  result : ProbeResult
  deriving DecidableEq, Repr

/-- The probe succeeded. -/
def Sample.succeeded (sample : Sample) : Bool := sample.result = .healthy

section Reference

variable (policy : HealthPolicy) (startedAt : ℕ)

/-- The tracker after a history. -/
def tracked (history : List Sample) : HealthTracker :=
  history.foldr (fun sample tracker => tracker.observe sample.now sample.result)
    (.new policy startedAt)

/-- The number of successes at the end of a history. -/
def successStreak (history : List Sample) : ℕ := (history.takeWhile Sample.succeeded).length

/-- A failure counts once the run has had a success, or its start period is over. -/
def counts (history : List Sample) (failure : Sample) : Bool :=
  history.any Sample.succeeded || startedAt + policy.startPeriod ≤ failure.now

/-- The number of failures that count since the last success. -/
def failureStreak (history : List Sample) : ℕ :=
  ((history.takeWhile (!·.succeeded)).filter (counts policy startedAt history)).length

/-- The state that a history leads to: healthy with the last success of a full streak, unhealthy
with the last failure of one. -/
def referenceState : List Sample → TrackerState
  | [] => .starting
  | sample :: earlier =>
    let history := sample :: earlier
    if sample.succeeded then
      if referenceState earlier ≠ .healthy ∧ successStreak history = policy.successThreshold then
        .healthy
      else referenceState earlier
    else if counts policy startedAt earlier sample ∧
        failureStreak policy startedAt history = policy.failureThreshold then
      .unhealthy
    else referenceState earlier

/-- A text is the longest part from the start of another one that fits into some bytes. -/
structure LongestPrefix (limit : ℕ) (text part : String) : Prop where
  isPrefix : part.toList <+: text.toList
  fits : part.utf8ByteSize ≤ limit
  longest : ∀ other : String, other.toList <+: text.toList → other.utf8ByteSize ≤ limit →
    other.toList <+: part.toList

/-- The error that a history leaves. -/
def ReferenceError (history : List Sample) (error : Option String) : Prop :=
  match history.head?.map Sample.result with
  | some (.unhealthy (some detail)) => ∃ part, error = some part ∧ LongestPrefix 512 detail part
  | _ => error = none

end Reference

section Text

theorem takeBytes_eq_clip (limit : ℕ) (text : Text) :
    takeBytes limit text = Text.clip limit text := by
  induction text generalizing limit with
  | nil => rfl
  | cons c text ih => simp only [takeBytes, Text.clip, ih]

theorem utf8ByteSize_ofList (text : Text) : (String.ofList text).utf8ByteSize = text.len := by
  induction text with
  | nil => rfl
  | cons c text ih =>
    rw [String.ofList_cons, String.utf8ByteSize_append, ih, String.utf8ByteSize_singleton,
      Text.len_cons]

theorem utf8ByteSize_eq_len (text : String) : text.utf8ByteSize = Text.len text.toList := by
  rw [← utf8ByteSize_ofList, String.ofList_toList]

/-- `cap_detail` keeps as much of a detail as fits. -/
theorem capDetail_longest (detail : String) : LongestPrefix 512 detail (capDetail detail) := by
  unfold capDetail
  split
  · exact ⟨List.prefix_refl _, by assumption, fun _ h _ => h⟩
  · rw [takeBytes_eq_clip]
    refine ⟨?_, ?_, fun other hstarts hfits => ?_⟩
    · rw [String.toList_ofList]
      exact Text.clip_prefix 512 detail.toList
    · rw [utf8ByteSize_ofList]
      exact Text.len_clip_le 512 detail.toList
    · rw [String.toList_ofList]
      rw [utf8ByteSize_eq_len] at hfits
      exact Text.prefix_clip hstarts hfits

end Text

section Agreement

variable {policy : HealthPolicy} {startedAt : ℕ} {history : List Sample} {sample : Sample}

theorem successStreak_cons : successStreak (sample :: history) =
    if sample.succeeded then successStreak history + 1 else 0 := by
  unfold successStreak
  cases h : sample.succeeded <;> simp [h]

theorem counts_cons (hfailed : sample.succeeded = false) (failure : Sample) :
    counts policy startedAt (sample :: history) failure =
      counts policy startedAt history failure := by
  simp [counts, hfailed]

theorem failureStreak_success (hsucceeded : sample.succeeded = true) :
    failureStreak policy startedAt (sample :: history) = 0 := by
  simp [failureStreak, hsucceeded]

theorem failureStreak_failure (hfailed : sample.succeeded = false) :
    failureStreak policy startedAt (sample :: history) =
      failureStreak policy startedAt history +
        if counts policy startedAt history sample then 1 else 0 := by
  have hcounts : counts policy startedAt (sample :: history) = counts policy startedAt history :=
    funext (counts_cons hfailed)
  unfold failureStreak
  rw [List.takeWhile_cons_of_pos (by simp [hfailed]), List.filter_cons, hcounts]
  split <;> simp

/-- The tracker remembers what the reference reads off the history. -/
structure Agrees (policy : HealthPolicy) (startedAt : ℕ) (history : List Sample)
    (tracker : HealthTracker) : Prop where
  settings : tracker.policy = policy ∧ tracker.startedAt = startedAt
  grace : tracker.graceEnded = history.any Sample.succeeded
  state : tracker.state = referenceState policy startedAt history
  failures : tracker.consecutiveFailures =
    min (failureStreak policy startedAt history) (2 ^ 32 - 1)
  /-- The successes are counted while the state is not healthy, and do not fill a streak. -/
  successes : tracker.state ≠ .healthy → tracker.consecutiveSuccesses = successStreak history ∧
    successStreak history < policy.successThreshold
  /-- The failures that count have not filled a streak while the state is not unhealthy. -/
  pending : tracker.state ≠ .unhealthy →
    failureStreak policy startedAt history < policy.failureThreshold
  error : ReferenceError history tracker.lastError

variable {tracker : HealthTracker}

theorem saturatingSucc_min (count : ℕ) :
    saturatingSucc (min count (2 ^ 32 - 1)) = min (count + 1) (2 ^ 32 - 1) := by
  unfold saturatingSucc
  generalize 2 ^ 32 - 1 = bound
  omega

theorem Agrees.new (hfailures : 0 < policy.failureThreshold)
    (hsuccesses : 0 < policy.successThreshold) :
    Agrees policy startedAt [] (.new policy startedAt) where
  settings := ⟨rfl, rfl⟩
  grace := rfl
  state := rfl
  failures := rfl
  successes := fun _ => ⟨rfl, hsuccesses⟩
  pending := fun _ => hfailures
  error := rfl

/-- A success, which fills the streak or does not. -/
theorem Agrees.succeed (h : Agrees policy startedAt history tracker) {now : ℕ}
    (hfailures : 0 < policy.failureThreshold) (hbound : policy.successThreshold < 2 ^ 32) :
    Agrees policy startedAt (⟨now, .healthy⟩ :: history) tracker.succeed := by
  obtain ⟨⟨rfl, rfl⟩, -, hstate, -, hstreak, -, -⟩ := h
  generalize hsample' : (⟨now, .healthy⟩ : Sample) = sample
  have hsample : sample.succeeded = true := by rw [← hsample']; rfl
  have hzero : failureStreak tracker.policy tracker.startedAt (sample :: history) = 0 :=
    failureStreak_success hsample
  have hgrown : successStreak (sample :: history) = successStreak history + 1 := by
    rw [successStreak_cons, if_pos hsample]
  have hnone : ReferenceError (sample :: history) none := by rw [← hsample']; rfl
  have hreference : referenceState tracker.policy tracker.startedAt (sample :: history) =
      if tracker.state ≠ .healthy ∧ successStreak history + 1 = tracker.policy.successThreshold
      then .healthy else tracker.state := by
    rw [referenceState, if_pos hsample, hgrown, ← hstate]
  unfold HealthTracker.succeed
  by_cases hhealthy : tracker.state = .healthy
  · simp only [hhealthy, if_true]
    refine ⟨⟨rfl, rfl⟩, by simp [hsample], ?_, by simp [hzero], fun hne => absurd rfl hne,
      fun _ => by rw [hzero]; exact hfailures, hnone⟩
    rw [hreference, if_neg (fun hboth => hboth.1 hhealthy), hhealthy]
  · obtain ⟨hcount, hlt⟩ := hstreak hhealthy
    have hsucc : saturatingSucc tracker.consecutiveSuccesses = successStreak history + 1 := by
      rw [saturatingSucc, hcount]
      omega
    simp only [if_neg hhealthy, hsucc]
    split
    · refine ⟨⟨rfl, rfl⟩, by simp [hsample], ?_, by simp [hzero], fun hne => absurd rfl hne,
        fun _ => by rw [hzero]; exact hfailures, hnone⟩
      rw [hreference, if_pos ⟨hhealthy, by omega⟩]
    · refine ⟨⟨rfl, rfl⟩, by simp [hsample], ?_, by simp [hzero], fun _ => ⟨hgrown.symm, ?_⟩,
        fun _ => by rw [hzero]; exact hfailures, hnone⟩
      · rw [hreference, if_neg (fun hboth => by omega)]
      · omega

/-- A failure, which counts or does not. -/
theorem Agrees.fail (h : Agrees policy startedAt history tracker) {now : ℕ}
    {detail : Option String} (hsuccesses : 0 < policy.successThreshold)
    (hbound : policy.failureThreshold < 2 ^ 32) :
    Agrees policy startedAt (⟨now, .unhealthy detail⟩ :: history) (tracker.fail now detail) := by
  obtain ⟨⟨rfl, rfl⟩, hgrace, hstate, hfailures, -, hpending, -⟩ := h
  have herror : ReferenceError (⟨now, .unhealthy detail⟩ :: history) (detail.map capDetail) := by
    cases detail with
    | none => rfl
    | some detail => exact ⟨_, rfl, capDetail_longest detail⟩
  generalize hsample : (⟨now, .unhealthy detail⟩ : Sample) = sample at herror ⊢
  have hfailed : sample.succeeded = false := by rw [← hsample]; rfl
  have hnow : sample.now = now := by rw [← hsample]
  have hbroken : successStreak (sample :: history) = 0 := by
    rw [successStreak_cons, if_neg (by simp [hfailed])]
  have hany : (sample :: history).any Sample.succeeded = history.any Sample.succeeded := by
    simp [hfailed]
  have hcounts : counts tracker.policy tracker.startedAt history sample =
      !(!tracker.graceEnded && decide (now < tracker.startedAt + tracker.policy.startPeriod)) := by
    rw [counts, hgrace, hnow, Bool.not_and, Bool.not_not, ← decide_not]
    simp only [not_lt]
  have hstreak : failureStreak tracker.policy tracker.startedAt (sample :: history) =
      failureStreak tracker.policy tracker.startedAt history +
        if counts tracker.policy tracker.startedAt history sample then 1 else 0 :=
    failureStreak_failure hfailed
  have hreference : referenceState tracker.policy tracker.startedAt (sample :: history) =
      if counts tracker.policy tracker.startedAt history sample ∧
        failureStreak tracker.policy tracker.startedAt (sample :: history) =
          tracker.policy.failureThreshold
      then .unhealthy else tracker.state := by
    rw [referenceState, if_neg (by simp [hfailed]), ← hstate]
  unfold HealthTracker.fail
  by_cases hactive : (!tracker.graceEnded &&
      decide (now < tracker.startedAt + tracker.policy.startPeriod)) = true
  · rw [hcounts, hactive] at hstreak hreference
    simp only [hactive, if_true]
    refine ⟨⟨rfl, rfl⟩, hgrace.trans hany.symm, ?_, ?_, fun _ => ⟨hbroken.symm, ?_⟩, ?_, herror⟩
    · simpa using hreference.symm
    · simpa [hstreak] using hfailures
    · rw [hbroken]
      exact hsuccesses
    · simpa [hstreak] using hpending
  · rw [hcounts, Bool.eq_false_of_not_eq_true hactive] at hstreak hreference
    have hsucc : saturatingSucc tracker.consecutiveFailures =
        min (failureStreak tracker.policy tracker.startedAt (sample :: history)) (2 ^ 32 - 1) := by
      rw [hstreak, hfailures, saturatingSucc_min]
      rfl
    rw [Bool.not_false, if_pos rfl] at hstreak
    simp only [Bool.not_false, true_and] at hreference
    have hbound' : tracker.policy.failureThreshold ≤ 2 ^ 32 - 1 := Nat.le_pred_of_lt hbound
    simp only [if_neg hactive, hsucc, le_min_iff, hbound', and_true]
    split
    · rename_i hfull
      have hlt := hpending hfull.1
      refine ⟨⟨rfl, rfl⟩, hgrace.trans hany.symm, ?_, rfl, fun _ => ⟨hbroken.symm, ?_⟩,
        fun hne => absurd rfl hne, herror⟩
      · rw [hreference, if_pos (by omega)]
      · rw [hbroken]
        exact hsuccesses
    · rename_i hfull
      refine ⟨⟨rfl, rfl⟩, hgrace.trans hany.symm, ?_, rfl, fun _ => ⟨hbroken.symm, ?_⟩,
        fun hne => ?_, herror⟩
      · by_cases hstate' : tracker.state = .unhealthy
        · rw [hreference, hstate', ite_self]
        · rw [hreference, if_neg fun heq => hfull ⟨hstate', heq.ge⟩]
      · rw [hbroken]
        exact hsuccesses
      · by_contra hle
        exact hfull ⟨hne, not_lt.mp hle⟩

theorem tracked_agrees (hfailures : 0 < policy.failureThreshold)
    (hsuccesses : 0 < policy.successThreshold) (hfailuresBound : policy.failureThreshold < 2 ^ 32)
    (hsuccessesBound : policy.successThreshold < 2 ^ 32) (startedAt : ℕ) (history : List Sample) :
    Agrees policy startedAt history (tracked policy startedAt history) := by
  induction history with
  | nil => exact .new hfailures hsuccesses
  | cons sample history ih =>
    obtain ⟨now, result⟩ := sample
    cases result with
    | healthy => exact ih.succeed hfailures hsuccessesBound
    | unhealthy detail => exact ih.fail hsuccesses hfailuresBound

end Agreement

/-- A policy of two failures and two successes, with a start period of ten seconds. -/
def patientPolicy : HealthPolicy := ⟨250000000, 1000000000, 2, 2, 10000000000⟩

/-- A failure in the start period, two successes and two failures. -/
def flapping : List Sample :=
  [⟨5, .unhealthy (some "refused")⟩, ⟨4, .unhealthy none⟩, ⟨3, .healthy⟩, ⟨2, .healthy⟩,
    ⟨1, .unhealthy none⟩]

end Nyanpasu.Instance
