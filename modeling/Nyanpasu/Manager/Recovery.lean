import Nyanpasu.Manager.Listing

/-!
# What one recovery does

One call of `recover_quarantine` attempts every entry of the list it found, whatever becomes
of the others. An attempt reaps the process unless its death is proven already, and cleans
the artifacts once it is; the entry leaves the list when both have succeeded.
-/

namespace Nyanpasu.Manager

open Config Machine Program Serial

/-- The recovery of one entry: the answer of the reaper, if it was asked, and of the cleanup, if
it was tried. -/
structure Attempt where
  entry : QuarantinedEpoch
  reaped : Option (Except Error ReapOutcome)
  cleaned : Option (Except Error Unit)

namespace Attempt

/-- The death is proven, by the reaper or before. -/
def dead (attempt : Attempt) : Bool :=
  attempt.entry.deathProven || match attempt.reaped with
    | some (.ok .alreadyExited) | some (.ok .killed) => true
    | _ => false

/-- What is left in the list. -/
def rest (attempt : Attempt) : Option QuarantinedEpoch :=
  match attempt.dead, attempt.cleaned with
  | true, some (.ok ()) => none
  | dead, _ => some { attempt.entry with deathProven := dead }

/-- The reaper is asked exactly when the death is not proven. -/
def Reaps (attempt : Attempt) (w : World) (made : List Performed) (w' : World) : Prop :=
  if attempt.entry.deathProven then attempt.reaped = none ∧ made = [] ∧ w' = w
  else ∃ outcome, attempt.reaped = some outcome ∧ made = [⟨.reap attempt.entry.epoch, outcome⟩] ∧
    w.allowed (.reap attempt.entry.epoch) outcome ∧
    w' = w.step (.reap attempt.entry.epoch) outcome

/-- The death is written down before the cleanup. -/
def proves (attempt : Attempt) (w : World) : List QuarantinedEpoch :=
  if attempt.entry.deathProven then w.ctrl.quarantine
  else setDeathProven w.ctrl.quarantine attempt.entry.epoch

/-- The cleanup runs exactly when the death is proven, and the entry is released after one that
succeeds. -/
def Cleans (options : Options) (attempt : Attempt) (w : World) (made : List Performed)
    (w' : World) : Prop :=
  if attempt.dead then
    ∃ result cleanup w₁, attempt.cleaned = some result ∧
      machine.Traces (cleanupEpoch options attempt.entry.epoch)
        (w.step (.setQuarantine (attempt.proves w)) ()) cleanup result w₁ ∧
      match result with
      | .ok () =>
          made = ⟨.ctrl, w.ctrl⟩ :: ⟨.setQuarantine (attempt.proves w), ()⟩ ::
            (cleanup ++ [⟨.ctrl, w₁.ctrl⟩,
              ⟨.setQuarantine (releaseEpoch w₁.ctrl.quarantine attempt.entry.epoch), ()⟩]) ∧
          w' = w₁.step (.setQuarantine (releaseEpoch w₁.ctrl.quarantine attempt.entry.epoch)) ()
      | .error _ =>
          made = ⟨.ctrl, w.ctrl⟩ :: ⟨.setQuarantine (attempt.proves w), ()⟩ :: cleanup ∧ w' = w₁
  else attempt.cleaned = none ∧ made = [] ∧ w' = w

/-- The attempt leads from one world to another, and this is what it performs. -/
def Leads (options : Options) (attempt : Attempt) (w : World) (made : List Performed)
    (w' : World) : Prop :=
  ∃ reaping cleaning w₁, made = reaping ++ cleaning ∧ attempt.Reaps w reaping w₁ ∧
    attempt.Cleans options w₁ cleaning w'

end Attempt

/-- The attempts are made one after the other. -/
inductive LeadAll (options : Options) : List Attempt → World → List Performed → World → Prop
  | nil {w} : LeadAll options [] w [] w
  | cons {attempt attempts w made w₁ rest w'} : attempt.Leads options w made w₁ →
      LeadAll options attempts w₁ rest w' →
      LeadAll options (attempt :: attempts) w (made ++ rest) w'

variable {options : Options} {w w' : World} {entry : QuarantinedEpoch} {attempt : Attempt}
  {made : List Performed}

/-- A read of the control state. -/
theorem of_getCtrl {ctrl : Ctrl} (h : machine.Traces getCtrl w made ctrl w') :
    made = [⟨.ctrl, w.ctrl⟩] ∧ ctrl = w.ctrl ∧ w' = w := by
  obtain ⟨rfl, hallowed, hsame⟩ := h.of_perform
  obtain rfl : ctrl = w.ctrl := hallowed
  exact ⟨rfl, rfl, hsame⟩

/-- The proof of death asks the reaper, unless it is there already. -/
theorem reaps_of_proveEpochDead {proof : Option String}
    (h : machine.Traces (proveEpochDead entry) w made proof w') :
    ∃ reaped, Attempt.Reaps ⟨entry, reaped, none⟩ w made w' ∧
      (proof = none ↔ Attempt.dead ⟨entry, reaped, none⟩ = true) := by
  unfold proveEpochDead at h
  split at h
  next hdead =>
    obtain ⟨rfl, rfl, rfl⟩ := h.of_ret
    exact ⟨none, by simp [Attempt.Reaps, hdead], by simp [Attempt.dead, hdead]⟩
  next hdead =>
    obtain ⟨reaping, rest, outcome, t, rfl, hreap, h⟩ := h.of_bind
    obtain ⟨rfl, hallowed, rfl⟩ := hreap.of_perform
    refine ⟨some outcome, ?_⟩
    rw [Attempt.Reaps, if_neg hdead]
    rcases outcome with error | outcome
    · obtain ⟨rfl, rfl, rfl⟩ := h.of_ret
      exact ⟨⟨_, rfl, rfl, hallowed, rfl⟩, by simp [Attempt.dead, hdead]⟩
    · cases outcome <;> obtain ⟨rfl, rfl, rfl⟩ := h.of_ret <;>
        exact ⟨⟨_, rfl, rfl, hallowed, rfl⟩, by simp [Attempt.dead, hdead]⟩

/-- A run of one round is an attempt, which fails unless nothing is left. -/
theorem attempt_of_recoverEntry {failure : Option String}
    (h : machine.Traces (recoverEntry options entry) w made failure w') :
    ∃ attempt : Attempt, attempt.entry = entry ∧ attempt.Leads options w made w' ∧
      (failure = none ↔ attempt.rest = none) := by
  unfold recoverEntry at h
  obtain ⟨reaping, cleaning, proof, w₁, rfl, hproof, h⟩ := h.of_bind
  -- The proof of death decides whether there is a cleanup.
  obtain ⟨reaped, hreaps, hdead⟩ := reaps_of_proveEpochDead hproof
  cases proof with
  | some failure' =>
    obtain ⟨rfl, rfl, rfl⟩ := h.of_ret
    have hnot : Attempt.dead ⟨entry, reaped, none⟩ = false := by simpa using hdead
    refine ⟨⟨entry, reaped, none⟩, rfl, ⟨_, _, _, rfl, hreaps, ?_⟩, by simp [Attempt.rest]⟩
    simp [Attempt.Cleans, hnot]
  | none =>
    have hdead : Attempt.dead ⟨entry, reaped, none⟩ = true := hdead.mp rfl
    obtain ⟨_, _, ctrl, _, rfl, hctrl, h⟩ := h.of_bind
    obtain ⟨rfl, rfl, rfl⟩ := of_getCtrl hctrl
    obtain ⟨_, _, _, _, rfl, hset, h⟩ := h.of_bind
    obtain ⟨rfl, -, rfl⟩ := hset.of_perform
    obtain ⟨cleanup, _, result, w₂, rfl, hclean, h⟩ := h.of_bind
    have hdead' : Attempt.dead ⟨entry, reaped, some result⟩ = true := hdead
    cases result with
    | error error =>
      obtain ⟨rfl, rfl, rfl⟩ := h.of_ret
      refine ⟨⟨entry, reaped, some (.error error)⟩, rfl, ⟨_, _, _, rfl, hreaps, ?_⟩, ?_⟩
      · rw [Attempt.Cleans, if_pos hdead']
        exact ⟨.error error, cleanup, _, rfl, hclean, by simp [Attempt.proves], rfl⟩
      · simp [Attempt.rest]
    | ok value =>
      obtain ⟨_, _, ctrl, _, rfl, hctrl, h⟩ := h.of_bind
      obtain ⟨rfl, rfl, rfl⟩ := of_getCtrl hctrl
      obtain ⟨_, _, _, _, rfl, hset, h⟩ := h.of_bind
      obtain ⟨rfl, -, rfl⟩ := hset.of_perform
      obtain ⟨rfl, rfl, rfl⟩ := h.of_ret
      refine ⟨⟨entry, reaped, some (.ok value)⟩, rfl, ⟨_, _, _, rfl, hreaps, ?_⟩, ?_⟩
      · rw [Attempt.Cleans, if_pos hdead']
        exact ⟨.ok value, cleanup, _, rfl, hclean, by simp [Attempt.proves], rfl⟩
      · simp [Attempt.rest, hdead']

theorem ctrl_of_cleanupEpoch {epoch : ℕ} {result : Except Error Unit}
    (h : machine.Traces (cleanupEpoch options epoch) w made result w') : w'.ctrl = w.ctrl := by
  have hframe : machine.wp (fun _ => True) (cleanupEpoch options epoch)
      (fun _ => Quiet (ofEpoch epoch) noInstance w) w :=
    wp_frame cleanupEpoch_quietly fun _ _ => trivial
  exact (h.satisfies hframe).ctrl

section Lists

variable {before after : List QuarantinedEpoch}

theorem setDeathProven_append (h : entry.epoch ∉ before.map (·.epoch)) :
    setDeathProven (before ++ entry :: after) entry.epoch =
      before ++ { entry with deathProven := true } :: after := by
  induction before with
  | nil => simp [setDeathProven]
  | cons first rest ih =>
    rw [List.map_cons, List.mem_cons, not_or] at h
    rw [List.cons_append, setDeathProven, if_neg (Ne.symm h.1), ih h.2, List.cons_append]

theorem releaseEpoch_append {entry' : QuarantinedEpoch} (hepoch : entry'.epoch = entry.epoch)
    (hbefore : entry.epoch ∉ before.map (·.epoch)) (hafter : entry.epoch ∉ after.map (·.epoch)) :
    releaseEpoch (before ++ entry' :: after) entry.epoch = before ++ after := by
  have hother : ∀ quarantine : List QuarantinedEpoch, entry.epoch ∉ quarantine.map (·.epoch) →
      quarantine.filter (fun other => decide (other.epoch ≠ entry.epoch)) = quarantine := by
    intro quarantine hnot
    refine List.filter_eq_self.mpr fun other hmem => decide_eq_true ?_
    intro heq
    exact hnot (heq ▸ List.mem_map_of_mem hmem)
  rw [releaseEpoch, List.filter_append, hother before hbefore, List.filter_cons,
    if_neg (by simp [hepoch]), hother after hafter]

/-- An attempt touches its own entry only. -/
theorem Attempt.Leads.quarantine (h : attempt.Leads options w made w')
    (hlist : w.ctrl.quarantine = before ++ attempt.entry :: after)
    (hbefore : attempt.entry.epoch ∉ before.map (·.epoch))
    (hafter : attempt.entry.epoch ∉ after.map (·.epoch)) :
    w'.ctrl.quarantine = before ++ (attempt.rest.toList ++ after) := by
  obtain ⟨reaping, cleaning, w₁, -, hreaps, hcleans⟩ := h
  have hlist₁ : w₁.ctrl.quarantine = before ++ attempt.entry :: after := by
    unfold Attempt.Reaps at hreaps
    split at hreaps
    · rw [hreaps.2.2, hlist]
    · obtain ⟨outcome, -, -, -, rfl⟩ := hreaps
      rcases quarantine_step (w := w) (.reap attempt.entry.epoch) outcome with
        ⟨quarantine, heq, -⟩ | ⟨-, hstep⟩
      · cases heq
      · rw [hstep, hlist]
  unfold Attempt.Cleans at hcleans
  split at hcleans
  next hdead =>
    obtain ⟨result, cleanup, w₂, hcleaned, hruns, hresult⟩ := hcleans
    have hproven : w₂.ctrl.quarantine =
        before ++ { attempt.entry with deathProven := true } :: after := by
      rw [ctrl_of_cleanupEpoch hruns]
      change (if attempt.entry.deathProven = true then w₁.ctrl.quarantine
        else setDeathProven w₁.ctrl.quarantine attempt.entry.epoch) = _
      rw [hlist₁]
      split
      next hknown => rw [← hknown]
      next => exact setDeathProven_append hbefore
    cases result with
    | error error =>
      obtain ⟨-, rfl⟩ := hresult
      simp [Attempt.rest, hcleaned, hdead, hproven]
    | ok value =>
      obtain ⟨-, rfl⟩ := hresult
      change releaseEpoch w₂.ctrl.quarantine attempt.entry.epoch = _
      have hepoch : ({ attempt.entry with deathProven := true } : QuarantinedEpoch).epoch =
        attempt.entry.epoch := rfl
      rw [hproven, releaseEpoch_append hepoch hbefore hafter]
      simp [Attempt.rest, hcleaned, hdead]
  next halive =>
    obtain ⟨hcleaned, -, rfl⟩ := hcleans
    have hfalse : attempt.dead = false := by simpa using halive
    have hentry : attempt.entry.deathProven = false := by
      unfold Attempt.dead at hfalse
      exact (Bool.or_eq_false_iff.mp hfalse).1
    rw [hlist₁]
    simp [Attempt.rest, hfalse, ← hentry]

theorem Attempt.epoch_of_rest (h : entry ∈ attempt.rest) : entry.epoch = attempt.entry.epoch := by
  unfold Attempt.rest at h
  split at h
  · cases h
  · obtain rfl := Option.some.inj h
    rfl

/-- The attempts of the loop, with what they leave behind the entries that were treated. -/
theorem attempts_of_recoverEntries {entries : List QuarantinedEpoch} {failures : List String}
    (h : machine.Traces (recoverEntries options entries) w made failures w')
    (hlist : w.ctrl.quarantine = before ++ entries) (hunlike : Unlike (before ++ entries)) :
    ∃ attempts : List Attempt, attempts.map Attempt.entry = entries ∧
      LeadAll options attempts w made w' ∧
      w'.ctrl.quarantine = before ++ attempts.filterMap Attempt.rest ∧
      (failures = [] ↔ attempts.filterMap Attempt.rest = []) := by
  induction entries generalizing w before failures made with
  | nil =>
    obtain ⟨rfl, rfl, rfl⟩ := h.of_ret
    exact ⟨[], rfl, .nil, by simpa using hlist, by simp⟩
  | cons entry entries ih =>
    obtain ⟨first, _, failure, w₁, rfl, hentry, h⟩ := h.of_bind
    obtain ⟨rest, _, failures', w₂, rfl, hentries, h⟩ := h.of_bind
    obtain ⟨rfl, rfl, rfl⟩ := h.of_ret
    rw [List.append_nil]
    obtain ⟨attempt, rfl, hleads, hfailure⟩ := attempt_of_recoverEntry hentry
    have hepochs := hunlike
    rw [Unlike, List.map_append, List.map_cons, List.nodup_append, List.nodup_cons] at hepochs
    obtain ⟨hbefore, ⟨hafter, hrest⟩, hdisjoint⟩ := hepochs
    have hnot : attempt.entry.epoch ∉ before.map (·.epoch) :=
      fun hmem => hdisjoint _ hmem _ List.mem_cons_self rfl
    have hlist₁ := hleads.quarantine hlist hnot hafter
    rw [← List.append_assoc] at hlist₁
    have hunlike₁ : Unlike (before ++ attempt.rest.toList ++ entries) := by
      have hsub : ((before ++ attempt.rest.toList ++ entries).map (·.epoch)).Sublist
          ((before ++ attempt.entry :: entries).map (·.epoch)) := by
        rw [List.append_assoc, List.map_append, List.map_append, List.map_append, List.map_cons]
        refine List.Sublist.append_left ?_ _
        cases hleft : attempt.rest with
        | none => exact List.sublist_cons_self _ _
        | some left =>
          have := Attempt.epoch_of_rest hleft
          simp [this]
      exact hsub.nodup hunlike
    obtain ⟨attempts, hattempts, hall, hquarantine, hnone⟩ := ih hentries hlist₁ hunlike₁
    refine ⟨attempt :: attempts, by simp [hattempts], .cons hleads hall, ?_, ?_⟩
    · rw [hquarantine, List.filterMap_cons]
      cases attempt.rest <;> simp
    · rw [List.filterMap_cons]
      cases hleft : attempt.rest with
      | none =>
        obtain rfl := hfailure.mpr hleft
        simpa using hnone
      | some left =>
        cases failure with
        | none => simp [hleft] at hfailure
        | some failure => simp

end Lists

/-- What one call of `recover_quarantine` did, and what it performed. -/
structure Recovered (options : Options) (w : World) (made : List Performed)
    (result : Except Error Unit) (w' : World) (attempts : List Attempt) : Prop where
  /-- Every entry was attempted, in the order of the list. -/
  entries : attempts.map Attempt.entry = w.ctrl.quarantine
  /-- The call reads the list, makes the attempts, and tells how they went. -/
  made : ∃ within last w₁, made = ⟨.ctrl, w.ctrl⟩ :: (within ++ last) ∧
    LeadAll options attempts w within w₁ ∧ w'.ctrl = w₁.ctrl ∧
    (last = [] ∨ last = [⟨.ctrl, w'.ctrl⟩] ∨ ∃ p now, last = [⟨.publish p, now⟩])
  quarantine : w'.ctrl.quarantine = attempts.filterMap Attempt.rest
  result : (∃ value, result = .ok value) ↔ w'.ctrl.quarantine = []

theorem recovered_of_recoverQuarantine {result : Except Error Unit}
    (hunlike : Unlike w.ctrl.quarantine)
    (h : machine.Traces (recoverQuarantine options) w made result w') :
    ∃ attempts, Recovered options w made result w' attempts := by
  unfold recoverQuarantine at h
  obtain ⟨_, _, ctrl, _, rfl, hctrl, h⟩ := h.of_bind
  obtain ⟨rfl, rfl, rfl⟩ := of_getCtrl hctrl
  split at h
  next hempty =>
    obtain ⟨rfl, rfl, rfl⟩ := h.of_ret
    have hnil := List.isEmpty_iff.mp hempty
    exact ⟨[], hnil.symm, ⟨[], [], _, rfl, .nil, rfl, Or.inl rfl⟩, hnil,
      iff_of_true ⟨(), rfl⟩ hnil⟩
  next =>
    obtain ⟨within, _, failures, w₁, rfl, hentries, h⟩ := h.of_bind
    obtain ⟨attempts, hattempts, hall, hquarantine, hnone⟩ :=
      attempts_of_recoverEntries hentries (List.nil_append _).symm hunlike
    rw [List.nil_append] at hquarantine
    split at h
    next hempty =>
      obtain ⟨_, _, _, w₂, rfl, hpublish, h⟩ := h.of_bind
      obtain ⟨rfl, rfl, rfl⟩ := h.of_ret
      obtain ⟨_, _, now, w₃, rfl, hpublish, hret⟩ := hpublish.of_bind
      obtain ⟨rfl, -, rfl⟩ := hpublish.of_perform
      obtain ⟨rfl, -, rfl⟩ := hret.of_ret
      have hnil := hnone.mp (List.isEmpty_iff.mp hempty)
      refine ⟨attempts, hattempts, ⟨within, _, w₁, by simp, hall, rfl,
        Or.inr (Or.inr ⟨_, now, rfl⟩)⟩, hquarantine, iff_of_true ⟨(), rfl⟩ ?_⟩
      exact hquarantine.trans hnil
    next hfailed =>
      obtain ⟨_, _, ctrl, _, rfl, hctrl, h⟩ := h.of_bind
      obtain ⟨rfl, rfl, rfl⟩ := of_getCtrl hctrl
      obtain ⟨rfl, rfl, rfl⟩ := h.of_ret
      refine ⟨attempts, hattempts, ⟨within, _, _, by simp, hall, rfl, Or.inr (Or.inl rfl)⟩,
        hquarantine, iff_of_false (by simp) ?_⟩
      rw [hquarantine, ← hnone]
      simpa using hfailed

/-- A cleanup asks no reaper. -/
theorem cleanupEpoch_reapless {epoch : ℕ} :
    (cleanupEpoch options epoch).Uses fun effect => ∀ other, effect ≠ .reap other := by
  have hextras : ∀ entries : List Artifact,
      (removeExtras epoch entries).Uses fun effect => ∀ other, effect ≠ .reap other := by
    intro entries
    induction entries with
    | nil => exact uses_perform fun _ => Effect.noConfusion
    | cons entry entries ih =>
      refine uses_andThen (uses_perform fun _ => Effect.noConfusion) fun _ => ?_
      split
      · exact uses_andThen (uses_perform fun _ => Effect.noConfusion) fun _ => ih
      · exact ih
  refine uses_andThen (uses_perform fun _ => Effect.noConfusion) fun _ => ?_
  refine uses_andThen (uses_perform fun _ => Effect.noConfusion) fun _ => ?_
  refine uses_andThen (uses_andThen (uses_perform fun _ => Effect.noConfusion) fun kind => ?_)
    fun _ => ?_
  · cases kind with
    | missing => trivial
    | unsafeFile => trivial
    | socket => exact uses_perform fun _ => Effect.noConfusion
  · refine uses_andThen (uses_perform fun _ => Effect.noConfusion) fun entries => ?_
    exact uses_andThen (hextras entries) fun _ => uses_perform fun _ => Effect.noConfusion

/-- An entry whose death is proven is not reaped again. -/
theorem recoverEntry_reapless (h : entry.deathProven = true) :
    (recoverEntry options entry).Uses fun effect => ∀ other, effect ≠ .reap other := by
  have hprove : proveEpochDead entry = pure none := by
    unfold proveEpochDead
    rw [if_pos h]
  unfold recoverEntry
  rw [hprove]
  refine uses_bind (p := pure none) trivial fun failure => ?_
  cases failure with
  | some failure => trivial
  | none =>
    refine uses_bind (uses_perform fun _ => Effect.noConfusion) fun ctrl => ?_
    refine uses_bind (uses_perform fun _ => Effect.noConfusion) fun _ => ?_
    refine uses_bind cleanupEpoch_reapless fun result => ?_
    cases result with
    | error error => trivial
    | ok value =>
      refine uses_bind (uses_perform fun _ => Effect.noConfusion) fun ctrl => ?_
      exact uses_bind (uses_perform fun _ => Effect.noConfusion) fun _ => trivial

/-- What one recovery performs is an attempt at every entry, and it releases those that it proves
dead and cleans; a proven entry is not reaped again; and in every run, wherever requests are
dropped, no epoch is listed twice and no proof of death is lost while its entry is listed. -/
theorem recovery_progresses (options : Options) :
    (∀ w made result w', Unlike w.ctrl.quarantine →
      machine.Traces (recoverQuarantine options) w made result w' →
      ∃ attempts, Recovered options w made result w' attempts) ∧
    (∀ entry : QuarantinedEpoch, entry.deathProven = true →
      (recoverEntry options entry).Uses fun effect => ∀ other, effect ≠ .reap other) ∧
    ∀ c, Reach (plant options fun _ => True) (Built options) c →
      Unlike c.state.ctrl.quarantine ∧
      (∀ job effect next, c.active = some job → job.rest = .call effect next →
        ∀ answer, c.state.allowed effect answer →
          Kept c.state.ctrl.quarantine (c.state.step effect answer).ctrl.quarantine) ∧
      ∀ removed, (c.state.drop removed).ctrl.quarantine = c.state.ctrl.quarantine := by
  refine ⟨fun w made result w' => recovered_of_recoverQuarantine,
    fun entry => recoverEntry_reapless, ?_⟩
  intro c hreach
  obtain ⟨hunlike, htracks⟩ := reach_tracks hreach
  refine ⟨hunlike, ?_, fun removed => rfl⟩
  intro job effect next hjob hrest answer _
  obtain ⟨known, htracks, hknows⟩ := htracks job hjob
  rw [hrest] at htracks
  exact ((relists_step htracks hknows answer).kept hunlike).2

end Nyanpasu.Manager
