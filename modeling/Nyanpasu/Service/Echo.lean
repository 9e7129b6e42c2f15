import Nyanpasu.Manager.Replies
import Nyanpasu.Service.Adapter

/-!
# The echo of the core type

The service answers status requests with the core type of the last start or apply that was
committed. It belongs to the running core: whatever the manager did with an apply, the type
that is echoed has the kind and the binary of the `Active`.
-/

namespace Nyanpasu.Service

open Manager Machine

variable {settings : Settings} {options : Options} {s s' : State} {b w : World}
  {core : CoreType} {spec : InstanceSpec} {α : Type}

section Outcomes

/-- The warnings around an outcome, outermost first. -/
def warningsOf : ApplyOutcome → List String
  | .durabilityUncertain outcome warning => warning :: warningsOf outcome
  | _ => []

theorem unwrapWarnings_eq (outcome : ApplyOutcome) (warnings : List String) :
    unwrapWarnings outcome warnings = (outcome.innermost, warnings ++ warningsOf outcome) := by
  induction outcome generalizing warnings with
  | durabilityUncertain outcome warning ih =>
    simp [unwrapWarnings, ih, ApplyOutcome.innermost, warningsOf]
  | _ => simp [unwrapWarnings, ApplyOutcome.innermost, warningsOf]

/-- The innermost outcome is no wrapper. -/
theorem outcomeParts_innermost (outcome : ApplyOutcome) :
    ∃ parts, outcomeParts outcome.innermost = some parts := by
  induction outcome with
  | durabilityUncertain outcome warning ih => exact ih
  | _ => exact ⟨_, rfl⟩

/-- The report of an apply: the innermost outcome with all warnings in wrapping order. -/
structure Reports (outcome : ApplyOutcome) (data : CoreApplyData) : Prop where
  parts : ∃ revision, outcomeParts outcome.innermost =
      some (data.outcome, revision, data.failedApply) ∧ data.revision = mapRevision revision
  warning : data.warning = joinWarnings (warningsOf outcome)

/-- `map_apply_outcome` reports every outcome, however often it is wrapped. -/
theorem exists_mapApplyOutcome (outcome : ApplyOutcome) :
    ∃ data, mapApplyOutcome outcome = some data ∧ Reports outcome data := by
  obtain ⟨⟨kind, revision, failedApply⟩, hparts⟩ := outcomeParts_innermost outcome
  refine ⟨⟨kind, mapRevision revision, joinWarnings (warningsOf outcome), failedApply⟩, ?_,
    ⟨revision, hparts, rfl⟩, rfl⟩
  simp [mapApplyOutcome, unwrapWarnings_eq, hparts]

/-- A rollback is reported as one. -/
theorem Reports.rolledBack_iff {outcome : ApplyOutcome} {data : CoreApplyData}
    (h : Reports outcome data) : data.outcome = .rolledBack ↔ outcome.isRolledBack = true := by
  obtain ⟨revision, hparts, -⟩ := h.parts
  unfold ApplyOutcome.isRolledBack
  cases hinner : outcome.innermost <;> rw [hinner] at hparts <;>
    simp [outcomeParts] at hparts <;> simp [← hparts]

end Outcomes

section Specs

/-- The spec that is remembered is the one of the held instance. -/
def Tracks (w : World) : Prop :=
  ∀ active, w.ctrl.current = some active → w.ctrl.lastSpec = some active.sourceSpec

theorem tracks_of_none (h : w.ctrl.current = none) : Tracks w := fun active hactive => by
  simp [h] at hactive

/-- An install is remembered. -/
theorem tracks_of_install {active : Active} (hcurrent : w.ctrl.current = some active)
    (hlast : w.ctrl.lastSpec = some active.sourceSpec) : Tracks w := fun other hother => by
  rw [hlast, Option.some.inj (hcurrent.symm.trans hother)]

/-- What is remembered after a result. -/
structure Kept (b w : World) : Prop where
  tracks : Tracks w
  lastSpec : w.ctrl.lastSpec = b.ctrl.lastSpec

theorem Kept.of_same (h : Tracks b) (hcurrent : w.ctrl.current = b.ctrl.current)
    (hledger : w.ledger = b.ledger) : Kept b w := by
  have hlast : w.ctrl.lastSpec = b.ctrl.lastSpec := congrArg Ledger.lastSpec hledger
  exact ⟨fun active hactive => hlast ▸ h active (hcurrent ▸ hactive), hlast⟩

theorem Kept.of_none (hcurrent : w.ctrl.current = none) (hledger : w.ledger = b.ledger) :
    Kept b w := ⟨tracks_of_none hcurrent, congrArg Ledger.lastSpec hledger⟩


/-- What is remembered after a new spec was installed. -/
structure Adopted (spec : InstanceSpec) (w : World) : Prop where
  tracks : Tracks w
  lastSpec : w.ctrl.lastSpec = some spec

theorem adopted_of_install {active : Active} (hcurrent : w.ctrl.current = some active)
    (hspec : active.sourceSpec = spec) (hlast : w.ctrl.lastSpec = some active.sourceSpec) :
    Adopted spec w :=
  ⟨tracks_of_install hcurrent hlast, hspec ▸ hlast⟩

/-- A start adopts its spec, or keeps what was remembered. -/
theorem start_keeps {epoch : ℕ} {result : Except Error α}
    (h : StartResult spec epoch b w result) (hb : Tracks b) :
    match result with
    | .ok _ => Adopted spec w
    | .error _ => Kept b w := by
  cases h with
  | switched hinstalled hopens =>
    exact adopted_of_install hinstalled.current hopens.spec
      (congrArg Ledger.lastSpec hinstalled.ledger)
  | kept hcurrent hledger => exact .of_same hb hcurrent hledger
  | ended hnone hledger => exact .of_none hnone hledger

/-- A restart adopts the remembered spec, or keeps what was remembered. -/
theorem restart_keeps {epoch : ℕ} {result : Except Error α}
    (h : SwitchResult spec epoch b w result) (hb : Tracks b)
    (hspec : b.ctrl.lastSpec = some spec) : Kept b w := by
  have hadopted : Adopted spec w → Kept b w := fun h => ⟨h.tracks, h.lastSpec.trans hspec.symm⟩
  cases h with
  | switched hinstalled hopens =>
    exact hadopted (adopted_of_install hinstalled.current hopens.spec
      (congrArg Ledger.lastSpec hinstalled.ledger))
  | kept hcurrent hledger => exact .of_same hb hcurrent hledger
  | ended hnone hledger => exact .of_none hnone hledger
  | uncleaned hcurrent hledger hopens =>
    exact hadopted (adopted_of_install hcurrent hopens.spec (congrArg Ledger.lastSpec hledger :))

/-- What is remembered after an apply has succeeded. -/
theorem apply_keeps {outcome : ApplyOutcome} (h : outcome.Holds options spec b w)
    (hb : Tracks b) : Kept b w ∧ (outcome.isRolledBack = true ∨ outcome.isNoop = true) ∨
      Adopted spec w ∧ outcome.isRolledBack = false := by
  have hdone : ∀ {active}, Fulfilled options spec b active w → Adopted spec w := fun hdone =>
    adopted_of_install hdone.current hdone.sourceSpec (congrArg Ledger.lastSpec hdone.ledger)
  have hnext : ∀ {revision}, NextGeneration options spec b revision w → Adopted spec w := by
    rintro _ ⟨_, _, -, hfulfilled, -⟩
    exact hdone hfulfilled
  induction outcome with
  | noop revision => exact Or.inl ⟨.of_same hb (by rw [h.1.ctrl]) h.1.ledger, Or.inr rfl⟩
  | patched revision => exact Or.inr ⟨hnext h, rfl⟩
  | reloaded revision => exact Or.inr ⟨hnext h, rfl⟩
  | restarted revision => exact Or.inr ⟨hnext h, rfl⟩
  | switched revision =>
    obtain ⟨active, hfulfilled, -⟩ := h
    exact Or.inr ⟨hdone hfulfilled, rfl⟩
  | rolledBack revision failedApply =>
    obtain ⟨old, active, hold, hcurrent, hledger, -, hactive, -⟩ := h
    have hspec : active.sourceSpec = old.sourceSpec := by rw [hactive]; rfl
    have hadopted := adopted_of_install hcurrent hspec (congrArg Ledger.lastSpec hledger)
    exact Or.inl ⟨⟨hadopted.tracks, hadopted.lastSpec.trans (hb old hold).symm⟩, Or.inl rfl⟩
  | durabilityUncertain outcome warning ih => exact ih h

theorem apply_error_keeps {error : Error} (h : ApplyContract options spec b (.error error) w)
    (hb : Tracks b) : Kept b w := by
  rcases h with huntouched | hended
  · exact .of_same hb (by rw [huntouched.ctrl]) huntouched.ledger
  · exact .of_none hended.current hended.ledger

end Specs

section Invariant

/-- The wire type has the kind and the binary of the spec, as a lookup has found it. -/
def Names (settings : Settings) (lookups : List (OsPath → Bool)) (core : CoreType)
    (spec : InstanceSpec) : Prop :=
  coreKind core = .ok spec.core.kind ∧
    ∃ present ∈ lookups, findBinaryPath settings present core = .ok ⟨spec.core.binaryPath, true⟩

theorem Names.mono {lookups lookups' : List (OsPath → Bool)} (h : Names settings lookups core spec)
    (hsub : lookups ⊆ lookups') : Names settings lookups' core spec := by
  obtain ⟨hkind, present, hpresent, hfound⟩ := h
  exact ⟨hkind, present, hsub hpresent, hfound⟩

/-- A type names all specs of one process. -/
theorem Names.congr {lookups : List (OsPath → Bool)} {spec' : InstanceSpec}
    {debugOptions : InstanceOptions → String} (h : Names settings lookups core spec')
    (hsame : Config.processSpecChanged debugOptions spec spec' = false) :
    Names settings lookups core spec := by
  simp only [Config.processSpecChanged, Bool.or_eq_false_iff, decide_eq_false_iff_not,
    not_not] at hsame
  obtain ⟨⟨⟨⟨⟨hkind, hbinary⟩, -⟩, -⟩, -⟩, -⟩ := hsame
  unfold Names
  rw [hkind, hbinary]
  exact h

/-- The invariant of the service: the echo names the remembered spec. -/
structure Echoes (settings : Settings) (s : State) : Prop where
  settled : Settled settings.manager.site s.world
  tracks : Tracks s.world
  named : ∀ spec, s.world.ctrl.lastSpec = some spec →
    ∃ core, s.requestedCore = some core ∧ Names settings s.lookups core spec

/-- The service has done nothing but look. -/
structure Looked (s s' : State) : Prop where
  world : s'.world = s.world
  requestedCore : s'.requestedCore = s.requestedCore
  lookups : s.lookups ⊆ s'.lookups

theorem Looked.refl (s : State) : Looked s s := ⟨rfl, rfl, List.Subset.refl _⟩

theorem Echoes.looked (h : Echoes settings s) (hs : Looked s s') : Echoes settings s' where
  settled := hs.world ▸ h.settled
  tracks := hs.world ▸ h.tracks
  named := fun spec hspec => by
    obtain ⟨core, hcore, hnames⟩ := h.named spec (hs.world ▸ hspec)
    exact ⟨core, hs.requestedCore.trans hcore, hnames.mono hs.lookups⟩

/-- The manager has kept what it remembered. -/
theorem Echoes.kept (h : Echoes settings s) (hsettled : Settled settings.manager.site s'.world)
    (hkept : Kept s.world s'.world) (hcore : s'.requestedCore = s.requestedCore)
    (hlookups : s'.lookups = s.lookups) : Echoes settings s' where
  settled := hsettled
  tracks := hkept.tracks
  named := fun spec hspec => by
    rw [hcore, hlookups]
    exact h.named spec (hkept.lastSpec ▸ hspec)

/-- A committed type names the spec that the manager has adopted. -/
theorem echoes_of_adopted (hsettled : Settled settings.manager.site s.world)
    (hadopted : Adopted spec s.world) (hnames : Names settings s.lookups core spec) :
    Echoes settings { s with requestedCore := some core } where
  settled := hsettled
  tracks := hadopted.tracks
  named := fun other hother => by
    obtain rfl := Option.some.inj (hadopted.lastSpec.symm.trans hother)
    exact ⟨core, rfl, hnames⟩

end Invariant

section Operations

/-- The manager's machine acts on the world of the service. -/
theorem contains_manager : Contains machine Manager.machine Effect.manager (fun _ => id)
    State.world fun s => (s.requestedCore, s.lookups) where
  allowed := fun _ _ _ h => h
  step := fun _ _ _ => rfl
  rest := fun _ _ _ => rfl
  awaits := fun _ => rfl

/-- An operation of the manager leaves the echo alone. -/
theorem manage_spec {cut : World → Prop} {p : Manager.Action α} {Q : α → World → Prop}
    (hp : Manager.machine.wp cut p Q s.world) :
    machine.wp (fun _ => True) (manage p) (fun value s' => Q value s'.world ∧
      s'.requestedCore = s.requestedCore ∧ s'.lookups = s.lookups) s := by
  refine wp_mono (wp_lift contains_manager hp) (fun _ _ => trivial) fun value s' hdone => ?_
  exact ⟨hdone.1, congrArg Prod.fst hdone.2, congrArg Prod.snd hdone.2⟩

/-- The rule for an effect that changes nothing. -/
theorem look_spec {effect : Effect} (h : ∀ answer, s.step effect answer = s) :
    machine.wp (fun _ => True) (perform effect) (fun _ s' => s = s') s :=
  wp_perform (fun _ => trivial) fun answer _ => ⟨fun _ => trivial, (h answer).symm⟩

/-- The rule for an operation that the closing latch refuses. -/
theorem unlessClosing_spec {E : Type} {refusal : String → E} {p : Action (Except E α)}
    {post : Except E α → State → Prop} (herror : ∀ error, post (.error error) s)
    (hp : machine.wp (fun _ => True) p post s) :
    machine.wp (fun _ => True) (unlessClosing refusal p) post s := by
  refine wp_seq (look_spec fun _ => rfl) ?_
  rintro closing _ rfl
  cases closing with
  | true => exact herror _
  | false => exact hp

/-- `instance_spec` gives a spec that its type names. -/
theorem instanceSpec_spec {configPath : String} :
    machine.wp (fun _ => True) (instanceSpec settings core configPath) (fun result s' =>
      Looked s s' ∧ ∀ spec, result = .ok spec → Names settings s'.lookups core spec) s := by
  unfold instanceSpec
  split
  · exact ⟨.refl s, fun _ h => nomatch h⟩
  refine wp_seq (Q := fun present s' => s' = s.step .files present)
    (wp_perform (fun _ => trivial) fun _ _ => ⟨fun _ => trivial, rfl⟩) ?_
  rintro present _ rfl
  have hlooked : Looked s (s.step .files present) := ⟨rfl, rfl, List.subset_cons_self _ _⟩
  split
  · exact ⟨hlooked, fun _ h => nomatch h⟩
  rename_i path hfound
  split
  · exact ⟨hlooked, fun _ h => nomatch h⟩
  · exact ⟨hlooked, fun _ h => nomatch h⟩
  rename_i binaryPath kind hpath hkind
  refine ⟨hlooked, fun spec hspec => ?_⟩
  obtain rfl := Except.ok.inj hspec
  refine ⟨hkind, present, List.mem_cons_self, ?_⟩
  obtain ⟨text, isUtf8⟩ := path
  cases isUtf8 <;> simp only [OsPath.toUtf8, Bool.false_eq_true, if_false, if_true,
    Option.some.injEq, reduceCtorEq] at hpath
  rw [hfound, ← hpath]

/-- A publication without a type keeps the echo. -/
theorem publishRequestedCore_spec {committed : Option CoreType} :
    machine.wp (fun _ => True) (perform (.publishRequestedCore committed)) (fun _ s' =>
      s' = { s with requestedCore := committed.or s.requestedCore }) s := by
  refine wp_perform (fun _ => trivial) fun _ _ => ⟨fun _ => trivial, ?_⟩
  cases committed <;> rfl

/-- What a request does to the echo: a start and an apply that was not rolled back commit
their type, and nothing else moves it. -/
def Request.Echoed (settings : Settings) : Request → State → Response → State → Prop
  | .start core _, _, .done (.ok ()), s' => s'.requestedCore = some core
  | .apply core _ _, s, .applied (.ok data), s' =>
      (∃ spec outcome, Reports outcome data ∧
        outcome.Holds settings.manager spec s.world s'.world) ∧
      s'.requestedCore = if data.outcome = .rolledBack then s.requestedCore else some core
  | _, s, _, s' => s'.requestedCore = s.requestedCore

theorem start_spec {configPath : String} (h : Echoes settings s) :
    machine.wp (fun _ => True) (start settings core configPath) (fun result s' =>
      Echoes settings s' ∧
        (Request.start core configPath).Echoed settings s (.done result) s') s := by
  have hfail : ∀ {s' error}, Looked s s' → Echoes settings s' ∧
      (Request.start core configPath).Echoed settings s (.done (.error error)) s' :=
    fun hs => ⟨h.looked hs, hs.requestedCore⟩
  refine unlessClosing_spec (fun _ => hfail (.refl s)) ?_
  refine wp_andThen (look_spec fun _ => rfl) ?_ fun _ _ hs => hs ▸ hfail (.refl s)
  rintro canonical _ rfl
  refine wp_andThen (look_spec fun _ => rfl) ?_ fun _ _ hs => hs ▸ hfail (.refl s)
  rintro _ _ rfl
  refine wp_seq (look_spec fun _ => rfl) ?_
  rintro state _ rfl
  split
  · exact hfail (.refl s)
  refine wp_seq instanceSpec_spec ?_
  rintro result s₁ ⟨hs₁, hnames⟩
  cases result with
  | error error => exact hfail hs₁
  | ok spec =>
    have h₁ := h.looked hs₁
    refine wp_seq (manage_spec (Manager.start_spec h₁.settled)) ?_
    rintro result s₂ ⟨⟨hsettled, hresult⟩, hcore, hlookups⟩
    have hkeeps := start_keeps hresult h₁.tracks
    cases result with
    | error error =>
      exact ⟨h₁.kept hsettled hkeeps hcore hlookups, hcore.trans hs₁.requestedCore⟩
    | ok value =>
      refine wp_seq publishRequestedCore_spec ?_
      rintro _ _ rfl
      exact ⟨echoes_of_adopted hsettled hkeeps (hlookups ▸ hnames spec rfl), rfl⟩

/-- An operation of the manager that keeps what it remembers keeps the echo. -/
theorem manage_kept {cut : World → Prop} {p : Manager.Action α} {Q : α → World → Prop}
    (h : Echoes settings s) (hp : Manager.machine.wp cut p Q s.world)
    (hQ : ∀ value w, Q value w → Settled settings.manager.site w ∧ Kept s.world w) :
    machine.wp (fun _ => True) (manage p) (fun _ s' =>
      Echoes settings s' ∧ s'.requestedCore = s.requestedCore) s := by
  refine wp_imp (manage_spec hp) ?_
  rintro value s' ⟨hdone, hcore, hlookups⟩
  obtain ⟨hsettled, hkept⟩ := hQ value s'.world hdone
  exact ⟨h.kept hsettled hkept hcore hlookups, hcore⟩

theorem stopped_kept (h : StopResult b w) : Kept b w := .of_none h.current h.ledger

theorem stop_spec (h : Echoes settings s) :
    machine.wp (fun _ => True) (stop settings) (fun _ s' =>
      Echoes settings s' ∧ s'.requestedCore = s.requestedCore) s := by
  refine unlessClosing_spec (fun _ => ⟨h, rfl⟩) (wp_seq (manage_kept h
    (Manager.stop_spec h.settled) fun _ _ hdone => ⟨hdone.1, stopped_kept hdone.2⟩) ?_)
  exact fun _ _ hdone => hdone

theorem restart_spec (h : Echoes settings s) :
    machine.wp (fun _ => True) (restart settings) (fun _ s' =>
      Echoes settings s' ∧ s'.requestedCore = s.requestedCore) s := by
  refine unlessClosing_spec (fun _ => ⟨h, rfl⟩) (wp_seq (manage_kept h
    (Manager.restart_spec h.settled) fun _ w hdone => ⟨hdone.1, ?_⟩) fun _ _ hdone => hdone)
  rcases hdone.2 with ⟨-, hctrl, hledger, -⟩ | ⟨spec, hspec, hresult⟩
  · exact .of_same h.tracks (by rw [hctrl]) hledger
  · exact restart_keeps hresult h.tracks hspec

theorem recover_spec (h : Echoes settings s) :
    machine.wp (fun _ => True) (recover settings) (fun _ s' =>
      Echoes settings s' ∧ s'.requestedCore = s.requestedCore) s := by
  refine unlessClosing_spec (fun _ => ⟨h, rfl⟩) (wp_seq (manage_kept h
    (recoverQuarantine_spec h.settled) fun _ w hdone => ⟨hdone.1, ?_⟩) fun _ _ hdone => hdone)
  exact .of_same h.tracks hdone.2.1 hdone.2.2

theorem shutdown_spec (h : Echoes settings s) :
    machine.wp (fun _ => True) (shutdown settings) (fun _ s' =>
      Echoes settings s' ∧ s'.requestedCore = s.requestedCore) s := by
  refine wp_seq (look_spec fun _ => rfl) ?_
  rintro closing _ rfl
  cases closing with
  | true => exact ⟨h, rfl⟩
  | false =>
    refine wp_seq (Q := fun _ s' => s' = s.step .close ())
      (wp_perform (fun _ => trivial) fun _ _ => ⟨fun _ => trivial, rfl⟩) ?_
    rintro _ _ rfl
    have hclosed : Echoes settings (s.step .close ()) :=
      h.looked ⟨rfl, rfl, List.Subset.refl _⟩
    exact wp_seq (manage_kept hclosed (Manager.shutdown_spec hclosed.settled)
      fun _ _ hdone => ⟨hdone.1, stopped_kept hdone.2⟩) fun _ _ hdone => hdone

/-- After an apply the committed type names the remembered spec: it was adopted, or the
type names it too, or the apply was rolled back and nothing is committed. -/
theorem Echoes.applied {outcome : ApplyOutcome} {data : CoreApplyData}
    {debugOptions : InstanceOptions → String} (h : Echoes settings s)
    (hsettled : Settled settings.manager.site s'.world) (hlookups : s'.lookups = s.lookups)
    (hcore : s'.requestedCore = s.requestedCore)
    (hholds : outcome.Holds settings.manager spec s.world s'.world)
    (hnames : Names settings s.lookups core spec) (hreports : Reports outcome data)
    (hnoop : outcome.isNoop = true → ∃ active, s.world.ctrl.current = some active ∧
      Config.processSpecChanged debugOptions active.sourceSpec spec = false) :
    Echoes settings { s' with requestedCore :=
      (if data.outcome = .rolledBack then none else some core).or s'.requestedCore } := by
  have hrolledBack := hreports.rolledBack_iff
  rcases apply_keeps hholds h.tracks with ⟨hkept, hkind⟩ | ⟨hadopted, hkind⟩
  · split
    · exact h.kept hsettled hkept hcore hlookups
    · rename_i hcommits
      obtain ⟨active, hactive, hsame⟩ :=
        hnoop (hkind.resolve_left fun hback => hcommits (hrolledBack.mpr hback))
      have hlast := hkept.lastSpec.trans (h.tracks active hactive)
      exact echoes_of_adopted hsettled ⟨hkept.tracks, hlast⟩ (hlookups ▸ hnames.congr hsame)
  · rw [if_neg (fun hback => by simp [hrolledBack.mp hback] at hkind)]
    exact echoes_of_adopted hsettled hadopted (hlookups ▸ hnames)

theorem canonicalConfigPath_spec {configFile : OsPath} :
    machine.wp (fun _ => True) (canonicalConfigPath configFile) (fun _ s' => s = s') s := by
  refine wp_seq (look_spec fun _ => rfl) ?_
  rintro canonical _ rfl
  cases canonical with
  | error error =>
    dsimp only
    split <;> exact rfl
  | ok canonical =>
    dsimp only
    split <;> exact rfl

theorem apply_spec {configFile : OsPath} {expected : Option RevisionId} (h : Echoes settings s) :
    machine.wp (fun _ => True) (apply settings core configFile expected) (fun result s' =>
      Echoes settings s' ∧
        (Request.apply core configFile expected).Echoed settings s (.applied result) s') s := by
  have hfail : ∀ {s' error}, Looked s s' → Echoes settings s' ∧
      (Request.apply core configFile expected).Echoed settings s (.applied (.error error)) s' :=
    fun hs => ⟨h.looked hs, hs.requestedCore⟩
  refine unlessClosing_spec (fun _ => hfail (.refl s)) ?_
  refine wp_andThen canonicalConfigPath_spec ?_ fun _ _ hs => hs ▸ hfail (.refl s)
  rintro configPath _ rfl
  refine wp_andThen instanceSpec_spec ?_ fun _ _ hs => hfail hs.1
  rintro spec s₁ ⟨hs₁, hnames⟩
  have h₁ := h.looked hs₁
  refine wp_seq (manage_spec (wp_and (applyConfig_spec h₁.settled) applyConfig_noop)) ?_
  rintro result s₂ ⟨⟨⟨hsettled, hcontract, -⟩, hnoop⟩, hcore, hlookups⟩
  cases result with
  | error error =>
    exact ⟨h₁.kept hsettled (apply_error_keeps hcontract h₁.tracks) hcore hlookups,
      hcore.trans hs₁.requestedCore⟩
  | ok outcome =>
    obtain ⟨data, hdata, hreports⟩ := exists_mapApplyOutcome outcome
    dsimp only
    rw [hdata]
    refine wp_seq publishRequestedCore_spec ?_
    rintro _ _ rfl
    refine ⟨h₁.applied hsettled hlookups hcore hcontract (hnames spec rfl) hreports
      (hnoop outcome rfl), ⟨spec, outcome, hreports, hs₁.world ▸ hcontract⟩, ?_⟩
    rw [← hs₁.requestedCore, ← hcore]
    split <;> rfl

/-- Every request keeps the echo in step with the manager. -/
theorem request_spec (request : Request) (h : Echoes settings s) :
    machine.wp (fun _ => True) (request.program settings) (fun response s' =>
      Echoes settings s' ∧ request.Echoed settings s response s') s := by
  cases request with
  | start core configPath => exact wp_seq (start_spec h) fun _ _ hdone => hdone
  | stop => exact wp_seq (stop_spec h) fun _ _ hdone => hdone
  | restart => exact wp_seq (restart_spec h) fun _ _ hdone => hdone
  | apply core configFile expected => exact wp_seq (apply_spec h) fun _ _ hdone => hdone
  | recover => exact wp_seq (recover_spec h) fun _ _ hdone => hdone
  | shutdown => exact wp_seq (shutdown_spec h) fun _ _ hdone => hdone

end Operations

section Runs

variable {c : Serial.Config Effect Answer State Request Response}

/-- A new service remembers nothing. -/
theorem Built.echoes (h : Built settings s) : Echoes settings s where
  settled := h.world.settled
  tracks := tracks_of_none (congrArg Ctrl.current h.world.ctrl)
  named := fun spec hspec => by simp [h.world.ctrl] at hspec

/-- The echo is in step with the manager. -/
structure EchoFaithful (settings : Settings)
    (c : Serial.Config Effect Answer State Request Response) : Prop where
  /-- The echoed type has the kind and the binary of the held instance. -/
  held : c.active = none → ∀ active, c.state.world.ctrl.current = some active →
    ∃ core, c.state.requestedCore = some core ∧
      Names settings c.state.lookups core active.sourceSpec
  /-- Only a start and an apply that was not rolled back move it. -/
  replies : ∀ reply ∈ c.replies,
    reply.request.Echoed settings reply.before reply.result reply.after

/-- The echo is in step with the manager in every run, and an apply is reported as its
innermost outcome with all warnings. -/
theorem echo_faithful (h : Run settings c) : EchoFaithful settings c ∧
    ∀ outcome, ∃ data, mapApplyOutcome outcome = some data ∧ Reports outcome data := by
  have hsound : Serial.Sound (plant settings) (Echoes settings) (Request.Echoed settings) c :=
    Serial.Reach.sound (fun _ hbuilt => hbuilt.echoes)
      (fun request _ hechoes => wp_mono (request_spec request hechoes)
        (fun _ _ hcut => hcut.elim) fun _ _ => id)
      (fun d => d.elim) h
  refine ⟨⟨fun hfree active hactive => ?_, fun reply hreply => ?_⟩, exists_mapApplyOutcome⟩
  · have hechoes := hsound.free hfree
    exact hechoes.named active.sourceSpec (hechoes.tracks active hactive)
  · exact (hsound.replied reply hreply).2.2

instance (s : State) (effect : Effect) (answer : Answer effect) :
    Decidable ((plant settings).machine.allowed s effect answer) := by
  change Decidable (s.allowed effect answer)
  cases effect <;> dsimp only [State.allowed] <;> infer_instance

instance (s : State) : Decidable ((plant settings).cuts s) := inferInstanceAs (Decidable False)

/-- A service of the HTTP manager with its binaries in the data directory. -/
def httpSettings : Settings where
  manager := httpOptions
  infos := ⟨⟨"/data", true⟩, ⟨"/app", true⟩⟩
  executableName := fun core => match core with
    | .clash .mihomoAlpha => "mihomo-alpha"
    | _ => "mihomo"
  instanceOptions := Config.mihomoSpec.options

/-- Everything succeeds, but the instance with the number `refused` is never ready. -/
def serve (mode : String) (refused : ℕ) (s : State) : (effect : Effect) → Answer effect
  | .manager (.settle id) =>
      if id = refused then some (.stopped .finished) else some (.running 100)
  | .manager effect => smooth mode s.world effect
  | .closing => s.closing
  | .close => ()
  | .canonicalizeUtf8 path => .ok path
  | .canonicalize path => .ok path
  | .metadata _ => .ok ()
  | .status => .stopped none
  | .files => fun _ => true
  | .publishRequestedCore _ => ()

/-- A service that was just built. -/
def blankState : State := ⟨blankWorld, none, false, []⟩

theorem built_blankState : Built httpSettings blankState := ⟨built_blankWorld, rfl, rfl, rfl⟩

/-- An apply of the alpha core is rolled back: the echo stays. -/
theorem echo_faithful_rolledBack : ∃ c, Run httpSettings c ∧ EchoFaithful httpSettings c ∧
    c.state.world.ctrl.current.isSome = true ∧
    c.state.requestedCore = some (.clash .mihomo) ∧
    c.replies.head?.any (fun reply => match reply.result with
      | .applied (.ok data) => data.outcome = .rolledBack
      | _ => false) = true := by
  have hplayed : (Serial.play (plant httpSettings)
      [.serve 0 (.start (.clash .mihomo) "config.yaml") 300 (serve "rule" 9),
        .serve 0 (.apply (.clash .mihomoAlpha) ⟨"config.yaml", true⟩ none) 300 (serve "rule" 1)]
      ⟨blankState, none, []⟩).any (fun c => c.state.world.ctrl.current.isSome &&
        (decide (c.state.requestedCore = some (.clash .mihomo)) &&
        c.replies.head?.any fun reply => match reply.result with
          | .applied (.ok data) => data.outcome = .rolledBack
          | _ => false)) = true := by
    decide +kernel
  obtain ⟨c, hc, hend⟩ := (Option.any_eq_true _ _).mp hplayed
  have hrun : Run httpSettings c := Serial.Reach.play (.start built_blankState) hc
  simp only [Bool.and_eq_true, decide_eq_true_eq] at hend
  exact ⟨c, hrun, (echo_faithful hrun).1, hend.1, hend.2.1, hend.2.2⟩

end Runs

end Nyanpasu.Service
