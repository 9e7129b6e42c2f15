import Nyanpasu.Config.Effective
import Nyanpasu.Config.Yaml
import Nyanpasu.Manager.Provenance
import Nyanpasu.Manager.Replies

/-!
# What a held core was started from

A held core runs a document that was loaded, but for the controller that the manager gave it.
While the source, the features of the core and the endpoint of its epoch are what they were, an
apply of the same spec finds nothing to do.
-/

namespace Nyanpasu.Manager

open Config Machine Program Serial

variable {options : Options} {b w w' : World} {active : Active}

/-- Every source that was loaded is what `ConfigSnapshot::load` makes of the bytes of a file. -/
def Loads (text : YamlText) (w : World) : Prop := ∀ snapshot ∈ w.history.loads,
  ∃ raw, ConfigSnapshot.fromBytes text snapshot.sourcePath raw = .ok snapshot

/-- The documents, the hashes and the controller of an `Active` come from a source that was
loaded. -/
structure RunsSource (options : Options) (text : YamlText) (w : World) (active : Active) :
    Prop where
  source : ∃ snapshot ∈ w.history.loads, snapshot.document = active.sourceDocument ∧
    snapshot.sourceHash = active.revision.sourceHash
  effective : Effective options.site active.runtimeFeatures active.sourceDocument
    active.effectiveDocument active.handle.controller
  sourceHash : ∃ document bytes, active.sourceDocument.entries = toEntries document ∧
    text.serialize document = .ok bytes ∧ active.revision.sourceHash = semanticHash bytes
  effectiveHash : ∃ bytes, options.site.serialize active.effectiveDocument.entries = .ok bytes ∧
    active.revision.effectiveHash = semanticHash bytes
  epoch : active.handle.epoch = active.revision.epoch

theorem Sourced.source (h : Sourced options w active) :
    ∃ snapshot ∈ w.history.loads, snapshot.document = active.sourceDocument ∧
      snapshot.sourceHash = active.revision.sourceHash := by
  obtain ⟨launch, ⟨snapshot, hloaded, spec, epoch, generation, hfrom⟩, -, hactive⟩ := h.launch
  obtain ⟨resolved, managed, prepared, hprepared, rfl⟩ := hfrom
  obtain ⟨-, hsourceHash⟩ := prepareFull_made hprepared
  rw [hactive]
  exact ⟨snapshot, hloaded, rfl, hsourceHash.symm⟩

theorem Sourced.effective (h : Sourced options w active) :
    Effective options.site active.runtimeFeatures active.sourceDocument active.effectiveDocument
        active.handle.controller ∧
      ∃ bytes, options.site.serialize active.effectiveDocument.entries = .ok bytes ∧
        active.revision.effectiveHash = semanticHash bytes := by
  obtain ⟨launch, ⟨snapshot, -, spec, epoch, generation, hfrom⟩, hcontroller, hactive⟩ := h.launch
  obtain ⟨resolved, managed, prepared, hprepared, rfl⟩ := hfrom
  obtain ⟨heffective, -⟩ := prepared_effective hprepared
  obtain ⟨hbytes, hhash⟩ := ConfigSnapshot.prepare_serialized hprepared
  constructor
  · rw [← hcontroller, hactive]
    exact heffective
  · rw [hactive]
    exact ⟨prepared.bytes, hbytes, hhash⟩

theorem Sourced.runsSource {text : YamlText} (h : Sourced options w active)
    (hloads : Loads text w) : RunsSource options text w active := by
  obtain ⟨snapshot, hloaded, hdocument, hhash⟩ := h.source
  obtain ⟨raw, hread⟩ := hloads snapshot hloaded
  obtain ⟨_, document, bytes, -, -, hbytes, -, hentries, hsemantic⟩ :=
    ConfigSnapshot.fromBytes_ok hread
  refine ⟨h.source, h.effective.1, ⟨document, bytes, ?_, hbytes, ?_⟩, h.effective.2, h.epoch⟩
  · rw [← hdocument, hentries]
  · rw [← hhash, hsemantic]

/-- The answers of surroundings in which nothing has changed since the instance was launched:
its source reads the same, its core has the same features and its epoch the same endpoint. -/
def Unchanged (options : Options) (active : Active) (_ : World) :
    (effect : Effect) → Answer effect → Prop
  | .load path, answer => path = active.sourceSpec.configPath →
      ∀ snapshot, answer = .ok snapshot → snapshot.document = active.sourceDocument
  | .resolveFeatures core, answer => core = active.sourceSpec.core →
      ∀ resolved, answer = .ok resolved → resolved.runtime = active.runtimeFeatures
  | .endpoint epoch, answer => epoch = active.revision.epoch →
      active.runtimeFeatures.contains .localIpc = true → ∀ path, answer = .ok path →
        active.handle.controller.host = localHost options.site.platform path
  | _, _ => True

/-- The effects of an apply that only looks: at what is held, at the source and its features,
and at a staged file of its own. Nothing is asked of a core. -/
def Effect.Looks (epoch : ℕ) : Effect → Prop
  | .ctrl | .borrow _ | .load _ | .metadata _ | .resolveFeatures _ | .endpoint _
  | .checkConfig _ | .freshTemp => True
  | .validateAbsent artifact | .createNew artifact | .setPermissions artifact
  | .writeAll artifact _ | .removeFile artifact | .dropStaged artifact =>
      ∃ counter, artifact = .staged epoch counter
  | _ => False

/-- Nothing has happened to the manager and its processes but that an instance was read. -/
structure Spared (b w : World) : Prop where
  untouched : Untouched b w
  epoch : w.epoch = b.epoch
  spawned : w.spawned = b.spawned
  forwarders : w.forwarders = b.forwarders
  processes : ∀ id, ∃ terminal reads,
    w.processes id = { b.processes id with terminal, reads }

theorem Spared.refl (w : World) : Spared w w :=
  ⟨⟨rfl, rfl, rfl⟩, rfl, rfl, rfl, fun _ => ⟨_, _, rfl⟩⟩

theorem Spared.trans {w'' : World} (h : Spared w w') (h' : Spared w' w'') : Spared w w'' where
  untouched := ⟨h'.untouched.ctrl.trans h.untouched.ctrl,
    h'.untouched.publications.trans h.untouched.publications,
    h'.untouched.ledger.trans h.untouched.ledger⟩
  epoch := h'.epoch.trans h.epoch
  spawned := h'.spawned.trans h.spawned
  forwarders := h'.forwarders.trans h.forwarders
  processes := by
    intro id
    obtain ⟨_, _, hfirst⟩ := h.processes id
    obtain ⟨terminal, reads, hlast⟩ := h'.processes id
    exact ⟨terminal, reads, by rw [hlast, hfirst]⟩

/-- A look spares everything. -/
theorem Effect.Looks.spares {epoch : ℕ} {effect : Effect} (h : effect.Looks epoch)
    (answer : Answer effect) : Spared w (w.step effect answer) := by
  have hfiles : ∀ files, Spared w (w.setFiles files) := fun files =>
    ⟨⟨rfl, rfl, rfl⟩, rfl, rfl, rfl, fun _ => ⟨_, _, rfl⟩⟩
  cases effect
  case load path =>
    cases answer with
    | error error => exact .refl w
    | ok snapshot => exact ⟨⟨rfl, rfl, rfl⟩, rfl, rfl, rfl, fun _ => ⟨_, _, rfl⟩⟩
  case borrow id =>
    refine ⟨⟨rfl, rfl, rfl⟩, rfl, rfl, rfl, fun other => ?_⟩
    simp only [World.step, World.observe]
    split <;> exact ⟨_, _, rfl⟩
  case freshTemp => exact ⟨⟨rfl, rfl, rfl⟩, rfl, rfl, rfl, fun _ => ⟨_, _, rfl⟩⟩
  case createNew | removeFile =>
    cases answer with
    | error error => exact .refl w
    | ok value => exact hfiles _
  case writeAll => cases answer <;> exact hfiles _
  case dropStaged =>
    cases answer with
    | false => exact .refl w
    | true => exact hfiles _
  case ctrl | metadata | resolveFeatures | endpoint | checkConfig | validateAbsent
    | setPermissions => exact .refl w
  all_goals cases h

/-- A run of looks spares everything. -/
theorem spared_of_looks {M : Machine Effect Answer World} {α : Type} {p : Action α} {value : α}
    {made : List Performed} {epoch : ℕ} (hM : M.step = World.step)
    (h : M.Traces p w made value w') (hlooks : ∀ done ∈ made, done.1.Looks epoch) :
    Spared w w' := by
  induction h with
  | ret => exact .refl _
  | call answer _ _ ih =>
    have hfirst := hlooks _ List.mem_cons_self
    refine Spared.trans ?_ (ih fun done hdone => hlooks done (List.mem_cons_of_mem _ hdone))
    rw [hM]
    exact hfirst.spares answer

/-- Nothing has happened but the look at the source and at the instance, and the staged file of
the comparison. -/
structure Looked (active : Active) (b : World) (made : List Performed) (w : World) : Prop where
  /-- The core is not touched, nor anything that belongs to it. -/
  looks : ∀ done ∈ made, done.1.Looks active.revision.epoch
  spared : Spared b w
  files : ∀ artifact, artifact ≠ .staged active.revision.epoch b.temps →
    w.files.lookup artifact = b.files.lookup artifact

section Looking

variable {snapshot : ConfigSnapshot} {α : Type}

theorem dropStaged_looks {epoch counter : ℕ} :
    (dropStaged (.staged epoch counter)).Uses (Effect.Looks epoch) :=
  uses_bind (uses_perform ⟨counter, rfl⟩) fun _ => trivial

theorem stage_looks {epoch : ℕ} {contents : List UInt8} :
    (stage epoch contents).Uses (Effect.Looks epoch) := by
  refine uses_bind (uses_perform trivial) fun counter => ?_
  refine uses_andThen (uses_perform ⟨counter, rfl⟩) fun _ => ?_
  refine uses_andThen (uses_perform ⟨counter, rfl⟩) fun _ => ?_
  refine uses_andThen (uses_perform ⟨counter, rfl⟩) fun _ => ?_
  refine uses_bind (uses_perform ⟨counter, rfl⟩) fun result => ?_
  cases result with
  | error failure => exact uses_bind (uses_perform ⟨counter, rfl⟩) fun _ => trivial
  | ok value => trivial

theorem stage_returns {epoch : ℕ} {contents : List UInt8} :
    (stage epoch contents).Returns fun result =>
      ∀ staged, result = .ok staged → ∃ counter, staged = .staged epoch counter := by
  have herror : ∀ (error : Error) staged,
      (Except.error error : Except Error Artifact) = .ok staged →
      ∃ counter, staged = .staged epoch counter := by
    intro error staged heq
    cases heq
  refine returns_then fun counter => ?_
  refine returns_andThen (returns_of_forall (fun _ => trivial) _) (fun _ (_ : True) => ?_) herror
  refine returns_andThen (returns_of_forall (fun _ => trivial) _) (fun _ (_ : True) => ?_) herror
  refine returns_andThen (returns_of_forall (fun _ => trivial) _) (fun _ (_ : True) => ?_) herror
  refine returns_then fun result => ?_
  cases result with
  | error failure => exact returns_then fun _ => herror _
  | ok value =>
    rintro staged ⟨⟩
    exact ⟨counter, rfl⟩

/-- The comparison is prepared by looks. -/
theorem prepareApply_looks {input : InstanceSpec} :
    (prepareApply options active input snapshot).Uses (Effect.Looks active.revision.epoch) := by
  refine uses_andThen (uses_bind (uses_perform trivial) fun present => ?_) fun _ => ?_
  · cases present <;> trivial
  refine uses_andThen (uses_perform trivial) fun resolved => ?_
  refine uses_andThen (uses_bind (uses_perform trivial) fun _ => trivial) fun prepared => ?_
  refine uses_andThen_returns stage_looks stage_returns fun staged hstaged => ?_
  obtain ⟨counter, rfl⟩ := hstaged staged rfl
  refine uses_andThen (uses_bind (uses_perform trivial) fun result => ?_) fun _ => trivial
  cases result with
  | error error => exact uses_bind dropStaged_looks fun _ => trivial
  | ok value => trivial

/-- What is prepared from an unchanged source is what the instance runs. -/
theorem prepareApply_same (heffective : Effective options.site active.runtimeFeatures
      active.sourceDocument active.effectiveDocument active.handle.controller)
    (hsource : snapshot.document = active.sourceDocument) :
    (machine.restrict (Unchanged options active)).wp (fun _ => True)
      (prepareApply options active active.sourceSpec snapshot) (fun result _ =>
        ∀ prepared, result = .ok prepared →
          prepared.desired.sourceDocument = active.sourceDocument ∧
          prepared.desired.effectiveDocument = active.effectiveDocument ∧
          prepared.desired.sourceSpec = active.sourceSpec) w := by
  refine wp_andThen (wp_any _ _) (fun value w₁ _ => ?_) fun error w₁ _ prepared heq => by cases heq
  refine wp_andThen (Q := fun result _ => ∀ resolved, result = .ok resolved →
    resolved.runtime = active.runtimeFeatures) ?_ ?_ fun error w₂ _ prepared heq => by cases heq
  · exact wp_perform (fun _ => trivial) fun answer hanswer => ⟨fun _ => trivial, hanswer.2 rfl⟩
  intro resolved w₂ hruntime
  have hruntime := hruntime resolved rfl
  refine wp_andThen (Q := fun result _ => ∀ prepared, result = .ok prepared →
    prepared.document = active.effectiveDocument) ?_ ?_ fun error w₃ _ prepared heq => by cases heq
  · refine wp_seq (Q := fun managed _ => active.runtimeFeatures.contains .localIpc = true →
      ∀ path, managed = .ok path →
        active.handle.controller.host = localHost options.site.platform path) ?_ ?_
    · exact wp_perform (fun _ => trivial) fun answer hanswer => ⟨fun _ => trivial, hanswer.2 rfl⟩
    · intro managed w₃ hmanaged prepared hprepared
      obtain ⟨hagain, hhost⟩ := prepared_effective hprepared
      rw [hsource, hruntime] at hagain
      refine hagain.unique heffective fun hlocal => ?_
      obtain ⟨path, hpath, hcontroller⟩ := hhost (hruntime ▸ hlocal)
      rw [hcontroller, hmanaged hlocal path hpath]
  intro prepared w₃ hdocument
  refine wp_andThen (wp_any _ _) (fun staged w₄ _ => ?_) fun error w₄ _ prepared heq => by cases heq
  refine wp_andThen (wp_any _ _) (fun checked w₅ _ => ?_)
    fun error w₅ _ prepared heq => by cases heq
  rintro _ ⟨⟩
  exact ⟨hsource, hdocument prepared rfl, rfl⟩

/-- A document that is the same is no change. -/
theorem classify_same (ip : IpText) (debugOptions : InstanceOptions → String)
    (source effective : Document) (spec : InstanceSpec) :
    classify ip debugOptions source.entries effective.entries spec source.entries
      effective.entries spec = .ok .noop := by
  have hsource := (diff_eq_nil_iff source source).mpr rfl
  have heffective := (diff_eq_nil_iff effective effective).mpr rfl
  simp [classify, processSpecChanged, hsource, heffective, classifyDocuments]

/-- The comparison of an unchanged source drops the staged file, and that is all. -/
theorem applyChange_same {prepared : PreparedApply}
    (hsource : prepared.desired.sourceDocument = active.sourceDocument)
    (heffective : prepared.desired.effectiveDocument = active.effectiveDocument)
    (hspec : prepared.desired.sourceSpec = active.sourceSpec) :
    applyChange options active active.sourceSpec snapshot prepared = (do
      dropStaged prepared.staged
      return .ok (.noop active.revision)) := by
  simp only [applyChange, hsource, heffective, hspec, classify_same]

/-- What an apply of the spec of the held instance is, whatever its surroundings answer. -/
structure Same (active : Active) (b : World) (made : List Performed)
    (result : Except Error ApplyOutcome) (w : World) : Prop where
  noop : ∀ outcome, result = .ok outcome → outcome = .noop active.revision
  looks : ∀ done ∈ made, done.1.Looks active.revision.epoch
  files : ∀ artifact, artifact ≠ .staged active.revision.epoch b.temps →
    w.files.lookup artifact = b.files.lookup artifact

/-- A failure after some looks. -/
theorem same_of_error {made : List Performed} (error : Error)
    (hlooks : ∀ done ∈ made, done.1.Looks active.revision.epoch)
    (hfiles : ∀ artifact, artifact ≠ .staged active.revision.epoch b.temps →
      w.files.lookup artifact = b.files.lookup artifact) :
    Same active b made (.error error) w :=
  ⟨fun outcome heq => (by cases heq), hlooks, hfiles⟩

theorem Same.after {done : Performed} {made : List Performed} {result : Except Error ApplyOutcome}
    (h : Same active b made result w) (hdone : done.1.Looks active.revision.epoch) :
    Same active b ([done] ++ made) result w :=
  { h with looks := List.forall_mem_cons.mpr ⟨hdone, h.looks⟩ }

/-- What is left of the apply once the source is loaded. -/
theorem compare_same {made : List Performed} {result : Except Error ApplyOutcome}
    (hsourced : Sourced options b active) (hsource : snapshot.document = active.sourceDocument)
    (hfiles : w.files = b.files) (htemps : w.temps = b.temps)
    (h : (machine.restrict (Unchanged options active)).Traces
      ((prepareApply options active active.sourceSpec snapshot).andThen fun prepared =>
        applyChange options active active.sourceSpec snapshot prepared) w made result w') :
    Same active b made result w' := by
  have hpath : active.revision.runtimePath = .runtime (.config active.revision.epoch) :=
    hsourced.runtimePath
  obtain ⟨preparing, comparing, prepared, w₁, rfl, hprepare, hrest⟩ := h.of_andThen
  have hlooks := hprepare.uses prepareApply_looks
  obtain ⟨hquiet, hprepared⟩ := hprepare.satisfies
    (wp_restrict (prepareApply_spec hpath fun _ _ => trivial))
  have hsame := hprepare.satisfies (prepareApply_same hsourced.effective.1 hsource)
  have hfiles₁ : ∀ artifact, artifact ≠ .staged active.revision.epoch b.temps →
      w₁.files.lookup artifact = b.files.lookup artifact := by
    intro artifact hne
    rw [hquiet.files artifact fun hstaged => hne (htemps ▸ hstaged), hfiles]
  cases prepared with
  | error error =>
    obtain ⟨rfl, rfl, rfl⟩ := hrest
    rw [List.append_nil]
    exact same_of_error error hlooks hfiles₁
  | ok prepared =>
    obtain ⟨hdocument, heffective, hspec⟩ := hsame prepared rfl
    have hnamed : prepared.staged = .staged active.revision.epoch b.temps :=
      htemps ▸ (hprepared prepared rfl).2.2
    simp only [applyChange_same hdocument heffective hspec, hnamed] at hrest
    obtain ⟨dropping, _, _, w₂, rfl, hdrop, hrest⟩ := hrest.of_bind
    obtain ⟨rfl, rfl, rfl⟩ := hrest.of_ret
    have hdropped := hdrop.satisfies (wp_restrict (@dropStaged_spec _ _ fun _ => True))
    refine ⟨fun outcome heq => (Except.ok.inj heq).symm, ?_, fun artifact hne => ?_⟩
    · intro done hdone
      rw [List.append_nil, List.mem_append] at hdone
      exact hdone.elim (hlooks done) (hdrop.uses dropStaged_looks done)
    · rw [hdropped.files artifact hne, hfiles₁ artifact hne]

/-- An apply of the spec that the held instance was started for. -/
theorem applyConfig_same {expected : Option RevisionId} {made : List Performed}
    {result : Except Error ApplyOutcome} (hcurrent : w.ctrl.current = some active)
    (hsourced : Sourced options w active)
    (h : (machine.restrict (Unchanged options active)).Traces
      (applyConfig options active.sourceSpec expected) w made result w') :
    Same active w made result w' := by
  unfold applyConfig at h
  obtain ⟨_, _, ctrl, t, rfl, hctrl, h⟩ := h.of_bind
  obtain ⟨rfl, hallowed, hsame⟩ := hctrl.of_perform
  obtain rfl : ctrl = w.ctrl := hallowed.1
  obtain rfl : w = t := hsame.symm
  refine Same.after ?_ trivial
  have hfailed : ∀ error, Same active w [] (.error error) w :=
    fun error => same_of_error error (fun done hdone => by cases hdone) fun _ _ => rfl
  cases hguard : rejectQuarantine w.ctrl with
  | error error =>
    simp only [hguard] at h
    obtain ⟨rfl, rfl, rfl⟩ := h.of_ret
    exact hfailed error
  | ok value =>
  simp only [hguard, hcurrent] at h
  obtain ⟨_, _, status, w₁, rfl, hborrow, hread⟩ := h.of_bind
  obtain ⟨rfl, -, hw₁⟩ := hborrow.of_perform
  have hfiles₁ : w₁.files = w.files ∧ w₁.temps = w.temps := by
    rw [hw₁]
    exact ⟨rfl, rfl⟩
  refine Same.after ?_ trivial
  have hfailed₁ : ∀ error, Same active w [] (.error error) w₁ := fun error =>
    { hfailed error with files := fun _ _ => by rw [hfiles₁.1] }
  split at hread
  · obtain ⟨rfl, rfl, rfl⟩ := hread.of_ret
    exact hfailed₁ _
  split at hread
  · obtain ⟨rfl, rfl, rfl⟩ := hread.of_ret
    exact hfailed₁ _
  obtain ⟨_, _, loaded, w₂, rfl, hload, hloaded⟩ := hread.of_andThen
  obtain ⟨rfl, hallowed, hw₂⟩ := hload.of_perform
  have hfiles₂ : w₂.files = w.files ∧ w₂.temps = w.temps := by
    rw [hw₂, ← hfiles₁.1, ← hfiles₁.2]
    cases loaded <;> exact ⟨rfl, rfl⟩
  refine Same.after ?_ trivial
  cases loaded with
  | error error =>
    obtain ⟨rfl, rfl, rfl⟩ := hloaded
    exact { hfailed error with files := fun _ _ => by rw [hfiles₂.1] }
  | ok snapshot =>
    exact compare_same hsourced (hallowed.2 rfl snapshot rfl) hfiles₂.1 hfiles₂.2 hloaded

end Looking

section Runs

variable {cuts : World → Prop}
  {c : Config Effect Answer World Request (Except Error Outcome)}

/-- **A held core runs its source.** In every state of every run, wherever operations are dropped,
the documents of the held instance come from a source that was loaded: the effective document is
the source, but for the controller where the manager owns the endpoint; the hashes of the revision
are those of the two documents, and the controller that the instance is asked through is the one it
was given. -/
theorem held_runs_source {text : YamlText} (h : Reach (plant options cuts) (Built options) c)
    (hloads : Loads text c.state) (hcurrent : c.state.ctrl.current = some active) :
    RunsSource options text c.state active :=
  ((reach_truthful h).current active hcurrent).runsSource hloads

/-- A source in mode `rule`. -/
def ruleBytes : List UInt8 :=
  "external-controller: 127.0.0.1:9090\nmode: rule\n".toUTF8.data.toList

/-- The line of a setting whose value is a plain text. -/
def plainLine : RawValue × RawValue → Except Error (List UInt8)
  | (.string key, .string text) => .ok (key ++ ": " ++ text ++ "\n").toUTF8.data.toList
  | _ => .error (.yaml "not a plain text")

/-- Reads that one source, and writes documents of plain texts. -/
def ruleText : YamlText where
  parse raw :=
    if raw = ruleBytes then
      .ok ⟨.mapping [(.string "external-controller", .string "127.0.0.1:9090"),
        (.string "mode", .string "rule")], by simp [RawValue.Distinct, DistinctPairs]⟩
    else .error (.yaml "not the source in mode rule")
  serialize document := (document.mapM plainLine).map List.flatten

/-- Everything succeeds, and every file is the source in mode `rule`. -/
def reading (w : World) : (effect : Effect) → Answer effect
  | .load path => ConfigSnapshot.fromBytes ruleText path ruleBytes
  | effect => smooth "rule" w effect

/-- The instance of a start runs the document of its source on a socket of its own. -/
theorem held_runs_source_started : ∃ c active, Run httpOptions c ∧
    c.state.ctrl.current = some active ∧ RunsSource httpOptions ruleText c.state active := by
  obtain ⟨c, hrun, hc⟩ := exists_run [(.start mihomoSpec, reading)]
    (p := fun c => c.state.ctrl.current.isSome && c.state.history.loads.all fun snapshot =>
      decide ((ConfigSnapshot.fromBytes ruleText snapshot.sourcePath ruleBytes).toOption =
        some snapshot))
    (by decide +kernel)
  rw [Bool.and_eq_true, List.all_eq_true] at hc
  obtain ⟨active, hcurrent⟩ := Option.isSome_iff_exists.mp hc.1
  have hloads : Loads ruleText c.state := by
    intro snapshot hsnapshot
    have hread := of_decide_eq_true (hc.2 snapshot hsnapshot)
    refine ⟨ruleBytes, ?_⟩
    cases hresult : ConfigSnapshot.fromBytes ruleText snapshot.sourcePath ruleBytes with
    | error error =>
      rw [hresult] at hread
      cases hread
    | ok other =>
      rw [hresult] at hread
      rw [Option.some.inj hread]
  exact ⟨c, active, hrun, hcurrent, held_runs_source hrun hloads hcurrent⟩

/-- **An apply of what is in effect does nothing.** While the source, the features of the core and
the endpoint are what they were when the held instance was launched, an apply of its spec fails or
answers a no-op with its revision. It looks and stages a file, and does nothing else: no core is
asked or stopped, and it changes nothing but the staged file of the comparison. -/
theorem apply_unchanged {expected : Option RevisionId} {made : List Performed}
    {result : Except Error ApplyOutcome} (h : Reach (plant options cuts) (Built options) c)
    (hcurrent : c.state.ctrl.current = some active)
    (hrun : (machine.restrict (Unchanged options active)).Traces
      (applyConfig options active.sourceSpec expected) c.state made result w') :
    (∀ outcome, result = .ok outcome → outcome = .noop active.revision) ∧
      Looked active c.state made w' := by
  have hsame := applyConfig_same hcurrent ((reach_truthful h).current active hcurrent) hrun
  exact ⟨hsame.noop, hsame.looks, spared_of_looks rfl hrun hsame.looks, hsame.files⟩

/-- A program that asks an oracle. -/
def exec (oracle : World → (effect : Effect) → Answer effect) {α : Type} :
    Action α → World → Option (α × World)
  | .ret value, w => some (value, w)
  | .call effect next, w =>
      if w.allowed effect (oracle w effect) then
        exec oracle (next (oracle w effect)) (w.step effect (oracle w effect))
      else none

theorem traces_of_exec {admits : World → (effect : Effect) → Answer effect → Prop}
    {oracle : World → (effect : Effect) → Answer effect} {α : Type} {p : Action α} {value : α}
    (hadmits : ∀ w effect, admits w effect (oracle w effect))
    (h : exec oracle p w = some (value, w')) :
    ∃ made, (machine.restrict admits).Traces p w made value w' := by
  induction p generalizing w with
  | ret first =>
    obtain ⟨rfl, rfl⟩ := Prod.mk.inj (Option.some.inj h)
    exact ⟨[], .ret⟩
  | call effect next ih =>
    simp only [exec] at h
    split at h
    · rename_i hallowed
      obtain ⟨made, hrest⟩ := ih _ h
      exact ⟨_, .call (oracle w effect) ⟨hallowed, hadmits w effect⟩ hrest⟩
    · cases h

/-- The instance that a start in mode `rule` leaves, as far as the surroundings are concerned. -/
def startedInRule (active : Active) : Bool :=
  active.sourceSpec = mihomoSpec && active.sourceDocument = (httpSnapshot "rule").document &&
    active.runtimeFeatures = [.localIpc] &&
    active.handle.controller.host =
      .unixSocket ("/run/core-" ++ toString active.revision.epoch ++ ".sock")

theorem unchanged_smooth (hactive : startedInRule active = true) (w : World) (effect : Effect) :
    Unchanged httpOptions active w effect (smooth "rule" w effect) := by
  simp only [startedInRule, Bool.and_eq_true, decide_eq_true_eq] at hactive
  obtain ⟨⟨⟨-, hsource⟩, hfeatures⟩, hhost⟩ := hactive
  cases effect with
  | load path =>
    rintro - snapshot ⟨⟩
    exact hsource.symm
  | resolveFeatures core =>
    rintro - resolved ⟨⟩
    exact hfeatures.symm
  | endpoint epoch =>
    rintro rfl - path ⟨⟩
    exact hhost
  | _ => trivial

/-- The spec of a start is applied again. -/
theorem apply_unchanged_again : ∃ c active made w', Run httpOptions c ∧
    c.state.ctrl.current = some active ∧
    (machine.restrict (Unchanged httpOptions active)).Traces
      (applyConfig httpOptions active.sourceSpec (some active.revision.id)) c.state made
      (.ok (.noop active.revision)) w' ∧ Looked active c.state made w' := by
  obtain ⟨c, hrun, hc⟩ := exists_run [(.start mihomoSpec, smooth "rule")]
    (p := fun c => c.state.ctrl.current.any fun active => startedInRule active &&
      (exec (smooth "rule") (applyConfig httpOptions active.sourceSpec (some active.revision.id))
        c.state).any fun done => done.1.toBool)
    (by decide +kernel)
  obtain ⟨active, hcurrent, hactive⟩ := (Option.any_eq_true _ _).mp hc
  obtain ⟨hstarted, hexec⟩ := Bool.and_eq_true_iff.mp hactive
  obtain ⟨⟨result, w'⟩, hdone, hok⟩ := (Option.any_eq_true _ _).mp hexec
  obtain ⟨made, hruns⟩ := traces_of_exec (unchanged_smooth hstarted) hdone
  obtain ⟨hnoop, hlooked⟩ := apply_unchanged hrun hcurrent hruns
  cases result with
  | error error => cases hok
  | ok outcome =>
    obtain rfl := hnoop outcome rfl
    exact ⟨c, active, made, w', hrun, hcurrent, hruns, hlooked⟩

end Runs

end Nyanpasu.Manager
