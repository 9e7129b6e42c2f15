import Nyanpasu.Manager.Frame

/-!
# What the store operations do

Each operation of the store is quiet within the files it names, and its success says which
bytes are in place. Only the replacement of a committed file is visible in the history.
-/

namespace Nyanpasu.Manager

open Machine

variable {T : Artifact → Prop} {I : ℕ → Prop} {w w₀ : World} {cut : World → Prop} {α : Type}

/-- The rule for an attempt that drops its staged file when it fails. -/
theorem wp_orDrop {staged : Artifact} {attempt : Action (Except Error α)}
    {post : Except Error α → World → Prop}
    (hattempt : machine.wp cut attempt (fun result w =>
      match result with
      | .ok value => post (.ok value) w
      | .error error => ∀ removed, post (.error error) (w.step (.dropStaged staged) removed)) w) :
    machine.wp cut (orDrop staged attempt) post w := by
  refine wp_seq hattempt fun result w hresult => ?_
  cases result with
  | ok value => exact hresult
  | error error =>
    refine wp_seq (Q := fun _ w' => post (.error error) w') ?_ fun _ _ h => h
    refine wp_seq (Q := fun _ w' => post (.error error) w') ?_ fun _ _ h => h
    exact wp_perform (fun h => nomatch h) fun removed _ => ⟨fun h => (nomatch h), hresult removed⟩

/-- A quiet beginning may be followed by the drop of a staged file. -/
theorem Quiet.dropStaged {staged : Artifact} (hw : Quiet T I w₀ w) (h : T staged)
    (removed : Bool) : Quiet T I w₀ (w.step (.dropStaged staged) removed) :=
  have hquietly : (Effect.dropStaged staged).Quietly T I := h
  hw.trans (hquietly.step removed)

/-- Only the temp of the present counter is written by a staging. -/
def isStaged (epoch : ℕ) (w : World) (artifact : Artifact) : Prop :=
  artifact = .staged epoch w.temps

/-- A staged file did not exist before and has the given contents. -/
structure StagedAt (epoch : ℕ) (contents : List UInt8) (w w' : World) (path : Artifact) :
    Prop where
  named : path = .staged epoch w.temps
  absent : w.files.lookup path = none
  present : w'.files.lookup path = some contents

/-- `stage` writes one new temp. -/
theorem stage_spec {epoch : ℕ} {contents : List UInt8}
    (hcut : ∀ w', Quiet (isStaged epoch w) noInstance w w' → cut w') :
    machine.wp cut (stage epoch contents) (fun result w' =>
      Quiet (isStaged epoch w) noInstance w w' ∧
        ∀ path, result = .ok path → StagedAt epoch contents w w' path) w := by
  unfold stage
  refine wp_seq (wp_quiet trivial hcut) ?_
  rintro counter w₁ ⟨hq₁, hcounter, rfl⟩
  obtain rfl : counter = w.temps := hcounter
  refine wp_andThen (wp_quiet_from hq₁ trivial hcut) ?_ ?_
  · rintro ⟨⟩ w₂ ⟨hq₂, habsent, rfl⟩
    have habsent : w.files.lookup (.staged epoch w.temps) = none := habsent rfl
    refine wp_andThen (wp_quiet_from hq₂ rfl hcut) ?_ ?_
    · rintro ⟨⟩ w₃ ⟨hq₃, -, -⟩
      refine wp_andThen (wp_quiet_from hq₃ trivial hcut) ?_ ?_
      · rintro ⟨⟩ w₄ ⟨hq₄, -, -⟩
        refine wp_seq (wp_quiet_from hq₄ rfl hcut) ?_
        rintro result w₅ ⟨hq₅, -, rfl⟩
        cases result with
        | ok value =>
          refine ⟨hq₅, fun path hok => ?_⟩
          obtain rfl := Except.ok.inj hok
          refine ⟨rfl, habsent, ?_⟩
          simp [World.step, World.setFiles]
        | error failure =>
          refine wp_seq (wp_quiet_from hq₅ rfl hcut) ?_
          rintro removed w₆ ⟨hq₆, -, -⟩
          exact ⟨hq₆, fun path hok => nomatch hok⟩
      · rintro error w₄ ⟨hq₄, -, -⟩
        exact ⟨hq₄, fun path hok => nomatch hok⟩
    · rintro error w₃ ⟨hq₃, -, -⟩
      exact ⟨hq₃, fun path hok => nomatch hok⟩
  · rintro error w₂ ⟨hq₂, -, -⟩
    exact ⟨hq₂, fun path hok => nomatch hok⟩

/-- The validation of a staged file writes nothing. -/
theorem validateStaged_quietly {options : Options} {staged : Artifact} {epoch : ℕ} :
    (validateStaged options staged epoch).Uses (Effect.Quietly T I) := by
  cases staged <;> try trivial
  simp only [validateStaged]
  split
  · exact Program.uses_perform trivial
  · trivial

/-- The files of a commit: the staged file and its target. -/
def ofCommit (staged target : Artifact) (artifact : Artifact) : Prop :=
  artifact = staged ∨ artifact = target

/-- The move of a staged file to a new name, as `commit_new` and `backup` make it. -/
theorem move_spec {staged target : Artifact} (hw : Quiet (ofCommit staged target) I w₀ w)
    (hcut : ∀ w', Quiet (ofCommit staged target) I w₀ w' → cut w') :
    machine.wp cut ((perform (.validateAbsent target)).andThen fun () =>
        perform (.moveNew staged target))
      (fun result w' => Quiet (ofCommit staged target) I w₀ w' ∧
        (result = .ok () → ∃ contents, w.files.lookup staged = some contents ∧
          w'.files.lookup target = some contents)) w := by
  refine wp_andThen (wp_quiet_from hw trivial hcut) ?_ ?_
  · rintro ⟨⟩ w₁ ⟨hq₁, -, rfl⟩
    refine wp_imp (wp_quiet_from hq₁ ⟨Or.inl rfl, Or.inr rfl⟩ hcut) ?_
    rintro result w₂ ⟨hq₂, hallowed, rfl⟩
    refine ⟨hq₂, ?_⟩
    rintro rfl
    obtain ⟨contents, hcontents⟩ := Option.ne_none_iff_exists'.mp (hallowed rfl).1
    exact ⟨contents, hcontents, by
      rw [show (World.step _ (.moveNew staged target) (.ok ())).files = World.moved _ staged target
        from rfl, World.lookup_moved hcontents, if_pos rfl]⟩
  · rintro error w₁ ⟨hq₁, -, -⟩
    exact ⟨hq₁, fun hok => nomatch hok⟩

/-- The synchronization of the directory at the end of an operation. -/
theorem sync_spec {β : Type} {value : β} {post : Except Error β → World → Prop}
    (hw : Quiet T I w₀ w) (hcut : ∀ w', Quiet T I w₀ w' → cut w')
    (hok : post (.ok value) w) (herror : ∀ error, post (.error error) w) :
    machine.wp cut ((perform .syncDir).andThen fun () => return .ok value) post w := by
  refine wp_andThen (Q := fun _ w' => w' = w) ?_ ?_ ?_
  · refine wp_imp (wp_quiet_from hw trivial hcut) ?_
    rintro result w' ⟨-, -, rfl⟩
    rfl
  · rintro ⟨⟩ w' rfl
    exact hok
  · rintro error w' rfl
    exact herror error

/-- `commit_new` puts the staged bytes in place. -/
theorem commitNew_spec {options : Options} {staged : Artifact} {epoch : ℕ}
    (hcut : ∀ w', Quiet (ofCommit staged (.config epoch)) noInstance w w' → cut w') :
    machine.wp cut (commitNew options staged epoch) (fun result w' =>
      Quiet (ofCommit staged (.config epoch)) noInstance w w' ∧
        ∀ path, result = .ok path → path = .runtime (.config epoch) ∧
          ∃ contents, w.files.lookup staged = some contents ∧
            w'.files.lookup (.config epoch) = some contents) w := by
  unfold commitNew
  refine wp_andThen (Q := fun result w' =>
    Quiet (ofCommit staged (.config epoch)) noInstance w w' ∧
      (result = .ok () → ∃ contents, w.files.lookup staged = some contents ∧
        w'.files.lookup (.config epoch) = some contents)) (wp_orDrop ?_) ?_ ?_
  · have hstaged : (validateStaged options staged epoch).Uses
        (Effect.Quietly noArtifact noInstance) := validateStaged_quietly
    refine wp_andThen (wp_frame hstaged fun w' hw' => hcut w' (hw'.mono (fun _ h => h.elim)
      fun _ h => h)) ?_ ?_
    · rintro ⟨⟩ w₁ hq
      have hfiles : w₁.files.lookup staged = w.files.lookup staged := hq.files _ id
      have hq₁ : Quiet (ofCommit staged (.config epoch)) noInstance w w₁ :=
        hq.mono (fun _ h => h.elim) fun _ h => h
      refine wp_imp (move_spec hq₁ hcut) ?_
      rintro result w₂ ⟨hq₂, hmoved⟩
      cases result with
      | ok value => exact ⟨hq₂, fun _ => hfiles ▸ hmoved rfl⟩
      | error error =>
        intro removed
        exact ⟨hq₂.dropStaged (Or.inl rfl) removed,
          fun hok => nomatch hok⟩
    · rintro error w₁ hq removed
      have hq₁ : Quiet (ofCommit staged (.config epoch)) noInstance w w₁ :=
        hq.mono (fun _ h => h.elim) fun _ h => h
      exact ⟨hq₁.dropStaged (Or.inl rfl) removed,
        fun hok => nomatch hok⟩
  · rintro ⟨⟩ w₁ ⟨hq₁, hcontents⟩
    refine sync_spec hq₁ hcut ⟨hq₁, ?_⟩ fun error => ⟨hq₁, fun path hok => nomatch hok⟩
    intro path hok
    exact ⟨(Except.ok.inj hok).symm, hcontents rfl⟩
  · rintro error w₁ ⟨hq₁, -⟩
    exact ⟨hq₁, fun path hok => nomatch hok⟩

/-- The world in which the file of the held instance is no longer the committed one. -/
def World.expose (w : World) (target : Artifact) : World :=
  { w with history := { w.history with exposed := w.history.exposed || w.isCommitted target } }

/-- Without an instance there is no committed file to expose. -/
theorem World.expose_of_none {target : Artifact} (h : w.ctrl.current = none) :
    w.expose target = w := by
  simp [World.expose, World.isCommitted, h]

theorem Quiet.expose {w' : World} (h : Quiet T I w w') (target : Artifact) :
    Quiet T I (w.expose target) (w'.expose target) :=
  { h with
    history := by simp only [World.expose, World.isCommitted, h.ctrl, h.history] }

/-- The result of a replacement: a failure leaves the target alone, a success has put the
staged bytes in its place. -/
def ReplacedBy (staged target : Artifact) (w : World) : Except Error α → World → Prop
  | .error _, w' => Quiet (· = staged) noInstance w w'
  | .ok _, w' => Quiet (ofCommit staged target) noInstance (w.expose target) w' ∧
      ∃ contents, w.files.lookup staged = some contents ∧ w'.files.lookup target = some contents

/-- `commit_replace` installs the staged bytes or leaves the target alone. -/
theorem commitReplace_spec {options : Options} {staged : Artifact} {epoch : ℕ}
    (hbefore : ∀ w', Quiet (· = staged) noInstance w w' → cut w')
    (hafter : ∀ w', Quiet (ofCommit staged (.config epoch)) noInstance
      (w.expose (.config epoch)) w' →
      cut w') :
    machine.wp cut (commitReplace options staged epoch)
      (ReplacedBy staged (.config epoch) w) w := by
  unfold commitReplace
  have hstaged : (validateStaged options staged epoch).Uses
      (Effect.Quietly noArtifact noInstance) := validateStaged_quietly
  have hnothing : ∀ {w'}, Quiet noArtifact noInstance w w' → Quiet (· = staged) noInstance w w' :=
    fun h => h.mono (fun _ h => h.elim) fun _ h => h
  refine wp_andThen (Q := ReplacedBy staged (.config epoch) w) (wp_orDrop ?_) ?_ ?_
  · refine wp_andThen (wp_frame hstaged fun w' hw' => hbefore w' (hnothing hw')) ?_ ?_
    · rintro ⟨⟩ w₁ hq₁
      refine wp_andThen (wp_quiet_from hq₁ trivial fun w' hw' => hbefore w' (hnothing hw')) ?_ ?_
      · rintro ⟨⟩ w₂ ⟨hq₂, -, -⟩
        refine wp_perform (fun _ => hbefore _ (hnothing hq₂)) fun result hallowed => ?_
        cases result with
        | ok value =>
          obtain ⟨contents, hcontents⟩ := Option.ne_none_iff_exists'.mp (hallowed rfl)
          have hreplaced : Quiet (ofCommit staged (.config epoch)) noInstance
              (w.expose (.config epoch)) (w₂.step (.replace staged (.config epoch)) (.ok ())) := by
            have hexposed : Quiet (ofCommit staged (.config epoch)) noInstance
                (w.expose (.config epoch)) (w₂.expose (.config epoch)) :=
              (hq₂.mono (fun _ h => h.elim) fun _ h => h).expose _
            refine hexposed.trans (Quiet.ofFiles fun a ha => ?_)
            exact World.lookup_moved_other (fun h => ha (Or.inl h)) fun h => ha (Or.inr h)
          refine ⟨fun _ => hafter _ hreplaced, hreplaced, contents, ?_, ?_⟩
          · rw [← hcontents, hq₂.files staged id]
          · change (w₂.moved staged (.config epoch)).lookup (.config epoch) = some contents
            rw [World.lookup_moved hcontents, if_pos rfl]
        | error error =>
          refine ⟨fun _ => hbefore _ (hnothing hq₂), fun removed => ?_⟩
          exact (hnothing hq₂).dropStaged rfl removed
      · rintro error w₂ ⟨hq₂, -, -⟩ removed
        exact (hnothing hq₂).dropStaged rfl removed
    · rintro error w₁ hq₁ removed
      exact (hnothing hq₁).dropStaged rfl removed
  · rintro ⟨⟩ w₁ ⟨hq₁, hcontents⟩
    refine wp_seq (wp_quiet_from hq₁ trivial hafter) ?_
    rintro result w₂ ⟨hq₂, -, rfl⟩
    exact ⟨hq₂, hcontents⟩
  · rintro error w₁ hq₁
    exact hq₁

/-- The files that a backup writes. -/
def ofBackup (epoch generation : ℕ) (w : World) (artifact : Artifact) : Prop :=
  artifact = .staged epoch w.temps ∨ artifact = .backup epoch generation

/-- `backup` copies the committed bytes. -/
theorem backup_spec {epoch generation : ℕ}
    (hcut : ∀ w', Quiet (ofBackup epoch generation w) noInstance w w' → cut w') :
    machine.wp cut (backup epoch generation) (fun result w' =>
      Quiet (ofBackup epoch generation w) noInstance w w' ∧
        ∀ saved, result = .ok saved → saved = ⟨.backup epoch generation, epoch⟩ ∧
          w.files.lookup (.staged epoch w.temps) = none ∧
          ∃ contents, w.files.lookup (.config epoch) = some contents ∧
            w'.files.lookup (.backup epoch generation) = some contents) w := by
  unfold backup
  have hnone : ∀ {result : Except Error RuntimeConfigBackup} {error w'},
      result = .error error → Quiet (ofBackup epoch generation w) noInstance w w' →
      Quiet (ofBackup epoch generation w) noInstance w w' ∧
        ∀ saved, result = .ok saved → saved = ⟨.backup epoch generation, epoch⟩ ∧
          w.files.lookup (.staged epoch w.temps) = none ∧
          ∃ contents, w.files.lookup (.config epoch) = some contents ∧
            w'.files.lookup (.backup epoch generation) = some contents := by
    rintro _ error w' rfl hq
    exact ⟨hq, fun saved hok => nomatch hok⟩
  have hstart : Quiet (ofBackup epoch generation w) noInstance w w := .refl w
  refine wp_andThen (wp_inert (fun _ => rfl) (hcut w hstart)) ?_
    fun error w' hw' => hnone rfl (hw'.2 ▸ hstart)
  rintro ⟨⟩ _ ⟨-, rfl⟩
  refine wp_andThen (wp_inert (fun _ => rfl) (hcut w hstart)) ?_
    fun error w' hw' => hnone rfl (hw'.2 ▸ hstart)
  rintro contents _ ⟨hread, rfl⟩
  have hread : w.files.lookup (.config epoch) = some contents := hread contents rfl
  have hstage : ∀ {w'}, Quiet (isStaged epoch w) noInstance w w' →
      Quiet (ofBackup epoch generation w) noInstance w w' :=
    fun h => h.mono (fun _ => Or.inl) fun _ h => h
  refine wp_andThen (stage_spec fun w' hw' => hcut w' (hstage hw')) ?_
    fun error w' hw' => hnone rfl (hstage hw'.1)
  rintro staged w₃ ⟨hq₃, hstaged⟩
  obtain ⟨hnamed, habsent, hpresent⟩ := hstaged staged rfl
  have hnamed : staged = .staged epoch w.temps := hnamed
  have hq₃ : Quiet (ofBackup epoch generation w) noInstance w w₃ := hstage hq₃
  have hfiles : ofCommit staged (.backup epoch generation) = ofBackup epoch generation w := by
    funext artifact
    simp only [ofCommit, ofBackup, hnamed]
  refine wp_andThen (Q := fun result w' => Quiet (ofBackup epoch generation w) noInstance w w' ∧
    (result = .ok () → w'.files.lookup (.backup epoch generation) = some contents))
    (wp_orDrop ?_) ?_ fun error w' hw' => hnone rfl hw'.1
  · rw [← hfiles] at hq₃ hcut ⊢
    refine wp_imp (move_spec hq₃ hcut) ?_
    rintro result w₄ ⟨hq₄, hmoved⟩
    cases result with
    | ok value =>
      obtain ⟨moved, hmoved, htarget⟩ := hmoved rfl
      have : moved = contents := Option.some.inj (hmoved.symm.trans hpresent)
      exact ⟨hq₄, fun _ => this ▸ htarget⟩
    | error error =>
      exact fun removed => ⟨hq₄.dropStaged (Or.inl rfl) removed, fun hok => nomatch hok⟩
  · rintro ⟨⟩ w₄ ⟨hq₄, htarget⟩
    refine sync_spec hq₄ hcut ⟨hq₄, ?_⟩ fun error => hnone rfl hq₄
    intro saved hok
    obtain rfl := Except.ok.inj hok
    exact ⟨rfl, hnamed ▸ habsent, contents, hread, htarget rfl⟩

/-- The files that a restoration writes. -/
def ofRestore (epoch : ℕ) (w : World) (artifact : Artifact) : Prop :=
  artifact = .staged epoch w.temps ∨ artifact = .config epoch

/-- `restore` puts the saved bytes back. -/
theorem restore_spec {options : Options} {saved : RuntimeConfigBackup}
    (hcurrent : w.ctrl.current = none)
    (hcut : ∀ w', Quiet (ofRestore saved.epoch w) noInstance w w' → cut w') :
    machine.wp cut (restore options saved) (fun result w' =>
      Quiet (ofRestore saved.epoch w) noInstance w w' ∧
        ∀ commit, result = .ok commit →
          w'.files.lookup (.config saved.epoch) = w.files.lookup saved.path) w := by
  unfold restore replace
  have hstart : Quiet (ofRestore saved.epoch w) noInstance w w := .refl w
  refine wp_andThen (wp_inert (fun _ => rfl) (hcut w hstart)) ?_
    fun error w' hw' => ⟨hw'.2 ▸ hstart, fun c hok => nomatch hok⟩
  rintro ⟨⟩ _ ⟨-, rfl⟩
  refine wp_andThen (wp_inert (fun _ => rfl) (hcut w hstart)) ?_
    fun error w' hw' => ⟨hw'.2 ▸ hstart, fun c hok => nomatch hok⟩
  rintro contents _ ⟨hread, rfl⟩
  have hread : w.files.lookup saved.path = some contents := hread contents rfl
  have hstage : ∀ {w'}, Quiet (isStaged saved.epoch w) noInstance w w' →
      Quiet (ofRestore saved.epoch w) noInstance w w' :=
    fun h => h.mono (fun _ => Or.inl) fun _ h => h
  refine wp_andThen (stage_spec fun w' hw' => hcut w' (hstage hw')) ?_
    fun error w' hw' => ⟨hstage hw'.1, fun c hok => nomatch hok⟩
  rintro staged w₃ ⟨hq₃, hstaged⟩
  obtain ⟨hnamed, -, hpresent⟩ := hstaged staged rfl
  have hnamed : staged = .staged saved.epoch w.temps := hnamed
  have hq₃ : Quiet (ofRestore saved.epoch w) noInstance w w₃ := hstage hq₃
  have hexpose : w₃.expose (.config saved.epoch) = w₃ :=
    World.expose_of_none (by rw [hq₃.ctrl, hcurrent])
  have hdropped : ∀ {w'}, Quiet (· = staged) noInstance w₃ w' →
      Quiet (ofRestore saved.epoch w) noInstance w w' :=
    fun h => hq₃.trans (h.mono (fun _ h => Or.inl (h.trans hnamed)) fun _ h => h)
  have hcommitted : ∀ {w'}, Quiet (ofCommit staged (.config saved.epoch)) noInstance
      (w₃.expose (.config saved.epoch)) w' → Quiet (ofRestore saved.epoch w) noInstance w w' :=
    fun h => by
      rw [hexpose] at h
      exact hq₃.trans (h.mono (fun _ h => h.imp_left fun h => h.trans hnamed) fun _ h => h)
  refine wp_imp (commitReplace_spec (fun w' hw' => hcut w' (hdropped hw'))
    fun w' hw' => hcut w' (hcommitted hw')) ?_
  intro result w₄ hreplaced
  cases result with
  | error error => exact ⟨hdropped hreplaced, fun c hok => nomatch hok⟩
  | ok commit =>
    obtain ⟨hq₄, moved, hmoved, htarget⟩ := hreplaced
    refine ⟨hcommitted hq₄, fun _ _ => ?_⟩
    rw [htarget, hread, ← hmoved, hpresent]

/-- `remove_backup` touches the backup alone. -/
theorem removeBackup_quietly {saved : RuntimeConfigBackup} (h : T saved.path) :
    (removeBackup saved).Uses (Effect.Quietly T I) := Program.uses_perform h

theorem removeExtras_quietly {epoch : ℕ} (entries : List Artifact) :
    (removeExtras epoch entries).Uses (Effect.Quietly (ofEpoch epoch) I) := by
  induction entries with
  | nil => exact Program.uses_perform trivial
  | cons entry entries ih =>
    refine Program.uses_andThen (Program.uses_perform trivial) fun _ => ?_
    split
    · rename_i hextra
      refine Program.uses_andThen (Program.uses_perform ?_) fun _ => ih
      cases entry <;> simp_all [isEpochExtra, Effect.Quietly, ofEpoch, Artifact.epoch]
    · exact ih

theorem removeSocketArtifact_quietly {options : Options} {path : Artifact} (h : T path) :
    (removeSocketArtifact options path).Uses (Effect.Quietly T I) := by
  refine Program.uses_andThen (Program.uses_perform trivial) fun kind => ?_
  cases kind with
  | missing => trivial
  | unsafeFile => trivial
  | socket => exact Program.uses_perform h

/-- `cleanup_epoch` touches the artifacts of its epoch alone. -/
theorem cleanupEpoch_quietly {options : Options} {epoch : ℕ} :
    (cleanupEpoch options epoch).Uses (Effect.Quietly (ofEpoch epoch) I) := by
  unfold cleanupEpoch
  refine Program.uses_andThen (Program.uses_perform rfl) fun _ => ?_
  refine Program.uses_andThen (Program.uses_perform rfl) fun _ => ?_
  refine Program.uses_andThen (removeSocketArtifact_quietly rfl) fun _ => ?_
  refine Program.uses_andThen (Program.uses_perform trivial) fun entries => ?_
  exact Program.uses_andThen (removeExtras_quietly entries) fun _ => Program.uses_perform trivial

/-- No file appears. -/
def Shrinks (w w' : World) : Prop :=
  ∀ artifact, w.files.lookup artifact = none → w'.files.lookup artifact = none

/-- A removed file is absent and no file appears. -/
theorem shrinks_erase (w : World) (artifact : Artifact) :
    Shrinks w (w.setFiles (Assoc.erase w.files artifact)) ∧
      (w.setFiles (Assoc.erase w.files artifact)).files.lookup artifact = none := by
  refine ⟨fun a ha => ?_, ?_⟩
  · change (Assoc.erase w.files artifact).lookup a = none
    rw [Assoc.lookup_erase, ha, ite_self]
  · change (Assoc.erase w.files artifact).lookup artifact = none
    rw [Assoc.lookup_erase, if_pos rfl]

theorem remove_spec {artifact : Artifact} :
    machine.wp (fun _ => True) (perform (.removeRegular artifact)) (fun result w' =>
      Shrinks w w' ∧ (result = .ok () → w'.files.lookup artifact = none)) w := by
  refine wp_perform (fun _ => trivial) fun result _ => ⟨fun _ => trivial, ?_⟩
  cases result with
  | error error => exact ⟨fun _ h => h, fun hok => nomatch hok⟩
  | ok value => exact ⟨(shrinks_erase w artifact).1, fun _ => (shrinks_erase w artifact).2⟩

theorem removeSocketArtifact_cleans {options : Options} {path : Artifact} :
    machine.wp (fun _ => True) (removeSocketArtifact options path) (fun result w' =>
      Shrinks w w' ∧ (result = .ok () → w'.files.lookup path = none)) w := by
  refine wp_andThen (wp_inert (fun _ => rfl) trivial) ?_ ?_
  · rintro kind _ ⟨hkind, rfl⟩
    cases kind with
    | missing => exact ⟨fun _ h => h, fun _ => hkind rfl⟩
    | unsafeFile => exact ⟨fun _ h => h, fun hok => nomatch hok⟩
    | socket =>
      refine wp_perform (fun _ => trivial) fun result _ => ⟨fun _ => trivial, ?_⟩
      cases result with
      | error error => exact ⟨fun _ h => h, fun hok => nomatch hok⟩
      | ok value => exact ⟨(shrinks_erase w path).1, fun _ => (shrinks_erase w path).2⟩
  · rintro error _ ⟨-, rfl⟩
    exact ⟨fun _ h => h, fun hok => nomatch hok⟩

/-- The loop over the directory removes every extra of the epoch that it sees. -/
theorem removeExtras_cleans {epoch : ℕ} (entries : List Artifact) :
    machine.wp (fun _ => True) (removeExtras epoch entries) (fun result w' =>
      Shrinks w w' ∧ (result = .ok () → ∀ artifact ∈ entries, isEpochExtra epoch artifact = true →
        w'.files.lookup artifact = none)) w := by
  induction entries generalizing w with
  | nil =>
    refine wp_imp (wp_inert (fun _ => rfl) trivial) ?_
    rintro result _ ⟨-, rfl⟩
    exact ⟨fun _ h => h, by simp⟩
  | cons entry entries ih =>
    refine wp_andThen (wp_inert (fun _ => rfl) trivial) ?_ ?_
    · rintro ⟨⟩ _ ⟨-, rfl⟩
      split
      · refine wp_andThen remove_spec ?_ ?_
        · rintro ⟨⟩ w₁ ⟨hshrinks, hgone⟩
          refine wp_imp ih ?_
          rintro result w₂ ⟨hshrinks', hrest⟩
          refine ⟨fun a ha => hshrinks' a (hshrinks a ha), fun hok artifact hmem hextra => ?_⟩
          rcases List.mem_cons.mp hmem with rfl | hmem
          · exact hshrinks' _ (hgone rfl)
          · exact hrest hok artifact hmem hextra
        · rintro error w₁ ⟨hshrinks, -⟩
          exact ⟨hshrinks, fun hok => nomatch hok⟩
      · rename_i hextra
        refine wp_imp ih ?_
        rintro result w₂ ⟨hshrinks', hrest⟩
        refine ⟨hshrinks', fun hok artifact hmem hmine => ?_⟩
        rcases List.mem_cons.mp hmem with rfl | hmem
        · exact absurd hmine hextra
        · exact hrest hok artifact hmem hmine
    · rintro error _ ⟨-, rfl⟩
      exact ⟨fun _ h => h, fun hok => nomatch hok⟩

/-- No artifact of the epoch is left. -/
def Cleaned (epoch : ℕ) (w : World) : Prop :=
  ∀ artifact : Artifact, artifact.epoch = epoch → w.files.lookup artifact = none

/-- A successful `cleanup_epoch` leaves no artifact of its epoch. -/
theorem cleanupEpoch_cleans {options : Options} {epoch : ℕ} :
    machine.wp (fun _ => True) (cleanupEpoch options epoch)
      (fun result w' => result = .ok () → Cleaned epoch w') w := by
  unfold cleanupEpoch
  have hnone : ∀ error w', (Except.error error : Except Error Unit) = .ok () → Cleaned epoch w' :=
    fun _ _ hok => nomatch hok
  refine wp_andThen remove_spec ?_ fun error w' _ => hnone error w'
  rintro ⟨⟩ w₁ ⟨-, hconfig⟩
  refine wp_andThen remove_spec ?_ fun error w' _ => hnone error w'
  rintro ⟨⟩ w₂ ⟨hshrinks₂, hpid⟩
  refine wp_andThen removeSocketArtifact_cleans ?_ fun error w' _ => hnone error w'
  rintro ⟨⟩ w₃ ⟨hshrinks₃, hsocket⟩
  refine wp_andThen (wp_inert (fun _ => rfl) trivial) ?_ fun error w' _ => hnone error w'
  rintro entries _ ⟨hentries, rfl⟩
  refine wp_andThen (removeExtras_cleans entries) ?_ fun error w' _ => hnone error w'
  rintro ⟨⟩ w₄ ⟨hshrinks₄, hextras⟩
  refine wp_imp (wp_inert (fun _ => rfl) trivial) ?_
  rintro result _ ⟨-, rfl⟩ hok artifact howner
  -- The named artifacts were removed first, the others because the listing is complete.
  cases artifact <;> obtain rfl : _ = epoch := howner
  case config => exact hshrinks₄ _ (hshrinks₃ _ (hshrinks₂ _ (hconfig rfl)))
  case pid => exact hshrinks₄ _ (hshrinks₃ _ (hpid rfl))
  case socket => exact hshrinks₄ _ (hsocket rfl)
  all_goals
    by_contra hpresent
    have hlisted := (hentries entries rfl).1 _
      (Assoc.lookup_ne_none_iff.mp fun hnone => hpresent (hshrinks₄ _ hnone))
    exact hpresent (hextras rfl _ hlisted (by simp [isEpochExtra, Artifact.epoch]))

/-- `cleanup_epoch` touches only its epoch, and its success leaves nothing of it. -/
theorem cleanupEpoch_spec {options : Options} {epoch : ℕ}
    (hcut : ∀ w', Quiet (ofEpoch epoch) noInstance w w' → cut w') :
    machine.wp cut (cleanupEpoch options epoch) (fun result w' =>
      Quiet (ofEpoch epoch) noInstance w w' ∧ (result = .ok () → Cleaned epoch w')) w :=
  wp_and (wp_frame cleanupEpoch_quietly hcut) cleanupEpoch_cleans

end Nyanpasu.Manager
