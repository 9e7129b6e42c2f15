import Nyanpasu.Manager.Serving

/-!
# What the preparations do

A preparation writes files of its own epoch. Its success gives a launch whose documents come
from the snapshot, with the committed or the staged file of its document.
-/

namespace Nyanpasu.Manager

open Config Machine

variable {options : Options} {spec : InstanceSpec} {epoch generation : ℕ}
  {snapshot : ConfigSnapshot} {resolved : ResolvedFeatures} {w : World} {cut : World → Prop}

/-- The launch was prepared for the spec and the epoch from the snapshot. -/
def PreparedFrom (options : Options) (spec : InstanceSpec) (epoch generation : ℕ)
    (snapshot : ConfigSnapshot) (launch : PreparedLaunch) : Prop :=
  ∃ resolved managed prepared,
    snapshot.prepareFull options.site (fun _ => managed) epoch resolved.runtime = .ok prepared ∧
      launch = preparedLaunch spec epoch generation (.runtime (.config epoch)) snapshot resolved
        prepared

/-- A file with the bytes of a prepared document is the committed one. -/
theorem committed_of_prepared {managed : Except Error String} {prepared : PreparedConfig}
    (hprepared : snapshot.prepareFull options.site (fun _ => managed) epoch resolved.runtime =
      .ok prepared)
    (hfile : w.files.lookup (.config epoch) = some prepared.bytes) :
    Committed options.site w ⟨epoch, generation, prepared.sourceHash, prepared.effectiveHash,
      .runtime (.config epoch)⟩ prepared.document := by
  obtain ⟨hserialize, hhash⟩ := ConfigSnapshot.prepare_serialized hprepared
  exact ⟨rfl, prepared.bytes, hfile, hserialize, hhash⟩

/-- The endpoint is asked without waiting. -/
theorem prepareFull_spec {runtime : List RuntimeFeature} :
    machine.wp cut (prepareFull options snapshot epoch runtime) (fun result w' => w = w' ∧
      ∃ managed, result = snapshot.prepareFull options.site (fun _ => managed) epoch runtime) w :=
  wp_seq (Q := fun _ w' => w = w') (wp_sync rfl fun _ _ => rfl)
    fun managed _ hw => ⟨hw, managed, rfl⟩

theorem prepareBootstrap_spec {runtime : List RuntimeFeature} :
    machine.wp cut (prepareBootstrap options snapshot epoch runtime) (fun _ w' => w = w') w :=
  wp_seq (Q := fun _ w' => w = w') (wp_sync rfl fun _ _ => rfl) fun _ _ hw => hw

/-- A check leaves the staged file, or drops it. -/
theorem checkStaged_spec {staged : Artifact}
    (hcut : ∀ w', Quiet (· = staged) noInstance w w' → cut w') :
    machine.wp cut (checkStaged spec staged) (fun result w' =>
      Quiet (· = staged) noInstance w w' ∧ (result = .ok () → w = w')) w := by
  refine wp_orDrop (wp_imp (wp_inert (fun _ => rfl) (hcut w (.refl w))) ?_)
  rintro result _ ⟨-, rfl⟩
  cases result with
  | ok value => exact ⟨.refl w, fun _ => rfl⟩
  | error error =>
    intro removed
    have hstart : Quiet (· = staged) noInstance w w := .refl w
    exact ⟨hstart.dropStaged rfl removed, fun hok => nomatch hok⟩

theorem validateLaunchable_spec (hcut : cut w) :
    machine.wp cut (validateLaunchable spec) (fun _ w' => w = w') w := by
  refine wp_seq (wp_inert (fun _ => rfl) hcut) ?_
  rintro present _ ⟨-, rfl⟩
  cases present <;> rfl

theorem resolveFeatures_spec {core : CoreSpec} (hcut : cut w) :
    machine.wp cut (resolveFeatures core) (fun _ w' => w = w') w :=
  wp_imp (wp_inert (fun _ => rfl) hcut) fun _ _ hw => hw.2

section Files

variable {w' : World} {staged : Artifact}

theorem Quiet.ofStaged (h : Quiet (isStaged epoch w) noInstance w w') :
    Quiet (ofEpoch epoch) noInstance w w' :=
  h.mono (fun a ha => by rw [ha]; rfl) fun _ h => h

theorem Quiet.ofDropped (h : Quiet (· = staged) noInstance w w') (hstaged : ofEpoch epoch staged) :
    Quiet (ofEpoch epoch) noInstance w w' :=
  h.mono (fun a ha => by rw [ha]; exact hstaged) fun _ h => h

theorem Quiet.ofCommitted
    (h : Quiet (ofCommit staged (.config epoch)) noInstance w w') (hstaged : ofEpoch epoch staged) :
    Quiet (ofEpoch epoch) noInstance w w' :=
  h.mono (fun a ha => ha.elim (fun h => by rw [h]; exact hstaged) fun h => by rw [h]; rfl)
    fun _ h => h

end Files

/-- The result of a preparation that commits a new file. -/
def Prepares (options : Options) (spec : InstanceSpec) (epoch : ℕ) (snapshot : ConfigSnapshot)
    (w : World) (result : Except Error PreparedLaunch) (w' : World) : Prop :=
  Quiet (ofEpoch epoch) noInstance w w' ∧ ∀ launch, result = .ok launch →
    PreparedFrom options spec epoch 1 snapshot launch ∧
      Committed options.site w' launch.revision launch.effectiveDocument

/-- `prepare_launch_with_features`. -/
theorem prepareLaunchWithFeatures_spec
    (hcut : ∀ w', Quiet (ofEpoch epoch) noInstance w w' → cut w') :
    machine.wp cut (prepareLaunchWithFeatures options spec epoch snapshot resolved)
      (Prepares options spec epoch snapshot w) w := by
  unfold prepareLaunchWithFeatures
  refine wp_andThen prepareFull_spec ?_ ?_
  · rintro prepared _ ⟨rfl, managed, hprepared⟩
    refine wp_andThen (stage_spec fun w' hw' => hcut w' hw'.ofStaged) ?_ ?_
    · rintro staged w₁ ⟨hq₁, hstaged⟩
      obtain ⟨hnamed, -, hpresent⟩ := hstaged staged rfl
      have hmine : ofEpoch epoch staged := by rw [hnamed]; rfl
      refine wp_andThen (checkStaged_spec fun w' hw' =>
        hcut w' (hq₁.ofStaged.trans (hw'.ofDropped hmine))) ?_ ?_
      · rintro ⟨⟩ w₂ ⟨-, hsame⟩
        obtain rfl := hsame rfl
        refine wp_andThen (commitNew_spec fun w' hw' =>
          hcut w' (hq₁.ofStaged.trans (hw'.ofCommitted hmine))) ?_ ?_
        · rintro path w₃ ⟨hq₃, hpath⟩
          obtain ⟨rfl, contents, hcontents, hfile⟩ := hpath path rfl
          obtain rfl : prepared.bytes = contents :=
            Option.some.inj (hpresent.symm.trans hcontents)
          refine ⟨hq₁.ofStaged.trans (hq₃.ofCommitted hmine), fun launch hlaunch => ?_⟩
          obtain rfl := Except.ok.inj hlaunch
          exact ⟨⟨resolved, managed, prepared, hprepared.symm, rfl⟩,
            committed_of_prepared hprepared.symm hfile⟩
        · rintro error w₃ ⟨hq₃, -⟩
          exact ⟨hq₁.ofStaged.trans (hq₃.ofCommitted hmine), fun _ hok => nomatch hok⟩
      · rintro error w₂ ⟨hq₂, -⟩
        exact ⟨hq₁.ofStaged.trans (hq₂.ofDropped hmine), fun _ hok => nomatch hok⟩
    · rintro error w₁ ⟨hq₁, -⟩
      exact ⟨hq₁.ofStaged, fun _ hok => nomatch hok⟩
  · rintro error _ ⟨rfl, -⟩
    exact ⟨.refl w, fun _ hok => nomatch hok⟩

/-- `prepare_launch`. -/
theorem prepareLaunch_spec (hcut : ∀ w', Quiet (ofEpoch epoch) noInstance w w' → cut w') :
    machine.wp cut (prepareLaunch options spec epoch snapshot)
      (Prepares options spec epoch snapshot w) w := by
  have hnone : ∀ error, Prepares options spec epoch snapshot w (.error error) w :=
    fun error => ⟨.refl w, fun _ hok => nomatch hok⟩
  refine wp_andThen (validateLaunchable_spec (hcut w (.refl w))) ?_
    fun error w' hw' => hw' ▸ hnone error
  rintro ⟨⟩ _ rfl
  refine wp_andThen (resolveFeatures_spec (hcut w (.refl w))) ?_
    fun error w' hw' => hw' ▸ hnone error
  rintro resolved _ rfl
  exact prepareLaunchWithFeatures_spec hcut

/-- The commit of a bootstrap document keeps the staged full document. -/
theorem commitBootstrap_spec {fullStaged : Artifact} {bytes : List UInt8}
    (hmine : ∃ counter, fullStaged = .staged epoch counter)
    (hpresent : w.files.lookup fullStaged ≠ none)
    (hcut : ∀ w', Quiet (ofEpoch epoch) noInstance w w' → cut w') :
    machine.wp cut (commitBootstrap options spec epoch fullStaged bytes) (fun result w' =>
      Quiet (ofEpoch epoch) noInstance w w' ∧ ∀ path, result = .ok path →
        path = .runtime (.config epoch) ∧
          w'.files.lookup fullStaged = w.files.lookup fullStaged) w := by
  have howned : ofEpoch epoch fullStaged := by
    obtain ⟨counter, rfl⟩ := hmine
    rfl
  have hdropped : ∀ {w'} (removed : Bool), Quiet (ofEpoch epoch) noInstance w w' →
      Quiet (ofEpoch epoch) noInstance w (w'.step (.dropStaged fullStaged) removed) :=
    fun removed hq => hq.dropStaged howned removed
  refine wp_orDrop ?_
  refine wp_andThen (wp_inert (fun _ => rfl) (hcut w (.refl w))) ?_ ?_
  · rintro ⟨⟩ _ ⟨-, rfl⟩
    refine wp_andThen (stage_spec fun w' hw' => hcut w' hw'.ofStaged) ?_ ?_
    · rintro staged w₁ ⟨hq₁, hstaged⟩
      obtain ⟨hnamed, habsent, -⟩ := hstaged staged rfl
      have hstaged : ofEpoch epoch staged := by rw [hnamed]; rfl
      have hother : fullStaged ≠ staged := by
        rintro rfl
        exact hpresent habsent
      have hkept : w₁.files.lookup fullStaged = w.files.lookup fullStaged :=
        hq₁.files _ fun h => hother (h.trans hnamed.symm)
      refine wp_andThen (checkStaged_spec fun w' hw' =>
        hcut w' (hq₁.ofStaged.trans (hw'.ofDropped hstaged))) ?_ ?_
      · rintro ⟨⟩ w₂ ⟨-, hsame⟩
        obtain rfl := hsame rfl
        refine wp_imp (commitNew_spec fun w' hw' =>
          hcut w' (hq₁.ofStaged.trans (hw'.ofCommitted hstaged))) ?_
        rintro result w₃ ⟨hq₃, hpath⟩
        have hquiet := hq₁.ofStaged.trans (hq₃.ofCommitted hstaged)
        cases result with
        | error error => exact fun removed => ⟨hdropped removed hquiet, fun _ hok => nomatch hok⟩
        | ok path =>
          refine ⟨hquiet, fun path' hok => ?_⟩
          obtain rfl := Except.ok.inj hok
          refine ⟨(hpath path rfl).1, (hq₃.files _ ?_).trans hkept⟩
          rintro (rfl | rfl)
          · exact hother rfl
          · exact nomatch hmine
      · rintro error w₂ ⟨hq₂, -⟩ removed
        exact ⟨hdropped removed (hq₁.ofStaged.trans (hq₂.ofDropped hstaged)),
          fun _ hok => nomatch hok⟩
    · rintro error w₁ ⟨hq₁, -⟩ removed
      exact ⟨hdropped removed hq₁.ofStaged, fun _ hok => nomatch hok⟩
  · rintro error _ ⟨-, rfl⟩ removed
    exact ⟨hdropped removed (.refl w), fun _ hok => nomatch hok⟩

/-- A staged file of the epoch holds the document of a launch. -/
def StagedFor (site : Site) (launch : PreparedLaunch) (staged : Artifact) (w : World) : Prop :=
  (∃ counter, staged = .staged launch.revision.epoch counter) ∧
    ∃ bytes, w.files.lookup staged = some bytes ∧
      site.serialize launch.effectiveDocument.entries = .ok bytes ∧
      launch.revision.effectiveHash = semanticHash bytes

/-- A staged file that is moved to its target is the committed one. -/
theorem StagedFor.committed {site : Site} {launch : PreparedLaunch} {staged : Artifact}
    {w' : World} {contents : List UInt8} (h : StagedFor site launch staged w)
    (hpath : launch.revision.runtimePath = .runtime (.config launch.revision.epoch))
    (hstaged : w.files.lookup staged = some contents)
    (hfile : w'.files.lookup (.config launch.revision.epoch) = some contents) :
    Committed site w' launch.revision launch.effectiveDocument := by
  obtain ⟨-, bytes, hbytes, hserialize, hhash⟩ := h
  obtain rfl : bytes = contents := Option.some.inj (hbytes.symm.trans hstaged)
  exact ⟨hpath, bytes, hfile, hserialize, hhash⟩

theorem StagedFor.congr {site : Site} {launch : PreparedLaunch} {staged : Artifact} {w' : World}
    (h : StagedFor site launch staged w)
    (hfile : w'.files.lookup staged = w.files.lookup staged) : StagedFor site launch staged w' :=
  ⟨h.1, hfile ▸ h.2⟩

/-- A staged file with the bytes of a prepared document. -/
theorem stagedFor_of_prepared {managed : Except Error String} {prepared : PreparedConfig}
    {staged : Artifact} {w' : World}
    (hprepared : snapshot.prepareFull options.site (fun _ => managed) epoch resolved.runtime =
      .ok prepared) (hstaged : StagedAt epoch prepared.bytes w w' staged) :
    StagedFor options.site (preparedLaunch spec epoch generation (.runtime (.config epoch))
      snapshot resolved prepared) staged w' := by
  obtain ⟨hserialize, hhash⟩ := ConfigSnapshot.prepare_serialized hprepared
  exact ⟨⟨_, hstaged.named⟩, prepared.bytes, hstaged.present, hserialize, hhash⟩

/-- `prepare_graceful`. -/
theorem prepareGraceful_spec (hcut : ∀ w', Quiet (ofEpoch epoch) noInstance w w' → cut w') :
    machine.wp cut (prepareGraceful options spec epoch snapshot resolved) (fun result w' =>
      Quiet (ofEpoch epoch) noInstance w w' ∧ ∀ prepared, result = .ok prepared →
        PreparedFrom options spec epoch 1 snapshot prepared.launch ∧
          StagedFor options.site prepared.launch prepared.fullStaged w') w := by
  unfold prepareGraceful
  refine wp_andThen prepareFull_spec ?_ ?_
  · rintro full _ ⟨rfl, managed, hfull⟩
    refine wp_andThen prepareBootstrap_spec ?_ ?_
    · rintro bootstrap _ rfl
      split
      · exact ⟨.refl w, fun _ hok => nomatch hok⟩
      split
      · exact ⟨.refl w, fun _ hok => nomatch hok⟩
      refine wp_andThen (stage_spec fun w' hw' => hcut w' hw'.ofStaged) ?_ ?_
      · rintro fullStaged w₁ ⟨hq₁, hstaged⟩
        have hstaged := hstaged fullStaged rfl
        refine wp_andThen (commitBootstrap_spec ⟨_, hstaged.named⟩ (by simp [hstaged.present])
          fun w' hw' => hcut w' (hq₁.ofStaged.trans hw')) ?_ ?_
        · rintro path w₂ ⟨hq₂, hpath⟩
          obtain ⟨rfl, hkept⟩ := hpath path rfl
          refine ⟨hq₁.ofStaged.trans hq₂, fun prepared hok => ?_⟩
          obtain rfl := Except.ok.inj hok
          exact ⟨⟨resolved, managed, full, hfull.symm, rfl⟩,
            (stagedFor_of_prepared hfull.symm hstaged).congr hkept⟩
        · rintro error w₂ ⟨hq₂, -⟩
          exact ⟨hq₁.ofStaged.trans hq₂, fun _ hok => nomatch hok⟩
      · rintro error w₁ ⟨hq₁, -⟩
        exact ⟨hq₁.ofStaged, fun _ hok => nomatch hok⟩
    · rintro error _ rfl
      exact ⟨.refl w, fun _ hok => nomatch hok⟩
  · rintro error _ ⟨rfl, -⟩
    exact ⟨.refl w, fun _ hok => nomatch hok⟩

end Nyanpasu.Manager
