import Nyanpasu.Lib.Numeral
import Nyanpasu.Lib.Path
import Nyanpasu.Config.Prepare

/-!
# Managed control endpoints

A core that is started with the local transport listens on an endpoint of its epoch: the default in
the runtime directory, or the template of the options with the epoch put into it. On Unix the
directory of the endpoint is resolved, so that only the file name is left of what was written.
-/

namespace Nyanpasu.Config

/-- The placeholder of a template. -/
def epochMark : Text := "\x7bepoch\x7d".toList

/-- `std::fs::canonicalize` of a directory. -/
inductive Resolved where
  | failed (error : Text)
  | notUtf8
  | dir (path : RealDir)
  deriving DecidableEq

/-- `validate_controller_template`. -/
def validateControllerTemplate : Option Text → Except Error Unit
  | some template =>
      if Text.containsText epochMark template then .ok ()
      else .error (.invalidManagerOptions
        "managed controller_template must contain `\x7bepoch\x7d`")
  | none => .ok ()

/-- The path that a Unix endpoint is written as. -/
def candidate (runtimeDir : RealDir) (endpoint : Text) : Text :=
  if Text.isAbsolute endpoint then endpoint else Text.joinPath runtimeDir.text endpoint

/-- `managed_unix_endpoint`. -/
def managedUnixEndpoint (resolve : Text → Resolved) (runtimeDir : RealDir) (endpoint : Text) :
    Except Error Text :=
  match Text.parent (candidate runtimeDir endpoint) with
  | none => .error (.invalidManagerOptions "managed Unix controller has no parent directory")
  | some parent =>
      match resolve parent with
      | .failed error => .error (.invalidManagerOptions ("managed Unix controller parent `" ++
          String.ofList parent ++ "` cannot be canonicalized: " ++ String.ofList error))
      | .notUtf8 => .error (.invalidManagerOptions "managed Unix controller path is not UTF-8")
      | .dir canonicalParent =>
          if !runtimeDir.isPrefixOf canonicalParent then
            .error (.invalidManagerOptions ("managed Unix controller `" ++
              String.ofList (candidate runtimeDir endpoint) ++ "` escapes runtime directory `" ++
              String.ofList runtimeDir.text ++ "`"))
          else
            match Text.fileName (candidate runtimeDir endpoint) with
            | none => .error (.invalidManagerOptions
                "managed Unix controller must name a socket file")
            | some name => .ok (Text.joinPath canonicalParent.text name)

/-- A template with the epoch in it. -/
def fillTemplate (template : Text) (epoch : ℕ) : Text :=
  Text.replace epochMark (Nat.toDigits 10 epoch) template

/-- `managed_endpoint_path`. -/
def managedEndpointPath (platform : Platform) (resolve : Text → Resolved) (runtimeDir : RealDir)
    (template : Option Text) (epoch : ℕ) : Except Error Text := do
  validateControllerTemplate template
  match template, platform with
  | some template, .windows => .ok (fillTemplate template epoch)
  | some template, .unix => managedUnixEndpoint resolve runtimeDir (fillTemplate template epoch)
  | none, .windows => .ok ("\\\\.\\pipe\\nyanpasu\\core-".toList ++ Nat.toDigits 10 epoch)
  | none, .unix => .ok (Text.joinPath runtimeDir.text
      ("core-".toList ++ (Nat.toDigits 10 epoch ++ ".sock".toList)))

/-- On Unix an endpoint is a file of a directory inside the runtime directory. -/
def InRuntimeDir (platform : Platform) (runtimeDir : RealDir) (endpoint : Text) : Prop :=
  platform = .unix → ∃ (dir : RealDir) (name : FileName), runtimeDir <+: dir ∧
    endpoint = Text.joinPath dir.text name.text

/-- The epoch takes part in the file name of a template. -/
def EpochNamed (template : Text) : Prop :=
  ∃ name, template.components.getLast? = some name ∧ Text.containsText epochMark name

/-- The directory that the endpoint of an epoch is in. -/
def resolvedParent (resolve : Text → Resolved) (runtimeDir : RealDir) (template : Text)
    (epoch : ℕ) : Option Resolved :=
  (Text.parent (candidate runtimeDir (fillTemplate template epoch))).map resolve

/-- On Unix the epoch of a template is in its file name, or the directories of the two epochs are
resolved to different ones. -/
def Separated (platform : Platform) (resolve : Text → Resolved) (runtimeDir : RealDir)
    (template : Option Text) (epoch other : ℕ) : Prop :=
  platform = .unix → ∀ text ∈ template, EpochNamed text ∨
    resolvedParent resolve runtimeDir text epoch ≠ resolvedParent resolve runtimeDir text other

section Filling

variable {template : Text} {epoch other : ℕ}

theorem epochMark_ne_nil : epochMark ≠ [] := by decide

theorem notMem_toDigits {c : Char} (h : c.isDigit = false) (n : ℕ) : c ∉ Nat.toDigits 10 n := by
  intro hmem
  have := Nat.isDigit_of_mem_toDigits (by decide) (by decide) hmem
  rw [h] at this
  cases this

/-- Different epochs fill a template differently. -/
theorem fillTemplate_injective (h : Text.containsText epochMark template = true)
    (heq : fillTemplate template epoch = fillTemplate template other) : epoch = other :=
  Text.toDigits_injective (Text.replace_injective epochMark_ne_nil h heq)

theorem components_fillTemplate (template : Text) (epoch : ℕ) :
    (fillTemplate template epoch).components =
      template.components.map (fillTemplate · epoch) :=
  Text.components_replace epochMark_ne_nil Nat.toDigits_ne_nil (by decide)
    (notMem_toDigits (by decide) epoch) (by decide) (notMem_toDigits (by decide) epoch) template

/-- A template with the placeholder has a last component. -/
theorem exists_last (h : Text.containsText epochMark template = true) :
    ∃ name, template.components.getLast? = some name := by
  obtain ⟨piece, hpiece, hcontains⟩ :=
    Text.exists_piece_contains epochMark_ne_nil (by decide : '/' ∉ epochMark) h
  have hmem : piece ∈ template.components := by
    rw [Text.components, List.mem_filter]
    exact ⟨hpiece, by rw [Text.isBlank_of_contains epochMark_ne_nil (by decide) hcontains]; rfl⟩
  exact ⟨_, List.getLast?_eq_some_getLast (List.ne_nil_of_mem hmem)⟩

/-- What is left of a filled template in its candidate path. -/
theorem getLast_candidate {runtimeDir : RealDir} {name : Text}
    (h : template.components.getLast? = some name) :
    (candidate runtimeDir (fillTemplate template epoch)).components.getLast? =
      some (fillTemplate name epoch) := by
  have hlast : (fillTemplate template epoch).components.getLast? =
      some (fillTemplate name epoch) := by
    rw [components_fillTemplate, List.getLast?_map, h, Option.map_some]
  rw [candidate]
  split
  · exact hlast
  · rw [RealDir.components_joinPath, List.getLast?_append, hlast, Option.some_or]

end Filling

section Endpoints

variable {platform : Platform} {resolve : Text → Resolved} {runtimeDir : RealDir}
  {template : Text} {epoch other : ℕ} {endpoint endpoint' : Text}

/-- What an accepted Unix endpoint is made of. -/
theorem managedUnixEndpoint_ok (h : managedUnixEndpoint resolve runtimeDir endpoint =
    .ok endpoint') : ∃ (dir : RealDir) (name : FileName),
      (Text.parent (candidate runtimeDir endpoint)).map resolve = some (.dir dir) ∧
      runtimeDir <+: dir ∧
      (candidate runtimeDir endpoint).components.getLast? = some name.text ∧
      endpoint' = Text.joinPath dir.text name.text := by
  unfold managedUnixEndpoint at h
  split at h
  · cases h
  next parent hparent =>
    split at h
    · cases h
    · cases h
    next dir hdir =>
      split at h
      · cases h
      next hinside =>
        split at h
        · cases h
        next text hname =>
          obtain ⟨name, rfl, hlast⟩ := FileName.of_fileName hname
          refine ⟨dir, name, ?_, ?_, hlast, (Except.ok.inj h).symm⟩
          · rw [hparent, Option.map_some, hdir]
          · rw [Bool.not_eq_true, Bool.not_eq_false'] at hinside
            exact List.isPrefixOf_iff_prefix.mp hinside

/-- The endpoints of two epochs differ exactly when their file names or directories do. -/
theorem managedUnixEndpoint_ne_iff (hmark : Text.containsText epochMark template = true)
    (hne : epoch ≠ other)
    (h : managedUnixEndpoint resolve runtimeDir (fillTemplate template epoch) = .ok endpoint)
    (h' : managedUnixEndpoint resolve runtimeDir (fillTemplate template other) = .ok endpoint') :
    endpoint ≠ endpoint' ↔ EpochNamed template ∨
      resolvedParent resolve runtimeDir template epoch ≠
        resolvedParent resolve runtimeDir template other := by
  obtain ⟨dir, name, hdir, -, hname, rfl⟩ := managedUnixEndpoint_ok h
  obtain ⟨dir', name', hdir', -, hname', rfl⟩ := managedUnixEndpoint_ok h'
  obtain ⟨last, hlast⟩ := exists_last hmark
  rw [getLast_candidate hlast, Option.some.injEq] at hname hname'
  rw [resolvedParent, resolvedParent, hdir, hdir']
  constructor
  · intro hdiffer
    by_cases hcontains : Text.containsText epochMark last = true
    · exact .inl ⟨last, hlast, hcontains⟩
    · -- the file names are the same text, so the directories differ
      refine .inr fun hsame => hdiffer ?_
      rw [Bool.not_eq_true] at hcontains
      rw [fillTemplate, Text.replace_eq_self epochMark_ne_nil hcontains] at hname hname'
      rw [Option.some.injEq, Resolved.dir.injEq] at hsame
      rw [hsame, ← hname, ← hname']
  · rintro hcond hsame
    obtain ⟨hdirs, hnames⟩ := RealDir.joinPath_injective hsame
    rcases hcond with ⟨text, htext, hcontains⟩ | hdiffer
    · obtain rfl := Option.some.inj (hlast.symm.trans htext)
      rw [hnames] at hname
      exact hne (fillTemplate_injective hcontains (hname.trans hname'.symm))
    · exact hdiffer (by rw [hdirs])

theorem inRuntimeDir_of_unix (h : managedUnixEndpoint resolve runtimeDir endpoint =
    .ok endpoint') : InRuntimeDir platform runtimeDir endpoint' := by
  obtain ⟨dir, name, -, hinside, -, hendpoint⟩ := managedUnixEndpoint_ok h
  exact fun _ => ⟨dir, name, hinside, hendpoint⟩

/-- A template is accepted with the placeholder only. -/
theorem contains_of_validate (h : validateControllerTemplate (some template) = .ok ()) :
    Text.containsText epochMark template = true := by
  rw [validateControllerTemplate] at h
  split at h
  · assumption
  · cases h

/-- The file of the default endpoint. -/
def defaultName (epoch : ℕ) : FileName where
  text := "core-".toList ++ (Nat.toDigits 10 epoch ++ ".sock".toList)
  ne_nil := by simp
  noSlash := by
    rw [List.mem_append, List.mem_append, not_or, not_or]
    exact ⟨by decide, notMem_toDigits (by decide) epoch, by decide⟩
  ne_dot := by simp
  ne_dots := by simp

theorem defaultName_injective (h : defaultName epoch = defaultName other) : epoch = other := by
  have htext := congrArg FileName.text h
  rw [defaultName, defaultName, List.append_cancel_left_eq, List.append_cancel_right_eq] at htext
  exact Text.toDigits_injective htext

end Endpoints

/-- **Control endpoints.** Two epochs for which the endpoint is accepted have different endpoints
inside the runtime directory exactly when the epoch of a Unix template is in its file name or its
two directories are different. -/
theorem endpoints_iff (platform : Platform) (resolve : Text → Resolved) (runtimeDir : RealDir)
    (template : Option Text) {epoch other : ℕ} {endpoint endpoint' : Text} (hne : epoch ≠ other)
    (h : managedEndpointPath platform resolve runtimeDir template epoch = .ok endpoint)
    (h' : managedEndpointPath platform resolve runtimeDir template other = .ok endpoint') :
    (endpoint ≠ endpoint' ∧ InRuntimeDir platform runtimeDir endpoint ∧
      InRuntimeDir platform runtimeDir endpoint') ↔
      Separated platform resolve runtimeDir template epoch other := by
  unfold managedEndpointPath at h h'
  cases hvalid : validateControllerTemplate template with
  | error error =>
    rw [hvalid] at h
    cases h
  | ok accepted =>
  simp only [hvalid, bind, Except.bind] at h h'
  cases template with
  | some template =>
    have hmark := contains_of_validate hvalid
    cases platform with
    | windows =>
      cases h
      cases h'
      refine iff_of_true ⟨fun heq => hne (fillTemplate_injective hmark heq), ?_, ?_⟩ ?_
      · rintro ⟨⟩
      · rintro ⟨⟩
      · rintro ⟨⟩
    | unix =>
      have hdiffer := managedUnixEndpoint_ne_iff hmark hne h h'
      constructor
      · rintro ⟨hends, -, -⟩ - text htext
        obtain rfl := Option.some.inj htext
        exact hdiffer.mp hends
      · intro hseparated
        exact ⟨hdiffer.mpr (hseparated rfl template rfl), inRuntimeDir_of_unix h,
          inRuntimeDir_of_unix h'⟩
  | none =>
    cases platform with
    | windows =>
      cases h
      cases h'
      refine iff_of_true ⟨fun heq => hne ?_, ?_, ?_⟩ ?_
      · exact Text.toDigits_injective (List.append_cancel_left heq)
      · rintro ⟨⟩
      · rintro ⟨⟩
      · rintro ⟨⟩
    | unix =>
      cases h
      cases h'
      refine iff_of_true ⟨fun heq => hne ?_, fun _ => ?_, fun _ => ?_⟩ ?_
      · have hnames : Text.joinPath runtimeDir.text (defaultName epoch).text =
            Text.joinPath runtimeDir.text (defaultName other).text := heq
        exact defaultName_injective (RealDir.joinPath_injective hnames).2
      · exact ⟨runtimeDir, defaultName epoch, List.prefix_rfl, rfl⟩
      · exact ⟨runtimeDir, defaultName other, List.prefix_rfl, rfl⟩
      · rintro - text ⟨⟩

/-- A runtime directory at the root. -/
def runDir : RealDir := [⟨"run".toList, by decide, by decide, by decide, by decide⟩]

/-- A file system with the directories `/run/0`, `/run/1` and `/run/2`. -/
def levels (path : Text) : Resolved :=
  if ["/run".toList, "/run/0/..".toList, "/run/1/..".toList, "/run/2/..".toList].contains path then
    .dir runDir
  else .failed "No such file or directory (os error 2)".toList

/-- The sockets of two epochs under a template that names the epoch last. -/
theorem endpoints_named : (1 : ℕ) ≠ 2 ∧ "/run/core-1.sock".toList ≠ "/run/core-2.sock".toList ∧
    InRuntimeDir .unix runDir "/run/core-1.sock".toList ∧
    InRuntimeDir .unix runDir "/run/core-2.sock".toList := by
  have hone : managedEndpointPath .unix levels runDir (some "core-\x7bepoch\x7d.sock".toList) 1 =
      .ok "/run/core-1.sock".toList := by rfl
  have htwo : managedEndpointPath .unix levels runDir (some "core-\x7bepoch\x7d.sock".toList) 2 =
      .ok "/run/core-2.sock".toList := by rfl
  refine ⟨by decide, (endpoints_iff .unix levels runDir _ (by decide) hone htwo).mpr ?_⟩
  rintro - text ⟨⟩
  exact .inl ⟨"core-\x7bepoch\x7d.sock".toList, by decide, by decide⟩

/-- A template in which the directory of the epoch is left again: accepted for every epoch that has
a directory, and every epoch gets the same socket. -/
theorem epoch_resolved_away :
    managedEndpointPath .unix levels runDir (some "\x7bepoch\x7d/../core.sock".toList) 0 =
      .ok "/run/core.sock".toList ∧
    managedEndpointPath .unix levels runDir (some "\x7bepoch\x7d/../core.sock".toList) 1 =
      .ok "/run/core.sock".toList ∧
    managedEndpointPath .unix levels runDir (some "\x7bepoch\x7d/../core.sock".toList) 2 =
      .ok "/run/core.sock".toList ∧
    ¬∀ (platform : Platform) (resolve : Text → Resolved) (runtimeDir : RealDir)
      (template : Option Text) (epoch other : ℕ) (endpoint endpoint' : Text),
      (∃ first, managedEndpointPath platform resolve runtimeDir template 0 = .ok first) →
      epoch ≠ other →
      managedEndpointPath platform resolve runtimeDir template epoch = .ok endpoint →
      managedEndpointPath platform resolve runtimeDir template other = .ok endpoint' →
      endpoint ≠ endpoint' ∧ InRuntimeDir platform runtimeDir endpoint ∧
        InRuntimeDir platform runtimeDir endpoint' := by
  refine ⟨by rfl, by rfl, by rfl, fun h => ?_⟩
  exact (h .unix levels runDir (some "\x7bepoch\x7d/../core.sock".toList) 1 2
    "/run/core.sock".toList "/run/core.sock".toList ⟨_, by rfl⟩ (by decide) (by rfl) (by rfl)).1 rfl

end Nyanpasu.Config
