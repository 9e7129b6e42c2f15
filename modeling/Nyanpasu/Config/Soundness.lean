import Nyanpasu.Config.Patch
import Nyanpasu.Config.Prepare

/-!
# Soundness of the classification

A change is called a noop, a patch or a reload only when everything outside the tables
of that class is the same in both documents, and then the process and the controller of
the running core still fit.
-/

namespace Nyanpasu.Config

/-- The report of `diff` describes two documents. -/
structure DiffSound (a b : Document) : Prop where
  empty_iff : diff a.entries b.entries = [] ↔ a = b
  /-- No reported path is another one or lies below it. -/
  incomparable : (diff a.entries b.entries).Pairwise fun e f => Incomparable e.path f.path
  /-- The documents agree everywhere else. -/
  agree : ∀ path, (∀ e ∈ diff a.entries b.entries, Incomparable e.path path) →
    valueAt (.mapping a.entries) path = valueAt (.mapping b.entries) path

/-- What two documents have in common when the change between them is a patch. -/
structure PatchSound (a b : Mapping) : Prop where
  roots : ∀ root, root ∉ patchFields → a.get root = b.get root
  tun : ∀ key, key ∉ tunPatchFields →
    valueAt (.mapping a) ["tun", key] = valueAt (.mapping b) ["tun", key]
  tuicServer : ∀ key, key ∉ tuicServerPatchFields →
    valueAt (.mapping a) ["tuic-server", key] = valueAt (.mapping b) ["tuic-server", key]
  /-- No key disappears from a mapping. -/
  kept : ∀ path key m, valueAt (.mapping b) path = some (.mapping m) →
    valueAt (.mapping a) (path ++ [key]) ≠ none → valueAt (.mapping b) (path ++ [key]) ≠ none

/-- What two documents have in common when the change between them is a reload. -/
structure ReloadSound (a b : Mapping) : Prop where
  roots : ∀ root, root ∉ reloadFields → a.get root = b.get root
  listen : dnsListen a = dnsListen b
  /-- `dns` is unchanged, a mapping in both, or a mapping in one and absent in the other. -/
  dns : a.get "dns" = b.get "dns" ∨
    (∃ m n, a.get "dns" = some (.mapping m) ∧ b.get "dns" = some (.mapping n)) ∨
    (∃ m, a.get "dns" = some (.mapping m) ∧ b.get "dns" = none) ∨
    (∃ n, a.get "dns" = none ∧ b.get "dns" = some (.mapping n))

/-- Two specs that need the same process. -/
structure SameProcess (a b : InstanceSpec) : Prop where
  kind : a.core.kind = b.core.kind
  binaryPath : a.core.binaryPath = b.core.binaryPath
  version : a.core.version = b.core.version
  features : a.core.features = b.core.features
  workingDir : a.workingDir = b.workingDir
  options : a.options = b.options

theorem diffSound (a b : Document) : DiffSound a b where
  empty_iff := diff_eq_nil_iff a b
  incomparable := diffValue_pairwise _ _
  agree _ h := diffValue_agree a.optionCanonical b.optionCanonical h

/-- `build_patch` patches or gives up. -/
theorem buildPatch_cases {ip : IpText} {desired : Mapping} {changes : List DiffEntry}
    {change : ConfigChange} (h : buildPatch ip desired changes = .ok change) :
    change = .switch ∨ ∃ patch projection, change = .patch patch projection := by
  rw [buildPatch] at h
  repeat' split at h
  all_goals cases h
  all_goals simp

/-- What `classify_documents` has checked for each answer. -/
theorem classifyDocuments_cases {ip : IpText} {a b : Mapping} {change : ConfigChange}
    (h : classifyDocuments ip a b = .ok change) :
    change = .switch ∨ dnsListen a = dnsListen b ∧
      (change = .noop ∧ diff a b = [] ∨
        diff a b ≠ [] ∧ (∃ patch projection, change = .patch patch projection) ∧
          (∀ e ∈ diff a b, patchable e = true) ∨
        diff a b ≠ [] ∧ change = .reload ∧ ∀ e ∈ diff a b, reloadable e = true) := by
  simp only [classifyDocuments] at h
  split at h
  · cases h
    exact Or.inl rfl
  · rename_i hdns
    rw [not_not] at hdns
    split at h
    · rename_i hempty
      cases h
      exact Or.inr ⟨hdns, Or.inl ⟨rfl, by simpa using hempty⟩⟩
    · rename_i hne
      have hne : diff a b ≠ [] := by simpa using hne
      split at h
      · rename_i hall
        refine (buildPatch_cases h).imp_right fun hpatch => ?_
        exact ⟨hdns, Or.inr (Or.inl ⟨hne, hpatch, List.all_eq_true.mp hall⟩)⟩
      · split at h
        · rename_i hall
          cases h
          exact Or.inr ⟨hdns, Or.inr (Or.inr ⟨hne, rfl, List.all_eq_true.mp hall⟩)⟩
        · cases h
          exact Or.inl rfl

/-- A noop is the absence of any change. -/
theorem classifyDocuments_noop_iff (ip : IpText) (a b : Document) :
    classifyDocuments ip a.entries b.entries = .ok .noop ↔ a = b := by
  constructor
  · intro h
    rcases classifyDocuments_cases h with h | ⟨_, ⟨_, hdiff⟩ | ⟨_, ⟨_, _, h⟩, _⟩ | ⟨_, h, _⟩⟩
    · cases h
    · exact (diff_eq_nil_iff a b).mp hdiff
    · cases h
    · cases h
  · rintro rfl
    simp [classifyDocuments, (diff_eq_nil_iff a a).mpr rfl]

/-- Documents whose changes all start elsewhere agree at a root. -/
theorem get_eq_of_roots {a b : Document} {root : String}
    (h : ∀ e ∈ diff a.entries b.entries, ∃ r path, e.path = r :: path ∧ r ≠ root) :
    a.entries.get root = b.entries.get root := by
  by_contra hne
  obtain ⟨e, he, hcomp⟩ := exists_change a b [root]
    (by rwa [valueAt_singleton, valueAt_singleton])
  obtain ⟨r, path, hpath, hroot⟩ := h e he
  exact hcomp (hpath ▸ incomparable_of_key_ne hroot path [])

/-- The keys of a nested struct outside its table do not change. -/
theorem valueAt_eq_of_unsupported {a b : Document} {root key : String} {allowed : List String}
    (hchanges : ∀ e ∈ diff a.entries b.entries, patchable e = true)
    (hroot : ∀ path, patchNestedPathIsSupported (root :: path) = true →
      ∃ k rest, path = k :: rest ∧ k ∈ allowed) (hkey : key ∉ allowed) :
    valueAt (.mapping a.entries) [root, key] = valueAt (.mapping b.entries) [root, key] := by
  by_contra hne
  obtain ⟨e, he, hcomp⟩ := exists_change a b _ hne
  obtain ⟨r, path, _, hpath, _, _, hsupported⟩ := root_of_patchable (hchanges e he)
  obtain rfl : r = root := by
    by_contra hroots
    exact hcomp (hpath ▸ incomparable_of_key_ne hroots path [key])
  obtain ⟨k, rest, rfl, hk⟩ := hroot path hsupported
  have hkeys : k ≠ key := fun heq => hkey (heq ▸ hk)
  exact hcomp (hpath ▸ incomparable_cons (incomparable_of_key_ne hkeys rest []))

theorem patchSound {a b : Document}
    (hchanges : ∀ e ∈ diff a.entries b.entries, patchable e = true) :
    PatchSound a.entries b.entries where
  roots root hroot := get_eq_of_roots fun e he => by
    obtain ⟨r, path, _, hpath, _, hmem, _⟩ := root_of_patchable (hchanges e he)
    exact ⟨r, path, hpath, fun heq => hroot (heq ▸ hmem)⟩
  tun key hkey := by
    refine valueAt_eq_of_unsupported hchanges (fun path hpath => ?_) hkey
    cases path with
    | nil => simp [patchNestedPathIsSupported] at hpath
    | cons k rest => exact ⟨k, rest, rfl, by simpa [patchNestedPathIsSupported] using hpath⟩
  tuicServer key hkey := by
    refine valueAt_eq_of_unsupported hchanges (fun path hpath => ?_) hkey
    cases path with
    | nil => simp [patchNestedPathIsSupported] at hpath
    | cons k rest => exact ⟨k, rest, rfl, by simpa [patchNestedPathIsSupported] using hpath⟩
  kept path key m hb ha hgone := by
    have hkey : Mapping.get m key = none := by
      rw [valueAt_append, hb] at hgone
      simpa using hgone
    obtain ⟨e, he, hnew⟩ :=
      diffValue_deletion a.optionCanonical b.optionCanonical ha hb hkey
    obtain ⟨_, _, value, _, hsome, _⟩ := root_of_patchable (hchanges e he)
    simp [hnew] at hsome

/-- A reloadable change names a root of the reload table and is not the whole of `dns`. -/
theorem root_of_reloadable {e : DiffEntry} (h : reloadable e = true) :
    ∃ root path, e.path = root :: path ∧ root ∈ reloadFields ∧ (root = "dns" → path ≠ []) := by
  obtain ⟨path, new⟩ := e
  cases path with
  | nil => simp [reloadable] at h
  | cons root path =>
    simp only [reloadable, List.head?_cons, Option.any_some, Bool.and_eq_true,
      List.contains_iff_mem, Bool.not_eq_true', Bool.and_eq_false_iff, decide_eq_false_iff_not,
      List.length_cons] at h
    refine ⟨root, path, rfl, h.1.1, fun hroot hpath => ?_⟩
    simp [hroot, hpath] at h

theorem reloadSound {a b : Document} (hlisten : dnsListen a.entries = dnsListen b.entries)
    (hchanges : ∀ e ∈ diff a.entries b.entries, reloadable e = true) :
    ReloadSound a.entries b.entries where
  roots root hroot := get_eq_of_roots fun e he => by
    obtain ⟨r, path, hpath, hmem, _⟩ := root_of_reloadable (hchanges e he)
    exact ⟨r, path, hpath, fun heq => hroot (heq ▸ hmem)⟩
  listen := hlisten
  dns := by
    by_cases hdns : a.entries.get "dns" = b.entries.get "dns"
    · exact Or.inl hdns
    · right
      obtain ⟨e, he, hcomp⟩ := exists_change a b ["dns"]
        (by rwa [valueAt_singleton, valueAt_singleton])
      obtain ⟨root, path, hpath, _, hlong⟩ := root_of_reloadable (hchanges e he)
      obtain rfl : root = "dns" := by
        by_contra hroots
        exact hcomp (hpath ▸ incomparable_of_key_ne hroots path [])
      obtain ⟨key, rest, rfl⟩ := List.exists_cons_of_ne_nil (hlong rfl)
      -- The change lies below `dns`, so the walk went through it.
      have hwalked := (diffValue_reported he).walked ["dns"] key rest hpath
      rw [optionAt_cons, optionAt_nil, optionAt_cons, optionAt_nil] at hwalked
      obtain ⟨hacase, hbcase⟩ := mapping_of_descends hwalked
      have hchild : ∀ m : Mapping, child (some (.mapping m)) "dns" = m.get "dns" := fun m => rfl
      rw [hchild] at hacase hbcase
      rcases hacase with ha | ⟨m, ha⟩
      · rcases hbcase with hb | ⟨n, hb⟩
        · exact absurd (ha.trans hb.symm) hdns
        · exact Or.inr (Or.inr ⟨n, ha, hb⟩)
      · rcases hbcase with hb | ⟨n, hb⟩
        · exact Or.inr (Or.inl ⟨m, ha, hb⟩)
        · exact Or.inl ⟨m, n, ha, hb⟩

section Prepared

variable {site : Site}

/-- A sequence of two steps succeeds when both do. -/
theorem bind_eq_ok {ε α β : Type} {x : Except ε α} {f : α → Except ε β} {b : β}
    (h : (x >>= f) = .ok b) : ∃ a, x = .ok a ∧ f a = .ok b := by
  cases x with
  | error e => cases h
  | ok a => exact ⟨a, rfl, h⟩

/-- A rewritten document has only the local controller of its platform. -/
theorem rewriteManagedController_get (platform : Platform) (document : Mapping)
    (endpoint : String) :
    (rewriteManagedController platform document endpoint).get "external-controller" = none := by
  cases platform <;> simp [rewriteManagedController, localField]

/-- A prepared document and the controller resolved from it. -/
theorem prepareFull_spec {snapshot : ConfigSnapshot} {endpoint : ℕ → Except Error String}
    {epoch : ℕ} {runtime : List RuntimeFeature} {prepared : PreparedConfig}
    (h : snapshot.prepareFull site endpoint epoch runtime = .ok prepared) :
    (runtime.contains .localIpc = true →
      prepared.document.entries.get "external-controller" = none) ∧
    resolveController site
      (if runtime.contains .localIpc then inspect site.platform prepared.document.entries
        else inspectHttp prepared.document.entries) = .ok prepared.controller := by
  rw [ConfigSnapshot.prepareFull, ConfigSnapshot.prepare] at h
  obtain ⟨document, hdocument, h⟩ := bind_eq_ok h
  obtain ⟨controller, hcontroller, h⟩ := bind_eq_ok h
  obtain ⟨bytes, _, h⟩ := bind_eq_ok h
  cases h
  refine ⟨fun hlocal => ?_, hcontroller⟩
  rw [managedDocument, if_pos hlocal] at hdocument
  cases hendpoint : endpoint epoch with
  | error e => simp [hendpoint, Except.map] at hdocument
  | ok path =>
    simp only [hendpoint, Except.map, Except.ok.injEq] at hdocument
    rw [← hdocument]
    exact Document.canonicalize_get_eq_none (rewriteManagedController_get _ _ _)

/-- Without an HTTP controller none is resolved. -/
theorem resolveController_http_none {document : Mapping} {controller : ResolvedController}
    (h : document.get "external-controller" = none) :
    resolveController site (inspectHttp document) ≠ .ok controller := by
  simp [resolveController, inspectHttp, strValue, h]

/-- Documents that agree on the controller fields have the same controller. -/
theorem controller_eq_of_agree {snapshotA snapshotB : ConfigSnapshot}
    {endpointA endpointB : ℕ → Except Error String} {epochA epochB : ℕ}
    {runtimeA runtimeB : List RuntimeFeature} {preparedA preparedB : PreparedConfig}
    (ha : snapshotA.prepareFull site endpointA epochA runtimeA = .ok preparedA)
    (hb : snapshotB.prepareFull site endpointB epochB runtimeB = .ok preparedB)
    (hagree : ∀ key ∈ controllerFields,
      preparedA.document.entries.get key = preparedB.document.entries.get key) :
    preparedA.controller = preparedB.controller := by
  obtain ⟨hrewroteA, hcontrollerA⟩ := prepareFull_spec ha
  obtain ⟨hrewroteB, hcontrollerB⟩ := prepareFull_spec hb
  have hstr : ∀ key ∈ controllerFields, strValue preparedA.document.entries key =
      strValue preparedB.document.entries key := by
    intro key hkey
    rw [strValue, strValue, hagree key hkey]
  have hinspect : inspect site.platform preparedA.document.entries =
      inspect site.platform preparedB.document.entries := by
    simp only [inspect, hstr "external-controller" (by decide),
      hstr "external-controller-pipe" (by decide), hstr "external-controller-unix" (by decide),
      hstr "secret" (by decide)]
  have hhttp : inspectHttp preparedA.document.entries =
      inspectHttp preparedB.document.entries := by
    simp only [inspectHttp, hstr "external-controller" (by decide), hstr "secret" (by decide)]
  have hget := hagree "external-controller" (by decide)
  by_cases hA : runtimeA.contains .localIpc = true
  · by_cases hB : runtimeB.contains .localIpc = true
    · rw [if_pos hA, hinspect] at hcontrollerA
      rw [if_pos hB, hcontrollerA] at hcontrollerB
      simpa using hcontrollerB
    · -- Only the first was rewritten, so the second has no HTTP controller to resolve.
      rw [if_neg hB] at hcontrollerB
      exact absurd hcontrollerB (resolveController_http_none (hget ▸ hrewroteA hA))
  · by_cases hB : runtimeB.contains .localIpc = true
    · rw [if_neg hA] at hcontrollerA
      exact absurd hcontrollerA (resolveController_http_none (hget.trans (hrewroteB hB)))
    · rw [if_neg hA, hhttp] at hcontrollerA
      rw [if_neg hB, hcontrollerA] at hcontrollerB
      simpa using hcontrollerB

/-- What `classify` has checked when it does not switch. -/
theorem classify_cases {ip : IpText} {debugOptions : InstanceOptions → String}
    {sourceA effectiveA sourceB effectiveB : Mapping} {specA specB : InstanceSpec}
    {change : ConfigChange}
    (h : classify ip debugOptions sourceA effectiveA specA sourceB effectiveB specB = .ok change)
    (hchange : change ≠ .switch) :
    processSpecChanged debugOptions specA specB = false ∧
      (change = .noop ∧ diff effectiveA effectiveB = [] ∨
        classifyDocuments ip effectiveA effectiveB = .ok change) := by
  simp only [classify] at h
  split at h
  · cases h
    exact absurd rfl hchange
  · rename_i hspec
    refine ⟨by simpa using hspec, ?_⟩
    split at h
    · split at h
      · rename_i hempty
        cases h
        rw [Bool.and_eq_true, List.isEmpty_iff, List.isEmpty_iff] at hempty
        exact Or.inl ⟨rfl, hempty.2⟩
      · cases h
        exact absurd rfl hchange
    · split at h
      · cases h
        exact absurd rfl hchange
      · exact Or.inr h

/-- A change that is not a switch leaves the controller fields alone. -/
theorem controllerFields_agree {ip : IpText} {a b : Document} {change : ConfigChange}
    (h : classifyDocuments ip a.entries b.entries = .ok change) (hchange : change ≠ .switch)
    {key : String} (hkey : key ∈ controllerFields) : a.entries.get key = b.entries.get key := by
  have hpatch : ∀ key ∈ controllerFields, key ∉ patchFields := by decide
  have hreload : ∀ key ∈ controllerFields, key ∉ reloadFields := by decide
  rcases classifyDocuments_cases h with h | ⟨hdns, ⟨_, hdiff⟩ | ⟨_, _, hall⟩ | ⟨_, _, hall⟩⟩
  · exact absurd h hchange
  · rw [(diff_eq_nil_iff a b).mp hdiff]
  · exact (patchSound hall).roots key (hpatch key hkey)
  · exact (reloadSound hdns hall).roots key (hreload key hkey)

/-- Specs that `process_spec_changed` accepts need the same process. -/
theorem sameProcess {debugOptions : InstanceOptions → String} {specA specB : InstanceSpec}
    (hdebug : debugOptions specA.options = debugOptions specB.options →
      specA.options = specB.options)
    (h : processSpecChanged debugOptions specA specB = false) : SameProcess specA specB := by
  simp only [processSpecChanged, Bool.or_eq_false_iff, decide_eq_false_iff_not, not_not] at h
  obtain ⟨⟨⟨⟨⟨hkind, hbinary⟩, hversion⟩, hfeatures⟩, hdir⟩, hoptions⟩ := h
  exact ⟨hkind, hbinary, hversion, hfeatures, hdir, hdebug hoptions⟩

end Prepared

/-- **Soundness of the classification.** The report of `diff` is exact, each class of
`classify_documents` bounds what changed, and `classify` keeps a process only when its
launch and its controller are the same. Two options are told apart by their debug text. -/
theorem classification_sound (ip : IpText) (site : Site)
    (debugOptions : InstanceOptions → String) :
    (∀ a b : Document, DiffSound a b) ∧
    (∀ a b : Document, classifyDocuments ip a.entries b.entries = .ok .noop ↔ a = b) ∧
    (∀ (a b : Document) (patch : ConfigPatch) (projection : RuntimeProjection),
      classifyDocuments ip a.entries b.entries = .ok (.patch patch projection) →
        PatchSound a.entries b.entries) ∧
    (∀ a b : Document, classifyDocuments ip a.entries b.entries = .ok .reload →
      ReloadSound a.entries b.entries) ∧
    ∀ (snapshotA snapshotB : ConfigSnapshot) (endpointA endpointB : ℕ → Except Error String)
      (epoch : ℕ) (runtimeA runtimeB : List RuntimeFeature) (preparedA preparedB : PreparedConfig)
      (specA specB : InstanceSpec) (change : ConfigChange),
      (debugOptions specA.options = debugOptions specB.options →
        specA.options = specB.options) →
      snapshotA.prepareFull site endpointA epoch runtimeA = .ok preparedA →
      snapshotB.prepareFull site endpointB epoch runtimeB = .ok preparedB →
      classify ip debugOptions snapshotA.document.entries preparedA.document.entries specA
        snapshotB.document.entries preparedB.document.entries specB = .ok change →
      change ≠ .switch →
        SameProcess specA specB ∧ preparedA.controller = preparedB.controller := by
  refine ⟨diffSound, classifyDocuments_noop_iff ip, ?_, ?_, ?_⟩
  · intro a b patch projection h
    exact patchSound (classifyDocuments_eq_patch h).1
  · intro a b h
    rcases classifyDocuments_cases h with h | ⟨hdns, ⟨h, _⟩ | ⟨_, ⟨_, _, h⟩, _⟩ | ⟨_, _, hall⟩⟩
    · cases h
    · cases h
    · cases h
    · exact reloadSound hdns hall
  · intro snapshotA snapshotB endpointA endpointB epoch runtimeA runtimeB preparedA preparedB
      specA specB change hdebug ha hb h hchange
    obtain ⟨hspec, hdocuments⟩ := classify_cases h hchange
    refine ⟨sameProcess hdebug hspec, controller_eq_of_agree ha hb fun key hkey => ?_⟩
    rcases hdocuments with ⟨_, hdiff⟩ | h
    · rw [(diff_eq_nil_iff _ _).mp hdiff]
    · exact controllerFields_agree h hchange hkey

/-- A snapshot that is reached over HTTP, in a given mode. -/
def httpSnapshot (mode : String) : ConfigSnapshot where
  sourcePath := .external "source.yaml"
  document :=
    .canonicalize [("external-controller", .string "127.0.0.1:9090"), ("mode", .string mode)]
  sourceHash := ""

/-- A site that serializes the documents of `httpSnapshot`. -/
def httpSite : Site where
  platform := .unix
  http address := .ok (.http ("http://" ++ address ++ "/"))
  serialize document :=
    match document.get "mode" with
    | some (.string mode) =>
        .ok ("external-controller: 127.0.0.1:9090\nmode: " ++ mode ++ "\n").toUTF8.data.toList
    | _ => .error (.yaml "not an `httpSnapshot`")

/-- A Mihomo launch with default options. -/
def mihomoSpec : InstanceSpec where
  core := ⟨.mihomo, "mihomo", none, []⟩
  configPath := .external "source.yaml"
  workingDir := "."
  pidFile := none
  options :=
    { startupTimeout := 30000000000
      health := ⟨250000000, 1000000000, 3, 1, 0⟩
      restartPolicy := "OnFailure \x7b max_restarts: 5 \x7d"
      backoff := "Backoff" }

/-- The document prepared from an `httpSnapshot`. -/
def httpPrepared (mode : String) : Except Error PreparedConfig :=
  (httpSnapshot mode).prepareFull httpSite (fun _ => .error .controllerMissing) 1 []

/-- Two modes of the same config are patched over the same controller. -/
theorem classification_sound_modes :
    ∃ preparedA preparedB, httpPrepared "rule" = .ok preparedA ∧
      httpPrepared "direct" = .ok preparedB ∧
      PatchSound preparedA.document.entries preparedB.document.entries ∧
      SameProcess mihomoSpec mihomoSpec ∧ preparedA.controller = preparedB.controller := by
  have hok : ∀ x : Except Error PreparedConfig, (h : x.toOption.isSome = true) →
      x = .ok (x.toOption.get h) := by
    intro x h
    cases x with
    | error e => simp [Except.toOption] at h
    | ok prepared => rfl
  have hA := hok (httpPrepared "rule") (by decide +kernel)
  have hB := hok (httpPrepared "direct") (by decide +kernel)
  obtain ⟨_, _, hpatch, _, hprepared⟩ :=
    classification_sound plainIpText httpSite fun _ => "InstanceOptions"
  refine ⟨_, _, hA, hB, ?_, ?_⟩
  · exact hpatch _ _ ⟨[("mode", .leaf (.scalar (.tunnelMode .direct)))]⟩
      ⟨[(["mode"], .string "direct")]⟩ (by decide +kernel)
  · exact hprepared _ _ _ _ 1 [] [] _ _ mihomoSpec mihomoSpec
      (.patch ⟨[("mode", .leaf (.scalar (.tunnelMode .direct)))]⟩
        ⟨[(["mode"], .string "direct")]⟩) (fun _ => rfl) hA hB (by decide +kernel) (by simp)

end Nyanpasu.Config
