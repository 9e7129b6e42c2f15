import Nyanpasu.Config.Restore
import Nyanpasu.Config.Soundness

/-!
# What a core is started from

The effective document differs from its source in the keys of the controller alone, and only
when the manager owns the endpoint. It is determined by the source, the features and the
host of the controller, and preparing it once more gives it back.
-/

namespace Nyanpasu.Config

/-- The fields that `rewrite_managed_controller` removes or sets. -/
def rewrittenFields : List String :=
  ["external-controller", "external-controller-pipe", "external-controller-unix"]

/-- The host of a local endpoint. -/
def localHost : Platform → String → Host
  | .windows, path => .namedPipe path
  | .unix, path => .unixSocket path

/-- What an effective document and its controller say of the source. -/
structure Effective (site : Site) (runtime : List RuntimeFeature) (source effective : Document)
    (controller : ResolvedController) : Prop where
  rest : ∀ key ∉ rewrittenFields, effective.entries.get key = source.entries.get key
  secret : controller.secret = strValue source.entries "secret"
  /-- Without an endpoint of its own the manager runs the source as it is. -/
  plain : runtime.contains .localIpc = false → effective = source ∧
    ∃ address, strValue source.entries "external-controller" = some address ∧
      site.http (probeAddress address) = .ok controller.host
  /-- With one, the endpoint is the only controller that the core has. -/
  managed : runtime.contains .localIpc = true → ∃ path,
    effective.entries.get (localField site.platform) = some (.string path) ∧
      (∀ key ∈ rewrittenFields, key ≠ localField site.platform →
        effective.entries.get key = none) ∧
      controller.host = localHost site.platform path

section Rewriting

variable {platform : Platform} {m : Mapping} {key path : String}

theorem localField_mem (platform : Platform) : localField platform ∈ rewrittenFields := by
  cases platform <;> decide

theorem secret_notMem : "secret" ∉ rewrittenFields := by decide

/-- What `rewrite_managed_controller` leaves at a key. -/
theorem get_rewriteManagedController (platform : Platform) (m : Mapping) (path key : String) :
    (rewriteManagedController platform m path).get key =
      if key = localField platform then some (.string path)
      else if key ∈ rewrittenFields then none
      else m.get key := by
  have hlocal := localField_mem platform
  simp only [rewriteManagedController, Mapping.get_insert, Mapping.get_remove]
  by_cases heq : key = localField platform
  · simp [heq]
  · simp only [heq, if_false, rewrittenFields, List.mem_cons, List.not_mem_nil, or_false]
    by_cases hunix : key = "external-controller-unix"
    · simp [hunix]
    · by_cases hpipe : key = "external-controller-pipe"
      · simp [hpipe]
      · by_cases hhttp : key = "external-controller"
        · simp [hhttp]
        · simp [hunix, hpipe, hhttp]

end Rewriting

section Preparing

variable {site : Site} {snapshot : ConfigSnapshot} {endpoint : ℕ → Except Error String} {epoch : ℕ}
  {runtime : List RuntimeFeature} {prepared : PreparedConfig} {source effective : Document}
  {controller : ResolvedController}

/-- The controller of a document that was rewritten is the endpoint. -/
theorem resolve_rewritten {document : Mapping} {path : String}
    (hlocal : document.get (localField site.platform) = some (.string path))
    (hother : ∀ key ∈ rewrittenFields, key ≠ localField site.platform → document.get key = none)
    (hresolved : resolveController site (inspect site.platform document) = .ok controller) :
    controller = ⟨localHost site.platform path, strValue document "secret"⟩ := by
  have hhttp : strValue document "external-controller" = none := by
    have hnone := hother "external-controller" (by decide) (by cases site.platform <;> decide)
    simp [strValue, hnone]
  have hvalue : strValue document (localField site.platform) =
      if path = "" then none else some path := by
    by_cases hempty : path = ""
    · simp [strValue, hlocal, Value.asStr, hempty]
    · simp [strValue, hlocal, Value.asStr, hempty]
  by_cases hempty : path = ""
  · rw [if_pos hempty] at hvalue
    cases hplatform : site.platform with
    | windows =>
      rw [hplatform] at hvalue hresolved
      simp only [localField] at hvalue
      simp [resolveController, inspect, hvalue, hhttp] at hresolved
    | unix =>
      rw [hplatform] at hvalue hresolved
      simp only [localField] at hvalue
      simp [resolveController, inspect, hvalue, hhttp] at hresolved
  · rw [if_neg hempty] at hvalue
    cases hplatform : site.platform with
    | windows =>
      rw [hplatform] at hvalue hresolved
      simp only [localField] at hvalue
      simp only [resolveController, inspect, hvalue, Option.map_some, Option.some_or,
        Except.ok.injEq] at hresolved
      exact hresolved.symm
    | unix =>
      rw [hplatform] at hvalue hresolved
      simp only [localField] at hvalue
      simp only [resolveController, inspect, hvalue, Option.map_some, Option.some_or,
        Except.ok.injEq] at hresolved
      exact hresolved.symm

/-- The controller of a document that is run as it is comes from its HTTP address. -/
theorem resolve_plain {document : Mapping}
    (hresolved : resolveController site (inspectHttp document) = .ok controller) :
    controller.secret = strValue document "secret" ∧
      ∃ address, strValue document "external-controller" = some address ∧
        site.http (probeAddress address) = .ok controller.host := by
  cases hvalue : strValue document "external-controller" with
  | none => simp [resolveController, inspectHttp, hvalue] at hresolved
  | some address =>
    simp only [resolveController, inspectHttp, hvalue, Option.map_some] at hresolved
    cases hhost : site.http (probeAddress address) with
    | error error => simp [hhost, Except.map] at hresolved
    | ok host =>
      simp only [hhost, Except.map, Except.ok.injEq] at hresolved
      obtain rfl := hresolved
      exact ⟨rfl, address, rfl, hhost⟩

/-- What a successful preparation prepares. -/
theorem prepared_effective
    (h : snapshot.prepareFull site endpoint epoch runtime = .ok prepared) :
    Effective site runtime snapshot.document prepared.document prepared.controller ∧
      (runtime.contains .localIpc = true → ∃ path, endpoint epoch = .ok path ∧
        prepared.controller.host = localHost site.platform path) := by
  obtain ⟨document, hdocument, hprepared, hcontroller⟩ := ConfigSnapshot.prepare_eq_ok h
  rw [if_neg Bool.false_ne_true, managedDocument] at hdocument
  have hregular := regular_of_canonical snapshot.document.canonical
  cases hruntime : runtime.contains .localIpc with
  | false =>
    rw [hruntime, if_neg Bool.false_ne_true] at hdocument hcontroller
    obtain rfl := Except.ok.inj hdocument
    have hsame : prepared.document = snapshot.document := by
      rw [hprepared]
      refine Document.ext_entries (Mapping.ext_of_canonical (Document.canonical _)
        snapshot.document.canonical fun key => ?_)
      exact hregular.canonicalize_get key
    rw [hsame] at hcontroller
    obtain ⟨hsecret, haddress⟩ := resolve_plain hcontroller
    refine ⟨⟨fun key _ => by rw [hsame], hsecret, fun _ => ⟨hsame, haddress⟩, fun heq => ?_⟩,
      fun heq => ?_⟩
    · rw [hruntime] at heq
      cases heq
    · cases heq
  | true =>
    rw [hruntime, if_pos rfl] at hdocument hcontroller
    cases hendpoint : endpoint epoch with
    | error error => simp [hendpoint, Except.map] at hdocument
    | ok path =>
      rw [hendpoint] at hdocument
      obtain rfl := Except.ok.inj hdocument
      have hget : ∀ key, prepared.document.entries.get key =
          if key = localField site.platform then some (.string path)
          else if key ∈ rewrittenFields then none
          else snapshot.document.entries.get key := by
        intro key
        rw [hprepared, (hregular.rewriteManagedController _ _).canonicalize_get,
          get_rewriteManagedController]
      have hlocal : prepared.document.entries.get (localField site.platform) =
          some (.string path) := by
        rw [hget, if_pos rfl]
      have hother : ∀ key ∈ rewrittenFields, key ≠ localField site.platform →
          prepared.document.entries.get key = none := by
        intro key hkey hne
        rw [hget, if_neg hne, if_pos hkey]
      have hrest : ∀ key ∉ rewrittenFields,
          prepared.document.entries.get key = snapshot.document.entries.get key := by
        intro key hkey
        have hne : key ≠ localField site.platform := by
          rintro rfl
          exact hkey (localField_mem site.platform)
        rw [hget, if_neg hne, if_neg hkey]
      have hresolved := resolve_rewritten hlocal hother hcontroller
      refine ⟨⟨hrest, ?_, fun heq => ?_, fun _ => ⟨path, hlocal, hother, ?_⟩⟩,
        fun _ => ⟨path, rfl, ?_⟩⟩
      · rw [hresolved, strValue, strValue, hrest _ secret_notMem]
      · rw [hruntime] at heq
        cases heq
      · rw [hresolved]
      · rw [hresolved]

theorem localHost_injective (platform : Platform) {path path' : String}
    (h : localHost platform path = localHost platform path') : path = path' := by
  cases platform with
  | windows => exact Host.namedPipe.inj h
  | unix => exact Host.unixSocket.inj h

/-- The effective document is determined by the source, the features and the endpoint. -/
theorem Effective.unique {effective' : Document} {controller' : ResolvedController}
    (h : Effective site runtime source effective controller)
    (h' : Effective site runtime source effective' controller')
    (hhost : runtime.contains .localIpc = true → controller.host = controller'.host) :
    effective = effective' := by
  cases hruntime : runtime.contains .localIpc with
  | false => rw [(h.plain hruntime).1, (h'.plain hruntime).1]
  | true =>
    obtain ⟨path, hlocal, hother, hpath⟩ := h.managed hruntime
    obtain ⟨path', hlocal', hother', hpath'⟩ := h'.managed hruntime
    have hsame : path = path' := by
      refine localHost_injective site.platform ?_
      rw [← hpath, ← hpath', hhost hruntime]
    refine Document.ext_entries (Mapping.ext_of_canonical effective.canonical effective'.canonical
      fun key => ?_)
    by_cases hkey : key ∈ rewrittenFields
    · by_cases heq : key = localField site.platform
      · rw [heq, hlocal, hlocal', hsame]
      · rw [hother key hkey heq, hother' key hkey heq]
    · rw [h.rest key hkey, h'.rest key hkey]

/-- What makes a preparation succeed. -/
theorem ConfigSnapshot.prepareFull_of {document : Mapping} {d : Document} {bytes : List UInt8}
    (hdocument : managedDocument site endpoint epoch (runtime.contains .localIpc)
      snapshot.document.entries = .ok document)
    (hcanonical : Document.canonicalize document = d)
    (hcontroller : resolveController site (if runtime.contains .localIpc
      then inspect site.platform d.entries else inspectHttp d.entries) = .ok controller)
    (hbytes : site.serialize d.entries = .ok bytes) :
    snapshot.prepareFull site endpoint epoch runtime =
      .ok ⟨bytes, d, controller, runtime.contains .localIpc, snapshot.sourceHash,
        semanticHash bytes⟩ := by
  subst hcanonical
  simp only [ConfigSnapshot.prepareFull, ConfigSnapshot.prepare, Bool.false_eq_true, if_false,
    hdocument, hcontroller, hbytes, bind, Except.bind, pure, Except.pure]

/-- The fields of a prepared document that are not computed from it. -/
theorem prepareFull_made (h : snapshot.prepareFull site endpoint epoch runtime = .ok prepared) :
    prepared.rewroteController = runtime.contains .localIpc ∧
      prepared.sourceHash = snapshot.sourceHash := by
  obtain ⟨document, hdocument, hcanonical, hcontroller⟩ := ConfigSnapshot.prepare_eq_ok h
  obtain ⟨hbytes, -⟩ := ConfigSnapshot.prepare_serialized h
  rw [if_neg Bool.false_ne_true] at hdocument
  have hmade := ConfigSnapshot.prepareFull_of hdocument hcanonical.symm hcontroller hbytes
  have hsame := Except.ok.inj (h.symm.trans hmade)
  exact ⟨congrArg PreparedConfig.rewroteController hsame, congrArg PreparedConfig.sourceHash hsame⟩

/-- Rewriting the controller of an effective document changes nothing. -/
theorem canonicalize_effective {path : String}
    (hlocal : effective.entries.get (localField site.platform) = some (.string path))
    (hother : ∀ key ∈ rewrittenFields, key ≠ localField site.platform →
      effective.entries.get key = none) :
    Document.canonicalize (rewriteManagedController site.platform effective.entries path) =
      effective := by
  refine Document.ext_entries (Mapping.ext_of_canonical (Document.canonical _)
    effective.canonical fun key => ?_)
  have hregular := (regular_of_canonical effective.canonical).rewriteManagedController
    site.platform path
  rw [hregular.canonicalize_get, get_rewriteManagedController]
  by_cases heq : key = localField site.platform
  · rw [if_pos heq, heq, hlocal]
  · rw [if_neg heq]
    by_cases hkey : key ∈ rewrittenFields
    · rw [if_pos hkey, hother key hkey heq]
    · rw [if_neg hkey]

/-- **Preparing is idempotent.** An effective document that is taken for a source is prepared in
full for the same endpoint to the same document, with the same bytes, hash and controller. A
bootstrap document is not prepared so, as its listeners are turned off. -/
theorem prepare_idempotent (h : snapshot.prepareFull site endpoint epoch runtime = .ok prepared)
    (path : Path) (sourceHash : String) :
    (ConfigSnapshot.mk path prepared.document sourceHash).prepareFull site endpoint epoch runtime =
      .ok { prepared with sourceHash } := by
  obtain ⟨-, -, -, hcontroller⟩ := ConfigSnapshot.prepare_eq_ok h
  obtain ⟨hbytes, hhash⟩ := ConfigSnapshot.prepare_serialized h
  obtain ⟨heffective, hhost⟩ := prepared_effective h
  obtain ⟨hrewrote, -⟩ := prepareFull_made h
  have hagain : ∃ document, managedDocument site endpoint epoch (runtime.contains .localIpc)
      prepared.document.entries = .ok document ∧
        Document.canonicalize document = prepared.document := by
    cases hruntime : runtime.contains .localIpc with
    | false =>
      have hregular := regular_of_canonical prepared.document.canonical
      refine ⟨prepared.document.entries, rfl, ?_⟩
      exact Document.ext_entries (Mapping.ext_of_canonical (Document.canonical _)
        prepared.document.canonical hregular.canonicalize_get)
    | true =>
      obtain ⟨endpointPath, hendpoint, hpath⟩ := hhost hruntime
      obtain ⟨path', hlocal, hother, hpath'⟩ := heffective.managed hruntime
      obtain rfl := localHost_injective _ (hpath.symm.trans hpath')
      refine ⟨_, ?_, canonicalize_effective hlocal hother⟩
      rw [managedDocument, if_pos rfl, hendpoint]
      rfl
  obtain ⟨document', hdocument', hcanonical'⟩ := hagain
  rw [ConfigSnapshot.prepareFull_of hdocument' hcanonical' hcontroller hbytes, ← hhash, ← hrewrote]

end Preparing

/-- The runtime copy of a document with a socket of its own is prepared as it is. -/
theorem prepare_idempotent_socket : ∃ prepared,
    (httpSnapshot "rule").prepareFull httpSite (fun _ => .ok "/run/core-1.sock") 1 [.localIpc] =
      .ok prepared ∧
    (ConfigSnapshot.mk (.external "copy.yaml") prepared.document "").prepareFull httpSite
      (fun _ => .ok "/run/core-1.sock") 1 [.localIpc] = .ok { prepared with sourceHash := "" } := by
  have hok : ((httpSnapshot "rule").prepareFull httpSite (fun _ => .ok "/run/core-1.sock") 1
      [.localIpc]).toBool = true := by
    decide +kernel
  cases hprepared : (httpSnapshot "rule").prepareFull httpSite (fun _ => .ok "/run/core-1.sock") 1
      [.localIpc] with
  | error error =>
    rw [hprepared] at hok
    cases hok
  | ok prepared => exact ⟨prepared, rfl, prepare_idempotent hprepared (.external "copy.yaml") ""⟩

end Nyanpasu.Config
