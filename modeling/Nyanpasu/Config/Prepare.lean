import Nyanpasu.Spec
import Nyanpasu.Config.Canonical
import Nyanpasu.Config.Classify

/-!
# Effective documents

`prepare_full` turns a source document into the one a core is started from: the
controller fields are rewritten when the manager owns the local endpoint, the result is
canonicalized, and the controller is resolved from it. `classify` compares two prepared
documents together with the specs they were prepared for.
-/

namespace Nyanpasu.Config

/-- `CONTROLLER_FIELDS`. -/
def controllerFields : List String :=
  ["external-controller", "external-controller-pipe", "external-controller-unix", "secret"]

/-- The platform the service is built for. -/
inductive Platform where
  | windows
  | unix
  deriving DecidableEq, Repr

/-- `RawController`. -/
inductive RawController where
  | pipe (path : String)
  | unix (path : String)
  | http (address : String)
  deriving DecidableEq, Repr

/-- `ConfigInfo`. -/
structure ConfigInfo where
  controller : Option RawController
  secret : Option String
  deriving DecidableEq, Repr

/-- `str_value`: a nonempty string field. -/
def strValue (document : Mapping) (key : String) : Option String :=
  ((document.get key).bind Value.asStr).filter (· ≠ "")

/-- The local controller key of a platform. -/
def localField : Platform → String
  | .windows => "external-controller-pipe"
  | .unix => "external-controller-unix"

/-- `inspect`: the local transport wins over HTTP. -/
def inspect (platform : Platform) (document : Mapping) : ConfigInfo where
  controller :=
    let viaHttp := (strValue document "external-controller").map RawController.http
    match platform with
    | .windows => ((strValue document "external-controller-pipe").map RawController.pipe).or viaHttp
    | .unix => ((strValue document "external-controller-unix").map RawController.unix).or viaHttp
  secret := strValue document "secret"

/-- `inspect_http`. -/
def inspectHttp (document : Mapping) : ConfigInfo where
  controller := (strValue document "external-controller").map RawController.http
  secret := strValue document "secret"

/-- `rewrite_managed_controller`. -/
def rewriteManagedController (platform : Platform) (document : Mapping) (endpoint : String) :
    Mapping :=
  (((document.remove "external-controller").remove "external-controller-pipe").remove
    "external-controller-unix").insert (localField platform) (.string endpoint)

/-- `rsplit_once(':')`: the parts before and after the last colon. -/
def rsplitColon (address : String) : Option (String × String) :=
  let chars := address.toList.reverse
  match chars.dropWhile (· ≠ ':') with
  | [] => none
  | _ :: before =>
      some (String.ofList before.reverse, String.ofList (chars.takeWhile (· ≠ ':')).reverse)

/-- `probe_address`: a wildcard address is probed on the loopback. -/
def probeAddress (address : String) : String :=
  match rsplitColon address with
  | some (host, port) =>
      if host ∈ ["0.0.0.0", "::", "[::]", ""] then "127.0.0.1:" ++ port else address
  | none => address

/-- Where documents are prepared: the platform and the libraries that serialize YAML and
parse URLs. -/
structure Site where
  platform : Platform
  /-- `Host::http`. -/
  http : String → Except Error Host
  /-- `serde_yaml_ng::to_string` of a mapping, as bytes. -/
  serialize : Mapping → Except Error (List UInt8)

/-- `resolve_controller`. -/
def resolveController (site : Site) (info : ConfigInfo) : Except Error ResolvedController :=
  match info.controller with
  | none => .error .controllerMissing
  | some (.pipe path) => .ok ⟨.namedPipe path, info.secret⟩
  | some (.unix path) => .ok ⟨.unixSocket path, info.secret⟩
  | some (.http address) => (site.http (probeAddress address)).map (⟨·, info.secret⟩)

/-- `{hash:016x}`. -/
def hex16 (hash : UInt64) : String :=
  let digits := Nat.toDigits 16 hash.toNat
  String.ofList (List.replicate (16 - digits.length) '0' ++ digits)

/-- `semantic_hash`: FNV-1a. -/
def semanticHash (bytes : List UInt8) : String :=
  hex16 (bytes.foldl (fun hash byte => (hash ^^^ byte.toUInt64) * 0x00000100000001b3)
    0xcbf29ce484222325)

/-- `ConfigSnapshot`: a source document as it was read. -/
structure ConfigSnapshot where
  sourcePath : Path
  document : Document
  sourceHash : String
  deriving DecidableEq

/-- `PreparedConfig`. -/
structure PreparedConfig where
  bytes : List UInt8
  document : Document
  controller : ResolvedController
  rewroteController : Bool
  sourceHash : String
  effectiveHash : String

/-- The controller rewrite of `prepare`, when the manager owns the local endpoint. -/
def managedDocument (site : Site) (endpoint : ℕ → Except Error String) (epoch : ℕ)
    (rewroteController : Bool) (document : Mapping) : Except Error Mapping :=
  if rewroteController then (endpoint epoch).map (rewriteManagedController site.platform document)
  else .ok document

/-- `ConfigSnapshot::prepare`. `endpoint` is the answer of `managed_endpoint_path`, which
reads the file system. -/
def ConfigSnapshot.prepare (site : Site) (snapshot : ConfigSnapshot)
    (endpoint : ℕ → Except Error String) (epoch : ℕ) (runtime : List RuntimeFeature)
    (zero : Bool) : Except Error PreparedConfig := do
  let document := if zero then zeroInbounds snapshot.document.entries
    else snapshot.document.entries
  let rewroteController := runtime.contains .localIpc
  let document ← managedDocument site endpoint epoch rewroteController document
  let document := Document.canonicalize document
  let info := if rewroteController then inspect site.platform document.entries
    else inspectHttp document.entries
  let controller ← resolveController site info
  let bytes ← site.serialize document.entries
  return {
    bytes, document, controller, rewroteController
    sourceHash := snapshot.sourceHash
    effectiveHash := semanticHash bytes }

/-- `prepare_full`. -/
def ConfigSnapshot.prepareFull (site : Site) (snapshot : ConfigSnapshot)
    (endpoint : ℕ → Except Error String) (epoch : ℕ) (runtime : List RuntimeFeature) :
    Except Error PreparedConfig := snapshot.prepare site endpoint epoch runtime false

/-- `prepare_bootstrap`. -/
def ConfigSnapshot.prepareBootstrap (site : Site) (snapshot : ConfigSnapshot)
    (endpoint : ℕ → Except Error String) (epoch : ℕ) (runtime : List RuntimeFeature) :
    Except Error PreparedConfig := snapshot.prepare site endpoint epoch runtime true

/-- A prepared document comes with its serialization and the hash of it. -/
theorem ConfigSnapshot.prepare_serialized {site : Site} {snapshot : ConfigSnapshot}
    {endpoint : ℕ → Except Error String} {epoch : ℕ} {runtime : List RuntimeFeature} {zero : Bool}
    {prepared : PreparedConfig}
    (h : snapshot.prepare site endpoint epoch runtime zero = .ok prepared) :
    site.serialize prepared.document.entries = .ok prepared.bytes ∧
      prepared.effectiveHash = semanticHash prepared.bytes := by
  simp only [ConfigSnapshot.prepare, bind, Except.bind, pure, Except.pure] at h
  split at h
  · cases h
  split at h
  · cases h
  split at h
  · cases h
  rename_i bytes hbytes
  obtain rfl := Except.ok.inj h
  exact ⟨hbytes, rfl⟩

/-- `process_spec_changed`. `debugOptions` is the debug text of the options. -/
def processSpecChanged (debugOptions : InstanceOptions → String) (current desired : InstanceSpec) :
    Bool :=
  current.core.kind ≠ desired.core.kind ||
    current.core.binaryPath ≠ desired.core.binaryPath ||
    current.core.version ≠ desired.core.version ||
    current.core.features ≠ desired.core.features ||
    current.workingDir ≠ desired.workingDir ||
    debugOptions current.options ≠ debugOptions desired.options

/-- `classify`. -/
def classify (ip : IpText) (debugOptions : InstanceOptions → String)
    (currentSource currentEffective : Mapping) (currentSpec : InstanceSpec)
    (desiredSource desiredEffective : Mapping) (desiredSpec : InstanceSpec) :
    Except Error ConfigChange :=
  if processSpecChanged debugOptions currentSpec desiredSpec then .ok .switch
  else
    let sourceDiff := diff currentSource desiredSource
    if desiredSpec.core.kind ≠ .mihomo then
      if sourceDiff.isEmpty && (diff currentEffective desiredEffective).isEmpty then .ok .noop
      else .ok .switch
    else if sourceDiff.any fun entry =>
        entry.path.head?.any controllerFields.contains || isDnsListen entry.path then .ok .switch
    else classifyDocuments ip currentEffective desiredEffective

end Nyanpasu.Config
