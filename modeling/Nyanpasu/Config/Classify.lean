import Nyanpasu.Error
import Nyanpasu.Config.Diff
import Nyanpasu.Config.Schema

/-!
# Classification of config changes

`classify_documents` decides how a running Mihomo core can take a new document: not at
all needed, by a patch of its runtime, by a reload of the file, or only by a switch to a
new process. It denies by default: a change is patched or reloaded only when every
reported path is in the tables below.
-/

namespace Nyanpasu.Config

/-- `TUN_PATCH_FIELDS`. -/
def tunPatchFields : List String :=
  ["enable", "device", "stack", "dns-hijack", "auto-route", "auto-detect-interface", "mtu", "gso",
    "gso-max-size", "inet6-address", "iproute2-table-index", "iproute2-rule-index",
    "auto-redirect", "auto-redirect-input-mark", "auto-redirect-output-mark",
    "auto-redirect-iproute2-fallback-rule-index", "loopback-address", "strict-route",
    "route-address", "route-address-set", "route-exclude-address", "route-exclude-address-set",
    "include-interface", "exclude-interface", "include-uid", "include-uid-range", "exclude-uid",
    "exclude-uid-range", "include-android-user", "include-package", "exclude-package",
    "include-mac-address", "exclude-mac-address", "endpoint-independent-nat", "udp-timeout",
    "icmp-timeout", "file-descriptor", "inet4-route-address", "inet6-route-address",
    "inet4-route-exclude-address", "inet6-route-exclude-address", "recvmsgx", "sendmsgx"]

/-- `TUIC_SERVER_PATCH_FIELDS`. -/
def tuicServerPatchFields : List String :=
  ["enable", "listen", "token", "users", "certificate", "private-key", "congestion-controller",
    "max-idle-time", "authentication-timeout", "alpn", "max-udp-relay-packet-size", "cwnd",
    "bbr-profile"]

/-- `RELOAD_FIELDS`. -/
def reloadFields : List String :=
  ["proxies", "proxy-groups", "proxy-providers", "rule-providers", "providers", "rules", "hosts",
    "dns"]

mutual

/-- `collect_leaves`: the values of a tree that are not nonempty mappings, with their
paths. -/
def collectLeaves (path : List String) : Value → List (List String × Value)
  | .mapping entries =>
      if entries.isEmpty then [(path, .mapping [])] else collectEntryLeaves path entries
  | .null => [(path, .null)]
  | .bool value => [(path, .bool value)]
  | .number value => [(path, .number value)]
  | .string value => [(path, .string value)]
  | .sequence items => [(path, .sequence items)]

/-- The leaves below each entry of a mapping. -/
def collectEntryLeaves (path : List String) : List (String × Value) → List (List String × Value)
  | [] => []
  | (key, value) :: entries =>
      collectLeaves (path ++ [key]) value ++ collectEntryLeaves path entries

end

/-- `RuntimeProjection`: the leaves that the runtime view must show after a patch. -/
structure RuntimeProjection where
  expected : List (List String × Value)
  deriving DecidableEq

/-- `RuntimeProjection::verify` on the serialized runtime view. -/
def RuntimeProjection.verify (projection : RuntimeProjection) (runtime : Value) : Bool :=
  projection.expected.all fun leaf => valueAt runtime leaf.1 = some leaf.2

/-- `ConfigChange`. -/
inductive ConfigChange where
  | noop
  | patch (patch : ConfigPatch) (projection : RuntimeProjection)
  | reload
  | switch
  deriving DecidableEq

/-- `is_dns_listen`. -/
def isDnsListen (path : List String) : Bool := path[0]? = some "dns" && path[1]? = some "listen"

/-- `patch_nested_path_is_supported`. -/
def patchNestedPathIsSupported : List String → Bool
  | [] => false
  | root :: path =>
      if root = "tun" then path.head?.any tunPatchFields.contains
      else if root = "tuic-server" then path.head?.any tuicServerPatchFields.contains
      else path.isEmpty

/-- `filter_mapping`: the entries of a nested mapping that the patch can carry. -/
def filterMapping (value : Value) (allowed : List String) : Except Error Value :=
  match value.asMapping with
  | none => .error (.invalidConfig "patchable nested config must be a mapping")
  | some m => .ok (.mapping (m.filter fun entry => allowed.contains entry.1))

/-- The value of one changed root in the patch document; `none` sends the change to a
switch. -/
def patchRoot (desired : Mapping) (root : String) : Except Error (Option Value) :=
  match desired.get root with
  | none => .ok none
  | some value =>
      if root = "tun" then (filterMapping value tunPatchFields).map some
      else if root = "tuic-server" then (filterMapping value tuicServerPatchFields).map some
      else .ok (some value)

/-- The loop of `build_patch` over the changed roots. -/
def patchDocument (desired : Mapping) : List String → Mapping → Except Error (Option Mapping)
  | [], document => .ok (some document)
  | root :: roots, document =>
      match patchRoot desired root with
      | .error error => .error error
      | .ok none => .ok none
      | .ok (some value) => patchDocument desired roots (document.insert root value)

/-- The `required_enable` check of `build_patch`. -/
def lacksEnable (document : Mapping) (root : String) : Bool :=
  (document.get root).isSome &&
    ((((document.get root).bind Value.asMapping).bind (·.get "enable")).bind Value.asBool).isNone

/-- The `BTreeSet` of the roots of the reported paths. -/
def changedRoots (changes : List DiffEntry) : List String :=
  keySet (changes.filterMap (·.path.head?)) []

/-- `build_patch`. -/
def buildPatch (ip : IpText) (desired : Mapping) (changes : List DiffEntry) :
    Except Error ConfigChange :=
  match patchDocument desired (changedRoots changes) [] with
  | .error error => .error error
  | .ok none => .ok .switch
  | .ok (some document) =>
      if lacksEnable document "tun" || lacksEnable document "tuic-server" then .ok .switch
      else
        match ConfigPatch.ofMapping ip document with
        | none => .ok .switch
        | some patch =>
            .ok (.patch patch ⟨collectLeaves [] (.mapping patch.toMapping)⟩)

/-- The test of one reported change for a patch. -/
def patchable (entry : DiffEntry) : Bool :=
  entry.new.isSome &&
    entry.path.head?.any fun root =>
      patchFields.contains root && patchNestedPathIsSupported entry.path

/-- The test of one reported change for a reload. -/
def reloadable (entry : DiffEntry) : Bool :=
  entry.path.head?.any fun root =>
    reloadFields.contains root && !isDnsListen entry.path &&
      !(decide (root = "dns") && entry.path.length = 1)

/-- `classify_documents`. -/
def classifyDocuments (ip : IpText) (current desired : Mapping) : Except Error ConfigChange :=
  if dnsListen current ≠ dnsListen desired then .ok .switch
  else
    let changes := diff current desired
    if changes.isEmpty then .ok .noop
    else if changes.all patchable then buildPatch ip desired changes
    else if changes.all reloadable then .ok .reload
    else .ok .switch

/-- `restoration_patch`: the patch that turns a bootstrap into the desired document. -/
def restorationPatch (ip : IpText) (bootstrap desired : Mapping) :
    Except Error (Option (ConfigPatch × RuntimeProjection)) :=
  match classifyDocuments ip bootstrap desired with
  | .error error => .error error
  | .ok .noop => .ok none
  | .ok (.patch patch projection) => .ok (some (patch, projection))
  | .ok .reload | .ok .switch =>
      .error (.invalidConfig
        "graceful bootstrap cannot be restored losslessly with ConfigPatch")

/-- A leaf of a tree: a value that is not a nonempty mapping, at its path. -/
def IsLeaf (value : Value) (path : List String) (leaf : Value) : Prop :=
  valueAt value path = some leaf ∧ ∀ entries, leaf = .mapping entries → entries = []

mutual

/-- Every leaf is collected. -/
theorem mem_collectLeaves : ∀ (value : Value) {path : List String} {leaf : Value}
    (_ : IsLeaf value path leaf) (above : List String),
    (above ++ path, leaf) ∈ collectLeaves above value
  | .mapping entries, [], leaf, h, above => by
      obtain ⟨hvalue, hempty⟩ := h
      simp only [valueAt_nil, Option.some.injEq] at hvalue
      obtain rfl := hempty entries hvalue.symm
      simp [collectLeaves, ← hvalue]
  | .mapping entries, key :: path, leaf, ⟨hvalue, hempty⟩, above => by
      simp only [valueAt_cons, Value.asMapping, Option.bind_some] at hvalue
      obtain ⟨value, hget, hleaf⟩ := Option.bind_eq_some_iff.mp hvalue
      have hmem := Assoc.mem_of_lookup hget
      have hne : entries ≠ [] := List.ne_nil_of_mem hmem
      rw [collectLeaves, if_neg (by simpa using hne)]
      exact mem_collectEntryLeaves entries hmem ⟨hleaf, hempty⟩ above
  | .null, path, leaf, h, above | .bool _, path, leaf, h, above
  | .number _, path, leaf, h, above | .string _, path, leaf, h, above
  | .sequence _, path, leaf, h, above => by
      cases path with
      | nil => simpa [collectLeaves] using h.1.symm
      | cons key path => simp [IsLeaf, Value.asMapping] at h

/-- Every leaf below an entry is collected. -/
theorem mem_collectEntryLeaves : ∀ (entries : List (String × Value)) {key : String}
    {value : Value} (_ : (key, value) ∈ entries) {path : List String} {leaf : Value}
    (_ : IsLeaf value path leaf) (above : List String),
    (above ++ key :: path, leaf) ∈ collectEntryLeaves above entries
  | [], _, _, hmem, _, _, _, _ => absurd hmem List.not_mem_nil
  | (k, v) :: entries, key, value, hmem, path, leaf, h, above => by
      rw [collectEntryLeaves, List.mem_append]
      by_cases hhead : (key, value) = (k, v)
      · cases hhead
        left
        simpa using mem_collectLeaves v h (above ++ [k])
      · right
        exact mem_collectEntryLeaves entries ((List.mem_cons.mp hmem).resolve_left hhead) h above

end

end Nyanpasu.Config
