import Nyanpasu.Config.Prepare
import Nyanpasu.Lib.Numeral
import Nyanpasu.Manager.Capability
import Nyanpasu.Manager.Effect

/-!
# Features of a core build

Which optional protocols a core speaks depends on its release, so `resolve_features` asks the
binary for its version unless no release of the kind speaks any. What the manager then turns on
is weighed against the policy. Reading a version number off a text is a parameter.
-/

namespace Nyanpasu.Capability

open Config (Platform)
open Manager (ResolvedFeatures)

/-- The numbers of a `semver::Version`. -/
structure Version where
  major : ℕ
  minor : ℕ
  patch : ℕ
  deriving DecidableEq, Repr

/-- `CoreVersion`. A release is kept without its labels. -/
inductive CoreVersion where
  | release (version : Version)
  | nightly
  | unknown
  deriving DecidableEq, Repr

/-- `trim_matches`. -/
def trimMatches (p : Char → Bool) (text : Text) : Text :=
  ((text.dropWhile p).reverse.dropWhile p).reverse

/-- `split_whitespace`. -/
def splitWhitespace (text : Text) : List Text :=
  (text.splitOnP Text.isWhitespace).filter (· ≠ [])

/-- What surrounds a token of a version banner. -/
def isTrimmed (c : Char) : Bool :=
  !c.isAlphanum && !(['.', '-', '+', '_'].contains c)

/-- One round of the loop of `CoreVersion::parse`. -/
def recognize (parse : Text → Option Version) (token : Text) : Option CoreVersion :=
  let token := trimMatches isTrimmed token
  match parse ((token.stripPrefix ['v']).getD token) with
  | some version => some (.release version)
  | none =>
    if ["alpha-".toList, "nightly-".toList].any fun start =>
        (token.stripPrefix start).any fun value => !value.isEmpty then some .nightly
    else none

/-- `CoreVersion::parse`: the first token that is recognized. -/
def CoreVersion.parse (parse : Text → Option Version) (raw : Text) : CoreVersion :=
  ((splitWhitespace raw).findSome? (recognize parse)).getD .unknown

/-- `VersionReq::matches` of a floor, for a version without labels. -/
def Version.reaches (floor version : Version) : Bool :=
  if version.major ≠ floor.major then floor.major < version.major
  else if version.minor ≠ floor.minor then floor.minor < version.minor
  else floor.patch ≤ version.patch

/-- `Support`. -/
inductive Support where
  | yes
  | since (floor : Version)
  | no
  deriving DecidableEq, Repr

/-- `since`. -/
def since (floor : Version) : Option CoreVersion → Support
  | some (.release version) => if floor.reaches version then .yes else .no
  | some .nightly => .yes
  | some .unknown => .no
  | none => .since floor

/-- `FeatureSupport::supports`. -/
def supports (kind : CoreKind) (feature : Feature) (version : Option CoreVersion) : Support :=
  match kind, feature with
  | .mihomo, .namedPipeIpc => since ⟨1, 18, 9⟩ version
  | .mihomo, .unixSocketIpc => since ⟨1, 18, 4⟩ version
  | .mihomo, .disableTcpController => .no
  | .clashRust, .namedPipeIpc => since ⟨0, 9, 7⟩ version
  | .clashRust, .unixSocketIpc => since ⟨0, 9, 1⟩ version
  | .clashRust, .disableTcpController => .no
  | .clashPremium, _ => .no
  | .meow, _ => .no

/-- `EnumSet::all`. -/
def allFeatures : List Feature := [.namedPipeIpc, .unixSocketIpc, .disableTcpController]

/-- `FeatureSupport::features`. -/
def features (kind : CoreKind) (version : Option CoreVersion) : List Feature :=
  allFeatures.filter fun feature => supports kind feature version = .yes

/-- `FeatureSupport::potential_features`. -/
def potentialFeatures (kind : CoreKind) : List Feature :=
  allFeatures.filter fun feature => supports kind feature none ≠ .no

/-- `LocalIpcPolicy`. -/
inductive LocalIpcPolicy where
  | force
  | prefer
  | disable
  deriving DecidableEq, Repr

/-- `LOCAL_TRANSPORT_FEATURE`. -/
def localTransportFeature : Platform → Feature
  | .windows => .namedPipeIpc
  | .unix => .unixSocketIpc

/-- `resolve_runtime`. -/
def resolveRuntime (platform : Platform) (policy : LocalIpcPolicy) (core : CoreSpec)
    (capabilities : List Feature) (resolved : Option String) :
    Except Error (List RuntimeFeature) :=
  match policy, capabilities.contains (localTransportFeature platform) with
  | .force, false =>
    .error (.requiredLocalIpcUnsupported core.kind ((resolved.or core.version).getD "unknown"))
  | .force, true => .ok [.localIpc]
  | .prefer, true => .ok [.localIpc]
  | .prefer, false => .ok []
  | .disable, _ => .ok []

/-- `resolve_features`, over what `VersionCache::resolve` returns if it is called. -/
def resolveFeatures (parse : Text → Option Version) (platform : Platform)
    (policy : LocalIpcPolicy) (core : CoreSpec) (resolve : Except Error String) :
    Except Error ResolvedFeatures := do
  let (capabilities, version) ←
    if (potentialFeatures core.kind).isEmpty then pure ([], core.version)
    else do
      let version ← resolve
      pure (features core.kind (some (.parse parse version.toList)), some version)
  let runtime ← resolveRuntime platform policy core capabilities version
  return ⟨capabilities, runtime, version⟩

/-! ## Decisions -/

section Decisions

variable {parse : Text → Option Version} {platform : Platform} {policy : LocalIpcPolicy}
  {core : CoreSpec} {resolve : Except Error String} {resolved : ResolvedFeatures}

theorem mem_features {kind : CoreKind} {version : Option CoreVersion} {feature : Feature} :
    feature ∈ features kind version ↔ supports kind feature version = .yes := by
  rw [features, List.mem_filter, decide_eq_true_eq, and_iff_right_iff_imp]
  intro _
  cases feature <;> decide

/-- The manager turns local IPC on when the build speaks it, unless that is disabled. Under
`Force` it turns it on or fails. -/
theorem resolveRuntime_ok {capabilities : List Feature} {version : Option String}
    {runtime : List RuntimeFeature}
    (h : resolveRuntime platform policy core capabilities version = .ok runtime) :
    (policy = .force → runtime = [.localIpc]) ∧
      (.localIpc ∈ runtime ↔
        policy ≠ .disable ∧ localTransportFeature platform ∈ capabilities) := by
  rw [resolveRuntime.eq_def] at h
  cases hcontains : capabilities.contains (localTransportFeature platform) with
  | false =>
    have hmem : localTransportFeature platform ∉ capabilities := by
      intro hmem
      rw [List.contains_iff_mem.mpr hmem] at hcontains
      cases hcontains
    rw [hcontains] at h
    cases policy with
    | force => cases h
    | prefer | disable =>
      obtain rfl := Except.ok.inj h
      simp [hmem]
  | true =>
    have hmem := List.contains_iff_mem.mp hcontains
    rw [hcontains] at h
    cases policy with
    | force | prefer | disable =>
      obtain rfl := Except.ok.inj h
      simp [hmem]

/-- What the resolved features say of the version they were resolved for. -/
theorem resolveFeatures_ok (h : resolveFeatures parse platform policy core resolve = .ok resolved) :
    (policy = .force → resolved.runtime = [.localIpc]) ∧
    (.localIpc ∈ resolved.runtime ↔
      policy ≠ .disable ∧ localTransportFeature platform ∈ resolved.capabilities) ∧
    (potentialFeatures core.kind = [] ∧ resolved.capabilities = [] ∧
        resolved.version = core.version ∨
      potentialFeatures core.kind ≠ [] ∧ ∃ version, resolve = .ok version ∧
        resolved.version = some version ∧
        resolved.capabilities = features core.kind (some (.parse parse version.toList))) := by
  simp only [resolveFeatures, bind, Except.bind, pure, Except.pure] at h
  by_cases hnone : (potentialFeatures core.kind).isEmpty = true
  · rw [if_pos hnone] at h
    cases hruntime : resolveRuntime platform policy core [] core.version with
    | error error =>
      rw [hruntime] at h
      cases h
    | ok runtime =>
      rw [hruntime] at h
      obtain rfl := Except.ok.inj h
      obtain ⟨hforce, hlocal⟩ := resolveRuntime_ok hruntime
      exact ⟨hforce, hlocal, Or.inl ⟨List.isEmpty_iff.mp hnone, rfl, rfl⟩⟩
  · rw [if_neg hnone] at h
    cases resolve with
    | error error => cases h
    | ok version =>
      simp only at h
      cases hruntime : resolveRuntime platform policy core
          (features core.kind (some (.parse parse version.toList))) (some version) with
      | error error =>
        rw [hruntime] at h
        cases h
      | ok runtime =>
        rw [hruntime] at h
        obtain rfl := Except.ok.inj h
        obtain ⟨hforce, hlocal⟩ := resolveRuntime_ok hruntime
        refine ⟨hforce, hlocal, Or.inr ⟨?_, version, rfl, rfl, rfl⟩⟩
        exact fun hempty => hnone (List.isEmpty_iff.mpr hempty)

/-- A kind whose releases speak nothing is resolved without its version. -/
theorem resolveFeatures_of_unspoken (h : potentialFeatures core.kind = [])
    (other : Except Error String) :
    resolveFeatures parse platform policy core resolve =
      resolveFeatures parse platform policy core other := by
  have hnone : (potentialFeatures core.kind).isEmpty = true := List.isEmpty_iff.mpr h
  rw [resolveFeatures, resolveFeatures, if_pos hnone, if_pos hnone]

/-- A call that resolved the features of a core without a supplied version: the build on disk
during the call had the modification time it read, and printed what decided. -/
structure Decided (parse : Text → Option Version) (platform : Platform) (policy : LocalIpcPolicy)
    {P : Type} [DecidableEq P] (parts : String → P) (s : System P) (call : Call P)
    (key : Option (VersionCacheKey P)) (result : Except Error String) (last : ℕ)
    (resolved : ResolvedFeatures) : Prop where
  forced : policy = .force → resolved.runtime = [.localIpc]
  decided : .localIpc ∈ resolved.runtime ↔
    policy ≠ .disable ∧ localTransportFeature platform ∈ resolved.capabilities
  /-- A kind whose releases speak nothing is not asked for its version. -/
  unasked : potentialFeatures call.spec.kind = [] →
    ∀ other, resolveFeatures parse platform policy call.spec other = .ok resolved
  /-- Any other kind is asked under every policy. -/
  asked : potentialFeatures call.spec.kind ≠ [] →
    ∃ version, result = .ok version ∧ resolved.version = some version
  known : potentialFeatures call.spec.kind = [] ∧ resolved.capabilities = [] ∨
    ∃ modified moment file, key = some ⟨parts call.spec.binaryPath, modified⟩ ∧
      call.began ≤ moment ∧ moment ≤ last ∧
      s.disk.content moment (parts call.spec.binaryPath) = some file ∧ file.modified = modified ∧
      ∀ feature, feature ∈ resolved.capabilities ↔ supports call.spec.kind feature
        (some (.parse parse (printed file.build.stdout file.build.stderr).toList)) = .yes

variable {P : Type} [DecidableEq P] {parts : String → P} {s : System P} {c d : ℕ}
  {call call' : Call P} {key : Option (VersionCacheKey P)} {result result' : Except Error String}
  {last last' : ℕ} {resolved' : ResolvedFeatures}

/-- **Features follow the build.** Whatever the calls and the replacements, what a call turns
on for a core without a supplied version is what a build speaks that was on disk during the call;
under `Force` local IPC is on or the call fails; the kind alone decides whether the version is
asked for; and two calls for one kind that found one modification time at one path turn on the
same. -/
theorem features_follow_build (h : Reachable parts s) (hcall : s.calls c = some call)
    (hversion : call.spec.version = none) (hstage : call.stage = .returned key result last)
    (hresolved : resolveFeatures parse platform policy call.spec result = .ok resolved) :
    Decided parse platform policy parts s call key result last resolved ∧
    ∀ d call' result' last' resolved', s.calls d = some call' → call'.spec.version = none →
      call'.spec.kind = call.spec.kind →
      parts call'.spec.binaryPath = parts call.spec.binaryPath →
      call'.stage = .returned key result' last' →
      resolveFeatures parse platform policy call'.spec result' = .ok resolved' →
      resolved'.capabilities = resolved.capabilities ∧
        (.localIpc ∈ resolved'.runtime ↔ .localIpc ∈ resolved.runtime) := by
  have hinv := h.invariant
  -- A version that a call returned is that of the build that had the modification time.
  have hbuild : ∀ {c : ℕ} {call : Call P} {version : String} {last : ℕ}, s.calls c = some call →
      call.spec.version = none → call.stage = .returned key (.ok version) last →
      last ≤ s.disk.now ∧ ∃ modified, key = some ⟨parts call.spec.binaryPath, modified⟩ ∧
        Had s.disk call.began last ⟨parts call.spec.binaryPath, modified⟩ version := by
    intro c call version last hcall hnone hstage
    have hsound := hinv.calls c call hcall
    rw [Sound, hstage] at hsound
    exact hsound hnone
  obtain ⟨hforce, hlocal, hcases⟩ := resolveFeatures_ok hresolved
  refine ⟨⟨hforce, hlocal, fun hnone other => ?_, fun hsome => ?_, ?_⟩, ?_⟩
  · rwa [resolveFeatures_of_unspoken hnone other] at hresolved
  · rcases hcases with ⟨hnone, -⟩ | ⟨-, version, hversion, hresolved, -⟩
    · exact absurd hnone hsome
    · exact ⟨version, hversion, hresolved⟩
  · rcases hcases with ⟨hnone, hempty, -⟩ | ⟨-, version, rfl, -, hcapabilities⟩
    · exact Or.inl ⟨hnone, hempty⟩
    · obtain ⟨-, modified, hkey, moment, file, hbegan, hlast, hfile, hmodified, hprinted⟩ :=
        hbuild hcall hversion hstage
      refine Or.inr ⟨modified, moment, file, hkey, hbegan, hlast, hfile, hmodified, ?_⟩
      intro feature
      rw [hcapabilities, mem_features, hprinted]
  · intro d call' result' last' resolved' hcall' hversion' hkind hpath hstage' hresolved'
    obtain ⟨-, hlocal', hcases'⟩ := resolveFeatures_ok hresolved'
    have hsame : resolved'.capabilities = resolved.capabilities := by
      rcases hcases with ⟨hnone, hempty, -⟩ | ⟨hsome, version, rfl, -, hcapabilities⟩
      · rcases hcases' with ⟨-, hempty', -⟩ | ⟨hsome', -⟩
        · rw [hempty, hempty']
        · rw [hkind] at hsome'
          exact absurd hnone hsome'
      · rcases hcases' with ⟨hnone', -⟩ | ⟨-, version', rfl, -, hcapabilities'⟩
        · rw [hkind] at hnone'
          exact absurd hnone' hsome
        · obtain ⟨hle, modified, hkey, moment, file, -, hlast, hfile, hmodified, hprinted⟩ :=
            hbuild hcall hversion hstage
          obtain ⟨hle', modified', hkey', moment', file', -, hlast', hfile', hmodified',
            hprinted'⟩ := hbuild hcall' hversion' hstage'
          have hsamekey := Option.some.inj (hkey.symm.trans hkey')
          obtain ⟨-, rfl⟩ := VersionCacheKey.mk.inj hsamekey
          simp only [hpath] at hfile'
          obtain rfl := hinv.stamped.eq (hlast.trans hle) (hlast'.trans hle') hfile hfile'
            (hmodified.trans hmodified'.symm)
          rw [hcapabilities, hcapabilities', hkind, ← hprinted, ← hprinted']
    refine ⟨hsame, ?_⟩
    rw [hlocal', hlocal, hsame]

end Decisions

/-- Three decimal numbers with dots between them. -/
def readNumbers (text : Text) : Option Version :=
  match text.splitOnP (· == '.') with
  | [major, minor, patch] => do
    return ⟨← Text.parseU64 major, ← Text.parseU64 minor, ← Text.parseU64 patch⟩
  | _ => none

/-- A manager beside a release that speaks both local transports. -/
def releaseBuild : System String :=
  ⟨⟨fun path => if path = "/core" then some ⟨1, buildOf "Mihomo Meta v1.18.9"⟩ else none, []⟩, [],
    none, fun _ => none⟩

/-- The release is asked for its version. -/
def asking : List (Move String) :=
  [.call 0 plainCore, .resolve 0 (printing "Mihomo Meta v1.18.9"),
    .resolve 0 (printing "Mihomo Meta v1.18.9"), .resolve 0 (printing "Mihomo Meta v1.18.9"),
    .resolve 0 (printing "Mihomo Meta v1.18.9")]

/-- Local IPC is turned on for the release. -/
theorem features_follow_release : ∃ s call resolved,
    Decided readNumbers .unix .force id s call (some ⟨"/core", 1⟩)
        (.ok "Mihomo Meta v1.18.9") 0 resolved ∧
      resolved.runtime = [.localIpc] := by
  have hstarted : Started releaseBuild := ⟨rfl, rfl, rfl, fun _ => rfl⟩
  obtain ⟨s, hreach, hs⟩ := Moves.exists_reach (System.step id) (Admits id)
    (p := fun s => (s.calls 0).any fun call => call.spec = plainCore ∧
      call.stage = .returned (some ⟨"/core", 1⟩) (.ok "Mihomo Meta v1.18.9") 0)
    hstarted asking (by decide +kernel)
  obtain ⟨call, hcall, hreturned⟩ := (Option.any_eq_true _ _).mp hs
  rw [decide_eq_true_eq] at hreturned
  obtain ⟨hspec, hstage⟩ := hreturned
  have hresolved : resolveFeatures readNumbers .unix .force call.spec (.ok "Mihomo Meta v1.18.9")
      = .ok ⟨[.namedPipeIpc, .unixSocketIpc], [.localIpc], some "Mihomo Meta v1.18.9"⟩ := by
    rw [hspec]
    rfl
  have hversion : call.spec.version = none := by rw [hspec, plainCore]
  exact ⟨s, call, _, (features_follow_build hreach hcall hversion hstage hresolved).1, rfl⟩

end Nyanpasu.Capability
