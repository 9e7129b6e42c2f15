import Nyanpasu.Config.Inbounds

/-!
# The patch body

`ConfigPatch` is decoded from a YAML mapping and encoded back by derived code that
follows the field attributes: fields are renamed to kebab case, `None` is skipped,
missing fields take their default, and the stack of a tun has a catch-all spelling.
The derived code is given here once, over tables with one row for each field of the
source, in the order of the source.
-/

namespace Nyanpasu.Config

/-- `TunnelMode`. -/
inductive TunnelMode where
  | global
  | rule
  | direct
  deriving DecidableEq, Repr

/-- `LogLevel`. -/
inductive LogLevel where
  | debug
  | info
  | warning
  | error
  | silent
  deriving DecidableEq, Repr

/-- `FindProcessMode`. -/
inductive FindProcessMode where
  | strict
  | always
  | off
  deriving DecidableEq, Repr

/-- `TunStack`, whose last variant is `#[serde(other)]`. -/
inductive TunStack where
  | gvisor
  | system
  | mixed
  | unknown
  deriving DecidableEq, Repr

/-- The encoded spelling of a mode. -/
def TunnelMode.spelling : TunnelMode → String
  | .global => "global"
  | .rule => "rule"
  | .direct => "direct"

/-- The encoded spelling of a log level. -/
def LogLevel.spelling : LogLevel → String
  | .debug => "debug"
  | .info => "info"
  | .warning => "warning"
  | .error => "error"
  | .silent => "silent"

/-- The encoded spelling of a process lookup mode. -/
def FindProcessMode.spelling : FindProcessMode → String
  | .strict => "strict"
  | .always => "always"
  | .off => "off"

/-- The encoded spelling of a tun stack. -/
def TunStack.spelling : TunStack → String
  | .gvisor => "gVisor"
  | .system => "system"
  | .mixed => "mixed"
  | .unknown => "Unknown"

/-- The variant of a derived enum with a given spelling. -/
def ofSpelling {ε : Type} (variants : List ε) (spelling : ε → String) (text : String) : Option ε :=
  variants.find? fun variant => spelling variant = text

/-- `IpNet` and `IpAddr` as far as the patch needs them: parsing a text and displaying
the result gives its canonical text, which parses to itself. -/
structure IpText where
  /-- The canonical text of a network. -/
  net : String → Option String
  /-- The canonical text of an address. -/
  addr : String → Option String
  net_canonical : ∀ {text canonical}, net text = some canonical → net canonical = some canonical
  addr_canonical : ∀ {text canonical}, addr text = some canonical → addr canonical = some canonical

/-- A text form for documents without networks and addresses. -/
def plainIpText : IpText where
  net text := some text
  addr text := some text
  net_canonical := by simp
  addr_canonical := by simp

/-- The types of single values in the patch structs. -/
inductive ScalarType where
  | i64
  | u32
  | bool
  | string
  | ipNet
  | ipAddr
  | tunnelMode
  | logLevel
  | findProcessMode
  | tunStack
  deriving DecidableEq, Repr

/-- A decoded single value. A network or an address is known by its canonical text. -/
inductive Scalar where
  | int (value : ℤ)
  | bool (value : Bool)
  | string (value : String)
  | ip (text : String)
  | tunnelMode (mode : TunnelMode)
  | logLevel (level : LogLevel)
  | findProcessMode (mode : FindProcessMode)
  | tunStack (stack : TunStack)
  deriving DecidableEq, Repr

/-- The derived deserializer of a single value. -/
def ScalarType.decode (ip : IpText) (type : ScalarType) (value : Value) : Option Scalar :=
  match type with
  | .i64 => value.asI64.map .int
  | .u32 => (value.asI64.filter fun z => 0 ≤ z ∧ z < 4294967296).map .int
  | .bool => value.asBool.map .bool
  | .string => value.asStr.map .string
  | .ipNet => (value.asStr.bind ip.net).map .ip
  | .ipAddr => (value.asStr.bind ip.addr).map .ip
  | .tunnelMode =>
      (value.asStr.bind (ofSpelling [.global, .rule, .direct] TunnelMode.spelling)).map .tunnelMode
  | .logLevel =>
      (value.asStr.bind (ofSpelling [.debug, .info, .warning, .error, .silent]
        LogLevel.spelling)).map .logLevel
  | .findProcessMode =>
      (value.asStr.bind (ofSpelling [.strict, .always, .off]
        FindProcessMode.spelling)).map .findProcessMode
  | .tunStack =>
      -- `#[serde(other)]`: every other spelling is the last variant.
      value.asStr.map fun text =>
        .tunStack ((ofSpelling [.gvisor, .system, .mixed] TunStack.spelling text).getD .unknown)

/-- The derived serializer of a single value. -/
def Scalar.encode : Scalar → Value
  | .int value => .number (.int value)
  | .bool value => .bool value
  | .string value => .string value
  | .ip text => .string text
  | .tunnelMode mode => .string mode.spelling
  | .logLevel level => .string level.spelling
  | .findProcessMode mode => .string mode.spelling
  | .tunStack stack => .string stack.spelling

/-- The types of leaf fields. -/
inductive LeafType where
  | scalar (type : ScalarType)
  | list (item : ScalarType)
  /-- `IndexMap<String, String>`. -/
  | textMap
  deriving DecidableEq, Repr

/-- A decoded leaf field. -/
inductive Leaf where
  | scalar (value : Scalar)
  | list (items : List Scalar)
  | textMap (entries : List (String × String))
  deriving DecidableEq, Repr

/-- The items of a vector, or `none` when one does not decode. -/
def decodeItems (ip : IpText) (type : ScalarType) : List Value → Option (List Scalar)
  | [] => some []
  | item :: items =>
      (type.decode ip item).bind fun x => (decodeItems ip type items).map (x :: ·)

/-- The entries of a string map, or `none` when a value is not a string. -/
def decodeTexts : Mapping → Option (List (String × String))
  | [] => some []
  | (key, value) :: entries =>
      value.asStr.bind fun text => (decodeTexts entries).map ((key, text) :: ·)

/-- The derived deserializer of a leaf field whose value is not null. -/
def LeafType.decode (ip : IpText) (type : LeafType) (value : Value) : Option Leaf :=
  match type, value with
  | .scalar type, value => (type.decode ip value).map .scalar
  | .list item, .sequence items => (decodeItems ip item items).map .list
  | .list _, _ => none
  | .textMap, .mapping entries => (decodeTexts entries).map .textMap
  | .textMap, _ => none

/-- The derived serializer of a leaf field. -/
def Leaf.encode : Leaf → Value
  | .scalar value => value.encode
  | .list items => .sequence (items.map Scalar.encode)
  | .textMap entries => .mapping (entries.map fun e => (e.1, .string e.2))

/-- A field of a patch struct: its renamed key, whether it is an `Option`, its type. -/
structure Field (τ : Type) where
  name : String
  optional : Bool
  type : τ
  deriving DecidableEq, Repr

/-- The derived deserializer of one field: `some none` for a skipped `None`, `none` for
an error. -/
def Field.read {τ α : Type} (decode : τ → Value → Option α) (fallback : α) (field : Field τ)
    (m : Mapping) : Option (Option α) :=
  match m.get field.name with
  | none => some (if field.optional then none else some fallback)
  | some value =>
      if field.optional ∧ value = .null then some none
      else (decode field.type value).map some

/-- The derived deserializer of a struct: its fields that are not `None`, in order. -/
def decodeFields {τ α : Type} (decode : τ → Value → Option α) (fallback : α) (m : Mapping) :
    List (Field τ) → Option (List (String × α))
  | [] => some []
  | field :: fields =>
      (field.read decode fallback m).bind fun value =>
        (decodeFields decode fallback m fields).map fun rest =>
          match value with
          | some value => (field.name, value) :: rest
          | none => rest

/-- The types of the fields of `ConfigPatch`. -/
inductive FieldType where
  | leaf (type : LeafType)
  /-- A nested patch struct. -/
  | record (fields : List (Field LeafType))
  deriving DecidableEq, Repr

/-- A decoded field of `ConfigPatch`. -/
inductive FieldValue where
  | leaf (value : Leaf)
  | record (fields : List (String × Leaf))
  deriving DecidableEq, Repr

/-- The derived deserializer of a field of `ConfigPatch` whose value is not null. The only
field of a nested struct that is not an `Option` is `enable`, with default `false`. -/
def FieldType.decode (ip : IpText) (type : FieldType) (value : Value) : Option FieldValue :=
  match type, value with
  | .leaf type, value => (type.decode ip value).map .leaf
  | .record fields, .mapping m =>
      (decodeFields (LeafType.decode ip) (.scalar (.bool false)) m fields).map .record
  | .record _, _ => none

/-- The derived serializer of a field of `ConfigPatch`. -/
def FieldValue.encode : FieldValue → Value
  | .leaf value => value.encode
  | .record fields => .mapping (fields.map fun e => (e.1, e.2.encode))

/-- An optional field. -/
def Field.opt {τ : Type} (name : String) (type : τ) : Field τ := ⟨name, true, type⟩

/-- `TunPatch`. -/
def tunPatch : List (Field LeafType) :=
  [⟨"enable", false, .scalar .bool⟩,
    .opt "device" (.scalar .string),
    .opt "stack" (.scalar .tunStack),
    .opt "dns-hijack" (.list .string),
    .opt "auto-route" (.scalar .bool),
    .opt "auto-detect-interface" (.scalar .bool),
    .opt "mtu" (.scalar .u32),
    .opt "gso" (.scalar .bool),
    .opt "gso-max-size" (.scalar .u32),
    .opt "inet6-address" (.list .ipNet),
    .opt "iproute2-table-index" (.scalar .i64),
    .opt "iproute2-rule-index" (.scalar .i64),
    .opt "auto-redirect" (.scalar .bool),
    .opt "auto-redirect-input-mark" (.scalar .u32),
    .opt "auto-redirect-output-mark" (.scalar .u32),
    .opt "auto-redirect-iproute2-fallback-rule-index" (.scalar .i64),
    .opt "loopback-address" (.list .ipAddr),
    .opt "strict-route" (.scalar .bool),
    .opt "route-address" (.list .ipNet),
    .opt "route-address-set" (.list .string),
    .opt "route-exclude-address" (.list .ipNet),
    .opt "route-exclude-address-set" (.list .string),
    .opt "include-interface" (.list .string),
    .opt "exclude-interface" (.list .string),
    .opt "include-uid" (.list .u32),
    .opt "include-uid-range" (.list .string),
    .opt "exclude-uid" (.list .u32),
    .opt "exclude-uid-range" (.list .string),
    .opt "include-android-user" (.list .i64),
    .opt "include-package" (.list .string),
    .opt "exclude-package" (.list .string),
    .opt "include-mac-address" (.list .string),
    .opt "exclude-mac-address" (.list .string),
    .opt "endpoint-independent-nat" (.scalar .bool),
    .opt "udp-timeout" (.scalar .i64),
    .opt "icmp-timeout" (.scalar .i64),
    .opt "file-descriptor" (.scalar .i64),
    .opt "inet4-route-address" (.list .ipNet),
    .opt "inet6-route-address" (.list .ipNet),
    .opt "inet4-route-exclude-address" (.list .ipNet),
    .opt "inet6-route-exclude-address" (.list .ipNet),
    .opt "recvmsgx" (.scalar .bool),
    .opt "sendmsgx" (.scalar .bool)]

/-- `TuicServerPatch`. -/
def tuicServerPatch : List (Field LeafType) :=
  [⟨"enable", false, .scalar .bool⟩,
    .opt "listen" (.scalar .string),
    .opt "token" (.list .string),
    .opt "users" .textMap,
    .opt "certificate" (.scalar .string),
    .opt "private-key" (.scalar .string),
    .opt "congestion-controller" (.scalar .string),
    .opt "max-idle-time" (.scalar .i64),
    .opt "authentication-timeout" (.scalar .i64),
    .opt "alpn" (.list .string),
    .opt "max-udp-relay-packet-size" (.scalar .i64),
    .opt "cwnd" (.scalar .i64),
    .opt "bbr-profile" (.scalar .string)]

/-- The fields of `ConfigPatch`. -/
def configPatch : List (Field FieldType) :=
  [.opt "port" (.leaf (.scalar .i64)),
    .opt "socks-port" (.leaf (.scalar .i64)),
    .opt "redir-port" (.leaf (.scalar .i64)),
    .opt "tproxy-port" (.leaf (.scalar .i64)),
    .opt "mixed-port" (.leaf (.scalar .i64)),
    .opt "tun" (.record tunPatch),
    .opt "tuic-server" (.record tuicServerPatch),
    .opt "ss-config" (.leaf (.scalar .string)),
    .opt "vmess-config" (.leaf (.scalar .string)),
    .opt "tcptun-config" (.leaf (.scalar .string)),
    .opt "udptun-config" (.leaf (.scalar .string)),
    .opt "allow-lan" (.leaf (.scalar .bool)),
    .opt "skip-auth-prefixes" (.leaf (.list .ipNet)),
    .opt "lan-allowed-ips" (.leaf (.list .ipNet)),
    .opt "lan-disallowed-ips" (.leaf (.list .ipNet)),
    .opt "bind-address" (.leaf (.scalar .string)),
    .opt "mode" (.leaf (.scalar .tunnelMode)),
    .opt "log-level" (.leaf (.scalar .logLevel)),
    .opt "ipv6" (.leaf (.scalar .bool)),
    .opt "sniffing" (.leaf (.scalar .bool)),
    .opt "tcp-concurrent" (.leaf (.scalar .bool)),
    .opt "find-process-mode" (.leaf (.scalar .findProcessMode)),
    .opt "interface-name" (.leaf (.scalar .string))]

/-- A decoded `ConfigPatch`: its fields that are not `None`. -/
structure ConfigPatch where
  fields : List (String × FieldValue)
  deriving DecidableEq, Repr

/-- `from_value::<ConfigPatch>` of a mapping. Every field is an `Option`, so no default
is ever taken. -/
def ConfigPatch.ofMapping (ip : IpText) (document : Mapping) : Option ConfigPatch :=
  (decodeFields (FieldType.decode ip) (.record []) document configPatch).map ConfigPatch.mk

/-- The mapping that `to_value` makes of a patch. -/
def ConfigPatch.toMapping (patch : ConfigPatch) : Mapping :=
  patch.fields.map fun e => (e.1, e.2.encode)

/-- A stack spelling that is decoded to the catch-all variant and encoded differently. -/
def UnknownStack (text : String) : Prop := text ∉ ["gVisor", "system", "mixed", "Unknown"]

instance (text : String) : Decidable (UnknownStack text) :=
  inferInstanceAs (Decidable (text ∉ ["gVisor", "system", "mixed", "Unknown"]))

/-- A text that parses, in canonical form; any other value as it is. -/
def canonicalText (parse : String → Option String) (value : Value) : Value :=
  match value.asStr.bind parse with
  | some text => .string text
  | none => value

/-- A value with its network or address in canonical text. -/
def ScalarType.canonical (ip : IpText) (type : ScalarType) (value : Value) : Value :=
  match type with
  | .ipNet => canonicalText ip.net value
  | .ipAddr => canonicalText ip.addr value
  | _ => value

/-- A field value with its networks and addresses in canonical text. -/
def LeafType.canonical (ip : IpText) (type : LeafType) (value : Value) : Value :=
  match type, value with
  | .scalar type, value => type.canonical ip value
  | .list item, .sequence items => .sequence (items.map (item.canonical ip))
  | .list _, value => value
  | .textMap, value => value

theorem spelling_of_ofSpelling {ε : Type} {variants : List ε} {spelling : ε → String}
    {text : String} {variant : ε} (h : ofSpelling variants spelling text = some variant) :
    spelling variant = text := by
  simpa using List.find?_some h

/-- A known stack spelling is encoded as it was written. -/
theorem spelling_tunStack {text : String} (h : ¬ UnknownStack text) :
    ((ofSpelling [.gvisor, .system, .mixed] TunStack.spelling text).getD .unknown).spelling =
      text := by
  simp only [UnknownStack, not_not, List.mem_cons, List.not_mem_nil, or_false] at h
  rcases h with rfl | rfl | rfl | rfl <;> decide

/-- Every other stack spelling is encoded as `Unknown`. -/
theorem spelling_unknownStack {text : String} (h : UnknownStack text) :
    ((ofSpelling [.gvisor, .system, .mixed] TunStack.spelling text).getD .unknown).spelling =
      "Unknown" := by
  simp only [UnknownStack, List.mem_cons, List.not_mem_nil, or_false, not_or] at h
  obtain ⟨h1, h2, h3, _⟩ := h
  simp [ofSpelling, TunStack.spelling, Ne.symm h1, Ne.symm h2, Ne.symm h3]

/-- A decoded value is encoded as it was, up to canonical address text, unless it is an
unknown stack spelling. -/
theorem ScalarType.encode_decode {ip : IpText} {type : ScalarType} {value : Value}
    {scalar : Scalar} (h : type.decode ip value = some scalar)
    (hstack : type = .tunStack → ∀ text, value = .string text → ¬ UnknownStack text) :
    scalar.encode = type.canonical ip value := by
  cases type with
  | i64 =>
    obtain ⟨z, hz, rfl⟩ := Option.map_eq_some_iff.mp h
    exact (Value.eq_of_asI64 hz).symm
  | u32 =>
    obtain ⟨z, hz, rfl⟩ := Option.map_eq_some_iff.mp h
    exact (Value.eq_of_asI64 (Option.filter_eq_some_iff.mp hz).1).symm
  | bool =>
    obtain ⟨b, hb, rfl⟩ := Option.map_eq_some_iff.mp h
    exact (Value.asBool_eq_some.mp hb).symm
  | string =>
    obtain ⟨text, ht, rfl⟩ := Option.map_eq_some_iff.mp h
    exact (Value.asStr_eq_some.mp ht).symm
  | ipNet | ipAddr =>
    obtain ⟨text, ht, rfl⟩ := Option.map_eq_some_iff.mp h
    simp [canonical, canonicalText, ht, Scalar.encode]
  | tunnelMode | logLevel | findProcessMode =>
    obtain ⟨mode, hm, rfl⟩ := Option.map_eq_some_iff.mp h
    obtain ⟨text, ht, hm⟩ := Option.bind_eq_some_iff.mp hm
    rw [Value.asStr_eq_some] at ht
    subst ht
    simpa [Scalar.encode, canonical] using spelling_of_ofSpelling hm
  | tunStack =>
    obtain ⟨text, ht, rfl⟩ := Option.map_eq_some_iff.mp h
    rw [Value.asStr_eq_some] at ht
    subst ht
    simpa [Scalar.encode, canonical] using spelling_tunStack (hstack rfl text rfl)

theorem encode_decodeItems {ip : IpText} {type : ScalarType} (htype : type ≠ .tunStack)
    {items : List Value} {scalars : List Scalar} (h : decodeItems ip type items = some scalars) :
    scalars.map Scalar.encode = items.map (type.canonical ip) := by
  induction items generalizing scalars with
  | nil => simp_all [decodeItems]
  | cons item items ih =>
    obtain ⟨x, hx, h⟩ := Option.bind_eq_some_iff.mp h
    obtain ⟨rest, hrest, rfl⟩ := Option.map_eq_some_iff.mp h
    have hitem := ScalarType.encode_decode hx fun heq => absurd heq htype
    simp [hitem, ih hrest]

theorem encode_decodeTexts {entries : Mapping} {texts : List (String × String)}
    (h : decodeTexts entries = some texts) :
    (texts.map fun e => (e.1, Value.string e.2)) = entries := by
  induction entries generalizing texts with
  | nil => simp_all [decodeTexts]
  | cons entry entries ih =>
    obtain ⟨text, ht, h⟩ := Option.bind_eq_some_iff.mp h
    obtain ⟨rest, hrest, rfl⟩ := Option.map_eq_some_iff.mp h
    rw [Value.asStr_eq_some] at ht
    simp [ih hrest, ← ht]

/-- A decoded field is encoded as it was, up to canonical address text, unless it is an
unknown stack spelling. -/
theorem LeafType.encode_decode {ip : IpText} {type : LeafType} {value : Value} {leaf : Leaf}
    (h : type.decode ip value = some leaf) (hlist : type ≠ .list .tunStack)
    (hstack : type = .scalar .tunStack → ∀ text, value = .string text → ¬ UnknownStack text) :
    leaf.encode = type.canonical ip value := by
  cases type with
  | scalar type =>
    obtain ⟨x, hx, rfl⟩ := Option.map_eq_some_iff.mp h
    exact ScalarType.encode_decode hx fun heq => hstack (by rw [heq])
  | list item =>
    cases value with
    | sequence items =>
      obtain ⟨xs, hxs, rfl⟩ := Option.map_eq_some_iff.mp h
      have hitem : item ≠ .tunStack := fun heq => hlist (by rw [heq])
      simp [Leaf.encode, canonical, encode_decodeItems hitem hxs]
    | _ => cases h
  | textMap =>
    cases value with
    | mapping entries =>
      obtain ⟨texts, ht, rfl⟩ := Option.map_eq_some_iff.mp h
      simp [Leaf.encode, canonical, encode_decodeTexts ht]
    | _ => cases h

theorem canonicalText_idem {parse : String → Option String}
    (hparse : ∀ {text canonical}, parse text = some canonical → parse canonical = some canonical)
    (value : Value) :
    canonicalText parse (canonicalText parse value) = canonicalText parse value := by
  cases h : value.asStr.bind parse with
  | none => simp [canonicalText, h]
  | some text =>
    obtain ⟨_, _, htext⟩ := Option.bind_eq_some_iff.mp h
    have hagain : (Value.string text).asStr.bind parse = some text := hparse htext
    simp [canonicalText, h, hagain]

theorem ScalarType.canonical_idem (ip : IpText) (type : ScalarType) (value : Value) :
    type.canonical ip (type.canonical ip value) = type.canonical ip value := by
  cases type with
  | ipNet => exact canonicalText_idem ip.net_canonical value
  | ipAddr => exact canonicalText_idem ip.addr_canonical value
  | _ => rfl

/-- Canonical address text is canonical. -/
theorem LeafType.canonical_idem (ip : IpText) (type : LeafType) (value : Value) :
    type.canonical ip (type.canonical ip value) = type.canonical ip value := by
  cases type with
  | scalar type => exact type.canonical_idem ip value
  | list item => cases value <;> simp [canonical, ScalarType.canonical_idem]
  | textMap => rfl

/-- Canonical address text changes no mapping. -/
theorem LeafType.canonical_mapping (ip : IpText) (type : LeafType) (m : Mapping) :
    type.canonical ip (.mapping m) = .mapping m := by
  cases type with
  | scalar type => cases type <;> rfl
  | list item => rfl
  | textMap => rfl

/-- A field encoded as a mapping was a mapping of the same strings. -/
theorem LeafType.texts_of_encode_mapping {ip : IpText} {type : LeafType} {value : Value}
    {leaf : Leaf} {m : Mapping} (h : type.decode ip value = some leaf)
    (hm : leaf.encode = .mapping m) :
    value = .mapping m ∧ ∀ key w, Mapping.get m key = some w → ∃ text, w = .string text := by
  cases type with
  | scalar type =>
    obtain ⟨x, _, rfl⟩ := Option.map_eq_some_iff.mp h
    cases x <;> simp [Leaf.encode, Scalar.encode] at hm
  | list item =>
    cases value with
    | sequence items =>
      obtain ⟨xs, _, rfl⟩ := Option.map_eq_some_iff.mp h
      simp [Leaf.encode] at hm
    | _ => cases h
  | textMap =>
    cases value with
    | mapping entries =>
      obtain ⟨texts, ht, rfl⟩ := Option.map_eq_some_iff.mp h
      have heq : entries = m := by
        rw [← encode_decodeTexts ht]
        simpa [Leaf.encode] using hm
      refine ⟨by rw [heq], fun key w hw => ?_⟩
      rw [← heq, ← encode_decodeTexts ht, Mapping.get, Assoc.lookup_map] at hw
      obtain ⟨text, _, rfl⟩ := Option.map_eq_some_iff.mp hw
      exact ⟨text, rfl⟩
    | _ => cases h

/-- No field is encoded as null. -/
theorem Leaf.encode_ne_null (leaf : Leaf) : leaf.encode ≠ .null := by
  cases leaf with
  | scalar scalar => cases scalar <;> simp [encode, Scalar.encode]
  | list items => simp [encode]
  | textMap entries => simp [encode]

theorem FieldValue.encode_ne_null (value : FieldValue) : value.encode ≠ .null := by
  cases value with
  | leaf leaf => exact leaf.encode_ne_null
  | record fields => simp [encode]

/-- **Decoding a struct.** Every field is found as its own deserializer reads it, and
nothing else is found. -/
theorem decodeFields_lookup {τ α : Type} {decode : τ → Value → Option α} {fallback : α}
    {m : Mapping} {fields : List (Field τ)} {out : List (String × α)}
    (hnodup : (fields.map Field.name).Nodup)
    (h : decodeFields decode fallback m fields = some out) :
    (∀ field ∈ fields, field.read decode fallback m = some (out.lookup field.name)) ∧
      (∀ name, name ∉ fields.map Field.name → out.lookup name = none) ∧
      (out.map Prod.fst).Sublist (fields.map Field.name) := by
  induction fields generalizing out with
  | nil => simp_all [decodeFields]
  | cons field fields ih =>
    obtain ⟨value, hvalue, h⟩ := Option.bind_eq_some_iff.mp h
    obtain ⟨rest, hrest, rfl⟩ := Option.map_eq_some_iff.mp h
    rw [List.map_cons, List.nodup_cons] at hnodup
    obtain ⟨hread, hother, hsub⟩ := ih hnodup.2 hrest
    have hne : ∀ f ∈ fields, f.name ≠ field.name := fun f hf heq =>
      hnodup.1 (heq ▸ List.mem_map_of_mem hf)
    cases value with
    | none =>
      refine ⟨fun f hf => ?_, fun name hname => ?_, hsub.cons _⟩
      · rcases List.mem_cons.mp hf with rfl | hf
        · rw [hother _ hnodup.1, hvalue]
        · exact hread f hf
      · exact hother name fun hmem => hname (by simp [hmem])
    | some value =>
      refine ⟨fun f hf => ?_, fun name hname => ?_, by simpa using hsub⟩
      · rcases List.mem_cons.mp hf with rfl | hf
        · simpa [Assoc.lookup_cons_if] using hvalue
        · rw [Assoc.lookup_cons_if, if_neg (hne f hf)]
          exact hread f hf
      · rw [List.map_cons, List.mem_cons, not_or] at hname
        rw [Assoc.lookup_cons_if, if_neg hname.1]
        exact hother name hname.2

end Nyanpasu.Config
