import Nyanpasu.Config.Value
import Mathlib.Data.List.Infix

/-!
# Inbound listeners of a Mihomo config

A graceful switch boots the new core while the old one still serves. The bootstrap
document is the desired one with its ports zeroed (`zero_inbounds`), so the switch is
allowed only when nothing else in the document would bind (`overlap_block`).
-/

namespace Nyanpasu.Config

/-- `INBOUND_PORT_FIELDS`: the numeric listeners that can be zeroed. -/
def inboundPortFields : List String :=
  ["port", "socks-port", "redir-port", "tproxy-port", "mixed-port"]

/-- `PATCH_FIELDS`: the root keys that `PATCH /configs` accepts. -/
def patchFields : List String :=
  ["port", "socks-port", "redir-port", "tproxy-port", "mixed-port", "tun", "tuic-server",
    "ss-config", "vmess-config", "tcptun-config", "udptun-config", "allow-lan",
    "skip-auth-prefixes", "lan-allowed-ips", "lan-disallowed-ips", "bind-address", "mode",
    "log-level", "ipv6", "sniffing", "tcp-concurrent", "find-process-mode", "interface-name"]

/-- The server configs whose only harmless value is the empty string. -/
def serverConfigFields : List String :=
  ["ss-config", "vmess-config", "tcptun-config", "udptun-config"]

/-- `zero_listener`: a nonzero port becomes zero. -/
def zeroListener (document : Mapping) (key : String) : Mapping :=
  match (document.get key).bind Value.asI64 with
  | some value => if value ≠ 0 then document.insert key (.number (.int 0)) else document
  | none => document

/-- `zero_inbounds`: zero every port and switch an enabled tun off. -/
def zeroInbounds (document : Mapping) : Mapping :=
  let document := inboundPortFields.foldl zeroListener document
  match (document.get "tun").bind Value.asMapping with
  | some tun =>
      if (tun.get "enable").bind Value.asBool = some true then
        document.insert "tun" (.mapping (tun.insert "enable" (.bool false)))
      else document
  | none => document

/-- `OverlapBlock`: why the two cores cannot overlap. -/
inductive OverlapBlock where
  | dnsListen
  | inboundSurface
  deriving DecidableEq, Repr

/-- `nonempty_collection`. -/
def nonemptyCollection : Value → Bool
  | .null => false
  | .string value => value ≠ ""
  | .sequence items => !items.isEmpty
  | .mapping entries => !entries.isEmpty
  | .bool _ | .number _ => true

/-- `dns_listen`: the value of `dns.listen`, when `dns` is a mapping that has one. -/
def dnsListen (document : Mapping) : Option Value :=
  ((document.get "dns").bind Value.asMapping).bind (·.get "listen")

/-- The test of the last loop of `overlap_block` on a root key. -/
def inboundLike (key : String) : Prop :=
  "-port".toList <:+ key.toList ∨ "listener".toList <:+: key.toList ∨
    "inbound".toList <:+: key.toList ∨ "tunnel".toList <:+: key.toList

instance (key : String) : Decidable (inboundLike key) :=
  inferInstanceAs (Decidable ("-port".toList <:+ key.toList ∨ "listener".toList <:+: key.toList ∨
    "inbound".toList <:+: key.toList ∨ "tunnel".toList <:+: key.toList))

/-- The port check of `overlap_block`. -/
def portBlocks (document : Mapping) (key : String) : Bool :=
  (document.get key).any (·.asI64.isNone)

/-- The tun check of `overlap_block`. -/
def tunBlocks (document : Mapping) : Bool :=
  (document.get "tun").any fun tun =>
    match tun.asMapping with
    | none => true
    | some tun => (tun.get "enable").any (·.asBool.isNone)

/-- The tuic-server check of `overlap_block`. -/
def tuicBlocks (document : Mapping) : Bool :=
  (document.get "tuic-server").any fun tuic =>
    match tuic.asMapping with
    | none => true
    | some tuic =>
        match tuic.get "enable" with
        | some enable => enable.asBool ≠ some false
        | none => !tuic.isEmpty

/-- The check of the four server configs. -/
def serverConfigBlocks (document : Mapping) (key : String) : Bool :=
  (document.get key).any (·.asStr ≠ some "")

/-- The check of `listeners` and `tunnels`. -/
def collectionBlocks (document : Mapping) (key : String) : Bool :=
  (document.get key).any nonemptyCollection

/-- The check of the remaining root keys. -/
def keyBlocks (key : String) : Bool :=
  decide (inboundLike key) && !patchFields.contains key && !(["listeners", "tunnels"].contains key)

/-- `overlap_block`: a chain of early returns, the first of which answers for the
whole document as soon as `dns.listen` is present. -/
def overlapBlock (document : Mapping) : Option OverlapBlock :=
  match dnsListen document with
  | some listen =>
      match listen.asStr with
      | some "" => none
      | some _ => some .dnsListen
      | none => if listen = .null then none else some .inboundSurface
  | none =>
      if inboundPortFields.any (portBlocks document) then some .inboundSurface
      else if tunBlocks document then some .inboundSurface
      else if tuicBlocks document then some .inboundSurface
      else if serverConfigFields.any (serverConfigBlocks document) then some .inboundSurface
      else if ["listeners", "tunnels"].any (collectionBlocks document) then some .inboundSurface
      else if document.keys.any keyBlocks then some .inboundSurface
      else none

/-- The values that stand for an empty collection. -/
def Value.Vacant (value : Value) : Prop :=
  value = .null ∨ value = .string "" ∨ value = .sequence [] ∨ value = .mapping []

/-- An inbound that the bootstrap would still bind, apart from `dns.listen`. -/
inductive OtherInbound (d : Mapping) : Prop where
  /-- A port that is not an `i64`, which `zero_inbounds` leaves alone. -/
  | port (key : String) (value : Value) (hkey : key ∈ inboundPortFields)
      (hvalue : d.get key = some value) (hi64 : value.asI64 = none)
  /-- A `tun` that is not a mapping. -/
  | tun (value : Value) (hvalue : d.get "tun" = some value) (hmapping : value.asMapping = none)
  /-- A `tun.enable` that is not a boolean. -/
  | tunEnable (tun : Mapping) (value : Value) (htun : d.get "tun" = some (.mapping tun))
      (hvalue : tun.get "enable" = some value) (hbool : value.asBool = none)
  /-- A `tuic-server` that is not a mapping. -/
  | tuic (value : Value) (hvalue : d.get "tuic-server" = some value)
      (hmapping : value.asMapping = none)
  /-- A `tuic-server` with content that is not disabled. -/
  | tuicEnable (tuic : Mapping) (htuic : d.get "tuic-server" = some (.mapping tuic))
      (hne : tuic ≠ []) (henable : tuic.get "enable" ≠ some (.bool false))
  /-- A server config that is not the empty string. -/
  | serverConfig (key : String) (value : Value) (hkey : key ∈ serverConfigFields)
      (hvalue : d.get key = some value) (hne : value ≠ .string "")
  /-- Listeners or tunnels that are not empty. -/
  | collection (key : String) (value : Value) (hkey : key ∈ ["listeners", "tunnels"])
      (hvalue : d.get key = some value) (hne : ¬ value.Vacant)
  /-- Another root key that looks like an inbound. -/
  | unknown (key : String) (hkey : key ∈ d.keys) (hlike : inboundLike key)
      (hpatch : key ∉ patchFields) (hcollection : key ∉ ["listeners", "tunnels"])

/-- A document with no inbound of the kinds above. -/
structure SurfaceClear (d : Mapping) : Prop where
  /-- Every port is absent or an `i64`. -/
  ports : ∀ key ∈ inboundPortFields, ∀ value, d.get key = some value → value.asI64 ≠ none
  /-- `tun` is absent or a mapping whose `enable` is absent or a boolean. -/
  tun : ∀ value, d.get "tun" = some value → ∃ tun, value = .mapping tun ∧
    ∀ enable, Mapping.get tun "enable" = some enable → ∃ b, enable = .bool b
  /-- `tuic-server` is absent, empty or disabled. -/
  tuic : ∀ value, d.get "tuic-server" = some value → ∃ tuic, value = .mapping tuic ∧
    (tuic = [] ∨ Mapping.get tuic "enable" = some (.bool false))
  /-- The server configs are absent or empty strings. -/
  serverConfigs : ∀ key ∈ serverConfigFields, ∀ value, d.get key = some value →
    value = .string ""
  /-- `listeners` and `tunnels` are absent or empty. -/
  collections : ∀ key ∈ ["listeners", "tunnels"], ∀ value, d.get key = some value →
    value.Vacant
  /-- No other root key looks like an inbound. -/
  unknown : ∀ key ∈ d.keys, inboundLike key → key ∈ patchFields ∨ key ∈ ["listeners", "tunnels"]

/-- A document that leaves nothing for the bootstrap to bind. -/
structure NoInbound (d : Mapping) : Prop extends SurfaceClear d where
  /-- `dns.listen` is absent, null or empty. -/
  dns : ∀ value, dnsListen d = some value → value = .null ∨ value = .string ""

/-- A bootstrap document: every port zero or absent, and tun not enabled. -/
structure Zeroed (d : Mapping) : Prop where
  ports : ∀ key ∈ inboundPortFields, ∀ value, d.get key = some value →
    value = .number (.int 0)
  tun : ∀ tun, d.get "tun" = some (.mapping tun) → Mapping.get tun "enable" ≠ some (.bool true)

/-- `nonempty_collection` refuses exactly the values that are not vacant. -/
theorem nonemptyCollection_eq_false_iff (value : Value) :
    nonemptyCollection value = false ↔ value.Vacant := by
  cases value <;> simp [nonemptyCollection, Value.Vacant]

/-- `SurfaceClear` is the absence of every other inbound. -/
theorem surfaceClear_iff (d : Mapping) : SurfaceClear d ↔ ¬ OtherInbound d := by
  constructor
  · rintro ⟨hports, htun, htuic, hserver, hcollection, hunknown⟩ hother
    cases hother with
    | port key value hkey hvalue hi64 => exact hports key hkey value hvalue hi64
    | tun value hvalue hmapping =>
      obtain ⟨tun, rfl, _⟩ := htun value hvalue
      simp [Value.asMapping] at hmapping
    | tunEnable tun value hget hvalue hbool =>
      obtain ⟨tun', heq, henable⟩ := htun _ hget
      cases heq
      obtain ⟨b, rfl⟩ := henable value hvalue
      simp [Value.asBool] at hbool
    | tuic value hvalue hmapping =>
      obtain ⟨tuic, rfl, _⟩ := htuic value hvalue
      simp [Value.asMapping] at hmapping
    | tuicEnable tuic hget hne henable =>
      obtain ⟨tuic', heq, hor⟩ := htuic _ hget
      cases heq
      exact hor.elim hne henable
    | serverConfig key value hkey hvalue hne => exact hne (hserver key hkey value hvalue)
    | collection key value hkey hvalue hne => exact hne (hcollection key hkey value hvalue)
    | unknown key hkey hlike hpatch hcoll =>
      exact (hunknown key hkey hlike).elim hpatch hcoll
  · intro h
    refine ⟨fun key hkey value hvalue hi64 => h (.port key value hkey hvalue hi64), ?_, ?_,
      fun key hkey value hvalue => ?_, fun key hkey value hvalue => ?_,
      fun key hkey hlike => ?_⟩
    · intro value hvalue
      cases hmapping : value.asMapping with
      | none => exact absurd (.tun value hvalue hmapping) h
      | some tun =>
        rw [Value.asMapping_eq_some] at hmapping
        subst hmapping
        refine ⟨tun, rfl, fun enable henable => ?_⟩
        cases hbool : enable.asBool with
        | none => exact absurd (.tunEnable tun enable hvalue henable hbool) h
        | some b => exact ⟨b, Value.asBool_eq_some.mp hbool⟩
    · intro value hvalue
      cases hmapping : value.asMapping with
      | none => exact absurd (.tuic value hvalue hmapping) h
      | some tuic =>
        rw [Value.asMapping_eq_some] at hmapping
        subst hmapping
        refine ⟨tuic, rfl, ?_⟩
        by_contra hnot
        rw [not_or] at hnot
        exact h (.tuicEnable tuic hvalue hnot.1 hnot.2)
    · by_contra hne
      exact h (.serverConfig key value hkey hvalue hne)
    · by_contra hne
      exact h (.collection key value hkey hvalue hne)
    · by_contra hnot
      rw [not_or] at hnot
      exact h (.unknown key hkey hlike hnot.1 hnot.2)

theorem portBlocks_eq_false_iff (d : Mapping) (key : String) : portBlocks d key = false ↔
    ∀ value, d.get key = some value → value.asI64 ≠ none := by
  cases h : d.get key <;> simp [portBlocks, h, Option.isSome_iff_ne_none]

theorem tunBlocks_eq_false_iff (d : Mapping) : tunBlocks d = false ↔
    ∀ value, d.get "tun" = some value → ∃ tun, value = .mapping tun ∧
      ∀ enable, Mapping.get tun "enable" = some enable → ∃ b, enable = .bool b := by
  cases h : d.get "tun" with
  | none => simp [tunBlocks, h]
  | some value =>
    cases value with
    | mapping tun =>
      cases henable : Mapping.get tun "enable" with
      | none => simp [tunBlocks, h, Value.asMapping, henable]
      | some enable => cases enable <;> simp [tunBlocks, h, Value.asMapping, henable, Value.asBool]
    | _ => simp [tunBlocks, h, Value.asMapping]

theorem tuicBlocks_eq_false_iff (d : Mapping) : tuicBlocks d = false ↔
    ∀ value, d.get "tuic-server" = some value → ∃ tuic, value = .mapping tuic ∧
      (tuic = [] ∨ Mapping.get tuic "enable" = some (.bool false)) := by
  cases h : d.get "tuic-server" with
  | none => simp [tuicBlocks, h]
  | some value =>
    cases value with
    | mapping tuic =>
      cases henable : Mapping.get tuic "enable" with
      | none => simp [tuicBlocks, h, Value.asMapping, henable]
      | some enable =>
        have hne : tuic ≠ [] := by
          rintro rfl
          simp [Mapping.get] at henable
        cases enable <;> simp [tuicBlocks, h, Value.asMapping, henable, Value.asBool, hne]
    | _ => simp [tuicBlocks, h, Value.asMapping]

theorem serverConfigBlocks_eq_false_iff (d : Mapping) (key : String) :
    serverConfigBlocks d key = false ↔ ∀ value, d.get key = some value → value = .string "" := by
  cases h : d.get key <;> simp [serverConfigBlocks, h]

theorem collectionBlocks_eq_false_iff (d : Mapping) (key : String) :
    collectionBlocks d key = false ↔ ∀ value, d.get key = some value → value.Vacant := by
  cases h : d.get key <;> simp [collectionBlocks, h, nonemptyCollection_eq_false_iff]

theorem keyBlocks_eq_false_iff (key : String) : keyBlocks key = false ↔
    (inboundLike key → key ∈ patchFields ∨ key ∈ ["listeners", "tunnels"]) := by
  by_cases hlike : inboundLike key <;> simp [keyBlocks, hlike, or_iff_not_imp_left]

/-- Without a `dns.listen` the remaining checks pass exactly when no other inbound is
there. -/
theorem overlapBlock_of_dnsListen_none {d : Mapping} (hdns : dnsListen d = none) :
    overlapBlock d = none ↔ SurfaceClear d := by
  have hchain : overlapBlock d = none ↔
      inboundPortFields.any (portBlocks d) = false ∧ tunBlocks d = false ∧
        tuicBlocks d = false ∧ serverConfigFields.any (serverConfigBlocks d) = false ∧
        ["listeners", "tunnels"].any (collectionBlocks d) = false ∧
        d.keys.any keyBlocks = false := by
    simp only [overlapBlock, hdns]
    repeat' split
    all_goals simp_all only [Bool.not_eq_true, reduceCtorEq, and_self, Bool.true_eq_false,
      false_and, and_false]
  rw [hchain]
  simp only [List.any_eq_false, Bool.not_eq_true, portBlocks_eq_false_iff,
    tunBlocks_eq_false_iff, tuicBlocks_eq_false_iff, serverConfigBlocks_eq_false_iff,
    collectionBlocks_eq_false_iff, keyBlocks_eq_false_iff]
  exact ⟨fun ⟨h1, h2, h3, h4, h5, h6⟩ => ⟨h1, h2, h3, h4, h5, h6⟩,
    fun ⟨h1, h2, h3, h4, h5, h6⟩ => ⟨h1, h2, h3, h4, h5, h6⟩⟩

/-- A `dns.listen` that is present decides alone. -/
theorem overlapBlock_of_dnsListen_some {d : Mapping} {listen : Value}
    (hdns : dnsListen d = some listen) :
    overlapBlock d = none ↔ listen = .null ∨ listen = .string "" := by
  simp only [overlapBlock, hdns]
  cases listen with
  | string s =>
    simp only [Value.asStr]
    split <;> simp_all
  | _ => simp [Value.asStr]

/-- `zero_listener` changes no other key. -/
theorem zeroListener_get_of_ne (d : Mapping) {key key' : String} (h : key' ≠ key) :
    (zeroListener d key).get key' = d.get key' := by
  unfold zeroListener
  repeat' split
  all_goals simp [h]

/-- `zero_listener` leaves its own key absent, zero, or as it was when not an `i64`. -/
theorem zeroListener_get_self (d : Mapping) (key : String)
    (hi64 : ∀ value, d.get key = some value → value.asI64 ≠ none) :
    ∀ value, (zeroListener d key).get key = some value → value = .number (.int 0) := by
  intro value hvalue
  cases hget : d.get key with
  | none => simp [zeroListener, hget] at hvalue
  | some old =>
    obtain ⟨z, hz⟩ := Option.ne_none_iff_exists'.mp (hi64 old hget)
    obtain rfl := Value.eq_of_asI64 hz
    by_cases hzero : z = 0
    · subst hzero
      simpa [zeroListener, hget, hz] using hvalue.symm
    · simpa [zeroListener, hget, hz, hzero] using hvalue.symm

/-- Zeroing a list of distinct ports. -/
theorem foldl_zeroListener_get (keys : List String) (d : Mapping)
    (hi64 : ∀ key ∈ keys, ∀ value, d.get key = some value → value.asI64 ≠ none) :
    (∀ key ∈ keys, ∀ value, (keys.foldl zeroListener d).get key = some value →
      value = .number (.int 0)) ∧
    ∀ key ∉ keys, (keys.foldl zeroListener d).get key = d.get key := by
  induction keys generalizing d with
  | nil => simp
  | cons k keys ih =>
    have hzero := zeroListener_get_self d k (hi64 k (by simp))
    have hnext : ∀ key ∈ keys, ∀ value, (zeroListener d k).get key = some value →
        value.asI64 ≠ none := by
      intro key hkey value hvalue
      by_cases hk : key = k
      · subst hk
        simp [hzero value hvalue, Value.asI64]
      · rw [zeroListener_get_of_ne d hk] at hvalue
        exact hi64 key (by simp [hkey]) value hvalue
    obtain ⟨hin, hout⟩ := ih (zeroListener d k) hnext
    refine ⟨fun key hkey value hvalue => ?_, fun key hkey => ?_⟩
    · by_cases hmem : key ∈ keys
      · exact hin key hmem value hvalue
      · obtain rfl : key = k := (List.mem_cons.mp hkey).resolve_right hmem
        rw [List.foldl_cons, hout key hmem] at hvalue
        exact hzero value hvalue
    · rw [List.mem_cons, not_or] at hkey
      rw [List.foldl_cons, hout key hkey.2, zeroListener_get_of_ne d hkey.1]

/-- `zero_inbounds` zeroes a document whose ports are all `i64`. -/
theorem zeroInbounds_zeroed {d : Mapping} (h : SurfaceClear d) : Zeroed (zeroInbounds d) := by
  obtain ⟨hports, hrest⟩ := foldl_zeroListener_get inboundPortFields d h.ports
  have htun : "tun" ∉ inboundPortFields := by decide
  simp only [zeroInbounds]
  split
  next tun heq =>
    obtain ⟨value, hvalue, hmapping⟩ := Option.bind_eq_some_iff.mp heq
    rw [Value.asMapping_eq_some] at hmapping
    subst hmapping
    split
    next henable =>
      refine ⟨fun key hkey value hvalue => ?_, fun tun' htun' => ?_⟩
      · have hne : key ≠ "tun" := fun heq => htun (heq ▸ hkey)
        rw [Mapping.get_insert, if_neg hne] at hvalue
        exact hports key hkey value hvalue
      · rw [Mapping.get_insert, if_pos rfl] at htun'
        cases htun'
        rw [Mapping.get_insert, if_pos rfl]
        simp
    next henable =>
      refine ⟨hports, fun tun' htun' henable' => henable ?_⟩
      rw [hvalue] at htun'
      cases htun'
      simp [henable', Value.asBool]
  next hnone =>
    refine ⟨hports, fun tun' htun' => ?_⟩
    simp [htun', Value.asMapping] at hnone

/-- **Overlap soundness, exactly.** A document that `overlap_block` lets pass is free of
inbounds, and its bootstrap is zeroed, unless an explicit empty `dns.listen` answered
for a document that has another inbound. -/
theorem overlapBlock_sound_iff (d : Document) :
    (overlapBlock d.entries = none → NoInbound d.entries ∧ Zeroed (zeroInbounds d.entries)) ↔
      ¬ ((dnsListen d.entries = some .null ∨ dnsListen d.entries = some (.string "")) ∧
        OtherInbound d.entries) := by
  constructor
  · rintro h ⟨hdns, hother⟩
    have hpass : overlapBlock d.entries = none := by
      rcases hdns with hdns | hdns
      · exact (overlapBlock_of_dnsListen_some hdns).mpr (Or.inl rfl)
      · exact (overlapBlock_of_dnsListen_some hdns).mpr (Or.inr rfl)
    exact (surfaceClear_iff _).mp (h hpass).1.toSurfaceClear hother
  · intro h hpass
    have hclear : SurfaceClear d.entries ∧
        ∀ value, dnsListen d.entries = some value → value = .null ∨ value = .string "" := by
      cases hdns : dnsListen d.entries with
      | none => exact ⟨(overlapBlock_of_dnsListen_none hdns).mp hpass, by simp⟩
      | some listen =>
        have hempty := (overlapBlock_of_dnsListen_some hdns).mp hpass
        refine ⟨(surfaceClear_iff _).mpr fun hother => h ⟨?_, hother⟩, ?_⟩
        · simpa [hdns] using hempty
        · rintro value heq
          cases heq
          exact hempty
    exact ⟨⟨hclear.1, hclear.2⟩, zeroInbounds_zeroed hclear.1⟩

/-- A document with an explicit empty `dns.listen` and one listener. -/
def emptyDnsListenDocument : Document where
  entries := [("dns", .mapping [("listen", .string "")]),
    ("listeners", .sequence [.mapping [("type", .string "http")]])]
  canonical := by decide

/-- The early return on an empty `dns.listen` hides the listener. -/
theorem overlapBlock_unsound : ¬ ∀ d : Document, overlapBlock d.entries = none →
    NoInbound d.entries ∧ Zeroed (zeroInbounds d.entries) := by
  intro h
  have hclear := (h emptyDnsListenDocument (by decide)).1.collections "listeners" (by decide)
    (.sequence [.mapping [("type", .string "http")]]) (by decide)
  simp [Value.Vacant] at hclear

end Nyanpasu.Config
