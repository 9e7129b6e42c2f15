import Nyanpasu.Config.Patch
import Nyanpasu.Config.Prepare

/-!
# Restoring a bootstrap

A graceful switch prepares the source document twice, once as it is and once with its
inbounds zeroed, and asks for the patch that turns the second into the first. This file
says where the two prepared documents differ and when the patch exists: `overlap_block`
looks at few keys of `tun`, while the patch decodes all of them.
-/

namespace Nyanpasu.Config

/-- A port that `zero_listener` zeroes. -/
def NonzeroPort (d : Mapping) (key : String) : Prop :=
  key ∈ inboundPortFields ∧ ∃ z, (d.get key).bind Value.asI64 = some z ∧ z ≠ 0

/-- A tun that `zero_inbounds` switches off. -/
def EnabledTun (d tun : Mapping) : Prop :=
  d.get "tun" = some (.mapping tun) ∧ Mapping.get tun "enable" = some (.bool true)

/-- The paths that `zero_inbounds` writes. -/
inductive ZeroedAt (d : Mapping) : List String → Prop where
  | port (key : String) (h : NonzeroPort d key) : ZeroedAt d [key]
  | tun (tun : Mapping) (h : EnabledTun d tun) : ZeroedAt d ["tun", "enable"]

/-- What `zero_inbounds` writes: a zero for a port, `false` for `tun.enable`. -/
def ZeroValue (value : Value) : Prop := value = .number (.int 0) ∨ value = .bool false

/-- Every field of an enabled tun that the patch carries is null or of the type that
`TunPatch` gives it. -/
def Restorable (ip : IpText) (d : Mapping) : Prop :=
  ∀ tun, EnabledTun d tun → ∀ field ∈ tunPatch, ∀ value, Mapping.get tun field.name = some value →
    field.optional = true ∧ value = .null ∨ ∃ leaf, field.type.decode ip value = some leaf

theorem NonzeroPort.get {d : Mapping} {key : String} (h : NonzeroPort d key) :
    ∃ z, d.get key = some (.number (.int z)) ∧ (Value.number (.int z)).asI64 = some z ∧ z ≠ 0 := by
  obtain ⟨_, z, hz, hne⟩ := h
  obtain ⟨value, hvalue, hi64⟩ := Option.bind_eq_some_iff.mp hz
  obtain rfl := Value.eq_of_asI64 hi64
  exact ⟨z, hvalue, hi64, hne⟩

section Zeroing

/-- `zero_listener` on its own key. -/
theorem zeroListener_get_key (d : Mapping) (key : String) :
    (∀ z, (d.get key).bind Value.asI64 = some z → z ≠ 0 →
      (zeroListener d key).get key = some (.number (.int 0))) ∧
    ((∀ z, (d.get key).bind Value.asI64 = some z → z = 0) →
      (zeroListener d key).get key = d.get key) := by
  constructor
  · intro z hz hne
    simp [zeroListener, hz, hne]
  · intro hzero
    cases hi64 : (d.get key).bind Value.asI64 with
    | none => simp [zeroListener, hi64]
    | some z => simp [zeroListener, hi64, hzero z hi64]

/-- Zeroing a list of distinct ports, whatever their values are. -/
theorem foldl_zeroListener_get_key (keys : List String) (hnodup : keys.Nodup) (d : Mapping) :
    (∀ key ∈ keys, ∀ z, (d.get key).bind Value.asI64 = some z → z ≠ 0 →
      (keys.foldl zeroListener d).get key = some (.number (.int 0))) ∧
    ∀ key, (key ∈ keys → ∀ z, (d.get key).bind Value.asI64 = some z → z = 0) →
      (keys.foldl zeroListener d).get key = d.get key := by
  induction keys generalizing d with
  | nil => simp
  | cons k keys ih =>
    rw [List.nodup_cons] at hnodup
    obtain ⟨hin, hout⟩ := ih hnodup.2 (zeroListener d k)
    have hlater : ∀ key, key ≠ k → (zeroListener d k).get key = d.get key := fun key hne =>
      zeroListener_get_of_ne d hne
    have hself : (keys.foldl zeroListener (zeroListener d k)).get k = (zeroListener d k).get k :=
      hout k fun hmem => absurd hmem hnodup.1
    constructor
    · intro key hkey z hz hne
      by_cases hk : key = k
      · subst hk
        rw [List.foldl_cons, hself]
        exact (zeroListener_get_key d key).1 z hz hne
      · have hmem : key ∈ keys := (List.mem_cons.mp hkey).resolve_left hk
        rw [List.foldl_cons]
        exact hin key hmem z (by rwa [hlater key hk]) hne
    · intro key hzero
      by_cases hk : key = k
      · subst hk
        rw [List.foldl_cons, hself]
        exact (zeroListener_get_key d key).2 (hzero List.mem_cons_self)
      · rw [List.foldl_cons, hout key, hlater key hk]
        intro hmem z hz
        rw [hlater key hk] at hz
        exact hzero (List.mem_cons_of_mem k hmem) z hz

theorem not_nonzeroPort {d : Mapping} {key : String} (h : ¬ NonzeroPort d key)
    (hkey : key ∈ inboundPortFields) : ∀ z, (d.get key).bind Value.asI64 = some z → z = 0 := by
  intro z hz
  by_contra hne
  exact h ⟨hkey, z, hz, hne⟩

/-- The ports loop of `zero_inbounds` leaves `tun` as it was. -/
theorem foldl_zeroListener_get_tun (d : Mapping) :
    (inboundPortFields.foldl zeroListener d).get "tun" = d.get "tun" :=
  (foldl_zeroListener_get_key _ (by decide) d).2 "tun" fun hmem => absurd hmem (by decide)

/-- `zero_inbounds` with an enabled tun. -/
theorem zeroInbounds_of_enabled {d tun : Mapping} (h : EnabledTun d tun) :
    zeroInbounds d = (inboundPortFields.foldl zeroListener d).insert "tun"
      (.mapping (tun.insert "enable" (.bool false))) := by
  simp [zeroInbounds, foldl_zeroListener_get_tun, h.1, h.2, Value.asBool]

/-- `zero_inbounds` without one. -/
theorem zeroInbounds_of_not_enabled {d : Mapping} (h : ∀ tun, ¬ EnabledTun d tun) :
    zeroInbounds d = inboundPortFields.foldl zeroListener d := by
  simp only [zeroInbounds, foldl_zeroListener_get_tun]
  cases htun : (d.get "tun").bind Value.asMapping with
  | none => rfl
  | some tun =>
    obtain ⟨value, hvalue, hmapping⟩ := Option.bind_eq_some_iff.mp htun
    rw [Value.asMapping_eq_some] at hmapping
    subst hmapping
    have hoff : (Mapping.get tun "enable").bind Value.asBool ≠ some true := by
      intro henable
      obtain ⟨enable, hget, hbool⟩ := Option.bind_eq_some_iff.mp henable
      rw [Value.asBool_eq_some] at hbool
      exact h tun ⟨hvalue, hbool ▸ hget⟩
    simp [hoff]

end Zeroing

/-- How a bootstrap and a full document come from one source document. -/
structure Bootstrapped (d bootstrap full : Mapping) : Prop where
  /-- A nonzero port is zero in the bootstrap and kept in the full document. -/
  port : ∀ key, NonzeroPort d key →
    bootstrap.get key = some (.number (.int 0)) ∧ full.get key = d.get key
  /-- An enabled tun is off in the bootstrap and kept in the full document. -/
  tun : ∀ tun, EnabledTun d tun →
    bootstrap.get "tun" = some (.mapping (tun.insert "enable" (.bool false))) ∧
      full.get "tun" = some (.mapping tun)
  /-- Every other root is the same in both. -/
  rest : ∀ key, ¬ NonzeroPort d key → (key = "tun" → ∀ tun, ¬ EnabledTun d tun) →
    bootstrap.get key = full.get key

/-- `zero_inbounds` makes a bootstrap of a document. -/
theorem zeroInbounds_bootstrapped (d : Mapping) : Bootstrapped d (zeroInbounds d) d := by
  obtain ⟨hports, hother⟩ := foldl_zeroListener_get_key inboundPortFields (by decide) d
  have hrest : ∀ key, ¬ NonzeroPort d key →
      (inboundPortFields.foldl zeroListener d).get key = d.get key := fun key hkey =>
    hother key (not_nonzeroPort hkey)
  by_cases htun : ∃ tun, EnabledTun d tun
  · obtain ⟨tun, htun⟩ := htun
    rw [zeroInbounds_of_enabled htun]
    refine ⟨fun key hkey => ?_, fun tun' htun' => ?_, fun key hkey hoff => ?_⟩
    · have hne : key ≠ "tun" := by
        rintro rfl
        exact absurd hkey.1 (by decide)
      obtain ⟨hmem, z, hz, hnonzero⟩ := hkey
      rw [Mapping.get_insert, if_neg hne]
      exact ⟨hports key hmem z hz hnonzero, rfl⟩
    · have heq : tun' = tun := by
        have := htun'.1.symm.trans htun.1
        simpa using this
      subst heq
      rw [Mapping.get_insert, if_pos rfl]
      exact ⟨rfl, htun.1⟩
    · have hne : key ≠ "tun" := fun heq => hoff heq tun htun
      rw [Mapping.get_insert, if_neg hne]
      exact hrest key hkey
  · rw [not_exists] at htun
    rw [zeroInbounds_of_not_enabled htun]
    refine ⟨fun key hkey => ?_, fun tun htun' => absurd htun' (htun tun), fun key hkey _ =>
      hrest key hkey⟩
    obtain ⟨hmem, z, hz, hnonzero⟩ := hkey
    exact ⟨hports key hmem z hz hnonzero, rfl⟩

section Canonicalization

/-- A mapping with unique keys and canonical values, in any order. -/
structure Regular (m : Mapping) : Prop where
  nodup : (m.map Prod.fst).Nodup
  values : ∀ e ∈ m, e.2.Canonical

theorem regular_of_canonical {m : Mapping} (h : (Value.mapping m).Canonical) : Regular m := by
  simp only [Value.Canonical] at h
  exact ⟨Assoc.nodup_of_sorted h.1, canonicalEntries_iff.mp h.2⟩

theorem Regular.insert {m : Mapping} (h : Regular m) (key : String) {value : Value}
    (hvalue : value.Canonical) : Regular (m.insert key value) := by
  constructor
  · rw [Mapping.insert, Assoc.keys_insert]
    split
    · exact h.nodup
    · rename_i hkey
      exact List.nodup_append.mpr ⟨h.nodup, by simp, by
        rintro a ha b hb rfl
        rw [List.mem_singleton] at hb
        exact hkey (hb ▸ ha)⟩
  · intro e he
    rcases Assoc.mem_insert he with rfl | he
    · exact hvalue
    · exact h.values e he

theorem Regular.remove {m : Mapping} (h : Regular m) (key : String) : Regular (m.remove key) := by
  constructor
  · exact h.nodup.sublist (List.filter_sublist.map Prod.fst)
  · intro e he
    exact h.values e (List.mem_of_mem_filter he)

/-- Canonicalization keeps the values of a regular mapping. -/
theorem Regular.canonicalize_get {m : Mapping} (h : Regular m) (key : String) :
    (Document.canonicalize m).entries.get key = m.get key := by
  have hself : canonicalizeEntries m = m :=
    canonicalizeEntries_eq_self m (canonicalEntries_iff.mpr h.values)
  change (ofEntries (canonicalizeEntries m)).get key = m.get key
  rw [hself]
  exact ofEntries_get h.nodup key

/-- A present key can be overwritten in a canonical mapping. -/
theorem canonical_insert {m : Mapping} (h : (Value.mapping m).Canonical) {key : String}
    {value : Value} (hkey : m.get key ≠ none) (hvalue : value.Canonical) :
    (Value.mapping (m.insert key value)).Canonical := by
  have hvalues := ((regular_of_canonical h).insert key hvalue).values
  simp only [Value.Canonical] at h ⊢
  refine ⟨?_, canonicalEntries_iff.mpr hvalues⟩
  rw [Mapping.insert, Assoc.keys_insert, if_pos (Assoc.lookup_ne_none_iff.mp hkey)]
  exact h.1

theorem Regular.zeroListener {m : Mapping} (h : Regular m) (key : String) :
    Regular (zeroListener m key) := by
  unfold Config.zeroListener
  split
  · split
    · exact h.insert key (by simp [Value.Canonical])
    · exact h
  · exact h

theorem Regular.foldl_zeroListener (keys : List String) {m : Mapping} (h : Regular m) :
    Regular (keys.foldl Config.zeroListener m) := by
  induction keys generalizing m with
  | nil => exact h
  | cons key keys ih => exact ih (h.zeroListener key)

/-- The zeroed document is regular. -/
theorem Regular.zeroInbounds (d : Document) : Regular (zeroInbounds d.entries) := by
  have hports := (regular_of_canonical d.canonical).foldl_zeroListener inboundPortFields
  by_cases htun : ∃ tun, EnabledTun d.entries tun
  · obtain ⟨tun, htun⟩ := htun
    rw [zeroInbounds_of_enabled htun]
    have hcanonical : (Value.mapping tun).Canonical := d.canonical.get htun.1
    exact hports.insert "tun"
      (canonical_insert hcanonical (by simp [htun.2]) (by simp [Value.Canonical]))
  · rw [not_exists] at htun
    rw [zeroInbounds_of_not_enabled htun]
    exact hports

theorem Regular.rewriteManagedController {m : Mapping} (h : Regular m) (platform : Platform)
    (endpoint : String) : Regular (rewriteManagedController platform m endpoint) :=
  (((h.remove _).remove _).remove _).insert _ (by simp [Value.Canonical])

end Canonicalization

section Prepared

variable {site : Site} {snapshot : ConfigSnapshot} {endpoint : ℕ → Except Error String} {epoch : ℕ}
  {runtime : List RuntimeFeature} {full bootstrap : PreparedConfig}

/-- What a successful `prepare` is made of. -/
theorem ConfigSnapshot.prepare_eq_ok {zero : Bool} {prepared : PreparedConfig}
    (h : snapshot.prepare site endpoint epoch runtime zero = .ok prepared) :
    ∃ document, managedDocument site endpoint epoch (runtime.contains .localIpc)
        (if zero then zeroInbounds snapshot.document.entries else snapshot.document.entries) =
          .ok document ∧
      prepared.document = .canonicalize document ∧
      resolveController site
        (if runtime.contains .localIpc then inspect site.platform prepared.document.entries
          else inspectHttp prepared.document.entries) = .ok prepared.controller := by
  simp only [ConfigSnapshot.prepare, bind, Except.bind, pure, Except.pure] at h
  split at h
  · cases h
  · rename_i document hdocument
    split at h
    · cases h
    · rename_i controller hcontroller
      split at h
      · cases h
      · cases h
        exact ⟨document, hdocument, rfl, hcontroller⟩

/-- Rewriting the controller keeps every root that is not a controller field and makes the
controller fields of two documents the same. -/
theorem Bootstrapped.rewrite {d bootstrap full : Mapping} (h : Bootstrapped d bootstrap full)
    (platform : Platform) (path : String) :
    Bootstrapped d (rewriteManagedController platform bootstrap path)
      (rewriteManagedController platform full path) := by
  have hkeep : ∀ m : Mapping, ∀ key ∉ controllerFields,
      (rewriteManagedController platform m path).get key = m.get key := by
    intro m key hkey
    simp only [controllerFields, List.mem_cons, List.not_mem_nil, or_false, not_or] at hkey
    cases platform <;> simp [rewriteManagedController, localField, hkey]
  have hports : ∀ key ∈ inboundPortFields, key ∉ controllerFields := by decide
  refine ⟨fun key hkey => ?_, fun tun htun => ?_, fun key hkey hoff => ?_⟩
  · rw [hkeep bootstrap key (hports key hkey.1), hkeep full key (hports key hkey.1)]
    exact h.port key hkey
  · rw [hkeep bootstrap "tun" (by decide), hkeep full "tun" (by decide)]
    exact h.tun tun htun
  · have hsame := h.rest key hkey hoff
    simp only [rewriteManagedController, Mapping.get_insert, Mapping.get_remove, hsame]

/-- **The prepared documents of a graceful switch.** -/
theorem prepared_bootstrapped
    (hfull : snapshot.prepareFull site endpoint epoch runtime = .ok full)
    (hbootstrap : snapshot.prepareBootstrap site endpoint epoch runtime = .ok bootstrap) :
    Bootstrapped snapshot.document.entries bootstrap.document.entries full.document.entries := by
  obtain ⟨fullDocument, hmanagedFull, hdocFull, _⟩ := ConfigSnapshot.prepare_eq_ok hfull
  obtain ⟨zeroDocument, hmanagedZero, hdocZero, _⟩ := ConfigSnapshot.prepare_eq_ok hbootstrap
  have hregular := regular_of_canonical snapshot.document.canonical
  have hzeroed := Regular.zeroInbounds snapshot.document
  have hsource := zeroInbounds_bootstrapped snapshot.document.entries
  have hboth : Bootstrapped snapshot.document.entries zeroDocument fullDocument ∧
      Regular zeroDocument ∧ Regular fullDocument := by
    simp only [managedDocument, Bool.false_eq_true, if_false, if_true] at hmanagedFull hmanagedZero
    by_cases hlocal : runtime.contains .localIpc = true
    · rw [if_pos hlocal] at hmanagedFull hmanagedZero
      cases hendpoint : endpoint epoch with
      | error error => simp [hendpoint, Except.map] at hmanagedFull
      | ok path =>
        simp only [hendpoint, Except.map, Except.ok.injEq] at hmanagedFull hmanagedZero
        subst hmanagedFull hmanagedZero
        exact ⟨hsource.rewrite _ _, hzeroed.rewriteManagedController _ _,
          hregular.rewriteManagedController _ _⟩
    · rw [if_neg hlocal] at hmanagedFull hmanagedZero
      cases hmanagedFull
      cases hmanagedZero
      exact ⟨hsource, hzeroed, hregular⟩
  obtain ⟨⟨hport, htun, hrest⟩, hregularZero, hregularFull⟩ := hboth
  rw [hdocFull, hdocZero]
  constructor
  · simpa only [hregularZero.canonicalize_get, hregularFull.canonicalize_get] using hport
  · simpa only [hregularZero.canonicalize_get, hregularFull.canonicalize_get] using htun
  · simpa only [hregularZero.canonicalize_get, hregularFull.canonicalize_get] using hrest

/-- **One controller.** Zeroing touches no controller field. -/
theorem prepared_controller
    (hfull : snapshot.prepareFull site endpoint epoch runtime = .ok full)
    (hbootstrap : snapshot.prepareBootstrap site endpoint epoch runtime = .ok bootstrap) :
    full.controller = bootstrap.controller := by
  have hboot := prepared_bootstrapped hfull hbootstrap
  obtain ⟨_, _, _, hcontrollerFull⟩ := ConfigSnapshot.prepare_eq_ok hfull
  obtain ⟨_, _, _, hcontrollerZero⟩ := ConfigSnapshot.prepare_eq_ok hbootstrap
  have hports : ∀ key ∈ controllerFields, key ∉ inboundPortFields ∧ key ≠ "tun" := by decide
  have hstr : ∀ key ∈ controllerFields,
      strValue bootstrap.document.entries key = strValue full.document.entries key := by
    intro key hkey
    obtain ⟨hport, htun⟩ := hports key hkey
    rw [strValue, strValue, hboot.rest key (fun h => hport h.1) fun h => absurd h htun]
  have hinspect : inspect site.platform bootstrap.document.entries =
      inspect site.platform full.document.entries := by
    simp only [inspect, hstr "external-controller" (by decide),
      hstr "external-controller-pipe" (by decide), hstr "external-controller-unix" (by decide),
      hstr "secret" (by decide)]
  have hhttp : inspectHttp bootstrap.document.entries = inspectHttp full.document.entries := by
    simp only [inspectHttp, hstr "external-controller" (by decide), hstr "secret" (by decide)]
  rw [hinspect, hhttp, hcontrollerFull] at hcontrollerZero
  exact Except.ok.inj hcontrollerZero

end Prepared

section Restoring

variable {d : Mapping} {bootstrap full : Document}

/-- A path below a port or below `tun.enable` has no value, whatever the document. -/
theorem optionAt_scalar {value : Value} (h : value.asMapping = none) (key : String)
    (path : List String) : optionAt (some value) (key :: path) = none := by
  simp [optionAt, h]

theorem child_mapping (m : Mapping) (key : String) :
    child (some (.mapping m)) key = m.get key := by
  simp [child]

/-- Two mappings that differ have a key. -/
theorem keySet_ne_nil_of_ne {m n : Mapping} (hm : (Value.mapping m).Canonical)
    (hn : (Value.mapping n).Canonical) (hne : m ≠ n) :
    keySet (childKeys (some (.mapping m))) (childKeys (some (.mapping n))) ≠ [] := by
  intro hnil
  refine hne (Mapping.ext_of_canonical hm hn fun key => ?_)
  have hnot : key ∉ keySet (childKeys (some (.mapping m))) (childKeys (some (.mapping n))) := by
    simp [hnil]
  obtain ⟨hleft, hright⟩ := child_eq_none_of_not_mem hnot
  rw [child_mapping] at hleft hright
  rw [hleft, hright]

/-- No report stops at a path where both sides are mappings. -/
theorem not_reported_at_mappings {entry : DiffEntry}
    (h : entry ∈ diff bootstrap.entries full.entries) {m n : Mapping}
    (hm : optionAt (some (.mapping bootstrap.entries)) entry.path = some (.mapping m))
    (hn : optionAt (some (.mapping full.entries)) entry.path = some (.mapping n)) : False := by
  have hreported := diffValue_reported h
  have hcm := bootstrap.optionCanonical.optionAt entry.path _ hm
  have hcn := full.optionCanonical.optionAt entry.path _ hn
  have hne : m ≠ n := by
    rintro rfl
    exact hreported.differs (hm.trans hn.symm)
  refine hreported.stuck ⟨?_, ?_⟩
  · rw [hm, hn]
    exact descends_mappings m n
  · rw [hm, hn]
    exact keySet_ne_nil_of_ne hcm hcn hne

/-- **Where the two documents differ.** Every reported change is at a zeroed path. -/
theorem Bootstrapped.zeroedAt_of_mem (h : Bootstrapped d bootstrap.entries full.entries)
    {entry : DiffEntry} (he : entry ∈ diff bootstrap.entries full.entries) :
    ZeroedAt d entry.path := by
  have hdiffers := (diffValue_reported he).differs
  have hstop := fun {m n : Mapping} => not_reported_at_mappings he (m := m) (n := n)
  obtain ⟨path, new⟩ := entry
  cases path with
  | nil => exact absurd (hstop rfl rfl) id
  | cons key path =>
    simp only [optionAt_cons, child_mapping] at hdiffers hstop
    by_cases hport : NonzeroPort d key
    · obtain ⟨hzero, hkept⟩ := h.port key hport
      obtain ⟨z, hget, _, _⟩ := hport.get
      rw [hkept, hget, hzero] at hdiffers
      cases path with
      | nil => exact .port key hport
      | cons k path =>
        rw [optionAt_scalar rfl, optionAt_scalar rfl] at hdiffers
        exact absurd rfl hdiffers
    · by_cases htun : key = "tun" ∧ ∃ tun, EnabledTun d tun
      · obtain ⟨rfl, tun, htun⟩ := htun
        obtain ⟨hoff, hkept⟩ := h.tun tun htun
        rw [hoff, hkept] at hdiffers hstop
        cases path with
        | nil => exact absurd (hstop rfl rfl) id
        | cons k path =>
          simp only [optionAt_cons, child_mapping, Mapping.get_insert] at hdiffers
          by_cases hk : k = "enable"
          · subst hk
            rw [if_pos rfl, htun.2] at hdiffers
            cases path with
            | nil => exact .tun tun htun
            | cons k path =>
              rw [optionAt_scalar rfl, optionAt_scalar rfl] at hdiffers
              exact absurd rfl hdiffers
          · rw [if_neg hk] at hdiffers
            exact absurd rfl hdiffers
      · have hsame := h.rest key hport fun heq tun htun' => htun ⟨heq, tun, htun'⟩
        rw [hsame] at hdiffers
        exact absurd rfl hdiffers

/-- Every zeroed path has the zero in the bootstrap and the source value in the full
document. -/
theorem Bootstrapped.valueAt_zeroed (h : Bootstrapped d bootstrap.entries full.entries)
    {path : List String} (hpath : ZeroedAt d path) :
    ∃ zero, ZeroValue zero ∧ valueAt (.mapping bootstrap.entries) path = some zero ∧
      valueAt (.mapping full.entries) path = valueAt (.mapping d) path ∧
      valueAt (.mapping d) path ≠ some zero := by
  cases hpath with
  | port key hport =>
    obtain ⟨hzero, hkept⟩ := h.port key hport
    obtain ⟨z, hget, _, hne⟩ := hport.get
    refine ⟨.number (.int 0), Or.inl rfl, ?_, ?_, ?_⟩
    · rw [valueAt_singleton, hzero]
    · rw [valueAt_singleton, valueAt_singleton, hkept]
    · rw [valueAt_singleton, hget]
      simpa using hne
  | tun tun htun =>
    obtain ⟨hoff, hkept⟩ := h.tun tun htun
    refine ⟨.bool false, Or.inr rfl, ?_, ?_, ?_⟩
    · rw [valueAt_pair, hoff, child_mapping]
      simp
    · rw [valueAt_pair, valueAt_pair, hkept, htun.1]
    · rw [valueAt_pair, htun.1, child_mapping, htun.2]
      simp

/-- Two zeroed paths of which one lies above the other are the same. -/
theorem ZeroedAt.eq_of_comparable {p q : List String} (hp : ZeroedAt d p) (hq : ZeroedAt d q)
    (h : ¬ Incomparable p q) : p = q := by
  have hne : ∀ key, NonzeroPort d key → key ≠ "tun" := by
    rintro key hkey rfl
    exact absurd hkey.1 (by decide)
  by_contra hpq
  apply h
  cases hp with
  | port key hkey =>
    cases hq with
    | port key' hkey' =>
      have hkeys : key ≠ key' := by
        rintro rfl
        exact hpq rfl
      exact incomparable_of_key_ne hkeys [] []
    | tun tun htun => exact incomparable_of_key_ne (hne key hkey) [] ["enable"]
  | tun tun htun =>
    cases hq with
    | port key' hkey' => exact incomparable_of_key_ne (hne key' hkey').symm ["enable"] []
    | tun tun' htun' => exact absurd rfl hpq

/-- The changes are exactly the zeroed paths. -/
theorem Bootstrapped.mem_paths_iff (h : Bootstrapped d bootstrap.entries full.entries)
    (path : List String) :
    path ∈ (diff bootstrap.entries full.entries).map DiffEntry.path ↔ ZeroedAt d path := by
  constructor
  · intro hmem
    obtain ⟨entry, hentry, rfl⟩ := List.mem_map.mp hmem
    exact h.zeroedAt_of_mem hentry
  · intro hpath
    obtain ⟨zero, _, hzero, hkept, hne⟩ := h.valueAt_zeroed hpath
    have hdiffers : valueAt (.mapping bootstrap.entries) path ≠
        valueAt (.mapping full.entries) path := by
      rw [hzero, hkept]
      exact hne.symm
    obtain ⟨entry, hentry, hcomparable⟩ := exists_change bootstrap full path hdiffers
    have heq := (h.zeroedAt_of_mem hentry).eq_of_comparable hpath hcomparable
    exact heq ▸ List.mem_map_of_mem hentry

/-- The changed roots are the nonzero ports and an enabled tun. -/
theorem Bootstrapped.mem_changedRoots_iff (h : Bootstrapped d bootstrap.entries full.entries)
    (root : String) :
    root ∈ changedRoots (diff bootstrap.entries full.entries) ↔
      NonzeroPort d root ∨ root = "tun" ∧ ∃ tun, EnabledTun d tun := by
  rw [mem_changedRoots]
  constructor
  · rintro ⟨entry, hentry, hhead⟩
    have hpath := h.zeroedAt_of_mem hentry
    cases hzeroed : entry.path with
    | nil => simp [hzeroed] at hhead
    | cons key path =>
      obtain rfl : key = root := by simpa [hzeroed] using hhead
      rw [hzeroed] at hpath
      cases hpath with
      | port key hport => exact Or.inl hport
      | tun tun htun => exact Or.inr ⟨rfl, tun, htun⟩
  · intro hroot
    have hexists : ∃ path, ZeroedAt d path ∧ path.head? = some root := by
      rcases hroot with hport | ⟨rfl, tun, htun⟩
      · exact ⟨[root], .port root hport, rfl⟩
      · exact ⟨["tun", "enable"], .tun tun htun, rfl⟩
    obtain ⟨path, hpath, hhead⟩ := hexists
    obtain ⟨entry, hentry, rfl⟩ := List.mem_map.mp ((h.mem_paths_iff path).mpr hpath)
    exact ⟨entry, hentry, hhead⟩

/-- Every change of a bootstrap can be patched. -/
theorem Bootstrapped.all_patchable (h : Bootstrapped d bootstrap.entries full.entries) :
    (diff bootstrap.entries full.entries).all patchable = true := by
  rw [List.all_eq_true]
  rintro ⟨path, new⟩ hentry
  have hpath : ZeroedAt d path := h.zeroedAt_of_mem hentry
  have hnew : new = valueAt (.mapping full.entries) path := new_eq_valueAt hentry
  obtain ⟨zero, _, _, hkept, _⟩ := h.valueAt_zeroed hpath
  rw [hkept] at hnew
  have hports : ∀ key ∈ inboundPortFields,
      (patchFields.contains key && patchNestedPathIsSupported [key]) = true := by decide
  cases hpath with
  | port key hport =>
    obtain ⟨z, hget, _, _⟩ := hport.get
    rw [valueAt_singleton, hget] at hnew
    subst hnew
    simpa [patchable] using hports key hport.1
  | tun tun htun =>
    rw [valueAt_pair, htun.1, child_mapping, htun.2] at hnew
    subst hnew
    decide

/-- What the patch document of a bootstrap holds. -/
theorem Bootstrapped.patchDocument (h : Bootstrapped d bootstrap.entries full.entries) :
    ∃ document, patchDocument full.entries (changedRoots (diff bootstrap.entries full.entries)) [] =
        .ok (some document) ∧
      (∀ key, NonzeroPort d key → document.get key = d.get key) ∧
      (∀ tun, EnabledTun d tun → document.get "tun" =
        some (.mapping (tun.filter fun e => tunPatchFields.contains e.1))) ∧
      ∀ key, ¬ NonzeroPort d key → (key = "tun" → ∀ tun, ¬ EnabledTun d tun) →
        document.get key = none := by
  have hroot : ∀ key, NonzeroPort d key →
      patchRoot full.entries key = .ok (d.get key) := by
    intro key hport
    obtain ⟨z, hget, _, _⟩ := hport.get
    have hne : key ≠ "tun" ∧ key ≠ "tuic-server" :=
      (by decide : ∀ key ∈ inboundPortFields, key ≠ "tun" ∧ key ≠ "tuic-server") key hport.1
    rw [patchRoot, (h.port key hport).2, hget]
    simp [hne]
  have htunRoot : ∀ tun, EnabledTun d tun → patchRoot full.entries "tun" =
      .ok (some (.mapping (tun.filter fun e => tunPatchFields.contains e.1))) := by
    intro tun htun
    rw [patchRoot, (h.tun tun htun).2]
    simp [filterMapping, Except.map]
  have htotal : ∀ roots : List String, (∀ root ∈ roots, ∃ value,
      patchRoot full.entries root = .ok (some value)) →
      ∀ document, ∃ out, Config.patchDocument full.entries roots document = .ok (some out) := by
    intro roots
    induction roots with
    | nil => exact fun _ document => ⟨document, rfl⟩
    | cons root roots ih =>
      intro hroots document
      obtain ⟨value, hvalue⟩ := hroots root List.mem_cons_self
      rw [Config.patchDocument, hvalue]
      exact ih (fun r hr => hroots r (List.mem_cons_of_mem root hr)) _
  obtain ⟨document, hdocument⟩ := htotal (changedRoots (diff bootstrap.entries full.entries))
    (by
      intro root hmem
      rcases (h.mem_changedRoots_iff root).mp hmem with hport | ⟨rfl, tun, htun⟩
      · obtain ⟨z, hget, _, _⟩ := hport.get
        exact ⟨_, (hroot root hport).trans (by rw [hget])⟩
      · exact ⟨_, htunRoot tun htun⟩) []
  obtain ⟨hin, hout⟩ := patchDocument_get (nodup_keySet _ _) hdocument
  refine ⟨document, hdocument, fun key hport => ?_, fun tun htun => ?_, fun key hkey hoff => ?_⟩
  · obtain ⟨value, hvalue, hget⟩ := hin key ((h.mem_changedRoots_iff key).mpr (Or.inl hport))
    rw [hroot key hport] at hvalue
    rw [hget, ← Except.ok.inj hvalue]
  · obtain ⟨value, hvalue, hget⟩ :=
      hin "tun" ((h.mem_changedRoots_iff "tun").mpr (Or.inr ⟨rfl, tun, htun⟩))
    rw [htunRoot tun htun] at hvalue
    rw [hget, ← Except.ok.inj hvalue]
  · rw [hout key]
    · rfl
    · intro hmem
      rcases (h.mem_changedRoots_iff key).mp hmem with hport | ⟨heq, tun, htun⟩
      · exact hkey hport
      · exact hoff heq tun htun

/-- A struct is decoded exactly when each of its fields is. -/
theorem decodeFields_isSome_iff {τ α : Type} {decode : τ → Value → Option α} {fallback : α}
    {m : Mapping} {fields : List (Field τ)} :
    (∃ out, decodeFields decode fallback m fields = some out) ↔
      ∀ field ∈ fields, ∃ value, field.read decode fallback m = some value := by
  induction fields with
  | nil => simp [decodeFields]
  | cons field fields ih =>
    rw [List.forall_mem_cons, ← ih]
    constructor
    · rintro ⟨out, hout⟩
      obtain ⟨value, hvalue, hrest⟩ := Option.bind_eq_some_iff.mp hout
      obtain ⟨rest, hrest, _⟩ := Option.map_eq_some_iff.mp hrest
      exact ⟨⟨value, hvalue⟩, rest, hrest⟩
    · rintro ⟨⟨value, hvalue⟩, rest, hrest⟩
      simp [decodeFields, hvalue, hrest]

/-- A field is read when it is absent, a skipped null, or decodes. -/
theorem Field.read_isSome_iff {τ α : Type} {decode : τ → Value → Option α} {fallback : α}
    {m : Mapping} {field : Field τ} :
    (∃ value, field.read decode fallback m = some value) ↔
      ∀ value, m.get field.name = some value →
        field.optional = true ∧ value = .null ∨ ∃ leaf, decode field.type value = some leaf := by
  cases hget : m.get field.name with
  | none => simp [Field.read, hget]
  | some value =>
    by_cases hnull : field.optional = true ∧ value = .null
    · simp [Field.read, hget, hnull]
    · simp only [Field.read, hget, hnull, if_false, Option.some.injEq, forall_eq', false_or]
      cases decode field.type value <;> simp

/-- **When the patch decodes.** -/
theorem ofMapping_isSome_iff {ip : IpText} {document : Mapping}
    (hports : ∀ key, NonzeroPort d key → document.get key = d.get key)
    (htun : ∀ tun, EnabledTun d tun → document.get "tun" =
      some (.mapping (tun.filter fun e => tunPatchFields.contains e.1)))
    (hrest : ∀ key, ¬ NonzeroPort d key → (key = "tun" → ∀ tun, ¬ EnabledTun d tun) →
      document.get key = none) :
    (∃ patch, ConfigPatch.ofMapping ip document = some patch) ↔ Restorable ip d := by
  have hfilter : ∀ (tun : Mapping), ∀ field ∈ tunPatch,
      Mapping.get (tun.filter fun e => tunPatchFields.contains e.1) field.name =
        Mapping.get tun field.name := by
    intro tun field hfield
    have hmem : field.name ∈ tunPatchFields := by
      rw [← tables_agree.2.1]
      exact List.mem_map_of_mem hfield
    rw [Mapping.get, Mapping.get, Assoc.lookup_filter_key, if_pos (by simpa using hmem)]
  have hrecord : ∀ tun : Mapping, (∃ value, (FieldType.record tunPatch).decode ip
      (.mapping (tun.filter fun e => tunPatchFields.contains e.1)) = some value) ↔
      ∀ field ∈ tunPatch, ∀ value, Mapping.get tun field.name = some value →
        field.optional = true ∧ value = .null ∨ ∃ leaf, field.type.decode ip value = some leaf := by
    intro tun
    have hmap : (∃ value, (FieldType.record tunPatch).decode ip
        (.mapping (tun.filter fun e => tunPatchFields.contains e.1)) = some value) ↔
        ∃ out, decodeFields (LeafType.decode ip) (.scalar (.bool false))
          (tun.filter fun e => tunPatchFields.contains e.1) tunPatch = some out := by
      rw [FieldType.decode]
      simp only [Option.map_eq_some_iff]
      constructor
      · rintro ⟨_, out, hout, _⟩
        exact ⟨out, hout⟩
      · rintro ⟨out, hout⟩
        exact ⟨_, out, hout, rfl⟩
    rw [hmap, decodeFields_isSome_iff]
    refine forall₂_congr fun field hfield => ?_
    rw [Field.read_isSome_iff, hfilter tun field hfield]
  have hdecode : (∃ patch, ConfigPatch.ofMapping ip document = some patch) ↔
      ∃ out, decodeFields (FieldType.decode ip) (.record []) document configPatch = some out := by
    simp only [ConfigPatch.ofMapping, Option.map_eq_some_iff]
    constructor
    · rintro ⟨_, out, hout, _⟩
      exact ⟨out, hout⟩
    · rintro ⟨out, hout⟩
      exact ⟨_, out, hout, rfl⟩
  have htable : ∀ field ∈ configPatch,
      (field.name ∈ inboundPortFields → field.type = .leaf (.scalar .i64)) ∧
        (field.name = "tun" → field.type = .record tunPatch) := by decide +kernel
  rw [hdecode, decodeFields_isSome_iff]
  constructor
  · intro hread tun henabled
    have hfield := hread _ tun_mem_configPatch
    rw [Field.read_isSome_iff] at hfield
    rcases hfield _ (htun tun henabled) with ⟨_, hnull⟩ | hleaf
    · cases hnull
    · exact (hrecord tun).mp hleaf
  · intro hrestorable field hfield
    rw [Field.read_isSome_iff]
    intro value hvalue
    by_cases hport : NonzeroPort d field.name
    · obtain ⟨z, hget, hi64, _⟩ := hport.get
      rw [hports _ hport, hget] at hvalue
      obtain rfl := Option.some.inj hvalue
      right
      rw [(htable field hfield).1 hport.1]
      simp [FieldType.decode, LeafType.decode, ScalarType.decode, hi64]
    · by_cases hname : field.name = "tun" ∧ ∃ tun, EnabledTun d tun
      · obtain ⟨hname, tun, henabled⟩ := hname
        rw [hname, htun tun henabled] at hvalue
        obtain rfl := Option.some.inj hvalue
        right
        rw [(htable field hfield).2 hname]
        exact (hrecord tun).mpr (hrestorable tun henabled)
      · rw [hrest _ hport fun heq tun henabled => hname ⟨heq, tun, henabled⟩] at hvalue
        cases hvalue

/-- **When a bootstrap can be restored.** There is nothing to restore when nothing was
zeroed; otherwise the patch exists exactly when it decodes. -/
theorem Bootstrapped.restorationPatch (h : Bootstrapped d bootstrap.entries full.entries)
    (ip : IpText) :
    ((∀ path, ¬ ZeroedAt d path) →
      restorationPatch ip bootstrap.entries full.entries = .ok none) ∧
    (∀ path, ZeroedAt d path → Restorable ip d → ∃ patch,
      restorationPatch ip bootstrap.entries full.entries = .ok (some patch)) ∧
    (¬ Restorable ip d →
      ∃ error, restorationPatch ip bootstrap.entries full.entries = .error error) := by
  have hlisten : dnsListen bootstrap.entries = dnsListen full.entries := by
    have hdns := h.rest "dns" (fun hport => absurd hport.1 (by decide)) fun heq =>
      absurd heq (by decide)
    rw [dnsListen, dnsListen, hdns]
  have hempty : (diff bootstrap.entries full.entries).isEmpty = true ↔
      ∀ path, ¬ ZeroedAt d path := by
    rw [List.isEmpty_iff, ← List.map_eq_nil_iff (f := DiffEntry.path),
      List.eq_nil_iff_forall_not_mem]
    exact forall_congr' fun path => not_congr (h.mem_paths_iff path)
  obtain ⟨document, hdocument, hports, htun, hrest⟩ := h.patchDocument
  have htunEnable : lacksEnable document "tun" = false := by
    by_cases henabled : ∃ tun, EnabledTun d tun
    · obtain ⟨tun, henabled⟩ := henabled
      have hget : Mapping.get (tun.filter fun e => tunPatchFields.contains e.1) "enable" =
          some (.bool true) := by
        rw [Mapping.get, Assoc.lookup_filter_key, if_pos (by decide)]
        exact henabled.2
      rw [lacksEnable, htun tun henabled, Option.bind_some, Value.asMapping_mapping,
        Option.bind_some, hget]
      rfl
    · rw [not_exists] at henabled
      simp [lacksEnable, hrest "tun" (fun hport => absurd hport.1 (by decide)) fun _ => henabled]
  have htuicEnable : lacksEnable document "tuic-server" = false := by
    simp [lacksEnable, hrest "tuic-server" (fun hport => absurd hport.1 (by decide)) fun heq =>
      absurd heq (by decide)]
  have hclassify : ∀ path, ZeroedAt d path → classifyDocuments ip bootstrap.entries full.entries =
      buildPatch ip full.entries (diff bootstrap.entries full.entries) := by
    intro path hpath
    have hne : ¬ (diff bootstrap.entries full.entries).isEmpty = true := fun hnil =>
      hempty.mp hnil path hpath
    rw [classifyDocuments, if_neg (not_not.mpr hlisten), if_neg hne, if_pos h.all_patchable]
  have hdecodes := @ofMapping_isSome_iff d ip document hports htun hrest
  refine ⟨fun hnone => ?_, fun path hpath hrestorable => ?_, fun hnot => ?_⟩
  · rw [Config.restorationPatch, classifyDocuments, if_neg (not_not.mpr hlisten),
      if_pos (hempty.mpr hnone)]
  · obtain ⟨patch, hpatch⟩ := hdecodes.mpr hrestorable
    rw [Config.restorationPatch, hclassify path hpath, buildPatch, hdocument]
    simp [htunEnable, htuicEnable, hpatch]
  · -- Only an enabled tun has anything to decode, so something was zeroed.
    have henabled : ∃ tun, EnabledTun d tun := by
      by_contra hoff
      exact hnot fun tun htun => absurd ⟨tun, htun⟩ hoff
    obtain ⟨tun, henabled⟩ := henabled
    cases hpatch : ConfigPatch.ofMapping ip document with
    | none =>
      rw [Config.restorationPatch, hclassify _ (.tun tun henabled), buildPatch, hdocument]
      simp [htunEnable, htuicEnable, hpatch]
    | some patch => exact absurd (hdecodes.mp ⟨patch, hpatch⟩) hnot

end Restoring

/-- What a graceful switch needs of the two prepared configs. -/
structure Restores (ip : IpText) (d : Mapping) (bootstrap full : PreparedConfig) : Prop where
  /-- Both resolve the same controller host and secret. -/
  controller : full.controller = bootstrap.controller
  /-- At a nonzero port and at an enabled `tun.enable` the bootstrap has the zero and the
  full document the source value. -/
  zeroed : ∀ path, ZeroedAt d path → ∃ zero, ZeroValue zero ∧
    valueAt (.mapping bootstrap.document.entries) path = some zero ∧
    valueAt (.mapping full.document.entries) path = valueAt (.mapping d) path ∧
    valueAt (.mapping d) path ≠ some zero
  /-- They agree at every path that is not at, above or below one of these. -/
  agree : ∀ path, (∀ zeroed, ZeroedAt d zeroed → Incomparable zeroed path) →
    valueAt (.mapping bootstrap.document.entries) path =
      valueAt (.mapping full.document.entries) path
  /-- The restoration succeeds. -/
  restored : ∃ restoration,
    restorationPatch ip bootstrap.document.entries full.document.entries = .ok restoration
  /-- It is empty exactly when nothing was zeroed. -/
  empty_iff : restorationPatch ip bootstrap.document.entries full.document.entries = .ok none ↔
    ∀ path, ¬ ZeroedAt d path

/-- **Restoration, exactly.** Two prepared configs of one source document are fit for a
graceful switch exactly when every field of an enabled tun decodes. -/
theorem prepared_restores_iff (ip : IpText) {site : Site} {snapshot : ConfigSnapshot}
    {endpoint : ℕ → Except Error String} {epoch : ℕ} {runtime : List RuntimeFeature}
    {full bootstrap : PreparedConfig}
    (hfull : snapshot.prepareFull site endpoint epoch runtime = .ok full)
    (hbootstrap : snapshot.prepareBootstrap site endpoint epoch runtime = .ok bootstrap) :
    Restores ip snapshot.document.entries bootstrap full ↔
      Restorable ip snapshot.document.entries := by
  have hboot := prepared_bootstrapped hfull hbootstrap
  obtain ⟨hnothing, hpatch, hfails⟩ := hboot.restorationPatch ip
  constructor
  · intro h
    by_contra hnot
    obtain ⟨error, herror⟩ := hfails hnot
    obtain ⟨restoration, hok⟩ := h.restored
    rw [herror] at hok
    cases hok
  · intro hrestorable
    refine ⟨prepared_controller hfull hbootstrap, fun path hpath => hboot.valueAt_zeroed hpath,
      fun path hpath => ?_, ?_, ?_⟩
    · by_contra hne
      obtain ⟨entry, hentry, hcomparable⟩ :=
        exists_change bootstrap.document full.document path hne
      exact hcomparable (hpath _ (hboot.zeroedAt_of_mem hentry))
    · by_cases hzeroed : ∃ path, ZeroedAt snapshot.document.entries path
      · obtain ⟨path, hpath⟩ := hzeroed
        obtain ⟨patch, hok⟩ := hpatch path hpath hrestorable
        exact ⟨some patch, hok⟩
      · rw [not_exists] at hzeroed
        exact ⟨none, hnothing hzeroed⟩
    · constructor
      · intro hnone path hpath
        obtain ⟨patch, hok⟩ := hpatch path hpath hrestorable
        rw [hok] at hnone
        cases hnone
      · exact hnothing

end Nyanpasu.Config
