import Nyanpasu.Api.Client

/-!
# Paths of named objects

The typed operations put the names of proxies, groups and providers and the keys of the
storage behind fixed endpoints. A name is whatever a configuration says, so the path has to
be read back exactly.
-/

namespace Nyanpasu.Api

open Url

/-- The endpoints that are given dynamic segments. -/
inductive Endpoint where
  | group
  | proxies
  | proxyProviders
  | ruleProviders
  | storage
  | connections
  deriving DecidableEq, Repr

/-- The text of an endpoint. -/
def Endpoint.text : Endpoint → Text
  | .group => "/group".toList
  | .proxies => "/proxies".toList
  | .proxyProviders => "/providers/proxies".toList
  | .ruleProviders => "/providers/rules".toList
  | .storage => "/storage".toList
  | .connections => "/connections".toList

/-- The segments of an endpoint. -/
def Endpoint.pieces : Endpoint → List Text
  | .group => ["group".toList]
  | .proxies => ["proxies".toList]
  | .proxyProviders => ["providers".toList, "proxies".toList]
  | .ruleProviders => ["providers".toList, "rules".toList]
  | .storage => ["storage".toList]
  | .connections => ["connections".toList]

/-- The collections, which have endpoints of their own. -/
inductive Collection where
  | groups
  | proxies
  | proxyProviders
  | ruleProviders
  | connections
  deriving DecidableEq, Repr

/-- The endpoint of a collection. -/
def Collection.text : Collection → Text
  | .groups => "/group/".toList
  | .proxies => "/proxies/".toList
  | .proxyProviders => "/providers/proxies/".toList
  | .ruleProviders => "/providers/rules/".toList
  | .connections => "/connections".toList

/-- The segments of a collection. -/
def Collection.pieces : Collection → List Text
  | .groups => ["group".toList, []]
  | .proxies => ["proxies".toList, []]
  | .proxyProviders => ["providers".toList, "proxies".toList, []]
  | .ruleProviders => ["providers".toList, "rules".toList, []]
  | .connections => ["connections".toList]

/-- `StorageKey`: never empty. -/
structure StorageKey where
  text : Text
  nonempty : text ≠ []

/-- `Uuid`. -/
abbrev Uuid := BitVec 128

/-- The last hexadecimal digits of a number. -/
def hexDigits (width value : ℕ) : Text :=
  (List.range width).reverse.map fun place => Nat.digitChar (value / 16 ^ place % 16)

/-- `Uuid::to_string`: the hyphenated form in lower case. -/
def Uuid.text (id : Uuid) : Text :=
  hexDigits 8 (id.toNat / 16 ^ 24) ++ '-' :: hexDigits 4 (id.toNat / 16 ^ 20) ++
    '-' :: hexDigits 4 (id.toNat / 16 ^ 16) ++ '-' :: hexDigits 4 (id.toNat / 16 ^ 12) ++
    '-' :: hexDigits 12 id.toNat

theorem Uuid.text_ne_nil (id : Uuid) : id.text ≠ [] := by simp [Uuid.text]

example : Uuid.text 0x1234 = "00000000-0000-0000-0000-000000001234".toList := by decide

/-- The operations on a named object. -/
inductive Operation where
  | group (name : Text)
  | groupDelay (name : Text)
  | proxy (name : Text)
  | proxyDelay (name : Text)
  | selectProxy (group : Text)
  | clearProxySelection (group : Text)
  | proxyProvider (provider : Text)
  | updateProxyProvider (provider : Text)
  | healthcheckProxyProvider (provider : Text)
  | providerProxy (provider proxy : Text)
  | providerProxyDelay (provider proxy : Text)
  | updateRuleProvider (provider : Text)
  | storageGet (key : StorageKey)
  | storagePut (key : StorageKey)
  | storageDelete (key : StorageKey)
  | closeConnection (id : Uuid)

namespace Operation

/-- The method of an operation. -/
def method : Operation → Method
  | .group _ | .groupDelay _ | .proxy _ | .proxyDelay _ | .proxyProvider _
  | .healthcheckProxyProvider _ | .providerProxy _ _ | .providerProxyDelay _ _
  | .storageGet _ => .get
  | .selectProxy _ | .updateProxyProvider _ | .updateRuleProvider _ | .storagePut _ => .put
  | .clearProxySelection _ | .storageDelete _ | .closeConnection _ => .delete

/-- The endpoint of an operation. -/
def endpoint : Operation → Endpoint
  | .group _ | .groupDelay _ => .group
  | .proxy _ | .proxyDelay _ | .selectProxy _ | .clearProxySelection _ => .proxies
  | .proxyProvider _ | .updateProxyProvider _ | .healthcheckProxyProvider _
  | .providerProxy _ _ | .providerProxyDelay _ _ => .proxyProviders
  | .updateRuleProvider _ => .ruleProviders
  | .storageGet _ | .storagePut _ | .storageDelete _ => .storage
  | .closeConnection _ => .connections

/-- The dynamic segments of an operation. -/
def segments : Operation → List Text
  | .group name | .proxy name => [name, []]
  | .groupDelay name | .proxyDelay name => [name, "delay".toList]
  | .selectProxy name | .clearProxySelection name => [name, []]
  | .proxyProvider provider | .updateProxyProvider provider
  | .updateRuleProvider provider => [provider, []]
  | .healthcheckProxyProvider provider => [provider, "healthcheck".toList]
  | .providerProxy provider name => [provider, name, []]
  | .providerProxyDelay provider name => [provider, name, "healthcheck".toList]
  | .storageGet key | .storagePut key | .storageDelete key => [key.text]
  | .closeConnection id => [id.text]

end Operation

section

variable {Host : Type} (rules : HostRules Host) (client : Client Host)

/-- The request of an operation. -/
def Client.perform (operation : Operation) : Except (ApiError Host) (Request Host) :=
  return client.requestUrl operation.method
    (← client.endpointWithSegments rules operation.endpoint.text operation.segments)

/-- The path of a URL, split at the slashes and decoded. -/
def decodedPath (url : Url Host) : List (List UInt8) :=
  (url.pathText.splitOn '/').map percentDecode

/-- The URL of an endpoint with segments has the path of the base, the endpoint and the segments. -/
def Addressed (endpoint : Endpoint) (segments : List Text) : Prop :=
  ∃ url, client.endpointWithSegments rules endpoint.text segments = .ok url ∧
    decodedPath url = (decodedPath client.baseUrl).dropLast ++
      endpoint.pieces.map Text.bytes ++ segments.map Text.bytes

/-- A path that is written in the code: it is read as it stands, below the base. -/
structure Fixed (text : Text) (pieces : List Text) : Prop where
  relative : (Url.parse rules text).isSome = false
  strip : strip (text.dropWhile (· = '/')) = text.dropWhile (· = '/')
  scheme : splitScheme (text.dropWhile (· = '/')) = none
  head : ∃ c rest, text.dropWhile (· = '/') = c :: rest ∧ isSlash true c = false ∧
    endsPath c = false
  path : ((text.dropWhile (· = '/')).all fun c => !endsPath c) = true
  splits : ∀ special, (text.dropWhile (· = '/')).splitOnP (isSlash special) = pieces
  plain : ∀ piece ∈ pieces, Plain piece ∧ '%' ∉ piece

theorem Endpoint.fixed (endpoint : Endpoint) : Fixed rules endpoint.text endpoint.pieces := by
  refine ⟨?_, ?_, ?_, ?_, ?_, ?_, ?_⟩ <;> cases endpoint
  case refine_4.group | refine_4.proxies | refine_4.proxyProviders | refine_4.ruleProviders
    | refine_4.storage | refine_4.connections => exact ⟨_, _, rfl, by decide, by decide⟩
  all_goals first | rfl | decide

theorem Collection.fixed (collection : Collection) :
    Fixed rules collection.text collection.pieces := by
  refine ⟨?_, ?_, ?_, ?_, ?_, ?_, ?_⟩ <;> cases collection
  case refine_4.groups | refine_4.proxies | refine_4.proxyProviders | refine_4.ruleProviders
    | refine_4.connections => exact ⟨_, _, rfl, by decide, by decide⟩
  all_goals first | rfl | decide

theorem Endpoint.pieces_nonempty (endpoint : Endpoint) :
    endpoint.pieces ≠ [] ∧ ∀ piece ∈ endpoint.pieces, piece ≠ [] := by
  cases endpoint <;> decide

variable {rules} in
/-- A fixed path is resolved below the base. -/
theorem Client.endpoint_fixed {text : Text} {pieces : List Text} (h : Fixed rules text pieces) :
    ∃ url, client.endpoint rules text = .ok url ∧ url.isPlain = false ∧
      url.segments.map Segment.text =
        client.baseUrl.segments.dropLast.map Segment.text ++ pieces := by
  obtain ⟨url, hjoin, hplain, hsegments⟩ := join_plain rules client.isBase.plain
    client.isBase.notFile h.strip h.scheme h.head
    (fun c hc => by simpa using List.all_eq_true.mp h.path c hc) h.splits
    (fun piece hpiece => (h.plain piece hpiece).1)
  exact ⟨url, (client.endpoint_eq_ok_iff rules _ url).mpr ⟨h.relative, hjoin⟩, hplain, hsegments⟩

variable {rules} in
theorem Fixed.decode {text : Text} {pieces : List Text} (h : Fixed rules text pieces) :
    pieces.map percentDecode = pieces.map Text.bytes :=
  List.map_congr_left fun piece hpiece => percentDecode_of_notMem (h.plain piece hpiece).2

/-- The decoded path of a base ends with an empty segment. -/
theorem decodedPath_base :
    (decodedPath client.baseUrl).dropLast =
      ([] :: client.baseUrl.segments.dropLast.map Segment.text).map percentDecode := by
  obtain ⟨above, last, hsegments, -⟩ := client.isBase.directory
  rw [decodedPath, splitOn_pathText client.isBase.plain, hsegments]
  simp [List.dropLast_cons_of_ne_nil]

variable {rules} in
/-- The path of a fixed path. -/
theorem Client.decodedPath_fixed {text : Text} {pieces : List Text} (h : Fixed rules text pieces) :
    ∃ url, client.endpoint rules text = .ok url ∧
      decodedPath url = (decodedPath client.baseUrl).dropLast ++ pieces.map Text.bytes := by
  obtain ⟨url, hurl, hplain, hsegments⟩ := client.endpoint_fixed h
  refine ⟨url, hurl, ?_⟩
  rw [decodedPath, splitOn_pathText hplain, decodedPath_base]
  simp [hsegments, h.decode]

/-- The path of an endpoint with segments: the segments `.` and `..` are missing. -/
theorem Client.endpointWithSegments_fixed (endpoint : Endpoint) (segments : List Text) :
    ∃ url, client.endpointWithSegments rules endpoint.text segments = .ok url ∧
      decodedPath url = (decodedPath client.baseUrl).dropLast ++
        endpoint.pieces.map Text.bytes ++
        (segments.filter fun text => Pushable text).map Text.bytes := by
  obtain ⟨url, hurl, hplain, hsegments⟩ := client.endpoint_fixed (endpoint.fixed rules)
  have hsegment : ∃ segment ∈ url.segments, segment.text ≠ [] := by
    obtain ⟨piece, hpiece⟩ := List.exists_mem_of_ne_nil _ endpoint.pieces_nonempty.1
    have hmem : piece ∈ url.segments.map Segment.text := by
      rw [hsegments]
      exact List.mem_append_right _ hpiece
    obtain ⟨segment, hin, rfl⟩ := List.mem_map.mp hmem
    exact ⟨segment, hin, endpoint.pieces_nonempty.2 _ hpiece⟩
  obtain ⟨hplain', hpushed⟩ := foldl_push hplain hsegment segments
  refine ⟨segments.foldl push url, ?_, ?_⟩
  · rw [Client.endpointWithSegments, hurl]
    change (if url.isPlain = true then _ else _) = _
    rw [hplain]
    rfl
  · have hencode : ∀ text : Text, percentDecode (Segment.encode text).text = Text.bytes text :=
      fun text => percentDecode_percentEncode rfl text
    rw [decodedPath, splitOn_pathText hplain', hpushed, decodedPath_base]
    simp [hsegments, (endpoint.fixed rules).decode, hencode]

/-- An endpoint with segments is addressed exactly when no segment is `.` or `..`. -/
theorem addressed_iff_pushable (endpoint : Endpoint) (segments : List Text) :
    Addressed rules client endpoint segments ↔ ∀ text ∈ segments, Pushable text := by
  obtain ⟨url, hurl, hpath⟩ := client.endpointWithSegments_fixed rules endpoint segments
  constructor
  · rintro ⟨other, hother, hdecoded⟩
    rw [hurl] at hother
    obtain rfl := Except.ok.inj hother
    rw [hpath] at hdecoded
    have hlength := congrArg List.length (List.append_cancel_left hdecoded)
    rw [List.length_map, List.length_map] at hlength
    have hall := List.filter_sublist.eq_of_length hlength
    intro text htext
    rw [← hall] at htext
    exact of_decide_eq_true (List.mem_filter.mp htext).2
  · intro hpushable
    have hall : segments.filter (fun text => decide (Pushable text)) = segments :=
      List.filter_eq_self.mpr fun text htext => decide_eq_true (hpushable text htext)
    rw [hall] at hpath
    exact ⟨url, hurl, hpath⟩

theorem bytes_injective : Function.Injective Text.bytes := by
  intro a b h
  have ha := Text.fromUtf8_bytes a
  rw [h, Text.fromUtf8_bytes] at ha
  exact (Option.some.inj ha).symm

/-- Endpoints and segments are told apart by what follows the base. -/
theorem endpoint_and_segments_inj {endpoint endpoint' : Endpoint} {segments segments' : List Text}
    (h : endpoint.pieces ++ segments = endpoint'.pieces ++ segments') :
    endpoint = endpoint' ∧ segments = segments' := by
  cases endpoint <;> cases endpoint' <;> simp_all [Endpoint.pieces]

/-- Two addressed lists of segments have different URLs. -/
theorem segments_of_url {endpoint endpoint' : Endpoint} {segments segments' : List Text}
    (hsegments : ∀ text ∈ segments, Pushable text)
    (hsegments' : ∀ text ∈ segments', Pushable text)
    (h : client.endpointWithSegments rules endpoint.text segments =
      client.endpointWithSegments rules endpoint'.text segments') :
    endpoint = endpoint' ∧ segments = segments' := by
  obtain ⟨url, hurl, hpath⟩ := (addressed_iff_pushable rules client _ _).mpr hsegments
  obtain ⟨url', hurl', hpath'⟩ := (addressed_iff_pushable rules client _ _).mpr hsegments'
  rw [hurl, hurl'] at h
  obtain rfl := Except.ok.inj h
  rw [hpath, List.append_assoc, List.append_assoc] at hpath'
  have htail := List.append_cancel_left hpath'
  rw [← List.map_append, ← List.map_append] at htail
  exact endpoint_and_segments_inj (bytes_injective.list_map htail)

/-- The URL of an operation is the one of its endpoint and segments. -/
theorem Client.endpointWithSegments_of_perform {operation : Operation} {request : Request Host}
    (h : client.perform rules operation = .ok request) :
    client.endpointWithSegments rules operation.endpoint.text operation.segments =
      .ok request.url := by
  unfold Client.perform at h
  cases hurl : client.endpointWithSegments rules operation.endpoint.text operation.segments with
  | error error =>
    rw [hurl] at h
    cases h
  | ok url =>
    rw [hurl] at h
    obtain rfl := Except.ok.inj h
    rfl

/-- An operation names an object: its segments are not those of a collection. -/
theorem Operation.segments_ne_collection (operation : Operation) :
    operation.segments ≠ [] ∧ operation.segments ≠ [[]] := by
  cases operation with
  | storageGet key | storagePut key | storageDelete key =>
    have := key.nonempty
    simpa [Operation.segments] using this
  | closeConnection id => simp [Operation.segments, id.text_ne_nil]
  | _ => simp [Operation.segments]

/-- A collection has the path of its pieces. -/
theorem Operation.pieces_ne_collection (operation : Operation) (collection : Collection) :
    operation.endpoint.pieces ++ operation.segments ≠ collection.pieces := by
  obtain ⟨hne, hne'⟩ := operation.segments_ne_collection
  intro heq
  generalize operation.endpoint = endpoint at heq
  cases endpoint <;> cases collection <;>
    simp_all [Endpoint.pieces, Collection.pieces]

/-- No addressed operation on a named object has the URL of a collection. -/
theorem Client.collection_ne {operation : Operation} {request : Request Host}
    (hnames : ∀ text ∈ operation.segments, Pushable text)
    (hrequest : client.perform rules operation = .ok request) (collection : Collection) :
    client.endpoint rules collection.text ≠ .ok request.url := by
  intro h
  obtain ⟨url, hurl, hpath⟩ := client.decodedPath_fixed (collection.fixed rules)
  obtain ⟨url', hurl', hpath'⟩ := (addressed_iff_pushable rules client _ _).mpr hnames
  rw [h] at hurl
  obtain rfl := Except.ok.inj hurl
  rw [client.endpointWithSegments_of_perform rules hrequest] at hurl'
  obtain rfl := Except.ok.inj hurl'
  rw [hpath, List.append_assoc] at hpath'
  have htail := List.append_cancel_left hpath'
  rw [← List.map_append] at htail
  exact operation.pieces_ne_collection collection (bytes_injective.list_map htail).symm

/-- Segments are addressed faithfully exactly when none is `.` or `..`; such segments then tell URLs
apart, and an operation on a named object hits neither another object nor a collection. -/
theorem segments_addressed (endpoint : Endpoint) :
    (∀ segments, Addressed rules client endpoint segments ↔ ∀ text ∈ segments, Pushable text) ∧
    (∀ endpoint' segments segments', (∀ text ∈ segments, Pushable text) →
      (∀ text ∈ segments', Pushable text) →
      client.endpointWithSegments rules endpoint.text segments =
        client.endpointWithSegments rules endpoint'.text segments' →
      endpoint = endpoint' ∧ segments = segments') ∧
    ∀ operation request, (∀ text ∈ operation.segments, Pushable text) →
      client.perform rules operation = .ok request →
      (∀ operation' request', (∀ text ∈ operation'.segments, Pushable text) →
        client.perform rules operation' = .ok request' → request.url = request'.url →
        operation.endpoint = operation'.endpoint ∧ operation.segments = operation'.segments) ∧
      (∀ collection ∈ [[], [[]]],
        client.endpointWithSegments rules endpoint.text collection ≠ .ok request.url) ∧
      ∀ collection : Collection, client.endpoint rules collection.text ≠ .ok request.url := by
  refine ⟨addressed_iff_pushable rules client endpoint, ?_, ?_⟩
  · intro endpoint' segments segments' hsegments hsegments' h
    exact segments_of_url rules client hsegments hsegments' h
  · intro operation request hnames hrequest
    have hurl := client.endpointWithSegments_of_perform rules hrequest
    refine ⟨?_, ?_, client.collection_ne rules hnames hrequest⟩
    · intro operation' request' hnames' hrequest' hsame
      have hurl' := client.endpointWithSegments_of_perform rules hrequest'
      refine segments_of_url rules client hnames hnames' ?_
      rw [hurl, hurl', hsame]
    · intro collection hcollection h
      have hpushable : ∀ text ∈ collection, Pushable text := by
        have hall : ∀ collection ∈ ([[], [[]]] : List (List Text)),
            ∀ text ∈ collection, Pushable text := by decide
        exact hall collection hcollection
      have hsegments := (segments_of_url rules client hnames hpushable (hurl.trans h.symm)).2
      have hne := operation.segments_ne_collection
      simp only [List.mem_cons, List.not_mem_nil, or_false] at hcollection
      rcases hcollection with rfl | rfl
      · exact hne.1 hsegments
      · exact hne.2 hsegments

end

/-- A group named `..` is read from the collection of groups. -/
theorem dotted_group_not_addressed :
    localClient.endpointWithSegments plainRules Endpoint.group.text ["..".toList, []] =
        localClient.endpointWithSegments plainRules Endpoint.group.text [[]] ∧
      ¬ Addressed plainRules localClient .group ["..".toList, []] := by
  refine ⟨rfl, ?_⟩
  rw [addressed_iff_pushable]
  decide

end Nyanpasu.Api
