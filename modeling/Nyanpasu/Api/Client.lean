import Nyanpasu.Lib.Url

/-!
# The controller client

The base URL of a client, the URLs that it builds for its endpoints, and the requests that
carry its secret. The results say when a request stays on the configured controller, and
when the path of a URL is the one that was asked for.
-/

namespace Nyanpasu.Api

open Url

/-- The errors of `clash-api` that concern URLs. -/
inductive ApiError (Host : Type) where
  | unsupportedUrlScheme (scheme : Text)
  | urlCannotBeABase (url : Url Host)
  | baseUrlHasQueryOrFragment (url : Url Host)
  | absoluteEndpoint (endpoint : Text)
  | invalidEndpoint (endpoint : Text)
  | cannotAppendPathSegment (url : Url Host)

variable {Host : Type}

/-- `normalize_base_url`. -/
def normalizeBaseUrl (baseUrl : Url Host) : Except (ApiError Host) (Url Host) :=
  if baseUrl.scheme ≠ "http".toList ∧ baseUrl.scheme ≠ "https".toList then
    .error (.unsupportedUrlScheme baseUrl.scheme)
  else if baseUrl.isPlain then .error (.urlCannotBeABase baseUrl)
  else if baseUrl.query.isSome ∨ baseUrl.fragment.isSome then
    .error (.baseUrlHasQueryOrFragment baseUrl)
  else if (baseUrl.segments.getLast?.any fun segment => segment.text = []) = false then
    .ok { baseUrl with path := .segments (baseUrl.segments ++ [Segment.ofPiece []]) }
  else .ok baseUrl

/-- `Client` for an HTTP host: its base URL was normalized. -/
structure Client (Host : Type) where
  baseUrl : Url Host
  authorization : Option Text
  normalized : ∃ given, normalizeBaseUrl given = .ok baseUrl

/-- `Method`. -/
inductive Method where
  | get
  | post
  | put
  | patch
  | delete
  deriving DecidableEq, Repr

/-- `RequestBuilder`: what a request is sent with. -/
structure Request (Host : Type) where
  method : Method
  url : Url Host
  authorization : Option Text

namespace Client

variable (rules : HostRules Host) (client : Client Host)

/-- `endpoint`. -/
def endpoint (endpoint : Text) : Except (ApiError Host) (Url Host) :=
  if (Url.parse rules endpoint).isSome then .error (.absoluteEndpoint endpoint)
  else
    match join rules client.baseUrl (endpoint.dropWhile (· = '/')) with
    | some url => .ok url
    | none => .error (.invalidEndpoint endpoint)

/-- `endpoint_with_segments`. -/
def endpointWithSegments (endpoint : Text) (segments : List Text) :
    Except (ApiError Host) (Url Host) := do
  let url ← client.endpoint rules endpoint
  if url.isPlain then .error (.cannotAppendPathSegment url)
  else return segments.foldl push url

/-- `request_url`. -/
def requestUrl (method : Method) (url : Url Host) : Request Host :=
  ⟨method, url, client.authorization⟩

/-- `request`. -/
def request (method : Method) (endpoint : Text) : Except (ApiError Host) (Request Host) :=
  return client.requestUrl method (← client.endpoint rules endpoint)

end Client

/-! ## The base URL -/

/-- What is known of a base URL. -/
structure IsBase (base : Url Host) : Prop where
  scheme : base.scheme = "http".toList ∨ base.scheme = "https".toList
  plain : base.isPlain = false
  directory : ∃ above last, base.segments = above ++ [last] ∧ last.text = []

theorem isBase_of_normalizeBaseUrl {given base : Url Host}
    (h : normalizeBaseUrl given = .ok base) : IsBase base := by
  unfold normalizeBaseUrl at h
  split at h
  · cases h
  next hscheme =>
    have hhttp : given.scheme = "http".toList ∨ given.scheme = "https".toList := by tauto
    split at h
    · cases h
    next hplain =>
      split at h
      · cases h
      split at h
      · obtain rfl := Except.ok.inj h
        exact ⟨hhttp, rfl, given.segments, Segment.ofPiece [], rfl, rfl⟩
      next hlast =>
        obtain rfl := Except.ok.inj h
        refine ⟨hhttp, by simpa using hplain, ?_⟩
        rw [Bool.not_eq_false, Option.any_eq_true] at hlast
        obtain ⟨last, hlast, htext⟩ := hlast
        obtain ⟨above, habove⟩ := List.getLast?_eq_some_iff.mp hlast
        exact ⟨above, last, habove, by simpa using htext⟩

theorem Client.isBase (client : Client Host) : IsBase client.baseUrl := by
  obtain ⟨given, hgiven⟩ := client.normalized
  exact isBase_of_normalizeBaseUrl hgiven

namespace IsBase

variable {base : Url Host}

theorem notFile (h : IsBase base) : base.scheme ≠ "file".toList := by
  rcases h.scheme with heq | heq <;> rw [heq] <;> decide

theorem special (h : IsBase base) : isSpecial base.scheme = true := by
  rcases h.scheme with heq | heq <;> rw [heq] <;> decide

end IsBase

/-! ## Origins -/

variable (rules : HostRules Host)

/-- What a reference may name without leaving the base: a path, a query or a fragment of it, its
own authority, or an authority that is not one. -/
def NamesBase (base : Url Host) : Route Host → Prop
  | .relative _ _ | .rooted _ _ | .fragment _ _ | .nothing => True
  | .authority scheme rest =>
    ∀ host port,
      readAuthority rules scheme (rest.takeWhile (!endsAuthority (isSpecial scheme) ·)) =
        some (host, port) →
      scheme = base.scheme ∧ some host = base.host ∧ port = base.port
  | .file _ rest =>
    ∃ c d tail, rest = c :: d :: tail ∧ isSlash true c ∧ isSlash true d ∧
      isDrive (tail.takeWhile (!endsAuthority true ·)) = false ∧
      tail.takeWhile (!endsAuthority true ·) ≠ [] ∧
      rules.parse true (tail.takeWhile (!endsAuthority true ·)) = none
  | .path _ _ | .plain _ _ => False

/-- An endpoint that is refused as absolute, or whose reference names the base once the leading
slashes are gone. -/
def Confined (base : Url Host) (endpoint : Text) : Prop :=
  (Url.parse rules endpoint).isSome ∨
    NamesBase rules base (route (some base) (strip (endpoint.dropWhile (· = '/'))))

/-- Every URL of an endpoint has the origin of the base, and no request carries the secret
elsewhere. -/
def Stays (client : Client Host) (endpoint : Text) : Prop :=
  (∀ url, client.endpoint rules endpoint = .ok url → url.SameOrigin client.baseUrl) ∧
    ∀ method request, client.request rules method endpoint = .ok request →
      request.authorization.isSome → request.url.SameOrigin client.baseUrl

/-- What the route of a reference carries when its base is a directory. -/
def Routed (base : Url Host) : Route Host → Prop
  | .relative base' _ | .rooted base' _ => base' = base
  | .authority _ _ => True
  | .file base' _ => base' = none
  | .path scheme _ | .plain scheme _ => isSpecial scheme = false
  | .fragment _ _ | .nothing => False

theorem relativeRoute_routed (base : Url Host) (rest : Text) :
    Routed base (relativeRoute base rest) := by
  unfold relativeRoute
  simp only
  split
  · split
    · split
      · split
        · trivial
        · rfl
      · rfl
    · rfl
  · rfl

theorem schemeRoute_routed {base : Url Host} (hbase : IsBase base) (scheme rest : Text) :
    Routed base (schemeRoute (some base) scheme rest) := by
  unfold schemeRoute
  split
  next =>
    have hnone : (some base).filter (fun base => decide (base.scheme = "file".toList)) = none :=
      Option.filter_eq_none_iff.mpr fun other hother => by
        obtain rfl := Option.some.inj hother
        simpa using hbase.notFile
    exact hnone
  next =>
    split
    next =>
      split
      next other hother =>
        obtain ⟨hsome, -⟩ := Option.filter_eq_some_iff.mp hother
        obtain rfl := Option.some.inj hsome
        split
        · trivial
        · exact relativeRoute_routed _ _
      next => trivial
    next hspecial =>
      split
      · trivial
      · exact (Bool.not_eq_true _).mp hspecial
      · exact (Bool.not_eq_true _).mp hspecial

theorem route_routed {base : Url Host} (hbase : IsBase base) (input : Text) :
    Routed base (route (some base) input) := by
  unfold route
  split
  next scheme rest _ => exact schemeRoute_routed hbase scheme rest
  next =>
    simp only [hbase.plain, Bool.false_eq_true, if_false, if_neg hbase.notFile]
    exact relativeRoute_routed base input

/-- A file URL without a base has the scheme of files. -/
theorem scheme_of_readFile {rest : Text} {url : Url Host}
    (h : readFile rules none rest = some url) : url.scheme = "file".toList := by
  have hlocal : ∀ rest, readFile.readLocal rules none rest = some url →
      url.scheme = "file".toList := by
    intro rest h
    unfold readFile.readLocal at h
    split at h
    · split at h <;> exact Option.some.inj h ▸ (readPath_sameOrigin _ _).1
    next heq => cases heq
    · exact Option.some.inj h ▸ (readPath_sameOrigin _ _).1
  unfold readFile at h
  split at h
  · split at h
    · simp only at h
      split at h
      · exact Option.some.inj h ▸ (readPath_sameOrigin _ _).1
      · split at h
        · exact Option.some.inj h ▸ (readPathStart_sameOrigin _ _).1
        · obtain ⟨host, -, rfl⟩ := Option.map_eq_some_iff.mp h
          exact (readPathStart_sameOrigin _ _).1
    · exact hlocal _ h
  · exact hlocal _ h

/-- A file URL without a base fails on its host only. -/
theorem readFile_eq_none_iff (base : Url Host) (rest : Text) :
    readFile rules none rest = none ↔ NamesBase rules base (.file none rest) := by
  have hlocal : ∀ rest, readFile.readLocal rules none rest ≠ none := by
    intro rest
    unfold readFile.readLocal
    split
    · split <;> simp
    next heq => cases heq
    · simp
  constructor
  · intro h
    unfold readFile at h
    split at h
    next c d tail =>
      split at h
      next hslashes =>
        simp only at h
        split at h
        · cases h
        next hdrive =>
          split at h
          · cases h
          next hhost =>
            exact ⟨c, d, tail, rfl, hslashes.1, hslashes.2, by simpa using hdrive, hhost,
              by simpa using h⟩
      next => exact absurd h (hlocal _)
    next => exact absurd h (hlocal _)
  · rintro ⟨c, d, tail, rfl, hc, hd, hdrive, hhost, hparse⟩
    simp only [readFile, hc, hd, and_self, if_true, hdrive, Bool.false_eq_true, if_false,
      if_neg hhost, hparse, Option.map_none]

/-- A scheme that is not special is not the one of a base. -/
theorem IsBase.ne_of_isSpecial {base : Url Host} (hbase : IsBase base) {scheme : Text}
    (h : isSpecial scheme = false) : scheme ≠ base.scheme := by
  rintro rfl
  rw [hbase.special] at h
  cases h

/-- A reference stays on the base when it names it. -/
theorem follow_sameOrigin_iff {base : Url Host} (hbase : IsBase base) {route : Route Host}
    (hroute : Routed base route) :
    (∀ url, follow rules route = some url → url.SameOrigin base) ↔ NamesBase rules base route := by
  cases route with
  | relative other rest =>
    obtain rfl : other = base := hroute
    refine iff_of_true ?_ trivial
    intro url h
    exact Option.some.inj h ▸ relativeTo_sameOrigin _ _
  | rooted other rest =>
    obtain rfl : other = base := hroute
    refine iff_of_true ?_ trivial
    intro url h
    exact Option.some.inj h ▸ readPath_sameOrigin _ _
  | fragment other rest => exact hroute.elim
  | nothing => exact hroute.elim
  | authority scheme rest =>
    constructor
    · intro h host port hauthority
      have hurl := h _ (by rw [follow, hauthority]; rfl)
      obtain ⟨hscheme, hhost, hport⟩ := readPathStart_sameOrigin
        (⟨scheme, some host, port, .segments [], none, none⟩ : Url Host)
        (rest.dropWhile (!endsAuthority (isSpecial scheme) ·))
      exact ⟨hscheme.symm.trans hurl.1, hhost.symm.trans hurl.2.1, hport.symm.trans hurl.2.2⟩
    · intro h url hurl
      obtain ⟨⟨host, port⟩, hauthority, rfl⟩ := Option.map_eq_some_iff.mp hurl
      obtain ⟨hscheme, hhost, hport⟩ := h host port hauthority
      obtain ⟨hscheme', hhost', hport'⟩ := readPathStart_sameOrigin
        (⟨scheme, some host, port, .segments [], none, none⟩ : Url Host)
        (rest.dropWhile (!endsAuthority (isSpecial scheme) ·))
      exact ⟨hscheme'.trans hscheme, hhost'.trans hhost, hport'.trans hport⟩
  | file other rest =>
    obtain rfl : other = none := hroute
    rw [← readFile_eq_none_iff, Option.eq_none_iff_forall_ne_some]
    constructor
    · intro h url hurl
      have hscheme := (h url hurl).1
      rw [scheme_of_readFile rules hurl] at hscheme
      exact hbase.notFile hscheme.symm
    · intro h url hurl
      exact absurd hurl (h url)
  | path scheme rest =>
    refine iff_of_false ?_ id
    intro h
    have hurl := (h _ rfl).1
    rw [(readPath_sameOrigin _ _).1] at hurl
    exact hbase.ne_of_isSpecial hroute hurl
  | plain scheme rest =>
    refine iff_of_false ?_ id
    intro h
    have hurl := (h _ rfl).1
    rw [(withTail_sameOrigin _ _).1] at hurl
    exact hbase.ne_of_isSpecial hroute hurl

theorem Client.endpoint_eq_ok_iff (client : Client Host) (endpoint : Text) (url : Url Host) :
    client.endpoint rules endpoint = .ok url ↔
      (Url.parse rules endpoint).isSome = false ∧
        follow rules (route (some client.baseUrl) (strip (endpoint.dropWhile (· = '/')))) =
          some url := by
  unfold Client.endpoint
  split
  next habsolute => simp [habsolute]
  next hrelative =>
    rw [Bool.not_eq_true] at hrelative
    change (match follow rules _ with | some url => _ | none => _) = _ ↔ _
    split
    next other hother => simp [hrelative, hother]
    next hnone => simp [hnone]

/-- The requests for an endpoint stay on the controller exactly when the endpoint is confined. -/
theorem stays_iff_confined (client : Client Host) (endpoint : Text) :
    Stays rules client endpoint ↔ Confined rules client.baseUrl endpoint := by
  have hroute := follow_sameOrigin_iff rules client.isBase
    (route_routed client.isBase (strip (endpoint.dropWhile (· = '/'))))
  constructor
  · rintro ⟨hurls, -⟩
    by_cases habsolute : (Url.parse rules endpoint).isSome = true
    · exact .inl habsolute
    · refine .inr (hroute.mp fun url hurl => hurls url ?_)
      exact (client.endpoint_eq_ok_iff rules endpoint url).mpr ⟨by simpa using habsolute, hurl⟩
  · intro hconfined
    have hurls : ∀ url, client.endpoint rules endpoint = .ok url →
        url.SameOrigin client.baseUrl := by
      intro url hurl
      obtain ⟨hrelative, hfollow⟩ := (client.endpoint_eq_ok_iff rules endpoint url).mp hurl
      rcases hconfined with habsolute | hnames
      · rw [hrelative] at habsolute
        cases habsolute
      · exact hroute.mpr hnames url hfollow
    refine ⟨hurls, ?_⟩
    intro method request hrequest _
    unfold Client.request at hrequest
    cases hurl : client.endpoint rules endpoint with
    | error error =>
      rw [hurl] at hrequest
      cases hrequest
    | ok url =>
      rw [hurl] at hrequest
      obtain rfl := Except.ok.inj hrequest
      exact hurls url hurl

/-- Hosts that stand for themselves: lower-case names and addresses in their usual form. -/
def plainRules : HostRules Text where
  parse := fun _ text =>
    if text.all fun c => c.isLower || c.isDigit || c ∈ ['.', '-'] then some text else none
  empty := []
  isLocalhost := fun host => host = "localhost".toList

/-- The controller at `http://127.0.0.1:9090/`. -/
def localBase : Url Text where
  scheme := "http".toList
  host := some "127.0.0.1".toList
  port := some 9090
  path := .segments [Segment.ofPiece []]
  query := none
  fragment := none

/-- A client of the controller with a secret. -/
def localClient : Client Text where
  baseUrl := localBase
  authorization := some "Bearer secret".toList
  normalized := ⟨localBase, rfl⟩

/-- A scheme behind a slash is not seen as absolute, and is joined without the slash. -/
theorem hidden_scheme_escapes :
    ¬ Stays plainRules localClient "/http://example.com/version".toList := by
  rintro ⟨hurls, -⟩
  have hescape : (localClient.endpoint plainRules "/http://example.com/version".toList).toOption.map
      (fun url => url.host) = some (some "example.com".toList) := by decide
  cases hurl : localClient.endpoint plainRules "/http://example.com/version".toList with
  | error error =>
    rw [hurl] at hescape
    cases hescape
  | ok url =>
    rw [hurl] at hescape
    have hhost : url.host = some "example.com".toList := Option.some.inj hescape
    have hsame := (hurls url hurl).2.1
    rw [hhost] at hsame
    exact absurd hsame (by decide)

end Nyanpasu.Api
