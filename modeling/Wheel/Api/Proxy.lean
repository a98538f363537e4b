import Wheel.Api.Policy

/-!
# The authenticated proxy

`engineProxy` splits the decoded suffix of a request, demands the tier of its
segments, and forwards the request to a URL that the same suffix is appended to.
`engineProxy_authorised` says that what the engine side reads from that URL is what
the tier was demanded for.
-/

namespace Wheel.Api.Proxy

open ProxyPath Policy

/-- A request to the proxy: the suffix as it stands in the request target, and
whether its headers ask for a WebSocket. -/
structure ProxyRequest where
  method : String
  rest : List UInt8
  query : Option String
  websocket : Bool
  http2 : Bool

/-- What the proxy sends. -/
structure Forwarded where
  method : String
  url : Url

def pathRefused : ApiError := .badRequest "path traversal is not permitted"

def requireTier (tier needed : Tier) : Except ApiError Unit :=
  if needed ≤ tier then .ok () else .error (.forbidden "your role does not permit this")

def requireEngineTier (tier : Tier) (method : String) (segments : List String) :
    Except ApiError Unit :=
  match engineTier method segments with
  | none => .error (.forbidden "this engine path is not reachable through the API")
  | some needed => requireTier tier needed

def upstream (lib : UrlLib) (base rest : String) (query : Option String) :
    Except ApiError Url :=
  match upstreamUrl lib base rest query with
  | .ok url => .ok url
  | .error .badBase => .error (.internal "the host base URL cannot carry a path")
  | .error _ => .error pathRefused

/-- The method of the request that a WebSocket may be asked for with. -/
def handshakeMethod (http2 : Bool) : String := if http2 then "CONNECT" else "GET"

/-- The request that is sent for an upgrade or for any other request. -/
def forward (req : ProxyRequest) (url : Url) : Except ApiError Forwarded :=
  if req.websocket then
    if req.method = handshakeMethod req.http2 then .ok ⟨"GET", url⟩
    else .error (.badRequest "malformed websocket upgrade")
  else .ok ⟨req.method, url⟩

def engineProxy (lib : UrlLib) (base : String) (tier : Tier) (req : ProxyRequest) :
    Except ApiError Forwarded :=
  match decodeSegment req.rest with
  | none => .error (.badRequest "Invalid UTF-8 in path")
  | some rest =>
      match proxySegments rest with
      | .error _ => .error pathRefused
      | .ok segments =>
          match requireEngineTier tier req.method segments with
          | .error e => .error e
          | .ok () =>
              match upstream lib base rest req.query with
              | .error e => .error e
              | .ok url => forward req url

/-- The host's proxy, mounted beneath a path: the suffix is decoded once and appended
to the base of the engine. -/
def hostEngine (lib : UrlLib) (mounted : List UInt8) (engineBase : String) (path : List UInt8)
    (query : Option String) : Option Url :=
  (decodeSegment (path.drop (mounted.length + 1))).bind fun rest =>
    (upstreamUrl lib engineBase rest query).toOption

/-- A tier is the one that the table demands for what is read: a rule of this tier lists
it, and it is not under `v1/cli`. -/
structure AuthorisedAs (method : String) (needed : Tier) (read : List String) : Prop where
  demanded : engineTier method read = some needed
  listed : ∃ r ∈ RULES, r.lists method (nonempty read) = true ∧ r.tier = needed
  notCli : ¬ UnderCli read

theorem AuthorisedAs.of_engineTier {method : String} {needed : Tier} {read : List String}
    (h : engineTier method read = some needed) : AuthorisedAs method needed read :=
  ⟨h, (engineTier_eq_some h).1, (engineTier_eq_some h).2⟩

section Authorised

variable {lib : UrlLib} {base : String} {tier : Tier} {req : ProxyRequest} {sent : Forwarded}

theorem requireEngineTier_eq_ok_iff {method : String} {segments : List String} :
    requireEngineTier tier method segments = .ok () ↔
      ∃ needed, engineTier method segments = some needed ∧ needed ≤ tier := by
  unfold requireEngineTier requireTier
  cases engineTier method segments with
  | none =>
      constructor
      · intro h
        cases h
      · rintro ⟨_, h, -⟩
        cases h
  | some needed =>
      dsimp only
      split
      · rename_i hle
        exact ⟨fun _ => ⟨needed, rfl, hle⟩, fun _ => rfl⟩
      · rename_i hle
        constructor
        · intro h
          cases h
        · rintro ⟨_, h, hle'⟩
          cases h
          exact absurd hle' hle

theorem upstream_eq_ok_iff {rest : String} {query : Option String} {url : Url} :
    upstream lib base rest query = .ok url ↔ upstreamUrl lib base rest query = .ok url := by
  unfold upstream
  split
  · rename_i h
    rw [h, Except.ok.injEq, Except.ok.injEq]
  · rename_i h
    rw [h]
    constructor <;> intro h <;> cases h
  · rename_i h
    rw [h]
    constructor <;> intro h <;> cases h

/-- A request is forwarded when its suffix decodes, splits, is within the tier, and
gives a URL. -/
theorem engineProxy_eq_ok_iff :
    engineProxy lib base tier req = .ok sent ↔
      ∃ rest segments needed url, decodeSegment req.rest = some rest ∧
        proxySegments rest = .ok segments ∧ engineTier req.method segments = some needed ∧
        needed ≤ tier ∧ upstreamUrl lib base rest req.query = .ok url ∧
        forward req url = .ok sent := by
  constructor
  · intro h
    unfold engineProxy at h
    split at h
    · cases h
    rename_i rest hrest
    split at h
    · cases h
    rename_i segments hseg
    split at h
    · cases h
    rename_i htier
    split at h
    · cases h
    rename_i url hurl
    obtain ⟨needed, hneeded, hle⟩ := requireEngineTier_eq_ok_iff.mp htier
    exact ⟨rest, segments, needed, url, hrest, hseg, hneeded, hle, upstream_eq_ok_iff.mp hurl, h⟩
  · rintro ⟨rest, segments, needed, url, hrest, hseg, hneeded, hle, hurl, h⟩
    have htier := requireEngineTier_eq_ok_iff.mpr ⟨needed, hneeded, hle⟩
    unfold engineProxy
    rw [hrest]
    dsimp only
    rw [hseg]
    dsimp only
    rw [htier]
    dsimp only
    rw [upstream_eq_ok_iff.mpr hurl]
    exact h

/-- The request that is sent has the method and the URL that were authorised. -/
theorem forward_eq_ok {url : Url} {segments : List String} {needed : Tier}
    (hneeded : engineTier req.method segments = some needed) (h : forward req url = .ok sent) :
    sent.method = req.method ∧ sent.url = url := by
  unfold forward at h
  split at h
  · split at h
    · rename_i hmethod
      cases h
      refine ⟨?_, rfl⟩
      rw [hmethod]
      unfold handshakeMethod at hmethod ⊢
      split at hmethod
      · obtain ⟨⟨r, hr, hlists, -⟩, -⟩ := engineTier_eq_some hneeded
        rw [hmethod] at hlists
        have hmem := List.elem_iff.mp (Bool.and_eq_true_iff.mp hlists).1
        exact absurd (mem_methods hr hmem) (by decide)
      · rename_i hhttp
        rw [if_neg hhttp]
    · cases h
  · cases h
    exact ⟨rfl, rfl⟩

/-- What is forwarded is authorised. The router mounted at the base reads from the URL
that is sent segments for which the table demands the very tier that was demanded, and so
does the engine's router when that hop forwards the request; every higher tier has the
request forwarded too. -/
theorem engineProxy_authorised (h : engineProxy lib base tier req = .ok sent) :
    ∃ b rest segments needed, lib.parse base = some b ∧ decodeSegment req.rest = some rest ∧
      proxySegments rest = .ok segments ∧ engineTier req.method segments = some needed ∧
      needed ≤ tier ∧ sent.method = req.method ∧
      (∃ read, routed (mount b.path) sent.url.path = some read ∧
        AuthorisedAs sent.method needed read) ∧
      (∀ engineBase query url,
        hostEngine lib (mount b.path) engineBase sent.url.path query = some url →
          ∃ e read, lib.parse engineBase = some e ∧ routed (mount e.path) url.path = some read ∧
            AuthorisedAs sent.method needed read) ∧
      ∀ higher, tier ≤ higher → engineProxy lib base higher req = .ok sent := by
  obtain ⟨rest, segments, needed, url, hrest, hseg, hneeded, hle, hurl, hforward⟩ :=
    engineProxy_eq_ok_iff.mp h
  obtain ⟨hmethod, rfl⟩ := forward_eq_ok hneeded hforward
  have hread {base query url} (h : upstreamUrl lib base rest query = .ok url) :
      ∃ b, lib.parse base = some b ∧ routed (mount b.path) url.path = some segments := by
    obtain ⟨b, segments', hb, hseg', hread⟩ := routed_of_upstreamUrl h
    rw [hseg] at hseg'
    cases hseg'
    exact ⟨b, hb, hread⟩
  have has : AuthorisedAs sent.method needed segments := by
    rw [hmethod]
    exact .of_engineTier hneeded
  obtain ⟨b, hb, hrouted⟩ := hread hurl
  refine ⟨b, rest, segments, needed, hb, hrest, hseg, hneeded, hle, hmethod,
    ⟨segments, hrouted, has⟩, ?_, ?_⟩
  · intro engineBase query url hhop
    obtain ⟨b', hb', hdecode⟩ := decodeSegment_of_upstreamUrl hurl
    rw [hb] at hb'
    cases hb'
    rw [hostEngine, hdecode, Option.bind_some] at hhop
    cases hengine : upstreamUrl lib engineBase rest query with
    | error e =>
        rw [hengine] at hhop
        cases hhop
    | ok u =>
        rw [hengine] at hhop
        cases hhop
        obtain ⟨e, he, hsame⟩ := hread hengine
        exact ⟨e, segments, he, hsame, has⟩
  · intro higher hhigher
    exact engineProxy_eq_ok_iff.mpr ⟨rest, segments, needed, sent.url, hrest, hseg, hneeded,
      hle.trans hhigher, hurl, hforward⟩

end Authorised

/-! ## A guest who reads the board -/

/-- What a path segment keeps of the printable bytes. -/
def pathSegmentKeeps (b : UInt8) : Bool :=
  33 ≤ b && b ≤ 126 && !([34, 35, 37, 47, 60, 62, 63, 92, 96, 123, 125] : List UInt8).contains b

def hostUrl (path : String) : Url where
  scheme := "http"
  username := ""
  host := some "host"
  port := none
  path := slash :: Text.encode path.toList
  query := none
  cannotBeABase := false
  rooted := fun _ => .inr rfl

/-- The URLs of one host that the request below needs. -/
def oneHost : UrlLib where
  parse s := if s = "http://host/engine" then some (hostUrl "engine")
    else if s = "http://host/engine/v1/board" then some (hostUrl "engine/v1/board") else none
  asStr url := "http://host" ++ String.ofList (url.path.map fun b => Char.ofNat b.toNat)
  encodeQuery := id
  keeps := pathSegmentKeeps
  encodesPercent := rfl
  encodesSlash := rfl

def boardRequest : ProxyRequest := ⟨"GET", Text.encode "v1/board".toList, none, false, false⟩

theorem engineProxy_boardRequest :
    engineProxy oneHost "http://host/engine" .guest boardRequest =
      .ok ⟨"GET", hostUrl "engine/v1/board"⟩ := by
  rfl

theorem boardRequest_authorised :
    ∃ b rest segments needed, oneHost.parse "http://host/engine" = some b ∧
      decodeSegment boardRequest.rest = some rest ∧ proxySegments rest = .ok segments ∧
      engineTier "GET" segments = some needed ∧ needed ≤ .guest ∧
      (∃ read, routed (mount b.path) (hostUrl "engine/v1/board").path = some read ∧
        AuthorisedAs "GET" needed read) ∧
      engineProxy oneHost "http://host/engine" .admin boardRequest =
        .ok ⟨"GET", hostUrl "engine/v1/board"⟩ := by
  obtain ⟨b, rest, segments, needed, hb, hrest, hseg, hneeded, hle, -, hread, -, hhigher⟩ :=
    engineProxy_authorised engineProxy_boardRequest
  exact ⟨b, rest, segments, needed, hb, hrest, hseg, hneeded, hle, hread,
    hhigher .admin (by decide)⟩

end Wheel.Api.Proxy
