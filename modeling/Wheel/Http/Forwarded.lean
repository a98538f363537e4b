import Wheel.Api.Auth
import Wheel.Http.HeaderLine
import Wheel.Text.IpAddr
import Wheel.Text.Utf8

/-!
# What is forwarded to an engine

The API forwards the headers of a request without the hop-by-hop headers, those that a
`Connection` line nominates, the credentials of the client and the whole `x-wheel-`
namespace, and then sets its own. `forwarded_clean_iff` says when nothing else gets
through: a `Connection` line that is not text nominates nothing.
-/

namespace Wheel.Http

open Text

/-! ## Header maps -/

/-- The name of a header, in lower case. -/
structure HeaderName where
  text : List Char
  lower : text.map Char.toLower = text
  nonempty : text ≠ []

namespace HeaderName

theorem ext_text {n m : HeaderName} (h : n.text = m.text) : n = m := by
  cases n
  cases m
  cases h
  rfl

instance : DecidableEq HeaderName := fun n m =>
  decidable_of_iff (n.text = m.text) ⟨ext_text, fun h => h ▸ rfl⟩

theorem toLower_toLower (c : Char) : c.toLower.toLower = c.toLower := by
  apply Char.toNat_inj.mp
  simp only [toNat_toLower]
  split
  · rename_i h
    rw [if_neg (by omega)]
  · rfl

/-- The name that a received text is, in whatever case it is written. -/
def received (raw : List Char) (h : raw ≠ []) : HeaderName where
  text := raw.map Char.toLower
  lower := by
    rw [List.map_map]
    exact List.map_congr_left fun c _ => toLower_toLower c
  nonempty := fun hmap => h (List.map_eq_nil_iff.mp hmap)

end HeaderName

/-- A map of headers; a name may stand in it any number of times. -/
abbrev HeaderMap := List (HeaderName × HeaderLine)

namespace HeaderMap

/-- The lines of a header. -/
def getAll (m : HeaderMap) (name : List Char) : List HeaderLine :=
  (m.filter fun e => e.1.text = name).map Prod.snd

/-- The first line of a header. -/
def get (m : HeaderMap) (name : List Char) : Option HeaderLine := (m.getAll name).head?

/-- Give a header one line in place of all it had. -/
def insert (m : HeaderMap) (name : HeaderName) (value : HeaderLine) : HeaderMap :=
  m.filter (fun e => e.1 ≠ name) ++ [(name, value)]

/-- The map of a request as it was received. -/
def received (raw : List ({ text : List Char // text ≠ [] } × HeaderLine)) : HeaderMap :=
  raw.map fun e => (.received e.1.val e.1.property, e.2)

end HeaderMap

/-! ## Sanitising -/

/-- Headers that never cross a proxy hop. -/
def hopByHop : List (List Char) :=
  ["connection".toList, "keep-alive".toList, "proxy-authenticate".toList,
    "proxy-authorization".toList, "te".toList, "trailer".toList, "transfer-encoding".toList,
    "upgrade".toList]

/-- Credentials and routing headers of the boundary between the client and the API. -/
def clientOnly : List (List Char) :=
  ["x-auth-token".toList, "authorization".toList, "x-project-id".toList, "host".toList,
    "content-length".toList]

/-- The names that the lines of `Connection` nominate. -/
def nominated (inbound : HeaderMap) : List (List Char) :=
  (inbound.getAll "connection".toList).flatMap fun v =>
    match toStr v with
    | none => []
    | some s =>
        ((s.splitOn ',').map fun t => (trim t).map Char.toLower).filter fun t => t ≠ []

/-- The header set to send upstream, without those under the forbidden prefixes. -/
def sanitizeForUpstream (inbound : HeaderMap) (extraForbiddenPrefixes : List (List Char)) :
    HeaderMap :=
  inbound.filter fun e =>
    let n := e.1.text.map Char.toLower
    !(decide (n ∈ hopByHop) || decide (n ∈ clientOnly) || decide (n ∈ nominated inbound) ||
      extraForbiddenPrefixes.any fun p => p.isPrefixOf n)

/-! ## The headers of the API -/

/-- The namespace that only the API may write. -/
def wheelPrefix : List Char := "x-wheel-".toList

def actorId : HeaderName := ⟨"x-wheel-actor-id".toList, by decide, by decide⟩

def actorTier : HeaderName := ⟨"x-wheel-actor-tier".toList, by decide, by decide⟩

def actorCredential : HeaderName := ⟨"x-wheel-actor-credential".toList, by decide, by decide⟩

def ingressMark : HeaderName := ⟨"x-wheel-ingress".toList, by decide, by decide⟩

def clientIpName : HeaderName := ⟨"x-wheel-client-ip".toList, by decide, by decide⟩

/-- How a caller proved who they are. -/
inductive Credential where
  | session
  | apiToken
  | wsTicket
  deriving DecidableEq

def Credential.asStr : Credential → String
  | .session => "session"
  | .apiToken => "api_token"
  | .wsTicket => "ws_ticket"

/-- A caller whose identity was verified. -/
structure AuthUser where
  principal : Api.Principal
  credential : Credential

/-- Set a header to a text, if the text may stand in a header. -/
def setText (m : HeaderMap) (name : HeaderName) (value : String) : HeaderMap :=
  match fromStr value.toList with
  | some v => m.insert name v
  | none => m

/-- Add the actor markers to a map whose `x-wheel-` headers were stripped. -/
def setActor (headers : HeaderMap) (user : AuthUser) (tier : Api.Tier) : HeaderMap :=
  setText
    (setText (setText headers actorId user.principal.id) actorTier tier.asStr)
    actorCredential user.credential.asStr

/-- What the authenticated proxy sends upstream. -/
def sanitizedWithActor (inbound : HeaderMap) (user : AuthUser) (tier : Api.Tier) : HeaderMap :=
  setActor (sanitizeForUpstream inbound [wheelPrefix]) user tier

/-- What the public ingress sends upstream; the text of an address is displayed elsewhere. -/
def ingressHeaders (display : Text.IpAddr → HeaderLine) (inbound : HeaderMap)
    (client : Option Text.IpAddr) :
    HeaderMap :=
  let headers := (sanitizeForUpstream inbound [wheelPrefix]).insert ingressMark (lineOf "1")
  match client with
  | none => headers
  | some ip => headers.insert clientIpName (display ip)

/-! ## The engine -/

/-- The check of the engine, which repeats that of the API. -/
def isValidPrincipal (raw : List Char) : Bool :=
  !raw.isEmpty && decide ((String.ofList raw).utf8ByteSize ≤ 200) && raw.all fun c =>
    c.isAlphanum || c ∈ ['-', '_', '.', ':', '@', '+', '/', '=', '~']

/-- The actor that a request names, if it names a usable one. -/
def fromHeaders (headers : HeaderMap) : Option (List Char) :=
  (headers.get actorId.text).bind fun v => (toStr v).filter isValidPrincipal

/-! ## What gets through -/

/-- A line nominates a header, whether the line is text or not. -/
def Nominates (line : HeaderLine) (n : HeaderName) : Prop :=
  ∃ e ∈ line.splitOn comma, ((trimOws e).map charOf).map Char.toLower = n.text

/-- The lines of `Connection`. -/
def connectionLines (inbound : HeaderMap) : List HeaderLine :=
  inbound.getAll "connection".toList

/-- Headers that are dropped whatever is nominated. -/
def Dropped (n : HeaderName) : Prop :=
  n.text ∈ hopByHop ∨ n.text ∈ clientOnly ∨ wheelPrefix.isPrefixOf n.text = true

/-- A map is forwarded with exactly the headers of the API under its namespace, and with
no header that belongs to the hop or to the client. -/
structure Clean (inbound ours out : HeaderMap) : Prop where
  wheel : out.filter (fun e => wheelPrefix.isPrefixOf e.1.text) = ours
  hop : ∀ e ∈ out, e.1.text ∉ hopByHop
  credentials : ∀ e ∈ out, e.1.text ∉ clientOnly
  nominated : ∀ e ∈ out, (∃ line ∈ connectionLines inbound, Nominates line e.1) → e ∈ ours

/-- Every header that is nominated is nominated by a line that is text, or dropped anyway. -/
def Heard (inbound : HeaderMap) : Prop :=
  ∀ e ∈ inbound, (∃ line ∈ connectionLines inbound, Nominates line e.1) →
    Dropped e.1 ∨ ∃ line ∈ connectionLines inbound, (toStr line).isSome = true ∧ Nominates line e.1

/-- The actor markers. -/
def actorHeaders (user : AuthUser) (tier : Api.Tier) : HeaderMap :=
  [(actorId, lineOf user.principal.id), (actorTier, lineOf tier.asStr),
    (actorCredential, lineOf user.credential.asStr)]

/-- The marks of the ingress. -/
def ingressMarks (display : Text.IpAddr → HeaderLine) (client : Option Text.IpAddr) : HeaderMap :=
  (ingressMark, lineOf "1") :: client.toList.map fun ip => (clientIpName, display ip)

section Sanitised

variable {inbound ours m : HeaderMap} {line : HeaderLine} {n : HeaderName}
  {e : HeaderName × HeaderLine}

theorem mem_nominated_iff : n.text ∈ nominated inbound ↔
    ∃ line ∈ connectionLines inbound, (toStr line).isSome = true ∧ Nominates line n := by
  have hline (line : HeaderLine) : (n.text ∈ match toStr line with
      | none => []
      | some s => ((s.splitOn ',').map fun t => (trim t).map Char.toLower).filter fun t => t ≠ []) ↔
      (toStr line).isSome = true ∧ Nominates line n := by
    cases htext : toStr line with
    | none => simp
    | some text =>
        obtain ⟨hvisible, rfl⟩ := toStr_eq_some_iff.mp htext
        have htrim : ∀ e ∈ line.splitOn comma,
            (trim (e.map charOf)).map Char.toLower = ((trimOws e).map charOf).map Char.toLower := by
          intro e he
          rw [trim_map_charOf fun b hb => hvisible b (mem_of_mem_splitOn he hb)]
        simp only [splitOn_map_charOf, List.map_map, List.mem_filter, Option.isSome_some, true_and,
          n.nonempty, decide_not, decide_false, Bool.not_false, and_true, ne_eq]
        constructor
        · intro hmem
          obtain ⟨e, he, heq⟩ := List.mem_map.mp hmem
          exact ⟨e, he, (htrim e he).symm.trans heq⟩
        · rintro ⟨e, he, heq⟩
          exact List.mem_map.mpr ⟨e, he, (htrim e he).trans heq⟩
  unfold nominated
  rw [List.mem_flatMap]
  constructor
  · rintro ⟨line, hmem, h⟩
    exact ⟨line, hmem, (hline line).mp h⟩
  · rintro ⟨line, hmem, h⟩
    exact ⟨line, hmem, (hline line).mpr h⟩

theorem mem_sanitizeForUpstream_iff : e ∈ sanitizeForUpstream inbound [wheelPrefix] ↔
    e ∈ inbound ∧ ¬ Dropped e.1 ∧
      ¬ ∃ line ∈ connectionLines inbound, (toStr line).isSome = true ∧ Nominates line e.1 := by
  rw [← mem_nominated_iff]
  simp only [sanitizeForUpstream, Dropped, List.mem_filter, e.1.lower, List.any_cons, List.any_nil,
    Bool.or_false, Bool.not_eq_true', Bool.or_eq_false_iff, decide_eq_false_iff_not, not_or,
    Bool.not_eq_true]
  tauto

theorem insert_eq_append {v : HeaderLine} (h : ∀ e ∈ m, e.1 ≠ n) : m.insert n v = m ++ [(n, v)] := by
  unfold HeaderMap.insert
  rw [List.filter_eq_self.mpr]
  simpa using h

/-- The name of a header that the API sets is new to a sanitised map, with or without other
headers of the API. -/
theorem insert_sanitized {v : HeaderLine} (hn : wheelPrefix.isPrefixOf n.text = true)
    (hours : ∀ e ∈ ours, e.1 ≠ n) :
    HeaderMap.insert (sanitizeForUpstream inbound [wheelPrefix] ++ ours) n v =
      sanitizeForUpstream inbound [wheelPrefix] ++ (ours ++ [(n, v)]) := by
  rw [insert_eq_append, List.append_assoc]
  intro e he
  rcases List.mem_append.mp he with he | he
  · rintro rfl
    exact (mem_sanitizeForUpstream_iff.mp he).2.1 (.inr (.inr hn))
  · exact hours e he

/-- A sanitised map with the headers of the API is clean if and only if every nomination is
heard. -/
theorem clean_append_iff (hwheel : ∀ e ∈ ours, wheelPrefix.isPrefixOf e.1.text = true)
    (hfree : ∀ e ∈ ours, e.1.text ∉ hopByHop ∧ e.1.text ∉ clientOnly) :
    Clean inbound ours (sanitizeForUpstream inbound [wheelPrefix] ++ ours) ↔ Heard inbound := by
  constructor
  · intro h e he hnom
    by_contra hcon
    rw [not_or] at hcon
    have hmem := mem_sanitizeForUpstream_iff.mpr ⟨he, hcon⟩
    have hours := h.nominated e (List.mem_append_left _ hmem) hnom
    exact hcon.1 (.inr (.inr (hwheel e hours)))
  · intro h
    constructor
    · rw [List.filter_append, List.filter_eq_self.mpr hwheel, List.filter_eq_nil_iff.mpr]
      · rfl
      · intro e he hwheel
        exact (mem_sanitizeForUpstream_iff.mp he).2.1 (.inr (.inr hwheel))
    · intro e he
      rcases List.mem_append.mp he with he | he
      · exact fun hhop => (mem_sanitizeForUpstream_iff.mp he).2.1 (.inl hhop)
      · exact (hfree e he).1
    · intro e he
      rcases List.mem_append.mp he with he | he
      · exact fun honly => (mem_sanitizeForUpstream_iff.mp he).2.1 (.inr (.inl honly))
      · exact (hfree e he).2
    · intro e he hnom
      rcases List.mem_append.mp he with he | he
      · obtain ⟨hin, hdropped, hread⟩ := mem_sanitizeForUpstream_iff.mp he
        rcases h e hin hnom with hd | hr
        · exact absurd hd hdropped
        · exact absurd hr hread
      · exact he

end Sanitised

/-! ## The headers of the API -/

section Ours

variable {inbound : HeaderMap} (user : AuthUser) (tier : Api.Tier)

theorem fromStr_lineOf {text : String}
    (h : ∀ c ∈ text.toList, 32 ≤ c.toNat ∧ c.toNat < 127) :
    fromStr text.toList = some (lineOf text) := by
  unfold fromStr lineOf
  rw [if_pos]
  rw [List.all_eq_true]
  intro c hc
  obtain ⟨hlow, hhigh⟩ := h c hc
  have hbyte : (UInt8.ofNat c.toNat).toNat = c.toNat := by
    rw [UInt8.toNat_ofNat', Nat.mod_eq_of_lt (by omega)]
  simp only [isVisible, UInt8.le_iff_toNat_le, UInt8.lt_iff_toNat_lt, hbyte]
  have hlt : c.toNat < 128 := by omega
  simp [hlow, hhigh, hlt]

theorem isAllowed_visible {c : Char} (h : Api.Principal.isAllowed c = true) :
    32 ≤ c.toNat ∧ c.toNat < 127 := by
  unfold Api.Principal.isAllowed at h
  rcases Bool.or_eq_true_iff.mp h with h | h
  · simp only [Char.isAlphanum, Char.isAlpha, Char.isUpper, Char.isLower, Char.isDigit,
      Bool.or_eq_true, Bool.and_eq_true, decide_eq_true_eq, ge_iff_le, UInt32.le_iff_toNat_le] at h
    change 32 ≤ c.val.toNat ∧ c.val.toNat < 127
    have hA : 'A'.val.toNat = 65 := rfl
    have hZ : 'Z'.val.toNat = 90 := rfl
    have ha : 'a'.val.toNat = 97 := rfl
    have hz : 'z'.val.toNat = 122 := rfl
    have h0 : '0'.val.toNat = 48 := rfl
    have h9 : '9'.val.toNat = 57 := rfl
    omega
  · have hmem := of_decide_eq_true h
    fin_cases hmem <;> decide

theorem validate_eq_ok {raw s : String} (h : Api.Principal.validate raw = .ok s) :
    raw.isEmpty = false ∧ raw.utf8ByteSize ≤ Api.Principal.maxLen ∧
      ∀ c ∈ raw.toList, Api.Principal.isAllowed c = true := by
  unfold Api.Principal.validate at h
  split at h
  · cases h
  rename_i hempty
  split at h
  · cases h
  rename_i hsize
  split at h
  · cases h
  rename_i hall
  refine ⟨by simpa using hempty, by omega, ?_⟩
  simpa using hall

theorem fromStr_principal :
    fromStr user.principal.id.toList = some (lineOf user.principal.id) :=
  fromStr_lineOf fun c hc => isAllowed_visible ((validate_eq_ok user.principal.valid).2.2 c hc)

theorem sanitizedWithActor_eq : sanitizedWithActor inbound user tier =
    sanitizeForUpstream inbound [wheelPrefix] ++ actorHeaders user tier := by
  have htier : fromStr tier.asStr.toList = some (lineOf tier.asStr) := by
    cases tier <;> decide
  have hcredential : fromStr user.credential.asStr.toList = some (lineOf user.credential.asStr) := by
    cases user.credential <;> decide
  unfold sanitizedWithActor setActor setText
  rw [fromStr_principal, htier, hcredential]
  dsimp only
  have hnil := @insert_sanitized inbound [] actorId (lineOf user.principal.id) (by decide)
    (fun e he => by cases he)
  rw [List.append_nil] at hnil
  have hid : ∀ n ∈ [actorId], n ≠ actorTier := by decide
  have htiers : ∀ n ∈ [actorId, actorTier], n ≠ actorCredential := by decide
  rw [hnil, insert_sanitized (by decide), insert_sanitized (by decide)]
  · rfl
  · exact fun e he => htiers e.1 (List.mem_map_of_mem he)
  · exact fun e he => hid e.1 (List.mem_map_of_mem he)

theorem ingressHeaders_eq (display : Text.IpAddr → HeaderLine) (client : Option Text.IpAddr) :
    ingressHeaders display inbound client =
      sanitizeForUpstream inbound [wheelPrefix] ++ ingressMarks display client := by
  have hnil := @insert_sanitized inbound [] ingressMark (lineOf "1") (by decide)
    (fun e he => by cases he)
  rw [List.append_nil] at hnil
  unfold ingressHeaders ingressMarks
  rw [hnil]
  cases client with
  | none => rfl
  | some ip =>
      dsimp only
      have hmark : ∀ n ∈ [ingressMark], n ≠ clientIpName := by decide
      rw [insert_sanitized (by decide)]
      · rfl
      · exact fun e he => hmark e.1 (List.mem_map_of_mem he)

theorem fromHeaders_sanitizedWithActor :
    fromHeaders (sanitizedWithActor inbound user tier) = some user.principal.id.toList := by
  obtain ⟨hempty, hsize, hall⟩ := validate_eq_ok user.principal.valid
  have hget : HeaderMap.get (sanitizedWithActor inbound user tier) actorId.text =
      some (lineOf user.principal.id) := by
    rw [sanitizedWithActor_eq, HeaderMap.get, HeaderMap.getAll, List.filter_append,
      List.filter_eq_nil_iff.mpr]
    · rfl
    · intro e he hname
      have hwheel : wheelPrefix.isPrefixOf e.1.text = true := by
        rw [of_decide_eq_true hname]
        decide
      exact (mem_sanitizeForUpstream_iff.mp he).2.1 (.inr (.inr hwheel))
  have hvalid : isValidPrincipal user.principal.id.toList = true := by
    have hne : user.principal.id.toList.isEmpty = false := by
      rw [List.isEmpty_eq_false_iff]
      intro hnil
      rw [String.toList_eq_nil_iff.mp hnil] at hempty
      cases hempty
    unfold isValidPrincipal
    rw [hne, String.ofList_toList]
    simp only [Bool.not_false, Bool.true_and, Bool.and_eq_true, decide_eq_true_eq, List.all_eq_true]
    exact ⟨hsize, hall⟩
  rw [fromHeaders, hget, Option.bind_some, toStr_of_fromStr (fromStr_principal user),
    Option.filter_some, if_pos hvalid]

/-- The names that the API sets. -/
def ownNames : List HeaderName :=
  [actorId, actorTier, actorCredential, ingressMark, clientIpName]

/-- A map of headers of the API is clean if and only if every nomination is heard. -/
theorem clean_own_iff {ours : HeaderMap} (h : ∀ e ∈ ours, e.1 ∈ ownNames) :
    Clean inbound ours (sanitizeForUpstream inbound [wheelPrefix] ++ ours) ↔ Heard inbound := by
  have hown : ∀ n ∈ ownNames, wheelPrefix.isPrefixOf n.text = true ∧ n.text ∉ hopByHop ∧
      n.text ∉ clientOnly := by decide
  apply clean_append_iff
  · exact fun e he => (hown e.1 (h e he)).1
  · exact fun e he => (hown e.1 (h e he)).2

end Ours

/-- What the authenticated proxy and the ingress forward is clean, for every caller and every
client, if and only if every nomination is heard; and the engine always reads the very
principal of the caller. -/
theorem forwarded_clean_iff (raw : List ({ text : List Char // text ≠ [] } × HeaderLine)) :
    (∀ user tier, fromHeaders (sanitizedWithActor (.received raw) user tier) =
        some user.principal.id.toList) ∧
      (((∀ user tier, Clean (.received raw) (actorHeaders user tier)
            (sanitizedWithActor (.received raw) user tier)) ∧
          ∀ display client, Clean (.received raw) (ingressMarks display client)
            (ingressHeaders display (.received raw) client)) ↔
        Heard (.received raw)) := by
  have hactor (user : AuthUser) (tier : Api.Tier) : Clean (.received raw) (actorHeaders user tier)
      (sanitizedWithActor (.received raw) user tier) ↔ Heard (.received raw) := by
    have hnames : ∀ n ∈ [actorId, actorTier, actorCredential], n ∈ ownNames := by decide
    rw [sanitizedWithActor_eq]
    exact clean_own_iff fun e he => hnames e.1 (List.mem_map_of_mem he)
  have hingress (display : Text.IpAddr → HeaderLine) (client : Option Text.IpAddr) :
      Clean (.received raw) (ingressMarks display client)
        (ingressHeaders display (.received raw) client) ↔ Heard (.received raw) := by
    have hnames : ∀ n ∈ [ingressMark, clientIpName], n ∈ ownNames := by decide
    rw [ingressHeaders_eq]
    apply clean_own_iff
    intro e he
    apply hnames
    rcases List.mem_cons.mp he with rfl | he
    · exact List.mem_cons_self
    · obtain ⟨ip, -, rfl⟩ := List.mem_map.mp he
      exact List.mem_cons_of_mem _ List.mem_cons_self
  constructor
  · exact fun user tier => fromHeaders_sanitizedWithActor user tier
  · constructor
    · intro h
      exact (hingress (fun _ => []) none).mp (h.2 _ _)
    · intro h
      exact ⟨fun user tier => (hactor user tier).mpr h, fun display client =>
        (hingress display client).mpr h⟩

/-- A request that nominates a header in a line that is not text. -/
def unheard : List ({ text : List Char // text ≠ [] } × HeaderLine) :=
  [(⟨"Connection".toList, by decide⟩, lineOf "x-secret," ++ [0xff]),
    (⟨"X-Secret".toList, by decide⟩, lineOf "leak")]

def secretName : HeaderName := ⟨"x-secret".toList, by decide, by decide⟩

theorem forwards_nominated : ¬ ∀ raw : List ({ text : List Char // text ≠ [] } × HeaderLine),
    (∀ user tier, fromHeaders (sanitizedWithActor (.received raw) user tier) =
        some user.principal.id.toList) ∧
      (∀ user tier, Clean (.received raw) (actorHeaders user tier)
          (sanitizedWithActor (.received raw) user tier)) ∧
        ∀ display client, Clean (.received raw) (ingressMarks display client)
          (ingressHeaders display (.received raw) client) := by
  intro h
  have hclean := (h unheard).2.2 (fun _ => []) none
  have hmem : (secretName, lineOf "leak") ∈
      ingressHeaders (fun _ => []) (.received unheard) none := by decide +kernel
  have hnominated : ∃ line ∈ connectionLines (.received unheard), Nominates line secretName := by
    unfold Nominates
    decide +kernel
  have hours := hclean.nominated _ hmem hnominated
  revert hours
  decide +kernel

end Wheel.Http
