import Wheel.Core.Denied
import Wheel.Http.HeaderLine
import Wheel.Text.Lossy
import Wheel.Tools.Execute
import Mathlib

/-!
# Sending a prepared request

Redirects are followed by hand: every hop is parsed, looked up and checked anew, and its connection
is pinned to the first address of the answer that was checked. The library that reads URLs and the
world that answers lookups and requests are parameters, and a run is the list of the requests sent
with the outcome. `send_requests` says where requests may go and what they carry, `send_outcome`
which response the outcome is read from.
-/

namespace Wheel

namespace Tools

open Text

def maxResponseBytes : ℕ := 5 * 1024 * 1024

def maxRedirects : ℕ := 3

structure SocketAddr where
  ip : IpAddr
  port : ℕ

/-- What is used of the libraries: `U` is the type of their URLs. -/
structure WebLib (U : Type) where
  parse : String → Option U
  scheme : U → String
  hostStr : U → Option String
  portOrKnownDefault : U → Option ℕ
  join : U → String → Option U
  text : U → String
  /-- Is the text the name of a method? -/
  methodParses : String → Bool
  /-- Are the name and the value those of a header? -/
  headerParses : String → String → Bool
  fromStr : List Char → Option Json

/-- A request as it is sent, with the address that the host is pinned to. -/
structure Sent where
  host : String
  addr : SocketAddr
  method : String
  url : String
  headers : List (String × String)
  body : Option Json

/-- What is answered: the body comes in chunks, and may break off after them. -/
structure Response where
  status : ℕ
  headers : List (String × Http.HeaderLine)
  chunks : List (List UInt8)
  broken : Bool

/-- The world outside, at the hops of one call: `none` is a lookup or a call that fails. -/
structure World where
  lookup : ℕ → String → ℕ → Option (List SocketAddr)
  respond : ℕ → Sent → Option Response

structure Outcome where
  status : ℕ
  headers : Json.Members
  body : Json
  bytes : ℕ

inductive SendError where
  | badUrl (url : String)
  | notHttp (scheme : String)
  | noHost (url : String)
  | noPort (url : String)
  | notReachable (host : String)
  | resolving (host : String)
  | doesNotResolve (host : String)
  | resolvesTo (host : String) (ip : IpAddr)
  | badMethod
  | lineBreak (header : String)
  | calling
  | tooManyRedirects (limit : ℕ)
  | badTarget (location : String)
  | reading
  | exceeded (mib : ℕ)

/-! ## Addresses -/

/-- Exact targets permitted despite the policy. -/
def permits (targets : List String) (host : String) (port : ℕ) : Bool :=
  targets.contains (host ++ ":" ++ toString port)

/-- The first address of an answer that is not a public destination. -/
def firstDenied (addrs : List SocketAddr) : Option IpAddr :=
  (addrs.map SocketAddr.ip).find? ipIsDenied

section Send

variable {U : Type} (lib : WebLib U) (world : World) (targets : List String)

/-- The address that a host is pinned to: all addresses of the answer are checked, and the first is
taken. -/
def pin (n : ℕ) (host : String) (port : ℕ) : Except SendError SocketAddr :=
  let allowed := permits targets host port
  if !allowed && hostIsDenied host.toList then .error (.notReachable host)
  else
    match world.lookup n host port with
    | none => .error (.resolving host)
    | some [] => .error (.doesNotResolve host)
    | some (addr :: addrs) =>
        match if allowed then none else firstDenied (addr :: addrs) with
        | some bad => .error (.resolvesTo host bad)
        | none => .ok addr

/-- Resolve the host of a URL, and refuse what is not a public address. -/
def resolveFor (n : ℕ) (url : String) : Except SendError (String × SocketAddr) :=
  match lib.parse url with
  | none => .error (.badUrl url)
  | some parsed =>
      if lib.scheme parsed ≠ "http" ∧ lib.scheme parsed ≠ "https" then
        .error (.notHttp (lib.scheme parsed))
      else
        match lib.hostStr parsed, lib.portOrKnownDefault parsed with
        | none, _ => .error (.noHost url)
        | some _, none => .error (.noPort url)
        | some host, some port => (pin world targets n host port).map fun addr => (host, addr)

/-- Resolve the target of a redirect against the URL it came from. -/
def joinRedirect (url location : String) : Except SendError String := do
  let some base := lib.parse url | throw (.badUrl url)
  let some next := lib.join base location | throw (.badTarget location)
  return lib.text next

/-! ## Requests -/

def hasLineBreak (value : String) : Bool :=
  value.toList.any fun c => c = '\r' || c = '\n' || c = '\x00'

def cookieJar (cookies : List (String × String)) : String :=
  "; ".intercalate (cookies.map fun e => e.1 ++ "=" ++ e.2)

/-- The headers of every hop. -/
def sentHeaders (p : Prepared) : List (String × String) :=
  p.headers ++ if p.cookies = [] then [] else [("cookie", cookieJar p.cookies)]

/-- What is sent at a hop. -/
def hopRequest (p : Prepared) (hops : ℕ) (url host : String) (addr : SocketAddr) : Sent where
  host := host
  addr := addr
  method := p.method
  url := url
  headers := sentHeaders p
  -- a redirect must not carry the body anywhere the caller did not name
  body := if hops = 0 then p.body else none

/-- The request of a hop, when there is one. -/
def request (p : Prepared) (hops : ℕ) (url : String) : Except SendError Sent :=
  match resolveFor lib world targets hops url with
  | .error e => .error e
  | .ok (host, addr) =>
      if !lib.methodParses p.method then .error .badMethod
      else
        match p.headers.find? fun e => hasLineBreak e.2 with
        | some e => .error (.lineBreak e.1)
        | none =>
            if (sentHeaders p).all fun e => lib.headerParses e.1 e.2 then
              .ok (hopRequest p hops url host addr)
            else .error .calling

/-! ## Responses -/

/-- Where a response sends the caller on to. -/
def location (resp : Response) : Option String :=
  if 300 ≤ resp.status ∧ resp.status < 400 then
    (resp.headers.find? fun e => e.1 = "location").bind fun e =>
      (Http.toStr e.2).map String.ofList
  else none

/-- The headers whose values are texts. -/
def textHeaders (resp : Response) : Json.Members :=
  (resp.headers.filterMap fun e => (Http.toStr e.2).map fun x => (e.1, x)).foldl
    (fun headers e => Json.insertMember e.1 (.str (String.ofList e.2)) headers) []

/-- Read a body with a ceiling. -/
def readBody (broken : Bool) (buf : List UInt8) : List (List UInt8) → Except SendError (List UInt8)
  | [] => if broken then .error .reading else .ok buf
  | chunk :: chunks =>
      if maxResponseBytes < (buf ++ chunk).length then
        .error (.exceeded (maxResponseBytes / (1024 * 1024)))
      else readBody broken (buf ++ chunk) chunks

def finish (resp : Response) : Except SendError Outcome := do
  let buf ← readBody resp.broken [] resp.chunks
  let text := fromUtf8Lossy buf
  return {
    status := resp.status
    headers := textHeaders resp
    body := (lib.fromStr text).getD (.str (String.ofList text))
    bytes := buf.length }

/-- The requests sent from a hop on, and the outcome. -/
def sendFrom (p : Prepared) (hops : ℕ) (url : String) : List Sent × Except SendError Outcome :=
  match request lib world targets p hops url with
  | .error e => ([], .error e)
  | .ok r =>
      match world.respond hops r with
      | none => ([r], .error .calling)
      | some resp =>
          match location resp with
          | none => ([r], finish lib resp)
          | some next =>
              if maxRedirects < hops + 1 then ([r], .error (.tooManyRedirects maxRedirects))
              else
                match joinRedirect lib url next with
                | .error e => ([r], .error e)
                | .ok target =>
                    let rest := sendFrom p (hops + 1) target
                    (r :: rest.1, rest.2)
termination_by maxRedirects - hops
decreasing_by omega

def send (p : Prepared) : List Sent × Except SendError Outcome :=
  sendFrom lib world targets p 0 p.url

/-! ## Where requests go and what they carry -/

/-- The address that a host is the text of. -/
def literal (host : List Char) : Option IpAddr :=
  match stripPrefix ['['] host with
  | some x => (stripSuffix [']'] x).bind parseIp
  | none => parseIp host

/-- The address of the connection: nothing is looked up for the text of an address. -/
def destination (r : Sent) : IpAddr := (literal r.host.toList).getD r.addr.ip

/-- A request of a hop: its URL was looked up and every address of the answer checked, unless its
host and port are permitted by name, and it carries what was prepared, the body at first only. -/
structure Vetted (p : Prepared) (n : ℕ) (r : Sent) : Prop where
  method : r.method = p.method
  headers : r.headers = sentHeaders p
  unbroken : ∀ e ∈ p.headers, hasLineBreak e.2 = false
  body : r.body = if n = 0 then p.body else none
  checked : ∃ parsed port addrs, lib.parse r.url = some parsed ∧
    (lib.scheme parsed = "http" ∨ lib.scheme parsed = "https") ∧
    lib.hostStr parsed = some r.host ∧ lib.portOrKnownDefault parsed = some port ∧
    world.lookup n r.host port = some addrs ∧ addrs.head? = some r.addr ∧
    (permits targets r.host port = false →
      ipIsDenied (destination r) = false ∧ ∀ a ∈ addrs, ipIsDenied a.ip = false)

theorem firstDenied_eq_none {addrs : List SocketAddr} (h : firstDenied addrs = none) :
    ∀ a ∈ addrs, ipIsDenied a.ip = false := by
  intro a ha
  have hno := List.find?_eq_none.1 h a.ip (List.mem_map.2 ⟨a, ha, rfl⟩)
  simpa using hno

variable {lib world targets} {p : Prepared} {n : ℕ} {url : String}

theorem pin_eq_ok {host : String} {port : ℕ} {addr : SocketAddr}
    (h : pin world targets n host port = .ok addr) :
    ∃ addrs, world.lookup n host port = some addrs ∧ addrs.head? = some addr ∧
      (permits targets host port = false → hostIsDenied host.toList = false ∧
        ∀ a ∈ addrs, ipIsDenied a.ip = false) := by
  unfold pin at h
  dsimp only at h
  split at h
  · cases h
  · next hhost =>
      cases hlookup : world.lookup n host port with
      | none =>
          rw [hlookup] at h
          cases h
      | some addrs =>
          rw [hlookup] at h
          cases addrs with
          | nil => cases h
          | cons a addrs =>
              dsimp only at h
              split at h
              · cases h
              · next hchecked =>
                  obtain rfl := Except.ok.inj h
                  refine ⟨_, rfl, rfl, fun hnot => ?_⟩
                  rw [hnot, Bool.not_false, Bool.true_and, Bool.not_eq_true] at hhost
                  rw [hnot] at hchecked
                  exact ⟨hhost, firstDenied_eq_none hchecked⟩

theorem resolveFor_eq_ok {host : String} {addr : SocketAddr}
    (h : resolveFor lib world targets n url = .ok (host, addr)) :
    ∃ parsed port, lib.parse url = some parsed ∧
      (lib.scheme parsed = "http" ∨ lib.scheme parsed = "https") ∧
      lib.hostStr parsed = some host ∧ lib.portOrKnownDefault parsed = some port ∧
      pin world targets n host port = .ok addr := by
  unfold resolveFor at h
  cases hparse : lib.parse url with
  | none =>
      rw [hparse] at h
      cases h
  | some parsed =>
      rw [hparse] at h
      dsimp only at h
      split_ifs at h with hscheme
      cases hhost : lib.hostStr parsed with
      | none =>
          rw [hhost] at h
          cases h
      | some name =>
          cases hport : lib.portOrKnownDefault parsed with
          | none =>
              rw [hhost, hport] at h
              cases h
          | some port =>
              rw [hhost, hport] at h
              cases hpin : pin world targets n name port with
              | error e =>
                  simp only [hpin] at h
                  cases h
              | ok a =>
                  simp only [hpin] at h
                  obtain ⟨rfl, rfl⟩ := Prod.mk.inj (Except.ok.inj h)
                  exact ⟨parsed, port, rfl, by tauto, hhost, hport, hpin⟩

/-- A host that is the text of an address is judged as the address. -/
theorem ipIsDenied_of_literal {host : List Char} {ip : IpAddr} (h : literal host = some ip)
    (hhost : hostIsDenied host = false) : ipIsDenied ip = false := by
  unfold literal at h
  cases hpre : stripPrefix ['['] host with
  | none =>
      rw [hpre] at h
      rw [← hostIsDenied_bare h, hhost]
  | some x =>
      rw [hpre] at h
      dsimp only at h
      cases hsuf : stripSuffix [']'] x with
      | none =>
          rw [hsuf] at h
          cases h
      | some y =>
          rw [hsuf, Option.bind_some] at h
          have hshape : host = '[' :: y ++ [']'] := by
            rw [eq_append_of_stripPrefix hpre, eq_append_of_stripSuffix hsuf]
            rfl
          rw [← hostIsDenied_bracketed h, ← hshape, hhost]

theorem request_eq_ok {r : Sent} (h : request lib world targets p n url = .ok r) :
    r.url = url ∧ Vetted lib world targets p n r := by
  unfold request at h
  cases hresolve : resolveFor lib world targets n url with
  | error e =>
      rw [hresolve] at h
      cases h
  | ok pinned =>
      rw [hresolve] at h
      dsimp only at h
      cases hfind : p.headers.find? fun e => hasLineBreak e.2 with
      | some e =>
          rw [hfind] at h
          split_ifs at h
      | none =>
          rw [hfind] at h
          split_ifs at h
          obtain rfl := Except.ok.inj h
          obtain ⟨parsed, port, hparse, hscheme, hhost, hport, hpin⟩ := resolveFor_eq_ok hresolve
          obtain ⟨addrs, hlookup, haddr, hchecked⟩ := pin_eq_ok hpin
          refine ⟨rfl, rfl, rfl, fun e he => ?_, rfl, parsed, port, addrs, hparse, hscheme, hhost,
            hport, hlookup, haddr, fun hnot => ?_⟩
          · simpa using List.find?_eq_none.1 hfind e he
          · obtain ⟨hdenied, hall⟩ := hchecked hnot
            refine ⟨?_, hall⟩
            unfold destination
            cases hlit : literal (hopRequest p n url pinned.1 pinned.2).host.toList with
            | none =>
                rw [Option.getD_none]
                exact hall _ (List.mem_of_head? haddr)
            | some ip =>
                rw [Option.getD_some]
                exact ipIsDenied_of_literal hlit hdenied

/-! ## Runs -/

section Runs

variable (lib world targets p)

/-- Requests that redirects lead through, from a hop on. -/
inductive Trail : ℕ → String → List Sent → Prop where
  | nil (n : ℕ) (url : String) : Trail n url []
  | last {n : ℕ} {url : String} {r : Sent} (hr : request lib world targets p n url = .ok r) :
      Trail n url [r]
  | hop {n : ℕ} {url next target : String} {r : Sent} {resp : Response} {rest : List Sent}
      (hr : request lib world targets p n url = .ok r) (hresp : world.respond n r = some resp)
      (hnext : location resp = some next) (hlimit : n + 1 ≤ maxRedirects)
      (htarget : joinRedirect lib url next = .ok target) (hrest : Trail (n + 1) target rest) :
      Trail n url (r :: rest)

theorem trail_sendFrom (hops : ℕ) (url : String) :
    Trail lib world targets p hops url (sendFrom lib world targets p hops url).1 := by
  fun_induction sendFrom lib world targets p hops url with
  | case1 => exact .nil _ _
  | case2 hops url r hr => exact .last hr
  | case3 hops url r hr => exact .last hr
  | case4 hops url r hr => exact .last hr
  | case5 hops url r hr => exact .last hr
  | case6 hops url r hr resp hresp next hnext hlimit target htarget rest ih =>
      exact .hop hr hresp hnext (by omega) htarget ih

variable {lib world targets p} {sent : List Sent}

theorem Trail.length_le (h : Trail lib world targets p n url sent) (hn : n ≤ maxRedirects) :
    sent.length + n ≤ maxRedirects + 1 := by
  induction h with
  | nil n => exact (Nat.zero_add n).trans_le (Nat.le_succ_of_le hn)
  | last =>
      rw [List.length_singleton, Nat.add_comm]
      exact Nat.add_le_add_right hn 1
  | hop hr hresp hnext hlimit htarget hrest ih =>
      have hlength := ih hlimit
      rw [List.length_cons]
      omega

theorem Trail.url_eq (h : Trail lib world targets p n url sent) {r : Sent}
    (hr : sent[0]? = some r) : r.url = url := by
  cases h with
  | nil => cases hr
  | last hs =>
      obtain rfl := Option.some_inj.1 hr
      exact (request_eq_ok hs).1
  | hop hs hresp hnext hlimit htarget hrest =>
      obtain rfl := Option.some_inj.1 hr
      exact (request_eq_ok hs).1

theorem Trail.vetted (h : Trail lib world targets p n url sent) {i : ℕ} {r : Sent}
    (hr : sent[i]? = some r) : Vetted lib world targets p (n + i) r := by
  induction h generalizing i with
  | nil => cases hr
  | last hs =>
      cases i with
      | zero =>
          obtain rfl := Option.some_inj.1 hr
          exact (request_eq_ok hs).2
      | succ i => cases hr
  | hop hs hresp hnext hlimit htarget hrest ih =>
      cases i with
      | zero =>
          obtain rfl := Option.some_inj.1 hr
          exact (request_eq_ok hs).2
      | succ i =>
          have hlater := ih hr
          rwa [Nat.add_assoc, Nat.add_comm 1 i] at hlater

/-- A request after another is for the target of the redirect that the other was answered with. -/
theorem Trail.redirected (h : Trail lib world targets p n url sent) {i : ℕ} {r s : Sent}
    (hr : sent[i]? = some r) (hs : sent[i + 1]? = some s) :
    ∃ resp next, world.respond (n + i) r = some resp ∧ location resp = some next ∧
      joinRedirect lib r.url next = .ok s.url := by
  induction h generalizing i with
  | nil => cases hr
  | last => cases hs
  | hop hreq hresp hnext hlimit htarget hrest ih =>
      cases i with
      | zero =>
          obtain rfl := Option.some_inj.1 hr
          refine ⟨_, _, hresp, hnext, ?_⟩
          rw [(request_eq_ok hreq).1, hrest.url_eq hs]
          exact htarget
      | succ i =>
          have hlater := ih hr hs
          rwa [Nat.add_assoc, Nat.add_comm 1 i] at hlater

end Runs

/-- The outcome that a response is read as. -/
def outcomeOf (lib : WebLib U) (resp : Response) : Outcome where
  status := resp.status
  headers := textHeaders resp
  body := (lib.fromStr (fromUtf8Lossy resp.chunks.flatten)).getD
    (.str (String.ofList (fromUtf8Lossy resp.chunks.flatten)))
  bytes := resp.chunks.flatten.length

/-- A body is read when it arrives whole and under the ceiling. -/
theorem readBody_eq_ok_iff {broken : Bool} {buf whole : List UInt8} {chunks : List (List UInt8)}
    (hbuf : buf.length ≤ maxResponseBytes) :
    readBody broken buf chunks = .ok whole ↔
      broken = false ∧ whole = buf ++ chunks.flatten ∧ whole.length ≤ maxResponseBytes := by
  induction chunks generalizing buf with
  | nil =>
      rw [readBody, List.flatten_nil, List.append_nil]
      cases broken with
      | true => simp
      | false =>
          simp only [Bool.false_eq_true, if_false, Except.ok.injEq, true_and]
          constructor
          · rintro rfl
            exact ⟨rfl, hbuf⟩
          · rintro ⟨rfl, -⟩
            rfl
  | cons chunk chunks ih =>
      rw [readBody, List.flatten_cons, ← List.append_assoc]
      split
      · next hover =>
          constructor
          · intro h
            cases h
          · rintro ⟨-, rfl, hlength⟩
            rw [List.length_append] at hlength
            omega
      · next hunder => exact ih (Nat.le_of_not_lt hunder)

theorem finish_eq_ok_iff {resp : Response} {o : Outcome} :
    finish lib resp = .ok o ↔ resp.broken = false ∧
      resp.chunks.flatten.length ≤ maxResponseBytes ∧ o = outcomeOf lib resp := by
  have hread : ∀ whole, readBody resp.broken [] resp.chunks = .ok whole ↔
      resp.broken = false ∧ whole = resp.chunks.flatten ∧ whole.length ≤ maxResponseBytes :=
    fun whole => readBody_eq_ok_iff (Nat.zero_le _)
  unfold finish
  cases hbody : readBody resp.broken [] resp.chunks with
  | error e =>
      constructor
      · intro h
        cases h
      · rintro ⟨hbroken, hlength, -⟩
        rw [(hread _).2 ⟨hbroken, rfl, hlength⟩] at hbody
        cases hbody
  | ok whole =>
      obtain ⟨hbroken, rfl, hlength⟩ := (hread _).1 hbody
      constructor
      · intro h
        exact ⟨hbroken, hlength, (Except.ok.inj h).symm⟩
      · rintro ⟨-, -, rfl⟩
        rfl

theorem finish_ne_tooMany {resp : Response} {limit : ℕ} :
    finish lib resp ≠ .error (.tooManyRedirects limit) := by
  have hread : ∀ buf chunks, readBody resp.broken buf chunks ≠ .error (.tooManyRedirects limit) := by
    intro buf chunks
    induction chunks generalizing buf with
    | nil =>
        rw [readBody]
        split <;> simp
    | cons chunk chunks ih =>
        rw [readBody]
        split
        · simp
        · exact ih _
  unfold finish
  cases hbody : readBody resp.broken [] resp.chunks with
  | error e =>
      intro h
      obtain rfl := Except.error.inj h
      exact hread _ _ hbody
  | ok whole => exact fun h => nomatch h

theorem request_ne_tooMany {limit : ℕ} :
    request lib world targets p n url ≠ .error (.tooManyRedirects limit) := by
  have hpin : ∀ host port, pin world targets n host port ≠ .error (.tooManyRedirects limit) := by
    intro host port
    unfold pin
    dsimp only
    split
    · simp
    · cases world.lookup n host port with
      | none => simp
      | some addrs =>
          cases addrs with
          | nil => simp
          | cons a addrs =>
              dsimp only
              split <;> simp
  have hresolve : resolveFor lib world targets n url ≠ .error (.tooManyRedirects limit) := by
    unfold resolveFor
    cases lib.parse url with
    | none => simp
    | some parsed =>
        dsimp only
        split
        · simp
        · cases lib.hostStr parsed with
          | none => simp
          | some host =>
              cases lib.portOrKnownDefault parsed with
              | none => simp
              | some port =>
                  dsimp only
                  cases hp : pin world targets n host port with
                  | error e =>
                      intro h
                      obtain rfl := Except.error.inj h
                      exact hpin _ _ hp
                  | ok addr => exact fun h => nomatch h
  unfold request
  cases hr : resolveFor lib world targets n url with
  | error e =>
      intro h
      obtain rfl := Except.error.inj h
      exact hresolve hr
  | ok pinned =>
      dsimp only
      cases p.headers.find? fun e => hasLineBreak e.2 <;> dsimp only <;> split_ifs <;> simp

theorem joinRedirect_ne_tooMany {next : String} {limit : ℕ} :
    joinRedirect lib url next ≠ .error (.tooManyRedirects limit) := by
  unfold joinRedirect
  cases lib.parse url with
  | none => exact fun h => nomatch h
  | some base =>
      cases hj : lib.join base next with
      | none => simp [hj, throw, throwThe, MonadExceptOf.throw]
      | some target => simp [hj, pure, Except.pure]

/-- The response to the last of the requests that were sent from a hop on. -/
def lastResponse (world : World) (hops : ℕ) (sent : List Sent) : Option Response :=
  sent.getLast?.bind (world.respond (hops + (sent.length - 1)))

theorem lastResponse_singleton (hops : ℕ) (r : Sent) :
    lastResponse world hops [r] = world.respond hops r := rfl

theorem lastResponse_cons (hops : ℕ) (r : Sent) {rest : List Sent} (h : rest ≠ []) :
    lastResponse world hops (r :: rest) = lastResponse world (hops + 1) rest := by
  obtain ⟨s, rest, rfl⟩ := List.exists_cons_of_ne_nil h
  have hindex : hops + ((r :: s :: rest).length - 1) = hops + 1 + ((s :: rest).length - 1) := by
    simp only [List.length_cons]
    omega
  rw [lastResponse, lastResponse, hindex, List.getLast?_cons_cons]

theorem sendFrom_eq_ok_iff (hops : ℕ) (url : String) (o : Outcome) :
    (sendFrom lib world targets p hops url).2 = .ok o ↔
      ∃ resp, lastResponse world hops (sendFrom lib world targets p hops url).1 = some resp ∧
        location resp = none ∧ finish lib resp = .ok o := by
  fun_induction sendFrom lib world targets p hops url with
  | case1 hops url e he => simp [lastResponse]
  | case2 hops url r hr hresp => simp [lastResponse_singleton, hresp]
  | case3 hops url r hr resp hresp hnext => simp [lastResponse_singleton, hresp, hnext]
  | case4 hops url r hr resp hresp next hnext => simp [lastResponse_singleton, hresp, hnext]
  | case5 hops url r hr resp hresp next hnext => simp [lastResponse_singleton, hresp, hnext]
  | case6 hops url r hr resp hresp next hnext hlimit target htarget rest ih =>
      rw [ih]
      by_cases hrest : rest.1 = []
      · change (∃ resp, lastResponse world (hops + 1) rest.1 = some resp ∧ _) ↔ _
        simp [hrest, hresp, hnext, lastResponse]
      · rw [lastResponse_cons _ _ hrest]

theorem sendFrom_eq_tooMany_iff (hops : ℕ) (url : String) (limit : ℕ) (h : hops ≤ maxRedirects) :
    (sendFrom lib world targets p hops url).2 = .error (.tooManyRedirects limit) ↔
      limit = maxRedirects ∧
        (sendFrom lib world targets p hops url).1.length + hops = maxRedirects + 1 ∧
        ∃ resp, lastResponse world hops (sendFrom lib world targets p hops url).1 = some resp ∧
          location resp ≠ none := by
  fun_induction sendFrom lib world targets p hops url with
  | case1 hops url e he =>
      simp only [Except.error.injEq]
      constructor
      · rintro rfl
        exact absurd he request_ne_tooMany
      · simp [lastResponse]
  | case2 hops url r hr hresp => simp [lastResponse_singleton, hresp]
  | case3 hops url r hr resp hresp hnext =>
      simp [lastResponse_singleton, hresp, hnext, finish_ne_tooMany]
  | case4 hops url r hr resp hresp next hnext hlimit =>
      simp only [Except.error.injEq, SendError.tooManyRedirects.injEq, List.length_singleton]
      constructor
      · rintro rfl
        refine ⟨rfl, by omega, resp, hresp, ?_⟩
        rw [hnext]
        exact Option.some_ne_none next
      · rintro ⟨rfl, -, -⟩
        rfl
  | case5 hops url r hr resp hresp next hnext hlimit e he =>
      simp only [Except.error.injEq, List.length_singleton]
      constructor
      · rintro rfl
        exact absurd he joinRedirect_ne_tooMany
      · rintro ⟨-, hlength, -⟩
        omega
  | case6 hops url r hr resp hresp next hnext hlimit target htarget rest ih =>
      rw [ih (by omega), List.length_cons]
      have hlength : rest.1.length + (hops + 1) = rest.1.length + 1 + hops := by omega
      by_cases hrest : rest.1 = []
      · have hshort : ¬(rest.1.length + 1 + hops = maxRedirects + 1) := by
          rw [hrest, List.length_nil]
          omega
        change limit = maxRedirects ∧ rest.1.length + (hops + 1) = _ ∧ _ ↔ _
        rw [hlength]
        simp [hshort]
      · rw [lastResponse_cons _ _ hrest, ← hlength]

/-- An outcome is read from the response to the last request that was sent, which leads nowhere on,
came whole and stayed under the ceiling; and a call gives up on redirects exactly when it has sent
all requests it may and the last response still leads on. -/
theorem send_outcome (lib : WebLib U) (world : World) (targets : List String) (p : Prepared) :
    (∀ o, (send lib world targets p).2 = .ok o ↔
      ∃ resp, lastResponse world 0 (send lib world targets p).1 = some resp ∧
        location resp = none ∧ resp.broken = false ∧
        resp.chunks.flatten.length ≤ maxResponseBytes ∧ o = outcomeOf lib resp) ∧
      ∀ limit, (send lib world targets p).2 = .error (.tooManyRedirects limit) ↔
        limit = maxRedirects ∧ (send lib world targets p).1.length = maxRedirects + 1 ∧
          ∃ resp, lastResponse world 0 (send lib world targets p).1 = some resp ∧
            location resp ≠ none := by
  constructor
  · intro o
    rw [send, sendFrom_eq_ok_iff]
    simp only [finish_eq_ok_iff]
  · intro limit
    rw [send, sendFrom_eq_tooMany_iff _ _ _ (Nat.zero_le _), Nat.add_zero]

end Send

end Tools

end Wheel
