import Wheel.Http.HeaderLine
import Wheel.Text.IpAddr

/-!
# The address of a client

Behind a trusted proxy the client is the first address from the right of
`X-Forwarded-For` that is no trusted proxy. `TrustedProxies.client` reads the lines of
the header; `TrustedProxies.named` says which address the entries that the trusted
proxies appended name. `client_eq_client_iff` says when two histories in which the
proxies appended the same entries lead to one client.
-/

namespace Wheel.Http

open Text

/-! ## Trusted proxies -/

structure Cidr where
  net : Text.IpAddr
  bits : ℕ
  valid : bits ≤ net.width

inductive CidrError where
  | notAnAddress (raw : List Char)
  | invalidPrefixLength (raw : List Char)
  deriving DecidableEq

def samePrefix (a b bits width : ℕ) : Bool :=
  let shift := width - bits
  decide (128 ≤ shift) || a >>> shift == b >>> shift

/-- The number of a text of digits, with a plus before it or not, up to 255. -/
def parseU8 (x : List Char) : Option ℕ :=
  let digits := if x.head? = some '+' then x.tail else x
  match Text.readNumber 10 digits.length 255 true digits with
  | some (n, []) => some n
  | _ => none

namespace Cidr

/-- A network with a prefix length that is not above the width of its address. -/
def of (raw : List Char) (net : Text.IpAddr) (bits : Option ℕ) : Except CidrError Cidr :=
  match bits with
  | none => .error (.invalidPrefixLength raw)
  | some bits =>
      if h : bits ≤ net.width then .ok ⟨net, bits, h⟩ else .error (.invalidPrefixLength raw)

def parse (raw : List Char) : Except CidrError Cidr :=
  let parts := match splitFirst ['/'] raw with
    | some (a, b) => (a, some b)
    | none => (raw, none)
  match parseIpAddr (trim parts.1) with
  | none => .error (.notAnAddress raw)
  | some net => of raw net.canonical
      (match parts.2 with
        | none => some net.canonical.width
        | some b => parseU8 (trim b))

def contains (c : Cidr) (ip : Text.IpAddr) : Bool :=
  match c.net, ip.canonical with
  | .v4 n, .v4 a => samePrefix n.toNat a.toNat c.bits 32
  | .v6 n, .v6 a => samePrefix n.toNat a.toNat c.bits 128
  | _, _ => false

end Cidr

abbrev TrustedProxies := List Cidr

namespace TrustedProxies

variable (t : TrustedProxies)

/-- The proxies that a setting lists, separated by commas. -/
def parse (raw : List Char) : Except CidrError TrustedProxies :=
  (((raw.splitOn ',').map trim).filter fun s => s ≠ []).mapM Cidr.parse

def trusts (ip : Text.IpAddr) : Bool := t.any fun c => c.contains ip

/-- Walk the hops from the right while each one is a trusted proxy. -/
def walk (client : Text.IpAddr) : List (List Char) → Text.IpAddr
  | [] => client
  | hop :: hops =>
      match parseIpAddr hop with
      | none => client
      | some ip => if t.trusts ip.canonical then walk ip.canonical hops else ip.canonical

/-- The hops of all the lines, or nothing when a line is no text. -/
def hops : List HeaderLine → Option (List (List Char))
  | [] => some []
  | line :: lines =>
      match toStr line with
      | none => none
      | some text => (hops lines).map fun rest => (text.splitOn ',').map trim ++ rest

/-- The client behind `peer`. -/
def client (peer : Text.IpAddr) (lines : List HeaderLine) : Text.IpAddr :=
  if t.trusts peer.canonical then
    match hops lines with
    | none => peer.canonical
    | some hops => t.walk peer.canonical hops.reverse
  else peer.canonical

end TrustedProxies

/-! ## What the trusted proxies appended -/

/-- An entry of the header, as bytes. -/
abbrev Entry := List UInt8

/-- The entries of all the lines, in order. -/
def entries (lines : List HeaderLine) : List Entry := lines.flatMap fun line => line.splitOn comma

/-- The address that an entry spells. -/
def Entry.address (e : Entry) : Option Text.IpAddr :=
  (toStr e).bind fun text => (parseIpAddr (trim text)).map Text.IpAddr.canonical

namespace TrustedProxies

variable (t : TrustedProxies)

def isProxy (e : Entry) : Bool := e.address.any t.trusts

/-- From the right, the entries that are trusted proxies and the first one that is not. -/
def upToClient : List Entry → List Entry
  | [] => []
  | e :: rest => if t.isProxy e then e :: upToClient rest else [e]

/-- The entries that the trusted proxies appended. -/
def appended (x : List Entry) : List Entry := (t.upToClient x.reverse).reverse

/-- The client that entries name, read from the right: the first address that is no trusted
proxy, and the last one that could be vouched for where there is none. -/
def namedFrom (client : Text.IpAddr) : List Entry → Text.IpAddr
  | [] => client
  | e :: rest =>
      match e.address with
      | none => client
      | some ip => if t.trusts ip then namedFrom ip rest else ip

def named (peer : Text.IpAddr) (x : List Entry) : Text.IpAddr := t.namedFrom peer.canonical x.reverse

end TrustedProxies

/-- Every line of the header is text. -/
def Readable (lines : List HeaderLine) : Prop := ∀ line ∈ lines, (toStr line).isSome = true

/-! ## The walk over the entries -/

namespace TrustedProxies

variable (t : TrustedProxies) {line : HeaderLine} {lines : List HeaderLine} {x y : List Entry}
  {peer ip : Text.IpAddr}

theorem hops_eq_none_iff : hops lines = none ↔ ¬ Readable lines := by
  unfold Readable
  induction lines with
  | nil => simp [hops]
  | cons line lines ih =>
      rw [hops, List.forall_mem_cons]
      cases toStr line with
      | none => simp
      | some text => simp [ih]

theorem hops_of_readable (h : Readable lines) :
    hops lines = some ((entries lines).map fun e => trim (e.map charOf)) ∧
      ∀ e ∈ entries lines, toStr e = some (e.map charOf) := by
  induction lines with
  | nil => exact ⟨rfl, fun e he => by cases he⟩
  | cons line lines ih =>
      obtain ⟨hline, hlines⟩ := List.forall_mem_cons.mp h
      obtain ⟨text, htext⟩ := Option.isSome_iff_exists.mp hline
      obtain ⟨hvisible, rfl⟩ := toStr_eq_some_iff.mp htext
      obtain ⟨hhops, hentries⟩ := ih hlines
      have hcons : entries (line :: lines) = line.splitOn comma ++ entries lines := rfl
      constructor
      · rw [hops, htext]
        simp only [hhops, Option.map_some, hcons, List.map_append, splitOn_map_charOf, List.map_map]
        rfl
      · intro e he
        rw [hcons] at he
        rcases List.mem_append.mp he with he | he
        · exact toStr_of_mem_splitOn hvisible he
        · exact hentries e he

/-- On entries that are text, the walk of the code is the walk of the entries. -/
theorem walk_eq_namedFrom (h : ∀ e ∈ x, toStr e = some (e.map charOf)) :
    t.walk ip (x.map fun e => trim (e.map charOf)) = t.namedFrom ip x := by
  induction x generalizing ip with
  | nil => rfl
  | cons e x ih =>
      obtain ⟨he, hx⟩ := List.forall_mem_cons.mp h
      rw [List.map_cons, walk, namedFrom, Entry.address, he, Option.bind_some]
      cases parseIpAddr (trim (e.map charOf)) with
      | none => rfl
      | some a =>
          simp only [Option.map_some]
          split
          · exact ih hx
          · rfl

/-- The walk never passes the entries that the proxies appended. -/
theorem namedFrom_upToClient (x : List Entry) :
    t.namedFrom ip (t.upToClient x) = t.namedFrom ip x := by
  induction x generalizing ip with
  | nil => rfl
  | cons e x ih =>
      unfold upToClient isProxy
      cases haddr : e.address with
      | none => simp [namedFrom, haddr]
      | some a =>
          cases htrust : t.trusts a with
          | true => simp [namedFrom, haddr, htrust, ih]
          | false => simp [namedFrom, haddr, htrust]

theorem named_appended (x : List Entry) : t.named peer (t.appended x) = t.named peer x := by
  unfold named appended
  rw [List.reverse_reverse, namedFrom_upToClient]

/-- What the code answers, in terms of the entries. -/
theorem client_eq (peer : Text.IpAddr) (lines : List HeaderLine) :
    (Readable lines → t.trusts peer.canonical = true →
      t.client peer lines = t.named peer (t.appended (entries lines))) ∧
    ((¬ Readable lines ∨ t.trusts peer.canonical = false) →
      t.client peer lines = peer.canonical) := by
  constructor
  · intro hread htrust
    obtain ⟨hhops, hentries⟩ := hops_of_readable hread
    rw [client, if_pos htrust, hhops, named_appended, named]
    dsimp only
    rw [← List.map_reverse, walk_eq_namedFrom]
    intro e he
    exact hentries e (List.mem_reverse.mp he)
  · intro h
    unfold client
    split
    · rename_i htrust
      rcases h with h | h
      · rw [hops_eq_none_iff.mpr h]
      · rw [h] at htrust
        cases htrust
    · rfl

/-- Two histories in which the trusted proxies appended the same entries lead to one client
if and only if the peer is no trusted proxy, both are text or neither is, or the appended
entries name the peer itself. -/
theorem client_eq_client_iff (peer : Text.IpAddr) (lines lines' : List HeaderLine)
    (h : t.appended (entries lines) = t.appended (entries lines')) :
    t.client peer lines = t.client peer lines' ↔
      (t.trusts peer.canonical = true → (Readable lines ↔ Readable lines') ∨
        t.named peer (t.appended (entries lines)) = peer.canonical) := by
  obtain ⟨hnamed, hpeer⟩ := t.client_eq peer lines
  obtain ⟨hnamed', hpeer'⟩ := t.client_eq peer lines'
  cases htrust : t.trusts peer.canonical with
  | false =>
      rw [hpeer (.inr htrust), hpeer' (.inr htrust)]
      simp
  | true =>
      by_cases hread : Readable lines
      · rw [hnamed hread htrust]
        by_cases hread' : Readable lines'
        · rw [hnamed' hread' htrust, h]
          simp [hread, hread']
        · rw [hpeer' (.inl hread')]
          simp [hread, hread']
      · rw [hpeer (.inl hread)]
        by_cases hread' : Readable lines'
        · rw [hnamed' hread' htrust, h]
          simp [hread, hread', eq_comm]
        · rw [hpeer' (.inl hread')]
          simp [hread, hread']

/-- The proxy on this host. -/
def localProxy : TrustedProxies := [⟨.v4 0x7f000001, 32, by decide⟩]

/-- What a client prepends as text is not seen. -/
theorem client_eq_client_prepended :
    localProxy.client (.v4 0x7f000001) [lineOf "6.6.6.6,198.51.100.7"] =
      localProxy.client (.v4 0x7f000001) [lineOf "198.51.100.7"] := by
  rw [localProxy.client_eq_client_iff _ _ _ (by decide +kernel)]
  intro _
  left
  unfold Readable
  decide +kernel

/-- A byte that is no text, in a line that the client wrote, puts the proxy in the place of
the client. -/
theorem client_depends_on_left : ¬ ∀ (t : TrustedProxies) (peer : Text.IpAddr)
    (lines lines' : List HeaderLine), t.appended (entries lines) = t.appended (entries lines') →
      t.client peer lines = t.client peer lines' := by
  intro h
  have hne : localProxy.client (.v4 0x7f000001) [[0xff], lineOf "198.51.100.7"] ≠
      localProxy.client (.v4 0x7f000001) [lineOf "198.51.100.7"] := by decide +kernel
  exact hne (h _ _ _ _ (by decide +kernel))

end TrustedProxies

end Wheel.Http
