import Mathlib
import Wheel.Text.Search

/-!
# Addresses and hosts the engine does not call

An outbound target is refused when its host is an internal name or an address
that is not public. An IPv6 address may hide an IPv4 address in several forms,
and each hidden address is judged as itself. `parseIp` reads an address as the
standard library does.
-/

namespace Wheel

structure Ipv4Addr where
  a : BitVec 8
  b : BitVec 8
  c : BitVec 8
  d : BitVec 8
  deriving DecidableEq

structure Ipv6Addr where
  s0 : BitVec 16
  s1 : BitVec 16
  s2 : BitVec 16
  s3 : BitVec 16
  s4 : BitVec 16
  s5 : BitVec 16
  s6 : BitVec 16
  s7 : BitVec 16
  deriving DecidableEq

inductive IpAddr where
  | v4 (ip : Ipv4Addr)
  | v6 (ip : Ipv6Addr)
  deriving DecidableEq

/-- The IPv4 address in two segments. -/
def Ipv4Addr.ofSegments (hi lo : BitVec 16) : Ipv4Addr where
  a := hi.extractLsb' 8 8
  b := hi.extractLsb' 0 8
  c := lo.extractLsb' 8 8
  d := lo.extractLsb' 0 8

/-- The two segments of an IPv4 address. -/
def Ipv4Addr.segments (v4 : Ipv4Addr) : BitVec 16 × BitVec 16 := (v4.a ++ v4.b, v4.c ++ v4.d)

/-! ## Reading an address -/

/-- The value of a digit of the radix. -/
def digitOf (radix : ℕ) (c : Char) : Option ℕ :=
  let n :=
    if c.isDigit then some (c.toNat - 48)
    else if 'a' ≤ c ∧ c ≤ 'f' then some (c.toNat - 87)
    else if 'A' ≤ c ∧ c ≤ 'F' then some (c.toNat - 55)
    else none
  n.filter fun n => n < radix

/-- Read a number of at most `maxDigits` digits, below `bound`. -/
def readNumber (radix maxDigits bound : ℕ) (zeroPrefix : Bool) (x : List Char) :
    Option (ℕ × List Char) :=
  let digits := x.takeWhile fun c => (digitOf radix c).isSome
  let n := digits.foldl (fun n c => radix * n + (digitOf radix c).getD 0) 0
  if digits.isEmpty || maxDigits < digits.length || bound ≤ n then none
  else if !zeroPrefix && x.head? = some '0' && 1 < digits.length then none
  else some (n, x.drop digits.length)

/-- Read the separator in front of all but the first item. -/
def readSeparator {α : Type} (sep : Char) (index : ℕ)
    (inner : List Char → Option (α × List Char)) (x : List Char) : Option (α × List Char) :=
  if index = 0 then inner x
  else
    match x with
    | c :: x => if c = sep then inner x else none
    | [] => none

def readOctet (index : ℕ) (x : List Char) : Option (BitVec 8 × List Char) :=
  (readSeparator '.' index (readNumber 10 3 256 false) x).map fun (n, x) => (BitVec.ofNat 8 n, x)

def readIpv4 (x : List Char) : Option (Ipv4Addr × List Char) := do
  let (a, x) ← readOctet 0 x
  let (b, x) ← readOctet 1 x
  let (c, x) ← readOctet 2 x
  let (d, x) ← readOctet 3 x
  return (⟨a, b, c, d⟩, x)

/-- Read groups until `limit` of them are read, or one cannot be; the last two may
be an IPv4 address, and the flag says that they were. -/
def readGroups (limit : ℕ) : ℕ → List Char → List (BitVec 16) × Bool × List Char
  | 0, x => ([], false, x)
  | k + 1, x =>
      let index := limit - (k + 1)
      let ipv4 := if index + 1 < limit then readSeparator ':' index readIpv4 x else none
      match ipv4 with
      | some (v4, x) => ([v4.segments.1, v4.segments.2], true, x)
      | none =>
          match readSeparator ':' index (readNumber 16 4 65536 true) x with
          | none => ([], false, x)
          | some (g, x) =>
              let (gs, ipv4, x) := readGroups limit k x
              (BitVec.ofNat 16 g :: gs, ipv4, x)

def Ipv6Addr.ofGroups (gs : List (BitVec 16)) : Ipv6Addr where
  s0 := gs.getD 0 0
  s1 := gs.getD 1 0
  s2 := gs.getD 2 0
  s3 := gs.getD 3 0
  s4 := gs.getD 4 0
  s5 := gs.getD 5 0
  s6 := gs.getD 6 0
  s7 := gs.getD 7 0

/-- Read eight groups, or fewer around one `::` that stands for the rest. -/
def readIpv6 (x : List Char) : Option (Ipv6Addr × List Char) :=
  let (head, headIpv4, x) := readGroups 8 8 x
  if head.length = 8 then some (.ofGroups head, x)
  else if headIpv4 then none
  else
    match x with
    | ':' :: ':' :: x =>
        let limit := 8 - (head.length + 1)
        let (tail, _, x) := readGroups limit limit x
        some (.ofGroups (head ++ List.replicate (8 - head.length - tail.length) 0 ++ tail), x)
    | _ => none

/-- Read an address that is the whole text. -/
def parseIp (x : List Char) : Option IpAddr :=
  let read := ((readIpv4 x).map fun (ip, x) => (IpAddr.v4 ip, x)).or
    ((readIpv6 x).map fun (ip, x) => (IpAddr.v6 ip, x))
  match read with
  | some (ip, []) => some ip
  | _ => none

/-! ## Refused addresses -/

/-- Every IPv4 address an IPv6 address embeds. -/
def embeddedIpv4 (v6 : Ipv6Addr) : List Ipv4Addr :=
  let zeros := [v6.s0, v6.s1, v6.s2, v6.s3, v6.s4].all (· = 0)
  (if zeros && v6.s5 = 0xffff then [.ofSegments v6.s6 v6.s7] else []) ++
  (if zeros && v6.s5 = 0 && (v6.s6 ≠ 0 || v6.s7 ≠ 0) then [.ofSegments v6.s6 v6.s7] else []) ++
  (if v6.s0 = 0x2002 then [.ofSegments v6.s1 v6.s2] else []) ++
  (if v6.s0 = 0x0064 && v6.s1 = 0xff9b then [.ofSegments v6.s6 v6.s7] else []) ++
  (if v6.s0 = 0x2001 && v6.s1 = 0 then
    [.ofSegments v6.s2 v6.s3, .ofSegments (~~~v6.s6) (~~~v6.s7)] else [])

def ipv4IsDenied (v4 : Ipv4Addr) : Bool :=
  v4.a = 127
    || v4.a = 10 || (v4.a = 172 && v4.b.toNat / 16 = 1) || (v4.a = 192 && v4.b = 168)
    || (v4.a = 169 && v4.b = 254)
    || (v4.a = 255 && v4.b = 255 && v4.c = 255 && v4.d = 255)
    || (v4.a = 192 && v4.b = 0 && v4.c = 2) || (v4.a = 198 && v4.b = 51 && v4.c = 100)
    || (v4.a = 203 && v4.b = 0 && v4.c = 113)
    || (v4.a = 0 && v4.b = 0 && v4.c = 0 && v4.d = 0)
    || v4.a = 0
    || (v4.a = 100 && 64 ≤ v4.b.toNat && v4.b.toNat < 128)
    || (v4.a = 192 && v4.b = 0 && v4.c = 0)
    || (v4.a = 198 && (v4.b = 18 || v4.b = 19))
    || 240 ≤ v4.a.toNat

def ipIsDenied : IpAddr → Bool
  | .v4 v4 => ipv4IsDenied v4
  | .v6 v6 =>
      v6 = ⟨0, 0, 0, 0, 0, 0, 0, 1⟩ || v6 = ⟨0, 0, 0, 0, 0, 0, 0, 0⟩
        || v6.s0 &&& 0xfe00 = 0xfc00
        || v6.s0 &&& 0xffc0 = 0xfe80
        || (embeddedIpv4 v6).any ipv4IsDenied

/-- Cut a suffix off a text that ends with it. -/
def stripSuffix (suffix x : List Char) : Option (List Char) :=
  if suffix.isSuffixOf x then some (x.take (x.length - suffix.length)) else none

/-- Cut a prefix off a text that starts with it. -/
def stripPrefix (pre x : List Char) : Option (List Char) :=
  if pre.isPrefixOf x then some (x.drop pre.length) else none

theorem eq_append_of_stripSuffix {y x z : List Char} (h : stripSuffix y x = some z) :
    x = z ++ y := by
  unfold stripSuffix at h
  split_ifs at h with hsuffix
  obtain rfl := Option.some_inj.1 h
  exact (List.suffix_iff_eq_append.1 (List.isSuffixOf_iff_suffix.1 hsuffix)).symm

theorem eq_append_of_stripPrefix {pre x y : List Char} (h : stripPrefix pre x = some y) :
    x = pre ++ y := by
  unfold stripPrefix at h
  split at h
  · rename_i hpre
    cases h
    exact (List.prefix_iff_eq_append.1 (List.isPrefixOf_iff_prefix.1 hpre)).symm
  · cases h

/-- Is the host private, loopback or internal? -/
def hostIsDenied (host : List Char) : Bool :=
  let h := ((Text.trim host).reverse.dropWhile (· = '.')).reverse.map Char.toLower
  let h := (stripSuffix [']'] ((stripPrefix ['['] h).getD h)).getD h
  if h = [] || h = "localhost".toList || (".localhost".toList).isSuffixOf h
      || (".internal".toList).isSuffixOf h || (".local".toList).isSuffixOf h then true
  else
    match parseIp h with
    | some ip => ipIsDenied ip
    | none => false

/-- A loopback address is refused in every spelling of a dual stack. -/
example : (["127.0.0.1", "[::1]", "::ffff:127.0.0.1", "2002:7f00:1::", "LOCALHOST."].map
    fun h => hostIsDenied h.toList) = [true, true, true, true, true] := by
  decide +kernel

end Wheel
