import Mathlib.Data.BitVec
import Wheel.Text.Search

/-!
# Addresses as text

The addresses of the two families of the internet protocol, and how each is read from a
text: four decimal numbers, or groups of hexadecimal digits of which one run of zeros may
be left out and the last two may be written as four decimal numbers.
-/

namespace Text

/-- An address of either family. -/
inductive IpAddr where
  | v4 (a : BitVec 32)
  | v6 (a : BitVec 128)
  deriving DecidableEq

/-- A reader takes something from the front of a text, or fails. -/
abbrev Reader (α : Type) : Type := List Char → Option (α × List Char)

def digitValue (radix : ℕ) (c : Char) : Option ℕ :=
  let n := c.toNat
  let value :=
    if '0' ≤ c ∧ c ≤ '9' then n - 48
    else if 'a' ≤ c ∧ c ≤ 'z' then n - 87
    else if 'A' ≤ c ∧ c ≤ 'Z' then n - 55
    else radix
  if value < radix then some value else none

/-- The number that a list of digits denotes. -/
def numberOf (radix : ℕ) (digits : List ℕ) : ℕ := digits.foldl (fun n d => n * radix + d) 0

/-- Read as many digits as there are: at most `maxDigits`, and no number above `bound`. -/
def readNumber (radix maxDigits bound : ℕ) (zeroPrefix : Bool) : Reader ℕ := fun x =>
  let digits := x.takeWhile fun c => (digitValue radix c).isSome
  let value := numberOf radix (digits.filterMap (digitValue radix))
  if digits.isEmpty || decide (maxDigits < digits.length) || decide (bound < value) then none
  else if !zeroPrefix && digits.head? = some '0' && decide (1 < digits.length) then none
  else some (value, x.drop digits.length)

def readChar (c : Char) : Reader Unit
  | [] => none
  | d :: x => if d = c then some ((), x) else none

/-- Read what stands behind a separator, or in the first place. -/
def separated {α : Type} (sep : Char) (first : Bool) (read : Reader α) : Reader α := fun x =>
  if first then read x else (readChar sep x).bind fun r => read r.2

/-- Read numbers that a separator separates. -/
def readNumbers (sep : Char) (read : Reader ℕ) : ℕ → Bool → Reader (List ℕ)
  | 0, _, x => some ([], x)
  | n + 1, first, x =>
      (separated sep first read x).bind fun r =>
        (readNumbers sep read n false r.2).map fun s => (r.1 :: s.1, s.2)

def readOctets : Reader (List ℕ) := readNumbers '.' (readNumber 10 3 255 false) 4 true

def readIpv4 : Reader (BitVec 32) := fun x =>
  (readOctets x).map fun r => (BitVec.ofNat 32 (numberOf 256 r.1), r.2)

/-- Read groups, at most `n`; the last two of them may be an address of four numbers, which
the answer tells. -/
def readGroups : ℕ → Bool → List Char → List ℕ × Bool × List Char
  | 0, _, x => ([], false, x)
  | n + 1, first, x =>
      match if n = 0 then none else separated ':' first readOctets x with
      | some ([a, b, c, d], y) => ([a * 256 + b, c * 256 + d], true, y)
      | _ =>
          match separated ':' first (readNumber 16 4 0xffff true) x with
          | some (g, y) => (g :: (readGroups n false y).1, (readGroups n false y).2)
          | none => ([], false, x)

def ofGroups (groups : List ℕ) : BitVec 128 := BitVec.ofNat 128 (numberOf 65536 groups)

def readIpv6 : Reader (BitVec 128) := fun x =>
  let head := readGroups 8 true x
  if head.1.length = 8 then some (ofGroups head.1, head.2.2)
  else if head.2.1 then none
  else (readChar ':' head.2.2).bind fun r => (readChar ':' r.2).bind fun s =>
    let tail := readGroups (7 - head.1.length) true s.2
    some (ofGroups (head.1 ++ List.replicate (8 - head.1.length - tail.1.length) 0 ++ tail.1),
      tail.2.2)

/-- The address that a text denotes. -/
def parseIpAddr (x : List Char) : Option IpAddr :=
  match readIpv4 x with
  | some (a, []) => some (.v4 a)
  | some _ => none
  | none =>
      match readIpv6 x with
      | some (a, []) => some (.v6 a)
      | _ => none

example : parseIpAddr "::ffff:127.0.0.1".toList = some (.v6 0xffff7f000001) := by decide +kernel

namespace IpAddr

/-- An address of the old family may be written as one of the new. -/
def canonical : IpAddr → IpAddr
  | v6 a => if a >>> 32 = 0xffff then v4 (a.truncate 32) else v6 a
  | v4 a => v4 a

@[simp] theorem canonical_canonical (a : IpAddr) : a.canonical.canonical = a.canonical := by
  cases a with
  | v4 a => rfl
  | v6 a =>
      by_cases h : a >>> 32 = 0xffff
      · simp only [canonical, if_pos h]
      · simp only [canonical, if_neg h]

/-- How many bits an address has. -/
def width : IpAddr → ℕ
  | v4 _ => 32
  | v6 _ => 128

end IpAddr

end Text
