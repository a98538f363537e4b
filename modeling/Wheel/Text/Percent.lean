import Wheel.Text.Utf8

/-!
# Percent-encoding

`percentEncode keep` writes every byte that `keep` does not spare as `%` and two
hexadecimal digits, and `percentDecode` reads such triples back, one pass, leaving
what is no triple as it is. When `%` itself is not spared the two are inverse, and
a text comes back from its encoded bytes.
-/

namespace Text

/-- The byte of `%`. -/
abbrev percent : UInt8 := 37

/-- The upper-case hexadecimal digit of a number below sixteen. -/
def upperHex (n : ℕ) : UInt8 := if n < 10 then UInt8.ofNat (48 + n) else UInt8.ofNat (55 + n)

/-- The value of a hexadecimal digit of either case. -/
def hexValue (b : UInt8) : Option ℕ :=
  if 48 ≤ b.toNat ∧ b.toNat ≤ 57 then some (b.toNat - 48)
  else if 65 ≤ b.toNat ∧ b.toNat ≤ 70 then some (b.toNat - 55)
  else if 97 ≤ b.toNat ∧ b.toNat ≤ 102 then some (b.toNat - 87)
  else none

def percentByte (b : UInt8) : List UInt8 :=
  [percent, upperHex (b.toNat / 16), upperHex (b.toNat % 16)]

def percentEncode (keep : UInt8 → Bool) (x : List UInt8) : List UInt8 :=
  x.flatMap fun b => if keep b then [b] else percentByte b

/-- The byte that `%` and two digits stand for. -/
def triple (h l : UInt8) : Option UInt8 :=
  (hexValue h).bind fun x => (hexValue l).map fun y => UInt8.ofNat (16 * x + y)

def percentDecode : List UInt8 → List UInt8
  | [] => []
  | [b] => [b]
  | [b, h] => [b, h]
  | b :: h :: l :: rest =>
      match if b = percent then triple h l else none with
      | some c => c :: percentDecode rest
      | none => b :: percentDecode (h :: l :: rest)

theorem hexValue_upperHex {n : ℕ} (h : n < 16) : hexValue (upperHex n) = some n := by
  revert n
  decide

theorem triple_percentByte (b : UInt8) :
    triple (upperHex (b.toNat / 16)) (upperHex (b.toNat % 16)) = some b := by
  have hlt : b.toNat < 256 := b.toNat_lt
  have hsum : 16 * (b.toNat / 16) + b.toNat % 16 = b.toNat := Nat.div_add_mod _ _
  rw [triple, hexValue_upperHex (by omega), hexValue_upperHex (Nat.mod_lt _ (by decide))]
  rw [Option.bind_some, Option.map_some, hsum, UInt8.ofNat_toNat]

theorem percentDecode_cons_of_ne {b : UInt8} (h : b ≠ percent) (x : List UInt8) :
    percentDecode (b :: x) = b :: percentDecode x := by
  cases x with
  | nil => rfl
  | cons c x =>
      cases x with
      | nil => rfl
      | cons d x => rw [percentDecode, if_neg h]

theorem percentDecode_percentByte_append (b : UInt8) (x : List UInt8) :
    percentDecode (percentByte b ++ x) = b :: percentDecode x := by
  change percentDecode (percent :: _ :: _ :: x) = _
  rw [percentDecode, if_pos rfl, triple_percentByte]

/-- One pass of decoding undoes the encoding, when `%` is encoded. -/
theorem percentDecode_percentEncode_append {keep : UInt8 → Bool} (hkeep : keep percent = false)
    (x y : List UInt8) : percentDecode (percentEncode keep x ++ y) = x ++ percentDecode y := by
  induction x with
  | nil => rfl
  | cons b x ih =>
      change percentDecode (((if keep b then [b] else percentByte b) ++ percentEncode keep x) ++ y) = _
      rw [List.append_assoc]
      cases hb : keep b with
      | true =>
          have hne : b ≠ percent := by
            rintro rfl
            rw [hkeep] at hb
            cases hb
          rw [if_pos rfl, List.singleton_append, percentDecode_cons_of_ne hne, ih]
          rfl
      | false =>
          rw [if_neg Bool.false_ne_true, percentDecode_percentByte_append, ih]
          rfl

theorem percentDecode_percentEncode {keep : UInt8 → Bool} (hkeep : keep percent = false)
    (x : List UInt8) : percentDecode (percentEncode keep x) = x := by
  have h := percentDecode_percentEncode_append hkeep x []
  rwa [List.append_nil, percentDecode, List.append_nil] at h

theorem upperHex_ne {n : ℕ} (h : n < 16) {b : UInt8} (hb : hexValue b = none) :
    upperHex n ≠ b := by
  rintro rfl
  rw [hexValue_upperHex h] at hb
  cases hb

/-- A byte that is encoded, and is not part of an encoding, does not occur. -/
theorem not_mem_percentEncode {keep : UInt8 → Bool} {b : UInt8} (hb : keep b = false)
    (hne : b ≠ percent) (hhex : hexValue b = none) (x : List UInt8) :
    b ∉ percentEncode keep x := by
  intro h
  obtain ⟨c, -, hc⟩ := List.mem_flatMap.mp h
  cases hk : keep c with
  | true =>
      rw [hk, if_pos rfl, List.mem_singleton] at hc
      rw [hc, hk] at hb
      cases hb
  | false =>
      have hlt : c.toNat < 256 := c.toNat_lt
      rw [hk, if_neg Bool.false_ne_true, percentByte] at hc
      simp only [List.mem_cons, List.not_mem_nil, or_false] at hc
      rcases hc with hc | hc | hc
      · exact hne hc
      · exact upperHex_ne (by omega) hhex hc.symm
      · exact upperHex_ne (Nat.mod_lt _ (by decide)) hhex hc.symm

/-- The text of UTF-8 bytes. -/
def decodeUtf8? (b : List UInt8) : Option (List Char) :=
  b.toByteArray.utf8Decode?.map Array.toList

@[simp] theorem decodeUtf8?_encode (x : List Char) : decodeUtf8? (encode x) = some x := by
  have h : (encode x).toByteArray = x.utf8Encode := rfl
  rw [decodeUtf8?, h, List.utf8Decode?_utf8Encode]
  rfl

end Text
