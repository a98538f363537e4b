import Wheel.Text.Percent

/-!
# The value of a query parameter

The ingress reads a credential from a query string as raw bytes. `percentDecodeBytes` takes a
`%` and the two bytes behind it for an escape when they parse as a number of base sixteen,
and the parser also takes a sign for a digit. It is the reference decoder on every byte string
without `%`, `+` and a digit in a row (`percentDecodeBytes_eq_iff`), and it undoes every
percent-encoding.
-/

namespace Wheel

namespace Api

open Text

abbrev plus : UInt8 := 43

abbrev minus : UInt8 := 45

/-- Two bytes that are a text. -/
def isUtf8Pair (h l : UInt8) : Bool :=
  (h < 128 ∧ l < 128) ∨ (194 ≤ h ∧ h ≤ 223 ∧ 128 ≤ l ∧ l ≤ 191)

/-- Add a digit to a number, which must stay a byte. -/
def pushDigit (n : ℕ) (digit : UInt8) : Option ℕ :=
  (hexValue digit).bind fun v => if 16 * n + v < 256 then some (16 * n + v) else none

/-- `u8::from_str_radix(src, 16)`: a number may have a sign before its digits. -/
def fromStrRadix : List UInt8 → Option UInt8
  | [] => none
  | b :: rest =>
      if (b = plus ∨ b = minus) ∧ rest = [] then none
      else ((if b = plus then rest else b :: rest).foldlM pushDigit 0).map UInt8.ofNat

/-- The byte that the two bytes behind a `%` stand for. -/
def escapedByte (h l : UInt8) : Option UInt8 :=
  if isUtf8Pair h l then fromStrRadix [h, l] else none

/-- Percent-decode the value of a query parameter to its raw bytes. -/
def percentDecodeBytes : List UInt8 → List UInt8
  | [] => []
  | [b] => [b]
  | [b, h] => [b, h]
  | b :: h :: l :: rest =>
      match if b = percent then escapedByte h l else none with
      | some c => c :: percentDecodeBytes rest
      | none => b :: percentDecodeBytes (h :: l :: rest)

/-! ## Escapes -/

theorem hexValue_lt {b : UInt8} {n : ℕ} (h : hexValue b = some n) : n < 16 := by
  unfold hexValue at h
  split at h
  · cases h
    omega
  · split at h
    · cases h
      omega
    · split at h
      · cases h
        omega
      · cases h

theorem lt_of_hexValue {b : UInt8} {n : ℕ} (h : hexValue b = some n) : b < 128 := by
  have hlimit : (128 : UInt8).toNat = 128 := rfl
  rw [UInt8.lt_iff_toNat_lt, hlimit]
  unfold hexValue at h
  by_contra hge
  rw [if_neg (by omega), if_neg (by omega), if_neg (by omega)] at h
  cases h

theorem hexValue_plus : hexValue plus = none := rfl

theorem hexValue_percent : hexValue percent = none := rfl

theorem isUtf8Pair_of_lt {h l : UInt8} (hh : h < 128) (hl : l < 128) : isUtf8Pair h l = true :=
  decide_eq_true (.inl ⟨hh, hl⟩)

theorem pushDigit_zero (l : UInt8) : pushDigit 0 l = hexValue l := by
  unfold pushDigit
  cases h : hexValue l with
  | none => rfl
  | some v =>
      have hlt := hexValue_lt h
      rw [Option.bind_some, if_pos (by omega), Nat.mul_zero, Nat.zero_add]

theorem fromStrRadix_pair (h l : UInt8) :
    fromStrRadix [h, l] =
      if h = plus then (hexValue l).map UInt8.ofNat else triple h l := by
  rw [fromStrRadix, if_neg fun hsign => List.cons_ne_nil _ _ hsign.2]
  split
  · rw [List.foldlM_cons, pushDigit_zero]
    cases hexValue l <;> rfl
  · rw [List.foldlM_cons, pushDigit_zero]
    unfold triple
    cases hh : hexValue h with
    | none => rfl
    | some x =>
        have hx := hexValue_lt hh
        rw [Option.bind_eq_bind, Option.bind_some, List.foldlM_cons, Option.bind_some]
        unfold pushDigit
        cases hl : hexValue l with
        | none => rfl
        | some y =>
            have hy := hexValue_lt hl
            rw [Option.bind_some, if_pos (by omega)]
            rfl

/-- What the code takes for an escape: two digits, or a sign and a digit. -/
theorem escapedByte_eq (h l : UInt8) :
    escapedByte h l =
      if h = plus then (hexValue l).map UInt8.ofNat else triple h l := by
  unfold escapedByte
  by_cases hpair : isUtf8Pair h l = true
  · rw [if_pos hpair, fromStrRadix_pair]
  · rw [if_neg hpair]
    have hnot (hh : h < 128) : hexValue l = none := by
      cases hl : hexValue l with
      | none => rfl
      | some y => exact absurd (isUtf8Pair_of_lt hh (lt_of_hexValue hl)) hpair
    split
    · rename_i hplus
      rw [hnot (hplus ▸ by decide)]
      rfl
    · unfold triple
      cases hh : hexValue h with
      | none => rfl
      | some x =>
          rw [Option.bind_some, hnot (lt_of_hexValue hh)]
          rfl

/-- A sign stands for the first digit of an escape somewhere. -/
def SignedEscape (x : List UInt8) : Prop :=
  ∃ l, (hexValue l).isSome = true ∧ [percent, plus, l] <:+: x

/-! ## The two decoders -/

theorem not_signedEscape_of_length {x : List UInt8} (h : x.length < 3) : ¬ SignedEscape x := by
  rintro ⟨l, -, hinfix⟩
  have hle := hinfix.length_le
  simp only [List.length_cons, List.length_nil] at hle
  omega

theorem signedEscape_cons {b : UInt8} {x : List UInt8} :
    SignedEscape (b :: x) ↔
      (∃ l, (hexValue l).isSome = true ∧ [percent, plus, l] <+: b :: x) ∨ SignedEscape x := by
  unfold SignedEscape
  simp only [List.infix_cons_iff, and_or_left, exists_or]

/-- No escape with a sign starts at another byte. -/
theorem signedEscape_cons_of_ne {b : UInt8} (h : b ≠ percent) {x : List UInt8} :
    SignedEscape (b :: x) ↔ SignedEscape x := by
  rw [signedEscape_cons, or_iff_right]
  rintro ⟨l, -, hpre⟩
  exact h (List.cons_prefix_cons.mp hpre).1.symm

theorem signedEscape_percent_iff {h l : UInt8} {rest : List UInt8} :
    SignedEscape (percent :: h :: l :: rest) ↔
      (h = plus ∧ (hexValue l).isSome = true) ∨ SignedEscape (h :: l :: rest) := by
  rw [signedEscape_cons]
  refine or_congr_left ⟨?_, ?_⟩
  · rintro ⟨d, hd, hpre⟩
    simp only [List.cons_prefix_cons, true_and] at hpre
    exact ⟨hpre.1.symm, hpre.2.1 ▸ hd⟩
  · rintro ⟨rfl, hl⟩
    exact ⟨l, hl, ⟨rest, rfl⟩⟩

/-- The code's output is shorter than the reference's with an escape with a sign, and the same
without one. -/
structure Follows (x : List UInt8) : Prop where
  signed : SignedEscape x → (percentDecodeBytes x).length < (percentDecode x).length
  plain : ¬ SignedEscape x → percentDecodeBytes x = percentDecode x

theorem Follows.length_le {x : List UInt8} (h : Follows x) :
    (percentDecodeBytes x).length ≤ (percentDecode x).length := by
  by_cases hx : SignedEscape x
  · exact (h.signed hx).le
  · rw [h.plain hx]

/-- Both decoders put out the same byte and go on with the same rest. -/
theorem Follows.cons {x y : List UInt8} {b : UInt8} (h : Follows x)
    (hcode : percentDecodeBytes y = b :: percentDecodeBytes x)
    (href : percentDecode y = b :: percentDecode x) (hsigned : SignedEscape y ↔ SignedEscape x) :
    Follows y where
  signed hy := by
    rw [hcode, href, List.length_cons, List.length_cons]
    exact Nat.succ_lt_succ (h.signed (hsigned.mp hy))
  plain hy := by rw [hcode, href, h.plain fun hx => hy (hsigned.mpr hx)]

theorem percentDecodeBytes_cons_of_ne {b : UInt8} (h : b ≠ percent) (x : List UInt8) :
    percentDecodeBytes (b :: x) = b :: percentDecodeBytes x := by
  cases x with
  | nil => rfl
  | cons c x =>
      cases x with
      | nil => rfl
      | cons d x => rw [percentDecodeBytes, if_neg h]

theorem ne_percent_of_hexValue {b : UInt8} {n : ℕ} (h : hexValue b = some n) : b ≠ percent := by
  rintro rfl
  rw [hexValue_percent] at h
  cases h

theorem follows_cons_of_ne {b : UInt8} (hb : b ≠ percent) {x : List UInt8} (h : Follows x) :
    Follows (b :: x) :=
  h.cons (percentDecodeBytes_cons_of_ne hb x) (percentDecode_cons_of_ne hb x)
    (signedEscape_cons_of_ne hb)

/-- Behind a `%` stands an escape, an escape with a sign, or neither. -/
theorem follows_percent {h l : UInt8} {rest : List UInt8} (htail : Follows (h :: l :: rest))
    (hrest : Follows rest) : Follows (percent :: h :: l :: rest) := by
  have hcode : percentDecodeBytes (percent :: h :: l :: rest) =
      match escapedByte h l with
      | some c => c :: percentDecodeBytes rest
      | none => percent :: percentDecodeBytes (h :: l :: rest) := by
    rw [percentDecodeBytes, if_pos rfl]
  have href : percentDecode (percent :: h :: l :: rest) =
      match triple h l with
      | some c => c :: percentDecode rest
      | none => percent :: percentDecode (h :: l :: rest) := by
    rw [percentDecode, if_pos rfl] <;> cases triple h l <;> rfl
  rw [escapedByte_eq] at hcode
  by_cases hplus : h = plus
  · subst hplus
    rw [if_pos rfl] at hcode
    rw [triple, hexValue_plus] at href
    cases hl : hexValue l with
    | none =>
        rw [hl] at hcode
        refine htail.cons hcode href ?_
        rw [signedEscape_percent_iff, hl]
        exact or_iff_right fun hsign => Bool.false_ne_true hsign.2
    | some v =>
        rw [hl] at hcode
        have hsigned : SignedEscape (percent :: plus :: l :: rest) :=
          signedEscape_percent_iff.mpr (.inl ⟨rfl, by rw [hl]; rfl⟩)
        refine ⟨fun _ => ?_, fun hnot => absurd hsigned hnot⟩
        have hle := hrest.length_le
        have hplain : percentDecode (plus :: l :: rest) = plus :: l :: percentDecode rest := by
          rw [percentDecode_cons_of_ne (by decide),
            percentDecode_cons_of_ne (ne_percent_of_hexValue hl)]
        rw [hcode, href]
        dsimp only [Option.bind_none, Option.map_some]
        rw [hplain]
        simp only [List.length_cons]
        omega
  · rw [if_neg hplus] at hcode
    have hsigned : SignedEscape (percent :: h :: l :: rest) ↔ SignedEscape (h :: l :: rest) := by
      rw [signedEscape_percent_iff]
      exact or_iff_right fun hsign => hplus hsign.1
    cases ht : triple h l with
    | none =>
        rw [ht] at hcode href
        exact htail.cons hcode href hsigned
    | some c =>
        rw [ht] at hcode href
        refine hrest.cons hcode href ?_
        obtain ⟨x, hx, htriple⟩ := Option.bind_eq_some_iff.mp ht
        obtain ⟨y, hy, -⟩ := Option.map_eq_some_iff.mp htriple
        rw [hsigned, signedEscape_cons_of_ne (ne_percent_of_hexValue hx),
          signedEscape_cons_of_ne (ne_percent_of_hexValue hy)]

theorem follows (x : List UInt8) : Follows x := by
  induction hn : x.length using Nat.strong_induction_on generalizing x with
  | _ n ih =>
    have hshort : x.length < 3 → percentDecodeBytes x = percentDecode x → Follows x :=
      fun hlen heq => ⟨fun hx => absurd hx (not_signedEscape_of_length hlen), fun _ => heq⟩
    match x with
    | [] => exact hshort (by decide) rfl
    | [b] => exact hshort (by simp) rfl
    | [b, h] => exact hshort (by simp) rfl
    | b :: h :: l :: rest =>
        have htail : Follows (h :: l :: rest) := ih _ (by simp [← hn]) _ rfl
        by_cases hb : b = percent
        · subst hb
          exact follows_percent htail (ih _ (by simp [← hn]; omega) _ rfl)
        · exact follows_cons_of_ne hb htail

/-- The code decodes as the reference does exactly when no `%` is followed by `+` and a
digit. -/
theorem percentDecodeBytes_eq_iff (x : List UInt8) :
    percentDecodeBytes x = percentDecode x ↔ ¬ SignedEscape x := by
  refine ⟨fun heq hx => ?_, (follows x).plain⟩
  have hlt := (follows x).signed hx
  rw [heq] at hlt
  exact lt_irrefl _ hlt

/-- `%+f` is read as the byte fifteen. -/
theorem percentDecodeBytes_signed :
    percentDecodeBytes [percent, plus, 102] = [15] ∧
      percentDecode [percent, plus, 102] = [percent, plus, 102] := by
  decide

/-- Behind a `%` of an encoding stands a digit. -/
theorem not_signedEscape_percentEncode {keep : UInt8 → Bool} (hkeep : keep percent = false)
    (x : List UInt8) : ¬ SignedEscape (percentEncode keep x) := by
  induction x with
  | nil => exact not_signedEscape_of_length (Nat.succ_pos 2)
  | cons b x ih =>
      change ¬ SignedEscape ((if keep b then [b] else percentByte b) ++ percentEncode keep x)
      split
      · rename_i hb
        have hne : b ≠ percent := by
          rintro rfl
          rw [hkeep] at hb
          cases hb
        rwa [List.singleton_append, signedEscape_cons_of_ne hne]
      · have hlt : b.toNat < 256 := b.toNat_lt
        have hhigh := hexValue_upperHex (n := b.toNat / 16) (by omega)
        have hlow := hexValue_upperHex (n := b.toNat % 16) (Nat.mod_lt _ (by decide))
        change ¬ SignedEscape (percent :: _ :: _ :: percentEncode keep x)
        rw [signedEscape_percent_iff, signedEscape_cons_of_ne (ne_percent_of_hexValue hhigh),
          signedEscape_cons_of_ne (ne_percent_of_hexValue hlow), or_iff_right]
        · exact ih
        · rintro ⟨hplus, -⟩
          rw [hplus, hexValue_plus] at hhigh
          cases hhigh

/-- Every percent-encoding is undone. -/
theorem percentDecodeBytes_percentEncode {keep : UInt8 → Bool} (hkeep : keep percent = false)
    (x : List UInt8) : percentDecodeBytes (percentEncode keep x) = x := by
  rw [(percentDecodeBytes_eq_iff _).mpr (not_signedEscape_percentEncode hkeep x),
    percentDecode_percentEncode hkeep]

end Api

end Wheel
