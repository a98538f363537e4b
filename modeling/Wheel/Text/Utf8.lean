import Mathlib.Data.List.Basic
import Wheel.Text.Search

/-!
# Bytes of a text

`encode x` is the UTF-8 encoding of a text. An ASCII tag is matched on bytes by
`eqIgnoreAsciiCase`; `eqIgnoreAsciiCase_encode` says that this is the same as
matching the characters, because no byte of a multi-byte character is ASCII.
`firstChar` is the character that a byte suffix starts with, when the suffix
begins on a character boundary.
-/

namespace Text

/-- The UTF-8 bytes of a text. -/
def encode (x : List Char) : List UInt8 := x.flatMap String.utf8EncodeChar

@[simp] theorem encode_nil : encode [] = [] := rfl

theorem encode_cons (c : Char) (x : List Char) :
    encode (c :: x) = String.utf8EncodeChar c ++ encode x := by
  simp [encode]

/-- The character a byte suffix starts with, if it starts on a boundary. -/
def firstChar (b : List UInt8) : Option Char := b.toByteArray.utf8DecodeChar? 0

theorem firstChar_encode_cons (c : Char) (x : List Char) :
    firstChar (encode (c :: x)) = some c := by
  rw [firstChar, encode_cons, List.toByteArray_append]
  exact ByteArray.utf8DecodeChar?_utf8EncodeChar_append

/-- The lower case of an ASCII letter; every other byte is unchanged. -/
def toAsciiLower (b : UInt8) : UInt8 := if 65 ≤ b ∧ b ≤ 90 then b + 32 else b

/-- Equality of byte strings, ASCII case ignored. -/
def eqIgnoreAsciiCase (a b : List UInt8) : Bool :=
  a.map toAsciiLower == b.map toAsciiLower

/-- The byte of an ASCII character. -/
def asciiByte (c : Char) : UInt8 := UInt8.ofNat c.toNat

/-- A character is ASCII when its code fits in seven bits. -/
def IsAscii (c : Char) : Prop := c.toNat < 128

instance (c : Char) : Decidable (IsAscii c) := inferInstanceAs (Decidable (c.toNat < 128))

theorem utf8EncodeChar_of_isAscii {c : Char} (h : IsAscii c) :
    String.utf8EncodeChar c = [asciiByte c] := by
  have hc : c.val.toNat ≤ 127 := Nat.lt_succ_iff.mp h
  simp only [String.utf8EncodeChar, if_pos hc]
  rfl

theorem utf8EncodeChar_of_not_isAscii {c : Char} (h : ¬ IsAscii c) :
    ∃ b r, String.utf8EncodeChar c = b :: r ∧ 128 ≤ b.toNat := by
  have hc : ¬ c.val.toNat ≤ 127 := fun hc => h (Nat.lt_succ_iff.mpr hc)
  simp only [String.utf8EncodeChar, if_neg hc]
  split
  · refine ⟨_, _, rfl, ?_⟩
    simp only [UInt8.toNat_ofNat']
    omega
  · split
    · refine ⟨_, _, rfl, ?_⟩
      simp only [UInt8.toNat_ofNat']
      omega
    · refine ⟨_, _, rfl, ?_⟩
      simp only [UInt8.toNat_ofNat']
      omega

theorem toNat_toLower (c : Char) :
    c.toLower.toNat = if 65 ≤ c.toNat ∧ c.toNat ≤ 90 then c.toNat + 32 else c.toNat := by
  have hA : ('A'.val ≤ c.val ∧ c.val ≤ 'Z'.val) ↔ 65 ≤ c.toNat ∧ c.toNat ≤ 90 := by
    rw [UInt32.le_iff_toNat_le, UInt32.le_iff_toNat_le]
    exact Iff.rfl
  unfold Char.toLower
  by_cases h : 65 ≤ c.toNat ∧ c.toNat ≤ 90
  · rw [dif_pos (hA.mpr h), if_pos h]
    change (c.val + 32).toNat = _
    rw [UInt32.toNat_add]
    change (c.toNat + 32) % 2 ^ 32 = _
    omega
  · rw [dif_neg (fun hc => h (hA.mp hc)), if_neg h]

theorem isAscii_toLower (c : Char) : IsAscii c.toLower ↔ IsAscii c := by
  unfold IsAscii
  rw [toNat_toLower]
  split <;> omega

theorem toNat_asciiByte {c : Char} (h : IsAscii c) : (asciiByte c).toNat = c.toNat := by
  unfold IsAscii at h
  rw [asciiByte, UInt8.toNat_ofNat']
  omega

theorem asciiByte_inj {c d : Char} (hc : IsAscii c) (hd : IsAscii d) :
    asciiByte c = asciiByte d ↔ c = d := by
  constructor
  · intro h
    have hnat : c.toNat = d.toNat := by
      rw [← toNat_asciiByte hc, ← toNat_asciiByte hd, h]
    exact Char.toNat_inj.mp hnat
  · rintro rfl
    rfl

theorem toAsciiLower_asciiByte {c : Char} (h : IsAscii c) :
    toAsciiLower (asciiByte c) = asciiByte c.toLower := by
  have hb := toNat_asciiByte h
  have hl := toNat_asciiByte ((isAscii_toLower c).mpr h)
  rw [toNat_toLower] at hl
  apply UInt8.toNat_inj.mp
  rw [hl, toAsciiLower]
  have hA : (65 ≤ asciiByte c ∧ asciiByte c ≤ 90) ↔ 65 ≤ c.toNat ∧ c.toNat ≤ 90 := by
    rw [UInt8.le_iff_toNat_le, UInt8.le_iff_toNat_le, hb]
    exact Iff.rfl
  simp only [hA]
  split
  · rw [UInt8.toNat_add, hb]
    change (c.toNat + 32) % 2 ^ 8 = _
    omega
  · exact hb

theorem toNat_toAsciiLower_of_ge {b : UInt8} (h : 128 ≤ b.toNat) :
    128 ≤ (toAsciiLower b).toNat := by
  have hb : ¬ (65 ≤ b ∧ b ≤ 90) := by
    rintro ⟨-, hb⟩
    rw [UInt8.le_iff_toNat_le] at hb
    change b.toNat ≤ 90 at hb
    omega
  rw [toAsciiLower, if_neg hb]
  exact h

/-- Matching an ASCII tag on the bytes of a text is matching it on the
characters: a multi-byte character has no byte that could match. -/
theorem eqIgnoreAsciiCase_encode (tag : List Char) (ht : ∀ c ∈ tag, IsAscii c)
    (x : List Char) :
    eqIgnoreAsciiCase ((encode x).take tag.length) (tag.map asciiByte) =
      startsWithCI tag x := by
  induction tag generalizing x with
  | nil => simp [eqIgnoreAsciiCase, startsWithCI]
  | cons t tag ih =>
      have ht₀ : IsAscii t := ht t (by simp)
      cases x with
      | nil => simp [eqIgnoreAsciiCase, startsWithCI]
      | cons c x =>
          have ih := ih (fun d hd => ht d (by simp [hd])) x
          simp only [eqIgnoreAsciiCase, startsWithCI] at ih
          by_cases hc : IsAscii c
          · have hhead : toAsciiLower (asciiByte c) = toAsciiLower (asciiByte t) ↔
                c.toLower = t.toLower := by
              rw [toAsciiLower_asciiByte hc, toAsciiLower_asciiByte ht₀]
              exact asciiByte_inj ((isAscii_toLower c).mpr hc) ((isAscii_toLower t).mpr ht₀)
            rw [Bool.eq_iff_iff] at ih ⊢
            simp only [beq_iff_eq] at ih
            rw [encode_cons, utf8EncodeChar_of_isAscii hc]
            simp only [eqIgnoreAsciiCase, startsWithCI, List.singleton_append,
              List.length_cons, List.take_succ_cons, List.map_cons, beq_iff_eq,
              List.cons.injEq, hhead, ih]
          · obtain ⟨b, r, hbr, hb⟩ := utf8EncodeChar_of_not_isAscii hc
            have hbyte : toAsciiLower b ≠ toAsciiLower (asciiByte t) := by
              intro h
              have hge := toNat_toAsciiLower_of_ge hb
              rw [h, toAsciiLower_asciiByte ht₀,
                toNat_asciiByte ((isAscii_toLower t).mpr ht₀)] at hge
              have hlt : t.toLower.toNat < 128 := (isAscii_toLower t).mpr ht₀
              omega
            have hchar : c.toLower ≠ t.toLower := by
              intro h
              exact hc ((isAscii_toLower c).mp (h ▸ (isAscii_toLower t).mpr ht₀))
            rw [encode_cons, hbr]
            simp only [eqIgnoreAsciiCase, startsWithCI, List.cons_append, List.length_cons,
              List.take_succ_cons, List.map_cons]
            rw [beq_eq_false_iff_ne.mpr (fun h => hbyte (List.cons.inj h).1),
              beq_eq_false_iff_ne.mpr (fun h => hchar (List.cons.inj h).1)]

/-- The first byte of a text is an ASCII byte exactly when the first character
is that ASCII character. -/
theorem encode_eq_asciiByte_cons_iff {d : Char} (hd : IsAscii d) (c : Char) (x : List Char) :
    (encode (c :: x)).head? = some (asciiByte d) ↔ c = d := by
  rw [encode_cons]
  by_cases hc : IsAscii c
  · simp [utf8EncodeChar_of_isAscii hc, asciiByte_inj hc hd]
  · obtain ⟨b, r, hbr, hb⟩ := utf8EncodeChar_of_not_isAscii hc
    have hbd : b ≠ asciiByte d := by
      rintro rfl
      rw [toNat_asciiByte hd] at hb
      unfold IsAscii at hd
      omega
    have hcd : c ≠ d := by
      rintro rfl
      exact hc hd
    simp [hbr, hbd, hcd]

end Text
