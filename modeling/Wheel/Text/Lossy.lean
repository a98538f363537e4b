import Wheel.Text.Utf8

/-!
# Decoding bytes that may be no text

`fromUtf8Lossy` reads bytes as UTF-8 and puts the replacement character for every maximal run
of bytes that begins a character without completing it. No character reaches over an ASCII
byte, so the bytes before and behind one are read apart (`fromUtf8Lossy_append_cons`).
-/

namespace Text

/-- A byte that continues a character. -/
def isContinuation (b : UInt8) : Bool := 128 ≤ b ∧ b ≤ 191

/-- A byte that can begin a character. -/
def isLead (b : UInt8) : Bool := b < 128 ∨ (194 ≤ b ∧ b ≤ 244)

/-- The second byte behind a first one: not every continuation is one, so that no character
has two encodings and none is a surrogate or too large. -/
def isSecond (lead b : UInt8) : Bool :=
  isContinuation b &&
    if lead = 224 then 160 ≤ b
    else if lead = 237 then b ≤ 159
    else if lead = 240 then 144 ≤ b
    else if lead = 244 then b ≤ 143
    else true

/-- What the bytes behind a first one must be. -/
def following (lead : UInt8) : List (UInt8 → Bool) :=
  if lead < 194 then []
  else if lead < 224 then [isContinuation]
  else if lead < 240 then [isSecond lead, isContinuation]
  else if lead ≤ 244 then [isSecond lead, isContinuation, isContinuation]
  else []

/-- How many bytes are as they must be. -/
def matched : List (UInt8 → Bool) → List UInt8 → ℕ
  | p :: ps, b :: x => if p b then matched ps x + 1 else 0
  | _, _ => 0

/-- The bits of a character in its first byte. -/
def leadBits (lead : UInt8) : ℕ :=
  if lead < 128 then lead.toNat
  else if lead < 224 then lead.toNat - 192
  else if lead < 240 then lead.toNat - 224
  else lead.toNat - 240

def assemble (lead : UInt8) (x : List UInt8) : Char :=
  Char.ofNat (x.foldl (fun n b => 64 * n + (b.toNat - 128)) (leadBits lead))

def replacement : Char := Char.ofNat 0xFFFD

/-- One character, and how many of the bytes behind the first one it takes. -/
def lossyChar (lead : UInt8) (x : List UInt8) : Char × ℕ :=
  let n := matched (following lead) x
  (if isLead lead ∧ n = (following lead).length then assemble lead (x.take n) else replacement, n)

/-- The scan. The number counts the bytes left of the character before. -/
def lossyFrom : ℕ → List UInt8 → List Char
  | _, [] => []
  | skip + 1, _ :: x => lossyFrom skip x
  | 0, b :: x => (lossyChar b x).1 :: lossyFrom (lossyChar b x).2 x

def fromUtf8Lossy (x : List UInt8) : List Char := lossyFrom 0 x

section AppendCons

variable {a : UInt8}

theorem isContinuation_of_lt (h : a < 128) : isContinuation a = false := by
  refine decide_eq_false fun hc => ?_
  exact UInt8.lt_irrefl _ (UInt8.lt_of_le_of_lt hc.1 h)

theorem not_following (h : a < 128) {lead : UInt8} {p : UInt8 → Bool}
    (hp : p ∈ following lead) : p a = false := by
  have hsecond : isSecond lead a = false := by
    rw [isSecond, isContinuation_of_lt h, Bool.false_and]
  have hcont := isContinuation_of_lt h
  unfold following at hp
  split at hp
  · cases hp
  · split at hp
    · rw [List.mem_singleton.mp hp]
      exact hcont
    · split at hp
      · simp only [List.mem_cons, List.not_mem_nil, or_false] at hp
        rcases hp with rfl | rfl
        · exact hsecond
        · exact hcont
      · split at hp
        · simp only [List.mem_cons, List.not_mem_nil, or_false] at hp
          rcases hp with rfl | rfl | rfl
          · exact hsecond
          · exact hcont
          · exact hcont
        · cases hp

theorem matched_le (ps : List (UInt8 → Bool)) (x : List UInt8) : matched ps x ≤ x.length := by
  induction ps generalizing x with
  | nil => simp [matched]
  | cons p ps ih =>
      cases x with
      | nil => simp [matched]
      | cons b x =>
          rw [matched]
          split
          · exact Nat.succ_le_succ (ih x)
          · exact Nat.zero_le _

/-- A byte that matches nothing ends the bytes that match. -/
theorem matched_append_cons {ps : List (UInt8 → Bool)} (h : ∀ p ∈ ps, p a = false)
    (x y : List UInt8) : matched ps (x ++ a :: y) = matched ps x := by
  induction ps generalizing x with
  | nil => simp [matched]
  | cons p ps ih =>
      obtain ⟨hp, hps⟩ := List.forall_mem_cons.mp h
      cases x with
      | nil =>
          rw [List.nil_append, matched, hp, if_neg Bool.false_ne_true]
          rfl
      | cons b x => rw [List.cons_append, matched, matched, ih hps]

theorem lossyChar_append_cons (h : a < 128) (lead : UInt8) (x y : List UInt8) :
    lossyChar lead (x ++ a :: y) = lossyChar lead x := by
  have hmatched : matched (following lead) (x ++ a :: y) = matched (following lead) x :=
    matched_append_cons (fun p hp => not_following h hp) x y
  have htake : (x ++ a :: y).take (matched (following lead) x) =
      x.take (matched (following lead) x) :=
    List.take_append_of_le_length (matched_le (following lead) x)
  simp only [lossyChar, hmatched, htake]

theorem lossyFrom_append_cons (h : a < 128) (x y : List UInt8) {skip : ℕ} (hs : skip ≤ x.length) :
    lossyFrom skip (x ++ a :: y) = lossyFrom skip x ++ fromUtf8Lossy (a :: y) := by
  induction x generalizing skip with
  | nil =>
      obtain rfl := Nat.le_zero.mp hs
      rfl
  | cons b x ih =>
      cases skip with
      | zero =>
          have hle : (lossyChar b x).2 ≤ x.length := matched_le _ _
          rw [List.cons_append, lossyFrom, lossyFrom, lossyChar_append_cons h, ih hle,
            List.cons_append]
      | succ skip =>
          rw [List.cons_append, lossyFrom, lossyFrom, ih (Nat.le_of_succ_le_succ hs)]

/-- An ASCII byte is read by itself. -/
theorem fromUtf8Lossy_cons (h : a < 128) (x : List UInt8) :
    fromUtf8Lossy (a :: x) = Char.ofNat a.toNat :: fromUtf8Lossy x := by
  have hlt : a.toNat < 128 := UInt8.lt_iff_toNat_lt.mp h
  have hfollowing : following a = [] := by
    exact if_pos (UInt8.lt_trans h (by decide))
  have hread : lossyChar a x = (Char.ofNat a.toNat, 0) := by
    unfold lossyChar
    rw [hfollowing]
    have hlead : isLead a = true := decide_eq_true (.inl h)
    simp [matched, hlead, assemble, leadBits, h]
  unfold fromUtf8Lossy
  rw [lossyFrom, hread]

/-- The bytes before and behind an ASCII byte are read apart. -/
theorem fromUtf8Lossy_append_cons (h : a < 128) (x y : List UInt8) :
    fromUtf8Lossy (x ++ a :: y) = fromUtf8Lossy x ++ Char.ofNat a.toNat :: fromUtf8Lossy y := by
  rw [fromUtf8Lossy, lossyFrom_append_cons h x y (Nat.zero_le _), fromUtf8Lossy_cons h]
  rfl

end AppendCons

/-- A byte that begins nothing, a character cut short, and a whole one. -/
example : fromUtf8Lossy [0x41, 0xC3, 0x28, 0xE2, 0x82, 0xE2, 0x82, 0xAC] =
    ['A', replacement, '(', replacement, Char.ofNat 0x20AC] := by decide

end Text
