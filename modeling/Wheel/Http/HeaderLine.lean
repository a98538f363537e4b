import Mathlib.Tactic
import Wheel.Text.Search

/-!
# Lines of a header

The value of a header is any bytes; it is read as text when every byte is visible ASCII.
A line that lists several things separates them by commas, and its text has a comma where
its bytes have one.
-/

namespace Wheel.Http

open Text

/-- The bytes of one line of a header. -/
abbrev HeaderLine := List UInt8

def isVisible (b : UInt8) : Bool := decide (32 ≤ b ∧ b < 127) || b == 9

/-- The text of a header line, if every byte of it is visible ASCII. -/
def toStr (line : HeaderLine) : Option (List Char) :=
  if line.all isVisible then some (line.map fun b => Char.ofNat b.toNat) else none

def comma : UInt8 := 44

/-- The bytes of an ASCII text. -/
def lineOf (text : String) : HeaderLine := text.toList.map fun c => UInt8.ofNat c.toNat

section Lines

variable {line : HeaderLine} {text : List Char}

/-- The character of a visible byte. -/
def charOf (b : UInt8) : Char := Char.ofNat b.toNat

theorem toStr_eq_some_iff :
    toStr line = some text ↔ (∀ b ∈ line, isVisible b = true) ∧ text = line.map charOf := by
  unfold toStr
  rw [← List.all_eq_true]
  split
  · rename_i h
    rw [Option.some.injEq]
    exact ⟨fun heq => ⟨h, heq.symm⟩, fun heq => heq.2.symm⟩
  · rename_i h
    constructor
    · intro heq
      cases heq
    · exact fun heq => absurd heq.1 h

theorem charOf_eq_comma_iff (b : UInt8) : charOf b = ',' ↔ b = comma := by
  have hall : ∀ n : Fin 256, Char.ofNat n.val = ',' ↔ n = comma.toFin := by decide +kernel
  rw [← UInt8.toFin_inj, ← hall]
  rfl

/-- Splitting at the commas of a text is splitting at the commas of its bytes. -/
theorem splitOn_map_charOf (line : HeaderLine) :
    (line.map charOf).splitOn ',' = (line.splitOn comma).map fun e => e.map charOf := by
  induction line with
  | nil => rfl
  | cons b line ih =>
      rw [List.map_cons, List.splitOn_cons_eq_if_modifyHead, List.splitOn_cons_eq_if_modifyHead, ih]
      by_cases hb : b = comma
      · have hc : charOf b = ',' := (charOf_eq_comma_iff b).mpr hb
        rw [if_pos (by rw [hc]; rfl), if_pos (by rw [hb]; rfl)]
        rfl
      · have hc : charOf b ≠ ',' := fun h => hb ((charOf_eq_comma_iff b).mp h)
        rw [if_neg (by simpa using hc), if_neg (by simpa using hb)]
        cases line.splitOn comma <;> rfl

/-- The parts of a line that is text are text. -/
theorem toStr_of_mem_splitOn {e : HeaderLine} (h : ∀ b ∈ line, isVisible b = true)
    (he : e ∈ line.splitOn comma) : toStr e = some (e.map charOf) :=
  toStr_eq_some_iff.mpr ⟨fun _ hb => h _ (mem_of_mem_splitOn he hb), rfl⟩

/-- The bytes of a text, if it may stand in a header. -/
def fromStr (text : List Char) : Option HeaderLine :=
  if text.all fun c => c.toNat < 128 && isVisible (UInt8.ofNat c.toNat) then
    some (text.map fun c => UInt8.ofNat c.toNat)
  else none

theorem charOf_ofNat {c : Char} (h : c.toNat < 128) : charOf (UInt8.ofNat c.toNat) = c := by
  unfold charOf
  rw [UInt8.toNat_ofNat', Nat.mod_eq_of_lt (by omega), Char.ofNat_toNat]

theorem toStr_of_fromStr (h : fromStr text = some line) : toStr line = some text := by
  unfold fromStr at h
  split at h
  · rename_i hall
    rw [List.all_eq_true] at hall
    cases h
    rw [toStr_eq_some_iff]
    constructor
    · intro b hb
      obtain ⟨c, hc, rfl⟩ := List.mem_map.mp hb
      exact (Bool.and_eq_true_iff.mp (hall c hc)).2
    · rw [List.map_map]
      refine (List.map_id text).symm.trans (List.map_congr_left fun c hc => ?_)
      have hlt := (Bool.and_eq_true_iff.mp (hall c hc)).1
      exact (charOf_ofNat (of_decide_eq_true hlt)).symm
  · cases h

/-! ### Parts of a line -/

/-- The white space that may stand around a part. -/
def isOws (b : UInt8) : Bool := b == 32 || b == 9

def trimOws (x : HeaderLine) : HeaderLine :=
  ((x.dropWhile isOws).reverse.dropWhile isOws).reverse

theorem isSpace_charOf {b : UInt8} (h : isVisible b = true) : isSpace (charOf b) = isOws b := by
  have hall : ∀ n : Fin 256, isVisible ⟨⟨n⟩⟩ = true →
      isSpace (Char.ofNat n.val) = isOws ⟨⟨n⟩⟩ := by decide +kernel
  exact hall b.toFin h

theorem dropWhile_map_charOf {x : HeaderLine} (h : ∀ b ∈ x, isVisible b = true) :
    (x.map charOf).dropWhile isSpace = (x.dropWhile isOws).map charOf := by
  induction x with
  | nil => rfl
  | cons b x ih =>
      obtain ⟨hb, hx⟩ := List.forall_mem_cons.mp h
      rw [List.map_cons, List.dropWhile_cons, List.dropWhile_cons, isSpace_charOf hb]
      split
      · exact ih hx
      · rfl

theorem trim_map_charOf {x : HeaderLine} (h : ∀ b ∈ x, isVisible b = true) :
    trim (x.map charOf) = (trimOws x).map charOf := by
  have hdrop : ∀ b ∈ (x.dropWhile isOws).reverse, isVisible b = true := by
    intro b hb
    exact h b ((List.dropWhile_sublist _).mem (List.mem_reverse.mp hb))
  unfold trim trimOws
  rw [dropWhile_map_charOf h, ← List.map_reverse, dropWhile_map_charOf hdrop, List.map_reverse]

end Lines

end Wheel.Http
