import Mathlib.Data.List.Basic
import Mathlib.Order.Lattice

/-!
# Node names, identifiers and ids

A node's name is its address, so it is validated hard: `validateName` is the
contract `^[a-z0-9][a-z0-9-_]{0,62}$` with the reserved names taken out, and
`validateTableName` is the stricter contract of a table node, whose name becomes
the sqlite table `t_<name>`. `NodeName` and `Ident` carry the proof that they
were validated, so no other module checks a name again.
-/

namespace Wheel

/-- A 128-bit id. -/
abbrev Uuid := BitVec 128

namespace Uuid

/-- The `i`-th hexadecimal digit, from the left. -/
def nibble (id : Uuid) (i : ℕ) : ℕ := (id.toNat >>> (4 * (31 - i))) % 16

/-- A lower-case hexadecimal digit. -/
def hexDigit (n : ℕ) : Char := "0123456789abcdef".toList.getD n '0'

/-- The digits `i, i + 1, …, i + n - 1`. -/
def hexDigits (id : Uuid) (i n : ℕ) : List Char :=
  (List.range n).map fun k => hexDigit (id.nibble (i + k))

/-- The hyphenated lower-case form an id is displayed in. -/
def display (id : Uuid) : String :=
  String.ofList (id.hexDigits 0 8 ++ '-' :: id.hexDigits 8 4 ++ '-' :: id.hexDigits 12 4 ++
    '-' :: id.hexDigits 16 4 ++ '-' :: id.hexDigits 20 12)

theorem hexDigit_inj {m n : ℕ} (hm : m < 16) (hn : n < 16) (h : hexDigit m = hexDigit n) :
    m = n := by
  have hall : ∀ i j : Fin 16, hexDigit i = hexDigit j → i = j := by decide
  exact Fin.mk.inj_iff.mp (hall ⟨m, hm⟩ ⟨n, hn⟩ h)

theorem length_hexDigits (id : Uuid) (i n : ℕ) : (id.hexDigits i n).length = n := by
  simp [hexDigits]

theorem nibble_eq_of_hexDigits_eq {id id' : Uuid} {i n : ℕ}
    (h : id.hexDigits i n = id'.hexDigits i n) {k : ℕ} (hk : i ≤ k) (hk' : k < i + n) :
    id.nibble k = id'.nibble k := by
  have hlt : k - i < n := by omega
  have hget := congrArg (fun l => l[k - i]?) h
  simp only [hexDigits, List.getElem?_map, List.getElem?_range hlt, Option.map_some,
    Option.some.injEq, Nat.add_sub_cancel' hk] at hget
  exact hexDigit_inj (Nat.mod_lt _ (by decide)) (Nat.mod_lt _ (by decide)) hget

/-- Ids that agree on their 32 digits are equal. -/
theorem eq_of_nibble_eq {id id' : Uuid} (h : ∀ k < 32, id.nibble k = id'.nibble k) :
    id = id' := by
  apply BitVec.eq_of_toNat_eq
  apply Nat.eq_of_testBit_eq
  intro j
  by_cases hj : j < 128
  · have hk := congrArg (fun m => m.testBit (j % 4)) (h (31 - j / 4) (by omega))
    have h16 : (16 : ℕ) = 2 ^ 4 := rfl
    have hdiv : 4 * (31 - (31 - j / 4)) + j % 4 = j := by omega
    simpa only [nibble, h16, Nat.testBit_mod_two_pow, Nat.testBit_shiftRight, hdiv,
      Nat.mod_lt j (show 0 < 4 by decide), decide_true, Bool.true_and] using hk
  · have hbound : ∀ x : Uuid, x.toNat.testBit j = false := by
      intro x
      apply Nat.testBit_lt_two_pow
      exact x.isLt.trans_le (Nat.pow_le_pow_right (by decide) (by omega))
    rw [hbound id, hbound id']

theorem display_injective : Function.Injective display := by
  intro id id' h
  have hl : (display id).toList = (display id').toList := by rw [h]
  simp only [display, String.toList_ofList, List.append_assoc, List.cons_append] at hl
  obtain ⟨h₀, hl⟩ := List.append_inj hl (by simp [length_hexDigits])
  obtain ⟨h₁, hl⟩ := List.append_inj (List.cons.inj hl).2 (by simp [length_hexDigits])
  obtain ⟨h₂, hl⟩ := List.append_inj (List.cons.inj hl).2 (by simp [length_hexDigits])
  obtain ⟨h₃, hl⟩ := List.append_inj (List.cons.inj hl).2 (by simp [length_hexDigits])
  have h₄ := (List.cons.inj hl).2
  apply eq_of_nibble_eq
  intro k hk
  rcases lt_or_ge k 8 with hk | hk
  · exact nibble_eq_of_hexDigits_eq h₀ (by omega) (by omega)
  rcases lt_or_ge k 12 with hk | hk
  · exact nibble_eq_of_hexDigits_eq h₁ (by omega) (by omega)
  rcases lt_or_ge k 16 with hk | hk
  · exact nibble_eq_of_hexDigits_eq h₂ (by omega) (by omega)
  rcases lt_or_ge k 20 with hk | hk
  · exact nibble_eq_of_hexDigits_eq h₃ (by omega) (by omega)
  · exact nibble_eq_of_hexDigits_eq h₄ (by omega) (by omega)

/-- A displayed id has no characters but hexadecimal digits and hyphens. -/
theorem mem_display {id : Uuid} {c : Char} (hc : c ∈ id.display.toList) :
    c = '-' ∨ c ∈ "0123456789abcdef".toList := by
  have hdigit : ∀ n, hexDigit n ∈ "0123456789abcdef".toList := by
    intro n
    by_cases hn : n < 16
    · have hall : ∀ i : Fin 16, hexDigit i ∈ "0123456789abcdef".toList := by decide
      exact hall ⟨n, hn⟩
    · rw [hexDigit, List.getD_eq_getElem?_getD, List.getElem?_eq_none (by simpa using hn)]
      decide
  have hdigits : ∀ i n, c ∈ id.hexDigits i n → c ∈ "0123456789abcdef".toList := by
    intro i n h
    obtain ⟨k, -, rfl⟩ := List.mem_map.mp h
    exact hdigit _
  simp only [display, String.toList_ofList, List.mem_append, List.mem_cons] at hc
  rcases hc with (((h | h | h) | h | h) | h | h) | h | h <;>
    first | exact .inl h | exact .inr (hdigits _ _ h)

end Uuid

/-- The names that already mean something in message delivery or in the CLI. -/
def reservedNames : List String := ["user", "wheel", "system", "engine"]

def nameMaxLen : ℕ := 63

inductive NameError where
  | empty
  | tooLong (len : ℕ)
  | badFirstChar (c : Char)
  | badChar (c : Char)
  | reserved (raw : String)
  | tableBadChar (c : Char)
  | tableBadFirstChar (c : Char)
  deriving DecidableEq, Repr

/-- What an operator is told about a bad name. -/
def NameError.text : NameError → String
  | .empty => "name must not be empty"
  | .tooLong n =>
      "name must be at most " ++ toString nameMaxLen ++ " characters, got " ++ toString n
  | .badFirstChar c =>
      "name must start with a lowercase letter or digit, got '" ++ c.toString ++ "'"
  | .badChar c =>
      "name may only contain lowercase letters, digits, '-' and '_', got '" ++ c.toString ++ "'"
  | .reserved raw => raw.quote ++ " is a reserved name"
  | .tableBadChar c =>
      "a table node's name becomes the sqlite table `t_<name>`, so it cannot contain '" ++
        c.toString ++ "' (use '_' instead)"
  | .tableBadFirstChar c =>
      "a table node's name becomes the sqlite table `t_<name>`, so it must start with a " ++
        "lowercase letter, got '" ++ c.toString ++ "'"

/-- A character a name may start with. -/
def isNameFirst (c : Char) : Bool := c.isLower || c.isDigit

/-- A character a name may continue with. -/
def isNameChar (c : Char) : Bool := isNameFirst c || c == '-' || c == '_'

/-- Validate a candidate node name. -/
def validateName (raw : String) : Except NameError Unit :=
  match raw.toList with
  | [] => .error .empty
  | first :: chars =>
      if nameMaxLen < raw.toList.length then .error (.tooLong raw.toList.length)
      else if !isNameFirst first then .error (.badFirstChar first)
      else
        match chars.find? fun c => !isNameChar c with
        | some c => .error (.badChar c)
        | none => if raw ∈ reservedNames then .error (.reserved raw) else .ok ()

/-- Validate the name of a table node, which becomes a sqlite identifier. -/
def validateTableName (raw : String) : Except NameError Unit := do
  validateName raw
  match raw.toList.head? with
  | some c => if c.isLower then .ok () else .error (.tableBadFirstChar c)
  | none => .error .empty
  match raw.toList.find? fun c => c == '-' with
  | some c => .error (.tableBadChar c)
  | none => .ok ()

/-- A validated node name. -/
structure NodeName where
  raw : String
  valid : validateName raw = .ok ()
  deriving DecidableEq

namespace NodeName

theorem ext_raw {n m : NodeName} (h : n.raw = m.raw) : n = m := by
  cases n
  cases m
  simp_all

/-- The sqlite table backing a table node, when the name can be one. -/
def sqliteTable (n : NodeName) : Option String :=
  if '-' ∈ n.raw.toList then none else some ("t_" ++ n.raw)

end NodeName

/-- Validate an identifier: the charset of a name without `-`, no reserved names. -/
def validateIdent (raw : String) : Except NameError Unit :=
  match raw.toList with
  | [] => .error .empty
  | first :: chars =>
      if nameMaxLen < raw.toList.length then .error (.tooLong raw.toList.length)
      else if !isNameFirst first then .error (.badFirstChar first)
      else
        match chars.find? fun c => !(isNameFirst c || c == '_') with
        | some c => .error (.badChar c)
        | none => .ok ()

/-- A validated identifier, used as the name of a table column. -/
structure Ident where
  raw : String
  valid : validateIdent raw = .ok ()
  deriving DecidableEq

theorem validateName_eq_ok_iff (raw : String) :
    validateName raw = .ok () ↔
      ∃ c x, raw.toList = c :: x ∧ raw.toList.length ≤ nameMaxLen ∧
        isNameFirst c = true ∧ (∀ d ∈ x, isNameChar d = true) ∧ raw ∉ reservedNames := by
  unfold validateName
  cases h : raw.toList with
  | nil => simp
  | cons c x =>
      by_cases hlen : nameMaxLen < (c :: x).length
      · simp only [if_pos hlen]
        constructor
        · intro h
          cases h
        · rintro ⟨c', x', hcx, hle, -⟩
          omega
      · simp only [if_neg hlen]
        cases hc : isNameFirst c with
        | false =>
            simp only [Bool.not_false, if_true]
            constructor
            · intro h
              cases h
            · rintro ⟨c', x', hcx, -, hfirst, -⟩
              obtain ⟨rfl, rfl⟩ := List.cons.inj hcx
              simp [hc] at hfirst
        | true =>
            cases hx : x.find? fun d => !isNameChar d with
            | some d =>
                obtain ⟨hd, -⟩ := List.find?_eq_some_iff_append.mp hx
                have hmem := List.mem_of_find?_eq_some hx
                simp only [if_false, Bool.not_true, Bool.false_eq_true]
                constructor
                · intro h
                  cases h
                · rintro ⟨c', x', hcx, -, -, hall, -⟩
                  obtain ⟨rfl, rfl⟩ := List.cons.inj hcx
                  simp [hall d hmem] at hd
            | none =>
                have hall : ∀ d ∈ x, isNameChar d = true := by
                  simpa using List.find?_eq_none.mp hx
                simp only [if_false, Bool.not_true, Bool.false_eq_true]
                split
                · rename_i hres
                  simp [hres]
                · rename_i hres
                  simp only [true_iff]
                  exact ⟨c, x, rfl, Nat.le_of_not_lt hlen, hc, hall, hres⟩

/-- Every character of a node name is a name character. -/
theorem NodeName.isNameChar_of_mem (n : NodeName) {c : Char} (hc : c ∈ n.raw.toList) :
    isNameChar c = true := by
  obtain ⟨d, x, hdx, -, hd, hx, -⟩ := (validateName_eq_ok_iff n.raw).mp n.valid
  rw [hdx] at hc
  rcases List.mem_cons.mp hc with rfl | hc
  · simp [isNameChar, hd]
  · exact hx c hc

theorem NodeName.not_reserved (n : NodeName) : n.raw ∉ reservedNames := by
  obtain ⟨-, -, -, -, -, -, h⟩ := (validateName_eq_ok_iff n.raw).mp n.valid
  exact h

end Wheel
