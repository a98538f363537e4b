import Wheel.Data.JsonText

/-!
# Reading a JSON text

`parse` reads a text as the JSON value it stands for. `prettyWith` is the indented text of a
value, for a way to write the characters of a string; `parse_prettyWith` says that reading it
gives the value back whenever every character is written as one that is read back. How a number
that is no integer is written and read is a parameter.
-/

namespace Wheel

namespace Json

/-- How the numbers that are no integers are written and read. -/
structure FloatText where
  text : ℚ → List Char
  read : List Char → Option ℚ
  isFloat : ℚ → Prop
  chars : ∀ q, isFloat q → ∀ c ∈ text q, c.isDigit = true ∨ c ∈ ['+', '-', '.', 'e']
  point : ∀ q, isFloat q → ∃ c ∈ text q, c ∈ ['.', 'e']
  read_text : ∀ q, isFloat q → read (text q) = some q

/-! ## The reader -/

def isBlank (c : Char) : Bool := c = ' ' || c = '\n' || c = '\r' || c = '\t'

def skip (x : List Char) : List Char := x.dropWhile isBlank

def hexDigit (c : Char) : Option ℕ :=
  if c.isDigit then some (c.toNat - 48)
  else if 'a' ≤ c ∧ c ≤ 'f' then some (c.toNat - 87)
  else if 'A' ≤ c ∧ c ≤ 'F' then some (c.toNat - 55)
  else none

/-- A number of four hexadecimal digits. -/
def hex4 : List Char → Option (ℕ × List Char)
  | a :: b :: c :: d :: x =>
      (hexDigit a).bind fun a => (hexDigit b).bind fun b => (hexDigit c).bind fun c =>
        (hexDigit d).map fun d => (4096 * a + 256 * b + 16 * c + d, x)
  | _ => none

/-- The character behind `\u`: one code unit, or the two of a surrogate pair. -/
def readUnit (x : List Char) : Option (Char × List Char) :=
  (hex4 x).bind fun (n, x) =>
    if 0xD800 ≤ n ∧ n < 0xDC00 then
      match x with
      | '\\' :: 'u' :: x =>
          (hex4 x).bind fun (m, x) =>
            if 0xDC00 ≤ m ∧ m < 0xE000 then
              some (Char.ofNat (0x10000 + 0x400 * (n - 0xD800) + (m - 0xDC00)), x)
            else none
      | _ => none
    else if 0xDC00 ≤ n ∧ n < 0xE000 then none
    else some (Char.ofNat n, x)

/-- One character of a string. -/
def readChar : List Char → Option (Char × List Char)
  | '\\' :: e :: x =>
      if e = 'u' then readUnit x
      else if e = 'b' then some ('\x08', x)
      else if e = 't' then some ('\t', x)
      else if e = 'n' then some ('\n', x)
      else if e = 'f' then some ('\x0c', x)
      else if e = 'r' then some ('\r', x)
      else if e = '\x22' ∨ e = '\\' ∨ e = '/' then some (e, x)
      else none
  | c :: x => if c = '\\' ∨ c.toNat < 32 then none else some (c, x)
  | [] => none

/-- The characters of a string, up to its closing quote. -/
def readChars : ℕ → List Char → Option (List Char × List Char)
  | 0, _ => none
  | fuel + 1, x =>
      if x.head? = some '\x22' then some ([], x.tail)
      else (readChar x).bind fun (c, x) => (readChars fuel x).map fun (s, x) => (c :: s, x)

def readString (x : List Char) : Option (String × List Char) :=
  (readChars x.length x).map fun (s, x) => (String.ofList s, x)

/-- A character of a number or of one of the three names. -/
def isWord (c : Char) : Bool := c.isAlphanum || c = '+' || c = '-' || c = '.'

def readNat (ds : List Char) : Option ℕ :=
  if ds ≠ [] ∧ ds.all Char.isDigit then some (Nat.ofDigitChars 10 ds 0) else none

def readSigned : List Char → Option ℤ
  | '-' :: ds => (readNat ds).map fun n : ℕ => -(n : ℤ)
  | ds => (readNat ds).map fun n : ℕ => (n : ℤ)

/-- An integer in its only spelling. -/
def readInt (w : List Char) : Option ℤ := (readSigned w).filter fun n => (toString n).toList = w

def wordValue (fl : FloatText) (w : List Char) : Option Json :=
  if w = "null".toList then some .null
  else if w = "true".toList then some (.bool true)
  else if w = "false".toList then some (.bool false)
  else
    match readInt w with
    | some n => some (.int n)
    | none => (fl.read w).map .float

def readWord (fl : FloatText) (x : List Char) : Option (Json × List Char) :=
  (wordValue fl (x.takeWhile isWord)).map fun v => (v, x.dropWhile isWord)

mutual

def readValue (fl : FloatText) : ℕ → List Char → Option (Json × List Char)
  | 0, _ => none
  | fuel + 1, x =>
      match skip x with
      | '\x22' :: x => (readString x).map fun (s, x) => (.str s, x)
      | '[' :: x =>
          if (skip x).head? = some ']' then some (.arr [], (skip x).tail)
          else (readItems fl fuel x).map fun (items, x) => (.arr items, x)
      | '\x7b' :: x =>
          if (skip x).head? = some '\x7d' then some (.obj [], (skip x).tail)
          else (readMembers fl fuel x).map fun (m, x) => (.obj m, x)
      | x => readWord fl x

/-- The items of an array, up to its closing bracket. -/
def readItems (fl : FloatText) : ℕ → List Char → Option (List Json × List Char)
  | 0, _ => none
  | fuel + 1, x =>
      (readValue fl fuel x).bind fun (v, x) =>
        match skip x with
        | ',' :: x => (readItems fl fuel x).map fun (items, x) => (v :: items, x)
        | ']' :: x => some ([v], x)
        | _ => none

/-- The members of an object, up to its closing brace. -/
def readMembers (fl : FloatText) : ℕ → List Char → Option (List (String × Json) × List Char)
  | 0, _ => none
  | fuel + 1, x =>
      match skip x with
      | '\x22' :: x =>
          (readString x).bind fun (k, x) =>
            match skip x with
            | ':' :: x =>
                (readValue fl fuel x).bind fun (v, x) =>
                  match skip x with
                  | ',' :: x => (readMembers fl fuel x).map fun (m, x) => ((k, v) :: m, x)
                  | '\x7d' :: x => some ([(k, v)], x)
                  | _ => none
            | _ => none
      | _ => none

end

/-- The value of a whole text. -/
def parse (fl : FloatText) (x : List Char) : Option Json :=
  (readValue fl x.length x).bind fun (v, rest) => if skip rest = [] then some v else none

example (fl : FloatText) (x : List Char) : readValue fl 0 x = none := by
  simp only [readValue]

/-! ## The indented text -/

/-- A new line at a depth. -/
def line (d : ℕ) : List Char := '\n' :: List.replicate (2 * d) ' '

def quoteWith (esc : Char → List Char) (x : List Char) : List Char :=
  '\x22' :: (x.flatMap esc ++ ['\x22'])

mutual

def prettyWith (esc : Char → List Char) (fl : FloatText) : ℕ → Json → List Char
  | _, null => "null".toList
  | _, bool true => "true".toList
  | _, bool false => "false".toList
  | _, int n => (toString n).toList
  | _, float q => fl.text q
  | _, str s => quoteWith esc s.toList
  | _, arr [] => ['[', ']']
  | d, arr (v :: x) =>
      '[' :: (line (d + 1) ++ (prettyWith esc fl (d + 1) v ++
        (prettyItems esc fl (d + 1) x ++ (line d ++ [']']))))
  | _, obj [] => ['\x7b', '\x7d']
  | d, obj ((k, v) :: m) =>
      '\x7b' :: (line (d + 1) ++ (quoteWith esc k.toList ++ (':' :: ' ' ::
        (prettyWith esc fl (d + 1) v ++ (prettyMembers esc fl (d + 1) m ++ (line d ++ ['\x7d']))))))

/-- The items behind the first one. -/
def prettyItems (esc : Char → List Char) (fl : FloatText) : ℕ → List Json → List Char
  | _, [] => []
  | d, v :: x => ',' :: (line d ++ (prettyWith esc fl d v ++ prettyItems esc fl d x))

/-- The members behind the first one. -/
def prettyMembers (esc : Char → List Char) (fl : FloatText) :
    ℕ → List (String × Json) → List Char
  | _, [] => []
  | d, (k, v) :: m =>
      ',' :: (line d ++ (quoteWith esc k.toList ++ (':' :: ' ' ::
        (prettyWith esc fl d v ++ prettyMembers esc fl d m))))

end

mutual

/-- Every number that is no integer can be written. -/
def Floats (fl : FloatText) : Json → Prop
  | float q => fl.isFloat q
  | arr x => FloatItems fl x
  | obj m => FloatMembers fl m
  | _ => True

def FloatItems (fl : FloatText) : List Json → Prop
  | [] => True
  | v :: x => Floats fl v ∧ FloatItems fl x

def FloatMembers (fl : FloatText) : List (String × Json) → Prop
  | [] => True
  | (_, v) :: m => Floats fl v ∧ FloatMembers fl m

end

example (esc : Char → List Char) (fl : FloatText) (d : ℕ) :
    prettyWith esc fl d null = "null".toList := by
  simp only [prettyWith]

/-! ## Reading a string back -/

section strings

variable {esc : Char → List Char}

/-- Every character of a string is written as one that is read back, and none as a quote. -/
structure Spelling (esc : Char → List Char) : Prop where
  read : ∀ c rest, readChar (esc c ++ rest) = some (c, rest)
  head : ∀ c, (esc c).head? ≠ some '\x22'

theorem Spelling.ne_nil (h : Spelling esc) (c : Char) : esc c ≠ [] := by
  intro hc
  have hr := h.read c []
  rw [hc] at hr
  simp [readChar] at hr

theorem Spelling.length_le (h : Spelling esc) (x : List Char) :
    x.length ≤ (x.flatMap esc).length := by
  induction x with
  | nil => simp
  | cons c x ih =>
      have hc := List.length_pos_iff.2 (h.ne_nil c)
      simp only [List.flatMap_cons, List.length_append, List.length_cons]
      omega

theorem readChars_flatMap (h : Spelling esc) (x rest : List Char) {fuel : ℕ}
    (hfuel : x.length < fuel) :
    readChars fuel (x.flatMap esc ++ '\x22' :: rest) = some (x, rest) := by
  induction x generalizing fuel with
  | nil =>
      obtain ⟨fuel, rfl⟩ := Nat.exists_eq_add_of_lt hfuel
      simp [readChars]
  | cons c x ih =>
      cases fuel with
      | zero => simp at hfuel
      | succ fuel =>
          have hhead : ((c :: x).flatMap esc ++ '\x22' :: rest).head? ≠ some '\x22' := by
            rw [List.flatMap_cons, List.append_assoc,
              List.head?_append_of_ne_nil _ (h.ne_nil c)]
            exact h.head c
          rw [readChars, if_neg hhead, List.flatMap_cons, List.append_assoc, h.read]
          simp [ih (by simpa using hfuel)]

theorem readString_flatMap (h : Spelling esc) (s : String) (rest : List Char) :
    readString (s.toList.flatMap esc ++ '\x22' :: rest) = some (s, rest) := by
  have hlen := h.length_le s.toList
  rw [readString, readChars_flatMap h]
  · simp
  · simp only [List.length_append, List.length_cons]
    omega

end strings

/-! ## Reading a number or a name back -/

section words

variable {fl : FloatText}

/-- No character of a word stands first. -/
def Stops (rest : List Char) : Prop := ∀ c ∈ rest.head?, isWord c = false

theorem takeWhile_word {w rest : List Char} (hw : ∀ c ∈ w, isWord c = true) (h : Stops rest) :
    (w ++ rest).takeWhile isWord = w := by
  rw [List.takeWhile_append_of_pos hw]
  cases rest with
  | nil => simp
  | cons c rest => simp [h c rfl]

theorem dropWhile_word {w rest : List Char} (hw : ∀ c ∈ w, isWord c = true) (h : Stops rest) :
    (w ++ rest).dropWhile isWord = rest := by
  rw [List.dropWhile_append_of_pos hw]
  cases rest with
  | nil => simp
  | cons c rest => simp [h c rfl]

theorem readWord_append {w rest : List Char} (hw : ∀ c ∈ w, isWord c = true) (h : Stops rest) :
    readWord fl (w ++ rest) = (wordValue fl w).map fun v => (v, rest) := by
  rw [readWord, takeWhile_word hw h, dropWhile_word hw h]

theorem skip_of_head {c : Char} (h : isBlank c = false) (x : List Char) :
    skip (c :: x) = c :: x := by
  rw [skip, List.dropWhile_cons_of_neg (by simp [h])]

theorem isBlank_of_isWord {c : Char} (h : isWord c = true) : isBlank c = false := by
  by_contra hb
  simp only [isBlank, Bool.or_eq_false_iff, not_and, Bool.not_eq_false, decide_eq_true_eq] at hb
  have hc : c = ' ' ∨ c = '\n' ∨ c = '\r' ∨ c = '\t' := by
    grind
  rcases hc with rfl | rfl | rfl | rfl <;> exact absurd h (by decide)

theorem readValue_word {c : Char} {w rest : List Char} (hw : ∀ d ∈ c :: w, isWord d = true)
    (h : Stops rest) (fuel : ℕ) :
    readValue fl (fuel + 1) (c :: w ++ rest) =
      (wordValue fl (c :: w)).map fun v => (v, rest) := by
  have hc := hw c (by simp)
  rw [← readWord_append hw h, readValue, List.cons_append,
    skip_of_head (isBlank_of_isWord hc)]
  have hq : c ≠ '\x22' := fun he => absurd hc (by rw [he]; decide)
  have hb : c ≠ '[' := fun he => absurd hc (by rw [he]; decide)
  have hm : c ≠ '\x7b' := fun he => absurd hc (by rw [he]; decide)
  split
  · simp_all
  · simp_all
  · simp_all
  · rfl

theorem toList_toString_ofNat (n : ℕ) : (toString (n : ℤ)).toList = Nat.toDigits 10 n := by
  change (Nat.repr n).toList = _
  simp

theorem toList_toString_negSucc (n : ℕ) :
    (toString (Int.negSucc n)).toList = '-' :: Nat.toDigits 10 (n + 1) := by
  simp [Int.toString_eq_repr, Int.repr]

theorem mem_toString {n : ℤ} {c : Char} (h : c ∈ (toString n).toList) :
    c.isDigit = true ∨ c = '-' := by
  have hdigit : ∀ {m : ℕ}, c ∈ Nat.toDigits 10 m → c.isDigit = true := fun hc =>
    Nat.isDigit_of_mem_toDigits (by norm_num) (by norm_num) hc
  cases n with
  | ofNat m =>
      rw [Int.ofNat_eq_natCast, toList_toString_ofNat] at h
      exact .inl (hdigit h)
  | negSucc m =>
      rw [toList_toString_negSucc, List.mem_cons] at h
      exact h.elim .inr fun hc => .inl (hdigit hc)

theorem readNat_toDigits (n : ℕ) : readNat (Nat.toDigits 10 n) = some n := by
  have hall : (Nat.toDigits 10 n).all Char.isDigit = true := List.all_eq_true.2 fun c hc =>
    Nat.isDigit_of_mem_toDigits (by norm_num) (by norm_num) hc
  rw [readNat, if_pos ⟨Nat.toDigits_ne_nil, hall⟩, Nat.ofDigitChars_ten_toDigits]

theorem readSigned_toDigits (n : ℕ) : readSigned (Nat.toDigits 10 n) = some (n : ℤ) := by
  have hne : ∀ ds, Nat.toDigits 10 n ≠ '-' :: ds := by
    intro ds hds
    have hd := Nat.isDigit_of_mem_toDigits (b := 10) (n := n) (c := '-') (by norm_num)
      (by norm_num) (by rw [hds]; simp)
    exact absurd hd (by decide)
  rw [readSigned.eq_def]
  split
  · exact absurd ‹_› (hne _)
  · rw [readNat_toDigits, Option.map_some]

theorem readInt_toString (n : ℤ) : readInt (toString n).toList = some n := by
  cases n with
  | ofNat m =>
      rw [Int.ofNat_eq_natCast, toList_toString_ofNat, readInt, readSigned_toDigits]
      exact Option.filter_eq_some_iff.2 ⟨rfl, decide_eq_true (toList_toString_ofNat m)⟩
  | negSucc m =>
      have hm : -((m + 1 : ℕ) : ℤ) = Int.negSucc m := by omega
      rw [toList_toString_negSucc, readInt, readSigned, readNat_toDigits, Option.map_some, hm]
      exact Option.filter_eq_some_iff.2 ⟨rfl, decide_eq_true (toList_toString_negSucc m)⟩

theorem readInt_eq_none {w : List Char} {c : Char} (h : c ∈ w) (hd : c.isDigit = false)
    (hm : c ≠ '-') : readInt w = none := by
  unfold readInt
  rw [Option.filter_eq_none_iff]
  intro n _ hn
  rw [← of_decide_eq_true hn] at h
  rcases mem_toString h with hc | hc
  · rw [hd] at hc
    exact absurd hc (by simp)
  · exact hm hc

/-- A word that is none of the three names is a number. -/
theorem wordValue_number {w : List Char} (h : ∀ c ∈ w, c ≠ 'n' ∧ c ≠ 't' ∧ c ≠ 'f') :
    wordValue fl w = match readInt w with
      | some n => some (.int n)
      | none => (fl.read w).map .float := by
  have hn : w ≠ "null".toList := fun he => (h 'n' (by rw [he]; decide)).1 rfl
  have ht : w ≠ "true".toList := fun he => (h 't' (by rw [he]; decide)).2.1 rfl
  have hf : w ≠ "false".toList := fun he => (h 'f' (by rw [he]; decide)).2.2 rfl
  rw [wordValue, if_neg hn, if_neg ht, if_neg hf]

theorem wordValue_int (n : ℤ) : wordValue fl (toString n).toList = some (.int n) := by
  rw [wordValue_number, readInt_toString]
  intro c hc
  rcases mem_toString hc with hd | rfl
  · refine ⟨?_, ?_, ?_⟩ <;> rintro rfl <;> exact absurd hd (by decide)
  · decide

theorem wordValue_float {q : ℚ} (h : fl.isFloat q) :
    wordValue fl (fl.text q) = some (.float q) := by
  have hint : readInt (fl.text q) = none := by
    rcases fl.point q h with ⟨c, hc, he⟩
    refine readInt_eq_none hc ?_ ?_
    · simp only [List.mem_cons, List.not_mem_nil, or_false] at he
      rcases he with rfl | rfl <;> decide
    · rintro rfl
      exact absurd he (by decide)
  rw [wordValue_number, hint]
  · simp [fl.read_text q h]
  · intro c hc
    rcases fl.chars q h c hc with hd | he
    · refine ⟨?_, ?_, ?_⟩ <;> rintro rfl <;> exact absurd hd (by decide)
    · refine ⟨?_, ?_, ?_⟩ <;> rintro rfl <;> exact absurd he (by decide)

end words

/-! ## Reading a value back -/

section values

variable {esc : Char → List Char} {fl : FloatText}

theorem skip_line (d : ℕ) (x : List Char) : skip (line d ++ x) = skip x := by
  rw [skip, skip, List.dropWhile_append_of_pos]
  intro c hc
  rcases List.mem_cons.1 hc with rfl | hc
  · decide
  · rw [List.eq_of_mem_replicate hc]
    decide

theorem readValue_line (fuel d : ℕ) (x : List Char) :
    readValue fl fuel (line d ++ x) = readValue fl fuel x := by
  cases fuel with
  | zero => simp only [readValue]
  | succ fuel => rw [readValue, readValue, skip_line]

theorem readItems_line (fuel d : ℕ) (x : List Char) :
    readItems fl fuel (line d ++ x) = readItems fl fuel x := by
  cases fuel with
  | zero => simp only [readItems]
  | succ fuel => rw [readItems, readItems, readValue_line]

theorem readMembers_line (fuel d : ℕ) (x : List Char) :
    readMembers fl fuel (line d ++ x) = readMembers fl fuel x := by
  cases fuel with
  | zero => simp only [readMembers]
  | succ fuel => rw [readMembers, readMembers, skip_line]

theorem stops_line (d : ℕ) (x : List Char) : Stops (line d ++ x) := by
  intro c hc
  obtain rfl : '\n' = c := by simpa [line] using hc
  decide

theorem stops_cons {c : Char} (h : isWord c = false) (x : List Char) : Stops (c :: x) := by
  intro d hd
  obtain rfl : c = d := by simpa using hd
  exact h

theorem stops_items (d d' : ℕ) (x : List Json) (y : List Char) :
    Stops (prettyItems esc fl d x ++ (line d' ++ y)) := by
  cases x with
  | nil => exact stops_line d' y
  | cons v x => exact stops_cons (by decide) _

theorem stops_members (d d' : ℕ) (m : List (String × Json)) (y : List Char) :
    Stops (prettyMembers esc fl d m ++ (line d' ++ y)) := by
  cases m with
  | nil => exact stops_line d' y
  | cons m₁ m => exact stops_cons (by decide) _

/-- The text of a value is read back, whatever stands behind it. -/
def Reads (esc : Char → List Char) (fl : FloatText) (v : Json) : Prop :=
  ∀ fuel d rest, (prettyWith esc fl d v).length ≤ fuel → Stops rest →
    readValue fl fuel (prettyWith esc fl d v ++ rest) = some (v, rest)

theorem readItems_pretty {x : List Json} (hx : ∀ w ∈ x, Reads esc fl w) {v : Json}
    (hv : Reads esc fl v) (d d' : ℕ) (rest : List Char) {fuel : ℕ}
    (hfuel : (prettyWith esc fl d v ++ prettyItems esc fl d x).length < fuel) :
    readItems fl fuel (prettyWith esc fl d v ++
      (prettyItems esc fl d x ++ (line d' ++ ']' :: rest))) = some (v :: x, rest) := by
  induction x generalizing v fuel with
  | nil =>
      cases fuel with
      | zero => simp at hfuel
      | succ fuel =>
          rw [readItems, hv fuel d _ (by simp [prettyItems] at hfuel; omega) (stops_items d d' _ _)]
          simp only [prettyItems, List.nil_append, Option.bind_some, skip_line,
            skip_of_head (c := ']') (by decide)]
  | cons w x ih =>
      cases fuel with
      | zero => simp at hfuel
      | succ fuel =>
          rw [prettyItems] at hfuel
          simp only [List.length_append, List.length_cons] at hfuel
          rw [readItems, hv fuel d _ (by omega) (stops_items d d' _ _)]
          simp only [prettyItems, List.cons_append, List.append_assoc, Option.bind_some,
            skip_of_head (c := ',') (by decide), readItems_line]
          rw [ih (fun u hu => hx u (.tail _ hu)) (hx w (.head _))]
          · rfl
          · simp only [List.length_append]
            omega

theorem readMembers_pretty (hs : Spelling esc) {m : List (String × Json)}
    (hm : ∀ p ∈ m, Reads esc fl p.2) (k : String) {v : Json} (hv : Reads esc fl v) (d d' : ℕ)
    (rest : List Char) {fuel : ℕ}
    (hfuel : (prettyWith esc fl d v ++ prettyMembers esc fl d m).length < fuel) :
    readMembers fl fuel (quoteWith esc k.toList ++ (':' :: ' ' :: (prettyWith esc fl d v ++
      (prettyMembers esc fl d m ++ (line d' ++ '\x7d' :: rest))))) =
      some ((k, v) :: m, rest) := by
  have hvalue : ∀ fuel y, readValue fl fuel (' ' :: y) = readValue fl fuel y := by
    intro fuel y
    cases fuel with
    | zero => simp only [readValue]
    | succ fuel => simp only [readValue, skip, List.dropWhile_cons_of_pos (by decide : isBlank ' ')]
  induction m generalizing k v fuel with
  | nil =>
      cases fuel with
      | zero => simp at hfuel
      | succ fuel =>
          simp only [readMembers, quoteWith, List.cons_append, List.append_assoc,
            skip_of_head (c := '\x22') (by decide), List.nil_append, readString_flatMap hs,
            Option.bind_some, skip_of_head (c := ':') (by decide), hvalue]
          rw [hv fuel d _ (by simp [prettyMembers] at hfuel; omega) (stops_members d d' _ _)]
          simp only [prettyMembers, List.nil_append, Option.bind_some, skip_line,
            skip_of_head (c := '\x7d') (by decide)]
  | cons p m ih =>
      cases fuel with
      | zero => simp at hfuel
      | succ fuel =>
          rw [prettyMembers] at hfuel
          simp only [List.length_append, List.length_cons] at hfuel
          simp only [readMembers, quoteWith, List.cons_append, List.append_assoc,
            skip_of_head (c := '\x22') (by decide), List.nil_append, readString_flatMap hs,
            Option.bind_some, skip_of_head (c := ':') (by decide), hvalue]
          rw [hv fuel d _ (by omega) (stops_members d d' _ _)]
          simp only [prettyMembers, List.cons_append, List.append_assoc, Option.bind_some,
            skip_of_head (c := ',') (by decide), readMembers_line]
          rw [ih (fun q hq => hm q (.tail _ hq)) p.1 (hm p (.head _))]
          · rfl
          · simp only [List.length_append]
            omega

/-- A value whose text is one word is read back. -/
theorem reads_of_word {v : Json} {w : List Char} (htext : ∀ d, prettyWith esc fl d v = w)
    (hne : w ≠ []) (hw : ∀ c ∈ w, isWord c = true) (hv : wordValue fl w = some v) :
    Reads esc fl v := by
  intro fuel d rest hfuel hrest
  cases w with
  | nil => exact absurd rfl hne
  | cons c w =>
      rw [htext] at hfuel ⊢
      obtain ⟨n, rfl⟩ := Nat.exists_eq_add_of_lt (show 0 < fuel by simp at hfuel; omega)
      rw [readValue_word hw hrest, hv, Option.map_some]

theorem isWord_of_isDigit {c : Char} (h : c.isDigit = true) : isWord c = true := by
  simp [isWord, Char.isAlphanum, h]

theorem toString_ne_nil (n : ℤ) : (toString n).toList ≠ [] := by
  intro h
  have hread := readInt_toString n
  rw [h] at hread
  simp [readInt, readSigned, readNat] at hread

theorem isWord_toString {n : ℤ} {c : Char} (h : c ∈ (toString n).toList) : isWord c = true := by
  rcases mem_toString h with hd | rfl
  · exact isWord_of_isDigit hd
  · decide

theorem floatText_ne_nil {q : ℚ} (h : fl.isFloat q) : fl.text q ≠ [] := by
  intro hnil
  rcases fl.point q h with ⟨c, hc, -⟩
  rw [hnil] at hc
  exact absurd hc List.not_mem_nil

theorem isWord_floatText {q : ℚ} (h : fl.isFloat q) {c : Char} (hc : c ∈ fl.text q) :
    isWord c = true := by
  rcases fl.chars q h c hc with hd | he
  · exact isWord_of_isDigit hd
  · simp only [List.mem_cons, List.not_mem_nil, or_false] at he
    rcases he with rfl | rfl | rfl | rfl <;> decide

theorem reads_int (n : ℤ) : Reads esc fl (.int n) :=
  reads_of_word (fun d => by rw [prettyWith]) (toString_ne_nil n) (fun _ => isWord_toString)
    (wordValue_int n)

theorem reads_float {q : ℚ} (h : fl.isFloat q) : Reads esc fl (.float q) :=
  reads_of_word (fun d => by rw [prettyWith]) (floatText_ne_nil h) (fun _ => isWord_floatText h)
    (wordValue_float h)

theorem reads_str (hs : Spelling esc) (s : String) : Reads esc fl (.str s) := by
  intro fuel d rest hfuel _
  rw [prettyWith, quoteWith] at hfuel ⊢
  obtain ⟨n, rfl⟩ := Nat.exists_eq_add_of_lt (show 0 < fuel by simp at hfuel; omega)
  simp only [readValue, List.cons_append, List.append_assoc,
    skip_of_head (c := '\x22') (by decide), List.nil_append, readString_flatMap hs,
    Option.map_some]

/-- The text of a value starts with a character that neither is a blank nor ends a list. -/
theorem head_pretty {v : Json} (h : Floats fl v) (d : ℕ) :
    ∃ c y, prettyWith esc fl d v = c :: y ∧ isBlank c = false ∧ c ≠ ']' := by
  have hword : ∀ w : List Char, w ≠ [] → (∀ c ∈ w, isWord c = true) →
      ∃ c y, w = c :: y ∧ isBlank c = false ∧ c ≠ ']' := by
    intro w hne hw
    cases w with
    | nil => exact absurd rfl hne
    | cons c y =>
        have hc := hw c (by simp)
        refine ⟨c, y, rfl, isBlank_of_isWord hc, ?_⟩
        rintro rfl
        exact absurd hc (by decide)
  cases v with
  | null => exact ⟨'n', _, by rw [prettyWith]; rfl, by decide, by decide⟩
  | bool b =>
      cases b with
      | true => exact ⟨'t', _, by rw [prettyWith]; rfl, by decide, by decide⟩
      | false => exact ⟨'f', _, by rw [prettyWith]; rfl, by decide, by decide⟩
  | int n =>
      rw [prettyWith]
      exact hword _ (toString_ne_nil n) fun _ => isWord_toString
  | float q =>
      rw [prettyWith]
      exact hword _ (floatText_ne_nil h) fun _ => isWord_floatText h
  | str s => exact ⟨'\x22', _, by rw [prettyWith, quoteWith], by decide, by decide⟩
  | arr x =>
      cases x with
      | nil => exact ⟨'[', _, by rw [prettyWith], by decide, by decide⟩
      | cons v x => exact ⟨'[', _, by rw [prettyWith], by decide, by decide⟩
  | obj m =>
      cases m with
      | nil => exact ⟨'\x7b', _, by rw [prettyWith], by decide, by decide⟩
      | cons p m => exact ⟨'\x7b', _, by rw [prettyWith], by decide, by decide⟩

theorem reads_arr {x : List Json} (hfl : Floats fl (.arr x)) (h : ∀ v ∈ x, Reads esc fl v) :
    Reads esc fl (.arr x) := by
  intro fuel d rest hfuel _
  cases x with
  | nil =>
      rw [prettyWith] at hfuel ⊢
      obtain ⟨n, rfl⟩ := Nat.exists_eq_add_of_lt (show 0 < fuel by simp at hfuel; omega)
      simp only [readValue, List.cons_append, skip_of_head (c := '[') (by decide),
        skip_of_head (c := ']') (by decide), List.head?_cons, if_true, List.nil_append,
        List.tail_cons]
  | cons v x =>
      rw [prettyWith] at hfuel ⊢
      simp only [List.length_append, List.length_cons] at hfuel
      obtain ⟨n, rfl⟩ := Nat.exists_eq_add_of_lt (show 0 < fuel by omega)
      obtain ⟨c, y, hy, hblank, hc⟩ : ∃ c y, prettyWith esc fl (d + 1) v = c :: y ∧
          isBlank c = false ∧ c ≠ ']' := head_pretty hfl.1 (d + 1)
      simp only [readValue, List.cons_append, skip_of_head (c := '[') (by decide),
        List.append_assoc, skip_line, readItems_line, List.nil_append]
      rw [readItems_pretty (fun w hw => h w (.tail _ hw)) (h v (.head _))]
      · rw [hy, List.cons_append, skip_of_head hblank, if_neg (by simpa using hc),
          Option.map_some]
      · simp only [List.length_append]
        omega

theorem reads_obj (hs : Spelling esc) {m : List (String × Json)}
    (h : ∀ p ∈ m, Reads esc fl p.2) : Reads esc fl (.obj m) := by
  intro fuel d rest hfuel _
  cases m with
  | nil =>
      rw [prettyWith] at hfuel ⊢
      obtain ⟨n, rfl⟩ := Nat.exists_eq_add_of_lt (show 0 < fuel by simp at hfuel; omega)
      simp only [readValue, List.cons_append, skip_of_head (c := '\x7b') (by decide),
        skip_of_head (c := '\x7d') (by decide), List.head?_cons, if_true, List.nil_append,
        List.tail_cons]
  | cons p m =>
      rw [prettyWith] at hfuel ⊢
      simp only [List.length_append, List.length_cons] at hfuel
      obtain ⟨n, rfl⟩ := Nat.exists_eq_add_of_lt (show 0 < fuel by omega)
      have hquote : (skip (quoteWith esc p.1.toList ++ (':' :: ' ' ::
          (prettyWith esc fl (d + 1) p.2 ++ (prettyMembers esc fl (d + 1) m ++
            (line d ++ '\x7d' :: rest)))))).head? ≠ some '\x7d' := by
        simp [quoteWith, skip_of_head (c := '\x22') (by decide)]
      simp only [readValue, List.cons_append, skip_of_head (c := '\x7b') (by decide),
        List.append_assoc, skip_line, readMembers_line, List.nil_append]
      rw [readMembers_pretty hs (fun q hq => h q (.tail _ hq)) p.1 (h p (.head _)),
        if_neg hquote, Option.map_some]
      simp only [List.length_append]
      omega

mutual

theorem reads (hs : Spelling esc) : ∀ v, Floats fl v → Reads esc fl v
  | .null, _ =>
      reads_of_word (w := "null".toList) (fun d => by rw [prettyWith]) (by decide)
        (List.all_eq_true.1 rfl) (by rw [wordValue, if_pos rfl])
  | .bool true, _ =>
      reads_of_word (w := "true".toList) (fun d => by rw [prettyWith]) (by decide)
        (List.all_eq_true.1 rfl) (by rw [wordValue, if_neg (by decide), if_pos rfl])
  | .bool false, _ =>
      reads_of_word (w := "false".toList) (fun d => by rw [prettyWith]) (by decide)
        (List.all_eq_true.1 rfl) (by rw [wordValue, if_neg (by decide), if_neg (by decide), if_pos rfl])
  | .int n, _ => reads_int n
  | .float _, h => reads_float h
  | .str s, _ => reads_str hs s
  | .arr x, h => reads_arr h (reads_items hs x h)
  | .obj m, h => reads_obj hs (reads_members hs m h)

theorem reads_items (hs : Spelling esc) : ∀ x, FloatItems fl x → ∀ v ∈ x, Reads esc fl v
  | [], _ => by simp
  | v :: x, h => List.forall_mem_cons.2 ⟨reads hs v h.1, reads_items hs x h.2⟩

theorem reads_members (hs : Spelling esc) :
    ∀ m, FloatMembers fl m → ∀ p ∈ m, Reads esc fl p.2
  | [], _ => by simp
  | (_, v) :: m, h => List.forall_mem_cons.2 ⟨reads hs v h.1, reads_members hs m h.2⟩

end

/-- Reading the text of a value gives the value. -/
theorem parse_prettyWith (hs : Spelling esc) {v : Json} (h : Floats fl v) :
    parse fl (prettyWith esc fl 0 v) = some v := by
  have hread := reads hs v h (prettyWith esc fl 0 v).length 0 [] le_rfl (by simp [Stops])
  rw [List.append_nil] at hread
  rw [parse, hread, Option.bind_some]
  simp [skip]

end values

/-! ## The usual spelling -/

theorem hexDigit_lowerHex {n : ℕ} (h : n < 16) : hexDigit (lowerHex n) = some n := by
  interval_cases n <;> rfl

/-- A control character is read back from its number. -/
theorem readUnit_control {c : Char} (h : c.toNat < 32) (rest : List Char) :
    readUnit ('0' :: '0' :: lowerHex (c.toNat / 16) :: lowerHex (c.toNat % 16) :: rest) =
      some (c, rest) := by
  have hzero : hexDigit '0' = some 0 := rfl
  have hnum : 4096 * 0 + 256 * 0 + 16 * (c.toNat / 16) + c.toNat % 16 = c.toNat := by omega
  rw [readUnit, hex4, hzero, hexDigit_lowerHex (by omega), hexDigit_lowerHex (by omega)]
  simp only [Option.bind_some, Option.map_some, hnum, Char.ofNat_toNat]
  rw [if_neg (by omega), if_neg (by omega)]

theorem spelling_escapeChar : Spelling escapeChar where
  read := by
    intro c rest
    unfold escapeChar
    split_ifs with hq hb h8 ht hn hf hr hc
    · rw [hq]
      rfl
    · rw [hb]
      rfl
    · rw [h8]
      rfl
    · rw [ht]
      rfl
    · rw [hn]
      rfl
    · rw [hf]
      rfl
    · rw [hr]
      rfl
    · exact readUnit_control hc rest
    · rw [List.singleton_append, readChar.eq_def]
      split
      · simp_all
      · simp_all
      · simp_all
  head := by
    intro c
    unfold escapeChar
    split_ifs with hq
    all_goals simp_all

/-! ## Rewriting a character of the text -/

section rewriting

variable {esc esc' g : Char → List Char} {fl : FloatText}

/-- A character a text can have outside its strings. -/
def isMarkup (c : Char) : Bool :=
  isWord c || isBlank c || ['\x22', '[', ']', '\x7b', '\x7d', ',', ':'].contains c

theorem flatMap_of_isMarkup (hg : ∀ c, isMarkup c = true → g c = [c]) {x : List Char}
    (hx : ∀ c ∈ x, isMarkup c = true) : x.flatMap g = x := by
  induction x with
  | nil => rfl
  | cons c x ih =>
      rw [List.flatMap_cons, hg c (hx c (.head _)), ih fun d hd => hx d (.tail _ hd)]
      rfl

theorem isMarkup_of_isWord {c : Char} (h : isWord c = true) : isMarkup c = true := by
  simp [isMarkup, h]

theorem isMarkup_line {d : ℕ} {c : Char} (h : c ∈ line d) : isMarkup c = true := by
  rcases List.mem_cons.1 h with rfl | h
  · decide
  · rw [List.eq_of_mem_replicate h]
    decide

theorem flatMap_quoteWith (hg : ∀ c, isMarkup c = true → g c = [c])
    (hesc : ∀ c, (esc c).flatMap g = esc' c) (x : List Char) :
    (quoteWith esc x).flatMap g = quoteWith esc' x := by
  simp only [quoteWith, List.flatMap_cons, List.flatMap_append, List.flatMap_nil,
    hg '\x22' (by decide), List.flatMap_assoc, hesc, List.append_nil, List.singleton_append]

mutual

/-- A rewriting that leaves the markup alone only changes how strings are written. -/
theorem flatMap_prettyWith (hg : ∀ c, isMarkup c = true → g c = [c])
    (hesc : ∀ c, (esc c).flatMap g = esc' c) :
    ∀ d v, Floats fl v → (prettyWith esc fl d v).flatMap g = prettyWith esc' fl d v
  | _, .null, _ => by
      rw [prettyWith, prettyWith]
      exact flatMap_of_isMarkup hg (List.all_eq_true.1 rfl)
  | _, .bool true, _ => by
      rw [prettyWith, prettyWith]
      exact flatMap_of_isMarkup hg (List.all_eq_true.1 rfl)
  | _, .bool false, _ => by
      rw [prettyWith, prettyWith]
      exact flatMap_of_isMarkup hg (List.all_eq_true.1 rfl)
  | _, .int _, _ => by
      rw [prettyWith, prettyWith]
      exact flatMap_of_isMarkup hg fun _ hc => isMarkup_of_isWord (isWord_toString hc)
  | _, .float _, h => by
      rw [prettyWith, prettyWith]
      exact flatMap_of_isMarkup hg fun _ hc => isMarkup_of_isWord (isWord_floatText h hc)
  | _, .str _, _ => by
      rw [prettyWith, prettyWith]
      exact flatMap_quoteWith hg hesc _
  | _, .arr [], _ => by
      rw [prettyWith, prettyWith]
      exact flatMap_of_isMarkup hg (List.all_eq_true.1 rfl)
  | d, .arr (v :: x), h => by
      simp only [prettyWith, List.flatMap_cons, List.flatMap_append, List.flatMap_nil,
        flatMap_of_isMarkup hg (fun _ => isMarkup_line), hg '[' (by decide), hg ']' (by decide),
        flatMap_prettyWith hg hesc (d + 1) v h.1, flatMap_prettyItems hg hesc (d + 1) x h.2,
        List.append_nil, List.singleton_append]
  | _, .obj [], _ => by
      rw [prettyWith, prettyWith]
      exact flatMap_of_isMarkup hg (List.all_eq_true.1 rfl)
  | d, .obj ((k, v) :: m), h => by
      simp only [prettyWith, List.flatMap_cons, List.flatMap_append, List.flatMap_nil,
        flatMap_of_isMarkup hg (fun _ => isMarkup_line), hg '\x7b' (by decide),
        hg '\x7d' (by decide), hg ':' (by decide), hg ' ' (by decide),
        flatMap_quoteWith hg hesc,
        flatMap_prettyWith hg hesc (d + 1) v h.1, flatMap_prettyMembers hg hesc (d + 1) m h.2,
        List.append_nil, List.singleton_append]

theorem flatMap_prettyItems (hg : ∀ c, isMarkup c = true → g c = [c])
    (hesc : ∀ c, (esc c).flatMap g = esc' c) :
    ∀ d x, FloatItems fl x → (prettyItems esc fl d x).flatMap g = prettyItems esc' fl d x
  | _, [], _ => by
      rw [prettyItems, prettyItems]
      rfl
  | d, v :: x, h => by
      simp only [prettyItems, List.flatMap_cons, List.flatMap_append,
        flatMap_of_isMarkup hg (fun _ => isMarkup_line), hg ',' (by decide),
        flatMap_prettyWith hg hesc d v h.1, flatMap_prettyItems hg hesc d x h.2,
        List.singleton_append]

theorem flatMap_prettyMembers (hg : ∀ c, isMarkup c = true → g c = [c])
    (hesc : ∀ c, (esc c).flatMap g = esc' c) :
    ∀ d m, FloatMembers fl m → (prettyMembers esc fl d m).flatMap g = prettyMembers esc' fl d m
  | _, [], _ => by
      rw [prettyMembers, prettyMembers]
      rfl
  | d, (k, v) :: m, h => by
      simp only [prettyMembers, List.flatMap_cons, List.flatMap_append,
        flatMap_of_isMarkup hg (fun _ => isMarkup_line), hg ',' (by decide), hg ':' (by decide),
        hg ' ' (by decide), flatMap_quoteWith hg hesc,
        flatMap_prettyWith hg hesc d v h.1, flatMap_prettyMembers hg hesc d m h.2,
        List.singleton_append]

end

end rewriting

end Json

end Wheel
