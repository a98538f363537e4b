import Mathlib
import Wheel.Text.Search

/-!
# Reading a git configuration

How git reads a configuration: sections with an optional subsection in quotes, keys in any case
with blanks behind them, and values with quotes, escapes, comments and lines that are continued.
`items` has, for each line, the item whose key stands on it, as long as nothing is broken.
`items_of_alike` compares the readings of two texts that differ only inside of values.
-/

namespace Text

abbrev Line := List Char

/-- What the format takes for a blank. -/
def isConfigBlank (c : Char) : Bool := c = ' ' || c = '\t' || c = '\n' || c = '\r'

def startsComment (c : Char) : Bool := c = '#' || c = ';'

/-- The character that is written with a backslash. -/
def unescapeConfig (c : Char) : Option Char :=
  if c = 't' then some '\t'
  else if c = 'b' then some '\x08'
  else if c = 'n' then some '\n'
  else if c = '\\' ∨ c = '"' then some c
  else none

/-! ## Values -/

/-- A value that is being read. The blanks count when something follows them. -/
structure ConfigValue where
  quote : Bool := false
  escape : Bool := false
  comment : Bool := false
  begun : Bool := false
  text : List Char := []
  blanks : List Char := []
  deriving DecidableEq, Repr

/-- How a value goes on at the end of a line. -/
inductive ConfigEnding where
  | continues (v : ConfigValue)
  | ends (text : List Char)
  | broken

namespace ConfigValue

def add (v : ConfigValue) (c : Char) : ConfigValue :=
  { v with text := v.text ++ v.blanks ++ [c], blanks := [], begun := true }

def commit (v : ConfigValue) : ConfigValue :=
  { v with text := v.text ++ v.blanks, blanks := [] }

def step (v : ConfigValue) (c : Char) : Option ConfigValue :=
  if v.comment then some v
  else if v.escape then (unescapeConfig c).map fun e => { v with escape := false }.add e
  else if isConfigBlank c && !v.quote then
    some (if v.begun then { v with blanks := v.blanks ++ [c] } else v)
  else if startsComment c && !v.quote then some { v with comment := true }
  else if c = '\\' then some { v.commit with escape := true }
  else if c = '"' then some { v.commit with quote := !v.quote }
  else some (v.add c)

def readChars (v : ConfigValue) (x : List Char) : Option ConfigValue := x.foldlM step v

def endLine (v : ConfigValue) : ConfigEnding :=
  if v.escape then .continues { v with escape := false }
  else if v.quote then .broken
  else .ends v.text

/-- The value, of which the line that it starts on is read. -/
def finish (v : ConfigValue) : List Line → Option (List Char)
  | [] => if v.quote then none else some v.text
  | x :: lines =>
      match v.endLine with
      | .ends text => some text
      | .broken => none
      | .continues v => (v.readChars x).bind fun v => v.finish lines

/-- The same value behind some text. -/
def behind (p : List Char) (v : ConfigValue) : ConfigValue := { v with text := p ++ v.text }

end ConfigValue

/-! ## Sections and keys -/

inductive ConfigMode where
  | between
  | comment
  | base
  | gap
  | sub
  | subEscape
  | close
  | key
  | blanks
  | value (v : ConfigValue)

/-- A configuration that is being read: the section, and the key of the item. -/
structure ConfigReader where
  mode : ConfigMode
  stem : List Char
  name : List Char

structure ConfigItem where
  stem : List Char
  name : List Char
  value : List Char
  deriving DecidableEq, Repr

def isKeyChar (c : Char) : Bool := c.isAlphanum || c = '-'

namespace ConfigReader

def start : ConfigReader := ⟨.between, [], []⟩

/-- What may stand behind a key. -/
def behindKey (r : ConfigReader) (c : Char) : Option ConfigReader :=
  if c = ' ' ∨ c = '\t' then some { r with mode := .blanks }
  else if c = '=' then some { r with mode := .value {} }
  else none

def step (r : ConfigReader) (c : Char) : Option ConfigReader :=
  match r.mode with
  | .between =>
      if isConfigBlank c then some r
      else if startsComment c then some { r with mode := .comment }
      else if c = '[' then some { r with mode := .base, stem := [] }
      else if c.isAlpha then some { r with mode := .key, name := [c.toLower] }
      else none
  | .comment => some r
  | .base =>
      if c = ']' then some { r with mode := .between }
      else if isConfigBlank c then some { r with mode := .gap }
      else if isKeyChar c || c = '.' then some { r with stem := r.stem ++ [c.toLower] }
      else none
  | .gap =>
      if isConfigBlank c then some r
      else if c = '"' then some { r with mode := .sub, stem := r.stem ++ ['.'] }
      else none
  | .sub =>
      if c = '"' then some { r with mode := .close }
      else if c = '\\' then some { r with mode := .subEscape }
      else some { r with stem := r.stem ++ [c] }
  | .subEscape => some { r with mode := .sub, stem := r.stem ++ [c] }
  | .close => if c = ']' then some { r with mode := .between } else none
  | .key =>
      if isKeyChar c then some { r with name := r.name ++ [c.toLower] } else r.behindKey c
  | .blanks => r.behindKey c
  | .value v => (v.step c).map fun v => { r with mode := .value v }

def readChars (r : ConfigReader) (x : List Char) : Option ConfigReader := x.foldlM step r

/-- The end of a line. A header ends on its line, and a key without a value is no item. -/
def endLine (r : ConfigReader) : Option ConfigReader :=
  match r.mode with
  | .between | .comment | .key | .blanks => some { r with mode := .between }
  | .base | .gap | .sub | .subEscape | .close => none
  | .value v =>
      match v.endLine with
      | .ends _ => some { r with mode := .between }
      | .broken => none
      | .continues v => some { r with mode := .value v }

def readLine (r : ConfigReader) (x : Line) : Option ConfigReader := (r.readChars x).bind endLine

/-- The item whose key stands on a line. -/
def itemAt (r : ConfigReader) (x : Line) (lines : List Line) : Option ConfigItem :=
  match r.mode with
  | .between =>
      (r.readChars x).bind fun r =>
        match r.mode with
        | .value v => (v.finish lines).map fun value => ⟨r.stem, r.name, value⟩
        | _ => none
  | _ => none

/-- For each line the item whose key stands on it; no item behind what is broken. -/
def items : Option ConfigReader → List Line → List (Option ConfigItem)
  | _, [] => []
  | r, x :: lines =>
      (r.bind fun r => r.itemAt x lines) :: items (r.bind fun r => r.readLine x) lines

end ConfigReader

/-- A mark at the start of a text is skipped. -/
def skipMark : List Line → List Line
  | ('\ufeff' :: x) :: lines => x :: lines
  | lines => lines

theorem skipMark_of_head {x : Line} (h : x.head? ≠ some '\ufeff') (lines : List Line) :
    skipMark (x :: lines) = x :: lines := by
  unfold skipMark
  split
  · rename_i y lines' heq
    cases heq
    exact absurd rfl h
  · rfl

theorem length_skipMark (lines : List Line) : (skipMark lines).length = lines.length := by
  unfold skipMark
  split <;> rfl

/-- The items of a configuration, by lines. -/
def configItems (lines : List Line) : List (Option ConfigItem) :=
  ConfigReader.items (some .start) (skipMark lines)

/-! ## A value behind some text -/

namespace ConfigValue

theorem step_behind (p : List Char) (v : ConfigValue) (c : Char) :
    (v.behind p).step c = (v.step c).map (behind p) := by
  have hquote : (v.behind p).quote = v.quote := rfl
  have hcomment : (v.behind p).comment = v.comment := rfl
  have hescape : (v.behind p).escape = v.escape := rfl
  have hbegun : (v.behind p).begun = v.begun := rfl
  unfold step
  rw [hquote, hcomment, hescape, hbegun]
  split_ifs <;> simp [behind, add, commit, Function.comp_def]

theorem readChars_append (v : ConfigValue) (x y : List Char) :
    v.readChars (x ++ y) = (v.readChars x).bind fun v => v.readChars y := List.foldlM_append

theorem readChars_cons (v : ConfigValue) (c : Char) (x : List Char) :
    v.readChars (c :: x) = (v.step c).bind fun v => v.readChars x := List.foldlM_cons

theorem readChars_behind (p : List Char) (v : ConfigValue) (x : List Char) :
    (v.behind p).readChars x = (v.readChars x).map (behind p) := by
  induction x generalizing v with
  | nil => rfl
  | cons c x ih =>
      rw [readChars_cons, readChars_cons, step_behind]
      cases v.step c with
      | none => rfl
      | some u => exact ih u

theorem finish_behind (p : List Char) (v : ConfigValue) (lines : List Line) :
    (v.behind p).finish lines = (v.finish lines).map (p ++ ·) := by
  induction lines generalizing v with
  | nil =>
      rw [finish, finish]
      change (if v.quote then none else some (p ++ v.text)) = _
      split <;> rfl
  | cons x lines ih =>
      have hend : (v.behind p).endLine = match v.endLine with
          | .continues v => .continues (v.behind p)
          | .ends text => .ends (p ++ text)
          | .broken => .broken := by
        unfold endLine behind
        dsimp only
        split_ifs <;> rfl
      rw [finish, finish, hend]
      cases v.endLine with
      | continues u =>
          dsimp only
          rw [readChars_behind]
          cases u.readChars x with
          | none => rfl
          | some w => exact ih w
      | ends text => rfl
      | broken => rfl

/-- Nothing is read in a comment. -/
theorem readChars_of_comment {v : ConfigValue} (h : v.comment = true) (x : List Char) :
    v.readChars x = some v := by
  induction x with
  | nil => rfl
  | cons c x ih =>
      rw [readChars_cons, step, if_pos h]
      exact ih

/-- What is read is what is written, and characters that are written with a backslash. -/
theorem step_text {v u : ConfigValue} {c : Char} (h : v.step c = some u) :
    ∃ x, u.text ++ u.blanks = v.text ++ v.blanks ++ x ∧
      ∀ d ∈ x, d = c ∨ d ∈ ['\t', '\x08', '\n', '\\', '"'] := by
  unfold step at h
  split_ifs at h
  · cases h
    exact ⟨[], by simp⟩
  · obtain ⟨e, he, rfl⟩ := Option.map_eq_some_iff.1 h
    refine ⟨[e], by simp [add], fun d hd => .inr ?_⟩
    obtain rfl : d = e := by simpa using hd
    unfold unescapeConfig at he
    split_ifs at he with _ _ _ hself
    · cases he
      decide
    · cases he
      decide
    · cases he
      decide
    · cases he
      rcases hself with rfl | rfl <;> decide
  · cases h
    exact ⟨[c], by simp, by simp⟩
  · cases h
    exact ⟨[], by simp⟩
  · cases h
    exact ⟨[], by simp⟩
  · cases h
    exact ⟨[], by simp [commit]⟩
  · cases h
    exact ⟨[], by simp [commit]⟩
  · cases h
    exact ⟨[c], by simp [add], by simp⟩

theorem readChars_text {v u : ConfigValue} {x : List Char} (h : v.readChars x = some u) :
    ∃ y, u.text ++ u.blanks = v.text ++ v.blanks ++ y ∧
      ∀ d ∈ y, d ∈ x ∨ d ∈ ['\t', '\x08', '\n', '\\', '"'] := by
  induction x generalizing v with
  | nil =>
      cases h
      exact ⟨[], by simp⟩
  | cons c x ih =>
      rw [readChars_cons, Option.bind_eq_some_iff] at h
      obtain ⟨w, hw, h⟩ := h
      obtain ⟨y, hy, hyc⟩ := step_text hw
      obtain ⟨z, hz, hzc⟩ := ih h
      refine ⟨y ++ z, by rw [hz, hy, List.append_assoc], fun d hd => ?_⟩
      rcases List.mem_append.1 hd with hd | hd
      · rcases hyc d hd with rfl | he
        · exact .inl (.head _)
        · exact .inr he
      · rcases hzc d hd with hm | he
        · exact .inl (.tail _ hm)
        · exact .inr he

/-- A character that has no meaning of its own, even behind a backslash. -/
def IsPlain (c : Char) : Prop :=
  unescapeConfig c = none ∧ isConfigBlank c = false ∧ startsComment c = false ∧ c ≠ '\\' ∧ c ≠ '"'

/-- A plain character is added, where nothing is a comment. -/
theorem step_plain {v u : ConfigValue} {c : Char} (h : v.step c = some u)
    (hcomment : v.comment = false) (hplain : IsPlain c) : v.escape = false ∧ u = v.add c := by
  obtain ⟨hself, hblank, hstart, hback, hquote⟩ := hplain
  unfold step at h
  rw [hcomment, hblank, hstart] at h
  simp only [Bool.false_eq_true, if_false, Bool.false_and, hback, hquote] at h
  split at h
  · rw [hself] at h
    cases h
  · rename_i hescape
    cases h
    exact ⟨by simpa using hescape, rfl⟩

/-- Plain characters are added, and so are the blanks before them. -/
theorem readChars_plain {v u : ConfigValue} {c : Char} {x : List Char}
    (h : v.readChars (c :: x) = some u) (hcomment : v.comment = false)
    (hplain : ∀ d ∈ c :: x, IsPlain d) :
    u = ⟨v.quote, false, false, true, v.text ++ v.blanks ++ c :: x, []⟩ := by
  induction x generalizing v c with
  | nil =>
      rw [readChars_cons, Option.bind_eq_some_iff] at h
      obtain ⟨w, hw, ⟨⟩⟩ := h
      obtain ⟨hescape, rfl⟩ := step_plain hw hcomment (hplain c (.head _))
      rw [add, hescape, hcomment]
  | cons d x ih =>
      rw [readChars_cons, Option.bind_eq_some_iff] at h
      obtain ⟨w, hw, h⟩ := h
      obtain ⟨hescape, rfl⟩ := step_plain hw hcomment (hplain c (.head _))
      have hrest := ih h hcomment fun e he => hplain e (.tail _ he)
      rw [hrest]
      simp [add]

/-- A comment goes on. -/
theorem comment_of_readChars {v u : ConfigValue} {x : List Char} (h : v.readChars x = some u)
    (hu : u.comment = false) : v.comment = false := by
  cases hv : v.comment with
  | false => rfl
  | true =>
      rw [readChars_of_comment hv] at h
      rw [← Option.some.inj h, hv] at hu
      exact hu

end ConfigValue

/-! ## Two texts that differ inside of values -/

namespace ConfigReader

/-- The reader inside of a value. -/
def inside (r : ConfigReader) (v : ConfigValue) : ConfigReader := { r with mode := .value v }

theorem readChars_append (r : ConfigReader) (x y : List Char) :
    r.readChars (x ++ y) = (r.readChars x).bind fun r => r.readChars y := List.foldlM_append

theorem readChars_cons (r : ConfigReader) (c : Char) (x : List Char) :
    r.readChars (c :: x) = (r.step c).bind fun r => r.readChars x := List.foldlM_cons

theorem readChars_inside (r : ConfigReader) (v : ConfigValue) (x : List Char) :
    (r.inside v).readChars x = (v.readChars x).map r.inside := by
  induction x generalizing v with
  | nil => rfl
  | cons c x ih =>
      rw [readChars_cons, ConfigValue.readChars_cons]
      change ((v.step c).map r.inside).bind _ = _
      cases v.step c with
      | none => rfl
      | some u => exact ih u

/-- White space before a key is blanks, where something is read at all. -/
theorem readChars_indent {r : ConfigReader} (hmode : r.mode = .between) {x y : List Char}
    (hspace : ∀ c ∈ x, isSpace c = true) (h : r.readChars (x ++ y) ≠ none) (z : List Char) :
    r.readChars (x ++ z) = r.readChars z := by
  induction x with
  | nil => rfl
  | cons c x ih =>
      have hc := hspace c (.head _)
      have hstart : startsComment c = false := by
        unfold startsComment
        rw [Bool.or_eq_false_iff]
        constructor <;> refine decide_eq_false fun he => ?_
        · rw [he] at hc
          cases hc
        · rw [he] at hc
          cases hc
      have hopen : c ≠ '[' := by
        rintro rfl
        cases hc
      have halpha : c.isAlpha = false := by
        rw [Bool.eq_false_iff]
        intro halpha
        have hrange : 65 ≤ c.toNat ∧ c.toNat ≤ 122 := by
          simp [Char.isAlpha, Char.isUpper, Char.isLower, UInt32.le_iff_toNat_le] at halpha
          omega
        simp [isSpace] at hc
        omega
      have hstep : r.step c = if isConfigBlank c then some r else none := by
        unfold step
        rw [hmode]
        simp [hstart, hopen, halpha]
      rw [List.cons_append, readChars_cons, hstep] at h ⊢
      split at h
      · rename_i hblank
        rw [if_pos hblank, Option.bind_some]
        exact ih (fun d hd => hspace d (.tail _ hd)) h
      · exact absurd rfl h

section alike

variable {cut : Line → Line → List Char → List Char → Prop}

/-- Two lines that are read alike, but for what the value is behind. -/
def CutAt (cut : Line → Line → List Char → List Char → Prop) (r : Option ConfigReader)
    (x y : Line) : Prop :=
  ∃ (r₀ r₁ : ConfigReader) (v : ConfigValue) (p q : List Char),
    r = some r₀ ∧ r₀.mode = .between ∧ cut x y p q ∧
    r₀.readChars x = some (inside r₁ (v.behind p)) ∧
    r₀.readChars y = some (inside r₁ (v.behind q))

/-- Two texts whose lines are the same, or are read alike where an item starts. -/
def Alike (cut : Line → Line → List Char → List Char → Prop) :
    Option ConfigReader → List Line → List Line → Prop
  | _, [], [] => True
  | r, x :: xs, y :: ys =>
      (x = y ∨ CutAt cut r x y) ∧ Alike cut (r.bind fun r => r.readLine x) xs ys
  | _, _, _ => False

/-- Readers that are at the same place, maybe inside of two values that go on alike. -/
def Near (r s : Option ConfigReader) : Prop :=
  r = s ∨ ∃ (r₁ : ConfigReader) (v : ConfigValue) (p q : List Char),
    r = some (inside r₁ (v.behind p)) ∧ s = some (inside r₁ (v.behind q))

theorem not_cutAt_inside {r : ConfigReader} {v : ConfigValue} {x y : Line} :
    ¬ CutAt cut (some (r.inside v)) x y := by
  rintro ⟨r₀, -, -, -, -, h, hmode, -⟩
  rw [← Option.some.inj h] at hmode
  cases hmode

theorem near_endLine (r : ConfigReader) (v : ConfigValue) (p q : List Char) :
    Near (r.inside (v.behind p)).endLine (r.inside (v.behind q)).endLine := by
  unfold endLine inside ConfigValue.endLine
  dsimp only [ConfigValue.behind]
  cases v.escape with
  | true => exact .inr ⟨r, { v with escape := false }, p, q, rfl, rfl⟩
  | false =>
      left
      cases v.quote <;> rfl

/-- A value ends alike in both texts. -/
theorem finish_of_alike {r : ConfigReader} {v : ConfigValue} {xs ys : List Line}
    (h : Alike cut (r.inside v).endLine xs ys) : v.finish xs = v.finish ys := by
  induction xs generalizing v ys with
  | nil =>
      cases ys with
      | nil => rfl
      | cons y ys => exact h.elim
  | cons x xs ih =>
      cases ys with
      | nil => exact h.elim
      | cons y ys =>
          obtain ⟨hxy, htail⟩ := h
          rw [ConfigValue.finish, ConfigValue.finish]
          cases hend : v.endLine with
          | ends text => rfl
          | broken => rfl
          | continues w =>
              have hline : (r.inside v).endLine = some (r.inside w) := by
                rw [endLine, inside]
                dsimp only
                rw [hend]
                rfl
              rw [hline] at hxy htail
              obtain rfl : x = y := hxy.resolve_right not_cutAt_inside
              dsimp only
              rw [Option.bind_some, readLine, readChars_inside] at htail
              cases hread : w.readChars x with
              | none => rfl
              | some u =>
                  rw [hread] at htail
                  exact ih htail

/-- What two texts have on a line: the same item, or one value behind two texts. -/
def SameRow (cut : Line → Line → List Char → List Char → Prop) (x y : Line)
    (i j : Option ConfigItem) : Prop :=
  (x = y ∧ i = j) ∨ ∃ stem name p q, ∃ rest : Option (List Char), cut x y p q ∧
    i = rest.map (fun t => ⟨stem, name, p ++ t⟩) ∧ j = rest.map fun t => ⟨stem, name, q ++ t⟩

theorem length_items (r : Option ConfigReader) (lines : List Line) :
    (items r lines).length = lines.length := by
  induction lines generalizing r with
  | nil => rfl
  | cons x lines ih => exact congrArg Nat.succ (ih _)

theorem itemAt_of_read {r r₁ : ConfigReader} {v : ConfigValue} {x : Line} (lines : List Line)
    (hmode : r.mode = .between) (h : r.readChars x = some (inside r₁ v)) :
    r.itemAt x lines = (v.finish lines).map fun t => ⟨r₁.stem, r₁.name, t⟩ := by
  rw [itemAt, hmode]
  dsimp only
  rw [h]
  rfl

theorem itemAt_eq_none {r : ConfigReader} {x : Line} {lines : List Line}
    (h : ∀ r₁ v, r.readChars x ≠ some (inside r₁ v)) : r.itemAt x lines = none := by
  unfold itemAt
  split
  · cases hread : r.readChars x with
    | none => rfl
    | some r₁ =>
        rw [Option.bind_some]
        split
        · rename_i v hmode
          exact absurd hread (by
            rw [show r₁ = r₁.inside v by rw [inside, ← hmode]]
            exact h r₁ v)
        · rfl
  · rfl

/-- A line that an item starts on is read up to the value. -/
theorem exists_of_itemAt {r : ConfigReader} {x : Line} {lines : List Line} {i : ConfigItem}
    (h : r.itemAt x lines = some i) :
    r.mode = .between ∧ ∃ r₁ v, r.readChars x = some (inside r₁ v) := by
  constructor
  · unfold itemAt at h
    split at h
    · assumption
    · cases h
  · by_contra hnone
    push Not at hnone
    rw [itemAt_eq_none hnone] at h
    cases h

theorem itemAt_of_alike {r : ConfigReader} {x : Line} {xs ys : List Line}
    (h : Alike cut (r.readLine x) xs ys) : r.itemAt x xs = r.itemAt x ys := by
  by_cases hread : ∃ r₁ v, r.readChars x = some (inside r₁ v)
  · obtain ⟨r₁, v, hread⟩ := hread
    cases hmode : r.mode with
    | between =>
        rw [readLine, hread, Option.bind_some] at h
        rw [itemAt_of_read xs hmode hread, itemAt_of_read ys hmode hread, finish_of_alike h]
    | _ =>
        unfold itemAt
        rw [hmode]
  · push Not at hread
    rw [itemAt_eq_none hread, itemAt_eq_none hread]

/-- A value that two texts go on alike is what follows it, behind what it has. -/
theorem itemAt_of_cut {r r₁ : ConfigReader} {v : ConfigValue} {p q : List Char} {x y : Line}
    {xs ys : List Line} (hmode : r.mode = .between)
    (hx : r.readChars x = some (inside r₁ (v.behind p)))
    (hy : r.readChars y = some (inside r₁ (v.behind q))) (h : Alike cut (r.readLine x) xs ys) :
    r.itemAt x xs = (v.finish xs).map (fun t => ⟨r₁.stem, r₁.name, p ++ t⟩) ∧
      r.itemAt y ys = (v.finish xs).map fun t => ⟨r₁.stem, r₁.name, q ++ t⟩ := by
  rw [readLine, hx, Option.bind_some] at h
  have hfinish : v.finish xs = v.finish ys := by
    have hsame := finish_of_alike h
    rw [ConfigValue.finish_behind, ConfigValue.finish_behind] at hsame
    exact Option.map_injective (List.append_right_injective p) hsame
  rw [itemAt_of_read xs hmode hx, itemAt_of_read ys hmode hy, ConfigValue.finish_behind,
    ConfigValue.finish_behind, ← hfinish, Option.map_map, Option.map_map]
  exact ⟨rfl, rfl⟩

/-- The items of two texts that differ only inside of values. -/
theorem items_of_alike {r s : Option ConfigReader} {xs ys : List Line} (h : Alike cut r xs ys)
    (hnear : Near r s) {n : ℕ} {x y : Line} (hx : xs[n]? = some x) (hy : ys[n]? = some y) :
    ∃ i j, (items r xs)[n]? = some i ∧ (items s ys)[n]? = some j ∧ SameRow cut x y i j := by
  induction xs generalizing r s ys n with
  | nil => cases hx
  | cons x₀ xs ih =>
      cases ys with
      | nil => cases hy
      | cons y₀ ys =>
          obtain ⟨hxy, htail⟩ := h
          have hstep : Near (r.bind fun r => r.readLine x₀) (s.bind fun r => r.readLine y₀) ∧
              SameRow cut x₀ y₀ (r.bind fun r => r.itemAt x₀ xs)
                (s.bind fun r => r.itemAt y₀ ys) := by
            rcases hnear with rfl | ⟨r₁, v, p, q, rfl, rfl⟩
            · rcases hxy with rfl | ⟨r₀, r₁, v, p, q, rfl, hmode, hcut, hxread, hyread⟩
              · refine ⟨.inl rfl, .inl ⟨rfl, ?_⟩⟩
                cases r with
                | none => rfl
                | some r => exact itemAt_of_alike htail
              · obtain ⟨hi, hj⟩ := itemAt_of_cut hmode hxread hyread htail
                refine ⟨?_, .inr ⟨r₁.stem, r₁.name, p, q, v.finish xs, hcut, hi, hj⟩⟩
                rw [Option.bind_some, Option.bind_some, readLine, readLine, hxread, hyread]
                exact near_endLine r₁ v p q
            · obtain rfl : x₀ = y₀ := hxy.resolve_right not_cutAt_inside
              refine ⟨?_, .inl ⟨rfl, rfl⟩⟩
              rw [Option.bind_some, Option.bind_some, readLine, readLine, readChars_inside,
                readChars_inside, ConfigValue.readChars_behind, ConfigValue.readChars_behind]
              cases v.readChars x₀ with
              | none => exact .inl rfl
              | some u => exact near_endLine r₁ u p q
          cases n with
          | zero =>
              cases hx
              cases hy
              exact ⟨_, _, rfl, rfl, hstep.2⟩
          | succ n => exact ih htail hstep.1 hx hy

end alike

end ConfigReader

theorem length_configItems (lines : List Line) : (configItems lines).length = lines.length := by
  rw [configItems, ConfigReader.length_items, length_skipMark]

end Text
