import Wheel.Text.SqlTokens
import Mathlib

/-!
# Statements of SQL with bare names

The lexemes of an SQL text without comments, the words that sqlite does not take for a bare name,
and the statements that create, extend, read and write a table: each is the list of lexemes that
the production of the grammar gives for its names, columns and clauses.
-/

namespace Sql

open Text

/-! ## Lexemes -/

/-- A lexeme. What starts with a digit is a number, or nothing that the grammar knows. -/
inductive Lexeme where
  | word (x : List Char)
  | number (x : List Char)
  | variable (x : List Char)
  | string (x : List Char)
  | sign (c : Char)
  deriving DecidableEq, Repr

def isWordStart (c : Char) : Bool := c.isAlpha || c = '_' || 128 ≤ c.toNat

def isWordChar (c : Char) : Bool := isWordStart c || c.isDigit || c = '$'

/-- The first lexeme of a text that starts with `c`, if it is not white space, and what follows. -/
def readLexeme (c : Char) (x : List Char) : Option Lexeme × List Char :=
  if isSqlSpace c then (none, x)
  else if isWordStart c then
    (some (.word (c :: x.takeWhile isWordChar)), x.dropWhile isWordChar)
  else if c.isDigit then (some (.number (c :: x.takeWhile isWordChar)), x.dropWhile isWordChar)
  else if c = '?' then (some (.variable (x.takeWhile Char.isDigit)), x.dropWhile Char.isDigit)
  else if c = '\x27' then (some (.string (c :: (splitQuoted c x).1)), (splitQuoted c x).2)
  else (some (.sign c), x)

theorem length_readLexeme (c : Char) (x : List Char) : (readLexeme c x).2.length ≤ x.length := by
  have hdrop : ∀ p : Char → Bool, (x.dropWhile p).length ≤ x.length :=
    fun p => (List.dropWhile_suffix p).sublist.length_le
  have hquoted : (splitQuoted c x).2.length ≤ x.length := by
    conv_rhs => rw [← splitQuoted_append c x]
    rw [List.length_append]
    exact Nat.le_add_left _ _
  unfold readLexeme
  split_ifs
  · exact Nat.le_refl _
  · exact hdrop _
  · exact hdrop _
  · exact hdrop _
  · exact hquoted
  · exact Nat.le_refl _

/-- The lexemes of a text of at most `n` characters. -/
def lexemesWithin : ℕ → List Char → List Lexeme
  | 0, _ => []
  | _ + 1, [] => []
  | n + 1, c :: x => (readLexeme c x).1.toList ++ lexemesWithin n (readLexeme c x).2

def lexemes (x : List Char) : List Lexeme := lexemesWithin x.length x

theorem lexemesWithin_eq {n : ℕ} {x : List Char} (h : x.length ≤ n) :
    lexemesWithin n x = lexemes x := by
  have hsame : ∀ n m : ℕ, ∀ x : List Char, x.length ≤ n → x.length ≤ m →
      lexemesWithin n x = lexemesWithin m x := by
    intro n
    induction n with
    | zero =>
        intro m x hn hm
        obtain rfl := List.length_eq_zero_iff.1 (Nat.le_zero.1 hn)
        cases m <;> rfl
    | succ n ih =>
        intro m x hn hm
        cases x with
        | nil => cases m <;> rfl
        | cons c x =>
            cases m with
            | zero => cases hm
            | succ m =>
                have hrest := length_readLexeme c x
                rw [List.length_cons] at hn hm
                rw [lexemesWithin, lexemesWithin, ih m _ (by omega) (by omega)]
  exact hsame n x.length x h (Nat.le_refl _)

theorem lexemes_nil : lexemes [] = [] := rfl

theorem lexemes_cons (c : Char) (x : List Char) :
    lexemes (c :: x) = (readLexeme c x).1.toList ++ lexemes (readLexeme c x).2 := by
  rw [lexemes, List.length_cons, lexemesWithin, lexemesWithin_eq (length_readLexeme c x)]

/-- A text is cut as far as it goes where what follows it does not go on with its last lexeme. -/
structure Cut (x y : List Char) : Prop where
  unquoted : '\x27' ∉ x
  apart : (∀ c, x.getLast? = some c → isWordChar c = false ∧ c ≠ '?') ∨
    ∀ c, y.head? = some c → isWordChar c = false

theorem isWordChar_of_isDigit {c : Char} (h : c.isDigit = true) : isWordChar c = true := by
  rw [isWordChar, h, Bool.or_true, Bool.true_or]

theorem isWordChar_of_isWordStart {c : Char} (h : isWordStart c = true) : isWordChar c = true := by
  rw [isWordChar, h, Bool.true_or, Bool.true_or]

/-- What is taken from a text is not taken from what follows it. -/
theorem span_append {p : Char → Bool} {x y : List Char}
    (h : (∃ c, x.getLast? = some c ∧ p c = false) ∨ ∀ c, y.head? = some c → p c = false) :
    (x ++ y).takeWhile p = x.takeWhile p ∧ (x ++ y).dropWhile p = x.dropWhile p ++ y := by
  induction x with
  | nil =>
      rcases h with ⟨c, hc, -⟩ | h
      · cases hc
      · cases y with
        | nil => exact ⟨rfl, rfl⟩
        | cons c y =>
            have hc := h c rfl
            simp [hc]
  | cons c x ih =>
      cases hc : p c with
      | false => simp [hc]
      | true =>
          have htail : (∃ d, x.getLast? = some d ∧ p d = false) ∨
              ∀ d, y.head? = some d → p d = false := by
            rcases h with ⟨d, hd, hp⟩ | h
            · cases x with
              | nil =>
                  obtain rfl : c = d := Option.some_inj.1 hd
                  exact absurd (hc.symm.trans hp) (by simp)
              | cons e x => exact .inl ⟨d, by simpa using hd, hp⟩
            · exact .inr h
          simp [hc, ih htail]

theorem Cut.of_suffix {x y z : List Char} (h : Cut x y) (hz : z <:+ x) : Cut z y where
  unquoted := fun hmem => h.unquoted (hz.subset hmem)
  apart := by
    rcases h.apart with hx | hy
    · left
      intro c hc
      obtain ⟨w, rfl⟩ := hz
      exact hx c (by rw [List.getLast?_append, hc]; rfl)
    · exact .inr hy

/-- A run of characters that a lexeme starts ends with the text, or before it. -/
theorem Cut.span {c : Char} {x y : List Char} {p : Char → Bool} (h : Cut (c :: x) y)
    (hc : isWordChar c = true ∨ c = '?') (hp : ∀ d, p d = true → isWordChar d = true) :
    (x ++ y).takeWhile p = x.takeWhile p ∧ (x ++ y).dropWhile p = x.dropWhile p ++ y := by
  have hfalse : ∀ {d}, isWordChar d = false → p d = false := by
    intro d hd
    rw [Bool.eq_false_iff] at hd ⊢
    exact fun hpd => hd (hp d hpd)
  apply span_append
  rcases h.apart with hx | hy
  · left
    cases x with
    | nil =>
        have hlast := hx c rfl
        rcases hc with hc | rfl
        · exact absurd hc (Bool.eq_false_iff.1 hlast.1)
        · exact absurd rfl hlast.2
    | cons d x =>
        have he := List.getLast?_eq_some_getLast (List.cons_ne_nil d x)
        refine ⟨_, he, hfalse (hx _ ?_).1⟩
        rw [List.getLast?_cons_cons]
        exact he
  · exact .inr fun d hd => hfalse (hy d hd)

theorem readLexeme_suffix {c : Char} {x : List Char} (hc : c ≠ '\x27') :
    (readLexeme c x).2 <:+ x := by
  unfold readLexeme
  split_ifs
  · exact List.suffix_refl x
  · exact List.dropWhile_suffix _
  · exact List.dropWhile_suffix _
  · exact List.dropWhile_suffix _
  · exact List.suffix_refl x

/-- The first lexeme of a text that is cut is read as from the text alone. -/
theorem readLexeme_append {c : Char} {x y : List Char} (h : Cut (c :: x) y) :
    readLexeme c (x ++ y) = ((readLexeme c x).1, (readLexeme c x).2 ++ y) := by
  have hquote : c ≠ '\x27' := by
    rintro rfl
    exact h.unquoted List.mem_cons_self
  unfold readLexeme
  split_ifs with hspace hword hdigit hvar
  · rfl
  · have hspan := h.span (.inl (isWordChar_of_isWordStart hword)) fun _ hd => hd
    rw [hspan.1, hspan.2]
  · have hspan := h.span (.inl (isWordChar_of_isDigit hdigit)) fun _ hd => hd
    rw [hspan.1, hspan.2]
  · have hspan := h.span (p := Char.isDigit) (.inr hvar) fun _ hd => isWordChar_of_isDigit hd
    rw [hspan.1, hspan.2]
  · rfl

/-- The lexemes of a text that is cut are those of its parts. -/
theorem lexemes_append {x y : List Char} (h : Cut x y) :
    lexemes (x ++ y) = lexemes x ++ lexemes y := by
  induction hn : x.length using Nat.strong_induction_on generalizing x with
  | _ n ih =>
      cases x with
      | nil => rfl
      | cons c x =>
          have hquote : c ≠ '\x27' := by
            rintro rfl
            exact h.unquoted List.mem_cons_self
          have hsuffix : (readLexeme c x).2 <:+ c :: x :=
            (readLexeme_suffix hquote).trans (List.suffix_cons c x)
          have hlength : (readLexeme c x).2.length < n := by
            have := length_readLexeme c x
            rw [List.length_cons] at hn
            omega
          rw [List.cons_append, lexemes_cons, readLexeme_append h, lexemes_cons c x]
          dsimp only
          rw [ih _ hlength (h.of_suffix hsuffix) rfl, List.append_assoc]

/-! ## Names -/

/-- The words that sqlite takes for no name, whatever stands around them. -/
def reservedWords : List String :=
  ["add", "all", "alter", "and", "as", "autoincrement", "between", "case", "check", "collate",
    "commit", "constraint", "create", "default", "deferrable", "delete", "distinct", "drop",
    "else", "escape", "except", "exists", "foreign", "from", "group", "having", "in", "index",
    "insert", "intersect", "into", "is", "isnull", "join", "limit", "not", "nothing", "notnull",
    "null", "on", "or", "order", "primary", "references", "returning", "select", "set", "table",
    "then", "to", "transaction", "union", "unique", "update", "using", "values", "when", "where"]

/-- The words that start an expression of their own: each may name a column, and no expression
reads it. -/
def expressionWords : List String :=
  ["cast", "current_date", "current_time", "current_timestamp", "raise"]

def isWord : List Char → Bool
  | [] => false
  | c :: x => isWordStart c && x.all isWordChar

/-- A word that may stand where the grammar has a name. -/
def IsName (x : List Char) : Prop :=
  isWord x = true ∧ ∀ w ∈ reservedWords, x.map Char.toLower ≠ w.toList

/-- A name that an expression reads as the column. -/
def IsColumn (x : List Char) : Prop :=
  IsName x ∧ ∀ w ∈ expressionWords, x.map Char.toLower ≠ w.toList

instance (x : List Char) : Decidable (IsName x) := inferInstanceAs (Decidable (_ ∧ _))

instance (x : List Char) : Decidable (IsColumn x) := inferInstanceAs (Decidable (_ ∧ _))

theorem not_isSqlSpace_of_isWordStart {c : Char} (h : isWordStart c = true) :
    isSqlSpace c = false := by
  rw [Bool.eq_false_iff]
  intro hspace
  simp only [isSqlSpace, Bool.or_eq_true, decide_eq_true_eq] at hspace
  rcases hspace with (((rfl | rfl) | rfl) | rfl) | rfl <;> exact absurd h (by decide)

theorem isWordChar_of_mem {x : List Char} (h : isWord x = true) {c : Char} (hc : c ∈ x) :
    isWordChar c = true := by
  cases x with
  | nil => cases h
  | cons d x =>
      rw [isWord, Bool.and_eq_true] at h
      rcases List.mem_cons.1 hc with rfl | hc
      · exact isWordChar_of_isWordStart h.1
      · exact List.all_eq_true.1 h.2 c hc

theorem lexemes_word {x : List Char} (h : isWord x = true) : lexemes x = [.word x] := by
  cases x with
  | nil => cases h
  | cons c x =>
      rw [isWord, Bool.and_eq_true] at h
      have hspace := not_isSqlSpace_of_isWordStart h.1
      have htake : x.takeWhile isWordChar = x :=
        List.takeWhile_eq_self_iff.2 (List.all_eq_true.1 h.2)
      have hdrop : x.dropWhile isWordChar = [] :=
        List.dropWhile_eq_nil_iff.2 (List.all_eq_true.1 h.2)
      rw [lexemes_cons, readLexeme, if_neg (by simp [hspace]), if_pos h.1, htake, hdrop,
        lexemes_nil]
      rfl

theorem quote_not_mem_of_isWord {x : List Char} (h : isWord x = true) : '\x27' ∉ x := by
  intro hmem
  exact absurd (isWordChar_of_mem h hmem) (by decide)

/-! ## Where texts may be put together -/

/-- What follows the text does not go on with its last lexeme. -/
def endsApart (x : List Char) : Bool :=
  !x.contains '\x27' && x.getLast?.all fun c => !isWordChar c && c ≠ '?'

/-- The text does not go on with a lexeme. -/
def startsApart (y : List Char) : Bool := y.head?.all fun c => !isWordChar c

theorem lexemes_append_of_endsApart {x : List Char} (h : endsApart x = true) (y : List Char) :
    lexemes (x ++ y) = lexemes x ++ lexemes y := by
  rw [endsApart, Bool.and_eq_true] at h
  refine lexemes_append ⟨by simpa using h.1, .inl fun c hc => ?_⟩
  have hlast := h.2
  rw [hc, Option.all_some, Bool.and_eq_true] at hlast
  simpa using hlast

theorem lexemes_append_of_startsApart {x y : List Char} (hx : '\x27' ∉ x)
    (hy : startsApart y = true) : lexemes (x ++ y) = lexemes x ++ lexemes y := by
  refine lexemes_append ⟨hx, .inr fun c hc => ?_⟩
  rw [startsApart, hc] at hy
  simpa using hy

theorem lexemes_word_append {x y : List Char} (hx : isWord x = true) (hy : startsApart y = true) :
    lexemes (x ++ y) = .word x :: lexemes y := by
  rw [lexemes_append_of_startsApart (quote_not_mem_of_isWord hx) hy, lexemes_word hx]
  rfl

/-- A word, a text between and what follows. -/
theorem lexemes_word_between {x y : List Char} (hx : isWord x = true)
    (hy : y ≠ [] ∧ startsApart y = true ∧ endsApart y = true) (z : List Char) :
    lexemes (x ++ (y ++ z)) = .word x :: (lexemes y ++ lexemes z) := by
  rcases hy with ⟨hne, hstart, hend⟩
  have hapart : startsApart (y ++ z) = true := by
    obtain ⟨c, w, rfl⟩ := List.exists_cons_of_ne_nil hne
    exact hstart
  rw [lexemes_word_append hx hapart, lexemes_append_of_endsApart hend]

/-! ## Lists -/

/-- Items with commas between them. -/
def commaList : List (List Lexeme) → List Lexeme
  | [] => []
  | x :: xs => x ++ xs.flatMap (.sign ',' :: ·)

/-- The lexemes of a list of items that are written with commas between them. -/
theorem lexemes_intercalate {items : List (List Char)} (f : List Char → List Lexeme)
    (hitem : ∀ x ∈ items, '\x27' ∉ x ∧ lexemes x = f x) {y : List Char}
    (hy : startsApart y = true) :
    lexemes ([','].intercalate items ++ y) = commaList (items.map f) ++ lexemes y := by
  induction items with
  | nil => rfl
  | cons x items ih =>
      rcases hitem x (.head _) with ⟨hquote, hlex⟩
      have hrest : ∀ z ∈ items, '\x27' ∉ z ∧ lexemes z = f z := fun z hz => hitem z (.tail _ hz)
      cases items with
      | nil =>
          rw [List.intercalate_singleton, lexemes_append_of_startsApart hquote hy, hlex]
          simp [commaList]
      | cons z items =>
          have hcomma : ∀ w, lexemes (',' :: w) = .sign ',' :: lexemes w := by
            intro w
            rw [lexemes_cons]
            rfl
          rw [List.intercalate_cons_cons, List.append_assoc, List.append_assoc,
            lexemes_append_of_startsApart hquote rfl, hlex, List.singleton_append, hcomma,
            ih hrest]
          simp [commaList]

/-! ## Statements -/

def keyword (s : String) : Lexeme := .word s.toList

def parens (x : List Lexeme) : List Lexeme := .sign '(' :: x ++ [.sign ')']

/-- A column with what its declaration says of it. -/
structure ColumnDef where
  name : List Char
  type : List Char
  primaryKey : Bool

namespace ColumnDef

def Valid (d : ColumnDef) : Prop := IsName d.name ∧ IsName d.type

def lexemes (d : ColumnDef) : List Lexeme :=
  .word d.name :: .word d.type :: if d.primaryKey then [keyword "PRIMARY", keyword "KEY"] else []

end ColumnDef

/-- A statement that creates a table with the columns, unless it is `guarded` and there is one. -/
def IsCreateTable (l : List Lexeme) (guarded : Bool) (table : List Char)
    (columns : List ColumnDef) : Prop :=
  IsName table ∧ columns ≠ [] ∧ (∀ d ∈ columns, d.Valid) ∧
    (columns.map fun d => d.name.map Char.toLower).Nodup ∧
    l = keyword "CREATE" :: keyword "TABLE" ::
      (if guarded then [keyword "IF", keyword "NOT", keyword "EXISTS"] else []) ++
      .word table :: parens (commaList (columns.map ColumnDef.lexemes))

/-- A statement that adds a column to a table. -/
def IsAddColumn (l : List Lexeme) (table : List Char) (d : ColumnDef) : Prop :=
  IsName table ∧ d.Valid ∧
    l = [keyword "ALTER", keyword "TABLE", .word table, keyword "ADD", keyword "COLUMN"] ++
      d.lexemes

/-- Which rows are read: a column is a variable, or like one. -/
inductive Condition where
  | equals (column bound : List Char)
  | like (column bound escape : List Char)

def Condition.column : Condition → List Char
  | equals c _ => c
  | like c _ _ => c

def Condition.lexemes : Condition → List Lexeme
  | equals c v => [keyword "WHERE", .word c, .sign '=', .variable v]
  | like c v e =>
      [keyword "WHERE", .word c, keyword "LIKE", .variable v, keyword "ESCAPE", .string e]

/-- A column to order by, and the variables of a limit and an offset. -/
structure Window where
  column : List Char
  limit : List Char
  offset : List Char

def Window.lexemes (w : Window) : List Lexeme :=
  [keyword "ORDER", keyword "BY", .word w.column, keyword "LIMIT", .variable w.limit,
    keyword "OFFSET", .variable w.offset]

/-- A statement that reads the columns of a table. -/
def IsSelect (l : List Lexeme) (columns : List (List Char)) (table : List Char)
    (condition : Option Condition) (window : Option Window) : Prop :=
  columns ≠ [] ∧ (∀ c ∈ columns, IsColumn c) ∧ IsName table ∧
    (∀ c ∈ condition, IsColumn c.column) ∧ (∀ w ∈ window, IsColumn w.column) ∧
    l = keyword "SELECT" :: commaList (columns.map fun c => [.word c]) ++
      keyword "FROM" :: .word table :: (condition.elim [] Condition.lexemes ++
        window.elim [] Window.lexemes)

/-- A statement that writes the columns of a row, and updates some of them where there is one with
the key. -/
def IsUpsert (l : List Lexeme) (table : List Char) (columns : List (List Char)) (key : List Char)
    (updated : List (List Char)) : Prop :=
  IsName table ∧ columns ≠ [] ∧ (∀ c ∈ columns, IsName c) ∧ IsColumn key ∧
    (∀ c ∈ updated, IsName c) ∧
    l = keyword "INSERT" :: keyword "INTO" :: .word table ::
      parens (commaList (columns.map fun c => [.word c])) ++
      keyword "VALUES" :: parens (commaList (columns.map fun _ => [.variable []])) ++
      keyword "ON" :: keyword "CONFLICT" :: parens [.word key] ++
      keyword "DO" ::
        if updated = [] then [keyword "NOTHING"]
        else keyword "UPDATE" :: keyword "SET" :: commaList (updated.map fun c =>
          [.word c, .sign '=', keyword "excluded", .sign '.', .word c])

end Sql
