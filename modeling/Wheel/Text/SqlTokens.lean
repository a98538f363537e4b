import Mathlib.Data.List.TakeWhile

/-!
# The tokens of an SQL text

How sqlite cuts a text into tokens, as far as its statements go: strings in single quotes, names in
double quotes, backticks or brackets, comments of both kinds, semicolons, and all else by the
character. A quote that is doubled does not end what it is in, and what is not ended runs to the
end of the text.
-/

namespace Text

inductive SqlKind where
  | space
  | comment
  | quoted
  | name
  | semicolon
  | other
  deriving DecidableEq, Repr

structure SqlToken where
  kind : SqlKind
  text : List Char
  deriving DecidableEq, Repr

def isSqlSpace (c : Char) : Bool :=
  c = ' ' || c = '\t' || c = '\n' || c = '\x0c' || c = '\r'

/-- The rest of what is in quotes, with the quote that ends it, and what follows. -/
def splitQuoted (d : Char) : List Char → List Char × List Char
  | [] => ([], [])
  | [c] => ([c], [])
  | c :: e :: x =>
      if c = d then
        if e = d then (c :: e :: (splitQuoted d x).1, (splitQuoted d x).2) else ([c], e :: x)
      else (c :: (splitQuoted d (e :: x)).1, (splitQuoted d (e :: x)).2)

/-- The rest of a comment, with `*/`, and what follows. -/
def splitBlock : List Char → List Char × List Char
  | [] => ([], [])
  | [c] => ([c], [])
  | c :: e :: x =>
      if c = '*' ∧ e = '/' then ([c, e], x)
      else (c :: (splitBlock (e :: x)).1, (splitBlock (e :: x)).2)

/-- The rest of a name, with the `]`, and what follows. -/
def splitBracket : List Char → List Char × List Char
  | [] => ([], [])
  | c :: x => if c = ']' then ([c], x) else (c :: (splitBracket x).1, (splitBracket x).2)

/-- The rest of a line, and what follows. -/
def splitLine (x : List Char) : List Char × List Char :=
  (x.takeWhile (· ≠ '\n'), x.dropWhile (· ≠ '\n'))

/-- The first token of a text that starts with `c`, and what follows. -/
def readToken (c : Char) (x : List Char) : SqlToken × List Char :=
  if c = '-' ∧ x.head? = some '-' then (⟨.comment, c :: (splitLine x).1⟩, (splitLine x).2)
  else if c = '/' ∧ x.head? = some '*' then
    (⟨.comment, c :: '*' :: (splitBlock x.tail).1⟩, (splitBlock x.tail).2)
  else if c = '\'' ∨ c = '"' then (⟨.quoted, c :: (splitQuoted c x).1⟩, (splitQuoted c x).2)
  else if c = '`' then (⟨.name, c :: (splitQuoted c x).1⟩, (splitQuoted c x).2)
  else if c = '[' then (⟨.name, c :: (splitBracket x).1⟩, (splitBracket x).2)
  else if c = ';' then (⟨.semicolon, [c]⟩, x)
  else if isSqlSpace c then (⟨.space, [c]⟩, x)
  else (⟨.other, [c]⟩, x)

theorem splitQuoted_append (d : Char) (x : List Char) :
    (splitQuoted d x).1 ++ (splitQuoted d x).2 = x := by
  fun_induction splitQuoted d x <;> simp_all

theorem splitBlock_append (x : List Char) : (splitBlock x).1 ++ (splitBlock x).2 = x := by
  fun_induction splitBlock x <;> simp_all

theorem splitBracket_append (x : List Char) : (splitBracket x).1 ++ (splitBracket x).2 = x := by
  fun_induction splitBracket x <;> simp_all

theorem splitLine_append (x : List Char) : (splitLine x).1 ++ (splitLine x).2 = x :=
  List.takeWhile_append_dropWhile

/-- A token and what follows it are the text. -/
theorem readToken_append (c : Char) (x : List Char) :
    (readToken c x).1.text ++ (readToken c x).2 = c :: x := by
  unfold readToken
  split_ifs with hline hblock
  · rw [List.cons_append, splitLine_append]
  · obtain ⟨-, hstar⟩ := hblock
    obtain ⟨y, rfl⟩ := List.head?_eq_some_iff.1 hstar
    rw [List.cons_append, List.cons_append, List.tail_cons, splitBlock_append]
  · rw [List.cons_append, splitQuoted_append]
  · rw [List.cons_append, splitQuoted_append]
  · rw [List.cons_append, splitBracket_append]
  all_goals rfl

theorem readToken_ne_nil (c : Char) (x : List Char) : (readToken c x).1.text ≠ [] := by
  unfold readToken
  split_ifs <;> exact List.cons_ne_nil _ _

theorem length_readToken (c : Char) (x : List Char) : (readToken c x).2.length ≤ x.length := by
  have hlength := congrArg List.length (readToken_append c x)
  have hpos := List.length_pos_iff.2 (readToken_ne_nil c x)
  rw [List.length_append, List.length_cons] at hlength
  omega

/-- The tokens of a text. -/
def sqlTokens : List Char → List SqlToken
  | [] => []
  | c :: x => (readToken c x).1 :: sqlTokens (readToken c x).2
termination_by x => x.length
decreasing_by
  have hlength := length_readToken c x
  rw [List.length_cons]
  omega

/-- The text that tokens are written with. -/
def tokensText (tokens : List SqlToken) : List Char := tokens.flatMap SqlToken.text

theorem tokensText_sqlTokens (x : List Char) : tokensText (sqlTokens x) = x := by
  fun_induction sqlTokens x with
  | case1 => rfl
  | case2 c x ih =>
      rw [tokensText, List.flatMap_cons]
      rw [tokensText] at ih
      rw [ih, readToken_append]

/-- What stands behind the first semicolon. -/
def behindSemicolon : List SqlToken → Option (List SqlToken)
  | [] => none
  | t :: tokens => if t.kind = .semicolon then some tokens else behindSemicolon tokens

/-- A token of a statement, not white space, a comment or a semicolon. -/
def SqlToken.isOfStatement (t : SqlToken) : Bool :=
  t.kind = .quoted || t.kind = .name || t.kind = .other

/-- There is a statement behind a semicolon. -/
def hasSecondStatement (x : List Char) : Bool :=
  (behindSemicolon (sqlTokens x)).any fun tokens => tokens.any SqlToken.isOfStatement

end Text
