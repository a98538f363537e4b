import Wheel.Text.Search
import Wheel.Text.SqlTokens

/-!
# One statement in a query

A query over a table is refused when it has a second statement. The scan knows single and double
quotes; sqlite also knows comments, backticks and brackets. `hasExtraStatement_iff` says which of
the texts without a quote in those the scan judges as sqlite's tokens do.
-/

namespace Wheel

namespace ExtraStatement

open Text

/-- The scan, in single or in double quotes or in neither. -/
def scan (inSingle inDouble : Bool) : List Char → Bool
  | [] => false
  | c :: rest =>
      if c = '\'' && !inDouble then scan (!inSingle) inDouble rest
      else if c = '"' && !inSingle then scan inSingle (!inDouble) rest
      else if c = ';' && !inSingle && !inDouble then !(trim rest).isEmpty
      else scan inSingle inDouble rest

/-- A cheap check for a second statement. -/
def hasExtraStatement (sql : List Char) : Bool := scan false false sql

/-- A query is refused because of a second statement. -/
def refusesExtra (sql : List Char) : Bool :=
  let sql := trim sql
  if sql.isEmpty then false else hasExtraStatement sql

/-! ## Where scan and tokens are in step -/

/-- What sqlite reads in one piece and the scan does not. -/
def isUnknown (t : SqlToken) : Bool := t.kind = .comment || t.kind = .name

/-- No comment and no name in backticks or brackets has a quote, before the first semicolon. -/
def NoStrayQuote (tokens : List SqlToken) : Prop :=
  ∀ t ∈ tokens.takeWhile (fun t => t.kind ≠ .semicolon), isUnknown t = true →
    '\'' ∉ t.text ∧ '"' ∉ t.text

/-- What stands behind a semicolon in a comment or in a name, when one comes before the first that
ends a statement. -/
def behindStray : List SqlToken → Option (List Char)
  | [] => none
  | t :: tokens =>
      if t.kind = .semicolon then none
      else if isUnknown t && t.text.contains ';' then
        some ((t.text.dropWhile (· ≠ ';')).tail ++ tokensText tokens)
      else behindStray tokens

/-- Only white space follows a semicolon in a comment or in a name, or there is a second statement;
without such a semicolon, what follows the first statement is white space exactly when it is no
statement. -/
def SemicolonsAgree (sql : List Char) : Prop :=
  match behindStray (sqlTokens sql) with
  | some rest => trim rest = [] ∨ hasSecondStatement sql = true
  | none => ∀ tokens, behindSemicolon (sqlTokens sql) = some tokens →
      (trim (tokensText tokens) = [] ↔ ∀ t ∈ tokens, t.isOfStatement = false)

/-! ## The scan over a token -/

/-- Outside of quotes the scan goes over what has neither a quote nor a semicolon. -/
theorem scan_append {x : List Char} (hsingle : '\'' ∉ x) (hdouble : '"' ∉ x) (hsemi : ';' ∉ x)
    (y : List Char) : scan false false (x ++ y) = scan false false y := by
  induction x with
  | nil => rfl
  | cons c x ih =>
      rw [List.mem_cons, not_or] at hsingle hdouble hsemi
      rw [List.cons_append, scan]
      simp only [Ne.symm hsingle.1, Ne.symm hdouble.1, Ne.symm hsemi.1, decide_false,
        Bool.false_and, Bool.false_eq_true, if_false]
      exact ih hsingle.2 hdouble.2 hsemi.2

/-- Outside of quotes the scan stops at the first semicolon. -/
theorem scan_append_of_mem {x : List Char} (hsingle : '\'' ∉ x) (hdouble : '"' ∉ x)
    (hsemi : ';' ∈ x) (y : List Char) :
    scan false false (x ++ y) = !(trim ((x.dropWhile (· ≠ ';')).tail ++ y)).isEmpty := by
  induction x with
  | nil => cases hsemi
  | cons c x ih =>
      rw [List.mem_cons, not_or] at hsingle hdouble
      rw [List.cons_append, scan]
      by_cases hc : c = ';'
      · subst hc
        rfl
      · have hx : ';' ∈ x := (List.mem_cons.1 hsemi).resolve_left (Ne.symm hc)
        simp only [Ne.symm hsingle.1, Ne.symm hdouble.1, hc, decide_false, Bool.false_and,
          Bool.false_eq_true, if_false]
        rw [List.dropWhile_cons_of_pos (by simp [hc])]
        exact ih hsingle.2 hdouble.2 hx

/-- In quotes the scan goes to where the token ends; a quote that is doubled is left and
entered. -/
theorem scan_splitQuoted {d : Char} (hd : d = '\'' ∨ d = '"') (x : List Char) :
    scan (d = '\'') (d = '"') x = scan false false (splitQuoted d x).2 := by
  fun_induction splitQuoted d x with
  | case1 => rfl
  | case2 c =>
      rcases hd with rfl | rfl
      all_goals
        unfold scan
        split_ifs <;> simp_all [scan]
  | case3 x ih =>
      rw [← ih]
      rcases hd with rfl | rfl <;> simp [scan]
  | case4 e x he =>
      rcases hd with rfl | rfl
      · conv_lhs => rw [scan]
        rfl
      · conv_lhs => rw [scan]
        rfl
  | case5 c e x hc ih =>
      rw [← ih]
      rcases hd with rfl | rfl
      · conv_lhs => rw [scan]
        simp [hc]
      · conv_lhs => rw [scan]
        simp [hc]

/-- What a token does to the scan, by its kind. -/
theorem scan_readToken (c : Char) (x : List Char) :
    ((readToken c x).1.kind = .semicolon →
        (readToken c x).1.text = [';'] ∧ scan false false (c :: x) = !(trim (readToken c x).2).isEmpty) ∧
      (isUnknown (readToken c x).1 = false → (readToken c x).1.kind ≠ .semicolon →
        scan false false (c :: x) = scan false false (readToken c x).2) := by
  unfold readToken
  split_ifs with hline hblock hquote hback hbracket hsemi hspace
  · simp [isUnknown]
  · simp [isUnknown]
  · constructor
    · intro h
      cases h
    · intro _ _
      rw [← scan_splitQuoted hquote]
      rcases hquote with rfl | rfl <;> simp [scan]
  · simp [isUnknown]
  · simp [isUnknown]
  · subst hsemi
    constructor
    · exact fun _ => ⟨rfl, rfl⟩
    · exact fun _ h => absurd rfl h
  all_goals
    rw [not_or] at hquote
    constructor
    · intro h
      cases h
    · intro _ _
      exact scan_append (x := [c]) (by simp [Ne.symm hquote.1]) (by simp [Ne.symm hquote.2])
        (by simp [Ne.symm hsemi]) x

/-- The scan, told by the tokens. -/
theorem scan_eq (x : List Char) (hstray : NoStrayQuote (sqlTokens x)) :
    scan false false x = match behindStray (sqlTokens x) with
      | some rest => !(trim rest).isEmpty
      | none => (behindSemicolon (sqlTokens x)).any fun tokens => !(trim (tokensText tokens)).isEmpty := by
  fun_induction sqlTokens x with
  | case1 => rfl
  | case2 c x ih =>
      obtain ⟨hsemi, hother⟩ := scan_readToken c x
      rw [behindStray, behindSemicolon]
      by_cases hkind : (readToken c x).1.kind = .semicolon
      · rw [if_pos hkind, if_pos hkind, (hsemi hkind).2]
        dsimp only
        rw [Option.any_some, tokensText_sqlTokens]
      · rw [if_neg hkind, if_neg hkind]
        have htail : NoStrayQuote (sqlTokens (readToken c x).2) := by
          intro t ht
          refine hstray t ?_
          rw [List.takeWhile_cons_of_pos (by simpa using hkind)]
          exact .tail _ ht
        cases hunknown : isUnknown (readToken c x).1 with
        | false =>
            rw [Bool.false_and, if_neg Bool.false_ne_true, hother hunknown hkind]
            exact ih htail
        | true =>
            obtain ⟨hsingle, hdouble⟩ := hstray (readToken c x).1 (by
              rw [List.takeWhile_cons_of_pos (by simpa using hkind)]
              exact .head _) hunknown
            rw [Bool.true_and, ← readToken_append c x]
            by_cases hmem : ';' ∈ (readToken c x).1.text
            · rw [if_pos (List.contains_iff_mem.2 hmem), scan_append_of_mem hsingle hdouble hmem,
                tokensText_sqlTokens]
            · rw [if_neg (fun h => hmem (List.contains_iff_mem.1 h)), scan_append hsingle hdouble hmem]
              exact ih htail

/-! ## Where they agree -/

theorem isSpace_of_trim_eq_nil {x : List Char} (h : trim x = []) : ∀ c ∈ x, isSpace c = true := by
  rw [trim, List.reverse_eq_nil_iff, List.dropWhile_eq_nil_iff] at h
  intro c hc
  rw [← List.takeWhile_append_dropWhile (p := isSpace) (l := x)] at hc
  rcases List.mem_append.1 hc with hc | hc
  · exact List.mem_takeWhile_imp hc
  · exact h c (List.mem_reverse.2 hc)

/-- A semicolon that ends a statement stands behind every stray one before it. -/
theorem semicolon_mem_behindStray {tokens after : List SqlToken} {rest : List Char}
    (htext : ∀ t ∈ tokens, t.kind = .semicolon → t.text = [';'])
    (hstray : behindStray tokens = some rest) (hafter : behindSemicolon tokens = some after) :
    ';' ∈ rest := by
  have hmem : ∀ {tokens : List SqlToken}, (∀ t ∈ tokens, t.kind = .semicolon → t.text = [';']) →
      behindSemicolon tokens = some after → ';' ∈ tokensText tokens := by
    intro tokens htext hafter
    induction tokens with
    | nil => cases hafter
    | cons t tokens ih =>
        rw [tokensText, List.flatMap_cons, List.mem_append]
        rw [behindSemicolon] at hafter
        split at hafter
        · rename_i hkind
          rw [htext t (.head _) hkind]
          exact .inl (.head _)
        · exact .inr (ih (fun u hu => htext u (.tail _ hu)) hafter)
  induction tokens with
  | nil => cases hafter
  | cons t tokens ih =>
      have htail : ∀ u ∈ tokens, u.kind = .semicolon → u.text = [';'] :=
        fun u hu => htext u (.tail _ hu)
      rw [behindStray] at hstray
      rw [behindSemicolon] at hafter
      split at hstray
      · cases hstray
      · rename_i hkind
        rw [if_neg hkind] at hafter
        split at hstray
        · cases hstray
          exact List.mem_append_right _ (hmem htail hafter)
        · exact ih htail hstray hafter

theorem text_of_semicolon {x : List Char} {t : SqlToken} (ht : t ∈ sqlTokens x)
    (hkind : t.kind = .semicolon) : t.text = [';'] := by
  fun_induction sqlTokens x with
  | case1 => cases ht
  | case2 c x ih =>
      rcases List.mem_cons.1 ht with rfl | ht
      · exact ((scan_readToken c x).1 hkind).1
      · exact ih ht

theorem agree_iff {sql : List Char} (hstray : NoStrayQuote (sqlTokens sql)) :
    hasExtraStatement sql = hasSecondStatement sql ↔ SemicolonsAgree sql := by
  rw [hasExtraStatement, scan_eq sql hstray, SemicolonsAgree]
  cases hbehind : behindStray (sqlTokens sql) with
  | some rest =>
      dsimp only
      by_cases hrest : trim rest = []
      · have hnone : behindSemicolon (sqlTokens sql) = none := by
          by_contra hsome
          obtain ⟨after, hafter⟩ := Option.ne_none_iff_exists'.1 hsome
          have hmem := semicolon_mem_behindStray (fun t => text_of_semicolon) hbehind hafter
          exact absurd (isSpace_of_trim_eq_nil hrest _ hmem) (by decide)
        rw [hrest, hasSecondStatement, hnone]
        exact iff_of_true rfl (.inl rfl)
      · have hfalse : (trim rest).isEmpty = false := by simpa using hrest
        rw [hfalse, or_iff_right hrest]
        exact eq_comm
  | none =>
      rw [hasSecondStatement]
      cases hafter : behindSemicolon (sqlTokens sql) with
      | none => exact iff_of_true rfl fun tokens h => by cases h
      | some tokens =>
          rw [Option.any_some, Option.any_some]
          have hany : (tokens.any SqlToken.isOfStatement = false) ↔
              ∀ t ∈ tokens, t.isOfStatement = false := by simp
          have hempty : ((trim (tokensText tokens)).isEmpty = true) ↔
              trim (tokensText tokens) = [] := List.isEmpty_iff
          constructor
          · rintro hsame _ ⟨⟩
            rw [← hempty, ← hany, ← hsame, Bool.not_eq_false']
          · intro hagree
            have h := hagree tokens rfl
            rw [← hempty, ← hany] at h
            cases hleft : (trim (tokensText tokens)).isEmpty with
            | true => exact (h.1 hleft).symm
            | false =>
                rw [hleft] at h
                simpa using h

/-- A text that has no quote in a comment or in a name of backticks or brackets is refused for a
second statement when it has one, exactly when its semicolons agree; and so is the query, which
is trimmed first. -/
theorem hasExtraStatement_iff (sql : List Char) :
    (NoStrayQuote (sqlTokens sql) →
      (hasExtraStatement sql = hasSecondStatement sql ↔ SemicolonsAgree sql)) ∧
    (NoStrayQuote (sqlTokens (trim sql)) →
      (refusesExtra sql = hasSecondStatement (trim sql) ↔ SemicolonsAgree (trim sql))) := by
  refine ⟨agree_iff, fun hstray => ?_⟩
  rw [← agree_iff hstray, refusesExtra]
  split
  · rename_i hempty
    rw [List.isEmpty_iff.1 hempty]
    rfl
  · rfl

theorem hasExtraStatement_two :
    hasExtraStatement "SELECT 'a;b'; DELETE FROM t".toList =
        hasSecondStatement "SELECT 'a;b'; DELETE FROM t".toList ∧
      refusesExtra "SELECT 1; ".toList = hasSecondStatement "SELECT 1;".toList := by
  constructor
  · refine ((hasExtraStatement_iff "SELECT 'a;b'; DELETE FROM t".toList).1 ?_).2 ?_
    · unfold NoStrayQuote
      decide +kernel
    · have hnone : behindStray (sqlTokens "SELECT 'a;b'; DELETE FROM t".toList) = none := by
        decide +kernel
      have hbehind : (behindSemicolon (sqlTokens "SELECT 'a;b'; DELETE FROM t".toList)).all
          (fun tokens => trim (tokensText tokens) ≠ [] && tokens.any SqlToken.isOfStatement) =
            true := by decide +kernel
      rw [SemicolonsAgree, hnone]
      intro tokens htokens
      rw [htokens, Option.all_some, Bool.and_eq_true, decide_eq_true_eq] at hbehind
      refine iff_of_false hbehind.1 fun hall => ?_
      obtain ⟨t, ht, hstatement⟩ := List.any_eq_true.1 hbehind.2
      rw [hall t ht] at hstatement
      cases hstatement
  · have htrim : trim "SELECT 1; ".toList = "SELECT 1;".toList := by decide +kernel
    have hquery := (hasExtraStatement_iff "SELECT 1; ".toList).2
    rw [htrim] at hquery
    refine (hquery ?_).2 ?_
    · unfold NoStrayQuote
      decide +kernel
    · have hnone : behindStray (sqlTokens "SELECT 1;".toList) = none := by decide +kernel
      have hbehind : behindSemicolon (sqlTokens "SELECT 1;".toList) = some [] := by decide +kernel
      rw [SemicolonsAgree, hnone]
      intro tokens htokens
      rw [hbehind] at htokens
      cases htokens
      exact iff_of_true rfl fun t ht => by cases ht

/-- A comment after the statement is taken for a second one, a semicolon in backticks for the end of
the first, and behind an apostrophe in a comment the second statement is missed. -/
theorem not_hasExtraStatement_comment :
    hasExtraStatement "SELECT 1; -- done".toList ≠ hasSecondStatement "SELECT 1; -- done".toList ∧
      hasExtraStatement "SELECT `a;b` FROM t".toList ≠
        hasSecondStatement "SELECT `a;b` FROM t".toList ∧
      hasExtraStatement "SELECT 1 -- it's\n; DELETE FROM t".toList ≠
        hasSecondStatement "SELECT 1 -- it's\n; DELETE FROM t".toList := by
  refine ⟨?_, ?_, ?_⟩ <;> decide +kernel

end ExtraStatement

end Wheel
