import Wheel.Text.Escape
import Wheel.Text.Replace

/-!
# The patterns of LIKE

A pattern is read into tokens: `%` matches any text, `_` any character, and every other
character, or the one behind the escape character, matches itself without regard to ASCII
case. The pattern of an escaped text and a `%` matches the texts that start with it when case
is ignored (`like_escaped`).
-/

namespace Text

inductive LikeToken where
  | many
  | one
  | lit (c : Char)
  deriving DecidableEq

/-- What a character that is not escaped stands for. -/
def likeToken (c : Char) : LikeToken :=
  if c = '%' then .many else if c = '_' then .one else .lit c

/-- The tokens of a pattern; an escape character at its end matches nothing. -/
def likeTokens (esc : Char) : List Char → Option (List LikeToken)
  | [] => some []
  | c :: p =>
      if c = esc then
        match p with
        | [] => none
        | d :: p => (likeTokens esc p).map (.lit d :: ·)
      else (likeTokens esc p).map (likeToken c :: ·)

def likeMatches : List LikeToken → List Char → Bool
  | [], x => x.isEmpty
  | .many :: ts, x => x.tails.any (likeMatches ts)
  | .one :: ts, x =>
      match x with
      | [] => false
      | _ :: x => likeMatches ts x
  | .lit c :: ts, x =>
      match x with
      | [] => false
      | d :: x => d.toLower == c.toLower && likeMatches ts x

/-- `x LIKE pattern ESCAPE esc`. -/
def like (esc : Char) (pattern x : List Char) : Bool :=
  match likeTokens esc pattern with
  | none => false
  | some ts => likeMatches ts x

/-- Replacing one character. -/
theorem replace_singleton (d : Char) (new x : List Char) :
    replace [d] new x = x.flatMap fun c => if c = d then new else [c] := by
  induction x with
  | nil => rfl
  | cons c x ih =>
      rw [List.flatMap_cons, ← ih]
      by_cases h : c = d
      · rw [if_pos h, h]
        exact replace_self_append (List.cons_ne_nil _ _) new x
      · rw [if_neg h]
        refine replace_cons_of_not_start (fun hp => h ?_) new
        exact (List.cons_prefix_cons.mp hp).1.symm

section Escaped

variable {esc : Char}

/-- The characters with a meaning in a pattern, each behind an escape character. -/
def likeEscaped (esc : Char) (x : List Char) : List Char :=
  x.flatMap fun c => if c = esc ∨ c = '%' ∨ c = '_' then [esc, c] else [c]

theorem likeTokens_esc (d : Char) (p : List Char) :
    likeTokens esc (esc :: d :: p) = (likeTokens esc p).map (.lit d :: ·) := by
  rw [likeTokens.eq_def]
  exact if_pos rfl

theorem likeTokens_cons_of_ne {c : Char} (h : c ≠ esc) (p : List Char) :
    likeTokens esc (c :: p) = (likeTokens esc p).map (likeToken c :: ·) := by
  rw [likeTokens.eq_def]
  exact if_neg h

theorem likeTokens_lit {c : Char} (h : ¬ (c = esc ∨ c = '%' ∨ c = '_')) (p : List Char) :
    likeTokens esc (c :: p) = (likeTokens esc p).map (.lit c :: ·) := by
  rw [not_or, not_or] at h
  rw [likeTokens_cons_of_ne h.1, likeToken, if_neg h.2.1, if_neg h.2.2]

theorem likeTokens_escaped (x p : List Char) :
    likeTokens esc (likeEscaped esc x ++ p) = (likeTokens esc p).map (x.map .lit ++ ·) := by
  induction x with
  | nil => exact (Option.map_id_fun' ▸ rfl : likeTokens esc p = (likeTokens esc p).map id)
  | cons c x ih =>
      have hcons : (likeTokens esc (likeEscaped esc x ++ p)).map (LikeToken.lit c :: ·) =
          (likeTokens esc p).map ((c :: x).map .lit ++ ·) := by
        rw [ih, Option.map_map]
        rfl
      rw [← hcons]
      unfold likeEscaped
      rw [List.flatMap_cons, List.append_assoc]
      split
      · exact likeTokens_esc c _
      · rename_i h
        exact likeTokens_lit h _

theorem likeMatches_many (x : List Char) : likeMatches [.many] x = true := by
  rw [likeMatches, List.any_eq_true]
  exact ⟨[], (List.mem_tails [] x).mpr List.nil_suffix, rfl⟩

theorem likeMatches_lits (x y : List Char) :
    likeMatches (x.map .lit ++ [.many]) y = startsWithCI x y := by
  induction x generalizing y with
  | nil => rw [List.map_nil, List.nil_append, likeMatches_many, startsWithCI_nil_left]
  | cons c x ih =>
      rw [List.map_cons, List.cons_append]
      cases y with
      | nil => rfl
      | cons d y => rw [startsWithCI_cons, likeMatches, ih]

/-- An escaped text and a `%` match what starts with the text, ASCII case ignored. -/
theorem like_escaped (h : esc ≠ '%') (x y : List Char) :
    like esc (likeEscaped esc x ++ ['%']) y = startsWithCI x y := by
  have hmany : likeTokens esc ['%'] = some [.many] := by
    rw [likeTokens_cons_of_ne (Ne.symm h)]
    rfl
  rw [like, likeTokens_escaped, hmany]
  exact likeMatches_lits x y

end Escaped

end Text
