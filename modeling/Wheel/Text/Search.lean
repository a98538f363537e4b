import Mathlib.Data.List.Infix
import Mathlib.Data.List.Basic

/-!
# Searching a text for a needle, ignoring ASCII case

Texts are lists of characters. `occurrences needle hay` lists the offsets at
which `needle` occurs in `hay` under ASCII-case-insensitive matching, and
`splitFirst sep`, `splitLast sep` cut a text at the first and at the last
occurrence of a separator. The lemmas say how the three behave on an appended
text, which is how a text that is assembled from parts is read back.
-/

namespace Text

/-- `x` starts with `needle`, ASCII case ignored. -/
def startsWithCI (needle x : List Char) : Bool :=
  (x.take needle.length).map Char.toLower == needle.map Char.toLower

/-- The offsets, counted from `k`, at which `needle` occurs in a text. -/
def occurrencesFrom (needle : List Char) : ℕ → List Char → List ℕ
  | k, [] => if startsWithCI needle [] then [k] else []
  | k, c :: x =>
      if startsWithCI needle (c :: x) then k :: occurrencesFrom needle (k + 1) x
      else occurrencesFrom needle (k + 1) x

/-- The offsets at which `needle` occurs in a text. -/
def occurrences (needle x : List Char) : List ℕ := occurrencesFrom needle 0 x

example (x : List Char) (h : startsWithCI x [] = false) : occurrences x [] = [] := by
  simp [occurrences, occurrencesFrom, h]

/-- Cut a text at the first occurrence of `sep`. -/
def splitFirst (sep : List Char) : List Char → Option (List Char × List Char)
  | [] => if sep = [] then some ([], []) else none
  | c :: x =>
      if sep.isPrefixOf (c :: x) then some ([], (c :: x).drop sep.length)
      else (splitFirst sep x).map fun p => (c :: p.1, p.2)

/-- Cut a text at the last occurrence of `sep`. -/
def splitLast (sep x : List Char) : Option (List Char × List Char) :=
  (splitFirst sep.reverse x.reverse).map fun p => (p.2.reverse, p.1.reverse)

/-- Does `x` contain `needle`? -/
def contains (needle x : List Char) : Bool := (splitFirst needle x).isSome

example (x : List Char) : contains [] x = true := by
  cases x <;> simp [contains, splitFirst]

/-- Unicode white space. -/
def isSpace (c : Char) : Bool :=
  let n := c.toNat
  (9 ≤ n && n ≤ 13) || n == 32 || n == 0x85 || n == 0xa0 || n == 0x1680 ||
    (0x2000 ≤ n && n ≤ 0x200a) || n == 0x2028 || n == 0x2029 || n == 0x202f || n == 0x205f ||
    n == 0x3000

/-- Drop the white space at both ends. -/
def trim (x : List Char) : List Char :=
  ((x.dropWhile isSpace).reverse.dropWhile isSpace).reverse

/-- A text without white space is not trimmed. -/
theorem trim_eq_self {x : List Char} (h : ∀ c ∈ x, isSpace c = false) : trim x = x := by
  have hdrop : ∀ y : List Char, (∀ c ∈ y, isSpace c = false) → y.dropWhile isSpace = y := by
    intro y hy
    cases y with
    | nil => rfl
    | cons c y => rw [List.dropWhile_cons_of_neg (by simp [hy c List.mem_cons_self])]
  unfold trim
  rw [hdrop x h, hdrop x.reverse fun c hc => h c (List.mem_reverse.mp hc), List.reverse_reverse]

/-- No suffix of `x ++ y` that starts inside `x` begins with `needle`. -/
def AbsentBefore (needle x y : List Char) : Prop :=
  ∀ p s, x = p ++ s → s ≠ [] → startsWithCI needle (s ++ y) = false

theorem absentBefore_nil (needle y : List Char) : AbsentBefore needle [] y := by
  intro p s h hs
  simp_all

theorem absentBefore_cons {needle x y : List Char} {c : Char} :
    AbsentBefore needle (c :: x) y ↔
      startsWithCI needle (c :: (x ++ y)) = false ∧ AbsentBefore needle x y := by
  constructor
  · intro h
    refine ⟨h [] (c :: x) rfl (by simp), ?_⟩
    intro p s hp hs
    exact h (c :: p) s (by simp [hp]) hs
  · rintro ⟨hc, hx⟩ p s hp hs
    cases p with
    | nil =>
        obtain rfl : c :: x = s := by simpa using hp
        exact hc
    | cons d p =>
        obtain ⟨-, rfl⟩ : c = d ∧ x = p ++ s := by simpa using hp
        exact hx p s rfl hs

/-- Needles that differ in ASCII case only have the same offsets. -/
theorem occurrencesFrom_congr {needle needle' : List Char}
    (h : needle.map Char.toLower = needle'.map Char.toLower) (k : ℕ) (x : List Char) :
    occurrencesFrom needle k x = occurrencesFrom needle' k x := by
  have hlen : needle.length = needle'.length := by
    simpa using congrArg List.length h
  have hstart : ∀ y, startsWithCI needle y = startsWithCI needle' y := by
    intro y
    rw [startsWithCI, startsWithCI, h, hlen]
  induction x generalizing k with
  | nil => rw [occurrencesFrom, occurrencesFrom, hstart]
  | cons c x ih => rw [occurrencesFrom, occurrencesFrom, hstart, ih]

/-- Offsets of a text are those of its tail, moved by the absent part. -/
theorem occurrencesFrom_append {needle x y : List Char} (h : AbsentBefore needle x y)
    (k : ℕ) :
    occurrencesFrom needle k (x ++ y) = occurrencesFrom needle (k + x.length) y := by
  induction x generalizing k with
  | nil => rfl
  | cons c x ih =>
      obtain ⟨hc, hx⟩ := absentBefore_cons.mp h
      rw [List.cons_append, occurrencesFrom, if_neg (by simp [hc]), ih hx]
      congr 1
      simp
      omega

/-- Absence is a property of each part, read with what follows it. -/
theorem absentBefore_append {needle x y z : List Char}
    (hx : AbsentBefore needle x (y ++ z)) (hy : AbsentBefore needle y z) :
    AbsentBefore needle (x ++ y) z := by
  induction x with
  | nil => exact hy
  | cons c x ih =>
      obtain ⟨hc, hx⟩ := absentBefore_cons.mp hx
      exact absentBefore_cons.mpr ⟨by simpa using hc, ih hx⟩

/-- A text without the needle's first character starts no occurrence of it. -/
theorem absentBefore_of_head {d : Char} {needle x y : List Char}
    (h : ∀ c ∈ x, c.toLower ≠ d.toLower) : AbsentBefore (d :: needle) x y := by
  rintro p (- | ⟨c, s⟩) rfl hs
  · exact absurd rfl hs
  · have hc := h c (by simp)
    simp [startsWithCI, hc]

/-- The first `sep` of `x ++ sep ++ y` is the one written, when the first
character of `sep` is not in `x`. -/
theorem splitFirst_append {d : Char} {sep x y : List Char} (h : d ∉ x) :
    splitFirst (d :: sep) (x ++ (d :: sep) ++ y) = some (x, y) := by
  induction x with
  | nil =>
      have hpre : (d :: sep).isPrefixOf ((d :: sep) ++ y) = true := by simp
      simp only [List.nil_append, List.cons_append] at hpre ⊢
      rw [splitFirst, if_pos hpre]
      simp
  | cons c x ih =>
      have hne : d ≠ c := by
        rintro rfl
        simp at h
      have hpre : ¬ (d :: sep).isPrefixOf (c :: (x ++ (d :: sep) ++ y)) = true := by
        simp [List.isPrefixOf, hne]
      rw [List.cons_append, List.cons_append, splitFirst, if_neg hpre,
        ih (fun hx => h (by simp [hx]))]
      rfl

/-- A text is its two parts and the separator. -/
theorem eq_append_of_splitFirst {sep x a b : List Char} (h : splitFirst sep x = some (a, b)) :
    x = a ++ sep ++ b := by
  induction x generalizing a with
  | nil =>
      rw [splitFirst] at h
      split at h
      · rename_i hsep
        cases h
        rw [hsep]
        rfl
      · cases h
  | cons c x ih =>
      rw [splitFirst] at h
      split at h
      · rename_i hpre
        cases h
        exact (List.prefix_iff_eq_append.1 (List.isPrefixOf_iff_prefix.1 hpre)).symm
      · obtain ⟨p, hp, hpair⟩ := Option.map_eq_some_iff.1 h
        cases hpair
        rw [ih hp]
        rfl

/-- What follows a text is not cut. -/
theorem splitFirst_append_right {sep x a b : List Char} (h : splitFirst sep x = some (a, b))
    (y : List Char) : splitFirst sep (x ++ y) = some (a, b ++ y) := by
  induction x generalizing a with
  | nil =>
      rw [splitFirst] at h
      split at h
      · rename_i hsep
        cases h
        subst hsep
        cases y <;> rfl
      · cases h
  | cons c x ih =>
      rw [splitFirst] at h
      rw [List.cons_append, splitFirst]
      split at h
      · rename_i hpre
        cases h
        have hstart := List.isPrefixOf_iff_prefix.1 hpre
        have hlonger : sep.isPrefixOf (c :: (x ++ y)) = true :=
          List.isPrefixOf_iff_prefix.2 (hstart.trans (List.prefix_append (c :: x) y))
        rw [if_pos hlonger, ← List.cons_append, List.drop_append_of_le_length hstart.length_le]
      · rename_i hpre
        obtain ⟨p, hp, hpair⟩ := Option.map_eq_some_iff.1 h
        cases hpair
        have hlonger : ¬ sep.isPrefixOf (c :: (x ++ y)) = true := by
          intro hlong
          have hp' := List.isPrefixOf_iff_prefix.1 hlong
          have hlength : sep.length ≤ (c :: x).length := by
            have := congrArg List.length (eq_append_of_splitFirst hp)
            simp only [List.length_append, List.length_cons] at this ⊢
            omega
          exact hpre (List.isPrefixOf_iff_prefix.2
            (List.prefix_of_prefix_length_le hp' (List.prefix_append (c :: x) y) hlength))
        rw [if_neg hlonger, ih hp]
        rfl

theorem not_mem_of_splitFirst {d : Char} {x a b : List Char} (h : splitFirst [d] x = some (a, b)) :
    d ∉ a := by
  induction x generalizing a with
  | nil => cases h
  | cons c x ih =>
      rw [splitFirst] at h
      split at h
      · cases h
        exact List.not_mem_nil
      · rename_i hpre
        obtain ⟨p, hp, hpair⟩ := Option.map_eq_some_iff.1 h
        cases hpair
        rw [List.mem_cons, not_or]
        exact ⟨fun hd => hpre (by simp [hd]), ih hp⟩

/-- A separator that occurs is found. -/
theorem splitFirst_isSome (sep x y : List Char) : (splitFirst sep (x ++ sep ++ y)).isSome := by
  induction x with
  | nil =>
      rw [List.nil_append]
      cases hsep : sep ++ y with
      | nil =>
          rw [List.append_eq_nil_iff] at hsep
          rw [splitFirst, if_pos hsep.1]
          rfl
      | cons c z =>
          have hpre : sep.isPrefixOf (c :: z) = true :=
            List.isPrefixOf_iff_prefix.2 (hsep ▸ List.prefix_append sep y)
          rw [splitFirst, if_pos hpre]
          rfl
  | cons c x ih =>
      rw [List.cons_append, List.cons_append, splitFirst]
      split
      · rfl
      · rw [Option.isSome_map]
        exact ih

/-- No part of a text that is cut at a character holds it. -/
theorem not_mem_of_mem_splitOn {α : Type} [DecidableEq α] {d : α} {x p : List α}
    (h : p ∈ x.splitOn d) : d ∉ p := by
  induction x generalizing p with
  | nil =>
      rw [List.splitOn_nil, List.mem_singleton] at h
      rw [h]
      exact List.not_mem_nil
  | cons c x ih =>
      rw [List.splitOn_cons_eq_if_modifyHead] at h
      split at h
      · rcases List.mem_cons.mp h with rfl | h
        · exact List.not_mem_nil
        · exact ih h
      · rename_i hc
        obtain ⟨q, qs, hq⟩ := List.exists_cons_of_ne_nil (List.splitOn_ne_nil d x)
        rw [hq, List.modifyHead_cons] at h
        rw [hq] at ih
        rcases List.mem_cons.mp h with rfl | h
        · rw [List.mem_cons, not_or]
          exact ⟨fun hd => hc (by simp [hd]), ih List.mem_cons_self⟩
        · exact ih (List.mem_cons_of_mem _ h)

/-- A part of a text that is cut at a character is of the text. -/
theorem mem_of_mem_splitOn {α : Type} [DecidableEq α] {d b : α} {line e : List α}
    (he : e ∈ line.splitOn d) (hb : b ∈ e) : b ∈ line := by
  induction line generalizing e with
  | nil =>
      rw [List.splitOn_nil, List.mem_singleton] at he
      rwa [he] at hb
  | cons c line ih =>
      rw [List.splitOn_cons_eq_if_modifyHead] at he
      split at he
      · rcases List.mem_cons.mp he with rfl | he
        · cases hb
        · exact List.mem_cons_of_mem _ (ih he hb)
      · cases hsplit : line.splitOn d with
        | nil =>
            rw [hsplit] at he
            cases he
        | cons f rest =>
            rw [hsplit] at he ih
            rcases List.mem_cons.mp he with rfl | he
            · rcases List.mem_cons.mp hb with rfl | hb
              · exact List.mem_cons_self
              · exact List.mem_cons_of_mem _ (ih List.mem_cons_self hb)
            · exact List.mem_cons_of_mem _ (ih (List.mem_cons_of_mem _ he) hb)

/-- What stands behind some `d` stands behind the first. -/
theorem exists_splitFirst (d : Char) (x y : List Char) :
    ∃ u v, splitFirst [d] (x ++ d :: y) = some (u, v ++ y) := by
  induction x with
  | nil => exact ⟨[], [], by simp [splitFirst]⟩
  | cons c x ih =>
      obtain ⟨u, v, h⟩ := ih
      rw [List.cons_append, splitFirst]
      split
      · exact ⟨[], x ++ [d], by simp⟩
      · exact ⟨c :: u, v, by rw [h]; rfl⟩

/-- The first doubled `d` of `x ++ d :: d :: y` is the one written, exactly when `x` has
no doubled `d` and does not end in one. -/
theorem splitFirst_pair_iff {d : Char} {x y : List Char} :
    splitFirst [d, d] (x ++ d :: d :: y) = some (x, y) ↔
      ¬ [d, d] <:+: x ∧ x.getLast? ≠ some d := by
  induction x with
  | nil => simp [splitFirst]
  | cons c x ih =>
      rw [List.cons_append, splitFirst]
      by_cases hpre : [d, d].isPrefixOf (c :: (x ++ d :: d :: y)) = true
      · rw [if_pos hpre]
        obtain ⟨rfl, hhead⟩ : d = c ∧ (x ++ d :: d :: y).head? = some d := by
          cases x with
          | nil => simpa [List.isPrefixOf] using hpre
          | cons e x => simpa [List.isPrefixOf, eq_comm (a := d) (b := e)] using hpre
        cases x with
        | nil => simp
        | cons e x =>
            obtain rfl : e = d := by simpa using hhead
            have hdouble : [e, e] <:+: e :: e :: x := ⟨[], x, rfl⟩
            simp [hdouble]
      · rw [if_neg hpre]
        have hstart : ¬ [d, d] <+: c :: x := by
          rintro ⟨t, ht⟩
          apply hpre
          obtain ⟨rfl, rfl⟩ : d = c ∧ d :: t = x := by simpa using ht
          simp [List.isPrefixOf]
        have hlast : (c :: x).getLast? = some d ↔ x.getLast? = some d := by
          cases x with
          | nil =>
              have hne : c ≠ d := by
                rintro rfl
                simp [List.isPrefixOf] at hpre
              simp [hne]
          | cons e x => simp [List.getLast?_cons_cons]
        rw [List.infix_cons_iff, ne_eq, hlast, not_or, and_assoc, ← ne_eq, ← ih]
        simp only [hstart, not_false_eq_true, true_and]
        cases splitFirst [d, d] (x ++ d :: d :: y) with
        | none => simp
        | some p =>
            obtain ⟨a, b⟩ := p
            simp

/-- The last `sep` of a text that ends in `sep` is that end. -/
theorem splitLast_append_self (sep x : List Char) (hs : sep ≠ []) :
    splitLast sep (x ++ sep) = some (x, []) := by
  obtain ⟨d, r, hr⟩ : ∃ d r, sep.reverse = d :: r :=
    List.exists_cons_of_ne_nil (by simpa using hs)
  have hfirst : splitFirst (d :: r) ([] ++ (d :: r) ++ x.reverse) = some ([], x.reverse) :=
    splitFirst_append (by simp)
  rw [splitLast, List.reverse_append, hr]
  simp only [List.nil_append] at hfirst
  rw [hfirst]
  simp

end Text
