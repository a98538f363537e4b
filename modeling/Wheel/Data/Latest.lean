import Mathlib

/-!
# The latest entries of a log

`latest m x` is what is left of a log that keeps its last `m` entries. Keeping them after
every entry is keeping them at the end (`latest_latest_append`). A count over the latest
entries reaches a number exactly as a count over the whole log does, when fewer than `m`
entries stand behind the one that makes up the number (`le_countP_latest_iff`).
-/

namespace Log

variable {α : Type*}

/-- The last `m` entries. -/
def latest (m : ℕ) (x : List α) : List α := x.drop (x.length - m)

theorem latest_suffix (m : ℕ) (x : List α) : latest m x <:+ x := List.drop_suffix _ _

theorem latest_of_length_le {m : ℕ} {x : List α} (h : x.length ≤ m) : latest m x = x := by
  unfold latest
  rw [Nat.sub_eq_zero_of_le h, List.drop_zero]

theorem length_latest (m : ℕ) (x : List α) : (latest m x).length = min m x.length := by
  unfold latest
  rw [List.length_drop]
  omega

/-- What was dropped before does not matter after more entries. -/
theorem latest_latest_append (m : ℕ) (x y : List α) :
    latest m (latest m x ++ y) = latest m (x ++ y) := by
  have hlen := length_latest m x
  have hdrop : latest m x ++ y = (x ++ y).drop (x.length - m) :=
    (List.drop_append_of_le_length (Nat.sub_le _ _)).symm
  have hsum : x.length - m + ((latest m x ++ y).length - m) = (x ++ y).length - m := by
    rw [List.length_append, List.length_append, hlen]
    omega
  calc latest m (latest m x ++ y)
      = ((x ++ y).drop (x.length - m)).drop ((latest m x ++ y).length - m) := by
        rw [← hdrop]
        rfl
    _ = latest m (x ++ y) := by
        rw [List.drop_drop, hsum]
        rfl

/-- The last `m` entries and the entries of another end of the log. -/
theorem latest_suffix_of_le {m : ℕ} {x y : List α} (hy : y <:+ x) (h : m ≤ y.length) :
    latest m x <:+ y := by
  refine List.suffix_of_suffix_length_le (latest_suffix m x) hy ?_
  rw [length_latest]
  omega

theorem suffix_latest_of_le {m : ℕ} {x y : List α} (hy : y <:+ x) (h : y.length ≤ m) :
    y <:+ latest m x := by
  refine List.suffix_of_suffix_length_le hy (latest_suffix m x) ?_
  have hlen := hy.length_le
  rw [length_latest]
  omega

section Count

variable {p : α → Bool} {n m : ℕ} {x : List α}

theorem countP_le_of_suffix {y : List α} (h : y <:+ x) : x.countP p ≥ y.countP p :=
  h.sublist.countP_le

/-- The entry that makes up a number of counted entries, from the end. -/
theorem exists_counted (h : n < x.countP p) :
    ∃ a r b, x = a ++ r :: b ∧ p r = true ∧ b.countP p = n := by
  induction x with
  | nil => exact absurd h (Nat.not_lt_zero _)
  | cons c x ih =>
      by_cases hx : n < x.countP p
      · obtain ⟨a, r, b, rfl, hr, hb⟩ := ih hx
        exact ⟨c :: a, r, b, rfl, hr, hb⟩
      · cases hc : p c with
        | false =>
            rw [List.countP_cons_of_neg (by rw [hc]; exact Bool.false_ne_true)] at h
            exact absurd h hx
        | true =>
            rw [List.countP_cons_of_pos hc] at h
            exact ⟨[], c, x, rfl, hc, by omega⟩

/-- The whole log counts to more than `n` exactly when its latest entries do, if and only if
the entry with `n` counted ones behind it is among the latest. -/
theorem lt_countP_latest_iff :
    (n < (latest m x).countP p ↔ n < x.countP p) ↔
      ∀ a r b, x = a ++ r :: b → p r = true → b.countP p = n → b.length < m := by
  constructor
  · rintro h a r b rfl hr hb
    have hall : n < (a ++ r :: b).countP p := by
      rw [List.countP_append, List.countP_cons_of_pos hr]
      omega
    by_contra hlen
    have hsuffix : latest m (a ++ r :: b) <:+ b :=
      latest_suffix_of_le (List.suffix_append_of_suffix (List.suffix_cons r b))
        (Nat.le_of_not_lt hlen)
    have hcount := h.mpr hall
    have hle := countP_le_of_suffix (p := p) hsuffix
    omega
  · intro h
    refine ⟨fun hn => Nat.lt_of_lt_of_le hn (countP_le_of_suffix (latest_suffix m x)), ?_⟩
    intro hn
    obtain ⟨a, r, b, rfl, hr, hb⟩ := exists_counted hn
    have hlen := h a r b rfl hr hb
    have hsuffix : r :: b <:+ latest m (a ++ r :: b) :=
      suffix_latest_of_le (List.suffix_append _ _) hlen
    have hle := countP_le_of_suffix (p := p) hsuffix
    rw [List.countP_cons_of_pos hr] at hle
    omega

end Count

end Log
