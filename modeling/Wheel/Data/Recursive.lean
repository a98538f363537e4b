import Mathlib

/-!
# Recursive queries

A recursive query starts with the rows of a base and adds, round by round, the rows of the
table that a row found before is joined to, until a round finds nothing new. `answer` runs
as many rounds as the table has rows, and that is enough: its rows are those that a chain
of joins leads to.
-/

namespace Recursive

variable {α : Type} [DecidableEq α] (rows : List α) (link : α → α → Bool)

/-- What a round adds. -/
def fresh (found : List α) : List α :=
  rows.filter fun b => decide (b ∉ found) && found.any fun a => link a b

def rounds : ℕ → List α → List α
  | 0, found => found
  | n + 1, found => rounds n (found ++ fresh rows link found)

/-- The rows the query answers. -/
def answer (base : List α) : List α := rounds rows link rows.length base

/-- A row of the table that is joined to `a`. -/
def Joined (a b : α) : Prop := b ∈ rows ∧ link a b = true

variable {rows link}

theorem mem_fresh {found : List α} {b : α} :
    b ∈ fresh rows link found ↔ b ∈ rows ∧ b ∉ found ∧ ∃ a ∈ found, link a b = true := by
  simp [fresh, List.mem_filter, List.any_eq_true]

theorem subset_rounds (n : ℕ) (found : List α) : found ⊆ rounds rows link n found := by
  induction n generalizing found with
  | zero => exact List.Subset.refl found
  | succ n ih =>
      intro a ha
      exact ih _ (List.mem_append_left _ ha)

/-- Whatever the rounds find, a chain of joins leads to it. -/
theorem exists_joined_of_mem_rounds {n : ℕ} {found : List α} {b : α}
    (hb : b ∈ rounds rows link n found) :
    ∃ a ∈ found, Relation.ReflTransGen (Joined rows link) a b := by
  induction n generalizing found with
  | zero => exact ⟨b, hb, .refl⟩
  | succ n ih =>
      obtain ⟨a, ha, hab⟩ := ih hb
      rcases List.mem_append.mp ha with hold | hnew
      · exact ⟨a, hold, hab⟩
      · obtain ⟨hrow, -, c, hc, hlink⟩ := mem_fresh.mp hnew
        exact ⟨c, hc, .head ⟨hrow, hlink⟩ hab⟩

/-- A round that finds nothing new is the last. -/
theorem rounds_of_fresh_eq_nil {found : List α} (h : fresh rows link found = []) (n : ℕ) :
    rounds rows link n found = found := by
  induction n with
  | zero => rfl
  | succ n ih => rw [rounds, h, List.append_nil, ih]

/-- The rows that are still to be found. -/
def missing (rows found : List α) : Finset α := rows.toFinset \ found.toFinset

theorem card_missing_lt {found : List α} {b : α} (hb : b ∈ fresh rows link found) :
    (missing rows (found ++ fresh rows link found)).card < (missing rows found).card := by
  obtain ⟨hrow, hnot, -⟩ := mem_fresh.mp hb
  refine Finset.card_lt_card ((Finset.ssubset_iff_of_subset ?_).mpr ⟨b, ?_, ?_⟩)
  · intro c hc
    simp only [missing, Finset.mem_sdiff, List.mem_toFinset, List.mem_append, not_or] at hc ⊢
    exact ⟨hc.1, hc.2.1⟩
  · simpa [missing] using ⟨hrow, hnot⟩
  · simp [missing, hb]

/-- After as many rounds as rows are missing, no join leads out of what was found. -/
theorem rounds_closed {n : ℕ} {found : List α} (hn : (missing rows found).card ≤ n) {a b : α}
    (ha : a ∈ rounds rows link n found) (hab : Joined rows link a b) :
    b ∈ rounds rows link n found := by
  induction n generalizing found with
  | zero =>
      have hempty : missing rows found = ∅ := Finset.card_eq_zero.mp (Nat.le_zero.mp hn)
      by_contra hb
      have hmem : b ∈ missing rows found := by
        simpa [missing] using ⟨hab.1, hb⟩
      rw [hempty] at hmem
      cases hmem
  | succ n ih =>
      cases hfresh : fresh rows link found with
      | nil =>
          rw [rounds_of_fresh_eq_nil hfresh] at ha ⊢
          by_contra hb
          have hmem := mem_fresh.mpr ⟨hab.1, hb, a, ha, hab.2⟩
          rw [hfresh] at hmem
          cases hmem
      | cons c cs =>
          have hlt := card_missing_lt (hfresh ▸ List.mem_cons_self : c ∈ fresh rows link found)
          exact ih (by omega) ha

/-- The query answers the rows that a chain of joins leads to from the base. -/
theorem mem_answer_iff {base : List α} {b : α} :
    b ∈ answer rows link base ↔
      ∃ a ∈ base, Relation.ReflTransGen (Joined rows link) a b := by
  constructor
  · exact exists_joined_of_mem_rounds
  · rintro ⟨a, ha, hab⟩
    have hcard : (missing rows base).card ≤ rows.length :=
      (Finset.card_le_card Finset.sdiff_subset).trans rows.toFinset_card_le
    induction hab with
    | refl => exact subset_rounds _ _ ha
    | tail _ hbc ih => exact rounds_closed hcard ih hbc

end Recursive
