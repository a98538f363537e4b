import Mathlib.Data.List.DropRight

/-!
# Bursts in a growing list

A burst is a block of neighbours that all satisfy `p`. A list that grows at its
end gets longer bursts only at its end, so the bursts of a history are bounded
once the burst it ends in is.
-/

namespace Burst

variable {α : Type*} (p : α → Bool)

/-- No burst of `l` is longer than `n`. -/
def AtMost (n : ℕ) (l : List α) : Prop :=
  ∀ l', l' <:+: l → (∀ x ∈ l', p x = true) → l'.length ≤ n

/-- The length of the burst `l` ends in. -/
def trailing (l : List α) : ℕ := (l.rtakeWhile p).length

@[simp] theorem trailing_nil : trailing p [] = 0 := rfl

variable {p}

theorem trailing_concat_of_pos {x : α} (l : List α) (h : p x = true) :
    trailing p (l ++ [x]) = trailing p l + 1 := by
  rw [trailing, List.rtakeWhile_concat_pos p l x h, List.length_append]
  rfl

theorem trailing_concat_of_neg {x : α} (l : List α) (h : ¬ p x = true) :
    trailing p (l ++ [x]) = 0 := by
  rw [trailing, List.rtakeWhile_concat_neg p l x h, List.length_nil]

/-- A burst at the end of a list is part of the one it ends in. -/
theorem length_le_trailing {l' l : List α} (h : l' <:+ l) (hp : ∀ x ∈ l', p x = true) :
    l'.length ≤ trailing p l := by
  obtain ⟨l₀, rfl⟩ := h
  induction l' using List.reverseRecOn with
  | nil => exact Nat.zero_le _
  | append_singleton l' x ih =>
      have hx : p x = true := hp x (by simp)
      rw [← List.append_assoc, trailing_concat_of_pos _ hx, List.length_append]
      exact Nat.succ_le_succ (ih fun y hy => hp y (List.mem_append_left _ hy))

theorem atMost_nil (n : ℕ) : AtMost p n [] := by
  intro l' h _
  rw [List.infix_nil.mp h]
  exact Nat.zero_le n

/-- Bursts stay bounded when the one the list ends in does. -/
theorem AtMost.concat {n : ℕ} {l : List α} {x : α} (h : AtMost p n l)
    (hx : trailing p (l ++ [x]) ≤ n) : AtMost p n (l ++ [x]) := by
  intro l' hl hp
  rcases List.infix_concat_iff.mp hl with hl | hl
  · exact (length_le_trailing hl hp).trans hx
  · exact h l' hl hp

end Burst
