import Wheel.Text.Escape

/-!
# Texts cut at a delimiter

A text can be put together from frames with a delimiter between them. When no frame holds the
delimiter, the frames are read off the text again, and a needle that starts with the delimiter
occurs once for each frame behind the first that starts with the rest of it.
-/

namespace Text

/-- A text is quoted unambiguously when the first character is always known from what is
written. -/
theorem flatMap_injective {f : Char → List Char} (hne : ∀ c, f c ≠ [])
    (h : ∀ c d x y, f c ++ x = f d ++ y → c = d) :
    Function.Injective fun x : List Char => x.flatMap f := by
  intro x
  induction x with
  | nil =>
      rintro (- | ⟨d, y⟩) hxy
      · rfl
      · exact absurd (List.append_eq_nil_iff.1 hxy.symm).1 (hne d)
  | cons c x ih =>
      rintro (- | ⟨d, y⟩) hxy
      · exact absurd (List.append_eq_nil_iff.1 hxy).1 (hne c)
      · simp only [List.flatMap_cons] at hxy
        obtain rfl := h c d _ _ hxy
        rw [ih (List.append_cancel_left hxy)]

section frames

variable {d : Char}

theorem intercalate_cons (f : List Char) (x : List (List Char)) :
    [d].intercalate (f :: x) = f ++ x.flatMap fun g => d :: g := by
  induction x generalizing f with
  | nil => simp [List.intercalate_singleton]
  | cons g x ih =>
      rw [List.intercalate_cons_cons, ih, List.flatMap_cons]
      simp

/-- The frames of a text. -/
theorem intercalate_inj {x y : List (List Char)} (hx : ∀ f ∈ x, d ∉ f) (hy : ∀ f ∈ y, d ∉ f)
    (hxne : x ≠ []) (hyne : y ≠ []) (h : [d].intercalate x = [d].intercalate y) : x = y := by
  rw [← List.splitOn_intercalate d hx hxne, h, List.splitOn_intercalate d hy hyne]

theorem length_occurrencesFrom (needle x : List Char) (k : ℕ) :
    (occurrencesFrom needle k x).length = (occurrences needle x).length := by
  have hmove : ∀ i j, (occurrencesFrom needle i x).length =
      (occurrencesFrom needle j x).length := by
    induction x with
    | nil =>
        intro i j
        rw [occurrencesFrom, occurrencesFrom]
        split <;> rfl
    | cons c x ih =>
        intro i j
        rw [occurrencesFrom, occurrencesFrom]
        split
        · rw [List.length_cons, List.length_cons, ih (i + 1) (j + 1)]
        · exact ih (i + 1) (j + 1)
  exact hmove k 0

/-- How often a needle that starts with the delimiter occurs. -/
theorem length_occurrences_intercalate {needle : List Char} (hd : d.isAlpha = false)
    (hneedle : d ∉ needle) {x : List (List Char)} (hx : ∀ f ∈ x, d ∉ f) :
    (occurrences (d :: needle) ([d].intercalate x)).length =
      x.tail.countP fun f => startsWithCI needle f := by
  have habsent : ∀ f y, d ∉ f → AbsentBefore (d :: needle) f y := fun f y hf =>
    absentBefore_of_head fun c hc => toLower_ne_of_ne hd fun he => hf (he ▸ hc)
  have hempty : startsWithCI (d :: needle) [] = false := by
    simp [startsWithCI]
  induction x with
  | nil => simp [occurrences, occurrencesFrom, hempty]
  | cons f x ih =>
      have hf := hx f (.head _)
      cases x with
      | nil =>
          have hnone := occurrencesFrom_append (habsent f [] hf) 0
          rw [List.append_nil] at hnone
          simp [List.intercalate_singleton, occurrences, hnone, occurrencesFrom, hempty]
      | cons g x =>
          have ih := ih fun e he => hx e (.tail _ he)
          have hstart : startsWithCI (d :: needle) (d :: [d].intercalate (g :: x)) =
              startsWithCI needle g := by
            have hg : startsWithCI needle ([d].intercalate (g :: x)) = startsWithCI needle g := by
              cases x with
              | nil => rw [List.intercalate_singleton]
              | cons e x =>
                  rw [List.intercalate_cons_cons, List.append_assoc, List.singleton_append,
                    startsWithCI_append_of_not_mem hd hneedle]
            rw [startsWithCI_cons, beq_self_eq_true, Bool.true_and, hg]
          rw [List.intercalate_cons_cons, List.append_assoc, List.singleton_append, occurrences,
            occurrencesFrom_append (habsent f _ hf), occurrencesFrom, hstart, List.tail_cons,
            List.countP_cons]
          split
          · rw [List.length_cons, length_occurrencesFrom, ih, List.tail_cons]
          · rw [length_occurrencesFrom, ih, List.tail_cons, Nat.add_zero]

end frames

end Text
