import Mathlib

/-!
# Runs of a machine

A machine is a step function on states; an event that is not enabled leaves the
state as it is. `run` folds the step over a list of events, and `Always P` says
that `P` holds of the state and the event at every step of a run. The rules of
the file carry a property from one step to a whole run: an invariant that steps
under a condition preserve holds at the end of every run that meets the
condition, and in every state on the way.
-/

namespace Run

variable {σ ι : Type*} (step : σ → ι → σ)

/-- The state a list of events leads to. -/
def run (s : σ) (x : List ι) : σ := x.foldl step s

@[simp] theorem run_nil (s : σ) : run step s [] = s := rfl

@[simp] theorem run_cons (s : σ) (i : ι) (x : List ι) :
    run step s (i :: x) = run step (step s i) x := rfl

theorem run_append (s : σ) (x y : List ι) :
    run step s (x ++ y) = run step (run step s x) y := List.foldl_append

/-- `P` holds at every step of a run. -/
def Always (P : σ → ι → Prop) : σ → List ι → Prop
  | _, [] => True
  | s, i :: x => P s i ∧ Always P (step s i) x

instance decidableAlways (P : σ → ι → Prop) [∀ s i, Decidable (P s i)] :
    (s : σ) → (x : List ι) → Decidable (Always step P s x)
  | _, [] => .isTrue trivial
  | s, i :: x =>
      have := decidableAlways P (step s i) x
      inferInstanceAs (Decidable (P s i ∧ Always step P (step s i) x))

variable {step}

theorem always_append {P : σ → ι → Prop} {s : σ} {x y : List ι} :
    Always step P s (x ++ y) ↔ Always step P s x ∧ Always step P (run step s x) y := by
  induction x generalizing s with
  | nil => simp [Always]
  | cons i x ih => simp [Always, ih, and_assoc]

theorem always_congr {P Q : σ → ι → Prop} (h : ∀ s i, P s i ↔ Q s i) (s : σ) (x : List ι) :
    Always step P s x ↔ Always step Q s x := by
  induction x generalizing s with
  | nil => exact Iff.rfl
  | cons i x ih => exact and_congr (h s i) (ih _)

theorem always_and {P Q : σ → ι → Prop} {s : σ} {x : List ι} (hP : Always step P s x)
    (hQ : Always step Q s x) : Always step (fun s i => P s i ∧ Q s i) s x := by
  induction x generalizing s with
  | nil => trivial
  | cons i x ih => exact ⟨⟨hP.1, hQ.1⟩, ih hP.2 hQ.2⟩

theorem Always.mono {P Q : σ → ι → Prop} (h : ∀ s i, P s i → Q s i) {s : σ} {x : List ι}
    (hx : Always step P s x) : Always step Q s x := by
  induction x generalizing s with
  | nil => trivial
  | cons i x ih => exact ⟨h s i hx.1, ih hx.2⟩

theorem always_of_forall_mem {P : σ → ι → Prop} {s : σ} {x : List ι}
    (h : ∀ s, ∀ i ∈ x, P s i) : Always step P s x := by
  induction x generalizing s with
  | nil => trivial
  | cons i x ih =>
      exact ⟨h s i List.mem_cons_self, ih fun t j hj => h t j (List.mem_cons_of_mem _ hj)⟩

/-- An invariant that steps under `C` preserve holds at the end of a run under `C`. -/
theorem invariant {C : σ → ι → Prop} {I : σ → Prop}
    (hstep : ∀ s i, I s → C s i → I (step s i)) {s : σ} {x : List ι} (hs : I s)
    (hx : Always step C s x) : I (run step s x) := by
  induction x generalizing s with
  | nil => exact hs
  | cons i x ih => exact ih (hstep s i hs hx.1) hx.2

/-- An invariant that every step preserves holds at the end of every run. -/
theorem invariant_run {I : σ → Prop} (hstep : ∀ s i, I s → I (step s i)) {s : σ} (hs : I s)
    (x : List ι) : I (run step s x) := by
  induction x generalizing s with
  | nil => exact hs
  | cons i x ih => exact ih (hstep s i hs)

/-- Under an invariant, a condition on the steps may be replaced by what it
implies. -/
theorem always_of_invariant {C P : σ → ι → Prop} {I : σ → Prop}
    (hstep : ∀ s i, I s → C s i → I (step s i)) (hP : ∀ s i, I s → C s i → P s i) {s : σ}
    {x : List ι} (hs : I s) (hx : Always step C s x) : Always step P s x := by
  induction x generalizing s with
  | nil => trivial
  | cons i x ih => exact ⟨hP s i hs hx.1, ih (hstep s i hs hx.1) hx.2⟩

/-! ## Counting steps -/

/-- How many steps of a run meet `P`. -/
def count (step : σ → ι → σ) (P : σ → ι → Bool) : σ → List ι → ℕ
  | _, [] => 0
  | s, i :: x => (P s i).toNat + count step P (step s i) x

/-- If a step that meets `P` uses up a potential that only steps that meet `Q` restore,
the steps that meet `P` are bounded by the potential and the steps that meet `Q`. -/
theorem count_add_le {P Q : σ → ι → Bool} {φ : σ → ℕ}
    (h : ∀ s i, φ (step s i) + (P s i).toNat ≤ φ s + (Q s i).toNat) (s : σ) (x : List ι) :
    φ (run step s x) + count step P s x ≤ φ s + count step Q s x := by
  induction x generalizing s with
  | nil => exact Nat.le_refl _
  | cons i x ih =>
      have hstep := h s i
      have hrest := ih (step s i)
      unfold count
      rw [run_cons]
      omega

theorem count_eq_zero {P : σ → ι → Bool} (h : ∀ s i, P s i = false) (s : σ) (x : List ι) :
    count step P s x = 0 := by
  induction x generalizing s with
  | nil => rfl
  | cons i x ih =>
      unfold count
      rw [h s i, ih]
      rfl

/-- Steps that meet `P` meet `Q` or `R`. -/
theorem count_le_add {P Q R : σ → ι → Bool} (h : ∀ s i, P s i = true → Q s i = true ∨ R s i = true)
    (s : σ) (x : List ι) : count step P s x ≤ count step Q s x + count step R s x := by
  induction x generalizing s with
  | nil => exact Nat.le_refl _
  | cons i x ih =>
      have hrest := ih (step s i)
      have hstep : (P s i).toNat ≤ (Q s i).toNat + (R s i).toNat := by
        cases hP : P s i with
        | false => exact Nat.zero_le _
        | true =>
            rcases h s i hP with hq | hr
            · rw [hq]
              exact Nat.le_add_right _ _
            · rw [hr]
              exact Nat.le_add_left _ _
      unfold count
      omega

end Run
