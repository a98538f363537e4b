import Mathlib

/-!
# Replacing a text

`replaceBy key pat new x` replaces every occurrence of `pat` in `x`, from left to right and
without overlaps, by `new`. The elements of `x` are characters seen through `key`, so that a
text may carry marks which the search does not look at; `replace` is the case of plain
characters. `replaceBy_induction` is the rule for what holds of a text and its replacement.
-/

namespace Text

variable {α : Type*}

/-- The scan. `skip` counts the elements left of an occurrence that was found. -/
def replaceFrom (key : α → Char) (pat : List Char) (new : List α) : ℕ → List α → List α
  | _, [] => []
  | skip + 1, _ :: x => replaceFrom key pat new skip x
  | 0, c :: x =>
      if pat.isPrefixOf ((c :: x).map key) then
        new ++ replaceFrom key pat new (pat.length - 1) x
      else c :: replaceFrom key pat new 0 x

/-- Replace every occurrence of a text that is not empty. -/
def replaceBy (key : α → Char) (pat : List Char) (new x : List α) : List α :=
  replaceFrom key pat new 0 x

def replace (pat new x : List Char) : List Char := replaceBy id pat new x

section ReplaceBy

variable {key : α → Char} {pat : List Char} {new x y : List α} {c : α}

@[simp] theorem replaceBy_nil : replaceBy key pat new [] = [] := rfl

theorem replaceFrom_eq (k : ℕ) (x : List α) :
    replaceFrom key pat new k x = replaceBy key pat new (x.drop k) := by
  induction x generalizing k with
  | nil => simp [replaceFrom]
  | cons c x ih =>
      cases k with
      | zero => rfl
      | succ k => exact ih k

theorem replaceBy_of_start (hpat : pat ≠ []) (h : x.map key = pat) :
    replaceBy key pat new (x ++ y) = new ++ replaceBy key pat new y := by
  cases x with
  | nil => exact absurd h.symm hpat
  | cons c x =>
      have hfound : pat.isPrefixOf ((c :: x ++ y).map key) = true := by
        rw [List.map_append, h, List.isPrefixOf_iff_prefix]
        exact List.prefix_append _ _
      have hlen : pat.length - 1 = x.length := by
        rw [← h, List.length_map]
        rfl
      rw [replaceBy, List.cons_append, replaceFrom, ← List.cons_append, if_pos hfound,
        replaceFrom_eq, hlen, List.drop_left]

theorem replaceBy_cons_of_not_start (h : ¬ pat <+: (c :: x).map key) :
    replaceBy key pat new (c :: x) = c :: replaceBy key pat new x := by
  rw [replaceBy, replaceFrom, if_neg (by rwa [List.isPrefixOf_iff_prefix])]
  rfl

/-- A text is empty, or it starts with an occurrence, or it starts with another element. -/
theorem replaceBy_induction (hpat : pat ≠ []) {motive : List α → List α → Prop}
    (nil : motive [] [])
    (found : ∀ w y, w.map key = pat → motive y (replaceBy key pat new y) →
      motive (w ++ y) (new ++ replaceBy key pat new y))
    (other : ∀ c y, ¬ pat <+: (c :: y).map key → motive y (replaceBy key pat new y) →
      motive (c :: y) (c :: replaceBy key pat new y))
    (x : List α) : motive x (replaceBy key pat new x) := by
  induction hn : x.length using Nat.strong_induction_on generalizing x with
  | _ n ih =>
      cases x with
      | nil => exact nil
      | cons c x =>
          by_cases h : pat <+: (c :: x).map key
          · obtain ⟨w, y, hx, hw, -⟩ := List.map_eq_append_iff.mp h.choose_spec.symm
            have hlen : y.length < n := by
              have hpos : 0 < w.length := by
                rw [← List.length_map (f := key), hw]
                exact List.length_pos_of_ne_nil hpat
              rw [← hn, hx, List.length_append]
              omega
            rw [hx, replaceBy_of_start hpat hw]
            exact found w y hw (ih _ hlen y rfl)
          · rw [replaceBy_cons_of_not_start h]
            refine other c x h (ih _ ?_ x rfl)
            rw [← hn, List.length_cons]
            exact Nat.lt_succ_self _

/-- Marks do not matter to the search. -/
theorem map_replaceBy (hpat : pat ≠ []) (x : List α) :
    (replaceBy key pat new x).map key = replace pat (new.map key) (x.map key) := by
  refine replaceBy_induction hpat (motive := fun x z =>
    z.map key = replace pat (new.map key) (x.map key)) rfl ?_ ?_ x
  · intro w y hw ih
    rw [List.map_append, ih, List.map_append]
    exact (replaceBy_of_start hpat ((List.map_id _).trans hw)).symm
  · intro c y h ih
    rw [List.map_cons, ih]
    refine (replaceBy_cons_of_not_start ?_).symm
    rw [List.map_id]
    exact h

/-- What starts no occurrence stays. -/
theorem replaceBy_append_of_head {d : Char} (hx : ∀ c ∈ x, key c ≠ d) (y : List α) :
    replaceBy key (d :: pat) new (x ++ y) = x ++ replaceBy key (d :: pat) new y := by
  induction x with
  | nil => rfl
  | cons c x ih =>
      rw [List.cons_append, replaceBy_cons_of_not_start, ih fun e he =>
        hx e (List.mem_cons_of_mem _ he), List.cons_append]
      rw [List.map_cons, List.cons_prefix_cons]
      exact fun h => hx c List.mem_cons_self h.1.symm

/-- An occurrence does not reach over an element that it does not contain. -/
theorem prefix_of_prefix_append_cons {x y : List Char} {d : Char} (hd : d ∉ pat)
    (h : pat <+: x ++ d :: y) : pat <+: x := by
  obtain ⟨t, ht⟩ := h
  rcases List.append_eq_append_iff.mp ht with ⟨s, hx, -⟩ | ⟨s, hpat, hs⟩
  · exact ⟨s, hx.symm⟩
  · cases s with
    | nil =>
        rw [hpat, List.append_nil]
    | cons e s =>
        obtain ⟨rfl, -⟩ := List.cons.inj hs
        exact absurd (hpat ▸ List.mem_append_right x List.mem_cons_self) hd

/-- The parts on both sides of such an element are replaced by themselves. -/
theorem replaceBy_append_cons (hpat : pat ≠ []) (hc : key c ∉ pat) (x y : List α) :
    replaceBy key pat new (x ++ c :: y) =
      replaceBy key pat new x ++ c :: replaceBy key pat new y := by
  refine replaceBy_induction hpat (motive := fun x z =>
    replaceBy key pat new (x ++ c :: y) = z ++ c :: replaceBy key pat new y) ?_ ?_ ?_ x
  · rw [List.nil_append, List.nil_append, replaceBy_cons_of_not_start]
    intro h
    have hnil := prefix_of_prefix_append_cons (x := []) hc h
    exact hpat (List.prefix_nil.mp hnil)
  · intro w z hw ih
    rw [List.append_assoc, replaceBy_of_start hpat hw, ih, List.append_assoc]
  · intro e z h ih
    rw [List.cons_append, replaceBy_cons_of_not_start, ih, List.cons_append]
    intro hpre
    rw [← List.cons_append, List.map_append, List.map_cons] at hpre
    exact h (prefix_of_prefix_append_cons hc hpre)

/-- What is in the replacement was in the text or is new. -/
theorem mem_of_mem_replaceBy (hpat : pat ≠ []) (h : c ∈ replaceBy key pat new x) :
    c ∈ x ∨ c ∈ new := by
  revert h
  refine replaceBy_induction hpat (motive := fun x z => c ∈ z → c ∈ x ∨ c ∈ new)
    (fun h => .inl h) ?_ ?_ x
  · intro w y _ ih h
    rcases List.mem_append.mp h with h | h
    · exact .inr h
    · exact (ih h).imp_left (List.mem_append_right _)
  · intro e y _ ih h
    rcases List.mem_cons.mp h with rfl | h
    · exact .inl List.mem_cons_self
    · exact (ih h).imp_left (List.mem_cons_of_mem _)

end ReplaceBy

/-! ## Plain texts -/

section Replace

variable {pat : List Char} {d : Char}

@[simp] theorem replace_nil (pat new : List Char) : replace pat new [] = [] := rfl

theorem replace_self_append (hpat : pat ≠ []) (new y : List Char) :
    replace pat new (pat ++ y) = new ++ replace pat new y :=
  replaceBy_of_start hpat (List.map_id pat)

theorem replace_cons_of_not_start {x : List Char} (h : ¬ pat <+: d :: x) (new : List Char) :
    replace pat new (d :: x) = d :: replace pat new x :=
  replaceBy_cons_of_not_start (by rwa [List.map_id])

theorem replace_of_not_mem {x : List Char} (h : d ∉ x) (new : List Char) :
    replace (d :: pat) new x = x := by
  have happ : replace (d :: pat) new (x ++ []) = x ++ replace (d :: pat) new [] :=
    replaceBy_append_of_head (fun c hc => ne_of_mem_of_not_mem hc h) []
  rwa [List.append_nil, replace_nil, List.append_nil] at happ

theorem replace_append_cons (hpat : pat ≠ []) (hd : d ∉ pat) (new x y : List Char) :
    replace pat new (x ++ d :: y) = replace pat new x ++ d :: replace pat new y :=
  replaceBy_append_cons hpat hd x y

end Replace

end Text
