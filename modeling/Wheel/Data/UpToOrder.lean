import Mathlib.Data.List.Perm.Basic

/-!
# Lists up to order

`UpToOrder R x y` relates two lists whose members are related by `R` in some order. What
is built from the members of one, each looked at by itself, is built from those of the
other up to order.
-/

variable {α β γ : Type}

/-- The members of `y` are those of `x` up to `R`, in another order. -/
def UpToOrder (R : α → β → Prop) (x : List α) (y : List β) : Prop :=
  ∃ z, List.Forall₂ R x z ∧ z.Perm y

namespace UpToOrder

variable {R : α → β → Prop} {x : List α} {y : List β}

theorem mono {R' : α → β → Prop} (h : UpToOrder R x y)
    (hR : ∀ a ∈ x, ∀ b ∈ y, R a b → R' a b) : UpToOrder R' x y := by
  obtain ⟨z, hz, hp⟩ := h
  refine ⟨z, ?_, hp⟩
  have hmem : ∀ b ∈ z, b ∈ y := fun b hb => hp.mem_iff.mp hb
  clear hp
  induction hz with
  | nil => exact .nil
  | cons hab hz ih =>
      refine .cons (hR _ List.mem_cons_self _ (hmem _ List.mem_cons_self) hab) (ih ?_ ?_)
      · exact fun a ha => hR a (List.mem_cons_of_mem _ ha)
      · exact fun b hb => hmem b (List.mem_cons_of_mem _ hb)

theorem mem (h : UpToOrder R x y) : UpToOrder (fun a b => a ∈ x ∧ b ∈ y ∧ R a b) x y :=
  h.mono fun _ ha _ hb hab => ⟨ha, hb, hab⟩

theorem symm (h : UpToOrder R x y) : UpToOrder (flip R) y x := by
  obtain ⟨z, hz, hp⟩ := h
  exact List.perm_comp_forall₂ hp.symm hz.flip

theorem of_perm {y : List α} (h : x.Perm y) : UpToOrder Eq x y :=
  ⟨x, List.forall₂_same.mpr fun _ _ => rfl, h⟩

theorem perm_of_eq {y : List α} (h : UpToOrder Eq x y) : x.Perm y := by
  obtain ⟨z, hz, hp⟩ := h
  rw [List.forall₂_eq_eq_eq] at hz
  exact hz ▸ hp

theorem length_eq (h : UpToOrder R x y) : x.length = y.length := by
  obtain ⟨z, hz, hp⟩ := h
  exact hz.length_eq.trans hp.length_eq

/-- Every member of the one has its counterpart in the other. -/
theorem exists_left (h : UpToOrder R x y) {b : β} (hb : b ∈ y) : ∃ a ∈ x, R a b := by
  obtain ⟨z, hz, hp⟩ := h
  replace hb := hp.mem_iff.mpr hb
  clear hp
  induction hz with
  | nil => cases hb
  | cons hab hz ih =>
      rcases List.mem_cons.mp hb with rfl | hb
      · exact ⟨_, List.mem_cons_self, hab⟩
      · obtain ⟨a, ha, hr⟩ := ih hb
        exact ⟨a, List.mem_cons_of_mem _ ha, hr⟩

theorem exists_right (h : UpToOrder R x y) {a : α} (ha : a ∈ x) : ∃ b ∈ y, R a b := by
  obtain ⟨z, hz, hp⟩ := h
  suffices hs : ∃ b ∈ z, R a b by
    obtain ⟨b, hb, hr⟩ := hs
    exact ⟨b, hp.mem_iff.mp hb, hr⟩
  clear hp
  induction hz with
  | nil => cases ha
  | cons hab hz ih =>
      rcases List.mem_cons.mp ha with rfl | ha
      · exact ⟨_, List.mem_cons_self, hab⟩
      · obtain ⟨b, hb, hr⟩ := ih ha
        exact ⟨b, List.mem_cons_of_mem _ hb, hr⟩

/-- What the members make, in turn, is the same up to order. -/
theorem flatMap (h : UpToOrder R x y) {f : α → List γ} {g : β → List γ}
    (hfg : ∀ a b, R a b → (f a).Perm (g b)) : (x.flatMap f).Perm (y.flatMap g) := by
  obtain ⟨z, hz, hp⟩ := h
  refine List.Perm.trans ?_ (hp.flatMap_right g)
  clear hp
  induction hz with
  | nil => exact .refl _
  | cons hab hz ih =>
      rw [List.flatMap_cons, List.flatMap_cons]
      exact (hfg _ _ hab).append ih

theorem map (h : UpToOrder R x y) {f : α → γ} {g : β → γ} (hfg : ∀ a b, R a b → f a = g b) :
    (x.map f).Perm (y.map g) := by
  rw [← List.flatMap_singleton' (x.map f), ← List.flatMap_singleton' (y.map g), List.flatMap_map,
    List.flatMap_map]
  refine h.flatMap fun a b hab => ?_
  rw [hfg a b hab]

theorem filterMap (h : UpToOrder R x y) {f : α → Option γ} {g : β → Option γ}
    (hfg : ∀ a b, R a b → f a = g b) : (x.filterMap f).Perm (y.filterMap g) := by
  obtain ⟨z, hz, hp⟩ := h
  refine List.Perm.trans ?_ (hp.filterMap g)
  clear hp
  induction hz with
  | nil => exact .refl _
  | cons hab hz ih =>
      rw [List.filterMap_cons, List.filterMap_cons, hfg _ _ hab]
      split
      · exact ih
      · exact ih.cons _

theorem filter (h : UpToOrder R x y) {p : α → Bool} {q : β → Bool}
    (hpq : ∀ a b, R a b → p a = q b) : UpToOrder R (x.filter p) (y.filter q) := by
  obtain ⟨z, hz, hp⟩ := h
  refine ⟨z.filter q, ?_, hp.filter q⟩
  clear hp
  induction hz with
  | nil => exact .nil
  | @cons a b x z hab hz ih =>
      rw [List.filter_cons, List.filter_cons, hpq a b hab]
      split
      · exact .cons hab ih
      · exact ih

/-- The last member that meets a condition does not depend on the order, as far as all of
them agree. -/
theorem find?_reverse (h : UpToOrder R x y) {p : α → Bool} {q : β → Bool} {f : α → γ} {g : β → γ}
    (hpq : ∀ a b, R a b → p a = q b) (hfg : ∀ a b, R a b → f a = g b)
    (hf : ∀ a ∈ x, ∀ a' ∈ x, p a = true → p a' = true → f a = f a') :
    (x.reverse.find? p).map f = (y.reverse.find? q).map g := by
  cases hx : x.reverse.find? p with
  | none =>
      cases hy : y.reverse.find? q with
      | none => rfl
      | some b =>
          obtain ⟨a, ha, hab⟩ := h.exists_left (List.mem_reverse.mp (List.mem_of_find?_eq_some hy))
          have hq := List.find?_some hy
          rw [← hpq a b hab] at hq
          exact absurd hq (List.find?_eq_none.mp hx a (List.mem_reverse.mpr ha))
  | some a =>
      have ha := List.mem_reverse.mp (List.mem_of_find?_eq_some hx)
      obtain ⟨b, hb, hab⟩ := h.exists_right ha
      have hp := List.find?_some hx
      cases hy : y.reverse.find? q with
      | none =>
          rw [hpq a b hab] at hp
          exact absurd hp (List.find?_eq_none.mp hy b (List.mem_reverse.mpr hb))
      | some b' =>
          obtain ⟨a', ha', hab'⟩ :=
            h.exists_left (List.mem_reverse.mp (List.mem_of_find?_eq_some hy))
          have hp' := List.find?_some hy
          rw [← hpq a' b' hab'] at hp'
          rw [Option.map_some, Option.map_some, ← hfg a' b' hab', hf a ha a' ha' hp hp']

end UpToOrder
