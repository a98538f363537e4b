import Mathlib

/-!
# Windows of a list

`window offset n x` is what a page of at most `n` entries shows of `x`. A page of a list
without repetitions and a page of the entries that meet a condition are the same exactly when
the page is empty or everything up to its end meets the condition (`window_filter_eq_iff`).
-/

namespace Page

variable {α : Type*}

def window (offset n : ℕ) (x : List α) : List α := (x.drop offset).take n

theorem window_of_length_le {offset n : ℕ} {x : List α} (h : x.length ≤ offset) :
    window offset n x = [] := by
  unfold window
  rw [List.drop_eq_nil_of_le h, List.take_nil]

theorem window_zero (offset : ℕ) (x : List α) : window offset 0 x = [] := List.take_zero

theorem window_eq_drop_take (offset n : ℕ) (x : List α) :
    window offset n x = (x.take (offset + n)).drop offset := by
  unfold window
  rw [List.drop_take, Nat.add_sub_cancel_left]

theorem head?_window {offset n : ℕ} (hn : n ≠ 0) (x : List α) :
    (window offset n x).head? = x[offset]? := by
  unfold window
  rw [List.head?_take, if_neg hn, List.head?_drop]

theorem mem_of_mem_window {offset n : ℕ} {x : List α} {a : α} (h : a ∈ window offset n x) :
    a ∈ x :=
  List.mem_of_mem_drop (List.mem_of_mem_take h)

section Filter

variable {q : α → Bool} {x : List α} {k offset n : ℕ}

/-- An entry that stays stands no further back among those that stay. -/
theorem filter_getElem?_eq {a : α} (hx : x.Nodup) (ha : x[k]? = some a)
    (hoffset : (x.filter q)[offset]? = some a) : offset = ((x.take k).filter q).length := by
  have hk := List.getElem?_eq_some_iff.mp ha
  obtain ⟨hlt, hget⟩ := hk
  have hsplit : x = x.take k ++ a :: x.drop (k + 1) := by
    rw [← hget, ← List.drop_eq_getElem_cons hlt, List.take_append_drop]
  have hq : q a = true := List.of_mem_filter (List.mem_of_getElem? hoffset)
  have hfilter : x.filter q =
      (x.take k).filter q ++ a :: (x.drop (k + 1)).filter q := by
    conv_lhs => rw [hsplit]
    rw [List.filter_append, List.filter_cons_of_pos hq]
  have hnodup : (x.filter q).Nodup := hx.filter q
  have hat : (x.filter q)[((x.take k).filter q).length]? = some a := by
    rw [hfilter, List.getElem?_append_right (Nat.le_refl _), Nat.sub_self]
    rfl
  have hlt' : offset < (x.filter q).length := (List.getElem?_eq_some_iff.mp hoffset).1
  exact (List.getElem?_inj hlt' hnodup).mp (hoffset.trans hat.symm)

/-- The pages are the same exactly when they are empty, or start at the same place with
everything up to their end meeting the condition. -/
theorem window_filter_eq_iff (hx : x.Nodup) (hk : k ≤ offset) :
    window k n x = window offset n (x.filter q) ↔
      n = 0 ∨ x.length ≤ k ∨ (k = offset ∧ ∀ a ∈ x.take (offset + n), q a = true) := by
  constructor
  · intro h
    by_cases hn : n = 0
    · exact .inl hn
    by_cases hlen : x.length ≤ k
    · exact .inr (.inl hlen)
    refine .inr (.inr ?_)
    have ha : x[k]? = some x[k] := List.getElem?_eq_getElem _
    have hhead := congrArg List.head? h
    rw [head?_window hn, head?_window hn, ha] at hhead
    have hpos := filter_getElem?_eq hx ha hhead.symm
    have hle : ((x.take k).filter q).length ≤ k :=
      (List.length_filter_le _ _).trans (List.length_take_le _ _)
    obtain rfl : k = offset := by omega
    refine ⟨rfl, fun a hmem => ?_⟩
    rw [List.take_add] at hmem
    rcases List.mem_append.mp hmem with hbefore | hpage
    · have hall : ((x.take k).filter q).length = (x.take k).length := by
        rw [List.length_take]
        omega
      exact List.length_filter_eq_length_iff.mp hall a hbefore
    · have hpage' : a ∈ window k n (x.filter q) := h ▸ hpage
      exact List.of_mem_filter (mem_of_mem_window hpage')
  · rintro (rfl | hlen | ⟨rfl, hall⟩)
    · rw [window_zero, window_zero]
    · rw [window_of_length_le hlen,
        window_of_length_le (((List.length_filter_le _ _).trans hlen).trans hk)]
    · have hsplit : x.filter q = x.take (k + n) ++ (x.drop (k + n)).filter q := by
        conv_lhs => rw [← List.take_append_drop (k + n) x]
        rw [List.filter_append, List.filter_eq_self.mpr hall]
      rw [window_eq_drop_take, window_eq_drop_take, hsplit]
      by_cases hlen : x.length ≤ k + n
      · rw [List.drop_eq_nil_of_le hlen, List.filter_nil, List.append_nil,
          List.take_of_length_le hlen, List.take_of_length_le hlen]
      · have htake : (x.take (k + n)).length = k + n := by
          rw [List.length_take]
          omega
        rw [List.take_left' htake]

end Filter

/-- The first entries that meet one condition are the first that meet another, exactly when
enough entries meet the other before any that the conditions disagree on. -/
theorem take_filter_eq_iff {p q : α → Bool} {n : ℕ} {x : List α} :
    (x.filter p).take n = (x.filter q).take n ↔
      ∀ a r b, x = a ++ r :: b → p r ≠ q r → n ≤ (a.filter q).length := by
  induction x generalizing n with
  | nil =>
      refine ⟨fun _ a r b h => ?_, fun _ => rfl⟩
      exact absurd h.symm (List.append_ne_nil_of_right_ne_nil _ (List.cons_ne_nil _ _))
  | cons c x ih =>
      cases n with
      | zero => exact ⟨fun _ _ _ _ _ _ => Nat.zero_le _, fun _ => rfl⟩
      | succ n =>
          have hhead (h : ∀ a r b, c :: x = a ++ r :: b → p r ≠ q r →
              n + 1 ≤ (a.filter q).length) : p c = q c := by
            by_contra hne
            exact absurd (h [] c x rfl hne) (Nat.not_succ_le_zero n)
          have htail (k l : ℕ) (hkl : ∀ a : List α, k ≤ (a.filter q).length ↔
              l ≤ ((c :: a).filter q).length) (hc : p c = q c) :
              (∀ a r b, x = a ++ r :: b → p r ≠ q r → k ≤ (a.filter q).length) ↔
                ∀ a r b, c :: x = a ++ r :: b → p r ≠ q r → l ≤ (a.filter q).length := by
            constructor
            · intro h a r b hx hr
              cases a with
              | nil => exact absurd ((List.cons.inj hx).1 ▸ hc) hr
              | cons d a =>
                  obtain ⟨rfl, hrest⟩ := List.cons.inj hx
                  exact (hkl a).mp (h a r b hrest hr)
            · intro h a r b hx hr
              exact (hkl a).mpr (h (c :: a) r b (congrArg (c :: ·) hx) hr)
          cases hp : p c with
          | true =>
              cases hq : q c with
              | true =>
                  rw [List.filter_cons_of_pos hp, List.filter_cons_of_pos hq, List.take_succ_cons,
                    List.take_succ_cons, List.cons_inj_right, ih]
                  refine htail n (n + 1) (fun a => ?_) (hp.trans hq.symm)
                  rw [List.filter_cons_of_pos hq, List.length_cons, Nat.add_le_add_iff_right]
              | false =>
                  refine ⟨fun h => ?_, fun h => absurd (hhead h) (by rw [hp, hq]; decide)⟩
                  rw [List.filter_cons_of_pos hp, List.take_succ_cons] at h
                  have hmem : c ∈ ((c :: x).filter q).take (n + 1) := h ▸ List.mem_cons_self
                  have hqc := List.of_mem_filter (List.mem_of_mem_take hmem)
                  rw [hq] at hqc
                  cases hqc
          | false =>
              cases hq : q c with
              | true =>
                  refine ⟨fun h => ?_, fun h => absurd (hhead h) (by rw [hp, hq]; decide)⟩
                  rw [List.filter_cons_of_pos hq, List.take_succ_cons] at h
                  have hmem : c ∈ ((c :: x).filter p).take (n + 1) := h ▸ List.mem_cons_self
                  have hpc := List.of_mem_filter (List.mem_of_mem_take hmem)
                  rw [hp] at hpc
                  cases hpc
              | false =>
                  have hp' : ¬ p c = true := hp ▸ Bool.false_ne_true
                  have hq' : ¬ q c = true := hq ▸ Bool.false_ne_true
                  rw [List.filter_cons_of_neg hp', List.filter_cons_of_neg hq', ih]
                  refine htail (n + 1) (n + 1) (fun a => ?_) (hp.trans hq.symm)
                  rw [List.filter_cons_of_neg hq']

/-- Sorting what meets a condition, or leaving out of the sorted what does not. -/
theorem insertionSort_filter [LinearOrder α] (p : α → Bool) (x : List α) :
    (x.filter p).insertionSort (· ≤ ·) = (x.insertionSort (· ≤ ·)).filter p := by
  have hperm : ((x.filter p).insertionSort (· ≤ ·)).Perm
      ((x.insertionSort (· ≤ ·)).filter p) :=
    (List.perm_insertionSort _ _).trans ((List.perm_insertionSort _ x).symm.filter p)
  exact hperm.eq_of_pairwise (fun a b _ _ => le_antisymm) (List.pairwise_insertionSort _ _)
    ((List.pairwise_insertionSort _ x).filter p)

end Page
