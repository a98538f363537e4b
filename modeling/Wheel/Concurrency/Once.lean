import Wheel.Concurrency.Pool

/-!
# Sections of which one waits

Sections of a kind may wait only at the head of a task, and one of them at most:
`AtMostOne f` says this of the sections that meet `f`. A step keeps it when the
section it executes leaves such a section only in the place of itself, or where
none waited (`AtMostOne.step`); and once the one that waited was executed, none
waits (`AtMostOne.executed`).
-/

namespace Concurrency

variable {σ ι η κ ω : Type*}

/-- The task waits at a section that meets `f`. -/
def headMeets (f : ι → Bool) (t : List ι) : Bool := t.head?.any f

/-- The section is a first one that meets `f`. -/
def Section.meets (f : ι → Bool) : Section ι η κ → Bool
  | .first i => f i
  | .later _ _ => false

structure AtMostOne (f : ι → Bool) (p : Pool σ ι η κ) : Prop where
  tails : ∀ t ∈ p.tasks, ∀ i ∈ t.tail, f i = false
  held : ∀ k h t, p.held k = some (h, t) → ∀ i ∈ t, f i = false
  heads : p.tasks.countP (headMeets f) ≤ 1

/-- No section of a task meets `f`. -/
def Avoids (f : ι → Bool) (t : List ι) : Prop := ∀ i ∈ t, f i = false

variable {f : ι → Bool} {p : Pool σ ι η κ} {M : Machine σ ι η κ ω} {e : Event ι κ ω}
  {c : Section ι η κ} {tasks : List (List ι)} {rest : List ι} {o : ω}

theorem headMeets_eq_false {t : List ι} (h : Avoids f t) : headMeets f t = false := by
  cases t with
  | nil => rfl
  | cons i t => exact h i List.mem_cons_self

theorem avoids_of_head {t : List ι} (h : headMeets f t = false) (ht : Avoids f t.tail) :
    Avoids f t := by
  cases t with
  | nil => exact ht
  | cons i t =>
      intro j hj
      rcases List.mem_cons.mp hj with rfl | hj
      · exact h
      · exact ht j hj

theorem countP_headMeets_eq_zero {l : List (List ι)} (h : ∀ t ∈ l, Avoids f t) :
    l.countP (headMeets f) = 0 := by
  rw [List.countP_eq_zero]
  intro t ht
  rw [headMeets_eq_false (h t ht)]
  exact Bool.false_ne_true

theorem headMeets_append {t : List ι} (h : Avoids f rest) :
    headMeets f (t ++ rest) = headMeets f t := by
  cases t with
  | nil => exact headMeets_eq_false h
  | cons i t => rfl

theorem avoids_tail_append {t : List ι} (ht : Avoids f t.tail) (h : Avoids f rest) :
    Avoids f (t ++ rest).tail := by
  cases t with
  | nil => exact fun i hi => h i (List.mem_of_mem_tail hi)
  | cons i t =>
      intro j hj
      rcases List.mem_append.mp hj with hj | hj
      · exact ht j hj
      · exact h j hj

theorem atMostOne_idle (f : ι → Bool) (s : σ) : AtMostOne f (Pool.idle s : Pool σ ι η κ) where
  tails t ht := by cases ht
  held k h t hk := by cases hk
  heads := Nat.zero_le 1

theorem AtMostOne.call (h : AtMostOne f p) {t : List ι} (ht : Avoids f t) :
    AtMostOne f { p with tasks := p.tasks ++ [t] } where
  tails u hu := by
    rcases List.mem_append.mp hu with hu | hu
    · exact h.tails u hu
    · rw [List.mem_singleton.mp hu]
      exact fun i hi => ht i (List.mem_of_mem_tail hi)
  held := h.held
  heads := by
    rw [List.countP_append, List.countP_singleton, headMeets_eq_false ht]
    exact h.heads

/-- What is left of the tasks when a section is due. -/
theorem AtMostOne.due (h : AtMostOne f p) (hd : p.due M e = some (c, tasks, rest, o)) :
    (∀ t ∈ tasks, Avoids f t.tail) ∧ Avoids f rest ∧
      tasks.countP (headMeets f) + (if c.meets f then 1 else 0) =
        p.tasks.countP (headMeets f) := by
  cases e with
  | call t => cases hd
  | run n o' =>
      obtain ⟨i, hn, -, rfl, rfl, -⟩ := Pool.due_run_iff.mp hd
      refine ⟨fun t ht => h.tails t (List.mem_of_mem_eraseIdx ht),
        h.tails _ (List.mem_of_getElem? hn), ?_⟩
      obtain ⟨hlt, hget⟩ := List.getElem?_eq_some_iff.mp hn
      have hperm := (List.getElem_cons_eraseIdx_perm hlt).countP_eq (headMeets f)
      rw [← hperm, hget, List.countP_cons]
      rfl
  | resume k o' =>
      obtain ⟨x, hk, rfl, rfl, -⟩ := Pool.due_resume_iff.mp hd
      exact ⟨h.tails, h.held k x rest hk, rfl⟩

variable [DecidableEq κ]

theorem AtMostOne.step (h : AtMostOne f p) (hd : p.due M e = some (c, tasks, rest, o))
    (hspawn : ∀ t ∈ (M.act c p.shared o).2.spawn, Avoids f t)
    (htail : Avoids f (M.act c p.shared o).2.follow.tail)
    (hkept : ∀ x, (M.act c p.shared o).2.hold = some x → Avoids f (M.act c p.shared o).2.follow)
    (hhead : headMeets f (M.act c p.shared o).2.follow = true →
      c.meets f = true ∨ ∀ i, p.Has i → f i = false) : AtMostOne f (p.step M e) := by
  obtain ⟨htasks, hrest, hcount⟩ := h.due hd
  have hheads := h.heads
  rw [Pool.step_of_due hd]
  generalize M.act c p.shared o = r at hspawn htail hkept hhead
  -- The new task waits at such a section only when the executed one was such a section.
  have hnew : tasks.countP (headMeets f) +
      (if headMeets f (r.2.follow ++ rest) then 1 else 0) ≤ 1 := by
    rw [headMeets_append hrest]
    cases hm : headMeets f r.2.follow with
    | false =>
        simp only [Bool.false_eq_true, if_false]
        omega
    | true =>
        simp only [if_true]
        rcases hhead hm with hc | hnone
        · rw [hc, if_pos rfl] at hcount
          omega
        · have hzero : p.tasks.countP (headMeets f) = 0 :=
            countP_headMeets_eq_zero fun t ht i hi => hnone i (.inl ⟨t, ht, hi⟩)
          omega
  have hspawns : r.2.spawn.countP (headMeets f) = 0 := countP_headMeets_eq_zero hspawn
  have hplaced : ∀ t ∈ tasks ++ (r.2.follow ++ rest) :: r.2.spawn, Avoids f t.tail := by
    intro t ht
    rcases List.mem_append.mp ht with ht | ht
    · exact htasks t ht
    · rcases List.mem_cons.mp ht with rfl | ht
      · exact avoids_tail_append htail hrest
      · exact fun i hi => hspawn t ht i (List.mem_of_mem_tail hi)
  have hplacedCount : (tasks ++ (r.2.follow ++ rest) :: r.2.spawn).countP (headMeets f) ≤ 1 := by
    rw [List.countP_append, List.countP_cons, hspawns]
    omega
  unfold Pool.place
  split
  · rename_i k x hl hh
    refine ⟨?_, ?_, ?_⟩
    · intro t ht
      rcases List.mem_append.mp ht with ht | ht
      · exact htasks t ht
      · exact fun i hi => hspawn t ht i (List.mem_of_mem_tail hi)
    · intro k' y t hk'
      dsimp only at hk'
      by_cases hkk : k' = k
      · subst hkk
        rw [Function.update_self] at hk'
        cases hk'
        intro i hi
        rcases List.mem_append.mp hi with hi | hi
        · exact hkept x hh i hi
        · exact hrest i hi
      · rw [Function.update_of_ne hkk] at hk'
        exact h.held k' y t hk'
    · show (tasks ++ r.2.spawn).countP (headMeets f) ≤ 1
      rw [List.countP_append, hspawns]
      omega
  · rename_i k hl hh
    refine ⟨hplaced, ?_, hplacedCount⟩
    intro k' y t hk'
    dsimp only at hk'
    by_cases hkk : k' = k
    · subst hkk
      rw [Function.update_self] at hk'
      cases hk'
    · rw [Function.update_of_ne hkk] at hk'
      exact h.held k' y t hk'
  · exact ⟨hplaced, h.held, hplacedCount⟩

/-- The section that waited was executed, and left none. -/
theorem AtMostOne.executed (h : AtMostOne f p) (hd : p.due M e = some (c, tasks, rest, o))
    (hc : c.meets f = true) (hadds : ∀ i, (M.act c p.shared o).2.Adds i → f i = false) {i : ι}
    (hi : (p.step M e).Has i) : f i = false := by
  obtain ⟨htasks, hrest, hcount⟩ := h.due hd
  have hheads := h.heads
  rw [hc, if_pos rfl] at hcount
  rw [Pool.step_of_due hd, Pool.has_place_iff] at hi
  rcases hi with (⟨t, ht, hi⟩ | hi | ⟨k, x, t, -, hk, hi⟩) | hi
  · have hzero : tasks.countP (headMeets f) = 0 := by omega
    have hhead : headMeets f t = false := by
      rw [List.countP_eq_zero] at hzero
      exact Bool.eq_false_iff.mpr (hzero t ht)
    exact avoids_of_head hhead (htasks t ht) i hi
  · exact hrest i hi
  · exact h.held k x t hk i hi
  · exact hadds i hi

end Concurrency
