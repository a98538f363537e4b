import Wheel.Data.Run

/-!
# Pools of tasks over locks

A task is the list of the sections it still has to execute. A section runs
atomically on the shared state; it may need a lock, which has to be free, and it
may keep that lock for a later section, during which every other task runs on.
A `Pool` is the shared state, the waiting tasks and the holders of the locks. A
step executes the head section of some task, lets the holder of a lock go on, or
starts a new task, so a run of `Pool.step` is an arbitrary interleaving.

An `Outline` is what a proof knows about a pool: an invariant of the shared
state, what every waiting section and every lock holder may rely on, and debts
that some waiting section or some holder has to pay. `Outline.valid_step` says
that an outline stays valid when the executed section keeps it.
-/

namespace Concurrency

/-- What a section leaves to be done: how its own task goes on, the phase in
which it keeps its lock, and the tasks it starts. -/
structure Next (ι η : Type*) where
  follow : List ι := []
  hold : Option η := none
  spawn : List (List ι) := []

/-- A section is due in `Next` when the task goes on with it or a new task
contains it. -/
def Next.Adds {ι η : Type*} (nx : Next ι η) (i : ι) : Prop :=
  i ∈ nx.follow ∨ ∃ t ∈ nx.spawn, i ∈ t

/-- A section: the first one of a critical section, or a later phase of the
holder of a lock. -/
inductive Section (ι η κ : Type*) where
  | first (i : ι)
  | later (k : κ) (h : η)

/-- The sections of a program over a shared state; `ω` decides what the
environment answers. -/
structure Machine (σ ι η κ ω : Type*) where
  lock : ι → Option κ
  act : Section ι η κ → σ → ω → σ × Next ι η

/-- A shared state, the waiting tasks, and the phase and the remaining task of
each lock's holder. -/
structure Pool (σ ι η κ : Type*) where
  shared : σ
  tasks : List (List ι)
  held : κ → Option (η × List ι)

inductive Event (ι κ ω : Type*) where
  | call (t : List ι)
  | run (n : ℕ) (o : ω)
  | resume (k : κ) (o : ω)

variable {σ ι η κ ω ξ : Type*}

/-- The lock a section runs under. -/
def Machine.lockOf (M : Machine σ ι η κ ω) : Section ι η κ → Option κ
  | .first i => M.lock i
  | .later k _ => some k

namespace Pool

/-- A pool in which nothing waits and no lock is held. -/
def idle (s : σ) : Pool σ ι η κ := ⟨s, [], fun _ => none⟩

/-- The phase of each lock's holder. -/
def holder (p : Pool σ ι η κ) (k : κ) : Option η := (p.held k).map Prod.fst

/-- `i` waits in a task, or in the rest of a holder's task. -/
def Has (p : Pool σ ι η κ) (i : ι) : Prop :=
  (∃ t ∈ p.tasks, i ∈ t) ∨ ∃ k h t, p.held k = some (h, t) ∧ i ∈ t

def isFree (p : Pool σ ι η κ) : Option κ → Bool
  | none => true
  | some k => (p.held k).isNone

/-- `i` still waits when a section under lock `l` is executed and leaves the
tasks `tasks` and, of its own task, `rest`. -/
def Stays (p : Pool σ ι η κ) (l : Option κ) (tasks : List (List ι)) (rest : List ι) (i : ι) :
    Prop :=
  (∃ t ∈ tasks, i ∈ t) ∨ i ∈ rest ∨ ∃ k h t, l ≠ some k ∧ p.held k = some (h, t) ∧ i ∈ t

variable [DecidableEq κ]

/-- The holders after a section under lock `l` that left `nx`. -/
def holderAfter (g : κ → Option η) (l : Option κ) (nx : Next ι η) (k : κ) : Option η :=
  if l = some k then nx.hold else g k

/-- The pool after a section under lock `l`, whose task goes on with `rest`. -/
def place (p : Pool σ ι η κ) (l : Option κ) (tasks : List (List ι)) (rest : List ι)
    (r : σ × Next ι η) : Pool σ ι η κ :=
  match l, r.2.hold with
  | some k, some h =>
      ⟨r.1, tasks ++ r.2.spawn, Function.update p.held k (some (h, r.2.follow ++ rest))⟩
  | some k, none =>
      ⟨r.1, tasks ++ (r.2.follow ++ rest) :: r.2.spawn, Function.update p.held k none⟩
  | none, _ => ⟨r.1, tasks ++ (r.2.follow ++ rest) :: r.2.spawn, p.held⟩

/-- The section an event executes, with the tasks that stay, the rest of its
own task and the answers of the environment. -/
def due (M : Machine σ ι η κ ω) (p : Pool σ ι η κ) :
    Event ι κ ω → Option (Section ι η κ × List (List ι) × List ι × ω)
  | .call _ => none
  | .run n o =>
      match p.tasks[n]? with
      | some (i :: rest) =>
          if p.isFree (M.lock i) then some (.first i, p.tasks.eraseIdx n, rest, o) else none
      | _ => none
  | .resume k o =>
      match p.held k with
      | some (h, rest) => some (.later k h, p.tasks, rest, o)
      | none => none

/-- One step. An event that is not enabled changes nothing. -/
def step (M : Machine σ ι η κ ω) (p : Pool σ ι η κ) (e : Event ι κ ω) : Pool σ ι η κ :=
  match e, p.due M e with
  | _, some (c, tasks, rest, o) => p.place (M.lockOf c) tasks rest (M.act c p.shared o)
  | .call t, none => { p with tasks := p.tasks ++ [t] }
  | _, none => p

example (M : Machine σ ι η κ ω) (p : Pool σ ι η κ) (t : List ι) :
    (p.step M (.call t)).held = p.held := by
  simp only [step, due]

example (p : Pool σ ι η κ) (tasks : List (List ι)) (rest : List ι) (r : σ × Next ι η) :
    (p.place none tasks rest r).held = p.held := by
  simp only [place]

/-- `C` holds of the section the event executes, if it executes one, and `R` of
the task it starts, if it starts one. -/
def Meets (M : Machine σ ι η κ ω) (R : List ι → Prop)
    (C : Pool σ ι η κ → Section ι η κ → ω → Prop) (p : Pool σ ι η κ) (e : Event ι κ ω) :
    Prop :=
  match e, p.due M e with
  | .call t, _ => R t
  | _, some (c, _, _, o) => C p c o
  | _, none => True

instance (M : Machine σ ι η κ ω) (R : List ι → Prop)
    (C : Pool σ ι η κ → Section ι η κ → ω → Prop) [DecidablePred R]
    [∀ p c o, Decidable (C p c o)] (p : Pool σ ι η κ) (e : Event ι κ ω) :
    Decidable (p.Meets M R C e) := by
  unfold Meets
  split <;> infer_instance

end Pool

/-- What a proof knows about a pool. -/
structure Outline (σ ι η κ ξ : Type*) where
  /-- The invariant of the shared state. -/
  inv : σ → Prop := fun _ => True
  /-- What a waiting section relies on. -/
  needs : ι → σ → Prop := fun _ _ => True
  /-- What a holder relies on. -/
  holds : κ → η → σ → Prop := fun _ _ _ => True
  /-- The debts of a state. -/
  owes : σ → (κ → Option η) → ξ → Prop := fun _ _ _ => False
  /-- The debts a waiting section will pay. -/
  pays : ι → ξ → Prop := fun _ _ => False
  /-- The debts a holder will pay. -/
  paysHeld : κ → η → ξ → Prop := fun _ _ _ => False

namespace Outline

/-- The debts a section pays. -/
def paysBy (O : Outline σ ι η κ ξ) : Section ι η κ → ξ → Prop
  | .first i => O.pays i
  | .later k h => O.paysHeld k h

/-- A debt that somebody in the pool pays. -/
def Paid (O : Outline σ ι η κ ξ) (p : Pool σ ι η κ) (x : ξ) : Prop :=
  (∃ i, p.Has i ∧ O.pays i x) ∨ ∃ k h, p.holder k = some h ∧ O.paysHeld k h x

/-- The outline is true of a pool. -/
structure Valid (O : Outline σ ι η κ ξ) (p : Pool σ ι η κ) : Prop where
  inv : O.inv p.shared
  needs : ∀ i, p.Has i → O.needs i p.shared
  holds : ∀ k h, p.holder k = some h → O.holds k h p.shared
  paid : ∀ x, O.owes p.shared p.holder x → O.Paid p x

variable [DecidableEq κ]

/-- The section `c` under lock `l`, executed with holders `g`, keeps the outline
when it takes `s` to `r`. -/
structure Keeps (O : Outline σ ι η κ ξ) (g : κ → Option η) (c : Section ι η κ) (l : Option κ)
    (s : σ) (r : σ × Next ι η) : Prop where
  inv : O.inv r.1
  stable : ∀ i, O.needs i s → O.needs i r.1
  added : ∀ i, r.2.Adds i → O.needs i r.1
  others : ∀ k h, l ≠ some k → g k = some h → O.holds k h s → O.holds k h r.1
  kept : ∀ k h, l = some k → r.2.hold = some h → O.holds k h r.1
  paid : ∀ x, O.owes r.1 (Pool.holderAfter g l r.2) x →
    O.owes s g x ∧ ¬ O.paysBy c x ∨ (∃ i, r.2.Adds i ∧ O.pays i x) ∨
      ∃ k h, l = some k ∧ r.2.hold = some h ∧ O.paysHeld k h x

/-- The same of a section in the pool `p`, where another waiting section may be
known to pay a debt. -/
structure KeepsIn (O : Outline σ ι η κ ξ) (p : Pool σ ι η κ) (c : Section ι η κ) (l : Option κ)
    (r : σ × Next ι η) : Prop where
  inv : O.inv r.1
  stable : ∀ i, O.needs i p.shared → O.needs i r.1
  added : ∀ i, r.2.Adds i → O.needs i r.1
  others : ∀ k h, l ≠ some k → p.holder k = some h → O.holds k h p.shared → O.holds k h r.1
  kept : ∀ k h, l = some k → r.2.hold = some h → O.holds k h r.1
  paid : ∀ x, O.owes r.1 (Pool.holderAfter p.holder l r.2) x →
    O.owes p.shared p.holder x ∧ ¬ O.paysBy c x ∨ (∃ i, r.2.Adds i ∧ O.pays i x) ∨
      (∃ k h, l = some k ∧ r.2.hold = some h ∧ O.paysHeld k h x) ∨
        ∃ i, p.Has i ∧ c ≠ .first i ∧ O.pays i x

theorem Keeps.keepsIn {O : Outline σ ι η κ ξ} {p : Pool σ ι η κ} {c : Section ι η κ}
    {l : Option κ} {r : σ × Next ι η} (h : O.Keeps p.holder c l p.shared r) :
    O.KeepsIn p c l r where
  inv := h.inv
  stable := h.stable
  added := h.added
  others := h.others
  kept := h.kept
  paid x hx := by
    rcases h.paid x hx with ho | hi | hk
    · exact .inl ho
    · exact .inr (.inl hi)
    · exact .inr (.inr (.inl hk))

end Outline

/-! ## What a step does to a pool -/

namespace Pool

variable {M : Machine σ ι η κ ω} {p : Pool σ ι η κ} {l : Option κ} {tasks : List (List ι)}
  {rest : List ι} {r : σ × Next ι η} [DecidableEq κ]

@[simp] theorem shared_place : (p.place l tasks rest r).shared = r.1 := by
  unfold place
  split <;> rfl

@[simp] theorem holder_place :
    (p.place l tasks rest r).holder = holderAfter p.holder l r.2 := by
  funext k
  unfold place holderAfter holder
  split
  · rename_i k' h hh
    by_cases hk : k' = k
    · subst hk
      simp [hh]
    · simp [hk, Function.update_of_ne (Ne.symm hk)]
  · rename_i k' hh
    by_cases hk : k' = k
    · subst hk
      simp [hh]
    · simp [hk, Function.update_of_ne (Ne.symm hk)]
  · simp

/-- What the holders of an updated lock table still have to do. -/
theorem exists_update_iff (f : κ → Option (η × List ι)) (k' : κ) (v : Option (η × List ι))
    (i : ι) :
    (∃ k h t, Function.update f k' v k = some (h, t) ∧ i ∈ t) ↔
      (∃ h t, v = some (h, t) ∧ i ∈ t) ∨
        ∃ k h t, some k' ≠ some k ∧ f k = some (h, t) ∧ i ∈ t := by
  constructor
  · rintro ⟨k, h, t, hk, hi⟩
    by_cases hkk : k = k'
    · subst hkk
      rw [Function.update_self] at hk
      exact .inl ⟨h, t, hk, hi⟩
    · rw [Function.update_of_ne hkk] at hk
      exact .inr ⟨k, h, t, by simpa using Ne.symm hkk, hk, hi⟩
  · rintro (⟨h, t, hv, hi⟩ | ⟨k, h, t, hkk, hk, hi⟩)
    · exact ⟨k', h, t, by rw [Function.update_self, hv], hi⟩
    · exact ⟨k, h, t, by rw [Function.update_of_ne (by simpa using Ne.symm hkk), hk], hi⟩

theorem or_regroup {a b c d e : Prop} :
    (a ∨ (b ∨ c) ∨ d) ∨ e ↔ (a ∨ c ∨ e) ∨ b ∨ d := by
  tauto

/-- The sections waiting after a step waited before it or were left by it. -/
theorem has_place_iff {i : ι} :
    (p.place l tasks rest r).Has i ↔ p.Stays l tasks rest i ∨ r.2.Adds i := by
  unfold place Has Next.Adds Stays
  split
  · rw [exists_update_iff]
    simp only [List.mem_append, Option.some.injEq, Prod.mk.injEq, or_and_right, exists_or]
    constructor
    · rintro ((ht | ht) | ⟨h, t, ⟨rfl, rfl⟩, hi⟩ | hk)
      · exact .inl (.inl ht)
      · exact .inr (.inr ht)
      · rcases List.mem_append.mp hi with hi | hi
        · exact .inr (.inl hi)
        · exact .inl (.inr (.inl hi))
      · exact .inl (.inr (.inr hk))
    · rintro ((ht | hi | hk) | hi | ht)
      · exact .inl (.inl ht)
      · exact .inr (.inl ⟨_, _, ⟨rfl, rfl⟩, List.mem_append_right _ hi⟩)
      · exact .inr (.inr hk)
      · exact .inr (.inl ⟨_, _, ⟨rfl, rfl⟩, List.mem_append_left _ hi⟩)
      · exact .inl (.inr ht)
  · rw [exists_update_iff]
    simp only [List.mem_append, List.mem_cons, or_and_right, exists_or, exists_eq_left]
    simp only [reduceCtorEq, false_and, exists_false, false_or]
    exact or_regroup
  · simp only [List.mem_append, List.mem_cons, or_and_right, exists_or, exists_eq_left]
    simp only [ne_eq, reduceCtorEq, not_false_eq_true, true_and]
    exact or_regroup

omit [DecidableEq κ] in
theorem holder_eq_some_iff {k : κ} {h : η} :
    p.holder k = some h ↔ ∃ t, p.held k = some (h, t) := by
  unfold holder
  cases p.held k with
  | none => simp
  | some x => cases x; simp

omit [DecidableEq κ] in
theorem due_run_iff {n : ℕ} {c : Section ι η κ} {o o' : ω} :
    p.due M (.run n o') = some (c, tasks, rest, o) ↔
      ∃ i, p.tasks[n]? = some (i :: rest) ∧ p.isFree (M.lock i) = true ∧ c = .first i ∧
        tasks = p.tasks.eraseIdx n ∧ o' = o := by
  rw [due]
  split
  · rename_i i rest' hn
    rw [hn]
    split
    · rename_i hfree
      simp only [Option.some.injEq, Prod.mk.injEq, List.cons.injEq]
      constructor
      · rintro ⟨rfl, rfl, rfl, rfl⟩
        exact ⟨i, ⟨rfl, rfl⟩, hfree, rfl, rfl, rfl⟩
      · rintro ⟨j, ⟨rfl, rfl⟩, -, rfl, rfl, rfl⟩
        exact ⟨rfl, rfl, rfl, rfl⟩
    · rename_i hfree
      simp only [reduceCtorEq, false_iff, not_exists, not_and]
      rintro j hj hj'
      cases hj
      exact absurd hj' hfree
  · rename_i hn
    simp only [reduceCtorEq, false_iff, not_exists, not_and]
    intro i hi
    exact absurd hi (hn i rest)

omit [DecidableEq κ] in
theorem due_resume_iff {k : κ} {c : Section ι η κ} {o o' : ω} :
    p.due M (.resume k o') = some (c, tasks, rest, o) ↔
      ∃ h, p.held k = some (h, rest) ∧ c = .later k h ∧ tasks = p.tasks ∧ o' = o := by
  rw [due]
  split
  · rename_i h rest' hk
    rw [hk]
    simp only [Option.some.injEq, Prod.mk.injEq]
    constructor
    · rintro ⟨rfl, rfl, rfl, rfl⟩
      exact ⟨h, ⟨rfl, rfl⟩, rfl, rfl, rfl⟩
    · rintro ⟨h', ⟨rfl, rfl⟩, rfl, rfl, rfl⟩
      exact ⟨rfl, rfl, rfl, rfl⟩
  · rename_i hk
    simp only [hk, reduceCtorEq, false_and, exists_false]

omit [DecidableEq κ] in
/-- What stays waiting in a step did wait. -/
theorem has_of_stays {c : Section ι η κ} {o : ω} {e : Event ι κ ω}
    (h : p.due M e = some (c, tasks, rest, o)) {i : ι}
    (hi : p.Stays (M.lockOf c) tasks rest i) : p.Has i := by
  cases e with
  | call t => cases h
  | run n o' =>
      obtain ⟨j, hn, -, rfl, rfl, -⟩ := due_run_iff.mp h
      rcases hi with ⟨t, ht, hi⟩ | hi | ⟨k, h, t, -, hk, hi⟩
      · exact .inl ⟨t, List.mem_of_mem_eraseIdx ht, hi⟩
      · exact .inl ⟨_, List.mem_of_getElem? hn, List.mem_cons_of_mem _ hi⟩
      · exact .inr ⟨k, h, t, hk, hi⟩
  | resume k o' =>
      obtain ⟨h, hk, rfl, rfl, -⟩ := due_resume_iff.mp h
      rcases hi with ht | hi | ⟨k', h', t, -, hk', hi⟩
      · exact .inl ht
      · exact .inr ⟨k, _, rest, hk, hi⟩
      · exact .inr ⟨k', h', t, hk', hi⟩

omit [DecidableEq κ] in
/-- What waited stays, except for the executed section. -/
theorem stays_or_eq {c : Section ι η κ} {o : ω} {e : Event ι κ ω}
    (h : p.due M e = some (c, tasks, rest, o)) {i : ι} (hi : p.Has i) :
    p.Stays (M.lockOf c) tasks rest i ∨ c = .first i := by
  cases e with
  | call t => cases h
  | run n o' =>
      obtain ⟨j, hn, hfree, rfl, rfl, -⟩ := due_run_iff.mp h
      rcases hi with ⟨t, ht, hi⟩ | ⟨k, h, t, hk, hi⟩
      · obtain ⟨m, hm⟩ := List.mem_iff_getElem?.mp ht
        by_cases hmn : m = n
        · subst hmn
          rw [hn] at hm
          cases hm
          rcases List.mem_cons.mp hi with rfl | hi
          · exact .inr rfl
          · exact .inl (.inr (.inl hi))
        · exact .inl (.inl ⟨t, List.mem_eraseIdx_iff_getElem?.mpr ⟨m, hmn, hm⟩, hi⟩)
      · refine .inl (.inr (.inr ⟨k, h, t, ?_, hk, hi⟩))
        intro hl
        rw [Machine.lockOf] at hl
        rw [hl, isFree, hk] at hfree
        cases hfree
  | resume k o' =>
      obtain ⟨h, hk, rfl, rfl, -⟩ := due_resume_iff.mp h
      rcases hi with ht | ⟨k', h', t, hk', hi⟩
      · exact .inl (.inl ht)
      · by_cases hkk : k = k'
        · subst hkk
          rw [hk] at hk'
          cases hk'
          exact .inl (.inr (.inl hi))
        · exact .inl (.inr (.inr ⟨k', h', t, by simpa [Machine.lockOf] using hkk, hk', hi⟩))

omit [DecidableEq κ] in
/-- A first section runs when its lock is free. -/
theorem holder_of_due_first {i : ι} {o : ω} {e : Event ι κ ω}
    (h : p.due M e = some (.first i, tasks, rest, o)) {k : κ} (hk : M.lock i = some k) :
    p.holder k = none := by
  cases e with
  | call t => cases h
  | run n o' =>
      obtain ⟨j, -, hfree, hj, -, -⟩ := due_run_iff.mp h
      cases hj
      rw [hk, isFree, Option.isNone_iff_eq_none] at hfree
      rw [holder, hfree]
      rfl
  | resume k o' =>
      obtain ⟨h, -, hc, -, -⟩ := due_resume_iff.mp h
      cases hc

omit [DecidableEq κ] in
/-- A waiting section that is due was waiting. -/
theorem has_of_due_first {i : ι} {o : ω} {e : Event ι κ ω}
    (h : p.due M e = some (.first i, tasks, rest, o)) : p.Has i := by
  cases e with
  | call t => cases h
  | run n o' =>
      obtain ⟨j, hn, -, hj, -, -⟩ := due_run_iff.mp h
      cases hj
      exact .inl ⟨_, List.mem_of_getElem? hn, List.mem_cons_self⟩
  | resume k o' =>
      obtain ⟨h, -, hc, -, -⟩ := due_resume_iff.mp h
      cases hc

omit [DecidableEq κ] in
/-- A later phase is run by the holder of its lock. -/
theorem holder_of_due_later {k : κ} {h : η} {o : ω} {e : Event ι κ ω}
    (hd : p.due M e = some (.later k h, tasks, rest, o)) : p.holder k = some h := by
  cases e with
  | call t => cases hd
  | run n o' =>
      obtain ⟨j, -, -, hj, -, -⟩ := due_run_iff.mp hd
      cases hj
  | resume k' o' =>
      obtain ⟨h', hk, hc, -, -⟩ := due_resume_iff.mp hd
      cases hc
      exact holder_eq_some_iff.mpr ⟨rest, hk⟩

theorem step_of_due {c : Section ι η κ} {o : ω} {e : Event ι κ ω}
    (h : p.due M e = some (c, tasks, rest, o)) :
    p.step M e = p.place (M.lockOf c) tasks rest (M.act c p.shared o) := by
  cases e with
  | call t => cases h
  | run n o' => simp only [step, h]
  | resume k o' => simp only [step, h]

/-- A step executes a section that is due, starts a task, or does nothing. -/
theorem step_cases (M : Machine σ ι η κ ω) (p : Pool σ ι η κ) (e : Event ι κ ω) :
    (∃ c tasks rest o, p.due M e = some (c, tasks, rest, o) ∧
      p.step M e = p.place (M.lockOf c) tasks rest (M.act c p.shared o)) ∨
      p.due M e = none ∧ ((∃ t, e = .call t ∧ p.step M e = { p with tasks := p.tasks ++ [t] }) ∨
        p.step M e = p) := by
  cases hd : p.due M e with
  | some x =>
      obtain ⟨c, tasks, rest, o⟩ := x
      exact .inl ⟨c, tasks, rest, o, rfl, step_of_due hd⟩
  | none =>
      refine .inr ⟨rfl, ?_⟩
      cases e with
      | call t => exact .inl ⟨t, rfl, rfl⟩
      | run n o => exact .inr (by simp only [step, hd])
      | resume k o => exact .inr (by simp only [step, hd])

/-- What waits after a step waited before it, or was called, or was left by the
section that was executed. -/
theorem has_of_has_step {i : ι} {e : Event ι κ ω} (h : (p.step M e).Has i) :
    p.Has i ∨ (∃ t, e = .call t ∧ i ∈ t) ∨
      ∃ c tasks rest o, p.due M e = some (c, tasks, rest, o) ∧ (M.act c p.shared o).2.Adds i := by
  rcases step_cases M p e with ⟨c, tasks, rest, o, hd, hs⟩ | ⟨-, ⟨t, rfl, hs⟩ | hs⟩
  · rw [hs, has_place_iff] at h
    rcases h with hi | hi
    · exact .inl (has_of_stays hd hi)
    · exact .inr (.inr ⟨c, tasks, rest, o, hd, hi⟩)
  · rw [hs] at h
    rcases h with ⟨t', ht', hi⟩ | hk
    · rcases List.mem_append.mp ht' with ht' | ht'
      · exact .inl (.inl ⟨t', ht', hi⟩)
      · rw [List.mem_singleton] at ht'
        exact .inr (.inl ⟨t, rfl, ht' ▸ hi⟩)
    · exact .inl (.inr hk)
  · rw [hs] at h
    exact .inl h

omit [DecidableEq κ] in
theorem Meets.call {R : List ι → Prop} {C : Pool σ ι η κ → Section ι η κ → ω → Prop}
    {t : List ι} (h : p.Meets M R C (.call t)) : R t := h

omit [DecidableEq κ] in
theorem Meets.due {R : List ι → Prop} {C : Pool σ ι η κ → Section ι η κ → ω → Prop}
    {c : Section ι η κ} {o : ω} {e : Event ι κ ω} (h : p.Meets M R C e)
    (hd : p.due M e = some (c, tasks, rest, o)) : C p c o := by
  cases e with
  | call t => cases hd
  | run n o' => simpa only [Meets, hd] using h
  | resume k o' => simpa only [Meets, hd] using h

omit [DecidableEq κ] in
theorem meets_of_due {R : List ι → Prop} {C : Pool σ ι η κ → Section ι η κ → ω → Prop}
    {e : Event ι κ ω} (hR : ∀ t, e = .call t → R t)
    (hC : ∀ c tasks rest o, p.due M e = some (c, tasks, rest, o) → C p c o) :
    p.Meets M R C e := by
  cases e with
  | call t => exact hR t rfl
  | run n o' =>
      cases hd : p.due M (.run n o') with
      | none => simp only [Meets, hd]
      | some x => simpa only [Meets, hd] using hC _ _ _ _ hd
  | resume k o' =>
      cases hd : p.due M (.resume k o') with
      | none => simp only [Meets, hd]
      | some x => simpa only [Meets, hd] using hC _ _ _ _ hd

omit [DecidableEq κ] in
theorem Meets.calls {R : List ι → Prop} {C : Pool σ ι η κ → Section ι η κ → ω → Prop}
    {e : Event ι κ ω} (h : p.Meets M (fun _ => True) C e) (hR : ∀ t, e = .call t → R t) :
    p.Meets M R C e :=
  meets_of_due hR fun _ _ _ _ hd => h.due hd

/-- The tasks a run starts and the sections it executes are checked apart. -/
theorem always_meets {R : List ι → Prop} {C : Pool σ ι η κ → Section ι η κ → ω → Prop}
    {x : List (Event ι κ ω)} (hR : ∀ t, .call t ∈ x → R t)
    (hx : Run.Always (step M) (Meets M (fun _ => True) C) p x) :
    Run.Always (step M) (Meets M R C) p x := by
  induction x generalizing p with
  | nil => trivial
  | cons e x ih =>
      refine ⟨hx.1.calls ?_, ih (fun t ht => hR t (List.mem_cons_of_mem _ ht)) hx.2⟩
      rintro t rfl
      exact hR t List.mem_cons_self

theorem always_meets_true (p : Pool σ ι η κ) (x : List (Event ι κ ω)) :
    Run.Always (step M) (Meets M (fun _ => True) fun _ _ _ => True) p x := by
  induction x generalizing p with
  | nil => trivial
  | cons e x ih => exact ⟨meets_of_due (fun _ _ => trivial) fun _ _ _ _ _ => trivial, ih _⟩

/-- A run that needs one lock only leaves the others as they are. -/
theorem held_of_only {a k : κ} (hk : k ≠ a) {x : List (Event ι κ ω)}
    (hx : Run.Always (step M) (Meets M (fun _ => True) fun _ c _ =>
      M.lockOf c = none ∨ M.lockOf c = some a) p x) :
    (Run.run (step M) p x).held k = p.held k := by
  refine Run.invariant (I := fun q => q.held k = p.held k) ?_ rfl hx
  intro q e hq he
  cases hd : q.due M e with
  | none =>
      cases e with
      | call t => exact hq
      | run n o => simpa only [step, hd] using hq
      | resume k' o => simpa only [step, hd] using hq
  | some y =>
      obtain ⟨c, tasks, rest, o⟩ := y
      have hne : M.lockOf c ≠ some k := by
        rcases he.due hd with hl | hl <;> rw [hl]
        · exact nofun
        · exact fun h => hk (Option.some.inj h).symm
      rw [step_of_due hd, ← hq]
      unfold place
      split
      · rename_i k' h hl hh
        refine Function.update_of_ne ?_ _ _
        rintro rfl
        exact hne hl
      · rename_i k' hl hh
        refine Function.update_of_ne ?_ _ _
        rintro rfl
        exact hne hl
      · rfl

/-- In a run that needs one lock only, no lock is held once that one is free. -/
theorem held_eq_none_of_only {a : κ} (hp : ∀ k, p.held k = none) {x : List (Event ι κ ω)}
    (hx : Run.Always (step M) (Meets M (fun _ => True) fun _ c _ =>
      M.lockOf c = none ∨ M.lockOf c = some a) p x)
    (ha : (Run.run (step M) p x).held a = none) (k : κ) :
    (Run.run (step M) p x).held k = none := by
  by_cases hk : k = a
  · rw [hk, ha]
  · rw [held_of_only hk hx, hp k]

end Pool

/-! ## The rule -/

namespace Outline

variable {M : Machine σ ι η κ ω} {O : Outline σ ι η κ ξ} {p : Pool σ ι η κ}

/-- An outline is valid of an idle pool when its invariant holds and nothing is owed. -/
theorem valid_idle {s : σ} (hs : O.inv s) (ho : ∀ x, ¬ O.owes s (fun _ => none) x) :
    O.Valid (Pool.idle s) where
  inv := hs
  needs i hi := by
    rcases hi with ⟨t, ht, -⟩ | ⟨k, h, t, hk, -⟩
    · cases ht
    · cases hk
  holds k h hk := by cases hk
  paid x hx := absurd hx (ho x)

/-- Starting a task adds no debt. -/
theorem Valid.call (hv : O.Valid p) {t : List ι} (ht : ∀ i ∈ t, O.needs i p.shared) :
    O.Valid { p with tasks := p.tasks ++ [t] } where
  inv := hv.inv
  needs i hi := by
    rcases hi with ⟨t', ht', hi⟩ | hi
    · rcases List.mem_append.mp ht' with ht' | ht'
      · exact hv.needs i (.inl ⟨t', ht', hi⟩)
      · rw [List.mem_singleton] at ht'
        exact ht i (ht' ▸ hi)
    · exact hv.needs i (.inr hi)
  holds := hv.holds
  paid x hx := by
    rcases hv.paid x hx with ⟨i, hi, hp⟩ | hh
    · refine .inl ⟨i, ?_, hp⟩
      rcases hi with ⟨t', ht', hi⟩ | hi
      · exact .inl ⟨t', List.mem_append_left _ ht', hi⟩
      · exact .inr hi
    · exact .inr hh

variable [DecidableEq κ] {e : Event ι κ ω} {c : Section ι η κ} {tasks : List (List ι)}
  {rest : List ι} {o : ω}

theorem Valid.holds_place (hv : O.Valid p)
    (hk : O.KeepsIn p c (M.lockOf c) (M.act c p.shared o)) (k : κ) (h : η)
    (hh : (p.place (M.lockOf c) tasks rest (M.act c p.shared o)).holder k = some h) :
    O.holds k h (p.place (M.lockOf c) tasks rest (M.act c p.shared o)).shared := by
  rw [Pool.holder_place] at hh
  rw [Pool.shared_place]
  rw [Pool.holderAfter] at hh
  split at hh
  · rename_i hl
    exact hk.kept k h hl hh
  · rename_i hl
    exact hk.others k h hl hh (hv.holds k h hh)

theorem Valid.paid_place (hv : O.Valid p) (hd : p.due M e = some (c, tasks, rest, o))
    (hk : O.KeepsIn p c (M.lockOf c) (M.act c p.shared o)) (x : ξ)
    (hx : O.owes (p.place (M.lockOf c) tasks rest (M.act c p.shared o)).shared
      (p.place (M.lockOf c) tasks rest (M.act c p.shared o)).holder x) :
    O.Paid (p.place (M.lockOf c) tasks rest (M.act c p.shared o)) x := by
  rw [Pool.shared_place, Pool.holder_place] at hx
  rcases hk.paid x hx with ⟨ho, hnot⟩ | ⟨i, hi, hp⟩ | ⟨k, h, hl, hh, hp⟩ | ⟨i, hi, hne, hp⟩
  · rcases hv.paid x ho with ⟨i, hi, hp⟩ | ⟨k, h, hh, hp⟩
    · rcases Pool.stays_or_eq hd hi with hs | rfl
      · exact .inl ⟨i, Pool.has_place_iff.mpr (.inl hs), hp⟩
      · exact absurd hp hnot
    · refine .inr ⟨k, h, ?_, hp⟩
      rw [Pool.holder_place, Pool.holderAfter, if_neg, hh]
      intro hl
      cases c with
      | first i =>
          rw [Pool.holder_of_due_first hd hl] at hh
          cases hh
      | later k' h' =>
          cases hl
          rw [Pool.holder_of_due_later hd] at hh
          cases hh
          exact hnot hp
  · exact .inl ⟨i, Pool.has_place_iff.mpr (.inr hi), hp⟩
  · refine .inr ⟨k, h, ?_, hp⟩
    rw [Pool.holder_place, Pool.holderAfter, if_pos hl, hh]
  · have hs := (Pool.stays_or_eq hd hi).resolve_right hne
    exact .inl ⟨i, Pool.has_place_iff.mpr (.inl hs), hp⟩

/-- An outline stays valid in a step whose section keeps it. -/
theorem valid_step (hv : O.Valid p)
    (hcall : ∀ t, e = .call t → ∀ i ∈ t, O.needs i p.shared)
    (hkeep : ∀ c tasks rest o, p.due M e = some (c, tasks, rest, o) →
      O.KeepsIn p c (M.lockOf c) (M.act c p.shared o)) :
    O.Valid (p.step M e) := by
  cases hd : p.due M e with
  | none =>
      cases e with
      | call t => exact hv.call (hcall t rfl)
      | run n o => simpa only [Pool.step, hd] using hv
      | resume k o => simpa only [Pool.step, hd] using hv
  | some x =>
      obtain ⟨c, tasks, rest, o⟩ := x
      have hk := hkeep c tasks rest o hd
      rw [Pool.step_of_due hd]
      refine ⟨?_, ?_, ?_, ?_⟩
      · rw [Pool.shared_place]
        exact hk.inv
      · intro i hi
        rw [Pool.shared_place]
        rcases Pool.has_place_iff.mp hi with hi | hi
        · exact hk.stable i (hv.needs i (Pool.has_of_stays hd hi))
        · exact hk.added i hi
      · exact hv.holds_place hk
      · exact hv.paid_place hd hk

/-! ## Runs -/

/-- Every section that is executed under `C` keeps the outline, and a task that
meets `R` may be started. -/
structure Rule (O : Outline σ ι η κ ξ) (M : Machine σ ι η κ ω) (R : List ι → Prop)
    (C : Pool σ ι η κ → Section ι η κ → ω → Prop) : Prop where
  call : ∀ {p t}, O.Valid p → R t → ∀ i ∈ t, O.needs i p.shared
  keeps : ∀ {p e c tasks rest o}, O.Valid p → p.due M e = some (c, tasks, rest, o) → C p c o →
    O.Keeps p.holder c (M.lockOf c) p.shared (M.act c p.shared o)

namespace Rule

variable {R : List ι → Prop} {C : Pool σ ι η κ → Section ι η κ → ω → Prop}

theorem step (h : O.Rule M R C) (hv : O.Valid p) (he : p.Meets M R C e) :
    O.Valid (p.step M e) := by
  apply valid_step hv
  · rintro t rfl
    exact h.call hv he.call
  · exact fun c tasks rest o hd => (h.keeps hv hd (he.due hd)).keepsIn

/-- An outline stays valid in a run. -/
theorem run (h : O.Rule M R C) (hv : O.Valid p) {x : List (Event ι κ ω)}
    (hx : Run.Always (Pool.step M) (Pool.Meets M R C) p x) :
    O.Valid (Run.run (Pool.step M) p x) :=
  Run.invariant (fun _ _ hq he => h.step hq he) hv hx

/-- What an outline implies of a step holds at every step of a run. -/
theorem always (h : O.Rule M R C) {P : Pool σ ι η κ → Event ι κ ω → Prop}
    (hP : ∀ q e, O.Valid q → q.Meets M R C e → P q e) (hv : O.Valid p)
    {x : List (Event ι κ ω)} (hx : Run.Always (Pool.step M) (Pool.Meets M R C) p x) :
    Run.Always (Pool.step M) P p x :=
  Run.always_of_invariant (fun _ _ hq he => h.step hq he) hP hv hx

end Rule

/-- The rule over pools of which `J` is known. -/
structure RuleIn (O : Outline σ ι η κ ξ) (M : Machine σ ι η κ ω) (R : List ι → Prop)
    (C : Pool σ ι η κ → Section ι η κ → ω → Prop) (J : Pool σ ι η κ → Prop) : Prop where
  call : ∀ {p t}, O.Valid p → R t → ∀ i ∈ t, O.needs i p.shared
  keeps : ∀ {p e c tasks rest o}, O.Valid p → J p → p.due M e = some (c, tasks, rest, o) →
    C p c o → O.KeepsIn p c (M.lockOf c) (M.act c p.shared o)
  stays : ∀ {p e}, J p → p.Meets M R C e → J (p.step M e)

/-- An outline stays valid in a run, and so does what is known of its pools. -/
theorem RuleIn.run {R : List ι → Prop} {C : Pool σ ι η κ → Section ι η κ → ω → Prop}
    {J : Pool σ ι η κ → Prop} (h : O.RuleIn M R C J) (hv : O.Valid p) (hj : J p)
    {x : List (Event ι κ ω)} (hx : Run.Always (Pool.step M) (Pool.Meets M R C) p x) :
    O.Valid (Run.run (Pool.step M) p x) := by
  refine (Run.invariant (I := fun q => O.Valid q ∧ J q) ?_ ⟨hv, hj⟩ hx).1
  intro q e hq he
  refine ⟨valid_step hq.1 ?_ ?_, h.stays hq.2 he⟩
  · rintro t rfl
    exact h.call hq.1 he.call
  · exact fun c tasks rest o hd => h.keeps hq.1 hq.2 hd (he.due hd)

end Outline

/-! ## What follows in a task -/

/-- Wherever the task waits to execute `i`, it executes `j` later. -/
def Followed (i j : ι) : List ι → Prop
  | [] => True
  | x :: t => (x = i → j ∈ t) ∧ Followed i j t

theorem Followed.append {i j : ι} {t u : List ι} (ht : Followed i j t) (hu : Followed i j u) :
    Followed i j (t ++ u) := by
  induction t with
  | nil => exact hu
  | cons x t ih => exact ⟨fun hx => List.mem_append_left _ (ht.1 hx), ih ht.2⟩

theorem followed_of_notMem {i j : ι} {t : List ι} (h : i ∉ t) : Followed i j t := by
  induction t with
  | nil => trivial
  | cons x t ih =>
      refine ⟨?_, ih fun hi => h (List.mem_cons_of_mem _ hi)⟩
      rintro rfl
      exact absurd List.mem_cons_self h

namespace Pool

variable {M : Machine σ ι η κ ω} {p : Pool σ ι η κ}

/-- `P` holds of what is left of every task. -/
structure Each (p : Pool σ ι η κ) (P : List ι → Prop) : Prop where
  tasks : ∀ t ∈ p.tasks, P t
  held : ∀ k h t, p.held k = some (h, t) → P t

theorem each_idle (s : σ) (P : List ι → Prop) : (idle s : Pool σ ι η κ).Each P where
  tasks t ht := by cases ht
  held k h t hk := by cases hk

variable {P : List ι → Prop} {c : Section ι η κ} {tasks : List (List ι)} {rest : List ι} {o : ω}
  {e : Event ι κ ω}

theorem Each.of_due (htail : ∀ i t, P (i :: t) → P t) (hp : p.Each P)
    (hd : p.due M e = some (c, tasks, rest, o)) : (∀ t ∈ tasks, P t) ∧ P rest := by
  cases e with
  | call t => cases hd
  | run n o' =>
      obtain ⟨i, hn, -, rfl, rfl, -⟩ := due_run_iff.mp hd
      constructor
      · exact fun t ht => hp.tasks t (List.mem_of_mem_eraseIdx ht)
      · exact htail i rest (hp.tasks _ (List.mem_of_getElem? hn))
  | resume k o' =>
      obtain ⟨h, hk, rfl, rfl, -⟩ := due_resume_iff.mp hd
      exact ⟨hp.tasks, hp.held k h rest hk⟩

/-- What is left of every task keeps a property of its tails that every section's
own tasks have. -/
theorem Each.step [DecidableEq κ] {R : List ι → Prop}
    {C : Pool σ ι η κ → Section ι η κ → ω → Prop} (htail : ∀ i t, P (i :: t) → P t)
    (happend : ∀ t u, P t → P u → P (t ++ u)) (hcall : ∀ t, R t → P t)
    (hact : ∀ c s o, P (M.act c s o).2.follow ∧ ∀ t ∈ (M.act c s o).2.spawn, P t)
    (hp : p.Each P) (he : p.Meets M R C e) : (p.step M e).Each P := by
  rcases step_cases M p e with ⟨c, tasks, rest, o, hd, hs⟩ | ⟨-, ⟨t, rfl, hs⟩ | hs⟩
  · obtain ⟨htasks, hrest⟩ := hp.of_due htail hd
    obtain ⟨hfollow, hspawn⟩ := hact c p.shared o
    have hgo := happend _ _ hfollow hrest
    have hheld : ∀ k v, (∀ h t, v = some (h, t) → P t) →
        ∀ k' h t, Function.update p.held k v k' = some (h, t) → P t := by
      intro k v hv k' h t hk'
      rw [Function.update_apply] at hk'
      split at hk'
      · exact hv h t hk'
      · exact hp.held k' h t hk'
    rw [hs]
    unfold place
    split
    · refine ⟨?_, hheld _ _ ?_⟩
      · intro t ht
        exact (List.mem_append.mp ht).elim (htasks t) (hspawn t)
      · intro h t hv
        cases hv
        exact hgo
    · refine ⟨?_, hheld _ _ ?_⟩
      · intro t ht
        rcases List.mem_append.mp ht with ht | ht
        · exact htasks t ht
        · exact (List.mem_cons.mp ht).elim (fun h => h ▸ hgo) (hspawn t)
      · intro h t hv
        cases hv
    · refine ⟨?_, hp.held⟩
      intro t ht
      rcases List.mem_append.mp ht with ht | ht
      · exact htasks t ht
      · exact (List.mem_cons.mp ht).elim (fun h => h ▸ hgo) (hspawn t)
  · rw [hs]
    refine ⟨?_, hp.held⟩
    intro t' ht'
    rcases List.mem_append.mp ht' with ht' | ht'
    · exact hp.tasks t' ht'
    · rw [List.mem_singleton.mp ht']
      exact hcall t he.call
  · rw [hs]
    exact hp

/-- When a section is due that is followed by `j`, then `j` waits. -/
theorem Each.has_of_due {i j : ι} (hp : p.Each (Followed i j))
    (hd : p.due M e = some (.first i, tasks, rest, o)) : p.Has j := by
  cases e with
  | call t => cases hd
  | run n o' =>
      obtain ⟨i', hn, -, hi, rfl, -⟩ := due_run_iff.mp hd
      cases hi
      have ht := List.mem_of_getElem? hn
      exact .inl ⟨_, ht, List.mem_cons_of_mem _ ((hp.tasks _ ht).1 rfl)⟩
  | resume k o' =>
      obtain ⟨h, -, hc, -⟩ := due_resume_iff.mp hd
      cases hc

end Pool

end Concurrency
