import Wheel.Data.Run

/-!
# Calls that run side by side

A `Program` is a sequential program over a shared state that is not ours alone:
it performs one atomic section after the other, goes on as the answer of each
section says, and returns. `Calls` is a shared state together with every call
that was ever started; a step starts a call or lets one call perform its next
section, so a run of `Calls.step` is an arbitrary interleaving. A call keeps its
`past`, the sections it has performed with their answers, the newest first.

`Program.Obeys` is what a program does on its own, whatever it is answered.
`Calls.Keeps` is the rule for what holds between all calls: an invariant of the
shared state, and of every call together with the shared state, that the call
keeps by its own sections and the others by theirs.
-/

namespace Concurrency

/-- A program that performs sections `i`, each answered by an `α i`, and returns
a `ρ`. -/
inductive Program {ι : Type} (α : ι → Type) (ρ : Type) where
  | done (r : ρ)
  | act (i : ι) (k : α i → Program α ρ)

variable {ι : Type} {α : ι → Type} {ρ τ σ κ ω : Type}

/-- A section with its answer. -/
abbrev Performed (α : ι → Type) : Type := (i : ι) × α i

namespace Program

def bind : Program α ρ → (ρ → Program α τ) → Program α τ
  | .done r, f => f r
  | .act i k, f => .act i fun a => (k a).bind f

instance : Monad (Program α) where
  pure := .done
  bind := bind

/-- The program that performs one section. -/
def perform (i : ι) : Program α (α i) := .act i .done

/-- The result of a program that has returned. -/
def result? : Program α ρ → Option ρ
  | .done r => some r
  | .act _ _ => none

@[simp] theorem pure_eq (r : ρ) : (pure r : Program α ρ) = .done r := rfl

@[simp] theorem done_bind (r : ρ) (f : ρ → Program α τ) :
    ((.done r : Program α ρ) >>= f) = f r := rfl

@[simp] theorem act_bind (i : ι) (k : α i → Program α ρ) (f : ρ → Program α τ) :
    (Program.act i k >>= f) = .act i fun a => k a >>= f := rfl

@[simp] theorem perform_bind (i : ι) (f : α i → Program α τ) :
    (perform i >>= f) = .act i f := rfl

@[simp] theorem result?_done (r : ρ) : (.done r : Program α ρ).result? = some r := rfl

@[simp] theorem result?_act (i : ι) (k : α i → Program α ρ) :
    (Program.act i k).result? = none := rfl

theorem result?_eq_some_iff {p : Program α ρ} {r : ρ} : p.result? = some r ↔ p = .done r := by
  cases p with
  | done r' => simp
  | act i k => simp

/-- Whatever it is answered, the program performs a section only after a past
that allows it by `P`, and returns only what `Q` allows after its past. -/
def Obeys (P : List (Performed α) → ι → Prop) (Q : List (Performed α) → ρ → Prop) :
    List (Performed α) → Program α ρ → Prop
  | x, .done r => Q x r
  | x, .act i k => P x i ∧ ∀ a, Obeys P Q (⟨i, a⟩ :: x) (k a)

section Obeys

variable {P : List (Performed α) → ι → Prop} {Q : List (Performed α) → ρ → Prop}
  {x : List (Performed α)}

@[simp] theorem obeys_done {r : ρ} : Obeys P Q x (.done r) ↔ Q x r := Iff.rfl

@[simp] theorem obeys_act {i : ι} {k : α i → Program α ρ} :
    Obeys P Q x (.act i k) ↔ P x i ∧ ∀ a, Obeys P Q (⟨i, a⟩ :: x) (k a) := Iff.rfl

/-- A program obeys what its parts obey in turn. -/
theorem Obeys.bind {Q' : List (Performed α) → τ → Prop} {p : Program α ρ}
    {f : ρ → Program α τ} (hp : Obeys P Q x p) (hf : ∀ y r, Q y r → Obeys P Q' y (f r)) :
    Obeys P Q' x (p >>= f) := by
  induction p generalizing x with
  | done r => exact hf x r hp
  | act i k ih => exact ⟨hp.1, fun a => ih a (hp.2 a)⟩

theorem Obeys.mono {P' : List (Performed α) → ι → Prop} {Q' : List (Performed α) → ρ → Prop}
    {p : Program α ρ} (hP : ∀ y i, P y i → P' y i) (hQ : ∀ y r, Q y r → Q' y r)
    (hp : Obeys P Q x p) : Obeys P' Q' x p := by
  induction p generalizing x with
  | done r => exact hQ x r hp
  | act i k ih => exact ⟨hP x i hp.1, fun a => ih a (hp.2 a)⟩

/-- The rule for programs that may fail: an error of the first part is the error
of the whole. -/
theorem Obeys.run_bind {ε : Type} {Q : List (Performed α) → Except ε ρ → Prop}
    {Q' : List (Performed α) → Except ε τ → Prop} {p : ExceptT ε (Program α) ρ}
    {f : ρ → ExceptT ε (Program α) τ} (hp : Obeys P Q x p.run)
    (hok : ∀ y r, Q y (.ok r) → Obeys P Q' y (f r).run)
    (herror : ∀ y e, Q y (.error e) → Q' y (.error e)) : Obeys P Q' x (p >>= f).run := by
  refine Obeys.bind (f := ExceptT.bindCont f) hp ?_
  intro y r hr
  cases r with
  | ok r => exact hok y r hr
  | error e => exact herror y e hr

@[simp] theorem obeys_run_pure {ε : Type} {Q : List (Performed α) → Except ε ρ → Prop} {r : ρ} :
    Obeys P Q x (pure r : ExceptT ε (Program α) ρ).run ↔ Q x (.ok r) := Iff.rfl

@[simp] theorem obeys_run_throw {ε : Type} {Q : List (Performed α) → Except ε ρ → Prop}
    {e : ε} : Obeys P Q x (throw e : ExceptT ε (Program α) ρ).run ↔ Q x (.error e) := Iff.rfl

end Obeys

/-! ### The sections a program is made of -/

/-- Whatever it is answered, the program performs only sections that meet `P`. -/
def Only (P : ι → Prop) : Program α ρ → Prop
  | .done _ => True
  | .act i k => P i ∧ ∀ a, Only P (k a)

section Only

variable {P : ι → Prop}

@[simp] theorem only_done {r : ρ} : Only P (.done r : Program α ρ) := trivial

theorem only_act {i : ι} {k : α i → Program α ρ} (hi : P i) (hk : ∀ a, Only P (k a)) :
    Only P (.act i k) := ⟨hi, hk⟩

theorem only_perform {i : ι} (hi : P i) : Only P (perform i : Program α (α i)) :=
  ⟨hi, fun _ => trivial⟩

theorem Only.bind {p : Program α ρ} {f : ρ → Program α τ} (hp : Only P p)
    (hf : ∀ r, Only P (f r)) : Only P (p >>= f) := by
  induction p with
  | done r => exact hf r
  | act i k ih => exact ⟨hp.1, fun a => ih a (hp.2 a)⟩

theorem Only.run_bind {ε : Type} {p : ExceptT ε (Program α) ρ}
    {f : ρ → ExceptT ε (Program α) τ} (hp : Only P p.run) (hf : ∀ r, Only P (f r).run) :
    Only P (p >>= f).run := by
  refine Only.bind (f := ExceptT.bindCont f) hp fun r => ?_
  cases r with
  | ok r => exact hf r
  | error e => trivial

theorem only_run_pure {ε : Type} {r : ρ} :
    Only P (pure r : ExceptT ε (Program α) ρ).run := trivial

theorem only_run_throw {ε : Type} {e : ε} :
    Only P (throw e : ExceptT ε (Program α) ρ).run := trivial

theorem only_run_lift {ε : Type} {p : Program α ρ} (hp : Only P p) :
    Only P (ExceptT.lift p : ExceptT ε (Program α) ρ).run := hp.bind fun _ => trivial

/-- What holds of such sections after every past, the program obeys. -/
theorem Only.obeys {P' : List (Performed α) → ι → Prop} {Q : List (Performed α) → ρ → Prop}
    {p : Program α ρ} (hp : Only P p) (hP : ∀ x i, P i → P' x i) (hQ : ∀ x r, Q x r)
    (x : List (Performed α)) : Obeys P' Q x p := by
  induction p generalizing x with
  | done r => exact hQ x r
  | act i k ih => exact ⟨hP x i hp.1, fun a => ih a (hp.2 a) _⟩

end Only

/-! ### A program on its own -/

/-- Run a program that is answered by `client`, which may remember what it has
answered: what was performed, the newest first, and what the program returns. -/
def runWith (client : List (Performed α) → (i : ι) → α i) :
    List (Performed α) → Program α ρ → List (Performed α) × ρ
  | x, .done r => (x, r)
  | x, .act i k => runWith client (⟨i, client x i⟩ :: x) (k (client x i))

section RunWith

variable (client : List (Performed α) → (i : ι) → α i) (x : List (Performed α))

@[simp] theorem runWith_done (r : ρ) : runWith client x (.done r) = (x, r) := rfl

@[simp] theorem runWith_act (i : ι) (k : α i → Program α ρ) :
    runWith client x (.act i k) = runWith client (⟨i, client x i⟩ :: x) (k (client x i)) := rfl

theorem runWith_bind (p : Program α ρ) (f : ρ → Program α τ) :
    runWith client x (p >>= f) =
      runWith client (runWith client x p).1 (f (runWith client x p).2) := by
  induction p generalizing x with
  | done r => rfl
  | act i k ih => exact ih _ _

end RunWith

end Program

/-- A call: what was called, what it has performed, and what is left of it. -/
structure Call {ι : Type} (κ : Type) (α : ι → Type) (ρ : Type) where
  name : κ
  past : List (Performed α)
  rest : Program α ρ

/-- The sections of a service and the programs of its calls. A section that
answers `none` cannot be performed in the state it finds; `ω` decides what the
environment answers. -/
structure Service {ι : Type} (σ κ : Type) (α : ι → Type) (ρ ω : Type) where
  exec : (i : ι) → σ → ω → Option (σ × α i)
  body : κ → Program α ρ

/-- A shared state and the calls that were started on it. -/
structure Calls {ι : Type} (σ κ : Type) (α : ι → Type) (ρ : Type) where
  shared : σ
  calls : List (Call κ α ρ)

/-- What happens next: a call is started, or the call `n` performs its next
section. -/
inductive Turn (κ ω : Type) where
  | start (x : κ)
  | step (n : ℕ) (o : ω)
  deriving DecidableEq

variable (M : Service σ κ α ρ ω)

/-- A call that has performed nothing. -/
def Service.call (x : κ) : Call κ α ρ := ⟨x, [], M.body x⟩

/-- The next section of a call. -/
def Call.perform (c : Call κ α ρ) (s : σ) (o : ω) : Option (σ × Call κ α ρ) :=
  match c.rest with
  | .done _ => none
  | .act i k => (M.exec i s o).map fun r => (r.1, ⟨c.name, ⟨i, r.2⟩ :: c.past, k r.2⟩)

namespace Calls

/-- No call was started. -/
def idle (s : σ) : Calls σ κ α ρ := ⟨s, []⟩

/-- One step. A turn that is not enabled changes nothing. -/
def step (s : Calls σ κ α ρ) : Turn κ ω → Calls σ κ α ρ
  | .start x => ⟨s.shared, s.calls ++ [M.call x]⟩
  | .step n o =>
      match (s.calls[n]?).bind fun c => c.perform M s.shared o with
      | some r => ⟨r.1, s.calls.set n r.2⟩
      | none => s

end Calls

variable {M} {s : Calls σ κ α ρ} {c d : Call κ α ρ} {n m : ℕ} {o : ω} {t : σ}

theorem Call.perform_eq_some_iff {u : σ} :
    c.perform M u o = some (t, d) ↔
      ∃ i k a, c.rest = .act i k ∧ M.exec i u o = some (t, a) ∧
        d = ⟨c.name, ⟨i, a⟩ :: c.past, k a⟩ := by
  unfold Call.perform
  cases hc : c.rest with
  | done r => simp
  | act i k =>
      dsimp only
      rw [Option.map_eq_some_iff]
      constructor
      · rintro ⟨⟨u, a⟩, he, h⟩
        injection h with ht hd
        exact ⟨i, k, a, rfl, ht ▸ he, hd.symm⟩
      · rintro ⟨i', k', a, h, he, hd⟩
        cases h
        exact ⟨(t, a), he, by rw [hd]⟩

namespace Calls

/-- What a step can do: start a call, let one call perform a section, or nothing. -/
theorem step_cases (s : Calls σ κ α ρ) (e : Turn κ ω) :
    (∃ x, e = .start x ∧ s.step M e = ⟨s.shared, s.calls ++ [M.call x]⟩) ∨
    (∃ n o c t d, e = .step n o ∧ s.calls[n]? = some c ∧
      c.perform M s.shared o = some (t, d) ∧ s.step M e = ⟨t, s.calls.set n d⟩) ∨
    s.step M e = s := by
  cases e with
  | start x => exact .inl ⟨x, rfl, rfl⟩
  | step n o =>
      cases h : (s.calls[n]?).bind fun c => c.perform M s.shared o with
      | none => exact .inr (.inr (by simp only [step, h]))
      | some r =>
          obtain ⟨c, hc, hr⟩ := Option.bind_eq_some_iff.mp h
          exact .inr (.inl ⟨n, o, c, r.1, r.2, rfl, hc, hr, by simp only [step, h]⟩)

theorem step_of_perform (hc : s.calls[n]? = some c)
    (h : c.perform M s.shared o = some (t, d)) :
    s.step M (.step n o) = ⟨t, s.calls.set n d⟩ := by
  simp [step, hc, h]

/-- An invariant of the shared state and of every call with it. -/
structure Holds (I : σ → Prop) (A : Call κ α ρ → σ → Prop) (s : Calls σ κ α ρ) : Prop where
  shared : I s.shared
  calls : ∀ (n : ℕ) (c : Call κ α ρ), s.calls[n]? = some c → A c s.shared

/-- Under `C`, the sections that are performed keep the invariant of the shared
state, that of the call that performs them, and that of every other call. -/
structure Keeps (M : Service σ κ α ρ ω) (I : σ → Prop) (A : Call κ α ρ → σ → Prop)
    (C : Calls σ κ α ρ → Turn κ ω → Prop) : Prop where
  start : ∀ {s : Calls σ κ α ρ} {x}, Holds I A s → C s (.start x) → A (M.call x) s.shared
  shared : ∀ {s : Calls σ κ α ρ} {n : ℕ} {o c t d}, Holds I A s → C s (.step n o) →
    s.calls[n]? = some c → c.perform M s.shared o = some (t, d) → I t
  own : ∀ {s : Calls σ κ α ρ} {n : ℕ} {o c t d}, Holds I A s → C s (.step n o) →
    s.calls[n]? = some c → c.perform M s.shared o = some (t, d) → A d t
  others : ∀ {s : Calls σ κ α ρ} {n : ℕ} {o c t d} {m : ℕ} {b}, Holds I A s →
    C s (.step n o) → s.calls[n]? = some c → c.perform M s.shared o = some (t, d) → m ≠ n →
    s.calls[m]? = some b → A b t

variable {I : σ → Prop} {A : Call κ α ρ → σ → Prop} {C : Calls σ κ α ρ → Turn κ ω → Prop}

theorem holds_idle {u : σ} (h : I u) : Holds I A (idle u) := by
  constructor
  · exact h
  · intro n c hc
    simp [idle] at hc

theorem Keeps.step {e : Turn κ ω} (h : Keeps M I A C) (hs : Holds I A s) (he : C s e) :
    Holds I A (s.step M e) := by
  rcases step_cases (M := M) s e with ⟨x, rfl, hx⟩ | ⟨n, o, c, t, d, rfl, hc, hp, hx⟩ | hx
  · rw [hx]
    constructor
    · exact hs.shared
    · intro m b hb
      rcases List.mem_append.mp (List.mem_of_getElem? hb) with hm | hm
      · obtain ⟨j, hj⟩ := List.mem_iff_getElem?.mp hm
        exact hs.calls j b hj
      · have hx := h.start hs he
        rwa [← List.mem_singleton.mp hm] at hx
  · rw [hx]
    constructor
    · exact h.shared hs he hc hp
    · intro m b hb
      dsimp only at hb ⊢
      by_cases hm : n = m
      · subst hm
        rw [List.getElem?_set_self (List.getElem?_eq_some_iff.mp hc).1] at hb
        injection hb with hb
        rw [← hb]
        exact h.own hs he hc hp
      · rw [List.getElem?_set_ne hm] at hb
        exact h.others hs he hc hp (Ne.symm hm) hb
  · rw [hx]
    exact hs

/-- An invariant that every section keeps holds at the end of every run. -/
theorem Keeps.run (h : Keeps M I A C) (hs : Holds I A s) {x : List (Turn κ ω)}
    (hx : Run.Always (Calls.step M) C s x) : Holds I A (Run.run (Calls.step M) s x) :=
  Run.invariant (fun _ _ hs he => h.step hs he) hs hx

/-- What an invariant implies of a step holds at every step of a run. -/
theorem Keeps.always (h : Keeps M I A C) {P : Calls σ κ α ρ → Turn κ ω → Prop}
    (hP : ∀ s e, Holds I A s → C s e → P s e) (hs : Holds I A s) {x : List (Turn κ ω)}
    (hx : Run.Always (Calls.step M) C s x) : Run.Always (Calls.step M) P s x :=
  Run.always_of_invariant (fun _ _ hs he => h.step hs he) hP hs hx

/-- The calls of a service obey, at every moment, what their programs obey. -/
theorem keeps_obeys {P : κ → List (Performed α) → ι → Prop}
    {Q : κ → List (Performed α) → ρ → Prop}
    (h : ∀ x, (M.body x).Obeys (P x) (Q x) []) :
    Keeps M (fun _ => True) (fun c _ => c.rest.Obeys (P c.name) (Q c.name) c.past)
      (fun _ _ => True) where
  start _ _ := h _
  shared _ _ _ _ := trivial
  own hs _ hc hp := by
    obtain ⟨i, k, a, hr, -, rfl⟩ := Call.perform_eq_some_iff.mp hp
    have ho := hs.calls _ _ hc
    rw [hr] at ho
    exact ho.2 a
  others hs _ _ _ _ hb := hs.calls _ _ hb

end Calls

end Concurrency
