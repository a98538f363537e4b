import Wheel.Core.Message
import Wheel.Data.DepthFirst
import Wheel.Data.Run

/-!
# Who waits for whom

A node that waits for the reply to its message is an edge of the wait-for graph. `begin`
refuses a wait that would close a cycle, since all of its nodes would wait until their
timeouts, and more than eight waits of one node. `waits_acyclic` says so of every run:
no cycle of open waits ever stands, and a wait is refused as a cycle exactly when it would
close one.
-/

namespace Wheel.Supervisor.Awaits

open Relation

/-- How many waits one node may hold open. -/
def maxConcurrentAwaits : ℕ := 8

structure Edge where
  key : ℕ
  waiter : Uuid
  target : Uuid
  message : Uuid
  deriving DecidableEq

/-- Who is blocked on whom. The next key is counted in 64 bits. -/
structure AwaitGraph where
  edges : List Edge := []
  nextKey : ℕ := 0
  deriving DecidableEq

inductive AwaitRefused where
  /-- `waiting` is blocked, through others or not, on the caller, and holds `message`. -/
  | cycle (waiting message : Uuid)
  | tooMany
  deriving DecidableEq

namespace AwaitGraph

variable (g : AwaitGraph)

/-- The first wait on a chain from one node to another. -/
def chain (source target : Uuid) : Option Edge :=
  DepthFirst.chain Edge.waiter Edge.target g.edges source target

/-- How many waits the node holds open. -/
def openWaits (waiter : Uuid) : ℕ := g.edges.countP fun e => e.waiter = waiter

/-- Block `waiter` on `target`; the guard of the wait has the answered key. -/
def begin (waiter target : Uuid) : Except AwaitRefused (AwaitGraph × ℕ) :=
  if maxConcurrentAwaits ≤ g.openWaits waiter then .error .tooMany
  else
    match g.chain target waiter with
    | some edge => .error (.cycle edge.waiter edge.message)
    | none =>
        .ok (⟨g.edges ++ [⟨g.nextKey, waiter, target, 0⟩], (g.nextKey + 1) % 2 ^ 64⟩, g.nextKey)

end AwaitGraph

/-- Name the message of the first wait with the key. -/
def nameMessage (key : ℕ) (message : Uuid) : List Edge → List Edge
  | [] => []
  | e :: es => if e.key = key then { e with message } :: es else e :: nameMessage key message es

/-- What is done to the graph: a wait begins, and a guard names its message or is dropped. -/
inductive Op where
  | begin (waiter target : Uuid)
  | setMessage (key : ℕ) (message : Uuid)
  | drop (key : ℕ)
  deriving DecidableEq

/-- A wait that is refused changes nothing. -/
def step (g : AwaitGraph) : Op → AwaitGraph
  | .begin waiter target =>
      match g.begin waiter target with
      | .ok (g', _) => g'
      | .error _ => g
  | .setMessage key message => { g with edges := nameMessage key message g.edges }
  | .drop key => { g with edges := g.edges.filter fun e => e.key ≠ key }

/-! ## The open waits -/

/-- An open wait of `u` on `v`. -/
abbrev Waits (g : AwaitGraph) : Uuid → Uuid → Prop :=
  DepthFirst.Step Edge.waiter Edge.target g.edges

variable {g : AwaitGraph} {w t : Uuid}

/-- A message is named without a change to who waits for whom. -/
theorem map_nameMessage {β : Type} (f : Edge → β) (hf : ∀ e m, f { e with message := m } = f e)
    (key : ℕ) (message : Uuid) (es : List Edge) :
    (nameMessage key message es).map f = es.map f := by
  induction es with
  | nil => rfl
  | cons e es ih =>
      unfold nameMessage
      split
      · rw [List.map_cons, List.map_cons, hf]
      · rw [List.map_cons, List.map_cons, ih]

/-- Who waits for whom is read off the ends of the edges. -/
theorem waits_iff : Waits g w t ↔ (w, t) ∈ g.edges.map fun e => (e.waiter, e.target) := by
  simp [DepthFirst.Step]

theorem openWaits_eq (g : AwaitGraph) (w : Uuid) :
    g.openWaits w = (g.edges.map Edge.waiter).countP fun u => u = w := by
  rw [AwaitGraph.openWaits, List.countP_map]
  rfl

/-- What a wait that is not refused does. -/
theorem begin_eq_ok_iff {g' : AwaitGraph} {key : ℕ} :
    g.begin w t = .ok (g', key) ↔
      g.openWaits w < maxConcurrentAwaits ∧ ¬ TransGen (Waits g) t w ∧
        g' = ⟨g.edges ++ [⟨g.nextKey, w, t, 0⟩], (g.nextKey + 1) % 2 ^ 64⟩ ∧
          key = g.nextKey := by
  rw [← DepthFirst.chain_eq_none_iff]
  unfold AwaitGraph.begin AwaitGraph.chain
  split
  · rename_i hcap
    simp [hcap]
  · rename_i hcap
    cases DepthFirst.chain Edge.waiter Edge.target g.edges t w with
    | some e => simp
    | none => simp [Nat.lt_of_not_le hcap, eq_comm]

/-- What a wait that is refused as a cycle names. -/
theorem begin_eq_cycle {waiting message : Uuid}
    (h : g.begin w t = .error (.cycle waiting message)) :
    ∃ e ∈ g.edges, e.waiter = t ∧ e.waiter = waiting ∧ e.message = message ∧
      ReflTransGen (Waits g) e.target w := by
  unfold AwaitGraph.begin at h
  split at h
  · cases h
  · split at h
    · rename_i e he
      have hstarts := DepthFirst.starts_of_chain he
      cases h
      exact ⟨e, hstarts.mem, hstarts.src_eq, rfl, rfl, hstarts.chain⟩
    · cases h

theorem exists_cycle_iff :
    (∃ waiting message, g.begin w t = .error (.cycle waiting message)) ↔
      g.openWaits w < maxConcurrentAwaits ∧ TransGen (Waits g) t w := by
  have hnone : DepthFirst.chain Edge.waiter Edge.target g.edges t w = none ↔
      ¬ TransGen (Waits g) t w := DepthFirst.chain_eq_none_iff
  unfold AwaitGraph.begin AwaitGraph.chain
  split
  · rename_i hcap
    simp [hcap]
  · rename_i hcap
    cases hc : DepthFirst.chain Edge.waiter Edge.target g.edges t w with
    | some e =>
        rw [hc] at hnone
        have hchain : TransGen (Waits g) t w := by
          by_contra hno
          cases hnone.mpr hno
        simp [hchain, Nat.lt_of_not_le hcap]
    | none =>
        have hno : ¬ TransGen (Waits g) t w := hnone.mp hc
        simp [hno]

/-! ## The runs -/

/-- No cycle of open waits stands, and no node holds more than it may. -/
structure Sound (g : AwaitGraph) : Prop where
  acyclic : DepthFirst.Acyclic Edge.waiter Edge.target g.edges
  capped : ∀ w, g.openWaits w ≤ maxConcurrentAwaits

theorem sound_empty : Sound {} where
  acyclic u hu := by
    obtain ⟨v, ⟨e, he, -⟩, -⟩ := Relation.TransGen.head'_iff.mp hu
    exact List.not_mem_nil he
  capped w := Nat.zero_le _

/-- A graph whose waits are among those of a sound one is sound. -/
theorem Sound.mono {g' : AwaitGraph} (h : Sound g)
    (hsub : ((g'.edges.map fun e => (e.waiter, e.target))).Sublist
      (g.edges.map fun e => (e.waiter, e.target))) : Sound g' where
  acyclic := h.acyclic.mono fun u v huv => waits_iff.mpr (hsub.subset (waits_iff.mp huv))
  capped w := by
    refine le_trans ?_ (h.capped w)
    have hwaiters := hsub.map Prod.fst
    rw [List.map_map, List.map_map] at hwaiters
    rw [openWaits_eq, openWaits_eq]
    exact hwaiters.countP_le

theorem sound_step {op : Op} (h : Sound g) (hop : ∀ w t, op = .begin w t → w ≠ t) :
    Sound (step g op) := by
  cases op with
  | begin w t =>
      cases hb : g.begin w t with
      | error r =>
          simp only [step, hb]
          exact h
      | ok x =>
          obtain ⟨g', key⟩ := x
          obtain ⟨hcap, hno, rfl, -⟩ := begin_eq_ok_iff.mp hb
          simp only [step, hb]
          constructor
          · exact h.acyclic.append (hop w t rfl) hno
          · intro u
            unfold AwaitGraph.openWaits
            rw [List.countP_append, List.countP_singleton]
            by_cases hu : w = u
            · subst hu
              simpa [AwaitGraph.openWaits] using hcap
            · simpa [hu, AwaitGraph.openWaits] using h.capped u
  | setMessage key message =>
      apply h.mono
      simp only [step]
      rw [map_nameMessage _ fun _ _ => rfl]
  | drop key => exact h.mono (List.filter_sublist.map _)

/-- After every sequence of operations in which no node waits for itself: the open waits
have no cycle, no node holds more than eight of them, a wait is refused as a cycle exactly
when the cap is not reached and a chain of open waits leads from its target to its waiter,
and then the refusal names an open wait of the target that starts such a chain. -/
theorem waits_acyclic {x : List Op} (hx : ∀ w t, Op.begin w t ∈ x → w ≠ t) :
    let g := Run.run step {} x
    (∀ u, ¬ TransGen (Waits g) u u) ∧ (∀ w, g.openWaits w ≤ maxConcurrentAwaits) ∧
      (∀ w t, (∃ waiting message, g.begin w t = .error (.cycle waiting message)) ↔
        g.openWaits w < maxConcurrentAwaits ∧ TransGen (Waits g) t w) ∧
      ∀ w t waiting message, g.begin w t = .error (.cycle waiting message) →
        ∃ e ∈ g.edges, e.waiter = t ∧ e.waiter = waiting ∧ e.message = message ∧
          ReflTransGen (Waits g) e.target w := by
  intro g
  have hsound : Sound g := by
    refine Run.invariant (C := fun _ op => ∀ w t, op = Op.begin w t → w ≠ t)
      (fun _ _ hg hop => sound_step hg hop) sound_empty ?_
    apply Run.always_of_forall_mem
    rintro _ op hop w t rfl
    exact hx w t hop
  exact ⟨hsound.acyclic, hsound.capped, fun w t => exists_cycle_iff,
    fun w t _ _ h => begin_eq_cycle h⟩

/-- A diamond with a parallel edge, of which one wait ends. -/
theorem waits_acyclic_diamond :
    let g := Run.run step {} [.begin 1 2, .begin 1 3, .begin 2 4, .begin 3 4, .begin 3 4,
      .setMessage 0 9, .drop 2]
    (∀ u, ¬ TransGen (Waits g) u u) ∧ (∀ w, g.openWaits w ≤ maxConcurrentAwaits) ∧
      (∀ w t, (∃ waiting message, g.begin w t = .error (.cycle waiting message)) ↔
        g.openWaits w < maxConcurrentAwaits ∧ TransGen (Waits g) t w) ∧
      ∀ w t waiting message, g.begin w t = .error (.cycle waiting message) →
        ∃ e ∈ g.edges, e.waiter = t ∧ e.waiter = waiting ∧ e.message = message ∧
          ReflTransGen (Waits g) e.target w := by
  apply waits_acyclic
  intro w t h
  simp only [List.mem_cons, List.not_mem_nil, or_false, reduceCtorEq, Op.begin.injEq] at h
  rcases h with ⟨rfl, rfl⟩ | ⟨rfl, rfl⟩ | ⟨rfl, rfl⟩ | ⟨rfl, rfl⟩ | ⟨rfl, rfl⟩ <;> decide

end Wheel.Supervisor.Awaits
