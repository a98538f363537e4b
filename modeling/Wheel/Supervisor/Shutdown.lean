import Wheel.Supervisor.Steps

/-!
# Shutdown is final

A shutdown takes the gate over from any update that waits on it and closes it
for good. `pause_turns` and `resume_turns` work on the same two flags without a
lock: whoever swaps the pause away stores the gate open in a later step.
`shutdown_final` says that the gate stays closed, and what that stops, in every
run in which no such store is pending when the shutdown closes the gate and no
later swap finds a pause; `abort_reopens_gate` is the run in which a store is
pending.
-/

namespace Wheel

namespace Supervisor

open Concurrency Messages

/-- A `resume_turns` finds no pause to lift. -/
def FindsNoPause (p : State) (c : Section Instr Phase Uuid) (_ : Oracle) : Prop :=
  match c with
  | .first .resumeSwap => p.shared.pausedForUpdate = false
  | _ => True

instance (p : State) (c : Section Instr Phase Uuid) (o : Oracle) :
    Decidable (FindsNoPause p c o) := by
  apply Section.casesOn (motive := fun c => Decidable (FindsNoPause p c o)) c
  · intro i
    apply Instr.casesOn (motive := fun i => Decidable (FindsNoPause p (.first i) o)) i <;>
      intros <;> dsimp only [FindsNoPause] <;> infer_instance
  · exact fun _ _ => instDecidableTrue

/-- The sections that read the gate before a delivery or a start goes on. -/
def readsGate : Section Instr Phase Uuid → Bool
  | .first (.pump _) | .first (.startCheck _ _ _) | .first (.startRetake _ _ _) => true
  | _ => false

/-- The phases behind the gate: those that lead to a write or to a child. -/
def Phase.behindGate : Phase → Bool
  | .startPrepare _ _ | .startStarting _ | .startSpawn _ | .pumpStatus | .pumpPick
  | .pumpQuarantine _ | .pumpWrite _ | .pumpAdvance _ | .pumpRunning => true
  | .killing _ _ => false

/-- A delivery or a start that holds the agent's slot lock is behind the gate. -/
def PassedGate (p : State) (a : Uuid) : Prop :=
  ∃ h, p.holder a = some h ∧ h.behindGate = true

/-- In this step the gate is closed; whoever reads it changes nothing and leaves
nothing to be done, and only for the agents in `A` a section behind the gate runs. -/
def GateShut (A : Uuid → Prop) (p : State) (e : Event) : Prop :=
  p.shared.closing = true ∧
    p.Meets machine (fun _ => True)
      (fun p c o => (readsGate c = true → machine.act c p.shared o = (p.shared, {})) ∧
        ∀ a h, c = .later a h → h.behindGate = true → A a) e

/-! ## The gate -/

variable {s : Engine} {o : Oracle} {c : Section Instr Phase Uuid}

/-- Only the store of a `resume_turns` opens the gate. -/
theorem closing_act (hc : c ≠ .first .resumeOpen) (h : s.closing = true) :
    (machine.act c s o).1.closing = true := by
  by_cases hr : keepsRecord c = false
  · rw [(sameRecords_act s o hr).closing, h]
  cases c with
  | first i =>
      cases i with
      | event rd ev => exact (sameRecords_onEvent s o rd ev).closing.trans h
      | resumeOpen => exact absurd rfl hc
      | _ => first | exact h | rfl | exact absurd rfl hr
  | later a p =>
      cases p with
      | startSpawn next => exact (sameRecords_startSpawn s a o next).closing.trans h
      | pumpWrite row => exact (sameRecords_pumpWrite s a o row).closing.trans h
      | _ => exact absurd rfl hr

/-- Only a swap that found a pause leaves a store to be done. -/
theorem swap_of_adds_resumeOpen (h : (machine.act c s o).2.Adds .resumeOpen) :
    c = .first .resumeSwap ∧ s.pausedForUpdate = true := by
  rcases brings_act s o h with hi | hb
  · cases hi
  · generalize hi : Instr.resumeOpen = i at hb
    cases hb with
    | reopen hp => exact ⟨rfl, hp⟩
    | settlement =>
        unfold settlement at hi
        split at hi <;> cases hi
    | _ => cases hi

/-- Whoever reads a closed gate changes nothing and leaves nothing to be done. -/
theorem act_of_readsGate (hc : readsGate c = true) (h : s.closing = true) :
    machine.act c s o = (s, {}) := by
  cases c with
  | first i =>
      cases i with
      | pump a =>
          show pumpGate s a = (s, {})
          unfold pumpGate
          split
          · rfl
          · simp [h]
      | startCheck a next n =>
          show startCheck s a next n = (s, {})
          rw [startCheck, if_pos h]
      | startRetake a next n =>
          show startRetake s a next n = (s, {})
          rw [startRetake, if_pos h]
      | _ => cases hc
  | later k h' => cases hc

/-- Behind a closed gate only those go on who passed it before. -/
theorem behindGate_of_enters {k : Uuid} {h : Phase} (he : Enters s o c k h)
    (hs : s.closing = true) (hh : h.behindGate = true) :
    ∃ h', c = .later k h' ∧ h'.behindGate = true := by
  cases he with
  | prepare hc => simp [hs] at hc
  | status _ _ hc => simp [hs] at hc
  | killing => cases hh
  | stopping => cases hh
  | _ => exact ⟨_, rfl, rfl⟩

/-! ## The outline -/

/-- The gate is closed, no store that opens it is pending, and only the agents
in `A` have somebody behind it. -/
def shutOutline (A : Uuid → Prop) : Outline Engine Instr Phase Uuid Empty where
  inv s := s.closing = true
  needs i _ := i ≠ .resumeOpen
  holds k h _ := h.behindGate = true → A k

theorem resumeOpen_notMem_of_isCall {t : List Instr} (h : IsCall t) : .resumeOpen ∉ t := by
  obtain ⟨c, rfl⟩ := h
  cases c <;> simp [Call.task, stop, clearContext]

theorem shutRule (A : Uuid → Prop) : (shutOutline A).Rule machine IsCall FindsNoPause where
  call _ ht i hi := by
    rintro rfl
    exact resumeOpen_notMem_of_isCall ht hi
  keeps {p e c tasks rest o} hv hd hc := by
    have hne : c ≠ .first .resumeOpen := by
      rintro rfl
      exact hv.needs _ (Pool.has_of_due_first hd) rfl
    refine ⟨closing_act hne hv.inv, fun _ h => h, ?_, fun _ _ _ _ h => h, ?_, nofun⟩
    · rintro i hi rfl
      obtain ⟨rfl, hpause⟩ := swap_of_adds_resumeOpen hi
      rw [show p.shared.pausedForUpdate = false from hc] at hpause
      cases hpause
    · intro k h hl hh hb
      obtain ⟨h', rfl, hb'⟩ := behindGate_of_enters (enters_act _ _ hl hh) hv.inv hb
      exact hv.holds k h' (Pool.holder_of_due_later hd) hb'

theorem gateShut_of_valid {A : Uuid → Prop} {p : State} (hv : (shutOutline A).Valid p)
    (e : Event) : GateShut A p e := by
  refine ⟨hv.inv, Pool.meets_of_due (fun _ _ => trivial) ?_⟩
  intro c tasks rest o hd
  refine ⟨fun hc => act_of_readsGate hc hv.inv, ?_⟩
  rintro a h rfl hb
  exact hv.holds a h (Pool.holder_of_due_later hd) hb

/-- The outline is valid once a shutdown closed the gate. -/
theorem valid_of_shutdownClose {p : State} {e : Event} {tasks : List (List Instr)}
    {rest : List Instr} {o : Oracle}
    (hd : p.due machine e = some (.first .shutdownClose, tasks, rest, o))
    (hp : ¬ p.Has .resumeOpen) : (shutOutline (PassedGate p)).Valid (p.step machine e) := by
  rw [Pool.step_of_due hd]
  refine ⟨?_, ?_, ?_, nofun⟩
  · rw [Pool.shared_place]
    rfl
  · rintro i hi rfl
    rcases Pool.has_place_iff.mp hi with hi | hi
    · exact hp (Pool.has_of_stays hd hi)
    · cases (swap_of_adds_resumeOpen hi).1
  · intro k h hh hb
    rw [Pool.holder_place] at hh
    exact ⟨h, hh, hb⟩

/-! ## The runs -/

/-- After a shutdown closed the gate while no store that opens it was pending, in
every run in which no `resume_turns` finds a pause to lift, the gate stays
closed, no delivery or start that reads it does anything, and nobody writes to a
child or spawns one who was not behind the gate already. -/
theorem shutdown_final {p : State} {e : Event} {tasks : List (List Instr)}
    {rest : List Instr} {o : Oracle}
    (hd : p.due machine e = some (.first .shutdownClose, tasks, rest, o))
    (hp : ¬ p.Has .resumeOpen) {y : List Event}
    (hy : Run.Always (Pool.step machine) (Pool.Meets machine IsCall FindsNoPause)
      (p.step machine e) y) :
    Run.Always (Pool.step machine) (GateShut (PassedGate p)) (p.step machine e) y ∧
      (Run.run (Pool.step machine) (p.step machine e) y).shared.closing = true := by
  have hv := valid_of_shutdownClose hd hp
  constructor
  · exact (shutRule _).always (fun q e' hq _ => gateShut_of_valid hq e') hv hy
  · exact ((shutRule _).run hv hy).inv

/-- An update paused the turns when the shutdown comes. -/
def shutdownInUpdate : List Event :=
  [.call (Call.pauseTurns).task, .run 0 {}, .run 0 {}, .call (Call.shutdown).task, .run 1 {}]

/-- The update gives up after the shutdown closed the gate. -/
def lateAbort : List Event := [.call (Call.resumeTurns).task, .run 2 {}]

theorem shutdown_final_lateAbort :
    (Run.run (Pool.step machine) (Pool.idle (Engine.fresh Keyed.empty))
      (shutdownInUpdate ++ .run 1 {} :: lateAbort)).shared.closing = true := by
  rw [Run.run_append]
  have hclose : Pool.due machine (Run.run (Pool.step machine)
      (Pool.idle (Engine.fresh Keyed.empty)) shutdownInUpdate) (.run 1 {}) =
      some (.first .shutdownClose, [[]], [.shutdownDrain], {}) := rfl
  refine (shutdown_final hclose ?_ ?_).2
  · have htasks : (Run.run (Pool.step machine) (Pool.idle (Engine.fresh Keyed.empty))
        shutdownInUpdate).tasks = [[], [.shutdownClose, .shutdownDrain]] := rfl
    rintro (⟨t, ht, hi⟩ | ⟨k, h, t, hk, -⟩)
    · rw [htasks] at ht
      simp only [List.mem_cons, List.not_mem_nil, or_false] at ht
      rcases ht with rfl | rfl <;> simp at hi
    · cases hk
  · apply Pool.always_meets
    · intro t ht
      obtain rfl : t = (Call.resumeTurns).task := by simpa [lateAbort] using ht
      exact ⟨.resumeTurns, rfl⟩
    · decide +kernel

/-- Agent 1 has a child and a message waiting; an update pauses the turns and
gives up, and between the swap and the store of its abort the shutdown comes. -/
def shutdownInAbort : List Event :=
  [.call (Call.start 1).task, .run 0 {}, .run 0 {}, .run 0 {}, .run 0 {}, .resume 1 {},
    .resume 1 {}, .resume 1 {}, .call (Call.pauseTurns).task, .run 3 {}, .run 3 {},
    .call (Call.enqueue work).task, .run 4 {}, .call (Call.resumeTurns).task, .run 5 {},
    .call (Call.shutdown).task, .run 6 {}]

/-- The abort goes on, and so does the delivery it owes. -/
def abortGoesOn : List Event :=
  [.run 5 {}, .run 6 {}, .run 6 {}, .run 6 {}, .run 6 {}, .resume 1 {}, .resume 1 {},
    .resume 1 {}]

/-- An abort whose swap came before the shutdown opens the gate the shutdown
closed, and a message is written to a child. -/
theorem abort_reopens_gate :
    ∃ p e y, p = Run.run (Pool.step machine) (Pool.idle (Engine.fresh Keyed.empty))
        shutdownInAbort ∧
      (∃ tasks rest o, p.due machine e = some (.first .shutdownClose, tasks, rest, o)) ∧
      (p.step machine e).shared.closing = true ∧
      (p.step machine e).shared.written = [] ∧
      (Run.run (Pool.step machine) (p.step machine e) y).shared.closing = false ∧
      (Run.run (Pool.step machine) (p.step machine e) y).shared.written ≠ [] :=
  ⟨_, .run 6 {}, abortGoesOn, rfl, ⟨_, _, _, rfl⟩, by decide +kernel, by decide +kernel,
    by decide +kernel, by decide +kernel⟩

end Supervisor

end Wheel
