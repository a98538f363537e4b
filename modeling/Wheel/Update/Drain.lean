import Wheel.Supervisor.InFlight
import Wheel.Update.Registry

/-!
# A drain ends on a quiet board

An engine whose gate is closed stays quiet once it is: its agents have no turn in
flight and nobody is behind the gate. A drain closes the gate of every engine it
finds, and an engine that attaches later closes its own, so the engines are quiet
when `busy` found nobody (`drain_quiet`), in every run in which no `attach` is cut
in two by the walk of a pause or of a resume. `attach_cut_by_drain` has the two
runs in which one is.
-/

namespace Wheel

namespace Update

open Concurrency Supervisor

/-- The sections of a pause and of a resume. -/
def isGate : Instr → Bool
  | .pauseMark | .pauseClose | .resumeSwap | .resumeOpen => true
  | _ => false

/-- The agent has no turn in flight, and nobody is behind the gate for it. -/
structure SlotQuiet (p : Supervisor.State) (a : Uuid) : Prop where
  inFlight : p.shared.inFlight a = none
  holder : ∀ h, p.holder a = some h → h.behindGate = false

/-- What holds of every engine. -/
structure EngineOk (s : Site) : Prop where
  /-- Only the registry pauses and resumes turns. -/
  gate : ∀ i, isGate i = true → ¬ s.pool.Has i
  shut : s.pool.Has .shutdownUnpause ∨ s.pool.Has .shutdownClose → s.stopping = true
  made : ∀ a ∉ s.agents, s.pool.holder a = none ∧ s.pool.shared.slots a = none

/-- The gate of the engine is closed. -/
def Closed (s : Site) : Prop := s.pool.shared.closing = true

/-- The engine is closed, no turn is in flight and none can start. -/
def Quiet (s : Site) : Prop := Closed s ∧ ∀ a, SlotQuiet s.pool a

/-- The engine is not paused; its gate is open unless it shuts down. -/
def Unpaused (s : Site) : Prop :=
  s.pool.shared.pausedForUpdate = false ∧ (Closed s → s.stopping = true)

variable {s : Site} {e : Supervisor.Event} {stops : Bool} {a : Uuid}

/-! ## An engine by itself -/

/-- The event of an engine: no pause and no resume, and a shutdown is noted. -/
structure Own (e : Supervisor.Event) (stops : Bool) : Prop where
  gate : ∀ t, e = .call t → ∀ i ∈ t, isGate i = false
  shut : ∀ t, e = .call t → .shutdownUnpause ∈ t ∨ .shutdownClose ∈ t → stops = true

theorem own_of_event {x : Act} (h : x.event = some e) : Own e x.stops := by
  cases x with
  | run n o =>
      cases h
      exact ⟨nofun, nofun⟩
  | resume b o =>
      cases h
      exact ⟨nofun, nofun⟩
  | call c =>
      have hadopt : ∀ readers : List Uuid, ∀ i ∈ readers.map Instr.adoptCheck,
          isGate i = false ∧ i ≠ .shutdownUnpause ∧ i ≠ .shutdownClose := by
        intro readers i hi
        obtain ⟨r, -, rfl⟩ := List.mem_map.mp hi
        exact ⟨rfl, nofun, nofun⟩
      cases c with
      | pauseTurns => cases h
      | resumeTurns => cases h
      | adopt readers =>
          cases h
          refine ⟨fun t ht i hi => ?_, fun t ht hi => ?_⟩
          · cases ht
            exact (hadopt readers i hi).1
          · cases ht
            rcases hi with hi | hi
            · exact absurd rfl (hadopt readers _ hi).2.1
            · exact absurd rfl (hadopt readers _ hi).2.2
      | shutdown =>
          cases h
          refine ⟨fun t ht i hi => ?_, fun t ht hi => rfl⟩
          cases ht
          revert i
          decide
      | enqueue m | deliver b | start b | stop b | restart b | interrupt b | clearContext b
      | park b | killIfOauthShaped b | resumeIfBlocked b | resumeAfterLimit b =>
          cases h
          refine ⟨fun t ht i hi => ?_, fun t ht hi => ?_⟩
          · cases ht
            revert i hi
            simp [Call.task, Supervisor.stop, clearContext, isGate]
          · cases ht
            revert hi
            simp [Call.task, Supervisor.stop, clearContext]

/-- No section leaves a pause, a resume or a shutdown to be done, but a swap that
found a pause. -/
theorem isGate_of_adds {c : Section Instr Phase Uuid} {x : Engine} {o : Oracle} {i : Instr}
    (hi : (machine.act c x o).2.Adds i)
    (h : isGate i = true ∨ i = .shutdownUnpause ∨ i = .shutdownClose) : c = .first .resumeSwap := by
  have hord : i.isOrdinary = false := by
    rcases h with h | rfl | rfl
    · cases i <;> first | rfl | cases h
    · rfl
    · rfl
  rcases brings_act x o hi with hord' | hb
  · rw [hord] at hord'
    cases hord'
  · cases hb with
    | reopen => rfl
    | @settlement t overBudget =>
        unfold settlement at h
        split at h <;> simp [isGate] at h
    | _ => simp [isGate] at h

/-- Only the store of a shutdown or of a pause closes the gate. -/
theorem closing_of_act {c : Section Instr Phase Uuid} {x : Engine} {o : Oracle}
    (h : (machine.act c x o).1.closing = true) :
    x.closing = true ∨ c = .first .shutdownClose ∨ c = .first .pauseClose := by
  by_cases hr : keepsRecord c = false
  · rw [(sameRecords_act x o hr).closing] at h
    exact .inl h
  cases c with
  | first i =>
      cases i with
      | event rd ev => exact .inl ((sameRecords_onEvent x o rd ev).closing.symm.trans h)
      | shutdownClose => exact .inr (.inl rfl)
      | pauseClose => exact .inr (.inr rfl)
      | resumeOpen => cases h
      | _ => first | exact .inl h | exact absurd rfl hr
  | later b p =>
      cases p with
      | startSpawn next => exact .inl ((sameRecords_startSpawn x b o next).closing.symm.trans h)
      | pumpWrite row => exact .inl ((sameRecords_pumpWrite x b o row).closing.symm.trans h)
      | _ => exact absurd rfl hr

/-- Only a pause marks one, and only a resume or a shutdown takes it away. -/
theorem pausedForUpdate_act {c : Section Instr Phase Uuid} {x : Engine} {o : Oracle}
    (hm : c ≠ .first .pauseMark) (hs : c ≠ .first .resumeSwap) :
    (machine.act c x o).1.pausedForUpdate = x.pausedForUpdate ∨
      c = .first .shutdownUnpause ∧ (machine.act c x o).1.pausedForUpdate = false := by
  by_cases hr : keepsRecord c = false
  · exact .inl (sameRecords_act x o hr).pausedForUpdate
  cases c with
  | first i =>
      cases i with
      | event rd ev => exact .inl (sameRecords_onEvent x o rd ev).pausedForUpdate
      | shutdownUnpause => exact .inr ⟨rfl, rfl⟩
      | pauseMark => exact absurd rfl hm
      | resumeSwap => exact absurd rfl hs
      | _ => first | exact .inl rfl | exact absurd rfl hr
  | later b p =>
      cases p with
      | startSpawn next => exact .inl (sameRecords_startSpawn x b o next).pausedForUpdate
      | pumpWrite row => exact .inl (sameRecords_pumpWrite x b o row).pausedForUpdate
      | _ => exact absurd rfl hr

/-- The due section of an engine is none of the registry's. -/
theorem EngineOk.ne_gate (h : EngineOk s) {c : Section Instr Phase Uuid}
    {tasks : List (List Instr)} {rest : List Instr} {o : Oracle}
    (hd : s.pool.due machine e = some (c, tasks, rest, o)) {i : Instr} (hi : isGate i = true) :
    c ≠ .first i := by
  rintro rfl
  exact h.gate i hi (Pool.has_of_due_first hd)

theorem EngineOk.step (h : EngineOk s) (hown : Own e stops) : EngineOk (s.step e stops) where
  gate i hi hh := by
    rcases Pool.has_of_has_step hh with hold | ⟨t, rfl, ht⟩ | ⟨c, tasks, rest, o, hd, hadd⟩
    · exact h.gate i hi hold
    · rw [hown.gate t rfl i ht] at hi
      cases hi
    · exact h.ne_gate hd (i := .resumeSwap) rfl (isGate_of_adds hadd (.inl hi))
  shut hh := by
    have hone : ∀ i, (i = .shutdownUnpause ∨ i = .shutdownClose) →
        (s.pool.step machine e).Has i → s.stopping = true ∨ stops = true := by
      intro i hi hhas
      rcases Pool.has_of_has_step hhas with hold | ⟨t, rfl, ht⟩ | ⟨c, tasks, rest, o, hd, hadd⟩
      · refine .inl (h.shut ?_)
        rcases hi with rfl | rfl
        · exact .inl hold
        · exact .inr hold
      · refine .inr (hown.shut t rfl ?_)
        rcases hi with rfl | rfl
        · exact .inl ht
        · exact .inr ht
      · exact absurd (isGate_of_adds hadd (.inr hi)) (h.ne_gate hd rfl)
    show (s.stopping || stops) = true
    rw [Bool.or_eq_true]
    rcases hh with hh | hh
    · exact hone _ (.inl rfl) hh
    · exact hone _ (.inr rfl) hh
  made a ha := by
    have ha : a ∉ s.agents ∧ s.slotOf e ≠ some a := by
      simpa [Site.step, not_or] using ha
    obtain ⟨hholder, hslot⟩ := h.made a ha.1
    show (s.pool.step machine e).holder a = none ∧ (s.pool.step machine e).shared.slots a = none
    rcases Pool.step_cases machine s.pool e with ⟨c, tasks, rest, o, hd, hs⟩ | ⟨-, ⟨t, rfl, hs⟩ | hs⟩
    · have hl : machine.lockOf c ≠ some a := by
        intro hl
        apply ha.2
        rw [Site.slotOf, hd]
        exact hl
      rw [hs, Pool.holder_place, Pool.shared_place, Pool.holderAfter, if_neg hl,
        slots_act_of_ne _ _ hl]
      exact ⟨hholder, hslot⟩
    · rw [hs]
      exact ⟨hholder, hslot⟩
    · rw [hs]
      exact ⟨hholder, hslot⟩

theorem Closed.step (hs : Closed s) (h : EngineOk s) : Closed (s.step e stops) := by
  show (s.pool.step machine e).shared.closing = true
  rcases Pool.step_cases machine s.pool e with ⟨c, tasks, rest, o, hd, hst⟩ | ⟨-, ⟨t, rfl, hst⟩ | hst⟩
  · rw [hst, Pool.shared_place]
    exact closing_act (h.ne_gate hd rfl) hs
  · rw [hst]
    exact hs
  · rw [hst]
    exact hs

/-- The engine is paused by the registry, or shuts down. -/
def Noted (s : Site) : Prop := s.pool.shared.pausedForUpdate = true ∨ s.stopping = true

/-- A closed engine is paused by the registry, or shuts down. -/
def Accounted (s : Site) : Prop := Closed s → Noted s

theorem Noted.step (hs : Noted s) (h : EngineOk s) : Noted (s.step e stops) := by
  show (s.pool.step machine e).shared.pausedForUpdate = true ∨ (s.stopping || stops) = true
  rw [Bool.or_eq_true]
  rcases Pool.step_cases machine s.pool e with ⟨c, tasks, rest, o, hd, hst⟩ | ⟨-, ⟨t, rfl, hst⟩ | hst⟩
  · rw [hst, Pool.shared_place]
    rcases pausedForUpdate_act (x := s.pool.shared) (o := o) (h.ne_gate hd rfl)
      (h.ne_gate hd rfl) with hp | ⟨rfl, -⟩
    · rw [hp]
      exact hs.imp_right .inl
    · exact .inr (.inl (h.shut (.inl (Pool.has_of_due_first hd))))
  · rw [hst]
    exact hs.imp_right .inl
  · rw [hst]
    exact hs.imp_right .inl

theorem Accounted.step (hs : Accounted s) (h : EngineOk s) : Accounted (s.step e stops) := by
  intro hc
  by_cases hold : Closed s
  · exact (hs hold).step h
  refine .inr ?_
  show (s.stopping || stops) = true
  rw [Bool.or_eq_true]
  have hc : (s.pool.step machine e).shared.closing = true := hc
  rcases Pool.step_cases machine s.pool e with ⟨c, tasks, rest, o, hd, hst⟩ | ⟨-, ⟨t, rfl, hst⟩ | hst⟩
  · rw [hst, Pool.shared_place] at hc
    rcases closing_of_act hc with hc | rfl | rfl
    · exact absurd hc hold
    · exact .inl (h.shut (.inr (Pool.has_of_due_first hd)))
    · exact absurd rfl (h.ne_gate hd rfl)
  · rw [hst] at hc
    exact absurd hc hold
  · rw [hst] at hc
    exact absurd hc hold

/-- An engine does not pause itself. -/
theorem pausedForUpdate_step (stops : Bool) (hs : s.pool.shared.pausedForUpdate = false)
    (h : EngineOk s) :
    (s.step e stops).pool.shared.pausedForUpdate = false := by
  show (s.pool.step machine e).shared.pausedForUpdate = false
  rcases Pool.step_cases machine s.pool e with ⟨c, tasks, rest, o, hd, hst⟩ | ⟨-, ⟨t, rfl, hst⟩ | hst⟩
  · rw [hst, Pool.shared_place]
    rcases pausedForUpdate_act (x := s.pool.shared) (o := o) (h.ne_gate hd rfl)
      (h.ne_gate hd rfl) with hp | ⟨-, hp⟩
    · exact hp.trans hs
    · exact hp
  · rw [hst]
    exact hs
  · rw [hst]
    exact hs

/-- An engine that is not paused is not paused by what it does itself. -/
theorem Unpaused.step (hs : Unpaused s) (h : EngineOk s) : Unpaused (s.step e stops) := by
  have hp := pausedForUpdate_step (e := e) stops hs.1 h
  have hacc : Accounted s := fun hc => .inr (hs.2 hc)
  refine ⟨hp, fun hc => ?_⟩
  rcases hacc.step h hc with hnote | hstop
  · rw [hp] at hnote
    cases hnote
  · exact hstop

/-- Behind a closed gate no turn starts. -/
theorem SlotQuiet.step (hq : SlotQuiet s.pool a) (hc : Closed s) :
    SlotQuiet (s.step e stops).pool a := by
  show SlotQuiet (s.pool.step machine e) a
  rcases Pool.step_cases machine s.pool e with ⟨c, tasks, rest, o, hd, hst⟩ | ⟨-, ⟨t, rfl, hst⟩ | hst⟩
  · rw [hst]
    constructor
    · rw [Pool.shared_place, Engine.inFlight]
      have hold : (s.pool.shared.slots a).bind (·.inFlight) = none := hq.inFlight
      have hslot := slotAfter_act s.pool.shared o c a
      generalize (machine.act c s.pool.shared o).1.slots a = x at hslot
      cases hslot with
      | same => exact hold
      | taken => rfl
      | shut => rfl
      | @named rd sessionId =>
          rw [bind_inFlight_map (seeSession sessionId) fun _ => rfl]
          exact hold
      | @limited rd sessionId status window utilization resetsAt =>
          rw [bind_inFlight_map (seeLimit ⟨resetsAt, window⟩) fun _ => rfl]
          exact hold
      | @ended rd sessionId isError text turns costUsd =>
          cases s.pool.shared.slots rd.agent with
          | none => rfl
          | some r => rfl
      | @written b row =>
          have hb := hq.holder _ (Pool.holder_of_due_later hd)
          cases hb
      | spawned => rfl
    · intro h' hh
      rw [Pool.holder_place, Pool.holderAfter] at hh
      split at hh
      · rename_i hl
        by_contra hb
        rw [Bool.not_eq_false] at hb
        obtain ⟨h'', rfl, hb''⟩ := behindGate_of_enters (enters_act _ _ hl hh) hc hb
        rw [hq.holder _ (Pool.holder_of_due_later hd)] at hb''
        cases hb''
      · exact hq.holder h' hh
  · rw [hst]
    exact ⟨hq.inFlight, hq.holder⟩
  · rw [hst]
    exact hq

theorem Quiet.step (hq : Quiet s) (h : EngineOk s) : Quiet (s.step e stops) :=
  ⟨hq.1.step h, fun a => (hq.2 a).step hq.1⟩

/-- `busy_agents` sees a turn in flight and whoever is behind the gate. -/
theorem slotQuiet_of_isBusy (h : s.isBusy a = false) : SlotQuiet s.pool a := by
  rw [Site.isBusy, Bool.or_eq_false_iff, Option.isSome_eq_false_iff, Option.isSome_eq_false_iff,
    Option.isNone_iff_eq_none, Option.isNone_iff_eq_none] at h
  refine ⟨h.2, fun h' hh => ?_⟩
  rw [Pool.holder, h.1] at hh
  cases hh

theorem EngineOk.slotQuiet (h : EngineOk s) (ha : a ∉ s.agents) : SlotQuiet s.pool a := by
  obtain ⟨hholder, hslot⟩ := h.made a ha
  refine ⟨?_, fun h' hh => ?_⟩
  · rw [Engine.inFlight, hslot]
    rfl
  · rw [hholder] at hh
    cases hh

/-- A load or a store on the flags leaves the slots and the tasks. -/
theorem EngineOk.setShared (h : EngineOk s) {f : Engine → Engine}
    (hf : (f s.pool.shared).slots = s.pool.shared.slots) : EngineOk (s.setShared f) where
  gate := h.gate
  shut := h.shut
  made b hb := by
    obtain ⟨hholder, hslot⟩ := h.made b hb
    exact ⟨hholder, (congrFun hf b).trans hslot⟩

theorem EngineOk.resumeDeliver (h : EngineOk s) : EngineOk s.resumeDeliver := by
  have hhas : ∀ i, s.resumeDeliver.pool.Has i → s.pool.Has i ∨ ∃ b, i = .deliver b := by
    rintro i (⟨t, ht, hi⟩ | hheld)
    · rcases List.mem_append.mp ht with ht | ht
      · exact .inl (.inl ⟨t, ht, hi⟩)
      · obtain ⟨b, -, rfl⟩ := List.mem_map.mp ht
        exact .inr ⟨b, List.mem_singleton.mp hi⟩
    · exact .inl (.inr hheld)
  constructor
  · intro i hi hh
    rcases hhas i hh with hh | ⟨b, rfl⟩
    · exact h.gate i hi hh
    · cases hi
  · rintro (hh | hh)
    · rcases hhas _ hh with hh | ⟨b, hb⟩
      · exact h.shut (.inl hh)
      · cases hb
    · rcases hhas _ hh with hh | ⟨b, hb⟩
      · exact h.shut (.inr hh)
      · cases hb
  · exact h.made

/-! ## What the drain knows of its engines -/

/-- What an `attach` that is under way read. -/
def Join.read : Join → Option Bool
  | .mark | .close | .insert true => some true
  | .insert false => some false
  | .test | .serving | .gone => none

/-- The flag was changed, and the engines are still to be listed. -/
def Drain.isFresh : Drain → Bool
  | .snapshot | .unsnapshot => true
  | _ => false

def Drain.flag : Drain → Bool
  | .idle | .unsnapshot | .resuming _ | .opening .. | .delivering .. => false
  | _ => true

/-- The engines a walk still has to visit. -/
def Drain.walk : Drain → List ℕ
  | .pausing left | .busy left _ | .resuming left => left
  | .closing i left | .slots i _ left _ | .opening i left | .delivering i left => i :: left
  | _ => []

/-- What an engine that is not attached yet has kept. -/
def JoinOk (s : Site) : Prop :=
  match s.join with
  | .test | .mark | .insert false => (∀ a, SlotQuiet s.pool a) ∧
      s.pool.shared.pausedForUpdate = false ∧ s.pool.shared.closing = false
  | .close => (∀ a, SlotQuiet s.pool a) ∧ s.pool.shared.pausedForUpdate = true
  | .insert true => Quiet s ∧ s.pool.shared.pausedForUpdate = true
  | .serving | .gone => True

/-- What holds of every engine between the two halves of its pause or resume. -/
def Drain.Mid (d : Drain) (i : ℕ) (s : Site) : Prop :=
  match d with
  | .closing j _ => Accounted s ∧ (i = j → Noted s)
  | .opening j _ => (i = j → s.pool.shared.pausedForUpdate = false) ∧ (i ≠ j → Accounted s)
  | _ => Accounted s

/-- What holds of the engines of the registry. -/
def Drain.Expects (d : Drain) (i : ℕ) (s : Site) : Prop :=
  match d with
  | .idle => Unpaused s
  | .snapshot | .unsnapshot => True
  | .pausing left => i ∈ left ∨ Closed s
  | .closing j left => i = j ∨ i ∈ left ∨ Closed s
  | .look | .wait => Closed s
  | .busy left found => Closed s ∧ (found = true ∨ i ∈ left ∨ ∀ a, SlotQuiet s.pool a)
  | .slots j agents left found => Closed s ∧ (found = true ∨ i ∈ left ∨
      (i = j ∧ ∀ a ∉ agents, SlotQuiet s.pool a) ∨ ∀ a, SlotQuiet s.pool a)
  | .resuming left | .delivering _ left => i ∈ left ∨ Unpaused s
  | .opening j left => i = j ∨ i ∈ left ∨ Unpaused s
  | .ready => Quiet s

/-- What holds of an engine, attached or not. -/
structure SiteOk (d : Drain) (i : ℕ) (s : Site) : Prop where
  engine : EngineOk s
  join : JoinOk s
  mid : d.Mid i s
  /-- It did not read what the flag was before the last change. -/
  admits : d.isFresh = false → s.join.read ≠ some (!d.flag)

/-- The invariant of the registry. -/
structure BoardOk (b : Board) : Prop where
  paused : b.paused = b.drain.flag
  sites : ∀ i s, b.sites i = some s → SiteOk b.drain i s
  live : ∀ i ∈ b.live, ∃ s, b.sites i = some s ∧ s.join = .serving ∧ b.drain.Expects i s
  walk : ∀ i ∈ b.drain.walk, ∃ s, b.sites i = some s ∧ (s.join = .serving ∨ s.join = .gone)

/-- No `attach` that read the flag before a pause or a resume changed it is still
under way when that lists the engines. -/
def InOrder (b : Board) (e : BoardEvent) : Prop :=
  (∃ late, e = .drain late) → b.drain.isFresh = true →
    ∀ i s, b.sites i = some s → s.join.read ≠ some (!b.paused)

variable {b : Board} {d : Drain} {i : ℕ}

theorem Noted.accounted (h : Noted s) : Accounted s := fun _ => h

theorem Drain.mid_of_not_mem (hi : i ∉ d.walk) : d.Mid i s ↔ Accounted s := by
  cases d with
  | closing j left =>
      have hne : i ≠ j := fun h => hi (h ▸ List.mem_cons_self)
      exact ⟨fun h => h.1, fun h => ⟨h, fun he => absurd he hne⟩⟩
  | opening j left =>
      have hne : i ≠ j := fun h => hi (h ▸ List.mem_cons_self)
      exact ⟨fun h => h.2 hne, fun h => ⟨fun he => absurd he hne, fun _ => h⟩⟩
  | _ => exact Iff.rfl

theorem Drain.Mid.step (hm : d.Mid i s) (h : EngineOk s) : d.Mid i (s.step e stops) := by
  cases d with
  | closing j left => exact ⟨hm.1.step h, fun he => (hm.2 he).step h⟩
  | opening j left =>
      exact ⟨fun he => pausedForUpdate_step stops (hm.1 he) h, fun he => (hm.2 he).step h⟩
  | _ => exact Accounted.step hm h

theorem Drain.Expects.step (hx : d.Expects i s) (h : EngineOk s) :
    d.Expects i (s.step e stops) := by
  cases d with
  | idle => exact Unpaused.step hx h
  | snapshot | unsnapshot => trivial
  | pausing left => exact hx.imp_right fun hc => hc.step h
  | closing j left => exact hx.imp_right (.imp_right fun hc => hc.step h)
  | look | wait => exact Closed.step hx h
  | busy left found =>
      exact ⟨hx.1.step h, hx.2.imp_right (.imp_right fun hq a => (hq a).step hx.1)⟩
  | slots j agents left found =>
      refine ⟨hx.1.step h, hx.2.imp_right (.imp_right (.imp ?_ ?_))⟩
      · exact fun hq => ⟨hq.1, fun a ha => (hq.2 a ha).step hx.1⟩
      · exact fun hq a => (hq a).step hx.1
  | resuming left | delivering j left => exact hx.imp_right fun hu => hu.step h
  | opening j left => exact hx.imp_right (.imp_right fun hu => hu.step h)
  | ready => exact Quiet.step hx h

/-! ## The steps of the registry -/

@[simp] theorem Board.sites_modify_self {f : Site → Site} :
    (b.modify i f).sites i = (b.sites i).map f := Function.update_self ..

theorem Board.sites_modify_of_ne {j : ℕ} {f : Site → Site} (hij : i ≠ j) :
    (b.modify j f).sites i = b.sites i := Function.update_of_ne hij ..

/-- A step of the drain that visits no engine. -/
theorem BoardOk.turn (h : BoardOk b) {b' : Board} (hs : b'.sites = b.sites)
    (ha : b'.attached = b.attached) (hp : b'.paused = b'.drain.flag)
    (hadm : ∀ i s, b.sites i = some s → b'.drain.isFresh = false →
      s.join.read ≠ some (!b'.drain.flag))
    (hmid : ∀ i s, b.drain.Mid i s → b'.drain.Mid i s)
    (hlive : ∀ i s, EngineOk s → i ∈ b.live → b.sites i = some s → b.drain.Expects i s →
      b'.drain.Expects i s)
    (hwalk : ∀ i ∈ b'.drain.walk, i ∈ b.live ∨ i ∈ b.drain.walk) : BoardOk b' where
  paused := hp
  sites i s hi := by
    rw [hs] at hi
    have hsite := h.sites i s hi
    exact ⟨hsite.engine, hsite.join, hmid i s hsite.mid, hadm i s hi⟩
  live i hi := by
    have hi : i ∈ b.live := by
      rw [Board.live, ha] at hi
      exact hi
    obtain ⟨s, hsi, hj, hx⟩ := h.live i hi
    exact ⟨s, (congrFun hs i).trans hsi, hj, hlive i s (h.sites i s hsi).engine hi hsi hx⟩
  walk i hi := by
    rw [hs]
    rcases hwalk i hi with hi | hi
    · obtain ⟨s, hsi, hj, -⟩ := h.live i hi
      exact ⟨s, hsi, .inl hj⟩
    · exact h.walk i hi

/-- A step of the drain that visits an engine of its walk. -/
theorem BoardOk.visit (h : BoardOk b) {j : ℕ} {f : Site → Site} {b' : Board}
    (hs : b'.sites = (b.modify j f).sites) (ha : b'.attached = b.attached)
    (hp : b'.paused = b.paused) (hflag : b'.drain.flag = b.drain.flag)
    (hfresh : b.drain.isFresh = false) (hjoin : ∀ s, (f s).join = s.join)
    (heng : ∀ s, EngineOk s → EngineOk (f s)) (hj : j ∈ b.drain.walk)
    (hmid : ∀ s, b.sites j = some s → b.drain.Mid j s → b'.drain.Mid j (f s))
    (hothers : ∀ i s, i ≠ j → b.drain.Mid i s → b'.drain.Mid i s)
    (hlive : ∀ s, b.sites j = some s → b.drain.Mid j s → b.drain.Expects j s →
      b'.drain.Expects j (f s))
    (hlives : ∀ i s, i ≠ j → b.drain.Expects i s → b'.drain.Expects i s)
    (hwalk : ∀ i ∈ b'.drain.walk, i ∈ b.drain.walk) : BoardOk b' where
  paused := by rw [hp, hflag, h.paused]
  sites i s hi := by
    rw [hs] at hi
    by_cases hij : i = j
    · subst hij
      rw [Board.sites_modify_self] at hi
      obtain ⟨s, hsi, rfl⟩ := Option.map_eq_some_iff.mp hi
      have hsite := h.sites i s hsi
      obtain ⟨s', hsi', hserve⟩ := h.walk i hj
      obtain rfl : s = s' := Option.some.inj (hsi.symm.trans hsi')
      refine ⟨heng s hsite.engine, ?_, hmid s hsi hsite.mid, fun _ => ?_⟩
      · rw [JoinOk, hjoin]
        rcases hserve with hserve | hserve <;> rw [hserve] <;> trivial
      · rw [hjoin, hflag]
        exact hsite.admits hfresh
    · rw [Board.sites_modify_of_ne hij] at hi
      have hsite := h.sites i s hi
      refine ⟨hsite.engine, hsite.join, hothers i s hij hsite.mid, fun _ => ?_⟩
      rw [hflag]
      exact hsite.admits hfresh
  live i hi := by
    have hi : i ∈ b.live := by
      rw [Board.live, ha] at hi
      exact hi
    obtain ⟨s, hsi, hserve, hx⟩ := h.live i hi
    rw [hs]
    by_cases hij : i = j
    · subst hij
      refine ⟨f s, ?_, (hjoin s).trans hserve, hlive s hsi (h.sites i s hsi).mid hx⟩
      rw [Board.sites_modify_self, hsi]
      rfl
    · exact ⟨s, (Board.sites_modify_of_ne hij).trans hsi, hserve, hlives i s hij hx⟩
  walk i hi := by
    obtain ⟨s, hsi, hserve⟩ := h.walk i (hwalk i hi)
    rw [hs]
    by_cases hij : i = j
    · subst hij
      refine ⟨f s, ?_, ?_⟩
      · rw [Board.sites_modify_self, hsi]
        rfl
      · rw [hjoin]
        exact hserve
    · exact ⟨s, (Board.sites_modify_of_ne hij).trans hsi, hserve⟩

variable {sites : ℕ → Option Site} {attached : List (Uuid × ℕ)} {p : Bool} {left : List ℕ} {j : ℕ}

theorem boardOk_pausing (h : BoardOk ⟨sites, attached, p, .pausing left⟩) (late : Bool) :
    BoardOk (Board.drainStep ⟨sites, attached, p, .pausing left⟩ late) := by
  cases left with
  | nil =>
      exact h.turn rfl rfl h.paused (fun i s hi => (h.sites i s hi).admits) (fun _ _ hm => hm)
        (fun _ _ _ _ _ hx => hx.resolve_left List.not_mem_nil) nofun
  | cons j left =>
      refine h.visit rfl rfl rfl rfl rfl (fun _ => rfl) (fun _ hs => hs.setShared rfl)
        List.mem_cons_self (fun s _ _ => ?_) (fun _ _ hij hm => ⟨hm, fun he => absurd he hij⟩)
        (fun _ _ _ _ => .inl rfl) (fun _ _ hij hx => .inr ?_) (fun _ hi => hi)
      · have hn : Noted s.pauseMark := .inl rfl
        exact ⟨hn.accounted, fun _ => hn⟩
      · exact hx.imp_left fun hi => (List.mem_cons.mp hi).resolve_left hij

theorem boardOk_closing (h : BoardOk ⟨sites, attached, p, .closing j left⟩) (late : Bool) :
    BoardOk (Board.drainStep ⟨sites, attached, p, .closing j left⟩ late) := by
  refine h.visit rfl rfl rfl rfl rfl (fun _ => rfl) (fun _ hs => hs.setShared rfl)
    List.mem_cons_self (fun s _ hm => ?_) (fun _ _ _ hm => hm.1) (fun _ _ _ _ => .inr rfl)
    (fun _ _ hij hx => hx.resolve_left hij) (fun _ hi => List.mem_cons_of_mem _ hi)
  have hn : Noted s.pauseClose := hm.2 rfl
  exact hn.accounted

theorem boardOk_busy {found : Bool} (h : BoardOk ⟨sites, attached, p, .busy left found⟩)
    (late : Bool) : BoardOk (Board.drainStep ⟨sites, attached, p, .busy left found⟩ late) := by
  cases left with
  | nil =>
      cases found with
      | true =>
          exact h.turn rfl rfl h.paused (fun i s hi => (h.sites i s hi).admits)
            (fun _ _ hm => hm) (fun _ _ _ _ _ hx => hx.1) nofun
      | false =>
          refine h.turn rfl rfl h.paused (fun i s hi => (h.sites i s hi).admits)
            (fun _ _ hm => hm) (fun i s _ _ _ hx => ?_) nofun
          obtain ⟨hc, hf | hl | hq⟩ := hx
          · cases hf
          · cases hl
          · exact ⟨hc, hq⟩
  | cons j left =>
      refine h.turn rfl rfl h.paused (fun i s hi => (h.sites i s hi).admits) (fun _ _ hm => hm)
        (fun i s he _ hi hx => ?_) (fun _ hi => .inr hi)
      obtain ⟨hc, hf | hl | hq⟩ := hx
      · exact ⟨hc, .inl hf⟩
      · rcases List.mem_cons.mp hl with rfl | hl
        · refine ⟨hc, .inr (.inr (.inl ⟨rfl, fun a ha => he.slotQuiet ?_⟩))⟩
          have hi : sites i = some s := hi
          simp only [hi, Option.elim_some] at ha
          exact ha
        · exact ⟨hc, .inr (.inl hl)⟩
      · exact ⟨hc, .inr (.inr (.inr hq))⟩

theorem boardOk_slots {found : Bool} {agents : List Uuid}
    (h : BoardOk ⟨sites, attached, p, .slots j agents left found⟩) (late : Bool) :
    BoardOk (Board.drainStep ⟨sites, attached, p, .slots j agents left found⟩ late) := by
  cases agents with
  | nil =>
      refine h.turn rfl rfl h.paused (fun i s hi => (h.sites i s hi).admits) (fun _ _ hm => hm)
        (fun i s _ _ _ hx => ?_) (fun _ hi => .inr (List.mem_cons_of_mem _ hi))
      obtain ⟨hc, hf | hl | ⟨-, hq⟩ | hq⟩ := hx
      · exact ⟨hc, .inl hf⟩
      · exact ⟨hc, .inr (.inl hl)⟩
      · exact ⟨hc, .inr (.inr fun a => hq a List.not_mem_nil)⟩
      · exact ⟨hc, .inr (.inr hq)⟩
  | cons a agents =>
      refine h.turn rfl rfl h.paused (fun i s hi => (h.sites i s hi).admits) (fun _ _ hm => hm)
        (fun i s _ _ hi hx => ?_) (fun _ hi => .inr hi)
      have hi' : sites i = some s := hi
      obtain ⟨hc, hf | hl | ⟨rfl, hq⟩ | hq⟩ := hx
      · refine ⟨hc, .inl ?_⟩
        show (found || _) = true
        rw [hf, Bool.true_or]
      · exact ⟨hc, .inr (.inl hl)⟩
      · cases hbusy : s.isBusy a with
        | true =>
            refine ⟨hc, .inl ?_⟩
            have hany : (sites i).any (fun s => s.isBusy a) = true := by
              rw [hi', Option.any_some, hbusy]
            show (found || (sites i).any fun s => s.isBusy a) = true
            rw [hany, Bool.or_true]
        | false =>
            refine ⟨hc, .inr (.inr (.inl ⟨rfl, fun c hca => ?_⟩))⟩
            by_cases hcb : c = a
            · rw [hcb]
              exact slotQuiet_of_isBusy hbusy
            · exact hq c fun hc => (List.mem_cons.mp hc).elim hcb hca
      · exact ⟨hc, .inr (.inr (.inr hq))⟩

theorem boardOk_resuming (h : BoardOk ⟨sites, attached, p, .resuming left⟩) (late : Bool) :
    BoardOk (Board.drainStep ⟨sites, attached, p, .resuming left⟩ late) := by
  cases left with
  | nil =>
      exact h.turn rfl rfl h.paused (fun i s hi => (h.sites i s hi).admits) (fun _ _ hm => hm)
        (fun _ _ _ _ _ hx => hx.resolve_left List.not_mem_nil) nofun
  | cons j left =>
      obtain ⟨r, hr, -⟩ := h.walk j List.mem_cons_self
      have hr : sites j = some r := hr
      simp only [Board.drainStep, hr, Option.any_some]
      cases hwas : r.pool.shared.pausedForUpdate with
      | true =>
          refine h.visit rfl rfl rfl rfl rfl (fun _ => rfl) (fun _ hs => hs.setShared rfl)
            List.mem_cons_self (fun _ _ _ => ⟨fun _ => rfl, fun hne => absurd rfl hne⟩)
            (fun _ _ hij hm => ⟨fun he => absurd he hij, fun _ => hm⟩) (fun _ _ _ _ => .inl rfl)
            (fun _ _ hij hx => .inr ?_) (fun _ hi => hi)
          exact hx.imp_left fun hi => (List.mem_cons.mp hi).resolve_left hij
      | false =>
          -- A pause that is already gone is a shutdown's, and the gate stays its own.
          have hkeep : ∀ s, sites j = some s → Accounted s → Unpaused s.resumeSwap := by
            intro s hs hacc
            obtain rfl : r = s := Option.some.inj (hr.symm.trans hs)
            refine ⟨rfl, fun hc => (hacc hc).resolve_left ?_⟩
            rw [hwas]
            exact Bool.false_ne_true
          refine h.visit rfl rfl rfl rfl rfl (fun _ => rfl) (fun _ hs => hs.setShared rfl)
            List.mem_cons_self (fun s hs hm hc => .inr ((hkeep s hs hm).2 hc))
            (fun _ _ _ hm => hm) (fun s hs hm _ => .inr (hkeep s hs hm))
            (fun _ _ hij hx => ?_) (fun _ hi => List.mem_cons_of_mem _ hi)
          exact hx.imp_left fun hi => (List.mem_cons.mp hi).resolve_left hij

theorem boardOk_opening (h : BoardOk ⟨sites, attached, p, .opening j left⟩) (late : Bool) :
    BoardOk (Board.drainStep ⟨sites, attached, p, .opening j left⟩ late) :=
  h.visit rfl rfl rfl rfl rfl (fun _ => rfl) (fun _ hs => hs.setShared rfl)
    List.mem_cons_self (fun _ _ _ => nofun) (fun _ _ hij hm => hm.2 hij)
    (fun _ _ hm _ => .inr ⟨hm.1 rfl, nofun⟩) (fun _ _ hij hx => hx.resolve_left hij)
    (fun _ hi => hi)

theorem boardOk_delivering (h : BoardOk ⟨sites, attached, p, .delivering j left⟩)
    (late : Bool) : BoardOk (Board.drainStep ⟨sites, attached, p, .delivering j left⟩ late) :=
  h.visit rfl rfl rfl rfl rfl (fun _ => rfl) (fun _ hs => hs.resumeDeliver)
    List.mem_cons_self (fun _ _ hm => hm) (fun _ _ _ hm => hm) (fun _ _ _ hx => hx)
    (fun _ _ _ hx => hx) (fun _ hi => List.mem_cons_of_mem _ hi)

theorem boardOk_drain (h : BoardOk b) (late : Bool) (hord : InOrder b (.drain late)) :
    BoardOk (b.drainStep late) := by
  have hord := hord ⟨late, rfl⟩
  obtain ⟨sites, attached, p, d⟩ := b
  cases d with
  | idle => exact h.turn rfl rfl rfl nofun (fun _ _ hm => hm) (fun _ _ _ _ _ _ => trivial) nofun
  | snapshot | unsnapshot =>
      cases h.paused
      exact h.turn rfl rfl rfl (fun i s hi _ => hord rfl i s hi) (fun _ _ hm => hm)
        (fun _ _ _ hi _ _ => .inl hi) (fun _ hi => .inl hi)
  | pausing left => exact boardOk_pausing h late
  | closing j left => exact boardOk_closing h late
  | look =>
      exact h.turn rfl rfl h.paused (fun i s hi => (h.sites i s hi).admits) (fun _ _ hm => hm)
        (fun _ _ _ hi _ hx => ⟨hx, .inr (.inl hi)⟩) (fun _ hi => .inl hi)
  | busy left found => exact boardOk_busy h late
  | slots j agents left found => exact boardOk_slots h late
  | wait =>
      cases late with
      | true =>
          exact h.turn rfl rfl rfl nofun (fun _ _ hm => hm) (fun _ _ _ _ _ _ => trivial) nofun
      | false =>
          exact h.turn rfl rfl h.paused (fun i s hi => (h.sites i s hi).admits)
            (fun _ _ hm => hm) (fun _ _ _ _ _ hx => hx) nofun
  | resuming left => exact boardOk_resuming h late
  | opening j left => exact boardOk_opening h late
  | delivering j left => exact boardOk_delivering h late
  | ready => exact h

/-- Whoever is named by the walk of a drain is not attaching. -/
theorem BoardOk.not_mem_walk (h : BoardOk b) (hi : b.sites i = some s)
    (hj : s.join ≠ .serving ∧ s.join ≠ .gone) : i ∉ b.drain.walk := by
  intro hw
  obtain ⟨s', hs', hserve⟩ := h.walk i hw
  obtain rfl : s = s' := Option.some.inj (hi.symm.trans hs')
  exact hserve.elim hj.1 hj.2

/-- A step of one engine, its own or of its `attach`. -/
theorem BoardOk.modify (h : BoardOk b) {f : Site → Site} (hi : b.sites i = some s)
    (hsite : SiteOk b.drain i (f s))
    (hlive : i ∈ b.live → s.join = .serving → b.drain.Expects i s →
      (f s).join = .serving ∧ b.drain.Expects i (f s))
    (hwalk : s.join = .serving ∨ s.join = .gone → (f s).join = .serving ∨ (f s).join = .gone) :
    BoardOk (b.modify i f) where
  paused := h.paused
  sites k s' hk := by
    by_cases hki : k = i
    · subst hki
      rw [Board.sites_modify_self, hi] at hk
      cases hk
      exact hsite
    · rw [Board.sites_modify_of_ne hki] at hk
      exact h.sites k s' hk
  live k hk := by
    obtain ⟨s', hs', hj, hx⟩ := h.live k hk
    by_cases hki : k = i
    · subst hki
      obtain rfl : s = s' := Option.some.inj (hi.symm.trans hs')
      refine ⟨f s, ?_, hlive hk hj hx⟩
      rw [Board.sites_modify_self, hi]
      rfl
    · exact ⟨s', (Board.sites_modify_of_ne hki).trans hs', hj, hx⟩
  walk k hk := by
    obtain ⟨s', hs', hj⟩ := h.walk k hk
    by_cases hki : k = i
    · subst hki
      obtain rfl : s = s' := Option.some.inj (hi.symm.trans hs')
      refine ⟨f s, ?_, hwalk hj⟩
      rw [Board.sites_modify_self, hi]
      rfl
    · exact ⟨s', (Board.sites_modify_of_ne hki).trans hs', hj⟩

theorem BoardOk.detach (h : BoardOk b) (i : ℕ) :
    BoardOk { b with attached := b.attached.filter fun x => x.2 != i } where
  paused := h.paused
  sites := h.sites
  live k hk := by
    obtain ⟨x, hx, rfl⟩ := List.mem_map.mp hk
    exact h.live x.2 (List.mem_map.mpr ⟨x, (List.mem_filter.mp hx).1, rfl⟩)
  walk := h.walk

theorem BoardOk.insert (h : BoardOk b) {project : Uuid} (hi : b.sites i = some s)
    (hj : s.join = .serving) (hx : b.drain.Expects i s) : BoardOk (b.insert i project) where
  paused := h.paused
  sites := h.sites
  live k hk := by
    obtain ⟨x, hx', rfl⟩ := List.mem_map.mp hk
    rcases List.mem_append.mp hx' with hx' | hx'
    · exact h.live x.2 (List.mem_map.mpr ⟨x, (List.mem_filter.mp hx').1, rfl⟩)
    · cases List.mem_singleton.mp hx'
      exact ⟨s, hi, hj, hx⟩
  walk := h.walk

/-- A quiet engine is what a drain under way expects. -/
theorem Drain.expects_of_quiet (hq : Quiet s) (hf : d.flag = true) : d.Expects i s := by
  cases d with
  | idle | unsnapshot | resuming left | opening j left | delivering j left => cases hf
  | snapshot => trivial
  | pausing left => exact .inr hq.1
  | closing j left => exact .inr (.inr hq.1)
  | look | wait => exact hq.1
  | busy left found => exact ⟨hq.1, .inr (.inr hq.2)⟩
  | slots j agents left found => exact ⟨hq.1, .inr (.inr (.inr hq.2))⟩
  | ready => exact hq

/-- An engine that is not paused is what an ended drain expects. -/
theorem Drain.expects_of_unpaused (hu : Unpaused s) (hf : d.flag = false) :
    d.Expects i s := by
  cases d with
  | idle => exact hu
  | unsnapshot => trivial
  | resuming left | delivering j left => exact .inr hu
  | opening j left => exact .inr (.inr hu)
  | snapshot | pausing left | closing j left | look | wait | busy left found
  | slots j agents left found | ready => cases hf

theorem EngineOk.withJoin (h : EngineOk s) (x : Join) : EngineOk { s with join := x } :=
  ⟨h.gate, h.shut, h.made⟩

theorem SlotQuiet.setShared (h : SlotQuiet s.pool a) {f : Engine → Engine}
    (hf : (f s.pool.shared).slots = s.pool.shared.slots) :
    SlotQuiet (s.setShared f).pool a where
  inFlight := by
    show ((f s.pool.shared).slots a).bind (·.inFlight) = none
    rw [hf]
    exact h.inFlight
  holder := h.holder

/-- A step of an `attach` before the insertion. -/
theorem BoardOk.attaching (h : BoardOk b) {f : Site → Site} (hi : b.sites i = some s)
    (hj : s.join ≠ .serving ∧ s.join ≠ .gone) (heng : EngineOk (f s)) (hjoin : JoinOk (f s))
    (hacc : Accounted (f s))
    (hread : b.drain.isFresh = false → (f s).join.read ≠ some (!b.drain.flag)) :
    BoardOk (b.modify i f) :=
  h.modify hi
    ⟨heng, hjoin, (Drain.mid_of_not_mem (h.not_mem_walk hi hj)).mpr hacc, hread⟩
    (fun _ hs _ => absurd hs hj.1) fun hs => (hs.elim hj.1 hj.2).elim

/-- An engine that is inserted is what the drain expects. -/
theorem SiteOk.expects (h : SiteOk d i s) {paused : Bool} (hj : s.join = .insert paused) :
    d.Expects i s := by
  have hjoin := h.join
  have hread := h.admits
  rw [JoinOk, hj] at hjoin
  rw [hj] at hread
  cases hfresh : d.isFresh with
  | true => cases d <;> trivial
  | false =>
      have hread := hread hfresh
      cases paused with
      | true =>
          refine Drain.expects_of_quiet hjoin.1 ?_
          cases hf : d.flag with
          | true => rfl
          | false =>
              rw [hf] at hread
              exact absurd rfl hread
      | false =>
          refine Drain.expects_of_unpaused ⟨hjoin.2.1, fun hc => ?_⟩ ?_
          · rw [Closed, hjoin.2.2] at hc
            cases hc
          · cases hf : d.flag with
            | false => rfl
            | true =>
                rw [hf] at hread
                exact absurd rfl hread

theorem boardOk_attach (h : BoardOk b) (hi : b.sites i = some s) :
    BoardOk (b.attachStep i s) := by
  have hsite := h.sites i s hi
  have hjoin := hsite.join
  have hread := hsite.admits
  rw [JoinOk] at hjoin
  unfold Board.attachStep
  cases hj : s.join with
  | test =>
      rw [hj] at hjoin
      refine h.attaching hi (by rw [hj]; exact ⟨nofun, nofun⟩) (hsite.engine.withJoin _) ?_ ?_ ?_
      · rw [JoinOk]
        cases b.paused <;> exact hjoin
      · intro hc
        rw [Closed, hjoin.2.2] at hc
        cases hc
      · rw [← h.paused]
        cases b.paused <;> exact fun _ => nofun
  | mark =>
      rw [hj] at hjoin hread
      have hn : Noted s.pauseMark := .inl rfl
      have hq : ∀ a, SlotQuiet s.pauseMark.pool a := fun a => (hjoin.1 a).setShared rfl
      exact h.attaching hi (by rw [hj]; exact ⟨nofun, nofun⟩)
        ((hsite.engine.setShared rfl).withJoin _) ⟨hq, rfl⟩ hn.accounted hread
  | close =>
      rw [hj] at hjoin hread
      have hn : Noted s.pauseClose := .inl hjoin.2
      have hq : Quiet s.pauseClose := ⟨rfl, fun a => (hjoin.1 a).setShared rfl⟩
      exact h.attaching hi (by rw [hj]; exact ⟨nofun, nofun⟩)
        ((hsite.engine.setShared rfl).withJoin _) ⟨hq, hjoin.2⟩ hn.accounted hread
  | insert paused =>
      have hx := hsite.expects hj
      have hw := h.not_mem_walk hi (by rw [hj]; exact ⟨nofun, nofun⟩)
      have hmid := (Drain.mid_of_not_mem hw).mp hsite.mid
      have hb : BoardOk (b.modify i fun s => { s with join := .serving }) := by
        refine h.modify hi ⟨hsite.engine.withJoin _, trivial,
          (Drain.mid_of_not_mem hw).mpr hmid, fun _ => nofun⟩ ?_ ?_
        · rw [hj]
          exact fun _ => nofun
        · exact fun _ => .inl rfl
      refine hb.insert (s := { s with join := .serving }) ?_ rfl ?_
      · rw [Board.sites_modify_self, hi]
        rfl
      · cases b.drain <;> exact hx
  | serving | gone => exact h

theorem boardOk_engine (h : BoardOk b) {x : Act} (hi : b.sites i = some s)
    (hx : x.event = some e) (hj : s.join = .serving) :
    BoardOk (b.modify i fun s => s.step e x.stops) := by
  have hsite := h.sites i s hi
  refine h.modify hi ⟨hsite.engine.step (own_of_event hx), ?_, hsite.mid.step hsite.engine,
    hsite.admits⟩ ?_ ?_
  · have hjoin : (s.step e x.stops).join = .serving := hj
    rw [JoinOk, hjoin]
    trivial
  · exact fun _ _ he => ⟨hj, he.step hsite.engine⟩
  · exact fun _ => .inl hj

theorem boardOk_gone (h : BoardOk b) (i : ℕ) : BoardOk (b.step (.gone i)) := by
  have hd := h.detach i
  have hlive : i ∉ Board.live { b with attached := b.attached.filter fun x => x.2 != i } := by
    intro hl
    obtain ⟨x, hx, rfl⟩ := List.mem_map.mp hl
    have hne := (List.mem_filter.mp hx).2
    rw [bne_self_eq_false] at hne
    cases hne
  cases hi : b.sites i with
  | none =>
      have hsites : Function.update b.sites i none = b.sites := by
        rw [← hi, Function.update_eq_self]
      show BoardOk { b with
        sites := Function.update b.sites i ((b.sites i).map _), attached := _ }
      rw [hi, Option.map_none, hsites]
      exact hd
  | some s =>
      have hsite := h.sites i s hi
      refine hd.modify hi ⟨hsite.engine.withJoin _, trivial, ?_, fun _ => nofun⟩
        (fun hl => absurd hl hlive) fun _ => .inr rfl
      have hmid := hsite.mid
      cases hdr : b.drain <;> rw [hdr] at hmid <;> exact hmid

theorem engineOk_opened (project : Uuid) (messages : MessageTable) :
    EngineOk (Site.opened project messages) := by
  have hidle : ∀ x, ¬ (Site.opened project messages).pool.Has x := by
    rintro x (⟨t, ht, -⟩ | ⟨k, y, t, hk, -⟩)
    · cases ht
    · cases hk
  constructor
  · exact fun x _ => hidle x
  · exact fun hh => (hh.elim (hidle _) (hidle _)).elim
  · exact fun a _ => ⟨rfl, rfl⟩

theorem joinOk_opened (project : Uuid) (messages : MessageTable) :
    JoinOk (Site.opened project messages) := by
  refine ⟨fun a => ⟨rfl, fun h hh => ?_⟩, rfl, rfl⟩
  have hnone : (Site.opened project messages).pool.holder a = none := rfl
  rw [hnone] at hh
  cases hh

theorem boardOk_open (h : BoardOk b) {project : Uuid} {messages : MessageTable}
    (hi : b.sites i = none) :
    BoardOk { b with
      sites := Function.update b.sites i (some (Site.opened project messages)) } := by
  have hne : ∀ k s, b.sites k = some s → k ≠ i := by
    rintro k s hk rfl
    rw [hi] at hk
    cases hk
  have hw : i ∉ b.drain.walk := by
    intro hw
    obtain ⟨s, hs, -⟩ := h.walk i hw
    exact hne i s hs rfl
  have hacc : Accounted (Site.opened project messages) := fun hc => Bool.noConfusion hc
  constructor
  · exact h.paused
  · intro k s hk
    dsimp only at hk
    by_cases hki : k = i
    · rw [hki, Function.update_self] at hk
      cases hk
      rw [hki]
      exact ⟨engineOk_opened _ _, joinOk_opened _ _, (Drain.mid_of_not_mem hw).mpr hacc,
        fun _ => nofun⟩
    · rw [Function.update_of_ne hki] at hk
      exact h.sites k s hk
  · intro k hk
    obtain ⟨s, hs, hx⟩ := h.live k hk
    exact ⟨s, (Function.update_of_ne (hne k s hs) ..).trans hs, hx⟩
  · intro k hk
    obtain ⟨s, hs, hx⟩ := h.walk k hk
    exact ⟨s, (Function.update_of_ne (hne k s hs) ..).trans hs, hx⟩

theorem boardOk_step (h : BoardOk b) {e : BoardEvent} (hord : InOrder b e) :
    BoardOk (b.step e) := by
  cases e with
  | «open» i project messages =>
      simp only [Board.step]
      cases hi : b.sites i with
      | none => exact boardOk_open h hi
      | some s => exact h
  | attach i =>
      simp only [Board.step]
      cases hi : b.sites i with
      | none => exact h
      | some s => exact boardOk_attach h hi
  | engine i x =>
      simp only [Board.step]
      cases hi : b.sites i with
      | none => exact h
      | some s =>
          cases hx : x.event with
          | none => exact h
          | some e =>
              by_cases hj : s.join = .serving
              · simp only [hj, if_true]
                exact boardOk_engine h hi hx hj
              · simp only [hj, if_false]
                exact h
  | gone i => exact boardOk_gone h i
  | drain late => exact boardOk_drain h late hord

theorem boardOk_start : BoardOk Board.start where
  paused := rfl
  sites := nofun
  live := nofun
  walk := nofun

/-- In every run in which no `attach` is cut in two by the listing of a pause or
of a resume: once the attempt returned its build, no attached engine has a turn in
flight and none can start one; and when no drain is under way, no attached engine
is paused. -/
theorem drain_quiet {x : List BoardEvent} (hx : Run.Always Board.step InOrder Board.start x) :
    ((Run.run Board.step Board.start x).drain = .ready →
      ∀ i ∈ (Run.run Board.step Board.start x).live,
        ∃ s, (Run.run Board.step Board.start x).sites i = some s ∧ Quiet s) ∧
    ((Run.run Board.step Board.start x).drain = .idle →
      ∀ i ∈ (Run.run Board.step Board.start x).live,
        ∃ s, (Run.run Board.step Board.start x).sites i = some s ∧ Unpaused s) := by
  have h : BoardOk (Run.run Board.step Board.start x) :=
    Run.invariant (I := BoardOk) (fun _ _ hb ho => boardOk_step hb ho) boardOk_start hx
  constructor
  · intro hd i hi
    obtain ⟨s, hs, -, he⟩ := h.live i hi
    rw [hd] at he
    exact ⟨s, hs, he⟩
  · intro hd i hi
    obtain ⟨s, hs, -, he⟩ := h.live i hi
    rw [hd] at he
    exact ⟨s, hs, he⟩

theorem inOrder_of_isFresh {e : BoardEvent} (h : b.drain.isFresh = false) : InOrder b e := by
  intro _ hf
  rw [h] at hf
  cases hf

/-- An engine starts in the middle of a drain, and joins the pause. -/
def joinsPause : List BoardEvent :=
  [.drain false, .drain false, .open 0 5 Keyed.empty, .attach 0, .attach 0, .attach 0, .attach 0,
    .drain false, .drain false, .drain false, .drain false, .drain false]

theorem drain_quiet_joinsPause :
    (Run.run Board.step Board.start joinsPause).drain = .ready ∧
      (Run.run Board.step Board.start joinsPause).live = [0] ∧
      ∃ s, (Run.run Board.step Board.start joinsPause).sites 0 = some s ∧ Quiet s := by
  have hd : (Run.run Board.step Board.start joinsPause).drain = .ready := by decide +kernel
  have hl : (Run.run Board.step Board.start joinsPause).live = [0] := by decide +kernel
  refine ⟨hd, hl, (drain_quiet ?_).1 hd 0 (hl ▸ List.mem_cons_self)⟩
  refine ⟨inOrder_of_isFresh rfl, fun _ _ => nofun, ?_⟩
  repeat' constructor
  all_goals exact inOrder_of_isFresh rfl

/-- An engine reads the flag before a drain sets it, and is inserted after the
drain has looked at every engine. -/
def missedPause : List BoardEvent :=
  [.open 0 5 Keyed.empty, .attach 0, .drain false, .drain false, .drain false, .drain false,
    .drain false, .attach 0] ++
  ([.call (.enqueue work), .run 0 {}, .call (.start 1), .run 1 {}, .run 1 {}, .run 1 {},
    .run 1 {}, .resume 1 {}, .resume 1 {}, .resume 1 {}, .run 0 {}, .run 3 {}, .run 3 {},
    .resume 1 {}, .resume 1 {}, .resume 1 {}, .resume 1 {}, .resume 1 {}] : List Act).map
      (.engine 0)

/-- An engine reads the flag of a drain, and is paused and inserted after the
resume has listed the engines. -/
def missedResume : List BoardEvent :=
  [.open 0 5 Keyed.empty, .open 1 6 Keyed.empty, .attach 1, .attach 1,
    .engine 1 (.call (.enqueue work)), .engine 1 (.run 0 {}), .engine 1 (.call (.start 1)),
    .engine 1 (.run 1 {}), .engine 1 (.run 1 {}), .engine 1 (.run 1 {}), .engine 1 (.run 1 {}),
    .drain false, .attach 0, .drain false, .drain false, .drain false, .drain false, .drain false,
    .drain false, .drain false, .drain false, .drain false, .drain false, .drain true, .drain false,
    .attach 0, .attach 0, .attach 0, .drain false, .drain false, .drain false, .drain false]

/-- The build is handed over while an attached engine runs a turn, and an aborted
drain leaves an attached engine paused. -/
theorem attach_cut_by_drain :
    ((Run.run Board.step Board.start missedPause).drain = .ready ∧
      0 ∈ (Run.run Board.step Board.start missedPause).live ∧
      ((Run.run Board.step Board.start missedPause).sites 0).bind
        (fun s => s.pool.shared.inFlight 1) = some 2) ∧
    (Run.run Board.step Board.start missedResume).drain = .idle ∧
      0 ∈ (Run.run Board.step Board.start missedResume).live ∧
      ((Run.run Board.step Board.start missedResume).sites 0).map
        (fun s => (s.pool.shared.pausedForUpdate, s.pool.shared.closing, s.stopping)) =
          some (true, true, false) := by
  refine ⟨⟨?_, ?_, ?_⟩, ?_, ?_, ?_⟩ <;> decide +kernel

end Update

end Wheel
