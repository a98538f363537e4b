import Wheel.Supervisor.Parking

/-!
# No idle agent with work

A message for an agent whose child runs nothing is owed a delivery: some section
that waits to run, or the holder of the agent's slot lock, will write it to the
child or find that nothing waits. `idle_queue_empty` follows once every call has
returned. The queue is pushed and never polled, so what breaks it is a section
that ends a delivery early: the quarantine of a message while another one waits,
of which `quarantine_leaves_work` is a run, or a write to a child that fails.
`WorkKept` lists the sections of the kind.
-/

namespace Wheel

open Concurrency Messages

/-- The statuses in which an agent waits for somebody else than a message. -/
def AgentStatus.blocks : AgentStatus → Bool
  | .needsAuth | .rateLimited | .budgetExhausted | .stopped => true
  | _ => false

namespace Supervisor

/-- The agent has a live child, and it runs no message. -/
def Idle (s : Engine) (a : Uuid) : Prop := (s.slots a).any (fun r => r.inFlight.isNone) = true

instance (s : Engine) (a : Uuid) : Decidable (Idle s a) := by
  unfold Idle
  infer_instance

/-- Turns may start. -/
def IsOpen (s : Engine) : Prop := s.closing = false ∧ s.pausedForUpdate = false

instance (s : Engine) : Decidable (IsOpen s) := by
  unfold IsOpen
  infer_instance

/-- An idle agent has a message to run. -/
structure WorkOwed (s : Engine) (a : Uuid) : Prop where
  isOpen : IsOpen s
  idle : Idle s a
  waiting : s.waiting a = true
  status : (s.status a).blocks = false

/-- The takings that take whichever child there is. -/
def Taking.takesAll : Taking → Bool
  | .park | .interrupt | .exit _ _ => false
  | _ => true

/-- The agent whose queue a waiting section sees to. -/
def Instr.seesTo : Instr → Option Uuid
  | .deliver a | .deliverRead a | .parkThenDeliver a | .start a _ | .startCheck a _ _
  | .pump a | .recycle a | .afterAuthFailure a _ | .afterTurn a _ _
  | .limitPlan a _ _ _ _ _ | .limitFallback a _ | .limitPark a _ _ => some a
  | .recordSpend t | .settleTurn t _ _ | .requeueLimited t _ _ => some t.agent
  | .take a why => if why.takesAll then some a else none
  | _ => none

/-- The sections that see to every agent's queue. -/
def Instr.seesToAll : Instr → Bool
  | .resumeDeliver | .shutdownClose => true
  | _ => false

/-- Does the section see to the agent's queue? -/
def Instr.pumps (i : Instr) (a : Uuid) : Bool := i.seesTo = some a ∨ i.seesToAll = true

/-- The phases of a delivery up to the write. -/
def Phase.pumps : Phase → Bool
  | .pumpStatus | .pumpPick | .pumpQuarantine _ | .pumpWrite _ => true
  | _ => false

/-- Somebody waits who will see to the agent's queue. -/
def Bound (p : State) (a : Uuid) : Prop :=
  (p.tasks ++ ((p.held a).map Prod.snd).toList).any (·.any (·.pumps a)) = true

instance (p : State) (a : Uuid) : Decidable (Bound p a) := by
  unfold Bound
  infer_instance

/-- Nothing but the message is queued for the agent. -/
def OnlyQueued (s : Engine) (a mid : Uuid) : Prop :=
  ∀ r ∈ s.messages.rows, r.toId = a → r.state = .queued → r.id = mid

instance (s : Engine) (a mid : Uuid) : Decidable (OnlyQueued s a mid) := by
  unfold OnlyQueued
  infer_instance

/-- The status a reaper leaves. -/
def reapedStatus (s : Engine) (a : Uuid) (initialised diagnosed : Bool) (o : Oracle) :
    AgentStatus :=
  if diagnosed then s.status a else exitStatus initialised o.output

/-- Unless somebody else is bound to see to the agent's queue: a quarantined
message was the last one queued, no write to a child fails, and while a child is
idle, no status that blocks the agent is lifted and no reaper queues a message
again. -/
def WorkKept (p : State) (c : Section Instr Phase Uuid) (o : Oracle) : Prop :=
  match c with
  | .later a (.pumpQuarantine mid) =>
      IsOpen p.shared → OnlyQueued p.shared a mid ∨ Bound p a
  | .later a (.pumpWrite _) => IsOpen p.shared → o.writeError = none ∨ Bound p a
  | .first (.setStatus a st) =>
      IsOpen p.shared → Idle p.shared a → p.shared.waiting a = true →
        (p.shared.status a).blocks = true → st.blocks = true ∨ Bound p a
  | .first (.reapSettle a initialised diagnosed) =>
      IsOpen p.shared → Idle p.shared a →
        (reapedStatus p.shared a initialised diagnosed o).blocks = false →
          (p.shared.waiting a = true ∧ (p.shared.status a).blocks = false) ∨
            (p.shared.waiting a = false ∧ ¬ HasDelivered p.shared a) ∨ Bound p a
  | _ => True

instance (p : State) (c : Section Instr Phase Uuid) (o : Oracle) :
    Decidable (WorkKept p c o) := by
  apply Section.casesOn (motive := fun c => Decidable (WorkKept p c o)) c
  · intro i
    apply Instr.casesOn (motive := fun i => Decidable (WorkKept p (.first i) o)) i <;>
      intros <;> dsimp only [WorkKept] <;> infer_instance
  · intro a h
    apply Phase.casesOn (motive := fun h => Decidable (WorkKept p (.later a h) o)) h <;>
      intros <;> dsimp only [WorkKept] <;> infer_instance

/-- What the holder of a slot lock relies on. -/
def IdleFacts (a : Uuid) (h : Phase) (s : Engine) : Prop :=
  match h with
  | .killing _ _ | .startPrepare _ _ | .startStarting _ | .pumpAdvance _ | .pumpRunning =>
      ¬ Idle s a
  | _ => True

def workOutline : Outline Engine Instr Phase Uuid Uuid where
  inv := FlightSound
  needs := FlightNeeds
  holds a h s := FlightHolds a h s ∧ IdleFacts a h s
  owes s _ a := WorkOwed s a
  pays i a := i.pumps a = true
  paysHeld k h a := k = a ∧ h.pumps = true

variable {s : Engine} {o : Oracle} {c : Section Instr Phase Uuid} {p : State} {a : Uuid}

/-! ## Who sees to a queue -/

theorem pumps_of_seesTo {i : Instr} (h : i.seesTo = some a) : i.pumps a = true := by
  simp [Instr.pumps, h]

theorem pumps_of_seesToAll {i : Instr} (h : i.seesToAll = true) : i.pumps a = true := by
  simp [Instr.pumps, h]

theorem seesTo_of_tends {i : Instr} (h : Tends i a) : i.seesTo = some a := by
  cases h <;> rfl

theorem seesTo_settlement (t : Turn) (overBudget : Bool) :
    (settlement t overBudget).seesTo = some t.agent := by
  unfold settlement
  split <;> rfl

theorem has_of_bound (h : Bound p a) : ∃ i, p.Has i ∧ i.pumps a = true := by
  unfold Bound at h
  simp only [List.any_eq_true] at h
  obtain ⟨t, ht, i, hi, hp⟩ := h
  refine ⟨i, ?_, hp⟩
  rcases List.mem_append.mp ht with ht | ht
  · exact .inl ⟨t, ht, hi⟩
  · cases hheld : p.held a with
    | none =>
        rw [hheld] at ht
        cases ht
    | some x =>
        rw [hheld] at ht
        obtain rfl : t = x.2 := by simpa using ht
        exact .inr ⟨a, x.1, x.2, hheld, hi⟩

/-- Somebody is left to see to the agent's queue after the section: a section it
leaves, the holder of its lock, or a section that waited before. -/
def SeenTo (p : State) (c : Section Instr Phase Uuid) (o : Oracle) (a : Uuid) : Prop :=
  (∃ i, (machine.act c p.shared o).2.Adds i ∧ i.pumps a = true) ∨
    (∃ k h, machine.lockOf c = some k ∧ (machine.act c p.shared o).2.hold = some h ∧
      k = a ∧ h.pumps = true) ∨
      ∃ i, p.Has i ∧ c ≠ .first i ∧ i.pumps a = true

theorem seenTo_of_mem {i : Instr} (hi : i ∈ (machine.act c p.shared o).2.follow)
    (hs : i.seesTo = some a) : SeenTo p c o a := .inl ⟨i, .inl hi, pumps_of_seesTo hs⟩

theorem seenTo_of_hold {h : Phase} (hl : machine.lockOf c = some a)
    (hh : (machine.act c p.shared o).2.hold = some h) (hp : h.pumps = true) :
    SeenTo p c o a := .inr (.inl ⟨a, h, hl, hh, rfl, hp⟩)

/-- Who was bound before a section that sees to no queue is bound after it. -/
theorem seenTo_of_bound (hc : ∀ i, c = .first i → i.pumps a = false) (h : Bound p a) :
    SeenTo p c o a := by
  obtain ⟨i, hi, hp⟩ := has_of_bound h
  refine .inr (.inr ⟨i, hi, ?_, hp⟩)
  intro hci
  rw [hc i hci] at hp
  cases hp

/-- What a start leaves once a child is there. -/
theorem seenTo_instrs (next : AfterStart)
    (h : (machine.act c p.shared o).2.follow = next.instrs a) : SeenTo p c o a := by
  cases next with
  | pump => exact seenTo_of_mem (i := .pump a) (h ▸ List.mem_cons_self) rfl
  | deliver => exact seenTo_of_mem (i := .deliver a) (h ▸ List.mem_cons_self) rfl

/-- What a settled turn leaves. -/
theorem exists_seesTo_afterSettle (t : Turn) (ended : TurnEnd) (overBudget : Bool) :
    ∃ i ∈ afterSettle t ended overBudget, i.seesTo = some t.agent := by
  unfold afterSettle
  split
  · exact ⟨.take t.agent .stop, by simp [stop], rfl⟩
  · split
    · exact ⟨_, List.mem_cons_self, rfl⟩
    · split
      · exact ⟨.take t.agent .clear, by simp [clearContext], rfl⟩
      · exact ⟨_, List.mem_cons_self, rfl⟩

/-! ## What a section changes -/

theorem idle_of_slots {s' : Engine} (h : s'.slots a = s.slots a) (hi : Idle s' a) : Idle s a := by
  rw [Idle, ← h]
  exact hi

theorem not_idle_of_none (h : s.slots a = none) : ¬ Idle s a := by
  rw [Idle, h]
  exact nofun

theorem idle_iff : Idle s a ↔ ∃ r, s.slots a = some r ∧ r.inFlight = none := by
  simp [Idle, Option.any_eq_true]

/-- Turns are free to start after a section if they were, unless it says so. -/
theorem isOpen_before (h : IsOpen (machine.act c s o).1) :
    IsOpen s ∨ c = .first .resumeSwap ∧ s.pausedForUpdate = true ∨
      c = .first .resumeOpen ∨ c = .first .shutdownUnpause := by
  by_cases hr : keepsRecord c = false
  · have hsame := sameRecords_act s o hr
    exact .inl ⟨hsame.closing ▸ h.1, hsame.pausedForUpdate ▸ h.2⟩
  cases c with
  | first i =>
      cases i with
      | event rd ev =>
          have hsame := sameRecords_onEvent s o rd ev
          exact .inl ⟨hsame.closing ▸ h.1, hsame.pausedForUpdate ▸ h.2⟩
      | noteStop b => exact .inl h
      | shutdownUnpause => exact .inr (.inr (.inr rfl))
      | resumeOpen => exact .inr (.inr (.inl rfl))
      | resumeSwap =>
          cases hp : s.pausedForUpdate with
          | false => exact .inl ⟨h.1, hp⟩
          | true => exact .inr (.inl ⟨rfl, rfl⟩)
      | shutdownClose => cases h.1
      | pauseClose => cases h.1
      | pauseMark => cases h.2
      | _ => exact absurd rfl hr
  | later k ph =>
      cases ph with
      | startSpawn next =>
          have hsame := sameRecords_startSpawn s k o next
          exact .inl ⟨hsame.closing ▸ h.1, hsame.pausedForUpdate ▸ h.2⟩
      | pumpWrite row =>
          have hsame := sameRecords_pumpWrite s k o row
          exact .inl ⟨hsame.closing ▸ h.1, hsame.pausedForUpdate ▸ h.2⟩
      | _ => exact absurd rfl hr

/-- The section that takes a `result` leaves the turn to be settled. -/
theorem idle_before_result {rd : Reader} {sessionId : Option String} {isError : Bool}
    {text : Option String} {turns : Option ℕ} {costUsd : Option ℚ}
    (h : Idle (machine.act (.first (.event rd (.result sessionId isError text turns costUsd)))
      p.shared o).1 a) :
    Idle p.shared a ∨
      SeenTo p (.first (.event rd (.result sessionId isError text turns costUsd))) o rd.agent := by
  by_cases hs : sessionMatches ((p.shared.slots rd.agent).bind (·.sessionId)) sessionId = true
  · right
    refine seenTo_of_mem (i := .recordSpend
      (turnOf rd (p.shared.slots rd.agent) isError text turns costUsd)) ?_ rfl
    show _ ∈ (onEvent p.shared rd (.result sessionId isError text turns costUsd) o).2.follow
    simp [onEvent, hs]
  · left
    refine idle_of_slots ?_ h
    show (onEvent p.shared rd (.result sessionId isError text turns costUsd) o).1.slots a = _
    simp [onEvent, hs]

/-- A child runs nothing after a section if it ran nothing before, unless it was
spawned or its turn ended, and then somebody sees to the queue. -/
theorem idle_before (h : Idle (machine.act c p.shared o).1 a) :
    Idle p.shared a ∨ SeenTo p c o a := by
  have hslot := slotAfter_act p.shared o c a
  have hidle := idle_iff.mp h
  generalize (machine.act c p.shared o).1.slots a = x at hslot hidle
  obtain ⟨r', hr', hfree⟩ := hidle
  cases hslot with
  | same => exact .inl (idle_iff.mpr ⟨r', hr', hfree⟩)
  | taken => cases hr'
  | shut => cases hr'
  | named =>
      obtain ⟨r, hr, rfl⟩ := Option.map_eq_some_iff.mp hr'
      exact .inl (idle_iff.mpr ⟨r, hr, hfree⟩)
  | limited =>
      obtain ⟨r, hr, rfl⟩ := Option.map_eq_some_iff.mp hr'
      exact .inl (idle_iff.mpr ⟨r, hr, hfree⟩)
  | written hw =>
      obtain ⟨r, hr, rfl⟩ := Option.map_eq_some_iff.mp hr'
      cases hfree
  | ended => exact idle_before_result h
  | @spawned _ next ho =>
      refine .inr (seenTo_instrs next ?_)
      show (startSpawn p.shared a next o).2.follow = _
      simp [startSpawn, ho]

/-- A message waits after a section if one waited before, unless somebody sees to
the queue or a reaper queued it again. -/
theorem waiting_before (hn : ∀ i, c = .first i → FlightNeeds i p.shared)
    (h : (machine.act c p.shared o).1.waiting a = true) :
    p.shared.waiting a = true ∨ SeenTo p c o a ∨
      (∃ initialised diagnosed, c = .first (.reapSettle a initialised diagnosed)) ∧
        HasDelivered p.shared a := by
  rcases queues_act hn a h with hw | ⟨i, hi, ht⟩ | hreap
  · exact .inl hw
  · exact .inr (.inl (.inl ⟨i, hi, pumps_of_seesTo (seesTo_of_tends ht)⟩))
  · exact .inr (.inr hreap)

/-- An idle agent is not blocked after a section if it was not before, unless
somebody sees to its queue or a status was written late. -/
theorem status_before (hfacts : ∀ k h, c = .later k h → IdleFacts k h p.shared)
    (hidle : Idle p.shared a) (h : ((machine.act c p.shared o).1.status a).blocks = false) :
    (p.shared.status a).blocks = false ∨ SeenTo p c o a ∨
      (∃ st, c = .first (.setStatus a st) ∧ st.blocks = false) ∨
        ∃ initialised, c = .first (.reapSettle a initialised false) := by
  rcases writes_act p.shared o c a with hst | hw
  · exact .inl (hst ▸ h)
  generalize (machine.act c p.shared o).1.status a = st at hw h
  cases hw with
  | parkThenDeliver => exact .inr (.inl (seenTo_of_mem (i := .deliver a) List.mem_cons_self rfl))
  | @startGate _ next n st hl hr =>
      refine .inr (.inl (seenTo_instrs next ?_))
      show (startGate p.shared a next n o).2.follow = _
      simp [startGate, hl, hr]
  | wedgeSettle hs =>
      left
      rw [hs]
      rfl
  | setStatus => exact .inr (.inr (.inl ⟨_, rfl, h⟩))
  | resumeIfBlocked hs =>
      refine .inr (.inl (seenTo_of_mem (i := .deliver a) ?_ rfl))
      show _ ∈ (Prod.snd (if p.shared.status a = .needsAuth then
        (p.shared.setStatus a .parked, { follow := [.deliver a] }) else
        (p.shared, {}) : Engine × Leaves)).follow
      rw [if_pos hs]
      exact List.mem_cons_self
  | @init rd sessionId =>
      exact .inr (.inl (seenTo_of_mem (i := .pump rd.agent) List.mem_cons_self rfl))
  | @settleTurn t ended =>
      obtain ⟨i, hi, hs⟩ := exists_seesTo_afterSettle t ended false
      exact .inr (.inl (seenTo_of_mem (List.mem_append_right _ hi) hs))
  | limitPlan => cases h
  | limitPark => cases h
  | reapSettle => exact .inr (.inr (.inr ⟨_, rfl⟩))
  | startStarting => exact absurd hidle (hfacts _ _ rfl)
  | pumpRunning => exact absurd hidle (hfacts _ _ rfl)
  | park => exact absurd hidle (hfacts _ _ rfl)
  | stop => cases h

/-! ## What is owed is paid -/

/-- A resume delivers after it opened, and a shutdown closes after it unpaused. -/
structure Ordered (p : State) : Prop where
  resume : p.Each (Followed .resumeOpen .resumeDeliver)
  shutdown : p.Each (Followed .shutdownUnpause .shutdownClose)

theorem reapSettle_slots_act (initialised diagnosed : Bool) :
    (machine.act (.first (.reapSettle a initialised diagnosed)) s o).1.slots = s.slots :=
  reapSettle_slots s a o initialised diagnosed

/-- The status after a reaper settled. -/
theorem status_reapSettle (initialised diagnosed : Bool) :
    (machine.act (.first (.reapSettle a initialised diagnosed)) s o).1.status a =
      reapedStatus s a initialised diagnosed o := by
  cases diagnosed with
  | true =>
      rcases writes_act s o (.first (.reapSettle a initialised true)) a with h | h
      · exact h
      · generalize (machine.act _ s o).1.status a = st at h
        cases h
  | false =>
      show (Engine.setStatus _ a (exitStatus initialised o.output)).status a = _
      rw [Engine.status_setStatus, if_pos rfl]
      rfl

section Step

variable {e : Event} {tasks : List (List Instr)} {rest : List Instr}
  (hv : workOutline.Valid p) (hj : Ordered p) (hd : p.due machine e = some (c, tasks, rest, o))
include hv hj hd

omit hj in
theorem flightNeeds_of_due {i : Instr} (hi : c = .first i) : FlightNeeds i p.shared := by
  subst hi
  exact hv.needs i (Pool.has_of_due_first hd)

omit hj in
theorem idleFacts_of_due {k : Uuid} {h : Phase} (hh : c = .later k h) :
    FlightHolds k h p.shared ∧ IdleFacts k h p.shared := by
  subst hh
  exact hv.holds k h (Pool.holder_of_due_later hd)

omit hv in
/-- Turns were free to start, or whoever frees them sees to every queue. -/
theorem isOpen_before_due (h : IsOpen (machine.act c p.shared o).1) :
    IsOpen p.shared ∨ SeenTo p c o a := by
  rcases isOpen_before h with ho | ⟨rfl, hp⟩ | rfl | rfl
  · exact .inl ho
  · refine .inr (.inl ⟨.resumeDeliver, .inl ?_, pumps_of_seesToAll rfl⟩)
    show _ ∈ (if p.shared.pausedForUpdate then [Instr.resumeOpen, .resumeDeliver] else [])
    rw [hp]
    exact List.mem_cons_of_mem _ List.mem_cons_self
  · exact .inr (.inr (.inr ⟨_, hj.resume.has_of_due hd, nofun, pumps_of_seesToAll rfl⟩))
  · exact .inr (.inr (.inr ⟨_, hj.shutdown.has_of_due hd, nofun, pumps_of_seesToAll rfl⟩))

/-- Work that is owed after a section was owed before, or somebody sees to it. -/
theorem workOwed_before (hk : WorkKept p c o) (h : WorkOwed (machine.act c p.shared o).1 a) :
    WorkOwed p.shared a ∨ SeenTo p c o a := by
  rcases isOpen_before_due (a := a) hj hd h.isOpen with hopen | hseen
  swap
  · exact .inr hseen
  rcases idle_before h.idle with hidle | hseen
  swap
  · exact .inr hseen
  have hwaiting := waiting_before (fun _ hi => flightNeeds_of_due hv hd hi) h.waiting
  have hstatus := status_before (fun _ _ hh => (idleFacts_of_due hv hd hh).2) hidle h.status
  by_cases hreap : ∃ initialised diagnosed, c = .first (.reapSettle a initialised diagnosed)
  · obtain ⟨initialised, diagnosed, rfl⟩ := hreap
    have hunblocked := h.status
    rw [status_reapSettle] at hunblocked
    rcases hk hopen hidle hunblocked with ⟨hw, hs⟩ | ⟨hw, hno⟩ | hbound
    · exact .inl ⟨hopen, hidle, hw, hs⟩
    · rcases hwaiting with hwait | hseen | ⟨-, hdelivered⟩
      · rw [hw] at hwait
        cases hwait
      · exact .inr hseen
      · exact absurd hdelivered hno
    · refine .inr (seenTo_of_bound ?_ hbound)
      rintro i ⟨⟩
      rfl
  have hwait : p.shared.waiting a = true ∨ SeenTo p c o a := by
    rcases hwaiting with hw | hseen | ⟨hr, -⟩
    · exact .inl hw
    · exact .inr hseen
    · exact absurd hr hreap
  rcases hwait with hw | hseen
  swap
  · exact .inr hseen
  rcases hstatus with hs | hseen | ⟨st, rfl, hst⟩ | ⟨initialised, rfl⟩
  · exact .inl ⟨hopen, hidle, hw, hs⟩
  · exact .inr hseen
  · by_cases hb : (p.shared.status a).blocks = true
    · rcases hk hopen hidle hw hb with hblocks | hbound
      · rw [hst] at hblocks
        cases hblocks
      · refine .inr (seenTo_of_bound ?_ hbound)
        rintro i ⟨⟩
        rfl
    · exact .inl ⟨hopen, hidle, hw, by simpa using hb⟩
  · exact absurd ⟨initialised, false, rfl⟩ hreap

end Step

/-! ## Who sees to a queue leaves somebody to -/

/-- The agent is owed a delivery after the section. -/
def WorkOwedAfter (p : State) (c : Section Instr Phase Uuid) (o : Oracle) (a : Uuid) : Prop :=
  WorkOwed (machine.act c p.shared o).1 a

theorem seenTo_take {why : Taking} (hw : why.takesAll = true)
    (h : WorkOwedAfter p (.first (.take a why)) o a) : False := by
  refine not_idle_of_none ?_ h.idle
  show (takeSlot p.shared a why o).1.slots a = none
  unfold takeSlot
  cases hs : p.shared.slots a with
  | none => exact hs
  | some r =>
      have hadmits : why.admits p.shared a r o = true := by
        cases why <;> first | rfl | cases hw
      dsimp only
      rw [if_pos hadmits]
      exact setSlot_slots_self p.shared a none

theorem seenTo_deliver (h : WorkOwedAfter p (.first (.deliver a)) o a) :
    SeenTo p (.first (.deliver a)) o a := by
  have hpaused : p.shared.pausedForUpdate = false := h.isOpen.2
  refine seenTo_of_mem (i := .deliverRead a) ?_ rfl
  show _ ∈ (if p.shared.pausedForUpdate then [] else [Instr.deliverRead a])
  rw [hpaused]
  exact List.mem_cons_self

theorem seenTo_deliverRead : SeenTo p (.first (.deliverRead a)) o a := by
  by_cases hparked : p.shared.waiting a ∧ p.shared.status a = .parked
  · refine seenTo_of_mem (i := .start a .pump) ?_ rfl
    show _ ∈ (deliverRead p.shared a).2.follow
    rw [deliverRead, if_pos hparked]
    exact List.mem_cons_self
  · refine seenTo_of_mem (i := .pump a) ?_ rfl
    show _ ∈ (deliverRead p.shared a).2.follow
    rw [deliverRead, if_neg hparked]
    exact List.mem_cons_self

theorem seenTo_startCheck {next : AfterStart} {n : ℕ}
    (h : WorkOwedAfter p (.first (.startCheck a next n)) o a) :
    SeenTo p (.first (.startCheck a next n)) o a := by
  have hs : (machine.act (.first (.startCheck a next n)) p.shared o).1 = p.shared :=
    startCheck_fst p.shared a next n
  have hclosing : p.shared.closing = false := hs ▸ h.isOpen.1
  obtain ⟨r, hr, -⟩ := idle_iff.mp (idle_of_slots (congrFun (congrArg Engine.slots hs) a) h.idle)
  refine seenTo_instrs next ?_
  show (startCheck p.shared a next n).2.follow = _
  simp [startCheck, hclosing, hr]

theorem seenTo_pump (h : WorkOwedAfter p (.first (.pump a)) o a) :
    SeenTo p (.first (.pump a)) o a := by
  have hs : (machine.act (.first (.pump a)) p.shared o).1 = p.shared := pumpGate_fst p.shared a
  have hclosing : p.shared.closing = false := hs ▸ h.isOpen.1
  obtain ⟨r, hr, hfree⟩ :=
    idle_iff.mp (idle_of_slots (congrFun (congrArg Engine.slots hs) a) h.idle)
  refine seenTo_of_hold (h := .pumpStatus) rfl ?_ rfl
  show (pumpGate p.shared a).2.hold = _
  simp [pumpGate, hclosing, hr, hfree]

theorem seenTo_limitPlan {signal : LimitSignal} {onFallback overBudget : Bool} {strikes : ℕ}
    {now : Timestamp}
    (h : WorkOwedAfter p (.first (.limitPlan a signal onFallback strikes overBudget now)) o a) :
    SeenTo p (.first (.limitPlan a signal onFallback strikes overBudget now)) o a := by
  cases overBudget with
  | true =>
      have hst : ((p.shared.setStatus a .budgetExhausted).status a).blocks = false := by
        simpa [machine, exec, limitPlan] using h.status
      rw [Engine.status_setStatus, if_pos rfl] at hst
      cases hst
  | false =>
      have hfollow : ∃ i ∈ (limitPlan p.shared a signal onFallback strikes false now o).2.follow,
          i.seesTo = some a := by
        unfold limitPlan
        simp only [Bool.false_eq_true, if_false]
        split
        · exact ⟨_, List.mem_cons_self, rfl⟩
        · exact ⟨_, List.mem_cons_self, rfl⟩
      obtain ⟨i, hi, hs⟩ := hfollow
      exact seenTo_of_mem hi hs

theorem seenTo_limitPark {resetsAt : Option Timestamp} {resume : Timestamp}
    (h : WorkOwedAfter p (.first (.limitPark a resetsAt resume)) o a) : False := by
  have hst : (machine.act (.first (.limitPark a resetsAt resume)) p.shared o).1.status a =
      (p.shared.setStatus a .rateLimited).status a :=
    Engine.status_setState (p.shared.setStatus a .rateLimited) a a
      (f := fun x => { x with resetsAt := resetsAt, resumeAt := some resume }) fun _ => rfl
  have hs := h.status
  rw [hst, Engine.status_setStatus, if_pos rfl] at hs
  cases hs

theorem seenTo_resumeDeliver (h : WorkOwedAfter p (.first .resumeDeliver) o a) :
    SeenTo p (.first .resumeDeliver) o a := by
  refine seenTo_of_mem (i := .deliver a) ?_ rfl
  obtain ⟨r, hr, hto, hq⟩ := hasQueued_iff.mp h.waiting
  apply List.mem_map_of_mem
  rw [recipientsWithQueued, List.mem_dedup, List.mem_map]
  exact ⟨r, List.mem_filter.mpr ⟨hr, by simp [hq]⟩, hto⟩

/-- A section that sees to the queue leaves somebody to, as long as work is owed. -/
theorem seenTo_first {i : Instr} (hi : i.pumps a = true)
    (h : WorkOwedAfter p (.first i) o a) : SeenTo p (.first i) o a := by
  simp only [Instr.pumps, decide_eq_true_eq] at hi
  rcases hi with hi | hi
  · cases i with
    | deliver b =>
        cases hi
        exact seenTo_deliver h
    | deliverRead b =>
        cases hi
        exact seenTo_deliverRead
    | startCheck b next n =>
        cases hi
        exact seenTo_startCheck h
    | pump b =>
        cases hi
        exact seenTo_pump h
    | take b why =>
        unfold Instr.seesTo at hi
        dsimp only at hi
        split at hi
        · rename_i hw
          cases hi
          exact (seenTo_take hw h).elim
        · cases hi
    | recycle b =>
        cases hi
        have hclosing : p.shared.closing = false := h.isOpen.1
        refine seenTo_of_mem (i := .take a .recycle) ?_ rfl
        show _ ∈ (if p.shared.closing then [] else [Instr.take a .recycle])
        rw [hclosing]
        exact List.mem_cons_self
    | afterAuthFailure b gen =>
        cases hi
        by_cases hr : (gen.isSome && o.recovers) = true
        · refine seenTo_of_mem (i := .recycle a) ?_ rfl
          show _ ∈ (if gen.isSome && o.recovers then [Instr.recycle a] else parkNeedsAuth a)
          rw [if_pos hr]
          exact List.mem_cons_self
        · refine seenTo_of_mem (i := .take a .needsAuth) ?_ rfl
          show _ ∈ (if gen.isSome && o.recovers then [Instr.recycle a] else parkNeedsAuth a)
          rw [if_neg hr]
          exact List.mem_cons_self
    | afterTurn b isError gen =>
        cases hi
        by_cases hr : (!isError && gen.isSome && o.stale) = true
        · refine seenTo_of_mem (i := .recycle a) ?_ rfl
          show _ ∈ (if !isError && gen.isSome && o.stale then [Instr.recycle a] else [.pump a])
          rw [if_pos hr]
          exact List.mem_cons_self
        · refine seenTo_of_mem (i := .pump a) ?_ rfl
          show _ ∈ (if !isError && gen.isSome && o.stale then [Instr.recycle a] else [.pump a])
          rw [if_neg hr]
          exact List.mem_cons_self
    | recordSpend t =>
        cases hi
        exact seenTo_of_mem List.mem_cons_self (seesTo_settlement t _)
    | settleTurn t ended overBudget =>
        cases hi
        obtain ⟨i, hi, hs⟩ := exists_seesTo_afterSettle t ended overBudget
        exact seenTo_of_mem (List.mem_append_right _ hi) hs
    | requeueLimited t signal overBudget =>
        cases hi
        refine seenTo_of_mem (i := .take t.agent .halt) ?_ rfl
        exact List.mem_append_right _ List.mem_cons_self
    | limitPlan b signal onFallback strikes overBudget now =>
        cases hi
        exact seenTo_limitPlan h
    | limitPark b resetsAt resume =>
        cases hi
        exact (seenTo_limitPark h).elim
    | _ =>
        first
          | cases hi; exact seenTo_of_mem List.mem_cons_self rfl
          | cases hi
  · cases i with
    | resumeDeliver => exact seenTo_resumeDeliver h
    | shutdownClose => cases h.isOpen.1
    | _ => cases hi

/-- A child that was written to runs a message. -/
theorem not_idle_pumpWrite {row : MessageRow} (hw : o.writeError = none) :
    ¬ Idle (pumpWrite s a row o).1 a := by
  intro hi
  obtain ⟨r', hr', hfree⟩ := idle_iff.mp hi
  have hslots : (pumpWrite s a row o).1.slots a = (s.slots a).map (afterWrite row) := by
    rw [pumpWrite, hw]
    exact setSlot_slots_self s a _
  obtain ⟨r, -, rfl⟩ := Option.map_eq_some_iff.mp (hslots.symm.trans hr')
  cases hfree

/-- Once the only queued message is set aside, only a notification waits. -/
theorem waiting_pumpQuarantine {mid : Uuid} (h : OnlyQueued s a mid)
    (hw : (proceed a (.pumpQuarantine mid) s o).1.waiting a = true) :
    (notifySender (quarantine s.messages mid setAside) mid o).2 = some a := by
  rcases waits_notifySender (quarantine s.messages mid setAside) mid a hw with hq | hsender
  · exfalso
    obtain ⟨r, hr, hto, hs⟩ := hasQueued_iff.mp hq
    obtain ⟨r', hr', rfl⟩ := List.mem_map.mp hr
    by_cases hid : r'.id = mid
    · simp [hid] at hs
    · simp only [hid, decide_false, Bool.false_eq_true, if_false] at hto hs
      exact hid (h r' hr' hto hs)
  · exact hsender

/-- A delivery that has not written yet leaves somebody to see to the queue, as
long as work is owed. -/
theorem seenTo_later {ph : Phase} (hp : ph.pumps = true) (hk : WorkKept p (.later a ph) o)
    (h : WorkOwedAfter p (.later a ph) o a) : SeenTo p (.later a ph) o a := by
  have hnever : ∀ i : Instr, Section.later a ph = .first i → i.pumps a = false := by
    intro i hi
    cases hi
  cases ph with
  | pumpStatus =>
      have hs : (proceed a .pumpStatus p.shared o).1 = p.shared := by
        unfold proceed
        dsimp only
        split <;> rfl
      have hauth : p.shared.status a ≠ .needsAuth := by
        intro hst
        have hblocks : ((proceed a .pumpStatus p.shared o).1.status a).blocks = false := h.status
        rw [hs, hst] at hblocks
        cases hblocks
      refine seenTo_of_hold (h := .pumpPick) rfl ?_ rfl
      show (proceed a .pumpStatus p.shared o).2.hold = _
      simp [proceed, hauth]
  | pumpPick =>
      have hs : (machine.act (.later a .pumpPick) p.shared o).1 = p.shared :=
        pumpPick_fst p.shared a o
      obtain ⟨r, hr, -⟩ :=
        idle_iff.mp (idle_of_slots (congrFun (congrArg Engine.slots hs) a) h.idle)
      have hwaiting : hasQueued p.shared.messages a = true := hs ▸ h.waiting
      obtain ⟨row, hrow⟩ := exists_nextForDelivery hwaiting r.consecutiveUser o.now
      have hhold : (pumpPick p.shared a o).2.hold =
          some (if o.encodes then .pumpWrite row else .pumpQuarantine row.id) := by
        unfold pumpPick
        rw [hr]
        dsimp only
        rw [hrow]
        dsimp only
        split <;> rfl
      refine seenTo_of_hold rfl hhold ?_
      split <;> rfl
  | pumpQuarantine mid =>
      rcases hk h.isOpen with honly | hbound
      · have hsender := waiting_pumpQuarantine honly h.waiting
        refine .inl ⟨.deliver a, .inr ⟨[.deliver a], ?_, List.mem_cons_self⟩, ?_⟩
        · exact List.mem_map_of_mem (mem_deliverTo hsender)
        · exact pumps_of_seesTo rfl
      · exact seenTo_of_bound hnever hbound
  | pumpWrite row =>
      have hopen : IsOpen p.shared := by
        have hsame := sameRecords_pumpWrite p.shared a o row
        exact ⟨hsame.closing ▸ h.isOpen.1, hsame.pausedForUpdate ▸ h.isOpen.2⟩
      rcases hk hopen with hwrites | hbound
      · exact absurd h.idle (not_idle_pumpWrite hwrites)
      · exact seenTo_of_bound hnever hbound
  | _ => cases hp

/-! ## What a holder relies on -/

/-- The slot of a lock's holder is not changed by others. -/
theorem idleFacts_of_ne {h : Phase} (hl : machine.lockOf c ≠ some a) (hf : IdleFacts a h s) :
    IdleFacts a h (machine.act c s o).1 := by
  have hslots := slots_act_of_ne s o hl
  cases h <;> first | trivial | exact fun hi => hf (idle_of_slots hslots hi)

/-- A phase is entered with the slot it relies on. -/
theorem idleFacts_of_enters (hf : ∀ k h, c = .later k h → IdleFacts k h s) {k : Uuid} {h : Phase}
    (he : Enters s o c k h) : IdleFacts k h (machine.act c s o).1 := by
  cases he with
  | prepare hc hs hn =>
      refine not_idle_of_none ?_
      rw [(sameBut_act s o (c := .first (.startRetake k _ _)) rfl).slots]
      exact hs
  | @starting _ next n =>
      refine fun hi => hf _ _ rfl (idle_of_slots ?_ hi)
      rw [(sameBut_act s o (c := .later k (.startPrepare next n)) rfl).slots]
  | advance hw => exact not_idle_pumpWrite hw
  | running => exact hf _ _ rfl
  | @killing _ why r hs ha =>
      refine not_idle_of_none ?_
      show (takeSlot s k why o).1.slots k = none
      rw [takeSlot, hs]
      dsimp only
      rw [if_pos ha]
      exact setSlot_slots_self s k none
  | stopping hs =>
      refine not_idle_of_none ?_
      show (takeSlot s k .stop o).1.slots k = none
      rw [takeSlot, hs]
      exact hs
  | _ => trivial

/-! ## The runs -/

theorem flightNeeds_of_isCall {t : List Instr} (ht : IsCall t) {i : Instr} (hi : i ∈ t) :
    FlightNeeds i s := by
  obtain ⟨call, rfl⟩ := ht
  have hall : ∀ i ∈ call.task, i.flight = none := by
    cases call with
    | adopt readers =>
        intro i hi
        obtain ⟨b, -, rfl⟩ := List.mem_map.mp hi
        rfl
    | _ => simp [Call.task, stop, clearContext, Instr.flight]
  intro b m hm
  rw [hall i hi] at hm
  cases hm

theorem ordered_idle (s : Engine) : Ordered (Pool.idle s) :=
  ⟨Pool.each_idle s _, Pool.each_idle s _⟩

theorem ne_settlement {i : Instr} {t : Turn} {overBudget : Bool} (h : i.seesTo = none)
    (hi : i = settlement t overBudget) : False := by
  rw [hi, seesTo_settlement] at h
  cases h

/-- Every section leaves tasks in which the deliveries of a resume follow its opening. -/
theorem followed_resume_act (c : Section Instr Phase Uuid) (s : Engine) (o : Oracle) :
    Followed .resumeOpen .resumeDeliver (machine.act c s o).2.follow ∧
      ∀ t ∈ (machine.act c s o).2.spawn, Followed .resumeOpen .resumeDeliver t := by
  by_cases hc : c = .first .resumeSwap
  · subst hc
    constructor
    · show Followed _ _ (if s.pausedForUpdate then [Instr.resumeOpen, .resumeDeliver] else [])
      split
      · exact ⟨fun _ => List.mem_cons_self, nofun, trivial⟩
      · trivial
    · intro t ht
      cases ht
  · have hno : ¬ (machine.act c s o).2.Adds .resumeOpen := by
      intro hi
      rcases brings_act s o hi with hord | hb
      · cases hord
      · generalize hx : Instr.resumeOpen = i at hb
        cases hb with
        | reopen hp => exact hc rfl
        | settlement => exact ne_settlement rfl hx
        | _ => cases hx
    constructor
    · exact followed_of_notMem fun hi => hno (.inl hi)
    · exact fun t ht => followed_of_notMem fun hi => hno (.inr ⟨t, ht, hi⟩)

theorem followed_shutdown_act (c : Section Instr Phase Uuid) (s : Engine) (o : Oracle) :
    Followed .shutdownUnpause .shutdownClose (machine.act c s o).2.follow ∧
      ∀ t ∈ (machine.act c s o).2.spawn, Followed .shutdownUnpause .shutdownClose t := by
  have hno : ¬ (machine.act c s o).2.Adds .shutdownUnpause := by
    intro hi
    rcases brings_act s o hi with hord | hb
    · cases hord
    · generalize hx : Instr.shutdownUnpause = i at hb
      cases hb with
      | settlement => exact ne_settlement rfl hx
      | _ => cases hx
  constructor
  · exact followed_of_notMem fun hi => hno (.inl hi)
  · exact fun t ht => followed_of_notMem fun hi => hno (.inr ⟨t, ht, hi⟩)

/-- The calls are ordered so. -/
theorem followed_of_isCall {t : List Instr} (ht : IsCall t) :
    Followed .resumeOpen .resumeDeliver t ∧ Followed .shutdownUnpause .shutdownClose t := by
  obtain ⟨call, rfl⟩ := ht
  cases call with
  | adopt readers =>
      constructor
      · apply followed_of_notMem
        intro hi
        obtain ⟨b, -, hb⟩ := List.mem_map.mp hi
        cases hb
      · apply followed_of_notMem
        intro hi
        obtain ⟨b, -, hb⟩ := List.mem_map.mp hi
        cases hb
  | _ => simp [Call.task, stop, clearContext, Followed]

theorem ordered_step {e : Event} (hj : Ordered p) (he : p.Meets machine IsCall WorkKept e) :
    Ordered (p.step machine e) where
  resume := hj.resume.step (fun _ _ h => h.2) (fun _ _ ht hu => ht.append hu)
    (fun _ ht => (followed_of_isCall ht).1) followed_resume_act he
  shutdown := hj.shutdown.step (fun _ _ h => h.2) (fun _ _ ht hu => ht.append hu)
    (fun _ ht => (followed_of_isCall ht).2) followed_shutdown_act he

theorem workRule : workOutline.RuleIn machine IsCall WorkKept Ordered where
  call _ ht _ hi := flightNeeds_of_isCall ht hi
  stays := ordered_step
  keeps {p e c tasks rest o} hv hj hd hk :=
    { inv := flightSound_act hv.inv fun _ _ hh => (idleFacts_of_due hv hd hh).1
      stable := fun _ h => flightNeeds_act h
      added := fun _ hi =>
        flightNeeds_of_adds hv.inv (fun _ hc => flightNeeds_of_due hv hd hc)
          (fun _ _ hc => (idleFacts_of_due hv hd hc).1) hi
      others := fun _ _ hl _ hf => ⟨flightHolds_act hf.1, idleFacts_of_ne hl hf.2⟩
      kept := fun _ _ hl hh =>
        have henters := enters_act p.shared o hl hh
        ⟨flightHolds_of_enters hv.inv henters,
          idleFacts_of_enters (fun _ _ hc => (idleFacts_of_due hv hd hc).2) henters⟩
      paid := by
        intro a ha
        by_cases hpay : workOutline.paysBy c a
        · right
          cases c with
          | first i => exact seenTo_first hpay ha
          | later k h =>
              obtain ⟨rfl, hp⟩ := hpay
              exact seenTo_later hp hk ha
        · rcases workOwed_before hv hj hd hk ha with ho | hseen
          · exact .inl ⟨ho, hpay⟩
          · exact .inr hseen }

theorem pumps_of_isTimer {i : Instr} (h : i.isTimer = true) : i.pumps a = false := by
  cases i <;> first | rfl | cases h

/-- In every run in which the work is kept, once every call has returned an idle
agent that is not blocked has no queued message while turns may start. -/
theorem idle_queue_empty {s : Engine} (hslots : ∀ a, s.slots a = none) {x : List Event}
    (hx : Run.Always (Pool.step machine) (Pool.Meets machine IsCall WorkKept) (Pool.idle s) x)
    (hret : Returned (Run.run (Pool.step machine) (Pool.idle s) x))
    (hclosing : (Run.run (Pool.step machine) (Pool.idle s) x).shared.closing = false)
    (hpaused : (Run.run (Pool.step machine) (Pool.idle s) x).shared.pausedForUpdate = false)
    (a : Uuid) (r : Running)
    (hslot : (Run.run (Pool.step machine) (Pool.idle s) x).shared.slots a = some r)
    (hfree : r.inFlight = none)
    (hstatus : ((Run.run (Pool.step machine) (Pool.idle s) x).shared.status a).blocks = false) :
    (Run.run (Pool.step machine) (Pool.idle s) x).shared.waiting a = false := by
  have hidle : workOutline.Valid (Pool.idle s) := by
    apply Outline.valid_idle
    · intro a m hm
      rw [Engine.inFlight, hslots a] at hm
      cases hm
    · intro a ha
      exact not_idle_of_none (hslots a) ha.idle
  have hv := workRule.run hidle (ordered_idle s) hx
  by_contra hw
  have howed : WorkOwed (Run.run (Pool.step machine) (Pool.idle s) x).shared a :=
    ⟨⟨hclosing, hpaused⟩, idle_iff.mpr ⟨r, hslot, hfree⟩, by simpa using hw, hstatus⟩
  rcases hv.paid a howed with ⟨i, hi, hpumps⟩ | ⟨k, h, hk, -⟩
  · change i.pumps a = true at hpumps
    rw [pumps_of_isTimer (hret.1 i hi)] at hpumps
    cases hpumps
  · rw [hret.2 k] at hk
    cases hk

/-- While agent 1 runs its message two more arrive; its turn ends, and the body of
the first of the two cannot be encoded. -/
def firstQuarantined : List Event :=
  workDelivered ++
    [.call (Call.enqueue (workFrom 3 .user)).task, .run 4 {},
      .call (Call.enqueue (workFrom 4 .user)).task, .run 5 {}, .run 0 {}, .run 5 {}, .run 5 {},
      .run 3 {}, .run 5 {}, .run 5 {}, .run 3 {}, .run 5 {}, .run 5 {}, .run 0 resultPrinted,
      .run 5 {}, .run 5 {}, .run 5 {}, .run 5 {}, .run 5 {}, .resume 1 {},
      .resume 1 { encodes := false }, .resume 1 {}]

theorem idle_queue_empty_turnDone :
    (Run.run (Pool.step machine) (Pool.idle (Engine.fresh Keyed.empty))
      turnDone).shared.waiting 1 = false := by
  have hslot : ∃ r, (Run.run (Pool.step machine) (Pool.idle (Engine.fresh Keyed.empty))
      turnDone).shared.slots 1 = some r ∧ r.inFlight = none :=
    idle_iff.mp (by decide +kernel)
  obtain ⟨r, hr, hfree⟩ := hslot
  refine idle_queue_empty (fun _ => rfl) ?_ ?_ ?_ ?_ 1 r hr hfree ?_
  · apply Pool.always_meets
    · intro t ht
      simp only [turnDone, workDelivered, List.cons_append, List.nil_append, List.mem_cons,
        List.not_mem_nil, or_false, reduceCtorEq, false_or, Event.call.injEq] at ht
      rcases ht with rfl | rfl
      · exact ⟨.enqueue work, rfl⟩
      · exact ⟨.start 1, rfl⟩
    · decide +kernel
  · apply returned_of_tasks
    · decide +kernel
    · exact Pool.held_eq_none_of_only (a := 1) (fun _ => rfl) (by decide +kernel) rfl
  · decide +kernel
  · decide +kernel
  · decide +kernel

/-- A quarantine leaves the next message waiting: every call has returned, the
agent is idle, and nobody will deliver to it. -/
theorem quarantine_leaves_work :
    ∃ p, p = Run.run (Pool.step machine) (Pool.idle (Engine.fresh Keyed.empty))
        firstQuarantined ∧
      Returned p ∧ p.shared.closing = false ∧ p.shared.pausedForUpdate = false ∧
      (∃ r, p.shared.slots 1 = some r ∧ r.inFlight = none) ∧
      (p.shared.status 1).blocks = false ∧ p.shared.waiting 1 = true := by
  refine ⟨_, rfl, ?_, by decide +kernel, by decide +kernel, ?_, by decide +kernel,
    by decide +kernel⟩
  · apply returned_of_tasks
    · decide +kernel
    · exact Pool.held_eq_none_of_only (a := 1) (fun _ => rfl) (by decide +kernel) rfl
  · exact idle_iff.mp (by decide +kernel)

end Supervisor

end Wheel
