import Wheel.Supervisor.InFlight

/-!
# No lost wakeup of a parked agent

A message for a parked agent is owed a wakeup: some section that waits to run,
or the holder of the agent's slot lock, will start the agent or take it out of
`parked`. `parked_queue_empty` follows once nothing waits to run. What breaks it
is a status that is read or written while a park waits for its child to die: a
delivery then finds the agent not parked yet, and finds no child afterwards.
`delivery_in_park_is_lost` is that run; `WakeupKept` lists the steps of the kind.
-/

namespace Wheel

open Concurrency Messages

namespace Supervisor

/-- A park that took the child and has not written its status yet. -/
def Phase.isParking : Phase → Bool
  | .killing .park _ => true
  | _ => false

/-- A start that wrote its status and has not spawned the child yet. -/
def Phase.isSpawning : Phase → Bool
  | .startSpawn _ => true
  | _ => false

/-- A park of the agent is under way. -/
def Parking (g : Uuid → Option Phase) (a : Uuid) : Prop := (g a).any Phase.isParking = true

instance (g : Uuid → Option Phase) (a : Uuid) : Decidable (Parking g a) := by
  unfold Parking
  infer_instance

/-- A message waits for an agent that is parked, or about to be. -/
def Owed (s : Engine) (g : Uuid → Option Phase) (a : Uuid) : Prop :=
  s.waiting a = true ∧ (s.status a = .parked ∨ Parking g a)

instance (s : Engine) (g : Uuid → Option Phase) (a : Uuid) : Decidable (Owed s g a) := by
  unfold Owed
  infer_instance

/-- The agent has no child, and no start is about to spawn one. -/
def Vacant (p : State) (a : Uuid) : Prop :=
  p.shared.slots a = none ∧ (p.holder a).any Phase.isSpawning = false

instance (p : State) (a : Uuid) : Decidable (Vacant p a) := by
  unfold Vacant
  infer_instance

/-- While a park is under way and a message waits, nobody reads or writes the
agent's status; `parked` is written only of an agent without a child; a start that
is owed does not give up; and a reaper does not queue a message again for an agent
that is parked or about to be. -/
def WakeupKept (p : State) (c : Section Instr Phase Uuid) (o : Oracle) : Prop :=
  match c with
  | .first (.deliverRead a) | .first (.setStatus a _) | .first (.limitPark a _ _) =>
      p.shared.waiting a = true → ¬ Parking p.holder a
  | .first (.limitPlan a _ _ _ overBudget _) =>
      overBudget = true → p.shared.waiting a = true → ¬ Parking p.holder a
  | .first (.startGate a _ _) =>
      (Owed p.shared p.holder a → o.loads = true) ∧
        (o.refusal ≠ none → p.shared.waiting a = true → ¬ Parking p.holder a)
  | .first (.startRetake a _ n) => Owed p.shared p.holder a → p.shared.stops a = n
  | .later a (.startPrepare _ n) =>
      Owed p.shared p.holder a →
        o.prepares = true ∧ o.composes = true ∧ p.shared.stops a = n
  | .first (.parkThenDeliver a) => Vacant p a
  | .first (.resumeIfBlocked a) => p.shared.status a = .needsAuth → Vacant p a
  | .first (.reapSettle a _ diagnosed) =>
      p.shared.waiting a = false → HasDelivered p.shared a →
        ¬ Parking p.holder a ∧ (diagnosed = true → p.shared.status a ≠ .parked)
  | _ => True

instance (p : State) (c : Section Instr Phase Uuid) (o : Oracle) :
    Decidable (WakeupKept p c o) := by
  apply Section.casesOn (motive := fun c => Decidable (WakeupKept p c o)) c
  · intro i
    apply Instr.casesOn (motive := fun i => Decidable (WakeupKept p (.first i) o)) i <;>
      intros <;> dsimp only [WakeupKept] <;> infer_instance
  · intro a h
    apply Phase.casesOn (motive := fun h => Decidable (WakeupKept p (.later a h) o)) h <;>
      intros <;> dsimp only [WakeupKept] <;> infer_instance

/-- The agent a waiting section wakes. -/
def Instr.wakes : Instr → Option Uuid
  | .deliver a | .deliverRead a | .parkThenDeliver a | .start a _ | .startCheck a _ _
  | .startGate a _ _ | .startRetake a _ _ | .take a .stop | .take a .recycle
  | .setStatus a _ | .interruptSettle a _ | .requeueInterrupted a _ | .recycle a
  | .afterAuthFailure a _ | .limitPlan a _ _ _ _ _ | .limitFallback a _
  | .limitPark a _ _ | .resumeEnqueue a => some a
  | _ => none

/-- The phases whose holder wakes its agent. -/
def Phase.wakes : Phase → Bool
  | .startPrepare _ _ | .startStarting _ | .killing .stop _ | .killing .recycle _ => true
  | _ => false

/-- The sections that close the gate, and what a shutdown leaves. -/
def Instr.isShut : Instr → Bool
  | .setStatus _ .parked | .shutdownClose | .shutdownDrain | .shutdownTake _ _
  | .shutdownSettle _ | .pauseMark | .pauseClose => true
  | _ => false

/-- Turns may start, and a parked agent has no child. -/
structure Awake (s : Engine) : Prop where
  closing : s.closing = false
  paused : s.pausedForUpdate = false
  vacant : ∀ a, s.status a = .parked → s.slots a = none
  flight : FlightSound s

/-- What the holder of a slot lock relies on. -/
def ParkFacts (a : Uuid) (h : Phase) (s : Engine) : Prop :=
  match h with
  | .killing _ _ => s.slots a = none
  | .startSpawn _ => s.status a ≠ .parked
  | _ => True

def parkOutline : Outline Engine Instr Phase Uuid Uuid where
  inv := Awake
  needs i s := i.isShut = false ∧ FlightNeeds i s
  holds a h s := FlightHolds a h s ∧ ParkFacts a h s
  owes := Owed
  pays i a := i.wakes = some a
  paysHeld k h a := k = a ∧ h.wakes = true

variable {s : Engine} {o : Oracle} {c : Section Instr Phase Uuid}

/-! ## The status of an agent -/

/-- The sections that write `parked`. -/
inductive Parks (s : Engine) : Section Instr Phase Uuid → Uuid → Prop
  | deliver {a} : Parks s (.first (.parkThenDeliver a)) a
  | resume {a} (h : s.status a = .needsAuth) : Parks s (.first (.resumeIfBlocked a)) a
  | set {a} : Parks s (.first (.setStatus a .parked)) a
  | killed {a mid} : Parks s (.later a (.killing .park mid)) a

/-- The agent's status after the section `c`. -/
inductive StatusAfter (s : Engine) :
    Section Instr Phase Uuid → Uuid → AgentStatus → Prop
  | same {c b} : StatusAfter s c b (s.status b)
  | parks {c b} (h : Parks s c b) : StatusAfter s c b .parked
  | other {c b st} (h : st ≠ .parked) : StatusAfter s c b st

theorem StatusAfter.of_eq {b : Uuid} {st : AgentStatus} (h : st = s.status b) :
    StatusAfter s c b st := h ▸ .same

/-- A section changes a status only as `StatusAfter` says. -/
theorem statusAfter_act (c : Section Instr Phase Uuid) (b : Uuid) :
    StatusAfter s c b ((machine.act c s o).1.status b) := by
  rcases writes_act s o c b with h | h
  · exact .of_eq h
  generalize (machine.act c s o).1.status b = st at h
  cases h with
  | parkThenDeliver => exact .parks .deliver
  | resumeIfBlocked hs => exact .parks (.resume hs)
  | park => exact .parks .killed
  | @setStatus _ st =>
      by_cases hst : st = .parked
      · subst hst
        exact .parks .set
      · exact .other hst
  | startGate hl hr =>
      refine .other ?_
      split <;> exact nofun
  | init =>
      refine .other ?_
      split <;> exact nofun
  | @settleTurn t ended =>
      refine .other ?_
      cases ended <;> exact nofun
  | @reapSettle _ initialised =>
      refine .other ?_
      unfold exitStatus
      split
      · exact nofun
      · split
        · exact nofun
        · split <;> exact nofun
  | _ => exact .other nofun

/-! ## Who is owed a wakeup -/

/-- The section leaves somebody to wake the agent. -/
def Woken (nx : Leaves) (a : Uuid) : Prop := ∃ i, nx.Adds i ∧ i.wakes = some a

theorem woken_of_mem {nx : Leaves} {i : Instr} {a : Uuid} (hi : i ∈ nx.follow)
    (hw : i.wakes = some a) : Woken nx a := ⟨i, .inl hi, hw⟩

/-- Whom a section may queue a message for. -/
def MayQueue (s : Engine) (c : Section Instr Phase Uuid) (nx : Leaves) (a : Uuid) : Prop :=
  Woken nx a ∨ (∃ initialised diagnosed, c = .first (.reapSettle a initialised diagnosed)) ∧
    HasDelivered s a

theorem wakes_of_tends {i : Instr} {a : Uuid} (h : Tends i a) : i.wakes = some a := by
  cases h <;> rfl

/-- A section queues a message only for whom it leaves somebody to wake, unless
it reaps. -/
theorem waits_act (hn : ∀ i, c = .first i → FlightNeeds i s) :
    Waits (MayQueue s c (machine.act c s o).2) s.messages (machine.act c s o).1.messages := by
  refine (queues_act hn).mono ?_
  rintro a (⟨i, hi, ht⟩ | hreap)
  · exact .inl ⟨i, hi, wakes_of_tends ht⟩
  · exact .inr hreap

/-! ## The invariant -/

theorem closing_act_false (hc : ∀ i, c = .first i → i.isShut = false) (h : s.closing = false) :
    (machine.act c s o).1.closing = false := by
  by_cases hr : keepsRecord c = false
  · rw [(sameRecords_act s o hr).closing, h]
  cases c with
  | first i =>
      cases i with
      | event rd ev => exact (sameRecords_onEvent s o rd ev).closing.trans h
      | _ => first | exact h | rfl | exact absurd rfl hr | cases hc _ rfl
  | later a p =>
      cases p with
      | startSpawn next => exact (sameRecords_startSpawn s a o next).closing.trans h
      | pumpWrite row => exact (sameRecords_pumpWrite s a o row).closing.trans h
      | _ => exact absurd rfl hr

theorem paused_act_false (hc : ∀ i, c = .first i → i.isShut = false)
    (h : s.pausedForUpdate = false) : (machine.act c s o).1.pausedForUpdate = false := by
  by_cases hr : keepsRecord c = false
  · rw [(sameRecords_act s o hr).pausedForUpdate, h]
  cases c with
  | first i =>
      cases i with
      | event rd ev => exact (sameRecords_onEvent s o rd ev).pausedForUpdate.trans h
      | _ => first | exact h | rfl | exact absurd rfl hr | cases hc _ rfl
  | later a p =>
      cases p with
      | startSpawn next => exact (sameRecords_startSpawn s a o next).pausedForUpdate.trans h
      | pumpWrite row => exact (sameRecords_pumpWrite s a o row).pausedForUpdate.trans h
      | _ => exact absurd rfl hr

theorem isShut_of_isOrdinary {i : Instr} (h : i.isOrdinary = true) : i.isShut = false := by
  cases i with
  | setStatus a st => cases st <;> first | rfl | cases h
  | _ => first | rfl | cases h

/-- A section leaves a shutdown's sections only when it is one. -/
theorem isShut_of_adds (hc : ∀ i, c = .first i → i.isShut = false) {i : Instr}
    (hi : (machine.act c s o).2.Adds i) : i.isShut = false := by
  rcases brings_act s o hi with hord | hb
  · exact isShut_of_isOrdinary hord
  · cases hb with
    | settlement =>
        unfold settlement
        split <;> rfl
    | drain => cases hc _ rfl
    | shut => cases hc _ rfl
    | shutdown => cases hc _ rfl
    | settled => cases hc _ rfl
    | _ => rfl

section Step

variable {p : State} {e : Event} {tasks : List (List Instr)} {rest : List Instr}
  (hv : parkOutline.Valid p) (hd : p.due machine e = some (c, tasks, rest, o))
include hv hd

theorem needs_of_due {i : Instr} (hi : c = .first i) :
    i.isShut = false ∧ FlightNeeds i p.shared := by
  subst hi
  exact hv.needs i (Pool.has_of_due_first hd)

theorem holds_of_due {a : Uuid} {h : Phase} (hh : c = .later a h) :
    FlightHolds a h p.shared ∧ ParkFacts a h p.shared := by
  subst hh
  exact hv.holds a h (Pool.holder_of_due_later hd)

/-- `parked` is written of agents without a child. -/
theorem vacant_of_parks (hk : WakeupKept p c o) {a : Uuid} (h : Parks p.shared c a) :
    p.shared.slots a = none ∧ (machine.act c p.shared o).1.slots a = none := by
  cases h with
  | deliver => exact ⟨hk.1, hk.1⟩
  | resume hs =>
      refine ⟨(hk hs).1, ?_⟩
      rw [(sameBut_act p.shared o (c := .first (.resumeIfBlocked a)) rfl).slots]
      exact (hk hs).1
  | set => cases (needs_of_due hv hd rfl).1
  | killed =>
      have hs : p.shared.slots a = none := (holds_of_due hv hd rfl).2
      exact ⟨hs, hs⟩

theorem awake_act (hk : WakeupKept p c o) : Awake (machine.act c p.shared o).1 where
  closing := closing_act_false (fun _ hi => (needs_of_due hv hd hi).1) hv.inv.closing
  paused := paused_act_false (fun _ hi => (needs_of_due hv hd hi).1) hv.inv.paused
  flight := flightSound_act hv.inv.flight fun _ _ hh => (holds_of_due hv hd hh).1
  vacant a ha := by
    have hstatus := statusAfter_act (s := p.shared) (o := o) c a
    rw [ha] at hstatus
    have hbefore : p.shared.status a = .parked ∨ Parks p.shared c a := by
      generalize hx : AgentStatus.parked = st at hstatus
      cases hstatus with
      | same => exact .inl rfl
      | parks h => exact .inr h
      | other h => exact absurd hx.symm h
    rcases hbefore with hb | hb
    · have hnone := hv.inv.vacant a hb
      have hslot := slotAfter_act p.shared o c a
      generalize (machine.act c p.shared o).1.slots a = x at hslot
      cases hslot with
      | same => exact hnone
      | taken => rfl
      | shut => rfl
      | named => rw [hnone]; rfl
      | ended => rw [hnone]; rfl
      | limited => rw [hnone]; rfl
      | written => rw [hnone]; rfl
      | spawned => exact absurd hb (holds_of_due hv hd rfl).2
    · exact (vacant_of_parks hv hd hk hb).2

/-- What a holder relies on is stable under the sections of others. -/
theorem parkFacts_of_ne (hk : WakeupKept p c o) {a : Uuid} {h : Phase}
    (hl : machine.lockOf c ≠ some a) (hg : p.holder a = some h)
    (hf : ParkFacts a h p.shared) : ParkFacts a h (machine.act c p.shared o).1 := by
  unfold ParkFacts at hf ⊢
  cases h with
  | killing why mid =>
      dsimp only at hf ⊢
      rw [slots_act_of_ne _ _ hl]
      exact hf
  | startSpawn next =>
      dsimp only at hf ⊢
      have hstatus := statusAfter_act (s := p.shared) (o := o) c a
      generalize (machine.act c p.shared o).1.status a = st at hstatus
      cases hstatus with
      | same => exact hf
      | other h => exact h
      | parks h =>
          have hno : ¬ (p.holder a).any Phase.isSpawning = false := by
            rw [hg]
            exact nofun
          cases h with
          | deliver => exact absurd hk.2 hno
          | resume hs => exact absurd (hk hs).2 hno
          | set => cases (needs_of_due hv hd rfl).1
          | killed => exact absurd rfl hl
  | _ => trivial

omit hv hd in
theorem parkFacts_of_enters {k : Uuid} {h : Phase} (he : Enters s o c k h) :
    ParkFacts k h (machine.act c s o).1 := by
  cases he with
  | spawn =>
      show (s.setStatus k .starting).status k ≠ .parked
      rw [Engine.status_setStatus, if_pos rfl]
      exact nofun
  | @killing b why r hs ha =>
      show (takeSlot s k why o).1.slots k = none
      rw [takeSlot, hs]
      dsimp only
      rw [if_pos ha]
      exact setSlot_slots_self s k none
  | stopping hs =>
      show (takeSlot s k .stop o).1.slots k = none
      rw [takeSlot, hs]
      exact hs
  | _ => trivial

/-! ## What is owed is paid -/

/-- The agent is owed a wakeup after the section. -/
def OwedAfter (p : State) (c : Section Instr Phase Uuid) (o : Oracle) (a : Uuid) : Prop :=
  Owed (machine.act c p.shared o).1
    (Pool.holderAfter p.holder (machine.lockOf c) (machine.act c p.shared o).2) a

omit hv hd in
/-- Reaping a child that nobody diagnosed leaves a status other than `parked`. -/
theorem status_reapSettle_ne (a : Uuid) (initialised : Bool) :
    (reapSettle s a initialised false o).1.status a ≠ .parked := by
  show (Engine.setStatus _ a (exitStatus initialised o.output)).status a ≠ .parked
  rw [Engine.status_setStatus, if_pos rfl]
  unfold exitStatus
  split
  · exact nofun
  · split
    · exact nofun
    · split <;> exact nofun

/-- An agent that is parked or about to be was so, or somebody wakes it, or the
park has just found its queue empty. -/
theorem parked_before {a : Uuid}
    (h : (machine.act c p.shared o).1.status a = .parked ∨
      Parking (Pool.holderAfter p.holder (machine.lockOf c) (machine.act c p.shared o).2) a) :
    (p.shared.status a = .parked ∨ Parking p.holder a) ∨
      Woken (machine.act c p.shared o).2 a ∨
        c = .first (.take a .park) ∧ p.shared.waiting a = false := by
  rcases h with h | h
  · have hstatus := statusAfter_act (s := p.shared) (o := o) c a
    rw [h] at hstatus
    generalize hx : AgentStatus.parked = st at hstatus
    cases hstatus with
    | same => exact .inl (.inl rfl)
    | other hne => exact absurd hx.symm hne
    | parks hpark =>
        cases hpark with
        | deliver => exact .inr (.inl (woken_of_mem List.mem_cons_self rfl))
        | resume hs =>
            refine .inr (.inl (woken_of_mem (i := .deliver a) ?_ rfl))
            show _ ∈ (Prod.snd (if p.shared.status a = .needsAuth then
              (p.shared.setStatus a .parked, { follow := [.deliver a] }) else
              (p.shared, {}) : Engine × Leaves)).follow
            rw [if_pos hs]
            exact List.mem_cons_self
        | set => cases (needs_of_due hv hd rfl).1
        | @killed _ mid =>
            refine .inl (.inr ?_)
            rw [Parking, Pool.holder_of_due_later hd]
            rfl
  · unfold Parking Pool.holderAfter at h
    split at h
    · rename_i hl
      cases hph : (machine.act c p.shared o).2.hold with
      | none =>
          rw [hph] at h
          cases h
      | some ph =>
          rw [hph] at h
          have henters := enters_act p.shared o hl hph
          cases henters with
          | @killing _ why r hs hr =>
              cases why with
              | park =>
                  simp only [Taking.admits, decide_eq_true_eq] at hr
                  exact .inr (.inr ⟨rfl, hr.2.1⟩)
              | _ => cases h
          | _ => cases h
    · exact .inl (.inr h)

/-- What is owed after a section was owed before, or somebody is left to pay it. -/
theorem owed_before (hk : WakeupKept p c o) {a : Uuid} (h : OwedAfter p c o a) :
    Owed p.shared p.holder a ∨ Woken (machine.act c p.shared o).2 a := by
  have hpark := parked_before hv hd h.2
  have hwaited : p.shared.waiting a = true → Owed p.shared p.holder a ∨
      Woken (machine.act c p.shared o).2 a := by
    intro hw
    rcases hpark with hp | hwoken | ⟨-, hno⟩
    · exact .inl ⟨hw, hp⟩
    · exact .inr hwoken
    · rw [hw] at hno
      cases hno
  rcases waits_act (fun _ hi => (needs_of_due hv hd hi).2) a h.1 with
    hw | hwoken | ⟨⟨initialised, diagnosed, rfl⟩, hdel⟩
  · exact hwaited hw
  · exact .inr hwoken
  · by_cases hw : p.shared.waiting a = true
    · exact hwaited hw
    · obtain ⟨hnot, hdiag⟩ := hk (by simpa using hw) hdel
      have hstatus : (machine.act (.first (.reapSettle a initialised diagnosed))
          p.shared o).1.status a = .parked := h.2.resolve_right hnot
      cases diagnosed with
      | false => exact absurd hstatus (status_reapSettle_ne a initialised)
      | true =>
          rcases hpark with (hs | hp) | hwoken | ⟨hc, -⟩
          · exact absurd hs (hdiag rfl)
          · exact absurd hp hnot
          · exact .inr hwoken
          · cases hc

end Step

/-! ## Who is owed is woken -/

section Paid

variable {p : State} {a : Uuid}

/-- Somebody is left to pay what is owed: a section, or the holder of the lock. -/
def PaidAfter (p : State) (c : Section Instr Phase Uuid) (o : Oracle) (a : Uuid) : Prop :=
  Woken (machine.act c p.shared o).2 a ∨
    ∃ k h, machine.lockOf c = some k ∧ (machine.act c p.shared o).2.hold = some h ∧
      k = a ∧ h.wakes = true

theorem paid_of_mem {i : Instr} (hi : i ∈ (machine.act c p.shared o).2.follow)
    (hw : i.wakes = some a) : PaidAfter p c o a := .inl (woken_of_mem hi hw)

theorem paid_of_hold {h : Phase} (hl : machine.lockOf c = some a)
    (hh : (machine.act c p.shared o).2.hold = some h) (hw : h.wakes = true) :
    PaidAfter p c o a := .inr ⟨a, h, hl, hh, rfl, hw⟩

/-- A section without a lock leaves every park under way. -/
theorem parking_of_lock_none (hl : machine.lockOf c = none)
    (h : Parking (Pool.holderAfter p.holder (machine.lockOf c)
      (machine.act c p.shared o).2) a) : Parking p.holder a := by
  rw [Parking, Pool.holderAfter, hl, if_neg (Option.some_ne_none a).symm] at h
  exact h

/-- Under the agent's lock no park is under way, unless the section begins one. -/
theorem parked_of_lock (h : OwedAfter p c o a) (hl : machine.lockOf c = some a)
    (hh : (machine.act c p.shared o).2.hold.any Phase.isParking = false) :
    (machine.act c p.shared o).1.status a = .parked := by
  refine h.2.resolve_right fun hpk => ?_
  rw [Parking, Pool.holderAfter, hl, if_pos rfl, hh] at hpk
  cases hpk

/-- Nobody is owed by a section that wrote another status, unless in a park. -/
theorem not_owed_of_status (hl : machine.lockOf c = none)
    (hs : (machine.act c p.shared o).1.status a ≠ .parked)
    (hno : (machine.act c p.shared o).1.waiting a = true → ¬ Parking p.holder a)
    (h : OwedAfter p c o a) : False :=
  h.2.elim hs fun hpk => hno h.1 (parking_of_lock_none hl hpk)

theorem paid_deliverRead (hk : WakeupKept p (.first (.deliverRead a)) o)
    (h : OwedAfter p (.first (.deliverRead a)) o a) :
    PaidAfter p (.first (.deliverRead a)) o a := by
  have hs : (machine.act (.first (.deliverRead a)) p.shared o).1 = p.shared :=
    deliverRead_fst p.shared a
  have hw : p.shared.waiting a = true := hs ▸ h.1
  have hst : p.shared.status a = .parked := by
    refine hs ▸ h.2.resolve_right fun hpk => ?_
    exact hk hw (parking_of_lock_none rfl hpk)
  refine paid_of_mem (i := .start a .pump) ?_ rfl
  show _ ∈ (deliverRead p.shared a).2.follow
  rw [deliverRead, if_pos ⟨hw, hst⟩]
  exact List.mem_cons_self

theorem paid_startCheck (hv : Awake p.shared) {next : AfterStart} {n : ℕ}
    (h : OwedAfter p (.first (.startCheck a next n)) o a) :
    PaidAfter p (.first (.startCheck a next n)) o a := by
  have hhold : (startCheck p.shared a next n).2.hold.any Phase.isParking = false := by
    unfold startCheck
    split
    · rfl
    · split <;> rfl
  have hst := parked_of_lock h rfl hhold
  rw [show (machine.act (.first (.startCheck a next n)) p.shared o).1 = p.shared from
    startCheck_fst p.shared a next n] at hst
  refine paid_of_mem (i := .startGate a next n) ?_ rfl
  show _ ∈ (startCheck p.shared a next n).2.follow
  rw [startCheck, hv.closing, hv.vacant a hst]
  exact List.mem_cons_self

theorem paid_startGate {next : AfterStart} {n : ℕ}
    (hk : WakeupKept p (.first (.startGate a next n)) o)
    (h : OwedAfter p (.first (.startGate a next n)) o a) :
    PaidAfter p (.first (.startGate a next n)) o a := by
  obtain ⟨hloads, hrefusal⟩ := hk
  have hact : machine.act (.first (.startGate a next n)) p.shared o =
      startGate p.shared a next n o := rfl
  cases hl : o.loads with
  | false =>
      have hgive : startGate p.shared a next n o = (p.shared, {}) := by
        simp [startGate, hl]
      obtain ⟨hw, hp⟩ := h
      have hp' := hp.imp_right fun hpk => parking_of_lock_none rfl hpk
      rw [hact, hgive] at hw hp'
      rw [hloads ⟨hw, hp'⟩] at hl
      cases hl
  | true =>
      cases hr : o.refusal with
      | none =>
          refine paid_of_mem (i := .startRetake a next n) ?_ rfl
          rw [hact]
          simp [startGate, hl, hr]
      | some st =>
          have hrefuse : (startGate p.shared a next n o).1 =
              p.shared.setStatus a (if st = .needsAuth then .needsAuth else .error) := by
            simp [startGate, hl, hr]
          exfalso
          refine not_owed_of_status (c := .first (.startGate a next n)) rfl ?_ ?_ h
          · rw [hact, hrefuse, Engine.status_setStatus, if_pos rfl]
            split <;> exact nofun
          · rw [hact, hrefuse]
            exact hrefusal (by rw [hr]; exact nofun)

theorem paid_startRetake (hv : Awake p.shared) {next : AfterStart} {n : ℕ}
    (hk : WakeupKept p (.first (.startRetake a next n)) o)
    (h : OwedAfter p (.first (.startRetake a next n)) o a) :
    PaidAfter p (.first (.startRetake a next n)) o a := by
  have hhold : (startRetake p.shared a next n).2.hold.any Phase.isParking = false := by
    unfold startRetake
    split
    · rfl
    · split
      · rfl
      · split <;> rfl
  have hst := parked_of_lock h rfl hhold
  have hw := h.1
  rw [show (machine.act (.first (.startRetake a next n)) p.shared o).1 = p.shared from
    startRetake_fst p.shared a next n] at hst hw
  have hn : p.shared.stops a = n := hk ⟨hw, .inl hst⟩
  refine paid_of_hold (h := .startPrepare next n) rfl ?_ rfl
  show (startRetake p.shared a next n).2.hold = _
  rw [startRetake, hv.closing, hv.vacant a hst]
  simp [hn]

theorem paid_startPrepare {next : AfterStart} {n : ℕ}
    (hk : WakeupKept p (.later a (.startPrepare next n)) o)
    (h : OwedAfter p (.later a (.startPrepare next n)) o a) :
    PaidAfter p (.later a (.startPrepare next n)) o a := by
  have hhold : (proceed a (.startPrepare next n) p.shared o).2.hold.any Phase.isParking =
      false := by
    unfold proceed
    dsimp only
    split
    · rfl
    · split
      · rfl
      · split <;> rfl
  have hs : (proceed a (.startPrepare next n) p.shared o).1 = p.shared := by
    unfold proceed
    dsimp only
    split
    · rfl
    · split
      · rfl
      · split <;> rfl
  have hst := parked_of_lock h rfl hhold
  have hw := h.1
  rw [show (machine.act (.later a (.startPrepare next n)) p.shared o).1 = _ from hs] at hst hw
  obtain ⟨hprepares, hcomposes, hn⟩ := hk ⟨hw, .inl hst⟩
  refine paid_of_hold (h := .startStarting next) rfl ?_ rfl
  show (proceed a (.startPrepare next n) p.shared o).2.hold = _
  simp [proceed, hprepares, hcomposes, hn]

theorem paid_limitPlan {signal : LimitSignal} {onFallback overBudget : Bool} {strikes : ℕ}
    {now : Timestamp}
    (hk : WakeupKept p (.first (.limitPlan a signal onFallback strikes overBudget now)) o)
    (h : OwedAfter p (.first (.limitPlan a signal onFallback strikes overBudget now)) o a) :
    PaidAfter p (.first (.limitPlan a signal onFallback strikes overBudget now)) o a := by
  have hact : machine.act (.first (.limitPlan a signal onFallback strikes overBudget now))
      p.shared o = limitPlan p.shared a signal onFallback strikes overBudget now o := rfl
  cases overBudget with
  | true =>
      have hover : (limitPlan p.shared a signal onFallback strikes true now o).1 =
          p.shared.setStatus a .budgetExhausted := by
        simp [limitPlan]
      exfalso
      refine not_owed_of_status rfl ?_ ?_ h
      · rw [hact, hover, Engine.status_setStatus, if_pos rfl]
        exact nofun
      · rw [hact, hover]
        exact hk rfl
  | false =>
      left
      rw [hact]
      unfold limitPlan
      simp only [Bool.false_eq_true, if_false]
      split
      · exact woken_of_mem List.mem_cons_self rfl
      · exact woken_of_mem List.mem_cons_self rfl

/-- A section that owed the agent a wakeup leaves somebody to pay it, as long as it
is owed. -/
theorem paid_first (hv : Awake p.shared) {i : Instr} (hi : i.isShut = false)
    (hw : i.wakes = some a) (hk : WakeupKept p (.first i) o)
    (h : OwedAfter p (.first i) o a) : PaidAfter p (.first i) o a := by
  cases i with
  | deliver b =>
      cases hw
      refine paid_of_mem (i := .deliverRead a) ?_ rfl
      show _ ∈ (if p.shared.pausedForUpdate then [] else [Instr.deliverRead a])
      rw [hv.paused]
      exact List.mem_cons_self
  | deliverRead b =>
      cases hw
      exact paid_deliverRead hk h
  | startCheck b next n =>
      cases hw
      exact paid_startCheck hv h
  | startGate b next n =>
      cases hw
      exact paid_startGate hk h
  | startRetake b next n =>
      cases hw
      exact paid_startRetake hv hk h
  | take b why =>
      cases why with
      | stop =>
          cases hw
          refine paid_of_hold (h := .killing .stop ((p.shared.slots a).bind (·.inFlight))) rfl
            ?_ rfl
          show (takeSlot p.shared a .stop o).2.hold = _
          unfold takeSlot
          cases hs : p.shared.slots a with
          | none => rfl
          | some r => rfl
      | recycle =>
          cases hw
          cases hs : p.shared.slots a with
          | none =>
              refine paid_of_mem (i := .parkThenDeliver a) ?_ rfl
              show _ ∈ (takeSlot p.shared a .recycle o).2.follow
              rw [takeSlot, hs]
              exact List.mem_cons_self
          | some r =>
              refine paid_of_hold (h := .killing .recycle r.inFlight) rfl ?_ rfl
              show (takeSlot p.shared a .recycle o).2.hold = _
              rw [takeSlot, hs]
              rfl
      | _ => cases hw
  | setStatus b st =>
      cases hw
      exfalso
      refine not_owed_of_status rfl ?_ ?_ h
      · show (p.shared.setStatus a st).status a ≠ .parked
        rw [Engine.status_setStatus, if_pos rfl]
        rintro rfl
        cases hi
      · exact hk
  | recycle b =>
      cases hw
      refine paid_of_mem (i := .take a .recycle) ?_ rfl
      show _ ∈ (if p.shared.closing then [] else [Instr.take a .recycle])
      rw [hv.closing]
      exact List.mem_cons_self
  | afterAuthFailure b gen =>
      cases hw
      left
      show Woken { follow := if _ then _ else parkNeedsAuth a } a
      split
      · exact woken_of_mem List.mem_cons_self rfl
      · exact woken_of_mem (List.mem_cons_of_mem _ List.mem_cons_self) rfl
  | limitPlan b signal onFallback strikes overBudget now =>
      cases hw
      exact paid_limitPlan hk h
  | limitPark b resetsAt resume =>
      cases hw
      have hst : (machine.act (.first (.limitPark a resetsAt resume)) p.shared o).1.status a =
          (p.shared.setStatus a .rateLimited).status a :=
        Engine.status_setState (p.shared.setStatus a .rateLimited) a a
          (f := fun x => { x with resetsAt := resetsAt, resumeAt := some resume }) fun _ => rfl
      exfalso
      refine not_owed_of_status rfl ?_ ?_ h
      · rw [hst, Engine.status_setStatus, if_pos rfl]
        exact nofun
      · exact hk
  | _ =>
      first
        | cases hw; exact paid_of_mem List.mem_cons_self rfl
        | cases hw

/-- So does a phase that owed it. -/
theorem paid_later {ph : Phase} (hw : ph.wakes = true) (hk : WakeupKept p (.later a ph) o)
    (h : OwedAfter p (.later a ph) o a) : PaidAfter p (.later a ph) o a := by
  cases ph with
  | startPrepare next n => exact paid_startPrepare hk h
  | startStarting next =>
      have hst := parked_of_lock h rfl rfl
      change (p.shared.setStatus a .starting).status a = .parked at hst
      rw [Engine.status_setStatus, if_pos rfl] at hst
      cases hst
  | killing why mid =>
      cases why with
      | stop =>
          have hst := parked_of_lock h rfl rfl
          change (p.shared.setStatus a .stopped).status a = .parked at hst
          rw [Engine.status_setStatus, if_pos rfl] at hst
          cases hst
      | recycle =>
          cases mid with
          | none => exact paid_of_mem List.mem_cons_self rfl
          | some mid => exact paid_of_mem List.mem_cons_self rfl
      | _ => cases hw
  | _ => cases hw

end Paid

/-! ## The runs -/

/-- The calls that leave turns free to start. -/
def Call.keepsTurns : Call → Bool
  | .pauseTurns | .shutdown => false
  | _ => true

/-- A task is one of these calls. -/
def IsTurnCall (t : List Instr) : Prop := ∃ c : Call, c.keepsTurns = true ∧ t = c.task

theorem isOrdinary_of_isTurnCall {t : List Instr} (h : IsTurnCall t) {i : Instr} (hi : i ∈ t) :
    i.isOrdinary = true ∨ i = .resumeSwap := by
  obtain ⟨c, hc, rfl⟩ := h
  have hall : c ≠ .resumeTurns → c.task.all Instr.isOrdinary = true := by
    intro hne
    cases c with
    | adopt readers =>
        show (readers.map _).all _ = true
        rw [List.all_map, List.all_eq_true]
        exact fun _ _ => rfl
    | resumeTurns => exact absurd rfl hne
    | _ => first | rfl | cases hc
  by_cases hne : c = .resumeTurns
  · subst hne
    exact .inr (List.mem_singleton.mp hi)
  · exact .inl (List.all_eq_true.mp (hall hne) i hi)

theorem parkRule : parkOutline.Rule machine IsTurnCall WakeupKept where
  call _ ht i hi := by
    rcases isOrdinary_of_isTurnCall ht hi with hord | rfl
    · refine ⟨isShut_of_isOrdinary hord, ?_⟩
      intro a m hm
      rw [flight_of_isOrdinary hord] at hm
      cases hm
    · refine ⟨rfl, ?_⟩
      intro a m hm
      cases hm
  keeps {p e c tasks rest o} hv hd hk :=
    { inv := awake_act hv hd hk
      stable := fun _ h => ⟨h.1, flightNeeds_act h.2⟩
      added := fun _ hi =>
        ⟨isShut_of_adds (fun _ hc => (needs_of_due hv hd hc).1) hi,
          flightNeeds_of_adds hv.inv.flight (fun _ hc => (needs_of_due hv hd hc).2)
            (fun _ _ hc => (holds_of_due hv hd hc).1) hi⟩
      others := fun _ _ hl hg hf => ⟨flightHolds_act hf.1, parkFacts_of_ne hv hd hk hl hg hf.2⟩
      kept := fun _ _ hl hh =>
        have henters := enters_act p.shared o hl hh
        ⟨flightHolds_of_enters hv.inv.flight henters, parkFacts_of_enters henters⟩
      paid := by
        intro a ha
        by_cases hpay : parkOutline.paysBy c a
        · right
          cases c with
          | first i =>
              exact paid_first hv.inv (needs_of_due hv hd rfl).1 hpay hk ha
          | later k h =>
              obtain ⟨rfl, hw⟩ := hpay
              exact paid_later hw hk ha
        · rcases owed_before hv hd hk ha with ho | hwoken
          · exact .inl ⟨ho, hpay⟩
          · exact .inr (.inl hwoken) }

/-- The sections that wait for a child's output or for a timer. -/
def Instr.isTimer : Instr → Bool
  | .readLine _ | .wedgeCheck _ _ | .resumeDue _ => true
  | _ => false

theorem wakes_of_isTimer {i : Instr} (h : i.isTimer = true) : i.wakes = none := by
  cases i <;> first | rfl | cases h

/-- Every call has returned: only readers and timers wait, and no lock is held. -/
def Returned (p : State) : Prop :=
  (∀ i, p.Has i → i.isTimer = true) ∧ ∀ k, p.holder k = none

/-- In every run in which the wakeups are kept, once every call has returned a
parked agent has no queued message. -/
theorem parked_queue_empty {s : Engine} (hclosing : s.closing = false)
    (hpaused : s.pausedForUpdate = false) (hslots : ∀ a, s.slots a = none)
    (hqueue : ∀ a, s.status a = .parked → s.waiting a = false) {x : List Event}
    (hx : Run.Always (Pool.step machine) (Pool.Meets machine IsTurnCall WakeupKept)
      (Pool.idle s) x)
    (hret : Returned (Run.run (Pool.step machine) (Pool.idle s) x)) (a : Uuid)
    (ha : (Run.run (Pool.step machine) (Pool.idle s) x).shared.status a = .parked) :
    (Run.run (Pool.step machine) (Pool.idle s) x).shared.waiting a = false := by
  have hidle : parkOutline.Valid (Pool.idle s) := by
    apply Outline.valid_idle
    · refine ⟨hclosing, hpaused, fun a _ => hslots a, ?_⟩
      intro a m hm
      rw [Engine.inFlight, hslots a] at hm
      cases hm
    · rintro a ⟨hw, hp | hp⟩
      · rw [hqueue a hp] at hw
        cases hw
      · cases hp
  have hv := parkRule.run hidle hx
  by_contra hw
  rcases hv.paid a ⟨by simpa using hw, .inl ha⟩ with ⟨i, hi, hwakes⟩ | ⟨k, h, hk, -⟩
  · change i.wakes = some a at hwakes
    rw [wakes_of_isTimer (hret.1 i hi)] at hwakes
    cases hwakes
  · rw [hret.2 k] at hk
    cases hk

theorem returned_of_tasks {p : State} (ht : ∀ t ∈ p.tasks, ∀ i ∈ t, i.isTimer = true)
    (hh : ∀ k, p.held k = none) : Returned p := by
  constructor
  · rintro i (⟨t, htp, hi⟩ | ⟨k, h, t, hk, -⟩)
    · exact ht t htp i hi
    · rw [hh k] at hk
      cases hk
  · intro k
    rw [Pool.holder, hh k]
    rfl

/-- Agent 1 got its message, its turn ended, and every delivery found its queue
empty. -/
def turnDone : List Event :=
  workDelivered ++
    [.run 1 resultPrinted, .run 3 {}, .run 3 {}, .run 3 {}, .run 3 {}, .run 3 {}, .resume 1 {},
      .resume 1 {}, .run 0 {}, .run 3 {}, .run 3 {}, .resume 1 {}, .resume 1 {}]

/-- It is parked then. -/
def turnParked : List Event :=
  turnDone ++ [.call (Call.park 1).task, .run 4 {}, .resume 1 {}]

/-- While it is parked, its child still dying, a message is enqueued and delivered. -/
def deliveredInPark : List Event :=
  turnDone ++
    [.call (Call.park 1).task, .run 4 {}, .call (Call.enqueue (workFrom 3 .user)).task,
      .run 4 {}, .run 4 {}, .run 4 {}, .resume 1 {}, .run 4 {}]

theorem parked_queue_empty_turnParked :
    (Run.run (Pool.step machine) (Pool.idle (Engine.fresh Keyed.empty))
      turnParked).shared.waiting 1 = false := by
  have hqueue : ∀ a, (Engine.fresh Keyed.empty).status a = .parked →
      (Engine.fresh Keyed.empty).waiting a = false := fun _ _ => rfl
  refine parked_queue_empty rfl rfl (fun _ => rfl) hqueue ?_ ?_ 1 ?_
  · apply Pool.always_meets
    · intro t ht
      simp only [turnParked, turnDone, workDelivered, List.cons_append, List.nil_append,
        List.mem_cons, List.not_mem_nil, or_false, reduceCtorEq, false_or,
        Event.call.injEq] at ht
      rcases ht with rfl | rfl | rfl
      · exact ⟨.enqueue work, rfl, rfl⟩
      · exact ⟨.start 1, rfl, rfl⟩
      · exact ⟨.park 1, rfl, rfl⟩
    · decide +kernel
  · apply returned_of_tasks
    · decide +kernel
    · exact Pool.held_eq_none_of_only (a := 1) (fun _ => rfl) (by decide +kernel) rfl
  · decide +kernel

/-- A delivery that reads the status while a park waits for the child to die is
lost: every call has returned, and the message waits for a parked agent. -/
theorem delivery_in_park_is_lost :
    ∃ p, p = Run.run (Pool.step machine) (Pool.idle (Engine.fresh Keyed.empty))
        deliveredInPark ∧
      Returned p ∧ p.shared.status 1 = .parked ∧ p.shared.waiting 1 = true := by
  refine ⟨_, rfl, ?_, by decide +kernel, by decide +kernel⟩
  apply returned_of_tasks
  · decide +kernel
  · exact Pool.held_eq_none_of_only (a := 1) (fun _ => rfl) (by decide +kernel) rfl

end Supervisor

end Wheel
