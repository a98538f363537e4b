import Wheel.Supervisor.Steps

/-!
# The messages in flight

What a child runs was picked for its agent, and so is whatever a section settles
after the child is gone. With it goes for whom a section can queue a message
again: only for the agent whose message it settles, and for the agents it leaves
a delivery for.
-/

namespace Wheel

open Concurrency Messages

/-- Has the agent a message whose turn was started? -/
def HasDelivered (s : Engine) (a : Uuid) : Prop :=
  ∃ r ∈ s.messages.rows, r.toId = a ∧ r.state = .delivered

instance (s : Engine) (a : Uuid) : Decidable (HasDelivered s a) := by
  unfold HasDelivered
  infer_instance

namespace Supervisor

variable {s : Engine} {o : Oracle} {c : Section Instr Phase Uuid}

theorem inFlight_eq_some_iff {a m : Uuid} :
    s.inFlight a = some m ↔ ∃ r, s.slots a = some r ∧ r.inFlight = some m := by
  rw [Engine.inFlight, Option.bind_eq_some_iff]

theorem bind_inFlight_map {r : Option Running} (f : Running → Running)
    (hf : ∀ x, (f x).inFlight = x.inFlight) :
    (r.map f).bind (·.inFlight) = r.bind (·.inFlight) := by
  cases r with
  | none => rfl
  | some x => exact hf x

/-- The message a section settles, with its agent. -/
def Instr.flight : Instr → Option (Uuid × Uuid)
  | .recordSpend t => t.finished.map fun m => (t.agent, m)
  | .settleTurn t _ _ => t.finished.map fun m => (t.agent, m)
  | .requeueLimited t _ _ => t.finished.map fun m => (t.agent, m)
  | .interruptSettle a m => some (a, m)
  | .requeueInterrupted a m => some (a, m)
  | _ => none

/-- Every message in flight is addressed to the agent whose child runs it. -/
def FlightSound (s : Engine) : Prop := ∀ a m, s.inFlight a = some m → Addressed s.messages m a

/-- What a section settles is addressed to its agent. -/
def FlightNeeds (i : Instr) (s : Engine) : Prop :=
  ∀ a m, i.flight = some (a, m) → Addressed s.messages m a

/-- What the holder of a slot lock writes or settles is addressed to its agent. -/
def FlightHolds (a : Uuid) (h : Phase) (s : Engine) : Prop :=
  match h with
  | .pumpWrite row => Addressed s.messages row.id a
  | .killing _ (some m) => Addressed s.messages m a
  | _ => True

theorem flightNeeds_act {i : Instr} (h : FlightNeeds i s) :
    FlightNeeds i (machine.act c s o).1 :=
  fun a m hm => (h a m hm).evolves (follows_act s o c)

theorem flightHolds_act {a : Uuid} {h : Phase} (hf : FlightHolds a h s) :
    FlightHolds a h (machine.act c s o).1 := by
  have he := follows_act s o c
  unfold FlightHolds at hf ⊢
  split at hf
  · exact hf.evolves he
  · exact hf.evolves he
  · trivial

theorem flight_settlement (t : Turn) (overBudget : Bool) :
    (settlement t overBudget).flight = t.finished.map fun m => (t.agent, m) := by
  unfold settlement
  split <;> rfl

theorem flight_of_isOrdinary {i : Instr} (h : i.isOrdinary = true) : i.flight = none := by
  cases i <;> first | rfl | cases h

/-- Whatever puts a message in flight had it addressed to the agent. -/
theorem flightSound_act (hs : FlightSound s)
    (hh : ∀ a row, c = .later a (.pumpWrite row) → FlightHolds a (.pumpWrite row) s) :
    FlightSound (machine.act c s o).1 := by
  intro a m hm
  have he := follows_act s o c
  rw [Engine.inFlight] at hm
  have hslot := slotAfter_act s o c a
  generalize (machine.act c s o).1.slots a = x at hslot hm
  cases hslot with
  | same => exact (hs a m hm).evolves he
  | taken => cases hm
  | shut => cases hm
  | @named rd sessionId =>
      rw [bind_inFlight_map (seeSession sessionId) fun _ => rfl] at hm
      exact (hs _ m hm).evolves he
  | @limited rd sessionId status window utilization resetsAt =>
      rw [bind_inFlight_map (seeLimit ⟨resetsAt, window⟩) fun _ => rfl] at hm
      exact (hs _ m hm).evolves he
  | ended =>
      obtain ⟨r', hr', hm⟩ := Option.bind_eq_some_iff.mp hm
      obtain ⟨r, -, rfl⟩ := Option.map_eq_some_iff.mp hr'
      cases hm
  | @written _ row hw =>
      obtain ⟨r', hr', hm⟩ := Option.bind_eq_some_iff.mp hm
      obtain ⟨r, -, rfl⟩ := Option.map_eq_some_iff.mp hr'
      obtain rfl : row.id = m := Option.some.inj hm
      exact (hh a row rfl).evolves he
  | spawned => cases hm

/-- What is left to be settled was in flight, or left by who knew its agent. -/
theorem flightNeeds_of_adds (hs : FlightSound s) (hn : ∀ i, c = .first i → FlightNeeds i s)
    (hh : ∀ a h, c = .later a h → FlightHolds a h s) {i : Instr}
    (hi : (machine.act c s o).2.Adds i) : FlightNeeds i (machine.act c s o).1 := by
  apply flightNeeds_act
  rcases brings_act s o hi with hord | hb
  · intro a m hm
    rw [flight_of_isOrdinary hord] at hm
    cases hm
  · cases hb with
    | spend hm' =>
        intro a m hm
        obtain ⟨m', hm', hx⟩ := Option.map_eq_some_iff.mp hm
        cases hx
        exact hs _ m hm'
    | @settlement t overBudget =>
        intro a m hm
        rw [flight_settlement] at hm
        exact hn _ rfl a m hm
    | interrupted =>
        intro a m hm
        cases hm
        exact hh _ _ rfl
    | recycled =>
        intro a m hm
        cases hm
        exact hh _ _ rfl
    | _ =>
        intro a m hm
        cases hm

theorem flightHolds_of_enters (hs : FlightSound s) {k : Uuid} {h : Phase}
    (he : Enters s o c k h) : FlightHolds k h (machine.act c s o).1 := by
  apply flightHolds_act
  cases he with
  | write hr hp =>
      obtain ⟨hmem, hto, -⟩ := mem_of_nextForDelivery hp
      exact ⟨_, Keyed.get?_key hmem, hto⟩
  | @killing b why r hr ha =>
      cases hfl : r.inFlight with
      | none => trivial
      | some m => exact hs k m (inFlight_eq_some_iff.mpr ⟨r, hr, hfl⟩)
  | _ => trivial

/-! ## For whom a message is queued -/

/-- The sections that see to the agent's queue. -/
inductive Tends : Instr → Uuid → Prop
  | deliver {a} : Tends (.deliver a) a
  | parkThenDeliver {a} : Tends (.parkThenDeliver a) a
  | stop {a} : Tends (.take a .stop) a
  | authFailure {a gen} : Tends (.afterAuthFailure a gen) a
  | limit {a signal onFallback strikes overBudget now} :
      Tends (.limitPlan a signal onFallback strikes overBudget now) a

/-- The section leaves somebody to see to the agent's queue. -/
def Tended (nx : Leaves) (a : Uuid) : Prop := ∃ i, nx.Adds i ∧ Tends i a

theorem tended_of_mem {nx : Leaves} {i : Instr} {a : Uuid} (hi : i ∈ nx.follow)
    (ht : Tends i a) : Tended nx a := ⟨i, .inl hi, ht⟩

/-- Whom a section may queue a message for. -/
def Queues (s : Engine) (c : Section Instr Phase Uuid) (nx : Leaves) (a : Uuid) : Prop :=
  Tended nx a ∨ (∃ initialised diagnosed, c = .first (.reapSettle a initialised diagnosed)) ∧
    HasDelivered s a

theorem waits_notifySender (t : MessageTable) (mid : Uuid) :
    Waits (fun a => (notifySender t mid o).2 = some a) t (notifySender t mid o).1 := by
  have hclaim := waits_claimNotification (P := fun a => (notifySender t mid o).2 = some a)
    (t := t) mid
  revert hclaim
  unfold notifySender
  dsimp only
  split
  · exact fun _ => .refl _ t
  · split
    · split
      · split
        · exact id
        · split
          · rename_i t' ht'
            exact fun hclaim => hclaim.trans (waits_enqueue ht' rfl)
          · exact id
      · exact id
    · exact id

theorem mem_deliverTo {a : Uuid} {sender : Option Uuid} (h : sender = some a) :
    Instr.deliver a ∈ deliverTo sender := by
  rw [h]
  exact List.mem_cons_self

/-- Settling a message queues it again for its agent, or a notification. -/
theorem waits_settleFinished {t : Turn}
    (hf : ∀ m, t.finished = some m → Addressed s.messages m t.agent) (ended : TurnEnd) :
    Waits (fun a => a = t.agent ∧ ended = .needsAuth ∨
        (settleFinished s.messages t ended o).2 = some a) s.messages
      (settleFinished s.messages t ended o).1 := by
  unfold settleFinished
  split
  · exact .refl _ _
  · rename_i mid hmid
    cases ended with
    | needsAuth => exact waits_requeueUndelivered (hf mid hmid) (.inl ⟨rfl, rfl⟩) _
    | taskError =>
        exact (waits_markError mid _ o.now).trans ((waits_notifySender _ mid).mono fun _ => .inr)
    | completed =>
        exact (waits_complete mid _ o.now).trans ((waits_notifySender _ mid).mono fun _ => .inr)
    | limited signal => exact .refl _ _

theorem waits_requeueWithinCap {t : Turn}
    (hf : ∀ m, t.finished = some m → Addressed s.messages m t.agent) :
    Waits (fun a => a = t.agent ∨ (requeueWithinCap s.messages t.finished o).2.2 = some a)
      s.messages (requeueWithinCap s.messages t.finished o).1 := by
  cases hmid : t.finished with
  | none => exact .refl _ _
  | some mid =>
      have hlimit := waits_requeueForLimit
        (P := fun a => a = t.agent ∨ (requeueWithinCap s.messages (some mid) o).2.2 = some a)
        (hf mid hmid) (.inl rfl) rateLimitedReason Quota.maxLimitRequeues
      revert hlimit
      unfold requeueWithinCap
      dsimp only
      split
      · rename_i t' done h
        rw [h]
        exact id
      · rename_i t' done h
        rw [h]
        exact fun hlimit => (hlimit.trans (waits_markError mid _ o.now)).trans
          ((waits_notifySender _ mid).mono fun _ => .inr)
      · rename_i t' h
        rw [h]
        exact id

theorem waits_markInterrupted {P : Uuid → Prop} (t : MessageTable)
    (stopping : List (Uuid × Option Uuid)) : Waits P t (markInterrupted t stopping o) := by
  unfold markInterrupted
  generalize stopping.filterMap Prod.snd = mids
  induction mids generalizing t with
  | nil => exact .refl P t
  | cons mid mids ih => exact (waits_markError mid _ _).trans (ih _)

/-- The end of a turn leaves somebody to see to the agent whose message it queued. -/
theorem tended_settleTurn {t : Turn} {overBudget : Bool} :
    Tended (settleTurn s t .needsAuth overBudget o).2 t.agent := by
  cases overBudget with
  | true =>
      refine tended_of_mem (i := .take t.agent .stop) ?_ .stop
      simp [settleTurn, afterSettle, stop]
  | false =>
      refine tended_of_mem (i := .afterAuthFailure t.agent t.gen) ?_ .authFailure
      simp [settleTurn, afterSettle]

theorem queues_exec {i : Instr} (hn : FlightNeeds i s) :
    Waits (Queues s (.first i) (exec i s o).2) s.messages (exec i s o).1.messages := by
  by_cases hp : i.isPlain = true
  · rw [(sameBut_exec s o i hp).messages]
    exact .refl _ _
  cases i with
  | enqueue m =>
      show Waits (Queues s _ (enqueueMessage s m o).2) s.messages
        (enqueueMessage s m o).1.messages
      unfold enqueueMessage
      split
      · exact .refl _ _
      · rename_i t ht
        have henq : Waits (Queues s (.first (.enqueue m)) { follow := [.deliver m.target] })
            s.messages t :=
          waits_enqueue ht (.inl (tended_of_mem List.mem_cons_self .deliver))
        dsimp only [Engine.setMessages_messages]
        split
        · exact henq.trans (waits_requestNotification m.id)
        · exact henq
  | take a why =>
      rw [show (exec (.take a why) s o).1.messages = _ from messages_takeSlot s a o why]
      exact .refl _ _
  | interruptSettle a mid => exact waits_markError mid _ _
  | requeueInterrupted a mid =>
      exact waits_requeueUndelivered (hn a mid rfl)
        (.inl (tended_of_mem List.mem_cons_self .parkThenDeliver)) _
  | event rd ev =>
      rw [show (exec (.event rd ev) s o).1.messages = _ from messages_onEvent s o rd ev]
      exact .refl _ _
  | settleTurn t ended overBudget =>
      rw [show (exec (.settleTurn t ended overBudget) s o).1.messages = _ from
        messages_settleTurn s o t ended overBudget]
      refine (waits_settleFinished ?_ ended).mono ?_
      · intro m hm
        exact hn t.agent m (by rw [Instr.flight, hm]; rfl)
      · rintro a (⟨rfl, rfl⟩ | hsender)
        · exact .inl tended_settleTurn
        · exact .inl (tended_of_mem (List.mem_append_left _ (mem_deliverTo hsender)) .deliver)
  | requeueLimited t signal overBudget =>
      refine (waits_requeueWithinCap ?_).mono ?_
      · intro m hm
        exact hn t.agent m (by rw [Instr.flight, hm]; rfl)
      · rintro a (rfl | hsender)
        · exact .inl ⟨_, .inl (List.mem_append_right _
            (List.mem_cons_of_mem _ List.mem_cons_self)), .limit⟩
        · exact .inl (tended_of_mem (List.mem_append_left _ (mem_deliverTo hsender)) .deliver)
  | reapSettle a initialised diagnosed =>
      rw [show (exec (.reapSettle a initialised diagnosed) s o).1.messages = _ from
        messages_reapSettle s a o initialised diagnosed]
      split
      · apply waits_of_not_queued
        case h => exact fun _ hs => nomatch hs
        all_goals exact fun _ => rfl
      · exact waits_requeueAllUndelivered _ fun h => .inr ⟨⟨_, _, rfl⟩, h⟩
  | resumeEnqueue a =>
      rw [show (exec (.resumeEnqueue a) s o).1.messages = _ from messages_resumeEnqueue s a o]
      split
      · exact .refl _ _
      · cases henq : enqueue s.messages (noteRow o a none) with
        | none => exact .refl _ _
        | some t =>
            exact waits_enqueue henq (.inl (tended_of_mem List.mem_cons_self .parkThenDeliver))
  | shutdownTake slots stopping =>
      rw [show (exec (.shutdownTake slots stopping) s o).1.messages = _ from
        messages_shutdownTake s slots stopping]
      exact .refl _ _
  | shutdownSettle stopping => exact waits_markInterrupted _ stopping
  | _ => first | exact .refl _ _ | exact absurd rfl hp

/-- A section queues a message only for whom it leaves somebody to see to, unless
it reaps. -/
theorem queues_act (hn : ∀ i, c = .first i → FlightNeeds i s) :
    Waits (Queues s c (machine.act c s o).2) s.messages (machine.act c s o).1.messages := by
  cases c with
  | first i => exact queues_exec (hn i rfl)
  | later k h =>
      cases h with
      | startSpawn next =>
          rw [show (machine.act (.later k (.startSpawn next)) s o).1.messages = _ from
            messages_startSpawn s k o next]
          exact .refl _ _
      | pumpQuarantine mid =>
          refine (waits_quarantine mid setAside).trans ((waits_notifySender _ mid).mono ?_)
          intro a hsender
          refine .inl ⟨.deliver a, .inr ⟨[.deliver a], ?_, List.mem_cons_self⟩, .deliver⟩
          exact List.mem_map_of_mem (mem_deliverTo hsender)
      | pumpWrite row =>
          show Waits _ s.messages (pumpWrite s k row o).1.messages
          unfold pumpWrite
          split
          · exact waits_setLastError row.id _
          · exact .refl _ _
      | pumpAdvance mid =>
          exact waits_advanceOrKeep mid (nofun : MessageState.delivered ≠ .queued) o.now
      | _ =>
          rw [(sameBut_act s o (c := .later k _) rfl).messages]
          exact .refl _ _

end Supervisor

end Wheel
