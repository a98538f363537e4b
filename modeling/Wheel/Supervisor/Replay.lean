import Wheel.Concurrency.Once
import Wheel.Db.Requeued
import Wheel.Supervisor.InFlight

/-!
# No replay of a started turn

A message that was written to a child goes back to the queue when the child exits,
when the turn ends on a missing login or a closed usage window, and when a child is
recycled. `Fate` is what became of the child a message was last written to, and
`no_replay` says when a message whose child did neither exit nor turn it away is
not queued and not written again: when a recycle finds the child between turns, a
settled exit finds only messages of children that exited, and a turn is turned away
by the child that ran it. `adopt_replays` has the run in which a recycle that was
decided between two turns takes the child in the next one.
-/

namespace Wheel

namespace Supervisor

open Concurrency Messages

variable {m : Uuid} {t : MessageTable} {s : Engine} {o : Oracle} {c : Section Instr Phase Uuid}

/-! ## Which sections return a message to the queue -/

/-- The section may return message `m` to the queue. -/
def Returns (m : Uuid) (s : Engine) : Section Instr Phase Uuid → Prop
  | .first (.requeueInterrupted _ mid) => mid = m
  | .first (.settleTurn t ended _) => ended = .needsAuth ∧ t.finished = some m
  | .first (.requeueLimited t _ _) => t.finished = some m
  | .first (.reapSettle a _ _) =>
      s.closing = false ∧ ∃ q ∈ s.messages.get? m, q.toId = a ∧ q.state = .delivered
  | _ => False

theorem staysOut_notifySender (t : MessageTable) (mid : Uuid) :
    StaysOut m t (notifySender t mid o).1 := by
  have hclaim : StaysOut m t (claimNotification t mid).1 := staysOut_claimNotification mid
  unfold notifySender
  dsimp only
  split
  · exact .refl m t
  · split
    · split
      · split
        · exact hclaim
        · split
          · rename_i t' ht'
            exact hclaim.trans (staysOut_enqueue ht')
          · exact hclaim
      · exact hclaim
    · exact hclaim

theorem staysOut_settleFinished (t : MessageTable) (turn : Turn) {ended : TurnEnd}
    (h : ¬ (ended = .needsAuth ∧ turn.finished = some m)) :
    StaysOut m t (settleFinished t turn ended o).1 := by
  unfold settleFinished
  split
  · exact .refl m t
  · rename_i mid hfin
    cases ended with
    | needsAuth =>
        refine staysOut_requeueUndelivered (fun hid => h ⟨rfl, ?_⟩) _
        rw [hfin, hid]
    | taskError => exact (staysOut_markError mid _ _).trans (staysOut_notifySender _ mid)
    | completed => exact (staysOut_complete mid _ _).trans (staysOut_notifySender _ mid)
    | limited signal => exact .refl m t

theorem staysOut_requeueWithinCap (t : MessageTable) {finished : Option Uuid}
    (h : finished ≠ some m) : StaysOut m t (requeueWithinCap t finished o).1 := by
  unfold requeueWithinCap
  cases finished with
  | none => exact .refl m t
  | some mid =>
      have hid : mid ≠ m := fun hid => h (congrArg some hid)
      have hlimit : StaysOut m t (requeueForLimit t mid rateLimitedReason
          Quota.maxLimitRequeues).1 := staysOut_requeueForLimit hid _ _
      dsimp only
      split
      · rename_i t' done hr
        rw [hr] at hlimit
        exact hlimit
      · rename_i t' done hr
        rw [hr] at hlimit
        exact (hlimit.trans (staysOut_markError mid _ _)).trans (staysOut_notifySender _ mid)
      · rename_i t' hr
        rw [hr] at hlimit
        exact hlimit

theorem staysOut_markInterrupted (t : MessageTable) (stopping : List (Uuid × Option Uuid)) :
    StaysOut m t (markInterrupted t stopping o) := by
  unfold markInterrupted
  generalize stopping.filterMap Prod.snd = mids
  induction mids generalizing t with
  | nil => exact .refl m t
  | cons mid mids ih => exact (staysOut_markError mid _ _).trans (ih _)

theorem staysOut_enqueueMessage (n : NewMessage) :
    StaysOut m s.messages (enqueueMessage s n o).1.messages := by
  unfold enqueueMessage
  split
  · exact .refl m _
  · rename_i t ht
    dsimp only [Engine.setMessages_messages]
    split
    · exact (staysOut_enqueue ht).trans (staysOut_requestNotification n.id)
    · exact staysOut_enqueue ht

theorem staysOut_exec {i : Instr} (h : ¬ Returns m s (.first i)) :
    StaysOut m s.messages (exec i s o).1.messages := by
  by_cases hp : i.isPlain = true
  · rw [(sameBut_exec s o i hp).messages]
    exact .refl m _
  cases i with
  | enqueue n => exact staysOut_enqueueMessage n
  | take a why => exact (messages_takeSlot s a o why).symm ▸ .refl m _
  | interruptSettle a mid => exact staysOut_markError mid _ _
  | requeueInterrupted a mid => exact staysOut_requeueUndelivered h _
  | event rd ev => exact (messages_onEvent s o rd ev).symm ▸ .refl m _
  | settleTurn t ended overBudget =>
      rw [show (exec (.settleTurn t ended overBudget) s o).1.messages = _ from
        messages_settleTurn s o t ended overBudget]
      exact staysOut_settleFinished s.messages t h
  | requeueLimited t signal overBudget => exact staysOut_requeueWithinCap s.messages h
  | reapSettle a initialised diagnosed =>
      rw [show (exec (.reapSettle a initialised diagnosed) s o).1.messages = _ from
        messages_reapSettle s a o initialised diagnosed]
      split
      · exact staysOut_consumeAll a _ _
      · rename_i hclosing
        refine staysOut_requeueAllUndelivered (fun q hq hto hs => h ?_) _
        exact ⟨by simpa using hclosing, q, hq, hto, hs⟩
  | resumeEnqueue a =>
      rw [show (exec (.resumeEnqueue a) s o).1.messages = _ from messages_resumeEnqueue s a o]
      split
      · exact .refl m _
      · cases ht : enqueue s.messages (noteRow o a none) with
        | none => exact .refl m _
        | some t => exact staysOut_enqueue ht
  | shutdownTake slots stopping =>
      exact (messages_shutdownTake s slots stopping).symm ▸ .refl m _
  | shutdownSettle stopping => exact staysOut_markInterrupted s.messages stopping
  | _ => first | exact .refl m _ | exact absurd rfl hp

/-- A section that does not return the message to the queue leaves it out. -/
theorem staysOut_act (h : ¬ Returns m s c) :
    StaysOut m s.messages (machine.act c s o).1.messages := by
  cases c with
  | first i => exact staysOut_exec h
  | later a p =>
      cases p with
      | startSpawn next => exact (messages_startSpawn s a o next).symm ▸ .refl m _
      | pumpQuarantine mid => exact (staysOut_quarantine mid _).trans (staysOut_notifySender _ mid)
      | pumpWrite row =>
          show StaysOut m s.messages (pumpWrite s a row o).1.messages
          unfold pumpWrite
          split
          · exact staysOut_setLastError row.id _
          · exact .refl m _
      | pumpAdvance mid =>
          exact staysOut_advanceOrKeep mid (nofun : MessageState.delivered ≠ .queued) o.now
      | _ =>
          rw [(sameBut_act s o (c := .later a _) rfl).messages]
          exact .refl m _

/-! ## The fate of a message -/

/-- What became of the child a message was last written to. -/
inductive Fate where
  /-- Nothing was written. -/
  | fresh
  /-- The message was written, and nothing below happened since. -/
  | started
  /-- The child exited on its own before it reported a result. -/
  | exited
  /-- The child reported a missing login or a closed usage window for it. -/
  | refused
  deriving DecidableEq

/-- A missing login and a closed window send the message of a turn back. -/
def refuses : TurnEnd → Bool
  | .needsAuth | .limited _ => true
  | _ => false

/-- The fate a section gives to a message. -/
def fateOf (s : Engine) (o : Oracle) : Section Instr Phase Uuid → Option (Uuid × Fate)
  | .later _ (.pumpWrite row) => if o.writeError.isNone then some (row.id, .started) else none
  | .first (.take a (.exit run _)) =>
      (s.slots a).bind fun r =>
        if r.runId = run then r.inFlight.map fun m => (m, .exited) else none
  | .first (.event rd (.result sessionId isError text turns costUsd)) =>
      (s.slots rd.agent).bind fun r =>
        if sessionMatches r.sessionId sessionId = true ∧ r.runId = rd.run ∧
            refuses (turnEnd (turnOf rd (some r) isError text turns costUsd)) = true then
          r.inFlight.map fun m => (m, .refused)
        else none
  | _ => none

/-- The supervisor, with the fates of the messages beside it. -/
structure Tracked where
  pool : State
  fate : Uuid → Fate

def mark (fate : Uuid → Fate) : Option (Uuid × Fate) → Uuid → Fate
  | none => fate
  | some (m, f) => Function.update fate m f

def Tracked.messages (q : Tracked) : MessageTable := q.pool.shared.messages

/-- One step, and the fate it gives to a message. -/
def trackStep (q : Tracked) (e : Event) : Tracked where
  pool := q.pool.step machine e
  fate :=
    match q.pool.due machine e with
    | some (c, _, _, o) => mark q.fate (fateOf q.pool.shared o c)
    | none => q.fate

/-- An engine at rest that wrote no message. -/
def trackFrom (t : MessageTable) : Tracked := ⟨Pool.idle (Engine.fresh t), fun _ => .fresh⟩

/-- The step neither writes nor queues a message again whose child did not exit on
its own and did not refuse it. -/
def NoReplay (q : Tracked) (e : Event) : Prop :=
  (∀ d ∈ (trackStep q e).pool.shared.written.drop q.pool.shared.written.length,
    q.fate d.message.id ≠ .started) ∧
  ∀ r ∈ (trackStep q e).messages.rows, r.state = .queued → q.fate r.id = .started →
    IsQueued q.messages r.id

instance (t : MessageTable) (m : Uuid) : Decidable (IsQueued t m) := by
  unfold IsQueued
  infer_instance

instance (q : Tracked) (e : Event) : Decidable (NoReplay q e) := by
  unfold NoReplay
  infer_instance

/-- A recycle finds the child between turns, a settled exit finds only messages
whose own child exited, and a turn is refused by the child that runs it. -/
def Spared (q : Tracked) : Section Instr Phase Uuid → Prop
  | .first (.take a .recycle) => q.pool.shared.inFlight a = none
  | .first (.reapSettle a _ _) =>
      q.pool.shared.closing = false → ∀ r ∈ q.messages.rows, r.toId = a →
        r.state = .delivered → q.fate r.id = .fresh ∨ q.fate r.id = .exited
  | .first (.event rd (.result sessionId isError text turns costUsd)) =>
      ∀ r ∈ q.pool.shared.slots rd.agent, sessionMatches r.sessionId sessionId = true →
        refuses (turnEnd (turnOf rd (some r) isError text turns costUsd)) = true →
          r.inFlight.isSome = true → r.runId = rd.run
  | _ => True

/-- The section settles a turn that refused message `m`. -/
def Instr.refusal (m : Uuid) : Instr → Bool
  | .recordSpend t => refuses (turnEnd t) && t.finished = some m
  | .settleTurn t ended _ => ended = .needsAuth && t.finished = some m
  | .requeueLimited t _ _ => t.finished = some m
  | _ => false

theorem refusal_of_isOrdinary {i : Instr} (h : i.isOrdinary = true) : i.refusal m = false := by
  cases i with
  | recordSpend t => cases h
  | settleTurn t ended overBudget => cases h
  | requeueLimited t signal overBudget => cases h
  | _ => rfl

/-! ## The invariant -/

/-- What holds of the fates, whatever was executed. -/
structure Sound (q : Tracked) : Prop where
  flight : FlightSound q.pool.shared
  running : ∀ a m, q.pool.shared.inFlight a = some m → q.fate m = .started
  known : ∀ m, q.fate m ≠ .fresh → (q.messages.get? m).isSome = true
  /-- A started message is queued only until its delivery is recorded. -/
  recording : ∀ m, IsQueued q.messages m → q.fate m = .started →
    ∃ a, Addressed q.messages m a ∧ q.pool.holder a = some (.pumpAdvance m)
  writing : ∀ a row, q.pool.holder a = some (.pumpWrite row) →
    Addressed q.messages row.id a ∧ q.fate row.id ≠ .started
  /-- A refused turn is settled once, before its message is delivered again. -/
  refused : ∀ i m, q.pool.Has i → i.refusal m = true →
    q.fate m = .refused ∧ ¬ IsQueued q.messages m ∧
      ∀ a row, q.pool.holder a = some (.pumpWrite row) → row.id ≠ m
  one : ∀ m, AtMostOne (Instr.refusal m) q.pool
  recycled : ∀ a m, ¬ q.pool.Has (.requeueInterrupted a m)
  recycling : ∀ a m, q.pool.holder a ≠ some (.killing .recycle (some m))

theorem sound_trackFrom (t : MessageTable) : Sound (trackFrom t) where
  flight a m h := by cases h
  running a m h := by cases h
  known m h := absurd rfl h
  recording m _ h := by cases h
  writing a row h := by cases h
  refused i m h := by
    rcases h with ⟨t, ht, -⟩ | ⟨k, h, t, hk, -⟩
    · cases ht
    · cases hk
  one m := atMostOne_idle _ _
  recycled a m h := by
    rcases h with ⟨t, ht, -⟩ | ⟨k, h, t, hk, -⟩
    · cases ht
    · cases hk
  recycling a m h := by cases h

/-- Only a write starts a message, and only who ends the turn of the message in
flight gives it another fate. -/
theorem fateOf_cases {f : Fate} (h : fateOf s o c = some (m, f)) :
    (∃ a row, c = .later a (.pumpWrite row) ∧ o.writeError = none ∧ row.id = m ∧
      f = .started) ∨
    ∃ a, machine.lockOf c = some a ∧ s.inFlight a = some m ∧
      (machine.act c s o).1.inFlight a = none ∧ f ≠ .started ∧ f ≠ .fresh := by
  cases c with
  | later a p =>
      cases p with
      | pumpWrite row =>
          simp only [fateOf] at h
          split at h
          · rename_i hw
            cases h
            exact .inl ⟨a, row, rfl, by simpa using hw, rfl, rfl⟩
          · cases h
      | _ => cases h
  | first i =>
      right
      cases i with
      | take a why =>
          cases why with
          | exit run initialised =>
              obtain ⟨r, hr, h⟩ := Option.bind_eq_some_iff.mp h
              split at h
              · rename_i hrun
                obtain ⟨m', hm, hx⟩ := Option.map_eq_some_iff.mp h
                cases hx
                refine ⟨a, rfl, inFlight_eq_some_iff.mpr ⟨r, hr, hm⟩, ?_,
                  (fun h => by cases h), (fun h => by cases h)⟩
                show (takeSlot s a (.exit run initialised) o).1.inFlight a = none
                unfold takeSlot
                rw [hr]
                dsimp only
                rw [if_pos (by simpa [Taking.admits] using hrun)]
                simp [Engine.inFlight]
              · cases h
          | _ => cases h
      | event rd ev =>
          cases ev with
          | result sessionId isError text turns costUsd =>
              obtain ⟨r, hr, h⟩ := Option.bind_eq_some_iff.mp h
              split at h
              · rename_i hcond
                obtain ⟨m', hm, hx⟩ := Option.map_eq_some_iff.mp h
                cases hx
                refine ⟨rd.agent, rfl, inFlight_eq_some_iff.mpr ⟨r, hr, hm⟩, ?_,
                  (fun h => by cases h), (fun h => by cases h)⟩
                show (onEvent s rd (.result sessionId isError text turns costUsd) o).1.inFlight
                  rd.agent = none
                unfold onEvent
                dsimp only
                rw [hr, Option.bind_some, if_neg (by simpa using hcond.1)]
                simp [Engine.inFlight, afterResult]
              · cases h
          | _ => cases h
      | _ => cases h

/-- Only a write puts a message in flight. -/
theorem inFlight_act_cases {a : Uuid} (h : (machine.act c s o).1.inFlight a = some m) :
    s.inFlight a = some m ∨
      ∃ row, c = .later a (.pumpWrite row) ∧ o.writeError = none ∧ row.id = m := by
  rw [Engine.inFlight] at h
  have hslot := slotAfter_act s o c a
  generalize (machine.act c s o).1.slots a = x at hslot h
  cases hslot with
  | same => exact .inl h
  | taken => cases h
  | shut => cases h
  | @named rd sessionId =>
      rw [bind_inFlight_map (seeSession sessionId) fun _ => rfl] at h
      exact .inl h
  | @limited rd sessionId status window utilization resetsAt =>
      rw [bind_inFlight_map (seeLimit ⟨resetsAt, window⟩) fun _ => rfl] at h
      exact .inl h
  | ended =>
      obtain ⟨r', hr', h⟩ := Option.bind_eq_some_iff.mp h
      obtain ⟨r, -, rfl⟩ := Option.map_eq_some_iff.mp hr'
      cases h
  | @written _ row hw =>
      obtain ⟨r', hr', h⟩ := Option.bind_eq_some_iff.mp h
      obtain ⟨r, -, rfl⟩ := Option.map_eq_some_iff.mp hr'
      exact .inr ⟨row, rfl, hw, Option.some.inj h⟩
  | spawned => cases h

/-- What refuses a message waited before, or the section is the result that refused
the message in flight. -/
theorem refusal_of_adds {i : Instr} (hi : (machine.act c s o).2.Adds i)
    (hm : i.refusal m = true) :
    (∃ j, c = .first j ∧ j.refusal m = true) ∨
      ∃ rd sessionId isError text turns costUsd,
        c = .first (.event rd (.result sessionId isError text turns costUsd)) ∧
        sessionMatches ((s.slots rd.agent).bind (·.sessionId)) sessionId = true ∧
        refuses (turnEnd (turnOf rd (s.slots rd.agent) isError text turns costUsd)) = true ∧
        s.inFlight rd.agent = some m := by
  rcases brings_act s o hi with hord | hb
  · rw [refusal_of_isOrdinary hord] at hm
    cases hm
  · cases hb with
    | @spend rd sessionId isError text turns costUsd hs =>
        obtain ⟨hrefuses, hfin⟩ := Bool.and_eq_true_iff.mp hm
        exact .inr ⟨rd, sessionId, isError, text, turns, costUsd, rfl, hs, hrefuses,
          of_decide_eq_true hfin⟩
    | @settlement t overBudget =>
        refine .inl ⟨_, rfl, ?_⟩
        unfold settlement at hm
        split at hm
        · rename_i hend
          simpa [Instr.refusal, hend, refuses] using hm
        · simp [Instr.refusal] at hm
        · simp [Instr.refusal] at hm
        · rename_i hend
          simpa [Instr.refusal, hend, refuses] using hm
    | _ => cases hm

/-- What refuses a message is left alone. -/
theorem leaves_one {i : Instr} (hi : (machine.act c s o).2.Adds i) (hm : i.refusal m = true) :
    ∃ j, (machine.act c s o).2 = { follow := [j] } := by
  rcases brings_act s o hi with hord | hb
  · rw [refusal_of_isOrdinary hord] at hm
    cases hm
  · cases hb with
    | @spend rd sessionId isError text turns costUsd hs =>
        refine ⟨.recordSpend (turnOf rd (s.slots rd.agent) isError text turns costUsd), ?_⟩
        show (onEvent s rd (.result sessionId isError text turns costUsd) o).2 = _
        unfold onEvent
        dsimp only
        rw [if_neg (by simpa using hs)]
    | settlement => exact ⟨_, rfl⟩
    | _ => cases hm

variable {q : Tracked} {tasks : List (List Instr)} {rest : List Instr} {e : Event}

theorem Sound.fate_of_pending (h : Sound q)
    (hd : q.pool.due machine e = some (c, tasks, rest, o)) (hc : c.meets (Instr.refusal m) = true) :
    q.fate m = .refused := by
  cases c with
  | first i => exact (h.refused i m (Pool.has_of_due_first hd) hc).1
  | later a p => cases hc

/-- A started or a refused message is returned to the queue by the section that
settles its refused turn, and by none else. -/
theorem Sound.meets_of_returns (h : Sound q)
    (hd : q.pool.due machine e = some (c, tasks, rest, o)) (hc : Spared q c)
    (hm : q.fate m = .started ∨ q.fate m = .refused) (hr : Returns m q.pool.shared c) :
    c.meets (Instr.refusal m) = true ∧
      ∀ i, (machine.act c q.pool.shared o).2.Adds i → i.refusal m = false := by
  cases c with
  | later a p => cases hr
  | first i =>
      cases i with
      | requeueInterrupted a mid => exact absurd (Pool.has_of_due_first hd) (h.recycled a mid)
      | settleTurn t ended overBudget =>
          refine ⟨by simpa [Section.meets, Instr.refusal, Returns] using hr, fun i hi => ?_⟩
          rcases brings_act _ _ hi with hord | hb
          · exact refusal_of_isOrdinary hord
          · cases hb
      | requeueLimited t signal overBudget =>
          refine ⟨by simpa [Section.meets, Instr.refusal, Returns] using hr, fun i hi => ?_⟩
          rcases brings_act _ _ hi with hord | hb
          · exact refusal_of_isOrdinary hord
          · cases hb
      | reapSettle a initialised diagnosed =>
          obtain ⟨hclosing, r, hr, hto, hs⟩ := hr
          obtain ⟨hmem, hid⟩ := Keyed.get?_eq_some_iff.mp hr
          have hfate := hc hclosing r hmem hto hs
          rw [show r.id = m from hid] at hfate
          rcases hm with hm | hm <;> rcases hfate with hf | hf <;> rw [hm] at hf <;> cases hf
      | _ => cases hr

/-! ## A section that is executed -/

theorem pool_trackStep (hd : q.pool.due machine e = some (c, tasks, rest, o)) :
    (trackStep q e).pool =
      q.pool.place (machine.lockOf c) tasks rest (machine.act c q.pool.shared o) :=
  Pool.step_of_due hd

theorem shared_trackStep (hd : q.pool.due machine e = some (c, tasks, rest, o)) :
    (trackStep q e).pool.shared = (machine.act c q.pool.shared o).1 := by
  rw [pool_trackStep hd, Pool.shared_place]

theorem messages_trackStep (hd : q.pool.due machine e = some (c, tasks, rest, o)) :
    (trackStep q e).messages = (machine.act c q.pool.shared o).1.messages :=
  congrArg Engine.messages (shared_trackStep hd)

theorem holder_trackStep (hd : q.pool.due machine e = some (c, tasks, rest, o)) (k : Uuid) :
    (trackStep q e).pool.holder k =
      if machine.lockOf c = some k then (machine.act c q.pool.shared o).2.hold
      else q.pool.holder k := by
  rw [pool_trackStep hd, Pool.holder_place]
  rfl

/-- The fate of a message after a section. -/
theorem fate_trackStep (hd : q.pool.due machine e = some (c, tasks, rest, o)) (m : Uuid) :
    (trackStep q e).fate m = q.fate m ∨
      (∃ a row, c = .later a (.pumpWrite row) ∧ o.writeError = none ∧ row.id = m ∧
        (trackStep q e).fate m = .started) ∨
      ∃ a, machine.lockOf c = some a ∧ q.pool.shared.inFlight a = some m ∧
        (trackStep q e).pool.shared.inFlight a = none ∧
        (trackStep q e).fate m ≠ .started ∧ (trackStep q e).fate m ≠ .fresh := by
  have hfate : (trackStep q e).fate = mark q.fate (fateOf q.pool.shared o c) := by
    simp only [trackStep, hd]
  rw [hfate, shared_trackStep hd]
  cases hf : fateOf q.pool.shared o c with
  | none => exact .inl rfl
  | some x =>
      obtain ⟨m', f⟩ := x
      by_cases hm : m = m'
      · subst hm
        right
        rw [mark, Function.update_self]
        exact fateOf_cases hf
      · rw [mark, Function.update_of_ne hm]
        exact .inl rfl

theorem addressed_trackStep (hd : q.pool.due machine e = some (c, tasks, rest, o)) {a : Uuid}
    (ha : Addressed q.messages m a) : Addressed (trackStep q e).messages m a := by
  rw [messages_trackStep hd]
  exact ha.evolves (follows_act q.pool.shared o c)

namespace Sound

variable (h : Sound q) (hd : q.pool.due machine e = some (c, tasks, rest, o))
include h hd

theorem flightHolds_pumpWrite (a : Uuid) (row : MessageRow) (hw : c = .later a (.pumpWrite row)) :
    FlightHolds a (.pumpWrite row) q.pool.shared := by
  subst hw
  exact (h.writing a row (Pool.holder_of_due_later hd)).1

theorem flight_step : FlightSound (trackStep q e).pool.shared := by
  rw [shared_trackStep hd]
  exact flightSound_act h.flight (h.flightHolds_pumpWrite hd)

/-- What is in flight was written, and nothing ended its turn since. -/
theorem running_step (a m : Uuid) (hm : (trackStep q e).pool.shared.inFlight a = some m) :
    (trackStep q e).fate m = .started := by
  have hbefore : q.pool.shared.inFlight a = some m ∨
      ∃ row, c = .later a (.pumpWrite row) ∧ o.writeError = none ∧ row.id = m := by
    rw [shared_trackStep hd] at hm
    exact inFlight_act_cases hm
  rcases hbefore with hfl | ⟨row, rfl, hw, rfl⟩
  · rcases fate_trackStep hd m with hf | ⟨-, -, -, -, -, hf⟩ | ⟨a', -, hfl', hnone, -⟩
    · rw [hf]
      exact h.running a m hfl
    · exact hf
    · obtain rfl : a' = a := (h.flight a' m hfl').unique (h.flight a m hfl)
      rw [hnone] at hm
      cases hm
  · have hmark : (trackStep q e).fate = mark q.fate (some (row.id, .started)) := by
      simp [trackStep, hd, fateOf, hw]
    rw [hmark]
    exact Function.update_self _ _ _

theorem known_step (m : Uuid) (hm : (trackStep q e).fate m ≠ .fresh) :
    ((trackStep q e).messages.get? m).isSome = true := by
  have hsome : ∀ a, Addressed q.messages m a → ((trackStep q e).messages.get? m).isSome = true := by
    intro a ha
    obtain ⟨r, hr, -⟩ := addressed_trackStep hd ha
    rw [hr]
    rfl
  rcases fate_trackStep hd m with hf | ⟨a, row, rfl, -, rfl, -⟩ | ⟨a, -, hfl, -⟩
  · obtain ⟨r, hr⟩ := Option.isSome_iff_exists.mp (h.known m (hf ▸ hm))
    exact hsome r.toId ⟨r, hr, rfl⟩
  · exact hsome a (h.writing a row (Pool.holder_of_due_later hd)).1
  · exact hsome a (h.flight a m hfl)

/-- A started message that no section returns stays out of the queue. -/
theorem staysOut_of_started (hc : Spared q c) (hm : q.fate m = .started) :
    StaysOut m q.messages (trackStep q e).messages := by
  rw [messages_trackStep hd]
  refine staysOut_act fun hr => ?_
  have hpending := h.fate_of_pending hd (h.meets_of_returns hd hc (.inl hm) hr).1
  rw [hm] at hpending
  cases hpending

/-- The holder of a lock that the section does not need stays. -/
theorem recording_step (hc : Spared q c) (m : Uuid) (hqueued : IsQueued (trackStep q e).messages m)
    (hm : (trackStep q e).fate m = .started) :
    ∃ a, Addressed (trackStep q e).messages m a ∧
      (trackStep q e).pool.holder a = some (.pumpAdvance m) := by
  rcases fate_trackStep hd m with hf | ⟨a, row, rfl, hw, rfl, -⟩ | ⟨-, -, -, -, hne, -⟩
  · have hstarted : q.fate m = .started := hf ▸ hm
    have hsome := h.known m (by rw [hstarted]; exact nofun)
    obtain ⟨a, ha, hheld⟩ :=
      h.recording m ((h.staysOut_of_started hd hc hstarted hsome).2 hqueued) hstarted
    refine ⟨a, addressed_trackStep hd ha, ?_⟩
    rw [holder_trackStep hd]
    split
    · rename_i hl
      -- Only the holder itself runs on: it recorded the delivery.
      exfalso
      cases c with
      | first i =>
          rw [Pool.holder_of_due_first hd hl] at hheld
          cases hheld
      | later k p =>
          cases hl
          rw [Pool.holder_of_due_later hd] at hheld
          cases hheld
          rw [messages_trackStep hd] at hqueued
          exact not_isQueued_deliver m o.now hqueued
    · exact hheld
  · refine ⟨a, addressed_trackStep hd (h.writing a row (Pool.holder_of_due_later hd)).1, ?_⟩
    rw [holder_trackStep hd, if_pos (show machine.lockOf (.later a (.pumpWrite row)) = some a
      from rfl)]
    show (pumpWrite q.pool.shared a row o).2.hold = _
    rw [pumpWrite, hw]
  · exact absurd hm hne

/-- A started message is picked again only after it was queued again. -/
theorem writing_step (a : Uuid) (row : MessageRow)
    (hheld : (trackStep q e).pool.holder a = some (.pumpWrite row)) :
    Addressed (trackStep q e).messages row.id a ∧ (trackStep q e).fate row.id ≠ .started := by
  rw [holder_trackStep hd] at hheld
  split at hheld
  · rename_i hl
    have hent := enters_act q.pool.shared o hl hheld
    cases hent with
    | @write _ r _ hs hpick =>
        obtain ⟨hmem, hto, hqueued⟩ := mem_of_nextForDelivery hpick
        have ha : Addressed q.messages row.id a := ⟨row, Keyed.get?_key hmem, hto⟩
        refine ⟨addressed_trackStep hd ha, fun hm => ?_⟩
        rcases fate_trackStep hd row.id with hf | ⟨b, row', hc, -⟩ | ⟨b, -, -, -, hne, -⟩
        · obtain ⟨b, hb, hadvance⟩ :=
            h.recording row.id ⟨row, Keyed.get?_key hmem, hqueued⟩ (hf ▸ hm)
          obtain rfl := ha.unique hb
          rw [Pool.holder_of_due_later hd] at hadvance
          cases hadvance
        · cases hc
        · exact hne hm
  · rename_i hl
    obtain ⟨ha, hne⟩ := h.writing a row hheld
    refine ⟨addressed_trackStep hd ha, fun hm => ?_⟩
    rcases fate_trackStep hd row.id with hf | ⟨b, row', rfl, -, hid, -⟩ | ⟨b, -, -, -, hne', -⟩
    · exact hne (hf ▸ hm)
    · have hb := (h.writing b row' (Pool.holder_of_due_later hd)).1
      obtain rfl := ha.unique (hid ▸ hb)
      exact hl rfl
    · exact hne' hm

/-- A refused message whose turn is still to be settled keeps waiting out of the queue. -/
theorem pending_step (hc : Spared q c) (hfate : q.fate m = .refused)
    (hout : ¬ IsQueued q.messages m)
    (hwriter : ∀ a row, q.pool.holder a = some (.pumpWrite row) → row.id ≠ m)
    (hr : ¬ Returns m q.pool.shared c) :
    (trackStep q e).fate m = .refused ∧ ¬ IsQueued (trackStep q e).messages m ∧
      ∀ a row, (trackStep q e).pool.holder a = some (.pumpWrite row) → row.id ≠ m := by
  refine ⟨?_, fun hqueued => ?_, fun a row hheld hid => ?_⟩
  · rcases fate_trackStep hd m with hf | ⟨a, row, rfl, -, hid, -⟩ | ⟨a, -, hfl, -⟩
    · rw [hf, hfate]
    · exact absurd hid (hwriter a row (Pool.holder_of_due_later hd))
    · have hrunning := h.running a m hfl
      rw [hfate] at hrunning
      cases hrunning
  · rw [messages_trackStep hd] at hqueued
    exact hout ((staysOut_act hr (h.known m (by rw [hfate]; exact nofun))).2 hqueued)
  · rw [holder_trackStep hd] at hheld
    split at hheld
    · rename_i hl
      have hent := enters_act q.pool.shared o hl hheld
      cases hent with
      | write hs hpick =>
          obtain ⟨hmem, -, hqueued⟩ := mem_of_nextForDelivery hpick
          exact hout ⟨row, hid ▸ Keyed.get?_key hmem, hqueued⟩
    · exact hwriter a row hheld hid

/-- A result that refuses the message in flight. -/
theorem refused_of_result {rd : Reader} {sessionId : Option String} {isError : Bool}
    {text : Option String} {turns : Option ℕ} {costUsd : Option ℚ}
    (hce : c = .first (.event rd (.result sessionId isError text turns costUsd)))
    (hc : Spared q c)
    (hsession : sessionMatches ((q.pool.shared.slots rd.agent).bind (·.sessionId)) sessionId = true)
    (hrefuses : refuses (turnEnd (turnOf rd (q.pool.shared.slots rd.agent) isError text turns
      costUsd)) = true)
    (hfl : q.pool.shared.inFlight rd.agent = some m) :
    (trackStep q e).fate m = .refused ∧ ¬ IsQueued (trackStep q e).messages m ∧
      ∀ a row, (trackStep q e).pool.holder a = some (.pumpWrite row) → row.id ≠ m := by
  subst hce
  have hstarted := h.running rd.agent m hfl
  have hfree := Pool.holder_of_due_first hd (k := rd.agent) rfl
  refine ⟨?_, fun hqueued => ?_, fun a row hheld hid => ?_⟩
  · obtain ⟨r, hr, hm⟩ := inFlight_eq_some_iff.mp hfl
    rw [hr] at hsession hrefuses
    have hrun := hc r hr hsession hrefuses (by rw [hm]; rfl)
    have hmark : fateOf q.pool.shared o (.first (.event rd (.result sessionId isError text turns
        costUsd))) = some (m, .refused) := by
      simp only [fateOf, hr, Option.bind_some]
      rw [if_pos ⟨hsession, hrun, hrefuses⟩, hm]
      rfl
    have hfate : (trackStep q e).fate = mark q.fate (some (m, .refused)) := by
      simp only [trackStep, hd, hmark]
    rw [hfate]
    exact Function.update_self _ _ _
  · have hsame : (trackStep q e).messages = q.messages :=
      (messages_trackStep hd).trans
        (messages_onEvent q.pool.shared o rd (.result sessionId isError text turns costUsd))
    rw [hsame] at hqueued
    obtain ⟨a, ha, hadvance⟩ := h.recording m hqueued hstarted
    obtain rfl := ha.unique (h.flight rd.agent m hfl)
    rw [hfree] at hadvance
    cases hadvance
  · rw [holder_trackStep hd] at hheld
    split at hheld
    · rename_i hl
      cases enters_act q.pool.shared o hl hheld
    · exact (h.writing a row hheld).2 (hid ▸ hstarted)

theorem refused_step (hc : Spared q c) (i : Instr) (m : Uuid)
    (hi : (trackStep q e).pool.Has i) (hm : i.refusal m = true) :
    (trackStep q e).fate m = .refused ∧ ¬ IsQueued (trackStep q e).messages m ∧
      ∀ a row, (trackStep q e).pool.holder a = some (.pumpWrite row) → row.id ≠ m := by
  by_cases hr : Returns m q.pool.shared c ∧ q.fate m = .refused
  · -- The settlement of the turn was the only one, and it was executed.
    obtain ⟨hmeets, hadds⟩ := h.meets_of_returns hd hc (.inr hr.2) hr.1
    have hnone := (h.one m).executed hd hmeets hadds hi
    rw [hm] at hnone
    cases hnone
  have hkeeps : ∀ j, q.pool.Has j → j.refusal m = true → _ := fun j hj hjm =>
    let hj := h.refused j m hj hjm
    h.pending_step hd hc hj.1 hj.2.1 hj.2.2 fun hret => hr ⟨hret, hj.1⟩
  rw [pool_trackStep hd, Pool.has_place_iff] at hi
  rcases hi with hi | hi
  · exact hkeeps i (Pool.has_of_stays hd hi) hm
  · rcases refusal_of_adds hi hm with ⟨j, rfl, hj⟩ |
      ⟨rd, sessionId, isError, text, turns, costUsd, hce, hsession, hrefuses, hfl⟩
    · exact hkeeps j (Pool.has_of_due_first hd) hj
    · exact h.refused_of_result hd hce hc hsession hrefuses hfl

/-- A refused turn waits to be settled once. -/
theorem one_step (m : Uuid) : AtMostOne (Instr.refusal m) (trackStep q e).pool := by
  have hadds : ∀ i, (machine.act c q.pool.shared o).2.Adds i → i.refusal m = true →
      c.meets (Instr.refusal m) = true ∨ ∀ j, q.pool.Has j → j.refusal m = false := by
    intro i hi hm
    rcases refusal_of_adds hi hm with ⟨j, rfl, hj⟩ |
      ⟨rd, sessionId, isError, text, turns, costUsd, -, -, -, hfl⟩
    · exact .inl hj
    · refine .inr fun j hj => Bool.eq_false_iff.mpr fun hjm => ?_
      have hrunning := h.running rd.agent m hfl
      rw [(h.refused j m hj hjm).1] at hrunning
      cases hrunning
  by_cases hnone : ∀ i, (machine.act c q.pool.shared o).2.Adds i → i.refusal m = false
  · refine (h.one m).step hd (fun t ht i hi => hnone i (.inr ⟨t, ht, hi⟩))
      (fun i hi => hnone i (.inl (List.mem_of_mem_tail hi))) (fun _ _ i hi => hnone i (.inl hi)) ?_
    intro hhead
    rw [headMeets_eq_false fun i hi => hnone i (.inl hi)] at hhead
    cases hhead
  · push Not at hnone
    obtain ⟨i, hi, hm⟩ := hnone
    have hm : i.refusal m = true := by simpa using hm
    obtain ⟨j, hnx⟩ := leaves_one hi hm
    refine (h.one m).step hd ?_ ?_ ?_ fun _ => hadds i hi hm
    · rw [hnx]
      exact fun t ht => by cases ht
    · rw [hnx]
      exact fun i hi => by cases hi
    · rw [hnx]
      exact fun x hx => by cases hx

theorem recycled_step (a m : Uuid) : ¬ (trackStep q e).pool.Has (.requeueInterrupted a m) := by
  intro hi
  rw [pool_trackStep hd, Pool.has_place_iff] at hi
  rcases hi with hi | hi
  · exact h.recycled a m (Pool.has_of_stays hd hi)
  · rcases brings_act _ _ hi with hord | hb
    · cases hord
    · generalize hj : Instr.requeueInterrupted a m = j at hb
      cases hb with
      | recycled =>
          cases hj
          exact h.recycling a m (Pool.holder_of_due_later hd)
      | settlement =>
          unfold settlement at hj
          split at hj <;> cases hj
      | _ => cases hj

/-- A recycle takes no child with a message in flight. -/
theorem recycling_step (hc : Spared q c) (a m : Uuid) :
    (trackStep q e).pool.holder a ≠ some (.killing .recycle (some m)) := by
  intro hheld
  rw [holder_trackStep hd] at hheld
  split at hheld
  · rename_i hl
    have hent := enters_act q.pool.shared o hl hheld
    generalize hp : Phase.killing .recycle (some m) = p at hent
    cases hent with
    | @killing b why r hs hr =>
        injection hp with hwhy hmid
        subst hwhy
        have hfree : q.pool.shared.inFlight a = none := hc
        rw [Engine.inFlight, hs, Option.bind_some, ← hmid] at hfree
        cases hfree
    | _ => cases hp
  · exact h.recycling a m hheld

theorem step_due (hc : Spared q c) : Sound (trackStep q e) where
  flight := h.flight_step hd
  running := h.running_step hd
  known := h.known_step hd
  recording := h.recording_step hd hc
  writing := h.writing_step hd
  refused := h.refused_step hd hc
  one := h.one_step hd
  recycled := h.recycled_step hd
  recycling := h.recycling_step hd hc

end Sound

/-! ## The runs -/

/-- A call settles no turn and returns no message of a recycled child. -/
theorem avoids_task (call : Call) (m : Uuid) : Avoids (Instr.refusal m) call.task := by
  intro i hi
  cases call with
  | adopt readers =>
      obtain ⟨a, -, rfl⟩ := List.mem_map.mp hi
      rfl
  | _ =>
      simp only [Call.task, stop, clearContext, List.cons_append, List.nil_append, List.mem_cons,
        List.not_mem_nil, or_false] at hi
      rcases hi with rfl | rfl | rfl <;> rfl

theorem requeueInterrupted_notMem (call : Call) (a m : Uuid) :
    .requeueInterrupted a m ∉ call.task := by
  cases call <;> simp [Call.task, stop, clearContext]

/-- The step starts no task but a call, and the section it executes is spared. -/
def SparedStep (q : Tracked) (e : Event) : Prop :=
  q.pool.Meets machine IsCall (fun _ c _ => Spared q c) e

theorem Sound.call (h : Sound q) (call : Call) :
    Sound ⟨{ q.pool with tasks := q.pool.tasks ++ [call.task] }, q.fate⟩ where
  flight := h.flight
  running := h.running
  known := h.known
  recording := h.recording
  writing := h.writing
  refused i m hi hm := by
    refine h.refused i m ?_ hm
    rcases hi with ⟨t, ht, hi⟩ | hi
    · rcases List.mem_append.mp ht with ht | ht
      · exact .inl ⟨t, ht, hi⟩
      · rw [List.mem_singleton.mp ht] at hi
        rw [avoids_task call m i hi] at hm
        cases hm
    · exact .inr hi
  one m := (h.one m).call (avoids_task call m)
  recycled a m hi := by
    rcases hi with ⟨t, ht, hi⟩ | hi
    · rcases List.mem_append.mp ht with ht | ht
      · exact h.recycled a m (.inl ⟨t, ht, hi⟩)
      · rw [List.mem_singleton.mp ht] at hi
        exact requeueInterrupted_notMem call a m hi
    · exact h.recycled a m (.inr hi)
  recycling := h.recycling

theorem trackStep_of_not_due (hd : q.pool.due machine e = none) :
    trackStep q e = ⟨q.pool.step machine e, q.fate⟩ := by
  simp only [trackStep, hd]

theorem Sound.step (h : Sound q) (he : SparedStep q e) : Sound (trackStep q e) := by
  rcases Pool.step_cases machine q.pool e with
    ⟨c, tasks, rest, o, hd, -⟩ | ⟨hd, ⟨t, rfl, hs⟩ | hs⟩
  · exact h.step_due hd (he.due hd)
  · obtain ⟨call, rfl⟩ := Pool.Meets.call he
    rw [trackStep_of_not_due hd, hs]
    exact h.call call
  · rw [trackStep_of_not_due hd, hs]
    exact h

theorem Sound.noReplay (h : Sound q) (he : SparedStep q e) : NoReplay q e := by
  rcases Pool.step_cases machine q.pool e with ⟨c, tasks, rest, o, hd, -⟩ | ⟨hd, hs⟩
  · constructor
    · intro d hmem
      rw [shared_trackStep hd] at hmem
      rcases written_act q.pool.shared o c with hw | ⟨b, row, rfl, -, hw⟩
      · rw [hw, List.drop_length] at hmem
        cases hmem
      · rw [hw, List.drop_left] at hmem
        rw [List.mem_singleton.mp hmem]
        exact (h.writing b row (Pool.holder_of_due_later hd)).2
    · intro r hr hqueued hstarted
      have hsome := h.known r.id (by rw [hstarted]; exact nofun)
      exact (h.staysOut_of_started hd (he.due hd) hstarted hsome).2
        ⟨r, Keyed.get?_key hr, hqueued⟩
  · have hsame : (q.pool.step machine e).shared = q.pool.shared := by
      rcases hs with ⟨t, -, hs⟩ | hs <;> rw [hs]
    rw [NoReplay, trackStep_of_not_due hd, Tracked.messages, hsame]
    refine ⟨fun d hmem => ?_, fun r hr hqueued _ => ⟨r, Keyed.get?_key hr, hqueued⟩⟩
    rw [List.drop_length] at hmem
    cases hmem

/-- In every run of the calls in which a recycle finds the child between turns, a
settled exit finds only messages whose own child exited, and a turn is refused by
the child that runs it: no message is written or queued a second time unless the
child it was written to exited on its own or refused it. -/
theorem no_replay (t : MessageTable) {x : List Event}
    (hx : Run.Always trackStep SparedStep (trackFrom t) x) :
    Run.Always trackStep NoReplay (trackFrom t) x :=
  Run.always_of_invariant (I := Sound) (fun _ _ h he => h.step he) (fun _ _ h he => h.noReplay he)
    (sound_trackFrom t) hx

instance (q : Tracked) (c : Section Instr Phase Uuid) : Decidable (Spared q c) := by
  apply Section.casesOn (motive := fun c => Decidable (Spared q c)) c
  · intro i
    apply Instr.casesOn (motive := fun i => Decidable (Spared q (.first i))) i
    case take =>
      intro a why
      apply Taking.casesOn (motive := fun why => Decidable (Spared q (.first (.take a why)))) why <;>
        intros <;> dsimp only [Spared] <;> infer_instance
    case event =>
      intro rd ev
      apply HarnessEvent.casesOn (motive := fun ev => Decidable (Spared q (.first (.event rd ev))))
        ev <;> intros <;> dsimp only [Spared] <;> infer_instance
    all_goals intros; dsimp only [Spared]; infer_instance
  · exact fun _ _ => instDecidableTrue

/-- The tasks a run starts and the sections it executes are checked apart. -/
theorem always_sparedStep {x : List Event} (hR : ∀ t, .call t ∈ x → IsCall t)
    (hx : Run.Always trackStep
      (fun q e => q.pool.Meets machine (fun _ => True) (fun _ c _ => Spared q c) e) q x) :
    Run.Always trackStep SparedStep q x := by
  induction x generalizing q with
  | nil => trivial
  | cons e x ih =>
      refine ⟨hx.1.calls ?_, ih (fun t ht => hR t (List.mem_cons_of_mem _ ht)) hx.2⟩
      rintro t rfl
      exact hR t List.mem_cons_self

/-- Agent 1 is started on a login, and its child waits for a message when it is
decided to move it onto a renewed one. -/
def adoptDecided : List Event :=
  [.call (Call.start 1).task, .run 0 {}, .run 0 {}, .run 0 {}, .run 0 {}, .resume 1 {},
    .resume 1 {}, .resume 1 { credentialGen := some (7, none) },
    .call (Call.adopt [1]).task, .run 3 { stale := true }]

/-- The child is recycled before a message is written to it, and the message is
written to the next child. -/
def adoptedBetweenTurns : List Event :=
  adoptDecided ++ [.run 3 {}, .run 3 {}, .resume 1 {}, .call (Call.enqueue work).task, .run 4 {},
    .run 3 {}, .run 4 {}, .run 4 {}, .run 4 {}, .run 4 {}, .run 4 {}, .run 4 {}, .resume 1 {},
    .resume 1 {}, .resume 1 {}, .run 4 {}, .resume 1 {}, .resume 1 {}, .resume 1 {}]

theorem no_replay_adoptedBetweenTurns :
    Run.Always trackStep NoReplay (trackFrom Keyed.empty) adoptedBetweenTurns := by
  refine no_replay Keyed.empty (always_sparedStep ?_ (by decide +kernel))
  intro t ht
  simp only [adoptedBetweenTurns, adoptDecided, List.cons_append, List.nil_append, List.mem_cons,
    Concurrency.Event.call.injEq, reduceCtorEq, false_or, List.not_mem_nil, or_false] at ht
  rcases ht with rfl | rfl | rfl
  · exact ⟨.start 1, rfl⟩
  · exact ⟨.adopt [1], rfl⟩
  · exact ⟨.enqueue work, rfl⟩

/-- The message is written to the child before the child is recycled, and to the
next child again. -/
def adoptedInTurn : List Event :=
  adoptDecided ++
    [.call (Call.enqueue work).task, .run 4 {}, .run 4 {}, .run 4 {}, .run 4 {}, .resume 1 {},
      .resume 1 {}, .resume 1 {}, .resume 1 {}, .resume 1 {}, .run 3 {}, .run 4 {}, .resume 1 {},
      .run 4 {}, .run 4 {}, .run 4 {}, .run 4 {}, .run 4 {}, .run 4 {}, .run 4 {}, .run 4 {},
      .resume 1 {}, .resume 1 {}, .resume 1 {}, .run 4 {}, .resume 1 {}, .resume 1 {}, .resume 1 {}]

/-- The engine moves a child onto a renewed login during a turn, and runs the turn
again on the next child. -/
theorem adopt_replays :
    (∀ t, .call t ∈ adoptedInTurn → IsCall t) ∧
      (Run.run trackStep (trackFrom Keyed.empty) adoptedInTurn).pool.shared.written.map
        (fun d => (d.agent, d.message.id)) = [(1, 2), (1, 2)] ∧
      ¬ Run.Always trackStep NoReplay (trackFrom Keyed.empty) adoptedInTurn := by
  refine ⟨fun t ht => ?_, by decide +kernel, by decide +kernel⟩
  simp only [adoptedInTurn, adoptDecided, List.cons_append, List.nil_append, List.mem_cons,
    Concurrency.Event.call.injEq, reduceCtorEq, false_or, List.not_mem_nil, or_false] at ht
  rcases ht with rfl | rfl | rfl
  · exact ⟨.start 1, rfl⟩
  · exact ⟨.adopt [1], rfl⟩
  · exact ⟨.enqueue work, rfl⟩

end Supervisor

end Wheel
