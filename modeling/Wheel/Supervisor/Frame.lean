import Wheel.Db.MessageRows
import Wheel.Supervisor.Sections

/-!
# What a section leaves alone

Most sections of the supervisor only read, or write nothing but the stored state
of an agent: they are the plain ones. The file says of every section which parts
of the engine it leaves alone: the slots, the messages, and the flags and
histories.
-/

namespace Wheel

namespace Supervisor

open Concurrency Messages

variable (s : Engine) (a : Uuid) (o : Oracle)

/-! ## Sections that only read -/

@[simp] theorem deliverRead_fst : (deliverRead s a).1 = s := by
  unfold deliverRead
  split <;> rfl

@[simp] theorem startCheck_fst (next : AfterStart) (n : ℕ) :
    (startCheck s a next n).1 = s := by
  unfold startCheck
  split
  · rfl
  · split <;> rfl

@[simp] theorem startRetake_fst (next : AfterStart) (n : ℕ) :
    (startRetake s a next n).1 = s := by
  unfold startRetake
  split
  · rfl
  · split
    · rfl
    · split <;> rfl

@[simp] theorem pumpGate_fst : (pumpGate s a).1 = s := by
  unfold pumpGate
  split
  · rfl
  · split
    · rfl
    · split <;> rfl

@[simp] theorem pumpPick_fst : (pumpPick s a o).1 = s := by
  unfold pumpPick
  split
  · rfl
  · split
    · rfl
    · split <;> rfl

@[simp] theorem resumeDue_fst : (resumeDue s a o).1 = s := by
  unfold resumeDue
  dsimp only
  split <;> rfl

/-! ## Plain sections -/

/-- `s'` differs from `s` at most in the stored states of the agents. -/
structure SameBut (s s' : Engine) : Prop where
  messages : s'.messages = s.messages
  slots : s'.slots = s.slots
  stops : s'.stops = s.stops
  closing : s'.closing = s.closing
  pausedForUpdate : s'.pausedForUpdate = s.pausedForUpdate
  nextRun : s'.nextRun = s.nextRun
  written : s'.written = s.written
  handled : s'.handled = s.handled

theorem SameBut.of_eq {s s' : Engine} (h : s' = s) : SameBut s s' := by
  subst h
  exact ⟨rfl, rfl, rfl, rfl, rfl, rfl, rfl, rfl⟩

theorem SameBut.states {s s' : Engine} (states : Uuid → AgentState)
    (h : s' = { s with states := states }) : SameBut s s' := by
  subst h
  exact ⟨rfl, rfl, rfl, rfl, rfl, rfl, rfl, rfl⟩

theorem sameBut_startGate (next : AfterStart) (n : ℕ) :
    SameBut s (startGate s a next n o).1 := by
  unfold startGate
  split
  · exact .of_eq rfl
  · split
    · exact .states _ rfl
    · exact .of_eq rfl

theorem sameBut_addSpend (spend : Option (ℕ × ℚ)) : SameBut s (addSpend s a spend) := by
  unfold addSpend
  split
  · exact .of_eq rfl
  · exact .states _ rfl

theorem sameBut_limitPlan (signal : LimitSignal) (onFallback : Bool) (strikes : ℕ)
    (overBudget : Bool) (now : Timestamp) :
    SameBut s (limitPlan s a signal onFallback strikes overBudget now o).1 := by
  unfold limitPlan
  split
  · exact .states _ rfl
  · dsimp only
    split <;> exact .of_eq rfl

/-- The sections a task waits at that are plain. -/
def Instr.isPlain : Instr → Bool
  | .enqueue _ | .take _ _ | .interruptSettle _ _ | .requeueInterrupted _ _ | .noteStop _
  | .event _ _ | .settleTurn _ _ _ | .requeueLimited _ _ _ | .reapSettle _ _ _
  | .resumeEnqueue _ | .shutdownUnpause | .shutdownClose | .shutdownTake _ _
  | .shutdownSettle _ | .pauseMark | .pauseClose | .resumeSwap | .resumeOpen => false
  | _ => true

/-- The phases that are plain. -/
def Phase.isPlain : Phase → Bool
  | .startSpawn _ | .pumpQuarantine _ | .pumpWrite _ | .pumpAdvance _ => false
  | _ => true

def isPlain : Section Instr Phase Uuid → Bool
  | .first i => i.isPlain
  | .later _ h => h.isPlain

theorem sameBut_exec (i : Instr) (h : i.isPlain = true) : SameBut s (exec i s o).1 := by
  cases i with
  | deliverRead a => exact .of_eq (deliverRead_fst s a)
  | startCheck a next n => exact .of_eq (startCheck_fst s a next n)
  | startGate a next n => exact sameBut_startGate s a o next n
  | startRetake a next n => exact .of_eq (startRetake_fst s a next n)
  | pump a => exact .of_eq (pumpGate_fst s a)
  | recordSpend t => exact sameBut_addSpend s t.agent t.spend
  | limitPlan a signal onFallback strikes overBudget now =>
      exact sameBut_limitPlan s a o signal onFallback strikes overBudget now
  | resumeDue a => exact .of_eq (resumeDue_fst s a o)
  | wedgeSettle a =>
      unfold exec
      dsimp only
      split
      · exact .states _ rfl
      · exact .of_eq rfl
  | resumeIfBlocked a =>
      unfold exec
      dsimp only
      split
      · exact .states _ rfl
      · exact .of_eq rfl
  | readLine rd =>
      unfold exec
      dsimp only
      split <;> exact .of_eq rfl
  | _ => first | exact .states _ rfl | cases h

theorem sameBut_proceed (h : Phase) (hp : h.isPlain = true) :
    SameBut s (proceed a h s o).1 := by
  cases h with
  | startPrepare next n =>
      unfold proceed
      dsimp only
      split
      · exact .of_eq rfl
      · split
        · exact .of_eq rfl
        · split <;> exact .of_eq rfl
  | pumpStatus =>
      unfold proceed
      dsimp only
      split <;> exact .of_eq rfl
  | pumpPick => exact .of_eq (pumpPick_fst s a o)
  | killing why mid => cases why <;> exact .states _ rfl
  | _ => first | exact .states _ rfl | cases hp

/-- A plain section changes nothing but the stored states. -/
theorem sameBut_act {c : Section Instr Phase Uuid} (h : isPlain c = true) :
    SameBut s (machine.act c s o).1 := by
  cases c with
  | first i => exact sameBut_exec s o i h
  | later a p => exact sameBut_proceed s a o p h

/-! ## The slots -/

theorem setSlot_slots_of_ne {a b : Uuid} (h : b ≠ a) (r : Option Running) :
    (s.setSlot a r).slots b = s.slots b := by
  rw [Engine.setSlot_slots, Function.update_of_ne h]

theorem setSlot_slots_self (r : Option Running) : (s.setSlot a r).slots a = r := by
  rw [Engine.setSlot_slots, Function.update_self]

theorem takeSlot_slots_of_ne {b : Uuid} (h : b ≠ a) (why : Taking) :
    (takeSlot s a why o).1.slots b = s.slots b := by
  unfold takeSlot
  split
  · rfl
  · split
    · exact setSlot_slots_of_ne s h none
    · rfl

theorem onInit_slots (sessionId : String) :
    (onInit s a sessionId).slots =
      Function.update s.slots a ((s.slots a).map (seeSession sessionId)) := rfl

theorem onEvent_slots_of_ne {rd : Reader} {b : Uuid} (h : b ≠ rd.agent) (ev : HarnessEvent) :
    (onEvent s rd ev o).1.slots b = s.slots b := by
  cases ev with
  | init sessionId =>
      show (onInit s rd.agent sessionId).slots b = s.slots b
      rw [onInit_slots, Function.update_of_ne h]
  | text sessionId text => rfl
  | result sessionId isError text turns costUsd =>
      unfold onEvent
      dsimp only
      split
      · rfl
      · exact setSlot_slots_of_ne s h _
  | rateLimit sessionId status window utilization resetsAt =>
      unfold onEvent
      dsimp only
      split
      · rfl
      · dsimp only
        split
        · exact setSlot_slots_of_ne s h _
        · rfl
  | unknown => rfl

theorem shutdownTake_slots_of_ne {b : Uuid} {slots : List Uuid}
    {stopping : List (Uuid × Option Uuid)} (h : slots.head? ≠ some b) :
    (shutdownTake s slots stopping).1.slots b = s.slots b := by
  unfold shutdownTake
  split
  · rfl
  · rename_i a slots'
    have hne : b ≠ a := by
      rintro rfl
      exact h rfl
    split
    · rfl
    · exact setSlot_slots_of_ne s hne none

theorem reapSettle_slots (initialised diagnosed : Bool) :
    (reapSettle s a initialised diagnosed o).1.slots = s.slots := by
  unfold reapSettle
  dsimp only
  split <;> split <;> rfl

theorem settleTurn_slots (t : Turn) (ended : TurnEnd) (overBudget : Bool) :
    (settleTurn s t ended overBudget o).1.slots = s.slots := by
  unfold settleTurn
  dsimp only
  split <;> rfl

theorem resumeEnqueue_slots : (resumeEnqueue s a o).1.slots = s.slots := by
  unfold resumeEnqueue
  dsimp only
  split <;> rfl

theorem enqueueMessage_slots (m : NewMessage) : (enqueueMessage s m o).1.slots = s.slots := by
  unfold enqueueMessage
  split <;> rfl

/-- A section that does not run under an agent's lock leaves its slot alone. -/
theorem slots_act_of_ne {c : Section Instr Phase Uuid} {b : Uuid}
    (h : machine.lockOf c ≠ some b) : (machine.act c s o).1.slots b = s.slots b := by
  by_cases hp : isPlain c = true
  · rw [(sameBut_act s o hp).slots]
  cases c with
  | first i =>
      cases i with
      | enqueue m => exact congrFun (enqueueMessage_slots s o m) b
      | take a why =>
          exact takeSlot_slots_of_ne s a o (fun hab => h (congrArg some hab.symm)) why
      | event rd ev =>
          exact onEvent_slots_of_ne s o (fun hab => h (congrArg some hab.symm)) ev
      | settleTurn t ended overBudget => exact congrFun (settleTurn_slots s o t ended _) b
      | reapSettle a initialised diagnosed =>
          exact congrFun (reapSettle_slots s a o initialised diagnosed) b
      | resumeEnqueue a => exact congrFun (resumeEnqueue_slots s a o) b
      | shutdownTake slots stopping =>
          refine shutdownTake_slots_of_ne s ?_
          cases slots with
          | nil => simp
          | cons a slots => exact h
      | _ => first | rfl | exact absurd rfl hp
  | later a p =>
      have hne : b ≠ a := fun hab => h (congrArg some hab.symm)
      cases p with
      | startSpawn next =>
          show (startSpawn s a next o).1.slots b = s.slots b
          unfold startSpawn
          split
          · rfl
          · exact setSlot_slots_of_ne s hne _
      | pumpWrite row =>
          show (pumpWrite s a row o).1.slots b = s.slots b
          unfold pumpWrite
          split
          · rfl
          · exact setSlot_slots_of_ne s hne _
      | _ => first | rfl | exact absurd rfl hp

/-! ## The messages -/

theorem evolves_notifySender (t : MessageTable) (mid : Uuid) :
    Evolves Kept t (notifySender t mid o).1 := by
  have hclaim := evolves_claimNotification t mid
  unfold notifySender
  dsimp only
  split
  · exact .refl Kept.refl t
  · split
    · split
      · split
        · exact hclaim
        · split
          · rename_i t' ht'
            exact hclaim.trans (evolves_enqueue ht')
          · exact hclaim
      · exact hclaim
    · exact hclaim

theorem evolves_settle (t : MessageTable) (mid : Uuid) (ended : TurnEnd)
    (text : Option String) : Evolves Kept t (settle t mid ended text o).1 := by
  cases ended with
  | needsAuth => exact evolves_requeueUndelivered t mid _
  | taskError => exact (evolves_markError t mid _ _).trans (evolves_notifySender o _ mid)
  | completed => exact (evolves_complete t mid _ _).trans (evolves_notifySender o _ mid)
  | limited signal => exact .refl Kept.refl t

theorem evolves_requeueWithinCap (t : MessageTable) (finished : Option Uuid) :
    Evolves Kept t (requeueWithinCap t finished o).1 := by
  unfold requeueWithinCap
  split
  · exact .refl Kept.refl t
  · rename_i mid
    have hlimit := evolves_requeueForLimit t mid rateLimitedReason Quota.maxLimitRequeues
    split
    · rename_i t' done h
      rw [h] at hlimit
      exact hlimit
    · rename_i t' done h
      rw [h] at hlimit
      exact (hlimit.trans (evolves_markError _ mid _ _)).trans (evolves_notifySender o _ mid)
    · rename_i t' h
      rw [h] at hlimit
      exact hlimit

theorem evolves_markInterrupted (t : MessageTable) (stopping : List (Uuid × Option Uuid)) :
    Evolves Kept t (markInterrupted t stopping o) := by
  unfold markInterrupted
  generalize stopping.filterMap Prod.snd = mids
  induction mids generalizing t with
  | nil => exact .refl Kept.refl t
  | cons mid mids ih => exact (evolves_markError t mid _ _).trans (ih _)

theorem messages_enqueueMessage (m : NewMessage) :
    Evolves Kept s.messages (enqueueMessage s m o).1.messages := by
  unfold enqueueMessage
  split
  · exact .refl Kept.refl _
  · rename_i t ht
    dsimp only [Engine.setMessages_messages]
    split
    · exact (evolves_enqueue ht).trans (evolves_requestNotification t m.id)
    · exact evolves_enqueue ht

theorem messages_settleTurn (t : Turn) (ended : TurnEnd) (overBudget : Bool) :
    (settleTurn s t ended overBudget o).1.messages =
      (settleFinished s.messages t ended o).1 := by
  unfold settleTurn
  dsimp only
  split <;> rfl

theorem evolves_settleFinished (t : MessageTable) (turn : Turn) (ended : TurnEnd) :
    Evolves Kept t (settleFinished t turn ended o).1 := by
  unfold settleFinished
  split
  · exact .refl Kept.refl t
  · exact evolves_settle o t _ ended turn.text

theorem messages_reapSettle (initialised diagnosed : Bool) :
    (reapSettle s a initialised diagnosed o).1.messages =
      if s.closing then
        consumeAllDeliveredAsInterrupted s.messages a interruptedByShutdown o.now
      else requeueAllUndelivered s.messages a exitedBeforeProcessing := by
  unfold reapSettle
  dsimp only
  split <;> split <;> rfl

theorem messages_resumeEnqueue :
    (resumeEnqueue s a o).1.messages =
      if s.waiting a then s.messages
      else (enqueue s.messages (noteRow o a none)).getD s.messages := by
  unfold resumeEnqueue
  dsimp only
  split <;> rfl

theorem messages_takeSlot (why : Taking) : (takeSlot s a why o).1.messages = s.messages := by
  unfold takeSlot
  split
  · rfl
  · split <;> rfl

theorem messages_onEvent (rd : Reader) (ev : HarnessEvent) :
    (onEvent s rd ev o).1.messages = s.messages := by
  cases ev with
  | init sessionId => rfl
  | text sessionId text => rfl
  | unknown => rfl
  | result sessionId isError text turns costUsd =>
      unfold onEvent
      dsimp only
      split <;> rfl
  | rateLimit sessionId status window utilization resetsAt =>
      unfold onEvent
      dsimp only
      split
      · rfl
      · dsimp only
        split <;> rfl

theorem messages_shutdownTake (slots : List Uuid) (stopping : List (Uuid × Option Uuid)) :
    (shutdownTake s slots stopping).1.messages = s.messages := by
  unfold shutdownTake
  split
  · rfl
  · split <;> rfl

theorem messages_startSpawn (next : AfterStart) :
    (startSpawn s a next o).1.messages = s.messages := by
  unfold startSpawn
  split <;> rfl

theorem messages_pumpWrite (row : MessageRow) :
    Evolves Kept s.messages (pumpWrite s a row o).1.messages := by
  unfold pumpWrite
  split
  · exact evolves_setLastError s.messages row.id _
  · exact .refl Kept.refl _

theorem messages_exec (i : Instr) : Evolves Kept s.messages (exec i s o).1.messages := by
  by_cases hp : i.isPlain = true
  · rw [(sameBut_exec s o i hp).messages]
    exact .refl Kept.refl _
  cases i with
  | enqueue m => exact messages_enqueueMessage s o m
  | take a why => exact (messages_takeSlot s a o why).symm ▸ .refl Kept.refl _
  | interruptSettle a mid => exact evolves_markError s.messages mid _ _
  | requeueInterrupted a mid => exact evolves_requeueUndelivered s.messages mid _
  | event rd ev => exact (messages_onEvent s o rd ev).symm ▸ .refl Kept.refl _
  | settleTurn t ended overBudget =>
      rw [show (exec (.settleTurn t ended overBudget) s o).1.messages = _ from
        messages_settleTurn s o t ended overBudget]
      exact evolves_settleFinished o s.messages t ended
  | requeueLimited t signal overBudget =>
      exact evolves_requeueWithinCap o s.messages t.finished
  | reapSettle a initialised diagnosed =>
      rw [show (exec (.reapSettle a initialised diagnosed) s o).1.messages = _ from
        messages_reapSettle s a o initialised diagnosed]
      split
      · exact evolves_consumeAllDeliveredAsInterrupted s.messages a _ _
      · exact evolves_requeueAllUndelivered s.messages a _
  | resumeEnqueue a =>
      rw [show (exec (.resumeEnqueue a) s o).1.messages = _ from messages_resumeEnqueue s a o]
      split
      · exact .refl Kept.refl _
      · cases ht : enqueue s.messages (noteRow o a none) with
        | none => exact .refl Kept.refl _
        | some t => exact evolves_enqueue ht
  | shutdownTake slots stopping =>
      exact (messages_shutdownTake s slots stopping).symm ▸ .refl Kept.refl _
  | shutdownSettle stopping => exact evolves_markInterrupted o s.messages stopping
  | _ => first | exact .refl Kept.refl _ | exact absurd rfl hp

/-- Only the last section of a delivery starts a turn on a message. -/
theorem messages_act {c : Section Instr Phase Uuid}
    (h : ∀ a mid, c ≠ .later a (.pumpAdvance mid)) :
    Evolves Kept s.messages (machine.act c s o).1.messages := by
  cases c with
  | first i => exact messages_exec s o i
  | later a p =>
      cases p with
      | startSpawn next => exact (messages_startSpawn s a o next).symm ▸ .refl Kept.refl _
      | pumpQuarantine mid =>
          exact (evolves_quarantine s.messages mid _).trans (evolves_notifySender o _ mid)
      | pumpWrite row => exact messages_pumpWrite s a o row
      | pumpAdvance mid => exact absurd rfl (h a mid)
      | _ =>
          rw [(sameBut_act s o (c := .later a _) rfl).messages]
          exact .refl Kept.refl _

/-- What a section does to the rows of the messages. -/
theorem follows_act (c : Section Instr Phase Uuid) :
    Evolves Follows s.messages (machine.act c s o).1.messages := by
  by_cases h : ∀ a mid, c ≠ .later a (.pumpAdvance mid)
  · exact (messages_act s o h).follows
  · push Not at h
    obtain ⟨a, mid, rfl⟩ := h
    exact (evolves_advanceOrKeep_delivered s.messages mid o.now).mono fun _ _ hr => hr.1

/-! ## The flags and the histories -/

/-- `s'` has the flags, the counters and the histories of `s`. -/
structure SameRecords (s s' : Engine) : Prop where
  stops : s'.stops = s.stops
  closing : s'.closing = s.closing
  pausedForUpdate : s'.pausedForUpdate = s.pausedForUpdate
  nextRun : s'.nextRun = s.nextRun
  written : s'.written = s.written
  handled : s'.handled = s.handled

theorem SameRecords.refl : SameRecords s s := ⟨rfl, rfl, rfl, rfl, rfl, rfl⟩

theorem SameBut.sameRecords {s s' : Engine} (h : SameBut s s') : SameRecords s s' :=
  ⟨h.stops, h.closing, h.pausedForUpdate, h.nextRun, h.written, h.handled⟩

/-- The sections that store a flag, count a stop or a run, or add to a history. -/
def keepsRecord : Section Instr Phase Uuid → Bool
  | .first (.noteStop _) | .first (.event _ _) | .first .shutdownUnpause
  | .first .shutdownClose | .first .pauseMark | .first .pauseClose | .first .resumeSwap
  | .first .resumeOpen | .later _ (.startSpawn _) | .later _ (.pumpWrite _) => true
  | _ => false

theorem sameRecords_onEvent (rd : Reader) (ev : HarnessEvent) :
    SameRecords s (onEvent s rd ev o).1 := by
  unfold onEvent
  cases ev with
  | init sessionId => exact ⟨rfl, rfl, rfl, rfl, rfl, rfl⟩
  | result sessionId isError text turns costUsd =>
      dsimp only
      split <;> exact ⟨rfl, rfl, rfl, rfl, rfl, rfl⟩
  | rateLimit sessionId status window utilization resetsAt =>
      dsimp only
      split
      · exact .refl s
      · dsimp only
        split <;> exact ⟨rfl, rfl, rfl, rfl, rfl, rfl⟩
  | text sessionId text => exact .refl s
  | unknown => exact .refl s

/-- The other sections leave the flags and the histories alone. -/
theorem sameRecords_act {c : Section Instr Phase Uuid} (h : keepsRecord c = false) :
    SameRecords s (machine.act c s o).1 := by
  by_cases hp : isPlain c = true
  · exact (sameBut_act s o hp).sameRecords
  cases c with
  | first i =>
      cases i with
      | enqueue m =>
          show SameRecords s (enqueueMessage s m o).1
          unfold enqueueMessage
          split <;> exact ⟨rfl, rfl, rfl, rfl, rfl, rfl⟩
      | take a why =>
          show SameRecords s (takeSlot s a why o).1
          unfold takeSlot
          split
          · exact .refl s
          · split <;> exact ⟨rfl, rfl, rfl, rfl, rfl, rfl⟩
      | settleTurn t ended overBudget =>
          show SameRecords s (settleTurn s t ended overBudget o).1
          unfold settleTurn
          dsimp only
          split <;> exact ⟨rfl, rfl, rfl, rfl, rfl, rfl⟩
      | reapSettle a initialised diagnosed =>
          show SameRecords s (reapSettle s a initialised diagnosed o).1
          unfold reapSettle
          dsimp only
          split <;> split <;> exact ⟨rfl, rfl, rfl, rfl, rfl, rfl⟩
      | resumeEnqueue a =>
          show SameRecords s (resumeEnqueue s a o).1
          unfold resumeEnqueue
          dsimp only
          split <;> exact ⟨rfl, rfl, rfl, rfl, rfl, rfl⟩
      | shutdownTake slots stopping =>
          show SameRecords s (shutdownTake s slots stopping).1
          unfold shutdownTake
          split
          · exact .refl s
          · split <;> exact ⟨rfl, rfl, rfl, rfl, rfl, rfl⟩
      | _ => first | exact ⟨rfl, rfl, rfl, rfl, rfl, rfl⟩ | exact absurd rfl hp | cases h
  | later a p =>
      cases p with
      | pumpQuarantine mid => exact ⟨rfl, rfl, rfl, rfl, rfl, rfl⟩
      | pumpAdvance mid => exact ⟨rfl, rfl, rfl, rfl, rfl, rfl⟩
      | _ => first | exact absurd rfl hp | cases h

/-- A spawn counts the run, and a delivery adds to what was written. -/
theorem sameRecords_startSpawn (next : AfterStart) :
    SameRecords { s with nextRun := (startSpawn s a next o).1.nextRun }
      (startSpawn s a next o).1 := by
  unfold startSpawn
  split <;> exact ⟨rfl, rfl, rfl, rfl, rfl, rfl⟩

theorem sameRecords_pumpWrite (row : MessageRow) :
    SameRecords { s with written := (pumpWrite s a row o).1.written }
      (pumpWrite s a row o).1 := by
  unfold pumpWrite
  split <;> exact ⟨rfl, rfl, rfl, rfl, rfl, rfl⟩

end Supervisor

end Wheel
