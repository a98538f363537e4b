import Wheel.Core.Node
import Wheel.Core.State
import Wheel.Db.Messages
import Wheel.Supervisor.Quota

/-!
# What the supervisor shares

The state every task of the supervisor reads and writes: the message table, the
stored state of each agent, and each agent's slot, which holds the child that
runs for it. Two histories are kept beside it: what was written to the children,
and which events of each child were handled.
-/

namespace Wheel

/-- A usage window as the harness reported it. -/
structure QuotaWindow where
  status : String
  window : Option String
  utilization : Option ℚ
  resetsAt : Option Timestamp
  observedAt : Timestamp
  deriving DecidableEq

/-- The stored state of an agent. -/
structure AgentState where
  status : AgentStatus := .stopped
  sessionId : Option String := none
  turns : ℕ := 0
  usd : ℚ := 0
  resetsAt : Option Timestamp := none
  resumeAt : Option Timestamp := none
  quota : Option QuotaWindow := none
  fallbackUntil : Option Timestamp := none
  deriving DecidableEq

/-- Has the agent spent past its ceiling? -/
def AgentState.budgetExceeded (state : AgentState) : Option Budget → Bool
  | none => false
  | some budget =>
      budget.maxTurns.any (fun max => max ≤ state.turns) ||
        budget.maxUsd.any (fun max => max ≤ state.usd)

/-- The vault login a child was started on, and its expiry at that moment. -/
abbrev CredentialGen := Uuid × Option Timestamp

/-- What the supervisor knows about one running agent. -/
structure Running where
  /-- Identifies this spawn. -/
  runId : ℕ
  sessionId : Option String
  /-- The message occupying the child. -/
  inFlight : Option Uuid
  /-- User-lane messages delivered in a row, in 32 bits. -/
  consecutiveUser : ℕ
  countedTurns : ℕ
  countedUsd : ℚ
  credentialGen : Option CredentialGen
  limitSeen : Option LimitSignal
  onFallback : Bool
  deriving DecidableEq

/-- One message written to the stdin of an agent's child. -/
structure Delivery where
  agent : Uuid
  message : MessageRow
  deriving DecidableEq

/-- The shared state of the supervisor. -/
structure Engine where
  messages : MessageTable
  states : Uuid → AgentState
  slots : Uuid → Option Running
  /-- How often each agent was stopped. -/
  stops : Uuid → ℕ
  closing : Bool
  pausedForUpdate : Bool
  /-- Every run below this one was used. -/
  nextRun : ℕ
  /-- The history of what was written to the children. -/
  written : List Delivery
  /-- The history of the events handled for each run. -/
  handled : ℕ → List HarnessEvent

namespace Engine

/-- An engine with no agents running and nothing written. -/
def fresh (messages : MessageTable) : Engine where
  messages := messages
  states _ := {}
  slots _ := none
  stops _ := 0
  closing := false
  pausedForUpdate := false
  nextRun := 0
  written := []
  handled _ := []

@[simps]
def setMessages (s : Engine) (t : MessageTable) : Engine := { s with messages := t }

@[simps]
def setState (s : Engine) (a : Uuid) (f : AgentState → AgentState) : Engine :=
  { s with states := Function.update s.states a (f (s.states a)) }

@[simps]
def setSlot (s : Engine) (a : Uuid) (r : Option Running) : Engine :=
  { s with slots := Function.update s.slots a r }

/-- Record a handled event of a run. -/
@[simps]
def handle (s : Engine) (run : ℕ) (ev : HarnessEvent) : Engine :=
  { s with handled := Function.update s.handled run (s.handled run ++ [ev]) }

/-- Write an agent's status; a time to wait for does not outlive it. -/
def setStatus (s : Engine) (a : Uuid) (status : AgentStatus) : Engine :=
  s.setState a fun x => { x with status, resetsAt := none, resumeAt := none }

def status (s : Engine) (a : Uuid) : AgentStatus := (s.states a).status

/-- The message the agent's child is running. -/
def inFlight (s : Engine) (a : Uuid) : Option Uuid := (s.slots a).bind (·.inFlight)

/-- Is a message waiting for the agent? -/
def waiting (s : Engine) (a : Uuid) : Bool := Messages.hasQueued s.messages a

variable (s : Engine) (a b : Uuid)

@[simp] theorem setStatus_messages (st : AgentStatus) :
    (s.setStatus a st).messages = s.messages := rfl

@[simp] theorem setStatus_slots (st : AgentStatus) : (s.setStatus a st).slots = s.slots := rfl

@[simp] theorem setStatus_stops (st : AgentStatus) : (s.setStatus a st).stops = s.stops := rfl

@[simp] theorem setStatus_closing (st : AgentStatus) :
    (s.setStatus a st).closing = s.closing := rfl

@[simp] theorem setStatus_pausedForUpdate (st : AgentStatus) :
    (s.setStatus a st).pausedForUpdate = s.pausedForUpdate := rfl

@[simp] theorem setStatus_nextRun (st : AgentStatus) :
    (s.setStatus a st).nextRun = s.nextRun := rfl

@[simp] theorem setStatus_written (st : AgentStatus) :
    (s.setStatus a st).written = s.written := rfl

@[simp] theorem setStatus_handled (st : AgentStatus) :
    (s.setStatus a st).handled = s.handled := rfl

theorem status_setStatus (st : AgentStatus) :
    (s.setStatus a st).status b = if b = a then st else s.status b := by
  unfold status setStatus
  rw [setState_states, Function.update_apply]
  split
  · rfl
  · rfl

/-- An update that keeps an agent's status keeps every status. -/
theorem status_setState {f : AgentState → AgentState} (hf : ∀ x, (f x).status = x.status) :
    (s.setState a f).status b = s.status b := by
  unfold status
  rw [setState_states, Function.update_apply]
  split
  · rename_i h
    rw [hf, h]
  · rfl

end Engine

end Wheel
