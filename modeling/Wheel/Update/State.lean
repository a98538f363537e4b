import Mathlib
import Wheel.Core.Name

/-!
# What the updater remembers across a restart

The durable state of the updater: the commits that failed, the marker of a build
that was installed and has not proved itself, the request that waits, and one
history row for each attempt. The history keeps its last `historyCap` rows.
-/

namespace Wheel

namespace Update

/-- What a changed path belongs to. -/
inductive Component where
  | ci
  | core
  | engine
  | cli
  | host
  | api
  | web
  | docs
  | other
  deriving DecidableEq, Repr

/-- Why a pertinent update is not applying. -/
inductive BlockReason where
  | ciPending
  | ciFailed
  | ciUnverifiable
  | notFastForward
  | dirtyCheckout
  | ciDefinitionChanged
  | suspended
  | drainTimedOut
  deriving DecidableEq, Repr

/-- On whose behalf an update is applied. -/
inductive Requester where
  | operator
  | auto
  | agent (project node : Uuid) (name : String)
  deriving DecidableEq

inductive Outcome where
  | updated
  | rolledBack
  | refused (reason : BlockReason)
  | drainTimedOut
  | buildFailed
  | smokeFailed
  | swapFailed
  | interrupted
  deriving DecidableEq, Repr

/-- An outcome that counts toward the breaker. -/
def Outcome.isFailure : Outcome → Bool
  | .rolledBack | .buildFailed | .smokeFailed | .swapFailed => true
  | _ => false

/-- A row of the history. -/
structure Row where
  at' : ℕ
  source : String
  target : String
  requester : Requester
  outcome : Outcome
  components : List Component
  busy : List String
  notified : Bool
  deriving DecidableEq

/-- The marker of an installed build. -/
structure Pending where
  source : String
  target : String
  requester : Requester
  components : List Component
  /-- Boots of the new binary so far. -/
  attempts : ℕ
  at' : ℕ
  deriving DecidableEq

structure Request where
  requester : Requester
  at' : ℕ
  deriving DecidableEq

def historyCap : ℕ := 100

def breakerFailures : ℕ := 3

def breakerWindowSecs : ℕ := 24 * 60 * 60

/-- What `state.json` holds. -/
structure State where
  bad : List String := []
  pending : Option Pending := none
  request : Option Request := none
  history : List Row := []
  lastAttempt : Option ℕ := none
  breakerReset : Option ℕ := none
  deriving DecidableEq

namespace State

variable (s : State)

def isBad (sha : String) : Bool := s.bad.any (· == sha)

def markBad (sha : String) : State :=
  if s.isBad sha then s else { s with bad := s.bad ++ [sha] }

/-- Add a row; the oldest rows beyond the cap are dropped. -/
def record (row : Row) : State :=
  let history := s.history ++ [row]
  { s with history := history.drop (history.length - historyCap) }

/-- Three failures in a day stop every request but the operator's. -/
def suspended (now : ℕ) : Bool :=
  let since := max (now - breakerWindowSecs) (s.breakerReset.getD 0)
  breakerFailures ≤ (s.history.filter fun r => since < r.at' && r.outcome.isFailure).length

@[simp] theorem markBad_pending (sha : String) : (s.markBad sha).pending = s.pending := by
  rw [markBad]
  split
  · rfl
  · rfl

@[simp] theorem markBad_history (sha : String) : (s.markBad sha).history = s.history := by
  rw [markBad]
  split
  · rfl
  · rfl

theorem isBad_iff (sha : String) : s.isBad sha = true ↔ sha ∈ s.bad := by
  simp [isBad]

theorem mem_bad_markBad (sha : String) : sha ∈ (s.markBad sha).bad := by
  rw [markBad]
  split
  · rename_i h
    exact (s.isBad_iff sha).mp h
  · simp

theorem bad_subset_markBad (sha : String) : s.bad ⊆ (s.markBad sha).bad := by
  rw [markBad]
  split
  · exact List.Subset.refl _
  · simp

@[simp] theorem record_pending (row : Row) : (s.record row).pending = s.pending := by
  rw [record]

@[simp] theorem record_bad (row : Row) : (s.record row).bad = s.bad := by
  rw [record]

end State

/-- The row that closes a marker. -/
def Pending.row (p : Pending) (at' : ℕ) (outcome : Outcome) : Row where
  at' := at'
  source := p.source
  target := p.target
  requester := p.requester
  outcome := outcome
  components := p.components
  busy := []
  notified := false

end Update

end Wheel
