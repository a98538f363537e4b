import Wheel.Core.Wire

/-!
# Messages and their delivery states

A message is persisted before any delivery is attempted. Its `MessageState`
moves strictly forward, and `canAdvanceTo` lists the legal transitions.
-/

namespace Wheel

/-- An instant, in nanoseconds. -/
abbrev Timestamp := ℤ

/-- Who sent a message. What the envelope says about the sender is generated
from this, never from the body. -/
inductive MessageSender where
  | node (id : Uuid) (name : NodeName) (nodeType : NodeType)
  | user
  | system
  deriving DecidableEq

namespace MessageSender

/-- The `from` attribute of the envelope. -/
def name : MessageSender → String
  | .node _ name _ => name.raw
  | .user => "user"
  | .system => "system"

/-- The `type` attribute of the envelope. -/
def senderType : MessageSender → String
  | .node _ _ nodeType => nodeType.asStr
  | .user => "user"
  | .system => "system"

/-- No node can be named as the operator or as the engine. -/
theorem name_eq_user_iff (s : MessageSender) : s.name = "user" ↔ s = .user := by
  cases s with
  | node id name nodeType =>
      have h := name.not_reserved
      simp only [MessageSender.name, reduceCtorEq, iff_false]
      intro hname
      rw [hname] at h
      exact h (by decide)
  | user => simp [MessageSender.name]
  | system => simp [MessageSender.name]

theorem name_eq_system_iff (s : MessageSender) : s.name = "system" ↔ s = .system := by
  cases s with
  | node id name nodeType =>
      have h := name.not_reserved
      simp only [MessageSender.name, reduceCtorEq, iff_false]
      intro hname
      rw [hname] at h
      exact h (by decide)
  | user => simp [MessageSender.name]
  | system => simp [MessageSender.name]

end MessageSender

inductive MessageState where
  | queued
  | delivered
  | consumed
  | undeliverable
  deriving DecidableEq, Repr

/-- Legal transitions. -/
def MessageState.canAdvanceTo (state next : MessageState) : Bool :=
  match state, next with
  | .queued, .delivered => true
  | .delivered, .consumed => true
  | .queued, .undeliverable => true
  | .delivered, .undeliverable => true
  | _, _ => false

/-- Only a delivered message can be consumed. -/
theorem MessageState.canAdvanceTo_consumed_iff (s : MessageState) :
    s.canAdvanceTo .consumed = true ↔ s = .delivered := by
  cases s <;> decide

/-- A message, as the engine hands it out. -/
structure Message where
  id : Uuid
  sender : MessageSender
  target : Uuid
  body : String
  sha256 : String
  bytes : ℕ
  state : MessageState
  replyTo : Option Uuid
  onBehalfOf : Option String
  createdAt : Timestamp
  deliveredAt : Option Timestamp
  consumedAt : Option Timestamp
  lastError : Option String
  deriving DecidableEq

end Wheel
