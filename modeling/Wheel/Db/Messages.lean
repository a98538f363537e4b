import Wheel.Core.Message
import Wheel.Data.Keyed

/-!
# The message table and the delivery queue

Every message is a row, and the rows stand in the order of arrival. The
operations are the statements the engine runs: some read the state of a row and
check `canAdvanceTo`, some carry a guard on the state in the statement itself,
and some write the row whatever its state is.
-/

namespace Wheel

/-- The kind of sender a row records. -/
inductive SenderKind where
  | node
  | user
  | system
  deriving DecidableEq, Repr

/-- A row of the message table. -/
structure MessageRow where
  id : Uuid
  fromKind : SenderKind
  fromId : Option Uuid
  toId : Uuid
  body : String
  sha256 : String
  bytes : ℕ
  replyTo : Option Uuid
  onBehalfOf : Option String
  state : MessageState
  isError : Bool
  lastError : Option String
  createdAt : Timestamp
  deliveredAt : Option Timestamp
  consumedAt : Option Timestamp
  limitRequeues : ℕ
  /-- 0 when no notification was asked for, 1 when one was, 2 when it was sent. -/
  notify : ℕ
  result : Option String
  deriving DecidableEq

/-- The message table; a message's id is its primary key. -/
abbrev MessageTable := Keyed MessageRow.id

namespace Messages

/-- How long a normal-lane message may wait before it goes ahead of the user lane. -/
def promoteAfterSecs : ℤ := 60

/-- User-lane messages delivered in a row before a normal-lane one is let through. -/
def userLaneBurst : ℕ := 3

def senderColumns : MessageSender → SenderKind × Option Uuid
  | .node id _ _ => (.node, some id)
  | .user => (.user, none)
  | .system => (.system, none)

/-- The row of a new message. -/
def newRow (id : Uuid) (sender : MessageSender) (target : Uuid) (body sha256 : String)
    (replyTo : Option Uuid) (onBehalfOf : Option String) (now : Timestamp) : MessageRow where
  id := id
  fromKind := (senderColumns sender).1
  fromId := (senderColumns sender).2
  toId := target
  body := body
  sha256 := sha256
  bytes := body.utf8ByteSize
  replyTo := replyTo
  onBehalfOf := onBehalfOf
  state := .queued
  isError := false
  lastError := none
  createdAt := now
  deliveredAt := none
  consumedAt := none
  limitRequeues := 0
  notify := 0
  result := none

/-- Persist a new message in `queued`; refused when its id is taken. -/
def enqueue (t : MessageTable) (row : MessageRow) : Option MessageTable :=
  t.insert { row with state := .queued }

/-- Is anything waiting for this agent? -/
def hasQueued (t : MessageTable) (agent : Uuid) : Bool :=
  t.rows.any fun r => r.toId = agent ∧ r.state = .queued

/-- How many messages wait for this agent. -/
def queuedCount (t : MessageTable) (agent : Uuid) : ℕ :=
  t.rows.countP fun r => r.toId = agent ∧ r.state = .queued

/-- Whole seconds of a duration. -/
def wholeSeconds (d : ℤ) : ℤ := d.tdiv 1000000000

/-- The first queued message of the agent's normal lane. -/
def oldestNormal (t : MessageTable) (agent : Uuid) : Option MessageRow :=
  t.rows.find? fun r => r.toId = agent ∧ r.state = .queued ∧ r.fromKind ≠ .user

/-- The first queued message of the agent's user lane. -/
def userFirst (t : MessageTable) (agent : Uuid) : Option MessageRow :=
  t.rows.find? fun r => r.toId = agent ∧ r.state = .queued ∧ r.fromKind = .user

/-- Pick the next message to deliver: a normal-lane message that has waited too
long, or any normal-lane message after a burst of user-lane ones, and otherwise
the user lane first. -/
def nextForDelivery (t : MessageTable) (agent : Uuid) (consecutiveUser : ℕ)
    (now : Timestamp) : Option MessageRow :=
  match oldestNormal t agent with
  | some m =>
      if promoteAfterSecs ≤ wholeSeconds (now - m.createdAt) ∨ userLaneBurst ≤ consecutiveUser
      then some m
      else (userFirst t agent).or (some m)
  | none => userFirst t agent

inductive StateError where
  | notFound
  | illegal (source target : MessageState)
  /-- The arms the source marks as unreachable: a panic. -/
  | unreachable
  deriving DecidableEq, Repr

/-- Move a message forward. -/
def advance (t : MessageTable) (id : Uuid) (next : MessageState) (now : Timestamp) :
    Except StateError MessageTable :=
  match t.get? id with
  | none => .error .notFound
  | some r =>
      if !r.state.canAdvanceTo next then .error (.illegal r.state next)
      else
        match next with
        | .delivered =>
            .ok (t.modify id (fun r => { r with state := .delivered, deliveredAt := some now })
              fun _ => rfl)
        | .consumed =>
            .ok (t.modify id (fun r => { r with state := .consumed, consumedAt := some now })
              fun _ => rfl)
        | .queued => .error .unreachable
        | .undeliverable => .error .unreachable

/-- `advance` with its error dropped. -/
def advanceOrKeep (t : MessageTable) (id : Uuid) (next : MessageState) (now : Timestamp) :
    MessageTable :=
  match advance t id next now with
  | .ok t' => t'
  | .error _ => t

/-- Mark the turn that carried a message as failed: consume it if it can be
consumed, and flag it whatever its state is. -/
def markError (t : MessageTable) (id : Uuid) (err : String) (now : Timestamp) : MessageTable :=
  (advanceOrKeep t id .consumed now).modify id
    (fun r => { r with isError := true, lastError := some err }) fun _ => rfl

/-- What returning a delivered message to the queue does to its row. -/
def requeueRow (reason : String) (r : MessageRow) : MessageRow :=
  { r with state := .queued, deliveredAt := none, lastError := some reason }

/-- Return a `delivered` message to `queued`. -/
def requeueUndelivered (t : MessageTable) (id : Uuid) (reason : String) : MessageTable :=
  t.updateWhere (fun r => r.id = id ∧ r.state = .delivered) (requeueRow reason) fun _ => rfl

/-- Return every `delivered` message of an agent to `queued`. -/
def requeueAllUndelivered (t : MessageTable) (node : Uuid) (reason : String) : MessageTable :=
  t.updateWhere (fun r => r.toId = node ∧ r.state = .delivered) (requeueRow reason)
    fun _ => rfl

/-- Consume every `delivered` message of an agent as an error. -/
def consumeAllDeliveredAsInterrupted (t : MessageTable) (node : Uuid) (reason : String)
    (now : Timestamp) : MessageTable :=
  t.updateWhere (fun r => r.toId = node ∧ r.state = .delivered)
    (fun r => { r with
      state := .consumed, consumedAt := some now, isError := true, lastError := some reason })
    fun _ => rfl

inductive LimitRequeue where
  | requeued (done : ℕ)
  | capReached (done : ℕ)
  | notDelivered
  deriving DecidableEq, Repr

/-- Return a `delivered` message to `queued` because the usage window closed,
unless that happened `cap` times already. -/
def requeueForLimit (t : MessageTable) (id : Uuid) (reason : String) (cap : ℕ) :
    MessageTable × LimitRequeue :=
  match t.get? id with
  | none => (t, .notDelivered)
  | some r =>
      if r.state ≠ .delivered then (t, .notDelivered)
      else if cap ≤ r.limitRequeues then (t, .capReached r.limitRequeues)
      else
        (t.modify id
          (fun r => { requeueRow reason r with limitRequeues := r.limitRequeues + 1 })
          fun _ => rfl, .requeued (r.limitRequeues + 1))

/-- Consume a message and keep the text of the turn that consumed it. -/
def complete (t : MessageTable) (id : Uuid) (result : Option String) (now : Timestamp) :
    MessageTable × Bool :=
  match advance t id .consumed now with
  | .error _ => (t, false)
  | .ok t' => (t'.modify id (fun r => { r with result }) fun _ => rfl, true)

/-- Ask for a completion notification. -/
def requestNotification (t : MessageTable) (id : Uuid) : MessageTable :=
  t.modify id (fun r => { r with notify := 1 }) fun _ => rfl

/-- Claim the right to send a message's completion notification. -/
def claimNotification (t : MessageTable) (id : Uuid) : MessageTable × Bool :=
  (t.updateWhere (fun r => r.id = id ∧ r.notify = 1) (fun r => { r with notify := 2 })
    fun _ => rfl, t.rows.any fun r => r.id = id ∧ r.notify = 1)

/-- Set a message aside, whatever its state is. -/
def quarantine (t : MessageTable) (id : Uuid) (reason : String) : MessageTable :=
  t.modify id (fun r => { r with state := .undeliverable, lastError := some reason })
    fun _ => rfl

def setLastError (t : MessageTable) (id : Uuid) (err : String) : MessageTable :=
  t.modify id (fun r => { r with lastError := some err }) fun _ => rfl

end Messages

end Wheel
