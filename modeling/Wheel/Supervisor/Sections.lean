import Wheel.Concurrency.Pool
import Wheel.Supervisor.Engine

/-!
# The sections of the supervisor

A call of the supervisor is a task of sections, cut where another task can run:
at every sqlite section, every section under an agent's slot lock, every load or
store of a flag, and every await. An `Instr` is a section that a task can wait
at, and a `Phase` is a section run while the slot lock is kept: a delivery keeps
it from the check of the slot to the last status, a start from its second check
to the spawn, and whoever takes a child out of its slot keeps it until the child
is killed. `Oracle` is what a section learns from outside the model.
-/

namespace Wheel

namespace Supervisor

open Concurrency Messages

/-- A message a caller wants enqueued, with what it is asked to do about it. -/
structure NewMessage where
  id : Uuid
  sender : MessageSender
  target : Uuid
  body : String
  sha256 : String
  replyTo : Option Uuid
  onBehalfOf : Option String
  /-- Ask for a completion notification. -/
  notify : Bool

/-- How a start goes on once the agent runs. -/
inductive AfterStart where
  | pump
  | deliver
  deriving DecidableEq

/-- The reader of one child's stdout. -/
structure Reader where
  agent : Uuid
  run : ℕ
  ephemeral : Bool
  initialised : Bool
  deriving DecidableEq

/-- Who takes a child out of its slot, and why. -/
inductive Taking where
  | park
  | apiKeyOnly
  | stop
  | interrupt
  | clear
  | recycle
  | halt
  | needsAuth
  | exit (run : ℕ) (initialised : Bool)
  deriving DecidableEq

/-- A `result` the supervisor accepted, with what the slot said at that moment. -/
structure Turn where
  agent : Uuid
  ephemeral : Bool
  isError : Bool
  text : Option String
  finished : Option Uuid
  limitSeen : Option LimitSignal
  onFallback : Bool
  spend : Option (ℕ × ℚ)
  gen : Option CredentialGen

/-- The sections a task can wait at. -/
inductive Instr where
  | enqueue (m : NewMessage)
  | deliver (a : Uuid)
  | deliverRead (a : Uuid)
  | parkThenDeliver (a : Uuid)
  | start (a : Uuid) (next : AfterStart)
  | startCheck (a : Uuid) (next : AfterStart) (stopsBefore : ℕ)
  | startGate (a : Uuid) (next : AfterStart) (stopsBefore : ℕ)
  | startRetake (a : Uuid) (next : AfterStart) (stopsBefore : ℕ)
  | wedgeCheck (a : Uuid) (run : ℕ)
  | wedgeSettle (a : Uuid)
  | pump (a : Uuid)
  | take (a : Uuid) (why : Taking)
  | setStatus (a : Uuid) (status : AgentStatus)
  | clearSession (a : Uuid)
  | interruptSettle (a mid : Uuid)
  | requeueInterrupted (a mid : Uuid)
  | noteStop (a : Uuid)
  | recycle (a : Uuid)
  | afterAuthFailure (a : Uuid) (gen : Option CredentialGen)
  | adoptCheck (a : Uuid)
  | resumeIfBlocked (a : Uuid)
  | readLine (rd : Reader)
  | event (rd : Reader) (ev : HarnessEvent)
  | recordSpend (t : Turn)
  | settleTurn (t : Turn) (ended : TurnEnd) (overBudget : Bool)
  | afterTurn (a : Uuid) (isError : Bool) (gen : Option CredentialGen)
  | requeueLimited (t : Turn) (signal : LimitSignal) (overBudget : Bool)
  | limitPlan (a : Uuid) (signal : LimitSignal) (onFallback : Bool) (strikes : ℕ)
      (overBudget : Bool) (now : Timestamp)
  | limitFallback (a : Uuid) (resume : Timestamp)
  | limitPark (a : Uuid) (resetsAt : Option Timestamp) (resume : Timestamp)
  | setQuota (a : Uuid) (quota : QuotaWindow)
  | reapStatus (a : Uuid) (initialised : Bool)
  | reapSettle (a : Uuid) (initialised diagnosed : Bool)
  | resumeDue (a : Uuid)
  | resumeEnqueue (a : Uuid)
  | shutdownUnpause
  | shutdownClose
  | shutdownDrain
  | shutdownTake (slots : List Uuid) (stopping : List (Uuid × Option Uuid))
  | shutdownSettle (stopping : List (Uuid × Option Uuid))
  | pauseMark
  | pauseClose
  | resumeSwap
  | resumeOpen
  | resumeDeliver

/-- The sections run while the slot lock is kept. -/
inductive Phase where
  | startPrepare (next : AfterStart) (stopsBefore : ℕ)
  | startStarting (next : AfterStart)
  | startSpawn (next : AfterStart)
  | pumpStatus
  | pumpPick
  | pumpQuarantine (mid : Uuid)
  | pumpWrite (row : MessageRow)
  | pumpAdvance (mid : Uuid)
  | pumpRunning
  | killing (why : Taking) (mid : Option Uuid)

/-- What a section learns from outside the model: the clock, what the child
prints, whether a read, a write or a spawn succeeds, and what the board's
configuration and its credentials say. -/
structure Oracle where
  now : Timestamp := 0
  /-- The next line of a child's stdout, or its end; and the value it is. -/
  line : Option (Option Json) := none
  /-- What a dead child printed. -/
  output : String := ""
  /-- The agent's node and its configuration load. -/
  loads : Bool := true
  /-- A gate in front of the spawn refuses: no driver, a lapsed login, a policy. -/
  refusal : Option AgentStatus := none
  /-- The directories and workspaces of a start can be made. -/
  prepares : Bool := true
  /-- The prompt, the token and the configuration of a start can be written. -/
  composes : Bool := true
  spawns : Bool := true
  ephemeral : Bool := false
  credentialGen : Option CredentialGen := none
  onFallback : Bool := false
  /-- The body of the picked message can be encoded. -/
  encodes : Bool := true
  /-- How the write to the child's stdin fails, if it does. -/
  writeError : Option String := none
  /-- The agent has been inactive for its idle timeout. -/
  idleLongEnough : Bool := true
  /-- The vault's login was renewed since the child started on it. -/
  stale : Bool := false
  /-- A newer login is there, or the failed one could be renewed. -/
  recovers : Bool := false
  budget : Option Budget := none
  fallbackVault : Bool := false
  jitter : ℕ := 5
  slots : List Uuid := []
  /-- The sender of the settled message is an agent. -/
  senderIsAgent : Bool := true
  noteId : Uuid := 0
  noteBody : String := ""
  noteSha256 : String := ""

/-- What a section leaves to be done. -/
abbrev Leaves := Next Instr Phase

/-! ## Reasons written to a message -/

def interruptedByShutdown : String := "interrupted by engine shutdown"

def interruptedByUser : String := "interrupted at the caller's request"

def setAside : String := "the body could not be encoded for delivery and was set aside"

def exitedBeforeProcessing : String :=
  "the harness exited before this message could be processed"

def restartedOntoRenewedLogin : String :=
  "the harness was restarted onto a renewed login before this message was processed"

def rateLimitedReason : String :=
  "rate limited: the turn did not complete, so the message was requeued until the usage " ++
    "window reopens"

def limitCapReason (done : ℕ) : String :=
  "the usage window closed on this message's turn " ++ toString (done + 1) ++
    " times; it was consumed with an error rather than requeued again, so it cannot come " ++
    "back for ever"

/-! ## Settling a message -/

/-- The row of a message the engine itself sends. -/
def noteRow (o : Oracle) (target : Uuid) (replyTo : Option Uuid) : MessageRow :=
  newRow o.noteId .system target o.noteBody o.noteSha256 replyTo none o.now

/-- Enqueue the one completion notification a settled message asked for, and
answer the agent it goes to. -/
def notifySender (t : MessageTable) (mid : Uuid) (o : Oracle) : MessageTable × Option Uuid :=
  let (t', claimed) := claimNotification t mid
  if !claimed then (t, none)
  else
    match t'.get? mid with
    | some r =>
        match r.fromKind, r.fromId with
        | .node, some sender =>
            if !o.senderIsAgent then (t', none)
            else
              match enqueue t' (noteRow o sender (some mid)) with
              | some t'' => (t'', some sender)
              | none => (t', none)
        | _, _ => (t', none)
    | none => (t', none)

/-- Settle the message a finished turn consumed. -/
def settle (t : MessageTable) (mid : Uuid) (ended : TurnEnd) (text : Option String)
    (o : Oracle) : MessageTable × Option Uuid :=
  match ended with
  | .needsAuth =>
      (requeueUndelivered t mid (text.getD "the harness could not run this turn"), none)
  | .taskError =>
      notifySender (markError t mid (text.getD "harness reported an error") o.now) mid o
  | .completed => notifySender (complete t mid text o.now).1 mid o
  | .limited _ => (t, none)

/-- Requeue a limited turn's message within the cap, or consume it with an
error past the cap. -/
def requeueWithinCap (t : MessageTable) (finished : Option Uuid) (o : Oracle) :
    MessageTable × ℕ × Option Uuid :=
  match finished with
  | none => (t, 1, none)
  | some mid =>
      match requeueForLimit t mid rateLimitedReason Quota.maxLimitRequeues with
      | (t', .requeued done) => (t', done, none)
      | (t', .capReached done) =>
          let (t'', sender) := notifySender (markError t' mid (limitCapReason done) o.now) mid o
          (t'', done, sender)
      | (t', .notDelivered) => (t', 1, none)

/-- The deliveries owed to a notified sender. -/
def deliverTo (sender : Option Uuid) : List Instr := sender.toList.map .deliver

/-- The figures a `result` adds to the ones counted before. -/
def spendDelta (turns : Option ℕ) (costUsd : Option ℚ) (countedTurns : ℕ) (countedUsd : ℚ) :
    ℕ × ℚ :=
  (turns.getD (countedTurns + 1) - countedTurns,
    max (costUsd.getD countedUsd - countedUsd) 0)

/-! ## Calls as tasks -/

def AfterStart.instrs (a : Uuid) : AfterStart → List Instr
  | .pump => [.pump a]
  | .deliver => [.deliver a]

def stop (a : Uuid) : List Instr := [.noteStop a, .take a .stop]

def clearContext (a : Uuid) : List Instr :=
  [.take a .clear, .clearSession a, .parkThenDeliver a]

def parkNeedsAuth (a : Uuid) : List Instr := [.take a .needsAuth, .setStatus a .needsAuth]

/-- Does the taker take the child it finds? -/
def Taking.admits (s : Engine) (a : Uuid) (r : Running) (o : Oracle) : Taking → Bool
  | .park => s.status a = .idle ∧ s.waiting a = false ∧ o.idleLongEnough = true
  | .interrupt => r.inFlight.isSome
  | .exit run _ => r.runId = run
  | _ => true

/-- What a taker does when the slot is empty. -/
def Taking.missed (a : Uuid) : Taking → Leaves
  | .stop => { hold := some (.killing .stop none) }
  | .recycle => { follow := [.parkThenDeliver a] }
  | _ => {}

/-- What a taker does after the kill, when it gave the lock back. -/
def Taking.after (a : Uuid) (mid : Option Uuid) : Taking → List Instr
  | .apiKeyOnly => [.setStatus a .error]
  | .interrupt =>
      match mid with
      | some mid => [.interruptSettle a mid]
      | none => [.parkThenDeliver a]
  | .recycle =>
      match mid with
      | some mid => [.requeueInterrupted a mid]
      | none => [.parkThenDeliver a]
  | .exit _ initialised => [.reapStatus a initialised]
  | _ => []

/-! ## The sections under a slot lock -/

/-- Take the child out of its slot, and kill it while the lock is kept. -/
def takeSlot (s : Engine) (a : Uuid) (why : Taking) (o : Oracle) : Engine × Leaves :=
  match s.slots a with
  | none => (s, why.missed a)
  | some r =>
      if why.admits s a r o then
        (s.setSlot a none, { hold := some (.killing why r.inFlight) })
      else (s, {})

def startCheck (s : Engine) (a : Uuid) (next : AfterStart) (stopsBefore : ℕ) :
    Engine × Leaves :=
  if s.closing then (s, {})
  else if (s.slots a).isSome then (s, { follow := next.instrs a })
  else (s, { follow := [.startGate a next stopsBefore] })

def startRetake (s : Engine) (a : Uuid) (next : AfterStart) (stopsBefore : ℕ) :
    Engine × Leaves :=
  if s.closing then (s, {})
  else if (s.slots a).isSome then (s, { follow := next.instrs a })
  else if s.stops a ≠ stopsBefore then (s, { follow := next.instrs a })
  else (s, { hold := some (.startPrepare next stopsBefore) })

/-- The child of a start. -/
def spawned (s : Engine) (o : Oracle) : Running where
  runId := s.nextRun
  sessionId := none
  inFlight := none
  consecutiveUser := 0
  countedTurns := 0
  countedUsd := 0
  credentialGen := o.credentialGen
  limitSeen := none
  onFallback := o.onFallback

def startSpawn (s : Engine) (a : Uuid) (next : AfterStart) (o : Oracle) : Engine × Leaves :=
  if !o.spawns then (s, {})
  else
    ({ s.setSlot a (some (spawned s o)) with nextRun := s.nextRun + 1 },
      { follow := next.instrs a
        spawn := [[.readLine ⟨a, s.nextRun, o.ephemeral, false⟩],
          [.wedgeCheck a s.nextRun]] })

/-- The gate of a delivery: a child is there, between turns, and turns may start. -/
def pumpGate (s : Engine) (a : Uuid) : Engine × Leaves :=
  match s.slots a with
  | none => (s, {})
  | some r =>
      if r.inFlight.isSome then (s, {})
      else if s.closing then (s, {})
      else (s, { hold := some .pumpStatus })

def pumpPick (s : Engine) (a : Uuid) (o : Oracle) : Engine × Leaves :=
  match s.slots a with
  | none => (s, {})
  | some r =>
      match nextForDelivery s.messages a r.consecutiveUser o.now with
      | none => (s, {})
      | some row =>
          if o.encodes then (s, { hold := some (.pumpWrite row) })
          else (s, { hold := some (.pumpQuarantine row.id) })

/-- The child after a message was written to it. -/
def afterWrite (row : MessageRow) (r : Running) : Running :=
  { r with
    consecutiveUser := if row.fromKind = .user then (r.consecutiveUser + 1) % 2 ^ 32 else 0
    inFlight := some row.id }

def pumpWrite (s : Engine) (a : Uuid) (row : MessageRow) (o : Oracle) : Engine × Leaves :=
  match o.writeError with
  | some e =>
      (s.setMessages (setLastError s.messages row.id ("stdin write failed: " ++ e)), {})
  | none =>
      ({ s.setSlot a ((s.slots a).map (afterWrite row)) with
          written := s.written ++ [⟨a, row⟩] },
        { hold := some (.pumpAdvance row.id) })

/-- The child after it named its session. -/
def seeSession (sessionId : String) (r : Running) : Running :=
  { r with sessionId := some sessionId }

/-- The child after it reported a closed window. -/
def seeLimit (signal : LimitSignal) (r : Running) : Running :=
  { r with limitSeen := some signal }

/-- The `Init` arm: the slot learns the session, whatever it knew. -/
def onInit (s : Engine) (a : Uuid) (sessionId : String) : Engine :=
  let midTurn := ((s.slots a).bind (·.inFlight)).isSome
  ((s.setSlot a ((s.slots a).map (seeSession sessionId))).setState a
    fun x => { x with sessionId := some sessionId }).setStatus a
    (if midTurn then .running else .idle)

/-- The child after its turn ended. -/
def afterResult (turns : Option ℕ) (costUsd : Option ℚ) (r : Running) : Running :=
  let delta := spendDelta turns costUsd r.countedTurns r.countedUsd
  { r with
    inFlight := none
    limitSeen := none
    countedTurns := r.countedTurns + delta.1
    countedUsd := r.countedUsd + delta.2 }

/-- The turn a `result` ends. -/
def turnOf (rd : Reader) (slot : Option Running) (isError : Bool) (text : Option String)
    (turns : Option ℕ) (costUsd : Option ℚ) : Turn where
  agent := rd.agent
  ephemeral := rd.ephemeral
  isError := isError
  text := text
  finished := slot.bind (·.inFlight)
  limitSeen := slot.bind (·.limitSeen)
  onFallback := slot.any (·.onFallback)
  spend := slot.map fun r => spendDelta turns costUsd r.countedTurns r.countedUsd
  gen := slot.bind (·.credentialGen)

/-- The arms of the stdout loop, up to where they give the slot lock back. -/
def onEvent (s : Engine) (rd : Reader) (ev : HarnessEvent) (o : Oracle) : Engine × Leaves :=
  let known := (s.slots rd.agent).bind (·.sessionId)
  match ev with
  | .init sessionId => (onInit s rd.agent sessionId, { follow := [.pump rd.agent] })
  | .text _ _ => (s, {})
  | .result sessionId isError text turns costUsd =>
      if !sessionMatches known sessionId then (s, {})
      else
        (s.setSlot rd.agent ((s.slots rd.agent).map (afterResult turns costUsd)),
          { follow := [.recordSpend
              (turnOf rd (s.slots rd.agent) isError text turns costUsd)] })
  | .rateLimit sessionId status window utilization resetsAt =>
      if !sessionMatches known sessionId then (s, {})
      else
        (if status = "rejected" then
            s.setSlot rd.agent ((s.slots rd.agent).map (seeLimit ⟨resetsAt, window⟩))
          else s,
          { follow := [.setQuota rd.agent
              ⟨status, window, utilization, resetsAt.bind Quota.timestamp, o.now⟩] })
  | .unknown => (s, {})

/-! ## The sections under the sqlite mutex -/

def enqueueMessage (s : Engine) (m : NewMessage) (o : Oracle) : Engine × Leaves :=
  match enqueue s.messages
      (newRow m.id m.sender m.target m.body m.sha256 m.replyTo m.onBehalfOf o.now) with
  | none => (s, {})
  | some t =>
      (s.setMessages (if m.notify then requestNotification t m.id else t),
        { follow := [.deliver m.target] })

def deliverRead (s : Engine) (a : Uuid) : Engine × Leaves :=
  if s.waiting a ∧ s.status a = .parked then (s, { follow := [.start a .pump] })
  else (s, { follow := [.pump a] })

def startGate (s : Engine) (a : Uuid) (next : AfterStart) (stopsBefore : ℕ) (o : Oracle) :
    Engine × Leaves :=
  if !o.loads then (s, {})
  else
    match o.refusal with
    | some status =>
        (s.setStatus a (if status = .needsAuth then .needsAuth else .error),
          { follow := next.instrs a })
    | none => (s, { follow := [.startRetake a next stopsBefore] })

/-- Add a turn's figures to the agent's totals. -/
def addSpend (s : Engine) (a : Uuid) : Option (ℕ × ℚ) → Engine
  | none => s
  | some (turns, usd) =>
      s.setState a fun x => { x with turns := x.turns + turns, usd := x.usd + usd }

/-- How a turn ended. -/
def turnEnd (t : Turn) : TurnEnd :=
  Quota.classifyTurnEnd t.isError t.text t.limitSeen
    (t.isError && classifyStartupFailure (t.text.getD "") = .needsAuth)

/-- The section that settles a turn. -/
def settlement (t : Turn) (overBudget : Bool) : Instr :=
  match turnEnd t with
  | .limited signal => .requeueLimited t signal overBudget
  | .completed => .settleTurn t .completed overBudget
  | .taskError => .settleTurn t .taskError overBudget
  | .needsAuth => .settleTurn t .needsAuth overBudget

/-- Record the spend of a turn, and decide how it ended. -/
def recordSpend (s : Engine) (t : Turn) (o : Oracle) : Engine × Leaves :=
  let s' := addSpend s t.agent t.spend
  let overBudget := t.spend.isSome && (s'.states t.agent).budgetExceeded o.budget
  (s', { follow := [settlement t overBudget] })

/-- What follows a settled turn. -/
def afterSettle (t : Turn) (ended : TurnEnd) (overBudget : Bool) : List Instr :=
  if overBudget then stop t.agent ++ [.setStatus t.agent .budgetExhausted]
  else if ended = .needsAuth then [.afterAuthFailure t.agent t.gen]
  else if t.ephemeral then clearContext t.agent
  else [.afterTurn t.agent t.isError t.gen]

/-- The status a turn leaves. -/
def statusAfter : TurnEnd → AgentStatus
  | .needsAuth => .needsAuth
  | .taskError => .error
  | _ => .idle

/-- Settle the message of a turn, if it ran one. -/
def settleFinished (messages : MessageTable) (t : Turn) (ended : TurnEnd) (o : Oracle) :
    MessageTable × Option Uuid :=
  match t.finished with
  | none => (messages, none)
  | some mid => settle messages mid ended t.text o

def settleTurn (s : Engine) (t : Turn) (ended : TurnEnd) (overBudget : Bool) (o : Oracle) :
    Engine × Leaves :=
  let settled := settleFinished s.messages t ended o
  let s' := s.setMessages settled.1
  (if overBudget then s' else s'.setStatus t.agent (statusAfter ended),
    { follow := deliverTo settled.2 ++ afterSettle t ended overBudget })

def requeueLimited (s : Engine) (t : Turn) (signal : LimitSignal) (overBudget : Bool)
    (o : Oracle) : Engine × Leaves :=
  let (messages, strikes, sender) := requeueWithinCap s.messages t.finished o
  (s.setMessages messages,
    { follow := deliverTo sender ++ [.take t.agent .halt,
        .limitPlan t.agent signal t.onFallback strikes overBudget o.now] })

def limitPlan (s : Engine) (a : Uuid) (signal : LimitSignal) (onFallback : Bool)
    (strikes : ℕ) (overBudget : Bool) (now : Timestamp) (o : Oracle) : Engine × Leaves :=
  if overBudget then (s.setStatus a .budgetExhausted, {})
  else
    let resume := Quota.resumeAt now signal.resetsAt strikes o.jitter
    if !onFallback && o.fallbackVault then (s, { follow := [.limitFallback a resume] })
    else
      let resume := match onFallback, (s.states a).fallbackUntil with
        | true, some until_ => min resume until_
        | _, _ => resume
      (s, { follow := [.limitPark a (signal.resetsAt.bind Quota.timestamp) resume] })

def limitPark (s : Engine) (a : Uuid) (resetsAt : Option Timestamp) (resume : Timestamp) :
    Engine × Leaves :=
  ((s.setStatus a .rateLimited).setState a
      fun x => { x with resetsAt := resetsAt, resumeAt := some resume },
    { spawn := [[.resumeDue a]] })

/-- An exit after a diagnosis is a consequence of it. -/
def isDiagnosis (status : AgentStatus) : Bool :=
  status = .needsAuth ∨ status = .error ∨ status = .budgetExhausted

/-- The status of an agent whose child exited. -/
def exitStatus (initialised : Bool) (output : String) : AgentStatus :=
  if initialised then .stopped
  else if classifyStartupFailure output = .needsAuth then .needsAuth
  else if Text.trim output.toList = [] then .stopped
  else .error

def reapSettle (s : Engine) (a : Uuid) (initialised diagnosed : Bool) (o : Oracle) :
    Engine × Leaves :=
  let messages :=
    if s.closing then
      consumeAllDeliveredAsInterrupted s.messages a interruptedByShutdown o.now
    else requeueAllUndelivered s.messages a exitedBeforeProcessing
  let s₁ := s.setMessages messages
  let s₂ := if initialised then s₁ else s₁.setState a fun x => { x with sessionId := none }
  (if diagnosed then s₂ else s₂.setStatus a (exitStatus initialised o.output), {})

/-- The resume timer is inert unless the agent still waits for a window that is due. -/
def resumeDue (s : Engine) (a : Uuid) (o : Oracle) : Engine × Leaves :=
  let due := (s.states a).resumeAt.all fun t => t ≤ o.now + 1000000000
  if s.status a = .rateLimited ∧ due = true then (s, { follow := [.resumeEnqueue a] })
  else (s, {})

def resumeEnqueue (s : Engine) (a : Uuid) (o : Oracle) : Engine × Leaves :=
  (if s.waiting a then s
    else s.setMessages ((enqueue s.messages (noteRow o a none)).getD s.messages),
    { follow := [.parkThenDeliver a] })

/-- The agents with a queued message, each once. -/
def recipientsWithQueued (t : MessageTable) : List Uuid :=
  ((t.rows.filter fun r => r.state = .queued).map (·.toId)).dedup

/-- Consume the turns a shutdown cut. -/
def markInterrupted (t : MessageTable) (stopping : List (Uuid × Option Uuid)) (o : Oracle) :
    MessageTable :=
  (stopping.filterMap Prod.snd).foldl (fun t mid => markError t mid interruptedByShutdown o.now)
    t

def shutdownTake (s : Engine) (slots : List Uuid) (stopping : List (Uuid × Option Uuid)) :
    Engine × Leaves :=
  match slots with
  | [] => (s, { follow := [.shutdownSettle stopping] })
  | a :: slots =>
      match s.slots a with
      | none => (s, { follow := [.shutdownTake slots stopping] })
      | some r =>
          (s.setSlot a none,
            { follow := [.shutdownTake slots (stopping ++ [(a, r.inFlight)])] })

/-! ## The machine -/

/-- The slot lock a section needs. -/
def lock : Instr → Option Uuid
  | .startCheck a _ _ => some a
  | .startRetake a _ _ => some a
  | .wedgeCheck a _ => some a
  | .pump a => some a
  | .take a _ => some a
  | .adoptCheck a => some a
  | .event rd _ => some rd.agent
  | .shutdownTake (a :: _) _ => some a
  | _ => none

/-- What a section does. -/
def exec (i : Instr) (s : Engine) (o : Oracle) : Engine × Leaves :=
  match i with
  | .enqueue m => enqueueMessage s m o
  | .deliver a => (s, { follow := if s.pausedForUpdate then [] else [.deliverRead a] })
  | .deliverRead a => deliverRead s a
  | .parkThenDeliver a => (s.setStatus a .parked, { follow := [.deliver a] })
  | .start a next => (s, { follow := [.startCheck a next (s.stops a)] })
  | .startCheck a next stopsBefore => startCheck s a next stopsBefore
  | .startGate a next stopsBefore => startGate s a next stopsBefore o
  | .startRetake a next stopsBefore => startRetake s a next stopsBefore
  | .wedgeCheck a run =>
      (s, { follow := if (s.slots a).any (fun r => r.runId = run) then [.wedgeSettle a] else [] })
  | .wedgeSettle a =>
      (if s.status a = .starting ∧ s.waiting a then s.setStatus a .error else s, {})
  | .pump a => pumpGate s a
  | .take a why => takeSlot s a why o
  | .setStatus a status => (s.setStatus a status, {})
  | .clearSession a => (s.setState a fun x => { x with sessionId := none }, {})
  | .interruptSettle a mid =>
      (s.setMessages (markError s.messages mid interruptedByUser o.now),
        { follow := [.parkThenDeliver a] })
  | .requeueInterrupted a mid =>
      (s.setMessages (requeueUndelivered s.messages mid restartedOntoRenewedLogin),
        { follow := [.parkThenDeliver a] })
  | .noteStop a => ({ s with stops := Function.update s.stops a (s.stops a + 1) }, {})
  | .recycle a => (s, { follow := if s.closing then [] else [.take a .recycle] })
  | .afterAuthFailure a gen =>
      (s, { follow := if gen.isSome && o.recovers then [.recycle a] else parkNeedsAuth a })
  | .adoptCheck a =>
      (s, { follow :=
        if (s.slots a).any (fun r => r.inFlight.isNone && r.credentialGen.isSome) && o.stale
        then [.recycle a] else [] })
  | .resumeIfBlocked a =>
      if s.status a = .needsAuth then (s.setStatus a .parked, { follow := [.deliver a] })
      else (s, {})
  | .readLine rd =>
      match o.line with
      | none => (s, { follow := [.take rd.agent (.exit rd.run rd.initialised)] })
      | some line =>
          let ev := parseLine line
          let initialised := rd.initialised || (ev matches .init _)
          (s, { follow := [.event rd ev, .readLine { rd with initialised }] })
  | .event rd ev =>
      let (s', nx) := onEvent s rd ev o
      (s'.handle rd.run ev, nx)
  | .recordSpend t => recordSpend s t o
  | .settleTurn t ended overBudget => settleTurn s t ended overBudget o
  | .afterTurn a isError gen =>
      (s, { follow := if !isError && gen.isSome && o.stale then [.recycle a] else [.pump a] })
  | .requeueLimited t signal overBudget => requeueLimited s t signal overBudget o
  | .limitPlan a signal onFallback strikes overBudget now =>
      limitPlan s a signal onFallback strikes overBudget now o
  | .limitFallback a resume =>
      (s.setState a fun x => { x with fallbackUntil := some resume },
        { follow := [.parkThenDeliver a] })
  | .limitPark a resetsAt resume => limitPark s a resetsAt resume
  | .setQuota a quota => (s.setState a fun x => { x with quota := some quota }, {})
  | .reapStatus a initialised =>
      (s, { follow := [.reapSettle a initialised (isDiagnosis (s.status a))] })
  | .reapSettle a initialised diagnosed => reapSettle s a initialised diagnosed o
  | .resumeDue a => resumeDue s a o
  | .resumeEnqueue a => resumeEnqueue s a o
  | .shutdownUnpause => ({ s with pausedForUpdate := false }, {})
  | .shutdownClose => ({ s with closing := true }, {})
  | .shutdownDrain => (s, { follow := [.shutdownTake o.slots []] })
  | .shutdownTake slots stopping => shutdownTake s slots stopping
  | .shutdownSettle stopping =>
      (s.setMessages (markInterrupted s.messages stopping o),
        { follow := stopping.map fun x => .setStatus x.1 .parked })
  | .pauseMark => ({ s with pausedForUpdate := true }, {})
  | .pauseClose => ({ s with closing := true }, {})
  | .resumeSwap =>
      ({ s with pausedForUpdate := false },
        { follow := if s.pausedForUpdate then [.resumeOpen, .resumeDeliver] else [] })
  | .resumeOpen => ({ s with closing := false }, {})
  | .resumeDeliver => (s, { follow := (recipientsWithQueued s.messages).map .deliver })

/-- What the holder of an agent's slot lock does next. -/
def proceed (a : Uuid) (h : Phase) (s : Engine) (o : Oracle) : Engine × Leaves :=
  match h with
  | .startPrepare next stopsBefore =>
      if !o.prepares then (s, {})
      else if s.stops a ≠ stopsBefore then (s, { follow := next.instrs a })
      else if !o.composes then (s, {})
      else (s, { hold := some (.startStarting next) })
  | .startStarting next => (s.setStatus a .starting, { hold := some (.startSpawn next) })
  | .startSpawn next => startSpawn s a next o
  | .pumpStatus =>
      if s.status a = .needsAuth then (s, {}) else (s, { hold := some .pumpPick })
  | .pumpPick => pumpPick s a o
  | .pumpQuarantine mid =>
      let (messages, sender) := notifySender (quarantine s.messages mid setAside) mid o
      (s.setMessages messages, { spawn := (deliverTo sender).map fun i => [i] })
  | .pumpWrite row => pumpWrite s a row o
  | .pumpAdvance mid =>
      (s.setMessages (advanceOrKeep s.messages mid .delivered o.now),
        { hold := some .pumpRunning })
  | .pumpRunning => (s.setStatus a .running, {})
  | .killing .park _ => (s.setStatus a .parked, {})
  | .killing .stop _ => (s.setStatus a .stopped, {})
  | .killing why mid => (s, { follow := why.after a mid })

/-- The supervisor as a machine. -/
def machine : Machine Engine Instr Phase Uuid Oracle where
  lock := lock
  act c s o :=
    match c with
    | .first i => exec i s o
    | .later a h => proceed a h s o

abbrev State := Pool Engine Instr Phase Uuid

abbrev Event := Concurrency.Event Instr Uuid Oracle

/-! ## The calls -/

/-- The calls of the supervisor, from the API, the CLI and its own timers. -/
inductive Call where
  | enqueue (m : NewMessage)
  | deliver (a : Uuid)
  | start (a : Uuid)
  | stop (a : Uuid)
  | restart (a : Uuid)
  | interrupt (a : Uuid)
  | clearContext (a : Uuid)
  | park (a : Uuid)
  | killIfOauthShaped (a : Uuid)
  | adopt (readers : List Uuid)
  | resumeIfBlocked (a : Uuid)
  | resumeAfterLimit (a : Uuid)
  | pauseTurns
  | resumeTurns
  | shutdown

/-- The sections of a call. -/
def Call.task : Call → List Instr
  | .enqueue m => [.enqueue m]
  | .deliver a => [.deliver a]
  | .start a => [.start a .deliver]
  | .stop a => Supervisor.stop a
  | .restart a => Supervisor.stop a ++ [.start a .deliver]
  | .interrupt a => [.take a .interrupt]
  | .clearContext a => Supervisor.clearContext a
  | .park a => [.take a .park]
  | .killIfOauthShaped a => [.take a .apiKeyOnly]
  | .adopt readers => readers.map .adoptCheck
  | .resumeIfBlocked a => [.resumeIfBlocked a]
  | .resumeAfterLimit a => [.resumeDue a]
  | .pauseTurns => [.pauseMark, .pauseClose]
  | .resumeTurns => [.resumeSwap]
  | .shutdown => [.shutdownUnpause, .shutdownClose, .shutdownDrain]

/-- One message of the operator for agent 1. -/
def work : NewMessage where
  id := 2
  sender := .user
  target := 1
  body := "work"
  sha256 := ""
  replyTo := none
  onBehalfOf := none
  notify := false

/-- Another message for agent 1. -/
def workFrom (id : Uuid) (sender : MessageSender) : NewMessage := { work with id, sender }

/-- The message is enqueued, the agent is started, and the message is written to
its child. -/
def workDelivered : List Event :=
  [.call (Call.enqueue work).task, .run 0 {}, .call (Call.start 1).task, .run 1 {}, .run 1 {},
    .run 1 {}, .run 1 {}, .resume 1 {}, .resume 1 {}, .resume 1 {}, .run 0 {}, .run 3 {},
    .run 3 {}, .resume 1 {}, .resume 1 {}, .resume 1 {}, .resume 1 {}, .resume 1 {}]

/-- A child prints a `result`. -/
def resultPrinted : Oracle where
  line := some (some (.obj [("type", .str "result")]))

/-- A task is one of the calls. -/
def IsCall (t : List Instr) : Prop := ∃ c : Call, t = c.task

end Supervisor

end Wheel
