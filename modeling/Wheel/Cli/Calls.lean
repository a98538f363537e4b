import Wheel.Concurrency.Program
import Wheel.Db.BoardHistory
import Wheel.Db.MessageHistory

/-!
# The calls of an agent's command line

Every call resolves its token to a node and checks a wire of that node, by the name
of the other end. Three of them then do slow work without the database lock, and
check once more before they answer: a query on a table, a message whose turn is waited
for, now or later, and the call of a tool. Each part under the lock is one section.
-/

namespace Wheel.Cli

open Concurrency

/-! ## The capability check -/

/-- Why a capability check failed. -/
inductive Denial where
  | unknownToken
  | noSuchNode (name : String)
  | noWire (source target : String) (required : WireType)
  deriving DecidableEq

/-- The board has a wire of a node to another one that is good for what is required. -/
def hasWire (b : Board) (source target : Uuid) (required : WireType) (ty : NodeType) : Bool :=
  b.wires.any fun w => w.source = source && w.target = target && w.wireType.satisfies required ty

/-- The node of a name that a caller gives. -/
def named (b : Board) (name : String) : Option Node := b.nodes.rows.find? fun n => n.name.raw = name

/-- The node of the name `target`, if the node `me` holds a wire to it. The wires are
those of the board, not those that the caller had when it was authenticated. -/
def require (b : Board) (me : Uuid) (target : String) (required : WireType) :
    Except Denial Node :=
  match named b target with
  | none => .error (.noSuchNode target)
  | some to_ =>
      match b.get me with
      | none => .error .unknownToken
      | some me =>
          if hasWire b me.id to_.id required to_.nodeType then .ok to_
          else .error (.noWire me.name.raw to_.name.raw required)

def mayUseCli : NodeType → Bool
  | .agent => true
  | .script => true
  | _ => false

/-! ## What is read and answered -/

inductive Refusal where
  | denied (d : Denial)
  | forbidden (text : String)
  | invalid (text : String)
  | tooLarge (bytes : ℕ)
  | notFound (text : String)
  | awaitCycle (waiting : String) (message : Uuid)
  | tooManyAwaits
  | storage (text : String)
  | toolError (text : String)
  | internal (text : String)
  deriving DecidableEq

/-- Why a wait is refused. -/
inductive AwaitRefused where
  | cycle (waiting message : Uuid)
  | tooMany
  deriving DecidableEq

structure MsgBody where
  target : String
  body : String
  replyTo : Option Uuid
  awaitSecs : Option ℕ
  notify : Bool

/-- Where a message stands. -/
structure Settlement where
  state : MessageState
  isError : Bool
  result : Option String
  lastError : Option String
  target : Uuid
  deriving DecidableEq

namespace Settlement

def isTerminal (s : Settlement) : Bool :=
  match s.state with
  | .consumed => true
  | .undeliverable => true
  | _ => false

def outcome (s : Settlement) : String :=
  match s.state, s.isError with
  | .consumed, false => "consumed"
  | .consumed, true => "error"
  | .undeliverable, _ => "undeliverable"
  | _, _ => "pending"

end Settlement

structure MessageReceipt where
  id : Uuid
  sha256 : String
  bytes : ℕ
  state : MessageState

def MessageReceipt.of (m : MessageRow) : MessageReceipt := ⟨m.id, m.sha256, m.bytes, m.state⟩

def stateStr : MessageState → String
  | .queued => "queued"
  | .delivered => "delivered"
  | .consumed => "consumed"
  | .undeliverable => "undeliverable"

def MessageReceipt.members (r : MessageReceipt) : List (String × Json) :=
  [("id", .str r.id.display), ("sha256", .str r.sha256), ("bytes", .int r.bytes),
    ("state", .str (stateStr r.state))]

/-- A receipt with how the turn of the message ended; a later member of a name replaces
an earlier one. -/
def withOutcome (receipt : MessageReceipt) (settled : Option Settlement) (waited : Bool) : Json :=
  match settled with
  | none =>
      .obj (receipt.members ++ [("outcome", .str "undeliverable"),
        ("error", .str "the message no longer exists; its recipient was removed")])
  | some settled =>
      let outcome := if settled.isTerminal then settled.outcome
        else if waited then "timeout" else "pending"
      let detail : List (String × Json) :=
        if outcome = "consumed" then
          [("result", match settled.result with | some text => .str text | none => .null)]
        else match settled.lastError with
          | some e => [("error", .str e)]
          | none => []
      .obj (receipt.members ++
        [("state", .str (stateStr settled.state)), ("outcome", .str outcome)] ++ detail)

/-- The rows that a query read, and the node whose table they stood in. No caller is told
the owner. -/
structure Rows where
  rows : Json
  owner : Option Uuid

/-- What a call answers, and the node it is data of, or that produced it. The caller is
given the reply alone. -/
structure Answered where
  reply : Json
  source : Option Uuid

/-! ## Sections -/

/-- A change of the board through the control plane. -/
inductive Edit where
  | board (op : BoardOp)
  | addWire (source target : Uuid) (ty : WireType) (grantedBy : Option Uuid)
  | removeWire (source target : Uuid) (ty : WireType)

inductive Section where
  | authenticate (token : String)
  | require (me : Uuid) (target : String) (required : WireType)
  | readTable (table sql : String)
  | sendMessage (me : Node) (body : MsgBody)
  | findSent (me : Node) (id : Uuid) (waits : Bool)
  | settlement (id : Uuid)
  | runOperation (node : Node) (cfg : ToolConfig) (op : String) (args : Json) (curl : Bool)
  | edit (e : Edit)
  | message (op : MessageOp)

@[reducible] def Section.Answer : Section → Type
  | .authenticate _ => Except Refusal Node
  | .require _ _ _ => Except Denial Node
  | .readTable _ _ => Except String Rows
  | .sendMessage _ _ => Except Refusal MessageRow
  | .findSent _ _ _ => Except Refusal (MessageRow × Node)
  | .settlement _ => Option Settlement
  | .runOperation _ _ _ _ _ => Except Refusal Json
  | .edit _ => Unit
  | .message _ => Unit

/-- The database of a project, as far as these calls read it. -/
structure Project where
  board : Board
  tokens : String → Option Uuid
  messages : MessageTable

/-- What the calls use that is not the engine's: sqlite, a hash, and how the text of a
reply is escaped. -/
structure Libs where
  lite : Sqlite
  allowHosts : List String
  runSql : String → Option SqlTable → Except String Json
  escape : Json → Json
  sha256 : String → String

/-- What is decided elsewhere: how an operation ends, whether a wait is refused, and the
id and the time of a new message. -/
structure World where
  response : Except Refusal Json
  awaitRefused : Option AwaitRefused
  id : Uuid
  now : Timestamp

def awaitRefusal (b : Board) : AwaitRefused → Refusal
  | .cycle waiting message =>
      .awaitCycle (((b.get waiting).map fun n => n.name.raw).getD waiting.display) message
  | .tooMany => .tooManyAwaits

/-- The table node whose table has a sqlite name. -/
def ownerOf (b : Board) (table : String) : Option Uuid :=
  (b.nodes.rows.find? fun n => n.nodeType = .table && n.name.sqliteTable = some table).map Node.id

section Exec

variable (L : Libs) (s : Project) (w : World)

def authenticate (token : String) : Except Refusal Node :=
  match (s.tokens token).bind s.board.get with
  | none => .error (.denied .unknownToken)
  | some node =>
      if mayUseCli node.nodeType then .ok node
      else .error (.forbidden (node.nodeType.article ++ " " ++ node.nodeType.asStr ++
          " node may not use the cli"))

def readTable (table sql : String) : Except String Rows :=
  (L.runSql sql (s.board.tables table)).map fun rows => ⟨rows, ownerOf s.board table⟩

/-- Check the wire, open the wait and enqueue the message, in one section. -/
def sendMessage (me : Node) (body : MsgBody) : Project × Except Refusal MessageRow :=
  match require s.board me.id body.target .send with
  | .error d => (s, .error (.denied d))
  | .ok target =>
      match if body.awaitSecs.isSome then w.awaitRefused else none with
      | some r => (s, .error (awaitRefusal s.board r))
      | none =>
          let row := Messages.newRow w.id (.node me.id me.name me.nodeType) target.id body.body
            (L.sha256 body.body) body.replyTo none w.now
          match Messages.enqueue s.messages row with
          | none => (s, .error (.internal "UNIQUE constraint failed: messages.id"))
          | some messages =>
              ({ s with messages :=
                  if body.notify then Messages.requestNotification messages w.id else messages },
                .ok row)

/-- A message the caller sent, with the node it was sent to, if the wire to it holds. -/
def findSent (me : Node) (id : Uuid) (waits : Bool) : Except Refusal (MessageRow × Node) :=
  match (s.messages.get? id).filter fun m => m.fromKind = .node && m.fromId = some me.id with
  | none => .error (.notFound id.display)
  | some msg =>
      match s.board.get msg.toId with
      | none => .error (.notFound id.display)
      | some peer =>
          match require s.board me.id peer.name.raw .send with
          | .error d => .error (.denied d)
          | .ok _ =>
              match if waits then w.awaitRefused else none with
              | some r => .error (awaitRefusal s.board r)
              | none => .ok (msg, peer)

def settlement (id : Uuid) : Option Settlement :=
  (s.messages.get? id).map fun m => ⟨m.state, m.isError, m.result, m.lastError, m.toId⟩

def Edit.apply (b : Board) : Edit → Board
  | .board op => b.apply L.lite L.allowHosts op
  | .addWire source target ty grantedBy => (b.addWire source target ty grantedBy).1
  | .removeWire source target ty => (b.removeWire source target ty).1

/-- The board after an edit; the messages of a node go with it. -/
def edit (e : Edit) : Project :=
  let board := e.apply L s.board
  { s with board, messages := s.messages.deleteWhere fun m => (board.get m.toId).isNone }

def exec : (q : Section) → Project → World → Option (Project × q.Answer)
  | .authenticate token, s, _ => some (s, authenticate s token)
  | .require me target required, s, _ => some (s, require s.board me target required)
  | .readTable table sql, s, _ => some (s, readTable L s table sql)
  | .sendMessage me body, s, w => some (sendMessage L s w me body)
  | .findSent me id waits, s, w => some (s, findSent s w me id waits)
  | .settlement id, s, _ => some (s, settlement s id)
  | .runOperation _ _ _ _ _, s, w => some (s, w.response)
  | .edit e, s, _ => some (edit L s e, ())
  | .message op, s, _ => some ({ s with messages := op.apply s.messages }, ())

end Exec

/-! ## Calls -/

/-- A call; `wakeups` is how often a wait is woken before its time is over. -/
inductive Op where
  | query (token table sql : String)
  | msg (token : String) (body : MsgBody) (wakeups : ℕ)
  | sent (token : String) (id : Uuid) (wait : Option ℕ) (wakeups : ℕ)
  | toolCall (token node op : String) (args : Json) (curl : Bool)
  | edit (e : Edit)
  | message (op : MessageOp)

abbrev CliM := ExceptT Refusal (Program Section.Answer)

/-- Perform one section. -/
def ask (q : Section) : Program Section.Answer q.Answer := Program.perform q

def caller (token : String) : CliM Node := ExceptT.mk (ask (Section.authenticate token))

def required (me : Node) (target : String) (ty : WireType) : CliM Node :=
  ExceptT.mk (ask (Section.require me.id target ty) >>= fun
    | .ok node => pure (.ok node)
    | .error d => pure (.error (.denied d)))

/-- The sqlite table of a table node. -/
def sqliteTableOf (node : Node) : Except Refusal String :=
  match node.config.asTable with
  | none => .error (.invalid (node.name.raw ++ " is a " ++ node.nodeType.asStr ++ " node, not a table"))
  | some _ => (Tables.tableName node.name).mapError .storage

def maxMessageBody : ℕ := 256 * 1024

section Bodies

variable (L : Libs)

def rowsOf (table sql : String) : CliM Rows :=
  ExceptT.mk (ask (Section.readTable table sql) >>= fun
    | .ok rows => pure (.ok rows)
    | .error e => pure (.error (.storage e)))

/-- Read-only SQL on one table. The wire is checked again before the rows are given. -/
def query (token table sql : String) : CliM Answered := do
  let me ← caller token
  let node ← required me table .read
  let name ← ExceptT.mk (pure (sqliteTableOf node))
  let read ← rowsOf name sql
  let _ ← required me table .read
  pure ⟨.obj [("rows", L.escape read.rows)], read.owner⟩

/-- Wait until a message settles, and say where it stands when the time is over. -/
def awaitSettlement (id : Uuid) : ℕ → Program Section.Answer (Option Settlement)
  | 0 => ask (Section.settlement id)
  | n + 1 => do
      let now ← ask (Section.settlement id)
      if Option.all Settlement.isTerminal now then pure now else awaitSettlement id n

/-- What is done with an enqueued message: answer at once, or wait for its turn. -/
def received (me : Node) (body : MsgBody) (wakeups : ℕ) (m : MessageRow) : CliM Answered :=
  if body.awaitSecs.isNone then pure ⟨.obj (MessageReceipt.of m).members, none⟩
  else do
    let settled ← ExceptT.lift (awaitSettlement m.id wakeups)
    let _ ← required me body.target .send
    pure ⟨withOutcome (.of m) settled true, some m.toId⟩

/-- Send a message, and wait for its turn when asked to. -/
def msg (token : String) (body : MsgBody) (wakeups : ℕ) : CliM Answered := do
  let me ← caller token
  if body.notify ∧ me.nodeType ≠ .agent then
    throw (.invalid "only an agent can be notified: nothing else has a process to deliver it to")
  else if maxMessageBody < body.body.utf8ByteSize then throw (.tooLarge body.body.utf8ByteSize)
  else
    let m ← ExceptT.mk (ask (Section.sendMessage me body))
    received me body wakeups m

/-- How the turn of a message that the caller sent ended. -/
def sent (token : String) (id : Uuid) (wait : Option ℕ) (wakeups : ℕ) : CliM Answered := do
  let me ← caller token
  let found ← ExceptT.mk (ask (Section.findSent me id wait.isSome))
  let settled ← ExceptT.lift (awaitSettlement found.1.id wakeups)
  let _ ← required me found.2.name.raw .send
  pure ⟨withOutcome (.of found.1) settled wait.isSome, some found.1.toId⟩

def toolOf (node : Node) : Except Refusal ToolConfig :=
  match node.config with
  | .tool cfg => .ok cfg
  | _ => .error (.invalid (node.name.raw ++ " is " ++ node.nodeType.article ++ " " ++
      node.nodeType.asStr ++ " node, not a tool"))

/-- Call an operation of a tool. The wire is checked again before the result is given. -/
def toolCall (token node op : String) (args : Json) (curl : Bool) : CliM Answered := do
  let me ← caller token
  let tool ← required me node .read
  let cfg ← ExceptT.mk (pure (toolOf tool))
  let out ← ExceptT.mk (ask (Section.runOperation tool cfg op args curl))
  let _ ← required me node .read
  pure ⟨out, some tool.id⟩

/-- A change that is no call of an agent. -/
def change (q : Section) : CliM Answered :=
  ExceptT.lift (ask q >>= fun _ => pure ⟨.null, none⟩)

def body : Op → Program Section.Answer (Except Refusal Answered)
  | .query token table sql => (query L token table sql).run
  | .msg token b wakeups => (msg token b wakeups).run
  | .sent token id wait wakeups => (sent token id wait wakeups).run
  | .toolCall token node op args curl => (toolCall token node op args curl).run
  | .edit e => (change (.edit e)).run
  | .message op => (change (.message op)).run

def service : Service Project Op Section.Answer (Except Refusal Answered) World where
  exec := exec L
  body := body L

end Bodies

abbrev CliCall := Call Op Section.Answer (Except Refusal Answered)

abbrev CliCalls := Calls Project Op Section.Answer (Except Refusal Answered)

end Wheel.Cli
