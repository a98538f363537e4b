import Wheel.Core.Validate
import Wheel.Data.MergePatch
import Wheel.Db.BoardState

/-!
# The tools a node is offered

What a harness sees over MCP: the built-in tools, the same for every caller but for
the nodes their descriptions name, and every enabled operation of a wired tool node,
under the name `<tool>__<op>`. The list follows the wires the caller had when it was
authenticated and the nodes the board has now.
-/

namespace Wheel

/-- The name of an operation over MCP, on a node of the given name. -/
def ToolOperation.mcpName (op : ToolOperation) (toolName : String) : String :=
  toolName ++ "__" ++ op.id

/-- The fields an agent may supply. -/
def ToolOperation.agentParams (op : ToolOperation) : List ToolParam :=
  op.params.filter fun p => p.fill.isAgentVisible

/-- How long a caller waits for an answer when no time is given. -/
def defaultAwaitSecs : ℕ := 600

def maxAwaitSecs : ℕ := 3600

/-- Who calls: a node, with the wires read when it was authenticated. -/
structure Caller where
  node : Node
  wires : List Wire

/-- Every node the caller can reach, with the type of the wire. -/
def Caller.reachable (me : Caller) (b : Board) : List (Node × WireType) :=
  me.wires.filterMap fun w => (b.get w.target).map fun n => (n, w.wireType)

namespace Mcp

open Json

/-- The schema of a parameter, with the description it is given unless it has one. -/
def describedSchema (p : ToolParam) : Json :=
  match p.schema.getD (.obj [("type", .str "string")]), p.description with
  | .obj members, some d =>
      if (lookup members "description").isSome then .obj members
      else .obj (insertMember "description" (.str d) members)
  | schema, _ => schema

/-- The operations an agent can call, with only the fields it may supply. -/
def agentView (tool : String) (cfg : ToolConfig) : List Json :=
  (cfg.operations.filter fun o => o.enabled).map fun o =>
    .obj [("id", .str o.id), ("name", .str (o.mcpName tool)), ("method", .str o.method.asStr),
      ("path", .str o.path), ("summary", (o.summary.map Json.str).getD .null),
      ("input_schema", .obj [("type", .str "object"),
        ("properties", .obj (o.agentParams.foldl
          (fun m p => insertMember p.name (describedSchema p) m) [])),
        ("required", .arr ((o.agentParams.filter fun p => p.required).map fun p =>
          .str p.name))])]

def tool (name description : String) (inputSchema : Json) : Json :=
  .obj [("name", .str name), ("description", .str description), ("inputSchema", inputSchema)]

/-- The name a listed tool goes by. -/
def toolName (t : Json) : String := ((t.get? "name").bind Json.asStr).getD ""

@[simp] theorem toolName_tool (name description : String) (inputSchema : Json) :
    toolName (tool name description inputSchema) = name := rfl

/-- What an operation is described as when it says nothing itself. -/
def describedAs (node : Node) (op : Json) : String :=
  let text (k : String) := (op.get? k).bind Json.asStr
  if ((text "summary").getD "").isEmpty then
    ((text "method").getD "CALL") ++ " " ++ ((text "path").getD "") ++ " via the " ++
      node.name.raw ++ " tool"
  else (text "summary").getD ""

/-- Every enabled operation on a wired tool node. -/
def toolNodeOperations (reachable : List (Node × WireType)) : List Json :=
  reachable.flatMap fun p =>
    if p.2 = .read ∨ p.2 = .write then
      match p.1.config with
      | .tool cfg =>
          (agentView p.1.name.raw cfg).map fun op =>
            tool (toolName op) (describedAs p.1 op) ((op.get? "input_schema").getD .null)
      | _ => []
    else []

/-! ## The built-in tools -/

/-- The names of the reachable nodes something may be done with. -/
def namesOf (reachable : List (Node × WireType)) (f : Node → WireType → Bool) : List String :=
  (reachable.filter fun p => f p.1 p.2).map fun p => p.1.name.raw

/-- A description that says which nodes can be addressed. -/
def addressable (label : String) (names : List String) : String :=
  if names.isEmpty then label ++ " (you are not wired to any)"
  else label ++ ": " ++ ", ".intercalate names

/-- The schema of an object, with its properties and those it must have. -/
def objectSchema (properties : List (String × Json)) (required : List String) : Json :=
  .obj ([("type", .str "object"), ("properties", .obj properties)] ++
    if required.isEmpty then [] else [("required", .arr (required.map Json.str))])

def property (type description : String) : Json :=
  .obj [("type", .str type), ("description", .str description)]

def builtins (reachable : List (Node × WireType)) : List Json :=
  let keyspace (n : Node) : Bool :=
    n.nodeType = .ctx || n.nodeType = .table || n.nodeType = .chest
  let agents := namesOf reachable fun n w => n.nodeType = .agent && w = .send
  let readable := namesOf reachable fun n w => keyspace n && (w = .read || w = .write)
  let writable := namesOf reachable fun n w => keyspace n && w = .write
  let tables := namesOf reachable fun n _ => n.nodeType = .table
  let vaults := namesOf reachable fun n _ => n.nodeType = .vault
  [tool "msg" (addressable "Send a message to another agent on the board" agents)
      (objectSchema
        [("to", property "string" "agent name"),
          ("body", property "string" "the message; sent exactly as given"),
          ("reply_to", property "string" "optional message id this replies to"),
          ("notify", property "boolean"
            "send me one system message when the recipient's turn on this finishes")]
        ["to", "body"]),
    tool "ask"
      (addressable ("Send a message to another agent and WAIT for its answer: returns the final " ++
        "text of the turn that handled your message. Refused if that agent is already waiting " ++
        "on you") agents)
      (objectSchema
        [("to", property "string" "agent name"),
          ("body", property "string" "the message; sent exactly as given"),
          ("timeout_secs", property "integer" ("how long to wait; default " ++
            toString defaultAwaitSecs ++ ", at most " ++ toString maxAwaitSecs ++
            ". On timeout the message is still delivered: read the answer later with `sent`"))]
        ["to", "body"]),
    tool "sent"
      ("How a message you sent ended, with the full final text of the turn that handled it. " ++
        "Use the id that `msg` or `ask` returned.")
      (objectSchema
        [("id", property "string" "the message id"),
          ("wait_secs", property "integer" "wait up to this long for it to finish")]
        ["id"]),
    tool "read"
      (addressable ("Read a node: ctx markdown, a table row, or a chest blob. Address a row or " ++
        "path as <node>/<key>") readable)
      (objectSchema [("addr", property "string" "<node> or <node>/<key>")] ["addr"]),
    tool "write"
      (addressable "Write a node: replace ctx markdown, upsert a table row, or put a chest blob"
        writable)
      (objectSchema
        [("addr", property "string" "<node> or <node>/<key>"),
          ("value", property "string" "markdown, or a JSON object for a table row")]
        ["addr", "value"]),
    tool "rm" (addressable "Delete a table row or chest blob" writable)
      (objectSchema [("addr", property "string" "<node>/<key>")] ["addr"]),
    tool "ls" "List the keyspaces you can reach, or the keys inside one."
      (objectSchema
        [("node", property "string" "omit to list every keyspace you can reach"),
          ("prefix", property "string" "only keys starting with this")] []),
    tool "query" (addressable "Read-only SQL against ONE table node" tables)
      (objectSchema
        [("table", .obj [("type", .str "string")]),
          ("sql", property "string" "a single SELECT; only this table is visible")]
        ["table", "sql"]),
    tool "secret_get" (addressable "Read one value from a vault" vaults)
      (objectSchema [("addr", property "string" "<vault>/<key>")] ["addr"]),
    tool "inbox"
      ("Re-read messages you were sent. Without an id, lists recent ones; the envelope id is " ++
        "the handle.")
      (objectSchema
        [("id", property "string" "a message id to read again in full"),
          ("limit", .obj [("type", .str "integer")])] []),
    tool "whoami" "Your identity and your wires, in both directions." (objectSchema [] []),
    tool "connections"
      ("Your wires with plain-language meaning: what you can prompt, and whose data you can " ++
        "reach.") (objectSchema [] []),
    tool "ctx_clear"
      "Clear your own context. The system prompt and injected context nodes are re-applied."
      (objectSchema [] []),
    tool "usage"
      ("Your own turn/spend total and, if a budget is configured, how close you are to it. " ++
        "Check this before a long or expensive operation instead of finding out by hitting the " ++
        "limit.") (objectSchema [] [])]

/-- Offered only where the deployment updates itself. -/
def updateTool : Json :=
  tool "update"
    ("Ask this deployment to apply its pending Wheel runtime update at the next point where no " ++
      "agent is mid-turn, or show what is pending. Returns at once; your turn is never " ++
      "interrupted, and a system message tells you when it is done.")
    (.obj [("type", .str "object"),
      ("properties", .obj [("action", .obj [("type", .str "string"),
        ("enum", .arr [.str "request", .str "status"]),
        ("description", .str "request (the default) or status")])])])

/-- Every tool a node is offered. -/
def toolsFor (b : Board) (me : Caller) : List Json :=
  builtins (me.reachable b) ++ toolNodeOperations (me.reachable b)

/-- The answer to a harness that asks for its tools. -/
def mcpTools (updates : Bool) (b : Board) (me : Caller) : List Json :=
  toolsFor b me ++ if updates then [updateTool] else []

/-! ## The names -/

/-- The names of the built-in tools, which no wire changes. -/
def builtinNames : List String :=
  ["msg", "ask", "sent", "read", "write", "rm", "ls", "query", "secret_get", "inbox", "whoami",
    "connections", "ctx_clear", "usage"]

theorem map_toolName_builtins (reachable : List (Node × WireType)) :
    (builtins reachable).map toolName = builtinNames := rfl

/-- The operations that are listed for one reachable node. -/
def listedOf (p : Node × WireType) : List ToolOperation :=
  if p.2 = .read ∨ p.2 = .write then
    match p.1.config with
    | .tool cfg => cfg.operations.filter fun o => o.enabled
    | _ => []
  else []

/-- The names the operations of one reachable node are listed under. -/
def operationNames (p : Node × WireType) : List String :=
  (listedOf p).map fun op => op.mcpName p.1.name.raw

theorem map_toolName_toolNodeOperations (reachable : List (Node × WireType)) :
    (toolNodeOperations reachable).map toolName = reachable.flatMap operationNames := by
  rw [toolNodeOperations, List.map_flatMap]
  congr 1
  funext p
  rw [operationNames, listedOf]
  split
  · cases p.1.config with
    | tool cfg => simp [agentView, toolName, Json.get?, Json.asStr, tool]
    | _ => rfl
  · rfl

/-- The names of everything offered: the built-in ones, one for each listed operation
and the one for updates. -/
theorem map_toolName_mcpTools (updates : Bool) (b : Board) (me : Caller) :
    (mcpTools updates b me).map toolName =
      builtinNames ++ (me.reachable b).flatMap operationNames ++
        if updates then ["update"] else [] := by
  rw [mcpTools, toolsFor, List.map_append, List.map_append, map_toolName_builtins,
    map_toolName_toolNodeOperations]
  cases updates <;> rfl

end Mcp

end Wheel
