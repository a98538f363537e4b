import Wheel.Data.MergePatch
import Wheel.Db.BoardState

/-!
# Nodes as JSON

What a node serialises to. The type and the configuration stand beside the other
fields of the node, and a field without a value is left out where its type says so.
The members of an object are listed in the order of the fields. How an instant is
written is a parameter.
-/

namespace Wheel

open Json

/-- A node as a board lists it, with the wires that start at it. -/
structure ListedNode where
  node : Node
  wires : List Wire

/-- Every node of a board with its wires, in the order of the names. -/
def Board.listed (b : Board) : List ListedNode := b.list.map fun n => ⟨n, b.wiresFrom n.id⟩

/-- A member that is left out when it has no value. -/
def optionalMember (key : String) (value : Option Json) : List (String × Json) :=
  (value.map fun v => (key, v)).toList

/-! ## Tools -/

def ToolKind.asStr : ToolKind → String
  | .http => "http"
  | .email => "email"

def ToolFormat.asStr : ToolFormat → String
  | .openapi => "openapi"
  | .swagger2 => "swagger2"
  | .postman => "postman"
  | .insomnia => "insomnia"
  | .manual => "manual"

def ParamLocation.asStr : ParamLocation → String
  | .header => "header"
  | .path => "path"
  | .query => "query"
  | .cookie => "cookie"
  | .body => "body"

def FillMode.asStr : FillMode → String
  | .agent => "agent"
  | .static => "static"
  | .vault => "vault"
  | .hidden => "hidden"

def Fill.toJson (f : Fill) : Json :=
  .obj (("mode", .str f.mode.asStr) :: optionalMember "value" (f.value.map .str) ++
    optionalMember "vault_ref" (f.vaultRef.map .str))

def ToolParam.toJson (p : ToolParam) : Json :=
  .obj ([("name", .str p.name), ("location", .str p.location.asStr),
    ("required", .bool p.required)] ++ optionalMember "description" (p.description.map .str) ++
    optionalMember "schema" p.schema ++ [("fill", p.fill.toJson)])

def ToolOperation.toJson (o : ToolOperation) : Json :=
  .obj ([("id", .str o.id), ("method", .str o.method.asStr), ("path", .str o.path)] ++
    optionalMember "summary" (o.summary.map .str) ++
    [("enabled", .bool o.enabled), ("params", .arr (o.params.map ToolParam.toJson))])

/-! ## The other configurations -/

def GitSource.toJson (g : GitSource) : Json :=
  .obj (("url", .str g.url) :: optionalMember "ref" (g.gitRef.map .str) ++
    optionalMember "vault_ref" (g.vaultRef.map .str))

def Workspace.toJson (w : Workspace) : Json :=
  .obj (("path", .str w.path) :: optionalMember "git" (w.git.map GitSource.toJson))

def Budget.toJson (b : Budget) : Json :=
  .obj (optionalMember "max_turns" (b.maxTurns.map fun n => .int n) ++
    optionalMember "max_usd" (b.maxUsd.map .float))

def AgentConfig.toJson (c : AgentConfig) : Json :=
  .obj (("harness", .str c.harness.asStr) :: optionalMember "model" (c.model.map .str) ++
    [("system_prompt", .str c.systemPrompt), ("run_on_startup", .bool c.runOnStartup),
      ("ephemeral_context", .bool c.ephemeralContext)] ++
    optionalMember "idle_timeout_secs" (c.idleTimeoutSecs.map fun n => .int n) ++
    optionalMember "budget" (c.budget.map Budget.toJson) ++
    (if c.workspaces.isEmpty then []
      else [("workspaces", .arr (c.workspaces.map Workspace.toJson))]) ++
    optionalMember "fallback_vault" (c.fallbackVault.map fun v => .str v.display))

def ColumnType.asStr : ColumnType → String
  | .text => "text"
  | .integer => "integer"
  | .real => "real"
  | .blob => "blob"
  | .json => "json"

def Column.toJson (c : Column) : Json :=
  .obj [("name", .str c.name.raw), ("type", .str c.columnType.asStr)]

def ResponseMode.asStr : ResponseMode → String
  | .ack => "ack"
  | .script => "script"

def EndpointAuth.toJson : EndpointAuth → Json
  | .none => .obj [("mode", .str "none")]
  | .bearer vaultRef => .obj [("mode", .str "bearer"), ("vault_ref", .str vaultRef)]

def EndpointConfig.toJson (c : EndpointConfig) : Json :=
  .obj [("method", .str c.method.asStr), ("path", .str c.path),
    ("response_mode", .str c.responseMode.asStr), ("auth", c.auth.toJson)]

def ScriptLanguage.asStr : ScriptLanguage → String
  | .python => "python"
  | .ts => "ts"
  | .js => "js"

def ScriptConfig.toJson (c : ScriptConfig) : Json :=
  .obj ([("language", .str c.language.asStr), ("source", .str c.source)] ++
    optionalMember "timeout_secs" (c.timeoutSecs.map fun n => .int n))

/-- A map of texts. -/
def textsToJson (env : List (String × String)) : Json :=
  .obj (env.map fun e => (e.1, .str e.2))

def McpConfig.toJson : McpConfig → Json
  | .stdio command args env =>
      .obj ([("transport", .str "stdio"), ("command", .str command)] ++
        optionalMember "args" (args.map fun a => .arr (a.map .str)) ++
        optionalMember "env" (env.map textsToJson))
  | .http url env =>
      .obj ([("transport", .str "http"), ("url", .str url)] ++
        optionalMember "env" (env.map textsToJson))

def Position.toJson (p : Position) : Json := .obj [("x", .int p.x.toInt), ("y", .int p.y.toInt)]

def Wire.toJson (w : Wire) : Json :=
  .obj [("to", .str w.target.display), ("type", .str (w.wireType.asStr))]

section Instants

variable (rfc3339 : Timestamp → String)

def ToolSource.toJson (s : ToolSource) : Json :=
  .obj [("format", .str s.format.asStr), ("raw", .str s.raw),
    ("imported_at", .str (rfc3339 s.importedAt))]

def ToolConfig.toJson (c : ToolConfig) : Json :=
  .obj [("kind", .str c.kind.asStr), ("source", c.source.toJson rfc3339),
    ("base_url", .str c.baseUrl), ("operations", .arr (c.operations.map ToolOperation.toJson))]

/-- The `config` half of a node. -/
def NodeConfig.toJson : NodeConfig → Json
  | .agent c => c.toJson
  | .ctx c => .obj [("markdown", .str c.markdown)]
  | .table c => .obj [("columns", .arr (c.columns.map Column.toJson))]
  | .endpoint c => c.toJson
  | .script c => c.toJson
  | .mcp c => c.toJson
  | .vault c => .obj [("keys", .arr (c.keys.map .str))]
  | .chest _ => .obj []
  | .tool c => c.toJson rfc3339

def ListedNode.toJson (n : ListedNode) : Json :=
  .obj [("id", .str n.node.id.display), ("name", .str n.node.name.raw),
    ("position", n.node.position.toJson), ("wires", .arr (n.wires.map Wire.toJson)),
    ("type", .str n.node.nodeType.asStr), ("config", n.node.config.toJson rfc3339)]

end Instants

end Wheel
