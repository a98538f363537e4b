import Wheel.Core.Tool
import Wheel.Core.Wire

/-!
# Nodes

A node of the board is a name, a position and a configuration. The configuration
is one of nine kinds and carries its own type, so a node whose type and
configuration disagree cannot be built.
-/

namespace Wheel

/-- A position in grid cells, of 16 bits each. -/
structure Position where
  x : Int16
  y : Int16
  deriving DecidableEq

/-- Round to the nearest cell, half away from zero, within the range of a cell. -/
def clampCell (v : ℚ) : Int16 :=
  let r : ℤ := if 0 ≤ v then ⌊v + 1 / 2⌋ else ⌈v - 1 / 2⌉
  Int16.ofInt (max (-32768) (min r 32767))

def Position.new (x y : ℚ) : Position := ⟨clampCell x, clampCell y⟩

/-! ## The configurations -/

inductive Harness where
  | claude
  | codex
  deriving DecidableEq, Repr

def Harness.asStr : Harness → String
  | .claude => "claude"
  | .codex => "codex"

structure GitSource where
  url : String
  gitRef : Option String
  vaultRef : Option String
  deriving DecidableEq

structure Workspace where
  path : String
  git : Option GitSource
  deriving DecidableEq

/-- What the board sets as an agent's ceiling. -/
structure Budget where
  maxTurns : Option ℕ
  maxUsd : Option ℚ
  deriving DecidableEq

structure AgentConfig where
  harness : Harness
  model : Option String
  systemPrompt : String
  runOnStartup : Bool
  ephemeralContext : Bool
  idleTimeoutSecs : Option ℕ
  budget : Option Budget
  workspaces : List Workspace
  fallbackVault : Option Uuid
  deriving DecidableEq

structure CtxConfig where
  markdown : String
  deriving DecidableEq

inductive ColumnType where
  | text
  | integer
  | real
  | blob
  | json
  deriving DecidableEq, Repr

/-- The sqlite type of a column. -/
def ColumnType.sqliteType : ColumnType → String
  | .text => "TEXT"
  | .json => "TEXT"
  | .integer => "INTEGER"
  | .real => "REAL"
  | .blob => "BLOB"

structure Column where
  name : Ident
  columnType : ColumnType
  deriving DecidableEq

structure TableConfig where
  columns : List Column
  deriving DecidableEq

inductive HttpMethod where
  | get
  | post
  | put
  | delete
  deriving DecidableEq, Repr

def HttpMethod.asStr : HttpMethod → String
  | .get => "GET"
  | .post => "POST"
  | .put => "PUT"
  | .delete => "DELETE"

inductive ResponseMode where
  | ack
  | script
  deriving DecidableEq, Repr

inductive EndpointAuth where
  | none
  | bearer (vaultRef : String)
  deriving DecidableEq

structure EndpointConfig where
  method : HttpMethod
  path : String
  responseMode : ResponseMode
  auth : EndpointAuth
  deriving DecidableEq

inductive ScriptLanguage where
  | python
  | ts
  | js
  deriving DecidableEq, Repr

def defaultScriptTimeoutSecs : ℕ := 60

structure ScriptConfig where
  language : ScriptLanguage
  source : String
  timeoutSecs : Option ℕ
  deriving DecidableEq

/-- The timeout of a script, defaulted. -/
def ScriptConfig.timeout (c : ScriptConfig) : ℕ := c.timeoutSecs.getD defaultScriptTimeoutSecs

/-- What runs an mcp server; each transport has its own fields. -/
inductive McpConfig where
  | stdio (command : String) (args : Option (List String))
      (env : Option (List (String × String)))
  | http (url : String) (env : Option (List (String × String)))
  deriving DecidableEq

structure VaultConfig where
  keys : List String
  deriving DecidableEq

structure ChestConfig where
  deriving DecidableEq

/-- The configuration of a node, tagged with its type. -/
inductive NodeConfig where
  | agent (c : AgentConfig)
  | ctx (c : CtxConfig)
  | table (c : TableConfig)
  | endpoint (c : EndpointConfig)
  | script (c : ScriptConfig)
  | mcp (c : McpConfig)
  | vault (c : VaultConfig)
  | chest (c : ChestConfig)
  | tool (c : ToolConfig)

namespace NodeConfig

def nodeType : NodeConfig → NodeType
  | .agent _ => .agent
  | .ctx _ => .ctx
  | .table _ => .table
  | .endpoint _ => .endpoint
  | .script _ => .script
  | .mcp _ => .mcp
  | .vault _ => .vault
  | .chest _ => .chest
  | .tool _ => .tool

def asAgent : NodeConfig → Option AgentConfig
  | .agent c => some c
  | _ => none

def asTable : NodeConfig → Option TableConfig
  | .table c => some c
  | _ => none

def asEndpoint : NodeConfig → Option EndpointConfig
  | .endpoint c => some c
  | _ => none

/-- The keys a vault declares, and nothing for any other node. -/
def declaredKeys : NodeConfig → List String
  | .vault c => c.keys
  | _ => []

theorem asTable_eq_some_iff {c : NodeConfig} {t : TableConfig} :
    c.asTable = some t ↔ c = .table t := by
  cases c <;> simp [asTable]

theorem asEndpoint_eq_some_iff {c : NodeConfig} {e : EndpointConfig} :
    c.asEndpoint = some e ↔ c = .endpoint e := by
  cases c <;> simp [asEndpoint]

theorem asTable_isSome {c : NodeConfig} : c.asTable.isSome = true ↔ c.nodeType = .table := by
  cases c <;> simp [asTable, nodeType]

end NodeConfig

/-- The article an operator message puts before a node type. -/
def NodeType.article : NodeType → String
  | .agent | .endpoint => "an"
  | _ => "a"

/-- A board node, without the wires that start at it. -/
structure Node where
  id : Uuid
  name : NodeName
  position : Position
  config : NodeConfig

def Node.nodeType (n : Node) : NodeType := n.config.nodeType

end Wheel
