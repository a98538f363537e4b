import Wheel.Core.Name

/-!
# Node types, wires and the wire matrix

A node's wire set is its capability set. `wireAllowed` enumerates the triples
that may exist at all, and everything else is denied.
-/

namespace Wheel

inductive NodeType where
  | agent
  | ctx
  | table
  | endpoint
  | script
  | mcp
  | vault
  | chest
  | tool
  deriving DecidableEq, Repr

namespace NodeType

def asStr : NodeType → String
  | .agent => "agent"
  | .ctx => "ctx"
  | .table => "table"
  | .endpoint => "endpoint"
  | .script => "script"
  | .mcp => "mcp"
  | .vault => "vault"
  | .chest => "chest"
  | .tool => "tool"

end NodeType

inductive WireType where
  | read
  | write
  | send
  deriving DecidableEq, Repr

/-- Does a wire of type `w` satisfy a requirement for `required`? Writing
implies reading on the node types whose row of the matrix says so. -/
def WireType.satisfies (w required : WireType) (target : NodeType) : Bool :=
  w == required ||
    match w, required, target with
    | .write, .read, .table => true
    | .write, .read, .chest => true
    | _, _, _ => false

/-- An outgoing wire, as stored on its source node. -/
structure Wire where
  target : Uuid
  wireType : WireType
  deriving DecidableEq

/-- The wire matrix. -/
def wireAllowed (source target : NodeType) (ty : WireType) : Bool :=
  match source, target, ty with
  | .agent, .agent, .send => true
  | .agent, .ctx, .read => true
  | .agent, .ctx, .write => true
  | .agent, .table, .read => true
  | .agent, .table, .write => true
  | .agent, .vault, .read => true
  | .agent, .chest, .read => true
  | .agent, .chest, .write => true
  | .agent, .script, .read => true
  | .agent, .mcp, .read => true
  | .agent, .tool, .read => true
  | .tool, .vault, .read => true
  | .ctx, .agent, .send => true
  | .endpoint, .agent, .send => true
  | .endpoint, .table, .write => true
  | .endpoint, .script, .send => true
  | .endpoint, .vault, .read => true
  | .script, .agent, .send => true
  | .script, .ctx, .read => true
  | .script, .ctx, .write => true
  | .script, .table, .read => true
  | .script, .table, .write => true
  | .script, .chest, .read => true
  | .script, .chest, .write => true
  | .script, .vault, .read => true
  | .script, .tool, .read => true
  | _, _, _ => false

inductive WireError where
  | notAllowed (source target : NodeType) (wireType : WireType)
  | selfWire
  deriving DecidableEq, Repr

/-- Validate a proposed wire: no self-wires and nothing the matrix denies. -/
def checkWire (sourceId : Uuid) (source : NodeType) (targetId : Uuid) (target : NodeType)
    (wireType : WireType) : Except WireError Unit :=
  if sourceId = targetId then .error .selfWire
  else if !wireAllowed source target wireType then
    .error (.notAllowed source target wireType)
  else .ok ()

end Wheel
