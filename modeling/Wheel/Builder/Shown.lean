import Wheel.Db.NodeJson

/-!
# The board a builder is shown

The board goes to a model as data. `redact` works on the serialised node: it hides the
values of an mcp server's environment, replaces the imported text of a tool by its
length and drops the runtime state. `redactCredentials` is the other projection, the one
for guests, and works on the configuration itself. Both leave the structure.
-/

namespace Wheel

open Json

/-- What a board shows a caller below `admin`: every credential field emptied. -/
def NodeConfig.redactCredentials : NodeConfig → NodeConfig
  | .vault _ => .vault ⟨[]⟩
  | .tool c =>
      .tool { c with
        operations := c.operations.map fun op =>
          { op with
            params := op.params.map fun p =>
              { p with fill := { p.fill with value := none, vaultRef := none } } } }
  | .endpoint c =>
      .endpoint { c with
        auth := match c.auth with
          | .none => .none
          | .bearer _ => .bearer "" }
  | .mcp (.stdio command args _) => .mcp (.stdio command args none)
  | .mcp (.http url _) => .mcp (.http url none)
  | .agent c =>
      .agent { c with
        workspaces := c.workspaces.map fun w =>
          { w with git := w.git.map fun g => { g with vaultRef := none } } }
  | .ctx c => .ctx c
  | .table c => .table c
  | .script c => .script c
  | .chest c => .chest c

namespace Builder

def redacted : String := "<redacted>"

/-- Change the value at a path of member names, if there is one. -/
def modifyAt (f : Json → Json) : List String → Json → Json
  | [], v => f v
  | k :: path, .obj m =>
      .obj (m.map fun e => if e.1 = k then (e.1, modifyAt f path e.2) else e)
  | _ :: _, v => v

/-- Replace every value of an object. -/
def hideValues : Json → Json
  | .obj env => .obj (env.map fun e => (e.1, .str redacted))
  | v => v

/-- Replace a text by its length in bytes. -/
def elide (raw : Json) : Json :=
  .str ("<" ++ toString ((raw.asStr.map String.utf8ByteSize).getD 0) ++
    " bytes of imported spec elided>")

def dropState : Json → Json
  | .obj m => .obj (eraseMember "state" m)
  | v => v

def redact (node : Json) : Json :=
  dropState
    (match (node.get? "type").bind Json.asStr with
      | some "mcp" => modifyAt hideValues ["config", "env"] node
      | some "tool" => modifyAt elide ["config", "source", "raw"] node
      | _ => node)

/-- The board as data for the model. -/
def boardForBuilder (rfc3339 : Timestamp → String) (nodes : List ListedNode) : Json :=
  .obj [("nodes", .arr (nodes.map fun n => redact (n.toJson rfc3339)))]

end Builder

end Wheel
