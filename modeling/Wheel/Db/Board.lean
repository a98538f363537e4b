import Wheel.Db.Vault

/-!
# The operations of the board

Creating, updating and deleting nodes, and adding and removing wires. The row of a
node and the sqlite table behind it are changed by statements of their own, so each
operation answers the board it leaves also when it fails.
-/

namespace Wheel

inductive BoardError where
  | ambiguous (text : String)
  | notFound (id : String)
  | nameTaken (name : String)
  | wire (e : WireError)
  | config (e : ConfigError)
  | storage (text : String)
  | fallback (text : String)
  | duplicatePath (text : String)
  deriving DecidableEq

namespace Board

variable (lite : Sqlite) (b : Board)

/-- The outcome of an operation: the board it leaves, and its answer. -/
abbrev Outcome (α : Type) := Board × Except BoardError α

def duplicatePathText (conflict : NodeName) (cfg : EndpointConfig) : String :=
  "endpoint NodeName(\"" ++ conflict.raw ++ "\") already answers " ++ cfg.method.asStr ++ " " ++
    cfg.path ++ " -- two endpoints at the same path is not a second listener, " ++
    "it is one of them silently shadowing the other"

/-- The node is another endpoint with the method and the path. -/
def conflicts (node : Node) (cfg : EndpointConfig) (n : Node) : Bool :=
  n.id ≠ node.id && n.config.asEndpoint.any fun other =>
    other.method = cfg.method && other.path = cfg.path

/-- No two endpoints answer one method and path. -/
def checkEndpointPathUnique (node : Node) : Except BoardError Unit :=
  match node.config.asEndpoint with
  | none => .ok ()
  | some cfg =>
      match b.list.find? (conflicts node cfg) with
      | some conflict => .error (.duplicatePath (duplicatePathText conflict.name cfg))
      | none => .ok ()

def fallbackOf (n : Node) : Option Uuid := n.config.asAgent.bind (·.fallbackVault)

/-- A fallback is a vault the agent reads. -/
def checkFallbackVault (node : Node) : Except BoardError Unit :=
  match fallbackOf node with
  | none => .ok ()
  | some vault => (Vault.checkFallback b node.id vault).mapError .fallback

/-- Insert the row of a node; its id and its name must be free. -/
def insertRow (node : Node) : Option Board :=
  if b.nodes.rows.any fun n => n.name = node.name then none
  else
    (b.nodes.insert node).map fun nodes =>
      { b with
        nodes
        status :=
          if node.nodeType = .agent then Function.update b.status node.id (some .stopped)
          else b.status }

def withTables (ts : SqlTables) : Board := { b with tables := ts }

/-- Create the table of a new node, or delete the node again. -/
def createStorage (node : Node) : Outcome Unit :=
  match node.config.asTable with
  | none => (b, .ok ())
  | some cfg =>
      match validateTableName node.name.raw with
      | .error e => (b.deleteRow node.id, .error (.storage e.text))
      | .ok () =>
          let r := Tables.create lite b.tables node.name cfg
          match r.2 with
          | .error e => ((b.withTables r.1).deleteRow node.id, .error (.storage e))
          | .ok () => (b.withTables r.1, .ok ())

def createWith (node : Node) (allowHosts : List String) : Outcome Unit :=
  match validateConfigWith node.config allowHosts, checkEndpointPathUnique b node,
      checkFallbackVault b node with
  | .error e, _, _ => (b, .error (.config e))
  | _, .error e, _ => (b, .error e)
  | _, _, .error e => (b, .error e)
  | .ok (), .ok (), .ok () =>
      match b.insertRow node with
      | none => (b, .error (.nameTaken node.name.raw))
      | some b => b.createStorage lite node

/-- What the table of a node has to follow when the node is updated. -/
def updateStorage (node : Node) : Outcome Unit :=
  let was := ((b.get node.id).filter fun n => n.config.asTable.isSome).map Node.name
  let stored (r : Tables.Outcome Unit) : Outcome Unit :=
    (b.withTables r.1, r.2.mapError .storage)
  match was, node.config.asTable with
  | some old, some _ =>
      if old = node.name then (b, .ok ()) else stored (Tables.rename b.tables old node.name)
  | some old, none => stored (Tables.drop b.tables old)
  | none, some cfg =>
      match validateTableName node.name.raw with
      | .error e => (b, .error (.storage e.text))
      | .ok () => stored (Tables.create lite b.tables node.name cfg)
  | none, none => (b, .ok ())

/-- The columns an update writes. -/
def overwrite (node n : Node) : Node :=
  { n with
    name := node.name
    position := node.position
    config := node.config }

theorem overwrite_id (node n : Node) : (overwrite node n).id = n.id := rfl

/-- Overwrite the row of a node; its name must be free. -/
def writeRow (node : Node) : Outcome Unit :=
  if (b.get node.id).isNone then (b, .ok ())
  else if b.nameHeld node.id node.name then (b, .error (.nameTaken node.name.raw))
  else
    ({ b with nodes := b.nodes.modify node.id (overwrite node) (overwrite_id node) }, .ok ())

/-- The checks in front of an update: only a changed fallback is checked. -/
def checkUpdate (node : Node) (allowHosts : List String) : Except BoardError Unit :=
  match validateConfigWith node.config allowHosts, checkEndpointPathUnique b node with
  | .error e, _ => .error (.config e)
  | _, .error e => .error e
  | .ok (), .ok () =>
      if (b.get node.id).bind fallbackOf ≠ fallbackOf node then checkFallbackVault b node
      else .ok ()

def updateWith (node : Node) (allowHosts : List String) : Outcome Unit :=
  match checkUpdate b node allowHosts with
  | .error e => (b, .error e)
  | .ok () =>
      let r := b.updateStorage lite node
      match r.2 with
      | .error e => (r.1, .error e)
      | .ok () => r.1.writeRow node

/-- Drop the table of a node, if it is a table node. -/
def dropStorage (id : Uuid) : Board × Except String Unit :=
  match (b.get id).bind fun n => n.config.asTable.map fun _ => n.name with
  | some name =>
      let r := Tables.drop b.tables name
      (b.withTables r.1, r.2)
  | none => (b, .ok ())

/-- Delete a node with its table; the answer says whether it was there. -/
def delete (id : Uuid) : Board × Except String Bool :=
  let r := b.dropStorage id
  match r.2 with
  | .error e => (r.1, .error e)
  | .ok () => (r.1.deleteRow id, .ok (b.get id).isSome)

/-! ## Wires -/

/-- A `ctx` node the agent already writes. -/
def agentCtxWriteTarget (agent : Uuid) : Option NodeName :=
  (b.wiresFrom agent).findSome? fun w =>
    if w.wireType = .write then
      (b.get w.target).bind fun n => if n.nodeType = .ctx then some n.name else none
    else none

def isPublicEndpoint (n : Node) : Bool := n.config.asEndpoint.any fun cfg => cfg.auth = .none

/-- An endpoint without authentication that already sends to the agent. -/
def unauthenticatedEndpointSendingTo (agent : Uuid) : Option Uuid :=
  (b.wiresTo agent).findSome? fun w =>
    if w.2 = .send then
      (b.get w.1).bind fun n => if isPublicEndpoint n then some w.1 else none
    else none

/-- A wire that lets anybody on the internet reach a capable agent. -/
def endpointAgentCtxWarning (source target : Node) (ty : WireType) : Option String :=
  if source.nodeType = .endpoint ∧ target.nodeType = .agent ∧ ty = .send then
    if !isPublicEndpoint source then none
    else
      match b.agentCtxWriteTarget target.id with
      | some ctx =>
          some ("finding 043 addendum: this exposes ctx " ++ ctx.raw ++
            " to unauthenticated internet content via agent " ++ target.name.raw ++
            " — reinjected into the system prompt of every OTHER agent that reads " ++ ctx.raw ++
            ", on every start or context-clear, not scoped to one turn")
      | none =>
          some ("finding 043: this exposes agent " ++ target.name.raw ++
            " to unauthenticated input from anyone who can reach the endpoint's public URL")
  else if source.nodeType = .agent ∧ target.nodeType = .ctx ∧ ty = .write then
    if (b.unauthenticatedEndpointSendingTo source.id).isSome then
      some ("finding 043 addendum: agent " ++ source.name.raw ++
        " already receives unauthenticated internet content from an endpoint with no auth" ++
        " — with this wire, that content is reinjected into the system prompt of every OTHER" ++
        " agent that reads " ++ target.name.raw ++
        ", on every start or context-clear, not scoped to one turn")
    else none
  else none

/-- Store a wire, unless it is stored already; who granted it must be a node. -/
def insertWire (w : WireRow) : Option Board :=
  if b.wires.any fun r => r.source = w.source && r.target = w.target && r.wireType = w.wireType
  then some b
  else if w.grantedBy.any fun g => (b.get g).isNone then none
  else some { b with wires := b.wires ++ [w] }

/-- Create a wire after checking it against the matrix; a warning is no error. -/
def addWire (source target : Uuid) (ty : WireType) (grantedBy : Option Uuid) :
    Outcome (Option String) :=
  match b.get source, b.get target with
  | none, _ => (b, .error (.notFound source.display))
  | _, none => (b, .error (.notFound target.display))
  | some from_, some to_ =>
      match checkWire source from_.nodeType target to_.nodeType ty with
      | .error e => (b, .error (.wire e))
      | .ok () =>
          let isVaultRead :=
            from_.nodeType = .agent ∧ to_.nodeType = .vault ∧ ty = .read
          match if isVaultRead then Vault.findAmbiguity b source (some target) else none with
          | some a => (b, .error (.ambiguous a.text))
          | none =>
              let overlap :=
                if isVaultRead then Vault.findDeclaredOverlap b source (some target) else none
              let warning :=
                (overlap.map Vault.Ambiguity.text).or (b.endpointAgentCtxWarning from_ to_ ty)
              match b.insertWire ⟨source, target, ty, grantedBy⟩ with
              | some b => (b, .ok warning)
              | none => (b, .error (.notFound "FOREIGN KEY constraint failed"))

/-- Remove a wire; the answer says whether it was there. -/
def removeWire (source target : Uuid) (ty : WireType) : Board × Bool :=
  let is : WireRow → Bool := fun w => w.source = source && w.target = target && w.wireType = ty
  ({ b with wires := b.wires.filter fun w => !is w }, b.wires.any is)

/-! ## Tables -/

/-- Make sure that every table node has its table; one that fails stops no other. -/
def ensureTables : Board :=
  b.withTables (b.nodes.rows.foldl
    (fun ts n =>
      match n.config.asTable with
      | some cfg => (Tables.ensure lite ts n.name cfg).1
      | none => ts)
    b.tables)

end Board

end Wheel
