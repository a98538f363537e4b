import Wheel.Core.Validate
import Wheel.Concurrency.Program
import Wheel.Data.Keyed
import Wheel.Data.MergePatch

/-!
# Realising an emitted board

A board that a builder emits is checked as a whole against the board that exists,
which gives a plan or every refusal; the plan is then realised by one engine call
after the other. `validate` has three stages, each of which returns before the
next: whether the board is legal (`illegal`), whether the changes to what exists
are permitted (`unconsented`), and whether the new wires are (`unwired`).
-/

namespace Wheel.Api

namespace Apply

/-! ## Boards -/

structure NestedWire where
  target : String
  wireType : WireType
  deriving DecidableEq

/-- A node as emitted: its typed configuration, and the configuration in the
board's own words. -/
structure EmittedNode where
  name : String
  config : NodeConfig
  rawConfig : Json
  position : Position
  id : Option String
  wires : List NestedWire
  canon : rawConfig.Canon

theorem canon_empty : Json.Canon (.obj []) := by
  simp [Json.Canon, Json.CanonMembers, Json.Ascending]

def EmittedNode.nodeType (n : EmittedNode) : NodeType := n.config.nodeType

structure EmittedWire where
  source : String
  target : String
  wireType : WireType
  deriving DecidableEq, Repr

structure Removals where
  nodes : List String := []
  wires : List EmittedWire := []

structure EmittedBoard where
  nodes : List EmittedNode := []
  wires : List EmittedWire := []
  remove : Removals := {}

/-- An existing node, with the configuration a patch is diffed against. -/
structure ExistingNode where
  id : Uuid
  nodeType : NodeType
  config : Json
  canon : config.Canon

/-- What is already on the board: its nodes by name, and its wires. -/
structure ExistingBoard where
  nodes : Keyed (Prod.fst : String × ExistingNode → String)
  wires : List EmittedWire

def ExistingBoard.get? (b : ExistingBoard) (name : String) : Option ExistingNode :=
  (b.nodes.get? name).map Prod.snd

def ExistingBoard.nameOf (b : ExistingBoard) (id : String) : Option String :=
  (b.nodes.rows.find? fun e => e.2.id.display = id).map Prod.fst

/-! ## Refusals -/

inductive Refusal where
  | duplicateNodeName (name : String)
  | unknownNode (wireFrom wireTo missing : String)
  | selfWire (node : String)
  | nodeTypeMismatch (name : String) (existingType emittedType : NodeType)
  | renameNotSupported (id existingName emittedName : String)
  | patchNotPermitted (name : String)
  | wireTouchesExistingNode (source target : String) (wireType : WireType)
      (existing : List String)
  | boardTooLarge (nodes wires maxNodes maxWires : ℕ)
  | wireNotAllowed (source : String) (sourceType : NodeType) (target : String)
      (targetType : NodeType) (wireType : WireType)
  | invalidName (name reason : String)
  | invalidConfig (name : String) (reason : ConfigError)
  | unsupportedHarness (name harness : String)
  | removeUnknownNode (name : String)
  | removeUnknownWire (source target : String) (wireType : WireType)
  | conflictingChange (name : String)
  | wireToRemovedNode (source target : String) (wireType : WireType) (removed : String)
  | deleteNotPermitted (name : String) (nodeType : NodeType)
  | unwireNotPermitted (source target : String) (wireType : WireType)
  deriving DecidableEq

/-! ## Plans -/

/-- A node the plan will change, with the patch it will send. -/
structure PatchNode where
  name : String
  id : Uuid
  config : Json
  fields : List String
  replacedArrays : List String
  deriving DecidableEq

/-- A node the plan will remove, and the wires that go with it. -/
structure DeleteNode where
  name : String
  id : Uuid
  nodeType : NodeType
  wires : List EmittedWire
  deriving DecidableEq

structure Plan where
  createNodes : List EmittedNode
  patchNodes : List PatchNode
  createWires : List EmittedWire
  deleteWires : List EmittedWire
  deleteNodes : List DeleteNode

def Plan.isEmpty (p : Plan) : Bool :=
  p.createNodes.isEmpty && p.patchNodes.isEmpty && p.createWires.isEmpty &&
    p.deleteWires.isEmpty && p.deleteNodes.isEmpty

/-- What an apply is permitted to do, beyond being legal. -/
structure ApplyPolicy where
  allowPatch : Bool := false
  allowWire : Bool := false
  allowDelete : Bool := false
  allowUnwire : Bool := false
  deriving DecidableEq

def maxNodes : ℕ := 200

def maxWires : ℕ := 1000

/-! ## Patches -/

/-- The smallest patch that turns `current` into what the board asks for, the
fields it changes, and those in which a whole list is replaced. -/
def minimalPatch (current emitted : Json) : Json × List String × List String :=
  let desired := Json.mergePatch current emitted
  let before (key : String) := (Json.lookup current.members key).getD .null
  let after (key : String) := (Json.lookup desired.members key).getD .null
  let patch := emitted.members.filter fun e => before e.1 ≠ after e.1
  (.obj patch, patch.map Prod.fst,
    (patch.filter fun e => (before e.1).asArray.isSome && (after e.1).asArray.isSome).map Prod.fst)

/-! ## Is the board legal? -/

section Validate

variable (board : EmittedBoard) (existing : ExistingBoard) (policy : ApplyPolicy)

/-- The name an id stands for among the emitted nodes; the last one wins. -/
def byId (id : String) : Option String :=
  (board.nodes.reverse.find? fun n => n.id = some id).map EmittedNode.name

/-- The name a nested wire leads to. -/
def targetOf (id : String) : Option String := byId board id <|> existing.nameOf id

/-- The nested wires, addressed by name, and a refusal for each that leads nowhere. -/
def flattenWires : List EmittedWire × List Refusal :=
  (board.nodes.flatMap fun n => n.wires.filterMap fun w =>
      (targetOf board existing w.target).map fun t => ⟨n.name, t, w.wireType⟩,
    board.nodes.flatMap fun n => n.wires.filterMap fun w =>
      match targetOf board existing w.target with
      | some _ => none
      | none => some (.unknownNode n.name w.target w.target))

/-- Every emitted wire, addressed by name. -/
def emittedWires : List EmittedWire := (flattenWires board existing).1 ++ board.wires

/-- A refusal for every node whose name an earlier node has. -/
def duplicateNames : List String → List EmittedNode → List Refusal
  | _, [] => []
  | seen, n :: x =>
      (if n.name ∈ seen then [.duplicateNodeName n.name] else []) ++
        duplicateNames (n.name :: seen) x

def nameCheck (n : EmittedNode) : Except NameError Unit :=
  if n.nodeType = .table then validateTableName n.name else validateName n.name

/-- What is wrong with an emitted node by itself, and with the id it keeps. -/
def nodeRefusals (n : EmittedNode) : List Refusal :=
  (match nameCheck n with
    | .error e => [.invalidName n.name e.text]
    | .ok _ => []) ++
  (match validateConfigWith n.config [] with
    | .error e => [.invalidConfig n.name e]
    | .ok _ => []) ++
  (match n.config.asAgent with
    | some a => if a.harness ≠ .claude then [.unsupportedHarness n.name a.harness.asStr] else []
    | none => []) ++
  (match n.id with
    | some id =>
        match existing.nameOf id with
        | some name => if name ≠ n.name then [.renameNotSupported id name n.name] else []
        | none => []
    | none => [])

def typeRefusals (n : EmittedNode) : List Refusal :=
  match existing.get? n.name with
  | some present =>
      if present.nodeType ≠ n.nodeType then
        [.nodeTypeMismatch n.name present.nodeType n.nodeType]
      else []
  | none => []

/-- The type a name stands for: that of the existing node, or of the last emitted
one. -/
def typeOf (name : String) : Option NodeType :=
  ((existing.get? name).map ExistingNode.nodeType) <|>
    ((board.nodes.reverse.find? fun n => n.name = name).map EmittedNode.nodeType)

/-- The nodes to remove that are on the board. -/
def removedNodes : List String := board.remove.nodes.filter fun name => (existing.get? name).isSome

def removalRefusals (name : String) : List Refusal :=
  (if (existing.get? name).isNone then [.removeUnknownNode name] else []) ++
    if board.nodes.any fun n => n.name = name then [.conflictingChange name] else []

def wireRefusals (w : EmittedWire) : List Refusal :=
  if w.source = w.target then [.selfWire w.source]
  else
    match [w.source, w.target].find? fun n => n ∈ removedNodes board existing with
    | some removed => [.wireToRemovedNode w.source w.target w.wireType removed]
    | none =>
        match typeOf board existing w.source, typeOf board existing w.target with
        | some s, some t =>
            if !wireAllowed s t w.wireType then
              [.wireNotAllowed w.source s w.target t w.wireType]
            else []
        | none, _ => [.unknownNode w.source w.target w.source]
        | some _, none => [.unknownNode w.source w.target w.target]

/-- A deletion of a node takes the wire. -/
def isCascaded (w : EmittedWire) : Bool :=
  w.source ∈ removedNodes board existing || w.target ∈ removedNodes board existing

def removeWireRefusals (w : EmittedWire) : List Refusal :=
  if w ∈ existing.wires then [] else [.removeUnknownWire w.source w.target w.wireType]

/-- The wires to remove that no deletion of a node takes. -/
def deleteWires : List EmittedWire :=
  board.remove.wires.filter fun w => w ∈ existing.wires && !isCascaded board existing w

/-- Everything that makes the board illegal, in the order in which it is found. -/
def illegal : List Refusal :=
  duplicateNames [] board.nodes ++
  board.nodes.flatMap (nodeRefusals existing) ++
  board.nodes.flatMap (typeRefusals existing) ++
  (flattenWires board existing).2 ++
  board.remove.nodes.flatMap (removalRefusals board existing) ++
  (emittedWires board existing).flatMap (wireRefusals board existing) ++
  board.remove.wires.flatMap (removeWireRefusals existing)

/-! ## Are the changes permitted? -/

/-- The patch of an emitted node that exists, unless nothing would change. -/
def patchOf (n : EmittedNode) : Option PatchNode :=
  (existing.get? n.name).bind fun present =>
    let p := minimalPatch present.config n.rawConfig
    if p.2.1.isEmpty then none else some ⟨n.name, present.id, p.1, p.2.1, p.2.2⟩

def patchNodes : List PatchNode := board.nodes.filterMap (patchOf existing)

def createNodes : List EmittedNode :=
  board.nodes.filter fun n => (existing.get? n.name).isNone

def deleteNodes : List DeleteNode :=
  (removedNodes board existing).filterMap fun name =>
    (existing.get? name).map fun present =>
      ⟨name, present.id, present.nodeType,
        existing.wires.filter fun w => w.source = name || w.target = name⟩

/-- The changes to what exists that lack their consent. -/
def unconsented : List Refusal :=
  (if policy.allowPatch then []
    else (patchNodes board existing).map fun p => .patchNotPermitted p.name) ++
  (if policy.allowDelete then []
    else (deleteNodes board existing).map fun d => .deleteNotPermitted d.name d.nodeType) ++
  (if policy.allowUnwire then []
    else (deleteWires board existing).map fun w =>
      .unwireNotPermitted w.source w.target w.wireType)

/-- The emitted wires that are not on the board. -/
def createWires : List EmittedWire :=
  (emittedWires board existing).filter fun w => w ∉ existing.wires

/-- The ends of a wire that exist. -/
def touched (w : EmittedWire) : List String :=
  [w.source, w.target].filter fun name => (existing.get? name).isSome

/-- The new wires that lack their consent. -/
def unwired : List Refusal :=
  if policy.allowWire then []
  else
    (createWires board existing).filterMap fun w =>
      if (touched existing w).isEmpty then none
      else some (.wireTouchesExistingNode w.source w.target w.wireType (touched existing w))

def nodeCount : ℕ := board.nodes.length + board.remove.nodes.length

def wireCount : ℕ :=
  board.wires.length + (board.nodes.map fun n => n.wires.length).sum + board.remove.wires.length

/-- Check an emitted board against the matrix and the current board. -/
def validate : Except (List Refusal) Plan :=
  if maxNodes < nodeCount board ∨ maxWires < wireCount board then
    .error [.boardTooLarge (nodeCount board) (wireCount board) maxNodes maxWires]
  else if illegal board existing ≠ [] then .error (illegal board existing)
  else if unconsented board existing policy ≠ [] then .error (unconsented board existing policy)
  else if unwired board existing policy ≠ [] then .error (unwired board existing policy)
  else
    .ok
      { createNodes := createNodes board existing
        patchNodes := patchNodes board existing
        createWires := createWires board existing
        deleteWires := deleteWires board existing
        deleteNodes := deleteNodes board existing }

end Validate

/-! ## Realising a plan -/

/-- The calls to the engine. A node is created with its name, its configuration
and its position. -/
inductive Request where
  | createNode (name : String) (config : NodeConfig) (position : Position)
  | patchConfig (id : Uuid) (config : Json)
  | addWire (source target : Uuid) (wireType : WireType)
  | deleteNode (id : Uuid)
  | deleteWire (source target : Uuid) (wireType : WireType)

/-- What the engine answers: a value, or why it refuses. -/
abbrev Request.Answer : Request → Type
  | createNode _ _ _ => Except String Uuid
  | patchConfig _ _ => Except String Unit
  | addWire _ _ _ => Except String (Option String)
  | deleteNode _ => Except String Unit
  | deleteWire _ _ _ => Except String Unit

/-- A step of a report. -/
inductive Step where
  | removeWire (w : EmittedWire)
  | createNode (name : String)
  | patchNode (name : String)
  | createWire (w : EmittedWire)
  | removeNode (name : String)
  deriving DecidableEq

/-- A step that did not land, and why. -/
structure Failure where
  step : Step
  error : String
  deriving DecidableEq

/-- Exactly what happened. -/
structure ApplyReport where
  createdNodes : List String := []
  patchedNodes : List String := []
  createdWires : List EmittedWire := []
  deletedNodes : List String := []
  deletedWires : List EmittedWire := []
  warnings : List (EmittedWire × String) := []
  failures : List Failure := []
  deriving DecidableEq

def ApplyReport.isComplete (r : ApplyReport) : Bool := r.failures.isEmpty

def ApplyReport.fail (r : ApplyReport) (step : Step) (error : String) : ApplyReport :=
  { r with failures := r.failures ++ [⟨step, error⟩] }

/-- A part of an apply. -/
abbrev Apply (β : Type) := Concurrency.Program Request.Answer β

abbrev request (q : Request) : Apply q.Answer := Concurrency.Program.perform q

/-- The ids of the nodes by name. -/
abbrev Ids := String → Option Uuid

/-- Both ends of a wire, if they are on the board. -/
def Ids.ends (ids : Ids) (w : EmittedWire) : Option (Uuid × Uuid) :=
  match ids w.source, ids w.target with
  | some s, some t => some (s, t)
  | _, _ => none

def unwire (ids : Ids) : List EmittedWire → ApplyReport → Apply ApplyReport
  | [], r => pure r
  | w :: ws, r =>
      match ids.ends w with
      | none => unwire ids ws (r.fail (.removeWire w) "one end of this wire is no longer on the board")
      | some (s, t) => do
          match ← request (.deleteWire s t w.wireType) with
          | .ok _ => unwire ids ws { r with deletedWires := r.deletedWires ++ [w] }
          | .error e => unwire ids ws (r.fail (.removeWire w) e)

def create : List EmittedNode → Ids → ApplyReport → Apply (Ids × ApplyReport)
  | [], ids, r => pure (ids, r)
  | n :: ns, ids, r => do
      match ← request (.createNode n.name n.config n.position) with
      | .ok id =>
          create ns (Function.update ids n.name (some id))
            { r with createdNodes := r.createdNodes ++ [n.name] }
      | .error e => create ns ids (r.fail (.createNode n.name) e)

def patch : List PatchNode → ApplyReport → Apply ApplyReport
  | [], r => pure r
  | n :: ns, r => do
      match ← request (.patchConfig n.id (.obj [("config", n.config)])) with
      | .ok _ => patch ns { r with patchedNodes := r.patchedNodes ++ [n.name] }
      | .error e => patch ns (r.fail (.patchNode n.name) e)

def wire (ids : Ids) : List EmittedWire → ApplyReport → Apply ApplyReport
  | [], r => pure r
  | w :: ws, r =>
      match ids.ends w with
      | none =>
          let missing := if (ids w.source).isSome then w.target else w.source
          wire ids ws (r.fail (.createWire w)
            ("\"" ++ missing ++ "\" was not created, so this wire has no endpoint"))
      | some (s, t) => do
          match ← request (.addWire s t w.wireType) with
          | .ok warning =>
              wire ids ws { r with
                createdWires := r.createdWires ++ [w]
                warnings := r.warnings ++ (warning.map fun m => (w, m)).toList }
          | .error e => wire ids ws (r.fail (.createWire w) e)

def delete : List DeleteNode → ApplyReport → Apply ApplyReport
  | [], r => pure r
  | n :: ns, r => do
      match ← request (.deleteNode n.id) with
      | .ok _ => delete ns { r with deletedNodes := r.deletedNodes ++ [n.name] }
      | .error e => delete ns (r.fail (.removeNode n.name) e)

/-- Nothing is destroyed after a failure. -/
def keep : List DeleteNode → ApplyReport → ApplyReport
  | [], r => r
  | n :: ns, r =>
      keep ns (r.fail (.removeNode n.name)
        "not removed: an earlier step failed, so nothing was destroyed")

/-- The ids by name before anything is created. -/
def ExistingBoard.ids (existing : ExistingBoard) : Ids :=
  fun name => (existing.get? name).map ExistingNode.id

/-- Realise a validated plan: unwire, create, patch, wire, and delete last. -/
def execute (plan : Plan) (existing : ExistingBoard) : Apply ApplyReport := do
  let r ← unwire existing.ids plan.deleteWires {}
  let (ids, r) ← create plan.createNodes existing.ids r
  let r ← patch plan.patchNodes r
  let r ← wire ids plan.createWires r
  if r.failures.isEmpty then delete plan.deleteNodes r else pure (keep plan.deleteNodes r)

end Apply

end Wheel.Api
