import Wheel.Mcp.Tools
import Wheel.Text.Percent

/-!
# The bridge behind the tools

The bridge forwards a tool call to the engine's route that implements it. A name with
`__` in it is an operation of a tool node: what stands before the first `__` is taken
for the node and what follows for the operation. Node names may hold `__` and end in
`_` themselves, and then the name that was offered reads back as another one.
-/

namespace Wheel

namespace Mcp

/-- Where a tool call is forwarded to. -/
inductive Route where
  | get (path : String)
  | post (path : String) (body : Json)
  deriving DecidableEq

/-- The bytes a query value keeps as they are. -/
def isUnreserved (b : UInt8) : Bool :=
  let c := Char.ofNat b.toNat
  c.isAlphanum || c = '-' || c = '_' || c = '.' || c = '~'

def urlencode (s : String) : String :=
  String.ofList ((Text.percentEncode isUnreserved s.toUTF8.toList).map fun b =>
    Char.ofNat b.toNat)

/-- A text argument, empty when it is missing. -/
def textArg (args : Json) (k : String) : String := ((args.get? k).bind Json.asStr).getD ""

def lsPath (args : Json) : String :=
  let node := textArg args "node"
  let pre := textArg args "prefix"
  if node.isEmpty then "/v1/cli/ls"
  else
    "/v1/cli/ls?node=" ++ urlencode node ++
      if pre.isEmpty then "" else "&prefix=" ++ urlencode pre

def inboxPath (args : Json) : String :=
  let id := textArg args "id"
  if id.isEmpty then "/v1/cli/inbox" else "/v1/cli/inbox?id=" ++ urlencode id

def sentPath (args : Json) : String :=
  "/v1/cli/sent?id=" ++ urlencode (textArg args "id") ++
    match (args.get? "wait_secs").bind Json.asU64 with
    | some wait => "&wait=" ++ toString wait
    | none => ""

def askBody (args : Json) : Json :=
  .obj [("to", (args.get? "to").getD .null), ("body", (args.get? "body").getD .null),
    ("await_secs",
      .int (((args.get? "timeout_secs").bind Json.asU64).getD defaultAwaitSecs : ℕ))]

/-- The routes of the tools that are no operation. -/
def builtinRoute (name : String) (args : Json) : Option Route :=
  match name with
  | "whoami" => some (.get "/v1/cli/whoami")
  | "connections" => some (.get "/v1/cli/connections")
  | "usage" => some (.get "/v1/cli/usage")
  | "list" => some (.get "/v1/cli/list")
  | "read" => some (.get ("/v1/cli/read?addr=" ++ urlencode (textArg args "addr")))
  | "secret_get" => some (.get ("/v1/cli/secret?addr=" ++ urlencode (textArg args "addr")))
  | "ls" => some (.get (lsPath args))
  | "inbox" => some (.get (inboxPath args))
  | "msg" => some (.post "/v1/cli/msg" args)
  | "ask" => some (.post "/v1/cli/msg" (askBody args))
  | "sent" => some (.get (sentPath args))
  | "write" => some (.post "/v1/cli/write" args)
  | "rm" => some (.post "/v1/cli/rm" args)
  | "query" => some (.post "/v1/cli/query" args)
  | "ctx_clear" => some (.post "/v1/cli/ctx/clear" (.obj []))
  | "update" =>
      match (args.get? "action").bind Json.asStr with
      | some "status" => some (.get "/v1/cli/update")
      | _ => some (.post "/v1/cli/update" (.obj []))
  | _ => none

/-- The route of an operation of a tool node. -/
def operationRoute (node op : String) (args : Json) : Route :=
  .post "/v1/cli/tool" (.obj [("node", .str node), ("op", .str op), ("args", args)])

/-- The route a tool name stands for. -/
def routeFor (name : String) (args : Json) : Option Route :=
  match Text.splitFirst ['_', '_'] name.toList with
  | some (node, op) => some (operationRoute (String.ofList node) (String.ofList op) args)
  | none => builtinRoute name args

theorem builtinRoute_ne_operationRoute (name : String) (args : Json) (node op : String)
    (args' : Json) : builtinRoute name args ≠ some (operationRoute node op args') := by
  intro h
  unfold builtinRoute at h
  split at h
  case h_16 => split at h <;> simp [operationRoute] at h
  all_goals simp [operationRoute] at h

/-! ## Names that read back -/

/-- A node name the bridge can tell from what follows it. -/
def Separable (name : NodeName) : Prop :=
  ¬ ['_', '_'] <:+: name.raw.toList ∧ name.raw.toList.getLast? ≠ some '_'

instance (name : NodeName) : Decidable (Separable name) :=
  inferInstanceAs (Decidable (_ ∧ _))

theorem toList_mcpName (op : ToolOperation) (name : String) :
    (op.mcpName name).toList = name.toList ++ '_' :: '_' :: op.id.toList := by
  simp [ToolOperation.mcpName]

theorem splitFirst_mcpName_iff {op : ToolOperation} {name : NodeName} :
    Text.splitFirst ['_', '_'] (op.mcpName name.raw).toList =
      some (name.raw.toList, op.id.toList) ↔ Separable name := by
  rw [toList_mcpName, Text.splitFirst_pair_iff, Separable]

/-- The route of an operation names the node and the operation it was built from, for
separable node names and no others. -/
theorem routeFor_mcpName_iff {op : ToolOperation} {name : NodeName} :
    (∀ args, routeFor (op.mcpName name.raw) args =
      some (operationRoute name.raw op.id args)) ↔ Separable name := by
  have hsplit := @splitFirst_mcpName_iff op name
  rw [← hsplit]
  constructor
  · intro h
    have hroute := h .null
    rw [routeFor] at hroute
    cases hsplit : Text.splitFirst ['_', '_'] (op.mcpName name.raw).toList with
    | none =>
        rw [hsplit] at hroute
        exact absurd hroute (builtinRoute_ne_operationRoute _ _ _ _ _)
    | some p =>
        obtain ⟨x, y⟩ := p
        rw [hsplit] at hroute
        simp only [operationRoute, Option.some.injEq, Route.post.injEq, Json.obj.injEq,
          List.cons.injEq, Prod.mk.injEq, Json.str.injEq, true_and, and_true] at hroute
        obtain ⟨hx, hy⟩ := hroute
        rw [← hx, ← hy, String.toList_ofList, String.toList_ofList]
  · intro h args
    rw [routeFor, h]
    simp [String.ofList_toList]

end Mcp

end Wheel
