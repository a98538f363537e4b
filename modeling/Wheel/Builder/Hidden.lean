import Wheel.Builder.Shown

/-!
# What the builder cannot tell

Two boards differ in secrets only when they agree once every secret an operator typed
is blanked: the values of an mcp server's environment, the static fills of a tool and
its imported text, whose length stays. A board is hidden when the builder is shown the
same for every board that differs from it in secrets only. The environments and the
imported texts are hidden; the static fills are sent as they are, so the boards that
are hidden are those without one (`hidden_iff`).
-/

namespace Wheel

open Json

/-! ## Boards without their secrets -/

def Fill.withoutSecrets (f : Fill) : Fill :=
  if f.mode = .static then { f with value := f.value.map fun _ => "" } else f

def ToolParam.withoutSecrets (p : ToolParam) : ToolParam :=
  { p with fill := p.fill.withoutSecrets }

def ToolOperation.withoutSecrets (o : ToolOperation) : ToolOperation :=
  { o with params := o.params.map ToolParam.withoutSecrets }

/-- A blank text of as many bytes. -/
def blank (s : String) : String := String.ofList (List.replicate s.utf8ByteSize ' ')

def ToolConfig.withoutSecrets (c : ToolConfig) : ToolConfig :=
  { c with
    source := { c.source with raw := blank c.source.raw }
    operations := c.operations.map ToolOperation.withoutSecrets }

def withoutValues (env : List (String × String)) : List (String × String) :=
  env.map fun e => (e.1, "")

def McpConfig.withoutSecrets : McpConfig → McpConfig
  | .stdio command args env => .stdio command args (env.map withoutValues)
  | .http url env => .http url (env.map withoutValues)

def NodeConfig.withoutSecrets : NodeConfig → NodeConfig
  | .mcp c => .mcp c.withoutSecrets
  | .tool c => .tool c.withoutSecrets
  | c => c

def ListedNode.withoutSecrets (n : ListedNode) : ListedNode :=
  { n with node := { n.node with config := n.node.config.withoutSecrets } }

/-- A static fill with a value. -/
def Fill.IsStaticValue (f : Fill) : Prop := f.mode = .static ∧ f.value.isSome = true

/-- Some parameter of a tool is filled with a value an operator typed. -/
def NodeConfig.HasStaticFill (c : NodeConfig) : Prop :=
  ∃ t, c = .tool t ∧ ∃ o ∈ t.operations, ∃ p ∈ o.params, p.fill.IsStaticValue

theorem utf8ByteSize_blank (s : String) : (blank s).utf8ByteSize = s.utf8ByteSize := by
  unfold blank
  induction s.utf8ByteSize with
  | zero => rfl
  | succ n ih =>
      rw [List.replicate_succ, String.ofList_cons, String.utf8ByteSize_append, ih]
      simp [Nat.add_comm]
      rfl

theorem Fill.isStaticValue_withoutSecrets (f : Fill) :
    f.withoutSecrets.IsStaticValue ↔ f.IsStaticValue := by
  unfold withoutSecrets IsStaticValue
  split <;> simp

theorem Fill.withoutSecrets_of_not {f : Fill} (h : ¬ f.IsStaticValue) :
    f.withoutSecrets = f := by
  unfold withoutSecrets
  split
  · rename_i hmode
    have hvalue : f.value = none := by
      simpa [IsStaticValue, hmode] using h
    cases f
    simp_all
  · rfl

theorem NodeConfig.hasStaticFill_withoutSecrets (c : NodeConfig) :
    c.withoutSecrets.HasStaticFill ↔ c.HasStaticFill := by
  cases c with
  | tool t =>
      simp [withoutSecrets, HasStaticFill, ToolConfig.withoutSecrets,
        ToolOperation.withoutSecrets, ToolParam.withoutSecrets,
        Fill.isStaticValue_withoutSecrets]
  | mcp t => simp [withoutSecrets, HasStaticFill]
  | _ => rfl

/-- A guest's view holds no secret either: blanking the secrets first changes only what
blanking changes afterwards, the imported text. -/
theorem NodeConfig.redactCredentials_withoutSecrets (c : NodeConfig) :
    c.withoutSecrets.redactCredentials = c.redactCredentials.withoutSecrets := by
  have hfill : ∀ f : Fill, ({ f.withoutSecrets with value := none, vaultRef := none } : Fill) =
      ({ f with value := none, vaultRef := none } : Fill).withoutSecrets := by
    intro f
    unfold Fill.withoutSecrets
    split <;> rfl
  cases c with
  | tool t =>
      simp only [withoutSecrets, redactCredentials, ToolConfig.withoutSecrets,
        ToolOperation.withoutSecrets, List.map_map, Function.comp_def, ToolParam.withoutSecrets,
        hfill]
  | mcp t => cases t <;> rfl
  | _ => rfl

/-! ## Other secrets on the same board -/

/-- Another text than the one that was typed. -/
def retype (s : String) : String := s ++ "!"

def Fill.retyped (f : Fill) : Fill :=
  if f.mode = .static then { f with value := f.value.map retype } else f

def ToolParam.retyped (p : ToolParam) : ToolParam := { p with fill := p.fill.retyped }

def ToolOperation.retyped (o : ToolOperation) : ToolOperation :=
  { o with params := o.params.map ToolParam.retyped }

def NodeConfig.retyped : NodeConfig → NodeConfig
  | .tool c => .tool { c with operations := c.operations.map ToolOperation.retyped }
  | c => c

/-- The node with every static fill typed differently. -/
def ListedNode.retyped (n : ListedNode) : ListedNode :=
  { n with node := { n.node with config := n.node.config.retyped } }

theorem Fill.withoutSecrets_retyped (f : Fill) : f.retyped.withoutSecrets = f.withoutSecrets := by
  unfold withoutSecrets retyped
  by_cases hmode : f.mode = .static
  · simp [hmode, Function.comp_def]
  · simp [hmode]

theorem NodeConfig.withoutSecrets_retyped (c : NodeConfig) :
    c.retyped.withoutSecrets = c.withoutSecrets := by
  cases c with
  | tool t =>
      simp [retyped, withoutSecrets, ToolConfig.withoutSecrets, ToolOperation.withoutSecrets,
        ToolOperation.retyped, ToolParam.withoutSecrets, ToolParam.retyped, Function.comp_def,
        Fill.withoutSecrets_retyped]
  | _ => rfl

theorem ListedNode.withoutSecrets_retyped (n : ListedNode) :
    n.retyped.withoutSecrets = n.withoutSecrets := by
  unfold withoutSecrets retyped
  rw [NodeConfig.withoutSecrets_retyped]

theorem NodeConfig.nodeType_withoutSecrets (c : NodeConfig) :
    c.withoutSecrets.nodeType = c.nodeType := by
  cases c <;> rfl

theorem Fill.toJson_retyped_ne {f : Fill} (h : f.IsStaticValue) : f.retyped.toJson ≠ f.toJson := by
  obtain ⟨hmode, hvalue⟩ := h
  obtain ⟨v, hv⟩ := Option.isSome_iff_exists.mp hvalue
  have hne : retype v ≠ v := by
    intro heq
    have hlen := congrArg String.length heq
    simp [retype] at hlen
  simp [retyped, toJson, hmode, hv, optionalMember, hne]

namespace Builder

/-! ## What the builder is shown of a configuration -/

variable (rfc3339 : Timestamp → String)

/-- The configuration a builder is shown. -/
def shown : NodeConfig → Json
  | .mcp c => modifyAt hideValues ["env"] c.toJson
  | .tool c => modifyAt elide ["source", "raw"] (c.toJson rfc3339)
  | c => c.toJson rfc3339

theorem redact_toJson (n : ListedNode) :
    redact (n.toJson rfc3339) =
      .obj [("id", .str n.node.id.display), ("name", .str n.node.name.raw),
        ("position", n.node.position.toJson), ("wires", .arr (n.wires.map Wire.toJson)),
        ("type", .str n.node.nodeType.asStr), ("config", shown rfc3339 n.node.config)] := by
  unfold ListedNode.toJson Node.nodeType
  cases n.node.config <;>
    simp [redact, dropState, eraseMember, get?, asStr, modifyAt, shown, NodeConfig.nodeType,
      NodeType.asStr, NodeConfig.toJson]

theorem shown_mcp (c : McpConfig) :
    modifyAt hideValues ["env"] c.withoutSecrets.toJson =
      modifyAt hideValues ["env"] c.toJson := by
  have henv : ∀ env, hideValues (textsToJson (withoutValues env)) = hideValues (textsToJson env) := by
    intro env
    simp [hideValues, textsToJson, withoutValues]
  cases c with
  | stdio command args env =>
      cases args <;> cases env <;>
        simp [McpConfig.withoutSecrets, McpConfig.toJson, optionalMember, modifyAt, henv]
  | http url env =>
      cases env <;>
        simp [McpConfig.withoutSecrets, McpConfig.toJson, optionalMember, modifyAt, henv]

theorem shown_tool (c : ToolConfig) :
    modifyAt elide ["source", "raw"] (c.toJson rfc3339) =
      .obj [("kind", .str c.kind.asStr),
        ("source", .obj [("format", .str c.source.format.asStr),
          ("raw", elide (.str c.source.raw)),
          ("imported_at", .str (rfc3339 c.source.importedAt))]),
        ("base_url", .str c.baseUrl),
        ("operations", .arr (c.operations.map ToolOperation.toJson))] := by
  simp [ToolConfig.toJson, ToolSource.toJson, modifyAt]

/-- Without a static fill a tool's operations have no secret. -/
theorem operations_withoutSecrets {c : ToolConfig} (h : ¬ (NodeConfig.tool c).HasStaticFill) :
    c.operations.map ToolOperation.withoutSecrets = c.operations := by
  refine (List.map_congr_left fun o ho => ?_).trans (List.map_id _)
  have hparams : o.params.map ToolParam.withoutSecrets = o.params := by
    refine (List.map_congr_left fun p hp => ?_).trans (List.map_id _)
    have hfill : p.fill.withoutSecrets = p.fill :=
      Fill.withoutSecrets_of_not fun hstatic => h ⟨c, rfl, o, ho, p, hp, hstatic⟩
    rw [ToolParam.withoutSecrets, hfill]
    rfl
  rw [ToolOperation.withoutSecrets, hparams]
  rfl

/-- What is shown of a configuration without static fills holds no secret. -/
theorem shown_withoutSecrets {c : NodeConfig} (h : ¬ c.HasStaticFill) :
    shown rfc3339 c.withoutSecrets = shown rfc3339 c := by
  cases c with
  | mcp c => exact shown_mcp c
  | tool c =>
      rw [NodeConfig.withoutSecrets, shown, shown, shown_tool, shown_tool]
      simp only [ToolConfig.withoutSecrets, operations_withoutSecrets h, elide, asStr,
        Option.map_some, utf8ByteSize_blank]
  | _ => rfl

/-! ## The boards that are hidden -/

/-- A board with other static fills is shown differently. -/
theorem shown_retyped_ne {c : NodeConfig} (h : c.HasStaticFill) :
    shown rfc3339 c.retyped ≠ shown rfc3339 c := by
  obtain ⟨t, rfl, o, ho, p, hp, hstatic⟩ := h
  rw [NodeConfig.retyped, shown, shown, shown_tool, shown_tool]
  intro heq
  simp only [Json.obj.injEq, List.cons.injEq, Prod.mk.injEq, Json.arr.injEq, true_and, and_true,
    List.map_map] at heq
  have hop : o.retyped.toJson = o.toJson := List.map_inj_left.mp heq o ho
  have hparams : o.retyped.params.map ToolParam.toJson = o.params.map ToolParam.toJson := by
    unfold ToolOperation.toJson at hop
    cases hsummary : o.summary <;>
      simpa [ToolOperation.retyped, optionalMember, hsummary] using hop
  rw [ToolOperation.retyped, List.map_map] at hparams
  have hparam : p.retyped.toJson = p.toJson := List.map_inj_left.mp hparams p hp
  have hfill : p.fill.retyped.toJson = p.fill.toJson := by
    unfold ToolParam.toJson at hparam
    cases hdescription : p.description <;> cases hschema : p.schema <;>
      simpa [ToolParam.retyped, optionalMember, hdescription, hschema] using hparam
  exact Fill.toJson_retyped_ne hstatic hfill

/-- The builder is shown the same for every board that differs in secrets only. -/
def Hidden (nodes : List ListedNode) : Prop :=
  ∀ nodes' : List ListedNode,
    nodes'.map ListedNode.withoutSecrets = nodes.map ListedNode.withoutSecrets →
      boardForBuilder rfc3339 nodes' = boardForBuilder rfc3339 nodes

/-- Boards without static fills are shown as the same boards without any secret. -/
theorem boardForBuilder_withoutSecrets {nodes : List ListedNode}
    (h : ∀ n ∈ nodes, ¬ n.node.config.HasStaticFill) :
    boardForBuilder rfc3339 (nodes.map ListedNode.withoutSecrets) =
      boardForBuilder rfc3339 nodes := by
  unfold boardForBuilder
  rw [List.map_map]
  congr 4
  refine List.map_congr_left fun n hn => ?_
  rw [Function.comp_apply, redact_toJson, redact_toJson]
  have hshown := shown_withoutSecrets rfc3339 (h n hn)
  have htype : n.withoutSecrets.node.nodeType = n.node.nodeType :=
    NodeConfig.nodeType_withoutSecrets _
  rw [htype]
  simp only [ListedNode.withoutSecrets, hshown]

/-- A board is hidden if and only if no tool on it has a static fill. -/
theorem hidden_iff {nodes : List ListedNode} :
    Hidden rfc3339 nodes ↔ ∀ n ∈ nodes, ¬ n.node.config.HasStaticFill := by
  constructor
  · intro h n hn hstatic
    have hsame : (nodes.map ListedNode.retyped).map ListedNode.withoutSecrets =
        nodes.map ListedNode.withoutSecrets := by
      rw [List.map_map]
      exact List.map_congr_left fun m _ => m.withoutSecrets_retyped
    have hshown := h _ hsame
    simp only [boardForBuilder, Json.obj.injEq, List.cons.injEq, Prod.mk.injEq, Json.arr.injEq,
      true_and, and_true, List.map_map] at hshown
    have hnode := List.map_inj_left.mp hshown n hn
    rw [Function.comp_apply, redact_toJson, redact_toJson] at hnode
    simp only [ListedNode.retyped, Json.obj.injEq, List.cons.injEq, Prod.mk.injEq, true_and,
      and_true] at hnode
    exact shown_retyped_ne rfc3339 hstatic hnode.2
  · intro h nodes' hsame
    have h' : ∀ n ∈ nodes', ¬ n.node.config.HasStaticFill := by
      intro n hn
      have hmem := List.mem_map_of_mem (f := ListedNode.withoutSecrets) hn
      rw [hsame] at hmem
      obtain ⟨m, hm, heq⟩ := List.mem_map.mp hmem
      rw [← NodeConfig.hasStaticFill_withoutSecrets]
      have hconfig : m.node.config.withoutSecrets = n.node.config.withoutSecrets :=
        congrArg (fun n => n.node.config) heq
      rw [← hconfig, NodeConfig.hasStaticFill_withoutSecrets]
      exact h m hm
    rw [← boardForBuilder_withoutSecrets rfc3339 h, ← hsame,
      boardForBuilder_withoutSecrets rfc3339 h']

/-- A tool node that sends a typed key with every request. -/
def keyedTool (key : String) : ListedNode where
  node := {
    id := 1
    name := ⟨"billing", rfl⟩
    position := ⟨0, 0⟩
    config := .tool {
      kind := .http
      source := ⟨.manual, "", 0⟩
      baseUrl := "https://api.example.com"
      operations := [⟨"charge", .post, "/charges", none, true,
        [⟨"X-Api-Key", .header, true, none, none, ⟨.static, some key, none⟩⟩]⟩] } }
  wires := []

/-- Two boards that differ in the key only are shown differently, though a guest is shown
the same. -/
theorem shows_static_fill :
    ([keyedTool "sk-1"].map ListedNode.withoutSecrets =
        [keyedTool "sk-2"].map ListedNode.withoutSecrets) ∧
      (keyedTool "sk-1").node.config.redactCredentials =
        (keyedTool "sk-2").node.config.redactCredentials ∧
      boardForBuilder (fun _ => "1970-01-01T00:00:00Z") [keyedTool "sk-1"] ≠
        boardForBuilder (fun _ => "1970-01-01T00:00:00Z") [keyedTool "sk-2"] := by
  refine ⟨rfl, rfl, ?_⟩
  decide +kernel

end Builder

end Wheel
