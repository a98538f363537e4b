import Wheel.Builder.Shown

/-!
# Redaction of the credentials on a board

`redactCredentials` empties every credential field of a configuration, and
`hasRedactableCredentials` is a second match over the same fields that should say whether
anything was there. `SameButCredentials` is the reference: two configurations that show the
same to somebody who may not see credentials, where a document that a tool was imported from
is read as its format and its example values are no part of what is shown. `redacts_iff` says
where the three agree.
-/

namespace Wheel

open Json

/-- Whether the redaction would change anything, by the fields of the configuration. -/
def NodeConfig.hasRedactableCredentials : NodeConfig → Bool
  | .vault c => !c.keys.isEmpty
  | .tool c => c.operations.any fun op => op.params.any fun p =>
      p.fill.value.isSome || p.fill.vaultRef.isSome
  | .endpoint c =>
      match c.auth with
      | .none => false
      | .bearer vaultRef => vaultRef ≠ ""
  | .mcp (.stdio _ _ env) => env.any fun e => !e.isEmpty
  | .mcp (.http _ env) => env.any fun e => !e.isEmpty
  | .agent c => c.workspaces.any fun w => w.git.any fun g => g.vaultRef.isSome
  | .ctx _ => false
  | .table _ => false
  | .script _ => false
  | .chest _ => false

/-! ## The examples of an imported document -/

namespace Examples

/-- Change the member of a name. -/
def onMember (name : String) (f : Json → Json) : Json → Json
  | .obj m => .obj (m.map fun e => if e.1 = name then (e.1, f e.2) else e)
  | v => v

def onItems (f : Json → Json) : Json → Json
  | .arr items => .arr (items.map f)
  | v => v

def blank : Json → Json := fun _ => .null

/-- The values of a list of named values. -/
def blankValues : Json → Json := onItems (onMember "value" blank)

def blankBody (v : Json) : Json :=
  onMember "raw" blank (onMember "urlencoded" blankValues (onMember "formdata" blankValues v))

/-- The examples of a request of a Postman collection. -/
def blankRequest (v : Json) : Json :=
  onMember "header" blankValues
    (onMember "url" (onMember "query" blankValues) (onMember "body" blankBody v))

mutual

/-- The examples of an item of a Postman collection, which may be a folder of items. -/
def blankItem : Json → Json
  | .obj m => .obj (blankMembers m)
  | .arr items => .arr (blankItems items)
  | v => v

def blankMembers : List (String × Json) → List (String × Json)
  | [] => []
  | (k, v) :: m =>
      (k, if k = "item" then blankItem v else if k = "request" then blankRequest v else v) ::
        blankMembers m

def blankItems : List Json → List Json
  | [] => []
  | v :: items => blankItem v :: blankItems items

end

/-- The examples of a resource of an Insomnia export. -/
def blankResource (v : Json) : Json :=
  onMember "headers" blankValues
    (onMember "parameters" blankValues (onMember "body" (onMember "text" blank) v))

/-- A document without its examples, in the formats that keep any. -/
def blankDocument : ToolFormat → Json → Json
  | .postman, v => blankItem v
  | .insomnia, v => onMember "resources" (onItems blankResource) v
  | _, v => v

end Examples

/-! ## What a redacted configuration shows -/

section SameBut

variable (parse : String → Option Json)

/-- Two texts of a document that differ in its examples only. -/
def SameDocument (format : ToolFormat) (raw raw' : String) : Prop :=
  raw = raw' ∨ ∃ v v', parse raw = some v ∧ parse raw' = some v' ∧
    (format = .postman ∨ format = .insomnia) ∧
    Examples.blankDocument format v = Examples.blankDocument format v'

structure SameSource (s s' : ToolSource) : Prop where
  format : s.format = s'.format
  importedAt : s.importedAt = s'.importedAt
  raw : SameDocument parse s.format s.raw s'.raw

structure SameParam (p p' : ToolParam) : Prop where
  name : p.name = p'.name
  location : p.location = p'.location
  required : p.required = p'.required
  description : p.description = p'.description
  schema : p.schema = p'.schema
  mode : p.fill.mode = p'.fill.mode

structure SameOperation (o o' : ToolOperation) : Prop where
  id : o.id = o'.id
  method : o.method = o'.method
  path : o.path = o'.path
  summary : o.summary = o'.summary
  enabled : o.enabled = o'.enabled
  params : List.Forall₂ SameParam o.params o'.params

structure SameTool (c c' : ToolConfig) : Prop where
  kind : c.kind = c'.kind
  source : SameSource parse c.source c'.source
  baseUrl : c.baseUrl = c'.baseUrl
  operations : List.Forall₂ SameOperation c.operations c'.operations

inductive SameAuth : EndpointAuth → EndpointAuth → Prop where
  | none : SameAuth .none .none
  | bearer (r r' : String) : SameAuth (.bearer r) (.bearer r')

structure SameEndpoint (c c' : EndpointConfig) : Prop where
  method : c.method = c'.method
  path : c.path = c'.path
  responseMode : c.responseMode = c'.responseMode
  auth : SameAuth c.auth c'.auth

inductive SameWorkspace : Workspace → Workspace → Prop where
  | none (path : String) : SameWorkspace ⟨path, .none⟩ ⟨path, .none⟩
  | git (path url : String) (gitRef vaultRef vaultRef' : Option String) :
      SameWorkspace ⟨path, some ⟨url, gitRef, vaultRef⟩⟩ ⟨path, some ⟨url, gitRef, vaultRef'⟩⟩

structure SameAgent (c c' : AgentConfig) : Prop where
  harness : c.harness = c'.harness
  model : c.model = c'.model
  systemPrompt : c.systemPrompt = c'.systemPrompt
  runOnStartup : c.runOnStartup = c'.runOnStartup
  ephemeralContext : c.ephemeralContext = c'.ephemeralContext
  idleTimeoutSecs : c.idleTimeoutSecs = c'.idleTimeoutSecs
  budget : c.budget = c'.budget
  workspaces : List.Forall₂ SameWorkspace c.workspaces c'.workspaces
  fallbackVault : c.fallbackVault = c'.fallbackVault

/-- Two configurations that differ in their credentials only. -/
inductive SameButCredentials : NodeConfig → NodeConfig → Prop where
  | vault (keys keys' : List String) : SameButCredentials (.vault ⟨keys⟩) (.vault ⟨keys'⟩)
  | tool {c c' : ToolConfig} (h : SameTool parse c c') : SameButCredentials (.tool c) (.tool c')
  | endpoint {c c' : EndpointConfig} (h : SameEndpoint c c') :
      SameButCredentials (.endpoint c) (.endpoint c')
  | stdio (command : String) (args : Option (List String))
      (env env' : Option (List (String × String))) :
      SameButCredentials (.mcp (.stdio command args env)) (.mcp (.stdio command args env'))
  | http (url : String) (env env' : Option (List (String × String))) :
      SameButCredentials (.mcp (.http url env)) (.mcp (.http url env'))
  | agent {c c' : AgentConfig} (h : SameAgent c c') : SameButCredentials (.agent c) (.agent c')
  | ctx (c : CtxConfig) : SameButCredentials (.ctx c) (.ctx c)
  | table (c : TableConfig) : SameButCredentials (.table c) (.table c)
  | script (c : ScriptConfig) : SameButCredentials (.script c) (.script c)
  | chest (c : ChestConfig) : SameButCredentials (.chest c) (.chest c)

end SameBut

namespace NodeConfig

/-- The document a tool was imported from. -/
def document : NodeConfig → Option String
  | .tool c => some c.source.raw
  | _ => none

/-- An mcp server with an environment that is there and empty. -/
def HasEmptyEnv : NodeConfig → Prop
  | .mcp (.stdio _ _ env) => env = some []
  | .mcp (.http _ env) => env = some []
  | _ => False

end NodeConfig

/-- The redaction leaves everything but credentials, hides those, and agrees with its
detector. -/
structure Redacts (parse : String → Option Json) (c c' : NodeConfig) : Prop where
  nodeType : c.redactCredentials.nodeType = c.nodeType
  kept : SameButCredentials parse c c.redactCredentials
  idempotent : c.redactCredentials.redactCredentials = c.redactCredentials
  hides : SameButCredentials parse c c' → c.redactCredentials = c'.redactCredentials
  detected : c.hasRedactableCredentials = true ↔ c.redactCredentials ≠ c

/-! ## The parts of a configuration -/

theorem map_eq_self_iff {α : Type*} {f : α → α} {l : List α} : l.map f = l ↔ ∀ a ∈ l, f a = a := by
  induction l with
  | nil => simp
  | cons a l ih => simp [ih]

theorem map_eq_map_of_forall₂ {α β : Type*} {R : α → α → Prop} {f : α → β} {l l' : List α}
    (h : List.Forall₂ R l l') (hf : ∀ a b, R a b → f a = f b) : l.map f = l'.map f := by
  induction h with
  | nil => rfl
  | cons hab _ ih => rw [List.map_cons, List.map_cons, hf _ _ hab, ih]

theorem forall₂_map_right {α : Type*} {R : α → α → Prop} {f : α → α} {l : List α}
    (h : ∀ a ∈ l, R a (f a)) : List.Forall₂ R l (l.map f) := by
  induction l with
  | nil => exact .nil
  | cons a l ih =>
      obtain ⟨ha, hl⟩ := List.forall_mem_cons.mp h
      exact .cons ha (ih hl)

def ToolParam.redact (p : ToolParam) : ToolParam :=
  { p with fill := { p.fill with value := none, vaultRef := none } }

def ToolOperation.redact (o : ToolOperation) : ToolOperation :=
  { o with params := o.params.map ToolParam.redact }

def Workspace.redact (w : Workspace) : Workspace :=
  { w with git := w.git.map fun g => { g with vaultRef := none } }

def EndpointAuth.redact : EndpointAuth → EndpointAuth
  | .none => .none
  | .bearer _ => .bearer ""

theorem redactCredentials_tool (c : ToolConfig) :
    (NodeConfig.tool c).redactCredentials =
      .tool { c with operations := c.operations.map ToolOperation.redact } := rfl

theorem redactCredentials_agent (c : AgentConfig) :
    (NodeConfig.agent c).redactCredentials =
      .agent { c with workspaces := c.workspaces.map Workspace.redact } := rfl

theorem redactCredentials_endpoint (c : EndpointConfig) :
    (NodeConfig.endpoint c).redactCredentials = .endpoint { c with auth := c.auth.redact } := by
  obtain ⟨method, path, mode, auth⟩ := c
  cases auth <;> rfl

theorem ToolParam.redact_eq_self_iff {p : ToolParam} :
    p.redact = p ↔ (p.fill.value.isSome || p.fill.vaultRef.isSome) = false := by
  obtain ⟨name, location, required, description, schema, mode, value, vaultRef⟩ := p
  simp only [ToolParam.redact, ToolParam.mk.injEq, Fill.mk.injEq, true_and, Bool.or_eq_false_iff,
    Option.isSome_eq_false_iff, Option.isNone_iff_eq_none, eq_comm (a := none)]

theorem ToolOperation.redact_eq_self_iff {o : ToolOperation} :
    o.redact = o ↔
      (o.params.any fun p => p.fill.value.isSome || p.fill.vaultRef.isSome) = false := by
  have hparams : o.redact = o ↔ o.params.map ToolParam.redact = o.params := by
    obtain ⟨id, method, path, summary, enabled, params⟩ := o
    simp [ToolOperation.redact]
  rw [hparams, map_eq_self_iff, List.any_eq_false]
  refine forall₂_congr fun p _ => ?_
  rw [ToolParam.redact_eq_self_iff, Bool.not_eq_true]

theorem Workspace.redact_eq_self_iff {w : Workspace} :
    w.redact = w ↔ (w.git.any fun g => g.vaultRef.isSome) = false := by
  obtain ⟨path, git⟩ := w
  cases git with
  | none => simp [Workspace.redact]
  | some g =>
      obtain ⟨url, gitRef, vaultRef⟩ := g
      simp [Workspace.redact, eq_comm (a := none)]

theorem SameParam.redact_eq {p p' : ToolParam} (h : SameParam p p') : p.redact = p'.redact := by
  obtain ⟨name, location, required, description, schema, mode, value, vaultRef⟩ := p
  obtain ⟨name', location', required', description', schema', mode', value', vaultRef'⟩ := p'
  obtain ⟨rfl, rfl, rfl, rfl, rfl, hmode⟩ := h
  dsimp only at hmode
  subst hmode
  rfl

theorem SameOperation.redact_eq {o o' : ToolOperation} (h : SameOperation o o') :
    o.redact = o'.redact := by
  obtain ⟨id, method, path, summary, enabled, params⟩ := o
  obtain ⟨id', method', path', summary', enabled', params'⟩ := o'
  obtain ⟨rfl, rfl, rfl, rfl, rfl, hparams⟩ := h
  have hmap := map_eq_map_of_forall₂ hparams fun _ _ => SameParam.redact_eq
  simp only [ToolOperation.redact, hmap]

theorem SameWorkspace.redact_eq {w w' : Workspace} (h : SameWorkspace w w') :
    w.redact = w'.redact := by
  cases h <;> rfl

theorem sameOperation_redact (o : ToolOperation) : SameOperation o o.redact :=
  ⟨rfl, rfl, rfl, rfl, rfl, forall₂_map_right fun _ _ => ⟨rfl, rfl, rfl, rfl, rfl, rfl⟩⟩

theorem sameWorkspace_redact (w : Workspace) : SameWorkspace w w.redact := by
  obtain ⟨path, git⟩ := w
  cases git with
  | none => exact .none path
  | some g => exact .git path g.url g.gitRef g.vaultRef none

theorem EndpointAuth.redact_eq_self_iff {a : EndpointAuth} :
    a.redact = a ↔ (match a with
      | .none => false
      | .bearer vaultRef => decide (vaultRef ≠ "")) = false := by
  cases a with
  | none => simp [EndpointAuth.redact]
  | bearer r => simp [EndpointAuth.redact, eq_comm (a := "")]

/-! ## The whole -/

section Whole

variable {parse : String → Option Json} {c c' : NodeConfig}

theorem redactCredentials_redactCredentials (c : NodeConfig) :
    c.redactCredentials.redactCredentials = c.redactCredentials := by
  cases c with
  | tool t =>
      rw [redactCredentials_tool, redactCredentials_tool, List.map_map]
      congr 2
      refine congrArg (List.map · t.operations) (funext fun o => ?_)
      rw [Function.comp_apply, ToolOperation.redact, ToolOperation.redact, List.map_map]
      rfl
  | endpoint e =>
      obtain ⟨method, path, mode, auth⟩ := e
      cases auth <;> rfl
  | mcp m => cases m <;> rfl
  | agent a =>
      rw [redactCredentials_agent, redactCredentials_agent, List.map_map]
      congr 2
      refine congrArg (List.map · a.workspaces) (funext fun w => ?_)
      obtain ⟨path, git⟩ := w
      cases git <;> rfl
  | _ => rfl

theorem sameBut_redactCredentials (c : NodeConfig) :
    SameButCredentials parse c c.redactCredentials := by
  cases c with
  | vault v => exact .vault v.keys []
  | tool t =>
      exact .tool ⟨rfl, ⟨rfl, rfl, .inl rfl⟩, rfl, forall₂_map_right fun o _ => sameOperation_redact o⟩
  | endpoint e =>
      rw [redactCredentials_endpoint]
      refine .endpoint ⟨rfl, rfl, rfl, ?_⟩
      cases e.auth with
      | none => exact .none
      | bearer r => exact .bearer r ""
  | mcp m =>
      cases m with
      | stdio command args env => exact .stdio command args env none
      | http url env => exact .http url env none
  | agent a =>
      exact .agent ⟨rfl, rfl, rfl, rfl, rfl, rfl, rfl, forall₂_map_right fun w _ =>
        sameWorkspace_redact w, rfl⟩
  | ctx x => exact .ctx x
  | table x => exact .table x
  | script x => exact .script x
  | chest x => exact .chest x

/-- Configurations that differ in their credentials are redacted alike when their documents are
the same. -/
theorem redactCredentials_eq_iff (h : SameButCredentials parse c c') :
    c.redactCredentials = c'.redactCredentials ↔ c.document = c'.document := by
  cases h with
  | tool h =>
      rename_i t t'
      obtain ⟨kind, ⟨format, raw, importedAt⟩, baseUrl, operations⟩ := t
      obtain ⟨kind', ⟨format', raw', importedAt'⟩, baseUrl', operations'⟩ := t'
      obtain ⟨hkind, ⟨hformat, himported, -⟩, hbase, hoperations⟩ := h
      dsimp only at hkind hformat himported hbase hoperations
      subst hkind hformat himported hbase
      have hmap := map_eq_map_of_forall₂ hoperations fun _ _ => SameOperation.redact_eq
      rw [redactCredentials_tool, redactCredentials_tool]
      dsimp only
      rw [hmap]
      simp [NodeConfig.document]
  | endpoint h =>
      rename_i e e'
      obtain ⟨method, path, mode, auth⟩ := e
      obtain ⟨method', path', mode', auth'⟩ := e'
      obtain ⟨rfl, rfl, rfl, hauth⟩ := h
      refine iff_of_true ?_ rfl
      cases hauth <;> rfl
  | agent h =>
      rename_i a a'
      obtain ⟨harness, model, prompt, startup, ephemeral, idle, budget, workspaces, fallback⟩ := a
      obtain ⟨harness', model', prompt', startup', ephemeral', idle', budget', workspaces',
        fallback'⟩ := a'
      obtain ⟨h₁, h₂, h₃, h₄, h₅, h₆, h₇, hworkspaces, h₈⟩ := h
      dsimp only at h₁ h₂ h₃ h₄ h₅ h₆ h₇ hworkspaces h₈
      subst h₁ h₂ h₃ h₄ h₅ h₆ h₇ h₈
      have hmap := map_eq_map_of_forall₂ hworkspaces fun _ _ => SameWorkspace.redact_eq
      refine iff_of_true ?_ rfl
      rw [redactCredentials_agent, redactCredentials_agent]
      dsimp only
      rw [hmap]
  | _ => exact iff_of_true rfl rfl

/-- The detector is right but for an empty environment. -/
theorem hasRedactableCredentials_iff (c : NodeConfig) :
    (c.hasRedactableCredentials = true ↔ c.redactCredentials ≠ c) ↔ ¬ c.HasEmptyEnv := by
  have hdetected {b : Bool} {p : Prop} (h : p ↔ b = false) : (b = true ↔ ¬ p) ↔ ¬ False := by
    rw [h]
    simp
  have henv (env : Option (List (String × String))) :
      ((env.any fun e => !e.isEmpty) = true ↔ ¬ (none = env)) ↔ ¬ (env = some []) := by
    cases env with
    | none => simp
    | some e => cases e <;> simp
  cases c with
  | vault v =>
      obtain ⟨keys⟩ := v
      refine hdetected (p := NodeConfig.vault ⟨[]⟩ = .vault ⟨keys⟩) ?_
      cases keys <;> simp [NodeConfig.hasRedactableCredentials]
  | tool t =>
      refine hdetected ?_
      rw [redactCredentials_tool]
      have hops : NodeConfig.tool { t with operations := t.operations.map ToolOperation.redact } =
          .tool t ↔ t.operations.map ToolOperation.redact = t.operations := by
        obtain ⟨kind, source, baseUrl, operations⟩ := t
        simp
      rw [hops, map_eq_self_iff, NodeConfig.hasRedactableCredentials, List.any_eq_false]
      refine forall₂_congr fun o _ => ?_
      rw [ToolOperation.redact_eq_self_iff, Bool.not_eq_true]
  | endpoint e =>
      refine hdetected ?_
      rw [redactCredentials_endpoint]
      have hauth : NodeConfig.endpoint { e with auth := e.auth.redact } = .endpoint e ↔
          e.auth.redact = e.auth := by
        obtain ⟨method, path, mode, auth⟩ := e
        simp
      rw [hauth, EndpointAuth.redact_eq_self_iff]
      rfl
  | mcp m =>
      cases m with
      | stdio command args env =>
          have h := henv env
          simpa [NodeConfig.hasRedactableCredentials, NodeConfig.redactCredentials,
            NodeConfig.HasEmptyEnv] using h
      | http url env =>
          have h := henv env
          simpa [NodeConfig.hasRedactableCredentials, NodeConfig.redactCredentials,
            NodeConfig.HasEmptyEnv] using h
  | agent a =>
      refine hdetected ?_
      rw [redactCredentials_agent]
      have hworkspaces : NodeConfig.agent { a with workspaces := a.workspaces.map Workspace.redact } =
          .agent a ↔ a.workspaces.map Workspace.redact = a.workspaces := by
        obtain ⟨harness, model, prompt, startup, ephemeral, idle, budget, workspaces, fallback⟩ := a
        simp
      rw [hworkspaces, map_eq_self_iff, NodeConfig.hasRedactableCredentials, List.any_eq_false]
      refine forall₂_congr fun w _ => ?_
      rw [Workspace.redact_eq_self_iff, Bool.not_eq_true]
  | _ => exact hdetected (iff_of_true rfl rfl)

/-- The redaction does what it should exactly when the environment is not an empty one and the
configurations do not differ in the examples of a document. -/
theorem redacts_iff (parse : String → Option Json) (c c' : NodeConfig) :
    Redacts parse c c' ↔
      ¬ c.HasEmptyEnv ∧ (SameButCredentials parse c c' → c.document = c'.document) := by
  have hsame : SameButCredentials parse c c.redactCredentials := sameBut_redactCredentials c
  have hidempotent := redactCredentials_redactCredentials c
  constructor
  · intro h
    exact ⟨(hasRedactableCredentials_iff c).mp h.detected, fun hs =>
      (redactCredentials_eq_iff hs).mp (h.hides hs)⟩
  · rintro ⟨henv, hdocument⟩
    refine ⟨?_, hsame, hidempotent, fun hs => (redactCredentials_eq_iff hs).mpr (hdocument hs),
      (hasRedactableCredentials_iff c).mpr henv⟩
    cases c with
    | mcp m => cases m <;> rfl
    | _ => rfl

end Whole

/-! ## The two ways it fails -/

/-- An mcp server with an empty environment. -/
def emptyEnv : NodeConfig := .mcp (.http "https://example.com" (some []))

/-- A Postman collection of one request with one header. -/
def collectionRaw (value : String) : String :=
  "\x7b\"item\":[\x7b\"request\":\x7b\"header\":[\x7b\"key\":\"X-Api-Key\",\"value\":\"" ++ value ++
    "\"\x7d]\x7d\x7d]\x7d"

def collectionJson (value : String) : Json :=
  .obj [("item", .arr [.obj [("request", .obj [("header",
    .arr [.obj [("key", .str "X-Api-Key"), ("value", .str value)]])])]])]

/-- A parser that knows two collections. -/
def twoCollections (raw : String) : Option Json :=
  if raw = collectionRaw "a" then some (collectionJson "a")
  else if raw = collectionRaw "b" then some (collectionJson "b")
  else none

def importedTool (value : String) : NodeConfig :=
  .tool ⟨.http, ⟨.postman, collectionRaw value, 0⟩, "https://example.com", []⟩

/-- An empty environment is removed without being reported, and an example of a document is not
removed. -/
theorem not_redacts :
    (emptyEnv.hasRedactableCredentials = false ∧ emptyEnv.redactCredentials ≠ emptyEnv) ∧
      SameButCredentials twoCollections (importedTool "a") (importedTool "b") ∧
        (importedTool "a").redactCredentials ≠ (importedTool "b").redactCredentials := by
  have hraw : collectionRaw "b" ≠ collectionRaw "a" := by
    decide
  refine ⟨⟨rfl, by simp [emptyEnv, NodeConfig.redactCredentials]⟩, ?_, ?_⟩
  · refine .tool ⟨rfl, ⟨rfl, rfl, .inr ⟨collectionJson "a", collectionJson "b", ?_, ?_, .inl rfl, ?_⟩⟩,
      rfl, .nil⟩
    · exact if_pos rfl
    · exact (if_neg hraw).trans (if_pos rfl)
    · rfl
  · intro h
    simp only [importedTool, redactCredentials_tool, NodeConfig.tool.injEq, ToolConfig.mk.injEq,
      ToolSource.mk.injEq] at h
    exact hraw h.2.1.2.1.symm

end Wheel
