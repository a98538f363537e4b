import Wheel.Core.Address
import Wheel.Core.Node

/-!
# What a legal configuration is

The checks a configuration passes before the board stores it, in the order in
which they are made and with the error each of them answers.
-/

namespace Wheel

inductive ConfigError where
  | pathNotAbsolute
  | pathTraversal
  | pathHasQuery
  | pathTooLong (max : ℕ)
  | noColumns
  | duplicateColumn (name : String)
  | reservedColumn (name : String)
  | tooManyColumns (max : ℕ)
  | emptyScript
  | badTimeout (max : ℕ)
  | mcpMissingCommand
  | mcpMissingUrl
  | mcpBadUrl
  | duplicateVaultKey (key : String)
  | badVaultKey (key : String)
  | badWorkspacePath
  | badWorkspaceUrl
  | credentialInWorkspaceUrl
  | systemPromptTooLong (max : ℕ)
  | toolBadBaseUrl
  | toolDeniedHost (host : String)
  | duplicateOperation (id : String)
  | badOperationId (id : String)
  | toolBadPath (id : String)
  | staticFillMissingValue (field : String)
  | badVaultRef (field : String)
  | ctxTooLong (max : ℕ)
  deriving DecidableEq, Repr

def maxEndpointPath : ℕ := 512

def maxTableColumns : ℕ := 64

def maxScriptTimeoutSecs : ℕ := 300

def maxSystemPrompt : ℕ := 128 * 1024

/-- The ceiling on one value an agent writes. -/
def maxValueBytes : ℕ := 1024 * 1024

/-- The implicit primary key column of every table. -/
def tableKeyColumn : String := "key"

/-- Does some whole segment of the path leave its directory? -/
def hasTraversal (path : List Char) : Bool := (path.splitOn '/').contains ['.', '.']

def validateEndpointPath (path : String) : Except ConfigError Unit :=
  if path.toList.head? ≠ some '/' then .error .pathNotAbsolute
  else if maxEndpointPath < path.utf8ByteSize then .error (.pathTooLong maxEndpointPath)
  else if path.toList.contains '?' || path.toList.contains '#' then .error .pathHasQuery
  else if hasTraversal path.toList then .error .pathTraversal
  else .ok ()

/-- Check the columns in order, none of them reserved or seen before. -/
def validateColumns (seen : List String) : List Column → Except ConfigError Unit
  | [] => .ok ()
  | c :: cs =>
      if c.name.raw = tableKeyColumn then .error (.reservedColumn c.name.raw)
      else if c.name.raw ∈ seen then .error (.duplicateColumn c.name.raw)
      else validateColumns (c.name.raw :: seen) cs

def validateTable (cfg : TableConfig) : Except ConfigError Unit :=
  if cfg.columns.isEmpty then .error .noColumns
  else if maxTableColumns < cfg.columns.length then .error (.tooManyColumns maxTableColumns)
  else validateColumns [] cfg.columns

def validateScript (cfg : ScriptConfig) : Except ConfigError Unit :=
  if Text.trim cfg.source.toList = [] then .error .emptyScript
  else if cfg.timeout = 0 ∨ maxScriptTimeoutSecs < cfg.timeout then
    .error (.badTimeout maxScriptTimeoutSecs)
  else .ok ()

/-- A vault key is exported as an environment variable. -/
def validateVaultKey (key : String) : Except ConfigError Unit :=
  match key.toList with
  | [] => .error (.badVaultKey key)
  | c :: x =>
      if !c.isDigit && (c :: x).all (fun c => c.isUpper || c.isDigit || c == '_') then .ok ()
      else .error (.badVaultKey key)

def validateVaultKeys (seen : List String) : List String → Except ConfigError Unit
  | [] => .ok ()
  | k :: ks => do
      validateVaultKey k
      if k ∈ seen then throw (.duplicateVaultKey k)
      validateVaultKeys (k :: seen) ks

def validateFill (field : String) (fill : Fill) : Except ConfigError Unit :=
  match fill.mode with
  | .static => if fill.value.isNone then .error (.staticFillMissingValue field) else .ok ()
  | .vault =>
      if (fill.vaultRef.bind Fill.parseVaultRef).isNone then .error (.badVaultRef field)
      else .ok ()
  | .agent | .hidden => .ok ()

/-! ## Urls -/

/-- A port, as an unsigned number of 16 bits. -/
def parsePort (x : List Char) : Option ℕ :=
  let digits := (stripPrefix ['+'] x).getD x
  if digits.isEmpty || !digits.all Char.isDigit then none
  else
    let n := digits.foldl (fun n c => 10 * n + (c.toNat - 48)) 0
    if n < 65536 then some n else none

/-- What a url has between its scheme and its path, without the user. -/
def urlAuthority (rest : List Char) : List Char :=
  let authority := (rest.splitOnP fun c => c = '/' || c = '?' || c = '#').headD []
  ((authority.splitOn '@').getLast?).getD []

/-- The host and the port a url addresses, the port by its scheme if it has none. -/
def urlHostPort (url : String) : Option (List Char × ℕ) := do
  let (schemePort, rest) ←
    match stripPrefix "https://".toList url.toList with
    | some rest => some (443, rest)
    | none => (stripPrefix "http://".toList url.toList).map fun rest => (80, rest)
  let authority := urlAuthority rest
  let (host, port) ←
    match stripPrefix ['['] authority with
    | some after =>
        (Text.splitFirst [']'] after).bind fun (h, tail) =>
          let port :=
            match stripPrefix [':'] tail with
            | some p => parsePort p
            | none => some schemePort
          port.map fun port => ('[' :: h ++ [']'], port)
    | none =>
        match Text.splitLast [':'] authority with
        | some (h, p) => (parsePort p).map fun port => (h, port)
        | none => some (authority, schemePort)
  if host = [] then none else some (host, port)

/-- The bare host of a url. -/
def urlHost (url : String) : Option (List Char) := do
  let rest ←
    (stripPrefix "https://".toList url.toList).or (stripPrefix "http://".toList url.toList)
  let host := urlAuthority rest
  let hostOnly :=
    if host.head? = some '[' then ((host.splitOn ']').headD host).dropWhile (· = '[')
    else (host.splitOn ':').headD host
  if hostOnly = [] then none else some hostOnly

def isHttpUrl (url : String) : Bool :=
  ("http://".toList).isPrefixOf url.toList || ("https://".toList).isPrefixOf url.toList

/-! ## Tools, workspaces and mcp servers -/

def isOperationIdChar (c : Char) : Bool := c.isAlphanum || c == '_'

def validateOperationId (id : String) : Bool :=
  match id.toList with
  | [] => false
  | c :: x => isOperationIdChar c && (c :: x).all fun c => isOperationIdChar c || c == '-'

def validateFills (op : ToolOperation) : List ToolParam → Except ConfigError Unit
  | [] => .ok ()
  | p :: ps => do
      validateFill (op.id ++ "." ++ p.name) p.fill
      validateFills op ps

def validateOperations (seen : List String) : List ToolOperation → Except ConfigError Unit
  | [] => .ok ()
  | op :: ops => do
      if !validateOperationId op.id then throw (.badOperationId op.id)
      if op.id ∈ seen then throw (.duplicateOperation op.id)
      if op.path.toList.head? ≠ some '/' then throw (.toolBadPath op.id)
      if hasTraversal op.path.toList then throw .pathTraversal
      validateFills op op.params
      validateOperations (op.id :: seen) ops

def validateTool (cfg : ToolConfig) (allowHosts : List String) : Except ConfigError Unit :=
  match urlHostPort cfg.baseUrl with
  | none => .error .toolBadBaseUrl
  | some (host, port) =>
      let allowed := allowHosts.contains (String.ofList host ++ ":" ++ toString port)
      if !allowed && hostIsDenied host then .error (.toolDeniedHost (String.ofList host))
      else validateOperations [] cfg.operations

/-- Normalise a blob key: relative, no traversal, no empty or dot segments. -/
def normalizeChestKey (key : List Char) : Except ConfigError (List Char) :=
  if key.head? = some '/' || key.contains '\\' || key.contains '\x00' then .error .pathTraversal
  else
    let segs := (key.splitOn '/').filter fun seg => seg ≠ [] ∧ seg ≠ ['.']
    if segs.contains ['.', '.'] || segs.isEmpty then .error .pathTraversal
    else .ok (['/'].intercalate segs)

def validateWorkspace (ws : Workspace) : Except ConfigError Unit :=
  match normalizeChestKey ws.path.toList with
  | .error _ => .error .badWorkspacePath
  | .ok _ =>
      match ws.git with
      | none => .ok ()
      | some git =>
          let afterScheme := ((Text.splitFirst "://".toList git.url.toList).map Prod.snd).getD []
          let userinfo := (Text.splitFirst ['@'] afterScheme).map Prod.fst
          if userinfo.any fun u => !u.contains '/' then .error .credentialInWorkspaceUrl
          else if !(isHttpUrl git.url || ("file://".toList).isPrefixOf git.url.toList) then
            .error .badWorkspaceUrl
          else .ok ()

def validateWorkspaces : List Workspace → Except ConfigError Unit
  | [] => .ok ()
  | ws :: rest => do
      validateWorkspace ws
      validateWorkspaces rest

def validateMcp : McpConfig → Except ConfigError Unit
  | .stdio command _ _ =>
      if Text.trim command.toList = [] then .error .mcpMissingCommand else .ok ()
  | .http url _ =>
      if Text.trim url.toList = [] then .error .mcpMissingUrl
      else if !isHttpUrl url then .error .mcpBadUrl
      else if hostIsDenied ((urlHost url).getD []) then .error .mcpBadUrl
      else .ok ()

/-- Validate a node's configuration, honouring an allow list of hosts for tools. -/
def validateConfigWith (cfg : NodeConfig) (allowHosts : List String) : Except ConfigError Unit :=
  match cfg with
  | .agent a =>
      if maxSystemPrompt < a.systemPrompt.utf8ByteSize then
        .error (.systemPromptTooLong maxSystemPrompt)
      else validateWorkspaces a.workspaces
  | .ctx c =>
      if maxValueBytes < c.markdown.utf8ByteSize then .error (.ctxTooLong maxValueBytes) else .ok ()
  | .table t => validateTable t
  | .endpoint e => validateEndpointPath e.path
  | .script s => validateScript s
  | .mcp m => validateMcp m
  | .vault v => validateVaultKeys [] v.keys
  | .chest _ => .ok ()
  | .tool t => validateTool t allowHosts

/-- The columns of a valid table are distinct, and none of them is the key. -/
theorem columns_of_validateColumns {seen : List String} {cs : List Column}
    (h : validateColumns seen cs = .ok ()) :
    (cs.map fun c => c.name.raw).Nodup ∧
      ∀ c ∈ cs, c.name.raw ≠ tableKeyColumn ∧ c.name.raw ∉ seen := by
  induction cs generalizing seen with
  | nil => exact ⟨List.nodup_nil, fun c hc => by cases hc⟩
  | cons c cs ih =>
      unfold validateColumns at h
      split at h
      · cases h
      · rename_i hkey
        split at h
        · cases h
        · rename_i hseen
          obtain ⟨hnodup, hall⟩ := ih h
          refine ⟨List.nodup_cons.mpr ⟨fun hmem => ?_, hnodup⟩, fun d hd => ?_⟩
          · obtain ⟨d, hd, hname⟩ := List.mem_map.mp hmem
            exact (hall d hd).2 (hname ▸ List.mem_cons_self)
          · rcases List.mem_cons.mp hd with rfl | hd
            · exact ⟨hkey, hseen⟩
            · exact ⟨(hall d hd).1, fun hmem => (hall d hd).2 (List.mem_cons_of_mem _ hmem)⟩

/-- A valid list of operations starts with one whose id is new. -/
theorem of_validateOperations_cons {seen : List String} {op : ToolOperation}
    {ops : List ToolOperation} (h : validateOperations seen (op :: ops) = .ok ()) :
    op.id ∉ seen ∧ validateOperations (op.id :: seen) ops = .ok () := by
  unfold validateOperations at h
  by_cases hid : (!validateOperationId op.id) = true
  · rw [if_pos hid] at h
    cases h
  rw [if_neg hid] at h
  by_cases hseen : op.id ∈ seen
  · rw [if_pos hseen] at h
    cases h
  rw [if_neg hseen] at h
  by_cases hpath : op.path.toList.head? ≠ some '/'
  · rw [if_pos hpath] at h
    cases h
  rw [if_neg hpath] at h
  by_cases htrav : hasTraversal op.path.toList = true
  · rw [if_pos htrav] at h
    cases h
  rw [if_neg htrav] at h
  cases hfills : validateFills op op.params with
  | error e =>
      rw [hfills] at h
      cases h
  | ok _ =>
      rw [hfills] at h
      exact ⟨hseen, h⟩

/-- The ids of the operations of a valid tool are distinct. -/
theorem ids_of_validateOperations {seen : List String} {ops : List ToolOperation}
    (h : validateOperations seen ops = .ok ()) :
    (ops.map fun op => op.id).Nodup ∧ ∀ op ∈ ops, op.id ∉ seen := by
  induction ops generalizing seen with
  | nil => exact ⟨List.nodup_nil, fun op hop => by cases hop⟩
  | cons op ops ih =>
      obtain ⟨hseen, hrest⟩ := of_validateOperations_cons h
      obtain ⟨hnodup, hall⟩ := ih hrest
      constructor
      · rw [List.map_cons, List.nodup_cons]
        refine ⟨fun hmem => ?_, hnodup⟩
        obtain ⟨o, ho, hid⟩ := List.mem_map.mp hmem
        exact hall o ho (hid ▸ List.mem_cons_self)
      · intro o ho
        rcases List.mem_cons.mp ho with rfl | ho
        · exact hseen
        · exact fun hmem => hall o ho (List.mem_cons_of_mem _ hmem)

theorem ids_of_validateTool {cfg : ToolConfig} {allowHosts : List String}
    (h : validateTool cfg allowHosts = .ok ()) : (cfg.operations.map fun op => op.id).Nodup := by
  unfold validateTool at h
  split at h
  · cases h
  · dsimp only at h
    split at h
    · cases h
    · exact (ids_of_validateOperations h).1

end Wheel
