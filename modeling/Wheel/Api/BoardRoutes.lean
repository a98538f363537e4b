import Wheel.Api.MergePatch
import Wheel.Api.ToolRoutes
import Wheel.Api.VaultRoutes
import Wheel.Db.BoardEffect
import Wheel.Db.NodeJson
import Mathlib

/-!
# The routes that edit the board

Every route reads and writes the board under one lock, so calls take effect one after another; only
a re-import reads its node under one lock and writes it back under a later one. `desk_run` says
what holds on every board that calls lead to: a node has the type it was created with, wires join
nodes that may be joined, and endpoints have their addresses for themselves.
-/

namespace Wheel

namespace BoardRoutes

open Board

/-- How a configuration is read from its JSON form: the tag selects the variant. -/
structure ConfigReader where
  read : NodeType → Json → Except String NodeConfig
  tagged : ∀ ty json config, read ty json = .ok config → config.nodeType = ty

inductive RouteError where
  | unsupportedHarness (harness : Harness)
  | tooLarge (bytes limit : ℕ)
  | notFound (id : Uuid)
  | noSuchWire
  | notCtx (name : NodeName) (ty : NodeType)
  | notTool (ty : NodeType)
  | agentRunning (was : NodeName) (status : AgentStatus)
  | badConfig (reason : String)
  | wouldUnpin (unpinned : List Api.ToolRoutes.Unpinned)
  | board (e : BoardError)
  | internal (text : String)

abbrev Outcome (α : Type) := Board × Except RouteError α

/-- A partial update of a node. -/
structure PatchNode where
  name : Option NodeName
  position : Option Position
  config : Option Json

/-- What an import answers. -/
structure Imported where
  format : ToolFormat
  baseUrl : String
  operations : List ToolOperation

def hasDriver (h : Harness) : Bool := h = .claude

def rejectUnsupportedHarness : NodeConfig → Except RouteError Unit
  | .agent c => if hasDriver c.harness then .ok () else .error (.unsupportedHarness c.harness)
  | _ => .ok ()

/-- May a node not be renamed in the state it is in? A live agent may not. -/
def renameIsRefused (ty : NodeType) (status : AgentStatus) : Bool :=
  ty = .agent && (status = .running || status = .starting || status = .idle)

section Routes

variable (srv : VaultRoutes.Server) (reader : ConfigReader) (rfc3339 : Timestamp → String)
  (b : Board)

/-- The answer of an operation on the board, as a route gives it. -/
def routed {α β : Type} (f : α → β) (r : Board.Outcome α) : Outcome β :=
  (r.1, (r.2.mapError .board).map f)

/-- `POST /v1/nodes`; `id` is the fresh id of the node. -/
def createNode (id : Uuid) (name : NodeName) (position : Position) (config : NodeConfig) :
    Outcome Node :=
  match rejectUnsupportedHarness config with
  | .error e => (b, .error e)
  | .ok () =>
      let node : Node := ⟨id, name, position, config⟩
      routed (fun _ => node) (b.createWith srv.lite node srv.allowHosts)

def withMarkdown (n : Node) (markdown : String) : Node := { n with config := .ctx ⟨markdown⟩ }

/-- `PUT /v1/nodes/:id/content`: the text of a `ctx` node, and nothing else. -/
def putContent (id : Uuid) (markdown : String) : Outcome Node :=
  if maxValueBytes < markdown.utf8ByteSize then
    (b, .error (.tooLarge markdown.utf8ByteSize maxValueBytes))
  else
    match b.get id with
    | none => (b, .error (.notFound id))
    | some n =>
        if n.nodeType ≠ .ctx then (b, .error (.notCtx n.name n.nodeType))
        else
          routed (fun _ => withMarkdown n markdown)
            (b.updateWith srv.lite (withMarkdown n markdown) [])

/-- The name a patch leaves, unless the rename is refused. -/
def patchName (n : Node) (name : Option NodeName) : Except RouteError Node :=
  match name with
  | none => .ok n
  | some name =>
      if n.name = name then .ok n
      else
        let status := (b.status n.id).getD .stopped
        if renameIsRefused n.nodeType status then .error (.agentRunning n.name status)
        else .ok { n with name := name }

/-- The configuration a patch leaves: it is merged, and the result is read under the type that the
node has. -/
def patchConfig (n : Node) (config : Option Json) : Except RouteError Node :=
  match config with
  | none => .ok n
  | some patch =>
      match reader.read n.nodeType (Api.mergePatch (n.config.toJson rfc3339) patch) with
      | .error e => .error (.badConfig e)
      | .ok config => .ok { n with config := config }

/-- `PATCH /v1/nodes/:id`. -/
def patchNode (id : Uuid) (body : PatchNode) : Outcome Node :=
  match b.get id with
  | none => (b, .error (.notFound id))
  | some n =>
      match patchName b n body.name with
      | .error e => (b, .error e)
      | .ok n =>
          match patchConfig reader rfc3339 { n with position := body.position.getD n.position }
              body.config with
          | .error e => (b, .error e)
          | .ok n =>
              match rejectUnsupportedHarness n.config with
              | .error e => (b, .error e)
              | .ok () => routed (fun _ => n) (b.updateWith srv.lite n srv.allowHosts)

/-- `DELETE /v1/nodes/:id`. -/
def deleteNode (id : Uuid) : Outcome Unit :=
  let r := b.delete id
  match r.2 with
  | .error e => (r.1, .error (.internal e))
  | .ok existed => (r.1, if existed then .ok () else .error (.notFound id))

/-- `POST /v1/wires`; the answer is a warning. -/
def addWire (source target : Uuid) (ty : WireType) : Outcome (Option String) :=
  routed id (b.addWire source target ty none)

/-- `DELETE /v1/wires`. -/
def removeWire (source target : Uuid) (ty : WireType) : Outcome Unit :=
  let r := b.removeWire source target ty
  (r.1, if r.2 then .ok () else .error .noSuchWire)

/-! ## Importing a tool again -/

def toolNode (id : Uuid) : Except RouteError (Node × ToolConfig) :=
  match b.get id with
  | none => .error (.notFound id)
  | some n =>
      match n.config with
      | .tool c => .ok (n, c)
      | other => .error (.notTool other.nodeType)

/-- The configuration that a re-import leaves. -/
def reimported (cfg : ToolConfig) (got : Imported) (raw : String) (now : Timestamp)
    (allowUnpin : Bool) : Except RouteError ToolConfig :=
  let m := Api.ToolRoutes.mergeOperations cfg.operations got.operations
  if m.unpinned ≠ [] ∧ allowUnpin = false then .error (.wouldUnpin m.unpinned)
  else
    .ok {
      kind := cfg.kind
      source := ⟨got.format, raw, now⟩
      baseUrl := if got.baseUrl = "" then cfg.baseUrl else got.baseUrl
      operations := m.operations }

/-- The second half of `POST /v1/tools/:id/import`: the node as it was read is written back. -/
def writeReimport (read : Node × ToolConfig) (got : Imported) (raw : String) (now : Timestamp)
    (allowUnpin : Bool) : Outcome ToolConfig :=
  match reimported read.2 got raw now allowUnpin with
  | .error e => (b, .error e)
  | .ok cfg =>
      routed (fun _ => cfg) (b.updateWith srv.lite { read.1 with config := .tool cfg } [])

end Routes

/-! ## The desk -/

/-- The board, with the re-imports that have read their node and not written it yet, and the nodes
that were ever created. -/
structure Desk where
  board : Board
  reimports : List (Node × ToolConfig)
  created : List (Uuid × NodeType)

namespace Desk

def empty : Desk := ⟨Board.empty, [], []⟩

end Desk

/-- One section under the lock. -/
inductive Call where
  | createNode (id : Uuid) (name : NodeName) (position : Position) (config : NodeConfig)
  | putContent (id : Uuid) (markdown : String)
  | patchNode (id : Uuid) (body : PatchNode)
  | deleteNode (id : Uuid)
  | addWire (source target : Uuid) (ty : WireType)
  | removeWire (source target : Uuid) (ty : WireType)
  | readTool (id : Uuid)
  | writeTool (i : ℕ) (got : Imported) (raw : String) (now : Timestamp) (allowUnpin : Bool)
  | vault (op : VaultRoutes.VaultOp)
  | ensureTables
  | putRow (id : Uuid) (key : String) (value : Json)
  | deleteRow (id : Uuid) (key : String)
  | setStatus (id : Uuid) (status : Option AgentStatus)

section Step

variable (srv : VaultRoutes.Server) (reader : ConfigReader) (rfc3339 : Timestamp → String)

/-- What a call does to the board of the desk alone. -/
def edit (s : Desk) : Call → Board
  | .createNode id name position config => (createNode srv s.board id name position config).1
  | .putContent id markdown => (putContent srv s.board id markdown).1
  | .patchNode id body => (patchNode srv reader rfc3339 s.board id body).1
  | .deleteNode id => (deleteNode s.board id).1
  | .addWire source target ty => (addWire s.board source target ty).1
  | .removeWire source target ty => (removeWire s.board source target ty).1
  | .readTool _ => s.board
  | .writeTool i got raw now allowUnpin =>
      match s.reimports[i]? with
      | some read => (writeReimport srv s.board read got raw now allowUnpin).1
      | none => s.board
  | .vault op => VaultRoutes.step srv s.board op
  | .ensureTables => s.board.apply srv.lite srv.allowHosts .ensureTables
  | .putRow id key value => s.board.apply srv.lite srv.allowHosts (.putRow id key value)
  | .deleteRow id key => s.board.apply srv.lite srv.allowHosts (.deleteRow id key)
  | .setStatus id status => { s.board with status := Function.update s.board.status id status }

/-- The step of a call. No id is drawn twice. -/
def step (s : Desk) (c : Call) : Desk :=
  match c with
  | .createNode id _ _ config =>
      if (s.created.map Prod.fst).contains id then s
      else ⟨edit srv reader rfc3339 s c, s.reimports, (id, config.nodeType) :: s.created⟩
  | .readTool id =>
      match toolNode s.board id with
      | .ok read => { s with reimports := s.reimports ++ [read] }
      | .error _ => s
  | .writeTool i _ _ _ _ => ⟨edit srv reader rfc3339 s c, s.reimports.eraseIdx i, s.created⟩
  | c => { s with board := edit srv reader rfc3339 s c }

end Step

/-! ## What a call does -/

section Effects

variable {srv : VaultRoutes.Server} {reader : ConfigReader} {rfc3339 : Timestamp → String}
  {b : Board} {created : List (Uuid × NodeType)}

/-- The node was created with the type that it has. -/
def Known (created : List (Uuid × NodeType)) (n : Node) : Prop := (n.id, n.nodeType) ∈ created

/-- Every node of the board was created with the type that it has. -/
def AllKnown (created : List (Uuid × NodeType)) (b : Board) : Prop :=
  ∀ id n, b.get id = some n → Known created n

theorem effect_update {n node : Node} {hosts : List String} (hid : node.id = n.id)
    (htype : node.nodeType = n.nodeType) (h : Known created n) :
    Effect (Known created) b (b.updateWith srv.lite node hosts).1 := by
  refine effect_updateWith.mono ?_
  rintro m ⟨rfl, -⟩
  rw [Known, hid, htype]
  exact h

theorem effect_createNode (id : Uuid) (name : NodeName) (position : Position)
    (config : NodeConfig) :
    Effect (fun n => (n.id, n.nodeType) = (id, config.nodeType)) b
      (createNode srv b id name position config).1 := by
  unfold createNode
  cases rejectUnsupportedHarness config with
  | error e => exact .refl
  | ok _ => exact effect_createWith.mono fun n hn => hn ▸ rfl

theorem effect_putContent (hb : AllKnown created b) (id : Uuid) (markdown : String) :
    Effect (Known created) b (putContent srv b id markdown).1 := by
  unfold putContent
  split
  · exact .refl
  · cases hn : b.get id with
    | none => exact .refl
    | some n =>
        dsimp only
        split
        · exact .refl
        · next hctx =>
            refine effect_update (n := n) rfl ?_ (hb id n hn)
            exact (not_not.1 hctx).symm

theorem patchName_eq_ok {n n' : Node} {name : Option NodeName} (h : patchName b n name = .ok n') :
    n'.id = n.id ∧ n'.config = n.config := by
  unfold patchName at h
  split at h
  · cases h
    exact ⟨rfl, rfl⟩
  · split at h
    · cases h
      exact ⟨rfl, rfl⟩
    · dsimp only at h
      split at h
      · cases h
      · cases h
        exact ⟨rfl, rfl⟩

/-- A patch never changes what kind of node it is. -/
theorem patchConfig_eq_ok {n n' : Node} {config : Option Json}
    (h : patchConfig reader rfc3339 n config = .ok n') :
    n'.id = n.id ∧ n'.nodeType = n.nodeType := by
  unfold patchConfig at h
  split at h
  · cases h
    exact ⟨rfl, rfl⟩
  · split at h
    · cases h
    · next hread =>
        cases h
        exact ⟨rfl, reader.tagged _ _ _ hread⟩

theorem effect_patchNode (hb : AllKnown created b) (id : Uuid) (body : PatchNode) :
    Effect (Known created) b (patchNode srv reader rfc3339 b id body).1 := by
  unfold patchNode
  cases hn : b.get id with
  | none => exact .refl
  | some n =>
      dsimp only
      cases hname : patchName b n body.name with
      | error e => exact .refl
      | ok n' =>
          dsimp only
          cases hconfig : patchConfig reader rfc3339
              { n' with position := body.position.getD n'.position } body.config with
          | error e => exact .refl
          | ok m =>
              dsimp only
              cases rejectUnsupportedHarness m.config with
              | error e => exact .refl
              | ok _ =>
                  obtain ⟨hid, hcfg⟩ := patchName_eq_ok hname
                  obtain ⟨hid', htype⟩ := patchConfig_eq_ok hconfig
                  refine effect_update (n := n) (hid'.trans hid) (htype.trans ?_) (hb id n hn)
                  exact congrArg NodeConfig.nodeType hcfg

theorem effect_deleteNode {P : Node → Prop} (id : Uuid) : Effect P b (deleteNode b id).1 := by
  unfold deleteNode
  dsimp only
  cases (b.delete id).2 <;> exact effect_delete id

theorem effect_writeReimport {read : Node × ToolConfig} {got : Imported} {raw : String}
    {now : Timestamp} {allowUnpin : Bool} (hknown : Known created read.1)
    (htool : read.1.nodeType = .tool) :
    Effect (Known created) b (writeReimport srv b read got raw now allowUnpin).1 := by
  unfold writeReimport
  cases reimported read.2 got raw now allowUnpin with
  | error e => exact .refl
  | ok cfg => exact effect_update (n := read.1) rfl htool.symm hknown

theorem effect_updateKeys {b₁ : Board} {vault : Uuid} {n : Node} {keys : List String}
    (hb : AllKnown created b) (hnodes : b₁.nodes = b.nodes) (hwires : b₁.wires = b.wires)
    (h : VaultRoutes.IsVault b vault n keys) (keys' : List String) :
    Effect (Known created) b (VaultRoutes.updateKeys srv b₁ n keys').1 := by
  refine .congr hnodes hwires (effect_update (n := n) rfl ?_ (hb vault n h.get))
  rw [Node.nodeType, Node.nodeType, h.config]
  rfl

theorem effect_vault (hb : AllKnown created b) (op : VaultRoutes.VaultOp) :
    Effect (Known created) b (VaultRoutes.step srv b op) := by
  cases op with
  | put vault key value ciphertext =>
      show Effect _ b (VaultRoutes.putValue srv b vault key value ciphertext).1
      unfold VaultRoutes.putValue
      cases VaultRoutes.checkRequest srv (VaultRoutes.requestKey key) value with
      | error e => exact .refl
      | ok _ =>
          show Effect _ b (VaultRoutes.storeInVaultUntil srv b vault _ ciphertext none).1
          unfold VaultRoutes.storeInVaultUntil
          cases hcheck : VaultRoutes.checkStore srv b vault (VaultRoutes.requestKey key) with
          | error e => exact .refl
          | ok x =>
              obtain ⟨n, keys, warning⟩ := x
              dsimp only
              split
              · exact .of_eq rfl rfl
              · show Effect _ b (VaultRoutes.updateKeys srv (VaultRoutes.putRow b _) n _).1
                exact effect_updateKeys hb (by rfl) (by rfl) (VaultRoutes.of_checkStore hcheck) _
  | delete vault key =>
      show Effect _ b (VaultRoutes.removeFromVault srv b vault key).1
      unfold VaultRoutes.removeFromVault
      cases hvault : VaultRoutes.vaultOf b vault with
      | error e => exact .refl
      | ok x =>
          show Effect _ b (VaultRoutes.updateKeys srv (VaultRoutes.deleteValues b vault key) x.1 _).1
          exact effect_updateKeys hb (by rfl) (by rfl) (VaultRoutes.vaultOf_eq_ok_iff.1 hvault) _
  | patch vault patch =>
      show Effect _ b (VaultRoutes.patchConfig srv b vault patch).1
      unfold VaultRoutes.patchConfig
      cases hvault : VaultRoutes.vaultOf b vault with
      | error e => exact .refl
      | ok x =>
          dsimp only
          split
          · exact .refl
          · exact effect_updateKeys hb rfl rfl (VaultRoutes.vaultOf_eq_ok_iff.1 hvault) _

/-- What a call does to the board, where a new node is known by then. -/
theorem effect_edit {s : Desk} (hb : AllKnown s.created s.board)
    (hreads : ∀ r ∈ s.reimports, Known s.created r.1 ∧ r.1.nodeType = .tool) {c : Call}
    (hc : ∀ id name position config, c = .createNode id name position config →
      (id, config.nodeType) ∈ created) (hcreated : s.created ⊆ created) :
    Effect (Known created) s.board (edit srv reader rfc3339 s c) := by
  have hmono : ∀ {b'}, Effect (Known s.created) s.board b' → Effect (Known created) s.board b' :=
    fun h => h.mono fun _ hn => hcreated hn
  cases c with
  | createNode id name position config =>
      refine (effect_createNode id name position config).mono fun n hn => ?_
      rw [Known, hn]
      exact hc id name position config rfl
  | putContent id markdown => exact hmono (effect_putContent hb id markdown)
  | patchNode id body => exact hmono (effect_patchNode hb id body)
  | deleteNode id => exact effect_deleteNode id
  | addWire source target ty => exact effect_addWire source target ty none
  | removeWire source target ty => exact effect_removeWire source target ty
  | readTool id => exact .refl
  | writeTool i got raw now allowUnpin =>
      show Effect _ s.board (match s.reimports[i]? with
        | some read => (writeReimport srv s.board read got raw now allowUnpin).1
        | none => s.board)
      cases hread : s.reimports[i]? with
      | none => exact .refl
      | some read =>
          obtain ⟨hknown, htool⟩ := hreads read (List.mem_of_getElem? hread)
          exact hmono (effect_writeReimport hknown htool)
  | vault op => exact hmono (effect_vault hb op)
  | ensureTables => exact .of_eq rfl rfl
  | putRow id key value =>
      refine .of_eq (nodes_onTable id _) ?_
      show (s.board.onTable id _).wires = _
      unfold onTable
      split <;> rfl
  | deleteRow id key =>
      refine .of_eq (nodes_onTable id _) ?_
      show (s.board.onTable id _).wires = _
      unfold onTable
      split <;> rfl
  | setStatus id status => exact .of_eq rfl rfl

end Effects

/-! ## Runs -/

/-- What holds of every desk that calls lead to. -/
structure Sound (s : Desk) : Prop where
  once : (s.created.map Prod.fst).Nodup
  known : AllKnown s.created s.board
  reads : ∀ r ∈ s.reimports, Known s.created r.1 ∧ r.1.nodeType = .tool
  wired : Wired s.board
  addresses : UniqueAddresses s.board

section Runs

variable {srv : VaultRoutes.Server} {reader : ConfigReader} {rfc3339 : Timestamp → String}

theorem type_unique {created : List (Uuid × NodeType)} (h : (created.map Prod.fst).Nodup)
    {id : Uuid} {ty ty' : NodeType} (hty : (id, ty) ∈ created) (hty' : (id, ty') ∈ created) :
    ty = ty' := congrArg Prod.snd (List.inj_on_of_nodup_map h hty hty' rfl)

/-- An effect keeps what holds, where the nodes that it writes are known. -/
theorem Sound.of_effect {s t : Desk} (h : Sound s) (honce : (t.created.map Prod.fst).Nodup)
    (hcreated : s.created ⊆ t.created) (heffect : Effect (Known t.created) s.board t.board)
    (hreads : ∀ r ∈ t.reimports, r ∈ s.reimports ∨ Known t.created r.1 ∧ r.1.nodeType = .tool) :
    Sound t := by
  have htypes : KeepsTypes s.board t.board := by
    refine keepsTypes_of_effect heffect fun node hnode n hn => ?_
    have hold := hcreated (h.known node.id n hn)
    rw [(get_eq_some_iff.1 hn).2] at hold
    exact type_unique honce hnode hold
  refine ⟨honce, fun id n hn => ?_, fun r hr => ?_, h.wired.of_effect heffect htypes,
    uniqueAddresses_of_effect h.addresses heffect⟩
  · have hold : ∀ {k}, s.board.get k = some n → Known t.created n :=
      fun hk => hcreated (h.known _ n hk)
    cases heffect with
    | kept hget => exact hold ((hget id).symm.trans hn)
    | written node hnode hpath hget =>
        rw [hget] at hn
        split at hn
        · obtain rfl := Option.some_inj.1 hn
          exact hnode
        · exact hold hn
    | deleted k hget =>
        rw [hget] at hn
        split at hn
        · cases hn
        · exact hold hn
    | wired k hget => exact hold ((hget id).symm.trans hn)
  · rcases hreads r hr with hr | hr
    · exact ⟨hcreated (h.reads r hr).1, (h.reads r hr).2⟩
    · exact hr

theorem known_toolNode {b : Board} {created : List (Uuid × NodeType)} (hb : AllKnown created b)
    {id : Uuid} {read : Node × ToolConfig} (h : toolNode b id = .ok read) :
    Known created read.1 ∧ read.1.nodeType = .tool := by
  unfold toolNode at h
  cases hn : b.get id with
  | none =>
      rw [hn] at h
      cases h
  | some n =>
      rw [hn] at h
      dsimp only at h
      split at h
      · next hc =>
          obtain rfl := Except.ok.inj h
          exact ⟨hb id n hn, by rw [Node.nodeType, hc]; rfl⟩
      · cases h

theorem sound_edit {s : Desk} (h : Sound s) {c : Call}
    (hc : ∀ id name position config, c ≠ .createNode id name position config)
    {reads : List (Node × ToolConfig)} (hreads : reads ⊆ s.reimports) :
    Sound ⟨edit srv reader rfc3339 s c, reads, s.created⟩ :=
  h.of_effect h.once (List.Subset.refl _)
    (effect_edit h.known h.reads (fun id name position config heq =>
      absurd heq (hc id name position config)) (List.Subset.refl _))
    fun _ hr => .inl (hreads hr)

theorem sound_step {s : Desk} (h : Sound s) (c : Call) : Sound (step srv reader rfc3339 s c) := by
  have hall := List.Subset.refl s.reimports
  cases c with
  | createNode id name position config =>
      show Sound (if (s.created.map Prod.fst).contains id then s else _)
      split
      · exact h
      · next hfresh =>
          have heffect : Effect (Known ((id, config.nodeType) :: s.created)) s.board
              (edit srv reader rfc3339 s (.createNode id name position config)) := by
            refine effect_edit h.known h.reads (fun id' _ _ config' hc => ?_)
              (List.subset_cons_self _ _)
            cases hc
            exact List.mem_cons_self
          rw [Bool.not_eq_true, List.contains_eq_mem, decide_eq_false_iff_not] at hfresh
          exact h.of_effect (List.nodup_cons.2 ⟨hfresh, h.once⟩) (List.subset_cons_self _ _)
            heffect fun r hr => .inl hr
  | readTool id =>
      show Sound (match toolNode s.board id with
        | .ok read => { s with reimports := s.reimports ++ [read] }
        | .error _ => s)
      cases hread : toolNode s.board id with
      | error e => exact h
      | ok read =>
          refine h.of_effect h.once (List.Subset.refl _) .refl fun r hr => ?_
          rcases List.mem_append.1 hr with hr | hr
          · exact .inl hr
          · obtain rfl := List.mem_singleton.1 hr
            exact .inr (known_toolNode h.known hread)
  | writeTool i got raw now allowUnpin =>
      exact sound_edit h (by simp) (List.eraseIdx_sublist _ _).subset
  | putContent id markdown => exact sound_edit h (by simp) hall
  | patchNode id body => exact sound_edit h (by simp) hall
  | deleteNode id => exact sound_edit h (by simp) hall
  | addWire source target ty => exact sound_edit h (by simp) hall
  | removeWire source target ty => exact sound_edit h (by simp) hall
  | vault op => exact sound_edit h (by simp) hall
  | ensureTables => exact sound_edit h (by simp) hall
  | putRow id key value => exact sound_edit h (by simp) hall
  | deleteRow id key => exact sound_edit h (by simp) hall
  | setStatus id status => exact sound_edit h (by simp) hall

theorem sound_empty : Sound Desk.empty where
  once := List.nodup_nil
  known := fun _ _ hn => nomatch hn
  reads := fun _ hr => nomatch hr
  wired := ⟨fun _ hk => (nomatch hk), List.nodup_nil⟩
  addresses := fun _ _ _ _ hn => nomatch hn

theorem sound_run (calls : List Call) :
    Sound (Run.run (step srv reader rfc3339) Desk.empty calls) :=
  Run.invariant (C := fun _ _ => True) (I := Sound) (fun _ c hs _ => sound_step hs c) sound_empty
    (Run.always_of_forall_mem fun _ _ _ => trivial)

/-- However calls follow each other, every stored wire joins two distinct nodes of the board in a way
that the matrix allows for the types they have. -/
theorem wires_run (srv : VaultRoutes.Server) (reader : ConfigReader) (rfc3339 : Timestamp → String)
    (calls : List Call) :
    ∀ w ∈ (Run.run (step srv reader rfc3339) Desk.empty calls).board.wires, ∃ n m,
      (Run.run (step srv reader rfc3339) Desk.empty calls).board.get w.source = some n ∧
      (Run.run (step srv reader rfc3339) Desk.empty calls).board.get w.target = some m ∧
      w.source ≠ w.target ∧ wireAllowed n.nodeType m.nodeType w.wireType = true := by
  intro w hw
  have hsound := @sound_run srv reader rfc3339 calls
  obtain ⟨n, m, hn, hm, hcheck⟩ := hsound.wired.joins w.key (List.mem_map.2 ⟨w, hw, rfl⟩)
  refine ⟨n, m, hn, hm, ?_⟩
  unfold checkWire at hcheck
  split_ifs at hcheck with hself hallowed
  exact ⟨hself, by simpa [WireRow.key] using hallowed⟩

/-- The configurations of `ctx` nodes are read, and no others. -/
def contentReader : ConfigReader where
  read
    | .ctx, .obj [("markdown", .str markdown)] => .ok (.ctx ⟨markdown⟩)
    | _, _ => .error "not a ctx configuration"
  tagged := by
    intro ty json config h
    split at h
    · cases h
      rfl
    · cases h

def notes : List Call := [.createNode 1 ⟨"notes", by decide⟩ ⟨0, 0⟩ (.ctx ⟨"draft"⟩)]

def reading : List Call :=
  [.createNode 2 ⟨"job", by decide⟩ ⟨0, 0⟩ (.script ⟨.python, "print(1)", none⟩), .addWire 2 1 .read]

theorem wires_run_reading : ∃ n m,
    (Run.run (step VaultRoutes.plainServer contentReader fun _ => "") Desk.empty
      (notes ++ reading)).board.get 2 = some n ∧
    (Run.run (step VaultRoutes.plainServer contentReader fun _ => "") Desk.empty
      (notes ++ reading)).board.get 1 = some m ∧
    (2 : Uuid) ≠ 1 ∧ wireAllowed n.nodeType m.nodeType .read = true := by
  have hwires : (Run.run (step VaultRoutes.plainServer contentReader fun _ => "") Desk.empty
      (notes ++ reading)).board.wires = [⟨2, 1, .read, none⟩] := by
    rfl
  exact wires_run _ _ _ (notes ++ reading) ⟨2, 1, .read, none⟩
    (hwires ▸ List.mem_singleton_self _)

theorem created_subset_step (s : Desk) (c : Call) :
    s.created ⊆ (step srv reader rfc3339 s c).created := by
  unfold step
  split
  · split
    · exact List.Subset.refl _
    · exact List.subset_cons_self _ _
  · split <;> exact List.Subset.refl _
  · exact List.Subset.refl _
  · exact List.Subset.refl _

theorem created_subset_run (calls : List Call) (s : Desk) :
    s.created ⊆ (Run.run (step srv reader rfc3339) s calls).created :=
  Run.invariant (C := fun _ _ => True) (I := fun t : Desk => s.created ⊆ t.created)
    (fun t c ht _ => List.Subset.trans ht (created_subset_step t c)) (List.Subset.refl _)
    (Run.always_of_forall_mem fun _ _ _ => trivial)

/-- However calls follow each other, a node that is there at two moments has one type. -/
theorem types_run (srv : VaultRoutes.Server) (reader : ConfigReader)
    (rfc3339 : Timestamp → String) (calls later : List Call) (id : Uuid) (n n' : Node)
    (h : (Run.run (step srv reader rfc3339) Desk.empty calls).board.get id = some n)
    (h' : (Run.run (step srv reader rfc3339) Desk.empty (calls ++ later)).board.get id = some n') :
    n'.nodeType = n.nodeType := by
  have hbefore := @sound_run srv reader rfc3339 calls
  have hafter := @sound_run srv reader rfc3339 (calls ++ later)
  have hgrown : (Run.run (step srv reader rfc3339) Desk.empty calls).created ⊆
      (Run.run (step srv reader rfc3339) Desk.empty (calls ++ later)).created := by
    rw [Run.run_append]
    exact created_subset_run later _
  have hn := hgrown (hbefore.known id n h)
  have hn' := hafter.known id n' h'
  rw [(get_eq_some_iff.1 h).2] at hn
  rw [Known, (get_eq_some_iff.1 h').2] at hn'
  exact type_unique hafter.once hn' hn

def rewriting : List Call :=
  [.patchNode 1 ⟨none, none, some (.obj [("markdown", .str "final")])⟩]

theorem types_run_notes : ∃ n n',
    (Run.run (step VaultRoutes.plainServer contentReader fun _ => "") Desk.empty notes).board.get 1 =
      some n ∧
    (Run.run (step VaultRoutes.plainServer contentReader fun _ => "") Desk.empty
      (notes ++ rewriting)).board.get 1 = some n' ∧
    n'.config = .ctx ⟨"final"⟩ ∧ n'.nodeType = n.nodeType := by
  have hdraft : (Run.run (step VaultRoutes.plainServer contentReader fun _ => "") Desk.empty
      notes).board.get 1 = some ⟨1, ⟨"notes", by decide⟩, ⟨0, 0⟩, .ctx ⟨"draft"⟩⟩ := by
    rfl
  have hfinal : (Run.run (step VaultRoutes.plainServer contentReader fun _ => "") Desk.empty
      (notes ++ rewriting)).board.get 1 =
        some ⟨1, ⟨"notes", by decide⟩, ⟨0, 0⟩, .ctx ⟨"final"⟩⟩ := by
    rfl
  exact ⟨_, _, hdraft, hfinal, rfl, types_run _ _ _ notes rewriting 1 _ _ hdraft hfinal⟩

/-- However calls follow each other and in whatever order the nodes are listed, a request reaches
the one endpoint that is stored for its method and path, none exactly when no endpoint has the path,
and is else told a method of the path. -/
theorem match_run (srv : VaultRoutes.Server) (reader : ConfigReader) (rfc3339 : Timestamp → String)
    (calls : List Call) (l : List Node) (path : String) (method : HttpMethod)
    (hl : l.Perm (Run.run (step srv reader rfc3339) Desk.empty calls).board.nodes.rows) :
    (∀ e, matchNodes path method none l = .endpoint e ↔ ∃ n ∈ l, ∃ cfg,
      n.config = .endpoint cfg ∧ cfg.path = path ∧ cfg.method = method ∧ e = ⟨n.id, n.name, cfg⟩) ∧
    (matchNodes path method none l = .none ↔
      ∀ n ∈ l, ∀ cfg, n.config = .endpoint cfg → cfg.path ≠ path) ∧
    ∀ m, matchNodes path method none l = .wrongMethod m →
      ∃ n ∈ l, ∃ cfg, n.config = .endpoint cfg ∧ cfg.path = path ∧ cfg.method = m := by
  have hsound := @sound_run srv reader rfc3339 calls
  obtain ⟨hfound, hnone, hwrong⟩ := @matchNodes_of_unique path method _ _ hsound.addresses hl
  refine ⟨fun e => ?_, ?_, fun m h => ?_⟩
  · rw [hfound e]
    simp only [answers_eq_some_iff, hl.mem_iff]
  · rw [hnone]
    constructor
    · intro h n hn cfg hcfg hpath
      have hat := methodAt_eq_some_iff.2 ⟨cfg, hcfg, hpath, rfl⟩
      rw [h n (hl.mem_iff.1 hn)] at hat
      cases hat
    · intro h n hn
      cases hat : methodAt path n with
      | none => rfl
      | some m =>
          obtain ⟨cfg, hcfg, hpath, -⟩ := methodAt_eq_some_iff.1 hat
          exact absurd hpath (h n (hl.mem_iff.2 hn) cfg hcfg)
  · obtain ⟨n, hn, hat⟩ := hwrong m h
    exact ⟨n, hl.mem_iff.2 hn, methodAt_eq_some_iff.1 hat⟩

def hookNode : Node :=
  ⟨1, ⟨"hook", by decide⟩, ⟨0, 0⟩, .endpoint ⟨.post, "/hook", .ack, .none⟩⟩

def hook : List Call :=
  [.createNode hookNode.id hookNode.name hookNode.position hookNode.config]

theorem match_run_hook :
    matchNodes "/hook" .post none (Run.run (step VaultRoutes.plainServer contentReader fun _ => "")
      Desk.empty hook).board.nodes.rows = .endpoint ⟨1, hookNode.name, ⟨.post, "/hook", .ack, .none⟩⟩ := by
  have hunique : checkEndpointPathUnique Board.empty hookNode = .ok () := by
    unfold checkEndpointPathUnique list
    rw [show Board.empty.nodes.rows = [] from rfl, List.mergeSort_nil]
    rfl
  have hcreated : (createNode VaultRoutes.plainServer Board.empty hookNode.id hookNode.name
      hookNode.position hookNode.config).1.nodes.rows = [hookNode] := by
    show (Board.createWith _ Board.empty hookNode []).1.nodes.rows = _
    unfold createWith
    rw [hunique]
    rfl
  refine ((match_run VaultRoutes.plainServer contentReader (fun _ => "") hook _ "/hook" .post
    (.refl _)).1 _).2 ⟨hookNode, ?_, _, rfl, rfl, rfl, rfl⟩
  show hookNode ∈ (createNode VaultRoutes.plainServer Board.empty hookNode.id hookNode.name
    hookNode.position hookNode.config).1.nodes.rows
  rw [hcreated]
  exact List.mem_singleton_self hookNode

end Runs

end BoardRoutes

end Wheel
