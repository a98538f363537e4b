import Wheel.Db.BoardHistory
import Wheel.Data.MergePatch

/-!
# The routes of a vault

A value is put into a vault by two writes: the value first, and then the list of the keys
that the vault declares, which only takes keys that are legal environment variable names. The
route itself takes more keys, and a patch of the declared keys leaves the values alone.
`vault_routes_run` says that nothing goes wrong over a run in which every key that reaches the
first write is legal and every patch keeps the keys that have values.
-/

namespace Wheel

namespace VaultRoutes

open Board

/-- What the routes go by, besides the board. -/
structure Server where
  lite : Sqlite
  allowHosts : List String
  /-- Whether the server has a key to encrypt values with. -/
  hasVaultKey : Bool
  apiKeyOnly : Bool

inductive VaultError where
  | emptyKey
  | badKey
  | emptyValue
  | notWritable (key : String)
  | policyDenied
  | noVaultKey
  | notFound (id : Uuid)
  | notVault
  | twin (key twin : String)
  | ambiguous (key : String) (other : NodeName) (agent : Uuid)
  | badConfig
  | board (e : BoardError)

/-- Another vault declares the key for an agent, without a value. -/
structure Warning where
  other : NodeName
  key : String
  agent : Uuid
  deriving DecidableEq

/-- A character the route takes in a key. -/
def isKeyChar (c : Char) : Bool := c.isAlphanum || c == '_' || c == '-' || c == '.'

/-- The vault that holds a value for the slot of a key, other than the excluded one. -/
def suppliesKey (b : Board) (agent : Uuid) (key : String) (exclude : Uuid) : Option NodeName :=
  ((Vault.wiredVaults b agent).find? fun v =>
    v.1 ≠ exclude && (Vault.listKeys b v.1).any fun k => Vault.slot k = Vault.slot key).map Prod.snd

/-- The vault that declares a key, other than the excluded one. -/
def declaresKey (b : Board) (agent : Uuid) (key : String) (exclude : Uuid) : Option NodeName :=
  ((Vault.wiredVaults b agent).find? fun v =>
    v.1 ≠ exclude && (Vault.declaredKeys b v.1).any fun k => k = key).map Prod.snd

/-- Every agent that reads the vault must get the key from here alone. -/
def checkAgents (b : Board) (vault : Uuid) (key : String) (warning : Option Warning) :
    List Uuid → Except VaultError (Option Warning)
  | [] => .ok warning
  | agent :: agents =>
      match suppliesKey b agent key vault with
      | some other => .error (.ambiguous key other agent)
      | none =>
          checkAgents b vault key
            (warning.or ((declaresKey b agent key vault).map fun other => ⟨other, key, agent⟩))
            agents

/-- The vault of an id, with the keys it declares. -/
def vaultOf (b : Board) (id : Uuid) : Except VaultError (Node × List String) :=
  match b.get id with
  | none => .error (.notFound id)
  | some n =>
      match n.config with
      | .vault cfg => .ok (n, cfg.keys)
      | _ => .error .notVault

/-- The checks in front of a write: the vault, its keys, and a warning. -/
def checkStore (srv : Server) (b : Board) (vault : Uuid) (key : String) :
    Except VaultError (Node × List String × Option Warning) :=
  if !srv.hasVaultKey then .error .noVaultKey
  else
    match vaultOf b vault with
    | .error e => .error e
    | .ok (n, keys) =>
        if key ∈ keys then .ok (n, keys, none)
        else
          match if key = claudeOauthSession then none
            else (Vault.listKeys b vault).find? fun k =>
              k ≠ key && Vault.slot k = Vault.slot key with
          | some twin => .error (.twin key twin)
          | none =>
              match checkAgents b vault key none (Vault.agentsReading b vault) with
              | .error e => .error e
              | .ok warning => .ok (n, keys, warning)

/-- Write the value of a key, over one there is. -/
def putRow (b : Board) (v : VaultValue) : Board where
  nodes := b.nodes
  wires := b.wires
  values :=
    if b.values.any fun w => w.node = v.node && w.key = v.key then
      b.values.map fun w => if w.node = v.node && w.key = v.key then v else w
    else b.values ++ [v]
  status := b.status
  tables := b.tables

def deleteValues (b : Board) (vault : Uuid) (key : String) : Board :=
  { b with values := b.values.filter fun w => !(w.node = vault && w.key = key) }

/-- The node with other declared keys. -/
def withKeys (n : Node) (keys : List String) : Node := { n with config := .vault ⟨keys⟩ }

def updateKeys (srv : Server) (b : Board) (n : Node) (keys : List String) :
    Board × Except VaultError Unit :=
  let r := b.updateWith srv.lite (withKeys n keys) srv.allowHosts
  (r.1, r.2.mapError .board)

/-- Store one value: the checks, the write, and the declared keys. -/
def storeInVaultUntil (srv : Server) (b : Board) (vault : Uuid) (key ciphertext : String)
    (expiresAt : Option Timestamp) : Board × Except VaultError (Option Warning) :=
  match checkStore srv b vault key with
  | .error e => (b, .error e)
  | .ok (n, keys, warning) =>
      let b := putRow b ⟨vault, key, ciphertext, expiresAt⟩
      if key ∈ keys then (b, .ok warning)
      else
        let r := updateKeys srv b n ((keys ++ [key]).insertionSort (· ≤ ·))
        (r.1, r.2.map fun _ => warning)

/-- The key that a request names. -/
def requestKey (key : String) : String := String.ofList (Text.trim key.toList)

/-- What the route checks before it looks at the vault. -/
def checkRequest (srv : Server) (key value : String) : Except VaultError Unit :=
  if key = "" then .error .emptyKey
  else if !key.toList.all isKeyChar then .error .badKey
  else if value = "" then .error .emptyValue
  else if key = claudeOauthSession then .error (.notWritable key)
  else if srv.apiKeyOnly && Text.contains "sk-ant-oat".toList value.toList then
    .error .policyDenied
  else .ok ()

/-- `PUT /v1/vault/:id/:key`; `ciphertext` is what the value is encrypted to. -/
def putValue (srv : Server) (b : Board) (vault : Uuid) (key value ciphertext : String) :
    Board × Except VaultError (Option Warning) :=
  match checkRequest srv (requestKey key) value with
  | .error e => (b, .error e)
  | .ok () => storeInVaultUntil srv b vault (requestKey key) ciphertext none

/-- `DELETE /v1/vault/:id/:key`. -/
def removeFromVault (srv : Server) (b : Board) (vault : Uuid) (key : String) :
    Board × Except VaultError Unit :=
  match vaultOf b vault with
  | .error e => (b, .error e)
  | .ok (n, keys) =>
      updateKeys srv (deleteValues b vault key) n (keys.filter fun k => k ≠ key)

/-- The keys of the configuration a JSON value is. -/
def keysOfJson : Json → Option (List String)
  | .obj [("keys", .arr items)] => items.mapM Json.asStr
  | _ => none

/-- The keys that a patch of the configuration leaves declared. -/
def patchedKeys (keys : List String) (patch : Json) : Option (List String) :=
  keysOfJson (Json.mergePatch (.obj [("keys", .arr (keys.map .str))]) patch)

/-- `PATCH /v1/nodes/:id` with a patch of the configuration of a vault. -/
def patchConfig (srv : Server) (b : Board) (vault : Uuid) (patch : Json) :
    Board × Except VaultError Unit :=
  match vaultOf b vault with
  | .error e => (b, .error e)
  | .ok (n, keys) =>
      match patchedKeys keys patch with
      | none => (b, .error .badConfig)
      | some keys' => updateKeys srv b n keys'

/-! ## The update of the declared keys -/

variable {srv : Server} {b : Board} {n : Node} {keys : List String}

theorem validateVaultKeys_cons (seen : List String) (k : String) (ks : List String) :
    validateVaultKeys seen (k :: ks) = .ok () ↔
      validateVaultKey k = .ok () ∧ k ∉ seen ∧ validateVaultKeys (k :: seen) ks = .ok () := by
  rw [validateVaultKeys]
  cases validateVaultKey k with
  | error e => simp [bind, Except.bind]
  | ok _ =>
      by_cases h : k ∈ seen
      · simp [h, bind, Except.bind, throw, throwThe, MonadExceptOf.throw]
      · simp [h, bind, Except.bind, pure, Except.pure]

/-- A list of keys is legal when every key is and none is there twice. -/
theorem validateVaultKeys_iff {seen ks : List String} :
    validateVaultKeys seen ks = .ok () ↔
      (∀ k ∈ ks, validateVaultKey k = .ok ()) ∧ ks.Nodup ∧ ∀ k ∈ ks, k ∉ seen := by
  induction ks generalizing seen with
  | nil => simp [validateVaultKeys]
  | cons k ks ih =>
      rw [validateVaultKeys_cons, ih, List.nodup_cons]
      simp only [List.forall_mem_cons]
      constructor
      · rintro ⟨hk, hseen, hall, hnodup, hnot⟩
        exact ⟨⟨hk, hall⟩, ⟨fun hmem => hnot k hmem List.mem_cons_self, hnodup⟩, hseen,
          fun l hl hmem => hnot l hl (List.mem_cons_of_mem _ hmem)⟩
      · rintro ⟨⟨hk, hall⟩, ⟨hmem, hnodup⟩, hseen, hnot⟩
        refine ⟨hk, hseen, hall, hnodup, fun l hl hcons => ?_⟩
        rcases List.mem_cons.mp hcons with rfl | hl'
        · exact hmem hl
        · exact hnot l hl hl'

/-- The board with other declared keys of a vault. -/
def declare (b : Board) (n : Node) (keys : List String) : Board :=
  { b with nodes := b.nodes.modify n.id (overwrite (withKeys n keys)) (overwrite_id _) }

/-- The vault of a node, as `vaultOf` finds it. -/
structure IsVault (b : Board) (id : Uuid) (n : Node) (keys : List String) : Prop where
  get : b.get id = some n
  config : n.config = .vault ⟨keys⟩

theorem vaultOf_eq_ok_iff {id : Uuid} : vaultOf b id = .ok (n, keys) ↔ IsVault b id n keys := by
  unfold vaultOf
  constructor
  · intro h
    split at h
    · cases h
    · rename_i m hm
      split at h
      · rename_i cfg hcfg
        cases h
        exact ⟨hm, hcfg⟩
      · cases h
  · intro h
    rw [h.get]
    dsimp only
    rw [h.config]

theorem IsVault.id_eq {id : Uuid} (h : IsVault b id n keys) : n.id = id :=
  (get_eq_some_iff.mp h.get).2

/-- No other node has the name of a node. -/
def NamesUnique (b : Board) : Prop := ∀ n ∈ b.nodes.rows, b.nameHeld n.id n.name = false

/-- An update of the declared keys fails exactly when they are not legal, and then nothing
is changed. -/
theorem updateKeys_eq {id : Uuid} {keys₀ : List String} (hb : NamesUnique b)
    (h : IsVault b id n keys₀) (keys : List String) :
    updateKeys srv b n keys =
      match validateVaultKeys [] keys with
      | .error e => (b, .error (.board (.config e)))
      | .ok () => (declare b n keys, .ok ()) := by
  have hget : b.get (withKeys n keys).id = some n := by
    rw [← h.get, ← h.id_eq]
    rfl
  have hpath : checkEndpointPathUnique b (withKeys n keys) = .ok () := rfl
  have hfallback : (b.get (withKeys n keys).id).bind fallbackOf = fallbackOf (withKeys n keys) := by
    rw [hget]
    unfold Board.fallbackOf
    rw [Option.bind_some, h.config]
    rfl
  have hvalid : validateConfigWith (withKeys n keys).config srv.allowHosts =
      validateVaultKeys [] keys := rfl
  unfold updateKeys Board.updateWith checkUpdate
  rw [hvalid, hpath, if_neg (not_not.mpr hfallback)]
  cases validateVaultKeys [] keys with
  | error e => rfl
  | ok _ =>
      have hstorage : b.updateStorage srv.lite (withKeys n keys) = (b, .ok ()) := by
        have hwas : ((b.get (withKeys n keys).id).filter fun m => m.config.asTable.isSome) =
            none := by
          rw [hget, Option.filter_some, h.config]
          rfl
        unfold updateStorage
        dsimp only
        rw [hwas]
        rfl
      have hheld : b.nameHeld (withKeys n keys).id (withKeys n keys).name = false :=
        hb n (get_eq_some_iff.mp h.get).1
      have hwrite : b.writeRow (withKeys n keys) = (declare b n keys, .ok ()) := by
        unfold writeRow
        rw [hget, Option.isNone_some, if_neg Bool.false_ne_true, hheld, if_neg Bool.false_ne_true]
        rfl
      dsimp only
      rw [hstorage]
      dsimp only
      rw [hwrite]
      rfl

theorem overwrite_withKeys (n : Node) (keys : List String) :
    overwrite (withKeys n keys) n = withKeys n keys := rfl

theorem get_declare (h : b.get n.id = some n) (keys : List String) (id : Uuid) :
    (declare b n keys).get id = if id = n.id then some (withKeys n keys) else b.get id := by
  refine (Keyed.get?_modify b.nodes n.id (overwrite (withKeys n keys)) (overwrite_id _) id).trans ?_
  by_cases hid : id = n.id
  · rw [if_pos hid, if_pos hid, hid]
    refine (congrArg (Option.map _) h).trans ?_
    rw [Option.map_some, overwrite_withKeys]
  · rw [if_neg hid, if_neg hid]
    rfl

theorem declaredKeys_declare (h : b.get n.id = some n) (keys : List String) (id : Uuid) :
    Vault.declaredKeys (declare b n keys) id =
      if id = n.id then keys else Vault.declaredKeys b id := by
  unfold Vault.declaredKeys
  rw [get_declare h]
  split <;> rfl

theorem IsVault.declaredKeys_eq {id : Uuid} (h : IsVault b id n keys) :
    Vault.declaredKeys b id = keys := by
  unfold Vault.declaredKeys
  rw [h.get, Option.map_some, h.config]
  rfl

theorem namesUnique_iff :
    NamesUnique b ↔
      ∀ n ∈ b.nodes.rows, ∀ m ∈ b.nodes.rows, m.name = n.name → m.id = n.id :=
  forall₂_congr fun _ _ => nameHeld_eq_false_iff

theorem namesUnique_declare (hb : NamesUnique b) (h : b.get n.id = some n)
    (keys : List String) : NamesUnique (declare b n keys) := by
  have hrow : ∀ r ∈ (declare b n keys).nodes.rows, ∃ m ∈ b.nodes.rows, m.id = r.id ∧
      m.name = r.name := by
    intro r hr
    obtain ⟨m, hm, rfl⟩ := List.mem_map.mp hr
    refine ⟨m, hm, ?_⟩
    split
    · rename_i hid
      have hmn : some m = some n := by
        rw [← get_id hm, ← h, of_decide_eq_true hid]
      obtain rfl := Option.some.inj hmn
      exact ⟨rfl, rfl⟩
    · exact ⟨rfl, rfl⟩
  rw [namesUnique_iff] at hb ⊢
  intro r hr s hs hname
  obtain ⟨m, hm, hmid, hmname⟩ := hrow r hr
  obtain ⟨k, hk, hkid, hkname⟩ := hrow s hs
  rw [← hmid, ← hkid]
  exact hb m hm k hk (by rw [hmname, hkname, hname])

/-! ## Runs -/

/-- Names are unique, declared keys are legal, and every value is of a declared key. -/
structure VaultsOk (b : Board) : Prop where
  names : NamesUnique b
  legal : ∀ id n keys, IsVault b id n keys → validateVaultKeys [] keys = .ok ()
  declared : ∀ v ∈ b.values, v.key ∈ Vault.declaredKeys b v.node

/-- Other declared keys, if they are legal and hold the keys of the values. -/
theorem vaultsOk_declare {id : Uuid} {keys₀ : List String} (hnames : NamesUnique b)
    (hlegal : ∀ id n keys, IsVault b id n keys → validateVaultKeys [] keys = .ok ())
    (h : IsVault b id n keys₀) (hkeys : validateVaultKeys [] keys = .ok ())
    (hvalues : ∀ v ∈ b.values,
      if v.node = id then v.key ∈ keys else v.key ∈ Vault.declaredKeys b v.node) :
    VaultsOk (declare b n keys) := by
  have hid := h.id_eq
  have hget : b.get n.id = some n := hid ▸ h.get
  refine ⟨namesUnique_declare hnames hget keys, fun k m ks hm => ?_, fun v hv => ?_⟩
  · have hgetm := hm.get
    rw [get_declare hget] at hgetm
    split at hgetm
    · obtain rfl := Option.some.inj hgetm
      have hconfig : NodeConfig.vault ⟨keys⟩ = .vault ⟨ks⟩ := hm.config
      cases hconfig
      exact hkeys
    · exact hlegal k m ks ⟨hgetm, hm.config⟩
  · rw [declaredKeys_declare hget, hid]
    have hvalue := hvalues v hv
    split
    · rename_i hnode
      rwa [if_pos hnode] at hvalue
    · rename_i hnode
      rwa [if_neg hnode] at hvalue

/-- A request on the vaults of a board. -/
inductive VaultOp where
  | put (vault : Uuid) (key value ciphertext : String)
  | delete (vault : Uuid) (key : String)
  | patch (vault : Uuid) (patch : Json)

def step (srv : Server) (b : Board) : VaultOp → Board
  | .put vault key value ciphertext => (putValue srv b vault key value ciphertext).1
  | .delete vault key => (removeFromVault srv b vault key).1
  | .patch vault patch => (patchConfig srv b vault patch).1

/-- A put that passes the checks is of a legal key, and a patch that is taken keeps the keys
with values declared. -/
def Fits (srv : Server) (b : Board) : VaultOp → Prop
  | .put vault key value _ =>
      checkRequest srv (requestKey key) value = .ok () →
        (∃ x, checkStore srv b vault (requestKey key) = .ok x) →
          validateVaultKey (requestKey key) = .ok ()
  | .delete _ _ => True
  | .patch vault patch =>
      ∀ n keys keys', vaultOf b vault = .ok (n, keys) → patchedKeys keys patch = some keys' →
        validateVaultKeys [] keys' = .ok () →
          ∀ v ∈ b.values, v.node = vault → v.key ∈ keys'

/-- The vault that a write goes to, and the keys it declares. -/
theorem of_checkStore {vault : Uuid} {key : String} {warning : Option Warning}
    (h : checkStore srv b vault key = .ok (n, keys, warning)) : IsVault b vault n keys := by
  unfold checkStore at h
  split at h
  · cases h
  · cases hv : vaultOf b vault with
    | error e =>
        rw [hv] at h
        cases h
    | ok x =>
        obtain ⟨m, ks⟩ := x
        rw [hv] at h
        dsimp only at h
        split at h
        · cases h
          exact vaultOf_eq_ok_iff.mp hv
        · split at h
          · cases h
          · split at h
            · cases h
            · cases h
              exact vaultOf_eq_ok_iff.mp hv

theorem mem_values_putRow {v w : VaultValue} (h : w ∈ (putRow b v).values) :
    w = v ∨ w ∈ b.values := by
  unfold putRow at h
  dsimp only at h
  split at h
  · obtain ⟨u, hu, rfl⟩ := List.mem_map.mp h
    split
    · exact .inl rfl
    · exact .inr hu
  · rcases List.mem_append.mp h with h | h
    · exact .inr h
    · exact .inl (List.mem_singleton.mp h)

theorem validateVaultKeys_sort {key : String} (hkeys : validateVaultKeys [] keys = .ok ())
    (hkey : validateVaultKey key = .ok ()) (hmem : key ∉ keys) :
    validateVaultKeys [] ((keys ++ [key]).insertionSort (· ≤ ·)) = .ok () := by
  rw [validateVaultKeys_iff] at hkeys ⊢
  have hperm := List.perm_insertionSort (· ≤ ·) (keys ++ [key])
  refine ⟨fun k hk => ?_, hperm.nodup_iff.mpr ?_, fun _ _ => List.not_mem_nil⟩
  · rcases List.mem_append.mp (hperm.mem_iff.mp hk) with hk | hk
    · exact hkeys.1 k hk
    · rwa [List.mem_singleton.mp hk]
  · rw [List.nodup_append]
    refine ⟨hkeys.2.1, List.nodup_singleton _, fun a ha c hc hac => ?_⟩
    rw [List.mem_singleton.mp hc] at hac
    exact hmem (hac ▸ ha)

/-- A put of a legal key succeeds once it has passed the checks. -/
theorem storeInVaultUntil_ok {vault : Uuid} {key ciphertext : String} {expiresAt : Option Timestamp}
    (hb : VaultsOk b) {warning : Option Warning}
    (hcheck : checkStore srv b vault key = .ok (n, keys, warning))
    (hkey : validateVaultKey key = .ok ()) :
    (storeInVaultUntil srv b vault key ciphertext expiresAt).2 = .ok warning ∧
      VaultsOk (storeInVaultUntil srv b vault key ciphertext expiresAt).1 := by
  have hvault := of_checkStore hcheck
  have hvault' : IsVault (putRow b ⟨vault, key, ciphertext, expiresAt⟩) vault n keys :=
    ⟨hvault.get, hvault.config⟩
  have hnames : NamesUnique (putRow b ⟨vault, key, ciphertext, expiresAt⟩) := hb.names
  have hold : ∀ w ∈ (putRow b ⟨vault, key, ciphertext, expiresAt⟩).values,
      (w.node = vault ∧ w.key = key) ∨ w.key ∈ Vault.declaredKeys b w.node := by
    intro w hw
    rcases mem_values_putRow hw with rfl | hw
    · exact .inl ⟨rfl, rfl⟩
    · exact .inr (hb.declared w hw)
  unfold storeInVaultUntil
  rw [hcheck]
  dsimp only
  split
  · rename_i hmem
    refine ⟨rfl, hb.names, fun id m ks hm => hb.legal id m ks ⟨hm.get, hm.config⟩, ?_⟩
    intro w hw
    rcases hold w hw with ⟨hnode, hk⟩ | hw
    · rw [hnode, hk, hvault'.declaredKeys_eq]
      exact hmem
    · exact hw
  · rename_i hmem
    have hlegal := validateVaultKeys_sort (hb.legal _ _ _ hvault) hkey hmem
    rw [updateKeys_eq hnames hvault', hlegal]
    refine ⟨rfl, vaultsOk_declare hnames
      (fun id m ks hm => hb.legal id m ks ⟨hm.get, hm.config⟩) hvault' hlegal fun w hw => ?_⟩
    have hperm := List.perm_insertionSort (· ≤ ·) (keys ++ [key])
    rcases hold w hw with ⟨hnode, hk⟩ | hdeclared
    · rw [if_pos hnode, hk]
      exact hperm.mem_iff.mpr (List.mem_append_right _ (List.mem_singleton_self _))
    · split
      · rename_i hnode
        rw [hnode, hvault.declaredKeys_eq] at hdeclared
        exact hperm.mem_iff.mpr (List.mem_append_left _ hdeclared)
      · exact hdeclared

/-- A put that answers an error leaves the board as it was. -/
def PutAtomic (srv : Server) (b : Board) (op : VaultOp) : Prop :=
  ∀ vault key value ciphertext, op = .put vault key value ciphertext →
    ∀ e, (putValue srv b vault key value ciphertext).2 = .error e →
      (putValue srv b vault key value ciphertext).1 = b

theorem putValue_fits {vault : Uuid} {key value ciphertext : String} (hb : VaultsOk b)
    (h : Fits srv b (.put vault key value ciphertext)) :
    PutAtomic srv b (.put vault key value ciphertext) ∧
      VaultsOk (putValue srv b vault key value ciphertext).1 := by
  cases hr : checkRequest srv (requestKey key) value with
  | error e =>
      have hput : putValue srv b vault key value ciphertext = (b, .error e) := by
        rw [putValue, hr]
      refine ⟨?_, by rwa [hput]⟩
      rintro _ _ _ _ ⟨⟩ e' -
      rw [hput]
  | ok _ =>
      have hput : putValue srv b vault key value ciphertext =
          storeInVaultUntil srv b vault (requestKey key) ciphertext none := by
        rw [putValue, hr]
      cases hc : checkStore srv b vault (requestKey key) with
      | error e =>
          have hstore : storeInVaultUntil srv b vault (requestKey key) ciphertext none =
              (b, .error e) := by
            rw [storeInVaultUntil, hc]
          refine ⟨?_, by rwa [hput, hstore]⟩
          rintro _ _ _ _ ⟨⟩ e' -
          rw [hput, hstore]
      | ok x =>
          obtain ⟨n, keys, warning⟩ := x
          have hok : (storeInVaultUntil srv b vault (requestKey key) ciphertext none).2 =
              .ok warning ∧
                VaultsOk (storeInVaultUntil srv b vault (requestKey key) ciphertext none).1 :=
            storeInVaultUntil_ok hb hc (h hr ⟨_, hc⟩)
          refine ⟨?_, hput ▸ hok.2⟩
          rintro _ _ _ _ ⟨⟩ e he
          rw [hput, hok.1] at he
          cases he

theorem validateVaultKeys_filter (p : String → Bool)
    (hkeys : validateVaultKeys [] keys = .ok ()) :
    validateVaultKeys [] (keys.filter p) = .ok () := by
  rw [validateVaultKeys_iff] at hkeys ⊢
  exact ⟨fun k hk => hkeys.1 k (List.mem_of_mem_filter hk), hkeys.2.1.filter p,
    fun _ _ => List.not_mem_nil⟩

theorem removeFromVault_ok {vault : Uuid} {key : String} (hb : VaultsOk b) :
    VaultsOk (removeFromVault srv b vault key).1 := by
  unfold removeFromVault
  cases hv : vaultOf b vault with
  | error e => exact hb
  | ok x =>
      obtain ⟨n, keys⟩ := x
      have hvault := vaultOf_eq_ok_iff.mp hv
      have hvault' : IsVault (deleteValues b vault key) vault n keys :=
        ⟨hvault.get, hvault.config⟩
      have hnames : NamesUnique (deleteValues b vault key) := hb.names
      have hlegal := validateVaultKeys_filter (fun k => k ≠ key) (hb.legal _ _ _ hvault)
      dsimp only
      rw [updateKeys_eq hnames hvault', hlegal]
      refine vaultsOk_declare hnames
        (fun id m ks hm => hb.legal id m ks ⟨hm.get, hm.config⟩) hvault' hlegal fun w hw => ?_
      obtain ⟨hmem, hkeep⟩ := List.mem_filter.mp hw
      have hdeclared := hb.declared w hmem
      split
      · rename_i hnode
        rw [hnode, hvault.declaredKeys_eq] at hdeclared
        refine List.mem_filter.mpr ⟨hdeclared, ?_⟩
        simpa [hnode] using hkeep
      · exact hdeclared

theorem patchConfig_fits {vault : Uuid} {patch : Json} (hb : VaultsOk b)
    (h : Fits srv b (.patch vault patch)) : VaultsOk (patchConfig srv b vault patch).1 := by
  unfold patchConfig
  cases hv : vaultOf b vault with
  | error e => exact hb
  | ok x =>
      obtain ⟨n, keys⟩ := x
      have hvault := vaultOf_eq_ok_iff.mp hv
      dsimp only
      cases hp : patchedKeys keys patch with
      | none => exact hb
      | some keys' =>
          dsimp only
          rw [updateKeys_eq hb.names hvault]
          cases hlegal : validateVaultKeys [] keys' with
          | error e => exact hb
          | ok _ =>
              refine vaultsOk_declare hb.names hb.legal hvault hlegal fun w hw => ?_
              split
              · rename_i hnode
                exact h n keys keys' hv hp hlegal w hw hnode
              · exact hb.declared w hw

/-- One request that fits. -/
theorem step_fits {op : VaultOp} (hb : VaultsOk b) (h : Fits srv b op) :
    PutAtomic srv b op ∧ VaultsOk (step srv b op) := by
  cases op with
  | put vault key value ciphertext => exact putValue_fits hb h
  | delete vault key => exact ⟨nofun, removeFromVault_ok hb⟩
  | patch vault patch => exact ⟨nofun, patchConfig_fits hb h⟩

/-- Over a run of requests that fit, a put that answers an error changes nothing, and after
every request each value is of a key that its vault declares. -/
theorem vault_routes_run (hb : VaultsOk b) {ops : List VaultOp}
    (hops : Run.Always (step srv) (Fits srv) b ops) :
    Run.Always (step srv) (fun b op => PutAtomic srv b op ∧
      ∀ v ∈ (step srv b op).values, v.key ∈ Vault.declaredKeys (step srv b op) v.node) b ops :=
  Run.always_of_invariant (I := VaultsOk) (fun _ _ hb h => (step_fits hb h).2)
    (fun _ _ hb h => ⟨(step_fits hb h).1, (step_fits hb h).2.declared⟩) hb hops

/-- A server whose database is not asked for anything here. -/
def plainServer : Server where
  lite := {
    declares := fun _ => true
    expr := fun _ => .column
    number := fun _ => none
    realText := fun _ => ""
    printJson := fun _ => ""
    parseJson := fun _ => none
    encode := fun _ => ""
    decode := fun _ => none }
  allowHosts := []
  hasVaultKey := true
  apiKeyOnly := false

def emptyVault : Node where
  id := 1
  name := ⟨"secrets", by decide⟩
  position := ⟨0, 0⟩
  config := .vault ⟨[]⟩

/-- A board with one vault that declares nothing. -/
def oneVault : Board where
  nodes := ⟨[emptyVault], List.nodup_singleton _⟩
  wires := []
  values := []
  status := fun _ => none
  tables := fun _ => none

/-- A legal key is put and deleted again. -/
def putAndDelete : List VaultOp := [.put 1 "API_KEY" "secret" "c1", .delete 1 "API_KEY"]

theorem vault_routes_putAndDelete :
    Run.Always (step plainServer) (fun b op => PutAtomic plainServer b op ∧
      ∀ v ∈ (step plainServer b op).values,
        v.key ∈ Vault.declaredKeys (step plainServer b op) v.node) oneVault putAndDelete := by
  refine vault_routes_run ⟨?_, ?_, ?_⟩ ⟨fun _ _ => rfl, trivial, trivial⟩
  · intro n hn
    rw [List.mem_singleton.mp hn]
    rfl
  · intro id n keys h
    have hn : n ∈ oneVault.nodes.rows := (get_eq_some_iff.mp h.get).1
    have hconfig := h.config
    rw [List.mem_singleton.mp hn] at hconfig
    cases hconfig
    rfl
  · intro v hv
    cases hv

/-- A key with a dot is stored, and answered with an error. -/
theorem put_not_atomic :
    putValue plainServer oneVault 1 "api.key" "secret" "c1" =
        (putRow oneVault ⟨1, "api.key", "c1", none⟩,
          .error (.board (.config (.badVaultKey "api.key")))) ∧
      putRow oneVault ⟨1, "api.key", "c1", none⟩ ≠ oneVault ∧
      Vault.declaredKeys (putRow oneVault ⟨1, "api.key", "c1", none⟩) 1 = [] := by
  have hlist : Vault.listKeys oneVault 1 = [] := by
    unfold Vault.listKeys
    exact List.mergeSort_nil
  have hcheck : checkStore plainServer oneVault 1 "api.key" = .ok (emptyVault, [], none) := by
    unfold checkStore
    rw [hlist]
    rfl
  have hrequest : checkRequest plainServer (requestKey "api.key") "secret" = .ok () := by
    rfl
  have hkey : requestKey "api.key" = "api.key" := by
    decide
  refine ⟨?_, ?_, by decide⟩
  · rw [putValue, hrequest, hkey]
    unfold storeInVaultUntil
    rw [hcheck]
    rfl
  · intro h
    have hvalues : (putRow oneVault ⟨1, "api.key", "c1", none⟩).values = oneVault.values := by
      rw [h]
    cases hvalues

end VaultRoutes

end Wheel
