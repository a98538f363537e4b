import Wheel.Db.BoardState

/-!
# The vaults an agent reads

Which vaults an agent reads, which keys a vault holds or declares, and which key
two of them offer to one agent. Two keys with the same slot are the same
credential.
-/

namespace Wheel

namespace Vault

variable (b : Board)

/-- The environment variable a vault key ends up as in a child. -/
def slot (key : String) : String :=
  if key = claudeOauthSession then "CLAUDE_CODE_OAUTH_TOKEN" else key

/-- The keys a vault holds a value for, in order. -/
def listKeys (node : Uuid) : List String :=
  ((b.values.filter fun v => v.node = node).map VaultValue.key).mergeSort (· ≤ ·)

/-- The keys a vault declares. -/
def declaredKeys (node : Uuid) : List String :=
  ((b.get node).map fun n => n.config.declaredKeys).getD []

/-- The vault at the other end of a `read` wire. -/
def readVault (w : Wire) : Option (Uuid × NodeName) :=
  if w.wireType ≠ .read then none
  else (b.get w.target).bind fun n => if n.nodeType = .vault then some (n.id, n.name) else none

def byName (vaults : List (Uuid × NodeName)) : List (Uuid × NodeName) :=
  vaults.mergeSort fun v w => v.2.raw ≤ w.2.raw

/-- The vaults an agent may read, in the order of their names. -/
def wiredVaults (agent : Uuid) : List (Uuid × NodeName) :=
  match b.get agent with
  | none => []
  | some _ => byName ((b.wiresFrom agent).filterMap (readVault b))

/-- Every agent with a `read` wire to a vault. -/
def agentsReading (vault : Uuid) : List Uuid :=
  ((b.wires.filter fun w => w.target = vault && w.wireType = .read).map WireRow.source).filter
    fun id => (b.get id).any fun n => n.nodeType = .agent

/-- A key two vaults offer to one agent. -/
structure Ambiguity where
  what : String
  key : String
  first : NodeName
  second : NodeName
  deriving DecidableEq

def Ambiguity.text (a : Ambiguity) : String :=
  "ambiguous " ++ a.what ++ " " ++ a.key ++ ": both " ++ a.first.raw ++ " and " ++ a.second.raw ++
    " supply it; remove it from one, or wire the agent to only one of them"

/-- The first slot offered twice, looking through the keys with their vaults in order. -/
def firstTwice : List (String × NodeName) → List (String × NodeName) → Option Ambiguity
  | _, [] => none
  | seen, (key, name) :: rest =>
      match seen.find? fun x => x.1 = slot key with
      | some (_, first) =>
          some ⟨if isCredentialKey (slot key) then "credential" else "vault key", slot key, first,
            name⟩
      | none => firstTwice ((slot key, name) :: seen) rest

/-- The vaults an agent reads, or would read with one more wire. -/
def vaultsWith (agent : Uuid) (adding : Option Uuid) : List (Uuid × NodeName) :=
  let vaults := wiredVaults b agent
  match adding.bind fun id => if vaults.any fun v => v.1 = id then none else b.get id with
  | some n => if n.nodeType = .vault then byName (vaults ++ [(n.id, n.name)]) else vaults
  | none => vaults

def findAmbiguityBy (agent : Uuid) (adding : Option Uuid) (keysOf : Uuid → List String) :
    Option Ambiguity :=
  firstTwice [] ((vaultsWith b agent adding).flatMap fun v => (keysOf v.1).map fun k => (k, v.2))

/-- A key two of an agent's vaults hold a value for. -/
def findAmbiguity (agent : Uuid) (adding : Option Uuid) : Option Ambiguity :=
  findAmbiguityBy b agent adding (listKeys b)

/-- A key two of an agent's vaults declare. -/
def findDeclaredOverlap (agent : Uuid) (adding : Option Uuid) : Option Ambiguity :=
  findAmbiguityBy b agent adding (declaredKeys b)

/-- Why a vault cannot be an agent's fallback, if it cannot. -/
def checkFallback (agent vault : Uuid) : Except String Unit :=
  match b.get vault with
  | none => .error ("fallback_vault " ++ vault.display ++ " is not a node on this board")
  | some n =>
      if n.nodeType ≠ .vault then
        .error ("fallback_vault " ++ n.name.raw ++ " is " ++ n.nodeType.article ++ " " ++
          n.nodeType.asStr ++ " node, not a vault")
      else if (b.wiresFrom agent).any fun w => w.target = vault && w.wireType = .read then .ok ()
      else
        .error ("fallback_vault " ++ n.name.raw ++
          " must be a vault this agent already has a read wire to; " ++
          "wire it first, then set fallback_vault")

end Vault

end Wheel
