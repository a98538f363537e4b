import Wheel.Db.Vault
import Wheel.Harness.OauthSession

/-!
# The environment of a spawn

`envForSpawn` exports the values of the vaults that an agent reads. The credentials
come from the fallback vault on a fallback start and from the other vaults on a
normal one; every other key is exported on both. `account_isolation` says so of every
entry, and that a stored login matters only through its access token.
-/

namespace Wheel

namespace Vault

/-- What the vault key makes of a stored value of a node and a key. -/
structure VaultKey where
  decrypt : Uuid → String → String → Option String

section Export

variable (parse : String → Option Json) (b : Board) (vk : VaultKey)

/-- The value that a vault holds for a key. -/
def get (node : Uuid) (key : String) : Except String (Option String) :=
  match b.values.find? fun v => v.node = node && v.key = key with
  | none => .ok none
  | some v =>
      match vk.decrypt node key v.value with
      | none => .error ("could not decrypt " ++ key ++
          ": wrong key, or the value was tampered with")
      | some value => .ok (some value)

/-- The access token of a stored login. -/
def storedToken (value : String) : Except String String :=
  match OauthSession.fromVaultValue parse value with
  | .error e => .error e
  | .ok session =>
      match session.accessToken with
      | none => .error "the stored login has no access token"
      | some token => .ok token

/-- What a stored value becomes in the environment of a child. -/
def envPair (key value : String) : Except String (String × String) :=
  if key = claudeOauthSession then (storedToken parse value).map fun token => (slot key, token)
  else .ok (key, value)

/-- What one key of a vault adds to the environment. -/
def exportKey (id : Uuid) (key : String) : Except String (Option (String × String)) :=
  match get b vk id key with
  | .error e => .error e
  | .ok none => .ok none
  | .ok (some v) => (envPair parse key v).map some

/-- Export the keys of the vaults in turn. -/
def exportKeys : List (Uuid × String) → Except String (List (String × String))
  | [] => .ok []
  | (id, key) :: rest =>
      match exportKey parse b vk id key with
      | .error e => .error e
      | .ok pair => (exportKeys rest).map fun env => pair.toList ++ env

/-- The keys that the vaults of an agent hold a value for, each with its vault. -/
def offers (agent : Uuid) : List (Uuid × String) :=
  (wiredVaults b agent).flatMap fun v => (listKeys b v.1).map fun key => (v.1, key)

/-- The environment an agent gets from its vaults. -/
def envForAgent (agent : Uuid) : Except String (List (String × String)) :=
  match findAmbiguity b agent none with
  | some a => .error a.text
  | none => exportKeys parse b vk (offers b agent)

/-- A key is exported unless it is a credential of the other account. -/
def chosen (fallback : Option Uuid) (useFallback : Bool) (offer : Uuid × String) : Bool :=
  !(isCredentialKey offer.2 && decide (some offer.1 = fallback) != useFallback)

/-- The environment one spawn gets, with the credentials of the account it runs as. -/
def envForSpawn (agent : Uuid) (fallback : Option Uuid) (useFallback : Bool) :
    Except String (List (String × String)) :=
  match findAmbiguity b agent none with
  | some a => .error a.text
  | none => exportKeys parse b vk ((offers b agent).filter (chosen fallback useFallback))

end Export

/-! ## Where an entry comes from -/

section Entries

variable (parse : String → Option Json) (b : Board) (vk : VaultKey)

/-- What a vault of the agent gives to the environment: a value under the key it is
stored under, or the access token of a stored login. -/
inductive Entry (agent vault : Uuid) : String × String → Prop
  | value {key v : String} (hoffer : (vault, key) ∈ offers b agent)
      (hkey : key ≠ claudeOauthSession) (hget : get b vk vault key = .ok (some v)) :
      Entry agent vault (key, v)
  | token {raw t : String} {session : OauthSession}
      (hoffer : (vault, claudeOauthSession) ∈ offers b agent)
      (hget : get b vk vault claudeOauthSession = .ok (some raw))
      (hsession : OauthSession.fromVaultValue parse raw = .ok session)
      (htoken : session.accessToken = some t) :
      Entry agent vault ("CLAUDE_CODE_OAUTH_TOKEN", t)

/-- An entry comes from a vault of the agent, and no other vault offers its slot. -/
structure ComesFrom (agent vault : Uuid) (pair : String × String) : Prop where
  entry : Entry parse b vk agent vault pair
  only : ∀ offer ∈ offers b agent, slot offer.2 = pair.1 → offer.1 = vault

/-- The entry that an offer gives, if it gives one. -/
def exported (offer : Uuid × String) : Option (String × String) :=
  match exportKey parse b vk offer.1 offer.2 with
  | .ok pair => pair
  | .error _ => none

variable {parse b vk} {agent vault : Uuid} {key value : String} {pair : String × String}
variable {env : List (String × String)} {fallback : Option Uuid} {useFallback : Bool}

theorem exportKeys_eq_ok {l : List (Uuid × String)} (h : exportKeys parse b vk l = .ok env) :
    env = l.filterMap (exported parse b vk) := by
  induction l generalizing env with
  | nil =>
      cases h
      rfl
  | cons offer l ih =>
      obtain ⟨id, key⟩ := offer
      unfold exportKeys at h
      rw [List.filterMap_cons, exported]
      cases hkey : exportKey parse b vk id key with
      | error e =>
          rw [hkey] at h
          cases h
      | ok pair =>
          rw [hkey] at h
          cases hrest : exportKeys parse b vk l with
          | error e =>
              rw [hrest] at h
              cases h
          | ok rest =>
              rw [hrest] at h
              cases h
              rw [ih hrest]
              cases pair <;> rfl

theorem envPair_eq_ok (h : envPair parse key value = .ok pair) :
    key ≠ claudeOauthSession ∧ pair = (key, value) ∨
      key = claudeOauthSession ∧ ∃ session t, OauthSession.fromVaultValue parse value = .ok session ∧
        session.accessToken = some t ∧ pair = ("CLAUDE_CODE_OAUTH_TOKEN", t) := by
  unfold envPair at h
  split at h
  · rename_i hkey
    unfold storedToken at h
    split at h
    · cases h
    rename_i session hsession
    split at h
    · cases h
    rename_i t ht
    cases h
    refine .inr ⟨hkey, session, t, hsession, ht, ?_⟩
    rw [slot, if_pos hkey]
  · rename_i hkey
    cases h
    exact .inl ⟨hkey, rfl⟩

theorem exported_eq_some {offer : Uuid × String} (h : exported parse b vk offer = some pair) :
    ∃ v, get b vk offer.1 offer.2 = .ok (some v) ∧ envPair parse offer.2 v = .ok pair := by
  unfold exported exportKey at h
  cases hget : get b vk offer.1 offer.2 with
  | error e =>
      rw [hget] at h
      cases h
  | ok o =>
      rw [hget] at h
      cases o with
      | none => cases h
      | some v =>
          refine ⟨v, rfl, ?_⟩
          cases hpair : envPair parse offer.2 v with
          | error e =>
              simp only [hpair, Except.map] at h
              cases h
          | ok p =>
              simp only [hpair, Except.map] at h
              cases h
              rfl

/-- The variable that is set is the slot of the key. -/
theorem fst_of_exported {offer : Uuid × String} (h : exported parse b vk offer = some pair) :
    pair.1 = slot offer.2 := by
  obtain ⟨v, -, hpair⟩ := exported_eq_some h
  rcases envPair_eq_ok hpair with ⟨hkey, rfl⟩ | ⟨hkey, -, t, -, -, rfl⟩
  · rw [slot, if_neg hkey]
  · rw [slot, if_pos hkey]

theorem isCredentialKey_slot (key : String) : isCredentialKey (slot key) = isCredentialKey key := by
  unfold slot
  split
  · rename_i hkey
    rw [hkey]
    decide
  · rfl

theorem entry_of_exported (h : exported parse b vk (vault, key) = some pair)
    (hoffer : (vault, key) ∈ offers b agent) : Entry parse b vk agent vault pair := by
  obtain ⟨v, hget, hpair⟩ := exported_eq_some h
  rcases envPair_eq_ok hpair with ⟨hkey, rfl⟩ | ⟨hkey, session, t, hsession, ht, rfl⟩
  · exact .value hoffer hkey hget
  · dsimp only at hkey
    subst hkey
    exact .token hoffer hget hsession ht

/-! ## No slot is offered twice -/

theorem nodup_of_firstTwice {seen l : List (String × NodeName)} (h : firstTwice seen l = none) :
    (l.map fun x => slot x.1).Nodup ∧ ∀ x ∈ l, ∀ y ∈ seen, y.1 ≠ slot x.1 := by
  induction l generalizing seen with
  | nil => exact ⟨List.nodup_nil, fun x hx => absurd hx List.not_mem_nil⟩
  | cons x l ih =>
      obtain ⟨key, name⟩ := x
      unfold firstTwice at h
      split at h
      · cases h
      rename_i hseen
      obtain ⟨hnodup, hdisjoint⟩ := ih h
      constructor
      · rw [List.map_cons, List.nodup_cons]
        refine ⟨?_, hnodup⟩
        intro hmem
        obtain ⟨y, hy, hslot⟩ := List.mem_map.mp hmem
        exact hdisjoint y hy (slot key, name) List.mem_cons_self hslot.symm
      · intro y hy z hz
        rcases List.mem_cons.mp hy with rfl | hy
        · have := List.find?_eq_none.mp hseen z hz
          exact fun h => this (decide_eq_true h)
        · exact hdisjoint y hy z (List.mem_cons_of_mem _ hz)

theorem nodup_slots (h : findAmbiguity b agent none = none) :
    ((offers b agent).map fun offer => slot offer.2).Nodup := by
  have hnodup := (nodup_of_firstTwice h).1
  have hvaults : vaultsWith b agent none = wiredVaults b agent := rfl
  rw [hvaults, List.map_flatMap] at hnodup
  rw [offers, List.map_flatMap]
  simp only [List.map_map] at hnodup ⊢
  exact hnodup

theorem envForSpawn_eq_ok (h : envForSpawn parse b vk agent fallback useFallback = .ok env) :
    findAmbiguity b agent none = none ∧
      env = ((offers b agent).filter (chosen fallback useFallback)).filterMap
        (exported parse b vk) := by
  unfold envForSpawn at h
  split at h
  · cases h
  · rename_i hnone
    exact ⟨hnone, exportKeys_eq_ok h⟩

/-- Every entry comes from one vault: for a credential, a vault of the account that the
spawn runs as. -/
theorem comesFrom_of_mem (h : envForSpawn parse b vk agent fallback useFallback = .ok env)
    (hpair : pair ∈ env) :
    ∃ vault, ComesFrom parse b vk agent vault pair ∧
      (isCredentialKey pair.1 = true → decide (some vault = fallback) = useFallback) := by
  obtain ⟨hnone, rfl⟩ := envForSpawn_eq_ok h
  obtain ⟨⟨vault, key⟩, hmem, hexp⟩ := List.mem_filterMap.mp hpair
  obtain ⟨hoffer, hchosen⟩ := List.mem_filter.mp hmem
  have hfst := fst_of_exported hexp
  refine ⟨vault, ⟨entry_of_exported hexp hoffer, ?_⟩, ?_⟩
  · intro offer hother hslot
    have heq := List.inj_on_of_nodup_map (nodup_slots hnone) hother hoffer (hslot.trans hfst)
    rw [heq]
  · intro hcred
    rw [hfst, isCredentialKey_slot] at hcred
    simpa [chosen, hcred] using hchosen

/-- A stored value of the account is exported. -/
theorem mem_of_offer (h : envForSpawn parse b vk agent fallback useFallback = .ok env)
    (hoffer : (vault, key) ∈ offers b agent) (hchosen : chosen fallback useFallback (vault, key) = true)
    (hget : get b vk vault key = .ok (some value)) :
    ∃ pair ∈ env, envPair parse key value = .ok pair := by
  unfold envForSpawn at h
  split at h
  · cases h
  have hmem := List.mem_filter.mpr ⟨hoffer, hchosen⟩
  generalize (offers b agent).filter (chosen fallback useFallback) = l at h hmem
  induction l generalizing env with
  | nil => exact absurd hmem List.not_mem_nil
  | cons offer l ih =>
      obtain ⟨id, k⟩ := offer
      unfold exportKeys at h
      cases hkey : exportKey parse b vk id k with
      | error e =>
          rw [hkey] at h
          cases h
      | ok pair =>
          rw [hkey] at h
          cases hrest : exportKeys parse b vk l with
          | error e =>
              rw [hrest] at h
              cases h
          | ok rest =>
              rw [hrest] at h
              cases h
              rcases List.mem_cons.mp hmem with heq | hmem
              · cases heq
                unfold exportKey at hkey
                rw [hget] at hkey
                cases hpair : envPair parse key value with
                | error e =>
                    simp only [hpair, Except.map] at hkey
                    cases hkey
                | ok p =>
                    simp only [hpair, Except.map] at hkey
                    cases hkey
                    exact ⟨p, List.mem_cons_self, rfl⟩
              · obtain ⟨p, hp, hpair⟩ := ih hrest hmem
                exact ⟨p, List.mem_append_right _ hp, hpair⟩

/-- What is no credential is exported whatever account the spawn runs as. -/
theorem filter_not_credential (h : envForSpawn parse b vk agent fallback useFallback = .ok env) :
    env.filter (fun pair => !isCredentialKey pair.1) =
      ((offers b agent).filterMap (exported parse b vk)).filter
        fun pair => !isCredentialKey pair.1 := by
  obtain ⟨-, rfl⟩ := envForSpawn_eq_ok h
  induction offers b agent with
  | nil => rfl
  | cons offer l ih =>
      rw [List.filter_cons, List.filterMap_cons]
      by_cases hchosen : chosen fallback useFallback offer = true
      · rw [if_pos hchosen, List.filterMap_cons]
        cases hexp : exported parse b vk offer with
        | none => exact ih
        | some pair =>
            dsimp only
            rw [List.filter_cons, List.filter_cons, ih]
      · rw [if_neg hchosen, ih]
        cases hexp : exported parse b vk offer with
        | none => rfl
        | some pair =>
            have hcred : isCredentialKey pair.1 = true := by
              rw [fst_of_exported hexp, isCredentialKey_slot]
              by_contra hcred
              simp [chosen, hcred] at hchosen
            dsimp only
            rw [List.filter_cons, hcred]
            rfl

end Entries

/-! ## Two boards that differ in their logins -/

/-- The access token of the login that a vault holds, if it holds one. -/
def tokenOf (parse : String → Option Json) (b : Board) (vk : VaultKey) (vault : Uuid) :
    Except String (Option String) :=
  match get b vk vault claudeOauthSession with
  | .error e => .error e
  | .ok none => .ok none
  | .ok (some v) => (storedToken parse v).map some

/-- Two boards with the same nodes and wires, whose vaults hold the same keys with the same
values, and logins that agree in their access tokens. -/
structure SameButLogins (parse : String → Option Json) (b : Board) (vk : VaultKey) (b' : Board)
    (vk' : VaultKey) : Prop where
  nodes : b.nodes = b'.nodes
  wires : b.wires = b'.wires
  keys : (b.values.map fun v => (v.node, v.key)) = b'.values.map fun v => (v.node, v.key)
  values : ∀ vault key, key ≠ claudeOauthSession → get b vk vault key = get b' vk' vault key
  tokens : ∀ vault, tokenOf parse b vk vault = tokenOf parse b' vk' vault

section SameButLogins

variable {parse : String → Option Json} {b b' : Board} {vk vk' : VaultKey} {agent : Uuid}

theorem listKeys_congr
    (h : (b.values.map fun v => (v.node, v.key)) = b'.values.map fun v => (v.node, v.key))
    (vault : Uuid) : listKeys b vault = listKeys b' vault := by
  have heq (c : Board) : ((c.values.filter fun v => v.node = vault).map VaultValue.key) =
      (((c.values.map fun v => (v.node, v.key)).filter fun x => x.1 = vault).map Prod.snd) := by
    rw [List.filter_map, List.map_map]
    rfl
  rw [listKeys, listKeys, heq, heq, h]

theorem wiredVaults_congr (hnodes : b.nodes = b'.nodes) (hwires : b.wires = b'.wires)
    (agent : Uuid) : wiredVaults b agent = wiredVaults b' agent := by
  have hget : b.get = b'.get := by
    funext id
    rw [Board.get, Board.get, hnodes]
  have hread : readVault b = readVault b' := by
    funext w
    rw [readVault, readVault, hget]
  have hfrom : b.wiresFrom agent = b'.wiresFrom agent := by
    rw [Board.wiresFrom, Board.wiresFrom, hwires]
  rw [wiredVaults, wiredVaults, hget, hread, hfrom]

/-- A login is exported by its access token. -/
theorem exportKey_session (vault : Uuid) :
    exportKey parse b vk vault claudeOauthSession =
      (tokenOf parse b vk vault).map fun t => t.map fun t => (slot claudeOauthSession, t) := by
  unfold exportKey tokenOf envPair
  cases get b vk vault claudeOauthSession with
  | error e => rfl
  | ok o =>
      cases o with
      | none => rfl
      | some v =>
          dsimp only
          rw [if_pos rfl]
          cases storedToken parse v with
          | error e => rfl
          | ok t => rfl

theorem exportKeys_congr (h : SameButLogins parse b vk b' vk') (l : List (Uuid × String)) :
    exportKeys parse b vk l = exportKeys parse b' vk' l := by
  have hkey (id : Uuid) (key : String) :
      exportKey parse b vk id key = exportKey parse b' vk' id key := by
    by_cases hsession : key = claudeOauthSession
    · rw [hsession, exportKey_session, exportKey_session, h.tokens]
    · rw [exportKey, exportKey, h.values id key hsession]
  induction l with
  | nil => rfl
  | cons offer l ih => rw [exportKeys, exportKeys, hkey, ih]

/-- The environment of a spawn is the same on two boards that differ in their logins but
not in the access tokens. -/
theorem envForSpawn_congr (h : SameButLogins parse b vk b' vk') (agent : Uuid)
    (fallback : Option Uuid) (useFallback : Bool) :
    envForSpawn parse b vk agent fallback useFallback =
      envForSpawn parse b' vk' agent fallback useFallback := by
  have hkeys : listKeys b = listKeys b' := funext (listKeys_congr h.keys)
  have hvaults := wiredVaults_congr h.nodes h.wires agent
  have hoffers : offers b agent = offers b' agent := by
    rw [offers, offers, hvaults, hkeys]
  have hambiguity : findAmbiguity b agent none = findAmbiguity b' agent none := by
    change firstTwice [] ((wiredVaults b agent).flatMap _) =
      firstTwice [] ((wiredVaults b' agent).flatMap _)
    rw [hvaults, hkeys]
  rw [envForSpawn, envForSpawn, hambiguity, hoffers, exportKeys_congr h]

end SameButLogins

/-- Account isolation of a spawn. On a normal start every credential comes from a vault
other than the fallback, and no other vault offers its slot; on a fallback start it comes
from the fallback vault, whose values are exported. Both environments agree on what is no
credential. What a vault
gives is a value under its own key or the access token of a login, and nothing else of a
login matters. -/
theorem account_isolation (parse : String → Option Json) (b : Board) (vk : VaultKey)
    (agent : Uuid) (fallback : Option Uuid) :
    (∀ env, envForSpawn parse b vk agent fallback false = .ok env → ∀ pair ∈ env,
      ∃ vault, ComesFrom parse b vk agent vault pair ∧
        (isCredentialKey pair.1 = true → some vault ≠ fallback)) ∧
    (∀ env, envForSpawn parse b vk agent fallback true = .ok env → ∀ pair ∈ env,
      ∃ vault, ComesFrom parse b vk agent vault pair ∧
        (isCredentialKey pair.1 = true → some vault = fallback)) ∧
    (∀ env, envForSpawn parse b vk agent fallback true = .ok env → ∀ vault key value,
      fallback = some vault → (vault, key) ∈ offers b agent →
        get b vk vault key = .ok (some value) → ∃ pair ∈ env, envPair parse key value = .ok pair) ∧
    (∀ env env', envForSpawn parse b vk agent fallback false = .ok env →
      envForSpawn parse b vk agent fallback true = .ok env' →
        env.filter (fun pair => !isCredentialKey pair.1) =
          env'.filter fun pair => !isCredentialKey pair.1) ∧
    ∀ b' vk' useFallback, SameButLogins parse b vk b' vk' →
      envForSpawn parse b vk agent fallback useFallback =
        envForSpawn parse b' vk' agent fallback useFallback := by
  refine ⟨?_, ?_, ?_, ?_, ?_⟩
  · intro env h pair hpair
    obtain ⟨vault, hfrom, hcred⟩ := comesFrom_of_mem h hpair
    exact ⟨vault, hfrom, fun h => of_decide_eq_false (hcred h)⟩
  · intro env h pair hpair
    obtain ⟨vault, hfrom, hcred⟩ := comesFrom_of_mem h hpair
    exact ⟨vault, hfrom, fun h => of_decide_eq_true (hcred h)⟩
  · rintro env h vault key value rfl hoffer hget
    exact mem_of_offer h hoffer (by simp [chosen]) hget
  · intro env env' h h'
    rw [filter_not_credential h, filter_not_credential h']
  · intro b' vk' useFallback h
    exact envForSpawn_congr h agent fallback useFallback

end Vault

end Wheel
