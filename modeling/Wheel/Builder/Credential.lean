import Wheel.Db.SpawnEnv

/-!
# The credential a builder borrows

A builder may run on what an agent would start with. `fromAgent` asks the vaults of the agent
first, all of them, where a normal start leaves the credentials of the fallback vault out.
`borrows_iff` says when the two agree: what the fallback vault holds back must not be the
only Claude credential, nor come beside the one of the start.
-/

namespace Wheel

namespace Builder

open Vault

inductive CredentialKind where
  | apiKey
  | oauthToken
  deriving DecidableEq

/-- Exactly one variable, carrying one of the project's own credentials. -/
structure ResolvedCredential where
  var : String
  value : String
  kind : CredentialKind
  deriving DecidableEq

/-- Why there is no credential to borrow. -/
inductive CredentialError where
  | expired (node : NodeName) (vault : NodeName) (key : String) (expiresAt : Timestamp)
  | loginExpired (node : NodeName)
  | noCredential (node : NodeName)
  | noNode (id : Uuid)
  | notAgent (node : NodeName)
  | notClaude (node : NodeName)
  | ambiguous (reason : String)
  deriving DecidableEq

/-- The refusal is about two credentials. -/
def CredentialError.isAmbiguous : CredentialError → Bool
  | .ambiguous _ => true
  | _ => false

/-- A login in the store of the CLI. -/
structure StoredOauth where
  token : String
  expiresAt : Option ℤ

/-- What is stored in the directory of a node, the clock, and the key of the vaults. -/
structure Sources where
  vaultKey : Option VaultKey
  readToken : Uuid → Option String
  oauthToken : Uuid → Except String StoredOauth
  now : Timestamp

def claudeCredentialKeys : List String := ["ANTHROPIC_API_KEY", "CLAUDE_CODE_OAUTH_TOKEN"]

def isClaudeKey (key : String) : Bool := claudeCredentialKeys.contains key

/-- What a value is, by its prefix. -/
def classifyToken (token : String) : CredentialKind :=
  if "sk-ant-oat".toList.isPrefixOf (Text.trim token.toList) then .oauthToken else .apiKey

/-- The variable that carries a credential of a kind. -/
def tokenEnv : CredentialKind → String
  | .oauthToken => "CLAUDE_CODE_OAUTH_TOKEN"
  | .apiKey => "ANTHROPIC_API_KEY"

/-- A credential stored by Wheel itself. -/
def fromTokenDir (src : Sources) (node : Uuid) : Option ResolvedCredential :=
  (src.readToken node).map fun value =>
    ⟨tokenEnv (classifyToken value), value, classifyToken value⟩

/-- The key says what a credential was filed as, the value says what it is. -/
def ofPair (key value : String) : ResolvedCredential :=
  let kind := if key = "CLAUDE_CODE_OAUTH_TOKEN" ∨ classifyToken value = .oauthToken then
      CredentialKind.oauthToken else .apiKey
  ⟨tokenEnv kind, value, kind⟩

/-- One Claude credential out of the exports of some vaults. -/
def ofPairs (pairs : List (String × String)) (what : String) :
    Except CredentialError (Option ResolvedCredential) :=
  match pairs.filter fun p => isClaudeKey p.1 with
  | [] => .ok none
  | [(key, value)] => .ok (some (ofPair key value))
  | _ => .error (.ambiguous (what ++ " supplies both ANTHROPIC_API_KEY and " ++
      "CLAUDE_CODE_OAUTH_TOKEN, so which one the builder would run with is a guess; keep one"))

section FromAgent

variable (parse : String → Option Json) (b : Board) (src : Sources)

/-- The fallback vault of an agent, if it has one and still reads it. -/
def fallbackVault (agent : Uuid) : Option (Uuid × NodeName) :=
  (((b.get agent).bind fun n => n.config.asAgent.bind (·.fallbackVault)).filter fun vault =>
    (checkFallback b agent vault).isOk).bind fun vault => (b.get vault).map fun n => (n.id, n.name)

def expiryOf (vault : Uuid) (key : String) : Option Timestamp :=
  (b.values.find? fun v => v.node = vault && v.key = key).bind (·.expiresAt)

def isClaudeStored (key : String) : Bool :=
  [claudeOauthSession, "CLAUDE_CODE_OAUTH_TOKEN", "ANTHROPIC_API_KEY"].contains key

/-- The vault, key and expiry of the credential an agent runs with. -/
def credentialDetail (agent : Uuid) : Option (NodeName × String × Option Timestamp) :=
  ((wiredVaults b agent).filter fun v => some v.1 ≠ (fallbackVault b agent).map Prod.fst).findSome?
    fun v => ((listKeys b v.1).find? isClaudeStored).map fun key => (v.2, key, expiryOf b v.1 key)

/-- The part of the vaults: the first place the builder looks. -/
def fromVaults (agent : Uuid) (name : NodeName) :
    Except CredentialError (Option ResolvedCredential) :=
  match src.vaultKey with
  | none => .ok none
  | some vk =>
      match envForAgent parse b vk agent with
      | .error e => .error (.ambiguous e)
      | .ok exports => ofPairs exports (name.raw ++ "'s vaults")

/-- A login whose time has come; the clock is read in whole seconds. -/
def lapsed (expiresAt : Option ℤ) : Bool :=
  expiresAt.any fun ms => ms ≤ src.now / 1000000000 * 1000

/-- The token and the login in the directory of the node. -/
def fromDir (agent : Uuid) (name : NodeName) : Except CredentialError ResolvedCredential :=
  match fromTokenDir src agent with
  | some resolved => .ok resolved
  | none =>
      match src.oauthToken agent with
      | .ok login =>
          if lapsed src login.expiresAt then .error (.loginExpired name)
          else .ok ⟨"CLAUDE_CODE_OAUTH_TOKEN", login.token, .oauthToken⟩
      | .error _ => .error (.noCredential name)

/-- What an agent itself would start with. -/
def fromAgent (agent : Uuid) : Except CredentialError ResolvedCredential :=
  match b.get agent with
  | none => .error (.noNode agent)
  | some n =>
      match n.config.asAgent with
      | none => .error (.notAgent n.name)
      | some cfg =>
          if cfg.harness ≠ .claude then .error (.notClaude n.name)
          else
            match (credentialDetail b agent).bind fun d =>
                (d.2.2.filter fun at_ => at_ ≤ src.now).map fun at_ => (d.1, d.2.1, at_) with
            | some (vault, key, at_) => .error (.expired n.name vault key at_)
            | none =>
                match fromVaults parse b src agent n.name with
                | .error e => .error e
                | .ok (some resolved) => .ok resolved
                | .ok none => fromDir src agent n.name

/-- The environment of a normal start. -/
def normalStart (vk : VaultKey) (agent : Uuid) : Except String (List (String × String)) :=
  envForSpawn parse b vk agent ((fallbackVault b agent).map Prod.fst) false

end FromAgent

/-! ## What the vaults export -/

section Exports

variable {parse : String → Option Json} {b : Board} {vk : VaultKey} {agent : Uuid}
variable {l : List (Uuid × String)}

/-- A stored value that can be exported. -/
def readable (parse : String → Option Json) (b : Board) (vk : VaultKey) (offer : Uuid × String) :
    Bool :=
  (exportKey parse b vk offer.1 offer.2).isOk

/-- A key that becomes a Claude credential. -/
def isClaudeOffer (offer : Uuid × String) : Bool := isClaudeKey (slot offer.2)

theorem exportKeys_of_readable (h : ∀ o ∈ l, readable parse b vk o = true) :
    exportKeys parse b vk l = .ok (l.filterMap (exported parse b vk)) := by
  have hok : ∃ env, exportKeys parse b vk l = .ok env := by
    induction l with
    | nil => exact ⟨[], rfl⟩
    | cons offer l ih =>
        obtain ⟨hoffer, hl⟩ := List.forall_mem_cons.mp h
        obtain ⟨env, henv⟩ := ih hl
        unfold exportKeys
        unfold readable at hoffer
        cases hkey : exportKey parse b vk offer.1 offer.2 with
        | error e =>
            rw [hkey] at hoffer
            cases hoffer
        | ok pair =>
            dsimp only
            rw [henv]
            exact ⟨_, rfl⟩
  obtain ⟨env, henv⟩ := hok
  rw [henv, exportKeys_eq_ok henv]

theorem exportKeys_of_not_readable (h : ¬ ∀ o ∈ l, readable parse b vk o = true) :
    ∃ e, exportKeys parse b vk l = .error e := by
  induction l with
  | nil => exact absurd (fun o ho => absurd ho List.not_mem_nil) h
  | cons offer l ih =>
      rw [List.forall_mem_cons, not_and] at h
      unfold exportKeys
      cases hkey : exportKey parse b vk offer.1 offer.2 with
      | error e => exact ⟨e, rfl⟩
      | ok pair =>
          have hoffer : readable parse b vk offer = true := by
            rw [readable, hkey]
            rfl
          obtain ⟨e, he⟩ := ih (h hoffer)
          dsimp only
          rw [he]
          exact ⟨e, rfl⟩

/-- A key that a vault lists has a value. -/
theorem isSome_exported {offer : Uuid × String} (ho : offer ∈ offers b agent)
    (h : readable parse b vk offer = true) : (exported parse b vk offer).isSome = true := by
  obtain ⟨v, -, hmem⟩ := List.mem_flatMap.mp ho
  obtain ⟨key, hkey, rfl⟩ := List.mem_map.mp hmem
  have hstored : ∃ w ∈ b.values, w.node = v.1 ∧ w.key = key := by
    obtain ⟨w, hw, rfl⟩ := List.mem_map.mp (List.mem_mergeSort.mp hkey)
    obtain ⟨hw, hnode⟩ := List.mem_filter.mp hw
    exact ⟨w, hw, of_decide_eq_true hnode, rfl⟩
  obtain ⟨w, hw, hnode, hwkey⟩ := hstored
  have hget : Vault.get b vk v.1 key ≠ .ok none := by
    unfold Vault.get
    split
    · rename_i hnone
      have hnot := List.find?_eq_none.mp hnone w hw
      simp [hnode, hwkey] at hnot
    · split <;> simp
  unfold readable exportKey at h
  unfold exported exportKey
  dsimp only at h ⊢
  cases hg : Vault.get b vk v.1 key with
  | error e =>
      rw [hg] at h
      cases h
  | ok value =>
      cases value with
      | none => exact absurd hg hget
      | some value =>
          rw [hg] at h
          dsimp only at h ⊢
          cases hp : envPair parse key value with
          | error e =>
              rw [hp] at h
              cases h
          | ok pair => rfl

/-- The Claude credentials among the exports are the exports of the Claude keys. -/
theorem filter_filterMap_exported :
    (l.filterMap (exported parse b vk)).filter (fun p => isClaudeKey p.1) =
      (l.filter isClaudeOffer).filterMap (exported parse b vk) := by
  induction l with
  | nil => rfl
  | cons offer l ih =>
      rw [List.filterMap_cons, List.filter_cons]
      cases hexp : exported parse b vk offer with
      | none =>
          dsimp only
          rw [ih]
          split
          · rw [List.filterMap_cons, hexp]
          · rfl
      | some pair =>
          have hkey : isClaudeKey pair.1 = isClaudeOffer offer := by
            rw [fst_of_exported hexp]
            rfl
          dsimp only
          rw [List.filter_cons, hkey, ih]
          split
          · rw [List.filterMap_cons, hexp]
          · rfl

theorem length_filterMap_exported (hl : ∀ o ∈ l, o ∈ offers b agent)
    (h : ∀ o ∈ l, readable parse b vk o = true) :
    (l.filterMap (exported parse b vk)).length = l.length := by
  induction l with
  | nil => rfl
  | cons offer l ih =>
      obtain ⟨hoffer, hrest⟩ := List.forall_mem_cons.mp h
      obtain ⟨hmem, hmems⟩ := List.forall_mem_cons.mp hl
      obtain ⟨pair, hpair⟩ := Option.isSome_iff_exists.mp (isSome_exported hmem hoffer)
      rw [List.filterMap_cons, hpair]
      exact congrArg Nat.succ (ih hmems hrest)

/-- As many Claude credentials are exported as Claude keys are stored. -/
theorem length_claude (hl : ∀ o ∈ l, o ∈ offers b agent)
    (h : ∀ o ∈ l, readable parse b vk o = true) :
    ((l.filterMap (exported parse b vk)).filter fun p => isClaudeKey p.1).length =
      l.countP isClaudeOffer := by
  rw [filter_filterMap_exported, List.countP_eq_length_filter]
  exact length_filterMap_exported (fun o ho => hl o (List.mem_of_mem_filter ho))
    fun o ho => h o (List.mem_of_mem_filter ho)

end Exports

/-! ## The builder and the normal start -/

section Borrows

variable (parse : String → Option Json) (b : Board) (src : Sources) (vk : VaultKey) (agent : Uuid)

/-- The keys a normal start exports. -/
def kept : List (Uuid × String) :=
  (offers b agent).filter (chosen ((fallbackVault b agent).map Prod.fst) false)

/-- The credentials of the fallback vault, which a normal start leaves out. -/
def held : List (Uuid × String) :=
  (offers b agent).filter fun o => !chosen ((fallbackVault b agent).map Prod.fst) false o

/-- The builder borrows what a normal start of the agent exports. -/
structure Borrows (name : NodeName) : Prop where
  one : ∀ env p, normalStart parse b vk agent = .ok env →
    (env.filter fun p => isClaudeKey p.1) = [p] →
      ∃ r, fromAgent parse b src agent = .ok r ∧ r.value = p.2
  refused : (∀ env, normalStart parse b vk agent = .ok env →
      1 < (env.filter fun p => isClaudeKey p.1).length) →
    ∃ reason, fromAgent parse b src agent = .error (.ambiguous reason)
  withheld : ∀ r, fromAgent parse b src agent = .ok r →
    fromVaults parse b src agent name = .ok (some r) →
      ∃ env, normalStart parse b vk agent = .ok env ∧
        ∃ p ∈ env, isClaudeKey p.1 = true ∧ p.2 = r.value

/-- The start succeeds, and what it holds back either comes beside its only Claude credential
(as another one, or as something that cannot be read) or is the only one itself. -/
structure Intrudes : Prop where
  clear : findAmbiguity b agent none = none
  starts : ∀ o ∈ kept b agent, readable parse b vk o = true
  intrudes :
    ((kept b agent).countP isClaudeOffer = 1 ∧
        ∃ o ∈ held b agent, isClaudeOffer o = true ∨ readable parse b vk o = false) ∨
      ((kept b agent).countP isClaudeOffer = 0 ∧ (held b agent).countP isClaudeOffer = 1 ∧
        ∀ o ∈ held b agent, readable parse b vk o = true)

/-- A Claude agent whose stored credentials have not expired. -/
structure Runs (name : NodeName) : Prop where
  agent : ∃ n cfg, b.get agent = some n ∧ n.name = name ∧ n.config.asAgent = some cfg ∧
    cfg.harness = .claude
  key : src.vaultKey = some vk
  current : ∀ v ∈ b.values, ∀ t, v.expiresAt = some t → src.now < t

variable {parse b src vk agent} {name : NodeName}

theorem fromAgent_eq (h : Runs b src vk agent name) :
    fromAgent parse b src agent =
      match fromVaults parse b src agent name with
      | .error e => .error e
      | .ok (some resolved) => .ok resolved
      | .ok none => fromDir src agent name := by
  obtain ⟨n, cfg, hn, hname, hcfg, hclaude⟩ := h.agent
  have hexpiry : (credentialDetail b agent).bind (fun d =>
      (d.2.2.filter fun at_ => at_ ≤ src.now).map fun at_ => (d.1, d.2.1, at_)) = none := by
    cases hd : credentialDetail b agent with
    | none => rfl
    | some d =>
        obtain ⟨v, -, hv⟩ := List.exists_of_findSome?_eq_some hd
        obtain ⟨key, -, rfl⟩ := Option.map_eq_some_iff.mp hv
        rw [Option.bind_some, Option.map_eq_none_iff, Option.filter_eq_none_iff]
        intro t ht
        obtain ⟨w, hw, hwt⟩ := Option.bind_eq_some_iff.mp ht
        have hcurrent := h.current w (List.mem_of_find?_eq_some hw) t hwt
        simpa using hcurrent
  unfold fromAgent
  rw [hn]
  dsimp only
  rw [hcfg]
  dsimp only
  rw [hclaude, if_neg (fun hne => hne rfl), hexpiry, hname]

theorem fromVaults_eq (h : Runs b src vk agent name) :
    fromVaults parse b src agent name =
      match envForAgent parse b vk agent with
      | .error e => .error (.ambiguous e)
      | .ok exports => ofPairs exports (name.raw ++ "'s vaults") := by
  unfold fromVaults
  rw [h.key]

theorem mem_offers_of_mem_kept {o : Uuid × String} (h : o ∈ kept b agent) : o ∈ offers b agent :=
  List.mem_of_mem_filter h

theorem mem_kept_or_held {o : Uuid × String} (h : o ∈ offers b agent) :
    o ∈ kept b agent ∨ o ∈ held b agent := by
  cases hc : chosen ((fallbackVault b agent).map Prod.fst) false o with
  | true => exact .inl (List.mem_filter.mpr ⟨h, hc⟩)
  | false => exact .inr (List.mem_filter.mpr ⟨h, by rw [hc]; rfl⟩)

/-- The builder is refused when the vaults are. -/
theorem borrows_of_ambiguous (h : Runs b src vk agent name) {reason : String}
    (hvaults : fromVaults parse b src agent name = .error (.ambiguous reason))
    (hone : ∀ env p, normalStart parse b vk agent = .ok env →
      (env.filter fun p => isClaudeKey p.1) ≠ [p]) : Borrows parse b src vk agent name where
  one env p henv hp := absurd hp (hone env p henv)
  refused _ := ⟨reason, by rw [fromAgent_eq h, hvaults]⟩
  withheld r _ hr := by
    rw [hvaults] at hr
    cases hr

theorem not_borrows_of_ambiguous (h : Runs b src vk agent name) {reason : String}
    (hvaults : fromVaults parse b src agent name = .error (.ambiguous reason))
    {env : List (String × String)} (henv : normalStart parse b vk agent = .ok env)
    (hlength : (env.filter fun p => isClaudeKey p.1).length = 1) :
    ¬ Borrows parse b src vk agent name := by
  intro hb
  obtain ⟨p, hp⟩ := List.length_eq_one_iff.mp hlength
  obtain ⟨r, hr, -⟩ := hb.one env p henv hp
  rw [fromAgent_eq h, hvaults] at hr
  cases hr

/-- More than one Claude credential is refused. -/
theorem ofPairs_of_lt {pairs : List (String × String)} (what : String)
    (h : 1 < (pairs.filter fun p => isClaudeKey p.1).length) :
    ∃ reason, ofPairs pairs what = .error (.ambiguous reason) := by
  unfold ofPairs
  split
  · rename_i hnil
    rw [hnil] at h
    cases h
  · rename_i hsingle
    rw [hsingle] at h
    exact absurd h (lt_irrefl _)
  · exact ⟨_, rfl⟩

theorem ofPairs_of_singleton {pairs : List (String × String)} (what : String)
    {p : String × String} (h : (pairs.filter fun p => isClaudeKey p.1) = [p]) :
    ∃ r, ofPairs pairs what = .ok (some r) ∧ r.value = p.2 := by
  unfold ofPairs
  rw [h]
  exact ⟨_, rfl, rfl⟩

/-- When every value can be read, only the numbers of Claude credentials matter. -/
theorem borrows_iff_of_readable (h : Runs b src vk agent name)
    (hstart : normalStart parse b vk agent =
      .ok ((kept b agent).filterMap (exported parse b vk)))
    (hkept : ∀ o ∈ kept b agent, readable parse b vk o = true)
    (hheld : ∀ o ∈ held b agent, readable parse b vk o = true)
    (hvaults : fromVaults parse b src agent name =
      ofPairs ((offers b agent).filterMap (exported parse b vk)) (name.raw ++ "'s vaults")) :
    Borrows parse b src vk agent name ↔
      ¬ (((kept b agent).countP isClaudeOffer = 1 ∧ 0 < (held b agent).countP isClaudeOffer) ∨
        ((kept b agent).countP isClaudeOffer = 0 ∧ (held b agent).countP isClaudeOffer = 1)) := by
  have hall : ∀ o ∈ offers b agent, readable parse b vk o = true :=
    fun o ho => (mem_kept_or_held ho).elim (hkept o) (hheld o)
  have hcount := length_claude (fun o => mem_offers_of_mem_kept) hkept
  have htotal := length_claude (fun o ho => ho) hall
  have hsum : (offers b agent).countP isClaudeOffer =
      (kept b agent).countP isClaudeOffer + (held b agent).countP isClaudeOffer :=
    List.countP_eq_countP_filter_add _ _ _
  rcases Nat.lt_trichotomy ((offers b agent).countP isClaudeOffer) 1 with hzero | hone | hmany
  · -- no Claude credential at all: the vaults are passed over
    have hnil := List.length_eq_zero_iff.mp (htotal.trans (Nat.lt_one_iff.mp hzero))
    have hnone : fromVaults parse b src agent name = .ok none := by
      rw [hvaults, ofPairs, hnil]
    refine iff_of_true ⟨fun env p henv hp => ?_, fun hmany => ?_, fun r _ hr => ?_⟩ (by omega)
    · rw [hstart] at henv
      cases henv
      rw [hp] at hcount
      rw [List.length_singleton] at hcount
      omega
    · have hlt := hmany _ hstart
      omega
    · rw [hnone] at hr
      cases hr
  · obtain ⟨p, hp⟩ := List.length_eq_one_iff.mp (htotal.trans hone)
    obtain ⟨r, hr, hvalue⟩ := ofPairs_of_singleton (name.raw ++ "'s vaults") hp
    have hagent : fromAgent parse b src agent = .ok r := by
      rw [fromAgent_eq h, hvaults, hr]
    rcases Nat.eq_zero_or_pos ((held b agent).countP isClaudeOffer) with hnone | hsome
    · -- the only credential is one of the start
      have hsame : ((kept b agent).filterMap (exported parse b vk)).filter
          (fun p => isClaudeKey p.1) = [p] := by
        rw [filter_filterMap_exported] at hp ⊢
        rw [← hp, kept, List.filter_filter]
        congr 1
        refine List.filter_congr fun o ho => ?_
        cases hc : isClaudeOffer o with
        | false => rfl
        | true =>
            by_contra hnot
            refine List.countP_eq_zero.mp hnone o (List.mem_filter.mpr ⟨ho, ?_⟩) hc
            simpa using hnot
      refine iff_of_true ⟨fun env q henv hq => ?_, fun hmany => ?_, fun r' hr' _ => ?_⟩ (by omega)
      · rw [hstart] at henv
        cases henv
        rw [hsame] at hq
        cases hq
        exact ⟨r, hagent, hvalue⟩
      · have hlt := hmany _ hstart
        rw [hsame] at hlt
        exact absurd hlt (lt_irrefl _)
      · rw [hagent] at hr'
        cases hr'
        have hmem := hsame ▸ List.mem_singleton_self p
        obtain ⟨hmem, hkey⟩ := List.mem_filter.mp hmem
        exact ⟨_, hstart, p, hmem, hkey, hvalue.symm⟩
    · -- the only credential is one that the start leaves out
      refine iff_of_false (fun hb => ?_) (by omega)
      obtain ⟨env, henv, q, hq, hkey, -⟩ := hb.withheld r hagent (by rw [hvaults, hr])
      rw [hstart] at henv
      cases henv
      have hmem : q ∈ ((kept b agent).filterMap (exported parse b vk)).filter
          fun p => isClaudeKey p.1 := List.mem_filter.mpr ⟨hq, hkey⟩
      have hpos := List.length_pos_of_mem hmem
      rw [hcount] at hpos
      omega
  · obtain ⟨reason, hreason⟩ := ofPairs_of_lt (name.raw ++ "'s vaults") (htotal ▸ hmany)
    have hambiguous := hvaults.trans hreason
    by_cases hk : (kept b agent).countP isClaudeOffer = 1
    · exact iff_of_false (not_borrows_of_ambiguous h hambiguous hstart (hcount.trans hk)) (by omega)
    · refine iff_of_true (borrows_of_ambiguous h hambiguous fun env p henv hp => hk ?_) (by omega)
      rw [hstart] at henv
      cases henv
      rw [← hcount, hp]
      rfl

end Borrows

/-! ## Two boards -/

/-- An agent that falls back to the second node. -/
def agentNode : Node where
  id := 1
  name := ⟨"worker", by decide⟩
  position := ⟨0, 0⟩
  config := .agent ⟨.claude, none, "", false, false, none, none, [], some 2⟩

def standbyVault : Node where
  id := 2
  name := ⟨"standby", by decide⟩
  position := ⟨0, 0⟩
  config := .vault ⟨["ANTHROPIC_API_KEY"]⟩

/-- An agent without a wire. -/
def bareBoard : Board where
  nodes := ⟨[agentNode], List.nodup_singleton _⟩
  wires := []
  values := []
  status := fun _ => none
  tables := fun _ => none

/-- An agent whose only vault is its fallback vault. -/
def standbyBoard : Board where
  nodes := ⟨[agentNode, standbyVault], by decide⟩
  wires := [⟨1, 2, .read, none⟩]
  values := [⟨2, "ANTHROPIC_API_KEY", "sk-ant-api", none⟩]
  status := fun _ => none
  tables := fun _ => none

/-- A key that leaves every value as it is, and empty directories. -/
def plainKey : VaultKey := ⟨fun _ _ value => some value⟩

def emptySources : Sources where
  vaultKey := some plainKey
  readToken := fun _ => none
  oauthToken := fun _ => .error "this node has no stored claude credentials"
  now := 0

end Builder

end Wheel
