import Wheel.Api.Auth
import Wheel.Core.ProxyPath

/-!
# The tier an engine path requires

`RULES` is the table and `engineTier` the least tier of a method and of decoded
segments, empty ones left out. What no rule lists is denied, and everything under
`v1/cli` is denied without a look at the table.
-/

namespace Wheel.Api.Policy

open ProxyPath

/-- One row: `{}` stands for one segment, `**` for one or more that follow. -/
structure Rule where
  methods : List String
  path : String
  tier : Tier

def GET : List String := ["GET", "HEAD"]
def POST : List String := ["POST"]
def PUT : List String := ["PUT"]
def DELETE : List String := ["DELETE"]
def WRITE : List String := ["POST", "PATCH", "PUT", "DELETE"]

/-- The table; the first rule that matches wins. -/
def RULES : List Rule := [
  ⟨GET, "v1/engine", .guest⟩,
  ⟨GET, "v1/board", .guest⟩,
  ⟨GET, "v1/events", .guest⟩,
  ⟨GET, "v1/agents/\x7b\x7d/log", .guest⟩,
  ⟨GET, "v1/agents/\x7b\x7d/inbox", .guest⟩,
  ⟨GET, "v1/agents/\x7b\x7d/inbox/\x7b\x7d", .guest⟩,
  ⟨GET, "v1/tables/\x7b\x7d/rows", .guest⟩,
  ⟨GET, "v1/tools/\x7b\x7d/ops", .guest⟩,
  ⟨GET, "v1/agents/\x7b\x7d/auth", .guest⟩,
  ⟨DELETE, "v1/agents/\x7b\x7d/auth", .admin⟩,
  ⟨POST, "v1/agents/\x7b\x7d/auth/begin", .admin⟩,
  ⟨POST, "v1/agents/\x7b\x7d/auth/complete", .admin⟩,
  ⟨GET, "v1/vault/\x7b\x7d", .admin⟩,
  ⟨WRITE, "v1/vault/\x7b\x7d/\x7b\x7d", .admin⟩,
  ⟨POST, "v1/tools/\x7b\x7d/call", .admin⟩,
  ⟨WRITE, "v1/nodes", .admin⟩,
  ⟨WRITE, "v1/wires", .admin⟩,
  ⟨POST, "v1/tools/import", .admin⟩,
  ⟨POST, "v1/tools/\x7b\x7d/import", .admin⟩,
  ⟨GET, "v1/builder/credential", .admin⟩,
  ⟨["PUT", "DELETE"], "v1/builder/credential", .admin⟩,
  ⟨PUT, "v1/nodes/\x7b\x7d/content", .prompter⟩,
  ⟨POST, "v1/agents/\x7b\x7d/send", .prompter⟩,
  ⟨POST, "v1/agents/\x7b\x7d/start", .prompter⟩,
  ⟨POST, "v1/agents/\x7b\x7d/stop", .prompter⟩,
  ⟨POST, "v1/agents/\x7b\x7d/restart", .prompter⟩,
  ⟨POST, "v1/agents/\x7b\x7d/clear", .prompter⟩,
  ⟨POST, "v1/agents/\x7b\x7d/interrupt", .prompter⟩,
  ⟨POST, "v1/tables/\x7b\x7d/query", .prompter⟩,
  ⟨POST, "v1/scripts/\x7b\x7d/run", .prompter⟩,
  ⟨WRITE, "v1/nodes/\x7b\x7d", .admin⟩]

/-- The segments of a pattern against those of a path. -/
def matchesFrom : List String → List String → Bool
  | [], segments => segments = []
  | p :: pats, segments =>
      if p = "**" then segments ≠ []
      else
        match segments with
        | [] => false
        | s :: segments => (p = "\x7b\x7d" || p = s) && matchesFrom pats segments

def matchesPattern (pattern : String) (segments : List String) : Bool :=
  matchesFrom ((splitSlash pattern).filter fun s => s ≠ "") segments

/-- The segments that a policy looks at. -/
def nonempty (segments : List String) : List String := segments.filter fun s => s ≠ ""

def Rule.lists (r : Rule) (method : String) (segments : List String) : Bool :=
  r.methods.contains method && matchesPattern r.path segments

/-- The least tier for an engine path, or nothing when no tier may reach it. -/
def engineTier (method : String) (segments : List String) : Option Tier :=
  match nonempty segments with
  | [] => none
  | s :: rest =>
      if s = "v1" ∧ rest.head? = some "cli" then none
      else (RULES.find? fun r => r.lists method (s :: rest)).map Rule.tier

/-- The paths under `v1/cli`. -/
def UnderCli (segments : List String) : Prop := ["v1", "cli"] <+: nonempty segments

variable {method : String} {segments : List String} {tier : Tier}

/-- What is allowed at some tier is listed by a rule of that tier, and is not under
`v1/cli`. -/
theorem engineTier_eq_some (h : engineTier method segments = some tier) :
    (∃ r ∈ RULES, r.lists method (nonempty segments) = true ∧ r.tier = tier) ∧
      ¬ UnderCli segments := by
  unfold engineTier at h
  split at h
  · cases h
  rename_i s rest hne
  split at h
  · cases h
  rename_i hcli
  obtain ⟨r, hr, rfl⟩ := Option.map_eq_some_iff.mp h
  constructor
  · have hlists := List.find?_some hr
    rw [← hne] at hlists
    exact ⟨r, List.mem_of_find?_eq_some hr, hlists, rfl⟩
  · intro hunder
    obtain ⟨t, ht⟩ := hunder
    rw [hne] at ht
    cases ht
    exact hcli ⟨rfl, rfl⟩

theorem engineTier_of_underCli (h : UnderCli segments) : engineTier method segments = none := by
  cases ht : engineTier method segments with
  | none => rfl
  | some tier => exact absurd h (engineTier_eq_some ht).2

/-- Every method that a rule lists is an ordinary one. -/
theorem mem_methods {r : Rule} (hr : r ∈ RULES) (hm : method ∈ r.methods) :
    method ∈ GET ++ WRITE := by
  have hall : ∀ r ∈ RULES, ∀ m ∈ r.methods, m ∈ GET ++ WRITE := by decide
  exact hall r hr method hm

end Wheel.Api.Policy
