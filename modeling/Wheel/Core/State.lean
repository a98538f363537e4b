import Mathlib

/-!
# What an agent's state and its credentials are called

The lifecycle of an agent's child, and the vault keys that authenticate a harness.
-/

namespace Wheel

/-- Lifecycle of an agent's child process. -/
inductive AgentStatus where
  | stopped
  | starting
  | needsAuth
  | running
  | idle
  | parked
  | budgetExhausted
  | rateLimited
  | error
  deriving DecidableEq, Repr

def AgentStatus.asStr : AgentStatus → String
  | .stopped => "stopped"
  | .starting => "starting"
  | .needsAuth => "needs_auth"
  | .running => "running"
  | .idle => "idle"
  | .parked => "parked"
  | .budgetExhausted => "budget_exhausted"
  | .rateLimited => "rate_limited"
  | .error => "error"

/-- The vault key of a login that can be renewed. -/
def claudeOauthSession : String := "CLAUDE_OAUTH_SESSION"

/-- The environment variables that authenticate a harness. -/
def credentialKeys : List String :=
  ["CLAUDE_CODE_OAUTH_TOKEN", "ANTHROPIC_API_KEY", "CODEX_API_KEY", claudeOauthSession]

def isCredentialKey (key : String) : Bool := credentialKeys.contains key

end Wheel
