import Wheel.Data.Json
import Wheel.Text.Search

/-!
# What a harness prints

A child prints one JSON value a line. `parseLine` reads the lines the engine
acts on, and everything else is log material: a line that is not JSON, an event
type nobody has seen, and an `init` without the session id every later event is
compared with. `classifyStartupFailure` reads the text of a failure, and only a
recognised sentence about credentials means `needsAuth`.
-/

namespace Wheel

inductive HarnessEvent where
  | init (sessionId : String)
  | text (sessionId : Option String) (text : String)
  | result (sessionId : Option String) (isError : Bool) (text : Option String)
      (turns : Option ℕ) (costUsd : Option ℚ)
  | rateLimit (sessionId : Option String) (status : String) (window : Option String)
      (utilization : Option ℚ) (resetsAt : Option ℤ)
  | unknown
  deriving DecidableEq

/-- The text blocks of an assistant message, joined. -/
def assistantText (v : Json) : String :=
  let blocks := ((v.get? "message").bind (·.get? "content")).bind (·.asArray)
  match blocks with
  | none => ""
  | some blocks =>
      let texts := blocks.filter fun b => ((b.get? "type").bind (·.asStr)) == some "text"
      String.join (texts.filterMap fun b => (b.get? "text").bind (·.asStr))

/-- Interpret one line of stdout, given the JSON value it is, if it is one. -/
def parseLine : Option Json → HarnessEvent
  | none => .unknown
  | some v =>
      let sessionId := (v.get? "session_id").bind (·.asStr)
      let kind := (v.get? "type").bind (·.asStr)
      if kind = some "system" ∧ (v.get? "subtype").bind (·.asStr) = some "init" then
        match sessionId with
        | some sessionId => .init sessionId
        | none => .unknown
      else if kind = some "assistant" then .text sessionId (assistantText v)
      else if kind = some "result" then
        .result sessionId (((v.get? "is_error").bind (·.asBool)).getD false)
          ((v.get? "result").bind (·.asStr)) ((v.get? "num_turns").bind (·.asU64))
          ((v.get? "total_cost_usd").bind (·.asF64))
      else if kind = some "rate_limit_event" then
        let info := v.get? "rate_limit_info"
        let field (k : String) := info.bind (·.get? k)
        .rateLimit sessionId (((field "status").bind (·.asStr)).getD "unknown")
          ((field "rateLimitType").bind (·.asStr)) ((field "utilization").bind (·.asF64))
          ((field "resetsAt").bind (·.asI64))
      else .unknown

/-! ## Text -/

def asciiLowercase (s : String) : List Char := s.toList.map Char.toLower

inductive StartupFailure where
  | needsAuth
  | misconfigured
  deriving DecidableEq, Repr

def rootRefusal : String := "cannot be used with root/sudo privileges"

/-- Why a harness could not work, read from what it printed. -/
def classifyStartupFailure (output : String) : StartupFailure :=
  if Text.contains rootRefusal.toList output.toList then .misconfigured
  else if ["not logged in", "invalid api key", "please run /login"].any
      fun marker => Text.contains marker.toList (asciiLowercase output) then .needsAuth
  else .misconfigured

/-- Does an event's session id match the session the engine knows? Before any
`init` there is nothing to compare with. -/
def sessionMatches (known event : Option String) : Bool :=
  match known with
  | none => true
  | some known => event == some known

end Wheel
