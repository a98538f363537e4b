import Mathlib
import Wheel.Core.Message
import Wheel.Harness.Event

/-!
# What a closed usage window means for a turn

`classifyTurnEnd` says how a turn ended, and `resumeAt` when an agent whose
usage window closed is due back: at the reset the harness named, or after a
backoff that doubles with every strike, and never beyond the horizon.
-/

namespace Wheel

/-- What the harness said about a closed window, the reset in unix seconds. -/
structure LimitSignal where
  resetsAt : Option ℤ
  window : Option String
  deriving DecidableEq

/-- How a turn ended, for the message it consumed. -/
inductive TurnEnd where
  | completed
  | taskError
  | needsAuth
  | limited (signal : LimitSignal)
  deriving DecidableEq

def TurnEnd.isLimited : TurnEnd → Bool
  | .limited _ => true
  | _ => false

namespace Quota

/-- How often a message is requeued because its turn ended on a closed window. -/
def maxLimitRequeues : ℕ := 12

def backoffBaseSecs : ℤ := 15 * 60

def backoffMaxSecs : ℤ := 5 * 60 * 60

/-- The furthest ahead a resume may be scheduled. -/
def horizonSecs : ℤ := 8 * 24 * 60 * 60

/-- Substrings of an error text that says the window closed. -/
def textMarkers : List String :=
  ["usage limit", "rate limit", "rate_limit_error", "hit your limit", "limit reached"]

/-- The reset in `Claude AI usage limit reached|1757000000`: seconds, or
milliseconds read as seconds. -/
def epochAfterPipe (text : String) : Option ℤ :=
  (Text.splitLast ['|'] (Text.trim text.toList)).bind fun (_, tail) =>
    let digits := (Text.trim tail).takeWhile Char.isDigit
    let n : ℕ := digits.foldl (fun n c => 10 * n + (c.toNat - 48)) 0
    if digits.length = 10 then some (n : ℤ)
    else if digits.length = 13 then some ((n / 1000 : ℕ) : ℤ)
    else none

/-- A limit named in the harness's error text. -/
def limitInText (text : String) : Option LimitSignal :=
  if textMarkers.any fun marker => Text.contains marker.toList (asciiLowercase text) then
    some ⟨epochAfterPipe text, none⟩
  else none

/-- Classify a `result`; `seen` is the rejected rate-limit event of this turn. -/
def classifyTurnEnd (isError : Bool) (text : Option String) (seen : Option LimitSignal)
    (needsAuth : Bool) : TurnEnd :=
  if !isError then .completed
  else
    let fromText := text.bind limitInText
    match seen with
    | some seen =>
        .limited { seen with resetsAt := seen.resetsAt.or (fromText.bind (·.resetsAt)) }
    | none =>
        if needsAuth then .needsAuth
        else
          match fromText with
          | some signal => .limited signal
          | none => .taskError

/-- How long to wait when no reset was named. -/
def backoffSecs (strikes : ℕ) : ℤ :=
  min (backoffBaseSecs * 2 ^ min (strikes - 1) 16) backoffMaxSecs

/-- Unix seconds as an instant, within the years an instant can have. -/
def timestamp (unix : ℤ) : Option Timestamp :=
  if -377705116800 ≤ unix ∧ unix ≤ 253402300799 then some (unix * 1000000000) else none

/-- When a parked agent is due back. -/
def resumeAt (now : Timestamp) (resetsAt : Option ℤ) (strikes : ℕ) (jitterSecs : ℕ) :
    Timestamp :=
  let jitter : ℤ := jitterSecs * 1000000000
  let due :=
    match resetsAt.bind timestamp with
    | some reset => max reset now + jitter
    | none => now + backoffSecs strikes * 1000000000 + jitter
  min due (now + horizonSecs * 1000000000)

/-- A successful turn is never a limit. -/
theorem classifyTurnEnd_completed_iff (isError : Bool) (text : Option String)
    (seen : Option LimitSignal) (needsAuth : Bool) :
    classifyTurnEnd isError text seen needsAuth = .completed ↔ isError = false := by
  unfold classifyTurnEnd
  cases isError with
  | false => simp
  | true =>
      simp only [Bool.not_true, Bool.false_eq_true, if_false, reduceCtorEq, iff_false]
      split
      · simp
      · split
        · simp
        · split <;> simp

end Quota

end Wheel
