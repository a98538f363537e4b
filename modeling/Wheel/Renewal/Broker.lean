import Wheel.Concurrency.Program
import Wheel.Core.Message
import Wheel.Data.Keyed
import Wheel.Harness.OauthSession

/-!
# The broker of renewals

What the engine remembers of the logins its vaults hold: the stored logins, the lock of
a vault's lineage, failures, attempts, timers and the moment of the last exchange. Every
section under one lock, every read of the clock and every end of an exchange is one step;
between two steps any time may pass. The history is not the engine's: it counts the
logins that were stored and keeps the exchanges, so that it can be said which login a
call has read.
-/

namespace Wheel.Renewal

/-- The values of `WHEEL_HARNESS_AUTH`. -/
inductive HarnessAuthPolicy where
  | oauthToken
  | apiKeyOnly
  deriving DecidableEq

/-- The settings of an engine and of its broker, durations in milliseconds, and how a time
is displayed. -/
structure Config where
  harnessAuth : HarnessAuthPolicy
  hasVaultKey : Bool
  lead : ℕ
  retry : ℕ
  minInterval : ℕ
  maxAttempts : ℕ
  displayTime : Timestamp → String

def noVaultKey : String :=
  "this engine started without WHEEL_VAULT_KEY, so secrets cannot be stored or read"

/-- The last moment that has a date. -/
def lastMoment : ℤ := 253402300799999

/-- The first moment that has a date. -/
def firstMoment : ℤ := -377705116800000

/-- Milliseconds as a time; out of range is no time, never a wrong one. -/
def millisToTimestamp (ms : ℤ) : Option Timestamp :=
  if firstMoment ≤ ms ∧ ms ≤ lastMoment then some ms else none

/-- What a vault stores for its login: what decrypting and reading the value gives, and
the expiry beside it. -/
structure SessionRow where
  vault : Uuid
  session : Except String OauthSession
  expiresAt : Option Timestamp

/-- The row of a login that is stored. -/
def SessionRow.of (vault : Uuid) (session : OauthSession) : SessionRow :=
  ⟨vault, .ok session, session.expiresAt.bind millisToTimestamp⟩

/-- The latest word on why a login could not be renewed; `login` is the version of the
login it speaks of. -/
structure Failure where
  warning : String
  permanent : Bool
  login : ℕ

/-- A sleeping task that renews a vault's login when it is due. -/
structure Timer where
  vault : Uuid
  gen : ℕ
  due : ℤ
  deriving DecidableEq

/-- An exchange that was begun. -/
structure Exchange where
  vault : Uuid
  token : String
  startedAt : ℤ
  deriving DecidableEq

/-- What happened so far: how often the login of a vault was written or removed, the
version that the last sign-in stored, the version of the last sign-in that had the
failures cleared, the exchanges, the newest first, the tokens whose exchange was accepted,
and whether the engine was shut down. -/
structure History where
  version : Uuid → ℕ
  signedIn : Uuid → ℕ
  cleared : Uuid → ℕ
  exchanges : List Exchange
  accepted : List (Uuid × String)
  shutDown : Bool

structure Broker where
  rows : Keyed SessionRow.vault
  clock : ℤ
  closing : Bool
  pausedForUpdate : Bool
  held : Uuid → Bool
  failures : Uuid → Option Failure
  attempts : Uuid → ℕ
  timers : Uuid → ℕ
  lastAttempt : Uuid → Option ℤ
  sleeping : List Timer
  history : History

/-- Why a renewal failed. -/
structure RefreshFailure where
  reason : String
  permanent : Bool
  ambiguous : Bool

/-! ## Sections -/

/-- A login that was read, and its version. -/
structure Read where
  login : Except String (Option OauthSession)
  version : ℕ

/-- An expiry that was read, and the version of its login. -/
structure Generation where
  expiry : Option Timestamp
  version : ℕ

/-- A login that waits for its renewal at boot. -/
structure Pending where
  vault : Uuid
  expires : Timestamp
  version : ℕ

inductive Section where
  | closing
  | acquire (vault : Uuid)
  | release (vault : Uuid)
  | session (vault : Uuid)
  | now
  | generation (vault : Uuid)
  | lastAttempt (vault : Uuid)
  | stamp (vault : Uuid) (at_ : ℤ)
  | begin (vault : Uuid) (token : String)
  | outcome (vault : Uuid) (token : String)
  | replace (vault : Uuid) (renewedFrom : String) (next : OauthSession)
  | forgive (vault : Uuid) (signIn : Option ℕ)
  | forget (vault : Uuid)
  | countAttempt (vault : Uuid)
  | name (vault : Uuid)
  | fail (vault : Uuid) (failure : Failure)
  | arm (vault : Uuid) (at_ : ℤ)
  | wake (vault : Uuid) (gen : ℕ)
  | store (vault : Uuid) (session : OauthSession)
  | remove (vault : Uuid)
  | sessionVaults
  | markPaused
  | takePaused
  | clearPaused
  | setClosing (closing : Bool)

@[reducible] def Section.Answer : Section → Type
  | .closing => Bool
  | .acquire _ => Unit
  | .release _ => Unit
  | .session _ => Read
  | .now => ℤ
  | .generation _ => Generation
  | .lastAttempt _ => Option ℤ
  | .stamp _ _ => Unit
  | .begin _ _ => Except RefreshFailure ℕ
  | .outcome _ _ => Except RefreshFailure (Except String OauthSession)
  | .replace _ _ _ => Except String (Option ℕ)
  | .forgive _ _ => Unit
  | .forget _ => Unit
  | .countAttempt _ => ℕ
  | .name _ => String
  | .fail _ _ => Unit
  | .arm _ _ => Unit
  | .wake _ _ => Bool
  | .store _ _ => ℕ
  | .remove _ => Unit
  | .sessionVaults => Keyed Pending.vault
  | .markPaused => Unit
  | .takePaused => Bool
  | .clearPaused => Unit
  | .setClosing _ => Unit

/-- What is decided elsewhere: the time, the name of a vault, whether a directory to renew
in could be made, and how the exchange ends. -/
structure World where
  now : ℤ
  vaultName : String
  prepared : Except String Unit
  cli : Except RefreshFailure (Except String OauthSession)

namespace Broker

variable (cfg : Config) (u : Broker)

/-- What is stored for the login of a vault. -/
def sessionOf (v : Uuid) : Except String (Option OauthSession) :=
  match u.rows.get? v with
  | none => .ok none
  | some row =>
      if cfg.hasVaultKey then row.session.map some else .error noVaultKey

/-- The expiry that is stored beside the login of a vault. -/
def expiryOf (v : Uuid) : Option Timestamp := (u.rows.get? v).bind SessionRow.expiresAt

/-- The login of a vault is written or removed. -/
def rewrite (v : Uuid) (rows : Keyed SessionRow.vault) : Broker :=
  { u with
    rows
    history := { u.history with
      version := Function.update u.history.version v (u.history.version v + 1) } }

def putSession (v : Uuid) (session : OauthSession) : Broker :=
  u.rewrite v (u.rows.put (.of v session))

/-- Store a renewed login, but only if the vault still holds the refresh token that it was
renewed from. The answer is the version that was written. -/
def replaceSessionIf (v : Uuid) (renewedFrom : String) (next : OauthSession) :
    Broker × Except String (Option ℕ) :=
  match u.sessionOf cfg v with
  | .error e => (u, .error e)
  | .ok current =>
      if current.bind OauthSession.refreshToken = some renewedFrom then
        (u.putSession v next, .ok (some (u.history.version v + 1)))
      else (u, .ok none)

/-- A sign-in stores its login. -/
def storeLogin (v : Uuid) (session : OauthSession) : Broker :=
  let stored := u.putSession v session
  { stored with
    history := { stored.history with
      signedIn := Function.update u.history.signedIn v (u.history.version v + 1) } }

/-- Arm a timer; it supersedes the timer of the vault before it. No timer is due before
the shortest interval is over. -/
def armRefreshTimer (v : Uuid) (at_ : ℤ) : Broker :=
  { u with
    timers := Function.update u.timers v (u.timers v + 1)
    sleeping := ⟨v, u.timers v + 1, max at_ (u.clock + cfg.minInterval)⟩ :: u.sleeping }

/-- The logins that have an expiry. -/
def pending : Keyed Pending.vault where
  rows := u.rows.rows.filterMap fun row =>
    row.expiresAt.map fun e => ⟨row.vault, e, u.history.version row.vault⟩
  nodup := by
    have hsub : ((u.rows.rows.filterMap fun row => row.expiresAt.map fun e =>
        (⟨row.vault, e, u.history.version row.vault⟩ : Pending)).map Pending.vault).Sublist
          (u.rows.rows.map SessionRow.vault) := by
      induction u.rows.rows with
      | nil => exact List.Sublist.slnil
      | cons row rows ih =>
          rw [List.filterMap_cons, List.map_cons]
          cases row.expiresAt with
          | none => exact ih.cons _
          | some e => exact ih.cons_cons _
    exact u.rows.nodup.sublist hsub

/-- Clear the failure of a vault, for a sign-in or after a renewal. -/
def forgive (v : Uuid) (signIn : Option ℕ) : Broker :=
  { u with
    failures := Function.update u.failures v none
    history := { u.history with
      cleared := match signIn with
        | none => u.history.cleared
        | some k => Function.update u.history.cleared v (max k (u.history.cleared v)) } }

def perform (w : World) : (q : Section) → Option (Broker × q.Answer)
  | .closing => some (u, u.closing)
  | .acquire v =>
      if u.held v then none else some ({ u with held := Function.update u.held v true }, ())
  | .release v => some ({ u with held := Function.update u.held v false }, ())
  | .session v => some (u, ⟨u.sessionOf cfg v, u.history.version v⟩)
  | .now => some (u, u.clock)
  | .generation v => some (u, ⟨u.expiryOf v, u.history.version v⟩)
  | .lastAttempt v => some (u, u.lastAttempt v)
  | .stamp v t => some ({ u with lastAttempt := Function.update u.lastAttempt v (some t) }, ())
  | .begin v token =>
      match w.prepared with
      | .error e => some (u, .error ⟨e, false, false⟩)
      | .ok () =>
          some ({ u with history := { u.history with
              exchanges := ⟨v, token, u.clock⟩ :: u.history.exchanges } },
            .ok (u.history.version v))
  | .outcome v token =>
      match w.cli with
      | .error f => some (u, .error f)
      | .ok left =>
          some ({ u with history := { u.history with
              accepted := (v, token) :: u.history.accepted } }, .ok left)
  | .replace v renewedFrom next => some (u.replaceSessionIf cfg v renewedFrom next)
  | .forgive v signIn => some (u.forgive v signIn, ())
  | .forget v => some ({ u with attempts := Function.update u.attempts v 0 }, ())
  | .countAttempt v =>
      some ({ u with attempts := Function.update u.attempts v (u.attempts v + 1) },
        u.attempts v + 1)
  | .name _ => some (u, w.vaultName)
  | .fail v failure =>
      some ({ u with failures := Function.update u.failures v (some failure) }, ())
  | .arm v t => some (u.armRefreshTimer cfg v t, ())
  | .wake v gen =>
      match u.sleeping.find? fun t => t.vault = v ∧ t.gen = gen with
      | none => none
      | some t =>
          some ({ u with sleeping := u.sleeping.filter (· ≠ t) }, u.timers v = gen)
  | .store v session => some (u.storeLogin v session, u.history.version v + 1)
  | .remove v => some (u.rewrite v (u.rows.deleteWhere fun row => row.vault = v), ())
  | .sessionVaults => some (u, u.pending)
  | .markPaused => some ({ u with pausedForUpdate := true }, ())
  | .takePaused => some ({ u with pausedForUpdate := false }, u.pausedForUpdate)
  | .clearPaused =>
      some ({ u with
        pausedForUpdate := false
        history := { u.history with shutDown := true } }, ())
  | .setClosing closing => some ({ u with closing }, ())

/-- Perform a section at the time of the world, which is not before the last one and more
than half a day before the end of all dates. -/
def exec (q : Section) (u : Broker) (w : World) : Option (Broker × q.Answer) :=
  if u.clock ≤ w.now ∧ w.now ≤ lastMoment - OauthSession.maxRecordedLifetimeMs then
    { u with clock := w.now }.perform cfg w q
  else none

/-- The broker of an engine that has just started: only the stored logins are left. -/
def booted (rows : Keyed SessionRow.vault) (clock : ℤ) : Broker where
  rows
  clock
  closing := false
  pausedForUpdate := false
  held _ := false
  failures _ := none
  attempts _ := 0
  timers _ := 0
  lastAttempt _ := none
  sleeping := []
  history := ⟨fun _ => 0, fun _ => 0, fun _ => 0, [], [], false⟩

end Broker

end Wheel.Renewal
