import Wheel.Renewal.Broker

/-!
# Keeping a login fresh

`ensureFresh` renews a vault's login when less than the lead is left of it, and leaves a
timer behind for the next renewal. Timers, spawns and recoveries from a failed turn call
it; a sign-in stores a new login beside it and arms the timer itself; a boot arms the
timers of all the logins that are stored.
-/

namespace Wheel.Renewal

open Concurrency

inductive Op where
  | timer (vault : Uuid) (gen : ℕ)
  | spawn (vault : Uuid)
  | recover (vault : Uuid) (spawnedWith : Option Timestamp)
  | signIn (vault : Uuid) (captured : OauthSession)
  | boot
  | remove (vault : Uuid)
  | pauseTurns
  | resumeTurns
  | shutdown

inductive Reply where
  | fresh (r : Except String ℤ)
  | recovered (moved : Bool)
  | done

abbrev RenewM := ExceptT String (Program Section.Answer)

abbrev ExchangeM := ExceptT RefreshFailure (Program Section.Answer)

/-- Perform one section. -/
def ask (q : Section) : Program Section.Answer q.Answer := Program.perform q

/-- A login that was renewed: its expiry and its version. -/
structure Renewed where
  expires : ℤ
  version : ℕ

def warningPrefix : String := "credential refresh failed"

/-- The failure is the engine's own: what went wrong is known. -/
def failed (reason : String) (permanent : Bool) : RefreshFailure := ⟨reason, permanent, false⟩

section Bodies

variable (cfg : Config)

/-! ## Timers -/

def tooShort (name : String) (remaining : ℤ) : String :=
  warningPrefix ++ " for vault " ++ name ++ ": the login it was given expires in " ++
    toString (max remaining 0 / 1000) ++ "s, sooner than the renewal lead, so it is too soon to " ++
    "renew on a schedule; renewing only when an agent starts. Sign in again if agents keep stopping."

/-- Schedule the next renewal of a login, unless less than the lead is left of it. -/
def armRenewal (v : Uuid) (expires : ℤ) (login : ℕ) : Program Section.Answer Unit := do
  let now ← ask .now
  if expires - now < cfg.lead then
    let name ← ask (.name v)
    ask (.fail v ⟨tooShort name (expires - now), false, login⟩)
  else ask (.arm v (expires - cfg.lead))

/-! ## One exchange -/

/-- What the CLI left, once it is read and has passed the gate. -/
def accepted (prev next : OauthSession) (now : ℤ) : Except RefreshFailure Unit :=
  match checkRefresh prev next now with
  | .ok () => .ok ()
  | .error why =>
      .error ⟨"the renewed login was refused: " ++ why.text, why.isPermanent, !why.isPermanent⟩

/-- What a failed read of the store of the CLI becomes. -/
def readStore (left : Except String OauthSession) : Except RefreshFailure OauthSession :=
  left.mapError fun e => failed ("the renewed login could not be read: " ++ e) false

/-- The login that replaced the one that was being renewed. -/
def replacement (v : Uuid) : ExchangeM Renewed :=
  ExceptT.mk (ask (.session v) >>= fun read =>
    match read.login.toOption.join.bind OauthSession.expiresAt with
    | some expires => pure (.ok ⟨expires, read.version⟩)
    | none => pure (.error (failed "the replacement login records no expiry" false)))

def stored (v : Uuid) (renewedFrom : String) (next : OauthSession) : ExchangeM (Option ℕ) :=
  ExceptT.mk (ask (.replace v renewedFrom next) >>= fun
    | .ok wrote => pure (.ok wrote)
    | .error e => pure (.error (failed ("could not store the renewed login: " ++ e) false)))

/-- Write the renewed login, unless the vault was given another one meanwhile. -/
def writeBack (v : Uuid) (renewedFrom : String) (next : OauthSession) : ExchangeM Renewed := do
  let expires ← ExceptT.mk (pure
    (match next.expiresAt with
      | some e => .ok e
      | none => .error (failed "no expiry" true)))
  let wrote ← stored v renewedFrom next
  match wrote with
  | some version => pure ⟨expires, version⟩
  | none => replacement v

/-- Check what the CLI left, and hold its expiry to the ceiling. -/
def gate (prev next : OauthSession) : ExchangeM OauthSession := do
  let now ← ExceptT.lift (ask .now)
  ExceptT.mk (pure (accepted prev (next.carryForward prev) now))
  let ceiling ← ExceptT.lift (ask .now)
  pure ((next.carryForward prev).clampExpiry ceiling OauthSession.maxRecordedLifetimeMs)

/-- One exchange: the CLI renews in a directory of its own, the result passes the gate, and
it is written only if the vault still holds what it was renewed from. -/
def renew (v : Uuid) (prev : OauthSession) : ExchangeM Renewed := do
  let refresh ← ExceptT.mk (pure
    (match prev.refreshToken with
      | some token => .ok token
      | none => .error (failed "no refresh token" true)))
  let _ ← ExceptT.mk (ask (.begin v refresh))
  let left ← ExceptT.mk (ask (.outcome v refresh))
  let next ← ExceptT.mk (pure (readStore left))
  let next ← gate prev next
  writeBack v refresh next

/-! ## Failures -/

/-- How long agents run on, and what a person can do. -/
def warningText (name : String) (failure : RefreshFailure) (stillGoodUntil : Option ℤ) : String :=
  let until_ := match stillGoodUntil.bind millisToTimestamp with
    | some t => "agents keep running on the current login until " ++ cfg.displayTime t
    | none => "the current login has lapsed"
  let next := if failure.permanent then "sign in again and save to this vault"
    else "the engine will retry; sign in again if this persists"
  warningPrefix ++ " for vault " ++ name ++ ": " ++ failure.reason ++ "; " ++ until_ ++ "; " ++ next

def recordFailure (v : Uuid) (failure : RefreshFailure) (stillGoodUntil : Option ℤ) (login : ℕ) :
    Program Section.Answer String := do
  let name ← ask (.name v)
  let warning := warningText cfg name failure stillGoodUntil
  ask (.fail v ⟨warning, failure.permanent, login⟩)
  pure warning

/-- A failure that nothing could read is permanent after too many of its kind. -/
def capped (failure : RefreshFailure) (tries : ℕ) : RefreshFailure :=
  if !failure.permanent && decide (cfg.maxAttempts ≤ tries) then
    { failure with
      permanent := true
      reason := failure.reason ++ " (stopped retrying after " ++ toString tries ++
        " attempts nothing could read; starting an agent will try again)" }
  else failure

/-- What follows a failed exchange: a warning, and a later try while the login is good. -/
def afterFailure (v : Uuid) (failure : RefreshFailure) (login : ℕ) (expires now : ℤ)
    (forced : Bool) : RenewM ℤ := do
  let tries ← ExceptT.lift (if failure.ambiguous then ask (.countAttempt v) else pure 0)
  let failure := capped cfg failure tries
  let usable := decide (now < expires)
  let warning ← ExceptT.lift
    (recordFailure cfg v failure (if usable then some expires else none) login)
  let _ ← ExceptT.lift
    (if usable && !failure.permanent then ask (.arm v (now + cfg.retry)) else pure ())
  if usable && !forced then pure expires else throw warning

/-! ## Keeping a login fresh -/

/-- What follows an exchange that went well. -/
def afterSuccess (v : Uuid) (next : Renewed) : RenewM ℤ := do
  let _ ← ExceptT.lift (ask (.forgive v none))
  let _ ← ExceptT.lift (ask (.forget v))
  let _ ← ExceptT.lift (armRenewal cfg v next.expires next.version)
  pure next.expires

/-- Renew now, and leave word of how it went. -/
def exchange (v : Uuid) (session : OauthSession) (login : ℕ) (expires now : ℤ) (forced : Bool) :
    RenewM ℤ := do
  let _ ← ExceptT.lift (ask (.stamp v now))
  let renewed ← ExceptT.lift (renew v session).run
  match renewed with
  | .ok next => afterSuccess cfg v next
  | .error failure => afterFailure cfg v failure login expires now forced

/-- The part of a renewal that keeps a distance from the exchange before it. -/
def spaced (v : Uuid) (session : OauthSession) (login : ℕ) (expires now : ℤ) (forced : Bool) :
    RenewM ℤ := do
  let last ← ExceptT.lift (ask (.lastAttempt v))
  match last.filter fun t => decide (now - t < cfg.minInterval) with
  | some t => do
      let _ ← ExceptT.lift (ask (.arm v (t + cfg.minInterval)))
      if now < expires then pure expires
      else throw "a renewal for this login was just attempted; retrying shortly"
  | none => exchange cfg v session login expires now forced

/-- The vault is still on the generation that a renewal is asked for. -/
def stillOn (v : Uuid) (renewIfStill : Option (Option Timestamp)) : Program Section.Answer Bool :=
  match renewIfStill with
  | none => pure false
  | some g => ask (.generation v) >>= fun current => pure (decide (g = current.expiry))

/-- The login of a vault, if one is stored and can be read. -/
def storedLogin (v : Uuid) : RenewM (OauthSession × ℕ) :=
  ExceptT.mk (ask (.session v) >>= fun read =>
    match read.login with
    | .ok (some session) => pure (.ok (session, read.version))
    | .ok none => pure (.error "the vault no longer holds a login")
    | .error e => pure (.error ("the vault's stored login is unreadable: " ++ e)))

/-- What is done under the lock of the vault's lineage. -/
def locked (v : Uuid) (renewIfStill : Option (Option Timestamp)) : RenewM ℤ := do
  let read ← storedLogin v
  let expires ← ExceptT.mk (pure
    (match read.1.expiresAt with
      | some e => .ok e
      | none => .error "the vault's stored login records no expiry"))
  let now ← ExceptT.lift (ask .now)
  let forced ← ExceptT.lift (stillOn v renewIfStill)
  if !forced && decide ((cfg.lead : ℤ) < expires - now) then do
    let _ ← ExceptT.lift (armRenewal cfg v expires read.2)
    pure expires
  else if read.1.isRefreshable then spaced cfg v read.1 read.2 expires now forced
  else throw "the vault's stored login cannot be renewed (no refresh token or scopes)"

/-- Perform a program while the lock of the vault's lineage is held. -/
def underLock (v : Uuid) (p : RenewM ℤ) : RenewM ℤ :=
  ExceptT.mk (do
    ask (.acquire v)
    let r ← p.run
    ask (.release v)
    pure r)

/-- Make sure that more than the lead is left of the login of a vault, and answer its
expiry. `renewIfStill` forces a renewal while the vault is on that generation. -/
def ensureFresh (v : Uuid) (renewIfStill : Option (Option Timestamp)) : RenewM ℤ :=
  if cfg.harnessAuth = .apiKeyOnly then
    throw ("this project is api-key-only: a refreshable OAuth login is not " ++
      "permitted here, store an API key instead")
  else do
    let closing ← ExceptT.lift (ask .closing)
    if closing then throw "the engine is shutting down"
    else if cfg.hasVaultKey then underLock v (locked cfg v renewIfStill)
    else throw noVaultKey

/-! ## Who asks -/

/-- A timer that goes off, unless another one has superseded it. -/
def timer (v : Uuid) (gen : ℕ) : Program Section.Answer Reply := do
  let current ← ask (.wake v gen)
  if current then
    let _ ← (ensureFresh cfg v none).run
    pure .done
  else pure .done

/-- A turn failed on authentication: a newer login is taken, or the login is renewed once
when it is near its end. -/
def recoverFromAuthFailure (v : Uuid) (spawnedWith : Option Timestamp) :
    Program Section.Answer Reply := do
  let current ← ask (.generation v)
  if current.expiry ≠ spawnedWith then pure (.recovered true)
  else
    let now ← ask .now
    if spawnedWith.any fun t => decide (t - now ≤ cfg.lead) then
      let r ← (ensureFresh cfg v (some spawnedWith)).run
      pure (.recovered r.toBool)
    else pure (.recovered false)

/-- A sign-in has saved a login: earlier failures are forgotten and its renewal is
scheduled. -/
def sessionSaved (v : Uuid) (version : ℕ) : Program Section.Answer Unit := do
  ask (.forgive v (some version))
  ask (.forget v)
  let saved ← ask (.generation v)
  match saved.expiry with
  | none => pure ()
  | some t => armRenewal cfg v t saved.version

/-- A sign-in whose login is saved to a vault. -/
def signIn (v : Uuid) (captured : OauthSession) : Program Section.Answer Reply :=
  if cfg.harnessAuth = .apiKeyOnly then pure .done
  else if captured.isRefreshable && cfg.hasVaultKey then do
    let now ← ask .now
    let version ← ask
      (.store v (captured.clampExpiry now OauthSession.maxRecordedLifetimeMs))
    sessionSaved cfg v version
    pure .done
  else pure .done

/-- Arm the renewals of a list of logins. -/
def armEach : List Pending → Program Section.Answer Unit
  | [] => pure ()
  | p :: ps => do
      armRenewal cfg p.vault p.expires p.version
      armEach ps

/-- Arm a renewal for every vault that holds a login. -/
def armAllRefreshTimers : Program Section.Answer Unit :=
  if cfg.harnessAuth = .apiKeyOnly then pure ()
  else do
    let pending ← ask .sessionVaults
    armEach cfg pending.rows

/-- Stop starting turns, for an update. -/
def pauseTurns : Program Section.Answer Unit := do
  ask .markPaused
  ask (.setClosing true)

/-- Let turns start again, if it is an update that stopped them. -/
def resumeTurns : Program Section.Answer Unit := do
  let paused ← ask .takePaused
  if paused then ask (.setClosing false) else pure ()

def shutdown : Program Section.Answer Unit := do
  ask .clearPaused
  ask (.setClosing true)

def body : Op → Program Section.Answer Reply
  | .timer v gen => timer cfg v gen
  | .spawn v => do
      let r ← (ensureFresh cfg v none).run
      pure (.fresh r)
  | .recover v spawnedWith => recoverFromAuthFailure cfg v spawnedWith
  | .signIn v captured => signIn cfg v captured
  | .boot => do
      armAllRefreshTimers cfg
      pure .done
  | .remove v => do
      ask (.remove v)
      pure .done
  | .pauseTurns => do
      pauseTurns
      pure .done
  | .resumeTurns => do
      resumeTurns
      pure .done
  | .shutdown => do
      shutdown
      pure .done

def service : Service Broker Op Section.Answer Reply World where
  exec := Broker.exec cfg
  body := body cfg

end Bodies

abbrev RenewCall := Call Op Section.Answer Reply

abbrev Engine := Calls Broker Op Section.Answer Reply

/-- What happens to the engine: it starts anew, with nothing but the stored logins, or goes
on. -/
inductive Event where
  | boot
  | turn (t : Turn Op World)

section Steps

variable (cfg : Config)

/-- A start of the engine. Every call and all that was remembered is gone. -/
def start (rows : Keyed SessionRow.vault) (clock : ℤ) : Engine :=
  ⟨.booted rows clock, [(service cfg).call .boot]⟩

def Engine.next (s : Engine) : Event → Engine
  | .boot => start cfg s.shared.rows s.shared.clock
  | .turn t => Calls.step (service cfg) s t

end Steps

end Wheel.Renewal
