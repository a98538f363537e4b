import Wheel.Api.Membership
import Wheel.Data.Recursive

/-!
# Sessions and API tokens

The calls that open a session, mint a token, check either of them, and end them. A call
checks a password or a credential in one statement and writes what follows from it in
another one, so every other call may write in between.

Two things are kept that the program does not read: how often the password of an account
was changed, and under which of these passwords each session was opened.
-/

namespace Wheel.Api.Credentials

open Concurrency Wheel.Api.Membership

/-! ## Tables -/

/-- A row of `users`, and how often its password was changed. -/
structure UserRow where
  id : Uuid
  email : String
  passwordHash : String
  changes : ℕ
  deriving DecidableEq

structure SessionRow where
  id : Uuid
  userId : Uuid
  expiresAt : ℕ
  deriving DecidableEq

structure TokenRow where
  id : Uuid
  userId : String
  name : String
  tokenHash : String
  mintedBy : Option Uuid
  sessionId : Option Uuid
  createdAt : ℕ
  lastUsedAt : Option ℕ
  revokedAt : Option ℕ
  deriving DecidableEq

/-- A session that was opened: how often the password had been changed when it was checked,
and when the session was opened. -/
structure Opened where
  id : Uuid
  userId : Uuid
  checked : ℕ
  born : ℕ
  deriving DecidableEq

structure World where
  users : Keyed UserRow.id
  sessions : Keyed SessionRow.id
  tokens : Keyed TokenRow.id
  /-- Every session that was ever opened. -/
  opened : Keyed Opened.id

def World.empty : World := ⟨Keyed.empty, Keyed.empty, Keyed.empty, Keyed.empty⟩

/-! ## Sections -/

/-- Who a live token speaks for, and which token it was. -/
structure Verified where
  userId : String
  tokenId : Uuid
  deriving DecidableEq

inductive AuthError where
  | api (e : ApiError)
  | rateLimited
  deriving DecidableEq

inductive Op where
  /-- Count an attempt of whoever is limited. -/
  | limit
  | userByEmail (email : String)
  | userById (id : Uuid)
  | insertUser (row : UserRow)
  | insertSession (row : SessionRow) (checked : ℕ)
  | sessionById (id : Uuid)
  | deleteSession (id : Uuid)
  | sweep
  /-- The transaction of a password change. -/
  | setPassword (id : Uuid) (hash : String)
  | insertToken (id : Uuid) (userId name tokenHash : String) (mintedBy sessionId : Option Uuid)
  | verifyToken (tokenHash : String)
  | revokeToken (id : Uuid) (owner : Option String)
  deriving DecidableEq

/-- What a section answers; a user is not inserted when its email is taken. -/
@[reducible] def Op.Answer : Op → Type
  | .limit => Except AuthError Unit
  | .userByEmail _ => Except SqlError (Option UserRow)
  | .userById _ => Except SqlError UserRow
  | .insertUser _ => Except SqlError (Option UserRow)
  | .sessionById _ => Except SqlError (Option Uuid)
  | .insertSession _ _ | .deleteSession _ | .sweep | .setPassword _ _ => Except SqlError Unit
  | .insertToken _ _ _ _ _ _ => Except SqlError ℕ
  | .verifyToken _ => Except SqlError (Option Verified)
  | .revokeToken _ _ => Except SqlError Bool

/-- The clock of the database, whether a statement fails, and whether a limit is reached. -/
structure Oracle where
  now : ℕ := 0
  fails : Bool := false
  limited : Bool := false
  deriving DecidableEq

namespace World

variable (w : World)

/-- How often the password of an account was changed. -/
def changes (id : Uuid) : ℕ := (w.users.get? id).elim 0 UserRow.changes

/-- A statement that may fail, and writes nothing then. -/
def statement {α : Type} (o : Oracle) (w' : World) (a : α) : World × Except SqlError α :=
  if o.fails then (w, .error .other) else (w', .ok a)

/-- The account of a session that has not expired. -/
def liveSession (now : ℕ) (id : Uuid) : Option Uuid :=
  ((w.sessions.get? id).filter fun r => now < r.expiresAt).map SessionRow.userId

def insertUser (row : UserRow) : Option World :=
  if w.users.rows.any fun r => r.email = row.email then none
  else (w.users.insert { row with changes := 0 }).map fun users => { w with users }

/-- Insert a session; an id is given to one session only. -/
def insertSession (row : SessionRow) (checked : ℕ) : Option World :=
  (w.opened.insert ⟨row.id, row.userId, checked, w.changes row.userId⟩).bind fun opened =>
    (w.sessions.insert row).map fun sessions => { w with sessions, opened }

def deleteSession (id : Uuid) : World :=
  { w with sessions := w.sessions.deleteWhere fun r => r.id = id }

def sweep (now : ℕ) : World :=
  { w with sessions := w.sessions.deleteWhere fun r => r.expiresAt < now }

/-- The token is minted by the other one. -/
def mints (parent child : TokenRow) : Bool := child.mintedBy = some parent.id

/-- Some tokens, and all that were minted by them, transitively. -/
def family (p : TokenRow → Bool) : List TokenRow :=
  Recursive.answer w.tokens.rows mints (w.tokens.rows.filter p)

/-- A token and the tokens it was minted by, transitively. -/
def chain (tokenHash : String) : List TokenRow :=
  Recursive.answer w.tokens.rows (fun child parent => mints parent child)
    (w.tokens.rows.filter fun r => r.tokenHash = tokenHash)

/-- Revoke a family; a token that is revoked keeps the first time. -/
def revokeFamily (now : ℕ) (p : TokenRow → Bool) : World :=
  { w with
    tokens := w.tokens.updateWhere (fun r => decide (r.id ∈ (w.family p).map TokenRow.id))
      (fun r => { r with revokedAt := some (r.revokedAt.getD now) }) (fun _ => rfl) }

/-- Set the password, and end every session of the account and every token its sessions
minted. -/
def setPassword (now : ℕ) (id : Uuid) (hash : String) : World :=
  let w := { w with
    users := w.users.modify id
      (fun r => { r with passwordHash := hash, changes := r.changes + 1 }) (fun _ => rfl)
    sessions := w.sessions.deleteWhere fun r => r.userId = id }
  w.revokeFamily now fun r => r.userId = id.display ∧ r.sessionId.isSome

/-- Insert a token, unless its id or its hash is taken. -/
def insertToken (row : TokenRow) : Option World :=
  if w.tokens.rows.any fun r => r.tokenHash = row.tokenHash then none
  else (w.tokens.insert row).map fun tokens => { w with tokens }

/-- The token of a hash, if it is live: no token of its chain is revoked. -/
def liveToken (tokenHash : String) : Option Verified :=
  if (w.chain tokenHash).any fun r => r.revokedAt.isSome then none
  else (w.tokens.rows.find? fun r => r.tokenHash = tokenHash).map fun r => ⟨r.userId, r.id⟩

/-- Check a token, and stamp it as used if it is live. -/
def verifyToken (now : ℕ) (tokenHash : String) : World :=
  if (w.liveToken tokenHash).isSome then
    { w with
      tokens := w.tokens.updateWhere (fun r => r.tokenHash = tokenHash)
        (fun r => { r with lastUsedAt := some now }) (fun _ => rfl) }
  else w

/-- A token, confined to those of an owner when one is given. -/
def scope (id : Uuid) (owner : Option String) (r : TokenRow) : Bool :=
  decide (r.id = id) && owner.all fun owner => r.userId = owner

/-- A section. A new session has an id that no session had. -/
def exec (o : Oracle) : (op : Op) → Option (World × op.Answer)
  | .limit =>
      some (w,
        if o.fails then .error (.api (.ofSql .other))
        else if o.limited then .error .rateLimited
        else .ok ())
  | .userByEmail email => some (w.statement o w (w.users.rows.find? fun r => r.email = email))
  | .userById id =>
      some (w, match w.users.get? id with
        | some r => if o.fails then .error .other else .ok r
        | none => .error (if o.fails then .other else .rowNotFound))
  | .insertUser row =>
      some (match w.insertUser row with
        | some w' => w.statement o w' (some { row with changes := 0 })
        | none => w.statement o w none)
  | .insertSession row checked =>
      if o.fails then some (w, .error .other)
      else (w.insertSession row checked).map fun w' => (w', .ok ())
  | .sessionById id => some (w.statement o w (w.liveSession o.now id))
  | .deleteSession id => some (w.statement o (w.deleteSession id) ())
  | .sweep => some (w.statement o (w.sweep o.now) ())
  | .setPassword id hash => some (w.statement o (w.setPassword o.now id hash) ())
  | .insertToken id userId name tokenHash mintedBy sessionId =>
      some (match w.insertToken
          ⟨id, userId, name, tokenHash, mintedBy, sessionId, o.now, none, none⟩ with
        | some w' => w.statement o w' o.now
        | none => (w, .error .other))
  | .verifyToken tokenHash =>
      some (w.statement o (w.verifyToken o.now tokenHash) (w.liveToken tokenHash))
  | .revokeToken id owner =>
      some (w.statement o (w.revokeFamily o.now (scope id owner))
        (w.tokens.rows.any (scope id owner)))

end World

/-! ## Credentials -/

/-- What a signed session token says. -/
structure Claims where
  sub : String
  iss : String
  exp : ℤ
  nbf : ℤ
  sid : String
  deriving DecidableEq

/-- The deployment, and the libraries for passwords, digests and signed tokens. -/
structure Config where
  isLocal : Bool
  signupClosed : Bool
  publicBaseUrl : String
  hashPassword : (salt password : String) → Option String
  verifyPassword : (password encoded : String) → Bool
  digest : String → String
  encode : Claims → Option String
  /-- The claims of a token whose signature and issuer are right, at a clock reading when
  its times are checked. -/
  decode : Option ℤ → String → Option Claims
  parseUuid : String → Option Uuid
  /-- The subject of a token of the identity provider. -/
  provider : String → Option String

abbrev Prog (α : Type) := Program Op.Answer α

abbrev Step (α : Type) := ExceptT AuthError (Program Op.Answer) α

/-- One section. -/
def ask (op : Op) : Prog op.Answer := Program.perform op

/-- A statement whose failure ends the call. -/
def sql {α : Type} (x : Prog (Except SqlError α)) : Step α :=
  ExceptT.mk (x >>= fun
    | .ok a => pure (.ok a)
    | .error e => pure (.error (.api (.ofSql e))))

def unauthorized {α : Type} (reason : String) : Step α := throw (.api (.unauthorized reason))

def badRequest {α : Type} (reason : String) : Step α := throw (.api (.badRequest reason))

/-- How a request proved who it is. -/
inductive Credential where
  | session (id : Option Uuid)
  | apiToken (id : Uuid)
  | wsTicket
  deriving DecidableEq

structure AuthUser where
  userId : String
  credential : Credential
  deriving DecidableEq

structure LiveSession where
  userId : String
  sessionId : Uuid
  deriving DecidableEq

def isApiToken (token : String) : Bool := "wht_".toList.isPrefixOf token.toList

variable (cfg : Config)

/-- Signature and claims are checked first, then the row of the session. -/
def verifySession (clock : ℤ) (token : String) : Step LiveSession :=
  match cfg.decode (some clock) token with
  | none => unauthorized "invalid session token"
  | some claims =>
      match cfg.parseUuid claims.sid with
      | none => unauthorized "session id is not a uuid"
      | some sid => do
          let live ← sql (ask (.sessionById sid))
          if live.map Uuid.display = some claims.sub then pure ⟨claims.sub, sid⟩
          else unauthorized "session is no longer valid"

/-- The subject a live token belongs to. -/
def verify (token : String) : Step Verified := do
  match ← sql (ask (.verifyToken (cfg.digest token))) with
  | some v => pure v
  | none => unauthorized "api token is unknown or revoked"

/-- Whoever presents the token: an API token, a local session, or a login at the identity
provider. -/
def authUser (clock : ℤ) : Option String → Step AuthUser
  | none => unauthorized "no bearer token presented"
  | some token =>
      if isApiToken token then do
        let v ← verify cfg token
        pure ⟨v.userId, .apiToken v.tokenId⟩
      else if cfg.isLocal then do
        let live ← verifySession cfg clock token
        pure ⟨live.userId, .session (some live.sessionId)⟩
      else
        match cfg.provider token with
        | some userId => pure ⟨userId, .session none⟩
        | none => unauthorized "invalid token"

/-! ## The calls -/

def minPasswordLen : ℕ := 10

def maxPasswordLen : ℕ := 1024

def sessionTtl : ℕ := 7 * 24 * 60 * 60

def validatePassword (password : String) : Except String Unit :=
  if password.length < minPasswordLen then
    .error ("password must be at least " ++ toString minPasswordLen ++ " characters")
  else if maxPasswordLen < password.length then
    .error ("password must be at most " ++ toString maxPasswordLen ++ " characters")
  else .ok ()

def maxNameLen : ℕ := 64

def validateName (raw : String) : Except String String :=
  let name := Text.trim raw.toList
  if name.isEmpty then .error "token name must not be empty"
  else if maxNameLen < name.length then
    .error ("token name must be at most " ++ toString maxNameLen ++ " characters")
  else if name.any isControl then .error "token name must not contain control characters"
  else .ok (String.ofList name)

/-- What was answered. -/
inductive Response where
  | session (token : String) (expiresAt : ℕ) (user : Uuid)
  | user (user : AuthUser)
  | token (id : Uuid) (name token : String) (createdAt : ℕ)
  | noContent
  deriving DecidableEq

/-- A session for an account whose password was just checked. -/
def issueSession (clock : ℕ) (sid : Uuid) (user : UserRow) : Step Response := do
  let expiresAt := clock + sessionTtl
  sql (ask (.insertSession ⟨sid, user.id, expiresAt⟩ user.changes))
  match cfg.encode ⟨user.id.display, cfg.publicBaseUrl, expiresAt, (clock : ℤ) - 60, sid.display⟩ with
  | some token => pure (.session token expiresAt user.id)
  | none => throw (.api (.internal "signing session"))

/-- The account of an email and a password. An email that is no email, one that no account
has, a statement that fails and a wrong password are one answer. -/
def authenticate (email password : String) : Prog (Option UserRow) :=
  match validateEmail email with
  | .error _ => .done none
  | .ok email =>
      ask (.userByEmail email) >>= fun
        | .ok (some user) =>
            .done (if cfg.verifyPassword password user.passwordHash then some user else none)
        | _ => .done none

def requireLocal : Step Unit := if cfg.isLocal then pure () else throw (.api .notFound)

def limit : Step Unit := ExceptT.mk (ask .limit)

def login (clock : ℕ) (sid : Uuid) (email password : String) : Step Response := do
  requireLocal cfg
  limit
  match ← ExceptT.lift (authenticate cfg email password) with
  | none => unauthorized "login failed"
  | some user => issueSession cfg clock sid user

def createUser (id : Uuid) (salt email password : String) : Step UserRow :=
  match validateEmail email, validatePassword password with
  | .error reason, _ => badRequest reason
  | _, .error reason => badRequest reason
  | .ok email, .ok () =>
      match cfg.hashPassword salt password with
      | none => throw (.api (.internal "hashing password"))
      | some hash => do
          match ← sql (ask (.insertUser ⟨id, email, hash, 0⟩)) with
          | some user => pure user
          | none => throw (.api (.conflict "an account with that email already exists"))

def signup (clock : ℕ) (id sid : Uuid) (salt email password : String) : Step Response := do
  requireLocal cfg
  if cfg.signupClosed then throw (.api (.forbidden "signup is closed"))
  else do
    limit
    let user ← createUser cfg id salt email password
    issueSession cfg clock sid user

def logout (presented : Option String) : Step Response := do
  requireLocal cfg
  match (presented.bind (cfg.decode none)).bind fun claims => cfg.parseUuid claims.sid with
  | some sid => do
      sql (ask (.deleteSession sid))
      pure .noContent
  | none => pure .noContent

/-- The password of an account is changed by whoever knows the current one. -/
def setNewPassword (id : Uuid) (salt current new : String) : Step Unit :=
  match validatePassword new with
  | .error reason => badRequest reason
  | .ok () => do
      let row ← sql (ask (.userById id))
      if cfg.verifyPassword current row.passwordHash then
        match cfg.hashPassword salt new with
        | none => throw (.api (.internal "hashing password"))
        | some hash => sql (ask (.setPassword id hash))
      else unauthorized "current password did not match"

def changePassword (clock : ℤ) (presented : Option String) (salt current new : String) :
    Step Response := do
  let user ← authUser cfg clock presented
  requireLocal cfg
  match cfg.parseUuid user.userId with
  | none => unauthorized "subject is not a local user id"
  | some id => do
      setNewPassword cfg id salt current new
      pure .noContent

/-- What mints a token. -/
inductive Mint where
  | operator
  | session (id : Option Uuid)
  | token (id : Uuid)
  deriving DecidableEq

def Mint.parent : Mint → Option Uuid
  | .token id => some id
  | _ => none

def Mint.sessionId : Mint → Option Uuid
  | .session id => id
  | _ => none

def issue (userId name : String) (mint : Mint) (id : Uuid) (token : String) : Step Response :=
  match validateName name with
  | .error reason => badRequest reason
  | .ok name => do
      let createdAt ← sql
        (ask (.insertToken id userId name (cfg.digest token) mint.parent mint.sessionId))
      pure (.token id name token createdAt)

/-- The credential of a request mints the token. -/
def create (clock : ℤ) (presented : Option String) (name : String) (id : Uuid) (token : String) :
    Step Response := do
  let user ← authUser cfg clock presented
  limit
  match user.credential with
  | .apiToken parent => issue cfg user.userId name (.token parent) id token
  | .session session => issue cfg user.userId name (.session session) id token
  | .wsTicket => throw (.api (.forbidden "a websocket ticket may not mint API tokens"))

/-- Revoke a token and its family. -/
def revoke (id : Uuid) (owner : Option String) : Step Response := do
  if ← sql (ask (.revokeToken id owner)) then pure .noContent
  else throw (.api .notFound)

def revokeOwn (clock : ℤ) (presented : Option String) (id : String) : Step Response := do
  let user ← authUser cfg clock presented
  match cfg.parseUuid id with
  | some id => revoke id (some user.userId)
  | none => throw (.api .notFound)

/-- The calls, each with the clock of the service, and with what it draws at random. -/
inductive Request where
  | signup (clock : ℕ) (id sid : Uuid) (salt email password : String)
  | login (clock : ℕ) (sid : Uuid) (email password : String)
  | logout (presented : Option String)
  | authenticated (clock : ℤ) (presented : Option String)
  | changePassword (clock : ℤ) (presented : Option String) (salt current new : String)
  | mint (clock : ℤ) (presented : Option String) (name : String) (id : Uuid) (token : String)
  | mintAsOperator (userId name : String) (id : Uuid) (token : String)
  | revoke (clock : ℤ) (presented : Option String) (id : String)
  | revokeAsOperator (id : Uuid)
  | sweep
  deriving DecidableEq

abbrev Reply := Except AuthError Response

def Request.steps : Request → Step Response
  | .signup clock id sid salt email password =>
      Credentials.signup cfg clock id sid salt email password
  | .login clock sid email password => Credentials.login cfg clock sid email password
  | .logout presented => Credentials.logout cfg presented
  | .authenticated clock presented => Response.user <$> authUser cfg clock presented
  | .changePassword clock presented salt current new =>
      Credentials.changePassword cfg clock presented salt current new
  | .mint clock presented name id token => create cfg clock presented name id token
  | .mintAsOperator userId name id token => issue cfg userId name .operator id token
  | .revoke clock presented id => revokeOwn cfg clock presented id
  | .revokeAsOperator id => Credentials.revoke id none
  | .sweep => do
      sql (ask .sweep)
      pure .noContent

def service : Service World Request Op.Answer Reply Oracle where
  exec op w o := w.exec o op
  body request := (request.steps cfg).run

abbrev State := Calls World Request Op.Answer Reply

abbrev Event := Turn Request Oracle

end Wheel.Api.Credentials
