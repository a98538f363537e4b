import Wheel.Core.Name
import Wheel.Api.Auth
import Wheel.Concurrency.Program
import Wheel.Data.Keyed

/-!
# Members and invites

The tables of members and invites, the SQL statements on them, and the calls that
are made of these statements. Every statement is one atomic section, so between
two statements of a call the statements of every other call may fall.

What the schema declares is a field of the rows and of the database: a role is
one of the three, no two invites have one token hash, and no invite was used more
often than it may be.
-/

namespace Wheel.Api

inductive SqlError where
  | rowNotFound
  | other
  deriving DecidableEq, Repr

def ApiError.ofSql : SqlError → ApiError
  | .rowNotFound => .notFound
  | .other => .internal "database"

namespace Membership

/-! ## Tables -/

/-- The text of a role, which the schema checks. -/
structure Role where
  text : String
  check : text ∈ ["admin", "prompter", "guest"]
  deriving DecidableEq

def Role.ofText (text : String) : Option Role :=
  if h : text ∈ ["admin", "prompter", "guest"] then some ⟨text, h⟩ else none

/-- A row of `projects`. -/
structure Project where
  id : Uuid
  ownerId : String
  deriving DecidableEq

/-- A row of `project_members`. -/
structure MemberRow where
  projectId : Uuid
  userId : String
  role : Role
  invitedBy : Option String
  createdAt : ℕ
  updatedAt : ℕ
  revokedAt : Option ℕ
  deriving DecidableEq

def MemberRow.key (r : MemberRow) : Uuid × String := (r.projectId, r.userId)

/-- A row of `project_invites`. -/
structure InviteRow where
  id : Uuid
  projectId : Uuid
  role : Role
  tokenHash : String
  email : Option String
  createdBy : String
  createdAt : ℕ
  expiresAt : ℕ
  maxUses : ℕ
  uses : ℕ
  revokedAt : Option ℕ
  uses_le : uses ≤ maxUses
  deriving DecidableEq

/-- The database: its clock, and its tables. -/
structure Db where
  now : ℕ
  projects : Keyed Project.id
  members : Keyed MemberRow.key
  invites : Keyed InviteRow.id
  hashes : (invites.rows.map InviteRow.tokenHash).Nodup
  deriving DecidableEq

/-- What may be seen of an invite. -/
structure InviteInfo where
  id : Uuid
  projectId : Uuid
  role : String
  email : Option String
  createdBy : String
  createdAt : ℕ
  expiresAt : ℕ
  maxUses : ℕ
  uses : ℕ
  revokedAt : Option ℕ
  deriving DecidableEq

def InviteRow.info (r : InviteRow) : InviteInfo :=
  ⟨r.id, r.projectId, r.role.text, r.email, r.createdBy, r.createdAt, r.expiresAt, r.maxUses,
    r.uses, r.revokedAt⟩

/-- A member as it is shown. -/
structure Member where
  userId : String
  role : Tier
  invitedBy : Option String
  createdAt : ℕ
  updatedAt : ℕ
  deriving DecidableEq

def MemberRow.toMember (r : MemberRow) : Option Member :=
  (Tier.parse r.role.text).map fun role =>
    ⟨r.userId, role, r.invitedBy, r.createdAt, r.updatedAt⟩

/-- The row of a live member. -/
def Db.findMember (db : Db) (projectId : Uuid) (userId : String) : Option MemberRow :=
  (db.members.get? (projectId, userId)).filter fun r => r.revokedAt.isNone

/-- How many rows say that the membership was revoked. -/
def Db.countRevoked (db : Db) (projectId : Uuid) (userId : String) : ℕ :=
  db.members.rows.countP fun r =>
    r.projectId = projectId ∧ r.userId = userId ∧ r.revokedAt.isSome

/-- The row is neither revoked nor expired. -/
def InviteRow.isAlive (r : InviteRow) (now : ℕ) : Bool :=
  r.revokedAt.isNone && decide (now < r.expiresAt)

/-- The predicate under which an invite can be redeemed. -/
def InviteRow.usable (digest : String) (now : ℕ) (r : InviteRow) : Bool :=
  decide (r.tokenHash = digest) && r.isAlive now && decide (r.uses < r.maxUses)

def Db.usableInvite (db : Db) (digest : String) : Option InviteRow :=
  db.invites.rows.find? (InviteRow.usable digest db.now)

/-- Count one use. -/
def InviteRow.use (r : InviteRow) : InviteRow :=
  if h : r.uses < r.maxUses then { r with uses := r.uses + 1, uses_le := h } else r

theorem InviteRow.id_use (r : InviteRow) : r.use.id = r.id := by
  unfold use
  split <;> rfl

theorem InviteRow.tokenHash_use (r : InviteRow) : r.use.tokenHash = r.tokenHash := by
  unfold use
  split <;> rfl

/-- Rewrite the invites that meet `p`, by a rewriting that keeps ids and hashes. -/
def Db.updateInvites (db : Db) (p : InviteRow → Bool) (f : InviteRow → InviteRow)
    (hid : ∀ r, (f r).id = r.id) (hhash : ∀ r, (f r).tokenHash = r.tokenHash) : Db :=
  { db with
    invites := db.invites.updateWhere p f hid
    hashes := by
      rw [Keyed.rows_updateWhere, Keyed.map_key_ite hhash]
      exact db.hashes }

/-- `uses = uses + 1` on the invites that can be redeemed. -/
def Db.useInvite (db : Db) (digest : String) : Db :=
  db.updateInvites (InviteRow.usable digest db.now) InviteRow.use InviteRow.id_use
    InviteRow.tokenHash_use

/-- What a grant makes of a row that is there. -/
def MemberRow.regrant (role : Role) (invitedBy : String) (now : ℕ) (r : MemberRow) :
    MemberRow :=
  { r with role := role, invitedBy := some invitedBy, updatedAt := now, revokedAt := none }

theorem MemberRow.key_regrant (role : Role) (invitedBy : String) (now : ℕ) (r : MemberRow) :
    (r.regrant role invitedBy now).key = r.key := rfl

/-- `INSERT … ON CONFLICT DO UPDATE` of a member. -/
def Db.upsertMember (db : Db) (projectId : Uuid) (userId : String) (role : Role)
    (invitedBy : String) : Db :=
  match db.members.insert ⟨projectId, userId, role, some invitedBy, db.now, db.now, none⟩ with
  | some t => { db with members := t }
  | none =>
      { db with
        members := (db.members.modify (projectId, userId)
          (MemberRow.regrant role invitedBy db.now)
          (MemberRow.key_regrant role invitedBy db.now)) }

/-- What a revocation makes of a row. -/
def MemberRow.revoke (now : ℕ) (r : MemberRow) : MemberRow :=
  { r with revokedAt := some (r.revokedAt.getD now), updatedAt := now }

theorem MemberRow.key_revoke (now : ℕ) (r : MemberRow) : (r.revoke now).key = r.key := rfl

def MemberRow.isLive (projectId : Uuid) (userId : String) (r : MemberRow) : Bool :=
  decide (r.key = (projectId, userId)) && r.revokedAt.isNone

def Db.revokeMember (db : Db) (projectId : Uuid) (userId : String) : Db :=
  { db with
    members := (db.members.updateWhere (MemberRow.isLive projectId userId)
      (MemberRow.revoke db.now) (MemberRow.key_revoke db.now)) }

def InviteRow.revoke (now : ℕ) (r : InviteRow) : InviteRow :=
  { r with revokedAt := some (r.revokedAt.getD now) }

theorem InviteRow.id_revoke (now : ℕ) (r : InviteRow) : (r.revoke now).id = r.id := rfl

theorem InviteRow.tokenHash_revoke (now : ℕ) (r : InviteRow) :
    (r.revoke now).tokenHash = r.tokenHash := rfl

def InviteRow.isOf (id projectId : Uuid) (r : InviteRow) : Bool :=
  decide (r.id = id) && decide (r.projectId = projectId)

def Db.revokeInvite (db : Db) (id projectId : Uuid) : Db :=
  db.updateInvites (InviteRow.isOf id projectId) (InviteRow.revoke db.now)
    (InviteRow.id_revoke db.now) (InviteRow.tokenHash_revoke db.now)

/-! ## Statements -/

/-- What a new invite is stored with. -/
structure NewInvite where
  id : Uuid
  projectId : Uuid
  role : String
  tokenHash : String
  email : Option String
  createdBy : String
  ttlDays : ℕ
  maxUses : ℕ
  deriving DecidableEq

inductive Statement where
  | findInvite (digest : String)
  | selectProject (id : Uuid)
  | countRevoked (projectId : Uuid) (userId : String)
  | findMember (projectId : Uuid) (userId : String)
  | useInvite (digest : String)
  | upsertMember (projectId : Uuid) (userId : String) (role : String) (invitedBy : String)
  | revokeMember (projectId : Uuid) (userId : String)
  | insertInvite (r : NewInvite)
  | selectInvite (id : Uuid)
  | revokeInvite (id projectId : Uuid)
  | elapse (d : ℕ)
  deriving DecidableEq

/-- The rows a statement answers. -/
@[reducible] def Statement.Rows : Statement → Type
  | findInvite _ => Option (Uuid × String × Option String)
  | selectProject _ => Project
  | countRevoked _ _ => ℕ
  | findMember _ _ => Option MemberRow
  | useInvite _ => Option Uuid
  | upsertMember _ _ _ _ => Unit
  | revokeMember _ _ => ℕ
  | insertInvite _ => Unit
  | selectInvite _ => InviteInfo
  | revokeInvite _ _ => ℕ
  | elapse _ => Unit

abbrev Statement.Answer (q : Statement) : Type := Except SqlError q.Rows

/-- A day on the clock of the database. -/
def dayMs : ℕ := 86400000

/-- The row of a new invite, if the schema admits it. -/
def NewInvite.toRow (r : NewInvite) (now : ℕ) : Option InviteRow :=
  (Role.ofText r.role).map fun role =>
    { id := r.id, projectId := r.projectId, role, tokenHash := r.tokenHash, email := r.email
      createdBy := r.createdBy, createdAt := now, expiresAt := now + r.ttlDays * dayMs
      maxUses := r.maxUses, uses := 0, revokedAt := none, uses_le := Nat.zero_le _ }

/-- Store a new invite; the id and the token hash are unique. -/
def Db.addInvite (db : Db) (r : InviteRow) : Option Db :=
  if h : r.tokenHash ∈ db.invites.rows.map InviteRow.tokenHash then none
  else
    match hr : db.invites.insert r with
    | some t =>
        some { db with
          invites := t
          hashes := by
            rw [(Keyed.insert_eq_some_iff.mp hr).2, List.map_append, List.map_singleton,
              List.nodup_append]
            refine ⟨db.hashes, List.nodup_singleton _, ?_⟩
            intro a ha b hb
            rw [List.mem_singleton.mp hb]
            rintro rfl
            exact h ha }
    | none => none

/-- `INSERT INTO project_invites`: the schema checks the project, the role and the
number of uses. -/
def Db.insertInvite (db : Db) (r : NewInvite) : Option Db :=
  if (db.projects.get? r.projectId).isNone || r.maxUses = 0 then none
  else (r.toRow db.now).bind db.addInvite

/-- The tables after a statement, and what it answers. -/
def Db.exec (db : Db) : (q : Statement) → Db × q.Answer
  | .findInvite digest =>
      (db, .ok ((db.usableInvite digest).map fun r => (r.projectId, r.role.text, r.email)))
  | .selectProject id =>
      (db, match db.projects.get? id with
        | some p => .ok p
        | none => .error .rowNotFound)
  | .countRevoked p u => (db, .ok (db.countRevoked p u))
  | .findMember p u => (db, .ok (db.findMember p u))
  | .useInvite digest => (db.useInvite digest, .ok ((db.usableInvite digest).map InviteRow.id))
  | .upsertMember p u role by' =>
      match db.projects.get? p, Role.ofText role with
      | some _, some role => (db.upsertMember p u role by', .ok ())
      | _, _ => (db, .error .other)
  | .revokeMember p u =>
      (db.revokeMember p u, .ok (db.members.rows.countP (MemberRow.isLive p u)))
  | .insertInvite r =>
      match db.insertInvite r with
      | some db' => (db', .ok ())
      | none => (db, .error .other)
  | .selectInvite id =>
      (db, match db.invites.get? id with
        | some r => .ok r.info
        | none => .error .rowNotFound)
  | .revokeInvite id p =>
      (db.revokeInvite id p, .ok (db.invites.rows.countP (InviteRow.isOf id p)))
  | .elapse d => ({ db with now := db.now + d }, .ok ())

/-- What may happen to a statement: it is executed, or the database cannot be
reached and nothing is. -/
inductive Outcome where
  | runs
  | fails
  deriving DecidableEq

/-- A statement under an outcome. -/
def exec (q : Statement) (db : Db) : Outcome → Option (Db × q.Answer)
  | .runs => some (db.exec q)
  | .fails => some (db, .error .other)

/-! ## Calls -/

/-- A call that may fail. -/
abbrev ApiM := ExceptT ApiError (Concurrency.Program Statement.Answer)

/-- Perform a statement; an error of the database ends the call. -/
def sql (q : Statement) : ApiM q.Rows :=
  ExceptT.mk do
    match ← Concurrency.Program.perform q with
    | .ok a => pure (.ok a)
    | .error e => pure (.error (.ofSql e))

def find (projectId : Uuid) (userId : String) : ApiM (Option Member) := do
  let row ← sql (.findMember projectId userId)
  return row.bind MemberRow.toMember

def wasRevoked (projectId : Uuid) (userId : String) : ApiM Bool := do
  let n : ℕ ← sql (.countRevoked projectId userId)
  return decide (0 < n)

/-- Grant or change a member's tier; a row that was revoked is revived. -/
def grant (project : Project) (actor userId : String) (tier : Tier) : ApiM Member := do
  match Principal.validate userId with
  | .error e => throw (.badRequest ("member id is not a usable principal: " ++ e))
  | .ok _ =>
      if userId = project.ownerId then
        throw (.conflict "the project's creator is always an admin and cannot be given a role")
      sql (.upsertMember project.id userId tier.asStr actor)
      match ← find project.id userId with
      | some m => return m
      | none => throw (.internal "granted membership vanished")

/-- End a membership. -/
def revoke (projectId : Uuid) (userId : String) : ApiM Bool := do
  let changed : ℕ ← sql (.revokeMember projectId userId)
  return decide (0 < changed)

def isControl (c : Char) : Bool := c.toNat < 32 || (127 ≤ c.toNat && c.toNat < 160)

def validateEmail (raw : String) : Except String String :=
  let email := Text.trim raw.toList
  if email = [] then .error "email must not be empty"
  else if 320 < email.length then .error "email is too long"
  else
    match Text.splitFirst ['@'] email with
    | none => .error "email must contain @"
    | some (name, domain) =>
        if name = [] ∨ domain = [] ∨ '.' ∉ domain ∨ domain.head? = some '.' ∨
            domain.getLast? = some '.' then
          .error "email is not a valid address"
        else if email.any fun c => Text.isSpace c || isControl c then
          .error "email must not contain whitespace or control characters"
        else .ok (String.ofList (email.map Char.toLower))

def defaultTtlDays : ℤ := 7

/-- The address an invite is locked to, if the text names one. -/
def lockedTo (email : Option String) : Except ApiError (Option String) :=
  match (email.map fun e => Text.trim e.toList).filter (· ≠ []) with
  | some e =>
      match validateEmail (String.ofList e) with
      | .ok e => .ok (some e)
      | .error e => .error (.badRequest e)
  | none => .ok none

section Invites

variable (inviteDigest : String → String)

/-- Issue an invite under a new id and a new token. -/
def createInvite (projectId : Uuid) (createdBy : String) (tier : Tier) (email : Option String)
    (ttlDays maxUses : Option ℤ) (id : Uuid) (token : String) : ApiM (InviteInfo × String) := do
  let ttl := ttlDays.getD defaultTtlDays
  if ¬ (1 ≤ ttl ∧ ttl ≤ 90) then
    throw (.badRequest "invite lifetime must be between 1 and 90 days")
  let maxUses := maxUses.getD 1
  if ¬ (1 ≤ maxUses ∧ maxUses ≤ 100) then
    throw (.badRequest "invite use count must be between 1 and 100")
  let email ← ExceptT.mk (pure (lockedTo email))
  sql (.insertInvite ⟨id, projectId, tier.asStr, inviteDigest token, email, createdBy,
    ttl.toNat, maxUses.toNat⟩)
  let info ← sql (.selectInvite id)
  return (info, token)

def revokeInvite (projectId id : Uuid) : ApiM Bool := do
  let n : ℕ ← sql (.revokeInvite id projectId)
  return decide (0 < n)

/-- Unknown, expired, revoked and exhausted are one answer. -/
def unusable : ApiError := .unauthorized "invite is unknown, expired, revoked, or fully used"

/-- The account's address is not the one the invite is locked to. -/
def isLockedOut (lockedEmail userEmail : Option String) : Bool :=
  match lockedEmail with
  | none => false
  | some want =>
      !userEmail.any fun have' => have'.toList.map Char.toLower = want.toList.map Char.toLower

/-- The end of `accept`: count the use, then grant. -/
def redeem (digest : String) (project : Project) (userId : String) (tier : Tier) :
    ApiM (Uuid × Tier) := do
  match ← sql (.useInvite digest) with
  | none => throw unusable
  | some _ =>
      let _ ← grant project "invite" userId tier
      return (project.id, tier)

/-- Redeem an invite for the calling principal. -/
def accept (token : String) (user : Principal) (userEmail : Option String) :
    ApiM (Uuid × Tier) := do
  match ← sql (.findInvite (inviteDigest token)) with
  | none => throw unusable
  | some (projectId, role, lockedEmail) =>
      match Tier.parse role with
      | none => throw (.unauthorized "invite has an unknown role")
      | some tier =>
          if isLockedOut lockedEmail userEmail then
            throw (.unauthorized "invite is locked to another address")
          let project ← sql (.selectProject projectId)
          -- the creator's admin comes from `projects`, so nothing is spent
          if project.ownerId = user.id then return (projectId, .admin)
          if ← wasRevoked projectId user.id then
            throw (.unauthorized
              "membership of this project was revoked; an admin must grant it again")
          match ← find projectId user.id with
          | some existing =>
              if tier ≤ existing.role then return (projectId, existing.role)
              redeem (inviteDigest token) project user.id tier
          | none => redeem (inviteDigest token) project user.id tier

/-- What can be called, and the clock of the database that moves on. -/
inductive Op where
  | createInvite (projectId : Uuid) (createdBy : String) (tier : Tier) (email : Option String)
      (ttlDays maxUses : Option ℤ) (id : Uuid) (token : String)
  | accept (token : String) (user : Principal) (userEmail : Option String)
  | grant (project : Project) (actor userId : String) (tier : Tier)
  | revoke (projectId : Uuid) (userId : String)
  | revokeInvite (projectId id : Uuid)
  | elapse (d : ℕ)

inductive Reply where
  | issued (info : InviteInfo) (token : String)
  | accepted (projectId : Uuid) (tier : Tier)
  | granted (m : Member)
  | changed (b : Bool)
  | elapsed
  deriving DecidableEq

def Op.body : Op → ApiM Reply
  | .createInvite p by' tier email ttl uses id token => do
      let r ← Membership.createInvite inviteDigest p by' tier email ttl uses id token
      return .issued r.1 r.2
  | .accept token user email => do
      let r ← Membership.accept inviteDigest token user email
      return .accepted r.1 r.2
  | .grant project actor user tier => .granted <$> Membership.grant project actor user tier
  | .revoke p u => .changed <$> Membership.revoke p u
  | .revokeInvite p id => .changed <$> Membership.revokeInvite p id
  | .elapse d => do
      sql (.elapse d)
      return .elapsed

/-- The service: its statements, and the programs of its calls. -/
def service : Concurrency.Service Db Op Statement.Answer (Except ApiError Reply) Outcome where
  exec := exec
  body op := (op.body inviteDigest).run

end Invites

end Membership

end Wheel.Api
