import Mathlib
import Wheel.Api.Membership
import Wheel.Host.Store

/-!
# The life of a project

The calls that create, start, stop, restart and destroy a project, cut at the awaits. The
row of a project is in the store of the API, its record in the store of the host, and a
call updates them one after the other. Every statement may fail, and every call to the
host may fail before or after it did its work.
-/

namespace Wheel.Api.Projects

open Concurrency Wheel.Api.Membership

inductive ProjectStatus where
  | stopped
  | starting
  | running
  | error
  deriving DecidableEq

/-- A row of `projects`, with the secrets that are stored beside it. -/
structure Row where
  id : Uuid
  ownerId : String
  name : String
  status : ProjectStatus
  engineSecret : String
  vaultKey : String
  deriving DecidableEq

/-- Both stores, and the ids that were ever given to a project. -/
structure World where
  rows : Keyed Row.id
  host : Host.Store
  used : List Uuid

def World.empty : World := ⟨Keyed.empty, Host.Store.empty, []⟩

inductive ProjectError where
  | api (e : ApiError)
  | insufficientStorage
  deriving DecidableEq

def ProjectError.ofSql (e : SqlError) : ProjectError := .api (.ofSql e)

/-- What the host answers to a start. -/
inductive Started where
  | ok
  | outOfDisk
  | failed
  deriving DecidableEq

inductive Op where
  | countOwned (owner : String)
  | insert (row : Row)
  | member (id : Uuid) (user : String)
  | secrets (id : Uuid)
  | setStatus (id : Uuid) (status : ProjectStatus)
  | reload (id : Uuid)
  | deleteRow (id : Uuid)
  | hostPut (id : Uuid) (engineSecret vaultKey : String)
  | hostStart (id : Uuid)
  | hostStop (id : Uuid)
  | hostRestart (id : Uuid)
  | hostStatus (id : Uuid)
  | hostDestroy (id : Uuid)
  deriving DecidableEq

@[reducible] def Op.Answer : Op → Type
  | .countOwned _ => Except SqlError ℕ
  | .insert _ => Except SqlError Row
  | .member _ _ => Except ProjectError Tier
  | .secrets _ => Except ProjectError (String × String)
  | .setStatus _ _ => Except SqlError Unit
  | .reload _ => Except SqlError Row
  | .deleteRow _ => Except SqlError Unit
  | .hostStart _ => Started
  | .hostStatus _ => Option ProjectStatus
  | .hostPut _ _ _ | .hostStop _ | .hostRestart _ | .hostDestroy _ => Bool

/-- What a section learns from outside: whether a statement fails, which tier the caller
has, whether the stored secrets can be read, whether a call to the host does its work and
is answered, and what the host says. -/
structure Oracle where
  fails : Bool := false
  tier : Option Tier := some .admin
  readable : Bool := true
  reached : Bool := true
  answered : Bool := true
  started : Started := .ok
  status : Option ProjectStatus := some .running
  deriving DecidableEq

namespace World

variable (w : World)

def row (id : Uuid) : Option Row := w.rows.get? id

/-- A statement that may fail. -/
def statement {α : Type} (o : Oracle) (w' : World) (a : Except SqlError α) :
    World × Except SqlError α :=
  if o.fails then (w, .error .other) else (w', a)

/-- The tier of the caller on the project, if it is a member of it. -/
def loadMember (o : Oracle) (id : Uuid) : Except ProjectError Tier :=
  if o.fails then .error (.ofSql .other)
  else
    match (w.row id).bind fun _ => o.tier with
    | some tier => .ok tier
    | none => .error (.api .notFound)

def loadSecrets (o : Oracle) (id : Uuid) : Except ProjectError (String × String) :=
  if o.fails then .error (.ofSql .other)
  else
    match w.row id with
    | none => .error (.ofSql .rowNotFound)
    | some r =>
        if o.readable then .ok (r.engineSecret, r.vaultKey)
        else .error (.api (.internal "secrets"))

def setStatus (id : Uuid) (status : ProjectStatus) : World :=
  { w with rows := w.rows.modify id (fun r => { r with status }) (fun _ => rfl) }

def deleteRow (id : Uuid) : World :=
  { w with rows := w.rows.deleteWhere fun r => r.id = id }

/-- A section. An id is given to one project only. -/
def exec (o : Oracle) : (op : Op) → Option (World × op.Answer)
  | .countOwned owner =>
      some (w.statement o w (.ok (w.rows.rows.filter fun r => r.ownerId = owner).length))
  | .insert row =>
      if w.used.contains row.id then none
      else
        some (w.statement o
          { w with rows := w.rows.put row, used := row.id :: w.used } (.ok row))
  | .member id _ => some (w, w.loadMember o id)
  | .secrets id => some (w, w.loadSecrets o id)
  | .setStatus id status => some (w.statement o (w.setStatus id status) (.ok ()))
  | .reload id =>
      some (w.statement o w (match w.row id with
        | some r => .ok r
        | none => .error .rowNotFound))
  | .deleteRow id => some (w.statement o (w.deleteRow id) (.ok ()))
  | .hostPut id engineSecret vaultKey =>
      some (if o.reached then { w with host := w.host.upsert id engineSecret vaultKey } else w,
        o.reached && o.answered)
  | .hostStart _ => some (w, o.started)
  | .hostStop _ => some (w, o.answered)
  | .hostRestart _ => some (w, o.answered)
  | .hostStatus _ => some (w, o.status)
  | .hostDestroy id =>
      some (if o.reached then { w with host := w.host.delete id } else w,
        o.reached && o.answered)

end World

/-! ## The calls -/

/-- The calls on projects. The id and the secrets of a new project are drawn at random. -/
inductive Request where
  | create (owner name : String) (id : Uuid) (engineSecret vaultKey : String)
  | start (user : String) (id : Uuid)
  | stop (user : String) (id : Uuid)
  | restart (user : String) (id : Uuid)
  | destroy (user : String) (id : Uuid)
  deriving DecidableEq

/-- What a call answers: the status of the project, or nothing once it is destroyed. -/
abbrev Reply := Except ProjectError (Option ProjectStatus)

abbrev Prog (α : Type) := Program Op.Answer α

abbrev Step (α : Type) := ExceptT ProjectError (Program Op.Answer) α

/-- One section. -/
def ask (op : Op) : Prog op.Answer := Program.perform op

/-- A statement whose failure ends the call. -/
def sql {α : Type} (x : Prog (Except SqlError α)) : Step α :=
  ExceptT.mk (x >>= fun
    | .ok a => pure (.ok a)
    | .error e => pure (.error (.ofSql e)))

/-- A call to the host whose failure ends the call. -/
def host (what : String) (x : Prog Bool) : Step Unit :=
  ExceptT.mk (x >>= fun ok => pure (if ok then .ok () else .error (.api (.internal what))))

/-- Put the record of a project, in as many attempts. -/
def provision (id : Uuid) (engineSecret vaultKey : String) : ℕ → Prog Bool
  | 0 => .done false
  | n + 1 =>
      .act (.hostPut id engineSecret vaultKey) fun ok =>
        if ok then .done true else provision id engineSecret vaultKey n

def hostStart (id : Uuid) : ℕ → Prog Started
  | 0 => .done .failed
  | 1 => .act (.hostStart id) .done
  | n + 2 =>
      .act (.hostStart id) fun started =>
        if started = .ok then .done .ok else hostStart id (n + 1)

def hostDestroy (id : Uuid) : ℕ → Prog Bool
  | 0 => .done false
  | n + 1 => .act (.hostDestroy id) fun ok => if ok then .done true else hostDestroy id n

/-- Persist what the runtime reports; `stopped` right after a start is an error. -/
def observe (id : Uuid) : Step ProjectStatus := do
  let status ← ExceptT.lift (ask (.hostStatus id))
  let observed : ProjectStatus :=
    match status with
    | some .stopped => .error
    | some other => other
    | none => .starting
  sql (ask (.setStatus id observed))
  pure observed

/-- A start that failed. -/
def startFailed (id : Uuid) (started : Started) : Step ProjectStatus := do
  sql (ask (.setStatus id .error))
  throw (if started = .outOfDisk then .insufficientStorage else .api (.internal "start"))

def startAndObserve (id : Uuid) : Step ProjectStatus := do
  sql (ask (.setStatus id .starting))
  let started ← ExceptT.lift (hostStart id 2)
  if started = .ok then observe id else startFailed id started

/-- Send the secrets again, so that a host that lost its record has it. -/
def reprovision (id : Uuid) : Step Unit := do
  let secrets ← ExceptT.mk (ask (.secrets id))
  host "provision" (provision id secrets.1 secrets.2 3)

/-- The caller is an admin of the project. -/
def requireAdmin (user : String) (id : Uuid) : Step Unit := do
  let tier ← ExceptT.mk (ask (.member id user))
  if Tier.admin ≤ tier then pure ()
  else throw (.api (.forbidden "your role does not permit this"))

def reload (id : Uuid) : Step (Option ProjectStatus) := do
  let row ← sql (ask (.reload id))
  pure (some row.status)

/-- A name is not empty, at most 64 characters long, and has no control character. -/
def validateProjectName (name : String) : Except String Unit :=
  let trimmed := Text.trim name.toList
  if trimmed.isEmpty then .error "name must not be empty"
  else if 64 < trimmed.length then .error "name must be at most 64 characters"
  else if trimmed.any fun c => c.toNat < 32 || (127 ≤ c.toNat && c.toNat < 160) then
    .error "name must not contain control characters"
  else .ok ()

/-- Provision a new project and start it; whatever fails is the status of the project. -/
def bringUp (row : Row) : Step (Option ProjectStatus) := do
  let provisioned ← ExceptT.lift (provision row.id row.engineSecret row.vaultKey 3)
  if provisioned then
    let status ← ExceptT.lift (startAndObserve row.id).run
    pure (some (match status with
      | .ok status => status
      | .error _ => .error))
  else
    sql (ask (.setStatus row.id .error))
    pure (some .error)

/-- A new project is stopped, and its name has no blanks around it. -/
def newRow (owner name : String) (id : Uuid) (engineSecret vaultKey : String) : Row :=
  ⟨id, owner, String.ofList (Text.trim name.toList), .stopped, engineSecret, vaultKey⟩

/-- The row and the secrets of a new project are written in one transaction, the sandbox is
provisioned outside it. -/
def createProject (maxPerUser : ℕ) (row : Row) : Step (Option ProjectStatus) :=
  match validateProjectName row.name with
  | .error reason => throw (.api (.badRequest reason))
  | .ok () => do
      let count ← sql (ask (.countOwned row.ownerId))
      if maxPerUser ≤ count then
        throw (.api (.conflict ("project limit reached (" ++ toString maxPerUser ++ " per user)")))
      else do
        let row ← sql (ask (.insert row))
        bringUp row

def start (user : String) (id : Uuid) : Step (Option ProjectStatus) := do
  requireAdmin user id
  reprovision id
  let _ ← startAndObserve id
  reload id

def stop (user : String) (id : Uuid) : Step (Option ProjectStatus) := do
  requireAdmin user id
  host "stop" (ask (.hostStop id))
  sql (ask (.setStatus id .stopped))
  reload id

def restart (user : String) (id : Uuid) : Step (Option ProjectStatus) := do
  requireAdmin user id
  reprovision id
  host "restart" (ask (.hostRestart id))
  let _ ← observe id
  reload id

/-- The runtime is torn down first, and the row is deleted only if that succeeded. -/
def destroyProject (id : Uuid) : Step Unit := do
  host "destroy" (hostDestroy id 3)
  sql (ask (.deleteRow id))

def destroy (user : String) (id : Uuid) : Step (Option ProjectStatus) := do
  requireAdmin user id
  destroyProject id
  pure none

def Request.body (maxPerUser : ℕ) : Request → Prog Reply
  | .create owner name id engineSecret vaultKey =>
      (createProject maxPerUser (newRow owner name id engineSecret vaultKey)).run
  | .start user id => (Projects.start user id).run
  | .stop user id => (Projects.stop user id).run
  | .restart user id => (Projects.restart user id).run
  | .destroy user id => (Projects.destroy user id).run

def service (maxPerUser : ℕ) : Service World Request Op.Answer Reply Oracle where
  exec op w o := w.exec o op
  body := Request.body maxPerUser

abbrev State := Calls World Request Op.Answer Reply

abbrev Event := Turn Request Oracle

end Wheel.Api.Projects
