import Wheel.Concurrency.Program
import Wheel.Host.Store

/-!
# The calls of the host

The lifecycle of a project as the host serves it, cut at the awaits: a call is its store
statements and its operation on the sandbox, in the order of the source. What the sandbox
answers is up to the environment. The world remembers, for each project, the lifecycle
call that was the last to succeed.
-/

namespace Wheel.Host

open Concurrency

/-- The calls that say whether a project should run. -/
inductive Lifecycle where
  | start
  | stop
  | restart
  | delete
  deriving DecidableEq

/-- What a call answers. -/
inductive Response where
  | ok
  | noContent
  | notFound
  | insufficientStorage
  | gatewayTimeout
  | internal (what : String)
  deriving DecidableEq

/-- The sections of the calls. -/
inductive Op where
  | upsert (id : Uuid) (engineSecret vaultKey : String)
  | provision (id : Uuid)
  | get (id : Uuid)
  | room
  | sandboxStart (id : Uuid)
  | setRunning (id : Uuid)
  | setStopped (id : Uuid)
  | sandboxStop (id : Uuid)
  | sandboxRestart (id : Uuid)
  | destroy (id : Uuid)
  | delete (id : Uuid)
  deriving DecidableEq

/-- What a section answers: a row, or whether it succeeded. -/
@[reducible] def Op.Answer : Op → Type
  | .get _ => Option ProjectRow
  | .room | .provision _ | .sandboxStart _ | .sandboxStop _ | .sandboxRestart _ | .destroy _ =>
      Bool
  | _ => Unit

/-- The store, and the last lifecycle call of each project that succeeded. -/
structure World where
  store : Store
  last : Uuid → Option Lifecycle

namespace World

def start : World := ⟨Store.empty, fun _ => none⟩

variable (w : World)

/-- A lifecycle call of a project succeeded. -/
def succeed (id : Uuid) (kind : Lifecycle) : World :=
  { w with last := Function.update w.last id (some kind) }

/-- A section; `works` is whether the environment lets it succeed. A call succeeds with its
last section. -/
def exec (works : Bool) : (op : Op) → World × op.Answer
  | .upsert id engineSecret vaultKey =>
      ({ w with store := w.store.upsert id engineSecret vaultKey }, ())
  | .provision _ => (w, works)
  | .get id => (w, w.store.get id)
  | .room => (w, works)
  | .sandboxStart _ => (w, works)
  | .setRunning id =>
      ({ w with store := w.store.setDesiredRunning id true }.succeed id .start, ())
  | .setStopped id => ({ w with store := w.store.setDesiredRunning id false }, ())
  | .sandboxStop id => (if works then w.succeed id .stop else w, works)
  | .sandboxRestart id => (if works then w.succeed id .restart else w, works)
  | .destroy _ => (w, works)
  | .delete id => ({ w with store := w.store.delete id }.succeed id .delete, ())

end World

/-! ## The calls -/

/-- The calls of the host on its projects. -/
inductive Request where
  | put (id : Uuid) (engineSecret vaultKey : String)
  | start (id : Uuid)
  | stop (id : Uuid)
  | restart (id : Uuid)
  | delete (id : Uuid)
  deriving DecidableEq

abbrev Prog := Program Op.Answer Response

/-- Store the record, under the canonical spelling of its vault key, and provision. -/
def putProject (canonical : String → String) (id : Uuid) (engineSecret vaultKey : String) :
    Prog :=
  .act (.upsert id engineSecret (canonical vaultKey)) fun _ =>
    .act (.provision id) fun provisioned =>
      .done (if provisioned then .ok else .internal "provisioning sandbox")

/-- Start the sandbox, then record the intent. -/
def start (id : Uuid) : Prog :=
  .act (.get id) fun row =>
    match row with
    | none => .done .notFound
    | some _ =>
        .act .room fun room =>
          if room then
            .act (.sandboxStart id) fun started =>
              if started then .act (.setRunning id) fun _ => .done .ok
              else .done .gatewayTimeout
          else .done .insufficientStorage

/-- Record the intent, then stop the sandbox. -/
def stop (id : Uuid) : Prog :=
  .act (.setStopped id) fun _ =>
    .act (.sandboxStop id) fun stopped =>
      .done (if stopped then .ok else .internal "stopping sandbox")

/-- Restart the sandbox; no intent is recorded. -/
def restart (id : Uuid) : Prog :=
  .act (.get id) fun row =>
    match row with
    | none => .done .notFound
    | some _ =>
        .act (.sandboxRestart id) fun restarted =>
          .done (if restarted then .ok else .internal "restarting sandbox")

/-- Destroy the runtime, then delete the record. -/
def deleteProject (id : Uuid) : Prog :=
  .act (.destroy id) fun destroyed =>
    if destroyed then .act (.delete id) fun _ => .done .noContent
    else .done (.internal "destroying sandbox")

def Request.body (canonical : String → String) : Request → Prog
  | .put id engineSecret vaultKey => putProject canonical id engineSecret vaultKey
  | .start id => Host.start id
  | .stop id => Host.stop id
  | .restart id => Host.restart id
  | .delete id => deleteProject id

/-- The host as a service. -/
def service (canonical : String → String) : Service World Request Op.Answer Response Bool where
  exec op w works := some (w.exec works op)
  body := Request.body canonical

abbrev State := Calls World Request Op.Answer Response

abbrev Event := Turn Request Bool

end Wheel.Host
