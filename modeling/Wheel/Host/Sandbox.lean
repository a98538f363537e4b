import Wheel.Concurrency.Program

/-!
# The process sandbox

The engines of one project, as the sandbox starts and stops them. The map of children is
behind a lock, but a call gives the lock back between its sections, and what it does to a
process or to the socket in between it does without the lock. Everything an engine does by
itself, to bind its socket and to exit, may happen at any moment.

An engine is known by its number: how many were spawned before it.
-/

namespace Wheel.Host.Sandbox

open Concurrency

/-- The processes, the entry of the project in the map of children, and whose socket is at
the project's path. `up` is not read by the program: an engine in the map was reported as
started, and nothing was stopped and none has exited since. -/
structure World where
  engines : List Bool
  child : Option ℕ
  socket : Option ℕ
  up : Bool
  deriving DecidableEq

namespace World

def start : World := ⟨[], none, none, false⟩

variable (w : World)

def Alive (p : ℕ) : Prop := w.engines[p]? = some true

instance (p : ℕ) : Decidable (w.Alive p) := inferInstanceAs (Decidable (_ = _))

/-- A process is gone. -/
def die (p : ℕ) : World := { w with engines := w.engines.set p false }

end World

/-- What the table of processes shows while the leftovers are waited for. -/
inductive Poll where
  | empty
  | waiting
  | late
  deriving DecidableEq

/-- What a probe of the socket finds. -/
inductive Probe where
  | healthy
  | silent
  | late
  deriving DecidableEq

inductive Status where
  | running
  | stopped
  | error
  deriving DecidableEq

/-- The sections. What a stop does after it took the child out carries how many engines had
been spawned then, which nothing reads. -/
inductive Op where
  /-- Is the project in the map? -/
  | check
  | provision
  /-- List the leftovers, and ask them to exit. -/
  | reapTerm
  | reapPoll
  | reapKill
  | removeSocket
  | spawn
  | insert (p : ℕ)
  | probe
  | tryWait
  | take
  | wait (p since : ℕ)
  | kill (p since : ℕ)
  | unlink (since : ℕ)
  | removeDirs (since : ℕ)
  | look
  | exit (p : ℕ)
  | bind (p : ℕ)
  deriving DecidableEq

@[reducible] def Op.Answer : Op → Type
  | .check | .provision | .reapTerm | .tryWait | .wait _ _ => Bool
  | .reapPoll => Poll
  | .spawn => Option ℕ
  | .probe => Probe
  | .take => Option ℕ × ℕ
  | .look => Status
  | _ => Unit

/-- What the environment decides: whether a step works, whether a deadline has passed,
whether an engine answers, and whether it exits while it is waited for. -/
structure Oracle where
  works : Bool := true
  late : Bool := false
  answers : Bool := true
  exits : Bool := true
  deriving DecidableEq

namespace World

variable (w : World)

def anyAlive : Bool := w.engines.any id

/-- The child in the map has exited. -/
def childExited : Bool := w.child.any fun p => !decide (w.Alive p)

def exec (o : Oracle) : (op : Op) → World × op.Answer
  | .check => (if w.child.isSome then { w with up := true } else w, w.child.isSome)
  | .provision => (w, o.works)
  | .reapTerm => (w, w.anyAlive)
  | .reapPoll => (w, if o.late then .late else if w.anyAlive then .waiting else .empty)
  | .reapKill => ({ w with engines := w.engines.map fun _ => false }, ())
  | .removeSocket => ({ w with socket := none }, ())
  | .spawn =>
      if o.works then ({ w with engines := w.engines ++ [true] }, some w.engines.length)
      else (w, none)
  | .insert p => ({ w with child := some p }, ())
  | .probe =>
      if o.late then (w, .late)
      else if w.socket.any (fun p => decide (w.Alive p)) && o.answers then
        ({ w with up := w.up || w.child.isSome }, .healthy)
      else (w, .silent)
  | .tryWait => (w, w.childExited && o.works)
  | .take => ({ w with child := none, up := false }, (w.child, w.engines.length))
  | .wait p _ =>
      if w.Alive p then if o.exits then (w.die p, true) else (w, false) else (w, true)
  | .kill p _ => (w.die p, ())
  | .unlink _ => ({ w with socket := none }, ())
  | .removeDirs _ => ({ w with socket := none }, ())
  | .look =>
      match w.child with
      | none => (w, .stopped)
      | some _ =>
          if o.works then
            if w.childExited then ({ w with child := none }, .stopped) else (w, .running)
          else (w, .error)
  | .exit p => ({ w.die p with up := w.up && decide (w.child ≠ some p) }, ())
  | .bind p => (if w.Alive p ∧ w.socket = none then { w with socket := some p } else w, ())

end World

/-! ## The calls -/

/-- The calls on the sandbox, and what an engine does by itself. -/
inductive Request where
  | start
  | stop
  | restart
  | destroy
  | status
  | engineExits (p : ℕ)
  | engineBinds (p : ℕ)
  deriving DecidableEq

inductive Reply where
  | ok
  | status (s : Status)
  | failed (reason : String)
  deriving DecidableEq

abbrev Prog (α : Type) := Program Op.Answer α

/-- How often the table of processes is read and the socket is probed before the deadline. -/
structure Limits where
  polls : ℕ
  probes : ℕ

def reapWait : ℕ → Prog Unit
  | 0 => .act .reapKill .done
  | n + 1 =>
      .act .reapPoll fun poll =>
        match poll with
        | .empty => .done ()
        | .waiting => reapWait n
        | .late => .act .reapKill .done

/-- Ask what still runs under the project's uids to exit, and kill what does not. -/
def reapLeftovers (limits : Limits) : Prog Unit :=
  .act .reapTerm fun leftovers => if leftovers then reapWait limits.polls else .done ()

/-- The rest of a stop once the child is out of the map: how many engines there were. -/
def stopTaken (p since : ℕ) : Prog ℕ :=
  .act (.wait p since) fun exited =>
    if exited then .act (.unlink since) fun _ => .done since
    else .act (.kill p since) fun _ => .act (.unlink since) fun _ => .done since

def stop : Prog ℕ :=
  .act .take fun taken =>
    match taken.1 with
    | none => .done taken.2
    | some p => stopTaken p taken.2

/-- A start that took too long is stopped. -/
def startLate : Prog Reply :=
  stop >>= fun _ => .done (.failed "engine did not answer on its socket")

/-- Wait until the engine answers on its socket. -/
def ready : ℕ → Prog Reply
  | 0 => startLate
  | n + 1 =>
      .act .probe fun probe =>
        match probe with
        | .healthy => .done .ok
        | .late => startLate
        | .silent =>
            .act .tryWait fun exited =>
              if exited then .done (.failed "engine exited during startup") else ready n

def spawnEngine (limits : Limits) : Prog Reply :=
  .act .removeSocket fun _ =>
    .act .spawn fun child =>
      match child with
      | none => .done (.failed "spawning wheel-engine")
      | some p => .act (.insert p) fun _ => ready limits.probes

/-- A second start while the project is in the map returns. -/
def start (limits : Limits) : Prog Reply :=
  .act .check fun found =>
    if found then .done .ok
    else
      .act .provision fun works =>
        if works then reapLeftovers limits >>= fun _ => spawnEngine limits
        else .done (.failed "provisioning")

def restart (limits : Limits) : Prog Reply := stop >>= fun _ => start limits

def destroy : Prog Reply :=
  stop >>= fun since => .act (.removeDirs since) fun _ => .done .ok

def Request.body (limits : Limits) : Request → Prog Reply
  | .start => Sandbox.start limits
  | .stop => Sandbox.stop >>= fun _ => .done .ok
  | .restart => Sandbox.restart limits
  | .destroy => Sandbox.destroy
  | .status => .act .look fun s => .done (.status s)
  | .engineExits p => .act (.exit p) fun _ => .done .ok
  | .engineBinds p => .act (.bind p) fun _ => .done .ok

def service (limits : Limits) : Service World Request Op.Answer Reply Oracle where
  exec op w o := some (w.exec o op)
  body := Request.body limits

abbrev State := Calls World Request Op.Answer Reply

abbrev Event := Turn Request Oracle

end Wheel.Host.Sandbox
