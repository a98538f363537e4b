import Wheel.Supervisor.Shutdown

/-!
# Draining the engines

The registry of a daemon holds the engines that attached, and a flag that says
whether an update drains them. An engine that attaches reads the flag, pauses
itself when it is set, and is inserted. A drain sets the flag, pauses the engines
it finds, looks whether any agent of any engine is busy, as often as it likes, and
ends with the build handed over or, when its window ran out, with the flag cleared
and the engines resumed. Each engine is a pool of the supervisor's sections, and
every step of the registry and of the engines may come between any two others.
-/

namespace Wheel

namespace Update

open Supervisor

/-- Where an engine stands with its registry. -/
inductive Join where
  /-- `attach` reads the flag. -/
  | test
  /-- It was set, and the engine is paused. -/
  | mark
  | close
  /-- Before the insertion; what the flag was. -/
  | insert (paused : Bool)
  | serving
  /-- The engine ended, and dropped out of the registry. -/
  | gone
  deriving DecidableEq

/-- An engine of the daemon. -/
structure Site where
  project : Uuid
  pool : Supervisor.State
  /-- The agents whose slots were made. -/
  agents : List Uuid
  join : Join
  /-- The engine was told to shut down. -/
  stopping : Bool

/-- Where the drain of an attempt stands. -/
inductive Drain where
  | idle
  /-- `pause` set the flag. -/
  | snapshot
  | pausing (left : List ℕ)
  | closing (i : ℕ) (left : List ℕ)
  | look
  | busy (left : List ℕ) (found : Bool)
  | slots (i : ℕ) (agents : List Uuid) (left : List ℕ) (found : Bool)
  /-- Some agent was busy. -/
  | wait
  /-- `resume` cleared the flag. -/
  | unsnapshot
  | resuming (left : List ℕ)
  | opening (i : ℕ) (left : List ℕ)
  | delivering (i : ℕ) (left : List ℕ)
  /-- The attempt returned its build. -/
  | ready
  deriving DecidableEq

/-- The registry, its engines, and the drain of the updater. -/
structure Board where
  sites : ℕ → Option Site
  /-- The engine of each project. -/
  attached : List (Uuid × ℕ)
  paused : Bool
  drain : Drain

/-- What an engine does by itself; only the registry pauses and resumes turns. -/
inductive Act where
  | call (c : Call)
  | run (n : ℕ) (o : Oracle)
  | resume (a : Uuid) (o : Oracle)

def Act.event : Act → Option Supervisor.Event
  | .call .pauseTurns | .call .resumeTurns => none
  | .call c => some (.call c.task)
  | .run n o => some (.run n o)
  | .resume a o => some (.resume a o)

/-- Whether the engine is told to shut down. -/
def Act.stops : Act → Bool
  | .call .shutdown => true
  | _ => false

inductive BoardEvent where
  /-- An engine of a project starts, with the messages of its store. -/
  | open (i : ℕ) (project : Uuid) (messages : MessageTable)
  /-- The next step of its `attach`. -/
  | attach (i : ℕ)
  | engine (i : ℕ) (a : Act)
  | gone (i : ℕ)
  /-- The next step of the drain; whether its window ran out. -/
  | drain (late : Bool)

namespace Site

variable (s : Site)

def opened (project : Uuid) (messages : MessageTable) : Site where
  project := project
  pool := Concurrency.Pool.idle (Engine.fresh messages)
  agents := []
  join := .test
  stopping := false

/-- A load or a store on the engine's flags. -/
def setShared (f : Engine → Engine) : Site :=
  { s with pool := { s.pool with shared := f s.pool.shared } }

/-- `pause_turns` marks the pause, and closes the gate. -/
def pauseMark : Site := s.setShared fun e => { e with pausedForUpdate := true }

def pauseClose : Site := s.setShared fun e => { e with closing := true }

/-- `resume_turns` takes the pause away, opens the gate if there was one, and owes
every agent with a queued message a delivery. -/
def resumeSwap : Site := s.setShared fun e => { e with pausedForUpdate := false }

def resumeOpen : Site := s.setShared fun e => { e with closing := false }

def resumeDeliver : Site :=
  { s with
    pool := { s.pool with
      tasks := s.pool.tasks ++
        (recipientsWithQueued s.pool.shared.messages).map fun a => [.deliver a] } }

/-- The agent whose slot a step of the engine works on. -/
def slotOf (e : Supervisor.Event) : Option Uuid :=
  (s.pool.due machine e).bind fun x => machine.lockOf x.1

/-- One step of the engine. -/
def step (e : Supervisor.Event) (stops : Bool) : Site :=
  { s with
    pool := s.pool.step machine e
    agents := s.agents ++ (s.slotOf e).toList
    stopping := s.stopping || stops }

/-- `busy_agents` finds the agent's slot locked or its child in mid-turn. -/
def isBusy (a : Uuid) : Bool :=
  (s.pool.held a).isSome || (s.pool.shared.inFlight a).isSome

end Site

namespace Board

/-- A daemon without engines. -/
def start : Board where
  sites _ := none
  attached := []
  paused := false
  drain := .idle

variable (b : Board)

def modify (i : ℕ) (f : Site → Site) : Board :=
  { b with sites := Function.update b.sites i ((b.sites i).map f) }

/-- The engines the registry finds. -/
def live : List ℕ := b.attached.map Prod.snd

/-- Insert an engine in the place of any other of its project. -/
def insert (i : ℕ) (project : Uuid) : Board :=
  { b with attached := b.attached.filter (fun x => x.1 != project) ++ [(project, i)] }

/-- One step of `attach`. -/
def attachStep (i : ℕ) (s : Site) : Board :=
  match s.join with
  | .test => b.modify i fun s => { s with join := if b.paused then .mark else .insert false }
  | .mark => b.modify i fun s => { s.pauseMark with join := .close }
  | .close => b.modify i fun s => { s.pauseClose with join := .insert true }
  | .insert _ => (b.modify i fun s => { s with join := .serving }).insert i s.project
  | .serving | .gone => b

/-- One step of the drain. -/
def drainStep (late : Bool) : Board :=
  match b.drain with
  | .idle => { b with paused := true, drain := .snapshot }
  | .snapshot => { b with drain := .pausing b.live }
  | .pausing [] => { b with drain := .look }
  | .pausing (i :: left) => { b.modify i Site.pauseMark with drain := .closing i left }
  | .closing i left => { b.modify i Site.pauseClose with drain := .pausing left }
  | .look => { b with drain := .busy b.live false }
  | .busy [] found => { b with drain := if found then .wait else .ready }
  | .busy (i :: left) found =>
      { b with drain := .slots i ((b.sites i).elim [] Site.agents) left found }
  | .slots _ [] left found => { b with drain := .busy left found }
  | .slots i (a :: agents) left found =>
      { b with drain := .slots i agents left (found || (b.sites i).any fun s => s.isBusy a) }
  | .wait =>
      if late then { b with paused := false, drain := .unsnapshot } else { b with drain := .look }
  | .unsnapshot => { b with drain := .resuming b.live }
  | .resuming [] => { b with drain := .idle }
  | .resuming (i :: left) =>
      { b.modify i Site.resumeSwap with
        drain := if (b.sites i).any fun s => s.pool.shared.pausedForUpdate then .opening i left
          else .resuming left }
  | .opening i left => { b.modify i Site.resumeOpen with drain := .delivering i left }
  | .delivering i left => { b.modify i Site.resumeDeliver with drain := .resuming left }
  | .ready => b

def step (e : BoardEvent) : Board :=
  match e with
  | .open i project messages =>
      match b.sites i with
      | none =>
          { b with sites := Function.update b.sites i (some (Site.opened project messages)) }
      | some _ => b
  | .attach i =>
      match b.sites i with
      | some s => b.attachStep i s
      | none => b
  | .engine i a =>
      match b.sites i, a.event with
      | some s, some e =>
          if s.join = .serving then b.modify i fun s => s.step e a.stops
          else b
      | _, _ => b
  | .gone i =>
      { b.modify i (fun s => { s with join := .gone }) with
        attached := b.attached.filter fun x => x.2 != i }
  | .drain late => b.drainStep late

end Board

end Update

end Wheel
