import Wheel.Data.Run
import Wheel.Update.Install

/-!
# The daemon and its update marker

A daemon boots as the binary that is live, settles the marker it finds, and then
serves. While it serves, up to three of its threads act on the marker: the
watchdog of a new build, which rolls back when the build has not answered in
time, the prober, which confirms the build once it answered, and the updater,
which installs the next build. None of them takes a lock. Every write of the
state file and every operation on a file is a step of its own, and the daemon may
be killed between any two of them.

The world also keeps what the claims are about: every row that was recorded,
every marker that was written, which binaries were put back on which target, and
which builds proved healthy.
-/

namespace Wheel

namespace Update

open Files

/-- What a boot finds. -/
inductive Boot where
  | normal
  | probation (p : Pending)
  | rollBack (p : Pending)
  | interrupted (p : Pending)
  deriving DecidableEq

/-- The marker decides what a boot is. -/
def decide (pending : Option Pending) (running : String) : Boot :=
  match pending with
  | none => .normal
  | some p =>
      if p.target ≠ running then .interrupted p
      else if 1 ≤ p.attempts then .rollBack p
      else .probation p

/-- Where a `roll_back` of a marker stands. -/
inductive Roll where
  | restore (p : Pending) (left : List Binary) (restored : ℕ)
  | markBad (p : Pending)
  | close (p : Pending)
  deriving DecidableEq

/-- The marker a rollback is of. -/
def Roll.marker : Roll → Pending
  | .restore p _ _ | .markBad p | .close p => p

/-- Where `settle_boot` stands. -/
inductive Settle where
  | decide
  | interrupt (p : Pending)
  | attempt
  | roll (r : Roll)
  deriving DecidableEq

inductive Watchdog where
  | off
  | polling
  /-- The deadline passed, and the build was not healthy. -/
  | fired
  | rolling (r : Roll)
  | restarting
  | finished
  deriving DecidableEq

inductive Prober where
  | off
  | waiting
  /-- The healthy flag is set. -/
  | confirming
  /-- The marker was read. -/
  | closing (p : Pending)
  | finished
  deriving DecidableEq

inductive UpdaterStage where
  | idle
  | marking (ready : Ready)
  | swapping (ready : Ready) (ops : List FileOp)
  /-- An operation of the swap failed. -/
  | undoing (ready : Ready) (left : List Binary)
  | abandoning (ready : Ready)

/-- The threads of a daemon that serves. -/
structure Serving where
  probation : Bool
  healthy : Bool
  watchdog : Watchdog
  prober : Prober
  updater : UpdaterStage

inductive Stage where
  | settling (t : Settle)
  | serving (v : Serving)

/-- A running daemon: the build it is, and what it does. -/
structure Process where
  running : String
  stage : Stage

structure World where
  state : State
  dir : BinDir
  process : Option Process
  /-- Every row that was recorded. -/
  log : List Row
  /-- Every marker that was written. -/
  markers : List Pending
  /-- The targets on which a binary was put back. -/
  restored : List (String × Binary)
  /-- The builds that proved healthy. -/
  proved : List String

namespace World

variable (w : World)

def record (row : Row) : World :=
  { w with state := w.state.record row, log := w.log ++ [row] }

/-- Take the marker away and record how it ended. -/
def close (p : Pending) (outcome : Outcome) (now : ℕ) : World :=
  { w with state := { w.state with pending := none } }.record (p.row now outcome)

def setStage (running : String) (t : Stage) : World :=
  { w with process := some ⟨running, t⟩ }

def exit : World := { w with process := none }

/-- Put one binary back. -/
def restore (p : Pending) (b : Binary) : World :=
  { w with
    dir := (Update.restore (w.dir, 0) b).1
    restored := if w.dir.has (.prev b) then w.restored ++ [(p.target, b)] else w.restored }

end World

/-- What becomes of a `roll_back` in one step. -/
inductive Rolled where
  | more (r : Roll)
  | done
  | failed
  deriving DecidableEq

def Roll.step (r : Roll) (w : World) (now : ℕ) : World × Rolled :=
  match r with
  | .restore p (b :: left) n =>
      (w.restore p b, .more (.restore p left (if w.dir.has (.prev b) then n + 1 else n)))
  | .restore p [] n => (w, if n = 0 then .failed else .more (.markBad p))
  | .markBad p => ({ w with state := w.state.markBad p.target }, .more (.close p))
  | .close p => (w.close p .rolledBack now, .done)

/-- A daemon that has settled serves; on probation, its watchdog polls and its
prober waits for it to answer. -/
def Serving.begin (probation : Bool) : Serving where
  probation := probation
  healthy := false
  watchdog := if probation then .polling else .off
  prober := if probation then .waiting else .off
  updater := .idle

/-- The new binary boots once more. -/
def State.countBoot (s : State) : State :=
  { s with pending := s.pending.map fun p => { p with attempts := p.attempts + 1 } }

/-- One step of `settle_boot`. -/
def settleStep (w : World) (running : String) (now : ℕ) : Settle → World
  | .decide =>
      match Update.decide w.state.pending running with
      | .normal => w.setStage running (.serving (.begin false))
      | .interrupted p => w.setStage running (.settling (.interrupt p))
      | .rollBack p => w.setStage running (.settling (.roll (.restore p binaries 0)))
      | .probation _ => w.setStage running (.settling .attempt)
  | .interrupt p => (w.close p .interrupted now).setStage running (.serving (.begin false))
  | .attempt =>
      { w with state := w.state.countBoot }.setStage running (.serving (.begin true))
  | .roll r =>
      match r.step w now with
      | (w, .more r) => w.setStage running (.settling (.roll r))
      | (w, .done) | (w, .failed) => w.exit

/-- One step of the watchdog. -/
def watchdogStep (w : World) (running : String) (v : Serving) (now : ℕ) : World :=
  match v.watchdog with
  | .off | .finished => w
  | .polling =>
      w.setStage running (.serving { v with watchdog := if v.healthy then .finished else .fired })
  | .fired =>
      w.setStage running (.serving
        { v with watchdog := w.state.pending.elim .restarting fun p =>
            .rolling (.restore p binaries 0) })
  | .rolling r =>
      match r.step w now with
      | (w, .more r) => w.setStage running (.serving { v with watchdog := .rolling r })
      | (w, .done) | (w, .failed) => w.setStage running (.serving { v with watchdog := .restarting })
  | .restarting => w.exit

/-- One step of the prober, once the build answers. -/
def proberStep (w : World) (running : String) (v : Serving) (now : ℕ) : World :=
  match v.prober with
  | .off | .finished => w
  | .waiting => w.setStage running (.serving { v with healthy := true, prober := .confirming })
  | .confirming =>
      w.setStage running (.serving { v with prober := w.state.pending.elim .finished .closing })
  | .closing p =>
      { (w.close p .updated now) with proved := w.proved ++ [p.target] }.setStage running
        (.serving { v with prober := .finished })

/-- One step of the updater's installation. -/
def updaterStep (w : World) (running : String) (v : Serving) (now : ℕ) : World :=
  match v.updater with
  | .idle => w
  | .marking ready =>
      { w with
        state := beginInstall w.state running ready now
        markers := w.markers ++ [ready.pending running now] }.setStage running
        (.serving { v with updater := .swapping ready (swap ready.staged) })
  | .swapping ready (op :: ops) =>
      match op.run w.dir with
      | some d =>
          { w with dir := d }.setStage running
            (.serving { v with updater := .swapping ready ops })
      | none => w.setStage running (.serving { v with updater := .undoing ready binaries })
  | .swapping _ [] => w.exit
  | .undoing ready (b :: left) =>
      { w with dir := (restore (w.dir, 0) b).1 }.setStage running
        (.serving { v with updater := .undoing ready left })
  | .undoing ready [] => w.setStage running (.serving { v with updater := .abandoning ready })
  | .abandoning ready =>
      { w with
        state := swapFailed w.state running ready now
        log := w.log ++ [(ready.pending running now).row now .swapFailed] }.exit

/-- A build the updater hands over: another commit than the one that runs, and
both binaries built from it. -/
def Ready.Sound (ready : Ready) (running : String) : Prop :=
  ready.candidate.target ≠ running ∧
    ∀ b ∈ binaries, (ready.staged.binary b).build = ready.candidate.target

instance (ready : Ready) (running : String) : Decidable (ready.Sound running) := by
  unfold Ready.Sound
  infer_instance

/-- An attempt that ends before a restart. -/
def Outcome.isAttempt : Outcome → Bool
  | .refused _ | .drainTimedOut | .buildFailed | .smokeFailed => true
  | _ => false

inductive Event where
  | boot
  /-- The daemon is killed. -/
  | crash
  | settle (now : ℕ)
  | watchdog (now : ℕ)
  | prober (now : ℕ)
  | updater (now : ℕ)
  /-- The updater has a build to install. -/
  | ready (ready : Ready)
  /-- An attempt ended, and its row is recorded. -/
  | attempt (row : Row)

/-- A step of a thread of the daemon, or of its updater's attempts. -/
def Event.isThread : Event → Bool
  | .boot | .crash | .settle _ => false
  | _ => true

/-- A step of the world; what is not enabled changes nothing. -/
def World.step (w : World) (e : Event) : World :=
  match e, w.process with
  | .boot, none =>
      match w.dir.data? (.live .wheeld) with
      | some exe => w.setStage exe.build (.settling .decide)
      | none => w
  | .crash, some _ => w.exit
  | .settle now, some ⟨running, .settling t⟩ => settleStep w running now t
  | .watchdog now, some ⟨running, .serving v⟩ => watchdogStep w running v now
  | .prober now, some ⟨running, .serving v⟩ => proberStep w running v now
  | .updater now, some ⟨running, .serving v⟩ => updaterStep w running v now
  | .ready ready, some ⟨running, .serving v⟩ =>
      match v.updater with
      | .idle =>
          if ready.Sound running then
            w.setStage running (.serving { v with updater := .marking ready })
          else w
      | _ => w
  | .attempt row, some ⟨_, .serving _⟩ => if row.outcome.isAttempt then w.record row else w
  | _, _ => w

end Update

end Wheel
