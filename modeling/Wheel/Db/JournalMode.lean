import Wheel.Text.Search
import Wheel.Text.Utf8
import Mathlib

/-!
# Negotiating a journal mode

A database is opened on whatever terms its file system allows: the wanted journal mode, then a
drain under an exclusive lock, then a rollback journal. SQLite is a state with an oracle, `Disk`,
that says which journal pragmas take effect and which write locks are granted.
`openConfigured_iff` says when the connection that is returned is in the mode it claims to be in,
and `openConfigured_settled` which part of this holds on every file system.
-/

namespace Wheel.Sqlite

def eqIgnoreAsciiCase (a b : String) : Bool :=
  a.toList.map Char.toLower == b.toList.map Char.toLower

/-! ## A connection -/

inductive JournalMode where
  | delete
  | truncate
  | persist
  | memory
  | wal
  | off
  deriving DecidableEq, Repr

namespace JournalMode

/-- The name of a mode, as sqlite reports it. -/
def name : JournalMode → String
  | delete => "delete"
  | truncate => "truncate"
  | persist => "persist"
  | memory => "memory"
  | wal => "wal"
  | off => "off"

def all : List JournalMode := [delete, truncate, persist, memory, wal, off]

/-- The mode that a pragma's value names. -/
def ofName (s : String) : Option JournalMode := all.find? fun m => eqIgnoreAsciiCase m.name s

theorem eq_of_eqIgnoreAsciiCase {m m' : JournalMode} {s : String}
    (h : eqIgnoreAsciiCase m.name s = true) (h' : eqIgnoreAsciiCase m'.name s = true) :
    m = m' := by
  have hlower : m.name.toList.map Char.toLower = m'.name.toList.map Char.toLower := by
    rw [eqIgnoreAsciiCase, beq_iff_eq] at h h'
    rw [h, h']
  cases m <;> cases m' <;> first | rfl | exact absurd hlower (by decide)

theorem mem_all (m : JournalMode) : m ∈ all := by
  cases m <;> decide

theorem ofName_eq_some {s : String} {m : JournalMode} :
    ofName s = some m ↔ eqIgnoreAsciiCase m.name s = true := by
  constructor
  · intro h
    have hname := List.find?_some h
    exact hname
  · intro h
    cases hfind : ofName s with
    | none => exact absurd h (List.find?_eq_none.1 hfind m m.mem_all)
    | some m' =>
        have hname := List.find?_some hfind
        rw [eq_of_eqIgnoreAsciiCase hname h]

/-- A mode's name is compared as the mode is. -/
theorem eqIgnoreAsciiCase_name {s : String} {m : JournalMode} (h : ofName s = some m)
    (m' : JournalMode) : eqIgnoreAsciiCase m'.name s = decide (m' = m) := by
  rw [Bool.eq_iff_iff, decide_eq_true_iff, ← ofName_eq_some, h, Option.some_inj, eq_comm]

end JournalMode

inductive LockingMode where
  | normal
  | exclusive
  deriving DecidableEq, Repr

inductive Synchronous where
  | off
  | normal
  | full
  | extra
  deriving DecidableEq, Repr

/-- What the file system and the other connections to a file decide. -/
structure Disk where
  /-- The journal mode in which a connection finds the file, and nothing where it cannot open
  it. -/
  found : ℕ → Option JournalMode
  /-- Does a journal pragma take effect? -/
  takes : ℕ → Bool
  /-- Is a write lock granted? -/
  grants : ℕ → Bool

/-- A connection, with the number of journal pragmas and of write locks it has asked for. -/
structure Conn where
  journal : JournalMode
  locking : LockingMode
  synchronous : Synchronous
  busyTimeout : ℤ
  /-- The locking mode in which the connection entered the write-ahead log it is in. -/
  entered : Option LockingMode
  /-- Was a write lock granted since the journal mode was entered? -/
  granted : Bool
  pragmas : ℕ
  locks : ℕ
  deriving DecidableEq

namespace Conn

/-- A connection that has not touched its file. -/
def fresh (journal : JournalMode) : Conn where
  journal := journal
  locking := .normal
  synchronous := .full
  busyTimeout := 0
  entered := none
  granted := false
  pragmas := 0
  locks := 0

/-- Use the file in a journal mode. -/
def enter (c : Conn) (m : JournalMode) : Conn :=
  { c with
    journal := m
    entered := if m = .wal then c.entered.or (some c.locking) else none
    granted := c.granted && c.journal = m }

/-- `PRAGMA journal_mode = …`, which succeeds whether it takes effect or not. -/
def setJournal (disk : Disk) (name : String) (c : Conn) : Conn :=
  let asked := { c with pragmas := c.pragmas + 1 }
  match JournalMode.ofName name with
  | none => asked
  | some m => if disk.takes c.pragmas then asked.enter m else asked

/-- `PRAGMA locking_mode = …`. A connection that entered the write-ahead log in exclusive mode
keeps that mode until it leaves the log. -/
def setLocking (l : LockingMode) (c : Conn) : Conn :=
  if l = .normal ∧ c.entered = some .exclusive then c else { c with locking := l }

/-- `BEGIN IMMEDIATE; COMMIT;` -/
def writeLock (disk : Disk) (c : Conn) : Conn × Bool :=
  let asked := { c with locks := c.locks + 1 }
  if disk.grants c.locks then ({ asked.enter c.journal with granted := true }, true)
  else (asked, false)

/-- Only a connection in the write-ahead log has entered it. -/
def LogOnly (c : Conn) : Prop := c.journal ≠ .wal → c.entered = none

theorem logOnly_fresh (m : JournalMode) : (fresh m).LogOnly := fun _ => rfl

theorem logOnly_enter (c : Conn) (m : JournalMode) : (c.enter m).LogOnly := by
  intro hm
  exact if_neg hm

@[simp] theorem enter_locking (c : Conn) (m : JournalMode) : (c.enter m).locking = c.locking := rfl

@[simp] theorem enter_synchronous (c : Conn) (m : JournalMode) :
    (c.enter m).synchronous = c.synchronous := rfl

theorem setJournal_of_not_takes {disk : Disk} {c : Conn} (name : String)
    (h : disk.takes c.pragmas = false) :
    c.setJournal disk name = { c with pragmas := c.pragmas + 1 } := by
  rw [setJournal]
  cases JournalMode.ofName name <;> simp [h]

theorem setJournal_of_takes {disk : Disk} {c : Conn} {name : String} {m : JournalMode}
    (hname : JournalMode.ofName name = some m) (h : disk.takes c.pragmas = true) :
    c.setJournal disk name = { c with pragmas := c.pragmas + 1 }.enter m := by
  simp only [setJournal, hname, h, if_true]

/-- What a journal pragma does. -/
theorem setJournal_cases (disk : Disk) (name : String) (c : Conn) :
    c.setJournal disk name = { c with pragmas := c.pragmas + 1 } ∨
      ∃ m, JournalMode.ofName name = some m ∧ disk.takes c.pragmas = true ∧
        c.setJournal disk name = { c with pragmas := c.pragmas + 1 }.enter m := by
  cases htakes : disk.takes c.pragmas with
  | false => exact .inl (setJournal_of_not_takes name htakes)
  | true =>
      cases hname : JournalMode.ofName name with
      | none => exact .inl (by rw [setJournal, hname])
      | some m => exact .inr ⟨m, rfl, rfl, setJournal_of_takes hname htakes⟩

@[simp] theorem setJournal_locking (disk : Disk) (name : String) (c : Conn) :
    (c.setJournal disk name).locking = c.locking := by
  rcases c.setJournal_cases disk name with h | ⟨m, -, -, h⟩ <;> rw [h]
  rfl

@[simp] theorem setJournal_synchronous (disk : Disk) (name : String) (c : Conn) :
    (c.setJournal disk name).synchronous = c.synchronous := by
  rcases c.setJournal_cases disk name with h | ⟨m, -, -, h⟩ <;> rw [h]
  rfl

theorem logOnly_setJournal (disk : Disk) (name : String) {c : Conn} (h : c.LogOnly) :
    (c.setJournal disk name).LogOnly := by
  rcases c.setJournal_cases disk name with hset | ⟨m, -, -, hset⟩ <;> rw [hset]
  · exact h
  · exact logOnly_enter _ m

@[simp] theorem setLocking_synchronous (l : LockingMode) (c : Conn) :
    (c.setLocking l).synchronous = c.synchronous := by
  rw [setLocking]
  split <;> rfl

@[simp] theorem setLocking_journal (l : LockingMode) (c : Conn) :
    (c.setLocking l).journal = c.journal := by
  rw [setLocking]
  split <;> rfl

@[simp] theorem setLocking_entered (l : LockingMode) (c : Conn) :
    (c.setLocking l).entered = c.entered := by
  rw [setLocking]
  split <;> rfl

@[simp] theorem setLocking_pragmas (l : LockingMode) (c : Conn) :
    (c.setLocking l).pragmas = c.pragmas := by
  rw [setLocking]
  split <;> rfl

@[simp] theorem setLocking_exclusive_locking (c : Conn) :
    (c.setLocking .exclusive).locking = .exclusive := rfl

theorem logOnly_setLocking (l : LockingMode) {c : Conn} (h : c.LogOnly) :
    (c.setLocking l).LogOnly := by
  intro hl
  rw [setLocking_journal] at hl
  rw [setLocking_entered]
  exact h hl

/-- Setting the locking mode back works unless the log was entered in exclusive mode. -/
theorem setLocking_normal_locking {c : Conn} (h : c.entered ≠ some .exclusive) :
    (c.setLocking .normal).locking = .normal := by
  rw [setLocking, if_neg fun hl => h hl.2]

/-- What asking for a write lock does. -/
theorem writeLock_cases (disk : Disk) (c : Conn) :
    disk.grants c.locks = false ∧ c.writeLock disk = ({ c with locks := c.locks + 1 }, false) ∨
      disk.grants c.locks = true ∧ c.writeLock disk =
        ({ { c with locks := c.locks + 1 }.enter c.journal with granted := true }, true) := by
  rw [writeLock]
  cases hgrants : disk.grants c.locks with
  | false => exact .inl ⟨rfl, if_neg (by simp)⟩
  | true => exact .inr ⟨rfl, if_pos rfl⟩

@[simp] theorem writeLock_journal (disk : Disk) (c : Conn) :
    (c.writeLock disk).1.journal = c.journal := by
  rcases c.writeLock_cases disk with ⟨-, h⟩ | ⟨-, h⟩ <;> rw [h]
  rfl

@[simp] theorem writeLock_locking (disk : Disk) (c : Conn) :
    (c.writeLock disk).1.locking = c.locking := by
  rcases c.writeLock_cases disk with ⟨-, h⟩ | ⟨-, h⟩ <;> rw [h]
  rfl

@[simp] theorem writeLock_synchronous (disk : Disk) (c : Conn) :
    (c.writeLock disk).1.synchronous = c.synchronous := by
  rcases c.writeLock_cases disk with ⟨-, h⟩ | ⟨-, h⟩ <;> rw [h]
  rfl

@[simp] theorem writeLock_snd (disk : Disk) (c : Conn) :
    (c.writeLock disk).2 = disk.grants c.locks := by
  rcases c.writeLock_cases disk with ⟨hg, h⟩ | ⟨hg, h⟩ <;> rw [h, hg]

theorem writeLock_granted {disk : Disk} {c : Conn} (h : (c.writeLock disk).2 = true) :
    (c.writeLock disk).1.granted = true := by
  rcases c.writeLock_cases disk with ⟨-, hl⟩ | ⟨-, hl⟩ <;> rw [hl] at h ⊢
  exact absurd h (by simp)

@[simp] theorem setJournal_pragmas (disk : Disk) (name : String) (c : Conn) :
    (c.setJournal disk name).pragmas = c.pragmas + 1 := by
  rcases c.setJournal_cases disk name with h | ⟨m, -, -, h⟩ <;> rw [h]
  rfl

@[simp] theorem writeLock_pragmas (disk : Disk) (c : Conn) :
    (c.writeLock disk).1.pragmas = c.pragmas := by
  rcases c.writeLock_cases disk with ⟨-, h⟩ | ⟨-, h⟩ <;> rw [h]
  rfl

/-- Under normal locking the log is not entered in exclusive mode. -/
theorem enter_entered_ne {c : Conn} (hl : c.locking = .normal) (he : c.entered ≠ some .exclusive)
    (m : JournalMode) : (c.enter m).entered ≠ some .exclusive := by
  rw [enter, hl]
  cases hentered : c.entered with
  | none => split <;> simp
  | some l => split <;> simp_all

theorem logOnly_writeLock (disk : Disk) {c : Conn} (h : c.LogOnly) :
    (c.writeLock disk).1.LogOnly := by
  rcases c.writeLock_cases disk with ⟨-, hl⟩ | ⟨-, hl⟩ <;> rw [hl]
  · exact h
  · exact logOnly_enter { c with locks := c.locks + 1 } c.journal

end Conn

/-! ## The negotiation -/

inductive ModeError where
  | notAMode (wanted : String)
  | couldNotPut (wanted settled : String)
  | opening (path : String)
  | stuck (path wanted mode : String)
  | reopening (path : String)
  | noMode (path wanted : String)
  deriving DecidableEq, Repr

def busyTimeoutMs : ℤ := 5000

/-- The journal mode that the environment asks for. -/
def targetMode (env : Option String) : String :=
  ((env.map fun v => String.ofList (Text.trim v.toList)).filter (· ≠ "")).getD "WAL"

def currentJournalMode (c : Conn) : String := c.journal.name

/-- The mode to fall back to. It needs no shared memory. -/
def rollback : String := "TRUNCATE"

def journalModes : List String := ["DELETE", "TRUNCATE", "PERSIST", "MEMORY", "WAL", "OFF"]

def validateModeName (wanted : String) : Except ModeError Unit :=
  if journalModes.any fun m => eqIgnoreAsciiCase m (String.ofList (Text.trim wanted.toList)) then
    .ok ()
  else .error (.notAMode wanted)

/-- Is the database in the wanted mode, and does that mode work? -/
def modeHolds (disk : Disk) (wanted : String) (c : Conn) : Conn × Bool :=
  if eqIgnoreAsciiCase (currentJournalMode c) wanted then c.writeLock disk else (c, false)

def tryMode (disk : Disk) (wanted : String) (c : Conn) : Conn × Bool :=
  modeHolds disk wanted (c.setJournal disk wanted)

/-- Convert the journal under an exclusive lock, then give the lock back. -/
def drainUnderExclusiveLock (disk : Disk) (wanted : String) (c : Conn) : Conn :=
  ((((c.setLocking .exclusive).setJournal disk wanted).setLocking .normal).writeLock disk).1

/-- Put the database into `wanted`, and return the mode in force. -/
def setJournalMode (disk : Disk) (wanted : String) (c : Conn) : Conn × Except ModeError String :=
  match validateModeName wanted with
  | .error e => (c, .error e)
  | .ok () =>
      let tried := tryMode disk wanted c
      if tried.2 then (tried.1, .ok (currentJournalMode tried.1))
      else if eqIgnoreAsciiCase (currentJournalMode tried.1) "memory" then
        (tried.1, .ok (currentJournalMode tried.1))
      else
        let drained := modeHolds disk wanted (drainUnderExclusiveLock disk wanted tried.1)
        if drained.2 then (drained.1, .ok (currentJournalMode drained.1))
        else if eqIgnoreAsciiCase wanted rollback then
          (drained.1, .error (.couldNotPut wanted (currentJournalMode drained.1)))
        else
          let retried := tryMode disk rollback drained.1
          if retried.2 then (retried.1, .ok (currentJournalMode retried.1))
          else
            let settled := modeHolds disk rollback (drainUnderExclusiveLock disk rollback retried.1)
            if settled.2 then (settled.1, .ok (currentJournalMode settled.1))
            else (settled.1, .error (.couldNotPut wanted (currentJournalMode settled.1)))

/-- A connection before the conversion: it waits for locks, and what it writes is durable. -/
def primed (c : Conn) : Conn := { c with busyTimeout := busyTimeoutMs, synchronous := .full }

/-- Negotiate the journal mode with the durability that the outcome requires. -/
def configureJournalTo (disk : Disk) (wanted : String) (c : Conn) :
    Conn × Except ModeError String :=
  let r := setJournalMode disk wanted (primed c)
  match r.2 with
  | .error e => (r.1, .error e)
  | .ok mode =>
      if eqIgnoreAsciiCase mode "wal" then ({ r.1 with synchronous := .normal }, .ok mode)
      else (r.1, .ok mode)

/-- Open a database on whatever terms the file system allows. -/
def openConfigured (env : Option String) (disk : Disk) (path : String) (allowExclusive : Bool) :
    Except ModeError Conn := do
  let wanted := targetMode env
  validateModeName wanted
  let some found := disk.found 0 | .error (.opening path)
  let first := configureJournalTo disk wanted (Conn.fresh found)
  if first.2.isOk then return first.1
  if !allowExclusive then .error (.stuck path wanted (currentJournalMode first.1))
  let some found := disk.found 1 | .error (.reopening path)
  let reopened := { Conn.fresh found with pragmas := first.1.pragmas, locks := first.1.locks }
  let second := configureJournalTo disk wanted (reopened.setLocking .exclusive)
  if second.2.isOk then return second.1
  let third := configureJournalTo disk "TRUNCATE" second.1
  if third.2.isOk then return third.1
  .error (.noMode path wanted)

/-! ## What one step does -/

/-- Where a mode holds a write lock was granted in it. -/
theorem modeHolds_of_true {disk : Disk} {wanted : String} {c : Conn}
    (h : (modeHolds disk wanted c).2 = true) :
    eqIgnoreAsciiCase c.journal.name wanted = true ∧
      (modeHolds disk wanted c).1.granted = true := by
  rw [modeHolds] at h ⊢
  split at h
  · next hname =>
      rw [if_pos hname]
      exact ⟨hname, Conn.writeLock_granted h⟩
  · exact absurd h (by simp)

theorem modeHolds_of_journal {disk : Disk} {wanted : String} {c : Conn} {m : JournalMode}
    (hw : JournalMode.ofName wanted = some m) (hc : c.journal = m) :
    modeHolds disk wanted c = c.writeLock disk := by
  rw [modeHolds, currentJournalMode, hc, JournalMode.eqIgnoreAsciiCase_name hw]
  simp

theorem modeHolds_of_journal_ne {disk : Disk} {wanted : String} {c : Conn} {m : JournalMode}
    (hw : JournalMode.ofName wanted = some m) (hc : c.journal ≠ m) :
    modeHolds disk wanted c = (c, false) := by
  rw [modeHolds, currentJournalMode, JournalMode.eqIgnoreAsciiCase_name hw]
  simp [hc]

@[simp] theorem modeHolds_journal (disk : Disk) (wanted : String) (c : Conn) :
    (modeHolds disk wanted c).1.journal = c.journal := by
  rw [modeHolds]
  split <;> simp

@[simp] theorem modeHolds_locking (disk : Disk) (wanted : String) (c : Conn) :
    (modeHolds disk wanted c).1.locking = c.locking := by
  rw [modeHolds]
  split <;> simp

@[simp] theorem modeHolds_synchronous (disk : Disk) (wanted : String) (c : Conn) :
    (modeHolds disk wanted c).1.synchronous = c.synchronous := by
  rw [modeHolds]
  split <;> simp

theorem logOnly_modeHolds (disk : Disk) (wanted : String) {c : Conn} (h : c.LogOnly) :
    (modeHolds disk wanted c).1.LogOnly := by
  rw [modeHolds]
  split
  · exact Conn.logOnly_writeLock disk h
  · exact h

@[simp] theorem tryMode_locking (disk : Disk) (wanted : String) (c : Conn) :
    (tryMode disk wanted c).1.locking = c.locking := by
  simp [tryMode]

@[simp] theorem tryMode_synchronous (disk : Disk) (wanted : String) (c : Conn) :
    (tryMode disk wanted c).1.synchronous = c.synchronous := by
  simp [tryMode]

@[simp] theorem tryMode_pragmas (disk : Disk) (wanted : String) (c : Conn) :
    (tryMode disk wanted c).1.pragmas = c.pragmas + 1 := by
  rw [tryMode, modeHolds]
  split <;> simp

/-- Trying a mode under normal locking does not enter the log in exclusive mode. -/
theorem tryMode_entered_ne {disk : Disk} {wanted : String} {c : Conn} (hl : c.locking = .normal)
    (he : c.entered ≠ some .exclusive) :
    (tryMode disk wanted c).1.entered ≠ some .exclusive := by
  have hset : (c.setJournal disk wanted).entered ≠ some .exclusive := by
    rcases c.setJournal_cases disk wanted with h | ⟨m, -, -, h⟩ <;> rw [h]
    · exact he
    · exact Conn.enter_entered_ne hl he m
  rw [tryMode, modeHolds]
  split
  · rcases (c.setJournal disk wanted).writeLock_cases disk with ⟨-, h⟩ | ⟨-, h⟩ <;> rw [h]
    · exact hset
    · exact Conn.enter_entered_ne ((c.setJournal_locking disk wanted).trans hl) hset _
  · exact hset

theorem logOnly_tryMode (disk : Disk) (wanted : String) {c : Conn} (h : c.LogOnly) :
    (tryMode disk wanted c).1.LogOnly :=
  logOnly_modeHolds disk wanted (Conn.logOnly_setJournal disk wanted h)

@[simp] theorem drainUnderExclusiveLock_synchronous (disk : Disk) (wanted : String) (c : Conn) :
    (drainUnderExclusiveLock disk wanted c).synchronous = c.synchronous := by
  simp [drainUnderExclusiveLock]

theorem logOnly_drainUnderExclusiveLock (disk : Disk) (wanted : String) {c : Conn}
    (h : c.LogOnly) : (drainUnderExclusiveLock disk wanted c).LogOnly := by
  have hset := Conn.logOnly_setJournal disk wanted (Conn.logOnly_setLocking .exclusive h)
  exact Conn.logOnly_writeLock disk (Conn.logOnly_setLocking .normal hset)

/-- A drain gives the lock back unless it entered the write-ahead log. -/
theorem drainUnderExclusiveLock_locking {disk : Disk} {wanted : String} {c : Conn}
    (h : ((c.setLocking .exclusive).setJournal disk wanted).entered ≠ some .exclusive) :
    (drainUnderExclusiveLock disk wanted c).locking = .normal := by
  rw [drainUnderExclusiveLock, Conn.writeLock_locking]
  exact Conn.setLocking_normal_locking h

/-- A drain that ends outside the write-ahead log gives the lock back. -/
theorem drainUnderExclusiveLock_locking_of_journal {disk : Disk} {wanted : String} {c : Conn}
    (h : c.LogOnly) (hj : (drainUnderExclusiveLock disk wanted c).journal ≠ .wal) :
    (drainUnderExclusiveLock disk wanted c).locking = .normal := by
  have hset := Conn.logOnly_setJournal disk wanted (Conn.logOnly_setLocking .exclusive h)
  rw [drainUnderExclusiveLock, Conn.writeLock_journal, Conn.setLocking_journal] at hj
  apply drainUnderExclusiveLock_locking
  rw [hset hj]
  simp

/-! ## The stages of a negotiation -/

/-- Is the wanted mode in force after the first drain? -/
def drained (disk : Disk) (wanted : String) (c : Conn) : Conn × Bool :=
  modeHolds disk wanted (drainUnderExclusiveLock disk wanted (tryMode disk wanted c).1)

/-- Is the rollback journal in force after it was asked for? -/
def retried (disk : Disk) (wanted : String) (c : Conn) : Conn × Bool :=
  tryMode disk rollback (drained disk wanted c).1

/-- Is the rollback journal in force after the second drain? -/
def settled (disk : Disk) (wanted : String) (c : Conn) : Conn × Bool :=
  modeHolds disk rollback (drainUnderExclusiveLock disk rollback (retried disk wanted c).1)

/-- A negotiation by its stages. -/
theorem setJournalMode_eq {disk : Disk} {wanted : String} {c : Conn}
    (hvalid : validateModeName wanted = .ok ()) : setJournalMode disk wanted c =
      if (tryMode disk wanted c).2 then
        ((tryMode disk wanted c).1, .ok (currentJournalMode (tryMode disk wanted c).1))
      else if eqIgnoreAsciiCase (currentJournalMode (tryMode disk wanted c).1) "memory" then
        ((tryMode disk wanted c).1, .ok (currentJournalMode (tryMode disk wanted c).1))
      else if (drained disk wanted c).2 then
        ((drained disk wanted c).1, .ok (currentJournalMode (drained disk wanted c).1))
      else if eqIgnoreAsciiCase wanted rollback then
        ((drained disk wanted c).1,
          .error (.couldNotPut wanted (currentJournalMode (drained disk wanted c).1)))
      else if (retried disk wanted c).2 then
        ((retried disk wanted c).1, .ok (currentJournalMode (retried disk wanted c).1))
      else if (settled disk wanted c).2 then
        ((settled disk wanted c).1, .ok (currentJournalMode (settled disk wanted c).1))
      else
        ((settled disk wanted c).1,
          .error (.couldNotPut wanted (currentJournalMode (settled disk wanted c).1))) := by
  rw [setJournalMode, hvalid, settled, retried, drained]

/-- The stage at which a negotiation ends. -/
inductive Ends (disk : Disk) (wanted : String) (c : Conn) : Conn → Prop where
  | tried (h : (tryMode disk wanted c).2 = true) : Ends disk wanted c (tryMode disk wanted c).1
  | memory (h : (tryMode disk wanted c).1.journal = .memory) :
      Ends disk wanted c (tryMode disk wanted c).1
  | drained (hm : (tryMode disk wanted c).1.journal ≠ .memory)
      (ht : (tryMode disk wanted c).2 = false) (h : (drained disk wanted c).2 = true) :
      Ends disk wanted c (drained disk wanted c).1
  | retried (hm : (tryMode disk wanted c).1.journal ≠ .memory)
      (ht : (tryMode disk wanted c).2 = false) (hd : (Sqlite.drained disk wanted c).2 = false)
      (h : (retried disk wanted c).2 = true) : Ends disk wanted c (retried disk wanted c).1
  | settled (h : (settled disk wanted c).2 = true) : Ends disk wanted c (settled disk wanted c).1

theorem currentJournalMode_eq_memory {c : Conn} :
    eqIgnoreAsciiCase (currentJournalMode c) "memory" = true ↔ c.journal = .memory := by
  rw [currentJournalMode, JournalMode.eqIgnoreAsciiCase_name (m := .memory) (by decide),
    decide_eq_true_iff]

/-- A negotiation that succeeds ends at one of its stages, with the mode in force there. -/
theorem ends_of_setJournalMode {disk : Disk} {wanted : String} {c : Conn} {mode : String}
    (h : (setJournalMode disk wanted c).2 = .ok mode) :
    Ends disk wanted c (setJournalMode disk wanted c).1 ∧
      mode = currentJournalMode (setJournalMode disk wanted c).1 := by
  rcases hr : setJournalMode disk wanted c with ⟨c', r⟩
  rw [hr] at h
  obtain rfl : r = .ok mode := h
  cases hvalid : validateModeName wanted with
  | error e => simp [setJournalMode, hvalid] at hr
  | ok u =>
      rw [setJournalMode_eq hvalid] at hr
      split_ifs at hr with htry hmem hdrain hroll hretry hsettle
      · rcases Prod.mk.inj hr with ⟨rfl, hmode⟩
        exact ⟨.tried htry, (Except.ok.inj hmode).symm⟩
      · rcases Prod.mk.inj hr with ⟨rfl, hmode⟩
        exact ⟨.memory (currentJournalMode_eq_memory.1 hmem), (Except.ok.inj hmode).symm⟩
      · rcases Prod.mk.inj hr with ⟨rfl, hmode⟩
        exact ⟨.drained (mt currentJournalMode_eq_memory.2 hmem) (Bool.eq_false_iff.2 htry)
          hdrain, (Except.ok.inj hmode).symm⟩
      · simp only [Prod.mk.injEq, reduceCtorEq, and_false] at hr
      · rcases Prod.mk.inj hr with ⟨rfl, hmode⟩
        exact ⟨.retried (mt currentJournalMode_eq_memory.2 hmem) (Bool.eq_false_iff.2 htry)
          (Bool.eq_false_iff.2 hdrain) hretry, (Except.ok.inj hmode).symm⟩
      · rcases Prod.mk.inj hr with ⟨rfl, hmode⟩
        exact ⟨.settled hsettle, (Except.ok.inj hmode).symm⟩
      · simp only [Prod.mk.injEq, reduceCtorEq, and_false] at hr

/-! ## The claimed mode -/

/-- An opened database is in the mode it claims to be in. -/
structure AsClaimed (wanted : String) (c : Conn) : Prop where
  mode : eqIgnoreAsciiCase c.journal.name wanted = true ∨ c.journal = .truncate ∨
    c.journal = .memory
  works : c.journal ≠ .memory → c.granted = true
  durable : c.journal ≠ .wal → c.synchronous = .full
  shared : c.locking = .normal

/-- What holds of a connection whose mode was settled. -/
def Settled (wanted : String) (c : Conn) : Prop :=
  (eqIgnoreAsciiCase c.journal.name wanted = true ∨ c.journal = .truncate ∨
      c.journal = .memory) ∧
    (c.journal ≠ .memory → c.granted = true)

theorem settled_modeHolds {disk : Disk} {wanted : String} {c : Conn}
    (h : (modeHolds disk wanted c).2 = true) : Settled wanted (modeHolds disk wanted c).1 := by
  rcases modeHolds_of_true h with ⟨hname, hgranted⟩
  rw [← modeHolds_journal disk wanted c] at hname
  exact ⟨.inl hname, fun _ => hgranted⟩

theorem settled_rollback {disk : Disk} {wanted : String} {c : Conn}
    (h : (modeHolds disk rollback c).2 = true) : Settled wanted (modeHolds disk rollback c).1 := by
  rcases modeHolds_of_true h with ⟨hname, hgranted⟩
  have hj : c.journal = .truncate := JournalMode.eq_of_eqIgnoreAsciiCase hname (by decide)
  rw [← modeHolds_journal disk rollback c] at hj
  exact ⟨.inr (.inl hj), fun _ => hgranted⟩

/-- The mode is negotiated without touching the durability. -/
theorem setJournalMode_synchronous (disk : Disk) (wanted : String) (c : Conn) :
    (setJournalMode disk wanted c).1.synchronous = c.synchronous := by
  rw [setJournalMode]
  split
  · rfl
  · dsimp only
    split_ifs <;> simp

/-- A negotiation that succeeds settles the mode on every file system. -/
theorem settled_of_ends {disk : Disk} {wanted : String} {c c' : Conn}
    (h : Ends disk wanted c c') : Settled wanted c' := by
  cases h with
  | tried h => exact settled_modeHolds h
  | memory h => exact ⟨.inr (.inr h), fun hm => absurd h hm⟩
  | drained _ _ h =>
      rw [drained] at h ⊢
      exact settled_modeHolds h
  | retried _ _ _ h =>
      rw [retried, tryMode] at h ⊢
      exact settled_rollback h
  | settled h =>
      rw [settled] at h ⊢
      exact settled_rollback h

/-! ## The locking mode -/

/-- A drain enters the write-ahead log in exclusive mode only where the log is the wanted mode,
the pragma takes effect and the connection has not entered it before. -/
theorem entered_setJournal_exclusive {disk : Disk} {wanted : String} {c : Conn}
    (hc : c.entered ≠ some .exclusive)
    (h : ((c.setLocking .exclusive).setJournal disk wanted).entered = some .exclusive) :
    JournalMode.ofName wanted = some .wal ∧ disk.takes c.pragmas = true ∧ c.entered = none := by
  rcases (c.setLocking .exclusive).setJournal_cases disk wanted
    with hset | ⟨m, hname, htakes, hset⟩
  · rw [hset] at h
    rw [← Conn.setLocking_entered .exclusive c] at hc
    exact absurd h hc
  · rw [hset] at h
    simp only [Conn.enter, Conn.setLocking_entered] at h
    split at h
    · next hm =>
        subst hm
        refine ⟨hname, by simpa using htakes, ?_⟩
        cases hentered : c.entered with
        | none => rfl
        | some l =>
            rw [hentered] at h hc
            exact absurd h hc
    · exact absurd h (by simp)

/-- The connection that a negotiation starts from. -/
def begun (found : JournalMode) : Conn := primed (Conn.fresh found)

/-- The number of write locks asked for before the first drain, where the first journal pragma
does not take effect. -/
def locksBeforeDrain (found : JournalMode) : ℕ := if found = .wal then 1 else 0

/-- The connection after a first journal pragma that does not take effect. -/
def refused (found : JournalMode) : Conn :=
  { begun found with pragmas := 1, locks := locksBeforeDrain found }

/-- The connection after a drain that entered the write-ahead log. -/
def heldByDrain (disk : Disk) (found : JournalMode) : Conn :=
  { begun found with
    journal := .wal
    locking := .exclusive
    entered := some .exclusive
    granted := disk.grants (locksBeforeDrain found)
    pragmas := 2
    locks := locksBeforeDrain found + 1 }

/-- The file system on which a connection enters the write-ahead log by the drain, and is kept
from then on: the first journal pragma does not take effect and the one under the exclusive lock
does, a log found there does not grant a write lock before, and one is granted after, in the log
or in the rollback journal. -/
def EntersByDrain (disk : Disk) (found : JournalMode) : Prop :=
  found ≠ .memory ∧ disk.takes 0 = false ∧ (found = .wal → disk.grants 0 = false) ∧
    disk.takes 1 = true ∧
      (disk.grants (locksBeforeDrain found + 1) = true ∨
        disk.takes 2 = true ∧ disk.grants (locksBeforeDrain found + 2) = true)

instance (disk : Disk) (found : JournalMode) : Decidable (EntersByDrain disk found) :=
  inferInstanceAs (Decidable (_ ∧ _))

section Log

variable {disk : Disk} {wanted : String} {found : JournalMode}
  (hw : JournalMode.ofName wanted = some .wal)

include hw

/-- Where the first journal pragma takes effect the log is entered in normal mode. -/
theorem tryMode_begun_entered (h : disk.takes 0 = true) :
    (tryMode disk wanted (begun found)).1.entered = some .normal := by
  rw [tryMode, Conn.setJournal_of_takes hw h, modeHolds_of_journal hw rfl]
  rcases ({ begun found with pragmas := (begun found).pragmas + 1 }.enter .wal).writeLock_cases disk
    with ⟨-, hl⟩ | ⟨-, hl⟩ <;> rw [hl] <;> rfl

/-- Where it does not, a log found in the file is asked for a write lock. -/
theorem tryMode_begun_of_wal (h : disk.takes 0 = false) (hf : found = .wal) :
    tryMode disk wanted (begun found) =
      ({ begun found with pragmas := 1 } : Conn).writeLock disk := by
  rw [tryMode, Conn.setJournal_of_not_takes wanted h, modeHolds_of_journal hw hf]
  rfl

theorem tryMode_begun_of_ne (h : disk.takes 0 = false) (hf : found ≠ .wal) :
    tryMode disk wanted (begun found) = (refused found, false) := by
  rw [tryMode, Conn.setJournal_of_not_takes wanted h, modeHolds_of_journal_ne hw hf, refused,
    locksBeforeDrain, if_neg hf]
  rfl

/-- The first try comes to nothing where the log does not grant a write lock. -/
theorem tryMode_begun (h : disk.takes 0 = false) (hg : found = .wal → disk.grants 0 = false) :
    tryMode disk wanted (begun found) = (refused found, false) := by
  by_cases hf : found = .wal
  · have hl : ({ begun found with pragmas := 1 } : Conn).writeLock disk =
        (refused found, false) := by
      rw [refused, locksBeforeDrain, if_pos hf, Conn.writeLock]
      simp [begun, primed, Conn.fresh, hg hf]
    rw [tryMode_begun_of_wal hw h hf, hl]
  · exact tryMode_begun_of_ne hw h hf

theorem grants_of_tryMode_begun (h : disk.takes 0 = false)
    (ht : (tryMode disk wanted (begun found)).2 = false) (hf : found = .wal) :
    disk.grants 0 = false := by
  rw [tryMode_begun_of_wal hw h hf, Conn.writeLock_snd] at ht
  exact ht

/-- The drain then enters the write-ahead log under the exclusive lock. -/
theorem drain_refused (h : disk.takes 1 = true) :
    drainUnderExclusiveLock disk wanted (refused found) = heldByDrain disk found := by
  have hset : ((refused found).setLocking .exclusive).setJournal disk wanted =
      { refused found with
        journal := .wal, locking := .exclusive, entered := some .exclusive, pragmas := 2 } := by
    rw [Conn.setJournal_of_takes hw h]
    simp [refused, begun, primed, Conn.fresh, Conn.setLocking, Conn.enter]
  rw [drainUnderExclusiveLock, hset, Conn.setLocking, if_pos ⟨rfl, rfl⟩]
  rcases Conn.writeLock_cases disk { refused found with
    journal := .wal, locking := .exclusive, entered := some .exclusive, pragmas := 2 }
    with ⟨hg, hl⟩ | ⟨hg, hl⟩
  · rw [hl, heldByDrain]
    simp [refused, begun, primed, Conn.fresh] at hg ⊢
    exact hg
  · rw [hl, heldByDrain]
    simp [refused, begun, primed, Conn.fresh, Conn.enter] at hg ⊢
    exact hg

/-- A connection held by the drain is asked for a write lock in the log. -/
theorem drained_begun (h0 : disk.takes 0 = false) (hg : found = .wal → disk.grants 0 = false)
    (h1 : disk.takes 1 = true) :
    drained disk wanted (begun found) = (heldByDrain disk found).writeLock disk := by
  rw [drained, tryMode_begun hw h0 hg, drain_refused hw h1, modeHolds_of_journal hw rfl]

/-- Where the log does not grant it, the rollback journal is tried in the same locking mode. -/
theorem retried_begun_snd (h0 : disk.takes 0 = false) (hg : found = .wal → disk.grants 0 = false)
    (h1 : disk.takes 1 = true) (hd : (drained disk wanted (begun found)).2 = false) :
    (retried disk wanted (begun found)).2 =
      (disk.takes 2 && disk.grants (locksBeforeDrain found + 2)) := by
  have hroll : JournalMode.ofName rollback = some .truncate := by decide
  have heq := drained_begun hw h0 hg h1
  rw [heq, Conn.writeLock_snd] at hd
  rw [retried, heq, Conn.writeLock, if_neg (Bool.eq_false_iff.1 hd), tryMode]
  cases h2 : disk.takes 2 with
  | false =>
      rw [Conn.setJournal_of_not_takes rollback h2,
        modeHolds_of_journal_ne hroll (by simp [heldByDrain])]
      rfl
  | true =>
      rw [Conn.setJournal_of_takes hroll h2, modeHolds_of_journal hroll rfl, Conn.writeLock_snd]
      rfl

end Log

/-- A drain that leaves the connection in the log it entered exclusively was preceded by a first
pragma without effect. -/
theorem of_entered_drain {disk : Disk} {wanted : String} {found : JournalMode}
    (hm : (tryMode disk wanted (begun found)).1.journal ≠ .memory)
    (ht : (tryMode disk wanted (begun found)).2 = false)
    (h : ((((tryMode disk wanted (begun found)).1).setLocking .exclusive).setJournal
      disk wanted).entered = some .exclusive) :
    JournalMode.ofName wanted = some .wal ∧ found ≠ .memory ∧ disk.takes 0 = false ∧
      (found = .wal → disk.grants 0 = false) ∧ disk.takes 1 = true := by
  have hfresh : (begun found).entered ≠ some .exclusive := by
    simp [begun, primed, Conn.fresh]
  rcases entered_setJournal_exclusive (tryMode_entered_ne rfl hfresh) h
    with ⟨hw, h1, hentered⟩
  have h0 : disk.takes 0 = false := by
    by_contra h0
    rw [tryMode_begun_entered hw (Bool.eq_true_of_not_eq_false h0)] at hentered
    exact absurd hentered (by simp)
  have hg : found = .wal → disk.grants 0 = false := grants_of_tryMode_begun hw h0 ht
  rw [tryMode_begun hw h0 hg] at hm
  rw [tryMode_pragmas] at h1
  exact ⟨hw, hm, h0, hg, h1⟩

/-- A negotiation that succeeds ends in normal locking, or by the drain. -/
theorem locking_of_ends {disk : Disk} {wanted : String} {found : JournalMode} {c : Conn}
    (h : Ends disk wanted (begun found) c) :
    c.locking = .normal ∨ JournalMode.ofName wanted = some .wal ∧ EntersByDrain disk found := by
  cases h with
  | tried h => exact .inl (by simp [begun, primed, Conn.fresh])
  | memory h => exact .inl (by simp [begun, primed, Conn.fresh])
  | drained hm ht h =>
      by_cases hset : ((((tryMode disk wanted (begun found)).1).setLocking .exclusive).setJournal
        disk wanted).entered = some .exclusive
      · rcases of_entered_drain hm ht hset with ⟨hw, hf, h0, hg, h1⟩
        rw [drained_begun hw h0 hg h1, Conn.writeLock_snd] at h
        exact .inr ⟨hw, hf, h0, hg, h1, .inl h⟩
      · exact .inl ((modeHolds_locking _ _ _).trans (drainUnderExclusiveLock_locking hset))
  | retried hm ht hd h =>
      by_cases hset : ((((tryMode disk wanted (begun found)).1).setLocking .exclusive).setJournal
        disk wanted).entered = some .exclusive
      · rcases of_entered_drain hm ht hset with ⟨hw, hf, h0, hg, h1⟩
        rw [retried_begun_snd hw h0 hg h1 hd, Bool.and_eq_true] at h
        exact .inr ⟨hw, hf, h0, hg, h1, .inr h⟩
      · left
        rw [retried, tryMode_locking, drained, modeHolds_locking]
        exact drainUnderExclusiveLock_locking hset
  | settled h =>
      left
      have hlog : (retried disk wanted (begun found)).1.LogOnly := by
        apply logOnly_tryMode
        apply logOnly_modeHolds
        apply logOnly_drainUnderExclusiveLock
        exact logOnly_tryMode disk wanted (Conn.logOnly_fresh found)
      have hj : (drainUnderExclusiveLock disk rollback
          (retried disk wanted (begun found)).1).journal = .truncate :=
        JournalMode.eq_of_eqIgnoreAsciiCase (modeHolds_of_true h).1 (by decide)
      rw [settled, modeHolds_locking]
      exact drainUnderExclusiveLock_locking_of_journal hlog (by rw [hj]; decide)

/-- A negotiation that the first drain settles. -/
theorem setJournalMode_of_drained {disk : Disk} {wanted : String} {c : Conn}
    (hvalid : validateModeName wanted = .ok ()) (ht : (tryMode disk wanted c).2 = false)
    (hm : (tryMode disk wanted c).1.journal ≠ .memory)
    (hd : (drained disk wanted c).2 = true) : setJournalMode disk wanted c =
      ((drained disk wanted c).1, .ok (currentJournalMode (drained disk wanted c).1)) := by
  have hmem := mt currentJournalMode_eq_memory.1 hm
  rw [setJournalMode_eq hvalid, if_neg (Bool.eq_false_iff.1 ht), if_neg hmem, if_pos hd]

/-- A negotiation that the rollback journal settles. -/
theorem setJournalMode_of_retried {disk : Disk} {wanted : String} {c : Conn}
    (hvalid : validateModeName wanted = .ok ()) (hroll : eqIgnoreAsciiCase wanted rollback = false)
    (ht : (tryMode disk wanted c).2 = false) (hm : (tryMode disk wanted c).1.journal ≠ .memory)
    (hd : (drained disk wanted c).2 = false) (hr : (retried disk wanted c).2 = true) :
    setJournalMode disk wanted c =
      ((retried disk wanted c).1, .ok (currentJournalMode (retried disk wanted c).1)) := by
  have hmem := mt currentJournalMode_eq_memory.1 hm
  rw [setJournalMode_eq hvalid, if_neg (Bool.eq_false_iff.1 ht), if_neg hmem,
    if_neg (Bool.eq_false_iff.1 hd), if_neg (Bool.eq_false_iff.1 hroll), if_pos hr]

theorem wal_ne_rollback {wanted : String} (hw : JournalMode.ofName wanted = some .wal) :
    eqIgnoreAsciiCase wanted rollback = false := by
  rw [JournalMode.ofName_eq_some, eqIgnoreAsciiCase, beq_iff_eq] at hw
  rw [eqIgnoreAsciiCase, ← hw]
  decide

/-- Where the drain enters the log, a negotiation succeeds in exclusive mode. -/
theorem setJournalMode_of_entersByDrain {disk : Disk} {wanted : String} {found : JournalMode}
    (hvalid : validateModeName wanted = .ok ()) (hw : JournalMode.ofName wanted = some .wal)
    (h : EntersByDrain disk found) :
    (setJournalMode disk wanted (begun found)).2.isOk = true ∧
      (setJournalMode disk wanted (begun found)).1.locking = .exclusive := by
  rcases h with ⟨hm, h0, hg, h1, hend⟩
  have htried := tryMode_begun hw h0 hg
  have ht : (tryMode disk wanted (begun found)).2 = false := by rw [htried]
  have hmem : (tryMode disk wanted (begun found)).1.journal ≠ .memory := by
    rw [htried]
    exact hm
  have hdrained := drained_begun hw h0 hg h1
  have hlocking : (drained disk wanted (begun found)).1.locking = .exclusive := by
    rw [hdrained, Conn.writeLock_locking]
    rfl
  by_cases hd : (drained disk wanted (begun found)).2 = true
  · rw [setJournalMode_of_drained hvalid ht hmem hd]
    exact ⟨rfl, hlocking⟩
  · have hlater : disk.takes 2 = true ∧ disk.grants (locksBeforeDrain found + 2) = true := by
      rcases hend with hend | hend
      · rw [hdrained, Conn.writeLock_snd] at hd
        exact absurd hend hd
      · exact hend
    rw [Bool.not_eq_true] at hd
    have hr : (retried disk wanted (begun found)).2 = true := by
      rw [retried_begun_snd hw h0 hg h1 hd, hlater.1, hlater.2]
      rfl
    rw [setJournalMode_of_retried hvalid (wal_ne_rollback hw) ht hmem hd hr]
    refine ⟨rfl, ?_⟩
    rw [retried, tryMode_locking]
    exact hlocking

/-! ## An opened database -/

theorem isOk_iff {ε α : Type} {x : Except ε α} : x.isOk = true ↔ ∃ a, x = .ok a := by
  cases x with
  | error e => simp [Except.isOk, Except.toBool]
  | ok a => simp [Except.isOk, Except.toBool]

/-- Configuring succeeds exactly where the negotiation does. -/
theorem configureJournalTo_snd (disk : Disk) (wanted : String) (c : Conn) :
    (configureJournalTo disk wanted c).2 = (setJournalMode disk wanted (primed c)).2 := by
  unfold configureJournalTo
  rcases setJournalMode disk wanted (primed c) with ⟨c', r⟩
  cases r with
  | error e => rfl
  | ok mode =>
      dsimp only
      split <;> rfl

/-- The locking mode of a configured connection is the one that the negotiation left. -/
theorem configureJournalTo_locking (disk : Disk) (wanted : String) (c : Conn) :
    (configureJournalTo disk wanted c).1.locking =
      (setJournalMode disk wanted (primed c)).1.locking := by
  unfold configureJournalTo
  rcases setJournalMode disk wanted (primed c) with ⟨c', r⟩
  cases r with
  | error e => rfl
  | ok mode =>
      dsimp only
      split <;> rfl

/-- A configured connection is settled, and durable outside the write-ahead log. -/
theorem configureJournalTo_settled {disk : Disk} {wanted : String} {c : Conn}
    (h : (configureJournalTo disk wanted c).2.isOk = true) :
    Settled wanted (configureJournalTo disk wanted c).1 ∧
      ((configureJournalTo disk wanted c).1.journal ≠ .wal →
        (configureJournalTo disk wanted c).1.synchronous = .full) := by
  rcases isOk_iff.1 h with ⟨mode, hmode⟩
  rw [configureJournalTo_snd] at hmode
  rcases ends_of_setJournalMode hmode with ⟨hends, hname⟩
  have hsettled := settled_of_ends hends
  have hfull : (setJournalMode disk wanted (primed c)).1.synchronous = .full :=
    setJournalMode_synchronous disk wanted (primed c)
  unfold configureJournalTo
  generalize setJournalMode disk wanted (primed c) = r at hmode hname hsettled hfull
  rcases r with ⟨c', r⟩
  obtain rfl : r = .ok mode := hmode
  dsimp only
  split
  · next hwal =>
      refine ⟨hsettled, fun hj => absurd ?_ hj⟩
      rw [show mode = c'.journal.name from hname] at hwal
      exact JournalMode.eq_of_eqIgnoreAsciiCase hwal (by decide)
  · exact ⟨hsettled, fun _ => hfull⟩

/-- A wanted log is a valid mode. -/
theorem validateModeName_of_wal {wanted : String} (hw : JournalMode.ofName wanted = some .wal) :
    validateModeName wanted = .ok () := by
  have hlower : wanted.toList.map Char.toLower = ['w', 'a', 'l'] := by
    rw [JournalMode.ofName_eq_some, eqIgnoreAsciiCase, beq_iff_eq] at hw
    rw [← hw]
    decide
  have hspace : ∀ c ∈ wanted.toList, Text.isSpace c = false := by
    intro c hc
    have hmem : c.toLower ∈ ['w', 'a', 'l'] := hlower ▸ List.mem_map_of_mem hc
    have hletter : 97 ≤ c.toLower.toNat ∧ c.toLower.toNat ≤ 122 := by
      simp only [List.mem_cons, List.not_mem_nil, or_false] at hmem
      rcases hmem with h | h | h <;> rw [h] <;> decide
    rw [Text.toNat_toLower] at hletter
    rw [Text.isSpace]
    simp only [Bool.or_eq_false_iff, Bool.and_eq_false_iff, decide_eq_false_iff_not,
      beq_eq_false_iff_ne]
    split at hletter <;> omega
  rw [validateModeName, Text.trim_eq_self hspace, String.ofList_toList, if_pos]
  refine List.any_eq_true.2 ⟨"WAL", by decide, ?_⟩
  rw [eqIgnoreAsciiCase, hlower]
  decide

/-- A connection that is not opened exclusively is the first one, as it was configured. -/
theorem openConfigured_eq_ok {env : Option String} {disk : Disk} {path : String} {c : Conn} :
    openConfigured env disk path false = .ok c ↔
      validateModeName (targetMode env) = .ok () ∧ ∃ found, disk.found 0 = some found ∧
        (configureJournalTo disk (targetMode env) (Conn.fresh found)).2.isOk = true ∧
          (configureJournalTo disk (targetMode env) (Conn.fresh found)).1 = c := by
  rw [openConfigured]
  cases hvalid : validateModeName (targetMode env) with
  | error e => simp [bind, Except.bind]
  | ok u =>
      cases hfound : disk.found 0 with
      | none => simp [bind, Except.bind]
      | some found =>
          simp only [bind, Except.bind, Option.some_inj, exists_eq_left', true_and]
          cases hok : (configureJournalTo disk (targetMode env) (Conn.fresh found)).2.isOk <;>
            simp [pure, Except.pure]

/-- On every file system an opened database is in a mode that works and with the durability that
the mode requires. -/
theorem openConfigured_settled {env : Option String} {disk : Disk} {path : String} {c : Conn}
    (h : openConfigured env disk path false = .ok c) :
    Settled (targetMode env) c ∧ (c.journal ≠ .wal → c.synchronous = .full) := by
  rcases openConfigured_eq_ok.1 h with ⟨-, found, -, hok, rfl⟩
  exact configureJournalTo_settled hok

/-- Every opened database is in the mode it claims to be in, unless the write-ahead log is wanted
and is entered by the drain: then the connection stays in exclusive mode. -/
theorem openConfigured_iff (env : Option String) (disk : Disk) (path : String) :
    (∀ c, openConfigured env disk path false = .ok c → AsClaimed (targetMode env) c) ↔
      ¬(JournalMode.ofName (targetMode env) = some .wal ∧
        ∃ found, disk.found 0 = some found ∧ EntersByDrain disk found) := by
  constructor
  · rintro h ⟨hw, found, hfound, henters⟩
    have hvalid := validateModeName_of_wal hw
    have hexclusive := setJournalMode_of_entersByDrain hvalid hw henters
    rw [begun, ← configureJournalTo_snd, ← configureJournalTo_locking] at hexclusive
    have hclaimed := h _ (openConfigured_eq_ok.2 ⟨hvalid, found, hfound, hexclusive.1, rfl⟩)
    rw [hclaimed.shared] at hexclusive
    exact absurd hexclusive.2 (by decide)
  · intro h c hc
    rcases openConfigured_settled hc with ⟨⟨hmode, hworks⟩, hdurable⟩
    rcases openConfigured_eq_ok.1 hc with ⟨-, found, hfound, hok, rfl⟩
    refine ⟨hmode, hworks, hdurable, ?_⟩
    rw [configureJournalTo_snd] at hok
    rcases isOk_iff.1 hok with ⟨mode, hmode⟩
    rw [configureJournalTo_locking]
    rcases locking_of_ends (ends_of_setJournalMode hmode).1 with hl | ⟨hw, henters⟩
    · exact hl
    · exact absurd ⟨hw, found, hfound, henters⟩ h

/-- A file system without shared memory: the log can be entered under an exclusive lock only. -/
def withoutSharedMemory : Disk where
  found := fun _ => some .delete
  takes := fun n => n ≠ 0
  grants := fun _ => true

/-- There the connection is returned in exclusive mode, which no second connection can read. -/
theorem not_asClaimed_withoutSharedMemory :
    ¬∀ c, openConfigured none withoutSharedMemory "wheel.db" false = .ok c →
      AsClaimed (targetMode none) c := by
  intro h
  have hl : (openConfigured none withoutSharedMemory "wheel.db" false).toOption.map Conn.locking =
      some .exclusive := by
    decide +kernel
  cases hc : openConfigured none withoutSharedMemory "wheel.db" false with
  | error e =>
      rw [hc] at hl
      exact absurd hl (by simp [Except.toOption])
  | ok c =>
      rw [hc] at hl
      have hnormal := (h c hc).shared
      simp [Except.toOption, hnormal] at hl

end Wheel.Sqlite
