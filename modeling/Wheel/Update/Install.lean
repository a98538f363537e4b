import Wheel.Update.Driver

/-!
# Installing an update

`install` writes the marker, swaps the binaries and, when an operation of the
swap fails, rolls back and takes the marker away. The rollback renames every
binary that is kept, also one that an earlier update kept and that the swap has
not replaced yet. `install_failure` says for every directory and every operation
that fails that the live binaries come through exactly when no such older binary
is there; `failed_install_downgrades` is an installation that fails at its first
operation and leaves the binaries of two updates ago.
-/

namespace Wheel

namespace Update

open Files

/-- An update that could be applied. -/
structure Candidate where
  target : String
  components : List Component
  commits : ℕ
  touchesCi : Bool
  /-- Why it cannot apply for anyone. -/
  block : Option BlockReason
  deriving DecidableEq

/-- A build that passed every gate. -/
structure Ready where
  requester : Requester
  candidate : Candidate
  staged : Staged

/-- The marker of a build that is about to be installed. -/
def Ready.pending (ready : Ready) (running : String) (now : ℕ) : Pending where
  source := running
  target := ready.candidate.target
  requester := ready.requester
  components := ready.candidate.components
  attempts := 0
  at' := now

/-- The marker first, then the swap. -/
def beginInstall (s : State) (running : String) (ready : Ready) (now : ℕ) : State :=
  { s with pending := some (ready.pending running now), request := none }

/-- What a failed swap leaves of the marker. -/
def swapFailed (s : State) (running : String) (ready : Ready) (now : ℕ) : State :=
  { s with pending := none }.record ((ready.pending running now).row now .swapFailed)

/-- The state, the directory, and whether the build was installed. -/
structure Installed where
  state : State
  dir : BinDir
  ok : Bool

/-- Install a build; `fault` is the operation of the swap that fails, if one does. -/
def install (s : State) (d : BinDir) (running : String) (ready : Ready) (now : ℕ)
    (fault : Option Fault) : Installed :=
  let s := beginInstall s running ready now
  let swapped := perform fault (swap ready.staged) d
  if swapped.2 then ⟨s, swapped.1, true⟩
  else ⟨swapFailed s running ready now, (rollback swapped.1).1, false⟩

/-- When operation `k` fails, the swap has already removed what an earlier update
kept of `b`. -/
def PrevRemoved (staged : Staged) (k : ℕ) (b : Binary) : Prop :=
  ∃ i < k, (swap staged)[i]? = some (.removeFile (.prev b))

/-- What an earlier update kept of `b` cannot come back when operation `k` fails. -/
def NoOlder (staged : Staged) (d : BinDir) (k : ℕ) (b : Binary) : Prop :=
  PrevRemoved staged k b ∨ d.data? (.prev b) = none ∨ d.data? (.prev b) = d.data? (.live b)

/-- Where the swap removes what was kept. -/
def removedAt : Binary → ℕ
  | .wheeld => 2
  | .wheel => 7

theorem prevRemoved_iff (staged : Staged) (k : ℕ) (b : Binary) :
    PrevRemoved staged k b ↔ removedAt b < k := by
  constructor
  · rintro ⟨i, hi, hop⟩
    suffices i = removedAt b from this ▸ hi
    match i, b, hop with
    | 2, .wheeld, _ => rfl
    | 7, .wheel, _ => rfl
    | _ + 10, .wheeld, hop | _ + 10, .wheel, hop => cases hop
  · intro hk
    refine ⟨removedAt b, hk, ?_⟩
    cases b with
    | wheeld => rfl
    | wheel => rfl

variable {s : State} {d : BinDir} {running : String} {ready : Ready} {staged : Staged} {now k : ℕ}
  {debris : Option Exe}

/-- When operation `k` of a swap fails, a rollback brings back what was live,
unless it finds what an earlier update kept. -/
theorem perform_swap_fault (debris : Option Exe) (hlive : ∀ b, d.data? (.live b) ≠ none)
    (hk : k < (swap staged).length) :
    ∃ e, perform (some (k, debris)) (swap staged) d = (e, false) ∧
      ∀ b, (e.data? (.prev b)).or (e.data? (.live b)) =
        if removedAt b < k then d.data? (.live b)
        else (d.data? (.prev b)).or (d.data? (.live b)) := by
  have hk : k < 10 := hk
  have hstart := Swapping.zero staged .wheeld d
  have hl := hlive .wheeld
  rcases Nat.lt_or_ge k 5 with h5 | h5
  · -- the swap of the first binary fails, and the second one was not touched
    obtain ⟨e, op, hop, hs, hp⟩ :=
      hstart.perform_within k debris (swapOps staged .wheel ++ []) hl (by omega)
    rw [Nat.zero_add] at hop hs
    refine ⟨op.fail e debris, hp, fun b => ?_⟩
    rw [hs.fail hop debris (.prev b) nofun, hs.fail hop debris (.live b) nofun]
    cases b with
    | wheeld => exact hs.kept hl
    | wheel =>
        rw [hs.others (.prev .wheel) nofun, hs.others (.live .wheel) nofun]
        exact (if_neg (by simp only [removedAt]; omega)).symm
  · -- the first binary was swapped, and the swap of the second one fails
    obtain ⟨m, hs, hp⟩ := hstart.perform_beyond (some (k, debris)) (swapOps staged .wheel ++ []) hl
      (by omega) (by simpa using h5)
    have hl' : m.data? (.live .wheel) ≠ none := by
      rw [hs.others (.live .wheel) nofun]
      exact hlive .wheel
    obtain ⟨e, op, hop, hs', hp'⟩ :=
      (Swapping.zero staged .wheel m).perform_within (k - 5) debris [] hl' (by omega)
    rw [Nat.zero_add] at hop hs'
    refine ⟨op.fail e debris, hp.trans hp', fun b => ?_⟩
    rw [hs'.fail hop debris (.prev b) nofun, hs'.fail hop debris (.live b) nofun]
    cases b with
    | wheeld =>
        rw [hs'.others (.prev .wheeld) nofun, hs'.others (.live .wheeld) nofun, hs.kept hl,
          if_pos (by omega), if_pos (by simp only [removedAt]; omega)]
    | wheel =>
        rw [hs'.kept hl', hs.others (.prev .wheel) nofun, hs.others (.live .wheel) nofun]
        congr 1
        simp only [removedAt, eq_iff_iff]
        omega

/-- A kept file or none: the live file comes through when both hold the same. -/
theorem or_eq_right_iff {α : Type*} (x y : Option α) : x.or y = y ↔ x = none ∨ x = y := by
  cases x with
  | none => simp
  | some a => simp

/-- After an installation that fails at any operation of the swap, there is no
marker; and the live binaries are what they were exactly when the rollback finds
no older binary. -/
theorem install_failure (hlive : ∀ b, d.data? (.live b) ≠ none)
    (hk : k < (swap ready.staged).length) :
    (install s d running ready now (some (k, debris))).ok = false ∧
      (((install s d running ready now (some (k, debris))).state.pending = none ∧
          ∀ b, (install s d running ready now (some (k, debris))).dir.data? (.live b) =
            d.data? (.live b)) ↔
        ∀ b, NoOlder ready.staged d k b) := by
  obtain ⟨e, hp, hkept⟩ := perform_swap_fault debris hlive hk
  have hinstall : install s d running ready now (some (k, debris)) =
      ⟨swapFailed (beginInstall s running ready now) running ready now, (rollback e).1, false⟩ := by
    rw [install, hp]
    rfl
  rw [hinstall]
  refine ⟨rfl, ?_⟩
  have hnone : (swapFailed (beginInstall s running ready now) running ready now).pending = none :=
    State.record_pending _ _
  simp only [hnone, true_and]
  apply forall_congr'
  intro b
  rw [data?_rollback, hkept, NoOlder, prevRemoved_iff]
  by_cases hb : removedAt b < k
  · simp only [hb, if_true, true_or]
  · rw [if_neg hb, or_eq_right_iff]
    simp only [hb, false_or]

/-- A directory in which each binary has a live file and a kept one. -/
def binDir (live kept : String) : BinDir :=
  let exe (build : String) : Exe := ⟨build, [], exeMode⟩
  (((Dir.empty.put (.live .wheeld) (exe live)).put (.live .wheel) (exe live)).put
    (.prev .wheeld) (exe kept)).put (.prev .wheel) (exe kept)

/-- The operator's update to commit `target`, built. -/
def readyFor (target : String) : Ready where
  requester := .operator
  candidate := ⟨target, [], 1, false, none⟩
  staged := ⟨fun _ => ⟨target, [], exeMode⟩⟩

/-- The last operation of the swap fails, and everything is as it was. -/
theorem install_failure_lastRename :
    (install {} (binDir "b" "a") "b" (readyFor "c") 0 (some (9, none))).state.pending = none ∧
      ∀ b, (install {} (binDir "b" "a") "b" (readyFor "c") 0 (some (9, none))).dir.data?
        (.live b) = (binDir "b" "a").data? (.live b) := by
  refine (install_failure (fun b => ?_) (by decide)).2.mpr fun b => .inl ?_
  · cases b <;> exact Option.some_ne_none _
  · rw [prevRemoved_iff]
    cases b <;> decide

/-- The copy of the first binary fails, and the binaries of two updates ago are
live. -/
theorem failed_install_downgrades :
    ∃ s d running ready now fault, (∀ b, d.data? (.live b) ≠ none) ∧
      (install s d running ready now fault).ok = false ∧
      ∀ b, (install s d running ready now fault).dir.data? (.live b) ≠ d.data? (.live b) := by
  refine ⟨{}, binDir "b" "a", "b", readyFor "c", 0, some (0, none), fun b => ?_, rfl, fun b => ?_⟩
  · cases b <;> exact Option.some_ne_none _
  · cases b <;> decide

end Update

end Wheel
