import Mathlib
import Wheel.Update.State

/-!
# The gate of the continuous integration

`evaluate` says what the check runs of a commit amount to: only runs of the
Actions app count, all of them have to be completed and passed, and each required
check has to be there and to have succeeded. `GithubChecks.verdict` is what the
gate makes of GitHub's reply; whatever cannot be verified is not green.
-/

namespace Wheel

namespace Update

/-- The app whose check runs count. -/
def actionsApp : String := "github-actions"

/-- The most check runs of one reply. -/
def page : ℕ := 100

/-- Why the gate cannot be verified. -/
inductive Unverified where
  | noToken
  | noRepository
  | notACommit (sha : String)
  | answered (status : ℕ)
  | unreachable
  | moreThanAPage (total : ℕ)
  | unparsable
  deriving DecidableEq

inductive Verdict where
  | green
  | pending
  | red (why : String)
  | unverifiable (why : Unverified)
  deriving DecidableEq

structure CheckRun where
  name : String
  status : String
  conclusion : Option String
  /-- The slug of the app it is from. -/
  app : Option String
  deriving DecidableEq

namespace CheckRun

/-- The run is of the Actions app. -/
def isOurs (r : CheckRun) : Bool := r.app == some actionsApp

def passed (r : CheckRun) : Bool :=
  r.conclusion == some "success" || r.conclusion == some "neutral" ||
    r.conclusion == some "skipped"

end CheckRun

/-- The runs that count. -/
def ours (runs : List CheckRun) : List CheckRun := runs.filter CheckRun.isOurs

/-- The names of the runs that did not pass. -/
def failed (runs : List CheckRun) : List String :=
  ((ours runs).filter fun r => !r.passed).map CheckRun.name

/-- The required checks that did not run, or did not succeed. -/
def missing (runs : List CheckRun) (required : List String) : List String :=
  required.filter fun name =>
    !(ours runs).any fun r => r.name == name && r.conclusion == some "success"

/-- What the check runs of a commit amount to. -/
def evaluate (runs : List CheckRun) (required : List String) : Verdict :=
  if (ours runs).isEmpty || (ours runs).any (fun r => r.status != "completed") then .pending
  else if failed runs ≠ [] then .red ("failed: " ++ String.intercalate ", " (failed runs))
  else if missing runs required ≠ [] then
    .red ("required check did not pass: " ++ String.intercalate ", " (missing runs required))
  else .green

theorem failed_eq_nil_iff (runs : List CheckRun) :
    failed runs = [] ↔ ∀ r ∈ ours runs, r.passed = true := by
  simp [failed]

theorem missing_eq_nil_iff (runs : List CheckRun) (required : List String) :
    missing runs required = [] ↔
      ∀ name ∈ required, ∃ r ∈ ours runs, r.name = name ∧ r.conclusion = some "success" := by
  simp [missing]

/-- A commit is green exactly when the Actions app ran on it, each of its runs is
completed and passed, and each required check is among them and succeeded. -/
theorem evaluate_eq_green_iff (runs : List CheckRun) (required : List String) :
    evaluate runs required = .green ↔
      ours runs ≠ [] ∧ (∀ r ∈ ours runs, r.status = "completed" ∧ r.passed = true) ∧
      ∀ name ∈ required, ∃ r ∈ ours runs, r.name = name ∧ r.conclusion = some "success" := by
  rw [← missing_eq_nil_iff, forall₂_and, ← failed_eq_nil_iff, evaluate]
  by_cases hrun : ours runs ≠ [] ∧ ∀ r ∈ ours runs, r.status = "completed"
  · have hgo : ((ours runs).isEmpty || (ours runs).any fun r => r.status != "completed") = false := by
      simpa using hrun
    rw [hgo, if_neg Bool.false_ne_true]
    by_cases hfail : failed runs = []
    · by_cases hmiss : missing runs required = []
      · rw [if_neg (not_not_intro hfail), if_neg (not_not_intro hmiss)]
        exact ⟨fun _ => ⟨hrun.1, ⟨hrun.2, hfail⟩, hmiss⟩, fun _ => rfl⟩
      · simp [hfail, hmiss]
    · simp [hfail]
  · have hstop : ((ours runs).isEmpty || (ours runs).any fun r => r.status != "completed") = true := by
      by_contra hgo
      exact hrun (by simpa using hgo)
    rw [hstop, if_pos rfl]
    constructor
    · intro h
      cases h
    · intro h
      exact absurd ⟨h.1, h.2.1.1⟩ hrun

/-- A git object id, or a prefix of one, in hex. -/
def isSha (s : String) : Bool :=
  7 ≤ s.utf8ByteSize && s.utf8ByteSize ≤ 40 &&
    s.toList.all fun c => ('0' ≤ c && c ≤ '9') || ('a' ≤ c && c ≤ 'f')

/-- What came back from GitHub. -/
inductive Reply where
  | unreachable
  | refused (status : ℕ)
  | unparsable
  | page (total : ℕ) (runs : List CheckRun)

/-- The gate of a GitHub repository. -/
structure GithubChecks where
  repo : Option String
  token : Option String
  required : List String

/-- What the gate makes of GitHub's reply for a commit. -/
def GithubChecks.verdict (gate : GithubChecks) (sha : String) (reply : Reply) : Verdict :=
  match gate.token, gate.repo with
  | none, _ => .unverifiable .noToken
  | some _, none => .unverifiable .noRepository
  | some _, some _ =>
      if !isSha sha then .unverifiable (.notACommit sha)
      else
        match reply with
        | .refused status => .unverifiable (.answered status)
        | .unreachable => .unverifiable .unreachable
        | .unparsable => .unverifiable .unparsable
        | .page total runs =>
            if runs.length < total then .unverifiable (.moreThanAPage total)
            else evaluate runs gate.required

/-- The gate is green only for what `evaluate` finds green on one whole page. -/
theorem GithubChecks.evaluate_of_verdict {gate : GithubChecks} {sha : String} {reply : Reply}
    (h : gate.verdict sha reply = .green) :
    ∃ total runs, reply = .page total runs ∧ total ≤ runs.length ∧
      evaluate runs gate.required = .green := by
  unfold verdict at h
  split at h
  · cases h
  · cases h
  · split at h
    · cases h
    · cases reply with
      | unreachable => cases h
      | refused status => cases h
      | unparsable => cases h
      | page total runs =>
          simp only at h
          split at h
          · cases h
          · rename_i hlt
            exact ⟨total, runs, rfl, Nat.le_of_not_lt hlt, h⟩

end Update

end Wheel
