import Wheel.Data.Latest
import Wheel.Update.Gate

/-!
# The breaker and the bounded history

The breaker counts failures in the history, which keeps the last `historyCap` rows of
whatever outcome. `suspended_iff_failures` says when it counts as if every row were kept:
when fewer than `historyCap` rows were recorded behind the third latest failure that counts.
-/

namespace Wheel

namespace Update

open Log

/-- What changes the history or the reset of the breaker. -/
inductive Change where
  | record (row : Row)
  /-- The operator's request, which resets the breaker. -/
  | operator (at' : ℕ)

def Change.step (s : State) : Change → State
  | .record row => s.record row
  | .operator at' => takeOperatorRequest s at'

def Change.row : Change → Option Row
  | .record row => some row
  | .operator _ => none

/-- Every row of a run, in order. -/
def recorded (changes : List Change) : List Row := changes.filterMap Change.row

/-- From when on failures count. -/
def State.since (s : State) (now : ℕ) : ℕ :=
  max (now - breakerWindowSecs) (s.breakerReset.getD 0)

/-- A row the breaker counts. -/
def Row.counts (since : ℕ) (r : Row) : Bool := since < r.at' && r.outcome.isFailure

/-- The breaker's answer, if it counted these rows. -/
def trips (since : ℕ) (rows : List Row) : Prop :=
  breakerFailures ≤ rows.countP (Row.counts since)

/-- The third latest failure that counts is among the latest `historyCap` rows. -/
def ThirdFailureKept (since : ℕ) (rows : List Row) : Prop :=
  ∀ a r b, rows = a ++ r :: b → r.counts since = true → b.countP (Row.counts since) = 2 →
    b.length < historyCap

theorem suspended_iff (s : State) (now : ℕ) :
    s.suspended now = true ↔ trips (s.since now) s.history := by
  unfold State.suspended trips State.since Row.counts
  rw [List.countP_eq_length_filter, decide_eq_true_iff]

theorem history_record_eq (s : State) (row : Row) :
    (s.record row).history = latest historyCap (s.history ++ [row]) := by
  rw [State.record, latest]

/-- The history of a run holds the latest of all rows. -/
theorem history_run (s : State) (changes : List Change) :
    latest historyCap (Run.run Change.step s changes).history =
      latest historyCap (s.history ++ recorded changes) := by
  induction changes generalizing s with
  | nil => rw [Run.run_nil, recorded, List.filterMap_nil, List.append_nil]
  | cons c changes ih =>
      rw [Run.run_cons, ih]
      cases c with
      | record row =>
          rw [Change.step, history_record_eq, latest_latest_append, List.append_assoc]
          rfl
      | operator at' => rfl

theorem length_history_run (s : State) (changes : List Change)
    (h : s.history.length ≤ historyCap) :
    (Run.run Change.step s changes).history.length ≤ historyCap := by
  refine Run.invariant_run (I := fun s : State => s.history.length ≤ historyCap) ?_ h changes
  intro s c hs
  cases c with
  | record row =>
      rw [Change.step, history_record_eq, length_latest]
      exact Nat.min_le_left _ _
  | operator at' => exact hs

/-- The state after a run from an empty history. -/
def afterRun (s : State) (changes : List Change) : State :=
  Run.run Change.step { s with history := [] } changes

theorem history_afterRun (s : State) (changes : List Change) :
    (afterRun s changes).history = latest historyCap (recorded changes) := by
  have hlen : (afterRun s changes).history.length ≤ historyCap :=
    length_history_run _ _ (Nat.zero_le _)
  have hlatest : latest historyCap (afterRun s changes).history =
      latest historyCap ([] ++ recorded changes) := history_run _ _
  rwa [latest_of_length_le hlen, List.nil_append] at hlatest

/-- After any run from an empty history, the breaker answers as all rows ever recorded say,
exactly when the third latest failure that counts has not been dropped. -/
theorem suspended_iff_failures (s : State) (changes : List Change) (now : ℕ) :
    ((afterRun s changes).suspended now = true ↔
        trips ((afterRun s changes).since now) (recorded changes)) ↔
      ThirdFailureKept ((afterRun s changes).since now) (recorded changes) := by
  rw [suspended_iff, history_afterRun]
  exact lt_countP_latest_iff

/-- With a clock that does not run back, the rows behind a failure that counts are in the
window too: no more than `historyCap` rows in the window are never too many. -/
theorem thirdFailureKept_of_few {since : ℕ} {rows : List Row}
    (hclock : rows.Pairwise fun r r' => r.at' ≤ r'.at')
    (hfew : rows.countP (fun r => since < r.at') ≤ historyCap) : ThirdFailureKept since rows := by
  rintro a r b rfl hr -
  have hsince : since < r.at' := of_decide_eq_true (Bool.and_eq_true_iff.mp hr).1
  have hbehind : ∀ r' ∈ r :: b, Decidable.decide (since < r'.at') = true := by
    intro r' hr'
    have hle : r.at' ≤ r'.at' := by
      rcases List.mem_cons.mp hr' with rfl | hmem
      · exact Nat.le_refl _
      · exact List.rel_of_pairwise_cons (List.pairwise_append.mp hclock).2.1 hmem
    exact decide_eq_true (Nat.lt_of_lt_of_le hsince hle)
  have hcount : (r :: b).countP (fun r => since < r.at') = b.length + 1 :=
    List.countP_eq_length.mpr hbehind
  rw [List.countP_append, hcount] at hfew
  omega

/-- A day with a failed build, a hundred drains that gave up and two failed builds more. -/
def busyDay : List Change :=
  (List.range 103).map fun i =>
    .record ⟨100000 + 600 * i, "a", "b", .auto,
      if i = 0 ∨ 100 < i then .buildFailed else .drainTimedOut, [], ["pm"], true⟩

/-- The third failure in a day does not trip the breaker: the first has been dropped. -/
theorem busyDay_not_suspended :
    (recorded busyDay).Pairwise (fun r r' => r.at' ≤ r'.at') ∧
      trips ((afterRun {} busyDay).since 162000) (recorded busyDay) ∧
      ¬ (afterRun {} busyDay).suspended 162000 = true := by
  unfold trips
  refine ⟨?_, ?_, ?_⟩ <;> decide +kernel

end Update

end Wheel
