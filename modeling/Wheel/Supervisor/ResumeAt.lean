import Wheel.Supervisor.Quota

/-!
# The time a parked agent is due back, checked

`Quota.resumeAt` computes on instants without a bound. An instant of the clock has one, and
an addition that leaves it panics. `resumeAtChecked` is the same computation with its three
additions checked, and `resumesOk_iff` says when it does what it should: the clamp to the
horizon comes after the additions, so a reset that is a valid instant by itself can still be
too late for the jitter.
-/

namespace Wheel

namespace Quota

/-- The first and the last instant the clock can show. -/
def firstInstant : ℤ := -377705116800 * 1000000000

def lastInstant : ℤ := 253402300799 * 1000000000 + 999999999

def isInstant (t : ℤ) : Prop := firstInstant ≤ t ∧ t ≤ lastInstant

instance (t : ℤ) : Decidable (isInstant t) :=
  inferInstanceAs (Decidable (firstInstant ≤ t ∧ t ≤ lastInstant))

/-- An instant of the clock. -/
structure Instant where
  ns : ℤ
  inRange : isInstant ns

namespace Instant

@[ext] theorem ext {t u : Instant} (h : t.ns = u.ns) : t = u := by
  cases t
  cases u
  cases h
  rfl

def ofNs (ns : ℤ) : Option Instant :=
  if h : isInstant ns then some ⟨ns, h⟩ else none

/-- The instant a number of seconds later. `none` is a panic. -/
def addSecs (t : Instant) (secs : ℤ) : Option Instant := ofNs (t.ns + secs * 1000000000)

def ofUnix (unix : ℤ) : Option Instant := ofNs (unix * 1000000000)

def max (t u : Instant) : Instant := if t.ns ≤ u.ns then u else t

def min (t u : Instant) : Instant := if t.ns ≤ u.ns then t else u

@[simp] theorem max_ns (t u : Instant) : (t.max u).ns = Max.max t.ns u.ns := by
  unfold max
  split
  · rename_i h
    exact (max_eq_right h).symm
  · rename_i h
    exact (max_eq_left (not_le.mp h).le).symm

@[simp] theorem min_ns (t u : Instant) : (t.min u).ns = Min.min t.ns u.ns := by
  unfold min
  split
  · rename_i h
    exact (min_eq_left h).symm
  · rename_i h
    exact (min_eq_right (not_le.mp h).le).symm

theorem ofNs_eq_some_iff {ns : ℤ} {t : Instant} : ofNs ns = some t ↔ t.ns = ns := by
  unfold ofNs
  constructor
  · intro h
    split at h
    · cases h
      rfl
    · cases h
  · rintro rfl
    exact dif_pos t.inRange

theorem exists_ofNs_iff {ns : ℤ} : (∃ t, ofNs ns = some t) ↔ isInstant ns := by
  constructor
  · rintro ⟨t, h⟩
    exact ofNs_eq_some_iff.mp h ▸ t.inRange
  · intro h
    exact ⟨⟨ns, h⟩, ofNs_eq_some_iff.mpr rfl⟩

theorem ofUnix_eq_some_iff {unix : ℤ} {t : Instant} :
    ofUnix unix = some t ↔ timestamp unix = some t.ns := by
  have hrange : isInstant (unix * 1000000000) ↔ -377705116800 ≤ unix ∧ unix ≤ 253402300799 := by
    unfold isInstant firstInstant lastInstant
    omega
  rw [ofUnix, ofNs_eq_some_iff, timestamp]
  split
  · rw [Option.some_inj, eq_comm]
  · rename_i h
    simp only [reduceCtorEq, iff_false]
    intro ht
    exact h (hrange.mp (ht ▸ t.inRange))

end Instant

/-- The jitter a supervisor draws. -/
structure Jitter where
  secs : ℕ
  inRange : 5 ≤ secs ∧ secs ≤ 64

/-- The reset of a signal, if it is one the clock can show. -/
def usableReset (resetsAt : Option ℤ) : Option Instant := resetsAt.bind Instant.ofUnix

/-- When a parked agent is due back. `none` is a panic. -/
def resumeAtChecked (now : Instant) (resetsAt : Option ℤ) (strikes : ℕ) (jitter : Jitter) :
    Option Instant :=
  let due :=
    match usableReset resetsAt with
    | some reset => (reset.max now).addSecs jitter.secs
    | none => (now.addSecs (backoffSecs strikes)).bind fun t => t.addSecs jitter.secs
  due.bind fun t => (now.addSecs horizonSecs).map t.min

/-- Without a panic the result is the one of the unbounded computation. -/
theorem resumeAtChecked_eq_some {now : Instant} {resetsAt : Option ℤ} {strikes : ℕ}
    {jitter : Jitter} {t : Instant} (h : resumeAtChecked now resetsAt strikes jitter = some t) :
    t.ns = resumeAt now.ns resetsAt strikes jitter.secs := by
  have hreset : resetsAt.bind timestamp = (usableReset resetsAt).map Instant.ns := by
    cases resetsAt with
    | none => rfl
    | some unix =>
        unfold usableReset
        rw [Option.bind_some, Option.bind_some]
        cases hu : Instant.ofUnix unix with
        | some r => exact Instant.ofUnix_eq_some_iff.mp hu
        | none =>
            cases ht : timestamp unix with
            | none => rfl
            | some ns =>
                have hns : timestamp unix = some ns := ht
                unfold timestamp at ht
                split at ht
                · rename_i hrange
                  have hinstant : isInstant ns := by
                    rw [← Option.some.inj ht]
                    unfold isInstant firstInstant lastInstant
                    omega
                  have hsome := Instant.ofUnix_eq_some_iff (t := ⟨ns, hinstant⟩).mpr hns
                  rw [hu] at hsome
                  cases hsome
                · cases ht
  obtain ⟨due, hdue, hrest⟩ := Option.bind_eq_some_iff.mp h
  obtain ⟨horizon, hhorizon, rfl⟩ := Option.map_eq_some_iff.mp hrest
  have hhorizon' := Instant.ofNs_eq_some_iff.mp hhorizon
  unfold resumeAt
  rw [hreset, Instant.min_ns, hhorizon']
  cases hr : usableReset resetsAt with
  | some reset =>
      rw [hr] at hdue
      have hdue' := Instant.ofNs_eq_some_iff.mp hdue
      rw [hdue', Instant.max_ns]
      rfl
  | none =>
      rw [hr] at hdue
      obtain ⟨mid, hmid, hdue⟩ := Option.bind_eq_some_iff.mp hdue
      have hmid' := Instant.ofNs_eq_some_iff.mp hmid
      have hdue' := Instant.ofNs_eq_some_iff.mp hdue
      rw [hdue', hmid']
      rfl

/-- A wait lasts from a quarter of an hour to five hours. -/
theorem backoffSecs_bounds (strikes : ℕ) :
    backoffBaseSecs ≤ backoffSecs strikes ∧ backoffSecs strikes ≤ backoffMaxSecs := by
  unfold backoffSecs
  refine ⟨le_min ?_ (by decide), min_le_right _ _⟩
  have hpow : (1 : ℤ) ≤ 2 ^ Min.min (strikes - 1) 16 := one_le_pow₀ (by decide)
  exact le_mul_of_one_le_right (by decide) hpow

/-! ## What a resume time is for -/

/-- The agent is due back, not before now and not beyond the horizon; without a reset after a
quarter of an hour, and at a reset inside the horizon plus the jitter. -/
def ResumesOk (now : Instant) (resetsAt : Option ℤ) (strikes : ℕ) (jitter : Jitter) : Prop :=
  ∃ t, resumeAtChecked now resetsAt strikes jitter = some t ∧
    now.ns ≤ t.ns ∧ t.ns ≤ now.ns + horizonSecs * 1000000000 ∧
    (usableReset resetsAt = none → now.ns + backoffBaseSecs * 1000000000 ≤ t.ns) ∧
    ∀ reset, usableReset resetsAt = some reset →
      reset.ns ≤ now.ns + horizonSecs * 1000000000 →
        t.ns = max reset.ns now.ns + jitter.secs * 1000000000

/-- The horizon is before the last instant, and so is a reset with its jitter; and no reset
falls into the last seconds of the horizon, where the jitter leaves it. -/
def ResumeFits (now : Instant) (resetsAt : Option ℤ) (jitter : Jitter) : Prop :=
  now.ns + horizonSecs * 1000000000 ≤ lastInstant ∧
    ∀ reset, usableReset resetsAt = some reset →
      reset.ns + jitter.secs * 1000000000 ≤ lastInstant ∧
        (reset.ns ≤ now.ns + horizonSecs * 1000000000 →
          reset.ns + jitter.secs * 1000000000 ≤ now.ns + horizonSecs * 1000000000)

theorem addSecs_eq_some {t : Instant} {secs : ℤ} (hsecs : 0 ≤ secs)
    (h : t.ns + secs * 1000000000 ≤ lastInstant) :
    ∃ u, t.addSecs secs = some u ∧ u.ns = t.ns + secs * 1000000000 := by
  have hrange : isInstant (t.ns + secs * 1000000000) := by
    have hfirst := t.inRange.1
    exact ⟨by omega, h⟩
  obtain ⟨u, hu⟩ := Instant.exists_ofNs_iff.mpr hrange
  exact ⟨u, hu, Instant.ofNs_eq_some_iff.mp hu⟩

/-- A resume time is as it should be exactly when the additions stay within the clock and the
reset is not in the last seconds of the horizon. -/
theorem resumesOk_iff (now : Instant) (resetsAt : Option ℤ) (strikes : ℕ) (jitter : Jitter) :
    ResumesOk now resetsAt strikes jitter ↔ ResumeFits now resetsAt jitter := by
  have hjitter := jitter.inRange
  have hbackoff := backoffSecs_bounds strikes
  have hhorizon : horizonSecs = 691200 := by rfl
  have hbase : backoffBaseSecs = 900 := by rfl
  have hmax : backoffMaxSecs = 18000 := by rfl
  rw [hbase, hmax] at hbackoff
  constructor
  · rintro ⟨t, ht, hnow, -, -, hreset⟩
    obtain ⟨due, hdue, hrest⟩ := Option.bind_eq_some_iff.mp ht
    obtain ⟨horizon, hh, rfl⟩ := Option.map_eq_some_iff.mp hrest
    have hns := Instant.ofNs_eq_some_iff.mp hh
    have hlast := horizon.inRange.2
    refine ⟨hns ▸ hlast, fun reset hr => ?_⟩
    rw [hr] at hdue
    have hduens := Instant.ofNs_eq_some_iff.mp hdue
    have hduelast := due.inRange.2
    have hinside := hreset reset hr
    rw [Instant.min_ns, hns, hduens, Instant.max_ns] at hinside
    rw [hduens, Instant.max_ns] at hduelast
    constructor
    · omega
    · intro hle
      have heq := hinside hle
      omega
  · rintro ⟨hlast, hfits⟩
    obtain ⟨horizon, hh, hhns⟩ := addSecs_eq_some (by rw [hhorizon]; decide) hlast
    cases hr : usableReset resetsAt with
    | none =>
        have hmidlast : now.ns + backoffSecs strikes * 1000000000 ≤ lastInstant := by
          omega
        obtain ⟨mid, hmid, hmidns⟩ := addSecs_eq_some (by omega) hmidlast
        have hduelast : mid.ns + (jitter.secs : ℤ) * 1000000000 ≤ lastInstant := by
          omega
        obtain ⟨due, hdue, hduens⟩ := addSecs_eq_some (Int.natCast_nonneg _) hduelast
        have hchecked : resumeAtChecked now resetsAt strikes jitter = some (due.min horizon) := by
          unfold resumeAtChecked
          rw [hr]
          dsimp only
          rw [hmid, Option.bind_some, hdue, Option.bind_some, hh]
          rfl
        have hnone : ∀ reset, usableReset resetsAt = some reset →
            reset.ns ≤ now.ns + horizonSecs * 1000000000 →
              (due.min horizon).ns = max reset.ns now.ns + jitter.secs * 1000000000 := by
          intro reset hsome
          rw [hr] at hsome
          cases hsome
        refine ⟨due.min horizon, hchecked, ?_, ?_, ?_, hr ▸ hnone⟩
        all_goals
          rw [Instant.min_ns]
          omega
    | some reset =>
        obtain ⟨hresetlast, hinside⟩ := hfits reset hr
        have hduelast : (reset.max now).ns + (jitter.secs : ℤ) * 1000000000 ≤ lastInstant := by
          rw [Instant.max_ns]
          omega
        obtain ⟨due, hdue, hduens⟩ := addSecs_eq_some (Int.natCast_nonneg _) hduelast
        have hchecked : resumeAtChecked now resetsAt strikes jitter = some (due.min horizon) := by
          unfold resumeAtChecked
          rw [hr]
          dsimp only
          rw [hdue, Option.bind_some, hh]
          rfl
        rw [Instant.max_ns] at hduens
        refine ⟨due.min horizon, hchecked, ?_, ?_, ?_, ?_⟩
        · rw [Instant.min_ns]
          omega
        · rw [Instant.min_ns]
          omega
        · intro hnone
          rw [hr] at hnone
          cases hnone
        · intro r hsome hle
          obtain rfl := Option.some.inj (hr.symm.trans hsome)
          have hjit := hinside hle
          rw [Instant.min_ns]
          omega

/-- The last second that is a valid instant: the jitter is added before the clamp. -/
theorem last_second_panics : ¬ ResumesOk ⟨0, by decide⟩ (some 253402300799) 0 ⟨5, by decide⟩ := by
  rintro ⟨t, ht, -⟩
  have hpanic : resumeAtChecked ⟨0, by decide⟩ (some 253402300799) 0 ⟨5, by decide⟩ = none := by
    rfl
  rw [hpanic] at ht
  cases ht

end Quota

end Wheel
