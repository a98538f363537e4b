import Wheel.Data.Run
import Wheel.Supervisor.Sections

/-!
# Spend in machine integers

The turns a child reports go through four machine integers: the count of the child and the
difference to it in 64 bits without a sign, the stored total in 64 bits with a sign, and
the total as it is read, again without a sign. `Ledger` is that, for one agent and one
child after the other; `Tally` is what it is meant to count, in natural numbers. The two
agree as long as the total fits: a result may not take the total to `2 ^ 64`, and past
`2 ^ 63` only if it alone is that large, because sqlite refuses a sum that does not fit its
column.
-/

namespace Wheel.Supervisor.Spend

/-- A sum of two counts. Where overflows are checked, one panics. -/
def addCounts (checked : Bool) (a b : UInt64) : Option UInt64 :=
  if checked && decide (2 ^ 64 ≤ a.toNat + b.toNat) then none else some (a + b)

def saturatingSub (a b : UInt64) : UInt64 := if b ≤ a then a - b else 0

/-- What a child has been counted for. -/
structure Counted where
  turns : UInt64 := 0
  usd : ℚ := 0
  deriving DecidableEq

/-- The turns and the cost a result adds to those of its child. -/
def spendDelta (checked : Bool) (reportedTurns : Option UInt64) (reportedUsd : Option ℚ)
    (counted : Counted) : Option (UInt64 × ℚ) :=
  (addCounts checked counted.turns 1).map fun next =>
    (saturatingSub (reportedTurns.getD next) counted.turns,
      max (reportedUsd.getD counted.usd - counted.usd) 0)

/-- The stored totals of an agent. -/
structure Totals where
  turns : Int64
  usd : ℚ
  deriving DecidableEq

/-- A sum in sqlite. One that does not fit is a real number, which the column refuses. -/
def sqlAdd (a b : Int64) : Option Int64 :=
  if -2 ^ 63 ≤ a.toInt + b.toInt ∧ a.toInt + b.toInt < 2 ^ 63 then some (a + b) else none

/-- Add to the totals of an agent. A refused write is only logged. -/
def addSpend (row : Option Totals) (turns : UInt64) (usd : ℚ) : Option Totals :=
  if turns = 0 ∧ usd = 0 then row
  else
    match row with
    | none => some ⟨turns.toInt64, usd⟩
    | some r =>
        match sqlAdd r.turns turns.toInt64 with
        | some t => some ⟨t, r.usd + usd⟩
        | none => some r

/-- The turns of an agent as they are read. -/
def readTurns : Option Totals → UInt64
  | none => 0
  | some r => r.turns.toUInt64

/-- The stored state of an agent with these totals. -/
def stateWith (row : Option Totals) : AgentState :=
  { turns := (readTurns row).toNat
    usd := row.elim 0 Totals.usd }

/-! ## The ledger of an agent -/

/-- The child that runs, if one does, the totals, and whether a task has panicked. -/
structure Ledger where
  running : Option Counted
  row : Option Totals
  panicked : Bool
  deriving DecidableEq

inductive Event where
  | spawn
  | exit
  | result (turns : Option UInt64) (usd : Option ℚ)
  deriving DecidableEq

/-- Record a result against the child that runs. -/
def recordResult (checked : Bool) (s : Ledger) (turns : Option UInt64) (usd : Option ℚ) : Ledger :=
  match s.running with
  | none => s
  | some c =>
      match spendDelta checked turns usd c with
      | none => { s with panicked := true }
      | some (dt, du) =>
          match addCounts checked c.turns dt with
          | none => { s with panicked := true }
          | some t =>
              { s with
                running := some ⟨t, c.usd + du⟩
                row := addSpend s.row dt du }

def step (checked : Bool) (s : Ledger) : Event → Ledger
  | .spawn => { s with running := some {} }
  | .exit => { s with running := none }
  | .result turns usd => recordResult checked s turns usd

/-- The ledger after a run, from these totals and without a child. -/
def after (checked : Bool) (row : Option Totals) (x : List Event) : Ledger :=
  Run.run (step checked) ⟨none, row, false⟩ x

/-! ## What it counts -/

/-- The turns of the child that runs, and those of all children. -/
structure Tally where
  running : Option ℕ
  total : ℕ

/-- The count of a child after a report: the largest so far, where a missing one stands
for one more. -/
def largestWith (count : ℕ) (turns : Option UInt64) : ℕ :=
  max count (turns.elim (count + 1) UInt64.toNat)

/-- What the supervisor adds for a report, without the bounds of machine integers. -/
theorem spendDelta_eq_largestWith (turns : Option UInt64) (usd : Option ℚ) (count : ℕ)
    (counted : ℚ) : (Supervisor.spendDelta (turns.map UInt64.toNat) usd count counted).1 =
      largestWith count turns - count := by
  cases turns with
  | none => simp [Supervisor.spendDelta, largestWith]
  | some r =>
      simp only [Supervisor.spendDelta, largestWith, Option.map_some, Option.getD_some,
        Option.elim_some]
      omega

/-- The largest count among the reports of a child. -/
def largest (reports : List (Option UInt64)) : ℕ := reports.foldl largestWith 0

def tallyStep (l : Tally) : Event → Tally
  | .spawn => { l with running := some 0 }
  | .exit => { l with running := none }
  | .result turns _ =>
      match l.running with
      | none => l
      | some c => ⟨some (largestWith c turns), l.total + (largestWith c turns - c)⟩

def tallyAfter (start : ℕ) (x : List Event) : Tally := Run.run tallyStep ⟨none, start⟩ x

/-- The step stays within the machine integers: the total within 64 bits, and below
`2 ^ 63` unless the step alone is that large; and where overflows are checked, the child
has not counted as far as it can. -/
def FitsStep (checked : Bool) (l : Tally) : Event → Prop
  | .result turns _ =>
      match l.running with
      | none => True
      | some c =>
          l.total + (largestWith c turns - c) < 2 ^ 64 ∧
            (l.total < 2 ^ 63 → l.total + (largestWith c turns - c) < 2 ^ 63 ∨
              2 ^ 63 ≤ largestWith c turns - c) ∧
            (checked = true → c + 1 < 2 ^ 64)
  | _ => True

/-- Every step of the run fits. -/
def Fits (checked : Bool) (start : ℕ) (x : List Event) : Prop :=
  Run.Always tallyStep (FitsStep checked) ⟨none, start⟩ x

/-! ## One sum -/

theorem toInt_toInt64 (a : UInt64) :
    a.toInt64.toInt = if a.toNat < 2 ^ 63 then (a.toNat : ℤ) else a.toNat - 2 ^ 64 := by
  have h := BitVec.toInt_eq_toNat_cond a.toInt64.toBitVec
  rw [UInt64.toBitVec_toInt64] at h
  change a.toBitVec.toInt = _
  rw [h]
  have hnat : a.toBitVec.toNat = a.toNat := rfl
  rw [hnat]
  split <;> split <;> omega

theorem toInt_eq (a : Int64) :
    a.toInt = if a.toUInt64.toNat < 2 ^ 63 then (a.toUInt64.toNat : ℤ)
      else a.toUInt64.toNat - 2 ^ 64 :=
  toInt_toInt64 a.toUInt64

/-- The total that is read after a sum is the sum exactly if the sum fits. -/
theorem readTurns_addSpend_iff (row : Option Totals) (turns : UInt64) (usd : ℚ) :
    (readTurns (addSpend row turns usd)).toNat = (readTurns row).toNat + turns.toNat ↔
      (readTurns row).toNat + turns.toNat < 2 ^ 64 ∧
        ((readTurns row).toNat < 2 ^ 63 →
          (readTurns row).toNat + turns.toNat < 2 ^ 63 ∨ 2 ^ 63 ≤ turns.toNat) := by
  have hturns := turns.toNat_lt
  have hrow := (readTurns row).toNat_lt
  unfold addSpend
  split
  · rename_i hzero
    have hz : turns.toNat = 0 := by rw [hzero.1]; rfl
    omega
  · cases row with
    | none =>
        have hread : (readTurns (some ⟨turns.toInt64, usd⟩)).toNat = turns.toNat := rfl
        have hnone : (readTurns none).toNat = 0 := rfl
        dsimp only
        omega
    | some r =>
        have hr := toInt_eq r.turns
        have ht := toInt_toInt64 turns
        have hread : (readTurns (some r)).toNat = r.turns.toUInt64.toNat := rfl
        dsimp only
        unfold sqlAdd
        by_cases hfits : -2 ^ 63 ≤ r.turns.toInt + turns.toInt64.toInt ∧
            r.turns.toInt + turns.toInt64.toInt < 2 ^ 63
        · rw [if_pos hfits]
          have hsum : (readTurns (some ⟨r.turns + turns.toInt64, r.usd + usd⟩)).toNat =
              (r.turns.toUInt64.toNat + turns.toNat) % 2 ^ 64 := rfl
          dsimp only
          rw [hsum, hread]
          split at hr <;> split at ht <;> omega
        · rw [if_neg hfits]
          dsimp only
          rw [hread]
          split at hr <;> split at ht <;> omega

/-! ## One result -/

theorem toNat_saturatingSub (a b : UInt64) : (saturatingSub a b).toNat = a.toNat - b.toNat := by
  unfold saturatingSub
  split
  · rename_i h
    exact UInt64.toNat_sub_of_le a b h
  · rename_i h
    have hlt : a.toNat < b.toNat := UInt64.lt_iff_toNat_lt.mp (UInt64.not_le.mp h)
    have hzero : (0 : UInt64).toNat = 0 := rfl
    omega

/-- What a result adds, unless the child has counted as far as it can. -/
theorem exists_spendDelta (checked : Bool) (turns : Option UInt64) (usd : Option ℚ) (c : Counted)
    (h : checked = true → c.turns.toNat + 1 < 2 ^ 64) :
    ∃ dt du t, spendDelta checked turns usd c = some (dt, du) ∧
      addCounts checked c.turns dt = some t ∧ 0 ≤ du ∧
      t.toNat = c.turns.toNat + dt.toNat ∧
      (c.turns.toNat + 1 < 2 ^ 64 ∨ turns ≠ none →
        dt.toNat = largestWith c.turns.toNat turns - c.turns.toNat) ∧
      (c.turns.toNat + 1 = 2 ^ 64 → dt.toNat = 0) := by
  have hc := c.turns.toNat_lt
  have hone : (1 : UInt64).toNat = 1 := rfl
  have hnext : addCounts checked c.turns 1 = some (c.turns + 1) := by
    unfold addCounts
    rw [if_neg]
    rw [hone]
    simp only [Bool.and_eq_true, decide_eq_true_eq, not_and]
    intro hck
    have hlt := h hck
    omega
  have hsum : (c.turns + 1).toNat = (c.turns.toNat + 1) % 2 ^ 64 := UInt64.toNat_add _ _
  have hle : (turns.getD (c.turns + 1)).toNat < 2 ^ 64 := UInt64.toNat_lt _
  have hdt := toNat_saturatingSub (turns.getD (c.turns + 1)) c.turns
  have hadd : addCounts checked c.turns (saturatingSub (turns.getD (c.turns + 1)) c.turns) =
      some (c.turns + saturatingSub (turns.getD (c.turns + 1)) c.turns) := by
    unfold addCounts
    rw [if_neg]
    simp only [Bool.and_eq_true, decide_eq_true_eq, not_and]
    omega
  refine ⟨saturatingSub (turns.getD (c.turns + 1)) c.turns,
    max (usd.getD c.usd - c.usd) 0, _, by rw [spendDelta, hnext]; rfl, hadd, le_max_right _ _,
    ?_, ?_, ?_⟩
  · rw [UInt64.toNat_add]
    omega
  · intro hcase
    rw [hdt]
    cases turns with
    | none =>
        have hlt := hcase.resolve_right fun hne => hne rfl
        simp only [Option.getD_none, largestWith, Option.elim_none]
        omega
    | some r =>
        simp only [Option.getD_some, largestWith, Option.elim_some]
        omega
  · intro hmax
    rw [hdt]
    cases turns with
    | none =>
        simp only [Option.getD_none]
        omega
    | some r =>
        have hr := r.toNat_lt
        simp only [Option.getD_some]
        omega

/-- A result panics for a child that has counted as far as it can. -/
theorem spendDelta_eq_none (turns : Option UInt64) (usd : Option ℚ) (c : Counted)
    (h : ¬ c.turns.toNat + 1 < 2 ^ 64) : spendDelta true turns usd c = none := by
  have hnext : addCounts true c.turns 1 = none := by
    unfold addCounts
    rw [if_pos]
    have hone : (1 : UInt64).toNat = 1 := rfl
    rw [hone]
    simpa using h
  unfold spendDelta
  rw [hnext]
  rfl

/-- The ledger is what the tally says. -/
structure Agrees (s : Ledger) (l : Tally) : Prop where
  running : s.running.map (fun c => c.turns.toNat) = l.running
  total : (readTurns s.row).toNat = l.total
  panicked : s.panicked = false
  bounded : ∀ c ∈ l.running, c ≤ l.total

variable {checked : Bool} {s : Ledger} {l : Tally} {e : Event}

theorem le_largestWith (c : ℕ) (turns : Option UInt64) : c ≤ largestWith c turns := le_max_left _ _

/-- A result of a child that can count one more. -/
theorem step_result {turns : Option UInt64} {usd : Option ℚ} {c : Counted}
    (hs : s.running = some c) (hc : checked = true → c.turns.toNat + 1 < 2 ^ 64) :
    ∃ dt du t, step checked s (.result turns usd) =
        ⟨some ⟨t, c.usd + du⟩, addSpend s.row dt du, s.panicked⟩ ∧ 0 ≤ du ∧
      t.toNat = c.turns.toNat + dt.toNat ∧
      (c.turns.toNat + 1 < 2 ^ 64 ∨ turns ≠ none →
        dt.toNat = largestWith c.turns.toNat turns - c.turns.toNat) ∧
      (c.turns.toNat + 1 = 2 ^ 64 → dt.toNat = 0) := by
  obtain ⟨dt, du, t, hdelta, hadd, hdu, ht, hdt, hmax⟩ := exists_spendDelta checked turns usd c hc
  refine ⟨dt, du, t, ?_, hdu, ht, hdt, hmax⟩
  unfold step recordResult
  rw [hs]
  dsimp only
  rw [hdelta]
  dsimp only
  rw [hadd]

/-- The ledger keeps to the tally as long as the steps fit. -/
theorem Agrees.step (h : Agrees s l) (he : FitsStep checked l e) :
    Agrees (step checked s e) (tallyStep l e) := by
  have hbounded := h.bounded
  cases e with
  | spawn =>
      refine ⟨rfl, h.total, h.panicked, ?_⟩
      rintro c hc
      cases hc
      exact Nat.zero_le _
  | exit => exact ⟨rfl, h.total, h.panicked, nofun⟩
  | result turns usd =>
      have hrunning := h.running
      cases hs : s.running with
      | none =>
          rw [hs] at hrunning
          have hstep : Spend.step checked s (.result turns usd) = s := by
            unfold Spend.step recordResult
            rw [hs]
          have htally : tallyStep l (.result turns usd) = l := by
            unfold tallyStep
            rw [← hrunning]
            rfl
          rw [hstep, htally]
          exact h
      | some c =>
          rw [hs, Option.map_some] at hrunning
          have hle := hbounded c.turns.toNat (by rw [← hrunning]; rfl)
          have hmono := le_largestWith c.turns.toNat turns
          unfold FitsStep at he
          unfold tallyStep
          rw [← hrunning] at he ⊢
          dsimp only at he ⊢
          obtain ⟨dt, du, t, hstep, -, ht, hdt, -⟩ := step_result hs he.2.2
          have hcount : c.turns.toNat + 1 < 2 ^ 64 ∨ turns ≠ none := by
            by_contra hno
            obtain ⟨hno, hnone⟩ := not_or.mp hno
            rw [not_not.mp hnone] at he
            have hnext : largestWith c.turns.toNat none = c.turns.toNat + 1 := by
              simp [largestWith]
            rw [hnext] at he
            omega
          have hd := hdt hcount
          rw [hstep]
          refine ⟨?_, ?_, h.panicked, ?_⟩
          · rw [Option.map_some, ht, hd, Nat.add_sub_cancel' hmono]
          · have hsum := (readTurns_addSpend_iff s.row dt du).mpr
            rw [hd, h.total] at hsum
            exact hsum ⟨he.1, he.2.1⟩
          · rintro d hd'
            cases hd'
            change largestWith c.turns.toNat turns ≤ l.total + (largestWith _ _ - _)
            omega

/-- A step after which the ledger has the total of the tally fits. -/
theorem Agrees.fits (h : Agrees s l) (hpanic : (Spend.step checked s e).panicked = false)
    (htotal : (readTurns (Spend.step checked s e).row).toNat = (tallyStep l e).total) :
    FitsStep checked l e := by
  cases e with
  | spawn => trivial
  | exit => trivial
  | result turns usd =>
      have hrunning := h.running
      cases hs : s.running with
      | none =>
          rw [hs] at hrunning
          unfold FitsStep
          rw [← hrunning]
          trivial
      | some c =>
          rw [hs, Option.map_some] at hrunning
          have hle := h.bounded c.turns.toNat (by rw [← hrunning]; rfl)
          have hc : checked = true → c.turns.toNat + 1 < 2 ^ 64 := by
            rintro rfl
            by_contra hno
            unfold Spend.step recordResult at hpanic
            rw [hs] at hpanic
            dsimp only at hpanic
            rw [spendDelta_eq_none turns usd c hno] at hpanic
            cases hpanic
          obtain ⟨dt, du, t, hstep, -, ht, hdt, hmax⟩ := step_result hs hc
          have hlt := c.turns.toNat_lt
          have hread := (readTurns s.row).toNat_lt
          unfold tallyStep at htotal
          unfold FitsStep
          rw [hstep] at htotal
          rw [← hrunning] at htotal ⊢
          dsimp only at htotal ⊢
          have hcount : c.turns.toNat + 1 < 2 ^ 64 ∨ turns ≠ none := by
            by_contra hno
            obtain ⟨hno, hnone⟩ := not_or.mp hno
            rw [not_not.mp hnone] at htotal
            have hnext : largestWith c.turns.toNat none = c.turns.toNat + 1 := by
              simp [largestWith]
            have hnow := (readTurns (addSpend s.row dt du)).toNat_lt
            rw [hnext] at htotal
            omega
          have hd := hdt hcount
          rw [← hd, ← h.total] at htotal ⊢
          have hfits := (readTurns_addSpend_iff s.row dt du).mp htotal
          exact ⟨hfits.1, hfits.2, hc⟩

/-! ## Runs -/

theorem fits_concat {start : ℕ} {x : List Event} :
    Fits checked start (x ++ [e]) ↔
      Fits checked start x ∧ FitsStep checked (tallyAfter start x) e := by
  unfold Fits tallyAfter
  rw [Run.always_append]
  simp [Run.Always]

theorem agrees_after (checked : Bool) (row : Option Totals) (x : List Event)
    (h : Fits checked (readTurns row).toNat x) :
    Agrees (after checked row x) (tallyAfter (readTurns row).toNat x) := by
  induction x using List.reverseRecOn with
  | nil => exact ⟨rfl, rfl, rfl, nofun⟩
  | append_singleton x e ih =>
      obtain ⟨hx, he⟩ := fits_concat.mp h
      unfold after tallyAfter
      rw [Run.run_append, Run.run_append]
      exact (ih hx).step he

theorem Fits.of_prefix {start : ℕ} {x y : List Event} (h : Fits checked start x) (hy : y <+: x) :
    Fits checked start y := by
  obtain ⟨z, rfl⟩ := hy
  exact (Run.always_append.mp h).1

/-- What a child adds to the tally is the largest count it reports. -/
theorem total_process (start : ℕ) (y : List Event) (z : List (Option UInt64 × Option ℚ)) :
    (tallyAfter start (y ++ .spawn :: z.map fun r => .result r.1 r.2)).total =
      (tallyAfter start y).total + largest (z.map Prod.fst) := by
  have hrun : ∀ (z : List (Option UInt64 × Option ℚ)) (c n : ℕ), c ≤ n →
      ∃ d, c ≤ d ∧ d = (z.map Prod.fst).foldl largestWith c ∧
        Run.run tallyStep ⟨some c, n⟩ (z.map fun r => .result r.1 r.2) = ⟨some d, n + (d - c)⟩ := by
    intro z
    induction z with
    | nil => exact fun c n _ => ⟨c, Nat.le_refl c, rfl, by simp⟩
    | cons r z ih =>
        intro c n hc
        have hmono := le_largestWith c r.1
        obtain ⟨d, hd, hfold, hz⟩ := ih (largestWith c r.1) (n + (largestWith c r.1 - c)) (by omega)
        refine ⟨d, hmono.trans hd, hfold, ?_⟩
        refine hz.trans ?_
        rw [Tally.mk.injEq]
        exact ⟨rfl, by omega⟩
  unfold tallyAfter
  rw [Run.run_append, Run.run_cons]
  obtain ⟨d, -, hfold, hz⟩ := hrun z 0 (Run.run tallyStep ⟨none, start⟩ y).total (Nat.zero_le _)
  change (Run.run tallyStep ⟨some 0, _⟩ _).total = _
  rw [hz, hfold]
  rfl

theorem le_total_step (l : Tally) (e : Event) : l.total ≤ (tallyStep l e).total := by
  cases e with
  | spawn => exact Nat.le_refl _
  | exit => exact Nat.le_refl _
  | result turns usd =>
      unfold tallyStep
      cases l.running with
      | none => exact Nat.le_refl _
      | some c => exact Nat.le_add_right _ _

theorem usd_le_addSpend (row : Option Totals) (turns : UInt64) {usd : ℚ} (h : 0 ≤ usd) :
    row.elim 0 Totals.usd ≤ (addSpend row turns usd).elim 0 Totals.usd := by
  unfold addSpend
  split
  · exact le_refl _
  · cases row with
    | none => exact h
    | some r =>
        dsimp only
        split
        · exact le_add_of_nonneg_right h
        · exact le_refl _

theorem usd_le_step (checked : Bool) (s : Ledger) (e : Event) :
    s.row.elim 0 Totals.usd ≤ (step checked s e).row.elim 0 Totals.usd := by
  cases e with
  | spawn => exact le_refl _
  | exit => exact le_refl _
  | result turns usd =>
      unfold step recordResult
      cases s.running with
      | none => exact le_refl _
      | some c =>
          dsimp only
          split
          · exact le_refl _
          · rename_i dt du hdelta
            have hdu : 0 ≤ du := by
              obtain ⟨next, -, hpair⟩ := Option.map_eq_some_iff.mp hdelta
              rw [← (Prod.mk.inj hpair).2]
              exact le_max_right _ _
            split
            · exact le_refl _
            · exact usd_le_addSpend _ _ hdu

/-- A budget that is reached stays reached where neither total goes back. -/
theorem budgetExceeded_mono {row row' : Option Totals} (hturns : readTurns row ≤ readTurns row')
    (husd : row.elim 0 Totals.usd ≤ row'.elim 0 Totals.usd) {budget : Option Budget}
    (h : (stateWith row).budgetExceeded budget = true) :
    (stateWith row').budgetExceeded budget = true := by
  cases budget with
  | none => exact h
  | some b =>
      simp only [AgentState.budgetExceeded, stateWith, Bool.or_eq_true, Option.any_eq_true] at h ⊢
      rcases h with ⟨m, hm, hle⟩ | ⟨m, hm, hle⟩
      · have hle' := (of_decide_eq_true hle).trans (UInt64.le_iff_toNat_le.mp hturns)
        exact .inl ⟨m, hm, decide_eq_true hle'⟩
      · exact .inr ⟨m, hm, decide_eq_true ((of_decide_eq_true hle).trans husd)⟩

/-- Along the run no task panics, and the total that is read is the one that was there and
the largest counts of all children. -/
def Exact (checked : Bool) (row : Option Totals) (x : List Event) : Prop :=
  ∀ y, y <+: x → (after checked row y).panicked = false ∧
    (readTurns (after checked row y).row).toNat = (tallyAfter (readTurns row).toNat y).total

theorem exact_iff (checked : Bool) (row : Option Totals) (x : List Event) :
    Exact checked row x ↔ Fits checked (readTurns row).toNat x := by
  constructor
  · intro h
    induction x using List.reverseRecOn with
    | nil => trivial
    | append_singleton x e ih =>
        have hx : Fits checked (readTurns row).toNat x :=
          ih fun y hy => h y (hy.trans (List.prefix_append x [e]))
        refine fits_concat.mpr ⟨hx, ?_⟩
        obtain ⟨hpanic, htotal⟩ := h _ (List.prefix_refl _)
        unfold after at hpanic htotal
        unfold tallyAfter at htotal
        rw [Run.run_append] at hpanic htotal
        rw [Run.run_append] at htotal
        exact (agrees_after checked row x hx).fits hpanic htotal
  · intro h y hy
    have hagrees := agrees_after checked row y (h.of_prefix hy)
    exact ⟨hagrees.panicked, hagrees.total⟩

/-- Neither total goes back along a run that fits. -/
theorem totals_mono {row : Option Totals} {y z : List Event}
    (h : Fits checked (readTurns row).toNat z) (hy : y <+: z) :
    readTurns (after checked row y).row ≤ readTurns (after checked row z).row ∧
      (after checked row y).row.elim 0 Totals.usd ≤
        (after checked row z).row.elim 0 Totals.usd := by
  have hz := agrees_after checked row z h
  have hy' := agrees_after checked row y (h.of_prefix hy)
  obtain ⟨w, rfl⟩ := hy
  constructor
  · rw [UInt64.le_iff_toNat_le, hz.total, hy'.total]
    unfold tallyAfter
    rw [Run.run_append]
    have hstep := fun (l : Tally) (e : Event)
      (hl : (Run.run tallyStep ⟨none, (readTurns row).toNat⟩ y).total ≤ l.total) =>
        hl.trans (le_total_step l e)
    exact Run.invariant_run hstep (Nat.le_refl _) w
  · unfold after
    rw [Run.run_append]
    have hstep := fun (s : Ledger) (e : Event)
      (hs : (Run.run (step checked) ⟨none, row, false⟩ y).row.elim 0 Totals.usd ≤
        s.row.elim 0 Totals.usd) => hs.trans (usd_le_step checked s e)
    exact Run.invariant_run hstep (le_refl _) w

/-- Every turn is counted once along a run exactly if every step of it fits; a child adds
the largest count it reports; and along such a run the totals only grow, so that a budget
that is reached stays reached. -/
theorem spend_counted_iff (checked : Bool) (row : Option Totals) (x : List Event) :
    (Exact checked row x ↔ Fits checked (readTurns row).toNat x) ∧
      (∀ y (z : List (Option UInt64 × Option ℚ)),
        (tallyAfter (readTurns row).toNat (y ++ .spawn :: z.map fun r => .result r.1 r.2)).total =
          (tallyAfter (readTurns row).toNat y).total + largest (z.map Prod.fst)) ∧
      (Fits checked (readTurns row).toNat x → ∀ y z, y <+: z → z <+: x →
        readTurns (after checked row y).row ≤ readTurns (after checked row z).row ∧
          ∀ budget, (stateWith (after checked row y).row).budgetExceeded budget = true →
            (stateWith (after checked row z).row).budgetExceeded budget = true) := by
  refine ⟨exact_iff checked row x, total_process _, ?_⟩
  intro h y z hyz hzx
  obtain ⟨hturns, husd⟩ := totals_mono (h.of_prefix hzx) hyz
  exact ⟨hturns, fun _ hb => budgetExceeded_mono hturns husd hb⟩

/-- Two children, the first of which reports two turns and then one it does not count. -/
theorem spend_counted_two :
    readTurns (after true none [.spawn, .result (some 2) none]).row ≤
      readTurns (after true none [.spawn, .result (some 2) none, .result none none, .spawn,
        .result (some 1) none]).row := by
  have hfits : Fits true 0 [.spawn, .result (some 2) none, .result none none, .spawn,
      .result (some 1) none] := by
    simp [Fits, Run.Always, FitsStep, tallyStep, largestWith]
  exact ((spend_counted_iff true none [.spawn, .result (some 2) none, .result none none, .spawn,
    .result (some 1) none]).2.2 hfits _ _ ⟨_, rfl⟩ (List.prefix_refl _)).1

/-- A child that reports `2 ^ 64 - 1` turns: where overflows are checked the next result
panics, and the first turn of the next child takes the total back to zero, and with it a
budget that was reached. A child that reports `2 ^ 63 - 1` after another is not counted. -/
theorem spend_wraps :
    (after true none [.spawn, .result (some (2 ^ 64 - 1)) none, .result none none]).panicked =
        true ∧
      readTurns (after false none [.spawn, .result (some (2 ^ 64 - 1)) none]).row = 2 ^ 64 - 1 ∧
      readTurns (after false none [.spawn, .result (some (2 ^ 64 - 1)) none, .spawn,
        .result (some 1) none]).row = 0 ∧
      readTurns (after false none [.spawn, .result (some 1) none, .spawn,
        .result (some (2 ^ 63 - 1)) none]).row = 1 := by
  decide +kernel

end Wheel.Supervisor.Spend
