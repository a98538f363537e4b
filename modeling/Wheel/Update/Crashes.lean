import Wheel.Update.Threads

/-!
# Crash safety

Each step of the world keeps the invariant `Inv` when it is `Orderly`: the threads
act in turn, and the daemon does not end in the middle of a swap or of a rollback.
`crash_safe` reads it at the boots that settle. `crash_between_renames` is a run
with one crash between the two renames of a swap: the next boot takes the new
daemon for an installed update, proves it healthy, and leaves the command line of
the old build beside it for good.
-/

namespace Wheel

namespace Update

open Files

/-! ## The rows -/

/-- A row that says how a marker ended. -/
def Row.isVerdict (r : Row) : Bool := !r.outcome.isAttempt

/-- The row is about the marker. -/
def Row.Closes (r : Row) (p : Pending) : Prop := r = p.row r.at' r.outcome

/-- Each marker that is not pending has one row, in order, and the history is the
end of what was recorded. -/
structure Recorded (w : World) : Prop where
  history : w.state.history = w.log.drop (w.log.length - historyCap)
  verdicts : ∃ closed, w.markers =
      closed ++ (w.state.pending.map fun p => { p with attempts := 0 }).toList ∧
    List.Forall₂ (fun p r => Row.Closes r p) closed (w.log.filter Row.isVerdict)

variable {w w' : World} {p : Pending} {b running : String} {v : Serving} {now : ℕ}

theorem Recorded.congr (h : Recorded w) (hs : w'.state = w.state) (hl : w'.log = w.log)
    (hm : w'.markers = w.markers) : Recorded w' where
  history := by rw [hs, hl, h.history]
  verdicts := by
    rw [hs, hl, hm]
    exact h.verdicts

/-- A recorded row stands at the end of the history. -/
theorem history_record {α : Type*} (x : List α) (a : α) (n : ℕ) :
    (x.drop (x.length - n) ++ [a]).drop ((x.drop (x.length - n) ++ [a]).length - n) =
      (x ++ [a]).drop ((x ++ [a]).length - n) := by
  rw [List.length_append, List.length_append, List.length_drop, List.length_singleton]
  rcases Nat.lt_or_ge n x.length with h | h
  · have hdrop : x.length - n ≤ x.length := Nat.sub_le _ _
    rw [← List.drop_append_of_le_length hdrop, List.drop_drop]
    congr 1
    omega
  · rw [Nat.sub_eq_zero_of_le h, List.drop_zero]
    rfl

theorem record_history (h : w.state.history = w.log.drop (w.log.length - historyCap)) (r : Row) :
    (w.record r).state.history =
      (w.record r).log.drop ((w.record r).log.length - historyCap) := by
  show (w.state.history ++ [r]).drop ((w.state.history ++ [r]).length - historyCap) = _
  rw [h]
  exact history_record w.log r historyCap

/-- An attempt leaves the markers and their rows alone. -/
theorem Recorded.attempt (h : Recorded w) {r : Row} (hr : r.outcome.isAttempt = true) :
    Recorded (w.record r) where
  history := record_history h.history r
  verdicts := by
    obtain ⟨closed, hm, hf⟩ := h.verdicts
    refine ⟨closed, hm, ?_⟩
    show List.Forall₂ _ closed ((w.log ++ [r]).filter Row.isVerdict)
    have hnone : [r].filter Row.isVerdict = [] := by simp [Row.isVerdict, hr]
    rw [List.filter_append, hnone, List.append_nil]
    exact hf

/-- Closing the pending marker gives it its row. -/
theorem Recorded.close (h : Recorded w) (hp : w.state.pending = some p) {outcome : Outcome}
    (ho : outcome.isAttempt = false) (now : ℕ) : Recorded (w.close p outcome now) where
  history := record_history (w := { w with state := { w.state with pending := none } }) h.history _
  verdicts := by
    obtain ⟨closed, hm, hf⟩ := h.verdicts
    rw [hp] at hm
    refine ⟨closed ++ [{ p with attempts := 0 }], hm.trans (List.append_nil _).symm, ?_⟩
    show List.Forall₂ _ _ ((w.log ++ [p.row now outcome]).filter Row.isVerdict)
    have hone : [p.row now outcome].filter Row.isVerdict = [p.row now outcome] := by
      simp [Row.isVerdict, Pending.row, ho]
    rw [List.filter_append, hone]
    exact List.rel_append hf (.cons rfl .nil)

/-- A marker that is written when none is pending is the only one without a row. -/
theorem Recorded.mark (h : Recorded w) (hp : w.state.pending = none) (ready : Ready)
    (running : String) (now : ℕ) :
    Recorded { w with
      state := beginInstall w.state running ready now
      markers := w.markers ++ [ready.pending running now] } where
  history := h.history
  verdicts := by
    obtain ⟨closed, hm, hf⟩ := h.verdicts
    rw [hp] at hm
    refine ⟨closed, ?_, hf⟩
    show w.markers ++ _ = _
    rw [hm, List.append_assoc]
    rfl

/-- Counting a boot leaves the markers and their rows alone. -/
theorem Recorded.countBoot (h : Recorded w) :
    Recorded { w with state := w.state.countBoot } where
  history := h.history
  verdicts := by
    obtain ⟨closed, hm, hf⟩ := h.verdicts
    refine ⟨closed, hm.trans ?_, hf⟩
    show _ = closed ++ ((w.state.pending.map _).map _).toList
    rw [Option.map_map]
    rfl

theorem Recorded.roll (h : Recorded w) {r : Roll} (hr : RollOk w b r) (now : ℕ) :
    Recorded (r.step w now).1 := by
  cases r with
  | restore p left n =>
      cases left with
      | nil => exact h
      | cons b left => exact h.congr rfl rfl rfl
  | markBad p =>
      refine ⟨?_, ?_⟩
      · show (w.state.markBad p.target).history = _
        rw [State.markBad_history]
        exact h.history
      · show ∃ closed, w.markers =
          closed ++ ((w.state.markBad p.target).pending.map _).toList ∧ _
        rw [State.markBad_pending]
        exact h.verdicts
  | close p => exact h.close hr.1.pending rfl now

/-! ## The order of the steps -/

def Watchdog.exposed : Watchdog → Bool
  | .rolling r => r.exposed
  | _ => false

/-- The operations a swap has left to do. -/
def UpdaterStage.ops : UpdaterStage → List FileOp
  | .swapping _ ops => ops
  | _ => []

/-- What an end of the daemon leaves here, no boot can tell from a finished step. -/
def Stage.Exposed : Stage → Prop
  | .settling (.roll r) => r.exposed = true
  | .settling _ => False
  | .serving v => v.watchdog.exposed = true ∨ HalfSwapped v.updater.ops

/-- The threads act in turn; no crash comes in the middle of a swap or of a
rollback, and the watchdog does not restart the daemon in the middle of a swap. -/
def Orderly (w : World) (e : Event) : Prop :=
  InTurn w e ∧
    match e, w.process with
    | .crash, some ⟨_, t⟩ => ¬ t.Exposed
    | .watchdog _, some ⟨_, .serving v⟩ =>
        v.watchdog = .restarting → ¬ HalfSwapped v.updater.ops
    | _, _ => True

/-! ## The invariant -/

/-- Where the daemon stands. -/
inductive Phase (w : World) : Prop where
  | down (process : w.process = none) (rest : Rest w) (bad : BadOk w) : Phase w
  | booting (running : String) (process : w.process = some ⟨running, .settling .decide⟩)
      (rest : Rest w) (bad : BadOk w)
      (live : (w.dir.data? (.live .wheeld)).map Exe.build = some running) : Phase w
  | interrupting (p : Pending) (running b : String)
      (process : w.process = some ⟨running, .settling (.interrupt p)⟩)
      (marked : Marked w p b) (live : Builds w.dir .live b) (bad : BadOk w) : Phase w
  | attempting (p : Pending) (running b : String)
      (process : w.process = some ⟨running, .settling .attempt⟩)
      (replaced : Replaced w p b) (bad : BadOk w) : Phase w
  | rollingBack (running b : String) (r : Roll)
      (process : w.process = some ⟨running, .settling (.roll r)⟩) (roll : RollOk w b r) : Phase w
  | serving (running : String) (v : Serving) (serves : Serves w running v) : Phase w

/-- The invariant of the world. -/
structure Inv (w : World) : Prop where
  phase : Phase w
  recorded : Recorded w
  kept : KeptProved w

/-- What a crash leaves where the daemon is not exposed. -/
theorem ServingOk.rest (h : ServingOk w v) (hx : ¬ (Stage.serving v).Exposed) :
    Rest w ∧ BadOk w := by
  cases h with
  | quiet b hpend hlive hproved hbad => exact ⟨.settled b hpend hlive hproved, hbad⟩
  | swapping ready ops p b d j hupd hinst hbad =>
      refine ⟨hinst.rest fun hhalf => hx (.inr ?_), hbad⟩
      rw [hupd]
      exact hhalf
  | proving p b hrep hbad => exact ⟨.after p b hrep, hbad⟩
  | rolling r b hwatch hroll =>
      refine hroll.rest (Bool.eq_false_iff.mpr fun hexp => hx (.inl ?_))
      rw [hwatch]
      exact hexp

theorem Phase.rest (h : Phase w) (hx : ∀ q, w.process = some q → ¬ q.stage.Exposed) :
    Rest w ∧ BadOk w := by
  cases h with
  | down hproc hr hb => exact ⟨hr, hb⟩
  | booting r hproc hr hb => exact ⟨hr, hb⟩
  | interrupting p r b hproc hm hl hb => exact ⟨.before p b hm hl, hb⟩
  | attempting p r b hproc hr hb => exact ⟨.after p b hr, hb⟩
  | rollingBack r b q hproc hr => exact hr.rest (Bool.eq_false_iff.mpr (hx _ hproc))
  | serving r v hs => exact hs.ok.rest (hx _ hs.process)

theorem Inv.setStage {t : Stage} (h : Inv w) (hp : Phase (w.setStage running t)) :
    Inv (w.setStage running t) where
  phase := hp
  recorded := h.recorded.congr rfl rfl rfl
  kept := h.kept

/-- A daemon that may be cut off may end. -/
theorem Inv.exit (h : Inv w) (hr : Rest w) (hb : BadOk w) : Inv w.exit where
  phase := .down rfl (hr.congr rfl rfl rfl) (hb.congr rfl rfl)
  recorded := h.recorded.congr rfl rfl rfl
  kept := h.kept

theorem Inv.serving (h : Recorded w) (hs : Serves w running v) : Inv w where
  phase := .serving running v hs
  recorded := h
  kept := hs.kept

/-! ## The steps of a boot -/

theorem Inv.boot (h : Inv w) (hproc : w.process = none) : Inv (w.step .boot) := by
  cases hd : w.dir.data? (.live .wheeld) with
  | none =>
      simp only [World.step, hproc, hd]
      exact h
  | some exe =>
      simp only [World.step, hproc, hd]
      obtain ⟨hr, hb⟩ := h.phase.rest fun q hq => by
        rw [hproc] at hq
        cases hq
      refine h.setStage (.booting exe.build rfl (hr.congr rfl rfl rfl) (hb.congr rfl rfl) ?_)
      show (w.dir.data? (.live .wheeld)).map Exe.build = _
      rw [hd]
      rfl

/-- The step that decides takes a boot where the marker and the files say. -/
theorem Inv.decide (h : Inv w) (hr : Rest w) (hb : BadOk w)
    (hlive : (w.dir.data? (.live .wheeld)).map Exe.build = some running) :
    Inv (settleStep w running now .decide) := by
  rw [settleStep]
  cases hr with
  | settled b hpend hl hproved =>
      rw [hpend]
      refine h.setStage (.serving running _ ⟨rfl, ?_, h.kept⟩)
      exact .quiet b hpend hl hproved (hb.congr rfl rfl) rfl rfl trivial
  | before p b hm hl =>
      obtain rfl : b = running := Option.some.inj ((hl .wheeld).symm.trans hlive)
      have hdecide : Update.decide w.state.pending b = .interrupted p := by
        rw [hm.pending, Update.decide]
        exact if_pos hm.ne.symm
      rw [hdecide]
      exact h.setStage (.interrupting p b b rfl (hm.congr rfl rfl) hl (hb.congr rfl rfl))
  | after p b hrep =>
      obtain rfl : p.target = running := Option.some.inj ((hrep.live .wheeld).symm.trans hlive)
      rw [hrep.pending, Update.decide, if_neg (not_not_intro rfl)]
      rcases Nat.lt_or_ge p.attempts 1 with hlt | hge
      · rw [if_neg (Nat.not_le_of_lt hlt)]
        exact h.setStage (.attempting p _ b rfl (hrep.congr rfl rfl rfl) (hb.congr rfl rfl))
      · rw [if_pos hge]
        have hroll : RollOk w b (.restore p binaries 0) := hrep.restoring hb
        exact h.setStage (.rollingBack p.target b _ rfl (hroll.congr rfl rfl rfl rfl rfl))

/-- A step of a rollback on boot. -/
theorem Inv.settleRoll {r : Roll} (h : Inv w) (hr : RollOk w b r) :
    Inv (settleStep w running now (.roll r)) := by
  have hrec := h.recorded.roll hr now
  have hkept := h.kept.roll r now
  rw [settleStep]
  generalize hs : r.step w now = x at hrec hkept
  have hstep := hr.step now
  rw [hs] at hstep
  obtain ⟨w', rolled⟩ := x
  rcases hstep with ⟨r', rfl, hr'⟩ | ⟨rfl, hbad, hpend, hlive, hproved⟩
  · refine ⟨.rollingBack running b r' rfl (hr'.congr rfl rfl rfl rfl rfl), ?_, hkept⟩
    exact hrec.congr rfl rfl rfl
  · refine ⟨.down rfl (.settled b hpend hlive hproved) (hbad.congr rfl rfl), ?_, hkept⟩
    exact hrec.congr rfl rfl rfl

theorem Inv.settle {t : Settle} (h : Inv w) (hproc : w.process = some ⟨running, .settling t⟩) :
    Inv (settleStep w running now t) := by
  cases h.phase with
  | down hp => simp [hproc] at hp
  | serving r v hs => simp [hs.process] at hproc
  | booting r hp hr hb hl =>
      rw [hproc] at hp
      cases hp
      exact h.decide hr hb hl
  | interrupting p r b hp hm hl hb =>
      rw [hproc] at hp
      cases hp
      refine Inv.serving ((h.recorded.close hm.pending rfl now).congr rfl rfl rfl)
        ⟨rfl, ?_, h.kept⟩
      exact .quiet b (World.close_pending _) hl hm.proved (hb.congr (World.close_bad _) rfl) rfl
        rfl trivial
  | attempting p r b hp hrep hb =>
      rw [hproc] at hp
      cases hp
      have hpend : w.state.countBoot.pending = some { p with attempts := p.attempts + 1 } := by
        rw [State.countBoot, hrep.pending]
        rfl
      refine Inv.serving (h.recorded.countBoot.congr rfl rfl rfl) ⟨rfl, ?_, h.kept⟩
      exact .proving { p with attempts := p.attempts + 1 } b
        ⟨⟨hpend, hrep.ne, hrep.proved⟩, hrep.live, hrep.kept⟩ (hb.congr rfl rfl) rfl nofun trivial
  | rollingBack r b q hp hr =>
      rw [hproc] at hp
      cases hp
      exact h.settleRoll hr

/-! ## The steps of the threads -/

/-- The watchdog records a row only when its rollback ends. -/
theorem Recorded.watchdog (h : Recorded w) (hs : Serves w running v) :
    Recorded (watchdogStep w running v now) := by
  cases hv : v.watchdog with
  | off | polling | fired | restarting | finished =>
      simp only [watchdogStep, hv]
      exact h.congr rfl rfl rfl
  | rolling r =>
      cases hs.ok with
      | quiet b hpend hlive hproved hbad hwatch =>
          rw [hv] at hwatch
          cases hwatch
      | swapping ready ops p b d j hupd hinst hbad hwatch =>
          rw [hv] at hwatch
          cases hwatch
      | proving p b hrep hbad hwatch =>
          rw [hv] at hwatch
          cases hwatch
      | rolling q b hwatch hroll =>
          obtain rfl : q = r := Watchdog.rolling.inj (hwatch.symm.trans hv)
          have hrec := h.roll hroll now
          simp only [watchdogStep, hv]
          split
          all_goals
            rename_i heq
            rw [heq] at hrec
            exact hrec.congr rfl rfl rfl

/-- The prober records the row of the marker it closes. -/
theorem Recorded.prober (h : Recorded w) (hs : Serves w running v) :
    Recorded (proberStep w running v now) := by
  cases hv : v.prober with
  | off | waiting | confirming | finished =>
      simp only [proberStep, hv]
      exact h.congr rfl rfl rfl
  | closing q =>
      simp only [proberStep, hv]
      cases hs.ok with
      | quiet b hpend hlive hproved hbad hwatch hprober =>
          rw [hv] at hprober
          cases hprober
      | swapping ready ops p b d j hupd hinst hbad hwatch hprober =>
          rw [hv] at hprober
          cases hprober
      | rolling r b hwatch hroll hprober =>
          rw [hv] at hprober
          cases hprober
      | proving p b hrep hbad hwatch hprober =>
          obtain rfl : q = p := hprober q hv
          exact (h.close hrep.pending rfl now).congr rfl rfl rfl

/-- The updater writes a marker when none is pending. -/
theorem Recorded.updater (h : Recorded w) (hs : Serves w running v)
    (ht : ∀ ready, v.updater = .marking ready → w.state.pending = none ∧
      (w.dir.data? (.live .wheeld)).map Exe.build ≠ some ready.candidate.target) :
    Recorded (updaterStep w running v now) := by
  cases hv : v.updater with
  | idle =>
      simp only [updaterStep, hv]
      exact h
  | marking ready =>
      simp only [updaterStep, hv]
      exact (h.mark (ht ready hv).1 ready running now).congr rfl rfl rfl
  | swapping ready ops =>
      cases ops with
      | nil =>
          simp only [updaterStep, hv]
          exact h.congr rfl rfl rfl
      | cons op ops =>
          simp only [updaterStep, hv]
          split
          · exact h.congr rfl rfl rfl
          · exact h.congr rfl rfl rfl
  | undoing ready left | abandoning ready =>
      cases hs.ok with
      | swapping ready ops p b d j hupd => cases hupd.symm.trans hv
      | quiet b hpend hlive hproved hbad hwatch hprober hupd =>
          rw [hv] at hupd
          exact hupd.elim
      | proving p b hrep hbad hwatch hprober hupd =>
          rw [hv] at hupd
          exact hupd.elim
      | rolling r b hwatch hroll hprober hupd =>
          rw [hv] at hupd
          exact hupd.elim

theorem Inv.serves (h : Inv w) (hproc : w.process = some ⟨running, .serving v⟩) :
    Serves w running v := by
  cases h.phase with
  | serving r u hs =>
      have heq := hs.process
      rw [hproc] at heq
      cases heq
      exact hs
  | down hp => simp [hproc] at hp
  | booting _ hp => simp [hproc] at hp
  | interrupting _ _ _ hp => simp [hproc] at hp
  | attempting _ _ _ hp => simp [hproc] at hp
  | rollingBack _ _ _ hp => simp [hproc] at hp

/-- The daemon ends here without leaving anything half done. -/
theorem Inv.cut {q : Process} (h : Inv w) (hproc : w.process = some q) (hx : ¬ q.stage.Exposed) :
    Inv w.exit := by
  obtain ⟨hr, hb⟩ := h.phase.rest fun q' hq' => by
    rw [hproc] at hq'
    cases hq'
    exact hx
  exact h.exit hr hb

/-- A step in order of a daemon that serves. -/
theorem Inv.stepServing {e : Event} (h : Inv w) (ho : Orderly w e)
    (hproc : w.process = some ⟨running, .serving v⟩) : Inv (w.step e) := by
  have hs := h.serves hproc
  simp only [Orderly, InTurn, hproc] at ho
  cases e with
  | boot | settle => simpa only [World.step, hproc] using h
  | crash =>
      simp only [World.step, hproc]
      exact h.cut hproc ho.2
  | watchdog now =>
      simp only [World.step, hproc]
      by_cases hr : v.watchdog = .restarting
      · simp only [watchdogStep, hr]
        refine h.cut hproc fun hx => hx.elim (fun he => ?_) (ho.2 hr)
        rw [hr] at he
        cases he
      · obtain ⟨v', hs'⟩ := hs.watchdog now ho.1 hr
        exact .serving (h.recorded.watchdog hs) hs'
  | prober now =>
      simp only [World.step, hproc]
      obtain ⟨v', hs'⟩ := hs.prober now ho.1
      exact .serving (h.recorded.prober hs) hs'
  | updater now =>
      simp only [World.step, hproc]
      by_cases hr : ∃ ready, v.updater = .swapping ready []
      · obtain ⟨ready, hr⟩ := hr
        simp only [updaterStep, hr]
        refine h.cut hproc fun hx => hx.elim (fun he => ?_) fun hhalf => ?_
        · cases hs.ok with
          | swapping _ _ _ _ _ _ _ _ _ hwatch =>
              cases hw : v.watchdog with
              | rolling r =>
                  rw [hw] at hwatch
                  cases hwatch
              | off | polling | fired | restarting | finished =>
                  rw [hw] at he
                  cases he
          | quiet _ _ _ _ _ _ _ hupd =>
              rw [hr] at hupd
              exact hupd
          | proving _ _ _ _ _ _ hupd =>
              rw [hr] at hupd
              exact hupd
          | rolling _ _ _ _ _ hupd =>
              rw [hr] at hupd
              exact hupd
        · rw [hr] at hhalf
          exact List.not_mem_nil hhalf.2
      · obtain ⟨v', hs'⟩ := hs.updater now ho.1 fun ready hready => hr ⟨ready, hready⟩
        exact .serving (h.recorded.updater hs ho.1) hs'
  | ready ready =>
      cases hu : v.updater with
      | idle =>
          simp only [World.step, hproc, hu]
          split
          · rename_i hsound
            exact .serving (h.recorded.congr rfl rfl rfl) (hs.ready hu hsound)
          · exact h
      | marking | swapping | undoing | abandoning =>
          simp only [World.step, hproc, hu]
          exact h
  | attempt row =>
      simp only [World.step, hproc]
      split
      · rename_i hrow
        exact .serving (h.recorded.attempt hrow) (hs.record row)
      · exact h

/-- A step in order keeps the invariant. -/
theorem Inv.step {e : Event} (h : Inv w) (ho : Orderly w e) : Inv (w.step e) := by
  cases hproc : w.process with
  | none =>
      cases e with
      | boot => exact h.boot hproc
      | crash | settle | watchdog | prober | updater | ready | attempt =>
          simpa only [World.step, hproc] using h
  | some q =>
      obtain ⟨running, t⟩ := q
      cases t with
      | serving v => exact h.stepServing ho hproc
      | settling t =>
          simp only [Orderly, InTurn, hproc] at ho
          cases e with
          | crash =>
              simp only [World.step, hproc]
              exact h.cut hproc ho.2
          | settle now =>
              simp only [World.step, hproc]
              exact h.settle hproc
          | boot | watchdog | prober | updater | ready | attempt =>
              simpa only [World.step, hproc] using h

/-! ## The runs -/

/-- A host without a daemon: one build is live and no marker is pending, and
nothing was put back. -/
structure World.Start (w : World) : Prop where
  process : w.process = none
  pending : w.state.pending = none
  live : ∃ b ∈ w.proved, Builds w.dir .live b
  kept : KeptProved w
  restored : w.restored = []
  recorded : Recorded w

theorem World.Start.inv (h : w.Start) : Inv w where
  phase := by
    obtain ⟨b, hb, hlive⟩ := h.live
    refine .down h.process (.settled b h.pending hlive hb) fun x hx => ?_
    rw [h.restored] at hx
    cases hx
  recorded := h.recorded
  kept := h.kept

/-- A boot settled: a daemon serves, and no marker is pending. -/
def World.Settled (w : World) : Prop :=
  w.state.pending = none ∧ ∃ running v, w.process = some ⟨running, .serving v⟩

/-- What crashes must not break: the two live binaries are of one build, each
target of which a binary was put back is bad, and each marker that was written has
its one row, in the order of the markers; the history is the end of these rows. -/
structure CrashSafe (w : World) : Prop where
  live : ∃ b, Builds w.dir .live b
  bad : BadOk w
  rows : List.Forall₂ (fun p r => Row.Closes r p) w.markers (w.log.filter Row.isVerdict)
  history : w.state.history = w.log.drop (w.log.length - historyCap)

/-- Where a boot settles, the invariant leaves nothing half done. -/
theorem Inv.crashSafe (h : Inv w) (hs : w.Settled) : CrashSafe w := by
  obtain ⟨hpend, running, v, hproc⟩ := hs
  obtain ⟨closed, hm, hrows⟩ := h.recorded.verdicts
  rw [hpend, Option.map_none, Option.toList_none, List.append_nil] at hm
  cases (h.serves hproc).ok with
  | quiet b _ hlive _ hbad => exact ⟨⟨b, hlive⟩, hbad, hm ▸ hrows, h.recorded.history⟩
  | swapping _ _ _ _ _ _ _ hinst => cases hinst.pending.symm.trans hpend
  | proving _ _ hrep => cases hrep.pending.symm.trans hpend
  | rolling _ _ _ hroll => cases hroll.marked.pending.symm.trans hpend

/-- In every run in order, whatever crashes and boots it has, each boot that
settles finds nothing half done. -/
theorem crash_safe {x : List Event} (hw : w.Start) (hx : Run.Always World.step Orderly w x)
    (hs : (Run.run World.step w x).Settled) : CrashSafe (Run.run World.step w x) :=
  (Run.invariant (fun _ _ hi ho => Inv.step hi ho) hw.inv hx).crashSafe hs

/-- A host on which build "b" runs, and replaced build "a". -/
def hostOfB : World where
  state := {}
  dir := binDir "b" "a"
  process := none
  log := []
  markers := []
  restored := []
  proved := ["a", "b"]

/-- A daemon boots, and its updater has done the first `n` steps of installing "c". -/
def installC (n : ℕ) : List Event :=
  [.boot, .settle 0, .ready (readyFor "c")] ++ List.replicate n (.updater 0)

/-- The new daemon boots, answers, and is killed; the next boot settles. -/
def bootTwice : List Event :=
  [.boot, .settle 1, .settle 1, .prober 2, .prober 2, .prober 2, .crash, .boot, .settle 3]

theorem hostOfB_start : hostOfB.Start where
  process := rfl
  pending := rfl
  live := ⟨"b", by decide, fun c => by cases c <;> rfl⟩
  kept := by
    intro c e he
    have ha : e.build = "a" := by
      cases c with
      | wheeld =>
          cases he
          rfl
      | wheel =>
          cases he
          rfl
    rw [ha]
    decide
  restored := rfl
  recorded := ⟨rfl, [], rfl, .nil⟩

/-- A whole update, and a crash after it. -/
theorem crash_safe_updated :
    CrashSafe (Run.run World.step hostOfB (installC 12 ++ bootTwice)) := by
  have horder : Run.Always World.step Orderly hostOfB (installC 12 ++ bootTwice) := by
    refine ⟨⟨trivial, trivial⟩, ⟨trivial, trivial⟩, ⟨trivial, trivial⟩, ⟨?_, trivial⟩, ?_⟩
    · intro ready hready
      cases hready
      exact ⟨rfl, by decide⟩
    -- the ten operations of the swap, and the restart
    iterate 11 refine ⟨⟨nofun, trivial⟩, ?_⟩
    refine ⟨⟨trivial, trivial⟩, ⟨trivial, trivial⟩, ⟨trivial, trivial⟩, ⟨nofun, trivial⟩,
      ⟨fun _ => ⟨rfl, rfl⟩, trivial⟩, ⟨nofun, trivial⟩, ⟨trivial, ?_⟩, ?_⟩
    · exact fun h => h.elim nofun fun hhalf => List.not_mem_nil hhalf.2
    · exact ⟨⟨trivial, trivial⟩, ⟨trivial, trivial⟩, trivial⟩
  exact crash_safe hostOfB_start horder ⟨rfl, "c", .begin false, rfl⟩

/-- The daemon is killed between the two renames of a swap. The boots after it
settle with the daemon of the new build and the command line of the old one. -/
theorem crash_between_renames :
    ∃ w x v, w.Start ∧ (Run.run World.step w x).state.pending = none ∧
      (Run.run World.step w x).process = some ⟨"c", .serving v⟩ ∧ v.probation = false ∧
      ¬ CrashSafe (Run.run World.step w x) := by
  refine ⟨hostOfB, installC 6 ++ .crash :: bootTwice, .begin false, hostOfB_start, rfl, rfl, rfl,
    fun h => ?_⟩
  obtain ⟨b, hb⟩ := h.live
  have hwheeld : some "c" = some b := hb .wheeld
  have hwheel : some "b" = some b := hb .wheel
  exact absurd (hwheeld.trans hwheel.symm) (by decide)

end Update

end Wheel
