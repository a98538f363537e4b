import Wheel.Update.Crashes

/-!
# One verdict per probation

A daemon on probation has three threads that act on its marker. When they act in
turn, the marker is closed at most once, by the prober or by the watchdog, and the
binaries are put back exactly when the watchdog closed it (`one_verdict`).
`confirmed_and_rolled_back` is a run in which they do not: the watchdog gives the
build up just before it answers and reads the marker, the prober closes it as
updated, and the rollback closes it again.
-/

namespace Wheel

namespace Update

open Files

/-- The rows that say how a marker ended. -/
def World.verdicts (w : World) : List Row := w.log.filter Row.isVerdict

/-- The watchdog is in the middle of a rollback. -/
def World.RollsBack (w : World) : Prop :=
  ∃ running v, w.process = some ⟨running, .serving v⟩ ∧ v.watchdog.isRolling = true

/-- The daemon of `p` begins its probation; what is recorded is counted from here. -/
structure World.OnProbation (w : World) (p : Pending) (b : String) : Prop where
  process : w.process = some ⟨p.target, .serving (.begin true)⟩
  replaced : Replaced w p b
  log : w.log = []
  markers : w.markers = []
  restored : w.restored = []

/-- What the threads must agree on: the marker is closed at most once, the
binaries were put back exactly when it was closed by the rollback, and then both
were, the target is bad and the build before it is live; no build is installed
before the marker is closed, so each kept binary had proved healthy. -/
structure OneVerdict (p : Pending) (b : String) (w : World) : Prop where
  verdict : w.verdicts = [] ∨
    ∃ now o, w.verdicts = [p.row now o] ∧ (o = .updated ∨ o = .rolledBack)
  restored : ¬ w.RollsBack → (w.restored ≠ [] ↔ ∃ r ∈ w.verdicts, r.outcome = .rolledBack)
  rolledBack : (∃ r ∈ w.verdicts, r.outcome = .rolledBack) →
    (∀ c, (p.target, c) ∈ w.restored) ∧ p.target ∈ w.state.bad ∧
      (w.markers = [] → Builds w.dir .live b)
  installed : w.markers ≠ [] → w.verdicts ≠ []
  kept : KeptProved w

/-- How a probation ended. -/
inductive Ended (p : Pending) (b : String) (w : World) : Outcome → Prop where
  | updated (restored : w.restored = []) : Ended p b w .updated
  | rolledBack (back : ∀ c, (p.target, c) ∈ w.restored) (bad : p.target ∈ w.state.bad)
      (live : w.markers = [] → Builds w.dir .live b) : Ended p b w .rolledBack

/-- Where a probation stands. -/
inductive Standing (p : Pending) (b : String) (w : World) : Prop where
  | open (verdicts : w.verdicts = []) (restored : w.restored = []) (markers : w.markers = [])
      (replaced : Replaced w p b)
      (threads : ∀ running v, w.process = some ⟨running, .serving v⟩ →
        v.watchdog.isRolling = false ∧ (∀ q, v.prober = .closing q → q = p) ∧ v.updater.Waits) :
      Standing p b w
  | rolling (r : Roll) (running : String) (v : Serving)
      (process : w.process = some ⟨running, .serving v⟩) (watchdog : v.watchdog = .rolling r)
      (roll : RollOk w b r) (marker : r.marker = p) (prober : v.prober.isClosing = false)
      (updater : v.updater.Waits) (verdicts : w.verdicts = []) (markers : w.markers = [])
      (kept : KeptProved w) : Standing p b w
  | closed (now : ℕ) (o : Outcome) (verdicts : w.verdicts = [p.row now o]) (ended : Ended p b w o)
      (kept : KeptProved w)
      (daemon : ∀ running v, w.process = some ⟨running, .serving v⟩ → ServingOk w v ∧
        (w.state.pending = none ∨ v.updater.installs = true ∧ w.markers ≠ [])) : Standing p b w

variable {w : World} {p : Pending} {b running : String} {v v' : Serving} {now : ℕ}

theorem Replaced.keptProved (h : Replaced w p b) : KeptProved w := by
  intro c e he
  have hc := h.kept c
  rw [he, Option.map_some, Option.some.injEq] at hc
  exact hc ▸ h.proved

theorem World.OnProbation.standing (h : w.OnProbation p b) : Standing p b w := by
  refine .open ?_ h.restored h.markers h.replaced fun running v hv => ?_
  · rw [World.verdicts, h.log]
    rfl
  · rw [h.process] at hv
    cases hv
    exact ⟨rfl, nofun, trivial⟩

/-- What a probation says once it stands somewhere. -/
theorem Standing.oneVerdict (h : Standing p b w) : OneVerdict p b w := by
  cases h with
  | «open» hrows hback hmarks hrep hthreads =>
      have hno : ¬ ∃ r ∈ w.verdicts, r.outcome = .rolledBack := by
        rw [hrows]
        rintro ⟨r, hr, -⟩
        exact List.not_mem_nil hr
      exact ⟨.inl hrows, fun _ => ⟨fun hx => absurd hback hx, fun hx => absurd hx hno⟩,
        fun hx => absurd hx hno, fun hx => absurd hmarks hx, hrep.keptProved⟩
  | rolling r running v hproc hwatch hroll hm hprober hupd hrows hmarks hkept =>
      have hno : ¬ ∃ r ∈ w.verdicts, r.outcome = .rolledBack := by
        rw [hrows]
        rintro ⟨r, hr, -⟩
        exact List.not_mem_nil hr
      have hrolls : w.RollsBack := ⟨running, v, hproc, by rw [hwatch]; rfl⟩
      exact ⟨.inl hrows, fun hx => absurd hrolls hx, fun hx => absurd hx hno,
        fun hx => absurd hmarks hx, hkept⟩
  | closed now o hrows hended hkept hdaemon =>
      have hne : w.verdicts ≠ [] := by
        rw [hrows]
        exact List.cons_ne_nil _ _
      have hiff : (∃ r ∈ w.verdicts, r.outcome = .rolledBack) ↔ o = .rolledBack := by
        rw [hrows]
        simp [Pending.row]
      cases hended with
      | updated hback =>
          refine ⟨.inr ⟨now, _, hrows, .inl rfl⟩, fun _ => ?_, fun hx => ?_, fun _ => hne, hkept⟩
          · rw [hiff]
            exact ⟨fun hx => absurd hback hx, fun ho => by cases ho⟩
          · rw [hiff] at hx
            cases hx
      | rolledBack hback hbad hlive =>
          refine ⟨.inr ⟨now, _, hrows, .inr rfl⟩, fun _ => ?_, fun _ => ⟨hback, hbad, hlive⟩,
            fun _ => hne, hkept⟩
          rw [hiff]
          exact ⟨fun _ => rfl, fun _ => List.ne_nil_of_mem (hback .wheeld)⟩

/-! ## The steps -/

/-- An attempt adds no verdict. -/
theorem verdicts_record {row : Row} (h : row.outcome.isAttempt = true) :
    (w.record row).verdicts = w.verdicts := by
  have hnone : [row].filter Row.isVerdict = [] := by simp [Row.isVerdict, h]
  show (w.log ++ [row]).filter Row.isVerdict = _
  rw [List.filter_append, hnone, List.append_nil]
  rfl

/-- An open probation whose threads move on stays open. -/
theorem Standing.openStage (h : Replaced w p b) (hrows : w.verdicts = []) (hback : w.restored = [])
    (hmarks : w.markers = []) (hwatch : v'.watchdog.isRolling = false)
    (hprober : ∀ q, v'.prober = .closing q → q = p) (hupd : v'.updater.Waits) :
    Standing p b (w.setStage running (.serving v')) := by
  refine .open hrows hback hmarks (h.congr rfl rfl rfl) fun r u hu => ?_
  cases hu
  exact ⟨hwatch, hprober, hupd⟩

/-- A rollback whose threads move on goes on. -/
theorem Standing.rollStage {r : Roll} (hwatch : v'.watchdog = .rolling r) (hroll : RollOk w b r)
    (hm : r.marker = p) (hprober : v'.prober.isClosing = false) (hupd : v'.updater.Waits)
    (hrows : w.verdicts = []) (hmarks : w.markers = []) (hkept : KeptProved w) :
    Standing p b (w.setStage running (.serving v')) :=
  .rolling r running v' rfl hwatch (hroll.congr rfl rfl rfl rfl rfl) hm hprober hupd hrows hmarks
    hkept

/-- A step of a probation that is open. -/
theorem Standing.stepOpen {e : Event} (hrep : Replaced w p b) (hrows : w.verdicts = [])
    (hback : w.restored = []) (hmarks : w.markers = [])
    (hproc : w.process = some ⟨running, .serving v⟩) (hwatch : v.watchdog.isRolling = false)
    (hprober : ∀ q, v.prober = .closing q → q = p) (hupd : v.updater.Waits) (ht : InTurn w e)
    (he : e.isThread = true) : Standing p b (w.step e) := by
  have hbad : BadOk w := fun x hx => by
    rw [hback] at hx
    cases hx
  have hsame : Standing p b w := by
    refine .open hrows hback hmarks hrep fun r u hu => ?_
    rw [hproc] at hu
    cases hu
    exact ⟨hwatch, hprober, hupd⟩
  simp only [InTurn, hproc] at ht
  cases e with
  | boot | crash | settle => cases he
  | watchdog now =>
      simp only [World.step, hproc]
      cases hv : v.watchdog with
      | off | finished => simpa only [watchdogStep, hv] using hsame
      | rolling r =>
          rw [hv] at hwatch
          cases hwatch
      | restarting =>
          simp only [watchdogStep, hv]
          exact .open hrows hback hmarks (hrep.congr rfl rfl rfl)
            fun r u hu => absurd hu.symm (Option.some_ne_none _)
      | polling =>
          simp only [watchdogStep, hv]
          refine .openStage hrep hrows hback hmarks ?_ hprober hupd
          cases v.healthy with
          | true => rfl
          | false => rfl
      | fired =>
          simp only [watchdogStep, hv, hrep.pending, Option.elim_some]
          have hroll : RollOk w b (.restore p binaries 0) := hrep.restoring hbad
          exact .rollStage rfl hroll rfl (ht hv).1 hupd hrows hmarks hrep.keptProved
  | prober now =>
      simp only [World.step, hproc]
      cases hv : v.prober with
      | off | finished => simpa only [proberStep, hv] using hsame
      | waiting =>
          simp only [proberStep, hv]
          exact .openStage hrep hrows hback hmarks hwatch (fun q hq => by cases hq) hupd
      | confirming =>
          simp only [proberStep, hv, hrep.pending, Option.elim_some]
          exact .openStage hrep hrows hback hmarks hwatch
            (fun q hq => (Prober.closing.inj hq).symm) hupd
      | closing q =>
          obtain rfl : q = p := hprober q hv
          simp only [proberStep, hv]
          refine .closed now .updated ?_ (.updated hback)
            (fun c e he => List.mem_append_left _ (hrep.keptProved c e he)) fun r u hu => ?_
          · show (w.log ++ [q.row now .updated]).filter Row.isVerdict = _
            rw [List.filter_append]
            exact (congrArg (· ++ _) hrows).trans rfl
          · cases hu
            refine ⟨.quiet q.target (World.close_pending _) hrep.live
              (List.mem_append_right _ (List.mem_singleton_self _))
              (hbad.congr (World.close_bad _) rfl) hwatch rfl hupd, .inl (World.close_pending _)⟩
  | updater now =>
      simp only [World.step, hproc]
      cases hv : v.updater with
      | idle => simpa only [updaterStep, hv] using hsame
      | marking ready => cases hrep.pending.symm.trans (ht ready hv).1
      | swapping | undoing | abandoning =>
          rw [hv] at hupd
          exact hupd.elim
  | ready ready =>
      cases hv : v.updater with
      | idle =>
          simp only [World.step, hproc, hv]
          split
          · rename_i hs
            exact .openStage hrep hrows hback hmarks hwatch hprober
              fun c => hs.2 c (by cases c <;> decide)
          · exact hsame
      | marking | swapping | undoing | abandoning =>
          simp only [World.step, hproc, hv]
          exact hsame
  | attempt row =>
      simp only [World.step, hproc]
      split
      · rename_i hrow
        refine .open ((verdicts_record hrow).trans hrows) hback hmarks
          (hrep.congr (State.record_pending _ _) rfl rfl) fun r u hu => ?_
        have hu : w.process = some ⟨r, .serving u⟩ := hu
        rw [hproc] at hu
        cases hu
        exact ⟨hwatch, hprober, hupd⟩
      · exact hsame

/-- A rollback that goes on is of the same marker, and records nothing. -/
theorem Roll.step_more {r r' : Roll} (h : (r.step w now).2 = .more r') :
    r'.marker = r.marker ∧ (r.step w now).1.log = w.log ∧
      (r.step w now).1.markers = w.markers := by
  cases r with
  | restore p left n =>
      cases left with
      | nil =>
          rw [Roll.step] at h
          split at h
          · cases h
          · cases h
            exact ⟨rfl, rfl, rfl⟩
      | cons c left =>
          cases h
          exact ⟨rfl, rfl, rfl⟩
  | markBad p =>
      cases h
      exact ⟨rfl, rfl, rfl⟩
  | close p => cases h

/-- A rollback ends when it closes its marker. -/
theorem Roll.eq_close_of_done {r : Roll} (h : (r.step w now).2 = .done) :
    ∃ p, r = .close p := by
  cases r with
  | restore p left n =>
      cases left with
      | nil =>
          rw [Roll.step] at h
          split at h
          · cases h
          · cases h
      | cons c left => cases h
  | markBad p => cases h
  | close p => exact ⟨p, rfl⟩

/-- A step of the watchdog in its rollback. -/
theorem Standing.watchdogRoll {r : Roll} (hwatch : v.watchdog = .rolling r) (hroll : RollOk w b r)
    (hm : r.marker = p) (hprober : v.prober.isClosing = false) (hupd : v.updater.Waits)
    (hrows : w.verdicts = []) (hmarks : w.markers = []) (hkept : KeptProved w) :
    Standing p b (watchdogStep w running v now) := by
  have hkept' := hkept.roll r now
  rcases hroll.step now with ⟨r', hmore, hr'⟩ | ⟨hdone, hbad, hpend, hlive, hproved⟩
  · obtain ⟨hm', hlog, hmarks'⟩ := Roll.step_more hmore
    simp only [watchdogStep, hwatch]
    generalize hs : r.step w now = x at *
    obtain ⟨w', rolled⟩ := x
    obtain rfl : rolled = .more r' := hmore
    refine .rollStage rfl hr' (hm'.trans hm) hprober hupd ?_ (hmarks'.trans hmarks) hkept'
    rw [World.verdicts, hlog]
    exact hrows
  · obtain ⟨q, rfl⟩ := Roll.eq_close_of_done hdone
    obtain rfl : q = p := hm
    obtain ⟨-, -, -, hback⟩ := hroll
    have hmem : q.target ∈ (w.close q .rolledBack now).state.bad := hbad _ (hback .wheeld)
    simp only [watchdogStep, hwatch, Roll.step]
    refine .closed now .rolledBack ?_ (.rolledBack hback hmem fun _ => hlive) hkept'
      fun r u hu => ?_
    · show (w.log ++ [q.row now .rolledBack]).filter Row.isVerdict = _
      rw [List.filter_append]
      exact (congrArg (· ++ _) hrows).trans rfl
    · cases hu
      exact ⟨.quiet b hpend hlive hproved (hbad.congr rfl rfl) rfl hprober hupd, .inl hpend⟩

/-- A step of a probation that is being rolled back. -/
theorem Standing.stepRolling {e : Event} {r : Roll}
    (hproc : w.process = some ⟨running, .serving v⟩) (hwatch : v.watchdog = .rolling r)
    (hroll : RollOk w b r) (hm : r.marker = p) (hprober : v.prober.isClosing = false)
    (hupd : v.updater.Waits) (hrows : w.verdicts = []) (hmarks : w.markers = [])
    (hkept : KeptProved w) (ht : InTurn w e) (he : e.isThread = true) :
    Standing p b (w.step e) := by
  have hsame : Standing p b w :=
    .rolling r running v hproc hwatch hroll hm hprober hupd hrows hmarks hkept
  simp only [InTurn, hproc] at ht
  cases e with
  | boot | crash | settle => cases he
  | watchdog now =>
      simp only [World.step, hproc]
      exact .watchdogRoll hwatch hroll hm hprober hupd hrows hmarks hkept
  | prober now =>
      simp only [World.step, hproc]
      cases hv : v.prober with
      | off | finished => simpa only [proberStep, hv] using hsame
      | waiting =>
          simp only [proberStep, hv]
          exact .rollStage hwatch hroll hm rfl hupd hrows hmarks hkept
      | confirming =>
          have hnot := (ht hv).1
          rw [hwatch] at hnot
          cases hnot
      | closing q =>
          rw [hv] at hprober
          cases hprober
  | updater now =>
      simp only [World.step, hproc]
      cases hv : v.updater with
      | idle => simpa only [updaterStep, hv] using hsame
      | marking ready => cases hroll.marked.pending.symm.trans (ht ready hv).1
      | swapping | undoing | abandoning =>
          rw [hv] at hupd
          exact hupd.elim
  | ready ready =>
      cases hv : v.updater with
      | idle =>
          simp only [World.step, hproc, hv]
          split
          · rename_i hs
            exact .rollStage hwatch hroll hm hprober (fun c => hs.2 c (by cases c <;> decide))
              hrows hmarks hkept
          · exact hsame
      | marking | swapping | undoing | abandoning =>
          simp only [World.step, hproc, hv]
          exact hsame
  | attempt row =>
      simp only [World.step, hproc]
      split
      · rename_i hrow
        exact .rolling r running v hproc hwatch
          (hroll.congr (State.record_pending _ _) (State.record_bad _ _) rfl rfl rfl) hm hprober
          hupd ((verdicts_record hrow).trans hrows) hmarks hkept
      · exact hsame

/-- The probation is over: no marker is pending, or that of a later installation. -/
def Calm (w : World) (v : Serving) : Prop :=
  w.state.pending = none ∨ v.updater.installs = true ∧ w.markers ≠ []

theorem Ended.congr {w' : World} {o : Outcome} (h : Ended p b w o)
    (hr : w'.restored = w.restored) (hb : w'.state.bad = w.state.bad)
    (hlive : w'.markers = [] → w.markers = [] ∧ w'.dir = w.dir) : Ended p b w' o := by
  cases h with
  | updated hback => exact .updated (hr.trans hback)
  | rolledBack hback hbad hl =>
      refine .rolledBack (hr ▸ hback) (hb ▸ hbad) fun hm => ?_
      obtain ⟨hm, hd⟩ := hlive hm
      rw [hd]
      exact hl hm

theorem Standing.closedServes {o : Outcome} {at' : ℕ} (hs : Serves w running v)
    (hrows : w.verdicts = [p.row at' o]) (hended : Ended p b w o) (hcalm : Calm w v) :
    Standing p b w := by
  refine .closed at' o hrows hended hs.kept fun r u hu => ?_
  rw [hs.process] at hu
  cases hu
  exact ⟨hs.ok, hcalm⟩

/-- The daemon of a closed probation ends. -/
theorem Standing.closedExit {o : Outcome} {at' : ℕ} (hrows : w.verdicts = [p.row at' o])
    (hended : Ended p b w o) (hkept : KeptProved w) : Standing p b w.exit :=
  .closed at' o hrows (hended.congr rfl rfl fun hm => ⟨hm, rfl⟩) hkept
    fun _ _ hu => absurd hu.symm (Option.some_ne_none _)

/-- After its probation, a daemon has nothing to roll back and nothing to confirm. -/
theorem Serves.calm (hs : Serves w running v) (hc : Calm w v) :
    v.watchdog.isRolling = false ∧ v.prober.isClosing = false := by
  have hno : ∀ {q}, w.state.pending = some q → v.updater.Waits → False := by
    intro q hq hu
    rcases hc with hnone | ⟨hinst, -⟩
    · cases hq.symm.trans hnone
    · cases hu.installs.symm.trans hinst
  cases hs.ok with
  | quiet b hpend hlive hproved hbad hwatch hprober => exact ⟨hwatch, hprober⟩
  | swapping ready ops p b d j hupd hinst hbad hwatch hprober => exact ⟨hwatch, hprober⟩
  | proving p b hrep hbad hwatch hprober hupd => exact (hno hrep.pending hupd).elim
  | rolling r b hwatch hroll hprober hupd => exact (hno hroll.marked.pending hupd).elim

/-- A step of the updater after the probation. -/
theorem Standing.updaterClosed {o : Outcome} {at' : ℕ} (hs : Serves w running v)
    (hrows : w.verdicts = [p.row at' o]) (hended : Ended p b w o) (hcalm : Calm w v)
    (ht : ∀ ready, v.updater = .marking ready → w.state.pending = none ∧
      (w.dir.data? (.live .wheeld)).map Exe.build ≠ some ready.candidate.target) :
    Standing p b (updaterStep w running v now) := by
  by_cases hr : ∃ ready, v.updater = .swapping ready []
  · obtain ⟨ready, hr⟩ := hr
    simp only [updaterStep, hr]
    exact .closedExit hrows hended hs.kept
  obtain ⟨v', hs'⟩ := hs.updater now ht fun ready hready => hr ⟨ready, hready⟩
  cases hv : v.updater with
  | idle =>
      simp only [updaterStep, hv]
      exact .closedServes hs hrows hended hcalm
  | marking ready =>
      have hne : w.markers ++ [ready.pending running now] ≠ [] :=
        List.append_ne_nil_of_right_ne_nil _ (List.cons_ne_nil _ _)
      simp only [updaterStep, hv] at hs' ⊢
      have hproc := hs'.process
      cases hproc
      exact .closedServes hs' hrows (hended.congr rfl rfl fun hm => absurd hm hne)
        (.inr ⟨rfl, hne⟩)
  | swapping ready ops =>
      cases ops with
      | nil => exact absurd ⟨ready, hv⟩ hr
      | cons op ops =>
          have hne : w.markers ≠ [] := by
            rcases hcalm with hnone | ⟨-, hne⟩
            · cases hs.ok with
              | swapping ready ops q b d j hupd hinst =>
                  cases hinst.pending.symm.trans hnone
              | quiet b hpend hlive hproved hbad hwatch hprober hupd =>
                  rw [hv] at hupd
                  exact hupd.elim
              | proving p b hrep => cases hrep.pending.symm.trans hnone
              | rolling r b hwatch hroll => cases hroll.marked.pending.symm.trans hnone
            · exact hne
          simp only [updaterStep, hv] at hs' ⊢
          split at hs'
          · have hproc := hs'.process
            cases hproc
            exact .closedServes hs' hrows (hended.congr rfl rfl fun hm => absurd hm hne)
              (.inr ⟨rfl, hne⟩)
          · have hproc := hs'.process
            cases hproc
            exact .closedServes hs' hrows (hended.congr rfl rfl fun hm => absurd hm hne)
              (.inr ⟨rfl, hne⟩)
  | undoing ready left | abandoning ready =>
      cases hs.ok with
      | swapping ready ops p b d j hupd => cases hupd.symm.trans hv
      | quiet b hpend hlive hproved hbad hwatch hprober hupd =>
          rw [hv] at hupd
          exact hupd.elim
      | proving p b hrep hbad hwatch hprober hupd =>
          rw [hv] at hupd
          exact hupd.elim
      | rolling r b hwatch hroll hprober hupd =>
          rw [hv] at hupd
          exact hupd.elim

/-- A step of a daemon whose probation is over. -/
theorem Standing.stepClosed {e : Event} {o : Outcome} {at' : ℕ} (hs : Serves w running v)
    (hrows : w.verdicts = [p.row at' o]) (hended : Ended p b w o) (hcalm : Calm w v)
    (ht : InTurn w e) (he : e.isThread = true) : Standing p b (w.step e) := by
  have hproc := hs.process
  have hsame : Standing p b w := .closedServes hs hrows hended hcalm
  have hended' : ∀ {q}, Ended p b { w with process := q } o :=
    hended.congr rfl rfl fun hm => ⟨hm, rfl⟩
  obtain ⟨hrolling, hclosing⟩ := hs.calm hcalm
  simp only [InTurn, hproc] at ht
  cases e with
  | boot | crash | settle => cases he
  | watchdog now =>
      simp only [World.step, hproc]
      by_cases hr : v.watchdog = .restarting
      · simp only [watchdogStep, hr]
        exact .closedExit hrows hended hs.kept
      obtain ⟨v', hs'⟩ := hs.watchdog now ht hr
      cases hv : v.watchdog with
      | off | finished => simpa only [watchdogStep, hv] using hsame
      | restarting => exact absurd hv hr
      | rolling r =>
          rw [hv] at hrolling
          cases hrolling
      | polling | fired =>
          simp only [watchdogStep, hv] at hs' ⊢
          have hproc' := hs'.process
          cases hproc'
          exact .closedServes hs' hrows hended' hcalm
  | prober now =>
      simp only [World.step, hproc]
      obtain ⟨v', hs'⟩ := hs.prober now ht
      cases hv : v.prober with
      | off | finished => simpa only [proberStep, hv] using hsame
      | closing q =>
          rw [hv] at hclosing
          cases hclosing
      | waiting | confirming =>
          simp only [proberStep, hv] at hs' ⊢
          have hproc' := hs'.process
          cases hproc'
          exact .closedServes hs' hrows hended' hcalm
  | updater now =>
      simp only [World.step, hproc]
      exact .updaterClosed hs hrows hended hcalm ht
  | ready ready =>
      cases hv : v.updater with
      | idle =>
          simp only [World.step, hproc, hv]
          split
          · rename_i hsound
            refine .closedServes (hs.ready hv hsound) hrows hended' ?_
            refine hcalm.imp id fun hinstalls => ?_
            have hinst := hinstalls.1
            rw [hv] at hinst
            cases hinst
          · exact hsame
      | marking | swapping | undoing | abandoning =>
          simp only [World.step, hproc, hv]
          exact hsame
  | attempt row =>
      simp only [World.step, hproc]
      split
      · rename_i hrow
        refine .closedServes (hs.record row) ((verdicts_record hrow).trans hrows)
          (hended.congr rfl (State.record_bad _ _) fun hm => ⟨hm, rfl⟩) ?_
        exact hcalm.imp_left (State.record_pending _ _).trans
      · exact hsame

/-- A step of the threads in turn. -/
theorem Standing.step {e : Event} (h : Standing p b w) (ht : InTurn w e)
    (he : e.isThread = true) : Standing p b (w.step e) := by
  cases hproc : w.process with
  | none =>
      cases e with
      | boot | crash | settle => cases he
      | watchdog | prober | updater | ready | attempt =>
          simpa only [World.step, hproc] using h
  | some q =>
      obtain ⟨running, t⟩ := q
      cases t with
      | settling t =>
          cases e with
          | boot | crash | settle => cases he
          | watchdog | prober | updater | ready | attempt =>
              simpa only [World.step, hproc] using h
      | serving v =>
          cases h with
          | «open» hrows hback hmarks hrep hthreads =>
              obtain ⟨hwatch, hprober, hupd⟩ := hthreads running v hproc
              exact .stepOpen hrep hrows hback hmarks hproc hwatch hprober hupd ht he
          | rolling r running' v' hproc' hwatch hroll hm hprober hupd hrows hmarks hkept =>
              exact .stepRolling hproc' hwatch hroll hm hprober hupd hrows hmarks hkept ht he
          | closed now o hrows hended hkept hdaemon =>
              obtain ⟨hok, hcalm⟩ := hdaemon running v hproc
              exact .stepClosed ⟨hproc, hok, hkept⟩ hrows hended hcalm ht he

/-! ## The runs -/

/-- In every interleaving of the threads of a daemon on probation that take turns
with the marker, there is one verdict, and the binaries agree with it. -/
theorem one_verdict {x : List Event} (hw : w.OnProbation p b)
    (hx : Run.Always World.step (fun w e => InTurn w e ∧ e.isThread = true) w x) :
    OneVerdict p b (Run.run World.step w x) :=
  (Run.invariant (fun _ _ hs hc => Standing.step hs hc.1 hc.2) hw.standing hx).oneVerdict

/-- The marker of build "c" in its first boot. -/
def markerC : Pending := { (readyFor "c").pending "b" 0 with attempts := 1 }

/-- Build "c" is on probation, and build "b" is kept. -/
def hostOnProbation : World where
  state := { pending := some markerC }
  dir := binDir "c" "b"
  process := some ⟨"c", .serving (.begin true)⟩
  log := []
  markers := []
  restored := []
  proved := ["a", "b"]

theorem hostOnProbation_onProbation : hostOnProbation.OnProbation markerC "b" where
  process := rfl
  replaced := ⟨⟨rfl, by decide, by decide⟩, fun c => by cases c <;> rfl,
    fun c => by cases c <;> rfl⟩
  log := rfl
  markers := rfl
  restored := rfl

/-- The build answers, and its watchdog ends. -/
theorem one_verdict_confirmed :
    OneVerdict markerC "b"
      (Run.run World.step hostOnProbation [.prober 1, .prober 1, .watchdog 1, .prober 1]) :=
  one_verdict hostOnProbation_onProbation
    ⟨⟨nofun, rfl⟩, ⟨fun _ => ⟨rfl, rfl⟩, rfl⟩, ⟨nofun, rfl⟩, ⟨nofun, rfl⟩, trivial⟩

/-- The watchdog gives the build up and reads the marker; the build answers, and
the prober closes the marker as updated; the watchdog puts the binaries back and
closes the marker as rolled back. -/
theorem confirmed_and_rolled_back :
    ∃ w p b x, w.OnProbation p b ∧ (∀ e ∈ x, Event.isThread e = true) ∧
      (Run.run World.step w x).verdicts = [p.row 1 .updated, p.row 2 .rolledBack] ∧
      ¬ OneVerdict p b (Run.run World.step w x) := by
  have hrows : (Run.run World.step hostOnProbation
      ([.watchdog 0, .watchdog 0, .prober 1, .prober 1, .prober 1] ++
        List.replicate 5 (.watchdog 2))).verdicts =
      [markerC.row 1 .updated, markerC.row 2 .rolledBack] := by decide +kernel
  refine ⟨hostOnProbation, markerC, "b", _, hostOnProbation_onProbation, by decide, hrows,
    fun h => ?_⟩
  rcases h.verdict with hnil | ⟨now, o, hone, -⟩
  · rw [hrows] at hnil
    cases hnil
  · rw [hrows] at hone
    cases hone

end Update

end Wheel
