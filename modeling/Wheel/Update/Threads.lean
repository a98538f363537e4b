import Wheel.Update.Recovery

/-!
# The threads of a daemon

While a daemon serves, its watchdog, its prober and its updater act on one marker
without a lock. `InTurn` says that none of them reads or writes the marker while
another one is in the middle of what it does with it, and `ServingOk` what holds
between the steps of a daemon whose threads act in turn. A step takes a serving
daemon on, or ends it: the watchdog by its restart and the updater by its own.
-/

namespace Wheel

namespace Update

open Files

def Watchdog.isRolling : Watchdog → Bool
  | .rolling _ => true
  | _ => false

def Prober.isClosing : Prober → Bool
  | .closing _ => true
  | _ => false

/-- The marker of an installation is written, and the installation goes on. -/
def UpdaterStage.installs : UpdaterStage → Bool
  | .idle | .marking _ => false
  | _ => true

/-- The watchdog does not read the marker while a confirmation that read it or an
installation goes on, nor the prober while a rollback or an installation goes on;
and the updater writes its marker only when none is pending, for another build
than the live one. -/
def InTurn (w : World) (e : Event) : Prop :=
  match e, w.process with
  | .watchdog _, some ⟨_, .serving v⟩ =>
      v.watchdog = .fired → v.prober.isClosing = false ∧ v.updater.installs = false
  | .prober _, some ⟨_, .serving v⟩ =>
      v.prober = .confirming → v.watchdog.isRolling = false ∧ v.updater.installs = false
  | .updater _, some ⟨_, .serving v⟩ =>
      ∀ ready, v.updater = .marking ready → w.state.pending = none ∧
        (w.dir.data? (.live .wheeld)).map Exe.build ≠ some ready.candidate.target
  | _, _ => True

/-- The updater has not begun an installation; what it holds was built from its
target. -/
def UpdaterStage.Waits : UpdaterStage → Prop
  | .idle => True
  | .marking ready => ∀ c, (ready.staged.binary c).build = ready.candidate.target
  | _ => False

/-- What holds while a daemon serves. -/
inductive ServingOk (w : World) (v : Serving) : Prop where
  /-- There is no marker. -/
  | quiet (b : String) (pending : w.state.pending = none) (live : Builds w.dir .live b)
      (proved : b ∈ w.proved) (bad : BadOk w) (watchdog : v.watchdog.isRolling = false)
      (prober : v.prober.isClosing = false) (updater : v.updater.Waits) : ServingOk w v
  /-- The next build is being installed. -/
  | swapping (ready : Ready) (ops : List FileOp) (p : Pending) (b : String) (d : BinDir) (j : ℕ)
      (updater : v.updater = .swapping ready ops) (install : Installing w ready ops p b d j)
      (bad : BadOk w) (watchdog : v.watchdog.isRolling = false)
      (prober : v.prober.isClosing = false) : ServingOk w v
  /-- The build has yet to prove itself. -/
  | proving (p : Pending) (b : String) (replaced : Replaced w p b) (bad : BadOk w)
      (watchdog : v.watchdog.isRolling = false) (prober : ∀ q, v.prober = .closing q → q = p)
      (updater : v.updater.Waits) : ServingOk w v
  /-- The watchdog rolls the build back. -/
  | rolling (r : Roll) (b : String) (watchdog : v.watchdog = .rolling r) (roll : RollOk w b r)
      (prober : v.prober.isClosing = false) (updater : v.updater.Waits) : ServingOk w v

variable {w w' : World} {p : Pending} {b running : String} {v v' : Serving}

/-- What holds of a serving daemon is about the marker, the bad list, the files and
the two ghosts, not about the history. -/
theorem ServingOk.congr (h : ServingOk w v) (hs : w'.state.pending = w.state.pending)
    (hb : w'.state.bad = w.state.bad) (hd : w'.dir = w.dir) (hr : w'.restored = w.restored)
    (hp : w'.proved = w.proved) : ServingOk w' v := by
  cases h with
  | quiet b hpend hlive hproved hbad hwatch hprober hupd =>
      exact .quiet b (hs.trans hpend) (hd ▸ hlive) (hp ▸ hproved) (hbad.congr hb hr) hwatch hprober
        hupd
  | swapping ready ops p b d j hupd hinst hbad hwatch hprober =>
      exact .swapping ready ops p b d j hupd (hinst.congr hs hd hp) (hbad.congr hb hr) hwatch
        hprober
  | proving p b hrep hbad hwatch hprober hupd =>
      exact .proving p b (hrep.congr hs hd hp) (hbad.congr hb hr) hwatch hprober hupd
  | rolling r b hwatch hroll hprober hupd =>
      exact .rolling r b hwatch (hroll.congr hs hb hd hr hp) hprober hupd

/-- A daemon that serves, and what holds of it. -/
structure Serves (w : World) (running : String) (v : Serving) : Prop where
  process : w.process = some ⟨running, .serving v⟩
  ok : ServingOk w v
  kept : KeptProved w

/-- A thread that only moves on keeps what holds of the daemon. -/
theorem Serves.setStage (h : Serves w running v) (hok : ServingOk w v') :
    Serves (w.setStage running (.serving v')) running v' where
  process := rfl
  ok := hok.congr rfl rfl rfl rfl rfl
  kept := h.kept

theorem UpdaterStage.Waits.installs {u : UpdaterStage} (h : u.Waits) : u.installs = false := by
  cases u with
  | idle => rfl
  | marking ready => rfl
  | swapping | undoing | abandoning => exact h.elim

/-! ## The watchdog -/

/-- A step of the watchdog's rollback. -/
theorem Serves.watchdogRoll {r : Roll} (h : Serves w running v) (now : ℕ) (hwatch : v.watchdog = .rolling r)
    (hr : RollOk w b r) (hprober : v.prober.isClosing = false) (hupd : v.updater.Waits) :
    ∃ v', Serves (watchdogStep w running v now) running v' := by
  have hkept := h.kept.roll r now
  simp only [watchdogStep, hwatch]
  generalize hs : r.step w now = x at hkept
  have hstep := hr.step now
  rw [hs] at hstep
  obtain ⟨w', rolled⟩ := x
  rcases hstep with ⟨r', rfl, hr'⟩ | ⟨rfl, hbad, hpend, hlive, hproved⟩
  · refine ⟨_, rfl, ?_, hkept⟩
    exact .rolling r' b rfl (hr'.congr rfl rfl rfl rfl rfl) hprober hupd
  · refine ⟨_, rfl, ?_, hkept⟩
    exact .quiet b hpend hlive hproved (hbad.congr rfl rfl) rfl hprober hupd

/-- The watchdog goes on, or restarts the daemon. -/
theorem Serves.watchdog (h : Serves w running v) (now : ℕ)
    (ht : v.watchdog = .fired → v.prober.isClosing = false ∧ v.updater.installs = false)
    (hr : v.watchdog ≠ .restarting) :
    ∃ v', Serves (watchdogStep w running v now) running v' := by
  cases hv : v.watchdog with
  | off => exact ⟨v, by simpa only [watchdogStep, hv] using h⟩
  | finished => exact ⟨v, by simpa only [watchdogStep, hv] using h⟩
  | restarting => exact absurd hv hr
  | polling =>
      have hnext : (if v.healthy then Watchdog.finished else .fired).isRolling = false := by
        cases v.healthy with
        | true => rfl
        | false => rfl
      simp only [watchdogStep, hv]
      refine ⟨_, h.setStage ?_⟩
      cases h.ok with
      | quiet b hpend hlive hproved hbad hwatch hprober hupd =>
          exact .quiet b hpend hlive hproved hbad hnext hprober hupd
      | swapping ready ops p b d j hupd hinst hbad hwatch hprober =>
          exact .swapping ready ops p b d j hupd hinst hbad hnext hprober
      | proving p b hrep hbad hwatch hprober hupd =>
          exact .proving p b hrep hbad hnext hprober hupd
      | rolling r b hwatch => cases hwatch.symm.trans hv
  | fired =>
      obtain ⟨hclosing, hinstalls⟩ := ht hv
      simp only [watchdogStep, hv]
      cases h.ok with
      | quiet b hpend hlive hproved hbad hwatch hprober hupd =>
          rw [hpend, Option.elim_none]
          exact ⟨_, h.setStage (.quiet b hpend hlive hproved hbad rfl hprober hupd)⟩
      | swapping ready ops p b d j hupd =>
          rw [hupd] at hinstalls
          cases hinstalls
      | proving p b hrep hbad hwatch hprober hupd =>
          rw [hrep.pending, Option.elim_some]
          exact ⟨_, h.setStage (.rolling _ b rfl (hrep.restoring hbad) hclosing hupd)⟩
      | rolling r b hwatch => cases hwatch.symm.trans hv
  | rolling r =>
      cases h.ok with
      | quiet b hpend hlive hproved hbad hwatch =>
          rw [hv] at hwatch
          cases hwatch
      | swapping ready ops p b d j hupd hinst hbad hwatch =>
          rw [hv] at hwatch
          cases hwatch
      | proving p b hrep hbad hwatch =>
          rw [hv] at hwatch
          cases hwatch
      | rolling r b hwatch hroll hprober hupd => exact h.watchdogRoll now hwatch hroll hprober hupd

/-! ## The prober -/

/-- The prober goes on; the build of the marker it closes proved healthy. -/
theorem Serves.prober (h : Serves w running v) (now : ℕ)
    (ht : v.prober = .confirming → v.watchdog.isRolling = false ∧ v.updater.installs = false) :
    ∃ v', Serves (proberStep w running v now) running v' := by
  cases hv : v.prober with
  | off => exact ⟨v, by simpa only [proberStep, hv] using h⟩
  | finished => exact ⟨v, by simpa only [proberStep, hv] using h⟩
  | waiting =>
      simp only [proberStep, hv]
      refine ⟨_, h.setStage ?_⟩
      cases h.ok with
      | quiet b hpend hlive hproved hbad hwatch hprober hupd =>
          exact .quiet b hpend hlive hproved hbad hwatch rfl hupd
      | swapping ready ops p b d j hupd hinst hbad hwatch hprober =>
          exact .swapping ready ops p b d j hupd hinst hbad hwatch rfl
      | proving p b hrep hbad hwatch hprober hupd =>
          exact .proving p b hrep hbad hwatch nofun hupd
      | rolling r b hwatch hroll hprober hupd => exact .rolling r b hwatch hroll rfl hupd
  | confirming =>
      obtain ⟨hrolling, hinstalls⟩ := ht hv
      simp only [proberStep, hv]
      cases h.ok with
      | quiet b hpend hlive hproved hbad hwatch hprober hupd =>
          rw [hpend, Option.elim_none]
          exact ⟨_, h.setStage (.quiet b hpend hlive hproved hbad hwatch rfl hupd)⟩
      | swapping ready ops p b d j hupd =>
          rw [hupd] at hinstalls
          cases hinstalls
      | proving p b hrep hbad hwatch hprober hupd =>
          rw [hrep.pending, Option.elim_some]
          refine ⟨_, h.setStage (.proving p b hrep hbad hwatch (fun q hq => ?_) hupd)⟩
          exact (Prober.closing.inj hq).symm
      | rolling r b hwatch =>
          rw [hwatch] at hrolling
          cases hrolling
  | closing q =>
      simp only [proberStep, hv]
      cases h.ok with
      | quiet b hpend hlive hproved hbad hwatch hprober =>
          rw [hv] at hprober
          cases hprober
      | swapping ready ops p b d j hupd hinst hbad hwatch hprober =>
          rw [hv] at hprober
          cases hprober
      | rolling r b hwatch hroll hprober =>
          rw [hv] at hprober
          cases hprober
      | proving p b hrep hbad hwatch hprober hupd =>
          obtain rfl : q = p := hprober q hv
          refine ⟨_, rfl, ?_, fun c e he => List.mem_append_left _ (h.kept c e he)⟩
          exact .quiet q.target (World.close_pending _) hrep.live
            (List.mem_append_right _ (List.mem_singleton_self _))
            (hbad.congr (World.close_bad _) rfl) hwatch rfl hupd

/-! ## The updater -/

/-- The updater goes on, or restarts the daemon when the build is installed. -/
theorem Serves.updater (h : Serves w running v) (now : ℕ)
    (ht : ∀ ready, v.updater = .marking ready → w.state.pending = none ∧
      (w.dir.data? (.live .wheeld)).map Exe.build ≠ some ready.candidate.target)
    (hr : ∀ ready, v.updater ≠ .swapping ready []) :
    ∃ v', Serves (updaterStep w running v now) running v' := by
  cases hv : v.updater with
  | idle => exact ⟨v, by simpa only [updaterStep, hv] using h⟩
  | marking ready =>
      obtain ⟨hnone, hne⟩ := ht ready hv
      simp only [updaterStep, hv]
      cases h.ok with
      | quiet b hpend hlive hproved hbad hwatch hprober hupd =>
          rw [hv] at hupd
          refine ⟨_, rfl, ?_, h.kept⟩
          refine .swapping ready _ (ready.pending running now) b w.dir 0 rfl ?_
            (hbad.congr rfl rfl) hwatch hprober
          refine ⟨⟨rfl, fun hb => hne ?_, hproved⟩, hupd, hlive, h.kept, ?_, rfl⟩
          · rw [hlive .wheeld, hb]
            rfl
          · exact .first (Swapping.zero _ _ _) (by decide)
      | swapping ready ops p b d j hupd => cases hupd.symm.trans hv
      | proving p b hrep => cases hrep.pending.symm.trans hnone
      | rolling r b hwatch hroll => cases hroll.marked.pending.symm.trans hnone
  | swapping ready ops =>
      cases h.ok with
      | swapping ready ops p b d j hupd hinst hbad hwatch hprober =>
          cases ops with
          | nil => exact absurd hupd (hr ready)
          | cons op ops =>
              obtain ⟨e, he, hinst'⟩ := hinst.step
              simp only [updaterStep, hupd, he]
              refine ⟨_, rfl, ?_, hinst'.keptProved⟩
              exact .swapping ready ops p b d (j + 1) rfl (hinst'.congr rfl rfl rfl)
                (hbad.congr rfl rfl) hwatch hprober
      | quiet b hpend hlive hproved hbad hwatch hprober hupd => rw [hv] at hupd; exact hupd.elim
      | proving p b hrep hbad hwatch hprober hupd => rw [hv] at hupd; exact hupd.elim
      | rolling r b hwatch hroll hprober hupd => rw [hv] at hupd; exact hupd.elim
  | undoing ready left | abandoning ready =>
      cases h.ok with
      | swapping ready ops p b d j hupd => cases hupd.symm.trans hv
      | quiet b hpend hlive hproved hbad hwatch hprober hupd => rw [hv] at hupd; exact hupd.elim
      | proving p b hrep hbad hwatch hprober hupd => rw [hv] at hupd; exact hupd.elim
      | rolling r b hwatch hroll hprober hupd => rw [hv] at hupd; exact hupd.elim

/-- The updater gets a build to install. -/
theorem Serves.ready {ready : Ready} (h : Serves w running v) (hidle : v.updater = .idle)
    (hs : ready.Sound running) :
    Serves (w.setStage running (.serving { v with updater := .marking ready })) running
      { v with updater := .marking ready } := by
  have hwaits : (UpdaterStage.marking ready).Waits := fun c => hs.2 c (by cases c <;> decide)
  refine h.setStage ?_
  cases h.ok with
  | quiet b hpend hlive hproved hbad hwatch hprober =>
      exact .quiet b hpend hlive hproved hbad hwatch hprober hwaits
  | swapping ready ops p b d j hupd => cases hupd.symm.trans hidle
  | proving p b hrep hbad hwatch hprober => exact .proving p b hrep hbad hwatch hprober hwaits
  | rolling r b hwatch hroll hprober => exact .rolling r b hwatch hroll hprober hwaits

/-- An attempt that ended leaves the daemon as it is. -/
theorem Serves.record (h : Serves w running v) (row : Row) : Serves (w.record row) running v where
  process := h.process
  ok := h.ok.congr (State.record_pending _ _) (State.record_bad _ _) rfl rfl rfl
  kept := h.kept

end Update

end Wheel
