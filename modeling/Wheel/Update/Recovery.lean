import Wheel.Update.Daemon

/-!
# What a daemon may leave

`Rest` says what a daemon that is not running may leave: no marker and two live
binaries of one build, or a marker whose build is installed completely or not at
all. In between stand a rollback (`RollOk`) and the installation of a build
(`Installing`), and each of their steps takes them one further. They may be cut
off where no boot takes what is left for something else: a rollback before the
first binary it puts back and after its target is marked bad, an installation
before the first of its two renames and after the second.
-/

namespace Wheel

namespace Update

open Files

/-! ## Binaries of one build -/

/-- Both binaries of a kind are from one build. -/
def Builds (d : BinDir) (kind : Binary → Path) (build : String) : Prop :=
  ∀ b, (d.data? (kind b)).map Exe.build = some build

/-- Every binary that was put back is of a target marked bad. -/
def BadOk (w : World) : Prop := ∀ x ∈ w.restored, x.1 ∈ w.state.bad

/-- The marker `p` is pending, and the build `b` it replaces had proved healthy. -/
structure Marked (w : World) (p : Pending) (b : String) : Prop where
  pending : w.state.pending = some p
  ne : b ≠ p.target
  proved : b ∈ w.proved

/-- The build of the marker is live, and the build `b` it replaced is kept. -/
structure Replaced (w : World) (p : Pending) (b : String) : Prop extends Marked w p b where
  live : Builds w.dir .live p.target
  kept : Builds w.dir .prev b

/-- What a daemon may leave when it ends. -/
inductive Rest (w : World) : Prop where
  | settled (b : String) (pending : w.state.pending = none) (live : Builds w.dir .live b)
      (proved : b ∈ w.proved) : Rest w
  | before (p : Pending) (b : String) (marked : Marked w p b) (live : Builds w.dir .live b) :
      Rest w
  | after (p : Pending) (b : String) (replaced : Replaced w p b) : Rest w

/-- A rollback of `p` to `b` stands where `left` has to be put back. -/
structure Restoring (w : World) (p : Pending) (b : String) (left : List Binary) (n : ℕ) : Prop
    extends Marked w p b where
  suffix : left <:+ binaries
  count : n + left.length = 2
  todo : ∀ c ∈ left, (w.dir.data? (.live c)).map Exe.build = some p.target ∧
    (w.dir.data? (.prev c)).map Exe.build = some b
  done : ∀ c ∉ left, (w.dir.data? (.live c)).map Exe.build = some b
  bad : ∀ x ∈ w.restored, x.1 ∈ w.state.bad ∨ 0 < n ∧ x.1 = p.target
  back : ∀ c ∉ left, (p.target, c) ∈ w.restored

/-- What holds at each step of a rollback to `b`. -/
def RollOk (w : World) (b : String) : Roll → Prop
  | .restore p left n => Restoring w p b left n
  | .markBad p => Restoring w p b [] 2
  | .close p => Marked w p b ∧ Builds w.dir .live b ∧ BadOk w ∧
      ∀ c, (p.target, c) ∈ w.restored

/-- A swap that began in `d` stands after `j` of its operations. -/
inductive SwapAt (staged : Staged) (d d' : BinDir) : ℕ → Prop where
  | first {j : ℕ} (h : Swapping staged .wheeld d d' j) (hj : j < 5) : SwapAt staged d d' j
  | second {m : BinDir} {j : ℕ} (h : Swapping staged .wheeld d m 5)
      (h' : Swapping staged .wheel m d' j) (hj : j ≤ 5) : SwapAt staged d d' (5 + j)

/-- The installation of a marked build has the operations `ops` to do. -/
structure Installing (w : World) (ready : Ready) (ops : List FileOp) (p : Pending) (b : String)
    (d : BinDir) (j : ℕ) : Prop extends Marked w p b where
  staged : ∀ c, (ready.staged.binary c).build = p.target
  live : Builds d .live b
  keptBefore : ∀ c e, d.data? (.prev c) = some e → e.build ∈ w.proved
  at_ : SwapAt ready.staged d w.dir j
  ops : ops = (swap ready.staged).drop j

/-- Every kept binary is of a build that proved healthy. -/
def KeptProved (w : World) : Prop :=
  ∀ c e, w.dir.data? (.prev c) = some e → e.build ∈ w.proved

variable {w w' : World} {p : Pending} {b : String} {now : ℕ}

theorem BadOk.congr (h : BadOk w) (hb : w'.state.bad = w.state.bad)
    (hr : w'.restored = w.restored) : BadOk w' := by
  intro x hx
  rw [hr] at hx
  rw [hb]
  exact h x hx

theorem Marked.congr (h : Marked w p b) (hs : w'.state.pending = w.state.pending)
    (hp : w'.proved = w.proved) : Marked w' p b where
  pending := hs.trans h.pending
  ne := h.ne
  proved := hp ▸ h.proved

theorem Replaced.congr (h : Replaced w p b) (hs : w'.state.pending = w.state.pending)
    (hd : w'.dir = w.dir) (hp : w'.proved = w.proved) : Replaced w' p b where
  toMarked := h.toMarked.congr hs hp
  live := hd ▸ h.live
  kept := hd ▸ h.kept

/-- What a daemon may leave does not depend on the daemon. -/
theorem Rest.congr (h : Rest w) (hs : w'.state.pending = w.state.pending) (hd : w'.dir = w.dir)
    (hp : w'.proved = w.proved) : Rest w' := by
  cases h with
  | settled b hpend hlive hproved =>
      exact .settled b (hs.trans hpend) (hd ▸ hlive) (hp ▸ hproved)
  | before p b hm hlive => exact .before p b (hm.congr hs hp) (hd ▸ hlive)
  | after p b hr => exact .after p b (hr.congr hs hd hp)

theorem Builds.ne_none {d : BinDir} {kind : Binary → Path} {build : String}
    (h : Builds d kind build) (c : Binary) : d.data? (kind c) ≠ none := by
  intro hnone
  have hc := h c
  rw [hnone] at hc
  cases hc

/-! ## A rollback -/

theorem RollOk.congr {r : Roll} (h : RollOk w b r) (hs : w'.state.pending = w.state.pending)
    (hb : w'.state.bad = w.state.bad) (hd : w'.dir = w.dir) (hr : w'.restored = w.restored)
    (hp : w'.proved = w.proved) : RollOk w' b r := by
  have hrestoring : ∀ {left n}, Restoring w r.marker b left n →
      Restoring w' r.marker b left n := by
    intro left n h
    refine ⟨h.toMarked.congr hs hp, h.suffix, h.count, ?_, ?_, ?_, ?_⟩
    · rw [hd]
      exact h.todo
    · rw [hd]
      exact h.done
    · rw [hr, hb]
      exact h.bad
    · rw [hr]
      exact h.back
  cases r with
  | restore p left n => exact hrestoring h
  | markBad p => exact hrestoring h
  | close p => exact ⟨h.1.congr hs hp, hd ▸ h.2.1, h.2.2.1.congr hb hr, hr ▸ h.2.2.2⟩

/-- A rollback of an installed build may begin. -/
theorem Replaced.restoring (h : Replaced w p b) (hb : BadOk w) :
    Restoring w p b binaries 0 where
  toMarked := h.toMarked
  suffix := List.suffix_refl _
  count := rfl
  todo c _ := ⟨h.live c, h.kept c⟩
  done c hc := absurd (by cases c <;> decide) hc
  bad x hx := .inl (hb x hx)
  back c hc := absurd (by cases c <;> decide) hc

@[simp] theorem World.close_pending (outcome : Outcome) :
    (w.close p outcome now).state.pending = none := by
  rw [World.close, World.record, State.record_pending]

@[simp] theorem World.close_bad (outcome : Outcome) :
    (w.close p outcome now).state.bad = w.state.bad := by
  rw [World.close, World.record, State.record_bad]

theorem KeptProved.roll (h : KeptProved w) (r : Roll) (now : ℕ) :
    KeptProved (r.step w now).1 := by
  cases r with
  | restore p left n =>
      cases left with
      | nil => exact h
      | cons c left => exact fun a e he => h a e (prev_of_restore he)
  | markBad p => exact h
  | close p => exact h

/-- Putting one binary back takes a rollback one further. -/
theorem Restoring.step {c : Binary} {left : List Binary} {n : ℕ}
    (h : Restoring w p b (c :: left) n) :
    w.dir.has (.prev c) = true ∧ Restoring (w.restore p c) p b left (n + 1) := by
  obtain ⟨hlive, hprev⟩ := h.todo c List.mem_cons_self
  have hhas : w.dir.has (.prev c) = true := by
    rw [Dir.has_eq_true_iff]
    intro hnone
    rw [hnone] at hprev
    cases hprev
  have hnotin : c ∉ left := by
    have hnodup : (c :: left).Nodup := h.suffix.sublist.nodup (by decide)
    exact (List.nodup_cons.mp hnodup).1
  have hother : ∀ q : Path, q.name ≠ c → (w.restore p c).dir.data? q = w.dir.data? q :=
    fun q hq => data?_restore_of_ne _ hq
  refine ⟨hhas, ?_⟩
  constructor
  case toMarked => exact h.toMarked.congr rfl rfl
  case suffix => exact (List.suffix_cons c left).trans h.suffix
  case count =>
    have hcount : n + (left.length + 1) = 2 := h.count
    omega
  case todo =>
    intro a ha
    have hne : a ≠ c := fun heq => hnotin (heq ▸ ha)
    rw [hother (.live a) hne, hother (.prev a) hne]
    exact h.todo a (List.mem_cons_of_mem c ha)
  case done =>
    intro a ha
    rcases eq_or_ne a c with rfl | hne
    · show ((Update.restore (w.dir, 0) a).1.data? (.live a)).map Exe.build = _
      rw [data?_restore]
      obtain ⟨e, he, hb⟩ := Option.map_eq_some_iff.mp hprev
      rw [he, Option.some_or, Option.map_some, hb]
    · rw [hother (.live a) hne]
      exact h.done a (by simp [hne, ha])
  case bad =>
    intro x hx
    have hx : x ∈ w.restored ++ [(p.target, c)] := by
      simpa only [World.restore, hhas, if_true] using hx
    rcases List.mem_append.mp hx with hx | hx
    · rcases h.bad x hx with hbad | ⟨-, ht⟩
      · exact .inl hbad
      · exact .inr ⟨Nat.succ_pos n, ht⟩
    · rw [List.mem_singleton.mp hx]
      exact .inr ⟨Nat.succ_pos n, rfl⟩
  case back =>
    intro a ha
    have hmem : (p.target, a) ∈ w.restored ++ [(p.target, c)] := by
      rcases eq_or_ne a c with rfl | hne
      · exact List.mem_append_right _ (List.mem_singleton_self _)
      · exact List.mem_append_left _ (h.back a (by simp [hne, ha]))
    simpa only [World.restore, hhas, if_true] using hmem

/-- A rollback goes on until the build it replaced is live and its target is bad. -/
theorem RollOk.step {r : Roll} (h : RollOk w b r) (now : ℕ) :
    (∃ r', (r.step w now).2 = .more r' ∧ RollOk (r.step w now).1 b r') ∨
      (r.step w now).2 = .done ∧ BadOk (r.step w now).1 ∧ (r.step w now).1.state.pending = none ∧
        Builds (r.step w now).1.dir .live b ∧ b ∈ (r.step w now).1.proved := by
  cases r with
  | restore p left n =>
      cases left with
      | nil =>
          have hn : n = 2 := h.count
          subst hn
          exact .inl ⟨.markBad p, rfl, h⟩
      | cons c left =>
          obtain ⟨hhas, hstep⟩ := Restoring.step h
          refine .inl ⟨.restore p left (n + 1), ?_, hstep⟩
          rw [Roll.step, hhas]
          rfl
  | markBad p =>
      refine .inl ⟨.close p, rfl, ?_, fun c => h.done c List.not_mem_nil, ?_,
        fun c => h.back c List.not_mem_nil⟩
      · exact h.toMarked.congr (State.markBad_pending _ _) rfl
      · intro x hx
        rcases h.bad x hx with hbad | ⟨-, ht⟩
        · exact w.state.bad_subset_markBad _ hbad
        · rw [ht]
          exact w.state.mem_bad_markBad _
  | close p =>
      obtain ⟨hm, hlive, hbad, -⟩ := h
      exact .inr ⟨rfl, hbad.congr (World.close_bad _) rfl, World.close_pending _, hlive, hm.proved⟩

theorem RollOk.marked {r : Roll} (h : RollOk w b r) : Marked w r.marker b := by
  cases r with
  | restore p left n => exact h.toMarked
  | markBad p => exact h.toMarked
  | close p => exact h.1

/-- A rollback put a binary back, and its target is not marked bad yet. -/
def Roll.exposed : Roll → Bool
  | .restore _ _ n => n != 0
  | .markBad _ => true
  | .close _ => false

theorem Restoring.rest (h : Restoring w p b binaries 0) : Rest w :=
  .after p b ⟨h.toMarked, fun c => (h.todo c (by cases c <;> decide)).1,
    fun c => (h.todo c (by cases c <;> decide)).2⟩

/-- A rollback that put nothing back, or marked its target, may be cut off. -/
theorem RollOk.rest {r : Roll} (h : RollOk w b r) (hx : r.exposed = false) :
    Rest w ∧ BadOk w := by
  cases r with
  | restore p left n =>
      have hn : n = 0 := by simpa [Roll.exposed] using hx
      subst hn
      have hleft : left = binaries :=
        h.suffix.eq_of_length ((Nat.zero_add _).symm.trans h.count)
      subst hleft
      refine ⟨Restoring.rest h, fun x hx => (h.bad x hx).resolve_right ?_⟩
      exact fun hc => lt_irrefl 0 hc.1
  | markBad p => cases hx
  | close p => exact ⟨.before p b h.1 h.2.1, h.2.2.1⟩

/-! ## A swap -/

/-- Each operation of a swap succeeds and takes it one further. -/
theorem SwapAt.step {staged : Staged} {d d' : BinDir} {j : ℕ} {op : FileOp}
    (h : SwapAt staged d d' j) (hlive : ∀ b, d.data? (.live b) ≠ none)
    (hop : (swap staged)[j]? = some op) :
    ∃ e, op.run d' = some e ∧ SwapAt staged d e (j + 1) := by
  have happ : swap staged = swapOps staged .wheeld ++ swapOps staged .wheel := by
    simp [swap, binaries]
  rw [happ] at hop
  cases h with
  | first hs hj =>
      rw [List.getElem?_append_left hj] at hop
      obtain ⟨e, he, hs'⟩ := hs.step (hlive .wheeld) hop
      refine ⟨e, he, ?_⟩
      rcases Nat.lt_or_ge (j + 1) 5 with hj' | hj'
      · exact .first hs' hj'
      · obtain rfl : j = 4 := by omega
        exact .second hs' (Swapping.zero staged .wheel e) (Nat.zero_le 5)
  | @second m j hs hs' hj =>
      rw [List.getElem?_append_right (Nat.le_add_right 5 j)] at hop
      have hop : (swapOps staged .wheel)[j]? = some op := by
        rwa [show 5 + j - (swapOps staged .wheeld).length = j from Nat.add_sub_cancel_left 5 j] at hop
      have hm : m.data? (.live .wheel) ≠ none := by
        rw [hs.others (.live .wheel) nofun]
        exact hlive .wheel
      obtain ⟨e, he, hs''⟩ := hs'.step hm hop
      have hlt : j < (swapOps staged .wheel).length := (List.getElem?_eq_some_iff.mp hop).1
      exact ⟨e, he, .second hs hs'' hlt⟩

/-- What is kept in a swap was kept before it, or was live. -/
theorem SwapAt.prev {staged : Staged} {d d' : BinDir} {j : ℕ} {b : Binary} {e : Exe}
    (h : SwapAt staged d d' j) (he : d'.data? (.prev b) = some e) :
    d.data? (.prev b) = some e ∨ d.data? (.live b) = some e := by
  have hone : ∀ {c : Binary} {m m' : BinDir} {i : ℕ}, Swapping staged c m m' i →
      m'.data? (.prev b) = some e → m.data? (.prev b) = some e ∨ m.data? (.live b) = some e := by
    intro c m m' i hs hm
    rcases eq_or_ne b c with rfl | hne
    · rw [hs.prev] at hm
      split at hm
      · exact .inl hm
      · split at hm
        · cases hm
        · exact .inr hm
    · rw [hs.others (.prev b) hne] at hm
      exact .inl hm
  cases h with
  | first hs _ => exact hone hs he
  | @second m j hs hs' hj =>
      rcases hone hs' he with hm | hm
      · exact hone hs hm
      · cases b with
        | wheel =>
            rw [hs.others (.live .wheel) nofun] at hm
            exact .inr hm
        | wheeld =>
            rw [← hs'.others (.live .wheeld) nofun] at hm
            have hp := hs.prev
            rw [← hs'.others (.prev .wheeld) nofun, he] at hp
            exact .inr hp.symm

/-- The first binary was renamed over its live file and the second one was not. -/
def HalfSwapped (ops : List FileOp) : Prop :=
  .rename (.fresh .wheeld) (.live .wheeld) ∉ ops ∧ .rename (.fresh .wheel) (.live .wheel) ∈ ops

instance (ops : List FileOp) : Decidable (HalfSwapped ops) := by
  unfold HalfSwapped
  infer_instance

/-- Between the two renames, the swap is half done. -/
theorem halfSwapped_drop (staged : Staged) {j : ℕ} (hj : j < 5) :
    HalfSwapped ((swap staged).drop (5 + j)) := by
  have hdrop : (swap staged).drop (5 + j) = (swapOps staged .wheel).drop j := by
    rw [← List.drop_drop]
    rfl
  rw [hdrop]
  constructor
  · intro hmem
    have hmem := List.mem_of_mem_drop hmem
    simp [swapOps] at hmem
  · match j, hj with
    | 0, _ | 1, _ | 2, _ | 3, _ | 4, _ => simp [swapOps]

variable {ready : Ready} {ops : List FileOp} {d : BinDir} {j : ℕ}

theorem Installing.congr (h : Installing w ready ops p b d j)
    (hs : w'.state.pending = w.state.pending) (hd : w'.dir = w.dir) (hp : w'.proved = w.proved) :
    Installing w' ready ops p b d j where
  toMarked := h.toMarked.congr hs hp
  staged := h.staged
  live := h.live
  keptBefore := hp ▸ h.keptBefore
  at_ := hd ▸ h.at_
  ops := h.ops

/-- A swap that is not half done is done, or has not begun. -/
theorem Installing.rest (h : Installing w ready ops p b d j) (hx : ¬ HalfSwapped ops) :
    Rest w := by
  rw [h.ops] at hx
  cases h.at_ with
  | first hs hj =>
      refine .before p b h.toMarked fun c => ?_
      rw [← h.live c]
      cases c with
      | wheeld => rw [hs.live, if_pos hj]
      | wheel => rw [hs.others (.live .wheel) nofun]
  | @second m j hs hs' hj =>
      rcases Nat.lt_or_ge j 5 with hlt | hge
      · exact absurd (halfSwapped_drop ready.staged hlt) hx
      obtain rfl : j = 5 := by omega
      refine .after p b ⟨h.toMarked, fun c => ?_, fun c => ?_⟩
      · cases c with
        | wheeld =>
            rw [hs'.others (.live .wheeld) nofun, hs.live]
            exact congrArg some (h.staged .wheeld)
        | wheel =>
            rw [hs'.live]
            exact congrArg some (h.staged .wheel)
      · rw [← h.live c]
        cases c with
        | wheeld =>
            rw [hs'.others (.prev .wheeld) nofun, hs.prev]
            rfl
        | wheel =>
            rw [hs'.prev, ← hs.others (.live .wheel) nofun]
            rfl

/-- An installation goes on until the build is installed. -/
theorem Installing.step {op : FileOp} (h : Installing w ready (op :: ops) p b d j) :
    ∃ e, op.run w.dir = some e ∧ Installing { w with dir := e } ready ops p b d (j + 1) := by
  have hj : j < (swap ready.staged).length := by
    by_contra hge
    have hnil := List.drop_eq_nil_of_le (Nat.le_of_not_lt hge)
    rw [← h.ops] at hnil
    cases hnil
  have hcons := h.ops
  rw [List.drop_eq_getElem_cons hj] at hcons
  obtain ⟨hop, hops⟩ := List.cons.inj hcons
  have hget : (swap ready.staged)[j]? = some op := by rw [List.getElem?_eq_getElem hj, hop]
  obtain ⟨e, he, hs⟩ := h.at_.step h.live.ne_none hget
  exact ⟨e, he, h.toMarked.congr rfl rfl, h.staged, h.live, h.keptBefore, hs, hops⟩

/-- What an installation keeps had proved healthy. -/
theorem Installing.keptProved (h : Installing w ready ops p b d j) : KeptProved w := by
  intro c e he
  rcases h.at_.prev he with hp | hl
  · exact h.keptBefore c e hp
  · have hb := h.live c
    rw [hl, Option.map_some, Option.some.injEq] at hb
    exact hb ▸ h.proved

end Update

end Wheel
