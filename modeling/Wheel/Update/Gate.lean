import Wheel.Update.Ci
import Wheel.Update.Components
import Wheel.Update.Install
import Wheel.Data.Run

/-!
# The gate of an update

A check fetches, compares, asks the continuous integration and publishes what it
found as the updater's status. Checks run in the background, as many as were
poked, and inside the updater's tick, which decides whether an update is due,
checks once more, builds, smokes, drains the board and hands the build over. The
steps of all of them interleave; the flag `checking` keeps two checks from looking
at once, and a caller that finds it set goes by the last status. `gate_sound` says
that whatever they find, and however their steps fall, no build is handed over but
one that a check found fit for exactly this target.
-/

namespace Wheel

namespace Update

inductive Mode where
  | off
  | prompt
  | auto
  deriving DecidableEq

/-- How the target relates to what runs. -/
inductive Relation where
  | current
  | fastForward
  | diverged
  deriving DecidableEq

/-- What the driver finds between the running build and a target. -/
structure Inspection where
  relation : Relation
  clean : Bool
  commits : ℕ
  paths : List String

/-- A target, and what the driver found about it. -/
structure Found where
  target : String
  inspection : Inspection

inductive Status where
  /-- No check has finished since boot. -/
  | unknown
  | upToDate
  | candidate (c : Candidate)
  deriving DecidableEq

/-- What is fixed while a daemon runs. -/
structure Updater where
  mode : Mode
  fetchEvery : ℕ
  cooldown : ℕ
  running : String
  ci : GithubChecks

/-- What a check found about a target. -/
structure Look where
  found : Found
  bad : Bool
  verdict : Verdict

/-- What the updater's callers share. -/
structure Shared where
  state : State
  status : Status
  lastFetch : Option ℕ
  checking : Bool
  applying : Bool
  /-- What the checks found, as far as they asked the continuous integration. -/
  looks : List Look
  /-- The builds the driver made, with the target each was made from. -/
  builds : List (String × Staged)
  /-- The builds that passed the smoke test, with the target each passed for. -/
  smokes : List (String × Staged)

/-- The candidate a found target makes. -/
def Found.candidate (f : Found) (block : Option BlockReason) : Candidate where
  target := f.target
  components := Component.named (Component.of f.inspection.paths) Component.wheeldRuns
  commits := f.inspection.commits
  touchesCi := (Component.of f.inspection.paths).contains .ci
  block := block

/-- What keeps a target whose checks have this verdict from applying. -/
def Verdict.block : Verdict → Option BlockReason
  | .green => none
  | .pending => some .ciPending
  | .red _ => some .ciFailed
  | .unverifiable _ => some .ciUnverifiable

/-- Where a check stands. -/
inductive Check where
  /-- Before it takes the flag. -/
  | enter
  /-- The driver fetches and inspects. -/
  | driver
  | judge (f : Found)
  /-- It asks the continuous integration; whether the target was marked bad. -/
  | ci (f : Found) (bad : Bool)
  /-- The look failed. -/
  | failed
  | publish (s : Status)
  | leave (s : Status)
  | done (s : Status)

/-- What a step that waits is answered. -/
inductive Answer where
  | none
  /-- When the operator asked for an update, if there is such a request. -/
  | operator (at' : Option ℕ)
  /-- The target and its inspection, each if it could be read. -/
  | fetched (target : Option (String × Option Inspection))
  | ci (reply : Reply)
  /-- The agents that are busy, and whether the drain window ran out. -/
  | busy (names : List String) (late : Bool)
  | built (staged : Option Staged)
  | smoked (ok : Bool)
  | told (ok : Bool)

/-- What `look` makes of a found target before it asks the continuous integration. -/
def judge (s : State) (f : Found) : Check :=
  let changed := Component.of f.inspection.paths
  if f.inspection.relation = .current ∨ s.isBad f.target = true then .publish .upToDate
  else if f.inspection.relation = .fastForward ∧
      Component.pertinent changed Component.wheeldRuns = false then .publish .upToDate
  else if f.inspection.relation ≠ .fastForward then
    .publish (.candidate (f.candidate (some .notFastForward)))
  else if f.inspection.clean = false then
    .publish (.candidate (f.candidate (some .dirtyCheckout)))
  else .ci f (s.isBad f.target)

/-- What `look` makes of the driver's answer. -/
def afterFetch (u : Updater) : Option (String × Option Inspection) → Check
  | none => .failed
  | some (target, inspection) =>
      if target = u.running then .publish .upToDate
      else inspection.elim .failed fun i => .judge ⟨target, i⟩

/-- One step of `check`. -/
def Check.step (u : Updater) (s : Shared) (now : ℕ) (a : Answer) : Check → Shared × Check
  | .enter =>
      if s.checking then (s, .done s.status)
      else ({ s with checking := true, lastFetch := some now }, .driver)
  | .driver =>
      match a with
      | .fetched r => (s, afterFetch u r)
      | _ => (s, .driver)
  | .judge f => (s, Update.judge s.state f)
  | .ci f bad =>
      match a with
      | .ci reply =>
          let v := u.ci.verdict f.target reply
          ({ s with looks := s.looks ++ [⟨f, bad, v⟩] },
            .publish (.candidate (f.candidate v.block)))
      | _ => (s, .ci f bad)
  | .failed => (s, .publish s.status)
  | .publish status => ({ s with status := status }, .leave status)
  | .leave status => ({ s with checking := false }, .done status)
  | .done status => (s, .done status)

/-- At most one fetch in `fetchEvery`, and none while a check runs. -/
def fetchDue (u : Updater) (s : Shared) (now : ℕ) : Shared × Bool :=
  if s.checking then (s, false)
  else if s.lastFetch.any (fun t => now - t < u.fetchEvery) then (s, false)
  else ({ s with lastFetch := some now }, true)

/-- The operator's request outranks an agent's, and resets the breaker. -/
def takeOperatorRequest (s : State) (at' : ℕ) : State :=
  { s with breakerReset := some at', request := some ⟨.operator, at'⟩ }

/-- What keeps a requester other than the operator from recording a request. -/
def refusesRequest (s : State) (now : ℕ) : Status → Bool
  | .upToDate => true
  | .unknown => s.suspended now
  | .candidate c =>
      s.suspended now || c.block == some BlockReason.notFastForward ||
        c.block == some BlockReason.dirtyCheckout || c.touchesCi

/-- Record a request, by the status its caller read. -/
def State.ask (s : State) (requester : Requester) (status : Status) (now : ℕ) : State :=
  if status = .upToDate then s
  else if requester ≠ Requester.operator ∧ refusesRequest s now status = true then s
  else
    match s.request with
    | none => { s with request := some ⟨requester, now⟩ }
    | some existing =>
        if existing.requester = Requester.operator ∨ requester ≠ Requester.operator then s
        else { s with request := some ⟨requester, now⟩ }

/-- Where a tick stands. -/
inductive Tick where
  | idle
  | operator
  | fetch
  | check (c : Check)
  | status
  /-- The status was not a candidate, and is read once more. -/
  | forget
  | due (c : Candidate)
  | busy (requester : Requester)
  | claim (requester : Requester)
  | attempt (requester : Requester)
  | recheck (requester : Requester) (c : Check)
  | gate (requester : Requester) (s : Status)
  | build (requester : Requester) (c : Candidate)
  | smoke (requester : Requester) (c : Candidate) (staged : Staged)
  | drain (requester : Requester) (c : Candidate) (staged : Staged)
  | finish (requester : Requester) (c : Candidate) (outcome : Outcome) (busy : List String)
  | release
  | ready (r : Ready)

/-- Who asks for an update, if anyone does. -/
def requesterOf (u : Updater) (s : State) : Option Requester :=
  match s.request with
  | some r => some r.requester
  | none => if u.mode = Mode.auto then some Requester.auto else none

/-- What keeps an update that is not for the operator from being due. -/
def holdsBack (u : Updater) (s : State) (now : ℕ) (c : Candidate) : Bool :=
  s.suspended now || s.lastAttempt.any (fun t => now - t < u.cooldown) || c.touchesCi

/-- Who an apply would be for, by what `due` reads of a candidate. -/
def dueFor (u : Updater) (s : State) (now : ℕ) (c : Candidate) : Option Requester :=
  match requesterOf u s with
  | none => none
  | some r =>
      if c.block ≠ none then none
      else if r ≠ Requester.operator ∧ holdsBack u s now c = true then none
      else some r

/-- Why an attempt is refused after its own check. -/
def refusal (c : Candidate) (requester : Requester) : Option BlockReason :=
  c.block.or
    (if c.touchesCi = true ∧ requester ≠ Requester.operator then some .ciDefinitionChanged
    else none)

/-- Record an attempt that ended before a restart. -/
def State.finish (s : State) (row : Row) : State :=
  let s := s.record row
  if row.outcome = .drainTimedOut ∨ row.outcome = .refused .ciPending then s
  else { s with request := none }

/-- One step of a tick. -/
def Tick.step (u : Updater) (s : Shared) (now : ℕ) (a : Answer) : Tick → Shared × Tick
  | .idle => (s, .operator)
  | .operator =>
      match a with
      | .operator at' =>
          ({ s with state := at'.elim s.state (takeOperatorRequest s.state) }, .fetch)
      | _ => (s, .operator)
  | .fetch =>
      let r := fetchDue u s now
      (r.1, if r.2 then .check .enter else .status)
  | .check (.done _) => (s, .status)
  | .check c =>
      let r := c.step u s now a
      (r.1, .check r.2)
  | .status =>
      match s.status with
      | .candidate c => (s, .due c)
      | _ => (s, .forget)
  | .forget =>
      (if s.status = .upToDate then { s with state := { s.state with request := none } } else s,
        .idle)
  | .due c =>
      match dueFor u s.state now c with
      | none => (s, .idle)
      | some r => (s, if r = Requester.auto then .busy r else .claim r)
  | .busy r =>
      match a with
      | .busy names _ => (s, if names.isEmpty then .claim r else .idle)
      | _ => (s, .busy r)
  | .claim r => if s.applying then (s, .idle) else ({ s with applying := true }, .attempt r)
  | .attempt r =>
      ({ s with state := { s.state with lastAttempt := some now } }, .recheck r .enter)
  | .recheck r (.done last) => (s, .gate r last)
  | .recheck r c =>
      let x := c.step u s now a
      (x.1, .recheck r x.2)
  | .gate r last =>
      match last with
      | .candidate c =>
          match refusal c r with
          | some reason => (s, .finish r c (.refused reason) [])
          | none => (s, .build r c)
      | _ => ({ s with state := { s.state with request := none } }, .release)
  | .build r c =>
      match a with
      | .built (some staged) =>
          ({ s with builds := s.builds ++ [(c.target, staged)] }, .smoke r c staged)
      | .built none => (s, .finish r c .buildFailed [])
      | _ => (s, .build r c)
  | .smoke r c staged =>
      match a with
      | .smoked true => ({ s with smokes := s.smokes ++ [(c.target, staged)] }, .drain r c staged)
      | .smoked false => (s, .finish r c .smokeFailed [])
      | _ => (s, .smoke r c staged)
  | .drain r c staged =>
      match a with
      | .busy names late =>
          (s, if names.isEmpty then .ready ⟨r, c, staged⟩
            else if late then .finish r c .drainTimedOut names else .drain r c staged)
      | _ => (s, .drain r c staged)
  | .finish r c outcome names =>
      match a with
      | .told told =>
          let row : Row := ⟨now, u.running, c.target, r, outcome, c.components, names, told⟩
          ({ s with state := s.state.finish row }, .release)
      | _ => (s, .finish r c outcome names)
  | .release => ({ s with applying := false }, .idle)
  | .ready r => (s, .ready r)

/-- The updater of a daemon and everyone in the middle of a call of it. -/
structure Host where
  shared : Shared
  /-- The checks in the background. -/
  checks : List Check
  /-- The requests that have read the status and recorded nothing yet. -/
  asks : List (Requester × Status)
  tick : Tick

inductive Call where
  /-- A call of the command line asks for the notice. -/
  | poke (now : ℕ)
  /-- The next step of a background check. -/
  | check (i : ℕ) (now : ℕ) (a : Answer)
  /-- An agent, or the operator, requests an update. -/
  | ask (requester : Requester)
  | record (i : ℕ) (now : ℕ)
  /-- The next step of the tick. -/
  | tick (now : ℕ) (a : Answer)

def Host.step (u : Updater) (h : Host) : Call → Host
  | .poke now =>
      let r := fetchDue u h.shared now
      { h with shared := r.1, checks := if r.2 then h.checks ++ [.enter] else h.checks }
  | .check i now a =>
      match h.checks[i]? with
      | some c =>
          let r := c.step u h.shared now a
          { h with shared := r.1, checks := h.checks.set i r.2 }
      | none => h
  | .ask requester => { h with asks := h.asks ++ [(requester, h.shared.status)] }
  | .record i now =>
      match h.asks[i]? with
      | some (requester, status) =>
          { h with
            shared := { h.shared with state := h.shared.state.ask requester status now }
            asks := h.asks.eraseIdx i }
      | none => h
  | .tick now a =>
      let r := h.tick.step u h.shared now a
      { h with shared := r.1, tick := r.2 }

/-- The updater of a daemon that begins to serve. -/
def Host.start (s : State) : Host where
  shared := ⟨s, .unknown, none, false, false, [], [], []⟩
  checks := []
  asks := []
  tick := .idle

/-! ## What a check vouches for -/

/-- The look found its target fit to be applied. -/
structure Look.Fit (l : Look) : Prop where
  fastForward : l.found.inspection.relation = .fastForward
  clean : l.found.inspection.clean = true
  bad : l.bad = false
  green : l.verdict = .green

/-- A candidate that nothing blocks was found fit by a look at its target, and
touches the checks as that look says. -/
def Candidate.Backed (looks : List Look) (c : Candidate) : Prop :=
  c.block = none → ∃ l ∈ looks, l.Fit ∧ l.found.target = c.target ∧
    c.touchesCi = (Component.of l.found.inspection.paths).contains .ci

def Status.Backed (looks : List Look) : Status → Prop
  | .candidate c => c.Backed looks
  | _ => True

/-- What a check carries is backed by a look. -/
def Check.Backed (looks : List Look) : Check → Prop
  | .ci f bad =>
      f.inspection.relation = .fastForward ∧ f.inspection.clean = true ∧ bad = false
  | .publish s | .leave s | .done s => s.Backed looks
  | _ => True

variable {looks looks' : List Look} {u : Updater} {s : Shared} {now : ℕ} {a : Answer}

theorem Candidate.Backed.mono {c : Candidate} (h : c.Backed looks) (hl : looks ⊆ looks') :
    c.Backed looks' := by
  intro hb
  obtain ⟨l, hmem, hfit⟩ := h hb
  exact ⟨l, hl hmem, hfit⟩

theorem Status.Backed.mono {x : Status} (h : x.Backed looks) (hl : looks ⊆ looks') :
    x.Backed looks' := by
  cases x with
  | unknown => trivial
  | upToDate => trivial
  | candidate c => exact Candidate.Backed.mono h hl

theorem Check.Backed.mono {c : Check} (h : c.Backed looks) (hl : looks ⊆ looks') :
    c.Backed looks' := by
  cases c with
  | enter | driver | judge | failed => trivial
  | ci f bad => exact h
  | publish x => exact Status.Backed.mono h hl
  | leave x => exact Status.Backed.mono h hl
  | done x => exact Status.Backed.mono h hl

/-- A candidate that is blocked needs no look. -/
theorem Candidate.backed_of_block {c : Candidate} (h : c.block ≠ none) : c.Backed looks :=
  fun hb => absurd hb h

theorem judge_backed (x : State) (f : Found) : (judge x f).Backed looks := by
  rw [judge]
  split
  · trivial
  · rename_i hbad
    split
    · trivial
    · split
      · exact Candidate.backed_of_block (Option.some_ne_none _)
      · rename_i hff
        split
        · exact Candidate.backed_of_block (Option.some_ne_none _)
        · rename_i hclean
          rw [not_or, Bool.not_eq_true] at hbad
          exact ⟨not_not.mp hff, Bool.of_not_eq_false hclean, hbad.2⟩

theorem afterFetch_backed (u : Updater) (r : Option (String × Option Inspection)) :
    (afterFetch u r).Backed looks := by
  cases r with
  | none => trivial
  | some x =>
      rw [afterFetch]
      split
      · trivial
      · cases x.2 with
        | none => trivial
        | some i => trivial

/-- A step of a check keeps what it carries and the status backed, and forgets no
look. -/
theorem Check.backed_step (now : ℕ) {c : Check} (hs : s.status.Backed s.looks)
    (hc : c.Backed s.looks) :
    s.looks ⊆ (c.step u s now a).1.looks ∧
      (c.step u s now a).1.status.Backed (c.step u s now a).1.looks ∧
      (c.step u s now a).2.Backed (c.step u s now a).1.looks := by
  have hsub : s.looks ⊆ s.looks := List.Subset.refl _
  cases c with
  | enter =>
      rw [step]
      split
      · exact ⟨hsub, hs, hs⟩
      · exact ⟨hsub, hs, trivial⟩
  | driver =>
      cases a with
      | fetched r => exact ⟨hsub, hs, afterFetch_backed u r⟩
      | none | operator | ci | busy | built | smoked | told => exact ⟨hsub, hs, trivial⟩
  | judge f => exact ⟨hsub, hs, judge_backed _ _⟩
  | ci f bad =>
      cases a with
      | ci reply =>
          have happ : s.looks ⊆ s.looks ++ [⟨f, bad, u.ci.verdict f.target reply⟩] :=
            List.subset_append_left _ _
          refine ⟨happ, hs.mono happ, fun hblock => ?_⟩
          obtain ⟨hff, hclean, hbad⟩ := hc
          have hgreen : u.ci.verdict f.target reply = .green := by
            cases hv : u.ci.verdict f.target reply with
            | green => rfl
            | pending | red | unverifiable =>
                have hblock : (u.ci.verdict f.target reply).block = none := hblock
                rw [hv] at hblock
                cases hblock
          refine ⟨⟨f, bad, u.ci.verdict f.target reply⟩, ?_, ⟨hff, hclean, hbad, hgreen⟩, rfl, rfl⟩
          exact List.mem_append_right _ (List.mem_singleton_self _)
      | none | operator | fetched | busy | built | smoked | told => exact ⟨hsub, hs, hc⟩
  | failed => exact ⟨hsub, hs, hs⟩
  | publish x => exact ⟨hsub, hc, hc⟩
  | leave x => exact ⟨hsub, hs, hc⟩
  | done x => exact ⟨hsub, hs, hc⟩

/-! ## What a tick vouches for -/

/-- Nothing blocks the candidate for this requester. -/
structure Cleared (s : Shared) (requester : Requester) (c : Candidate) : Prop where
  backed : c.Backed s.looks
  block : c.block = none
  requester : c.touchesCi = true → requester = .operator

/-- What a build has to have been through before it is handed over. -/
structure Verified (s : Shared) (r : Ready) : Prop where
  /-- A check found exactly its target fit; and where the range touches the checks,
  the operator asked for it. -/
  look : ∃ l ∈ s.looks, l.Fit ∧ l.found.target = r.candidate.target ∧
    (.ci ∈ Component.of l.found.inspection.paths → r.requester = .operator)
  built : (r.candidate.target, r.staged) ∈ s.builds
  smoked : (r.candidate.target, r.staged) ∈ s.smokes

/-- What holds at each stage of a tick. -/
def Tick.Ok (s : Shared) : Tick → Prop
  | .check c | .recheck _ c => c.Backed s.looks
  | .due c => c.Backed s.looks
  | .gate _ last => last.Backed s.looks
  | .build r c => Cleared s r c
  | .smoke r c staged => Cleared s r c ∧ (c.target, staged) ∈ s.builds
  | .drain r c staged =>
      Cleared s r c ∧ (c.target, staged) ∈ s.builds ∧ (c.target, staged) ∈ s.smokes
  | .ready r => Verified s r
  | _ => True

theorem Cleared.mono {s' : Shared} {r : Requester} {c : Candidate} (h : Cleared s r c)
    (hl : s.looks ⊆ s'.looks) : Cleared s' r c where
  backed := h.backed.mono hl
  block := h.block
  requester := h.requester

/-- What a tick vouches for survives the steps of the others. -/
theorem Tick.Ok.mono {s' : Shared} {t : Tick} (h : t.Ok s) (hl : s.looks ⊆ s'.looks)
    (hb : s'.builds = s.builds) (hm : s'.smokes = s.smokes) : t.Ok s' := by
  cases t with
  | check c => exact Check.Backed.mono h hl
  | recheck r c => exact Check.Backed.mono h hl
  | due c => exact Candidate.Backed.mono h hl
  | gate r x => exact Status.Backed.mono h hl
  | build r c => exact Cleared.mono h hl
  | smoke r c staged => exact ⟨h.1.mono hl, hb ▸ h.2⟩
  | drain r c staged => exact ⟨h.1.mono hl, hb ▸ h.2.1, hm ▸ h.2.2⟩
  | ready r =>
      obtain ⟨l, hmem, hfit⟩ := h.look
      exact ⟨⟨l, hl hmem, hfit⟩, hb ▸ h.built, hm ▸ h.smoked⟩
  | idle | operator | fetch | status | forget | busy | claim | attempt | finish | release =>
      trivial

/-- A build that passed every stage is verified. -/
theorem Cleared.verified {r : Requester} {c : Candidate} {staged : Staged} (h : Cleared s r c)
    (hb : (c.target, staged) ∈ s.builds) (hm : (c.target, staged) ∈ s.smokes) :
    Verified s ⟨r, c, staged⟩ := by
  obtain ⟨l, hmem, hfit, ht, htouch⟩ := h.backed h.block
  refine ⟨⟨l, hmem, hfit, ht, fun hci => h.requester ?_⟩, hb, hm⟩
  rw [htouch]
  exact List.contains_iff_mem.mpr hci

/-- An attempt goes on only with a candidate that is cleared for its requester. -/
theorem cleared_of_refusal {r : Requester} {c : Candidate} (hc : c.Backed s.looks)
    (h : refusal c r = none) : Cleared s r c := by
  rw [refusal, Option.or_eq_none_iff] at h
  refine ⟨hc, h.1, fun htouch => ?_⟩
  by_contra hne
  rw [if_pos ⟨htouch, hne⟩] at h
  cases h.2

/-- A check forgets no build. -/
theorem Check.builds_step (u : Updater) (s : Shared) (now : ℕ) (a : Answer) (c : Check) :
    (c.step u s now a).1.builds = s.builds ∧ (c.step u s now a).1.smokes = s.smokes := by
  cases c with
  | enter =>
      rw [step]
      split
      · exact ⟨rfl, rfl⟩
      · exact ⟨rfl, rfl⟩
  | driver => cases a <;> exact ⟨rfl, rfl⟩
  | ci f bad => cases a <;> exact ⟨rfl, rfl⟩
  | judge | failed | publish | leave | done => exact ⟨rfl, rfl⟩

/-- The updater's invariant: the status, every check and the tick are backed. -/
structure Host.Sound (h : Host) : Prop where
  status : h.shared.status.Backed h.shared.looks
  checks : ∀ c ∈ h.checks, c.Backed h.shared.looks
  tick : h.tick.Ok h.shared

theorem fetchDue_shared (u : Updater) (s : Shared) (now : ℕ) :
    ∃ f, (fetchDue u s now).1 = { s with lastFetch := f } := by
  rw [fetchDue]
  split
  · exact ⟨_, rfl⟩
  · split
    · exact ⟨_, rfl⟩
    · exact ⟨_, rfl⟩

/-- A step of a tick keeps what it vouches for and the status backed, and forgets
no look. -/
theorem Tick.ok_step (now : ℕ) {t : Tick} (hs : s.status.Backed s.looks) (ht : t.Ok s) :
    s.looks ⊆ (t.step u s now a).1.looks ∧
      (t.step u s now a).1.status.Backed (t.step u s now a).1.looks ∧
      (t.step u s now a).2.Ok (t.step u s now a).1 := by
  have hsub : s.looks ⊆ s.looks := List.Subset.refl _
  cases t with
  | idle => exact ⟨hsub, hs, trivial⟩
  | operator => cases a <;> exact ⟨hsub, hs, trivial⟩
  | fetch =>
      obtain ⟨f, hf⟩ := fetchDue_shared u s now
      simp only [step, hf]
      refine ⟨hsub, hs, ?_⟩
      split
      · trivial
      · trivial
  | check c =>
      cases c with
      | done x => exact ⟨hsub, hs, trivial⟩
      | enter | driver | judge | ci | failed | publish | leave => exact Check.backed_step now hs ht
  | status =>
      rw [step]
      split
      · rename_i c hc
        rw [hc] at hs
        exact ⟨hsub, hc ▸ hs, hs⟩
      · exact ⟨hsub, hs, trivial⟩
  | forget =>
      rw [step]
      split
      · exact ⟨hsub, hs, trivial⟩
      · exact ⟨hsub, hs, trivial⟩
  | due c =>
      rw [step]
      split
      · exact ⟨hsub, hs, trivial⟩
      · refine ⟨hsub, hs, ?_⟩
        split
        · trivial
        · trivial
  | busy r =>
      cases a with
      | busy names late =>
          rw [step]
          refine ⟨hsub, hs, ?_⟩
          split
          · trivial
          · trivial
      | none | operator | fetched | ci | built | smoked | told => exact ⟨hsub, hs, trivial⟩
  | claim r =>
      rw [step]
      split
      · exact ⟨hsub, hs, trivial⟩
      · exact ⟨hsub, hs, trivial⟩
  | attempt r => exact ⟨hsub, hs, trivial⟩
  | recheck r c =>
      cases c with
      | done x => exact ⟨hsub, hs, ht⟩
      | enter | driver | judge | ci | failed | publish | leave => exact Check.backed_step now hs ht
  | gate r x =>
      cases x with
      | unknown => exact ⟨hsub, hs, trivial⟩
      | upToDate => exact ⟨hsub, hs, trivial⟩
      | candidate c =>
          rw [step]
          split
          · exact ⟨hsub, hs, trivial⟩
          · rename_i hr
            exact ⟨hsub, hs, cleared_of_refusal ht hr⟩
  | build r c =>
      cases a with
      | built staged =>
          cases staged with
          | none => exact ⟨hsub, hs, trivial⟩
          | some staged =>
              refine ⟨hsub, hs, Cleared.mono ht hsub, ?_⟩
              exact List.mem_append_right _ (List.mem_singleton_self _)
      | none | operator | fetched | ci | busy | smoked | told => exact ⟨hsub, hs, ht⟩
  | smoke r c staged =>
      cases a with
      | smoked ok =>
          cases ok with
          | false => exact ⟨hsub, hs, trivial⟩
          | true =>
              refine ⟨hsub, hs, ht.1.mono hsub, ht.2, ?_⟩
              exact List.mem_append_right _ (List.mem_singleton_self _)
      | none | operator | fetched | ci | busy | built | told => exact ⟨hsub, hs, ht⟩
  | drain r c staged =>
      cases a with
      | busy names late =>
          rw [step]
          refine ⟨hsub, hs, ?_⟩
          split
          · exact ht.1.verified ht.2.1 ht.2.2
          · split
            · trivial
            · exact ht
      | none | operator | fetched | ci | built | smoked | told => exact ⟨hsub, hs, ht⟩
  | finish r c o names => cases a <;> exact ⟨hsub, hs, trivial⟩
  | release => exact ⟨hsub, hs, trivial⟩
  | ready r => exact ⟨hsub, hs, ht⟩

/-- Every call of the updater keeps it sound. -/
theorem Host.sound_step {h : Host} (hs : h.Sound) (c : Call) : (h.step u c).Sound := by
  cases c with
  | poke now =>
      obtain ⟨f, hf⟩ := fetchDue_shared u h.shared now
      rw [step]
      refine ⟨?_, ?_, ?_⟩
      · simp only [hf]
        exact hs.status
      · intro c hc
        simp only [hf] at hc ⊢
        split at hc
        · rcases List.mem_append.mp hc with hc | hc
          · exact hs.checks c hc
          · rw [List.mem_singleton.mp hc]
            trivial
        · exact hs.checks c hc
      · simp only [hf]
        exact hs.tick.mono (List.Subset.refl _) rfl rfl
  | check i now a =>
      rw [step]
      split
      · rename_i c hc
        have hmem := List.mem_of_getElem? hc
        obtain ⟨hsub, hstatus, hcheck⟩ := Check.backed_step (u := u) (a := a) now
          hs.status (hs.checks c hmem)
        obtain ⟨hb, hm⟩ := Check.builds_step u h.shared now a c
        refine ⟨hstatus, fun d hd => ?_, hs.tick.mono hsub hb hm⟩
        rcases List.mem_or_eq_of_mem_set hd with hd | rfl
        · exact (hs.checks d hd).mono hsub
        · exact hcheck
      · exact hs
  | ask r => exact ⟨hs.status, hs.checks, hs.tick⟩
  | record i now =>
      rw [step]
      split
      · exact ⟨hs.status, hs.checks, hs.tick.mono (List.Subset.refl _) rfl rfl⟩
      · exact hs
  | tick now a =>
      obtain ⟨hsub, hstatus, htick⟩ := Tick.ok_step (u := u) (a := a) now hs.status hs.tick
      exact ⟨hstatus, fun d hd => (hs.checks d hd).mono hsub, htick⟩

theorem Host.sound_start (x : State) : (Host.start x).Sound where
  status := trivial
  checks := nofun
  tick := trivial

/-- Whatever the driver, the continuous integration, the clock and the requesters
answer, and however the calls interleave: a build the tick hands over was found fit
by a check of exactly its target, was built from it and passed the smoke test for
it, and is for the operator when its range touches the checks. -/
theorem gate_sound (u : Updater) (x : State) (calls : List Call) (r : Ready)
    (h : (Run.run (Host.step u) (Host.start x) calls).tick = .ready r) :
    Verified (Run.run (Host.step u) (Host.start x) calls).shared r := by
  have hsound : (Run.run (Host.step u) (Host.start x) calls).Sound :=
    Run.invariant_run (I := Host.Sound) (fun _ c hs => Host.sound_step hs c)
      (Host.sound_start x) calls
  have htick := hsound.tick
  rw [h] at htick
  exact htick

/-- The updater of build "aaaaaaa", whose repository requires one check. -/
def updaterOfA : Updater where
  mode := .prompt
  fetchEvery := 600
  cooldown := 600
  running := "aaaaaaa"
  ci := ⟨some "owner/wheel", some "token", ["make check"]⟩

/-- A background check finds "bbbbbbb" fit and is about to clear its flag; a tick
for the operator goes by its status and hands the build over. -/
def handOver : List Call :=
  [.poke 0, .check 0 0 .none,
    .check 0 1 (.fetched (some ("bbbbbbb", some ⟨.fastForward, true, 1, ["Cargo.lock"]⟩))),
    .check 0 1 .none,
    .check 0 2 (.ci (.page 1 [⟨"make check", "completed", some "success", some actionsApp⟩])),
    .check 0 2 .none, .tick 3 .none, .tick 3 (.operator (some 3)), .tick 3 .none, .tick 3 .none,
    .tick 3 .none, .tick 3 .none, .tick 3 .none, .tick 3 .none, .tick 3 .none, .tick 3 .none,
    .tick 4 (.built (some (readyFor "bbbbbbb").staged)), .tick 5 (.smoked true),
    .tick 6 (.busy [] false)]

theorem gate_sound_handOver :
    Verified (Run.run (Host.step updaterOfA) (Host.start {}) handOver).shared
      ⟨.operator, ⟨"bbbbbbb", [.core], 1, false, none⟩, (readyFor "bbbbbbb").staged⟩ :=
  gate_sound updaterOfA {} handOver _ (by rfl)

end Update

end Wheel
