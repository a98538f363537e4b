import Wheel.Supervisor.Steps

/-!
# A turn is bound to a session

The engine accepts an event of a child only with the session it knows, and it
learns the session from the child's own `init` lines: every one of them, also
the second. `session_bound` says that in every run in which no `init` renames
the session of a child, and in which no line of a child that lost its slot finds
the slot unguarded, an event with another session than the child's first ends no
turn and records no limit. In `renamed_session_ends_turn` a child renames its
session first.
-/

namespace Wheel

open Concurrency

/-- The session an `init` names. -/
def HarnessEvent.initId : HarnessEvent → Option String
  | .init sessionId => some sessionId
  | _ => none

/-- The session the first `init` of a child named. -/
def firstInit (evs : List HarnessEvent) : Option String := evs.findSome? HarnessEvent.initId

theorem firstInit_concat (evs : List HarnessEvent) (ev : HarnessEvent) :
    firstInit (evs ++ [ev]) = (firstInit evs).or ev.initId := by
  unfold firstInit
  rw [List.findSome?_append, List.findSome?_cons, List.findSome?_nil]
  cases ev.initId with
  | none => rfl
  | some sessionId => rfl

namespace Supervisor

/-- The slot refuses an event of the reader's child that carries `sessionId`: the
child is still there, or the one that replaced it has another session. -/
def Guards (s : Engine) (rd : Reader) (sessionId : Option String) : Prop :=
  ∀ r, s.slots rd.agent = some r →
    r.runId = rd.run ∨ r.sessionId ≠ none ∧ sessionId ≠ r.sessionId

instance (s : Engine) (rd : Reader) (sessionId : Option String) :
    Decidable (Guards s rd sessionId) := by
  unfold Guards
  infer_instance

/-- An event carries another session than the first one of its child. -/
def Foreign (s : Engine) (rd : Reader) (sessionId : Option String) : Prop :=
  firstInit (s.handled rd.run) ≠ none ∧ sessionId ≠ firstInit (s.handled rd.run)

instance (s : Engine) (rd : Reader) (sessionId : Option String) :
    Decidable (Foreign s rd sessionId) := by
  unfold Foreign
  infer_instance

/-- An `init` names the session the child in the slot named first, and a foreign
event finds the slot guarded. A limit needs somebody in the slot for that. -/
def SessionsHold (p : State) (c : Section Instr Phase Uuid) (_ : Oracle) : Prop :=
  match c with
  | .first (.event rd (.init sessionId)) =>
      ∀ r, p.shared.slots rd.agent = some r →
        firstInit (p.shared.handled r.runId) ≠ none →
          some sessionId = firstInit (p.shared.handled r.runId)
  | .first (.event rd (.result sessionId _ _ _ _)) =>
      Foreign p.shared rd sessionId → Guards p.shared rd sessionId
  | .first (.event rd (.rateLimit sessionId _ _ _ _)) =>
      Foreign p.shared rd sessionId →
        (p.shared.slots rd.agent).isSome = true ∧ Guards p.shared rd sessionId
  | _ => True

instance (p : State) (c : Section Instr Phase Uuid) (o : Oracle) :
    Decidable (SessionsHold p c o) := by
  apply Section.casesOn (motive := fun c => Decidable (SessionsHold p c o)) c
  · intro i
    apply Instr.casesOn (motive := fun i => Decidable (SessionsHold p (.first i) o)) i
    case event =>
      intro rd e
      apply HarnessEvent.casesOn (motive := fun e =>
        Decidable (SessionsHold p (.first (.event rd e)) o)) e <;>
        intros <;> dsimp only [SessionsHold] <;> infer_instance
    all_goals
      intros
      exact instDecidableTrue
  · exact fun _ _ => instDecidableTrue

/-- The section changed no slot, no message and no stored state, and what it
leaves to be done settles no message and adds no spend. -/
structure EndsNoTurn (s : Engine) (r : Engine × Leaves) : Prop where
  slots : r.1.slots = s.slots
  messages : r.1.messages = s.messages
  states : r.1.states = s.states
  hold : r.2.hold = none
  adds : ∀ i, r.2.Adds i → ∃ t, i = .recordSpend t ∧ t.finished = none ∧ t.spend = none

/-- A foreign result or rate limit ends no turn and records no limit. -/
def IgnoresForeign (p : State) (c : Section Instr Phase Uuid) (o : Oracle) : Prop :=
  match c with
  | .first (.event rd (.result sessionId _ _ _ _))
  | .first (.event rd (.rateLimit sessionId _ _ _ _)) =>
      Foreign p.shared rd sessionId → EndsNoTurn p.shared (machine.act c p.shared o)
  | _ => True

/-! ## The invariant -/

/-- The run whose output the section reads. -/
def Instr.reader? : Instr → Option Reader
  | .readLine rd => some rd
  | .event rd _ => some rd
  | _ => none

/-- Every child in a slot has the session it named first, if it named one; no two
slots hold the same run, and no run to come was read from. -/
structure SessionsSound (s : Engine) : Prop where
  run : ∀ b r, s.slots b = some r → r.runId < s.nextRun
  session : ∀ b r, s.slots b = some r → ∀ sessionId,
    firstInit (s.handled r.runId) = some sessionId → r.sessionId = some sessionId
  apart : ∀ b b' r r', s.slots b = some r → s.slots b' = some r' → r.runId = r'.runId → b = b'
  fresh : ∀ n, s.nextRun ≤ n → s.handled n = []

/-- The reader's run was used, and only its own agent's slot can hold it. -/
def ReaderSound (s : Engine) (rd : Reader) : Prop :=
  rd.run < s.nextRun ∧ ∀ b r, s.slots b = some r → r.runId = rd.run → b = rd.agent

def sessionOutline : Outline Engine Instr Phase Uuid Empty where
  inv := SessionsSound
  needs i s := ∀ rd, i.reader? = some rd → ReaderSound s rd

variable {s : Engine} {o : Oracle} {c : Section Instr Phase Uuid}

/-- Where the child of a slot comes from. -/
inductive Origin (s : Engine) (o : Oracle) :
    Section Instr Phase Uuid → Uuid → Running → Prop
  | stays {c b r r'} (hs : s.slots b = some r) (hr : r'.runId = r.runId)
      (hi : r'.sessionId = r.sessionId) : Origin s o c b r'
  | named {rd sessionId r r'} (hs : s.slots rd.agent = some r) (hr : r'.runId = r.runId)
      (hi : r'.sessionId = some sessionId) :
      Origin s o (.first (.event rd (.init sessionId))) rd.agent r'
  | spawned {b next} (ho : o.spawns = true) :
      Origin s o (.later b (.startSpawn next)) b (spawned s o)

theorem origin_of_map {b : Uuid} {f : Running → Running} {r' : Running}
    (hf : ∀ r, (f r).runId = r.runId ∧ (f r).sessionId = r.sessionId)
    (h : (s.slots b).map f = some r') : Origin s o c b r' := by
  obtain ⟨r, hr, rfl⟩ := Option.map_eq_some_iff.mp h
  exact .stays hr (hf r).1 (hf r).2

theorem origin_act {b : Uuid} {r' : Running}
    (h : (machine.act c s o).1.slots b = some r') : Origin s o c b r' := by
  have hslot := slotAfter_act s o c b
  rw [h] at hslot
  generalize hx : some r' = x at hslot
  cases hslot with
  | same => exact .stays hx.symm rfl rfl
  | taken => cases hx
  | shut => cases hx
  | named =>
      obtain ⟨r, hr, rfl⟩ := Option.map_eq_some_iff.mp hx.symm
      exact .named hr rfl rfl
  | @ended rd sessionId isError text turns costUsd =>
      exact origin_of_map (f := afterResult turns costUsd) (fun _ => ⟨rfl, rfl⟩) hx.symm
  | @limited rd sessionId status window utilization resetsAt =>
      exact origin_of_map (f := seeLimit ⟨resetsAt, window⟩) (fun _ => ⟨rfl, rfl⟩) hx.symm
  | @written b row hw =>
      exact origin_of_map (f := afterWrite row) (fun _ => ⟨rfl, rfl⟩) hx.symm
  | spawned ho =>
      obtain rfl := Option.some.inj hx
      exact .spawned ho

theorem nextRun_startSpawn (b : Uuid) (next : AfterStart) (ho : o.spawns = true) :
    (machine.act (.later b (.startSpawn next)) s o).1.nextRun = s.nextRun + 1 := by
  show (startSpawn s b next o).1.nextRun = s.nextRun + 1
  simp [startSpawn, ho]

/-- Runs are only ever added. -/
theorem nextRun_le_act : s.nextRun ≤ (machine.act c s o).1.nextRun := by
  by_cases hr : keepsRecord c = false
  · rw [(sameRecords_act s o hr).nextRun]
  cases c with
  | first i =>
      cases i with
      | event rd ev => exact (sameRecords_onEvent s o rd ev).nextRun.ge
      | _ => first | exact le_rfl | exact absurd rfl hr
  | later a p =>
      cases p with
      | startSpawn next =>
          show s.nextRun ≤ (startSpawn s a next o).1.nextRun
          unfold startSpawn
          split
          · exact le_rfl
          · exact Nat.le_succ _
      | pumpWrite row => exact (sameRecords_pumpWrite s a o row).nextRun.ge
      | _ => exact absurd rfl hr

/-- What was handled of a run after a section. -/
theorem handled_act (c : Section Instr Phase Uuid) (n : ℕ) :
    (machine.act c s o).1.handled n = s.handled n ∨
      ∃ rd ev, c = .first (.event rd ev) ∧ rd.run = n ∧
        (machine.act c s o).1.handled n = s.handled n ++ [ev] := by
  by_cases hr : keepsRecord c = false
  · exact .inl (congrFun (sameRecords_act s o hr).handled n)
  cases c with
  | first i =>
      cases i with
      | event rd ev =>
          have hsame := (sameRecords_onEvent s o rd ev).handled
          have hupd : (machine.act (.first (.event rd ev)) s o).1.handled =
              Function.update s.handled rd.run (s.handled rd.run ++ [ev]) := by
            rw [← hsame]
            rfl
          rw [hupd]
          by_cases hn : n = rd.run
          · subst hn
            exact .inr ⟨rd, ev, rfl, rfl, Function.update_self ..⟩
          · exact .inl (Function.update_of_ne hn ..)
      | _ => first | exact .inl rfl | exact absurd rfl hr
  | later a p =>
      cases p with
      | startSpawn next => exact .inl (congrFun (sameRecords_startSpawn s a o next).handled n)
      | pumpWrite row => exact .inl (congrFun (sameRecords_pumpWrite s a o row).handled n)
      | _ => exact absurd rfl hr

theorem reader?_of_isOrdinary {i : Instr} (h : i.isOrdinary = true) : i.reader? = none := by
  cases i with
  | readLine rd => cases h
  | event rd ev => cases h
  | _ => rfl

/-! ## The steps -/

/-- The run of a slot's child did not change, or it is the next one. -/
theorem run_of_origin {b : Uuid} {r' : Running} (h : Origin s o c b r') :
    (∃ r, s.slots b = some r ∧ r'.runId = r.runId) ∨
      r'.runId = s.nextRun ∧ (machine.act c s o).1.nextRun = s.nextRun + 1 ∧
        machine.lockOf c = some b := by
  cases h with
  | stays hs hr _ => exact .inl ⟨_, hs, hr⟩
  | named hs hr _ => exact .inl ⟨_, hs, hr⟩
  | spawned ho => exact .inr ⟨rfl, nextRun_startSpawn _ _ ho, rfl⟩

theorem readerSound_act {rd : Reader} (h : ReaderSound s rd) :
    ReaderSound (machine.act c s o).1 rd := by
  refine ⟨h.1.trans_le nextRun_le_act, ?_⟩
  intro b r' hr' hrun
  rcases run_of_origin (origin_act hr') with ⟨r, hr, hid⟩ | ⟨hid, -, -⟩
  · exact h.2 b r hr (hid.symm.trans hrun)
  · have hlt := h.1
    rw [← hrun, hid] at hlt
    exact absurd hlt (lt_irrefl _)

/-- A section leaves only readers of runs that are used. -/
theorem readerSound_of_adds {p : State} (hv : sessionOutline.Valid p) {e : Event}
    {tasks : List (List Instr)} {rest : List Instr}
    (hd : p.due machine e = some (c, tasks, rest, o)) {i : Instr}
    (hi : (machine.act c p.shared o).2.Adds i) {rd : Reader} (hrd : i.reader? = some rd) :
    ReaderSound (machine.act c p.shared o).1 rd := by
  rcases brings_act p.shared o hi with hord | hb
  · rw [reader?_of_isOrdinary hord] at hrd
    cases hrd
  cases hb with
  | line =>
      cases hrd
      exact readerSound_act (hv.needs _ (Pool.has_of_due_first hd) rd rfl)
  | @lines rd₀ initialised =>
      cases hrd
      exact readerSound_act
        (show ReaderSound p.shared { rd₀ with initialised } from
          hv.needs _ (Pool.has_of_due_first hd) rd₀ rfl)
  | @reader b next ho =>
      cases hrd
      have hrun := nextRun_startSpawn (s := p.shared) b next ho
      refine ⟨by rw [hrun]; exact Nat.lt_succ_self _, ?_⟩
      intro b' r' hr' hid
      rcases run_of_origin (origin_act hr') with ⟨r, hr, hrr⟩ | ⟨-, -, hl⟩
      · have hlt := hv.inv.run b' r hr
        rw [← hrr, hid] at hlt
        exact absurd hlt (lt_irrefl _)
      · exact (Option.some.inj hl).symm
  | settlement =>
      unfold settlement at hrd
      split at hrd <;> cases hrd
  | _ => cases hrd

/-- A child keeps the session it named first. -/
theorem session_act {p : State} (hv : sessionOutline.Valid p) {e : Event}
    {tasks : List (List Instr)} {rest : List Instr}
    (hd : p.due machine e = some (c, tasks, rest, o)) (hc : SessionsHold p c o) {b : Uuid}
    {r' : Running} (hr' : (machine.act c p.shared o).1.slots b = some r') {sessionId : String}
    (hs : firstInit ((machine.act c p.shared o).1.handled r'.runId) = some sessionId) :
    r'.sessionId = some sessionId := by
  cases origin_act hr' with
  | @stays _ _ r _ hr hrun hid =>
      rw [hid]
      rcases handled_act (s := p.shared) (o := o) c r'.runId with heq | ⟨rd, ev, rfl, hn, heq⟩
      · rw [heq, hrun] at hs
        exact hv.inv.session b r hr sessionId hs
      · rw [heq, firstInit_concat, hrun] at hs
        cases hfirst : firstInit (p.shared.handled r.runId) with
        | some S =>
            rw [hfirst] at hs
            obtain rfl : S = sessionId := Option.some.inj hs
            exact hv.inv.session b r hr S hfirst
        | none =>
            -- the first `init` of this child, so its slot learns the session
            rw [hfirst, Option.none_or] at hs
            have hb := (hv.needs _ (Pool.has_of_due_first hd) rd rfl).2 b r hr
              (hrun.symm.trans hn.symm)
            subst hb
            cases ev with
            | init S =>
                obtain rfl : S = sessionId := Option.some.inj hs
                change (onInit p.shared rd.agent S).slots rd.agent = some r' at hr'
                rw [onInit_slots, Function.update_self, hr] at hr'
                obtain rfl := Option.some.inj hr'
                exact hid.symm
            | _ => cases hs
  | @named rd S r _ hr hrun hid =>
      rw [hid]
      have hname := hc r hr
      rcases handled_act (s := p.shared) (o := o) (.first (.event rd (.init S))) r'.runId
        with heq | ⟨rd', ev, hev, -, heq⟩
      · rw [heq, hrun] at hs
        rw [hname (by rw [hs]; exact nofun), hs]
      · cases hev
        rw [heq, firstInit_concat, hrun] at hs
        cases hfirst : firstInit (p.shared.handled r.runId) with
        | some S' =>
            rw [hname (by rw [hfirst]; exact nofun), hfirst]
            rw [hfirst] at hs
            exact hs
        | none =>
            rw [hfirst, Option.none_or] at hs
            exact hs
  | @spawned _ next ho =>
      rcases handled_act (s := p.shared) (o := o) (.later b (.startSpawn next))
          (spawned p.shared o).runId
        with heq | ⟨rd, ev, hev, -, -⟩
      · rw [heq, show p.shared.handled (spawned p.shared o).runId = [] from
          hv.inv.fresh _ le_rfl] at hs
        cases hs
      · cases hev

theorem sessionsSound_act {p : State} (hv : sessionOutline.Valid p) {e : Event}
    {tasks : List (List Instr)} {rest : List Instr}
    (hd : p.due machine e = some (c, tasks, rest, o)) (hc : SessionsHold p c o) :
    SessionsSound (machine.act c p.shared o).1 where
  run b r' hr' := by
    rcases run_of_origin (origin_act hr') with ⟨r, hr, hid⟩ | ⟨hid, hnext, -⟩
    · rw [hid]
      exact (hv.inv.run b r hr).trans_le nextRun_le_act
    · rw [hid, hnext]
      exact Nat.lt_succ_self _
  session b r' hr' sessionId hs := session_act hv hd hc hr' hs
  apart b b' q q' hq hq' hid := by
    rcases run_of_origin (origin_act hq) with ⟨r, hr, hrun⟩ | ⟨hrun, -, hl⟩ <;>
      rcases run_of_origin (origin_act hq') with ⟨r', hr', hrun'⟩ | ⟨hrun', -, hl'⟩
    · exact hv.inv.apart b b' r r' hr hr' (hrun.symm.trans (hid.trans hrun'))
    · have hlt := hv.inv.run b r hr
      rw [← hrun, hid, hrun'] at hlt
      exact absurd hlt (lt_irrefl _)
    · have hlt := hv.inv.run b' r' hr'
      rw [← hrun', ← hid, hrun] at hlt
      exact absurd hlt (lt_irrefl _)
    · exact Option.some.inj (hl.symm.trans hl')
  fresh n hn := by
    rcases handled_act (s := p.shared) (o := o) c n with heq | ⟨rd, ev, rfl, hrun, -⟩
    · rw [heq]
      exact hv.inv.fresh n (nextRun_le_act.trans hn)
    · have hlt := (hv.needs _ (Pool.has_of_due_first hd) rd rfl).1
      rw [hrun] at hlt
      exact absurd (nextRun_le_act.trans hn) (not_le.mpr hlt)

theorem reader?_of_isCall {t : List Instr} (h : IsCall t) {i : Instr} (hi : i ∈ t) :
    i.reader? = none := by
  obtain ⟨c, rfl⟩ := h
  cases c with
  | adopt readers =>
      obtain ⟨a, -, rfl⟩ := List.mem_map.mp hi
      rfl
  | restart a =>
      simp only [Call.task, stop, List.cons_append, List.nil_append, List.mem_cons,
        List.not_mem_nil, or_false] at hi
      rcases hi with rfl | rfl | rfl <;> rfl
  | stop a =>
      simp only [Call.task, stop, List.mem_cons, List.not_mem_nil, or_false] at hi
      rcases hi with rfl | rfl <;> rfl
  | clearContext a =>
      simp only [Call.task, clearContext, List.mem_cons, List.not_mem_nil, or_false] at hi
      rcases hi with rfl | rfl | rfl <;> rfl
  | pauseTurns =>
      simp only [Call.task, List.mem_cons, List.not_mem_nil, or_false] at hi
      rcases hi with rfl | rfl <;> rfl
  | shutdown =>
      simp only [Call.task, List.mem_cons, List.not_mem_nil, or_false] at hi
      rcases hi with rfl | rfl | rfl <;> rfl
  | _ =>
      obtain rfl := List.mem_singleton.mp hi
      rfl

theorem sessionRule : sessionOutline.Rule machine IsCall SessionsHold where
  call _ ht i hi rd hrd := by
    rw [reader?_of_isCall ht hi] at hrd
    cases hrd
  keeps hv hd hc :=
    { inv := sessionsSound_act hv hd hc
      stable := fun _ h rd hrd => readerSound_act (h rd hrd)
      added := fun _ hi _ hrd => readerSound_of_adds hv hd hi hrd
      others := fun _ _ _ _ _ => trivial
      kept := fun _ _ _ _ => trivial
      paid := nofun }

/-! ## Events with another session -/

/-- An event that finds the slot guarded finds it empty, or does not match. -/
theorem empty_or_refused {p : State} (hv : sessionOutline.Valid p) {rd : Reader}
    {sessionId : Option String} (hf : Foreign p.shared rd sessionId)
    (hg : Guards p.shared rd sessionId) :
    p.shared.slots rd.agent = none ∨
      sessionMatches ((p.shared.slots rd.agent).bind (·.sessionId)) sessionId = false := by
  cases hr : p.shared.slots rd.agent with
  | none => exact .inl rfl
  | some r =>
      right
      have hknown : r.sessionId ≠ none ∧ sessionId ≠ r.sessionId := by
        rcases hg r hr with hrun | hne
        · obtain ⟨S, hS⟩ := Option.ne_none_iff_exists'.mp hf.1
          have hid := hv.inv.session rd.agent r hr S (by rw [hrun, hS])
          rw [hid, ← hS]
          exact hf
        · exact hne
      obtain ⟨known, hk⟩ := Option.ne_none_iff_exists'.mp hknown.1
      rw [hk] at hknown
      rw [Option.bind_some, hk]
      exact beq_eq_false_iff_ne.mpr hknown.2

theorem endsNoTurn_result {rd : Reader} {sessionId text : Option String} {isError : Bool}
    {turns : Option ℕ} {costUsd : Option ℚ}
    (h : s.slots rd.agent = none ∨
      sessionMatches ((s.slots rd.agent).bind (·.sessionId)) sessionId = false) :
    EndsNoTurn s (machine.act (.first (.event rd (.result sessionId isError text turns costUsd)))
      s o) := by
  by_cases hm : sessionMatches ((s.slots rd.agent).bind (·.sessionId)) sessionId = false
  · have hact : onEvent s rd (.result sessionId isError text turns costUsd) o = (s, {}) := by
      unfold onEvent
      simp only [hm, Bool.not_false, if_true]
    unfold machine exec
    simp only [hact]
    exact ⟨rfl, rfl, rfl, rfl, by simp [Next.Adds]⟩
  · have hnone := h.resolve_right hm
    have hact : onEvent s rd (.result sessionId isError text turns costUsd) o =
        (s.setSlot rd.agent none,
          { follow := [.recordSpend (turnOf rd none isError text turns costUsd)] }) := by
      unfold onEvent
      simp only [hnone] at hm ⊢
      rw [if_neg (by simpa using hm)]
      rfl
    unfold machine exec
    simp only [hact]
    refine ⟨?_, rfl, rfl, rfl, ?_⟩
    · exact Function.update_eq_self_iff.mpr hnone.symm
    · rintro i (hi | ⟨t, ht, -⟩)
      · exact ⟨_, List.mem_singleton.mp hi, rfl, rfl⟩
      · cases ht

theorem endsNoTurn_rateLimit {rd : Reader} {sessionId window : Option String}
    {status : String} {utilization : Option ℚ} {resetsAt : Option ℤ}
    (hm : sessionMatches ((s.slots rd.agent).bind (·.sessionId)) sessionId = false) :
    EndsNoTurn s (machine.act
      (.first (.event rd (.rateLimit sessionId status window utilization resetsAt))) s o) := by
  have hact : onEvent s rd (.rateLimit sessionId status window utilization resetsAt) o =
      (s, {}) := by
    unfold onEvent
    simp only [hm, Bool.not_false, if_true]
  unfold machine exec
  simp only [hact]
  exact ⟨rfl, rfl, rfl, rfl, by simp [Next.Adds]⟩

theorem ignoresForeign_of_valid {p : State} (hv : sessionOutline.Valid p)
    (hc : SessionsHold p c o) : IgnoresForeign p c o := by
  cases c with
  | later a h => trivial
  | first i =>
      cases i with
      | event rd ev =>
          cases ev with
          | result sessionId isError text turns costUsd =>
              exact fun hf => endsNoTurn_result (empty_or_refused hv hf (hc hf))
          | rateLimit sessionId status window utilization resetsAt =>
              intro hf
              obtain ⟨hsome, hg⟩ := hc hf
              apply endsNoTurn_rateLimit
              apply (empty_or_refused hv hf hg).resolve_left
              exact Option.isSome_iff_ne_none.mp hsome
          | _ => trivial
      | _ => trivial

/-! ## The runs -/

/-- In every run in which the sessions hold, a result or a rate limit with
another session than the first one of its child ends no turn and records no
limit. -/
theorem session_bound {s : Engine} (hslots : ∀ a, s.slots a = none)
    (hhandled : ∀ n, s.handled n = []) {x : List Event}
    (hx : Run.Always (Pool.step machine) (Pool.Meets machine IsCall SessionsHold)
      (Pool.idle s) x) :
    Run.Always (Pool.step machine) (Pool.Meets machine IsCall IgnoresForeign)
      (Pool.idle s) x := by
  refine sessionRule.always ?_ (Outline.valid_idle ?_ fun _ h => h) hx
  · intro q e hq he
    exact Pool.meets_of_due (fun t ht => (ht ▸ he).call)
      fun c tasks rest o hd => ignoresForeign_of_valid hq (he.due hd)
  · refine ⟨?_, ?_, ?_, fun n _ => hhandled n⟩
    · intro b r hr
      rw [hslots b] at hr
      cases hr
    · intro b r hr
      rw [hslots b] at hr
      cases hr
    · intro b b' r r' hr
      rw [hslots b] at hr
      cases hr

/-- A child prints an `init`. -/
def initLine (sessionId : String) : Oracle where
  line := some (some (.obj [("type", .str "system"), ("subtype", .str "init"),
    ("session_id", .str sessionId)]))

/-- A child prints a `result`. -/
def resultLine (sessionId : String) : Oracle where
  line := some (some (.obj [("type", .str "result"), ("session_id", .str sessionId)]))

/-- In the middle of its turn, the child names its session and prints a result
of another one. -/
def forgedResult : List Event :=
  workDelivered ++
    [.run 1 (initLine "S"), .run 3 {}, .run 3 {}, .run 3 (resultLine "X"), .run 3 {}]

/-- It names the other session before it prints its result. -/
def renamedSession : List Event :=
  workDelivered ++
    [.run 1 (initLine "S"), .run 3 {}, .run 3 {}, .run 3 (initLine "X"), .run 3 {}, .run 3 {},
      .run 3 (resultLine "X")]

theorem session_bound_forgedResult :
    Run.Always (Pool.step machine) (Pool.Meets machine IsCall IgnoresForeign)
      (Pool.idle (Engine.fresh Keyed.empty)) forgedResult := by
  apply session_bound (fun _ => rfl) (fun _ => rfl)
  apply Pool.always_meets
  · intro t ht
    simp only [forgedResult, workDelivered, List.cons_append, List.nil_append, List.mem_cons,
      List.not_mem_nil, or_false, reduceCtorEq, false_or, Event.call.injEq] at ht
    rcases ht with rfl | rfl
    · exact ⟨.enqueue work, rfl⟩
    · exact ⟨.start 1, rfl⟩
  · decide +kernel

/-- A child that renames its session ends its turn with a result that does not
carry the session it named first. -/
theorem renamed_session_ends_turn :
    ∃ p e, p = Run.run (Pool.step machine) (Pool.idle (Engine.fresh Keyed.empty))
        renamedSession ∧
      ¬ Pool.Meets machine (fun _ => True) IgnoresForeign p e := by
  refine ⟨_, .run 3 {}, rfl, fun h => ?_⟩
  have hslots := ((h.due rfl) (by decide +kernel)).slots
  have hfl := congrArg (fun f => ((f 1).bind (·.inFlight)).isSome) hslots
  revert hfl
  decide +kernel

end Supervisor

end Wheel
