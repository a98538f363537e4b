import Wheel.Host.Calls

/-!
# What the host restores

After a reboot the host starts the projects whose wish is stored. A start records the
wish when the sandbox is up and a stop takes it back before the sandbox is down, so while
a stop is under way the wish runs ahead of it. A restart records nothing, and a stop that
fails does not put the wish back: those are the ways the wish and the last call that
succeeded come apart.
-/

namespace Wheel.Host

open Concurrency

/-- The last lifecycle call that succeeded asks the project to run. -/
def Wanted (last : Option Lifecycle) : Prop := last = some .start ∨ last = some .restart

instance (last : Option Lifecycle) : Decidable (Wanted last) :=
  inferInstanceAs (Decidable (_ ∨ _))

/-- A stop of the project that has taken the wish back and has not returned. -/
def Lowered (c : Call Request Op.Answer Response) (id : Uuid) : Prop :=
  c.name = .stop id ∧ c.past = [⟨.setStopped id, ()⟩]

/-- A call other than `n` is such a stop. -/
def OtherStopping (s : State) (n : ℕ) (id : Uuid) : Prop :=
  ∃ (m : ℕ) (c : Call Request Op.Answer Response),
    m ≠ n ∧ s.calls[m]? = some c ∧ Lowered c id

def Stopping (s : State) (id : Uuid) : Prop :=
  ∃ (m : ℕ) (c : Call Request Op.Answer Response), s.calls[m]? = some c ∧ Lowered c id

/-- The section keeps the wish and the last success together: a restart succeeds on a
project that is wished to run, a stop succeeds when no start has raised the wish again
and fails only where another stop is still under way or nothing asks the project to run,
and no record is made for a project that was started or restarted without one. -/
def KeepsWish (s : State) (n : ℕ) (works : Bool) : Op → Prop
  | .sandboxRestart id =>
      works = true → ∀ r, s.shared.store.get id = some r → r.desiredRunning = false →
        Stopping s id
  | .sandboxStop id =>
      if works then ∀ r, s.shared.store.get id = some r → r.desiredRunning = false
      else
        ∀ r, s.shared.store.get id = some r → r.desiredRunning = false →
          Wanted (s.shared.last id) → OtherStopping s n id
  | .upsert id _ _ =>
      s.shared.store.get id = none → Wanted (s.shared.last id) → Stopping s id
  | _ => True

def WishKept (s : State) : Event → Prop
  | .start _ => True
  | .step n works =>
      match (s.calls[n]?).map Call.rest with
      | some (.act op _) => KeepsWish s n works op
      | _ => True

/-! ## What a call performs -/

/-- A stop performs its two sections, and no other call performs them. -/
def Performs : Request → List (Performed Op.Answer) → Op → Prop
  | .stop id, x, op =>
      (x = [] ∧ op = .setStopped id) ∨ (x = [⟨.setStopped id, ()⟩] ∧ op = .sandboxStop id)
  | _, _, op => ∀ id, op ≠ .setStopped id ∧ op ≠ .sandboxStop id

theorem obeys_body (canonical : String → String) (request : Request) :
    (request.body canonical).Obeys (Performs request) (fun _ _ => True) [] := by
  cases request with
  | put id engineSecret vaultKey => simp [Request.body, putProject, Performs]
  | start id =>
      refine ⟨by simp [Performs], fun row => ?_⟩
      cases row with
      | none => trivial
      | some r =>
          refine ⟨by simp [Performs], fun room => ?_⟩
          cases room with
          | false => trivial
          | true =>
              refine ⟨by simp [Performs], fun started => ?_⟩
              cases started with
              | false => trivial
              | true => simp [Performs]
  | stop id => exact ⟨.inl ⟨rfl, rfl⟩, fun _ => ⟨.inr ⟨rfl, rfl⟩, fun _ => trivial⟩⟩
  | restart id =>
      refine ⟨by simp [Performs], fun row => ?_⟩
      cases row with
      | none => trivial
      | some r => simp [Performs]
  | delete id =>
      refine ⟨by simp [Performs], fun destroyed => ?_⟩
      cases destroyed with
      | false => trivial
      | true => simp [Performs]

section Steps

variable {canonical : String → String} {s : State} {n : ℕ}
  {c : Call Request Op.Answer Response} {op : Op} {k : op.Answer → Prog}

theorem performs_of_stop {id : Uuid} {x : List (Performed Op.Answer)}
    (h : Performs (.stop id) x op) (hx : x = [⟨.setStopped id, ()⟩]) :
    op = .sandboxStop id := by
  rcases h with ⟨hnil, -⟩ | ⟨-, hop⟩
  · rw [hx] at hnil
    cases hnil
  · exact hop

theorem of_performs_setStopped {name : Request} {x : List (Performed Op.Answer)} {id : Uuid}
    (h : Performs name x (.setStopped id)) : name = .stop id ∧ x = [] := by
  cases name with
  | stop id' =>
      rcases h with ⟨hx, hop⟩ | ⟨-, hop⟩
      · cases hop
        exact ⟨rfl, hx⟩
      · cases hop
  | _ => exact absurd rfl (h id).1

theorem stopping_of_other {t : World} {d : Call Request Op.Answer Response} {id : Uuid}
    (h : OtherStopping s n id) : Stopping ⟨t, s.calls.set n d⟩ id := by
  obtain ⟨m, b, hm, hb, hlow⟩ := h
  exact ⟨m, b, by rwa [List.getElem?_set_ne (Ne.symm hm)], hlow⟩

/-- A stop under way stays under way until it performs its last section. -/
theorem stopping_set (hc : s.calls[n]? = some c) (hp : Performs c.name c.past op) {t : World}
    {d : Call Request Op.Answer Response} {id : Uuid} (hop : op ≠ .sandboxStop id)
    (h : Stopping s id) : Stopping ⟨t, s.calls.set n d⟩ id := by
  obtain ⟨m, b, hb, hlow⟩ := h
  refine stopping_of_other ⟨m, b, ?_, hb, hlow⟩
  rintro rfl
  obtain rfl : b = c := Option.some.inj (hb.symm.trans hc)
  rw [hlow.1] at hp
  exact hop (performs_of_stop hp hlow.2)

/-! ## The wish follows the last success -/

/-- The stored wish and the last success of a project agree, unless a stop under way has
taken the wish back. -/
def Agrees (w : World) (id : Uuid) (stopping : Prop) : Prop :=
  ∀ r, w.store.get id = some r →
    (r.desiredRunning = true → Wanted (w.last id)) ∧
      (r.desiredRunning = false → Wanted (w.last id) → stopping)

theorem Agrees.mono {w : World} {id : Uuid} {P Q : Prop} (h : Agrees w id P) (hPQ : P → Q) :
    Agrees w id Q :=
  fun r hr => ⟨(h r hr).1, fun hd hw => hPQ ((h r hr).2 hd hw)⟩

/-- Two worlds that store and remember the same of a project agree on it alike. -/
theorem Agrees.congr {w w' : World} {id : Uuid} {P : Prop} (h : Agrees w id P)
    (hget : w'.store.get id = w.store.get id) (hlast : w'.last id = w.last id) :
    Agrees w' id P := by
  intro r hr
  rw [hlast]
  exact h r (hget ▸ hr)

theorem last_succeed_of_ne {w : World} {id k : Uuid} {kind : Lifecycle} (h : k ≠ id) :
    (w.succeed id kind).last k = w.last k := Function.update_of_ne h _ _

theorem last_succeed_self {w : World} {id : Uuid} {kind : Lifecycle} :
    (w.succeed id kind).last id = some kind := Function.update_self ..

theorem get_setDesiredRunning_of_ne {w : Store} {id k : Uuid} {running : Bool} (h : k ≠ id) :
    (w.setDesiredRunning id running).get k = w.get k := by
  rw [Store.setDesiredRunning, Store.get_update, if_neg h]

theorem desiredRunning_of_get {w : Store} {id : Uuid} {running : Bool} {r : ProjectRow}
    (h : (w.setDesiredRunning id running).get id = some r) : r.desiredRunning = running := by
  rw [Store.setDesiredRunning, Store.get_update, if_pos rfl] at h
  obtain ⟨r', -, rfl⟩ := Option.map_eq_some_iff.mp h
  rfl

/-- One section keeps the agreement, for every project. -/
theorem agrees_exec (hJ : ∀ id, Agrees s.shared id (Stopping s id)) (hc : s.calls[n]? = some c)
    (hrest : c.rest = .act op k) (hp : Performs c.name c.past op) {works : Bool}
    (hk : KeepsWish s n works op) (id : Uuid) :
    Agrees (s.shared.exec works op).1 id
      (Stopping ⟨(s.shared.exec works op).1, s.calls.set n
        ⟨c.name, ⟨op, (s.shared.exec works op).2⟩ :: c.past, k (s.shared.exec works op).2⟩⟩ id) := by
  have hset : ∀ {t d}, op ≠ .sandboxStop id → Stopping s id →
      Stopping ⟨t, s.calls.set n d⟩ id := fun hop h => stopping_set hc hp hop h
  cases op with
  | provision => exact (hJ id).mono (hset (by simp))
  | get => exact (hJ id).mono (hset (by simp))
  | room => exact (hJ id).mono (hset (by simp))
  | sandboxStart => exact (hJ id).mono (hset (by simp))
  | destroy => exact (hJ id).mono (hset (by simp))
  | upsert id' engineSecret vaultKey =>
      intro r hr
      have hr' : (s.shared.store.upsert id' engineSecret vaultKey).get id = some r := hr
      rw [Store.get_upsert] at hr'
      by_cases hid : id = id'
      · subst hid
        rw [if_pos rfl] at hr'
        cases hget : s.shared.store.get id with
        | none =>
            rw [hget] at hr'
            cases hr'
            exact ⟨fun h => (by cases h), fun _ hw => hset (by simp) (hk hget hw)⟩
        | some r' =>
            rw [hget] at hr'
            cases hr'
            exact ((hJ id).mono (hset (by simp))) r' hget
      · rw [if_neg hid] at hr'
        exact ((hJ id).mono (hset (by simp))) r hr'
  | setRunning id' =>
      by_cases hid : id = id'
      · subst hid
        intro r hr
        have hrunning : r.desiredRunning = true := desiredRunning_of_get hr
        refine ⟨fun _ => .inl last_succeed_self, fun h => ?_⟩
        rw [hrunning] at h
        cases h
      · exact ((hJ id).mono (hset (by simp))).congr (get_setDesiredRunning_of_ne hid)
          (last_succeed_of_ne hid)
  | setStopped id' =>
      by_cases hid : id = id'
      · subst hid
        intro r hr
        have hrunning : r.desiredRunning = false := desiredRunning_of_get hr
        refine ⟨fun h => ?_, fun _ _ => ?_⟩
        · rw [hrunning] at h
          cases h
        · obtain ⟨hname, hpast⟩ := of_performs_setStopped hp
          refine ⟨n, _, List.getElem?_set_self (List.getElem?_eq_some_iff.mp hc).1, hname, ?_⟩
          rw [hpast]
      · exact ((hJ id).mono (hset (by simp))).congr (get_setDesiredRunning_of_ne hid) rfl
  | sandboxStop id' =>
      by_cases hid : id = id'
      · subst hid
        cases works with
        | true =>
            intro r hr
            refine ⟨fun h => ?_, fun _ hw => ?_⟩
            · rw [hk r hr] at h
              cases h
            · have hlast : (s.shared.succeed id .stop).last id = some .stop := last_succeed_self
              rcases hw with hw | hw <;> cases hlast.symm.trans hw
        | false =>
            intro r hr
            exact ⟨(hJ id r hr).1, fun hd hw => stopping_of_other (hk r hr hd hw)⟩
      · have hop : Op.sandboxStop id' ≠ .sandboxStop id := fun h => hid (Op.sandboxStop.inj h).symm
        cases works with
        | true => exact ((hJ id).mono (hset hop)).congr rfl (last_succeed_of_ne hid)
        | false => exact (hJ id).mono (hset hop)
  | sandboxRestart id' =>
      cases works with
      | false => exact (hJ id).mono (hset (by simp))
      | true =>
          by_cases hid : id = id'
          · subst hid
            intro r hr
            exact ⟨fun _ => .inr last_succeed_self, fun hd _ => hset (by simp) (hk rfl r hr hd)⟩
          · exact ((hJ id).mono (hset (by simp))).congr rfl (last_succeed_of_ne hid)
  | delete id' =>
      by_cases hid : id = id'
      · subst hid
        intro r hr
        have hr' : (s.shared.store.delete id).get id = some r := hr
        rw [Store.get_delete, if_pos rfl] at hr'
        cases hr'
      · refine ((hJ id).mono (hset (by simp))).congr ?_ (last_succeed_of_ne hid)
        show (s.shared.store.delete id').get id = _
        rw [Store.get_delete, if_neg hid]

end Steps

/-! ## Whole runs -/

section Runs

variable {canonical : String → String}

theorem agrees_step {s : State} {e : Event}
    (hs : Calls.Holds (fun _ => True)
      (fun c _ => c.rest.Obeys (Performs c.name) (fun _ _ => True) c.past) s)
    (hJ : ∀ id, Agrees s.shared id (Stopping s id)) (he : WishKept s e) (id : Uuid) :
    Agrees (s.step (service canonical) e).shared id (Stopping (s.step (service canonical) e) id) := by
  rcases Calls.step_cases (M := service canonical) s e with
    ⟨x, rfl, hx⟩ | ⟨n, o, c, t, d, rfl, hc, hp, hx⟩ | hx
  · rw [hx]
    refine (hJ id).mono ?_
    rintro ⟨m, b, hb, hlow⟩
    exact ⟨m, b, List.getElem?_append_left (List.getElem?_eq_some_iff.mp hb).1 ▸ hb, hlow⟩
  · obtain ⟨op, k, a, hrest, hexec, rfl⟩ := Call.perform_eq_some_iff.mp hp
    have hobeys := hs.calls n c hc
    rw [hrest] at hobeys
    have hkeeps : KeepsWish s n o op := by
      simp only [WishKept, hc, Option.map_some, hrest] at he
      exact he
    have hpair : s.shared.exec o op = (t, a) := Option.some.inj hexec
    have h := agrees_exec hJ hc hrest hobeys.1 hkeeps id
    rw [hpair] at h
    rw [hx]
    exact h
  · rw [hx]
    exact hJ id

/-- In every run that keeps the wish, a project without a stop under way is restored after
a reboot if and only if it exists and was last asked to run. -/
theorem restored_iff_wanted {x : List Event}
    (hx : Run.Always (Calls.step (service canonical)) WishKept (Calls.idle World.start) x)
    (id : Uuid) :
    let s := Run.run (Calls.step (service canonical)) (Calls.idle World.start) x
    ¬ Stopping s id →
      ((∃ r ∈ s.shared.store.allDesiredRunning, r.id = id) ↔
        (s.shared.store.get id).isSome ∧ Wanted (s.shared.last id)) := by
  intro s hquiet
  have hkeeps := Calls.keeps_obeys (M := service canonical)
    (P := Performs) (Q := fun _ _ _ => True) (obeys_body canonical)
  have hJ := Run.invariant
    (I := fun s => Calls.Holds (fun _ => True)
      (fun c _ => c.rest.Obeys (Performs c.name) (fun _ _ => True) c.past) s ∧
        ∀ id, Agrees s.shared id (Stopping s id))
    (fun s e hs he => ⟨hkeeps.step hs.1 trivial, agrees_step hs.1 hs.2 he⟩)
    ⟨Calls.holds_idle trivial, fun id r hr => (by cases hr)⟩ hx
  have hid := hJ.2 id
  constructor
  · rintro ⟨r, hr, hrid⟩
    obtain ⟨hmem, hrunning⟩ := List.mem_filter.mp hr
    have hget : s.shared.store.get id = some r := Keyed.get?_eq_some_iff.mpr ⟨hmem, hrid⟩
    exact ⟨by rw [hget]; rfl, (hid r hget).1 hrunning⟩
  · rintro ⟨hsome, hwanted⟩
    obtain ⟨r, hget⟩ := Option.isSome_iff_exists.mp hsome
    obtain ⟨hmem, hrid⟩ := Keyed.get?_eq_some_iff.mp hget
    refine ⟨r, List.mem_filter.mpr ⟨hmem, ?_⟩, hrid⟩
    by_contra hoff
    exact hquiet ((hid r hget).2 (by simpa using hoff) hwanted)

end Runs

/-- A project is put and started. -/
def putAndStarted : List Event :=
  [.start (.put 1 "secret" "key"), .step 0 true, .step 0 true, .start (.start 1), .step 1 true,
    .step 1 true, .step 1 true, .step 1 true]

/-- It is restarted while it runs. -/
def restartedRunning : List Event := putAndStarted ++ [.start (.restart 1), .step 2 true, .step 2 true]

theorem restored_iff_wanted_restartedRunning :
    let s := Run.run (Calls.step (service id)) (Calls.idle World.start) restartedRunning
    (∃ r ∈ s.shared.store.allDesiredRunning, r.id = 1) ↔
      (s.shared.store.get 1).isSome ∧ Wanted (s.shared.last 1) := by
  refine restored_iff_wanted ?_ 1 ?_
  · refine ⟨trivial, fun _ hw => ?_, trivial, trivial, trivial, trivial, trivial, trivial, trivial,
      trivial, fun _ r hr hd => ?_, trivial⟩
    · rcases hw with hw | hw <;> cases hw
    · cases hr
      cases hd
  · have hnames : ∀ c ∈ (Run.run (Calls.step (service id)) (Calls.idle World.start)
        restartedRunning).calls, c.name ≠ .stop 1 := by decide +kernel
    rintro ⟨m, c, hc, hname, -⟩
    exact hnames c (List.mem_of_getElem? hc) hname

/-- It is stopped and restarted. -/
def restartedStopped : List Event :=
  putAndStarted ++ [.start (.stop 1), .step 2 true, .step 2 true, .start (.restart 1),
    .step 3 true, .step 3 true]

/-- Every call succeeded and the last one was a restart, but a reboot leaves the project
stopped. -/
theorem restart_is_not_restored :
    let s := Run.run (Calls.step (service id)) (Calls.idle World.start) restartedStopped
    (∀ c ∈ s.calls, c.rest.result? = some .ok) ∧ s.shared.last 1 = some .restart ∧
      ¬ ((∃ r ∈ s.shared.store.allDesiredRunning, r.id = 1) ↔
        (s.shared.store.get 1).isSome ∧ Wanted (s.shared.last 1)) := by
  decide +kernel

end Wheel.Host
