import Wheel.Host.Sandbox

/-!
# One engine for a project

What a call has in hand between its sections is its `View`. A start is critical from its
look at the map to the insert: nothing holds another start back meanwhile, which would
find the map empty as well. If starts do not overlap there, at most one engine is alive,
and it is in the map or in the hand of a call.
-/

namespace Wheel.Host.Sandbox

open Concurrency

/-- What a call has in hand: nothing, a start that found no child, one that has reaped the
leftovers, a process that is not in the map yet, or one that was taken out of it when so
many had been spawned. -/
inductive View where
  | idle
  | starting
  | reaped
  | spawned (p : ℕ)
  | taken (p since : ℕ)
  deriving DecidableEq

/-- Between the look at the map and the insert. -/
def View.critical : View → Bool
  | .starting | .reaped | .spawned _ => true
  | .idle | .taken _ _ => false

/-- What a call has in hand after a section. -/
def after : Performed Op.Answer → View
  | ⟨.check, false⟩ => .starting
  | ⟨.provision, true⟩ => .starting
  | ⟨.reapTerm, true⟩ => .starting
  | ⟨.reapTerm, false⟩ => .reaped
  | ⟨.reapPoll, .empty⟩ => .reaped
  | ⟨.reapPoll, _⟩ => .starting
  | ⟨.reapKill, _⟩ => .reaped
  | ⟨.removeSocket, _⟩ => .reaped
  | ⟨.spawn, some p⟩ => .spawned p
  | ⟨.take, (some p, since)⟩ => .taken p since
  | ⟨.wait p since, false⟩ => .taken p since
  | _ => .idle

def view : List (Performed Op.Answer) → View
  | [] => .idle
  | p :: _ => after p

/-- What a call has in hand when it performs the section. -/
def Op.needs : Op → View
  | .provision | .reapTerm | .reapPoll | .reapKill => .starting
  | .removeSocket | .spawn => .reaped
  | .insert p => .spawned p
  | .wait p since | .kill p since => .taken p since
  | _ => .idle

def Performs (x : List (Performed Op.Answer)) (op : Op) : Prop := view x = op.needs

/-- A call returns with nothing in hand. -/
def Returns (x : List (Performed Op.Answer)) (_ : Reply) : Prop := view x = .idle

/-! ## What a call performs -/

section Obeys

open Program

variable {x : List (Performed Op.Answer)} {limits : Limits}

theorem obeys_stop (hx : view x = .idle) :
    stop.Obeys Performs (fun y _ => view y = .idle) x := by
  refine ⟨hx, fun taken => ?_⟩
  obtain ⟨child, since⟩ := taken
  cases child with
  | none => rfl
  | some p =>
      refine ⟨rfl, fun exited => ?_⟩
      cases exited with
      | true => exact ⟨rfl, fun _ => rfl⟩
      | false => exact ⟨rfl, fun _ => ⟨rfl, fun _ => rfl⟩⟩

theorem obeys_startLate (hx : view x = .idle) : startLate.Obeys Performs Returns x :=
  (obeys_stop hx).bind fun _ _ hy => hy

theorem obeys_ready (n : ℕ) (hx : view x = .idle) : (ready n).Obeys Performs Returns x := by
  induction n generalizing x with
  | zero => exact obeys_startLate hx
  | succ n ih =>
      refine ⟨hx, fun probe => ?_⟩
      cases probe with
      | healthy => rfl
      | late => exact obeys_startLate rfl
      | silent =>
          refine ⟨rfl, fun exited => ?_⟩
          cases exited with
          | true => rfl
          | false => exact ih rfl

theorem obeys_spawnEngine (hx : view x = .reaped) :
    (spawnEngine limits).Obeys Performs Returns x := by
  refine ⟨hx, fun _ => ⟨rfl, fun child => ?_⟩⟩
  cases child with
  | none => rfl
  | some p => exact ⟨rfl, fun _ => obeys_ready _ rfl⟩

theorem obeys_reapWait (n : ℕ) (hx : view x = .starting) :
    (reapWait n).Obeys Performs (fun y _ => view y = .reaped) x := by
  induction n generalizing x with
  | zero => exact ⟨hx, fun _ => rfl⟩
  | succ n ih =>
      refine ⟨hx, fun poll => ?_⟩
      cases poll with
      | empty => rfl
      | waiting => exact ih rfl
      | late => exact ⟨rfl, fun _ => rfl⟩

theorem obeys_reapLeftovers (hx : view x = .starting) :
    (reapLeftovers limits).Obeys Performs (fun y _ => view y = .reaped) x := by
  refine ⟨hx, fun leftovers => ?_⟩
  cases leftovers with
  | true => exact obeys_reapWait _ rfl
  | false => rfl

theorem obeys_start (hx : view x = .idle) : (start limits).Obeys Performs Returns x := by
  refine ⟨hx, fun found => ?_⟩
  cases found with
  | true => rfl
  | false =>
      refine ⟨rfl, fun works => ?_⟩
      cases works with
      | true => exact (obeys_reapLeftovers rfl).bind fun _ _ hy => obeys_spawnEngine hy
      | false => rfl

theorem obeys_body (limits : Limits) (request : Request) :
    (request.body limits).Obeys Performs Returns [] := by
  cases request with
  | start => exact obeys_start rfl
  | stop => exact (obeys_stop rfl).bind fun _ _ hy => hy
  | restart => exact (obeys_stop rfl).bind fun _ _ hy => obeys_start hy
  | destroy =>
      refine (obeys_stop rfl).bind fun y since hy => ?_
      exact ⟨hy, fun _ => rfl⟩
  | status => exact ⟨rfl, fun _ => rfl⟩
  | engineExits p => exact ⟨rfl, fun _ => rfl⟩
  | engineBinds p => exact ⟨rfl, fun _ => rfl⟩

end Obeys

/-! ## The invariant -/

/-- What holds of the processes and the map, given what every call has in hand. -/
structure Single (w : World) (vs : List View) : Prop where
  /-- At most one engine is alive. -/
  one : ∀ p q, w.Alive p → w.Alive q → p = q
  /-- It is in the map or in the hand of a call. -/
  kept : ∀ p, w.Alive p → w.child = some p ∨ .spawned p ∈ vs ∨ ∃ since, .taken p since ∈ vs
  mapped : ∀ p, w.child = some p → p < w.engines.length ∧ ∀ q, w.Alive q → q = p
  up : w.up = true → ∃ p, w.child = some p ∧ w.Alive p
  /-- At most one start is between its look at the map and its insert. -/
  exclusive : ∀ (m n : ℕ) (u v : View), vs[m]? = some u → vs[n]? = some v →
    u.critical = true → v.critical = true → m = n
  vacant : ∀ v ∈ vs, v.critical = true → w.child = none
  reaped : .reaped ∈ vs → ∀ p, ¬ w.Alive p
  spawned : ∀ p, .spawned p ∈ vs → p < w.engines.length ∧ ∀ q, w.Alive q → q = p
  taken : ∀ p since, .taken p since ∈ vs →
    (p < since ∧ since ≤ w.engines.length) ∧ w.child ≠ some p ∧ .spawned p ∉ vs

section Single

variable {w t : World} {vs : List View} {n : ℕ} {v v' : View}

theorem lt_of_alive {p : ℕ} (h : w.Alive p) : p < w.engines.length :=
  (List.getElem?_eq_some_iff.mp h).1

/-- Another view than the one that is replaced stays in the list. -/
theorem mem_set_of_ne {u : View} (hu : u ∈ vs) (hv : vs[n]? = some v) (hne : u ≠ v) :
    u ∈ vs.set n v' := by
  obtain ⟨m, hm⟩ := List.mem_iff_getElem?.mp hu
  have hmn : n ≠ m := by
    rintro rfl
    exact hne (Option.some.inj (hm.symm.trans hv))
  exact List.mem_iff_getElem?.mpr ⟨m, by rwa [List.getElem?_set_ne hmn]⟩

/-- A view that becomes critical while no other one is leaves at most one critical. -/
theorem exclusive_set (h : Single w vs) (hv : vs[n]? = some v)
    (hcrit : v'.critical = true → v.critical = true ∨ ∀ u ∈ vs, u.critical = false)
    (i j : ℕ) (a b : View) (ha : (vs.set n v')[i]? = some a) (hb : (vs.set n v')[j]? = some b)
    (hac : a.critical = true) (hbc : b.critical = true) : i = j := by
  have hn := (List.getElem?_eq_some_iff.mp hv).1
  have hother : ∀ (m : ℕ) (u : View), m ≠ n → vs[m]? = some u → u.critical = true →
      v'.critical = true → False := by
    intro m u hm hu huc hv'
    rcases hcrit hv' with hvc | hnone
    · exact hm (h.exclusive m n u v hu hv huc hvc)
    · rw [hnone u (List.mem_of_getElem? hu)] at huc
      cases huc
  by_cases hi : n = i
  · by_cases hj : n = j
    · exact hi.symm.trans hj
    · subst hi
      rw [List.getElem?_set_self hn] at ha
      rw [List.getElem?_set_ne hj] at hb
      cases ha
      exact (hother j b (Ne.symm hj) hb hbc hac).elim
  · rw [List.getElem?_set_ne hi] at ha
    by_cases hj : n = j
    · subst hj
      rw [List.getElem?_set_self hn] at hb
      cases hb
      exact (hother i a (Ne.symm hi) ha hac hbc).elim
    · rw [List.getElem?_set_ne hj] at hb
      exact h.exclusive i j a b ha hb hac hbc

/-- A section that spawns nothing and leaves the map alone. -/
theorem Single.shrink (h : Single w vs) (hv : vs[n]? = some v)
    (halive : ∀ p, t.Alive p → w.Alive p) (hlen : t.engines.length = w.engines.length)
    (hchild : t.child = w.child) (hup : t.up = true → ∃ p, t.child = some p ∧ t.Alive p)
    (hcrit : v'.critical = true →
      v.critical = true ∨ (∀ u ∈ vs, u.critical = false) ∧ w.child = none)
    (hreaped : v' = .reaped → ∀ p, ¬ t.Alive p)
    (hspawned : ∀ p, v' = .spawned p → v = .spawned p)
    (htaken : ∀ p since, v' = .taken p since → v = .taken p since)
    (hlose : ∀ p, (v = .spawned p ∨ ∃ since, v = .taken p since) → v' = v ∨ ¬ t.Alive p) :
    Single t (vs.set n v') := by
  have hmem : ∀ {u}, u ∈ vs.set n v' → u = v' ∨ u ∈ vs := fun hu =>
    (List.mem_or_eq_of_mem_set hu).symm
  have hself : v' ∈ vs.set n v' := List.mem_set (List.getElem?_eq_some_iff.mp hv).1 v'
  have hstays : ∀ {u} p, (u = .spawned p ∨ ∃ since, u = .taken p since) → t.Alive p →
      u ∈ vs → u ∈ vs.set n v' := by
    intro u p hu hp hmem
    by_cases huv : u = v
    · rcases hlose p (huv ▸ hu) with hv' | hdead
      · rw [huv, ← hv']
        exact hself
      · exact (hdead hp).elim
    · exact mem_set_of_ne hmem hv huv
  have hspawned' : ∀ p, .spawned p ∈ vs.set n v' → .spawned p ∈ vs := by
    intro p hp
    rcases hmem hp with heq | hold
    · rw [← hspawned p heq.symm]
      exact List.mem_of_getElem? hv
    · exact hold
  constructor
  · exact fun p q hp hq => h.one p q (halive p hp) (halive q hq)
  · intro p hp
    rcases h.kept p (halive p hp) with hc | hs | ⟨since, ht⟩
    · exact .inl (hchild.trans hc)
    · exact .inr (.inl (hstays p (.inl rfl) hp hs))
    · exact .inr (.inr ⟨since, hstays p (.inr ⟨since, rfl⟩) hp ht⟩)
  · intro p hp
    rw [hchild] at hp
    obtain ⟨hlt, hq⟩ := h.mapped p hp
    exact ⟨hlen ▸ hlt, fun q hq' => hq q (halive q hq')⟩
  · exact hup
  · exact fun i j a b => exclusive_set h hv (fun hc => (hcrit hc).imp_right And.left) i j a b
  · intro u hu huc
    rw [hchild]
    rcases hmem hu with rfl | hold
    · rcases hcrit huc with hvc | ⟨-, hnone⟩
      · exact h.vacant v (List.mem_of_getElem? hv) hvc
      · exact hnone
    · exact h.vacant u hold huc
  · intro hr p hp
    rcases hmem hr with heq | hold
    · exact hreaped heq.symm p hp
    · exact h.reaped hold p (halive p hp)
  · intro p hp
    obtain ⟨hlt, hq⟩ := h.spawned p (hspawned' p hp)
    exact ⟨hlen ▸ hlt, fun q hq' => hq q (halive q hq')⟩
  · intro p since hp
    have hold : .taken p since ∈ vs := by
      rcases hmem hp with heq | hold
      · rw [← htaken p since heq.symm]
        exact List.mem_of_getElem? hv
      · exact hold
    obtain ⟨hlt, hne, hnot⟩ := h.taken p since hold
    exact ⟨hlen ▸ hlt, hchild ▸ hne, fun hs => hnot (hspawned' p hs)⟩

/-- A section that changes no process, not the map, and nothing in the hand of its call. -/
theorem Single.rest (h : Single w vs) (hv : vs[n]? = some v)
    (hengines : t.engines = w.engines) (hchild : t.child = w.child) (hup : t.up = w.up)
    (hv' : v' = v ∨ v' = .idle ∧ ∀ p, v ≠ .spawned p ∧ ∀ since, v ≠ .taken p since) :
    Single t (vs.set n v') := by
  have halive : ∀ p, t.Alive p ↔ w.Alive p := fun p => by rw [World.Alive, hengines, World.Alive]
  refine h.shrink hv (fun p => (halive p).mp) (by rw [hengines]) hchild (fun hu => ?_)
    (fun hc => ?_) (fun hr p hp => ?_) (fun p hs => ?_) (fun p since hs => ?_)
    (fun p hs => ?_)
  · obtain ⟨p, hp, hpa⟩ := h.up (hup ▸ hu)
    exact ⟨p, hchild.trans hp, (halive p).mpr hpa⟩
  · rcases hv' with rfl | ⟨rfl, -⟩
    · exact .inl hc
    · cases hc
  · rcases hv' with rfl | ⟨rfl, -⟩
    · exact h.reaped (hr ▸ List.mem_of_getElem? hv) p ((halive p).mp hp)
    · cases hr
  · rcases hv' with rfl | ⟨rfl, -⟩
    · exact hs
    · cases hs
  · rcases hv' with rfl | ⟨rfl, -⟩
    · exact hs
    · cases hs
  · rcases hv' with rfl | ⟨rfl, hne⟩
    · exact .inl rfl
    · rcases hs with hs | ⟨since, hs⟩
      · exact ((hne p).1 hs).elim
      · exact ((hne p).2 since hs).elim

/-- A start that has reaped spawns the only engine that is alive. -/
theorem Single.spawn (h : Single w vs) (hv : vs[n]? = some .reaped) :
    Single { w with engines := w.engines ++ [true] }
      (vs.set n (.spawned w.engines.length)) := by
  have hmem := List.mem_of_getElem? hv
  have hdead := h.reaped hmem
  have halive : ∀ p, (World.Alive { w with engines := w.engines ++ [true] } p) →
      p = w.engines.length := by
    intro p hp
    by_contra hne
    have hlt : p < w.engines.length := by
      have hlen := lt_of_alive hp
      rw [List.length_append, List.length_singleton] at hlen
      omega
    rw [World.Alive, List.getElem?_append_left hlt] at hp
    exact hdead p hp
  have hset : ∀ {u}, u ∈ vs.set n (.spawned w.engines.length) →
      u = .spawned w.engines.length ∨ u ∈ vs := fun hu => (List.mem_or_eq_of_mem_set hu).symm
  have hlen : w.engines.length < (w.engines ++ [true]).length := by simp
  constructor
  · exact fun p q hp hq => (halive p hp).trans (halive q hq).symm
  · intro p hp
    rw [halive p hp]
    exact .inr (.inl (List.mem_set (List.getElem?_eq_some_iff.mp hv).1 _))
  · intro p hp
    cases (h.vacant _ hmem rfl).symm.trans hp
  · intro hup
    obtain ⟨p, hp, -⟩ := h.up hup
    cases (h.vacant _ hmem rfl).symm.trans hp
  · exact fun i j a b => exclusive_set h hv (fun _ => .inl rfl) i j a b
  · exact fun _ _ _ => h.vacant _ hmem rfl
  · intro hr
    rcases hset hr with heq | hold
    · cases heq
    · -- a second start that has reaped would be critical too
      obtain ⟨m, hm⟩ := List.mem_iff_getElem?.mp hr
      have hmn : n ≠ m := by
        rintro rfl
        rw [List.getElem?_set_self (List.getElem?_eq_some_iff.mp hv).1] at hm
        cases hm
      rw [List.getElem?_set_ne hmn] at hm
      exact (hmn (h.exclusive n m _ _ hv hm rfl rfl)).elim
  · intro p hp
    rcases hset hp with heq | hold
    · cases heq
      exact ⟨hlen, halive⟩
    · have hlt := (h.spawned p hold).1
      obtain ⟨m, hm⟩ := List.mem_iff_getElem?.mp hold
      have hmn := h.exclusive n m _ _ hv hm rfl rfl
      subst hmn
      cases hv.symm.trans hm
  · intro p since hp
    rcases hset hp with heq | hold
    · cases heq
    · obtain ⟨⟨hlt, hle⟩, hne, hnot⟩ := h.taken p since hold
      refine ⟨⟨hlt, hle.trans hlen.le⟩, hne, fun hs => ?_⟩
      rcases hset hs with heq | hold'
      · cases heq
        exact (lt_of_lt_of_le hlt hle).false
      · exact hnot hold'

/-- The process that a start has spawned is put into the map. -/
theorem Single.insert {p : ℕ} (h : Single w vs) (hv : vs[n]? = some (.spawned p)) :
    Single { w with child := some p } (vs.set n .idle) := by
  have hmem := List.mem_of_getElem? hv
  obtain ⟨hlt, hq⟩ := h.spawned p hmem
  have hset : ∀ {u}, u ∈ vs.set n .idle → u = .idle ∨ u ∈ vs := fun hu =>
    (List.mem_or_eq_of_mem_set hu).symm
  have hnone : ∀ u ∈ vs.set n .idle, u.critical = true → False := by
    intro u hu huc
    obtain ⟨m, hm⟩ := List.mem_iff_getElem?.mp hu
    have hmn : n ≠ m := by
      rintro rfl
      rw [List.getElem?_set_self (List.getElem?_eq_some_iff.mp hv).1] at hm
      cases hm
      cases huc
    rw [List.getElem?_set_ne hmn] at hm
    exact hmn (h.exclusive n m _ u hv hm rfl huc)
  constructor
  · exact h.one
  · intro q hqa
    exact .inl (congrArg some (hq q hqa).symm)
  · intro q hqc
    cases hqc
    exact ⟨hlt, hq⟩
  · intro hup
    obtain ⟨q, hqc, -⟩ := h.up hup
    cases (h.vacant _ hmem rfl).symm.trans hqc
  · exact fun i j a b => exclusive_set h hv (fun hc => (by cases hc)) i j a b
  · exact fun u hu huc => (hnone u hu huc).elim
  · exact fun hr => (hnone _ hr rfl).elim
  · exact fun q hs => (hnone _ hs rfl).elim
  · intro q since hqt
    rcases hset hqt with heq | hold
    · cases heq
    · obtain ⟨hlt', -, hnot⟩ := h.taken q since hold
      refine ⟨hlt', fun hqp => ?_, fun hs => (hnone _ hs rfl).elim⟩
      cases hqp
      exact hnot hmem

/-- The child is taken out of the map, if there is one. -/
theorem Single.take (h : Single w vs) (hv : vs[n]? = some .idle)
    (hv' : v' = w.child.elim .idle fun p => .taken p w.engines.length) :
    Single { w with child := none, up := false } (vs.set n v') := by
  have hset : ∀ {u}, u ∈ vs.set n v' → u = v' ∨ u ∈ vs := fun hu =>
    (List.mem_or_eq_of_mem_set hu).symm
  have hcrit : v'.critical = false := by
    rw [hv']
    cases w.child <;> rfl
  have hspawned : ∀ p, .spawned p ∈ vs.set n v' → .spawned p ∈ vs := by
    intro p hp
    rcases hset hp with heq | hold
    · rw [← heq] at hcrit
      cases hcrit
    · exact hold
  constructor
  · exact h.one
  · intro p hp
    rcases h.kept p hp with hc | hs | ⟨since, ht⟩
    · refine .inr (.inr ⟨w.engines.length, ?_⟩)
      rw [hv', hc]
      exact List.mem_set (List.getElem?_eq_some_iff.mp hv).1 _
    · exact .inr (.inl (mem_set_of_ne hs hv (by simp)))
    · exact .inr (.inr ⟨since, mem_set_of_ne ht hv (by simp)⟩)
  · intro p hp
    cases hp
  · intro hup
    cases hup
  · refine fun i j a b => exclusive_set h hv (fun hc => ?_) i j a b
    rw [hcrit] at hc
    cases hc
  · exact fun _ _ _ => rfl
  · intro hr
    rcases hset hr with heq | hold
    · rw [← heq] at hcrit
      cases hcrit
    · exact h.reaped hold
  · exact fun p hp => h.spawned p (hspawned p hp)
  · intro p since hp
    rcases hset hp with heq | hold
    · obtain ⟨hchild, rfl⟩ : w.child = some p ∧ w.engines.length = since := by
        cases hc : w.child with
        | none =>
            rw [hc] at hv'
            cases heq.trans hv'
        | some q =>
            rw [hc] at hv'
            cases heq.trans hv'
            exact ⟨rfl, rfl⟩
      refine ⟨⟨(h.mapped p hchild).1, le_rfl⟩, by simp, fun hs => ?_⟩
      cases (h.vacant _ (hspawned p hs) rfl).symm.trans hchild
    · obtain ⟨hlt, -, hnot⟩ := h.taken p since hold
      exact ⟨hlt, by simp, fun hs => hnot (hspawned p hs)⟩

/-- A child that has exited is taken out of the map by whoever looks. -/
theorem Single.drop (h : Single w vs) {p : ℕ} (hp : w.child = some p) (hdead : ¬ w.Alive p) :
    Single { w with child := none } vs := by
  constructor
  · exact h.one
  · intro q hq
    rcases h.kept q hq with hc | hrest
    · cases hp.symm.trans hc
      exact (hdead hq).elim
    · exact .inr hrest
  · intro q hq
    cases hq
  · intro hup
    obtain ⟨q, hq, hqa⟩ := h.up hup
    cases hp.symm.trans hq
    exact (hdead hqa).elim
  · exact h.exclusive
  · exact fun _ _ _ => rfl
  · exact h.reaped
  · exact h.spawned
  · intro q since hq
    obtain ⟨hlt, -, hnot⟩ := h.taken q since hq
    exact ⟨hlt, by simp, hnot⟩

end Single

/-! ## One section -/

/-- A start that finds a child finds a live one, and one that finds none is alone between
its look at the map and its insert. -/
def Looks (w : World) (vs : List View) : Op → Prop
  | .check =>
      match w.child with
      | some p => w.Alive p
      | none => ∀ v ∈ vs, v.critical = false
  | _ => True

section Exec

variable {w : World} {vs : List View} {n : ℕ} {v : View} {op : Op}

theorem alive_die {p q : ℕ} (h : (w.die p).Alive q) : w.Alive q := by
  simp only [World.Alive, World.die] at h ⊢
  rw [List.getElem?_set] at h
  split at h
  · split at h <;> cases h
  · exact h

theorem not_alive_die (p : ℕ) : ¬ (w.die p).Alive p := by
  unfold World.Alive World.die
  intro h
  rw [List.getElem?_set, if_pos rfl] at h
  split at h <;> cases h

theorem alive_die_of_ne {p q : ℕ} (h : w.Alive q) (hne : q ≠ p) : (w.die p).Alive q := by
  unfold World.Alive World.die
  rw [List.getElem?_set_ne (Ne.symm hne)]
  exact h

theorem not_anyAlive (h : w.anyAlive = false) (p : ℕ) : ¬ w.Alive p := by
  intro hp
  have hmem := List.mem_of_getElem? hp
  rw [World.anyAlive, List.any_eq_false] at h
  exact h true hmem rfl

/-- A process in the hand of a stop dies. -/
theorem single_die {p since : ℕ} (h : Single w vs) (hv : vs[n]? = some (.taken p since)) :
    Single (w.die p) (vs.set n .idle) := by
  have hne := (h.taken p since (List.mem_of_getElem? hv)).2.1
  refine h.shrink hv (fun q => alive_die) (by simp [World.die]) rfl (fun hup => ?_)
    (fun hc => (by cases hc)) (fun hr => (by cases hr)) (fun q hq => (by cases hq))
    (fun q since hq => (by cases hq)) (fun q hq => .inr ?_)
  · obtain ⟨q, hq, hqa⟩ := h.up hup
    refine ⟨q, hq, alive_die_of_ne hqa ?_⟩
    rintro rfl
    exact hne hq
  · rcases hq with hq | ⟨since', hq⟩
    · cases hq
    · cases hq
      exact not_alive_die p

/-- Nothing but the view of the call changes, and it stands for no process. -/
theorem Single.look (h : Single w vs) (hv : vs[n]? = some v) {v' : View}
    (hsame : ∀ p, v ≠ .spawned p ∧ ∀ since, v ≠ .taken p since)
    (hsame' : ∀ p, v' ≠ .spawned p ∧ ∀ since, v' ≠ .taken p since)
    (hcrit : v'.critical = true →
      v.critical = true ∨ (∀ u ∈ vs, u.critical = false) ∧ w.child = none)
    (hreaped : v' = .reaped → ∀ p, ¬ w.Alive p) : Single w (vs.set n v') := by
  refine h.shrink hv (fun _ hp => hp) rfl rfl h.up hcrit hreaped
    (fun p hp => ((hsame' p).1 hp).elim) (fun p since hp => ((hsame' p).2 since hp).elim)
    (fun p hp => ?_)
  rcases hp with hp | ⟨since, hp⟩
  · exact ((hsame p).1 hp).elim
  · exact ((hsame p).2 since hp).elim

theorem single_exec (h : Single w vs) (hv : vs[n]? = some op.needs) (hlooks : Looks w vs op)
    (o : Oracle) :
    Single (w.exec o op).1 (vs.set n (after ⟨op, (w.exec o op).2⟩)) := by
  cases op with
  | check =>
      cases hc : w.child with
      | none =>
          simp only [Looks, hc] at hlooks
          simp only [World.exec, hc]
          exact h.look hv (by simp [Op.needs]) (by simp [after]) (fun _ => .inr ⟨hlooks, hc⟩)
            (by simp [after])
      | some p =>
          simp only [Looks, hc] at hlooks
          simp only [World.exec, hc, Option.isSome_some, if_true]
          refine h.shrink hv (fun _ hp => hp) rfl hc.symm (fun _ => ⟨p, rfl, hlooks⟩)
            (fun hcr => (by cases hcr)) (by simp [after]) (by simp [after]) (by simp [after])
            (by simp [Op.needs])
  | provision =>
      refine h.look hv (by simp [Op.needs]) ?_ (fun _ => .inl rfl) ?_
      all_goals
        simp only [World.exec]
        cases o.works <;> simp [after]
  | reapTerm =>
      simp only [World.exec]
      cases hany : w.anyAlive with
      | true => exact h.look hv (by simp [Op.needs]) (by simp [after]) (fun _ => .inl rfl) (by simp [after])
      | false =>
          exact h.look hv (by simp [Op.needs]) (by simp [after]) (fun _ => .inl rfl)
            fun _ => not_anyAlive hany
  | reapPoll =>
      simp only [World.exec]
      split
      · exact h.look hv (by simp [Op.needs]) (by simp [after]) (fun _ => .inl rfl) (by simp [after])
      · cases hany : w.anyAlive with
        | true =>
            exact h.look hv (by simp [Op.needs]) (by simp [after]) (fun _ => .inl rfl) (by simp [after])
        | false =>
            exact h.look hv (by simp [Op.needs]) (by simp [after]) (fun _ => .inl rfl)
              fun _ => not_anyAlive hany
  | reapKill =>
      have hdead : ∀ p, ¬ World.Alive (w.exec o .reapKill).1 p := by
        intro p hp
        simp only [World.Alive, World.exec, List.getElem?_map] at hp
        obtain ⟨b, -, hb⟩ := Option.map_eq_some_iff.mp hp
        cases hb
      refine h.shrink hv (fun p hp => (hdead p hp).elim) (by simp [World.exec]) rfl (fun hup => ?_)
        (fun _ => .inl rfl) (fun _ => hdead) (by simp [after]) (by simp [after]) (by simp [Op.needs])
      -- a start that found no child is under way, so nothing is up
      obtain ⟨p, hp, -⟩ := h.up hup
      cases (h.vacant _ (List.mem_of_getElem? hv) rfl).symm.trans hp
  | removeSocket =>
      exact h.rest hv rfl rfl rfl (.inl rfl)
  | spawn =>
      simp only [World.exec]
      split
      · exact h.spawn hv
      · exact h.rest hv rfl rfl rfl (.inr ⟨rfl, by simp [Op.needs]⟩)
  | insert p =>
      exact h.insert hv
  | probe =>
      simp only [World.exec]
      split
      · exact h.rest hv rfl rfl rfl (.inl rfl)
      · split
        · rename_i hanswer
          simp only [Bool.and_eq_true, Option.any_eq_true, decide_eq_true_eq] at hanswer
          obtain ⟨⟨q, -, hq⟩, -⟩ := hanswer
          refine h.shrink hv (fun _ hp => hp) rfl rfl (fun hup => ?_) (fun hc => (by cases hc))
            (by simp [after]) (by simp [after]) (by simp [after]) (by simp [Op.needs])
          rcases Bool.or_eq_true _ _ ▸ hup with hup | hsome
          · exact h.up hup
          · -- the engine that answers is the one in the map
            obtain ⟨p, hp⟩ := Option.isSome_iff_exists.mp hsome
            refine ⟨p, hp, ?_⟩
            rw [← (h.mapped p hp).2 q hq]
            exact hq
        · exact h.rest hv rfl rfl rfl (.inl rfl)
  | tryWait =>
      exact h.rest hv rfl rfl rfl (.inl rfl)
  | take =>
      refine h.take hv ?_
      simp only [World.exec]
      cases w.child <;> rfl
  | wait p since =>
      simp only [World.exec]
      split
      · split
        · exact single_die h hv
        · exact h.rest hv rfl rfl rfl (.inl rfl)
      · rename_i hdead
        refine h.shrink hv (fun _ hq => hq) rfl rfl h.up (fun hc => (by cases hc))
          (by simp [after]) (by simp [after]) (by simp [after]) (fun q hq => .inr ?_)
        rcases hq with hq | ⟨since', hq⟩
        · cases hq
        · cases hq
          exact hdead
  | kill p since =>
      exact single_die h hv
  | unlink since =>
      exact h.rest hv rfl rfl rfl (.inl rfl)
  | removeDirs since =>
      exact h.rest hv rfl rfl rfl (.inl rfl)
  | look =>
      simp only [World.exec]
      split
      · exact h.rest hv rfl rfl rfl (.inl rfl)
      · split
        · split
          · rename_i p hc _ hexited
            have hdead : ¬ w.Alive p := by
              simpa [World.childExited, hc] using hexited
            exact (h.rest hv rfl rfl rfl (.inl rfl)).drop hc hdead
          · exact h.rest hv rfl rfl rfl (.inl rfl)
        · exact h.rest hv rfl rfl rfl (.inl rfl)
  | exit p =>
      refine h.shrink hv (fun q hq => alive_die hq) (by simp [World.exec, World.die]) rfl
        (fun hup => ?_) (fun hc => (by cases hc)) (by simp [after]) (by simp [after])
        (by simp [after]) (by simp [Op.needs])
      have hup' : w.up = true ∧ w.child ≠ some p := by simpa [World.exec] using hup
      obtain ⟨q, hq, hqa⟩ := h.up hup'.1
      refine ⟨q, hq, alive_die_of_ne hqa ?_⟩
      rintro rfl
      exact hup'.2 hq
  | bind p =>
      simp only [World.exec]
      split
      · exact h.rest hv rfl rfl rfl (.inl rfl)
      · exact h.rest hv rfl rfl rfl (.inl rfl)

end Exec

/-! ## Whole runs -/

/-- What the calls have in hand. -/
def views (s : State) : List View := s.calls.map fun c => view c.past

/-- No engine was spawned since the stop that removes the socket looked at the map. -/
def Clears (w : World) : Op → Prop
  | .unlink since | .removeDirs since => w.engines.length = since
  | _ => True

def Careful (s : State) : Event → Prop
  | .start _ => True
  | .step n _ =>
      match (s.calls[n]?).map Call.rest with
      | some (.act op _) => Looks s.shared (views s) op ∧ Clears s.shared op
      | _ => True

/-- A stop waits for, kills, and removes the socket of, no engine that was spawned after it
took its child out. -/
def Spares (s : State) : Event → Prop
  | .start _ => True
  | .step n _ =>
      match (s.calls[n]?).map Call.rest with
      | some (.act (.wait p since) _) | some (.act (.kill p since) _) => p < since
      | some (.act (.unlink since) _) | some (.act (.removeDirs since) _) =>
          ∀ p, s.shared.socket = some p → p < since
      | _ => True

/-- What holds between all calls. -/
structure Sound (s : State) : Prop where
  obeys : ∀ (n : ℕ) (c : Call Request Op.Answer Reply), s.calls[n]? = some c →
    c.rest.Obeys Performs Returns c.past
  single : Single s.shared (views s)
  socket : ∀ p, s.shared.socket = some p → p < s.shared.engines.length

section Runs

variable {limits : Limits} {s : State}

theorem sound_idle : Sound (Calls.idle World.start) := by
  have halive : ∀ p, ¬ World.start.Alive p := fun p hp => (by cases hp)
  refine ⟨fun n c hc => (by cases hc), ?_, fun p hp => (by cases hp)⟩
  constructor
  · exact fun p q hp => (halive p hp).elim
  · exact fun p hp => (halive p hp).elim
  · exact fun p hp => (by cases hp)
  · exact fun hup => (by cases hup)
  · exact fun m n u v hu => (by cases hu)
  · exact fun v hv => (by cases hv)
  · exact fun hr => (by cases hr)
  · exact fun p hp => (by cases hp)
  · exact fun p since hp => (by cases hp)

/-- A call that has done nothing has nothing in hand. -/
theorem Single.append_idle {w : World} {vs : List View} (h : Single w vs) :
    Single w (vs ++ [.idle]) := by
  have hmem : ∀ {v}, v ≠ .idle → v ∈ vs ++ [.idle] → v ∈ vs := by
    intro v hne hv
    rcases List.mem_append.mp hv with hold | hnew
    · exact hold
    · exact (hne (List.mem_singleton.mp hnew)).elim
  have hcrit : ∀ {v : View}, v.critical = true → v ≠ .idle := by
    rintro v hv rfl
    cases hv
  constructor
  · exact h.one
  · intro p hp
    rcases h.kept p hp with hc | hs | ⟨since, ht⟩
    · exact .inl hc
    · exact .inr (.inl (List.mem_append_left _ hs))
    · exact .inr (.inr ⟨since, List.mem_append_left _ ht⟩)
  · exact h.mapped
  · exact h.up
  · intro m n u v hu hv huc hvc
    have hold : ∀ {i : ℕ} {u : View}, (vs ++ [View.idle])[i]? = some u → u.critical = true →
        vs[i]? = some u := by
      intro i u hi hc
      rw [List.getElem?_append] at hi
      split at hi
      · exact hi
      · have hlast := List.mem_of_getElem? hi
        exact (hcrit hc (List.mem_singleton.mp hlast)).elim
    exact h.exclusive m n u v (hold hu huc) (hold hv hvc) huc hvc
  · exact fun v hv hvc => h.vacant v (hmem (hcrit hvc) hv) hvc
  · exact fun hr => h.reaped (hmem (by simp) hr)
  · exact fun p hp => h.spawned p (hmem (by simp) hp)
  · intro p since hp
    obtain ⟨hlt, hne, hnot⟩ := h.taken p since (hmem (by simp) hp)
    exact ⟨hlt, hne, fun hs => hnot (hmem (by simp) hs)⟩

theorem length_le_exec (w : World) (op : Op) (o : Oracle) :
    w.engines.length ≤ (w.exec o op).1.engines.length := by
  cases op with
  | spawn =>
      simp only [World.exec]
      split
      · simp
      · exact le_rfl
  | _ =>
      simp only [World.exec]
      repeat' split
      all_goals simp [World.die]

/-- A section leaves the socket, removes it, or gives it to an engine that is alive. -/
theorem socket_exec (w : World) (op : Op) (o : Oracle) :
    (w.exec o op).1.socket = w.socket ∨ (w.exec o op).1.socket = none ∨
      ∃ p, (w.exec o op).1.socket = some p ∧ w.Alive p := by
  cases op with
  | removeSocket => exact .inr (.inl rfl)
  | unlink since => exact .inr (.inl rfl)
  | removeDirs since => exact .inr (.inl rfl)
  | bind p =>
      simp only [World.exec]
      split
      · rename_i hp
        exact .inr (.inr ⟨p, rfl, hp.1⟩)
      · exact .inl rfl
  | _ =>
      refine .inl ?_
      simp only [World.exec]
      repeat' split
      all_goals rfl

theorem sound_step {e : Event} (h : Sound s) (he : Careful s e) :
    Sound (s.step (service limits) e) := by
  rcases Calls.step_cases (M := service limits) s e with
    ⟨x, rfl, hx⟩ | ⟨n, o, c, t, d, rfl, hc, hp, hx⟩ | hx
  · rw [hx]
    refine ⟨fun n c hc => ?_, ?_, h.socket⟩
    · rcases List.mem_append.mp (List.mem_of_getElem? hc) with hold | hnew
      · obtain ⟨m, hm⟩ := List.mem_iff_getElem?.mp hold
        exact h.obeys m c hm
      · rw [List.mem_singleton.mp hnew]
        exact obeys_body limits x
    · have hviews : views ⟨s.shared, s.calls ++ [(service limits).call x]⟩ = views s ++ [.idle] := by
        simp [views, Service.call, view]
      rw [hviews]
      exact h.single.append_idle
  · obtain ⟨op, k, a, hrest, hexec, rfl⟩ := Call.perform_eq_some_iff.mp hp
    have hpair : s.shared.exec o op = (t, a) := Option.some.inj hexec
    have hobeys := h.obeys n c hc
    rw [hrest] at hobeys
    simp only [Careful, hc, Option.map_some, hrest] at he
    have hview : (views s)[n]? = some op.needs := by
      rw [views, List.getElem?_map, hc, Option.map_some, hobeys.1]
    rw [hx]
    refine ⟨fun m b hb => ?_, ?_, fun p hp => ?_⟩
    · by_cases hm : n = m
      · subst hm
        rw [List.getElem?_set_self (List.getElem?_eq_some_iff.mp hc).1] at hb
        cases hb
        exact hobeys.2 a
      · rw [List.getElem?_set_ne hm] at hb
        exact h.obeys m b hb
    · have hsingle := single_exec h.single hview he.1 o
      rw [hpair] at hsingle
      rw [views, List.map_set]
      exact hsingle
    · have hlen := length_le_exec s.shared op o
      have hsocket := socket_exec s.shared op o
      rw [hpair] at hlen hsocket
      rcases hsocket with hsame | hnone | ⟨q, hq, hqa⟩
      · exact lt_of_lt_of_le (h.socket p (hsame ▸ hp)) hlen
      · cases hnone.symm.trans hp
      · cases hq.symm.trans hp
        exact lt_of_lt_of_le (lt_of_alive hqa) hlen
  · rw [hx]
    exact h

theorem spares_of_sound {e : Event} (h : Sound s) (he : Careful s e) : Spares s e := by
  cases e with
  | start x => trivial
  | step n o =>
      cases hc : s.calls[n]? with
      | none => simp [Spares, hc]
      | some c =>
          have hobeys := h.obeys n c hc
          cases hrest : c.rest with
          | done r => simp [Spares, hc, hrest]
          | act op k =>
              rw [hrest] at hobeys
              simp only [Careful, hc, Option.map_some, hrest] at he
              have htaken : ∀ {p since}, op.needs = .taken p since → p < since := by
                intro p since hop
                refine (h.single.taken p since (List.mem_of_getElem? (i := n) ?_)).1.1
                rw [views, List.getElem?_map, hc, Option.map_some, hobeys.1, hop]
              simp only [Spares, hc, Option.map_some, hrest]
              cases op with
              | wait p since => exact htaken rfl
              | kill p since => exact htaken rfl
              | unlink since => exact fun p hp => he.2 ▸ h.socket p hp
              | removeDirs since => exact fun p hp => he.2 ▸ h.socket p hp
              | _ => trivial

/-- In every run in which a start that finds a child finds a live one, starts do not overlap
between the look at the map and the insert, and no engine is spawned while a stop is about
to remove the socket: at most one engine is alive, it is in the map or in the hand of the
call that spawned it or took it out, an engine that was reported as started and was not
stopped since and has not exited is alive and in the map, and no stop touches an engine
that was spawned after it took its child out. -/
theorem one_engine {x : List Event}
    (hx : Run.Always (Calls.step (service limits)) Careful (Calls.idle World.start) x) :
    let s := Run.run (Calls.step (service limits)) (Calls.idle World.start) x
    (∀ p q, s.shared.Alive p → s.shared.Alive q → p = q) ∧
      (∀ p, s.shared.Alive p → s.shared.child = some p ∨
        ∃ c ∈ s.calls, view c.past = .spawned p ∨ ∃ since, view c.past = .taken p since) ∧
      (s.shared.up = true → ∃ p, s.shared.child = some p ∧ s.shared.Alive p) ∧
      Run.Always (Calls.step (service limits)) Spares (Calls.idle World.start) x := by
  intro s
  have hs : Sound s := Run.invariant (fun _ _ hs he => sound_step hs he) sound_idle hx
  refine ⟨hs.single.one, fun p hp => ?_, hs.single.up,
    Run.always_of_invariant (fun _ _ hs he => sound_step hs he)
      (fun _ _ hs he => spares_of_sound hs he) sound_idle hx⟩
  rcases hs.single.kept p hp with hc | hspawned | ⟨since, htaken⟩
  · exact .inl hc
  · obtain ⟨c, hc, hview⟩ := List.mem_map.mp hspawned
    exact .inr ⟨c, hc, .inl hview⟩
  · obtain ⟨c, hc, hview⟩ := List.mem_map.mp htaken
    exact .inr ⟨c, hc, .inr ⟨since, hview⟩⟩

end Runs

def shortLimits : Limits := ⟨2, 2⟩

/-- An engine is started and answers, and a stop takes it out of the map. -/
def startedAndTaken : List Event :=
  .start .start :: List.replicate 6 (.step 0 {}) ++
    [.start (.engineBinds 0), .step 1 {}, .step 0 {}, .start .stop, .step 2 {}]

theorem one_engine_startedAndTaken :
    let s := Run.run (Calls.step (service shortLimits)) (Calls.idle World.start) startedAndTaken
    s.shared.Alive 0 ∧ (∀ p q, s.shared.Alive p → s.shared.Alive q → p = q) ∧
      Run.Always (Calls.step (service shortLimits)) Spares (Calls.idle World.start)
        startedAndTaken := by
  have h := @one_engine shortLimits startedAndTaken
    ⟨trivial, ⟨(by decide : ∀ v ∈ [View.idle], v.critical = false), trivial⟩,
      ⟨trivial, trivial⟩, ⟨trivial, trivial⟩, ⟨trivial, trivial⟩, ⟨trivial, trivial⟩,
      ⟨trivial, trivial⟩, trivial, ⟨trivial, trivial⟩, ⟨trivial, trivial⟩, trivial,
      ⟨trivial, trivial⟩, trivial⟩
  exact ⟨by decide +kernel, h.1, h.2.2.2⟩

/-- Two starts find no child before either of them has spawned one. -/
def startedTwice : List Event :=
  [.start .start, .start .start] ++ List.replicate 3 (.step 0 {}) ++
    List.replicate 3 (.step 1 {}) ++ List.replicate 3 (.step 0 {}) ++
    List.replicate 3 (.step 1 {})

/-- The engine exits by itself before it is started again. -/
def startedDead : List Event :=
  .start .start :: List.replicate 6 (.step 0 {}) ++
    [.start (.engineExits 0), .step 1 {}, .start .start, .step 2 {}]

/-- An engine is started while a stop that took out the one before has still to remove the
socket. -/
def startedWhileStopped : List Event :=
  startedAndTaken ++ .step 2 {} :: .start .start :: List.replicate 6 (.step 3 {}) ++
    [.start (.engineBinds 1), .step 4 {}, .step 3 {}]

/-- Two engines are alive, and no call has the first one in hand; a start returned although
the engine in the map is gone; and the next section of a stop removes the socket of an
engine that was started after the stop took its child out, and that answers. -/
theorem starts_race :
    (let s := Run.run (Calls.step (service shortLimits)) (Calls.idle World.start) startedTwice
     s.shared.Alive 0 ∧ s.shared.Alive 1 ∧ s.shared.child = some 1 ∧
        ∀ c ∈ s.calls, view c.past = .idle) ∧
    (let s := Run.run (Calls.step (service shortLimits)) (Calls.idle World.start) startedDead
     (∃ c ∈ s.calls, c.name = .start ∧ c.rest.result? = some .ok) ∧ s.shared.up = true ∧
        ∀ p < s.shared.engines.length, ¬ s.shared.Alive p) ∧
    (let s := Run.run (Calls.step (service shortLimits)) (Calls.idle World.start) startedWhileStopped
     s.shared.Alive 1 ∧ s.shared.socket = some 1 ∧ s.shared.up = true ∧
        ¬ Spares s (.step 2 {}) ∧
        (s.step (service shortLimits) (.step 2 {})).shared.socket = none) := by
  refine ⟨by decide +kernel, by decide +kernel, by decide +kernel, by decide +kernel,
    by decide +kernel, fun h => ?_, by decide +kernel⟩
  exact absurd (h 1 (by decide +kernel)) (by decide)

end Wheel.Host.Sandbox
