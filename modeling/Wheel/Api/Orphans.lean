import Wheel.Api.ProjectCalls

/-!
# No orphan sandbox

A project whose record the host keeps has a row in the store of the API, so that somebody
can see the sandbox, stop it and destroy it. A destroy tears the sandbox down before it
deletes the row, and deletes the row only after the teardown succeeded. What breaks the
order is a call of another request that sends the secrets again: it creates the record of
a project that is being destroyed, or that is gone.
-/

namespace Wheel.Api.Projects

open Concurrency Wheel.Api.Membership

/-- The project whose sandbox the call has just torn down. -/
def tornDown : List (Performed Op.Answer) → Option Uuid
  | ⟨.hostDestroy id, true⟩ :: _ => some id
  | _ => none

/-- No record is put for a project without a row, or between the teardown of its sandbox
and the deletion of its row. -/
def PutsKnown (s : State) : Event → Prop
  | .start _ => True
  | .step n o =>
      match (s.calls[n]?).map Call.rest with
      | some (.act (.hostPut id _ _) _) =>
          o.reached = true →
            (s.shared.row id).isSome ∧ ∀ c ∈ s.calls, tornDown c.past ≠ some id
      | _ => True

/-! ## What a section does to the stores -/

namespace World

variable {w t : World} {o : Oracle} {id k : Uuid}

@[simp] theorem row_setStatus_isSome (id k : Uuid) (status : ProjectStatus) :
    ((w.setStatus id status).row k).isSome = (w.row k).isSome := by
  rw [row, setStatus, Keyed.get?_modify]
  split
  · exact Option.isSome_map
  · rfl

theorem row_deleteRow (id k : Uuid) :
    (w.deleteRow id).row k = if k = id then none else w.row k := by
  show (w.rows.deleteWhere _).get? k = _
  rw [Keyed.get?_deleteWhere]
  cases hk : w.rows.get? k with
  | none => simp [row, hk]
  | some r =>
      have hid : r.id = k := (Keyed.get?_eq_some_iff.mp hk).2
      by_cases h : k = id
      · simp [h, hid]
      · simp [row, h, hid, hk]

/-- All that a section can do to the stores. -/
theorem exec_cases {op : Op} {a : op.Answer} (h : w.exec o op = some (t, a)) :
    t = w ∨
    (∃ r, op = .insert r ∧ r.id ∉ w.used ∧
      t = { w with rows := w.rows.put r, used := r.id :: w.used }) ∨
    (∃ id status, t = w.setStatus id status) ∨
    (∃ id, op = .deleteRow id ∧ t = w.deleteRow id) ∨
    (∃ id e v, op = .hostPut id e v ∧ o.reached = true ∧
      t = { w with host := w.host.upsert id e v }) ∨
    ∃ id, op = .hostDestroy id ∧ t = { w with host := w.host.delete id } := by
  have hfst := congrArg (Option.map Prod.fst) h
  cases op with
  | insert r =>
      simp only [exec] at hfst
      split at hfst
      · cases hfst
      · rename_i hr
        simp only [statement, Option.map_some, Option.some.injEq] at hfst
        split at hfst
        · exact .inl hfst.symm
        · exact .inr (.inl ⟨r, rfl, by simpa using hr, hfst.symm⟩)
  | setStatus id status =>
      simp only [exec, statement, Option.map_some, Option.some.injEq] at hfst
      split at hfst
      · exact .inl hfst.symm
      · exact .inr (.inr (.inl ⟨id, status, hfst.symm⟩))
  | deleteRow id =>
      simp only [exec, statement, Option.map_some, Option.some.injEq] at hfst
      split at hfst
      · exact .inl hfst.symm
      · exact .inr (.inr (.inr (.inl ⟨id, rfl, hfst.symm⟩)))
  | hostPut id e v =>
      simp only [exec, Option.map_some, Option.some.injEq] at hfst
      split at hfst
      · rename_i hr
        exact .inr (.inr (.inr (.inr (.inl ⟨id, e, v, rfl, hr, hfst.symm⟩))))
      · exact .inl hfst.symm
  | hostDestroy id =>
      simp only [exec, Option.map_some, Option.some.injEq] at hfst
      split at hfst
      · exact .inr (.inr (.inr (.inr (.inr ⟨id, rfl, hfst.symm⟩))))
      · exact .inl hfst.symm
  | countOwned owner =>
      simp only [exec, statement, Option.map_some, Option.some.injEq] at hfst
      split at hfst <;> exact .inl hfst.symm
  | reload id =>
      simp only [exec, statement, Option.map_some, Option.some.injEq] at hfst
      split at hfst <;> exact .inl hfst.symm
  | _ =>
      simp only [exec, Option.map_some, Option.some.injEq] at hfst
      exact .inl hfst.symm

theorem delete_of_exec (h : w.exec o (.deleteRow id) = some (t, .ok ())) :
    t = w.deleteRow id := by
  simp only [exec, statement, Option.some.injEq] at h
  split at h
  · cases congrArg Prod.snd h
  · exact (congrArg Prod.fst h).symm

theorem destroy_of_exec (h : w.exec o (.hostDestroy id) = some (t, true)) :
    t = { w with host := w.host.delete id } := by
  simp only [exec, Option.some.injEq] at h
  have hreached : o.reached = true := by
    have hsnd := congrArg Prod.snd h
    simp only [Bool.and_eq_true] at hsnd
    exact hsnd.1
  rw [if_pos hreached] at h
  exact (congrArg Prod.fst h).symm

theorem member_of_exec {user : String} {tier : Tier}
    (h : w.exec o (.member id user) = some (t, .ok tier)) : (w.row id).isSome ∧ t = w := by
  simp only [exec, loadMember, Option.some.injEq] at h
  refine ⟨?_, (congrArg Prod.fst h).symm⟩
  have hsnd := congrArg Prod.snd h
  cases hr : w.row id with
  | some r => rfl
  | none =>
      simp only [hr] at hsnd
      split at hsnd <;> cases hsnd

/-! ### What only some sections change -/

/-- Only a put makes a record at the host. -/
theorem host_of_exec {op : Op} {a : op.Answer} (h : w.exec o op = some (t, a))
    (hid : (t.host.get k).isSome) :
    (w.host.get k).isSome ∨ ∃ e v, op = .hostPut k e v ∧ o.reached = true := by
  rcases exec_cases h with rfl | ⟨r, rfl, -, rfl⟩ | ⟨id, status, rfl⟩ | ⟨id, rfl, rfl⟩ |
    ⟨id, e, v, rfl, hr, rfl⟩ | ⟨id, rfl, rfl⟩
  · exact .inl hid
  · exact .inl hid
  · exact .inl hid
  · exact .inl hid
  · by_cases hk : k = id
    · exact .inr ⟨e, v, by rw [hk], hr⟩
    · rw [Host.Store.get_upsert, if_neg hk] at hid
      exact .inl hid
  · rw [Host.Store.get_delete] at hid
    split at hid
    · cases hid
    · exact .inl hid

/-- Only its deletion removes a row. -/
theorem row_kept_of_exec {op : Op} {a : op.Answer} (h : w.exec o op = some (t, a))
    (hk : (w.row k).isSome) : (t.row k).isSome ∨ op = .deleteRow k := by
  rcases exec_cases h with rfl | ⟨r, rfl, -, rfl⟩ | ⟨id, status, rfl⟩ | ⟨id, rfl, rfl⟩ |
    ⟨id, e, v, rfl, hr, rfl⟩ | ⟨id, rfl, rfl⟩
  · exact .inl hk
  · refine .inl ?_
    show ((w.rows.put r).get? k).isSome
    rw [Keyed.get?_put]
    split
    · rfl
    · exact hk
  · exact .inl (by rwa [row_setStatus_isSome])
  · by_cases hid : k = id
    · exact .inr (by rw [hid])
    · exact .inl (by rwa [row_deleteRow, if_neg hid])
  · exact .inl hk
  · exact .inl hk

/-- Only an insert makes a row, and it makes it under an id that was never used. -/
theorem row_of_exec {op : Op} {a : op.Answer} (h : w.exec o op = some (t, a))
    (hk : (t.row k).isSome) : (w.row k).isSome ∨ k ∉ w.used ∧ k ∈ t.used := by
  rcases exec_cases h with rfl | ⟨r, rfl, hr, rfl⟩ | ⟨id, status, rfl⟩ | ⟨id, rfl, rfl⟩ |
    ⟨id, e, v, rfl, hr, rfl⟩ | ⟨id, rfl, rfl⟩
  · exact .inl hk
  · have hput : ((w.rows.put r).get? k).isSome := hk
    rw [Keyed.get?_put] at hput
    split at hput
    · rename_i hid
      exact .inr ⟨hid ▸ hr, hid ▸ List.mem_cons_self⟩
    · exact .inl hput
  · exact .inl (by rwa [row_setStatus_isSome] at hk)
  · rw [row_deleteRow] at hk
    split at hk
    · cases hk
    · exact .inl hk
  · exact .inl hk
  · exact .inl hk

theorem used_of_exec {op : Op} {a : op.Answer} (h : w.exec o op = some (t, a))
    (hk : k ∈ w.used) : k ∈ t.used := by
  rcases exec_cases h with rfl | ⟨r, rfl, hr, rfl⟩ | ⟨id, status, rfl⟩ | ⟨id, rfl, rfl⟩ |
    ⟨id, e, v, rfl, hr, rfl⟩ | ⟨id, rfl, rfl⟩
  · exact hk
  · exact List.mem_cons_of_mem _ hk
  · exact hk
  · exact hk
  · exact hk
  · exact hk

end World

/-! ## What a call performs -/

/-- The caller was found to be a member of the project. -/
def Seen (x : List (Performed Op.Answer)) (id : Uuid) : Prop :=
  ∃ (user : String) (tier : Tier), ⟨.member id user, Except.ok tier⟩ ∈ x

/-- The row of the project was deleted. -/
def Deleted (x : List (Performed Op.Answer)) (id : Uuid) : Prop :=
  ⟨.deleteRow id, Except.ok ()⟩ ∈ x

/-- A row is deleted right after the teardown, by a caller that was a member. -/
def Performs (x : List (Performed Op.Answer)) (op : Op) : Prop :=
  ∀ id, op = .deleteRow id → tornDown x = some id ∧ Seen x id

/-- A destroy succeeds only after it deleted the row. -/
def Returns : Request → List (Performed Op.Answer) → Reply → Prop
  | .destroy _ id, x, .ok _ => Deleted x id
  | _, _, _ => True

/-- A program that deletes no row, whatever it is answered. -/
abbrev Quiet {α : Type} (p : Prog α) : Prop := p.Only fun op => ∀ id, op ≠ .deleteRow id

section Quiet

open Program

variable {α : Type}

theorem quiet_ask {op : Op} (hop : ∀ id, op ≠ .deleteRow id) : Quiet (ask op) :=
  only_perform hop

theorem quiet_sql {x : Prog (Except SqlError α)} (hx : Quiet x) : Quiet (sql x).run := by
  refine hx.bind fun r => ?_
  cases r with
  | ok a => trivial
  | error e => trivial

theorem quiet_host {what : String} {x : Prog Bool} (hx : Quiet x) : Quiet (host what x).run :=
  hx.bind fun _ => trivial

theorem quiet_provision (id : Uuid) (e v : String) (n : ℕ) : Quiet (provision id e v n) := by
  induction n with
  | zero => trivial
  | succ n ih =>
      refine only_act (by simp) fun ok => ?_
      split
      · trivial
      · exact ih

theorem quiet_hostStart (id : Uuid) (n : ℕ) : Quiet (hostStart id n) := by
  induction n using hostStart.induct with
  | case1 => trivial
  | case2 => exact only_perform (by simp)
  | case3 n ih =>
      refine only_act (by simp) fun started => ?_
      split
      · trivial
      · exact ih

theorem quiet_setStatus (id : Uuid) (status : ProjectStatus) :
    Quiet (sql (ask (.setStatus id status))).run := quiet_sql (quiet_ask (by simp))

theorem quiet_observe (id : Uuid) : Quiet (observe id).run := by
  refine Only.run_bind (only_run_lift (quiet_ask (by simp))) fun status => ?_
  exact Only.run_bind (quiet_setStatus id _) fun _ => only_run_pure

theorem quiet_startAndObserve (id : Uuid) : Quiet (startAndObserve id).run := by
  refine Only.run_bind (quiet_setStatus id _) fun _ => ?_
  refine Only.run_bind (only_run_lift (quiet_hostStart id 2)) fun started => ?_
  split
  · exact quiet_observe id
  · exact Only.run_bind (quiet_setStatus id _) fun _ => only_run_throw

theorem quiet_reprovision (id : Uuid) : Quiet (reprovision id).run :=
  Only.run_bind (quiet_ask (by simp)) fun secrets =>
    quiet_host (quiet_provision id secrets.1 secrets.2 3)

theorem quiet_requireAdmin (user : String) (id : Uuid) : Quiet (requireAdmin user id).run := by
  refine Only.run_bind (quiet_ask (by simp)) fun tier => ?_
  split
  · exact only_run_pure
  · exact only_run_throw

theorem quiet_reload (id : Uuid) : Quiet (reload id).run :=
  Only.run_bind (quiet_sql (quiet_ask (by simp))) fun _ => only_run_pure

theorem quiet_bringUp (row : Row) : Quiet (bringUp row).run := by
  refine Only.run_bind (only_run_lift (quiet_provision row.id _ _ 3)) fun provisioned => ?_
  split
  · exact Only.run_bind (only_run_lift (quiet_startAndObserve row.id)) fun _ => only_run_pure
  · exact Only.run_bind (quiet_setStatus row.id _) fun _ => only_run_pure

theorem quiet_createProject (maxPerUser : ℕ) (row : Row) :
    Quiet (createProject maxPerUser row).run := by
  unfold createProject
  split
  · exact only_run_throw
  · refine Only.run_bind (quiet_sql (quiet_ask (by simp))) fun count => ?_
    split
    · exact only_run_throw
    · exact Only.run_bind (quiet_sql (quiet_ask (by simp))) fun row => quiet_bringUp row

theorem quiet_start (user : String) (id : Uuid) : Quiet (start user id).run := by
  refine Only.run_bind (quiet_requireAdmin user id) fun _ => ?_
  refine Only.run_bind (quiet_reprovision id) fun _ => ?_
  exact Only.run_bind (quiet_startAndObserve id) fun _ => quiet_reload id

theorem quiet_stop (user : String) (id : Uuid) : Quiet (stop user id).run := by
  refine Only.run_bind (quiet_requireAdmin user id) fun _ => ?_
  refine Only.run_bind (quiet_host (quiet_ask (by simp))) fun _ => ?_
  exact Only.run_bind (quiet_setStatus id _) fun _ => quiet_reload id

theorem quiet_restart (user : String) (id : Uuid) : Quiet (restart user id).run := by
  refine Only.run_bind (quiet_requireAdmin user id) fun _ => ?_
  refine Only.run_bind (quiet_reprovision id) fun _ => ?_
  refine Only.run_bind (quiet_host (quiet_ask (by simp))) fun _ => ?_
  exact Only.run_bind (quiet_observe id) fun _ => quiet_reload id

theorem obeys_of_quiet {p : Prog Reply} (hp : Quiet p) {request : Request}
    (hr : ∀ user id, request ≠ .destroy user id) (x : List (Performed Op.Answer)) :
    p.Obeys Performs (Returns request) x := by
  refine hp.obeys (fun _ op hop id hid => absurd hid (hop id)) (fun y r => ?_) x
  cases request with
  | destroy user id => exact absurd rfl (hr user id)
  | _ => trivial

end Quiet

theorem performs_of_ne {x : List (Performed Op.Answer)} {op : Op}
    (hop : ∀ id, op ≠ .deleteRow id) : Performs x op := fun id h => absurd h (hop id)

theorem Seen.cons {x : List (Performed Op.Answer)} {id : Uuid} (h : Seen x id)
    (p : Performed Op.Answer) : Seen (p :: x) id := by
  obtain ⟨user, tier, hmem⟩ := h
  exact ⟨user, tier, List.mem_cons_of_mem p hmem⟩

theorem obeys_hostDestroy (id : Uuid) (n : ℕ) {x : List (Performed Op.Answer)}
    (hx : Seen x id) :
    (hostDestroy id n).Obeys Performs
      (fun y ok => ok = true → tornDown y = some id ∧ Seen y id) x := by
  induction n generalizing x with
  | zero => exact fun h => (by cases h)
  | succ n ih =>
      refine ⟨performs_of_ne (by simp), fun ok => ?_⟩
      cases ok with
      | true => exact fun _ => ⟨rfl, hx.cons _⟩
      | false => exact ih (hx.cons _)

theorem obeys_destroyProject {id : Uuid} {x : List (Performed Op.Answer)} (hx : Seen x id) :
    (destroyProject id).run.Obeys Performs (fun y r => r = .ok () → Deleted y id) x := by
  refine Program.Obeys.run_bind
    (Q := fun y r => r = .ok () → tornDown y = some id ∧ Seen y id)
    ((obeys_hostDestroy id 3 hx).bind fun y ok hok => ?_) (fun y _ hy => ?_)
    fun _ _ _ h => (by cases h)
  · cases ok with
    | true => exact fun _ => hok rfl
    | false => exact fun h => (by cases h)
  · refine ⟨fun k hk => ?_, fun a => ?_⟩
    · cases hk
      exact hy rfl
    · cases a with
      | ok u => exact fun _ => List.mem_cons_self
      | error e => exact fun h => (by cases h)

theorem obeys_destroy (user : String) (id : Uuid) :
    (destroy user id).run.Obeys Performs (Returns (.destroy user id)) [] := by
  refine Program.Obeys.run_bind
    (Q := fun x r => r = .ok () → Seen x id) ⟨performs_of_ne (by simp), fun tier => ?_⟩
    (fun x _ hx => ?_) fun _ _ _ => trivial
  · cases tier with
    | error e => exact fun h => (by cases h)
    | ok tier =>
        have hseen : Seen [⟨.member id user, .ok tier⟩] id :=
          ⟨user, tier, List.mem_singleton_self _⟩
        show Program.Obeys _ _ _ (ite _ _ _ : Step Unit).run
        split
        · exact fun _ => hseen
        · exact fun h => (by cases h)
  · exact Program.Obeys.run_bind (obeys_destroyProject (hx rfl)) (fun y _ hy => hy rfl)
      fun _ _ _ => trivial

theorem obeys_body (maxPerUser : ℕ) (request : Request) :
    (request.body maxPerUser).Obeys Performs (Returns request) [] := by
  cases request with
  | create owner name id e v =>
      -- the name of a new row would be evaluated, so the row is made a variable
      rw [Request.body]
      generalize newRow owner name id e v = row
      have hq := quiet_createProject maxPerUser row
      exact obeys_of_quiet hq (by simp) []
  | start user id =>
      have hq := quiet_start user id
      exact obeys_of_quiet hq (by simp) []
  | stop user id =>
      have hq := quiet_stop user id
      exact obeys_of_quiet hq (by simp) []
  | restart user id =>
      have hq := quiet_restart user id
      exact obeys_of_quiet hq (by simp) []
  | destroy user id => exact obeys_destroy user id

/-! ## The invariant -/

/-- The host keeps records of projects with a row only, and a row has an id that was used. -/
structure Accounted (w : World) : Prop where
  known : ∀ id, (w.host.get id).isSome → (w.row id).isSome
  used : ∀ id, (w.row id).isSome → id ∈ w.used

/-- What the past of a call says of the stores. -/
structure Remembers (c : Call Request Op.Answer Reply) (w : World) : Prop where
  obeys : c.rest.Obeys Performs (Returns c.name) c.past
  torn : ∀ id, tornDown c.past = some id → w.host.get id = none
  seen : ∀ id, Seen c.past id → id ∈ w.used
  deleted : ∀ id, Deleted c.past id → id ∈ w.used ∧ w.row id = none

theorem eq_of_tornDown {p : Performed Op.Answer} {x : List (Performed Op.Answer)} {id : Uuid}
    (h : tornDown (p :: x) = some id) : p = ⟨.hostDestroy id, true⟩ := by
  obtain ⟨op, a⟩ := p
  cases op with
  | hostDestroy id' =>
      cases a with
      | true =>
          cases h
          rfl
      | false => cases h
  | _ => cases h

/-- A put is where the condition says something. -/
theorem known_of_putsKnown {s : State} {n : ℕ} {o : Oracle} {c : Call Request Op.Answer Reply}
    {id : Uuid} {e v : String} {k : Bool → Prog Reply} (he : PutsKnown s (.step n o))
    (hc : s.calls[n]? = some c) (hrest : c.rest = .act (.hostPut id e v) k)
    (hr : o.reached = true) :
    (s.shared.row id).isSome ∧ ∀ c ∈ s.calls, tornDown c.past ≠ some id := by
  simp only [PutsKnown, hc, Option.map_some, hrest] at he
  exact he hr

theorem row_eq_none_of_exec {w t : World} {o : Oracle} {op : Op} {a : op.Answer} {id : Uuid}
    (h : w.exec o op = some (t, a)) (hused : id ∈ w.used) (hrow : w.row id = none) :
    t.row id = none := by
  by_contra hne
  rcases World.row_of_exec h (Option.isSome_iff_ne_none.mpr hne) with hsome | ⟨hnot, -⟩
  · rw [hrow] at hsome
    cases hsome
  · exact hnot hused

theorem keeps_accounted (maxPerUser : ℕ) :
    Calls.Keeps (service maxPerUser) Accounted Remembers PutsKnown where
  start _ _ := by
    refine ⟨obeys_body maxPerUser _, fun id h => ?_, fun id h => ?_, fun id h => ?_⟩
    · cases h
    · obtain ⟨user, tier, hmem⟩ := h
      cases hmem
    · cases h
  shared {s n o c t d} hs he hc hp := by
    obtain ⟨op, k, a, hrest, (hexec : s.shared.exec o op = some (t, a)), rfl⟩ :=
      Call.perform_eq_some_iff.mp hp
    have hcall := hs.calls n c hc
    constructor
    · intro id hid
      have hrow : (s.shared.row id).isSome := by
        rcases World.host_of_exec hexec hid with hold | ⟨e, v, rfl, hr⟩
        · exact hs.shared.known id hold
        · exact (known_of_putsKnown he hc hrest hr).1
      rcases World.row_kept_of_exec hexec hrow with hkept | rfl
      · exact hkept
      · -- the row goes, and the record went before it
        have hobeys := hcall.obeys
        rw [hrest] at hobeys
        have hnone := hcall.torn id (hobeys.1 id rfl).1
        rcases World.host_of_exec hexec hid with hold | ⟨e, v, hop, -⟩
        · rw [hnone] at hold
          cases hold
        · cases hop
    · intro id hid
      rcases World.row_of_exec hexec hid with hold | ⟨-, hused⟩
      · exact World.used_of_exec hexec (hs.shared.used id hold)
      · exact hused
  own {s n o c t d} hs he hc hp := by
    obtain ⟨op, k, a, hrest, (hexec : s.shared.exec o op = some (t, a)), rfl⟩ :=
      Call.perform_eq_some_iff.mp hp
    have hcall := hs.calls n c hc
    have hobeys := hcall.obeys
    rw [hrest] at hobeys
    refine ⟨hobeys.2 a, fun id h => ?_, fun id h => ?_, fun id h => ?_⟩
    · cases eq_of_tornDown h
      rw [World.destroy_of_exec hexec, Host.Store.get_delete, if_pos rfl]
    · obtain ⟨user, tier, hmem⟩ := h
      rcases List.mem_cons.mp hmem with heq | hmem
      · cases heq
        obtain ⟨hrow, rfl⟩ := World.member_of_exec hexec
        exact hs.shared.used id hrow
      · exact World.used_of_exec hexec (hcall.seen id ⟨user, tier, hmem⟩)
    · rcases List.mem_cons.mp h with heq | hmem
      · cases heq
        have hseen := hcall.seen id (hobeys.1 id rfl).2
        refine ⟨World.used_of_exec hexec hseen, ?_⟩
        rw [World.delete_of_exec hexec, World.row_deleteRow, if_pos rfl]
      · obtain ⟨hused, hrow⟩ := hcall.deleted id hmem
        exact ⟨World.used_of_exec hexec hused, row_eq_none_of_exec hexec hused hrow⟩
  others {s n o c t d m b} hs he hc hp hm hb := by
    obtain ⟨op, k, a, hrest, (hexec : s.shared.exec o op = some (t, a)), rfl⟩ :=
      Call.perform_eq_some_iff.mp hp
    have hcall := hs.calls m b hb
    refine ⟨hcall.obeys, fun id h => ?_, fun id h => ?_, fun id h => ?_⟩
    · by_contra hne
      rcases World.host_of_exec hexec (Option.isSome_iff_ne_none.mpr hne) with hold | ⟨e, v, rfl, hr⟩
      · rw [hcall.torn id h] at hold
        cases hold
      · exact (known_of_putsKnown he hc hrest hr).2 b (List.mem_of_getElem? hb) h
    · exact World.used_of_exec hexec (hcall.seen id h)
    · obtain ⟨hused, hrow⟩ := hcall.deleted id h
      exact ⟨World.used_of_exec hexec hused, row_eq_none_of_exec hexec hused hrow⟩

/-- In every run in which no record is put for a project that is being destroyed or is gone,
every project the host has a record of has a row, and a project whose destroy succeeded has
neither. -/
theorem no_orphans (maxPerUser : ℕ) {x : List Event}
    (hx : Run.Always (Calls.step (service maxPerUser)) PutsKnown (Calls.idle World.empty) x) :
    let s := Run.run (Calls.step (service maxPerUser)) (Calls.idle World.empty) x
    (∀ id, (s.shared.host.get id).isSome → (s.shared.row id).isSome) ∧
      ∀ c ∈ s.calls, ∀ user id status, c.name = .destroy user id →
        c.rest.result? = some (.ok status) →
          s.shared.row id = none ∧ s.shared.host.get id = none := by
  intro s
  have hs : Calls.Holds Accounted Remembers s := by
    refine (keeps_accounted maxPerUser).run (Calls.holds_idle ⟨?_, ?_⟩) hx
    · intro id h
      cases h
    · intro id h
      cases h
  refine ⟨hs.shared.known, fun c hc user id status hname hres => ?_⟩
  obtain ⟨n, hn⟩ := List.mem_iff_getElem?.mp hc
  have hcall := hs.calls n c hn
  have hobeys := hcall.obeys
  rw [Program.result?_eq_some_iff.mp hres, hname] at hobeys
  have hrow := (hcall.deleted id hobeys).2
  refine ⟨hrow, ?_⟩
  by_contra hne
  have hsome := hs.shared.known id (Option.isSome_iff_ne_none.mpr hne)
  rw [hrow] at hsome
  cases hsome

/-- The answers when nothing fails. -/
def fine : Oracle := {}

/-- A project is created and comes up. -/
def created : List Event :=
  .start (.create "owner" "board" 1 "secret" "key") :: List.replicate 7 (.step 0 fine)

/-- It is destroyed. -/
def createdAndDestroyed : List Event :=
  created ++ .start (.destroy "owner" 1) :: List.replicate 3 (.step 1 fine)

theorem no_orphans_createdAndDestroyed :
    let s := Run.run (Calls.step (service 5)) (Calls.idle World.empty) createdAndDestroyed
    (∀ c ∈ s.calls, c.rest.result?.isSome) ∧
      (∀ id, (s.shared.host.get id).isSome → (s.shared.row id).isSome) ∧
      ∀ c ∈ s.calls, ∀ user id status, c.name = .destroy user id →
        c.rest.result? = some (.ok status) →
          s.shared.row id = none ∧ s.shared.host.get id = none :=
  ⟨by decide +kernel, no_orphans 5 ⟨trivial, trivial, trivial, fun _ => by decide +kernel,
    trivial, trivial, trivial, trivial, trivial, trivial, trivial, trivial, trivial⟩⟩

/-- A start has read the secrets of the project when a destroy runs from its first
statement to its last; then the start sends the secrets again. -/
def startedWhileDestroyed : List Event :=
  created ++ .start (.start "owner" 1) :: .step 1 fine :: .step 1 fine ::
    .start (.destroy "owner" 1) :: List.replicate 3 (.step 2 fine) ++
    List.replicate 6 (.step 1 fine)

/-- Every call has returned and the destroy succeeded, but the host has a record of the
project, which has no row. -/
theorem start_leaves_orphan :
    let s := Run.run (Calls.step (service 5)) (Calls.idle World.empty) startedWhileDestroyed
    (∀ c ∈ s.calls, c.rest.result?.isSome) ∧
      (∃ c ∈ s.calls, c.name = .destroy "owner" 1 ∧ c.rest.result?.any Except.toBool) ∧
      (s.shared.host.get 1).isSome ∧ (s.shared.row 1).isNone := by
  decide +kernel

end Wheel.Api.Projects
