import Wheel.Api.Membership

/-!
# The statements of an accept

An accept reads, counts a use and grants, in statements of their own. `Past` is
what it has read so far; `AcceptPerforms` says after which reads it performs a
statement, and `AcceptReturns` after which it fails (`obeys_accept`). On the
tables such a statement does nothing, counts one use, or writes the row of the
accepting user (`exec_accept`).
-/

namespace Wheel.Api.Membership

open Concurrency

abbrev Past := List (Performed Statement.Answer)

/-! ## What a call has read -/

/-- The project and the tier the invite names. -/
def Past.invited (x : Past) : Option (Uuid × Tier) :=
  x.findSome? fun
    | ⟨.findInvite _, .ok (some (p, role, _))⟩ => (Tier.parse role).map fun tier => (p, tier)
    | _ => none

/-- The project was read, and this is its row. -/
def Past.read (x : Past) (p : Uuid) (row : Project) : Prop :=
  ⟨.selectProject p, .ok row⟩ ∈ x

/-- No revocation of the member was found. -/
def Past.foundUnrevoked (x : Past) (p : Uuid) (u : String) : Bool :=
  x.any fun
    | ⟨.countRevoked p' u', .ok n⟩ => p' = p ∧ u' = u ∧ n = 0
    | _ => false

/-- The row is that of a member whose tier is lower, or of none. -/
def isBelow (tier : Tier) (row : Option MemberRow) : Bool :=
  (row.bind MemberRow.toMember).all fun m => m.role < tier

/-- No member was found whose tier is not lower. -/
def Past.foundBelow (x : Past) (p : Uuid) (u : String) (tier : Tier) : Bool :=
  x.any fun
    | ⟨.findMember p' u', .ok row⟩ => p' = p ∧ u' = u ∧ isBelow tier row
    | _ => false

/-- A use was counted. -/
def Past.hasUsed (x : Past) : Bool :=
  x.any fun
    | ⟨.useInvite _, .ok (some _)⟩ => true
    | _ => false

/-- The member's row was written. -/
def Past.hasGranted (x : Past) : Bool :=
  x.any fun
    | ⟨.upsertMember _ _ _ _, .ok _⟩ => true
    | _ => false

/-- Some row of the token's invite is neither revoked nor expired. -/
def Db.isAlive (db : Db) (digest : String) : Bool :=
  db.invites.rows.any fun r => r.tokenHash = digest && r.isAlive db.now

/-! ## What an accept does on its own -/

/-- The statements of an accept, each with what was read before it. -/
def AcceptPerforms (digest : String) (u : String) (x : Past) : Statement → Prop
  | .findInvite d => d = digest ∧ x = []
  | .selectProject p => (∃ tier, x.invited = some (p, tier)) ∧ x.hasUsed = false
  | .countRevoked p u' => u' = u ∧ (∃ tier, x.invited = some (p, tier)) ∧ x.hasUsed = false
  | .findMember _ u' => u' = u
  | .useInvite d => d = digest ∧ x.hasUsed = false ∧ x.hasGranted = false
  | .upsertMember p u' role _ =>
      u' = u ∧ x.hasUsed = true ∧ x.hasGranted = false ∧
        ∃ p' tier row, x.invited = some (p', tier) ∧ role = tier.asStr ∧ x.read p' row ∧
          row.id = p ∧ row.ownerId ≠ u ∧ x.foundUnrevoked p' u = true ∧
          x.foundBelow p' u tier = true
  | _ => False

/-- Why an accept fails once it has spent something: the database failed it, or
the member it has granted is not found. -/
def IsBroken (u : String) : Past → Prop
  | ⟨.findMember p u', .ok row⟩ :: x =>
      Past.hasGranted x = true ∧ u' = u ∧ row.bind MemberRow.toMember = none ∧
        ∃ p' tier row', Past.invited x = some (p', tier) ∧ Past.read x p' row' ∧ row'.id = p
  | ⟨_, .error _⟩ :: x => Past.hasUsed x = true
  | _ => False

/-- What an accept, or a part of it, returns. -/
def AcceptReturns {β : Type} (u : String) (x : Past) : Except ApiError β → Prop
  | .ok _ => True
  | .error _ => x.hasUsed = false ∧ x.hasGranted = false ∨ IsBroken u x

section Programs

variable {P : Past → Statement → Prop} {β : Type} {x : Past} {q : Statement}

theorem obeys_sql {Q : Past → Except ApiError q.Rows → Prop} :
    (sql q).run.Obeys P Q x ↔ P x q ∧ (∀ a, Q (⟨q, .ok a⟩ :: x) (.ok a)) ∧
      ∀ e, Q (⟨q, .error e⟩ :: x) (.error (.ofSql e)) := by
  constructor
  · intro h
    exact ⟨h.1, fun a => h.2 (.ok a), fun e => h.2 (.error e)⟩
  · rintro ⟨hP, hok, herror⟩
    refine ⟨hP, ?_⟩
    intro a
    cases a with
    | ok a => exact hok a
    | error e => exact herror e

theorem obeys_sql_bind {Q : Past → Except ApiError β → Prop} {f : q.Rows → ApiM β} (hP : P x q)
    (herror : ∀ e, Q (⟨q, .error e⟩ :: x) (.error (.ofSql e)))
    (hok : ∀ a, (f a).run.Obeys P Q (⟨q, .ok a⟩ :: x)) : (sql q >>= f).run.Obeys P Q x := by
  refine ⟨hP, ?_⟩
  intro a
  cases a with
  | ok a => exact hok a
  | error e => exact herror e

theorem find_bind (p : Uuid) (u : String) (f : Option Member → ApiM β) :
    (find p u >>= f) = (sql (.findMember p u) >>= fun row => f (row.bind MemberRow.toMember)) := by
  refine congrArg (Program.act (Statement.findMember p u)) ?_
  funext a
  cases a with
  | ok a => rfl
  | error e => rfl

theorem wasRevoked_bind (p : Uuid) (u : String) (f : Bool → ApiM β) :
    (wasRevoked p u >>= f) = (sql (.countRevoked p u) >>= fun n => f (decide (0 < n))) := by
  refine congrArg (Program.act (Statement.countRevoked p u)) ?_
  funext a
  cases a with
  | ok a => rfl
  | error e => rfl

/-- What an accept has read when it may grant. -/
structure MayGrant (x : Past) (u : String) (p : Uuid) (row : Project) (tier : Tier) : Prop where
  invited : x.invited = some (p, tier)
  read : x.read p row
  creator : row.ownerId ≠ u
  unrevoked : x.foundUnrevoked p u = true
  below : x.foundBelow p u tier = true
  granted : x.hasGranted = false

variable {digest u : String} {p : Uuid} {row : Project} {tier : Tier}

theorem obeys_grant (h : MayGrant x u p row tier) (hused : x.hasUsed = true)
    (hu : Principal.validate u = .ok u) :
    (grant row "invite" u tier).run.Obeys (AcceptPerforms digest u) (AcceptReturns u) x := by
  unfold grant
  rw [hu]
  dsimp only
  rw [if_neg (Ne.symm h.creator)]
  refine obeys_sql_bind ?_ ?_ ?_
  · exact ⟨rfl, hused, h.granted, p, tier, row, h.invited, rfl, h.read, rfl, h.creator,
      h.unrevoked, h.below⟩
  · exact fun e => .inr hused
  intro a
  rw [find_bind]
  refine obeys_sql_bind rfl ?_ ?_
  · exact fun e => .inr hused
  intro r
  cases hr : r.bind MemberRow.toMember with
  | some m => exact trivial
  | none =>
      exact .inr ⟨rfl, rfl, hr, p, tier, row, h.invited, List.mem_cons_of_mem _ h.read, rfl⟩

theorem obeys_redeem (h : MayGrant x u p row tier) (hused : x.hasUsed = false)
    (hu : Principal.validate u = .ok u) :
    (redeem digest row u tier).run.Obeys (AcceptPerforms digest u) (AcceptReturns u) x := by
  unfold redeem
  refine obeys_sql_bind ⟨rfl, hused, h.granted⟩ (fun e => .inl ⟨hused, h.granted⟩) ?_
  intro a
  cases a with
  | none => exact .inl ⟨hused, h.granted⟩
  | some id =>
      have hg : MayGrant (⟨.useInvite digest, .ok (some id)⟩ :: x) u p row tier :=
        ⟨h.invited, List.mem_cons_of_mem _ h.read, h.creator, h.unrevoked, h.below, h.granted⟩
      refine (obeys_grant hg rfl hu).run_bind ?_ ?_
      · exact fun y m _ => trivial
      · exact fun y e he => he

/-- An accept performs its statements in order, and a failure after the use was
counted has one of two reasons. -/
theorem obeys_accept (inviteDigest : String → String) (token : String) (user : Principal)
    (email : Option String) :
    (accept inviteDigest token user email).run.Obeys
      (AcceptPerforms (inviteDigest token) user.id) (AcceptReturns user.id) [] := by
  unfold accept
  refine obeys_sql_bind ⟨rfl, rfl⟩ (fun e => .inl ⟨rfl, rfl⟩) ?_
  intro a
  split
  · exact .inl ⟨rfl, rfl⟩
  rename_i p role locked
  split
  · exact .inl ⟨rfl, rfl⟩
  rename_i tier htier
  have hinv : Past.invited [⟨.findInvite (inviteDigest token), .ok (some (p, role, locked))⟩] =
      some (p, tier) := by
    simp [Past.invited, htier]
  split
  · exact .inl ⟨rfl, rfl⟩
  refine obeys_sql_bind ⟨⟨tier, hinv⟩, rfl⟩ (fun e => .inl ⟨rfl, rfl⟩) ?_
  intro row
  split
  · exact trivial
  rename_i hcreator
  rw [wasRevoked_bind]
  refine obeys_sql_bind ⟨rfl, ⟨tier, hinv⟩, rfl⟩ (fun e => .inl ⟨rfl, rfl⟩) ?_
  intro n
  split
  · exact .inl ⟨rfl, rfl⟩
  rename_i hn
  rw [find_bind]
  refine obeys_sql_bind rfl (fun e => .inl ⟨rfl, rfl⟩) ?_
  intro r
  have hg (hr : isBelow tier r = true) : MayGrant
      [⟨.findMember p user.id, .ok r⟩, ⟨.countRevoked p user.id, .ok n⟩,
        ⟨.selectProject p, .ok row⟩,
        ⟨.findInvite (inviteDigest token), .ok (some (p, role, locked))⟩]
      user.id p row tier := by
    constructor
    · exact hinv
    · simp [Past.read]
    · exact hcreator
    · simpa [Past.foundUnrevoked] using hn
    · simp [Past.foundBelow, hr]
    · rfl
  split
  · rename_i m hm
    split
    · exact trivial
    · rename_i hlt
      refine obeys_redeem (hg ?_) rfl user.valid
      simpa [isBelow, hm] using hlt
  · rename_i hm
    refine obeys_redeem (hg ?_) rfl user.valid
    simp [isBelow, hm]

end Programs

/-! ## What the statements do to the tables -/

section Tables

variable {db db' : Db} {p p' : Uuid} {u u' : String} {role : Role}

/-- The tier of a live member. -/
def Db.tier (db : Db) (p : Uuid) (u : String) : Option Tier :=
  ((db.findMember p u).bind MemberRow.toMember).map Member.role

theorem MemberRow.toMember_isSome (r : MemberRow) : r.toMember.isSome := by
  have hp : (Tier.parse r.role.text).isSome := by
    have h := r.role.check
    simp only [List.mem_cons, List.not_mem_nil, or_false] at h
    rcases h with h | h | h
    · rw [h]
      rfl
    · rw [h]
      rfl
    · rw [h]
      rfl
  simpa [toMember] using hp

theorem Role.ofText_asStr (t : Tier) : ∃ role, Role.ofText t.asStr = some role ∧
    role.text = t.asStr := by
  cases t
  · exact ⟨⟨"guest", by decide⟩, rfl, rfl⟩
  · exact ⟨⟨"prompter", by decide⟩, rfl, rfl⟩
  · exact ⟨⟨"admin", by decide⟩, rfl, rfl⟩

theorem countRevoked_eq_zero_iff :
    db.countRevoked p u = 0 ↔ ∀ r, db.members.get? (p, u) = some r → r.revokedAt = none := by
  rw [Db.countRevoked, List.countP_eq_zero]
  constructor
  · intro h r hr
    obtain ⟨hm, hk⟩ := Keyed.get?_eq_some_iff.mp hr
    have hr := h r hm
    rw [MemberRow.key, Prod.mk.injEq] at hk
    simpa [hk.1, hk.2] using hr
  · intro h r hm
    by_cases hk : r.key = (p, u)
    · have hr := h r (Keyed.get?_eq_some_iff.mpr ⟨hm, hk⟩)
      simp [hr]
    · rw [MemberRow.key, Prod.mk.injEq] at hk
      simp only [decide_eq_true_eq]
      tauto

/-- The row of a member that was just granted, and the rows of all others. -/
theorem get?_upsertMember (db : Db) (p : Uuid) (u : String) (role : Role) (actor : String) :
    (∃ r, (db.upsertMember p u role actor).members.get? (p, u) = some r ∧ r.role = role ∧
      r.revokedAt = none) ∧
    ∀ k, k ≠ (p, u) → (db.upsertMember p u role actor).members.get? k = db.members.get? k := by
  unfold Db.upsertMember
  split
  · rename_i t ht
    dsimp only
    simp only [Keyed.get?_of_insert ht]
    constructor
    · exact ⟨_, if_pos rfl, rfl, rfl⟩
    · exact fun k hk => if_neg (Ne.symm hk)
  · rename_i hnone
    obtain ⟨r, hr⟩ : ∃ r, db.members.get? (p, u) = some r := by
      cases hr : db.members.get? (p, u) with
      | some r => exact ⟨r, rfl⟩
      | none =>
          obtain ⟨t, ht⟩ := Keyed.exists_insert
            (a := (⟨p, u, role, some actor, db.now, db.now, none⟩ : MemberRow)) hr
          rw [ht] at hnone
          cases hnone
    dsimp only
    simp only [Keyed.get?_modify_of_get? hr]
    constructor
    · exact ⟨r.regrant role actor db.now, by simp, rfl, rfl⟩
    · exact fun k hk => if_neg hk

/-- A row that stays leaves tier and revocations as they are. -/
theorem tier_congr (h : db'.members.get? (p, u) = db.members.get? (p, u)) :
    db'.tier p u = db.tier p u := by
  simp only [Db.tier, Db.findMember, h]

theorem countRevoked_eq_zero_congr (h : db'.members.get? (p, u) = db.members.get? (p, u)) :
    db'.countRevoked p u = 0 ↔ db.countRevoked p u = 0 := by
  simp only [countRevoked_eq_zero_iff, h]

theorem tier_eq_none_of_get? (h : db.members.get? (p, u) = none) : db.tier p u = none := by
  simp [Db.tier, Db.findMember, h]

theorem tier_of_get? {r : MemberRow} {t : Tier} (h : db.members.get? (p, u) = some r)
    (hr : r.revokedAt = none) (ht : r.role.text = t.asStr) : db.tier p u = some t := by
  have hf : db.findMember p u = some r := by
    simp [Db.findMember, h, hr, Option.filter]
  simp [Db.tier, hf, MemberRow.toMember, ht]

theorem isAlive_useInvite (db : Db) (digest d : String) :
    (db.useInvite digest).isAlive d = db.isAlive d := by
  unfold Db.isAlive Db.useInvite Db.updateInvites
  simp only [Keyed.rows_updateWhere, List.any_map]
  congr 1
  funext r
  simp only [Function.comp_apply]
  split
  · unfold InviteRow.use
    split <;> rfl
  · rfl

theorem isAlive_of_usableInvite {digest : String} {r : InviteRow}
    (h : db.usableInvite digest = some r) : db.isAlive digest = true := by
  have hm := List.mem_of_find?_eq_some h
  have hr := List.find?_some h
  simp only [InviteRow.usable, Bool.and_eq_true] at hr
  exact List.any_eq_true.mpr ⟨r, hm, by simp only [Bool.and_eq_true]; exact hr.1⟩

theorem useInvite_of_none {digest : String} (h : db.usableInvite digest = none) :
    db.useInvite digest = db := by
  have hrows : (db.useInvite digest).invites = db.invites := by
    apply Keyed.ext
    rw [Db.useInvite, Db.updateInvites, Keyed.rows_updateWhere]
    nth_rewrite 2 [← List.map_id db.invites.rows]
    apply List.map_congr_left
    intro r hr
    rw [if_neg (List.find?_eq_none.mp h r hr)]
    rfl
  cases db
  rw [Db.useInvite, Db.updateInvites] at hrows ⊢
  congr

theorem projects_exec {q : Statement} {o : Outcome} {a : q.Answer}
    (h : exec q db o = some (db', a)) : db'.projects = db.projects := by
  cases o with
  | fails =>
      cases h
      rfl
  | runs =>
      have hdb : db' = (db.exec q).1 := by
        injection h with h
        rw [h]
      rw [hdb]
      cases q with
      | upsertMember p u role actor =>
          dsimp only [Db.exec]
          split
          · unfold Db.upsertMember
            split <;> rfl
          · rfl
      | insertInvite r =>
          dsimp only [Db.exec]
          split
          · rename_i t ht
            unfold Db.insertInvite at ht
            split at ht
            · cases ht
            · obtain ⟨row, -, ht⟩ := Option.bind_eq_some_iff.mp ht
              unfold Db.addInvite at ht
              split at ht
              · cases ht
              split at ht
              · cases ht
                rfl
              · cases ht
          · rfl
      | findInvite _ => rfl
      | selectProject _ => rfl
      | countRevoked _ _ => rfl
      | findMember _ _ => rfl
      | useInvite _ => rfl
      | revokeMember _ _ => rfl
      | selectInvite _ => rfl
      | revokeInvite _ _ => rfl
      | elapse _ => rfl

/-- The three things a statement of an accept can do: nothing to the tables, count
a use, or write the member's row. -/
theorem exec_accept {digest : String} {x : Past} {q : Statement} {o : Outcome} {a : q.Answer}
    (hp : AcceptPerforms digest u x q) (h : exec q db o = some (db', a)) :
    (db' = db ∧ Past.hasUsed (⟨q, a⟩ :: x) = x.hasUsed ∧
      Past.hasGranted (⟨q, a⟩ :: x) = x.hasGranted) ∨
    (∃ r, db.usableInvite digest = some r ∧ db' = db.useInvite digest ∧
      (⟨q, a⟩ : Performed Statement.Answer) = ⟨.useInvite digest, .ok (some r.id)⟩) ∨
    (∃ p role actor, ∃ tier : Tier, role.text = tier.asStr ∧ db' = db.upsertMember p u role actor ∧
      (⟨q, a⟩ : Performed Statement.Answer) =
        ⟨.upsertMember p u tier.asStr actor, .ok ()⟩) := by
  cases o with
  | fails =>
      cases h
      exact .inl ⟨rfl, by cases q <;> rfl, by cases q <;> rfl⟩
  | runs =>
      injection h with h
      cases q with
      | findInvite d =>
          cases h
          exact .inl ⟨rfl, rfl, rfl⟩
      | selectProject p =>
          cases h
          exact .inl ⟨rfl, rfl, rfl⟩
      | countRevoked p u =>
          cases h
          exact .inl ⟨rfl, rfl, rfl⟩
      | findMember p u =>
          cases h
          exact .inl ⟨rfl, rfl, rfl⟩
      | useInvite d =>
          obtain ⟨rfl, -, -⟩ := hp
          cases h
          cases hr : db.usableInvite d with
          | none => exact .inl ⟨useInvite_of_none hr, rfl, rfl⟩
          | some r => exact .inr (.inl ⟨r, rfl, rfl, rfl⟩)
      | upsertMember p u' role actor =>
          obtain ⟨rfl, -, -, p', tier, row, -, rfl, -⟩ := hp
          obtain ⟨role, hrole, htext⟩ := Role.ofText_asStr tier
          simp only [Db.exec, hrole] at h
          cases hrow : db.projects.get? p with
          | none =>
              simp only [hrow] at h
              cases h
              exact .inl ⟨rfl, rfl, rfl⟩
          | some row =>
              simp only [hrow] at h
              cases h
              exact .inr (.inr ⟨p, role, actor, tier, htext, rfl, rfl⟩)
      | revokeMember p u => exact hp.elim
      | insertInvite r => exact hp.elim
      | selectInvite id => exact hp.elim
      | revokeInvite id p => exact hp.elim
      | elapse d => exact hp.elim

end Tables

end Wheel.Api.Membership
