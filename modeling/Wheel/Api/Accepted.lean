import Wheel.Api.Invites

/-!
# What an accepted invite may do

What an accept may rely on between its statements is what it has read: `trusts`
says that the verdicts of its checks still hold. A run in which no other call
overturns such a verdict, and no statement fails after a use was counted
(`Undisturbed`), restores nobody, lowers no tier, redeems no dead invite, and an
accept that fails in it has spent nothing.
-/

namespace Wheel.Api.Membership

open Concurrency

abbrev ApiCall := Call Op Statement.Answer (Except ApiError Reply)

abbrev ApiCalls := Calls Db Op Statement.Answer (Except ApiError Reply)

/-- The row is that of a member whose tier is not higher, or of none. -/
def notAbove (tier : Tier) (row : Option MemberRow) : Bool :=
  (row.bind MemberRow.toMember).all fun m => m.role ≤ tier

/-- What an accept has found still holds: until it writes, that the member is not
revoked, has no higher tier than the invite's and, once the use is counted, that
the invite is alive; and when it has written, that the member is live. -/
def Past.trusts (x : Past) (digest u : String) (db : Db) : Bool :=
  match x.invited with
  | none => true
  | some (p, tier) =>
      if x.hasGranted then ((db.findMember p u).bind MemberRow.toMember).isSome
      else
        (!x.foundUnrevoked p u || db.countRevoked p u == 0) &&
          (!x.foundBelow p u tier || notAbove tier (db.findMember p u)) &&
          (!x.hasUsed || db.isAlive digest)

section Runs

variable (inviteDigest : String → String)

/-- An accept that has not returned may rely on what it has found. -/
def trusts (c : ApiCall) (db : Db) : Bool :=
  match c.name with
  | .accept token user _ =>
      c.rest.result?.isSome || Past.trusts c.past (inviteDigest token) user.id db
  | _ => true

def isAccept (c : ApiCall) : Bool :=
  match c.name with
  | .accept _ _ _ => true
  | _ => false

/-- The step overturns nothing that another accept has found, and no statement of
an accept fails that has counted its use. -/
def Undisturbed (s : ApiCalls) : Turn Op Outcome → Prop
  | .start _ => True
  | .step n o =>
      (∀ m (h : m < s.calls.length), m ≠ n →
        trusts inviteDigest s.calls[m] (s.step (service inviteDigest) (.step n o)).shared) ∧
      ∀ h : n < s.calls.length, isAccept s.calls[n] → Past.hasUsed s.calls[n].past → o = .runs

instance (s : ApiCalls) : (e : Turn Op Outcome) → Decidable (Undisturbed inviteDigest s e)
  | .start _ => .isTrue trivial
  | .step n o => inferInstanceAs (Decidable
      ((∀ m (h : m < s.calls.length), m ≠ n →
        trusts inviteDigest s.calls[m] (s.step (service inviteDigest) (.step n o)).shared) ∧
      ∀ h : n < s.calls.length, isAccept s.calls[n] → Past.hasUsed s.calls[n].past → o = .runs))

/-- What a step of an accept may do to the tables, and that the call knows of it. -/
structure AcceptStep (digest : String) (db db' : Db) (x : Past) : Prop where
  revoked : ∀ p u, 0 < db.countRevoked p u → 0 < db'.countRevoked p u
  tier : ∀ p u t, db.tier p u = some t → ∃ t', db'.tier p u = some t' ∧ t ≤ t'
  creator : ∀ p row, db.projects.get? p = some row → db.members.get? (p, row.ownerId) = none →
    db'.members.get? (p, row.ownerId) = none
  alive : db'.members ≠ db.members → db.isAlive digest = true
  used : db'.invites ≠ db.invites → x.hasUsed = true
  granted : db'.members ≠ db.members → x.hasGranted = true

/-- Every step of an accept does to the tables only what it may. -/
def StepSound (s : ApiCalls) (e : Turn Op Outcome) : Prop :=
  ∀ n o token user email c c', e = .step n o → s.calls[n]? = some c →
    c.name = .accept token user email →
    (s.step (service inviteDigest) e).calls[n]? = some c' →
    AcceptStep (inviteDigest token) s.shared (s.step (service inviteDigest) e).shared c'.past

/-- The call is an accept of the token hash that has written a membership. -/
def hasGrantedFor (hash : String) (c : ApiCall) : Bool :=
  match c.name with
  | .accept token _ _ => inviteDigest token = hash && Past.hasGranted c.past
  | _ => false

/-- No invite was redeemed more often than it may be, and an accept that failed
has neither counted a use nor written a membership. -/
structure StateSound (s : ApiCalls) : Prop where
  maxUses : ∀ r ∈ s.shared.invites.rows,
    s.calls.countP (hasGrantedFor inviteDigest r.tokenHash) ≤ r.maxUses
  failed : ∀ c ∈ s.calls, isAccept c → ∀ e, c.rest.result? = some (.error e) →
    Past.hasUsed c.past = false ∧ Past.hasGranted c.past = false

end Runs

/-! ## The invariant of an accept -/

/-- What holds of an accept at every moment of an undisturbed run. -/
structure AcceptOk (digest u : String) (c : ApiCall) (db : Db) : Prop where
  obeys : c.rest.Obeys (AcceptPerforms digest u) (AcceptReturns u) c.past
  reads : ∀ p row, Past.read c.past p row → db.projects.get? p = some row
  trusts : c.rest.result? = none → Past.trusts c.past digest u db = true
  used : Past.hasGranted c.past = true → Past.hasUsed c.past = true
  failed : ∀ e, c.rest.result? = some (.error e) →
    Past.hasUsed c.past = false ∧ Past.hasGranted c.past = false

section Invariant

variable {digest u : String} {c c' : ApiCall} {db db' : Db} {o : Outcome} {x : Past}
  {q : Statement} {a : q.Answer} {p : Uuid} {tier : Tier}

theorem trusts_iff (h : x.invited = some (p, tier)) :
    x.trusts digest u db = true ↔
      (x.hasGranted = true → ((db.findMember p u).bind MemberRow.toMember).isSome) ∧
      (x.hasGranted = false →
        (x.foundUnrevoked p u = true → db.countRevoked p u = 0) ∧
        (x.foundBelow p u tier = true → notAbove tier (db.findMember p u) = true) ∧
        (x.hasUsed = true → db.isAlive digest = true)) := by
  unfold Past.trusts
  rw [h]
  cases hg : x.hasGranted with
  | true => simp
  | false =>
      simp only [Bool.false_eq_true, if_false, Bool.and_eq_true, Bool.or_eq_true,
        Bool.not_eq_true', beq_iff_eq, false_implies, true_and, forall_const]
      constructor
      · rintro ⟨⟨h1, h2⟩, h3⟩
        refine ⟨fun h => ?_, fun h => ?_, fun h => ?_⟩
        · exact h1.resolve_left (by simp [h])
        · exact h2.resolve_left (by simp [h])
        · exact h3.resolve_left (by simp [h])
      · rintro ⟨h1, h2, h3⟩
        refine ⟨⟨?_, ?_⟩, ?_⟩
        · cases hf : x.foundUnrevoked p u with
          | true => exact .inr (h1 hf)
          | false => exact .inl rfl
        · cases hf : x.foundBelow p u tier with
          | true => exact .inr (h2 hf)
          | false => exact .inl rfl
        · cases hf : x.hasUsed with
          | true => exact .inr (h3 hf)
          | false => exact .inl rfl

theorem notAbove_of_isBelow {row : Option MemberRow} (h : isBelow tier row = true) :
    notAbove tier row = true := by
  unfold isBelow at h
  unfold notAbove
  cases hm : row.bind MemberRow.toMember with
  | none => rfl
  | some m =>
      rw [hm] at h
      simp only [Option.all_some, decide_eq_true_eq] at h ⊢
      exact h.le

theorem notAbove_findMember :
    notAbove tier (db.findMember p u) = true ↔ ∀ t, db.tier p u = some t → t ≤ tier := by
  unfold notAbove Db.tier
  cases (db.findMember p u).bind MemberRow.toMember with
  | none => simp
  | some m => simp

theorem invited_cons (hq : ∀ d, q ≠ .findInvite d) :
    Past.invited (⟨q, a⟩ :: x) = x.invited := by
  cases q with
  | findInvite d => exact absurd rfl (hq d)
  | _ => rfl

/-- That no revocation was found was found before, or is so now. -/
theorem foundUnrevoked_cons (he : exec q db o = some (db', a))
    (h : Past.foundUnrevoked (⟨q, a⟩ :: x) p u = true) :
    x.foundUnrevoked p u = true ∨ db.countRevoked p u = 0 := by
  cases q with
  | countRevoked p' u' =>
      cases o with
      | fails =>
          cases he
          exact .inl h
      | runs =>
          cases he
          simp only [Past.foundUnrevoked, List.any_cons, Bool.or_eq_true, decide_eq_true_eq] at h
          rcases h with ⟨rfl, rfl, h⟩ | h
          · exact .inr h
          · exact .inl h
  | _ => exact .inl h

theorem foundBelow_cons (he : exec q db o = some (db', a))
    (h : Past.foundBelow (⟨q, a⟩ :: x) p u tier = true) :
    x.foundBelow p u tier = true ∨ notAbove tier (db.findMember p u) = true := by
  cases q with
  | findMember p' u' =>
      cases o with
      | fails =>
          cases he
          exact .inl h
      | runs =>
          cases he
          simp only [Past.foundBelow, List.any_cons, Bool.or_eq_true, decide_eq_true_eq] at h
          rcases h with ⟨rfl, rfl, h⟩ | h
          · exact .inr (notAbove_of_isBelow h)
          · exact .inl h
  | _ => exact .inl h

/-- An accept may rely on what it has found after its own statement, too. -/
theorem trusts_exec (hp : AcceptPerforms digest u x q)
    (hr : ∀ p row, x.read p row → db.projects.get? p = some row)
    (ht : x.trusts digest u db = true) (he : exec q db o = some (db', a)) :
    Past.trusts (⟨q, a⟩ :: x) digest u db' = true := by
  by_cases hq : ∃ d, q = .findInvite d
  · obtain ⟨d, rfl⟩ := hq
    obtain ⟨-, rfl⟩ := hp
    unfold Past.trusts
    split
    · rfl
    · rfl
  push Not at hq
  cases hinv : x.invited with
  | none =>
      unfold Past.trusts
      rw [invited_cons hq, hinv]
  | some pt =>
      obtain ⟨p, tier⟩ := pt
      rw [trusts_iff ((invited_cons hq).trans hinv)]
      obtain ⟨hgranted, hfound⟩ := (trusts_iff hinv).mp ht
      rcases exec_accept hp he with ⟨rfl, hu, hg⟩ | ⟨r, hr, rfl, hqa⟩ |
        ⟨p', role, actor, t, htext, rfl, hqa⟩
      · rw [hu, hg]
        refine ⟨hgranted, fun hg => ⟨fun h => ?_, fun h => ?_, (hfound hg).2.2⟩⟩
        · exact (foundUnrevoked_cons he h).elim (hfound hg).1 id
        · exact (foundBelow_cons he h).elim (hfound hg).2.1 id
      · cases hqa
        refine ⟨hgranted, fun hg => ⟨(hfound hg).1, (hfound hg).2.1, fun _ => ?_⟩⟩
        rw [isAlive_useInvite]
        exact isAlive_of_usableInvite hr
      · cases hqa
        refine ⟨fun _ => ?_, fun hg => nomatch hg⟩
        obtain ⟨-, -, -, p₀, t₀, row, hinv', -, hread, hid, -⟩ := hp
        rw [hinv] at hinv'
        injection hinv' with hinv'
        injection hinv' with hp₀ ht₀
        have hkey : p = p' := by
          rw [hp₀, ← hid]
          exact ((Keyed.get?_eq_some_iff.mp (hr p₀ row hread)).2).symm
        obtain ⟨⟨r, hget, hrole, hlive⟩, -⟩ := get?_upsertMember db p' u role actor
        have htier := tier_of_get? hget hlive (by rw [hrole]; exact htext)
        obtain ⟨m, hm, -⟩ := Option.map_eq_some_iff.mp htier
        rw [hkey, hm]
        rfl

/-- A statement that runs answers no error, except where a row is missing. -/
theorem not_error_of_runs (hp : AcceptPerforms digest u x q) (hu : x.hasUsed = true)
    (hr : ∀ p row, x.read p row → db.projects.get? p = some row)
    (he : exec q db .runs = some (db', a)) : ∀ e, a ≠ .error e := by
  injection he with he
  cases q with
  | findInvite d =>
      cases he
      exact fun e h => by cases h
  | selectProject p =>
      rw [hp.2] at hu
      cases hu
  | countRevoked p u' =>
      cases he
      exact fun e h => by cases h
  | findMember p u' =>
      cases he
      exact fun e h => by cases h
  | useInvite d =>
      cases he
      exact fun e h => by cases h
  | upsertMember p u' role actor =>
      obtain ⟨-, -, -, p₀, t₀, row, -, rfl, hread, hid, -⟩ := hp
      obtain ⟨role, hrole, -⟩ := Role.ofText_asStr t₀
      have hrow := hr p₀ row hread
      have hp₀ : p = p₀ := by
        rw [← hid]
        exact (Keyed.get?_eq_some_iff.mp hrow).2
      subst hp₀
      simp only [Db.exec, hrow, hrole] at he
      cases he
      exact fun e h => by cases h
  | revokeMember p u => exact hp.elim
  | insertInvite r => exact hp.elim
  | selectInvite id => exact hp.elim
  | revokeInvite id p => exact hp.elim
  | elapse d => exact hp.elim

/-- Undisturbed, an accept is not broken: the member it has granted is found. -/
theorem not_isBroken (hp : AcceptPerforms digest u x q)
    (hr : ∀ p row, x.read p row → db.projects.get? p = some row)
    (ht : x.trusts digest u db = true) (hused : x.hasGranted = true → x.hasUsed = true)
    (ho : x.hasUsed = true → o = .runs) (he : exec q db o = some (db', a)) :
    ¬ IsBroken u (⟨q, a⟩ :: x) := by
  intro h
  unfold IsBroken at h
  split at h
  · rename_i p' u' row y hqa
    cases hqa
    obtain ⟨hg, rfl, hnone, p₀, tier, row', hinv, hread, hid⟩ := h
    have hp₀ : p' = p₀ := by
      rw [← hid]
      exact (Keyed.get?_eq_some_iff.mp (hr p₀ row' hread)).2
    subst hp₀
    cases ho (hused hg)
    cases he
    have hsome := ((trusts_iff hinv).mp ht).1 hg
    rw [hnone] at hsome
    cases hsome
  · rename_i q' e y hqa
    cases hqa
    cases ho h
    exact not_error_of_runs hp h hr he e rfl
  · exact h

/-- An undisturbed statement of an accept that has not returned. -/
theorem AcceptOk.exec {k : q.Answer → Program Statement.Answer (Except ApiError Reply)}
    {name : Op} (h : AcceptOk digest u ⟨name, x, .act q k⟩ db)
    (ho : x.hasUsed = true → o = .runs) (he : exec q db o = some (db', a)) :
    AcceptOk digest u ⟨name, ⟨q, a⟩ :: x, k a⟩ db' := by
  have hp := h.obeys.1
  have ht : x.trusts digest u db = true := h.trusts rfl
  have hobeys : (k a).Obeys (AcceptPerforms digest u) (AcceptReturns u) (⟨q, a⟩ :: x) :=
    h.obeys.2 a
  have hreads : ∀ p row, Past.read (⟨q, a⟩ :: x) p row → db'.projects.get? p = some row := by
    intro p row hread
    rw [projects_exec he]
    rcases List.mem_cons.mp hread with hqa | hread
    · cases hqa
      cases o with
      | fails => cases he
      | runs =>
          cases hrow : db.projects.get? p with
          | none =>
              simp only [Membership.exec, Db.exec, hrow] at he
              cases he
          | some row' =>
              simp only [Membership.exec, Db.exec, hrow] at he
              cases he
              rfl
    · exact h.reads p row hread
  refine ⟨hobeys, hreads, fun _ => trusts_exec hp h.reads ht he, ?_, ?_⟩
  · intro hg
    rcases exec_accept hp he with ⟨-, hu, hg'⟩ | ⟨r, -, -, hqa⟩ | ⟨p', role, actor, t, -, -, hqa⟩
    · dsimp only at hg ⊢
      rw [hg'] at hg
      rw [hu]
      exact h.used hg
    · cases hqa
      rfl
    · cases hqa
      exact hp.2.1
  · intro e hres
    dsimp only at hres ⊢
    have hret : AcceptReturns (β := Reply) u (⟨q, a⟩ :: x) (.error e) := by
      rw [Program.result?_eq_some_iff.mp hres] at hobeys
      exact hobeys
    rcases hret with hret | hret
    · exact hret
    · exact absurd hret (not_isBroken hp h.reads ht h.used ho he)

theorem invites_upsertMember (db : Db) (p : Uuid) (u : String) (role : Role) (actor : String) :
    (db.upsertMember p u role actor).invites = db.invites := by
  unfold Db.upsertMember
  split <;> rfl

/-- A write of the member's row does only what an accept may. -/
theorem acceptStep_upsertMember {role : Role} {actor : String} (hinv : x.invited = some (p, tier))
    (hr : ∀ p row, x.read p row → db.projects.get? p = some row) {row : Project}
    (hread : x.read p row) (hcreator : row.ownerId ≠ u) (hrole : role.text = tier.asStr)
    (hunrevoked : db.countRevoked p u = 0) (habove : notAbove tier (db.findMember p u) = true)
    (halive : db.isAlive digest = true) (y : Past) (hy : y.hasGranted = true) :
    AcceptStep digest db (db.upsertMember p u role actor) y := by
  obtain ⟨⟨r, hget, hr', hlive⟩, hothers⟩ := get?_upsertMember db p u role actor
  constructor
  · intro p₁ u₁ h
    by_cases hk : (p₁, u₁) = (p, u)
    · cases hk
      rw [hunrevoked] at h
      cases h
    · rw [Nat.pos_iff_ne_zero] at h ⊢
      rwa [Ne, countRevoked_eq_zero_congr (hothers _ hk)]
  · intro p₁ u₁ t h
    by_cases hk : (p₁, u₁) = (p, u)
    · cases hk
      refine ⟨tier, tier_of_get? hget hlive (by rw [hr', hrole]), ?_⟩
      exact notAbove_findMember.mp habove t h
    · exact ⟨t, (tier_congr (hothers _ hk)).trans h, le_rfl⟩
  · intro p₁ row₁ hrow₁ hnone
    by_cases hk : (p₁, row₁.ownerId) = (p, u)
    · injection hk with hp hu
      subst hp
      rw [hr _ row hread] at hrow₁
      cases hrow₁
      exact absurd hu hcreator
    · rw [hothers _ hk, hnone]
  · exact fun _ => halive
  · intro h
    exact absurd (invites_upsertMember db p u role actor) h
  · exact fun _ => hy

/-- What an undisturbed accept does in one statement. -/
theorem AcceptOk.step {k : q.Answer → Program Statement.Answer (Except ApiError Reply)}
    {name : Op} (h : AcceptOk digest u ⟨name, x, .act q k⟩ db)
    (he : Membership.exec q db o = some (db', a)) : AcceptStep digest db db' (⟨q, a⟩ :: x) := by
  have hp := h.obeys.1
  have ht : x.trusts digest u db = true := h.trusts rfl
  rcases exec_accept hp he with ⟨rfl, -, -⟩ | ⟨r, -, rfl, hqa⟩ |
    ⟨p, role, actor, t, htext, rfl, hqa⟩
  · constructor
    · exact fun p u h => h
    · exact fun p u t h => ⟨t, h, le_rfl⟩
    · exact fun p row _ h => h
    · exact fun h => absurd rfl h
    · exact fun h => absurd rfl h
    · exact fun h => absurd rfl h
  · constructor
    · exact fun p u h => h
    · exact fun p u t h => ⟨t, h, le_rfl⟩
    · exact fun p row _ h => h
    · exact fun h => absurd rfl h
    · rw [hqa]
      exact fun _ => rfl
    · exact fun h => absurd rfl h
  · cases hqa
    obtain ⟨-, hused, hgranted, p₀, tier, row, hinv, hrole, hread, hid, hcreator, hun, hbe⟩ := hp
    have hfound := ((trusts_iff hinv).mp ht).2 hgranted
    have hp₀ : p = p₀ := by
      rw [← hid]
      exact (Keyed.get?_eq_some_iff.mp (h.reads p₀ row hread)).2
    subst hp₀
    exact acceptStep_upsertMember hinv h.reads hread hcreator (by rw [htext, hrole])
      (hfound.1 hun) (hfound.2.1 hbe) (hfound.2.2 hused) _ rfl

end Invariant

/-! ## Uses -/

section Uses

variable {db db' : Db} {o : Outcome} {q : Statement} {a : q.Answer} {hash : String}

/-- The uses of the invites of a token hash. -/
def Db.usesOf (db : Db) (hash : String) : ℕ :=
  (db.invites.rows.map fun r => if r.tokenHash = hash then r.uses else 0).sum

theorem sum_uses_eq {l : List InviteRow} (hl : (l.map InviteRow.tokenHash).Nodup)
    {r : InviteRow} (hr : r ∈ l) :
    (l.map fun i => if i.tokenHash = r.tokenHash then i.uses else 0).sum = r.uses := by
  induction l with
  | nil => cases hr
  | cons i l ih =>
      rw [List.map_cons, List.nodup_cons] at hl
      rw [List.map_cons, List.sum_cons]
      rcases List.mem_cons.mp hr with rfl | hm
      · have hzero : (l.map fun i => if i.tokenHash = r.tokenHash then i.uses else 0).sum = 0 := by
          apply List.sum_eq_zero
          intro n hn
          obtain ⟨j, hj, rfl⟩ := List.mem_map.mp hn
          rw [if_neg]
          intro hjr
          exact hl.1 (List.mem_map.mpr ⟨j, hj, hjr⟩)
        rw [if_pos rfl, hzero, Nat.add_zero]
      · rw [ih hl.2 hm, if_neg, Nat.zero_add]
        intro hir
        exact hl.1 (List.mem_map.mpr ⟨r, hm, hir.symm⟩)

theorem usesOf_tokenHash {r : InviteRow} (hr : r ∈ db.invites.rows) :
    db.usesOf r.tokenHash = r.uses := sum_uses_eq db.hashes hr

theorem uses_le_use (r : InviteRow) : r.uses ≤ r.use.uses := by
  unfold InviteRow.use
  split
  · exact Nat.le_succ _
  · exact le_rfl

theorem usesOf_le_updateInvites {p : InviteRow → Bool} {f : InviteRow → InviteRow}
    (hid : ∀ r, (f r).id = r.id) (hhash : ∀ r, (f r).tokenHash = r.tokenHash)
    (huses : ∀ r, r.uses ≤ (f r).uses) :
    db.usesOf hash ≤ (db.updateInvites p f hid hhash).usesOf hash := by
  unfold Db.usesOf Db.updateInvites
  rw [Keyed.rows_updateWhere, List.map_map]
  apply List.sum_le_sum
  intro r _
  simp only [Function.comp_apply]
  by_cases hp : p r = true
  · rw [if_pos hp, hhash]
    split
    · exact huses r
    · exact le_rfl
  · rw [if_neg hp]

/-- A use that is counted raises the uses of its token hash. -/
theorem usesOf_lt_useInvite {r : InviteRow} (h : db.usableInvite hash = some r) :
    db.usesOf hash < (db.useInvite hash).usesOf hash := by
  unfold Db.usesOf Db.useInvite Db.updateInvites
  rw [Keyed.rows_updateWhere, List.map_map]
  apply List.sum_lt_sum
  · intro i _
    simp only [Function.comp_apply]
    by_cases hp : InviteRow.usable hash db.now i = true
    · rw [if_pos hp, InviteRow.tokenHash_use]
      split
      · exact uses_le_use i
      · exact le_rfl
    · rw [if_neg hp]
  · have hr := List.find?_some h
    refine ⟨r, List.mem_of_find?_eq_some h, ?_⟩
    simp only [InviteRow.usable, Bool.and_eq_true, decide_eq_true_eq] at hr
    simp only [Function.comp_apply, InviteRow.usable, hr, decide_true, Bool.and_self, if_true,
      InviteRow.tokenHash_use]
    rw [InviteRow.use, dif_pos hr.2]
    exact Nat.lt_succ_self _

theorem usesOf_le_exec (h : exec q db o = some (db', a)) : db.usesOf hash ≤ db'.usesOf hash := by
  cases o with
  | fails =>
      cases h
      exact le_rfl
  | runs =>
      have hdb : db' = (db.exec q).1 := by
        injection h with h
        rw [h]
      rw [hdb]
      cases q with
      | useInvite digest => exact usesOf_le_updateInvites _ InviteRow.tokenHash_use uses_le_use
      | revokeInvite id p => exact usesOf_le_updateInvites _ (InviteRow.tokenHash_revoke db.now) fun r => le_rfl
      | upsertMember p u role actor =>
          dsimp only [Db.exec]
          split
          · rw [Db.usesOf, Db.usesOf, invites_upsertMember]
          · exact le_rfl
      | insertInvite r =>
          dsimp only [Db.exec]
          split
          · rename_i t ht
            unfold Db.insertInvite at ht
            split at ht
            · cases ht
            obtain ⟨row, -, ht⟩ := Option.bind_eq_some_iff.mp ht
            unfold Db.addInvite at ht
            split at ht
            · cases ht
            split at ht
            · rename_i t' ht'
              cases ht
              unfold Db.usesOf
              rw [(Keyed.insert_eq_some_iff.mp ht').2, List.map_append, List.sum_append]
              exact Nat.le_add_right _ _
            · cases ht
          · exact le_rfl
      | findInvite _ => exact le_rfl
      | selectProject _ => exact le_rfl
      | countRevoked _ _ => exact le_rfl
      | findMember _ _ => exact le_rfl
      | revokeMember _ _ => exact le_rfl
      | selectInvite _ => exact le_rfl
      | elapse _ => exact le_rfl

end Uses

/-! ## Undisturbed runs -/

section Sound

variable {inviteDigest : String → String} {s : ApiCalls} {e : Turn Op Outcome}

/-- What holds of a call that is an accept. -/
def CallOk (inviteDigest : String → String) (c : ApiCall) (db : Db) : Prop :=
  ∀ token user email, c.name = .accept token user email →
    AcceptOk (inviteDigest token) user.id c db

theorem callOk_start (op : Op) (db : Db) :
    CallOk inviteDigest ((service inviteDigest).call op) db := by
  rintro token user email h
  dsimp only [Service.call] at h
  subst h
  constructor
  · refine (obeys_accept inviteDigest token user email).run_bind ?_ ?_
    · exact fun y r _ => trivial
    · exact fun y e he => he
  · exact fun p row h => nomatch h
  · exact fun _ => rfl
  · exact fun h => nomatch h
  · exact fun e _ => ⟨rfl, rfl⟩

theorem keeps_callOk : Calls.Keeps (service inviteDigest) (fun _ => True)
    (CallOk inviteDigest) (Undisturbed inviteDigest) where
  start _ _ := callOk_start _ _
  shared _ _ _ _ := trivial
  own := by
    intro s n o c t d hs hu hc hp token user email hname
    obtain ⟨q, k, a, hrest, he, rfl⟩ := Call.perform_eq_some_iff.mp hp
    obtain ⟨name, x, rest⟩ := c
    dsimp only at hrest hname
    subst hrest hname
    obtain ⟨hn, hget⟩ := List.getElem?_eq_some_iff.mp hc
    refine (hs.calls n _ hc token user email rfl).exec ?_ he
    intro hused
    apply hu.2 hn
    · rw [hget]
      rfl
    · rw [hget]
      exact hused
  others := by
    intro s n o c t d m b hs hu hc hp hm hb token user email hname
    obtain ⟨q, k, a, -, he, -⟩ := Call.perform_eq_some_iff.mp hp
    have hok := hs.calls m b hb token user email hname
    obtain ⟨hlt, hget⟩ := List.getElem?_eq_some_iff.mp hb
    refine ⟨hok.obeys, ?_, ?_, hok.used, hok.failed⟩
    · intro p row hread
      rw [projects_exec he]
      exact hok.reads p row hread
    · intro hrun
      have htrusts := hu.1 m hlt hm
      rw [hget, Calls.step_of_perform hc hp] at htrusts
      simpa [trusts, hname, hrun] using htrusts

/-- Every step of an accept does only what it may. -/
theorem stepSound_of_holds (hs : s.Holds (fun _ => True) (CallOk inviteDigest)) :
    StepSound inviteDigest s e := by
  rintro n o token user email c c' rfl hc hname hc'
  rcases Calls.step_cases (M := service inviteDigest) s (.step n o) with
    ⟨x, hx, -⟩ | ⟨n', o', c₀, t, d, hx, hc₀, hp, hstep⟩ | hstep
  · cases hx
  · cases hx
    rw [hc] at hc₀
    cases hc₀
    rw [hstep] at hc' ⊢
    rw [List.getElem?_set_self (List.getElem?_eq_some_iff.mp hc).1] at hc'
    cases hc'
    obtain ⟨q, k, a, hrest, he, rfl⟩ := Call.perform_eq_some_iff.mp hp
    obtain ⟨name, x, rest⟩ := c
    dsimp only at hrest hname
    subst hrest hname
    exact (hs.calls n _ hc token user email rfl).step he
  · rw [hstep]
    constructor
    · exact fun p u h => h
    · exact fun p u t h => ⟨t, h, le_rfl⟩
    · exact fun p row _ h => h
    · exact fun h => absurd rfl h
    · exact fun h => absurd rfl h
    · exact fun h => absurd rfl h

/-- The call is an accept of the token hash that has counted a use. -/
def hasUsedFor (inviteDigest : String → String) (hash : String) (c : ApiCall) : Bool :=
  match c.name with
  | .accept token _ _ => inviteDigest token = hash && Past.hasUsed c.past
  | _ => false

/-- The accepts of a token hash have counted no more uses than its invites have. -/
def UsesCounted (inviteDigest : String → String) (s : ApiCalls) : Prop :=
  ∀ hash, s.calls.countP (hasUsedFor inviteDigest hash) ≤ s.shared.usesOf hash

theorem hasUsed_cons {q : Statement} {a : q.Answer} {x : Past} (h : x.hasUsed = true) :
    Past.hasUsed (⟨q, a⟩ :: x) = true := by
  unfold Past.hasUsed at h ⊢
  rw [List.any_cons, h, Bool.or_true]

/-- A call that has newly counted a use has raised the uses of its invite. -/
theorem usesOf_lt_of_hasUsedFor {c d : ApiCall} {db db' : Db} {o : Outcome} {hash : String}
    (hok : CallOk inviteDigest c db)
    (hp : c.perform (service inviteDigest) db o = some (db', d))
    (hc : hasUsedFor inviteDigest hash c = false) (hd : hasUsedFor inviteDigest hash d = true) :
    db.usesOf hash < db'.usesOf hash := by
  obtain ⟨q, k, a, hrest, he, rfl⟩ := Call.perform_eq_some_iff.mp hp
  obtain ⟨name, x, rest⟩ := c
  dsimp only at hrest
  subst hrest
  cases name with
  | accept token user email =>
      simp only [hasUsedFor, Bool.and_eq_true, decide_eq_true_eq] at hc hd
      obtain ⟨rfl, hd⟩ := hd
      simp only [decide_true, Bool.true_and] at hc
      have hobeys := (hok token user email rfl).obeys
      rcases exec_accept hobeys.1 he with ⟨-, hu, -⟩ | ⟨r, hr, rfl, -⟩ |
        ⟨p, role, actor, t, -, -, hqa⟩
      · rw [hu, hc] at hd
        cases hd
      · exact usesOf_lt_useInvite hr
      · cases hqa
        exact absurd (hobeys.1.2.1.symm.trans hc) (by decide)
  | createInvite _ _ _ _ _ _ _ _ => cases hd
  | grant _ _ _ _ => cases hd
  | revoke _ _ => cases hd
  | revokeInvite _ _ => cases hd
  | elapse _ => cases hd

theorem hasUsedFor_perform {c d : ApiCall} {db db' : Db} {o : Outcome} {hash : String}
    (hp : c.perform (service inviteDigest) db o = some (db', d))
    (hc : hasUsedFor inviteDigest hash c = true) : hasUsedFor inviteDigest hash d = true := by
  obtain ⟨q, k, a, -, -, rfl⟩ := Call.perform_eq_some_iff.mp hp
  unfold hasUsedFor at hc ⊢
  dsimp only
  split at hc
  · simp only [Bool.and_eq_true] at hc ⊢
    exact ⟨hc.1, hasUsed_cons hc.2⟩
  · cases hc

/-- Every step keeps the uses counted. -/
theorem usesCounted_step (hs : s.Holds (fun _ => True) (CallOk inviteDigest))
    (hj : UsesCounted inviteDigest s) :
    UsesCounted inviteDigest (s.step (service inviteDigest) e) := by
  intro hash
  rcases Calls.step_cases (M := service inviteDigest) s e with
    ⟨op, rfl, hx⟩ | ⟨n, o, c, t, d, rfl, hc, hp, hx⟩ | hx
  · rw [hx]
    dsimp only
    have hfalse : hasUsedFor inviteDigest hash ((service inviteDigest).call op) = false := by
      cases op with
      | accept token user email => exact Bool.and_false _
      | _ => rfl
    rw [List.countP_append, List.countP_singleton, hfalse]
    exact hj hash
  · rw [hx]
    dsimp only
    obtain ⟨hn, hget⟩ := List.getElem?_eq_some_iff.mp hc
    rw [List.countP_set hn, hget]
    obtain ⟨q, k, a, -, he, -⟩ := Call.perform_eq_some_iff.mp hp
    have hle : _ ≤ Db.usesOf _ hash := usesOf_le_exec he
    have hcount := hj hash
    cases hcu : hasUsedFor inviteDigest hash c with
    | true =>
        have hpos : 0 < s.calls.countP (hasUsedFor inviteDigest hash) :=
          List.countP_pos_iff.mpr ⟨c, List.mem_of_getElem? hc, hcu⟩
        rw [hasUsedFor_perform hp hcu]
        simp only [if_true]
        omega
    | false =>
        cases hdu : hasUsedFor inviteDigest hash d with
        | true =>
            have hlt := usesOf_lt_of_hasUsedFor (hs.calls n c hc) hp hcu hdu
            simp only [Bool.false_eq_true, if_false, if_true]
            omega
        | false =>
            simp only [Bool.false_eq_true, if_false]
            omega
  · rw [hx]
    exact hj hash

theorem stateSound_of_holds (hs : s.Holds (fun _ => True) (CallOk inviteDigest))
    (hj : UsesCounted inviteDigest s) : StateSound inviteDigest s := by
  constructor
  · intro r hr
    have hsub : s.calls.countP (hasGrantedFor inviteDigest r.tokenHash) ≤
        s.calls.countP (hasUsedFor inviteDigest r.tokenHash) := by
      apply List.countP_mono_left
      intro c hc h
      obtain ⟨n, hn⟩ := List.mem_iff_getElem?.mp hc
      have hok := hs.calls n c hn
      unfold hasGrantedFor at h
      unfold hasUsedFor
      split at h
      · rename_i token user email hname
        simp only [Bool.and_eq_true] at h ⊢
        exact ⟨h.1, (hok token user email hname).used h.2⟩
      · cases h
    calc s.calls.countP (hasGrantedFor inviteDigest r.tokenHash)
        ≤ s.calls.countP (hasUsedFor inviteDigest r.tokenHash) := hsub
      _ ≤ s.shared.usesOf r.tokenHash := hj r.tokenHash
      _ = r.uses := usesOf_tokenHash hr
      _ ≤ r.maxUses := r.uses_le
  · intro c hc hacc e he
    obtain ⟨n, hn⟩ := List.mem_iff_getElem?.mp hc
    unfold isAccept at hacc
    split at hacc
    · rename_i token user email hname
      exact (hs.calls n c hn token user email hname).failed e he
    · cases hacc

/-- In an undisturbed run no accept restores a revoked member, lowers a tier,
writes a row for the creator or redeems a dead invite; no invite is redeemed more
often than it may be; and an accept that fails has spent nothing. -/
theorem accept_sound (db : Db) (x : List (Turn Op Outcome))
    (hx : Run.Always (Calls.step (service inviteDigest)) (Undisturbed inviteDigest)
      (Calls.idle db) x) :
    Run.Always (Calls.step (service inviteDigest))
      (fun s e => StepSound inviteDigest s e ∧
        StateSound inviteDigest (s.step (service inviteDigest) e)) (Calls.idle db) x := by
  apply Run.always_of_invariant (C := Undisturbed inviteDigest)
    (I := fun s => s.Holds (fun _ => True) (CallOk inviteDigest) ∧ UsesCounted inviteDigest s)
  · rintro s e ⟨hs, hj⟩ he
    exact ⟨keeps_callOk.step hs he, usesCounted_step hs hj⟩
  · rintro s e ⟨hs, hj⟩ he
    exact ⟨stepSound_of_holds hs,
      stateSound_of_holds (keeps_callOk.step hs he) (usesCounted_step hs hj)⟩
  · refine ⟨Calls.holds_idle trivial, ?_⟩
    intro hash
    exact Nat.zero_le _
  · exact hx

end Sound

/-! ## Two runs -/

/-- A project with one invite, for a prompter. -/
def invitedDb (members : Keyed MemberRow.key) : Db where
  now := 0
  projects := ⟨[⟨1, "o"⟩], by decide⟩
  members := members
  invites := ⟨[⟨1, 1, ⟨"prompter", by decide⟩, "t", none, "o", 0, 10, 1, 0, none, by decide⟩],
    by decide⟩
  hashes := by decide

def invitee : Principal := ⟨"u", by decide⟩

/-- An accept, and the grant of another member in the midst of it. -/
def grantedBeside : List (Turn Op Outcome) :=
  [.start (.accept "t" invitee none), .start (.grant ⟨1, "o"⟩ "o" "w" .guest), .step 0 .runs,
    .step 0 .runs, .step 0 .runs, .step 1 .runs, .step 0 .runs, .step 0 .runs, .step 0 .runs,
    .step 0 .runs, .step 1 .runs]

theorem accept_sound_grantedBeside :
    Run.Always (Calls.step (service id))
      (fun s e => StepSound id s e ∧ StateSound id (s.step (service id) e))
      (Calls.idle (invitedDb Keyed.empty)) grantedBeside :=
  accept_sound (invitedDb Keyed.empty) grantedBeside (by decide +kernel)

/-- The invitee is a guest already. -/
def guestDb : Db := invitedDb ⟨[⟨1, "u", ⟨"guest", by decide⟩, none, 0, 0, none⟩], by decide⟩

/-- An accept that has counted its use, and then the revocation of its user. -/
def revokedBeside : List (Turn Op Outcome) :=
  [.start (.accept "t" invitee none), .start (.revoke 1 "u"), .step 0 .runs, .step 0 .runs,
    .step 0 .runs, .step 0 .runs, .step 0 .runs, .step 1 .runs]

def revokedState : ApiCalls := Run.run (Calls.step (service id)) (Calls.idle guestDb) revokedBeside

/-- A revocation between the checks of an accept and its grant is undone. -/
theorem accept_restores : ¬ ∀ (inviteDigest : String → String) (db : Db)
    (x : List (Turn Op Outcome)), Run.Always (Calls.step (service inviteDigest))
      (fun s e => StepSound inviteDigest s e ∧
        StateSound inviteDigest (s.step (service inviteDigest) e)) (Calls.idle db) x := by
  intro h
  have hlast := (Run.always_append.mp (h id guestDb (revokedBeside ++ [.step 0 .runs]))).2.1.1
  have hstep := hlast 0 .runs "t" invitee none (revokedState.calls.get ⟨0, by decide +kernel⟩)
    ((revokedState.step (service id) (.step 0 .runs)).calls.get ⟨0, by decide +kernel⟩) rfl
    rfl rfl rfl
  have hcount :
      0 < (revokedState.step (service id) (.step 0 .runs)).shared.countRevoked 1 "u" :=
    hstep.revoked 1 "u" (by decide +kernel)
  exact absurd hcount (by decide +kernel)

end Wheel.Api.Membership
