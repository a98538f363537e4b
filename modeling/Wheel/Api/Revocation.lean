import Wheel.Api.Credentials

/-!
# What a revocation ends

A token is checked together with every token it was minted by, so a revocation reaches
what is minted after it as well as what was minted before. A session is looked up but its
password is not, and the session a token was minted by is not looked up at all: these are
ended by the transaction of the password change alone, and it reaches what is there at
that moment. A login or a mint that was half-way through writes afterwards.
-/

namespace Wheel.Api.Credentials

open Concurrency Wheel.Api.Membership

namespace World

/-- A token and a token of its minting chain. -/
def Ancestor (w : World) : TokenRow → TokenRow → Prop :=
  Relation.ReflTransGen fun child parent =>
    parent ∈ w.tokens.rows ∧ child.mintedBy = some parent.id

variable {w t : World} {o : Oracle}

theorem mem_chain_iff {hash : String} {a : TokenRow} :
    a ∈ w.chain hash ↔ ∃ r ∈ w.tokens.rows, r.tokenHash = hash ∧ w.Ancestor r a := by
  have hjoined : Recursive.Joined w.tokens.rows (fun child parent => mints parent child) =
      fun child parent => parent ∈ w.tokens.rows ∧ child.mintedBy = some parent.id := by
    funext child parent
    simp [Recursive.Joined, mints]
  unfold chain Ancestor
  rw [Recursive.mem_answer_iff, hjoined]
  simp only [List.mem_filter, decide_eq_true_eq, and_assoc]

/-- A live token is in the table. -/
theorem exists_of_liveToken {hash : String} {v : Verified} (h : w.liveToken hash = some v) :
    ∃ r ∈ w.tokens.rows, r.tokenHash = hash ∧ r.id = v.tokenId ∧ r.userId = v.userId := by
  unfold liveToken at h
  split at h
  · cases h
  · obtain ⟨r, hr, rfl⟩ := Option.map_eq_some_iff.mp h
    exact ⟨r, List.mem_of_find?_eq_some hr, by simpa using List.find?_some hr, rfl, rfl⟩

/-- Nothing of the chain of a live token is revoked. -/
theorem revokedAt_of_liveToken {hash : String} {v : Verified} (h : w.liveToken hash = some v)
    {r a : TokenRow} (hr : r ∈ w.tokens.rows) (hhash : r.tokenHash = hash)
    (ha : w.Ancestor r a) : a.revokedAt = none := by
  unfold liveToken at h
  split at h
  · cases h
  · rename_i hlive
    by_contra hne
    exact hlive (List.any_eq_true.mpr ⟨a, mem_chain_iff.mpr ⟨r, hr, hhash, ha⟩,
      Option.isSome_iff_ne_none.mpr hne⟩)

theorem ancestor_mem {r a : TokenRow} (hr : r ∈ w.tokens.rows) (h : w.Ancestor r a) :
    a ∈ w.tokens.rows := by
  cases h with
  | refl => exact hr
  | tail _ hab => exact hab.1

/-! ## What a section does -/

/-- A row stands for another one that belonged to the same account and session, and was
revoked only if this one is. -/
structure StandsFor (r' r : TokenRow) : Prop where
  id : r'.id = r.id
  userId : r'.userId = r.userId
  sessionId : r'.sessionId = r.sessionId
  revoked : r.revokedAt.isSome → r'.revokedAt.isSome

theorem standsFor_refl (r : TokenRow) : StandsFor r r := ⟨rfl, rfl, rfl, fun h => h⟩

/-- The tokens of the second world are those of the first one, rewritten. -/
def Rewritten (w t : World) : Prop :=
  ∃ f, (∀ r, StandsFor (f r) r) ∧ t.tokens.rows = w.tokens.rows.map f

theorem rewritten_refl (w : World) : Rewritten w w :=
  ⟨id, standsFor_refl, (List.map_id _).symm⟩

theorem rewritten_updateWhere (p : TokenRow → Bool) (f : TokenRow → TokenRow)
    (hid : ∀ r, (f r).id = r.id) (hf : ∀ r, StandsFor (f r) r) :
    Rewritten w { w with tokens := w.tokens.updateWhere p f hid } := by
  refine ⟨fun r => if p r then f r else r, fun r => ?_, rfl⟩
  show StandsFor (if p r then f r else r) r
  split
  · exact hf r
  · exact standsFor_refl r

theorem rewritten_revokeFamily (now : ℕ) (p : TokenRow → Bool) :
    Rewritten w (w.revokeFamily now p) := by
  refine rewritten_updateWhere _ (fun r => { r with revokedAt := some (r.revokedAt.getD now) })
    (fun _ => rfl) fun r => ⟨rfl, rfl, rfl, fun _ => rfl⟩

theorem rewritten_verifyToken (now : ℕ) (hash : String) :
    Rewritten w (w.verifyToken now hash) := by
  unfold verifyToken
  split
  · exact rewritten_updateWhere _ (fun r => { r with lastUsedAt := some now }) (fun _ => rfl)
      fun r => ⟨rfl, rfl, rfl, fun h => h⟩
  · exact rewritten_refl w

theorem Rewritten.exists_mem (h : Rewritten w t) {r' : TokenRow} (hr : r' ∈ t.tokens.rows) :
    ∃ r ∈ w.tokens.rows, StandsFor r' r := by
  obtain ⟨f, hf, hrows⟩ := h
  rw [hrows] at hr
  obtain ⟨r, hmem, rfl⟩ := List.mem_map.mp hr
  exact ⟨r, hmem, hf r⟩

/-- What is revoked stays revoked. -/
def IsRevoked (w : World) (id : Uuid) : Prop :=
  ∃ r ∈ w.tokens.rows, r.id = id ∧ r.revokedAt.isSome

theorem Rewritten.isRevoked (h : Rewritten w t) {id : Uuid} (hid : w.IsRevoked id) :
    t.IsRevoked id := by
  obtain ⟨f, hf, hrows⟩ := h
  obtain ⟨r, hr, rfl, hrev⟩ := hid
  exact ⟨f r, hrows ▸ List.mem_map_of_mem hr, (hf r).id, (hf r).revoked hrev⟩

/-- What a family starts from is revoked with it. -/
theorem isRevoked_revokeFamily {now : ℕ} {p : TokenRow → Bool} {r : TokenRow}
    (hr : r ∈ w.tokens.rows) (hp : p r = true) : (w.revokeFamily now p).IsRevoked r.id := by
  have hfamily : r ∈ w.family p :=
    Recursive.mem_answer_iff.mpr ⟨r, List.mem_filter.mpr ⟨hr, hp⟩, .refl⟩
  refine ⟨_, List.mem_map_of_mem hr, ?_, ?_⟩
  · split <;> rfl
  · rw [if_pos (decide_eq_true (List.mem_map_of_mem hfamily))]
    rfl

/-- All that a section can do to the tables. -/
inductive Effect (w : World) (o : Oracle) : Op → World → Prop
  | nothing {op : Op} : Effect w o op w
  | user {row : UserRow} {t : World} (h : w.insertUser row = some t) :
      Effect w o (.insertUser row) t
  | session {row : SessionRow} {checked : ℕ} {t : World} (hf : o.fails = false)
      (h : w.insertSession row checked = some t) : Effect w o (.insertSession row checked) t
  | sessionsDeleted {op : Op} (p : SessionRow → Bool) :
      Effect w o op { w with sessions := w.sessions.deleteWhere p }
  | password {id : Uuid} {hash : String} :
      Effect w o (.setPassword id hash) (w.setPassword o.now id hash)
  | token {id : Uuid} {userId name hash : String} {mintedBy sessionId : Option Uuid} {t : World}
      (hf : o.fails = false)
      (h : w.insertToken ⟨id, userId, name, hash, mintedBy, sessionId, o.now, none, none⟩ =
        some t) : Effect w o (.insertToken id userId name hash mintedBy sessionId) t
  | used {hash : String} : Effect w o (.verifyToken hash) (w.verifyToken o.now hash)
  | revoked {id : Uuid} {owner : Option String} :
      Effect w o (.revokeToken id owner) (w.revokeFamily o.now (scope id owner))

theorem statement_fst {α : Type} (w' : World) (a : α) :
    (w.statement o w' a).1 = if o.fails then w else w' := by
  unfold statement
  split <;> rfl

theorem effect_of_exec {op : Op} {a : op.Answer} (h : w.exec o op = some (t, a)) :
    Effect w o op t := by
  have hfst := congrArg (Option.map Prod.fst) h
  cases op with
  | limit =>
      cases hfst
      exact .nothing
  | userByEmail email =>
      simp only [exec, Option.map_some, statement_fst, ite_self, Option.some.injEq] at hfst
      exact hfst ▸ .nothing
  | userById id =>
      cases hfst
      exact .nothing
  | insertUser row =>
      simp only [exec, Option.map_some, Option.some.injEq] at hfst
      cases hw : w.insertUser row with
      | none =>
          simp only [hw, statement_fst, ite_self] at hfst
          exact hfst ▸ .nothing
      | some w' =>
          simp only [hw, statement_fst] at hfst
          split at hfst
          · exact hfst ▸ .nothing
          · exact .user (hfst ▸ hw)
  | insertSession row checked =>
      simp only [exec] at hfst
      split at hfst
      · cases hfst
        exact .nothing
      · rename_i hf
        rw [Option.map_map, Option.map_some] at hfst
        obtain ⟨w', hw, rfl⟩ := Option.map_eq_some_iff.mp hfst
        exact .session (Bool.eq_false_iff.mpr hf) hw
  | sessionById id =>
      simp only [exec, Option.map_some, statement_fst, ite_self, Option.some.injEq] at hfst
      exact hfst ▸ .nothing
  | deleteSession id =>
      simp only [exec, Option.map_some, statement_fst, Option.some.injEq] at hfst
      split at hfst
      · exact hfst ▸ .nothing
      · exact hfst ▸ .sessionsDeleted _
  | sweep =>
      simp only [exec, Option.map_some, statement_fst, Option.some.injEq] at hfst
      split at hfst
      · exact hfst ▸ .nothing
      · exact hfst ▸ .sessionsDeleted _
  | setPassword id hash =>
      simp only [exec, Option.map_some, statement_fst, Option.some.injEq] at hfst
      split at hfst
      · exact hfst ▸ .nothing
      · exact hfst ▸ .password
  | insertToken id userId name hash mintedBy sessionId =>
      simp only [exec, Option.map_some, Option.some.injEq] at hfst
      cases hw : w.insertToken
          ⟨id, userId, name, hash, mintedBy, sessionId, o.now, none, none⟩ with
      | none =>
          simp only [hw] at hfst
          exact hfst ▸ .nothing
      | some w' =>
          simp only [hw, statement_fst] at hfst
          split at hfst
          · exact hfst ▸ .nothing
          · rename_i hf
            exact .token (Bool.eq_false_iff.mpr hf) (hfst ▸ hw)
  | verifyToken hash =>
      simp only [exec, Option.map_some, statement_fst, Option.some.injEq] at hfst
      split at hfst
      · exact hfst ▸ .nothing
      · exact hfst ▸ .used
  | revokeToken id owner =>
      simp only [exec, Option.map_some, statement_fst, Option.some.injEq] at hfst
      split at hfst
      · exact hfst ▸ .nothing
      · exact hfst ▸ .revoked

/-! ### What stays as it is -/

/-- An inserted row leaves the other ones alone. -/
theorem get?_insert_of_some {κ α : Type} [DecidableEq κ] {key : α → κ} {t u : Keyed key}
    {a b : α} {k : κ} (h : t.insert a = some u) (hb : t.get? k = some b) :
    u.get? k = some b := by
  rw [Keyed.get?_of_insert h, if_neg, hb]
  rintro rfl
  rw [(Keyed.insert_eq_some_iff.mp h).1] at hb
  cases hb

theorem insertSession_eq_some {row : SessionRow} {checked : ℕ}
    (h : w.insertSession row checked = some t) :
    w.opened.insert ⟨row.id, row.userId, checked, w.changes row.userId⟩ = some t.opened ∧
      w.sessions.insert row = some t.sessions ∧ t.users = w.users ∧ t.tokens = w.tokens := by
  obtain ⟨opened, hopened, h⟩ := Option.bind_eq_some_iff.mp h
  obtain ⟨sessions, hsessions, rfl⟩ := Option.map_eq_some_iff.mp h
  exact ⟨hopened, hsessions, rfl, rfl⟩

theorem insertToken_eq_some {row : TokenRow} (h : w.insertToken row = some t) :
    ∃ tokens, w.tokens.insert row = some tokens ∧ t = { w with tokens } := by
  unfold insertToken at h
  split at h
  · cases h
  · obtain ⟨tokens, htokens, rfl⟩ := Option.map_eq_some_iff.mp h
    exact ⟨tokens, htokens, rfl⟩

theorem insertUser_eq_some {row : UserRow} (h : w.insertUser row = some t) :
    ∃ users, w.users.insert { row with changes := 0 } = some users ∧ t = { w with users } := by
  unfold insertUser at h
  split at h
  · cases h
  · obtain ⟨users, husers, rfl⟩ := Option.map_eq_some_iff.mp h
    exact ⟨users, husers, rfl⟩

theorem opened_of_effect {op : Op} (h : Effect w o op t) {sid : Uuid} {p : Opened}
    (hp : w.opened.get? sid = some p) : t.opened.get? sid = some p := by
  cases h with
  | nothing => exact hp
  | user h =>
      obtain ⟨users, -, rfl⟩ := insertUser_eq_some h
      exact hp
  | session hf h => exact get?_insert_of_some (insertSession_eq_some h).1 hp
  | sessionsDeleted p => exact hp
  | password => exact hp
  | token hf h =>
      obtain ⟨tokens, -, rfl⟩ := insertToken_eq_some h
      exact hp
  | used =>
      unfold verifyToken
      split <;> exact hp
  | revoked => exact hp

theorem isRevoked_of_effect {op : Op} (h : Effect w o op t) {id : Uuid} (hid : w.IsRevoked id) :
    t.IsRevoked id := by
  cases h with
  | nothing => exact hid
  | user h =>
      obtain ⟨users, -, rfl⟩ := insertUser_eq_some h
      exact hid
  | session hf h =>
      obtain ⟨-, -, -, htokens⟩ := insertSession_eq_some h
      unfold IsRevoked
      rw [htokens]
      exact hid
  | sessionsDeleted p => exact hid
  | password => exact (rewritten_revokeFamily _ _).isRevoked hid
  | token hf h =>
      obtain ⟨tokens, htokens, rfl⟩ := insertToken_eq_some h
      obtain ⟨r, hr, hrid, hrev⟩ := hid
      refine ⟨r, ?_, hrid, hrev⟩
      rw [(Keyed.insert_eq_some_iff.mp htokens).2]
      exact List.mem_append_left _ hr
  | used => exact (rewritten_verifyToken _ _).isRevoked hid
  | revoked => exact (rewritten_revokeFamily _ _).isRevoked hid

theorem changes_setPassword_of_ne {now : ℕ} {id k : Uuid} {hash : String} (h : k ≠ id) :
    (w.setPassword now id hash).changes k = w.changes k := by
  unfold changes setPassword revokeFamily
  rw [Keyed.get?_modify, if_neg h]

theorem changes_insertUser {row : UserRow} (h : w.insertUser row = some t) (k : Uuid) :
    t.changes k = w.changes k := by
  obtain ⟨users, husers, rfl⟩ := insertUser_eq_some h
  show (users.get? k).elim 0 UserRow.changes = _
  rw [Keyed.get?_of_insert husers]
  split
  · rename_i hk
    subst hk
    rw [changes, (Keyed.insert_eq_some_iff.mp husers).1]
    rfl
  · rfl

/-! ## The invariant -/

/-- Every session there is was opened under the password its account has, and so was every
session that minted a token that is not revoked. -/
structure Sound (w : World) : Prop where
  live : ∀ sid r, w.sessions.get? sid = some r → ∃ p, w.opened.get? sid = some p ∧
    p.userId = r.userId ∧ p.checked = w.changes r.userId ∧ p.born = w.changes r.userId
  minted : ∀ r ∈ w.tokens.rows, ∀ sid, r.sessionId = some sid → ∃ p,
    w.opened.get? sid = some p ∧ r.userId = p.userId.display ∧
      (r.revokedAt = none → p.born = w.changes p.userId)

/-- A login or a mint writes under the password that it found: the one a session is opened
with is still that of its account, and a token is minted by a session that was opened under
the password its account still has. -/
def Permits (w : World) (o : Oracle) : Op → Prop
  | .insertSession row checked => o.fails = false → checked = w.changes row.userId
  | .insertToken _ _ _ _ _ (some sid) =>
      o.fails = false → ∀ p ∈ w.opened.rows, p.id = sid → p.born = w.changes p.userId
  | _ => True

/-- A token is minted by a session of the account that it is for. -/
def Attributes (w : World) (op : Op) : Prop :=
  ∀ id userId name hash mintedBy sid, op = .insertToken id userId name hash mintedBy (some sid) →
    ∃ p, w.opened.get? sid = some p ∧ userId = p.userId.display

/-- Tokens that were rewritten, and nothing else, leave the invariant. -/
theorem Sound.rewritten (h : Sound w) (hr : Rewritten w t) (hu : t.users = w.users)
    (hs : t.sessions = w.sessions) (ho : t.opened = w.opened) : Sound t := by
  have hchanges : ∀ k, t.changes k = w.changes k := fun k => by rw [changes, hu, changes]
  constructor
  · intro sid r hr
    rw [hs] at hr
    simpa only [ho, hchanges] using h.live sid r hr
  · intro r' hr' sid hsid
    obtain ⟨r, hmem, hstands⟩ := hr.exists_mem hr'
    obtain ⟨p, hp, hid, hborn⟩ := h.minted r hmem sid (hstands.sessionId ▸ hsid)
    refine ⟨p, ho ▸ hp, hstands.userId.trans hid, fun hnone => ?_⟩
    rw [hchanges]
    refine hborn ?_
    by_contra hne
    have hrev := hstands.revoked (Option.isSome_iff_ne_none.mpr hne)
    rw [hnone] at hrev
    cases hrev

/-- A password change ends what its account's sessions are and minted. -/
theorem Sound.setPassword (h : Sound w) (now : ℕ) (id : Uuid) (hash : String) :
    Sound (w.setPassword now id hash) := by
  constructor
  · intro sid r hr
    have hr' : (w.sessions.deleteWhere fun r => r.userId = id).get? sid = some r := hr
    rw [Keyed.get?_deleteWhere, Option.filter_eq_some_iff] at hr'
    have hne : r.userId ≠ id := by simpa using hr'.2
    rw [changes_setPassword_of_ne hne]
    exact h.live sid r hr'.1
  · intro r' hr' sid hsid
    have hrewritten : Rewritten w (w.setPassword now id hash) := rewritten_revokeFamily _ _
    obtain ⟨r, hmem, hstands⟩ := hrewritten.exists_mem hr'
    obtain ⟨p, hp, huser, hborn⟩ := h.minted r hmem sid (hstands.sessionId ▸ hsid)
    refine ⟨p, hp, hstands.userId.trans huser, fun hnone => ?_⟩
    by_cases hid : p.userId = id
    · -- the token is one that the change revokes
      have hbase : (decide (r.userId = id.display ∧ r.sessionId.isSome)) = true := by
        rw [← hstands.sessionId, hsid, huser, hid]
        simp
      obtain ⟨r'', hr'', hrid, hrev⟩ :
          (w.setPassword now id hash).IsRevoked r.id := isRevoked_revokeFamily hmem hbase
      have heq : r'' = r' := List.inj_on_of_nodup_map (w.setPassword now id hash).tokens.nodup
        hr'' hr' (hrid.trans hstands.id.symm)
      rw [heq, hnone] at hrev
      cases hrev
    · rw [changes_setPassword_of_ne hid]
      refine hborn ?_
      by_contra hne
      have hrev := hstands.revoked (Option.isSome_iff_ne_none.mpr hne)
      rw [hnone] at hrev
      cases hrev

theorem sound_of_effect {op : Op} (h : Sound w) (he : Effect w o op t) (hp : w.Permits o op)
    (ha : w.Attributes op) : Sound t := by
  cases he with
  | nothing => exact h
  | user hu =>
      have hchanges := changes_insertUser hu
      obtain ⟨users, -, rfl⟩ := insertUser_eq_some hu
      constructor
      · intro sid r hr
        simpa only [hchanges] using h.live sid r hr
      · intro r hr sid hsid
        simpa only [hchanges] using h.minted r hr sid hsid
  | session hf hi =>
      rename_i row checked
      obtain ⟨hopened, hsessions, husers, htokens⟩ := insertSession_eq_some hi
      have hchanges : ∀ k, t.changes k = w.changes k := fun k => by rw [changes, husers, changes]
      constructor
      · intro sid r hr
        rw [Keyed.get?_of_insert hsessions] at hr
        split at hr
        · rename_i hid
          cases hr
          refine ⟨_, by rw [Keyed.get?_of_insert hopened, if_pos hid], rfl, ?_, ?_⟩
          · rw [hchanges]
            exact hp hf
          · rw [hchanges]
        · obtain ⟨p, hp, hrest⟩ := h.live sid r hr
          exact ⟨p, get?_insert_of_some hopened hp, by simpa only [hchanges] using hrest⟩
      · intro r hr sid hsid
        rw [htokens] at hr
        obtain ⟨p, hp, hrest⟩ := h.minted r hr sid hsid
        exact ⟨p, get?_insert_of_some hopened hp, by simpa only [hchanges] using hrest⟩
  | sessionsDeleted q =>
      constructor
      · intro sid r hr
        have hr' : (w.sessions.deleteWhere q).get? sid = some r := hr
        rw [Keyed.get?_deleteWhere, Option.filter_eq_some_iff] at hr'
        exact h.live sid r hr'.1
      · exact h.minted
  | password => exact h.setPassword _ _ _
  | token hf hi =>
      obtain ⟨tokens, htokens, rfl⟩ := insertToken_eq_some hi
      refine ⟨h.live, fun r hr sid hsid => ?_⟩
      have hr' : r ∈ tokens.rows := hr
      rw [(Keyed.insert_eq_some_iff.mp htokens).2] at hr'
      rcases List.mem_append.mp hr' with hold | hnew
      · exact h.minted r hold sid hsid
      · rw [List.mem_singleton.mp hnew] at hsid ⊢
        cases hsid
        obtain ⟨p, hget, huser⟩ := ha _ _ _ _ _ sid rfl
        obtain ⟨hmem, hid⟩ := Keyed.get?_eq_some_iff.mp hget
        exact ⟨p, hget, huser, fun _ => hp hf p hmem hid⟩
  | used =>
      unfold verifyToken
      split
      · exact h.rewritten (rewritten_updateWhere _ _ _ fun r => ⟨rfl, rfl, rfl, fun h => h⟩)
          rfl rfl rfl
      · exact h
  | revoked => exact h.rewritten (rewritten_revokeFamily _ _) rfl rfl rfl

end World

/-! ## What a call performs -/

/-- The session was found to be live, as one of the account. -/
def SessionSeen (x : List (Performed Op.Answer)) (sid userId : Uuid) : Prop :=
  ⟨.sessionById sid, Except.ok (some userId)⟩ ∈ x

/-- The token was revoked. -/
def TokenRevoked (x : List (Performed Op.Answer)) (id : Uuid) : Prop :=
  ∃ owner, ⟨.revokeToken id owner, Except.ok true⟩ ∈ x

/-- A token is minted by a session for the account whose session it was found to be. -/
def Performs (x : List (Performed Op.Answer)) (op : Op) : Prop :=
  ∀ id userId name hash mintedBy sid, op = .insertToken id userId name hash mintedBy (some sid) →
    ∃ user, SessionSeen x sid user ∧ userId = user.display

/-- A section that mints no token by a session. -/
def MintsNone (op : Op) : Prop :=
  ∀ id userId name hash mintedBy sid, op ≠ .insertToken id userId name hash mintedBy (some sid)

theorem performs_of_mintsNone {x : List (Performed Op.Answer)} {op : Op} (h : MintsNone op) :
    Performs x op :=
  fun id userId name hash mintedBy sid hop => absurd hop (h id userId name hash mintedBy sid)

/-- A program that mints no token by a session, whatever it is answered. -/
abbrev Quiet {α : Type} (p : Prog α) : Prop := p.Only MintsNone

section Quiet

open Program

variable {α : Type} (cfg : Config)

theorem quiet_sql {x : Prog (Except SqlError α)} (hx : Quiet x) : Quiet (sql x).run := by
  refine hx.bind fun r => ?_
  cases r with
  | ok a => trivial
  | error e => trivial

theorem quiet_limit : Quiet limit.run := only_perform (by simp [MintsNone])

theorem quiet_issueSession (clock : ℕ) (sid : Uuid) (user : UserRow) :
    Quiet (issueSession cfg clock sid user).run := by
  refine Only.run_bind (quiet_sql (only_perform (by simp [MintsNone]))) fun _ => ?_
  split
  · exact only_run_pure
  · exact only_run_throw

theorem quiet_authenticate (email password : String) : Quiet (authenticate cfg email password) := by
  unfold authenticate
  split
  · trivial
  · refine Only.bind (only_perform (by simp [MintsNone])) fun r => ?_
    split <;> trivial

theorem quiet_requireLocal : Quiet (requireLocal cfg).run := by
  unfold requireLocal
  split
  · exact only_run_pure
  · exact only_run_throw

theorem quiet_login (clock : ℕ) (sid : Uuid) (email password : String) :
    Quiet (login cfg clock sid email password).run := by
  refine Only.run_bind (quiet_requireLocal cfg) fun _ => Only.run_bind quiet_limit fun _ => ?_
  refine Only.run_bind (only_run_lift (quiet_authenticate cfg email password)) fun user => ?_
  cases user with
  | none => exact only_run_throw
  | some user => exact quiet_issueSession cfg clock sid user

theorem quiet_createUser (id : Uuid) (salt email password : String) :
    Quiet (createUser cfg id salt email password).run := by
  unfold createUser
  split
  · exact only_run_throw
  · exact only_run_throw
  · split
    · exact only_run_throw
    · refine Only.run_bind (quiet_sql (only_perform (by simp [MintsNone]))) fun user => ?_
      cases user with
      | none => exact only_run_throw
      | some user => exact only_run_pure

theorem quiet_signup (clock : ℕ) (id sid : Uuid) (salt email password : String) :
    Quiet (signup cfg clock id sid salt email password).run := by
  refine Only.run_bind (quiet_requireLocal cfg) fun _ => ?_
  split
  · exact only_run_throw
  · refine Only.run_bind quiet_limit fun _ => ?_
    exact Only.run_bind (quiet_createUser cfg id salt email password) fun user =>
      quiet_issueSession cfg clock sid user

theorem quiet_logout (presented : Option String) : Quiet (logout cfg presented).run := by
  refine Only.run_bind (quiet_requireLocal cfg) fun _ => ?_
  split
  · exact Only.run_bind (quiet_sql (only_perform (by simp [MintsNone]))) fun _ => only_run_pure
  · exact only_run_pure

theorem quiet_verifySession (clock : ℤ) (token : String) :
    Quiet (verifySession cfg clock token).run := by
  unfold verifySession
  split
  · exact only_run_throw
  · split
    · exact only_run_throw
    · refine Only.run_bind (quiet_sql (only_perform (by simp [MintsNone]))) fun live => ?_
      split
      · exact only_run_pure
      · exact only_run_throw

theorem quiet_verify (token : String) : Quiet (verify cfg token).run := by
  refine Only.run_bind (quiet_sql (only_perform (by simp [MintsNone]))) fun v => ?_
  cases v with
  | none => exact only_run_throw
  | some v => exact only_run_pure

theorem quiet_authUser (clock : ℤ) (presented : Option String) :
    Quiet (authUser cfg clock presented).run := by
  unfold authUser
  split
  · exact only_run_throw
  · split
    · exact Only.run_bind (quiet_verify cfg _) fun _ => only_run_pure
    · split
      · exact Only.run_bind (quiet_verifySession cfg clock _) fun _ => only_run_pure
      · split
        · exact only_run_pure
        · exact only_run_throw

theorem quiet_setNewPassword (id : Uuid) (salt current new : String) :
    Quiet (setNewPassword cfg id salt current new).run := by
  unfold setNewPassword
  split
  · exact only_run_throw
  · refine Only.run_bind (quiet_sql (only_perform (by simp [MintsNone]))) fun row => ?_
    split
    · split
      · exact only_run_throw
      · exact quiet_sql (only_perform (by simp [MintsNone]))
    · exact only_run_throw

theorem quiet_changePassword (clock : ℤ) (presented : Option String)
    (salt current new : String) :
    Quiet (changePassword cfg clock presented salt current new).run := by
  refine Only.run_bind (quiet_authUser cfg clock presented) fun user => ?_
  refine Only.run_bind (quiet_requireLocal cfg) fun _ => ?_
  split
  · exact only_run_throw
  · exact Only.run_bind (quiet_setNewPassword cfg _ salt current new) fun _ => only_run_pure

theorem quiet_revoke (id : Uuid) (owner : Option String) : Quiet (revoke id owner).run := by
  refine Only.run_bind (quiet_sql (only_perform (by simp [MintsNone]))) fun changed => ?_
  cases changed with
  | true => exact only_run_pure
  | false => exact only_run_throw

theorem quiet_revokeOwn (clock : ℤ) (presented : Option String) (id : String) :
    Quiet (revokeOwn cfg clock presented id).run := by
  refine Only.run_bind (quiet_authUser cfg clock presented) fun user => ?_
  split
  · exact quiet_revoke _ _
  · exact only_run_throw

/-- What is minted by the operator, by another token or at the identity provider has no
session. -/
theorem quiet_issue (userId name : String) {mint : Mint} (hmint : mint.sessionId = none)
    (id : Uuid) (token : String) : Quiet (issue cfg userId name mint id token).run := by
  unfold issue
  split
  · exact only_run_throw
  · exact Only.run_bind (quiet_sql (only_perform (by simp [MintsNone, hmint]))) fun _ =>
      only_run_pure

end Quiet

section Obeys

open Program

variable (cfg : Config)

theorem obeys_of_quiet {α : Type} {p : Prog α} (hp : Quiet p) (x : List (Performed Op.Answer)) :
    p.Obeys Performs (fun _ _ => True) x :=
  hp.obeys (fun _ _ => performs_of_mintsNone) (fun _ _ => trivial) x

/-- A user who presents a session was found to be whose session it is. -/
def Attributed (x : List (Performed Op.Answer)) (user : AuthUser) : Prop :=
  ∀ sid, user.credential = .session (some sid) →
    ∃ u, SessionSeen x sid u ∧ user.userId = u.display

theorem obeys_verifySession (clock : ℤ) (token : String) (x : List (Performed Op.Answer)) :
    (verifySession cfg clock token).run.Obeys Performs
      (fun y r => ∀ live, r = .ok live →
        ∃ u, SessionSeen y live.sessionId u ∧ live.userId = u.display) x := by
  unfold verifySession
  split
  · exact fun _ h => (by cases h)
  · split
    · exact fun _ h => (by cases h)
    · rename_i claims _ sid _
      refine ⟨performs_of_mintsNone (by simp [MintsNone]), fun live => ?_⟩
      cases live with
      | error e => exact fun _ h => (by cases h)
      | ok live =>
          show Obeys _ _ _ (ite _ _ _ : Step LiveSession).run
          split
          · rename_i hsub
            obtain ⟨u, rfl, hu⟩ := Option.map_eq_some_iff.mp hsub
            intro live hlive
            cases hlive
            exact ⟨u, List.mem_cons_self, hu.symm⟩
          · exact fun _ h => (by cases h)

theorem obeys_authUser (clock : ℤ) (presented : Option String)
    (x : List (Performed Op.Answer)) :
    (authUser cfg clock presented).run.Obeys Performs
      (fun y r => ∀ user, r = .ok user → Attributed y user) x := by
  unfold authUser
  split
  · exact fun _ h => (by cases h)
  · split
    · refine Obeys.run_bind (obeys_of_quiet (quiet_verify cfg _) x) (fun y v _ => ?_)
        fun _ _ _ _ h => (by cases h)
      intro user huser sid hsid
      cases huser
      cases hsid
    · split
      · refine Obeys.run_bind (obeys_verifySession cfg clock _ x) (fun y live hlive => ?_)
          fun _ _ _ _ h => (by cases h)
        intro user huser sid hsid
        cases huser
        cases hsid
        exact hlive live rfl
      · split
        · intro user huser sid hsid
          cases huser
          cases hsid
        · exact fun _ h => (by cases h)

theorem obeys_issue (userId name : String) (mint : Mint) (id : Uuid) (token : String)
    {x : List (Performed Op.Answer)}
    (hmint : ∀ sid, mint.sessionId = some sid → ∃ u, SessionSeen x sid u ∧ userId = u.display) :
    (issue cfg userId name mint id token).run.Obeys Performs (fun _ _ => True) x := by
  unfold issue
  split
  · trivial
  · refine ⟨fun _ _ _ _ _ sid hop => ?_, fun createdAt => ?_⟩
    · injection hop with _ huser _ _ _ hsid
      exact huser ▸ hmint sid hsid
    · cases createdAt with
      | ok _ => trivial
      | error _ => trivial

theorem obeys_create (clock : ℤ) (presented : Option String) (name : String) (id : Uuid)
    (token : String) (x : List (Performed Op.Answer)) :
    (create cfg clock presented name id token).run.Obeys Performs (fun _ _ => True) x := by
  refine Obeys.run_bind (obeys_authUser cfg clock presented x) (fun y user huser => ?_)
    fun _ _ _ => trivial
  refine Obeys.run_bind (Q := fun z _ => y ⊆ z)
    ⟨performs_of_mintsNone (by simp [MintsNone]), fun _ => List.subset_cons_self _ y⟩
    (fun z _ hz => ?_) fun _ _ _ => trivial
  split
  · exact obeys_issue cfg _ _ _ _ _ fun sid hsid => (by cases hsid)
  · rename_i session hcred
    refine obeys_issue cfg _ _ _ _ _ fun sid hsid => ?_
    obtain rfl : session = some sid := hsid
    obtain ⟨u, hseen, hu⟩ := huser user rfl sid hcred
    exact ⟨u, hz hseen, hu⟩
  · trivial

theorem obeys_body (request : Request) :
    (request.steps cfg).run.Obeys Performs (fun _ _ => True) [] := by
  cases request with
  | signup clock id sid salt email password =>
      exact obeys_of_quiet (quiet_signup cfg clock id sid salt email password) []
  | login clock sid email password =>
      exact obeys_of_quiet (quiet_login cfg clock sid email password) []
  | logout presented => exact obeys_of_quiet (quiet_logout cfg presented) []
  | authenticated clock presented =>
      exact obeys_of_quiet (Only.run_bind (quiet_authUser cfg clock presented) fun _ =>
        only_run_pure) []
  | changePassword clock presented salt current new =>
      exact obeys_of_quiet (quiet_changePassword cfg clock presented salt current new) []
  | mint clock presented name id token => exact obeys_create cfg clock presented name id token []
  | mintAsOperator userId name id token =>
      exact obeys_of_quiet (quiet_issue cfg userId name rfl id token) []
  | revoke clock presented id => exact obeys_of_quiet (quiet_revokeOwn cfg clock presented id) []
  | revokeAsOperator id => exact obeys_of_quiet (quiet_revoke id none) []
  | sweep =>
      exact obeys_of_quiet (Only.run_bind (quiet_sql (only_perform (by simp [MintsNone])))
        fun _ => only_run_pure) []

end Obeys

/-! ## Whole runs -/

/-- The section writes under the password that its call found. -/
def Current (s : State) : Event → Prop
  | .start _ => True
  | .step n o =>
      match (s.calls[n]?).map Call.rest with
      | some (.act op _) => s.shared.Permits o op
      | _ => True

/-- What the past of a call says of the tables. -/
structure Remembers (c : Call Request Op.Answer Reply) (w : World) : Prop where
  obeys : c.rest.Obeys Performs (fun _ _ => True) c.past
  seen : ∀ sid user, SessionSeen c.past sid user →
    ∃ p, w.opened.get? sid = some p ∧ p.userId = user

section Runs

variable (cfg : Config)

theorem isRevoked_of_exec {w t : World} {o : Oracle} {id : Uuid} {owner : Option String}
    (h : w.exec o (.revokeToken id owner) = some (t, .ok true)) : t.IsRevoked id := by
  simp only [World.exec, World.statement, Option.some.injEq] at h
  split at h
  · cases congrArg Prod.snd h
  · obtain ⟨rfl, hany⟩ := Prod.mk.inj h
    obtain ⟨r, hr, hscope⟩ := List.any_eq_true.mp (Except.ok.inj hany)
    have hid : r.id = id := by
      unfold World.scope at hscope
      simp only [Bool.and_eq_true, decide_eq_true_eq] at hscope
      exact hscope.1
    subst hid
    exact World.isRevoked_revokeFamily hr hscope

theorem liveSession_of_exec {w t : World} {o : Oracle} {sid user : Uuid}
    (h : w.exec o (.sessionById sid) = some (t, .ok (some user))) :
    t = w ∧ ∃ r, w.sessions.get? sid = some r ∧ r.userId = user := by
  simp only [World.exec, World.statement, Option.some.injEq] at h
  split at h
  · cases congrArg Prod.snd h
  · obtain ⟨rfl, hlive⟩ := Prod.mk.inj h
    obtain ⟨r, hr, hid⟩ := Option.map_eq_some_iff.mp (Except.ok.inj hlive)
    exact ⟨rfl, r, (Option.filter_eq_some_iff.mp hr).1, hid⟩

/-- Whatever happens, a token that was revoked stays revoked. -/
theorem keeps_revoked :
    Calls.Keeps (service cfg) (fun _ => True)
      (fun c w => ∀ id, TokenRevoked c.past id → w.IsRevoked id) (fun _ _ => True) where
  start _ _ := by
    rintro id ⟨owner, hmem⟩
    cases hmem
  shared _ _ _ _ := trivial
  own {s n o c t d} hs _ hc hp := by
    obtain ⟨op, k, a, -, (hexec : s.shared.exec o op = some (t, a)), rfl⟩ :=
      Call.perform_eq_some_iff.mp hp
    rintro id ⟨owner, hmem⟩
    rcases List.mem_cons.mp hmem with heq | hmem
    · cases heq
      exact isRevoked_of_exec hexec
    · exact World.isRevoked_of_effect (World.effect_of_exec hexec)
        (hs.calls n c hc id ⟨owner, hmem⟩)
  others {s n o c t d m b} hs _ hc hp _ hb := by
    obtain ⟨op, k, a, -, (hexec : s.shared.exec o op = some (t, a)), rfl⟩ :=
      Call.perform_eq_some_iff.mp hp
    exact fun id hid => World.isRevoked_of_effect (World.effect_of_exec hexec)
      (hs.calls m b hb id hid)

/-- While every write is under the password that was found, the tables are sound. -/
theorem keeps_sound : Calls.Keeps (service cfg) World.Sound Remembers Current where
  start _ _ := ⟨obeys_body cfg _, fun _ _ h => (by cases h)⟩
  shared {s n o c t d} hs he hc hp := by
    obtain ⟨op, k, a, hrest, (hexec : s.shared.exec o op = some (t, a)), rfl⟩ :=
      Call.perform_eq_some_iff.mp hp
    have hcall := hs.calls n c hc
    have hobeys := hcall.obeys
    rw [hrest] at hobeys
    have hpermits : s.shared.Permits o op := by
      simp only [Current, hc, Option.map_some, hrest] at he
      exact he
    refine World.sound_of_effect hs.shared (World.effect_of_exec hexec) hpermits ?_
    intro id userId name hash mintedBy sid hop
    obtain ⟨user, hseen, huser⟩ := hobeys.1 id userId name hash mintedBy sid hop
    obtain ⟨p, hget, rfl⟩ := hcall.seen sid user hseen
    exact ⟨p, hget, huser⟩
  own {s n o c t d} hs he hc hp := by
    obtain ⟨op, k, a, hrest, (hexec : s.shared.exec o op = some (t, a)), rfl⟩ :=
      Call.perform_eq_some_iff.mp hp
    have hcall := hs.calls n c hc
    have hobeys := hcall.obeys
    rw [hrest] at hobeys
    refine ⟨hobeys.2 a, fun sid user h => ?_⟩
    rcases List.mem_cons.mp h with heq | hmem
    · cases heq
      obtain ⟨rfl, r, hr, rfl⟩ := liveSession_of_exec hexec
      obtain ⟨p, hget, huser, -⟩ := hs.shared.live sid r hr
      exact ⟨p, hget, huser⟩
    · obtain ⟨p, hget, huser⟩ := hcall.seen sid user hmem
      exact ⟨p, World.opened_of_effect (World.effect_of_exec hexec) hget, huser⟩
  others {s n o c t d m b} hs he hc hp hm hb := by
    obtain ⟨op, k, a, -, (hexec : s.shared.exec o op = some (t, a)), rfl⟩ :=
      Call.perform_eq_some_iff.mp hp
    have hcall := hs.calls m b hb
    refine ⟨hcall.obeys, fun sid user h => ?_⟩
    obtain ⟨p, hget, huser⟩ := hcall.seen sid user h
    exact ⟨p, World.opened_of_effect (World.effect_of_exec hexec) hget, huser⟩

theorem sound_empty : World.Sound World.empty := by
  constructor
  · intro sid r hr
    cases hr
  · intro r hr
    cases hr

/-- In every run, a token that verifies is in the table, and no token of its minting chain
was ever revoked. In a run whose logins and mints write under the password that they found,
moreover, every session that minted a token of that chain was opened under the password its
account has, and so was every session that verifies. -/
theorem revocation_reaches {x : List Event} :
    let s := Run.run (Calls.step (service cfg)) (Calls.idle World.empty) x
    (∀ hash v, s.shared.liveToken hash = some v →
      ∃ r ∈ s.shared.tokens.rows, r.tokenHash = hash ∧ r.id = v.tokenId ∧
        ∀ a, s.shared.Ancestor r a →
          a.revokedAt = none ∧ ∀ c ∈ s.calls, ¬ TokenRevoked c.past a.id) ∧
    (Run.Always (Calls.step (service cfg)) Current (Calls.idle World.empty) x →
      (∀ hash v, s.shared.liveToken hash = some v →
        ∀ r ∈ s.shared.tokens.rows, r.tokenHash = hash → ∀ a, s.shared.Ancestor r a →
          ∀ sid, a.sessionId = some sid → ∃ p, s.shared.opened.get? sid = some p ∧
            a.userId = p.userId.display ∧ p.born = s.shared.changes p.userId) ∧
      ∀ now sid user, s.shared.liveSession now sid = some user →
        ∃ p, s.shared.opened.get? sid = some p ∧ p.userId = user ∧
          p.checked = s.shared.changes user) := by
  intro s
  refine ⟨fun hash v hv => ?_, fun hx => ⟨fun hash v hv r hr hrhash a ha sid hsid => ?_,
    fun now sid user hlive => ?_⟩⟩
  · obtain ⟨r, hr, hhash, hid, -⟩ := World.exists_of_liveToken hv
    have hchain : ∀ a, s.shared.Ancestor r a → a.revokedAt = none :=
      fun a ha => World.revokedAt_of_liveToken hv hr hhash ha
    refine ⟨r, hr, hhash, hid, fun a ha => ⟨hchain a ha, fun c hc hrevoked => ?_⟩⟩
    have hs : Calls.Holds (fun _ => True)
        (fun c w => ∀ id, TokenRevoked c.past id → w.IsRevoked id) s :=
      Run.invariant_run (fun _ _ hs => (keeps_revoked cfg).step hs trivial)
        (Calls.holds_idle trivial) x
    obtain ⟨n, hn⟩ := List.mem_iff_getElem?.mp hc
    obtain ⟨b, hb, hbid, hrev⟩ := hs.calls n c hn a.id hrevoked
    have heq : b = a := List.inj_on_of_nodup_map s.shared.tokens.nodup hb
      (World.ancestor_mem hr ha) hbid
    rw [heq, hchain a ha] at hrev
    cases hrev
  · have hs := (keeps_sound cfg).run (Calls.holds_idle sound_empty) hx
    obtain ⟨p, hget, huser, hborn⟩ := hs.shared.minted a (World.ancestor_mem hr ha) sid hsid
    exact ⟨p, hget, huser, hborn (World.revokedAt_of_liveToken hv hr hrhash ha)⟩
  · have hs := (keeps_sound cfg).run (Calls.holds_idle sound_empty) hx
    obtain ⟨r, hr, rfl⟩ := Option.map_eq_some_iff.mp hlive
    obtain ⟨p, hget, huser, hchecked, -⟩ :=
      hs.shared.live sid r (Option.filter_eq_some_iff.mp hr).1
    exact ⟨p, hget, huser, hchecked⟩

end Runs

/-- A deployment with local accounts, where every session of account 1 has one token for
each session id. -/
def localConfig : Config where
  isLocal := true
  signupClosed := false
  publicBaseUrl := "https://wheel.test"
  hashPassword salt password := some (salt ++ password)
  verifyPassword password encoded := encoded = "salt" ++ password
  digest token := token
  encode claims := some claims.sid
  decode _ token := some ⟨Uuid.display 1, "https://wheel.test", 0, 0, token⟩
  parseUuid text := [1, 7, 8].find? fun id => Uuid.display id = text
  provider _ := none

/-- Account 1 signs up, and its session 7 mints a token. -/
def signedUpAndMinted : List Event :=
  .start (.signup 0 1 7 "salt" "a@wheel.test" "old password") ::
    List.replicate 3 (.step 0 {}) ++
    .start (.mint 0 (some (Uuid.display 7)) "laptop" 3 "wht_laptop") ::
    List.replicate 3 (.step 1 {})

theorem revocation_reaches_signedUpAndMinted :
    let s := Run.run (Calls.step (service localConfig)) (Calls.idle World.empty) signedUpAndMinted
    s.shared.liveToken "wht_laptop" = some ⟨Uuid.display 1, 3⟩ ∧
      s.shared.liveSession 0 7 = some 1 ∧
      ∃ p, s.shared.opened.get? 7 = some p ∧ p.userId = 1 ∧ p.checked = s.shared.changes 1 := by
  have hlive : (Run.run (Calls.step (service localConfig)) (Calls.idle World.empty)
      signedUpAndMinted).shared.liveSession 0 7 = some 1 := by decide +kernel
  refine ⟨by decide +kernel, hlive, ?_⟩
  refine ((revocation_reaches localConfig).2 ?_).2 0 7 1 hlive
  exact ⟨trivial, trivial, trivial, fun _ => by decide +kernel, trivial, trivial, trivial,
    fun _ => by decide +kernel, trivial⟩

/-- A login with the password, and a mint by session 7, are half-way through when the
password changes. -/
def changedHalfWay : List Event :=
  signedUpAndMinted ++
    [.start (.login 0 8 "a@wheel.test" "old password"), .step 2 {}, .step 2 {},
      .start (.mint 0 (some (Uuid.display 7)) "desktop" 4 "wht_desktop"), .step 3 {},
      .start (.changePassword 0 (some (Uuid.display 7)) "salt" "old password" "new password"),
      .step 4 {}, .step 4 {}, .step 4 {},
      .step 2 {}, .step 3 {}, .step 3 {}]

/-- The password was changed, but the session that was opened with the old one verifies, and
so does the token that a session from before the change minted. -/
theorem changedHalfWay_verifies :
    let s := Run.run (Calls.step (service localConfig)) (Calls.idle World.empty) changedHalfWay
    s.shared.changes 1 = 1 ∧
      (s.shared.liveSession 0 8 = some 1 ∧ s.shared.opened.get? 8 = some ⟨8, 1, 0, 1⟩) ∧
      s.shared.liveToken "wht_desktop" = some ⟨Uuid.display 1, 4⟩ ∧
      (∃ r ∈ s.shared.tokens.rows, r.tokenHash = "wht_desktop" ∧ r.sessionId = some 7) ∧
      s.shared.opened.get? 7 = some ⟨7, 1, 0, 0⟩ := by
  decide +kernel

end Wheel.Api.Credentials
