import Wheel.Renewal.EnsureFresh

/-!
# A login over its renewals

`Renewals` are the logins that one vault has stored, the newest first: one that a sign-in
captured, and then each an answer to a renewal of the one before that has passed the gate. A
renewal keeps the scopes and the account, and moves the recorded expiry forward
(`renewals_ratchet`). The expiry is also the generation that a child is compared against; it
tells two logins of one vault apart unless neither has an expiry with a date.
-/

namespace Wheel

namespace OauthSession

/-! ## What the clamp leaves alone -/

theorem text_set {field k : String} (h : k ≠ field) (s : OauthSession) (v : Json) :
    (s.set field v).text k = s.text k := by
  unfold text
  rw [get?_set, if_neg h]

theorem clampExpiry_cases (s : OauthSession) (now ceiling : ℤ) :
    s.clampExpiry now ceiling = s ∨
      s.clampExpiry now ceiling = s.set "expiresAt" (.int (saturatingAdd now ceiling)) := by
  unfold clampExpiry
  split
  · exact .inl rfl
  · split
    · exact .inl rfl
    · exact .inr rfl

@[simp] theorem accessToken_clampExpiry (s : OauthSession) (now ceiling : ℤ) :
    (s.clampExpiry now ceiling).accessToken = s.accessToken := by
  rcases clampExpiry_cases s now ceiling with h | h
  · rw [h]
  · rw [h]
    exact text_set (by decide) s _

@[simp] theorem scopes_clampExpiry (s : OauthSession) (now ceiling : ℤ) :
    (s.clampExpiry now ceiling).scopes = s.scopes := by
  rcases clampExpiry_cases s now ceiling with h | h
  · rw [h]
  · rw [h]
    unfold scopes
    rw [get?_set, if_neg (by decide)]

@[simp] theorem account_clampExpiry (s : OauthSession) (now ceiling : ℤ) :
    (s.clampExpiry now ceiling).account = s.account := by
  rcases clampExpiry_cases s now ceiling with h | h <;> rw [h]
  rfl

theorem asI64_bounds {v : Json} {n : ℤ} (h : v.asI64 = some n) : -2 ^ 63 ≤ n ∧ n < 2 ^ 63 := by
  cases v with
  | int m =>
      rw [Json.asI64] at h
      split at h
      · rename_i hm
        cases h
        exact hm
      · cases h
  | _ => cases h

theorem expiresAt_lt {s : OauthSession} {e : ℤ} (h : s.expiresAt = some e) : e < 2 ^ 63 := by
  obtain ⟨v, -, hv⟩ := Option.bind_eq_some_iff.mp h
  exact (asI64_bounds hv).2

/-- The expiry that is recorded is the one of the server, up to the ceiling. -/
theorem expiresAt_clampExpiry (s : OauthSession) {now ceiling : ℤ} (hnow : -2 ^ 63 ≤ now)
    (hceiling : 0 ≤ ceiling) :
    (s.clampExpiry now ceiling).expiresAt =
      s.expiresAt.map fun e => min e (saturatingAdd now ceiling) := by
  unfold clampExpiry
  cases h : s.expiresAt with
  | none => exact h
  | some e =>
      dsimp only
      split
      · rename_i hle
        rw [h, Option.map_some, min_eq_left hle]
      · rename_i hlt
        have hbounds : -2 ^ 63 ≤ saturatingAdd now ceiling ∧ saturatingAdd now ceiling < 2 ^ 63 := by
          unfold saturatingAdd
          omega
        unfold expiresAt
        rw [get?_set, if_pos rfl, Option.bind_some, Json.asI64, if_pos hbounds, Option.map_some,
          min_eq_right (not_le.mp hlt).le]

@[simp] theorem account_carryForward (s prev : OauthSession) :
    (s.carryForward prev).account =
      ⟨s.account.accountUuid.or prev.account.accountUuid,
        s.account.organizationUuid.or prev.account.organizationUuid⟩ := rfl

end OauthSession

/-! ## What the gate lets through -/

theorem eq_of_not_differs {a b : Option String} {x : String} (h : differs (some x) b = false)
    (hb : b = a.or (some x)) : b = some x := by
  cases a with
  | none => exact hb
  | some y =>
      rw [Option.some_or] at hb
      subst hb
      have hxy : x = y := by simpa [differs] using h
      rw [hxy]

theorem of_checkGrant {prev next : OauthSession} (h : checkGrant prev next = .ok ()) :
    (∀ x, x ∈ next.scopes ↔ x ∈ prev.scopes) ∧
      differs prev.account.accountUuid next.account.accountUuid = false ∧
      differs prev.account.organizationUuid next.account.organizationUuid = false := by
  unfold checkGrant at h
  dsimp only at h
  split at h
  · cases h
  · rename_i hescalation
    split at h
    · cases h
    · split at h
      · cases h
      · rename_i hdropped
        split at h
        · cases h
        · rename_i haccount
          rw [Bool.or_eq_true, not_or, Bool.not_eq_true, Bool.not_eq_true] at haccount
          refine ⟨fun x => ⟨fun hx => ?_, fun hx => ?_⟩, haccount⟩
          · by_contra hnot
            exact hescalation (List.any_eq_true.mpr ⟨x, hx, decide_eq_true hnot⟩)
          · by_contra hnot
            exact List.find?_eq_none.mp hdropped x hx (decide_eq_true hnot)

/-- What an accepted login has: another access token, a later expiry and the same grant. -/
theorem of_checkRefresh {prev next : OauthSession} {now : ℤ}
    (h : checkRefresh prev next now = .ok ()) :
    next.accessToken ≠ prev.accessToken ∧
      (∃ e, next.expiresAt = some e ∧ ∀ p, prev.expiresAt = some p → p < e) ∧
      checkGrant prev next = .ok () := by
  unfold checkRefresh at h
  split at h
  · cases h
  · rename_i access haccess
    split at h
    · cases h
    · rename_i hsame
      split at h
      · cases h
      · split at h
        · cases h
        · rename_i e he
          split at h
          · cases h
          · rename_i hnewer
            split at h
            · cases h
            · refine ⟨fun heq => hsame (heq ▸ haccess), ⟨e, he, fun p hp => ?_⟩, h⟩
              by_contra hle
              rw [hp] at hnewer
              exact hnewer (decide_eq_true (not_lt.mp hle))

namespace Renewal

open OauthSession

theorem accepted_iff {prev next : OauthSession} {now : ℤ} :
    accepted prev next now = .ok () ↔ checkRefresh prev next now = .ok () := by
  unfold accepted
  split
  · rename_i h
    exact iff_of_true rfl h
  · rename_i why h
    rw [h]
    exact iff_of_false nofun nofun

/-! ## Chains of renewals -/

/-- A login that was stored, and when. -/
structure StoredLogin where
  session : OauthSession
  clock : ℤ

/-- What a child that is started on a login is compared against. -/
def StoredLogin.generation (s : StoredLogin) : Option Timestamp :=
  s.session.expiresAt.bind millisToTimestamp

/-- The logins that a vault has stored, the newest first. The clock is read once for the gate
and once for the ceiling. -/
inductive Renewals : List StoredLogin → Prop where
  | signIn (captured : OauthSession) {clock : ℤ} (range : -2 ^ 63 ≤ clock) :
      Renewals [⟨captured.clampExpiry clock maxRecordedLifetimeMs, clock⟩]
  | renew {s : StoredLogin} {l : List StoredLogin} {checked clock : ℤ} (answer : OauthSession)
      (chain : Renewals (s :: l)) (later : s.clock < checked) (order : checked ≤ clock)
      (gate : accepted s.session (answer.carryForward s.session) checked = .ok ()) :
      Renewals
        (⟨(answer.carryForward s.session).clampExpiry clock maxRecordedLifetimeMs, clock⟩ :: s :: l)

/-- What holds between a login and an earlier one of its vault. -/
structure Succeeds (new old : StoredLogin) : Prop where
  scopes : ∀ x, x ∈ new.session.scopes ↔ x ∈ old.session.scopes
  account : ∀ a, old.session.account.accountUuid = some a →
    new.session.account.accountUuid = some a
  organization : ∀ o, old.session.account.organizationUuid = some o →
    new.session.account.organizationUuid = some o
  expiry : ∃ e, new.session.expiresAt = some e ∧ ∀ p, old.session.expiresAt = some p → p < e

theorem Succeeds.trans {a b c : StoredLogin} (hab : Succeeds a b) (hbc : Succeeds b c) :
    Succeeds a c where
  scopes x := (hab.scopes x).trans (hbc.scopes x)
  account x hx := hab.account x (hbc.account x hx)
  organization x hx := hab.organization x (hbc.organization x hx)
  expiry := by
    obtain ⟨e, he, hless⟩ := hab.expiry
    obtain ⟨f, hf, hless'⟩ := hbc.expiry
    exact ⟨e, he, fun p hp => (hless' p hp).trans (hless f hf)⟩

/-- The recorded expiry is held to the ceiling. -/
def Held (s : StoredLogin) : Prop :=
  -2 ^ 63 ≤ s.clock ∧
    ∀ e, s.session.expiresAt = some e → e ≤ s.clock + maxRecordedLifetimeMs

theorem held_clampExpiry (session : OauthSession) {clock : ℤ} (h : -2 ^ 63 ≤ clock) :
    Held ⟨session.clampExpiry clock maxRecordedLifetimeMs, clock⟩ := by
  refine ⟨h, fun e he => ?_⟩
  rw [expiresAt_clampExpiry session h (by decide)] at he
  obtain ⟨f, -, rfl⟩ := Option.map_eq_some_iff.mp he
  exact (min_le_right _ _).trans (min_le_left _ _)

/-- One renewal: the login before was held to a ceiling that is lower by now. -/
theorem succeeds_renew {s : StoredLogin} {answer : OauthSession} {checked clock : ℤ}
    (held : Held s) (later : s.clock < checked) (order : checked ≤ clock)
    (gate : accepted s.session (answer.carryForward s.session) checked = .ok ()) :
    Succeeds ⟨(answer.carryForward s.session).clampExpiry clock maxRecordedLifetimeMs, clock⟩ s := by
  obtain ⟨-, ⟨e, he, hless⟩, hgrant⟩ := of_checkRefresh (accepted_iff.mp gate)
  obtain ⟨hscopes, haccount, horganization⟩ := of_checkGrant hgrant
  have hrange : -2 ^ 63 ≤ clock := by
    have h := held.1
    omega
  have hexpires : ((answer.carryForward s.session).clampExpiry clock maxRecordedLifetimeMs).expiresAt =
      some (min e (saturatingAdd clock maxRecordedLifetimeMs)) := by
    rw [expiresAt_clampExpiry _ hrange (by decide), he]
    rfl
  constructor
  · intro x
    rw [scopes_clampExpiry]
    exact hscopes x
  · intro a ha
    rw [account_clampExpiry]
    exact eq_of_not_differs (ha ▸ haccount) (by rw [← ha]; rfl)
  · intro o ho
    rw [account_clampExpiry]
    exact eq_of_not_differs (ho ▸ horganization) (by rw [← ho]; rfl)
  · refine ⟨_, hexpires, fun p hp => ?_⟩
    have hpe := hless p hp
    have hceiling := held.2 p hp
    have hmax := expiresAt_lt he
    refine lt_min hpe (lt_min ?_ ?_)
    · omega
    · omega

theorem held_of_renewals {l : List StoredLogin} (h : Renewals l) : ∀ s ∈ l, Held s := by
  induction h with
  | signIn captured range =>
      intro s hs
      rw [List.mem_singleton.mp hs]
      exact held_clampExpiry captured range
  | renew answer chain later order gate ih =>
      intro t ht
      rcases List.mem_cons.mp ht with rfl | ht
      · have hclock := (ih _ List.mem_cons_self).1
        exact held_clampExpiry _ (by omega)
      · exact ih t ht

theorem pairwise_of_renewals {l : List StoredLogin} (h : Renewals l) : l.Pairwise Succeeds := by
  induction h with
  | signIn captured range => exact List.pairwise_singleton _ _
  | @renew s l checked clock answer chain later order gate ih =>
      have hstep := succeeds_renew (held_of_renewals chain s List.mem_cons_self) later order gate
      refine List.pairwise_cons.mpr ⟨fun t ht => ?_, ih⟩
      rcases List.mem_cons.mp ht with rfl | ht
      · exact hstep
      · exact hstep.trans ((List.pairwise_cons.mp ih).1 t ht)

/-- Every renewal brings another access token. -/
theorem tokens_of_renewals {l : List StoredLogin} (h : Renewals l) :
    l.IsChain fun new old => new.session.accessToken ≠ old.session.accessToken := by
  induction h with
  | signIn captured range => exact List.isChain_singleton _
  | renew answer chain later order gate ih =>
      refine List.isChain_cons_cons.mpr ⟨?_, ih⟩
      rw [accessToken_clampExpiry]
      exact (of_checkRefresh (accepted_iff.mp gate)).1

/-! ## Children -/

/-- Was a child started on a login that its vault has renewed since? -/
def Broker.credentialStale (u : Broker) (gen : Option (Uuid × Option Timestamp)) : Bool :=
  gen.any fun g => u.expiryOf g.1 ≠ g.2

theorem millisToTimestamp_inj {a b : ℤ} {t : Timestamp} (ha : millisToTimestamp a = some t)
    (hb : millisToTimestamp b = some t) : a = b := by
  unfold millisToTimestamp at ha hb
  split at ha
  · split at hb
    · exact (Option.some.inj ha).trans (Option.some.inj hb).symm
    · cases hb
  · cases ha

/-- The generations of two logins of a vault differ, unless neither has a date. -/
theorem Succeeds.generation_ne {new old : StoredLogin} (h : Succeeds new old)
    (hdate : ¬ (new.generation = none ∧ old.generation = none)) :
    new.generation ≠ old.generation := by
  intro heq
  obtain ⟨e, he, hless⟩ := h.expiry
  cases hnew : new.generation with
  | none => exact hdate ⟨hnew, heq ▸ hnew⟩
  | some t =>
      have hold := heq ▸ hnew
      obtain ⟨f, hf, hft⟩ := Option.bind_eq_some_iff.mp hnew
      obtain ⟨p, hp, hpt⟩ := Option.bind_eq_some_iff.mp hold
      rw [he] at hf
      cases hf
      exact (hless p hp).ne (millisToTimestamp_inj hpt hft)

/-- A vault that stores a login reports exactly the children that were started on another
generation. -/
theorem credentialStale_eq {u : Broker} {v : Uuid} {s : StoredLogin}
    (h : u.rows.get? v = some (SessionRow.of v s.session)) (generation : Option Timestamp) :
    u.credentialStale (some (v, generation)) = decide (s.generation ≠ generation) := by
  unfold Broker.credentialStale Broker.expiryOf
  rw [Option.any_some]
  dsimp only
  rw [h]
  rfl

/-- Over any chain of renewals the scopes stay, an account that is known stays, every renewal
brings another access token and a later expiry, which is held to the ceiling; and a child is
stale exactly when the login was renewed since, unless neither expiry has a date. -/
theorem renewals_ratchet {s : StoredLogin} {l : List StoredLogin} (h : Renewals (s :: l)) :
    (s :: l).Pairwise Succeeds ∧
      ((s :: l).IsChain fun new old => new.session.accessToken ≠ old.session.accessToken) ∧
      (∀ t ∈ s :: l, Held t) ∧
      ∀ (u : Broker) (v : Uuid), u.rows.get? v = some (SessionRow.of v s.session) →
        u.credentialStale (some (v, s.generation)) = false ∧
          ∀ old ∈ l, ¬ (s.generation = none ∧ old.generation = none) →
            u.credentialStale (some (v, old.generation)) = true := by
  have hpairwise := pairwise_of_renewals h
  refine ⟨hpairwise, tokens_of_renewals h, held_of_renewals h, fun u v hrow => ⟨?_, ?_⟩⟩
  · rw [credentialStale_eq hrow]
    exact decide_eq_false (not_not.mpr rfl)
  · intro old hold hdate
    rw [credentialStale_eq hrow]
    exact decide_eq_true (((List.pairwise_cons.mp hpairwise).1 old hold).generation_ne hdate)

/-- A login with a token and an expiry. -/
def loginOf (access : String) (expires : ℤ) : OauthSession where
  oauth :=
    [("accessToken", .str access), ("refreshToken", .str "r"), ("expiresAt", .int expires),
      ("scopes", .arr [.str requiredScope])]
  account := ⟨none, none⟩

/-- The login of a sign-in, as it is stored. -/
def signedIn (expires clock : ℤ) : StoredLogin :=
  ⟨(loginOf "a" expires).clampExpiry clock maxRecordedLifetimeMs, clock⟩

/-- The answer to its renewal, as it is stored. -/
def renewed (old : StoredLogin) (expires clock : ℤ) : StoredLogin :=
  ⟨((loginOf "b" expires).carryForward old.session).clampExpiry clock maxRecordedLifetimeMs, clock⟩

theorem renewals_ratchet_once :
    [renewed (signedIn 2000 1000) 3000 1500, signedIn 2000 1000].Pairwise Succeeds :=
  (renewals_ratchet
    (.renew (s := signedIn 2000 1000) (l := []) (loginOf "b" 3000) (.signIn _ (by decide))
      (by decide : (1000 : ℤ) < 1500) le_rfl rfl)).1

/-- A sign-in in the last second that has a date. -/
def lastSecond : StoredLogin := signedIn (lastMoment + 1) (lastMoment - 1000)

def lastRenewal : StoredLogin := renewed lastSecond (lastMoment + 2) (lastMoment - 999)

/-- Neither login has a date, and the child of the earlier one is not reported. -/
theorem lastSecond_not_stale :
    Renewals [lastRenewal, lastSecond] ∧
      ((Broker.booted .empty 0).putSession 1 lastRenewal.session).credentialStale
        (some (1, lastSecond.generation)) = false := by
  constructor
  · have hsignIn : Renewals [lastSecond] := .signIn _ (by decide)
    exact .renew (loginOf "b" (lastMoment + 2)) hsignIn
      (by decide : lastSecond.clock < lastMoment - 999) le_rfl rfl
  · have hrow : ((Broker.booted .empty 0).putSession 1 lastRenewal.session).rows.get? 1 =
        some (SessionRow.of 1 lastRenewal.session) := by
      rfl
    rw [credentialStale_eq hrow]
    rfl

end Renewal

end Wheel
