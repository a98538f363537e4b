import Wheel.Data.Json

/-!
# A refreshable login

The object that the harness keeps for a login, as a vault stores it, and whose login
it is. Absent, empty and ill-typed fields are read alike.
-/

namespace Wheel

/-- Whose login a session is, as far as the harness recorded it. -/
structure Identity where
  accountUuid : Option String
  organizationUuid : Option String
  deriving DecidableEq

structure OauthSession where
  oauth : List (String × Json)
  account : Identity

namespace OauthSession

def text (s : OauthSession) (field : String) : Option String :=
  (((Json.obj s.oauth).get? field).bind Json.asStr).filter fun t => t ≠ ""

def accessToken (s : OauthSession) : Option String := s.text "accessToken"

def refreshToken (s : OauthSession) : Option String := s.text "refreshToken"

/-- The expiry in milliseconds since the epoch. -/
def expiresAt (s : OauthSession) : Option ℤ :=
  ((Json.obj s.oauth).get? "expiresAt").bind Json.asI64

def scopes (s : OauthSession) : List String :=
  ((((Json.obj s.oauth).get? "scopes").bind Json.asArray).map
    fun a => a.filterMap Json.asStr).getD []

/-- Everything that a renewal without a person needs. -/
def isRefreshable (s : OauthSession) : Bool :=
  s.accessToken.isSome && s.refreshToken.isSome && !s.scopes.isEmpty && s.expiresAt.isSome

def identityIn (doc : Json) : Identity where
  accountUuid := field "accountUuid"
  organizationUuid := field "organizationUuid"
where
  field (k : String) : Option String :=
    ((((doc.get? "oauthAccount").bind fun a => a.get? k).bind Json.asStr).filter fun t => t ≠ "")

/-- Read a stored session with a JSON parser. -/
def fromVaultValue (parse : String → Option Json) (raw : String) : Except String OauthSession :=
  match parse raw with
  | none => .error "the stored session is not JSON"
  | some doc =>
      match doc.get? "claudeAiOauth" with
      | some (.obj oauth) => .ok ⟨oauth, identityIn doc⟩
      | _ => .error "the stored session has no claudeAiOauth object"

/-- Give a field of the login a value. -/
def set (s : OauthSession) (field : String) (v : Json) : OauthSession :=
  { s with oauth := (s.oauth.filter fun m => m.1 ≠ field) ++ [(field, v)] }

theorem get?_set (s : OauthSession) (field k : String) (v : Json) :
    (Json.obj (s.set field v).oauth).get? k =
      if k = field then some v else (Json.obj s.oauth).get? k := by
  simp only [Json.get?, set, List.reverse_append, List.reverse_singleton, List.singleton_append,
    List.find?_cons]
  by_cases h : k = field
  · simp [h]
  · rw [if_neg h]
    have hne : decide (field = k) = false := by simp [Ne.symm h]
    simp only [hne]
    rw [← List.filter_reverse, List.find?_filter]
    congr 2
    funext m
    by_cases hm : m.1 = k
    · simp [hm, h]
    · simp [hm]

/-- The longest life that is recorded for a login: twelve hours. -/
def maxRecordedLifetimeMs : ℤ := 12 * 60 * 60 * 1000

/-- The furthest expiry of a login that is taken for one: four hundred days. -/
def maxHorizonMs : ℤ := 400 * 24 * 60 * 60 * 1000

/-- Addition that stays at the greatest 64-bit number. -/
def saturatingAdd (a b : ℤ) : ℤ := min (a + b) (2 ^ 63 - 1)

/-- Hold the recorded expiry to a ceiling. -/
def clampExpiry (s : OauthSession) (now ceiling : ℤ) : OauthSession :=
  match s.expiresAt with
  | none => s
  | some expires =>
      if expires ≤ saturatingAdd now ceiling then s
      else s.set "expiresAt" (.int (saturatingAdd now ceiling))

/-- Fill what a renewal leaves out from the login it renewed. -/
def carryForward (s prev : OauthSession) : OauthSession :=
  let filled := if s.scopes.isEmpty && !prev.scopes.isEmpty then
      s.set "scopes" (.arr (prev.scopes.map .str)) else s
  { filled with
    account :=
      ⟨s.account.accountUuid.or prev.account.accountUuid,
        s.account.organizationUuid.or prev.account.organizationUuid⟩ }

end OauthSession

/-- The scope that a login runs on. -/
def requiredScope : String := "user:inference"

/-- Why a renewed login is not taken for the successor of the one it renews. -/
inductive RefreshRejected where
  | noAccessToken
  | sameAccessToken
  | noRefreshToken
  | noExpiry
  | notNewer
  | implausibleExpiry
  | scopeEscalation
  | scopeLost
  | scopeDropped (scope : String)
  | accountChanged
  deriving DecidableEq

namespace RefreshRejected

def text : RefreshRejected → String
  | .noAccessToken => "it carries no access token"
  | .sameAccessToken => "its access token is the one it was meant to replace"
  | .noRefreshToken => "it carries no refresh token"
  | .noExpiry => "it carries no expiry"
  | .notNewer => "it does not expire later than the login it replaces"
  | .implausibleExpiry => "its expiry is not a plausible one"
  | .scopeEscalation => "it asks for scopes the original login did not have"
  | .scopeLost => "it drops the scope the login runs on (" ++ requiredScope ++ ")"
  | .scopeDropped scope => "it drops a scope the original login had (" ++ scope ++ ")"
  | .accountChanged => "it belongs to a different account"

/-- No retry could turn the login into an acceptable one. -/
def isPermanent : RefreshRejected → Bool
  | .scopeEscalation => true
  | .scopeLost => true
  | .scopeDropped _ => true
  | .accountChanged => true
  | _ => false

end RefreshRejected

/-- Both sides are known, and not the same. -/
def differs (a b : Option String) : Bool :=
  match a, b with
  | some x, some y => x ≠ y
  | _, _ => false

/-- The part of the gate that compares the grants and the accounts. -/
def checkGrant (prev next : OauthSession) : Except RefreshRejected Unit :=
  let allowed := prev.scopes
  if next.scopes.any fun s => s ∉ allowed then .error .scopeEscalation
  else if requiredScope ∈ allowed ∧ requiredScope ∉ next.scopes then .error .scopeLost
  else match allowed.find? fun s => s ∉ next.scopes with
    | some dropped => .error (.scopeDropped dropped)
    | none =>
        if differs prev.account.accountUuid next.account.accountUuid ||
            differs prev.account.organizationUuid next.account.organizationUuid then
          .error .accountChanged
        else .ok ()

/-- The gate: `next` is a plausible renewal of `prev`. -/
def checkRefresh (prev next : OauthSession) (now : ℤ) : Except RefreshRejected Unit :=
  match next.accessToken with
  | none => .error .noAccessToken
  | some access =>
      if prev.accessToken = some access then .error .sameAccessToken
      else match next.refreshToken with
        | none => .error .noRefreshToken
        | some _ => match next.expiresAt with
            | none => .error .noExpiry
            | some expires =>
                if prev.expiresAt.any fun p => expires ≤ p then .error .notNewer
                else if expires ≤ now ∨
                    OauthSession.saturatingAdd now OauthSession.maxHorizonMs < expires then
                  .error .implausibleExpiry
                else checkGrant prev next

end Wheel
