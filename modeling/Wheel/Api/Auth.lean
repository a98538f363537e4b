import Mathlib
import Wheel.Text.Search

/-!
# Who calls, and how far they may go

Three tiers of access, the lower ones first, and the principals that a verified
request carries. A `Principal` is text that `validate` accepted; it is made once,
where the credential is verified.
-/

namespace Wheel.Api

inductive ApiError where
  | unauthorized (reason : String)
  | forbidden (reason : String)
  | notFound
  | badRequest (reason : String)
  | conflict (reason : String)
  | internal (reason : String)
  deriving DecidableEq, Repr

inductive Tier where
  | guest
  | prompter
  | admin
  deriving DecidableEq, Repr

namespace Tier

/-- The place of a tier in the declared order. -/
def rank : Tier → ℕ
  | guest => 0
  | prompter => 1
  | admin => 2

theorem rank_injective : Function.Injective rank := by
  intro a b h
  cases a <;> cases b <;> first | rfl | cases h

instance : LinearOrder Tier := LinearOrder.lift' rank rank_injective

def asStr : Tier → String
  | guest => "guest"
  | prompter => "prompter"
  | admin => "admin"

/-- A stored role; unknown text is not a tier. -/
def parse (raw : String) : Option Tier :=
  if raw = "guest" then some guest
  else if raw = "prompter" then some prompter
  else if raw = "admin" then some admin
  else none

@[simp] theorem parse_asStr (t : Tier) : parse t.asStr = some t := by
  cases t <;> rfl

theorem parse_eq_some_iff {raw : String} {t : Tier} : parse raw = some t ↔ raw = t.asStr := by
  constructor
  · intro h
    unfold parse at h
    split at h
    · cases h
      assumption
    split at h
    · cases h
      assumption
    split at h
    · cases h
      assumption
    · cases h
  · rintro rfl
    exact parse_asStr t

end Tier

namespace Principal

/-- The longest principal that is stored. -/
def maxLen : ℕ := 200

def isAllowed (c : Char) : Bool :=
  c.isAlphanum || c ∈ ['-', '_', '.', ':', '@', '+', '/', '=', '~']

/-- Why a subject is refused, if it is. -/
def validate (raw : String) : Except String String :=
  if raw.isEmpty then .error "subject is empty"
  else if raw.utf8ByteSize > maxLen then .error "subject is too long"
  else if !raw.toList.all isAllowed then
    .error "subject contains a character that is not permitted in a principal"
  else .ok raw

theorem eq_of_validate {raw s : String} (h : validate raw = .ok s) : s = raw := by
  unfold validate at h
  split at h
  · cases h
  split at h
  · cases h
  split at h
  · cases h
  · cases h
    rfl

end Principal

/-- A verified subject. -/
structure Principal where
  id : String
  valid : Principal.validate id = .ok id

end Wheel.Api
