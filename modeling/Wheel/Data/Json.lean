import Mathlib

/-!
# JSON values

The values a JSON document denotes, and the accessors the engine reads them
with: each answers `none` when the value has another shape. A number is an
integer or not, as the parser decides it, and no float ever reads as an integer.
-/

namespace Wheel

/-- A JSON value. The members of an object stand in the order of the document. -/
inductive Json where
  | null
  | bool (b : Bool)
  | int (n : ℤ)
  | float (q : ℚ)
  | str (s : String)
  | arr (items : List Json)
  | obj (members : List (String × Json))

namespace Json

/-- The member of an object, or nothing for any other value. -/
def get? : Json → String → Option Json
  | obj members, key => (members.reverse.find? fun m => m.1 = key).map Prod.snd
  | _, _ => none

def asStr : Json → Option String
  | str s => some s
  | _ => none

def asBool : Json → Option Bool
  | bool b => some b
  | _ => none

def asArray : Json → Option (List Json)
  | arr items => some items
  | _ => none

def asU64 : Json → Option ℕ
  | int n => if 0 ≤ n ∧ n < 2 ^ 64 then some n.toNat else none
  | _ => none

def asI64 : Json → Option ℤ
  | int n => if -2 ^ 63 ≤ n ∧ n < 2 ^ 63 then some n else none
  | _ => none

def asF64 : Json → Option ℚ
  | int n => some n
  | float q => some q
  | _ => none

end Json

end Wheel
