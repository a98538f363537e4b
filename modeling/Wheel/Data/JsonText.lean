import Wheel.Data.Json

/-!
# The text of a JSON value

The compact text a value is written as. How a number that is no integer is written is a
parameter.
-/

namespace Wheel

namespace Json

/-- The digit of a number below sixteen. -/
def lowerHex (n : ℕ) : Char := if n < 10 then Char.ofNat (48 + n) else Char.ofNat (87 + n)

def escapeChar (c : Char) : List Char :=
  if c = '\x22' then ['\\', '\x22']
  else if c = '\\' then ['\\', '\\']
  else if c = '\x08' then ['\\', 'b']
  else if c = '\t' then ['\\', 't']
  else if c = '\n' then ['\\', 'n']
  else if c = '\x0c' then ['\\', 'f']
  else if c = '\r' then ['\\', 'r']
  else if c.toNat < 32 then
    ['\\', 'u', '0', '0', lowerHex (c.toNat / 16), lowerHex (c.toNat % 16)]
  else [c]

/-- What stands between the quotes of a string. -/
def escapeText (x : List Char) : List Char := x.flatMap escapeChar

def quoteText (x : List Char) : List Char := '\x22' :: escapeText x ++ ['\x22']

mutual

def print (floatText : ℚ → String) : Json → List Char
  | null => "null".toList
  | bool true => "true".toList
  | bool false => "false".toList
  | int n => (toString n).toList
  | float q => (floatText q).toList
  | str s => quoteText s.toList
  | arr x => '[' :: [','].intercalate (printItems floatText x) ++ [']']
  | obj m => '\x7b' :: [','].intercalate (printMembers floatText m) ++ ['\x7d']

def printItems (floatText : ℚ → String) : List Json → List (List Char)
  | [] => []
  | v :: x => print floatText v :: printItems floatText x

def printMembers (floatText : ℚ → String) : List (String × Json) → List (List Char)
  | [] => []
  | (k, v) :: m => (quoteText k.toList ++ ':' :: print floatText v) :: printMembers floatText m

end

end Json

end Wheel
