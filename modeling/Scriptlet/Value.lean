import Scriptlet.Number.Text

/-!
# Values

What expressions evaluate to and what literals denote.
-/

namespace Scriptlet

inductive Value where
  | nil
  | bool (b : Bool)
  | number (x : Float)
  | string (s : String)
  deriving DecidableEq

namespace Value

/-- Only `nil` and `false` fail a condition. -/
def isTruthy : Value → Bool
  | nil => false
  | bool b => b
  | number _ => true
  | string _ => true

def typeName : Value → String
  | nil => "nil"
  | bool _ => "bool"
  | number _ => "number"
  | string _ => "string"

/-- The language's `==`: values of different types differ, and numbers compare as doubles, so
NaN differs from itself and the two zeros are equal. -/
def equal : Value → Value → Bool
  | nil, nil => true
  | bool a, bool b => a == b
  | number x, number y => x == y
  | string s, string t => s == t
  | _, _ => false

/-- A value as `print` shows it; strings are shown bare. -/
def text : Value → String
  | nil => "nil"
  | bool true => "true"
  | bool false => "false"
  | number x => Number.text x
  | string s => s

end Value
end Scriptlet
