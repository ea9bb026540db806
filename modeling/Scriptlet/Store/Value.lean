/-!
Contract: values.

Owns: `Value`, its truth and its equality. Collections and functions are
numbers of objects in a heap, so that two values are the same object iff they
have the same number.
-/

set_option autoImplicit false

namespace Scriptlet

abbrev ScopeId := Nat

abbrev CollectionId := Nat

abbrev FunctionId := Nat

inductive Value where
  | nil
  | bool (value : Bool)
  | number (value : Float)
  | string (value : String)
  | collection (id : CollectionId)
  | function (id : FunctionId)

namespace Value

/-- Everything but `nil` and `false` counts as true. -/
def isTruthy : Value → Bool
  | nil => false
  | bool value => value
  | _ => true

/-- Equality as programs see it. Values of two types differ, and numbers
compare as numbers: one that is undefined differs from itself. -/
def same : Value → Value → Bool
  | nil, nil => true
  | bool left, bool right => left == right
  | number left, number right => left == right
  | string left, string right => left == right
  | collection left, collection right => left == right
  | function left, function right => left == right
  | _, _ => false

end Value

end Scriptlet
