import Scriptlet.Number.Binary64

/-!
Contract: the remainder of two doubles, exact.

Owns: `remainder`, which takes as many whole divisors as fit from the dividend
and keeps the dividend's sign. What is left is a multiple of the smaller last
place and below the divisor, so that a double has it exactly and nothing is
rounded.
-/

set_option autoImplicit false

namespace Scriptlet.Number

/-- The double that stands for no number. -/
def undefinedNumber : Float := .ofBits 0x7ff8000000000000

def remainder (dividend divisor : Float) : Float :=
  match parts dividend, parts divisor with
  | .finite negative left leftExponent, .finite _ right rightExponent =>
      if right = 0 then undefinedNumber
      else
        let place := min leftExponent rightExponent
        let whole := left * Nat.pow 2 (leftExponent - place).toNat
        let step := right * Nat.pow 2 (rightExponent - place).toNat
        assemble negative (whole % step) place
  | .finite _ _ _, .infinite _ => dividend
  | _, _ => undefinedNumber

end Scriptlet.Number
