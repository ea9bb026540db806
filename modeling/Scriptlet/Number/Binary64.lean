/-!
Contract: a double taken apart into sign, mantissa and exponent, and put
together again.

Owns: `Parts`, the reading `parts` of a double's bits, the writing `assemble`
of an exactly representable number, and the integer a double stands for, if it
stands for one.

Does not own: the text of a number (`Scriptlet.Number.Text`) and arithmetic.
-/

set_option autoImplicit false

namespace Scriptlet.Number

/-- What the bits of a double say. A finite double is
`± mantissa * 2 ^ exponent`. -/
inductive Parts where
  | finite (negative : Bool) (mantissa : Nat) (exponent : Int)
  | infinite (negative : Bool)
  | undefined
deriving DecidableEq, Repr

/-- The least exponent of a double, that of its last place near zero. -/
def leastExponent : Int := -1074

/-- The sign is the first bit. -/
def signUnit : Nat := 0x8000000000000000

/-- The scale is the next eleven, and the fraction is the last 52. -/
def scaleUnit : Nat := 0x10000000000000

def parts (x : Float) : Parts :=
  let bits := x.toBits.toNat
  let negative := decide (signUnit ≤ bits)
  let scale := bits / scaleUnit % 2048
  let fraction := bits % scaleUnit
  if scale = 2047 then
    if fraction = 0 then .infinite negative else .undefined
  else if scale = 0 then .finite negative fraction leastExponent
  else .finite negative (scaleUnit + fraction) (leastExponent + (scale - 1 : Nat))

/-- The double of value `± magnitude * 2 ^ exponent`, for a value that a
finite double has exactly. -/
def assemble (negative : Bool) (magnitude : Nat) (exponent : Int) : Float :=
  let sign := if negative then signUnit else 0
  if magnitude = 0 then .ofBits (UInt64.ofNat sign)
  else
    -- The last place of the result: 52 places below the first bit, unless the
    -- value is so small that the least exponent comes first.
    let place := max leastExponent (exponent + magnitude.log2 - 52)
    let mantissa :=
      if place ≤ exponent then magnitude * Nat.pow 2 (exponent - place).toNat
      else magnitude / Nat.pow 2 (place - exponent).toNat
    let scale := (place - leastExponent).toNat
    -- A mantissa of 53 bits carries its first bit into the scale, which counts
    -- from one.
    .ofBits (UInt64.ofNat (sign + scale * scaleUnit + mantissa))

/-- The natural number a double is equal to. Negative zero is zero. -/
def natural? (x : Float) : Option Nat :=
  match parts x with
  | .finite negative mantissa exponent =>
      if mantissa = 0 then some 0
      else if negative then none
      else if 0 ≤ exponent then some (mantissa * Nat.pow 2 exponent.toNat)
      else
        let unit := Nat.pow 2 (-exponent).toNat
        if mantissa % unit = 0 then some (mantissa / unit) else none
  | _ => none

end Scriptlet.Number
