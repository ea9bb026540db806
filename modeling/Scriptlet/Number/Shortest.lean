import Scriptlet.Number.Binary64

/-!
Contract: the shortest decimal that reads back as a given double.

Owns: `Decimal`, and `shortest`, which for 1, 2, ... 17 digits looks at the two
neighbours of `mantissa * 2 ^ exponent` on the decimal grid of so many digits,
and takes the first grid with a neighbour inside the interval of reals that
round to the double. Of two such neighbours the nearer is taken, and of two
equally near ones the larger.

All arithmetic is exact, on natural numbers.
-/

set_option autoImplicit false

namespace Scriptlet.Number

/-- The number `digits * 10 ^ exponent`. -/
structure Decimal where
  digits : Nat
  exponent : Int
deriving DecidableEq, Repr

/-- A positive rational `value / scale`, with the distances, in the same unit,
to the ends of the interval of reals that round to it. The ends belong to the
interval iff `closed`. -/
structure Rounded where
  value : Nat
  scale : Nat
  below : Nat
  above : Nat
  closed : Bool
deriving DecidableEq, Repr

/-- The interval of a double. The neighbour below is half as far away when the
mantissa is the first of its binade, unless that is the lowest one. -/
def Rounded.ofDouble (mantissa : Nat) (exponent : Int) : Rounded :=
  let unit := Nat.pow 2 exponent.toNat
  let firstOfBinade := mantissa = scaleUnit ∧ exponent ≠ leastExponent
  { value := 4 * mantissa * unit
    scale := 4 * Nat.pow 2 (-exponent).toNat
    below := if firstOfBinade then unit else 2 * unit
    above := 2 * unit
    closed := mantissa % 2 = 0 }

/-- The zeros between the point and the first digit of `value / scale < 1`. -/
def leadingZeros (scale : Nat) : Nat → Nat → Nat
  | 0, _ => 0
  | fuel + 1, value =>
      if scale ≤ value * 10 then 0 else leadingZeros scale fuel (value * 10) + 1

/-- The exponent of the least power of ten above `value / scale`. -/
def Rounded.magnitude (r : Rounded) : Int :=
  if r.scale ≤ r.value then (Nat.toDigits 10 (r.value / r.scale)).length
  else -(leadingZeros r.scale 400 r.value : Nat)

def reaches (closed : Bool) (distance bound : Nat) : Bool :=
  if closed then distance ≤ bound else distance < bound

/-- The decimal on the grid of multiples of `10 ^ exponent` that reads back, if
there is one. -/
def Rounded.onGrid? (r : Rounded) (exponent : Int) : Option Nat :=
  let finer := Nat.pow 10 (-exponent).toNat
  let step := r.scale * Nat.pow 10 exponent.toNat
  let lower := r.value * finer / step
  let excess := r.value * finer % step
  let lowerReads := reaches r.closed excess (r.below * finer)
  let upperReads := reaches r.closed (step - excess) (r.above * finer)
  if lowerReads && upperReads then
    some (if step ≤ 2 * excess then lower + 1 else lower)
  else if lowerReads then some lower
  else if upperReads then some (lower + 1)
  else none

/-- The first grid with a decimal that reads back, from the given number of
digits on. -/
def Rounded.search (r : Rounded) (magnitude : Int) : Nat → Nat → Decimal
  | 0, digits =>
      let exponent := magnitude - digits
      ⟨r.value * Nat.pow 10 (-exponent).toNat / (r.scale * Nat.pow 10 exponent.toNat), exponent⟩
  | fuel + 1, digits =>
      let exponent := magnitude - digits
      match r.onGrid? exponent with
      | some found => ⟨found, exponent⟩
      | none => r.search magnitude fuel (digits + 1)

/-- Without a last digit zero. Only a carry to the next power of ten has one,
and it has one digit before it. -/
def Decimal.trimmed (d : Decimal) : Decimal :=
  if d.digits % 10 = 0 then ⟨d.digits / 10, d.exponent + 1⟩ else d

/-- The shortest decimal of `mantissa * 2 ^ exponent`, for a positive
mantissa. -/
def shortest (mantissa : Nat) (exponent : Int) : Decimal :=
  let r := Rounded.ofDouble mantissa exponent
  (r.search r.magnitude 17 1).trimmed

end Scriptlet.Number
