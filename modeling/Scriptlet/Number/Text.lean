import Scriptlet.Number.Binary64
import Scriptlet.Number.Shortest

/-!
Contract: numbers as text, in both directions.

Owns: `Decimal.plain`, which writes every digit and no exponent; `text`, the
text of a double; and `ofDigits`, the double nearest to a run of digits with an
optional fraction.

A number has two spellings of infinity: `bareText` writes `inf` where a number
is joined to a string or shown as a literal, `displayText` writes `Infinity`
where it is displayed as a value.
-/

set_option autoImplicit false

namespace Scriptlet.Number

def zeros (count : Nat) : String :=
  String.ofList (List.replicate count '0')

/-- Positional notation, however long. -/
def Decimal.plain (d : Decimal) : String :=
  let digits := Nat.toDigits 10 d.digits
  if 0 ≤ d.exponent then String.ofList digits ++ zeros d.exponent.toNat
  else
    let places := (-d.exponent).toNat
    if digits.length ≤ places then
      "0." ++ zeros (places - digits.length) ++ String.ofList digits
    else
      let whole := digits.length - places
      String.ofList (digits.take whole) ++ "." ++ String.ofList (digits.drop whole)

/-- The text of a double, with the given word for infinity. -/
def text (infinity : String) (x : Float) : String :=
  match parts x with
  | .undefined => "NaN"
  | .infinite negative => if negative then "-" ++ infinity else infinity
  | .finite negative mantissa exponent =>
      let magnitude := if mantissa = 0 then "0" else (shortest mantissa exponent).plain
      if negative then "-" ++ magnitude else magnitude

def bareText (x : Float) : String :=
  text "inf" x

def displayText (x : Float) : String :=
  text "Infinity" x

/-- The value of a run of decimal digits. -/
def digitsValue (digits : List Char) : Nat :=
  digits.foldl (fun value digit => 10 * value + (digit.toNat - '0'.toNat)) 0

/-- The double nearest to `whole.fraction`, both runs of digits. -/
def ofDigits (whole fraction : List Char) : Float :=
  Float.ofScientific (digitsValue (whole ++ fraction)) true fraction.length

end Scriptlet.Number
