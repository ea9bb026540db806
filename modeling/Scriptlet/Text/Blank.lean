/-!
Contract: blank characters at the ends of a line of input.

Owns: `isBlank`, the Unicode property White_Space, and `trimmed`.
-/

set_option autoImplicit false

namespace Scriptlet.Text

/-- The ranges of code points with the property White_Space. -/
def blankRanges : List (Nat × Nat) :=
  [(0x09, 0x0d), (0x20, 0x20), (0x85, 0x85), (0xa0, 0xa0), (0x1680, 0x1680),
    (0x2000, 0x200a), (0x2028, 0x2029), (0x202f, 0x202f), (0x205f, 0x205f),
    (0x3000, 0x3000)]

def isBlank (c : Char) : Bool :=
  blankRanges.any fun (first, last) => first ≤ c.toNat && c.toNat ≤ last

/-- Without the blank characters at either end. -/
def trimmed (s : String) : String :=
  String.ofList
    (((s.toList.dropWhile isBlank).reverse.dropWhile isBlank).reverse)

end Scriptlet.Text
