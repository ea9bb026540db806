/-!
Contract: text between double quotes.

Owns: `quoted`, which writes each character by a given rule, and `literalEscape`, the rule
for the text of a literal token.
-/

set_option autoImplicit false

namespace Scriptlet.Text

/-- A text in double quotes, each character written as `escape` says. -/
def quoted (escape : Char → List Char) (s : String) : String :=
  String.ofList ('\x22' :: s.toList.flatMap escape ++ ['\x22'])

def backslashed (c : Char) : List Char :=
  ['\\', c]

/-- A character of no printed form, as its code point in hexadecimal. -/
def codePoint (c : Char) : List Char :=
  ['\\', 'u', '\x7b'] ++ Nat.toDigits 16 c.toNat ++ ['\x7d']

/-- Quotes, backslashes and control characters are escaped. -/
def literalEscape (c : Char) : List Char :=
  match c with
  | '\x22' => backslashed '\x22'
  | '\\' => backslashed '\\'
  | '\n' => backslashed 'n'
  | '\r' => backslashed 'r'
  | '\t' => backslashed 't'
  | '\x00' => backslashed '0'
  | _ =>
      if c.toNat < 0x20 || (0x7f ≤ c.toNat && c.toNat < 0xa0) then codePoint c else [c]

end Scriptlet.Text
