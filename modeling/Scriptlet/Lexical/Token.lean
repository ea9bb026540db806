import Scriptlet.Lexical.Kind
import Scriptlet.Number.Text
import Scriptlet.Report
import Scriptlet.Symbol
import Scriptlet.Text.Quoted

/-!
Contract: tokens.

Owns: `Token` and the value it may carry, its site, and its text.
-/

set_option autoImplicit false

namespace Scriptlet

/-- The value of a number, string, template text or identifier. -/
inductive Literal where
  | number (value : Float)
  | text (value : String)
  | identifier (symbol : Symbol)

/-- A word of the source, with the line on which it ends. -/
structure Token where
  kind : Kind
  lexeme : String
  literal : Option Literal
  line : Nat

namespace Token

def endOfInput (line : Nat) : Token :=
  ⟨.endOfInput, "", none, line⟩

def site (token : Token) : Site :=
  ⟨token.line, if token.kind = .endOfInput then .endOfInput else .lexeme token.lexeme⟩

def text (token : Token) : String :=
  if token.kind = .endOfInput then "EOF"
  else
    let head := token.kind.name ++ " " ++ token.lexeme
    match token.literal with
    | some (.number value) => head ++ " " ++ Number.bareText value
    | some (.text value) => head ++ " " ++ Text.quoted Text.literalEscape value
    | _ => head

end Token

end Scriptlet
