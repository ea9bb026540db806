import Scriptlet.Lexical.Kind

/-!
Contract: what is reported to the user, and where.

Owns: `Site`, a place in a source text; `Problem`, the lexical and syntax
errors; `Diagnostic`, a problem at a site; and their wording.

Does not own: faults of a running program, which share only the heading of a
site (`Scriptlet.Run.Fault`).
-/

set_option autoImplicit false

namespace Scriptlet

/-- What stands at a site. -/
inductive Place where
  | unknown
  | endOfInput
  | lexeme (text : String)
deriving DecidableEq, Repr

structure Site where
  line : Nat
  place : Place
deriving DecidableEq, Repr

def Place.text : Place → String
  | .unknown => ""
  | .endOfInput => " at end"
  | .lexeme text => " at '" ++ text ++ "'"

/-- How every report begins. -/
def Site.heading (site : Site) : String :=
  "[line " ++ site.line.repr ++ "] Error" ++ site.place.text

/-- What the grammar asks for at a point. -/
inductive Expectation where
  | variableName
  | functionName
  | parameterName
  | expression
  | after (kind : Kind) (landmark : String)
  | before (kind : Kind) (landmark : String)
deriving DecidableEq, Repr

def Expectation.text : Expectation → String
  | .variableName => "variable name"
  | .functionName => "function name"
  | .parameterName => "parameter name"
  | .expression => "expression"
  | .after kind landmark => "'" ++ kind.spelling ++ "' after " ++ landmark
  | .before kind landmark => "'" ++ kind.spelling ++ "' before " ++ landmark

inductive Problem where
  | unexpectedCharacter (character : Char)
  | unterminatedString
  | unterminatedTemplate
  | expected (what : Expectation)
  | tooManyParameters
  | tooManyArguments
  | secondDefault
  | invalidTarget
  | malformedNumber
  | malformedString
  | tooDeep
deriving DecidableEq, Repr

/-- The most parameters a function has, and the most arguments a call has. -/
def maxArguments : Nat := 255

def Problem.message : Problem → String
  | .unexpectedCharacter character =>
      "Unexpected character '" ++ String.singleton character ++ "'."
  | .unterminatedString => "Unterminated string."
  | .unterminatedTemplate => "Unterminated template."
  | .expected what => "Expect " ++ what.text ++ "."
  | .tooManyParameters => "Can't have more than " ++ maxArguments.repr ++ " parameters."
  | .tooManyArguments => "Can't have more than " ++ maxArguments.repr ++ " arguments."
  | .secondDefault => "Switch can only have one default case."
  | .invalidTarget => "Invalid assignment target."
  | .malformedNumber => "Malformed number literal."
  | .malformedString => "Malformed string literal."
  | .tooDeep => "Too deep to read."

structure Diagnostic where
  site : Site
  problem : Problem
deriving DecidableEq, Repr

def Diagnostic.text (diagnostic : Diagnostic) : String :=
  diagnostic.site.heading ++ ": " ++ diagnostic.problem.message

end Scriptlet
