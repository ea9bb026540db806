import Scriptlet.Grammar.Statement

/-!
Contract: the grammar, its rules tied together.

Owns: the parsers of expressions and statements. Each takes the depth to which
rules may still use rules. A token is taken at the latest after twenty uses, so
that `depthFor` is enough for any list of tokens.
-/

set_option autoImplicit false

namespace Scriptlet.Grammar

open Scriptlet.Parser

mutual

/-- An assignment, or an expression of the loosest level. -/
def expression : Nat → Parser Expr
  | 0 => exhausted
  | depth + 1 => do
      let target ← operation depth .disjunction
      assignment (expression depth) target

/-- An expression of the given level of operators. -/
def operation : Nat → Level → Parser Expr
  | 0, _ => exhausted
  | depth + 1, level => do
      let operand :=
        match level.tighter? with
        | some tighter => operation depth tighter
        | none => unary depth
      let first ← operand
      operations level operand depth first

def unary : Nat → Parser Expr
  | 0 => exhausted
  | depth + 1 => do
      match ← select unaryOperator? with
      | some (op, token) =>
          let operand ← unary depth
          pure (.unary op operand token.site)
      | none => suffixed depth

/-- A primary expression with its calls and indexes. -/
def suffixed : Nat → Parser Expr
  | 0 => exhausted
  | depth + 1 => do
      let target ← primaryRule depth (expression depth)
      suffixes (expression depth) (argument depth) depth target

def argument : Nat → Parser Expr
  | 0 => exhausted
  | depth + 1 => argumentRule depth (expression depth) (body depth)

/-- The statements of a body, behind its opening brace. -/
def body : Nat → Parser (List Stmt)
  | 0 => exhausted
  | depth + 1 => bodyRest (declaration depth) depth

def statement : Nat → Parser Stmt
  | 0 => exhausted
  | depth + 1 => statementRule depth (expression depth) (statement depth) (body depth)

def declaration : Nat → Parser Stmt
  | 0 => exhausted
  | depth + 1 => declarationRule depth (expression depth) (statement depth) (body depth)

end

/-- A depth that is enough for so many tokens. -/
def depthFor (count : Nat) : Nat :=
  20 * (count + 2)

end Scriptlet.Grammar
