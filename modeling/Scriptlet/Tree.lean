import Scriptlet.Report
import Scriptlet.Symbol

/-!
Contract: syntax trees.

Owns: names, operators, expressions and statements. A node that can fail when
it runs carries the site it fails at: the operator, the closing parenthesis of
a call, the opening bracket of an index, the identifier of a name.
-/

set_option autoImplicit false

namespace Scriptlet

/-- A name as written in a source text. -/
structure Name where
  symbol : Symbol
  line : Nat
deriving DecidableEq, Repr

def Name.site (name : Name) : Site :=
  ⟨name.line, .lexeme name.symbol.name⟩

inductive UnaryOp where
  | negate
  | not
deriving DecidableEq, Repr

inductive BinaryOp where
  | add | sub | mul | div | rem
  | equal | notEqual | less | lessEqual | greater | greaterEqual
deriving DecidableEq, Repr

inductive LogicalOp where
  | and
  | or
deriving DecidableEq, Repr

/-- A value written in the source. -/
inductive Constant where
  | nil
  | bool (value : Bool)
  | number (value : Float)
  | string (value : String)

mutual

inductive Expr where
  | constant (value : Constant)
  | grouping (inner : Expr)
  | unary (op : UnaryOp) (operand : Expr) (site : Site)
  | binary (left : Expr) (op : BinaryOp) (right : Expr) (site : Site)
  | logical (left : Expr) (op : LogicalOp) (right : Expr)
  | assign (name : Name) (value : Expr)
  | variable (name : Name)
  | call (callee : Expr) (arguments : List Expr) (site : Site)
  | lambda (parameters : List Name) (body : List Stmt)
  | array (elements : List Expr)
  | tuple (elements : List Expr)
  | index (target : Expr) (index : Expr) (site : Site)
  | indexAssign (target : Expr) (index : Expr) (value : Expr) (site : Site)
  | template (parts : List TemplatePart)

/-- A part of a template: its own text, or an expression shown in it. -/
inductive TemplatePart where
  | text (value : String)
  | shown (value : Expr)

inductive Stmt where
  | expression (value : Expr)
  | print (value : Expr)
  | var (name : Name) (initial : Option Expr)
  | const (name : Name) (initial : Expr)
  | function (name : Name) (parameters : List Name) (body : List Stmt)
  | block (body : List Stmt)
  | branch (condition : Expr) (consequent : Stmt) (alternative : Option Stmt)
  | loop (condition : Expr) (body : Stmt)
  | leave
  | next
  | result (value : Option Expr)
  | switch (rule : Expr) (cases : List Case)

/-- One case of a `switch`, with the label it is chosen by, if any. -/
inductive Case where
  | labelled (label : Expr) (body : List Stmt)
  | fallback (body : List Stmt)

end

/-- The cases that have a label, in order. -/
def Case.labelled? : Case → Option (Expr × List Stmt)
  | .labelled label body => some (label, body)
  | .fallback _ => none

def Case.fallback? : Case → Option (List Stmt)
  | .labelled _ _ => none
  | .fallback body => some body

/-- The loop `for (initial; condition; increment) body` in terms of `while`: the
increment follows the body in a block of its own, and the initial statement
precedes the loop. Without a condition the loop goes on. -/
def Stmt.forLoop (initial : Option Stmt) (condition increment : Option Expr) (body : Stmt) :
    Stmt :=
  let body :=
    match increment with
    | some increment => .block [body, .expression increment]
    | none => body
  let loop := .loop (condition.getD (.constant (.bool true))) body
  match initial with
  | some initial => .block [initial, loop]
  | none => loop

end Scriptlet
