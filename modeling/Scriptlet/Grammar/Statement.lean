import Scriptlet.Grammar.Expression

/-!
Contract: the rules for statements, each over the parsers of its parts.

Owns: declarations, functions, the statements and the bodies in braces. Errors
inside a body are recovered from at its next statement.

Does not own: which rule is used for which part (`Scriptlet.Grammar.Rules`).
-/

set_option autoImplicit false

namespace Scriptlet.Grammar

open Scriptlet.Parser

/-! ## Declarations -/

/-- The rest of a variable declaration, behind `var`. -/
def varRest (expression : Parser Expr) : Parser Stmt := do
  let name ← identifier .variableName
  let initial ←
    match ← accept .equal with
    | some _ => some <$> expression
    | none => pure none
  let _ ← expectAfter .semicolon "variable declaration"
  pure (.var name initial)

/-- The rest of a constant declaration, behind `const`. -/
def constRest (expression : Parser Expr) : Parser Stmt := do
  let name ← identifier .variableName
  let _ ← expectAfter .equal "constant name"
  let initial ← expression
  let _ ← expectAfter .semicolon "variable declaration"
  pure (.const name initial)

/-- The parameters of a function, when there is one at least and `count`
precede it. -/
def parameters : Nat → Nat → Parser (List Name)
  | 0, _ => exhausted
  | fuel + 1, count => do
      if maxArguments ≤ count then
        reportHere .tooManyParameters
      let first ← identifier .parameterName
      match ← accept .comma with
      | none => pure [first]
      | some _ =>
          let others ← parameters fuel (count + 1)
          pure (first :: others)

/-- The parameters and body of a function, behind the opening parenthesis. -/
def functionRest (fuel : Nat) (body : Parser (List Stmt)) :
    Parser (List Name × List Stmt) := do
  let names ← if ← check .rightParen then pure [] else parameters fuel 0
  let _ ← expectAfter .rightParen "parameters"
  let _ ← expectBefore .leftBrace "function body"
  let statements ← body
  pure (names, statements)

/-- The rest of a function declaration, behind `fun`. -/
def functionDeclaration (fuel : Nat) (body : Parser (List Stmt)) : Parser Stmt := do
  let name ← identifier .functionName
  let _ ← expectAfter .leftParen "function name"
  let (names, statements) ← functionRest fuel body
  pure (.function name names statements)

/-- An argument of a call: a function without a name, or an expression. -/
def argumentRule (fuel : Nat) (expression : Parser Expr) (body : Parser (List Stmt)) :
    Parser Expr := do
  match ← accept .funWord with
  | some _ =>
      let _ ← expectAfter .leftParen "'fun'"
      let (names, statements) ← functionRest fuel body
      pure (.lambda names statements)
  | none => expression

/-! ## Bodies -/

/-- The rest of a jump, behind its keyword. -/
def jumpRest (jump : Stmt) (keyword : String) : Parser Stmt := do
  let _ ← expectAfter .semicolon keyword
  pure jump

/-- A statement in braces, where jumps are allowed. -/
def bodyStatement (declaration : Parser Stmt) : Parser Stmt := do
  match ← accept .breakWord with
  | some _ => jumpRest .leave "'break'"
  | none =>
      match ← accept .continueWord with
      | some _ => jumpRest .next "'continue'"
      | none => declaration

/-- Statements up to a closing brace, which is taken. -/
def bodyRest (declaration : Parser Stmt) : Nat → Parser (List Stmt)
  | 0 => exhausted
  | fuel + 1 => do
      let next ← peek
      if next = .rightBrace ∨ next = .endOfInput then
        let _ ← expectAfter .rightBrace "block"
        pure []
      else
        let first ← recovered (bodyStatement declaration)
        let others ← bodyRest declaration fuel
        pure (first.toList ++ others)

/-! ## Statements -/

def printRest (expression : Parser Expr) : Parser Stmt := do
  let value ← expression
  let _ ← expectAfter .semicolon "value"
  pure (.print value)

def ifRest (expression : Parser Expr) (statement : Parser Stmt) : Parser Stmt := do
  let _ ← expectAfter .leftParen "'if'"
  let condition ← expression
  let _ ← expectAfter .rightParen "if condition"
  let consequent ← statement
  match ← accept .elseWord with
  | some _ => do
      let alternative ← statement
      pure (.branch condition consequent (some alternative))
  | none => pure (.branch condition consequent none)

def whileRest (expression : Parser Expr) (statement : Parser Stmt) : Parser Stmt := do
  let _ ← expectAfter .leftParen "'while'"
  let condition ← expression
  let _ ← expectAfter .rightParen "condition"
  let body ← statement
  pure (.loop condition body)

/-- The first clause of a `for`, with its semicolon. -/
def forInitial (expression : Parser Expr) : Parser (Option Stmt) := do
  match ← accept .semicolon with
  | some _ => pure none
  | none =>
      match ← accept .varWord with
      | some _ => some <$> varRest expression
      | none =>
          let value ← expression
          let _ ← expectAfter .semicolon "loop initializer"
          pure (some (.expression value))

/-- An expression, unless a token of the given kind is next. -/
def optional (expression : Parser Expr) (close : Kind) : Parser (Option Expr) := do
  if ← check close then pure none else some <$> expression

def forRest (expression : Parser Expr) (statement : Parser Stmt) : Parser Stmt := do
  let _ ← expectAfter .leftParen "'for'"
  let initial ← forInitial expression
  let condition ← optional expression .semicolon
  let _ ← expectAfter .semicolon "loop condition"
  let increment ← optional expression .rightParen
  let _ ← expectAfter .rightParen "for clauses"
  let body ← statement
  pure (.forLoop initial condition increment body)

/-- The cases of a `switch`. A second case without a label is reported and
kept. -/
def cases (expression : Parser Expr) (body : Parser (List Stmt)) :
    Nat → Bool → Parser (List Case)
  | 0, _ => exhausted
  | fuel + 1, hasFallback => do
      match ← accept .caseWord with
      | some _ =>
          let label ← expression
          let _ ← expectAfter .colon "case expression"
          let _ ← expectBefore .leftBrace "case body"
          let statements ← body
          let others ← cases expression body fuel hasFallback
          pure (.labelled label statements :: others)
      | none =>
          match ← accept .defaultWord with
          | some keyword =>
              if hasFallback then
                report keyword.site .secondDefault
              let _ ← expectAfter .colon "'default'"
              let _ ← expectBefore .leftBrace "case body"
              let statements ← body
              let others ← cases expression body fuel true
              pure (.fallback statements :: others)
          | none => pure []

def switchRest (fuel : Nat) (expression : Parser Expr) (body : Parser (List Stmt)) :
    Parser Stmt := do
  let rule ← expression
  let _ ← expectAfter .colon "switch expression"
  let all ← cases expression body fuel false
  pure (.switch rule all)

/-- Further values of a `return`, each behind a comma. -/
def furtherValues (expression : Parser Expr) : Nat → Parser (List Expr)
  | 0 => exhausted
  | fuel + 1 => do
      match ← accept .comma with
      | none => pure []
      | some _ =>
          let first ← expression
          let others ← furtherValues expression fuel
          pure (first :: others)

/-- The rest of a `return`. Several values are returned as a tuple. -/
def returnRest (fuel : Nat) (expression : Parser Expr) : Parser Stmt := do
  match ← accept .semicolon with
  | some _ => pure (.result none)
  | none =>
      let first ← expression
      let others ← furtherValues expression fuel
      let value := if others.isEmpty then first else .tuple (first :: others)
      let _ ← expectAfter .semicolon "return value"
      pure (.result (some value))

def expressionStatement (expression : Parser Expr) : Parser Stmt := do
  let value ← expression
  let _ ← expectAfter .semicolon "expression"
  pure (.expression value)

def statementRule (fuel : Nat) (expression : Parser Expr) (statement : Parser Stmt)
    (body : Parser (List Stmt)) : Parser Stmt := do
  match ← peek with
  | .printWord => taking (printRest expression)
  | .leftBrace => taking (.block <$> body)
  | .ifWord => taking (ifRest expression statement)
  | .forWord => taking (forRest expression statement)
  | .whileWord => taking (whileRest expression statement)
  | .switchWord => taking (switchRest fuel expression body)
  | .returnWord => taking (returnRest fuel expression)
  | _ => expressionStatement expression

def declarationRule (fuel : Nat) (expression : Parser Expr) (statement : Parser Stmt)
    (body : Parser (List Stmt)) : Parser Stmt := do
  match ← peek with
  | .funWord => taking (functionDeclaration fuel body)
  | .varWord => taking (varRest expression)
  | .constWord => taking (constRest expression)
  | _ => statement

end Scriptlet.Grammar
