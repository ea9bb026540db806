import Scriptlet.Grammar.Parser
import Scriptlet.Tree

/-!
Contract: the rules for expressions, each over the parsers of its parts.

Owns: names, the left-associative levels and their operators, assignment,
calls and indexing, lists, tuples and templates. A rule that repeats takes
fuel, which every token it takes outlasts.

Does not own: which rule is used for which part (`Scriptlet.Grammar.Rules`).
-/

set_option autoImplicit false

namespace Scriptlet.Grammar

open Scriptlet.Parser

/-- A name. An identifier token without a symbol is reported like a missing
one, but it is taken. -/
def identifier (what : Expectation) : Parser Name := do
  let token ← expect .identifier what
  match token.literal with
  | some (.identifier symbol) => pure ⟨symbol, token.line⟩
  | _ => fail token.site (.expected what)

/-! ## Binary operators -/

/-- What joins two operands. -/
inductive Connective where
  | logical (op : LogicalOp)
  | binary (op : BinaryOp)
deriving DecidableEq, Repr

def Connective.join (connective : Connective) (left right : Expr) (site : Site) : Expr :=
  match connective with
  | .logical op => .logical left op right
  | .binary op => .binary left op right site

/-- The levels of binary operators, from the loosest to the tightest. -/
inductive Level where
  | disjunction
  | conjunction
  | equality
  | comparison
  | term
  | factor
deriving DecidableEq, Repr

namespace Level

/-- The operator of this level that a token is. -/
def operator? : Level → Kind → Option Connective
  | disjunction, .orWord => some (.logical .or)
  | conjunction, .andWord => some (.logical .and)
  | equality, .equalEqual => some (.binary .equal)
  | equality, .bangEqual => some (.binary .notEqual)
  | comparison, .less => some (.binary .less)
  | comparison, .lessEqual => some (.binary .lessEqual)
  | comparison, .greater => some (.binary .greater)
  | comparison, .greaterEqual => some (.binary .greaterEqual)
  | term, .plus => some (.binary .add)
  | term, .minus => some (.binary .sub)
  | factor, .star => some (.binary .mul)
  | factor, .slash => some (.binary .div)
  | factor, .percent => some (.binary .rem)
  | _, _ => none

/-- The next tighter level, which operands are of. Those of a factor are no
binary operations. -/
def tighter? : Level → Option Level
  | disjunction => some conjunction
  | conjunction => some equality
  | equality => some comparison
  | comparison => some term
  | term => some factor
  | factor => none

end Level

/-- The operations of a level that follow `left`, to the left. -/
def operations (level : Level) (operand : Parser Expr) : Nat → Expr → Parser Expr
  | 0, _ => exhausted
  | fuel + 1, left => do
      match ← select level.operator? with
      | none => pure left
      | some (connective, token) =>
          let right ← operand
          operations level operand fuel (connective.join left right token.site)

/-! ## Assignment -/

/-- An assignment operator, with the operation it also does, if any. -/
def assignmentOperator? : Kind → Option (Option BinaryOp)
  | .equal => some none
  | .plusEqual => some (some .add)
  | .minusEqual => some (some .sub)
  | .starEqual => some (some .mul)
  | .slashEqual => some (some .div)
  | _ => none

/-- What `target op= value` assigns: `target op value`. -/
def assignedValue (target value : Expr) (site : Site) : Option BinaryOp → Expr
  | none => value
  | some op => .binary target op value site

/-- What may follow the left side of an assignment. What cannot be assigned to
is reported and kept. -/
def assignment (value : Parser Expr) (target : Expr) : Parser Expr := do
  match ← select assignmentOperator? with
  | none => pure target
  | some (compound, token) =>
      let right ← value
      let assigned := assignedValue target right token.site compound
      match target with
      | .variable name => pure (.assign name assigned)
      | .index collection position site => pure (.indexAssign collection position assigned site)
      | _ => do
          report token.site .invalidTarget
          pure target

/-! ## Calls and indexing -/

def unaryOperator? : Kind → Option UnaryOp
  | .minus => some .negate
  | .bang => some .not
  | _ => none

/-- The arguments of a call, when there is one at least and `count` precede
it. -/
def arguments (argument : Parser Expr) : Nat → Nat → Parser (List Expr)
  | 0, _ => exhausted
  | fuel + 1, count => do
      if maxArguments ≤ count then
        reportHere .tooManyArguments
      let first ← argument
      match ← accept .comma with
      | none => pure [first]
      | some _ =>
          let others ← arguments argument fuel (count + 1)
          pure (first :: others)

/-- The rest of a call, behind its opening parenthesis. -/
def callRest (fuel : Nat) (argument : Parser Expr) (callee : Expr) : Parser Expr := do
  let values ←
    if ← check .rightParen then pure [] else arguments argument fuel 0
  let close ← expectAfter .rightParen "arguments"
  pure (.call callee values close.site)

/-- The rest of an index, behind its opening bracket. -/
def indexRest (expression : Parser Expr) (target : Expr) (site : Site) : Parser Expr := do
  let position ← expression
  let _ ← expectAfter .rightBracket "index"
  pure (.index target position site)

/-- The calls and indexes that follow `target`. -/
def suffixes (expression argument : Parser Expr) : Nat → Expr → Parser Expr
  | 0, _ => exhausted
  | fuel + 1, target => do
      match ← accept .leftParen with
      | some _ =>
          let called ← callRest fuel argument target
          suffixes expression argument fuel called
      | none =>
          match ← accept .leftBracket with
          | some bracket =>
              let indexed ← indexRest expression target bracket.site
              suffixes expression argument fuel indexed
          | none => pure target

/-! ## Primary expressions -/

/-- Expressions between commas up to `close`, which is left. The last one may
be followed by a comma. -/
def elements (expression : Parser Expr) (close : Kind) : Nat → Parser (List Expr)
  | 0 => exhausted
  | fuel + 1 => do
      let next ← peek
      if next = close ∨ next = .endOfInput then pure []
      else
        let first ← expression
        match ← accept .comma with
        | none => pure [first]
        | some _ =>
            let others ← elements expression close fuel
            pure (first :: others)

/-- The rest of a grouping or tuple, behind its opening parenthesis. One
expression is grouped; a comma makes it a tuple. -/
def groupingRest (fuel : Nat) (expression : Parser Expr) : Parser Expr := do
  match ← accept .rightParen with
  | some _ => pure (.tuple [])
  | none =>
      let first ← expression
      match ← accept .comma with
      | some _ =>
          let others ← elements expression .rightParen fuel
          let _ ← expectAfter .rightParen "tuple elements"
          pure (.tuple (first :: others))
      | none =>
          let _ ← expectAfter .rightParen "expression"
          pure (.grouping first)

/-- The rest of an array, behind its opening bracket. -/
def arrayRest (fuel : Nat) (expression : Parser Expr) : Parser Expr := do
  let values ← elements expression .rightBracket fuel
  let _ ← expectAfter .rightBracket "array elements"
  pure (.array values)

/-- A text as template parts. -/
def textParts (text : String) : List TemplatePart :=
  if text.isEmpty then [] else [.text text]

/-- The parts of a template, behind its opening backtick. -/
def templateParts (expression : Parser Expr) : Nat → Parser (List TemplatePart)
  | 0 => exhausted
  | fuel + 1 => do
      let text ← templateText
      match ← accept .dollarBrace with
      | some _ =>
          let value ← expression
          let _ ← expectAfter .rightBrace "template expression"
          let others ← templateParts expression fuel
          pure (textParts text ++ .shown value :: others)
      | none =>
          let _ ← expectAfter .backtick "template"
          pure (textParts text)

/-- Takes the next token and goes on with `value`. -/
def taking {α : Type} (value : Parser α) : Parser α :=
  fun setting tokens => value setting (advance tokens)

/-- A literal number. -/
def numberLiteral : Parser Expr :=
  fun setting tokens =>
    match tokens with
    | ⟨_, _, some (.number value), _⟩ :: _ => ⟨some (.constant (.number value)), advance tokens, []⟩
    | _ => failHere .malformedNumber setting tokens

/-- A literal string. -/
def stringLiteral : Parser Expr :=
  fun setting tokens =>
    match tokens with
    | ⟨_, _, some (.text value), _⟩ :: _ => ⟨some (.constant (.string value)), advance tokens, []⟩
    | _ => failHere .malformedString setting tokens

def primaryRule (fuel : Nat) (expression : Parser Expr) : Parser Expr := do
  match ← peek with
  | .trueWord => taking (pure (.constant (.bool true)))
  | .falseWord => taking (pure (.constant (.bool false)))
  | .nilWord => taking (pure (.constant .nil))
  | .maybeWord => do
      let side ← toss
      taking (pure (.constant (.bool side)))
  | .number => numberLiteral
  | .string => stringLiteral
  | .identifier => do
      let name ← identifier .expression
      pure (.variable name)
  | .leftParen => taking (groupingRest fuel expression)
  | .leftBracket => taking (arrayRest fuel expression)
  | .backtick => taking do
      let parts ← templateParts expression fuel
      pure (.template parts)
  | _ => failHere (.expected .expression)

end Scriptlet.Grammar
