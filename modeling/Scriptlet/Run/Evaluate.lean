import Scriptlet.Run.Operator

/-!
Contract: the meaning of expressions and statements.

Owns: `evaluate`, `execute` and `interpret`, with the rules for sequences,
loops, cases, templates and calls that they are made of. Fuel bounds both how
deep rules use rules and how often a loop repeats; a run that ends within its
fuel does not depend on it.
-/

set_option autoImplicit false

namespace Scriptlet

/-- How a statement ends. -/
inductive Flow where
  | normal
  | leave
  | next
  | result (value : Value)

/-- What a call whose body ends so is worth. A jump that no loop took ends the
body. -/
def Flow.returned : Flow → Value
  | result value => value
  | _ => .nil

namespace Run

/-! ## Rules over the meanings of parts -/

/-- Runs for each element, in order, and keeps the values. -/
def each {α β : Type} (run : α → Run β) : List α → Run (List β)
  | [] => pure []
  | first :: rest => do
      let value ← run first
      let values ← each run rest
      pure (value :: values)

/-- Executes statements until one does not end normally. -/
def sequence (execute : Stmt → Run Flow) : List Stmt → Run Flow
  | [] => pure .normal
  | first :: rest => do
      match ← execute first with
      | .normal => sequence execute rest
      | flow => pure flow

/-- Repeats `body` while the condition holds. -/
def loop (condition : Run Value) (body : Run Flow) : Nat → Run Flow
  | 0 => exhausted
  | fuel + 1 => do
      let value ← condition
      if value.isTruthy then
        match ← body with
        | .normal | .next => loop condition body fuel
        | .leave => pure .normal
        | .result value => pure (.result value)
      else pure .normal

/-- Executes each case whose label equals the rule, which is evaluated anew for
each label, until one does not end normally. -/
def labelledCases (evaluate : Expr → Run Value) (execute : Stmt → Run Flow) (rule : Expr) :
    List (Expr × List Stmt) → Run Flow
  | [] => pure .normal
  | (label, body) :: rest => do
      let wanted ← evaluate label
      let found ← evaluate rule
      if wanted.same found then
        match ← nested (sequence execute body) with
        | .normal => labelledCases evaluate execute rule rest
        | flow => pure flow
      else labelledCases evaluate execute rule rest

/-- Executes the cases with a label, and then the first one without. Leaving a
case leaves the whole. -/
def switch (evaluate : Expr → Run Value) (execute : Stmt → Run Flow) (rule : Expr)
    (cases : List Case) : Run Flow := do
  match ← labelledCases evaluate execute rule (cases.filterMap Case.labelled?) with
  | .leave => pure .normal
  | .normal =>
      match cases.findSome? Case.fallback? with
      | none => pure .normal
      | some body =>
          match ← nested (sequence execute body) with
          | .leave => pure .normal
          | flow => pure flow
  | flow => pure flow

/-- The text of a template, after `text`. -/
def templateText (evaluate : Expr → Run Value) : List TemplatePart → String → Run String
  | [], text => pure text
  | .text value :: rest, text => templateText evaluate rest (text ++ value)
  | .shown value :: rest, text => do
      let value ← evaluate value
      let shown ← display value
      templateText evaluate rest (text ++ shown)

/-- The scope of a call: the parameters bound to the arguments. -/
def callScope (scope : ScopeId) (parameters : List Name) (arguments : List Value) : Scope :=
  (parameters.zip arguments).foldl
    (fun inner (name, value) => inner.bind name.symbol ⟨some value, false⟩)
    (.empty (some scope))

def apply (execute : Stmt → Run Flow) (function : Function) (arguments : List Value)
    (site : Site) : Run Value :=
  match function with
  | .clock => readClock site
  | .closure _ parameters body scope => do
      let flow ← inNewScope (callScope scope parameters arguments) (sequence execute body)
      pure flow.returned

/-- Calls a value, at the site of its closing parenthesis. -/
def call (execute : Stmt → Run Flow) (callee : Value) (arguments : List Value) (site : Site) :
    Run Value :=
  match callee with
  | .function id => fun machine =>
      match machine.heap.functions[id]? with
      | none => fault site .notCallable machine
      | some function =>
          if arguments.length = function.arity then apply execute function arguments site machine
          else fault site (.arity function.arity arguments.length) machine
  | _ => fault site .notCallable

end Run

/-! ## Expressions and statements -/

def Constant.value : Constant → Value
  | .nil => .nil
  | .bool value => .bool value
  | .number value => .number value
  | .string value => .string value

open Run

mutual

def evaluate : Nat → Expr → Run Value
  | 0, _ => Run.exhausted
  | fuel + 1, expression =>
      match expression with
      | .constant value => pure value.value
      | .grouping inner => evaluate fuel inner
      | .unary op operand site => do
          let value ← evaluate fuel operand
          ofExcept site (Operator.unary op value)
      | .binary left op right site => do
          let left ← evaluate fuel left
          let right ← evaluate fuel right
          yielding site (Operator.binary op left right)
      | .logical left op right => do
          let value ← evaluate fuel left
          let decided :=
            match op with
            | .or => value.isTruthy
            | .and => !value.isTruthy
          if decided then pure value else evaluate fuel right
      | .assign name value => do
          let value ← evaluate fuel value
          assign name value
          pure value
      | .variable name => lookup name
      | .call callee arguments site => do
          let callee ← evaluate fuel callee
          let arguments ← each (evaluate fuel) arguments
          call (execute fuel) callee arguments site
      | .lambda parameters body => newClosure none parameters body
      | .array elements => do
          let values ← each (evaluate fuel) elements
          newCollection values true
      | .tuple elements => do
          let values ← each (evaluate fuel) elements
          newCollection values false
      | .index target index site => do
          let target ← evaluate fuel target
          let index ← evaluate fuel index
          reading site (Operator.subscript · target index)
      | .indexAssign target index value site => do
          let target ← evaluate fuel target
          let index ← evaluate fuel index
          let value ← evaluate fuel value
          yielding site (Operator.setEntry target index value)
      | .template parts => do
          let text ← templateText (evaluate fuel) parts ""
          pure (.string text)

def execute : Nat → Stmt → Run Flow
  | 0, _ => Run.exhausted
  | fuel + 1, statement =>
      match statement with
      | .expression value => do
          let _ ← evaluate fuel value
          pure .normal
      | .print value => do
          let value ← evaluate fuel value
          print value
          pure .normal
      | .var name none => do
          declare name ⟨none, false⟩
          pure .normal
      | .var name (some initial) => do
          let value ← evaluate fuel initial
          declare name ⟨some value, false⟩
          pure .normal
      | .const name initial => do
          let value ← evaluate fuel initial
          declare name ⟨some value, true⟩
          pure .normal
      | .function name parameters body => do
          let function ← newClosure (some name) parameters body
          declare name ⟨some function, false⟩
          pure .normal
      | .block body => nested (sequence (execute fuel) body)
      | .branch condition consequent alternative => do
          let value ← evaluate fuel condition
          if value.isTruthy then execute fuel consequent
          else
            match alternative with
            | some alternative => execute fuel alternative
            | none => pure .normal
      | .loop condition body => loop (evaluate fuel condition) (execute fuel body) fuel
      | .leave => pure .leave
      | .next => pure .next
      | .result none => pure (.result .nil)
      | .result (some value) => do
          let value ← evaluate fuel value
          pure (.result value)
      | .switch rule cases => switch (evaluate fuel) (execute fuel) rule cases

end

/-- Runs top-level statements, after those whose values are in `values`, the
latest first. A jump at top level ends only its own statement. -/
def interpretAll (fuel : Nat) : List Stmt → List Value → Run (List Value)
  | [], values => pure values.reverse
  | .expression value :: rest, values => do
      let value ← evaluate fuel value
      interpretAll fuel rest (value :: values)
  | statement :: rest, values => do
      let _ ← execute fuel statement
      interpretAll fuel rest values

/-- Runs a program in the global scope, for the values of its expression
statements. -/
def interpret (fuel : Nat) (program : List Stmt) : Run (List Value) :=
  fun machine => interpretAll fuel program [] { machine with current := machine.globals }

end Scriptlet
