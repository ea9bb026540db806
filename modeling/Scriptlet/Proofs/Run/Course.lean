import Mathlib.Logic.Relation
import Scriptlet.Run.Evaluate

/-!
Contract: the course of a run, from point to point.

A point is something to run, an expression, a statement or several of them, and the
machine to run it on. Running it leads to the points of its parts: those it evaluates
first, those it goes on with, and the bodies of the functions that it calls.

Owns: `Phrase`, what is run at a point; `Point.Leads`, with one rule for each way in
which a part may be reached; `Point.ComesTo`, all points of a run; `Point.Prints`, the
prints that a run comes to; and when a run in two parts has ended (`Run.bind_of_done`,
`Run.done_of_bind`).

Does not own: what is printed (`Run.print`), and what holds at all points of a run
(`Scriptlet.Proofs.Run.Steps`).

## Why the rules run what comes before

A part is reached when everything before it has ended and led there. So each rule that
passes over a part asks for the outcome of that part, as the evaluator has it; how much
fuel it needed does not matter. A run that does not end has points like any other.
-/

set_option autoImplicit false

namespace Scriptlet

/-! ## Scopes -/

/-- A machine with an empty global scope, which has printed nothing. -/
def Machine.blank : Machine :=
  ⟨⟨#[.empty none], #[], #[]⟩, 0, 0, .empty, ⟨fun _ => .ok 0, 0⟩⟩

/-- The machine in a new scope. -/
def Machine.entering (machine : Machine) (scope : Scope) : Machine :=
  { machine with heap := machine.heap.addScope scope, current := machine.heap.scopes.size }

/-- The machine in a new scope inside its current one. -/
def Machine.inside (machine : Machine) : Machine :=
  machine.entering (.empty (some machine.current))

/-! ## What is evaluated first -/

def TemplatePart.shown? : TemplatePart → Option Expr
  | .text _ => none
  | .shown value => some value

/-- The expressions that an expression evaluates in any case, in order. -/
def Expr.operands : Expr → List Expr
  | .constant _ | .variable _ | .lambda _ _ => []
  | .grouping inner => [inner]
  | .unary _ operand _ => [operand]
  | .binary left _ right _ => [left, right]
  | .logical left _ _ => [left]
  | .assign _ value => [value]
  | .call callee arguments _ => callee :: arguments
  | .array elements | .tuple elements => elements
  | .index target position _ => [target, position]
  | .indexAssign target position value _ => [target, position, value]
  | .template parts => parts.filterMap TemplatePart.shown?

/-- The expressions that a statement evaluates in any case. -/
def Stmt.operands : Stmt → List Expr
  | .expression value | .print value | .const _ value => [value]
  | .var _ value | .result value => value.toList
  | .branch condition _ _ | .loop condition _ => [condition]
  | .function _ _ _ | .block _ | .leave | .next | .switch _ _ => []

/-- Whether the first operand decides. -/
def LogicalOp.decides : LogicalOp → Value → Bool
  | .or, value => value.isTruthy
  | .and, value => !value.isTruthy

/-! ## Runs in sequence -/

theorem Run.bind_of_done {α β : Type} {run : Run α} {next : α → Run β} {machine middle : Machine}
    {value : α} (ran : run machine = .done value middle) :
    (run >>= next) machine = next value middle := by
  show Run.bind run next machine = _
  rw [Run.bind, ran]

theorem Run.done_of_bind {α β : Type} {run : Run α} {next : α → Run β} {machine after : Machine}
    {result : β} (ran : (run >>= next) machine = .done result after) :
    ∃ value middle, run machine = .done value middle ∧ next value middle = .done result after := by
  have ran : Run.bind run next machine = .done result after := ran
  unfold Run.bind at ran
  cases outcome : run machine with
  | done value middle =>
      rw [outcome] at ran
      exact ⟨value, middle, rfl, ran⟩
  | aborted cause middle =>
      rw [outcome] at ran
      cases ran
  | exhausted =>
      rw [outcome] at ran
      cases ran

/-! ## Points -/

/-- What is run: an expression or a statement, several of them in order, the labelled
cases of a `switch`, or the statements of a program. -/
inductive Phrase where
  | expression (value : Expr)
  | expressions (list : List Expr)
  | statement (statement : Stmt)
  | statements (list : List Stmt)
  | cases (rule : Expr) (list : List (Expr × List Stmt))
  | program (list : List Stmt)

/-- A phrase, and the machine to run it on. -/
structure Point where
  phrase : Phrase
  machine : Machine

namespace Point

open Run in
/-- From a point to those of its parts. -/
inductive Leads : Point → Point → Prop where
  -- Expressions
  | operands {e : Expr} {here : Machine} :
      Leads ⟨.expression e, here⟩ ⟨.expressions e.operands, here⟩
  | right {left right : Expr} {op : LogicalOp} {value : Value} {fuel : Nat}
      {before middle : Machine} (first : evaluate fuel left before = .done value middle)
      (undecided : op.decides value = false) :
      Leads ⟨.expression (.logical left op right), before⟩ ⟨.expression right, middle⟩
  | called {callee : Expr} {list : List Expr} {site : Site} {id : FunctionId}
      {arguments : List Value} {name : Option Name} {parameters : List Name} {body : List Stmt}
      {scope : ScopeId} {fuel : Nat} {before middle last : Machine}
      (first : evaluate fuel callee before = .done (.function id) middle)
      (others : each (evaluate fuel) list middle = .done arguments last)
      (found : last.heap.functions[id]? = some (.closure name parameters body scope))
      (arity : arguments.length = parameters.length) :
      Leads ⟨.expression (.call callee list site), before⟩
        ⟨.statements body, last.entering (callScope scope parameters arguments)⟩
  | firstOperand {e : Expr} {rest : List Expr} {here : Machine} :
      Leads ⟨.expressions (e :: rest), here⟩ ⟨.expression e, here⟩
  | laterOperand {e : Expr} {rest : List Expr} {value : Value} {fuel : Nat}
      {before middle : Machine} (first : evaluate fuel e before = .done value middle) :
      Leads ⟨.expressions (e :: rest), before⟩ ⟨.expressions rest, middle⟩
  -- Statements
  | evaluated {s : Stmt} {here : Machine} :
      Leads ⟨.statement s, here⟩ ⟨.expressions s.operands, here⟩
  | block {body : List Stmt} {here : Machine} :
      Leads ⟨.statement (.block body), here⟩ ⟨.statements body, here.inside⟩
  | consequent {condition : Expr} {consequent : Stmt} {alternative : Option Stmt} {value : Value}
      {fuel : Nat} {before middle : Machine}
      (test : evaluate fuel condition before = .done value middle)
      (holds : value.isTruthy = true) :
      Leads ⟨.statement (.branch condition consequent alternative), before⟩
        ⟨.statement consequent, middle⟩
  | alternative {condition : Expr} {consequent alternative : Stmt} {value : Value} {fuel : Nat}
      {before middle : Machine} (test : evaluate fuel condition before = .done value middle)
      (fails : value.isTruthy = false) :
      Leads ⟨.statement (.branch condition consequent (some alternative)), before⟩
        ⟨.statement alternative, middle⟩
  | loopBody {condition : Expr} {body : Stmt} {value : Value} {fuel : Nat}
      {before middle : Machine} (test : evaluate fuel condition before = .done value middle)
      (holds : value.isTruthy = true) :
      Leads ⟨.statement (.loop condition body), before⟩ ⟨.statement body, middle⟩
  | loopAgain {condition : Expr} {body : Stmt} {value : Value} {flow : Flow} {fuel : Nat}
      {before middle last : Machine} (test : evaluate fuel condition before = .done value middle)
      (holds : value.isTruthy = true) (ran : execute fuel body middle = .done flow last)
      (goesOn : flow = .normal ∨ flow = .next) :
      Leads ⟨.statement (.loop condition body), before⟩ ⟨.statement (.loop condition body), last⟩
  | labelled {rule : Expr} {cases : List Case} {here : Machine} :
      Leads ⟨.statement (.switch rule cases), here⟩
        ⟨.cases rule (cases.filterMap Case.labelled?), here⟩
  | fallback {rule : Expr} {cases : List Case} {body : List Stmt} {fuel : Nat}
      {before middle : Machine}
      (ran : labelledCases (evaluate fuel) (execute fuel) rule (cases.filterMap Case.labelled?)
        before = .done .normal middle)
      (found : cases.findSome? Case.fallback? = some body) :
      Leads ⟨.statement (.switch rule cases), before⟩ ⟨.statements body, middle.inside⟩
  | firstStatement {s : Stmt} {rest : List Stmt} {here : Machine} :
      Leads ⟨.statements (s :: rest), here⟩ ⟨.statement s, here⟩
  | laterStatement {s : Stmt} {rest : List Stmt} {fuel : Nat} {before middle : Machine}
      (ran : execute fuel s before = .done .normal middle) :
      Leads ⟨.statements (s :: rest), before⟩ ⟨.statements rest, middle⟩
  -- Cases. The rule is evaluated behind each label.
  | compared {rule label : Expr} {body : List Stmt} {rest : List (Expr × List Stmt)}
      {here : Machine} :
      Leads ⟨.cases rule ((label, body) :: rest), here⟩ ⟨.expressions [label, rule], here⟩
  | chosen {rule label : Expr} {body : List Stmt} {rest : List (Expr × List Stmt)}
      {wanted found : Value} {fuel : Nat} {before middle last : Machine}
      (first : evaluate fuel label before = .done wanted middle)
      (second : evaluate fuel rule middle = .done found last) (same : wanted.same found = true) :
      Leads ⟨.cases rule ((label, body) :: rest), before⟩ ⟨.statements body, last.inside⟩
  | laterCase {rule : Expr} {first : Expr × List Stmt} {rest : List (Expr × List Stmt)}
      {fuel : Nat} {before middle : Machine}
      (ran : labelledCases (evaluate fuel) (execute fuel) rule [first] before =
        .done .normal middle) :
      Leads ⟨.cases rule (first :: rest), before⟩ ⟨.cases rule rest, middle⟩
  -- Programs. A jump ends only its own statement.
  | firstTopLevel {s : Stmt} {rest : List Stmt} {here : Machine} :
      Leads ⟨.program (s :: rest), here⟩ ⟨.statement s, here⟩
  | laterTopLevel {s : Stmt} {rest : List Stmt} {flow : Flow} {fuel : Nat}
      {before middle : Machine} (ran : execute fuel s before = .done flow middle) :
      Leads ⟨.program (s :: rest), before⟩ ⟨.program rest, middle⟩

/-- From a point to all those of its run. -/
def ComesTo : Point → Point → Prop :=
  Relation.ReflTransGen Leads

/-! ## Prints -/

/-- The run from the point comes to print `value`. The machine is then `here`: the value
has been evaluated, and nothing of it has been written. -/
def Prints (point : Point) (value : Value) (here : Machine) : Prop :=
  ∃ e before fuel, point.ComesTo ⟨.statement (.print e), before⟩ ∧
    evaluate fuel e before = .done value here

variable {first second : Point} {value : Value} {here : Machine}

/-- The print that a point is. -/
theorem Prints.shown {e : Expr} {fuel : Nat} {before : Machine}
    (evaluated : evaluate fuel e before = .done value here) :
    Prints ⟨.statement (.print e), before⟩ value here :=
  ⟨e, before, fuel, .refl, evaluated⟩

/-- What a part prints, the whole prints. -/
theorem Prints.part (leads : first.Leads second) (prints : second.Prints value here) :
    first.Prints value here := by
  obtain ⟨e, before, fuel, comes, evaluated⟩ := prints
  exact ⟨e, before, fuel, .head leads comes, evaluated⟩

section Operands

variable {e first second : Expr} {rest : List Expr} {fuel : Nat} {result : Value}
  {before middle : Machine}

theorem Prints.operand (operands : e.operands = first :: rest)
    (prints : Prints ⟨.expression first, before⟩ value here) :
    Prints ⟨.expression e, before⟩ value here := by
  refine .part .operands ?_
  rw [operands]
  exact .part .firstOperand prints

theorem Prints.secondOperand (operands : e.operands = first :: second :: rest)
    (ran : evaluate fuel first before = .done result middle)
    (prints : Prints ⟨.expression second, middle⟩ value here) :
    Prints ⟨.expression e, before⟩ value here := by
  refine .part .operands ?_
  rw [operands]
  exact .part (.laterOperand ran) (.part .firstOperand prints)

theorem Prints.evaluated {s : Stmt} (operands : s.operands = first :: rest)
    (prints : Prints ⟨.expression first, before⟩ value here) :
    Prints ⟨.statement s, before⟩ value here := by
  refine .part .evaluated ?_
  rw [operands]
  exact .part .firstOperand prints

end Operands

end Point

end Scriptlet
