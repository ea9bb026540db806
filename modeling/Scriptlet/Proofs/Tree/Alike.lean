import Scriptlet.Tree
import Mathlib.Data.List.Forall2

/-!
Contract: trees that are the same but for the symbols of their names.

Owns: `Expr.Alike` and its companions, over any relation of symbols; that no
declaration stands as the body of a branch or a loop, which the relation says of
both trees; and `Expr.Placed` and `Stmt.Placed`, which say only that.

Does not own: that the trees read from a source are such
(`Scriptlet.Proofs.Grammar.Parallel`), and how they run
(`Scriptlet.Proofs.Run.Lockstep`).

## Why one relation for two uses

What a tree is like is asked twice: of one tree, whether its declarations stand
where they may; and of two trees read from one source with other symbols,
whether they do the same. A tree that is like itself is one that is well placed,
so that every law of the relation serves both questions.
-/

set_option autoImplicit false

namespace Scriptlet

/-- The name that a statement binds in the scope it is executed in. -/
def Stmt.declared? : Stmt → Option Name
  | .var name _ | .const name _ | .function name _ _ => some name
  | _ => none

def Stmt.isDeclaration (s : Stmt) : Bool :=
  s.declared?.isSome

/-- Names on the same line, with symbols that are related. -/
structure Name.Alike (symbols : Symbol → Symbol → Prop) (left right : Name) : Prop where
  symbol : symbols left.symbol right.symbol
  line : left.line = right.line

mutual

inductive Expr.Alike (symbols : Symbol → Symbol → Prop) : Expr → Expr → Prop where
  | constant (value : Constant) : Expr.Alike symbols (.constant value) (.constant value)
  | grouping {left right : Expr} (inner : Expr.Alike symbols left right) :
      Expr.Alike symbols (.grouping left) (.grouping right)
  | unary {left right : Expr} (op : UnaryOp) (operand : Expr.Alike symbols left right)
      (site : Site) : Expr.Alike symbols (.unary op left site) (.unary op right site)
  | binary {left right left' right' : Expr} (first : Expr.Alike symbols left left')
      (op : BinaryOp) (second : Expr.Alike symbols right right') (site : Site) :
      Expr.Alike symbols (.binary left op right site) (.binary left' op right' site)
  | logical {left right left' right' : Expr} (first : Expr.Alike symbols left left')
      (op : LogicalOp) (second : Expr.Alike symbols right right') :
      Expr.Alike symbols (.logical left op right) (.logical left' op right')
  | assign {name name' : Name} {value value' : Expr} (target : Name.Alike symbols name name')
      (assigned : Expr.Alike symbols value value') :
      Expr.Alike symbols (.assign name value) (.assign name' value')
  | variable {name name' : Name} (same : Name.Alike symbols name name') :
      Expr.Alike symbols (.variable name) (.variable name')
  | call {callee callee' : Expr} {values values' : List Expr}
      (called : Expr.Alike symbols callee callee')
      (arguments : List.Forall₂ (Expr.Alike symbols) values values') (site : Site) :
      Expr.Alike symbols (.call callee values site) (.call callee' values' site)
  | lambda {names names' : List Name} {body body' : List Stmt}
      (parameters : List.Forall₂ (Name.Alike symbols) names names')
      (statements : List.Forall₂ (Stmt.Alike symbols) body body') :
      Expr.Alike symbols (.lambda names body) (.lambda names' body')
  | array {values values' : List Expr}
      (elements : List.Forall₂ (Expr.Alike symbols) values values') :
      Expr.Alike symbols (.array values) (.array values')
  | tuple {values values' : List Expr}
      (elements : List.Forall₂ (Expr.Alike symbols) values values') :
      Expr.Alike symbols (.tuple values) (.tuple values')
  | index {target target' position position' : Expr}
      (collection : Expr.Alike symbols target target')
      (key : Expr.Alike symbols position position') (site : Site) :
      Expr.Alike symbols (.index target position site) (.index target' position' site)
  | indexAssign {target target' position position' value value' : Expr}
      (collection : Expr.Alike symbols target target')
      (key : Expr.Alike symbols position position')
      (assigned : Expr.Alike symbols value value') (site : Site) :
      Expr.Alike symbols (.indexAssign target position value site)
        (.indexAssign target' position' value' site)
  | template {parts parts' : List TemplatePart}
      (all : List.Forall₂ (TemplatePart.Alike symbols) parts parts') :
      Expr.Alike symbols (.template parts) (.template parts')

inductive TemplatePart.Alike (symbols : Symbol → Symbol → Prop) :
    TemplatePart → TemplatePart → Prop where
  | text (value : String) : TemplatePart.Alike symbols (.text value) (.text value)
  | shown {value value' : Expr} (same : Expr.Alike symbols value value') :
      TemplatePart.Alike symbols (.shown value) (.shown value')

inductive Stmt.Alike (symbols : Symbol → Symbol → Prop) : Stmt → Stmt → Prop where
  | expression {value value' : Expr} (same : Expr.Alike symbols value value') :
      Stmt.Alike symbols (.expression value) (.expression value')
  | print {value value' : Expr} (same : Expr.Alike symbols value value') :
      Stmt.Alike symbols (.print value) (.print value')
  | unbound {name name' : Name} (target : Name.Alike symbols name name') :
      Stmt.Alike symbols (.var name none) (.var name' none)
  | bound {name name' : Name} {value value' : Expr} (target : Name.Alike symbols name name')
      (initial : Expr.Alike symbols value value') :
      Stmt.Alike symbols (.var name (some value)) (.var name' (some value'))
  | const {name name' : Name} {value value' : Expr} (target : Name.Alike symbols name name')
      (initial : Expr.Alike symbols value value') :
      Stmt.Alike symbols (.const name value) (.const name' value')
  | function {name name' : Name} {names names' : List Name} {body body' : List Stmt}
      (target : Name.Alike symbols name name')
      (parameters : List.Forall₂ (Name.Alike symbols) names names')
      (statements : List.Forall₂ (Stmt.Alike symbols) body body') :
      Stmt.Alike symbols (.function name names body) (.function name' names' body')
  | block {body body' : List Stmt}
      (statements : List.Forall₂ (Stmt.Alike symbols) body body') :
      Stmt.Alike symbols (.block body) (.block body')
  | onlyIf {condition condition' : Expr} {consequent consequent' : Stmt}
      (test : Expr.Alike symbols condition condition')
      (inner : Stmt.Alike symbols consequent consequent')
      (placed : consequent.isDeclaration = false) :
      Stmt.Alike symbols (.branch condition consequent none) (.branch condition' consequent' none)
  | ifElse {condition condition' : Expr} {consequent consequent' other other' : Stmt}
      (test : Expr.Alike symbols condition condition')
      (inner : Stmt.Alike symbols consequent consequent')
      (placed : consequent.isDeclaration = false) (otherwise : Stmt.Alike symbols other other')
      (placedOther : other.isDeclaration = false) :
      Stmt.Alike symbols (.branch condition consequent (some other))
        (.branch condition' consequent' (some other'))
  | loop {condition condition' : Expr} {body body' : Stmt}
      (test : Expr.Alike symbols condition condition') (inner : Stmt.Alike symbols body body')
      (placed : body.isDeclaration = false) :
      Stmt.Alike symbols (.loop condition body) (.loop condition' body')
  | leave : Stmt.Alike symbols .leave .leave
  | next : Stmt.Alike symbols .next .next
  | nothing : Stmt.Alike symbols (.result none) (.result none)
  | result {value value' : Expr} (same : Expr.Alike symbols value value') :
      Stmt.Alike symbols (.result (some value)) (.result (some value'))
  | switch {rule rule' : Expr} {cases cases' : List Case}
      (tested : Expr.Alike symbols rule rule')
      (all : List.Forall₂ (Case.Alike symbols) cases cases') :
      Stmt.Alike symbols (.switch rule cases) (.switch rule' cases')

inductive Case.Alike (symbols : Symbol → Symbol → Prop) : Case → Case → Prop where
  | labelled {label label' : Expr} {body body' : List Stmt}
      (chosen : Expr.Alike symbols label label')
      (statements : List.Forall₂ (Stmt.Alike symbols) body body') :
      Case.Alike symbols (.labelled label body) (.labelled label' body')
  | fallback {body body' : List Stmt}
      (statements : List.Forall₂ (Stmt.Alike symbols) body body') :
      Case.Alike symbols (.fallback body) (.fallback body')

end

/-- Nowhere in the expression is a declaration the body of a branch or a loop. -/
def Expr.Placed (e : Expr) : Prop :=
  e.Alike Eq e

/-- Nowhere in the statement is a declaration the body of a branch or a loop. -/
def Stmt.Placed (s : Stmt) : Prop :=
  s.Alike Eq s

section Laws

variable {symbols : Symbol → Symbol → Prop}

/-! ## Names that are the same -/

theorem forall₂_eq {α : Type} {list list' : List α} (same : List.Forall₂ Eq list list') :
    list = list' := by
  rwa [List.forall₂_eq_eq_eq] at same

section Same

variable (equal : ∀ {symbol symbol'}, symbols symbol symbol' → symbol = symbol')
include equal

theorem Name.Alike.eq {left right : Name} (alike : left.Alike symbols right) : left = right := by
  obtain ⟨related, line⟩ := alike
  have symbol := equal related
  cases left
  cases right
  cases symbol
  cases line
  rfl

theorem names_eq {left right : List Name} (alike : List.Forall₂ (Name.Alike symbols) left right) :
    left = right :=
  forall₂_eq (alike.imp fun _ _ same => same.eq equal)

/-- Statements that are alike, with the same symbols, are the same. -/
theorem Stmt.Alike.eq {s s' : Stmt} (alike : s.Alike symbols s') : s = s' := by
  have name : ∀ {left right : Name}, left.Alike symbols right → left = right := Name.Alike.eq equal
  have names : ∀ {left right : List Name}, List.Forall₂ (Name.Alike symbols) left right →
      left = right := names_eq equal
  apply @Stmt.Alike.rec symbols (fun e e' _ => e = e') (fun part part' _ => part = part')
    (fun s s' _ => s = s') (fun branch branch' _ => branch = branch')
    (fun list list' _ => list = list') (fun list list' _ => list = list')
    (fun list list' _ => list = list') (fun list list' _ => list = list')
  case t => exact alike
  all_goals grind

end Same

/-! ## More symbols that are related -/

section More

variable {more : Symbol → Symbol → Prop}
  (further : ∀ symbol symbol', symbols symbol symbol' → more symbol symbol')
include further

theorem names_mono {left right : List Name}
    (alike : List.Forall₂ (Name.Alike symbols) left right) :
    List.Forall₂ (Name.Alike more) left right :=
  alike.imp fun _ _ same => ⟨further _ _ same.symbol, same.line⟩

theorem Stmt.Alike.mono {s s' : Stmt} (alike : s.Alike symbols s') : s.Alike more s' := by
  have name : ∀ {left right : Name}, left.Alike symbols right → left.Alike more right :=
    fun same => ⟨further _ _ same.symbol, same.line⟩
  have names : ∀ {left right : List Name}, List.Forall₂ (Name.Alike symbols) left right →
      List.Forall₂ (Name.Alike more) left right := names_mono further
  apply @Stmt.Alike.rec symbols (fun e e' _ => e.Alike more e')
    (fun part part' _ => part.Alike more part') (fun s s' _ => s.Alike more s')
    (fun branch branch' _ => branch.Alike more branch')
    (fun list list' _ => List.Forall₂ (Expr.Alike more) list list')
    (fun list list' _ => List.Forall₂ (Stmt.Alike more) list list')
    (fun list list' _ => List.Forall₂ (TemplatePart.Alike more) list list')
    (fun list list' _ => List.Forall₂ (Case.Alike more) list list')
  case t => exact alike
  -- each rule is that of the same constructor
  all_goals intros
  all_goals constructor
  all_goals first | assumption | exact name ‹_› | exact names ‹_›

end More

/-! ## What `for` stands for -/

/-- The body of a loop, with the increment behind it. -/
theorem Stmt.Alike.increment {body body' : Stmt} {increment increment' : Expr}
    (inner : body.Alike symbols body') (last : increment.Alike symbols increment') :
    (Stmt.block [body, .expression increment]).Alike symbols
      (.block [body', .expression increment']) :=
  .block (.cons inner (.cons (.expression last) .nil))

theorem Stmt.Alike.initial {first first' loop loop' : Stmt} (before : first.Alike symbols first')
    (again : loop.Alike symbols loop') :
    (Stmt.block [first, loop]).Alike symbols (.block [first', loop']) :=
  .block (.cons before (.cons again .nil))

theorem getD_alike {condition condition' : Option Expr}
    (test : Option.Rel (Expr.Alike symbols) condition condition') :
    (condition.getD (.constant (.bool true))).Alike symbols
      (condition'.getD (.constant (.bool true))) := by
  cases test with
  | none => exact .constant _
  | some same => exact same

/-- A `for` whose clauses and bodies are alike. Its body is that of a loop, or
stands in a block, so that it must be no declaration. -/
theorem forLoop_alike {initial initial' : Option Stmt}
    {condition condition' increment increment' : Option Expr} {body body' : Stmt}
    (first : Option.Rel (Stmt.Alike symbols) initial initial')
    (test : Option.Rel (Expr.Alike symbols) condition condition')
    (last : Option.Rel (Expr.Alike symbols) increment increment')
    (inner : body.Alike symbols body') (placed : body.isDeclaration = false) :
    (Stmt.forLoop initial condition increment body).Alike symbols
      (Stmt.forLoop initial' condition' increment' body') ∧
      (Stmt.forLoop initial condition increment body).isDeclaration = false := by
  have tested := getD_alike test
  cases last with
  | none =>
      have again := Stmt.Alike.loop tested inner placed
      cases first with
      | none => exact ⟨again, rfl⟩
      | some before => exact ⟨.initial before again, rfl⟩
  | some increments =>
      have again := Stmt.Alike.loop tested (Stmt.Alike.increment inner increments) rfl
      cases first with
      | none => exact ⟨again, rfl⟩
      | some before => exact ⟨.initial before again, rfl⟩

end Laws

end Scriptlet
