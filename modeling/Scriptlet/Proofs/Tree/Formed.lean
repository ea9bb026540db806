import Scriptlet.Lexical.Kind
import Scriptlet.Proofs.Tree.Alike
import Mathlib.Data.List.Chain

/-!
Contract: the shape of the trees that are run.

Owns: how tightly operators and expressions bind; the tokens that operators are
written as; and `Expr.Formed` and its companions, which say of a tree that its
parts stand where they may and that its names and sites are marked.

Does not own: that the trees read from tokens are such
(`Scriptlet.Proofs.Grammar.WellFormed`), and what running them relies on
(`Scriptlet.Proofs.Run.Provenance`).

## Why the marks are a parameter

The places that a tree keeps are those of the tokens it was read from. Which
tokens these are is a matter of the source; that each node keeps the place of the
right kind of token is a matter of the shape. With marks that say nothing,
`Stmt.Formed` is the shape alone.
-/

set_option autoImplicit false

namespace Scriptlet

/-! ## Levels -/

/-- How tightly an operator binds. -/
def LogicalOp.rank : LogicalOp → Nat
  | .or => 1
  | .and => 2

def BinaryOp.rank : BinaryOp → Nat
  | .equal | .notEqual => 3
  | .less | .lessEqual | .greater | .greaterEqual => 4
  | .add | .sub => 5
  | .mul | .div | .rem => 6

/-- How tightly the operators before an operand bind. -/
def unaryRank : Nat := 7

/-- How tightly calls and indexes bind. -/
def suffixRank : Nat := 8

/-- How tightly an expression binds that no operator can take apart. -/
def primaryRank : Nat := 9

theorem suffixRank_le_primaryRank : suffixRank ≤ primaryRank := by decide

def Expr.rank : Expr → Nat
  | .assign .. | .indexAssign .. | .lambda .. => 0
  | .logical _ op _ => op.rank
  | .binary _ op _ _ => op.rank
  | .unary .. => unaryRank
  | .call .. | .index .. => suffixRank
  | .constant .. | .grouping .. | .variable .. | .array .. | .tuple .. | .template .. => primaryRank

/-! ## What operators are written as -/

def UnaryOp.sign : UnaryOp → Kind
  | .negate => .minus
  | .not => .bang

def BinaryOp.sign : BinaryOp → Kind
  | .add => .plus
  | .sub => .minus
  | .mul => .star
  | .div => .slash
  | .rem => .percent
  | .equal => .equalEqual
  | .notEqual => .bangEqual
  | .less => .less
  | .lessEqual => .lessEqual
  | .greater => .greater
  | .greaterEqual => .greaterEqual

/-- The operator that assigns the result, if there is one. -/
def BinaryOp.assigningSign? : BinaryOp → Option Kind
  | .add => some .plusEqual
  | .sub => some .minusEqual
  | .mul => some .starEqual
  | .div => some .slashEqual
  | _ => none

/-! ## Trees -/

/-- The names a tree may have, and the sites it may keep of a kind of token. -/
structure Marks where
  name : Name → Prop
  site : Kind → Site → Prop

/-- Any name and any site. -/
def Marks.any : Marks :=
  ⟨fun _ => True, fun _ _ => True⟩

def TemplatePart.isText : TemplatePart → Bool
  | .text _ => true
  | .shown _ => false

/-- No two texts come one after the other. -/
def TemplatePart.Separate (parts : List TemplatePart) : Prop :=
  parts.IsChain fun part next => part.isText = false ∨ next.isText = false

mutual

/-- An expression that stands for itself. A function without a name does not: it
stands only where `Expr.Passed` lets it. -/
inductive Expr.Formed (marks : Marks) : Expr → Prop where
  | constant (value : Constant) : Expr.Formed marks (.constant value)
  | grouping {e : Expr} (inner : e.Formed marks) : Expr.Formed marks (.grouping e)
  | unary {op : UnaryOp} {e : Expr} {site : Site} (operand : e.Formed marks)
      (tight : unaryRank ≤ e.rank) (marked : marks.site op.sign site) :
      Expr.Formed marks (.unary op e site)
  | binary {op : BinaryOp} {left right : Expr} {site : Site} (first : left.Formed marks)
      (tight : op.rank ≤ left.rank) (second : right.Formed marks) (tighter : op.rank < right.rank)
      (marked : marks.site op.sign site) : Expr.Formed marks (.binary left op right site)
  | logical {op : LogicalOp} {left right : Expr} (first : left.Formed marks)
      (tight : op.rank ≤ left.rank) (second : right.Formed marks)
      (tighter : op.rank < right.rank) : Expr.Formed marks (.logical left op right)
  | assign {name : Name} {value : Expr} (target : marks.name name)
      (assigned : value.Formed marks) : Expr.Formed marks (.assign name value)
  /-- `name op= right`, where anything may stand on the right. -/
  | update {name : Name} {op : BinaryOp} {right : Expr} {kind : Kind} {site : Site}
      (target : marks.name name) (second : right.Formed marks)
      (assigning : op.assigningSign? = some kind) (marked : marks.site kind site) :
      Expr.Formed marks (.assign name (.binary (.variable name) op right site))
  | variable {name : Name} (used : marks.name name) : Expr.Formed marks (.variable name)
  | call {callee : Expr} {values : List Expr} {site : Site} (called : callee.Formed marks)
      (tight : suffixRank ≤ callee.rank) (arguments : ∀ value ∈ values, value.Passed marks)
      (marked : marks.site .rightParen site) : Expr.Formed marks (.call callee values site)
  | array {values : List Expr} (elements : ∀ value ∈ values, value.Formed marks) :
      Expr.Formed marks (.array values)
  | tuple {values : List Expr} (elements : ∀ value ∈ values, value.Formed marks) :
      Expr.Formed marks (.tuple values)
  | index {target position : Expr} {site : Site} (collection : target.Formed marks)
      (tight : suffixRank ≤ target.rank) (key : position.Formed marks)
      (marked : marks.site .leftBracket site) : Expr.Formed marks (.index target position site)
  | indexAssign {target position value : Expr} {site : Site} (collection : target.Formed marks)
      (tight : suffixRank ≤ target.rank) (key : position.Formed marks)
      (assigned : value.Formed marks) (marked : marks.site .leftBracket site) :
      Expr.Formed marks (.indexAssign target position value site)
  /-- `target[position] op= right`, where anything may stand on the right. -/
  | indexUpdate {target position right : Expr} {op : BinaryOp} {kind : Kind}
      {bracket site : Site} (collection : target.Formed marks)
      (tight : suffixRank ≤ target.rank) (key : position.Formed marks)
      (second : right.Formed marks) (assigning : op.assigningSign? = some kind)
      (marked : marks.site kind site) (opening : marks.site .leftBracket bracket) :
      Expr.Formed marks (.indexAssign target position
        (.binary (.index target position bracket) op right site) bracket)
  | template {parts : List TemplatePart} (all : ∀ part ∈ parts, part.Formed marks)
      (separate : TemplatePart.Separate parts) : Expr.Formed marks (.template parts)

/-- An argument of a call: an expression, or a function without a name. -/
inductive Expr.Passed (marks : Marks) : Expr → Prop where
  | value {e : Expr} (formed : e.Formed marks) : Expr.Passed marks e
  | lambda {names : List Name} {body : List Stmt} (parameters : ∀ name ∈ names, marks.name name)
      (statements : ∀ s ∈ body, s.Inner marks) : Expr.Passed marks (.lambda names body)

inductive TemplatePart.Formed (marks : Marks) : TemplatePart → Prop where
  | text {value : String} (some : value ≠ "") : TemplatePart.Formed marks (.text value)
  | shown {value : Expr} (formed : value.Formed marks) : TemplatePart.Formed marks (.shown value)

/-- A statement that stands for itself. Jumps do not: they stand only where
`Stmt.Inner` lets them. -/
inductive Stmt.Formed (marks : Marks) : Stmt → Prop where
  | expression {value : Expr} (formed : value.Formed marks) : Stmt.Formed marks (.expression value)
  | print {value : Expr} (formed : value.Formed marks) : Stmt.Formed marks (.print value)
  | var {name : Name} {initial : Option Expr} (bound : marks.name name)
      (value : ∀ e ∈ initial, e.Formed marks) : Stmt.Formed marks (.var name initial)
  | const {name : Name} {initial : Expr} (bound : marks.name name)
      (value : initial.Formed marks) : Stmt.Formed marks (.const name initial)
  | function {name : Name} {names : List Name} {body : List Stmt} (bound : marks.name name)
      (parameters : ∀ parameter ∈ names, marks.name parameter)
      (statements : ∀ s ∈ body, s.Inner marks) : Stmt.Formed marks (.function name names body)
  | block {body : List Stmt} (statements : ∀ s ∈ body, s.Inner marks) :
      Stmt.Formed marks (.block body)
  | branch {condition : Expr} {consequent : Stmt} {alternative : Option Stmt}
      (test : condition.Formed marks) (inner : consequent.Formed marks)
      (placed : consequent.isDeclaration = false) (otherwise : ∀ s ∈ alternative, s.Formed marks)
      (placedOther : ∀ s ∈ alternative, s.isDeclaration = false) :
      Stmt.Formed marks (.branch condition consequent alternative)
  | loop {condition : Expr} {body : Stmt} (test : condition.Formed marks)
      (inner : body.Formed marks) (placed : body.isDeclaration = false) :
      Stmt.Formed marks (.loop condition body)
  | result {value : Option Expr} (formed : ∀ e ∈ value, e.Formed marks) :
      Stmt.Formed marks (.result value)
  | switch {rule : Expr} {cases : List Case} (tested : rule.Formed marks)
      (all : ∀ branch ∈ cases, branch.Formed marks) : Stmt.Formed marks (.switch rule cases)

/-- A statement of a block, of a function or of a case: one that stands for
itself, or a jump. -/
inductive Stmt.Inner (marks : Marks) : Stmt → Prop where
  | formed {s : Stmt} (formed : s.Formed marks) : Stmt.Inner marks s
  | leave : Stmt.Inner marks .leave
  | next : Stmt.Inner marks .next

inductive Case.Formed (marks : Marks) : Case → Prop where
  | labelled {label : Expr} {body : List Stmt} (chosen : label.Formed marks)
      (statements : ∀ s ∈ body, s.Inner marks) : Case.Formed marks (.labelled label body)
  | fallback {body : List Stmt} (statements : ∀ s ∈ body, s.Inner marks) :
      Case.Formed marks (.fallback body)

end

/-- **A tree of the right shape.** Jumps stand only in blocks, functions and
cases, and functions without a name only as arguments; the bodies of branches
and loops are no declarations; templates have no empty and no adjacent texts; and
operands bind as tightly as their place asks for, but for what `op=` stands
for. That a constant has a value, and that a function has a name exactly if it is
a statement, is what `Stmt` and `Expr` have constructors for. -/
def Stmt.WellFormed (s : Stmt) : Prop :=
  s.Formed Marks.any

section Laws

variable {marks : Marks}

/-! ## What `for` stands for -/

theorem Stmt.Inner.pair {first second : Stmt} (before : first.Formed marks)
    (after : second.Formed marks) : ∀ s ∈ [first, second], s.Inner marks := by
  intro s inside
  rcases List.mem_pair.mp inside with rfl | rfl
  · exact .formed before
  · exact .formed after

theorem getD_formed {condition : Option Expr} (test : ∀ e ∈ condition, e.Formed marks) :
    (condition.getD (.constant (.bool true))).Formed marks := by
  cases condition with
  | none => exact .constant _
  | some e => exact test e rfl

/-- The loop of a `for` without its first clause. -/
theorem loop_formed {condition : Expr} {increment : Option Expr} {body : Stmt}
    (test : condition.Formed marks) (last : ∀ e ∈ increment, e.Formed marks)
    (inner : body.Formed marks) (placed : body.isDeclaration = false) :
    (Stmt.forLoop none (some condition) increment body).Formed marks := by
  cases increment with
  | none => exact .loop test inner placed
  | some e => exact .loop test (.block (.pair inner (.expression (last e rfl)))) rfl

theorem forLoop_formed {initial : Option Stmt} {condition increment : Option Expr} {body : Stmt}
    (first : ∀ s ∈ initial, s.Formed marks) (test : ∀ e ∈ condition, e.Formed marks)
    (last : ∀ e ∈ increment, e.Formed marks) (inner : body.Formed marks)
    (placed : body.isDeclaration = false) :
    (Stmt.forLoop initial condition increment body).Formed marks ∧
      (Stmt.forLoop initial condition increment body).isDeclaration = false := by
  have again := loop_formed (getD_formed test) last inner placed
  cases initial with
  | none => exact ⟨again, rfl⟩
  | some s => exact ⟨.block (.pair (first s rfl) again), rfl⟩

end Laws

end Scriptlet
