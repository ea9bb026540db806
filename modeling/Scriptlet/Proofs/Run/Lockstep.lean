import Scriptlet.Proofs.Run.Restored
import Scriptlet.Proofs.Tree.Alike

/-!
Contract: two runs in step, from the steps of their machines.

A `Lockstep` says when two values and two machines are related, and which
changes of the first machine are allowed: quiet ones, which expressions and most
statements make, and loud ones, which declarations make. It is `Lawful` if the
steps of a machine and the operators keep to it.

Owns: `Lockstep`, `InStep`, the laws, and what follows from them: trees that are
alike run in step (`fuelInStep`, `interpretAll_inStep`).

Does not own: any one relation of machines. A lockstep of a machine with itself
is an invariant of single runs, together with what a run may change.

## Why two noises

A declaration changes the current scope, and so does a list of statements with a
declaration in it; a block makes a new scope for it, and is quiet again. Only
because no declaration is the body of a branch or a loop is every other
statement quiet.
-/

set_option autoImplicit false

namespace Scriptlet

/-- How much a run may change the machine it starts from. -/
inductive Noise where
  | quiet
  | loud

/-- What is asked of two runs in step. -/
structure Lockstep where
  symbols : Symbol → Symbol → Prop
  value : Value → Value → Prop
  machine : Machine → Machine → Prop
  step : Noise → Machine → Machine → Prop

/-- Both runs end in the same way, in machines that are related, and the first has
changed its machine no more than it may. -/
inductive Outcome.InStep {α β : Type} (lock : Lockstep) (noise : Noise) (relation : α → β → Prop)
    (before : Machine) : Outcome α → Outcome β → Prop where
  | done {value : α} {value' : β} {after after' : Machine} (related : relation value value')
      (machines : lock.machine after after') (stepped : lock.step noise before after) :
      Outcome.InStep lock noise relation before (.done value after) (.done value' after')
  | aborted {cause : Abort} {after after' : Machine} (machines : lock.machine after after')
      (stepped : lock.step noise before after) :
      Outcome.InStep lock noise relation before (.aborted cause after) (.aborted cause after')
  | exhausted : Outcome.InStep lock noise relation before .exhausted .exhausted

/-- What the first run leaves. -/
theorem Outcome.InStep.leaves {α β : Type} {lock : Lockstep} {noise : Noise}
    {relation : α → β → Prop} {before : Machine} {outcome : Outcome α} {outcome' : Outcome β}
    (inStep : outcome.InStep lock noise relation before outcome') :
    outcome.Leaves fun after =>
      (∃ after', lock.machine after after') ∧ lock.step noise before after := by
  cases inStep with
  | done related machines stepped => exact ⟨⟨_, machines⟩, stepped⟩
  | aborted machines stepped => exact ⟨⟨_, machines⟩, stepped⟩
  | exhausted => trivial

/-- Outcomes whose values are given another form. -/
theorem Outcome.InStep.map {α β γ δ : Type} {lock : Lockstep} {noise : Noise}
    {relation : α → β → Prop} {result : γ → δ → Prop} {before before' : Machine} {left : Run α}
    {right : Run β} {convert : α → γ} {convert' : β → δ}
    (inStep : (left before).InStep lock noise relation before (right before'))
    (related : ∀ value value', relation value value' → result (convert value) (convert' value')) :
    Outcome.InStep lock noise result before
      ((left >>= fun value => Pure.pure (convert value)) before)
      ((right >>= fun value => Pure.pure (convert' value)) before') := by
  show (Run.bind left _ before).InStep lock noise result before (Run.bind right _ before')
  unfold Run.bind
  generalize left before = outcome at inStep
  generalize right before' = outcome' at inStep
  cases inStep with
  | done same machines stepped => exact .done (related _ _ same) machines stepped
  | aborted machines stepped => exact .aborted machines stepped
  | exhausted => exact .exhausted

/-- Two runs in step, from any two machines that are related. -/
def InStep {α β : Type} (lock : Lockstep) (noise : Noise) (relation : α → β → Prop) (left : Run α)
    (right : Run β) : Prop :=
  ∀ before before', lock.machine before before' →
    (left before).InStep lock noise relation before (right before')

inductive Flow.Alike (lock : Lockstep) : Flow → Flow → Prop where
  | normal : Flow.Alike lock .normal .normal
  | leave : Flow.Alike lock .leave .leave
  | next : Flow.Alike lock .next .next
  | result {value value' : Value} (same : lock.value value value') :
      Flow.Alike lock (.result value) (.result value')

/-- The steps of a machine, and the operators, keep to the lockstep. -/
structure Lockstep.Lawful (lock : Lockstep) : Prop where
  refl : ∀ noise machine, lock.step noise machine machine
  trans : ∀ {noise first second third}, lock.step noise first second →
    lock.step noise second third → lock.step noise first third
  louder : ∀ {first second}, lock.step .quiet first second → lock.step .loud first second
  constant : ∀ literal : Constant, lock.value literal.value literal.value
  truthy : ∀ {value value'}, lock.value value value' → value.isTruthy = value'.isTruthy
  same : ∀ {left left' right right'}, lock.value left left' → lock.value right right' →
    left.same right = left'.same right'
  unary : ∀ {value value'} op site, lock.value value value' →
    InStep lock .quiet lock.value (.ofExcept site (Operator.unary op value))
      (.ofExcept site (Operator.unary op value'))
  binary : ∀ {left left' right right'} op site, lock.value left left' →
    lock.value right right' →
      InStep lock .quiet lock.value (.yielding site (Operator.binary op left right))
        (.yielding site (Operator.binary op left' right'))
  subscript : ∀ {target target' index index'} site, lock.value target target' →
    lock.value index index' →
      InStep lock .quiet lock.value (.reading site (Operator.subscript · target index))
        (.reading site (Operator.subscript · target' index'))
  setEntry : ∀ {target target' index index' value value'} site, lock.value target target' →
    lock.value index index' → lock.value value value' →
      InStep lock .quiet lock.value (.yielding site (Operator.setEntry target index value))
        (.yielding site (Operator.setEntry target' index' value'))
  lookup : ∀ {name name'}, Name.Alike lock.symbols name name' →
    InStep lock .quiet lock.value (.lookup name) (.lookup name')
  assign : ∀ {name name' value value'}, Name.Alike lock.symbols name name' →
    lock.value value value' →
      InStep lock .quiet Eq (.assign name value) (.assign name' value')
  declare : ∀ {name name' value value'} constant, Name.Alike lock.symbols name name' →
    Option.Rel lock.value value value' →
      InStep lock .loud Eq (.declare name ⟨value, constant⟩)
        (.declare name' ⟨value', constant⟩)
  newCollection : ∀ {values values'} mutable, List.Forall₂ lock.value values values' →
    InStep lock .quiet lock.value (.newCollection values mutable)
      (.newCollection values' mutable)
  newClosure : ∀ {name name' parameters parameters' body body'},
    Option.Rel (Name.Alike lock.symbols) name name' →
    List.Forall₂ (Name.Alike lock.symbols) parameters parameters' →
    List.Forall₂ (Stmt.Alike lock.symbols) body body' →
      InStep lock .quiet lock.value (.newClosure name parameters body)
        (.newClosure name' parameters' body')
  display : ∀ {value value'}, lock.value value value' →
    InStep lock .quiet Eq (.display value) (.display value')
  print : ∀ {value value'}, lock.value value value' →
    InStep lock .quiet Eq (.print value) (.print value')
  nested : ∀ {α β : Type} {relation : α → β → Prop} {body body'},
    InStep lock .loud relation body body' →
      InStep lock .quiet relation (.nested body) (.nested body')
  call : ∀ {execute callee callee' arguments arguments'} site,
    (∀ {body body'}, List.Forall₂ (Stmt.Alike lock.symbols) body body' →
      InStep lock .loud (Flow.Alike lock) (.sequence execute body) (.sequence execute body')) →
    lock.value callee callee' → List.Forall₂ lock.value arguments arguments' →
      InStep lock .quiet lock.value (.call execute callee arguments site)
        (.call execute callee' arguments' site)

namespace InStep

variable {α β γ δ : Type} {lock : Lockstep} {noise : Noise} {relation : α → β → Prop}
  {result : γ → δ → Prop}

/-! ## Sequencing -/

theorem pure (lawful : lock.Lawful) {value : α} {value' : β} (related : relation value value') :
    InStep lock noise relation (pure value) (pure value') :=
  fun before _ machines => .done related machines (lawful.refl noise before)

theorem exhausted : InStep lock noise relation Run.exhausted Run.exhausted :=
  fun _ _ _ => .exhausted

/-- A quiet run may stand where a loud one may. -/
theorem louder (lawful : lock.Lawful) {left : Run α} {right : Run β}
    (quiet : InStep lock .quiet relation left right) : InStep lock .loud relation left right := by
  intro before before' machines
  have here := quiet before before' machines
  generalize left before = outcome at here
  generalize right before' = outcome' at here
  cases here with
  | done related machines stepped => exact .done related machines (lawful.louder stepped)
  | aborted machines stepped => exact .aborted machines (lawful.louder stepped)
  | exhausted => exact .exhausted

/-- Runs whose results are given another form. -/
theorem map {left : Run α} {right : Run β} {convert : α → γ} {convert' : β → δ}
    (inStep : InStep lock noise relation left right)
    (related : ∀ value value', relation value value' → result (convert value) (convert' value')) :
    InStep lock noise result (left >>= fun value => Pure.pure (convert value))
      (right >>= fun value => Pure.pure (convert' value)) :=
  fun before before' machines => (inStep before before' machines).map related

theorem bind (lawful : lock.Lawful) {left : Run α} {right : Run β} {next : α → Run γ}
    {next' : β → Run δ} (first : InStep lock noise relation left right)
    (later : ∀ value value', relation value value' →
      InStep lock noise result (next value) (next' value')) :
    InStep lock noise result (left >>= next) (right >>= next') := by
  intro before before' machines
  have here := first before before' machines
  show (Run.bind left next before).InStep lock noise result before (Run.bind right next' before')
  unfold Run.bind
  generalize left before = outcome at here
  generalize right before' = outcome' at here
  cases here with
  | @done value value' after after' related machines stepped =>
      have there := later value value' related after after' machines
      dsimp only
      generalize next value after = final at there
      generalize next' value' after' = final' at there
      cases there with
      | done related machines steppedOn =>
          exact .done related machines (lawful.trans stepped steppedOn)
      | aborted machines steppedOn => exact .aborted machines (lawful.trans stepped steppedOn)
      | exhausted => exact .exhausted
  | aborted machines stepped => exact .aborted machines stepped
  | exhausted => exact .exhausted

/-! ## Rules over the meanings of parts -/

theorem each (lawful : lock.Lawful) {ε ζ : Type} {element : ε → ζ → Prop} {run : ε → Run α}
    {run' : ζ → Run β} {list : List ε} {list' : List ζ} (all : List.Forall₂ element list list')
    (one : ∀ value value', element value value' →
      InStep lock noise relation (run value) (run' value')) :
    InStep lock noise (List.Forall₂ relation) (Run.each run list) (Run.each run' list') := by
  induction all with
  | nil => exact pure lawful .nil
  | cons first rest inductionHypothesis =>
      refine (one _ _ first).bind lawful fun value value' same => ?_
      exact inductionHypothesis.bind lawful fun values values' others =>
        pure lawful (.cons same others)

section Parts

variable {evaluate : Expr → Run Value} {execute : Stmt → Run Flow}

theorem sequence (lawful : lock.Lawful)
    (statement : ∀ {s s'}, Stmt.Alike lock.symbols s s' →
      InStep lock .loud (Flow.Alike lock) (execute s) (execute s'))
    {list list' : List Stmt} (all : List.Forall₂ (Stmt.Alike lock.symbols) list list') :
    InStep lock .loud (Flow.Alike lock) (Run.sequence execute list)
      (Run.sequence execute list') := by
  induction all with
  | nil => exact pure lawful .normal
  | cons first rest inductionHypothesis =>
      refine (statement first).bind lawful fun flow flow' same => ?_
      cases same with
      | normal => exact inductionHypothesis
      | leave => exact pure lawful .leave
      | next => exact pure lawful .next
      | result same => exact pure lawful (.result same)

theorem loop (lawful : lock.Lawful) {condition condition' : Run Value} {body body' : Run Flow}
    (test : InStep lock .quiet lock.value condition condition')
    (inner : InStep lock .quiet (Flow.Alike lock) body body') (fuel : Nat) :
    InStep lock .quiet (Flow.Alike lock) (Run.loop condition body fuel)
      (Run.loop condition' body' fuel) := by
  induction fuel with
  | zero => exact exhausted
  | succ fuel inductionHypothesis =>
      refine test.bind lawful fun value value' same => ?_
      rw [lawful.truthy same]
      split
      · refine inner.bind lawful fun flow flow' sameFlow => ?_
        cases sameFlow with
        | normal => exact inductionHypothesis
        | next => exact inductionHypothesis
        | leave => exact pure lawful .normal
        | result same => exact pure lawful (.result same)
      · exact pure lawful .normal

/-- A label with the body that it chooses. -/
def LabelledAlike (lock : Lockstep) (left right : Expr × List Stmt) : Prop :=
  left.1.Alike lock.symbols right.1 ∧ List.Forall₂ (Stmt.Alike lock.symbols) left.2 right.2

theorem labelledCases (lawful : lock.Lawful)
    (expression : ∀ {e e'}, Expr.Alike lock.symbols e e' →
      InStep lock .quiet lock.value (evaluate e) (evaluate e'))
    (body : ∀ {list list'}, List.Forall₂ (Stmt.Alike lock.symbols) list list' →
      InStep lock .loud (Flow.Alike lock) (Run.sequence execute list) (Run.sequence execute list'))
    {rule rule' : Expr} (tested : rule.Alike lock.symbols rule')
    {cases cases' : List (Expr × List Stmt)}
    (all : List.Forall₂ (LabelledAlike lock) cases cases') :
    InStep lock .quiet (Flow.Alike lock) (Run.labelledCases evaluate execute rule cases)
      (Run.labelledCases evaluate execute rule' cases') := by
  induction all with
  | nil => exact pure lawful .normal
  | cons first rest inductionHypothesis =>
      refine (expression first.1).bind lawful fun wanted wanted' sameWanted => ?_
      refine (expression tested).bind lawful fun found found' sameFound => ?_
      rw [lawful.same sameWanted sameFound]
      split
      · refine (lawful.nested (body first.2)).bind lawful fun flow flow' same => ?_
        cases same with
        | normal => exact inductionHypothesis
        | leave => exact pure lawful .leave
        | next => exact pure lawful .next
        | result same => exact pure lawful (.result same)
      · exact inductionHypothesis

theorem labelled_alike {cases cases' : List Case}
    (all : List.Forall₂ (Case.Alike lock.symbols) cases cases') :
    List.Forall₂ (LabelledAlike lock) (cases.filterMap Case.labelled?)
      (cases'.filterMap Case.labelled?) := by
  induction all with
  | nil => exact .nil
  | cons first rest inductionHypothesis =>
      cases first with
      | labelled chosen statements => exact .cons ⟨chosen, statements⟩ inductionHypothesis
      | fallback statements => exact inductionHypothesis

theorem fallback_alike {cases cases' : List Case}
    (all : List.Forall₂ (Case.Alike lock.symbols) cases cases') :
    Option.Rel (List.Forall₂ (Stmt.Alike lock.symbols)) (cases.findSome? Case.fallback?)
      (cases'.findSome? Case.fallback?) := by
  induction all with
  | nil => exact .none
  | cons first rest inductionHypothesis =>
      cases first with
      | labelled chosen statements => exact inductionHypothesis
      | fallback statements => exact .some statements

theorem switch (lawful : lock.Lawful)
    (expression : ∀ {e e'}, Expr.Alike lock.symbols e e' →
      InStep lock .quiet lock.value (evaluate e) (evaluate e'))
    (body : ∀ {list list'}, List.Forall₂ (Stmt.Alike lock.symbols) list list' →
      InStep lock .loud (Flow.Alike lock) (Run.sequence execute list) (Run.sequence execute list'))
    {rule rule' : Expr} (tested : rule.Alike lock.symbols rule') {cases cases' : List Case}
    (all : List.Forall₂ (Case.Alike lock.symbols) cases cases') :
    InStep lock .quiet (Flow.Alike lock) (Run.switch evaluate execute rule cases)
      (Run.switch evaluate execute rule' cases') := by
  have fallbacks := fallback_alike all
  unfold Run.switch
  refine (labelledCases lawful expression body tested (labelled_alike all)).bind lawful
    fun flow flow' same => ?_
  cases same with
  | leave => exact pure lawful .normal
  | next => exact pure lawful .next
  | result same => exact pure lawful (.result same)
  | normal =>
      dsimp only
      generalize cases.findSome? Case.fallback? = fallback at fallbacks
      generalize cases'.findSome? Case.fallback? = fallback' at fallbacks
      cases fallbacks with
      | none => exact pure lawful .normal
      | some statements =>
          refine (lawful.nested (body statements)).bind lawful fun flow flow' same => ?_
          cases same with
          | normal => exact pure lawful .normal
          | leave => exact pure lawful .normal
          | next => exact pure lawful .next
          | result same => exact pure lawful (.result same)

theorem templateText (lawful : lock.Lawful)
    (expression : ∀ {e e'}, Expr.Alike lock.symbols e e' →
      InStep lock .quiet lock.value (evaluate e) (evaluate e'))
    {parts parts' : List TemplatePart}
    (all : List.Forall₂ (TemplatePart.Alike lock.symbols) parts parts') (text : String) :
    InStep lock .quiet Eq (Run.templateText evaluate parts text)
      (Run.templateText evaluate parts' text) := by
  induction all generalizing text with
  | nil => exact pure lawful rfl
  | cons first rest inductionHypothesis =>
      cases first with
      | text value => exact inductionHypothesis (text ++ value)
      | shown same =>
          refine (expression same).bind lawful fun value value' sameValue => ?_
          refine (lawful.display sameValue).bind lawful fun shown shown' sameText => ?_
          rw [sameText]
          exact inductionHypothesis (text ++ shown')

end Parts

end InStep

/-! ## Expressions and statements -/

section Fuel

variable {lock : Lockstep} {fuel : Nat}

/-- Trees that are alike run in step, with so much fuel. Only declarations are
loud. -/
structure FuelInStep (lock : Lockstep) (fuel : Nat) : Prop where
  expression : ∀ {e e'}, Expr.Alike lock.symbols e e' →
    InStep lock .quiet lock.value (evaluate fuel e) (evaluate fuel e')
  statement : ∀ {s s'}, Stmt.Alike lock.symbols s s' →
    InStep lock .loud (Flow.Alike lock) (execute fuel s) (execute fuel s')
  body : ∀ {s s'}, Stmt.Alike lock.symbols s s' → s.isDeclaration = false →
    InStep lock .quiet (Flow.Alike lock) (execute fuel s) (execute fuel s')

theorem FuelInStep.sequence (lawful : lock.Lawful) (parts : FuelInStep lock fuel)
    {list list' : List Stmt} (all : List.Forall₂ (Stmt.Alike lock.symbols) list list') :
    InStep lock .loud (Flow.Alike lock) (Run.sequence (execute fuel) list)
      (Run.sequence (execute fuel) list') :=
  .sequence lawful parts.statement all

theorem FuelInStep.evaluate_succ (lawful : lock.Lawful) (parts : FuelInStep lock fuel)
    {e e' : Expr} (alike : e.Alike lock.symbols e') :
    InStep lock .quiet lock.value (evaluate (fuel + 1) e) (evaluate (fuel + 1) e') := by
  have expression := @parts.expression
  cases alike with
  | constant value => exact .pure lawful (lawful.constant value)
  | grouping inner => exact expression inner
  | unary op operand site =>
      exact (expression operand).bind lawful fun _ _ same => lawful.unary op site same
  | binary first op second site =>
      exact (expression first).bind lawful fun _ _ left =>
        (expression second).bind lawful fun _ _ right => lawful.binary op site left right
  | logical first op second =>
      refine (expression first).bind lawful fun value value' same => ?_
      dsimp only
      rw [lawful.truthy same]
      cases op <;> dsimp only <;> split
      · exact .pure lawful same
      · exact expression second
      · exact .pure lawful same
      · exact expression second
  | assign target assigned =>
      refine (expression assigned).bind lawful fun value value' same => ?_
      exact (lawful.assign target same).bind lawful fun _ _ _ => .pure lawful same
  | «variable» same => exact lawful.lookup same
  | call called arguments site =>
      refine (expression called).bind lawful fun callee callee' sameCallee => ?_
      have each := InStep.each lawful arguments fun _ _ => expression
      refine each.bind lawful fun values values' same => ?_
      exact lawful.call site (parts.sequence lawful) sameCallee same
  | lambda parameters statements => exact lawful.newClosure .none parameters statements
  | array elements =>
      exact (InStep.each lawful elements fun _ _ => expression).bind lawful fun _ _ same =>
        lawful.newCollection true same
  | tuple elements =>
      exact (InStep.each lawful elements fun _ _ => expression).bind lawful fun _ _ same =>
        lawful.newCollection false same
  | index collection key site =>
      exact (expression collection).bind lawful fun _ _ target =>
        (expression key).bind lawful fun _ _ position => lawful.subscript site target position
  | indexAssign collection key assigned site =>
      refine (expression collection).bind lawful fun _ _ target => ?_
      refine (expression key).bind lawful fun _ _ position => ?_
      exact (expression assigned).bind lawful fun _ _ value =>
        lawful.setEntry site target position value
  | template all =>
      refine (InStep.templateText lawful expression all "").bind lawful fun text text' same => ?_
      rw [same]
      exact .pure lawful (lawful.constant (.string text'))

/-- A declaration, which changes the current scope. -/
theorem FuelInStep.declare_succ (lawful : lock.Lawful) (parts : FuelInStep lock fuel)
    {s s' : Stmt} (alike : s.Alike lock.symbols s') (declares : s.isDeclaration = true) :
    InStep lock .loud (Flow.Alike lock) (execute (fuel + 1) s) (execute (fuel + 1) s') := by
  cases alike with
  | unbound target =>
      exact (lawful.declare false target .none).bind lawful fun _ _ _ => .pure lawful .normal
  | bound target initial =>
      refine ((parts.expression initial).louder lawful).bind lawful fun _ _ same => ?_
      exact (lawful.declare false target (.some same)).bind lawful fun _ _ _ =>
        .pure lawful .normal
  | const target initial =>
      refine ((parts.expression initial).louder lawful).bind lawful fun _ _ same => ?_
      exact (lawful.declare true target (.some same)).bind lawful fun _ _ _ =>
        .pure lawful .normal
  | function target parameters statements =>
      have made := lawful.newClosure (.some target) parameters statements
      refine (made.louder lawful).bind lawful fun _ _ same => ?_
      exact (lawful.declare false target (.some same)).bind lawful fun _ _ _ =>
        .pure lawful .normal
  | _ => cases declares

theorem FuelInStep.execute_succ (lawful : lock.Lawful) (parts : FuelInStep lock fuel)
    {s s' : Stmt} (alike : s.Alike lock.symbols s') (noDeclaration : s.isDeclaration = false) :
    InStep lock .quiet (Flow.Alike lock) (execute (fuel + 1) s) (execute (fuel + 1) s') := by
  have expression := @parts.expression
  cases alike with
  | expression same => exact (expression same).bind lawful fun _ _ _ => .pure lawful .normal
  | print same =>
      refine (expression same).bind lawful fun value value' sameValue => ?_
      exact (lawful.print sameValue).bind lawful fun _ _ _ => .pure lawful .normal
  | block statements => exact lawful.nested (parts.sequence lawful statements)
  | onlyIf test inner placed =>
      refine (expression test).bind lawful fun value value' same => ?_
      rw [lawful.truthy same]
      split
      · exact parts.body inner placed
      · exact .pure lawful .normal
  | ifElse test inner placed otherwise placedOther =>
      refine (expression test).bind lawful fun value value' same => ?_
      rw [lawful.truthy same]
      split
      · exact parts.body inner placed
      · exact parts.body otherwise placedOther
  | loop test inner placed => exact .loop lawful (expression test) (parts.body inner placed) fuel
  | leave => exact .pure lawful .leave
  | next => exact .pure lawful .next
  | nothing => exact .pure lawful (.result (lawful.constant .nil))
  | result same =>
      exact (expression same).bind lawful fun _ _ sameValue => .pure lawful (.result sameValue)
  | switch tested all =>
      exact .switch lawful expression (parts.sequence lawful) tested all
  | unbound | bound | const | function => cases noDeclaration

/-- **Trees that are alike run in step.** -/
theorem fuelInStep (lawful : lock.Lawful) (fuel : Nat) : FuelInStep lock fuel := by
  induction fuel with
  | zero => exact ⟨fun _ => .exhausted, fun _ => .exhausted, fun _ _ => .exhausted⟩
  | succ fuel parts =>
      have body := @FuelInStep.execute_succ lock fuel lawful parts
      refine ⟨parts.evaluate_succ lawful, fun {s s'} alike => ?_, body⟩
      cases declares : s.isDeclaration with
      | true => exact parts.declare_succ lawful alike declares
      | false => exact (body alike declares).louder lawful

/-! ## Programs -/

theorem topLevel_inStep (lawful : lock.Lawful) (fuel : Nat) {s s' : Stmt}
    (alike : s.Alike lock.symbols s') :
    InStep lock .loud (Option.Rel lock.value) (topLevel fuel s) (topLevel fuel s') := by
  have parts := fuelInStep lawful fuel
  have statement := parts.statement alike
  cases alike with
  | expression same =>
      exact ((parts.expression same).louder lawful).bind lawful fun _ _ sameValue =>
        .pure lawful (.some sameValue)
  | _ => exact statement.bind lawful fun _ _ _ => .pure lawful .none

/-- Top-level statements, after values that are related. -/
theorem interpretAll_inStep (lawful : lock.Lawful) (fuel : Nat) {program program' : List Stmt}
    (all : List.Forall₂ (Stmt.Alike lock.symbols) program program') {values values' : List Value}
    (before : List.Forall₂ lock.value values values') :
    InStep lock .loud (List.Forall₂ lock.value) (interpretAll fuel program values)
      (interpretAll fuel program' values') := by
  induction all generalizing values values' with
  | nil => exact .pure lawful (List.rel_reverse before)
  | cons first rest inductionHypothesis =>
      rw [interpretAll_cons, interpretAll_cons]
      refine (topLevel_inStep lawful fuel first).bind lawful fun value value' same => ?_
      refine inductionHypothesis ?_
      cases same with
      | none => exact before
      | some same => exact .cons same before

end Fuel

end Scriptlet
