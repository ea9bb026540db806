import Scriptlet.Proofs.Run.Course
import Scriptlet.Proofs.Run.Moved
import Scriptlet.Proofs.Run.Steps
import Scriptlet.Proofs.Store.Spacers

/-!
Contract: runs do not see spacers.

A run on a machine with spacers gives the values, the output and the errors that it gives
without them, and leaves the same machine with the same spacers. Only a declaration has to be
kept out of a spacer, since it would bind a name there.

Owns: `Machine.Spaced`; `Run.Blind`, with one lemma for each step of a machine and each rule
of the evaluator; `Stmt.BindsNothing`; and that expressions, statements and programs are
blind (`fuelBlind`, `interpret_blind`).

Does not own: which runs make spacers (`Scriptlet.Proofs.Run.ForLoop`).

## Why two noises

A loud run may declare, and does not begin in a spacer. All that stands in a block, in a case
or in a function runs in a scope of its own, which is no spacer. So a statement needs not be
loud unless a declaration stands right in it.
-/

set_option autoImplicit false

namespace Scriptlet

/-! ## Machines and outcomes -/

/-- The second machine is the first one with spacers on its heap. -/
structure Machine.Spaced (spacing : Spacing) (machine spaced : Machine) : Prop where
  heap : machine.heap.Spaced spacing spaced.heap
  globals : machine.globals = spacing.origin spaced.globals
  globalsReal : ¬ spacing.spacer spaced.globals
  globalsThere : spaced.globals < spaced.heap.scopes.size
  current : machine.current = spacing.origin spaced.current
  currentThere : spaced.current < spaced.heap.scopes.size
  output : spaced.output = machine.output
  clock : spaced.clock = machine.clock

/-- Every sound machine has no spacers besides itself. -/
theorem Machine.Spaced.none {machine : Machine} (sound : machine.Sound) :
    machine.Spaced .none machine where
  heap := .none sound.heap
  globals := rfl
  globalsReal isSpacer := isSpacer
  globalsThere := sound.globals
  current := rfl
  currentThere := sound.current
  output := rfl
  clock := rfl

/-- The machine is in the same scope, and none of its scopes is gone. -/
structure Machine.Continues (before after : Machine) : Prop where
  current : after.current = before.current
  grown : before.heap.scopes.size ≤ after.heap.scopes.size

theorem Machine.Continues.refl (machine : Machine) : machine.Continues machine :=
  ⟨rfl, Nat.le_refl _⟩

theorem Machine.Continues.trans {first second third : Machine} (earlier : first.Continues second)
    (later : second.Continues third) : first.Continues third :=
  ⟨later.current.trans earlier.current, Nat.le_trans earlier.grown later.grown⟩

/-- Both end in the same way, in machines that differ by the same spacers. -/
inductive Outcome.Spaced {α : Type} (spacing : Spacing) (before : Machine) :
    Outcome α → Outcome α → Prop where
  | done (value : α) {after after' : Machine} (machines : after.Spaced spacing after')
      (continues : before.Continues after') :
      Outcome.Spaced spacing before (.done value after) (.done value after')
  | aborted (cause : Abort) {after after' : Machine} (machines : after.Spaced spacing after')
      (continues : before.Continues after') :
      Outcome.Spaced spacing before (.aborted cause after) (.aborted cause after')
  | exhausted : Outcome.Spaced spacing before .exhausted .exhausted

theorem Outcome.Spaced.earlier {α : Type} {spacing : Spacing} {before middle : Machine}
    {outcome outcome' : Outcome α} (later : outcome.Spaced spacing middle outcome')
    (continues : before.Continues middle) : outcome.Spaced spacing before outcome' := by
  cases later with
  | done value machines further => exact .done value machines (continues.trans further)
  | aborted cause machines further => exact .aborted cause machines (continues.trans further)
  | exhausted => exact .exhausted

/-! ## New scopes -/

section Scopes

variable {spacing : Spacing} {before before' : Machine}

theorem Machine.size_entering (machine : Machine) (scope : Scope) :
    (machine.entering scope).heap.scopes.size = machine.heap.scopes.size + 1 :=
  Heap.Spaced.size_addScope _ _

/-- Machines that enter a scope together. The scope is no spacer. -/
theorem Machine.Spaced.entering (machines : before.Spaced spacing before') {scope : Scope}
    {parent : ScopeId} (inside : scope.parent = some parent)
    (there : parent < before'.heap.scopes.size) :
    (before.entering (scope.renamed spacing.origin)).Spaced spacing (before'.entering scope) ∧
      ¬ spacing.spacer (before'.entering scope).current := by
  have size := before'.size_entering scope
  have new := machines.heap.new 0
  refine ⟨{ machines with
    heap := machines.heap.addScope inside there
    globalsThere := size ▸ Nat.lt_succ_of_lt machines.globalsThere
    current := new.2.symm
    currentThere := size ▸ Nat.lt_succ_self _ }, new.1⟩

/-- A machine that alone enters an empty scope, which becomes a spacer. -/
theorem Machine.Spaced.enteringSpacer (machines : before.Spaced spacing before') :
    before.Spaced (spacing.insert before'.heap.scopes.size before'.current) before'.inside := by
  have size := before'.size_entering (.empty (some before'.current))
  have agree : Spacing.AgreeBelow before'.heap.scopes.size spacing
    (spacing.insert before'.heap.scopes.size before'.current) := Spacing.agreeBelow_insert
  have globals := agree before'.globals machines.globalsThere
  exact { machines with
    heap := machines.heap.addSpacer machines.currentThere
    globals := machines.globals.trans globals.2.symm
    globalsReal := fun isSpacer => machines.globalsReal (globals.1.mp isSpacer)
    globalsThere := size ▸ Nat.lt_succ_of_lt machines.globalsThere
    current := machines.current.trans Spacing.insert_origin_place.symm
    currentThere := size ▸ Nat.lt_succ_self _ }

/-- Back in the scope that was current before. There may be more spacers by then. -/
theorem Outcome.Spaced.left {α : Type} {more : Spacing} {scope : Scope}
    {outcome outcome' : Outcome α} (ran : outcome.Spaced more (before'.entering scope) outcome')
    (machines : before.Spaced spacing before')
    (agree : Spacing.AgreeBelow before'.heap.scopes.size spacing more) :
    (outcome.inScope before.current).Spaced more before' (outcome'.inScope before'.current) := by
  have grown : before'.heap.scopes.size ≤ (before'.entering scope).heap.scopes.size :=
    before'.size_entering scope ▸ Nat.le_succ _
  have current := machines.current.trans (agree _ machines.currentThere).2.symm
  cases ran with
  | @done value after after' later continues =>
      have further := Nat.le_trans grown continues.grown
      exact .done value { later with
        current := current
        currentThere := Nat.lt_of_lt_of_le machines.currentThere further } ⟨rfl, further⟩
  | @aborted cause after after' later continues =>
      have further := Nat.le_trans grown continues.grown
      exact .aborted cause { later with
        current := current
        currentThere := Nat.lt_of_lt_of_le machines.currentThere further } ⟨rfl, further⟩
  | exhausted => exact .exhausted

end Scopes

/-! ## Blind runs -/

/-- The run does the same with spacers and without them. If it is loud, it must not begin in
one. -/
def Run.Blind {α : Type} (noise : Noise) (run : Run α) : Prop :=
  ∀ (spacing : Spacing) (before before' : Machine), before.Spaced spacing before' →
    (noise = .loud → ¬ spacing.spacer before'.current) →
      (run before).Spaced spacing before' (run before')

namespace Run.Blind

variable {α β : Type} {noise : Noise} {run : Run α}

/-- A quiet run may also begin in a spacer. -/
theorem anywhere (quiet : Blind .quiet run) {spacing : Spacing} {before before' : Machine}
    (machines : before.Spaced spacing before') :
    (run before).Spaced spacing before' (run before') :=
  quiet spacing before before' machines fun isLoud => by cases isLoud

/-! ## Sequencing -/

theorem pure (value : α) : Blind noise (pure value) :=
  fun _ _ before' machines _ => .done value machines (.refl before')

theorem exhausted : Blind noise (Run.exhausted : Run α) :=
  fun _ _ _ _ _ => .exhausted

theorem fault (site : Site) (cause : Fault) : Blind noise (Run.fault site cause : Run α) :=
  fun _ _ before' machines _ => .aborted _ machines (.refl before')

theorem ofExcept (site : Site) (result : Except Fault α) :
    Blind noise (Run.ofExcept site result) := by
  cases result with
  | ok value => exact pure value
  | error cause => exact fault site cause

theorem bind {next : α → Run β} (first : Blind noise run)
    (later : ∀ value, Blind noise (next value)) : Blind noise (run >>= next) := by
  intro spacing before before' machines real
  have here := first spacing before before' machines real
  show (Run.bind run next before).Spaced spacing before' (Run.bind run next before')
  unfold Run.bind
  generalize run before = outcome at here
  generalize run before' = outcome' at here
  cases here with
  | @done value after after' machines continues =>
      have stillReal : noise = .loud → ¬ spacing.spacer after'.current := fun isLoud => by
        rw [continues.current]
        exact real isLoud
      exact (later value spacing after after' machines stillReal).earlier continues
  | aborted cause machines continues => exact .aborted cause machines continues
  | exhausted => exact .exhausted

theorem ite {condition : Prop} [Decidable condition] {first second : Run α}
    (one : Blind noise first) (other : Blind noise second) :
    Blind noise (if condition then first else second) := by
  split
  · exact one
  · exact other

/-- A value that is given another form. -/
theorem mapped {spacing : Spacing} {before middle middle' : Machine} {other : Run α}
    (ran : (run middle).Spaced spacing before (other middle')) (convert : α → β) :
    ((run >>= fun value => Pure.pure (convert value)) middle).Spaced spacing before
      ((other >>= fun value => Pure.pure (convert value)) middle') := by
  show (Run.bind run _ middle).Spaced spacing before (Run.bind other _ middle')
  unfold Run.bind
  generalize run middle = outcome at ran
  generalize other middle' = outcome' at ran
  cases ran with
  | done value machines continues => exact .done (convert value) machines continues
  | aborted cause machines continues => exact .aborted cause machines continues
  | exhausted => exact .exhausted

/-! ## Steps -/

theorem lookup (name : Name) : Blind noise (Run.lookup name) := by
  intro spacing before before' machines _
  unfold Run.lookup
  rw [machines.current, machines.heap.lookup_eq machines.currentThere]
  cases before'.heap.lookup before'.current name.symbol with
  | ok value => exact .done value machines (.refl before')
  | error cause => exact .aborted _ machines (.refl before')

/-- A machine with a name bound anew. -/
theorem bound {spacing : Spacing} {before before' : Machine}
    (machines : before.Spaced spacing before') {owner : ScopeId}
    (isReal : ¬ spacing.spacer owner ∧ owner < before'.heap.scopes.size) (symbol : Symbol)
    (binding : Binding) :
    Outcome.Spaced spacing before'
      (.done () { before with heap := before.heap.bind (spacing.origin owner) symbol binding })
      (.done () { before' with heap := before'.heap.bind owner symbol binding }) := by
  have size : (before'.heap.bind owner symbol binding).scopes.size = before'.heap.scopes.size :=
    Heap.size_bind _ _ _ _
  refine .done () { machines with
    heap := machines.heap.bind isReal symbol binding
    globalsThere := ?_
    currentThere := ?_ } ⟨rfl, Nat.le_of_eq size.symm⟩
  · exact size ▸ machines.globalsThere
  · exact size ▸ machines.currentThere

theorem assign (name : Name) (value : Value) : Blind noise (Run.assign name value) := by
  intro spacing before before' machines _
  obtain ⟨same, isReal⟩ := machines.heap.assignable_eq machines.currentThere name.symbol
  rw [← machines.current] at same
  rw [Run.assign_eq, Run.assign_eq, same]
  cases owner : before'.heap.assignable before'.current name.symbol with
  | ok owner' => exact bound machines (isReal owner' owner) name.symbol _
  | error cause => exact .aborted _ machines (.refl before')

/-- A name is declared in a scope that is no spacer. -/
theorem declare (name : Name) (binding : Binding) : Blind .loud (Run.declare name binding) := by
  intro spacing before before' machines real
  have declared := bound machines ⟨real rfl, machines.currentThere⟩ name.symbol binding
  rw [← machines.current] at declared
  exact declared

theorem newCollection (values : List Value) (mutable : Bool) :
    Blind noise (Run.newCollection values mutable) := by
  intro spacing before before' machines _
  unfold Run.newCollection
  rw [machines.heap.collections]
  exact .done _ { machines with heap := machines.heap.addCollection _ } ⟨rfl, Nat.le_refl _⟩

theorem newClosure (name : Option Name) (parameters : List Name) (body : List Stmt) :
    Blind noise (Run.newClosure name parameters body) := by
  intro spacing before before' machines _
  have size : before.heap.functions.size = before'.heap.functions.size := by
    rw [machines.heap.functions, Array.size_map]
  have captures : ∀ scope,
      (Function.closure name parameters body before'.current).scope? = some scope →
        scope < before'.heap.scopes.size := fun scope isScope => by
    cases isScope
    exact machines.currentThere
  have added := machines.heap.addFunction captures
  rw [Function.renamed, ← machines.current] at added
  unfold Run.newClosure
  rw [size]
  exact .done _ { machines with heap := added } ⟨rfl, Nat.le_refl _⟩

theorem readClock (site : Site) : Blind noise (Run.readClock site) := by
  intro spacing before before' machines _
  unfold Run.readClock
  rw [machines.clock]
  cases before.clock.now with
  | ok milliseconds => exact .done _ { machines with clock := rfl } ⟨rfl, Nat.le_refl _⟩
  | error message => exact .aborted _ { machines with clock := rfl } ⟨rfl, Nat.le_refl _⟩

theorem display (value : Value) : Blind noise (Run.display value) := by
  intro spacing before before' machines _
  unfold Run.display
  rw [machines.heap.display_eq]
  exact .done _ machines (.refl before')

theorem print (value : Value) : Blind noise (Run.print value) := by
  intro spacing before before' machines _
  unfold Run.print
  rw [machines.heap.display_eq, machines.output]
  dsimp only
  split
  · exact .done () { machines with output := rfl } ⟨rfl, Nat.le_refl _⟩
  · exact .aborted _ { machines with output := rfl } ⟨rfl, Nat.le_refl _⟩

theorem yielding (site : Site) (operation : Operation Value) :
    Blind noise (Run.yielding site operation) := by
  intro spacing before before' machines _
  unfold Run.yielding
  rw [machines.heap.collections]
  cases operation before.heap.collections with
  | ok value left =>
      exact .done value { machines with heap := machines.heap.withCollections left }
        ⟨rfl, Nat.le_refl _⟩
  | error cause left =>
      exact .aborted _ { machines with heap := machines.heap.withCollections left }
        ⟨rfl, Nat.le_refl _⟩

theorem reading (site : Site) {operation : Heap → Except Fault Value}
    (congr : ∀ heap other : Heap, other.collections = heap.collections →
      operation other = operation heap) : Blind noise (Run.reading site operation) := by
  intro spacing before before' machines _
  unfold Run.reading
  rw [congr before.heap before'.heap machines.heap.collections]
  cases operation before.heap with
  | error cause => exact .aborted _ machines (.refl before')
  | ok value => exact .done value machines (.refl before')

/-! ## Scopes -/

/-- In a new scope, which is no spacer, a run may be loud. -/
theorem entered {body : Run α} (inner : Blind .loud body) {spacing : Spacing}
    {before before' : Machine} (machines : before.Spaced spacing before') {scope : Scope}
    {parent : ScopeId} (inside : scope.parent = some parent)
    (there : parent < before'.heap.scopes.size) :
    (Run.inNewScope (scope.renamed spacing.origin) body before).Spaced spacing before'
      (Run.inNewScope scope body before') := by
  obtain ⟨entering, isReal⟩ := machines.entering inside there
  exact (inner spacing _ _ entering fun _ => isReal).left machines (.refl _ spacing)

theorem nested {body : Run α} (inner : Blind .loud body) : Blind noise (Run.nested body) := by
  intro spacing before before' machines _
  have hasParent : (Scope.empty (some before'.current)).parent = some before'.current := rfl
  have ran := inner.entered machines hasParent machines.currentThere
  have same : (Scope.empty (some before'.current)).renamed spacing.origin =
      .empty (some before.current) := by
    rw [machines.current]
    rfl
  rw [same] at ran
  exact ran

end Run.Blind

namespace Run

theorem callScope_renamed (rename : ScopeId → ScopeId) (scope : ScopeId) (parameters : List Name)
    (arguments : List Value) :
    (callScope scope parameters arguments).renamed rename =
      callScope (rename scope) parameters arguments := by
  have renamed : (Scope.empty (some scope)).renamed rename = .empty (some (rename scope)) := rfl
  unfold callScope
  rw [← renamed]
  generalize Scope.empty (some scope) = inner
  generalize parameters.zip arguments = pairs
  induction pairs generalizing inner with
  | nil => rfl
  | cons pair rest inductionHypothesis => exact inductionHypothesis _

end Run

namespace Run.Blind

variable {noise : Noise}

/-! ## Rules over the meanings of parts -/

theorem each {α β : Type} {run : α → Run β} (one : ∀ value, Blind noise (run value))
    (list : List α) : Blind noise (Run.each run list) := by
  induction list with
  | nil => exact pure []
  | cons first rest inductionHypothesis =>
      exact (one first).bind fun value => inductionHypothesis.bind fun values =>
        pure (value :: values)

section Parts

variable {evaluate : Expr → Run Value} {execute : Stmt → Run Flow}

theorem sequence {list : List Stmt} (one : ∀ s ∈ list, Blind noise (execute s)) :
    Blind noise (Run.sequence execute list) := by
  induction list with
  | nil => exact pure Flow.normal
  | cons first rest inductionHypothesis =>
      obtain ⟨here, later⟩ := List.forall_mem_cons.mp one
      refine here.bind fun flow => ?_
      cases flow with
      | normal => exact inductionHypothesis later
      | leave | next | result _ => exact pure _

theorem loop {condition : Run Value} {body : Run Flow} (test : Blind noise condition)
    (inner : Blind noise body) (fuel : Nat) : Blind noise (Run.loop condition body fuel) := by
  induction fuel with
  | zero => exact exhausted
  | succ fuel inductionHypothesis =>
      refine test.bind fun value => ite (inner.bind fun flow => ?_) (pure Flow.normal)
      cases flow with
      | normal | next => exact inductionHypothesis
      | leave | result _ => exact pure _

theorem labelledCases (expression : ∀ e, Blind noise (evaluate e))
    (statement : ∀ s, Blind .loud (execute s)) (rule : Expr) (cases : List (Expr × List Stmt)) :
    Blind noise (Run.labelledCases evaluate execute rule cases) := by
  induction cases with
  | nil => exact pure Flow.normal
  | cons first rest inductionHypothesis =>
      obtain ⟨label, body⟩ := first
      have inner : Blind noise (Run.nested (Run.sequence execute body)) :=
        (sequence fun s _ => statement s).nested
      refine (expression label).bind fun wanted => (expression rule).bind fun found =>
        ite (inner.bind fun flow => ?_) inductionHypothesis
      cases flow with
      | normal => exact inductionHypothesis
      | leave | next | result _ => exact pure _

theorem switch (expression : ∀ e, Blind noise (evaluate e))
    (statement : ∀ s, Blind .loud (execute s)) (rule : Expr) (cases : List Case) :
    Blind noise (Run.switch evaluate execute rule cases) := by
  refine (labelledCases expression statement rule _).bind fun flow => ?_
  cases flow with
  | leave | next | result _ => exact pure _
  | normal =>
      cases cases.findSome? Case.fallback? with
      | none => exact pure Flow.normal
      | some body =>
          have inner : Blind noise (Run.nested (Run.sequence execute body)) :=
            (sequence fun s _ => statement s).nested
          refine inner.bind fun flow => ?_
          cases flow <;> exact pure _

theorem templateText (expression : ∀ e, Blind noise (evaluate e)) (parts : List TemplatePart)
    (text : String) : Blind noise (Run.templateText evaluate parts text) := by
  induction parts generalizing text with
  | nil => exact pure text
  | cons first rest inductionHypothesis =>
      cases first with
      | text value => exact inductionHypothesis (text ++ value)
      | shown value =>
          exact (expression value).bind fun shown => (display shown).bind fun more =>
            inductionHypothesis (text ++ more)

/-- A call goes into the scope that its function was made in, or the one that stands for it. -/
theorem call (statement : ∀ s, Blind .loud (execute s)) (callee : Value) (arguments : List Value)
    (site : Site) : Blind noise (Run.call execute callee arguments site) := by
  cases callee with
  | function id =>
      intro spacing before before' machines real
      unfold Run.call
      dsimp only
      rw [machines.heap.function?_eq]
      cases found : before'.heap.functions[id]? with
      | none => exact fault site .notCallable spacing before before' machines real
      | some function =>
          rw [Option.map_some]
          dsimp only
          rw [Function.arity_renamed]
          split
          · cases function with
            | clock => exact readClock site spacing before before' machines real
            | closure name parameters body scope =>
                have inner : Blind .loud (Run.sequence execute body) :=
                  sequence fun s _ => statement s
                have ran := inner.entered machines
                  (callScope_parent scope parameters arguments)
                  (machines.heap.captured id _ found scope rfl)
                rw [callScope_renamed] at ran
                exact mapped ran Flow.returned
          · exact fault site _ spacing before before' machines real
  | _ => exact fault site .notCallable

end Parts

end Run.Blind

/-! ## Expressions and statements -/

/-- The statement binds nothing in the scope that it is executed in. -/
inductive Stmt.BindsNothing : Stmt → Prop where
  | expression (value : Expr) : BindsNothing (.expression value)
  | print (value : Expr) : BindsNothing (.print value)
  | block (body : List Stmt) : BindsNothing (.block body)
  | branch (condition : Expr) {consequent : Stmt} {alternative : Option Stmt}
      (first : BindsNothing consequent) (second : ∀ s ∈ alternative, BindsNothing s) :
      BindsNothing (.branch condition consequent alternative)
  | loop (condition : Expr) {body : Stmt} (inner : BindsNothing body) :
      BindsNothing (.loop condition body)
  | leave : BindsNothing .leave
  | next : BindsNothing .next
  | result (value : Option Expr) : BindsNothing (.result value)
  | switch (rule : Expr) (cases : List Case) : BindsNothing (.switch rule cases)

section Fuel

open Run

variable {fuel : Nat} {noise : Noise}

/-- With so much fuel, all that is run is blind. -/
structure FuelBlind (fuel : Nat) : Prop where
  expression : ∀ (noise : Noise) (e : Expr), Blind noise (evaluate fuel e)
  statement : ∀ (noise : Noise) (s : Stmt), (noise = .quiet → s.BindsNothing) →
    Blind noise (execute fuel s)

theorem FuelBlind.loud (parts : FuelBlind fuel) (s : Stmt) : Blind .loud (execute fuel s) :=
  parts.statement .loud s nofun

theorem FuelBlind.evaluate_succ (parts : FuelBlind fuel) (noise : Noise) (e : Expr) :
    Blind noise (evaluate (fuel + 1) e) := by
  have expression := parts.expression noise
  have all := Blind.each expression
  cases e <;> rw [evaluate]
  case constant value => exact .pure value.value
  case grouping inner => exact expression inner
  case unary op operand site => exact (expression operand).bind fun value => .ofExcept site _
  case binary left op right site =>
    exact (expression left).bind fun left => (expression right).bind fun right =>
      .yielding site (Operator.binary op left right)
  case logical left op right =>
    exact (expression left).bind fun value => .ite (.pure value) (expression right)
  case assign name value =>
    exact (expression value).bind fun value => (Blind.assign name value).bind fun _ => .pure value
  case «variable» name => exact .lookup name
  case call callee arguments site =>
    exact (expression callee).bind fun callee => (all arguments).bind fun arguments =>
      .call parts.loud callee arguments site
  case lambda parameters body => exact .newClosure none parameters body
  case array elements => exact (all elements).bind fun values => .newCollection values true
  case tuple elements => exact (all elements).bind fun values => .newCollection values false
  case index target index site =>
    exact (expression target).bind fun target => (expression index).bind fun index =>
      .reading site fun _ _ same => Operator.subscript_congr same target index
  case indexAssign target index value site =>
    exact (expression target).bind fun target => (expression index).bind fun index =>
      (expression value).bind fun value =>
        .yielding site (Operator.setEntry target index value)
  case template list =>
    exact (Blind.templateText expression list "").bind fun text => .pure (Value.string text)

theorem FuelBlind.execute_succ (parts : FuelBlind fuel) (noise : Noise) (s : Stmt)
    (placed : noise = .quiet → s.BindsNothing) : Blind noise (execute (fuel + 1) s) := by
  have expression := parts.expression noise
  -- a declaration is loud
  have declared : (¬ s.BindsNothing) → ∀ name binding, Blind noise (Run.declare name binding) := by
    intro declares name binding
    cases noise with
    | quiet => exact absurd (placed rfl) declares
    | loud => exact .declare name binding
  cases s with
  | expression value =>
      rw [execute]
      exact (expression value).bind fun _ => .pure Flow.normal
  | print value =>
      rw [execute]
      exact (expression value).bind fun value => (Blind.print value).bind fun _ => .pure Flow.normal
  | var name initial =>
      cases initial <;> rw [execute]
      · exact (declared nofun name _).bind fun _ => .pure Flow.normal
      · exact (expression _).bind fun value => (declared nofun name _).bind fun _ =>
          .pure Flow.normal
  | const name initial =>
      rw [execute]
      exact (expression initial).bind fun value => (declared nofun name _).bind fun _ =>
        .pure Flow.normal
  | function name parameters body =>
      rw [execute]
      exact (Blind.newClosure _ _ _).bind fun value => (declared nofun name _).bind fun _ =>
        .pure Flow.normal
  | block body =>
      rw [execute]
      exact (Blind.sequence fun s _ => parts.loud s).nested
  | branch condition consequent alternative =>
      have first : Blind noise (execute fuel consequent) := by
        refine parts.statement noise consequent fun isQuiet => ?_
        cases placed isQuiet with
        | branch _ first _ => exact first
      cases alternative <;> rw [execute]
      · exact (expression condition).bind fun value => .ite first (.pure Flow.normal)
      · refine (expression condition).bind fun value => .ite first ?_
        refine parts.statement noise _ fun isQuiet => ?_
        cases placed isQuiet with
        | branch _ _ second => exact second _ rfl
  | loop condition body =>
      rw [execute]
      refine .loop (expression condition) (parts.statement noise body fun isQuiet => ?_) fuel
      cases placed isQuiet with
      | loop _ inner => exact inner
  | leave =>
      rw [execute]
      exact .pure _
  | next =>
      rw [execute]
      exact .pure _
  | result value =>
      cases value <;> rw [execute]
      · exact .pure _
      · exact (expression _).bind fun value => .pure _
  | switch rule cases =>
      rw [execute]
      exact .switch expression parts.loud rule cases

/-- **Expressions and statements are blind**, and those that bind nothing also in a spacer. -/
theorem fuelBlind (fuel : Nat) : FuelBlind fuel := by
  induction fuel with
  | zero => exact ⟨fun _ _ => .exhausted, fun _ _ _ => .exhausted⟩
  | succ fuel inductionHypothesis =>
      exact ⟨inductionHypothesis.evaluate_succ, inductionHypothesis.execute_succ⟩

/-! ## Programs -/

theorem interpretAll_blind (fuel : Nat) (program : List Stmt) (values : List Value) :
    Blind .loud (interpretAll fuel program values) := by
  have parts := fuelBlind fuel
  induction program generalizing values with
  | nil => exact .pure values.reverse
  | cons first rest inductionHypothesis =>
      rw [interpretAll_cons]
      refine .bind ?_ fun value => inductionHypothesis (value.toList ++ values)
      cases first with
      | expression value =>
          exact (parts.expression .loud value).bind fun value => .pure (some value)
      | _ => exact (parts.loud _).bind fun _ => .pure none

/-- **No program sees spacers.** -/
theorem interpret_blind (fuel : Nat) (program : List Stmt) {spacing : Spacing}
    {machine machine' : Machine} (machines : machine.Spaced spacing machine') :
    (interpret fuel program machine).Spaced spacing
      { machine' with current := machine'.globals } (interpret fuel program machine') :=
  interpretAll_blind fuel program [] spacing _ _
    { machines with current := machines.globals, currentThere := machines.globalsThere }
    fun _ => machines.globalsReal

end Fuel

end Scriptlet
