import Scriptlet.Proofs.Run.Moved
import Scriptlet.Proofs.Run.Steps

/-!
Contract: runs go by steps.

Owns: `Stepwise`, by which a run on a sound machine goes by steps and returns only what
exists, with one rule for each way to make runs of runs; `fuelStepwise` and
`interpret_stepwise`, for expressions, statements and programs; and
`Point.ComesTo.reaches`, for all points on the way, whether or not the run ends.

Does not own: the steps (`Scriptlet.Proofs.Run.Steps`).

## Why values are part of it

A step adds only what points at objects that exist, and what a run adds are values that
other runs have returned. So the rules say both at once: that the machine is reached by
steps, and that the value exists in its heap.
-/

set_option autoImplicit false

namespace Scriptlet

/-! ## Outcomes -/

/-- The machine that an outcome leaves is reached by steps, and the value, if there is
one, has the property in its heap. -/
def Outcome.Stepped {α : Type} (before : Machine) (property : Heap → α → Prop) :
    Outcome α → Prop
  | .done value after => before.Reaches after ∧ property after.heap value
  | .aborted _ after => before.Reaches after
  | .exhausted => True

theorem Outcome.Stepped.after {α : Type} {before middle : Machine} {property : Heap → α → Prop}
    {outcome : Outcome α} (stepped : outcome.Stepped middle property)
    (earlier : before.Reaches middle) : outcome.Stepped before property := by
  cases outcome with
  | done value after => exact ⟨earlier.trans stepped.1, stepped.2⟩
  | aborted cause after => exact earlier.trans stepped
  | exhausted => trivial

/-- The run goes by steps, if the machine is sound. -/
def Stepwise {α : Type} (run : Run α) (machine : Machine) (property : Heap → α → Prop) : Prop :=
  machine.Sound → (run machine).Stepped machine property

theorem Stepwise.done {α : Type} {run : Run α} {machine after : Machine}
    {property : Heap → α → Prop} {value : α} (stepwise : Stepwise run machine property)
    (sound : machine.Sound) (ran : run machine = .done value after) :
    machine.Reaches after ∧ property after.heap value := by
  have stepped := stepwise sound
  rw [ran] at stepped
  exact stepped

/-- All values exist. -/
def Value.AllExist (heap : Heap) (values : List Value) : Prop :=
  ∀ value ∈ values, value.Exists heap

/-- The value that a statement ends with exists. -/
def Flow.Exists (heap : Heap) : Flow → Prop
  | .result value => value.Exists heap
  | _ => True

/-- Nothing is said of the value. -/
def anything {α : Type} (_ : Heap) (_ : α) : Prop :=
  True

namespace Stepwise

variable {α β : Type} {run : Run α} {machine : Machine} {property : Heap → α → Prop}

/-! ## Sequencing -/

theorem exhausted : Stepwise (Run.exhausted : Run α) machine property :=
  fun _ => trivial

theorem pure {value : α} (holds : property machine.heap value) :
    Stepwise (pure value) machine property :=
  fun _ => ⟨.refl, holds⟩

theorem fault (site : Site) (cause : Fault) :
    Stepwise (Run.fault site cause : Run α) machine property :=
  fun _ => .refl

theorem ofExcept (site : Site) {result : Except Fault α}
    (holds : ∀ value, result = .ok value → property machine.heap value) :
    Stepwise (Run.ofExcept site result) machine property := by
  cases result with
  | ok value => exact pure (holds value rfl)
  | error cause => exact fault site cause

/-- The second run begins where the first one ended. -/
theorem bind {next : α → Run β} {later : Heap → β → Prop} (first : Stepwise run machine property)
    (second : ∀ value middle, machine.Reaches middle → property middle.heap value →
      Stepwise (next value) middle later) :
    Stepwise (run >>= next) machine later := by
  intro sound
  have here := first sound
  show (Run.bind run next machine).Stepped machine later
  unfold Run.bind
  cases outcome : run machine with
  | done value middle =>
      rw [outcome] at here
      obtain ⟨reaches, holds⟩ := here
      exact (second value middle reaches holds (reaches.sound sound)).after reaches
  | aborted cause after =>
      rw [outcome] at here
      exact here
  | exhausted => trivial

/-! ## Steps of a machine -/

theorem lookup (name : Name) : Stepwise (Run.lookup name) machine Value.Exists := by
  intro sound
  unfold Run.lookup
  split
  next found => exact ⟨.refl, sound.heap.lookup_exists found⟩
  next => exact .refl

theorem assign (name : Name) {value : Value} (there : value.Exists machine.heap) :
    Stepwise (Run.assign name value) machine anything := by
  intro _
  rw [Run.assign_eq]
  split
  next owner _ =>
    refine ⟨.single (.bind owner name.symbol _ fun bound isBound => ?_), trivial⟩
    cases isBound
    exact there
  next => exact .refl

theorem declare (name : Name) {binding : Binding}
    (there : ∀ value, binding.value = some value → value.Exists machine.heap) :
    Stepwise (Run.declare name binding) machine anything :=
  fun _ => ⟨.single (.bind machine.current name.symbol binding there), trivial⟩

theorem newCollection {values : List Value} (there : Value.AllExist machine.heap values)
    (mutable : Bool) : Stepwise (Run.newCollection values mutable) machine Value.Exists := by
  intro _
  exact ⟨.single (.newCollection there mutable), size_lt_push machine.heap.collections _⟩

theorem newClosure (name : Option Name) (parameters : List Name) (body : List Stmt) :
    Stepwise (Run.newClosure name parameters body) machine Value.Exists := by
  intro sound
  exact ⟨.single (.newClosure name parameters body sound.current),
    size_lt_push machine.heap.functions _⟩

theorem readClock (site : Site) : Stepwise (Run.readClock site) machine Value.Exists := by
  intro _
  unfold Run.readClock
  dsimp only
  split
  · exact ⟨.single (.clock machine.clock.tick), trivial⟩
  · exact .single (.clock machine.clock.tick)

theorem display (value : Value) : Stepwise (Run.display value) machine anything :=
  fun _ => ⟨.refl, trivial⟩

theorem print (value : Value) : Stepwise (Run.print value) machine anything := by
  intro _
  unfold Run.print
  dsimp only
  split
  · exact ⟨.single (.output _), trivial⟩
  · exact .single (.output _)

/-- Where the operation fails, it has changed nothing. -/
theorem yielding (site : Site) {operation : Operation Value} (guarded : Guarded operation)
    (made : machine.heap.Sound → operation.SoundOn machine.heap) :
    Stepwise (Run.yielding site operation) machine Value.Exists := by
  intro sound
  unfold Run.yielding
  cases ended : operation machine.heap.collections with
  | ok value left =>
      obtain ⟨there, edits⟩ := made sound.heap value left ended
      cases edits with
      | none => exact ⟨.refl, there⟩
      | one found becomes =>
          have step := Machine.Step.change found becomes
          exact ⟨.single step, step.keeps.value there⟩
  | error cause left =>
      rw [guarded _ cause left ended]
      exact .refl

theorem reading (site : Site) {operation : Heap → Except Fault Value}
    (found : ∀ value, machine.heap.Sound → operation machine.heap = .ok value →
      value.Exists machine.heap) :
    Stepwise (Run.reading site operation) machine Value.Exists := by
  intro sound
  unfold Run.reading
  split
  next => exact .refl
  next value done => exact ⟨.refl, found value sound.heap done⟩

/-! ## Scopes -/

theorem inNewScope {scope : Scope} {parent : ScopeId} (inside : scope.parent = some parent)
    (there : parent < machine.heap.scopes.size) (bound : scope.Holds (Value.Exists machine.heap))
    {body : Run α} (inner : Stepwise body (machine.entering scope) property) :
    Stepwise (Run.inNewScope scope body) machine property := by
  intro sound
  have enter : machine.Step (machine.entering scope) := .enter inside there bound
  have here := inner (enter.sound sound)
  have back : ∀ {after : Machine}, (machine.entering scope).Reaches after →
      machine.Reaches { after with current := machine.current } := by
    intro after reaches
    have whole : machine.Reaches after := .head enter reaches
    exact whole.tail (.leave (whole.keeps.scope sound.current))
  show ((body (machine.entering scope)).inScope machine.current).Stepped machine property
  cases outcome : body (machine.entering scope) with
  | done value after =>
      rw [outcome] at here
      exact ⟨back here.1, here.2⟩
  | aborted cause after =>
      rw [outcome] at here
      exact back here
  | exhausted => trivial

theorem nested {body : Run α} (inner : Stepwise body machine.inside property) :
    Stepwise (Run.nested body) machine property :=
  fun sound => inNewScope rfl sound.current (Scope.holds_empty _) inner sound

end Stepwise

/-- The scope of a call binds the arguments. -/
theorem callScope_holds {property : Value → Prop} (scope : ScopeId) (parameters : List Name)
    {arguments : List Value} (all : ∀ value ∈ arguments, property value) :
    (Run.callScope scope parameters arguments).Holds property := by
  refine callScope_induction scope parameters arguments (Scope.holds_empty _) ?_
  intro inner holds name _ value given
  refine holds.bind name.symbol fun bound isBound => ?_
  cases isBound
  exact all value given

theorem Flow.Exists.returned {heap : Heap} {flow : Flow} (there : flow.Exists heap) :
    flow.returned.Exists heap := by
  cases flow with
  | result value => exact there
  | normal | leave | next => trivial

namespace Stepwise

variable {machine : Machine}

/-! ## Rules over the meanings of parts -/

section Parts

variable {evaluate : Expr → Run Value} {execute : Stmt → Run Flow}

theorem each {α : Type} {run : α → Run Value}
    (one : ∀ x machine, Stepwise (run x) machine Value.Exists) (list : List α) :
    Stepwise (Run.each run list) machine Value.AllExist := by
  induction list generalizing machine with
  | nil => exact pure (List.forall_mem_nil _)
  | cons first rest inductionHypothesis =>
      refine (one first machine).bind fun value middle _ there => ?_
      refine inductionHypothesis.bind fun values last reaches others => ?_
      exact pure (List.forall_mem_cons.mpr ⟨reaches.keeps.value there, others⟩)

theorem sequence (one : ∀ s machine, Stepwise (execute s) machine Flow.Exists)
    (list : List Stmt) : Stepwise (Run.sequence execute list) machine Flow.Exists := by
  induction list generalizing machine with
  | nil => exact pure trivial
  | cons first rest inductionHypothesis =>
      refine (one first machine).bind fun flow middle _ there => ?_
      cases flow with
      | normal => exact inductionHypothesis
      | leave | next => exact pure trivial
      | result value => exact pure there

theorem loop {condition : Run Value} {body : Run Flow}
    (tested : ∀ machine, Stepwise condition machine Value.Exists)
    (repeated : ∀ machine, Stepwise body machine Flow.Exists) (count : Nat) :
    Stepwise (Run.loop condition body count) machine Flow.Exists := by
  induction count generalizing machine with
  | zero => exact exhausted
  | succ count inductionHypothesis =>
      refine (tested machine).bind fun value middle _ _ => ?_
      split
      · refine (repeated middle).bind fun flow last _ there => ?_
        cases flow with
        | normal | next => exact inductionHypothesis
        | leave => exact pure trivial
        | result value => exact pure there
      · exact pure trivial

theorem labelledCases (evaluated : ∀ e machine, Stepwise (evaluate e) machine Value.Exists)
    (executed : ∀ s machine, Stepwise (execute s) machine Flow.Exists) (rule : Expr)
    (list : List (Expr × List Stmt)) :
    Stepwise (Run.labelledCases evaluate execute rule list) machine Flow.Exists := by
  induction list generalizing machine with
  | nil => exact pure trivial
  | cons branch rest inductionHypothesis =>
      refine (evaluated branch.1 machine).bind fun wanted middle _ _ => ?_
      refine (evaluated rule middle).bind fun found last _ _ => ?_
      split
      · refine (nested (sequence executed branch.2)).bind fun flow final _ there => ?_
        cases flow with
        | normal => exact inductionHypothesis
        | leave | next => exact pure trivial
        | result value => exact pure there
      · exact inductionHypothesis

theorem switch (evaluated : ∀ e machine, Stepwise (evaluate e) machine Value.Exists)
    (executed : ∀ s machine, Stepwise (execute s) machine Flow.Exists) (rule : Expr)
    (cases : List Case) :
    Stepwise (Run.switch evaluate execute rule cases) machine Flow.Exists := by
  refine (labelledCases evaluated executed rule _).bind fun flow middle _ there => ?_
  cases flow with
  | leave | next => exact pure trivial
  | result value => exact pure there
  | normal =>
      dsimp only
      split
      next => exact pure trivial
      next body _ =>
        refine (nested (sequence executed body)).bind fun flow last _ there => ?_
        cases flow with
        | normal | leave | next => exact pure trivial
        | result value => exact pure there

theorem templateText (evaluated : ∀ e machine, Stepwise (evaluate e) machine Value.Exists)
    (parts : List TemplatePart) (text : String) :
    Stepwise (Run.templateText evaluate parts text) machine anything := by
  induction parts generalizing text machine with
  | nil => exact pure trivial
  | cons part rest inductionHypothesis =>
      cases part with
      | text value => exact inductionHypothesis _
      | shown value =>
          refine (evaluated value machine).bind fun result middle _ _ => ?_
          exact (display result).bind fun _ _ _ _ => inductionHypothesis _

/-- The scope of a closure is there, and so are the arguments. -/
theorem call (executed : ∀ s machine, Stepwise (execute s) machine Flow.Exists) (callee : Value)
    {arguments : List Value} (there : Value.AllExist machine.heap arguments) (site : Site) :
    Stepwise (Run.call execute callee arguments site) machine Value.Exists := by
  intro sound
  cases callee with
  | function id =>
      cases found : machine.heap.functions[id]? with
      | none =>
          rw [Follows.call_none found]
          exact .refl
      | some function =>
          rw [Follows.call_some found]
          split
          next =>
            cases function with
            | clock => exact readClock site sound
            | closure name parameters body scope =>
                have captured := sound.heap.closures id _ found scope rfl
                have body := inNewScope (callScope_parent scope parameters arguments) captured
                  (callScope_holds scope parameters there) (sequence executed body)
                exact body.bind (fun flow last _ there => pure there.returned) sound
          next => exact .refl
  | _ => exact .refl

end Parts

end Stepwise

/-! ## Expressions and statements -/

section Fuel

variable {fuel : Nat} {machine : Machine}

/-- Expressions and statements go by steps. -/
structure FuelStepwise (fuel : Nat) : Prop where
  expression : ∀ (e : Expr) (machine : Machine), Stepwise (evaluate fuel e) machine Value.Exists
  statement : ∀ (s : Stmt) (machine : Machine), Stepwise (execute fuel s) machine Flow.Exists

namespace FuelStepwise

theorem evaluate_succ (parts : FuelStepwise fuel) (e : Expr) (machine : Machine) :
    Stepwise (evaluate (fuel + 1) e) machine Value.Exists := by
  have expression := parts.expression
  cases e with
  | constant value => cases value <;> exact .pure trivial
  | grouping inner => exact expression inner machine
  | unary op operand site =>
      refine (expression operand machine).bind fun value middle _ _ => ?_
      exact .ofExcept site fun _ done => Operator.unary_exists done
  | binary left op right site =>
      refine (expression left machine).bind fun leftValue middle _ leftThere => ?_
      refine (expression right middle).bind fun rightValue last later rightThere => ?_
      exact .yielding site (Operator.binary_guarded op leftValue rightValue) fun sound =>
        Operator.binary_sound sound op (later.keeps.value leftThere) rightThere
  | logical left op right =>
      refine (expression left machine).bind fun value middle _ there => ?_
      have either : ∀ decided : Bool,
          Stepwise (if decided then pure value else evaluate fuel right) middle Value.Exists := by
        intro decided
        split
        · exact .pure there
        · exact expression right middle
      exact either _
  | assign name value =>
      refine (expression value machine).bind fun result middle _ there => ?_
      exact (Stepwise.assign name there).bind fun _ last later _ => .pure (later.keeps.value there)
  | «variable» name => exact .lookup name
  | call callee arguments site =>
      refine (expression callee machine).bind fun called middle _ _ => ?_
      refine (Stepwise.each expression arguments).bind fun values last _ there => ?_
      exact .call parts.statement called there site
  | lambda parameters body => exact .newClosure none parameters body
  | array elements =>
      exact (Stepwise.each expression elements).bind fun _ _ _ there => .newCollection there true
  | tuple elements =>
      exact (Stepwise.each expression elements).bind fun _ _ _ there => .newCollection there false
  | index target position site =>
      refine (expression target machine).bind fun _ middle _ _ => ?_
      refine (expression position middle).bind fun _ last _ _ => ?_
      exact .reading site fun _ sound done => Operator.subscript_exists sound done
  | indexAssign target position value site =>
      refine (expression target machine).bind fun into middle _ _ => ?_
      refine (expression position middle).bind fun place later _ _ => ?_
      refine (expression value later).bind fun assigned last _ there => ?_
      exact .yielding site (Operator.setEntry_guarded into place assigned) fun sound =>
        Operator.setEntry_sound sound into place there
  | template list =>
      exact (Stepwise.templateText expression list "").bind fun _ _ _ _ => .pure trivial

theorem execute_succ (parts : FuelStepwise fuel) (s : Stmt) (machine : Machine) :
    Stepwise (execute (fuel + 1) s) machine Flow.Exists := by
  have expression := parts.expression
  have statement := parts.statement
  -- the value of a new binding has just been evaluated
  have declared : ∀ (name : Name) {binding : Binding} {middle : Machine},
      (∀ value, binding.value = some value → value.Exists middle.heap) →
      Stepwise (Run.declare name binding >>= fun _ => pure Flow.normal) middle Flow.Exists :=
    fun name _ _ there => (Stepwise.declare name there).bind fun _ _ _ _ => .pure trivial
  cases s with
  | expression value => exact (expression value machine).bind fun _ _ _ _ => .pure trivial
  | print value =>
      refine (expression value machine).bind fun result middle _ _ => ?_
      exact (Stepwise.print result).bind fun _ _ _ _ => .pure trivial
  | var name initial =>
      cases initial with
      | none => exact declared name fun _ isValue => by cases isValue
      | some initial =>
          refine (expression initial machine).bind fun result middle _ there => ?_
          exact declared name fun _ isValue => by cases isValue; exact there
  | const name initial =>
      refine (expression initial machine).bind fun result middle _ there => ?_
      exact declared name fun _ isValue => by cases isValue; exact there
  | function name parameters body =>
      refine (Stepwise.newClosure (some name) parameters body).bind fun result middle _ there => ?_
      exact declared name fun _ isValue => by cases isValue; exact there
  | block body => exact .nested (.sequence statement body)
  | branch condition consequent alternative =>
      refine (expression condition machine).bind fun value middle _ _ => ?_
      split
      · exact statement consequent middle
      · cases alternative with
        | none => exact .pure trivial
        | some alternative => exact statement alternative middle
  | loop condition body => exact .loop (expression condition) (statement body) fuel
  | leave | next => exact .pure trivial
  | result value =>
      cases value with
      | none => exact .pure trivial
      | some value => exact (expression value machine).bind fun _ _ _ there => .pure there
  | switch rule cases => exact .switch expression statement rule cases

end FuelStepwise

theorem fuelStepwise (fuel : Nat) : FuelStepwise fuel := by
  induction fuel with
  | zero => exact ⟨fun _ _ => .exhausted, fun _ _ => .exhausted⟩
  | succ fuel parts => exact ⟨parts.evaluate_succ, parts.execute_succ⟩

/-! ## Programs -/

theorem topLevel_stepwise (fuel : Nat) (s : Stmt) :
    Stepwise (topLevel fuel s) machine fun heap value? => Value.AllExist heap value?.toList := by
  have parts := fuelStepwise fuel
  cases s with
  | expression value =>
      refine (parts.expression value machine).bind fun result middle _ there => ?_
      exact .pure (List.forall_mem_singleton.mpr there)
  | _ => exact (parts.statement _ machine).bind fun _ _ _ _ => .pure (List.forall_mem_nil _)

theorem interpretAll_stepwise (fuel : Nat) (program : List Stmt) {values : List Value}
    (there : Value.AllExist machine.heap values) :
    Stepwise (interpretAll fuel program values) machine Value.AllExist := by
  induction program generalizing values machine with
  | nil => exact .pure fun value inside => there value (List.mem_reverse.mp inside)
  | cons first rest inductionHypothesis =>
      rw [interpretAll_cons]
      refine (topLevel_stepwise fuel first).bind fun value middle later new => ?_
      refine inductionHypothesis fun other inside => ?_
      rcases List.mem_append.mp inside with isNew | isOld
      · exact new other isNew
      · exact later.keeps.value (there other isOld)

/-- A program begins in the global scope. -/
theorem interpret_stepwise (fuel : Nat) (program : List Stmt) (machine : Machine) :
    Stepwise (interpret fuel program) machine Value.AllExist := by
  intro sound
  have enter : machine.Step { machine with current := machine.globals } := .leave sound.globals
  have all := interpretAll_stepwise fuel program (List.forall_mem_nil _) (enter.sound sound)
  exact all.after (.single enter)

end Fuel

/-! ## Points -/

namespace Point

/-- A block is entered in the current scope. -/
theorem inside_reaches {before machine : Machine} (reaches : before.Reaches machine)
    (sound : before.Sound) : before.Reaches machine.inside :=
  reaches.tail (.enter rfl (reaches.sound sound).current (Scope.holds_empty _))

/-- From a point to one of its parts. -/
theorem Leads.reaches {first second : Point} (leads : first.Leads second)
    (sound : first.machine.Sound) : first.machine.Reaches second.machine := by
  have expression : ∀ {fuel : Nat} {e : Expr} {machine after : Machine} {value : Value},
      machine.Sound → evaluate fuel e machine = .done value after →
        machine.Reaches after ∧ value.Exists after.heap :=
    fun sound ran => ((fuelStepwise _).expression _ _).done sound ran
  have statement : ∀ {fuel : Nat} {s : Stmt} {machine after : Machine} {flow : Flow},
      machine.Sound → execute fuel s machine = .done flow after →
        machine.Reaches after ∧ flow.Exists after.heap :=
    fun sound ran => ((fuelStepwise _).statement _ _).done sound ran
  have cases : ∀ {fuel : Nat} {rule : Expr} {list : List (Expr × List Stmt)}
      {machine after : Machine} {flow : Flow}, machine.Sound →
        Run.labelledCases (evaluate fuel) (execute fuel) rule list machine = .done flow after →
          machine.Reaches after ∧ flow.Exists after.heap := by
    intro fuel rule list machine after flow sound ran
    have parts := fuelStepwise fuel
    exact (Stepwise.labelledCases parts.expression parts.statement rule list).done sound ran
  cases leads with
  -- parts that are run first, on the machine as it is
  | operands | firstOperand | evaluated | labelled | firstStatement | compared | firstTopLevel =>
      exact .refl
  -- parts behind others that have ended
  | right first undecided => exact (expression sound first).1
  | laterOperand first => exact (expression sound first).1
  | consequent test holds | alternative test fails | loopBody test holds =>
      exact (expression sound test).1
  | laterStatement ran => exact (statement sound ran).1
  | laterTopLevel ran => exact (statement sound ran).1
  | laterCase ran => exact (cases sound ran).1
  | loopAgain test holds ran goesOn =>
      have tested := (expression sound test).1
      exact tested.trans (statement (tested.sound sound) ran).1
  -- parts in a new scope
  | block => exact inside_reaches .refl sound
  | fallback ran found => exact inside_reaches (cases sound ran).1 sound
  | chosen first second same =>
      have compared := (expression sound first).1
      exact inside_reaches (compared.trans (expression (compared.sound sound) second).1) sound
  | @called callee list site id arguments name parameters body scope fuel before middle last
      first others found arity =>
      have toMiddle := (expression sound first).1
      have toLast := (Stepwise.each (fuelStepwise fuel).expression list).done
        (toMiddle.sound sound) others
      have whole : before.Reaches last := toMiddle.trans toLast.1
      have captured := (whole.sound sound).heap.closures id _ found scope rfl
      exact whole.tail (.enter (callScope_parent scope parameters arguments) captured
        (callScope_holds scope parameters toLast.2))

/-- From a point to all those of its run, whether or not the run ends. -/
theorem ComesTo.reaches {first last : Point} (comes : first.ComesTo last)
    (sound : first.machine.Sound) : first.machine.Reaches last.machine := by
  induction comes with
  | refl => exact .refl
  | tail earlier leads inductionHypothesis =>
      exact inductionHypothesis.trans (leads.reaches (inductionHypothesis.sound sound))

end Point

end Scriptlet
