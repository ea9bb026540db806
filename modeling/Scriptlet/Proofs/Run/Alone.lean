import Scriptlet.Proofs.Run.Course
import Scriptlet.Proofs.Run.Lockstep

/-!
Contract: what single runs keep.

An invariant of machines, which may speak of the symbols that are bound and of the code
that functions keep, holds after a run if it held before, in whatever way the run ends. A
run may moreover be asked to change its machine by certain steps only.

Owns: `Lockstep.alone`, in which a machine is in step with itself; `Lockstep.Keeps`, what
an invariant and its steps have to satisfy; that runs then keep it (`alone_lawful`,
`InStep.leaves_alone`, `interpret_alone`), and that it holds at all points of a run
(`Point.ComesTo.alone`).

Does not own: any one invariant, and how trees are walked (`Scriptlet.Proofs.Run.Lockstep`).

## Why the symbols are related to themselves

The code that runs is like itself with respect to `symbols`, which says of it that each of
its names is one of those allowed, and that its declarations stand where they may.
-/

set_option autoImplicit false

namespace Scriptlet

/-- What any run leaves as it was: the current scope and the globals, and an output
without a limit. -/
structure Machine.Stays (before after : Machine) : Prop where
  inScope : before.StaysIn after
  unlimited : before.output.room = none → after.output.room = none

theorem Machine.Stays.of_eq {before after : Machine} (current : after.current = before.current)
    (globals : after.globals = before.globals) (output : after.output = before.output) :
    before.Stays after :=
  ⟨⟨current, globals⟩, fun isNone => by rw [output, isNone]⟩

theorem Machine.Stays.trans {first second third : Machine} (earlier : first.Stays second)
    (later : second.Stays third) : first.Stays third :=
  ⟨earlier.inScope.trans later.inScope, fun isNone => later.unlimited (earlier.unlimited isNone)⟩

/-- A machine in step with itself. -/
def Lockstep.alone (symbols : Symbol → Symbol → Prop) (invariant : Machine → Prop)
    (step : Noise → Machine → Machine → Prop) : Lockstep where
  symbols := symbols
  value := Eq
  machine left right := left = right ∧ invariant left
  step := step

/-- An invariant that every change of a machine keeps, each being a step that the run may
make. Only declarations are loud, and leaving a scope quiets them. -/
structure Lockstep.Keeps (symbols : Symbol → Symbol → Prop) (invariant : Machine → Prop)
    (step : Noise → Machine → Machine → Prop) : Prop where
  refl : ∀ noise machine, step noise machine machine
  trans : ∀ {noise first second third}, step noise first second → step noise second third →
    step noise first third
  louder : ∀ {first second}, step .quiet first second → step .loud first second
  equal : ∀ {symbol symbol'}, symbols symbol symbol' → symbol = symbol'
  /-- Neither scopes nor functions are touched. -/
  untouched : ∀ {before after : Machine}, invariant before →
    after.heap.scopes = before.heap.scopes → after.heap.functions = before.heap.functions →
    before.Stays after → invariant after ∧ step .quiet before after
  assign : ∀ {before : Machine} {symbol owner} (value : Value), invariant before →
    symbols symbol symbol → before.heap.assignable before.current symbol = .ok owner →
    invariant { before with heap := before.heap.bind owner symbol ⟨some value, false⟩ } ∧
      step .quiet before
        { before with heap := before.heap.bind owner symbol ⟨some value, false⟩ }
  declare : ∀ {before : Machine} {symbol} (binding : Binding), invariant before →
    symbols symbol symbol →
    invariant { before with heap := before.heap.bind before.current symbol binding } ∧
      step .loud before { before with heap := before.heap.bind before.current symbol binding }
  newClosure : ∀ {before : Machine} {parameters body} (name : Option Name), invariant before →
    List.Forall₂ (Name.Alike symbols) parameters parameters →
    List.Forall₂ (Stmt.Alike symbols) body body →
    invariant { before with
        heap := before.heap.addFunction (.closure name parameters body before.current) } ∧
      step .quiet before { before with
        heap := before.heap.addFunction (.closure name parameters body before.current) }
  closure : ∀ {before : Machine} {id : FunctionId} {name parameters body scope},
    invariant before →
    before.heap.functions[id]? = some (.closure name parameters body scope) →
    List.Forall₂ (Name.Alike symbols) parameters parameters ∧
      List.Forall₂ (Stmt.Alike symbols) body body
  entering : ∀ {before : Machine} {parameters} (scope : ScopeId) (arguments : List Value),
    invariant before → List.Forall₂ (Name.Alike symbols) parameters parameters →
    invariant (before.entering (Run.callScope scope parameters arguments))
  leaving : ∀ {before after : Machine} {scope : Scope}, invariant after →
    step .loud (before.entering scope) after →
    invariant { after with current := before.current } ∧
      step .quiet before { after with current := before.current }

variable {symbols : Symbol → Symbol → Prop} {invariant : Machine → Prop}
  {step : Noise → Machine → Machine → Prop}

/-! ## The changes of a machine -/

namespace InStep

variable {α β : Type} {relation : α → β → Prop} {noise : Noise} {run : Run α} {run' : Run β}
  {machine : Machine}

/-- What a run leaves that is in step with itself. -/
theorem leaves_alone (inStep : InStep (.alone symbols invariant step) noise relation run run')
    (holds : invariant machine) :
    (run machine).Leaves fun after => invariant after ∧ step noise machine after := by
  refine (inStep machine machine ⟨rfl, holds⟩).leaves.mono fun after left => ?_
  obtain ⟨⟨_, _, still⟩, stepped⟩ := left
  exact ⟨still, stepped⟩

/-- The machine after a run that has ended with a value. -/
theorem done_alone (inStep : InStep (.alone symbols invariant step) noise relation run run')
    (holds : invariant machine) {value : α} {after : Machine}
    (ran : run machine = .done value after) : invariant after := by
  have left := inStep.leaves_alone holds
  rw [ran] at left
  exact left.1

/-- A run that keeps the invariant, by a step that it may make, is in step with itself. -/
theorem self (keeps : ∀ before, invariant before →
      (run before).Leaves fun after => invariant after ∧ step noise before after) :
    InStep (.alone symbols invariant step) noise Eq run run := by
  rintro before _ ⟨rfl, holds⟩
  have here := keeps before holds
  generalize run before = outcome at here
  cases outcome with
  | done value after => exact .done rfl ⟨rfl, here.1⟩ here.2
  | aborted cause after => exact .aborted ⟨rfl, here.1⟩ here.2
  | exhausted => exact .exhausted

variable (keeps : Lockstep.Keeps symbols invariant step)
include keeps

/-- A run that touches no scope and no function. -/
theorem of_same (same : ∀ before, (run before).Leaves fun after =>
      after.heap.scopes = before.heap.scopes ∧ after.heap.functions = before.heap.functions ∧
        before.Stays after) : InStep (.alone symbols invariant step) .quiet Eq run run :=
  self fun before holds => (same before).mono fun _ unchanged =>
    keeps.untouched holds unchanged.1 unchanged.2.1 unchanged.2.2

theorem yielding_alone (site : Site) (operation : Operation Value) :
    InStep (.alone symbols invariant step) .quiet Eq (.yielding site operation)
      (.yielding site operation) := by
  refine of_same keeps fun before => ?_
  unfold Run.yielding
  cases operation before.heap.collections <;> exact ⟨rfl, rfl, .of_eq rfl rfl rfl⟩

theorem reading_alone (site : Site) (operation : Heap → Except Fault Value) :
    InStep (.alone symbols invariant step) .quiet Eq (.reading site operation)
      (.reading site operation) := by
  refine of_same keeps fun before => ?_
  rw [Run.reading]
  rcases operation before.heap with cause | value <;> exact ⟨rfl, rfl, .of_eq rfl rfl rfl⟩

theorem ofExcept_alone (site : Site) (result : Except Fault Value) :
    InStep (.alone symbols invariant step) .quiet Eq (.ofExcept site result)
      (.ofExcept site result) := by
  refine of_same keeps fun before => ?_
  cases result with
  | ok value => exact ⟨rfl, rfl, .of_eq rfl rfl rfl⟩
  | error cause => exact ⟨rfl, rfl, .of_eq rfl rfl rfl⟩

theorem lookup_alone (name : Name) :
    InStep (.alone symbols invariant step) .quiet Eq (.lookup name) (.lookup name) := by
  refine of_same keeps fun before => ?_
  rw [Run.lookup]
  cases before.heap.lookup before.current name.symbol <;> exact ⟨rfl, rfl, .of_eq rfl rfl rfl⟩

theorem assign_alone {name : Name} (allowed : symbols name.symbol name.symbol) (value : Value) :
    InStep (.alone symbols invariant step) .quiet Eq (.assign name value) (.assign name value) := by
  refine self fun before holds => ?_
  rw [Run.assign_eq]
  cases assignable : before.heap.assignable before.current name.symbol with
  | error cause => exact ⟨holds, keeps.refl .quiet before⟩
  | ok owner => exact keeps.assign value holds allowed assignable

theorem print_alone (value : Value) :
    InStep (.alone symbols invariant step) .quiet Eq (.print value) (.print value) := by
  refine of_same keeps fun before => ?_
  have unlimited : ∀ text, before.output.room = none → (before.output.write text).room = none := by
    intro text isNone
    rw [Output.write, isNone]
  unfold Run.print
  dsimp only
  split <;> exact ⟨rfl, rfl, ⟨rfl, rfl⟩, unlimited _⟩

/-- What is loud in a new scope is quiet outside. -/
theorem inNewScope_alone {scope : Scope}
    (enters : ∀ before, invariant before → invariant (before.entering scope))
    (inner : InStep (.alone symbols invariant step) .loud relation run run') :
    InStep (.alone symbols invariant step) .quiet relation (.inNewScope scope run)
      (.inNewScope scope run') := by
  rintro before _ ⟨rfl, holds⟩
  have here := inner _ _ ⟨rfl, enters before holds⟩
  show ((run (before.entering scope)).inScope before.current).InStep _ .quiet relation before
    ((run' (before.entering scope)).inScope before.current)
  generalize run (before.entering scope) = outcome at here
  generalize run' (before.entering scope) = outcome' at here
  cases here with
  | done related machines stepped =>
      obtain ⟨rfl, still⟩ := machines
      obtain ⟨after, quiet⟩ := keeps.leaving still stepped
      exact .done related ⟨rfl, after⟩ quiet
  | aborted machines stepped =>
      obtain ⟨rfl, still⟩ := machines
      obtain ⟨after, quiet⟩ := keeps.leaving still stepped
      exact .aborted ⟨rfl, after⟩ quiet
  | exhausted => exact .exhausted

theorem nested_alone (inner : InStep (.alone symbols invariant step) .loud relation run run') :
    InStep (.alone symbols invariant step) .quiet relation (.nested run) (.nested run') := by
  rintro before _ ⟨rfl, holds⟩
  -- an empty scope is that of a call without parameters
  exact inNewScope_alone keeps (fun _ still => keeps.entering before.current [] still .nil) inner
    before before ⟨rfl, holds⟩

omit keeps in
theorem returned_alone {flow flow' : Flow}
    (same : Flow.Alike (.alone symbols invariant step) flow flow') :
    flow.returned = flow'.returned := by
  cases same with
  | normal => rfl
  | leave => rfl
  | next => rfl
  | result same => exact same

theorem readClock_alone (site : Site) :
    InStep (.alone symbols invariant step) .quiet Eq (.readClock site) (.readClock site) := by
  refine of_same keeps fun before => ?_
  unfold Run.readClock
  cases before.clock.now <;> exact ⟨rfl, rfl, .of_eq rfl rfl rfl⟩

/-- A function that is called has its body run in a new scope. -/
theorem call_alone {execute : Stmt → Run Flow}
    (body : ∀ {list list'}, List.Forall₂ (Stmt.Alike symbols) list list' →
      InStep (.alone symbols invariant step) .loud (Flow.Alike (.alone symbols invariant step))
        (.sequence execute list) (.sequence execute list'))
    (callee : Value) (arguments : List Value) (site : Site) :
    InStep (.alone symbols invariant step) .quiet Eq (.call execute callee arguments site)
      (.call execute callee arguments site) := by
  rintro before _ ⟨rfl, holds⟩
  cases callee with
  | function id =>
      cases found : before.heap.functions[id]? with
      | none =>
          rw [Follows.call_none found]
          exact .aborted ⟨rfl, holds⟩ (keeps.refl .quiet before)
      | some function =>
          rw [Follows.call_some found]
          split
          · cases function with
            | clock => exact readClock_alone keeps site before before ⟨rfl, holds⟩
            | closure name parameters code scope =>
                obtain ⟨taken, statements⟩ := keeps.closure holds found
                have inner := inNewScope_alone keeps
                  (fun _ still => keeps.entering scope arguments still taken) (body statements)
                exact (inner.map fun _ _ => returned_alone) before before ⟨rfl, holds⟩
          · exact .aborted ⟨rfl, holds⟩ (keeps.refl .quiet before)
  | _ => exact .aborted ⟨rfl, holds⟩ (keeps.refl .quiet before)

end InStep

/-- **What every change keeps, every run keeps.** -/
theorem alone_lawful (keeps : Lockstep.Keeps symbols invariant step) :
    (Lockstep.alone symbols invariant step).Lawful where
  refl := keeps.refl
  trans := keeps.trans
  louder := keeps.louder
  constant _ := rfl
  truthy := by
    rintro value _ rfl
    rfl
  same := by
    rintro left _ right _ rfl rfl
    rfl
  unary := by
    rintro value _ op site rfl
    exact .ofExcept_alone keeps site _
  binary := by
    rintro left _ right _ op site rfl rfl
    exact .yielding_alone keeps site _
  subscript := by
    rintro target _ index _ site rfl rfl
    exact .reading_alone keeps site _
  setEntry := by
    rintro target _ index _ value _ site rfl rfl rfl
    exact .yielding_alone keeps site _
  lookup := by
    intro name name' same
    obtain rfl := same.eq keeps.equal
    exact .lookup_alone keeps name
  assign := by
    rintro name name' value _ same rfl
    obtain rfl := same.eq keeps.equal
    exact .assign_alone keeps same.symbol value
  declare := by
    intro name name' value value' constant same sameValue
    obtain rfl := same.eq keeps.equal
    have declared : ∀ binding, InStep (.alone symbols invariant step) .loud Eq
        (.declare name binding) (.declare name binding) :=
      fun binding => .self fun _ holds => keeps.declare binding holds same.symbol
    cases sameValue with
    | none => exact declared _
    | some same =>
        subst same
        exact declared _
  newCollection := by
    intro values values' mutable same
    obtain rfl := forall₂_eq same
    exact .of_same keeps fun _ => ⟨rfl, rfl, .of_eq rfl rfl rfl⟩
  newClosure := by
    intro name name' parameters parameters' body body' sameName sameParameters sameBody
    obtain rfl := names_eq keeps.equal sameParameters
    obtain rfl := forall₂_eq (sameBody.imp fun _ _ => Stmt.Alike.eq keeps.equal)
    have made : ∀ name, InStep (.alone symbols invariant step) .quiet Eq
        (.newClosure name parameters body) (.newClosure name parameters body) :=
      fun name => .self fun _ holds => keeps.newClosure name holds sameParameters sameBody
    cases sameName with
    | none => exact made none
    | some same =>
        obtain rfl := same.eq keeps.equal
        exact made _
  display := by
    rintro value _ rfl
    exact .of_same keeps fun _ => ⟨rfl, rfl, .of_eq rfl rfl rfl⟩
  print := by
    rintro value _ rfl
    exact .print_alone keeps value
  nested := .nested_alone keeps
  call := by
    rintro execute callee _ arguments arguments' site body rfl same
    obtain rfl := forall₂_eq same
    exact .call_alone keeps body callee arguments site

/-- After a program, whatever its outcome. -/
theorem interpret_alone (keeps : Lockstep.Keeps symbols invariant step) (fuel : Nat)
    {program : List Stmt} (allowed : ∀ s ∈ program, s.Alike symbols s) {machine : Machine}
    (holds : invariant { machine with current := machine.globals }) :
    (interpret fuel program machine).Leaves fun after =>
      invariant after ∧ step .loud { machine with current := machine.globals } after :=
  (interpretAll_inStep (alone_lawful keeps) fuel (List.forall₂_same.mpr allowed) .nil).leaves_alone
    holds

/-! ## All points of a run -/

/-- The phrase is like itself: its names are those allowed. -/
def Phrase.Allowed (symbols : Symbol → Symbol → Prop) : Phrase → Prop
  | .expression e => e.Alike symbols e
  | .expressions list => ∀ e ∈ list, e.Alike symbols e
  | .statement s => s.Alike symbols s
  | .statements list | .program list => ∀ s ∈ list, s.Alike symbols s
  | .cases rule list => rule.Alike symbols rule ∧
      ∀ branch ∈ list, branch.1.Alike symbols branch.1 ∧ ∀ s ∈ branch.2, s.Alike symbols s

/-- The phrase is allowed, and the machine has the invariant. -/
structure Point.Alone (symbols : Symbol → Symbol → Prop) (invariant : Machine → Prop)
    (point : Point) : Prop where
  phrase : point.phrase.Allowed symbols
  machine : invariant point.machine

section Parts

theorem shown_alike {parts : List TemplatePart}
    (all : List.Forall₂ (TemplatePart.Alike symbols) parts parts) :
    ∀ e ∈ parts.filterMap TemplatePart.shown?, e.Alike symbols e := by
  intro e inside
  obtain ⟨part, isPart, shown⟩ := List.mem_filterMap.mp inside
  have alike := List.forall₂_same.mp all part isPart
  cases part with
  | text value => cases shown
  | shown value =>
      cases shown
      cases alike with
      | shown same => exact same

theorem Expr.Alike.operands {e : Expr} (alike : e.Alike symbols e) :
    ∀ operand ∈ e.operands, operand.Alike symbols operand := by
  cases e with
  | constant | «variable» | lambda => exact List.forall_mem_nil _
  | grouping =>
      cases alike with
      | grouping inner => exact List.forall_mem_singleton.mpr inner
  | unary =>
      cases alike with
      | unary _ operand _ => exact List.forall_mem_singleton.mpr operand
  | binary =>
      cases alike with
      | binary first _ second _ =>
          exact List.forall_mem_cons.mpr ⟨first, List.forall_mem_singleton.mpr second⟩
  | logical =>
      cases alike with
      | logical first _ second => exact List.forall_mem_singleton.mpr first
  | assign =>
      cases alike with
      | assign target assigned => exact List.forall_mem_singleton.mpr assigned
  | call =>
      cases alike with
      | call called arguments _ =>
          exact List.forall_mem_cons.mpr ⟨called, List.forall₂_same.mp arguments⟩
  | array =>
      cases alike with
      | array elements => exact List.forall₂_same.mp elements
  | tuple =>
      cases alike with
      | tuple elements => exact List.forall₂_same.mp elements
  | index =>
      cases alike with
      | index collection key _ =>
          exact List.forall_mem_cons.mpr ⟨collection, List.forall_mem_singleton.mpr key⟩
  | indexAssign =>
      cases alike with
      | indexAssign collection key assigned _ =>
          exact List.forall_mem_cons.mpr
            ⟨collection, List.forall_mem_cons.mpr ⟨key, List.forall_mem_singleton.mpr assigned⟩⟩
  | template =>
      cases alike with
      | template all => exact shown_alike all

theorem Stmt.Alike.operands {s : Stmt} (alike : s.Alike symbols s) :
    ∀ operand ∈ s.operands, operand.Alike symbols operand := by
  cases alike with
  | expression same | print same | result same => exact List.forall_mem_singleton.mpr same
  | bound _ initial | const _ initial => exact List.forall_mem_singleton.mpr initial
  | onlyIf test | ifElse test | loop test => exact List.forall_mem_singleton.mpr test
  | unbound | function | block | leave | next | nothing | switch => exact List.forall_mem_nil _

theorem labelled_allowed {cases : List Case}
    (all : List.Forall₂ (Case.Alike symbols) cases cases) :
    ∀ branch ∈ cases.filterMap Case.labelled?,
      branch.1.Alike symbols branch.1 ∧ ∀ s ∈ branch.2, s.Alike symbols s := by
  intro branch inside
  obtain ⟨one, isCase, labelled⟩ := List.mem_filterMap.mp inside
  have alike := List.forall₂_same.mp all one isCase
  cases one with
  | labelled label body =>
      cases labelled
      cases alike with
      | labelled chosen statements => exact ⟨chosen, List.forall₂_same.mp statements⟩
  | fallback body => cases labelled

theorem fallback_allowed {cases : List Case}
    (all : List.Forall₂ (Case.Alike symbols) cases cases) {body : List Stmt}
    (found : cases.findSome? Case.fallback? = some body) : ∀ s ∈ body, s.Alike symbols s := by
  obtain ⟨one, isCase, isBody⟩ := List.exists_of_findSome?_eq_some found
  have alike := List.forall₂_same.mp all one isCase
  cases one with
  | labelled label other => cases isBody
  | fallback other =>
      cases isBody
      cases alike with
      | fallback statements => exact List.forall₂_same.mp statements

end Parts

namespace Point

variable (keeps : Lockstep.Keeps symbols invariant step)
include keeps

/-- From a point to one of its parts. -/
theorem Leads.alone {first second : Point} (leads : first.Leads second)
    (holds : first.Alone symbols invariant) : second.Alone symbols invariant := by
  obtain ⟨allowed, machine⟩ := holds
  have lawful := alone_lawful keeps
  have expression : ∀ {fuel : Nat} {e : Expr} {machine after : Machine} {value : Value},
      e.Alike symbols e → invariant machine → evaluate fuel e machine = .done value after →
        invariant after :=
    fun alike holds ran => ((fuelInStep lawful _).expression alike).done_alone holds ran
  have statement : ∀ {fuel : Nat} {s : Stmt} {machine after : Machine} {flow : Flow},
      s.Alike symbols s → invariant machine → execute fuel s machine = .done flow after →
        invariant after :=
    fun alike holds ran => ((fuelInStep lawful _).statement alike).done_alone holds ran
  have cases : ∀ {fuel : Nat} {rule : Expr} {list : List (Expr × List Stmt)}
      {machine after : Machine} {flow : Flow}, rule.Alike symbols rule →
      (∀ branch ∈ list, branch.1.Alike symbols branch.1 ∧ ∀ s ∈ branch.2, s.Alike symbols s) →
      invariant machine →
        Run.labelledCases (evaluate fuel) (execute fuel) rule list machine = .done flow after →
          invariant after := by
    intro fuel rule list machine after flow alike all holds ran
    have parts := fuelInStep lawful fuel
    have labelled : List.Forall₂ (InStep.LabelledAlike (.alone symbols invariant step)) list list :=
      List.forall₂_same.mpr fun branch inside =>
        ⟨(all branch inside).1, List.forall₂_same.mpr (all branch inside).2⟩
    exact (InStep.labelledCases lawful parts.expression (parts.sequence lawful) alike
      labelled).done_alone holds ran
  -- a block is entered like a call without parameters
  have inside : ∀ {machine : Machine}, invariant machine → invariant machine.inside :=
    fun {machine} holds => keeps.entering machine.current [] holds .nil
  cases leads with
  -- parts that are run first, on the machine as it is
  | operands => exact ⟨Expr.Alike.operands allowed, machine⟩
  | evaluated => exact ⟨Stmt.Alike.operands allowed, machine⟩
  | firstOperand | firstStatement | firstTopLevel =>
      exact ⟨(List.forall_mem_cons.mp allowed).1, machine⟩
  | labelled =>
      cases allowed with
      | switch tested all => exact ⟨⟨tested, labelled_allowed all⟩, machine⟩
  | compared =>
      have label := (List.forall_mem_cons.mp allowed.2).1.1
      exact ⟨List.forall_mem_cons.mpr ⟨label, List.forall_mem_singleton.mpr allowed.1⟩, machine⟩
  -- parts behind others that have ended
  | right first undecided =>
      cases allowed with
      | logical one _ another => exact ⟨another, expression one machine first⟩
  | laterOperand first =>
      obtain ⟨one, others⟩ := List.forall_mem_cons.mp allowed
      exact ⟨others, expression one machine first⟩
  | consequent test holds =>
      cases allowed with
      | onlyIf tested inner placed => exact ⟨inner, expression tested machine test⟩
      | ifElse tested inner placed otherwise placedOther =>
          exact ⟨inner, expression tested machine test⟩
  | alternative test fails =>
      cases allowed with
      | ifElse tested inner placed otherwise placedOther =>
          exact ⟨otherwise, expression tested machine test⟩
  | loopBody test holds =>
      cases allowed with
      | loop tested inner placed => exact ⟨inner, expression tested machine test⟩
  | loopAgain test holds ran goesOn =>
      have again := allowed
      cases allowed with
      | loop tested inner placed =>
          exact ⟨again, statement inner (expression tested machine test) ran⟩
  | laterStatement ran =>
      obtain ⟨one, others⟩ := List.forall_mem_cons.mp allowed
      exact ⟨others, statement one machine ran⟩
  | laterTopLevel ran =>
      obtain ⟨one, others⟩ := List.forall_mem_cons.mp allowed
      exact ⟨others, statement one machine ran⟩
  | laterCase ran =>
      obtain ⟨one, others⟩ := List.forall_mem_cons.mp allowed.2
      exact ⟨⟨allowed.1, others⟩,
        cases allowed.1 (List.forall_mem_singleton.mpr one) machine ran⟩
  -- parts in a new scope
  | block =>
      cases allowed with
      | block statements => exact ⟨List.forall₂_same.mp statements, inside machine⟩
  | fallback ran found =>
      cases allowed with
      | switch tested all =>
          exact ⟨fallback_allowed all found,
            inside (cases tested (labelled_allowed all) machine ran)⟩
  | chosen first second same =>
      obtain ⟨⟨label, body⟩, -⟩ := List.forall_mem_cons.mp allowed.2
      exact ⟨body, inside (expression allowed.1 (expression label machine first) second)⟩
  | @called callee list site id arguments name parameters body scope fuel before middle last
      first others found arity =>
      cases allowed with
      | call called given _ =>
          have each := InStep.each lawful given fun _ _ => (fuelInStep lawful fuel).expression
          have atLast := each.done_alone (expression called machine first) others
          obtain ⟨taken, statements⟩ := keeps.closure atLast found
          exact ⟨List.forall₂_same.mp statements, keeps.entering scope arguments atLast taken⟩

/-- From a point to all those of its run, whether or not the run ends. -/
theorem ComesTo.alone {first last : Point} (comes : first.ComesTo last)
    (holds : first.Alone symbols invariant) : last.Alone symbols invariant := by
  induction comes with
  | refl => exact holds
  | tail earlier leads inductionHypothesis => exact leads.alone keeps inductionHypothesis

end Point

end Scriptlet
