import Scriptlet.Proofs.Run.Follows
import Scriptlet.Proofs.Tree.Formed

/-!
Contract: where faults come from.

A tree keeps the places it may fail at. This module says that a run fails at one
of these, or at a place that the code of a function keeps which the run has
called.

Owns: `Marks.Keeps`, the places that trees with given marks keep; `CallRaised` and
`Raised`, by which a fault comes from the code that is run or from that of a
function; `Traced` and its rules; and the main statement `interpret_traced`.

Does not own: which marks there are. `codes` are those of all the code that the
functions of a machine are made of.

## Why the operators know no place

Operators, collections and scopes fail without one, and a fault is given the place
of the node that asked for it. So it is enough to look at the steps that give
faults a place, and each of them is given it by a node of the tree.
-/

set_option autoImplicit false

namespace Scriptlet

/-- The places that trees with these marks keep. -/
inductive Marks.Keeps (marks : Marks) : Site → Prop where
  | name {name : Name} (marked : marks.name name) : marks.Keeps name.site
  | unary {op : UnaryOp} {site : Site} (marked : marks.site op.sign site) : marks.Keeps site
  | binary {op : BinaryOp} {site : Site} (marked : marks.site op.sign site) : marks.Keeps site
  | update {op : BinaryOp} {kind : Kind} {site : Site} (assigning : op.assigningSign? = some kind)
      (marked : marks.site kind site) : marks.Keeps site
  | call {site : Site} (marked : marks.site .rightParen site) : marks.Keeps site
  | index {site : Site} (marked : marks.site .leftBracket site) : marks.Keeps site

/-! ## Code that is kept -/

/-- The body of a function is code of the given marks. -/
def Function.Coded (codes : Marks → Prop) : Function → Prop
  | .clock => True
  | .closure _ _ body _ => ∃ marks, codes marks ∧ ∀ s ∈ body, s.Inner marks

/-- So are those of all functions of a machine. -/
def Machine.Coded (codes : Marks → Prop) (machine : Machine) : Prop :=
  ∀ (id : FunctionId) (function : Function), machine.heap.functions[id]? = some function →
    function.Coded codes

theorem Machine.Coded.addFunction {codes : Marks → Prop} {machine : Machine}
    (coded : machine.Coded codes) {function : Function} (new : function.Coded codes) :
    Machine.Coded codes { machine with heap := machine.heap.addFunction function } := by
  intro id other found
  have found : (machine.heap.functions.push function)[id]? = some other := found
  rw [Array.getElem?_push] at found
  split at found
  · cases found
    exact new
  · exact coded id other found

theorem Machine.Coded.mono {codes more : Marks → Prop} {machine : Machine}
    (coded : machine.Coded codes) (fewer : ∀ marks, codes marks → more marks) :
    machine.Coded more := by
  intro id function found
  have before := coded id function found
  cases function with
  | clock => trivial
  | closure name parameters body scope =>
      obtain ⟨marks, known, code⟩ := before
      exact ⟨marks, fewer marks known, code⟩

/-! ## Faults -/

/-- A call of a function whose code has the given marks ended with the fault, and
nothing was done after it but to go back to an earlier scope. -/
inductive CallRaised (marks : Marks) (site : Site) (cause : Fault) (machine : Machine) : Prop where
  | intro {id : FunctionId} {name : Option Name} {parameters : List Name} {body : List Stmt}
      {scope last : ScopeId} {arguments : List Value} {place : Site} {fuel : Nat}
      {before after : Machine}
      (function : before.heap.functions[id]? = some (.closure name parameters body scope))
      (code : ∀ s ∈ body, s.Inner marks)
      (ran : Run.apply (execute fuel) (.closure name parameters body scope) arguments place before =
        .aborted (.fault site cause) after)
      (left : machine = { after with current := last })

/-- Where a fault that a run leaves in a machine comes from: from the code that is
run, whose marks are given, or from that of a function. -/
inductive Raised (codes : Marks → Prop) (marks : Marks) (site : Site) (cause : Fault)
    (machine : Machine) : Prop where
  | here (kept : marks.Keeps site)
  | called {other : Marks} (known : codes other) (kept : other.Keeps site)
      (raised : CallRaised other site cause machine)

/-- The functions of the machine that an outcome leaves are coded, and a fault is
raised by code that was run. -/
def Outcome.Traced {α : Type} (codes : Marks → Prop) (marks : Marks) : Outcome α → Prop
  | .done _ after => after.Coded codes
  | .aborted .outputFull after => after.Coded codes
  | .aborted (.fault site cause) after => after.Coded codes ∧ Raised codes marks site cause after
  | .exhausted => True

/-- So is the outcome of a run, from any machine whose functions are coded. -/
def Traced {α : Type} (codes : Marks → Prop) (marks : Marks) (run : Run α) : Prop :=
  ∀ before, before.Coded codes → (run before).Traced codes marks

theorem Raised.inScope {codes : Marks → Prop} {marks : Marks} {site : Site} {cause : Fault}
    {machine : Machine} (raised : Raised codes marks site cause machine) (scope : ScopeId) :
    Raised codes marks site cause { machine with current := scope } := by
  cases raised with
  | here kept => exact .here kept
  | called known kept raised =>
      obtain ⟨function, code, ran, left⟩ := raised
      exact .called known kept ⟨function, code, ran, by rw [left]⟩

namespace Traced

variable {α β : Type} {codes : Marks → Prop} {marks : Marks} {site : Site}

/-! ## Sequencing -/

theorem pure {value : α} : Traced codes marks (pure value) :=
  fun _ coded => coded

theorem exhausted : Traced codes marks (Run.exhausted : Run α) :=
  fun _ _ => trivial

theorem bind {run : Run α} {next : α → Run β} (first : Traced codes marks run)
    (later : ∀ value, Traced codes marks (next value)) : Traced codes marks (run >>= next) := by
  intro before coded
  have here := first before coded
  show (Run.bind run next before).Traced codes marks
  unfold Run.bind
  cases outcome : run before with
  | done value after =>
      rw [outcome] at here
      exact later value after here
  | aborted cause after =>
      rw [outcome] at here
      cases cause <;> exact here
  | exhausted => trivial

/-! ## Steps of a machine -/

theorem fault (kept : marks.Keeps site) (cause : Fault) :
    Traced codes marks (Run.fault site cause : Run α) :=
  fun _ coded => ⟨coded, .here kept⟩

theorem ofExcept (kept : marks.Keeps site) (result : Except Fault α) :
    Traced codes marks (Run.ofExcept site result) := by
  cases result with
  | ok value => exact pure
  | error cause => exact fault kept cause

theorem reading (kept : marks.Keeps site) (operation : Heap → Except Fault Value) :
    Traced codes marks (Run.reading site operation) := by
  intro before coded
  rw [Run.reading]
  cases operation before.heap with
  | error cause => exact ⟨coded, .here kept⟩
  | ok value => exact coded

theorem yielding (kept : marks.Keeps site) (operation : Operation Value) :
    Traced codes marks (Run.yielding site operation) := by
  intro before coded
  unfold Run.yielding
  cases operation before.heap.collections with
  | ok value left => exact coded
  | error cause left => exact ⟨coded, .here kept⟩

theorem lookup {name : Name} (marked : marks.name name) :
    Traced codes marks (Run.lookup name) := by
  intro before coded
  rw [Run.lookup]
  cases before.heap.lookup before.current name.symbol with
  | error cause => exact ⟨coded, .here (.name marked)⟩
  | ok value => exact coded

theorem assign {name : Name} (marked : marks.name name) (value : Value) :
    Traced codes marks (Run.assign name value) := by
  intro before coded
  rw [Run.assign_eq]
  cases before.heap.assignable before.current name.symbol with
  | error cause => exact ⟨coded, .here (.name marked)⟩
  | ok owner => exact coded

theorem declare (name : Name) (binding : Binding) : Traced codes marks (Run.declare name binding) :=
  fun _ coded => coded

theorem newCollection (values : List Value) (mutable : Bool) :
    Traced codes marks (Run.newCollection values mutable) :=
  fun _ coded => coded

theorem newClosure (known : codes marks) (name : Option Name) (parameters : List Name)
    {body : List Stmt} (code : ∀ s ∈ body, s.Inner marks) :
    Traced codes marks (Run.newClosure name parameters body) := by
  intro before coded
  have new : (Function.closure name parameters body before.current).Coded codes :=
    ⟨marks, known, code⟩
  exact coded.addFunction new

theorem readClock (kept : marks.Keeps site) : Traced codes marks (Run.readClock site) := by
  intro before coded
  unfold Run.readClock
  cases before.clock.now with
  | ok milliseconds => exact coded
  | error message => exact ⟨coded, .here kept⟩

theorem display (value : Value) : Traced codes marks (Run.display value) :=
  fun _ coded => coded

theorem print (value : Value) : Traced codes marks (Run.print value) := by
  intro before coded
  unfold Run.print
  dsimp only
  split <;> exact coded

theorem inNewScope (scope : Scope) {body : Run α} (inner : Traced codes marks body) :
    Traced codes marks (Run.inNewScope scope body) := by
  intro before coded
  let entered : Machine :=
    { before with heap := before.heap.addScope scope, current := before.heap.scopes.size }
  have here := inner entered coded
  show ((body entered).inScope before.current).Traced codes marks
  cases outcome : body entered with
  | done value after =>
      rw [outcome] at here
      exact here
  | aborted cause after =>
      rw [outcome] at here
      cases cause with
      | fault site cause => exact ⟨here.1, here.2.inScope before.current⟩
      | outputFull => exact here
  | exhausted => trivial

theorem nested {body : Run α} (inner : Traced codes marks body) :
    Traced codes marks (Run.nested body) :=
  fun before => inNewScope (.empty (some before.current)) inner before

/-! ## Rules over the meanings of parts -/

theorem each {run : α → Run β} {list : List α} (one : ∀ x ∈ list, Traced codes marks (run x)) :
    Traced codes marks (Run.each run list) := by
  induction list with
  | nil => exact pure
  | cons first rest inductionHypothesis =>
      obtain ⟨here, others⟩ := List.forall_mem_cons.mp one
      exact here.bind fun value => (inductionHypothesis others).bind fun values => pure

section Parts

variable {evaluate : Expr → Run Value} {execute : Stmt → Run Flow}

theorem sequence {list : List Stmt} (one : ∀ s ∈ list, Traced codes marks (execute s)) :
    Traced codes marks (Run.sequence execute list) := by
  induction list with
  | nil => exact pure
  | cons first rest inductionHypothesis =>
      obtain ⟨here, others⟩ := List.forall_mem_cons.mp one
      refine here.bind fun flow => ?_
      cases flow with
      | normal => exact inductionHypothesis others
      | leave | next | result => exact pure

theorem loop {condition : Run Value} {body : Run Flow} (test : Traced codes marks condition)
    (inner : Traced codes marks body) (fuel : Nat) :
    Traced codes marks (Run.loop condition body fuel) := by
  induction fuel with
  | zero => exact exhausted
  | succ fuel inductionHypothesis =>
      refine test.bind fun value => ?_
      split
      · refine inner.bind fun flow => ?_
        cases flow with
        | normal | next => exact inductionHypothesis
        | leave | result => exact pure
      · exact pure

/-- A rule that is evaluated, and bodies that are run, as often as there are
labels. -/
theorem labelledCases {rule : Expr} (tested : Traced codes marks (evaluate rule))
    {cases : List (Expr × List Stmt)}
    (all : ∀ branch ∈ cases, Traced codes marks (evaluate branch.1) ∧
      Traced codes marks (Run.sequence execute branch.2)) :
    Traced codes marks (Run.labelledCases evaluate execute rule cases) := by
  induction cases with
  | nil => exact pure
  | cons first rest inductionHypothesis =>
      obtain ⟨here, others⟩ := List.forall_mem_cons.mp all
      refine here.1.bind fun wanted => tested.bind fun found => ?_
      split
      · refine (nested here.2).bind fun flow => ?_
        cases flow with
        | normal => exact inductionHypothesis others
        | leave | next | result => exact pure
      · exact inductionHypothesis others

theorem switch {rule : Expr} (tested : Traced codes marks (evaluate rule)) {cases : List Case}
    (labelled : ∀ branch ∈ cases.filterMap Case.labelled?,
      Traced codes marks (evaluate branch.1) ∧ Traced codes marks (Run.sequence execute branch.2))
    (fallback : ∀ body, cases.findSome? Case.fallback? = some body →
      Traced codes marks (Run.sequence execute body)) :
    Traced codes marks (Run.switch evaluate execute rule cases) := by
  refine (labelledCases tested labelled).bind fun flow => ?_
  cases flow with
  | leave | next | result => exact pure
  | normal =>
      dsimp only
      split
      · exact pure
      · next body found =>
          refine (nested (fallback body found)).bind fun flow => ?_
          cases flow <;> exact pure

theorem templateText {parts : List TemplatePart}
    (shown : ∀ value, .shown value ∈ parts → Traced codes marks (evaluate value))
    (text : String) : Traced codes marks (Run.templateText evaluate parts text) := by
  induction parts generalizing text with
  | nil => exact pure
  | cons first rest inductionHypothesis =>
      have others := inductionHypothesis fun value inside =>
        shown value (List.mem_cons_of_mem _ inside)
      cases first with
      | text value => exact others (text ++ value)
      | shown value =>
          refine (shown value List.mem_cons_self).bind fun result => ?_
          exact (display result).bind fun displayed => others (text ++ displayed)

end Parts

/-- What a function raises is raised in a call of it, and what the clock raises at the place
of the call. -/
theorem apply {fuel : Nat}
    (code : ∀ {other list}, codes other → (∀ s ∈ list, Stmt.Inner other s) →
      Traced codes other (Run.sequence (execute fuel) list))
    {before : Machine} (coded : before.Coded codes) {id : FunctionId} {function : Function}
    (found : before.heap.functions[id]? = some function) (kept : marks.Keeps site)
    (arguments : List Value) :
    (Run.apply (execute fuel) function arguments site before).Traced codes marks := by
  have isCoded := coded id function found
  cases function with
  | clock => exact readClock kept before coded
  | closure name parameters body scope =>
      obtain ⟨other, known, inner⟩ := isCoded
      have ran : Traced codes other
          (Run.apply (execute fuel) (.closure name parameters body scope) arguments site) :=
        (inNewScope _ (code known inner)).bind fun flow => pure
      have here := ran before coded
      cases outcome :
          Run.apply (execute fuel) (.closure name parameters body scope) arguments site before with
      | done value after =>
          rw [outcome] at here
          exact here
      | exhausted => trivial
      | aborted cause after =>
          rw [outcome] at here
          cases cause with
          | outputFull => exact here
          | fault site cause =>
              refine ⟨here.1, ?_⟩
              -- the code of this function, or that of one it has called in turn
              cases here.2 with
              | here kept => exact .called known kept ⟨found, inner, outcome, rfl⟩
              | called known kept raised => exact .called known kept raised

theorem call {fuel : Nat}
    (code : ∀ {other list}, codes other → (∀ s ∈ list, Stmt.Inner other s) →
      Traced codes other (Run.sequence (execute fuel) list))
    (kept : marks.Keeps site) (callee : Value) (arguments : List Value) :
    Traced codes marks (Run.call (execute fuel) callee arguments site) := by
  cases callee with
  | function id =>
      intro before coded
      cases found : before.heap.functions[id]? with
      | none =>
          rw [Follows.call_none found]
          exact fault kept .notCallable before coded
      | some function =>
          rw [Follows.call_some found]
          split
          · exact apply code coded found kept arguments
          · exact fault kept _ before coded
  | _ => exact fault kept .notCallable

end Traced

/-! ## Expressions and statements -/

section Fuel

variable {codes : Marks → Prop} {marks : Marks} {fuel : Nat}

/-- Code of the given marks raises what it keeps, with so much fuel. -/
structure FuelTraced (codes : Marks → Prop) (fuel : Nat) : Prop where
  argument : ∀ {marks : Marks} {e : Expr}, codes marks → e.Passed marks →
    Traced codes marks (evaluate fuel e)
  operation : ∀ {marks : Marks} {left right : Expr} {op : BinaryOp} {site : Site}, codes marks →
    left.Formed marks → right.Formed marks → marks.Keeps site →
      Traced codes marks (evaluate fuel (.binary left op right site))
  inner : ∀ {marks : Marks} {s : Stmt}, codes marks → s.Inner marks →
    Traced codes marks (execute fuel s)

theorem FuelTraced.expression (parts : FuelTraced codes fuel) (known : codes marks) {e : Expr}
    (formed : e.Formed marks) : Traced codes marks (evaluate fuel e) :=
  parts.argument known (.value formed)

theorem FuelTraced.sequence (parts : FuelTraced codes fuel) (known : codes marks)
    {list : List Stmt} (code : ∀ s ∈ list, s.Inner marks) :
    Traced codes marks (Run.sequence (execute fuel) list) :=
  .sequence fun s inside => parts.inner known (code s inside)

theorem FuelTraced.elements (parts : FuelTraced codes fuel) (known : codes marks)
    {values : List Expr} (all : ∀ value ∈ values, value.Formed marks) :
    Traced codes marks (Run.each (evaluate fuel) values) :=
  .each fun value inside => parts.expression known (all value inside)

theorem FuelTraced.operation_succ (parts : FuelTraced codes fuel) (known : codes marks)
    {left right : Expr} {op : BinaryOp} {site : Site} (first : left.Formed marks)
    (second : right.Formed marks) (kept : marks.Keeps site) :
    Traced codes marks (evaluate (fuel + 1) (.binary left op right site)) :=
  (parts.expression known first).bind fun _ => (parts.expression known second).bind fun _ =>
    .yielding kept _

/-- What is assigned to a name. -/
theorem assign_traced {name : Name} {value : Expr} (marked : marks.name name)
    (assigned : Traced codes marks (evaluate fuel value)) :
    Traced codes marks (evaluate (fuel + 1) (.assign name value)) :=
  assigned.bind fun result => (Traced.assign marked result).bind fun _ => .pure

/-- What is assigned to an entry of a collection. -/
theorem FuelTraced.indexAssign_succ (parts : FuelTraced codes fuel) (known : codes marks)
    {target position value : Expr} {site : Site} (collection : target.Formed marks)
    (key : position.Formed marks) (assigned : Traced codes marks (evaluate fuel value))
    (opening : marks.site .leftBracket site) :
    Traced codes marks (evaluate (fuel + 1) (.indexAssign target position value site)) :=
  (parts.expression known collection).bind fun _ => (parts.expression known key).bind fun _ =>
    assigned.bind fun _ => .yielding (.index opening) _

theorem FuelTraced.evaluate_succ (parts : FuelTraced codes fuel) (known : codes marks) {e : Expr}
    (formed : e.Formed marks) : Traced codes marks (evaluate (fuel + 1) e) := by
  cases formed with
  | constant value => exact .pure
  | grouping inner => exact parts.expression known inner
  | unary operand tight marked =>
      exact (parts.expression known operand).bind fun _ => .ofExcept (.unary marked) _
  | binary first tight second tighter marked =>
      exact parts.operation_succ known first second (.binary marked)
  | @logical op left right first tight second tighter =>
      refine (parts.expression known first).bind fun value => ?_
      dsimp only
      cases op <;> dsimp only <;> split
      · exact .pure
      · exact parts.expression known second
      · exact .pure
      · exact parts.expression known second
  | assign target assigned => exact assign_traced target (parts.expression known assigned)
  | update target second assigning marked =>
      exact assign_traced target
        (parts.operation known (.variable target) second (.update assigning marked))
  | «variable» used => exact .lookup used
  | call called tight arguments marked =>
      refine (parts.expression known called).bind fun callee => ?_
      refine (Traced.each fun value inside => parts.argument known (arguments value inside)).bind
        fun values => ?_
      exact .call (fun known code => parts.sequence known code) (.call marked) callee values
  | array elements => exact (parts.elements known elements).bind fun _ => .newCollection _ _
  | tuple elements => exact (parts.elements known elements).bind fun _ => .newCollection _ _
  | index collection tight key marked =>
      exact (parts.expression known collection).bind fun _ =>
        (parts.expression known key).bind fun _ => .reading (.index marked) _
  | indexAssign collection tight key assigned marked =>
      exact parts.indexAssign_succ known collection key (parts.expression known assigned) marked
  | indexUpdate collection tight key second assigning marked opening =>
      exact parts.indexAssign_succ known collection key
        (parts.operation known (.index collection tight key opening) second
          (.update assigning marked)) opening
  | template all separate =>
      refine (Traced.templateText (fun value inside => ?_) "").bind fun _ => .pure
      cases all _ inside with
      | shown formed => exact parts.expression known formed

theorem FuelTraced.cases_traced (parts : FuelTraced codes fuel) (known : codes marks)
    {cases : List Case} (all : ∀ branch ∈ cases, branch.Formed marks) :
    ∀ branch ∈ cases.filterMap Case.labelled?, Traced codes marks (evaluate fuel branch.1) ∧
      Traced codes marks (Run.sequence (execute fuel) branch.2) := by
  intro branch inside
  obtain ⟨source, isCase, isLabelled⟩ := List.mem_filterMap.mp inside
  cases all source isCase with
  | labelled chosen statements =>
      cases isLabelled
      exact ⟨parts.expression known chosen, parts.sequence known statements⟩
  | fallback statements => cases isLabelled

theorem FuelTraced.fallback_traced (parts : FuelTraced codes fuel) (known : codes marks)
    {cases : List Case} (all : ∀ branch ∈ cases, branch.Formed marks) (body : List Stmt)
    (found : cases.findSome? Case.fallback? = some body) :
    Traced codes marks (Run.sequence (execute fuel) body) := by
  obtain ⟨source, isCase, isFallback⟩ := List.exists_of_findSome?_eq_some found
  cases all source isCase with
  | labelled chosen statements => cases isFallback
  | fallback statements =>
      cases isFallback
      exact parts.sequence known statements

theorem FuelTraced.execute_succ (parts : FuelTraced codes fuel) (known : codes marks) {s : Stmt}
    (formed : s.Formed marks) : Traced codes marks (execute (fuel + 1) s) := by
  have statement : ∀ {s : Stmt}, s.Formed marks → Traced codes marks (execute fuel s) :=
    fun formed => parts.inner known (.formed formed)
  cases formed with
  | expression formed => exact (parts.expression known formed).bind fun _ => .pure
  | print formed =>
      exact (parts.expression known formed).bind fun value =>
        (Traced.print value).bind fun _ => .pure
  | @var name initial bound value =>
      cases initial with
      | none => exact (Traced.declare name _).bind fun _ => .pure
      | some e =>
          exact (parts.expression known (value e rfl)).bind fun _ =>
            (Traced.declare name _).bind fun _ => .pure
  | const bound value =>
      exact (parts.expression known value).bind fun _ =>
        (Traced.declare _ _).bind fun _ => .pure
  | function bound parameters statements =>
      exact (Traced.newClosure known _ _ statements).bind fun _ =>
        (Traced.declare _ _).bind fun _ => .pure
  | block statements => exact .nested (parts.sequence known statements)
  | @branch condition consequent alternative test inner placed otherwise placedOther =>
      refine (parts.expression known test).bind fun value => ?_
      split
      · exact statement inner
      · cases alternative with
        | none => exact .pure
        | some other => exact statement (otherwise other rfl)
  | loop test inner placed => exact .loop (parts.expression known test) (statement inner) fuel
  | @result value formed =>
      cases value with
      | none => exact .pure
      | some e => exact (parts.expression known (formed e rfl)).bind fun _ => .pure
  | switch tested all =>
      exact .switch (parts.expression known tested) (parts.cases_traced known all)
        (parts.fallback_traced known all)

/-- **Code raises what it keeps**, or what the code of a function keeps that it has
called. -/
theorem fuelTraced (codes : Marks → Prop) (fuel : Nat) : FuelTraced codes fuel := by
  induction fuel with
  | zero => exact ⟨fun _ _ => .exhausted, fun _ _ _ _ => .exhausted, fun _ _ => .exhausted⟩
  | succ fuel parts =>
      refine ⟨fun known passed => ?_, fun known first second kept => ?_, fun known inner => ?_⟩
      · cases passed with
        | value formed => exact parts.evaluate_succ known formed
        | lambda parameters statements => exact .newClosure known none _ statements
      · exact parts.operation_succ known first second kept
      · cases inner with
        | formed formed => exact parts.execute_succ known formed
        | leave => exact .pure
        | next => exact .pure

/-! ## Programs -/

theorem topLevel_traced (known : codes marks) (fuel : Nat) {s : Stmt} (formed : s.Formed marks) :
    Traced codes marks (topLevel fuel s) := by
  have parts := fuelTraced codes fuel
  have statement := parts.inner known (.formed formed)
  cases formed with
  | expression formed => exact (parts.expression known formed).bind fun _ => .pure
  | _ => exact statement.bind fun _ => .pure

theorem interpretAll_traced (known : codes marks) (fuel : Nat) {program : List Stmt}
    (code : ∀ s ∈ program, s.Formed marks) (values : List Value) :
    Traced codes marks (interpretAll fuel program values) := by
  induction program generalizing values with
  | nil => exact .pure
  | cons first rest inductionHypothesis =>
      obtain ⟨here, others⟩ := List.forall_mem_cons.mp code
      rw [interpretAll_cons]
      exact (topLevel_traced known fuel here).bind fun value => inductionHypothesis others _

/-- A program, in the global scope of a machine whose functions are coded. -/
theorem interpret_traced (known : codes marks) (fuel : Nat) {program : List Stmt}
    (code : ∀ s ∈ program, s.Formed marks) : Traced codes marks (interpret fuel program) :=
  fun before coded => interpretAll_traced known fuel code []
    { before with current := before.globals } coded

end Fuel

end Scriptlet
