import Scriptlet.Proofs.Relabel
import Scriptlet.Proofs.Store.Variables
import Scriptlet.Run.Evaluate

/-!
Contract: runs that differ only in lines and in fuel.

A line matters to a run only in the site of an abort. `Follows` says so of two
runs: the second does to a machine with other lines what the first does to the
machine itself, as far as fuel lasts; and the first leaves the machine in the
scope it found it in.

Owns: lines in machines and outcomes, `Follows`, its rules for the steps of a
machine and for the rules over parts, and its main statements
`evaluate_follows`, `execute_follows` and `interpretAll_follows`.

Does not own: programs run in two parts (`Scriptlet.Proofs.Run.Sequence`).

## Why two fuels

The first run is the one that must not run out. Its result then does not depend
on fuel. If both have the same fuel they also run out together, which is what
`exact` adds.
-/

set_option autoImplicit false

namespace Scriptlet

/-! ## Lines in machines

Only the code of functions mentions lines, and the site of an abort. -/

instance : Lined Function where
  relabel line
    | .clock => .clock
    | .closure name parameters body scope =>
        .closure (relabel line name) (relabel line parameters) (relabel line body) scope

instance : Lined Heap :=
  ⟨fun line heap => { heap with functions := heap.functions.map (relabel line) }⟩

instance : Lined Machine :=
  ⟨fun line machine => { machine with heap := relabel line machine.heap }⟩

instance : Lined Abort where
  relabel line
    | .fault site cause => .fault (relabel line site) cause
    | .outputFull => .outputFull

/-- Values mention no lines. -/
instance {α : Type} : Lined (Outcome α) where
  relabel line
    | .done value machine => .done value (relabel line machine)
    | .aborted cause machine => .aborted (relabel line cause) (relabel line machine)
    | .exhausted => .exhausted

instance : LawfulLined Function where
  relabel_id function := by
    cases function with
    | clock => rfl
    | closure name parameters body scope =>
        show Function.closure (relabel id name) (relabel id parameters) (relabel id body) scope = _
        rw [relabel_id, relabel_id, relabel_id]
  relabel_relabel f g function := by
    cases function with
    | clock => rfl
    | closure name parameters body scope =>
        show Function.closure (relabel g (relabel f name)) (relabel g (relabel f parameters))
          (relabel g (relabel f body)) scope = _
        rw [relabel_relabel, relabel_relabel, relabel_relabel]
        rfl

instance : LawfulLined Heap where
  relabel_id heap := by
    have identity : (relabel id : Function → Function) = id := funext relabel_id
    show Heap.mk heap.scopes heap.collections (heap.functions.map (relabel id)) = heap
    rw [identity, Array.map_id]
  relabel_relabel f g heap := by
    have twice : (relabel g : Function → Function) ∘ relabel f = relabel (g ∘ f) :=
      funext (relabel_relabel f g)
    show Heap.mk heap.scopes heap.collections ((heap.functions.map (relabel f)).map (relabel g)) = _
    rw [Array.map_map, twice]
    rfl

instance : LawfulLined Machine where
  relabel_id machine := congrArg
    (fun heap => { machine with heap := heap }) (relabel_id machine.heap)
  relabel_relabel f g machine := congrArg
    (fun heap => { machine with heap := heap }) (relabel_relabel f g machine.heap)

instance : LawfulLined Abort where
  relabel_id cause := by cases cause <;> rfl
  relabel_relabel f g cause := by cases cause <;> rfl

instance {α : Type} : LawfulLined (Outcome α) where
  relabel_id outcome := by
    cases outcome with
    | done value machine => exact congrArg (Outcome.done value) (relabel_id machine)
    | aborted cause machine =>
        show Outcome.aborted (relabel id cause) (relabel id machine) = _
        rw [relabel_id, relabel_id]
    | exhausted => rfl
  relabel_relabel f g outcome := by
    cases outcome with
    | done value machine => exact congrArg (Outcome.done value) (relabel_relabel f g machine)
    | aborted cause machine =>
        show Outcome.aborted (relabel g (relabel f cause)) (relabel g (relabel f machine)) = _
        rw [relabel_relabel, relabel_relabel]
        rfl
    | exhausted => rfl

section Parts

variable (line : Nat → Nat)

@[simp] theorem relabel_arity (function : Function) :
    (relabel line function).arity = function.arity := by
  cases function with
  | clock => rfl
  | closure name parameters body scope => exact length_relabel line parameters

@[simp] theorem relabel_functionText (function : Function) :
    (relabel line function).text = function.text := by
  rcases function with _ | ⟨_ | name, parameters, body, scope⟩ <;> rfl

theorem relabel_heap_function (heap : Heap) (id : FunctionId) :
    (relabel line heap).functions[id]? = relabel line heap.functions[id]? :=
  Array.getElem?_map

theorem relabel_nearestFrom? (heap : Heap) (symbol : Symbol) (fuel : Nat) (scope : ScopeId) :
    (relabel line heap).nearestFrom? symbol fuel scope = heap.nearestFrom? symbol fuel scope := by
  induction fuel generalizing scope with
  | zero => rfl
  | succ fuel inductionHypothesis => simp only [Heap.nearestFrom?, inductionHypothesis]; rfl

theorem relabel_nearest? (heap : Heap) (scope : ScopeId) (symbol : Symbol) :
    (relabel line heap).nearest? scope symbol = heap.nearest? scope symbol :=
  relabel_nearestFrom? line heap symbol heap.scopes.size scope

theorem relabel_lookup (heap : Heap) (scope : ScopeId) (symbol : Symbol) :
    (relabel line heap).lookup scope symbol = heap.lookup scope symbol := by
  rw [Heap.lookup_eq, Heap.lookup_eq, relabel_nearest?]

theorem relabel_assignable (heap : Heap) (scope : ScopeId) (symbol : Symbol) :
    (relabel line heap).assignable scope symbol = heap.assignable scope symbol := by
  rw [Heap.assignable, relabel_nearest?]
  rfl

theorem relabel_displayIn (heap : Heap) (depth : Nat) (around : List CollectionId)
    (value : Value) :
    (relabel line heap).displayIn depth around value = heap.displayIn depth around value := by
  induction depth generalizing around value with
  | zero =>
      cases value with
      | function id =>
          simp only [Heap.displayIn, relabel_heap_function]
          cases heap.functions[id]? <;> simp
      | _ => rfl
  | succ depth inductionHypothesis =>
      cases value with
      | function id =>
          simp only [Heap.displayIn, relabel_heap_function]
          cases heap.functions[id]? <;> simp
      | collection id =>
          have inner : (relabel line heap).displayIn depth (id :: around) =
              heap.displayIn depth (id :: around) :=
            funext fun value => inductionHypothesis (id :: around) value
          simp only [Heap.displayIn, inner]
          rfl
      | _ => rfl

@[simp] theorem relabel_display (heap : Heap) (value : Value) :
    (relabel line heap).display value = heap.display value :=
  relabel_displayIn line heap (heap.collections.size + 1) [] value

theorem relabel_addFunction (heap : Heap) (function : Function) :
    relabel line (heap.addFunction function) =
      (relabel line heap).addFunction (relabel line function) :=
  congrArg (Heap.mk heap.scopes heap.collections) Array.map_push

end Parts

/-! ## The relation -/

/-- A machine left in the scope, and with the globals, that it was found with. -/
def Machine.StaysIn (before after : Machine) : Prop :=
  after.current = before.current ∧ after.globals = before.globals

theorem Machine.StaysIn.trans {first second third : Machine} (earlier : first.StaysIn second)
    (later : second.StaysIn third) : first.StaysIn third :=
  ⟨later.1.trans earlier.1, later.2.trans earlier.2⟩

/-- So is the machine of an outcome, if there is one. -/
def Outcome.StaysIn {α : Type} (before : Machine) : Outcome α → Prop
  | .done _ after => before.StaysIn after
  | .aborted _ after => before.StaysIn after
  | .exhausted => True

theorem Outcome.StaysIn.after {α : Type} {before middle : Machine} {outcome : Outcome α}
    (earlier : before.StaysIn middle) (later : outcome.StaysIn middle) :
    outcome.StaysIn before := by
  cases outcome with
  | done _ last => exact earlier.trans later
  | aborted _ last => exact earlier.trans later
  | exhausted => trivial

/-- The second run follows the first on machines whose lines are changed. -/
structure Follows {α : Type} (line : Nat → Nat) (exact : Prop) (run changed : Run α) : Prop where
  carries : ∀ machine, exact ∨ run machine ≠ .exhausted →
    changed (relabel line machine) = relabel line (run machine)
  stays : ∀ machine, (run machine).StaysIn machine

namespace Follows

variable {α β : Type} {line : Nat → Nat} {exact : Prop}

/-! ## Sequencing -/

theorem pure (value : α) : Follows line exact (pure value) (pure value) :=
  ⟨fun _ _ => rfl, fun _ => ⟨rfl, rfl⟩⟩

/-- A run that has no fuel is followed by one that has none either, or else by
any run. -/
theorem exhausted {changed : Run α} (same : exact → changed = Run.exhausted) :
    Follows line exact Run.exhausted changed where
  carries machine ended := by
    rcases ended with isExact | ends
    · rw [same isExact]
      rfl
    · exact absurd rfl ends
  stays _ := trivial

theorem bind {run changed : Run α} {next changedNext : α → Run β}
    (first : Follows line exact run changed)
    (second : ∀ value, Follows line exact (next value) (changedNext value)) :
    Follows line exact (run >>= next) (changed >>= changedNext) where
  carries machine ended := by
    show Run.bind changed changedNext (relabel line machine) =
      relabel line (Run.bind run next machine)
    have ended : exact ∨ Run.bind run next machine ≠ .exhausted := ended
    have firstEnded : exact ∨ run machine ≠ .exhausted := by
      refine ended.imp_right fun ends ranOut => ends ?_
      rw [Run.bind, ranOut]
    have same := first.carries machine firstEnded
    cases outcome : run machine with
    | done value after =>
        simp only [Run.bind, outcome] at same ended ⊢
        rw [same]
        exact (second value).carries after ended
    | aborted cause after =>
        simp only [Run.bind, outcome] at same ⊢
        rw [same]
        rfl
    | exhausted =>
        simp only [Run.bind, outcome] at same ⊢
        rw [same]
        rfl
  stays machine := by
    show (Run.bind run next machine).StaysIn machine
    have here := first.stays machine
    cases outcome : run machine with
    | done value after =>
        rw [outcome] at here
        simp only [Run.bind, outcome]
        exact Outcome.StaysIn.after here ((second value).stays after)
    | aborted cause after =>
        rw [outcome] at here
        simp only [Run.bind, outcome]
        exact here
    | exhausted =>
        simp only [Run.bind, outcome]
        trivial

/-- It is enough to have, for each machine, two runs of which one follows the other
and which do the same there. -/
theorem pointwise {run changed : Run α}
    (here : ∀ machine, ∃ first second : Run α, Follows line exact first second ∧
      run machine = first machine ∧
      changed (relabel line machine) = second (relabel line machine)) :
    Follows line exact run changed where
  carries machine ended := by
    obtain ⟨first, second, follows, isFirst, isSecond⟩ := here machine
    rw [isFirst] at ended
    rw [isFirst, isSecond]
    exact follows.carries machine ended
  stays machine := by
    obtain ⟨first, second, follows, isFirst, -⟩ := here machine
    rw [isFirst]
    exact follows.stays machine

/-! ## Steps of a machine -/

theorem fault (site : Site) (cause : Fault) :
    Follows line exact (Run.fault site cause : Run α) (Run.fault (relabel line site) cause) :=
  ⟨fun _ _ => rfl, fun _ => ⟨rfl, rfl⟩⟩

theorem ofExcept (site : Site) (result : Except Fault α) :
    Follows line exact (Run.ofExcept site result) (Run.ofExcept (relabel line site) result) := by
  cases result with
  | ok value => exact pure value
  | error cause => exact fault site cause

theorem lookup (name : Name) :
    Follows line exact (Run.lookup name) (Run.lookup (relabel line name)) where
  carries machine _ := by
    have same : (relabel line machine).heap.lookup (relabel line machine).current
        (relabel line name).symbol = machine.heap.lookup machine.current name.symbol :=
      relabel_lookup line machine.heap machine.current name.symbol
    rw [Run.lookup, same, Run.lookup]
    cases machine.heap.lookup machine.current name.symbol <;> rfl
  stays machine := by
    rw [Run.lookup]
    cases machine.heap.lookup machine.current name.symbol <;> exact ⟨rfl, rfl⟩

theorem assign (name : Name) (value : Value) :
    Follows line exact (Run.assign name value) (Run.assign (relabel line name) value) where
  carries machine _ := by
    have same : (relabel line machine).heap.assignable (relabel line machine).current
        (relabel line name).symbol = machine.heap.assignable machine.current name.symbol :=
      relabel_assignable line machine.heap machine.current name.symbol
    rw [Run.assign_eq, same, Run.assign_eq]
    cases machine.heap.assignable machine.current name.symbol <;> rfl
  stays machine := by
    rw [Run.assign_eq]
    cases machine.heap.assignable machine.current name.symbol <;> exact ⟨rfl, rfl⟩

theorem declare (name : Name) (binding : Binding) :
    Follows line exact (Run.declare name binding) (Run.declare (relabel line name) binding) :=
  ⟨fun _ _ => rfl, fun _ => ⟨rfl, rfl⟩⟩

theorem newCollection (values : List Value) (mutable : Bool) :
    Follows line exact (Run.newCollection values mutable) (Run.newCollection values mutable) :=
  ⟨fun _ _ => rfl, fun _ => ⟨rfl, rfl⟩⟩

theorem newClosure (name : Option Name) (parameters : List Name) (body : List Stmt) :
    Follows line exact (Run.newClosure name parameters body)
      (Run.newClosure (relabel line name) (relabel line parameters) (relabel line body)) where
  carries machine _ := by
    have size : (relabel line machine.heap).functions.size = machine.heap.functions.size :=
      Array.size_map
    show Outcome.done (Value.function (relabel line machine.heap).functions.size) _ =
      .done (Value.function machine.heap.functions.size)
        { machine with heap := relabel line (machine.heap.addFunction _) }
    rw [size, relabel_addFunction]
    rfl
  stays _ := ⟨rfl, rfl⟩

theorem readClock (site : Site) :
    Follows line exact (Run.readClock site) (Run.readClock (relabel line site)) where
  carries machine _ := by
    have same : (relabel line machine).clock = machine.clock := rfl
    unfold Run.readClock
    rw [same]
    cases machine.clock.now <;> rfl
  stays machine := by
    unfold Run.readClock
    cases machine.clock.now <;> exact ⟨rfl, rfl⟩

theorem display (value : Value) : Follows line exact (Run.display value) (Run.display value) where
  carries machine _ := by
    show Outcome.done ((relabel line machine.heap).display value) _ = _
    rw [relabel_display]
    rfl
  stays _ := ⟨rfl, rfl⟩

theorem print (value : Value) : Follows line exact (Run.print value) (Run.print value) where
  carries machine _ := by
    have text : (relabel line machine).heap.display value = machine.heap.display value :=
      relabel_display line machine.heap value
    simp only [Run.print, text]
    show (if machine.output.fits _ then _ else _) = _
    split <;> rfl
  stays machine := by
    unfold Run.print
    simp only
    split <;> exact ⟨rfl, rfl⟩

theorem yielding (site : Site) (operation : Operation Value) :
    Follows line exact (Run.yielding site operation)
      (Run.yielding (relabel line site) operation) where
  carries machine _ := by
    have same : (relabel line machine).heap.collections = machine.heap.collections := rfl
    unfold Run.yielding
    rw [same]
    cases operation machine.heap.collections <;> rfl
  stays machine := by
    unfold Run.yielding
    cases operation machine.heap.collections <;> exact ⟨rfl, rfl⟩

/-- What an operation reads that does not look at functions. -/
theorem reading (site : Site) {operation : Heap → Except Fault Value}
    (blind : ∀ heap, operation (relabel line heap) = operation heap) :
    Follows line exact (Run.reading site operation)
      (Run.reading (relabel line site) operation) where
  carries machine _ := by
    have same : operation (relabel line machine).heap = operation machine.heap :=
      blind machine.heap
    simp only [Run.reading, same]
    cases operation machine.heap <;> rfl
  stays machine := by
    rw [Run.reading]
    cases operation machine.heap <;> exact ⟨rfl, rfl⟩

/-! ## Scopes -/

theorem inNewScope (scope : Scope) {body changed : Run α}
    (inner : Follows line exact body changed) :
    Follows line exact (Run.inNewScope scope body) (Run.inNewScope scope changed) where
  carries machine ended := by
    let entered : Machine :=
      { machine with heap := machine.heap.addScope scope, current := machine.heap.scopes.size }
    have bodyEnded : exact ∨ body entered ≠ .exhausted := by
      refine ended.imp_right fun ends ranOut => ends ?_
      show (body entered).inScope machine.current = .exhausted
      rw [ranOut]
      rfl
    show (changed (relabel line entered)).inScope machine.current =
      relabel line ((body entered).inScope machine.current)
    rw [inner.carries entered bodyEnded]
    cases body entered <;> rfl
  stays machine := by
    let entered : Machine :=
      { machine with heap := machine.heap.addScope scope, current := machine.heap.scopes.size }
    have stays := inner.stays entered
    show ((body entered).inScope machine.current).StaysIn machine
    cases outcome : body entered with
    | done _ after =>
        rw [outcome] at stays
        exact ⟨rfl, stays.2⟩
    | aborted _ after =>
        rw [outcome] at stays
        exact ⟨rfl, stays.2⟩
    | exhausted => trivial

theorem nested {body changed : Run α} (inner : Follows line exact body changed) :
    Follows line exact (Run.nested body) (Run.nested changed) where
  carries machine := (inNewScope (.empty (some machine.current)) inner).carries machine
  stays machine := (inNewScope (.empty (some machine.current)) inner).stays machine

/-! ## Rules over the meanings of parts -/

theorem each [Lined β] {run changed : β → Run α}
    (element : ∀ value, Follows line exact (run value) (changed (relabel line value)))
    (list : List β) :
    Follows line exact (Run.each run list) (Run.each changed (relabel line list)) := by
  induction list with
  | nil => exact pure []
  | cons first rest inductionHypothesis =>
      exact (element first).bind fun value => inductionHypothesis.bind fun values =>
        pure (value :: values)

section Parts

variable {evaluate changedEvaluate : Expr → Run Value} {execute changedExecute : Stmt → Run Flow}

theorem sequence
    (statement : ∀ s, Follows line exact (execute s) (changedExecute (relabel line s)))
    (list : List Stmt) :
    Follows line exact (Run.sequence execute list)
      (Run.sequence changedExecute (relabel line list)) := by
  induction list with
  | nil => exact pure Flow.normal
  | cons first rest inductionHypothesis =>
      refine (statement first).bind fun flow => ?_
      cases flow with
      | normal => exact inductionHypothesis
      | _ => exact pure _

/-- A loop with less fuel is followed by one with more. -/
theorem loop {condition changedCondition : Run Value} {body changedBody : Run Flow}
    (test : Follows line exact condition changedCondition)
    (inner : Follows line exact body changedBody) {fuel other : Nat} (less : fuel ≤ other)
    (same : exact → fuel = other) :
    Follows line exact (Run.loop condition body fuel)
      (Run.loop changedCondition changedBody other) := by
  induction fuel generalizing other with
  | zero =>
      refine exhausted fun isExact => ?_
      rw [← same isExact]
      rfl
  | succ fuel inductionHypothesis =>
      obtain ⟨other, rfl⟩ : ∃ fewer, other = fewer + 1 := ⟨other - 1, by omega⟩
      have again := inductionHypothesis (Nat.le_of_succ_le_succ less)
        fun isExact => Nat.succ.inj (same isExact)
      refine test.bind fun value => ?_
      split
      · refine inner.bind fun flow => ?_
        cases flow with
        | normal | next => exact again
        | leave | result value => exact pure _
      · exact pure _

theorem labelledCases
    (expression : ∀ e, Follows line exact (evaluate e) (changedEvaluate (relabel line e)))
    (statement : ∀ s, Follows line exact (execute s) (changedExecute (relabel line s)))
    (rule : Expr) (cases : List (Expr × List Stmt)) :
    Follows line exact (Run.labelledCases evaluate execute rule cases)
      (Run.labelledCases changedEvaluate changedExecute (relabel line rule)
        (relabel line cases)) := by
  induction cases with
  | nil => exact pure Flow.normal
  | cons first rest inductionHypothesis =>
      refine (expression first.1).bind fun wanted => (expression rule).bind fun found => ?_
      split
      · refine (nested (sequence statement first.2)).bind fun flow => ?_
        cases flow with
        | normal => exact inductionHypothesis
        | _ => exact pure _
      · exact inductionHypothesis

theorem labelled?_relabel (line : Nat → Nat) (branch : Case) :
    (relabel line branch).labelled? = relabel line branch.labelled? := by
  cases branch with
  | labelled label body => rw [relabel_labelled]; rfl
  | fallback body => rw [relabel_fallback]; rfl

theorem fallback?_relabel (line : Nat → Nat) (branch : Case) :
    (relabel line branch).fallback? = relabel line branch.fallback? := by
  cases branch with
  | labelled label body => rw [relabel_labelled]; rfl
  | fallback body => rw [relabel_fallback]; rfl

theorem filterMap_labelled? (cases : List Case) :
    (relabel line cases).filterMap Case.labelled? =
      relabel line (cases.filterMap Case.labelled?) := by
  induction cases with
  | nil => rfl
  | cons first rest inductionHypothesis =>
      have label := labelled?_relabel line first
      cases found : first.labelled? <;> simp [found, inductionHypothesis, label]

theorem findSome?_fallback? (cases : List Case) :
    (relabel line cases).findSome? Case.fallback? =
      relabel line (cases.findSome? Case.fallback?) := by
  induction cases with
  | nil => rfl
  | cons first rest inductionHypothesis =>
      have body := fallback?_relabel line first
      cases found : first.fallback? <;> simp [found, inductionHypothesis, body]

theorem switch
    (expression : ∀ e, Follows line exact (evaluate e) (changedEvaluate (relabel line e)))
    (statement : ∀ s, Follows line exact (execute s) (changedExecute (relabel line s)))
    (rule : Expr) (cases : List Case) :
    Follows line exact (Run.switch evaluate execute rule cases)
      (Run.switch changedEvaluate changedExecute (relabel line rule) (relabel line cases)) := by
  unfold Run.switch
  rw [filterMap_labelled?, findSome?_fallback?]
  refine (labelledCases expression statement rule _).bind fun flow => ?_
  cases flow with
  | leave | next | result value => exact pure _
  | normal =>
      cases cases.findSome? Case.fallback? with
      | none => exact pure _
      | some body =>
          refine (nested (sequence statement body)).bind fun flow => ?_
          cases flow <;> exact pure _

theorem templateText
    (expression : ∀ e, Follows line exact (evaluate e) (changedEvaluate (relabel line e)))
    (parts : List TemplatePart) (text : String) :
    Follows line exact (Run.templateText evaluate parts text)
      (Run.templateText changedEvaluate (relabel line parts) text) := by
  induction parts generalizing text with
  | nil => exact pure text
  | cons first rest inductionHypothesis =>
      cases first with
      | text value => exact inductionHypothesis (text ++ value)
      | shown value =>
          exact (expression value).bind fun value => (display value).bind fun shown =>
            inductionHypothesis (text ++ shown)

theorem callScope_relabel (scope : ScopeId) (parameters : List Name) (arguments : List Value) :
    Run.callScope scope (relabel line parameters) arguments =
      Run.callScope scope parameters arguments := by
  suffices any : ∀ inner : Scope,
      ((relabel line parameters).zip arguments).foldl
          (fun inner pair => inner.bind pair.1.symbol ⟨some pair.2, false⟩) inner =
        (parameters.zip arguments).foldl
          (fun inner pair => inner.bind pair.1.symbol ⟨some pair.2, false⟩) inner from any _
  induction parameters generalizing arguments with
  | nil => intro inner; rfl
  | cons first rest inductionHypothesis =>
      intro inner
      cases arguments with
      | nil => rfl
      | cons value values => exact inductionHypothesis values _

theorem apply
    (statement : ∀ s, Follows line exact (execute s) (changedExecute (relabel line s)))
    (function : Function) (arguments : List Value) (site : Site) :
    Follows line exact (Run.apply execute function arguments site)
      (Run.apply changedExecute (relabel line function) arguments (relabel line site)) := by
  cases function with
  | clock => exact readClock site
  | closure name parameters body scope =>
      show Follows line exact _
        (do
          let flow ← Run.inNewScope (Run.callScope scope (relabel line parameters) arguments)
            (Run.sequence changedExecute (relabel line body))
          Pure.pure flow.returned)
      rw [callScope_relabel]
      exact (inNewScope _ (sequence statement body)).bind fun flow => pure flow.returned

theorem call_none {id : FunctionId} {machine : Machine}
    (missing : machine.heap.functions[id]? = none) (arguments : List Value) (site : Site) :
    Run.call execute (.function id) arguments site machine =
      Run.fault site .notCallable machine := by
  unfold Run.call
  dsimp only
  rw [missing]

theorem call_some {id : FunctionId} {machine : Machine} {function : Function}
    (found : machine.heap.functions[id]? = some function) (arguments : List Value) (site : Site) :
    Run.call execute (.function id) arguments site machine =
      (if arguments.length = function.arity then Run.apply execute function arguments site
        else Run.fault site (.arity function.arity arguments.length)) machine := by
  unfold Run.call
  dsimp only
  rw [found]
  dsimp only
  split <;> rfl

/-- The function called has the same arity, and a body that is followed. -/
theorem call
    (statement : ∀ s, Follows line exact (execute s) (changedExecute (relabel line s)))
    (callee : Value) (arguments : List Value) (site : Site) :
    Follows line exact (Run.call execute callee arguments site)
      (Run.call changedExecute callee arguments (relabel line site)) := by
  cases callee with
  | function id =>
      refine pointwise fun machine => ?_
      have same : (relabel line machine).heap.functions[id]? =
          relabel line machine.heap.functions[id]? := relabel_heap_function line machine.heap id
      cases found : machine.heap.functions[id]? with
      | none =>
          rw [found] at same
          exact ⟨_, _, fault site .notCallable, call_none found arguments site,
            call_none same arguments _⟩
      | some function =>
          rw [found] at same
          refine ⟨_, _, ?_, call_some found arguments site, call_some same arguments _⟩
          rw [relabel_arity]
          split
          · exact apply statement function arguments site
          · exact fault site (.arity function.arity arguments.length)
  | _ => exact fault site .notCallable

end Parts

end Follows

/-! ## Expressions and statements -/

section Fuel

variable {line : Nat → Nat} {exact : Prop}

/-- Expressions and statements, run with less fuel, are followed by themselves
with changed lines and more fuel. -/
structure FuelFollows (line : Nat → Nat) (exact : Prop) (fuel other : Nat) : Prop where
  expression : ∀ e : Expr,
    Follows line exact (evaluate fuel e) (evaluate other (relabel line e))
  statement : ∀ s : Stmt,
    Follows line exact (execute fuel s) (execute other (relabel line s))

variable {fuel other : Nat}

theorem FuelFollows.evaluate_succ (parts : FuelFollows line exact fuel other) (e : Expr) :
    Follows line exact (evaluate (fuel + 1) e) (evaluate (other + 1) (relabel line e)) := by
  have expression := parts.expression
  cases e with
  | constant value => exact .pure value.value
  | grouping inner => exact expression inner
  | unary op operand site =>
      exact (expression operand).bind fun value => .ofExcept site (Operator.unary op value)
  | binary left op right site =>
      exact (expression left).bind fun left => (expression right).bind fun right =>
        .yielding site (Operator.binary op left right)
  | logical left op right =>
      refine (expression left).bind fun value => ?_
      cases op with
      | or =>
          show Follows line exact (if value.isTruthy then _ else _) (if value.isTruthy then _ else _)
          split
          · exact .pure value
          · exact expression right
      | and =>
          show Follows line exact (if !value.isTruthy then _ else _)
            (if !value.isTruthy then _ else _)
          split
          · exact .pure value
          · exact expression right
  | assign name value =>
      exact (expression value).bind fun value => (Follows.assign name value).bind fun _ =>
        .pure value
  | «variable» name => exact .lookup name
  | call callee arguments site =>
      rw [relabel_call]
      exact (expression callee).bind fun callee => (Follows.each expression arguments).bind
        fun arguments => .call parts.statement callee arguments site
  | lambda parameters body =>
      rw [relabel_lambda]
      exact .newClosure none parameters body
  | array elements =>
      rw [relabel_array]
      exact (Follows.each expression elements).bind fun values => .newCollection values true
  | tuple elements =>
      rw [relabel_tuple]
      exact (Follows.each expression elements).bind fun values => .newCollection values false
  | index target index site =>
      exact (expression target).bind fun target => (expression index).bind fun index =>
        .reading site fun heap => rfl
  | indexAssign target index value site =>
      exact (expression target).bind fun target => (expression index).bind fun index =>
        (expression value).bind fun value =>
          .yielding site (Operator.setEntry target index value)
  | template parts =>
      rw [relabel_template]
      exact (Follows.templateText expression parts "").bind fun text => .pure (Value.string text)

theorem FuelFollows.execute_succ (parts : FuelFollows line exact fuel other)
    (less : fuel ≤ other) (same : exact → fuel = other) (s : Stmt) :
    Follows line exact (execute (fuel + 1) s) (execute (other + 1) (relabel line s)) := by
  have expression := parts.expression
  have statement := parts.statement
  cases s with
  | expression value => exact (expression value).bind fun _ => .pure Flow.normal
  | print value =>
      exact (expression value).bind fun value => (Follows.print value).bind fun _ => .pure Flow.normal
  | var name initial =>
      cases initial with
      | none => exact (Follows.declare name _).bind fun _ => .pure Flow.normal
      | some initial =>
          exact (expression initial).bind fun value => (Follows.declare name _).bind fun _ =>
            .pure Flow.normal
  | const name initial =>
      exact (expression initial).bind fun value => (Follows.declare name _).bind fun _ =>
        .pure Flow.normal
  | function name parameters body =>
      rw [relabel_function]
      exact (Follows.newClosure (some name) parameters body).bind fun function =>
        (Follows.declare name _).bind fun _ => .pure Flow.normal
  | block body =>
      rw [relabel_block]
      exact .nested (.sequence statement body)
  | branch condition consequent alternative =>
      rw [relabel_branch]
      refine (expression condition).bind fun value => ?_
      split
      · exact statement consequent
      · cases alternative with
        | none => exact .pure Flow.normal
        | some alternative => exact statement alternative
  | loop condition body => exact .loop (expression condition) (statement body) less same
  | leave => exact .pure Flow.leave
  | next => exact .pure Flow.next
  | result value =>
      cases value with
      | none => exact .pure _
      | some value => exact (expression value).bind fun value => .pure (Flow.result value)
  | switch rule cases =>
      rw [relabel_switch]
      exact .switch expression statement rule cases

theorem fuelFollows (less : fuel ≤ other) (same : exact → fuel = other) :
    FuelFollows line exact fuel other := by
  induction fuel generalizing other with
  | zero =>
      refine ⟨fun e => .exhausted fun isExact => ?_, fun s => .exhausted fun isExact => ?_⟩ <;>
        rw [← same isExact] <;> rfl
  | succ fuel inductionHypothesis =>
      obtain ⟨other, rfl⟩ : ∃ fewer, other = fewer + 1 := ⟨other - 1, by omega⟩
      have lessBelow := Nat.le_of_succ_le_succ less
      have sameBelow := fun isExact : exact => Nat.succ.inj (same isExact)
      have parts := inductionHypothesis lessBelow sameBelow
      exact ⟨parts.evaluate_succ, parts.execute_succ lessBelow sameBelow⟩

/-! ## Top-level statements -/

/-- Runs a top-level statement, for its value if it is an expression. -/
def topLevel (fuel : Nat) : Stmt → Run (Option Value)
  | .expression value => do
      let value ← evaluate fuel value
      pure (some value)
  | statement => do
      let _ ← execute fuel statement
      pure none

theorem interpretAll_cons (fuel : Nat) (first : Stmt) (rest : List Stmt) (values : List Value) :
    interpretAll fuel (first :: rest) values =
      topLevel fuel first >>= fun value => interpretAll fuel rest (value.toList ++ values) := by
  cases first <;> simp [interpretAll, topLevel]

theorem topLevel_follows (parts : FuelFollows line exact fuel other) (s : Stmt) :
    Follows line exact (topLevel fuel s) (topLevel other (relabel line s)) := by
  cases s with
  | expression value => exact (parts.expression value).bind fun value => .pure (some value)
  | var name initial =>
      have here := parts.statement (.var name initial)
      rw [relabel_var] at here ⊢
      exact here.bind fun _ => .pure none
  | branch condition consequent alternative =>
      have here := parts.statement (.branch condition consequent alternative)
      rw [relabel_branch] at here ⊢
      exact here.bind fun _ => .pure none
  | result value =>
      have here := parts.statement (.result value)
      rw [relabel_result] at here ⊢
      exact here.bind fun _ => .pure none
  | _ => exact (parts.statement _).bind fun _ => .pure none

/-- Top-level statements, after the same values. -/
theorem interpretAll_follows (less : fuel ≤ other) (same : exact → fuel = other)
    (program : List Stmt) (values : List Value) :
    Follows line exact (interpretAll fuel program values)
      (interpretAll other (relabel line program) values) := by
  induction program generalizing values with
  | nil => exact .pure _
  | cons first rest inductionHypothesis =>
      rw [relabel_cons, interpretAll_cons, interpretAll_cons]
      exact (topLevel_follows (fuelFollows less same) first).bind fun value =>
        inductionHypothesis (value.toList ++ values)

end Fuel

end Scriptlet
