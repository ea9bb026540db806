import Scriptlet.Proofs.Run.Course
import Scriptlet.Proofs.Run.Sequence

/-!
Contract: which jumps a statement may end with.

A jump is taken by what is around it: a loop takes `break` and `continue`, a `switch` takes
`break`, and a call takes every jump.

Owns: `Stmt.Exposes`, by which a statement has a jump in it that nothing in the statement
takes; one lemma for each rule of the evaluator, of the jumps that its parts leave to it;
and the main statement `jumps_are_exposed`.

Does not own: how a loop goes on after a jump that it takes (`Run.loop`).

## Why only statements are looked at

A statement may also stand in an expression, inside a function that has no name. What it
ends with is then the matter of the calls of that function, wherever they are.
-/

set_option autoImplicit false

namespace Scriptlet

/-! ## Jumps -/

inductive Jump where
  | leave
  | next
  | result
deriving DecidableEq, Repr

/-- The jump that a statement ended with. -/
def Flow.jump? : Flow → Option Jump
  | .normal => none
  | .leave => some .leave
  | .next => some .next
  | .result _ => some .result

def Case.body : Case → List Stmt
  | .labelled _ body | .fallback body => body

/-- In the statement there is such a jump that no loop, `switch` or function in it takes. -/
inductive Stmt.Exposes : Jump → Stmt → Prop where
  | leave : Exposes .leave .leave
  | next : Exposes .next .next
  | result (value : Option Expr) : Exposes .result (.result value)
  | block {jump : Jump} {body : List Stmt} {s : Stmt} (member : s ∈ body)
      (inner : Exposes jump s) : Exposes jump (.block body)
  | consequent {jump : Jump} {condition : Expr} {consequent : Stmt} {alternative : Option Stmt}
      (inner : Exposes jump consequent) :
      Exposes jump (.branch condition consequent alternative)
  | alternative {jump : Jump} {condition : Expr} {consequent alternative : Stmt}
      (inner : Exposes jump alternative) :
      Exposes jump (.branch condition consequent (some alternative))
  | loop {condition : Expr} {body : Stmt} (inner : Exposes .result body) :
      Exposes .result (.loop condition body)
  | switch {jump : Jump} {rule : Expr} {cases : List Case} {case : Case} {s : Stmt}
      (passes : jump ≠ .leave) (isCase : case ∈ cases) (member : s ∈ case.body)
      (inner : Exposes jump s) : Exposes jump (.switch rule cases)

/-! ## Rules -/

namespace Run

/-- A run that ends with a jump ends with one of these. -/
def JumpsOnly (run : Run Flow) (jumps : Jump → Prop) : Prop :=
  ∀ (machine after : Machine) (flow : Flow) (jump : Jump),
    run machine = .done flow after → flow.jump? = some jump → jumps jump

namespace JumpsOnly

variable {jumps more : Jump → Prop} {evaluate : Expr → Run Value} {execute : Stmt → Run Flow}

theorem mono {run : Run Flow} (only : JumpsOnly run jumps)
    (allowed : ∀ jump, jumps jump → more jump) : JumpsOnly run more :=
  fun machine after flow jump ran isJump =>
    allowed jump (only machine after flow jump ran isJump)

theorem pure {flow : Flow} (allowed : ∀ jump, flow.jump? = some jump → jumps jump) :
    JumpsOnly (pure flow) jumps := by
  intro machine after ended jump ran isJump
  cases ran
  exact allowed jump isJump

theorem normal : JumpsOnly (Pure.pure .normal) jumps :=
  pure fun _ isJump => nomatch isJump

theorem bind {α : Type} {first : Run α} {next : α → Run Flow}
    (later : ∀ value, JumpsOnly (next value) jumps) : JumpsOnly (first >>= next) jumps := by
  intro machine after flow jump ran isJump
  obtain ⟨value, middle, -, ran⟩ := done_of_bind ran
  exact later value middle after flow jump ran isJump

theorem ite {condition : Prop} [Decidable condition] {first second : Run Flow}
    (one : JumpsOnly first jumps) (other : JumpsOnly second jumps) :
    JumpsOnly (if condition then first else second) jumps := by
  split
  · exact one
  · exact other

/-- The jump of a first part is at hand for what follows. -/
theorem bindFlow {first : Run Flow} {next : Flow → Run Flow} (earlier : JumpsOnly first more)
    (later : ∀ flow, (∀ jump, flow.jump? = some jump → more jump) → JumpsOnly (next flow) jumps) :
    JumpsOnly (first >>= next) jumps := by
  intro machine after flow jump ran isJump
  obtain ⟨middleFlow, middle, ranFirst, ran⟩ := done_of_bind ran
  have allowed := fun jump => earlier machine middle middleFlow jump ranFirst
  exact later middleFlow allowed middle after flow jump ran isJump

theorem nested {body : Run Flow} (inner : JumpsOnly body jumps) :
    JumpsOnly (nested body) jumps := by
  intro machine after flow jump ran isJump
  have ran : (body machine.inside).inScope machine.current = .done flow after := ran
  cases outcome : body machine.inside with
  | done value middle =>
      rw [outcome] at ran
      cases ran
      exact inner _ _ _ jump outcome isJump
  | aborted cause middle =>
      rw [outcome] at ran
      cases ran
  | exhausted =>
      rw [outcome] at ran
      cases ran

theorem sequence {list : List Stmt} (each : ∀ s ∈ list, JumpsOnly (execute s) jumps) :
    JumpsOnly (sequence execute list) jumps := by
  induction list with
  | nil => exact normal
  | cons first rest inductionHypothesis =>
      obtain ⟨here, later⟩ := List.forall_mem_cons.mp each
      refine here.bindFlow fun flow allowed => ?_
      cases flow with
      | normal => exact inductionHypothesis later
      | leave | next | result _ => exact pure allowed

/-- A loop takes all jumps but returns. -/
theorem loop {condition : Run Value} {body : Run Flow} (inner : JumpsOnly body jumps)
    (fuel : Nat) :
    JumpsOnly (loop condition body fuel) fun jump => jump = .result ∧ jumps .result := by
  induction fuel with
  | zero => exact fun _ _ _ _ ran => nomatch ran
  | succ fuel inductionHypothesis =>
      refine bind fun value => ite (inner.bindFlow fun flow allowed => ?_) normal
      cases flow with
      | normal | next => exact inductionHypothesis
      | leave => exact normal
      | result value =>
          refine pure fun jump isJump => ?_
          cases isJump
          exact ⟨rfl, allowed .result rfl⟩

theorem labelledCases {rule : Expr} {list : List (Expr × List Stmt)}
    (each : ∀ case ∈ list, ∀ s ∈ case.2, JumpsOnly (execute s) jumps) :
    JumpsOnly (labelledCases evaluate execute rule list) jumps := by
  induction list with
  | nil => exact normal
  | cons first rest inductionHypothesis =>
      obtain ⟨label, body⟩ := first
      obtain ⟨here, later⟩ := List.forall_mem_cons.mp each
      have others := inductionHypothesis later
      refine bind fun wanted => bind fun found => ite ?_ others
      refine (sequence here).nested.bindFlow fun flow allowed => ?_
      cases flow with
      | normal => exact others
      | leave | next | result _ => exact pure allowed

/-- A `switch` takes `break`. -/
theorem switch {rule : Expr} {cases : List Case}
    (each : ∀ case ∈ cases, ∀ s ∈ case.body, JumpsOnly (execute s) jumps) :
    JumpsOnly (switch evaluate execute rule cases) fun jump => jump ≠ .leave ∧ jumps jump := by
  have passing : ∀ {flow : Flow}, flow ≠ .leave → (∀ jump, flow.jump? = some jump → jumps jump) →
      JumpsOnly (Pure.pure flow) fun jump => jump ≠ .leave ∧ jumps jump := by
    intro flow notLeave allowed
    refine pure fun jump isJump => ⟨?_, allowed jump isJump⟩
    rintro rfl
    cases flow <;> first | exact notLeave rfl | cases isJump
  have labelled : ∀ case ∈ cases.filterMap Case.labelled?, ∀ s ∈ case.2,
      JumpsOnly (execute s) jumps := by
    intro case isCase
    obtain ⟨whole, isWhole, isLabelled⟩ := List.mem_filterMap.mp isCase
    cases whole with
    | labelled label body =>
        cases isLabelled
        exact each _ isWhole
    | fallback body => cases isLabelled
  refine (labelledCases labelled).bindFlow fun flow allowed => ?_
  cases flow with
  | leave => exact normal
  | next | result _ => exact passing nofun allowed
  | normal =>
      cases fallback : cases.findSome? Case.fallback? with
      | none => exact normal
      | some body =>
          obtain ⟨whole, isWhole, isFallback⟩ := List.exists_of_findSome?_eq_some fallback
          cases whole with
          | labelled label other => cases isFallback
          | fallback other =>
              cases isFallback
              refine (sequence (each _ isWhole)).nested.bindFlow fun flow allowed => ?_
              cases flow with
              | leave => exact normal
              | normal | next | result _ => exact passing nofun allowed

end JumpsOnly

end Run

/-! ## Statements -/

open Run

/-- What a statement exposes is all that it may end with. -/
theorem execute_jumpsOnly (fuel : Nat) (s : Stmt) :
    JumpsOnly (execute fuel s) fun jump => s.Exposes jump := by
  induction fuel generalizing s with
  | zero => exact fun _ _ _ _ ran => nomatch ran
  | succ fuel inductionHypothesis =>
      cases s with
      | expression value | print value | const name value | function name parameters body =>
          rw [execute]
          exact .bind fun _ => by first | exact .normal | exact .bind fun _ => .normal
      | var name initial =>
          cases initial <;> rw [execute]
          · exact .bind fun _ => .normal
          · exact .bind fun _ => .bind fun _ => .normal
      | block body =>
          rw [execute]
          refine .nested (.sequence fun s member => ?_)
          exact (inductionHypothesis s).mono fun _ inner => .block member inner
      | branch condition consequent alternative =>
          have chosen : JumpsOnly (execute fuel consequent) fun jump =>
              Stmt.Exposes jump (.branch condition consequent alternative) :=
            (inductionHypothesis consequent).mono fun _ inner => .consequent inner
          cases alternative <;> rw [execute]
          · exact .bind fun _ => .ite chosen .normal
          · refine .bind fun _ => .ite chosen ?_
            exact (inductionHypothesis _).mono fun _ inner => .alternative inner
      | loop condition body =>
          rw [execute]
          refine (JumpsOnly.loop (inductionHypothesis body) fuel).mono fun jump only => ?_
          obtain ⟨rfl, inner⟩ := only
          exact .loop inner
      | leave =>
          rw [execute]
          refine .pure fun jump isJump => ?_
          cases isJump
          exact .leave
      | next =>
          rw [execute]
          refine .pure fun jump isJump => ?_
          cases isJump
          exact .next
      | result value =>
          have returned : ∀ value' : Value, JumpsOnly (pure (.result value'))
              fun jump => Stmt.Exposes jump (.result value) := fun value' => by
            refine .pure fun jump isJump => ?_
            cases isJump
            exact .result value
          cases value <;> rw [execute]
          · exact returned .nil
          · exact .bind fun _ => returned _
      | switch rule cases =>
          rw [execute]
          have inner : ∀ case ∈ cases, ∀ s ∈ case.body, JumpsOnly (execute fuel s) fun jump =>
              ∃ case ∈ cases, ∃ s ∈ case.body, s.Exposes jump := fun case isCase s member =>
            (inductionHypothesis s).mono fun _ inner => ⟨case, isCase, s, member, inner⟩
          refine (JumpsOnly.switch inner).mono fun jump only => ?_
          obtain ⟨passes, case, isCase, s, member, inner⟩ := only
          exact .switch passes isCase member inner

/-! ## Calls -/

/-- What a call makes of the end of its body, on the machine that it was called on: every jump
ends the call, and only what is returned is a value of its own. -/
def Outcome.returned (caller : ScopeId) : Outcome Flow → Outcome Value
  | .done (.result value) inner => .done value { inner with current := caller }
  | .done .normal inner | .done .leave inner | .done .next inner =>
      .done .nil { inner with current := caller }
  | .aborted cause inner => .aborted cause { inner with current := caller }
  | .exhausted => .exhausted

theorem call_returned {execute : Stmt → Run Flow} {id : FunctionId} {name : Option Name}
    {parameters : List Name} {body : List Stmt} {scope : ScopeId} {arguments : List Value}
    {machine : Machine}
    (found : machine.heap.functions[id]? = some (.closure name parameters body scope))
    (arity : arguments.length = parameters.length) (site : Site) :
    call execute (.function id) arguments site machine =
      (sequence execute body
        (machine.entering (callScope scope parameters arguments))).returned machine.current := by
  let inner := sequence execute body (machine.entering (callScope scope parameters arguments))
  have applied : call execute (.function id) arguments site machine =
      Run.bind (fun _ => inner.inScope machine.current) (fun flow => pure flow.returned)
        machine := by
    unfold call
    simp only [found]
    exact if_pos arity
  rw [applied]
  show _ = inner.returned machine.current
  unfold Run.bind
  rcases inner with ⟨_ | _ | _ | _, _⟩ | _ | _ <;> rfl

/-! ## Programs -/

/-- After a statement of a program that has ended with a jump, the statements behind it run
as a program of their own. -/
theorem interpret_after_jump {fuel : Nat} {s : Stmt} {machine after : Machine} {flow : Flow}
    {jump : Jump} (home : machine.current = machine.globals)
    (ran : execute fuel s machine = .done flow after) (isJump : flow.jump? = some jump)
    (rest : List Stmt) : interpret fuel (s :: rest) machine = interpret fuel rest after := by
  have stays : machine.StaysIn after := by
    have follows : FuelFollows id True fuel fuel := fuelFollows (Nat.le_refl fuel) fun _ => rfl
    have here := (follows.statement s).stays machine
    rwa [ran] at here
  have first : topLevel fuel s machine = .done none after := by
    have exposes := execute_jumpsOnly fuel s machine after flow jump ran isJump
    cases exposes <;> exact bind_of_done ran
  have entered : { machine with current := machine.globals } = machine :=
    congrArg (fun scope => { machine with current := scope }) home.symm
  have entered' : { after with current := after.globals } = after :=
    congrArg (fun scope => { after with current := scope })
      ((stays.2.trans home.symm).trans stays.1.symm)
  unfold interpret
  rw [entered, entered', interpretAll_cons, bind_of_done first]
  rfl

/-! ## Main result -/

/-- **A jump reaches what encloses it.** A statement ends with a jump only if it has one that
nothing in it takes; so a loop ends with no jump but a return, and a `switch` with no
`break`. A call is a value or an error, whatever its body does. In a program, a jump ends
its own statement, and those behind it run. -/
theorem jumps_are_exposed :
    (∀ (fuel : Nat) (s : Stmt) (machine after : Machine) (flow : Flow) (jump : Jump),
      execute fuel s machine = .done flow after → flow.jump? = some jump → s.Exposes jump) ∧
    (∀ (fuel : Nat) (condition : Expr) (body : Stmt) (machine after : Machine) (flow : Flow),
      execute fuel (.loop condition body) machine = .done flow after →
        flow ≠ .leave ∧ flow ≠ .next) ∧
    (∀ (fuel : Nat) (rule : Expr) (cases : List Case) (machine after : Machine) (flow : Flow),
      execute fuel (.switch rule cases) machine = .done flow after → flow ≠ .leave) ∧
    (∀ (fuel : Nat) (callee : Expr) (list : List Expr) (site : Site) (id : FunctionId)
        (name : Option Name) (parameters : List Name) (body : List Stmt) (scope : ScopeId)
        (arguments : List Value) (before middle last : Machine),
      evaluate fuel callee before = .done (.function id) middle →
      each (evaluate fuel) list middle = .done arguments last →
      last.heap.functions[id]? = some (.closure name parameters body scope) →
      arguments.length = parameters.length →
        evaluate (fuel + 1) (.call callee list site) before =
          (sequence (execute fuel) body
            (last.entering (callScope scope parameters arguments))).returned last.current) ∧
    ∀ (fuel : Nat) (before rest : List Stmt) (s : Stmt) (earlier : List Value)
        (machine middle after : Machine) (flow : Flow) (jump : Jump),
      interpret fuel before machine = .done earlier middle →
      execute fuel s middle = .done flow after → flow.jump? = some jump →
        interpret fuel (before ++ s :: rest) machine =
          (interpret fuel rest >>= fun later => pure (earlier ++ later)) after := by
  have exposed := fun fuel s => execute_jumpsOnly fuel s
  refine ⟨exposed, fun fuel condition body machine after flow ran => ⟨?_, ?_⟩, ?_, ?_, ?_⟩
  · rintro rfl
    cases exposed _ _ _ _ _ .leave ran rfl
  · rintro rfl
    cases exposed _ _ _ _ _ .next ran rfl
  · rintro fuel rule cases machine after flow ran rfl
    cases exposed _ _ _ _ _ .leave ran rfl with
    | switch passes _ _ _ => exact passes rfl
  · intro fuel callee list site id name parameters body scope arguments before middle last
      isFunction areArguments found arity
    rw [evaluate, bind_of_done isFunction, bind_of_done areArguments]
    exact call_returned found arity site
  · intro fuel before rest s earlier machine middle after flow jump ranBefore ran isJump
    have home := interpret_current ranBefore
    rw [interpret_append, bind_of_done ranBefore]
    show Run.bind (interpret fuel (s :: rest)) _ middle = Run.bind (interpret fuel rest) _ after
    unfold Run.bind
    rw [interpret_after_jump home ran isJump]

/-- A loop whose body leaves a `switch` and then returns. -/
def returningLoop : Stmt :=
  .loop (.constant (.bool true))
    (.block [.switch (.constant .nil) [.fallback [.leave]], .result none])

/-- A block with `break` in an inner block, and a statement behind that. -/
def brokenBlock : Stmt :=
  .block [.branch (.constant (.bool true)) (.block [.leave]) none, .print (.constant .nil)]

/-- The return goes through the loop, which takes a `break`, and `continue` goes through a
`switch`. A function that only breaks is worth `nil`. Behind the broken block, the program
goes on. -/
theorem breaks_and_returns_exposed :
    returningLoop.Exposes .result ∧
      (∃ flow after, execute 5 (.loop (.constant (.bool true)) .leave) .blank = .done flow after ∧
        flow ≠ .leave ∧ flow ≠ .next) ∧
      (∃ after, execute 5 (.switch (.constant .nil) [.fallback [.next]]) .blank =
        .done .next after ∧ Flow.next ≠ .leave) ∧
      (∃ after, evaluate 5 (.call (.lambda [] [.leave]) [] ⟨1, .unknown⟩) .blank =
        .done .nil after) ∧
      ∃ after, interpret 5
        [.expression (.constant .nil), brokenBlock, .expression (.constant (.bool true))] .blank =
          .done [.nil, .bool true] after := by
  obtain ⟨exposed, loops, switches, calls, programs⟩ := jumps_are_exposed
  refine ⟨exposed 5 _ .blank _ _ .result rfl rfl, ?_, ?_, ?_, ?_⟩
  · exact ⟨_, _, rfl, loops 5 (.constant (.bool true)) .leave .blank _ _ rfl⟩
  · exact ⟨_, rfl, switches 5 (.constant .nil) [.fallback [.next]] .blank _ _ rfl⟩
  · have called := calls 4 (.lambda [] [.leave]) [] ⟨1, .unknown⟩ 0 none [] [.leave] 0 []
      .blank _ _ rfl rfl rfl rfl
    exact ⟨_, called⟩
  · have went := programs 5 [.expression (.constant .nil)] [.expression (.constant (.bool true))]
      brokenBlock [.nil] .blank _ _ .leave .leave rfl rfl rfl
    exact ⟨_, went⟩

end Scriptlet
