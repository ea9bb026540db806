import Scriptlet.Proofs.Run.Course
import Scriptlet.Proofs.Run.Restored

/-!
Contract: a run whose output is limited, against the same run without a limit.

Owns: `Machine.limited`, the same machine with an output that takes so many bytes in
all; `CutsShort`, by which a run on it either does what it does without the limit, or
ends at the print that crosses it, with its rules; and the main statement
`limited_run_cut_short`.

Does not own: which prints a run comes to (`Scriptlet.Proofs.Run.Course`).

## Why the limit counts all bytes

What room is left changes with each print, while the number of bytes that the output
takes in all stays the same. So one limit serves for a run and for all its parts.
-/

set_option autoImplicit false

namespace Scriptlet

/-! ## Outputs -/

/-- The machine with an output that takes so many bytes in all. -/
def Machine.limited (limit : Nat) (machine : Machine) : Machine :=
  { machine with
    output := ⟨machine.output.written, some (limit - machine.output.written.size)⟩ }

/-- The machine an outcome leaves takes any number of bytes and has written more than
the given ones. -/
def Outcome.Appends {α : Type} (written : ByteArray) (outcome : Outcome α) : Prop :=
  outcome.Leaves fun after =>
    after.output.room = none ∧ ∃ more, after.output.written = written ++ more

theorem Outcome.Appends.after {α : Type} {outcome : Outcome α} {written more : ByteArray}
    (appends : outcome.Appends (written ++ more)) : outcome.Appends written := by
  refine appends.mono fun after kept => ⟨kept.1, ?_⟩
  obtain ⟨others, whole⟩ := kept.2
  exact ⟨more ++ others, by rw [whole, ByteArray.append_assoc]⟩

theorem extract_all {bytes : ByteArray} {count : Nat} (fits : bytes.size ≤ count) :
    bytes.extract 0 count = bytes := by
  have larger : max count bytes.size = count := Nat.max_eq_left fits
  rw [← larger]
  exact ByteArray.extract_zero_max_size

/-- What is written when a value is printed. -/
def Machine.line (machine : Machine) (value : Value) : ByteArray :=
  (machine.heap.display value ++ "\n").toUTF8

/-- Printing the value writes the byte for which there is no room. -/
structure Machine.Crosses (limit : Nat) (machine : Machine) (value : Value) : Prop where
  fits : machine.output.written.size ≤ limit
  exceeds : limit < (machine.output.written ++ machine.line value).size

/-- How a run under the limit ends, where without it the outcome is `whole`: in the same
way, or else at a print that crosses the limit. -/
inductive Outcome.CutShort {α : Type} (limit : Nat) (prints : Value → Machine → Prop) :
    Outcome α → Outcome α → Prop where
  | done {value : α} {after : Machine} (fits : after.output.written.size ≤ limit) :
      CutShort limit prints (.done value after) (.done value (after.limited limit))
  | aborted {cause : Abort} {after : Machine} (fits : after.output.written.size ≤ limit) :
      CutShort limit prints (.aborted cause after) (.aborted cause (after.limited limit))
  | cut {whole : Outcome α} {value : Value} {here full : Machine} (printed : prints value here)
      (crosses : here.Crosses limit value)
      (longer : whole.Appends (here.output.written ++ here.line value))
      (heap : full.heap = here.heap) (globals : full.globals = here.globals)
      (output : full.output.written = (here.output.written ++ here.line value).extract 0 limit) :
      CutShort limit prints whole (.aborted .outputFull full)
  | exhausted {limited : Outcome α} : CutShort limit prints .exhausted limited

/-- The run on the machine is cut short by any limit, at one of the given prints. -/
structure CutsShort {α : Type} (run : Run α) (machine : Machine)
    (prints : Value → Machine → Prop) : Prop where
  appends : machine.output.room = none → (run machine).Appends machine.output.written
  cuts : machine.output.room = none → ∀ limit, machine.output.written.size ≤ limit →
    Outcome.CutShort limit prints (run machine) (run (machine.limited limit))

/-! ## Runs that print nothing -/

/-- The same outcome with another output. -/
def Outcome.withOutput {α : Type} (output : Output) : Outcome α → Outcome α
  | .done value machine => .done value { machine with output }
  | .aborted cause machine => .aborted cause { machine with output }
  | .exhausted => .exhausted

/-- The run neither reads nor changes the output. -/
def Quiet {α : Type} (run : Run α) : Prop :=
  ∀ machine output, run { machine with output } = (run machine).withOutput output

namespace Quiet

variable {α : Type}

theorem pure (value : α) : Quiet (pure value : Run α) :=
  fun _ _ => rfl

theorem fault (site : Site) (cause : Fault) : Quiet (Run.fault site cause : Run α) :=
  fun _ _ => rfl

theorem ofExcept (site : Site) (result : Except Fault α) : Quiet (Run.ofExcept site result) := by
  cases result with
  | ok value => exact pure value
  | error cause => exact fault site cause

theorem lookup (name : Name) : Quiet (Run.lookup name) := by
  intro machine output
  unfold Run.lookup
  dsimp only
  split <;> rfl

theorem assign (name : Name) (value : Value) : Quiet (Run.assign name value) := by
  intro machine output
  rw [Run.assign_eq, Run.assign_eq]
  dsimp only
  split <;> rfl

theorem declare (name : Name) (binding : Binding) : Quiet (Run.declare name binding) :=
  fun _ _ => rfl

theorem newCollection (values : List Value) (mutable : Bool) :
    Quiet (Run.newCollection values mutable) :=
  fun _ _ => rfl

theorem newClosure (name : Option Name) (parameters : List Name) (body : List Stmt) :
    Quiet (Run.newClosure name parameters body) :=
  fun _ _ => rfl

theorem readClock (site : Site) : Quiet (Run.readClock site) := by
  intro machine output
  unfold Run.readClock
  dsimp only
  split <;> rfl

theorem display (value : Value) : Quiet (Run.display value) :=
  fun _ _ => rfl

theorem yielding (site : Site) (operation : Operation Value) :
    Quiet (Run.yielding site operation) := by
  intro machine output
  unfold Run.yielding
  dsimp only
  split <;> rfl

theorem reading (site : Site) (operation : Heap → Except Fault Value) :
    Quiet (Run.reading site operation) := by
  intro machine output
  unfold Run.reading
  dsimp only
  split <;> rfl

/-- The output is then what it was. -/
theorem leaves {run : Run α} (quiet : Quiet run) (machine : Machine) :
    (run machine).Leaves fun after => after.output = machine.output := by
  have same : run machine = (run machine).withOutput machine.output :=
    quiet machine machine.output
  rw [same]
  cases run machine with
  | done value after => rfl
  | aborted cause after => rfl
  | exhausted => trivial

end Quiet

namespace CutsShort

variable {α β : Type} {run : Run α} {machine : Machine} {prints : Value → Machine → Prop}

/-! ## Steps of a machine -/

theorem exhausted : CutsShort (Run.exhausted : Run α) machine prints :=
  ⟨fun _ => trivial, fun _ _ _ => .exhausted⟩

/-- A run that prints nothing. -/
theorem quiet (silent : Quiet run) : CutsShort run machine prints where
  appends unlimited := by
    refine (silent.leaves machine).mono fun after same => ?_
    rw [same]
    exact ⟨unlimited, .empty, ByteArray.append_empty.symm⟩
  cuts unlimited limit fits := by
    have same := silent.leaves machine
    have limited : run (machine.limited limit) = (run machine).withOutput _ := silent machine _
    rw [limited]
    cases outcome : run machine with
    | done value after =>
        rw [outcome] at same
        have same : after.output = machine.output := same
        rw [Outcome.withOutput, ← same]
        exact .done (by rw [same]; exact fits)
    | aborted cause after =>
        rw [outcome] at same
        have same : after.output = machine.output := same
        rw [Outcome.withOutput, ← same]
        exact .aborted (by rw [same]; exact fits)
    | exhausted => exact .exhausted

/-- The print itself, on the machine on which it is reached. -/
theorem print (value : Value) (here : prints value machine) :
    CutsShort (Run.print value) machine prints where
  appends unlimited := by
    unfold Run.print Output.fits Output.write
    rw [unlimited]
    exact ⟨rfl, machine.line value, rfl⟩
  cuts unlimited limit fits := by
    have whole : Run.print value machine =
        .done () { machine with
          output := ⟨machine.output.written ++ machine.line value, none⟩ } := by
      unfold Run.print Output.fits Output.write
      rw [unlimited]
      rfl
    have total : (machine.output.written ++ machine.line value).size =
        machine.output.written.size + (machine.line value).size := ByteArray.size_append
    rw [whole]
    by_cases within : (machine.line value).size ≤ limit - machine.output.written.size
    · have same : Run.print value (machine.limited limit) =
          .done () (Machine.limited limit { machine with
            output := ⟨machine.output.written ++ machine.line value, none⟩ }) := by
        have left : limit - machine.output.written.size - (machine.line value).size =
            limit - (machine.output.written ++ machine.line value).size := by omega
        have written : (machine.limited limit).output.write (machine.heap.display value ++ "\n") =
            ⟨machine.output.written ++ machine.line value,
              some (limit - (machine.output.written ++ machine.line value).size)⟩ := by
          show Output.mk (_ ++ (machine.line value).extract 0 _)
            (some (limit - machine.output.written.size - (machine.line value).size)) = _
          rw [extract_all within, left]
          rfl
        have room : (machine.limited limit).output.fits (machine.heap.display value ++ "\n") :=
          decide_eq_true within
        exact (if_pos room).trans
          (congrArg (fun output => Outcome.done () { machine with output }) written)
      rw [same]
      exact .done (by dsimp only; omega)
    · have full : Run.print value (machine.limited limit) =
          .aborted .outputFull { machine with
            output := ⟨machine.output.written ++
              (machine.line value).extract 0 (limit - machine.output.written.size),
              some (limit - machine.output.written.size - (machine.line value).size)⟩ } := by
        have noRoom : ¬ (machine.limited limit).output.fits (machine.heap.display value ++ "\n") :=
          fun fits => within (of_decide_eq_true fits)
        exact if_neg noRoom
      rw [full]
      refine .cut here ⟨fits, by omega⟩ ⟨rfl, .empty, ByteArray.append_empty.symm⟩ rfl rfl ?_
      rw [ByteArray.extract_append, extract_all fits, Nat.zero_sub]

/-- It is enough to do the same on the machine and on the limited one. -/
theorem congr {other : Run α} (same : run machine = other machine)
    (sameLimited : ∀ limit, run (machine.limited limit) = other (machine.limited limit))
    (cutsShort : CutsShort other machine prints) : CutsShort run machine prints where
  appends unlimited := same ▸ cutsShort.appends unlimited
  cuts unlimited limit fits := by
    rw [same, sameLimited]
    exact cutsShort.cuts unlimited limit fits

/-! ## Sequencing -/

theorem mono {others : Value → Machine → Prop} (cutsShort : CutsShort run machine prints)
    (further : ∀ value here, prints value here → others value here) :
    CutsShort run machine others where
  appends := cutsShort.appends
  cuts unlimited limit fits := by
    have before := cutsShort.cuts unlimited limit fits
    generalize run machine = whole at before ⊢
    generalize run (machine.limited limit) = limited at before ⊢
    cases before with
    | done fits => exact .done fits
    | aborted fits => exact .aborted fits
    | cut printed crosses longer heap globals output =>
        exact .cut (further _ _ printed) crosses longer heap globals output
    | exhausted => exact .exhausted

theorem chain {next : α → Run β} (first : CutsShort run machine prints)
    (second : ∀ value middle, run machine = .done value middle →
      CutsShort (next value) middle prints) :
    CutsShort (run >>= next) machine prints where
  appends unlimited := by
    have here := first.appends unlimited
    show (Run.bind run next machine).Appends machine.output.written
    unfold Run.bind
    cases outcome : run machine with
    | done value middle =>
        rw [outcome] at here
        obtain ⟨room, more, written⟩ := here
        have later := (second value middle outcome).appends room
        rw [written] at later
        exact later.after
    | aborted cause after =>
        rw [outcome] at here
        exact here
    | exhausted => trivial
  cuts unlimited limit fits := by
    have here := first.cuts unlimited limit fits
    have grows := first.appends unlimited
    show Outcome.CutShort limit prints (Run.bind run next machine)
      (Run.bind run next (machine.limited limit))
    unfold Run.bind
    cases outcome : run machine with
    | done value middle =>
        rw [outcome] at here grows
        have later := second value middle outcome
        generalize run (machine.limited limit) = limited at here ⊢
        cases here with
        | done within => exact later.cuts grows.1 limit within
        -- under the limit the second run is not begun, without it it prints more
        | cut printed crosses longer heap globals output =>
            obtain ⟨room, more, written⟩ := longer
            have further := later.appends room
            rw [written] at further
            exact .cut printed crosses further.after heap globals output
    | aborted cause after =>
        rw [outcome] at here
        generalize run (machine.limited limit) = limited at here ⊢
        cases here with
        | aborted within => exact .aborted within
        | cut printed crosses longer heap globals output =>
            exact .cut printed crosses longer heap globals output
    | exhausted => exact .exhausted

/-- What the first run comes to print, the whole comes to print. -/
theorem bind {next : α → Run β} {firstPrints : Value → Machine → Prop}
    (first : CutsShort run machine firstPrints)
    (further : ∀ value here, firstPrints value here → prints value here)
    (second : ∀ value middle, run machine = .done value middle →
      CutsShort (next value) middle prints) :
    CutsShort (run >>= next) machine prints :=
  (first.mono further).chain second

theorem inNewScope (scope : Scope) {body : Run α}
    (inner : CutsShort body (machine.entering scope) prints) :
    CutsShort (Run.inNewScope scope body) machine prints where
  appends unlimited := by
    have here := inner.appends unlimited
    show ((body (machine.entering scope)).inScope machine.current).Appends _
    cases outcome : body (machine.entering scope) with
    | done value after =>
        rw [outcome] at here
        exact here
    | aborted cause after =>
        rw [outcome] at here
        exact here
    | exhausted => trivial
  cuts unlimited limit fits := by
    have here := inner.cuts unlimited limit fits
    show Outcome.CutShort limit prints
      ((body (machine.entering scope)).inScope machine.current)
      ((body ((machine.entering scope).limited limit)).inScope machine.current)
    generalize body (machine.entering scope) = whole at here ⊢
    generalize body ((machine.entering scope).limited limit) = limited at here ⊢
    cases here with
    | done within => exact .done within
    | aborted within => exact .aborted within
    | exhausted => exact .exhausted
    | cut printed crosses longer heap globals output =>
        refine .cut printed crosses ?_ heap globals output
        cases whole <;> exact longer

theorem nested {body : Run α} (inner : CutsShort body machine.inside prints) :
    CutsShort (Run.nested body) machine prints :=
  have entered := inNewScope (.empty (some machine.current)) inner
  ⟨entered.appends, entered.cuts⟩

end CutsShort

/-! ## Expressions and statements -/

section Fuel

variable {fuel : Nat}

/-- Expressions and statements are cut short at the prints they come to. -/
structure FuelCuts (fuel : Nat) : Prop where
  expression : ∀ (e : Expr) (machine : Machine),
    CutsShort (evaluate fuel e) machine (Point.Prints ⟨.expression e, machine⟩)
  statement : ∀ (s : Stmt) (machine : Machine),
    CutsShort (execute fuel s) machine (Point.Prints ⟨.statement s, machine⟩)

namespace FuelCuts

theorem expressions (parts : FuelCuts fuel) (list : List Expr) (machine : Machine) :
    CutsShort (Run.each (evaluate fuel) list) machine
      (Point.Prints ⟨.expressions list, machine⟩) := by
  induction list generalizing machine with
  | nil => exact .quiet (.pure _)
  | cons first rest inductionHypothesis =>
      refine (parts.expression first machine).bind (fun _ _ reached => .part .firstOperand reached)
        fun value middle ran => ?_
      exact (inductionHypothesis middle).bind (fun _ _ reached => .part (.laterOperand ran) reached)
        fun values last _ => .quiet (.pure _)

theorem templateText (parts : FuelCuts fuel) (list : List TemplatePart) (text : String)
    (machine : Machine) :
    CutsShort (Run.templateText (evaluate fuel) list text) machine
      (Point.Prints ⟨.expressions (list.filterMap TemplatePart.shown?), machine⟩) := by
  induction list generalizing text machine with
  | nil => exact .quiet (.pure _)
  | cons first rest inductionHypothesis =>
      cases first with
      | text value => exact inductionHypothesis (text ++ value) machine
      | shown value =>
          refine (parts.expression value machine).bind
            (fun _ _ reached => .part .firstOperand reached) fun result middle ran => ?_
          refine (CutsShort.quiet (.display result)).chain fun shown last displayed => ?_
          cases displayed
          exact (inductionHypothesis _ middle).mono fun _ _ reached =>
            .part (.laterOperand ran) reached

theorem sequence (parts : FuelCuts fuel) (list : List Stmt) (machine : Machine) :
    CutsShort (Run.sequence (execute fuel) list) machine
      (Point.Prints ⟨.statements list, machine⟩) := by
  induction list generalizing machine with
  | nil => exact .quiet (.pure _)
  | cons first rest inductionHypothesis =>
      refine (parts.statement first machine).bind (fun _ _ reached => .part .firstStatement reached)
        fun flow middle ran => ?_
      cases flow with
      | normal =>
          exact (inductionHypothesis middle).mono fun _ _ reached =>
            .part (.laterStatement ran) reached
      | leave | next | result value => exact .quiet (.pure _)

/-- The number of repetitions is another fuel than that of the parts. -/
theorem loop (parts : FuelCuts fuel) (condition : Expr) (body : Stmt) (count : Nat)
    (machine : Machine) :
    CutsShort (Run.loop (evaluate fuel condition) (execute fuel body) count) machine
      (Point.Prints ⟨.statement (.loop condition body), machine⟩) := by
  induction count generalizing machine with
  | zero => exact .exhausted
  | succ count inductionHypothesis =>
      refine (parts.expression condition machine).bind
        (fun _ _ reached => .evaluated rfl reached) fun value middle tested => ?_
      split
      next holds =>
        refine (parts.statement body middle).bind
          (fun _ _ reached => .part (.loopBody tested holds) reached) fun flow last ran => ?_
        cases flow with
        | normal =>
            exact (inductionHypothesis last).mono fun _ _ reached =>
              .part (.loopAgain tested holds ran (Or.inl rfl)) reached
        | next =>
            exact (inductionHypothesis last).mono fun _ _ reached =>
              .part (.loopAgain tested holds ran (Or.inr rfl)) reached
        | leave | result value => exact .quiet (.pure _)
      next => exact .quiet (.pure _)

/-- A case alone, up to where it is chosen or not. -/
theorem labelledCase_compared {rule label : Expr} (body : List Stmt) {wanted found : Value}
    {machine middle last : Machine} (first : evaluate fuel label machine = .done wanted middle)
    (second : evaluate fuel rule middle = .done found last) :
    Run.labelledCases (evaluate fuel) (execute fuel) rule [(label, body)] machine =
      (if wanted.same found then Run.nested (Run.sequence (execute fuel) body) else pure .normal)
        last := by
  rw [Run.labelledCases, Run.bind_of_done first, Run.bind_of_done second]
  split
  · show Run.bind (Run.nested (Run.sequence (execute fuel) body)) _ last = _
    unfold Run.bind
    cases Run.nested (Run.sequence (execute fuel) body) last with
    | done flow after => cases flow <;> rfl
    | aborted cause after => rfl
    | exhausted => rfl
  · rfl

theorem labelledCases (parts : FuelCuts fuel) (rule : Expr) (list : List (Expr × List Stmt))
    (machine : Machine) :
    CutsShort (Run.labelledCases (evaluate fuel) (execute fuel) rule list) machine
      (Point.Prints ⟨.cases rule list, machine⟩) := by
  induction list generalizing machine with
  | nil => exact .quiet (.pure _)
  | cons branch rest inductionHypothesis =>
      obtain ⟨label, body⟩ := branch
      refine (parts.expression label machine).bind
        (fun _ _ reached => .part .compared (.part .firstOperand reached))
        fun wanted middle first => ?_
      refine (parts.expression rule middle).bind
        (fun _ _ reached =>
          .part .compared (.part (.laterOperand first) (.part .firstOperand reached)))
        fun found last second => ?_
      have alone := labelledCase_compared body first second
      split
      next same =>
        refine (CutsShort.nested (parts.sequence body last.inside)).bind
          (fun _ _ reached => .part (.chosen first second same) reached) fun flow final ran => ?_
        cases flow with
        | normal =>
            rw [if_pos same, ran] at alone
            exact (inductionHypothesis final).mono fun _ _ reached =>
              .part (.laterCase alone) reached
        | leave | next | result value => exact .quiet (.pure _)
      next differs =>
        rw [if_neg differs] at alone
        exact (inductionHypothesis last).mono fun _ _ reached => .part (.laterCase alone) reached

theorem switch (parts : FuelCuts fuel) (rule : Expr) (cases : List Case) (machine : Machine) :
    CutsShort (Run.switch (evaluate fuel) (execute fuel) rule cases) machine
      (Point.Prints ⟨.statement (.switch rule cases), machine⟩) := by
  refine (parts.labelledCases rule _ machine).bind (fun _ _ reached => .part .labelled reached)
    fun flow middle ran => ?_
  cases flow with
  | leave | next | result value => exact .quiet (.pure _)
  | normal =>
      dsimp only
      split
      next => exact .quiet (.pure _)
      next body found =>
        refine (CutsShort.nested (parts.sequence body middle.inside)).bind
          (fun _ _ reached => .part (.fallback ran found) reached) fun flow last _ => ?_
        cases flow <;> exact .quiet (.pure _)

/-- What a function prints is printed by the call, once its arguments are there. -/
theorem call (parts : FuelCuts fuel) {callee : Expr} {list : List Expr} {site : Site}
    {machine middle last : Machine} {called : Value} {arguments : List Value}
    (first : evaluate fuel callee machine = .done called middle)
    (others : Run.each (evaluate fuel) list middle = .done arguments last) :
    CutsShort (Run.call (execute fuel) called arguments site) last
      (Point.Prints ⟨.expression (.call callee list site), machine⟩) := by
  cases called with
  | function id =>
      cases found : last.heap.functions[id]? with
      | none =>
          have foundLimited : ∀ limit, (last.limited limit).heap.functions[id]? = none :=
            fun _ => found
          exact .congr (Follows.call_none found arguments site)
            (fun limit => Follows.call_none (foundLimited limit) arguments site)
            (.quiet (.fault site .notCallable))
      | some function =>
          have foundLimited : ∀ limit, (last.limited limit).heap.functions[id]? = some function :=
            fun _ => found
          refine .congr (Follows.call_some found arguments site)
            (fun limit => Follows.call_some (foundLimited limit) arguments site) ?_
          split
          next arity =>
            cases function with
            | clock => exact .quiet (.readClock site)
            | closure name parameters body scope =>
                refine (CutsShort.inNewScope _ (parts.sequence body _)).bind
                  (fun _ _ reached => .part (.called first others found arity) reached)
                  fun _ _ _ => .quiet (.pure _)
          next => exact .quiet (.fault _ _)
  | _ => exact .quiet (.fault site .notCallable)

theorem evaluate_succ (parts : FuelCuts fuel) (e : Expr) (machine : Machine) :
    CutsShort (evaluate (fuel + 1) e) machine (Point.Prints ⟨.expression e, machine⟩) := by
  have expression := parts.expression
  cases e with
  | constant value => exact .quiet (.pure _)
  | grouping inner =>
      exact (expression inner machine).mono fun _ _ reached => .operand rfl reached
  | unary op operand site =>
      exact (expression operand machine).bind
        (fun _ _ reached => .operand rfl reached) fun _ _ _ => .quiet (.ofExcept _ _)
  | binary left op right site =>
      refine (expression left machine).bind
        (fun _ _ reached => .operand rfl reached) fun leftValue middle first => ?_
      exact (expression right middle).bind
        (fun _ _ reached => .secondOperand rfl first reached)
        fun _ _ _ => .quiet (.yielding _ _)
  | logical left op right =>
      refine (expression left machine).bind
        (fun _ _ reached => .operand rfl reached) fun value middle first => ?_
      have reaches : op.decides value = false →
          CutsShort (evaluate fuel right) middle
            (Point.Prints ⟨.expression (.logical left op right), machine⟩) := by
        intro undecided
        exact (expression right middle).mono fun _ _ reached =>
          .part (.right first undecided) reached
      cases op <;> dsimp only <;> split
      next => exact .quiet (.pure _)
      next undecided => exact reaches (eq_false_of_ne_true undecided)
      next => exact .quiet (.pure _)
      next undecided => exact reaches (eq_false_of_ne_true undecided)
  | assign name value =>
      refine (expression value machine).bind
        (fun _ _ reached => .operand rfl reached) fun result middle _ => ?_
      exact (CutsShort.quiet (.assign name result)).chain fun _ _ _ => .quiet (.pure _)
  | «variable» name => exact .quiet (.lookup name)
  | call callee arguments site =>
      refine (expression callee machine).bind
        (fun _ _ reached => .operand rfl reached) fun called middle first => ?_
      refine (parts.expressions arguments middle).bind
        (fun _ _ reached => .part .operands (.part (.laterOperand first) reached))
        fun values last others => ?_
      exact parts.call first others
  | lambda parameters body => exact .quiet (.newClosure none parameters body)
  | array elements =>
      exact (parts.expressions elements machine).bind (fun _ _ reached => .part .operands reached)
        fun values _ _ => .quiet (.newCollection values true)
  | tuple elements =>
      exact (parts.expressions elements machine).bind (fun _ _ reached => .part .operands reached)
        fun values _ _ => .quiet (.newCollection values false)
  | index target position site =>
      refine (expression target machine).bind
        (fun _ _ reached => .operand rfl reached) fun _ middle first => ?_
      exact (expression position middle).bind
        (fun _ _ reached => .secondOperand rfl first reached)
        fun _ _ _ => .quiet (.reading _ _)
  | indexAssign target position value site =>
      refine (expression target machine).bind
        (fun _ _ reached => .operand rfl reached) fun _ middle first => ?_
      refine (expression position middle).bind
        (fun _ _ reached => .secondOperand rfl first reached)
        fun _ later second => ?_
      exact (expression value later).bind
        (fun _ _ reached =>
          .part .operands (.part (.laterOperand first)
            (.part (.laterOperand second) (.part .firstOperand reached))))
        fun _ _ _ => .quiet (.yielding _ _)
  | template list =>
      exact (parts.templateText list "" machine).bind (fun _ _ reached => .part .operands reached)
        fun _ _ _ => .quiet (.pure _)

theorem execute_succ (parts : FuelCuts fuel) (s : Stmt) (machine : Machine) :
    CutsShort (execute (fuel + 1) s) machine (Point.Prints ⟨.statement s, machine⟩) := by
  have expression := parts.expression
  have statement := parts.statement
  cases s with
  | expression value =>
      exact (expression value machine).bind
        (fun _ _ reached => .evaluated rfl reached) fun _ _ _ => .quiet (.pure _)
  | print value =>
      refine (expression value machine).bind
        (fun _ _ reached => .evaluated rfl reached) fun result here shown => ?_
      exact (CutsShort.print result (.shown shown)).chain fun _ _ _ => .quiet (.pure _)
  | var name initial =>
      cases initial with
      | none =>
          exact (CutsShort.quiet (.declare name _)).chain fun _ _ _ => .quiet (.pure _)
      | some initial =>
          refine (expression initial machine).bind
            (fun _ _ reached => .evaluated rfl reached) fun _ _ _ => ?_
          exact (CutsShort.quiet (.declare name _)).chain fun _ _ _ => .quiet (.pure _)
  | const name initial =>
      refine (expression initial machine).bind
        (fun _ _ reached => .evaluated rfl reached) fun _ _ _ => ?_
      exact (CutsShort.quiet (.declare name _)).chain fun _ _ _ => .quiet (.pure _)
  | function name parameters body =>
      refine (CutsShort.quiet (.newClosure (some name) parameters body)).chain fun _ _ _ => ?_
      exact (CutsShort.quiet (.declare name _)).chain fun _ _ _ => .quiet (.pure _)
  | block body =>
      have inner := parts.sequence body machine.inside
      exact .nested (inner.mono fun _ _ reached => .part .block reached)
  | branch condition consequent alternative =>
      refine (expression condition machine).bind
        (fun _ _ reached => .evaluated rfl reached) fun value middle test => ?_
      split
      next holds =>
        exact (statement consequent middle).mono fun _ _ reached =>
          .part (.consequent test holds) reached
      next fails =>
        cases alternative with
        | none => exact .quiet (.pure _)
        | some alternative =>
            exact (statement alternative middle).mono fun _ _ reached =>
              .part (.alternative test (by simpa using fails)) reached
  | loop condition body => exact parts.loop condition body fuel machine
  | leave | next => exact .quiet (.pure _)
  | result value =>
      cases value with
      | none => exact .quiet (.pure _)
      | some value =>
          exact (expression value machine).bind
            (fun _ _ reached => .evaluated rfl reached) fun _ _ _ => .quiet (.pure _)
  | switch rule cases => exact parts.switch rule cases machine

end FuelCuts

theorem fuelCuts (fuel : Nat) : FuelCuts fuel := by
  induction fuel with
  | zero => exact ⟨fun _ _ => .exhausted, fun _ _ => .exhausted⟩
  | succ fuel parts => exact ⟨parts.evaluate_succ, parts.execute_succ⟩

/-! ## Programs -/

/-- A top-level statement. -/
theorem topLevel_cuts (s : Stmt) (machine : Machine) :
    CutsShort (topLevel fuel s) machine (Point.Prints ⟨.statement s, machine⟩) := by
  have parts := fuelCuts fuel
  cases s with
  | expression value =>
      exact (parts.expression value machine).bind
        (fun _ _ reached => .evaluated rfl reached) fun _ _ _ => .quiet (.pure _)
  | _ => exact (parts.statement _ machine).chain fun _ _ _ => .quiet (.pure _)

/-- A statement that has ended at top level has been executed. -/
theorem execute_of_topLevel {s : Stmt} {value : Option Value} {machine after : Machine}
    (ran : topLevel fuel s machine = .done value after) :
    ∃ enough flow, execute enough s machine = .done flow after := by
  cases s with
  | expression e =>
      obtain ⟨result, middle, evaluated, ended⟩ := Run.done_of_bind ran
      cases ended
      exact ⟨fuel + 1, .normal, Run.bind_of_done evaluated⟩
  | _ =>
      obtain ⟨flow, middle, executed, ended⟩ := Run.done_of_bind ran
      cases ended
      exact ⟨fuel, flow, executed⟩

theorem interpretAll_cuts (program : List Stmt) (values : List Value) (machine : Machine) :
    CutsShort (interpretAll fuel program values) machine
      (Point.Prints ⟨.program program, machine⟩) := by
  induction program generalizing values machine with
  | nil => exact .quiet (.pure _)
  | cons first rest inductionHypothesis =>
      rw [interpretAll_cons]
      refine (topLevel_cuts first machine).bind (fun _ _ reached => .part .firstTopLevel reached)
        fun value middle ran => ?_
      obtain ⟨enough, flow, executed⟩ := execute_of_topLevel ran
      exact (inductionHypothesis _ middle).mono fun _ _ reached =>
        .part (.laterTopLevel executed) reached

/-- A program is run in the global scope. -/
theorem interpret_cuts (fuel : Nat) (program : List Stmt) (machine : Machine) :
    CutsShort (interpret fuel program) machine
      (Point.Prints ⟨.program program, { machine with current := machine.globals }⟩) :=
  have all := @interpretAll_cuts fuel program [] { machine with current := machine.globals }
  ⟨all.appends, all.cuts⟩

end Fuel

/-! ## The whole run -/

/-- The machine with an output that takes so many bytes more. -/
def Machine.withRoom (room : Nat) (machine : Machine) : Machine :=
  { machine with output := { machine.output with room := some room } }

/-- The same outcome, with so much room left in the output. -/
def Outcome.withRoom {α : Type} (room : Nat) : Outcome α → Outcome α
  | .done value after => .done value (after.withRoom room)
  | .aborted cause after => .aborted cause (after.withRoom room)
  | .exhausted => .exhausted

/-- The outcome leaves an output without a limit, to which the given bytes were
written. -/
def Outcome.Printed {α : Type} (start printed : ByteArray) (outcome : Outcome α) : Prop :=
  outcome.Leaves fun after => after.output = ⟨start ++ printed, none⟩

section Whole

variable {α : Type} {whole short : Outcome α} {start bytes : ByteArray} {room : Nat}
  {prints : Value → Machine → Prop}

theorem Outcome.Appends.printed (appends : whole.Appends start) :
    ∃ bytes, whole.Printed start bytes := by
  have unlimited : ∀ {output : Output} {written : ByteArray}, output.written = written →
      output.room = none → output = ⟨written, none⟩ := by
    rintro ⟨_, _⟩ _ rfl rfl
    rfl
  cases whole with
  | done value after =>
      obtain ⟨room, bytes, written⟩ := appends
      exact ⟨bytes, unlimited written room⟩
  | aborted cause after =>
      obtain ⟨room, bytes, written⟩ := appends
      exact ⟨bytes, unlimited written room⟩
  | exhausted => exact ⟨.empty, trivial⟩

/-- What was written at some point begins what was written in the end. -/
theorem Outcome.Printed.begins {written : ByteArray} (all : whole.Printed start bytes)
    (ends : whole ≠ .exhausted) (longer : whole.Appends written) :
    ∃ more, start ++ bytes = written ++ more := by
  cases whole with
  | done value after =>
      obtain ⟨-, more, same⟩ := longer
      have all : after.output = ⟨start ++ bytes, none⟩ := all
      rw [all] at same
      exact ⟨more, same⟩
  | aborted cause after =>
      obtain ⟨-, more, same⟩ := longer
      have all : after.output = ⟨start ++ bytes, none⟩ := all
      rw [all] at same
      exact ⟨more, same⟩
  | exhausted => exact absurd rfl ends

/-- The room that is left of a limit. -/
theorem Machine.limited_eq {machine : Machine} (output : machine.output = ⟨start ++ bytes, none⟩)
    (room : Nat) :
    machine.limited (start.size + room) = machine.withRoom (room - bytes.size) := by
  have left : start.size + room - machine.output.written.size = room - bytes.size := by
    rw [output, ByteArray.size_append, Nat.add_sub_add_left]
  unfold Machine.limited Machine.withRoom
  rw [left]

/-- Where there is room for everything, nothing is cut. -/
theorem Outcome.CutShort.within (cutShort : CutShort (start.size + room) prints whole short)
    (all : whole.Printed start bytes) (ends : whole ≠ .exhausted)
    (within : bytes.size ≤ room) : short = whole.withRoom (room - bytes.size) := by
  cases cutShort with
  | done fits => exact congrArg (Outcome.done _) (Machine.limited_eq all room)
  | aborted fits => exact congrArg (Outcome.aborted _) (Machine.limited_eq all room)
  | exhausted => exact absurd rfl ends
  | cut printed crosses longer heap globals output =>
      obtain ⟨more, same⟩ := all.begins ends longer
      have sizes := congrArg ByteArray.size same
      have exceeds := crosses.exceeds
      simp only [ByteArray.size_append] at sizes exceeds
      omega

/-- Where there is not, a print crosses the limit. -/
theorem Outcome.CutShort.exceeds (cutShort : CutShort (start.size + room) prints whole short)
    (all : whole.Printed start bytes) (ends : whole ≠ .exhausted) (exceeds : room < bytes.size) :
    ∃ value here full, short = .aborted .outputFull full ∧
      full.output.written = start ++ bytes.extract 0 room ∧
      prints value here ∧ here.Crosses (start.size + room) value ∧
      (∃ more, start ++ bytes = here.output.written ++ here.line value ++ more) ∧
      full.heap = here.heap ∧ full.globals = here.globals := by
  have total : (start ++ bytes).size = start.size + bytes.size := ByteArray.size_append
  cases cutShort with
  | done fits =>
      have output : Output.written _ = start ++ bytes := congrArg Output.written all
      rw [output] at fits
      omega
  | aborted fits =>
      have output : Output.written _ = start ++ bytes := congrArg Output.written all
      rw [output] at fits
      omega
  | exhausted => exact absurd rfl ends
  | @cut _ value here full printed crosses longer heap globals output =>
      obtain ⟨more, same⟩ := all.begins ends longer
      refine ⟨value, here, full, rfl, ?_, printed, crosses, ⟨more, same⟩, heap, globals⟩
      have whole : start ++ bytes.extract 0 room =
          (start ++ bytes).extract 0 (start.size + room) := by
        rw [ByteArray.extract_append, extract_all (Nat.le_add_right _ _), Nat.zero_sub,
          Nat.add_sub_cancel_left]
      have beyond := crosses.exceeds
      rw [whole, same, ByteArray.extract_append, output,
        Nat.sub_eq_zero_of_le (Nat.le_of_lt beyond), Nat.zero_sub, ByteArray.extract_same,
        ByteArray.append_empty]

end Whole

/-- **An output limit cuts a run short.** Let `printed` be what a program prints that
runs to its end, with or without an error. Where there is room for it, the program ends
with the same values or error, output and state. Where there is not, it ends because the
output is full, with as many bytes of `printed` as there is room for; and its heap and
globals are those of the first run at the print that crosses the limit, its value being
evaluated. -/
theorem limited_run_cut_short (fuel : Nat) (program : List Stmt) (machine : Machine) (room : Nat)
    (unlimited : machine.output.room = none)
    (ends : interpret fuel program machine ≠ .exhausted) :
    ∃ printed : ByteArray,
      (interpret fuel program machine).Printed machine.output.written printed ∧
      (printed.size ≤ room →
        interpret fuel program (machine.withRoom room) =
          (interpret fuel program machine).withRoom (room - printed.size)) ∧
      (room < printed.size →
        ∃ value here full,
          interpret fuel program (machine.withRoom room) = .aborted .outputFull full ∧
          full.output.written = machine.output.written ++ printed.extract 0 room ∧
          Point.Prints ⟨.program program, { machine with current := machine.globals }⟩ value here ∧
          here.Crosses (machine.output.written.size + room) value ∧
          (∃ more, machine.output.written ++ printed =
            here.output.written ++ here.line value ++ more) ∧
          full.heap = here.heap ∧ full.globals = here.globals) := by
  have cutsShort := interpret_cuts fuel program machine
  have appends := cutsShort.appends unlimited
  have cut := cutsShort.cuts unlimited (machine.output.written.size + room) (Nat.le_add_right _ _)
  have limited : machine.limited (machine.output.written.size + room) = machine.withRoom room := by
    unfold Machine.limited
    rw [Nat.add_sub_cancel_left]
    rfl
  rw [limited] at cut
  obtain ⟨printed, all⟩ := appends.printed
  exact ⟨printed, all, cut.within all ends, cut.exceeds all ends⟩

/-- A function that prints its variable, changes it, prints it again and changes it
again; and a call of it. -/
def printingTwice : List Stmt :=
  let x : Name := ⟨⟨0, "x"⟩, 1⟩
  let f : Name := ⟨⟨1, "f"⟩, 1⟩
  let assigned (text : String) : Stmt := .expression (.assign x (.constant (.string text)))
  [.var x (some (.constant (.string "a"))),
    .function f [] [.print (.variable x), assigned "b", .print (.variable x), assigned "c"],
    .expression (.call (.variable f) [] ⟨1, .unknown⟩)]

/-- With room for three bytes, the second print crosses the limit, in a call, and the
variable is left with its second value. -/
theorem limited_run_cut_short_in_call :
    ∃ value here full,
      interpret 9 printingTwice (Machine.blank.withRoom 3) = .aborted .outputFull full ∧
      Point.Prints ⟨.program printingTwice, Machine.blank⟩ value here ∧
      here.Crosses 3 value ∧ full.heap = here.heap ∧
      (full.heap.lookup 0 ⟨0, "x"⟩).toOption.map full.heap.display = some "b" := by
  have size : (match interpret 9 printingTwice Machine.blank with
      | .done _ after => after.output.written.size
      | _ => 0) = 4 := by decide +kernel
  have second : (match interpret 9 printingTwice (Machine.blank.withRoom 3) with
      | .aborted .outputFull full => (full.heap.lookup 0 ⟨0, "x"⟩).toOption.map full.heap.display
      | _ => none) = some "b" := by decide +kernel
  have ends : interpret 9 printingTwice Machine.blank ≠ .exhausted := by
    intro ranOut
    rw [ranOut] at size
    cases size
  have cutShort := limited_run_cut_short 9 printingTwice Machine.blank 3 rfl ends
  cases ran : interpret 9 printingTwice Machine.blank with
  | done values after =>
      rw [ran] at cutShort size
      obtain ⟨printed, all, -, exceeds⟩ := cutShort
      have longer : 3 < printed.size := by
        have written : after.output.written = .empty ++ printed := congrArg Output.written all
        have size : after.output.written.size = 4 := size
        rw [written, ByteArray.empty_append] at size
        omega
      obtain ⟨value, here, full, cut, -, reached, crosses, -, heap, -⟩ := exceeds longer
      rw [cut] at second
      exact ⟨value, here, full, cut, reached, crosses, heap, second⟩
  | aborted cause after =>
      rw [ran] at size
      cases size
  | exhausted => exact absurd ran ends

end Scriptlet
