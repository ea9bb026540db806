import Scriptlet.Proofs.Grammar.Soundness
import Scriptlet.Proofs.Run.Blind

/-!
Contract: what a `for` means, and that the tree it is read as means it.

A `for` is read as a `while`. Its increment goes into a block behind the body, and its first
clause into a block around the loop. The block behind the body opens a scope at every
repetition, in which nothing is ever bound.

Owns: `executeFor`, the meaning of a `for` said of its clauses; that the block of a body is a
spacer (`loop_inSpacers`); that the tree does what the clauses say (`execute_forLoop`); and
the main statement `for_keeps_meaning`.

Does not own: that runs do not see spacers (`Scriptlet.Proofs.Run.Blind`).

## Why each part has fuel of its own

The tree has its parts at different depths, and so the evaluator has different fuel left for
them. With just that fuel the clauses do what the tree does. More fuel changes nothing for a
run that ends.
-/

set_option autoImplicit false

namespace Scriptlet

/-! ## The meaning of a `for` -/

namespace Run

/-- Repeats the body, and the step behind it, while the test holds. A `continue` in the body
goes on without the step. -/
def iterate (test : Run Value) (body : Run Flow) (step : Run Unit) : Nat → Run Flow
  | 0 => exhausted
  | fuel + 1 => do
      let value ← test
      if value.isTruthy then
        match ← body with
        | .normal => do
            step
            iterate test body step fuel
        | .next => iterate test body step fuel
        | .leave => pure .normal
        | .result value => pure (.result value)
      else pure .normal

/-- What a `for` does, given what its parts do. With a first clause there is one scope for the
whole loop. -/
def forLoop (start : Option (Run Unit)) (test : Run Value) (body : Run Flow) (step : Run Unit)
    (fuel : Nat) : Run Flow :=
  match start with
  | none => iterate test body step fuel
  | some start =>
      nested do
        start
        iterate test body step fuel

end Run

open Run

/-- The first clause, for what it does. -/
def evaluateStart (fuel : Nat) (initial : Stmt) : Run Unit := do
  let _ ← execute fuel initial
  pure ()

/-- The condition, which holds if there is none. -/
def evaluateTest (fuel : Nat) : Option Expr → Run Value
  | none => pure (.bool true)
  | some condition => evaluate fuel condition

/-- The increment, if there is one, for what it does. -/
def evaluateStep (fuel : Nat) : Option Expr → Run Unit
  | none => pure ()
  | some increment => do
      let _ ← evaluate fuel increment
      pure ()

/-- The fuel of each part of a `for`. -/
structure ForFuel where
  start : Nat
  test : Nat
  body : Nat
  step : Nat
  repetitions : Nat

def ForFuel.all (fuel : Nat) : ForFuel :=
  ⟨fuel, fuel, fuel, fuel, fuel⟩

/-- None of the parts has more. -/
structure ForFuel.Le (less more : ForFuel) : Prop where
  start : less.start ≤ more.start
  test : less.test ≤ more.test
  body : less.body ≤ more.body
  step : less.step ≤ more.step
  repetitions : less.repetitions ≤ more.repetitions

theorem ForFuel.Le.trans {few some many : ForFuel} (first : few.Le some) (second : some.Le many) :
    few.Le many :=
  ⟨Nat.le_trans first.start second.start, Nat.le_trans first.test second.test,
    Nat.le_trans first.body second.body, Nat.le_trans first.step second.step,
    Nat.le_trans first.repetitions second.repetitions⟩

theorem ForFuel.all_le {less more : Nat} (le : less ≤ more) : (all less).Le (all more) :=
  ⟨le, le, le, le, le⟩

section Clauses

variable (initial : Option Stmt) (condition increment : Option Expr) (body : Stmt)

def executeForWith (fuel : ForFuel) : Run Flow :=
  Run.forLoop (initial.map (evaluateStart fuel.start)) (evaluateTest fuel.test condition)
    (execute fuel.body body) (evaluateStep fuel.step increment) fuel.repetitions

/-- Executes `for (initial; condition; increment) body`. -/
def executeFor (fuel : Nat) : Run Flow :=
  executeForWith initial condition increment body (.all fuel)

end Clauses

/-! ## Two statements in sequence -/

namespace Run

/-- The second part, if the first one ends normally. -/
def andNext (first second : Run Flow) : Run Flow := do
  match ← first with
  | .normal => second
  | flow => pure flow

theorem andNext_bind {α : Type} (first second : Run Flow) (next : Flow → Run α) :
    andNext first second >>= next =
      first >>= fun flow =>
        match flow with
        | .normal => second >>= next
        | flow => next flow := by
  unfold andNext
  rw [bind_assoc]
  refine bind_congr fun flow => ?_
  cases flow <;> simp

/-- What does nothing behind a part may be left out. -/
theorem andNext_normal (first : Run Flow) : andNext first (pure .normal) = first := by
  have same : (fun flow : Flow => (match flow with
      | .normal => pure .normal
      | flow => pure flow : Run Flow)) = pure := by
    funext flow
    cases flow <;> rfl
  unfold andNext
  rw [same, bind_pure]

theorem sequence_pair (execute : Stmt → Run Flow) (first second : Stmt) :
    sequence execute [first, second] = andNext (execute first) (execute second) := by
  have last : sequence execute [second] = execute second := andNext_normal (execute second)
  rw [sequence, last]
  rfl

/-- A loop that repeats the body with the step behind it. -/
theorem iterate_eq_loop (test : Run Value) (body : Run Flow) (step : Run Unit) (fuel : Nat) :
    iterate test body step fuel =
      loop test (andNext body (step >>= fun _ => pure .normal)) fuel := by
  induction fuel with
  | zero => rfl
  | succ fuel inductionHypothesis =>
      rw [iterate, loop]
      refine bind_congr fun value => ?_
      rw [andNext_bind, ← inductionHypothesis]
      congr 1
      refine bind_congr fun flow => ?_
      cases flow <;> simp

end Run

/-! ## Scopes that become spacers -/

/-- Both end in the same way, in machines that differ by the spacers there were and perhaps
by others in new scopes. -/
def Outcome.SpacedFrom {α : Type} (spacing : Spacing) (before : Machine)
    (outcome outcome' : Outcome α) : Prop :=
  ∃ more, Spacing.AgreeBelow before.heap.scopes.size spacing more ∧
    outcome.Spaced more before outcome'

section Pairs

variable {α β : Type} {spacing : Spacing} {before before' : Machine}

theorem Outcome.Spaced.spacedFrom {outcome outcome' : Outcome α}
    (ran : outcome.Spaced spacing before' outcome') :
    outcome.SpacedFrom spacing before' outcome' :=
  ⟨spacing, .refl _ spacing, ran⟩

theorem Outcome.SpacedFrom.earlier {more : Spacing} {middle : Machine}
    {outcome outcome' : Outcome α} (later : outcome.SpacedFrom more middle outcome')
    (agree : Spacing.AgreeBelow before'.heap.scopes.size spacing more)
    (continues : before'.Continues middle) : outcome.SpacedFrom spacing before' outcome' := by
  obtain ⟨last, further, ran⟩ := later
  exact ⟨last, agree.trans further continues.grown, ran.earlier continues⟩

theorem Outcome.SpacedFrom.ends {outcome outcome' : Outcome α}
    (ran : outcome.SpacedFrom spacing before outcome') (ends : outcome' ≠ .exhausted) :
    outcome ≠ .exhausted := by
  obtain ⟨more, agree, ran⟩ := ran
  cases ran with
  | done | aborted => nofun
  | exhausted => exact (ends rfl).elim

/-- Two runs that go on as two others do. -/
theorem bind_spacedFrom {run other : Run α} {next next' : α → Run β}
    (first : (run before).SpacedFrom spacing before' (other before'))
    (later : ∀ value more after after', after.Spaced more after' →
      (next value after).SpacedFrom more after' (next' value after')) :
    ((run >>= next) before).SpacedFrom spacing before' ((other >>= next') before') := by
  obtain ⟨more, agree, ran⟩ := first
  show (Run.bind run next before).SpacedFrom spacing before' (Run.bind other next' before')
  unfold Run.bind
  generalize run before = outcome at ran
  generalize other before' = outcome' at ran
  cases ran with
  | @done value after after' machines continues =>
      exact (later value more after after' machines).earlier agree continues
  | aborted cause machines continues => exact ⟨more, agree, .aborted cause machines continues⟩
  | exhausted => exact ⟨more, agree, .exhausted⟩

/-- A run that binds nothing does in a scope of its own what it does without. -/
theorem Run.Blind.inSpacer {run : Run α} (quiet : Blind .quiet run)
    (machines : before.Spaced spacing before') :
    (run before).SpacedFrom spacing before' (Run.nested run before') := by
  have agree : Spacing.AgreeBelow before'.heap.scopes.size spacing
    (spacing.insert before'.heap.scopes.size before'.current) := Spacing.agreeBelow_insert
  have entering := machines.enteringSpacer
  have ran := quiet.anywhere entering
  have left := ran.left machines agree
  -- without the scope, nothing was left that could be come back to
  have stayed : (run before).inScope before.current = run before := by
    have current : ∀ after after' : Machine,
        after.Spaced (spacing.insert before'.heap.scopes.size before'.current) after' →
        before'.inside.Continues after' → { after with current := before.current } = after := by
      intro after after' later continues
      have same : after.current = before.current := by
        rw [later.current, continues.current, entering.current]
      rw [← same]
    generalize run before = outcome at ran
    generalize run before'.inside = outcome' at ran
    cases ran with
    | done value later continues =>
        exact congrArg (Outcome.done value) (current _ _ later continues)
    | aborted cause later continues =>
        exact congrArg (Outcome.aborted cause) (current _ _ later continues)
    | exhausted => rfl
  rw [stayed] at left
  exact ⟨_, agree, left⟩

/-- Two runs in a new scope each. -/
theorem nested_spacedFrom {run other : Run α} (machines : before.Spaced spacing before')
    (inner : ∀ after after', after.Spaced spacing after' → ¬ spacing.spacer after'.current →
      (run after).SpacedFrom spacing after' (other after')) :
    (nested run before).SpacedFrom spacing before' (nested other before') := by
  have renamed : (Scope.empty (some before'.current)).renamed spacing.origin =
      .empty (some before.current) := by
    rw [machines.current]
    rfl
  obtain ⟨entering, isReal⟩ := machines.entering
    (show (Scope.empty (some before'.current)).parent = some before'.current from rfl)
    machines.currentThere
  rw [renamed] at entering
  obtain ⟨more, agree, ran⟩ := inner _ _ entering isReal
  have grown : before'.heap.scopes.size ≤ before'.inside.heap.scopes.size :=
    before'.size_entering _ ▸ Nat.le_succ _
  have agreeBefore := (Spacing.AgreeBelow.refl before'.heap.scopes.size spacing).trans agree grown
  exact ⟨more, agreeBefore, ran.left machines agreeBefore⟩

/-- **The block of a body is a spacer.** However often a loop repeats, it does with its body in
a block what it does without. -/
theorem loop_inSpacers {test : Run Value} {inner : Run Flow} (tested : Blind .quiet test)
    (quiet : Blind .quiet inner) (fuel : Nat) (machines : before.Spaced spacing before') :
    (loop test inner fuel before).SpacedFrom spacing before'
      (loop test (nested inner) fuel before') := by
  induction fuel generalizing spacing before before' with
  | zero => exact ⟨spacing, .refl _ spacing, .exhausted⟩
  | succ fuel inductionHypothesis =>
      have ends : ∀ (flow : Flow) {more : Spacing} {after after' : Machine},
          after.Spaced more after' →
            ((pure flow : Run Flow) after).SpacedFrom more after' ((pure flow : Run Flow) after') :=
        fun flow _ _ after' later => (Outcome.Spaced.done flow later (.refl after')).spacedFrom
      rw [loop, loop]
      refine bind_spacedFrom (tested.anywhere machines).spacedFrom ?_
      intro value more after after' later
      split
      · refine bind_spacedFrom (quiet.inSpacer later) ?_
        intro flow last final final' atLast
        cases flow with
        | normal | next => exact inductionHypothesis atLast
        | leave => exact ends .normal atLast
        | result value => exact ends (.result value) atLast
      · exact ends .normal later

end Pairs

/-! ## The tree of a `for` -/

/-- What may stand as the first clause of a `for`. -/
inductive Stmt.Starts : Stmt → Prop where
  | var (name : Name) (initial : Option Expr) : Starts (.var name initial)
  | expression (value : Expr) : Starts (.expression value)

/-- A first clause ends normally, or not at all. -/
theorem Stmt.Starts.execute_eq {initial : Stmt} (starts : initial.Starts) (fuel : Nat) :
    execute fuel initial = evaluateStart fuel initial >>= fun _ => pure .normal := by
  unfold evaluateStart
  cases fuel with
  | zero => rfl
  | succ fuel =>
      cases starts with
      | var name initial => cases initial <;> rw [execute] <;> simp
      | expression value =>
          rw [execute]
          simp

section Trees

variable {condition increment : Option Expr} {body : Stmt}

theorem evaluateTest_succ (fuel : Nat) (condition : Option Expr) :
    evaluateTest (fuel + 1) condition =
      evaluate (fuel + 1) (condition.getD (.constant (.bool true))) := by
  cases condition with
  | none =>
      rw [Option.getD_none, evaluate]
      rfl
  | some condition => rfl

theorem evaluateTest_blind (fuel : Nat) (condition : Option Expr) :
    Blind .quiet (evaluateTest fuel condition) := by
  cases condition with
  | none => exact .pure _
  | some condition => exact (fuelBlind fuel).expression .quiet condition

/-- The loop inside the tree does what is repeated in a `for`. -/
theorem execute_loop (fuel : Nat) (condition increment : Option Expr)
    (bindsNothing : body.BindsNothing) :
    ∃ parts : ForFuel, (ForFuel.all fuel).Le parts ∧ parts.Le (.all (fuel + 2)) ∧
      ∀ spacing before before', before.Spaced spacing before' →
        (iterate (evaluateTest parts.test condition) (execute parts.body body)
          (evaluateStep parts.step increment) parts.repetitions before).SpacedFrom spacing before'
          (execute (fuel + 3) (.forLoop none condition increment body) before') := by
  have tested := evaluateTest_blind (fuel + 2) condition
  have quiet : ∀ fuel, Blind .quiet (execute fuel body) :=
    fun fuel => (fuelBlind fuel).statement .quiet body fun _ => bindsNothing
  cases increment with
  | none =>
      refine ⟨⟨fuel, fuel + 2, fuel + 2, fuel, fuel + 2⟩, ?_, ?_, ?_⟩
      · constructor <;> simp [ForFuel.all]
      · constructor <;> simp [ForFuel.all]
      intro spacing before before' machines
      have tree : execute (fuel + 3) (.forLoop none condition none body) =
          loop (evaluateTest (fuel + 2) condition) (execute (fuel + 2) body) (fuel + 2) := by
        rw [Stmt.forLoop, execute, evaluateTest_succ]
      have noStep : andNext (execute (fuel + 2) body)
          (evaluateStep fuel none >>= fun _ => pure .normal) = execute (fuel + 2) body :=
        andNext_normal _
      rw [tree, iterate_eq_loop, noStep]
      exact ((Blind.loop tested (quiet _) _).anywhere machines).spacedFrom
  | some increment =>
      refine ⟨⟨fuel, fuel + 2, fuel + 1, fuel, fuel + 2⟩, ?_, ?_, ?_⟩
      · constructor <;> simp [ForFuel.all]
      · constructor <;> simp [ForFuel.all]
      intro spacing before before' machines
      let inner := andNext (execute (fuel + 1) body)
        (evaluateStep fuel (some increment) >>= fun _ => pure .normal)
      have last : execute (fuel + 1) (.expression increment) =
          evaluateStep fuel (some increment) >>= fun _ => pure .normal := by
        rw [execute]
        simp [evaluateStep]
      have block : execute (fuel + 2) (.block [body, .expression increment]) = nested inner := by
        rw [execute, sequence_pair, last]
      have tree : execute (fuel + 3) (.forLoop none condition (some increment) body) =
          loop (evaluateTest (fuel + 2) condition) (nested inner) (fuel + 2) := by
        rw [Stmt.forLoop, execute, evaluateTest_succ, block]
      have innerQuiet : Blind .quiet inner := by
        refine (quiet _).bind fun flow => ?_
        cases flow with
        | normal => exact (((fuelBlind fuel).expression .quiet increment).bind fun _ =>
            .pure ()).bind fun _ => .pure _
        | leave | next | result _ => exact .pure _
      rw [tree, iterate_eq_loop]
      exact loop_inSpacers tested innerQuiet _ machines

/-- The tree of a `for` does what its clauses say, with the fuel that each has left. -/
theorem execute_forLoop (fuel : Nat) {initial : Option Stmt} (starts : ∀ s ∈ initial, s.Starts)
    (condition increment : Option Expr) (bindsNothing : body.BindsNothing) :
    ∃ parts : ForFuel, (ForFuel.all fuel).Le parts ∧ parts.Le (.all (fuel + 4)) ∧
      ∀ spacing before before', before.Spaced spacing before' →
        (executeForWith initial condition increment body parts before).SpacedFrom spacing before'
          (execute (fuel + 4) (.forLoop initial condition increment body) before') := by
  cases initial with
  | none =>
      obtain ⟨parts, less, more, same⟩ :=
        execute_loop (fuel + 1) condition increment bindsNothing
      exact ⟨parts, (ForFuel.all_le (Nat.le_succ fuel)).trans less,
        more.trans (ForFuel.all_le (Nat.le_succ _)), same⟩
  | some first =>
      obtain ⟨parts, less, more, same⟩ := execute_loop fuel condition increment bindsNothing
      have atMost := more.trans (ForFuel.all_le (Nat.le_add_right (fuel + 2) 2))
      refine ⟨{ parts with start := fuel + 3 },
        { less with start := Nat.le_add_right fuel 3 },
        { atMost with start := Nat.le_succ (fuel + 3) }, ?_⟩
      intro spacing before before' machines
      have isStart := starts first rfl
      have tree : execute (fuel + 4) (.forLoop (some first) condition increment body) =
          nested (evaluateStart (fuel + 3) first >>= fun _ =>
            execute (fuel + 3) (.forLoop none condition increment body)) := by
        have unfolded : Stmt.forLoop (some first) condition increment body =
          .block [first, .forLoop none condition increment body] := rfl
        rw [unfolded, execute, sequence_pair, isStart.execute_eq]
        unfold andNext
        simp
      have started : Blind .loud (evaluateStart (fuel + 3) first) :=
        ((fuelBlind (fuel + 3)).loud first).bind fun _ => .pure ()
      rw [tree]
      refine nested_spacedFrom machines fun after after' later isReal => ?_
      refine bind_spacedFrom (started spacing after after' later fun _ => isReal).spacedFrom ?_
      exact fun _ more last last' atLast => same more last last' atLast

end Trees

/-! ## Fuel -/

section Fuel

theorem evaluate_follows {less more : Nat} (le : less ≤ more) (e : Expr) :
    Follows id False (evaluate less e) (evaluate more e) := by
  have follows := (fuelFollows le False.elim : FuelFollows id False less more).expression e
  rwa [relabel_id] at follows

theorem execute_follows {less more : Nat} (le : less ≤ more) (s : Stmt) :
    Follows id False (execute less s) (execute more s) := by
  have follows := (fuelFollows le False.elim : FuelFollows id False less more).statement s
  rwa [relabel_id] at follows

/-- With more fuel, a run that ends does the same. -/
theorem Follows.ended {α : Type} {run other : Run α} (follows : Follows id False run other)
    {machine : Machine} (ends : run machine ≠ .exhausted) : other machine = run machine := by
  have same := follows.carries machine (Or.inr ends)
  rwa [relabel_id, relabel_id] at same

theorem executeForWith_follows (initial : Option Stmt) (condition increment : Option Expr)
    (body : Stmt) {less more : ForFuel} (le : less.Le more) :
    Follows id False (executeForWith initial condition increment body less)
      (executeForWith initial condition increment body more) := by
  have test : Follows id False (evaluateTest less.test condition)
      (evaluateTest more.test condition) := by
    cases condition with
    | none => exact .pure _
    | some condition => exact evaluate_follows le.test condition
  have step : Follows id False (evaluateStep less.step increment)
      (evaluateStep more.step increment) := by
    cases increment with
    | none => exact .pure _
    | some increment => exact (evaluate_follows le.step increment).bind fun _ => .pure ()
  have behind : Follows id False
      (andNext (execute less.body body)
        (evaluateStep less.step increment >>= fun _ => pure .normal))
      (andNext (execute more.body body)
        (evaluateStep more.step increment >>= fun _ => pure .normal)) := by
    refine (execute_follows le.body body).bind fun flow => ?_
    cases flow with
    | normal => exact step.bind fun _ => .pure _
    | leave | next | result _ => exact .pure _
  have repeated := Follows.loop test behind le.repetitions False.elim
  unfold executeForWith
  cases initial with
  | none =>
      simp only [Option.map_none, Run.forLoop, iterate_eq_loop]
      exact repeated
  | some first =>
      simp only [Option.map_some, Run.forLoop, iterate_eq_loop]
      have start : Follows id False (evaluateStart less.start first)
          (evaluateStart more.start first) :=
        (execute_follows le.start first).bind fun _ => .pure ()
      exact (start.bind fun _ => repeated).nested

end Fuel

/-! ## Statements that are read -/

namespace Grammar

variable {coin : Nat → Bool} {tokens rest : List Token}

/-- A declaration that stands in a statement stands in a block, a case or a function. -/
theorem Derives.bindsNothing {phrase : Phrase} (derives : Derives coin phrase tokens rest) :
    ∀ dangling s, phrase = .statement dangling s → s.BindsNothing := by
  induction derives with
  | print | expression | block | switch | returnNothing | returnOne | returnSeveral =>
      intro dangling s isStatement
      cases isStatement
      constructor
  | onlyIf _ _ _ _ _ _ inner =>
      intro dangling s isStatement
      cases isStatement
      exact .branch _ (inner _ _ rfl) nofun
  | ifElse _ _ _ _ _ _ _ _ inner last =>
      intro dangling s isStatement
      cases isStatement
      refine .branch _ (inner _ _ rfl) fun alternative isAlternative => ?_
      cases isAlternative
      exact last _ _ rfl
  | whileLoop _ _ _ _ _ _ inner =>
      intro dangling s isStatement
      cases isStatement
      exact .loop _ (inner _ _ rfl)
  | @forLoop _ _ _ _ _ _ _ _ _ _ initial condition increment body _ _ _ _ _ _ _ _ _ _ _ inner =>
      intro dangling s isStatement
      cases isStatement
      cases initial with
      | some first => exact .block _
      | none =>
          cases increment with
          | some increment => exact .loop _ (.block _)
          | none => exact .loop _ (inner _ _ rfl)
  | _ =>
      intro dangling s isStatement
      cases isStatement

theorem Derives.starts {initial : Option Stmt}
    (derives : Derives coin (.initial initial) tokens rest) :
    ∀ s ∈ initial, s.Starts := by
  intro s isInitial
  cases derives with
  | noInitial => cases isInitial
  | initialVar _ inner =>
      cases isInitial
      cases inner with
      | unbound | bound => exact .var _ _
  | initialExpression =>
      cases isInitial
      exact .expression _

/-- The clauses and the body of a `for`, read from the tokens behind its keyword. -/
inductive ReadsFor (coin : Nat → Bool) : List Token → List Token → Option Stmt → Option Expr →
    Option Expr → Stmt → Prop where
  | intro {opening semicolon closing : Token}
      {tokens conditions increments others rest : List Token} {dangling : Bool}
      {initial : Option Stmt} {condition increment : Option Expr} {body : Stmt}
      (opens : opening.kind = .leftParen)
      (start : Derives coin (.initial initial) tokens conditions)
      (test : Derives coin (.clause condition) conditions (semicolon :: increments))
      (ends : semicolon.kind = .semicolon)
      (step : Derives coin (.clause increment) increments (closing :: others))
      (closes : closing.kind = .rightParen)
      (inner : Derives coin (.statement dangling body) others rest) :
      ReadsFor coin (opening :: tokens) rest initial condition increment body

/-- Behind the keyword, only a `for` is read. -/
theorem Derives.readsFor {keyword : Token} {dangling : Bool} {s : Stmt}
    (isFor : keyword.kind = .forWord)
    (derives : Derives coin (.statement dangling s) (keyword :: tokens) rest) :
    ∃ initial condition increment body, ReadsFor coin tokens rest initial condition increment body ∧
      s = .forLoop initial condition increment body := by
  have other : ∀ {kind : Kind}, keyword.kind = kind → kind ≠ .forWord → False :=
    fun isOther different => different (isOther.symm.trans isFor)
  cases derives with
  | forLoop _ opens start test ends step closes inner =>
      exact ⟨_, _, _, _, .intro opens start test ends step closes inner, rfl⟩
  | expression inner _ =>
      have begins := inner.begins
      rw [Parser.kindOf, isFor] at begins
      cases begins
  | print isOther _ _ | block isOther _ | onlyIf isOther _ _ _ _ | ifElse isOther _ _ _ _ _ _
  | whileLoop isOther _ _ _ _ | switch isOther _ _ _ _ | returnNothing isOther _
  | returnOne isOther _ _ | returnSeveral isOther _ _ _ =>
      exact (other isOther (by decide)).elim

end Grammar

/-! ## The main result -/

open Grammar in
/-- **A `for` means what its clauses say.** From any sound machine, as those of a session are,
the tree that is read without a report ends just when the clauses do, with some fuel more, and
in the same way. It leaves the machine that they leave, except for empty scopes, and whatever
is run later does not see those. -/
theorem for_keeps_meaning {depth : Nat} {setting : Setting} {keyword : Token}
    {tokens rest : List Token} {s : Stmt} (isFor : keyword.kind = .forWord)
    (read : statement depth setting (keyword :: tokens) = ⟨some s, rest, []⟩) :
    ∃ initial condition increment body,
      ReadsFor setting.coin tokens rest initial condition increment body ∧
        s = .forLoop initial condition increment body ∧
          ∀ machine : Machine, machine.Sound →
            (∀ fuel, executeFor initial condition increment body fuel machine ≠ .exhausted →
              ∀ more, fuel + 4 ≤ more →
                (executeFor initial condition increment body fuel machine).SpacedFrom .none machine
                  (execute more s machine)) ∧
            (∀ fuel, execute fuel s machine ≠ .exhausted →
              ∀ more, fuel + 4 ≤ more →
                (executeFor initial condition increment body more machine).SpacedFrom .none machine
                  (execute fuel s machine)) ∧
            ∀ spacing (after after' : Machine), after.Spaced spacing after' →
              ∀ fuel program, (interpret fuel program after).Spaced spacing
                { after' with current := after'.globals } (interpret fuel program after') := by
  obtain ⟨same, left, reply, dangling, derives, -⟩ :=
    (grammar_sound setting depth).statement (keyword :: tokens) (by rw [read])
  rw [read] at reply
  cases reply
  obtain ⟨initial, condition, increment, body, reads, rfl⟩ := derives.readsFor isFor
  have starts : ∀ first ∈ initial, first.Starts := by
    cases reads with
    | intro _ start _ _ _ _ _ => exact start.starts
  have bindsNothing : body.BindsNothing := by
    cases reads with
    | intro _ _ _ _ _ _ inner => exact inner.bindsNothing _ _ rfl
  refine ⟨initial, condition, increment, body, reads, rfl, fun machine sound => ⟨?_, ?_, ?_⟩⟩
  · intro fuel ends more enough
    obtain ⟨further, rfl⟩ := Nat.exists_eq_add_of_le enough
    obtain ⟨parts, least, -, same⟩ :=
      execute_forLoop (fuel + further) starts condition increment bindsNothing
    have less := (ForFuel.all_le (Nat.le_add_right fuel further)).trans least
    have ran := same .none machine machine (.none sound)
    rwa [(executeForWith_follows initial condition increment body less).ended ends,
      Nat.add_right_comm] at ran
  · intro fuel ends more enough
    obtain ⟨parts, -, most, same⟩ :=
      execute_forLoop fuel starts condition increment bindsNothing
    have ran := same .none machine machine (.none sound)
    rw [(execute_follows (Nat.le_add_right fuel 4) _).ended ends] at ran
    have less := most.trans (ForFuel.all_le enough)
    rwa [← (executeForWith_follows initial condition increment body less).ended
      (ran.ends ends)] at ran
  · exact fun spacing after after' machines fuel program => interpret_blind fuel program machines

/-- `for (var on = true; on; on = false) {}`, behind its keyword. -/
def switchedOff : List Token :=
  let on : Token := ⟨.identifier, "on", some (.identifier ⟨0, "on"⟩), 1⟩
  let equal : Token := ⟨.equal, "=", none, 1⟩
  let semicolon : Token := ⟨.semicolon, ";", none, 1⟩
  [⟨.leftParen, "(", none, 1⟩, ⟨.varWord, "var", none, 1⟩, on, equal, ⟨.trueWord, "true", none, 1⟩,
    semicolon, on, semicolon, on, equal, ⟨.falseWord, "false", none, 1⟩,
    ⟨.rightParen, ")", none, 1⟩, ⟨.leftBrace, "\x7b", none, 1⟩, ⟨.rightBrace, "\x7d", none, 1⟩]

open Grammar in
/-- One repetition, with a scope for the loop, a spacer, and a scope for the body. -/
theorem switchedOff_keeps_meaning :
    ∃ s initial condition increment body after,
      ReadsFor (fun _ => true) switchedOff [] initial condition increment body ∧
        execute 20 s .blank = .done .normal after ∧ after.heap.scopes.size = 4 ∧
          (executeFor initial condition increment body 24 .blank).SpacedFrom .none .blank
            (execute 20 s .blank) := by
  have sound : Machine.blank.Sound :=
    ⟨Heap.Sound.empty.addScope nofun nofun, by decide, by decide⟩
  let on : Name := ⟨⟨0, "on"⟩, 1⟩
  let s : Stmt := .forLoop (some (.var on (some (.constant (.bool true)))))
    (some (.variable on)) (some (.assign on (.constant (.bool false)))) (.block [])
  have read : statement 40 ⟨⟨1, .unknown⟩, fun _ => true⟩
      (⟨.forWord, "for", none, 1⟩ :: switchedOff) = ⟨some s, [], []⟩ := rfl
  obtain ⟨initial, condition, increment, body, reads, same, means⟩ := for_keeps_meaning rfl read
  have ran : execute 20 s .blank = .done .normal _ := rfl
  have back := (means .blank sound).2.1 20 (ran ▸ nofun) 24 (Nat.le_refl _)
  exact ⟨s, initial, condition, increment, body, _, reads, ran, rfl, back⟩

end Scriptlet
