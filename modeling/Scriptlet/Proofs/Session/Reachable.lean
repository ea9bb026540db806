import Scriptlet.Proofs.Grammar.ParallelRules
import Scriptlet.Proofs.Run.Bindings
import Scriptlet.Proofs.Session.Runs

/-!
Contract: the sessions there are.

Owns: `Session.Reachable`, the sessions that operations lead to from a new one;
and `only_declarations_bind`, by which no scope of such a session comes to bind
other names unless a declaration is executed in it.

Does not own: what runs do to scopes (`Scriptlet.Proofs.Run.Bindings`), and where
declarations stand in what is parsed (`Scriptlet.Proofs.Grammar.ParallelRules`).
The first needs the second, and both meet here: the functions that a session
keeps were parsed by it.
-/

set_option autoImplicit false

namespace Scriptlet

/-- The sessions that operations lead to, from a new one. An evaluation counts
whatever its result, and however the coins for its source fall. -/
inductive Session.Reachable : Session → Prop where
  | start (clock : Clock) : Session.Reachable (.start clock)
  | eval {session : Session} {fuel : Nat} {coin : Nat → Bool} {source : String}
      {evaluation : Evaluation} (before : session.Reachable)
      (ends : session.eval? fuel coin source = some evaluation) :
      Session.Reachable evaluation.session
  | reset {session : Session} (before : session.Reachable) : Session.Reachable session.reset
  | takeDiagnostics {session : Session} (before : session.Reachable) :
      Session.Reachable session.takeDiagnostics.2
  | takeOutput {session : Session} (before : session.Reachable) :
      Session.Reachable session.takeOutput.2
  | limitOutput {session : Session} (before : session.Reachable) (room : Option Nat) :
      Session.Reachable (session.limitOutput room)
  | setClock {session : Session} (before : session.Reachable) (clock : Clock) :
      Session.Reachable (session.setClock clock)

/-- A property of the machines that outcomes leave holds of the session after an
evaluation. -/
theorem Outcome.Leaves.evaluation {property : Machine → Prop} {evaluation : Evaluation}
    (leaves : evaluation.outcome.Leaves property) : property evaluation.session.machine := by
  unfold Evaluation.outcome at leaves
  cases result : evaluation.result with
  | ok values => simpa only [result, Outcome.Leaves] using leaves
  | error cause => simpa only [result, Outcome.Leaves] using leaves

/-! ## Placed functions -/

theorem Machine.Placed.renewGlobals {machine : Machine} (placed : machine.Placed) (clock : Symbol) :
    (machine.renewGlobals clock).Placed := by
  have added : Machine.Placed { machine with heap := machine.heap.addFunction .clock } :=
    placed.addFunction trivial
  exact added.of_eq rfl

/-- What an evaluation leaves. All that it runs was parsed. -/
theorem eval?_leaves {session : Session} (placed : session.machine.Placed) {fuel : Nat}
    {coin : Nat → Bool} {source : String} {evaluation : Evaluation}
    (ends : session.eval? fuel coin source = some evaluation) :
    evaluation.session.machine.Placed ∧ (session.machine.output.room = none →
      evaluation.session.machine.output.room = none) := by
  rw [Session.eval?_eq] at ends
  have inner := Grammar.parse_placed coin (scan session.symbols source).tokens
  have leaves := interpret_placed placed fuel inner
  have outcome := (record?_eq_some.mp ends).2
  exact Outcome.Leaves.evaluation (outcome ▸ leaves)

/-- The functions that a session keeps are those it has parsed. -/
theorem Session.Reachable.placed {session : Session} (reachable : session.Reachable) :
    session.machine.Placed := by
  induction reachable with
  | start clock =>
      refine Machine.Placed.renewGlobals (fun id function found => ?_) _
      simp [Heap.empty] at found
  | eval before ends inductionHypothesis => exact (eval?_leaves inductionHypothesis ends).1
  | reset before inductionHypothesis => exact inductionHypothesis.renewGlobals _
  | takeDiagnostics before inductionHypothesis => exact inductionHypothesis
  | takeOutput before inductionHypothesis => exact inductionHypothesis.of_eq rfl
  | limitOutput before room inductionHypothesis => exact inductionHypothesis.of_eq rfl
  | setClock before clock inductionHypothesis => exact inductionHypothesis.of_eq rfl

/-- **Only declarations bind names.** All that is parsed, and all functions of a
reachable session, have their declarations where they may stand, and runs keep
it so. Where that is so, an expression keeps every scope, and so does a statement
that is not a declaration; a declaration does, but for the one binding that it
makes in the current scope. -/
theorem only_declarations_bind :
    (∀ coin tokens, ∀ s ∈ (parse coin tokens).program, s.Placed) ∧
    (∀ session : Session, session.Reachable → session.machine.Placed) ∧
    ∀ (fuel : Nat) (machine : Machine), machine.Placed →
      (∀ e : Expr, e.Placed → (evaluate fuel e machine).Leaves fun after =>
        after.Placed ∧ machine.KeepsScopes after) ∧
      (∀ s : Stmt, s.Placed → s.isDeclaration = false →
        (execute fuel s machine).Leaves fun after =>
          after.Placed ∧ machine.KeepsScopes after) ∧
      (∀ s : Stmt, s.Placed → ∀ name, s.declared? = some name →
        Outcome.Binds machine name (execute fuel s machine)) := by
  refine ⟨Grammar.parse_placed, fun session => Session.Reachable.placed, ?_⟩
  intro fuel machine placed
  refine ⟨?_, ?_, ?_⟩
  · intro e inner
    exact evaluate_keeps placed fuel inner
  · intro s inner noDeclaration
    exact execute_keeps placed fuel inner noDeclaration
  · intro s inner name declares
    exact declaration_binds placed fuel inner declares

/-- A block with a constant `x` and an assignment to it. -/
def constantAssigned : Stmt :=
  .block [.const ⟨⟨30, "x"⟩, 1⟩ (.constant .nil),
    .expression (.assign ⟨⟨30, "x"⟩, 2⟩ (.constant (.bool true)))]

set_option maxRecDepth 2000 in
/-- In a new session, the constant stays in the scope of the block. -/
theorem constantAssigned_keeps :
    ∃ after, execute 4 constantAssigned Session.blank.machine =
        .aborted (.fault ⟨2, .lexeme "x"⟩ (.constantReassigned "x")) after ∧
      Session.blank.machine.KeepsScopes after := by
  have before := only_declarations_bind.2.1 Session.blank (.start _)
  have ran : execute 4 constantAssigned Session.blank.machine =
      .aborted (.fault ⟨2, .lexeme "x"⟩ (.constantReassigned "x"))
        { Session.blank.machine with
          heap := (Session.blank.machine.heap.addScope (.empty (some 0))).bind 1
            ⟨30, "x"⟩ ⟨some .nil, true⟩ } := rfl
  have name : Name.Alike Eq ⟨⟨30, "x"⟩, 1⟩ ⟨⟨30, "x"⟩, 1⟩ := ⟨rfl, rfl⟩
  have later : Name.Alike Eq ⟨⟨30, "x"⟩, 2⟩ ⟨⟨30, "x"⟩, 2⟩ := ⟨rfl, rfl⟩
  have placed : constantAssigned.Placed := .block (.cons (.const name (.constant .nil))
    (.cons (.expression (.assign later (.constant (.bool true)))) .nil))
  -- The machine is made a variable, lest the run be evaluated again.
  generalize Session.blank.machine = machine at before ran ⊢
  have kept := (only_declarations_bind.2.2 4 machine before).2.1 constantAssigned placed rfl
  rw [ran] at kept
  exact ⟨_, ran, kept.2⟩

end Scriptlet
