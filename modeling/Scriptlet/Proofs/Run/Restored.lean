import Scriptlet.Proofs.Run.Follows

/-!
Contract: the current scope after a run, whatever its outcome.

Owns: `Outcome.Leaves`, a property of the machine that an outcome leaves, and
`run_restores_current_scope`: expressions, statements and all that they are made
of leave a machine in the scope they found it in, and a program leaves it in the
global scope.

Does not own: the induction over expressions and statements, which is that of
`Scriptlet.Proofs.Run.Follows`.
-/

set_option autoImplicit false

namespace Scriptlet

/-- The machine that an outcome leaves, if there is one, has the property. An
abort leaves a machine like any other end. -/
def Outcome.Leaves {α : Type} (property : Machine → Prop) : Outcome α → Prop
  | .done _ after => property after
  | .aborted _ after => property after
  | .exhausted => True

theorem Outcome.Leaves.mono {α : Type} {outcome : Outcome α} {stronger weaker : Machine → Prop}
    (leaves : outcome.Leaves stronger) (weaken : ∀ after, stronger after → weaker after) :
    outcome.Leaves weaker := by
  cases outcome with
  | done _ after => exact weaken after leaves
  | aborted _ after => exact weaken after leaves
  | exhausted => trivial

theorem Outcome.leaves_staysIn {α : Type} {before : Machine} {outcome : Outcome α}
    (stays : outcome.StaysIn before) : outcome.Leaves before.StaysIn := by
  cases outcome <;> exact stays

/-- A run that something follows leaves the current scope as it was. -/
theorem Follows.restores {α : Type} {line : Nat → Nat} {exact : Prop} {run changed : Run α}
    (follows : Follows line exact run changed) (machine : Machine) :
    (run machine).Leaves fun after => after.current = machine.current :=
  (Outcome.leaves_staysIn (follows.stays machine)).mono fun _ stays => stays.1

theorem fuelFollows_self (fuel : Nat) : FuelFollows id True fuel fuel :=
  fuelFollows (Nat.le_refl fuel) fun _ => rfl

/-- A program ends in the global scope, which is the one it began with. -/
theorem interpret_restores (fuel : Nat) (program : List Stmt) (machine : Machine) :
    (interpret fuel program machine).Leaves fun after =>
      after.current = after.globals ∧ after.globals = machine.globals := by
  have follows : Follows id True (interpretAll fuel program [])
      (interpretAll fuel (relabel id program) []) :=
    interpretAll_follows (Nat.le_refl fuel) (fun _ => rfl) program []
  have stays := follows.stays { machine with current := machine.globals }
  refine (Outcome.leaves_staysIn stays).mono fun after staysIn => ?_
  exact ⟨staysIn.1.trans staysIn.2.symm, staysIn.2⟩

/-- **The current scope is restored.** Whatever is run, and whether it ends with a
value, with a jump, or with an abort at any depth, the current scope is the one
in which it began. A program ends in the global scope. -/
theorem run_restores_current_scope (fuel : Nat) (machine : Machine) :
    (∀ e, (evaluate fuel e machine).Leaves fun after => after.current = machine.current) ∧
    (∀ s, (execute fuel s machine).Leaves fun after => after.current = machine.current) ∧
    (∀ list, (Run.sequence (execute fuel) list machine).Leaves fun after =>
      after.current = machine.current) ∧
    (∀ rule cases, (Run.switch (evaluate fuel) (execute fuel) rule cases machine).Leaves
      fun after => after.current = machine.current) ∧
    (∀ body, (Run.nested (Run.sequence (execute fuel) body) machine).Leaves fun after =>
      after.current = machine.current) ∧
    (∀ callee arguments site, (Run.call (execute fuel) callee arguments site machine).Leaves
      fun after => after.current = machine.current) ∧
    (∀ program, (interpret fuel program machine).Leaves fun after =>
      after.current = after.globals ∧ after.globals = machine.globals) := by
  have parts := fuelFollows_self fuel
  refine ⟨fun e => ?_, fun s => ?_, fun list => ?_, fun rule cases => ?_, fun body => ?_,
    fun callee arguments site => ?_, fun program => ?_⟩
  · exact (parts.expression e).restores machine
  · exact (parts.statement s).restores machine
  · exact (Follows.sequence parts.statement list).restores machine
  · exact (Follows.switch parts.expression parts.statement rule cases).restores machine
  · exact (Follows.nested (Follows.sequence parts.statement body)).restores machine
  · exact (Follows.call parts.statement callee arguments site).restores machine
  · exact interpret_restores fuel program machine

end Scriptlet
