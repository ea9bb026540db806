import Scriptlet.Proofs.Run.Follows

/-!
Contract: programs run in two parts.

Owns: the law of programs put together (`interpret_append`), by which the
second part runs on the machine that the first one leaves; the law of changed
lines (`interpret_relabel`); and that a program that ends does not depend on its
fuel (`interpret_fuel`).

Does not own: single statements and expressions (`Scriptlet.Proofs.Run.Follows`).
-/

set_option autoImplicit false

namespace Scriptlet

/-! ## Values of earlier statements -/

theorem interpretAll_append (fuel : Nat) (first second : List Stmt) (values : List Value) :
    interpretAll fuel (first ++ second) values =
      interpretAll fuel first values >>= fun earlier =>
        interpretAll fuel second earlier.reverse := by
  induction first generalizing values with
  | nil => simp [interpretAll]
  | cons statement rest inductionHypothesis =>
      rw [List.cons_append, interpretAll_cons, interpretAll_cons, bind_assoc]
      exact bind_congr fun value => inductionHypothesis (value.toList ++ values)

/-- The values of a program come after those of the statements before it. -/
theorem interpretAll_values (fuel : Nat) (program : List Stmt) (values : List Value) :
    interpretAll fuel program values =
      interpretAll fuel program [] >>= fun later => pure (values.reverse ++ later) := by
  induction program generalizing values with
  | nil => simp [interpretAll]
  | cons statement rest inductionHypothesis =>
      rw [interpretAll_cons, interpretAll_cons, bind_assoc]
      refine bind_congr fun value => ?_
      rw [inductionHypothesis (value.toList ++ values), inductionHypothesis (value.toList ++ []),
        bind_assoc]
      cases value <;> simp

/-! ## Programs -/

/-- A program ends in the scope it runs in. -/
theorem interpret_current {fuel : Nat} {program : List Stmt} {machine after : Machine}
    {values : List Value} (done : interpret fuel program machine = .done values after) :
    after.current = after.globals := by
  have follows : Follows id True (interpretAll fuel program [])
      (interpretAll fuel (relabel id program) []) :=
    interpretAll_follows (Nat.le_refl fuel) (fun _ => rfl) program []
  have stays := follows.stays { machine with current := machine.globals }
  rw [show interpretAll fuel program [] { machine with current := machine.globals } =
    .done values after from done] at stays
  exact stays.1.trans stays.2.symm

/-- **Two parts of a program run one after the other.** -/
theorem interpret_append (fuel : Nat) (first second : List Stmt) :
    interpret fuel (first ++ second) =
      interpret fuel first >>= fun earlier =>
        interpret fuel second >>= fun later => pure (earlier ++ later) := by
  funext machine
  let entered : Machine := { machine with current := machine.globals }
  show interpretAll fuel (first ++ second) [] entered = _
  rw [interpretAll_append]
  show Run.bind (interpretAll fuel first []) _ entered =
    Run.bind (interpretAll fuel first []) _ entered
  cases outcome : interpretAll fuel first [] entered with
  | done earlier after =>
      have home : { after with current := after.globals } = after :=
        congrArg (fun scope => { after with current := scope }) (interpret_current outcome).symm
      simp only [Run.bind, outcome]
      rw [interpretAll_values, List.reverse_reverse]
      show Run.bind (interpretAll fuel second []) _ after = Run.bind (interpret fuel second) _ after
      simp only [Run.bind, interpret, home]
  | aborted cause after => simp only [Run.bind, outcome]
  | exhausted => simp only [Run.bind, outcome]

/-- Changed lines change nothing but lines. -/
theorem interpret_relabel (line : Nat → Nat) (fuel : Nat) (program : List Stmt)
    (machine : Machine) :
    interpret fuel (relabel line program) (relabel line machine) =
      relabel line (interpret fuel program machine) :=
  (interpretAll_follows (Nat.le_refl fuel) (fun _ => rfl) program []).carries
    { machine with current := machine.globals } (Or.inl trivial)

/-- More fuel changes nothing for a program that ends. -/
theorem interpret_fuel {fuel other : Nat} (less : fuel ≤ other) {program : List Stmt}
    {machine : Machine} (ends : interpret fuel program machine ≠ .exhausted) :
    interpret other program machine = interpret fuel program machine := by
  have follows : Follows id False (interpretAll fuel program [])
      (interpretAll other (relabel id program) []) :=
    interpretAll_follows less False.elim program []
  have same := follows.carries { machine with current := machine.globals } (Or.inr ends)
  rwa [relabel_id, relabel_id, relabel_id] at same

end Scriptlet
