import Scriptlet.Proofs.Run.Alone
import Scriptlet.Proofs.Store.Variables

/-!
Contract: what a run may change in the scopes that there were before it.

Owns: `Machine.KeepsScopes`, by which every scope still binds the same names, the
constants among them with the same values, and what had a value still has one;
and that this is all that expressions and statements do to scopes, declarations
apart (`evaluate_keeps`, `execute_keeps`, `declaration_binds`).

Does not own: how trees are walked (`Scriptlet.Proofs.Run.Lockstep`). The runs of
a machine are in step with themselves, in a lockstep whose quiet steps keep all
scopes and whose loud steps keep all but the current one.
-/

set_option autoImplicit false

namespace Scriptlet

/-! ## Scopes that are kept -/

/-- A constant keeps its value; a variable that has one keeps having one. -/
structure Binding.KeptAs (before after : Binding) : Prop where
  constant : after.constant = before.constant
  fixed : before.constant = true → after.value = before.value
  assigned : before.value.isSome → after.value.isSome

theorem Binding.KeptAs.refl (binding : Binding) : binding.KeptAs binding :=
  ⟨rfl, fun _ => rfl, id⟩

theorem Binding.KeptAs.trans {first second third : Binding} (earlier : first.KeptAs second)
    (later : second.KeptAs third) : first.KeptAs third where
  constant := later.constant.trans earlier.constant
  fixed isConstant :=
    (later.fixed (earlier.constant.trans isConstant)).trans (earlier.fixed isConstant)
  assigned hasValue := later.assigned (earlier.assigned hasValue)

/-- The same names are bound, and each binding is kept. -/
def Scope.KeptAs (before after : Scope) : Prop :=
  ∀ id : Nat, Option.Rel Binding.KeptAs before.bindings[id]? after.bindings[id]?

theorem Scope.KeptAs.refl (scope : Scope) : scope.KeptAs scope := by
  intro id
  cases scope.bindings[id]? with
  | none => exact .none
  | some binding => exact .some (.refl binding)

theorem Scope.KeptAs.trans {first second third : Scope} (earlier : first.KeptAs second)
    (later : second.KeptAs third) : first.KeptAs third := by
  intro id
  have before := earlier id
  have after := later id
  generalize first.bindings[id]? = one at before
  generalize second.bindings[id]? = two at before after
  generalize third.bindings[id]? = three at after
  cases before with
  | none =>
      cases after with
      | none => exact .none
  | some kept =>
      cases after with
      | some keptOn => exact .some (kept.trans keptOn)

/-- The scopes of the first machine that are chosen are kept in the second. -/
def Machine.KeepsChosen (chosen : ScopeId → Prop) (before after : Machine) : Prop :=
  ∀ id scope, chosen id → before.heap.scopes[id]? = some scope →
    ∃ later, after.heap.scopes[id]? = some later ∧ scope.KeptAs later

/-- Every scope of the first machine is kept in the second. -/
def Machine.KeepsScopes (before after : Machine) : Prop :=
  before.KeepsChosen (fun _ => True) after

theorem Machine.KeepsChosen.of_eq {chosen : ScopeId → Prop} {before after : Machine}
    (same : after.heap.scopes = before.heap.scopes) : before.KeepsChosen chosen after := by
  intro id scope _ found
  exact ⟨scope, by rw [same, found], .refl scope⟩

theorem Machine.KeepsChosen.trans {chosen : ScopeId → Prop} {first second third : Machine}
    (earlier : first.KeepsChosen chosen second) (later : second.KeepsChosen chosen third) :
    first.KeepsChosen chosen third := by
  intro id scope isChosen found
  obtain ⟨middle, foundMiddle, kept⟩ := earlier id scope isChosen found
  obtain ⟨last, foundLast, keptOn⟩ := later id middle isChosen foundMiddle
  exact ⟨last, foundLast, kept.trans keptOn⟩

/-- An assignment keeps every scope. -/
theorem Machine.keeps_assign {machine : Machine} {symbol : Symbol} {owner : ScopeId}
    (assignable : machine.heap.assignable machine.current symbol = .ok owner) (value : Value) :
    machine.KeepsScopes
      { machine with heap := machine.heap.bind owner symbol ⟨some value, false⟩ } := by
  obtain ⟨scope, binding, found, bound, noConstant⟩ := Heap.assignable_found assignable
  intro id earlier _ foundEarlier
  by_cases isOwner : owner = id
  · subst isOwner
    cases found.symm.trans foundEarlier
    refine ⟨scope.bind symbol ⟨some value, false⟩, ?_, fun id => ?_⟩
    · rw [Heap.bind_getElem?, if_pos rfl, found]
      rfl
    · rw [Scope.bind_getElem?]
      split
      next same =>
        subst same
        have bound : scope.bindings[symbol.id]? = some binding := bound
        rw [bound]
        exact .some ⟨noConstant.symm, fun isConstant => by simp [noConstant] at isConstant,
          fun _ => rfl⟩
      next => exact Scope.KeptAs.refl scope id
  · exact ⟨earlier, by rw [Heap.bind_getElem?, if_neg isOwner, foundEarlier], .refl earlier⟩

/-- A binding made in a scope keeps all other scopes. -/
theorem Machine.keeps_bind (machine : Machine) (owner : ScopeId) (symbol : Symbol)
    (binding : Binding) :
    machine.KeepsChosen (· ≠ owner)
      { machine with heap := machine.heap.bind owner symbol binding } := by
  intro id scope other found
  exact ⟨scope, by rw [Heap.bind_getElem?, if_neg other.symm, found], .refl scope⟩

/-! ## Code that is kept -/

/-- The body of a function has its declarations where they may stand. -/
def Function.Placed : Function → Prop
  | .clock => True
  | .closure _ _ body _ => ∀ s ∈ body, s.Placed

/-- So have all functions of a machine. -/
def Machine.Placed (machine : Machine) : Prop :=
  ∀ (id : FunctionId) (function : Function), machine.heap.functions[id]? = some function →
    function.Placed

theorem Machine.Placed.of_eq {before after : Machine} (placed : before.Placed)
    (same : after.heap.functions = before.heap.functions) : after.Placed := by
  intro id function found
  rw [same] at found
  exact placed id function found

theorem Machine.Placed.addFunction {machine : Machine} (placed : machine.Placed)
    {function : Function} (new : function.Placed) :
    Machine.Placed { machine with heap := machine.heap.addFunction function } := by
  intro id other found
  have found : (machine.heap.functions.push function)[id]? = some other := found
  rw [Array.getElem?_push] at found
  split at found
  · cases found
    exact new
  · exact placed id other found

/-! ## The lockstep -/

/-- A machine in step with itself. Its functions are placed; a quiet step keeps
every scope, a loud one all but the current one. -/
def keeping : Lockstep where
  symbols := Eq
  value := Eq
  machine left right := left = right ∧ left.Placed
  step
    | .quiet, before, after => before.Stays after ∧ before.KeepsScopes after
    | .loud, before, after =>
        before.Stays after ∧ before.KeepsChosen (· ≠ before.current) after

theorem keeping_refl (noise : Noise) (machine : Machine) : keeping.step noise machine machine := by
  cases noise with
  | quiet => exact ⟨.of_eq rfl rfl rfl, .of_eq rfl⟩
  | loud => exact ⟨.of_eq rfl rfl rfl, .of_eq rfl⟩

theorem keeping_trans {noise : Noise} {first second third : Machine}
    (earlier : keeping.step noise first second) (later : keeping.step noise second third) :
    keeping.step noise first third := by
  cases noise with
  | quiet => exact ⟨earlier.1.trans later.1, earlier.2.trans later.2⟩
  | loud =>
      refine ⟨earlier.1.trans later.1, earlier.2.trans ?_⟩
      have keeps := later.2
      rw [earlier.1.inScope.1] at keeps
      exact keeps

theorem placed_alike {body : List Stmt} (placed : ∀ s ∈ body, s.Placed) :
    List.Forall₂ (Stmt.Alike Eq) body body :=
  List.forall₂_same.mpr placed

/-- Placed functions are kept by every change, and so are the scopes: by a quiet step
all, by a loud one all but the current one. -/
theorem placed_keeps : Lockstep.Keeps Eq Machine.Placed keeping.step where
  refl := keeping_refl
  trans := keeping_trans
  louder stepped := ⟨stepped.1, fun id scope _ => stepped.2 id scope trivial⟩
  equal := id
  untouched placed scopes functions stays := ⟨placed.of_eq functions, stays, .of_eq scopes⟩
  assign value placed _ assignable :=
    ⟨placed.of_eq rfl, .of_eq rfl rfl rfl, Machine.keeps_assign assignable value⟩
  declare binding placed _ :=
    ⟨placed.of_eq rfl, .of_eq rfl rfl rfl, Machine.keeps_bind _ _ _ binding⟩
  newClosure := by
    intro before parameters body name placed _ statements
    have inner : ∀ s ∈ body, s.Alike Eq s := List.forall₂_same.mp statements
    have new : (Function.closure name parameters body before.current).Placed := inner
    exact ⟨placed.addFunction new, .of_eq rfl rfl rfl, .of_eq rfl⟩
  closure placed found :=
    ⟨List.forall₂_same.mpr fun _ _ => ⟨rfl, rfl⟩, placed_alike (placed _ _ found)⟩
  entering _ _ placed _ := placed.of_eq rfl
  leaving := by
    intro before after scope placed stepped
    refine ⟨placed.of_eq rfl, ⟨⟨rfl, stepped.1.inScope.2⟩, stepped.1.unlimited⟩,
      fun id kept _ found => ?_⟩
    -- only the new scope is not kept, and it is not one of those before
    have old : id < before.heap.scopes.size := (Array.getElem?_eq_some_iff.mp found).1
    refine stepped.2 id kept (Nat.ne_of_lt old) ?_
    rw [Machine.entering, Heap.addScope_getElem?, if_neg (Nat.ne_of_lt old), found]

theorem keeping_lawful : keeping.Lawful :=
  alone_lawful placed_keeps

/-! ## Runs -/

/-- Scopes are kept at first; then a name is bound in the scope that was current. -/
def Machine.Declares (before : Machine) (name : Name) (after : Machine) : Prop :=
  ∃ middle binding, before.KeepsScopes middle ∧
    after.heap.scopes = (middle.heap.bind before.current name.symbol binding).scopes

/-- What a declaration may leave: with an abort, its name is not bound. -/
def Outcome.Binds {α : Type} (before : Machine) (name : Name) : Outcome α → Prop
  | .done _ after => after.Placed ∧ before.Declares name after
  | .aborted _ after => after.Placed ∧ before.KeepsScopes after
  | .exhausted => True

section Runs

variable {machine : Machine}

theorem InStep.keeps {α β : Type} {relation : α → β → Prop} {run : Run α} {run' : Run β}
    (inStep : InStep keeping .quiet relation run run') (placed : machine.Placed) :
    (run machine).Leaves fun after => after.Placed ∧ machine.KeepsScopes after :=
  (inStep.leaves_alone placed).mono fun _ left => ⟨left.1, left.2.2⟩

theorem evaluate_keeps (placed : machine.Placed) (fuel : Nat) {e : Expr} (inner : e.Placed) :
    (evaluate fuel e machine).Leaves fun after => after.Placed ∧ machine.KeepsScopes after :=
  ((fuelInStep keeping_lawful fuel).expression inner).keeps placed

theorem execute_keeps (placed : machine.Placed) (fuel : Nat) {s : Stmt} (inner : s.Placed)
    (noDeclaration : s.isDeclaration = false) :
    (execute fuel s machine).Leaves fun after => after.Placed ∧ machine.KeepsScopes after :=
  ((fuelInStep keeping_lawful fuel).body inner noDeclaration).keeps placed

/-- A name is bound to what a quiet run has computed. -/
theorem binds_after (placed : machine.Placed) {initial : Run Value}
    (quiet : InStep keeping .quiet Eq initial initial) (name : Name) (binding : Value → Binding) :
    Outcome.Binds machine name
      ((initial >>= fun value => Run.declare name (binding value) >>= fun _ =>
        pure Flow.normal) machine) := by
  have here := quiet machine machine ⟨rfl, placed⟩
  show Outcome.Binds machine name (Run.bind initial _ machine)
  unfold Run.bind
  generalize initial machine = outcome at here
  cases here with
  | @done value _ middle _ same machines stepped =>
      refine ⟨machines.2.of_eq rfl, middle, binding value, stepped.2, ?_⟩
      rw [← stepped.1.inScope.1]
  | aborted machines stepped => exact ⟨machines.2, stepped.2⟩
  | exhausted => trivial

/-- A declaration binds one name, after it has run its initializer. -/
theorem declaration_binds (placed : machine.Placed) (fuel : Nat) {s : Stmt} (inner : s.Placed)
    {name : Name} (declares : s.declared? = some name) :
    Outcome.Binds machine name (execute fuel s machine) := by
  cases fuel with
  | zero => trivial
  | succ fuel =>
      have expression := @(fuelInStep keeping_lawful fuel).expression
      cases inner with
      | unbound =>
          cases declares
          exact ⟨placed.of_eq rfl, machine, ⟨none, false⟩, .of_eq rfl, rfl⟩
      | bound _ initial =>
          cases declares
          exact binds_after placed (expression initial) name fun value => ⟨some value, false⟩
      | const _ initial =>
          cases declares
          exact binds_after placed (expression initial) name fun value => ⟨some value, true⟩
      | function target parameters statements =>
          cases declares
          have made := keeping_lawful.newClosure (.some target) parameters statements
          exact binds_after placed made name fun value => ⟨some value, false⟩
      | _ => cases declares

/-- The functions of a program are placed, if its statements are, and its output is
not limited unless it was. -/
theorem interpret_placed (placed : machine.Placed) (fuel : Nat) {program : List Stmt}
    (inner : ∀ s ∈ program, s.Placed) :
    (interpret fuel program machine).Leaves fun after =>
      after.Placed ∧ (machine.output.room = none → after.output.room = none) := by
  have entered : Machine.Placed { machine with current := machine.globals } := placed.of_eq rfl
  exact (interpret_alone placed_keeps fuel inner entered).mono fun _ left =>
    ⟨left.1, left.2.1.unlimited⟩

end Runs

end Scriptlet
