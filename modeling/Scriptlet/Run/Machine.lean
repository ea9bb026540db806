import Scriptlet.Run.Output
import Scriptlet.Store.Display

/-!
Contract: the state of a running program, and computations on it.

Owns: `Machine`; `Outcome`, in which an early end keeps the state it came at;
`Run` and its sequencing; and the steps that touch the machine: variables, new
objects, printing, and running in a new scope.

A run has three ends: a value, an abort, and the want of fuel. Only the last
one has no state.
-/

set_option autoImplicit false

namespace Scriptlet

/-- A supply of readings, and how many of them were taken. A reading is in milliseconds,
or says why there is none. -/
structure Clock where
  readings : Nat → Except String Nat
  taken : Nat

namespace Clock

/-- The next reading. -/
def now (clock : Clock) : Except String Nat :=
  clock.readings clock.taken

def tick (clock : Clock) : Clock :=
  { clock with taken := clock.taken + 1 }

end Clock

structure Machine where
  heap : Heap
  globals : ScopeId
  current : ScopeId
  output : Output
  clock : Clock

inductive Outcome (α : Type) where
  | done (value : α) (machine : Machine)
  | aborted (cause : Abort) (machine : Machine)
  | exhausted

namespace Outcome

/-- Makes `scope` the current one, whatever the outcome. -/
@[inline] def inScope {α : Type} (outcome : Outcome α) (scope : ScopeId) : Outcome α :=
  match outcome with
  | done value machine => done value { machine with current := scope }
  | aborted cause machine => aborted cause { machine with current := scope }
  | exhausted => exhausted

end Outcome

def Run (α : Type) : Type :=
  Machine → Outcome α

namespace Run

@[inline] def bind {α β : Type} (first : Run α) (next : α → Run β) : Run β :=
  fun machine =>
    match first machine with
    | .done value machine => next value machine
    | .aborted cause machine => .aborted cause machine
    | .exhausted => .exhausted

instance : Monad Run where
  pure value := fun machine => .done value machine
  bind := bind

instance : LawfulMonad Run :=
  LawfulMonad.mk' Run
    (by
      intro α run
      funext machine
      show bind run (fun value => pure (id value)) machine = run machine
      unfold bind
      cases run machine <;> rfl)
    (fun _ _ => rfl)
    (by
      intro α β γ first second third
      funext machine
      show bind (bind first second) third machine =
        bind first (fun value => bind (second value) third) machine
      unfold bind
      cases first machine <;> rfl)

def exhausted {α : Type} : Run α :=
  fun _ => .exhausted

def fault {α : Type} (site : Site) (cause : Fault) : Run α :=
  fun machine => .aborted (.fault site cause) machine

/-- The value computed, or the fault at a site. -/
def ofExcept {α : Type} (site : Site) : Except Fault α → Run α
  | .ok value => pure value
  | .error cause => fault site cause

/-! ## Variables -/

def lookup (name : Name) : Run Value :=
  fun machine =>
    match machine.heap.lookup machine.current name.symbol with
    | .ok value => .done value machine
    | .error cause => .aborted (.fault name.site cause) machine

/-- Assigns to a name. The heap is what the attempt leaves in either case. -/
def assign (name : Name) (value : Value) : Run Unit :=
  fun machine =>
    match Heap.assign machine.current name.symbol value machine.heap with
    | .ok () heap => .done () { machine with heap }
    | .error cause heap => .aborted (.fault name.site cause) { machine with heap }

/-- Binds a name in the current scope. -/
def declare (name : Name) (binding : Binding) : Run Unit :=
  fun machine =>
    .done () { machine with heap := machine.heap.bind machine.current name.symbol binding }

/-! ## Objects -/

def newCollection (values : List Value) (mutable : Bool) : Run Value :=
  fun machine =>
    .done (.collection machine.heap.collections.size)
      { machine with heap := machine.heap.addCollection (.ofList values mutable) }

/-- Code with the current scope. -/
def newClosure (name : Option Name) (parameters : List Name) (body : List Stmt) : Run Value :=
  fun machine =>
    .done (.function machine.heap.functions.size)
      { machine with
        heap := machine.heap.addFunction (.closure name parameters body machine.current) }

/-- Reads the clock, for a call at a site. -/
def readClock (site : Site) : Run Value :=
  fun machine =>
    let machine' := { machine with clock := machine.clock.tick }
    match machine.clock.now with
    | .ok milliseconds => .done (.number (Float.ofNat milliseconds)) machine'
    | .error message => .aborted (.fault site (.native message)) machine'

def display (value : Value) : Run String :=
  fun machine => .done (machine.heap.display value) machine

/-! ## Output -/

/-- Prints a value and ends the line. -/
def print (value : Value) : Run Unit :=
  fun machine =>
    let text := machine.heap.display value ++ "\n"
    if machine.output.fits text then
      .done () { machine with output := machine.output.write text }
    else .aborted .outputFull { machine with output := machine.output.write text }

/-! ## Scopes -/

/-- Runs `body` in a new scope. Afterwards the current scope is what it was,
whatever the outcome. -/
def inNewScope {α : Type} (scope : Scope) (body : Run α) : Run α :=
  fun machine =>
    let current := machine.current
    let inner := machine.heap.scopes.size
    (body { machine with heap := machine.heap.addScope scope, current := inner }).inScope current

/-- Runs `body` in a new scope inside the current one. -/
def nested {α : Type} (body : Run α) : Run α :=
  fun machine => inNewScope (.empty (some machine.current)) body machine

end Run

end Scriptlet
