import Scriptlet.Proofs.Run.Course
import Scriptlet.Proofs.Store.Sound
import Scriptlet.Session

/-!
Contract: the changes of a machine, step by step.

Whatever is run, the machine changes in a few ways only: a name is bound, an object is
added, the entries of a collection are changed, another scope is made current, the output
or the clock goes on, and between runs there may be new globals.

Owns: `Machine.Step`; `Machine.Reaches`, any number of steps; what steps keep
(`Machine.Step.keeps`, `Machine.Step.sound`); and the step at which something was made
(`Machine.Reaches.took`, with `Machine.Step.renews` and `Machine.Step.closes`).

Does not own: which heaps are sound (`Scriptlet.Proofs.Store.Sound`), and that runs go by
steps (`Scriptlet.Proofs.Run.Stepwise`).

## Why a step says what is there

A heap stays sound only if what is added to it points at objects that exist. So each step
says so of all that it adds, and whoever takes it has to know.
-/

set_option autoImplicit false

namespace Scriptlet

namespace Machine

/-! ## Steps -/

/-- Nothing that the machine and its heap point to is missing. -/
structure Sound (machine : Machine) : Prop where
  heap : machine.heap.Sound
  globals : machine.globals < machine.heap.scopes.size
  current : machine.current < machine.heap.scopes.size

/-- A single change of a machine. -/
inductive Step (before : Machine) : Machine → Prop where
  -- Scopes
  | bind (owner : ScopeId) (symbol : Symbol) (binding : Binding)
      (there : ∀ value, binding.value = some value → value.Exists before.heap) :
      Step before { before with heap := before.heap.bind owner symbol binding }
  | enter {scope : Scope} {parent : ScopeId} (inside : scope.parent = some parent)
      (there : parent < before.heap.scopes.size) (bound : scope.Holds (Value.Exists before.heap)) :
      Step before (before.entering scope)
  | leave {scope : ScopeId} (there : scope < before.heap.scopes.size) :
      Step before { before with current := scope }
  -- Other objects
  | newCollection {values : List Value} (there : ∀ value ∈ values, value.Exists before.heap)
      (mutable : Bool) :
      Step before { before with heap := before.heap.addCollection (.ofList values mutable) }
  | newClosure (name : Option Name) (parameters : List Name) (body : List Stmt)
      (there : before.current < before.heap.scopes.size) :
      Step before { before with
        heap := before.heap.addFunction (.closure name parameters body before.current) }
  | change {id : CollectionId} {c changed : Collection}
      (found : before.heap.collections[id]? = some c)
      (becomes : c.Becomes (Value.Exists before.heap) changed) :
      Step before { before with heap := before.heap.setCollection id changed }
  -- What is not on the heap
  | output (output : Output) : Step before { before with output }
  | clock (clock : Clock) : Step before { before with clock }
  -- Between runs
  | renew (clock : Symbol) : Step before (before.renewGlobals clock)

/-- Any number of steps. -/
def Reaches : Machine → Machine → Prop :=
  Relation.ReflTransGen Step

variable {before middle after : Machine}

/-! ## What steps keep -/

theorem renewGlobals_keeps (machine : Machine) (clock : Symbol) :
    machine.heap.Keeps (machine.renewGlobals clock).heap :=
  (Heap.Keeps.addFunction machine.heap .clock).trans (.addScope _ _)

theorem renewGlobals_sound {machine : Machine} (sound : machine.heap.Sound) (clock : Symbol) :
    (machine.renewGlobals clock).Sound := by
  have added : (machine.heap.addFunction .clock).Sound :=
    sound.addFunction fun _ isScope => by cases isScope
  have bound : ((Scope.empty none).bind clock
      ⟨some (.function machine.heap.functions.size), false⟩).Holds
        (Value.Exists (machine.heap.addFunction .clock)) := by
    refine (Scope.holds_empty none).bind clock fun value isValue => ?_
    cases isValue
    exact size_lt_push machine.heap.functions .clock
  have last : machine.heap.scopes.size < (machine.renewGlobals clock).heap.scopes.size :=
    size_lt_push machine.heap.scopes _
  exact ⟨added.addScope (fun _ isParent => by cases isParent) bound, last, last⟩

namespace Step

/-- A step leaves parents, functions and the mutability of collections as they are. -/
theorem keeps (step : before.Step after) : before.heap.Keeps after.heap := by
  cases step with
  | bind owner symbol binding there => exact .bind _ owner symbol binding
  | enter inside there bound => exact .addScope _ _
  | newCollection there mutable => exact .addCollection _ _
  | newClosure name parameters body there => exact .addFunction _ _
  | change found becomes => exact .setCollection found becomes.mutable
  | renew clock => exact before.renewGlobals_keeps clock
  | leave | output | clock => exact .refl _

theorem heap_sound (step : before.Step after) (sound : before.heap.Sound) : after.heap.Sound := by
  cases step with
  | bind owner symbol binding there => exact sound.bind owner symbol there
  | enter inside there bound =>
      refine sound.addScope (fun parent isParent => ?_) bound
      cases inside.symm.trans isParent
      exact there
  | newCollection there mutable => exact sound.addCollection (Collection.holds_dense there mutable)
  | newClosure name parameters body there =>
      refine sound.addFunction fun _ isScope => ?_
      cases isScope
      exact there
  | change found becomes => exact sound.setCollection found becomes
  | renew clock => exact (renewGlobals_sound sound clock).heap
  | leave | output | clock => exact sound

theorem sound (step : before.Step after) (sound : before.Sound) : after.Sound := by
  have heap := step.heap_sound sound.heap
  have globals := step.keeps.scope sound.globals
  have current := step.keeps.scope sound.current
  cases step with
  | renew clock => exact renewGlobals_sound sound.heap clock
  | enter inside there bound => exact ⟨heap, globals, size_lt_push before.heap.scopes _⟩
  | leave there => exact ⟨heap, globals, there⟩
  | bind | newCollection | newClosure | change | output | clock => exact ⟨heap, globals, current⟩

end Step

namespace Reaches

theorem keeps (reaches : before.Reaches after) : before.heap.Keeps after.heap := by
  induction reaches with
  | refl => exact .refl _
  | tail earlier step inductionHypothesis => exact inductionHypothesis.trans step.keeps

theorem sound (reaches : before.Reaches after) (sound : before.Sound) : after.Sound := by
  induction reaches with
  | refl => exact sound
  | tail earlier step inductionHypothesis => exact step.sound inductionHypothesis

end Reaches

/-! ## What steps make -/

/-- Among the steps from one machine to another, there is one of the given kind. -/
def Took (first last : Machine) (kind : Machine → Machine → Prop) : Prop :=
  ∃ before after, first.Reaches before ∧ before.Step after ∧ kind before after ∧
    after.Reaches last

/-- What was not there at first and is there at last was made by a step. -/
theorem Reaches.took {first last : Machine} {present : Machine → Prop}
    {kind : Machine → Machine → Prop} (reaches : first.Reaches last) (absent : ¬ present first)
    (there : present last)
    (makes : ∀ before after, before.Step after → present after →
      present before ∨ kind before after) :
    first.Took last kind := by
  induction reaches with
  | refl => exact absurd there absent
  | @tail before after earlier step inductionHypothesis =>
      -- the last step made it, unless it was there before
      rcases makes before after step there with already | made
      · obtain ⟨start, next, toStart, made, isKind, toBefore⟩ := inductionHypothesis already
        exact ⟨start, next, toStart, made, isKind, toBefore.tail step⟩
      · exact ⟨before, after, earlier, step, made, .refl⟩

/-- The step makes the scope, as new globals. -/
def Renews (scope : ScopeId) (before after : Machine) : Prop :=
  scope = before.heap.scopes.size ∧ ∃ clock, after = before.renewGlobals clock

/-- The step makes the function, in a scope that exists. -/
def Closes (id : FunctionId) (scope : ScopeId) (before after : Machine) : Prop :=
  id = before.heap.functions.size ∧ scope = before.current ∧ scope < before.heap.scopes.size ∧
    ∃ name parameters body,
      after.heap = before.heap.addFunction (.closure name parameters body scope)

/-- The scope has no parent. -/
def IsRoot (scope : ScopeId) (machine : Machine) : Prop :=
  ∃ found, machine.heap.scopes[scope]? = some found ∧ found.parent = none

/-- Only new globals have no parent. -/
theorem Step.renews (step : before.Step after) {scope : ScopeId} (isRoot : IsRoot scope after) :
    IsRoot scope before ∨ Renews scope before after := by
  obtain ⟨found, isThere, top⟩ := isRoot
  cases step with
  | bind owner symbol binding there =>
      have isThere : (before.heap.bind owner symbol binding).scopes[scope]? = some found := isThere
      rw [Heap.bind_getElem?] at isThere
      split at isThere
      · obtain ⟨earlier, foundEarlier, rfl⟩ := Option.map_eq_some_iff.mp isThere
        exact Or.inl ⟨earlier, foundEarlier, top⟩
      · exact Or.inl ⟨found, isThere, top⟩
  | @enter new parent inside there bound =>
      have isThere : (before.heap.addScope new).scopes[scope]? = some found := isThere
      rw [Heap.addScope_getElem?] at isThere
      split at isThere
      · cases isThere
        cases inside.symm.trans top
      · exact Or.inl ⟨found, isThere, top⟩
  | renew clock =>
      have isThere : ((before.heap.addFunction .clock).addScope _).scopes[scope]? = some found :=
        isThere
      rw [Heap.addScope_getElem?] at isThere
      split at isThere
      next isNew => exact Or.inr ⟨isNew, clock, rfl⟩
      next => exact Or.inl ⟨found, isThere, top⟩
  | leave | newCollection | newClosure | change | output | clock =>
      exact Or.inl ⟨found, isThere, top⟩

/-- The scope that a function of the machine was made in. -/
def captured? (machine : Machine) (id : FunctionId) : Option ScopeId :=
  (machine.heap.functions[id]?).bind Function.scope?

/-- A closure is made in the current scope. -/
theorem Step.closes (step : before.Step after) {id : FunctionId} {scope : ScopeId}
    (captured : after.captured? id = some scope) :
    before.captured? id = some scope ∨ Closes id scope before after := by
  cases step with
  | newClosure name parameters body there =>
      have captured : ((before.heap.functions.push _)[id]?).bind Function.scope? = some scope :=
        captured
      rw [Array.getElem?_push] at captured
      split at captured
      next isNew =>
        cases captured
        exact Or.inr ⟨isNew, rfl, there, name, parameters, body, rfl⟩
      next => exact Or.inl captured
  | renew clock =>
      have captured : ((before.heap.functions.push .clock)[id]?).bind Function.scope? =
          some scope := captured
      rw [Array.getElem?_push] at captured
      split at captured
      · cases captured
      · exact Or.inl captured
  | bind | enter | leave | newCollection | change | output | clock => exact Or.inl captured

end Machine

end Scriptlet
