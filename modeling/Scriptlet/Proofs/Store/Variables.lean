import Scriptlet.Run.Machine
import Std.Data.TreeMap.Lemmas

/-!
Contract: reading and writing variables, said by the nearest binding of a name.

Reading walks along the parents of a scope, and writing does so on its own. Both are
compared with one search, which looks for a binding and does nothing with it.

Owns: what is bound after a binding is made, in a scope (`Scope.bind_getElem?`)
and in a heap (`Heap.bind_getElem?`); `Heap.nearest?`, the search, with
`Heap.nearestFrom?_found`, by which it finds a binding of the name; and `Heap.Means`, by
which both walks end with the binding it finds (`Heap.means_nearest?`).

Does not own: the chain on which that binding is the first
(`Scriptlet.Proofs.Store.Resolution`).
-/

set_option autoImplicit false

namespace Scriptlet

theorem Scope.bind_getElem? (scope : Scope) (symbol : Symbol) (binding : Binding) (id : Nat) :
    (scope.bind symbol binding).bindings[id]? =
      if symbol.id = id then some binding else scope.bindings[id]? := by
  rw [Scope.bind]
  dsimp only
  rw [Std.TreeMap.getElem?_insert]
  simp

/-- What reading a name gives that means this binding. -/
def Binding.read (binding : Binding) (symbol : Symbol) : Except Fault Value :=
  match binding.value with
  | some value => .ok value
  | none => .error (.unassignedVariable symbol.name)

namespace Heap

theorem bind_getElem? (heap : Heap) (owner : ScopeId) (symbol : Symbol) (binding : Binding)
    (id : ScopeId) :
    (heap.bind owner symbol binding).scopes[id]? =
      if owner = id then heap.scopes[id]?.map (·.bind symbol binding) else heap.scopes[id]? := by
  rw [Heap.bind]
  dsimp only
  rw [Array.getElem?_modify]

theorem addScope_getElem? (heap : Heap) (scope : Scope) (id : ScopeId) :
    (heap.addScope scope).scopes[id]? =
      if id = heap.scopes.size then some scope else heap.scopes[id]? := by
  rw [Heap.addScope]
  dsimp only
  rw [Array.getElem?_push]

/-! ## The nearest binding -/

/-- The nearest scope that binds a name, at most `fuel` scopes away, with the
binding. -/
def nearestFrom? (heap : Heap) (symbol : Symbol) : Nat → ScopeId → Option (ScopeId × Binding)
  | 0, _ => none
  | fuel + 1, id =>
      match heap.scopes[id]? with
      | none => none
      | some scope =>
          match scope.find? symbol with
          | some binding => some (id, binding)
          | none =>
              match scope.parent with
              | some parent => heap.nearestFrom? symbol fuel parent
              | none => none

def nearest? (heap : Heap) (scope : ScopeId) (symbol : Symbol) : Option (ScopeId × Binding) :=
  heap.nearestFrom? symbol heap.scopes.size scope

/-- The nearest binding of a name is a binding of it. -/
theorem nearestFrom?_found {heap : Heap} {symbol : Symbol} {fuel : Nat} {start owner : ScopeId}
    {binding : Binding} (nearest : heap.nearestFrom? symbol fuel start = some (owner, binding)) :
    ∃ scope, heap.scopes[owner]? = some scope ∧ scope.find? symbol = some binding := by
  induction fuel generalizing start with
  | zero => cases nearest
  | succ fuel inductionHypothesis =>
      rw [Heap.nearestFrom?] at nearest
      split at nearest
      · cases nearest
      next scope found =>
        split at nearest
        next bound =>
          cases nearest
          exact ⟨scope, found, bound⟩
        next =>
          split at nearest
          next parent _ => exact inductionHypothesis nearest
          next => cases nearest

/-! ## Reading -/

theorem lookupFrom_eq (heap : Heap) (symbol : Symbol) (fuel : Nat) (start : ScopeId) :
    heap.lookupFrom symbol fuel start =
      match heap.nearestFrom? symbol fuel start with
      | some (_, binding) => binding.read symbol
      | none => .error (.undefinedVariable symbol.name) := by
  induction fuel generalizing start with
  | zero => rfl
  | succ fuel inductionHypothesis =>
      rw [lookupFrom, nearestFrom?]
      cases heap.scopes[start]? with
      | none => rfl
      | some scope =>
          dsimp only
          cases scope.find? symbol with
          | some binding =>
              obtain ⟨value, constant⟩ := binding
              cases value <;> rfl
          | none =>
              cases scope.parent with
              | some parent => exact inductionHypothesis parent
              | none => rfl

/-- Reading a name gives what its nearest binding says. -/
theorem lookup_eq (heap : Heap) (start : ScopeId) (symbol : Symbol) :
    heap.lookup start symbol =
      match heap.nearest? start symbol with
      | some (_, binding) => binding.read symbol
      | none => .error (.undefinedVariable symbol.name) :=
  heap.lookupFrom_eq symbol heap.scopes.size start

/-! ## Writing -/

/-- The scope whose binding may be written, if the binding found is no constant. -/
def writable (symbol : Symbol) : Option (ScopeId × Binding) → Except Fault ScopeId
  | some (owner, binding) =>
      if binding.constant then .error (.constantReassigned symbol.name) else .ok owner
  | none => .error (.undefinedVariable symbol.name)

/-- The scope in which an assignment to a name takes place. -/
def assignable (heap : Heap) (start : ScopeId) (symbol : Symbol) : Except Fault ScopeId :=
  writable symbol (heap.nearest? start symbol)

/-- What can be assigned to is bound, and is no constant. -/
theorem assignable_found {heap : Heap} {start owner : ScopeId} {symbol : Symbol}
    (assignable : heap.assignable start symbol = .ok owner) :
    ∃ scope binding, heap.scopes[owner]? = some scope ∧ scope.find? symbol = some binding ∧
      binding.constant = false := by
  unfold Heap.assignable writable at assignable
  split at assignable
  next owner' binding nearest =>
    split at assignable
    next => cases assignable
    next noConstant =>
      cases assignable
      obtain ⟨scope, found, bound⟩ := nearestFrom?_found nearest
      exact ⟨scope, binding, found, bound, by simpa using noConstant⟩
  next => cases assignable

theorem assignFrom_eq (heap : Heap) (symbol : Symbol) (value : Value) (fuel : Nat)
    (start : ScopeId) :
    assignFrom symbol value fuel start heap =
      match writable symbol (heap.nearestFrom? symbol fuel start) with
      | .ok owner => .ok () (heap.bind owner symbol ⟨some value, false⟩)
      | .error cause => .error cause heap := by
  induction fuel generalizing start with
  | zero => rfl
  | succ fuel inductionHypothesis =>
      -- the state that is looked at is the heap
      have step : assignFrom symbol value (fuel + 1) start heap =
          (match heap.scopes[start]? with
            | none => throw (.undefinedVariable symbol.name)
            | some scope =>
                match scope.find? symbol with
                | some binding => do
                    if binding.constant then
                      throw (.constantReassigned symbol.name)
                    modify (·.bind start symbol { binding with value := some value })
                | none =>
                    match scope.parent with
                    | some parent => assignFrom symbol value fuel parent
                    | none => throw (.undefinedVariable symbol.name) :
            EStateM Fault Heap Unit) heap := rfl
      rw [step, nearestFrom?]
      cases heap.scopes[start]? with
      | none => rfl
      | some scope =>
          dsimp only
          cases scope.find? symbol with
          | some binding =>
              obtain ⟨old, constant⟩ := binding
              cases constant <;> rfl
          | none =>
              cases scope.parent with
              | some parent => exact inductionHypothesis parent
              | none => rfl

/-- Writing a name makes its nearest binding anew, or fails and leaves the heap as it
was. -/
theorem assign_eq (heap : Heap) (start : ScopeId) (symbol : Symbol) (value : Value) :
    assign start symbol value heap =
      match heap.assignable start symbol with
      | .ok owner => .ok () (heap.bind owner symbol ⟨some value, false⟩)
      | .error cause => .error cause heap :=
  heap.assignFrom_eq symbol value heap.scopes.size start

/-- From a scope, reading and writing a name end with this binding and its scope, or with
none. -/
structure Means (heap : Heap) (start : ScopeId) (symbol : Symbol)
    (found : Option (ScopeId × Binding)) : Prop where
  read : heap.lookup start symbol =
    match found with
    | some (_, binding) => binding.read symbol
    | none => .error (.undefinedVariable symbol.name)
  write : ∀ value, assign start symbol value heap =
    match writable symbol found with
    | .ok owner => .ok () (heap.bind owner symbol ⟨some value, false⟩)
    | .error cause => .error cause heap

theorem means_nearest? (heap : Heap) (start : ScopeId) (symbol : Symbol) :
    heap.Means start symbol (heap.nearest? start symbol) :=
  ⟨heap.lookup_eq start symbol, heap.assign_eq start symbol⟩

end Heap

/-- A run of an assignment, by the scope in which it takes place. -/
theorem Run.assign_eq (name : Name) (value : Value) (machine : Machine) :
    Run.assign name value machine =
      match machine.heap.assignable machine.current name.symbol with
      | .ok owner =>
          .done ()
            { machine with heap := machine.heap.bind owner name.symbol ⟨some value, false⟩ }
      | .error cause => .aborted (.fault name.site cause) machine := by
  unfold Run.assign
  rw [Heap.assign_eq]
  cases machine.heap.assignable machine.current name.symbol <;> rfl

end Scriptlet
