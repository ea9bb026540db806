import Scriptlet.Store.Collection
import Scriptlet.Tree

/-!
Contract: the heap, which holds all scopes, collections and functions.

Owns: `Scope`, `Function`, `Heap`, the making of new objects, and the reading
and writing of variables. Objects are numbered in the order in which they are
made and are never removed. A scope's parent is made before it, so that the
number of scopes bounds the length of a chain.

A name is looked for in a scope and then in its parents, once for reading and once
for writing.

Does not own: that both find the same binding (`Scriptlet.Proofs.Store.Resolution`).
-/

set_option autoImplicit false

namespace Scriptlet

/-- What a name is bound to. A variable has no value until it is assigned
one. -/
structure Binding where
  value : Option Value
  constant : Bool

structure Scope where
  parent : Option ScopeId
  bindings : Std.TreeMap Nat Binding

namespace Scope

def empty (parent : Option ScopeId) : Scope :=
  ⟨parent, ∅⟩

def find? (scope : Scope) (symbol : Symbol) : Option Binding :=
  scope.bindings[symbol.id]?

/-- Makes or overwrites a binding. -/
def bind (scope : Scope) (symbol : Symbol) (binding : Binding) : Scope :=
  { scope with bindings := scope.bindings.insert symbol.id binding }

end Scope

/-- What can be called: the clock, or code with the scope it was made in. A
function made by an expression has no name. -/
inductive Function where
  | clock
  | closure (name : Option Name) (parameters : List Name) (body : List Stmt) (scope : ScopeId)

namespace Function

def arity : Function → Nat
  | clock => 0
  | closure _ parameters _ _ => parameters.length

end Function

structure Heap where
  scopes : Array Scope
  collections : Array Collection
  functions : Array Function

namespace Heap

def empty : Heap :=
  ⟨#[], #[], #[]⟩

/-! ## New objects -/

/-- Adds a scope, whose number is that of the scopes before. -/
def addScope (heap : Heap) (scope : Scope) : Heap :=
  { heap with scopes := heap.scopes.push scope }

def addCollection (heap : Heap) (c : Collection) : Heap :=
  { heap with collections := heap.collections.push c }

def addFunction (heap : Heap) (function : Function) : Heap :=
  { heap with functions := heap.functions.push function }

/-- Replaces the collections. -/
def withCollections (heap : Heap) (collections : Array Collection) : Heap :=
  { heap with collections }

/-! ## Variables -/

/-- Makes or overwrites a binding in a scope. -/
def bind (heap : Heap) (scope : ScopeId) (symbol : Symbol) (binding : Binding) : Heap :=
  { heap with scopes := heap.scopes.modify scope (·.bind symbol binding) }

/-- The value of a name in a scope, or in a parent of it, at most `fuel` scopes away. -/
def lookupFrom (heap : Heap) (symbol : Symbol) : Nat → ScopeId → Except Fault Value
  | 0, _ => .error (.undefinedVariable symbol.name)
  | fuel + 1, id =>
      match heap.scopes[id]? with
      | none => .error (.undefinedVariable symbol.name)
      | some scope =>
          match scope.find? symbol with
          | some ⟨some value, _⟩ => .ok value
          | some ⟨none, _⟩ => .error (.unassignedVariable symbol.name)
          | none =>
              match scope.parent with
              | some parent => heap.lookupFrom symbol fuel parent
              | none => .error (.undefinedVariable symbol.name)

/-- The value of a name in a scope. -/
def lookup (heap : Heap) (scope : ScopeId) (symbol : Symbol) : Except Fault Value :=
  heap.lookupFrom symbol heap.scopes.size scope

/-- Assigns to a name in a scope, or in a parent of it, at most `fuel` scopes away. -/
def assignFrom (symbol : Symbol) (value : Value) : Nat → ScopeId → EStateM Fault Heap Unit
  | 0, _ => throw (.undefinedVariable symbol.name)
  | fuel + 1, id => do
      match (← get).scopes[id]? with
      | none => throw (.undefinedVariable symbol.name)
      | some scope =>
          match scope.find? symbol with
          | some binding =>
              if binding.constant then
                throw (.constantReassigned symbol.name)
              modify (·.bind id symbol { binding with value := some value })
          | none =>
              match scope.parent with
              | some parent => assignFrom symbol value fuel parent
              | none => throw (.undefinedVariable symbol.name)

/-- Assigns to a name in a scope. -/
def assign (scope : ScopeId) (symbol : Symbol) (value : Value) : EStateM Fault Heap Unit := do
  let fuel := (← get).scopes.size
  assignFrom symbol value fuel scope

end Heap

end Scriptlet
