import Scriptlet.Number.Remainder
import Scriptlet.Run.Machine

/-!
Contract: the operators.

Owns: what each operator makes of its operands, and what becomes of collections
among them that grow or shrink. An operator that fails leaves the collections as
far as it had changed them.

Does not own: that this is as they were (`Scriptlet.Proofs.Store.Guarded`).
-/

set_option autoImplicit false

namespace Scriptlet

/-- A computation on the collections of a heap, which may fail and leaves collections
in any case. -/
abbrev Operation (α : Type) : Type :=
  EStateM Fault (Array Collection) α

/-- A value or a fault that is there. -/
def Operation.ofExcept {α : Type} : Except Fault α → Operation α
  | .ok value => pure value
  | .error cause => throw cause

namespace Operator

/-- A collection as it is. -/
def content (id : CollectionId) : Operation Collection := do
  match (← get)[id]? with
  | some c => pure c
  | none => throw .notCollection

/-- Changes one collection, keeps what that leaves, and yields the collection. -/
def changing (id : CollectionId) (change : Collection.Change Unit) : Operation Value :=
  fun collections =>
    match collections[id]? with
    | none => .error .notCollection collections
    | some c =>
        match change c with
        | .ok () left => .ok (.collection id) (collections.setIfInBounds id left)
        | .error cause left => .error cause (collections.setIfInBounds id left)

/-- The sum of numbers, the text of strings and numbers together, and a
collection with what is added to either end. -/
def add : Value → Value → Operation Value
  | .number left, .number right => pure (.number (left + right))
  | .string left, .string right => pure (.string (left ++ right))
  | .string left, .number right => pure (.string (left ++ Number.bareText right))
  | .number left, .string right => pure (.string (Number.bareText left ++ right))
  | .collection left, .collection right => do
      -- what is added is a copy, since both may be the same collection
      let other ← content right
      changing left (Collection.concat other)
  | .collection left, right => changing left (Collection.push right)
  | left, .collection right => changing right (Collection.unshift left)
  | _, _ => throw .addOperands

/-- How many entries a number says to remove. -/
def removeCount (x : Float) : Except Fault Nat :=
  match Number.natural? x with
  | some count => .ok (min count maxIndex)
  | none => .error .invalidCount

/-- The difference of numbers, and a collection without entries at either
end. -/
def subtract : Value → Value → Operation Value
  | .number left, .number right => pure (.number (left - right))
  | .collection id, .number count => do
      let count ← .ofExcept (removeCount count)
      changing id (Collection.removeFromEnd count)
  | .number count, .collection id => do
      let count ← .ofExcept (removeCount count)
      changing id (Collection.removeFromStart count)
  | _, _ => throw .numberOperands

/-- An operation on numbers only. -/
def onNumbers (operation : Float → Float → Operation Value) : Value → Value → Operation Value
  | .number left, .number right => operation left right
  | _, _ => throw .numberOperands

def divide (left right : Float) : Operation Value :=
  if right == 0 then throw .divisionByZero else pure (.number (left / right))

def binary (op : BinaryOp) (left right : Value) : Operation Value :=
  match op with
  | .add => add left right
  | .sub => subtract left right
  | .mul => onNumbers (fun l r => pure (.number (l * r))) left right
  | .div => onNumbers divide left right
  | .rem => onNumbers (fun l r => pure (.number (Number.remainder l r))) left right
  | .equal => pure (.bool (left.same right))
  | .notEqual => pure (.bool (!left.same right))
  | .less => onNumbers (fun l r => pure (.bool (l < r))) left right
  | .lessEqual => onNumbers (fun l r => pure (.bool (l ≤ r))) left right
  | .greater => onNumbers (fun l r => pure (.bool (l > r))) left right
  | .greaterEqual => onNumbers (fun l r => pure (.bool (l ≥ r))) left right

def unary (op : UnaryOp) (operand : Value) : Except Fault Value :=
  match op, operand with
  | .negate, .number value => .ok (.number (-value))
  | .negate, _ => .error .numberOperand
  | .not, value => .ok (.bool (!value.isTruthy))

/-! ## Indexing -/

/-- The largest index a program can use. -/
def largestIndex : Nat := 0xffffffff

def asIndex : Value → Except Fault Nat
  | .number x =>
      match Number.natural? x with
      | some index => if index ≤ largestIndex then .ok index else .error .badIndex
      | none => .error .badIndex
  | _ => .error .badIndex

/-- A character of a string, or an entry of a collection. -/
def subscript (heap : Heap) : Value → Value → Except Fault Value
  | .string text, index => do
      let index ← asIndex index
      match text.toList[index]? with
      | some c => .ok (.string (String.singleton c))
      | none => .error (.indexOutOfRange index)
  | .collection id, index => do
      let index ← asIndex index
      match heap.collections[id]?.bind (·.get? index) with
      | some value => .ok value
      | none => .error (.indexOutOfRange index)
  | _, _ => .error .notIndexable

/-- An entry of a collection assigned. -/
def setEntry (target index value : Value) : Operation Value :=
  match target with
  | .collection id => do
      let index ← .ofExcept (asIndex index)
      let _ ← changing id (Collection.set index value)
      pure value
  | _ => throw .notCollection

end Operator

namespace Run

/-- Carries out an operation, or faults at a site. The collections are what the
operation leaves in either case. -/
def yielding (site : Site) (operation : Operation Value) : Run Value :=
  fun machine =>
    match operation machine.heap.collections with
    | .ok value left => .done value { machine with heap := machine.heap.withCollections left }
    | .error cause left =>
        .aborted (.fault site cause) { machine with heap := machine.heap.withCollections left }

/-- What an operation reads from the heap, or its fault at a site. -/
def reading (site : Site) (operation : Heap → Except Fault Value) : Run Value :=
  fun machine =>
    match operation machine.heap with
    | .error cause => .aborted (.fault site cause) machine
    | .ok value => .done value machine

end Run

end Scriptlet
