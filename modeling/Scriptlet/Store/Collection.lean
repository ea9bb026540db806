import Scriptlet.Fault
import Scriptlet.Store.Value
import Std.Data.TreeMap.Basic

/-!
Contract: collections, which map indexes to values.

Owns: `Collection` and its operations. Every operation but `set` numbers the
entries it adds or keeps from zero on, or from the number of entries on; `set`
takes any index, so that a collection may have holes.

An operation goes step by step, and what a step has changed stays changed if a
later one fails.

Does not own: that no step fails behind one that changes something
(`Scriptlet.Proofs.Store.Changes`).
-/

set_option autoImplicit false

namespace Scriptlet

/-- The entries of an array, which is mutable, or of a tuple, which is not. -/
structure Collection where
  entries : Std.TreeMap Nat Value
  mutable : Bool

/-- The largest index of an entry. -/
def maxIndex : Nat := 0xffffffffffffffff

namespace Collection

/-- The values numbered from zero. -/
def dense (values : List Value) : Std.TreeMap Nat Value :=
  .ofList (values.zipIdx.map fun (value, index) => (index, value))

def ofList (values : List Value) (mutable : Bool) : Collection :=
  ⟨dense values, mutable⟩

def size (c : Collection) : Nat :=
  c.entries.size

def isEmpty (c : Collection) : Bool :=
  c.entries.isEmpty

def get? (c : Collection) (index : Nat) : Option Value :=
  c.entries[index]?

/-- Makes or overwrites an entry. -/
def insert (c : Collection) (index : Nat) (value : Value) : Collection :=
  { c with entries := c.entries.insert index value }

/-- A computation on a collection, which may fail and leaves a collection in any
case. -/
abbrev Change (α : Type) : Type :=
  EStateM Fault Collection α

/-- Takes the entries out, so that there are none. -/
def takeEntries : Change (Std.TreeMap Nat Value) :=
  modifyGet fun c => (c.entries, { c with entries := ∅ })

def putEntries (entries : Std.TreeMap Nat Value) : Change Unit :=
  modify fun c => { c with entries }

/-- Assigns to an index. -/
def set (index : Nat) (value : Value) : Change Unit := do
  if !(← get).mutable then
    throw .immutableCollection
  modify (·.insert index value)

/-- Adds a value at the index that is the number of entries. -/
def push (value : Value) : Change Unit :=
  modify fun c => c.insert c.size value

/-- Fails if entries cannot move up by `offset`. Only the last one is looked at. -/
def checkShift (entries : Std.TreeMap Nat Value) (offset : Nat) : Change Unit :=
  match entries.maxKey? with
  | some last => if last + offset ≤ maxIndex then pure () else throw .indexOverflow
  | none => pure ()

/-- Puts a value at index zero, and moves every entry up by one. -/
def unshift (value : Value) : Change Unit := do
  checkShift (← get).entries 1
  let rest ← takeEntries
  let moved := rest.toList.map fun (index, value) => (index + 1, value)
  putEntries (.ofList ((0, value) :: moved))

/-- Adds the entries of another collection, moved up by the number of
entries. -/
def concat (other : Collection) : Change Unit := do
  let offset := (← get).size
  checkShift other.entries offset
  other.entries.toList.forM fun (index, value) => modify (·.insert (index + offset) value)

/-- Fails if there are fewer entries. -/
def checkCount (count : Nat) : Change Unit := do
  let size := (← get).size
  if size < count then
    throw (.removeCount count size)

/-- Removes the first `count` entries, and numbers the others from zero. -/
def removeFromStart (count : Nat) : Change Unit := do
  checkCount count
  let rest ← takeEntries
  putEntries (dense (rest.values.drop count))

/-- Removes the last `count` entries, and numbers the others from zero. -/
def removeFromEnd (count : Nat) : Change Unit := do
  checkCount count
  let kept := (← get).size - count
  let rest ← takeEntries
  putEntries (dense (rest.values.take kept))

/-- The same indexes, equal values and the same mutability. -/
def same (left right : Collection) : Bool :=
  left.mutable == right.mutable
    && left.entries.toList.isEqv right.entries.toList fun l r => l.1 == r.1 && l.2.same r.2

end Collection

end Scriptlet
