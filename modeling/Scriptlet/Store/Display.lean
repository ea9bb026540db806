import Scriptlet.Number.Text
import Scriptlet.Store.Heap

/-!
Contract: values as text.

Owns: `Heap.display`. A collection is written as its entries in the order of
their indexes. One that is being written already, further out, is written as
three dots in its brackets, so that the number of collections bounds the depth
of the text.
-/

set_option autoImplicit false

namespace Scriptlet

def Function.text : Function → String
  | .clock => "<native fn>"
  | .closure (some name) _ _ _ => "<fn " ++ name.symbol.name ++ ">"
  | .closure none _ _ _ => "<fn>"

namespace Collection

/-- The text between brackets: square for an array, round for a tuple. -/
def bracketed (c : Collection) (inside : String) : String :=
  if c.mutable then "[" ++ inside ++ "]" else "(" ++ inside ++ ")"

/-- The text of all entries, given that of their values. -/
def text (c : Collection) (valueText : Value → String) : String :=
  c.bracketed
    (" ".intercalate
      (c.entries.toList.map fun (index, value) => index.repr ++ ": " ++ valueText value ++ ","))

end Collection

namespace Heap

/-- The text of a value inside the collections `around`, in which at most
`depth` further ones are written. -/
def displayIn (heap : Heap) : Nat → List CollectionId → Value → String
  | _, _, .nil => "nil"
  | _, _, .bool value => if value then "true" else "false"
  | _, _, .number value => Number.displayText value
  | _, _, .string value => value
  | _, _, .function id =>
      match heap.functions[id]? with
      | some function => function.text
      | none => ""
  | 0, _, .collection _ => ""
  | depth + 1, around, .collection id =>
      match heap.collections[id]? with
      | some c =>
          if id ∈ around then c.bracketed "..."
          else c.text (heap.displayIn depth (id :: around))
      | none => ""

def display (heap : Heap) (value : Value) : String :=
  heap.displayIn (heap.collections.size + 1) [] value

end Heap

end Scriptlet
