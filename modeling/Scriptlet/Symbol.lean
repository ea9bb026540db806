import Scriptlet.Lexical.Kind
import Std.Data.TreeMap.Basic

/-!
Contract: names that are compared by number.

Owns: `Symbol`, and the table that hands them out and knows which are reserved. A
name is looked up by its text, and gets a new number if it is not found; the kind
of a reserved word is looked up by the number of its symbol.

Does not own: that two symbols of a table have one number iff they have one name
(`Scriptlet.Proofs.Lexical.Symbols`).
-/

set_option autoImplicit false

namespace Scriptlet

structure Symbol where
  id : Nat
  name : String
deriving DecidableEq, Repr

/-- The symbols handed out so far, the latest first, and the number of the next
one. -/
structure SymbolTable where
  held : List Symbol
  next : Nat
  reserved : Std.TreeMap Nat Kind.Reserved

namespace SymbolTable

def empty : SymbolTable :=
  ⟨[], 0, ∅⟩

/-- The symbol that is held for a name. -/
def find? (table : SymbolTable) (name : String) : Option Symbol :=
  table.held.find? (·.name == name)

/-- The symbol for a name, which is made when the name is first requested. -/
def intern (table : SymbolTable) (name : String) : Symbol × SymbolTable :=
  match table.find? name with
  | some symbol => (symbol, table)
  | none =>
      let symbol : Symbol := ⟨table.next, name⟩
      (symbol, { table with held := symbol :: table.held, next := table.next + 1 })

/-- Requests a list of names in order. -/
def internAll (table : SymbolTable) (names : List String) : SymbolTable :=
  names.foldl (fun table name => (table.intern name).2) table

/-- Reserves a name. -/
def reserve (table : SymbolTable) (name : String) (kind : Kind.Reserved) : SymbolTable :=
  let (symbol, table) := table.intern name
  { table with reserved := table.reserved.insert symbol.id kind }

/-- The kind that a symbol is reserved for. -/
def reserved? (table : SymbolTable) (symbol : Symbol) : Option Kind :=
  table.reserved[symbol.id]?.map (·.1)

theorem reserved?_word {table : SymbolTable} {symbol : Symbol} {kind : Kind}
    (reserved : table.reserved? symbol = some kind) :
    ∃ word, (word, kind) ∈ Kind.reservedWords := by
  obtain ⟨found, -, rfl⟩ := Option.map_eq_some_iff.mp reserved
  exact found.2

/-- A table that holds the reserved words and nothing else. -/
def initial : SymbolTable :=
  Kind.reservedWords.attach.foldl
    (fun table word => table.reserve word.1.1 ⟨word.1.2, word.1.1, word.2⟩) empty

end SymbolTable

end Scriptlet
