import Scriptlet.Proofs.Store.MovedCollections
import Scriptlet.Proofs.Store.Variables
import Scriptlet.Proofs.Tree.Alike
import Scriptlet.Store.Display

/-!
Contract: two heaps, of which one holds the objects of the other behind its own.

Owns: `Heap.MovedTo`, with the invariant of the first heap that bounds every
search in it; that variables are found in the same scopes (`lookup_moved`,
`assignable_moved`) and values have the same text (`display_moved`); and that
objects which are made or changed on both sides keep the heaps related.

## Why the searches agree

A search for a variable may visit as many scopes as there are, and the text of a
value may have as many levels as there are collections. The second heap has more
of both. But a scope's parent is older than the scope, and no collection is
written inside itself, so the first heap alone bounds both searches.
-/

set_option autoImplicit false

namespace Scriptlet

/-! ## Objects in arrays -/

/-- The second array has the elements of the first one behind others. -/
structure MovedArray {α β : Type} (offset : Nat) (relation : α → β → Prop) (left : Array α)
    (right : Array β) : Prop where
  size : right.size = left.size + offset
  get : ∀ id : Nat, Option.Rel relation left[id]? right[id + offset]?

namespace MovedArray

variable {α β : Type} {offset : Nat} {relation : α → β → Prop} {left : Array α} {right : Array β}

/-- None of the elements is looked at. -/
theorem empty (right : Array β) : MovedArray right.size relation #[] right := by
  refine ⟨(Nat.zero_add right.size).symm, fun id => ?_⟩
  rw [Array.getElem?_eq_none (by simp), Array.getElem?_eq_none (by omega)]
  exact .none

theorem push (moved : MovedArray offset relation left right) {value : α} {value' : β}
    (related : relation value value') :
    MovedArray offset relation (left.push value) (right.push value') := by
  refine ⟨?_, fun id => ?_⟩
  · rw [Array.size_push, Array.size_push, moved.size]
    omega
  · rw [Array.getElem?_push, Array.getElem?_push, moved.size]
    by_cases isNew : id = left.size
    · rw [if_pos isNew, if_pos (by omega)]
      exact .some related
    · rw [if_neg isNew, if_neg (by omega)]
      exact moved.get id

theorem set (moved : MovedArray offset relation left right) (index : Nat) {value : α} {value' : β}
    (related : relation value value') :
    MovedArray offset relation (left.setIfInBounds index value)
      (right.setIfInBounds (index + offset) value') := by
  refine ⟨?_, fun id => ?_⟩
  · rw [Array.size_setIfInBounds, Array.size_setIfInBounds, moved.size]
  · rw [Array.getElem?_setIfInBounds, Array.getElem?_setIfInBounds, moved.size]
    by_cases same : index = id
    · subst same
      rw [if_pos rfl, if_pos rfl]
      by_cases inside : index < left.size
      · rw [if_pos inside, if_pos (by omega)]
        exact .some related
      · rw [if_neg inside, if_neg (by omega)]
        exact .none
    · rw [if_neg same, if_neg (by omega)]
      exact moved.get id

theorem modify (moved : MovedArray offset relation left right) (index : Nat) {change : α → α}
    {change' : β → β}
    (related : ∀ value value', relation value value' → relation (change value) (change' value')) :
    MovedArray offset relation (left.modify index change)
      (right.modify (index + offset) change') := by
  refine ⟨?_, fun id => ?_⟩
  · rw [Array.size_modify, Array.size_modify, moved.size]
  · have here := moved.get id
    rw [Array.getElem?_modify, Array.getElem?_modify]
    by_cases same : index = id
    · rw [if_pos same, if_pos (by omega)]
      generalize left[id]? = value at here
      generalize right[id + offset]? = value' at here
      cases here with
      | none => exact .none
      | some same => exact .some (related _ _ same)
    · rw [if_neg same, if_neg (by omega)]
      exact here

end MovedArray

/-! ## Scopes and functions -/

/-- Symbols that are related have the same name, and one number goes with one. -/
structure Relocation.Lawful (move : Relocation) : Prop where
  name : ∀ {symbol symbol'}, move.symbols symbol symbol' → symbol.name = symbol'.name
  number : ∀ {symbol symbol' other other'}, move.symbols symbol symbol' →
    move.symbols other other' → (symbol.id = other.id ↔ symbol'.id = other'.id)

structure Binding.MovedTo (move : Relocation) (left right : Binding) : Prop where
  value : Option.Rel (Value.MovedTo move) left.value right.value
  constant : left.constant = right.constant

/-- The same scope, as far as names that are looked at are concerned. -/
structure Scope.MovedTo (move : Relocation) (left right : Scope) : Prop where
  parent : right.parent = left.parent.map (· + move.scopes)
  bindings : ∀ symbol symbol', move.symbols symbol symbol' →
    Option.Rel (Binding.MovedTo move) (left.find? symbol) (right.find? symbol')

theorem Scope.MovedTo.empty {move : Relocation} (parent : Option ScopeId) :
    (Scope.empty parent).MovedTo move (Scope.empty (parent.map (· + move.scopes))) := by
  refine ⟨rfl, fun symbol symbol' _ => ?_⟩
  unfold Scope.find? Scope.empty
  rw [Std.TreeMap.getElem?_emptyc, Std.TreeMap.getElem?_emptyc]
  exact .none

theorem Scope.MovedTo.bind {move : Relocation} (lawful : move.Lawful) {left right : Scope}
    (moved : left.MovedTo move right) {symbol symbol' : Symbol}
    (named : move.symbols symbol symbol') {binding binding' : Binding}
    (same : binding.MovedTo move binding') :
    (left.bind symbol binding).MovedTo move (right.bind symbol' binding') := by
  refine ⟨moved.parent, fun other other' namedOther => ?_⟩
  unfold Scope.find?
  rw [Scope.bind_getElem?, Scope.bind_getElem?]
  by_cases here : symbol.id = other.id
  · rw [if_pos here, if_pos ((lawful.number named namedOther).mp here)]
    exact .some same
  · rw [if_neg here, if_neg fun there => here ((lawful.number named namedOther).mpr there)]
    exact moved.bindings other other' namedOther

inductive Function.MovedTo (move : Relocation) : Function → Function → Prop where
  | clock : Function.MovedTo move .clock .clock
  | closure {name name' : Option Name} {parameters parameters' : List Name}
      {body body' : List Stmt} {scope : ScopeId}
      (named : Option.Rel (Name.Alike move.symbols) name name')
      (taken : List.Forall₂ (Name.Alike move.symbols) parameters parameters')
      (statements : List.Forall₂ (Stmt.Alike move.symbols) body body') :
      Function.MovedTo move (.closure name parameters body scope)
        (.closure name' parameters' body' (scope + move.scopes))

theorem Function.MovedTo.arity_eq {move : Relocation} {left right : Function}
    (moved : left.MovedTo move right) : left.arity = right.arity := by
  cases moved with
  | clock => rfl
  | closure named taken statements => exact taken.length_eq

theorem Function.MovedTo.text_eq {move : Relocation} (lawful : move.Lawful) {left right : Function}
    (moved : left.MovedTo move right) : left.text = right.text := by
  cases moved with
  | clock => rfl
  | closure named taken statements =>
      cases named with
      | none => rfl
      | some same =>
          dsimp only [Function.text]
          rw [lawful.name same.symbol]

/-! ## Heaps -/

/-- In a heap that begins with the clock, every scope is younger than its parent,
every closure is younger than its scope, and only the first function is the
clock. -/
structure Heap.Young (heap : Heap) : Prop where
  parent : ∀ (id : ScopeId) (scope : Scope), heap.scopes[id]? = some scope →
    ∀ parent, scope.parent = some parent → parent < id
  closure : ∀ (id : FunctionId) name parameters body scope,
    heap.functions[id]? = some (.closure name parameters body scope) → scope < heap.scopes.size
  clock : ∀ id : FunctionId, heap.functions[id]? = some .clock → id = 0
  begun : 0 < heap.functions.size

/-- The second heap holds the objects of the first one behind others. -/
structure Heap.MovedTo (move : Relocation) (left right : Heap) : Prop where
  scopes : MovedArray move.scopes (Scope.MovedTo move) left.scopes right.scopes
  collections :
    MovedArray move.collections (Collection.MovedTo move) left.collections right.collections
  functions : MovedArray move.functions (Function.MovedTo move) left.functions right.functions
  young : left.Young

/-! ## Text of collections -/

section Text

variable {move : Relocation} {left right : Collection}

theorem Collection.MovedTo.bracketed_eq (moved : left.MovedTo move right) (inside : String) :
    left.bracketed inside = right.bracketed inside := by
  unfold Collection.bracketed
  rw [moved.mutable]

theorem Collection.MovedTo.text_eq (moved : left.MovedTo move right)
    {valueText valueText' : Value → String}
    (same : ∀ value value', value.MovedTo move value' → valueText value = valueText' value') :
    left.text valueText = right.text valueText' := by
  unfold Collection.text
  rw [moved.bracketed_eq]
  congr 2
  rw [← List.forall₂_eq_eq_eq, List.forall₂_map_left_iff, List.forall₂_map_right_iff]
  refine moved.entries.toList.imp fun entry entry' alike => ?_
  dsimp only
  rw [alike.1, same _ _ alike.2]

end Text

namespace Heap

variable {move : Relocation} {left right : Heap}

/-! ## New and changed objects -/

theorem Young.of_eq (young : left.Young) (scopes : right.scopes = left.scopes)
    (functions : right.functions = left.functions) : right.Young := by
  refine ⟨?_, ?_, ?_, ?_⟩
  · rw [scopes]
    exact young.parent
  · rw [scopes, functions]
    exact young.closure
  · rw [functions]
    exact young.clock
  · rw [functions]
    exact young.begun

theorem MovedTo.addCollection (heaps : left.MovedTo move right) {c c' : Collection}
    (moved : c.MovedTo move c') : (left.addCollection c).MovedTo move (right.addCollection c') :=
  ⟨heaps.scopes, heaps.collections.push moved, heaps.functions, heaps.young.of_eq rfl rfl⟩

theorem MovedTo.withCollections (heaps : left.MovedTo move right)
    {collections collections' : Array Collection}
    (moved : MovedArray move.collections (Collection.MovedTo move) collections collections') :
    (left.withCollections collections).MovedTo move (right.withCollections collections') :=
  ⟨heaps.scopes, moved, heaps.functions, heaps.young.of_eq rfl rfl⟩

theorem MovedTo.addClosure (heaps : left.MovedTo move right) {name name' : Option Name}
    {parameters parameters' : List Name} {body body' : List Stmt} {scope : ScopeId}
    (inside : scope < left.scopes.size) (named : Option.Rel (Name.Alike move.symbols) name name')
    (taken : List.Forall₂ (Name.Alike move.symbols) parameters parameters')
    (statements : List.Forall₂ (Stmt.Alike move.symbols) body body') :
    (left.addFunction (.closure name parameters body scope)).MovedTo move
      (right.addFunction (.closure name' parameters' body' (scope + move.scopes))) := by
  refine ⟨heaps.scopes, heaps.collections, heaps.functions.push (.closure named taken statements),
    ⟨heaps.young.parent, ?_, ?_, ?_⟩⟩
  · intro id otherName otherParameters otherBody otherScope found
    rw [addFunction, Array.getElem?_push] at found
    split at found
    · cases found
      exact inside
    · exact heaps.young.closure id _ _ _ _ found
  · intro id found
    rw [addFunction, Array.getElem?_push] at found
    split at found
    · cases found
    · exact heaps.young.clock id found
  · rw [addFunction, Array.size_push]
    exact Nat.succ_pos _

theorem MovedTo.addScope (heaps : left.MovedTo move right) {scope scope' : Scope}
    (moved : scope.MovedTo move scope')
    (older : ∀ parent, scope.parent = some parent → parent < left.scopes.size) :
    (left.addScope scope).MovedTo move (right.addScope scope') := by
  refine ⟨heaps.scopes.push moved, heaps.collections, heaps.functions, ⟨?_, ?_, heaps.young.clock,
    heaps.young.begun⟩⟩
  · intro id other found parent isParent
    rw [addScope_getElem?] at found
    split at found
    next isNew =>
      cases found
      rw [isNew]
      exact older parent isParent
    next => exact heaps.young.parent id other found parent isParent
  · intro id name parameters body scope found
    have inside := heaps.young.closure id name parameters body scope found
    rw [Heap.addScope, Array.size_push]
    exact Nat.lt_succ_of_lt inside

theorem MovedTo.bind (lawful : move.Lawful) (heaps : left.MovedTo move right) (owner : ScopeId)
    {symbol symbol' : Symbol} (named : move.symbols symbol symbol') {binding binding' : Binding}
    (same : binding.MovedTo move binding') :
    (left.bind owner symbol binding).MovedTo move
      (right.bind (owner + move.scopes) symbol' binding') := by
  refine ⟨heaps.scopes.modify owner fun _ _ moved => moved.bind lawful named same,
    heaps.collections, heaps.functions, ⟨?_, ?_, heaps.young.clock, heaps.young.begun⟩⟩
  · intro id scope found parent isParent
    rw [bind_getElem?] at found
    split at found
    next =>
      obtain ⟨before, foundBefore, rfl⟩ := Option.map_eq_some_iff.mp found
      exact heaps.young.parent id before foundBefore parent isParent
    next => exact heaps.young.parent id scope found parent isParent
  · intro id name parameters body scope found
    rw [Heap.bind, Array.size_modify]
    exact heaps.young.closure id name parameters body scope found

/-! ## Variables -/

/-- A binding with the scope that has it. -/
def FoundAlike (move : Relocation) (found found' : ScopeId × Binding) : Prop :=
  found'.1 = found.1 + move.scopes ∧ found.2.MovedTo move found'.2

/-- The search ends with the oldest scope of the chain, however many more it could
visit. -/
theorem nearestFrom?_moved (heaps : left.MovedTo move right) {symbol symbol' : Symbol}
    (named : move.symbols symbol symbol') {fuel fuel' start : Nat}
    (enough : start < fuel) (enough' : start < fuel') :
    Option.Rel (FoundAlike move) (left.nearestFrom? symbol fuel start)
      (right.nearestFrom? symbol' fuel' (start + move.scopes)) := by
  induction fuel generalizing start fuel' with
  | zero => omega
  | succ fuel inductionHypothesis =>
      cases fuel' with
      | zero => omega
      | succ fuel' =>
          have older := heaps.young.parent start
          have here := heaps.scopes.get start
          rw [nearestFrom?, nearestFrom?]
          generalize left.scopes[start]? = scope at here older
          generalize right.scopes[start + move.scopes]? = scope' at here
          cases here with
          | none => exact .none
          | @some scope scope' moved =>
              have bound := moved.bindings symbol symbol' named
              dsimp only
              generalize scope.find? symbol = binding at bound
              generalize scope'.find? symbol' = binding' at bound
              cases bound with
              | some same => exact .some ⟨rfl, same⟩
              | none =>
                  dsimp only
                  rw [moved.parent]
                  cases isParent : scope.parent with
                  | none => exact .none
                  | some parent =>
                      have earlier := older scope rfl parent isParent
                      have left := Nat.lt_of_lt_of_le earlier (Nat.le_of_lt_succ enough)
                      have left' := Nat.lt_of_lt_of_le earlier (Nat.le_of_lt_succ enough')
                      exact inductionHypothesis left left'

theorem nearest?_moved (heaps : left.MovedTo move right) {symbol symbol' : Symbol}
    (named : move.symbols symbol symbol') {scope : Nat} (inside : scope < left.scopes.size) :
    Option.Rel (FoundAlike move) (left.nearest? scope symbol)
      (right.nearest? (scope + move.scopes) symbol') := by
  refine nearestFrom?_moved heaps named inside ?_
  rw [heaps.scopes.size]
  omega

theorem lookup_moved (lawful : move.Lawful) (heaps : left.MovedTo move right)
    {symbol symbol' : Symbol} (named : move.symbols symbol symbol') {scope : ScopeId}
    (inside : scope < left.scopes.size) :
    SameEnd (Value.MovedTo move) (left.lookup scope symbol)
      (right.lookup (scope + move.scopes) symbol') := by
  have nearest := nearest?_moved heaps named inside
  rw [lookup_eq, lookup_eq, lawful.name named]
  generalize left.nearest? scope symbol = found at nearest
  generalize right.nearest? (scope + move.scopes) symbol' = found' at nearest
  cases nearest with
  | none => exact .error _
  | @some found found' alike =>
      obtain ⟨owner, value, constant⟩ := found
      obtain ⟨owner', value', constant'⟩ := found'
      have bound : Option.Rel (Value.MovedTo move) value value' := alike.2.value
      cases bound with
      | none =>
          dsimp only [Binding.read]
          rw [lawful.name named]
          exact .error _
      | some same => exact .ok same

theorem assignable_moved (lawful : move.Lawful) (heaps : left.MovedTo move right)
    {symbol symbol' : Symbol} (named : move.symbols symbol symbol') {scope : ScopeId}
    (inside : scope < left.scopes.size) :
    SameEnd (fun owner owner' => owner' = owner + move.scopes) (left.assignable scope symbol)
      (right.assignable (scope + move.scopes) symbol') := by
  have nearest := nearest?_moved heaps named inside
  unfold assignable writable
  rw [lawful.name named]
  generalize left.nearest? scope symbol = found at nearest
  generalize right.nearest? (scope + move.scopes) symbol' = found' at nearest
  cases nearest with
  | none => exact .error _
  | some alike =>
      dsimp only
      rw [alike.2.constant]
      split
      · exact .error _
      · exact .ok alike.1

/-! ## Values as text -/

/-- The collections in which one is written differ, so there are no more of them
than collections. -/
theorem length_le_of_nodup {size : Nat} {around : List Nat} (distinct : around.Nodup)
    (known : ∀ id ∈ around, id < size) : around.length ≤ size := by
  have inside : around ⊆ List.range size := fun id written => List.mem_range.mpr (known id written)
  simpa using distinct.length_le_of_subset inside

theorem displayIn_moved (lawful : move.Lawful) (heaps : left.MovedTo move right)
    {depth depth' : Nat} {around : List Nat} (distinct : around.Nodup)
    (known : ∀ id ∈ around, id < left.collections.size)
    (deep : left.collections.size < depth + around.length)
    (deep' : left.collections.size < depth' + around.length) {value value' : Value}
    (moved : value.MovedTo move value') :
    left.displayIn depth around value =
      right.displayIn depth' (around.map (· + move.collections)) value' := by
  have bound := length_le_of_nodup distinct known
  induction depth generalizing depth' around value value' with
  | zero => omega
  | succ depth inductionHypothesis =>
      cases depth' with
      | zero => omega
      | succ depth' =>
          cases moved with
          | nil => rw [displayIn, displayIn]
          | bool value => rw [displayIn, displayIn]
          | number value => rw [displayIn, displayIn]
          | string value => rw [displayIn, displayIn]
          | @function id noClock =>
              have here := heaps.functions.get id
              rw [displayIn, displayIn]
              generalize left.functions[id]? = function at here
              generalize right.functions[id + move.functions]? = function' at here
              cases here with
              | none => rfl
              | some same => exact same.text_eq lawful
          | collection id =>
              have here := heaps.collections.get id
              have size : ∀ c, left.collections[id]? = some c → id < left.collections.size :=
                fun c found => (Array.getElem?_eq_some_iff.mp found).1
              have written : id + move.collections ∈ around.map (· + move.collections) ↔
                  id ∈ around := by simp
              rw [displayIn, displayIn]
              generalize left.collections[id]? = found at here size
              generalize right.collections[id + move.collections]? = found' at here
              cases here with
              | none => rfl
              | @some c c' same =>
                  dsimp only
                  by_cases outer : id ∈ around
                  · rw [if_pos outer, if_pos (written.mpr outer)]
                    exact same.bracketed_eq "..."
                  · rw [if_neg outer, if_neg fun inside => outer (written.mp inside)]
                    have newKnown : ∀ other ∈ id :: around, other < left.collections.size :=
                      List.forall_mem_cons.mpr ⟨size c rfl, known⟩
                    have newDistinct : (id :: around).Nodup := List.nodup_cons.mpr ⟨outer, distinct⟩
                    refine same.text_eq fun value value' moved => ?_
                    refine inductionHypothesis newDistinct newKnown ?_ ?_ moved
                      (length_le_of_nodup newDistinct newKnown)
                    · rw [List.length_cons]
                      omega
                    · rw [List.length_cons]
                      omega

/-- A value has the same text. -/
theorem display_moved (lawful : move.Lawful) (heaps : left.MovedTo move right)
    {value value' : Value} (moved : value.MovedTo move value') :
    left.display value = right.display value' := by
  refine displayIn_moved lawful heaps List.nodup_nil (by simp) ?_ ?_ moved
  · rw [List.length_nil]
    omega
  · rw [List.length_nil, heaps.collections.size]
    omega

end Heap

end Scriptlet
