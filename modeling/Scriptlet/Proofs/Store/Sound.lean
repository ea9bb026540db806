import Scriptlet.Proofs.Store.Entries
import Scriptlet.Proofs.Store.Guarded
import Scriptlet.Proofs.Store.Variables

/-!
Contract: heaps in which nothing points to what is not there.

Values point to collections and functions, scopes to their parents, and closures to
the scopes they were made in. A heap is sound if all these objects are there, and if
every scope is younger than its parent. Values may point to each other in circles; the
parents of scopes may not.

Owns: `Value.Exists`, `Collection.Holds`, `Scope.Holds` and `Heap.Sound`; that a heap stays
sound when objects are added or changed; what operators make of values that exist
(`Operator.binary_sound`, `Operator.setEntry_sound`, `Operator.subscript_exists`); and that the
walk along parents ends (`Heap.Sound.ascends`, `Heap.Sound.finds`).

Does not own: which changes a run makes (`Scriptlet.Proofs.Run.Steps`).
-/

set_option autoImplicit false

namespace Scriptlet

/-! ## Values that exist -/

/-- The number of what is added next. -/
theorem size_lt_push {α : Type} (items : Array α) (item : α) :
    items.size < (items.push item).size := by
  simp

/-- The object that a value is, if it is one, is in the heap. -/
def Value.Exists (heap : Heap) : Value → Prop
  | .collection id => id < heap.collections.size
  | .function id => id < heap.functions.size
  | _ => True

/-- Replaces one collection. -/
def Heap.setCollection (heap : Heap) (id : CollectionId) (c : Collection) : Heap :=
  heap.withCollections (heap.collections.setIfInBounds id c)

/-- What never changes of the objects that there are: the parents of scopes, functions, and
whether a collection is mutable. -/
structure Heap.Keeps (before after : Heap) : Prop where
  parent : ∀ (id : ScopeId) (scope : Scope), before.scopes[id]? = some scope →
    ∃ later, after.scopes[id]? = some later ∧ later.parent = scope.parent
  function : ∀ (id : FunctionId) (function : Function), before.functions[id]? = some function →
    after.functions[id]? = some function
  mutable : ∀ (id : CollectionId) (c : Collection), before.collections[id]? = some c →
    ∃ later, after.collections[id]? = some later ∧ later.mutable = c.mutable

namespace Heap.Keeps

variable {before middle after : Heap}

theorem refl (heap : Heap) : heap.Keeps heap :=
  ⟨fun _ scope found => ⟨scope, found, rfl⟩, fun _ _ found => found,
    fun _ c found => ⟨c, found, rfl⟩⟩

theorem trans (earlier : before.Keeps middle) (later : middle.Keeps after) :
    before.Keeps after where
  parent id scope found := by
    obtain ⟨second, foundSecond, sameSecond⟩ := earlier.parent id scope found
    obtain ⟨third, foundThird, sameThird⟩ := later.parent id second foundSecond
    exact ⟨third, foundThird, sameThird.trans sameSecond⟩
  function id function found := later.function id function (earlier.function id function found)
  mutable id c found := by
    obtain ⟨second, foundSecond, sameSecond⟩ := earlier.mutable id c found
    obtain ⟨third, foundThird, sameThird⟩ := later.mutable id second foundSecond
    exact ⟨third, foundThird, sameThird.trans sameSecond⟩

theorem scope (keeps : before.Keeps after) {id : ScopeId} (there : id < before.scopes.size) :
    id < after.scopes.size := by
  obtain ⟨later, found, -⟩ := keeps.parent id _ (Array.getElem?_eq_getElem there)
  exact (Array.getElem?_eq_some_iff.mp found).1

theorem collection (keeps : before.Keeps after) {id : CollectionId}
    (there : id < before.collections.size) : id < after.collections.size := by
  obtain ⟨later, found, -⟩ := keeps.mutable id _ (Array.getElem?_eq_getElem there)
  exact (Array.getElem?_eq_some_iff.mp found).1

theorem value (keeps : before.Keeps after) {value : Value} (there : value.Exists before) :
    value.Exists after := by
  cases value with
  | collection id => exact keeps.collection there
  | function id =>
      have found := keeps.function id _ (Array.getElem?_eq_getElem there)
      exact (Array.getElem?_eq_some_iff.mp found).1
  | _ => trivial

theorem bind (heap : Heap) (owner : ScopeId) (symbol : Symbol) (binding : Binding) :
    heap.Keeps (heap.bind owner symbol binding) where
  parent id scope found := by
    rw [Heap.bind_getElem?, found]
    split
    · exact ⟨_, rfl, rfl⟩
    · exact ⟨_, rfl, rfl⟩
  function _ _ found := found
  mutable _ c found := ⟨c, found, rfl⟩

theorem addScope (heap : Heap) (scope : Scope) : heap.Keeps (heap.addScope scope) where
  parent id earlier found := by
    have there := (Array.getElem?_eq_some_iff.mp found).1
    rw [Heap.addScope_getElem?, if_neg (Nat.ne_of_lt there)]
    exact ⟨earlier, found, rfl⟩
  function _ _ found := found
  mutable _ c found := ⟨c, found, rfl⟩

theorem addCollection (heap : Heap) (c : Collection) : heap.Keeps (heap.addCollection c) where
  parent _ scope found := ⟨scope, found, rfl⟩
  function _ _ found := found
  mutable id earlier found := by
    have there := (Array.getElem?_eq_some_iff.mp found).1
    refine ⟨earlier, ?_, rfl⟩
    rw [Heap.addCollection, Array.getElem?_push, if_neg (Nat.ne_of_lt there), found]

theorem addFunction (heap : Heap) (function : Function) :
    heap.Keeps (heap.addFunction function) where
  parent _ scope found := ⟨scope, found, rfl⟩
  function id earlier found := by
    have there := (Array.getElem?_eq_some_iff.mp found).1
    rw [Heap.addFunction, Array.getElem?_push, if_neg (Nat.ne_of_lt there), found]
  mutable _ c found := ⟨c, found, rfl⟩

/-- A collection is replaced by one that is mutable if it was. -/
theorem setCollection {heap : Heap} {place : CollectionId} {c changed : Collection}
    (isThere : heap.collections[place]? = some c) (same : changed.mutable = c.mutable) :
    heap.Keeps (heap.setCollection place changed) where
  parent _ scope found := ⟨scope, found, rfl⟩
  function _ _ found := found
  mutable id earlier found := by
    rw [Heap.setCollection, Heap.withCollections, Array.getElem?_setIfInBounds]
    by_cases here : place = id
    · subst here
      cases isThere.symm.trans found
      exact ⟨changed, by simp [(Array.getElem?_eq_some_iff.mp found).1], same⟩
    · rw [if_neg here]
      exact ⟨earlier, found, rfl⟩

end Heap.Keeps

/-! ## Collections -/

namespace Collection

/-- All values of a collection have the property. -/
def Holds (property : Value → Prop) (c : Collection) : Prop :=
  ∀ (index : Nat) (value : Value), c.get? index = some value → property value

variable {property : Value → Prop} {c other made : Collection} {value : Value}

theorem Holds.mono {weaker : Value → Prop} (holds : c.Holds property)
    (weaken : ∀ value, property value → weaker value) : c.Holds weaker :=
  fun index value found => weaken value (holds index value found)

theorem holds_dense {values : List Value} (all : ∀ value ∈ values, property value)
    (mutable : Bool) : Holds property ⟨dense values, mutable⟩ := by
  intro index value found
  have found : values[index]? = some value := (dense_getElem? values index).symm.trans found
  exact all value (List.mem_of_getElem? found)

theorem Holds.values (holds : c.Holds property) : ∀ value ∈ c.entries.values, property value := by
  intro value inside
  rw [values_eq_map_toList] at inside
  obtain ⟨entry, isEntry, rfl⟩ := List.mem_map.mp inside
  exact holds entry.1 entry.2 (Std.TreeMap.mem_toList_iff_getElem?_eq_some.mp isEntry)

/-- The operation changes entries only, and takes all of them from where the property
holds. -/
structure Becomes (property : Value → Prop) (c made : Collection) : Prop where
  mutable : made.mutable = c.mutable
  holds : made.Holds property

theorem Holds.insert (holds : c.Holds property) (new : property value) (place : Nat) :
    c.Becomes property (c.insert place value) where
  mutable := rfl
  holds := by
    intro index found isEntry
    rw [get?_insert] at isEntry
    split at isEntry
    · cases isEntry
      exact new
    · exact holds index found isEntry

theorem Holds.push (holds : c.Holds property) (new : property value)
    (done : c.push value = .ok () made) : c.Becomes property made := by
  rw [push_eq] at done
  cases done
  exact holds.insert new c.size

theorem Holds.set (holds : c.Holds property) (new : property value) {place : Nat}
    (done : c.set place value = .ok () made) : c.Becomes property made := by
  rw [set_eq] at done
  split at done
  · cases done
    exact holds.insert new place
  · cases done

theorem Holds.unshift (holds : c.Holds property) (new : property value)
    (done : c.unshift value = .ok () made) : c.Becomes property made where
  mutable := by
    rw [unshift_eq] at done
    split at done
    · cases done
      rfl
    · cases done
  holds := by
    intro index found isEntry
    rw [get?_unshift done] at isEntry
    cases index with
    | zero =>
        cases isEntry
        exact new
    | succ index => exact holds index found isEntry

theorem Holds.concat (holds : c.Holds property) (others : other.Holds property)
    (done : Collection.concat other c = .ok () made) : c.Becomes property made where
  mutable := by
    rw [concat_eq] at done
    split at done
    · cases done
      rfl
    · cases done
  holds := by
    intro index found isEntry
    by_cases front : index < c.size
    · rw [get?_concat_front done front] at isEntry
      exact holds index found isEntry
    · obtain ⟨place, rfl⟩ : ∃ place, index = place + c.size := ⟨index - c.size, by omega⟩
      -- behind the old entries in number, a sparse collection may still have old ones
      rw [get?_concat_moved done, Option.or_eq_some_iff] at isEntry
      rcases isEntry with added | ⟨-, old⟩
      · exact others place found added
      · exact holds _ found old

theorem Holds.removeFromStart (holds : c.Holds property) {count : Nat}
    (done : c.removeFromStart count = .ok () made) : c.Becomes property made := by
  rw [removeFromStart_eq] at done
  split at done
  · cases done
    refine ⟨rfl, holds_dense (fun value inside => ?_) _⟩
    exact holds.values value (List.mem_of_mem_drop inside)
  · cases done

theorem Holds.removeFromEnd (holds : c.Holds property) {count : Nat}
    (done : c.removeFromEnd count = .ok () made) : c.Becomes property made := by
  rw [removeFromEnd_eq] at done
  split at done
  · cases done
    refine ⟨rfl, holds_dense (fun value inside => ?_) _⟩
    exact holds.values value (List.mem_of_mem_take inside)
  · cases done

end Collection

/-! ## Scopes -/

namespace Scope

/-- All values bound in a scope have the property. -/
def Holds (property : Value → Prop) (scope : Scope) : Prop :=
  ∀ (id : Nat) (binding : Binding) (value : Value), scope.bindings[id]? = some binding →
    binding.value = some value → property value

variable {property : Value → Prop} {scope : Scope}

theorem Holds.mono {weaker : Value → Prop} (holds : scope.Holds property)
    (weaken : ∀ value, property value → weaker value) : scope.Holds weaker :=
  fun id binding value found isValue => weaken value (holds id binding value found isValue)

theorem holds_empty (parent : Option ScopeId) : (Scope.empty parent).Holds property := by
  intro id binding value found
  simp [Scope.empty] at found

theorem Holds.bind (holds : scope.Holds property) (symbol : Symbol) {binding : Binding}
    (new : ∀ value, binding.value = some value → property value) :
    (scope.bind symbol binding).Holds property := by
  intro id bound value found isValue
  rw [Scope.bind_getElem?] at found
  split at found
  · cases found
    exact new value isValue
  · exact holds id bound value found isValue

end Scope

/-! ## Sound heaps -/

/-- The scope that a function was made in. -/
def Function.scope? : Function → Option ScopeId
  | .clock => none
  | .closure _ _ _ scope => some scope

/-- Every scope is younger than its parent, and all objects that bindings, entries and closures
point to are there. -/
structure Heap.Sound (heap : Heap) : Prop where
  parents : ∀ (id : ScopeId) (scope : Scope), heap.scopes[id]? = some scope →
    ∀ parent, scope.parent = some parent → parent < id
  bindings : ∀ (id : ScopeId) (scope : Scope), heap.scopes[id]? = some scope →
    scope.Holds (Value.Exists heap)
  entries : ∀ (id : CollectionId) (c : Collection), heap.collections[id]? = some c →
    c.Holds (Value.Exists heap)
  closures : ∀ (id : FunctionId) (function : Function), heap.functions[id]? = some function →
    ∀ scope, function.scope? = some scope → scope < heap.scopes.size

namespace Heap.Sound

variable {heap : Heap}

theorem empty : Heap.empty.Sound := by
  refine ⟨?_, ?_, ?_, ?_⟩ <;> intro id <;> simp [Heap.empty]

theorem bind (sound : heap.Sound) (owner : ScopeId) (symbol : Symbol) {binding : Binding}
    (new : ∀ value, binding.value = some value → value.Exists heap) :
    (heap.bind owner symbol binding).Sound where
  parents id scope found parent isParent := by
    rw [Heap.bind_getElem?] at found
    split at found
    · obtain ⟨earlier, foundEarlier, rfl⟩ := Option.map_eq_some_iff.mp found
      exact sound.parents id earlier foundEarlier parent isParent
    · exact sound.parents id scope found parent isParent
  bindings id scope found := by
    rw [Heap.bind_getElem?] at found
    split at found
    · obtain ⟨earlier, foundEarlier, rfl⟩ := Option.map_eq_some_iff.mp found
      exact (sound.bindings id earlier foundEarlier).bind symbol new
    · exact sound.bindings id scope found
  entries := sound.entries
  closures id function found scope captured :=
    (Keeps.bind heap owner symbol binding).scope (sound.closures id function found scope captured)

theorem addScope (sound : heap.Sound) {scope : Scope}
    (older : ∀ parent, scope.parent = some parent → parent < heap.scopes.size)
    (new : scope.Holds (Value.Exists heap)) : (heap.addScope scope).Sound where
  parents id later found parent isParent := by
    rw [Heap.addScope_getElem?] at found
    split at found
    next isNew =>
      cases found
      exact isNew ▸ older parent isParent
    next => exact sound.parents id later found parent isParent
  bindings id later found := by
    rw [Heap.addScope_getElem?] at found
    split at found
    · cases found
      exact new
    · exact sound.bindings id later found
  entries := sound.entries
  closures id function found captured isCaptured :=
    (Keeps.addScope heap scope).scope (sound.closures id function found captured isCaptured)

theorem addCollection (sound : heap.Sound) {c : Collection} (new : c.Holds (Value.Exists heap)) :
    (heap.addCollection c).Sound := by
  have kept : ∀ value, Value.Exists heap value → Value.Exists (heap.addCollection c) value :=
    fun _ there => (Keeps.addCollection heap c).value there
  refine ⟨sound.parents, fun id scope found => (sound.bindings id scope found).mono kept, ?_,
    sound.closures⟩
  intro id later found
  rw [Heap.addCollection, Array.getElem?_push] at found
  split at found
  · cases found
    exact new.mono kept
  · exact (sound.entries id later found).mono kept

theorem addFunction (sound : heap.Sound) {function : Function}
    (new : ∀ scope, function.scope? = some scope → scope < heap.scopes.size) :
    (heap.addFunction function).Sound := by
  have kept : ∀ value, Value.Exists heap value → Value.Exists (heap.addFunction function) value :=
    fun _ there => (Keeps.addFunction heap function).value there
  refine ⟨sound.parents, fun id scope found => (sound.bindings id scope found).mono kept,
    fun id c found => (sound.entries id c found).mono kept, ?_⟩
  intro id later found
  rw [Heap.addFunction, Array.getElem?_push] at found
  split at found
  · cases found
    exact new
  · exact sound.closures id later found

theorem setCollection (sound : heap.Sound) {place : CollectionId} {c changed : Collection}
    (isThere : heap.collections[place]? = some c)
    (becomes : c.Becomes (Value.Exists heap) changed) :
    (heap.setCollection place changed).Sound := by
  have kept : ∀ value, Value.Exists heap value →
      Value.Exists (heap.setCollection place changed) value :=
    fun _ there => (Keeps.setCollection isThere becomes.mutable).value there
  refine ⟨sound.parents, fun id scope found => (sound.bindings id scope found).mono kept, ?_,
    sound.closures⟩
  intro id later found
  rw [Heap.setCollection, Heap.withCollections, Array.getElem?_setIfInBounds] at found
  split at found
  · split at found
    · cases found
      exact becomes.holds.mono kept
    · cases found
  · exact (sound.entries id later found).mono kept

end Heap.Sound

/-! ## Walks along parents -/

/-- The chain of parents of a scope ends in a scope that has none. -/
inductive Heap.Ascends (heap : Heap) : ScopeId → ScopeId → Prop where
  | root {id : ScopeId} {scope : Scope} (found : heap.scopes[id]? = some scope)
      (top : scope.parent = none) : Ascends heap id id
  | parent {id parent root : ScopeId} {scope : Scope} (found : heap.scopes[id]? = some scope)
      (above : scope.parent = some parent) (further : Ascends heap parent root) :
      Ascends heap id root

/-- The search for a name, from a scope to its parent and on, ends with the given result. -/
inductive Heap.Finds (heap : Heap) (symbol : Symbol) :
    ScopeId → Option (ScopeId × Binding) → Prop where
  | here {id : ScopeId} {scope : Scope} {binding : Binding} (found : heap.scopes[id]? = some scope)
      (bound : scope.find? symbol = some binding) : Finds heap symbol id (some (id, binding))
  | above {id parent : ScopeId} {scope : Scope} {result : Option (ScopeId × Binding)}
      (found : heap.scopes[id]? = some scope) (unbound : scope.find? symbol = none)
      (above : scope.parent = some parent) (further : Finds heap symbol parent result) :
      Finds heap symbol id result
  | nowhere {id : ScopeId} {scope : Scope} (found : heap.scopes[id]? = some scope)
      (unbound : scope.find? symbol = none) (top : scope.parent = none) :
      Finds heap symbol id none

namespace Heap

variable {heap : Heap}

theorem Ascends.top {id root : ScopeId} (ascends : heap.Ascends id root) :
    ∃ scope, heap.scopes[root]? = some scope ∧ scope.parent = none := by
  induction ascends with
  | @root _ scope found top => exact ⟨scope, found, top⟩
  | parent found above further inductionHypothesis => exact inductionHypothesis

/-- Each step of the walk leads to an older scope. -/
theorem Sound.ascends (sound : heap.Sound) (id : ScopeId) (there : id < heap.scopes.size) :
    ∃ root, heap.Ascends id root := by
  induction id using Nat.strongRecOn with
  | ind id inductionHypothesis =>
      have found := Array.getElem?_eq_getElem there
      cases above : (heap.scopes[id]).parent with
      | none => exact ⟨id, .root found above⟩
      | some parent =>
          have older := sound.parents id _ found parent above
          obtain ⟨root, further⟩ := inductionHypothesis parent older (Nat.lt_trans older there)
          exact ⟨root, .parent found above further⟩

/-- As many steps as there are scopes are enough. -/
theorem Sound.finds (sound : heap.Sound) (symbol : Symbol) {id : ScopeId}
    (there : id < heap.scopes.size) : heap.Finds symbol id (heap.nearest? id symbol) := by
  -- the fuel stays above the number of the scope, since parents have lower numbers
  suffices any : ∀ fuel id, id < fuel → id < heap.scopes.size →
      heap.Finds symbol id (heap.nearestFrom? symbol fuel id) from any _ id there there
  intro fuel
  induction fuel with
  | zero =>
      intro id enough
      exact absurd enough (Nat.not_lt_zero id)
  | succ fuel inductionHypothesis =>
      intro id enough there
      have found := Array.getElem?_eq_getElem there
      rw [nearestFrom?, found]
      dsimp only
      cases bound : (heap.scopes[id]).find? symbol with
      | some binding => exact .here found bound
      | none =>
          cases above : (heap.scopes[id]).parent with
          | none => exact .nowhere found bound above
          | some parent =>
              have older := sound.parents id _ found parent above
              have less := Nat.lt_of_lt_of_le older (Nat.le_of_lt_succ enough)
              exact .above found bound above
                (inductionHypothesis parent less (Nat.lt_trans older there))

/-- What a name stands for is there. -/
theorem Sound.lookup_exists (sound : heap.Sound) {start : ScopeId} {symbol : Symbol} {value : Value}
    (found : heap.lookup start symbol = .ok value) : value.Exists heap := by
  rw [lookup_eq] at found
  split at found
  next owner binding nearest =>
    obtain ⟨scope, isScope, bound⟩ := nearestFrom?_found nearest
    unfold Binding.read at found
    split at found
    next isValue =>
      cases found
      exact sound.bindings owner scope isScope symbol.id binding value bound isValue
    next => cases found
  next => cases found

end Heap

/-! ## Operators -/

/-- The collections of the heap, of which one at most is changed. It stays mutable or not, and
its entries exist. -/
inductive Heap.Edits (heap : Heap) : Array Collection → Prop where
  | none : Edits heap heap.collections
  | one {id : CollectionId} {c changed : Collection} (found : heap.collections[id]? = some c)
      (becomes : c.Becomes (Value.Exists heap) changed) :
      Edits heap (heap.collections.setIfInBounds id changed)

/-- What the operation yields on the heap exists, and it leaves a heap that is sound. -/
def Operation.SoundOn (heap : Heap) (operation : Operation Value) : Prop :=
  ∀ value left, operation heap.collections = .ok value left →
    value.Exists heap ∧ heap.Edits left

namespace Operator

variable {heap : Heap}

theorem changing_sound (sound : heap.Sound) (id : CollectionId) {change : Collection.Change Unit}
    (becomes : ∀ c made, c.Holds (Value.Exists heap) → change c = .ok () made →
      c.Becomes (Value.Exists heap) made) :
    (changing id change).SoundOn heap := by
  intro value left done
  unfold changing at done
  split at done
  next => cases done
  next c found =>
    split at done
    next changed made =>
      cases done
      exact ⟨(Array.getElem?_eq_some_iff.mp found).1,
        .one found (becomes c changed (sound.entries id c found) made)⟩
    next => cases done

/-- An operation that yields no object. -/
theorem plain_sound {value : Value} (plain : value.Exists heap) :
    Operation.SoundOn heap (pure value) := by
  intro result left done
  cases done
  exact ⟨plain, .none⟩

theorem throw_sound (cause : Fault) : Operation.SoundOn heap (throw cause) := by
  intro value left done
  cases done

theorem ofExcept_sound {α : Type} {result : Except Fault α} {next : α → Operation Value}
    (later : ∀ value, (next value).SoundOn heap) :
    (Operation.ofExcept result >>= next).SoundOn heap := by
  cases result with
  | ok value => exact later value
  | error cause => exact throw_sound cause

theorem content_sound (sound : heap.Sound) (id : CollectionId)
    {next : Collection → Operation Value}
    (later : ∀ c, c.Holds (Value.Exists heap) → (next c).SoundOn heap) :
    (content id >>= next).SoundOn heap := by
  intro value left done
  replace done : EStateM.bind (content id) next heap.collections = .ok value left := done
  unfold EStateM.bind at done
  rw [content_eq] at done
  cases found : heap.collections[id]? with
  | none =>
      rw [found] at done
      cases done
  | some c =>
      rw [found] at done
      exact later c (sound.entries id c found) value left done

theorem add_sound (sound : heap.Sound) {left right : Value} (leftThere : left.Exists heap)
    (rightThere : right.Exists heap) : (add left right).SoundOn heap := by
  unfold add
  split
  case h_1 | h_2 | h_3 | h_4 => exact plain_sound trivial
  case h_5 left right =>
    exact content_sound sound right fun other others =>
      changing_sound sound left fun c made holds done => holds.concat others done
  case h_6 =>
    exact changing_sound sound _ fun c made holds done => holds.push rightThere done
  case h_7 =>
    exact changing_sound sound _ fun c made holds done => holds.unshift leftThere done
  case h_8 => exact throw_sound _

theorem subtract_sound (sound : heap.Sound) (left right : Value) :
    (subtract left right).SoundOn heap := by
  unfold subtract
  split
  case h_1 => exact plain_sound trivial
  case h_2 id _ =>
    exact ofExcept_sound fun count =>
      changing_sound sound id fun c made holds done => holds.removeFromEnd done
  case h_3 _ id =>
    exact ofExcept_sound fun count =>
      changing_sound sound id fun c made holds done => holds.removeFromStart done
  case h_4 => exact throw_sound _

theorem onNumbers_sound {operation : Float → Float → Operation Value}
    (plain : ∀ left right, (operation left right).SoundOn heap) (left right : Value) :
    (onNumbers operation left right).SoundOn heap := by
  unfold onNumbers
  split
  · exact plain _ _
  · exact throw_sound _

theorem divide_sound (left right : Float) : (divide left right).SoundOn heap := by
  unfold divide
  split
  · exact throw_sound _
  · exact plain_sound trivial

theorem binary_sound (sound : heap.Sound) (op : BinaryOp) {left right : Value}
    (leftThere : left.Exists heap) (rightThere : right.Exists heap) :
    (binary op left right).SoundOn heap := by
  cases op with
  | add => exact add_sound sound leftThere rightThere
  | sub => exact subtract_sound sound left right
  | div => exact onNumbers_sound divide_sound left right
  | equal | notEqual => exact plain_sound trivial
  | mul | rem | less | lessEqual | greater | greaterEqual =>
      refine onNumbers_sound (fun _ _ => ?_) left right
      exact plain_sound trivial

theorem unary_exists {op : UnaryOp} {operand value : Value}
    (done : unary op operand = .ok value) : value.Exists heap := by
  unfold unary at done
  split at done
  · cases done
    trivial
  · cases done
  · cases done
    trivial

theorem ok_of_bind {α β : Type} {first : Except Fault α} {next : α → Except Fault β} {result : β}
    (done : first >>= next = .ok result) :
    ∃ value, first = .ok value ∧ next value = .ok result := by
  cases first with
  | ok value => exact ⟨value, rfl, done⟩
  | error cause => cases done

/-- A character is no object, and an entry is there. -/
theorem subscript_exists (sound : heap.Sound) {target index value : Value}
    (done : subscript heap target index = .ok value) : value.Exists heap := by
  unfold subscript at done
  split at done
  next text =>
    obtain ⟨place, -, done⟩ := ok_of_bind done
    split at done
    · cases done
      trivial
    · cases done
  next id =>
    obtain ⟨place, -, done⟩ := ok_of_bind done
    split at done
    next entry found =>
      cases done
      obtain ⟨c, isThere, isEntry⟩ := Option.bind_eq_some_iff.mp found
      exact sound.entries id c isThere place value isEntry
    next => cases done
  next => cases done

theorem setEntry_sound (sound : heap.Sound) (target index : Value) {value : Value}
    (there : value.Exists heap) : (setEntry target index value).SoundOn heap := by
  unfold setEntry
  split
  next id =>
    refine ofExcept_sound fun place result left done => ?_
    have changed : (changing id (Collection.set place value)).SoundOn heap :=
      changing_sound sound id fun c made holds isSet => holds.set there isSet
    replace done : EStateM.bind (changing id (Collection.set place value)) (fun _ => pure value)
        heap.collections = .ok result left := done
    unfold EStateM.bind at done
    split at done
    next _ middle isDone =>
      cases done
      exact ⟨there, (changed _ _ isDone).2⟩
    next => cases done
  next => exact throw_sound _

end Operator

/-! ## Entries of what is immutable -/

/-- Whether a value can be an index: a whole number in range. -/
def Value.IsIndex : Value → Prop
  | .number x => ∃ index, Number.natural? x = some index ∧ index ≤ Operator.largestIndex
  | _ => False

theorem Operator.asIndex_of_isIndex {value : Value} (isIndex : value.IsIndex) :
    ∃ index, asIndex value = .ok index := by
  cases value with
  | number x =>
      obtain ⟨index, whole, inRange⟩ := isIndex
      exact ⟨index, by simp [asIndex, whole, inRange]⟩
  | _ => exact isIndex.elim

theorem Operator.asIndex_of_not_isIndex {value : Value} (noIndex : ¬ value.IsIndex) :
    asIndex value = .error .badIndex := by
  unfold asIndex
  split
  next x =>
    split
    next index whole =>
      split
      next inRange => exact absurd ⟨index, whole, inRange⟩ noIndex
      next => rfl
    next => rfl
  next => rfl

/-- What cannot be changed is not, whatever the index. -/
theorem Operator.setEntry_immutable {heap : Heap} {id : CollectionId} {c : Collection}
    (found : heap.collections[id]? = some c) (immutable : c.mutable = false) (index value : Value) :
    (index.IsIndex → setEntry (.collection id) index value heap.collections =
      .error .immutableCollection heap.collections) ∧
    (¬ index.IsIndex → setEntry (.collection id) index value heap.collections =
      .error .badIndex heap.collections) := by
  constructor
  · intro isIndex
    obtain ⟨place, counted⟩ := asIndex_of_isIndex isIndex
    have failed : Collection.set place value c = .error .immutableCollection c := by
      rw [Collection.set_eq, immutable]
      rfl
    have changes := changing_failed found (Collection.set_guarded place value) failed
    unfold setEntry
    rw [counted]
    show EStateM.bind (changing id (Collection.set place value)) _ heap.collections = _
    unfold EStateM.bind
    rw [changes]
  · intro noIndex
    unfold setEntry
    rw [asIndex_of_not_isIndex noIndex]
    rfl

end Scriptlet
