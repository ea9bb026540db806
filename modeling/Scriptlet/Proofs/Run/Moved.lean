import Scriptlet.Proofs.Run.Lockstep
import Scriptlet.Proofs.Store.Guarded
import Scriptlet.Proofs.Store.MovedHeaps

/-!
Contract: runs of machines that differ by a relocation.

Owns: `Machine.MovedTo`, by which a machine has the heap of another behind other
objects, and has written what the other one has behind something else; and
`relocating_lawful`, by which such machines run in step: no run can tell where
its objects are.

Does not own: the relations of heaps (`Scriptlet.Proofs.Store.MovedHeaps`), and
how steps make up runs (`Scriptlet.Proofs.Run.Lockstep`).
-/

set_option autoImplicit false

namespace Scriptlet

/-! ## Operators -/

/-- Both operations end alike, on collections that are the same but for where they are, and
leave such collections. -/
def Operation.MovedTo (move : Relocation) {α β : Type} (relation : α → β → Prop)
    (operation : Operation α) (operation' : Operation β) : Prop :=
  ∀ left right, MovedArray move.collections (Collection.MovedTo move) left right →
    SameResult relation (MovedArray move.collections (Collection.MovedTo move)) (operation left)
      (operation' right)

/-- Two operations that yield moved values. -/
abbrev Operation.Moves (move : Relocation) : Operation Value → Operation Value → Prop :=
  Operation.MovedTo move (Value.MovedTo move)

namespace Operation

variable {move : Relocation} {α β γ δ : Type} {relation : α → β → Prop} {result : γ → δ → Prop}

theorem MovedTo.pure {value : α} {value' : β} (related : relation value value') :
    MovedTo move relation (Pure.pure value) (Pure.pure value') :=
  fun _ _ moved => .ok related moved

theorem MovedTo.throw (cause : Fault) :
    MovedTo move relation (MonadExcept.throw cause) (MonadExcept.throw cause) :=
  fun _ _ moved => .error cause moved

theorem MovedTo.bind {first : Operation α} {first' : Operation β} {next : α → Operation γ}
    {next' : β → Operation δ} (same : MovedTo move relation first first')
    (later : ∀ value value', relation value value' →
      MovedTo move result (next value) (next' value')) :
    MovedTo move result (first >>= next) (first' >>= next') := by
  intro left right moved
  exact (same left right moved).bind fun value value' _ _ related states =>
    later value value' related _ _ states

theorem MovedTo.ofExcept {computed : Except Fault α} {computed' : Except Fault β}
    (same : SameEnd relation computed computed') :
    MovedTo move relation (ofExcept computed) (ofExcept computed') := by
  cases same with
  | ok related => exact .pure related
  | error cause => exact .throw cause

end Operation

namespace Operator

variable {move : Relocation} {left right : Heap}

theorem content_moved (id : CollectionId) :
    (content id).MovedTo move (Collection.MovedTo move) (content (id + move.collections)) := by
  intro left right moved
  rw [content_eq, content_eq]
  have here := moved.get id
  generalize left[id]? = found at here
  generalize right[id + move.collections]? = found' at here
  cases here with
  | none => exact .error _ moved
  | some same => exact .ok same moved

theorem changing_moved (id : CollectionId) {change change' : Collection.Change Unit}
    (same : ∀ c c', c.MovedTo move c' →
      SameResult Eq (Collection.MovedTo move) (change c) (change' c')) :
    (changing id change).Moves move (changing (id + move.collections) change') := by
  intro left right moved
  have here := moved.get id
  unfold changing
  generalize left[id]? = found at here
  generalize right[id + move.collections]? = found' at here
  cases here with
  | none => exact .error _ moved
  | @some c c' alike =>
      have changed := same c c' alike
      dsimp only
      generalize change c = end_ at changed
      generalize change' c' = end' at changed
      cases changed with
      | ok _ made => exact .ok (.collection id) (moved.set id made)
      | error cause kept => exact .error cause (moved.set id kept)

theorem add_moved {first first' second second' : Value} (one : first.MovedTo move first')
    (another : second.MovedTo move second') :
    (add first second).Moves move (add first' second') := by
  have front := one
  have back := another
  cases one with
  | collection id =>
      cases another with
      | collection other =>
          exact (content_moved other).bind fun c c' added =>
            changing_moved id fun _ _ moved => moved.concat added
      | _ => exact changing_moved id fun _ _ moved => moved.push back
  | number value =>
      cases another with
      | number other => exact .pure (.number _)
      | string other => exact .pure (.string _)
      | collection id => exact changing_moved id fun _ _ moved => moved.unshift front
      | _ => exact .throw _
  | string value =>
      cases another with
      | number other => exact .pure (.string _)
      | string other => exact .pure (.string _)
      | collection id => exact changing_moved id fun _ _ moved => moved.unshift front
      | _ => exact .throw _
  | _ =>
      cases another with
      | collection id => exact changing_moved id fun _ _ moved => moved.unshift front
      | _ => exact .throw _

theorem removeCount_moved (count : Float) : SameEnd Eq (removeCount count) (removeCount count) := by
  cases removeCount count with
  | ok number => exact .ok rfl
  | error cause => exact .error cause

theorem subtract_moved {first first' second second' : Value} (one : first.MovedTo move first')
    (another : second.MovedTo move second') :
    (subtract first second).Moves move (subtract first' second') := by
  cases one with
  | number value =>
      cases another with
      | number other => exact .pure (.number _)
      | collection id =>
          refine (Operation.MovedTo.ofExcept (removeCount_moved value)).bind fun count count' same => ?_
          rw [same]
          exact changing_moved id fun _ _ moved => moved.removeFromStart count'
      | _ => exact .throw _
  | collection id =>
      cases another with
      | number value =>
          refine (Operation.MovedTo.ofExcept (removeCount_moved value)).bind fun count count' same => ?_
          rw [same]
          exact changing_moved id fun _ _ moved => moved.removeFromEnd count'
      | _ => exact .throw _
  | _ =>
      cases another with
      | _ => exact .throw _

theorem onNumbers_moved {operation : Float → Float → Operation Value}
    (same : ∀ value other, (operation value other).Moves move (operation value other))
    {first first' second second' : Value} (one : first.MovedTo move first')
    (another : second.MovedTo move second') :
    (onNumbers operation first second).Moves move (onNumbers operation first' second') := by
  cases one with
  | number value =>
      cases another with
      | number other => exact same value other
      | _ => exact .throw _
  | _ =>
      cases another with
      | _ => exact .throw _

theorem same_moved {first first' second second' : Value} (one : first.MovedTo move first')
    (another : second.MovedTo move second') : first.same second = first'.same second' := by
  cases one with
  | collection id =>
      cases another with
      | collection other => simp [Value.same]
      | _ => rfl
  | @function id noClock =>
      cases another with
      | function => simp [Value.same]
      | _ => rfl
  | _ =>
      cases another with
      | _ => rfl

theorem binary_moved (op : BinaryOp) {first first' second second' : Value}
    (one : first.MovedTo move first') (another : second.MovedTo move second') :
    (binary op first second).Moves move (binary op first' second') := by
  have numbers : ∀ value : Float,
      Operation.Moves move (pure (.number value)) (pure (.number value)) :=
    fun value => .pure (.number value)
  have booleans : ∀ value : Bool, Operation.Moves move (pure (.bool value)) (pure (.bool value)) :=
    fun value => .pure (.bool value)
  cases op with
  | add => exact add_moved one another
  | sub => exact subtract_moved one another
  | div =>
      refine onNumbers_moved (fun value other => ?_) one another
      unfold divide
      split
      · exact .throw _
      · exact numbers _
  | mul | rem => exact onNumbers_moved (fun _ _ => numbers _) one another
  | equal | notEqual =>
      unfold binary
      rw [same_moved one another]
      exact booleans _
  | less | lessEqual | greater | greaterEqual =>
      exact onNumbers_moved (fun _ _ => booleans _) one another

theorem truthy_moved {value value' : Value} (moved : value.MovedTo move value') :
    value.isTruthy = value'.isTruthy := by
  cases moved <;> rfl

theorem unary_moved (op : UnaryOp) {value value' : Value} (moved : value.MovedTo move value') :
    SameEnd (Value.MovedTo move) (unary op value) (unary op value') := by
  cases op with
  | negate =>
      cases moved with
      | number value => exact .ok (.number _)
      | _ => exact .error _
  | not =>
      dsimp only [unary]
      rw [truthy_moved moved]
      exact .ok (.bool _)

theorem asIndex_moved {value value' : Value} (moved : value.MovedTo move value') :
    SameEnd Eq (asIndex value) (asIndex value') := by
  cases moved with
  | number value =>
      cases asIndex (.number value) with
      | ok index => exact .ok rfl
      | error cause => exact .error cause
  | _ => exact .error _

theorem subscript_moved (heaps : left.MovedTo move right) {target target' index index' : Value}
    (one : target.MovedTo move target') (another : index.MovedTo move index') :
    SameEnd (Value.MovedTo move) (subscript left target index)
      (subscript right target' index') := by
  cases one with
  | string text =>
      refine (asIndex_moved another).bind fun position position' same => ?_
      subst same
      cases text.toList[position]? with
      | some c => exact .ok (.string _)
      | none => exact .error _
  | collection id =>
      refine (asIndex_moved another).bind fun position position' same => ?_
      subst same
      have here := heaps.collections.get id
      generalize left.collections[id]? = found at here
      generalize right.collections[id + move.collections]? = found' at here
      cases here with
      | none => exact .error _
      | @some c c' moved =>
          have entry := moved.get? position
          rw [Option.bind_some, Option.bind_some]
          generalize c.get? position = value at entry
          generalize c'.get? position = value' at entry
          cases entry with
          | none => exact .error _
          | some same => exact .ok same
  | _ => exact .error _

theorem setEntry_moved {target target' index index' value value' : Value}
    (one : target.MovedTo move target') (another : index.MovedTo move index')
    (assigned : value.MovedTo move value') :
    (setEntry target index value).Moves move (setEntry target' index' value') := by
  cases one with
  | collection id =>
      refine (Operation.MovedTo.ofExcept (asIndex_moved another)).bind
        fun position position' same => ?_
      subst same
      exact (changing_moved id fun _ _ moved => moved.set position assigned).bind
        fun _ _ _ => .pure assigned
  | _ => exact .throw _

end Operator

/-! ## Machines -/

/-- The second machine has the heap of the first one behind other objects, and its
output behind what was written before. Their clocks may differ. -/
structure Machine.MovedTo (move : Relocation) (left right : Machine) : Prop where
  heap : left.heap.MovedTo move right.heap
  current : right.current = left.current + move.scopes
  inside : left.current < left.heap.scopes.size
  globals : right.globals = left.globals + move.scopes
  globalsInside : left.globals < left.heap.scopes.size
  room : right.output.room = left.output.room
  written : right.output.written = move.written ++ left.output.written

/-- Machines that differ by a relocation, in step. The first one only gains
scopes. -/
def relocating (move : Relocation) : Lockstep where
  symbols := move.symbols
  value := Value.MovedTo move
  machine := Machine.MovedTo move
  step _ before after := before.heap.scopes.size ≤ after.heap.scopes.size

section Steps

variable {move : Relocation} {α β : Type} {relation : α → β → Prop}

/-- Runs that only compute. -/
theorem ofExcept_moves (site : Site) {result result' : Except Fault Value}
    (same : SameEnd (Value.MovedTo move) result result') :
    InStep (relocating move) .quiet (Value.MovedTo move) (.ofExcept site result)
      (.ofExcept site result') := by
  intro before before' machines
  cases same with
  | ok related => exact .done related machines (Nat.le_refl _)
  | error cause => exact .aborted machines (Nat.le_refl _)

theorem reading_moves (site : Site) {operation operation' : Heap → Except Fault Value}
    (same : ∀ left right : Heap, left.MovedTo move right →
      SameEnd (Value.MovedTo move) (operation left) (operation' right)) :
    InStep (relocating move) .quiet (Value.MovedTo move) (.reading site operation)
      (.reading site operation') := by
  intro before before' machines
  have here := same before.heap before'.heap machines.heap
  unfold Run.reading
  generalize operation before.heap = result at here
  generalize operation' before'.heap = result' at here
  cases here with
  | ok related => exact .done related machines (Nat.le_refl _)
  | error cause => exact .aborted machines (Nat.le_refl _)

theorem yielding_moves (site : Site) {operation operation' : Operation Value}
    (same : operation.Moves move operation') :
    InStep (relocating move) .quiet (Value.MovedTo move) (.yielding site operation)
      (.yielding site operation') := by
  intro before before' machines
  have here := same _ _ machines.heap.collections
  unfold Run.yielding
  generalize operation before.heap.collections = result at here
  generalize operation' before'.heap.collections = result' at here
  cases here with
  | ok related left =>
      exact .done related { machines with heap := machines.heap.withCollections left }
        (Nat.le_refl _)
  | error cause left =>
      exact .aborted { machines with heap := machines.heap.withCollections left } (Nat.le_refl _)

theorem site_eq (lawful : move.Lawful) {name name' : Name}
    (same : Name.Alike move.symbols name name') : name.site = name'.site := by
  unfold Name.site
  rw [lawful.name same.symbol, same.line]

theorem lookup_moves (lawful : move.Lawful) {name name' : Name}
    (same : Name.Alike move.symbols name name') :
    InStep (relocating move) .quiet (Value.MovedTo move) (.lookup name) (.lookup name') := by
  intro before before' machines
  have found := Heap.lookup_moved lawful machines.heap same.symbol machines.inside
  unfold Run.lookup
  rw [machines.current, site_eq lawful same]
  generalize before.heap.lookup before.current name.symbol = result at found
  generalize before'.heap.lookup (before.current + move.scopes) name'.symbol = result' at found
  cases found with
  | ok related => exact .done related machines (Nat.le_refl _)
  | error cause => exact .aborted machines (Nat.le_refl _)

/-- A binding that is made on both sides. -/
theorem bind_moves {noise : Noise} (lawful : move.Lawful) {before before' : Machine}
    (machines : before.MovedTo move before') (owner : ScopeId) {symbol symbol' : Symbol}
    (named : move.symbols symbol symbol') {binding binding' : Binding}
    (same : binding.MovedTo move binding') :
    Outcome.InStep (relocating move) noise Eq before
      (.done () { before with heap := before.heap.bind owner symbol binding })
      (.done () { before' with
        heap := before'.heap.bind (owner + move.scopes) symbol' binding' }) := by
  have size : (before.heap.bind owner symbol binding).scopes.size = before.heap.scopes.size := by
    rw [Heap.bind, Array.size_modify]
  refine .done rfl ⟨machines.heap.bind lawful owner named same, machines.current, ?_,
    machines.globals, ?_, machines.room, machines.written⟩ (Nat.le_of_eq size.symm)
  · rw [size]
    exact machines.inside
  · rw [size]
    exact machines.globalsInside

theorem assign_moves (lawful : move.Lawful) {name name' : Name} {value value' : Value}
    (same : Name.Alike move.symbols name name') (moved : value.MovedTo move value') :
    InStep (relocating move) .quiet Eq (.assign name value) (.assign name' value') := by
  intro before before' machines
  have found := Heap.assignable_moved lawful machines.heap same.symbol machines.inside
  rw [← machines.current] at found
  rw [Run.assign_eq, Run.assign_eq]
  rw [site_eq lawful same]
  generalize before.heap.assignable before.current name.symbol = result at found
  generalize before'.heap.assignable before'.current name'.symbol = result' at found
  cases found with
  | @ok owner owner' isOwner =>
      subst isOwner
      have bindings : Binding.MovedTo move ⟨some value, false⟩ ⟨some value', false⟩ :=
        ⟨.some moved, rfl⟩
      exact bind_moves lawful machines owner same.symbol bindings
  | error cause => exact .aborted machines (Nat.le_refl _)

theorem declare_moves (lawful : move.Lawful) {name name' : Name}
    (same : Name.Alike move.symbols name name') {binding binding' : Binding}
    (moved : binding.MovedTo move binding') :
    InStep (relocating move) .loud Eq (.declare name binding) (.declare name' binding') := by
  intro before before' machines
  have bound : Outcome.InStep (relocating move) .loud Eq before _ _ :=
    bind_moves lawful machines before.current same.symbol moved
  rw [← machines.current] at bound
  exact bound

theorem newCollection_moves {values values' : List Value} (mutable : Bool)
    (same : List.Forall₂ (Value.MovedTo move) values values') :
    InStep (relocating move) .quiet (Value.MovedTo move) (.newCollection values mutable)
      (.newCollection values' mutable) := by
  intro before before' machines
  unfold Run.newCollection
  rw [machines.heap.collections.size]
  exact .done (.collection _)
    { machines with heap := machines.heap.addCollection (Collection.ofList_moved same mutable) }
    (Nat.le_refl _)

theorem newClosure_moves {name name' : Option Name} {parameters parameters' : List Name}
    {body body' : List Stmt} (named : Option.Rel (Name.Alike move.symbols) name name')
    (taken : List.Forall₂ (Name.Alike move.symbols) parameters parameters')
    (statements : List.Forall₂ (Stmt.Alike move.symbols) body body') :
    InStep (relocating move) .quiet (Value.MovedTo move) (.newClosure name parameters body)
      (.newClosure name' parameters' body') := by
  intro before before' machines
  have added := machines.heap.addClosure machines.inside named taken statements
  rw [← machines.current] at added
  unfold Run.newClosure
  rw [machines.heap.functions.size]
  exact .done (.function (Nat.ne_of_gt machines.heap.young.begun))
    { machines with heap := added } (Nat.le_refl _)

theorem display_moves (lawful : move.Lawful) {value value' : Value}
    (moved : value.MovedTo move value') :
    InStep (relocating move) .quiet Eq (.display value) (.display value') :=
  fun _ _ machines =>
    .done (Heap.display_moved lawful machines.heap moved) machines (Nat.le_refl _)

theorem write_moved {output output' : Output} (text : String) (room : output'.room = output.room)
    (written : output'.written = move.written ++ output.written) :
    (output'.write text).room = (output.write text).room ∧
      (output'.write text).written = move.written ++ (output.write text).written := by
  unfold Output.write
  dsimp only
  rw [room, written]
  cases output.room with
  | none => exact ⟨rfl, ByteArray.append_assoc⟩
  | some left => exact ⟨rfl, ByteArray.append_assoc⟩

theorem print_moves (lawful : move.Lawful) {value value' : Value}
    (moved : value.MovedTo move value') :
    InStep (relocating move) .quiet Eq (.print value) (.print value') := by
  intro before before' machines
  have text := Heap.display_moved lawful machines.heap moved
  obtain ⟨room, written⟩ := write_moved (before.heap.display value ++ "\n") machines.room
    machines.written
  have fits : before'.output.fits (before.heap.display value ++ "\n") =
      before.output.fits (before.heap.display value ++ "\n") := by
    unfold Output.fits
    rw [machines.room]
  unfold Run.print
  dsimp only
  rw [← text, fits]
  split
  · exact .done rfl { machines with room := room, written := written } (Nat.le_refl _)
  · exact .aborted { machines with room := room, written := written } (Nat.le_refl _)

/-- A run in a new scope. Both machines leave it for the scope they were in. -/
theorem inNewScope_moves {before before' : Machine} (machines : before.MovedTo move before')
    {scope scope' : Scope} (scopes : scope.MovedTo move scope')
    (older : ∀ parent, scope.parent = some parent → parent < before.heap.scopes.size)
    {body : Run α} {body' : Run β} (inner : InStep (relocating move) .loud relation body body') :
    (Run.inNewScope scope body before).InStep (relocating move) .quiet relation before
      (Run.inNewScope scope' body' before') := by
  have larger : before.heap.scopes.size ≤ (before.heap.addScope scope).scopes.size := by
    rw [Heap.addScope, Array.size_push]
    omega
  have entered : Machine.MovedTo move
      { before with heap := before.heap.addScope scope, current := before.heap.scopes.size }
      { before' with heap := before'.heap.addScope scope', current := before'.heap.scopes.size } := by
    refine ⟨machines.heap.addScope scopes older, machines.heap.scopes.size, ?_, machines.globals,
      Nat.lt_of_lt_of_le machines.globalsInside larger, machines.room, machines.written⟩
    show before.heap.scopes.size < (before.heap.scopes.push scope).size
    rw [Array.size_push]
    omega
  have here := inner _ _ entered
  unfold Run.inNewScope
  dsimp only
  generalize body _ = outcome at here
  generalize body' _ = outcome' at here
  -- What ran only added scopes, so the old one is still there.
  have left : ∀ {after after' : Machine}, after.MovedTo move after' →
      (before.heap.addScope scope).scopes.size ≤ after.heap.scopes.size →
      Machine.MovedTo move { after with current := before.current }
        { after' with current := before'.current } := by
    intro after after' machinesAfter grown
    exact { machinesAfter with
      current := machines.current
      inside := Nat.lt_of_lt_of_le machines.inside (Nat.le_trans larger grown) }
  cases here with
  | done related machines stepped =>
      exact .done related (left machines stepped) (Nat.le_trans larger stepped)
  | aborted machines stepped => exact .aborted (left machines stepped) (Nat.le_trans larger stepped)
  | exhausted => exact .exhausted

theorem nested_moves {body : Run α} {body' : Run β}
    (inner : InStep (relocating move) .loud relation body body') :
    InStep (relocating move) .quiet relation (.nested body) (.nested body') := by
  intro before before' machines
  unfold Run.nested
  rw [machines.current]
  refine inNewScope_moves machines (.empty (some before.current)) ?_ inner
  intro parent isParent
  cases isParent
  exact machines.inside

/-- Parameters bound to arguments, one after the other. -/
theorem bindAll_moved (lawful : move.Lawful) {parameters parameters' : List Name}
    (taken : List.Forall₂ (Name.Alike move.symbols) parameters parameters')
    {arguments arguments' : List Value}
    (given : List.Forall₂ (Value.MovedTo move) arguments arguments') {inner inner' : Scope}
    (moved : inner.MovedTo move inner') :
    ((parameters.zip arguments).foldl
        (fun inner pair => inner.bind pair.1.symbol ⟨some pair.2, false⟩) inner).MovedTo move
      ((parameters'.zip arguments').foldl
        (fun inner pair => inner.bind pair.1.symbol ⟨some pair.2, false⟩) inner') := by
  induction taken generalizing arguments arguments' inner inner' with
  | nil => exact moved
  | cons first rest inductionHypothesis =>
      cases given with
      | nil => exact moved
      | cons same others =>
          have bindings : Binding.MovedTo move ⟨some _, false⟩ ⟨some _, false⟩ := ⟨.some same, rfl⟩
          exact inductionHypothesis others (moved.bind lawful first.symbol bindings)

/-- What an empty scope has, and what keeps it when a parameter is bound to an argument, the
scope of a call has. -/
theorem callScope_induction {property : Scope → Prop} (scope : ScopeId) (parameters : List Name)
    (arguments : List Value) (empty : property (.empty (some scope)))
    (bind : ∀ inner, property inner → ∀ name ∈ parameters, ∀ value ∈ arguments,
      property (inner.bind name.symbol ⟨some value, false⟩)) :
    property (Run.callScope scope parameters arguments) := by
  refine List.foldlRecOn _ _ empty fun inner holds pair inside => ?_
  obtain ⟨isParameter, isArgument⟩ := List.of_mem_zip inside
  exact bind inner holds _ isParameter _ isArgument

theorem callScope_parent (scope : ScopeId) (parameters : List Name) (arguments : List Value) :
    (Run.callScope scope parameters arguments).parent = some scope :=
  @callScope_induction (fun inner => inner.parent = some scope) scope parameters arguments rfl
    fun _ holds _ _ _ _ => holds

theorem returned_moved {flow flow' : Flow} (same : Flow.Alike (relocating move) flow flow') :
    flow.returned.MovedTo move flow'.returned := by
  cases same with
  | normal => exact .nil
  | leave => exact .nil
  | next => exact .nil
  | result same => exact same

theorem call_moves (lawful : move.Lawful) {execute : Stmt → Run Flow}
    (body : ∀ {list list'}, List.Forall₂ (Stmt.Alike move.symbols) list list' →
      InStep (relocating move) .loud (Flow.Alike (relocating move)) (.sequence execute list)
        (.sequence execute list'))
    {callee callee' : Value} (called : callee.MovedTo move callee')
    {arguments arguments' : List Value}
    (given : List.Forall₂ (Value.MovedTo move) arguments arguments') (site : Site) :
    InStep (relocating move) .quiet (Value.MovedTo move) (.call execute callee arguments site)
      (.call execute callee' arguments' site) := by
  intro before before' machines
  cases called with
  | @function id noClock =>
      have here := machines.heap.functions.get id
      generalize found : before.heap.functions[id]? = function at here
      generalize found' : before'.heap.functions[id + move.functions]? = function' at here
      cases here with
      | none =>
          rw [Follows.call_none found, Follows.call_none found']
          exact .aborted machines (Nat.le_refl _)
      | some moved =>
          rw [Follows.call_some found, Follows.call_some found', ← moved.arity_eq, given.length_eq]
          split
          · cases moved with
            | clock => exact absurd (machines.heap.young.clock id found) noClock
            | @closure name name' parameters parameters' code code' scope named taken statements =>
                have older := machines.heap.young.closure id _ _ _ _ found
                have scopes := bindAll_moved lawful taken given (.empty (some scope))
                refine (inNewScope_moves machines scopes ?_ (body statements)).map
                  fun _ _ => returned_moved
                intro parent isParent
                have same : some scope = some parent :=
                  (callScope_parent scope parameters arguments).symm.trans isParent
                cases same
                exact older
          · exact .aborted machines (Nat.le_refl _)
  | _ => exact .aborted machines (Nat.le_refl _)

end Steps

/-- **No run can tell where its objects are.** -/
theorem relocating_lawful {move : Relocation} (lawful : move.Lawful) :
    (relocating move).Lawful where
  refl _ _ := Nat.le_refl _
  trans := Nat.le_trans
  louder stepped := stepped
  constant literal := by
    cases literal with
    | nil => exact .nil
    | bool value => exact .bool value
    | number value => exact .number value
    | string value => exact .string value
  truthy := Operator.truthy_moved
  same := Operator.same_moved
  unary op site moved := ofExcept_moves site (Operator.unary_moved op moved)
  binary op site one another :=
    yielding_moves site (Operator.binary_moved op one another)
  subscript site one another :=
    reading_moves site fun _ _ heaps => Operator.subscript_moved heaps one another
  setEntry site one another assigned :=
    yielding_moves site (Operator.setEntry_moved one another assigned)
  lookup := lookup_moves lawful
  assign := assign_moves lawful
  declare := by
    intro name name' value value' constant same moved
    have bindings : Binding.MovedTo move ⟨value, constant⟩ ⟨value', constant⟩ := ⟨moved, rfl⟩
    exact declare_moves lawful same bindings
  newCollection := newCollection_moves
  newClosure := newClosure_moves
  display := display_moves lawful
  print := print_moves lawful
  nested := nested_moves
  call site body called given := call_moves lawful body called given site

end Scriptlet
