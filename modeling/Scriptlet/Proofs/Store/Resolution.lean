import Scriptlet.Proofs.Store.MovedHeaps
import Scriptlet.Proofs.Store.Variables
import Scriptlet.Run.Machine

/-!
Contract: which binding a name means.

The chain of a scope is the scope, its parent, the parent of that, and so on up to one
without a parent. A name means its first binding along the chain, or nothing.

Owns: `Heap.Chain`, `Heap.Nearest` and `Heap.Unbound`; that the walk of a heap finds just
that binding (`Heap.nearest?_eq_some_iff`, `Heap.nearest?_eq_none_iff`); what a binding
that is made changes of it (`Heap.nearest?_bind`); and the main statement
`names_mean_one_binding`, by which reading and assigning agree on it.

## Why as many steps as there are scopes are enough

A scope has one chain at most. So none is twice on its own chain, since the chain from
there on would be shorter than itself, and a chain is no longer than there are scopes. It
does not matter in which order the scopes were made.
-/

set_option autoImplicit false

namespace Scriptlet

namespace Heap

/-! ## Chains -/

/-- The scopes from one on, each followed by its parent. The last one has none. -/
inductive Chain (heap : Heap) : ScopeId → List ScopeId → Prop where
  | last {id : ScopeId} {scope : Scope} (found : heap.scopes[id]? = some scope)
      (top : scope.parent = none) : Chain heap id [id]
  | inside {id parent : ScopeId} {scope : Scope} {chain : List ScopeId}
      (found : heap.scopes[id]? = some scope) (above : scope.parent = some parent)
      (further : Chain heap parent chain) : Chain heap id (id :: chain)

/-- Every scope has a chain: no parent is missing, and no scope is inside itself. -/
def Chained (heap : Heap) : Prop :=
  ∀ id, id < heap.scopes.size → ∃ chain, heap.Chain id chain

/-- What a name is bound to in a scope itself. -/
def bound? (heap : Heap) (id : ScopeId) (symbol : Symbol) : Option Binding :=
  heap.scopes[id]?.bind (·.find? symbol)

/-- The binding of a name in the first scope of the chain that has one. -/
def Nearest (heap : Heap) (start : ScopeId) (symbol : Symbol) (owner : ScopeId)
    (binding : Binding) : Prop :=
  ∃ before after, heap.Chain start (before ++ owner :: after) ∧
    (∀ id ∈ before, heap.bound? id symbol = none) ∧ heap.bound? owner symbol = some binding

/-- No scope of the chain binds the name. -/
def Unbound (heap : Heap) (start : ScopeId) (symbol : Symbol) : Prop :=
  ∃ chain, heap.Chain start chain ∧ ∀ id ∈ chain, heap.bound? id symbol = none

variable {heap : Heap} {symbol : Symbol}

theorem Chain.unique {id : ScopeId} {chain other : List ScopeId} (isChain : heap.Chain id chain)
    (isOther : heap.Chain id other) : chain = other := by
  induction isChain generalizing other with
  | last found top =>
      cases isOther with
      | last _ _ => rfl
      | inside foundOther above _ =>
          cases found.symm.trans foundOther
          cases top.symm.trans above
  | inside found above _ inductionHypothesis =>
      cases isOther with
      | last foundOther top =>
          cases found.symm.trans foundOther
          cases top.symm.trans above
      | inside foundOther aboveOther further =>
          cases found.symm.trans foundOther
          cases above.symm.trans aboveOther
          rw [inductionHypothesis further]

/-- From each scope of a chain on, the rest is its own chain. -/
theorem Chain.from_mem {id inner : ScopeId} {chain : List ScopeId} (isChain : heap.Chain id chain)
    (inside : inner ∈ chain) : ∃ rest, heap.Chain inner rest ∧ rest.length ≤ chain.length := by
  induction isChain with
  | @last id scope found top =>
      cases List.mem_singleton.mp inside
      exact ⟨[inner], .last found top, Nat.le_refl _⟩
  | @inside id parent scope chain found above further inductionHypothesis =>
      rcases List.mem_cons.mp inside with rfl | later
      · exact ⟨inner :: chain, .inside found above further, Nat.le_refl _⟩
      · obtain ⟨rest, isRest, shorter⟩ := inductionHypothesis later
        exact ⟨rest, isRest, Nat.le_succ_of_le shorter⟩

theorem Chain.nodup {id : ScopeId} {chain : List ScopeId} (isChain : heap.Chain id chain) :
    chain.Nodup := by
  induction isChain with
  | last found top => simp
  | @inside id parent scope chain found above further inductionHypothesis =>
      refine List.nodup_cons.mpr ⟨fun again => ?_, inductionHypothesis⟩
      -- a second chain of the same scope, and a shorter one
      obtain ⟨rest, isRest, shorter⟩ := further.from_mem again
      have same := Chain.unique (.inside found above further) isRest
      rw [← same, List.length_cons] at shorter
      omega

theorem Chain.exist {id : ScopeId} {chain : List ScopeId} (isChain : heap.Chain id chain) :
    ∀ inner ∈ chain, inner < heap.scopes.size := by
  induction isChain with
  | last found top => simpa using (Array.getElem?_eq_some_iff.mp found).1
  | inside found above further inductionHypothesis =>
      exact List.forall_mem_cons.mpr ⟨(Array.getElem?_eq_some_iff.mp found).1, inductionHypothesis⟩

theorem Chain.length_le {id : ScopeId} {chain : List ScopeId} (isChain : heap.Chain id chain) :
    chain.length ≤ heap.scopes.size :=
  length_le_of_nodup isChain.nodup isChain.exist

/-! ## The walk along a chain -/

/-- The binding of a name in a scope itself, with the scope. -/
def owned? (heap : Heap) (symbol : Symbol) (id : ScopeId) : Option (ScopeId × Binding) :=
  (heap.bound? id symbol).map (Prod.mk id)

theorem Chain.nearestFrom?_eq {id : ScopeId} {chain : List ScopeId} (isChain : heap.Chain id chain)
    {fuel : Nat} (enough : chain.length ≤ fuel) :
    heap.nearestFrom? symbol fuel id = chain.findSome? (heap.owned? symbol) := by
  induction isChain generalizing fuel with
  | @last id scope found top =>
      obtain ⟨fuel, rfl⟩ : ∃ less, fuel = less + 1 := ⟨fuel - 1, by simp at enough; omega⟩
      rw [nearestFrom?, found]
      cases bound : scope.find? symbol <;> simp [owned?, bound?, found, bound, top]
  | @inside id parent scope chain found above further inductionHypothesis =>
      rw [List.length_cons] at enough
      obtain ⟨fuel, rfl⟩ : ∃ less, fuel = less + 1 := ⟨fuel - 1, by omega⟩
      rw [nearestFrom?, found]
      cases bound : scope.find? symbol with
      | some binding => simp [owned?, bound?, found, bound]
      | none =>
          have later := inductionHypothesis (Nat.le_of_succ_le_succ enough)
          simp [owned?, bound?, found, bound, above, later]

theorem Chain.nearest?_eq {start : ScopeId} {chain : List ScopeId}
    (isChain : heap.Chain start chain) :
    heap.nearest? start symbol = chain.findSome? (heap.owned? symbol) :=
  isChain.nearestFrom?_eq isChain.length_le

theorem owned?_eq_some {id owner : ScopeId} {binding : Binding} :
    heap.owned? symbol id = some (owner, binding) ↔
      id = owner ∧ heap.bound? owner symbol = some binding := by
  unfold owned?
  constructor
  · intro owned
    obtain ⟨found, bound, same⟩ := Option.map_eq_some_iff.mp owned
    cases same
    exact ⟨rfl, bound⟩
  · rintro ⟨rfl, bound⟩
    rw [bound]
    rfl

theorem owned?_eq_none {id : ScopeId} :
    heap.owned? symbol id = none ↔ heap.bound? id symbol = none :=
  Option.map_eq_none_iff

section Walk

variable {start owner : ScopeId} {binding : Binding} {chain : List ScopeId}

theorem Chain.nearest?_eq_some (isChain : heap.Chain start chain) :
    heap.nearest? start symbol = some (owner, binding) ↔
      heap.Nearest start symbol owner binding := by
  rw [isChain.nearest?_eq, List.findSome?_eq_some_iff]
  constructor
  · rintro ⟨before, id, after, rfl, owned, unowned⟩
    obtain ⟨rfl, bound⟩ := owned?_eq_some.mp owned
    exact ⟨before, after, isChain, fun other inside => owned?_eq_none.mp (unowned other inside),
      bound⟩
  · rintro ⟨before, after, isOther, unbound, bound⟩
    exact ⟨before, owner, after, isChain.unique isOther, owned?_eq_some.mpr ⟨rfl, bound⟩,
      fun other inside => owned?_eq_none.mpr (unbound other inside)⟩

theorem Chain.nearest?_eq_none (isChain : heap.Chain start chain) :
    heap.nearest? start symbol = none ↔ heap.Unbound start symbol := by
  rw [isChain.nearest?_eq, List.findSome?_eq_none_iff]
  constructor
  · intro unowned
    exact ⟨chain, isChain, fun id inside => owned?_eq_none.mp (unowned id inside)⟩
  · rintro ⟨other, isOther, unbound⟩ id inside
    exact owned?_eq_none.mpr (unbound id (isChain.unique isOther ▸ inside))

end Walk

theorem nearest?_eq_some_iff (chained : heap.Chained) {start owner : ScopeId}
    (there : start < heap.scopes.size) {binding : Binding} :
    heap.nearest? start symbol = some (owner, binding) ↔
      heap.Nearest start symbol owner binding := by
  obtain ⟨chain, isChain⟩ := chained start there
  exact isChain.nearest?_eq_some

theorem nearest?_eq_none_iff (chained : heap.Chained) {start : ScopeId}
    (there : start < heap.scopes.size) :
    heap.nearest? start symbol = none ↔ heap.Unbound start symbol := by
  obtain ⟨chain, isChain⟩ := chained start there
  exact isChain.nearest?_eq_none

/-! ## Bindings that are made -/

section Bind

variable {owner : ScopeId} {binding : Binding}

theorem Chain.bind {id : ScopeId} {chain : List ScopeId} (isChain : heap.Chain id chain)
    (owner : ScopeId) (symbol : Symbol) (binding : Binding) :
    (heap.bind owner symbol binding).Chain id chain := by
  -- a scope with one more binding has the parent that it had
  have same : ∀ {id : ScopeId} {scope : Scope}, heap.scopes[id]? = some scope →
      ∃ later, (heap.bind owner symbol binding).scopes[id]? = some later ∧
        later.parent = scope.parent := by
    intro id scope found
    rw [bind_getElem?, found]
    split
    · exact ⟨scope.bind symbol binding, rfl, rfl⟩
    · exact ⟨scope, rfl, rfl⟩
  induction isChain with
  | last found top =>
      obtain ⟨later, foundLater, parent⟩ := same found
      exact .last foundLater (parent.trans top)
  | inside found above further inductionHypothesis =>
      obtain ⟨later, foundLater, parent⟩ := same found
      exact .inside foundLater (parent.trans above) inductionHypothesis

theorem size_bind (heap : Heap) (owner : ScopeId) (symbol : Symbol) (binding : Binding) :
    (heap.bind owner symbol binding).scopes.size = heap.scopes.size :=
  Array.size_modify

theorem Chained.bind (chained : heap.Chained) (owner : ScopeId) (symbol : Symbol)
    (binding : Binding) : (heap.bind owner symbol binding).Chained := by
  intro id there
  rw [size_bind] at there
  obtain ⟨chain, isChain⟩ := chained id there
  exact ⟨chain, isChain.bind owner symbol binding⟩

theorem bound?_bind (there : owner < heap.scopes.size) (id : ScopeId) (other : Symbol) :
    (heap.bind owner symbol binding).bound? id other =
      if owner = id ∧ symbol.id = other.id then some binding else heap.bound? id other := by
  unfold bound?
  rw [bind_getElem?]
  by_cases here : owner = id
  · subst here
    rw [if_pos rfl, Array.getElem?_eq_getElem there]
    show ((heap.scopes[owner].bind symbol binding).bindings[other.id]?) = _
    rw [Scope.bind_getElem?]
    simp [Scope.find?]
  · rw [if_neg here, if_neg (fun both => here both.1)]

/-- Elsewhere, and of other names, nothing is bound anew. -/
theorem bound?_bind_other (there : owner < heap.scopes.size) {id : ScopeId} {other : Symbol}
    (differs : ¬ (owner = id ∧ symbol.id = other.id)) :
    (heap.bind owner symbol binding).bound? id other = heap.bound? id other := by
  rw [bound?_bind there, if_neg differs]

theorem bound?_bind_same (there : owner < heap.scopes.size) {other : Symbol}
    (same : symbol.id = other.id) :
    (heap.bind owner symbol binding).bound? owner other = some binding := by
  rw [bound?_bind there, if_pos ⟨rfl, same⟩]

/-- A scope that does not bind a name afterwards did not bind it before. -/
theorem bound?_eq_none_of_bind (there : owner < heap.scopes.size) {id : ScopeId} {other : Symbol}
    (unbound : (heap.bind owner symbol binding).bound? id other = none) :
    heap.bound? id other = none := by
  rw [bound?_bind there] at unbound
  split at unbound
  · cases unbound
  · exact unbound

/-- **What a binding that is made changes.** A name means the new binding, or what it
meant before. -/
theorem nearest?_bind (chained : heap.Chained) (there : owner < heap.scopes.size)
    {start : ScopeId} (isThere : start < heap.scopes.size) (symbol : Symbol) (binding : Binding)
    (other : Symbol) :
    symbol.id = other.id ∧
        (heap.bind owner symbol binding).nearest? start other = some (owner, binding) ∨
      (heap.bind owner symbol binding).nearest? start other = heap.nearest? start other := by
  obtain ⟨chain, isChain⟩ := chained start isThere
  have isLater := isChain.bind owner symbol binding
  cases nearest : (heap.bind owner symbol binding).nearest? start other with
  | none =>
      obtain ⟨_, isSame, unbound⟩ := isLater.nearest?_eq_none.mp nearest
      have none : heap.nearest? start other = none := isChain.nearest?_eq_none.mpr
        ⟨chain, isChain, fun id inside =>
          bound?_eq_none_of_bind there (unbound id (isLater.unique isSame ▸ inside))⟩
      exact Or.inr none.symm
  | some pair =>
      obtain ⟨found, foundBinding⟩ := pair
      obtain ⟨before, after, isSame, unbound, bound⟩ := isLater.nearest?_eq_some.mp nearest
      by_cases here : owner = found ∧ symbol.id = other.id
      · obtain ⟨rfl, same⟩ := here
        rw [bound?_bind_same there same] at bound
        cases bound
        exact Or.inl ⟨same, rfl⟩
      · rw [bound?_bind_other there here] at bound
        have old : heap.nearest? start other = some (found, foundBinding) :=
          isChain.nearest?_eq_some.mpr
            ⟨before, after, isLater.unique isSame ▸ isChain,
              fun id inside => bound?_eq_none_of_bind there (unbound id inside), bound⟩
        exact Or.inr old.symm

end Bind

/-! ## Reading and assigning -/

/-- A name that means the same binding in two heaps stands for the same. -/
theorem lookup_congr {left right : Heap} {start : ScopeId}
    (same : left.nearest? start symbol = right.nearest? start symbol) :
    left.lookup start symbol = right.lookup start symbol := by
  rw [lookup_eq, lookup_eq, same]

theorem assign_eq_ok {start : ScopeId} {value : Value} {after : Heap} :
    assign start symbol value heap = .ok () after ↔
      ∃ owner binding, heap.nearest? start symbol = some (owner, binding) ∧
        binding.constant = false ∧ heap.bind owner symbol ⟨some value, false⟩ = after := by
  rw [assign_eq]
  unfold assignable writable
  cases nearest : heap.nearest? start symbol with
  | none => simp
  | some pair =>
      obtain ⟨owner, old, constant⟩ := pair
      cases constant <;> simp

/-- Writing that fails leaves the heap as it was. The nearest binding is a constant then,
or there is none. -/
theorem assign_eq_error {start : ScopeId} {value : Value} {cause : Fault} {after : Heap}
    (failed : assign start symbol value heap = .error cause after) :
    after = heap ∧
      ((∃ owner binding, heap.nearest? start symbol = some (owner, binding) ∧
          binding.constant = true ∧ cause = .constantReassigned symbol.name) ∨
        heap.nearest? start symbol = none ∧ cause = .undefinedVariable symbol.name) := by
  rw [assign_eq] at failed
  unfold assignable writable at failed
  cases nearest : heap.nearest? start symbol with
  | none =>
      rw [nearest] at failed
      cases failed
      exact ⟨rfl, Or.inr ⟨rfl, rfl⟩⟩
  | some pair =>
      obtain ⟨owner, old, constant⟩ := pair
      rw [nearest] at failed
      cases constant with
      | false => cases failed
      | true =>
          cases failed
          exact ⟨rfl, Or.inl ⟨owner, _, rfl, rfl, rfl⟩⟩

/-- The name means the binding of `symbol` in `owner`. -/
def Shares (heap : Heap) (owner : ScopeId) (symbol : Symbol) (start : ScopeId) (name : Symbol) :
    Prop :=
  symbol.id = name.id ∧ ∃ binding, heap.Nearest start name owner binding

section Assign

variable {owner start : ScopeId} {binding : Binding} {name : Symbol}

/-- What is bound already is found where it was when it is bound again. -/
theorem Shares.nearest?_bind (there : owner < heap.scopes.size)
    (shares : heap.Shares owner symbol start name) :
    (heap.bind owner symbol binding).nearest? start name = some (owner, binding) := by
  obtain ⟨same, old, before, after, isChain, unbound, bound⟩ := shares
  have isLater := isChain.bind owner symbol binding
  refine isLater.nearest?_eq_some.mpr
    ⟨before, after, isLater, fun id inside => ?_, bound?_bind_same there same⟩
  rw [bound?_bind_other there]
  · exact unbound id inside
  · rintro ⟨rfl, -⟩
    rw [unbound owner inside] at bound
    cases bound

/-- A name that means a binding after it was made anew meant it before, if it was there. -/
theorem shares_of_nearest?_bind (chained : heap.Chained) (there : owner < heap.scopes.size)
    (isThere : start < heap.scopes.size) {old : Binding}
    (bound : heap.bound? owner symbol = some old) (same : symbol.id = name.id)
    (nearest : (heap.bind owner symbol binding).nearest? start name = some (owner, binding)) :
    heap.Shares owner symbol start name := by
  obtain ⟨chain, isChain⟩ := chained start isThere
  have isLater := isChain.bind owner symbol binding
  obtain ⟨before, after, isSame, unbound, -⟩ := isLater.nearest?_eq_some.mp nearest
  have boundHere : heap.bound? owner name = some old := by
    rw [← bound, bound?, bound?]
    unfold Scope.find?
    rw [same]
  exact ⟨same, old, before, after, isLater.unique isSame ▸ isChain,
    fun id inside => bound?_eq_none_of_bind there (unbound id inside), boundHere⟩

/-- Where a name does not mean the binding that is made anew, it means what it meant. -/
theorem nearest?_bind_of_not_shares (chained : heap.Chained) (there : owner < heap.scopes.size)
    (isThere : start < heap.scopes.size) {old : Binding}
    (bound : heap.bound? owner symbol = some old)
    (apart : ¬ heap.Shares owner symbol start name) :
    (heap.bind owner symbol binding).nearest? start name = heap.nearest? start name := by
  rcases nearest?_bind chained there isThere symbol binding name with
    ⟨same, nearest⟩ | unchanged
  · exact absurd (shares_of_nearest?_bind chained there isThere bound same nearest) apart
  · exact unchanged

end Assign

end Heap

theorem Heap.Nearest.lookup_eq {heap : Heap} {start owner : ScopeId} {symbol : Symbol}
    {binding : Binding} (nearest : heap.Nearest start symbol owner binding) :
    heap.lookup start symbol = binding.read symbol := by
  obtain ⟨before, after, isChain, unbound, bound⟩ := nearest
  have found := isChain.nearest?_eq_some.mpr ⟨before, after, isChain, unbound, bound⟩
  rw [Heap.lookup_eq, found]

theorem Heap.Unbound.lookup_eq {heap : Heap} {start : ScopeId} {symbol : Symbol}
    (unbound : heap.Unbound start symbol) :
    heap.lookup start symbol = .error (.undefinedVariable symbol.name) := by
  obtain ⟨chain, isChain, nowhere⟩ := unbound
  have missing := isChain.nearest?_eq_none.mpr ⟨chain, isChain, nowhere⟩
  rw [Heap.lookup_eq, missing]

/-- The binding that a name means is one of a scope that is there. -/
theorem Heap.Nearest.owner_lt {heap : Heap} {start owner : ScopeId} {symbol : Symbol}
    {binding : Binding} (nearest : heap.Nearest start symbol owner binding) :
    owner < heap.scopes.size := by
  obtain ⟨before, after, isChain, -, -⟩ := nearest
  exact isChain.exist owner (by simp)

/-- **A name means one binding, for reading and for assigning.** Let every scope have a
chain of parents that ends. Reading a name gives what its nearest binding says, and fails
where there is none. Assigning succeeds exactly where the nearest binding is no constant;
then every name that means this binding, from whichever scope, stands for the value, and
all others for what they stood for. An assignment that fails leaves the heap as it was, and
a run of it the machine. A binding that is made in a scope changes what a name stands for
only if it is the same name, and means this binding from then on. -/
theorem names_mean_one_binding {heap : Heap} (chained : heap.Chained) {start : ScopeId}
    (there : start < heap.scopes.size) (symbol : Symbol) :
    ((∃ owner binding, heap.Nearest start symbol owner binding) ∨ heap.Unbound start symbol) ∧
    (∀ owner binding, heap.Nearest start symbol owner binding →
      heap.lookup start symbol = binding.read symbol) ∧
    (heap.Unbound start symbol →
      heap.lookup start symbol = .error (.undefinedVariable symbol.name)) ∧
    (∀ value, (∃ after, Heap.assign start symbol value heap = .ok () after) ↔
      ∃ owner binding, heap.Nearest start symbol owner binding ∧ binding.constant = false) ∧
    (∀ value after, Heap.assign start symbol value heap = .ok () after →
      ∃ owner binding, heap.Nearest start symbol owner binding ∧
        ∀ other, other < heap.scopes.size → ∀ name,
          (heap.Shares owner symbol other name → after.lookup other name = .ok value) ∧
          (¬ heap.Shares owner symbol other name →
            after.lookup other name = heap.lookup other name)) ∧
    (∀ value cause after, Heap.assign start symbol value heap = .error cause after →
      after = heap) ∧
    (∀ (name : Name) value machine cause after, machine.heap = heap → machine.current = start →
      name.symbol = symbol → Run.assign name value machine = .aborted cause after →
        after = machine ∧ ∃ fault, cause = .fault name.site fault ∧
          Heap.assign start symbol value heap = .error fault heap) ∧
    (∀ binding other, other < heap.scopes.size → ∀ name,
      (heap.bind start symbol binding).lookup other name ≠ heap.lookup other name →
        symbol.id = name.id ∧
          (heap.bind start symbol binding).Nearest other name start binding) := by
  refine ⟨?_, fun _ _ nearest => nearest.lookup_eq, fun unbound => unbound.lookup_eq, ?_, ?_, ?_,
    ?_, ?_⟩
  · cases nearest : heap.nearest? start symbol with
    | none => exact Or.inr ((Heap.nearest?_eq_none_iff chained there).mp nearest)
    | some pair =>
        exact Or.inl ⟨pair.1, pair.2, (Heap.nearest?_eq_some_iff chained there).mp nearest⟩
  · intro value
    simp only [Heap.assign_eq_ok, Heap.nearest?_eq_some_iff chained there]
    constructor
    · rintro ⟨after, owner, binding, nearest, assignable, -⟩
      exact ⟨owner, binding, nearest, assignable⟩
    · rintro ⟨owner, binding, nearest, assignable⟩
      exact ⟨_, owner, binding, nearest, assignable, rfl⟩
  · intro value after assigned
    obtain ⟨owner, binding, found, -, rfl⟩ := Heap.assign_eq_ok.mp assigned
    have nearest := (Heap.nearest?_eq_some_iff chained there).mp found
    have isOwner := nearest.owner_lt
    have bound : heap.bound? owner symbol = some binding := nearest.elim fun _ ⟨_, both⟩ => both.2.2
    refine ⟨owner, binding, nearest, fun other isThere name => ⟨fun shares => ?_, fun apart => ?_⟩⟩
    · rw [Heap.lookup_eq, shares.nearest?_bind isOwner]
      rfl
    · exact Heap.lookup_congr
        (Heap.nearest?_bind_of_not_shares chained isOwner isThere bound apart)
  · intro value cause after failed
    exact (Heap.assign_eq_error failed).1
  · rintro name value machine cause after rfl rfl rfl aborted
    unfold Run.assign at aborted
    cases result : Heap.assign machine.current name.symbol value machine.heap with
    | ok _ heap =>
        rw [result] at aborted
        cases aborted
    | error fault heap =>
        obtain ⟨rfl, -⟩ := Heap.assign_eq_error result
        rw [result] at aborted
        cases aborted
        exact ⟨rfl, fault, rfl, rfl⟩
  · intro binding other isThere name changes
    rcases Heap.nearest?_bind chained there isThere symbol binding name with
      ⟨same, nearest⟩ | unchanged
    · refine ⟨same, (Heap.nearest?_eq_some_iff (chained.bind start symbol binding) ?_).mp nearest⟩
      rw [Heap.size_bind]
      exact isThere
    · exact absurd (Heap.lookup_congr unchanged) changes

/-- Two scopes inside a third one, which was made last and binds `x` as a variable. The
second one binds it as a constant. -/
def shadowing : Heap :=
  { Heap.empty with
    scopes := #[.empty (some 2), (Scope.empty (some 2)).bind ⟨30, "x"⟩ ⟨some .nil, true⟩,
      (Scope.empty none).bind ⟨30, "x"⟩ ⟨none, false⟩] }

theorem shadowing_chained : shadowing.Chained := by
  intro id there
  have top : shadowing.Chain 2 [2] := .last rfl rfl
  match id, there with
  | 0, _ => exact ⟨[0, 2], .inside rfl rfl top⟩
  | 1, _ => exact ⟨[1, 2], .inside rfl rfl top⟩
  | 2, _ => exact ⟨[2], top⟩

/-- The constant cannot be assigned to, although a variable is behind it. From the other
scope that variable is assigned to, which leaves the constant alone. -/
theorem shadowing_assigned :
    (¬ ∃ after, Heap.assign 1 ⟨30, "x"⟩ (.bool true) shadowing = .ok () after) ∧
    ∃ after, Heap.assign 0 ⟨30, "x"⟩ (.bool true) shadowing = .ok () after ∧
      after.lookup 2 ⟨30, "x"⟩ = .ok (.bool true) ∧ after.lookup 1 ⟨30, "x"⟩ = .ok .nil := by
  have top : shadowing.Chain 2 [2] := .last rfl rfl
  have constant : shadowing.Nearest 1 ⟨30, "x"⟩ 1 ⟨some .nil, true⟩ :=
    ⟨[], [2], .inside rfl rfl top, by simp, rfl⟩
  have here : shadowing.Nearest 2 ⟨30, "x"⟩ 2 ⟨none, false⟩ := ⟨[], [], top, by simp, rfl⟩
  have behind : shadowing.Nearest 0 ⟨30, "x"⟩ 2 ⟨none, false⟩ := by
    refine ⟨[0], [], .inside rfl rfl top, fun id inside => ?_, rfl⟩
    cases List.mem_singleton.mp inside
    rfl
  have one : ∀ {start owner owner' : ScopeId} {binding binding' : Binding},
      start < shadowing.scopes.size → shadowing.Nearest start ⟨30, "x"⟩ owner binding →
        shadowing.Nearest start ⟨30, "x"⟩ owner' binding' →
          owner = owner' ∧ binding = binding' := by
    intro start owner owner' binding binding' there first second
    have same := ((Heap.nearest?_eq_some_iff shadowing_chained there).mpr first).symm.trans
      ((Heap.nearest?_eq_some_iff shadowing_chained there).mpr second)
    cases same
    exact ⟨rfl, rfl⟩
  constructor
  · intro assigns
    obtain ⟨-, -, -, assignable, -⟩ :=
      names_mean_one_binding shadowing_chained (by decide : 1 < shadowing.scopes.size) ⟨30, "x"⟩
    obtain ⟨owner, binding, nearest, isVariable⟩ := (assignable _).mp assigns
    obtain ⟨-, rfl⟩ := one (by decide) constant nearest
    cases isVariable
  · obtain ⟨-, -, -, assignable, assigned, -⟩ :=
      names_mean_one_binding shadowing_chained (by decide : 0 < shadowing.scopes.size) ⟨30, "x"⟩
    obtain ⟨after, done⟩ := (assignable (.bool true)).mpr ⟨2, _, behind, rfl⟩
    obtain ⟨owner, binding, nearest, changed⟩ := assigned _ after done
    obtain ⟨rfl, rfl⟩ := one (by decide) behind nearest
    refine ⟨after, done, (changed 2 (by decide) _).1 ⟨rfl, _, here⟩, ?_⟩
    refine ((changed 1 (by decide) _).2 ?_).trans constant.lookup_eq
    rintro ⟨-, binding, other⟩
    obtain ⟨isOther, -⟩ := one (by decide) constant other
    cases isOther

end Scriptlet
