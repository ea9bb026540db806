import Scriptlet.Proofs.Store.Resolution
import Scriptlet.Proofs.Store.Sound
import Scriptlet.Run.Operator

/-!
Contract: heaps with spacers.

A spacer is a scope that binds nothing. It stands between a scope and what is inside it, and
nothing that is looked up tells the two apart. Every other scope stands for itself.

Owns: `Spacing`, which scopes are spacers and what each scope stands for; `Heap.Spaced`, by
which a heap is another one with spacers; that names mean the same in both (`lookup_eq`,
`assignable_eq`), that values have the same text (`display_eq`) and operators the same
results; and that objects which are made or changed on both sides keep them so.

Does not own: runs on such heaps (`Scriptlet.Proofs.Run.Blind`).

## Why numbers are kept, but not those of scopes

Values hold numbers of collections and functions, and those are made in the same order on
both sides. The number of a scope is not in any value. Only closures and other scopes have
it, and there it goes by what the scope stands for.
-/

set_option autoImplicit false

namespace Scriptlet

/-! ## Spacings -/

/-- Which scopes are spacers, and the scope that each one stands for where there are none. -/
structure Spacing where
  spacer : ScopeId → Prop
  origin : ScopeId → ScopeId

namespace Spacing

/-- No scope is a spacer. -/
def none : Spacing :=
  ⟨fun _ => False, id⟩

/-- One more spacer, before which all scopes are as they were, and behind which they have one
number more. -/
def insert (spacing : Spacing) (place inside : ScopeId) : Spacing where
  spacer id := id = place ∨ id < place ∧ spacing.spacer id
  origin id :=
    if id < place then spacing.origin id
    else if id = place then spacing.origin inside
    else spacing.origin (id - 1)

/-- The same of all scopes below a number. -/
def AgreeBelow (bound : ScopeId) (spacing other : Spacing) : Prop :=
  ∀ id, id < bound → (other.spacer id ↔ spacing.spacer id) ∧ other.origin id = spacing.origin id

theorem AgreeBelow.refl (bound : ScopeId) (spacing : Spacing) : AgreeBelow bound spacing spacing :=
  fun _ _ => ⟨Iff.rfl, rfl⟩

theorem AgreeBelow.trans {bound further : ScopeId} {first second third : Spacing}
    (earlier : AgreeBelow bound first second) (later : AgreeBelow further second third)
    (le : bound ≤ further) : AgreeBelow bound first third := by
  intro id below
  obtain ⟨spacers, origins⟩ := earlier id below
  obtain ⟨spacers', origins'⟩ := later id (Nat.lt_of_lt_of_le below le)
  exact ⟨spacers'.trans spacers, origins'.trans origins⟩

variable {spacing : Spacing} {place inside : Nat}

theorem agreeBelow_insert : AgreeBelow place spacing (spacing.insert place inside) := by
  intro id below
  refine ⟨?_, if_pos below⟩
  show id = place ∨ id < place ∧ spacing.spacer id ↔ spacing.spacer id
  constructor
  · rintro (rfl | ⟨-, isSpacer⟩)
    · exact absurd below (Nat.lt_irrefl id)
    · exact isSpacer
  · exact fun isSpacer => Or.inr ⟨below, isSpacer⟩

theorem insert_origin_place :
    (spacing.insert place inside).origin place = spacing.origin inside := by
  simp [insert]

theorem insert_origin_above (count : Nat) :
    (spacing.insert place inside).origin (place + 1 + count) = spacing.origin (place + count) := by
  have above : ¬ place + 1 + count < place := by omega
  have other : place + 1 + count ≠ place := by omega
  have back : place + 1 + count - 1 = place + count := by omega
  unfold insert
  dsimp only
  rw [if_neg above, if_neg other, back]

end Spacing

/-! ## Renamed scopes -/

/-- The same bindings, inside a scope by its other number. -/
def Scope.renamed (rename : ScopeId → ScopeId) (scope : Scope) : Scope :=
  { scope with parent := scope.parent.map rename }

/-- The same code, made in a scope by its other number. -/
def Function.renamed (rename : ScopeId → ScopeId) : Function → Function
  | .clock => .clock
  | .closure name parameters body scope => .closure name parameters body (rename scope)

@[simp]
theorem Function.text_renamed (rename : ScopeId → ScopeId) (function : Function) :
    (function.renamed rename).text = function.text := by
  cases function with
  | clock => rfl
  | closure name parameters body scope => cases name <;> rfl

@[simp]
theorem Function.arity_renamed (rename : ScopeId → ScopeId) (function : Function) :
    (function.renamed rename).arity = function.arity := by
  cases function <;> rfl

theorem Scope.renamed_congr {rename other : ScopeId → ScopeId} {scope : Scope}
    (same : ∀ parent, scope.parent = some parent → rename parent = other parent) :
    scope.renamed rename = scope.renamed other := by
  unfold Scope.renamed
  cases above : scope.parent with
  | none => rfl
  | some parent => rw [Option.map_some, Option.map_some, same parent above]

theorem Function.renamed_congr {rename other : ScopeId → ScopeId} {function : Function}
    (same : ∀ scope, function.scope? = some scope → rename scope = other scope) :
    function.renamed rename = function.renamed other := by
  cases function with
  | clock => rfl
  | closure name parameters body scope => rw [renamed, renamed, same scope rfl]

/-! ## Heaps -/

/-- The second heap is the first one with spacers. -/
structure Heap.Spaced (spacing : Spacing) (heap spaced : Heap) : Prop where
  collections : spaced.collections = heap.collections
  functions : heap.functions = spaced.functions.map (Function.renamed spacing.origin)
  scopes : ∀ (id : ScopeId) (scope : Scope), spaced.scopes[id]? = some scope →
    ¬ spacing.spacer id → heap.scopes[spacing.origin id]? = some (scope.renamed spacing.origin)
  spacers : ∀ (id : ScopeId) (scope : Scope), spaced.scopes[id]? = some scope →
    spacing.spacer id →
      ∃ parent, scope = .empty (some parent) ∧ spacing.origin parent = spacing.origin id
  /-- A scope has one scope that stands for it, besides spacers. -/
  single : ∀ id other : ScopeId, id < spaced.scopes.size → other < spaced.scopes.size →
    ¬ spacing.spacer id → ¬ spacing.spacer other → spacing.origin id = spacing.origin other →
      id = other
  all : ∀ id : ScopeId, id < heap.scopes.size →
    ∃ place, place < spaced.scopes.size ∧ ¬ spacing.spacer place ∧ spacing.origin place = id
  /-- Scopes that are yet to be made will stand for each other in the same order. -/
  new : ∀ count : Nat, ¬ spacing.spacer (spaced.scopes.size + count) ∧
    spacing.origin (spaced.scopes.size + count) = heap.scopes.size + count
  chained : spaced.Chained
  captured : ∀ (id : FunctionId) (function : Function), spaced.functions[id]? = some function →
    ∀ scope, function.scope? = some scope → scope < spaced.scopes.size

namespace Heap

/-! ## Chains of heaps that grow -/

theorem Chain.start_mem {heap : Heap} {id : ScopeId} {chain : List ScopeId}
    (isChain : heap.Chain id chain) : id ∈ chain := by
  cases isChain <;> exact List.mem_cons_self

theorem Chain.addScope {heap : Heap} {id : ScopeId} {chain : List ScopeId}
    (isChain : heap.Chain id chain) (scope : Scope) : (heap.addScope scope).Chain id chain := by
  have same : ∀ {id : ScopeId} {old : Scope}, heap.scopes[id]? = some old →
      (heap.addScope scope).scopes[id]? = some old := by
    intro id old found
    have there := (Array.getElem?_eq_some_iff.mp found).1
    rw [addScope_getElem?, if_neg (Nat.ne_of_lt there)]
    exact found
  induction isChain with
  | last found top => exact .last (same found) top
  | inside found above further inductionHypothesis =>
      exact .inside (same found) above inductionHypothesis

theorem Chained.addScope {heap : Heap} (chained : heap.Chained) {scope : Scope} {parent : ScopeId}
    (inside : scope.parent = some parent) (there : parent < heap.scopes.size) :
    (heap.addScope scope).Chained := by
  intro id isThere
  by_cases isNew : id = heap.scopes.size
  · obtain ⟨chain, isChain⟩ := chained parent there
    have found : (heap.addScope scope).scopes[id]? = some scope := by
      rw [addScope_getElem?, if_pos isNew]
    exact ⟨id :: chain, .inside found inside (isChain.addScope scope)⟩
  · have old : id < heap.scopes.size := by
      have size : (heap.addScope scope).scopes.size = heap.scopes.size + 1 := Array.size_push _
      omega
    obtain ⟨chain, isChain⟩ := chained id old
    exact ⟨chain, isChain.addScope scope⟩

/-- Chains are a matter of scopes alone. -/
theorem Chained.of_scopes {heap other : Heap} (chained : heap.Chained)
    (same : other.scopes = heap.scopes) : other.Chained := by
  intro id there
  rw [same] at there
  obtain ⟨chain, isChain⟩ := chained id there
  refine ⟨chain, ?_⟩
  induction isChain with
  | last found top => exact .last (same ▸ found) top
  | inside found above further inductionHypothesis =>
      exact .inside (same ▸ found) above
        (inductionHypothesis (further.exist _ (further.start_mem)))

/-- Where parents are older, chains end. -/
theorem Sound.chained {heap : Heap} (sound : heap.Sound) : heap.Chained := by
  intro id
  induction id using Nat.strongRecOn with
  | ind id inductionHypothesis =>
      intro there
      have found := Array.getElem?_eq_getElem there
      cases above : (heap.scopes[id]).parent with
      | none => exact ⟨[id], .last found above⟩
      | some parent =>
          have older := sound.parents id _ found parent above
          obtain ⟨chain, further⟩ := inductionHypothesis parent older (Nat.lt_trans older there)
          exact ⟨id :: chain, .inside found above further⟩

namespace Spaced

variable {spacing : Spacing} {heap spaced : Heap} {start : ScopeId} {symbol : Symbol}

/-- Every heap has no spacers besides itself. -/
theorem none (sound : heap.Sound) : heap.Spaced .none heap where
  collections := rfl
  functions := by
    have same : Function.renamed Spacing.none.origin = id := by
      funext function
      cases function <;> rfl
    rw [same, Array.map_id]
  scopes id scope found _ := by
    have same : scope.renamed Spacing.none.origin = scope := by
      unfold Scope.renamed Spacing.none
      rw [Option.map_id]
      rfl
    rw [same]
    exact found
  spacers _ _ _ isSpacer := isSpacer.elim
  single _ _ _ _ _ _ same := same
  all id there := ⟨id, there, fun isSpacer => isSpacer, rfl⟩
  new _ := ⟨fun isSpacer => isSpacer, rfl⟩
  chained := sound.chained
  captured := sound.closures

/-! ## Names -/

theorem bound?_eq (hasSpacers : heap.Spaced spacing spaced) {id : ScopeId} {scope : Scope}
    (found : spaced.scopes[id]? = some scope) (noSpacer : ¬ spacing.spacer id) (symbol : Symbol) :
    heap.bound? (spacing.origin id) symbol = spaced.bound? id symbol := by
  unfold bound?
  rw [hasSpacers.scopes id scope found noSpacer, found]
  rfl

theorem bound?_spacer (hasSpacers : heap.Spaced spacing spaced) {id : ScopeId} {scope : Scope}
    (found : spaced.scopes[id]? = some scope) (isSpacer : spacing.spacer id) (symbol : Symbol) :
    spaced.bound? id symbol = .none := by
  obtain ⟨parent, rfl, -⟩ := hasSpacers.spacers id scope found isSpacer
  unfold bound?
  rw [found]
  exact Std.TreeMap.getElem?_emptyc

/-- The owner of a binding is no spacer. -/
def owns (spacing : Spacing) (spaced : Heap) (owned : ScopeId × Binding) : Prop :=
  ¬ spacing.spacer owned.1 ∧ owned.1 < spaced.scopes.size

/-- Along a chain with spacers, the same bindings come one after the other. -/
theorem chain (hasSpacers : heap.Spaced spacing spaced) {chain : List ScopeId}
    (isChain : spaced.Chain start chain) :
    ∃ shorter, heap.Chain (spacing.origin start) shorter ∧ ∀ symbol,
      shorter.findSome? (heap.owned? symbol) =
        (chain.findSome? (spaced.owned? symbol)).map (Prod.map spacing.origin id) ∧
      ∀ owned ∈ chain.findSome? (spaced.owned? symbol), owns spacing spaced owned := by
  -- a scope that is no spacer, before a chain for which this holds or at the end
  have real : ∀ {id : ScopeId} {scope : Scope} {chain shorter : List ScopeId} (symbol : Symbol),
      spaced.scopes[id]? = some scope → ¬ spacing.spacer id →
      (shorter.findSome? (heap.owned? symbol) =
          (chain.findSome? (spaced.owned? symbol)).map (Prod.map spacing.origin (fun b => b)) ∧
        ∀ owned ∈ chain.findSome? (spaced.owned? symbol), owns spacing spaced owned) →
      ((spacing.origin id :: shorter).findSome? (heap.owned? symbol) =
          ((id :: chain).findSome? (spaced.owned? symbol)).map
            (Prod.map spacing.origin (fun b => b)) ∧
        ∀ owned ∈ (id :: chain).findSome? (spaced.owned? symbol), owns spacing spaced owned) := by
    intro id scope chain shorter symbol found noSpacer further
    have there := (Array.getElem?_eq_some_iff.mp found).1
    rw [List.findSome?_cons, List.findSome?_cons, owned?, owned?,
      hasSpacers.bound?_eq found noSpacer symbol]
    cases spaced.bound? id symbol with
    | none => exact further
    | some binding =>
        refine ⟨rfl, fun owned isOwned => ?_⟩
        cases isOwned
        exact ⟨noSpacer, there⟩
  induction isChain with
  | @last id scope found top =>
      have noSpacer : ¬ spacing.spacer id := fun isSpacer => by
        obtain ⟨parent, rfl, -⟩ := hasSpacers.spacers id scope found isSpacer
        cases top
      refine ⟨[spacing.origin id], .last (hasSpacers.scopes id scope found noSpacer) ?_,
        fun symbol => real symbol found noSpacer ⟨rfl, fun _ isOwned => by cases isOwned⟩⟩
      rw [Scope.renamed, top]
      rfl
  | @inside id parent scope chain found above further inductionHypothesis =>
      obtain ⟨shorter, isShorter, same⟩ := inductionHypothesis
      by_cases isSpacer : spacing.spacer id
      · obtain ⟨outer, rfl, stands⟩ := hasSpacers.spacers id scope found isSpacer
        cases above
        refine ⟨shorter, stands ▸ isShorter, fun symbol => ?_⟩
        rw [List.findSome?_cons, owned?, hasSpacers.bound?_spacer found isSpacer]
        exact same symbol
      · refine ⟨spacing.origin id :: shorter,
          .inside (hasSpacers.scopes id scope found isSpacer) ?_ isShorter,
          fun symbol => real symbol found isSpacer (same symbol)⟩
        rw [Scope.renamed, above]
        rfl

theorem origin_lt (hasSpacers : heap.Spaced spacing spaced) (there : start < spaced.scopes.size) :
    spacing.origin start < heap.scopes.size := by
  obtain ⟨chain, isChain⟩ := hasSpacers.chained start there
  obtain ⟨shorter, isShorter, -⟩ := hasSpacers.chain isChain
  cases isShorter with
  | last found _ | inside found _ _ => exact (Array.getElem?_eq_some_iff.mp found).1

/-- A name means the binding that it means without spacers. -/
theorem nearest?_eq (hasSpacers : heap.Spaced spacing spaced) (there : start < spaced.scopes.size)
    (symbol : Symbol) :
    heap.nearest? (spacing.origin start) symbol =
        (spaced.nearest? start symbol).map (Prod.map spacing.origin id) ∧
      ∀ owned ∈ spaced.nearest? start symbol, owns spacing spaced owned := by
  obtain ⟨chain, isChain⟩ := hasSpacers.chained start there
  obtain ⟨shorter, isShorter, same⟩ := hasSpacers.chain isChain
  rw [isShorter.nearest?_eq, isChain.nearest?_eq]
  exact same symbol

theorem lookup_eq (hasSpacers : heap.Spaced spacing spaced) (there : start < spaced.scopes.size)
    (symbol : Symbol) : heap.lookup (spacing.origin start) symbol = spaced.lookup start symbol := by
  rw [Heap.lookup_eq, Heap.lookup_eq, (hasSpacers.nearest?_eq there symbol).1]
  cases spaced.nearest? start symbol <;> rfl

theorem assignable_eq (hasSpacers : heap.Spaced spacing spaced)
    (there : start < spaced.scopes.size) (symbol : Symbol) :
    heap.assignable (spacing.origin start) symbol =
        (spaced.assignable start symbol).map spacing.origin ∧
      ∀ owner, spaced.assignable start symbol = .ok owner →
        ¬ spacing.spacer owner ∧ owner < spaced.scopes.size := by
  obtain ⟨same, owned⟩ := hasSpacers.nearest?_eq there symbol
  rw [assignable, assignable, same]
  cases nearest : spaced.nearest? start symbol with
  | none => exact ⟨rfl, fun _ isOwner => nomatch isOwner⟩
  | some pair =>
      obtain ⟨owner, value, constant⟩ := pair
      have isReal := owned _ nearest
      cases constant with
      | true => exact ⟨rfl, fun _ isOwner => nomatch isOwner⟩
      | false =>
          refine ⟨rfl, fun other isOwner => ?_⟩
          cases isOwner
          exact isReal

theorem parent_lt (hasSpacers : heap.Spaced spacing spaced) {id parent : ScopeId} {scope : Scope}
    (found : spaced.scopes[id]? = some scope) (above : scope.parent = some parent) :
    parent < spaced.scopes.size := by
  obtain ⟨chain, isChain⟩ := hasSpacers.chained id (Array.getElem?_eq_some_iff.mp found).1
  cases isChain with
  | last found' top =>
      cases found.symm.trans found'
      cases above.symm.trans top
  | inside found' above' further =>
      cases found.symm.trans found'
      cases above.symm.trans above'
      exact further.exist _ further.start_mem

/-! ## What is made and changed -/

theorem bind (hasSpacers : heap.Spaced spacing spaced) {owner : ScopeId}
    (isReal : ¬ spacing.spacer owner ∧ owner < spaced.scopes.size) (symbol : Symbol)
    (binding : Binding) :
    (heap.bind (spacing.origin owner) symbol binding).Spaced spacing
      (spaced.bind owner symbol binding) where
  collections := hasSpacers.collections
  functions := hasSpacers.functions
  scopes id scope found noSpacer := by
    rw [bind_getElem?] at found ⊢
    by_cases same : owner = id
    · subst same
      rw [if_pos rfl] at found ⊢
      obtain ⟨old, isOld, rfl⟩ := Option.map_eq_some_iff.mp found
      rw [hasSpacers.scopes owner old isOld noSpacer]
      rfl
    · rw [if_neg same] at found
      have there := (Array.getElem?_eq_some_iff.mp found).1
      have apart : spacing.origin owner ≠ spacing.origin id :=
        fun equal => same (hasSpacers.single owner id isReal.2 there isReal.1 noSpacer equal)
      rw [if_neg apart]
      exact hasSpacers.scopes id scope found noSpacer
  spacers id scope found isSpacer := by
    have apart : owner ≠ id := fun same => isReal.1 (same ▸ isSpacer)
    rw [bind_getElem?, if_neg apart] at found
    exact hasSpacers.spacers id scope found isSpacer
  single id other there isThere := by
    rw [size_bind] at there isThere
    exact hasSpacers.single id other there isThere
  all id there := by
    rw [size_bind] at there ⊢
    exact hasSpacers.all id there
  new count := by
    rw [size_bind, size_bind]
    exact hasSpacers.new count
  chained := hasSpacers.chained.bind owner symbol binding
  captured id function found scope isScope := by
    rw [size_bind]
    exact hasSpacers.captured id function found scope isScope

theorem size_addScope (heap : Heap) (scope : Scope) :
    (heap.addScope scope).scopes.size = heap.scopes.size + 1 :=
  Array.size_push scope

/-- A new scope stands for the one that is new where there are no spacers. -/
theorem addScope (hasSpacers : heap.Spaced spacing spaced) {scope : Scope} {parent : ScopeId}
    (inside : scope.parent = some parent) (there : parent < spaced.scopes.size) :
    (heap.addScope (scope.renamed spacing.origin)).Spaced spacing (spaced.addScope scope) where
  collections := hasSpacers.collections
  functions := hasSpacers.functions
  scopes id old found noSpacer := by
    rw [addScope_getElem?] at found ⊢
    by_cases isNew : id = spaced.scopes.size
    · subst isNew
      rw [if_pos rfl] at found
      cases found
      exact if_pos (hasSpacers.new 0).2
    · rw [if_neg isNew] at found
      have isThere := (Array.getElem?_eq_some_iff.mp found).1
      rw [if_neg (Nat.ne_of_lt (hasSpacers.origin_lt isThere))]
      exact hasSpacers.scopes id old found noSpacer
  spacers id old found isSpacer := by
    have isOld : id ≠ spaced.scopes.size := fun isNew => (hasSpacers.new 0).1 (isNew ▸ isSpacer)
    rw [addScope_getElem?, if_neg isOld] at found
    exact hasSpacers.spacers id old found isSpacer
  single id other isThere otherThere noSpacer noOther same := by
    rw [size_addScope] at isThere otherThere
    have new : spacing.origin spaced.scopes.size = heap.scopes.size := (hasSpacers.new 0).2
    rcases Nat.lt_succ_iff_lt_or_eq.mp isThere with old | rfl
    · rcases Nat.lt_succ_iff_lt_or_eq.mp otherThere with otherOld | rfl
      · exact hasSpacers.single id other old otherOld noSpacer noOther same
      · exact absurd (same.trans new) (Nat.ne_of_lt (hasSpacers.origin_lt old))
    · rcases Nat.lt_succ_iff_lt_or_eq.mp otherThere with otherOld | rfl
      · exact absurd (same.symm.trans new) (Nat.ne_of_lt (hasSpacers.origin_lt otherOld))
      · rfl
  all id isThere := by
    rw [size_addScope] at isThere ⊢
    rcases Nat.lt_succ_iff_lt_or_eq.mp isThere with old | rfl
    · obtain ⟨place, below, noSpacer, stands⟩ := hasSpacers.all id old
      exact ⟨place, Nat.lt_succ_of_lt below, noSpacer, stands⟩
    · exact ⟨spaced.scopes.size, Nat.lt_succ_self _, hasSpacers.new 0⟩
  new count := by
    have next := hasSpacers.new (count + 1)
    rw [size_addScope, size_addScope]
    rw [Nat.add_right_comm _ 1 count, Nat.add_right_comm _ 1 count]
    exact next
  chained := hasSpacers.chained.addScope inside there
  captured id function found captured isScope := by
    rw [size_addScope]
    exact Nat.lt_succ_of_lt (hasSpacers.captured id function found captured isScope)

/-- An empty scope more is a spacer. -/
theorem addSpacer (hasSpacers : heap.Spaced spacing spaced) {inside : ScopeId}
    (there : inside < spaced.scopes.size) :
    heap.Spaced (spacing.insert spaced.scopes.size inside)
      (spaced.addScope (.empty (some inside))) := by
  have agree : Spacing.AgreeBelow spaced.scopes.size spacing
    (spacing.insert spaced.scopes.size inside) := Spacing.agreeBelow_insert
  have isSpacer : (spacing.insert spaced.scopes.size inside).spacer spaced.scopes.size :=
    Or.inl rfl
  -- what is there already, besides the new spacer
  have old : ∀ {id : ScopeId} {scope : Scope},
      (spaced.addScope (.empty (some inside))).scopes[id]? = some scope →
      id = spaced.scopes.size ∧ scope = .empty (some inside) ∨
        id < spaced.scopes.size ∧ spaced.scopes[id]? = some scope := by
    intro id scope found
    rw [addScope_getElem?] at found
    by_cases isNew : id = spaced.scopes.size
    · rw [if_pos isNew] at found
      cases found
      exact Or.inl ⟨isNew, rfl⟩
    · rw [if_neg isNew] at found
      exact Or.inr ⟨(Array.getElem?_eq_some_iff.mp found).1, found⟩
  have real : ∀ {id : ScopeId}, id < (spaced.addScope (.empty (some inside))).scopes.size →
      ¬ (spacing.insert spaced.scopes.size inside).spacer id →
        id < spaced.scopes.size ∧ ¬ spacing.spacer id ∧
          (spacing.insert spaced.scopes.size inside).origin id = spacing.origin id := by
    intro id isThere noSpacer
    rw [size_addScope] at isThere
    rcases Nat.lt_succ_iff_lt_or_eq.mp isThere with below | rfl
    · exact ⟨below, fun was => noSpacer ((agree id below).1.mpr was), (agree id below).2⟩
    · exact absurd isSpacer noSpacer
  constructor
  case collections => exact hasSpacers.collections
  case functions =>
    rw [hasSpacers.functions]
    refine Array.map_congr_left fun function member => ?_
    obtain ⟨id, found⟩ := Array.mem_iff_getElem?.mp member
    refine Function.renamed_congr fun scope captured => ?_
    exact ((agree scope (hasSpacers.captured id function found scope captured)).2).symm
  case scopes =>
    intro id scope found noSpacer
    rcases old found with ⟨rfl, -⟩ | ⟨below, found⟩
    · exact absurd isSpacer noSpacer
    · rw [(agree id below).2, hasSpacers.scopes id scope found
        fun was => noSpacer ((agree id below).1.mpr was)]
      refine congrArg some (Scope.renamed_congr fun parent above => ?_)
      exact ((agree parent (hasSpacers.parent_lt found above)).2).symm
  case spacers =>
    intro id scope found wasSpacer
    rcases old found with ⟨rfl, rfl⟩ | ⟨below, found⟩
    · exact ⟨inside, rfl, (agree inside there).2.trans Spacing.insert_origin_place.symm⟩
    · obtain ⟨parent, rfl, stands⟩ :=
        hasSpacers.spacers id scope found ((agree id below).1.mp wasSpacer)
      have parentThere := hasSpacers.parent_lt found rfl
      exact ⟨parent, rfl, ((agree parent parentThere).2.trans stands).trans (agree id below).2.symm⟩
  case single =>
    intro id other isThere otherThere noSpacer noOther same
    obtain ⟨below, isReal, stands⟩ := real isThere noSpacer
    obtain ⟨otherBelow, otherReal, otherStands⟩ := real otherThere noOther
    exact hasSpacers.single id other below otherBelow isReal otherReal
      (stands.symm.trans (same.trans otherStands))
  case all =>
    intro id isThere
    obtain ⟨place, below, noSpacer, stands⟩ := hasSpacers.all id isThere
    refine ⟨place, ?_, fun was => noSpacer ((agree place below).1.mp was),
      (agree place below).2.trans stands⟩
    rw [size_addScope]
    exact Nat.lt_succ_of_lt below
  case new =>
    intro count
    have beyond : ¬ spaced.scopes.size + 1 + count ≤ spaced.scopes.size := by omega
    rw [size_addScope, Spacing.insert_origin_above]
    refine ⟨?_, (hasSpacers.new count).2⟩
    rintro (same | ⟨below, -⟩)
    · exact beyond (Nat.le_of_eq same)
    · exact beyond (Nat.le_of_lt below)
  case chained => exact hasSpacers.chained.addScope rfl there
  case captured =>
    intro id function found scope captured
    rw [size_addScope]
    exact Nat.lt_succ_of_lt (hasSpacers.captured id function found scope captured)

theorem addCollection (hasSpacers : heap.Spaced spacing spaced) (c : Collection) :
    (heap.addCollection c).Spaced spacing (spaced.addCollection c) :=
  { hasSpacers with
    collections := congrArg (·.push c) hasSpacers.collections
    chained := hasSpacers.chained.of_scopes rfl }

theorem withCollections (hasSpacers : heap.Spaced spacing spaced)
    (collections : Array Collection) :
    (heap.withCollections collections).Spaced spacing (spaced.withCollections collections) :=
  { hasSpacers with
    collections := rfl
    chained := hasSpacers.chained.of_scopes rfl }

theorem addFunction (hasSpacers : heap.Spaced spacing spaced) {function : Function}
    (captures : ∀ scope, function.scope? = some scope → scope < spaced.scopes.size) :
    (heap.addFunction (function.renamed spacing.origin)).Spaced spacing
      (spaced.addFunction function) :=
  { hasSpacers with
    functions := by
      show heap.functions.push _ = (spaced.functions.push function).map _
      rw [Array.map_push, hasSpacers.functions]
    chained := hasSpacers.chained.of_scopes rfl
    captured := fun id other found scope captured => by
      have found : (spaced.functions.push function)[id]? = some other := found
      rw [Array.getElem?_push] at found
      split at found
      · cases found
        exact captures scope captured
      · exact hasSpacers.captured id other found scope captured }

/-! ## What is read -/

theorem function?_eq (hasSpacers : heap.Spaced spacing spaced) (id : FunctionId) :
    heap.functions[id]? = spaced.functions[id]?.map (Function.renamed spacing.origin) := by
  rw [hasSpacers.functions, Array.getElem?_map]

theorem display_eq (hasSpacers : heap.Spaced spacing spaced) (value : Value) :
    heap.display value = spaced.display value := by
  have inside : ∀ depth around value,
      heap.displayIn depth around value = spaced.displayIn depth around value := by
    intro depth
    induction depth with
    | zero =>
        intro around value
        cases value with
        | function id =>
            rw [displayIn, displayIn, hasSpacers.function?_eq]
            cases spaced.functions[id]? <;> simp
        | _ => rw [displayIn, displayIn]
    | succ depth inductionHypothesis =>
        intro around value
        cases value with
        | function id =>
            rw [displayIn, displayIn, hasSpacers.function?_eq]
            cases spaced.functions[id]? <;> simp
        | collection id =>
            rw [displayIn, displayIn, hasSpacers.collections]
            have texts := funext (inductionHypothesis (id :: around))
            cases heap.collections[id]? with
            | none => rfl
            | some c =>
                dsimp only
                rw [texts]
        | _ => rw [displayIn, displayIn]
  unfold display
  rw [inside, hasSpacers.collections]

end Spaced

end Heap

/-! ## Operators -/

namespace Operator

variable {heap other : Heap}

theorem subscript_congr (same : other.collections = heap.collections) (target index : Value) :
    subscript other target index = subscript heap target index := by
  obtain ⟨scopes, collections, functions⟩ := heap
  obtain ⟨scopes', collections', functions'⟩ := other
  cases same
  rfl

end Operator

end Scriptlet
