import Scriptlet.Proofs.Lexical.Answers
import Scriptlet.Proofs.Run.Alone
import Scriptlet.Proofs.Run.Moved
import Scriptlet.Proofs.Store.Resolution

/-!
Contract: what is found by a symbol, and what by its name.

Scopes are keyed by the numbers of symbols. To look a name up, one would go through the
entries of a scope, and compare the name behind the number of each.

Owns: `Heap.Interned`, by which scopes bind and functions use known symbols only, and that
runs keep it so, whatever they do (`interned_keeps`); `Scope.findNamed?`, the lookup by
name; and `Machine.FindsNames`, by which it finds what the lookup by number finds, in a
scope as well as along its chain (`Heap.Interned.findsNames`).

Does not own: which symbols are known (`Scriptlet.Proofs.Lexical.Answers`), what holds of
single runs in general (`Scriptlet.Proofs.Run.Alone`), and which binding of a name counts
(`Scriptlet.Proofs.Store.Resolution`).

## Why known symbols are not enough

A number that no symbol has would be no matter to lookups, until a symbol gets it. Then a
name would be bound that nobody has declared. So it is asked of all entries of scopes that
their numbers are those of known symbols.
-/

set_option autoImplicit false

namespace Scriptlet

/-- A known symbol, and itself. -/
def Symbol.Within (known : Symbol → Prop) (left right : Symbol) : Prop :=
  left = right ∧ known left

/-! ## Heaps with known symbols -/

/-- Whatever is bound is bound for a known symbol. -/
def Scope.Interned (known : Symbol → Prop) (scope : Scope) : Prop :=
  ∀ number ∈ scope.bindings, ∃ symbol, known symbol ∧ symbol.id = number

/-- The parameters and the body use known symbols only. -/
def Function.Interned (known : Symbol → Prop) : Function → Prop
  | .clock => True
  | .closure _ parameters body _ =>
      List.Forall₂ (Name.Alike (Symbol.Within known)) parameters parameters ∧
        List.Forall₂ (Stmt.Alike (Symbol.Within known)) body body

/-- Scopes and functions have known symbols only. -/
structure Heap.Interned (known : Symbol → Prop) (heap : Heap) : Prop where
  scopes : ∀ (id : ScopeId) (scope : Scope), heap.scopes[id]? = some scope → scope.Interned known
  functions : ∀ (id : FunctionId) (function : Function), heap.functions[id]? = some function →
    function.Interned known

section Known

variable {known : Symbol → Prop}

theorem Scope.Interned.empty (parent : Option ScopeId) : (Scope.empty parent).Interned known := by
  intro number bound
  exact absurd bound Std.TreeMap.not_mem_emptyc

theorem Scope.Interned.bind {scope : Scope} (interned : scope.Interned known) {symbol : Symbol}
    (isKnown : known symbol) (binding : Binding) : (scope.bind symbol binding).Interned known := by
  intro number bound
  rcases Std.TreeMap.mem_insert.mp bound with same | earlier
  · exact ⟨symbol, isKnown, Std.LawfulEqCmp.eq_of_compare same⟩
  · exact interned number earlier

theorem callScope_interned (scope : ScopeId) {parameters : List Name}
    (taken : List.Forall₂ (Name.Alike (Symbol.Within known)) parameters parameters)
    (arguments : List Value) : (Run.callScope scope parameters arguments).Interned known := by
  refine callScope_induction scope parameters arguments (.empty _) ?_
  intro inner interned name isParameter value _
  exact interned.bind (List.forall₂_same.mp taken name isParameter).symbol.2 _

namespace Heap.Interned

variable {heap : Heap} (interned : heap.Interned known)
include interned

theorem of_eq {other : Heap} (scopes : other.scopes = heap.scopes)
    (functions : other.functions = heap.functions) : other.Interned known := by
  constructor
  · rw [scopes]
    exact interned.scopes
  · rw [functions]
    exact interned.functions

theorem mono {more : Symbol → Prop} (further : ∀ symbol, known symbol → more symbol) :
    heap.Interned more where
  scopes id scope found number bound := by
    obtain ⟨symbol, isKnown, isNumber⟩ := interned.scopes id scope found number bound
    exact ⟨symbol, further symbol isKnown, isNumber⟩
  functions id function found := by
    have inside := interned.functions id function found
    cases function with
    | clock => trivial
    | closure name parameters body closed =>
        have wider : ∀ left right, Symbol.Within known left right → Symbol.Within more left right :=
          fun left _ same => ⟨same.1, further left same.2⟩
        exact ⟨names_mono wider inside.1, inside.2.imp fun _ _ => Stmt.Alike.mono wider⟩

theorem bind (owner : ScopeId) {symbol : Symbol} (isKnown : known symbol) (binding : Binding) :
    (heap.bind owner symbol binding).Interned known where
  scopes id scope found := by
    rw [Heap.bind_getElem?] at found
    split at found
    · obtain ⟨earlier, isEarlier, rfl⟩ := Option.map_eq_some_iff.mp found
      exact (interned.scopes id earlier isEarlier).bind isKnown binding
    · exact interned.scopes id scope found
  functions := interned.functions

theorem addScope {scope : Scope} (inner : scope.Interned known) :
    (heap.addScope scope).Interned known where
  scopes id other found := by
    rw [Heap.addScope_getElem?] at found
    split at found
    · cases found
      exact inner
    · exact interned.scopes id other found
  functions := interned.functions

theorem addFunction {function : Function} (code : function.Interned known) :
    (heap.addFunction function).Interned known where
  scopes := interned.scopes
  functions id other found := by
    have found : (heap.functions.push function)[id]? = some other := found
    rw [Array.getElem?_push] at found
    split at found
    · cases found
      exact code
    · exact interned.functions id other found

end Heap.Interned

/-! ## Runs -/

/-- Whatever is run, scopes bind and functions use known symbols only. -/
theorem interned_keeps : Lockstep.Keeps (Symbol.Within known)
    (fun machine => machine.heap.Interned known) (fun _ _ _ => True) where
  refl _ _ := trivial
  trans _ _ := trivial
  louder _ := trivial
  equal same := same.1
  untouched interned scopes functions _ := ⟨interned.of_eq scopes functions, trivial⟩
  assign _ interned isKnown _ := ⟨interned.bind _ isKnown.2 _, trivial⟩
  declare _ interned isKnown := ⟨interned.bind _ isKnown.2 _, trivial⟩
  newClosure _ interned taken statements :=
    have code : Function.Interned known (.closure _ _ _ _) := ⟨taken, statements⟩
    ⟨interned.addFunction code, trivial⟩
  closure interned found := interned.functions _ _ found
  entering scope arguments interned taken :=
    interned.addScope (callScope_interned scope taken arguments)
  leaving interned _ := ⟨interned, trivial⟩

end Known

/-! ## Lookups by name -/

/-- Goes through the entries of a scope, and finds the one with this name. -/
def Scope.findNamed? (table : SymbolTable) (name : String) (scope : Scope) : Option Binding :=
  (scope.bindings.toList.find? fun entry => table.nameOf? entry.1 == some name).map (·.2)

/-- What is found by its name in a scope itself, with the scope. -/
def Heap.ownedNamed? (table : SymbolTable) (name : String) (heap : Heap) (id : ScopeId) :
    Option (ScopeId × Binding) :=
  (heap.scopes[id]?.bind (·.findNamed? table name)).map (Prod.mk id)

/-- A symbol finds what its name would. -/
structure Machine.FindsNames (table : SymbolTable) (log : List Answer) (machine : Machine) :
    Prop where
  /-- Scopes bind and functions use only symbols that were returned. -/
  interned : machine.heap.Interned (Returned log)
  /-- Every entry of a scope has a name, and is under the number that was returned for it. -/
  entries : ∀ (id : ScopeId) (scope : Scope), machine.heap.scopes[id]? = some scope →
    ∀ number ∈ scope.bindings, ∃ answer ∈ log,
      answer.symbol.id = number ∧ table.nameOf? number = some answer.name
  /-- A scope has the same binding under a symbol as under its name. -/
  inScope : ∀ answer ∈ log, ∀ (id : ScopeId) (scope : Scope),
    machine.heap.scopes[id]? = some scope →
      scope.find? answer.symbol = scope.findNamed? table answer.name
  /-- Reading and writing end with the first entry of this name on the chain. -/
  onChain : ∀ answer ∈ log, ∀ id < machine.heap.scopes.size, ∃ chain, machine.heap.Chain id chain ∧
    machine.heap.Means id answer.symbol
      (chain.findSome? (machine.heap.ownedNamed? table answer.name))

section Lookups

variable {table : SymbolTable} {log : List Answer}

/-- The one entry with the number of a symbol is the one with its name. -/
theorem Scope.findNamed?_eq (oneToOne : table.OneToOne) {symbol : Symbol}
    (isHeld : symbol ∈ table.held) (scope : Scope) :
    scope.findNamed? table symbol.name = scope.find? symbol := by
  -- names and numbers correspond, so that comparing either picks the same entries
  have sameEntries : (fun entry : Nat × Binding => table.nameOf? entry.1 == some symbol.name) =
      fun entry => compare entry.1 symbol.id == .eq := by
    funext entry
    rw [Bool.eq_iff_iff, beq_iff_eq, beq_iff_eq, oneToOne.nameOf?_eq_some,
      Std.LawfulEqCmp.compare_eq_iff_eq]
    constructor
    · intro other
      exact congrArg Symbol.id (oneToOne.eq_of_name other isHeld rfl)
    · rintro same
      rwa [same]
  unfold findNamed? find?
  rw [sameEntries]
  by_cases there : symbol.id ∈ scope.bindings
  · obtain ⟨binding, bound⟩ :=
      Option.isSome_iff_exists.mp (Std.TreeMap.mem_iff_isSome_getElem?.mp there)
    rw [bound, Std.TreeMap.find?_toList_eq_some_iff_getKey?_eq_some_and_getElem?_eq_some.mpr
      ⟨Std.TreeMap.getKey?_eq_some there, bound⟩, Option.map_some]
  · rw [Std.TreeMap.find?_toList_eq_none_iff_not_mem.mpr there, Option.map_none,
      Std.TreeMap.getElem?_eq_none there]

theorem Heap.ownedNamed?_eq (oneToOne : table.OneToOne) {symbol : Symbol}
    (isHeld : symbol ∈ table.held) (heap : Heap) :
    heap.ownedNamed? table symbol.name = heap.owned? symbol := by
  have sameEntry : Scope.findNamed? table symbol.name = fun scope => scope.find? symbol :=
    funext (Scope.findNamed?_eq oneToOne isHeld)
  funext id
  unfold ownedNamed? owned? bound?
  rw [sameEntry]

/-- **Lookups by symbol agree with lookups by name**, on a heap whose symbols are all those
that a table has returned. -/
theorem Heap.Interned.findsNames {machine : Machine}
    (interned : machine.heap.Interned (Returned log)) (lawful : table.Lawful)
    (answered : table.Answered log) (chained : machine.heap.Chained) :
    machine.FindsNames table log where
  interned := interned
  entries id scope found number bound := by
    obtain ⟨symbol, ⟨answer, inside, rfl⟩, rfl⟩ := interned.scopes id scope found number bound
    obtain ⟨isName, isHeld⟩ := (answered answer).mp inside
    refine ⟨answer, inside, rfl, ?_⟩
    rw [← isName]
    exact lawful.oneToOne.nameOf?_eq_some.mpr isHeld
  inScope answer inside id scope _ := by
    obtain ⟨isName, isHeld⟩ := (answered answer).mp inside
    rw [← isName]
    exact (scope.findNamed?_eq lawful.oneToOne isHeld).symm
  onChain answer inside id there := by
    obtain ⟨isName, isHeld⟩ := (answered answer).mp inside
    rw [← isName]
    obtain ⟨chain, isChain⟩ := chained id there
    refine ⟨chain, isChain, ?_⟩
    rw [Heap.ownedNamed?_eq lawful.oneToOne isHeld, ← isChain.nearest?_eq]
    exact machine.heap.means_nearest? id answer.symbol

end Lookups

end Scriptlet
