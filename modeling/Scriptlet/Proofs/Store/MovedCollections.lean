import Scriptlet.Proofs.Store.Changes
import Scriptlet.Tree
import Mathlib.Data.List.Forall2
import Std.Data.TreeMap.Lemmas

/-!
Contract: values and collections of two heaps, of which one holds more objects.

The objects of the first heap are in the second one as well, in the same order,
behind others that are not looked at. A `Relocation` says how many those are.

Owns: `Relocation`; `Value.MovedTo` and `Collection.MovedTo`, which relate what
is the same but for the numbers of objects; and that the operations on
collections keep to the relation.

Does not own: heaps and their scopes (`Scriptlet.Proofs.Store.MovedHeaps`).
-/

set_option autoImplicit false

namespace Scriptlet

/-- Where the objects of a heap are in another: behind so many others. Symbols may
have other numbers, and something may have been written before. -/
structure Relocation where
  symbols : Symbol → Symbol → Prop
  scopes : Nat
  collections : Nat
  functions : Nat
  written : ByteArray

/-- The same value, if objects are found where the relocation says. The first
function of a heap is the clock, which is never looked at. -/
inductive Value.MovedTo (move : Relocation) : Value → Value → Prop where
  | nil : Value.MovedTo move .nil .nil
  | bool (value : Bool) : Value.MovedTo move (.bool value) (.bool value)
  | number (value : Float) : Value.MovedTo move (.number value) (.number value)
  | string (value : String) : Value.MovedTo move (.string value) (.string value)
  | collection (id : CollectionId) :
      Value.MovedTo move (.collection id) (.collection (id + move.collections))
  | function {id : FunctionId} (noClock : id ≠ 0) :
      Value.MovedTo move (.function id) (.function (id + move.functions))

/-- Both computations end with values that are related, or with the same fault. -/
inductive SameEnd {α β : Type} (relation : α → β → Prop) :
    Except Fault α → Except Fault β → Prop where
  | ok {value : α} {value' : β} (related : relation value value') :
      SameEnd relation (.ok value) (.ok value')
  | error (cause : Fault) : SameEnd relation (.error cause) (.error cause)

theorem SameEnd.bind {α β γ δ : Type} {relation : α → β → Prop} {result : γ → δ → Prop}
    {first : Except Fault α} {first' : Except Fault β} {next : α → Except Fault γ}
    {next' : β → Except Fault δ} (same : SameEnd relation first first')
    (later : ∀ value value', relation value value' → SameEnd result (next value) (next' value')) :
    SameEnd result (first >>= next) (first' >>= next') := by
  cases same with
  | ok related => exact later _ _ related
  | error cause => exact .error cause

/-- Both computations on a state end alike, as `SameEnd` says, and leave states that are
related in either case. -/
inductive SameResult {σ τ α β : Type} (relation : α → β → Prop) (left : σ → τ → Prop) :
    EStateM.Result Fault σ α → EStateM.Result Fault τ β → Prop where
  | ok {value : α} {value' : β} {state : σ} {state' : τ} (related : relation value value')
      (states : left state state') : SameResult relation left (.ok value state) (.ok value' state')
  | error (cause : Fault) {state : σ} {state' : τ} (states : left state state') :
      SameResult relation left (.error cause state) (.error cause state')

theorem SameResult.bind {σ τ α β γ δ : Type} {relation : α → β → Prop} {result : γ → δ → Prop}
    {left : σ → τ → Prop} {first : EStateM Fault σ α} {first' : EStateM Fault τ β}
    {next : α → EStateM Fault σ γ} {next' : β → EStateM Fault τ δ} {state : σ} {state' : τ}
    (same : SameResult relation left (first state) (first' state'))
    (later : ∀ value value' state state', relation value value' → left state state' →
      SameResult result left (next value state) (next' value' state')) :
    SameResult result left ((first >>= next) state) ((first' >>= next') state') := by
  show SameResult result left (EStateM.bind first next state) (EStateM.bind first' next' state')
  unfold EStateM.bind
  generalize first state = ended at same
  generalize first' state' = ended' at same
  cases same with
  | ok related states => exact later _ _ _ _ related states
  | error cause states => exact .error cause states

/-! ## Entries -/

section Entries

variable {α β : Type} {relation : α → β → Prop}

/-- The same indexes, with values that are related. -/
def EntriesAlike (relation : α → β → Prop) (left : Std.TreeMap Nat α) (right : Std.TreeMap Nat β) :
    Prop :=
  ∀ index : Nat, Option.Rel relation left[index]? right[index]?

/-- An index with a value, and the same index with a related one. -/
def EntryAlike (relation : α → β → Prop) (left : Nat × α) (right : Nat × β) : Prop :=
  left.1 = right.1 ∧ relation left.2 right.2

theorem EntriesAlike.empty : EntriesAlike relation ∅ ∅ := by
  intro index
  rw [Std.TreeMap.getElem?_emptyc, Std.TreeMap.getElem?_emptyc]
  exact .none

variable {left : Std.TreeMap Nat α} {right : Std.TreeMap Nat β}

theorem EntriesAlike.insert (alike : EntriesAlike relation left right) (index : Nat) {value : α}
    {value' : β} (related : relation value value') :
    EntriesAlike relation (left.insert index value) (right.insert index value') := by
  intro other
  rw [Std.TreeMap.getElem?_insert, Std.TreeMap.getElem?_insert]
  split
  · exact .some related
  · exact alike other

theorem EntriesAlike.keys_eq (alike : EntriesAlike relation left right) :
    left.keys = right.keys := by
  have same : (left.map fun _ _ => ()).keys = (right.map fun _ _ => ()).keys := by
    refine (Std.TreeMap.Equiv.of_forall_constGet?_eq fun index => ?_).keys_eq
    rw [Std.TreeMap.getElem?_map, Std.TreeMap.getElem?_map]
    have here := alike index
    generalize left[index]? = value at here
    generalize right[index]? = value' at here
    cases here <;> rfl
  rwa [Std.TreeMap.keys_map, Std.TreeMap.keys_map] at same

/-- Entries in order, one by one. -/
theorem EntriesAlike.toList (alike : EntriesAlike relation left right) :
    List.Forall₂ (EntryAlike relation) left.toList right.toList := by
  have keys : List.Forall₂ (fun (entry : Nat × α) (entry' : Nat × β) => entry.1 = entry'.1)
      left.toList right.toList := by
    rw [← List.forall₂_map_right_iff, ← List.forall₂_map_left_iff, List.forall₂_eq_eq_eq,
      Std.TreeMap.map_fst_toList_eq_keys, Std.TreeMap.map_fst_toList_eq_keys]
    exact alike.keys_eq
  rw [List.forall₂_iff_zip] at keys ⊢
  refine ⟨keys.1, fun {entry entry'} paired => ?_⟩
  have sameIndex := keys.2 paired
  obtain ⟨inLeft, inRight⟩ := List.of_mem_zip paired
  have value := Std.TreeMap.mem_toList_iff_getElem?_eq_some.mp inLeft
  have value' := Std.TreeMap.mem_toList_iff_getElem?_eq_some.mp inRight
  have here := alike entry.1
  rw [value, sameIndex, value'] at here
  cases here with
  | some related => exact ⟨sameIndex, related⟩

theorem EntriesAlike.size_eq (alike : EntriesAlike relation left right) :
    left.size = right.size := by
  rw [← Std.TreeMap.length_toList, alike.toList.length_eq, Std.TreeMap.length_toList]

theorem values_eq_map_toList (entries : Std.TreeMap Nat α) :
    entries.values = entries.toList.map Prod.snd := by
  show entries.foldr (fun _ value values => value :: values) [] = _
  rw [Std.TreeMap.foldr_eq_foldr_toList]
  induction entries.toList with
  | nil => rfl
  | cons entry entries inductionHypothesis =>
      rw [List.foldr_cons, inductionHypothesis, List.map_cons]

theorem EntriesAlike.values (alike : EntriesAlike relation left right) :
    List.Forall₂ relation left.values right.values := by
  rw [values_eq_map_toList, values_eq_map_toList, List.forall₂_map_left_iff,
    List.forall₂_map_right_iff]
  exact alike.toList.imp fun _ _ same => same.2

/-- Entries that are alike, inserted in order, at indexes that depend on theirs. -/
theorem EntriesAlike.foldl (alike : EntriesAlike relation left right) (index : Nat → Nat)
    {list : List (Nat × α)} {list' : List (Nat × β)}
    (all : List.Forall₂ (EntryAlike relation) list list') :
    EntriesAlike relation
      (list.foldl (fun entries entry => entries.insert (index entry.1) entry.2) left)
      (list'.foldl (fun entries entry => entries.insert (index entry.1) entry.2) right) := by
  induction all generalizing left right with
  | nil => exact alike
  | @cons entry entry' _ _ first rest inductionHypothesis =>
      have next := alike.insert (index entry.1) first.2
      rw [List.foldl_cons, List.foldl_cons, ← first.1]
      exact inductionHypothesis next

theorem EntriesAlike.insertMany (alike : EntriesAlike relation left right)
    {list : List (Nat × α)} {list' : List (Nat × β)}
    (all : List.Forall₂ (EntryAlike relation) list list') :
    EntriesAlike relation (left.insertMany list) (right.insertMany list') := by
  induction all generalizing left right with
  | nil =>
      rw [Std.TreeMap.insertMany_nil, Std.TreeMap.insertMany_nil]
      exact alike
  | @cons entry entry' _ _ first rest inductionHypothesis =>
      have next := alike.insert entry.1 first.2
      obtain ⟨index, value⟩ := entry
      obtain ⟨index', value'⟩ := entry'
      obtain rfl : index = index' := first.1
      rw [Std.TreeMap.insertMany_cons, Std.TreeMap.insertMany_cons]
      exact inductionHypothesis next

theorem entriesAlike_ofList {list : List (Nat × α)} {list' : List (Nat × β)}
    (all : List.Forall₂ (EntryAlike relation) list list') :
    EntriesAlike relation (.ofList list) (.ofList list') := by
  rw [Std.TreeMap.ofList_eq_insertMany_empty, Std.TreeMap.ofList_eq_insertMany_empty]
  exact EntriesAlike.empty.insertMany all

end Entries

/-! ## Collections -/

/-- The same collection, but for where objects are. -/
structure Collection.MovedTo (move : Relocation) (left right : Collection) : Prop where
  entries : EntriesAlike (Value.MovedTo move) left.entries right.entries
  mutable : left.mutable = right.mutable

namespace Collection

variable {move : Relocation} {left right : Collection}

theorem zipIdx_moved {values values' : List Value}
    (all : List.Forall₂ (Value.MovedTo move) values values') (start : Nat) :
    List.Forall₂ (fun numbered numbered' => numbered.2 = numbered'.2 ∧
        Value.MovedTo move numbered.1 numbered'.1)
      (values.zipIdx start) (values'.zipIdx start) := by
  induction all generalizing start with
  | nil => exact .nil
  | cons first rest inductionHypothesis =>
      exact .cons ⟨rfl, first⟩ (inductionHypothesis (start + 1))

theorem dense_moved {values values' : List Value}
    (all : List.Forall₂ (Value.MovedTo move) values values') :
    EntriesAlike (Value.MovedTo move) (dense values) (dense values') := by
  apply entriesAlike_ofList
  rw [List.forall₂_map_left_iff, List.forall₂_map_right_iff]
  exact zipIdx_moved all 0

theorem ofList_moved {values values' : List Value}
    (all : List.Forall₂ (Value.MovedTo move) values values') (mutable : Bool) :
    (ofList values mutable).MovedTo move (ofList values' mutable) :=
  ⟨dense_moved all, rfl⟩

namespace MovedTo

variable (moved : left.MovedTo move right)

include moved

theorem size_eq : left.size = right.size :=
  moved.entries.size_eq

theorem get? (index : Nat) :
    Option.Rel (Value.MovedTo move) (left.get? index) (right.get? index) :=
  moved.entries index

theorem canShift_eq (offset : Nat) : left.canShift offset = right.canShift offset := by
  unfold canShift
  rw [Std.TreeMap.maxKey?_eq_getLast?_keys, Std.TreeMap.maxKey?_eq_getLast?_keys,
    moved.entries.keys_eq]

theorem insert (index : Nat) {value value' : Value} (same : value.MovedTo move value') :
    (left.insert index value).MovedTo move (right.insert index value') :=
  ⟨moved.entries.insert index same, moved.mutable⟩

theorem set (index : Nat) {value value' : Value} (same : value.MovedTo move value') :
    SameResult Eq (Collection.MovedTo move) (left.set index value) (right.set index value') := by
  rw [set_eq, set_eq, moved.mutable]
  split
  · exact .ok rfl (moved.insert index same)
  · exact .error _ moved

theorem push {value value' : Value} (same : value.MovedTo move value') :
    SameResult Eq (Collection.MovedTo move) (left.push value) (right.push value') := by
  rw [push_eq, push_eq, moved.size_eq]
  exact .ok rfl (moved.insert _ same)

theorem unshift {value value' : Value} (same : value.MovedTo move value') :
    SameResult Eq (Collection.MovedTo move) (left.unshift value) (right.unshift value') := by
  rw [unshift_eq, unshift_eq, moved.canShift_eq]
  split
  · refine .ok rfl ⟨entriesAlike_ofList (.cons ⟨rfl, same⟩ ?_), moved.mutable⟩
    rw [List.forall₂_map_left_iff, List.forall₂_map_right_iff]
    exact moved.entries.toList.imp fun _ _ entry => ⟨congrArg (· + 1) entry.1, entry.2⟩
  · exact .error _ moved

theorem concat {other other' : Collection} (added : other.MovedTo move other') :
    SameResult Eq (Collection.MovedTo move) (Collection.concat other left)
      (Collection.concat other' right) := by
  rw [concat_eq, concat_eq, added.canShift_eq, moved.size_eq]
  split
  · exact .ok rfl ⟨moved.entries.foldl (· + right.size) added.entries.toList, moved.mutable⟩
  · exact .error _ moved

theorem removeFromStart (count : Nat) :
    SameResult Eq (Collection.MovedTo move) (left.removeFromStart count)
      (right.removeFromStart count) := by
  rw [removeFromStart_eq, removeFromStart_eq, moved.size_eq]
  split
  · exact .ok rfl ⟨dense_moved (List.forall₂_drop count moved.entries.values), moved.mutable⟩
  · exact .error _ moved

theorem removeFromEnd (count : Nat) :
    SameResult Eq (Collection.MovedTo move) (left.removeFromEnd count)
      (right.removeFromEnd count) := by
  rw [removeFromEnd_eq, removeFromEnd_eq, moved.size_eq]
  split
  · exact .ok rfl ⟨dense_moved (List.forall₂_take _ moved.entries.values), moved.mutable⟩
  · exact .error _ moved

end MovedTo

end Collection

end Scriptlet
