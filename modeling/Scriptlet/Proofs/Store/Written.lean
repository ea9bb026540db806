import Scriptlet.Proofs.Store.Renumbered
import Scriptlet.Store.Display
import Mathlib.Data.Finset.Card
import Mathlib.Data.List.Infix

/-!
Contract: what the text of a value is, said of the paths on which collections occur.

An occurrence is a value with the path of entries that leads to it from the value that is
written. A collection occurs on many paths if it is shared, and again and again on one path
if it holds itself.

Owns: `Heap.at?`; `Heap.Writes`, by which an occurrence of a collection is written as dots if
the same collection occurs earlier on its path, and in full otherwise; `Heap.Spells`, the text
without any dots; that `Heap.display` is the one text that a value has (`Heap.writes_iff`);
and that without circles it is spelled out (`Heap.spells_iff`).

Does not own: how a text is written piece by piece (`Scriptlet.Proofs.Store.Rendering`).

## Why the depth is enough

Where a collection is written in full, it is not written in full again further in. So each
level takes one more of the collections that there are, whatever is around the first one.
-/

set_option autoImplicit false

namespace Scriptlet

/-! ## Entries in order -/

namespace Collection

variable {c : Collection}

/-- The text of the entries at the indexes, given that of their values. -/
def entriesText (c : Collection) (indexes : List Nat) (text : Nat → String) : String :=
  c.bracketed (" ".intercalate (indexes.map fun index => index.repr ++ ": " ++ text index ++ ","))

/-- All indexes of entries, in increasing order. -/
structure Indexes (c : Collection) (indexes : List Nat) : Prop where
  increasing : indexes.Pairwise (· < ·)
  all : ∀ index, index ∈ indexes ↔ (c.get? index).isSome

theorem indexes_keys (c : Collection) : c.Indexes c.entries.keys where
  increasing := Std.TreeMap.ordered_keys.imp Nat.compare_eq_lt.mp
  all index := by rw [Std.TreeMap.mem_keys, mem_entries_iff]

theorem Indexes.unique {indexes others : List Nat} (ordered : c.Indexes indexes)
    (ordered' : c.Indexes others) : indexes = others := by
  have distinct : ∀ {list : List Nat}, list.Pairwise (· < ·) → list.Nodup :=
    fun increasing => increasing.imp Nat.ne_of_lt
  have same : indexes.Perm others := by
    rw [List.perm_ext_iff_of_nodup (distinct ordered.increasing) (distinct ordered'.increasing)]
    intro index
    rw [ordered.all, ordered'.all]
  apply same.eq_of_pairwise _ ordered.increasing ordered'.increasing
  intro index other _ _ less more
  omega

/-- Entries with the same text make the same text. -/
theorem Indexes.text_eq {indexes others : List Nat} (ordered : c.Indexes indexes)
    (ordered' : c.Indexes others) {text text' : Nat → String}
    (same : ∀ index ∈ indexes, text index = text' index) :
    c.entriesText indexes text = c.entriesText others text' := by
  obtain rfl := ordered.unique ordered'
  unfold entriesText
  congr 2
  refine List.map_congr_left fun index inside => ?_
  rw [same index inside]

/-- The text of a collection is that of its entries in order. -/
theorem text_eq (c : Collection) (valueText : Value → String) :
    c.text valueText =
      c.entriesText c.entries.keys fun index => ((c.get? index).map valueText).getD "" := by
  unfold text entriesText
  rw [← Std.TreeMap.map_fst_toList_eq_keys, List.map_map]
  congr 2
  refine List.map_congr_left fun entry inside => ?_
  have value : c.get? entry.1 = some entry.2 :=
    Std.TreeMap.mem_toList_iff_getElem?_eq_some.mp inside
  simp only [Function.comp_apply, value, Option.map_some, Option.getD_some]

end Collection

namespace Heap

variable {heap : Heap} {root value : Value} {path : List Nat} {id : CollectionId} {c : Collection}

/-- The collection that a value is, if it is one. -/
def collection? (heap : Heap) : Value → Option Collection
  | .collection id => heap.collections[id]?
  | _ => none

theorem collection?_eq_some :
    heap.collection? value = some c ↔
      ∃ id, value = .collection id ∧ heap.collections[id]? = some c := by
  cases value with
  | collection id => simp [collection?]
  | _ => simp [collection?]

/-- The text of a value that is no collection. -/
def plainText (heap : Heap) : Value → String
  | .nil => "nil"
  | .bool value => if value then "true" else "false"
  | .number value => Number.displayText value
  | .string value => value
  | .function id => (heap.functions[id]?.map Function.text).getD ""
  | .collection _ => ""

/-! ## Occurrences -/

/-- The value of an entry. -/
def entry? (heap : Heap) (value : Value) (index : Nat) : Option Value :=
  (heap.collection? value).bind (·.get? index)

/-- The value that a path of entries leads to. -/
def at? (heap : Heap) (root : Value) (path : List Nat) : Option Value :=
  path.foldlM heap.entry? root

/-- The collection occurs on the path, before its end. -/
def Earlier (heap : Heap) (root : Value) (path : List Nat) (id : CollectionId) : Prop :=
  ∃ before, before <+: path ∧ before ≠ path ∧ heap.at? root before = some (.collection id)

/-- No collection is inside itself, directly or through others. It may be shared. -/
def Acyclic (heap : Heap) (root : Value) : Prop :=
  ∀ path id, heap.at? root path = some (.collection id) → ∀ further, further ≠ [] →
    heap.at? (.collection id) further ≠ some (.collection id)

theorem at?_append (before after : List Nat) :
    heap.at? root (before ++ after) = (heap.at? root before).bind (heap.at? · after) :=
  List.foldlM_append

theorem at?_entry (there : heap.at? root path = some (.collection id))
    (found : heap.collections[id]? = some c) (index : Nat) :
    heap.at? root (path ++ [index]) = c.get? index := by
  rw [at?_append, there]
  simp [at?, entry?, collection?, found]

/-- Before the end of a path that is one entry longer, there is all that was there before,
and what was at its end. -/
theorem earlier_append (index : Nat) :
    heap.Earlier root (path ++ [index]) id ↔
      heap.at? root path = some (.collection id) ∨ heap.Earlier root path id := by
  constructor
  · rintro ⟨before, isBefore, shorter, there⟩
    rcases List.prefix_concat_iff.mp isBefore with same | isBefore
    · exact absurd same shorter
    · by_cases same : before = path
      · exact Or.inl (same ▸ there)
      · exact Or.inr ⟨before, isBefore, same, there⟩
  · rintro (there | ⟨before, isBefore, -, there⟩)
    · exact ⟨path, List.prefix_append path [index], by simp, there⟩
    · have longer := isBefore.length_le
      refine ⟨before, isBefore.trans (List.prefix_append path [index]), ?_, there⟩
      rintro rfl
      rw [List.length_append, List.length_singleton] at longer
      omega

theorem not_earlier_nil : ¬ heap.Earlier root [] id := by
  rintro ⟨before, isBefore, shorter, -⟩
  exact shorter (List.prefix_nil.mp isBefore)

theorem Acyclic.not_earlier (acyclic : heap.Acyclic root)
    (there : heap.at? root path = some (.collection id)) : ¬ heap.Earlier root path id := by
  rintro ⟨before, ⟨further, rfl⟩, shorter, thereBefore⟩
  rw [at?_append, thereBefore] at there
  exact acyclic before id thereBefore further (by simpa using shorter) there

/-- Each collection holds only collections that were made before it. -/
def HoldsOlder (heap : Heap) : Prop :=
  ∀ (id : Nat) (c : Collection) (index other : Nat),
    heap.collections[id]? = some c → c.get? index = some (.collection other) → other < id

theorem HoldsOlder.at? (older : heap.HoldsOlder) {id other : Nat}
    (there : heap.at? (.collection id) path = some (.collection other)) :
    other + path.length ≤ id := by
  induction path using List.reverseRecOn generalizing other with
  | nil =>
      cases there
      exact Nat.le_refl id
  | append_singleton before index inductionHypothesis =>
      rw [at?_append] at there
      obtain ⟨value, thereBefore, thereEntry⟩ := Option.bind_eq_some_iff.mp there
      have isEntry : heap.entry? value index = some (.collection other) := by
        simpa [Heap.at?] using thereEntry
      obtain ⟨c, isCollection, entry⟩ := Option.bind_eq_some_iff.mp isEntry
      obtain ⟨holder, rfl, found⟩ := collection?_eq_some.mp isCollection
      have shorter := inductionHypothesis thereBefore
      have smaller := older holder c index other found entry
      rw [List.length_append, List.length_singleton]
      omega

/-- Collections that hold only older ones make no circle. -/
theorem HoldsOlder.acyclic (older : heap.HoldsOlder) (root : Value) : heap.Acyclic root := by
  intro path id _ further nonempty again
  have shorter := older.at? again
  have longer := List.length_pos_iff.mpr nonempty
  omega

/-! ## The text of an occurrence -/

/-- The occurrence at the end of a path has the text. Of a collection that occurs earlier on
the path, only the brackets are written, with dots inside. -/
inductive Writes (heap : Heap) (root : Value) : List Nat → String → Prop where
  | plain {path : List Nat} {value : Value} (there : heap.at? root path = some value)
      (noCollection : heap.collection? value = none) :
      Writes heap root path (heap.plainText value)
  | elided {path : List Nat} {id : CollectionId} {c : Collection}
      (there : heap.at? root path = some (.collection id))
      (found : heap.collections[id]? = some c) (again : heap.Earlier root path id) :
      Writes heap root path (c.bracketed "...")
  | full {path : List Nat} {id : CollectionId} {c : Collection} {indexes : List Nat}
      {text : Nat → String} (there : heap.at? root path = some (.collection id))
      (found : heap.collections[id]? = some c) (first : ¬ heap.Earlier root path id)
      (ordered : c.Indexes indexes)
      (entries : ∀ index ∈ indexes, Writes heap root (path ++ [index]) (text index)) :
      Writes heap root path (c.entriesText indexes text)

theorem Writes.unique {text other : String} (writes : heap.Writes root path text)
    (others : heap.Writes root path other) : text = other := by
  induction writes generalizing other with
  | plain there noCollection =>
      cases others with
      | plain there' _ =>
          cases there.symm.trans there'
          rfl
      | elided there' found' _ | full there' found' _ _ _ =>
          cases there.symm.trans there'
          cases noCollection.symm.trans found'
  | elided there found again =>
      cases others with
      | plain there' noCollection' =>
          cases there.symm.trans there'
          cases noCollection'.symm.trans found
      | elided there' found' _ =>
          cases there.symm.trans there'
          cases found.symm.trans found'
          rfl
      | full there' _ first' _ _ =>
          cases there.symm.trans there'
          exact absurd again first'
  | full there found first ordered entries inductionHypothesis =>
      cases others with
      | plain there' noCollection' =>
          cases there.symm.trans there'
          cases noCollection'.symm.trans found
      | elided there' _ again' =>
          cases there.symm.trans there'
          exact absurd again' first
      | full there' found' _ ordered' entries' =>
          cases there.symm.trans there'
          cases found.symm.trans found'
          obtain rfl := ordered.unique ordered'
          exact ordered.text_eq ordered fun index inside =>
            inductionHypothesis index inside (entries' index inside)

/-! ## Values as they are displayed -/

/-- How many collections there are that are not yet being written. -/
def unopened (heap : Heap) (around : List CollectionId) : Nat :=
  ((Finset.range heap.collections.size).filter (· ∉ around)).card

theorem unopened_le (heap : Heap) (around : List CollectionId) :
    heap.unopened around ≤ heap.collections.size := by
  have fewer := Finset.card_filter_le (Finset.range heap.collections.size) (· ∉ around)
  rwa [Finset.card_range] at fewer

/-- A collection that comes to be written is one less. -/
theorem unopened_cons {around : List CollectionId} (found : heap.collections[id]? = some c)
    (outside : id ∉ around) : heap.unopened (id :: around) < heap.unopened around := by
  have there := (Array.getElem?_eq_some_iff.mp found).1
  refine Finset.card_lt_card ⟨fun other inside => ?_, fun all => ?_⟩
  · simp only [Finset.mem_filter, List.mem_cons, not_or] at inside ⊢
    exact ⟨inside.1, inside.2.2⟩
  · have inside := all (Finset.mem_filter.mpr ⟨Finset.mem_range.mpr there, outside⟩)
    simp at inside

theorem displayIn_plain (noCollection : heap.collection? value = none) (depth : Nat)
    (around : List CollectionId) : heap.displayIn depth around value = heap.plainText value := by
  cases value with
  | collection id =>
      have missing : heap.collections[id]? = none := noCollection
      cases depth with
      | zero => rw [displayIn, plainText]
      | succ depth => simp only [displayIn, missing, plainText]
  | function id =>
      rw [plainText]
      cases depth <;> rw [displayIn] <;> cases heap.functions[id]? <;> rfl
  | nil | bool _ | number _ | string _ => cases depth <;> rw [displayIn, plainText]

theorem displayIn_inside {around : List CollectionId} (found : heap.collections[id]? = some c)
    (inside : id ∈ around) (depth : Nat) :
    heap.displayIn (depth + 1) around (.collection id) = c.bracketed "..." := by
  rw [displayIn, found]
  exact if_pos inside

theorem displayIn_outside {around : List CollectionId} (found : heap.collections[id]? = some c)
    (outside : id ∉ around) (depth : Nat) :
    heap.displayIn (depth + 1) around (.collection id) =
      c.text (heap.displayIn depth (id :: around)) := by
  rw [displayIn, found]
  exact if_neg outside

/-- What is displayed inside just the collections that occur earlier on its path is written
as it should be. -/
theorem displayIn_writes {depth : Nat} {around : List CollectionId}
    (there : heap.at? root path = some value)
    (opened : ∀ id, id ∈ around ↔ heap.Earlier root path id)
    (deep : heap.unopened around < depth) :
    heap.Writes root path (heap.displayIn depth around value) := by
  induction depth generalizing around path value with
  | zero => omega
  | succ depth inductionHypothesis =>
      cases collection : heap.collection? value with
      | none =>
          rw [displayIn_plain collection]
          exact .plain there collection
      | some c =>
          obtain ⟨id, rfl, found⟩ := collection?_eq_some.mp collection
          by_cases inside : id ∈ around
          · rw [displayIn_inside found inside]
            exact .elided there found ((opened id).mp inside)
          · rw [displayIn_outside found inside, Collection.text_eq]
            have first := fun again => inside ((opened id).mpr again)
            refine .full there found first c.indexes_keys fun index isIndex => ?_
            obtain ⟨entry, isEntry⟩ :=
              Option.isSome_iff_exists.mp ((c.indexes_keys.all index).mp isIndex)
            have thereEntry := (at?_entry there found index).trans isEntry
            rw [isEntry]
            refine inductionHypothesis thereEntry (fun other => ?_) ?_
            · rw [earlier_append, there, List.mem_cons, opened other]
              simp [eq_comm]
            · have fewer := unopened_cons found inside
              omega

/-- **A value has one text, and that is displayed.** -/
theorem writes_iff (heap : Heap) (value : Value) (text : String) :
    heap.Writes value [] text ↔ text = heap.display value := by
  have displayed : heap.Writes value [] (heap.display value) := by
    refine displayIn_writes rfl (fun id => ?_) (Nat.lt_succ_of_le (heap.unopened_le []))
    exact iff_of_false List.not_mem_nil not_earlier_nil
  exact ⟨fun writes => writes.unique displayed, fun same => same ▸ displayed⟩

/-! ## Values without circles -/

/-- The value has the text, with all entries of all collections written in full. -/
inductive Spells (heap : Heap) : Value → String → Prop where
  | plain {value : Value} (noCollection : heap.collection? value = none) :
      Spells heap value (heap.plainText value)
  | full {value : Value} {c : Collection} {indexes : List Nat} {text : Nat → String}
      (found : heap.collection? value = some c) (ordered : c.Indexes indexes)
      (entries : ∀ index ∈ indexes, ∀ entry, c.get? index = some entry →
        Spells heap entry (text index)) : Spells heap value (c.entriesText indexes text)

theorem Spells.unique {text other : String} (spells : heap.Spells value text)
    (others : heap.Spells value other) : text = other := by
  induction spells generalizing other with
  | plain noCollection =>
      cases others with
      | plain _ => rfl
      | full found' _ _ => cases noCollection.symm.trans found'
  | @full value c indexes text found ordered entries inductionHypothesis =>
      cases others with
      | plain noCollection' => cases noCollection'.symm.trans found
      | full found' ordered' entries' =>
          cases found.symm.trans found'
          obtain rfl := ordered.unique ordered'
          refine ordered.text_eq ordered fun index inside => ?_
          obtain ⟨entry, isEntry⟩ := Option.isSome_iff_exists.mp ((ordered.all index).mp inside)
          exact inductionHypothesis index inside entry isEntry
            (entries' index inside entry isEntry)

theorem Writes.spells (acyclic : heap.Acyclic root) {text : String}
    (writes : heap.Writes root path text) :
    ∀ value, heap.at? root path = some value → heap.Spells value text := by
  induction writes with
  | plain there noCollection =>
      intro value isValue
      cases there.symm.trans isValue
      exact .plain noCollection
  | elided there found again => exact absurd again (acyclic.not_earlier there)
  | @full path id c indexes text there found first ordered entries inductionHypothesis =>
      intro value isValue
      cases there.symm.trans isValue
      refine .full found ordered fun index inside entry isEntry => ?_
      exact inductionHypothesis index inside entry ((at?_entry there found index).trans isEntry)

/-- **Without circles nothing is left out.** However often collections are shared, the text
is that of all entries, written in full. -/
theorem spells_iff (acyclic : heap.Acyclic value) (text : String) :
    heap.Spells value text ↔ text = heap.display value := by
  have displayed : heap.Spells value (heap.display value) :=
    ((heap.writes_iff value _).mpr rfl).spells acyclic value rfl
  exact ⟨fun spells => spells.unique displayed, fun same => same ▸ displayed⟩

end Heap

end Scriptlet
