import Scriptlet.Proofs.Store.Entries
import Mathlib.Data.List.Perm.Subperm

/-!
Contract: collections whose entries move, and the bound that their indexes keep to.

An index is at most `maxIndex`. An operation that moves entries up looks at the highest
one alone, before it moves any.

Owns: `Collection.InRange`, the bound, and `Collection.Highest`; for each operation when
it fails, and what it leaves at every index where it does not (`unshift_makes`,
`concat_makes`, `removeFromStart_makes`, `removeFromEnd_makes`, `set_makes`);
and `Edit`, any one of them.

Does not own: collections of a heap (`Scriptlet.Proofs.Run.Unchanged`), or those that have
no holes (`Scriptlet.Proofs.Store.Sequences`).
-/

set_option autoImplicit false

namespace Scriptlet

namespace Collection

variable {c other made : Collection} {value : Value}

/-! ## Bounds -/

/-- No entry is beyond the largest index. -/
def InRange (c : Collection) : Prop :=
  ∀ index, (c.get? index).isSome → index ≤ maxIndex

/-- The highest index of an entry. -/
def Highest (c : Collection) (last : Nat) : Prop :=
  (c.get? last).isSome ∧ ∀ index, (c.get? index).isSome → index ≤ last

theorem mem_entries_iff (index : Nat) : index ∈ c.entries ↔ (c.get? index).isSome := by
  rw [get?, Std.TreeMap.mem_iff_isSome_getElem?]

theorem maxKey?_eq_some_iff {last : Nat} : c.entries.maxKey? = some last ↔ c.Highest last := by
  rw [Std.TreeMap.maxKey?_eq_some_iff_mem_and_forall]
  unfold Highest
  simp only [mem_entries_iff, Nat.isLE_compare]

/-- The highest entry decides for all. -/
theorem canShift_iff (offset : Nat) :
    c.canShift offset = true ↔ ∀ index, (c.get? index).isSome → index + offset ≤ maxIndex := by
  unfold canShift
  cases highest : c.entries.maxKey? with
  | none =>
      rw [Std.TreeMap.maxKey?_eq_none_iff] at highest
      have free : ∀ index, c.get? index = none := by
        intro index
        rw [get?, Std.TreeMap.getElem?_of_isEmpty highest]
      simp [free]
  | some last =>
      obtain ⟨found, atMost⟩ := maxKey?_eq_some_iff.mp highest
      dsimp only
      rw [decide_eq_true_iff]
      constructor
      · intro fits index present
        have below := atMost index present
        omega
      · intro fits
        exact fits last found

theorem canShift_eq_false_iff (offset : Nat) :
    c.canShift offset = false ↔ ∃ last, c.Highest last ∧ maxIndex < last + offset := by
  unfold canShift
  cases highest : c.entries.maxKey? with
  | none =>
      constructor
      · intro fails
        cases fails
      · rintro ⟨last, isHighest, -⟩
        rw [maxKey?_eq_some_iff.mpr isHighest] at highest
        cases highest
  | some last =>
      dsimp only
      rw [decide_eq_false_iff_not, Nat.not_le]
      constructor
      · intro beyond
        exact ⟨last, maxKey?_eq_some_iff.mp highest, beyond⟩
      · rintro ⟨other, isHighest, beyond⟩
        rw [maxKey?_eq_some_iff.mpr isHighest] at highest
        cases highest
        exact beyond

/-- There are no more entries than indexes. -/
theorem InRange.size_le (inRange : c.InRange) : c.size ≤ maxIndex + 1 := by
  have inside : c.entries.keys ⊆ List.range (maxIndex + 1) := by
    intro index isKey
    have present := (mem_entries_iff index).mp (Std.TreeMap.mem_keys.mp isKey)
    exact List.mem_range.mpr (Nat.lt_succ_of_le (inRange index present))
  have shorter := (Std.TreeMap.nodup_keys.subperm inside).length_le
  rwa [Std.TreeMap.length_keys, List.length_range] at shorter

/-! ## What each operation leaves -/

/-- A collection of the same kind is made, with these entries and no others. -/
def Makes (c : Collection) (result : EStateM.Result Fault Collection Unit)
    (entry : Nat → Option Value) : Prop :=
  ∃ made, result = .ok () made ∧ made.mutable = c.mutable ∧ made.InRange ∧
    ∀ index, made.get? index = entry index

theorem unshift_eq_error_iff (inRange : c.InRange) (value : Value) :
    c.unshift value = .error .indexOverflow c ↔ (c.get? maxIndex).isSome := by
  rw [unshift_eq]
  by_cases fits : c.canShift 1 = true
  · rw [if_pos fits]
    constructor
    · intro fails
      cases fails
    · intro present
      have beyond := (canShift_iff 1).mp fits maxIndex present
      omega
  · rw [if_neg fits]
    refine ⟨fun _ => ?_, fun _ => rfl⟩
    obtain ⟨last, ⟨found, -⟩, beyond⟩ :=
      (canShift_eq_false_iff 1).mp (Bool.eq_false_iff.mpr fits)
    have isLast : last = maxIndex := by
      have below := inRange last found
      omega
    rwa [isLast] at found

theorem unshift_makes (inRange : c.InRange) (free : c.get? maxIndex = none) (value : Value) :
    c.Makes (c.unshift value) fun
      | 0 => some value
      | index + 1 => c.get? index := by
  have fits : c.canShift 1 = true := by
    by_contra fails
    have present := (unshift_eq_error_iff inRange value).mp
      ((unshift_eq c value).trans (if_neg fails))
    rw [free] at present
    cases present
  have moved : ∃ made, c.unshift value = .ok () made ∧ made.mutable = c.mutable :=
    ⟨_, (unshift_eq c value).trans (if_pos fits), rfl⟩
  obtain ⟨made, done, kind⟩ := moved
  refine ⟨made, done, kind, ?_, get?_unshift done⟩
  intro index present
  rw [get?_unshift done] at present
  match index with
  | 0 => exact Nat.zero_le _
  | index + 1 => exact (canShift_iff 1).mp fits index present

theorem concat_eq_error_iff :
    concat other c = .error .indexOverflow c ↔
      ∃ last, other.Highest last ∧ maxIndex < last + c.size := by
  rw [← canShift_eq_false_iff, concat_eq]
  split
  next fits => simp [fits]
  next fails => simpa using fails

theorem concat_makes (inRange : c.InRange)
    (fits : ¬ ∃ last, other.Highest last ∧ maxIndex < last + c.size) :
    c.Makes (concat other c) fun index =>
      if c.size ≤ index then (other.get? (index - c.size)).or (c.get? index)
      else c.get? index := by
  rw [← canShift_eq_false_iff, Bool.not_eq_false] at fits
  have moved : ∃ made, concat other c = .ok () made ∧ made.mutable = c.mutable :=
    ⟨_, (concat_eq c other).trans (if_pos fits), rfl⟩
  obtain ⟨made, done, kind⟩ := moved
  have entries : ∀ index, made.get? index =
      if c.size ≤ index then (other.get? (index - c.size)).or (c.get? index)
      else c.get? index := by
    intro index
    split
    next behind =>
      have same := get?_concat_moved done (index - c.size)
      rwa [Nat.sub_add_cancel behind] at same
    next front => exact get?_concat_front done (Nat.lt_of_not_le front)
  refine ⟨made, done, kind, ?_, entries⟩
  intro index present
  rw [entries] at present
  split at present
  next behind =>
    rw [Option.isSome_or, Bool.or_eq_true] at present
    rcases present with added | old
    · have bound := (canShift_iff c.size).mp fits (index - c.size) added
      omega
    · exact inRange index old
  next => exact inRange index present

/-- Values numbered from zero, no more of them than there are entries in a collection. -/
theorem dense_makes (inRange : c.InRange) {values : List Value}
    (fewer : values.length ≤ c.size) :
    c.Makes (.ok () { c with entries := dense values }) fun index => values[index]? := by
  refine ⟨_, rfl, rfl, ?_, dense_getElem? values⟩
  intro index present
  have entry : ({ c with entries := dense values } : Collection).get? index = values[index]? :=
    dense_getElem? values index
  rw [entry, isSome_getElem?] at present
  have bound := inRange.size_le
  omega

theorem length_values (c : Collection) : c.entries.values.length = c.size := by
  rw [values_eq_map_toList, List.length_map, Std.TreeMap.length_toList]
  rfl

theorem removeFromStart_eq_error_iff {count : Nat} :
    c.removeFromStart count = .error (.removeCount count c.size) c ↔ c.size < count := by
  rw [removeFromStart_eq]
  split
  next enough => simp [enough]
  next tooFew => simpa using tooFew

theorem removeFromStart_makes (inRange : c.InRange) {count : Nat} (enough : count ≤ c.size) :
    c.Makes (c.removeFromStart count) fun index => (c.entries.values.drop count)[index]? := by
  rw [removeFromStart_eq, if_pos enough]
  apply dense_makes inRange
  rw [List.length_drop, length_values]
  omega

theorem removeFromEnd_eq_error_iff {count : Nat} :
    c.removeFromEnd count = .error (.removeCount count c.size) c ↔ c.size < count := by
  rw [removeFromEnd_eq]
  split
  next enough => simp [enough]
  next tooFew => simpa using tooFew

theorem removeFromEnd_makes (inRange : c.InRange) {count : Nat} (enough : count ≤ c.size) :
    c.Makes (c.removeFromEnd count)
      fun index => (c.entries.values.take (c.size - count))[index]? := by
  rw [removeFromEnd_eq, if_pos enough]
  apply dense_makes inRange
  rw [List.length_take]
  omega

theorem set_eq_error_iff {place : Nat} :
    c.set place value = .error .immutableCollection c ↔ c.mutable = false := by
  rw [set_eq]
  split
  next assignable => simp [assignable]
  next constant => simpa using constant

theorem set_makes (inRange : c.InRange) (assignable : c.mutable = true) {place : Nat}
    (possible : place ≤ maxIndex) (value : Value) :
    c.Makes (c.set place value) fun index =>
      if place = index then some value else c.get? index := by
  have replaced : ∃ made, c.set place value = .ok () made ∧ made.mutable = c.mutable :=
    ⟨_, (set_eq c place value).trans (if_pos assignable), rfl⟩
  obtain ⟨made, done, kind⟩ := replaced
  refine ⟨made, done, kind, ?_, get?_set done⟩
  intro index present
  rw [get?_set done] at present
  split at present
  next isPlace => omega
  next => exact inRange index present

end Collection

/-! ## Edits -/

/-- One operation on a collection, with what it is given. -/
inductive Edit where
  | set (index : Nat) (value : Value)
  | push (value : Value)
  | unshift (value : Value)
  | concat (other : Collection)
  | removeFromStart (count : Nat)
  | removeFromEnd (count : Nat)

/-- A collection with an edit made, as far as it can be made. -/
def Collection.edit (c : Collection) : Edit → EStateM.Result Fault Collection Unit
  | .set index value => c.set index value
  | .push value => c.push value
  | .unshift value => c.unshift value
  | .concat other => Collection.concat other c
  | .removeFromStart count => c.removeFromStart count
  | .removeFromEnd count => c.removeFromEnd count

end Scriptlet
