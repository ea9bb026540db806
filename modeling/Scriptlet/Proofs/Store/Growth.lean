import Scriptlet.Proofs.Store.Entries

/-!
Contract: collections that grow at their end.

A value that is pushed, and each entry of a collection that is added, gets an index
from the number of entries on. In a collection with holes that index may be taken,
and what was there is gone.

Owns: `Collection.Keeps`, by which nothing is gone, and `growth_keeps_iff_free`, by
which a collection keeps all it had, and has as many entries more as were added,
exactly where all those indexes were free.
-/

set_option autoImplicit false

namespace Scriptlet

namespace Collection

variable {c other made : Collection}

/-- Every entry of the first collection is in the second. -/
def Keeps (before after : Collection) : Prop :=
  ∀ (index : Nat) (value : Value), before.get? index = some value → after.get? index = some value

theorem keeps_push {value : Value} (done : c.push value = .ok () made)
    (free : c.get? c.size = none) : c.Keeps made := by
  intro index old found
  rw [get?_push done]
  split
  next isNew =>
    rw [← isNew, free] at found
    cases found
  next => exact found

theorem keeps_concat (done : concat other c = .ok () made)
    (free : ∀ place, (other.get? place).isSome → c.get? (place + c.size) = none) :
    c.Keeps made := by
  intro index value found
  by_cases front : index < c.size
  · rw [get?_concat_front done front]
    exact found
  · obtain ⟨place, rfl⟩ : ∃ place, index = place + c.size := ⟨index - c.size, by omega⟩
    rw [get?_concat_moved done]
    cases added : other.get? place with
    | none => exact found
    | some value =>
        rw [free place (by simp [added])] at found
        cases found

/-- There are as many entries more as were added exactly where none of them took the
place of another one. -/
theorem size_concat_eq_iff (done : concat other c = .ok () made) :
    made.size = c.size + other.size ↔
      ∀ place, (other.get? place).isSome → c.get? (place + c.size) = none := by
  have counted := size_concat done
  constructor
  · intro grown place added
    have none : (other.entries.toList.filter fun entry =>
        (c.get? (entry.1 + c.size)).isSome) = [] := by
      rw [← List.length_eq_zero_iff]
      omega
    obtain ⟨value, isEntry⟩ := Option.isSome_iff_exists.mp added
    have inside := Std.TreeMap.mem_toList_iff_getElem?_eq_some.mpr isEntry
    have free := List.filter_eq_nil_iff.mp none _ inside
    simpa using free
  · intro free
    have none : (other.entries.toList.filter fun entry =>
        (c.get? (entry.1 + c.size)).isSome) = [] := by
      refine List.filter_eq_nil_iff.mpr fun entry inside => ?_
      have isEntry := Std.TreeMap.mem_toList_iff_getElem?_eq_some.mp inside
      have found : (other.get? entry.1).isSome := by
        rw [get?, isEntry]
        rfl
      simp [free entry.1 found]
    rw [none, List.length_nil] at counted
    exact counted

end Collection

/-- **A collection grows without a loss exactly where the new indexes are free.** They
are counted from the number of entries on: one for a value that is pushed, and for
another collection one for each of its entries, moved up. -/
theorem growth_keeps_iff_free (c : Collection) :
    (∀ value, ∃ made, c.push value = .ok () made ∧
      (c.Keeps made ∧ made.size = c.size + 1 ↔ c.get? c.size = none)) ∧
    ∀ other made, Collection.concat other c = .ok () made →
      (c.Keeps made ∧ made.size = c.size + other.size ↔
        ∀ place, (other.get? place).isSome → c.get? (place + c.size) = none) := by
  refine ⟨fun value => ⟨_, Collection.push_eq c value, ?_, ?_⟩, fun other made done => ⟨?_, ?_⟩⟩
  · rintro ⟨-, grown⟩
    rw [Collection.size_insert] at grown
    split at grown
    · omega
    next free => simpa using free
  · intro free
    refine ⟨Collection.keeps_push (Collection.push_eq c value) free, ?_⟩
    rw [Collection.size_insert, free]
    rfl
  · rintro ⟨-, grown⟩
    exact (Collection.size_concat_eq_iff done).mp grown
  · intro free
    exact ⟨Collection.keeps_concat done free, (Collection.size_concat_eq_iff done).mpr free⟩

/-- An array whose only entry is at index one loses it to the next value, whether that
is pushed or added in an array. -/
theorem sparse_array_loses_entry :
    ∃ sparse pushed made, (Collection.ofList [] true).set 1 (.string "a") = .ok () sparse ∧
      sparse.get? 1 = some (.string "a") ∧
      sparse.push (.string "b") = .ok () pushed ∧
      ¬ (sparse.Keeps pushed ∧ pushed.size = sparse.size + 1) ∧
      Collection.concat (.ofList [.string "b"] true) sparse = .ok () made ∧
      ¬ (sparse.Keeps made ∧ made.size = sparse.size + 1) := by
  obtain ⟨pushed, done, keeps⟩ :=
    (growth_keeps_iff_free ⟨(Collection.dense []).insert 1 (.string "a"), true⟩).1 (.string "b")
  have fits : (Collection.ofList [.string "b"] true).canShift 1 = true := by cbv
  have added := (Collection.concat_eq ⟨(Collection.dense []).insert 1 (.string "a"), true⟩
    (.ofList [.string "b"] true)).trans (if_pos fits)
  refine ⟨_, pushed, _, rfl, rfl, done, fun grows => ?_, added, fun grows => ?_⟩
  · have free := keeps.mp grows
    cases free
  · have free := ((growth_keeps_iff_free _).2 _ _ added).mp grows
    cases free 0 rfl

end Scriptlet
