import Scriptlet.Proofs.Store.MovedCollections
import Mathlib.Data.List.Nodup

/-!
Contract: collections, said of each index.

Owns: which entry every operation leaves at every index (`get?_ofList`,
`get?_push`, `get?_set`, `get?_unshift`, `get?_concat_front`, `get?_concat_moved`, and for
the removals `dense_getElem?`), and how many entries there are then (`size_insert`,
`size_concat`).

Does not own: which of these entries a program meant to keep
(`Scriptlet.Proofs.Store.Growth`).

## Why entries are inserted by lists

Whatever an operation does, it inserts a list of entries with different indexes
into the old entries, or into none. So one lemma says what is at an index after
that: an entry of the list, or else the old one.
-/

set_option autoImplicit false

namespace Scriptlet

/-! ## Entries of a list -/

section Lists

variable {α : Type} {base : Std.TreeMap Nat α} {list : List (Nat × α)}

/-- No two entries of a list have the same index. -/
def Distinct (list : List (Nat × α)) : Prop :=
  (list.map Prod.fst).Nodup

theorem distinct_toList (entries : Std.TreeMap Nat α) : Distinct entries.toList := by
  unfold Distinct
  rw [Std.TreeMap.map_fst_toList_eq_keys]
  exact Std.TreeMap.nodup_keys

/-- Indexes that are changed one to one stay different. -/
theorem Distinct.map (distinct : Distinct list) {change : Nat → Nat}
    (injective : Function.Injective change) :
    Distinct (list.map fun entry => (change entry.1, entry.2)) := by
  have changed := List.Nodup.map injective distinct
  unfold Distinct
  rw [List.map_map] at changed ⊢
  exact changed

theorem Distinct.value_eq (distinct : Distinct list) {index : Nat} {left right : α}
    (one : (index, left) ∈ list) (another : (index, right) ∈ list) : left = right :=
  congrArg Prod.snd (List.inj_on_of_nodup_map distinct one another rfl)

/-- After a list of entries is inserted, an index has its entry in the list, or else
the old one. -/
theorem insertMany_getElem?_iff (distinct : Distinct list) (index : Nat) (value : α) :
    (base.insertMany list)[index]? = some value ↔
      (index, value) ∈ list ∨ (∀ other, (index, other) ∉ list) ∧ base[index]? = some value := by
  have apart : list.Pairwise fun left right => ¬ compare left.1 right.1 = .eq :=
    (List.pairwise_map.mp distinct).imp fun differ same =>
      differ (Std.LawfulEqCmp.compare_eq_iff_eq.mp same)
  by_cases inserted : ∃ other, (index, other) ∈ list
  · obtain ⟨other, inside⟩ := inserted
    rw [Std.TreeMap.getElem?_insertMany_list_of_mem (Std.LawfulEqCmp.compare_eq_iff_eq.mpr rfl)
      apart inside]
    constructor
    · intro same
      exact Or.inl (Option.some.inj same ▸ inside)
    · rintro (found | ⟨absent, -⟩)
      · rw [distinct.value_eq inside found]
      · exact absurd inside (absent other)
  · have absent : ∀ other, (index, other) ∉ list := fun other inside => inserted ⟨other, inside⟩
    have noIndex : (list.map Prod.fst).contains index = false := by
      simpa using absent
    rw [Std.TreeMap.getElem?_insertMany_list_of_contains_eq_false noIndex]
    constructor
    · intro old
      exact Or.inr ⟨absent, old⟩
    · rintro (inside | ⟨-, old⟩)
      · exact absurd inside (absent value)
      · exact old

/-- Every index that was free before counts. -/
theorem size_insertMany (base : Std.TreeMap Nat α) (distinct : Distinct list) :
    (base.insertMany list).size + (list.filter fun entry => entry.1 ∈ base).length =
      base.size + list.length := by
  induction list generalizing base with
  | nil => simp
  | cons first rest inductionHypothesis =>
      obtain ⟨differs, others⟩ := List.nodup_cons.mp distinct
      -- the entries behind the first one are at other indexes, so they are as new as before
      have same : (rest.filter fun entry => entry.1 ∈ base.insert first.1 first.2) =
          rest.filter fun entry => entry.1 ∈ base := by
        refine List.filter_congr fun entry inside => ?_
        have other : first.1 ≠ entry.1 := by
          intro same
          exact differs (List.mem_map.mpr ⟨entry, inside, same.symm⟩)
        simp [Std.TreeMap.mem_insert, other]
      have later := inductionHypothesis (base.insert first.1 first.2) others
      rw [same, Std.TreeMap.size_insert] at later
      rw [Std.TreeMap.insertMany_cons, List.filter_cons, List.length_cons]
      by_cases taken : first.1 ∈ base
      · rw [if_pos (Std.TreeMap.contains_iff_mem.mpr taken)] at later
        simp only [taken, decide_true, if_true, List.length_cons]
        omega
      · rw [if_neg fun inside => taken (Std.TreeMap.contains_iff_mem.mp inside)] at later
        simp only [taken, decide_false, Bool.false_eq_true, if_false]
        omega

theorem foldl_insert_eq (list : List (Nat × α)) (base : Std.TreeMap Nat α)
    (change : Nat → Nat) :
    list.foldl (fun entries entry => entries.insert (change entry.1) entry.2) base =
      base.insertMany (list.map fun entry => (change entry.1, entry.2)) := by
  induction list generalizing base with
  | nil => simp
  | cons first rest inductionHypothesis =>
      rw [List.foldl_cons, inductionHypothesis, List.map_cons, Std.TreeMap.insertMany_cons]

end Lists

namespace Collection

variable {c other made : Collection} {value : Value}

/-! ## What is at an index -/

/-- The values numbered from zero are at their numbers. -/
theorem dense_getElem? (values : List Value) (index : Nat) :
    (dense values)[index]? = values[index]? := by
  have distinct : Distinct (values.zipIdx.map Prod.swap) := by
    unfold Distinct
    rw [List.map_map]
    exact List.zipIdx_map_snd 0 values ▸ List.nodup_range'
  have inserted : dense values =
      (∅ : Std.TreeMap Nat Value).insertMany (values.zipIdx.map Prod.swap) :=
    Std.TreeMap.ofList_eq_insertMany_empty
  ext value
  rw [inserted, insertMany_getElem?_iff distinct]
  simp [List.mk_mem_zipIdx_iff_getElem?]

theorem get?_ofList (values : List Value) (mutable : Bool) (index : Nat) :
    (ofList values mutable).get? index = values[index]? :=
  dense_getElem? values index

theorem get?_insert (c : Collection) (place : Nat) (value : Value) (index : Nat) :
    (c.insert place value).get? index = if place = index then some value else c.get? index := by
  unfold insert get?
  rw [Std.TreeMap.getElem?_insert]
  simp

theorem get?_push (done : c.push value = .ok () made) (index : Nat) :
    made.get? index = if c.size = index then some value else c.get? index := by
  rw [push_eq] at done
  cases done
  exact get?_insert c c.size value index

theorem get?_set {place : Nat} (done : c.set place value = .ok () made) (index : Nat) :
    made.get? index = if place = index then some value else c.get? index := by
  rw [set_eq] at done
  split at done
  · cases done
    exact get?_insert c place value index
  · cases done

/-- Every entry is one further up, behind the new one. -/
theorem get?_unshift (done : c.unshift value = .ok () made) (index : Nat) :
    made.get? index = match index with
      | 0 => some value
      | index + 1 => c.get? index := by
  rw [unshift_eq] at done
  split at done
  · cases done
    have moved : Distinct (c.entries.toList.map fun entry => (entry.1 + 1, entry.2)) :=
      (distinct_toList c.entries).map fun _ _ => Nat.succ.inj
    have distinct :
        Distinct ((0, value) :: c.entries.toList.map fun entry => (entry.1 + 1, entry.2)) := by
      refine List.nodup_cons.mpr ⟨?_, moved⟩
      simp
    show (Std.TreeMap.ofList ((0, value) :: c.entries.toList.map
      fun entry => (entry.1 + 1, entry.2)))[index]? = _
    ext found
    rw [Std.TreeMap.ofList_eq_insertMany_empty, insertMany_getElem?_iff distinct]
    cases index with
    | zero => simp [eq_comm]
    | succ index => simp [get?, Std.TreeMap.mem_toList_iff_getElem?_eq_some]
  · cases done

/-- The entries of the other collection are inserted, moved up by the number of
entries. -/
theorem entries_concat (done : concat other c = .ok () made) :
    made.entries =
      c.entries.insertMany (other.entries.toList.map fun entry => (entry.1 + c.size, entry.2)) := by
  rw [concat_eq] at done
  split at done
  · cases done
    exact foldl_insert_eq _ _ (· + c.size)
  · cases done

theorem distinct_moved (other : Collection) (offset : Nat) :
    Distinct (other.entries.toList.map fun entry => (entry.1 + offset, entry.2)) :=
  (distinct_toList other.entries).map fun _ _ => Nat.add_right_cancel

/-- Below the number of entries nothing changes. -/
theorem get?_concat_front (done : concat other c = .ok () made) {index : Nat}
    (front : index < c.size) : made.get? index = c.get? index := by
  ext found
  unfold get?
  rw [entries_concat done, insertMany_getElem?_iff (distinct_moved other c.size)]
  constructor
  · rintro (inserted | ⟨-, old⟩)
    · obtain ⟨entry, -, same⟩ := List.mem_map.mp inserted
      have index := congrArg Prod.fst same
      dsimp only at index
      omega
    · exact old
  · intro old
    refine Or.inr ⟨fun value inserted => ?_, old⟩
    obtain ⟨entry, -, same⟩ := List.mem_map.mp inserted
    have index := congrArg Prod.fst same
    dsimp only at index
    omega

/-- From there on, what the other collection has takes the place of what was
there. -/
theorem get?_concat_moved (done : concat other c = .ok () made) (place : Nat) :
    made.get? (place + c.size) = (other.get? place).or (c.get? (place + c.size)) := by
  have inserted : ∀ value : Value, (place + c.size, value) ∈
      (other.entries.toList.map fun entry => (entry.1 + c.size, entry.2)) ↔
        other.entries[place]? = some value := by
    intro value
    rw [← Std.TreeMap.mem_toList_iff_getElem?_eq_some]
    simp
  ext found
  unfold get?
  rw [entries_concat done, insertMany_getElem?_iff (distinct_moved other c.size)]
  simp only [inserted]
  cases other.entries[place]? <;> simp [eq_comm]

/-! ## How many entries there are -/

theorem size_insert (c : Collection) (index : Nat) (value : Value) :
    (c.insert index value).size = if (c.get? index).isSome then c.size else c.size + 1 := by
  unfold insert size get?
  rw [Std.TreeMap.size_insert]
  simp

/-- The entries of both, but for those that took the place of another one. -/
theorem size_concat (done : concat other c = .ok () made) :
    made.size +
        (other.entries.toList.filter fun entry => (c.get? (entry.1 + c.size)).isSome).length =
      c.size + other.size := by
  have counted := size_insertMany c.entries (distinct_moved other c.size)
  rw [← entries_concat done, List.filter_map, List.length_map, List.length_map,
    Std.TreeMap.length_toList] at counted
  have same : (fun entry : Nat × Value => (c.get? (entry.1 + c.size)).isSome) =
      (fun entry : Nat × Value => decide (entry.1 ∈ c.entries)) ∘
        fun entry => (entry.1 + c.size, entry.2) := by
    funext entry
    rw [Function.comp_apply, Bool.eq_iff_iff]
    simp [get?]
  rw [same]
  exact counted

end Collection

end Scriptlet
