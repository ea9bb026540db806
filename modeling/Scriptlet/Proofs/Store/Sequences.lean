import Scriptlet.Proofs.Store.Renumbered
import Mathlib.Data.List.Perm.Basic
import Mathlib.Data.List.Zip

/-!
Contract: collections without holes, which are lists.

Where the indexes of a collection are those from zero up to the number of its entries,
every operation does to the values what it does to a list.

Owns: `Sequence`, the list with its mutability, and what each edit makes of it;
`Collection.Lists`, by which a sequence says all there is in a collection; that one edit
keeps it (`Collection.Lists.edit`); and that whole histories do
(`collections_without_holes_are_lists`).

## Why an edit that fails is part of a history

The next edit is made to what a failure leaves, which is the collection as it was. So
both sides keep the list of faults, and it is the same list.
-/

set_option autoImplicit false

namespace Scriptlet

namespace Collection

variable {c other : Collection}

/-! ## Collections without holes -/

/-- The indexes are those below the number of entries. -/
def HoleFree (c : Collection) : Prop :=
  ∀ index, (c.get? index).isSome ↔ index < c.size

theorem keys_eq_range {length : Nat} (below : ∀ index, (c.get? index).isSome ↔ index < length) :
    c.entries.keys = List.range length := by
  have same : c.entries.keys.Perm (List.range length) := by
    rw [List.perm_ext_iff_of_nodup Std.TreeMap.nodup_keys List.nodup_range]
    intro index
    rw [Std.TreeMap.mem_keys, mem_entries_iff, below, List.mem_range]
  have ordered : c.entries.keys.Pairwise (· < ·) :=
    Std.TreeMap.ordered_keys.imp Nat.compare_eq_lt.mp
  apply same.eq_of_pairwise _ ordered List.pairwise_lt_range
  intro index other _ _ less more
  omega

theorem size_eq_of_below {length : Nat} (below : ∀ index, (c.get? index).isSome ↔ index < length) :
    c.size = length := by
  have lengths := congrArg List.length (keys_eq_range below)
  rwa [Std.TreeMap.length_keys, List.length_range] at lengths

/-- The entries are the values with their places in the order. -/
theorem HoleFree.toList_eq (holeFree : c.HoleFree) :
    c.entries.toList = c.entries.values.zipIdx.map Prod.swap := by
  have zipped := List.zip_of_prod
    (Std.TreeMap.map_fst_toList_eq_keys.trans (keys_eq_range holeFree))
    (values_eq_map_toList c.entries).symm
  rw [List.zipIdx_eq_zip_range', length_values, ← List.range_eq_range', List.zip_swap]
  exact zipped

theorem HoleFree.get?_eq (holeFree : c.HoleFree) (index : Nat) :
    c.get? index = c.entries.values[index]? := by
  ext value
  rw [get?, ← Std.TreeMap.mem_toList_iff_getElem?_eq_some, holeFree.toList_eq]
  simp [List.mk_mem_zipIdx_iff_getElem?]

end Collection

/-! ## Lists in their place -/

/-- The values of a collection in the order of their indexes. -/
structure Sequence where
  values : List Value
  mutable : Bool

namespace Sequence

/-- A sequence with an edit made, or as it was. An index is that of a value, or the next
one. -/
def edit (s : Sequence) : Edit → EStateM.Result Fault Sequence Unit
  | .set index value =>
      if s.mutable then
        .ok () { s with
          values :=
            if index < s.values.length then s.values.set index value else s.values ++ [value] }
      else .error .immutableCollection s
  | .push value => .ok () { s with values := s.values ++ [value] }
  | .unshift value => .ok () { s with values := value :: s.values }
  | .concat other => .ok () { s with values := s.values ++ other.entries.values }
  | .removeFromStart count =>
      if count ≤ s.values.length then .ok () { s with values := s.values.drop count }
      else .error (.removeCount count s.values.length) s
  | .removeFromEnd count =>
      if count ≤ s.values.length then
        .ok () { s with values := s.values.take (s.values.length - count) }
      else .error (.removeCount count s.values.length) s

end Sequence

/-- The same values in the same order, from index zero on, and the same mutability. -/
structure Collection.Lists (c : Collection) (s : Sequence) : Prop where
  entries : ∀ index, c.get? index = s.values[index]?
  mutable : c.mutable = s.mutable

namespace Collection

variable {c d : Collection} {s t : Sequence}

theorem lists_ofList (values : List Value) (mutable : Bool) :
    (ofList values mutable).Lists ⟨values, mutable⟩ :=
  ⟨get?_ofList values mutable, rfl⟩

/-! ## Their values -/

theorem isEqv_iff_forall₂ {α : Type} {equal : α → α → Bool} {left right : List α} :
    left.isEqv right equal = true ↔
      List.Forall₂ (fun value value' => equal value value' = true) left right := by
  induction left generalizing right with
  | nil => cases right <;> simp
  | cons first rest inductionHypothesis =>
      cases right with
      | nil => simp
      | cons first' rest' => simp [List.isEqv, inductionHypothesis]

/-- Numbers that are counted alike make no difference. -/
theorem forall₂_zipIdx_iff {α : Type} {equal : α → α → Bool} {left right : List α} (start : Nat) :
    List.Forall₂ (fun value value' => (value.2 == value'.2 && equal value.1 value'.1) = true)
        (left.zipIdx start) (right.zipIdx start) ↔
      List.Forall₂ (fun value value' => equal value value' = true) left right := by
  induction left generalizing right start with
  | nil => cases right <;> simp
  | cons first rest inductionHypothesis =>
      cases right with
      | nil => simp
      | cons first' rest' =>
          rw [List.zipIdx_cons, List.zipIdx_cons, List.forall₂_cons, List.forall₂_cons,
            inductionHypothesis, beq_self_eq_true, Bool.true_and]

namespace Lists

theorem below (lists : c.Lists s) (index : Nat) :
    (c.get? index).isSome ↔ index < s.values.length := by
  rw [lists.entries, isSome_getElem?]

theorem size_eq (lists : c.Lists s) : c.size = s.values.length :=
  size_eq_of_below lists.below

theorem holeFree (lists : c.Lists s) : c.HoleFree := by
  intro index
  rw [lists.below, lists.size_eq]

theorem keys_eq (lists : c.Lists s) : c.entries.keys = List.range c.size :=
  keys_eq_range lists.holeFree

theorem values_eq (lists : c.Lists s) : c.entries.values = s.values := by
  apply List.ext_getElem?
  intro index
  rw [← lists.holeFree.get?_eq, lists.entries]

theorem toList_eq (lists : c.Lists s) : c.entries.toList = s.values.zipIdx.map Prod.swap := by
  rw [lists.holeFree.toList_eq, lists.values_eq]

/-- Equal collections have equal values, one by one. -/
theorem same_iff (left : c.Lists s) (right : d.Lists t) :
    c.same d = true ↔
      List.Forall₂ (fun value value' => value.same value' = true) s.values t.values ∧
        s.mutable = t.mutable := by
  unfold Collection.same
  rw [Bool.and_eq_true, beq_iff_eq, isEqv_iff_forall₂, left.toList_eq, right.toList_eq,
    List.forall₂_map_left_iff, List.forall₂_map_right_iff, left.mutable, right.mutable, and_comm]
  simp only [Prod.fst_swap, Prod.snd_swap]
  rw [forall₂_zipIdx_iff]

end Lists

/-! ## One edit -/

variable {value : Value}

theorem getElem?_push_back {α : Type} (values : List α) (value : α) (index : Nat) :
    (values ++ [value])[index]? = if values.length = index then some value else values[index]? := by
  split
  next isNew =>
    rw [← isNew]
    exact List.getElem?_concat_length
  next isOther =>
    by_cases inside : index < values.length
    · rw [List.getElem?_append_left inside]
    · rw [List.getElem?_eq_none (by simp only [List.length_append, List.length_singleton]; omega),
        List.getElem?_eq_none (by omega)]

theorem Lists.push (lists : c.Lists s) (value : Value) :
    SameResult Eq Lists (c.push value) (s.edit (.push value)) := by
  rw [push_eq]
  refine .ok rfl ⟨fun index => ?_, lists.mutable⟩
  rw [get?_insert, lists.size_eq, lists.entries, getElem?_push_back]

theorem Lists.set (lists : c.Lists s) {place : Nat} (next : place ≤ s.values.length)
    (value : Value) : SameResult Eq Lists (c.set place value) (s.edit (.set place value)) := by
  rw [set_eq, Sequence.edit, lists.mutable]
  split
  · refine .ok rfl ⟨fun index => ?_, lists.mutable⟩
    rw [get?_insert, lists.entries]
    dsimp only
    by_cases inside : place < s.values.length
    · rw [if_pos inside, List.getElem?_set, if_pos inside]
    · obtain rfl : place = s.values.length := by omega
      rw [if_neg inside, getElem?_push_back]
  · exact .error _ lists

theorem Lists.unshift (lists : c.Lists s) (short : s.values.length < maxIndex) (value : Value) :
    SameResult Eq Lists (c.unshift value) (s.edit (.unshift value)) := by
  have fits : c.canShift 1 = true := by
    rw [canShift_iff]
    intro index present
    have inside := (lists.below index).mp present
    omega
  have moved : ∃ made, c.unshift value = .ok () made ∧ made.mutable = c.mutable :=
    ⟨_, (unshift_eq c value).trans (if_pos fits), rfl⟩
  obtain ⟨made, done, kind⟩ := moved
  rw [done]
  refine .ok rfl ⟨fun index => ?_, kind.trans lists.mutable⟩
  rw [get?_unshift done]
  cases index with
  | zero => rfl
  | succ index => exact lists.entries index

theorem Lists.concat (lists : c.Lists s) {other : Collection} (holeFree : other.HoleFree)
    (short : s.values.length + other.entries.values.length ≤ maxIndex) :
    SameResult Eq Lists (Collection.concat other c) (s.edit (.concat other)) := by
  have fits : other.canShift c.size = true := by
    rw [canShift_iff]
    intro index present
    have inside := (holeFree index).mp present
    rw [length_values] at short
    rw [lists.size_eq]
    omega
  have moved : ∃ made, Collection.concat other c = .ok () made ∧ made.mutable = c.mutable :=
    ⟨_, (concat_eq c other).trans (if_pos fits), rfl⟩
  obtain ⟨made, done, kind⟩ := moved
  rw [done]
  refine .ok rfl ⟨fun index => ?_, kind.trans lists.mutable⟩
  dsimp only
  by_cases front : index < s.values.length
  · rw [List.getElem?_append_left front, get?_concat_front done (lists.size_eq ▸ front),
      lists.entries]
  · obtain ⟨place, rfl⟩ : ∃ place, index = place + s.values.length :=
      ⟨index - s.values.length, by omega⟩
    have free : c.get? (place + s.values.length) = none := by
      rw [lists.entries, List.getElem?_eq_none (by omega)]
    have entry := get?_concat_moved done place
    rw [lists.size_eq, free, Option.or_none, holeFree.get?_eq] at entry
    rw [entry, List.getElem?_append_right (by omega), Nat.add_sub_cancel]

theorem Lists.dense (lists : c.Lists s) (values : List Value) :
    ({ c with entries := Collection.dense values } : Collection).Lists
      { s with values := values } :=
  ⟨dense_getElem? values, lists.mutable⟩

theorem Lists.removeFromStart (lists : c.Lists s) (count : Nat) :
    SameResult Eq Lists (c.removeFromStart count) (s.edit (.removeFromStart count)) := by
  rw [removeFromStart_eq, Sequence.edit, lists.size_eq, lists.values_eq]
  split
  · exact .ok rfl (lists.dense _)
  · exact .error _ lists

theorem Lists.removeFromEnd (lists : c.Lists s) (count : Nat) :
    SameResult Eq Lists (c.removeFromEnd count) (s.edit (.removeFromEnd count)) := by
  rw [removeFromEnd_eq, Sequence.edit, lists.size_eq, lists.values_eq]
  split
  · exact .ok rfl (lists.dense _)
  · exact .error _ lists

end Collection

/-- An edit that leaves no hole: an index that is not beyond the next one, or a
collection without holes to add. -/
def Edit.Fits (s : Sequence) : Edit → Prop
  | .set index _ => index ≤ s.values.length
  | .concat other => other.HoleFree
  | _ => True

/-- One edit does the same to a collection as to the list of its values. -/
theorem Collection.Lists.edit {c : Collection} {s : Sequence} (lists : c.Lists s)
    {edit : Edit} (fits : edit.Fits s)
    (short : ∀ changed, s.edit edit = .ok () changed → changed.values.length ≤ maxIndex) :
    SameResult Eq Lists (c.edit edit) (s.edit edit) := by
  cases edit with
  | set index value => exact lists.set fits value
  | push value => exact lists.push value
  | unshift value => exact lists.unshift (short _ rfl) value
  | concat other =>
      have length := short _ rfl
      rw [List.length_append] at length
      exact lists.concat fits length
  | removeFromStart count => exact lists.removeFromStart count
  | removeFromEnd count => exact lists.removeFromEnd count

theorem Sequence.edit_ne_indexOverflow (s : Sequence) (edit : Edit) (left : Sequence) :
    s.edit edit ≠ .error .indexOverflow left := by
  unfold Sequence.edit
  split
  case h_2 | h_3 | h_4 => simp
  all_goals split <;> simp

/-! ## Histories -/

/-- What an attempt left. -/
def leftBy {α : Type} : EStateM.Result Fault α Unit → α
  | .ok _ left => left
  | .error _ left => left

def faultOf {α : Type} : EStateM.Result Fault α Unit → Option Fault
  | .ok _ _ => none
  | .error cause _ => some cause

/-- Attempts edits one after another, each on what the one before left, for the fault of
each and what is there in the end. -/
def attempts {α : Type} (attempt : α → Edit → EStateM.Result Fault α Unit) :
    α → List Edit → List (Option Fault) × α
  | state, [] => ([], state)
  | state, first :: rest =>
      let result := attempt state first
      let (faults, last) := attempts attempt (leftBy result) rest
      (faultOf result :: faults, last)

/-- Edits that leave no hole, and never more values than the largest index. -/
def Sequence.Allows : Sequence → List Edit → Prop
  | s, [] => s.values.length ≤ maxIndex
  | s, first :: rest =>
      s.values.length ≤ maxIndex ∧ first.Fits s ∧ (leftBy (s.edit first)).Allows rest

theorem Sequence.Allows.length_le {s : Sequence} {history : List Edit}
    (allowed : s.Allows history) : s.values.length ≤ maxIndex := by
  cases history with
  | nil => exact allowed
  | cons first rest => exact allowed.1

theorem SameResult.leftBy {α β : Type} {relation : α → β → Prop}
    {result : EStateM.Result Fault α Unit} {result' : EStateM.Result Fault β Unit}
    (same : SameResult Eq relation result result') :
    faultOf result = faultOf result' ∧
      relation (Scriptlet.leftBy result) (Scriptlet.leftBy result') := by
  cases same with
  | ok _ states => exact ⟨rfl, states⟩
  | error cause states => exact ⟨rfl, states⟩

/-- A whole history does the same to a collection as to the list of its values. -/
theorem Collection.Lists.attempts {c : Collection} {s : Sequence} (lists : c.Lists s)
    {history : List Edit} (allowed : s.Allows history) :
    ∃ faults made changed, Scriptlet.attempts Collection.edit c history = (faults, made) ∧
      Scriptlet.attempts Sequence.edit s history = (faults, changed) ∧ made.Lists changed ∧
      some .indexOverflow ∉ faults := by
  induction history generalizing c s with
  | nil => exact ⟨[], c, s, rfl, rfl, lists, by simp⟩
  | cons first rest inductionHypothesis =>
      obtain ⟨-, fits, later⟩ := allowed
      have short : ∀ changed, s.edit first = .ok () changed →
          changed.values.length ≤ maxIndex := by
        intro changed done
        rw [done] at later
        exact later.length_le
      obtain ⟨sameFault, related⟩ := (lists.edit fits short).leftBy
      obtain ⟨faults, made, changed, run, model, listed, noOverflow⟩ :=
        inductionHypothesis related later
      refine ⟨faultOf (s.edit first) :: faults, made, changed, ?_, ?_, listed, ?_⟩
      · simp only [Scriptlet.attempts, run, sameFault]
      · simp only [Scriptlet.attempts, model]
      · rw [List.mem_cons, not_or]
        refine ⟨fun overflow => ?_, noOverflow⟩
        cases result : s.edit first with
        | ok value changed =>
            rw [result] at overflow
            cases overflow
        | error cause left =>
            rw [result] at overflow
            cases overflow
            exact s.edit_ne_indexOverflow first left result

/-- **A collection that never had a hole is a list.** Whatever is edited one after the
other, each attempt fails as it does on the list, or does what it does there. Then the
indexes are those below the number of values, the values are those of the list, and two
such collections are equal exactly where their lists are. -/
theorem collections_without_holes_are_lists {values : List Value} {mutable : Bool}
    {history : List Edit} (allowed : Sequence.Allows ⟨values, mutable⟩ history) :
    ∃ faults c s, attempts Collection.edit (.ofList values mutable) history = (faults, c) ∧
      attempts Sequence.edit ⟨values, mutable⟩ history = (faults, s) ∧
      some .indexOverflow ∉ faults ∧
      c.entries.keys = List.range c.size ∧ c.size = s.values.length ∧
      c.entries.values = s.values ∧ c.mutable = s.mutable ∧
      (∀ index, c.get? index = s.values[index]?) ∧
      ∀ values' mutable' history' faults' d t,
        Sequence.Allows ⟨values', mutable'⟩ history' →
        attempts Collection.edit (.ofList values' mutable') history' = (faults', d) →
        attempts Sequence.edit ⟨values', mutable'⟩ history' = (faults', t) →
          (c.same d = true ↔
            List.Forall₂ (fun value value' => value.same value' = true) s.values t.values ∧
              s.mutable = t.mutable) := by
  obtain ⟨faults, c, s, run, model, lists, noOverflow⟩ :=
    (Collection.lists_ofList values mutable).attempts allowed
  refine ⟨faults, c, s, run, model, noOverflow, lists.keys_eq, lists.size_eq, lists.values_eq,
    lists.mutable, lists.entries, ?_⟩
  intro values' mutable' history' faults' d t allowed' run' model'
  obtain ⟨others, d', t', again, again', lists', -⟩ :=
    (Collection.lists_ofList values' mutable').attempts allowed'
  rw [run'] at again
  rw [model'] at again'
  cases again
  cases again'
  exact lists.same_iff lists'

/-- An array that gets a value behind its last one, then a copy of itself, is too short
for the first removal, and loses its last value to the second one. -/
theorem doubled_array_is_list :
    ∃ c, attempts Collection.edit (.ofList [.nil] true)
        [.set 1 (.bool true), .concat (.ofList [.nil, .bool true] true), .removeFromStart 5,
          .removeFromEnd 1] =
          ([none, none, some (.removeCount 5 4), none], c) ∧
      c.entries.values = [.nil, .bool true, .nil] := by
  have copied : (Collection.ofList [.nil, .bool true] true).HoleFree :=
    (Collection.lists_ofList _ _).holeFree
  have values : (Collection.ofList [.nil, .bool true] true).entries.values = [.nil, .bool true] :=
    (Collection.lists_ofList _ _).values_eq
  have allowed : Sequence.Allows ⟨[.nil], true⟩ [.set 1 (.bool true),
      .concat (.ofList [.nil, .bool true] true), .removeFromStart 5, .removeFromEnd 1] := by
    simp [Sequence.Allows, Edit.Fits, Sequence.edit, leftBy, copied, values, maxIndex]
  obtain ⟨faults, c, s, run, model, -, -, -, listed, -⟩ :=
    collections_without_holes_are_lists allowed
  simp only [attempts, Sequence.edit, leftBy, faultOf, values] at model
  cases model
  exact ⟨c, run, listed⟩

end Scriptlet
