import Scriptlet.Store.Collection

/-!
Contract: what the operations on a collection come to.

Owns: for each operation one equation, which says when it fails and what it leaves
(`set_eq`, `push_eq`, `unshift_eq`, `concat_eq`, `removeFromStart_eq`, `removeFromEnd_eq`);
and `Collection.canShift`, by which entries can move up.

Does not own: which entry is at which index afterwards (`Scriptlet.Proofs.Store.Entries`),
and why a failure leaves a collection as it was (`Scriptlet.Proofs.Store.Guarded`).
-/

set_option autoImplicit false

namespace Scriptlet

namespace Collection

variable (c : Collection)

/-- Whether the entries can move up by `offset`. -/
def canShift (offset : Nat) : Bool :=
  match c.entries.maxKey? with
  | some last => last + offset ≤ maxIndex
  | none => true

theorem checkShift_eq (other : Collection) (offset : Nat) :
    checkShift other.entries offset c =
      if other.canShift offset then .ok () c else .error .indexOverflow c := by
  unfold checkShift canShift
  cases other.entries.maxKey? with
  | none => rfl
  | some last =>
      dsimp only
      by_cases fits : last + offset ≤ maxIndex
      · rw [if_pos fits, if_pos (decide_eq_true fits)]
        rfl
      · rw [if_neg fits, if_neg (by simpa using fits)]
        rfl

theorem checkCount_eq (count : Nat) :
    checkCount count c =
      if count ≤ c.size then .ok () c else .error (.removeCount count c.size) c := by
  show (if c.size < count then (throw (.removeCount count c.size) : Change Unit) else pure ()) c = _
  by_cases enough : count ≤ c.size
  · rw [if_pos enough, if_neg (Nat.not_lt.mpr enough)]
    rfl
  · rw [if_neg enough, if_pos (Nat.lt_of_not_le enough)]
    rfl

/-- A check that stands in front of what it guards. -/
theorem bind_check {check : Change Unit} {fits : Prop} [Decidable fits] {cause : Fault}
    (checked : check c = if fits then .ok () c else .error cause c) (rest : Unit → Change Unit) :
    (check >>= rest) c = if fits then rest () c else .error cause c := by
  show EStateM.bind check rest c = _
  unfold EStateM.bind
  rw [checked]
  by_cases holds : fits
  · rw [if_pos holds, if_pos holds]
  · rw [if_neg holds, if_neg holds]

/-- Entries that are inserted one after the other. -/
theorem forM_insert (list : List (Nat × Value)) (offset : Nat) :
    (list.forM fun (index, value) =>
        (modify fun c : Collection => c.insert (index + offset) value : Change Unit)) c =
      .ok () { c with
        entries := list.foldl
          (fun (entries : Std.TreeMap Nat Value) entry =>
            entries.insert (entry.1 + offset) entry.2) c.entries } := by
  induction list generalizing c with
  | nil => rfl
  | cons first rest inductionHypothesis => exact inductionHypothesis _

/-! ## Each operation -/

theorem set_eq (index : Nat) (value : Value) :
    c.set index value =
      if c.mutable then .ok () (c.insert index value) else .error .immutableCollection c := by
  obtain ⟨entries, mutable⟩ := c
  cases mutable <;> rfl

theorem push_eq (value : Value) : c.push value = .ok () (c.insert c.size value) := rfl

theorem unshift_eq (value : Value) :
    c.unshift value =
      if c.canShift 1 then
        .ok () { c with
          entries := .ofList
            ((0, value) :: c.entries.toList.map fun (index, value) => (index + 1, value)) }
      else .error .indexOverflow c := by
  show (checkShift c.entries 1 >>= _) c = _
  rw [bind_check c (checkShift_eq c c 1)]
  rfl

theorem concat_eq (other : Collection) :
    Collection.concat other c =
      if other.canShift c.size then
        .ok () { c with
          entries := other.entries.toList.foldl
            (fun (entries : Std.TreeMap Nat Value) entry =>
              entries.insert (entry.1 + c.size) entry.2) c.entries }
      else .error .indexOverflow c := by
  show (checkShift other.entries c.size >>= _) c = _
  rw [bind_check c (checkShift_eq c other c.size), ← forM_insert]

theorem removeFromStart_eq (count : Nat) :
    c.removeFromStart count =
      if count ≤ c.size then .ok () { c with entries := dense (c.entries.values.drop count) }
      else .error (.removeCount count c.size) c := by
  show (checkCount count >>= _) c = _
  rw [bind_check c (checkCount_eq c count)]
  rfl

theorem removeFromEnd_eq (count : Nat) :
    c.removeFromEnd count =
      if count ≤ c.size then
        .ok () { c with entries := dense (c.entries.values.take (c.size - count)) }
      else .error (.removeCount count c.size) c := by
  show (checkCount count >>= _) c = _
  rw [bind_check c (checkCount_eq c count)]
  rfl

end Collection

end Scriptlet
