import Scriptlet.Proofs.Run.Course
import Scriptlet.Proofs.Store.Guarded
import Scriptlet.Proofs.Store.Renumbered
import Scriptlet.Proofs.Store.Resolution

/-!
Contract: what fails changes nothing.

A run keeps what an operation or an assignment leaves, also where that fails. Both look
at everything they may stumble over before they write. So the machine after a failure is
the one before it, and what the operands did before stays.

Owns: the ends of a run that carries out an operation (`Run.yielding_aborted`,
`Run.yielding_changing`); the failures of an operation with operands, of an assignment and
of an indexed assignment (`evaluate_binary_aborted`, `evaluate_assign_aborted`,
`evaluate_indexAssign_aborted`); and, with what collections are after an operation that
succeeds, `renumbering_is_exact`.

Does not own: that operations look first (`Scriptlet.Proofs.Store.Guarded`).
-/

set_option autoImplicit false

namespace Scriptlet

variable {site : Site} {fuel : Nat} {cause : Abort} {before between last after : Machine}

/-! ## Operations -/

/-- Every edit of a collection makes its checks first. -/
theorem Collection.edit_guarded (edit : Edit) : Guarded fun c => Collection.edit c edit := by
  cases edit with
  | set index value => exact set_guarded index value
  | push value => exact push_guarded value
  | unshift value => exact unshift_guarded value
  | concat other => exact concat_guarded other
  | removeFromStart count => exact removeFromStart_guarded count
  | removeFromEnd count => exact removeFromEnd_guarded count

/-- A run of an operation aborts where the operation fails. If that looks first, the machine
is the same. -/
theorem Run.yielding_aborted {operation : Operation Value} (guarded : Guarded operation)
    (aborted : Run.yielding site operation last = .aborted cause after) :
    after = last ∧ ∃ fault, cause = .fault site fault ∧
      operation last.heap.collections = .error fault last.heap.collections := by
  unfold Run.yielding at aborted
  cases ended : operation last.heap.collections with
  | ok value left =>
      rw [ended] at aborted
      cases aborted
  | error fault left =>
      rw [ended] at aborted
      cases aborted
      rw [guarded _ fault left ended]
      exact ⟨rfl, fault, rfl, rfl⟩

/-- A change of a collection of the heap: it is replaced, or nothing is. -/
theorem Run.yielding_changing {id : CollectionId} {c : Collection}
    {change : Collection.Change Unit} (stored : last.heap.collections[id]? = some c)
    (guarded : Guarded change) :
    Run.yielding site (Operator.changing id change) last =
      match change c with
      | .ok () made =>
          .done (.collection id)
            { last with
              heap := last.heap.withCollections (last.heap.collections.setIfInBounds id made) }
      | .error fault _ => .aborted (.fault site fault) last := by
  unfold Run.yielding
  cases ended : change c with
  | ok _ made =>
      rw [Operator.changing_eq stored, ended]
  | error fault left =>
      rw [Operator.changing_failed stored guarded ended]
      rfl

/-! ## Expressions -/

theorem evaluate_binary_aborted {left right : Expr} {op : BinaryOp} {first second : Value}
    (leftDone : evaluate fuel left before = .done first between)
    (rightDone : evaluate fuel right between = .done second last)
    (aborted : evaluate (fuel + 1) (.binary left op right site) before = .aborted cause after) :
    after = last ∧ ∃ fault, cause = .fault site fault ∧
      Operator.binary op first second last.heap.collections =
        .error fault last.heap.collections := by
  rw [evaluate, Run.bind_of_done leftDone, Run.bind_of_done rightDone] at aborted
  exact Run.yielding_aborted (Operator.binary_guarded op first second) aborted

theorem evaluate_assign_aborted {name : Name} {value : Expr} {assigned : Value}
    (valueDone : evaluate fuel value before = .done assigned last)
    (aborted : evaluate (fuel + 1) (.assign name value) before = .aborted cause after) :
    after = last ∧ ∃ fault, cause = .fault name.site fault ∧
      Heap.assign last.current name.symbol assigned last.heap = .error fault last.heap := by
  rw [evaluate, Run.bind_of_done valueDone] at aborted
  have ran : Run.bind (Run.assign name assigned) (fun _ => pure assigned) last =
      .aborted cause after := aborted
  unfold Run.bind Run.assign at ran
  cases result : Heap.assign last.current name.symbol assigned last.heap with
  | ok _ heap =>
      rw [result] at ran
      cases ran
  | error fault heap =>
      obtain ⟨rfl, -⟩ := Heap.assign_eq_error result
      rw [result] at ran
      cases ran
      exact ⟨rfl, fault, rfl, rfl⟩

theorem evaluate_indexAssign_aborted {target index value : Expr} {into place assigned : Value}
    {afterTarget : Machine} (targetDone : evaluate fuel target before = .done into afterTarget)
    (indexDone : evaluate fuel index afterTarget = .done place between)
    (valueDone : evaluate fuel value between = .done assigned last)
    (aborted :
      evaluate (fuel + 1) (.indexAssign target index value site) before = .aborted cause after) :
    after = last ∧ ∃ fault, cause = .fault site fault ∧
      Operator.setEntry into place assigned last.heap.collections =
        .error fault last.heap.collections := by
  rw [evaluate, Run.bind_of_done targetDone, Run.bind_of_done indexDone,
    Run.bind_of_done valueDone] at aborted
  exact Run.yielding_aborted (Operator.setEntry_guarded into place assigned) aborted

/-- **Entries are renumbered exactly, or nothing changes.** Let every index of a collection
be one that can be. Putting a value in front fails exactly where the largest index is
taken, and adding a collection exactly where its highest index would go beyond the
largest. Otherwise every entry is where its new number says, and there are no others. So
it is with the removals, which fail exactly where there are too few entries, and with an
assigned entry. What an edit leaves that fails is the collection as it was. A collection of
a heap is replaced by what an edit makes of it, and where the edit fails, the machine is
the same. And an operation, an assignment or an indexed assignment that fails on the values
of its operands leaves the machine that their evaluation left. -/
theorem renumbering_is_exact {c : Collection} (inRange : c.InRange) :
    (∀ value, (c.unshift value = .error .indexOverflow c ↔ (c.get? maxIndex).isSome) ∧
      (c.get? maxIndex = none → c.Makes (c.unshift value) fun
        | 0 => some value
        | index + 1 => c.get? index)) ∧
    (∀ other : Collection, other.InRange →
      (Collection.concat other c = .error .indexOverflow c ↔
        ∃ last, other.Highest last ∧ maxIndex < last + c.size) ∧
      ((¬ ∃ last, other.Highest last ∧ maxIndex < last + c.size) →
        c.Makes (Collection.concat other c) fun index =>
          if c.size ≤ index then (other.get? (index - c.size)).or (c.get? index)
          else c.get? index)) ∧
    (∀ count,
      (c.removeFromStart count = .error (.removeCount count c.size) c ↔ c.size < count) ∧
      (count ≤ c.size → c.Makes (c.removeFromStart count)
        fun index => (c.entries.values.drop count)[index]?)) ∧
    (∀ count,
      (c.removeFromEnd count = .error (.removeCount count c.size) c ↔ c.size < count) ∧
      (count ≤ c.size → c.Makes (c.removeFromEnd count)
        fun index => (c.entries.values.take (c.size - count))[index]?)) ∧
    (∀ place value, (c.set place value = .error .immutableCollection c ↔ c.mutable = false) ∧
      (c.mutable = true → place ≤ maxIndex → c.Makes (c.set place value)
        fun index => if place = index then some value else c.get? index)) ∧
    (∀ edit fault left, c.edit edit = .error fault left → left = c) ∧
    (∀ site id (machine : Machine) edit, machine.heap.collections[id]? = some c →
      (∀ fault left, c.edit edit = .error fault left →
        Run.yielding site (Operator.changing id (·.edit edit)) machine =
          .aborted (.fault site fault) machine) ∧
      (∀ made, c.edit edit = .ok () made →
        Run.yielding site (Operator.changing id (·.edit edit)) machine =
          .done (.collection id)
            { machine with
              heap := machine.heap.withCollections
                (machine.heap.collections.setIfInBounds id made) })) ∧
    (∀ fuel left op right site first second before between last cause after,
      evaluate fuel left before = .done first between →
      evaluate fuel right between = .done second last →
      evaluate (fuel + 1) (.binary left op right site) before = .aborted cause after →
        after = last ∧ ∃ fault, cause = .fault site fault ∧
          Operator.binary op first second last.heap.collections =
            .error fault last.heap.collections) ∧
    (∀ fuel name value assigned before last cause after,
      evaluate fuel value before = .done assigned last →
      evaluate (fuel + 1) (.assign name value) before = .aborted cause after →
        after = last ∧ ∃ fault, cause = .fault name.site fault ∧
          Heap.assign last.current name.symbol assigned last.heap = .error fault last.heap) ∧
    (∀ fuel target index value site into place assigned before afterTarget between last cause after,
      evaluate fuel target before = .done into afterTarget →
      evaluate fuel index afterTarget = .done place between →
      evaluate fuel value between = .done assigned last →
      evaluate (fuel + 1) (.indexAssign target index value site) before = .aborted cause after →
        after = last ∧ ∃ fault, cause = .fault site fault ∧
          Operator.setEntry into place assigned last.heap.collections =
            .error fault last.heap.collections) := by
  refine ⟨fun value => ⟨?_, fun free => ?_⟩, fun other _ => ⟨?_, fun fits => ?_⟩,
    fun count => ⟨?_, fun enough => ?_⟩, fun count => ⟨?_, fun enough => ?_⟩,
    fun place value => ⟨?_, fun assignable possible => ?_⟩, ?_, ?_, ?_, ?_, ?_⟩
  · exact Collection.unshift_eq_error_iff inRange value
  · exact Collection.unshift_makes inRange free value
  · exact Collection.concat_eq_error_iff
  · exact Collection.concat_makes inRange fits
  · exact Collection.removeFromStart_eq_error_iff
  · exact Collection.removeFromStart_makes inRange enough
  · exact Collection.removeFromEnd_eq_error_iff
  · exact Collection.removeFromEnd_makes inRange enough
  · exact Collection.set_eq_error_iff
  · exact Collection.set_makes inRange assignable possible value
  · exact fun edit fault left failed => Collection.edit_guarded edit c fault left failed
  · intro site id machine edit stored
    rw [Run.yielding_changing stored (Collection.edit_guarded edit)]
    refine ⟨fun fault left failed => ?_, fun made done => ?_⟩
    · rw [failed]
    · rw [done]
  · intro fuel left op right site first second before between last cause after leftDone rightDone
    exact evaluate_binary_aborted leftDone rightDone
  · intro fuel name value assigned before last cause after valueDone
    exact evaluate_assign_aborted valueDone
  · intro fuel target index value site into place assigned before afterTarget between last cause
      after targetDone indexDone valueDone
    exact evaluate_indexAssign_aborted targetDone indexDone valueDone

/-- An array with nothing but an entry at the largest index takes no value in front, and not
its own entry once more. A removal of no entries moves that entry to index zero. -/
theorem last_index_renumbered :
    ∃ c made, (Collection.ofList [] true).set maxIndex (.bool true) = .ok () c ∧ c.InRange ∧
      c.unshift .nil = .error .indexOverflow c ∧
      Collection.concat c c = .error .indexOverflow c ∧
      c.removeFromEnd 0 = .ok () made ∧ made.get? 0 = some (.bool true) := by
  have stored : ∃ c, (Collection.ofList [] true).set maxIndex (.bool true) = .ok () c ∧
      c.entries.values = [.bool true] ∧ c.size = 1 := ⟨_, rfl, rfl, rfl⟩
  obtain ⟨c, done, values, size⟩ := stored
  have entries : ∀ index, c.get? index = if maxIndex = index then some (.bool true) else none := by
    intro index
    rw [Collection.get?_set done, Collection.get?_ofList, List.getElem?_nil]
  have highest : c.Highest maxIndex := by
    refine ⟨by simp [entries], fun index present => ?_⟩
    rw [entries] at present
    split at present
    · omega
    · cases present
  obtain ⟨front, behind, -, shorter, -⟩ := renumbering_is_exact highest.2
  obtain ⟨made, removed, -, -, moved⟩ := (shorter 0).2 (Nat.zero_le _)
  refine ⟨c, made, done, highest.2, (front _).1.mpr highest.1, ?_, removed, ?_⟩
  · exact (behind c highest.2).1.mpr ⟨maxIndex, highest, by omega⟩
  · rw [moved, values, size]
    rfl

end Scriptlet
