import Scriptlet.Proofs.Run.Stepwise
import Scriptlet.Proofs.Session.Reachable

/-!
Contract: the heap of a session stays sound.

Owns: `Session.Passes`, the machines that a session comes to, those in the middle of an
evaluation included; `Machine.SoundSince`, what holds of all of them; and the main
statement `heap_stays_sound`.

Does not own: steps and runs (`Scriptlet.Proofs.Run.Steps`,
`Scriptlet.Proofs.Run.Stepwise`), and which heaps are sound
(`Scriptlet.Proofs.Store.Sound`).

## Why the past is looked at

That a scope was made by `renewGlobals`, or that it existed when a function was made, is
no matter of the heap alone. So it is said of the steps by which the machine is reached
from one on which nothing has been made.
-/

set_option autoImplicit false

namespace Scriptlet

/-! ## The past of a machine -/

/-- A machine on which nothing has been made. -/
def Machine.unstarted (clock : Clock) : Machine :=
  ⟨.empty, 0, 0, .empty, clock⟩

/-- What holds of a machine, and of the steps from an earlier one to it. -/
structure Machine.SoundSince (first machine : Machine) : Prop where
  sound : machine.Sound
  /-- Parents lead to a scope without one, and that is or was the global scope. -/
  chains : ∀ id, id < machine.heap.scopes.size →
    ∃ root, machine.heap.Ascends id root ∧ first.Took machine (Machine.Renews root)
  /-- The scope of a closure existed when the closure was made. -/
  closures : ∀ id scope, machine.captured? id = some scope →
    first.Took machine (Machine.Closes id scope)
  /-- The search for a name ends, and so do reading and writing it, with what is found. -/
  searches : ∀ id symbol, id < machine.heap.scopes.size →
    ∃ found, machine.heap.Finds symbol id found ∧ machine.heap.Means id symbol found

/-- What there is on the heap has been made since. -/
theorem Machine.Reaches.soundSince {clock : Clock} {machine : Machine}
    (reaches : (unstarted clock).Reaches machine) (sound : machine.Sound) :
    (unstarted clock).SoundSince machine where
  sound := sound
  chains id there := by
    obtain ⟨root, ascends⟩ := sound.heap.ascends id there
    refine ⟨root, ascends, reaches.took ?_ ascends.top fun _ _ step => step.renews⟩
    rintro ⟨scope, found, -⟩
    cases found
  closures id scope captured := by
    refine reaches.took ?_ captured fun _ _ step => step.closes
    intro none
    cases none
  searches id symbol there :=
    ⟨_, sound.heap.finds symbol there, machine.heap.means_nearest? id symbol⟩

/-! ## Sessions -/

/-- The machines that a session comes to: the one it has between evaluations, and those
at all points of an evaluation, however the coins for its source fall. -/
inductive Session.Passes (session : Session) : Machine → Prop where
  | rest : Session.Passes session session.machine
  | point {coin : Nat → Bool} {source : String} {point : Point}
      (comes : Point.ComesTo ⟨.program (session.read coin source).program,
        { session.machine with current := session.machine.globals }⟩ point) :
      Session.Passes session point.machine

theorem Session.Passes.reaches {session : Session} {here : Machine} (passes : session.Passes here)
    (sound : session.machine.Sound) : session.machine.Reaches here := by
  cases passes with
  | rest => exact .refl
  | point comes =>
      have enter : session.machine.Step
          { session.machine with current := session.machine.globals } := .leave sound.globals
      exact .head enter (comes.reaches (enter.sound sound))

theorem Outcome.Stepped.leaves {α : Type} {before : Machine} {property : Heap → α → Prop}
    {outcome : Outcome α} (stepped : outcome.Stepped before property) :
    outcome.Leaves before.Reaches := by
  cases outcome with
  | done value after => exact stepped.1
  | aborted cause after => exact stepped
  | exhausted => trivial

/-- An evaluation goes by steps, and its values exist. -/
theorem eval?_stepped {session : Session} (sound : session.machine.Sound) {fuel : Nat}
    {coin : Nat → Bool} {source : String} {evaluation : Evaluation}
    (ends : session.eval? fuel coin source = some evaluation) :
    evaluation.outcome.Stepped session.machine Value.AllExist := by
  rw [Session.eval?_eq] at ends
  rw [← (record?_eq_some.mp ends).2]
  exact interpret_stepwise fuel _ session.machine sound

/-- Sessions go by steps, from the first one on. -/
theorem Session.Reachable.reaches {session : Session} (reachable : session.Reachable) :
    (∃ clock, (Machine.unstarted clock).Reaches session.machine) ∧ session.machine.Sound := by
  -- a single step more
  have further : ∀ {before after : Machine}, before.Step after →
      (∃ clock, (Machine.unstarted clock).Reaches before) ∧ before.Sound →
      (∃ clock, (Machine.unstarted clock).Reaches after) ∧ after.Sound := by
    rintro before after step ⟨⟨clock, reaches⟩, sound⟩
    exact ⟨⟨clock, reaches.tail step⟩, step.sound sound⟩
  induction reachable with
  | start clock =>
      exact ⟨⟨clock, .single (.renew _)⟩, Machine.renewGlobals_sound Heap.Sound.empty _⟩
  | eval before ends inductionHypothesis =>
      obtain ⟨⟨clock, earlier⟩, sound⟩ := inductionHypothesis
      have reaches := Outcome.Leaves.evaluation (eval?_stepped sound ends).leaves
      exact ⟨⟨clock, earlier.trans reaches⟩, reaches.sound sound⟩
  | reset before inductionHypothesis => exact further (.renew _) inductionHypothesis
  | takeDiagnostics before inductionHypothesis => exact inductionHypothesis
  | takeOutput before inductionHypothesis => exact further (.output _) inductionHypothesis
  | limitOutput before room inductionHypothesis => exact further (.output _) inductionHypothesis
  | setClock before clock inductionHypothesis => exact further (.clock _) inductionHypothesis

/-! ## Indexed assignment -/

/-- An entry of an immutable collection cannot be assigned, on this machine. The fault
depends on the index, and nothing but the parts has been evaluated. -/
def Machine.RefusesEntries (machine : Machine) : Prop :=
  ∀ (fuel : Nat) (target index value : Expr) (site : Site) (id : CollectionId) (c : Collection)
    (middle : Machine), evaluate fuel target machine = .done (.collection id) middle →
    middle.heap.collections[id]? = some c → c.mutable = false →
    (∀ result after,
      evaluate (fuel + 1) (.indexAssign target index value site) machine ≠ .done result after) ∧
    ∀ position later assigned last, evaluate fuel index middle = .done position later →
      evaluate fuel value later = .done assigned last →
      (position.IsIndex → evaluate (fuel + 1) (.indexAssign target index value site) machine =
        .aborted (.fault site .immutableCollection) last) ∧
      (¬ position.IsIndex → evaluate (fuel + 1) (.indexAssign target index value site) machine =
        .aborted (.fault site .badIndex) last)

/-- What is done on an immutable collection, once the parts have been evaluated. -/
theorem yielding_immutable {machine : Machine} {id : CollectionId} {c : Collection}
    (found : machine.heap.collections[id]? = some c) (immutable : c.mutable = false) (site : Site)
    (position assigned : Value) :
    (position.IsIndex →
      Run.yielding site (Operator.setEntry (.collection id) position assigned) machine =
        .aborted (.fault site .immutableCollection) machine) ∧
    (¬ position.IsIndex →
      Run.yielding site (Operator.setEntry (.collection id) position assigned) machine =
        .aborted (.fault site .badIndex) machine) := by
  obtain ⟨immutableFault, indexFault⟩ :=
    Operator.setEntry_immutable found immutable position assigned
  unfold Run.yielding
  constructor
  · intro isIndex
    rw [immutableFault isIndex]
    rfl
  · intro noIndex
    rw [indexFault noIndex]
    rfl

/-- The collection stays immutable while the index and the value are evaluated. -/
theorem Machine.Sound.refusesEntries {machine : Machine} (sound : machine.Sound) :
    machine.RefusesEntries := by
  intro fuel target index value site id c middle first found immutable
  have parts := fuelStepwise fuel
  have toMiddle := ((parts.expression target machine).done sound first).1
  have soundMiddle := toMiddle.sound sound
  have stays : ∀ {position later assigned last}, evaluate fuel index middle = .done position later →
      evaluate fuel value later = .done assigned last →
      ∃ unchanged, last.heap.collections[id]? = some unchanged ∧ unchanged.mutable = false := by
    intro position later assigned last second third
    have toLater := ((parts.expression index middle).done soundMiddle second).1
    have toLast := ((parts.expression value later).done (toLater.sound soundMiddle) third).1
    obtain ⟨unchanged, foundLast, same⟩ := (toLater.keeps.trans toLast.keeps).mutable id c found
    exact ⟨unchanged, foundLast, same.trans immutable⟩
  constructor
  · intro result after ends
    rw [evaluate, Run.bind_of_done first] at ends
    obtain ⟨position, later, second, ends⟩ := Run.done_of_bind ends
    obtain ⟨assigned, last, third, ends⟩ := Run.done_of_bind ends
    obtain ⟨unchanged, foundLast, still⟩ := stays second third
    obtain ⟨immutableFault, indexFault⟩ := yielding_immutable foundLast still site position assigned
    by_cases isIndex : position.IsIndex
    · cases ends.symm.trans (immutableFault isIndex)
    · cases ends.symm.trans (indexFault isIndex)
  · intro position later assigned last second third
    obtain ⟨unchanged, foundLast, still⟩ := stays second third
    rw [evaluate, Run.bind_of_done first, Run.bind_of_done second, Run.bind_of_done third]
    exact yielding_immutable foundLast still site position assigned

/-! ## The main statement -/

/-- **The heap stays sound.** On every machine that a session comes to, between evaluations
or in the middle of one, nothing points at what is not there, parents lead to a scope that
was made as the global one, the scope of a closure existed when the closure was made, and
the search for a name ends, for reading as well as for writing. Whatever is run goes by steps, and what it returns is there. No
step changes the parent of a scope, a function, or whether a collection is mutable; and an
immutable collection refuses to be assigned to. -/
theorem heap_stays_sound {session : Session} (reachable : session.Reachable) :
    (∃ clock, ∀ here, session.Passes here → (Machine.unstarted clock).SoundSince here) ∧
    (∀ here, session.Passes here →
      (∀ after, here.Reaches after → after.Sound ∧ here.heap.Keeps after.heap) ∧
      (∀ phrase point, Point.ComesTo ⟨phrase, here⟩ point → here.Reaches point.machine) ∧
      (∀ fuel e, (evaluate fuel e here).Stepped here Value.Exists) ∧
      (∀ fuel s, (execute fuel s here).Stepped here Flow.Exists) ∧
      here.RefusesEntries) ∧
    ∀ fuel coin source evaluation, session.eval? fuel coin source = some evaluation →
      evaluation.outcome.Stepped session.machine Value.AllExist := by
  obtain ⟨⟨clock, reaches⟩, sound⟩ := reachable.reaches
  refine ⟨⟨clock, fun here passes => ?_⟩, fun here passes => ?_,
    fun _ _ _ _ => eval?_stepped sound⟩
  · have further := passes.reaches sound
    exact Machine.Reaches.soundSince (reaches.trans further) (further.sound sound)
  · have soundHere := (passes.reaches sound).sound sound
    refine ⟨fun after later => ⟨later.sound soundHere, later.keeps⟩, fun phrase point comes => ?_,
      fun fuel e => ?_, fun fuel s => ?_, soundHere.refusesEntries⟩
    · exact comes.reaches soundHere
    · exact (fuelStepwise fuel).expression e here soundHere
    · exact (fuelStepwise fuel).statement s here soundHere

/-- A function that returns itself, and a tuple that holds it. After a reset the function is
still known to have been made in the first global scope; before, the tuple refuses to be
assigned to. -/
theorem tuple_and_closure_stay_sound :
    ∃ first, Session.blank.eval? 9 heads "fun f() \x7b return f; \x7d var t = (f, 1);" =
        some first ∧
      (∃ clock, (Machine.unstarted clock).Took first.session.reset.machine (Machine.Closes 1 0)) ∧
      ∃ last, evaluate 2 (.indexAssign (.variable ⟨⟨25, "t"⟩, 1⟩) (.constant (.number 0))
          (.constant .nil) ⟨1, .lexeme "["⟩) first.session.machine =
        .aborted (.fault ⟨1, .lexeme "["⟩ .immutableCollection) last := by
  have shape : (Session.blank.eval? 9 heads "fun f() \x7b return f; \x7d var t = (f, 1);").any
      (fun first : Evaluation => decide (first.session.machine.captured? 1 = some 0) &&
        (first.session.machine.heap.collections[0]?).any (!·.mutable) &&
        (first.session.machine.heap.lookup first.session.machine.current ⟨25, "t"⟩).toOption.any
          (·.same (.collection 0))) = true := by
    decide +kernel
  obtain ⟨first, begins, shape⟩ := (Option.any_eq_true _ _).mp shape
  simp only [Bool.and_eq_true, decide_eq_true_eq] at shape
  obtain ⟨⟨captured, tuple⟩, named⟩ := shape
  have evaluated : Session.Reachable first.session := .eval (.start _) begins
  refine ⟨first, begins, ?_, ?_⟩
  · obtain ⟨clock, all⟩ := (heap_stays_sound (.reset evaluated)).1
    obtain ⟨function, found, isScope⟩ := Option.bind_eq_some_iff.mp captured
    have later : first.session.reset.machine.heap.functions[1]? = some function :=
      (Machine.renewGlobals_keeps first.session.machine _).function 1 function found
    have still := Option.bind_eq_some_iff.mpr ⟨function, later, isScope⟩
    exact ⟨clock, (all _ .rest).closures 1 0 still⟩
  · have refuses := ((heap_stays_sound evaluated).2.1 _ .rest).2.2.2.2
    obtain ⟨c, found, immutable⟩ := (Option.any_eq_true _ _).mp tuple
    have isTuple : evaluate 1 (.variable ⟨⟨25, "t"⟩, 1⟩) first.session.machine =
        .done (.collection 0) first.session.machine := by
      show Run.lookup ⟨⟨25, "t"⟩, 1⟩ first.session.machine = _
      unfold Run.lookup
      cases looked : first.session.machine.heap.lookup first.session.machine.current ⟨25, "t"⟩ with
      | error cause =>
          rw [looked] at named
          cases named
      | ok value =>
          rw [looked] at named
          cases value with
          | collection id =>
              cases of_decide_eq_true named
              rfl
          | _ => cases named
    obtain ⟨-, faults⟩ := refuses 1 _ (.constant (.number 0)) (.constant .nil) ⟨1, .lexeme "["⟩ 0 c
      _ isTuple found (by simpa using immutable)
    have isIndex : Value.IsIndex (.number 0) := ⟨0, by decide +kernel, by decide⟩
    exact ⟨_, (faults (.number 0) _ .nil _ rfl rfl).1 isIndex⟩

end Scriptlet
