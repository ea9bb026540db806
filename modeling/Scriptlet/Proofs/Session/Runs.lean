import Scriptlet.Proofs.Grammar.Sequence
import Scriptlet.Proofs.Run.Sequence
import Scriptlet.Session

/-!
Contract: what it takes for a source to be evaluated.

Owns: `Evaluates`, evaluation with fuel enough; `Source`, what a session reads
from a source, and `Runs`, evaluation of what was read; and the laws of running:
one result (`Runs.unique`), two sources in turn (`Runs.append`,
`Runs.append_error`, `Runs.of_append`) and changed lines (`Runs.relabel`,
`Runs.of_relabel`). `Session.blank` and `heads` are a session and coins to try things with.

Does not own: how one source is read behind another
(`Scriptlet.Proofs.Session.Consecutive`).
-/

set_option autoImplicit false

namespace Scriptlet

/-- Coins that always fall the same way. -/
def heads (_ : Nat) : Bool :=
  true

/-- What a session reads from a source. -/
structure Source where
  symbols : SymbolTable
  program : List Stmt
  diagnostics : List Diagnostic

/-- One source behind another, with the symbols known in the end. -/
instance : Append Source :=
  ⟨fun first second => ⟨second.symbols, first.program ++ second.program,
    first.diagnostics ++ second.diagnostics⟩⟩

namespace Session

/-- A new session, whose clock stands still. -/
def blank : Session :=
  .start ⟨fun _ => .ok 0, 0⟩

/-- What is read if the coins fall so. -/
def read (coin : Nat → Bool) (session : Session) (source : String) : Source :=
  let scanned := scan session.symbols source
  let parsed := parse coin scanned.tokens
  ⟨scanned.symbols, parsed.program, scanned.diagnostics ++ parsed.diagnostics⟩

/-- The source is evaluated, with some fuel, to the given result and session. -/
def Evaluates (coin : Nat → Bool) (session : Session) (source : String)
    (evaluation : Evaluation) : Prop :=
  ∃ fuel, session.eval? fuel coin source = some evaluation

end Session

/-- The result of an evaluation, with its machine. -/
def Evaluation.outcome (evaluation : Evaluation) : Outcome (List Value) :=
  match evaluation.result with
  | .ok values => .done values evaluation.session.machine
  | .error cause => .aborted cause evaluation.session.machine

theorem Evaluation.outcome_ne_exhausted (evaluation : Evaluation) :
    evaluation.outcome ≠ .exhausted := by
  unfold Evaluation.outcome
  cases evaluation.result <;> simp

namespace Session

/-- The session after a source, with the machine that running it left. -/
def after (session : Session) (source : Source) (machine : Machine) : Session :=
  ⟨source.symbols, session.pending ++ source.diagnostics, machine⟩

/-- The evaluation whose program had the given outcome. -/
def record? (session : Session) (source : Source) : Outcome (List Value) → Option Evaluation
  | .done values machine => some ⟨.ok values, session.after source machine⟩
  | .aborted cause machine => some ⟨.error cause, session.after source machine⟩
  | .exhausted => none

theorem eval?_eq (fuel : Nat) (coin : Nat → Bool) (session : Session) (source : String) :
    session.eval? fuel coin source =
      session.record? (session.read coin source)
        (interpret fuel (session.read coin source).program session.machine) := by
  unfold eval?
  simp only [List.append_assoc]
  rfl

end Session

/-- A session that follows another one by a source. -/
structure Session.Follows (session : Session) (source : Source) (after : Session) : Prop where
  symbols : after.symbols = source.symbols
  pending : after.pending = session.pending ++ source.diagnostics

theorem Session.Follows.eq_after {session after : Session} {source : Source}
    (follows : session.Follows source after) : session.after source after.machine = after := by
  obtain ⟨symbols, pending, machine⟩ := after
  obtain ⟨rfl, rfl⟩ := follows
  rfl

/-- Running what was read from a source gives this evaluation. -/
structure Runs (session : Session) (source : Source) (evaluation : Evaluation) : Prop where
  follows : session.Follows source evaluation.session
  ends : ∃ fuel, interpret fuel source.program session.machine = evaluation.outcome

theorem record?_eq_some {session : Session} {source : Source} {outcome : Outcome (List Value)}
    {evaluation : Evaluation} :
    session.record? source outcome = some evaluation ↔
      session.Follows source evaluation.session ∧ outcome = evaluation.outcome := by
  constructor
  · intro recorded
    cases outcome with
    | done values machine => cases recorded; exact ⟨⟨rfl, rfl⟩, rfl⟩
    | aborted cause machine => cases recorded; exact ⟨⟨rfl, rfl⟩, rfl⟩
    | exhausted => cases recorded
  · rintro ⟨follows, rfl⟩
    obtain ⟨result, last⟩ := evaluation
    cases result with
    | ok values => exact congrArg (fun last => some (Evaluation.mk (.ok values) last)) follows.eq_after
    | error cause =>
        exact congrArg (fun last => some (Evaluation.mk (.error cause) last)) follows.eq_after

/-- A source is evaluated by running what is read from it. -/
theorem evaluates_iff {coin : Nat → Bool} {session : Session} {source : String}
    {evaluation : Evaluation} :
    session.Evaluates coin source evaluation ↔
      Runs session (session.read coin source) evaluation := by
  simp only [Session.Evaluates, Session.eval?_eq, record?_eq_some]
  exact ⟨fun ⟨fuel, follows, ends⟩ => ⟨follows, fuel, ends⟩,
    fun ⟨follows, fuel, ends⟩ => ⟨fuel, follows, ends⟩⟩

/-! ## One result -/

theorem Evaluation.eq_of_outcome {first second : Evaluation} {session : Session} {source : Source}
    (firstAfter : session.Follows source first.session)
    (secondAfter : session.Follows source second.session)
    (same : first.outcome = second.outcome) : first = second := by
  have recorded := record?_eq_some.mpr ⟨firstAfter, rfl⟩
  rw [record?_eq_some.mpr ⟨secondAfter, same⟩] at recorded
  exact (Option.some.inj recorded).symm

/-- A program that ends in an evaluation ends so with more fuel. -/
theorem Evaluation.interpret_more {evaluation : Evaluation} {fuel other : Nat} (less : fuel ≤ other)
    {program : List Stmt} {machine : Machine}
    (ends : interpret fuel program machine = evaluation.outcome) :
    interpret other program machine = evaluation.outcome := by
  rw [← ends]
  exact interpret_fuel less (ends ▸ evaluation.outcome_ne_exhausted)

theorem Runs.unique {session : Session} {source : Source} {first second : Evaluation}
    (one : Runs session source first) (another : Runs session source second) : first = second := by
  obtain ⟨firstAfter, fuel, firstEnds⟩ := one
  obtain ⟨secondAfter, other, secondEnds⟩ := another
  refine Evaluation.eq_of_outcome firstAfter secondAfter ?_
  rw [← Evaluation.interpret_more (Nat.le_max_left fuel other) firstEnds,
    ← Evaluation.interpret_more (Nat.le_max_right fuel other) secondEnds]

/-- A program that does not run out of fuel has an evaluation. -/
theorem exists_runs {session : Session} {source : Source} (fuel : Nat)
    (ends : interpret fuel source.program session.machine ≠ .exhausted) :
    ∃ evaluation, Runs session source evaluation := by
  cases recorded : session.record? source (interpret fuel source.program session.machine) with
  | some evaluation =>
      obtain ⟨follows, same⟩ := record?_eq_some.mp recorded
      exact ⟨evaluation, follows, fuel, same⟩
  | none =>
      cases outcome : interpret fuel source.program session.machine with
      | exhausted => exact absurd outcome ends
      | _ => simp [outcome, Session.record?] at recorded

/-! ## Two sources in turn -/

/-- An evaluation behind one with the given values, when both count as one
source. -/
def Evaluation.behind (earlier : List Value) (evaluation : Evaluation) : Evaluation :=
  ⟨evaluation.result.map (earlier ++ ·), evaluation.session⟩

section Behind

variable (earlier : List Value) (evaluation : Evaluation)

@[simp] theorem Evaluation.behind_symbols :
    (evaluation.behind earlier).session.symbols = evaluation.session.symbols := rfl

@[simp] theorem Evaluation.behind_pending :
    (evaluation.behind earlier).session.pending = evaluation.session.pending := rfl

/-- The values come behind the earlier ones. -/
theorem Evaluation.behind_outcome (run : Run (List Value)) (machine : Machine)
    (ends : run machine = evaluation.outcome) :
    (run >>= fun later => pure (earlier ++ later)) machine =
      (evaluation.behind earlier).outcome := by
  show Run.bind run _ machine = _
  simp only [Run.bind, ends, Evaluation.outcome, Evaluation.behind]
  cases evaluation.result <;> rfl

end Behind

section Append

variable {session after : Session} {first second : Source}

@[simp] theorem Source.append_symbols : (first ++ second).symbols = second.symbols := rfl

@[simp] theorem Source.append_program :
    (first ++ second).program = first.program ++ second.program := rfl

@[simp] theorem Source.append_diagnostics :
    (first ++ second).diagnostics = first.diagnostics ++ second.diagnostics := rfl

/-- If the first source succeeds, the second runs in the session after it. -/
theorem Runs.append {earlier : List Value} {later : Evaluation}
    (begins : Runs session first ⟨.ok earlier, after⟩) (goesOn : Runs after second later) :
    Runs session (first ++ second) (later.behind earlier) := by
  obtain ⟨isAfter, fuel, ends⟩ := begins
  obtain ⟨laterAfter, other, laterEnds⟩ := goesOn
  have firstEnds := Evaluation.interpret_more (Nat.le_max_left fuel other) ends
  have secondEnds := Evaluation.interpret_more (Nat.le_max_right fuel other) laterEnds
  refine ⟨⟨?_, ?_⟩, max fuel other, ?_⟩
  · rw [Evaluation.behind_symbols, laterAfter.symbols, Source.append_symbols]
  · rw [Evaluation.behind_pending, laterAfter.pending, isAfter.pending, List.append_assoc,
      Source.append_diagnostics]
  · rw [Source.append_program, interpret_append]
    show Run.bind _ _ session.machine = _
    simp only [Run.bind, firstEnds]
    exact Evaluation.behind_outcome earlier later _ _ secondEnds

/-- If the first source fails, the second is read and not run. -/
theorem Runs.append_error {cause : Abort}
    (fails : Runs session first ⟨.error cause, after⟩) (second : Source) :
    Runs session (first ++ second)
      ⟨.error cause, { after with
        symbols := second.symbols, pending := after.pending ++ second.diagnostics }⟩ := by
  obtain ⟨isAfter, fuel, ends⟩ := fails
  refine ⟨⟨rfl, ?_⟩, fuel, ?_⟩
  · show after.pending ++ second.diagnostics = _
    rw [isAfter.pending, List.append_assoc, Source.append_diagnostics]
  · rw [Source.append_program, interpret_append]
    show Run.bind _ _ session.machine = _
    simp only [Run.bind, ends]
    rfl

/-- If both run as one, the first ends, and the second does unless the first
fails. -/
theorem Runs.of_append {evaluation : Evaluation} (runs : Runs session (first ++ second) evaluation) :
    ∃ halfway, Runs session first halfway ∧ ∀ values, halfway.result = .ok values →
      ∃ later, Runs halfway.session second later := by
  obtain ⟨-, fuel, ends⟩ := runs
  rw [Source.append_program, interpret_append] at ends
  have ends : Run.bind (interpret fuel first.program) _ session.machine = evaluation.outcome := ends
  have notExhausted := evaluation.outcome_ne_exhausted
  rw [← ends] at notExhausted
  cases outcome : interpret fuel first.program session.machine with
  | exhausted => exact absurd (by simp only [Run.bind, outcome]) notExhausted
  | aborted cause machine =>
      exact ⟨⟨.error cause, session.after first machine⟩, ⟨⟨rfl, rfl⟩, fuel, outcome⟩,
        fun values isOk => by cases isOk⟩
  | done values machine =>
      refine ⟨⟨.ok values, session.after first machine⟩, ⟨⟨rfl, rfl⟩, fuel, outcome⟩,
        fun values _ => exists_runs fuel fun ranOut => notExhausted ?_⟩
      have ranOut : interpret fuel second.program machine = .exhausted := ranOut
      simp only [Run.bind, outcome]
      show Run.bind (interpret fuel second.program) _ machine = _
      simp only [Run.bind, ranOut]

end Append

/-! ## Changed lines -/

instance : Lined Source :=
  ⟨fun line source =>
    ⟨source.symbols, relabel line source.program, relabel line source.diagnostics⟩⟩

instance : Lined Session :=
  ⟨fun line session =>
    ⟨session.symbols, relabel line session.pending, relabel line session.machine⟩⟩

instance : Lined Evaluation :=
  ⟨fun line evaluation =>
    ⟨evaluation.result.mapError (relabel line), relabel line evaluation.session⟩⟩

instance : LawfulLined Source where
  relabel_id source := by
    show Source.mk source.symbols (relabel id source.program) (relabel id source.diagnostics) = _
    rw [relabel_id, relabel_id]
  relabel_relabel f g source := by
    show Source.mk source.symbols (relabel g (relabel f source.program))
      (relabel g (relabel f source.diagnostics)) = _
    rw [relabel_relabel, relabel_relabel]
    rfl

instance : LawfulLined Session where
  relabel_id session := by
    show Session.mk session.symbols (relabel id session.pending) (relabel id session.machine) = _
    rw [relabel_id, relabel_id]
  relabel_relabel f g session := by
    show Session.mk session.symbols (relabel g (relabel f session.pending))
      (relabel g (relabel f session.machine)) = _
    rw [relabel_relabel, relabel_relabel]
    rfl

section Changed

variable (line : Nat → Nat) {session : Session} {source : Source}

theorem relabel_outcome (evaluation : Evaluation) :
    (relabel line evaluation).outcome = relabel line evaluation.outcome := by
  obtain ⟨result, session⟩ := evaluation
  cases result <;> rfl

/-- A source with changed lines, in a session with changed lines. -/
theorem Runs.relabel {evaluation : Evaluation} (runs : Runs session source evaluation) :
    Runs (Lined.relabel line session) (Lined.relabel line source)
      (Lined.relabel line evaluation) := by
  obtain ⟨follows, fuel, ends⟩ := runs
  refine ⟨⟨follows.symbols, ?_⟩, fuel, ?_⟩
  · show Lined.relabel line evaluation.session.pending =
      Lined.relabel line session.pending ++ Lined.relabel line source.diagnostics
    rw [follows.pending, relabel_append]
  · show interpret fuel (Lined.relabel line source.program) (Lined.relabel line session.machine) = _
    rw [interpret_relabel, ends, relabel_outcome]

/-- Whether a run ends does not depend on lines. -/
theorem Runs.of_relabel {changed : Evaluation}
    (runs : Runs (Lined.relabel line session) (Lined.relabel line source) changed) :
    ∃ evaluation, Runs session source evaluation := by
  obtain ⟨-, fuel, ends⟩ := runs
  have ends : interpret fuel (Lined.relabel line source.program)
    (Lined.relabel line session.machine) = changed.outcome := ends
  refine exists_runs fuel fun ranOut => changed.outcome_ne_exhausted ?_
  rw [← ends, interpret_relabel, ranOut]
  rfl

end Changed

end Scriptlet
