import Scriptlet.Proofs.Session.Renewed
import Scriptlet.Shell.Prompt

/-!
Contract: the prompt after a line that was aborted.

Owns: `reset_renews`, by which a session that was reset shows what a new one
shows, and a prompt goes on after an aborted line like a new prompt, with whatever
clock and coins either has.

Does not own: what a reset keeps and why it does not show
(`Scriptlet.Proofs.Session.Renewed`).
-/

set_option autoImplicit false

namespace Scriptlet

namespace Session

/-- All that was printed or reported has been taken. -/
structure Cleared (session : Session) : Prop where
  written : session.machine.output.written = .empty
  pending : session.pending = []

def clear (session : Session) : Session :=
  session.takeOutput.2.takeDiagnostics.2

theorem clear_cleared (session : Session) : session.clear.Cleared :=
  ⟨rfl, rfl⟩

theorem Reachable.clear {session : Session} (reachable : session.Reachable) :
    session.clear.Reachable :=
  reachable.takeOutput.takeDiagnostics

theorem Cleared.reset {session : Session} (cleared : session.Cleared) : session.reset.Cleared :=
  ⟨cleared.written, cleared.pending⟩

end Session

namespace Shell

/-! ## One line -/

/-- What the prompt does when a line has been evaluated. -/
def react (evaluated : Evaluated) : Reaction Session :=
  let reports := lines (evaluated.diagnostics.map Diagnostic.text)
  match evaluated.result with
  | .ok values =>
      let shown := values.map evaluated.session.machine.heap.display
      ⟨evaluated.printed ++ lines shown, reports, .go evaluated.session⟩
  | .error cause =>
      ⟨evaluated.printed ++ lines [cause.message], reports, .go evaluated.session.reset⟩

/-- The prompt ends at this source. -/
def isFarewell (source : String) : Bool :=
  source.isEmpty || Text.trimmed source = "exit"

theorem answer?_evaluated (fuel : Nat) (coin : Nat → Bool) (session : Session) {line : ByteArray}
    {source : String} (decoded : String.fromUTF8? line = some source)
    (goesOn : isFarewell source = false) :
    answer? fuel coin session line = (evaluate? fuel coin session source).map react := by
  unfold isFarewell at goesOn
  unfold answer?
  rw [decoded]
  dsimp only
  rw [if_neg (by rw [goesOn]; decide)]
  rfl

/-- Any two sessions end at the same lines, without being looked at. -/
theorem answer?_ended (fuel : Nat) (coin coin' : Nat → Bool) (session session' : Session)
    {line : ByteArray}
    (ends : ∀ source, String.fromUTF8? line = some source → isFarewell source = true) :
    ∃ stdout stderr code, answer? fuel coin session line = some ⟨stdout, stderr, .exit code⟩ ∧
      answer? fuel coin' session' line = some ⟨stdout, stderr, .exit code⟩ := by
  unfold answer?
  cases decoded : String.fromUTF8? line with
  | none => exact ⟨_, _, _, rfl, rfl⟩
  | some source =>
      have farewell := ends source decoded
      unfold isFarewell at farewell
      dsimp only
      rw [if_pos farewell, if_pos farewell]
      exact ⟨_, _, _, rfl, rfl⟩

/-- The sources among the lines of an input. -/
def sources (input : List ByteArray) : List String :=
  input.filterMap String.fromUTF8?

theorem sources_cons {line : ByteArray} {source : String}
    (decoded : String.fromUTF8? line = some source) (rest : List ByteArray) :
    sources (line :: rest) = source :: sources rest :=
  List.filterMap_cons_some decoded

/-- Both sessions show the same for a source. -/
structure EvaluatedAlike (move : Relocation) (table table' : SymbolTable)
    (left right : Evaluated) : Prop where
  printed : left.printed = right.printed
  diagnostics : left.diagnostics = right.diagnostics
  sessions : left.session.MovedTo move right.session
  result : ResultAlike move left.result right.result
  cleared : left.session.Cleared
  cleared' : right.session.Cleared
  symbols : left.session.symbols = table
  symbols' : right.session.symbols = table'

section Two

variable {final final' : SymbolTable} {move : Relocation} {left right : Session}

theorem clear_moved (moved : left.MovedTo move right) (nothing : move.written = .empty) :
    left.clear.MovedTo move right.clear :=
  ⟨{ moved.machine with written := by rw [nothing]; rfl }, moved.symbols, moved.symbols'⟩

theorem evaluate?_moved (lawful : final.Lawful) (lawful' : final'.Lawful)
    (isShared : move.symbols = final.Ordinary final') (moved : left.MovedTo move right)
    (cleared : left.Cleared) (cleared' : right.Cleared) (fuel : Nat)
    (coin coin' : Nat → Bool) {source : String} (plain : Plain source)
    (known : (scan left.symbols source).symbols.Extends final)
    (known' : (scan right.symbols source).symbols.Extends final') :
    Option.Rel (EvaluatedAlike move (scan left.symbols source).symbols
        (scan right.symbols source).symbols) (evaluate? fuel coin left source)
      (evaluate? fuel coin' right source) := by
  have nothing : move.written = .empty := by
    have written := moved.machine.written
    rw [cleared.written, cleared'.written, ByteArray.append_empty] at written
    exact written.symm
  have ran := eval?_moved lawful lawful' isShared moved fuel coin coin' plain known known'
  unfold evaluate?
  generalize left.eval? fuel coin source = evaluation at ran
  generalize right.eval? fuel coin' source = evaluation' at ran
  cases ran with
  | none => exact .none
  | @some evaluation evaluation' alike =>
      obtain ⟨reported, isReported, isReported'⟩ := alike.reported
      have pending : evaluation.session.pending = evaluation'.session.pending := by
        rw [isReported, isReported', cleared.pending, cleared'.pending]
      have written : evaluation'.session.machine.output.written =
          evaluation.session.machine.output.written := by
        rw [alike.sessions.machine.written, nothing, ByteArray.empty_append]
      exact .some ⟨congrArg Output.decode written.symm, pending, clear_moved alike.sessions nothing,
        alike.result, Session.clear_cleared _, Session.clear_cleared _, alike.symbols,
        alike.symbols'⟩

/-- What the prompt writes about a source that both sessions evaluate alike. -/
theorem react_moved (lawful : move.Lawful) {table table' : SymbolTable}
    {evaluated evaluated' : Evaluated}
    (alike : EvaluatedAlike move table table' evaluated evaluated') :
    (react evaluated).stdout = (react evaluated').stdout ∧
      (react evaluated).stderr = (react evaluated').stderr := by
  have shown := result_eq lawful alike.sessions.machine.heap alike.result
  obtain ⟨result, printed, diagnostics, session⟩ := evaluated
  obtain ⟨result', printed', diagnostics', session'⟩ := evaluated'
  obtain rfl : printed = printed' := alike.printed
  obtain rfl : diagnostics = diagnostics' := alike.diagnostics
  have results : ResultAlike move result result' := alike.result
  cases results with
  | error cause => exact ⟨rfl, rfl⟩
  | ok all =>
      have texts := Except.ok.inj shown
      refine ⟨?_, rfl⟩
      dsimp only [react]
      rw [texts]

end Two

/-- The session that the prompt goes on with. -/
def Evaluated.next (evaluated : Evaluated) : Session :=
  match evaluated.result with
  | .ok _ => evaluated.session
  | .error _ => evaluated.session.reset

theorem react_next (evaluated : Evaluated) : (react evaluated).next = .go evaluated.next := by
  unfold react Evaluated.next
  cases evaluated.result <;> rfl

theorem next_of_error {evaluated : Evaluated} {cause : Abort}
    (failed : evaluated.result = .error cause) : evaluated.next = evaluated.session.reset := by
  rw [Evaluated.next, failed]

/-! ## All lines -/

theorem runPrompt?_go {fuel : Nat} {coins : Nat → Nat → Bool} {session after : Session}
    {line : ByteArray} {rest : List ByteArray} {reaction : Reaction Session}
    (answer : answer? fuel (coins rest.length) session line = some reaction)
    (next : reaction.next = .go after) (stdout stderr : String) :
    runPrompt? fuel coins (line :: rest) session stdout stderr =
      runPrompt? fuel coins rest after (stdout ++ promptText ++ reaction.stdout)
        (stderr ++ reaction.stderr) := by
  rw [runPrompt?, answer]
  simp only [Option.bind_eq_bind, Option.bind_some, next]

/-- Sessions that differ by a relocation are answered alike, whatever coins either has. -/
def AnswersAlike (fuel : Nat) (input : List ByteArray) : Prop :=
  ∀ (final final' : SymbolTable) (move : Relocation) (left right : Session), final.Lawful →
    final'.Lawful → move.symbols = final.Ordinary final' → left.MovedTo move right →
    left.Cleared → right.Cleared → (left.symbols.after (sources input)).Extends final →
    (right.symbols.after (sources input)).Extends final' → ∀ coins coins' stdout stderr,
      runPrompt? fuel coins input left stdout stderr =
        runPrompt? fuel coins' input right stdout stderr

/-- So a session that was reset is answered like a new one. -/
theorem AnswersAlike.reset {fuel : Nat} {input : List ByteArray} (alike : AnswersAlike fuel input)
    {session : Session} (symbols : session.symbols.Lawful) (cleared : session.Cleared)
    (clock : Clock) (coins coins' : Nat → Nat → Bool) (stdout stderr : String) :
    runPrompt? fuel coins input session.reset stdout stderr =
      runPrompt? fuel coins' input
        ((Session.start clock).limitOutput session.machine.output.room) stdout stderr := by
  have final := (start_lawful clock).after (sources input)
  have final' := (reset_lawful symbols).after (sources input)
  have moved := reset_moved symbols clock final final' (SymbolTable.after_extends _ _)
    (SymbolTable.after_extends _ _)
  exact (alike _ _ _ _ _ final final' rfl moved ⟨rfl, rfl⟩ cleared.reset (.refl _) (.refl _) coins'
    coins stdout stderr).symm

/-- The lines after a source that both sessions evaluate alike. If it was aborted,
both forget their definitions, and either is answered like a new session. -/
theorem AnswersAlike.next {fuel : Nat} {input : List ByteArray} (later : AnswersAlike fuel input)
    {final final' table table' : SymbolTable} {move : Relocation} (lawful : final.Lawful)
    (lawful' : final'.Lawful) (isShared : move.symbols = final.Ordinary final')
    (known : (table.after (sources input)).Extends final)
    (known' : (table'.after (sources input)).Extends final') {evaluated evaluated' : Evaluated}
    (alike : EvaluatedAlike move table table' evaluated evaluated')
    (coins coins' : Nat → Nat → Bool) (stdout stderr : String) :
    runPrompt? fuel coins input evaluated.next stdout stderr =
      runPrompt? fuel coins' input evaluated'.next stdout stderr := by
  have results := alike.result
  unfold Evaluated.next
  generalize evaluated.result = result at results
  generalize evaluated'.result = result' at results
  cases results with
  | ok all =>
      rw [← alike.symbols] at known
      rw [← alike.symbols'] at known'
      exact later _ _ _ _ _ lawful lawful' isShared alike.sessions alike.cleared alike.cleared'
        known known' coins coins' stdout stderr
  | error cause =>
      let clock := evaluated.session.machine.clock
      have new := later.reset alike.sessions.symbols alike.cleared clock coins coins
      have new' := later.reset alike.sessions.symbols' alike.cleared' clock coins' coins
      dsimp only
      rw [new, new', alike.sessions.machine.room]

theorem answersAlike (fuel : Nat) {input : List ByteArray}
    (plain : ∀ source ∈ sources input, Plain source) : AnswersAlike fuel input := by
  induction input with
  | nil => exact fun _ _ _ _ _ _ _ _ _ _ _ _ _ _ _ _ _ => rfl
  | cons line rest inductionHypothesis =>
      intro final final' move left right lawful lawful' isShared moved cleared cleared' known known'
        coins coins' stdout stderr
      by_cases ends : ∀ source, String.fromUTF8? line = some source → isFarewell source = true
      · obtain ⟨out, err, code, answer, answer'⟩ := answer?_ended fuel (coins rest.length)
          (coins' rest.length) left right ends
        rw [runPrompt?, runPrompt?, answer, answer']
        rfl
      · push Not at ends
        obtain ⟨source, decoded, goesOn⟩ := ends
        have goesOn : isFarewell source = false := Bool.eq_false_iff.mpr goesOn
        rw [sources_cons decoded] at plain known known'
        obtain ⟨plainSource, plainRest⟩ := List.forall_mem_cons.mp plain
        have answer := answer?_evaluated fuel (coins rest.length) left decoded goesOn
        have answer' := answer?_evaluated fuel (coins' rest.length) right decoded goesOn
        have ran := evaluate?_moved lawful lawful' isShared moved cleared cleared' fuel
          (coins rest.length) (coins' rest.length) plainSource
          ((SymbolTable.after_extends _ (sources rest)).trans known)
          ((SymbolTable.after_extends _ (sources rest)).trans known')
        generalize evaluate? fuel (coins rest.length) left source = evaluated at ran answer
        generalize evaluate? fuel (coins' rest.length) right source = evaluated' at ran answer'
        cases ran with
        | none =>
            rw [runPrompt?, runPrompt?, answer, answer', Option.map_none]
            rfl
        | @some evaluated evaluated' alike =>
            obtain ⟨sameOut, sameErr⟩ := react_moved (lawful.relocation lawful' isShared) alike
            rw [runPrompt?_go answer (react_next evaluated),
              runPrompt?_go answer' (react_next evaluated'), sameOut, sameErr]
            exact (inductionHypothesis plainRest).next lawful lawful' isShared known known' alike
              _ _ _ _

/-- What is written behind something else. -/
def Transcript.behind (stdout stderr : String) (transcript : Transcript) : Transcript :=
  ⟨stdout ++ transcript.stdout, stderr ++ transcript.stderr, transcript.code⟩

theorem Transcript.behind_behind (stdout stderr out err : String) (transcript : Transcript) :
    (transcript.behind out err).behind stdout stderr =
      transcript.behind (stdout ++ out) (stderr ++ err) := by
  unfold Transcript.behind
  simp only [String.append_assoc]

/-- What was written before does not change what is written. -/
theorem runPrompt?_behind (fuel : Nat) (coins : Nat → Nat → Bool) (input : List ByteArray)
    (session : Session) (stdout stderr : String) :
    runPrompt? fuel coins input session stdout stderr =
      (runPrompt? fuel coins input session "" "").map (Transcript.behind stdout stderr) := by
  induction input generalizing session stdout stderr with
  | nil => simp [runPrompt?, Transcript.behind]
  | cons line rest inductionHypothesis =>
      cases answer : answer? fuel (coins rest.length) session line with
      | none => rw [runPrompt?, runPrompt?, answer]; rfl
      | some reaction =>
          cases next : reaction.next with
          | exit code =>
              rw [runPrompt?, runPrompt?, answer]
              simp [next, Transcript.behind, String.append_assoc]
          | go after =>
              rw [runPrompt?_go answer next, runPrompt?_go answer next, inductionHypothesis,
                inductionHypothesis after ("" ++ promptText ++ reaction.stdout), Option.map_map]
              congr 1
              funext transcript
              show _ = (transcript.behind _ _).behind stdout stderr
              rw [Transcript.behind_behind]
              simp [String.append_assoc]

/-- The line is evaluated and aborted, with this reaction. -/
def Aborts (fuel : Nat) (coin : Nat → Bool) (session : Session) (line : ByteArray)
    (reaction : Reaction Session) : Prop :=
  ∃ source evaluated cause, String.fromUTF8? line = some source ∧ isFarewell source = false ∧
    evaluate? fuel coin session source = some evaluated ∧ evaluated.result = .error cause ∧
    answer? fuel coin session line = some reaction

end Shell

/-- **A reset makes a session new.** Whatever was done before, a session that was
reset shows for all plain sources what a new session shows, with the same room for
output. At the prompt, all that is shown after an aborted line is what a new prompt
shows for the lines that remain. Neither the clock nor the coins have to be the same. -/
theorem reset_renews {session : Session} (reachable : session.Reachable) (clock : Clock)
    (fuel : Nat) (coins coins' : Nat → Nat → Bool) :
    (∀ sources : List String, (∀ source ∈ sources, Plain source) →
      session.reset.transcript? fuel coins sources =
        ((Session.start clock).limitOutput session.machine.output.room).transcript? fuel coins'
          sources) ∧
    (session.machine.output.room = none → ∀ line rest reaction,
      Shell.Aborts fuel (coins rest.length) session line reaction →
      (∀ source ∈ Shell.sources rest, Plain source) → ∀ stdout stderr,
        Shell.runPrompt? fuel coins (line :: rest) session stdout stderr =
          (Shell.runPrompt? fuel coins' rest (Session.start clock) "" "").map
            (Shell.Transcript.behind (stdout ++ Shell.promptText ++ reaction.stdout)
              (stderr ++ reaction.stderr))) := by
  refine ⟨fun sources plain => reset_transcript? reachable.symbols clock fuel coins coins' plain,
    ?_⟩
  rintro unlimited line rest reaction
    ⟨source, evaluated, cause, decoded, goesOn, ran, failed, answer⟩ plain stdout stderr
  have reacts := Shell.answer?_evaluated fuel (coins rest.length) session decoded goesOn
  rw [ran, answer, Option.map_some] at reacts
  obtain rfl := Option.some.inj reacts
  obtain ⟨evaluation, isEvaluation, isEvaluated⟩ := Option.map_eq_some_iff.mp ran
  have cleared : evaluated.session = evaluation.session.clear := by
    rw [← isEvaluated]
    rfl
  have after : evaluated.session.Reachable := by
    rw [cleared]
    exact (reachable.eval isEvaluation).clear
  have room : evaluated.session.machine.output.room = none := by
    rw [cleared]
    exact (eval?_leaves reachable.placed isEvaluation).2 unlimited
  have taken : evaluated.session.Cleared := by
    rw [cleared]
    exact evaluation.session.clear_cleared
  have new : (Session.start clock).limitOutput none = Session.start clock := rfl
  rw [Shell.runPrompt?_go answer (Shell.react_next evaluated), Shell.next_of_error failed,
    (Shell.answersAlike fuel plain).reset after.symbols taken clock coins coins', room, new,
    Shell.runPrompt?_behind]

/-- Coins that always fall the other way than `heads`. -/
def tails (_ : Nat) : Bool :=
  false

/-- A clock that goes on, unlike that of `Session.blank`. -/
def movingClock : Clock :=
  ⟨fun taken => .ok (taken + 1), 0⟩

/-- A session that has a variable, and a prompt at which a line fails. -/
theorem reset_renews_examples :
    (∃ evaluation, Session.blank.eval? 9 heads "var a = nil;" = some evaluation ∧
      (evaluation.session.reset.transcript? 9 (fun _ => heads) ["a;"]).isSome ∧
      evaluation.session.reset.transcript? 9 (fun _ => heads) ["a;"] =
        ((Session.start movingClock).limitOutput evaluation.session.machine.output.room).transcript?
          9 (fun _ => tails) ["a;"]) ∧
    ∃ reaction, Shell.Aborts 9 heads Session.blank "nil();\n".toUTF8 reaction ∧
      (Shell.runPrompt? 9 (fun _ => tails) ["true;\n".toUTF8] (Session.start movingClock) ""
        "").isSome ∧
      Shell.runPrompt? 9 (fun _ => heads) ["nil();\n".toUTF8, "true;\n".toUTF8] Session.blank ""
          "" =
        (Shell.runPrompt? 9 (fun _ => tails) ["true;\n".toUTF8] (Session.start movingClock) ""
            "").map
          (Shell.Transcript.behind ("" ++ Shell.promptText ++ reaction.stdout)
            ("" ++ reaction.stderr)) := by
  have ends : (Session.blank.eval? 9 heads "var a = nil;").any (fun evaluation =>
      (evaluation.session.reset.transcript? 9 (fun _ => heads) ["a;"]).isSome) = true := by
    decide +kernel
  have fails : (Shell.evaluate? 9 heads Session.blank "nil();\n").any (fun evaluated =>
      !evaluated.result.isOk) = true := by
    decide +kernel
  have decoded : String.fromUTF8? "nil();\n".toUTF8 = some "nil();\n" := by decide +kernel
  have goesOn : Shell.isFarewell "nil();\n" = false := by decide +kernel
  have plain : ∀ source ∈ ["a;"], Plain source := by decide +kernel
  have plainRest : ∀ source ∈ Shell.sources ["true;\n".toUTF8], Plain source := by decide +kernel
  constructor
  · obtain ⟨evaluation, isEvaluation, shown⟩ := (Option.any_eq_true _ _).mp ends
    exact ⟨evaluation, isEvaluation, shown,
      (reset_renews (.eval (.start _) isEvaluation) movingClock 9 _ _).1 ["a;"] plain⟩
  · obtain ⟨evaluated, ran, failed⟩ := (Option.any_eq_true _ _).mp fails
    have answer := Shell.answer?_evaluated 9 heads Session.blank decoded goesOn
    rw [ran, Option.map_some] at answer
    cases isResult : evaluated.result with
    | ok values =>
        rw [isResult] at failed
        cases failed
    | error cause =>
        have aborts : Shell.Aborts 9 heads Session.blank "nil();\n".toUTF8
            (Shell.react evaluated) :=
          ⟨_, evaluated, cause, decoded, goesOn, ran, isResult, answer⟩
        exact ⟨_, aborts, by decide +kernel,
          (reset_renews (.start _) movingClock 9 (fun _ => heads) _).2 rfl _ ["true;\n".toUTF8] _
            aborts plainRest "" ""⟩

end Scriptlet
