import Scriptlet.Proofs.Lexical.Lines
import Scriptlet.Proofs.Session.Runs

/-!
Contract: one source in place of two consecutive ones.

Owns: the law of reading (`read_append_newline`), by which two sources on
consecutive lines are read as one after the other; lines with a tag that says
whether they come from the second source; and the main statement
`evaluates_consecutive`: evaluating both at once is evaluating one and then the
other, but for the lines of the second.

Does not own: the laws of running (`Scriptlet.Proofs.Session.Runs`).

## Why lines are tagged

The two evaluations differ in the lines of the second source wherever these have
got to: in reports, in the site of an error, and in the code of functions. What
came from the first source, or was there before, has the same lines in both.
Running once with a tag on each line tells them apart, and both evaluations are
the tagged one with its tags taken off in two ways.
-/

set_option autoImplicit false

namespace Scriptlet

open Grammar

/-! ## Reading -/

/-- Tokens without `maybe`, which mean the same however coins fall. -/
def Sure (tokens : List Token) : Prop :=
  ∀ token ∈ tokens, token.kind ≠ .maybeWord

instance (tokens : List Token) : Decidable (Sure tokens) :=
  inferInstanceAs (Decidable (∀ token ∈ tokens, token.kind ≠ .maybeWord))

theorem Sure.fits {tokens : List Token} (sure : Sure tokens) {change : Change}
    {setting other : Setting} (stop : change.ends → other.stop = relabel change.line setting.stop) :
    change.Fits setting other tokens :=
  ⟨fun token _ inside isMaybe => absurd isMaybe (sure token (inside.subset (by simp))), stop⟩

/-- A program with other lines, and other coins. -/
theorem program_relabel (line : Nat → Nat) (stop : Site) (coin other : Nat → Bool)
    {tokens : List Token} (sure : Sure tokens) :
    program ⟨relabel line stop, other⟩ (relabel line tokens) =
      relabel line (program ⟨stop, coin⟩ tokens) := by
  let change : Change := ⟨line, [], True, fun _ => rfl⟩
  have fits : change.Fits ⟨stop, coin⟩ ⟨relabel line stop, other⟩ tokens := sure.fits fun _ => rfl
  have same := program_tokens fits (Or.inl trivial)
  rw [show change.tokens tokens = relabel line tokens from List.append_nil _] at same
  rw [same, Parse.ext_iff_fields]
  simp [change, program_nil]

/-- A program without reports, and then the rest. -/
theorem program_append_sure (before stop : Site) (coin other : Nat → Bool)
    {first more : List Token} (sure : Sure first) (separate : Separate more)
    (clean : (program ⟨before, coin⟩ first).diagnostics = []) :
    program ⟨stop, other⟩ (first ++ more) =
      program ⟨before, coin⟩ first ++ program ⟨stop, other⟩ more := by
  have fits : (followedBy more).Fits ⟨before, coin⟩ ⟨stop, other⟩ first := sure.fits False.elim
  have same := program_tokens fits (Or.inr ⟨separate, clean⟩)
  rw [followedBy_tokens] at same
  rw [same]
  exact congrArg (· ++ program ⟨stop, other⟩ more) (relabel_id _)

/-- What is parsed of a scanned source. -/
theorem parse_scan (coin : Nat → Bool) (symbols : SymbolTable) (source : String) :
    parse coin (scan symbols source).tokens =
      program ⟨(Token.endOfInput (newlines source.toList + 1)).site, coin⟩
        (readAll symbols source).tokens.reverse := by
  rw [scan_tokens]
  exact parse_of_endFree coin (readAll_endFree symbols source) rfl

theorem Sure.readAll {symbols : SymbolTable} {source : String}
    (sure : Sure (scan symbols source).tokens) : Sure (readAll symbols source).tokens.reverse := by
  rw [scan_tokens] at sure
  exact fun token inside => sure token (List.mem_append_left _ inside)

theorem separate_relabel {line : Nat → Nat} {tokens : List Token} {stop : Token}
    (separate : Separate (tokens ++ [stop])) : Separate (relabel line tokens) := by
  cases tokens with
  | nil => exact ⟨by simp [Parser.kindOf], by simp [Parser.kindOf], by simp [Parser.kindOf]⟩
  | cons token rest => exact ⟨separate.elseWord, separate.caseWord, separate.defaultWord⟩

section Consecutive

variable {symbols : SymbolTable} {first second : String}

/-- Two sources on consecutive lines are parsed one after the other. -/
theorem parse_append_newline (coin coinFirst coinSecond : Nat → Bool)
    (scanClean : (scan symbols first).diagnostics = [])
    (parseClean : (parse coinFirst (scan symbols first).tokens).diagnostics = [])
    (sureFirst : Sure (scan symbols first).tokens)
    (sureSecond : Sure (scan (scan symbols first).symbols second).tokens)
    (separate : Separate (scan (scan symbols first).symbols second).tokens) :
    parse coin (scan symbols (first ++ "\n" ++ second)).tokens =
      parse coinFirst (scan symbols first).tokens ++
        relabel (· + (newlines first.toList + 1))
          (parse coinSecond (scan (scan symbols first).symbols second).tokens) := by
  have free : EndFree ((readAll symbols first).tokens.reverse ++
      relabel (· + (newlines first.toList + 1))
        (readAll (scan symbols first).symbols second).tokens.reverse) := by
    refine (readAll_endFree symbols first).append fun token inside => ?_
    obtain ⟨old, wasInside, rfl⟩ := List.mem_map.mp inside
    exact readAll_endFree (scan symbols first).symbols second old wasInside
  rw [parse_scan] at parseClean
  rw [scan_tokens (scan symbols first).symbols] at separate
  -- The tokens of both are those of the first, those of the second, and its end of input.
  rw [scan_append_newline (closes_of_clean scanClean), bodyTokens_scan,
    scan_tokens (scan symbols first).symbols, relabel_append, relabel_cons, relabel_nil,
    ← List.append_assoc, parse_of_endFree coin free rfl]
  rw [program_append_sure _ _ coinFirst coin sureFirst.readAll (separate_relabel separate)
      parseClean, ← parse_scan, relabel_token_site, program_relabel _ _ coinSecond coin sureSecond.readAll,
    ← scan_tokens, ← parse_scan]

/-- The source that begins on the line after another one. -/
theorem read_append_newline {session after : Session} {coinFirst : Nat → Bool}
    (coin coinSecond : Nat → Bool) (known : after.symbols = (scan session.symbols first).symbols)
    (clean : (session.read coinFirst first).diagnostics = [])
    (sureFirst : Sure (scan session.symbols first).tokens)
    (sureSecond : Sure (scan after.symbols second).tokens)
    (separate : Separate (scan after.symbols second).tokens) :
    session.read coin (first ++ "\n" ++ second) =
      session.read coinFirst first ++
        relabel (· + (newlines first.toList + 1)) (after.read coinSecond second) := by
  obtain ⟨scanClean, parseClean⟩ := List.append_eq_nil_iff.mp clean
  rw [known] at sureSecond separate
  have parsed := parse_append_newline coin coinFirst coinSecond scanClean parseClean sureFirst
    sureSecond separate
  show Source.mk (scan _ _).symbols (parse _ _).program ((scan _ _).diagnostics ++ _) = _
  rw [parsed, scan_append_newline (closes_of_clean scanClean)]
  unfold Session.read
  simp only [known, scanClean, Parse.append_program, Parse.append_diagnostics,
    relabel_parse_program, relabel_parse_diagnostics, parseClean]
  exact congrArg (Source.mk _ _) (relabel_append _ _ _).symm

end Consecutive

/-! ## Tagged lines -/

/-- A line that was there before: the even numbers are tagged so. -/
def settled (line : Nat) : Nat := 2 * line

/-- A line of the source that is evaluated: the odd numbers are tagged so. -/
def fresh (line : Nat) : Nat := 2 * line + 1

/-- Takes off the tag, and moves a fresh line down by `shift`. -/
def moved (shift line : Nat) : Nat := line / 2 + shift * (line % 2)

theorem moved_settled (shift line : Nat) : moved shift (settled line) = line := by
  simp [moved, settled]

theorem moved_fresh (shift line : Nat) : moved shift (fresh line) = line + shift := by
  have half : (2 * line + 1) / 2 = line := by omega
  have odd : (2 * line + 1) % 2 = 1 := by omega
  rw [moved, fresh, half, odd, Nat.mul_one]

/-- The evaluation of a source in which the lines that come from it are fresh, and
all others settled. -/
def Session.EvaluatesTagged (coin : Nat → Bool) (session : Session) (source : String)
    (evaluation : Evaluation) : Prop :=
  Runs (relabel settled session) (relabel fresh (session.read coin source)) evaluation

section Tagged

variable {session : Session} {source : Source} {tagged : Evaluation}

/-- The tagged run, with its fresh lines moved. -/
theorem Runs.untag (shift : Nat) (runs : Runs (Lined.relabel settled session)
      (Lined.relabel fresh source) tagged) :
    Runs session (Lined.relabel (· + shift) source) (Lined.relabel (moved shift) tagged) := by
  have fewer : moved shift ∘ fresh = (· + shift) := funext (moved_fresh shift)
  have same := runs.relabel (moved shift)
  rwa [relabel_cancel (moved_settled shift), relabel_relabel, fewer] at same

/-- A source that runs, with its lines moved, also runs with its lines tagged. -/
theorem Runs.tag (shift : Nat) {evaluation : Evaluation}
    (runs : Runs session (Lined.relabel (· + shift) source) evaluation) :
    ∃ tagged, Runs (Lined.relabel settled session) (Lined.relabel fresh source) tagged := by
  have fewer : moved shift ∘ fresh = (· + shift) := funext (moved_fresh shift)
  have same : Runs (Lined.relabel (moved shift) (Lined.relabel settled session))
      (Lined.relabel (moved shift) (Lined.relabel fresh source)) evaluation := by
    rwa [relabel_cancel (moved_settled shift), relabel_relabel, fewer]
  exact same.of_relabel

end Tagged

/-! ## Evaluating -/

/-- **A source may be split at the end of a line.** Let the first part be read
without a report, and the second not begin with a word that would go on with the
last statement of the first; and let there be no `maybe`. Then evaluating both
at once ends iff evaluating the parts in turn does, however coins fall. If the first part
succeeds, the evaluation of the second one and the joined one are the same tagged
evaluation: its fresh lines are as they are for the second part alone, and moved
down by the lines of the first for both at once, where the values of the first
come before. If the first part fails, so do both at once, with the same error
and the same machine; the second part is read and not run. -/
theorem evaluates_consecutive (session : Session) (coin coinFirst coinSecond : Nat → Bool)
    (first second : String) (clean : (session.read coinFirst first).diagnostics = [])
    (sureFirst : Sure (scan session.symbols first).tokens)
    (sureSecond : Sure (scan (scan session.symbols first).symbols second).tokens)
    (separate : Separate (scan (scan session.symbols first).symbols second).tokens) :
    let joined := first ++ "\n" ++ second
    let shift := newlines first.toList + 1
    (∀ earlier after apart, session.Evaluates coinFirst first ⟨.ok earlier, after⟩ →
      after.Evaluates coinSecond second apart →
        ∃ tagged, after.EvaluatesTagged coinSecond second tagged ∧
          apart = relabel (moved 0) tagged ∧
          session.Evaluates coin joined ((relabel (moved shift) tagged).behind earlier)) ∧
    (∀ cause after, session.Evaluates coinFirst first ⟨.error cause, after⟩ →
      session.Evaluates coin joined
        ⟨.error cause, { after with
          symbols := (after.read coinSecond second).symbols
          pending :=
            after.pending ++ relabel (· + shift) (after.read coinSecond second).diagnostics }⟩) ∧
    (∀ evaluation, session.Evaluates coin joined evaluation →
      ∃ halfway, session.Evaluates coinFirst first halfway ∧
        ∀ values, halfway.result = .ok values →
          ∃ apart, halfway.session.Evaluates coinSecond second apart) := by
  have read : ∀ {after : Session}, after.symbols = (scan session.symbols first).symbols →
      session.read coin (first ++ "\n" ++ second) = session.read coinFirst first ++
        relabel (· + (newlines first.toList + 1)) (after.read coinSecond second) := by
    intro after known
    rw [← known] at sureSecond separate
    exact read_append_newline coin coinSecond known clean sureFirst sureSecond separate
  have unmoved : ∀ after : Session,
      relabel (· + 0) (after.read coinSecond second) = after.read coinSecond second :=
    fun after => relabel_id (after.read coinSecond second)
  simp only [evaluates_iff]
  refine ⟨fun earlier after apart begins goesOn => ?_, fun cause after fails => ?_,
    fun evaluation runs => ?_⟩
  · obtain ⟨tagged, runsTagged⟩ := Runs.tag 0 ((unmoved after).symm ▸ goesOn)
    have alone := runsTagged.untag 0
    rw [unmoved] at alone
    refine ⟨tagged, runsTagged, goesOn.unique alone, ?_⟩
    rw [read begins.follows.symbols]
    exact begins.append (runsTagged.untag _)
  · rw [read fails.follows.symbols]
    exact fails.append_error _
  · -- The first part ends whatever the second is read to be; then the second is read after it.
    have parts := runs
    rw [@read { session with symbols := (scan session.symbols first).symbols } rfl] at parts
    obtain ⟨halfway, begins, -⟩ := parts.of_append
    rw [read begins.follows.symbols] at runs
    obtain ⟨again, beginsAgain, goesOn⟩ := runs.of_append
    obtain rfl := begins.unique beginsAgain
    refine ⟨halfway, begins, fun values succeeds => ?_⟩
    obtain ⟨later, runsLater⟩ := goesOn values succeeds
    obtain ⟨tagged, runsTagged⟩ := runsLater.tag _
    have alone := runsTagged.untag 0
    rw [unmoved] at alone
    exact ⟨_, alone⟩

/-- The evaluation has these values, and this has been written in the end. -/
def Evaluation.Gives (evaluation : Evaluation) (values : List Value) (written : String) : Prop :=
  evaluation.result = .ok values ∧ evaluation.session.machine.output.written = written.toUTF8

/-- The only value is `true`, and this has been written in the end. -/
def Evaluation.givesTrue (evaluation : Evaluation) (written : String) : Bool :=
  match evaluation.result with
  | .ok [.bool true] =>
      decide (evaluation.session.machine.output.written.data = written.toUTF8.data)
  | _ => false

theorem Evaluation.gives_of_givesTrue {evaluation : Evaluation} {written : String}
    (given : evaluation.givesTrue written = true) : evaluation.Gives [.bool true] written := by
  unfold givesTrue at given
  split at given
  next isOk => exact ⟨isOk, ByteArray.ext (of_decide_eq_true given)⟩
  next => cases given

/-- A function defined and called in the first part, and called again in the second. Its
print is the second one that is written, and its value the second one. -/
theorem call_after_definition :
    ∃ after apart tagged,
      Session.blank.Evaluates heads "fun f() \x7b print nil; return true; \x7d f();"
        ⟨.ok [.bool true], after⟩ ∧
      after.machine.output.written = "nil\n".toUTF8 ∧
      after.Evaluates heads "f();" apart ∧ apart.Gives [.bool true] "nil\nnil\n" ∧
      apart = relabel (moved 0) tagged ∧
      let joined := (relabel (moved 1) tagged).behind [.bool true]
      Session.blank.Evaluates heads
        ("fun f() \x7b print nil; return true; \x7d f();" ++ "\n" ++ "f();") joined ∧
      joined.Gives [.bool true, .bool true] "nil\nnil\n" := by
  let first := "fun f() \x7b print nil; return true; \x7d f();"
  have both : (Session.blank.eval? 9 heads first).any (fun evaluation =>
      evaluation.givesTrue "nil\n" &&
        (evaluation.session.eval? 9 heads "f();").any (·.givesTrue "nil\nnil\n")) = true := by
    decide +kernel
  obtain ⟨⟨result, after⟩, begins, ends⟩ := (Option.any_eq_true _ _).mp both
  obtain ⟨succeeds, ends⟩ := Bool.and_eq_true_iff.mp ends
  obtain ⟨apart, ends, last⟩ := (Option.any_eq_true _ _).mp ends
  obtain ⟨rfl, written⟩ := Evaluation.gives_of_givesTrue succeeds
  have lasts := Evaluation.gives_of_givesTrue last
  obtain ⟨tagged, -, isApart, joined⟩ :=
    (evaluates_consecutive Session.blank heads heads heads first "f();"
      (by decide +kernel) (by decide +kernel) (by decide +kernel)
      ⟨by decide +kernel, by decide +kernel, by decide +kernel⟩).1
      [.bool true] after apart ⟨9, begins⟩ ⟨9, ends⟩
  have lines : newlines first.toList + 1 = 1 := by decide +kernel
  rw [lines] at joined
  refine ⟨after, apart, tagged, ⟨9, begins⟩, written, ⟨9, ends⟩, lasts, isApart, joined, ?_⟩
  obtain ⟨values, output⟩ := lasts
  rw [isApart] at values output
  obtain ⟨result, session⟩ := tagged
  cases result with
  | error cause => cases values
  | ok values' =>
      cases values
      exact ⟨rfl, output⟩

end Scriptlet
