import Scriptlet.Proofs.Grammar.WellFormed
import Scriptlet.Proofs.Lexical.Symbols
import Scriptlet.Proofs.Run.Provenance
import Scriptlet.Proofs.Session.Reachable

/-!
Contract: errors point at the tokens of a session.

Owns: `Marks.of`, the marks of the tokens of a source; `Session.Scanned`, the
sessions that operations lead to, with the tokens of all sources evaluated so far;
and `errors_point_at_tokens`, over all three stages: what is reported of a source
stands at one of its tokens, the trees read from it keep the places of its tokens,
and a run fails at such a place, or at one of an earlier source.

Does not own: that trees keep the places of their tokens
(`Scriptlet.Proofs.Grammar.WellFormed`), and that runs fail at the places of the
code they run (`Scriptlet.Proofs.Run.Provenance`).
-/

set_option autoImplicit false

namespace Scriptlet

/-! ## The names of tokens -/

/-- The symbol of a token, if it has one, is named as the token is written. -/
def Token.Named (token : Token) : Prop :=
  ∀ symbol, token.literal = some (.identifier symbol) → symbol.name = token.lexeme

namespace Reading

/-- A token that carries no symbol. -/
theorem token_named {reading : Reading} (named : ∀ token ∈ reading.tokens, token.Named)
    (kind : Kind) (text : List Char) {literal : Option Literal}
    (plain : ∀ symbol, literal ≠ some (.identifier symbol)) :
    ∀ token ∈ (reading.token kind text literal).tokens, token.Named :=
  List.forall_mem_cons.mpr ⟨fun symbol is => absurd is (plain symbol), named⟩

theorem word_named {reading : Reading} (named : ∀ token ∈ reading.tokens, token.Named)
    (text : List Char) : ∀ token ∈ (reading.word text).tokens, token.Named := by
  have name := reading.symbols.intern_name (String.ofList text)
  unfold word
  generalize reading.symbols.intern (String.ofList text) = interned at name ⊢
  obtain ⟨symbol, symbols⟩ := interned
  dsimp only
  split
  · exact token_named named _ text (by rintro _ ⟨⟩)
  · refine List.forall_mem_cons.mpr ⟨fun other is => ?_, named⟩
    cases is
    exact name

theorem add_named {reading : Reading} (named : ∀ token ∈ reading.tokens, token.Named)
    (piece : Piece) : ∀ token ∈ (reading.add piece).tokens, token.Named := by
  have moved : ∀ token ∈ Reading.tokens
      { reading with line := reading.line + piece.lineEnds }, token.Named := named
  unfold add
  dsimp only
  generalize { reading with line := reading.line + piece.lineEnds } = later at moved ⊢
  cases piece.shape with
  | blank | comment => exact moved
  | wrong problem => exact moved
  | mark kind => exact token_named moved kind _ (by rintro _ ⟨⟩)
  | word => exact word_named moved _
  | number whole fraction => exact token_named moved .number _ (by rintro _ ⟨⟩)
  | string content => exact token_named moved .string _ (by rintro _ ⟨⟩)
  | templateText content => exact token_named moved .templateText _ (by rintro _ ⟨⟩)

theorem foldl_add_named (pieces : List Piece) {reading : Reading}
    (named : ∀ token ∈ reading.tokens, token.Named) :
    ∀ token ∈ (pieces.foldl add reading).tokens, token.Named := by
  induction pieces generalizing reading with
  | nil => exact named
  | cons piece pieces inductionHypothesis => exact inductionHypothesis (add_named named piece)

end Reading

theorem bodyTokens_named (symbols : SymbolTable) (source : String) :
    ∀ token ∈ Grammar.bodyTokens (scan symbols source).tokens, token.Named := by
  intro token inside
  rw [bodyTokens_scan, List.mem_reverse] at inside
  exact Reading.foldl_add_named _ (List.forall_mem_nil _) token inside

/-! ## Marks of tokens -/

/-- The names and places of the tokens of a source: a name is that of an
identifier, a place is the line and lexeme of a token. -/
def Marks.of (tokens : List Token) : Marks where
  name name := ∃ token ∈ tokens, token.kind = .identifier ∧ token.lexeme = name.symbol.name ∧
    token.line = name.line
  site kind site := ∃ token ∈ tokens, token.kind = kind ∧ site = ⟨token.line, .lexeme token.lexeme⟩

/-- Trees that are read from the tokens of a source have their marks. -/
theorem Marks.of_covers (symbols : SymbolTable) (source : String) :
    (Marks.of (scan symbols source).tokens).Covers
      (· ∈ Grammar.bodyTokens (scan symbols source).tokens) where
  name token symbol inside kind literal :=
    ⟨token, Grammar.bodyTokens_subset _ inside, kind,
      (bodyTokens_named symbols source token inside symbol literal).symm, rfl⟩
  site token inside := by
    have noEnd : token.kind ≠ .endOfInput := by
      rw [bodyTokens_scan] at inside
      exact readAll_endFree symbols source token inside
    refine ⟨token, Grammar.bodyTokens_subset _ inside, rfl, ?_⟩
    rw [Token.site, if_neg noEnd]

/-- The kinds of tokens whose places are kept in trees: operators, the closing
parenthesis of a call, the opening bracket of an index, and names. -/
def Kind.isKept : Kind → Bool
  | .minus | .bang | .plus | .star | .slash | .percent => true
  | .equalEqual | .bangEqual | .less | .lessEqual | .greater | .greaterEqual => true
  | .plusEqual | .minusEqual | .starEqual | .slashEqual => true
  | .rightParen | .leftBracket | .identifier => true
  | _ => false

/-- The line and lexeme of a token whose place is kept. -/
def PointsAt (tokens : List Token) (site : Site) : Prop :=
  ∃ token ∈ tokens, token.kind.isKept = true ∧ site = ⟨token.line, .lexeme token.lexeme⟩

theorem UnaryOp.sign_isKept (op : UnaryOp) : op.sign.isKept = true := by
  cases op <;> rfl

theorem BinaryOp.sign_isKept (op : BinaryOp) : op.sign.isKept = true := by
  cases op <;> rfl

theorem BinaryOp.assigningSign_isKept {op : BinaryOp} {kind : Kind}
    (assigning : op.assigningSign? = some kind) : kind.isKept = true := by
  cases op <;> cases assigning <;> rfl

theorem Marks.Keeps.pointsAt {tokens : List Token} {site : Site}
    (kept : (Marks.of tokens).Keeps site) : PointsAt tokens site := by
  have ofKind : ∀ {kind : Kind}, kind.isKept = true → (Marks.of tokens).site kind site →
      PointsAt tokens site := by
    rintro _ isKept ⟨token, inside, rfl, same⟩
    exact ⟨token, inside, isKept, same⟩
  cases kept with
  | name marked =>
      obtain ⟨token, inside, kind, lexeme, line⟩ := marked
      refine ⟨token, inside, by rw [kind]; rfl, ?_⟩
      rw [Name.site, lexeme, line]
  | unary marked => exact ofKind (UnaryOp.sign_isKept _) marked
  | binary marked => exact ofKind (BinaryOp.sign_isKept _) marked
  | update assigning marked => exact ofKind (BinaryOp.assigningSign_isKept assigning) marked
  | call marked => exact ofKind rfl marked
  | index marked => exact ofKind rfl marked

/-! ## What is read from a source -/

/-- What is reported stands at a token of the source, the end of input included. -/
theorem Located.of_scan {symbols : SymbolTable} {source : String} {coin : Nat → Bool} {site : Site}
    (located : Located (· ∈ Grammar.bodyTokens (scan symbols source).tokens)
      ⟨Grammar.stopSite (scan symbols source).tokens, coin⟩ site) :
    ∃ token ∈ (scan symbols source).tokens, site = token.site := by
  rcases located with atEnd | ⟨token, inside, same⟩
  · refine ⟨Token.endOfInput (newlines source.toList + 1), ?_, ?_⟩
    · rw [scan_tokens]
      exact List.mem_append_right _ List.mem_cons_self
    · have free := readAll_endFree symbols source
      rw [atEnd, scan_tokens, Grammar.stopSite, Grammar.ended_append_stop _ rfl,
        List.dropWhile_append_of_pos (by simpa [Grammar.EndFree] using free)]
      simp [Token.endOfInput]
  · exact ⟨token, Grammar.bodyTokens_subset _ inside, same.symm⟩

/-- A source is read as trees with its marks, with reports at its tokens. -/
theorem parse_scanned (symbols : SymbolTable) (source : String) (coin : Nat → Bool) :
    (∀ diagnostic ∈ (parse coin (scan symbols source).tokens).diagnostics,
      ∃ token ∈ (scan symbols source).tokens, diagnostic.site = token.site) ∧
    ∀ s ∈ (parse coin (scan symbols source).tokens).program,
      s.Formed (Marks.of (scan symbols source).tokens) := by
  have yields := Grammar.program_yields (Marks.of_covers symbols source)
    ⟨Grammar.stopSite (scan symbols source).tokens, coin⟩
    (Grammar.bodyTokens (scan symbols source).tokens) fun _ inside => inside
  exact ⟨fun diagnostic inside => (yields.diagnostics diagnostic inside).of_scan, yields.program⟩

/-! ## Sessions -/

/-- The sessions that operations lead to, from a new one, with the tokens of all
sources evaluated so far, the latest first. The coins fall as they may, and so do the
readings of the clock. -/
inductive Session.Scanned : List (List Token) → Session → Prop where
  | start (clock : Clock) : Session.Scanned [] (.start clock)
  | eval {earlier : List (List Token)} {session : Session} {fuel : Nat} {coin : Nat → Bool}
      {source : String} {evaluation : Evaluation} (before : session.Scanned earlier)
      (ends : session.eval? fuel coin source = some evaluation) :
      Session.Scanned ((scan session.symbols source).tokens :: earlier) evaluation.session
  | reset {earlier : List (List Token)} {session : Session} (before : session.Scanned earlier) :
      Session.Scanned earlier session.reset
  | takeDiagnostics {earlier : List (List Token)} {session : Session}
      (before : session.Scanned earlier) : Session.Scanned earlier session.takeDiagnostics.2
  | takeOutput {earlier : List (List Token)} {session : Session}
      (before : session.Scanned earlier) : Session.Scanned earlier session.takeOutput.2
  | limitOutput {earlier : List (List Token)} {session : Session}
      (before : session.Scanned earlier) (room : Option Nat) :
      Session.Scanned earlier (session.limitOutput room)
  | setClock {earlier : List (List Token)} {session : Session} (before : session.Scanned earlier)
      (clock : Clock) : Session.Scanned earlier (session.setClock clock)

/-- The marks of the sources. -/
def codesOf (sources : List (List Token)) (marks : Marks) : Prop :=
  ∃ tokens ∈ sources, marks = Marks.of tokens

theorem Outcome.Traced.leaves {α : Type} {codes : Marks → Prop} {marks : Marks}
    {outcome : Outcome α} (traced : outcome.Traced codes marks) :
    outcome.Leaves (Machine.Coded codes) := by
  rcases outcome with _ | ⟨⟨⟩, _⟩ | _
  · exact traced
  · exact traced.1
  · exact traced
  · trivial

/-- Evaluating a source, where all functions are of earlier ones. -/
theorem evaluation_traced {earlier : List (List Token)} {session : Session}
    (coded : session.machine.Coded (codesOf earlier)) {fuel : Nat} {coin : Nat → Bool}
    {source : String} {evaluation : Evaluation}
    (ends : session.eval? fuel coin source = some evaluation) :
    evaluation.outcome.Traced (codesOf ((scan session.symbols source).tokens :: earlier))
      (Marks.of (scan session.symbols source).tokens) := by
  rw [Session.eval?_eq] at ends
  rw [← (record?_eq_some.mp ends).2]
  have known : codesOf ((scan session.symbols source).tokens :: earlier)
      (Marks.of (scan session.symbols source).tokens) := ⟨_, List.mem_cons_self, rfl⟩
  refine interpret_traced known fuel
    (parse_scanned session.symbols source coin).2 session.machine ?_
  exact coded.mono fun marks ⟨tokens, inside, same⟩ =>
    ⟨tokens, List.mem_cons_of_mem _ inside, same⟩

/-- The functions that a session keeps are code of the sources it has evaluated. -/
theorem Session.Scanned.coded {earlier : List (List Token)} {session : Session}
    (scanned : session.Scanned earlier) : session.machine.Coded (codesOf earlier) := by
  have renewed : ∀ {earlier : List (List Token)} {machine : Machine},
      machine.Coded (codesOf earlier) → ∀ clock : Symbol,
        (machine.renewGlobals clock).Coded (codesOf earlier) := by
    intro earlier machine coded clock
    have clockCoded : Function.Coded (codesOf earlier) .clock := trivial
    exact coded.addFunction clockCoded
  induction scanned with
  | start clock =>
      refine renewed (fun id function found => ?_) _
      simp [Heap.empty] at found
  | eval before ends inductionHypothesis =>
      exact Outcome.Leaves.evaluation (evaluation_traced inductionHypothesis ends).leaves
  | reset before inductionHypothesis => exact renewed inductionHypothesis _
  | takeDiagnostics before inductionHypothesis => exact inductionHypothesis
  | takeOutput before inductionHypothesis => exact inductionHypothesis
  | limitOutput before room inductionHypothesis => exact inductionHypothesis
  | setClock before clock inductionHypothesis => exact inductionHypothesis

/-- **Errors point at the tokens of a session.** However the coins for a source fall,
what is reported of it stands at one of its tokens; the trees that are read from it have
the names and places of its tokens; and a fault is at the line and lexeme of one of its
tokens, or at those of a token of an earlier source, code of which was called and raised
the fault. -/
theorem errors_point_at_tokens {earlier : List (List Token)} {session : Session}
    (scanned : session.Scanned earlier) (coin : Nat → Bool) (source : String) :
    (∀ diagnostic ∈ (parse coin (scan session.symbols source).tokens).diagnostics,
      ∃ token ∈ (scan session.symbols source).tokens, diagnostic.site = token.site) ∧
    (∀ s ∈ (parse coin (scan session.symbols source).tokens).program,
      s.Formed (Marks.of (scan session.symbols source).tokens)) ∧
    ∀ fuel evaluation site cause, session.eval? fuel coin source = some evaluation →
      evaluation.result = .error (.fault site cause) →
        PointsAt (scan session.symbols source).tokens site ∨
        ∃ tokens ∈ earlier, PointsAt tokens site ∧
          CallRaised (Marks.of tokens) site cause evaluation.session.machine := by
  obtain ⟨reports, program⟩ := parse_scanned session.symbols source coin
  refine ⟨reports, program, fun fuel evaluation site cause ends fails => ?_⟩
  have traced := evaluation_traced scanned.coded ends
  rw [Evaluation.outcome, fails] at traced
  cases traced.2 with
  | here kept => exact Or.inl kept.pointsAt
  | called known kept raised =>
      obtain ⟨tokens, inside, rfl⟩ := known
      -- a function of the source itself is no other place than the source
      rcases List.mem_cons.mp inside with rfl | isEarlier
      · exact Or.inl kept.pointsAt
      · exact Or.inr ⟨tokens, isEarlier, kept.pointsAt, raised⟩

/-- A function of the first source, called in the second, fails at its own
operator. -/
theorem negation_points_at_first_source :
    ∃ first second,
      Session.blank.eval? 9 heads "fun f() \x7b -nil; \x7d" = some first ∧
      first.session.eval? 9 heads "f();" = some second ∧
      second.result = .error (.fault ⟨1, .lexeme "-"⟩ .numberOperand) ∧
      PointsAt (scan Session.blank.symbols "fun f() \x7b -nil; \x7d").tokens
        ⟨1, .lexeme "-"⟩ := by
  have both : (Session.blank.eval? 9 heads "fun f() \x7b -nil; \x7d").any (fun first =>
      (first.session.eval? 9 heads "f();").any (fun second => decide
        (second.result.map (fun _ => ()) = .error (.fault ⟨1, .lexeme "-"⟩ .numberOperand))) &&
      (scan first.session.symbols "f();").tokens.all (·.lexeme != "-")) = true := by
    decide +kernel
  obtain ⟨first, begins, ends⟩ := (Option.any_eq_true _ _).mp both
  obtain ⟨ends, apart⟩ := Bool.and_eq_true_iff.mp ends
  obtain ⟨second, goesOn, fails⟩ := (Option.any_eq_true _ _).mp ends
  have fails : second.result = .error (.fault ⟨1, .lexeme "-"⟩ .numberOperand) := by
    have mapped := of_decide_eq_true fails
    generalize second.result = result at mapped ⊢
    cases result with
    | ok values => cases mapped
    | error cause =>
        cases mapped
        rfl
  refine ⟨first, second, begins, goesOn, fails, ?_⟩
  have points := (errors_point_at_tokens (.eval (.start _) begins) heads "f();").2.2 9 second _ _
    goesOn fails
  rcases points with ⟨token, inside, -, same⟩ | ⟨tokens, isFirst, points, -⟩
  · have other := List.all_eq_true.mp apart token inside
    have lexeme : Place.lexeme "-" = .lexeme token.lexeme := congrArg Site.place same
    simp [← Place.lexeme.inj lexeme] at other
  · rw [List.mem_singleton.mp isFirst] at points
    exact points

/-- A clock without a reading fails where it is called. -/
example : ((Session.start ⟨fun _ => .error "no time", 0⟩).eval? 9 heads "1 + clock();").any
    (fun evaluation => decide (evaluation.result.map (fun _ => ()) =
      .error (.fault ⟨1, .lexeme ")"⟩ (.native "no time")))) = true := by
  decide +kernel

end Scriptlet
