import Scriptlet.Proofs.Grammar.Stable

/-!
Contract: the rules for expressions are stable where their parts are.

Owns: the stability of names, of operators and assignment, of calls and
indexing, and of primary expressions. An expression is not closed: an operator
behind it would belong to it.

Does not own: statements, and the grammar tied together
(`Scriptlet.Proofs.Grammar.StableStatement`).
-/

set_option autoImplicit false

namespace Scriptlet.Grammar

open Scriptlet.Parser

section Rules

variable {change : Change} {size : Nat} {closed : Prop} {expression other : Parser Expr}

/-! ## Names -/

theorem identifier_found (what : Expectation) (setting : Setting) {token : Token}
    (rest : List Token) {symbol : Symbol} (kind : token.kind = .identifier)
    (literal : token.literal = some (.identifier symbol)) :
    identifier what setting (token :: rest) = ⟨some ⟨symbol, token.line⟩, rest, []⟩ := by
  rw [identifier, bind_of_some token (by simp [expect, kind])]
  simp only [expect, kind, if_true, literal]
  rfl

/-- An identifier that has no symbol is taken and reported. -/
theorem identifier_bare (what : Expectation) (setting : Setting) {token : Token}
    (rest : List Token) (kind : token.kind = .identifier)
    (literal : ∀ symbol, token.literal ≠ some (.identifier symbol)) :
    identifier what setting (token :: rest) =
      ⟨none, rest, [⟨token.site, .expected what⟩]⟩ := by
  rw [identifier, bind_of_some token (by simp [expect, kind])]
  simp only [expect, kind, if_true]
  rfl

theorem identifier_missing (what : Expectation) (setting : Setting) (tokens : List Token)
    (kind : kindOf tokens ≠ .identifier) :
    identifier what setting tokens =
      ⟨none, tokens, [⟨siteOf setting tokens, .expected what⟩]⟩ := by
  cases tokens with
  | nil => rfl
  | cons token rest =>
      have differs : ¬ token.kind = .identifier := kind
      rw [identifier, bind_of_none (by simp [expect, differs])]
      simp [expect, differs, siteOf]

/-- A list of tokens begins with a name, with an identifier that has no symbol,
or with no identifier. -/
theorem identifier_cases {motive : List Token → Prop}
    (found : ∀ token rest symbol, token.kind = .identifier →
      token.literal = some (.identifier symbol) → motive (token :: rest))
    (bare : ∀ token rest, token.kind = .identifier →
      (∀ symbol, token.literal ≠ some (.identifier symbol)) → motive (token :: rest))
    (missing : ∀ tokens, kindOf tokens ≠ .identifier → motive tokens) (tokens : List Token) :
    motive tokens := by
  cases tokens with
  | nil => exact missing [] (by simp [kindOf])
  | cons token rest =>
      by_cases kind : token.kind = .identifier
      · by_cases named : ∃ symbol, token.literal = some (.identifier symbol)
        · obtain ⟨symbol, literal⟩ := named
          exact found token rest symbol kind literal
        · exact bare token rest kind fun symbol literal => named ⟨symbol, literal⟩
      · exact missing (token :: rest) kind

theorem identifier_stable {domain : List Token → Prop} (what : Expectation) :
    StableOn change domain True True (identifier what) (identifier what) where
  leaves setting tokens _ := by
    induction tokens using identifier_cases with
    | found token rest symbol kind literal =>
        rw [identifier_found what setting rest kind literal]
        exact List.suffix_cons _ _
    | bare token rest kind literal =>
        rw [identifier_bare what setting rest kind literal]
        exact List.suffix_cons _ _
    | missing tokens kind =>
        simp [identifier_missing what setting tokens kind]
  advances _ := by
    intro setting tokens _ done
    induction tokens using identifier_cases with
    | found token rest symbol kind literal =>
        rw [identifier_found what setting rest kind literal]
        exact Nat.lt_succ_self _
    | bare token rest kind literal =>
        simp [identifier_bare what setting rest kind literal] at done
    | missing tokens kind => simp [identifier_missing what setting tokens kind] at done
  explains := by
    intro setting tokens _ failed
    induction tokens using identifier_cases with
    | found token rest symbol kind literal =>
        simp [identifier_found what setting rest kind literal] at failed
    | bare token rest kind literal =>
        rw [identifier_bare what setting rest kind literal]
        exact ⟨[], _, rfl, Or.inr ⟨[], token, rfl, kind, rfl⟩⟩
    | missing tokens kind =>
        rw [identifier_missing what setting tokens kind]
        exact ⟨[], _, rfl, Or.inl rfl⟩
  finishes := by
    intro setting tokens _
    induction tokens using identifier_cases with
    | found token rest symbol kind literal =>
        simp [identifier_found what setting rest kind literal]
    | bare token rest kind literal => simp [identifier_bare what setting rest kind literal]
    | missing tokens kind => simp [identifier_missing what setting tokens kind]
  carries := by
    intro setting other tokens _ fits spares
    induction tokens using identifier_cases with
    | found token rest symbol kind literal =>
        rw [identifier_found what setting rest kind literal, Change.tokens_cons,
          identifier_found what other _ (by simpa using kind) (by simpa using literal)]
        rfl
    | bare token rest kind literal =>
        rw [identifier_bare what setting rest kind literal, Change.tokens_cons,
          identifier_bare what other _ (by simpa using kind) (by simpa using literal)]
        rfl
    | missing tokens kind =>
        rw [identifier_missing what setting tokens kind] at spares ⊢
        cases tokens with
        | nil =>
            have isEnd := spares.isEnd
            have nothing := change.final isEnd
            rw [identifier_missing what other _ (by simp [nothing, kindOf])]
            simp only [Change.tokens, nothing, relabel_nil, List.append_nil, siteOf,
              fits.stop isEnd, Change.reply]
            rfl
        | cons token rest =>
            rw [Change.tokens_cons, identifier_missing what other _ (by simpa [kindOf] using kind)]
            rfl

/-! ## Operators and assignment -/

theorem relabel_join (line : Nat → Nat) (connective : Connective) (left right : Expr)
    (site : Site) :
    relabel line (connective.join left right site) =
      connective.join (relabel line left) (relabel line right) (relabel line site) := by
  cases connective <;> rfl

/-- The operations of a level. Each one takes its operator, so that the fuel
needs to be no more than the number of tokens. -/
theorem operations_stable (level : Level) {fuel otherFuel : Nat} {operand changed : Parser Expr}
    (stable : Stable change size False True operand changed) (enough : size ≤ fuel)
    (otherEnough : size ≤ otherFuel) (left : Expr) :
    Stable change size False False (operations level operand fuel left)
      (operations level changed otherFuel (relabel change.line left)) := by
  refine .repeats (operations level operand) (operations level changed) (relabel change.line) ?_
    enough otherEnough left
  intro fuel otherFuel smaller within _ _ again left
  have joined := fun connective token right =>
    again (Connective.join connective left right (Token.site token))
  simp only [relabel_join] at joined
  exact .select
    (fun connective token => (stable.shorter _ (by omega)).bind (joined connective token))
    (stable_pure rfl)

theorem relabel_assignedValue (line : Nat → Nat) (target value : Expr) (site : Site)
    (compound : Option BinaryOp) :
    relabel line (assignedValue target value site compound) =
      assignedValue (relabel line target) (relabel line value) (relabel line site) compound := by
  cases compound <;> rfl

theorem assignment_stable (stable : Stable change (size - 1) False True expression other)
    (target : Expr) :
    Stable change size False False (assignment expression target)
      (assignment other (relabel change.line target)) := by
  have assigned := fun compound token right =>
    (relabel_assignedValue change.line target right (Token.site token) compound).symm
  cases target with
  | «variable» name =>
      exact .select (fun compound token => stable.bind (fun right =>
        stable_pure (congrArg (Expr.assign _) (assigned compound token right)))) (stable_pure rfl)
  | index collection position site =>
      exact .select (fun compound token => stable.bind (fun right => stable_pure
        (congrArg (fun value => Expr.indexAssign _ _ value _) (assigned compound token right))))
        (stable_pure rfl)
  | _ =>
      exact .select (fun compound token => stable.bind (fun right =>
        (stable_report token.site (by decide)).bind (fun _ => stable_pure rfl)))
        (stable_pure rfl)

/-! ## Calls and indexing -/

/-- A warning that may come first does not change what is read. -/
theorem warned_stable {α : Type} [Lined α] {warns : Prop} [Decidable warns]
    {closedWarning closed takes : Prop} {warning changedWarning : Parser Unit}
    {parser changed : Unit → Parser α}
    (stableWarning : Stable change size closedWarning False warning changedWarning)
    (stable : ∀ next, Stable change size closed takes (parser next) (changed next)) :
    Stable change size (closed ∧ (closedWarning ∨ takes)) takes
      (if warns then warning >>= parser else parser ())
      (if warns then changedWarning >>= changed else changed ()) := by
  by_cases passed : warns
  · simp only [passed, if_true]
    exact (stableWarning.bind stable).adjust id Or.inr
  · simp only [passed, if_false]
    exact (stable ()).adjust And.left id

theorem arguments_stable {fuel otherFuel : Nat} {argument changed : Parser Expr}
    (stable : Stable change size False True argument changed) (enough : size ≤ fuel)
    (otherEnough : size ≤ otherFuel) (count : Nat) :
    Stable change size False True (arguments argument fuel count)
      (arguments changed otherFuel count) := by
  refine .repeats (arguments argument) (arguments changed) (fun count => count) ?_ enough
    otherEnough count
  intro fuel otherFuel smaller within _ _ again count
  rw [arguments, arguments]
  exact .adjust (by simp) (by simp) <|
      warned_stable (stable_reportHere (by decide)) fun _ => (stable.shorter _ within).bind fun first =>
    .accept (fun _ => (again (count + 1)).bind fun others => stable_pure rfl) (stable_pure rfl)

theorem callRest_stable {fuel otherFuel : Nat} {argument changed : Parser Expr}
    (stable : Stable change size False True argument changed) (enough : size ≤ fuel)
    (otherEnough : size ≤ otherFuel) (callee : Expr) :
    Stable change size False True (callRest fuel argument callee)
      (callRest otherFuel changed (relabel change.line callee)) := by
  have close : ∀ values : List Expr, Stable change size False True
      (do
        let close ← expectAfter .rightParen "arguments"
        pure (Expr.call callee values close.site))
      (do
        let close ← expectAfter .rightParen "arguments"
        pure (Expr.call (relabel change.line callee) (relabel change.line values) close.site)) :=
    fun values =>
      .adjust (by simp) (by simp)
          ((stable_expectAfter .rightParen _).bind fun close => stable_pure (by simp))
  exact .adjust (by simp) (by simp) (.check ((stable_pure rfl).bind close)
    ((arguments_stable stable enough otherEnough 0).bind close))

theorem indexRest_stable (stable : Stable change size False True expression other) (target : Expr)
    (site : Site) :
    Stable change size False True (indexRest expression target site)
      (indexRest other (relabel change.line target) (relabel change.line site)) :=
  .adjust (by simp) (by simp) (stable.bind fun _ =>
    (stable_expectAfter .rightBracket _).bind fun _ => stable_pure rfl)

theorem suffixes_stable {fuel otherFuel : Nat} {argument changed : Parser Expr}
    (stable : Stable change (size - 1) False True expression other)
    (stableArgument : Stable change (size - 1) False True argument changed) (enough : size ≤ fuel)
    (otherEnough : size ≤ otherFuel) (target : Expr) :
    Stable change size False False (suffixes expression argument fuel target)
      (suffixes other changed otherFuel (relabel change.line target)) := by
  refine .repeats (suffixes expression argument) (suffixes other changed) (relabel change.line) ?_
    enough otherEnough target
  intro fuel otherFuel smaller within enough otherEnough again target
  exact .adjust (by simp) (by simp) (.accept
    (fun _ => (callRest_stable (stableArgument.shorter (smaller - 1) (by omega)) (by omega)
      (by omega) target).bind again)
    (.accept
      (fun bracket => (indexRest_stable (stable.shorter (smaller - 1) (by omega)) target
        bracket.site).bind again)
      (stable_pure rfl)))

/-! ## Lists, tuples and arrays -/

/-- Nothing where `stops`, and otherwise what is there. The next token decides, and
it is not taken. -/
theorem noneOr_stable {closed stops : Prop} [Decidable stops]
    {parser changed : Parser (List Expr)} (some : Stable change size closed False parser changed) :
    Stable change size closed False (if stops then pure [] else parser)
      (if stops then pure [] else changed) := by
  split
  · exact .adjust (by simp) (by simp) (stable_pure rfl)
  · exact some

theorem elements_stable {fuel otherFuel : Nat} (close : Kind)
    (stable : Stable change size False True expression other) (enough : size ≤ fuel)
    (otherEnough : size ≤ otherFuel) :
    Stable change size False False (elements expression close fuel)
      (elements other close otherFuel) := by
  refine .repeats (fun fuel _ => elements expression close fuel)
    (fun fuel _ => elements other close fuel) id ?_ enough otherEnough ()
  intro fuel otherFuel smaller within _ _ again _
  have first := stable.shorter smaller within
  refine .dispatch (noneOr_stable ?_) (fun next => .ahead (noneOr_stable ?_) next) False.elim
  all_goals
    exact .adjust (by simp) (by simp) (first.bind fun first =>
      .accept (fun _ => (again ()).bind fun others => stable_pure rfl) (stable_pure rfl))

theorem groupingRest_stable {fuel otherFuel : Nat}
    (stable : Stable change size False True expression other) (enough : size ≤ fuel)
    (otherEnough : size ≤ otherFuel) :
    Stable change size False True (groupingRest fuel expression) (groupingRest otherFuel other) := by
  exact .adjust (by simp) (by simp)
      (.accept (fun _ => stable_pure (relabel_tuple change.line []).symm)
    (stable.bind fun first => .accept
      (fun _ => (elements_stable .rightParen (stable.shorter (size - 1) (by omega)) (by omega)
        (by omega)).bind fun others => (stable_expectAfter .rightParen _).bind fun _ =>
          stable_pure (relabel_tuple change.line (first :: others)).symm)
      ((stable_expectAfter .rightParen _).bind fun _ => stable_pure rfl)))

theorem arrayRest_stable {fuel otherFuel : Nat}
    (stable : Stable change size False True expression other) (enough : size ≤ fuel)
    (otherEnough : size ≤ otherFuel) :
    Stable change size False True (arrayRest fuel expression) (arrayRest otherFuel other) :=
  .adjust (by simp) (by simp)
      ((elements_stable .rightBracket stable enough otherEnough).bind fun values =>
    (stable_expectAfter .rightBracket _).bind fun _ =>
      stable_pure (relabel_array change.line values).symm)

/-! ## Templates -/

theorem dropWhile_tokens (keep : Token → Bool) (same : ∀ token, keep (relabel change.line token) =
      keep token) (tokens : List Token)
    (spares : change.more = [] ∨ tokens.dropWhile keep ≠ []) :
    (change.tokens tokens).dropWhile keep = change.tokens (tokens.dropWhile keep) := by
  induction tokens with
  | nil =>
      have nothing := spares.resolve_right fun left => left rfl
      simp [Change.tokens, nothing]
  | cons token rest inductionHypothesis =>
      rw [Change.tokens_cons, List.dropWhile_cons, List.dropWhile_cons, same]
      rw [List.dropWhile_cons] at spares
      by_cases kept : keep token = true
      · rw [if_pos kept] at spares
        rw [if_pos kept, if_pos kept]
        exact inductionHypothesis spares
      · rw [if_neg kept, if_neg kept, Change.tokens_cons]

theorem takeWhile_tokens (keep : Token → Bool) (same : ∀ token, keep (relabel change.line token) =
      keep token) (tokens : List Token)
    (spares : change.more = [] ∨ tokens.dropWhile keep ≠ []) :
    (change.tokens tokens).takeWhile keep = relabel change.line (tokens.takeWhile keep) := by
  induction tokens with
  | nil =>
      have nothing := spares.resolve_right fun left => left rfl
      simp [Change.tokens, nothing]
  | cons token rest inductionHypothesis =>
      rw [Change.tokens_cons, List.takeWhile_cons, List.takeWhile_cons, same]
      rw [List.dropWhile_cons] at spares
      by_cases kept : keep token = true
      · rw [if_pos kept] at spares
        rw [if_pos kept, if_pos kept, inductionHypothesis spares, relabel_cons]
      · rw [if_neg kept, if_neg kept, relabel_nil]

/-- Characters behind the list would belong to the same text. -/
theorem templateText_stable {domain : List Token → Prop} :
    StableOn change domain False False templateText templateText where
  leaves _ _ _ := List.dropWhile_suffix _
  advances := False.elim
  explains _ failed := by simp [templateText] at failed
  finishes _ := by simp [templateText]
  carries := by
    intro setting other tokens _ _ spares
    have left : change.more = [] ∨
        tokens.dropWhile (fun token => decide (token.kind = .templateText)) ≠ [] :=
      spares.imp change.final fun left => left.resolve_right fun impossible => impossible.1
    have kinds : ∀ token : Token, decide ((relabel change.line token).kind = .templateText) =
        decide (token.kind = .templateText) := fun _ => rfl
    simp only [templateText, takeWhile_tokens _ kinds _ left, dropWhile_tokens _ kinds _ left]
    have folded : ∀ (texts : List Token) (start : String) (append : String → Token → String),
        (∀ text token, append text (relabel change.line token) = append text token) →
          (relabel change.line texts).foldl append start = texts.foldl append start := by
      intro texts start append same
      show (texts.map (relabel change.line)).foldl append start = _
      rw [List.foldl_map]
      simp only [same]
    rw [folded _ _ _ fun _ _ => rfl]
    rfl

@[simp] theorem relabel_textParts (line : Nat → Nat) (text : String) :
    relabel line (textParts text) = textParts text := by
  unfold textParts
  split <;> rfl

theorem templateParts_stable {fuel otherFuel : Nat}
    (stable : Stable change size False True expression other) (enough : size ≤ fuel)
    (otherEnough : size ≤ otherFuel) :
    Stable change size False True (templateParts expression fuel)
      (templateParts other otherFuel) := by
  refine .repeats (fun fuel _ => templateParts expression fuel)
    (fun fuel _ => templateParts other fuel) id ?_ enough otherEnough ()
  intro fuel otherFuel smaller within _ _ again _
  exact .adjust (by simp) (by simp) (templateText_stable.bind fun text => .accept
    (fun _ => (stable.shorter _ (by omega)).bind fun value =>
      (stable_expectAfter .rightBrace _).bind fun _ => (again ()).bind fun others =>
        stable_pure (by simp; rfl))
    ((stable_expectAfter .backtick _).bind fun _ => stable_pure (relabel_textParts _ text).symm))

/-! ## Primary expressions -/

/-- The constant that the next token stands for. -/
def constantAhead (constantOf : Literal → Option Constant) : List Token → Option Constant
  | [] => none
  | token :: _ => token.literal.bind constantOf

/-- A parser that takes a token for the constant it stands for, and reports any
other. -/
theorem literal_stable {domain : List Token → Prop} {parser : Parser Expr} {problem : Problem}
    (known : problem ≠ .tooDeep) (constantOf : Literal → Option Constant)
    (found : ∀ setting token rest value, constantAhead constantOf (token :: rest) = some value →
      parser setting (token :: rest) = ⟨some (.constant value), rest, []⟩)
    (missing : ∀ setting tokens, constantAhead constantOf tokens = none →
      parser setting tokens = failHere problem setting tokens) :
    StableOn change domain True True parser parser := by
  have fails : StableOn change domain True True (failHere problem : Parser Expr)
      (failHere problem) := stable_failHere known
  constructor
  case leaves =>
    intro setting tokens inside
    cases ahead : constantAhead constantOf tokens with
    | none =>
        rw [missing setting tokens ahead]
        exact fails.leaves setting inside
    | some value =>
        cases tokens with
        | nil => cases ahead
        | cons token rest =>
            rw [found setting token rest value ahead]
            exact List.suffix_cons token rest
  case advances =>
    intro _ setting tokens inside done
    cases ahead : constantAhead constantOf tokens with
    | none =>
        rw [missing setting tokens ahead] at done
        cases done
    | some value =>
        cases tokens with
        | nil => cases ahead
        | cons token rest =>
            rw [found setting token rest value ahead]
            exact Nat.lt_succ_self rest.length
  case explains =>
    intro setting tokens inside failed
    cases ahead : constantAhead constantOf tokens with
    | none =>
        rw [missing setting tokens ahead]
        exact fails.explains inside rfl
    | some value =>
        cases tokens with
        | nil => cases ahead
        | cons token rest =>
            rw [found setting token rest value ahead] at failed
            cases failed
  case finishes =>
    intro setting tokens inside
    cases ahead : constantAhead constantOf tokens with
    | none =>
        rw [missing setting tokens ahead]
        exact fails.finishes inside
    | some value =>
        cases tokens with
        | nil => cases ahead
        | cons token rest =>
            rw [found setting token rest value ahead]
            exact List.forall_mem_nil _
  case carries =>
    intro setting other tokens inside fits spares
    cases tokens with
    | nil =>
        rw [missing setting [] rfl] at spares ⊢
        rw [← fails.carries inside fits spares, Change.tokens_nil, change.final spares.isEnd,
          missing other [] rfl]
    | cons token rest =>
        cases ahead : constantAhead constantOf (token :: rest) with
        | none =>
            rw [missing setting _ ahead] at spares ⊢
            rw [← fails.carries inside fits spares, Change.tokens_cons,
              missing other (relabel change.line token :: change.tokens rest) ahead]
        | some value =>
            rw [found setting token rest value ahead, Change.tokens_cons,
              found other (relabel change.line token) (change.tokens rest) value ahead]
            rfl

def numberConstant? : Literal → Option Constant
  | .number value => some (.number value)
  | _ => none

def stringConstant? : Literal → Option Constant
  | .text value => some (.string value)
  | _ => none

theorem numberLiteral_stable {domain : List Token → Prop} :
    StableOn change domain True True numberLiteral numberLiteral := by
  refine literal_stable (show Problem.malformedNumber ≠ .tooDeep by decide) numberConstant? ?_ ?_
  · rintro setting ⟨kind, lexeme, literal, line⟩ rest value ahead
    rcases literal with _ | ⟨_ | _ | _⟩ <;> cases ahead
    rfl
  · rintro setting (_ | ⟨⟨kind, lexeme, literal, line⟩, rest⟩) ahead
    · rfl
    · rcases literal with _ | ⟨_ | _ | _⟩ <;> cases ahead <;> rfl

theorem stringLiteral_stable {domain : List Token → Prop} :
    StableOn change domain True True stringLiteral stringLiteral := by
  refine literal_stable (show Problem.malformedString ≠ .tooDeep by decide) stringConstant? ?_ ?_
  · rintro setting ⟨kind, lexeme, literal, line⟩ rest value ahead
    rcases literal with _ | ⟨_ | _ | _⟩ <;> cases ahead
    rfl
  · rintro setting (_ | ⟨⟨kind, lexeme, literal, line⟩, rest⟩) ahead
    · rfl
    · rcases literal with _ | ⟨_ | _ | _⟩ <;> cases ahead <;> rfl

/-- The side that a `maybe` shows is looked up by the number of tokens from it
on, which is one that the settings agree on. -/
theorem maybe_stable {next : Bool → Parser Expr} {takesRest : Prop}
    (stable : ∀ side, Stable change (size - 1) closed takesRest (next side) (next side)) :
    StableOn change (Ahead size .maybeWord) closed True (toss >>= fun side => taking (next side))
      (toss >>= fun side => taking (next side)) := by
  have tossed : ∀ (setting : Setting) (tokens : List Token),
      (toss >>= fun side => taking (next side)) setting tokens =
        taking (next (setting.coin tokens.length)) setting tokens := fun _ _ => rfl
  have takes := fun side => (stable side).taking .maybeWord
  constructor
  case leaves =>
    intro setting tokens inside
    rw [tossed]
    exact (takes _).leaves setting inside
  case advances =>
    intro _ setting tokens inside done
    rw [tossed] at done ⊢
    exact (takes _).advances trivial inside done
  case explains =>
    intro setting tokens inside failed
    rw [tossed] at failed ⊢
    exact (takes _).explains inside failed
  case finishes =>
    intro setting tokens inside
    rw [tossed]
    exact (takes _).finishes inside
  case carries =>
    rintro setting other tokens ⟨token, rest, rfl, kind, short⟩ fits spares
    have sameSide : other.coin (change.tokens (token :: rest)).length =
        setting.coin (token :: rest).length := by
      have agreed := fits.coin token rest (List.suffix_refl _) kind
      simpa [Change.tokens, Nat.add_right_comm] using agreed
    rw [tossed] at spares ⊢
    rw [tossed, sameSide]
    exact (takes _).carries ⟨token, rest, rfl, kind, short⟩ fits spares

theorem primaryRule_stable {fuel otherFuel : Nat}
    (stable : Stable change (size - 1) False True expression other) (enough : size - 1 ≤ fuel)
    (otherEnough : size - 1 ≤ otherFuel) :
    Stable change size False True (primaryRule fuel expression) (primaryRule otherFuel other) := by
  refine .dispatch ((stable_failHere (by decide)).adjust (by simp) (by simp)) (fun kind => ?_) False.elim
  cases kind with
  | trueWord => exact .adjust (by simp) (by simp) ((stable_pure rfl).taking _)
  | falseWord => exact .adjust (by simp) (by simp) ((stable_pure rfl).taking _)
  | nilWord => exact .adjust (by simp) (by simp) ((stable_pure rfl).taking _)
  | maybeWord => exact (maybe_stable fun _ => stable_pure rfl).adjust (by simp) (by simp)
  | number => exact numberLiteral_stable.adjust (by simp) (by simp)
  | string => exact stringLiteral_stable.adjust (by simp) (by simp)
  | identifier =>
      have named : Stable change size False True
          (do
            let name ← identifier .expression
            pure (Expr.variable name))
          (do
            let name ← identifier .expression
            pure (Expr.variable name)) :=
        .adjust (by simp) (by simp) ((identifier_stable _).bind fun name => stable_pure rfl)
      exact named.ahead _
  | leftParen => exact (groupingRest_stable stable enough otherEnough).taking _
  | leftBracket => exact (arrayRest_stable stable enough otherEnough).taking _
  | backtick =>
      have template : Stable change (size - 1) False True
          (do
            let parts ← templateParts expression fuel
            pure (Expr.template parts))
          (do
            let parts ← templateParts other otherFuel
            pure (Expr.template parts)) :=
        .adjust (by simp) (by simp)
            ((templateParts_stable stable enough otherEnough).bind fun parts =>
          stable_pure (relabel_template change.line parts).symm)
      exact template.taking _
  | _ => exact (stable_failHere (by decide)).adjust (by simp) (by simp)

end Rules

end Scriptlet.Grammar
