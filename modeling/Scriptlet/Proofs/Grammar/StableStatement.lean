import Scriptlet.Proofs.Grammar.StableExpression

/-!
Contract: the grammar is stable.

Owns: the stability of the rules for statements, given that of their parts, and
of the parsers tied together (`grammar_stable`). A rule that repeats needs as
much fuel as there are tokens; the parsers need twenty uses of rules for each
token.

A body is closed, since it ends with its brace. A statement is closed as long as
what follows does not go on with it (`Separate`).
-/

set_option autoImplicit false

namespace Scriptlet.Grammar

open Scriptlet.Parser

section Rules

variable {change : Change} {size : Nat} {closed : Prop} {fuel otherFuel : Nat}
  {expression other : Parser Expr} {statement otherStatement : Parser Stmt}
  {body otherBody : Parser (List Stmt)}

/-! ## Declarations -/

theorem varRest_stable (stable : Stable change size False True expression other) :
    Stable change size True True (varRest expression) (varRest other) := by
  have close : ∀ (name : Name) (initial : Option Expr), Stable change size True True
      (do
        let _ ← expectAfter .semicolon "variable declaration"
        pure (Stmt.var name initial))
      (do
        let _ ← expectAfter .semicolon "variable declaration"
        pure (Stmt.var (relabel change.line name) (relabel change.line initial))) :=
    fun name initial => .adjust (by simp) (by simp) ((stable_expectAfter .semicolon _).bind fun _ =>
      stable_pure (relabel_var change.line name initial).symm)
  have present : Stable change (size - 1) False True (some <$> expression) (some <$> other) :=
    (stable.shorter _ (by omega)).map fun _ => rfl
  exact .adjust (by simp) (by simp) ((identifier_stable _).bind fun name => .accept
    (fun _ => present.bind fun initial => (close name initial).shorter _ (by omega))
    ((stable_pure rfl).bind (close name)))

theorem constRest_stable (stable : Stable change size False True expression other) :
    Stable change size True True (constRest expression) (constRest other) :=
  .adjust (by simp) (by simp) ((identifier_stable _).bind fun name =>
    (stable_expectAfter .equal _).bind fun _ => stable.bind fun initial =>
      (stable_expectAfter .semicolon _).bind fun _ => stable_pure rfl)

theorem parameters_stable (enough : size ≤ fuel) (otherEnough : size ≤ otherFuel) (count : Nat) :
    Stable change size False True (parameters fuel count) (parameters otherFuel count) := by
  refine .repeats parameters parameters (fun count => count) ?_ enough otherEnough count
  intro fuel otherFuel smaller _ _ _ again count
  rw [parameters, parameters]
  exact .adjust (by simp) (by simp) <|
      warned_stable (stable_reportHere (by decide)) fun _ => (identifier_stable _).bind
    fun first => .accept (fun _ => (again (count + 1)).bind fun others => stable_pure rfl)
      (stable_pure rfl)

theorem functionRest_stable (stable : Stable change size True True body otherBody)
    (enough : size ≤ fuel) (otherEnough : size ≤ otherFuel) :
    Stable change size True True (functionRest fuel body) (functionRest otherFuel otherBody) := by
  have close : ∀ names : List Name, Stable change size True True
      (do
        let _ ← expectAfter .rightParen "parameters"
        let _ ← expectBefore .leftBrace "function body"
        let statements ← body
        pure (names, statements))
      (do
        let _ ← expectAfter .rightParen "parameters"
        let _ ← expectBefore .leftBrace "function body"
        let statements ← otherBody
        pure (relabel change.line names, statements)) :=
    fun names => .adjust (by simp) (by simp) ((stable_expectAfter .rightParen _).bind fun _ =>
      (stable_expectBefore .leftBrace _).bind fun _ => stable.bind fun statements =>
        stable_pure rfl)
  exact .adjust (by simp) (by simp) (.check ((stable_pure rfl).bind close)
    ((parameters_stable enough otherEnough 0).bind close))

theorem functionDeclaration_stable (stable : Stable change size True True body otherBody)
    (enough : size ≤ fuel) (otherEnough : size ≤ otherFuel) :
    Stable change size True True (functionDeclaration fuel body)
      (functionDeclaration otherFuel otherBody) :=
  .adjust (by simp) (by simp)
      ((identifier_stable _).bind fun name => (stable_expectAfter .leftParen _).bind fun _ =>
    (functionRest_stable stable enough otherEnough).bind fun function =>
      stable_pure (relabel_function change.line name function.1 function.2).symm)

theorem argumentRule_stable (stable : Stable change size False True expression other)
    (stableBody : Stable change (size - 1) True True body otherBody) (enough : size ≤ fuel)
    (otherEnough : size ≤ otherFuel) :
    Stable change size False True (argumentRule fuel expression body)
      (argumentRule otherFuel other otherBody) :=
  .adjust (by simp) (by simp) (.accept
    (fun _ => (stable_expectAfter .leftParen _).bind fun _ =>
      (functionRest_stable stableBody (by omega) (by omega)).bind fun function =>
        stable_pure (relabel_lambda change.line function.1 function.2).symm)
    stable)

/-! ## Bodies -/

theorem jumpRest_stable {jump : Stmt} (keyword : String) (same : relabel change.line jump = jump) :
    Stable change size True True (jumpRest jump keyword) (jumpRest jump keyword) :=
  .adjust (by simp) (by simp)
      ((stable_expectAfter .semicolon _).bind fun _ => stable_pure same.symm)

theorem bodyStatement_stable {declaration changed : Parser Stmt}
    (stable : Stable change size closed True declaration changed) :
    Stable change size False True (bodyStatement declaration) (bodyStatement changed) :=
  .adjust (by simp) (by simp) (.accept (fun _ => jumpRest_stable _ rfl)
    (.accept (fun _ => jumpRest_stable _ rfl) stable))

/-- A statement that cannot be read is skipped, which takes a token of the body
at least. The brace at the end closes the body. -/
theorem bodyRest_stable {declaration changed : Parser Stmt}
    (stable : Stable change size closed True declaration changed) (enough : size ≤ fuel)
    (otherEnough : size ≤ otherFuel) :
    Stable change size True True (bodyRest declaration fuel) (bodyRest changed otherFuel) := by
  refine .repeats (fun fuel _ => bodyRest declaration fuel) (fun fuel _ => bodyRest changed fuel) id
    ?_ enough otherEnough ()
  intro fuel otherFuel smaller within _ _ again _
  have ends : Stable change smaller True True
      (do
        let _ ← expectAfter .rightBrace "block"
        pure ([] : List Stmt))
      (do
        let _ ← expectAfter .rightBrace "block"
        pure []) :=
    .adjust (by simp) (by simp) ((stable_expectAfter .rightBrace _).bind fun _ => stable_pure rfl)
  refine .dispatch ?_ (fun next => ?_) id
  · simp only [or_true, if_true]
    exact ends
  · by_cases stops : next = .rightBrace ∨ next = .endOfInput
    · simp only [stops, if_true]
      exact ends.ahead next
    · simp only [stops, if_false]
      have first := (bodyStatement_stable (stable.shorter smaller within)).recovered next
      exact first.bindOn
        (fun value => .adjust (by simp) (by simp)
            ((again ()).bind fun others => stable_pure (by simp [relabel_toList])))
        (by
          rintro setting tokens value ⟨token, rest, rfl, kind, short⟩ outcome
          have shorter := first.advances trivial ⟨token, rest, rfl, kind, short⟩
            (by rw [outcome]; rfl)
          have bound : (token :: rest).length < smaller := short
          show List.length _ < smaller - 1
          omega)
        (fun _ => Or.inr trivial) (fun _ => Or.inl trivial)

/-! ## Statements -/

theorem printRest_stable (stable : Stable change size False True expression other) :
    Stable change size True True (printRest expression) (printRest other) :=
  .adjust (by simp) (by simp)
      (stable.bind fun value => (stable_expectAfter .semicolon _).bind fun _ =>
    stable_pure rfl)

/-- What follows an `if` is its own only if it is an `else`. -/
theorem else_stable {next changedNext : Option Token → Parser Stmt}
    (taken : ∀ token, Stable change (size - 1) (Separate change.more) True (next (some token))
      (changedNext (some (relabel change.line token))))
    (absent : Stable change size True False (next none) (changedNext none)) :
    Stable change size (Separate change.more) False (accept .elseWord >>= next)
      (accept .elseWord >>= changedNext) :=
  .adjust (fun separate => by simp [separate, separate.elseWord]) (by simp) (.accept taken absent)

/-- An `else` behind a branch would belong to it. -/
theorem ifRest_stable (stable : Stable change size False True expression other)
    (stableStatement : Stable change size (Separate change.more) True statement otherStatement) :
    Stable change size (Separate change.more) True (ifRest expression statement)
      (ifRest other otherStatement) := by
  have shorter := stableStatement.shorter (size - 1) (Nat.sub_le size 1)
  exact .adjust (by simp) (by simp)
    ((stable_expectAfter .leftParen _).bind fun _ => stable.bind fun condition =>
      (stable_expectAfter .rightParen _).bind fun _ => stableStatement.bind fun consequent =>
        else_stable (fun _ => .adjust (by simp) (by simp) (shorter.bind fun alternative =>
          stable_pure rfl)) (stable_pure rfl))

theorem whileRest_stable (stable : Stable change size False True expression other)
    (stableStatement : Stable change size (Separate change.more) True statement otherStatement) :
    Stable change size (Separate change.more) True (whileRest expression statement)
      (whileRest other otherStatement) :=
  .adjust (by simp) (by simp)
      ((stable_expectAfter .leftParen _).bind fun _ => stable.bind fun condition =>
    (stable_expectAfter .rightParen _).bind fun _ => stableStatement.bind fun body =>
      stable_pure rfl)

theorem forInitial_stable (stable : Stable change size False True expression other) :
    Stable change size True True (forInitial expression) (forInitial other) := by
  have declared : Stable change (size - 1) True True (some <$> varRest expression)
      (some <$> varRest other) :=
    (varRest_stable (stable.shorter _ (by omega))).map fun _ => rfl
  exact .adjust (by simp) (by simp) (.accept (fun _ => stable_pure rfl) (.accept (fun _ => declared)
    (stable.bind fun value => (stable_expectAfter .semicolon _).bind fun _ => stable_pure rfl)))

theorem optional_stable (close : Kind) (stable : Stable change size False True expression other) :
    Stable change size False False (optional expression close) (optional other close) := by
  have present : Stable change size False True (some <$> expression) (some <$> other) :=
    stable.map fun _ => rfl
  exact .adjust (by simp) (by simp) (.check (stable_pure rfl) present)

theorem forRest_stable (stable : Stable change size False True expression other)
    (stableStatement : Stable change size (Separate change.more) True statement otherStatement) :
    Stable change size (Separate change.more) True (forRest expression statement)
      (forRest other otherStatement) :=
  .adjust (by simp) (by simp) ((stable_expectAfter .leftParen _).bind fun _ =>
    (forInitial_stable stable).bind fun initial =>
      (optional_stable .semicolon stable).bind fun condition =>
        (stable_expectAfter .semicolon _).bind fun _ =>
          (optional_stable .rightParen stable).bind fun increment =>
            (stable_expectAfter .rightParen _).bind fun _ => stableStatement.bind fun body =>
              stable_pure (relabel_forLoop change.line initial condition increment body).symm)

/-- A `case` or `default` behind the cases would belong to them. -/
theorem cases_stable (stable : Stable change (size - 1) False True expression other)
    (stableBody : Stable change (size - 1) True True body otherBody) (enough : size ≤ fuel)
    (otherEnough : size ≤ otherFuel) (hasFallback : Bool) :
    Stable change size (Separate change.more) False (cases expression body fuel hasFallback)
      (cases other otherBody otherFuel hasFallback) := by
  refine .repeats (cases expression body) (cases other otherBody) (fun hasFallback => hasFallback)
    ?_ enough otherEnough hasFallback
  intro fuel otherFuel smaller within _ _ again hasFallback
  have stableBody := stableBody.shorter (smaller - 1) (by omega)
  have labelled : Stable change (smaller - 1) (Separate change.more) True
      (do
        let label ← expression
        let _ ← expectAfter .colon "case expression"
        let _ ← expectBefore .leftBrace "case body"
        let statements ← body
        let others ← cases expression body fuel hasFallback
        pure (.labelled label statements :: others))
      (do
        let label ← other
        let _ ← expectAfter .colon "case expression"
        let _ ← expectBefore .leftBrace "case body"
        let statements ← otherBody
        let others ← cases other otherBody otherFuel hasFallback
        pure (.labelled label statements :: others)) :=
    .adjust (by simp) (by simp) ((stable.shorter _ (by omega)).bind fun label =>
      (stable_expectAfter .colon _).bind fun _ => (stable_expectBefore .leftBrace _).bind fun _ =>
        stableBody.bind fun statements => (again hasFallback).bind fun others =>
          stable_pure (congrArg (· :: _) (relabel_labelled change.line label statements).symm))
  have fallback : ∀ next : Unit, Stable change (smaller - 1) (Separate change.more) True
      (do
        let _ ← expectAfter .colon "'default'"
        let _ ← expectBefore .leftBrace "case body"
        let statements ← body
        let others ← cases expression body fuel true
        pure (.fallback statements :: others))
      (do
        let _ ← expectAfter .colon "'default'"
        let _ ← expectBefore .leftBrace "case body"
        let statements ← otherBody
        let others ← cases other otherBody otherFuel true
        pure (.fallback statements :: others)) :=
    fun _ => .adjust (by simp) (by simp) ((stable_expectAfter .colon _).bind fun _ =>
      (stable_expectBefore .leftBrace _).bind fun _ => stableBody.bind fun statements =>
        (again true).bind fun others =>
          stable_pure (congrArg (· :: _) (relabel_fallback change.line statements).symm))
  rw [cases, cases]
  exact .adjust (fun separate => by simp [separate, separate.caseWord, separate.defaultWord])
    (by simp)
    (.accept (fun _ => labelled) (.accept
      (fun keyword => warned_stable (stable_report keyword.site (by decide)) fallback)
      (stable_pure rfl)))

theorem switchRest_stable (stable : Stable change size False True expression other)
    (stableBody : Stable change size True True body otherBody) (enough : size ≤ fuel)
    (otherEnough : size ≤ otherFuel) :
    Stable change size (Separate change.more) True (switchRest fuel expression body)
      (switchRest otherFuel other otherBody) :=
  .adjust (by simp) (by simp) (stable.bind fun rule => (stable_expectAfter .colon _).bind fun _ =>
    (cases_stable (stable.shorter _ (by omega)) (stableBody.shorter _ (by omega)) enough otherEnough
      false).bind fun all => stable_pure (relabel_switch change.line rule all).symm)

theorem furtherValues_stable (stable : Stable change (size - 1) False True expression other)
    (enough : size ≤ fuel) (otherEnough : size ≤ otherFuel) :
    Stable change size False False (furtherValues expression fuel)
      (furtherValues other otherFuel) := by
  refine .repeats (fun fuel _ => furtherValues expression fuel)
    (fun fuel _ => furtherValues other fuel) id ?_ enough otherEnough ()
  intro fuel otherFuel smaller within _ _ again _
  exact .adjust (by simp) (by simp) (.accept
    (fun _ => (stable.shorter _ (by omega)).bind fun first => (again ()).bind fun others =>
      stable_pure rfl)
    (stable_pure rfl))

theorem returnRest_stable (stable : Stable change size False True expression other)
    (enough : size ≤ fuel) (otherEnough : size ≤ otherFuel) :
    Stable change size True True (returnRest fuel expression) (returnRest otherFuel other) := by
  have value : ∀ (first : Expr) (others : List Expr),
      Stmt.result (some (if (relabel change.line others).isEmpty then relabel change.line first
        else .tuple (relabel change.line first :: relabel change.line others))) =
      relabel change.line (Stmt.result (some (if others.isEmpty then first
        else .tuple (first :: others)))) := by
    intro first others
    cases others with
    | nil => rfl
    | cons second others =>
        rw [relabel_result, relabel_some]
        exact congrArg (fun tuple => Stmt.result (some tuple))
          (relabel_tuple change.line (first :: second :: others)).symm
  exact .adjust (by simp) (by simp) (.accept (fun _ => stable_pure rfl) (stable.bind fun first =>
    (furtherValues_stable (stable.shorter _ (by omega)) enough otherEnough).bind fun others =>
      (stable_expectAfter .semicolon _).bind fun _ => stable_pure (value first others)))

theorem expressionStatement_stable (stable : Stable change size False True expression other) :
    Stable change size True True (expressionStatement expression) (expressionStatement other) :=
  .adjust (by simp) (by simp)
      (stable.bind fun value => (stable_expectAfter .semicolon _).bind fun _ =>
    stable_pure rfl)

theorem statementRule_stable (stable : Stable change size False True expression other)
    (stableStatement : Stable change (size - 1) (Separate change.more) True statement otherStatement)
    (stableBody : Stable change (size - 1) True True body otherBody) (enough : size ≤ fuel)
    (otherEnough : size ≤ otherFuel) :
    Stable change size (Separate change.more) True (statementRule fuel expression statement body)
      (statementRule otherFuel other otherStatement otherBody) := by
  have value : Stable change size (Separate change.more) True (expressionStatement expression)
      (expressionStatement other) := (expressionStatement_stable stable).adjust (by simp) (by simp)
  have inner := stable.shorter (size - 1) (by omega)
  have block : Stable change (size - 1) True True (Stmt.block <$> body)
      (Stmt.block <$> otherBody) :=
    stableBody.map fun statements => (relabel_block change.line statements).symm
  have enough : size - 1 ≤ fuel := by omega
  have otherEnough : size - 1 ≤ otherFuel := by omega
  refine .dispatch value (fun kind => ?_) fun _ => trivial
  cases kind with
  | printWord => exact ((printRest_stable inner).taking _).adjust (by simp) (by simp)
  | leftBrace => exact (block.taking _).adjust (by simp) (by simp)
  | ifWord => exact (ifRest_stable inner stableStatement).taking _
  | forWord => exact (forRest_stable inner stableStatement).taking _
  | whileWord => exact (whileRest_stable inner stableStatement).taking _
  | switchWord => exact (switchRest_stable inner stableBody enough otherEnough).taking _
  | returnWord =>
      exact ((returnRest_stable inner enough otherEnough).taking _).adjust (by simp) (by simp)
  | _ => exact value.ahead _

theorem declarationRule_stable (stable : Stable change (size - 1) False True expression other)
    (stableStatement : Stable change size (Separate change.more) True statement otherStatement)
    (stableBody : Stable change (size - 1) True True body otherBody) (enough : size ≤ fuel)
    (otherEnough : size ≤ otherFuel) :
    Stable change size (Separate change.more) True (declarationRule fuel expression statement body)
      (declarationRule otherFuel other otherStatement otherBody) := by
  have enough : size - 1 ≤ fuel := by omega
  have otherEnough : size - 1 ≤ otherFuel := by omega
  refine .dispatch stableStatement (fun kind => ?_) fun _ => trivial
  cases kind with
  | funWord =>
      exact ((functionDeclaration_stable stableBody enough otherEnough).taking _).adjust (by simp)
        (by simp)
  | varWord => exact ((varRest_stable stable).taking _).adjust (by simp) (by simp)
  | constWord => exact ((constRest_stable stable).taking _).adjust (by simp) (by simp)
  | _ => exact stableStatement.ahead _

end Rules

/-! ## The grammar tied together

The parsers are stable on lists of fewer than `size` tokens at depths from twenty
times `size` on. A rule that has taken a token uses others on shorter lists; the
eleven uses that take none are counted. -/

/-- How many levels are tighter. -/
def Level.height : Level → Nat
  | .factor => 0
  | .term => 1
  | .comparison => 2
  | .equality => 3
  | .conjunction => 4
  | .disjunction => 5

/-- Two depths that are enough. -/
def Deep (bound depth other : Nat) : Prop :=
  bound ≤ depth ∧ bound ≤ other

theorem Deep.of_le {bound lower depth other : Nat} (deep : Deep bound depth other)
    (le : lower ≤ bound) : Deep lower depth other :=
  ⟨Nat.le_trans le deep.1, Nat.le_trans le deep.2⟩

/-- A rule is used at one depth more than its parts. -/
theorem Deep.parts {bound depth other : Nat} (deep : Deep (bound + 1) depth other) :
    ∃ inner innerOther, depth = inner + 1 ∧ other = innerOther + 1 ∧
      Deep bound inner innerOther :=
  ⟨depth - 1, other - 1, (Nat.sub_add_cancel (Nat.le_trans (Nat.le_add_left 1 bound) deep.1)).symm,
    (Nat.sub_add_cancel (Nat.le_trans (Nat.le_add_left 1 bound) deep.2)).symm,
    Nat.le_sub_one_of_lt deep.1, Nat.le_sub_one_of_lt deep.2⟩

structure GrammarStable (change : Change) (size : Nat) : Prop where
  suffixed : ∀ {depth other}, Deep (20 * size) depth other →
    Stable change size False True (suffixed depth) (suffixed other)
  unary : ∀ {depth other}, Deep (20 * size + 1) depth other →
    Stable change size False True (unary depth) (unary other)
  operation : ∀ level {depth other}, Deep (20 * size + 2 + level.height) depth other →
    Stable change size False True (operation depth level) (operation other level)
  expression : ∀ {depth other}, Deep (20 * size + 8) depth other →
    Stable change size False True (expression depth) (expression other)
  argument : ∀ {depth other}, Deep (20 * size + 9) depth other →
    Stable change size False True (argument depth) (argument other)
  statement : ∀ {depth other}, Deep (20 * size + 9) depth other →
    Stable change size (Separate change.more) True (statement depth) (statement other)
  declaration : ∀ {depth other}, Deep (20 * size + 10) depth other →
    Stable change size (Separate change.more) True (declaration depth) (declaration other)
  body : ∀ {depth other}, Deep (20 * size + 11) depth other →
    Stable change size True True (body depth) (body other)

theorem GrammarStable.zero (change : Change) : GrammarStable change 0 where
  suffixed _ := .none_below _ _
  unary _ := .none_below _ _
  operation _ _ _ _ := .none_below _ _
  expression _ := .none_below _ _
  argument _ := .none_below _ _
  statement _ := .none_below _ _
  declaration _ := .none_below _ _
  body _ := .none_below _ _

section Step

variable {change : Change} {size depth other : Nat}

theorem GrammarStable.suffixed_succ (shorter : GrammarStable change size)
    (deep : Deep (20 * (size + 1)) depth other) :
    Stable change (size + 1) False True (Grammar.suffixed depth) (Grammar.suffixed other) := by
  obtain ⟨inner, innerOther, rfl, rfl, deeper⟩ :=
    (show Deep (20 * size + 19 + 1) depth other from deep).parts
  have value := shorter.expression (deeper.of_le (by omega))
  have argument := shorter.argument (deeper.of_le (by omega))
  have enough : size + 1 ≤ inner := (deeper.of_le (by omega)).1
  have otherEnough : size + 1 ≤ innerOther := (deeper.of_le (by omega)).2
  exact .adjust (by simp) (by simp) ((primaryRule_stable value (by omega) (by omega)).bind
    (suffixes_stable value argument enough otherEnough))

theorem GrammarStable.unary_succ (shorter : GrammarStable change size)
    (deep : Deep (20 * (size + 1) + 1) depth other) :
    Stable change (size + 1) False True (Grammar.unary depth) (Grammar.unary other) := by
  obtain ⟨inner, innerOther, rfl, rfl, deeper⟩ := deep.parts
  have operand := shorter.unary (deeper.of_le (by omega))
  exact .adjust (by simp) (by simp)
      (.select (fun op token => operand.bind fun value => stable_pure rfl)
    (shorter.suffixed_succ deeper))

/-- The parser of the operands of a level. -/
def operandAt (depth : Nat) (level : Level) : Parser Expr :=
  match level.tighter? with
  | some tighter => Grammar.operation depth tighter
  | none => Grammar.unary depth

theorem operation_stable (level : Level)
    (stable : Stable change size False True (operandAt depth level) (operandAt other level))
    (enough : size ≤ depth) (otherEnough : size ≤ other) :
    Stable change size False True (Grammar.operation (depth + 1) level)
      (Grammar.operation (other + 1) level) :=
  .adjust (by simp) (by simp) (stable.bind (operations_stable level stable enough otherEnough))

theorem GrammarStable.operation_succ (shorter : GrammarStable change size) (level : Level)
    (deep : Deep (20 * (size + 1) + 2 + level.height) depth other) :
    Stable change (size + 1) False True (Grammar.operation depth level)
      (Grammar.operation other level) := by
  have factor : ∀ depth other, Deep (20 * (size + 1) + 2) depth other →
      Stable change (size + 1) False True (Grammar.operation depth .factor)
        (Grammar.operation other .factor) := by
    intro depth other deep
    obtain ⟨inner, innerOther, rfl, rfl, deeper⟩ := deep.parts
    exact operation_stable .factor (shorter.unary_succ deeper) (deeper.of_le (by omega)).1
      (deeper.of_le (by omega)).2
  -- from each level to the next looser one
  have looser : ∀ {bound : Nat} (level tighter : Level), level.tighter? = some tighter →
      size + 1 ≤ bound →
      (∀ depth other, Deep bound depth other → Stable change (size + 1) False True
        (Grammar.operation depth tighter) (Grammar.operation other tighter)) →
      ∀ depth other, Deep (bound + 1) depth other → Stable change (size + 1) False True
        (Grammar.operation depth level) (Grammar.operation other level) := by
    intro bound level tighter isTighter enough operand depth other deep
    obtain ⟨inner, innerOther, rfl, rfl, deeper⟩ := deep.parts
    refine operation_stable level ?_ (deeper.of_le enough).1 (deeper.of_le enough).2
    rw [operandAt, operandAt, isTighter]
    exact operand _ _ deeper
  have term := looser .term .factor rfl (by omega) factor
  have comparison := looser .comparison .term rfl (by omega) term
  have equality := looser .equality .comparison rfl (by omega) comparison
  have conjunction := looser .conjunction .equality rfl (by omega) equality
  have disjunction := looser .disjunction .conjunction rfl (by omega) conjunction
  cases level with
  | factor => exact factor _ _ deep
  | term => exact term _ _ deep
  | comparison => exact comparison _ _ deep
  | equality => exact equality _ _ deep
  | conjunction => exact conjunction _ _ deep
  | disjunction => exact disjunction _ _ deep

theorem GrammarStable.expression_succ (shorter : GrammarStable change size)
    (deep : Deep (20 * (size + 1) + 8) depth other) :
    Stable change (size + 1) False True (Grammar.expression depth) (Grammar.expression other) := by
  obtain ⟨inner, innerOther, rfl, rfl, deeper⟩ := deep.parts
  have value := shorter.expression (deeper.of_le (by omega))
  exact .adjust (by simp) (by simp)
      ((shorter.operation_succ .disjunction deeper).bind (assignment_stable value))

theorem GrammarStable.argument_succ (shorter : GrammarStable change size)
    (deep : Deep (20 * (size + 1) + 9) depth other) :
    Stable change (size + 1) False True (Grammar.argument depth) (Grammar.argument other) := by
  obtain ⟨inner, innerOther, rfl, rfl, deeper⟩ := deep.parts
  exact argumentRule_stable (shorter.expression_succ deeper) (shorter.body (deeper.of_le (by omega)))
    (deeper.of_le (by omega)).1 (deeper.of_le (by omega)).2

theorem GrammarStable.statement_succ (shorter : GrammarStable change size)
    (deep : Deep (20 * (size + 1) + 9) depth other) :
    Stable change (size + 1) (Separate change.more) True (Grammar.statement depth)
      (Grammar.statement other) := by
  obtain ⟨inner, innerOther, rfl, rfl, deeper⟩ := deep.parts
  exact statementRule_stable (shorter.expression_succ deeper)
    (shorter.statement (deeper.of_le (by omega))) (shorter.body (deeper.of_le (by omega)))
    (deeper.of_le (by omega)).1 (deeper.of_le (by omega)).2

theorem GrammarStable.declaration_succ (shorter : GrammarStable change size)
    (deep : Deep (20 * (size + 1) + 10) depth other) :
    Stable change (size + 1) (Separate change.more) True (Grammar.declaration depth)
      (Grammar.declaration other) := by
  obtain ⟨inner, innerOther, rfl, rfl, deeper⟩ := deep.parts
  exact declarationRule_stable (shorter.expression (deeper.of_le (by omega)))
    (shorter.statement_succ deeper) (shorter.body (deeper.of_le (by omega)))
    (deeper.of_le (by omega)).1 (deeper.of_le (by omega)).2

theorem GrammarStable.body_succ (shorter : GrammarStable change size)
    (deep : Deep (20 * (size + 1) + 11) depth other) :
    Stable change (size + 1) True True (Grammar.body depth) (Grammar.body other) := by
  obtain ⟨inner, innerOther, rfl, rfl, deeper⟩ := deep.parts
  exact bodyRest_stable (shorter.declaration_succ deeper) (deeper.of_le (by omega)).1
    (deeper.of_le (by omega)).2

end Step

theorem grammar_stable (change : Change) (size : Nat) : GrammarStable change size := by
  induction size with
  | zero => exact .zero change
  | succ size inductionHypothesis =>
      exact {
        suffixed := inductionHypothesis.suffixed_succ
        unary := inductionHypothesis.unary_succ
        operation := fun level {_ _} => inductionHypothesis.operation_succ level
        expression := inductionHypothesis.expression_succ
        argument := inductionHypothesis.argument_succ
        statement := inductionHypothesis.statement_succ
        declaration := inductionHypothesis.declaration_succ
        body := inductionHypothesis.body_succ }

end Scriptlet.Grammar
