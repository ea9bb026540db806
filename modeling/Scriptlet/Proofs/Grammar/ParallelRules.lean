import Scriptlet.Grammar.Program
import Scriptlet.Proofs.Grammar.Parallel
import Scriptlet.Proofs.Grammar.Soundness
import Scriptlet.Proofs.Grammar.StableExpression
import Scriptlet.Proofs.Tree.Alike

/-!
Contract: tokens that differ only in symbols are read as trees that do.

Owns: one law for each rule of the grammar, over the parsers of its parts, and
the main statement `parse_alike`: whatever the tokens, and whatever is wrong with
them, the programs read from them are alike. Of one list of tokens it says that
no declaration is read as the body of a branch or a loop (`parse_placed`).

Does not own: `Parallel` and its rules (`Scriptlet.Proofs.Grammar.Parallel`), and
what a clean list of tokens stands for (`Scriptlet.Proofs.Grammar.Soundness`).
-/

set_option autoImplicit false

namespace Scriptlet

namespace Grammar

open Scriptlet.Parser

/-! ## Expressions -/

section Expressions

variable {like : Likeness}

/-- Expressions that are alike are read. -/
abbrev ReadsAlike (like : Likeness) (parser : Parser Expr) : Prop :=
  Parallel like (Expr.Alike like.symbols) parser parser

/-- Lists of expressions, one by one. -/
abbrev ExprsAlike (like : Likeness) : List Expr → List Expr → Prop :=
  List.Forall₂ (Expr.Alike like.symbols)

variable {expression argument operand : Parser Expr}

theorem identifier_parallel (what : Expectation) :
    Parallel like (Name.Alike like.symbols) (identifier what) (identifier what) := by
  refine (Parallel.expect .identifier what).bind fun token token' alike => ?_
  have literals := alike.literal
  rcases token with ⟨kind, lexeme, literal, line⟩
  rcases token' with ⟨kind', lexeme', literal', line'⟩
  cases literals with
  | none => exact .fail alike.site _
  | some same =>
      cases same with
      | number value => exact .fail alike.site _
      | text value => exact .fail alike.site _
      | identifier same => exact .pure ⟨same, alike.line⟩

theorem join_alike {left left' right right' : Expr} {symbols : Symbol → Symbol → Prop}
    (connective : Connective) (first : left.Alike symbols left')
    (second : right.Alike symbols right') (site : Site) :
    (connective.join left right site).Alike symbols (connective.join left' right' site) := by
  cases connective with
  | logical op => exact .logical first op second
  | binary op => exact .binary first op second site

theorem operations_parallel {level : Level} (reads : ReadsAlike like operand) (fuel : Nat)
    {left left' : Expr} (first : left.Alike like.symbols left') :
    Parallel like (Expr.Alike like.symbols) (operations level operand fuel left)
      (operations level operand fuel left') := by
  induction fuel generalizing left left' with
  | zero => exact .exhausted
  | succ fuel inductionHypothesis =>
      refine .select (fun connective token token' alike => ?_) (.pure first)
      refine reads.bind fun right right' second => ?_
      rw [alike.site]
      exact inductionHypothesis (join_alike connective first second token'.site)

theorem assignedValue_alike {symbols : Symbol → Symbol → Prop} {target target' value value' : Expr}
    (same : target.Alike symbols target') (assigned : value.Alike symbols value') (site : Site)
    (compound : Option BinaryOp) :
    (assignedValue target value site compound).Alike symbols
      (assignedValue target' value' site compound) := by
  cases compound with
  | none => exact assigned
  | some op => exact .binary same op assigned site

theorem assignment_parallel (reads : ReadsAlike like expression) {target target' : Expr}
    (same : target.Alike like.symbols target') :
    Parallel like (Expr.Alike like.symbols) (assignment expression target)
      (assignment expression target') := by
  refine .select (fun compound token token' alike => ?_) (.pure same)
  refine reads.bind fun right right' assigned => ?_
  rw [alike.site]
  have value := assignedValue_alike same assigned token'.site compound
  cases same with
  | «variable» name => exact .pure (.assign name value)
  | index collection key site => exact .pure (.indexAssign collection key value site)
  | _ => exact (Parallel.report rfl _).bind fun _ _ _ => .pure (by constructor <;> assumption)

theorem arguments_parallel (reads : ReadsAlike like argument) (fuel count : Nat) :
    Parallel like (ExprsAlike like) (arguments argument fuel count)
      (arguments argument fuel count) := by
  induction fuel generalizing count with
  | zero => exact .exhausted
  | succ fuel inductionHypothesis =>
      rw [arguments]
      refine .warned (.reportHere _) (reads.bind fun first first' same => ?_)
      refine .accept (fun _ _ _ => ?_) (.pure (.cons same .nil))
      exact (inductionHypothesis (count + 1)).bind fun others others' rest =>
        .pure (.cons same rest)

theorem callRest_parallel (reads : ReadsAlike like argument) (fuel : Nat) {callee callee' : Expr}
    (called : callee.Alike like.symbols callee') :
    Parallel like (Expr.Alike like.symbols) (callRest fuel argument callee)
      (callRest fuel argument callee') := by
  have close : ∀ {values values'}, ExprsAlike like values values' →
      Parallel like (Expr.Alike like.symbols)
        (do
          let close ← expectAfter .rightParen "arguments"
          pure (.call callee values close.site))
        (do
          let close ← expectAfter .rightParen "arguments"
          pure (.call callee' values' close.site)) := by
    intro values values' same
    refine (Parallel.expectAfter _ _).bind fun token token' alike => ?_
    rw [alike.site]
    exact .pure (.call called same token'.site)
  refine .check fun found => ?_
  cases found with
  | true => exact close .nil
  | false => exact (arguments_parallel reads fuel 0).bind fun values values' same => close same

theorem indexRest_parallel (reads : ReadsAlike like expression) {target target' : Expr}
    (same : target.Alike like.symbols target') (site : Site) :
    Parallel like (Expr.Alike like.symbols) (indexRest expression target site)
      (indexRest expression target' site) := by
  refine reads.bind fun position position' key => ?_
  exact (Parallel.expectAfter _ _).bind fun _ _ _ => .pure (.index same key site)

theorem suffixes_parallel (reads : ReadsAlike like expression)
    (readsArgument : ReadsAlike like argument) (fuel : Nat) {target target' : Expr}
    (same : target.Alike like.symbols target') :
    Parallel like (Expr.Alike like.symbols) (suffixes expression argument fuel target)
      (suffixes expression argument fuel target') := by
  induction fuel generalizing target target' with
  | zero => exact .exhausted
  | succ fuel inductionHypothesis =>
      refine .accept (fun _ _ _ => ?_) (.accept (fun bracket bracket' alike => ?_) (.pure same))
      · exact (callRest_parallel readsArgument fuel same).bind fun _ _ called =>
          inductionHypothesis called
      · dsimp only
        rw [alike.site]
        exact (indexRest_parallel reads same bracket'.site).bind fun _ _ indexed =>
          inductionHypothesis indexed

theorem elements_parallel (reads : ReadsAlike like expression) (close : Kind) (fuel : Nat) :
    Parallel like (ExprsAlike like) (elements expression close fuel)
      (elements expression close fuel) := by
  induction fuel with
  | zero => exact .exhausted
  | succ fuel inductionHypothesis =>
      refine .dispatch fun next _ => ?_
      split
      · exact .pure .nil
      · refine reads.bind fun first first' same => ?_
        refine .accept (fun _ _ _ => ?_) (.pure (.cons same .nil))
        exact inductionHypothesis.bind fun others others' rest => .pure (.cons same rest)

theorem groupingRest_parallel (reads : ReadsAlike like expression) (fuel : Nat) :
    ReadsAlike like (groupingRest fuel expression) := by
  refine .accept (fun _ _ _ => .pure (.tuple .nil)) (reads.bind fun first first' same => ?_)
  refine .accept (fun _ _ _ => ?_) ?_
  · refine (elements_parallel reads .rightParen fuel).bind fun others others' rest => ?_
    exact (Parallel.expectAfter _ _).bind fun _ _ _ => .pure (.tuple (.cons same rest))
  · exact (Parallel.expectAfter _ _).bind fun _ _ _ => .pure (.grouping same)

theorem arrayRest_parallel (reads : ReadsAlike like expression) (fuel : Nat) :
    ReadsAlike like (arrayRest fuel expression) := by
  refine (elements_parallel reads .rightBracket fuel).bind fun values values' same => ?_
  exact (Parallel.expectAfter _ _).bind fun _ _ _ => .pure (.array same)

/-! ## Templates -/

theorem takeWhile_alike (keep : Kind → Bool) {tokens tokens' : List Token}
    (alike : TokensAlike like tokens tokens') :
    TokensAlike like (tokens.takeWhile fun token => keep token.kind)
        (tokens'.takeWhile fun token => keep token.kind) ∧
      TokensAlike like (tokens.dropWhile fun token => keep token.kind)
        (tokens'.dropWhile fun token => keep token.kind) := by
  induction alike with
  | nil => exact ⟨.nil, .nil⟩
  | @cons token token' rest rest' first others inductionHypothesis =>
      rw [List.takeWhile_cons, List.takeWhile_cons, List.dropWhile_cons, List.dropWhile_cons,
        ← first.kind]
      split
      · exact ⟨.cons first inductionHypothesis.1, inductionHypothesis.2⟩
      · exact ⟨.nil, .cons first others⟩

theorem joinedText_eq {tokens tokens' : List Token} (alike : TokensAlike like tokens tokens') :
    joinedText tokens = joinedText tokens' := by
  induction alike with
  | nil => rfl
  | @cons token token' rest rest' first others inductionHypothesis =>
      have carried : carriedText token = carriedText token' := by
        have literals := first.literal
        unfold carriedText
        generalize token.literal = literal at literals
        generalize token'.literal = literal' at literals
        cases literals with
        | none => rfl
        | some same => cases same <;> rfl
      rw [joinedText, joinedText, inductionHypothesis, carried]

theorem templateText_parallel : Parallel like Eq templateText templateText := by
  intro setting other tokens tokens' settings alike
  have parts := takeWhile_alike (fun kind => decide (kind = .templateText)) alike
  rw [templateText_eq, templateText_eq]
  exact ⟨.some (joinedText_eq parts.1), parts.2, rfl⟩

theorem textParts_alike {symbols : Symbol → Symbol → Prop} (text : String) :
    List.Forall₂ (TemplatePart.Alike symbols) (textParts text) (textParts text) := by
  unfold textParts
  split
  · exact .nil
  · exact .cons (.text text) .nil

theorem templateParts_parallel (reads : ReadsAlike like expression) (fuel : Nat) :
    Parallel like (List.Forall₂ (TemplatePart.Alike like.symbols)) (templateParts expression fuel)
      (templateParts expression fuel) := by
  induction fuel with
  | zero => exact .exhausted
  | succ fuel inductionHypothesis =>
      refine templateText_parallel.bind fun text text' sameText => ?_
      subst sameText
      refine .accept (fun _ _ _ => ?_) ?_
      · refine reads.bind fun value value' same => ?_
        refine (Parallel.expectAfter _ _).bind fun _ _ _ => ?_
        refine inductionHypothesis.bind fun others others' rest => .pure ?_
        exact List.rel_append (textParts_alike text) (.cons (.shown same) rest)
      · exact (Parallel.expectAfter _ _).bind fun _ _ _ => .pure (textParts_alike text)

/-! ## Primary expressions -/

/-- Takes a token for the constant it stands for, and reports any other. -/
def constantLiteral (problem : Problem) (constantOf : Literal → Option Constant) : Parser Expr :=
  fun setting tokens =>
    match constantAhead constantOf tokens with
    | some value => ⟨some (.constant value), advance tokens, []⟩
    | none => failHere problem setting tokens

theorem numberLiteral_eq : numberLiteral = constantLiteral .malformedNumber numberConstant? := by
  funext setting tokens
  rcases tokens with _ | ⟨⟨kind, lexeme, literal, line⟩, rest⟩
  · rfl
  · rcases literal with _ | ⟨_ | _ | _⟩ <;> rfl

theorem stringLiteral_eq : stringLiteral = constantLiteral .malformedString stringConstant? := by
  funext setting tokens
  rcases tokens with _ | ⟨⟨kind, lexeme, literal, line⟩, rest⟩
  · rfl
  · rcases literal with _ | ⟨_ | _ | _⟩ <;> rfl

/-- A constant that does not depend on symbols. -/
theorem constantLiteral_parallel (problem : Problem) {constantOf : Literal → Option Constant}
    (blind : ∀ symbol, constantOf (.identifier symbol) = none) :
    ReadsAlike like (constantLiteral problem constantOf) := by
  intro setting other tokens tokens' settings alike
  have same : constantAhead constantOf tokens = constantAhead constantOf tokens' := by
    cases alike with
    | nil => rfl
    | @cons token token' rest rest' first others =>
        have literals := first.literal
        show token.literal.bind constantOf = token'.literal.bind constantOf
        generalize token.literal = literal at literals
        generalize token'.literal = literal' at literals
        cases literals with
        | none => rfl
        | some same =>
            cases same with
            | number value | text value => rfl
            | identifier same => exact (blind _).trans (blind _).symm
  unfold constantLiteral
  rw [← same]
  cases ahead : constantAhead constantOf tokens with
  | none => exact Parallel.failHere problem setting other tokens tokens' settings alike
  | some value =>
      refine ⟨.some (.constant value), ?_, rfl⟩
      cases alike with
      | nil => exact .nil
      | cons first others => exact others

theorem primaryRule_parallel (reads : ReadsAlike like expression) (fuel : Nat) :
    ReadsAlike like (primaryRule fuel expression) := by
  refine .dispatch fun kind mayToss => ?_
  cases kind with
  | trueWord => exact .taking (.pure (.constant _))
  | falseWord => exact .taking (.pure (.constant _))
  | nilWord => exact .taking (.pure (.constant _))
  | maybeWord =>
      refine (Parallel.toss (mayToss rfl)).bind fun side side' same => ?_
      subst same
      exact .taking (.pure (.constant _))
  | number =>
      dsimp only
      rw [numberLiteral_eq]
      exact constantLiteral_parallel _ fun _ => rfl
  | string =>
      dsimp only
      rw [stringLiteral_eq]
      exact constantLiteral_parallel _ fun _ => rfl
  | identifier =>
      exact (identifier_parallel _).bind fun name name' same => .pure (.variable same)
  | leftParen => exact .taking (groupingRest_parallel reads fuel)
  | leftBracket => exact .taking (arrayRest_parallel reads fuel)
  | backtick =>
      refine .taking ((templateParts_parallel reads fuel).bind fun parts parts' same => ?_)
      exact .pure (.template same)
  | _ => exact .failHere _

end Expressions

/-! ## Statements -/

section Statements

variable {like : Likeness}

/-- Statements that are alike are read. -/
abbrev ReadsStmts (like : Likeness) (parser : Parser Stmt) : Prop :=
  Parallel like (Stmt.Alike like.symbols) parser parser

/-- Statements that are alike and that are no declarations. -/
def BodyAlike (like : Likeness) (left right : Stmt) : Prop :=
  left.Alike like.symbols right ∧ left.isDeclaration = false

/-- Lists of statements, one by one. -/
abbrev StmtsAlike (like : Likeness) : List Stmt → List Stmt → Prop :=
  List.Forall₂ (Stmt.Alike like.symbols)

/-- Parameters and body of a function. -/
def FunctionAlike (like : Likeness) (left right : List Name × List Stmt) : Prop :=
  List.Forall₂ (Name.Alike like.symbols) left.1 right.1 ∧ StmtsAlike like left.2 right.2

variable {expression : Parser Expr} {statement declaration : Parser Stmt}
  {body : Parser (List Stmt)}

theorem var_alike {symbols : Symbol → Symbol → Prop} {name name' : Name}
    (target : name.Alike symbols name') {initial initial' : Option Expr}
    (same : Option.Rel (Expr.Alike symbols) initial initial') :
    (Stmt.var name initial).Alike symbols (.var name' initial') := by
  cases same with
  | none => exact .unbound target
  | some same => exact .bound target same

theorem varRest_parallel (reads : ReadsAlike like expression) :
    ReadsStmts like (varRest expression) := by
  refine (identifier_parallel _).bind fun name name' target => ?_
  have ends : ∀ initial initial', Option.Rel (Expr.Alike like.symbols) initial initial' →
      Parallel like (Stmt.Alike like.symbols)
        (do
          let _ ← expectAfter .semicolon "variable declaration"
          pure (.var name initial))
        (do
          let _ ← expectAfter .semicolon "variable declaration"
          pure (.var name' initial')) := fun _ _ same =>
    (Parallel.expectAfter _ _).bind fun _ _ _ => .pure (var_alike target same)
  refine .accept (fun _ _ _ => ?_) ?_
  · exact (reads.map fun _ _ same => .some same).bind ends
  · exact (Parallel.pure .none).bind ends

theorem constRest_parallel (reads : ReadsAlike like expression) :
    ReadsStmts like (constRest expression) := by
  refine (identifier_parallel _).bind fun name name' target => ?_
  refine (Parallel.expectAfter _ _).bind fun _ _ _ => reads.bind fun value value' initial => ?_
  exact (Parallel.expectAfter _ _).bind fun _ _ _ => .pure (.const target initial)

theorem parameters_parallel (fuel count : Nat) :
    Parallel like (List.Forall₂ (Name.Alike like.symbols)) (parameters fuel count)
      (parameters fuel count) := by
  induction fuel generalizing count with
  | zero => exact .exhausted
  | succ fuel inductionHypothesis =>
      rw [parameters]
      refine .warned (.reportHere _) ((identifier_parallel _).bind fun first first' same => ?_)
      refine .accept (fun _ _ _ => ?_) (.pure (.cons same .nil))
      exact (inductionHypothesis (count + 1)).bind fun others others' rest =>
        .pure (.cons same rest)

theorem functionRest_parallel (reads : Parallel like (StmtsAlike like) body body) (fuel : Nat) :
    Parallel like (FunctionAlike like) (functionRest fuel body) (functionRest fuel body) := by
  have inner : ∀ {names names'}, List.Forall₂ (Name.Alike like.symbols) names names' →
      Parallel like (FunctionAlike like)
        (do
          let _ ← expectAfter .rightParen "parameters"
          let _ ← expectBefore .leftBrace "function body"
          let statements ← body
          pure (names, statements))
        (do
          let _ ← expectAfter .rightParen "parameters"
          let _ ← expectBefore .leftBrace "function body"
          let statements ← body
          pure (names', statements)) := by
    intro names names' same
    refine (Parallel.expectAfter _ _).bind fun _ _ _ => ?_
    refine (Parallel.expectBefore _ _).bind fun _ _ _ => ?_
    exact reads.bind fun _ _ statements => .pure ⟨same, statements⟩
  refine .check fun found => ?_
  cases found with
  | true => exact inner .nil
  | false => exact (parameters_parallel fuel 0).bind fun names names' same => inner same

theorem functionDeclaration_parallel (reads : Parallel like (StmtsAlike like) body body)
    (fuel : Nat) : ReadsStmts like (functionDeclaration fuel body) := by
  refine (identifier_parallel _).bind fun name name' target => ?_
  refine (Parallel.expectAfter _ _).bind fun _ _ _ => ?_
  exact (functionRest_parallel reads fuel).bind fun _ _ function =>
    .pure (.function target function.1 function.2)

theorem argumentRule_parallel (reads : ReadsAlike like expression)
    (readsBody : Parallel like (StmtsAlike like) body body) (fuel : Nat) :
    ReadsAlike like (argumentRule fuel expression body) := by
  refine .accept (fun _ _ _ => ?_) reads
  refine (Parallel.expectAfter _ _).bind fun _ _ _ => ?_
  exact (functionRest_parallel readsBody fuel).bind fun _ _ function =>
    .pure (.lambda function.1 function.2)

theorem jumpRest_parallel {jump : Stmt} (same : jump.Alike like.symbols jump) (keyword : String) :
    ReadsStmts like (jumpRest jump keyword) :=
  (Parallel.expectAfter _ _).bind fun _ _ _ => .pure same

theorem bodyStatement_parallel (reads : ReadsStmts like declaration) :
    ReadsStmts like (bodyStatement declaration) :=
  .accept (fun _ _ _ => jumpRest_parallel .leave _)
    (.accept (fun _ _ _ => jumpRest_parallel .next _) reads)

theorem bodyRest_parallel (reads : ReadsStmts like declaration) (fuel : Nat) :
    Parallel like (StmtsAlike like) (bodyRest declaration fuel) (bodyRest declaration fuel) := by
  induction fuel with
  | zero => exact .exhausted
  | succ fuel inductionHypothesis =>
      refine .dispatch fun next _ => ?_
      split
      · exact (Parallel.expectAfter _ _).bind fun _ _ _ => .pure .nil
      · refine (bodyStatement_parallel reads).recovered.bind fun first first' same => ?_
        refine inductionHypothesis.bind fun others others' rest => .pure ?_
        cases same with
        | none => exact rest
        | some same => exact .cons same rest

theorem printRest_parallel (reads : ReadsAlike like expression) :
    Parallel like (BodyAlike like) (printRest expression) (printRest expression) := by
  refine reads.bind fun value value' same => ?_
  exact (Parallel.expectAfter _ _).bind fun _ _ _ => .pure ⟨.print same, rfl⟩

theorem ifRest_parallel (reads : ReadsAlike like expression)
    (readsBody : Parallel like (BodyAlike like) statement statement) :
    Parallel like (BodyAlike like) (ifRest expression statement) (ifRest expression statement) := by
  refine (Parallel.expectAfter _ _).bind fun _ _ _ => reads.bind fun _ _ test => ?_
  refine (Parallel.expectAfter _ _).bind fun _ _ _ => readsBody.bind fun _ _ inner => ?_
  refine .accept (fun _ _ _ => ?_) (.pure ⟨.onlyIf test inner.1 inner.2, rfl⟩)
  exact readsBody.bind fun _ _ otherwise =>
    .pure ⟨.ifElse test inner.1 inner.2 otherwise.1 otherwise.2, rfl⟩

theorem whileRest_parallel (reads : ReadsAlike like expression)
    (readsBody : Parallel like (BodyAlike like) statement statement) :
    Parallel like (BodyAlike like) (whileRest expression statement)
      (whileRest expression statement) := by
  refine (Parallel.expectAfter _ _).bind fun _ _ _ => reads.bind fun _ _ test => ?_
  refine (Parallel.expectAfter _ _).bind fun _ _ _ => readsBody.bind fun _ _ inner => ?_
  exact .pure ⟨.loop test inner.1 inner.2, rfl⟩

theorem forInitial_parallel (reads : ReadsAlike like expression) :
    Parallel like (Option.Rel (Stmt.Alike like.symbols)) (forInitial expression)
      (forInitial expression) := by
  refine .accept (fun _ _ _ => .pure .none) (.accept (fun _ _ _ => ?_) ?_)
  · exact (varRest_parallel reads).map fun _ _ same => .some same
  · refine reads.bind fun value value' same => ?_
    exact (Parallel.expectAfter _ _).bind fun _ _ _ => .pure (.some (.expression same))

theorem optional_parallel (reads : ReadsAlike like expression) (close : Kind) :
    Parallel like (Option.Rel (Expr.Alike like.symbols)) (optional expression close)
      (optional expression close) := by
  refine .check fun found => ?_
  cases found with
  | true => exact .pure .none
  | false => exact reads.map fun _ _ same => .some same

theorem forRest_parallel (reads : ReadsAlike like expression)
    (readsBody : Parallel like (BodyAlike like) statement statement) :
    Parallel like (BodyAlike like) (forRest expression statement)
      (forRest expression statement) := by
  refine (Parallel.expectAfter _ _).bind fun _ _ _ => ?_
  refine (forInitial_parallel reads).bind fun _ _ first => ?_
  refine (optional_parallel reads _).bind fun _ _ test => ?_
  refine (Parallel.expectAfter _ _).bind fun _ _ _ => ?_
  refine (optional_parallel reads _).bind fun _ _ last => ?_
  refine (Parallel.expectAfter _ _).bind fun _ _ _ => readsBody.bind fun _ _ inner => ?_
  exact .pure (forLoop_alike first test last inner.1 inner.2)

theorem cases_parallel (reads : ReadsAlike like expression)
    (readsBody : Parallel like (StmtsAlike like) body body) (fuel : Nat) (hasFallback : Bool) :
    Parallel like (List.Forall₂ (Case.Alike like.symbols))
      (cases expression body fuel hasFallback) (cases expression body fuel hasFallback) := by
  induction fuel generalizing hasFallback with
  | zero => exact .exhausted
  | succ fuel inductionHypothesis =>
      refine .accept (fun _ _ _ => ?_) (.accept (fun keyword keyword' alike => ?_) (.pure .nil))
      · refine reads.bind fun _ _ label => (Parallel.expectAfter _ _).bind fun _ _ _ => ?_
        refine (Parallel.expectBefore _ _).bind fun _ _ _ => readsBody.bind fun _ _ inner => ?_
        exact (inductionHypothesis hasFallback).bind fun _ _ others =>
          .pure (.cons (.labelled label inner) others)
      · refine .warned (.report alike.site _) ?_
        refine (Parallel.expectAfter _ _).bind fun _ _ _ => ?_
        refine (Parallel.expectBefore _ _).bind fun _ _ _ => readsBody.bind fun _ _ inner => ?_
        exact (inductionHypothesis true).bind fun _ _ others =>
          .pure (.cons (.fallback inner) others)

theorem switchRest_parallel (reads : ReadsAlike like expression)
    (readsBody : Parallel like (StmtsAlike like) body body) (fuel : Nat) :
    Parallel like (BodyAlike like) (switchRest fuel expression body)
      (switchRest fuel expression body) := by
  refine reads.bind fun _ _ rule => (Parallel.expectAfter _ _).bind fun _ _ _ => ?_
  exact (cases_parallel reads readsBody fuel false).bind fun _ _ all =>
    .pure ⟨.switch rule all, rfl⟩

theorem furtherValues_parallel (reads : ReadsAlike like expression) (fuel : Nat) :
    Parallel like (ExprsAlike like) (furtherValues expression fuel)
      (furtherValues expression fuel) := by
  induction fuel with
  | zero => exact .exhausted
  | succ fuel inductionHypothesis =>
      refine .accept (fun _ _ _ => reads.bind fun _ _ same => ?_) (.pure .nil)
      exact inductionHypothesis.bind fun _ _ rest => .pure (.cons same rest)

theorem returnRest_parallel (reads : ReadsAlike like expression) (fuel : Nat) :
    Parallel like (BodyAlike like) (returnRest fuel expression) (returnRest fuel expression) := by
  refine .accept (fun _ _ _ => .pure ⟨.nothing, rfl⟩) (reads.bind fun first first' same => ?_)
  refine (furtherValues_parallel reads fuel).bind fun others others' rest => ?_
  refine (Parallel.expectAfter _ _).bind fun _ _ _ => .pure ⟨.result ?_, rfl⟩
  cases rest with
  | nil => exact same
  | cons second more => exact .tuple (.cons same (.cons second more))

theorem expressionStatement_parallel (reads : ReadsAlike like expression) :
    Parallel like (BodyAlike like) (expressionStatement expression)
      (expressionStatement expression) := by
  refine reads.bind fun value value' same => ?_
  exact (Parallel.expectAfter _ _).bind fun _ _ _ => .pure ⟨.expression same, rfl⟩

/-- What is read as a statement is no declaration. -/
theorem statementRule_parallel (reads : ReadsAlike like expression)
    (readsStatement : Parallel like (BodyAlike like) statement statement)
    (readsBody : Parallel like (StmtsAlike like) body body) (fuel : Nat) :
    Parallel like (BodyAlike like) (statementRule fuel expression statement body)
      (statementRule fuel expression statement body) := by
  refine .dispatch fun kind _ => ?_
  cases kind with
  | printWord => exact .taking (printRest_parallel reads)
  | leftBrace => exact .taking (readsBody.map fun _ _ inner => ⟨.block inner, rfl⟩)
  | ifWord => exact .taking (ifRest_parallel reads readsStatement)
  | forWord => exact .taking (forRest_parallel reads readsStatement)
  | whileWord => exact .taking (whileRest_parallel reads readsStatement)
  | switchWord => exact .taking (switchRest_parallel reads readsBody fuel)
  | returnWord => exact .taking (returnRest_parallel reads fuel)
  | _ => exact expressionStatement_parallel reads

theorem declarationRule_parallel (reads : ReadsAlike like expression)
    (readsStatement : Parallel like (BodyAlike like) statement statement)
    (readsBody : Parallel like (StmtsAlike like) body body) (fuel : Nat) :
    ReadsStmts like (declarationRule fuel expression statement body) := by
  refine .dispatch fun kind _ => ?_
  cases kind with
  | funWord => exact .taking (functionDeclaration_parallel readsBody fuel)
  | varWord => exact .taking (varRest_parallel reads)
  | constWord => exact .taking (constRest_parallel reads)
  | _ => exact readsStatement.mono fun _ _ same => same.1

end Statements

/-! ## The grammar -/

section Grammar

variable {like : Likeness}

/-- The parsers of the grammar, to a given depth. -/
structure GrammarParallel (like : Likeness) (depth : Nat) : Prop where
  expression : ReadsAlike like (expression depth)
  operation : ∀ level, ReadsAlike like (operation depth level)
  unary : ReadsAlike like (unary depth)
  suffixed : ReadsAlike like (suffixed depth)
  argument : ReadsAlike like (argument depth)
  body : Parallel like (StmtsAlike like) (body depth) (body depth)
  statement : Parallel like (BodyAlike like) (statement depth) (statement depth)
  declaration : ReadsStmts like (declaration depth)

theorem GrammarParallel.operation_succ {depth : Nat} (parts : GrammarParallel like depth)
    (level : Level) : ReadsAlike like (Grammar.operation (depth + 1) level) := by
  cases level with
  | factor => exact parts.unary.bind fun _ _ first => operations_parallel parts.unary depth first
  | _ =>
      exact (parts.operation _).bind fun _ _ first =>
        operations_parallel (parts.operation _) depth first

theorem GrammarParallel.unary_succ {depth : Nat} (parts : GrammarParallel like depth) :
    ReadsAlike like (Grammar.unary (depth + 1)) := by
  refine .select (fun op token token' alike => ?_) parts.suffixed
  refine parts.unary.bind fun _ _ operand => ?_
  rw [alike.site]
  exact .pure (.unary op operand token'.site)

theorem grammar_parallel (like : Likeness) (depth : Nat) : GrammarParallel like depth := by
  induction depth with
  | zero =>
      exact ⟨.exhausted, fun _ => .exhausted, .exhausted, .exhausted, .exhausted, .exhausted,
        .exhausted, .exhausted⟩
  | succ depth parts =>
      constructor
      case expression =>
        exact (parts.operation _).bind fun _ _ target => assignment_parallel parts.expression target
      case operation => exact parts.operation_succ
      case unary => exact parts.unary_succ
      case suffixed =>
        exact (primaryRule_parallel parts.expression depth).bind fun _ _ target =>
          suffixes_parallel parts.expression parts.argument depth target
      case argument => exact argumentRule_parallel parts.expression parts.body depth
      case body => exact bodyRest_parallel parts.declaration depth
      case statement =>
        exact statementRule_parallel parts.expression parts.statement parts.body depth
      case declaration =>
        exact declarationRule_parallel parts.expression parts.statement parts.body depth

/-! ## Programs -/

/-- Programs that are alike, read with the same reports. -/
structure ParseAlike (like : Likeness) (left right : Parse) : Prop where
  program : StmtsAlike like left.program right.program
  diagnostics : left.diagnostics = right.diagnostics

theorem reverse_alike {program program' : List Stmt} (alike : StmtsAlike like program program') :
    StmtsAlike like program.reverse program'.reverse :=
  List.rel_reverse alike

theorem statements_alike {setting other : Setting} (settings : Setting.Alike like setting other)
    (depth fuel : Nat) {tokens tokens' : List Token} (alike : TokensAlike like tokens tokens')
    {program program' : List Stmt} (before : StmtsAlike like program program')
    (diagnostics : List Diagnostic) :
    ParseAlike like (statements depth setting fuel tokens program diagnostics)
      (statements depth other fuel tokens' program' diagnostics) := by
  induction fuel generalizing tokens tokens' program program' diagnostics with
  | zero =>
      cases alike with
      | nil => exact ⟨reverse_alike before, rfl⟩
      | cons first rest => exact ⟨reverse_alike before, rfl⟩
  | succ fuel inductionHypothesis =>
      cases alike with
      | nil => exact ⟨reverse_alike before, rfl⟩
      | @cons token token' rest rest' first others =>
          obtain ⟨outcome, left, reports⟩ :=
            (grammar_parallel like depth).declaration.recovered setting other _ _ settings
              (.cons first others)
          rw [statements, statements, reports]
          refine inductionHypothesis left ?_ _
          rcases rel_cases outcome with ⟨failed, failed'⟩ | ⟨value, value', done, done', related⟩
          · rw [failed, failed']
            exact before
          · rw [done, done']
            cases related with
            | none => exact before
            | some same => exact .cons same before

/-- What tokens that are alike have in common, the last ones have. -/
theorem last_eq {β : Type} (f : Token → β)
    (same : ∀ token token' : Token, token.Alike like token' → f token = f token')
    {tokens tokens' : List Token} (alike : TokensAlike like tokens tokens') :
    tokens.getLast?.map f = tokens'.getLast?.map f := by
  have values : tokens.map f = tokens'.map f :=
    List.forall₂_eq_eq_eq ▸ List.forall₂_map_left_iff.mpr
      (List.forall₂_map_right_iff.mpr (alike.imp same))
  rw [← List.getLast?_map, values, List.getLast?_map]

theorem ended_alike {tokens tokens' : List Token} (alike : TokensAlike like tokens tokens') :
    TokensAlike like (ended tokens) (ended tokens') := by
  have kinds : tokens.getLast?.map Token.kind = tokens'.getLast?.map Token.kind :=
    last_eq _ (fun _ _ same => same.kind) alike
  have lines : tokens.getLast?.map Token.line = tokens'.getLast?.map Token.line :=
    last_eq _ (fun _ _ same => same.line) alike
  have stop (line : Nat) : (Token.endOfInput line).Alike like (Token.endOfInput line) :=
    ⟨rfl, rfl, rfl, .none, fun isMaybe => by cases isMaybe⟩
  unfold ended
  rw [kinds, lines]
  split
  next => exact alike
  next => exact List.rel_append alike (.cons (stop _) .nil)

theorem stopSite_eq {tokens tokens' : List Token} (alike : TokensAlike like tokens tokens') :
    stopSite tokens = stopSite tokens' := by
  have left := (takeWhile_alike (fun kind => decide (kind ≠ .endOfInput)) (ended_alike alike)).2
  unfold stopSite
  generalize (ended tokens).dropWhile (fun token => decide (token.kind ≠ .endOfInput)) = rest
    at left
  generalize (ended tokens').dropWhile (fun token => decide (token.kind ≠ .endOfInput)) = rest'
    at left
  cases left with
  | nil => rfl
  | cons first others => exact first.site

/-- **Tokens that are alike are read as programs that are alike**, whatever is
wrong with them, and with the same reports. -/
theorem parse_alike (like : Likeness) {coin coin' : Nat → Bool}
    (coins : like.tossed → coin = coin') {tokens tokens' : List Token}
    (alike : TokensAlike like tokens tokens') :
    ParseAlike like (parse coin tokens) (parse coin' tokens') := by
  have bodies : TokensAlike like (bodyTokens tokens) (bodyTokens tokens') :=
    (takeWhile_alike (fun kind => decide (kind ≠ .endOfInput)) (ended_alike alike)).1
  unfold parse
  dsimp only
  rw [bodies.length_eq]
  exact statements_alike ⟨stopSite_eq alike, coins⟩ _ _ bodies .nil []

theorem token_alike_self (token : Token) : token.Alike ⟨Eq, True⟩ token := by
  refine ⟨rfl, rfl, rfl, ?_, fun _ => trivial⟩
  rcases token.literal with _ | ⟨value | value | symbol⟩
  · exact .none
  · exact .some (.number value)
  · exact .some (.text value)
  · exact .some (.identifier rfl)

/-- **Declarations stand only where they may.** Whatever the tokens, no declaration
is read as the body of a branch or a loop. -/
theorem parse_placed (coin : Nat → Bool) (tokens : List Token) :
    ∀ s ∈ (parse coin tokens).program, s.Placed := by
  have self : TokensAlike ⟨Eq, True⟩ tokens tokens :=
    List.forall₂_same.mpr fun token _ => token_alike_self token
  have programs : StmtsAlike ⟨Eq, True⟩ (parse coin tokens).program (parse coin tokens).program :=
    (parse_alike ⟨Eq, True⟩ (fun _ => rfl) self).program
  exact fun s inside => List.forall₂_same.mp programs s inside

end Grammar

end Grammar

end Scriptlet
