import Scriptlet.Proofs.Grammar.Recovery
import Scriptlet.Proofs.Grammar.Yields
import Scriptlet.Proofs.Tree.Formed

/-!
Contract: whatever the tokens, the trees read from them have the right shape.

Owns: one law for each rule of the grammar, over the parsers of its parts, and
the main statements: the statements of a program are formed, with names and sites
of the tokens they were read from (`program_yields`), and thus well formed
(`parse_wellFormed`).

Does not own: `Yields` and its rules (`Scriptlet.Proofs.Grammar.Yields`), and
what a tree of the right shape is (`Scriptlet.Proofs.Tree.Formed`).

## Why no error path needs a case of its own

A rule that gives up gives no tree, and what was read before is thrown away with
it. The trees that are kept are those of rules that succeed, and these were built
from the trees of rules that succeeded in turn. What is reported and kept, such as
the left side of an assignment that is no target, is itself a tree that was read.
-/

set_option autoImplicit false

namespace Scriptlet

/-- The marks are those of the tokens of a source, at least. -/
structure Marks.Covers (marks : Marks) (source : Token → Prop) : Prop where
  name : ∀ token symbol, source token → token.kind = .identifier →
    token.literal = some (.identifier symbol) → marks.name ⟨symbol, token.line⟩
  site : ∀ token, source token → marks.site token.kind token.site

theorem Marks.any_covers (source : Token → Prop) : Marks.any.Covers source :=
  ⟨fun _ _ _ _ _ => trivial, fun _ _ => trivial⟩

/-- The site of a token whose kind is known. -/
theorem Marks.Covers.site_of {marks : Marks} {source : Token → Prop} (covers : marks.Covers source)
    {token : Token} {kind : Kind} (found : source token ∧ token.kind = kind) :
    marks.site kind token.site :=
  found.2 ▸ covers.site token found.1

/-- An expression that binds as tightly as `rank` at least. -/
structure Expr.FormedAbove (marks : Marks) (rank : Nat) (e : Expr) : Prop where
  formed : e.Formed marks
  tight : rank ≤ e.rank

/-- A statement that may be the body of a branch or a loop. -/
structure Stmt.FormedBody (marks : Marks) (s : Stmt) : Prop where
  formed : s.Formed marks
  placed : s.isDeclaration = false

/-- Parameters and body of a function. -/
structure FunctionFormed (marks : Marks) (function : List Name × List Stmt) : Prop where
  parameters : ∀ name ∈ function.1, marks.name name
  statements : ∀ s ∈ function.2, s.Inner marks

namespace Grammar

open Scriptlet.Parser

variable {source : Token → Prop} {marks : Marks}

/-! ## Operators -/

/-- How tightly the operators of a level bind. -/
def Level.rank : Level → Nat
  | .disjunction => 1
  | .conjunction => 2
  | .equality => 3
  | .comparison => 4
  | .term => 5
  | .factor => 6

/-- Two operands joined by an operator of a level: the left one may be of the same
level, the right one is of a tighter one. -/
theorem join_formed {level : Level} {kind : Kind} {connective : Connective}
    (chosen : level.operator? kind = some connective) {left right : Expr}
    (first : left.FormedAbove marks level.rank) (second : right.FormedAbove marks (level.rank + 1))
    {site : Site} (marked : marks.site kind site) :
    (connective.join left right site).FormedAbove marks level.rank := by
  unfold Level.operator? at chosen
  -- one case for each operator of each level
  split at chosen
  case h_1 | h_2 =>
    obtain rfl := Option.some.inj chosen
    exact ⟨.logical first.formed first.tight second.formed second.tight, Nat.le_refl _⟩
  case h_14 => cases chosen
  all_goals
    obtain rfl := Option.some.inj chosen
    exact ⟨.binary first.formed first.tight second.formed second.tight marked, Nat.le_refl _⟩

theorem unaryOperator_sign {kind : Kind} {op : UnaryOp} (chosen : unaryOperator? kind = some op) :
    op.sign = kind := by
  unfold unaryOperator? at chosen
  split at chosen <;> cases chosen <;> rfl

theorem assignmentOperator_sign {kind : Kind} {op : BinaryOp}
    (chosen : assignmentOperator? kind = some (some op)) : op.assigningSign? = some kind := by
  unfold assignmentOperator? at chosen
  split at chosen <;> cases chosen <;> rfl

/-! ## Expressions -/

section Expressions

/-- Expressions that stand for themselves are read. -/
abbrev YieldsExpr (source : Token → Prop) (marks : Marks) (parser : Parser Expr) : Prop :=
  Yields source (Expr.Formed marks) parser

abbrev YieldsExprs (source : Token → Prop) (marks : Marks) (parser : Parser (List Expr)) : Prop :=
  Yields source (fun values => ∀ value ∈ values, value.Formed marks) parser

/-- Expressions that may be called and indexed. -/
abbrev YieldsPrimary (source : Token → Prop) (marks : Marks) (parser : Parser Expr) : Prop :=
  Yields source (Expr.FormedAbove marks suffixRank) parser

variable {expression argument operand : Parser Expr}

theorem identifier_yields (covers : marks.Covers source) (what : Expectation) :
    Yields source marks.name (identifier what) := by
  refine (Yields.expect .identifier what).bind fun token found => ?_
  split
  · next symbol literal => exact .pure (covers.name token symbol found.1 found.2 literal)
  · exact .fail found.1 _

theorem operations_yields (covers : marks.Covers source) {level : Level}
    (reads : Yields source (Expr.FormedAbove marks (level.rank + 1)) operand) (fuel : Nat)
    {left : Expr} (first : left.FormedAbove marks level.rank) :
    Yields source (Expr.FormedAbove marks level.rank) (operations level operand fuel left) := by
  induction fuel generalizing left with
  | zero => exact .exhausted
  | succ fuel inductionHypothesis =>
      refine .select (fun connective token inside chosen => ?_) (.pure first)
      refine reads.bind fun right second => ?_
      exact inductionHypothesis (join_formed chosen first second (covers.site token inside))

/-- What is assigned to a name, or to an element of a collection. -/
theorem assignment_yields (covers : marks.Covers source)
    (reads : YieldsExpr source marks expression) {target : Expr} (formed : target.Formed marks) :
    YieldsExpr source marks (assignment expression target) := by
  refine .select (fun compound token inside chosen => ?_) (.pure formed)
  refine reads.bind fun right second => ?_
  have marked := covers.site token inside
  have kept : YieldsExpr source marks (do
      report token.site .invalidTarget
      pure target) := (Yields.report inside _).bind fun _ _ => .pure formed
  cases formed with
  | «variable» used =>
      cases compound with
      | none => exact .pure (.assign used second)
      | some op => exact .pure (.update used second (assignmentOperator_sign chosen) marked)
  | index collection tight key opening =>
      cases compound with
      | none => exact .pure (.indexAssign collection tight key second opening)
      | some op =>
          exact .pure (.indexUpdate collection tight key second (assignmentOperator_sign chosen)
            marked opening)
  | _ => exact kept

/-- The items of a list, one or more, between commas. -/
theorem items_yields {α : Type} {good : α → Prop} {first : α} {others : Parser (List α)}
    (is : good first) (reads : Yields source (fun items => ∀ item ∈ items, good item) others) :
    Yields source (fun items => ∀ item ∈ items, good item)
      (do
        let others ← others
        pure (first :: others)) :=
  reads.bind fun _ rest => .pure (List.forall_mem_cons.mpr ⟨is, rest⟩)

theorem arguments_yields (reads : Yields source (Expr.Passed marks) argument) (fuel count : Nat) :
    Yields source (fun values => ∀ value ∈ values, value.Passed marks)
      (arguments argument fuel count) := by
  induction fuel generalizing count with
  | zero => exact .exhausted
  | succ fuel inductionHypothesis =>
      rw [arguments]
      refine .warned (.reportHere _) (reads.bind fun first is => ?_)
      refine .accept (fun _ _ _ => items_yields is (inductionHypothesis (count + 1))) ?_
      exact .pure (List.forall_mem_singleton.mpr is)

theorem callRest_yields (covers : marks.Covers source)
    (reads : Yields source (Expr.Passed marks) argument) (fuel : Nat) {callee : Expr}
    (called : callee.FormedAbove marks suffixRank) :
    YieldsPrimary source marks (callRest fuel argument callee) := by
  have close : ∀ values : List Expr, (∀ value ∈ values, value.Passed marks) →
      YieldsPrimary source marks
        (do
          let close ← expectAfter .rightParen "arguments"
          pure (.call callee values close.site)) := by
    intro values passed
    refine (Yields.expectAfter _ _).bind fun token found => .pure ⟨?_, Nat.le_refl _⟩
    exact .call called.formed called.tight passed (covers.site_of found)
  refine .check fun found => ?_
  cases found with
  | true => exact close [] (List.forall_mem_nil _)
  | false => exact (arguments_yields reads fuel 0).bind close

theorem indexRest_yields (reads : YieldsExpr source marks expression) {target : Expr}
    (collection : target.FormedAbove marks suffixRank) {site : Site}
    (marked : marks.site .leftBracket site) :
    YieldsPrimary source marks (indexRest expression target site) := by
  refine reads.bind fun position key => (Yields.expectAfter _ _).bind fun _ _ => ?_
  refine .pure ⟨?_, Nat.le_refl _⟩
  exact .index collection.formed collection.tight key marked

theorem suffixes_yields (covers : marks.Covers source) (reads : YieldsExpr source marks expression)
    (readsArgument : Yields source (Expr.Passed marks) argument) (fuel : Nat) {target : Expr}
    (formed : target.FormedAbove marks suffixRank) :
    YieldsPrimary source marks (suffixes expression argument fuel target) := by
  induction fuel generalizing target with
  | zero => exact .exhausted
  | succ fuel inductionHypothesis =>
      refine .accept (fun _ _ _ => ?_) (.accept (fun bracket inside kind => ?_) (.pure formed))
      · exact (callRest_yields covers readsArgument fuel formed).bind fun _ called =>
          inductionHypothesis called
      · exact (indexRest_yields reads formed (covers.site_of ⟨inside, kind⟩)).bind
          fun _ indexed => inductionHypothesis indexed

theorem elements_yields (reads : YieldsExpr source marks expression) (close : Kind) (fuel : Nat) :
    YieldsExprs source marks (elements expression close fuel) := by
  induction fuel with
  | zero => exact .exhausted
  | succ fuel inductionHypothesis =>
      refine .dispatch fun next => ?_
      split
      · exact .pure (List.forall_mem_nil _)
      · refine reads.bind fun first is => ?_
        refine .accept (fun _ _ _ => items_yields is inductionHypothesis) ?_
        exact .pure (List.forall_mem_singleton.mpr is)

theorem groupingRest_yields (reads : YieldsExpr source marks expression) (fuel : Nat) :
    YieldsPrimary source marks (groupingRest fuel expression) := by
  have tight := suffixRank_le_primaryRank
  refine .accept (fun _ _ _ => .pure ⟨.tuple (List.forall_mem_nil _), tight⟩) ?_
  refine reads.bind fun first is => .accept (fun _ _ _ => ?_) ?_
  · refine (elements_yields reads .rightParen fuel).bind fun others rest => ?_
    refine (Yields.expectAfter _ _).bind fun _ _ => .pure ⟨.tuple ?_, tight⟩
    exact List.forall_mem_cons.mpr ⟨is, rest⟩
  · exact (Yields.expectAfter _ _).bind fun _ _ => .pure ⟨.grouping is, tight⟩

theorem arrayRest_yields (reads : YieldsExpr source marks expression) (fuel : Nat) :
    YieldsPrimary source marks (arrayRest fuel expression) := by
  refine (elements_yields reads .rightBracket fuel).bind fun values all => ?_
  exact (Yields.expectAfter _ _).bind fun _ _ => .pure ⟨.array all, suffixRank_le_primaryRank⟩

/-! ## Templates -/

/-- Parts of a template, none of them empty, and no two texts together. -/
structure PartsFormed (marks : Marks) (parts : List TemplatePart) : Prop where
  all : ∀ part ∈ parts, part.Formed marks
  separate : TemplatePart.Separate parts

theorem textParts_formed (text : String) : PartsFormed marks (textParts text) := by
  unfold textParts
  split
  · exact ⟨List.forall_mem_nil _, .nil⟩
  · next some =>
      have nonempty : text ≠ "" := fun empty => some (String.isEmpty_iff.mpr empty)
      exact ⟨List.forall_mem_singleton.mpr (.text nonempty), .singleton _⟩

/-- A text, an expression, and what follows it. -/
theorem PartsFormed.shown {text : String} {value : Expr} {others : List TemplatePart}
    (is : value.Formed marks) (rest : PartsFormed marks others) :
    PartsFormed marks (textParts text ++ .shown value :: others) := by
  have texts : PartsFormed marks (textParts text) := textParts_formed text
  have shows : PartsFormed marks (.shown value :: others) :=
    ⟨List.forall_mem_cons.mpr ⟨.shown is, rest.all⟩,
      rest.separate.cons fun _ _ => Or.inl rfl⟩
  refine ⟨List.forall_mem_append.mpr ⟨texts.all, shows.all⟩, ?_⟩
  refine texts.separate.append shows.separate ?_
  rintro _ _ _ ⟨⟩
  exact Or.inr rfl

theorem templateParts_yields (reads : YieldsExpr source marks expression) (fuel : Nat) :
    Yields source (PartsFormed marks) (templateParts expression fuel) := by
  induction fuel with
  | zero => exact .exhausted
  | succ fuel inductionHypothesis =>
      refine Yields.templateText.bind fun text _ => .accept (fun _ _ _ => ?_) ?_
      · refine reads.bind fun value is => (Yields.expectAfter _ _).bind fun _ _ => ?_
        exact inductionHypothesis.bind fun others rest => .pure (rest.shown is)
      · exact (Yields.expectAfter _ _).bind fun _ _ => .pure (textParts_formed text)

theorem primaryRule_yields (covers : marks.Covers source)
    (reads : YieldsExpr source marks expression) (fuel : Nat) :
    YieldsPrimary source marks (primaryRule fuel expression) := by
  have tight := suffixRank_le_primaryRank
  have constants : ∀ value, (Expr.constant value).FormedAbove marks suffixRank :=
    fun value => ⟨.constant value, tight⟩
  refine .dispatch fun kind => ?_
  cases kind with
  | trueWord | falseWord | nilWord => exact .taking (.pure (constants _))
  | maybeWord => exact Yields.toss.bind fun _ _ => .taking (.pure (constants _))
  | number =>
      dsimp only
      rw [numberLiteral_eq]
      exact .constantLiteral _ _ constants
  | string =>
      dsimp only
      rw [stringLiteral_eq]
      exact .constantLiteral _ _ constants
  | identifier =>
      exact (identifier_yields covers _).bind fun name used => .pure ⟨.variable used, tight⟩
  | leftParen => exact .taking (groupingRest_yields reads fuel)
  | leftBracket => exact .taking (arrayRest_yields reads fuel)
  | backtick =>
      refine .taking ((templateParts_yields reads fuel).bind fun parts formed => ?_)
      exact .pure ⟨.template formed.all formed.separate, tight⟩
  | _ => exact .failHere _

end Expressions

/-! ## Statements -/

section Statements

/-- Statements that stand for themselves are read. -/
abbrev YieldsStmt (source : Token → Prop) (marks : Marks) (parser : Parser Stmt) : Prop :=
  Yields source (Stmt.Formed marks) parser

/-- Statements that may be the bodies of branches and loops. -/
abbrev YieldsBody (source : Token → Prop) (marks : Marks) (parser : Parser Stmt) : Prop :=
  Yields source (Stmt.FormedBody marks) parser

/-- The statements of a body in braces, jumps included. -/
abbrev YieldsInner (source : Token → Prop) (marks : Marks) (parser : Parser (List Stmt)) : Prop :=
  Yields source (fun body => ∀ s ∈ body, s.Inner marks) parser

variable {expression : Parser Expr} {statement declaration : Parser Stmt}
  {body : Parser (List Stmt)}

theorem varRest_yields (covers : marks.Covers source) (reads : YieldsExpr source marks expression) :
    YieldsStmt source marks (varRest expression) := by
  refine (identifier_yields covers _).bind fun name bound => ?_
  have ends : ∀ initial : Option Expr, (∀ e ∈ initial, e.Formed marks) →
      YieldsStmt source marks
        (do
          let _ ← expectAfter .semicolon "variable declaration"
          pure (.var name initial)) := fun _ value =>
    (Yields.expectAfter _ _).bind fun _ _ => .pure (.var bound value)
  exact .accept (fun _ _ _ => reads.some.bind ends) (Yields.none.bind ends)

theorem constRest_yields (covers : marks.Covers source)
    (reads : YieldsExpr source marks expression) :
    YieldsStmt source marks (constRest expression) := by
  refine (identifier_yields covers _).bind fun name bound => ?_
  refine (Yields.expectAfter _ _).bind fun _ _ => reads.bind fun initial value => ?_
  exact (Yields.expectAfter _ _).bind fun _ _ => .pure (.const bound value)

theorem parameters_yields (covers : marks.Covers source) (fuel count : Nat) :
    Yields source (fun names => ∀ name ∈ names, marks.name name) (parameters fuel count) := by
  induction fuel generalizing count with
  | zero => exact .exhausted
  | succ fuel inductionHypothesis =>
      rw [parameters]
      refine .warned (.reportHere _) ((identifier_yields covers _).bind fun first is => ?_)
      refine .accept (fun _ _ _ => items_yields is (inductionHypothesis (count + 1))) ?_
      exact .pure (List.forall_mem_singleton.mpr is)

theorem functionRest_yields (covers : marks.Covers source)
    (reads : YieldsInner source marks body) (fuel : Nat) :
    Yields source (FunctionFormed marks) (functionRest fuel body) := by
  have inner : ∀ names : List Name, (∀ name ∈ names, marks.name name) →
      Yields source (FunctionFormed marks)
        (do
          let _ ← expectAfter .rightParen "parameters"
          let _ ← expectBefore .leftBrace "function body"
          let statements ← body
          pure (names, statements)) := by
    intro names marked
    refine (Yields.expectAfter _ _).bind fun _ _ => (Yields.expectBefore _ _).bind fun _ _ => ?_
    exact reads.bind fun _ statements => .pure ⟨marked, statements⟩
  refine .check fun found => ?_
  cases found with
  | true => exact inner [] (List.forall_mem_nil _)
  | false => exact (parameters_yields covers fuel 0).bind inner

theorem functionDeclaration_yields (covers : marks.Covers source)
    (reads : YieldsInner source marks body) (fuel : Nat) :
    YieldsStmt source marks (functionDeclaration fuel body) := by
  refine (identifier_yields covers _).bind fun name bound => ?_
  refine (Yields.expectAfter _ _).bind fun _ _ => ?_
  exact (functionRest_yields covers reads fuel).bind fun _ function =>
    .pure (.function bound function.parameters function.statements)

theorem argumentRule_yields (covers : marks.Covers source)
    (reads : YieldsExpr source marks expression) (readsBody : YieldsInner source marks body)
    (fuel : Nat) :
    Yields source (Expr.Passed marks) (argumentRule fuel expression body) := by
  refine .accept (fun _ _ _ => ?_) (reads.mono fun _ formed => .value formed)
  refine (Yields.expectAfter _ _).bind fun _ _ => ?_
  exact (functionRest_yields covers readsBody fuel).bind fun _ function =>
    .pure (.lambda function.parameters function.statements)

theorem jumpRest_yields {jump : Stmt} (is : jump.Inner marks) (keyword : String) :
    Yields source (Stmt.Inner marks) (jumpRest jump keyword) :=
  (Yields.expectAfter _ _).bind fun _ _ => .pure is

theorem bodyStatement_yields (reads : YieldsStmt source marks declaration) :
    Yields source (Stmt.Inner marks) (bodyStatement declaration) :=
  .accept (fun _ _ _ => jumpRest_yields .leave _)
    (.accept (fun _ _ _ => jumpRest_yields .next _) (reads.mono fun _ formed => .formed formed))

theorem bodyRest_yields (reads : YieldsStmt source marks declaration) (fuel : Nat) :
    YieldsInner source marks (bodyRest declaration fuel) := by
  induction fuel with
  | zero => exact .exhausted
  | succ fuel inductionHypothesis =>
      refine .dispatch fun next => ?_
      split
      · exact (Yields.expectAfter _ _).bind fun _ _ => .pure (List.forall_mem_nil _)
      · refine (bodyStatement_yields reads).recovered.bind fun first is => ?_
        refine inductionHypothesis.bind fun others rest => .pure ?_
        exact List.forall_mem_append.mpr ⟨fun s inside => is s (Option.mem_toList.mp inside), rest⟩

theorem printRest_yields (reads : YieldsExpr source marks expression) :
    YieldsBody source marks (printRest expression) := by
  refine reads.bind fun value is => ?_
  exact (Yields.expectAfter _ _).bind fun _ _ => .pure ⟨.print is, rfl⟩

theorem ifRest_yields (reads : YieldsExpr source marks expression)
    (readsBody : YieldsBody source marks statement) :
    YieldsBody source marks (ifRest expression statement) := by
  refine (Yields.expectAfter _ _).bind fun _ _ => reads.bind fun _ test => ?_
  refine (Yields.expectAfter _ _).bind fun _ _ => readsBody.bind fun _ inner => ?_
  refine .accept (fun _ _ _ => readsBody.bind fun _ otherwise => .pure ?_) (.pure ?_)
  · refine ⟨.branch test inner.formed inner.placed ?_ ?_, rfl⟩
    · rintro _ ⟨⟩
      exact otherwise.formed
    · rintro _ ⟨⟩
      exact otherwise.placed
  · exact ⟨.branch test inner.formed inner.placed (by rintro _ ⟨⟩) (by rintro _ ⟨⟩), rfl⟩

theorem whileRest_yields (reads : YieldsExpr source marks expression)
    (readsBody : YieldsBody source marks statement) :
    YieldsBody source marks (whileRest expression statement) := by
  refine (Yields.expectAfter _ _).bind fun _ _ => reads.bind fun _ test => ?_
  refine (Yields.expectAfter _ _).bind fun _ _ => readsBody.bind fun _ inner => ?_
  exact .pure ⟨.loop test inner.formed inner.placed, rfl⟩

theorem forInitial_yields (covers : marks.Covers source)
    (reads : YieldsExpr source marks expression) :
    Yields source (fun initial : Option Stmt => ∀ s ∈ initial, s.Formed marks)
      (forInitial expression) := by
  refine .accept (fun _ _ _ => .none) (.accept (fun _ _ _ => (varRest_yields covers reads).some) ?_)
  refine reads.bind fun value is => (Yields.expectAfter _ _).bind fun _ _ => .pure ?_
  rintro _ ⟨⟩
  exact .expression is

theorem optional_yields (reads : YieldsExpr source marks expression) (close : Kind) :
    Yields source (fun found : Option Expr => ∀ e ∈ found, e.Formed marks)
      (optional expression close) := by
  refine .check fun found => ?_
  cases found with
  | true => exact .none
  | false => exact reads.some

theorem forRest_yields (covers : marks.Covers source) (reads : YieldsExpr source marks expression)
    (readsBody : YieldsBody source marks statement) :
    YieldsBody source marks (forRest expression statement) := by
  refine (Yields.expectAfter _ _).bind fun _ _ => ?_
  refine (forInitial_yields covers reads).bind fun _ first => ?_
  refine (optional_yields reads _).bind fun _ test => (Yields.expectAfter _ _).bind fun _ _ => ?_
  refine (optional_yields reads _).bind fun _ last => (Yields.expectAfter _ _).bind fun _ _ => ?_
  refine readsBody.bind fun _ inner => .pure ?_
  obtain ⟨formed, placed⟩ := forLoop_formed first test last inner.formed inner.placed
  exact ⟨formed, placed⟩

theorem cases_yields (reads : YieldsExpr source marks expression)
    (readsBody : YieldsInner source marks body) (fuel : Nat) (hasFallback : Bool) :
    Yields source (fun all => ∀ branch ∈ all, branch.Formed marks)
      (cases expression body fuel hasFallback) := by
  induction fuel generalizing hasFallback with
  | zero => exact .exhausted
  | succ fuel inductionHypothesis =>
      refine .accept (fun _ _ _ => ?_) (.accept (fun keyword inside _ => ?_)
        (.pure (List.forall_mem_nil _)))
      · refine reads.bind fun _ label => (Yields.expectAfter _ _).bind fun _ _ => ?_
        refine (Yields.expectBefore _ _).bind fun _ _ => readsBody.bind fun _ inner => ?_
        exact items_yields (.labelled label inner) (inductionHypothesis hasFallback)
      · refine .warned (.report inside _) ((Yields.expectAfter _ _).bind fun _ _ => ?_)
        refine (Yields.expectBefore _ _).bind fun _ _ => readsBody.bind fun _ inner => ?_
        exact items_yields (.fallback inner) (inductionHypothesis true)

theorem switchRest_yields (reads : YieldsExpr source marks expression)
    (readsBody : YieldsInner source marks body) (fuel : Nat) :
    YieldsBody source marks (switchRest fuel expression body) := by
  refine reads.bind fun _ tested => (Yields.expectAfter _ _).bind fun _ _ => ?_
  exact (cases_yields reads readsBody fuel false).bind fun _ all =>
    .pure ⟨.switch tested all, rfl⟩

theorem furtherValues_yields (reads : YieldsExpr source marks expression) (fuel : Nat) :
    YieldsExprs source marks (furtherValues expression fuel) := by
  induction fuel with
  | zero => exact .exhausted
  | succ fuel inductionHypothesis =>
      refine .accept (fun _ _ _ => ?_) (.pure (List.forall_mem_nil _))
      exact reads.bind fun first is => items_yields is inductionHypothesis

theorem returnRest_yields (reads : YieldsExpr source marks expression) (fuel : Nat) :
    YieldsBody source marks (returnRest fuel expression) := by
  refine .accept (fun _ _ _ => .pure ⟨.result (by rintro _ ⟨⟩), rfl⟩) ?_
  refine reads.bind fun first is => ?_
  refine (furtherValues_yields reads fuel).bind fun others rest => ?_
  refine (Yields.expectAfter _ _).bind fun _ _ => .pure ⟨.result ?_, rfl⟩
  rintro _ ⟨⟩
  split
  · exact is
  · exact .tuple (List.forall_mem_cons.mpr ⟨is, rest⟩)

theorem expressionStatement_yields (reads : YieldsExpr source marks expression) :
    YieldsBody source marks (expressionStatement expression) := by
  refine reads.bind fun value is => ?_
  exact (Yields.expectAfter _ _).bind fun _ _ => .pure ⟨.expression is, rfl⟩

theorem statementRule_yields (covers : marks.Covers source)
    (reads : YieldsExpr source marks expression)
    (readsStatement : YieldsBody source marks statement)
    (readsBody : YieldsInner source marks body) (fuel : Nat) :
    YieldsBody source marks (statementRule fuel expression statement body) := by
  refine .dispatch fun kind => ?_
  cases kind with
  | printWord => exact .taking (printRest_yields reads)
  | leftBrace => exact .taking (readsBody.map fun _ inner => ⟨.block inner, rfl⟩)
  | ifWord => exact .taking (ifRest_yields reads readsStatement)
  | forWord => exact .taking (forRest_yields covers reads readsStatement)
  | whileWord => exact .taking (whileRest_yields reads readsStatement)
  | switchWord => exact .taking (switchRest_yields reads readsBody fuel)
  | returnWord => exact .taking (returnRest_yields reads fuel)
  | _ => exact expressionStatement_yields reads

theorem declarationRule_yields (covers : marks.Covers source)
    (reads : YieldsExpr source marks expression)
    (readsStatement : YieldsBody source marks statement)
    (readsBody : YieldsInner source marks body) (fuel : Nat) :
    YieldsStmt source marks (declarationRule fuel expression statement body) := by
  refine .dispatch fun kind => ?_
  cases kind with
  | funWord => exact .taking (functionDeclaration_yields covers readsBody fuel)
  | varWord => exact .taking (varRest_yields covers reads)
  | constWord => exact .taking (constRest_yields covers reads)
  | _ => exact readsStatement.mono fun _ formed => formed.formed

end Statements

/-! ## The grammar -/

section Grammar

/-- The parsers of the grammar, to a given depth. -/
structure GrammarYields (source : Token → Prop) (marks : Marks) (depth : Nat) : Prop where
  expression : YieldsExpr source marks (expression depth)
  operation : ∀ level : Level,
    Yields source (Expr.FormedAbove marks level.rank) (operation depth level)
  unary : Yields source (Expr.FormedAbove marks unaryRank) (unary depth)
  suffixed : YieldsPrimary source marks (suffixed depth)
  argument : Yields source (Expr.Passed marks) (argument depth)
  body : YieldsInner source marks (body depth)
  statement : YieldsBody source marks (statement depth)
  declaration : YieldsStmt source marks (declaration depth)

theorem GrammarYields.operation_succ {depth : Nat} (covers : marks.Covers source)
    (parts : GrammarYields source marks depth) (level : Level) :
    Yields source (Expr.FormedAbove marks level.rank) (Grammar.operation (depth + 1) level) := by
  have above : ∀ {operand : Parser Expr},
      Yields source (Expr.FormedAbove marks (level.rank + 1)) operand →
        Yields source (Expr.FormedAbove marks level.rank)
          (operand >>= operations level operand depth) := fun reads =>
    reads.bind fun _ first =>
      operations_yields covers reads depth ⟨first.formed, Nat.le_of_succ_le first.tight⟩
  cases level with
  | disjunction => exact above (parts.operation .conjunction)
  | conjunction => exact above (parts.operation .equality)
  | equality => exact above (parts.operation .comparison)
  | comparison => exact above (parts.operation .term)
  | term => exact above (parts.operation .factor)
  | factor => exact above parts.unary

theorem GrammarYields.unary_succ {depth : Nat} (covers : marks.Covers source)
    (parts : GrammarYields source marks depth) :
    Yields source (Expr.FormedAbove marks unaryRank) (Grammar.unary (depth + 1)) := by
  refine .select (fun op token inside chosen => ?_)
    (parts.suffixed.mono fun _ formed => ⟨formed.formed, Nat.le_of_succ_le formed.tight⟩)
  refine parts.unary.bind fun _ operand => .pure ⟨?_, Nat.le_refl _⟩
  exact .unary operand.formed operand.tight
    (covers.site_of ⟨inside, (unaryOperator_sign chosen).symm⟩)

/-- Whatever the depth, the parsers of the grammar give trees of the right shape,
with the names and sites of the tokens they read. -/
theorem grammar_yields (covers : marks.Covers source) (depth : Nat) :
    GrammarYields source marks depth := by
  induction depth with
  | zero =>
      exact ⟨.exhausted, fun _ => .exhausted, .exhausted, .exhausted, .exhausted, .exhausted,
        .exhausted, .exhausted⟩
  | succ depth parts =>
      constructor
      case expression =>
        exact (parts.operation _).bind fun _ target =>
          assignment_yields covers parts.expression target.formed
      case operation => exact parts.operation_succ covers
      case unary => exact parts.unary_succ covers
      case suffixed =>
        exact (primaryRule_yields covers parts.expression depth).bind fun _ target =>
          suffixes_yields covers parts.expression parts.argument depth target
      case argument => exact argumentRule_yields covers parts.expression parts.body depth
      case body => exact bodyRest_yields parts.declaration depth
      case statement =>
        exact statementRule_yields covers parts.expression parts.statement parts.body depth
      case declaration =>
        exact declarationRule_yields covers parts.expression parts.statement parts.body depth

/-! ## Programs -/

/-- A program of trees of the right shape, with reports at the sites of the
source. -/
structure ParseYields (source : Token → Prop) (marks : Marks) (setting : Setting) (parse : Parse) :
    Prop where
  program : ∀ s ∈ parse.program, s.Formed marks
  diagnostics : ∀ diagnostic ∈ parse.diagnostics, Located source setting diagnostic.site

theorem ParseYields.append {setting : Setting} {first second : Parse}
    (before : ParseYields source marks setting first)
    (after : ParseYields source marks setting second) :
    ParseYields source marks setting (first ++ second) :=
  ⟨List.forall_mem_append.mpr ⟨before.program, after.program⟩,
    List.forall_mem_append.mpr ⟨before.diagnostics, after.diagnostics⟩⟩

/-- Each declaration adds a tree of the right shape, if any, and the rest of the
program is read from tokens of the same source. -/
theorem program_yields (covers : marks.Covers source) (setting : Setting) (tokens : List Token)
    (within : ∀ token ∈ tokens, source token) :
    ParseYields source marks setting (program setting tokens) := by
  induction tokens using program_induction setting with
  | nil => exact ⟨List.forall_mem_nil _, List.forall_mem_nil _⟩
  | cons token rest inductionHypothesis =>
      obtain ⟨left, outcome, reports⟩ :=
        (grammar_yields covers (depthFor (token :: rest).length)).declaration.recovered setting
          (token :: rest) within
      have first : ParseYields source marks setting
          (contribution (next setting (token :: rest))) := by
        refine ⟨fun s inside => ?_, reports⟩
        exact outcome _ (Option.join_eq_some_iff.mp (Option.mem_toList.mp inside)) s rfl
      rw [program_cons]
      exact first.append (inductionHypothesis fun token inside => within token (left.subset inside))

/-- **Whatever the tokens, every statement read from them is well formed.** -/
theorem parse_wellFormed (coin : Nat → Bool) (tokens : List Token) :
    ∀ s ∈ (parse coin tokens).program, s.WellFormed :=
  (program_yields (Marks.any_covers fun _ => True) ⟨stopSite tokens, coin⟩ (bodyTokens tokens)
    fun _ _ => trivial).program

/-- What `x += nil or nil` stands for: on the right of its operation is one that
binds less tightly. -/
def updated : Stmt :=
  .expression (.assign ⟨⟨30, "x"⟩, 1⟩ (.binary (.variable ⟨⟨30, "x"⟩, 1⟩) .add
    (.logical (.constant .nil) .or (.constant .nil)) ⟨1, .lexeme "+="⟩))

/-- That assignment, and a jump that stands where none may. -/
def strayJump : List Token :=
  [⟨.identifier, "x", some (.identifier ⟨30, "x"⟩), 1⟩, plain .plusEqual "+=",
    plain .nilWord "nil", plain .orWord "or", plain .nilWord "nil", plain .semicolon ";",
    plain .breakWord "break", plain .semicolon ";"]

theorem strayJump_wellFormed :
    (parse (fun _ => true) strayJump).diagnostics =
        [⟨⟨1, .lexeme "break"⟩, .expected .expression⟩] ∧
      updated ∈ (parse (fun _ => true) strayJump).program ∧ updated.WellFormed := by
  have inside : updated ∈ (parse (fun _ => true) strayJump).program := List.mem_singleton.mpr rfl
  exact ⟨rfl, inside, parse_wellFormed (fun _ => true) strayJump updated inside⟩

end Grammar

end Grammar

end Scriptlet
