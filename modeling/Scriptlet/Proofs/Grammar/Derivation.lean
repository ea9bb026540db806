import Scriptlet.Grammar.Expression

/-!
Contract: the grammar of the language, as a relation.

`Derives coin phrase tokens rest` says that `tokens` begin with the words of the
phrase, and that `rest` follows them. A phrase names a part of the grammar and
the tree that stands for it.

Owns: `Phrase`, the operators of each level, `Derives`, and what a phrase can
begin with.

Does not own: that the parsers read exactly these phrases
(`Scriptlet.Proofs.Grammar.Soundness`, `Scriptlet.Proofs.Grammar.Completeness`).

## Choices

A statement carries whether it is dangling, that is, whether it ends in an `if`
without an `else`. What stands between `if` and `else` must not be, so that an
`else` belongs to the nearest `if` that is open. `coin` says how a `maybe` falls,
by the number of tokens from it on.
-/

set_option autoImplicit false

namespace Scriptlet.Grammar

/-- A part of the grammar, with its tree. -/
inductive Phrase where
  | primary (value : Expr)
  | suffixed (value : Expr)
  | unary (value : Expr)
  | operation (level : Level) (value : Expr)
  | expression (value : Expr)
  /-- An argument of a call, which may be a function without a name. -/
  | argument (value : Expr)
  | arguments (values : List Expr)
  /-- Expressions between commas, perhaps none, perhaps with a comma last. -/
  | elements (values : List Expr)
  | texts (text : String)
  /-- The inside of a template, up to its closing backtick. -/
  | parts (parts : List TemplatePart)
  | parameters (names : List Name)
  /-- Parameters and body, behind the opening parenthesis. -/
  | function (names : List Name) (body : List Stmt)
  /-- Statements up to a closing brace. -/
  | body (statements : List Stmt)
  | item (statement : Stmt)
  /-- A variable declaration behind `var`. -/
  | binding (statement : Stmt)
  | declaration (statement : Stmt)
  | statement (dangling : Bool) (statement : Stmt)
  /-- The first clause of a `for`, with its semicolon. -/
  | initial (statement : Option Stmt)
  /-- Another clause of a `for`. -/
  | clause (value : Option Expr)
  | cases (cases : List Case)
  /-- The values of a `return`, between commas. -/
  | values (values : List Expr)
  | program (statements : List Stmt)

/-! ## Operators -/

/-- The operands of a level. -/
def Level.operand : Level → Expr → Phrase
  | .disjunction => .operation .conjunction
  | .conjunction => .operation .equality
  | .equality => .operation .comparison
  | .comparison => .operation .term
  | .term => .operation .factor
  | .factor => .unary

/-- The operators of each level. -/
inductive Operator : Level → Kind → Connective → Prop where
  | or : Operator .disjunction .orWord (.logical .or)
  | and : Operator .conjunction .andWord (.logical .and)
  | equal : Operator .equality .equalEqual (.binary .equal)
  | notEqual : Operator .equality .bangEqual (.binary .notEqual)
  | less : Operator .comparison .less (.binary .less)
  | lessEqual : Operator .comparison .lessEqual (.binary .lessEqual)
  | greater : Operator .comparison .greater (.binary .greater)
  | greaterEqual : Operator .comparison .greaterEqual (.binary .greaterEqual)
  | add : Operator .term .plus (.binary .add)
  | sub : Operator .term .minus (.binary .sub)
  | mul : Operator .factor .star (.binary .mul)
  | div : Operator .factor .slash (.binary .div)
  | rem : Operator .factor .percent (.binary .rem)

inductive Sign : Kind → UnaryOp → Prop where
  | negate : Sign .minus .negate
  | not : Sign .bang .not

/-- What an assignment operator assigns to its target. -/
inductive Assigns (target value : Expr) (site : Site) : Kind → Expr → Prop where
  | set : Assigns target value site .equal value
  | add : Assigns target value site .plusEqual (.binary target .add value site)
  | sub : Assigns target value site .minusEqual (.binary target .sub value site)
  | mul : Assigns target value site .starEqual (.binary target .mul value site)
  | div : Assigns target value site .slashEqual (.binary target .div value site)

theorem operator_iff {level : Level} {kind : Kind} {connective : Connective} :
    Operator level kind connective ↔ level.operator? kind = some connective := by
  constructor
  · intro isOperator
    cases isOperator <;> rfl
  · intro found
    cases level <;> cases kind <;> cases found <;> constructor

theorem sign_iff {kind : Kind} {op : UnaryOp} : Sign kind op ↔ unaryOperator? kind = some op := by
  constructor
  · intro isSign
    cases isSign <;> rfl
  · intro isOperator
    cases kind <;> cases isOperator <;> constructor

theorem assigns_iff {target value assigned : Expr} {site : Site} {kind : Kind} :
    Assigns target value site kind assigned ↔
      ∃ compound, assignmentOperator? kind = some compound ∧
        assigned = assignedValue target value site compound := by
  constructor
  · intro assigns
    cases assigns <;> exact ⟨_, rfl, rfl⟩
  · rintro ⟨compound, isOperator, rfl⟩
    cases kind <;> cases isOperator <;> constructor

/-- A token that is a name. -/
def IsName (token : Token) (name : Name) : Prop :=
  token.kind = .identifier ∧ token.literal = some (.identifier name.symbol) ∧
    token.line = name.line

/-- The characters of a template that a token stands for. -/
def carriedText (token : Token) : String :=
  match token.literal with
  | some (.text value) => value
  | _ => ""

/-! ## Phrases -/

inductive Derives (coin : Nat → Bool) : Phrase → List Token → List Token → Prop where
  -- primary expressions
  | trueLiteral {token : Token} {rest : List Token} (kind : token.kind = .trueWord) :
      Derives coin (.primary (.constant (.bool true))) (token :: rest) rest
  | falseLiteral {token : Token} {rest : List Token} (kind : token.kind = .falseWord) :
      Derives coin (.primary (.constant (.bool false))) (token :: rest) rest
  | nilLiteral {token : Token} {rest : List Token} (kind : token.kind = .nilWord) :
      Derives coin (.primary (.constant .nil)) (token :: rest) rest
  | maybeLiteral {token : Token} {rest : List Token} (kind : token.kind = .maybeWord) :
      Derives coin (.primary (.constant (.bool (coin (token :: rest).length)))) (token :: rest) rest
  | number {token : Token} {rest : List Token} {value : Float} (kind : token.kind = .number)
      (literal : token.literal = some (.number value)) :
      Derives coin (.primary (.constant (.number value))) (token :: rest) rest
  | string {token : Token} {rest : List Token} {value : String} (kind : token.kind = .string)
      (literal : token.literal = some (.text value)) :
      Derives coin (.primary (.constant (.string value))) (token :: rest) rest
  | name {token : Token} {rest : List Token} {name : Name} (isName : IsName token name) :
      Derives coin (.primary (.variable name)) (token :: rest) rest
  | unit {opening closing : Token} {rest : List Token} (opens : opening.kind = .leftParen)
      (closes : closing.kind = .rightParen) :
      Derives coin (.primary (.tuple [])) (opening :: closing :: rest) rest
  | grouping {opening closing : Token} {tokens rest : List Token} {inner : Expr}
      (opens : opening.kind = .leftParen)
      (value : Derives coin (.expression inner) tokens (closing :: rest))
      (closes : closing.kind = .rightParen) :
      Derives coin (.primary (.grouping inner)) (opening :: tokens) rest
  | tuple {opening comma closing : Token} {tokens others rest : List Token} {first : Expr}
      {values : List Expr} (opens : opening.kind = .leftParen)
      (head : Derives coin (.expression first) tokens (comma :: others))
      (isComma : comma.kind = .comma)
      (tail : Derives coin (.elements values) others (closing :: rest))
      (closes : closing.kind = .rightParen) :
      Derives coin (.primary (.tuple (first :: values))) (opening :: tokens) rest
  | array {opening closing : Token} {tokens rest : List Token} {values : List Expr}
      (opens : opening.kind = .leftBracket)
      (inside : Derives coin (.elements values) tokens (closing :: rest))
      (closes : closing.kind = .rightBracket) :
      Derives coin (.primary (.array values)) (opening :: tokens) rest
  | template {opening : Token} {tokens rest : List Token} {parts : List TemplatePart}
      (opens : opening.kind = .backtick) (inside : Derives coin (.parts parts) tokens rest) :
      Derives coin (.primary (.template parts)) (opening :: tokens) rest
  | noElements {rest : List Token} : Derives coin (.elements []) rest rest
  | lastElement {tokens rest : List Token} {value : Expr}
      (last : Derives coin (.expression value) tokens rest) :
      Derives coin (.elements [value]) tokens rest
  | element {comma : Token} {tokens others rest : List Token} {value : Expr} {values : List Expr}
      (head : Derives coin (.expression value) tokens (comma :: others))
      (isComma : comma.kind = .comma) (tail : Derives coin (.elements values) others rest) :
      Derives coin (.elements (value :: values)) tokens rest
  -- templates: texts that meet are one text, and an empty text is none
  | noTexts {rest : List Token} : Derives coin (.texts "") rest rest
  | text {token : Token} {tokens rest : List Token} {others : String}
      (kind : token.kind = .templateText) (tail : Derives coin (.texts others) tokens rest) :
      Derives coin (.texts (carriedText token ++ others)) (token :: tokens) rest
  | lastText {closing : Token} {tokens rest : List Token} {text : String}
      (texts : Derives coin (.texts text) tokens (closing :: rest))
      (closes : closing.kind = .backtick) :
      Derives coin (.parts (textParts text)) tokens rest
  | shown {opening closing : Token} {tokens inside others rest : List Token} {text : String}
      {value : Expr} {parts : List TemplatePart}
      (texts : Derives coin (.texts text) tokens (opening :: inside))
      (opens : opening.kind = .dollarBrace)
      (inner : Derives coin (.expression value) inside (closing :: others))
      (closes : closing.kind = .rightBrace) (tail : Derives coin (.parts parts) others rest) :
      Derives coin (.parts (textParts text ++ .shown value :: parts)) tokens rest
  -- calls and indexing
  | primary {tokens rest : List Token} {value : Expr}
      (inner : Derives coin (.primary value) tokens rest) :
      Derives coin (.suffixed value) tokens rest
  | emptyCall {opening closing : Token} {tokens rest : List Token} {callee : Expr}
      (target : Derives coin (.suffixed callee) tokens (opening :: closing :: rest))
      (opens : opening.kind = .leftParen) (closes : closing.kind = .rightParen) :
      Derives coin (.suffixed (.call callee [] closing.site)) tokens rest
  | call {opening closing : Token} {tokens inside rest : List Token} {callee : Expr}
      {values : List Expr}
      (target : Derives coin (.suffixed callee) tokens (opening :: inside))
      (opens : opening.kind = .leftParen)
      (list : Derives coin (.arguments values) inside (closing :: rest))
      (closes : closing.kind = .rightParen) (few : values.length ≤ 255) :
      Derives coin (.suffixed (.call callee values closing.site)) tokens rest
  | index {opening closing : Token} {tokens inside rest : List Token} {target position : Expr}
      (collection : Derives coin (.suffixed target) tokens (opening :: inside))
      (opens : opening.kind = .leftBracket)
      (value : Derives coin (.expression position) inside (closing :: rest))
      (closes : closing.kind = .rightBracket) :
      Derives coin (.suffixed (.index target position opening.site)) tokens rest
  | lastArgument {tokens rest : List Token} {value : Expr}
      (last : Derives coin (.argument value) tokens rest) :
      Derives coin (.arguments [value]) tokens rest
  | moreArguments {comma : Token} {tokens others rest : List Token} {value : Expr}
      {values : List Expr} (head : Derives coin (.argument value) tokens (comma :: others))
      (isComma : comma.kind = .comma) (tail : Derives coin (.arguments values) others rest) :
      Derives coin (.arguments (value :: values)) tokens rest
  | plainArgument {tokens rest : List Token} {value : Expr}
      (inner : Derives coin (.expression value) tokens rest) :
      Derives coin (.argument value) tokens rest
  | lambda {keyword opening : Token} {tokens rest : List Token} {names : List Name}
      {statements : List Stmt} (isFun : keyword.kind = .funWord)
      (opens : opening.kind = .leftParen)
      (inner : Derives coin (.function names statements) tokens rest) :
      Derives coin (.argument (.lambda names statements)) (keyword :: opening :: tokens) rest
  -- operators, to the left, and assignment, to the right
  | suffixed {tokens rest : List Token} {value : Expr}
      (inner : Derives coin (.suffixed value) tokens rest) :
      Derives coin (.unary value) tokens rest
  | signed {sign : Token} {tokens rest : List Token} {op : UnaryOp} {value : Expr}
      (isSign : Sign sign.kind op) (operand : Derives coin (.unary value) tokens rest) :
      Derives coin (.unary (.unary op value sign.site)) (sign :: tokens) rest
  | operand {tokens rest : List Token} {level : Level} {value : Expr}
      (inner : Derives coin (level.operand value) tokens rest) :
      Derives coin (.operation level value) tokens rest
  | operation {operator : Token} {tokens others rest : List Token} {level : Level}
      {connective : Connective} {left right : Expr}
      (first : Derives coin (.operation level left) tokens (operator :: others))
      (isOperator : Operator level operator.kind connective)
      (second : Derives coin (level.operand right) others rest) :
      Derives coin (.operation level (connective.join left right operator.site)) tokens rest
  | plainExpression {tokens rest : List Token} {value : Expr}
      (inner : Derives coin (.operation .disjunction value) tokens rest) :
      Derives coin (.expression value) tokens rest
  | assign {operator : Token} {tokens others rest : List Token} {name : Name}
      {value assigned : Expr}
      (target : Derives coin (.operation .disjunction (.variable name)) tokens (operator :: others))
      (right : Derives coin (.expression value) others rest)
      (assigns : Assigns (.variable name) value operator.site operator.kind assigned) :
      Derives coin (.expression (.assign name assigned)) tokens rest
  | indexAssign {operator : Token} {tokens others rest : List Token}
      {collection position value assigned : Expr} {site : Site}
      (target : Derives coin (.operation .disjunction (.index collection position site)) tokens
        (operator :: others))
      (right : Derives coin (.expression value) others rest)
      (assigns : Assigns (.index collection position site) value operator.site operator.kind
        assigned) :
      Derives coin (.expression (.indexAssign collection position assigned site)) tokens rest
  -- functions and bodies
  | lastParameter {token : Token} {rest : List Token} {name : Name} (isName : IsName token name) :
      Derives coin (.parameters [name]) (token :: rest) rest
  | moreParameters {token comma : Token} {tokens rest : List Token} {name : Name}
      {names : List Name} (isName : IsName token name) (isComma : comma.kind = .comma)
      (tail : Derives coin (.parameters names) tokens rest) :
      Derives coin (.parameters (name :: names)) (token :: comma :: tokens) rest
  | nullary {closing opening : Token} {tokens rest : List Token} {statements : List Stmt}
      (closes : closing.kind = .rightParen) (opens : opening.kind = .leftBrace)
      (inner : Derives coin (.body statements) tokens rest) :
      Derives coin (.function [] statements) (closing :: opening :: tokens) rest
  | function {closing opening : Token} {tokens others rest : List Token} {names : List Name}
      {statements : List Stmt}
      (list : Derives coin (.parameters names) tokens (closing :: opening :: others))
      (few : names.length ≤ 255) (closes : closing.kind = .rightParen)
      (opens : opening.kind = .leftBrace)
      (inner : Derives coin (.body statements) others rest) :
      Derives coin (.function names statements) tokens rest
  | endOfBody {closing : Token} {rest : List Token} (closes : closing.kind = .rightBrace) :
      Derives coin (.body []) (closing :: rest) rest
  | body {tokens others rest : List Token} {statement : Stmt} {statements : List Stmt}
      (head : Derives coin (.item statement) tokens others)
      (tail : Derives coin (.body statements) others rest) :
      Derives coin (.body (statement :: statements)) tokens rest
  | leave {keyword semicolon : Token} {rest : List Token} (isBreak : keyword.kind = .breakWord)
      (ends : semicolon.kind = .semicolon) :
      Derives coin (.item .leave) (keyword :: semicolon :: rest) rest
  | next {keyword semicolon : Token} {rest : List Token} (isContinue : keyword.kind = .continueWord)
      (ends : semicolon.kind = .semicolon) :
      Derives coin (.item .next) (keyword :: semicolon :: rest) rest
  | item {tokens rest : List Token} {statement : Stmt}
      (inner : Derives coin (.declaration statement) tokens rest) :
      Derives coin (.item statement) tokens rest
  -- declarations
  | unbound {token semicolon : Token} {rest : List Token} {name : Name}
      (isName : IsName token name) (ends : semicolon.kind = .semicolon) :
      Derives coin (.binding (.var name none)) (token :: semicolon :: rest) rest
  | bound {token equal semicolon : Token} {tokens rest : List Token} {name : Name} {value : Expr}
      (isName : IsName token name) (isEqual : equal.kind = .equal)
      (initial : Derives coin (.expression value) tokens (semicolon :: rest))
      (ends : semicolon.kind = .semicolon) :
      Derives coin (.binding (.var name (some value))) (token :: equal :: tokens) rest
  | var {keyword : Token} {tokens rest : List Token} {statement : Stmt}
      (isVar : keyword.kind = .varWord) (inner : Derives coin (.binding statement) tokens rest) :
      Derives coin (.declaration statement) (keyword :: tokens) rest
  | const {keyword token equal semicolon : Token} {tokens rest : List Token} {name : Name}
      {value : Expr} (isConst : keyword.kind = .constWord) (isName : IsName token name)
      (isEqual : equal.kind = .equal)
      (initial : Derives coin (.expression value) tokens (semicolon :: rest))
      (ends : semicolon.kind = .semicolon) :
      Derives coin (.declaration (.const name value)) (keyword :: token :: equal :: tokens) rest
  | functionDeclaration {keyword token opening : Token} {tokens rest : List Token} {name : Name}
      {names : List Name} {statements : List Stmt} (isFun : keyword.kind = .funWord)
      (isName : IsName token name) (opens : opening.kind = .leftParen)
      (inner : Derives coin (.function names statements) tokens rest) :
      Derives coin (.declaration (.function name names statements))
        (keyword :: token :: opening :: tokens) rest
  | plainStatement {tokens rest : List Token} {dangling : Bool} {statement : Stmt}
      (inner : Derives coin (.statement dangling statement) tokens rest) :
      Derives coin (.declaration statement) tokens rest
  -- statements
  | print {keyword semicolon : Token} {tokens rest : List Token} {value : Expr}
      (isPrint : keyword.kind = .printWord)
      (inner : Derives coin (.expression value) tokens (semicolon :: rest))
      (ends : semicolon.kind = .semicolon) :
      Derives coin (.statement false (.print value)) (keyword :: tokens) rest
  | expression {semicolon : Token} {tokens rest : List Token} {value : Expr}
      (inner : Derives coin (.expression value) tokens (semicolon :: rest))
      (ends : semicolon.kind = .semicolon) :
      Derives coin (.statement false (.expression value)) tokens rest
  | block {opening : Token} {tokens rest : List Token} {statements : List Stmt}
      (opens : opening.kind = .leftBrace) (inner : Derives coin (.body statements) tokens rest) :
      Derives coin (.statement false (.block statements)) (opening :: tokens) rest
  | onlyIf {keyword opening closing : Token} {tokens others rest : List Token} {dangling : Bool}
      {condition : Expr} {consequent : Stmt} (isIf : keyword.kind = .ifWord)
      (opens : opening.kind = .leftParen)
      (test : Derives coin (.expression condition) tokens (closing :: others))
      (closes : closing.kind = .rightParen)
      (inner : Derives coin (.statement dangling consequent) others rest) :
      Derives coin (.statement true (.branch condition consequent none))
        (keyword :: opening :: tokens) rest
  | ifElse {keyword opening closing word : Token} {tokens others more rest : List Token}
      {dangling : Bool} {condition : Expr} {consequent alternative : Stmt}
      (isIf : keyword.kind = .ifWord) (opens : opening.kind = .leftParen)
      (test : Derives coin (.expression condition) tokens (closing :: others))
      (closes : closing.kind = .rightParen)
      (inner : Derives coin (.statement false consequent) others (word :: more))
      (isElse : word.kind = .elseWord)
      (last : Derives coin (.statement dangling alternative) more rest) :
      Derives coin (.statement dangling (.branch condition consequent (some alternative)))
        (keyword :: opening :: tokens) rest
  | whileLoop {keyword opening closing : Token} {tokens others rest : List Token} {dangling : Bool}
      {condition : Expr} {body : Stmt} (isWhile : keyword.kind = .whileWord)
      (opens : opening.kind = .leftParen)
      (test : Derives coin (.expression condition) tokens (closing :: others))
      (closes : closing.kind = .rightParen)
      (inner : Derives coin (.statement dangling body) others rest) :
      Derives coin (.statement dangling (.loop condition body)) (keyword :: opening :: tokens) rest
  | forLoop {keyword opening semicolon closing : Token} {tokens conditions increments others rest :
      List Token} {dangling : Bool} {initial : Option Stmt} {condition increment : Option Expr}
      {body : Stmt} (isFor : keyword.kind = .forWord) (opens : opening.kind = .leftParen)
      (start : Derives coin (.initial initial) tokens conditions)
      (test : Derives coin (.clause condition) conditions (semicolon :: increments))
      (ends : semicolon.kind = .semicolon)
      (step : Derives coin (.clause increment) increments (closing :: others))
      (closes : closing.kind = .rightParen)
      (inner : Derives coin (.statement dangling body) others rest) :
      Derives coin (.statement dangling (.forLoop initial condition increment body))
        (keyword :: opening :: tokens) rest
  | switch {keyword colon : Token} {tokens others rest : List Token} {rule : Expr}
      {cases : List Case} (isSwitch : keyword.kind = .switchWord)
      (chosen : Derives coin (.expression rule) tokens (colon :: others))
      (isColon : colon.kind = .colon) (inner : Derives coin (.cases cases) others rest)
      (oneDefault : (cases.filterMap Case.fallback?).length ≤ 1) :
      Derives coin (.statement false (.switch rule cases)) (keyword :: tokens) rest
  | returnNothing {keyword semicolon : Token} {rest : List Token}
      (isReturn : keyword.kind = .returnWord) (ends : semicolon.kind = .semicolon) :
      Derives coin (.statement false (.result none)) (keyword :: semicolon :: rest) rest
  | returnOne {keyword semicolon : Token} {tokens rest : List Token} {value : Expr}
      (isReturn : keyword.kind = .returnWord)
      (list : Derives coin (.values [value]) tokens (semicolon :: rest))
      (ends : semicolon.kind = .semicolon) :
      Derives coin (.statement false (.result (some value))) (keyword :: tokens) rest
  | returnSeveral {keyword semicolon : Token} {tokens rest : List Token} {values : List Expr}
      (isReturn : keyword.kind = .returnWord)
      (list : Derives coin (.values values) tokens (semicolon :: rest))
      (several : 2 ≤ values.length) (ends : semicolon.kind = .semicolon) :
      Derives coin (.statement false (.result (some (.tuple values)))) (keyword :: tokens) rest
  -- the parts of `for`, `switch` and `return`
  | noInitial {semicolon : Token} {rest : List Token} (ends : semicolon.kind = .semicolon) :
      Derives coin (.initial none) (semicolon :: rest) rest
  | initialVar {keyword : Token} {tokens rest : List Token} {statement : Stmt}
      (isVar : keyword.kind = .varWord) (inner : Derives coin (.binding statement) tokens rest) :
      Derives coin (.initial (some statement)) (keyword :: tokens) rest
  | initialExpression {semicolon : Token} {tokens rest : List Token} {value : Expr}
      (inner : Derives coin (.expression value) tokens (semicolon :: rest))
      (ends : semicolon.kind = .semicolon) :
      Derives coin (.initial (some (.expression value))) tokens rest
  | noClause {rest : List Token} : Derives coin (.clause none) rest rest
  | clause {tokens rest : List Token} {value : Expr}
      (inner : Derives coin (.expression value) tokens rest) :
      Derives coin (.clause (some value)) tokens rest
  | noCases {rest : List Token} : Derives coin (.cases []) rest rest
  | labelled {keyword colon opening : Token} {tokens inside others rest : List Token}
      {label : Expr} {statements : List Stmt} {cases : List Case}
      (isCase : keyword.kind = .caseWord)
      (value : Derives coin (.expression label) tokens (colon :: opening :: inside))
      (isColon : colon.kind = .colon) (opens : opening.kind = .leftBrace)
      (inner : Derives coin (.body statements) inside others)
      (tail : Derives coin (.cases cases) others rest) :
      Derives coin (.cases (.labelled label statements :: cases)) (keyword :: tokens) rest
  | fallback {keyword colon opening : Token} {tokens others rest : List Token}
      {statements : List Stmt} {cases : List Case} (isDefault : keyword.kind = .defaultWord)
      (isColon : colon.kind = .colon) (opens : opening.kind = .leftBrace)
      (inner : Derives coin (.body statements) tokens others)
      (tail : Derives coin (.cases cases) others rest) :
      Derives coin (.cases (.fallback statements :: cases)) (keyword :: colon :: opening :: tokens)
        rest
  | lastValue {tokens rest : List Token} {value : Expr}
      (last : Derives coin (.expression value) tokens rest) :
      Derives coin (.values [value]) tokens rest
  | moreValues {comma : Token} {tokens others rest : List Token} {value : Expr}
      {values : List Expr} (head : Derives coin (.expression value) tokens (comma :: others))
      (isComma : comma.kind = .comma) (tail : Derives coin (.values values) others rest) :
      Derives coin (.values (value :: values)) tokens rest
  -- programs
  | endOfProgram : Derives coin (.program []) [] []
  | program {tokens others : List Token} {statement : Stmt} {statements : List Stmt}
      (head : Derives coin (.declaration statement) tokens others)
      (tail : Derives coin (.program statements) others []) :
      Derives coin (.program (statement :: statements)) tokens []

/-! ## What a phrase begins with -/

def startsPrimary : Kind → Bool
  | .trueWord | .falseWord | .nilWord | .maybeWord | .number | .string | .identifier
  | .leftParen | .leftBracket | .backtick => true
  | _ => false

def startsExpression : Kind → Bool
  | .minus | .bang => true
  | kind => startsPrimary kind

/-- The kinds of tokens that a phrase can begin with, where it is never empty. -/
def Phrase.begins : Phrase → Kind → Bool
  | .primary _, kind | .suffixed _, kind => startsPrimary kind
  | .unary _, kind | .operation _ _, kind | .expression _, kind | .values _, kind =>
      startsExpression kind
  | .argument _, kind | .arguments _, kind => startsExpression kind || kind = .funWord
  | .parameters _, kind => kind = .identifier
  | .statement _ _, kind =>
      startsExpression kind || kind = .printWord || kind = .leftBrace || kind = .ifWord ||
        kind = .whileWord || kind = .forWord || kind = .switchWord || kind = .returnWord
  | .declaration _, kind => startsExpression kind || kind.startsStatement || kind = .leftBrace
  | .item _, kind =>
      startsExpression kind || kind.startsStatement || kind = .leftBrace || kind = .breakWord ||
        kind = .continueWord
  | _, _ => true

theorem startsExpression_of_startsPrimary {kind : Kind} (starts : startsPrimary kind = true) :
    startsExpression kind = true := by
  cases kind <;> first | rfl | cases starts

theorem Sign.starts {kind : Kind} {op : UnaryOp} (isSign : Sign kind op) :
    startsExpression kind = true := by
  cases isSign <;> rfl

open Scriptlet.Parser in
theorem Derives.begins {coin : Nat → Bool} {phrase : Phrase} {tokens rest : List Token}
    (derives : Derives coin phrase tokens rest) : phrase.begins (kindOf tokens) = true := by
  induction derives with
  | trueLiteral kind | falseLiteral kind | nilLiteral kind | maybeLiteral kind
  | number kind _ | string kind _ =>
      simp [Phrase.begins, kindOf, kind, startsPrimary]
  | name isName => simp [Phrase.begins, kindOf, isName.1, startsPrimary]
  | unit opens _ | grouping opens _ _ | tuple opens _ _ _ _ | array opens _ _
  | template opens _ =>
      simp [Phrase.begins, kindOf, opens, startsPrimary]
  | primary _ starts | emptyCall _ _ _ starts | call _ _ _ _ _ starts | index _ _ _ _ starts =>
      exact starts
  | lastArgument _ starts | moreArguments _ _ _ starts => exact starts
  | plainArgument _ starts =>
      simp only [Phrase.begins] at starts ⊢
      simp [starts]
  | lambda isFun _ _ => simp [Phrase.begins, kindOf, isFun]
  | suffixed _ starts => exact startsExpression_of_startsPrimary starts
  | signed isSign _ => exact isSign.starts
  | @operand _ _ level _ _ starts => cases level <;> exact starts
  | operation _ _ _ starts => exact starts
  | plainExpression _ starts | assign _ _ _ starts | indexAssign _ _ _ starts => exact starts
  | lastParameter isName | moreParameters isName _ _ =>
      simp [Phrase.begins, kindOf, isName.1]
  | leave isBreak _ => simp [Phrase.begins, kindOf, isBreak]
  | next isContinue _ => simp [Phrase.begins, kindOf, isContinue]
  | item _ starts =>
      simp only [Phrase.begins] at starts ⊢
      simp [starts]
  | var isVar _ => simp [Phrase.begins, kindOf, isVar, Kind.startsStatement]
  | const isConst _ _ _ _ => simp [Phrase.begins, kindOf, isConst, Kind.startsStatement]
  | functionDeclaration isFun _ _ _ => simp [Phrase.begins, kindOf, isFun, Kind.startsStatement]
  | plainStatement _ starts =>
      simp only [Phrase.begins, Bool.or_eq_true, decide_eq_true_eq] at starts ⊢
      rcases starts with ((((((starts | kind) | kind) | kind) | kind) | kind) | kind) | kind
      · simp [starts]
      all_goals simp [kind, Kind.startsStatement]
  | print isPrint _ _ => simp [Phrase.begins, kindOf, isPrint]
  | expression _ _ starts =>
      simp only [Phrase.begins] at starts ⊢
      simp [starts]
  | block opens _ => simp [Phrase.begins, kindOf, opens]
  | onlyIf isIf _ _ _ _ => simp [Phrase.begins, kindOf, isIf]
  | ifElse isIf _ _ _ _ _ _ => simp [Phrase.begins, kindOf, isIf]
  | whileLoop isWhile _ _ _ _ => simp [Phrase.begins, kindOf, isWhile]
  | forLoop isFor _ _ _ _ _ _ _ => simp [Phrase.begins, kindOf, isFor]
  | switch isSwitch _ _ _ _ => simp [Phrase.begins, kindOf, isSwitch]
  | returnNothing isReturn _ | returnOne isReturn _ _ | returnSeveral isReturn _ _ _ =>
      simp [Phrase.begins, kindOf, isReturn]
  | lastValue _ starts | moreValues _ _ _ starts => exact starts
  | _ => rfl

end Scriptlet.Grammar
