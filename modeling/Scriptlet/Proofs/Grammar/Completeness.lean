import Scriptlet.Proofs.Grammar.Soundness
import Scriptlet.Proofs.Grammar.Sequence

/-!
Contract: the parsers read every phrase that the grammar derives, with its tree.

`Accepted setting phrase tokens rest` says what the parser of a phrase does on
tokens that begin with it. Each rule of the grammar keeps `Accepted`, so that
every derivation does.

Owns: `Accepts`, `Ample`, `Accepted` and its rules, and the theorem that the
parser accepts exactly the grammar (`parse_eq_iff_derives`).

## What has to follow a phrase

The parsers take as much as they can. A phrase that could go on has to be
followed by a token that ends it: an expression by a closing token, a statement
by no `else`, `case` or `default` of its own. For operators and for calls, which
repeat to the left, `Accepted` says instead what the parser does once the rest
has been read.

Depth and fuel are enough from some bound on (`Ample`).
-/

set_option autoImplicit false

namespace Scriptlet.Grammar

open Scriptlet.Parser

/-! ## Replies without reports -/

/-- The parser takes what stands before `rest` for `value`, and reports nothing. -/
def Accepts {α : Type} (parser : Parser α) (setting : Setting) (tokens : List Token) (value : α)
    (rest : List Token) : Prop :=
  parser setting tokens = ⟨some value, rest, []⟩

section Accepts

variable {α β : Type} {setting : Setting} {tokens middle rest : List Token} {token : Token}

theorem bind_of_accepts {parser : Parser α} {value : α} (next : α → Parser β)
    (accepts : Accepts parser setting tokens value middle) :
    (parser >>= next) setting tokens = next value setting middle := by
  rw [bind_of_some value (by rw [accepts]), accepts]
  rfl

theorem Accepts.bind {parser : Parser α} {value : α} {next : α → Parser β} {final : β}
    (accepts : Accepts parser setting tokens value middle)
    (later : Accepts (next value) setting middle final rest) :
    Accepts (parser >>= next) setting tokens final rest :=
  (bind_of_accepts next accepts).trans later

theorem accepts_pure (value : α) : Accepts (pure value) setting tokens value tokens := rfl

theorem Accepts.map {parser : Parser α} {value : α} (convert : α → β)
    (accepts : Accepts parser setting tokens value rest) :
    Accepts (convert <$> parser) setting tokens (convert value) rest :=
  accepts.bind (accepts_pure (convert value))

theorem accepts_expect {kind : Kind} (what : Expectation) (isKind : token.kind = kind) :
    Accepts (expect kind what) setting (token :: rest) token rest := by
  simp [Accepts, expect, isKind]

theorem accepts_expectAfter {kind : Kind} (landmark : String) (isKind : token.kind = kind) :
    Accepts (expectAfter kind landmark) setting (token :: rest) token rest :=
  accepts_expect _ isKind

theorem accepts_expectBefore {kind : Kind} (landmark : String) (isKind : token.kind = kind) :
    Accepts (expectBefore kind landmark) setting (token :: rest) token rest :=
  accepts_expect _ isKind

theorem accepts_identifier {name : Name} (what : Expectation) (isName : IsName token name) :
    Accepts (identifier what) setting (token :: rest) name rest := by
  obtain ⟨kind, literal, line⟩ := isName
  rw [Accepts, identifier_found what setting rest kind literal, line]

theorem Accepts.taken {kind : Kind} {next : Option Token → Parser α} {final : α}
    (isKind : token.kind = kind) (later : Accepts (next (some token)) setting middle final rest) :
    Accepts (accept kind >>= next) setting (token :: middle) final rest :=
  ((chooses_accept kind next).found setting token middle () (if_pos isKind)).trans later

theorem Accepts.absent {kind : Kind} {next : Option Token → Parser α} {final : α}
    (differs : kindOf tokens ≠ kind) (later : Accepts (next none) setting tokens final rest) :
    Accepts (accept kind >>= next) setting tokens final rest := by
  cases tokens with
  | nil => exact ((chooses_accept kind next).nil setting).trans later
  | cons token others =>
      exact ((chooses_accept kind next).other setting token others (if_neg differs)).trans later

theorem Accepts.chosen {γ : Type} {choose : Kind → Option γ} {answer : γ}
    {next : Option (γ × Token) → Parser α} {final : α} (isAnswer : choose token.kind = some answer)
    (later : Accepts (next (some (answer, token))) setting middle final rest) :
    Accepts (select choose >>= next) setting (token :: middle) final rest :=
  ((chooses_select choose next).found setting token middle answer isAnswer).trans later

theorem Accepts.unchosen {γ : Type} {choose : Kind → Option γ}
    {next : Option (γ × Token) → Parser α} {final : α} (noAnswer : choose (kindOf tokens) = none)
    (later : Accepts (next none) setting tokens final rest) :
    Accepts (select choose >>= next) setting tokens final rest := by
  cases tokens with
  | nil => exact ((chooses_select choose next).nil setting).trans later
  | cons token others =>
      exact ((chooses_select choose next).other setting token others noAnswer).trans later

theorem Accepts.ahead {kind : Kind} {next : Kind → Parser α} {final : α}
    (isKind : kindOf tokens = kind) (later : Accepts (next kind) setting tokens final rest) :
    Accepts (peek >>= next) setting tokens final rest := by
  subst isKind
  exact later

theorem Accepts.found {kind : Kind} {here absent : Parser α} {final : α}
    (isKind : kindOf tokens = kind) (later : Accepts here setting tokens final rest) :
    Accepts (check kind >>= fun found => if found = true then here else absent) setting tokens final
      rest :=
  have read : Accepts (check kind) setting tokens true tokens := by simp [Accepts, check, isKind]
  read.bind later

theorem Accepts.notFound {kind : Kind} {here absent : Parser α} {final : α}
    (differs : kindOf tokens ≠ kind) (later : Accepts absent setting tokens final rest) :
    Accepts (check kind >>= fun found => if found = true then here else absent) setting tokens final
      rest :=
  have read : Accepts (check kind) setting tokens false tokens := by simp [Accepts, check, differs]
  read.bind later

theorem Accepts.taking {parser : Parser α} {final : α}
    (later : Accepts parser setting middle final rest) :
    Accepts (taking parser) setting (token :: middle) final rest := later

theorem Accepts.recovered {parser : Parser α} {value : α}
    (accepts : Accepts parser setting tokens value rest) :
    Accepts (recovered parser) setting tokens (some value) rest := by
  rw [Accepts, recovered_of_some value (by rw [accepts]), accepts]

end Accepts

/-! ## Enough depth and fuel -/

/-- Holds from some depth and fuel on. -/
def Ample (holds : Nat → Nat → Prop) : Prop :=
  ∃ bound, ∀ depth fuel, bound ≤ depth → bound ≤ fuel → holds depth fuel

section Ample

variable {first second : Nat → Nat → Prop}

theorem Ample.of_forall (always : ∀ depth fuel, first depth fuel) : Ample first :=
  ⟨0, fun depth fuel _ _ => always depth fuel⟩

theorem Ample.mono (ample : Ample first)
    (implies : ∀ depth fuel, first depth fuel → second depth fuel) : Ample second := by
  obtain ⟨bound, holds⟩ := ample
  exact ⟨bound, fun depth fuel deep fuelled => implies _ _ (holds depth fuel deep fuelled)⟩

theorem Ample.and (ample : Ample first) (other : Ample second) :
    Ample fun depth fuel => first depth fuel ∧ second depth fuel := by
  obtain ⟨bound, holds⟩ := ample
  obtain ⟨otherBound, otherHolds⟩ := other
  refine ⟨max bound otherBound, fun depth fuel deep fuelled => ⟨?_, ?_⟩⟩
  · exact holds depth fuel (by omega) (by omega)
  · exact otherHolds depth fuel (by omega) (by omega)

/-- A rule that repeats spends one unit of fuel. -/
theorem Ample.fuelled (ample : Ample first)
    (step : ∀ depth fuel, first depth fuel → second depth (fuel + 1)) : Ample second := by
  obtain ⟨bound, holds⟩ := ample
  refine ⟨bound + 1, fun depth fuel deep fuelled => ?_⟩
  obtain ⟨less, rfl⟩ : ∃ less, fuel = less + 1 := ⟨fuel - 1, by omega⟩
  exact step depth less (holds depth less (by omega) (by omega))

/-- A parser is used at one depth more than its parts, which is their fuel too. -/
theorem Ample.deeper {parser : Nat → Prop} (ample : Ample first)
    (step : ∀ depth, first depth depth → parser (depth + 1)) :
    Ample fun depth _ => parser depth := by
  obtain ⟨bound, holds⟩ := ample
  refine ⟨bound + 1, fun depth fuel deep _ => ?_⟩
  obtain ⟨less, rfl⟩ : ∃ less, depth = less + 1 := ⟨depth - 1, by omega⟩
  exact step less (holds less less (by omega) (by omega))

end Ample

/-! ## What ends a phrase -/

/-- The tokens that end the expression before them: those that can follow one, and
the keywords of statements. -/
def endsExpression : Kind → Bool
  | .semicolon | .rightParen | .comma | .rightBracket | .rightBrace | .colon => true
  | kind => kind.startsStatement

/-- A kind of token that no operand of the level goes on with: it is no tighter
operator, and it opens no call and no index. -/
structure Level.Calm (level : Level) (kind : Kind) : Prop where
  tighter : ∀ other : Level, other.height < level.height → other.operator? kind = none
  call : kind ≠ .leftParen
  index : kind ≠ .leftBracket

theorem Level.calm_of_operator {level : Level} {kind : Kind} {connective : Connective}
    (isOperator : Operator level kind connective) : level.Calm kind := by
  refine ⟨fun other lower => ?_, ?_, ?_⟩
  · cases isOperator <;> cases other <;> simp [Level.height, Level.operator?] at lower ⊢
  all_goals cases isOperator <;> decide

theorem Level.calm_of_ends {kind : Kind} (ends : endsExpression kind = true) (level : Level) :
    level.Calm kind := by
  refine ⟨fun other _ => ?_, ?_, ?_⟩
  · cases kind <;> cases ends <;> cases other <;> rfl
  all_goals cases kind <;> cases ends <;> decide

theorem operator?_of_ends {kind : Kind} (ends : endsExpression kind = true) (level : Level) :
    level.operator? kind = none := by
  cases kind <;> cases ends <;> cases level <;> rfl

theorem assignmentOperator?_of_ends {kind : Kind} (ends : endsExpression kind = true) :
    assignmentOperator? kind = none := by
  cases kind <;> cases ends <;> rfl

/-- An assignment operator is no other operator. -/
theorem Assigns.calm {target value assigned : Expr} {site : Site} {kind : Kind}
    (assigns : Assigns target value site kind assigned) :
    Level.disjunction.operator? kind = none ∧ Level.disjunction.Calm kind := by
  refine ⟨?_, fun other _ => ?_, ?_, ?_⟩
  · cases assigns <;> rfl
  · cases assigns <;> cases other <;> rfl
  all_goals cases assigns <;> decide

/-- What can follow a statement: no `else` if it is dangling, and no case. -/
structure Follows (dangling : Bool) (rest : List Token) : Prop where
  elseWord : dangling = true → kindOf rest ≠ .elseWord
  caseWord : kindOf rest ≠ .caseWord
  defaultWord : kindOf rest ≠ .defaultWord

theorem Follows.of_separate {rest : List Token} (separate : Separate rest) (dangling : Bool) :
    Follows dangling rest :=
  ⟨fun _ => separate.elseWord, separate.caseWord, separate.defaultWord⟩

/-! ## What the parser of each phrase does -/

/-- The rest of the operations of a level, behind `left`. -/
def FinishesOperation (setting : Setting) (level : Level) (left : Expr) (middle : List Token)
    (value : Expr) (rest : List Token) : Prop :=
  Ample fun depth fuel =>
    Accepts (operations level (operandAt depth level) fuel left) setting middle value rest

/-- The rest of the calls and indexes, behind `target`. -/
def FinishesSuffixes (setting : Setting) (target : Expr) (middle : List Token) (value : Expr)
    (rest : List Token) : Prop :=
  Ample fun depth fuel =>
    Accepts (suffixes (expression depth) (argument depth) fuel target) setting middle value rest

def Accepted (setting : Setting) : Phrase → List Token → List Token → Prop
  | .primary value, tokens, rest =>
      Ample fun depth fuel => Accepts (primaryRule fuel (expression depth)) setting tokens value rest
  | .suffixed value, tokens, rest =>
      ∀ final left, FinishesSuffixes setting value rest final left →
        Ample fun depth _ => Accepts (suffixed depth) setting tokens final left
  | .unary value, tokens, rest =>
      Level.factor.Calm (kindOf rest) →
        Ample fun depth _ => Accepts (unary depth) setting tokens value rest
  | .operation level value, tokens, rest =>
      level.Calm (kindOf rest) → ∀ final left, FinishesOperation setting level value rest final left →
        Ample fun depth _ => Accepts (operation depth level) setting tokens final left
  | .expression value, tokens, rest =>
      endsExpression (kindOf rest) = true →
        Ample fun depth _ => Accepts (expression depth) setting tokens value rest
  | .argument value, tokens, rest =>
      endsExpression (kindOf rest) = true →
        Ample fun depth _ => Accepts (argument depth) setting tokens value rest
  | .arguments values, tokens, rest =>
      kindOf rest = .rightParen → ∀ count, count + values.length ≤ 255 →
        Ample fun depth fuel => Accepts (arguments (argument depth) fuel count) setting tokens values rest
  | .elements values, tokens, rest =>
      ∀ close, close = .rightParen ∨ close = .rightBracket → kindOf rest = close →
        Ample fun depth fuel =>
          Accepts (elements (expression depth) close fuel) setting tokens values rest
  | .texts text, tokens, rest =>
      kindOf rest ≠ .templateText → Accepts templateText setting tokens text rest
  | .parts parts, tokens, rest =>
      Ample fun depth fuel => Accepts (templateParts (expression depth) fuel) setting tokens parts rest
  | .parameters names, tokens, rest =>
      kindOf rest = .rightParen → ∀ count, count + names.length ≤ 255 →
        Ample fun _ fuel => Accepts (parameters fuel count) setting tokens names rest
  | .function names statements, tokens, rest =>
      Ample fun depth fuel =>
        Accepts (functionRest fuel (body depth)) setting tokens (names, statements) rest
  | .body statements, tokens, rest =>
      Ample fun depth fuel => Accepts (bodyRest (declaration depth) fuel) setting tokens statements rest
  | .item statement, tokens, rest =>
      Separate rest →
        Ample fun depth _ => Accepts (bodyStatement (declaration depth)) setting tokens statement rest
  | .binding statement, tokens, rest =>
      Ample fun depth _ => Accepts (varRest (expression depth)) setting tokens statement rest
  | .declaration statement, tokens, rest =>
      Separate rest →
        Ample fun depth _ => Accepts (declaration depth) setting tokens statement rest
  | .statement dangling result, tokens, rest =>
      Follows dangling rest →
        Ample fun depth _ => Accepts (statement depth) setting tokens result rest
  | .initial result, tokens, rest =>
      Ample fun depth _ => Accepts (forInitial (expression depth)) setting tokens result rest
  | .clause value, tokens, rest =>
      ∀ close, close = .semicolon ∨ close = .rightParen → kindOf rest = close →
        Ample fun depth _ => Accepts (optional (expression depth) close) setting tokens value rest
  | .cases all, tokens, rest =>
      Follows false rest → ∀ hasFallback : Bool,
        hasFallback.toNat + (all.filterMap Case.fallback?).length ≤ 1 →
          Ample fun depth fuel =>
            Accepts (cases (expression depth) (body depth) fuel hasFallback) setting tokens all rest
  | .values values, tokens, rest =>
      endsExpression (kindOf rest) = true → kindOf rest ≠ .comma →
        ∃ first others middle, values = first :: others ∧
        (Ample fun depth _ => Accepts (expression depth) setting tokens first middle) ∧
        Ample fun depth fuel =>
          Accepts (furtherValues (expression depth) fuel) setting middle others rest
  | .program statements, tokens, _ => program setting tokens = ⟨statements, []⟩

section Expressions

variable {setting : Setting} {tokens middle rest others inside : List Token}
  {token opening closing comma operator : Token} {value : Expr} {values : List Expr}

/-! ## Primary expressions -/

namespace Accepted

theorem trueLiteral (kind : token.kind = .trueWord) :
    Accepted setting (.primary (.constant (.bool true))) (token :: rest) rest :=
  .of_forall fun _ _ => .ahead kind (.taking (accepts_pure _))

theorem falseLiteral (kind : token.kind = .falseWord) :
    Accepted setting (.primary (.constant (.bool false))) (token :: rest) rest :=
  .of_forall fun _ _ => .ahead kind (.taking (accepts_pure _))

theorem nilLiteral (kind : token.kind = .nilWord) :
    Accepted setting (.primary (.constant .nil)) (token :: rest) rest :=
  .of_forall fun _ _ => .ahead kind (.taking (accepts_pure _))

theorem maybeLiteral (kind : token.kind = .maybeWord) :
    Accepted setting (.primary (.constant (.bool (setting.coin (token :: rest).length))))
      (token :: rest) rest :=
  .of_forall fun _ _ => .ahead kind rfl

theorem number {value : Float} (kind : token.kind = .number)
    (literal : token.literal = some (.number value)) :
    Accepted setting (.primary (.constant (.number value))) (token :: rest) rest := by
  refine .of_forall fun _ _ => .ahead kind ?_
  obtain ⟨_, lexeme, _, line⟩ := token
  cases literal
  rfl

theorem string {value : String} (kind : token.kind = .string)
    (literal : token.literal = some (.text value)) :
    Accepted setting (.primary (.constant (.string value))) (token :: rest) rest := by
  refine .of_forall fun _ _ => .ahead kind ?_
  obtain ⟨_, lexeme, _, line⟩ := token
  cases literal
  rfl

theorem name {name : Name} (isName : IsName token name) :
    Accepted setting (.primary (.variable name)) (token :: rest) rest :=
  .of_forall fun _ _ => .ahead isName.1 (.bind (accepts_identifier _ isName) (accepts_pure _))

theorem unit (opens : opening.kind = .leftParen) (closes : closing.kind = .rightParen) :
    Accepted setting (.primary (.tuple [])) (opening :: closing :: rest) rest :=
  .of_forall fun _ _ => .ahead opens (.taking (.taken closes (accepts_pure _)))

theorem ends_of_kind {kind : Kind} (isKind : token.kind = kind)
    (ends : endsExpression kind = true) : endsExpression (kindOf (token :: rest)) = true := by
  rw [kindOf, isKind]
  exact ends

/-- A token that ends an expression is not one it begins with. -/
theorem ne_of_starts {close : Kind} (starts : startsExpression (kindOf tokens) = true)
    (ends : startsExpression close = false) : kindOf tokens ≠ close := by
  intro same
  rw [same, ends] at starts
  cases starts

theorem grouping {inner : Expr} (opens : opening.kind = .leftParen)
    (starts : startsExpression (kindOf tokens) = true)
    (value : Accepted setting (.expression inner) tokens (closing :: rest))
    (closes : closing.kind = .rightParen) :
    Accepted setting (.primary (.grouping inner)) (opening :: tokens) rest := by
  have notComma : kindOf (closing :: rest) ≠ .comma := by simp [kindOf, closes]
  refine (value (ends_of_kind closes rfl)).mono fun depth fuel accepts =>
    .ahead opens (.taking ?_)
  exact .absent (ne_of_starts starts rfl) (.bind accepts (.absent notComma
    (.bind (accepts_expectAfter _ closes) (accepts_pure _))))

theorem tuple {first : Expr} (opens : opening.kind = .leftParen)
    (starts : startsExpression (kindOf tokens) = true)
    (head : Accepted setting (.expression first) tokens (comma :: others))
    (isComma : comma.kind = .comma)
    (tail : Accepted setting (.elements values) others (closing :: rest))
    (closes : closing.kind = .rightParen) :
    Accepted setting (.primary (.tuple (first :: values))) (opening :: tokens) rest := by
  refine ((head (ends_of_kind isComma rfl)).and (tail .rightParen (Or.inl rfl) closes)).mono
    fun depth fuel ⟨accepts, acceptsTail⟩ => .ahead opens (.taking ?_)
  exact .absent (ne_of_starts starts rfl) (.bind accepts (.taken isComma
    (.bind acceptsTail (.bind (accepts_expectAfter _ closes) (accepts_pure _)))))

theorem array (opens : opening.kind = .leftBracket)
    (inner : Accepted setting (.elements values) tokens (closing :: rest))
    (closes : closing.kind = .rightBracket) :
    Accepted setting (.primary (.array values)) (opening :: tokens) rest :=
  (inner .rightBracket (Or.inr rfl) closes).mono fun _ _ accepts => .ahead opens (.taking
    (.bind accepts (.bind (accepts_expectAfter _ closes) (accepts_pure _))))

theorem template {parts : List TemplatePart} (opens : opening.kind = .backtick)
    (inner : Accepted setting (.parts parts) tokens rest) :
    Accepted setting (.primary (.template parts)) (opening :: tokens) rest :=
  inner.mono fun _ _ accepts => .ahead opens (.taking (.bind accepts (accepts_pure _)))

theorem noElements : Accepted setting (.elements []) rest rest := by
  intro close isClose closes
  refine Ample.fuelled (.of_forall fun _ _ => trivial) fun depth fuel _ => .ahead closes ?_
  simp only [true_or, if_true]
  exact accepts_pure _

/-- Elements go on where an expression begins. -/
theorem elements_some {close : Kind} {fuel : Nat} {parser : Parser Expr}
    (starts : startsExpression (kindOf tokens) = true)
    (isClose : close = .rightParen ∨ close = .rightBracket)
    (later : Accepts
      (do
        let first ← parser
        match ← accept .comma with
        | none => pure [first]
        | some _ =>
            let others ← Grammar.elements parser close fuel
            pure (first :: others)) setting tokens values rest) :
    Accepts (Grammar.elements parser close (fuel + 1)) setting tokens values rest := by
  have goesOn : ¬ (kindOf tokens = close ∨ kindOf tokens = .endOfInput) := by
    rintro (same | same)
    · refine ne_of_starts starts ?_ same
      rcases isClose with rfl | rfl <;> rfl
    · exact ne_of_starts starts rfl same
  refine .ahead rfl ?_
  simp only [goesOn, if_false]
  exact later

theorem lastElement (starts : startsExpression (kindOf tokens) = true)
    (last : Accepted setting (.expression value) tokens rest) :
    Accepted setting (.elements [value]) tokens rest := by
  intro close isClose closes
  have ends : endsExpression (kindOf rest) = true := by
    rw [closes]
    rcases isClose with rfl | rfl <;> rfl
  have notComma : kindOf rest ≠ .comma := by
    rw [closes]
    rcases isClose with rfl | rfl <;> decide
  exact (last ends).fuelled fun depth fuel accepts =>
    elements_some starts isClose (.bind accepts (.absent notComma (accepts_pure _)))

theorem element (starts : startsExpression (kindOf tokens) = true)
    (head : Accepted setting (.expression value) tokens (comma :: others))
    (isComma : comma.kind = .comma) (tail : Accepted setting (.elements values) others rest) :
    Accepted setting (.elements (value :: values)) tokens rest := by
  intro close isClose closes
  exact ((head (ends_of_kind isComma rfl)).and (tail close isClose closes)).fuelled
    fun depth fuel ⟨accepts, acceptsTail⟩ => elements_some starts isClose
      (.bind accepts (.taken isComma (.bind acceptsTail (accepts_pure _))))

/-! ## Templates -/

theorem noTexts : Accepted setting (.texts "") rest rest :=
  fun other => templateText_other setting other

theorem text {others : String} (kind : token.kind = .templateText)
    (tail : Accepted setting (.texts others) tokens rest) :
    Accepted setting (.texts (carriedText token ++ others)) (token :: tokens) rest := by
  intro other
  rw [Accepts, templateText_cons setting tokens kind, tail other]
  rfl

theorem lastText {text : String} (texts : Accepted setting (.texts text) tokens (closing :: rest))
    (closes : closing.kind = .backtick) :
    Accepted setting (.parts (textParts text)) tokens rest := by
  have noText : kindOf (closing :: rest) ≠ .templateText := by simp [kindOf, closes]
  have noValue : kindOf (closing :: rest) ≠ .dollarBrace := by simp [kindOf, closes]
  exact Ample.fuelled (.of_forall fun _ _ => texts noText) fun depth fuel accepts =>
    .bind accepts (.absent noValue (.bind (accepts_expectAfter _ closes) (accepts_pure _)))

theorem shown {text : String} {parts : List TemplatePart}
    (texts : Accepted setting (.texts text) tokens (opening :: inside))
    (opens : opening.kind = .dollarBrace)
    (inner : Accepted setting (.expression value) inside (closing :: others))
    (closes : closing.kind = .rightBrace) (tail : Accepted setting (.parts parts) others rest) :
    Accepted setting (.parts (textParts text ++ .shown value :: parts)) tokens rest := by
  have noText : kindOf (opening :: inside) ≠ .templateText := by simp [kindOf, opens]
  exact ((inner (ends_of_kind closes rfl)).and tail).fuelled
    fun depth fuel both => .bind (texts noText) (.taken opens (.bind both.1
      (.bind (accepts_expectAfter _ closes) (.bind both.2 (accepts_pure _)))))

/-! ## Calls and indexing -/

theorem primary (inner : Accepted setting (.primary value) tokens rest) :
    Accepted setting (.suffixed value) tokens rest :=
  fun _ _ finishes => (Ample.and inner finishes).deeper fun _ ⟨accepts, later⟩ =>
    .bind accepts later

/-- A call behind `callee`, and what follows it. -/
theorem finishes_call {callee : Expr} {site : Site} {final : Expr} {left : List Token}
    (opens : opening.kind = .leftParen)
    (called : Ample fun depth fuel =>
      Accepts (callRest fuel (argument depth) callee) setting inside (.call callee values site) rest)
    (finishes : FinishesSuffixes setting (.call callee values site) rest final left) :
    FinishesSuffixes setting callee (opening :: inside) final left :=
  (called.and finishes).fuelled fun _ _ ⟨accepts, later⟩ => .taken opens (.bind accepts later)

theorem emptyCall {callee : Expr}
    (target : Accepted setting (.suffixed callee) tokens (opening :: closing :: rest))
    (opens : opening.kind = .leftParen) (closes : closing.kind = .rightParen) :
    Accepted setting (.suffixed (.call callee [] closing.site)) tokens rest := by
  intro final left finishes
  refine target final left (finishes_call opens (.of_forall fun depth fuel => ?_) finishes)
  exact .found closes (.bind (accepts_pure []) (.bind (accepts_expectAfter _ closes)
    (accepts_pure _)))

theorem call {callee : Expr}
    (target : Accepted setting (.suffixed callee) tokens (opening :: inside))
    (opens : opening.kind = .leftParen)
    (starts : (Phrase.arguments values).begins (kindOf inside) = true)
    (list : Accepted setting (.arguments values) inside (closing :: rest))
    (closes : closing.kind = .rightParen) (few : values.length ≤ 255) :
    Accepted setting (.suffixed (.call callee values closing.site)) tokens rest := by
  have someArgument : kindOf inside ≠ .rightParen := by
    intro same
    rw [same] at starts
    cases starts
  intro final left finishes
  refine target final left (finishes_call opens ?_ finishes)
  exact (list closes 0 (by omega)).mono fun _ _ accepts => .notFound someArgument (.bind accepts
    (.bind (accepts_expectAfter _ closes) (accepts_pure _)))

theorem index {target position : Expr}
    (collection : Accepted setting (.suffixed target) tokens (opening :: inside))
    (opens : opening.kind = .leftBracket)
    (inner : Accepted setting (.expression position) inside (closing :: rest))
    (closes : closing.kind = .rightBracket) :
    Accepted setting (.suffixed (.index target position opening.site)) tokens rest := by
  have noCall : kindOf (opening :: inside) ≠ .leftParen := by simp [kindOf, opens]
  intro final left finishes
  refine collection final left (((inner (ends_of_kind closes rfl)).and finishes).fuelled ?_)
  rintro depth fuel ⟨accepts, later⟩
  exact .absent noCall (.taken opens (.bind (.bind accepts (.bind (accepts_expectAfter _ closes)
    (accepts_pure _))) later))

/-- The arguments of a call are counted before each of them. -/
theorem arguments_some {count fuel : Nat} {parser : Parser Expr} (few : count < 255)
    (later : Accepts
      (do
        let first ← parser
        match ← accept .comma with
        | none => pure [first]
        | some _ =>
            let others ← Grammar.arguments parser fuel (count + 1)
            pure (first :: others)) setting tokens values rest) :
    Accepts (Grammar.arguments parser (fuel + 1) count) setting tokens values rest := by
  have notMany : ¬ maxArguments ≤ count := Nat.not_le.mpr few
  rw [Grammar.arguments, if_neg notMany]
  exact later

theorem lastArgument (last : Accepted setting (.argument value) tokens rest) :
    Accepted setting (.arguments [value]) tokens rest := by
  intro closes count few
  have ends : endsExpression (kindOf rest) = true := by
    rw [closes]
    rfl
  have notComma : kindOf rest ≠ .comma := by simp [closes]
  exact (last ends).fuelled fun depth fuel accepts =>
    arguments_some few (.bind accepts (.absent notComma (accepts_pure _)))

theorem moreArguments (head : Accepted setting (.argument value) tokens (comma :: others))
    (isComma : comma.kind = .comma) (tail : Accepted setting (.arguments values) others rest) :
    Accepted setting (.arguments (value :: values)) tokens rest := by
  intro closes count few
  simp only [List.length_cons] at few
  exact ((head (ends_of_kind isComma rfl)).and (tail closes (count + 1) (by omega))).fuelled
    fun depth fuel ⟨accepts, acceptsTail⟩ => arguments_some (by omega)
      (.bind accepts (.taken isComma (.bind acceptsTail (accepts_pure _))))

theorem plainArgument (starts : startsExpression (kindOf tokens) = true)
    (inner : Accepted setting (.expression value) tokens rest) :
    Accepted setting (.argument value) tokens rest :=
  fun ends => (inner ends).deeper fun _ accepts => .absent (ne_of_starts starts rfl) accepts

theorem lambda {keyword : Token} {names : List Name} {statements : List Stmt}
    (isFun : keyword.kind = .funWord) (opens : opening.kind = .leftParen)
    (inner : Accepted setting (.function names statements) tokens rest) :
    Accepted setting (.argument (.lambda names statements)) (keyword :: opening :: tokens) rest :=
  fun _ => Ample.deeper inner fun _ accepts => .taken isFun (.bind (accepts_expectAfter _ opens)
    (.bind accepts (accepts_pure _)))

/-! ## Operators and assignment -/

theorem suffixed (starts : startsPrimary (kindOf tokens) = true)
    (inner : Accepted setting (.suffixed value) tokens rest) :
    Accepted setting (.unary value) tokens rest := by
  intro calm
  have finishes : FinishesSuffixes setting value rest value rest :=
    Ample.fuelled (.of_forall fun _ _ => trivial) fun _ _ _ =>
      .absent calm.call (.absent calm.index (accepts_pure _))
  have noSign : unaryOperator? (kindOf tokens) = none := by
    generalize kindOf tokens = kind at starts
    cases kind <;> cases starts <;> rfl
  exact (inner value rest finishes).deeper fun _ accepts => .unchosen noSign accepts

theorem signed {sign : Token} {op : UnaryOp} (isSign : Sign sign.kind op)
    (operand : Accepted setting (.unary value) tokens rest) :
    Accepted setting (.unary (.unary op value sign.site)) (sign :: tokens) rest :=
  fun calm => (operand calm).deeper fun _ accepts =>
    .chosen (sign_iff.mp isSign) (.bind accepts (accepts_pure _))

/-- The operations of a level end before a token that is no operator of it. -/
theorem finishes_here {level : Level} (absent : level.operator? (kindOf rest) = none) :
    FinishesOperation setting level value rest value rest :=
  Ample.fuelled (.of_forall fun _ _ => trivial) fun _ _ _ => .unchosen absent (accepts_pure _)

/-- The operand of a level, before a token that it does not go on with. -/
theorem operandAt_accepts {level : Level}
    (inner : Accepted setting (level.operand value) tokens rest)
    (calm : level.Calm (kindOf rest)) :
    Ample fun depth _ => Accepts (operandAt depth level) setting tokens value rest := by
  have tighter : ∀ other : Level, other.height < level.height →
      Accepted setting (.operation other value) tokens rest →
        Ample fun depth _ => Accepts (Grammar.operation depth other) setting tokens value rest := by
    intro other lower operation
    refine operation ⟨fun third below => calm.tighter third (by omega), calm.call, calm.index⟩ value
      rest (finishes_here (calm.tighter other lower))
  cases level with
  | disjunction => exact tighter .conjunction (by decide) inner
  | conjunction => exact tighter .equality (by decide) inner
  | equality => exact tighter .comparison (by decide) inner
  | comparison => exact tighter .term (by decide) inner
  | term => exact tighter .factor (by decide) inner
  | factor => exact inner calm

theorem operand {level : Level} (inner : Accepted setting (level.operand value) tokens rest) :
    Accepted setting (.operation level value) tokens rest :=
  fun calm _ _ finishes => ((operandAt_accepts inner calm).and finishes).deeper
    fun _ ⟨accepts, later⟩ => .bind accepts later

theorem operation {level : Level} {connective : Connective} {left right : Expr}
    (first : Accepted setting (.operation level left) tokens (operator :: others))
    (isOperator : Operator level operator.kind connective)
    (second : Accepted setting (level.operand right) others rest) :
    Accepted setting (.operation level (connective.join left right operator.site)) tokens rest := by
  intro calm final last finishes
  refine first (Level.calm_of_operator isOperator) final last ?_
  exact ((operandAt_accepts second calm).and finishes).fuelled fun _ _ ⟨accepts, later⟩ =>
    .chosen (operator_iff.mp isOperator) (.bind accepts later)

theorem plainExpression (inner : Accepted setting (.operation .disjunction value) tokens rest) :
    Accepted setting (.expression value) tokens rest := by
  intro ends
  have read := inner (Level.calm_of_ends ends _) value rest (finishes_here (operator?_of_ends ends _))
  exact read.deeper fun _ accepts => .bind accepts
    (.unchosen (assignmentOperator?_of_ends ends) (accepts_pure _))

/-- The left side of an assignment, and its value. -/
theorem assigned {target assigned : Expr}
    (first : Accepted setting (.operation .disjunction target) tokens (operator :: others))
    (right : Accepted setting (.expression value) others rest)
    (assigns : Assigns target value operator.site operator.kind assigned)
    (ends : endsExpression (kindOf rest) = true) :
    Ample fun depth _ =>
      Accepts (Grammar.operation depth .disjunction) setting tokens target (operator :: others) ∧
        Accepts (Grammar.expression depth) setting others value rest :=
  (first assigns.calm.2 target _ (finishes_here assigns.calm.1)).and (right ends)

theorem assign {name : Name} {result : Expr}
    (target : Accepted setting (.operation .disjunction (.variable name)) tokens
      (operator :: others))
    (right : Accepted setting (.expression value) others rest)
    (assigns : Assigns (.variable name) value operator.site operator.kind result) :
    Accepted setting (.expression (.assign name result)) tokens rest := by
  intro ends
  obtain ⟨compound, isOperator, rfl⟩ := assigns_iff.mp assigns
  exact (assigned target right assigns ends).deeper fun _ ⟨accepts, acceptsRight⟩ =>
    .bind accepts (.chosen isOperator (.bind acceptsRight (accepts_pure _)))

theorem indexAssign {collection position result : Expr} {site : Site}
    (target : Accepted setting (.operation .disjunction (.index collection position site)) tokens
      (operator :: others))
    (right : Accepted setting (.expression value) others rest)
    (assigns : Assigns (.index collection position site) value operator.site operator.kind
      result) :
    Accepted setting (.expression (.indexAssign collection position result site)) tokens rest := by
  intro ends
  obtain ⟨compound, isOperator, rfl⟩ := assigns_iff.mp assigns
  exact (assigned target right assigns ends).deeper fun _ ⟨accepts, acceptsRight⟩ =>
    .bind accepts (.chosen isOperator (.bind acceptsRight (accepts_pure _)))

end Accepted

end Expressions

section Statements

variable {setting : Setting} {tokens middle rest others inside : List Token}
  {keyword token opening closing comma semicolon colon equal : Token} {value : Expr}
  {names : List Name} {result : Stmt} {statements : List Stmt}

namespace Accepted

/-! ## Functions and bodies -/

theorem parameters_some {count fuel : Nat} (few : count < 255)
    (later : Accepts
      (do
        let first ← identifier .parameterName
        match ← accept .comma with
        | none => pure [first]
        | some _ =>
            let others ← Grammar.parameters fuel (count + 1)
            pure (first :: others)) setting tokens names rest) :
    Accepts (Grammar.parameters (fuel + 1) count) setting tokens names rest := by
  have notMany : ¬ maxArguments ≤ count := Nat.not_le.mpr few
  rw [Grammar.parameters, if_neg notMany]
  exact later

theorem lastParameter {name : Name} (isName : IsName token name) :
    Accepted setting (.parameters [name]) (token :: rest) rest := by
  intro closes count few
  have notComma : kindOf rest ≠ .comma := by simp [closes]
  exact Ample.fuelled (.of_forall fun _ _ => trivial) fun _ fuel _ =>
    parameters_some few (.bind (accepts_identifier _ isName) (.absent notComma (accepts_pure _)))

theorem moreParameters {name : Name} (isName : IsName token name) (isComma : comma.kind = .comma)
    (tail : Accepted setting (.parameters names) tokens rest) :
    Accepted setting (.parameters (name :: names)) (token :: comma :: tokens) rest := by
  intro closes count few
  simp only [List.length_cons] at few
  exact (tail closes (count + 1) (by omega)).fuelled fun _ fuel accepts =>
    parameters_some (by omega) (.bind (accepts_identifier _ isName) (.taken isComma
      (.bind accepts (accepts_pure _))))

/-- A body is read one depth above its statements. -/
theorem body_accepts (inner : Accepted setting (.body statements) tokens rest) :
    Ample fun depth _ => Accepts (Grammar.body depth) setting tokens statements rest :=
  Ample.deeper inner fun _ accepts => accepts

theorem nullary (closes : closing.kind = .rightParen) (opens : opening.kind = .leftBrace)
    (inner : Accepted setting (.body statements) tokens rest) :
    Accepted setting (.function [] statements) (closing :: opening :: tokens) rest :=
  (body_accepts inner).mono fun _ _ accepts => .found closes (.bind (accepts_pure [])
    (.bind (accepts_expectAfter _ closes) (.bind (accepts_expectBefore _ opens)
      (.bind accepts (accepts_pure _)))))

theorem function (starts : (Phrase.parameters names).begins (kindOf tokens) = true)
    (list : Accepted setting (.parameters names) tokens (closing :: opening :: others))
    (few : names.length ≤ 255) (closes : closing.kind = .rightParen)
    (opens : opening.kind = .leftBrace)
    (inner : Accepted setting (.body statements) others rest) :
    Accepted setting (.function names statements) tokens rest := by
  have someName : kindOf tokens ≠ .rightParen := by
    intro same
    rw [same] at starts
    cases starts
  exact ((list closes 0 (by omega)).and (body_accepts inner)).mono
    fun _ _ ⟨acceptsNames, accepts⟩ => .notFound someName (.bind acceptsNames
      (.bind (accepts_expectAfter _ closes) (.bind (accepts_expectBefore _ opens)
        (.bind accepts (accepts_pure _)))))

theorem endOfBody (closes : closing.kind = .rightBrace) :
    Accepted setting (.body []) (closing :: rest) rest := by
  refine Ample.fuelled (.of_forall fun _ _ => trivial) fun depth fuel _ => .ahead closes ?_
  simp only [true_or, if_true]
  exact .bind (accepts_expectAfter _ closes) (accepts_pure _)

theorem body (starts : (Phrase.item result).begins (kindOf tokens) = true)
    (separate : Separate others) (head : Accepted setting (.item result) tokens others)
    (tail : Accepted setting (.body statements) others rest) :
    Accepted setting (.body (result :: statements)) tokens rest := by
  have goesOn : ¬ (kindOf tokens = .rightBrace ∨ kindOf tokens = .endOfInput) := by
    rintro (same | same) <;> rw [same] at starts <;> cases starts
  refine (Ample.and (head separate) tail).fuelled fun depth fuel ⟨accepts, acceptsTail⟩ =>
    .ahead rfl ?_
  simp only [goesOn, if_false]
  exact .bind accepts.recovered (.bind acceptsTail (accepts_pure _))

theorem leave (isBreak : keyword.kind = .breakWord) (ends : semicolon.kind = .semicolon) :
    Accepted setting (.item .leave) (keyword :: semicolon :: rest) rest :=
  fun _ => .of_forall fun _ _ => .taken isBreak (.bind (accepts_expectAfter _ ends)
    (accepts_pure _))

theorem next (isContinue : keyword.kind = .continueWord) (ends : semicolon.kind = .semicolon) :
    Accepted setting (.item .next) (keyword :: semicolon :: rest) rest := by
  have notBreak : kindOf (keyword :: semicolon :: rest) ≠ .breakWord := by
    simp [kindOf, isContinue]
  exact fun _ => .of_forall fun _ _ => .absent notBreak (.taken isContinue
    (.bind (accepts_expectAfter _ ends) (accepts_pure _)))

theorem item (starts : (Phrase.declaration result).begins (kindOf tokens) = true)
    (inner : Accepted setting (.declaration result) tokens rest) :
    Accepted setting (.item result) tokens rest := by
  have notJump : kindOf tokens ≠ .breakWord ∧ kindOf tokens ≠ .continueWord := by
    constructor <;> intro same <;> rw [same] at starts <;> cases starts
  exact fun separate => (inner separate).mono fun _ _ accepts =>
    .absent notJump.1 (.absent notJump.2 accepts)

/-! ## Declarations -/

theorem unbound {name : Name} (isName : IsName token name) (ends : semicolon.kind = .semicolon) :
    Accepted setting (.binding (.var name none)) (token :: semicolon :: rest) rest := by
  have notBound : kindOf (semicolon :: rest) ≠ .equal := by simp [kindOf, ends]
  exact .of_forall fun _ _ => .bind (accepts_identifier _ isName) (.absent notBound
    (.bind (accepts_pure none) (.bind (accepts_expectAfter _ ends) (accepts_pure _))))

theorem bound {name : Name} (isName : IsName token name) (isEqual : equal.kind = .equal)
    (initial : Accepted setting (.expression value) tokens (semicolon :: rest))
    (ends : semicolon.kind = .semicolon) :
    Accepted setting (.binding (.var name (some value))) (token :: equal :: tokens) rest :=
  (initial (ends_of_kind ends rfl)).mono fun _ _ accepts => .bind (accepts_identifier _ isName)
    (.taken isEqual (.bind (accepts.map some) (.bind (accepts_expectAfter _ ends)
      (accepts_pure _))))

theorem var (isVar : keyword.kind = .varWord)
    (inner : Accepted setting (.binding result) tokens rest) :
    Accepted setting (.declaration result) (keyword :: tokens) rest :=
  fun _ => Ample.deeper inner fun _ accepts => .ahead isVar (.taking accepts)

theorem const {name : Name} (isConst : keyword.kind = .constWord) (isName : IsName token name)
    (isEqual : equal.kind = .equal)
    (initial : Accepted setting (.expression value) tokens (semicolon :: rest))
    (ends : semicolon.kind = .semicolon) :
    Accepted setting (.declaration (.const name value)) (keyword :: token :: equal :: tokens)
      rest :=
  fun _ => (initial (ends_of_kind ends rfl)).deeper fun _ accepts => .ahead isConst (.taking
    (.bind (accepts_identifier _ isName) (.bind (accepts_expectAfter _ isEqual) (.bind accepts
      (.bind (accepts_expectAfter _ ends) (accepts_pure _))))))

theorem functionDeclaration {name : Name} (isFun : keyword.kind = .funWord)
    (isName : IsName token name) (opens : opening.kind = .leftParen)
    (inner : Accepted setting (.function names statements) tokens rest) :
    Accepted setting (.declaration (.function name names statements))
      (keyword :: token :: opening :: tokens) rest :=
  fun _ => Ample.deeper inner fun _ accepts => .ahead isFun (.taking
    (.bind (accepts_identifier _ isName) (.bind (accepts_expectAfter _ opens) (.bind accepts
      (accepts_pure _)))))

theorem plainStatement {dangling : Bool}
    (starts : (Phrase.statement dangling result).begins (kindOf tokens) = true)
    (inner : Accepted setting (.statement dangling result) tokens rest) :
    Accepted setting (.declaration result) tokens rest := by
  intro separate
  refine (inner (.of_separate separate dangling)).deeper fun depth accepts => .ahead rfl ?_
  have notDeclared : kindOf tokens ≠ .funWord ∧ kindOf tokens ≠ .varWord ∧
      kindOf tokens ≠ .constWord := by
    refine ⟨?_, ?_, ?_⟩ <;> intro same <;> rw [same] at starts <;> cases starts
  split
  · exact absurd ‹_› notDeclared.1
  · exact absurd ‹_› notDeclared.2.1
  · exact absurd ‹_› notDeclared.2.2
  · exact accepts

/-! ## Statements -/

theorem print (isPrint : keyword.kind = .printWord)
    (inner : Accepted setting (.expression value) tokens (semicolon :: rest))
    (ends : semicolon.kind = .semicolon) :
    Accepted setting (.statement false (.print value)) (keyword :: tokens) rest :=
  fun _ => (inner (ends_of_kind ends rfl)).deeper fun _ accepts => .ahead isPrint (.taking
    (.bind accepts (.bind (accepts_expectAfter _ ends) (accepts_pure _))))

theorem expression (starts : startsExpression (kindOf tokens) = true)
    (inner : Accepted setting (.expression value) tokens (semicolon :: rest))
    (ends : semicolon.kind = .semicolon) :
    Accepted setting (.statement false (.expression value)) tokens rest := by
  intro _
  refine (inner (ends_of_kind ends rfl)).deeper fun depth accepts => .ahead rfl ?_
  have read : Accepts (expressionStatement (Grammar.expression depth)) setting tokens
      (.expression value) rest :=
    .bind accepts (.bind (accepts_expectAfter _ ends) (accepts_pure _))
  -- no statement with a keyword begins like an expression
  generalize kindOf tokens = kind at starts ⊢
  cases kind <;> first | exact read | cases starts

theorem block (opens : opening.kind = .leftBrace)
    (inner : Accepted setting (.body statements) tokens rest) :
    Accepted setting (.statement false (.block statements)) (opening :: tokens) rest :=
  fun _ => (body_accepts inner).deeper fun _ accepts => .ahead opens (.taking (accepts.map _))

theorem onlyIf {dangling : Bool} {condition : Expr} {consequent : Stmt}
    (isIf : keyword.kind = .ifWord) (opens : opening.kind = .leftParen)
    (test : Accepted setting (.expression condition) tokens (closing :: others))
    (closes : closing.kind = .rightParen)
    (inner : Accepted setting (.statement dangling consequent) others rest) :
    Accepted setting (.statement true (.branch condition consequent none))
      (keyword :: opening :: tokens) rest := by
  intro follows
  have innerFollows : Follows dangling rest :=
    ⟨fun _ => follows.elseWord rfl, follows.caseWord, follows.defaultWord⟩
  exact ((test (ends_of_kind closes rfl)).and (inner innerFollows)).deeper
    fun _ ⟨acceptsTest, accepts⟩ => .ahead isIf (.taking (.bind (accepts_expectAfter _ opens)
      (.bind acceptsTest (.bind (accepts_expectAfter _ closes) (.bind accepts
        (.absent (follows.elseWord rfl) (accepts_pure _)))))))

theorem ifElse {dangling : Bool} {condition : Expr} {consequent alternative : Stmt} {word : Token}
    (isIf : keyword.kind = .ifWord) (opens : opening.kind = .leftParen)
    (test : Accepted setting (.expression condition) tokens (closing :: others))
    (closes : closing.kind = .rightParen)
    (inner : Accepted setting (.statement false consequent) others (word :: middle))
    (isElse : word.kind = .elseWord)
    (last : Accepted setting (.statement dangling alternative) middle rest) :
    Accepted setting (.statement dangling (.branch condition consequent (some alternative)))
      (keyword :: opening :: tokens) rest := by
  intro follows
  have innerFollows : Follows false (word :: middle) :=
    ⟨Bool.noConfusion, by simp [kindOf, isElse], by simp [kindOf, isElse]⟩
  exact ((test (ends_of_kind closes rfl)).and ((inner innerFollows).and (last follows))).deeper
    fun _ parts => .ahead isIf (.taking
      (.bind (accepts_expectAfter _ opens) (.bind parts.1 (.bind (accepts_expectAfter _ closes)
        (.bind parts.2.1 (.taken isElse (.bind parts.2.2 (accepts_pure _))))))))

theorem whileLoop {dangling : Bool} {condition : Expr} (isWhile : keyword.kind = .whileWord)
    (opens : opening.kind = .leftParen)
    (test : Accepted setting (.expression condition) tokens (closing :: others))
    (closes : closing.kind = .rightParen)
    (inner : Accepted setting (.statement dangling result) others rest) :
    Accepted setting (.statement dangling (.loop condition result)) (keyword :: opening :: tokens)
      rest :=
  fun follows => ((test (ends_of_kind closes rfl)).and (inner follows)).deeper
    fun _ ⟨acceptsTest, accepts⟩ => .ahead isWhile (.taking (.bind (accepts_expectAfter _ opens)
      (.bind acceptsTest (.bind (accepts_expectAfter _ closes) (.bind accepts
        (accepts_pure _))))))

theorem forLoop {dangling : Bool} {initial : Option Stmt} {condition increment : Option Expr}
    (isFor : keyword.kind = .forWord) (opens : opening.kind = .leftParen)
    (start : Accepted setting (.initial initial) tokens middle)
    (test : Accepted setting (.clause condition) middle (semicolon :: inside))
    (ends : semicolon.kind = .semicolon)
    (step : Accepted setting (.clause increment) inside (closing :: others))
    (closes : closing.kind = .rightParen)
    (inner : Accepted setting (.statement dangling result) others rest) :
    Accepted setting (.statement dangling (.forLoop initial condition increment result))
      (keyword :: opening :: tokens) rest :=
  fun follows => (Ample.and start ((test .semicolon (Or.inl rfl) ends).and
    ((step .rightParen (Or.inr rfl) closes).and (inner follows)))).deeper
    fun _ ⟨acceptsStart, acceptsTest, acceptsStep, accepts⟩ => .ahead isFor (.taking
      (.bind (accepts_expectAfter _ opens) (.bind acceptsStart (.bind acceptsTest
        (.bind (accepts_expectAfter _ ends) (.bind acceptsStep
          (.bind (accepts_expectAfter _ closes) (.bind accepts (accepts_pure _)))))))))

theorem noInitial (ends : semicolon.kind = .semicolon) :
    Accepted setting (.initial none) (semicolon :: rest) rest :=
  .of_forall fun _ _ => .taken ends (accepts_pure _)

theorem initialVar (isVar : keyword.kind = .varWord)
    (inner : Accepted setting (.binding result) tokens rest) :
    Accepted setting (.initial (some result)) (keyword :: tokens) rest := by
  have notEmpty : kindOf (keyword :: tokens) ≠ .semicolon := by simp [kindOf, isVar]
  exact Ample.mono inner fun _ _ accepts => .absent notEmpty (.taken isVar (accepts.map some))

theorem initialExpression (starts : startsExpression (kindOf tokens) = true)
    (inner : Accepted setting (.expression value) tokens (semicolon :: rest))
    (ends : semicolon.kind = .semicolon) :
    Accepted setting (.initial (some (.expression value))) tokens rest :=
  (inner (ends_of_kind ends rfl)).mono fun _ _ accepts => .absent (ne_of_starts starts rfl)
    (.absent (ne_of_starts starts rfl) (.bind accepts (.bind (accepts_expectAfter _ ends)
      (accepts_pure _))))

theorem noClause : Accepted setting (.clause none) rest rest :=
  fun _ _ closes => .of_forall fun _ _ => .found closes (accepts_pure _)

theorem clause (starts : startsExpression (kindOf tokens) = true)
    (inner : Accepted setting (.expression value) tokens rest) :
    Accepted setting (.clause (some value)) tokens rest := by
  intro close isClose closes
  have ends : endsExpression (kindOf rest) = true ∧ startsExpression close = false := by
    rw [closes]
    rcases isClose with rfl | rfl <;> exact ⟨rfl, rfl⟩
  exact (inner ends.1).mono fun _ _ accepts =>
    .notFound (ne_of_starts starts ends.2) (accepts.map some)

/-! ## Cases -/

theorem noCases : Accepted setting (.cases []) rest rest :=
  fun follows _ _ => Ample.fuelled (.of_forall fun _ _ => trivial) fun _ _ _ =>
    .absent follows.caseWord (.absent follows.defaultWord (accepts_pure _))

theorem labelled {label : Expr} {all : List Case} (isCase : keyword.kind = .caseWord)
    (inner : Accepted setting (.expression label) tokens (colon :: opening :: inside))
    (isColon : colon.kind = .colon) (opens : opening.kind = .leftBrace)
    (block : Accepted setting (.body statements) inside others)
    (tail : Accepted setting (.cases all) others rest) :
    Accepted setting (.cases (.labelled label statements :: all)) (keyword :: tokens) rest := by
  intro follows hasFallback few
  exact ((inner (ends_of_kind isColon rfl)).and ((body_accepts block).and
    (tail follows hasFallback few))).fuelled fun _ _ ⟨accepts, acceptsBlock, acceptsTail⟩ =>
      .taken isCase (.bind accepts (.bind (accepts_expectAfter _ isColon)
        (.bind (accepts_expectBefore _ opens) (.bind acceptsBlock (.bind acceptsTail
          (accepts_pure _))))))

theorem fallback {all : List Case} (isDefault : keyword.kind = .defaultWord)
    (isColon : colon.kind = .colon) (opens : opening.kind = .leftBrace)
    (block : Accepted setting (.body statements) tokens others)
    (tail : Accepted setting (.cases all) others rest) :
    Accepted setting (.cases (.fallback statements :: all))
      (keyword :: colon :: opening :: tokens) rest := by
  intro follows hasFallback few
  have notCase : kindOf (keyword :: colon :: opening :: tokens) ≠ .caseWord := by
    simp [kindOf, isDefault]
  simp only [List.filterMap_cons, Case.fallback?, List.length_cons] at few
  have isFirst : hasFallback = false := by
    cases hasFallback with
    | false => rfl
    | true =>
        simp only [Bool.toNat_true] at few
        omega
  have noMore : (true : Bool).toNat + (all.filterMap Case.fallback?).length ≤ 1 := by
    simp only [Bool.toNat_true]
    omega
  subst isFirst
  exact ((body_accepts block).and (tail follows true noMore)).fuelled
    fun _ _ both => .absent notCase (.taken isDefault
      (.bind (accepts_expectAfter _ isColon) (.bind (accepts_expectBefore _ opens)
        (.bind both.1 (.bind both.2 (accepts_pure _))))))

theorem switch {rule : Expr} {all : List Case} (isSwitch : keyword.kind = .switchWord)
    (chosen : Accepted setting (.expression rule) tokens (colon :: others))
    (isColon : colon.kind = .colon) (inner : Accepted setting (.cases all) others rest)
    (oneDefault : (all.filterMap Case.fallback?).length ≤ 1) :
    Accepted setting (.statement false (.switch rule all)) (keyword :: tokens) rest :=
  fun follows => ((chosen (ends_of_kind isColon rfl)).and
    (inner follows false (by simpa using oneDefault))).deeper fun _ ⟨accepts, acceptsAll⟩ =>
      .ahead isSwitch (.taking (.bind accepts (.bind (accepts_expectAfter _ isColon)
        (.bind acceptsAll (accepts_pure _)))))

/-! ## Values of a `return` -/

theorem lastValue (last : Accepted setting (.expression value) tokens rest) :
    Accepted setting (.values [value]) tokens rest := by
  intro ends notComma
  exact ⟨value, [], rest, rfl, last ends,
    Ample.fuelled (.of_forall fun _ _ => trivial) fun _ _ _ => .absent notComma (accepts_pure _)⟩

theorem moreValues {values : List Expr}
    (head : Accepted setting (.expression value) tokens (comma :: others))
    (isComma : comma.kind = .comma) (tail : Accepted setting (.values values) others rest) :
    Accepted setting (.values (value :: values)) tokens rest := by
  intro ends notComma
  obtain ⟨first, further, middle, rfl, accepts, acceptsFurther⟩ := tail ends notComma
  refine ⟨value, first :: further, comma :: others, rfl, head (ends_of_kind isComma rfl), ?_⟩
  exact (accepts.and acceptsFurther).fuelled fun _ _ ⟨acceptsFirst, later⟩ =>
    .taken isComma (.bind acceptsFirst (.bind later (accepts_pure _)))

theorem returnNothing (isReturn : keyword.kind = .returnWord)
    (ends : semicolon.kind = .semicolon) :
    Accepted setting (.statement false (.result none)) (keyword :: semicolon :: rest) rest :=
  fun _ => Ample.deeper (.of_forall fun _ _ => trivial) fun _ _ =>
    .ahead isReturn (.taking (.taken ends (accepts_pure _)))

/-- Some values, of which several are a tuple. -/
theorem returnValues {first : Expr} {further : List Expr} (isReturn : keyword.kind = .returnWord)
    (starts : startsExpression (kindOf tokens) = true)
    (list : Accepted setting (.values (first :: further)) tokens (semicolon :: rest))
    (ends : semicolon.kind = .semicolon) :
    Accepted setting
      (.statement false (.result (some (if further.isEmpty then first
        else .tuple (first :: further))))) (keyword :: tokens) rest := by
  intro _
  have notComma : kindOf (semicolon :: rest) ≠ .comma := by simp [kindOf, ends]
  obtain ⟨_, _, middle, same, accepts, acceptsFurther⟩ := list (ends_of_kind ends rfl) notComma
  cases same
  exact (accepts.and acceptsFurther).deeper fun _ both => .ahead isReturn
    (.taking (.absent (ne_of_starts starts rfl) (.bind both.1 (.bind both.2
      (.bind (accepts_expectAfter _ ends) (accepts_pure _))))))

theorem returnOne (isReturn : keyword.kind = .returnWord)
    (starts : startsExpression (kindOf tokens) = true)
    (list : Accepted setting (.values [value]) tokens (semicolon :: rest))
    (ends : semicolon.kind = .semicolon) :
    Accepted setting (.statement false (.result (some value))) (keyword :: tokens) rest :=
  returnValues isReturn starts list ends

theorem returnSeveral {values : List Expr} (isReturn : keyword.kind = .returnWord)
    (starts : startsExpression (kindOf tokens) = true)
    (list : Accepted setting (.values values) tokens (semicolon :: rest))
    (several : 2 ≤ values.length) (ends : semicolon.kind = .semicolon) :
    Accepted setting (.statement false (.result (some (.tuple values)))) (keyword :: tokens)
      rest := by
  match values, several with
  | first :: second :: further, _ => exact returnValues isReturn starts list ends

end Accepted

end Statements

/-! ## Programs -/

/-- A kind of token that goes on with no statement. -/
theorem separate_of_begins {phrase : Phrase} {tokens : List Token}
    (begins : phrase.begins (kindOf tokens) = true)
    (excluded : phrase.begins .elseWord = false ∧ phrase.begins .caseWord = false ∧
      phrase.begins .defaultWord = false) : Separate tokens := by
  obtain ⟨noElse, noCase, noDefault⟩ := excluded
  refine ⟨?_, ?_, ?_⟩ <;> intro same <;> rw [same] at begins
  · rw [noElse] at begins
    cases begins
  · rw [noCase] at begins
    cases begins
  · rw [noDefault] at begins
    cases begins

theorem Derives.body_separate {coin : Nat → Bool} {statements : List Stmt}
    {tokens rest : List Token} (derives : Derives coin (.body statements) tokens rest) :
    Separate tokens := by
  cases derives with
  | endOfBody closes => exact ⟨by simp [kindOf, closes], by simp [kindOf, closes],
      by simp [kindOf, closes]⟩
  | body head _ => exact separate_of_begins head.begins ⟨rfl, rfl, rfl⟩

theorem Derives.program_separate {coin : Nat → Bool} {statements : List Stmt}
    {tokens rest : List Token} (derives : Derives coin (.program statements) tokens rest) :
    Separate tokens := by
  cases derives with
  | endOfProgram => exact ⟨by decide, by decide, by decide⟩
  | program head _ => exact separate_of_begins head.begins ⟨rfl, rfl, rfl⟩

/-- From some depth on, a declaration is read as at the depth that is enough. -/
theorem declaration_of_ample (holds : Reply Stmt → Prop) {setting : Setting} {tokens : List Token}
    (ample : Ample fun depth _ => holds (declaration depth setting tokens)) :
    holds (declaration (depthFor tokens.length) setting tokens) := by
  obtain ⟨bound, always⟩ := ample
  have deep : holds (declaration (max bound (depthFor tokens.length)) setting tokens) :=
    always _ bound (by omega) (Nat.le_refl _)
  rwa [declaration_depth setting tokens (Nat.le_refl _) (by omega)] at deep

theorem Accepted.program {setting : Setting} {tokens others : List Token} {statement : Stmt}
    {statements : List Stmt} (starts : (Phrase.declaration statement).begins (kindOf tokens) = true)
    (separate : Separate others) (head : Accepted setting (.declaration statement) tokens others)
    (tail : Accepted setting (.program statements) others []) :
    Accepted setting (.program (statement :: statements)) tokens [] := by
  cases tokens with
  | nil => cases starts
  | cons token rest =>
      have accepts : Accepts (declaration (depthFor (token :: rest).length)) setting (token :: rest)
          statement others :=
        declaration_of_ample (· = _) (head separate)
      have read : Grammar.next setting (token :: rest) = ⟨some (some statement), others, []⟩ :=
        accepts.recovered
      show Grammar.program setting (token :: rest) = ⟨statement :: statements, []⟩
      rw [program_cons, read, show Grammar.program setting others = _ from tail]
      rfl

/-- Every phrase that is derived is accepted: a case for each rule. -/
theorem Derives.accepted {setting : Setting} {phrase : Phrase} {tokens rest : List Token}
    (derives : Derives setting.coin phrase tokens rest) : Accepted setting phrase tokens rest := by
  induction derives with
  | trueLiteral kind => exact .trueLiteral kind
  | falseLiteral kind => exact .falseLiteral kind
  | nilLiteral kind => exact .nilLiteral kind
  | maybeLiteral kind => exact .maybeLiteral kind
  | number kind literal => exact .number kind literal
  | string kind literal => exact .string kind literal
  | name isName => exact .name isName
  | unit opens closes => exact .unit opens closes
  | grouping opens inner closes value => exact .grouping opens inner.begins value closes
  | tuple opens inner isComma _ closes head tail =>
      exact .tuple opens inner.begins head isComma tail closes
  | array opens _ closes inner => exact .array opens inner closes
  | template opens _ inner => exact .template opens inner
  | noElements => exact .noElements
  | lastElement inner last => exact .lastElement inner.begins last
  | element inner isComma _ head tail => exact .element inner.begins head isComma tail
  | noTexts => exact .noTexts
  | text kind _ tail => exact .text kind tail
  | lastText _ closes texts => exact .lastText texts closes
  | shown _ opens _ closes _ texts inner tail => exact .shown texts opens inner closes tail
  | primary _ inner => exact .primary inner
  | emptyCall _ opens closes target => exact .emptyCall target opens closes
  | call _ opens inner closes few target list => exact .call target opens inner.begins list closes few
  | index _ opens _ closes collection inner => exact .index collection opens inner closes
  | lastArgument _ last => exact .lastArgument last
  | moreArguments _ isComma _ head tail => exact .moreArguments head isComma tail
  | plainArgument inner value => exact .plainArgument inner.begins value
  | lambda isFun opens _ inner => exact .lambda isFun opens inner
  | suffixed inner value => exact .suffixed inner.begins value
  | signed isSign _ operand => exact .signed isSign operand
  | operand _ inner => exact .operand inner
  | operation _ isOperator _ first second => exact .operation first isOperator second
  | plainExpression _ inner => exact .plainExpression inner
  | assign _ _ assigns target right => exact .assign target right assigns
  | indexAssign _ _ assigns target right => exact .indexAssign target right assigns
  | lastParameter isName => exact .lastParameter isName
  | moreParameters isName isComma _ tail => exact .moreParameters isName isComma tail
  | nullary closes opens _ inner => exact .nullary closes opens inner
  | function names few closes opens _ list inner =>
      exact .function names.begins list few closes opens inner
  | endOfBody closes => exact .endOfBody closes
  | body inner more head tail => exact .body inner.begins more.body_separate head tail
  | leave isBreak ends => exact .leave isBreak ends
  | next isContinue ends => exact .next isContinue ends
  | item inner accepted => exact .item inner.begins accepted
  | unbound isName ends => exact .unbound isName ends
  | bound isName isEqual _ ends initial => exact .bound isName isEqual initial ends
  | var isVar _ inner => exact .var isVar inner
  | const isConst isName isEqual _ ends initial => exact .const isConst isName isEqual initial ends
  | functionDeclaration isFun isName opens _ inner =>
      exact .functionDeclaration isFun isName opens inner
  | plainStatement inner accepted => exact .plainStatement inner.begins accepted
  | print isPrint _ ends inner => exact .print isPrint inner ends
  | expression inner ends value => exact .expression inner.begins value ends
  | block opens _ inner => exact .block opens inner
  | onlyIf isIf opens _ closes _ test inner => exact .onlyIf isIf opens test closes inner
  | ifElse isIf opens _ closes _ isElse _ test inner last =>
      exact .ifElse isIf opens test closes inner isElse last
  | whileLoop isWhile opens _ closes _ test inner =>
      exact .whileLoop isWhile opens test closes inner
  | forLoop isFor opens _ _ ends _ closes _ start test step inner =>
      exact .forLoop isFor opens start test ends step closes inner
  | switch isSwitch _ isColon _ oneDefault chosen inner =>
      exact .switch isSwitch chosen isColon inner oneDefault
  | returnNothing isReturn ends => exact .returnNothing isReturn ends
  | returnOne isReturn inner ends list => exact .returnOne isReturn inner.begins list ends
  | returnSeveral isReturn inner several ends list =>
      exact .returnSeveral isReturn inner.begins list several ends
  | noInitial ends => exact .noInitial ends
  | initialVar isVar _ inner => exact .initialVar isVar inner
  | initialExpression inner ends value => exact .initialExpression inner.begins value ends
  | noClause => exact .noClause
  | clause inner value => exact .clause inner.begins value
  | noCases => exact .noCases
  | labelled isCase _ isColon opens _ _ value inner tail =>
      exact .labelled isCase value isColon opens inner tail
  | fallback isDefault isColon opens _ _ inner tail =>
      exact .fallback isDefault isColon opens inner tail
  | lastValue _ last => exact .lastValue last
  | moreValues _ isComma _ head tail => exact .moreValues head isComma tail
  | endOfProgram => rfl
  | program inner more head tail => exact .program inner.begins more.program_separate head tail

/-- A program that is read without a report is derived. -/
theorem derives_of_clean {setting : Setting} {tokens : List Token}
    (clean : (program setting tokens).diagnostics = []) :
    Derives setting.coin (.program (program setting tokens).program) tokens [] := by
  induction tokens using program_induction setting with
  | nil => exact .endOfProgram
  | cons token rest inductionHypothesis =>
      obtain ⟨statement, left, reply, whole⟩ := next_of_clean clean
      have isNext : next setting (token :: rest) = ⟨some (some statement), left, []⟩ :=
        Accepts.recovered reply
      rw [isNext] at inductionHypothesis
      rw [whole] at clean ⊢
      obtain ⟨same, middle, sameReply, head⟩ :=
        (grammar_sound setting (depthFor (token :: rest).length)).declaration (token :: rest)
          (by rw [reply])
      rw [reply] at sameReply
      cases sameReply
      exact .program head (inductionHypothesis (List.append_eq_nil_iff.mp clean).2)

/-- The parser accepts exactly the grammar, and builds the tree of the
derivation: for every list of tokens that ends in its only end of input, reading
it gives a program and no report if and only if the grammar derives that program
from the tokens. -/
theorem parse_eq_iff_derives (coin : Nat → Bool) (tokens : List Token) (stop : Token)
    (free : EndFree tokens) (isStop : stop.kind = .endOfInput) (statements : List Stmt) :
    parse coin (tokens ++ [stop]) = ⟨statements, []⟩ ↔
      Derives coin (.program statements) tokens [] := by
  rw [parse_of_endFree coin free isStop]
  constructor
  · intro parsed
    have derives := derives_of_clean (congrArg Parse.diagnostics parsed)
    rwa [parsed] at derives
  · intro derives
    have accepted : Accepted ⟨stop.site, coin⟩ (.program statements) tokens [] := derives.accepted
    exact accepted

theorem derives_print_nil :
    Derives (fun _ => true) (.program [.print (.constant .nil)])
      [⟨.printWord, "print", none, 1⟩, ⟨.nilWord, "nil", none, 1⟩, ⟨.semicolon, ";", none, 1⟩] [] :=
  (parse_eq_iff_derives (fun _ => true) _ (Token.endOfInput 1) (by decide) rfl _).mp rfl

end Scriptlet.Grammar
