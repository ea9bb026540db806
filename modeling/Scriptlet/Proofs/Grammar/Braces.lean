import Scriptlet.Proofs.Grammar.Derivation

/-!
Contract: the braces of a phrase are balanced.

Counted over the tokens of a phrase, the braces that are open are never fewer than there
were before it, and as many behind it. An interpolation of a template opens with a brace
too, although a dollar sign is part of its token.

Owns: `Kind.braces?`, the count over one token; `bracesBehind` and `Walks`, the count over
many; and `Derives.balances`, by which every phrase is balanced. The statements of a body
are read with the brace behind them, so that one more is open before.

Does not own: which layer of the source a brace belongs to
(`Scriptlet.Proofs.Lexical.Interpolated`).
-/

set_option autoImplicit false

namespace Scriptlet

/-- The number of braces that are open behind a token, unless it closes one that is not
open. -/
def Kind.braces? : Kind → Nat → Option Nat
  | .leftBrace, depth | .dollarBrace, depth => some (depth + 1)
  | .rightBrace, 0 => none
  | .rightBrace, depth + 1 => some depth
  | _, depth => some depth

/-- The number of braces that are open behind tokens of these kinds, if each of them closes
only what is open. -/
def bracesBehind (kinds : List Kind) (depth : Nat) : Option Nat :=
  kinds.foldlM (fun depth kind => kind.braces? depth) depth

theorem bracesBehind_append (first second : List Kind) (depth : Nat) :
    bracesBehind (first ++ second) depth =
      (bracesBehind first depth).bind (bracesBehind second) :=
  List.foldlM_append

namespace Grammar

/-- From `depth` open braces to `last`, over the tokens before `rest`. -/
inductive Walks : Nat → List Token → Nat → List Token → Prop where
  | here {depth : Nat} {tokens : List Token} : Walks depth tokens depth tokens
  | token {depth between last : Nat} {token : Token} {kind : Kind} {tokens rest : List Token}
      (isKind : token.kind = kind) (step : kind.braces? depth = some between)
      (later : Walks between tokens last rest) : Walks depth (token :: tokens) last rest

variable {depth between last : Nat} {tokens others rest : List Token}

theorem Walks.trans (first : Walks depth tokens between others)
    (second : Walks between others last rest) : Walks depth tokens last rest := by
  induction first with
  | here => exact second
  | token isKind step later inductionHypothesis =>
      exact .token isKind step (inductionHypothesis second)

theorem Walks.bracesBehind (walks : Walks depth tokens last rest) :
    ∃ read, tokens = read ++ rest ∧
      Scriptlet.bracesBehind (read.map Token.kind) depth = some last := by
  induction walks with
  | here => exact ⟨[], rfl, rfl⟩
  | @token _ _ _ token _ _ _ isKind step _ inductionHypothesis =>
      obtain ⟨read, rfl, counted⟩ := inductionHypothesis
      refine ⟨token :: read, rfl, ?_⟩
      rw [Scriptlet.bracesBehind, List.map_cons, List.foldlM_cons, isKind, step]
      exact counted

/-! ## Tokens that are no braces -/

theorem Operator.braces? {level : Level} {kind : Kind} {connective : Connective}
    (isOperator : Operator level kind connective) (depth : Nat) :
    kind.braces? depth = some depth := by
  cases isOperator <;> rfl

theorem Sign.braces? {kind : Kind} {op : UnaryOp} (isSign : Sign kind op) (depth : Nat) :
    kind.braces? depth = some depth := by
  cases isSign <;> rfl

theorem Assigns.braces? {target value assigned : Expr} {site : Site} {kind : Kind}
    (assigns : Assigns target value site kind assigned) (depth : Nat) :
    kind.braces? depth = some depth := by
  cases assigns <;> rfl

/-! ## Phrases -/

/-- The braces that are open before a phrase and not behind it. -/
def Phrase.closes : Phrase → Nat
  | .body _ => 1
  | _ => 0

theorem closes_operand (level : Level) (value : Expr) : (level.operand value).closes = 0 := by
  cases level <;> rfl

/-- The phrase is balanced, whatever is open before it. -/
def Balances (phrase : Phrase) (tokens rest : List Token) : Prop :=
  ∀ depth, Walks (depth + phrase.closes) tokens depth rest

theorem Balances.operand {level : Level} {value : Expr}
    (balances : Balances (level.operand value) tokens rest) (depth : Nat) :
    Walks depth tokens depth rest := by
  have walks := balances depth
  rwa [closes_operand] at walks

/-- **Every phrase is balanced.** A case for each rule of the grammar. -/
theorem Derives.balances {coin : Nat → Bool} {phrase : Phrase} {tokens rest : List Token}
    (derives : Derives coin phrase tokens rest) : Balances phrase tokens rest := by
  induction derives with
  | trueLiteral kind | falseLiteral kind | nilLiteral kind | maybeLiteral kind
  | number kind _ | string kind _ =>
      exact fun _ => .token kind rfl .here
  | name isName | lastParameter isName => exact fun _ => .token isName.1 rfl .here
  | unit opens closes => exact fun _ => .token opens rfl (.token closes rfl .here)
  | grouping opens _ closes value | array opens _ closes value =>
      exact fun depth => .token opens rfl ((value depth).trans (.token closes rfl .here))
  | tuple opens _ isComma _ closes head tail =>
      intro depth
      have values := (tail depth).trans (.token closes rfl .here)
      exact .token opens rfl ((head depth).trans (.token isComma rfl values))
  | template opens _ inside => exact fun depth => .token opens rfl (inside depth)
  | noElements | noTexts | noClause | noCases | endOfProgram => exact fun _ => .here
  | lastElement _ last | lastArgument _ last | lastValue _ last | primary _ last
  | plainArgument _ last | suffixed _ last | plainExpression _ last | item _ last
  | plainStatement _ last | clause _ last => exact last
  | element _ isComma _ head tail | moreArguments _ isComma _ head tail
  | moreValues _ isComma _ head tail =>
      exact fun depth => (head depth).trans (.token isComma rfl (tail depth))
  | text kind _ tail => exact fun depth => .token kind rfl (tail depth)
  | lastText _ closes texts => exact fun depth => (texts depth).trans (.token closes rfl .here)
  | shown _ opens _ closes _ texts inner tail =>
      intro depth
      have shown := (inner (depth + 1)).trans (.token closes rfl (tail depth))
      exact (texts depth).trans (.token opens rfl shown)
  | emptyCall _ opens closes target =>
      exact fun depth => (target depth).trans (.token opens rfl (.token closes rfl .here))
  | call _ opens _ closes _ target list | index _ opens _ closes target list =>
      intro depth
      have inside := (list depth).trans (.token closes rfl .here)
      exact (target depth).trans (.token opens rfl inside)
  | lambda isFun opens _ inner =>
      exact fun depth => .token isFun rfl (.token opens rfl (inner depth))
  | signed isSign _ operand => exact fun depth => .token rfl (isSign.braces? _) (operand depth)
  | operand _ inner => exact inner.operand
  | operation _ isOperator _ first second =>
      exact fun depth =>
        (first depth).trans (.token rfl (isOperator.braces? _) (second.operand depth))
  | assign _ _ assigns target right | indexAssign _ _ assigns target right =>
      exact fun depth => (target depth).trans (.token rfl (assigns.braces? _) (right depth))
  | moreParameters isName isComma _ tail =>
      exact fun depth => .token isName.1 rfl (.token isComma rfl (tail depth))
  | nullary closes opens _ inner =>
      exact fun depth => .token closes rfl (.token opens rfl (inner depth))
  | function _ _ closes opens _ list inner =>
      intro depth
      exact (list depth).trans (.token closes rfl (.token opens rfl (inner depth)))
  | endOfBody closes => exact fun _ => .token closes rfl .here
  | body _ _ head tail => exact fun depth => (head (depth + 1)).trans (tail depth)
  | program _ _ head tail => exact fun depth => (head depth).trans (tail depth)
  | leave isWord ends | next isWord ends | returnNothing isWord ends =>
      exact fun _ => .token isWord rfl (.token ends rfl .here)
  | unbound isName ends => exact fun _ => .token isName.1 rfl (.token ends rfl .here)
  | bound isName isEqual _ ends initial =>
      intro depth
      have value := (initial depth).trans (.token ends rfl .here)
      exact .token isName.1 rfl (.token isEqual rfl value)
  | const isConst isName isEqual _ ends initial =>
      intro depth
      have value := (initial depth).trans (.token ends rfl .here)
      exact .token isConst rfl (.token isName.1 rfl (.token isEqual rfl value))
  | var isVar _ inner | initialVar isVar _ inner =>
      exact fun depth => .token isVar rfl (inner depth)
  | functionDeclaration isFun isName opens _ inner =>
      intro depth
      exact .token isFun rfl (.token isName.1 rfl (.token opens rfl (inner depth)))
  | print isWord _ ends inner | returnOne isWord _ ends inner
  | returnSeveral isWord _ _ ends inner =>
      exact fun depth => .token isWord rfl ((inner depth).trans (.token ends rfl .here))
  | expression _ ends inner | initialExpression _ ends inner =>
      exact fun depth => (inner depth).trans (.token ends rfl .here)
  | block opens _ inner => exact fun depth => .token opens rfl (inner depth)
  | onlyIf isWord opens _ closes _ test inner | whileLoop isWord opens _ closes _ test inner =>
      intro depth
      have behind := (test depth).trans (.token closes rfl (inner depth))
      exact .token isWord rfl (.token opens rfl behind)
  | ifElse isIf opens _ closes _ isElse _ test inner last =>
      intro depth
      have branches := (inner depth).trans (.token isElse rfl (last depth))
      exact .token isIf rfl (.token opens rfl ((test depth).trans (.token closes rfl branches)))
  | forLoop isFor opens _ _ ends _ closes _ start test step inner =>
      intro depth
      have behind := (step depth).trans (.token closes rfl (inner depth))
      have clauses := (start depth).trans ((test depth).trans (.token ends rfl behind))
      exact .token isFor rfl (.token opens rfl clauses)
  | switch isSwitch _ isColon _ _ chosen inner =>
      intro depth
      have cases := (chosen depth).trans (.token isColon rfl (inner depth))
      exact .token isSwitch rfl cases
  | noInitial ends => exact fun _ => .token ends rfl .here
  | labelled isCase _ isColon opens _ _ value inner tail =>
      intro depth
      have statements := (inner depth).trans (tail depth)
      exact .token isCase rfl
        ((value depth).trans (.token isColon rfl (.token opens rfl statements)))
  | fallback isDefault isColon opens _ _ inner tail =>
      intro depth
      have statements := (inner depth).trans (tail depth)
      exact .token isDefault rfl (.token isColon rfl (.token opens rfl statements))

end Grammar

end Scriptlet
