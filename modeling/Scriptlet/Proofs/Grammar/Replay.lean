import Scriptlet.Proofs.Grammar.Derivation
import Scriptlet.Proofs.Grammar.Sequence

/-!
Contract: a phrase does not depend on what follows it.

Owns: `Replays`, and the theorem that every phrase but a whole program is derived
before any other tokens too (`Derives.replayed`).

## How a `maybe` falls

It falls by the number of tokens from it on. The phrase is the same before other
tokens if `coinBefore` is, which numbers the tokens of the phrase alone.
-/

set_option autoImplicit false

namespace Scriptlet.Grammar

/-- A way to read tokens, by how each `maybe` falls. -/
abbrev Reading : Type :=
  (Nat → Bool) → List Token → List Token → Prop

/-- What is read stands before `rest`, and is read before any other tokens too. -/
def Replays (reading : Reading) (coin : Nat → Bool) (tokens rest : List Token) : Prop :=
  ∃ read, tokens = read ++ rest ∧ ∀ {other : Nat → Bool} {more : List Token},
    coinBefore other more = coinBefore coin rest → reading other (read ++ more) more

/-- As many tokens more, of any kind. -/
theorem coinBefore_append {coin other : Nat → Bool} {rest more front back : List Token}
    (same : coinBefore other more = coinBefore coin rest) (asMany : front.length = back.length) :
    coinBefore other (front ++ more) = coinBefore coin (back ++ rest) := by
  funext left
  have shifted := congrFun same (left + front.length)
  simp only [coinBefore] at shifted ⊢
  rw [List.length_append, List.length_append, ← asMany, ← Nat.add_assoc, ← Nat.add_assoc, shifted]

section Rules

variable {coin : Nat → Bool} {reading first second : Reading} {tokens others rest : List Token}

theorem Replays.suffix (replays : Replays reading coin tokens rest) : rest <:+ tokens := by
  obtain ⟨read, rfl, -⟩ := replays
  exact List.suffix_append read rest

/-- A rule that takes only tokens. -/
theorem replays_tokens (read : List Token)
    (rule : ∀ {coin : Nat → Bool} {rest : List Token}, reading coin (read ++ rest) rest) :
    Replays reading coin (read ++ rest) rest :=
  ⟨read, rfl, fun _ => rule⟩

/-- A rule over one part, with tokens before and behind it. -/
theorem Replays.part (front back : List Token)
    (rule : ∀ {coin : Nat → Bool} {tokens rest : List Token},
      first coin tokens (back ++ rest) → reading coin (front ++ tokens) rest)
    (replays : Replays first coin tokens (back ++ rest)) :
    Replays reading coin (front ++ tokens) rest := by
  obtain ⟨read, rfl, replay⟩ := replays
  refine ⟨front ++ read ++ back, by simp, fun {_ more} same => ?_⟩
  have reads := rule (replay (coinBefore_append same (Eq.refl back.length)))
  simpa using reads

/-- One part and then another one, with tokens between them. -/
theorem Replays.andThen (middle : List Token)
    (replays : Replays first coin tokens (middle ++ others))
    (later : Replays second coin others rest) :
    Replays (fun coin tokens rest =>
      ∃ others, first coin tokens (middle ++ others) ∧ second coin others rest) coin tokens
      rest := by
  obtain ⟨read, rfl, replay⟩ := replays
  obtain ⟨readLater, rfl, replayLater⟩ := later
  refine ⟨read ++ middle ++ readLater, by simp, fun {_ more} same => ?_⟩
  refine ⟨readLater ++ more, ?_, replayLater same⟩
  have sameLater := coinBefore_append same (Eq.refl (middle ++ readLater).length)
  simpa using replay (by simpa using sameLater)

/-- A rule over two parts, with tokens before, between and behind them. -/
theorem Replays.parts (front middle back : List Token)
    (rule : ∀ {coin : Nat → Bool} {tokens others rest : List Token},
      first coin tokens (middle ++ others) → second coin others (back ++ rest) →
        reading coin (front ++ tokens) rest)
    (replays : Replays first coin tokens (middle ++ others))
    (later : Replays second coin others (back ++ rest)) :
    Replays reading coin (front ++ tokens) rest :=
  (replays.andThen middle later).part front back fun both =>
    both.elim fun _ both => rule both.1 both.2

end Rules

/-- What is shown of each phrase: a program has no tokens behind it. -/
def Replayed (coin : Nat → Bool) : Phrase → List Token → List Token → Prop
  | .program _, _, _ => True
  | phrase, tokens, rest => Replays (fun coin => Derives coin phrase) coin tokens rest

theorem Replayed.operand {coin : Nat → Bool} {level : Level} {value : Expr}
    {tokens rest : List Token} (replayed : Replayed coin (level.operand value) tokens rest) :
    Replays (fun coin => Derives coin (level.operand value)) coin tokens rest := by
  cases level <;> exact replayed

/-- A `maybe` falls as its place in the phrase says. -/
theorem replays_maybe {coin : Nat → Bool} {token : Token} {rest : List Token}
    (kind : token.kind = .maybeWord) :
    Replays
      (fun other => Derives other (.primary (.constant (.bool (coin (token :: rest).length)))))
      coin (token :: rest) rest := by
  refine ⟨[token], rfl, fun {other more} same => ?_⟩
  have falls : other (token :: more).length = coin (token :: rest).length := by
    simpa only [coinBefore, List.length_cons, Nat.add_comm] using congrFun same 1
  rw [← falls]
  exact .maybeLiteral kind

/-- A case for each rule of the grammar. -/
theorem Derives.replayed {coin : Nat → Bool} {phrase : Phrase} {tokens rest : List Token}
    (derives : Derives coin phrase tokens rest) : Replayed coin phrase tokens rest := by
  induction derives with
  | @trueLiteral token _ kind => exact replays_tokens [token] (.trueLiteral kind)
  | @falseLiteral token _ kind => exact replays_tokens [token] (.falseLiteral kind)
  | @nilLiteral token _ kind => exact replays_tokens [token] (.nilLiteral kind)
  | maybeLiteral kind => exact replays_maybe kind
  | @number token _ _ kind literal => exact replays_tokens [token] (.number kind literal)
  | @string token _ _ kind literal => exact replays_tokens [token] (.string kind literal)
  | @name token _ _ isName => exact replays_tokens [token] (.name isName)
  | @unit opening closing _ opens closes =>
      exact replays_tokens [opening, closing] (.unit opens closes)
  | @grouping opening closing _ _ _ opens _ closes value =>
      exact value.part [opening] [closing] fun inner => .grouping opens inner closes
  | @tuple opening comma closing _ _ _ _ _ opens _ isComma _ closes head tail =>
      exact head.parts [opening] [comma] [closing]
        (fun head tail => .tuple opens head isComma tail closes) tail
  | @array opening closing _ _ _ opens _ closes inside =>
      exact inside.part [opening] [closing] fun inner => .array opens inner closes
  | @template opening _ _ _ opens _ inside =>
      exact inside.part [opening] [] (.template opens)
  | noElements => exact replays_tokens [] .noElements
  | lastElement _ last => exact last.part [] [] .lastElement
  | @element comma _ _ _ _ _ _ isComma _ head tail =>
      exact head.parts [] [comma] [] (fun head => .element head isComma) tail
  | noTexts => exact replays_tokens [] .noTexts
  | @text token _ _ _ kind _ tail => exact tail.part [token] [] (.text kind)
  | @lastText closing _ _ _ _ closes texts =>
      exact texts.part [] [closing] fun inner => .lastText inner closes
  | @shown opening closing _ _ _ _ _ _ _ _ opens _ closes _ texts inner tail =>
      exact texts.parts [] [opening] []
        (fun texts more => more.elim fun _ more => .shown texts opens more.1 closes more.2)
        (inner.andThen [closing] tail)
  | primary _ inner => exact inner.part [] [] .primary
  | @emptyCall opening closing _ _ _ _ opens closes target =>
      exact target.part [] [opening, closing] fun inner => .emptyCall inner opens closes
  | @call opening closing _ _ _ _ _ _ opens _ closes few target list =>
      exact target.parts [] [opening] [closing]
        (fun target list => .call target opens list closes few) list
  | @index opening closing _ _ _ _ _ _ opens _ closes collection value =>
      exact collection.parts [] [opening] [closing]
        (fun collection value => .index collection opens value closes) value
  | lastArgument _ last => exact last.part [] [] .lastArgument
  | @moreArguments comma _ _ _ _ _ _ isComma _ head tail =>
      exact head.parts [] [comma] [] (fun head => .moreArguments head isComma) tail
  | plainArgument _ inner => exact inner.part [] [] .plainArgument
  | @lambda keyword opening _ _ _ _ isFun opens _ inner =>
      exact inner.part [keyword, opening] [] (.lambda isFun opens)
  | suffixed _ inner => exact inner.part [] [] .suffixed
  | @signed sign _ _ _ _ isSign _ operand => exact operand.part [sign] [] (.signed isSign)
  | operand _ inner => exact inner.operand.part [] [] .operand
  | @operation operator _ _ _ _ _ _ _ _ isOperator _ first second =>
      exact first.parts [] [operator] [] (fun first => .operation first isOperator) second.operand
  | plainExpression _ inner => exact inner.part [] [] .plainExpression
  | @assign operator _ _ _ _ _ _ _ _ assigns target right =>
      exact target.parts [] [operator] [] (fun target right => .assign target right assigns) right
  | @indexAssign operator _ _ _ _ _ _ _ _ _ _ assigns target right =>
      exact target.parts [] [operator] []
        (fun target right => .indexAssign target right assigns) right
  | @lastParameter token _ _ isName => exact replays_tokens [token] (.lastParameter isName)
  | @moreParameters token comma _ _ _ _ isName isComma _ tail =>
      exact tail.part [token, comma] [] (.moreParameters isName isComma)
  | @nullary closing opening _ _ _ closes opens _ inner =>
      exact inner.part [closing, opening] [] (.nullary closes opens)
  | @function closing opening _ _ _ _ _ _ few closes opens _ list inner =>
      exact list.parts [] [closing, opening] []
        (fun list => .function list few closes opens) inner
  | @endOfBody closing _ closes => exact replays_tokens [closing] (.endOfBody closes)
  | body _ _ head tail => exact head.parts [] [] [] .body tail
  | @leave keyword semicolon _ isBreak ends =>
      exact replays_tokens [keyword, semicolon] (.leave isBreak ends)
  | @next keyword semicolon _ isContinue ends =>
      exact replays_tokens [keyword, semicolon] (.next isContinue ends)
  | item _ inner => exact inner.part [] [] .item
  | @unbound token semicolon _ _ isName ends =>
      exact replays_tokens [token, semicolon] (.unbound isName ends)
  | @bound token equal semicolon _ _ _ _ isName isEqual _ ends initial =>
      exact initial.part [token, equal] [semicolon] fun inner => .bound isName isEqual inner ends
  | @var keyword _ _ _ isVar _ inner => exact inner.part [keyword] [] (.var isVar)
  | @const keyword token equal semicolon _ _ _ _ isConst isName isEqual _ ends initial =>
      exact initial.part [keyword, token, equal] [semicolon] fun inner =>
        .const isConst isName isEqual inner ends
  | @functionDeclaration keyword token opening _ _ _ _ _ isFun isName opens _ inner =>
      exact inner.part [keyword, token, opening] [] (.functionDeclaration isFun isName opens)
  | plainStatement _ inner => exact inner.part [] [] .plainStatement
  | @print keyword semicolon _ _ _ isPrint _ ends inner =>
      exact inner.part [keyword] [semicolon] fun inner => .print isPrint inner ends
  | @expression semicolon _ _ _ _ ends inner =>
      exact inner.part [] [semicolon] fun inner => .expression inner ends
  | @block opening _ _ _ opens _ inner => exact inner.part [opening] [] (.block opens)
  | @onlyIf keyword opening closing _ _ _ _ _ _ isIf opens _ closes _ test inner =>
      exact test.parts [keyword, opening] [closing] [] (fun test => .onlyIf isIf opens test closes)
        inner
  | @ifElse keyword opening closing word _ _ _ _ _ _ _ _ isIf opens _ closes _ isElse _ test inner
      last =>
      exact test.parts [keyword, opening] [closing] []
        (fun test more => more.elim fun _ more =>
          .ifElse isIf opens test closes more.1 isElse more.2)
        (inner.andThen [word] last)
  | @whileLoop keyword opening closing _ _ _ _ _ _ isWhile opens _ closes _ test inner =>
      exact test.parts [keyword, opening] [closing] []
        (fun test => .whileLoop isWhile opens test closes) inner
  | @forLoop keyword opening semicolon closing _ _ _ _ _ _ _ _ _ _ isFor opens _ _ ends _ closes _
      start test step inner =>
      exact start.parts [keyword, opening] [] []
        (fun start more => more.elim fun _ more => more.2.elim fun _ last =>
          .forLoop isFor opens start more.1 ends last.1 closes last.2)
        (test.andThen [semicolon] (step.andThen [closing] inner))
  | @switch keyword colon _ _ _ _ _ isSwitch _ isColon _ oneDefault chosen inner =>
      exact chosen.parts [keyword] [colon] []
        (fun chosen inner => .switch isSwitch chosen isColon inner oneDefault) inner
  | @returnNothing keyword semicolon _ isReturn ends =>
      exact replays_tokens [keyword, semicolon] (.returnNothing isReturn ends)
  | @returnOne keyword semicolon _ _ _ isReturn _ ends list =>
      exact list.part [keyword] [semicolon] fun list => .returnOne isReturn list ends
  | @returnSeveral keyword semicolon _ _ _ isReturn _ several ends list =>
      exact list.part [keyword] [semicolon] fun list => .returnSeveral isReturn list several ends
  | @noInitial semicolon _ ends => exact replays_tokens [semicolon] (.noInitial ends)
  | @initialVar keyword _ _ _ isVar _ inner => exact inner.part [keyword] [] (.initialVar isVar)
  | @initialExpression semicolon _ _ _ _ ends inner =>
      exact inner.part [] [semicolon] fun inner => .initialExpression inner ends
  | noClause => exact replays_tokens [] .noClause
  | clause _ inner => exact inner.part [] [] .clause
  | noCases => exact replays_tokens [] .noCases
  | @labelled keyword colon opening _ _ _ _ _ _ _ isCase _ isColon opens _ _ value inner tail =>
      exact value.parts [keyword] [colon, opening] []
        (fun value more => more.elim fun _ more =>
          .labelled isCase value isColon opens more.1 more.2)
        (inner.andThen [] tail)
  | @fallback keyword colon opening _ _ _ _ _ isDefault isColon opens _ _ inner tail =>
      exact inner.parts [keyword, colon, opening] [] [] (.fallback isDefault isColon opens) tail
  | lastValue _ last => exact last.part [] [] .lastValue
  | @moreValues comma _ _ _ _ _ _ isComma _ head tail =>
      exact head.parts [] [comma] [] (fun head => .moreValues head isComma) tail
  | endOfProgram => trivial
  | program _ _ _ _ => trivial

end Scriptlet.Grammar
