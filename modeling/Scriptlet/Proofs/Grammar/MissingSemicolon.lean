import Scriptlet.Proofs.Grammar.Completeness
import Scriptlet.Proofs.Grammar.Recovery
import Scriptlet.Proofs.Grammar.Replay

/-!
Contract: what a missing semicolon costs.

Owns: `StopsAt`, a parser that gives up at a token and reports only that; that a
statement without its semicolon is given up at the token behind it
(`Derives.stops`); and where reading goes on then
(`missing_semicolon_skips_boundary`).

Does not own: statements that end in their semicolon
(`Scriptlet.Proofs.Grammar.Recovery`).

## Why the boundary is lost

Recovery skips the token that the error is at, and only then looks for the next
statement. Behind a statement without its semicolon that token is the keyword of
the next statement, or the brace that ends the block. It is skipped like any
other, and what it began or ended is not read.
-/

set_option autoImplicit false

namespace Scriptlet.Grammar

open Scriptlet.Parser

/-! ## Giving up at a token -/

/-- The parser gives up before `token`, and reports only that. -/
def StopsAt {α : Type} (parser : Parser α) (setting : Setting) (tokens : List Token) (token : Token)
    (rest : List Token) : Prop :=
  ∃ problem, parser setting tokens = ⟨none, token :: rest, [⟨token.site, problem⟩]⟩

section StopsAt

variable {α β : Type} {setting : Setting} {tokens middle rest : List Token} {token first : Token}

theorem StopsAt.bind {parser : Parser α} {next : α → Parser β}
    (stops : StopsAt parser setting tokens token rest) :
    StopsAt (parser >>= next) setting tokens token rest := by
  obtain ⟨problem, reply⟩ := stops
  exact ⟨problem, by rw [bind_of_none (by rw [reply]), reply]⟩

theorem Accepts.stops {parser : Parser α} {value : α} {next : α → Parser β}
    (accepts : Accepts parser setting tokens value middle)
    (later : StopsAt (next value) setting middle token rest) :
    StopsAt (parser >>= next) setting tokens token rest := by
  rw [StopsAt, bind_of_accepts next accepts]
  exact later

theorem accepts_accept {kind : Kind} (isKind : token.kind = kind) :
    Accepts (accept kind) setting (token :: rest) (some token) rest := by
  simp [Accepts, accept, isKind]

theorem accepts_absent {kind : Kind} (differs : kindOf tokens ≠ kind) :
    Accepts (accept kind) setting tokens none tokens := by
  cases tokens with
  | nil => rfl
  | cons token rest =>
      have differs : token.kind ≠ kind := differs
      simp [Accepts, accept, differs]

theorem accepts_unchosen {choose : Kind → Option α} (noAnswer : choose (kindOf tokens) = none) :
    Accepts (select choose) setting tokens none tokens := by
  cases tokens with
  | nil => rfl
  | cons token rest =>
      have noAnswer : choose token.kind = none := noAnswer
      simp [Accepts, select, noAnswer]

theorem StopsAt.ahead {kind : Kind} {next : Kind → Parser α} (isKind : kindOf tokens = kind)
    (later : StopsAt (next kind) setting tokens token rest) :
    StopsAt (peek >>= next) setting tokens token rest := by
  subst isKind
  exact later

theorem StopsAt.taking {parser : Parser α} (later : StopsAt parser setting middle token rest) :
    StopsAt (taking parser) setting (first :: middle) token rest := later

theorem stops_failHere (problem : Problem) :
    StopsAt (failHere problem : Parser α) setting (token :: rest) token rest :=
  ⟨problem, rfl⟩

theorem stops_expectAfter {kind : Kind} (landmark : String) (differs : token.kind ≠ kind) :
    StopsAt (expectAfter kind landmark) setting (token :: rest) token rest :=
  ⟨.expected (.after kind landmark), by simp [expectAfter, expect, differs]⟩

theorem StopsAt.recovered {parser : Parser α} (stops : StopsAt parser setting tokens token rest) :
    ∃ problem, recovered parser setting tokens =
      ⟨some none, resumeAfter token.kind rest, [⟨token.site, problem⟩]⟩ := by
  obtain ⟨problem, reply⟩ := stops
  exact ⟨problem, by rw [recovered_of_none (by rw [reply]), reply]; rfl⟩

end StopsAt

/-! ## Tokens that interrupt a statement -/

/-- A kind of token that nothing goes on with before the semicolon of a statement:
it ends an expression and begins none, and it is no comma, which another value of
a `return` would follow. -/
structure Interrupts (kind : Kind) : Prop where
  ends : endsExpression kind = true
  starts : startsExpression kind = false
  semicolon : kind ≠ .semicolon
  comma : kind ≠ .comma

theorem interrupts_of_startsStatement {kind : Kind} (starts : kind.startsStatement = true) :
    Interrupts kind := by
  cases kind <;> cases starts <;> exact ⟨rfl, rfl, by decide, by decide⟩

theorem interrupts_rightBrace : Interrupts .rightBrace :=
  ⟨rfl, rfl, by decide, by decide⟩

theorem Interrupts.not_equal {kind : Kind} (interrupts : Interrupts kind) : kind ≠ .equal := by
  intro same
  have ends := interrupts.ends
  rw [same] at ends
  cases ends

/-- No expression begins here. -/
theorem expression_stops {setting : Setting} {token : Token} {rest : List Token}
    (starts : startsExpression token.kind = false) :
    Ample fun depth _ => StopsAt (expression depth) setting (token :: rest) token rest := by
  have primary : ∀ fuel depth,
      StopsAt (primaryRule fuel (expression depth)) setting (token :: rest) token rest := by
    intro fuel depth
    refine .ahead rfl ?_
    have starts : startsExpression (kindOf (token :: rest)) = false := starts
    generalize kindOf (token :: rest) = kind at starts ⊢
    cases kind <;> first | exact stops_failHere _ | cases starts
  have noSign : unaryOperator? token.kind = none := by
    generalize token.kind = kind at starts ⊢
    cases kind <;> first | rfl | cases starts
  have suffixed : Ample fun depth _ =>
      StopsAt (suffixed depth) setting (token :: rest) token rest :=
    Ample.deeper (.of_forall primary) fun _ stops => stops.bind
  have unary : Ample fun depth _ => StopsAt (unary depth) setting (token :: rest) token rest :=
    suffixed.deeper fun _ stops => (accepts_unchosen noSign).stops stops
  -- from each level to the next looser one
  have looser : ∀ level : Level,
      (Ample fun depth _ => StopsAt (operandAt depth level) setting (token :: rest) token rest) →
        Ample fun depth _ => StopsAt (operation depth level) setting (token :: rest) token rest :=
    fun _ operand => operand.deeper fun _ stops => stops.bind
  have factor := looser .factor unary
  have term := looser .term factor
  have comparison := looser .comparison term
  have equality := looser .equality comparison
  have conjunction := looser .conjunction equality
  exact (looser .disjunction conjunction).deeper fun _ stops => stops.bind

/-! ## Statements without their semicolon -/

/-- If the last token is the semicolon, the parser gives up at any token that
interrupts, once it stands in its place. -/
def Interruptible {α : Type} (coin : Nat → Bool) (parser : Nat → Parser α)
    (tokens rest : List Token) : Prop :=
  ∃ read last, tokens = read ++ last :: rest ∧ (last.kind = .semicolon →
    ∀ {setting : Setting} {boundary : Token} {more : List Token}, Interrupts boundary.kind →
      coinBefore setting.coin more = coinBefore coin rest →
        Ample fun depth _ =>
          StopsAt (parser depth) setting (read ++ boundary :: more) boundary more)

/-- The last token is a closing brace. -/
def EndsInBrace (tokens rest : List Token) : Prop :=
  ∃ read last, tokens = read ++ last :: rest ∧ last.kind = .rightBrace

section Interruptible

variable {α β : Type} {coin : Nat → Bool} {reading : Reading} {tokens others rest : List Token}
  {parser : Nat → Parser α} {whole : Nat → Parser β}

theorem EndsInBrace.within {all : List Token} (suffix : tokens <:+ all)
    (ends : EndsInBrace tokens rest) : EndsInBrace all rest := by
  obtain ⟨read, last, rfl, isBrace⟩ := ends
  obtain ⟨front, rfl⟩ := suffix
  exact ⟨front ++ read, last, by simp, isBrace⟩

/-- Behind a body there may be further cases. -/
theorem EndsInBrace.andThen (ends : EndsInBrace tokens others)
    (later : others = rest ∨ EndsInBrace others rest) : EndsInBrace tokens rest := by
  rcases later with rfl | later
  · exact ends
  · obtain ⟨read, last, rfl, -⟩ := ends
    exact later.within ((List.suffix_cons last others).trans (List.suffix_append read _))

theorem EndsInBrace.interruptible (ends : EndsInBrace tokens rest) :
    Interruptible coin parser tokens rest := by
  obtain ⟨read, last, rfl, isBrace⟩ := ends
  refine ⟨read, last, rfl, fun isSemicolon => ?_⟩
  rw [isBrace] at isSemicolon
  cases isSemicolon

/-- A part that stands right before the semicolon. -/
theorem interruptible_behind (front : List Token) {semicolon : Token}
    (replays : Replays reading coin tokens (semicolon :: rest))
    (rule : ∀ {setting : Setting} {tokens : List Token} {boundary : Token} {more : List Token},
      Interrupts boundary.kind → reading setting.coin tokens (boundary :: more) →
        Ample fun depth _ => StopsAt (whole depth) setting (front ++ tokens) boundary more) :
    Interruptible coin whole (front ++ tokens) rest := by
  obtain ⟨read, rfl, replay⟩ := replays
  refine ⟨front ++ read, semicolon, by simp, fun _ {setting boundary more} interrupts same => ?_⟩
  have stops := rule interrupts (replay (coinBefore_append same (Eq.refl [boundary].length)))
  simpa using stops

/-- A part before another one that can be interrupted. -/
theorem Interruptible.after (front middle : List Token)
    (interruptible : Interruptible coin parser others rest)
    (replays : Replays reading coin tokens (middle ++ others))
    (rule : ∀ {setting : Setting} {tokens others : List Token} {boundary : Token}
      {more : List Token}, reading setting.coin tokens (middle ++ others) →
        (Ample fun depth _ => StopsAt (parser depth) setting others boundary more) →
          Ample fun depth _ => StopsAt (whole depth) setting (front ++ tokens) boundary more) :
    Interruptible coin whole (front ++ tokens) rest := by
  obtain ⟨readLater, last, rfl, stops⟩ := interruptible
  obtain ⟨read, rfl, replay⟩ := replays
  refine ⟨front ++ read ++ middle ++ readLater, last, by simp,
    fun isSemicolon {setting boundary more} interrupts same => ?_⟩
  have sameLater : coinBefore setting.coin (middle ++ readLater ++ [boundary] ++ more) =
      coinBefore coin (middle ++ readLater ++ [last] ++ rest) :=
    coinBefore_append same (by simp)
  have reads : reading setting.coin (read ++ (middle ++ (readLater ++ boundary :: more)))
      (middle ++ (readLater ++ boundary :: more)) :=
    replay (by simpa using sameLater)
  have stopsHere := rule reads (stops isSemicolon interrupts same)
  simpa using stopsHere

end Interruptible

/-- What is shown of each phrase that a statement can end with. -/
def Interrupted (coin : Nat → Bool) : Phrase → List Token → List Token → Prop
  | .binding _, tokens, rest =>
      Interruptible coin (fun depth => varRest (expression depth)) tokens rest
  | .declaration _, tokens, rest => Interruptible coin declaration tokens rest
  | .statement _ _, tokens, rest => Interruptible coin statement tokens rest
  | .function _ _, tokens, rest | .body _, tokens, rest => EndsInBrace tokens rest
  | .cases _, tokens, rest => tokens = rest ∨ EndsInBrace tokens rest
  | _, _, _ => True

namespace Interrupted

section Rules

variable {coin : Nat → Bool} {tokens others rest : List Token}
  {keyword token opening closing colon equal semicolon : Token} {value : Expr} {name : Name}
  {result : Stmt} {dangling : Bool}

/-! ### Declarations -/

theorem unbound (isName : IsName token name) :
    Interrupted coin (.binding (.var name none)) (token :: semicolon :: rest) rest := by
  refine ⟨[token], semicolon, rfl, fun _ {setting boundary more} interrupts _ => ?_⟩
  have notBound : kindOf (boundary :: more) ≠ .equal := interrupts.not_equal
  exact .of_forall fun _ _ => (accepts_identifier _ isName).stops
    ((accepts_absent notBound).stops ((accepts_pure none).stops
      (stops_expectAfter _ interrupts.semicolon).bind))

theorem bound (isName : IsName token name) (isEqual : equal.kind = .equal)
    (initial : Derives coin (.expression value) tokens (semicolon :: rest)) :
    Interrupted coin (.binding (.var name (some value))) (token :: equal :: tokens) rest := by
  refine interruptible_behind [token, equal] initial.replayed fun interrupts derives => ?_
  exact (derives.accepted interrupts.ends).mono fun _ _ accepts =>
    (accepts_identifier _ isName).stops ((accepts_accept isEqual).stops ((accepts.map some).stops
      (stops_expectAfter _ interrupts.semicolon).bind))

theorem var (isVar : keyword.kind = .varWord)
    (inner : Interrupted coin (.binding result) tokens rest) :
    Interrupted coin (.declaration result) (keyword :: tokens) rest := by
  obtain ⟨read, last, rfl, stops⟩ := inner
  refine ⟨keyword :: read, last, rfl, fun isSemicolon _ _ _ interrupts same => ?_⟩
  exact (stops isSemicolon interrupts same).deeper fun _ stops => .ahead isVar (.taking stops)

theorem const (isConst : keyword.kind = .constWord) (isName : IsName token name)
    (isEqual : equal.kind = .equal)
    (initial : Derives coin (.expression value) tokens (semicolon :: rest)) :
    Interrupted coin (.declaration (.const name value)) (keyword :: token :: equal :: tokens)
      rest := by
  refine interruptible_behind [keyword, token, equal] initial.replayed fun interrupts derives => ?_
  exact (derives.accepted interrupts.ends).deeper fun _ accepts => .ahead isConst (.taking
    ((accepts_identifier _ isName).stops ((accepts_expectAfter _ isEqual).stops (accepts.stops
      (stops_expectAfter _ interrupts.semicolon).bind))))

/-- A statement is more than a semicolon, so that its first token is not the one
that is replaced. -/
theorem plainStatement (starts : (Phrase.statement dangling result).begins (kindOf tokens) = true)
    (inner : Interrupted coin (.statement dangling result) tokens rest) :
    Interrupted coin (.declaration result) tokens rest := by
  obtain ⟨read, last, rfl, stops⟩ := inner
  refine ⟨read, last, rfl, fun isSemicolon {_ boundary more} interrupts same => ?_⟩
  cases read with
  | nil =>
      have starts : (Phrase.statement dangling result).begins last.kind = true := starts
      rw [isSemicolon] at starts
      cases starts
  | cons first read =>
      refine (stops isSemicolon interrupts same).deeper fun depth stops => .ahead rfl ?_
      have starts : (Phrase.statement dangling result).begins
          (kindOf (first :: read ++ boundary :: more)) = true := starts
      generalize kindOf (first :: read ++ boundary :: more) = kind at starts ⊢
      cases kind <;> first | exact stops | cases starts

/-! ### Statements -/

theorem print (isPrint : keyword.kind = .printWord)
    (inner : Derives coin (.expression value) tokens (semicolon :: rest)) :
    Interrupted coin (.statement false (.print value)) (keyword :: tokens) rest := by
  refine interruptible_behind [keyword] inner.replayed fun interrupts derives => ?_
  exact (derives.accepted interrupts.ends).deeper fun _ accepts => .ahead isPrint (.taking
    (accepts.stops (stops_expectAfter _ interrupts.semicolon).bind))

theorem expression (inner : Derives coin (.expression value) tokens (semicolon :: rest)) :
    Interrupted coin (.statement false (.expression value)) tokens rest := by
  refine interruptible_behind [] inner.replayed
    fun {setting tokens boundary more} interrupts derives => ?_
  refine (derives.accepted interrupts.ends).deeper fun depth accepts =>
    .ahead (Eq.refl (kindOf tokens)) ?_
  have stops : StopsAt (expressionStatement (Grammar.expression depth)) setting tokens boundary
      more :=
    accepts.stops (stops_expectAfter _ interrupts.semicolon).bind
  have starts : startsExpression (kindOf tokens) = true := derives.begins
  generalize kindOf tokens = kind at starts ⊢
  cases kind <;> first | exact stops | cases starts

theorem onlyIf {condition : Expr} {consequent : Stmt} (isIf : keyword.kind = .ifWord)
    (opens : opening.kind = .leftParen)
    (test : Derives coin (.expression condition) tokens (closing :: others))
    (closes : closing.kind = .rightParen)
    (inner : Interrupted coin (.statement dangling consequent) others rest) :
    Interrupted coin (.statement true (.branch condition consequent none))
      (keyword :: opening :: tokens) rest := by
  refine inner.after [keyword, opening] [closing] test.replayed fun test stops => ?_
  exact ((test.accepted (Accepted.ends_of_kind closes rfl)).and stops).deeper fun _ both =>
    .ahead isIf (.taking ((accepts_expectAfter _ opens).stops (both.1.stops
      ((accepts_expectAfter _ closes).stops both.2.bind))))

theorem ifElse {word : Token} {middle : List Token} {condition : Expr}
    {consequent alternative : Stmt} (isIf : keyword.kind = .ifWord)
    (opens : opening.kind = .leftParen)
    (test : Derives coin (.expression condition) tokens (closing :: others))
    (closes : closing.kind = .rightParen)
    (inner : Derives coin (.statement false consequent) others (word :: middle))
    (isElse : word.kind = .elseWord)
    (last : Interrupted coin (.statement dangling alternative) middle rest) :
    Interrupted coin (.statement dangling (.branch condition consequent (some alternative)))
      (keyword :: opening :: tokens) rest := by
  refine last.after [keyword, opening] [word] (test.replayed.andThen [closing] inner.replayed)
    fun {_ _ others _ _} both stops => ?_
  obtain ⟨_, test, inner⟩ := both
  have innerFollows : Follows false (word :: others) :=
    ⟨Bool.noConfusion, by simp [kindOf, isElse], by simp [kindOf, isElse]⟩
  exact ((test.accepted (Accepted.ends_of_kind closes rfl)).and
    ((inner.accepted innerFollows).and stops)).deeper fun _ parts =>
      .ahead isIf (.taking ((accepts_expectAfter _ opens).stops (parts.1.stops
        ((accepts_expectAfter _ closes).stops (parts.2.1.stops ((accepts_accept isElse).stops
          parts.2.2.bind))))))

theorem whileLoop {condition : Expr} (isWhile : keyword.kind = .whileWord)
    (opens : opening.kind = .leftParen)
    (test : Derives coin (.expression condition) tokens (closing :: others))
    (closes : closing.kind = .rightParen)
    (inner : Interrupted coin (.statement dangling result) others rest) :
    Interrupted coin (.statement dangling (.loop condition result)) (keyword :: opening :: tokens)
      rest := by
  refine inner.after [keyword, opening] [closing] test.replayed fun test stops => ?_
  exact ((test.accepted (Accepted.ends_of_kind closes rfl)).and stops).deeper fun _ both =>
    .ahead isWhile (.taking ((accepts_expectAfter _ opens).stops (both.1.stops
      ((accepts_expectAfter _ closes).stops both.2.bind))))

theorem forLoop {conditions increments : List Token} {initial : Option Stmt}
    {condition increment : Option Expr} (isFor : keyword.kind = .forWord)
    (opens : opening.kind = .leftParen) (start : Derives coin (.initial initial) tokens conditions)
    (test : Derives coin (.clause condition) conditions (semicolon :: increments))
    (ends : semicolon.kind = .semicolon)
    (step : Derives coin (.clause increment) increments (closing :: others))
    (closes : closing.kind = .rightParen)
    (inner : Interrupted coin (.statement dangling result) others rest) :
    Interrupted coin (.statement dangling (.forLoop initial condition increment result))
      (keyword :: opening :: tokens) rest := by
  refine inner.after [keyword, opening] [closing]
    (start.replayed.andThen [] (test.replayed.andThen [semicolon] step.replayed))
    fun clauses stops => ?_
  obtain ⟨_, start, _, test, step⟩ := clauses
  exact (Ample.and start.accepted ((test.accepted .semicolon (Or.inl rfl) ends).and
    ((step.accepted .rightParen (Or.inr rfl) closes).and stops))).deeper fun _ parts =>
      .ahead isFor (.taking ((accepts_expectAfter _ opens).stops (parts.1.stops (parts.2.1.stops
        ((accepts_expectAfter _ ends).stops (parts.2.2.1.stops
          ((accepts_expectAfter _ closes).stops parts.2.2.2.bind)))))))

/-- A `switch` ends in the colon or in the last of its cases. -/
theorem switch {rule : Expr} {all : List Case}
    (chosen : Derives coin (.expression rule) tokens (colon :: others))
    (isColon : colon.kind = .colon) (inner : Interrupted coin (.cases all) others rest) :
    Interrupted coin (.statement false (.switch rule all)) (keyword :: tokens) rest := by
  obtain ⟨read, rfl, -⟩ := chosen.replayed
  rcases inner with rfl | ends
  · refine ⟨keyword :: read, colon, rfl, fun isSemicolon => ?_⟩
    rw [isColon] at isSemicolon
    cases isSemicolon
  · refine (ends.within ?_).interruptible
    exact (List.suffix_append (keyword :: read ++ [colon]) others).trans (by simp)

theorem returnNothing (isReturn : keyword.kind = .returnWord) :
    Interrupted coin (.statement false (.result none)) (keyword :: semicolon :: rest) rest := by
  refine ⟨[keyword], semicolon, rfl, fun _ {setting boundary more} interrupts _ => ?_⟩
  have notEnded : kindOf (boundary :: more) ≠ .semicolon := interrupts.semicolon
  exact (expression_stops interrupts.starts).deeper fun _ stops => .ahead isReturn (.taking
    ((accepts_absent notEnded).stops stops.bind))

theorem returnValues {values : List Expr} (isReturn : keyword.kind = .returnWord)
    (list : Derives coin (.values values) tokens (semicolon :: rest)) :
    Interruptible coin statement (keyword :: tokens) rest := by
  refine interruptible_behind [keyword] list.replayed fun interrupts derives => ?_
  obtain ⟨_, _, _, rfl, accepts, acceptsFurther⟩ :=
    derives.accepted interrupts.ends interrupts.comma
  exact (accepts.and acceptsFurther).deeper fun _ both => .ahead isReturn (.taking
    ((accepts_absent (Accepted.ne_of_starts derives.begins rfl)).stops (both.1.stops
      (both.2.stops (stops_expectAfter _ interrupts.semicolon).bind))))

end Rules

end Interrupted

/-- A case for each rule that a statement can end with. -/
theorem Derives.interrupted {coin : Nat → Bool} {phrase : Phrase} {tokens rest : List Token}
    (derives : Derives coin phrase tokens rest) : Interrupted coin phrase tokens rest := by
  induction derives with
  | @nullary closing opening tokens _ _ _ _ _ ends =>
      exact ends.within (List.suffix_append [closing, opening] tokens)
  | @function closing opening _ others _ _ _ list _ _ _ _ _ ends =>
      exact ends.within ((List.suffix_append [closing, opening] others).trans list.replayed.suffix)
  | @endOfBody closing _ closes => exact ⟨[], closing, rfl, closes⟩
  | body head _ _ ends => exact ends.within head.replayed.suffix
  | noCases => exact Or.inl rfl
  | @labelled keyword colon opening tokens inside _ _ _ _ _ _ value _ _ _ _ _ ends later =>
      have suffix := (List.suffix_append [colon, opening] inside).trans value.replayed.suffix
      exact Or.inr ((ends.andThen later).within (suffix.trans (List.suffix_cons keyword tokens)))
  | @fallback keyword colon opening tokens _ _ _ _ _ _ _ _ _ ends later =>
      exact Or.inr ((ends.andThen later).within
        (List.suffix_append [keyword, colon, opening] tokens))
  | unbound isName _ => exact .unbound isName
  | bound isName isEqual initial _ _ => exact .bound isName isEqual initial
  | var isVar _ inner => exact .var isVar inner
  | const isConst isName isEqual initial _ _ => exact .const isConst isName isEqual initial
  | @functionDeclaration keyword token opening tokens _ _ _ _ _ _ _ _ ends =>
      exact (ends.within (List.suffix_append [keyword, token, opening] tokens)).interruptible
  | plainStatement inner interrupted => exact .plainStatement inner.begins interrupted
  | print isPrint inner _ _ => exact .print isPrint inner
  | expression inner _ _ => exact .expression inner
  | @block opening tokens _ _ _ _ ends =>
      exact (ends.within (List.suffix_cons opening tokens)).interruptible
  | onlyIf isIf opens test closes _ _ inner => exact .onlyIf isIf opens test closes inner
  | ifElse isIf opens test closes inner isElse _ _ _ last =>
      exact .ifElse isIf opens test closes inner isElse last
  | whileLoop isWhile opens test closes _ _ inner =>
      exact .whileLoop isWhile opens test closes inner
  | forLoop isFor opens start test ends step closes _ _ _ _ inner =>
      exact .forLoop isFor opens start test ends step closes inner
  | switch _ chosen isColon _ _ _ inner => exact .switch chosen isColon inner
  | returnNothing isReturn _ => exact .returnNothing isReturn
  | returnOne isReturn list _ _ => exact Interrupted.returnValues isReturn list
  | returnSeveral isReturn list _ _ _ => exact Interrupted.returnValues isReturn list
  | _ => trivial

/-- A statement without its semicolon is given up at the token behind it, if that
interrupts. -/
theorem Derives.stops {coin : Nat → Bool} {setting : Setting} {bad more : List Token}
    {semicolon boundary : Token} {result : Stmt}
    (derives : Derives coin (.declaration result) (bad ++ [semicolon]) [])
    (isSemicolon : semicolon.kind = .semicolon) (interrupts : Interrupts boundary.kind)
    (same : coinBefore setting.coin more = coin) :
    StopsAt (declaration (depthFor (bad ++ boundary :: more).length)) setting
      (bad ++ boundary :: more) boundary more := by
  obtain ⟨read, last, split, stops⟩ := derives.interrupted
  obtain ⟨rfl, isLast⟩ := List.append_inj' split rfl
  cases isLast
  exact declaration_of_ample
    (fun reply => ∃ problem, reply = ⟨none, boundary :: more, [⟨boundary.site, problem⟩]⟩)
    (stops isSemicolon interrupts same)

/-- It begins like the whole statement does. -/
theorem Derives.begins_without {coin : Nat → Bool} {bad : List Token} {semicolon : Token}
    {result : Stmt} (derives : Derives coin (.declaration result) (bad ++ [semicolon]) [])
    (isSemicolon : semicolon.kind = .semicolon) (more : List Token) :
    (Phrase.declaration result).begins (kindOf (bad ++ more)) = true := by
  have begins := derives.begins
  cases bad with
  | nil =>
      have begins : (Phrase.declaration result).begins semicolon.kind = true := begins
      rw [isSemicolon] at begins
      cases begins
  | cons first bad => exact begins

/-! ## Bodies -/

section Bodies

variable {setting : Setting} {tokens others more : List Token} {reply : Reply (List Stmt)}

theorem map_reply {α β : Type} (convert : α → β) (parser : Parser α) (setting : Setting)
    (tokens : List Token) :
    (parser >>= fun value => pure (convert value)) setting tokens =
      ⟨(parser setting tokens).outcome.map convert, (parser setting tokens).rest,
        (parser setting tokens).reports⟩ := by
  cases outcome : (parser setting tokens).outcome with
  | none => exact bind_of_none outcome
  | some value =>
      rw [bind_of_some value outcome]
      simp [pure_apply]

/-- What stands in a body before the tokens that `reply` is read from. -/
def behind (statements : List Stmt) (reports : List Diagnostic) (reply : Reply (List Stmt)) :
    Reply (List Stmt) :=
  ⟨reply.outcome.map (statements ++ ·), reply.rest, reports ++ reply.reports⟩

theorem behind_behind (first second : List Stmt) (earlier later : List Diagnostic)
    (reply : Reply (List Stmt)) :
    behind first earlier (behind second later reply) =
      behind (first ++ second) (earlier ++ later) reply := by
  obtain ⟨outcome, rest, reports⟩ := reply
  cases outcome <;> simp [behind]

/-- A body is read so if depth and fuel are enough. -/
def ReadsBody (setting : Setting) (tokens : List Token) (reply : Reply (List Stmt)) : Prop :=
  Ample fun depth fuel => bodyRest (declaration depth) fuel setting tokens = reply

theorem readsBody (setting : Setting) (tokens : List Token) :
    ReadsBody setting tokens (body (depthFor tokens.length) setting tokens) := by
  refine ⟨depthFor tokens.length, fun depth fuel deep fuelled => ?_⟩
  have enough : Deep (20 * (tokens.length + 1) + 10) (depthFor tokens.length - 1) depth := by
    unfold depthFor at deep ⊢
    exact ⟨by omega, by omega⟩
  have short : tokens.length + 1 ≤ depthFor tokens.length - 1 ∧ tokens.length + 1 ≤ fuel := by
    unfold depthFor at fuelled ⊢
    omega
  have stable := bodyRest_stable ((grammar_stable noChange (tokens.length + 1)).declaration enough)
    short.1 short.2
  have same := stable.carries (Nat.lt_succ_self _) (noChange_fits setting tokens) (Or.inl trivial)
  rwa [noChange_tokens, noChange_reply] at same

/-- One item of a body, and then the others. -/
theorem ReadsBody.item {result : Stmt} {outcome : Option Stmt} {reports : List Diagnostic}
    (begins : (Phrase.declaration result).begins (kindOf tokens) = true)
    (first : Ample fun depth _ => recovered (bodyStatement (declaration depth)) setting tokens =
      ⟨some outcome, others, reports⟩)
    (later : ReadsBody setting others reply) :
    ReadsBody setting tokens (behind outcome.toList reports reply) := by
  have goesOn : ¬ (kindOf tokens = .rightBrace ∨ kindOf tokens = .endOfInput) := by
    rintro (same | same) <;> rw [same] at begins <;> cases begins
  refine (first.and later).fuelled fun depth fuel both => ?_
  show (peek >>= _) setting tokens = _
  rw [bind_of_accepts _ (show Accepts peek setting tokens (kindOf tokens) tokens from rfl)]
  simp only [goesOn, if_false]
  rw [bind_of_some outcome (by rw [both.1]), both.1, map_reply, both.2]
  rfl

/-- An item that begins like a declaration is one. -/
theorem bodyStatement_declaration {result : Stmt} (depth : Nat)
    (begins : (Phrase.declaration result).begins (kindOf tokens) = true) :
    bodyStatement (declaration depth) setting tokens = declaration depth setting tokens := by
  have notJump : kindOf tokens ≠ .breakWord ∧ kindOf tokens ≠ .continueWord := by
    constructor <;> intro same <;> rw [same] at begins <;> cases begins
  show (accept .breakWord >>= _) setting tokens = _
  rw [bind_of_accepts _ (accepts_absent notJump.1)]
  exact bind_of_accepts _ (accepts_absent notJump.2)

/-- Statements that are read without a report, and then the rest of a body. -/
theorem Derives.readsBody {coin : Nat → Bool} {statements : List Stmt} {pre : List Token}
    (derives : Derives coin (.program statements) pre [])
    (same : coinBefore setting.coin more = coin) (separate : Separate more)
    (later : ReadsBody setting more reply) :
    ReadsBody setting (pre ++ more) (behind statements [] reply) := by
  generalize isProgram : Phrase.program statements = phrase at derives
  generalize isEnd : ([] : List Token) = rest at derives
  induction derives generalizing statements with
  | endOfProgram =>
      cases isProgram
      obtain ⟨_ | _, _, _⟩ := reply <;> exact later
  | @program tokens others statement _ head tail _ inductionHypothesis =>
      cases isProgram
      obtain ⟨read, rfl, replay⟩ := head.replayed
      have sameEnd : coinBefore setting.coin more = coinBefore coin [] := same
      have sameHere : coinBefore setting.coin (others ++ more) = coinBefore coin others := by
        simpa using coinBefore_append sameEnd (Eq.refl others.length)
      have separateHere : Separate (others ++ more) := by
        cases others with
        | nil => exact separate
        | cons token others => exact tail.program_separate.append (List.cons_ne_nil _ _) more
      have headHere := replay sameHere
      have accepts := (Derives.item headHere).accepted separateHere
      have first := ReadsBody.item headHere.begins
        (accepts.mono fun _ _ accepts => accepts.recovered) (inductionHypothesis rfl rfl)
      rw [behind_behind] at first
      rw [List.append_assoc]
      exact first
  | _ => cases isProgram

/-- A statement without its semicolon in a body: reading goes on behind the token
it is given up at. -/
theorem Derives.readsBody_without {coin : Nat → Bool} {bad : List Token}
    {semicolon boundary : Token} {result : Stmt}
    (derives : Derives coin (.declaration result) (bad ++ [semicolon]) [])
    (isSemicolon : semicolon.kind = .semicolon) (interrupts : Interrupts boundary.kind)
    (same : coinBefore setting.coin more = coin)
    (later : ReadsBody setting (resumeAfter boundary.kind more) reply) :
    ∃ problem, ReadsBody setting (bad ++ boundary :: more)
      (behind [] [⟨boundary.site, problem⟩] reply) := by
  obtain ⟨problem, recovers⟩ := (derives.stops isSemicolon interrupts same).recovered
  have begins := derives.begins_without isSemicolon (boundary :: more)
  have first : Ample fun depth _ =>
      recovered (bodyStatement (declaration depth)) setting (bad ++ boundary :: more) =
        ⟨some none, resumeAfter boundary.kind more, [⟨boundary.site, problem⟩]⟩ := by
    refine ⟨depthFor (bad ++ boundary :: more).length, fun depth _ deep _ => ?_⟩
    rw [← recovers]
    simp only [recovered, bodyStatement_declaration depth begins,
      declaration_depth setting _ (Nat.le_refl _) deep]
  exact ⟨problem, .item begins first later⟩

/-- A block is its body. -/
theorem declaration_block {opening : Token} (opens : opening.kind = .leftBrace)
    (reads : ReadsBody setting tokens reply) :
    declaration (depthFor (opening :: tokens).length) setting (opening :: tokens) =
      ⟨reply.outcome.map .block, reply.rest, reply.reports⟩ := by
  have inside : Ample fun depth _ => body depth setting tokens = reply :=
    Ample.deeper reads fun _ reads => reads
  have isBlock : Ample fun depth _ => statement depth setting (opening :: tokens) =
      ⟨reply.outcome.map .block, reply.rest, reply.reports⟩ := by
    refine inside.deeper fun depth reads => ?_
    show (peek >>= _) setting (opening :: tokens) = _
    rw [bind_of_accepts _ (show Accepts peek setting (opening :: tokens) opening.kind _ from rfl)]
    simp only [opens]
    rw [← reads]
    exact map_reply Stmt.block (body depth) setting tokens
  refine declaration_of_ample (· = _) (isBlock.deeper fun depth reads => ?_)
  rw [← reads]
  show (peek >>= _) setting (opening :: tokens) = _
  rw [bind_of_accepts _ (show Accepts peek setting (opening :: tokens) opening.kind _ from rfl)]
  simp only [opens]

end Bodies

/-! ## What is read instead -/

/-- Tokens that are read as one statement without a report. -/
theorem derives_of_one {setting : Setting} {tokens : List Token} {result : Stmt}
    (parsed : program setting tokens = ⟨[result], []⟩) :
    Derives setting.coin (.declaration result) tokens [] := by
  have derives := derives_of_clean (congrArg Parse.diagnostics parsed)
  rw [parsed] at derives
  cases derives with
  | program head tail =>
      cases tail
      exact head

/-- A program whose first declaration is read so. -/
theorem program_of_next {setting : Setting} {tokens left : List Token} {outcome : Option Stmt}
    {reports : List Diagnostic} (some : tokens ≠ [])
    (read : next setting tokens = ⟨.some outcome, left, reports⟩) :
    program setting tokens = ⟨outcome.toList, reports⟩ ++ program setting left := by
  cases tokens with
  | nil => exact absurd rfl some
  | cons token rest =>
      rw [program_cons, read]
      rfl

/-- How a body goes on whose closing brace has been skipped. -/
def reopened (setting : Setting) (post : List Token) : Reply (Option (List Stmt)) :=
  recovered (body (depthFor (resumeAfter .rightBrace post).length)) setting
    (resumeAfter .rightBrace post)

theorem recovered_rest_suffix {α : Type} (parser : Parser α) (setting : Setting)
    (tokens : List Token) :
    (recovered parser setting tokens).rest <:+ (parser setting tokens).rest := by
  cases outcome : (parser setting tokens).outcome with
  | some value =>
      simp only [recovered_of_some value outcome]
      exact List.suffix_refl _
  | none =>
      rw [recovered_of_none outcome]
      exact synchronize_suffix _

theorem reopened_rest_suffix (setting : Setting) (post : List Token) :
    (reopened setting post).rest <:+ post := by
  have resumed := resumeAfter_suffix .rightBrace post
  generalize isResumed : resumeAfter .rightBrace post = tokens at resumed
  have enough : Deep (20 * (tokens.length + 1) + 11) (depthFor tokens.length)
      (depthFor tokens.length) := by
    unfold depthFor
    exact ⟨by omega, by omega⟩
  have leaves := ((grammar_stable noChange (tokens.length + 1)).body enough).leaves setting
    (Nat.lt_succ_self tokens.length)
  rw [reopened, isResumed]
  exact (recovered_rest_suffix _ _ _).trans (leaves.trans resumed)

/-- A declaration that replies like the rest of a body is recovered from like it. -/
theorem recovered_map {α β : Type} {parser : Parser α} {whole : Parser β} {setting : Setting}
    {tokens others : List Token} (convert : α → β) (first : Diagnostic)
    (replies : whole setting tokens = ⟨(parser setting others).outcome.map convert,
      (parser setting others).rest, first :: (parser setting others).reports⟩) :
    recovered whole setting tokens =
      ⟨some ((recovered parser setting others).outcome.join.map convert),
        (recovered parser setting others).rest,
        first :: (recovered parser setting others).reports⟩ := by
  simp only [recovered, replies]
  cases (parser setting others).outcome <;> rfl

/-- Behind statements that are read without a report, a statement without its
semicolon takes the keyword of the next statement with it. -/
theorem program_skips_keyword {before stop : Site} {coin : Nat → Bool} {pre bad post : List Token}
    {semicolon keyword : Token} {result : Stmt}
    (clean : (program ⟨before, coinBefore coin (bad ++ keyword :: post)⟩ pre).diagnostics = [])
    (derives : Derives (coinBefore coin post) (.declaration result) (bad ++ [semicolon]) [])
    (isSemicolon : semicolon.kind = .semicolon) (starts : keyword.kind.startsStatement = true) :
    ∃ problem, program ⟨stop, coin⟩ (pre ++ (bad ++ keyword :: post)) =
      program ⟨before, coinBefore coin (bad ++ keyword :: post)⟩ pre ++
        (⟨[], [⟨keyword.site, problem⟩]⟩ ++
          program ⟨stop, coin⟩ (resumeAfter keyword.kind post)) := by
  have separate : Separate (bad ++ keyword :: post) :=
    separate_of_begins (derives.begins_without isSemicolon _) ⟨rfl, rfl, rfl⟩
  have stops : StopsAt (declaration (depthFor (bad ++ keyword :: post).length)) ⟨stop, coin⟩
      (bad ++ keyword :: post) keyword post :=
    derives.stops isSemicolon (interrupts_of_startsStatement starts) rfl
  obtain ⟨problem, recovers⟩ := stops.recovered
  refine ⟨problem, ?_⟩
  rw [program_append before stop coin separate clean]
  exact congrArg (_ ++ ·) (program_of_next (by simp) recovers)

/-- In a block, it takes the closing brace with it. -/
theorem program_skips_brace {before stop : Site} {coin : Nat → Bool} {pre bad post : List Token}
    {opening closing semicolon : Token} {result : Stmt}
    (clean : (program ⟨before, coinBefore coin (bad ++ closing :: post)⟩ pre).diagnostics = [])
    (derives : Derives (coinBefore coin post) (.declaration result) (bad ++ [semicolon]) [])
    (isSemicolon : semicolon.kind = .semicolon) (opens : opening.kind = .leftBrace)
    (closes : closing.kind = .rightBrace) :
    ∃ problem, program ⟨stop, coin⟩ (opening :: (pre ++ (bad ++ closing :: post))) =
      ⟨((reopened ⟨stop, coin⟩ post).outcome.join.map fun others => Stmt.block
          ((program ⟨before, coinBefore coin (bad ++ closing :: post)⟩ pre).program ++
            others)).toList,
        ⟨closing.site, problem⟩ :: (reopened ⟨stop, coin⟩ post).reports⟩ ++
      program ⟨stop, coin⟩ (reopened ⟨stop, coin⟩ post).rest := by
  have separate : Separate (bad ++ closing :: post) :=
    separate_of_begins (derives.begins_without isSemicolon _) ⟨rfl, rfl, rfl⟩
  have resumed : ReadsBody ⟨stop, coin⟩ (resumeAfter closing.kind post)
      (body (depthFor (resumeAfter .rightBrace post).length) ⟨stop, coin⟩
        (resumeAfter .rightBrace post)) := by
    rw [closes]
    exact readsBody _ _
  have interrupts : Interrupts closing.kind := by
    rw [closes]
    exact interrupts_rightBrace
  obtain ⟨problem, reads⟩ := derives.readsBody_without isSemicolon interrupts rfl resumed
  have whole := (derives_of_clean clean).readsBody rfl separate reads
  have block := declaration_block opens whole
  rw [behind_behind] at block
  refine ⟨problem, program_of_next (List.cons_ne_nil _ _) (recovered_map _ _ ?_)⟩
  rw [block]
  simp [behind, Function.comp_def]

/-- A semicolon that is missing costs more than its own statement. The statement
is reported once, at the token behind it. That token is skipped, though it is the
keyword of the next statement (the first part) or the brace that ends the block
(the second part): reading goes on at the first place after it where a statement
may begin, and a block goes on there too. -/
theorem missing_semicolon_skips_boundary (coin : Nat → Bool) (pre bad post : List Token)
    (semicolon stopPre stopBad stop : Token) (preFree : EndFree pre) (badFree : EndFree bad)
    (postFree : EndFree post) (isSemicolon : semicolon.kind = .semicolon)
    (isStopPre : stopPre.kind = .endOfInput) (isStopBad : stopBad.kind = .endOfInput)
    (isStop : stop.kind = .endOfInput)
    (preClean : (parse (coinBefore coin (bad ++ semicolon :: post))
      (pre ++ [stopPre])).diagnostics = [])
    (result : Stmt)
    (badParse : parse (coinBefore coin post) (bad ++ [semicolon] ++ [stopBad]) = ⟨[result], []⟩) :
    (∀ keyword : Token, keyword.kind.startsStatement = true → ∃ problem,
      parse coin (pre ++ (bad ++ keyword :: post) ++ [stop]) =
        parse (coinBefore coin (bad ++ semicolon :: post)) (pre ++ [stopPre]) ++
          (⟨[], [⟨keyword.site, problem⟩]⟩ ++
            parse coin (resumeAfter keyword.kind post ++ [stop]))) ∧
    ∀ opening closing : Token, opening.kind = .leftBrace → closing.kind = .rightBrace → ∃ problem,
      parse coin (opening :: (pre ++ (bad ++ closing :: post)) ++ [stop]) =
        ⟨((reopened ⟨stop.site, coin⟩ post).outcome.join.map fun others => Stmt.block
            ((parse (coinBefore coin (bad ++ semicolon :: post)) (pre ++ [stopPre])).program ++
              others)).toList,
          ⟨closing.site, problem⟩ :: (reopened ⟨stop.site, coin⟩ post).reports⟩ ++
        parse coin ((reopened ⟨stop.site, coin⟩ post).rest ++ [stop]) := by
  have semicolonFree : EndFree [semicolon] := by simp [EndFree, isSemicolon]
  rw [parse_of_endFree _ preFree isStopPre] at preClean ⊢
  rw [parse_of_endFree _ (badFree.append semicolonFree) isStopBad] at badParse
  have derives := derives_of_one badParse
  -- the token behind the statement stands where its semicolon should
  have asMany : ∀ boundary : Token, coinBefore coin (bad ++ semicolon :: post) =
      coinBefore coin (bad ++ boundary :: post) := by
    intro boundary
    funext left
    simp [coinBefore]
  constructor
  · intro keyword starts
    have inner : EndFree [keyword] := by
      simp only [EndFree, List.mem_singleton, forall_eq]
      intro same
      rw [same] at starts
      cases starts
    have resumedFree : EndFree (resumeAfter keyword.kind post) :=
      postFree.suffix (resumeAfter_suffix _ _)
    have wholeFree : EndFree (pre ++ (bad ++ keyword :: post)) :=
      preFree.append (badFree.append (inner.append postFree))
    rw [asMany keyword] at preClean ⊢
    rw [parse_of_endFree coin wholeFree isStop, parse_of_endFree coin resumedFree isStop]
    exact program_skips_keyword preClean derives isSemicolon starts
  · intro opening closing opens closes
    have inner : EndFree [closing] := by simp [EndFree, closes]
    have outer : EndFree [opening] := by simp [EndFree, opens]
    have restFree : EndFree (reopened ⟨stop.site, coin⟩ post).rest :=
      postFree.suffix (reopened_rest_suffix _ _)
    have wholeFree : EndFree (opening :: (pre ++ (bad ++ closing :: post))) :=
      outer.append (preFree.append (badFree.append (inner.append postFree)))
    rw [asMany closing] at preClean ⊢
    rw [parse_of_endFree coin wholeFree isStop, parse_of_endFree coin restFree isStop]
    exact program_skips_brace preClean derives isSemicolon opens closes

/-- A statement without its semicolon. -/
def unfinishedPrint : List Token :=
  [plain .printWord "print", plain .nilWord "nil"]

theorem missing_semicolon_between_prints :
    (∃ problem, parse (fun _ => true) (printNil ++ (unfinishedPrint ++ printNil) ++
      [Token.endOfInput 1]) =
        ⟨[.print (.constant .nil)], [⟨⟨1, .lexeme "print"⟩, problem⟩]⟩) ∧
    ∃ problem, parse (fun _ => true) (plain .leftBrace "\x7b" :: (printNil ++ (unfinishedPrint ++
      plain .rightBrace "\x7d" :: [plain .nilWord "nil", plain .semicolon ";"])) ++
      [Token.endOfInput 1]) =
        ⟨[], [⟨⟨1, .lexeme "\x7d"⟩, problem⟩,
          ⟨⟨1, .endOfInput⟩, .expected (.after .rightBrace "block")⟩]⟩ :=
  have skips := missing_semicolon_skips_boundary (fun _ => true) printNil unfinishedPrint
    [plain .nilWord "nil", plain .semicolon ";"] (plain .semicolon ";") (Token.endOfInput 1)
    (Token.endOfInput 1) (Token.endOfInput 1) (by decide) (by decide) (by decide) rfl rfl rfl rfl
    rfl (.print (.constant .nil)) rfl
  ⟨skips.1 (plain .printWord "print") rfl,
    skips.2 (plain .leftBrace "\x7b") (plain .rightBrace "\x7d") rfl rfl⟩

end Scriptlet.Grammar
