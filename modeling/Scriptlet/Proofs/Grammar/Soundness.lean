import Scriptlet.Proofs.Grammar.Derivation
import Scriptlet.Proofs.Grammar.Stable

/-!
Contract: what the parsers read without a report is derived by the grammar.

`Sound setting relation parser` says that a reply without reports has a value
that is related to the tokens read and the tokens left. It is proved of a rule
from its parts, one parser after the other: the relation of what follows gathers
what the parsers before it have shown.

Owns: `Sound`, its rules, and `grammar_sound`.
-/

set_option autoImplicit false

namespace Scriptlet.Grammar

open Scriptlet.Parser

/-- A reply without reports has a value that is related to the tokens. -/
def Sound {α : Type} (setting : Setting) (relation : α → List Token → List Token → Prop)
    (parser : Parser α) : Prop :=
  ∀ tokens, (parser setting tokens).reports = [] →
    ∃ value rest, parser setting tokens = ⟨some value, rest, []⟩ ∧ relation value tokens rest

section Rules

variable {α β : Type} {setting : Setting} {relation : α → List Token → List Token → Prop}
  {result : β → List Token → List Token → Prop}

theorem Sound.mono {stronger : α → List Token → List Token → Prop} {parser : Parser α}
    (sound : Sound setting stronger parser)
    (weaken : ∀ value tokens rest, stronger value tokens rest → relation value tokens rest) :
    Sound setting relation parser := by
  intro tokens clean
  obtain ⟨value, rest, reply, holds⟩ := sound tokens clean
  exact ⟨value, rest, reply, weaken value tokens rest holds⟩

theorem Sound.pure {value : α} (holds : ∀ tokens, relation value tokens tokens) :
    Sound setting relation (pure value) :=
  fun tokens _ => ⟨value, tokens, rfl, holds tokens⟩

theorem Sound.bind {parser : Parser α} {next : α → Parser β}
    (first : Sound setting relation parser)
    (later : ∀ value, Sound setting
      (fun final middle rest => ∀ tokens, relation value tokens middle → result final tokens rest)
      (next value)) :
    Sound setting result (parser >>= next) := by
  intro tokens clean
  cases outcome : (parser setting tokens).outcome with
  | none =>
      rw [bind_of_none outcome] at clean
      obtain ⟨value, rest, reply, -⟩ := first tokens clean
      rw [reply] at outcome
      cases outcome
  | some value =>
      rw [bind_of_some value outcome] at clean ⊢
      obtain ⟨firstClean, laterClean⟩ := List.append_eq_nil_iff.mp clean
      obtain ⟨same, middle, reply, holds⟩ := first tokens firstClean
      rw [reply] at outcome laterClean ⊢
      cases outcome
      obtain ⟨final, rest, laterReply, laterHolds⟩ := later value middle laterClean
      exact ⟨final, rest, by simp only [laterReply, List.append_nil], laterHolds tokens holds⟩

theorem Sound.map {parser : Parser α} (sound : Sound setting relation parser) (convert : α → β) :
    Sound setting
      (fun final tokens rest => ∃ value, final = convert value ∧ relation value tokens rest)
      (convert <$> parser) :=
  sound.bind fun value => .pure fun _ _ related => ⟨value, rfl, related⟩

/-! ## Single tokens -/

theorem sound_failHere (problem : Problem) :
    Sound setting relation (failHere problem : Parser α) := by
  intro tokens clean
  cases clean

theorem sound_exhausted : Sound setting relation (exhausted : Parser α) :=
  sound_failHere _

theorem sound_report (site : Site) (problem : Problem) :
    Sound setting (fun _ _ _ => False) (report site problem) := by
  intro tokens clean
  cases clean

theorem sound_reportHere (problem : Problem) :
    Sound setting (fun _ _ _ => False) (reportHere problem) := by
  intro tokens clean
  cases clean

/-- A token of the given kind, and what follows it. -/
def Takes (kind : Kind) (token : Token) (tokens rest : List Token) : Prop :=
  tokens = token :: rest ∧ token.kind = kind

theorem sound_expect (kind : Kind) (what : Expectation) :
    Sound setting (Takes kind) (expect kind what) := by
  intro tokens clean
  cases tokens with
  | nil => cases clean
  | cons token rest =>
      by_cases found : token.kind = kind
      · exact ⟨token, rest, by simp [expect, found], rfl, found⟩
      · simp [expect, found] at clean

theorem sound_expectAfter (kind : Kind) (landmark : String) :
    Sound setting (Takes kind) (expectAfter kind landmark) :=
  sound_expect kind _

theorem sound_expectBefore (kind : Kind) (landmark : String) :
    Sound setting (Takes kind) (expectBefore kind landmark) :=
  sound_expect kind _

/-- A name, and what follows it. -/
def TakesName (name : Name) (tokens rest : List Token) : Prop :=
  ∃ token, tokens = token :: rest ∧ IsName token name

theorem sound_identifier (what : Expectation) :
    Sound setting TakesName (identifier what) := by
  refine (sound_expect .identifier what).bind fun token => ?_
  rcases literal : token.literal with _ | ⟨_ | _ | symbol⟩
  case some.identifier =>
    refine .pure ?_
    rintro rest tokens ⟨rfl, kind⟩
    exact ⟨token, rfl, kind, literal, rfl⟩
  all_goals
    intro tokens clean
    cases clean

/-! ## Choices by the next token -/

theorem Sound.accept {kind : Kind} {next : Option Token → Parser α}
    (inner : kind ≠ .endOfInput)
    (taken : ∀ token, token.kind = kind →
      Sound setting (fun value middle rest => relation value (token :: middle) rest)
        (next (some token)))
    (absent : Sound setting
      (fun value tokens rest => kindOf tokens ≠ kind → relation value tokens rest) (next none)) :
    Sound setting relation (accept kind >>= next) := by
  intro tokens clean
  have shape := chooses_accept kind next
  cases tokens with
  | nil =>
      rw [shape.nil] at clean ⊢
      obtain ⟨value, rest, reply, holds⟩ := absent [] clean
      exact ⟨value, rest, reply, holds (Ne.symm inner)⟩
  | cons token rest =>
      by_cases found : token.kind = kind
      · rw [shape.found setting token rest () (if_pos found)] at clean ⊢
        exact taken token found rest clean
      · rw [shape.other setting token rest (if_neg found)] at clean ⊢
        obtain ⟨value, left, reply, holds⟩ := absent (token :: rest) clean
        exact ⟨value, left, reply, holds found⟩

theorem Sound.select {γ : Type} {choose : Kind → Option γ}
    {next : Option (γ × Token) → Parser α}
    (taken : ∀ answer token, choose token.kind = some answer →
      Sound setting (fun value middle rest => relation value (token :: middle) rest)
        (next (some (answer, token))))
    (absent : Sound setting relation (next none)) :
    Sound setting relation (select choose >>= next) := by
  intro tokens clean
  have shape := chooses_select choose next
  cases tokens with
  | nil =>
      rw [shape.nil] at clean ⊢
      exact absent [] clean
  | cons token rest =>
      cases chosen : choose token.kind with
      | none =>
          rw [shape.other setting token rest chosen] at clean ⊢
          exact absent (token :: rest) clean
      | some answer =>
          rw [shape.found setting token rest answer chosen] at clean ⊢
          exact taken answer token chosen rest clean

theorem Sound.dispatch {next : Kind → Parser α}
    (ahead : ∀ kind, Sound setting
      (fun value tokens rest => kindOf tokens = kind → relation value tokens rest) (next kind)) :
    Sound setting relation (peek >>= next) := by
  intro tokens clean
  obtain ⟨value, rest, reply, holds⟩ := ahead (kindOf tokens) tokens clean
  exact ⟨value, rest, reply, holds rfl⟩

theorem Sound.taking {kind : Kind} {parser : Parser α} (inner : kind ≠ .endOfInput)
    (behind : Sound setting
      (fun value middle rest => ∀ token, token.kind = kind → relation value (token :: middle) rest)
      parser) :
    Sound setting (fun value tokens rest => kindOf tokens = kind → relation value tokens rest)
      (taking parser) := by
  intro tokens clean
  obtain ⟨value, rest, reply, holds⟩ := behind (advance tokens) clean
  refine ⟨value, rest, reply, fun isKind => ?_⟩
  cases tokens with
  | nil => exact absurd isKind.symm inner
  | cons token middle => exact holds token isKind

theorem Sound.check {kind : Kind} {here absent : Parser α}
    (soundHere : Sound setting relation here) (soundAbsent : Sound setting relation absent) :
    Sound setting relation
      (check kind >>= fun found => if found = true then here else absent) := by
  intro tokens clean
  by_cases found : kindOf tokens = kind
  · rw [bind_of_some true (by simp [Parser.check, found])] at clean ⊢
    exact soundHere tokens clean
  · rw [bind_of_some false (by simp [Parser.check, found])] at clean ⊢
    exact soundAbsent tokens clean

/-- A warning that comes first leaves no reply without reports. -/
theorem Sound.warned {warns : Prop} [Decidable warns] {warning : Parser Unit}
    {parser : Unit → Parser α} (never : Sound setting (fun _ _ _ => False) warning)
    (sound : ¬ warns → Sound setting relation (parser ())) :
    Sound setting relation (if warns then warning >>= parser else parser ()) := by
  by_cases passed : warns
  · rw [if_pos passed]
    intro tokens clean
    cases outcome : (warning setting tokens).outcome with
    | none =>
        rw [bind_of_none outcome] at clean
        obtain ⟨_, _, _, impossible⟩ := never tokens clean
        exact impossible.elim
    | some value =>
        rw [bind_of_some value outcome] at clean
        obtain ⟨_, _, _, impossible⟩ := never tokens (List.append_eq_nil_iff.mp clean).1
        exact impossible.elim
  · rw [if_neg passed]
    exact sound passed

theorem Sound.recovered {parser : Parser α} (sound : Sound setting relation parser) :
    Sound setting
      (fun value tokens rest => ∃ statement, value = some statement ∧
        relation statement tokens rest)
      (recovered parser) := by
  intro tokens clean
  have innerClean : (parser setting tokens).reports = [] := by
    cases outcome : (parser setting tokens).outcome with
    | none => rwa [recovered_of_none outcome] at clean
    | some value => rwa [recovered_of_some value outcome] at clean
  obtain ⟨value, rest, reply, holds⟩ := sound tokens innerClean
  refine ⟨some value, rest, ?_, value, rfl, holds⟩
  rw [recovered_of_some value (by rw [reply]), reply]

end Rules

/-! ## Expressions -/

/-- What the phrase of a value derives. -/
abbrev Reads {α : Type} (setting : Setting) (phrase : α → Phrase) (value : α)
    (tokens rest : List Token) : Prop :=
  Derives setting.coin (phrase value) tokens rest

section Expressions

variable {setting : Setting} {expression argument : Parser Expr}

theorem operations_sound {level : Level} {operand : Parser Expr}
    (sound : Sound setting (Reads setting level.operand) operand) (fuel : Nat) (left : Expr) :
    Sound setting
      (fun value middle rest => ∀ tokens, Reads setting (.operation level) left tokens middle →
        Reads setting (.operation level) value tokens rest)
      (operations level operand fuel left) := by
  induction fuel generalizing left with
  | zero => exact sound_exhausted
  | succ fuel inductionHypothesis =>
      refine .select (fun connective operator chosen => sound.bind fun right => ?_)
        (.pure fun rest tokens whole => whole)
      refine (inductionHypothesis (connective.join left right operator.site)).mono ?_
      intro value after rest holds middle second tokens first
      exact holds tokens (.operation first (operator_iff.mpr chosen) second)

theorem assignment_sound (sound : Sound setting (Reads setting .expression) expression)
    (target : Expr) :
    Sound setting
      (fun value middle rest => ∀ tokens,
        Reads setting (.operation .disjunction) target tokens middle →
          Reads setting .expression value tokens rest)
      (assignment expression target) := by
  have unassigned : Sound setting
      (fun value middle rest => ∀ tokens,
        Reads setting (.operation .disjunction) target tokens middle →
          Reads setting .expression value tokens rest)
      (pure target) :=
    .pure fun rest tokens whole => .plainExpression whole
  cases target with
  | «variable» name =>
      refine .select (fun compound operator chosen => sound.bind fun right => .pure ?_) unassigned
      intro rest middle value tokens first
      exact .assign first value (assigns_iff.mpr ⟨compound, chosen, rfl⟩)
  | index collection position site =>
      refine .select (fun compound operator chosen => sound.bind fun right => .pure ?_) unassigned
      intro rest middle value tokens first
      exact .indexAssign first value (assigns_iff.mpr ⟨compound, chosen, rfl⟩)
  | _ =>
      exact .select (fun compound operator chosen => sound.bind fun right =>
        (sound_report _ _).bind fun _ => .pure fun _ _ impossible => impossible.elim) unassigned

theorem arguments_sound (sound : Sound setting (Reads setting .argument) argument)
    (fuel count : Nat) :
    Sound setting
      (fun values tokens rest => Reads setting .arguments values tokens rest ∧
        count + values.length ≤ 255)
      (arguments argument fuel count) := by
  induction fuel generalizing count with
  | zero => exact sound_exhausted
  | succ fuel inductionHypothesis =>
      rw [arguments]
      refine .warned (sound_reportHere _) fun few => sound.bind fun first => ?_
      have few : count < 255 := Nat.lt_of_not_le few
      refine .accept (by decide)
          (fun comma isComma => (inductionHypothesis (count + 1)).bind fun others =>
        .pure ?_) (.pure ?_)
      · rintro rest middle ⟨tail, bound⟩ tokens head
        exact ⟨.moreArguments head isComma tail, by simp only [List.length_cons]; omega⟩
      · intro rest _ tokens last
        exact ⟨.lastArgument last, few⟩

theorem callRest_sound (sound : Sound setting (Reads setting .argument) argument) (fuel : Nat)
    (callee : Expr) :
    Sound setting
      (fun value middle rest => ∀ tokens opening, opening.kind = .leftParen →
        Reads setting .suffixed callee tokens (opening :: middle) →
          Reads setting .suffixed value tokens rest)
      (callRest fuel argument callee) := by
  have empty : Sound setting
      (fun value middle rest => ∀ tokens opening, opening.kind = .leftParen →
        Reads setting .suffixed callee tokens (opening :: middle) →
          Reads setting .suffixed value tokens rest)
      (do
        let close ← expectAfter .rightParen "arguments"
        pure (.call callee [] close.site)) := by
    refine (sound_expectAfter .rightParen _).bind fun closing => .pure ?_
    rintro rest middle ⟨rfl, closes⟩ tokens opening opens target
    exact .emptyCall target opens closes
  refine .check empty ((arguments_sound sound fuel 0).bind fun values =>
    (sound_expectAfter .rightParen _).bind fun closing => .pure ?_)
  rintro rest middle ⟨rfl, closes⟩ inside ⟨list, few⟩ tokens opening opens target
  exact .call target opens list closes (by omega)

theorem indexRest_sound (sound : Sound setting (Reads setting .expression) expression)
    (target : Expr) (opening : Token) (opens : opening.kind = .leftBracket) :
    Sound setting
      (fun value middle rest => ∀ tokens,
        Reads setting .suffixed target tokens (opening :: middle) →
          Reads setting .suffixed value tokens rest)
      (indexRest expression target opening.site) := by
  refine sound.bind fun position => (sound_expectAfter .rightBracket _).bind fun closing => .pure ?_
  rintro rest middle ⟨rfl, closes⟩ inside value tokens collection
  exact .index collection opens value closes

theorem suffixes_sound (sound : Sound setting (Reads setting .expression) expression)
    (soundArgument : Sound setting (Reads setting .argument) argument) (fuel : Nat)
    (target : Expr) :
    Sound setting
      (fun value middle rest => ∀ tokens, Reads setting .suffixed target tokens middle →
        Reads setting .suffixed value tokens rest)
      (suffixes expression argument fuel target) := by
  induction fuel generalizing target with
  | zero => exact sound_exhausted
  | succ fuel inductionHypothesis =>
      refine .accept (by decide)
        (fun opening opens => (callRest_sound soundArgument fuel target).bind fun called =>
          (inductionHypothesis called).mono ?_)
        (.accept (by decide)
          (fun opening opens => (indexRest_sound sound target opening opens).bind fun indexed =>
            (inductionHypothesis indexed).mono ?_)
          (.pure fun rest _ _ tokens whole => whole))
      · intro value after rest holds middle step tokens whole
        exact holds tokens (step tokens opening opens whole)
      · intro value after rest holds middle step _ tokens whole
        exact holds tokens (step tokens whole)

theorem elements_sound (sound : Sound setting (Reads setting .expression) expression)
    (close : Kind) (fuel : Nat) :
    Sound setting (Reads setting .elements) (elements expression close fuel) := by
  induction fuel with
  | zero => exact sound_exhausted
  | succ fuel inductionHypothesis =>
      refine .dispatch fun next => ?_
      by_cases stops : next = close ∨ next = .endOfInput
      · simp only [stops, if_true]
        exact .pure fun rest _ => .noElements
      · simp only [stops, if_false]
        refine sound.bind fun first => .accept (by decide)
          (fun comma isComma => inductionHypothesis.bind fun others => .pure ?_) (.pure ?_)
        · intro rest middle tail tokens head _
          exact .element head isComma tail
        · intro rest _ tokens last _
          exact .lastElement last

theorem groupingRest_sound (sound : Sound setting (Reads setting .expression) expression)
    (fuel : Nat) :
    Sound setting
      (fun value middle rest => ∀ opening, opening.kind = .leftParen →
        Reads setting .primary value (opening :: middle) rest)
      (groupingRest fuel expression) := by
  refine .accept (by decide)
      (fun closing closes => .pure ?_) (sound.bind fun first => .accept (by decide)
    (fun comma isComma => (elements_sound sound .rightParen fuel).bind fun others =>
      (sound_expectAfter .rightParen _).bind fun closing => .pure ?_)
    ((sound_expectAfter .rightParen _).bind fun closing => .pure ?_))
  · intro rest opening opens
    exact .unit opens closes
  · rintro rest middle ⟨rfl, closes⟩ inside tail tokens head _ opening opens
    exact .tuple opens head isComma tail closes
  · rintro rest middle ⟨rfl, closes⟩ _ tokens value _ opening opens
    exact .grouping opens value closes

theorem arrayRest_sound (sound : Sound setting (Reads setting .expression) expression)
    (fuel : Nat) :
    Sound setting
      (fun value middle rest => ∀ opening, opening.kind = .leftBracket →
        Reads setting .primary value (opening :: middle) rest)
      (arrayRest fuel expression) := by
  refine (elements_sound sound .rightBracket fuel).bind fun values =>
    (sound_expectAfter .rightBracket _).bind fun closing => .pure ?_
  rintro rest middle ⟨rfl, closes⟩ tokens inside opening opens
  exact .array opens inside closes

/-- The characters of template tokens, one after the other. -/
def joinedText : List Token → String
  | [] => ""
  | token :: rest => carriedText token ++ joinedText rest

theorem foldl_eq_joinedText (append : String → Token → String)
    (appends : ∀ text token, append text token = text ++ carriedText token) (texts : List Token)
    (start : String) : texts.foldl append start = start ++ joinedText texts := by
  induction texts generalizing start with
  | nil => simp [joinedText]
  | cons token texts inductionHypothesis =>
      rw [List.foldl_cons, inductionHypothesis, appends, joinedText, String.append_assoc]

theorem templateText_eq (setting : Setting) (tokens : List Token) :
    templateText setting tokens =
      ⟨some (joinedText (tokens.takeWhile (·.kind = .templateText))),
        tokens.dropWhile (·.kind = .templateText), []⟩ := by
  unfold templateText
  simp only []
  rw [foldl_eq_joinedText, String.empty_append]
  intro text token
  rcases literal : token.literal with _ | ⟨_ | value | _⟩ <;> simp [carriedText, literal]

theorem templateText_cons (setting : Setting) {token : Token} (rest : List Token)
    (kind : token.kind = .templateText) :
    templateText setting (token :: rest) =
      ⟨(templateText setting rest).outcome.map (carriedText token ++ ·),
        (templateText setting rest).rest, []⟩ := by
  rw [templateText_eq, templateText_eq]
  simp [kind, joinedText]

theorem templateText_other (setting : Setting) {tokens : List Token}
    (kind : kindOf tokens ≠ .templateText) : templateText setting tokens = ⟨some "", tokens, []⟩ := by
  cases tokens with
  | nil => rfl
  | cons token rest =>
      have differs : ¬ token.kind = .templateText := kind
      simp [templateText, differs]

theorem templateText_sound : Sound setting (Reads setting .texts) templateText := by
  intro tokens clean
  induction tokens with
  | nil => exact ⟨"", [], rfl, .noTexts⟩
  | cons token rest inductionHypothesis =>
      by_cases kind : token.kind = .templateText
      · obtain ⟨text, left, reply, tail⟩ := inductionHypothesis rfl
        refine ⟨carriedText token ++ text, left, ?_, .text kind tail⟩
        rw [templateText_cons setting rest kind, reply]
        rfl
      · exact ⟨"", token :: rest, templateText_other setting kind, .noTexts⟩

theorem templateParts_sound (sound : Sound setting (Reads setting .expression) expression)
    (fuel : Nat) : Sound setting (Reads setting .parts) (templateParts expression fuel) := by
  induction fuel with
  | zero => exact sound_exhausted
  | succ fuel inductionHypothesis =>
      refine templateText_sound.bind fun text => .accept (by decide)
        (fun opening opens => sound.bind fun value =>
          (sound_expectAfter .rightBrace _).bind fun closing =>
            inductionHypothesis.bind fun others => .pure ?_)
        ((sound_expectAfter .backtick _).bind fun closing => .pure ?_)
      · rintro rest after tail others ⟨rfl, closes⟩ inside inner tokens texts
        exact .shown texts opens inner closes tail
      · rintro rest middle ⟨rfl, closes⟩ _ tokens texts
        exact .lastText texts closes

theorem numberLiteral_sound :
    Sound setting
      (fun value tokens rest => kindOf tokens = .number → Reads setting .primary value tokens rest)
      numberLiteral := by
  rintro (_ | ⟨⟨kind, lexeme, literal, line⟩, rest⟩) clean
  · cases clean
  · rcases literal with _ | ⟨value | _ | _⟩
    case some.number => exact ⟨_, rest, rfl, fun isNumber => .number isNumber rfl⟩
    all_goals cases clean

theorem stringLiteral_sound :
    Sound setting
      (fun value tokens rest => kindOf tokens = .string → Reads setting .primary value tokens rest)
      stringLiteral := by
  rintro (_ | ⟨⟨kind, lexeme, literal, line⟩, rest⟩) clean
  · cases clean
  · rcases literal with _ | ⟨_ | value | _⟩
    case some.text => exact ⟨_, rest, rfl, fun isString => .string isString rfl⟩
    all_goals cases clean

theorem maybe_sound :
    Sound setting
      (fun value tokens rest => kindOf tokens = .maybeWord →
        Reads setting .primary value tokens rest)
      (do
        let side ← toss
        taking (pure (.constant (.bool side)))) := by
  intro tokens _
  refine ⟨_, advance tokens, rfl, fun isMaybe => ?_⟩
  cases tokens with
  | nil => cases isMaybe
  | cons token rest => exact .maybeLiteral isMaybe

theorem primaryRule_sound (sound : Sound setting (Reads setting .expression) expression)
    (fuel : Nat) : Sound setting (Reads setting .primary) (primaryRule fuel expression) := by
  refine .dispatch fun kind => ?_
  cases kind with
  | trueWord => exact .taking (by decide) (.pure fun rest token isTrue => .trueLiteral isTrue)
  | falseWord => exact .taking (by decide) (.pure fun rest token isFalse => .falseLiteral isFalse)
  | nilWord => exact .taking (by decide) (.pure fun rest token isNil => .nilLiteral isNil)
  | maybeWord => exact maybe_sound
  | number => exact numberLiteral_sound
  | string => exact stringLiteral_sound
  | identifier =>
      refine (sound_identifier _).bind fun name => .pure ?_
      rintro rest tokens ⟨token, rfl, isName⟩ _
      exact .name isName
  | leftParen => exact .taking (by decide) (groupingRest_sound sound fuel)
  | leftBracket => exact .taking (by decide) (arrayRest_sound sound fuel)
  | backtick =>
      exact .taking (by decide) ((templateParts_sound sound fuel).bind fun parts =>
        .pure fun rest tokens inside opening opens => .template opens inside)
  | _ => exact sound_failHere _

end Expressions

/-! ## Declarations and bodies -/

/-- What a statement derives. If it is dangling, no `else` follows. -/
def ReadsStatement (setting : Setting) (statement : Stmt) (tokens rest : List Token) : Prop :=
  ∃ dangling, Derives setting.coin (.statement dangling statement) tokens rest ∧
    (dangling = true → kindOf rest ≠ .elseWord)

theorem readsStatement_of_closed {setting : Setting} {statement : Stmt} {tokens rest : List Token}
    (derives : Derives setting.coin (.statement false statement) tokens rest) :
    ReadsStatement setting statement tokens rest :=
  ⟨false, derives, fun impossible => nomatch impossible⟩

section Statements

variable {setting : Setting} {expression : Parser Expr} {statement declaration : Parser Stmt}
  {body : Parser (List Stmt)}

theorem varRest_sound (sound : Sound setting (Reads setting .expression) expression) :
    Sound setting (Reads setting .binding) (varRest expression) := by
  refine (sound_identifier _).bind fun name => .accept (by decide)
    (fun equal isEqual => (sound.map some).bind fun initial =>
      (sound_expectAfter .semicolon _).bind fun semicolon => .pure ?_)
    ?_
  · rintro rest middle ⟨rfl, ends⟩ tokens ⟨value, rfl, inner⟩ whole ⟨token, rfl, isName⟩
    exact .bound isName isEqual inner ends
  · refine (sound_expectAfter .semicolon _).bind fun semicolon => .pure ?_
    rintro rest middle ⟨rfl, ends⟩ _ whole ⟨token, rfl, isName⟩
    exact .unbound isName ends

theorem constRest_sound (sound : Sound setting (Reads setting .expression) expression) :
    Sound setting
      (fun result middle rest => ∀ keyword, keyword.kind = .constWord →
        Reads setting .declaration result (keyword :: middle) rest)
      (constRest expression) := by
  refine (sound_identifier _).bind fun name => (sound_expectAfter .equal _).bind fun equal =>
    sound.bind fun value => (sound_expectAfter .semicolon _).bind fun semicolon => .pure ?_
  rintro rest _ ⟨rfl, ends⟩ tokens initial _ ⟨rfl, isEqual⟩ _ ⟨token, rfl, isName⟩ keyword isConst
  exact .const isConst isName isEqual initial ends

theorem parameters_sound (fuel count : Nat) :
    Sound setting
      (fun names tokens rest => Reads setting .parameters names tokens rest ∧
        count + names.length ≤ 255)
      (parameters fuel count) := by
  induction fuel generalizing count with
  | zero => exact sound_exhausted
  | succ fuel inductionHypothesis =>
      rw [parameters]
      refine .warned (sound_reportHere _) fun few => (sound_identifier _).bind fun first => ?_
      have few : count < 255 := Nat.lt_of_not_le few
      refine .accept (by decide)
          (fun comma isComma => (inductionHypothesis (count + 1)).bind fun others =>
        .pure ?_) (.pure ?_)
      · rintro rest middle ⟨tail, bound⟩ _ ⟨token, rfl, isName⟩
        exact ⟨.moreParameters isName isComma tail, by simp only [List.length_cons]; omega⟩
      · rintro rest _ _ ⟨token, rfl, isName⟩
        exact ⟨.lastParameter isName, few⟩

theorem functionRest_sound (sound : Sound setting (Reads setting .body) body) (fuel : Nat) :
    Sound setting
      (fun result tokens rest =>
        Derives setting.coin (.function result.1 result.2) tokens rest)
      (functionRest fuel body) := by
  refine .check ?_ ((parameters_sound fuel 0).bind fun names =>
    (sound_expectAfter .rightParen _).bind fun closing =>
      (sound_expectBefore .leftBrace _).bind fun opening => sound.bind fun statements => .pure ?_)
  · refine (sound_expectAfter .rightParen _).bind fun closing =>
      (sound_expectBefore .leftBrace _).bind fun opening => sound.bind fun statements => .pure ?_
    rintro rest inside inner _ ⟨rfl, opens⟩ _ ⟨rfl, closes⟩
    exact .nullary closes opens inner
  · rintro rest inside inner _ ⟨rfl, opens⟩ _ ⟨rfl, closes⟩ tokens ⟨list, few⟩
    have few : names.length ≤ 255 := by omega
    exact .function list few closes opens inner

theorem functionDeclaration_sound (sound : Sound setting (Reads setting .body) body)
    (fuel : Nat) :
    Sound setting
      (fun result middle rest => ∀ keyword, keyword.kind = .funWord →
        Reads setting .declaration result (keyword :: middle) rest)
      (functionDeclaration fuel body) := by
  refine (sound_identifier _).bind fun name => (sound_expectAfter .leftParen _).bind fun opening =>
    (functionRest_sound sound fuel).bind fun function => .pure ?_
  rintro rest inside inner _ ⟨rfl, opens⟩ _ ⟨token, rfl, isName⟩ keyword isFun
  exact .functionDeclaration isFun isName opens inner

theorem argumentRule_sound (sound : Sound setting (Reads setting .expression) expression)
    (soundBody : Sound setting (Reads setting .body) body) (fuel : Nat) :
    Sound setting (Reads setting .argument) (argumentRule fuel expression body) := by
  refine .accept (by decide)
    (fun keyword isFun => (sound_expectAfter .leftParen _).bind fun opening =>
      (functionRest_sound soundBody fuel).bind fun function => .pure ?_)
    (sound.mono fun value tokens rest inner _ => .plainArgument inner)
  rintro rest inside inner _ ⟨rfl, opens⟩
  exact .lambda isFun opens inner

theorem bodyStatement_sound (sound : Sound setting (Reads setting .declaration) declaration) :
    Sound setting (Reads setting .item) (bodyStatement declaration) := by
  refine .accept (by decide)
    (fun keyword isBreak => (sound_expectAfter .semicolon _).bind fun semicolon => .pure ?_)
    (.accept (by decide)
      (fun keyword isContinue => (sound_expectAfter .semicolon _).bind fun semicolon => .pure ?_)
      (sound.mono fun value tokens rest inner _ _ => .item inner))
  · rintro rest _ ⟨rfl, ends⟩
    exact .leave isBreak ends
  · rintro rest _ ⟨rfl, ends⟩ _
    exact .next isContinue ends

theorem bodyRest_sound (sound : Sound setting (Reads setting .declaration) declaration)
    (fuel : Nat) : Sound setting (Reads setting .body) (bodyRest declaration fuel) := by
  induction fuel with
  | zero => exact sound_exhausted
  | succ fuel inductionHypothesis =>
      refine .dispatch fun next => ?_
      by_cases stops : next = .rightBrace ∨ next = .endOfInput
      · simp only [stops, if_true]
        refine (sound_expectAfter .rightBrace _).bind fun closing => .pure ?_
        rintro rest _ ⟨rfl, closes⟩ _
        exact .endOfBody closes
      · simp only [stops, if_false]
        refine (bodyStatement_sound sound).recovered.bind fun first =>
          inductionHypothesis.bind fun others => .pure ?_
        rintro rest middle tail tokens ⟨statement, rfl, head⟩ _
        exact .body head tail

/-! ## Statements -/

theorem printRest_sound (sound : Sound setting (Reads setting .expression) expression) :
    Sound setting
      (fun result middle rest => ∀ keyword, keyword.kind = .printWord →
        ReadsStatement setting result (keyword :: middle) rest)
      (printRest expression) := by
  refine sound.bind fun value => (sound_expectAfter .semicolon _).bind fun semicolon => .pure ?_
  rintro rest _ ⟨rfl, ends⟩ tokens inner keyword isPrint
  exact readsStatement_of_closed (.print isPrint inner ends)

/-- An `else` that is taken follows no dangling statement. -/
theorem ifRest_sound (sound : Sound setting (Reads setting .expression) expression)
    (soundStatement : Sound setting (ReadsStatement setting) statement) :
    Sound setting
      (fun result middle rest => ∀ keyword, keyword.kind = .ifWord →
        ReadsStatement setting result (keyword :: middle) rest)
      (ifRest expression statement) := by
  refine (sound_expectAfter .leftParen _).bind fun opening => sound.bind fun condition =>
    (sound_expectAfter .rightParen _).bind fun closing => soundStatement.bind fun consequent =>
      .accept (by decide)
          (fun word isElse => soundStatement.bind fun alternative => .pure ?_) (.pure ?_)
  · rintro rest more ⟨dangling, last, unclaimed⟩ others ⟨innerDangling, inner, innerUnclaimed⟩ _
      ⟨rfl, closes⟩ tokens test _ ⟨rfl, opens⟩ keyword isIf
    cases innerDangling with
    | false => exact ⟨dangling, .ifElse isIf opens test closes inner isElse last, unclaimed⟩
    | true => exact absurd isElse (innerUnclaimed rfl)
  · rintro rest notElse others ⟨innerDangling, inner, -⟩ _ ⟨rfl, closes⟩ tokens test _ ⟨rfl, opens⟩
      keyword isIf
    exact ⟨true, .onlyIf isIf opens test closes inner, fun _ => notElse⟩

theorem whileRest_sound (sound : Sound setting (Reads setting .expression) expression)
    (soundStatement : Sound setting (ReadsStatement setting) statement) :
    Sound setting
      (fun result middle rest => ∀ keyword, keyword.kind = .whileWord →
        ReadsStatement setting result (keyword :: middle) rest)
      (whileRest expression statement) := by
  refine (sound_expectAfter .leftParen _).bind fun opening => sound.bind fun condition =>
    (sound_expectAfter .rightParen _).bind fun closing => soundStatement.bind fun inner => .pure ?_
  rintro rest others ⟨dangling, inner, unclaimed⟩ _ ⟨rfl, closes⟩ tokens test _ ⟨rfl, opens⟩ keyword
    isWhile
  exact ⟨dangling, .whileLoop isWhile opens test closes inner, unclaimed⟩

theorem forInitial_sound (sound : Sound setting (Reads setting .expression) expression) :
    Sound setting (Reads setting .initial) (forInitial expression) := by
  refine .accept (by decide)
      (fun semicolon ends => .pure fun rest => .noInitial ends) (.accept (by decide)
    (fun keyword isVar => ((varRest_sound sound).map some).mono ?_)
    (sound.bind fun value => (sound_expectAfter .semicolon _).bind fun semicolon => .pure ?_))
  · rintro result middle rest ⟨binding, rfl, inner⟩ _
    exact .initialVar isVar inner
  · rintro rest _ ⟨rfl, ends⟩ tokens inner _ _
    exact .initialExpression inner ends

theorem optional_sound (sound : Sound setting (Reads setting .expression) expression)
    (close : Kind) : Sound setting (Reads setting .clause) (optional expression close) := by
  refine .check (.pure fun rest => .noClause) ((sound.map some).mono ?_)
  rintro result tokens rest ⟨value, rfl, inner⟩
  exact .clause inner

theorem forRest_sound (sound : Sound setting (Reads setting .expression) expression)
    (soundStatement : Sound setting (ReadsStatement setting) statement) :
    Sound setting
      (fun result middle rest => ∀ keyword, keyword.kind = .forWord →
        ReadsStatement setting result (keyword :: middle) rest)
      (forRest expression statement) := by
  refine (sound_expectAfter .leftParen _).bind fun opening =>
    (forInitial_sound sound).bind fun initial =>
      (optional_sound sound .semicolon).bind fun condition =>
        (sound_expectAfter .semicolon _).bind fun semicolon =>
          (optional_sound sound .rightParen).bind fun increment =>
            (sound_expectAfter .rightParen _).bind fun closing =>
              soundStatement.bind fun inner => .pure ?_
  rintro rest others ⟨dangling, inner, unclaimed⟩ _ ⟨rfl, closes⟩ increments step _ ⟨rfl, ends⟩
    conditions test tokens start _ ⟨rfl, opens⟩ keyword isFor
  exact ⟨dangling, .forLoop isFor opens start test ends step closes inner, unclaimed⟩

/-- The cases of a `switch`, of which one more may have no label unless one has
come before. -/
theorem cases_sound (sound : Sound setting (Reads setting .expression) expression)
    (soundBody : Sound setting (Reads setting .body) body) (fuel : Nat) (hasFallback : Bool) :
    Sound setting
      (fun all tokens rest => Reads setting .cases all tokens rest ∧
        hasFallback.toNat + (all.filterMap Case.fallback?).length ≤ 1)
      (cases expression body fuel hasFallback) := by
  induction fuel generalizing hasFallback with
  | zero => exact sound_exhausted
  | succ fuel inductionHypothesis =>
      rw [cases]
      refine .accept (by decide)
        (fun keyword isCase => sound.bind fun label => (sound_expectAfter .colon _).bind fun colon =>
          (sound_expectBefore .leftBrace _).bind fun opening => soundBody.bind fun statements =>
            (inductionHypothesis hasFallback).bind fun others => .pure ?_)
        (.accept (by decide)
          (fun keyword isDefault => .warned (sound_report _ _) fun first =>
            (sound_expectAfter .colon _).bind fun colon =>
              (sound_expectBefore .leftBrace _).bind fun opening =>
                soundBody.bind fun statements =>
                  (inductionHypothesis true).bind fun others => .pure ?_)
          (.pure ?_))
      · rintro rest more ⟨tail, bound⟩ inside inner _ ⟨rfl, opens⟩ _ ⟨rfl, isColon⟩ tokens value
        exact ⟨.labelled isCase value isColon opens inner tail, bound⟩
      · rintro rest more ⟨tail, bound⟩ inside inner _ ⟨rfl, opens⟩ _ ⟨rfl, isColon⟩ _
        have none : hasFallback = false := by simpa using first
        refine ⟨.fallback isDefault isColon opens inner tail, ?_⟩
        simp only [none, Bool.toNat_false, List.filterMap_cons, Case.fallback?, List.length_cons]
        simp only [Bool.toNat_true] at bound
        omega
      · intro rest _ _
        exact ⟨.noCases, by cases hasFallback <;> decide⟩

theorem switchRest_sound (sound : Sound setting (Reads setting .expression) expression)
    (soundBody : Sound setting (Reads setting .body) body) (fuel : Nat) :
    Sound setting
      (fun result middle rest => ∀ keyword, keyword.kind = .switchWord →
        ReadsStatement setting result (keyword :: middle) rest)
      (switchRest fuel expression body) := by
  refine sound.bind fun rule => (sound_expectAfter .colon _).bind fun colon =>
    (cases_sound sound soundBody fuel false).bind fun all => .pure ?_
  rintro rest others ⟨inner, oneDefault⟩ _ ⟨rfl, isColon⟩ tokens chosen keyword isSwitch
  refine readsStatement_of_closed (.switch isSwitch chosen isColon inner ?_)
  simpa using oneDefault

/-- Values that follow another one. -/
def ReadsFurther (setting : Setting) (values : List Expr) (tokens rest : List Token) : Prop :=
  values = [] ∧ tokens = rest ∨
    ∃ comma others, tokens = comma :: others ∧ comma.kind = .comma ∧
      Reads setting .values values others rest

theorem ReadsFurther.values {first : Expr} {others : List Expr} {tokens middle rest : List Token}
    (further : ReadsFurther setting others middle rest)
    (value : Reads setting .expression first tokens middle) :
    Reads setting .values (first :: others) tokens rest := by
  rcases further with ⟨rfl, rfl⟩ | ⟨comma, inside, rfl, isComma, tail⟩
  · exact .lastValue value
  · exact .moreValues value isComma tail

theorem furtherValues_sound (sound : Sound setting (Reads setting .expression) expression)
    (fuel : Nat) : Sound setting (ReadsFurther setting) (furtherValues expression fuel) := by
  induction fuel with
  | zero => exact sound_exhausted
  | succ fuel inductionHypothesis =>
      refine .accept (by decide)
        (fun comma isComma => sound.bind fun first => inductionHypothesis.bind fun others =>
          .pure ?_)
        (.pure fun rest _ => Or.inl ⟨rfl, rfl⟩)
      intro rest middle further tokens value
      exact Or.inr ⟨comma, tokens, rfl, isComma, further.values value⟩

theorem returnRest_sound (sound : Sound setting (Reads setting .expression) expression)
    (fuel : Nat) :
    Sound setting
      (fun result middle rest => ∀ keyword, keyword.kind = .returnWord →
        ReadsStatement setting result (keyword :: middle) rest)
      (returnRest fuel expression) := by
  refine .accept (by decide) (fun semicolon ends => .pure ?_) (sound.bind fun first =>
    (furtherValues_sound sound fuel).bind fun others =>
      (sound_expectAfter .semicolon _).bind fun semicolon => .pure ?_)
  · intro rest keyword isReturn
    exact readsStatement_of_closed (.returnNothing isReturn ends)
  · rintro rest _ ⟨rfl, ends⟩ middle further tokens value _ keyword isReturn
    have list := further.values value
    cases others with
    | nil => exact readsStatement_of_closed (.returnOne isReturn list ends)
    | cons second others =>
        exact readsStatement_of_closed (.returnSeveral isReturn list (by simp) ends)

theorem statementRule_sound (sound : Sound setting (Reads setting .expression) expression)
    (soundStatement : Sound setting (ReadsStatement setting) statement)
    (soundBody : Sound setting (Reads setting .body) body) (fuel : Nat) :
    Sound setting (ReadsStatement setting) (statementRule fuel expression statement body) := by
  have value : Sound setting (ReadsStatement setting) (expressionStatement expression) := by
    refine sound.bind fun value => (sound_expectAfter .semicolon _).bind fun semicolon => .pure ?_
    rintro rest _ ⟨rfl, ends⟩ tokens inner
    exact readsStatement_of_closed (.expression inner ends)
  refine .dispatch fun kind => ?_
  cases kind with
  | printWord => exact .taking (by decide) (printRest_sound sound)
  | leftBrace =>
      refine .taking (by decide) ((soundBody.map Stmt.block).mono ?_)
      rintro result middle rest ⟨statements, rfl, inner⟩ opening opens
      exact readsStatement_of_closed (.block opens inner)
  | ifWord => exact .taking (by decide) (ifRest_sound sound soundStatement)
  | forWord => exact .taking (by decide) (forRest_sound sound soundStatement)
  | whileWord => exact .taking (by decide) (whileRest_sound sound soundStatement)
  | switchWord => exact .taking (by decide) (switchRest_sound sound soundBody fuel)
  | returnWord => exact .taking (by decide) (returnRest_sound sound fuel)
  | _ => exact value.mono fun _ _ _ derives _ => derives

theorem declarationRule_sound (sound : Sound setting (Reads setting .expression) expression)
    (soundStatement : Sound setting (ReadsStatement setting) statement)
    (soundBody : Sound setting (Reads setting .body) body) (fuel : Nat) :
    Sound setting (Reads setting .declaration) (declarationRule fuel expression statement body) := by
  refine .dispatch fun kind => ?_
  cases kind with
  | funWord => exact .taking (by decide) (functionDeclaration_sound soundBody fuel)
  | varWord =>
      exact .taking (by decide)
          ((varRest_sound sound).mono fun _ _ _ inner keyword isVar => .var isVar inner)
  | constWord => exact .taking (by decide) (constRest_sound sound)
  | _ =>
      refine soundStatement.mono ?_
      rintro result tokens rest ⟨dangling, inner, -⟩ _
      exact .plainStatement inner

end Statements

/-! ## The grammar tied together -/

structure GrammarSound (setting : Setting) (depth : Nat) : Prop where
  suffixed : Sound setting (Reads setting .suffixed) (suffixed depth)
  unary : Sound setting (Reads setting .unary) (unary depth)
  operation : ∀ level, Sound setting (Reads setting (.operation level)) (operation depth level)
  expression : Sound setting (Reads setting .expression) (expression depth)
  argument : Sound setting (Reads setting .argument) (argument depth)
  body : Sound setting (Reads setting .body) (body depth)
  statement : Sound setting (ReadsStatement setting) (statement depth)
  declaration : Sound setting (Reads setting .declaration) (declaration depth)

theorem operation_sound {setting : Setting} {depth : Nat} (level : Level) {operand : Parser Expr}
    (sound : Sound setting (Reads setting level.operand) operand) :
    Sound setting (Reads setting (.operation level))
      (operand >>= operations level operand depth) :=
  sound.bind fun first => (operations_sound sound depth first).mono
    fun _ _ _ holds tokens inner => holds tokens (.operand inner)

theorem GrammarSound.operation_succ {setting : Setting} {depth : Nat}
    (shallower : GrammarSound setting depth) (level : Level) :
    Sound setting (Reads setting (.operation level)) (Grammar.operation (depth + 1) level) := by
  cases level with
  | disjunction => exact operation_sound .disjunction (shallower.operation .conjunction)
  | conjunction => exact operation_sound .conjunction (shallower.operation .equality)
  | equality => exact operation_sound .equality (shallower.operation .comparison)
  | comparison => exact operation_sound .comparison (shallower.operation .term)
  | term => exact operation_sound .term (shallower.operation .factor)
  | factor => exact operation_sound .factor shallower.unary

theorem GrammarSound.unary_succ {setting : Setting} {depth : Nat}
    (shallower : GrammarSound setting depth) :
    Sound setting (Reads setting .unary) (Grammar.unary (depth + 1)) := by
  refine .select (fun op sign chosen => shallower.unary.bind fun operand => .pure ?_)
    (shallower.suffixed.mono fun _ _ _ inner => .suffixed inner)
  intro rest tokens operand
  exact .signed (sign_iff.mpr chosen) operand

theorem grammar_sound (setting : Setting) (depth : Nat) : GrammarSound setting depth := by
  induction depth with
  | zero =>
      exact {
        suffixed := sound_exhausted
        unary := sound_exhausted
        operation := fun _ => sound_exhausted
        expression := sound_exhausted
        argument := sound_exhausted
        body := sound_exhausted
        statement := sound_exhausted
        declaration := sound_exhausted }
  | succ depth inductionHypothesis =>
      have sound := inductionHypothesis.expression
      exact {
        suffixed := (primaryRule_sound sound depth).bind fun target =>
          (suffixes_sound sound inductionHypothesis.argument depth target).mono
            fun _ _ _ holds tokens inner => holds tokens (.primary inner)
        unary := inductionHypothesis.unary_succ
        operation := inductionHypothesis.operation_succ
        expression := (inductionHypothesis.operation .disjunction).bind (assignment_sound sound)
        argument := argumentRule_sound sound inductionHypothesis.body depth
        body := bodyRest_sound inductionHypothesis.declaration depth
        statement := statementRule_sound sound inductionHypothesis.statement
          inductionHypothesis.body depth
        declaration := declarationRule_sound sound inductionHypothesis.statement
          inductionHypothesis.body depth }

end Scriptlet.Grammar
