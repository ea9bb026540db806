import Scriptlet.Proofs.Lexical.Lines

/-!
Contract: a source text accounted for, character by character and line by line.

`Layout before layers ahead parts final` says that the text `ahead`, which comes
after `before` and inside `layers`, is made of `parts`, and leaves the layers
`final` open. A part is a token or a gap. What a token of each kind may be, and
what may stand between tokens, is said on the text alone.

Owns: the classes of texts (`Word`, `Numeral`, `Punctuation`), `Longest`,
`Lexeme`, `Gap`, `Layout`, and the main statement `scan_accounts_for_source`.

Does not own: how layers open and close (`Nesting.after`), and the symbols and
values that tokens carry.
-/

set_option autoImplicit false

namespace Scriptlet

/-! ## Classes of texts -/

/-- A name or reserved word. -/
def Word (text : List Char) : Prop :=
  ∃ c more, text = c :: more ∧ startsWord c ∧ ∀ d ∈ more, continuesWord d

/-- Digits, or digits on both sides of a point. -/
inductive Numeral : List Char → Prop where
  | whole {digits : List Char} (some : digits ≠ []) (all : ∀ c ∈ digits, c.isDigit) :
      Numeral digits
  | point {whole fraction : List Char} (some : whole ≠ []) (all : ∀ c ∈ whole, c.isDigit)
      (others : fraction ≠ []) (allOthers : ∀ c ∈ fraction, c.isDigit) :
      Numeral (whole ++ '.' :: fraction)

/-- A mark, or what opens a comment. -/
inductive Punctuation : List Char → Prop where
  | mark {kind : Kind} (spelled : kind.spelling ≠ "") : Punctuation kind.spelling.toList
  | comment : Punctuation ['/', '/']

/-- A text of a class that no part of what follows could be added to. -/
def Longest (inClass : List Char → Prop) (text rest : List Char) : Prop :=
  inClass text ∧ ∀ more, more <+: rest → inClass (text ++ more) → more = []

/-- A string in quotes, its `inside` between two of the same. -/
def Quoted (quote : Char) (inside text : List Char) : Prop :=
  text = quote :: inside ++ [quote] ∧ quote ∉ inside

/-! ## Tokens -/

/-- What a token of a kind is in code before `rest`. A string in double quotes
does not go on over a newline. -/
inductive CodeLexeme : Kind → List Char → List Char → Prop where
  | mark {kind : Kind} {rest : List Char}
      (longest : Longest Punctuation kind.spelling.toList rest) :
      CodeLexeme kind kind.spelling.toList rest
  | name {text rest : List Char} (longest : Longest Word text rest) :
      CodeLexeme .identifier text rest
  | reserved {word : String} {kind : Kind} {text rest : List Char}
      (known : (word, kind) ∈ Kind.reservedWords) (longest : Longest Word text rest) :
      CodeLexeme kind text rest
  | number {text rest : List Char} (longest : Longest Numeral text rest) :
      CodeLexeme .number text rest
  | doubleQuoted {inside text rest : List Char} (quoted : Quoted '\x22' inside text)
      (oneLine : '\n' ∉ inside) : CodeLexeme .string text rest
  | singleQuoted {inside text rest : List Char} (quoted : Quoted '\x27' inside text) :
      CodeLexeme .string text rest

/-- What a token of a kind is in a template before `rest`: what ends the template
or interrupts it, or else one character, which a backslash may precede. -/
inductive TemplateLexeme : Kind → List Char → List Char → Prop where
  | backtick {rest : List Char} : TemplateLexeme .backtick ['\x60'] rest
  | dollarBrace {rest : List Char} : TemplateLexeme .dollarBrace ['$', '\x7b'] rest
  | escaped {c : Char} {rest : List Char} : TemplateLexeme .templateText ['\\', c] rest
  | plain {c : Char} {rest : List Char} (noTick : c ≠ '\x60')
      (noBrace : c = '$' → rest.head? ≠ some '\x7b') (noEscape : c = '\\' → rest = []) :
      TemplateLexeme .templateText [c] rest

/-- Whether text inside these layers belongs to a template. Elsewhere it is code. -/
def Nesting.InTemplate (layers : Nesting) : Prop :=
  layers.head? = some .template

/-- What a token of a kind is inside the given layers. -/
def Lexeme (layers : Nesting) (kind : Kind) (text rest : List Char) : Prop :=
  layers.InTemplate ∧ TemplateLexeme kind text rest ∨
    ¬ layers.InTemplate ∧ CodeLexeme kind text rest

/-! ## Gaps -/

/-- The line ends here, or the text does. -/
def EndsLine (rest : List Char) : Prop :=
  rest = [] ∨ rest.head? = some '\n'

/-- A character that nothing in code begins with. A dollar sign means something
only in a template. -/
structure Unexpected (c : Char) : Prop where
  noBlank : c ≠ ' ' ∧ c ≠ '\r' ∧ c ≠ '\t' ∧ c ≠ '\n'
  noQuote : c ≠ '\x22' ∧ c ≠ '\x27'
  noWord : startsWord c = false
  noDigit : c.isDigit = false
  noMark : ∀ kind : Kind, kind ≠ .dollarBrace → kind.spelling.toList.head? ≠ some c

/-- What may stand in code between tokens, and before `rest`, with the problem it
is, if it is one. -/
inductive Gap : List Char → List Char → Option Problem → Prop where
  | blank {c : Char} {rest : List Char} (isBlank : c ∈ [' ', '\r', '\t', '\n']) :
      Gap [c] rest none
  | comment {inside rest : List Char} (oneLine : '\n' ∉ inside) (ends : EndsLine rest) :
      Gap ('/' :: '/' :: inside) rest none
  | unexpected {c : Char} {rest : List Char} (isUnexpected : Unexpected c) :
      Gap [c] rest (some (.unexpectedCharacter c))
  | openLine {inside rest : List Char} (noQuote : '\x22' ∉ inside) (oneLine : '\n' ∉ inside)
      (ends : EndsLine rest) : Gap ('\x22' :: inside) rest (some .unterminatedString)
  | openText {inside : List Char} (noQuote : '\x27' ∉ inside) :
      Gap ('\x27' :: inside) [] (some .unterminatedString)

/-! ## Layouts -/

/-- A token, or text that is none with what is reported of it. -/
inductive Part where
  | token (token : Token)
  | gap (text : List Char) (report : Option Diagnostic)

namespace Part

def token? : Part → Option Token
  | .token read => some read
  | .gap _ _ => none

def report? : Part → Option Diagnostic
  | .token _ => none
  | .gap _ report => report

end Part

/-- The line on which a text ends, when it stands at the beginning. -/
def lastLine (text : List Char) : Nat :=
  1 + newlines text

/-- A problem reported on the line on which the text up to it ends. -/
def reportAt (text : List Char) (problem : Problem) : Diagnostic :=
  ⟨⟨lastLine text, .unknown⟩, problem⟩

/-- The text `ahead`, after `before` and inside `layers`, is made of the parts and
leaves the layers `final` open. -/
inductive Layout : List Char → Nesting → List Char → List Part → Nesting → Prop where
  | done {before : List Char} {layers : Nesting} : Layout before layers [] [] layers
  | token {before rest : List Char} {layers final : Nesting} {token : Token} {parts : List Part}
      (lexeme : Lexeme layers token.kind token.lexeme.toList rest)
      (line : token.line = lastLine (before ++ token.lexeme.toList))
      (later : Layout (before ++ token.lexeme.toList) (layers.after (.mark token.kind)) rest parts
        final) :
      Layout before layers (token.lexeme.toList ++ rest) (.token token :: parts) final
  | gap {before text rest : List Char} {layers final : Nesting} {problem : Option Problem}
      {parts : List Part} (inCode : ¬ layers.InTemplate) (gap : Gap text rest problem)
      (later : Layout (before ++ text) layers rest parts final) :
      Layout before layers (text ++ rest)
        (.gap text (problem.map (reportAt (before ++ text))) :: parts) final

/-! ## One piece

Each way of cutting a piece, against the class of its text. -/

section Runs

variable (inside : Char → Bool) (rest : List Char)

theorem takeWhile_all : ∀ c ∈ rest.takeWhile inside, inside c = true :=
  List.all_eq_true.mp List.all_takeWhile

/-- What follows a run of characters, if anything does, begins with another one. -/
theorem dropWhile_stops : ∀ c, (rest.dropWhile inside).head? = some c → inside c = false := by
  intro c first
  have stops := List.head?_dropWhile_not inside rest
  rw [first] at stops
  simpa using stops

variable {inside rest}

theorem prefix_stops {text more : List Char} (begins : more <+: text)
    (stops : ∀ c, text.head? = some c → inside c = false) :
    ∀ c, more.head? = some c → inside c = false := by
  intro c first
  obtain ⟨others, rfl⟩ := begins
  exact stops c (by simp [first])

end Runs

theorem longest_word {c : Char} (starts : startsWord c) (rest : List Char) :
    Longest Word (c :: rest.takeWhile continuesWord) (rest.dropWhile continuesWord) := by
  refine ⟨⟨c, _, rfl, starts, takeWhile_all _ rest⟩, fun more begins longer => ?_⟩
  obtain ⟨first, others, whole, -, all⟩ := longer
  cases more with
  | nil => rfl
  | cons d more =>
      have stops := prefix_stops begins (dropWhile_stops continuesWord rest) d rfl
      simp only [List.cons_append, List.cons.injEq] at whole
      have goesOn := all d (by simp [← whole.2])
      rw [stops] at goesOn
      cases goesOn

/-! ### Numbers -/

theorem takeWhile_digits {digits more : List Char} (all : ∀ c ∈ digits, c.isDigit)
    (stops : ∀ c, more.head? = some c → c.isDigit = false) :
    (digits ++ more).takeWhile Char.isDigit = digits := by
  rw [List.takeWhile_append_of_pos all]
  cases more with
  | nil => simp
  | cons c more => simp [stops c rfl]

/-- Digits that go on with something else are a numeral only if they go on with a
point and digits. -/
theorem numeral_append {digits more : List Char} (all : ∀ c ∈ digits, c.isDigit)
    (stops : ∀ c, more.head? = some c → c.isDigit = false) (isNumeral : Numeral (digits ++ more)) :
    more = [] ∨ ∃ fraction, more = '.' :: fraction ∧ fraction ≠ [] ∧ ∀ c ∈ fraction, c.isDigit := by
  have taken := takeWhile_digits all stops
  generalize same : digits ++ more = text at isNumeral taken
  cases isNumeral with
  | whole _ allDigits =>
      have everything : (text ++ []).takeWhile Char.isDigit = text :=
        takeWhile_digits allDigits (by simp)
      rw [List.append_nil] at everything
      rw [everything] at taken
      rw [taken] at same
      exact Or.inl (by simpa using same)
  | @point whole fraction _ wholeDigits others fractionDigits =>
      have cutAtPoint : (whole ++ '.' :: fraction).takeWhile Char.isDigit = whole :=
        takeWhile_digits wholeDigits (by simp)
      rw [cutAtPoint] at taken
      rw [taken] at same
      exact Or.inr ⟨fraction, List.append_cancel_left same, others, fractionDigits⟩

/-- The piece of a number is the longest numeral. -/
theorem longest_number {c : Char} (digit : c.isDigit) (rest : List Char) :
    Longest Numeral (numberPiece c rest).1.text (numberPiece c rest).2 := by
  have allWhole : ∀ d ∈ c :: rest.takeWhile Char.isDigit, d.isDigit :=
    List.forall_mem_cons.mpr ⟨digit, takeWhile_all _ rest⟩
  have stops := dropWhile_stops Char.isDigit rest
  -- A numeral that goes on behind the digits goes on with a point and a digit.
  have wholeOnly : (∀ d after, rest.dropWhile Char.isDigit = '.' :: d :: after →
        d.isDigit = false) →
      Longest Numeral (c :: rest.takeWhile Char.isDigit) (rest.dropWhile Char.isDigit) := by
    intro noFraction
    refine ⟨.whole (by simp) allWhole, fun more begins longer => ?_⟩
    rcases numeral_append allWhole (prefix_stops begins stops) longer with
      none | ⟨fraction, rfl, others, allFraction⟩
    · exact none
    · obtain ⟨d, fraction, rfl⟩ := List.exists_cons_of_ne_nil others
      obtain ⟨after, whole⟩ := begins
      have isDigit := allFraction d (by simp)
      rw [noFraction d (fraction ++ after) whole.symm] at isDigit
      cases isDigit
  unfold numberPiece
  split
  next d after tail =>
    split
    next isDigit =>
      have allFraction : ∀ e ∈ d :: after.takeWhile Char.isDigit, e.isDigit :=
        List.forall_mem_cons.mpr ⟨isDigit, takeWhile_all _ after⟩
      refine ⟨.point (by simp) allWhole (by simp) allFraction, fun more begins longer => ?_⟩
      have again : Numeral ((c :: rest.takeWhile Char.isDigit) ++
          '.' :: ((d :: after.takeWhile Char.isDigit) ++ more)) := by
        simpa using longer
      rcases numeral_append allWhole (by simp) again with none | ⟨fraction, same, -, allLonger⟩
      · cases none
      · have same : (d :: after.takeWhile Char.isDigit) ++ more = fraction := by
          simpa using same
        cases more with
        | nil => rfl
        | cons e more =>
            have stopped := prefix_stops begins (dropWhile_stops Char.isDigit after) e rfl
            have goesOn := allLonger e (by simp [← same])
            rw [stopped] at goesOn
            cases goesOn
    next noDigit =>
      have here := wholeOnly (by
        intro e others same
        rw [tail] at same
        cases same
        simpa using noDigit)
      rw [tail] at here
      exact here
  next noPoint => exact wholeOnly fun d after same => absurd same (noPoint d after)

/-! ### Marks -/

/-- The marks of two characters. -/
theorem punctuation_pair {c d : Char} {more : List Char} (mark : Punctuation (c :: d :: more)) :
    (c = '/' ∧ d = '/' ∨ c = '$' ∨ d = '=' ∧ c ∈ ['-', '+', '*', '!', '=', '<', '>', '/']) ∧
      more = [] := by
  generalize same : c :: d :: more = text at mark
  cases mark with
  | comment => simp_all
  | @mark kind spelled => cases kind <;> simp_all [Kind.spelling]

/-- A mark of one character that begins no longer one. -/
theorem longest_mark {kind : Kind} {c : Char} {rest : List Char}
    (spelled : kind.spelling.toList = [c]) (alone : ∀ d, rest.head? = some d →
      ¬ (c = '/' ∧ d = '/' ∨ c = '$' ∨ d = '=' ∧ c ∈ ['-', '+', '*', '!', '=', '<', '>', '/'])) :
    CodeLexeme kind [c] rest := by
  have nonempty : kind.spelling ≠ "" := by
    intro empty
    rw [empty] at spelled
    cases spelled
  rw [← spelled]
  refine .mark ⟨.mark nonempty, fun more begins longer => ?_⟩
  rw [spelled] at longer
  cases more with
  | nil => rfl
  | cons d more =>
      obtain ⟨others, rfl⟩ := begins
      exact absurd (punctuation_pair longer).1 (alone d rfl)

/-- A mark of two characters. -/
theorem longest_pair {kind : Kind} {c d : Char} {rest : List Char}
    (spelled : kind.spelling.toList = [c, d]) : CodeLexeme kind [c, d] rest := by
  have nonempty : kind.spelling ≠ "" := by
    intro empty
    rw [empty] at spelled
    cases spelled
  rw [← spelled]
  refine .mark ⟨.mark nonempty, fun more begins longer => ?_⟩
  rw [spelled] at longer
  exact (punctuation_pair longer).2

/-! ### Pieces -/

/-- What a piece is in code before `rest`: a token, whose kind the symbols decide
if it is a word, or a gap. -/
def Piece.FitsCode (piece : Piece) (rest : List Char) : Prop :=
  match piece.shape with
  | .mark kind => CodeLexeme kind piece.text rest
  | .word => Longest Word piece.text rest
  | .number _ _ => CodeLexeme .number piece.text rest
  | .string _ => CodeLexeme .string piece.text rest
  | .templateText _ => False
  | .blank | .comment => Gap piece.text rest none
  | .wrong problem => Gap piece.text rest (some problem)

theorem operatorPiece_fits {joined alone : Kind} {c : Char} {rest : List Char}
    (joinedText : joined.spelling.toList = [c, '=']) (aloneText : alone.spelling.toList = [c])
    (noDollar : c ≠ '$') (noComment : c = '/' → rest.head? ≠ some '/') :
    (operatorPiece joined alone c rest).1.FitsCode (operatorPiece joined alone c rest).2 := by
  unfold operatorPiece
  split
  next others => exact longest_pair joinedText
  next noEquals =>
    refine longest_mark aloneText fun d first => ?_
    rintro (⟨isSlash, rfl⟩ | isDollar | ⟨rfl, -⟩)
    · exact noComment isSlash first
    · exact noDollar isDollar
    · obtain ⟨others, rfl⟩ := List.head?_eq_some_iff.mp first
      exact noEquals others rfl

theorem endsLine_dropWhile (rest : List Char) : EndsLine (rest.dropWhile (· != '\n')) := by
  cases tail : rest.dropWhile (· != '\n') with
  | nil => exact Or.inl rfl
  | cons c more =>
      have stops := dropWhile_stops (· != '\n') rest c (by rw [tail]; rfl)
      exact Or.inr (by simpa using stops)

theorem slashPiece_fits (rest : List Char) :
    (slashPiece rest).1.FitsCode (slashPiece rest).2 := by
  unfold slashPiece
  split
  next others =>
    refine Gap.comment (fun inside => ?_) (endsLine_dropWhile others)
    simpa using takeWhile_all (· != '\n') others _ inside
  next noSlash =>
    refine operatorPiece_fits rfl rfl (by decide) fun _ first => ?_
    obtain ⟨others, rfl⟩ := List.head?_eq_some_iff.mp first
    exact noSlash others rfl

/-- A string in double quotes, or the open one that ends with its line. -/
theorem lineString_fits (rest : List Char) :
    (stringPiece '\x22' (fun x => x != '\x22' && x != '\n') rest).1.FitsCode
      (stringPiece '\x22' (fun x => x != '\x22' && x != '\n') rest).2 := by
  have all := takeWhile_all (fun x => x != '\x22' && x != '\n') rest
  have noQuote : '\x22' ∉ rest.takeWhile (fun x => x != '\x22' && x != '\n') :=
    fun inside => by simpa using all _ inside
  have oneLine : '\n' ∉ rest.takeWhile (fun x => x != '\x22' && x != '\n') :=
    fun inside => by simpa using all _ inside
  unfold stringPiece
  dsimp only
  split
  next => exact Gap.openLine noQuote oneLine (Or.inl rfl)
  next c after tail =>
    split
    next => exact CodeLexeme.doubleQuoted ⟨rfl, noQuote⟩ oneLine
    next notQuote =>
      have stops := dropWhile_stops (fun x => x != '\x22' && x != '\n') rest c
        (by rw [tail]; rfl)
      have isNewline : c = '\n' := by simpa [notQuote] using stops
      exact Gap.openLine noQuote oneLine (Or.inr (by simp [isNewline]))

/-- A string in single quotes, or the open one that ends with the text. -/
theorem textString_fits (rest : List Char) :
    (stringPiece '\x27' (· != '\x27') rest).1.FitsCode
      (stringPiece '\x27' (· != '\x27') rest).2 := by
  have noQuote : '\x27' ∉ rest.takeWhile (· != '\x27') :=
    fun inside => by simpa using takeWhile_all (· != '\x27') rest _ inside
  unfold stringPiece
  dsimp only
  split
  next => exact Gap.openText noQuote
  next c after tail =>
    split
    next => exact CodeLexeme.singleQuoted ⟨rfl, noQuote⟩
    next notQuote =>
      have stops := dropWhile_stops (· != '\x27') rest c (by rw [tail]; rfl)
      exact absurd (by simpa using stops) notQuote

theorem numberPiece_shape (c : Char) (rest : List Char) :
    ∃ whole fraction, (numberPiece c rest).1.shape = .number whole fraction := by
  unfold numberPiece
  split
  · split <;> exact ⟨_, _, rfl⟩
  · exact ⟨_, _, rfl⟩

theorem numberPiece_fits {c : Char} (digit : c.isDigit) (rest : List Char) :
    (numberPiece c rest).1.FitsCode (numberPiece c rest).2 := by
  obtain ⟨whole, fraction, shape⟩ := numberPiece_shape c rest
  unfold Piece.FitsCode
  rw [shape]
  exact .number (longest_number digit rest)

theorem codePiece_fits (c : Char) (rest : List Char) :
    (codePiece c rest).1.FitsCode (codePiece c rest).2 := by
  unfold codePiece
  split
  case h_13 | h_14 | h_15 | h_16 | h_17 | h_18 | h_19 =>
    exact operatorPiece_fits rfl rfl (by decide) (by simp)
  case h_20 => exact slashPiece_fits rest
  case h_21 | h_22 | h_23 | h_24 => exact Gap.blank (by decide)
  case h_25 => exact lineString_fits rest
  case h_26 => exact textString_fits rest
  case h_27 =>
    split
    next digit => exact numberPiece_fits digit rest
    next noDigit =>
      split
      next starts => exact longest_word starts rest
      next noWord =>
        refine Gap.unexpected ⟨?_, ?_, by simpa using noWord, by simpa using noDigit, ?_⟩
        · simp_all
        · simp_all
        · intro kind noDollar first
          cases kind <;> simp [Kind.spelling] at first noDollar <;> subst first <;> contradiction
  all_goals exact longest_mark rfl (by simp)

/-- What a piece is inside the given layers, before `rest`. -/
def Piece.Fits (layers : Nesting) (piece : Piece) (rest : List Char) : Prop :=
  match piece.shape with
  | .mark kind => Lexeme layers kind piece.text rest
  | .word => ¬ layers.InTemplate ∧ Longest Word piece.text rest
  | .number _ _ => Lexeme layers .number piece.text rest
  | .string _ => Lexeme layers .string piece.text rest
  | .templateText _ => Lexeme layers .templateText piece.text rest
  | .blank | .comment => ¬ layers.InTemplate ∧ Gap piece.text rest none
  | .wrong problem => ¬ layers.InTemplate ∧ Gap piece.text rest (some problem)

theorem Piece.FitsCode.fits {layers : Nesting} {piece : Piece} {rest : List Char}
    (inCode : ¬ layers.InTemplate) (fits : piece.FitsCode rest) : piece.Fits layers rest := by
  unfold FitsCode at fits
  unfold Fits
  cases shape : piece.shape with
  | mark kind | number whole fraction | string content =>
      rw [shape] at fits
      exact Or.inr ⟨inCode, fits⟩
  | word | blank | comment | wrong problem =>
      rw [shape] at fits
      exact ⟨inCode, fits⟩
  | templateText content =>
      rw [shape] at fits
      exact fits.elim

theorem templatePiece_fits {layers : Nesting} (inTemplate : layers.InTemplate) (c : Char)
    (rest : List Char) :
    (templatePiece c rest).1.Fits layers (templatePiece c rest).2 := by
  unfold templatePiece
  split
  next => exact Or.inl ⟨inTemplate, .backtick⟩
  next => exact Or.inl ⟨inTemplate, .dollarBrace⟩
  next => exact Or.inl ⟨inTemplate, .escaped⟩
  next noTick noBrace noEscape =>
    refine Or.inl ⟨inTemplate, .plain noTick ?_ ?_⟩
    · rintro rfl first
      obtain ⟨after, rfl⟩ := List.head?_eq_some_iff.mp first
      exact noBrace after rfl rfl
    · rintro rfl
      cases rest with
      | nil => rfl
      | cons escaped after => exact absurd rfl (noEscape escaped after rfl)

theorem firstPiece_fits (layers : Nesting) (c : Char) (rest : List Char) :
    (firstPiece layers c rest).1.Fits layers (firstPiece layers c rest).2 := by
  unfold firstPiece
  split
  next outer =>
    have inTemplate : Nesting.InTemplate (.template :: outer) := rfl
    exact templatePiece_fits inTemplate c rest
  next noTemplate =>
    refine (codePiece_fits c rest).fits fun inTemplate => ?_
    obtain ⟨outer, rfl⟩ := List.head?_eq_some_iff.mp inTemplate
    exact noTemplate outer rfl

/-! ## All pieces -/

/-- Only backticks, braces and what opens an interpolation change the layers. -/
theorem after_mark_of_word {kind : Kind}
    (isWord : kind = .identifier ∨ ∃ word, (word, kind) ∈ Kind.reservedWords) (layers : Nesting) :
    layers.after (.mark kind) = layers.after .word := by
  have plain : kind ≠ .backtick ∧ kind ≠ .dollarBrace ∧ kind ≠ .leftBrace ∧ kind ≠ .rightBrace := by
    rcases isWord with rfl | ⟨word, known⟩
    · decide
    · have all : ∀ pair ∈ Kind.reservedWords, pair.2 ≠ .backtick ∧ pair.2 ≠ .dollarBrace ∧
          pair.2 ≠ .leftBrace ∧ pair.2 ≠ .rightBrace := by decide
      exact all _ known
  unfold Nesting.after
  split <;> simp_all

section Step

variable {before rest : List Char} {layers final : Nesting} {parts : List Part}

/-- A layout that begins with a token of the given text. -/
theorem Layout.ofToken {kind : Kind} {text : List Char} (literal : Option Literal)
    (lexeme : Lexeme layers kind text rest)
    (later : Layout (before ++ text) (layers.after (.mark kind)) rest parts final) :
    Layout before layers (text ++ rest)
      (.token ⟨kind, String.ofList text, literal, lastLine (before ++ text)⟩ :: parts) final := by
  have spelled : (String.ofList text).toList = text := String.toList_ofList
  have whole := @Layout.token before rest layers final
    ⟨kind, String.ofList text, literal, lastLine (before ++ text)⟩ parts
  dsimp only at whole
  rw [spelled] at whole
  exact whole lexeme rfl later

/-- What was read of a text is one part: its token or its report is added to what
had been read, and it goes before the layout of what follows. -/
def Reading.Gains (before text rest : List Char) (layers : Nesting) (shape : Shape)
    (old new : Reading) : Prop :=
  ∃ part : Part,
    new.tokens = part.token?.toList ++ old.tokens ∧
    new.diagnostics = part.report?.toList ++ old.diagnostics ∧
    ∀ {parts final}, Layout (before ++ text) (layers.after shape) rest parts final →
      Layout before layers (text ++ rest) (part :: parts) final

theorem Reading.gains_token {reading : Reading} {kind : Kind} {text : List Char}
    {literal : Option Literal} {shape : Shape} (line : reading.line = lastLine (before ++ text))
    (lexeme : Lexeme layers kind text rest)
    (same : layers.after (.mark kind) = layers.after shape) :
    Gains before text rest layers shape reading (reading.token kind text literal) := by
  refine ⟨.token ⟨kind, String.ofList text, literal, lastLine (before ++ text)⟩, ?_, rfl,
    fun later => .ofToken literal lexeme ?_⟩
  · rw [← line]
    rfl
  · rw [same]
    exact later

theorem Reading.gains_word {reading : Reading} {text : List Char}
    (line : reading.line = lastLine (before ++ text)) (inCode : ¬ layers.InTemplate)
    (longest : Longest Word text rest) :
    Gains before text rest layers .word reading (reading.word text) := by
  unfold Reading.word
  dsimp only
  split
  next kind reserved =>
    obtain ⟨word, known⟩ := SymbolTable.reserved?_word reserved
    exact gains_token line (Or.inr ⟨inCode, .reserved known longest⟩)
      (after_mark_of_word (Or.inr ⟨word, known⟩) layers)
  next =>
    exact gains_token line (Or.inr ⟨inCode, .name longest⟩) (after_mark_of_word (Or.inl rfl) layers)

/-- One piece is one part. -/
theorem Reading.add_gains {reading : Reading} {piece : Piece} (fits : piece.Fits layers rest)
    (counted : piece.lineEnds = newlines piece.text) (line : reading.line = lastLine before) :
    Gains before piece.text rest layers piece.shape reading (reading.add piece) := by
  have lineAfter : reading.line + piece.lineEnds = lastLine (before ++ piece.text) := by
    rw [counted, line, lastLine, lastLine, newlines_append, Nat.add_assoc]
  unfold Piece.Fits at fits
  unfold Reading.add
  cases shape : piece.shape with
  | blank | comment =>
      rw [shape] at fits
      exact ⟨.gap piece.text none, rfl, rfl, fun later => .gap fits.1 fits.2 later⟩
  | wrong problem =>
      rw [shape] at fits
      refine ⟨.gap piece.text (some (reportAt (before ++ piece.text) problem)), rfl, ?_,
        fun later => .gap fits.1 fits.2 later⟩
      rw [reportAt, ← lineAfter]
      rfl
  | word =>
      rw [shape] at fits
      exact gains_word lineAfter fits.1 fits.2
  | mark kind | number whole fraction | string content | templateText content =>
      rw [shape] at fits
      exact gains_token lineAfter fits rfl

end Step

/-- Adding to the front of what has been read, the latest first. -/
theorem reverse_filterMap_cons {α β : Type} (f : α → Option β) (first : α) (rest : List α)
    (old : List β) :
    (rest.filterMap f).reverse ++ ((f first).toList ++ old) =
      ((first :: rest).filterMap f).reverse ++ old := by
  cases found : f first <;> simp [found]

/-- All pieces of a text are the parts of a layout of it. -/
theorem cut_layout (layers : Nesting) (source : List Char) (before : List Char)
    (reading : Reading) (line : reading.line = lastLine before) :
    ∃ parts : List Part,
      ((cut layers source).pieces.foldl Reading.add reading).tokens =
        (parts.filterMap Part.token?).reverse ++ reading.tokens ∧
      ((cut layers source).pieces.foldl Reading.add reading).diagnostics =
        (parts.filterMap Part.report?).reverse ++ reading.diagnostics ∧
      Layout before layers source parts (cut layers source).nesting := by
  induction layers, source using cut_induction generalizing before reading with
  | nil layers => exact ⟨[], rfl, rfl, .done⟩
  | cons layers c rest inductionHypothesis =>
      obtain ⟨part, token, report, joins⟩ :=
        Reading.add_gains (firstPiece_fits layers c rest) (firstPiece_lineEnds rest layers c) line
      obtain ⟨parts, tokens, reports, later⟩ := inductionHypothesis
        (before ++ (firstPiece layers c rest).1.text)
        (reading.add (firstPiece layers c rest).1) (by
          rw [Reading.add_line, line, firstPiece_lineEnds, lastLine, lastLine, newlines_append,
            Nat.add_assoc])
      refine ⟨part :: parts, ?_, ?_, ?_⟩
      · rw [cut_cons, List.foldl_cons, tokens, token, reverse_filterMap_cons]
      · rw [cut_cons, List.foldl_cons, reports, report, reverse_filterMap_cons]
      · have whole := joins later
        rw [firstPiece_text layers c rest] at whole
        rw [cut_cons]
        exact whole

/-- **Every character and every line is accounted for.** The source is laid out
in parts; its tokens are those of the parts, with the end of input as the only
one of its kind on the last line; and what is reported is what the gaps report,
and last of all that a template is open. -/
theorem scan_accounts_for_source (symbols : SymbolTable) (source : String) :
    ∃ parts final,
      Layout [] [] source.toList parts final ∧
      (scan symbols source).tokens =
        parts.filterMap Part.token? ++ [Token.endOfInput (lastLine source.toList)] ∧
      Grammar.EndFree (parts.filterMap Part.token?) ∧
      (scan symbols source).diagnostics =
        parts.filterMap Part.report? ++
          if final = [] then [] else [reportAt source.toList .unterminatedTemplate] := by
  obtain ⟨parts, tokens, reports, layout⟩ :=
    cut_layout [] source.toList [] ⟨symbols, 1, [], []⟩ rfl
  have read : (readAll symbols source).tokens.reverse = parts.filterMap Part.token? := by
    rw [readAll, split_eq_cut, tokens]
    simp
  refine ⟨parts, _, layout, ?_, ?_, ?_⟩
  · rw [scan_tokens, read, lastLine, Nat.add_comm]
  · rw [← read]
    exact readAll_endFree symbols source
  · have line := readAll_line symbols source
    have reported : (readAll symbols source).diagnostics.reverse = parts.filterMap Part.report? := by
      rw [readAll, split_eq_cut, reports]
      simp
    rw [scan_eq_finish, Reading.finish, split_eq_cut]
    simp only [List.isEmpty_iff]
    split
    next => simp [reported]
    next => simp [Reading.report, reported, line, reportAt, lastLine, Nat.add_comm]

end Scriptlet
