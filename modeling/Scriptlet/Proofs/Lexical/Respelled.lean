import Scriptlet.Proofs.Lexical.Symbols
import Scriptlet.Proofs.Lexical.Templates

/-!
Contract: the tokens of a source, written down again and scanned again.

Owns: `respelled`, which writes the lexemes of tokens with one space between two of
them in code, and with nothing between them in a template; and the main statement
`respelled_scans_same`, by which scanning that text gives the tokens again, and no
report but that of an open template.

Does not own: what a token may be (`Scriptlet.Proofs.Lexical.Spans`), and which layers
are open behind tokens (`Scriptlet.Proofs.Lexical.Templates`, by whose
`Scanned.through` the layers that `respelled` goes through are those of the scan).

## Why each token is cut as before

In code a space follows, which no token goes on with: a word, a number or an operator
ends there, and a string has ended with its quote. Where no space follows, either a
mark was read that looks no further, or a character of a template; and there the next
character is the one that followed it in the source, since a template has no gaps.
-/

set_option autoImplicit false

namespace Scriptlet

/-! ## Tokens without lines -/

/-- What a token is, wherever it stands. -/
structure Token.Content where
  kind : Kind
  lexeme : String
  literal : Option Literal

def Token.content (token : Token) : Token.Content :=
  ⟨token.kind, token.lexeme, token.literal⟩

/-! ## Text of tokens -/

/-- What is written between two tokens inside the given layers. -/
def Nesting.separator : Nesting → List Char
  | .template :: _ => []
  | _ => [' ']

/-- The lexemes of tokens, the first of which stands inside the given layers. -/
def respelled : Nesting → List Token → List Char
  | _, [] => []
  | _, [last] => last.lexeme.toList
  | layers, first :: next :: rest =>
      first.lexeme.toList ++ (layers.after (.mark first.kind)).separator ++
        respelled (layers.after (.mark first.kind)) (next :: rest)

/-- Whether a piece of this shape is read as a token. -/
def Shape.isToken : Shape → Bool
  | .blank | .comment | .wrong _ => false
  | _ => true

/-- A separator, as pieces. -/
def Nesting.separatorPieces (layers : Nesting) : List Piece :=
  layers.separator.map fun c => ⟨.blank, [c]⟩

/-- The pieces of a text that are tokens, with separators behind them. -/
def spaced : Nesting → List Piece → List Piece
  | _, [] => []
  | layers, piece :: rest =>
      if piece.shape.isToken then
        piece :: (layers.after piece.shape).separatorPieces ++
          spaced (layers.after piece.shape) rest
      else spaced layers rest

/-! ## One piece, cut again -/

section Again

variable {c : Char} {rest : List Char}

/-- The first piece of `c :: rest` is cut off again when `tail` follows it. -/
def CutAgain (cutFirst : Char → List Char → Piece × List Char) (c : Char)
    (rest tail : List Char) : Prop :=
  ∃ others, (cutFirst c rest).1.text = c :: others ∧
    cutFirst c (others ++ tail) = ((cutFirst c rest).1, tail)

theorem operatorPiece_again (joined alone : Kind) (more : List Char) :
    CutAgain (operatorPiece joined alone) c rest (' ' :: more) := by
  unfold CutAgain
  cases rest with
  | nil => exact ⟨[], rfl, rfl⟩
  | cons d rest =>
      by_cases equals : d = '='
      · subst equals
        exact ⟨['='], rfl, rfl⟩
      · exact ⟨[], by simp [operatorPiece, equals], by simp [operatorPiece, equals]⟩

/-- A division sign that began no comment begins none before a space. -/
theorem slashPiece_again (isToken : (slashPiece rest).1.shape.isToken) (more : List Char) :
    CutAgain (fun _ => slashPiece) '/' rest (' ' :: more) := by
  unfold CutAgain
  cases rest with
  | nil => exact ⟨[], rfl, rfl⟩
  | cons d rest =>
      by_cases isSlash : d = '/'
      · subst isSlash
        cases isToken
      · by_cases equals : d = '='
        · subst equals
          exact ⟨['='], rfl, rfl⟩
        · exact ⟨[], by simp [slashPiece, operatorPiece, isSlash, equals],
            by simp [slashPiece, operatorPiece, isSlash, equals]⟩

/-- A string that was closed is closed by the same quote, whatever follows. -/
theorem stringPiece_again {quote : Char} {inside : Char → Bool} (noQuote : inside quote = false)
    (isToken : (stringPiece quote inside rest).1.shape.isToken) (tail : List Char) :
    CutAgain (fun c => stringPiece c inside) quote rest tail := by
  have all := takeWhile_all inside rest
  have closed : (stringPiece quote inside rest).1 =
      ⟨.string (rest.takeWhile inside), quote :: (rest.takeWhile inside ++ [quote])⟩ := by
    unfold stringPiece at isToken ⊢
    cases left : rest.dropWhile inside with
    | nil => simp [left, Shape.isToken] at isToken
    | cons d after =>
        by_cases isQuote : d = quote
        · simp [isQuote]
        · simp [left, isQuote, Shape.isToken] at isToken
  refine ⟨rest.takeWhile inside ++ [quote], ?_, ?_⟩
  · rw [closed]
  · rw [closed]
    dsimp only [stringPiece]
    rw [List.append_assoc, List.takeWhile_append_of_pos all, List.dropWhile_append_of_pos all]
    simp [noQuote]

theorem wordPiece_again (more : List Char) : CutAgain wordPiece c rest (' ' :: more) := by
  have all := takeWhile_all continuesWord rest
  have stops : continuesWord ' ' = false := by decide
  refine ⟨rest.takeWhile continuesWord, rfl, ?_⟩
  unfold wordPiece
  rw [List.takeWhile_append_of_pos all, List.dropWhile_append_of_pos all]
  simp [stops]

theorem numberPiece_again (more : List Char) : CutAgain numberPiece c rest (' ' :: more) := by
  have all := takeWhile_all Char.isDigit rest
  have stops : Char.isDigit ' ' = false := by decide
  have noPoint : Char.isDigit '.' = false := by decide
  have whole : numberPiece c (rest.takeWhile Char.isDigit ++ ' ' :: more) =
      (⟨.number (c :: rest.takeWhile Char.isDigit) [], c :: rest.takeWhile Char.isDigit⟩,
        ' ' :: more) := by
    unfold numberPiece
    rw [List.takeWhile_append_of_pos all, List.dropWhile_append_of_pos all]
    simp [stops]
  by_cases goesOn : ∃ d after, rest.dropWhile Char.isDigit = '.' :: d :: after ∧ d.isDigit
  · obtain ⟨d, after, left, digit⟩ := goesOn
    have allAfter := takeWhile_all Char.isDigit after
    have here : (numberPiece c rest).1 =
        ⟨.number (c :: rest.takeWhile Char.isDigit) (d :: after.takeWhile Char.isDigit),
          c :: (rest.takeWhile Char.isDigit ++ '.' :: d :: after.takeWhile Char.isDigit)⟩ := by
      simp [numberPiece, left, digit]
    refine ⟨rest.takeWhile Char.isDigit ++ '.' :: d :: after.takeWhile Char.isDigit, ?_, ?_⟩
    · rw [here]
    · rw [here]
      unfold numberPiece
      rw [List.append_assoc, List.takeWhile_append_of_pos all, List.dropWhile_append_of_pos all]
      simp [noPoint, digit, List.takeWhile_append_of_pos allAfter,
        List.dropWhile_append_of_pos allAfter, stops]
  · have here : (numberPiece c rest).1 =
        ⟨.number (c :: rest.takeWhile Char.isDigit) [], c :: rest.takeWhile Char.isDigit⟩ := by
      unfold numberPiece
      dsimp only
      split
      next d after left =>
        rw [if_neg fun digit => goesOn ⟨d, after, left, digit⟩]
      next => rfl
    refine ⟨rest.takeWhile Char.isDigit, ?_, ?_⟩
    · rw [here]
    · rw [here]
      exact whole

/-- A token in code, before a space. -/
theorem codePiece_again (isToken : (codePiece c rest).1.shape.isToken) (more : List Char) :
    CutAgain codePiece c rest (' ' :: more) := by
  unfold CutAgain
  revert isToken
  unfold codePiece
  split
  case h_13 | h_14 | h_15 | h_16 | h_17 | h_18 | h_19 =>
    exact fun _ => operatorPiece_again _ _ more
  case h_20 => exact fun isToken => slashPiece_again isToken more
  case h_21 | h_22 | h_23 | h_24 => exact fun isToken => by cases isToken
  case h_25 | h_26 =>
    exact fun isToken => stringPiece_again (by decide) isToken (' ' :: more)
  case h_27 =>
    split
    next => exact fun _ => numberPiece_again more
    next =>
      split
      next => exact fun _ => wordPiece_again more
      next => exact fun isToken => by cases isToken
  all_goals exact fun _ => ⟨[], rfl, rfl⟩

/-- A mark is written in one way. -/
theorem CodeLexeme.text_eq {kind : Kind} {text rest : List Char}
    (lexeme : CodeLexeme kind text rest) (spelled : kind.spelling ≠ "") :
    text = kind.spelling.toList := by
  have words : ∀ entry ∈ Kind.reservedWords, entry.2.spelling = "" := by decide
  cases lexeme with
  | mark longest => rfl
  | reserved known longest => exact absurd (words _ known) spelled
  | name longest | number longest | doubleQuoted quoted oneLine | singleQuoted quoted =>
      exact absurd rfl spelled

/-- What leads from code into a template is one character, whatever follows it. -/
theorem codePiece_mark_again {kind : Kind} (isMark : (codePiece c rest).1.shape = .mark kind)
    (entersTemplate : kind = .backtick ∨ kind = .rightBrace) (tail : List Char) :
    CutAgain codePiece c rest tail := by
  have fits := codePiece_fits c rest
  unfold Piece.FitsCode at fits
  rw [isMark] at fits
  have text := fits.text_eq (codePiece_mark isMark)
  have whole := codePiece_text c rest
  rw [text] at whole
  rcases entersTemplate with rfl | rfl
  · obtain rfl : '\x60' = c := List.head_eq_of_cons_eq whole
    exact ⟨[], rfl, rfl⟩
  · obtain rfl : '\x7d' = c := List.head_eq_of_cons_eq whole
    exact ⟨[], rfl, rfl⟩

/-- A token in a template, before the character that it was read before. -/
theorem templatePiece_again {tail : List Char}
    (follows : (∃ content, (templatePiece c rest).1.shape = .templateText content) →
      tail.head? = (templatePiece c rest).2.head?) :
    CutAgain templatePiece c rest tail := by
  unfold CutAgain
  revert follows
  unfold templatePiece
  split
  next => exact fun _ => ⟨[], rfl, rfl⟩
  next => exact fun _ => ⟨['\x7b'], rfl, rfl⟩
  next escaped after => exact fun _ => ⟨[escaped], rfl, rfl⟩
  next noTick noBrace noEscape =>
    intro follows
    have sameNext : tail.head? = rest.head? := follows ⟨c, rfl⟩
    refine ⟨[], rfl, ?_⟩
    rw [List.nil_append]
    split
    next => exact absurd rfl noTick
    next after =>
      obtain ⟨others, rfl⟩ := List.head?_eq_some_iff.mp sameNext.symm
      exact absurd rfl (noBrace others rfl)
    next escaped after =>
      obtain ⟨others, rfl⟩ := List.head?_eq_some_iff.mp sameNext.symm
      exact absurd rfl (noEscape escaped others rfl)
    next => rfl

/-- Only a backtick or a closing brace leads from code into a template. -/
theorem enters_template {layers : Nesting} {shape : Shape} (inCode : ¬ layers.InTemplate)
    (enters : (layers.after shape).InTemplate) :
    ∃ kind, shape = .mark kind ∧ (kind = .backtick ∨ kind = .rightBrace) := by
  unfold Nesting.after at enters
  split at enters
  case h_2 => exact ⟨_, rfl, Or.inl rfl⟩
  case h_5 | h_6 => exact ⟨_, rfl, Or.inr rfl⟩
  case h_1 outer => exact absurd (inTemplate_cons outer) inCode
  case h_7 => exact absurd enters inCode
  all_goals cases enters

/-- **A token is cut off again**, if in code a space follows it, and in a template the
character that followed it before. -/
theorem firstPiece_again {layers : Nesting} {tail : List Char}
    (isToken : (firstPiece layers c rest).1.shape.isToken)
    (inTemplate : (layers.after (firstPiece layers c rest).1.shape).InTemplate →
      tail.head? = (firstPiece layers c rest).2.head?)
    (inCode : ¬ (layers.after (firstPiece layers c rest).1.shape).InTemplate →
      ∃ more, tail = ' ' :: more) :
    CutAgain (firstPiece layers) c rest tail := by
  by_cases startsInside : layers.InTemplate
  · obtain ⟨outer, rfl⟩ := List.head?_eq_some_iff.mp startsInside
    apply templatePiece_again
    rintro ⟨content, isText⟩
    have stays : (Nesting.after (.template :: outer)
        (firstPiece (.template :: outer) c rest).1.shape).InTemplate := by
      show (Nesting.after _ (templatePiece c rest).1.shape).InTemplate
      rw [isText]
      exact inTemplate_cons outer
    exact inTemplate stays
  · have isCode : ∀ text, firstPiece layers c text = codePiece c text := by
      intro text
      unfold firstPiece
      split
      next outer => exact absurd (inTemplate_cons outer) startsInside
      next => rfl
    unfold CutAgain
    simp only [isCode] at isToken inTemplate inCode ⊢
    by_cases enters : (layers.after (codePiece c rest).1.shape).InTemplate
    · obtain ⟨kind, isMark, leads⟩ := enters_template startsInside enters
      exact codePiece_mark_again isMark leads tail
    · obtain ⟨more, rfl⟩ := inCode enters
      exact codePiece_again isToken more

end Again

/-! ## All pieces, cut again -/

theorem Nesting.separator_code {layers : Nesting} (inCode : ¬ layers.InTemplate) :
    layers.separator = [' '] := by
  unfold separator
  split
  next outer => exact absurd (inTemplate_cons outer) inCode
  next => rfl

theorem Nesting.separatorPieces_text (layers : Nesting) :
    layers.separatorPieces.flatMap Piece.text = layers.separator := by
  unfold separatorPieces separator
  split <;> rfl

/-- A piece that is no token opens and closes nothing, and stands in code. -/
theorem firstPiece_gap {layers : Nesting} {c : Char} {rest : List Char}
    (isGap : (firstPiece layers c rest).1.shape.isToken = false) :
    layers.after (firstPiece layers c rest).1.shape = layers ∧ ¬ layers.InTemplate := by
  constructor
  · cases shape : (firstPiece layers c rest).1.shape with
    | blank | comment | wrong problem => rfl
    | _ =>
        rw [shape] at isGap
        cases isGap
  · intro startsInside
    obtain ⟨outer, rfl⟩ := List.head?_eq_some_iff.mp startsInside
    have isToken : (templatePiece c rest).1.shape.isToken = true := by
      unfold templatePiece
      split <;> rfl
    exact Bool.false_ne_true (isGap.symm.trans isToken)

/-- A separator is cut off whatever follows. -/
theorem cut_separator (layers : Nesting) (more : List Char) :
    cut layers (layers.separator ++ more) =
      ⟨layers.separatorPieces ++ (cut layers more).pieces, (cut layers more).nesting⟩ := by
  rcases layers with _ | ⟨_ | depth, outer⟩
  · exact cut_cons [] ' ' more
  · rfl
  · exact cut_cons (.interpolation depth :: outer) ' ' more

/-- The tokens of a text, with separators behind them, are what their own text is cut
into. In a template this text begins as the other one did. -/
theorem cut_spaced (layers : Nesting) (source : List Char) :
    cut layers ((spaced layers (cut layers source).pieces).flatMap Piece.text) =
        ⟨spaced layers (cut layers source).pieces, (cut layers source).nesting⟩ ∧
      (layers.InTemplate →
        ((spaced layers (cut layers source).pieces).flatMap Piece.text).head? = source.head?) := by
  induction layers, source using cut_induction with
  | nil layers => exact ⟨cut_nil layers, fun _ => rfl⟩
  | cons layers c rest inductionHypothesis =>
      obtain ⟨again, sameFirst⟩ := inductionHypothesis
      rw [cut_cons]
      generalize laterPieces : cut (layers.after (firstPiece layers c rest).1.shape)
        (firstPiece layers c rest).2 = later at again sameFirst ⊢
      rw [spaced]
      cases isToken : (firstPiece layers c rest).1.shape.isToken with
      | false =>
          obtain ⟨unchanged, inCode⟩ := firstPiece_gap isToken
          rw [unchanged] at again
          exact ⟨again, fun inTemplate => absurd inTemplate inCode⟩
      | true =>
          generalize next : layers.after (firstPiece layers c rest).1.shape = inner at again sameFirst ⊢
          generalize textBehind : (spaced inner later.pieces).flatMap Piece.text = behind
            at again sameFirst
          obtain ⟨others, text, sameCut⟩ :
              CutAgain (firstPiece layers) c rest (inner.separator ++ behind) := by
            apply firstPiece_again isToken
            · intro inTemplate
              rw [next] at inTemplate
              obtain ⟨outer, rfl⟩ := List.head?_eq_some_iff.mp inTemplate
              exact sameFirst inTemplate
            · intro inCode
              rw [next] at inCode
              exact ⟨behind, by rw [Nesting.separator_code inCode]; rfl⟩
          have whole : ((firstPiece layers c rest).1 :: inner.separatorPieces ++
              spaced inner later.pieces).flatMap Piece.text =
                c :: (others ++ (inner.separator ++ behind)) := by
            rw [List.cons_append, List.flatMap_cons, List.flatMap_append, textBehind, text,
              inner.separatorPieces_text, List.cons_append]
          rw [if_pos rfl, whole]
          refine ⟨?_, fun _ => rfl⟩
          rw [cut_cons, sameCut, next, cut_separator, again]
          rfl

/-! ## Tokens, read again -/

/-- A name gets the same number from a table that knows the same names, and from one
that knows it and all others. -/
theorem SymbolTable.intern_again {left right : SymbolTable} {name : String}
    (known : left = right ∨ (left.intern name).2.Extends right) :
    (right.intern name).1 = (left.intern name).1 := by
  rcases known with rfl | kept
  · rfl
  · have found := kept.number _ _ (left.intern_found name)
    have again : (right.intern name).1.id = (left.intern name).1.id := by
      rw [right.intern_id, found, Option.getD_some]
    have sameName : (right.intern name).1.name = (left.intern name).1.name := by
      rw [right.intern_name, left.intern_name]
    exact congrArg₂ Symbol.mk again sameName

theorem SymbolTable.reserved_again {left right : SymbolTable} {name : String}
    (known : left = right ∨ (left.intern name).2.Extends right) (symbol : Symbol) :
    (right.intern name).2.reserved? symbol = (left.intern name).2.reserved? symbol := by
  rcases known with rfl | kept
  · rfl
  · rw [reserved?_intern, reserved?, kept.reserved, reserved?]

namespace Reading

/-- The same tokens have been read, wherever they stood. -/
def SameTokens (left right : Reading) : Prop :=
  right.tokens.map Token.content = left.tokens.map Token.content

theorem SameTokens.token {left right : Reading} (same : left.SameTokens right) (kind : Kind)
    (text : List Char) (literal : Option Literal) :
    (left.token kind text literal).SameTokens (right.token kind text literal) := by
  unfold SameTokens at same ⊢
  simp only [Reading.token, List.map_cons, same]
  rfl

theorem SameTokens.word {left right : Reading} (same : left.SameTokens right) {text : List Char}
    (known : left.symbols = right.symbols ∨
      (left.symbols.intern (String.ofList text)).2.Extends right.symbols) :
    (left.word text).SameTokens (right.word text) := by
  unfold Reading.word
  dsimp only
  rw [SymbolTable.intern_again known, SymbolTable.reserved_again known]
  split
  · exact SameTokens.token same _ _ _
  · exact SameTokens.token same _ _ _

/-- One more piece, with a table that gives it the same symbol. -/
theorem SameTokens.add {left right : Reading} (same : left.SameTokens right) {piece : Piece}
    (known : left.symbols = right.symbols ∨ (left.add piece).symbols.Extends right.symbols) :
    (left.add piece).SameTokens (right.add piece) := by
  have entered : SameTokens { left with line := left.line + piece.lineEnds }
      { right with line := right.line + piece.lineEnds } := same
  revert known
  rw [add_symbols]
  unfold Piece.word? Reading.add
  cases piece.shape with
  | word => exact fun known => entered.word known
  | blank | comment | wrong problem => exact fun _ => same
  | mark kind | number whole fraction | string content | templateText content =>
      exact fun _ => entered.token _ _ _

/-- What is no token leaves the tokens as they are. -/
theorem add_gap (reading : Reading) {piece : Piece} (isGap : piece.shape.isToken = false) :
    (reading.add piece).tokens = reading.tokens ∧
      (reading.add piece).symbols = reading.symbols := by
  unfold Reading.add
  cases shape : piece.shape with
  | blank | comment | wrong problem => exact ⟨rfl, rfl⟩
  | _ =>
      rw [shape] at isGap
      cases isGap

theorem foldl_separator (layers : Nesting) (reading : Reading) :
    ∃ line, layers.separatorPieces.foldl Reading.add reading = { reading with line } := by
  unfold Nesting.separatorPieces Nesting.separator
  split
  · exact ⟨reading.line, rfl⟩
  · exact ⟨reading.line, rfl⟩

/-- All pieces. Those that are no tokens leave no trace in what is read again. -/
theorem SameTokens.spaced {left right : Reading} (same : left.SameTokens right) (layers : Nesting)
    {pieces : List Piece} (known : left.symbols = right.symbols ∨
      (pieces.foldl Reading.add left).symbols.Extends right.symbols) :
    (pieces.foldl Reading.add left).SameTokens
      ((Scriptlet.spaced layers pieces).foldl Reading.add right) := by
  induction pieces generalizing layers left right with
  | nil => exact same
  | cons piece pieces inductionHypothesis =>
      rw [Scriptlet.spaced, List.foldl_cons]
      cases isToken : piece.shape.isToken with
      | false =>
          obtain ⟨tokens, symbols⟩ := left.add_gap isToken
          apply inductionHypothesis
          · unfold SameTokens
            rw [tokens]
            exact same
          · rw [symbols]
            exact known
      | true =>
          have knownNow : left.symbols = right.symbols ∨
              (left.add piece).symbols.Extends right.symbols :=
            known.imp_right (foldl_add_extends pieces _).trans
          obtain ⟨line, separated⟩ :=
            foldl_separator (layers.after piece.shape) (right.add piece)
          rw [if_pos rfl, List.cons_append, List.foldl_cons, List.foldl_append, separated]
          apply inductionHypothesis
          · exact same.add knownNow
          · show (left.add piece).symbols = (right.add piece).symbols ∨
              SymbolTable.Extends _ (right.add piece).symbols
            rcases known with equal | kept
            · rw [add_symbols, add_symbols, equal]
              exact Or.inl rfl
            · exact Or.inr (kept.trans (right.add_extends piece))

/-- No error is among the tokens. -/
theorem foldl_spaced_diagnostics (layers : Nesting) (pieces : List Piece) (reading : Reading) :
    ((spaced layers pieces).foldl Reading.add reading).diagnostics = reading.diagnostics := by
  induction pieces generalizing layers reading with
  | nil => rfl
  | cons piece pieces inductionHypothesis =>
      rw [spaced]
      cases isToken : piece.shape.isToken with
      | false => exact inductionHypothesis layers reading
      | true =>
          obtain ⟨line, separated⟩ :=
            foldl_separator (layers.after piece.shape) (reading.add piece)
          rw [if_pos rfl, List.cons_append, List.foldl_cons, List.foldl_append, separated,
            inductionHypothesis]
          show (reading.add piece).diagnostics = _
          rw [add_diagnostics]
          cases shape : piece.shape with
          | wrong problem =>
              rw [shape] at isToken
              cases isToken
          | _ => rfl

/-- A token has the text of its piece and opens and closes what the piece does. -/
theorem add_token (reading : Reading) {piece : Piece} (isToken : piece.shape.isToken = true) :
    ∃ token, (reading.add piece).tokens = token :: reading.tokens ∧
      token.lexeme = String.ofList piece.text ∧
      ∀ layers, Nesting.after layers (.mark token.kind) = Nesting.after layers piece.shape := by
  unfold Reading.add
  cases shape : piece.shape with
  | mark kind | number whole fraction | string content | templateText content =>
      exact ⟨_, rfl, rfl, fun layers => rfl⟩
  | word =>
      unfold Reading.word
      dsimp only
      split
      next kind reserved =>
        exact ⟨_, rfl, rfl, after_mark_of_word (Or.inr (SymbolTable.reserved?_word reserved))⟩
      next => exact ⟨_, rfl, rfl, after_mark_of_word (Or.inl rfl)⟩
  | _ =>
      rw [shape] at isToken
      cases isToken

end Reading

/-! ## The text of tokens -/

theorem respelled_cons {layers : Nesting} {first : Token} {rest : List Token} (more : rest ≠ []) :
    respelled layers (first :: rest) =
      first.lexeme.toList ++ (layers.after (.mark first.kind)).separator ++
        respelled (layers.after (.mark first.kind)) rest := by
  obtain ⟨next, others, rfl⟩ := List.exists_cons_of_ne_nil more
  rfl

/-- The text of what is read of pieces, and of the end of input behind it, is that of
the tokens among them with separators. -/
theorem respelled_eq (layers : Nesting) (pieces : List Piece) (reading : Reading) :
    ∃ tokens, (pieces.foldl Reading.add reading).tokens = tokens.reverse ++ reading.tokens ∧
      ∀ line, respelled layers (tokens ++ [Token.endOfInput line]) =
        (spaced layers pieces).flatMap Piece.text := by
  induction pieces generalizing layers reading with
  | nil => exact ⟨[], rfl, fun line => rfl⟩
  | cons piece pieces inductionHypothesis =>
      rw [spaced]
      cases isToken : piece.shape.isToken with
      | false =>
          obtain ⟨tokens, read, text⟩ := inductionHypothesis layers (reading.add piece)
          rw [(reading.add_gap isToken).1] at read
          exact ⟨tokens, read, text⟩
      | true =>
          obtain ⟨token, added, lexeme, alike⟩ := reading.add_token isToken
          obtain ⟨tokens, read, text⟩ :=
            inductionHypothesis (layers.after piece.shape) (reading.add piece)
          refine ⟨token :: tokens, ?_, fun line => ?_⟩
          · rw [List.foldl_cons, read, added]
            simp
          · rw [List.cons_append, respelled_cons (by simp), alike, text, lexeme, if_pos rfl,
              String.toList_ofList, List.cons_append, List.flatMap_cons, List.flatMap_append,
              Nesting.separatorPieces_text, List.append_assoc]

theorem respelled_scan (symbols : SymbolTable) (source : String) :
    respelled [] (scan symbols source).tokens =
      (spaced [] (split source.toList).pieces).flatMap Piece.text := by
  obtain ⟨tokens, read, text⟩ :=
    respelled_eq [] (split source.toList).pieces ⟨symbols, 1, [], []⟩
  have all : (readAll symbols source).tokens.reverse = tokens := by
    rw [readAll, read]
    simp
  rw [scan_tokens, all]
  exact text _

theorem split_respelled (symbols : SymbolTable) (source : String) :
    split (respelled [] (scan symbols source).tokens) =
      ⟨spaced [] (split source.toList).pieces, (split source.toList).nesting⟩ := by
  rw [respelled_scan]
  exact (cut_spaced [] source.toList).1

/-! ## Scanned again -/

/-- The problems that the end of a scan adds. -/
def Nesting.problems (layers : Nesting) : List Problem :=
  if layers.isEmpty then [] else [.unterminatedTemplate]

theorem Reading.finish_problems (layers : Nesting) (reading : Reading) :
    (reading.finish layers).diagnostics.map Diagnostic.problem =
      reading.diagnostics.reverse.map Diagnostic.problem ++ layers.problems := by
  unfold Reading.finish Nesting.problems
  dsimp only
  split
  · rw [List.append_nil]
  · simp [Reading.report]

/-- The same tokens were read again, and of the problems only that of an open
template. -/
structure Scan.Repeats (again first : Scan) : Prop where
  tokens : again.tokens.map Token.content = first.tokens.map Token.content
  problems : again.diagnostics.map Diagnostic.problem =
    (first.diagnostics.map Diagnostic.problem).filter (· = .unterminatedTemplate)

theorem scan_problems (symbols : SymbolTable) (source : String) :
    ((scan symbols source).diagnostics.map Diagnostic.problem).filter
        (· = .unterminatedTemplate) = (split source.toList).nesting.problems := by
  have others : ((readAll symbols source).diagnostics.reverse.map Diagnostic.problem).filter
      (· = .unterminatedTemplate) = [] := by
    rw [List.filter_eq_nil_iff]
    intro problem reported
    obtain ⟨report, inside, rfl⟩ := List.mem_map.mp reported
    simpa using readAll_report_ne symbols source report (List.mem_reverse.mp inside)
  rw [scan_eq_finish, Reading.finish_problems, List.filter_append, others]
  unfold Nesting.problems
  split <;> rfl

/-- With a table that gives the words the same symbols. -/
theorem respelled_repeats {symbols table : SymbolTable} {source : String}
    (known : symbols = table ∨ (scan symbols source).symbols.Extends table) :
    (scan table (String.ofList (respelled [] (scan symbols source).tokens))).Repeats
      (scan symbols source) := by
  generalize written : String.ofList (respelled [] (scan symbols source).tokens) = text
  have cutAgain : split text.toList =
      ⟨spaced [] (split source.toList).pieces, (split source.toList).nesting⟩ := by
    rw [← written, String.toList_ofList]
    exact split_respelled symbols source
  have read : readAll table text =
      (spaced [] (split source.toList).pieces).foldl Reading.add ⟨table, 1, [], []⟩ := by
    rw [readAll, cutAgain]
  rw [scan_symbols] at known
  constructor
  · have begins : Reading.SameTokens ⟨symbols, 1, [], []⟩ ⟨table, 1, [], []⟩ := rfl
    have same : (readAll symbols source).SameTokens (readAll table text) := by
      rw [read]
      exact begins.spaced [] known
    rw [scan_tokens, scan_tokens, List.map_append, List.map_append, List.map_reverse,
      List.map_reverse, same]
    rfl
  · rw [scan_problems, scan_eq_finish, Reading.finish_problems, cutAgain, read,
      Reading.foldl_spaced_diagnostics]
    rfl

/-- **Scanning again changes nothing.** The tokens of a source, written with a space
between two of them in code and nothing in a template, are scanned as the same kinds,
lexemes and literals, whether with the table that the source left behind or the one it
was scanned with; and what is reported is that a template is open, exactly where it was
before. -/
theorem respelled_scans_same (symbols : SymbolTable) (source : String) :
    (scan (scan symbols source).symbols
        (String.ofList (respelled [] (scan symbols source).tokens))).Repeats
        (scan symbols source) ∧
      (scan symbols (String.ofList (respelled [] (scan symbols source).tokens))).Repeats
        (scan symbols source) :=
  ⟨respelled_repeats (Or.inr (.refl _)), respelled_repeats (Or.inl rfl)⟩

end Scriptlet
