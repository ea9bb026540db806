import Scriptlet.Proofs.Run.Course
import Scriptlet.Proofs.Session.Embedded

/-!
Contract: templates made of given texts and expressions.

Texts are written with a backslash where they need one, and expressions by their sources,
each in an interpolation of its own. What is read is the template of these parts.

Owns: `Quote`, a part that is given, and `templateSource`, by which parts are written;
`joined`, by which texts that meet are one; how the parts of the source are cut and read
one after another (`cut_quotes`, `read_quotes`); what a template shows (`Shows`); and the
main statement `templates_quote`.

Does not own: the sources of expressions (`Scriptlet.Proofs.Session.Embedded`).
-/

set_option autoImplicit false

namespace Scriptlet

open Grammar

/-! ## Parts -/

/-- A part of a template: a text, or an expression by its source. -/
inductive Quote where
  | text (content : String)
  | code (embedded : Embedded)

/-- How a part is written between backticks. -/
def Quote.spelled : Quote → List Char
  | text content => content.toList.flatMap escaped
  | code embedded => '$' :: '\x7b' :: (embedded.source.toList ++ ['\n', '\x7d'])

/-- A template of these parts, as a statement. -/
def templateSource (quotes : List Quote) : String :=
  String.ofList ('\x60' :: (quotes.flatMap Quote.spelled ++ ['\x60', ';']))

/-- The parts of a template behind a text: texts that meet are one, and an empty text is
none. -/
def joinedBehind (text : String) : List TemplatePart → List TemplatePart
  | [] => textParts text
  | .text more :: rest => joinedBehind (text ++ more) rest
  | .shown value :: rest => textParts text ++ .shown value :: joinedBehind "" rest

def joined (parts : List TemplatePart) : List TemplatePart :=
  joinedBehind "" parts

/-- The parts that are read: each text as it is given, and each expression as its source
says, with the symbols of the table `final`, and further down by the lines before it. -/
inductive ReadBack (final : SymbolTable) : Nat → List Quote → List TemplatePart → Prop where
  | nil {lines : Nat} : ReadBack final lines [] []
  | text {lines : Nat} {content : String} {quotes : List Quote} {parts : List TemplatePart}
      (rest : ReadBack final (lines + newlines content.toList) quotes parts) :
      ReadBack final lines (.text content :: quotes) (.text content :: parts)
  | code {lines : Nat} {embedded : Embedded} {value : Expr} {quotes : List Quote}
      {parts : List TemplatePart}
      (same : embedded.value.Alike (embedded.known.Shares final fun _ => True) value)
      (rest : ReadBack final (lines + newlines embedded.source.toList + 1) quotes parts) :
      ReadBack final lines (.code embedded :: quotes) (.shown (relabel (· + lines) value) :: parts)

/-! ## Pieces -/

def Quote.pieces : Quote → List Piece
  | text content => content.toList.map textPiece
  | code embedded =>
      dollarPiece :: ((split embedded.source.toList).pieces ++ [newlinePiece, bracePiece])

theorem Quote.cut_spelled (quote : Quote) (outer : Nesting) (more : List Char) :
    cut (.template :: outer) (quote.spelled ++ more) =
      ⟨quote.pieces ++ (cut (.template :: outer) more).pieces,
        (cut (.template :: outer) more).nesting⟩ := by
  cases quote with
  | text content => exact cut_escaped outer more content.toList
  | code embedded =>
      have inside := cut_interpolation outer more embedded.complete embedded.balanced
      simpa [Quote.spelled, Quote.pieces, split_eq_cut] using inside

/-- All parts in turn. -/
theorem cut_quotes (quotes : List Quote) (outer : Nesting) (more : List Char) :
    cut (.template :: outer) (quotes.flatMap Quote.spelled ++ more) =
      ⟨quotes.flatMap Quote.pieces ++ (cut (.template :: outer) more).pieces,
        (cut (.template :: outer) more).nesting⟩ := by
  induction quotes with
  | nil => rfl
  | cons quote quotes inductionHypothesis =>
      rw [List.flatMap_cons, List.append_assoc, quote.cut_spelled, inductionHypothesis,
        List.flatMap_cons, List.append_assoc]

def backtickPiece : Piece := ⟨.mark .backtick, ['\x60']⟩

theorem cut_backtick (text : List Char) :
    cut [] ('\x60' :: text) =
      ⟨backtickPiece :: (cut [.template] text).pieces, (cut [.template] text).nesting⟩ :=
  cut_cons [] '\x60' text

theorem split_templateSource (quotes : List Quote) :
    split (templateSource quotes).toList =
      ⟨backtickPiece :: (quotes.flatMap Quote.pieces ++ [backtickPiece, semicolonPiece]), []⟩ := by
  have closing : cut [.template] ['\x60', ';'] = ⟨[backtickPiece, semicolonPiece], []⟩ := rfl
  rw [templateSource, String.toList_ofList, split_eq_cut, cut_backtick, cut_quotes, closing]

/-! ## Tokens -/

/-- Tokens that are this text of a template, whatever text follows. -/
def Texts (tokens : List Token) (text : String) : Prop :=
  ∀ coin others more rest, Derives coin (.texts others) more rest →
    Derives coin (.texts (text ++ others)) (tokens ++ more) rest

theorem texts_nil : Texts [] "" := by
  intro coin others more rest derives
  rwa [String.empty_append]

theorem Texts.append {first second : List Token} {text others : String}
    (before : Texts first text) (behind : Texts second others) :
    Texts (first ++ second) (text ++ others) := by
  intro coin last more rest derives
  rw [List.append_assoc, String.append_assoc]
  exact before _ _ _ _ (behind _ _ _ _ derives)

/-- The text alone. -/
theorem Texts.derives {tokens : List Token} {text : String} (texts : Texts tokens text)
    (coin : Nat → Bool) (rest : List Token) : Derives coin (.texts text) (tokens ++ rest) rest := by
  have derives := texts coin "" rest rest .noTexts
  rwa [String.append_empty] at derives

/-- The token of a character. -/
def textToken (c : Char) (line : Nat) : Token :=
  ⟨.templateText, String.ofList (escaped c), some (.text (String.singleton c)), line⟩

theorem texts_token (c : Char) (line : Nat) : Texts [textToken c line] (String.singleton c) := by
  intro coin others more rest derives
  have read : Derives coin (.texts (carriedText (textToken c line) ++ others))
      (textToken c line :: more) rest := .text rfl derives
  exact read

/-- What has been read behind so many lines, without a report. -/
def readBehind (symbols : SymbolTable) (lines : Nat) (tokens : List Token) : Scriptlet.Reading :=
  ⟨symbols, lines + 1, tokens, []⟩

section Reading

variable (symbols : SymbolTable) (lines : Nat) (before : List Token)

theorem add_textPiece (c : Char) :
    (readBehind symbols lines before).add (textPiece c) =
      readBehind symbols (lines + newlines [c])
        (textToken c (lines + newlines [c] + 1) :: before) := by
  have line : lines + 1 + (textPiece c).lineEnds = lines + newlines [c] + 1 := by
    rw [textPiece, templateText_lineEnds, Nat.add_right_comm]
  show Reading.mk symbols (lines + 1 + (textPiece c).lineEnds)
    (⟨_, _, _, lines + 1 + (textPiece c).lineEnds⟩ :: before) [] = _
  rw [line]
  rfl

/-- A text is read as tokens of this text. -/
theorem read_text (content : List Char) :
    ∃ tokens, Texts tokens (String.ofList content) ∧
      (content.map textPiece).foldl Reading.add (readBehind symbols lines before) =
        readBehind symbols (lines + newlines content) (tokens.reverse ++ before) := by
  induction content generalizing lines before with
  | nil => exact ⟨[], texts_nil, rfl⟩
  | cons c content inductionHypothesis =>
      let token := textToken c (lines + newlines [c] + 1)
      obtain ⟨tokens, texts, read⟩ := inductionHypothesis (lines + newlines [c]) (token :: before)
      have whole : String.singleton c ++ String.ofList content = String.ofList (c :: content) := by
        rw [← String.toList_inj]
        simp
      have count : newlines (c :: content) = newlines [c] + newlines content :=
        newlines_append [c] content
      have both : Texts (token :: tokens) _ := (texts_token c _).append texts
      rw [whole] at both
      refine ⟨token :: tokens, both, ?_⟩
      rw [List.map_cons, List.foldl_cons, add_textPiece, read, count, Nat.add_assoc]
      simp [token]

/-- A source in an interpolation is read as if it stood alone, but for its lines. -/
theorem read_code (embedded : Embedded) :
    ∃ opening closing, opening.kind = .dollarBrace ∧ closing.kind = .rightBrace ∧
      (Quote.pieces (.code embedded)).foldl Reading.add (readBehind symbols lines before) =
        readBehind (readAll symbols embedded.source).symbols
          (lines + newlines embedded.source.toList + 1)
          (closing :: (relabel (· + lines) (readAll symbols embedded.source).tokens ++
            opening :: before)) := by
  let opening : Token := ⟨.dollarBrace, String.ofList ['$', '\x7b'], none, lines + 1⟩
  let closing : Token :=
    ⟨.rightBrace, String.ofList ['\x7d'], none, lines + newlines embedded.source.toList + 1 + 1⟩
  refine ⟨opening, closing, rfl, rfl, ?_⟩
  have opened : (readBehind symbols lines before).add dollarPiece =
      Reading.behind lines (opening :: before) [] ⟨symbols, 1, [], []⟩ := by
    rw [Reading.behind, Nat.add_comm]
    rfl
  have inside : (split embedded.source.toList).pieces.foldl Reading.add ⟨symbols, 1, [], []⟩ =
      readAll symbols embedded.source := rfl
  have closed : ∀ read : Scriptlet.Reading, read.line = newlines embedded.source.toList + 1 →
      read.diagnostics = [] →
      ((read.behind lines (opening :: before) []).add newlinePiece).add bracePiece =
        readBehind read.symbols (lines + newlines embedded.source.toList + 1)
          (closing :: (relabel (· + lines) read.tokens ++ opening :: before)) := by
    rintro ⟨known, ends, tokens, reports⟩ rfl rfl
    have total : newlines embedded.source.toList + 1 + lines + 1 =
        lines + newlines embedded.source.toList + 1 + 1 := by omega
    show Reading.mk known (newlines embedded.source.toList + 1 + lines + 1)
      (⟨_, _, _, newlines embedded.source.toList + 1 + lines + 1⟩ :: _) [] = _
    rw [total]
    rfl
  rw [Quote.pieces, List.foldl_cons, opened, List.foldl_append, Reading.foldl_add_behind, inside]
  exact closed _ (readAll_line symbols embedded.source) (embedded.silent symbols)

end Reading

/-! ## Templates -/

/-- **The parts are read back.** All of them are read without a report, as tokens that are
the parts of a template: behind tokens of any text, and before its closing backtick. -/
theorem read_quotes {final : SymbolTable} (quotes : List Quote) {symbols : SymbolTable}
    {lines : Nat} {before : List Token} (lawful : symbols.Lawful)
    (known : ((quotes.flatMap Quote.pieces).foldl Reading.add
      (readBehind symbols lines before)).symbols.Extends final) :
    ∃ last lastLine tokens parts,
      (quotes.flatMap Quote.pieces).foldl Reading.add (readBehind symbols lines before) =
        readBehind last lastLine (tokens.reverse ++ before) ∧
      ReadBack final lines quotes parts ∧
      ∀ {front text closing}, Texts front text → closing.kind = .backtick → ∀ coin rest,
        Derives coin (.parts (joinedBehind text parts)) (front ++ (tokens ++ closing :: rest))
          rest := by
  induction quotes generalizing symbols lines before with
  | nil =>
      refine ⟨symbols, lines, [], [], rfl, .nil, ?_⟩
      intro front text closing texts closes coin rest
      exact .lastText (texts.derives coin (closing :: rest)) closes
  | cons quote quotes inductionHypothesis =>
      rw [List.flatMap_cons, List.foldl_append] at known ⊢
      cases quote with
      | text content =>
          obtain ⟨written, texts, read⟩ := read_text symbols lines before content.toList
          rw [String.ofList_toList] at texts
          rw [Quote.pieces, read] at known ⊢
          obtain ⟨last, lastLine, tokens, parts, behind, quoted, derives⟩ :=
            inductionHypothesis lawful known
          refine ⟨last, lastLine, written ++ tokens, .text content :: parts, ?_, .text quoted, ?_⟩
          · rw [behind, List.reverse_append, List.append_assoc]
          · intro front text closing earlier closes coin rest
            have more := derives (earlier.append texts) closes coin rest
            rw [List.append_assoc] at more ⊢
            exact more
      | code embedded =>
          obtain ⟨opening, closing, opens, closes, read⟩ := read_code symbols lines before embedded
          rw [read] at known ⊢
          have inside : (readAll symbols embedded.source).symbols.Extends final :=
            (Reading.foldl_add_extends _ (readBehind _ _ _)).trans known
          have lawfulBehind : (readAll symbols embedded.source).symbols.Lawful :=
            Reading.foldl_add_lawful _ lawful
          obtain ⟨value, alike, expression⟩ := Embedded.derives lawful inside (· + lines)
          obtain ⟨last, lastLine, tokens, parts, behind, quoted, derives⟩ :=
            inductionHypothesis lawfulBehind known
          let code := relabel (· + lines) (readAll symbols embedded.source).tokens.reverse
          have turned : code.reverse =
              relabel (· + lines) (readAll symbols embedded.source).tokens :=
            List.reverse_eq_iff.mpr List.map_reverse
          refine ⟨last, lastLine, opening :: (code ++ closing :: tokens),
            .shown (relabel (· + lines) value) :: parts, ?_, .code alike quoted, ?_⟩
          · rw [behind]
            simp [turned]
          · intro front text backtick texts closesTemplate coin rest
            have before := texts.derives coin
              (opening :: (code ++ closing :: (tokens ++ backtick :: rest)))
            have inner := expression coin (closing :: (tokens ++ backtick :: rest))
            have others := derives texts_nil closesTemplate coin rest
            rw [joinedBehind, List.cons_append, List.append_assoc]
            exact .shown before opens inner closes others

theorem expression_of_primary {coin : Nat → Bool} {value : Expr} {tokens rest : List Token}
    (primary : Derives coin (.primary value) tokens rest) :
    Derives coin (.expression value) tokens rest := by
  have unary : Derives coin (.unary value) tokens rest := .suffixed (.primary primary)
  have operation : Derives coin (.operation .disjunction value) tokens rest :=
    .operand (.operand (.operand (.operand (.operand (.operand unary)))))
  exact .plainExpression operation

/-- A primary expression and a semicolon are a program, and are parsed as it. -/
theorem parse_of_primary {coin : Nat → Bool} {symbols : SymbolTable} {source : String}
    {value : Expr} {semicolon : Token} (ends : semicolon.kind = .semicolon)
    (primary : Derives coin (.primary value) (readAll symbols source).tokens.reverse [semicolon]) :
    parse coin (scan symbols source).tokens = ⟨[.expression value], []⟩ := by
  have derives : Derives coin (.program [.expression value])
      (readAll symbols source).tokens.reverse [] :=
    .program (.plainStatement (.expression (expression_of_primary primary) ends)) .endOfProgram
  have accepted : ∀ stop, Accepted ⟨stop, coin⟩ (.program [.expression value])
      (readAll symbols source).tokens.reverse [] := fun _ => derives.accepted
  rw [parse_scan]
  exact accepted _

def backtickToken (line : Nat) : Token := ⟨.backtick, String.ofList ['\x60'], none, line⟩

/-- The parts are read between the backticks. -/
theorem readAll_templateSource (symbols : SymbolTable) (quotes : List Quote) :
    readAll symbols (templateSource quotes) =
      (((quotes.flatMap Quote.pieces).foldl Reading.add
        (readBehind symbols 0 [backtickToken 1])).add backtickPiece).add semicolonPiece := by
  rw [readAll, split_templateSource, List.foldl_cons, List.foldl_append]
  rfl

/-- **A template is read back.** Nothing is reported of the source, and it is parsed as one
template of its parts. -/
theorem read_template {symbols : SymbolTable} (lawful : symbols.Lawful) (quotes : List Quote) :
    ∃ parts,
      (readAll symbols (templateSource quotes)).diagnostics = [] ∧
      ReadBack (readAll symbols (templateSource quotes)).symbols 0 quotes parts ∧
      ∀ coin, parse coin (scan symbols (templateSource quotes)).tokens =
        ⟨[.expression (.template (joined parts))], []⟩ := by
  have known : ((quotes.flatMap Quote.pieces).foldl Reading.add
      (readBehind symbols 0 [backtickToken 1])).symbols.Extends
        (readAll symbols (templateSource quotes)).symbols := by
    rw [readAll_templateSource]
    exact .refl _
  obtain ⟨last, lastLine, tokens, parts, read, quoted, derives⟩ := read_quotes quotes lawful known
  refine ⟨parts, ?_, quoted, fun coin => ?_⟩
  · rw [readAll_templateSource, read]
    rfl
  · let closing := backtickToken (lastLine + 1)
    let semicolon : Token := ⟨.semicolon, ";", none, lastLine + 1⟩
    have turned : (readAll symbols (templateSource quotes)).tokens.reverse =
        backtickToken 1 :: (tokens ++ [closing, semicolon]) := by
      rw [readAll_templateSource, read]
      show (semicolon :: closing :: (tokens.reverse ++ [backtickToken 1])).reverse = _
      simp
    have closes : closing.kind = .backtick := rfl
    have inside := derives texts_nil closes coin [semicolon]
    apply parse_of_primary (rfl : semicolon.kind = .semicolon)
    rw [turned]
    exact .template rfl inside

/-! ## Values -/

/-- What the parts of a template show: each text itself, and the display of each value
as soon as it is there. The run of an expression may change the machine for the next. -/
inductive Shows (fuel : Nat) : List TemplatePart → Machine → String → Machine → Prop where
  | nil {machine : Machine} : Shows fuel [] machine "" machine
  | text {content shown : String} {parts : List TemplatePart} {before after : Machine}
      (rest : Shows fuel parts before shown after) :
      Shows fuel (.text content :: parts) before (content ++ shown) after
  | shown {expression : Expr} {value : Value} {shown : String} {parts : List TemplatePart}
      {before middle after : Machine}
      (runs : evaluate fuel expression before = .done value middle)
      (rest : Shows fuel parts middle shown after) :
      Shows fuel (.shown expression :: parts) before (middle.heap.display value ++ shown) after

theorem templateText_textParts (run : Expr → Run Value) (text earlier : String)
    (parts : List TemplatePart) :
    Run.templateText run (textParts text ++ parts) earlier =
      Run.templateText run parts (earlier ++ text) := by
  unfold textParts
  split
  next isEmpty =>
    have noText : text = "" := by simpa using isEmpty
    rw [noText, String.append_empty]
    rfl
  next => rfl

/-- Texts that meet may as well be apart. -/
theorem templateText_joinedBehind (run : Expr → Run Value) (text earlier : String)
    (parts : List TemplatePart) :
    Run.templateText run (joinedBehind text parts) earlier =
      Run.templateText run parts (earlier ++ text) := by
  induction parts generalizing text earlier with
  | nil =>
      have alone := templateText_textParts run text earlier []
      rwa [List.append_nil] at alone
  | cons part parts inductionHypothesis =>
      cases part with
      | text more =>
          rw [joinedBehind, inductionHypothesis, ← String.append_assoc]
          rfl
      | shown value =>
          rw [joinedBehind, templateText_textParts, Run.templateText, Run.templateText]
          simp only [inductionHypothesis, String.append_empty]

theorem Shows.templateText {fuel : Nat} {parts : List TemplatePart} {before after : Machine}
    {shown : String} (shows : Shows fuel parts before shown after) (earlier : String) :
    Run.templateText (evaluate fuel) parts earlier before = .done (earlier ++ shown) after := by
  induction shows generalizing earlier with
  | nil =>
      rw [String.append_empty]
      rfl
  | text rest inductionHypothesis =>
      rw [Run.templateText, inductionHypothesis, String.append_assoc]
  | @shown expression value shown parts before middle after runs rest inductionHypothesis =>
      have displayed : Run.display value middle = .done (middle.heap.display value) middle := rfl
      rw [Run.templateText, Run.bind_of_done runs, Run.bind_of_done displayed, inductionHypothesis,
        String.append_assoc]

/-- The value of a template is what its parts show. -/
theorem Shows.evaluate {fuel : Nat} {parts : List TemplatePart} {before after : Machine}
    {shown : String} (shows : Shows fuel parts before shown after) :
    Scriptlet.evaluate (fuel + 1) (.template (joined parts)) before =
      .done (.string shown) after := by
  have text : Run.templateText (Scriptlet.evaluate fuel) (joined parts) "" before =
      .done shown after := by
    rw [joined, templateText_joinedBehind, shows.templateText, String.empty_append,
      String.empty_append]
  rw [Scriptlet.evaluate, Run.bind_of_done text]
  rfl

/-! ## Main statement -/

/-- **Templates quote texts and embed expressions.** A template written from any parts is
scanned and parsed without a report. It is one expression, the template of these parts:
texts as they are given, those that meet in one and empty ones left out, and expressions
as their sources say, but for their lines. Its value is the texts and the displays of the
values in turn, where the expressions have values. -/
theorem templates_quote {symbols : SymbolTable} (lawful : symbols.Lawful) (quotes : List Quote)
    (coin : Nat → Bool) :
    ∃ parts,
      (scan symbols (templateSource quotes)).diagnostics = [] ∧
      parse coin (scan symbols (templateSource quotes)).tokens =
        ⟨[.expression (.template (joined parts))], []⟩ ∧
      ReadBack (scan symbols (templateSource quotes)).symbols 0 quotes parts ∧
      ∀ fuel before shown after, Shows fuel parts before shown after →
        evaluate (fuel + 1) (.template (joined parts)) before = .done (.string shown) after := by
  obtain ⟨parts, silent, quoted, parsed⟩ := read_template lawful quotes
  refine ⟨parts, ?_, parsed coin, ?_, fun fuel before shown after shows => shows.evaluate⟩
  · rw [scan_eq_finish, split_templateSource]
    exact List.reverse_eq_nil_iff.mpr silent
  · rw [scan_symbols]
    exact quoted

/-! ### A template in a template -/

/-- A template with a comment behind it, in which a brace closes nothing. -/
def nestedSource : String := "\x60$\x7bnil\x7d\x60 // \x7d"

theorem read_nestedSource :
    (readAll .initial (completed nestedSource)).tokens.reverse =
      [⟨.backtick, "\x60", none, 1⟩, ⟨.dollarBrace, "$\x7b", none, 1⟩, ⟨.nilWord, "nil", none, 1⟩,
        ⟨.rightBrace, "\x7d", none, 1⟩, ⟨.backtick, "\x60", none, 1⟩,
        ⟨.semicolon, ";", none, 2⟩] := by
  rfl

theorem parse_nestedSource :
    parse (fun _ => true) (scan .initial (completed nestedSource)).tokens =
      ⟨[.expression (.template [.shown (.constant .nil)])], []⟩ := by
  let semicolon : Token := ⟨.semicolon, ";", none, 2⟩
  apply parse_of_primary (rfl : semicolon.kind = .semicolon)
  rw [read_nestedSource]
  apply Derives.template rfl
  apply Derives.shown .noTexts rfl (expression_of_primary (.nilLiteral rfl)) rfl
  exact .lastText .noTexts rfl

def nestedNil : Embedded where
  source := nestedSource
  value := .template [.shown (.constant .nil)]
  table := .initial
  coin := fun _ => true
  lawful := SymbolTable.initial_lawful
  scans := by decide +kernel
  parses := parse_nestedSource
  sure := by decide +kernel

/-- It has no names, so it is the same with any table. -/
theorem nestedNil_alike {symbols : Symbol → Symbol → Prop} {value : Expr}
    (alike : nestedNil.value.Alike symbols value) : value = nestedNil.value := by
  cases alike with
  | template all =>
      obtain ⟨part, others, isShown, noMore, rfl⟩ := List.forall₂_cons_left_iff.mp all
      cases List.forall₂_nil_left_iff.mp noMore
      cases isShown with
      | shown same =>
          cases same
          rfl

theorem nested_template_quoted :
    parse (fun _ => true)
        (scan .initial
          (templateSource [.text "$", .text "\x60", .code nestedNil, .text ""])).tokens =
      ⟨[.expression (.template [.text "$\x60", .shown nestedNil.value])], []⟩ ∧
    ∀ machine, evaluate 4 (.template [.text "$\x60", .shown nestedNil.value]) machine =
      .done (.string "$\x60nil") machine := by
  obtain ⟨parts, -, parsed, quoted, shows⟩ := templates_quote SymbolTable.initial_lawful
    [.text "$", .text "\x60", .code nestedNil, .text ""] (fun _ => true)
  obtain _ | rest := quoted
  obtain _ | rest := rest
  obtain _ | _ | ⟨same, rest⟩ := rest
  obtain _ | rest := rest
  cases rest
  rw [nestedNil_alike same] at parsed shows
  refine ⟨parsed, fun machine => ?_⟩
  have runs : evaluate 3 nestedNil.value machine = .done (.string "nil") machine := rfl
  exact shows 3 machine _ _ (Shows.text (Shows.text (Shows.shown runs (.text .nil))))

end Scriptlet
