import Scriptlet.Proofs.Grammar.Sequence
import Scriptlet.Proofs.Lexical.LineEnds

/-!
Contract: two sources scanned as one.

Owns: the laws of reading pieces one after the other: what is read does not
depend on what was read before, but for the symbols and the number of the line
(`foldl_add_behind`); `Closes`, by which a source leaves nothing open at its end;
and that such a source and a second one on the lines after it are scanned in turn
(`scan_append_newline`). Main statement: `scan_splits_at_newline`, which says so of
sources with errors, by what is reported of them.

Does not own: where pieces end (`Scriptlet.Proofs.Lexical.Boundary`).
-/

set_option autoImplicit false

namespace Scriptlet

namespace Reading

/-! ## What was read before -/

/-- What has been read, `shift` lines further down and behind what was read
before. -/
def behind (shift : Nat) (before : List Token) (reported : List Diagnostic) (reading : Reading) :
    Reading :=
  ⟨reading.symbols, reading.line + shift, relabel (· + shift) reading.tokens ++ before,
    relabel (· + shift) reading.diagnostics ++ reported⟩

section Behind

variable (shift : Nat) (before : List Token) (reported : List Diagnostic) (reading : Reading)

theorem word_behind (text : List Char) :
    (reading.behind shift before reported).word text =
      (reading.word text).behind shift before reported := by
  simp only [word, behind]
  split <;> rfl

/-- A piece is read in the same way further down. -/
theorem add_behind (piece : Piece) :
    (reading.behind shift before reported).add piece =
      (reading.add piece).behind shift before reported := by
  have lines : { reading.behind shift before reported with
        line := reading.line + shift + piece.lineEnds } =
      { reading with line := reading.line + piece.lineEnds }.behind shift before reported := by
    simp only [behind, Nat.add_right_comm]
  unfold add
  simp only [show (reading.behind shift before reported).line = reading.line + shift from rfl, lines]
  cases piece.shape with
  | word => exact word_behind ..
  | _ => rfl

theorem foldl_add_behind (pieces : List Piece) :
    pieces.foldl add (reading.behind shift before reported) =
      (pieces.foldl add reading).behind shift before reported := by
  induction pieces generalizing reading with
  | nil => rfl
  | cons piece pieces inductionHypothesis =>
      rw [List.foldl_cons, List.foldl_cons, add_behind, inductionHypothesis]

end Behind

/-! ## One piece -/

theorem word_line (reading : Reading) (text : List Char) :
    (reading.word text).line = reading.line := by
  unfold word
  simp only
  split <;> rfl

theorem word_diagnostics (reading : Reading) (text : List Char) :
    (reading.word text).diagnostics = reading.diagnostics := by
  unfold word
  simp only
  split <;> rfl

theorem add_line (reading : Reading) (piece : Piece) :
    (reading.add piece).line = reading.line + piece.lineEnds := by
  unfold add
  cases piece.shape with
  | word => exact word_line ..
  | _ => rfl

theorem add_diagnostics (reading : Reading) (piece : Piece) :
    (reading.add piece).diagnostics =
      match piece.shape with
      | .wrong problem =>
          ⟨⟨reading.line + piece.lineEnds, .unknown⟩, problem⟩ :: reading.diagnostics
      | _ => reading.diagnostics := by
  unfold add
  cases piece.shape with
  | word => exact word_diagnostics ..
  | _ => rfl

/-- A word is no end of input. -/
theorem word_endFree {reading : Reading} (text : List Char)
    (free : Grammar.EndFree reading.tokens) : Grammar.EndFree (reading.word text).tokens := by
  have wordKinds : ∀ pair ∈ Kind.reservedWords, pair.2 ≠ .endOfInput := by decide
  unfold word
  simp only
  split
  next kind reserved =>
    obtain ⟨word, isWord⟩ := SymbolTable.reserved?_word reserved
    exact List.forall_mem_cons.mpr ⟨wordKinds _ isWord, free⟩
  next => exact List.forall_mem_cons.mpr ⟨by simp, free⟩

theorem add_endFree {reading : Reading} {piece : Piece} (free : Grammar.EndFree reading.tokens)
    (noEnd : piece.shape ≠ .mark .endOfInput) : Grammar.EndFree (reading.add piece).tokens := by
  unfold add
  cases shape : piece.shape with
  | blank | comment | wrong problem => exact free
  | mark kind =>
      refine List.forall_mem_cons.mpr ⟨fun isEnd => noEnd ?_, free⟩
      rw [shape]
      exact congrArg Shape.mark isEnd
  | word => exact word_endFree _ free
  | number whole fraction => exact List.forall_mem_cons.mpr ⟨by simp, free⟩
  | string content => exact List.forall_mem_cons.mpr ⟨by simp, free⟩
  | templateText content => exact List.forall_mem_cons.mpr ⟨by simp, free⟩

/-! ## All pieces -/

theorem foldl_add_line (pieces : List Piece) (reading : Reading) :
    (pieces.foldl add reading).line = reading.line + (pieces.map Piece.lineEnds).sum := by
  induction pieces generalizing reading with
  | nil => rfl
  | cons piece pieces inductionHypothesis =>
      rw [List.foldl_cons, inductionHypothesis, add_line, List.map_cons, List.sum_cons,
        Nat.add_assoc]

/-- Where nothing was reported, no piece was wrong. -/
theorem foldl_add_clean {pieces : List Piece} {reading : Reading}
    (clean : (pieces.foldl add reading).diagnostics = []) :
    reading.diagnostics = [] ∧ ∀ piece ∈ pieces, ∀ problem, piece.shape ≠ .wrong problem := by
  induction pieces generalizing reading with
  | nil => exact ⟨clean, by simp⟩
  | cons piece pieces inductionHypothesis =>
      obtain ⟨cleanBefore, others⟩ := inductionHypothesis clean
      rw [add_diagnostics] at cleanBefore
      cases shape : piece.shape with
      | wrong problem => simp [shape] at cleanBefore
      | _ =>
          simp only [shape] at cleanBefore
          exact ⟨cleanBefore, by simpa [shape] using others⟩

theorem foldl_add_endFree {pieces : List Piece} (reading : Reading)
    (free : Grammar.EndFree reading.tokens)
    (noEnd : ∀ piece ∈ pieces, piece.shape ≠ .mark .endOfInput) :
    Grammar.EndFree (pieces.foldl add reading).tokens := by
  induction pieces generalizing reading with
  | nil => exact free
  | cons piece pieces inductionHypothesis =>
      exact inductionHypothesis _ (add_endFree free (noEnd piece (by simp)))
        fun later inside => noEnd later (by simp [inside])

end Reading

/-! ## Sources -/

theorem operatorPiece_mark {joined alone : Kind}
    (spelled : joined.spelling ≠ "" ∧ alone.spelling ≠ "") {c : Char} {rest : List Char} {kind : Kind}
    (isMark : (operatorPiece joined alone c rest).1.shape = .mark kind) : kind.spelling ≠ "" := by
  unfold operatorPiece at isMark
  split at isMark
  · cases isMark
    exact spelled.1
  · cases isMark
    exact spelled.2

theorem stringPiece_mark (quote : Char) (inside : Char → Bool) (rest : List Char) (kind : Kind) :
    (stringPiece quote inside rest).1.shape ≠ .mark kind := by
  unfold stringPiece
  split
  · simp
  · split <;> simp

theorem numberPiece_mark (c : Char) (rest : List Char) (kind : Kind) :
    (numberPiece c rest).1.shape ≠ .mark kind := by
  unfold numberPiece
  split
  · split <;> simp
  · simp

theorem codePiece_mark {c : Char} {rest : List Char} {kind : Kind}
    (isMark : (codePiece c rest).1.shape = .mark kind) : kind.spelling ≠ "" := by
  unfold codePiece at isMark
  split at isMark
  case h_13 | h_14 | h_15 | h_16 | h_17 | h_18 | h_19 =>
    exact operatorPiece_mark (by decide) isMark
  case h_20 =>
    unfold slashPiece at isMark
    split at isMark
    · cases isMark
    · exact operatorPiece_mark (by decide) isMark
  case h_25 | h_26 => exact absurd isMark (stringPiece_mark _ _ _ _)
  case h_27 =>
    split at isMark
    · exact absurd isMark (numberPiece_mark _ _ _)
    · split at isMark <;> cases isMark
  all_goals cases isMark <;> decide

/-- Marks are punctuation: neither words nor the end of input. -/
theorem firstPiece_mark {nesting : Nesting} {c : Char} {rest : List Char} {kind : Kind}
    (isMark : (firstPiece nesting c rest).1.shape = .mark kind) : kind.spelling ≠ "" := by
  unfold firstPiece at isMark
  split at isMark
  · unfold templatePiece at isMark
    split at isMark <;> cases isMark <;> decide
  · exact codePiece_mark isMark

theorem cut_mark (nesting : Nesting) (source : List Char) :
    ∀ piece ∈ (cut nesting source).pieces, ∀ kind, piece.shape = .mark kind →
      kind.spelling ≠ "" := by
  induction nesting, source using cut_induction with
  | nil nesting => simp [cut_nil]
  | cons nesting c rest inductionHypothesis =>
      rw [cut_cons]
      exact List.forall_mem_cons.mpr ⟨fun kind => firstPiece_mark, inductionHypothesis⟩

/-- What has been read when all pieces of a source have been. -/
def readAll (symbols : SymbolTable) (source : String) : Reading :=
  (split source.toList).pieces.foldl Reading.add ⟨symbols, 1, [], []⟩

/-- The end of a scan, with an error if a template is open. -/
def Reading.finish (nesting : Nesting) (reading : Reading) : Scan :=
  let reading := if nesting.isEmpty then reading else reading.report .unterminatedTemplate
  { tokens := (Token.endOfInput reading.line :: reading.tokens).reverse
    diagnostics := reading.diagnostics.reverse
    symbols := reading.symbols }

theorem Reading.finish_line (nesting : Nesting) (reading : Reading) :
    (if nesting.isEmpty then reading else reading.report .unterminatedTemplate).line =
      reading.line := by
  split <;> rfl

section Scanning

variable (symbols : SymbolTable) (source : String)

theorem scan_eq_finish :
    scan symbols source = (readAll symbols source).finish (split source.toList).nesting := rfl

theorem readAll_line : (readAll symbols source).line = newlines source.toList + 1 := by
  rw [readAll, Reading.foldl_add_line, split_eq_cut, cut_lineEnds, Nat.add_comm]

theorem readAll_endFree : Grammar.EndFree (readAll symbols source).tokens.reverse := by
  have free := Reading.foldl_add_endFree ⟨symbols, 1, [], []⟩ (by simp [Grammar.EndFree])
    fun piece inside isEnd => cut_mark [] source.toList piece inside _ isEnd rfl
  exact fun token inside => free token (List.mem_reverse.mp inside)

/-- The tokens of a source are those read and the end of input, which is on its
last line. -/
theorem scan_tokens :
    (scan symbols source).tokens =
      (readAll symbols source).tokens.reverse ++
        [Token.endOfInput (newlines source.toList + 1)] := by
  rw [← readAll_line symbols source, scan_eq_finish, Reading.finish]
  simp only [List.reverse_cons, Reading.finish_line]
  split <;> rfl

theorem scan_symbols : (scan symbols source).symbols = (readAll symbols source).symbols := by
  rw [scan_eq_finish, Reading.finish]
  split <;> rfl

/-- The tokens of a source before the end of input. -/
theorem bodyTokens_scan :
    Grammar.bodyTokens (scan symbols source).tokens = (readAll symbols source).tokens.reverse := by
  have free := readAll_endFree symbols source
  rw [scan_tokens, Grammar.bodyTokens, Grammar.ended_append_stop _ rfl,
    List.takeWhile_append_of_pos (by simpa [Grammar.EndFree] using free)]
  simp [Token.endOfInput]

variable {symbols source}

/-- Where scanning reports nothing, nothing was reported of any piece, no piece is
wrong and no template is open. -/
theorem split_of_clean (clean : (scan symbols source).diagnostics = []) :
    (readAll symbols source).diagnostics = [] ∧ (split source.toList).nesting = [] ∧
      ∀ piece ∈ (split source.toList).pieces, ∀ problem, piece.shape ≠ .wrong problem := by
  rw [scan_eq_finish, Reading.finish] at clean
  simp only [List.reverse_eq_nil_iff] at clean
  split at clean
  next level => exact ⟨clean, List.isEmpty_iff.mp level, (Reading.foldl_add_clean clean).2⟩
  next => cases clean

/-- A source that leaves nothing open at its end: no template, and no string in single
quotes. A string in double quotes ends with its line in any case. -/
structure Closes (source : String) : Prop where
  level : (split source.toList).nesting = []
  strings : ∀ piece ∈ (split source.toList).pieces, ¬ piece.Unclosed

theorem closes_of_clean (clean : (scan symbols source).diagnostics = []) : Closes source where
  level := (split_of_clean clean).2.1
  strings piece inside isOpen := (split_of_clean clean).2.2 piece inside _ isOpen.1

/-- A template that is open at the end is reported. -/
theorem level_of_reports (reports : ∀ diagnostic ∈ (scan symbols source).diagnostics,
      diagnostic.problem ≠ .unterminatedTemplate) : (split source.toList).nesting = [] := by
  rw [scan_eq_finish, Reading.finish] at reports
  dsimp only at reports
  split at reports
  next level => exact List.isEmpty_iff.mp level
  next =>
    refine absurd rfl (reports ⟨⟨(readAll symbols source).line, .unknown⟩, _⟩ ?_)
    exact List.mem_reverse.mpr List.mem_cons_self

theorem split_append_newline (closes : Closes source) (more : String) :
    split (source ++ "\n" ++ more).toList =
      ⟨(split source.toList).pieces ++ newlinePiece :: (split more.toList).pieces,
        (split more.toList).nesting⟩ := by
  have lists : (source ++ "\n" ++ more).toList = source.toList ++ '\n' :: more.toList := by
    simp [String.toList_append]
  rw [lists]
  exact cut_append_newline more.toList [] source.toList closes.strings closes.level

/-- The second source is read `newlines source + 1` lines further down. -/
theorem readAll_append_newline (closes : Closes source) (more : String) :
    readAll symbols (source ++ "\n" ++ more) =
      (readAll (readAll symbols source).symbols more).behind (newlines source.toList + 1)
        (readAll symbols source).tokens (readAll symbols source).diagnostics := by
  have line := readAll_line symbols source
  have afterNewline : (readAll symbols source).add newlinePiece =
      (⟨(readAll symbols source).symbols, 1, [], []⟩ : Reading).behind (newlines source.toList + 1)
        (readAll symbols source).tokens (readAll symbols source).diagnostics := by
    show (⟨_, (readAll symbols source).line + 1, _, _⟩ : Reading) = _
    rw [line, Nat.add_comm]
    rfl
  rw [readAll, split_append_newline closes, List.foldl_append, List.foldl_cons]
  show (split more.toList).pieces.foldl Reading.add ((readAll symbols source).add newlinePiece) = _
  rw [afterNewline, Reading.foldl_add_behind]
  rfl

/-- Where no template is open, what is reported is what was reported of the pieces. -/
theorem scan_diagnostics (level : (split source.toList).nesting = []) :
    (scan symbols source).diagnostics = (readAll symbols source).diagnostics.reverse := by
  rw [scan_eq_finish, Reading.finish, level]
  rfl

/-- **Two sources on consecutive lines.** A source that leaves nothing open is scanned as
if it stood alone, and the next one with the symbols known by then and with its lines
numbered on. -/
theorem scan_append_newline (closes : Closes source) (more : String) :
    scan symbols (source ++ "\n" ++ more) =
      { tokens := Grammar.bodyTokens (scan symbols source).tokens ++
          relabel (· + (newlines source.toList + 1)) (scan (scan symbols source).symbols more).tokens
        diagnostics := (scan symbols source).diagnostics ++
          relabel (· + (newlines source.toList + 1))
            (scan (scan symbols source).symbols more).diagnostics
        symbols := (scan (scan symbols source).symbols more).symbols } := by
  rw [bodyTokens_scan, scan_diagnostics closes.level, scan_symbols symbols source, scan_eq_finish,
    scan_eq_finish, readAll_append_newline closes, split_append_newline closes]
  generalize readAll (readAll symbols source).symbols more = reading
  simp only [Reading.finish]
  split <;> simp [Reading.behind, Reading.report, relabel, Token.endOfInput]

/-- **Sources with errors are scanned line by line.** If neither an open template nor an
open string in single quotes is reported of a source, whatever else is, its tokens without
the end of input go before those of the next source, and so does what is reported. The
lines of the next source are numbered on. -/
theorem scan_splits_at_newline
    (noTemplate : ∀ diagnostic ∈ (scan symbols source).diagnostics,
      diagnostic.problem ≠ .unterminatedTemplate)
    (noString : ∀ piece ∈ (split source.toList).pieces, ¬ piece.Unclosed) (more : String) :
    ∃ tokens,
      (scan symbols source).tokens = tokens ++ [Token.endOfInput (newlines source.toList + 1)] ∧
      Grammar.EndFree tokens ∧
      scan symbols (source ++ "\n" ++ more) =
        { tokens := tokens ++ relabel (· + (newlines source.toList + 1))
            (scan (scan symbols source).symbols more).tokens
          diagnostics := (scan symbols source).diagnostics ++
            relabel (· + (newlines source.toList + 1))
              (scan (scan symbols source).symbols more).diagnostics
          symbols := (scan (scan symbols source).symbols more).symbols } := by
  have closes : Closes source := ⟨level_of_reports noTemplate, noString⟩
  refine ⟨Grammar.bodyTokens (scan symbols source).tokens, ?_, ?_, scan_append_newline closes more⟩
  · rw [bodyTokens_scan]
    exact scan_tokens symbols source
  · rw [bodyTokens_scan]
    exact readAll_endFree symbols source

end Scanning

/-- What a token is, and on which line it ends. -/
def Token.shown (token : Token) : Kind × String × Nat :=
  (token.kind, token.lexeme, token.line)

/-- A character that is no code, a string over two lines, and one that is open. -/
def openQuote : String :=
  "n # 'a\nb' \"open"

/-- The open string ends with its line, and the next line is scanned from there. -/
theorem openQuote_splits_at_newline :
    (∀ diagnostic ∈ (scan .initial openQuote).diagnostics,
      diagnostic.problem ≠ .unterminatedTemplate) ∧
    (∀ piece ∈ (split openQuote.toList).pieces, ¬ piece.Unclosed) ∧
    (scan .initial (openQuote ++ "\n" ++ "m$")).tokens.map Token.shown =
      [(.identifier, "n", 1), (.string, "'a\nb'", 2), (.identifier, "m", 3),
        (.endOfInput, "", 3)] ∧
    (scan .initial (openQuote ++ "\n" ++ "m$")).diagnostics =
      [⟨⟨1, .unknown⟩, .unexpectedCharacter '#'⟩, ⟨⟨2, .unknown⟩, .unterminatedString⟩,
        ⟨⟨3, .unknown⟩, .unexpectedCharacter '$'⟩] := by
  have noTemplate : ∀ diagnostic ∈ (scan .initial openQuote).diagnostics,
      diagnostic.problem ≠ .unterminatedTemplate := by
    decide +kernel
  have noString : ∀ piece ∈ (split openQuote.toList).pieces, ¬ piece.Unclosed := by
    decide +kernel
  obtain ⟨tokens, first, -, both⟩ := scan_splits_at_newline noTemplate noString "m$"
  have shown : (scan .initial openQuote).tokens.map Token.shown =
      [(.identifier, "n", 1), (.string, "'a\nb'", 2)] ++ [(.endOfInput, "", 2)] := by
    decide +kernel
  have lastLine : newlines openQuote.toList + 1 = 2 := by
    decide +kernel
  rw [first, List.map_append] at shown
  rw [both]
  refine ⟨noTemplate, noString, ?_, ?_⟩
  · rw [List.map_append, List.append_inj_left' shown rfl, lastLine]
    decide +kernel
  · rw [lastLine]
    show (scan .initial openQuote).diagnostics ++ relabel (· + 2)
      (scan (scan .initial openQuote).symbols "m$").diagnostics = _
    decide +kernel

end Scriptlet
