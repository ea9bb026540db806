import Scriptlet.Report

/-!
Contract: the first piece of a source text.

A source text is a sequence of pieces: tokens, blanks, comments and errors.
Each piece is cut off the front of what is left, and its text together with the
rest is what was there.

Owns: `Piece`, the two ways of cutting one (`codePiece` in code,
`templatePiece` between backticks), and `Nesting`, which says which way
applies. Main statement: `firstPiece_text`, by which cutting loses nothing.

Does not own: line numbers, symbols and the values of literals
(`Scriptlet.Lexical.Scan`).
-/

set_option autoImplicit false

namespace Scriptlet

/-- What a piece of source text is. -/
inductive Shape where
  | blank
  | comment
  | wrong (problem : Problem)
  | mark (kind : Kind)
  | word
  | number (whole fraction : List Char)
  | string (content : List Char)
  | templateText (content : Char)
deriving DecidableEq, Repr

structure Piece where
  shape : Shape
  text : List Char
deriving DecidableEq, Repr

/-! ## Pieces of code -/

def startsWord (c : Char) : Bool :=
  c.isAlpha || c == '_'

def continuesWord (c : Char) : Bool :=
  c.isAlphanum || c == '_'

def markPiece (kind : Kind) (c : Char) (rest : List Char) : Piece × List Char :=
  (⟨.mark kind, [c]⟩, rest)

/-- An operator that an equals sign makes another one. -/
def operatorPiece (joined alone : Kind) (c : Char) :
    List Char → Piece × List Char
  | '=' :: rest => (⟨.mark joined, [c, '=']⟩, rest)
  | rest => (⟨.mark alone, [c]⟩, rest)

/-- A division sign, or a comment up to the end of its line. -/
def slashPiece : List Char → Piece × List Char
  | '/' :: rest =>
      (⟨.comment, '/' :: '/' :: rest.takeWhile (· != '\n')⟩, rest.dropWhile (· != '\n'))
  | rest => operatorPiece .slashEqual .slash '/' rest

/-- A string up to its closing `quote`, all of whose characters are `inside`. -/
def stringPiece (quote : Char) (inside : Char → Bool) (rest : List Char) :
    Piece × List Char :=
  let content := rest.takeWhile inside
  match rest.dropWhile inside with
  | [] => (⟨.wrong .unterminatedString, quote :: content⟩, [])
  | c :: after =>
      if c = quote then (⟨.string content, quote :: content ++ [quote]⟩, after)
      else (⟨.wrong .unterminatedString, quote :: content⟩, c :: after)

/-- A number. A point belongs to it only if a digit follows. -/
def numberPiece (c : Char) (rest : List Char) : Piece × List Char :=
  let whole := c :: rest.takeWhile Char.isDigit
  match rest.dropWhile Char.isDigit with
  | '.' :: d :: after =>
      if d.isDigit then
        let fraction := d :: after.takeWhile Char.isDigit
        (⟨.number whole fraction, whole ++ '.' :: fraction⟩, after.dropWhile Char.isDigit)
      else (⟨.number whole [], whole⟩, '.' :: d :: after)
  | after => (⟨.number whole [], whole⟩, after)

def wordPiece (c : Char) (rest : List Char) : Piece × List Char :=
  (⟨.word, c :: rest.takeWhile continuesWord⟩, rest.dropWhile continuesWord)

/-- The first piece of the code `c :: rest`, and what follows it. A string in
double quotes ends on its line; one in single quotes may go on. -/
def codePiece (c : Char) (rest : List Char) : Piece × List Char :=
  match c with
  | '(' => markPiece .leftParen c rest
  | ')' => markPiece .rightParen c rest
  | '[' => markPiece .leftBracket c rest
  | ']' => markPiece .rightBracket c rest
  | '\x7b' => markPiece .leftBrace c rest
  | '\x7d' => markPiece .rightBrace c rest
  | ',' => markPiece .comma c rest
  | '.' => markPiece .dot c rest
  | ';' => markPiece .semicolon c rest
  | ':' => markPiece .colon c rest
  | '%' => markPiece .percent c rest
  | '\x60' => markPiece .backtick c rest
  | '-' => operatorPiece .minusEqual .minus c rest
  | '+' => operatorPiece .plusEqual .plus c rest
  | '*' => operatorPiece .starEqual .star c rest
  | '!' => operatorPiece .bangEqual .bang c rest
  | '=' => operatorPiece .equalEqual .equal c rest
  | '<' => operatorPiece .lessEqual .less c rest
  | '>' => operatorPiece .greaterEqual .greater c rest
  | '/' => slashPiece rest
  | ' ' | '\r' | '\t' | '\n' => (⟨.blank, [c]⟩, rest)
  | '\x22' => stringPiece c (fun x => x != '\x22' && x != '\n') rest
  | '\x27' => stringPiece c (· != '\x27') rest
  | _ =>
      if c.isDigit then numberPiece c rest
      else if startsWord c then wordPiece c rest
      else (⟨.wrong (.unexpectedCharacter c), [c]⟩, rest)

/-! ## Pieces of templates -/

/-- The first piece of the template text `c :: rest`, and what follows it. A
backslash takes the next character as it is. -/
def templatePiece (c : Char) (rest : List Char) : Piece × List Char :=
  match c, rest with
  | '\x60', _ => (⟨.mark .backtick, [c]⟩, rest)
  | '$', '\x7b' :: after => (⟨.mark .dollarBrace, [c, '\x7b']⟩, after)
  | '\\', escaped :: after => (⟨.templateText escaped, [c, escaped]⟩, after)
  | _, _ => (⟨.templateText c, [c]⟩, rest)

/-! ## Nesting -/

/-- A template, or code inside one, with the number of braces open in it. -/
inductive Layer where
  | template
  | interpolation (depth : Nat)
deriving DecidableEq, Repr

/-- The layers around a point of the source, innermost first. There are none in
plain code. -/
abbrev Nesting := List Layer

/-- The nesting after a piece. -/
def Nesting.after (nesting : Nesting) (shape : Shape) : Nesting :=
  match shape, nesting with
  | .mark .backtick, .template :: outer => outer
  | .mark .backtick, _ => .template :: nesting
  | .mark .dollarBrace, _ => .interpolation 0 :: nesting
  | .mark .leftBrace, .interpolation depth :: outer => .interpolation (depth + 1) :: outer
  | .mark .rightBrace, .interpolation 0 :: outer => outer
  | .mark .rightBrace, .interpolation (depth + 1) :: outer => .interpolation depth :: outer
  | _, _ => nesting

/-- The first piece of `c :: rest` inside the given layers. -/
def firstPiece (nesting : Nesting) (c : Char) (rest : List Char) : Piece × List Char :=
  match nesting with
  | .template :: _ => templatePiece c rest
  | _ => codePiece c rest

/-! ## Nothing is lost

The text of a piece and what follows it are the text it was cut from, and no
piece is empty. -/

theorem operatorPiece_text (joined alone : Kind) (c : Char) (rest : List Char) :
    (operatorPiece joined alone c rest).1.text ++ (operatorPiece joined alone c rest).2 =
      c :: rest := by
  unfold operatorPiece
  split <;> rfl

theorem slashPiece_text (rest : List Char) :
    (slashPiece rest).1.text ++ (slashPiece rest).2 = '/' :: rest := by
  unfold slashPiece
  split
  · simp
  · exact operatorPiece_text ..

theorem stringPiece_text (quote : Char) (inside : Char → Bool) (rest : List Char) :
    (stringPiece quote inside rest).1.text ++ (stringPiece quote inside rest).2 =
      quote :: rest := by
  have whole : rest.takeWhile inside ++ rest.dropWhile inside = rest :=
    List.takeWhile_append_dropWhile
  unfold stringPiece
  split
  next tail => simpa [tail] using whole
  next c after tail =>
    rw [tail] at whole
    split
    next same => subst same; simpa using whole
    next => simpa using whole

theorem numberPiece_text (c : Char) (rest : List Char) :
    (numberPiece c rest).1.text ++ (numberPiece c rest).2 = c :: rest := by
  have whole : rest.takeWhile Char.isDigit ++ rest.dropWhile Char.isDigit = rest :=
    List.takeWhile_append_dropWhile
  unfold numberPiece
  split
  next d after tail =>
    rw [tail] at whole
    split <;> simpa using whole
  next => simp

theorem wordPiece_text (c : Char) (rest : List Char) :
    (wordPiece c rest).1.text ++ (wordPiece c rest).2 = c :: rest := by
  simp [wordPiece]

theorem codePiece_text (c : Char) (rest : List Char) :
    (codePiece c rest).1.text ++ (codePiece c rest).2 = c :: rest := by
  unfold codePiece
  split
  case h_13 | h_14 | h_15 | h_16 | h_17 | h_18 | h_19 => exact operatorPiece_text ..
  case h_20 => exact slashPiece_text ..
  case h_25 | h_26 => exact stringPiece_text ..
  case h_27 =>
    split
    · exact numberPiece_text ..
    · split
      · exact wordPiece_text ..
      · rfl
  all_goals rfl

theorem templatePiece_text (c : Char) (rest : List Char) :
    (templatePiece c rest).1.text ++ (templatePiece c rest).2 = c :: rest := by
  unfold templatePiece
  split <;> rfl

theorem firstPiece_text (nesting : Nesting) (c : Char) (rest : List Char) :
    (firstPiece nesting c rest).1.text ++ (firstPiece nesting c rest).2 = c :: rest := by
  unfold firstPiece
  split
  · exact templatePiece_text ..
  · exact codePiece_text ..

theorem operatorPiece_text_ne_nil (joined alone : Kind) (c : Char) (rest : List Char) :
    (operatorPiece joined alone c rest).1.text ≠ [] := by
  unfold operatorPiece
  split <;> simp

theorem codePiece_text_ne_nil (c : Char) (rest : List Char) :
    (codePiece c rest).1.text ≠ [] := by
  unfold codePiece
  split
  case h_13 | h_14 | h_15 | h_16 | h_17 | h_18 | h_19 => exact operatorPiece_text_ne_nil _ _ _ _
  case h_20 =>
    unfold slashPiece
    split
    · simp
    · exact operatorPiece_text_ne_nil _ _ _ _
  case h_25 | h_26 =>
    unfold stringPiece
    split
    · simp
    · split <;> simp
  case h_27 =>
    split
    · unfold numberPiece
      split
      · split <;> simp
      · simp
    · split <;> simp [wordPiece]
  all_goals simp [markPiece]

theorem firstPiece_text_ne_nil (nesting : Nesting) (c : Char) (rest : List Char) :
    (firstPiece nesting c rest).1.text ≠ [] := by
  unfold firstPiece
  split
  · unfold templatePiece
    split <;> simp
  · exact codePiece_text_ne_nil _ _

theorem firstPiece_rest_length_le (nesting : Nesting) (c : Char) (rest : List Char) :
    (firstPiece nesting c rest).2.length ≤ rest.length := by
  have lengths := congrArg List.length (firstPiece_text nesting c rest)
  have nonempty := List.length_pos_iff.mpr (firstPiece_text_ne_nil nesting c rest)
  simp only [List.length_append, List.length_cons] at lengths
  omega

end Scriptlet
