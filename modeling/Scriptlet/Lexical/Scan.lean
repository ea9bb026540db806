import Scriptlet.Lexical.Split
import Scriptlet.Lexical.Token

/-!
Contract: the tokens of a source text.

Owns: `scan`, which gives each piece its line, each word its symbol and each
literal its value, and collects tokens and diagnostics. The line of a token,
and of an error, is the one on which its piece ends.
-/

set_option autoImplicit false

namespace Scriptlet

def newlines (text : List Char) : Nat :=
  text.count '\n'

/-- The line ends that are met in reading a piece: one between tokens, those inside
single quotes whether or not they are closed, and one among the characters of a
template. All other pieces end with their line at the latest. -/
def Piece.lineEnds (piece : Piece) : Nat :=
  match piece.shape, piece.text with
  | .blank, ['\n'] => 1
  | .string content, '\x27' :: _ => newlines content
  | .wrong .unterminatedString, '\x27' :: content => newlines content
  | .templateText '\n', _ => 1
  | _, _ => 0

/-- What has been read so far. The latest token and the latest diagnostic come
first. -/
structure Reading where
  symbols : SymbolTable
  line : Nat
  tokens : List Token
  diagnostics : List Diagnostic

namespace Reading

def token (reading : Reading) (kind : Kind) (text : List Char)
    (literal : Option Literal) : Reading :=
  { reading with
    tokens := ⟨kind, String.ofList text, literal, reading.line⟩ :: reading.tokens }

def word (reading : Reading) (text : List Char) : Reading :=
  let (symbol, symbols) := reading.symbols.intern (String.ofList text)
  let reading := { reading with symbols }
  match symbols.reserved? symbol with
  | some kind => reading.token kind text none
  | none => reading.token .identifier text (some (.identifier symbol))

def report (reading : Reading) (problem : Problem) : Reading :=
  { reading with
    diagnostics := ⟨⟨reading.line, .unknown⟩, problem⟩ :: reading.diagnostics }

/-- Reads one more piece. -/
def add (reading : Reading) (piece : Piece) : Reading :=
  let reading := { reading with line := reading.line + piece.lineEnds }
  match piece.shape with
  | .blank | .comment => reading
  | .wrong problem => reading.report problem
  | .mark kind => reading.token kind piece.text none
  | .word => reading.word piece.text
  | .number whole fraction =>
      reading.token .number piece.text (some (.number (Number.ofDigits whole fraction)))
  | .string content =>
      reading.token .string piece.text (some (.text (String.ofList content)))
  | .templateText content =>
      reading.token .templateText piece.text (some (.text (String.singleton content)))

end Reading

/-- The result of scanning: the tokens end with the only end of input. -/
structure Scan where
  tokens : List Token
  diagnostics : List Diagnostic
  symbols : SymbolTable

def scan (symbols : SymbolTable) (source : String) : Scan :=
  let pieces := split source.toList
  let reading := pieces.pieces.foldl Reading.add ⟨symbols, 1, [], []⟩
  let reading :=
    if pieces.nesting.isEmpty then reading else reading.report .unterminatedTemplate
  { tokens := (Token.endOfInput reading.line :: reading.tokens).reverse
    diagnostics := reading.diagnostics.reverse
    symbols := reading.symbols }

end Scriptlet
