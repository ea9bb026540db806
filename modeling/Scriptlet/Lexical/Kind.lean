/-!
Contract: the kinds of tokens.

Owns: `Kind`, its name, its fixed spelling if it has one, the reserved words,
and the kinds at which recovery from a syntax error stops.
-/

set_option autoImplicit false

namespace Scriptlet

inductive Kind where
  | leftParen | rightParen | leftBrace | rightBrace | leftBracket | rightBracket
  | comma | dot | semicolon | colon
  | minus | plus | slash | star | percent
  | minusEqual | plusEqual | slashEqual | starEqual
  | bang | bangEqual | equal | equalEqual
  | greater | greaterEqual | less | lessEqual
  | backtick | templateText | dollarBrace
  | identifier | string | number
  | andWord | breakWord | caseWord | classWord | constWord | continueWord | defaultWord
  | elseWord | falseWord | forWord | funWord | ifWord | maybeWord | nilWord | orWord
  | printWord | returnWord | superWord | switchWord | thisWord | trueWord | varWord
  | whileWord
  | endOfInput
deriving DecidableEq, Repr

namespace Kind

/-- The kinds of words that are no identifiers. -/
def reservedWords : List (String × Kind) :=
  [("and", andWord), ("break", breakWord), ("case", caseWord), ("class", classWord),
    ("const", constWord), ("continue", continueWord), ("default", defaultWord),
    ("else", elseWord), ("false", falseWord), ("for", forWord), ("fun", funWord),
    ("if", ifWord), ("maybe", maybeWord), ("nil", nilWord), ("or", orWord),
    ("print", printWord), ("return", returnWord), ("super", superWord),
    ("switch", switchWord), ("this", thisWord), ("true", trueWord), ("var", varWord),
    ("while", whileWord)]

/-- A kind that some word is reserved for. -/
abbrev Reserved : Type :=
  { kind : Kind // ∃ word, (word, kind) ∈ reservedWords }

def name : Kind → String
  | leftParen => "LeftParen"
  | rightParen => "RightParen"
  | leftBrace => "LeftBrace"
  | rightBrace => "RightBrace"
  | leftBracket => "LeftBracket"
  | rightBracket => "RightBracket"
  | comma => "Comma"
  | dot => "Dot"
  | semicolon => "Semicolon"
  | colon => "Colon"
  | minus => "Minus"
  | plus => "Plus"
  | slash => "Slash"
  | star => "Star"
  | percent => "Percent"
  | minusEqual => "MinusEqual"
  | plusEqual => "PlusEqual"
  | slashEqual => "SlashEqual"
  | starEqual => "StarEqual"
  | bang => "Bang"
  | bangEqual => "BangEqual"
  | equal => "Equal"
  | equalEqual => "EqualEqual"
  | greater => "Greater"
  | greaterEqual => "GreaterEqual"
  | less => "Less"
  | lessEqual => "LessEqual"
  | backtick => "Backtick"
  | templateText => "TemplateText"
  | dollarBrace => "DollarBrace"
  | identifier => "Identifier"
  | string => "String"
  | number => "Number"
  | andWord => "And"
  | breakWord => "Break"
  | caseWord => "Case"
  | classWord => "Class"
  | constWord => "Const"
  | continueWord => "Continue"
  | defaultWord => "Default"
  | elseWord => "Else"
  | falseWord => "False"
  | forWord => "For"
  | funWord => "Fun"
  | ifWord => "If"
  | maybeWord => "Maybe"
  | nilWord => "Nil"
  | orWord => "Or"
  | printWord => "Print"
  | returnWord => "Return"
  | superWord => "Super"
  | switchWord => "Switch"
  | thisWord => "This"
  | trueWord => "True"
  | varWord => "Var"
  | whileWord => "While"
  | endOfInput => "Eof"

/-- The one way to write a token of punctuation. Other kinds have none. -/
def spelling : Kind → String
  | leftParen => "("
  | rightParen => ")"
  | leftBrace => "\x7b"
  | rightBrace => "\x7d"
  | leftBracket => "["
  | rightBracket => "]"
  | comma => ","
  | dot => "."
  | semicolon => ";"
  | colon => ":"
  | minus => "-"
  | plus => "+"
  | slash => "/"
  | star => "*"
  | percent => "%"
  | minusEqual => "-="
  | plusEqual => "+="
  | slashEqual => "/="
  | starEqual => "*="
  | bang => "!"
  | bangEqual => "!="
  | equal => "="
  | equalEqual => "=="
  | greater => ">"
  | greaterEqual => ">="
  | less => "<"
  | lessEqual => "<="
  | backtick => "\x60"
  | dollarBrace => "$\x7b"
  | _ => ""

/-- Whether a statement begins with this keyword. -/
def startsStatement : Kind → Bool
  | classWord | funWord | varWord | constWord | forWord | ifWord | whileWord | printWord
  | returnWord | switchWord => true
  | _ => false

end Kind

end Scriptlet
