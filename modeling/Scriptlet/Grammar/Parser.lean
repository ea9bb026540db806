import Scriptlet.Lexical.Token

/-!
Contract: parsers that report what is wrong and where.

A parser takes the tokens that are left, without the end of input, and replies
with a value or with none, with the tokens it leaves, and with its reports in
order. A parser that replies with none has reported why.

Owns: `Parser`, its sequencing, and the parsers of single tokens.
-/

set_option autoImplicit false

namespace Scriptlet

/-- What is the same throughout a source: the site of its end, and what `maybe`
is, given the number of tokens left. -/
structure Setting where
  stop : Site
  coin : Nat → Bool

structure Reply (α : Type) where
  outcome : Option α
  rest : List Token
  reports : List Diagnostic

def Parser (α : Type) : Type :=
  Setting → List Token → Reply α

namespace Parser

@[inline] def bind {α β : Type} (first : Parser α) (next : α → Parser β) : Parser β :=
  fun setting tokens =>
    let reply := first setting tokens
    match reply.outcome with
    | none => ⟨none, reply.rest, reply.reports⟩
    | some value =>
        let after := next value setting reply.rest
        ⟨after.outcome, after.rest, reply.reports ++ after.reports⟩

instance : Monad Parser where
  pure value := fun _ tokens => ⟨some value, tokens, []⟩
  bind := bind

instance : LawfulMonad Parser :=
  LawfulMonad.mk' Parser
    (by
      intro α parser
      funext setting tokens
      show bind parser (fun value => pure (id value)) setting tokens = parser setting tokens
      unfold bind
      rcases parser setting tokens with ⟨outcome, rest, reports⟩
      cases outcome <;> simp [pure])
    (fun _ _ => rfl)
    (by
      intro α β γ first second third
      funext setting tokens
      show bind (bind first second) third setting tokens =
        bind first (fun value => bind (second value) third) setting tokens
      unfold bind
      rcases first setting tokens with ⟨outcome, rest, reports⟩
      cases outcome with
      | none => rfl
      | some value =>
          rcases secondReply : second value setting rest with ⟨outcome, rest, reports⟩
          cases outcome <;> simp [secondReply])

/-- The site of a list of tokens: its first token, or the end of input. -/
def siteOf (setting : Setting) : List Token → Site
  | [] => setting.stop
  | token :: _ => token.site

def kindOf : List Token → Kind
  | [] => .endOfInput
  | token :: _ => token.kind

/-- The tokens behind the next one. At the end of input there is none to take, and a
parser stays there. -/
def advance : List Token → List Token
  | [] => []
  | _ :: rest => rest

@[simp] theorem advance_cons (token : Token) (rest : List Token) :
    advance (token :: rest) = rest := rfl

theorem advance_suffix (tokens : List Token) : advance tokens <:+ tokens := by
  cases tokens with
  | nil => exact List.suffix_rfl
  | cons token rest => exact List.suffix_cons token rest

/-- The kind of the next token. -/
def peek : Parser Kind :=
  fun _ tokens => ⟨some (kindOf tokens), tokens, []⟩

def check (kind : Kind) : Parser Bool :=
  fun _ tokens => ⟨some (decide (kindOf tokens = kind)), tokens, []⟩

/-- Takes the next token if its kind is one that `choose` has an answer
for. -/
def select {α : Type} (choose : Kind → Option α) : Parser (Option (α × Token)) :=
  fun _ tokens =>
    match tokens with
    | [] => ⟨some none, tokens, []⟩
    | token :: _ =>
        match choose token.kind with
        | none => ⟨some none, tokens, []⟩
        | some value => ⟨some (some (value, token)), advance tokens, []⟩

/-- Takes the next token if it is of the given kind. -/
def accept (kind : Kind) : Parser (Option Token) :=
  fun _ tokens =>
    match tokens with
    | [] => ⟨some none, tokens, []⟩
    | token :: _ =>
        if token.kind = kind then ⟨some (some token), advance tokens, []⟩
        else ⟨some none, tokens, []⟩

def report (site : Site) (problem : Problem) : Parser Unit :=
  fun _ tokens => ⟨some (), tokens, [⟨site, problem⟩]⟩

/-- Reports at the next token, and goes on. -/
def reportHere (problem : Problem) : Parser Unit :=
  fun setting tokens => ⟨some (), tokens, [⟨siteOf setting tokens, problem⟩]⟩

def fail {α : Type} (site : Site) (problem : Problem) : Parser α :=
  fun _ tokens => ⟨none, tokens, [⟨site, problem⟩]⟩

/-- Reports at the next token, and gives up. -/
def failHere {α : Type} (problem : Problem) : Parser α :=
  fun setting tokens => ⟨none, tokens, [⟨siteOf setting tokens, problem⟩]⟩

/-- Gives up for want of fuel, which the length of a token list always leaves
enough of. Like every parser that gives up, it reports, and nothing else reports
the same. -/
def exhausted {α : Type} : Parser α :=
  failHere .tooDeep

/-- Takes the next token, which has to be of the given kind. -/
def expect (kind : Kind) (what : Expectation) : Parser Token :=
  fun setting tokens =>
    match tokens with
    | [] => ⟨none, tokens, [⟨setting.stop, .expected what⟩]⟩
    | token :: _ =>
        if token.kind = kind then ⟨some token, advance tokens, []⟩
        else ⟨none, tokens, [⟨token.site, .expected what⟩]⟩

/-- Takes the token that has to follow `landmark`. -/
def expectAfter (kind : Kind) (landmark : String) : Parser Token :=
  expect kind (.after kind landmark)

/-- Takes the token that has to precede `landmark`. -/
def expectBefore (kind : Kind) (landmark : String) : Parser Token :=
  expect kind (.before kind landmark)

/-- What `maybe` is here. -/
def toss : Parser Bool :=
  fun setting tokens => ⟨some (setting.coin tokens.length), tokens, []⟩

/-- The text of the template characters that come next. -/
def templateText : Parser String :=
  fun _ tokens =>
    let texts := tokens.takeWhile (·.kind = .templateText)
    let append (text : String) (token : Token) : String :=
      match token.literal with
      | some (.text value) => text ++ value
      | _ => text
    ⟨some (texts.foldl append ""), tokens.dropWhile (·.kind = .templateText), []⟩

/-! ## Recovery -/

/-- The tokens from the next statement on: behind the first semicolon, or
before the first keyword that starts a statement. -/
def resumeAfter : Kind → List Token → List Token
  | _, [] => []
  | previous, token :: rest =>
      if previous = .semicolon || token.kind.startsStatement then token :: rest
      else resumeAfter token.kind rest

/-- The tokens to go on with after an error at the first one, which is
skipped. -/
def synchronize : List Token → List Token
  | [] => []
  | token :: rest => resumeAfter token.kind rest

/-- Goes on at the next statement where `parser` gives up. -/
def recovered {α : Type} (parser : Parser α) : Parser (Option α) :=
  fun setting tokens =>
    let reply := parser setting tokens
    match reply.outcome with
    | some value => ⟨some (some value), reply.rest, reply.reports⟩
    | none => ⟨some none, synchronize reply.rest, reply.reports⟩

end Parser

end Scriptlet
