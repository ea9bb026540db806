import Scriptlet.Grammar.Rules

/-!
Contract: whole programs.

Owns: `parse`, which reads a program from any list of tokens. Statements that
cannot be read are reported and left out. The first end of input ends the
program; a list that does not end with one gets one, on the line of its last token.
-/

set_option autoImplicit false

namespace Scriptlet

structure Parse where
  program : List Stmt
  diagnostics : List Diagnostic

namespace Grammar

open Scriptlet.Parser

/-- The tokens with an end of input at their end, which is added if there is none. -/
def ended (tokens : List Token) : List Token :=
  if tokens.getLast?.map Token.kind = some .endOfInput then tokens
  else tokens ++ [Token.endOfInput ((tokens.getLast?.map Token.line).getD 1)]

/-- The tokens before the first end of input, at which a parser stays. -/
def bodyTokens (tokens : List Token) : List Token :=
  (ended tokens).takeWhile (·.kind ≠ .endOfInput)

/-- The site of the first end of input. -/
def stopSite (tokens : List Token) : Site :=
  match (ended tokens).dropWhile (·.kind ≠ .endOfInput) with
  | stop :: _ => stop.site
  | [] => (Token.endOfInput 1).site

/-- Reads at most `fuel` statements, each to the given depth. What has been
read comes first, the latest first. -/
def statements (depth : Nat) (setting : Setting) :
    Nat → List Token → List Stmt → List Diagnostic → Parse
  | _, [], program, diagnostics => ⟨program.reverse, diagnostics.reverse⟩
  | 0, _ :: _, program, diagnostics => ⟨program.reverse, diagnostics.reverse⟩
  | fuel + 1, tokens@(_ :: _), program, diagnostics =>
      let reply := recovered (declaration depth) setting tokens
      let program :=
        match reply.outcome with
        | some (some statement) => statement :: program
        | _ => program
      statements depth setting fuel reply.rest program (reply.reports.reverse ++ diagnostics)

end Grammar

/-- Reads a program. `coin` says what each `maybe` is, by the number of tokens
from it to the end. -/
def parse (coin : Nat → Bool) (tokens : List Token) : Parse :=
  let body := Grammar.bodyTokens tokens
  let setting := ⟨Grammar.stopSite tokens, coin⟩
  Grammar.statements (Grammar.depthFor body.length) setting body.length body [] []

end Scriptlet
