import Scriptlet.Session

/-!
Contract: what the shell does step by step.

Owns: `Reaction`, one step with what it writes; `Transcript`, all that a use of
the shell writes and its exit code; and the exit codes.
-/

set_option autoImplicit false

namespace Scriptlet.Shell

/-- How the shell goes on after a step. -/
inductive Next (σ : Type) where
  | go (state : σ)
  | exit (code : Nat)

structure Reaction (σ : Type) where
  stdout : String
  stderr : String
  next : Next σ

structure Transcript where
  stdout : String
  stderr : String
  code : Nat
deriving DecidableEq, Repr

namespace ExitCode

def success : Nat := 0

/-- The input could not be read. -/
def unreadable : Nat := 1

/-- A script had lexical or syntax errors. -/
def staticError : Nat := 65

/-- A script was aborted. -/
def runtimeError : Nat := 70

end ExitCode

/-- Each text on a line of its own. -/
def lines (texts : List String) : String :=
  String.join (texts.map (· ++ "\n"))

/-- A source evaluated, with what it printed and the diagnostics it caused. -/
structure Evaluated where
  result : Except Abort (List Value)
  printed : String
  diagnostics : List Diagnostic
  session : Session

/-- Evaluates a source, and takes its output and diagnostics. -/
def evaluate? (fuel : Nat) (coin : Nat → Bool) (session : Session) (source : String) :
    Option Evaluated :=
  (session.eval? fuel coin source).map fun evaluation =>
    let (printed, session) := evaluation.session.takeOutput
    let (diagnostics, session) := session.takeDiagnostics
    ⟨evaluation.result, Output.decode printed, diagnostics, session⟩

end Scriptlet.Shell
