import Scriptlet.Shell.Script
import Scriptlet.Text.Blank

/-!
Contract: the prompt, which evaluates each line it reads.

Owns: `runPrompt?`. The values of a line are shown, and a line that is aborted
makes the session forget its definitions. The prompt ends with the input, or at
a line that says `exit`.
-/

set_option autoImplicit false

namespace Scriptlet.Shell

/-- What is shown before a line is read. -/
def promptText : String := "> "

/-- The lines of an input, each with its line end. -/
def inputLines : List UInt8 → List UInt8 → List (List UInt8)
  | [], [] => []
  | [], line => [line.reverse]
  | byte :: rest, line =>
      if byte = 10 then (byte :: line).reverse :: inputLines rest []
      else inputLines rest (byte :: line)

/-- Answers one line. -/
def answer? (fuel : Nat) (coin : Nat → Bool) (session : Session) (line : ByteArray) :
    Option (Reaction Session) :=
  match String.fromUTF8? line with
  | none =>
      some
        { stdout := ""
          stderr := "Error: " ++ ReadFailure.notText.message ++ "\n"
          next := .exit ExitCode.unreadable }
  | some source =>
      if source.isEmpty || Text.trimmed source = "exit" then
        some ⟨"", "", .exit ExitCode.success⟩
      else
        (evaluate? fuel coin session source).map fun evaluated =>
          let reports := lines (evaluated.diagnostics.map Diagnostic.text)
          match evaluated.result with
          | .ok values =>
              let shown := values.map evaluated.session.machine.heap.display
              ⟨evaluated.printed ++ lines shown, reports, .go evaluated.session⟩
          | .error cause =>
              ⟨evaluated.printed ++ lines [cause.message], reports,
                .go evaluated.session.reset⟩

/-- Answers lines, after what has been written so far. Each line has the coins for as
many lines as there are behind it. -/
def runPrompt? (fuel : Nat) (coins : Nat → Nat → Bool) :
    List ByteArray → Session → String → String → Option Transcript
  | [], _, stdout, stderr => some ⟨stdout ++ promptText, stderr, ExitCode.success⟩
  | line :: rest, session, stdout, stderr => do
      let reaction ← answer? fuel (coins rest.length) session line
      let stdout := stdout ++ promptText ++ reaction.stdout
      let stderr := stderr ++ reaction.stderr
      match reaction.next with
      | .exit code => some ⟨stdout, stderr, code⟩
      | .go session => runPrompt? fuel coins rest session stdout stderr

end Scriptlet.Shell
