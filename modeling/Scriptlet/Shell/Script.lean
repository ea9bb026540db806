import Scriptlet.Shell.Reaction

/-!
Contract: scripts run in order, in one session.

Owns: `runScripts?`. A script that cannot be read or that is aborted ends the
run. Lexical and syntax errors do not, but they show in the exit code.
-/

set_option autoImplicit false

namespace Scriptlet.Shell

/-- Why a text cannot be read. -/
inductive ReadFailure where
  | missing
  | notText
  | other (reason : String)
deriving DecidableEq, Repr

def ReadFailure.message : ReadFailure → String
  | .missing => "No such file or directory (os error 2)"
  | .notText => "stream did not contain valid UTF-8"
  | .other reason => reason

structure Script where
  name : String
  content : Except ReadFailure String

/-- The text of a file. -/
def Script.ofBytes (name : String) (bytes : ByteArray) : Script :=
  match String.fromUTF8? bytes with
  | some text => ⟨name, .ok text⟩
  | none => ⟨name, .error .notText⟩

/-- The session, and whether a script had lexical or syntax errors. -/
structure ScriptState where
  session : Session
  flawed : Bool

def ScriptState.exitCode (state : ScriptState) : Nat :=
  if state.flawed then ExitCode.staticError else ExitCode.success

/-- Runs one script. -/
def Script.run? (fuel : Nat) (coin : Nat → Bool) (state : ScriptState) (script : Script) :
    Option (Reaction ScriptState) :=
  match script.content with
  | .error failure =>
      some
        { stdout := ""
          stderr :=
            "Error: failed to read " ++ script.name ++ "\n\nCaused by:\n    "
              ++ failure.message ++ "\n"
          next := .exit ExitCode.unreadable }
  | .ok source =>
      (evaluate? fuel coin state.session source).map fun evaluated =>
        let reports := evaluated.diagnostics.map Diagnostic.text
        match evaluated.result with
        | .error cause =>
            { stdout := evaluated.printed
              stderr := lines (reports ++ [cause.message])
              next := .exit ExitCode.runtimeError }
        | .ok _ =>
            { stdout := evaluated.printed
              stderr := lines reports
              next := .go ⟨evaluated.session, state.flawed || !reports.isEmpty⟩ }

/-- Runs scripts, after what has been written so far. Each script has the coins for as
many scripts as there are behind it. -/
def runScripts? (fuel : Nat) (coins : Nat → Nat → Bool) :
    List Script → ScriptState → String → String → Option Transcript
  | [], state, stdout, stderr => some ⟨stdout, stderr, state.exitCode⟩
  | script :: rest, state, stdout, stderr => do
      let reaction ← script.run? fuel (coins rest.length) state
      let stdout := stdout ++ reaction.stdout
      let stderr := stderr ++ reaction.stderr
      match reaction.next with
      | .exit code => some ⟨stdout, stderr, code⟩
      | .go state => runScripts? fuel coins rest state stdout stderr

end Scriptlet.Shell
