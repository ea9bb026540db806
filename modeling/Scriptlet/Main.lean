import Scriptlet.Shell.Prompt
import Std.Time.DateTime.Timestamp

/-!
Contract: the command line.

With arguments, runs the named scripts in order. Without, answers lines at a
prompt.

Owns: reading files and standard input, the clock of a session and its coins, and
writing what the shell says.
-/

set_option autoImplicit false

namespace Scriptlet.Shell

/-- A clock that goes on from a time, given in milliseconds since the epoch. A run cannot
wait for time to pass, so each reading is a millisecond further. Before the epoch there
is none. -/
def clockFrom (start : Int) : Clock where
  readings taken :=
    match start + taken with
    | .ofNat milliseconds => .ok milliseconds
    | .negSucc _ => .error "second time provided was later than self"
  taken := 0

def currentClock : IO Clock := do
  let now ← Std.Time.Timestamp.now
  pure (clockFrom now.toMillisecondsSinceUnixEpoch.val)

/-- So many coins, thrown one after the other. -/
def throwCoins (count : Nat) : IO (Nat → Bool) := do
  let mut coins := #[]
  for _ in [0:count] do
    coins := coins.push ((← IO.rand 0 1) == 1)
  let thrown := coins
  pure fun index => thrown.getD index false

def newSession : IO Session := do
  pure (.start (← currentClock))

def readScript (name : String) : IO Script := do
  try
    pure (.ofBytes name (← IO.FS.readBinFile name))
  catch
    | .noFileOrDirectory .. => pure ⟨name, .error .missing⟩
    | failure => pure ⟨name, .error (.other (toString failure))⟩

/-- Writes what a step of the shell says. -/
def say {σ : Type} (reaction : Reaction σ) : IO Unit := do
  let stdout ← IO.getStdout
  stdout.putStr reaction.stdout
  stdout.flush
  IO.eprint reaction.stderr

/-- The exit code when a run needs more fuel than there is. -/
def exhaustedCode : UInt32 := 75

def scriptLoop : List String → ScriptState → IO UInt32
  | [], state => pure state.exitCode.toUInt32
  | name :: rest, state => do
      let script ← readScript name
      let state := { state with session := state.session.setClock (← currentClock) }
      -- there are fewer `maybe`s in a source than bytes
      let coin ← throwCoins (script.content.toOption.elim 0 String.utf8ByteSize)
      match script.run? Session.ampleFuel coin state with
      | none => pure exhaustedCode
      | some reaction =>
          say reaction
          match reaction.next with
          | .exit code => pure code.toUInt32
          | .go state => scriptLoop rest state

/-- The bytes up to the end of a line, after those in `line`. -/
partial def readLine (stdin : IO.FS.Stream) (line : ByteArray) : IO ByteArray := do
  let bytes ← stdin.read 1
  if bytes.isEmpty then pure line
  else
    let line := line ++ bytes
    if bytes == ⟨#[10]⟩ then pure line else readLine stdin line

partial def promptLoop (session : Session) : IO UInt32 := do
  let stdout ← IO.getStdout
  stdout.putStr promptText
  stdout.flush
  let line ← readLine (← IO.getStdin) .empty
  let coin ← throwCoins line.size
  match answer? Session.ampleFuel coin (session.setClock (← currentClock)) line with
  | none => pure exhaustedCode
  | some reaction =>
      say reaction
      match reaction.next with
      | .exit code => pure code.toUInt32
      | .go session => promptLoop session

end Scriptlet.Shell

def main (arguments : List String) : IO UInt32 := do
  let session ← Scriptlet.Shell.newSession
  if arguments.isEmpty then Scriptlet.Shell.promptLoop session
  else Scriptlet.Shell.scriptLoop arguments ⟨session, false⟩
