import Scriptlet.Grammar.Program
import Scriptlet.Lexical.Scan
import Scriptlet.Run.Evaluate

/-!
Contract: sessions, in which sources are evaluated one after the other.

Owns: `Session` and its operations. What a source defines is there for the
sources after it. Lexical and syntax errors do not keep a source from running:
the statements that could be read are run, and the diagnostics are kept until
they are taken.

The coins for the `maybe`s of a source are given with the source, and the readings of
the clock with the session.
-/

set_option autoImplicit false

namespace Scriptlet

structure Session where
  symbols : SymbolTable
  pending : List Diagnostic
  machine : Machine

/-- The result of evaluating a source, and the session after it. -/
structure Evaluation where
  result : Except Abort (List Value)
  session : Session

namespace Machine

/-- Makes a new global scope, in which only the clock is bound, and makes it
current. -/
def renewGlobals (machine : Machine) (clock : Symbol) : Machine :=
  let scope := machine.heap.scopes.size
  let function := machine.heap.functions.size
  let globals := (Scope.empty none).bind clock ⟨some (.function function), false⟩
  { machine with
    heap := (machine.heap.addFunction .clock).addScope globals
    globals := scope
    current := scope }

end Machine

namespace Session

/-- The name of the clock. -/
def clockName : String := "clock"

/-- A new session. -/
def start (clock : Clock) : Session :=
  let (name, symbols) := SymbolTable.initial.intern clockName
  let machine : Machine := ⟨.empty, 0, 0, .empty, clock⟩
  ⟨symbols, [], machine.renewGlobals name⟩

/-- Evaluates a source with so much fuel, if that is enough. -/
def eval? (fuel : Nat) (coin : Nat → Bool) (session : Session) (source : String) :
    Option Evaluation :=
  let scanned := scan session.symbols source
  let parsed := parse coin scanned.tokens
  let pending := session.pending ++ scanned.diagnostics ++ parsed.diagnostics
  match interpret fuel parsed.program session.machine with
  | .done values machine => some ⟨.ok values, ⟨scanned.symbols, pending, machine⟩⟩
  | .aborted cause machine => some ⟨.error cause, ⟨scanned.symbols, pending, machine⟩⟩
  | .exhausted => none

/-- More fuel than a run uses up in any time. -/
def ampleFuel : Nat := 1000000000000000000

/-- Removes and returns the diagnostics reported so far. -/
def takeDiagnostics (session : Session) : List Diagnostic × Session :=
  (session.pending, { session with pending := [] })

/-- Forgets every global definition. -/
def reset (session : Session) : Session :=
  let (clock, symbols) := session.symbols.intern clockName
  { session with symbols, machine := session.machine.renewGlobals clock }

/-- From now on the output takes so many bytes more, or any number. -/
def limitOutput (session : Session) (room : Option Nat) : Session :=
  { session with
    machine := { session.machine with output := { session.machine.output with room } } }

/-- Removes and returns the output written so far. -/
def takeOutput (session : Session) : ByteArray × Session :=
  (session.machine.output.written,
    { session with
      machine :=
        { session.machine with output := { session.machine.output with written := .empty } } })

/-- From now on the readings are those of another clock. -/
def setClock (session : Session) (clock : Clock) : Session :=
  { session with machine := { session.machine with clock } }

end Session

end Scriptlet
