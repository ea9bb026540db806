import Scriptlet.Report

/-!
Contract: what goes wrong while a program runs.

Owns: `Fault`, the reasons for which an operation fails wherever it stands, of which
the last is that of a function which is no code of the program;
`Abort`, the reasons for which a run ends early; and their wording.
-/

set_option autoImplicit false

namespace Scriptlet

inductive Fault where
  | undefinedVariable (name : String)
  | unassignedVariable (name : String)
  | constantReassigned (name : String)
  | numberOperand
  | numberOperands
  | addOperands
  | divisionByZero
  | removeCount (requested size : Nat)
  | invalidCount
  | notIndexable
  | badIndex
  | indexOutOfRange (index : Nat)
  | indexOverflow
  | notCallable
  | arity (expected got : Nat)
  | immutableCollection
  | notCollection
  | native (message : String)
deriving DecidableEq, Repr

def Fault.message : Fault → String
  | .undefinedVariable name => "Undefined variable '" ++ name ++ "'."
  | .unassignedVariable name => "Variable '" ++ name ++ "' is not assigned."
  | .constantReassigned name => "Cannot reassign constant '" ++ name ++ "'."
  | .numberOperand => "Operand must be a number."
  | .numberOperands => "Operands must be numbers."
  | .addOperands => "Operands must be two numbers, strings or include a collection."
  | .divisionByZero => "Divisor has to be non-zero."
  | .removeCount requested size =>
      "Cannot remove " ++ requested.repr ++ " entries from a collection of size "
        ++ size.repr ++ "."
  | .invalidCount => "Entry count must be a non-negative integer."
  | .notIndexable => "Only strings and collections can be indexed."
  | .badIndex => "Index must be a non-negative integer."
  | .indexOutOfRange index => "Index " ++ index.repr ++ " is out of range."
  | .indexOverflow => "Collection index overflow."
  | .notCallable => "Can only call functions."
  | .arity expected got =>
      "Expected " ++ expected.repr ++ " arguments but got " ++ got.repr ++ "."
  | .immutableCollection => "Tuples are immutable."
  | .notCollection => "Only collections support indexed assignment."
  | .native message => message

inductive Abort where
  | fault (site : Site) (cause : Fault)
  | outputFull
deriving DecidableEq, Repr

def Abort.message : Abort → String
  | .fault site cause => site.heading ++ ": " ++ cause.message
  | .outputFull => "I/O error: output limit reached"

end Scriptlet
