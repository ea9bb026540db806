import Scriptlet.Number.Binary64
import Scriptlet.Number.Remainder
import Scriptlet.Number.Shortest
import Scriptlet.Number.Text
import Scriptlet.Text.Quoted
import Scriptlet.Text.Blank
import Scriptlet.Symbol
import Scriptlet.Lexical.Kind
import Scriptlet.Report
import Scriptlet.Lexical.Token
import Scriptlet.Lexical.Piece
import Scriptlet.Lexical.Split
import Scriptlet.Lexical.Scan
import Scriptlet.Tree
import Scriptlet.Grammar.Parser
import Scriptlet.Grammar.Expression
import Scriptlet.Grammar.Statement
import Scriptlet.Grammar.Rules
import Scriptlet.Grammar.Program
import Scriptlet.Fault
import Scriptlet.Store.Value
import Scriptlet.Store.Collection
import Scriptlet.Store.Heap
import Scriptlet.Store.Display
import Scriptlet.Run.Output
import Scriptlet.Run.Machine
import Scriptlet.Run.Operator
import Scriptlet.Run.Evaluate
import Scriptlet.Session
import Scriptlet.Shell.Reaction
import Scriptlet.Shell.Script
import Scriptlet.Shell.Prompt
import Scriptlet.Main
import Scriptlet.Proofs.Relabel
import Scriptlet.Proofs.Grammar.Stable
import Scriptlet.Proofs.Grammar.StableExpression
import Scriptlet.Proofs.Grammar.StableStatement
import Scriptlet.Proofs.Grammar.Sequence
import Scriptlet.Proofs.Grammar.Recovery
import Scriptlet.Proofs.Grammar.Derivation
import Scriptlet.Proofs.Grammar.Braces
import Scriptlet.Proofs.Grammar.Soundness
import Scriptlet.Proofs.Grammar.Completeness
import Scriptlet.Proofs.Grammar.Replay
import Scriptlet.Proofs.Grammar.MissingSemicolon
import Scriptlet.Proofs.Lexical.Boundary
import Scriptlet.Proofs.Lexical.LineEnds
import Scriptlet.Proofs.Lexical.Lines
import Scriptlet.Proofs.Lexical.Spans
import Scriptlet.Proofs.Lexical.Symbols
import Scriptlet.Proofs.Lexical.Answers
import Scriptlet.Proofs.Lexical.Templates
import Scriptlet.Proofs.Lexical.Interpolated
import Scriptlet.Proofs.Lexical.Respelled
import Scriptlet.Proofs.Run.Follows
import Scriptlet.Proofs.Run.Sequence
import Scriptlet.Proofs.Run.Restored
import Scriptlet.Proofs.Run.Course
import Scriptlet.Proofs.Run.Jumps
import Scriptlet.Proofs.Run.Spelling
import Scriptlet.Proofs.Run.CutShort
import Scriptlet.Proofs.Tree.Alike
import Scriptlet.Proofs.Grammar.Parallel
import Scriptlet.Proofs.Grammar.ParallelRules
import Scriptlet.Proofs.Tree.Formed
import Scriptlet.Proofs.Grammar.Yields
import Scriptlet.Proofs.Grammar.WellFormed
import Scriptlet.Proofs.Grammar.Progress
import Scriptlet.Proofs.Run.Provenance
import Scriptlet.Proofs.Run.Lockstep
import Scriptlet.Proofs.Store.Variables
import Scriptlet.Proofs.Run.Alone
import Scriptlet.Proofs.Run.Bindings
import Scriptlet.Proofs.Store.Changes
import Scriptlet.Proofs.Store.Guarded
import Scriptlet.Proofs.Store.MovedCollections
import Scriptlet.Proofs.Store.Entries
import Scriptlet.Proofs.Store.Growth
import Scriptlet.Proofs.Store.Renumbered
import Scriptlet.Proofs.Store.Sequences
import Scriptlet.Proofs.Store.Written
import Scriptlet.Proofs.Store.Rendering
import Scriptlet.Proofs.Store.Resolution
import Scriptlet.Proofs.Run.Unchanged
import Scriptlet.Proofs.Store.Sound
import Scriptlet.Proofs.Store.Spacers
import Scriptlet.Proofs.Store.MovedHeaps
import Scriptlet.Proofs.Run.Moved
import Scriptlet.Proofs.Run.Named
import Scriptlet.Proofs.Run.Steps
import Scriptlet.Proofs.Run.Blind
import Scriptlet.Proofs.Run.ForLoop
import Scriptlet.Proofs.Run.Stepwise
import Scriptlet.Proofs.Session.Runs
import Scriptlet.Proofs.Session.Consecutive
import Scriptlet.Proofs.Session.Embedded
import Scriptlet.Proofs.Session.Quotation
import Scriptlet.Proofs.Session.Reachable
import Scriptlet.Proofs.Session.Provenance
import Scriptlet.Proofs.Session.Sound
import Scriptlet.Proofs.Session.Names
import Scriptlet.Proofs.Session.Renewed
import Scriptlet.Proofs.Shell.Renewed
