import Scriptlet.Proofs.Grammar.Completeness
import Scriptlet.Proofs.Grammar.ParallelRules
import Scriptlet.Proofs.Grammar.Replay
import Scriptlet.Proofs.Lexical.Interpolated
import Scriptlet.Proofs.Lexical.Symbols
import Scriptlet.Proofs.Session.Consecutive

/-!
Contract: the source of an expression, wherever it stands.

Owns: `Embedded`, a source that a semicolon on the next line makes an expression
statement; that such a source is complete and its braces are balanced
(`Embedded.complete`, `Embedded.balanced`); and that it is read, with other symbols,
further down and before any tokens, as the same expression (`Embedded.derives`).

Does not own: the templates around such sources
(`Scriptlet.Proofs.Session.Quotation`).
-/

set_option autoImplicit false

namespace Scriptlet

open Grammar

/-! ## A semicolon on the next line -/

/-- A source with a semicolon on the line behind it. -/
def completed (source : String) : String :=
  source ++ "\n" ++ ";"

theorem completed_toList (source : String) :
    (completed source).toList = source.toList ++ semicolonLine := by
  simp [completed, semicolonLine, String.toList_append]

def semicolonPiece : Piece := ⟨.mark .semicolon, [';']⟩

theorem split_completed {source : String} (complete : Complete [] source.toList) :
    split (completed source).toList =
      ⟨(split source.toList).pieces ++ [newlinePiece, semicolonPiece], []⟩ := by
  rw [completed_toList]
  have closed : ∀ piece ∈ (cut [] source.toList).pieces, ¬ piece.Unclosed :=
    fun piece inside isOpen => complete.closed piece inside isOpen.1
  exact cut_append_newline [';'] [] source.toList closed complete.level

/-- The semicolon is the last token. -/
theorem readAll_completed {source : String} (complete : Complete [] source.toList)
    (symbols : SymbolTable) :
    (readAll symbols (completed source)).tokens.reverse =
        (readAll symbols source).tokens.reverse ++
          [⟨.semicolon, ";", none, (readAll symbols source).line + 1⟩] ∧
      (readAll symbols (completed source)).symbols = (readAll symbols source).symbols := by
  have both : readAll symbols (completed source) =
      ((readAll symbols source).add newlinePiece).add semicolonPiece := by
    unfold readAll
    rw [split_completed complete, List.foldl_append]
    rfl
  rw [both]
  exact ⟨List.reverse_cons, rfl⟩

/-! ## Expression statements -/

theorem forLoop_ne_expression (initial : Option Stmt) (condition increment : Option Expr)
    (body : Stmt) (value : Expr) :
    Stmt.forLoop initial condition increment body ≠ .expression value := by
  unfold Stmt.forLoop
  cases initial <;> cases increment <;> simp

/-- The only rule for an expression as a statement. -/
theorem derives_of_expression {coin : Nat → Bool} {dangling : Bool} {statement : Stmt}
    {value : Expr} {tokens rest : List Token}
    (derives : Derives coin (.statement dangling statement) tokens rest)
    (isExpression : statement = .expression value) :
    ∃ semicolon, Derives coin (.expression value) tokens (semicolon :: rest) := by
  cases derives with
  | @expression semicolon _ _ _ inner ends =>
      cases isExpression
      exact ⟨semicolon, inner⟩
  | forLoop => exact absurd isExpression (forLoop_ne_expression _ _ _ _ _)
  | _ => cases isExpression

/-- A program that is one expression. -/
theorem derives_of_program {coin : Nat → Bool} {value : Expr} {tokens : List Token}
    (derives : Derives coin (.program [.expression value]) tokens []) :
    ∃ semicolon, Derives coin (.expression value) tokens [semicolon] := by
  cases derives with
  | program head tail =>
      cases tail
      cases head with
      | var isVar inner => cases inner
      | plainStatement inner => exact derives_of_expression inner rfl

/-- A source that is an expression with its semicolon is one before it. -/
theorem derives_of_completed {symbols : SymbolTable} {stop : Site} {coin : Nat → Bool}
    {value : Expr} {line : Nat → Nat} {source : String} (complete : Complete [] source.toList)
    (parsed : program ⟨stop, coin⟩
        (relabel line (readAll symbols (completed source)).tokens.reverse) =
      ⟨[.expression value], []⟩) :
    ∃ semicolon, Derives coin (.expression value)
      (relabel line (readAll symbols source).tokens.reverse ++ [semicolon]) [semicolon] := by
  have derives := derives_of_clean (congrArg Parse.diagnostics parsed)
  rw [parsed] at derives
  obtain ⟨semicolon, inner⟩ := derives_of_program derives
  rw [(readAll_completed complete symbols).1, relabel_append] at inner
  obtain ⟨read, same, -⟩ := inner.replayed
  obtain ⟨-, isLast⟩ := List.append_inj' same rfl
  cases isLast
  exact ⟨_, inner⟩

/-! ## Embedded sources -/

/-- A source of an expression: with a semicolon on the next line it is one expression
statement, read with some table, and it tosses no coins. -/
structure Embedded where
  source : String
  value : Expr
  table : SymbolTable
  coin : Nat → Bool
  lawful : table.Lawful
  scans : (scan table (completed source)).diagnostics = []
  parses : parse coin (scan table (completed source)).tokens = ⟨[.expression value], []⟩
  sure : "maybe" ∉ words (completed source)

namespace Embedded

/-- The table behind the source. -/
def known (embedded : Embedded) : SymbolTable :=
  (scan embedded.table (completed embedded.source)).symbols

section Alone

variable (embedded : Embedded)

theorem complete : Complete [] embedded.source.toList := by
  obtain ⟨-, level, right⟩ := split_of_clean embedded.scans
  rw [completed_toList] at level right
  exact complete_of_semicolon ⟨fun piece inside => right piece inside .unterminatedString, level⟩

/-- The braces of the source close what they open, and nothing else. -/
theorem balanced : bracesCut (split embedded.source.toList).pieces 0 = some 0 := by
  have parsed := embedded.parses
  rw [parse_scan, ← relabel_id (readAll _ _).tokens.reverse] at parsed
  obtain ⟨semicolon, derives⟩ := derives_of_completed embedded.complete parsed
  obtain ⟨read, same, counted⟩ := (derives.balances 0).bracesBehind
  obtain ⟨isRead, -⟩ := List.append_inj' same rfl
  rw [← isRead, relabel_id] at counted
  rw [← bracesBehind_kindsRead embedded.table]
  exact counted

/-- Nothing is reported of the source, with whatever table it is read. -/
theorem silent (symbols : SymbolTable) :
    (readAll symbols embedded.source).diagnostics = [] := by
  obtain ⟨-, -, right⟩ := split_of_clean embedded.scans
  rw [split_completed embedded.complete] at right
  exact Reading.foldl_add_right _ fun piece inside => right piece (List.mem_append_left _ inside)

end Alone

/-- A coin that falls before one token as `coin` does before `more`. -/
def coinBeforeOne (coin : Nat → Bool) (more : List Token) : Nat → Bool :=
  fun left => coin (left - 1 + more.length)

theorem coinBefore_one (coin : Nat → Bool) (more : List Token) (token : Token) :
    coinBefore coin more = coinBefore (coinBeforeOne coin more) [token] := by
  funext left
  simp [coinBefore, coinBeforeOne]

/-- Tokens that are like others without coins toss none. -/
theorem sure_of_alike {symbols : Symbol → Symbol → Prop} {tokens tokens' : List Token}
    (alike : TokensAlike ⟨symbols, False⟩ tokens tokens') : Sure tokens' := by
  induction alike with
  | nil => exact fun token inside => absurd inside List.not_mem_nil
  | cons first rest inductionHypothesis =>
      refine List.forall_mem_cons.mpr ⟨fun isMaybe => ?_, inductionHypothesis⟩
      exact first.maybe (first.kind.trans isMaybe)

variable {embedded : Embedded} {table final : SymbolTable}

/-- Read with another table, the source is the same expression but for its symbols, and
tosses no coins either. -/
theorem alike (lawful : table.Lawful)
    (known : (readAll table embedded.source).symbols.Extends final) :
    ∃ value, embedded.value.Alike (embedded.known.Shares final fun _ => True) value ∧
      parse embedded.coin (scan table (completed embedded.source)).tokens =
        ⟨[.expression value], []⟩ ∧
      Sure (scan table (completed embedded.source)).tokens := by
  have plain : ∀ word ∈ words (completed embedded.source), True ∧ word ≠ "maybe" := by
    intro word inside
    refine ⟨trivial, fun isMaybe => embedded.sure ?_⟩
    rwa [isMaybe] at inside
  have known' : (scan table (completed embedded.source)).symbols.Extends final := by
    rw [scan_symbols, (readAll_completed embedded.complete table).2]
    exact known
  obtain ⟨tokens, -⟩ := scan_alike embedded.lawful lawful plain (.refl _) known'
  have both : ParseAlike _
      (parse embedded.coin (scan embedded.table (completed embedded.source)).tokens)
      (parse embedded.coin (scan table (completed embedded.source)).tokens) :=
    parse_alike _ False.elim tokens
  obtain ⟨programs, reports⟩ := both
  rw [embedded.parses] at programs reports
  obtain ⟨statement, others, same, noMore, isProgram⟩ := List.forall₂_cons_left_iff.mp programs
  cases List.forall₂_nil_left_iff.mp noMore
  cases same with
  | @expression _ value alike =>
      exact ⟨value, alike, Parse.ext_iff_fields.mpr ⟨isProgram, reports.symm⟩, sure_of_alike tokens⟩

/-- **The source is read as its expression wherever it stands**: with another table, on
other lines, and before any tokens. -/
theorem derives (lawful : table.Lawful)
    (known : (readAll table embedded.source).symbols.Extends final) (line : Nat → Nat) :
    ∃ value, embedded.value.Alike (embedded.known.Shares final fun _ => True) value ∧
      ∀ coin more, Derives coin (.expression (relabel line value))
        (relabel line (readAll table embedded.source).tokens.reverse ++ more) more := by
  obtain ⟨value, alike, parsed, sure⟩ := alike lawful known
  refine ⟨value, alike, fun coin more => ?_⟩
  rw [parse_scan] at parsed
  have moved := (program_relabel line _ _ (coinBeforeOne coin more) sure.readAll).trans
    (congrArg (relabel line) parsed)
  obtain ⟨semicolon, inner⟩ := derives_of_completed embedded.complete moved
  obtain ⟨read, same, replay⟩ := inner.replayed
  obtain ⟨isRead, -⟩ := List.append_inj' same rfl
  rw [← isRead] at replay
  exact replay (coinBefore_one coin more semicolon)

end Embedded

end Scriptlet
