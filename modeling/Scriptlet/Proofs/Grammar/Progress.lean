import Scriptlet.Proofs.Grammar.WellFormed
import Mathlib.Data.List.TakeWhile

/-!
Contract: reading ends, on any list of tokens, at its first end of input.

Parsers take the tokens that are left. This module says what that means for a
cursor into all the tokens, those behind an end of input included: it stays at or
before the first one, never goes back, and goes forward with every declaration.

Owns: `ended_eq`, by which an end of input is surely there; the cursor
and how parsers move it; and `parse_reads_to_end`.

Does not own: that enough depth is enough (`Scriptlet.Proofs.Grammar.Stable`,
whose parsers never report `tooDeep`), and that parsers leave an end of their
tokens (`Scriptlet.Proofs.Grammar.WellFormed`).
-/

set_option autoImplicit false

namespace Scriptlet.Grammar

open Scriptlet.Parser

/-! ## Cursors -/

/-- The place of the first end of input. -/
def stopIndex (tokens : List Token) : Nat :=
  (bodyTokens tokens).length

/-- What is left at a cursor, up to the first end of input. -/
def leftAt (tokens : List Token) (cursor : Nat) : List Token :=
  (bodyTokens tokens).drop cursor

theorem bodyTokens_endFree (tokens : List Token) : EndFree (bodyTokens tokens) := by
  intro token inside
  unfold bodyTokens at inside
  simpa using List.mem_takeWhile_imp inside

theorem ended_stops (tokens : List Token) : ∃ stop ∈ ended tokens, stop.kind = .endOfInput := by
  unfold ended
  split
  next isEnded =>
    obtain ⟨token, isLast, isStop⟩ := Option.map_eq_some_iff.mp isEnded
    exact ⟨token, List.mem_of_getLast? isLast, isStop⟩
  next => exact ⟨_, List.mem_append_right _ List.mem_cons_self, rfl⟩

/-- What stands behind the tokens that are read, and that it ends them. -/
theorem ended_eq (tokens : List Token) :
    ∃ stop beyond, ended tokens = bodyTokens tokens ++ stop :: beyond ∧
      stop.kind = .endOfInput ∧ stop.site = stopSite tokens := by
  have parts : bodyTokens tokens ++ (ended tokens).dropWhile (·.kind ≠ .endOfInput) =
      ended tokens := List.takeWhile_append_dropWhile
  cases rest : (ended tokens).dropWhile (·.kind ≠ .endOfInput) with
  | cons stop beyond =>
      have isStop : stop.kind = .endOfInput := by
        have first :=
          List.head?_dropWhile_not (fun token => decide (token.kind ≠ .endOfInput)) (ended tokens)
        rw [rest] at first
        simpa using first
      have site : stopSite tokens = stop.site := by rw [stopSite, rest]
      exact ⟨stop, beyond, by rw [← rest, parts], isStop, site.symm⟩
  | nil =>
      obtain ⟨stop, inside, isStop⟩ := ended_stops tokens
      rw [rest, List.append_nil] at parts
      rw [← parts] at inside
      exact absurd isStop (bodyTokens_endFree tokens stop inside)

/-- What parsers see at a cursor is what stands there. -/
structure Stands (tokens : List Token) (setting : Setting) (cursor : Nat) : Prop where
  below : cursor < (ended tokens).length
  kind : (ended tokens)[cursor]?.map Token.kind = some (kindOf (leftAt tokens cursor))
  site : (ended tokens)[cursor]?.map Token.site = some (siteOf setting (leftAt tokens cursor))

/-- Cursors up to the first end of input are such, and there is none before it. -/
theorem stands (coin : Nat → Bool) (tokens : List Token) {cursor : Nat}
    (within : cursor ≤ stopIndex tokens) :
    Stands tokens ⟨stopSite tokens, coin⟩ cursor ∧
      (kindOf (leftAt tokens cursor) = .endOfInput ↔ cursor = stopIndex tokens) := by
  obtain ⟨stop, beyond, parts, isStop, site⟩ := ended_eq tokens
  unfold stopIndex at within ⊢
  rcases Nat.lt_or_eq_of_le within with before | rfl
  · have left : leftAt tokens cursor =
        (bodyTokens tokens)[cursor] :: (bodyTokens tokens).drop (cursor + 1) :=
      List.drop_eq_getElem_cons before
    have here : (ended tokens)[cursor]? = some (bodyTokens tokens)[cursor] := by
      rw [parts, List.getElem?_append_left before, List.getElem?_eq_getElem before]
    have free := bodyTokens_endFree tokens _ (List.getElem_mem before)
    refine ⟨⟨?_, by rw [here, left]; rfl, by rw [here, left]; rfl⟩, ?_⟩
    · rw [parts, List.length_append]
      exact Nat.lt_add_right _ before
    · rw [left]
      exact ⟨fun isEnd => absurd isEnd free, fun same => absurd same (Nat.ne_of_lt before)⟩
  · have left : leftAt tokens (bodyTokens tokens).length = [] := List.drop_length
    have here : (ended tokens)[(bodyTokens tokens).length]? = some stop := by
      rw [parts, List.getElem?_append_right (Nat.le_refl _), Nat.sub_self]
      rfl
    refine ⟨⟨?_, ?_, ?_⟩, ?_⟩
    · rw [parts, List.length_append, List.length_cons]
      exact Nat.lt_add_of_pos_right (Nat.succ_pos _)
    · rw [here, left, Option.map_some, isStop]
      rfl
    · rw [here, left, Option.map_some, site]
      rfl
    · rw [left]
      exact ⟨fun _ => rfl, fun _ => rfl⟩

/-- The parser takes the cursor from one place to another, at or before the first
end of input, and not back. -/
structure Moves {α : Type} (parser : Parser α) (setting : Setting) (tokens : List Token)
    (cursor next : Nat) : Prop where
  rest : (parser setting (leftAt tokens cursor)).rest = leftAt tokens next
  forward : cursor ≤ next
  within : next ≤ stopIndex tokens

/-- From every cursor, whatever the tokens. -/
def Forward {α : Type} (parser : Parser α) : Prop :=
  ∀ setting tokens cursor, cursor ≤ stopIndex tokens →
    ∃ next, Moves parser setting tokens cursor next

/-- From every cursor before the end of input, by one token at least. -/
def Advances {α : Type} (parser : Parser α) : Prop :=
  ∀ setting tokens cursor, cursor < stopIndex tokens →
    ∃ next, Moves parser setting tokens cursor next ∧ cursor < next

/-- An end of what is left is what is left at a later cursor. -/
theorem leftAt_of_suffix {tokens left : List Token} {cursor : Nat}
    (within : cursor ≤ stopIndex tokens) (suffix : left <:+ leftAt tokens cursor) :
    left = leftAt tokens (stopIndex tokens - left.length) ∧
      cursor ≤ stopIndex tokens - left.length := by
  obtain ⟨taken, parts⟩ := suffix
  unfold leftAt stopIndex at *
  have lengths := congrArg List.length parts
  rw [List.length_append, List.length_drop] at lengths
  have later : (bodyTokens tokens).length - left.length = cursor + taken.length := by omega
  rw [later, ← List.drop_drop, ← parts, List.drop_left]
  exact ⟨rfl, Nat.le_add_right _ _⟩

section Parsers

variable {α β : Type} {good : α → Prop} {parser : Parser α}

/-- Parsers that leave an end of any tokens. -/
abbrev YieldsAny (good : α → Prop) (parser : Parser α) : Prop :=
  Yields (fun _ => True) good parser

theorem YieldsAny.suffix (yields : YieldsAny good parser) (setting : Setting)
    (tokens : List Token) : (parser setting tokens).rest <:+ tokens :=
  (yields setting tokens fun _ _ => trivial).rest

theorem YieldsAny.forward (yields : YieldsAny good parser) : Forward parser := by
  intro setting tokens cursor within
  obtain ⟨rest, later⟩ := leftAt_of_suffix within (yields.suffix setting (leftAt tokens cursor))
  exact ⟨_, rest, later, Nat.sub_le _ _⟩

/-! ## Taking a token -/

/-- From a token on, the parser gives up or takes it. -/
def Shortens (parser : Parser α) : Prop :=
  ∀ setting token rest, (parser setting (token :: rest)).outcome.isSome →
    (parser setting (token :: rest)).rest.length < (token :: rest).length

theorem shortens_taking (yields : YieldsAny good parser) : Shortens (taking parser) :=
  fun setting _ rest _ => Nat.lt_succ_of_le (yields.suffix setting rest).length_le

theorem shortens_dispatch {next : Kind → Parser α} (ahead : ∀ kind, Shortens (next kind)) :
    Shortens (peek >>= next) := by
  intro setting token rest done
  rw [bind_of_some token.kind rfl] at done ⊢
  exact ahead token.kind setting token rest done

/-- What ends with a token of a kind has taken that one at least. -/
theorem shortens_ended (yields : YieldsAny good parser) (kind : Kind) (landmark : String)
    (convert : α → β) :
    Shortens (do
      let value ← parser
      let _ ← expectAfter kind landmark
      pure (convert value)) := by
  intro setting token rest done
  have suffix := yields.suffix setting (token :: rest)
  cases outcome : (parser setting (token :: rest)).outcome with
  | none =>
      rw [bind_of_none outcome] at done
      cases done
  | some value =>
      rw [bind_of_some value outcome] at done ⊢
      generalize (parser setting (token :: rest)).rest = left at done suffix ⊢
      cases left with
      | nil => exact Nat.succ_pos _
      | cons last others =>
          have shorter : others.length < (token :: rest).length := suffix.length_le
          by_cases found : last.kind = kind
          · have ends : expectAfter kind landmark setting (last :: others) =
                ⟨some last, others, []⟩ := if_pos found
            rw [bind_of_some last (by rw [ends]), ends]
            exact shorter
          · have fails : expectAfter kind landmark setting (last :: others) =
                ⟨none, last :: others, _⟩ := if_neg found
            rw [bind_of_none (by rw [fails])] at done
            cases done

/-- Where a parser gives up, a token is skipped if there is one. -/
theorem advances_recovered (yields : YieldsAny good parser) (takes : Shortens parser) :
    Advances (recovered parser) := by
  intro setting tokens cursor before
  obtain ⟨next, moves⟩ :=
    YieldsAny.forward yields.recovered setting tokens cursor (Nat.le_of_lt before)
  refine ⟨next, moves, Nat.lt_of_le_of_ne moves.forward ?_⟩
  rintro rfl
  obtain ⟨token, rest, left⟩ : ∃ token rest, leftAt tokens cursor = token :: rest :=
    ⟨_, _, List.drop_eq_getElem_cons before⟩
  have same := congrArg List.length moves.rest
  have suffix := (yields.suffix setting (token :: rest)).length_le
  rw [left] at same
  cases outcome : (parser setting (token :: rest)).outcome with
  | some value =>
      rw [recovered_of_some value outcome] at same
      exact absurd same (Nat.ne_of_lt (takes setting token rest (by rw [outcome]; rfl)))
  | none =>
      rw [recovered_of_none outcome] at same
      cases remaining : (parser setting (token :: rest)).rest with
      | nil =>
          rw [remaining] at same
          cases same
      | cons first others =>
          have shorter := synchronize_length_lt first others
          rw [remaining] at same suffix
          dsimp only at same
          omega

end Parsers

/-! ## The grammar -/

/-- The parsers of the grammar, to a given depth, never go back, nor past the end
of input. -/
structure GrammarForward (depth : Nat) : Prop where
  expression : Forward (expression depth)
  operation : ∀ level, Forward (operation depth level)
  unary : Forward (unary depth)
  suffixed : Forward (suffixed depth)
  argument : Forward (argument depth)
  body : Forward (body depth)
  statement : Forward (statement depth)
  declaration : Forward (declaration depth)

theorem grammarYields_any (depth : Nat) : GrammarYields (fun _ => True) Marks.any depth :=
  grammar_yields (Marks.any_covers _) depth

theorem grammar_forward (depth : Nat) : GrammarForward depth :=
  have yields := grammarYields_any depth
  { expression := YieldsAny.forward yields.expression
    operation := fun level => YieldsAny.forward (yields.operation level)
    unary := YieldsAny.forward yields.unary
    suffixed := YieldsAny.forward yields.suffixed
    argument := YieldsAny.forward yields.argument
    body := YieldsAny.forward yields.body
    statement := YieldsAny.forward yields.statement
    declaration := YieldsAny.forward yields.declaration }

theorem shortens_failHere {α : Type} (problem : Problem) :
    Shortens (failHere problem : Parser α) := by
  intro setting token rest done
  cases done

/-- A statement starts with its keyword, or ends with a semicolon. -/
theorem statement_shortens (depth : Nat) : Shortens (statement depth) := by
  cases depth with
  | zero => exact shortens_failHere _
  | succ depth =>
      have parts := grammarYields_any depth
      refine shortens_dispatch fun kind => ?_
      cases kind with
      | printWord => exact shortens_taking (printRest_yields parts.expression)
      | leftBrace =>
          have block : YieldsAny (fun _ => True) (Stmt.block <$> body depth) :=
            parts.body.map fun _ _ => trivial
          exact shortens_taking block
      | ifWord => exact shortens_taking (ifRest_yields parts.expression parts.statement)
      | forWord =>
          exact shortens_taking
            (forRest_yields (Marks.any_covers _) parts.expression parts.statement)
      | whileWord => exact shortens_taking (whileRest_yields parts.expression parts.statement)
      | switchWord => exact shortens_taking (switchRest_yields parts.expression parts.body depth)
      | returnWord => exact shortens_taking (returnRest_yields parts.expression depth)
      | _ => exact shortens_ended parts.expression _ _ _

theorem declaration_shortens (depth : Nat) : Shortens (declaration depth) := by
  cases depth with
  | zero => exact shortens_failHere _
  | succ depth =>
      have parts := grammarYields_any depth
      have covers := Marks.any_covers fun _ : Token => True
      refine shortens_dispatch fun kind => ?_
      cases kind with
      | funWord => exact shortens_taking (functionDeclaration_yields covers parts.body depth)
      | varWord => exact shortens_taking (varRest_yields covers parts.expression)
      | constWord => exact shortens_taking (constRest_yields covers parts.expression)
      | _ => exact statement_shortens depth

/-- What is read behind a token that is taken leaves fewer tokens, whatever it
does. -/
theorem shortens_accept {α : Type} {good : α → Prop} {kind : Kind} {next : Option Token → Parser α}
    (taken : ∀ token, YieldsAny good (next (some token))) (absent : Shortens (next none)) :
    Shortens (accept kind >>= next) := by
  intro setting token rest done
  have shape := chooses_accept kind next
  by_cases found : token.kind = kind
  · rw [shape.found setting token rest () (if_pos found)]
    exact Nat.lt_succ_of_le ((taken token).suffix setting rest).length_le
  · rw [shape.other setting token rest (if_neg found)] at done ⊢
    exact absent setting token rest done

theorem bodyStatement_shortens (depth : Nat) : Shortens (bodyStatement (declaration depth)) := by
  have jumps : ∀ jump keyword, YieldsAny (fun _ => True) (jumpRest jump keyword) :=
    fun _ _ => (Yields.expectAfter _ _).bind fun _ _ => .pure trivial
  exact shortens_accept (fun _ => jumps _ _)
    (shortens_accept (fun _ => jumps _ _) (declaration_shortens depth))

/-! ## Programs -/

/-- Reading declaration after declaration from a cursor on, each further than the
one before, until the cursor is on the first end of input. -/
inductive Walk (setting : Setting) (tokens : List Token) : Nat → Parse → Prop where
  | stop : Walk setting tokens (stopIndex tokens) ⟨[], []⟩
  | declaration {cursor following : Nat} {rest : Parse} (before : cursor < stopIndex tokens)
      (moves : Moves (recovered (declaration (depthFor (stopIndex tokens)))) setting tokens cursor
        following)
      (forward : cursor < following) (others : Walk setting tokens following rest) :
      Walk setting tokens cursor
        (contribution (recovered (declaration (depthFor (stopIndex tokens))) setting
          (leftAt tokens cursor)) ++ rest)

/-- The loop of declarations, from what is left at a cursor. -/
theorem walk_program (setting : Setting) (tokens left : List Token) {cursor : Nat}
    (within : cursor ≤ stopIndex tokens) (isLeft : leftAt tokens cursor = left) :
    Walk setting tokens cursor (program setting left) := by
  induction left using program_induction setting generalizing cursor with
  | nil =>
      have atStop : cursor = stopIndex tokens :=
        Nat.le_antisymm within (List.drop_eq_nil_iff.mp isLeft)
      rw [atStop]
      exact .stop
  | cons token rest inductionHypothesis =>
      have before : cursor < stopIndex tokens := by
        refine Nat.lt_of_not_le fun past => ?_
        rw [leftAt, List.drop_eq_nil_of_le past] at isLeft
        cases isLeft
      obtain ⟨following, moves, forward⟩ := advances_recovered
        (grammarYields_any (depthFor (stopIndex tokens))).declaration (declaration_shortens _)
        setting tokens cursor before
      have enough : depthFor (leftAt tokens cursor).length ≤ depthFor (stopIndex tokens) :=
        depthFor_le (List.drop_sublist _ _).length_le
      have first : recovered (Grammar.declaration (depthFor (stopIndex tokens))) setting
          (leftAt tokens cursor) = next setting (token :: rest) := by
        rw [recovered_declaration_eq setting _ enough, isLeft]
      have walk := Walk.declaration before moves forward
        (inductionHypothesis moves.within (by rw [← moves.rest, first]))
      rwa [first, ← program_cons] at walk

theorem recovered_reports {α : Type} (parser : Parser α) (setting : Setting)
    (tokens : List Token) :
    (recovered parser setting tokens).reports = (parser setting tokens).reports := by
  unfold recovered
  dsimp only
  split <;> rfl

/-- The depth is always enough. -/
theorem program_finishes (setting : Setting) (tokens : List Token) :
    ∀ diagnostic ∈ (program setting tokens).diagnostics, diagnostic.problem ≠ .tooDeep := by
  induction tokens using program_induction setting with
  | nil => exact List.forall_mem_nil _
  | cons token rest inductionHypothesis =>
      have stable := declaration_stable noChange (Nat.le_refl (depthFor (token :: rest).length))
        (Nat.le_refl _)
      have first : ∀ report ∈ (next setting (token :: rest)).reports,
          report.problem ≠ .tooDeep := by
        rw [next, recovered_reports]
        exact stable.finishes (Nat.lt_succ_self _)
      rw [program_cons]
      exact List.forall_mem_append.mpr ⟨first, inductionHypothesis⟩

/-- **Reading ends, on any tokens.** A cursor up to the first end of input stands
on a token; no parser of the grammar takes it back or past that end; a declaration
that starts before the end takes it forward, read or recovered from; depth and
fuel are enough, so that more changes nothing; and the program is read from the
first token to the first end of input. -/
theorem parse_reads_to_end (coin : Nat → Bool) (tokens : List Token) :
    (∀ cursor ≤ stopIndex tokens, Stands tokens ⟨stopSite tokens, coin⟩ cursor ∧
      (kindOf (leftAt tokens cursor) = .endOfInput ↔ cursor = stopIndex tokens)) ∧
    (∀ depth, GrammarForward depth) ∧
    (∀ depth, Advances (recovered (declaration depth)) ∧
      Advances (recovered (bodyStatement (declaration depth)))) ∧
    (∀ depth fuel, depthFor (stopIndex tokens) ≤ depth → stopIndex tokens ≤ fuel →
      statements depth ⟨stopSite tokens, coin⟩ fuel (leftAt tokens 0) [] [] = parse coin tokens) ∧
    (∀ diagnostic ∈ (parse coin tokens).diagnostics, diagnostic.problem ≠ .tooDeep) ∧
    Walk ⟨stopSite tokens, coin⟩ tokens 0 (parse coin tokens) := by
  refine ⟨fun cursor within => stands coin tokens within, grammar_forward, fun depth => ?_, ?_,
    program_finishes _ _, walk_program _ tokens _ (Nat.zero_le _) rfl⟩
  · have parts := grammarYields_any depth
    exact ⟨advances_recovered parts.declaration (declaration_shortens depth),
      advances_recovered (bodyStatement_yields parts.declaration) (bodyStatement_shortens depth)⟩
  · intro depth fuel deep fuelled
    rw [statements_eq _ _ (leftAt tokens 0) [] [] (Nat.le_refl _) fuelled deep]
    exact Parse.ext_iff_fields.mpr ⟨rfl, rfl⟩

/-- Tokens that end in the middle, and not at the end. -/
def cutShort : List Token :=
  [plain .rightParen ")", Token.endOfInput 1, plain .breakWord "break"]

theorem cutShort_reads_to_end :
    (ended cutShort).length = 4 ∧ stopIndex cutShort = 1 ∧
      (parse (fun _ => true) cutShort).diagnostics =
        [⟨⟨1, .lexeme ")"⟩, .expected .expression⟩] ∧
      Stands cutShort ⟨stopSite cutShort, fun _ => true⟩ 0 ∧
      Walk ⟨stopSite cutShort, fun _ => true⟩ cutShort 0 (parse (fun _ => true) cutShort) :=
  have reads := parse_reads_to_end (fun _ => true) cutShort
  ⟨rfl, rfl, rfl, (reads.1 0 (Nat.zero_le _)).1, reads.2.2.2.2.2⟩

end Scriptlet.Grammar
