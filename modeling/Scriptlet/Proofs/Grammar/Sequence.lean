import Scriptlet.Grammar.Program
import Scriptlet.Proofs.Grammar.StableStatement

/-!
Contract: programs are read statement by statement.

Owns: `program`, which reads the tokens before the end of input; its equation
(`program_cons`), which reads one declaration and goes on with the tokens left;
and the law of changed lists (`program_tokens`): what is read without a report
is read in the same way when lines are renumbered and more follows, and then the
rest is read as if it stood alone.

Does not own: what happens to a statement that cannot be read
(`Scriptlet.Proofs.Grammar.Recovery`).
-/

set_option autoImplicit false

namespace Scriptlet

instance : Append Parse :=
  ⟨fun first second => ⟨first.program ++ second.program, first.diagnostics ++ second.diagnostics⟩⟩

instance : Lined Parse :=
  ⟨fun line parse => ⟨relabel line parse.program, relabel line parse.diagnostics⟩⟩

@[simp] theorem Parse.append_program (first second : Parse) :
    (first ++ second).program = first.program ++ second.program := rfl

@[simp] theorem Parse.append_diagnostics (first second : Parse) :
    (first ++ second).diagnostics = first.diagnostics ++ second.diagnostics := rfl

@[simp] theorem relabel_parse_program (line : Nat → Nat) (parse : Parse) :
    (relabel line parse).program = relabel line parse.program := rfl

@[simp] theorem relabel_parse_diagnostics (line : Nat → Nat) (parse : Parse) :
    (relabel line parse).diagnostics = relabel line parse.diagnostics := rfl

theorem Parse.ext_iff_fields {first second : Parse} :
    first = second ↔ first.program = second.program ∧ first.diagnostics = second.diagnostics := by
  cases first
  cases second
  simp

instance : LawfulLined Parse where
  relabel_id _ := Parse.ext_iff_fields.mpr ⟨relabel_id _, relabel_id _⟩
  relabel_relabel f g _ :=
    Parse.ext_iff_fields.mpr ⟨relabel_relabel f g _, relabel_relabel f g _⟩

namespace Grammar

open Scriptlet.Parser

/-! ## Depth -/

/-- The change that changes nothing. -/
def noChange : Change := ⟨id, [], True, fun _ => rfl⟩

@[simp] theorem noChange_tokens (tokens : List Token) : noChange.tokens tokens = tokens := by
  show relabel id tokens ++ [] = tokens
  rw [relabel_id, List.append_nil]

@[simp] theorem noChange_reply {α : Type} [Lined α] [LawfulLined α] (reply : Reply α) :
    noChange.reply reply = reply := by
  obtain ⟨outcome, rest, reports⟩ := reply
  show Reply.mk (relabel id outcome) (noChange.tokens rest) (relabel id reports) = _
  rw [relabel_id, noChange_tokens, relabel_id]

theorem noChange_fits (setting : Setting) (tokens : List Token) :
    noChange.Fits setting setting tokens :=
  ⟨fun _ _ _ _ => rfl, fun _ => rfl⟩

theorem depthFor_le {count bound : Nat} (le : count ≤ bound) : depthFor count ≤ depthFor bound :=
  Nat.mul_le_mul_left 20 (Nat.add_le_add_right le 2)

/-- A depth that is enough for a list is more than the parsers ask for. -/
theorem deep_of_depthFor {count depth other : Nat} (enough : depthFor count ≤ depth)
    (otherEnough : depthFor count ≤ other) : Deep (20 * (count + 1) + 10) depth other := by
  unfold depthFor at enough otherEnough
  exact ⟨by omega, by omega⟩

/-- The declarations of a list are stable at depths that are enough for it. -/
theorem declaration_stable (change : Change) {count depth other : Nat}
    (enough : depthFor count ≤ depth) (otherEnough : depthFor count ≤ other) :
    Stable change (count + 1) (Separate change.more) True (declaration depth) (declaration other) :=
  (grammar_stable change (count + 1)).declaration (deep_of_depthFor enough otherEnough)

/-- Depths that are enough are all the same. -/
theorem declaration_depth {depth other : Nat} (setting : Setting) (tokens : List Token)
    (enough : depthFor tokens.length ≤ depth) (otherEnough : depthFor tokens.length ≤ other) :
    declaration other setting tokens = declaration depth setting tokens := by
  have same := (declaration_stable noChange enough otherEnough).carries (Nat.lt_succ_self _)
    (noChange_fits setting tokens) (Or.inl trivial)
  rwa [noChange_tokens, noChange_reply] at same

/-! ## Programs -/

/-- Reads one declaration, at a depth that is enough. -/
def next (setting : Setting) (tokens : List Token) : Reply (Option Stmt) :=
  recovered (declaration (depthFor tokens.length)) setting tokens

/-- Reads the tokens before the end of input. -/
def program (setting : Setting) (tokens : List Token) : Parse :=
  statements (depthFor tokens.length) setting tokens.length tokens [] []

theorem recovered_declaration_eq {depth : Nat} (setting : Setting) (tokens : List Token)
    (enough : depthFor tokens.length ≤ depth) :
    recovered (declaration depth) setting tokens = next setting tokens := by
  simp only [next, recovered, declaration_depth setting tokens (Nat.le_refl _) enough]

theorem next_length_lt (setting : Setting) (token : Token) (rest : List Token) :
    (next setting (token :: rest)).rest.length < (token :: rest).length := by
  have stable := (declaration_stable noChange (Nat.le_refl (depthFor (token :: rest).length))
    (Nat.le_refl _)).recovered token.kind
  refine stable.advances trivial ⟨token, rest, rfl, rfl, Nat.lt_succ_self _⟩ ?_
  cases outcome : (declaration (depthFor (token :: rest).length) setting (token :: rest)).outcome with
  | none => rw [recovered_of_none outcome]; rfl
  | some value => rw [recovered_of_some value outcome]; rfl

/-- What one declaration adds to a program. -/
def contribution (reply : Reply (Option Stmt)) : Parse :=
  ⟨reply.outcome.join.toList, reply.reports⟩

/-- One declaration of the loop, with what has been read before it. -/
theorem statements_succ {depth : Nat} (setting : Setting) (fuel : Nat) (token : Token)
    (rest : List Token) (before : List Stmt) (reports : List Diagnostic)
    (enough : depthFor (token :: rest).length ≤ depth) :
    statements depth setting (fuel + 1) (token :: rest) before reports =
      statements depth setting fuel (next setting (token :: rest)).rest
        ((next setting (token :: rest)).outcome.join.toList ++ before)
        ((next setting (token :: rest)).reports.reverse ++ reports) := by
  rw [statements, recovered_declaration_eq setting (token :: rest) enough]
  rcases next setting (token :: rest) with ⟨_ | _ | statement, tokens, more⟩ <;> rfl

/-- A program is the same loop, with nothing before it. -/
theorem program_eq_statements (setting : Setting) (token : Token) (rest : List Token) :
    program setting (token :: rest) =
      statements (depthFor (token :: rest).length) setting rest.length
        (next setting (token :: rest)).rest
        ((next setting (token :: rest)).outcome.join.toList ++ [])
        ((next setting (token :: rest)).reports.reverse ++ []) :=
  statements_succ setting rest.length token rest [] [] (Nat.le_refl _)

/-- Whatever has been read before comes first; fuel and depth do not matter once
they are enough. -/
theorem statements_eq (setting : Setting) (size : Nat) :
    ∀ {depth fuel : Nat} (tokens : List Token) (before : List Stmt) (reports : List Diagnostic),
      tokens.length ≤ size → tokens.length ≤ fuel → depthFor tokens.length ≤ depth →
        statements depth setting fuel tokens before reports =
          ⟨before.reverse, reports.reverse⟩ ++ program setting tokens := by
  induction size with
  | zero =>
      intro depth fuel tokens before reports short _ _
      rw [List.eq_nil_of_length_eq_zero (Nat.le_zero.mp short), program, statements, statements,
        Parse.ext_iff_fields]
      simp
  | succ size inductionHypothesis =>
      intro depth fuel tokens before reports short fuelled deep
      cases tokens with
      | nil =>
          rw [program, statements, statements, Parse.ext_iff_fields]
          simp
      | cons token rest =>
          obtain ⟨fuel, rfl⟩ : ∃ less, fuel = less + 1 := ⟨fuel - 1, by simp at fuelled; omega⟩
          have shorter := next_length_lt setting token rest
          have deeper := depthFor_le (Nat.le_of_lt shorter)
          rw [statements_succ setting fuel token rest before reports deep,
            inductionHypothesis _ _ _ (by omega) (by omega) (Nat.le_trans deeper deep),
            program_eq_statements setting token rest,
            inductionHypothesis _ _ _ (by omega) (Nat.le_of_lt_succ shorter) deeper,
            Parse.ext_iff_fields]
          cases (next setting (token :: rest)).outcome.join <;> simp

theorem program_nil (setting : Setting) : program setting [] = ⟨[], []⟩ := rfl

/-- A program is its first declaration, and the program of what that leaves. -/
theorem program_cons (setting : Setting) (token : Token) (rest : List Token) :
    program setting (token :: rest) =
      contribution (next setting (token :: rest)) ++
        program setting (next setting (token :: rest)).rest := by
  have shorter := next_length_lt setting token rest
  rw [program_eq_statements, statements_eq setting _ _ _ _ (Nat.le_refl _)
    (Nat.le_of_lt_succ shorter) (depthFor_le (Nat.le_of_lt shorter)), Parse.ext_iff_fields]
  cases outcome : (next setting (token :: rest)).outcome.join <;> simp [contribution, outcome]

/-- Induction along the declarations of a program. -/
theorem program_induction {motive : List Token → Prop} (setting : Setting) (nil : motive [])
    (cons : ∀ token rest, motive (next setting (token :: rest)).rest → motive (token :: rest))
    (tokens : List Token) : motive tokens := by
  suffices bounded : ∀ size (tokens : List Token), tokens.length ≤ size → motive tokens from
    bounded tokens.length tokens (Nat.le_refl _)
  intro size
  induction size with
  | zero =>
      intro tokens short
      rw [List.eq_nil_of_length_eq_zero (Nat.le_zero.mp short)]
      exact nil
  | succ size inductionHypothesis =>
      intro tokens short
      cases tokens with
      | nil => exact nil
      | cons token rest =>
          have shorter := next_length_lt setting token rest
          exact cons token rest (inductionHypothesis _ (by omega))

/-! ## Failed declarations -/

/-- A declaration that is not read has been reported. -/
theorem next_reported (setting : Setting) (tokens : List Token)
    (failed : (next setting tokens).outcome.join = none) : (next setting tokens).reports ≠ [] := by
  have stable := declaration_stable noChange (Nat.le_refl (depthFor tokens.length)) (Nat.le_refl _)
  cases outcome : (declaration (depthFor tokens.length) setting tokens).outcome with
  | some value =>
      rw [next, recovered_of_some value outcome] at failed
      cases failed
  | none =>
      rw [next, recovered_of_none outcome]
      obtain ⟨earlier, last, reports, -⟩ := stable.explains (Nat.lt_succ_self _) outcome
      simp [reports]

/-- A program that is read without a report is a statement for each declaration. -/
theorem next_of_clean {setting : Setting} {token : Token} {rest : List Token}
    (clean : (program setting (token :: rest)).diagnostics = []) :
    ∃ statement left,
      declaration (depthFor (token :: rest).length) setting (token :: rest) =
        ⟨some statement, left, []⟩ ∧
      program setting (token :: rest) = ⟨[statement], []⟩ ++ program setting left := by
  rw [program_cons] at clean ⊢
  obtain ⟨noReports, -⟩ := List.append_eq_nil_iff.mp clean
  have noReports : (next setting (token :: rest)).reports = [] := noReports
  cases reply : declaration (depthFor (token :: rest).length) setting (token :: rest) with
  | mk outcome left reports =>
      cases outcome with
      | none =>
          have joined : (next setting (token :: rest)).outcome.join = none := by
            rw [next, recovered_of_none (by rw [reply])]
            rfl
          exact absurd noReports (next_reported setting (token :: rest) joined)
      | some statement =>
          have isNext : next setting (token :: rest) = ⟨some (some statement), left, reports⟩ := by
            rw [next, recovered_of_some statement (by rw [reply]), reply]
          rw [isNext] at noReports ⊢
          cases noReports
          exact ⟨statement, left, rfl, rfl⟩

/-! ## Changed lists -/

section Changed

variable {change : Change} {setting other : Setting} {tokens : List Token}

theorem length_le_tokens (change : Change) (tokens : List Token) :
    tokens.length ≤ (change.tokens tokens).length := by
  simp [Change.tokens]

/-- A declaration is read in the same way in a changed list if the change cannot
have touched it. -/
theorem declaration_tokens (fits : change.Fits setting other tokens)
    (spares : change.Spares (Separate change.more)
      (declaration (depthFor tokens.length) setting tokens)) :
    declaration (depthFor (change.tokens tokens).length) other (change.tokens tokens) =
      change.reply (declaration (depthFor tokens.length) setting tokens) :=
  (declaration_stable change (Nat.le_refl _) (depthFor_le (length_le_tokens change tokens))).carries
    (Nat.lt_succ_self _) fits spares

theorem next_tokens (fits : change.Fits setting other tokens)
    (spared : change.ends ∨
      Separate change.more ∧ (declaration (depthFor tokens.length) setting tokens).outcome.isSome) :
    next other (change.tokens tokens) = change.reply (next setting tokens) := by
  have spares : change.Spares (Separate change.more)
      (declaration (depthFor tokens.length) setting tokens) :=
    spared.imp_right Or.inr
  have same := declaration_tokens fits spares
  cases outcome : (declaration (depthFor tokens.length) setting tokens).outcome with
  | some statement =>
      rw [next, next, recovered_of_some statement outcome,
        recovered_of_some (relabel change.line statement)
          (by rw [same]; simp [Change.reply, outcome]), same]
      rfl
  | none =>
      have isEnd : change.ends := spared.resolve_right fun both => by
        simp [outcome] at both
      rw [next, next, recovered_of_none outcome,
        recovered_of_none (by rw [same]; simp [Change.reply, outcome]), same]
      simp only [Change.reply, synchronize_tokens _ (Or.inl (change.final isEnd))]
      rfl

theorem relabel_contribution (line : Nat → Nat) (reply : Reply (Option Stmt)) :
    relabel line (contribution reply) =
      ⟨(relabel line reply.outcome).join.toList, relabel line reply.reports⟩ := by
  rcases reply with ⟨_ | _ | statement, rest, reports⟩ <;> rfl

theorem relabel_parse_append (line : Nat → Nat) (first second : Parse) :
    relabel line (first ++ second) = relabel line first ++ relabel line second := by
  rw [Parse.ext_iff_fields]
  simp

theorem Parse.append_assoc (first second third : Parse) :
    first ++ second ++ third = first ++ (second ++ third) := by
  rw [Parse.ext_iff_fields]
  simp

/-- A program in a changed list is the changed program, and then the program of
what follows. It has to be read without a report if anything follows, and what
follows must not go on with its last statement. -/
theorem program_tokens (fits : change.Fits setting other tokens)
    (spared : change.ends ∨
      Separate change.more ∧ (program setting tokens).diagnostics = []) :
    program other (change.tokens tokens) =
      relabel change.line (program setting tokens) ++ program other change.more := by
  induction tokens using program_induction setting with
  | nil => rfl
  | cons token rest inductionHypothesis =>
      have leaves : (next setting (token :: rest)).rest <:+ token :: rest :=
        ((declaration_stable noChange (Nat.le_refl _) (Nat.le_refl _)).recovered token.kind).leaves _
          ⟨token, rest, rfl, rfl, Nat.lt_succ_self _⟩
      have sparedHere : change.ends ∨ Separate change.more ∧
          (declaration (depthFor (token :: rest).length) setting (token :: rest)).outcome.isSome := by
        refine spared.imp_right fun both => ⟨both.1, ?_⟩
        obtain ⟨statement, left, reply, -⟩ := next_of_clean both.2
        rw [reply]
        rfl
      have sparedLater : change.ends ∨ Separate change.more ∧
          (program setting (next setting (token :: rest)).rest).diagnostics = [] := by
        refine spared.imp_right fun both => ⟨both.1, ?_⟩
        have clean := both.2
        rw [program_cons] at clean
        exact (List.append_eq_nil_iff.mp clean).2
      have same := next_tokens fits sparedHere
      rw [Change.tokens_cons] at same ⊢
      rw [program_cons, same, program_cons setting token rest, relabel_parse_append,
        relabel_contribution, Parse.append_assoc,
        ← inductionHypothesis (fits.suffix leaves) sparedLater]
      rfl

/-- More tokens follow, and no line is renumbered. -/
def followedBy (more : List Token) : Change := ⟨id, more, False, False.elim⟩

theorem followedBy_tokens (more tokens : List Token) :
    (followedBy more).tokens tokens = tokens ++ more :=
  congrArg (· ++ more) (relabel_id tokens)

/-- How each `maybe` falls in tokens that `more` follows. -/
def coinBefore (coin : Nat → Bool) (more : List Token) : Nat → Bool :=
  fun left => coin (left + more.length)

theorem followedBy_fits (before stop : Site) (coin : Nat → Bool) (more tokens : List Token) :
    (followedBy more).Fits ⟨before, coinBefore coin more⟩ ⟨stop, coin⟩ tokens :=
  ⟨fun _ _ _ _ => rfl, False.elim⟩

/-- A program that is read without a report, and then the rest. -/
theorem program_append (before stop : Site) (coin : Nat → Bool) {first more : List Token}
    (separate : Separate more)
    (clean : (program ⟨before, coinBefore coin more⟩ first).diagnostics = []) :
    program ⟨stop, coin⟩ (first ++ more) =
      program ⟨before, coinBefore coin more⟩ first ++ program ⟨stop, coin⟩ more := by
  have same := program_tokens (followedBy_fits before stop coin more first)
    (Or.inr ⟨separate, clean⟩)
  rw [followedBy_tokens] at same
  rw [same]
  exact congrArg (· ++ program ⟨stop, coin⟩ more) (relabel_id _)

end Changed

/-! ## The end of input -/

/-- Tokens before the end of input. -/
def EndFree (tokens : List Token) : Prop :=
  ∀ token ∈ tokens, token.kind ≠ .endOfInput

instance (tokens : List Token) : Decidable (EndFree tokens) :=
  inferInstanceAs (Decidable (∀ token ∈ tokens, token.kind ≠ .endOfInput))

theorem EndFree.append {first second : List Token} (firstFree : EndFree first)
    (secondFree : EndFree second) : EndFree (first ++ second) := by
  intro token inside
  rcases List.mem_append.mp inside with inFirst | inSecond
  · exact firstFree token inFirst
  · exact secondFree token inSecond

theorem EndFree.suffix {tokens tail : List Token} (free : EndFree tokens) (suffix : tail <:+ tokens) :
    EndFree tail :=
  fun token inside => free token (suffix.subset inside)

theorem ended_append_stop (tokens : List Token) {stop : Token} (isStop : stop.kind = .endOfInput) :
    ended (tokens ++ [stop]) = tokens ++ [stop] := by
  rw [ended, List.getLast?_concat, Option.map_some, isStop, if_pos rfl]

/-- An end of input that is added is not among the tokens before it. -/
theorem bodyTokens_subset (tokens : List Token) : bodyTokens tokens ⊆ tokens := by
  intro token inside
  have noEnd : token.kind ≠ .endOfInput := by
    simpa using List.all_eq_true.mp List.all_takeWhile token inside
  have isIn : token ∈ ended tokens := List.takeWhile_subset _ inside
  unfold ended at isIn
  split at isIn
  next => exact isIn
  next =>
    rcases List.mem_append.mp isIn with isIn | isEnd
    · exact isIn
    · rw [List.mem_singleton.mp isEnd] at noEnd
      exact absurd rfl noEnd

/-- What `parse` reads is the program before the end of input. -/
theorem parse_of_endFree (coin : Nat → Bool) {tokens : List Token} {stop : Token}
    (free : EndFree tokens) (isStop : stop.kind = .endOfInput) :
    parse coin (tokens ++ [stop]) = program ⟨stop.site, coin⟩ tokens := by
  have before : bodyTokens (tokens ++ [stop]) = tokens := by
    rw [bodyTokens, ended_append_stop tokens isStop,
      List.takeWhile_append_of_pos (by simpa [EndFree] using free)]
    simp [isStop]
  have site : stopSite (tokens ++ [stop]) = stop.site := by
    rw [stopSite, ended_append_stop tokens isStop,
      List.dropWhile_append_of_pos (by simpa [EndFree] using free)]
    simp [isStop]
  rw [parse, before, site]
  rfl

end Grammar

end Scriptlet
