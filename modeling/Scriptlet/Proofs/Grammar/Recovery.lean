import Scriptlet.Proofs.Grammar.Sequence

/-!
Contract: what becomes of a statement that cannot be read.

Owns: where reading goes on after an error (`resumeAfter_of_semicolon`), and
that a malformed statement which ends in its semicolon costs only itself
(`malformed_statement_is_local`).

## Why the error stays inside

A declaration that gives up has reported at the token it stopped before, or at a
bare identifier that it took last. If that is not the end of input, tokens of the
malformed statement are left, and the same happens whatever follows. Recovery then
skips up to the semicolon, since no other token of the statement stops it.
-/

set_option autoImplicit false

namespace Scriptlet.Grammar

open Scriptlet.Parser

/-! ## Where reading goes on -/

theorem resumeAfter_semicolon (tokens : List Token) : resumeAfter .semicolon tokens = tokens := by
  cases tokens with
  | nil => rfl
  | cons token rest => simp [resumeAfter]

/-- The search for the next statement passes tokens that begin none, up to the
first semicolon. -/
theorem resumeAfter_of_semicolon {previous : Kind} {before : List Token} {semicolon : Token}
    (isSemicolon : semicolon.kind = .semicolon) (notPrevious : previous ≠ .semicolon)
    (noOther : ∀ token ∈ before, token.kind ≠ .semicolon)
    (keywords : ∀ token ∈ before, token.kind.startsStatement = false) (more : List Token) :
    resumeAfter previous (before ++ semicolon :: more) = more := by
  induction before generalizing previous with
  | nil =>
      have passes : ¬ (previous = .semicolon || semicolon.kind.startsStatement) = true := by
        simp [notPrevious, isSemicolon, Kind.startsStatement]
      rw [List.nil_append, resumeAfter, if_neg passes, isSemicolon, resumeAfter_semicolon]
  | cons token before inductionHypothesis =>
      have passes : ¬ (previous = .semicolon || token.kind.startsStatement) = true := by
        simp [notPrevious, keywords token (by simp)]
      rw [List.cons_append, resumeAfter, if_neg passes]
      exact inductionHypothesis (noOther token (by simp))
        (fun other inside => noOther other (by simp [inside]))
        (fun other inside => keywords other (by simp [inside]))

/-- Tokens that end in their only semicolon, and of which none but the first
begins a statement. -/
structure Terminated (tokens : List Token) : Prop where
  ends : ∃ before semicolon, tokens = before ++ [semicolon] ∧ semicolon.kind = .semicolon ∧
    ∀ token ∈ before, token.kind ≠ .semicolon
  keywords : ∀ token ∈ tokens.tail, token.kind.startsStatement = false

theorem Terminated.exists_cons {tokens : List Token} (terminated : Terminated tokens) :
    ∃ token rest, tokens = token :: rest := by
  obtain ⟨before, semicolon, rfl, -⟩ := terminated.ends
  cases before with
  | nil => exact ⟨semicolon, [], rfl⟩
  | cons token before => exact ⟨token, before ++ [semicolon], rfl⟩

/-- After an error before any of these tokens, reading goes on behind all of
them. -/
theorem Terminated.synchronize {tokens left : List Token} (terminated : Terminated tokens)
    (suffix : left <:+ tokens) (some : left ≠ []) (more : List Token) :
    synchronize (left ++ more) = more := by
  obtain ⟨before, semicolon, rfl, isSemicolon, noOther⟩ := terminated.ends
  -- the semicolon is among the tokens left, and it is the last one
  obtain ⟨inner, rfl, taken, inside⟩ :=
    (List.suffix_concat_iff.mp suffix).resolve_left some
  cases inner with
  | nil =>
      show resumeAfter semicolon.kind more = more
      rw [isSemicolon, resumeAfter_semicolon]
  | cons first inner =>
      have keywords : ∀ token ∈ inner, token.kind.startsStatement = false := by
        intro token member
        refine terminated.keywords token ?_
        rw [← inside]
        cases taken <;> simp [member]
      show resumeAfter first.kind (inner ++ [semicolon] ++ more) = more
      rw [List.append_assoc]
      exact resumeAfter_of_semicolon isSemicolon (noOther first (by simp [← inside]))
        (fun token member => noOther token (by simp [← inside, member])) keywords more

/-! ## Malformed statements -/

/-- Tokens of which a declaration cannot be read, for a reason that is found
inside them. -/
structure Malformed (setting : Setting) (tokens : List Token) : Prop where
  failed : (declaration (depthFor tokens.length) setting tokens).outcome = none
  inside : (declaration (depthFor tokens.length) setting tokens).rest ≠ []

/-- The declaration gives up at the same token whatever follows, and reading goes
on with what follows. -/
theorem Malformed.next {before stop : Site} {coin : Nat → Bool} {bad more : List Token}
    (malformed : Malformed ⟨before, coinBefore coin more⟩ bad) (terminated : Terminated bad) :
    Grammar.next ⟨stop, coin⟩ (bad ++ more) =
      ⟨some none, more,
        (declaration (depthFor bad.length) ⟨before, coinBefore coin more⟩ bad).reports⟩ := by
  have stable := declaration_stable noChange (Nat.le_refl (depthFor bad.length)) (Nat.le_refl _)
  have suffix := stable.leaves ⟨before, coinBefore coin more⟩ (Nat.lt_succ_self _)
  have same := declaration_tokens (followedBy_fits before stop coin more bad)
    (Or.inr (Or.inl malformed.inside))
  rw [followedBy_tokens] at same
  rw [Grammar.next, recovered_of_none (by rw [same]; simp [Change.reply, malformed.failed]), same]
  simp only [Change.reply, followedBy_tokens, terminated.synchronize suffix malformed.inside]
  exact congrArg (Reply.mk (some none) more) (relabel_id _)

theorem Malformed.program {before stop : Site} {coin : Nat → Bool} {bad more : List Token}
    (malformed : Malformed ⟨before, coinBefore coin more⟩ bad) (terminated : Terminated bad) :
    Grammar.program ⟨stop, coin⟩ (bad ++ more) =
      ⟨[], (declaration (depthFor bad.length) ⟨before, coinBefore coin more⟩ bad).reports⟩ ++
        Grammar.program ⟨stop, coin⟩ more := by
  have read : Grammar.next ⟨stop, coin⟩ (bad ++ more) = _ := malformed.next terminated
  obtain ⟨token, rest, rfl⟩ := terminated.exists_cons
  rw [List.cons_append] at read ⊢
  rw [program_cons, read]
  rfl

/-- A report that is not at the end of input says that the tokens before it were
malformed. -/
theorem malformed_of_report {setting : Setting} {bad : List Token} {diagnostic : Diagnostic}
    (terminated : Terminated bad) (parsed : program setting bad = ⟨[], [diagnostic]⟩)
    (located : diagnostic.site ≠ setting.stop) :
    Malformed setting bad ∧
      (declaration (depthFor bad.length) setting bad).reports = [diagnostic] := by
  obtain ⟨token, rest, rfl⟩ := terminated.exists_cons
  have stable := declaration_stable noChange (Nat.le_refl (depthFor (token :: rest).length))
    (Nat.le_refl _)
  rw [program_cons, Parse.ext_iff_fields] at parsed
  obtain ⟨noStatement, oneReport⟩ := parsed
  have noStatement : (next setting (token :: rest)).outcome.join.toList = [] :=
    (List.append_eq_nil_iff.mp noStatement).1
  have failed : (declaration (depthFor (token :: rest).length) setting
      (token :: rest)).outcome = none := by
    cases outcome : (declaration (depthFor (token :: rest).length) setting
        (token :: rest)).outcome with
    | none => rfl
    | some statement =>
        rw [next, recovered_of_some statement outcome] at noStatement
        cases noStatement
  obtain ⟨earlier, last, reports, site⟩ := stable.explains (Nat.lt_succ_self _) failed
  -- the only report is the last one of the declaration
  have onlyReport : (declaration (depthFor (token :: rest).length) setting
      (token :: rest)).reports = [diagnostic] ∧ last = diagnostic := by
    have all : (declaration (depthFor (token :: rest).length) setting (token :: rest)).reports ++
        (program setting (next setting (token :: rest)).rest).diagnostics = [diagnostic] := by
      have sameReports : (next setting (token :: rest)).reports =
          (declaration (depthFor (token :: rest).length) setting (token :: rest)).reports := by
        rw [next, recovered_of_none failed]
      rw [← sameReports]
      exact oneReport
    rw [reports] at all ⊢
    rcases List.append_eq_singleton_iff.mp all with ⟨none, -⟩ | ⟨one, -⟩
    · simp at none
    · refine ⟨one, ?_⟩
      rcases List.append_eq_singleton_iff.mp one with ⟨-, same⟩ | ⟨-, none⟩
      · exact List.singleton_inj.mp same
      · simp at none
  refine ⟨⟨failed, ?_⟩, onlyReport.1⟩
  intro empty
  rw [onlyReport.2, empty] at site
  rcases site with atEnd | ⟨before, identifier, split, kind, -⟩
  · exact located atEnd
  · obtain ⟨others, semicolon, shape, isSemicolon, -⟩ := terminated.ends
    rw [shape] at split
    have same := List.append_inj_right' split rfl
    rw [List.singleton_inj.mp same, kind] at isSemicolon
    cases isSemicolon

/-- Recovery from a malformed statement that ends in its semicolon is local: the
statements before it and behind it are read as if each stood alone, and its one
report comes between theirs. The statements behind it may be malformed too. -/
theorem malformed_statement_is_local (coin : Nat → Bool) (pre bad post : List Token)
    (stopPre stopBad stop : Token) (preFree : EndFree pre) (badFree : EndFree bad)
    (postFree : EndFree post) (isStopPre : stopPre.kind = .endOfInput)
    (isStopBad : stopBad.kind = .endOfInput) (isStop : stop.kind = .endOfInput)
    (preClean : (parse (coinBefore coin (bad ++ post)) (pre ++ [stopPre])).diagnostics = [])
    (terminated : Terminated bad) (diagnostic : Diagnostic)
    (badParse : parse (coinBefore coin post) (bad ++ [stopBad]) = ⟨[], [diagnostic]⟩)
    (located : ∃ token ∈ bad, diagnostic.site = token.site) (separate : Separate bad) :
    (parse coin (pre ++ bad ++ post ++ [stop])).program =
        (parse (coinBefore coin (bad ++ post)) (pre ++ [stopPre])).program ++
          (parse coin (post ++ [stop])).program ∧
      (parse coin (pre ++ bad ++ post ++ [stop])).diagnostics =
        diagnostic :: (parse coin (post ++ [stop])).diagnostics := by
  rw [parse_of_endFree _ preFree isStopPre] at preClean ⊢
  rw [parse_of_endFree _ badFree isStopBad] at badParse
  rw [parse_of_endFree coin postFree isStop,
    parse_of_endFree coin ((preFree.append badFree).append postFree) isStop]
  obtain ⟨token, inside, site⟩ := located
  have notAtEnd : diagnostic.site ≠ stopBad.site := by
    rw [site]
    intro same
    have place := congrArg Site.place same
    simp [Token.site, badFree token inside, isStopBad] at place
  obtain ⟨malformed, reports⟩ := malformed_of_report terminated badParse notAtEnd
  rw [List.append_assoc, program_append stopPre.site stop.site coin
    (separate.append (List.ne_nil_of_mem inside) post) preClean, malformed.program terminated,
    reports]
  simp [preClean]

/-- A token that is written with the given lexeme, on the first line. -/
def plain (kind : Kind) (lexeme : String) : Token := ⟨kind, lexeme, none, 1⟩

def printNil : List Token :=
  [plain .printWord "print", plain .nilWord "nil", plain .semicolon ";"]

theorem malformed_statement_between_prints :
    (parse (fun _ => true) (printNil ++ [plain .rightParen ")", plain .semicolon ";"] ++ printNil ++
      [Token.endOfInput 1])).program = [.print (.constant .nil), .print (.constant .nil)] ∧
    (parse (fun _ => true) (printNil ++ [plain .rightParen ")", plain .semicolon ";"] ++ printNil ++
      [Token.endOfInput 1])).diagnostics = [⟨⟨1, .lexeme ")"⟩, .expected .expression⟩] :=
  malformed_statement_is_local (fun _ => true) printNil
    [plain .rightParen ")", plain .semicolon ";"] printNil (Token.endOfInput 1) (Token.endOfInput 1)
    (Token.endOfInput 1) (by decide) (by decide) (by decide) rfl rfl rfl rfl
    ⟨⟨[plain .rightParen ")"], plain .semicolon ";", rfl, rfl, by decide⟩, by decide⟩
    ⟨⟨1, .lexeme ")"⟩, .expected .expression⟩ rfl
    ⟨plain .rightParen ")", by simp, rfl⟩ ⟨by decide, by decide, by decide⟩

end Scriptlet.Grammar
