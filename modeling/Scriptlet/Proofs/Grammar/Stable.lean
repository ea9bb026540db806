import Scriptlet.Grammar.Rules
import Scriptlet.Proofs.Relabel

/-!
Contract: parsers that do not notice a change behind what they read.

A list of tokens is changed by giving its lines other numbers and by adding
tokens behind it. A parser that leaves some of the old tokens has not seen the
new ones, so it must do the same before and after. `StableOn` says so of two
parsers, one for each list, on the lists of a domain; with it, that a parser
leaves a tail of what it was given, that it takes a token where it has to, that
one that gives up has reported why, and that none gives up for want of depth.

Owns: `Change`, `StableOn`, and its rules for the parsers of single tokens, for
sequencing, for choices by the next token and for recovery.

Does not own: the rules of the grammar (`Scriptlet.Proofs.Grammar.StableExpression`).

## Why two parsers

The parsers of the grammar take a depth. The two parsers differ in it, so that
the same statements show that the depth does not matter once it is enough. The
domain is a bound on the length of the list, which is what makes a depth enough.
-/

set_option autoImplicit false

namespace Scriptlet

open Scriptlet.Parser

/-- Tokens that do not go on with a statement before them: the first one is no
`else`, which an `if` would take, and no `case` or `default`, which a `switch`
would. -/
structure Separate (tokens : List Token) : Prop where
  elseWord : kindOf tokens ≠ .elseWord
  caseWord : kindOf tokens ≠ .caseWord
  defaultWord : kindOf tokens ≠ .defaultWord

theorem Separate.append {tokens : List Token} (separate : Separate tokens) (some : tokens ≠ [])
    (more : List Token) : Separate (tokens ++ more) := by
  cases tokens with
  | nil => exact absurd rfl some
  | cons token rest => exact ⟨separate.elseWord, separate.caseWord, separate.defaultWord⟩

/-- Lines are renumbered, and more tokens follow. If none do, the end of input
may be where it was. -/
structure Change where
  line : Nat → Nat
  more : List Token
  ends : Prop
  final : ends → more = []

namespace Change

def tokens (change : Change) (list : List Token) : List Token :=
  relabel change.line list ++ change.more

def reply {α : Type} [Lined α] (change : Change) (reply : Reply α) : Reply α :=
  ⟨relabel change.line reply.outcome, change.tokens reply.rest, relabel change.line reply.reports⟩

/-- The settings of a list and of the changed list agree: on each `maybe` of
the list, and on the end of input. -/
structure Fits (change : Change) (setting changed : Setting) (list : List Token) : Prop where
  coin : ∀ token rest, token :: rest <:+ list → token.kind = .maybeWord →
    changed.coin (rest.length + 1 + change.more.length) = setting.coin (rest.length + 1)
  stop : change.ends → changed.stop = relabel change.line setting.stop

theorem Fits.suffix {change : Change} {setting changed : Setting} {list tail : List Token}
    (fits : change.Fits setting changed list) (suffix : tail <:+ list) :
    change.Fits setting changed tail :=
  ⟨fun token rest inTail => fits.coin token rest (inTail.trans suffix), fits.stop⟩

/-- A reply that the change cannot have touched: the list ends there, or tokens
are left, or all are taken and the parser is one that is `closed`, which needs
to see nothing behind what it takes. -/
def Spares {α : Type} (change : Change) (closed : Prop) (reply : Reply α) : Prop :=
  change.ends ∨ reply.rest ≠ [] ∨ closed ∧ reply.outcome.isSome

@[simp] theorem tokens_cons (change : Change) (token : Token) (rest : List Token) :
    change.tokens (token :: rest) = relabel change.line token :: change.tokens rest := rfl

@[simp] theorem tokens_nil (change : Change) : change.tokens [] = change.more := rfl

end Change

/-- A parser that gave up has reported, last of all, at the token it stopped
before, or at an identifier that it took and that has no symbol. -/
def Explained {α : Type} (setting : Setting) (tokens : List Token) (reply : Reply α) : Prop :=
  ∃ earlier last, reply.reports = earlier ++ [last] ∧
    (last.site = siteOf setting reply.rest ∨
      ∃ before token, tokens = before ++ token :: reply.rest ∧ token.kind = .identifier ∧
        last.site = token.site)

/-- The two parsers do the same on a list of the domain and on its change. -/
structure StableOn {α : Type} [Lined α] (change : Change) (domain : List Token → Prop)
    (closed takes : Prop) (parser changed : Parser α) : Prop where
  leaves : ∀ setting {tokens}, domain tokens → (parser setting tokens).rest <:+ tokens
  advances : takes → ∀ {setting tokens}, domain tokens →
    (parser setting tokens).outcome.isSome →
      (parser setting tokens).rest.length < tokens.length
  explains : ∀ {setting tokens}, domain tokens → (parser setting tokens).outcome = none →
    Explained setting tokens (parser setting tokens)
  finishes : ∀ {setting tokens}, domain tokens →
    ∀ report ∈ (parser setting tokens).reports, report.problem ≠ .tooDeep
  carries : ∀ {setting other tokens}, domain tokens → change.Fits setting other tokens →
    change.Spares closed (parser setting tokens) →
      changed other (change.tokens tokens) = change.reply (parser setting tokens)

/-- The lists of fewer than `size` tokens. -/
def Below (size : Nat) (tokens : List Token) : Prop :=
  tokens.length < size

/-- The lists of fewer than `size` tokens that begin with a token of the given
kind. -/
def Ahead (size : Nat) (kind : Kind) (tokens : List Token) : Prop :=
  ∃ token rest, tokens = token :: rest ∧ token.kind = kind ∧ rest.length + 1 < size

/-- Stable on every list of fewer than `size` tokens. -/
abbrev Stable {α : Type} [Lined α] (change : Change) (size : Nat) (closed takes : Prop)
    (parser changed : Parser α) : Prop :=
  StableOn change (Below size) closed takes parser changed

section Sequencing

variable {α β : Type}

theorem bind_of_none {parser : Parser α} {next : α → Parser β} {setting : Setting}
    {tokens : List Token} (failed : (parser setting tokens).outcome = none) :
    (parser >>= next) setting tokens =
      ⟨none, (parser setting tokens).rest, (parser setting tokens).reports⟩ := by
  show Parser.bind parser next setting tokens = _
  simp only [Parser.bind, failed]

theorem bind_of_some {parser : Parser α} {next : α → Parser β} {setting : Setting}
    {tokens : List Token} (value : α) (done : (parser setting tokens).outcome = some value) :
    (parser >>= next) setting tokens =
      ⟨(next value setting (parser setting tokens).rest).outcome,
        (next value setting (parser setting tokens).rest).rest,
        (parser setting tokens).reports ++
          (next value setting (parser setting tokens).rest).reports⟩ := by
  show Parser.bind parser next setting tokens = _
  simp only [Parser.bind, done]

theorem pure_apply (value : α) (setting : Setting) (tokens : List Token) :
    (pure value : Parser α) setting tokens = ⟨some value, tokens, []⟩ := rfl

end Sequencing

section Rules

variable {α β : Type} [Lined α] [Lined β] {change : Change} {domain : List Token → Prop}
  {size : Nat} {closed takes : Prop}

/-! ## Weakening -/

theorem StableOn.weaken {closedBefore takesBefore : Prop} {smaller : List Token → Prop}
    {parser changed : Parser α}
    (stable : StableOn change domain closedBefore takesBefore parser changed)
    (within : ∀ tokens, smaller tokens → domain tokens)
    (closing : closed → closedBefore) (taking : takes → takesBefore) :
    StableOn change smaller closed takes parser changed where
  leaves _ _ inside := stable.leaves _ (within _ inside)
  advances take := fun inside => stable.advances (taking take) (within _ inside)
  explains inside := stable.explains (within _ inside)
  finishes inside := stable.finishes (within _ inside)
  carries inside fits spares := by
    refine stable.carries (within _ inside) fits ?_
    rcases spares with isEnd | left | ⟨isClosed, done⟩
    · exact Or.inl isEnd
    · exact Or.inr (Or.inl left)
    · exact Or.inr (Or.inr ⟨closing isClosed, done⟩)

theorem StableOn.ahead {parser changed : Parser α}
    (stable : Stable change size closed takes parser changed) (kind : Kind) :
    StableOn change (Ahead size kind) closed takes parser changed :=
  stable.weaken
    (by
      rintro tokens ⟨token, rest, rfl, -, short⟩
      exact short)
    id id

theorem StableOn.shorter {parser changed : Parser α}
    (stable : Stable change size closed takes parser changed) (smaller : Nat)
    (fewer : smaller ≤ size) :
    Stable change smaller closed takes parser changed :=
  stable.weaken (fun _ inside => Nat.lt_of_lt_of_le inside fewer) id id

/-- The same, with what it needs and takes said in another way. -/
theorem StableOn.adjust {closedBefore takesBefore : Prop} {parser changed : Parser α}
    (closing : closed → closedBefore) (taking : takes → takesBefore)
    (stable : StableOn change domain closedBefore takesBefore parser changed) :
    StableOn change domain closed takes parser changed :=
  stable.weaken (fun _ inside => inside) closing taking

/-- Below no length at all there is nothing to show. -/
theorem StableOn.none_below (parser changed : Parser α) :
    Stable change 0 closed takes parser changed where
  leaves _ _ inside := absurd inside (Nat.not_lt_zero _)
  advances _ := fun inside => absurd inside (Nat.not_lt_zero _)
  explains inside := absurd inside (Nat.not_lt_zero _)
  finishes inside := absurd inside (Nat.not_lt_zero _)
  carries inside := absurd inside (Nat.not_lt_zero _)

/-- A rule that repeats with one token less each time, and with whatever it has
gathered, is stable on lists that are shorter than its fuel. -/
theorem StableOn.repeats {γ : Type} (loop changedLoop : Nat → γ → Parser α) (adapt : γ → γ)
    (step : ∀ fuel otherFuel smaller, smaller ≤ size → smaller ≤ fuel + 1 →
      smaller ≤ otherFuel + 1 →
      (∀ state, Stable change (smaller - 1) closed takes (loop fuel state)
        (changedLoop otherFuel (adapt state))) →
      ∀ state, Stable change smaller closed takes (loop (fuel + 1) state)
        (changedLoop (otherFuel + 1) (adapt state)))
    {fuel otherFuel : Nat} (enough : size ≤ fuel) (otherEnough : size ≤ otherFuel) (state : γ) :
    Stable change size closed takes (loop fuel state) (changedLoop otherFuel (adapt state)) := by
  suffices repeated : ∀ fuel otherFuel smaller, smaller ≤ size → smaller ≤ fuel →
      smaller ≤ otherFuel → ∀ state, Stable change smaller closed takes (loop fuel state)
        (changedLoop otherFuel (adapt state)) from
    repeated fuel otherFuel size (Nat.le_refl _) enough otherEnough state
  intro fuel
  induction fuel with
  | zero =>
      intro otherFuel smaller _ none _ state
      rw [Nat.le_zero.mp none]
      exact .none_below _ _
  | succ fuel inductionHypothesis =>
      intro otherFuel smaller within enough otherEnough
      cases otherFuel with
      | zero =>
          intro state
          rw [Nat.le_zero.mp otherEnough]
          exact .none_below _ _
      | succ otherFuel =>
          exact step fuel otherFuel smaller within enough otherEnough
            (inductionHypothesis otherFuel (smaller - 1) (by omega) (by omega) (by omega))

/-! ## Sequencing -/

theorem stable_pure {value other : α} (same : other = relabel change.line value) :
    StableOn change domain True False (pure value) (pure other) where
  leaves _ _ _ := List.suffix_refl _
  advances := False.elim
  explains _ failed := by simp [pure_apply] at failed
  finishes _ := by simp [pure_apply]
  carries _ _ _ := by
    subst same
    rfl

/-- Two parsers in a row. What follows may run on another domain, to which the
first one has to lead. The first one may leave nothing only if it is closed, or
if what follows needs a token. -/
theorem StableOn.bindOn {closedFirst takesFirst takesNext : Prop}
    {after : α → List Token → Prop} {parser changed : Parser α}
    {next changedNext : α → Parser β}
    (first : StableOn change domain closedFirst takesFirst parser changed)
    (later : ∀ value, StableOn change (after value) closed takesNext (next value)
      (changedNext (relabel change.line value)))
    (leads : ∀ {setting tokens value}, domain tokens →
      (parser setting tokens).outcome = some value → after value (parser setting tokens).rest)
    (link : closed → closedFirst ∨ takesNext) (take : takes → takesFirst ∨ takesNext) :
    StableOn change domain closed takes (parser >>= next) (changed >>= changedNext) where
  leaves := by
    intro setting tokens inside
    cases outcome : (parser setting tokens).outcome with
    | none =>
        rw [bind_of_none outcome]
        exact first.leaves _ inside
    | some value =>
        rw [bind_of_some _ outcome]
        exact ((later value).leaves _ (leads inside outcome)).trans (first.leaves _ inside)
  advances taking := by
    intro setting tokens inside done
    cases outcome : (parser setting tokens).outcome with
    | none => simp [bind_of_none outcome] at done
    | some value =>
        rw [bind_of_some _ outcome] at done ⊢
        have reached := leads inside outcome
        have firstLength := (first.leaves setting inside).length_le
        have nextLength := ((later value).leaves setting reached).length_le
        rcases take taking with firstTakes | nextTakes
        · have shorter := first.advances firstTakes inside (by rw [outcome]; rfl)
          exact Nat.lt_of_le_of_lt nextLength shorter
        · have shorter := (later value).advances nextTakes reached done
          exact Nat.lt_of_lt_of_le shorter firstLength
  explains := by
    intro setting tokens inside failed
    cases outcome : (parser setting tokens).outcome with
    | none =>
        obtain ⟨earlier, last, reports, site⟩ := first.explains inside outcome
        rw [bind_of_none outcome]
        exact ⟨earlier, last, reports, site⟩
    | some value =>
        rw [bind_of_some _ outcome] at failed ⊢
        obtain ⟨earlier, last, reports, site⟩ :=
          (later value).explains (leads inside outcome) failed
        refine ⟨(parser setting tokens).reports ++ earlier, last, ?_, ?_⟩
        · simp only [reports, List.append_assoc]
        · rcases site with here | ⟨before, token, split, kind, there⟩
          · exact Or.inl here
          · obtain ⟨taken, whole⟩ := first.leaves setting inside
            have whole : tokens = taken ++ before ++ token :: _ :=
              whole.symm.trans ((congrArg (taken ++ ·) split).trans (List.append_assoc ..).symm)
            exact Or.inr ⟨taken ++ before, token, whole, kind, there⟩
  finishes := by
    intro setting tokens inside
    cases outcome : (parser setting tokens).outcome with
    | none =>
        rw [bind_of_none outcome]
        exact first.finishes inside
    | some value =>
        rw [bind_of_some _ outcome]
        exact List.forall_mem_append.mpr
          ⟨first.finishes inside, (later value).finishes (leads inside outcome)⟩
  carries := by
    intro setting other tokens inside fits spares
    cases outcome : (parser setting tokens).outcome with
    | none =>
        rw [bind_of_none outcome] at spares ⊢
        have firstSpares : change.Spares closedFirst (parser setting tokens) := by
          rcases spares with isEnd | left | ⟨-, done⟩
          · exact Or.inl isEnd
          · exact Or.inr (Or.inl left)
          · simp at done
        have same := first.carries inside fits firstSpares
        rw [bind_of_none (by rw [same]; simp [Change.reply, outcome]), same]
        rfl
    | some value =>
        rw [bind_of_some _ outcome] at spares ⊢
        have reached := leads inside outcome
        have suffix := (later value).leaves setting reached
        have firstSpares : change.Spares closedFirst (parser setting tokens) := by
          by_cases empty : (parser setting tokens).rest = []
          · rcases spares with isEnd | left | ⟨isClosed, done⟩
            · exact Or.inl isEnd
            · rw [empty] at suffix left
              exact absurd (List.suffix_nil.mp suffix) left
            · rcases link isClosed with firstClosed | nextTakes
              · exact Or.inr (Or.inr ⟨firstClosed, by rw [outcome]; rfl⟩)
              · have shorter := (later value).advances nextTakes reached done
                simp [empty] at shorter
          · exact Or.inr (Or.inl empty)
        have same := first.carries inside fits firstSpares
        have sameNext := (later value).carries reached
          (fits.suffix (first.leaves setting inside)) spares
        have outcomeOther : (changed other (change.tokens tokens)).outcome =
            some (relabel change.line value) := by
          rw [same]
          simp [Change.reply, outcome]
        rw [bind_of_some _ outcomeOther, same]
        show Reply.mk
            (changedNext _ other (change.tokens (parser setting tokens).rest)).outcome _ _ = _
        simp only [Change.reply, sameNext, relabel_append]

/-- Two parsers in a row, on all lists below a length. -/
theorem StableOn.bind {closedFirst closedNext takesFirst takesNext : Prop}
    {parser changed : Parser α} {next changedNext : α → Parser β}
    (first : Stable change size closedFirst takesFirst parser changed)
    (later : ∀ value, Stable change size closedNext takesNext (next value)
      (changedNext (relabel change.line value))) :
    Stable change size (closedNext ∧ (closedFirst ∨ takesNext)) (takesFirst ∨ takesNext)
      (parser >>= next) (changed >>= changedNext) :=
  first.bindOn (fun value => (later value).adjust And.left id)
    (fun {_ _ _} inside _ =>
      Nat.lt_of_le_of_lt (first.leaves _ inside).length_le inside)
    And.right id

/-- A parser whose value is given another form. -/
theorem StableOn.map {parser changed : Parser α} {convert other : α → β}
    (stable : Stable change size closed takes parser changed)
    (same : ∀ value, other (relabel change.line value) = relabel change.line (convert value)) :
    Stable change size closed takes (convert <$> parser) (other <$> changed) :=
  .adjust (fun isClosed => ⟨trivial, Or.inl isClosed⟩) Or.inl
    (StableOn.bind stable (fun value => stable_pure (same value)))

/-! ## Single tokens -/

omit [Lined α] in
theorem Change.Spares.isEnd {reports : List Diagnostic}
    (spares : change.Spares closed (⟨none, [], reports⟩ : Reply α)) : change.ends := by
  rcases spares with isEnd | left | ⟨-, done⟩
  · exact isEnd
  · exact absurd rfl left
  · simp at done

theorem stable_expect (kind : Kind) (what : Expectation) :
    StableOn change domain True True (expect kind what) (expect kind what) where
  leaves := by
    intro setting tokens _
    cases tokens with
    | nil => exact List.suffix_refl _
    | cons token rest =>
        by_cases found : token.kind = kind
        · simp only [expect, found, if_true]
          exact List.suffix_cons token rest
        · simp only [expect, found, if_false]
          exact List.suffix_refl _
  advances _ := by
    intro setting tokens _ done
    cases tokens with
    | nil => simp [expect] at done
    | cons token rest =>
        by_cases found : token.kind = kind
        · simp [expect, found]
        · simp [expect, found] at done
  explains := by
    intro setting tokens _ failed
    cases tokens with
    | nil => exact ⟨[], _, rfl, Or.inl rfl⟩
    | cons token rest =>
        by_cases found : token.kind = kind
        · simp [expect, found] at failed
        · simp only [expect, found, if_false]
          exact ⟨[], _, rfl, Or.inl rfl⟩
  finishes := by
    intro setting tokens _
    cases tokens with
    | nil => simp [expect]
    | cons token rest => by_cases found : token.kind = kind <;> simp [expect, found]
  carries := by
    intro setting other tokens _ fits spares
    cases tokens with
    | nil =>
        have isEnd := spares.isEnd
        have nothing := change.final isEnd
        simp only [expect, Change.tokens, nothing, relabel_nil, List.append_nil, fits.stop isEnd,
          Change.reply]
        rfl
    | cons token rest =>
        by_cases found : token.kind = kind
        · simp [expect, found, Change.reply]
        · simp only [expect, Change.tokens_cons, relabel_token_kind, found, if_false, Change.reply]
          rfl

theorem stable_expectAfter (kind : Kind) (landmark : String) :
    StableOn change domain True True (expectAfter kind landmark) (expectAfter kind landmark) :=
  stable_expect kind _

theorem stable_expectBefore (kind : Kind) (landmark : String) :
    StableOn change domain True True (expectBefore kind landmark) (expectBefore kind landmark) :=
  stable_expect kind _

theorem stable_failHere {problem : Problem} (known : problem ≠ .tooDeep) :
    StableOn change domain True True (failHere problem : Parser α) (failHere problem) where
  leaves _ _ _ := List.suffix_refl _
  advances _ := by
    intro setting tokens _ done
    simp [failHere] at done
  explains _ _ := ⟨[], _, rfl, Or.inl rfl⟩
  finishes _ := by simpa [failHere] using known
  carries := by
    intro setting other tokens _ fits spares
    cases tokens with
    | nil =>
        have isEnd := spares.isEnd
        have nothing := change.final isEnd
        simp only [failHere, Change.tokens, nothing, relabel_nil, List.append_nil, siteOf,
          fits.stop isEnd, Change.reply]
        rfl
    | cons token rest => rfl

theorem stable_report (site : Site) {problem : Problem} (known : problem ≠ .tooDeep) :
    StableOn change domain True False (report site problem)
      (report (relabel change.line site) problem) where
  leaves _ _ _ := List.suffix_refl _
  advances := False.elim
  explains _ failed := by simp [report] at failed
  finishes _ := by simpa [report] using known
  carries _ _ _ := rfl

/-- A report at the next token, where the end of input is not reached. -/
theorem stable_reportHere {problem : Problem} (known : problem ≠ .tooDeep) :
    StableOn change domain False False (reportHere problem) (reportHere problem) where
  leaves _ _ _ := List.suffix_refl _
  advances := False.elim
  explains _ failed := by simp [reportHere] at failed
  finishes _ := by simpa [reportHere] using known
  carries := by
    intro setting other tokens _ fits spares
    cases tokens with
    | nil =>
        have isEnd : change.ends := by
          rcases spares with isEnd | left | ⟨impossible, -⟩
          · exact isEnd
          · exact absurd rfl left
          · exact impossible.elim
        have nothing := change.final isEnd
        simp only [reportHere, Change.tokens, nothing, relabel_nil, List.append_nil, siteOf,
          fits.stop isEnd, Change.reply]
        rfl
    | cons token rest => rfl

/-! ## Choices by the next token

A parser that takes the next token if its kind is one it looks for goes on with
one token less; otherwise it goes on with the same list. At the end of a list it
finds nothing, and it must find nothing behind it either. -/

/-- `parser` goes on with `taken` behind a token of a kind that `choose` has an
answer for, and with `absent` before any other. -/
structure Chooses {γ : Type} (choose : Kind → Option γ) (parser : Parser α)
    (taken : γ → Token → Parser α) (absent : Parser α) : Prop where
  nil : ∀ setting, parser setting [] = absent setting []
  found : ∀ setting token rest answer, choose token.kind = some answer →
    parser setting (token :: rest) = taken answer token setting rest
  other : ∀ setting token rest, choose token.kind = none →
    parser setting (token :: rest) = absent setting (token :: rest)

omit [Lined α] in
theorem Explained.cons {setting : Setting} {tokens : List Token} {reply : Reply α} (token : Token)
    (explained : Explained setting tokens reply) :
    Explained setting (token :: tokens) reply := by
  obtain ⟨earlier, last, reports, site⟩ := explained
  refine ⟨earlier, last, reports, ?_⟩
  rcases site with here | ⟨before, identifier, split, kind, there⟩
  · exact Or.inl here
  · exact Or.inr ⟨token :: before, identifier, by rw [split]; rfl, kind, there⟩

theorem StableOn.choice {γ : Type} {choose : Kind → Option γ} {takesTaken : Prop}
    {parser changed : Parser α}
    {taken changedTaken : γ → Token → Parser α}
    {absent changedAbsent : Parser α}
    (shape : Chooses choose parser taken absent)
    (changedShape : Chooses choose changed changedTaken changedAbsent)
    (stableTaken : ∀ answer token, Stable change (size - 1) closed takesTaken
      (taken answer token) (changedTaken answer (relabel change.line token)))
    (stableAbsent : Stable change size closed takes absent changedAbsent)
    (differs : closed → takes ∨ choose (kindOf change.more) = none) :
    Stable change size closed takes parser changed where
  leaves := by
    intro setting tokens inside
    cases tokens with
    | nil =>
        rw [shape.nil]
        exact stableAbsent.leaves _ inside
    | cons token rest =>
        have insideRest : Below (size - 1) rest := Nat.lt_sub_of_add_lt inside
        cases chosen : choose token.kind with
        | none =>
            rw [shape.other _ _ _ chosen]
            exact stableAbsent.leaves _ inside
        | some answer =>
            rw [shape.found _ _ _ _ chosen]
            exact ((stableTaken answer token).leaves _ insideRest).trans (List.suffix_cons _ _)
  advances taking := by
    intro setting tokens inside done
    cases tokens with
    | nil =>
        rw [shape.nil] at done ⊢
        exact stableAbsent.advances taking inside done
    | cons token rest =>
        have insideRest : Below (size - 1) rest := Nat.lt_sub_of_add_lt inside
        cases chosen : choose token.kind with
        | none =>
            rw [shape.other _ _ _ chosen] at done ⊢
            exact stableAbsent.advances taking inside done
        | some answer =>
            rw [shape.found _ _ _ _ chosen]
            have shorter := ((stableTaken answer token).leaves setting insideRest).length_le
            exact Nat.lt_succ_of_le shorter
  explains := by
    intro setting tokens inside failed
    cases tokens with
    | nil =>
        rw [shape.nil] at failed ⊢
        exact stableAbsent.explains inside failed
    | cons token rest =>
        have insideRest : Below (size - 1) rest := Nat.lt_sub_of_add_lt inside
        cases chosen : choose token.kind with
        | none =>
            rw [shape.other _ _ _ chosen] at failed ⊢
            exact stableAbsent.explains inside failed
        | some answer =>
            rw [shape.found _ _ _ _ chosen] at failed ⊢
            exact ((stableTaken answer token).explains insideRest failed).cons token
  finishes := by
    intro setting tokens inside
    cases tokens with
    | nil =>
        rw [shape.nil]
        exact stableAbsent.finishes inside
    | cons token rest =>
        have insideRest : Below (size - 1) rest := Nat.lt_sub_of_add_lt inside
        cases chosen : choose token.kind with
        | none =>
            rw [shape.other _ _ _ chosen]
            exact stableAbsent.finishes inside
        | some answer =>
            rw [shape.found _ _ _ _ chosen]
            exact (stableTaken answer token).finishes insideRest
  carries := by
    intro setting other tokens inside fits spares
    cases tokens with
    | nil =>
        rw [shape.nil] at spares ⊢
        have same := stableAbsent.carries inside fits spares
        rw [← same]
        -- the end of the list: what follows is either nothing or no token to take
        rcases spares with isEnd | left | ⟨isClosed, done⟩
        · rw [Change.tokens_nil, change.final isEnd, changedShape.nil]
        · exact absurd (List.suffix_nil.mp (stableAbsent.leaves _ inside)) left
        · rcases differs isClosed with taking | notTaken
          · exact absurd (stableAbsent.advances taking inside done) (Nat.not_lt_zero _)
          · cases more : change.more with
            | nil => rw [Change.tokens_nil, more, changedShape.nil]
            | cons first others =>
                rw [more] at notTaken
                rw [Change.tokens_nil, more, changedShape.other _ _ _ notTaken]
    | cons token rest =>
        have insideRest : Below (size - 1) rest := Nat.lt_sub_of_add_lt inside
        cases chosen : choose token.kind with
        | none =>
            rw [shape.other _ _ _ chosen] at spares ⊢
            rw [← stableAbsent.carries inside fits spares, Change.tokens_cons,
              changedShape.other _ _ _ (by simpa using chosen)]
        | some answer =>
            rw [shape.found _ _ _ _ chosen] at spares ⊢
            rw [← (stableTaken answer token).carries insideRest
                (fits.suffix (List.suffix_cons _ _)) spares,
              Change.tokens_cons, changedShape.found _ _ _ answer (by simpa using chosen)]

omit [Lined α] in
theorem chooses_accept (kind : Kind) (next : Option Token → Parser α) :
    Chooses (fun other => if other = kind then some () else none) (accept kind >>= next)
      (fun _ token => next (some token)) (next none) where
  nil _ := rfl
  found setting token rest _ chosen := by
    have found : token.kind = kind := by simpa using chosen
    rw [bind_of_some (some token) (by simp [accept, found])]
    simp [accept, found]
  other setting token rest chosen := by
    have differs : token.kind ≠ kind := by simpa using chosen
    rw [bind_of_some none (by simp [accept, differs])]
    simp [accept, differs]

omit [Lined α] in
theorem chooses_select {γ : Type} (choose : Kind → Option γ)
    (next : Option (γ × Token) → Parser α) :
    Chooses choose (select choose >>= next) (fun answer token => next (some (answer, token)))
      (next none) where
  nil _ := rfl
  found setting token rest answer chosen := by
    rw [bind_of_some (some (answer, token)) (by simp [select, chosen])]
    simp [select, chosen]
  other setting token rest chosen := by
    rw [bind_of_some none (by simp [select, chosen])]
    simp [select, chosen]

/-- Going on behind a token of one kind, or before any other. -/
theorem StableOn.accept {kind : Kind} {closedTaken takesTaken : Prop}
    {next changedNext : Option Token → Parser α}
    (taken : ∀ token, Stable change (size - 1) closedTaken takesTaken (next (some token))
      (changedNext (some (relabel change.line token))))
    (absent : Stable change size closed takes (next none) (changedNext none)) :
    Stable change size (closedTaken ∧ closed ∧ (takes ∨ kindOf change.more ≠ kind)) takes
      (accept kind >>= next) (accept kind >>= changedNext) :=
  .choice (chooses_accept kind next) (chooses_accept kind changedNext)
    (fun _ token => (taken token).adjust And.left id)
    (absent.adjust (fun all => all.2.1) id) (fun all => all.2.2.imp_right fun differs => if_neg differs)

/-- Going on behind a token of a kind that has an answer, or before any other,
where what follows the list may matter. -/
theorem StableOn.select {γ : Type} {choose : Kind → Option γ} {closedTaken takesTaken : Prop}
    {next changedNext : Option (γ × Token) → Parser α}
    (taken : ∀ answer token, Stable change (size - 1) closedTaken takesTaken
      (next (some (answer, token))) (changedNext (some (answer, relabel change.line token))))
    (absent : Stable change size closed takes (next none) (changedNext none)) :
    Stable change size False takes (select choose >>= next) (select choose >>= changedNext) :=
  .choice (chooses_select choose next) (chooses_select choose changedNext)
    (fun answer token => (taken answer token).adjust False.elim id)
    (absent.adjust False.elim id) False.elim

/-- Going on as the next token says, without taking it. -/
theorem StableOn.dispatch {next changedNext : Kind → Parser α}
    (atEnd : Stable change size closed takes (next .endOfInput) (changedNext .endOfInput))
    (ahead : ∀ kind, StableOn change (Ahead size kind) closed takes (next kind)
      (changedNext kind))
    (needs : closed → takes) :
    Stable change size closed takes (peek >>= next) (peek >>= changedNext) := by
  have peekAt : ∀ (follow : Kind → Parser α) (setting : Setting) (tokens : List Token),
      (peek >>= follow) setting tokens = follow (kindOf tokens) setting tokens :=
    fun _ _ _ => rfl
  have domain : ∀ (token : Token) (rest : List Token), Below size (token :: rest) →
      Ahead size token.kind (token :: rest) :=
    fun token rest inside => ⟨token, rest, rfl, rfl, inside⟩
  constructor
  case leaves =>
    intro setting tokens inside
    rw [peekAt]
    cases tokens with
    | nil => exact atEnd.leaves _ inside
    | cons token rest => exact (ahead token.kind).leaves _ (domain token rest inside)
  case advances =>
    intro taking setting tokens inside done
    rw [peekAt] at done ⊢
    cases tokens with
    | nil => exact atEnd.advances taking inside done
    | cons token rest => exact (ahead token.kind).advances taking (domain token rest inside) done
  case explains =>
    intro setting tokens inside failed
    rw [peekAt] at failed ⊢
    cases tokens with
    | nil => exact atEnd.explains inside failed
    | cons token rest => exact (ahead token.kind).explains (domain token rest inside) failed
  case finishes =>
    intro setting tokens inside
    rw [peekAt]
    cases tokens with
    | nil => exact atEnd.finishes inside
    | cons token rest => exact (ahead token.kind).finishes (domain token rest inside)
  case carries =>
    intro setting other tokens inside fits spares
    rw [peekAt] at spares ⊢
    rw [peekAt]
    cases tokens with
    | nil =>
        have nothing : change.more = [] := by
          rcases spares with isEnd | left | ⟨isClosed, done⟩
          · exact change.final isEnd
          · exact absurd (List.suffix_nil.mp (atEnd.leaves _ inside)) left
          · exact absurd (atEnd.advances (needs isClosed) inside done) (Nat.not_lt_zero _)
        have same := atEnd.carries inside fits spares
        rw [Change.tokens_nil, nothing] at same ⊢
        exact same
    | cons token rest =>
        exact (ahead token.kind).carries (domain token rest inside) fits spares

/-- Taking the next token, which is there, and going on. -/
theorem StableOn.taking {takesRest : Prop} {parser changed : Parser α}
    (stable : Stable change (size - 1) closed takesRest parser changed) (kind : Kind) :
    StableOn change (Ahead size kind) closed True (Grammar.taking parser)
      (Grammar.taking changed) where
  leaves := by
    rintro setting tokens ⟨token, rest, rfl, -, short⟩
    exact (stable.leaves _ (Nat.lt_sub_of_add_lt short)).trans (List.suffix_cons _ _)
  advances _ := by
    rintro setting tokens ⟨token, rest, rfl, -, short⟩ -
    have shorter := (stable.leaves setting (Nat.lt_sub_of_add_lt short)).length_le
    exact Nat.lt_succ_of_le shorter
  explains := by
    rintro setting tokens ⟨token, rest, rfl, -, short⟩ failed
    exact (stable.explains (Nat.lt_sub_of_add_lt short) failed).cons token
  finishes := by
    rintro setting tokens ⟨token, rest, rfl, -, short⟩
    exact stable.finishes (Nat.lt_sub_of_add_lt short)
  carries := by
    rintro setting other tokens ⟨token, rest, rfl, -, short⟩ fits spares
    exact stable.carries (Nat.lt_sub_of_add_lt short) (fits.suffix (List.suffix_cons _ _)) spares

/-- Looking for a kind without taking the token. What follows the list does not
matter where a token is taken in the end. -/
theorem StableOn.check {kind : Kind} {closedHere takesHere takesAbsent : Prop}
    {here changedHere absent changedAbsent : Parser α}
    (stableHere : Stable change size closedHere takesHere here changedHere)
    (stableAbsent : Stable change size closed takesAbsent absent changedAbsent) :
    Stable change size ((closedHere ∧ closed) ∧ takesHere ∧ takesAbsent)
      (takesHere ∧ takesAbsent)
      (check kind >>= fun found => if found = true then here else absent)
      (check kind >>= fun found => if found = true then changedHere else changedAbsent) := by
  have same : ∀ (here absent : Parser α),
      (Parser.check kind >>= fun found => if found = true then here else absent) =
        (peek >>= fun next => if next = kind then here else absent) := by
    intro here absent
    funext setting tokens
    by_cases found : kindOf tokens = kind
    · rw [bind_of_some true (by simp [Parser.check, found]),
        bind_of_some kind (by simp [peek, found])]
      simp [Parser.check, peek]
    · rw [bind_of_some false (by simp [Parser.check, found]),
        bind_of_some (kindOf tokens) rfl]
      simp [Parser.check, peek, found]
  rw [same, same]
  have either : ∀ next, Stable change size ((closedHere ∧ closed) ∧ takesHere ∧ takesAbsent)
      (takesHere ∧ takesAbsent) (if next = kind then here else absent)
      (if next = kind then changedHere else changedAbsent) := by
    intro next
    by_cases found : next = kind
    · simp only [found, if_true]
      exact stableHere.adjust (fun all => all.1.1) And.left
    · simp only [found, if_false]
      exact stableAbsent.adjust (fun all => all.1.2) And.right
  exact .dispatch (either _) (fun next => (either next).ahead next) And.right

/-! ## Recovery -/

theorem resumeAfter_suffix (previous : Kind) (tokens : List Token) :
    resumeAfter previous tokens <:+ tokens := by
  induction tokens generalizing previous with
  | nil => exact List.suffix_refl _
  | cons token rest inductionHypothesis =>
      rw [resumeAfter]
      split
      · exact List.suffix_refl _
      · exact (inductionHypothesis token.kind).trans (List.suffix_cons _ _)

theorem resumeAfter_tokens (previous : Kind) (tokens : List Token)
    (spares : change.more = [] ∨ resumeAfter previous tokens ≠ []) :
    resumeAfter previous (change.tokens tokens) = change.tokens (resumeAfter previous tokens) := by
  induction tokens generalizing previous with
  | nil =>
      rcases spares with nothing | left
      · simp [nothing, resumeAfter]
      · exact absurd rfl left
  | cons token rest inductionHypothesis =>
      rw [resumeAfter] at spares ⊢
      rw [Change.tokens_cons, resumeAfter, relabel_token_kind]
      by_cases stops : (previous = .semicolon || token.kind.startsStatement) = true
      · rw [if_pos stops, if_pos stops, Change.tokens_cons]
      · rw [if_neg stops] at spares
        rw [if_neg stops, if_neg stops]
        exact inductionHypothesis token.kind spares

theorem synchronize_length_lt (token : Token) (rest : List Token) :
    (synchronize (token :: rest)).length < (token :: rest).length :=
  Nat.lt_succ_of_le (resumeAfter_suffix token.kind rest).length_le

theorem synchronize_suffix (tokens : List Token) : synchronize tokens <:+ tokens := by
  cases tokens with
  | nil => exact List.suffix_refl _
  | cons token rest =>
      exact (resumeAfter_suffix token.kind rest).trans (List.suffix_cons _ _)

theorem synchronize_tokens (tokens : List Token)
    (spares : change.more = [] ∨ synchronize tokens ≠ []) :
    synchronize (change.tokens tokens) = change.tokens (synchronize tokens) := by
  cases tokens with
  | nil =>
      rcases spares with nothing | left
      · simp [nothing, synchronize]
      · exact absurd rfl left
  | cons token rest => exact resumeAfter_tokens token.kind rest spares

section Recovered

variable {γ : Type} {parser : Parser γ} {setting : Setting} {tokens : List Token}

theorem recovered_of_some (value : γ) (done : (parser setting tokens).outcome = some value) :
    recovered parser setting tokens =
      ⟨some (some value), (parser setting tokens).rest, (parser setting tokens).reports⟩ := by
  simp only [recovered, done]

theorem recovered_of_none (failed : (parser setting tokens).outcome = none) :
    recovered parser setting tokens =
      ⟨some none, synchronize (parser setting tokens).rest,
        (parser setting tokens).reports⟩ := by
  simp only [recovered, failed]

end Recovered

/-- Going on at the next statement, where there is a token to skip. -/
theorem StableOn.recovered {parser changed : Parser α}
    (stable : Stable change size closed True parser changed) (kind : Kind) :
    StableOn change (Ahead size kind) False True (Parser.recovered parser)
      (Parser.recovered changed) where
  leaves := by
    rintro setting tokens ⟨token, rest, rfl, -, short⟩
    have inside : Below size (token :: rest) := short
    cases outcome : (parser setting (token :: rest)).outcome with
    | some value =>
        rw [recovered_of_some _ outcome]
        exact stable.leaves _ inside
    | none =>
        rw [recovered_of_none outcome]
        exact (synchronize_suffix _).trans (stable.leaves _ inside)
  advances _ := by
    rintro setting tokens ⟨token, rest, rfl, -, short⟩ -
    have inside : Below size (token :: rest) := short
    cases outcome : (parser setting (token :: rest)).outcome with
    | some value =>
        rw [recovered_of_some _ outcome]
        exact stable.advances trivial inside (by rw [outcome]; rfl)
    | none =>
        rw [recovered_of_none outcome]
        have shorter := (stable.leaves setting inside).length_le
        cases left : (parser setting (token :: rest)).rest with
        | nil => exact Nat.succ_pos _
        | cons first others =>
            rw [left] at shorter
            exact Nat.lt_of_lt_of_le (synchronize_length_lt first others) shorter
  explains := by
    rintro setting tokens ⟨token, rest, rfl, -, short⟩ failed
    cases outcome : (parser setting (token :: rest)).outcome with
    | some value => simp [recovered_of_some _ outcome] at failed
    | none => simp [recovered_of_none outcome] at failed
  finishes := by
    rintro setting tokens ⟨token, rest, rfl, -, short⟩
    have inside : Below size (token :: rest) := short
    cases outcome : (parser setting (token :: rest)).outcome with
    | some value =>
        rw [recovered_of_some _ outcome]
        exact stable.finishes inside
    | none =>
        rw [recovered_of_none outcome]
        exact stable.finishes inside
  carries := by
    rintro setting other tokens ⟨token, rest, rfl, -, short⟩ fits spares
    have inside : Below size (token :: rest) := short
    cases outcome : (parser setting (token :: rest)).outcome with
    | some value =>
        rw [recovered_of_some _ outcome] at spares ⊢
        have same := stable.carries inside fits
          (spares.imp_right fun left => Or.inl (left.resolve_right fun both => both.1))
        rw [recovered_of_some (relabel change.line value)
          (by rw [same]; simp [Change.reply, outcome]), same]
        rfl
    | none =>
        rw [recovered_of_none outcome] at spares ⊢
        have left : change.ends ∨ synchronize (parser setting (token :: rest)).rest ≠ [] :=
          spares.imp_right fun left => left.resolve_right fun both => both.1
        have same := stable.carries inside fits
          (left.imp_right fun left => Or.inl fun empty => left (by rw [empty]; rfl))
        rw [recovered_of_none (by rw [same]; simp [Change.reply, outcome]), same]
        simp only [Change.reply, synchronize_tokens _ (left.imp_left change.final)]
        rfl

end Rules

end Scriptlet
