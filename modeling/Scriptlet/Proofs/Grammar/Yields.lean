import Scriptlet.Proofs.Grammar.ParallelRules

/-!
Contract: what every parser does with the tokens of a source.

`Yields source good parser` says of a parser that, on any tokens of the source,
it leaves an end of them, gives only values that are good, and reports only at
the sites of the source. Nothing is asked of the tokens, nor of the depth to
which the parser may go: it may report any number of errors, and run out of fuel.

Owns: `Yields`, and its rules for the parsers of single tokens, for sequencing,
for choices by the next token and for recovery.

Does not own: the rules of the grammar (`Scriptlet.Proofs.Grammar.WellFormed`).
-/

set_option autoImplicit false

namespace Scriptlet

/-- The site of a token of the source, or that of its end. -/
def Located (source : Token → Prop) (setting : Setting) (site : Site) : Prop :=
  site = setting.stop ∨ ∃ token, source token ∧ token.site = site

structure Reply.Yields {α : Type} (source : Token → Prop) (good : α → Prop) (setting : Setting)
    (tokens : List Token) (reply : Reply α) : Prop where
  rest : reply.rest <:+ tokens
  outcome : ∀ value ∈ reply.outcome, good value
  reports : ∀ report ∈ reply.reports, Located source setting report.site

/-- The parser goes forward, and gives what is good. -/
def Yields {α : Type} (source : Token → Prop) (good : α → Prop) (parser : Parser α) : Prop :=
  ∀ setting tokens, (∀ token ∈ tokens, source token) →
    (parser setting tokens).Yields source good setting tokens

namespace Yields

open Scriptlet.Parser

variable {α β : Type} {source : Token → Prop} {good : α → Prop} {result : β → Prop}

/-! ## Sequencing -/

theorem pure {value : α} (is : good value) : Yields source good (pure value) := by
  intro setting tokens within
  refine ⟨List.suffix_refl _, ?_, List.forall_mem_nil _⟩
  rintro _ ⟨⟩
  exact is

theorem bind {parser : Parser α} {next : α → Parser β} (first : Yields source good parser)
    (later : ∀ value, good value → Yields source result (next value)) :
    Yields source result (parser >>= next) := by
  intro setting tokens within
  obtain ⟨rest, outcome, reports⟩ := first setting tokens within
  cases done : (parser setting tokens).outcome with
  | none =>
      rw [bind_of_none done]
      exact ⟨rest, fun _ none => absurd none (Option.not_mem_none _), reports⟩
  | some value =>
      have after := later value (outcome value done) setting (parser setting tokens).rest
        fun token inside => within token (rest.subset inside)
      rw [bind_of_some value done]
      refine ⟨after.rest.trans rest, after.outcome, fun report inside => ?_⟩
      rcases List.mem_append.mp inside with early | late
      · exact reports report early
      · exact after.reports report late

theorem mono {stronger : α → Prop} {parser : Parser α} (yields : Yields source stronger parser)
    (weaken : ∀ value, stronger value → good value) : Yields source good parser := by
  intro setting tokens within
  obtain ⟨rest, outcome, reports⟩ := yields setting tokens within
  exact ⟨rest, fun value done => weaken value (outcome value done), reports⟩

theorem map {parser : Parser α} {convert : α → β} (yields : Yields source good parser)
    (converted : ∀ value, good value → result (convert value)) :
    Yields source result (convert <$> parser) :=
  yields.bind fun value is => .pure (converted value is)

/-- Something that may be missing. -/
theorem some {parser : Parser α} (yields : Yields source good parser) :
    Yields source (fun found : Option α => ∀ value ∈ found, good value) (Option.some <$> parser) :=
  yields.map fun _ is _ found => Option.some.inj found ▸ is

theorem none {γ : Type} {holds : γ → Prop} :
    Yields source (fun found : Option γ => ∀ value ∈ found, holds value)
      (Pure.pure Option.none) :=
  .pure fun _ found => absurd found (Option.not_mem_none _)

/-! ## Single tokens -/

theorem siteOf_located {setting : Setting} {tokens : List Token}
    (within : ∀ token ∈ tokens, source token) : Located source setting (siteOf setting tokens) := by
  cases tokens with
  | nil => exact Or.inl rfl
  | cons token rest => exact Or.inr ⟨token, within token List.mem_cons_self, rfl⟩

theorem failHere (problem : Problem) : Yields source good (failHere problem) := by
  intro setting tokens within
  refine ⟨List.suffix_refl _, fun _ none => absurd none (Option.not_mem_none _), ?_⟩
  exact List.forall_mem_singleton.mpr (siteOf_located within)

theorem exhausted : Yields source good Parser.exhausted :=
  failHere _

theorem fail {token : Token} (inside : source token) (problem : Problem) :
    Yields source good (fail token.site problem) := by
  intro setting tokens within
  refine ⟨List.suffix_refl _, fun _ none => absurd none (Option.not_mem_none _), ?_⟩
  exact List.forall_mem_singleton.mpr (Or.inr ⟨token, inside, rfl⟩)

theorem report {token : Token} (inside : source token) (problem : Problem) :
    Yields source (fun _ => True) (report token.site problem) := by
  intro setting tokens within
  refine ⟨List.suffix_refl _, fun _ _ => trivial, ?_⟩
  exact List.forall_mem_singleton.mpr (Or.inr ⟨token, inside, rfl⟩)

theorem reportHere (problem : Problem) :
    Yields source (fun _ => True) (reportHere problem) := by
  intro setting tokens within
  refine ⟨List.suffix_refl _, fun _ _ => trivial, ?_⟩
  exact List.forall_mem_singleton.mpr (siteOf_located within)

theorem expect (kind : Kind) (what : Expectation) :
    Yields source (fun token => source token ∧ token.kind = kind) (expect kind what) := by
  intro setting tokens within
  cases tokens with
  | nil => exact failHere (.expected what) setting [] within
  | cons token rest =>
      by_cases found : token.kind = kind
      · simp only [Parser.expect, found, if_true]
        refine ⟨List.suffix_cons _ _, ?_, List.forall_mem_nil _⟩
        rintro _ ⟨⟩
        exact ⟨within token List.mem_cons_self, found⟩
      · simp only [Parser.expect, found, if_false]
        exact failHere (.expected what) setting (token :: rest) within

theorem expectAfter (kind : Kind) (landmark : String) :
    Yields source (fun token => source token ∧ token.kind = kind) (expectAfter kind landmark) :=
  expect kind _

theorem expectBefore (kind : Kind) (landmark : String) :
    Yields source (fun token => source token ∧ token.kind = kind) (expectBefore kind landmark) :=
  expect kind _

theorem toss : Yields source (fun _ => True) toss :=
  fun _ _ _ => ⟨List.suffix_refl _, fun _ _ => trivial, List.forall_mem_nil _⟩

theorem templateText : Yields source (fun _ => True) templateText :=
  fun _ _ _ => ⟨List.dropWhile_suffix _, fun _ _ => trivial,
    List.forall_mem_nil _⟩

/-! ## Choices by the next token -/

/-- What goes on behind a token that has an answer, or before any other. -/
theorem choice {γ : Type} {choose : Kind → Option γ} {parser : Parser α}
    {found : γ → Token → Parser α} {other : Parser α} (shape : Chooses choose parser found other)
    (taken : ∀ answer token, source token → choose token.kind = Option.some answer →
      Yields source good (found answer token))
    (absent : Yields source good other) : Yields source good parser := by
  intro setting tokens within
  cases tokens with
  | nil =>
      rw [shape.nil]
      exact absent setting [] within
  | cons token rest =>
      cases chosen : choose token.kind with
      | none =>
          rw [shape.other setting token rest chosen]
          exact absent setting _ within
      | some answer =>
          have after := taken answer token (within token List.mem_cons_self) chosen setting rest
            fun token inside => within token (List.mem_cons_of_mem _ inside)
          rw [shape.found setting token rest answer chosen]
          exact ⟨after.rest.trans (List.suffix_cons _ _), after.outcome, after.reports⟩

theorem select {γ : Type} {choose : Kind → Option γ} {next : Option (γ × Token) → Parser α}
    (taken : ∀ answer token, source token → choose token.kind = Option.some answer →
      Yields source good (next (Option.some (answer, token))))
    (absent : Yields source good (next Option.none)) :
    Yields source good (select choose >>= next) :=
  choice (chooses_select choose next) taken absent

theorem accept {kind : Kind} {next : Option Token → Parser α}
    (taken : ∀ token, source token → token.kind = kind →
      Yields source good (next (Option.some token)))
    (absent : Yields source good (next Option.none)) :
    Yields source good (accept kind >>= next) := by
  refine choice (chooses_accept kind next) (fun _ token inside chosen => ?_) absent
  exact taken token inside (by simpa using chosen)

theorem dispatch {next : Kind → Parser α} (ahead : ∀ kind, Yields source good (next kind)) :
    Yields source good (peek >>= next) := by
  intro setting tokens within
  rw [bind_of_some (kindOf tokens) rfl]
  exact ahead (kindOf tokens) setting tokens within

theorem check {kind : Kind} {next : Bool → Parser α}
    (later : ∀ found, Yields source good (next found)) :
    Yields source good (check kind >>= next) := by
  intro setting tokens within
  rw [bind_of_some (decide (kindOf tokens = kind)) rfl]
  exact later (decide (kindOf tokens = kind)) setting tokens within

theorem taking {parser : Parser α} (yields : Yields source good parser) :
    Yields source good (Grammar.taking parser) := by
  intro setting tokens within
  have left := advance_suffix tokens
  have after := yields setting (advance tokens) fun token inside => within token (left.subset inside)
  exact ⟨after.rest.trans left, after.outcome, after.reports⟩

/-- A warning that may come first. -/
theorem warned {warns : Prop} [Decidable warns] {warning : Parser Unit} {next : Unit → Parser α}
    (warnings : Yields source (fun _ => True) warning) (yields : Yields source good (next ())) :
    Yields source good (if warns then warning >>= next else next ()) := by
  split
  · exact warnings.bind fun _ _ => yields
  · exact yields

/-- A token taken for the constant it stands for. -/
theorem constantLiteral {good : Expr → Prop} (problem : Problem)
    (constantOf : Literal → Option Constant) (constants : ∀ value, good (.constant value)) :
    Yields source good (Grammar.constantLiteral problem constantOf) := by
  intro setting tokens within
  unfold Grammar.constantLiteral
  split
  · refine ⟨advance_suffix _, ?_, List.forall_mem_nil _⟩
    rintro _ ⟨⟩
    exact constants _
  · exact failHere problem setting tokens within

/-! ## Recovery -/

theorem recovered {parser : Parser α} (yields : Yields source good parser) :
    Yields source (fun found : Option α => ∀ value ∈ found, good value) (recovered parser) := by
  intro setting tokens within
  obtain ⟨rest, outcome, reports⟩ := yields setting tokens within
  cases done : (parser setting tokens).outcome with
  | none =>
      rw [recovered_of_none done]
      refine ⟨(synchronize_suffix _).trans rest, ?_, reports⟩
      rintro _ ⟨⟩ _ ⟨⟩
  | some value =>
      rw [recovered_of_some value done]
      refine ⟨rest, ?_, reports⟩
      rintro _ ⟨⟩ _ ⟨⟩
      exact outcome value done

end Yields

end Scriptlet
