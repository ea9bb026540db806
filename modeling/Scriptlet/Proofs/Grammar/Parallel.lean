import Scriptlet.Proofs.Grammar.Stable
import Mathlib.Data.List.Forall2

/-!
Contract: parsers on tokens that differ only in symbols.

`Parallel like relation left right` says of two parsers that, on tokens that are
alike, they leave tokens that are alike, report the same, and give values that
are related, if any. Nothing is asked of the tokens: the parsers may report any
number of errors.

Owns: `Token.Alike`, `Parallel`, and its rules for the parsers of single tokens,
for sequencing, for choices by the next token and for recovery.

Does not own: the rules of the grammar (`Scriptlet.Proofs.Grammar.ParallelRules`).
-/

set_option autoImplicit false

namespace Scriptlet

/-- How tokens may differ: in symbols, which have to be related. If `maybe` may
occur, both sides toss the same coins. -/
structure Likeness where
  symbols : Symbol → Symbol → Prop
  tossed : Prop

inductive Literal.Alike (symbols : Symbol → Symbol → Prop) : Literal → Literal → Prop where
  | number (value : Float) : Literal.Alike symbols (.number value) (.number value)
  | text (value : String) : Literal.Alike symbols (.text value) (.text value)
  | identifier {left right : Symbol} (same : symbols left right) :
      Literal.Alike symbols (.identifier left) (.identifier right)

structure Token.Alike (like : Likeness) (left right : Token) : Prop where
  kind : left.kind = right.kind
  lexeme : left.lexeme = right.lexeme
  line : left.line = right.line
  literal : Option.Rel (Literal.Alike like.symbols) left.literal right.literal
  maybe : left.kind = .maybeWord → like.tossed

theorem Token.Alike.site {like : Likeness} {left right : Token} (alike : left.Alike like right) :
    left.site = right.site := by
  rw [Token.site, Token.site, alike.kind, alike.lexeme, alike.line]

structure Setting.Alike (like : Likeness) (left right : Setting) : Prop where
  stop : left.stop = right.stop
  coin : like.tossed → left.coin = right.coin

/-- Tokens that are alike, one by one. -/
abbrev TokensAlike (like : Likeness) : List Token → List Token → Prop :=
  List.Forall₂ (Token.Alike like)

structure Reply.Alike {α β : Type} (like : Likeness) (relation : α → β → Prop) (left : Reply α)
    (right : Reply β) : Prop where
  outcome : Option.Rel relation left.outcome right.outcome
  rest : TokensAlike like left.rest right.rest
  reports : left.reports = right.reports

/-- The two parsers do the same on tokens that are alike. -/
def Parallel {α β : Type} (like : Likeness) (relation : α → β → Prop) (left : Parser α)
    (right : Parser β) : Prop :=
  ∀ setting other tokens tokens', Setting.Alike like setting other →
    TokensAlike like tokens tokens' →
      (left setting tokens).Alike like relation (right other tokens')

/-- Two optional values are related: both are missing, or both are there. -/
theorem rel_cases {α β : Type} {relation : α → β → Prop} {left : Option α} {right : Option β}
    (related : Option.Rel relation left right) :
    left = none ∧ right = none ∨
      ∃ value value', left = some value ∧ right = some value' ∧ relation value value' := by
  cases related with
  | none => exact Or.inl ⟨rfl, rfl⟩
  | some related => exact Or.inr ⟨_, _, rfl, rfl, related⟩

namespace Parallel

open Scriptlet.Parser

variable {α β γ δ : Type} {like : Likeness} {relation : α → β → Prop} {result : γ → δ → Prop}

/-! ## Sequencing -/

theorem pure {value : α} {value' : β} (related : relation value value') :
    Parallel like relation (pure value) (pure value') :=
  fun _ _ _ _ _ alike => ⟨.some related, alike, rfl⟩

theorem bind {left : Parser α} {right : Parser β} {next : α → Parser γ} {next' : β → Parser δ}
    (first : Parallel like relation left right)
    (later : ∀ value value', relation value value' →
      Parallel like result (next value) (next' value')) :
    Parallel like result (left >>= next) (right >>= next') := by
  intro setting other tokens tokens' settings alike
  obtain ⟨outcome, rest, reports⟩ := first setting other tokens tokens' settings alike
  rcases rel_cases outcome with ⟨failed, failed'⟩ | ⟨value, value', done, done', related⟩
  · rw [bind_of_none failed, bind_of_none failed']
    exact ⟨.none, rest, reports⟩
  · obtain ⟨final, left, more⟩ := later value value' related setting other _ _ settings rest
    rw [bind_of_some value done, bind_of_some value' done']
    exact ⟨final, left, by rw [reports, more]⟩

theorem mono {stronger : α → β → Prop} {left : Parser α} {right : Parser β}
    (parallel : Parallel like stronger left right)
    (weaken : ∀ value value', stronger value value' → relation value value') :
    Parallel like relation left right := by
  intro setting other tokens tokens' settings alike
  obtain ⟨outcome, rest, reports⟩ := parallel setting other tokens tokens' settings alike
  refine ⟨?_, rest, reports⟩
  rcases rel_cases outcome with ⟨failed, failed'⟩ | ⟨value, value', done, done', related⟩
  · rw [failed, failed']
    exact .none
  · rw [done, done']
    exact .some (weaken value value' related)

theorem map {left : Parser α} {right : Parser β} {convert : α → γ} {convert' : β → δ}
    (parallel : Parallel like relation left right)
    (related : ∀ value value', relation value value' → result (convert value) (convert' value')) :
    Parallel like result (convert <$> left) (convert' <$> right) :=
  parallel.bind fun value value' same => .pure (related value value' same)

/-! ## Single tokens -/

theorem kindOf_eq {tokens tokens' : List Token} (alike : TokensAlike like tokens tokens') :
    kindOf tokens = kindOf tokens' := by
  cases alike with
  | nil => rfl
  | cons first rest => exact first.kind

theorem siteOf_eq {setting other : Setting} {tokens tokens' : List Token}
    (settings : Setting.Alike like setting other) (alike : TokensAlike like tokens tokens') :
    siteOf setting tokens = siteOf other tokens' := by
  cases alike with
  | nil => exact settings.stop
  | cons first rest => exact first.site

theorem failHere (problem : Problem) :
    Parallel like relation (failHere problem) (failHere problem) := by
  intro setting other tokens tokens' settings alike
  refine ⟨.none, alike, ?_⟩
  show [(⟨siteOf setting tokens, problem⟩ : Diagnostic)] = [⟨siteOf other tokens', problem⟩]
  rw [siteOf_eq settings alike]

theorem exhausted : Parallel like relation Parser.exhausted Parser.exhausted :=
  failHere _

theorem fail {site site' : Site} (same : site = site') (problem : Problem) :
    Parallel like relation (fail site problem) (fail site' problem) := by
  subst same
  exact fun _ _ _ _ _ alike => ⟨.none, alike, rfl⟩

theorem report {site site' : Site} (same : site = site') (problem : Problem) :
    Parallel like Eq (report site problem) (report site' problem) := by
  subst same
  exact fun _ _ _ _ _ alike => ⟨.some rfl, alike, rfl⟩

theorem reportHere (problem : Problem) :
    Parallel like Eq (reportHere problem) (reportHere problem) := by
  intro setting other tokens tokens' settings alike
  refine ⟨.some rfl, alike, ?_⟩
  show [(⟨siteOf setting tokens, problem⟩ : Diagnostic)] = [⟨siteOf other tokens', problem⟩]
  rw [siteOf_eq settings alike]

theorem expect (kind : Kind) (what : Expectation) :
    Parallel like (Token.Alike like) (expect kind what) (expect kind what) := by
  intro setting other tokens tokens' settings alike
  cases alike with
  | nil =>
      refine ⟨.none, .nil, ?_⟩
      show [(⟨setting.stop, _⟩ : Diagnostic)] = [⟨other.stop, _⟩]
      rw [settings.stop]
  | @cons token token' rest rest' first others =>
      by_cases found : token.kind = kind
      · have found' : token'.kind = kind := first.kind ▸ found
        simp only [Parser.expect, found, found', if_true]
        exact ⟨.some first, others, rfl⟩
      · have missing : token'.kind ≠ kind := first.kind ▸ found
        simp only [Parser.expect, found, missing, if_false]
        exact ⟨.none, .cons first others, by rw [first.site]⟩

theorem expectAfter (kind : Kind) (landmark : String) :
    Parallel like (Token.Alike like) (expectAfter kind landmark) (expectAfter kind landmark) :=
  expect kind _

theorem expectBefore (kind : Kind) (landmark : String) :
    Parallel like (Token.Alike like) (expectBefore kind landmark) (expectBefore kind landmark) :=
  expect kind _

/-- If `maybe` may occur, the coins are the same. -/
theorem toss (tossed : like.tossed) : Parallel like Eq toss toss := by
  intro setting other tokens tokens' settings alike
  refine ⟨.some ?_, alike, rfl⟩
  rw [settings.coin tossed, alike.length_eq]

/-! ## Choices by the next token -/

theorem select {ε : Type} {choose : Kind → Option ε} {next : Option (ε × Token) → Parser γ}
    {next' : Option (ε × Token) → Parser δ}
    (taken : ∀ answer token token', Token.Alike like token token' →
      Parallel like result (next (some (answer, token))) (next' (some (answer, token'))))
    (absent : Parallel like result (next none) (next' none)) :
    Parallel like result (select choose >>= next) (select choose >>= next') := by
  intro setting other tokens tokens' settings alike
  have shape := chooses_select choose next
  have shape' := chooses_select choose next'
  cases alike with
  | nil =>
      rw [shape.nil, shape'.nil]
      exact absent setting other [] [] settings .nil
  | @cons token token' rest rest' first others =>
      cases chosen : choose token.kind with
      | none =>
          rw [shape.other setting token rest chosen,
            shape'.other other token' rest' (first.kind ▸ chosen)]
          exact absent setting other _ _ settings (.cons first others)
      | some answer =>
          rw [shape.found setting token rest answer chosen,
            shape'.found other token' rest' answer (first.kind ▸ chosen)]
          exact taken answer token token' first setting other _ _ settings others

theorem accept {kind : Kind} {next : Option Token → Parser γ} {next' : Option Token → Parser δ}
    (taken : ∀ token token', Token.Alike like token token' →
      Parallel like result (next (some token)) (next' (some token')))
    (absent : Parallel like result (next none) (next' none)) :
    Parallel like result (accept kind >>= next) (accept kind >>= next') := by
  intro setting other tokens tokens' settings alike
  have shape := chooses_accept kind next
  have shape' := chooses_accept kind next'
  cases alike with
  | nil =>
      rw [shape.nil, shape'.nil]
      exact absent setting other [] [] settings .nil
  | @cons token token' rest rest' first others =>
      by_cases found : token.kind = kind
      · rw [shape.found setting token rest () (if_pos found),
          shape'.found other token' rest' () (if_pos (first.kind ▸ found))]
        exact taken token token' first setting other _ _ settings others
      · rw [shape.other setting token rest (if_neg found),
          shape'.other other token' rest' (if_neg (first.kind ▸ found))]
        exact absent setting other _ _ settings (.cons first others)

/-- A `maybe` that comes next is one that may occur. -/
theorem dispatch {next : Kind → Parser γ} {next' : Kind → Parser δ}
    (ahead : ∀ kind, (kind = .maybeWord → like.tossed) →
      Parallel like result (next kind) (next' kind)) :
    Parallel like result (peek >>= next) (peek >>= next') := by
  intro setting other tokens tokens' settings alike
  have tossed : kindOf tokens = .maybeWord → like.tossed := by
    intro isMaybe
    cases alike with
    | nil => cases isMaybe
    | cons first rest => exact first.maybe isMaybe
  have same := ahead (kindOf tokens) tossed setting other tokens tokens' settings alike
  rw [bind_of_some (kindOf tokens) rfl, bind_of_some (kindOf tokens') rfl, ← kindOf_eq alike]
  exact ⟨same.outcome, same.rest, congrArg ([] ++ ·) same.reports⟩

theorem check {kind : Kind} {next : Bool → Parser γ} {next' : Bool → Parser δ}
    (later : ∀ found, Parallel like result (next found) (next' found)) :
    Parallel like result (check kind >>= next) (check kind >>= next') := by
  intro setting other tokens tokens' settings alike
  have same := later (decide (kindOf tokens = kind)) setting other tokens tokens' settings alike
  rw [bind_of_some (decide (kindOf tokens = kind)) rfl,
    bind_of_some (decide (kindOf tokens' = kind)) rfl, ← kindOf_eq alike]
  exact ⟨same.outcome, same.rest, congrArg ([] ++ ·) same.reports⟩

theorem taking {left : Parser γ} {right : Parser δ} (parallel : Parallel like result left right) :
    Parallel like result (Grammar.taking left) (Grammar.taking right) := by
  intro setting other tokens tokens' settings alike
  refine parallel setting other (advance tokens) (advance tokens') settings ?_
  cases alike with
  | nil => exact .nil
  | cons first rest => exact rest

/-- A warning that may come first, on both sides or on none. -/
theorem warned {warns : Prop} [Decidable warns] {warning warning' : Parser Unit}
    {left : Unit → Parser γ} {right : Unit → Parser δ}
    (warnings : Parallel like Eq warning warning')
    (parallel : Parallel like result (left ()) (right ())) :
    Parallel like result (if warns then warning >>= left else left ())
      (if warns then warning' >>= right else right ()) := by
  split
  · exact warnings.bind fun _ _ _ => parallel
  · exact parallel

/-! ## Recovery -/

theorem resumeAfter_alike (previous : Kind) {tokens tokens' : List Token}
    (alike : TokensAlike like tokens tokens') :
    TokensAlike like (resumeAfter previous tokens) (resumeAfter previous tokens') := by
  induction alike generalizing previous with
  | nil => exact .nil
  | @cons token token' rest rest' first others inductionHypothesis =>
      rw [resumeAfter, resumeAfter, ← first.kind]
      split
      · exact .cons first others
      · exact inductionHypothesis token.kind

theorem synchronize_alike {tokens tokens' : List Token} (alike : TokensAlike like tokens tokens') :
    TokensAlike like (synchronize tokens) (synchronize tokens') := by
  cases alike with
  | nil => exact .nil
  | @cons token token' rest rest' first others =>
      rw [synchronize, synchronize, ← first.kind]
      exact resumeAfter_alike token.kind others

theorem recovered {left : Parser α} {right : Parser β}
    (parallel : Parallel like relation left right) :
    Parallel like (Option.Rel relation) (recovered left) (recovered right) := by
  intro setting other tokens tokens' settings alike
  obtain ⟨outcome, rest, reports⟩ := parallel setting other tokens tokens' settings alike
  rcases rel_cases outcome with ⟨failed, failed'⟩ | ⟨value, value', done, done', related⟩
  · rw [recovered_of_none failed, recovered_of_none failed']
    exact ⟨.some .none, synchronize_alike rest, reports⟩
  · rw [recovered_of_some value done, recovered_of_some value' done']
    exact ⟨.some (.some related), rest, reports⟩

end Parallel

end Scriptlet
