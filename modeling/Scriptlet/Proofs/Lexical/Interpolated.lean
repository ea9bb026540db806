import Scriptlet.Proofs.Grammar.Braces
import Scriptlet.Proofs.Lexical.Templates
import Mathlib.Data.List.Induction

/-!
Contract: text and code between the backticks of a template.

Owns: how text is written so that a template reads it back (`escaped`,
`cut_escaped`); that code with balanced braces is cut in an interpolation as it is
cut alone (`cut_within`, `cut_interpolation`); that the braces of pieces are those of
the tokens they are read as (`bracesBehind_kindsRead`); and that a source is complete if
it is so with a semicolon on the next line (`complete_of_semicolon`).

Does not own: that the braces of an expression are balanced
(`Scriptlet.Proofs.Grammar.Braces`).

## Why braces are counted over all layers

In an interpolation a closing brace may end it, and in plain code it never does. The
two are cut alike as long as no brace closes the interpolation itself. One count over
all layers says so: each layer of code inside is worth the braces open in it, and one
for its own.
-/

set_option autoImplicit false

namespace Scriptlet

/-! ## Sources that are complete -/

/-- Where no piece is wrong, nothing is reported. -/
theorem Reading.foldl_add_right {pieces : List Piece} (reading : Reading)
    (right : ∀ piece ∈ pieces, ∀ problem, piece.shape ≠ .wrong problem) :
    (pieces.foldl Reading.add reading).diagnostics = reading.diagnostics := by
  induction pieces generalizing reading with
  | nil => rfl
  | cons piece pieces inductionHypothesis =>
      obtain ⟨first, others⟩ := List.forall_mem_cons.mp right
      rw [List.foldl_cons, inductionHypothesis _ others, add_diagnostics]
      split
      next problem isWrong => exact absurd isWrong (first problem)
      next => rfl

/-- No string and no layer is open at the end. -/
structure Complete (layers : Nesting) (source : List Char) : Prop where
  closed : ∀ piece ∈ (cut layers source).pieces, piece.shape ≠ .wrong .unterminatedString
  level : (cut layers source).nesting = []

theorem complete_cons_iff {layers : Nesting} {c : Char} {rest : List Char} :
    Complete layers (c :: rest) ↔
      (firstPiece layers c rest).1.shape ≠ .wrong .unterminatedString ∧
        Complete (layers.after (firstPiece layers c rest).1.shape)
          (firstPiece layers c rest).2 := by
  constructor
  · rintro ⟨closed, level⟩
    rw [cut_cons] at closed level
    obtain ⟨first, others⟩ := List.forall_mem_cons.mp closed
    exact ⟨first, others, level⟩
  · rintro ⟨first, others, level⟩
    constructor
    · rw [cut_cons]
      exact List.forall_mem_cons.mpr ⟨first, others⟩
    · rw [cut_cons]
      exact level

section Semicolon

variable {c : Char} {rest tail : List Char}

theorem stringPiece_open_iff {quote : Char} {inside : Char → Bool} :
    (stringPiece quote inside rest).1.shape = .wrong .unterminatedString ↔
      (rest.dropWhile inside).head? ≠ some quote := by
  unfold stringPiece
  cases rest.dropWhile inside with
  | nil => simp
  | cons d after =>
      dsimp only
      split
      next isQuote => simp [isQuote]
      next other => simp [other]

/-- A string that is open stays so before text without its quote. -/
theorem stringPiece_open {quote : Char} {inside : Char → Bool} (free : quote ∉ tail)
    (isOpen : (stringPiece quote inside rest).1.shape = .wrong .unterminatedString) :
    (stringPiece quote inside (rest ++ tail)).1.shape = .wrong .unterminatedString := by
  rw [stringPiece_open_iff] at isOpen ⊢
  rw [List.dropWhile_append]
  split
  · intro isQuote
    apply free
    exact (List.dropWhile_suffix inside).subset (List.mem_of_head? isQuote)
  next ends =>
    cases left : rest.dropWhile inside with
    | nil => simp [left] at ends
    | cons d after =>
        rw [left] at isOpen
        exact isOpen

theorem codePiece_open (free : '\x22' ∉ tail ∧ '\x27' ∉ tail)
    (isOpen : (codePiece c rest).1.shape = .wrong .unterminatedString) :
    (codePiece c (rest ++ tail)).1.shape = .wrong .unterminatedString := by
  unfold codePiece at isOpen ⊢
  split at isOpen
  case h_13 | h_14 | h_15 | h_16 | h_17 | h_18 | h_19 =>
    unfold operatorPiece at isOpen
    split at isOpen <;> cases isOpen
  case h_20 =>
    unfold slashPiece operatorPiece at isOpen
    split at isOpen
    · cases isOpen
    · split at isOpen <;> cases isOpen
  case h_25 => exact stringPiece_open free.1 isOpen
  case h_26 => exact stringPiece_open free.2 isOpen
  case h_27 =>
    split at isOpen
    · obtain ⟨whole, fraction, shape⟩ := numberPiece_shape c rest
      rw [shape] at isOpen
      cases isOpen
    · split at isOpen <;> cases isOpen
  all_goals cases isOpen

/-- The next line with a semicolon. -/
def semicolonLine : List Char := ['\n', ';']

theorem cut_semicolonLine (layers : Nesting) : (cut layers semicolonLine).nesting = layers := by
  rcases layers with _ | ⟨_ | depth, outer⟩ <;> rfl

/-- The first piece before a semicolon on the next line is what it is alone, if the whole
is complete. -/
theorem firstPiece_semicolon {layers : Nesting}
    (complete : Complete layers (c :: (rest ++ semicolonLine))) :
    firstPiece layers c (rest ++ semicolonLine) =
      extended (firstPiece layers c rest) semicolonLine := by
  obtain ⟨closed, later⟩ := complete_cons_iff.mp complete
  rcases layers with _ | ⟨_ | depth, outer⟩
  case cons.template =>
    apply templatePiece_append
    rintro rfl rfl
    cases later.level
  all_goals
    apply codePiece_append
    intro isOpen
    exact closed (codePiece_open (by decide) isOpen.1)

/-- A source that is complete with a semicolon on the next line is complete without. -/
theorem complete_of_semicolon {layers : Nesting} {source : List Char}
    (complete : Complete layers (source ++ semicolonLine)) : Complete layers source := by
  induction layers, source using cut_induction with
  | nil layers =>
      refine ⟨by simp [cut_nil], ?_⟩
      have level := complete.level
      rwa [List.nil_append, cut_semicolonLine] at level
  | cons layers c rest inductionHypothesis =>
      rw [List.cons_append] at complete
      have first := firstPiece_semicolon complete
      obtain ⟨closed, later⟩ := complete_cons_iff.mp complete
      rw [first] at closed later
      exact complete_cons_iff.mpr ⟨closed, inductionHypothesis later⟩

end Semicolon

/-! ## Braces -/

/-- The number of braces that are open behind a piece, unless it closes one that is not
open. -/
def Shape.braces? : Shape → Nat → Option Nat
  | .mark kind, depth => kind.braces? depth
  | _, depth => some depth

/-- The number of braces that are open behind pieces, if each of them closes only what is
open. -/
def bracesCut (pieces : List Piece) (depth : Nat) : Option Nat :=
  pieces.foldlM (fun depth piece => piece.shape.braces? depth) depth

/-- A word is no brace. -/
theorem braces?_of_word {kind : Kind}
    (isWord : kind = .identifier ∨ ∃ word, (word, kind) ∈ Kind.reservedWords) (depth : Nat) :
    kind.braces? depth = some depth := by
  have reserved : ∀ pair ∈ Kind.reservedWords,
      pair.2 ≠ .leftBrace ∧ pair.2 ≠ .dollarBrace ∧ pair.2 ≠ .rightBrace := by decide
  rcases isWord with rfl | ⟨word, known⟩
  · rfl
  · obtain ⟨noLeft, noDollar, noRight⟩ := reserved _ known
    unfold Kind.braces?
    split <;> simp_all

theorem Shape.Emits.braces?_eq {shape : Shape} {kind : Kind} (emits : shape.Emits kind)
    (depth : Nat) : kind.braces? depth = shape.braces? depth := by
  cases shape with
  | mark read =>
      cases emits
      rfl
  | word => exact braces?_of_word emits depth
  | number whole fraction =>
      cases emits
      rfl
  | string content =>
      cases emits
      rfl
  | templateText content =>
      cases emits
      rfl
  | blank | comment | wrong problem => cases emits

/-- A piece that changes no layers opens and closes no brace. -/
theorem Shape.braces?_of_after {shape : Shape}
    (unchanged : ∀ layers, Nesting.after layers shape = layers) (depth : Nat) :
    shape.braces? depth = some depth := by
  have inside := unchanged [.interpolation 1]
  cases shape with
  | mark kind =>
      show kind.braces? depth = some depth
      unfold Kind.braces?
      split <;> simp_all [Nesting.after]
  | _ => rfl

/-- Braces can be counted over pieces, or over the tokens that these are read as. -/
theorem bracesBehind_kindsRead (symbols : SymbolTable) (pieces : List Piece) (depth : Nat) :
    bracesBehind (kindsRead symbols pieces) depth = bracesCut pieces depth := by
  induction pieces using List.reverseRecOn with
  | nil => rfl
  | append_singleton pieces piece inductionHypothesis =>
      have longer : bracesCut (pieces ++ [piece]) depth =
          (bracesCut pieces depth).bind piece.shape.braces? := by
        rw [bracesCut, List.foldlM_append]
        simp [bracesCut]
      rcases kindsRead_concat symbols pieces piece with
        ⟨same, unchanged⟩ | ⟨kind, more, emits, -⟩
      · have stays : piece.shape.braces? = some := funext (Shape.braces?_of_after unchanged)
        rw [same, inductionHypothesis, longer, stays, Option.bind_fun_some]
      · have alike : bracesBehind [kind] = piece.shape.braces? := by
          funext depth
          rw [← emits.braces?_eq]
          simp [bracesBehind]
        rw [more, bracesBehind_append, inductionHypothesis, longer, alike]

/-! ## Code inside an interpolation -/

/-- The braces open in layers of code, with those that opened the layers. -/
def Nesting.weight : Nesting → Nat
  | [] => 0
  | .template :: outer => Nesting.weight outer
  | .interpolation depth :: outer => depth + 1 + Nesting.weight outer

/-- Layers on top of an interpolation, with `depth` braces open in it, are behind a piece
what they are alone, and `last` braces are open then in all of them. -/
def Carries (layers : Nesting) (depth : Nat) (outer : Nesting) (shape : Shape) (last : Nat) :
    Prop :=
  ∃ inner, Nesting.after (layers ++ .interpolation depth :: outer) shape =
      layers.after shape ++ .interpolation inner :: outer ∧
    last = inner + (layers.after shape).weight

section Within

variable {layers outer : Nesting} {depth last : Nat}

theorem carries_unchanged {shape : Shape}
    (unchanged : ∀ layers, Nesting.after layers shape = layers) :
    Carries layers depth outer shape (depth + layers.weight) := by
  refine ⟨depth, ?_, ?_⟩
  · rw [unchanged, unchanged]
  · rw [unchanged]

/-- A mark that is neither a backtick nor a brace changes no layers. -/
theorem after_plain {kind : Kind} (noTick : kind ≠ .backtick) (noDollar : kind ≠ .dollarBrace)
    (noLeft : kind ≠ .leftBrace) (noRight : kind ≠ .rightBrace) (layers : Nesting) :
    layers.after (.mark kind) = layers := by
  unfold Nesting.after
  split <;> simp_all

theorem carries_leftBrace (inCode : ¬ layers.InTemplate) :
    Carries layers depth outer (.mark .leftBrace) (depth + layers.weight + 1) := by
  rcases layers with _ | ⟨_ | opened, behind⟩
  · exact ⟨depth + 1, rfl, rfl⟩
  · exact absurd rfl inCode
  · refine ⟨depth, rfl, ?_⟩
    simp only [Nesting.after, Nesting.weight]
    omega

theorem carries_rightBrace (inCode : ¬ layers.InTemplate)
    (counted : Kind.rightBrace.braces? (depth + layers.weight) = some last) :
    Carries layers depth outer (.mark .rightBrace) last := by
  rcases layers with _ | ⟨_ | opened, behind⟩
  · -- the interpolation itself must not be closed
    cases depth with
    | zero => cases counted
    | succ depth =>
        cases counted
        exact ⟨_, rfl, rfl⟩
  · exact absurd rfl inCode
  · have weight : depth + Nesting.weight (.interpolation opened :: behind) =
        depth + opened + Nesting.weight behind + 1 := by
      simp only [Nesting.weight]
      omega
    rw [weight] at counted
    cases counted
    cases opened with
    | zero => exact ⟨depth, rfl, rfl⟩
    | succ opened =>
        refine ⟨depth, rfl, ?_⟩
        simp only [Nesting.after, Nesting.weight]
        omega

theorem carries_code {shape : Shape} (inCode : ¬ layers.InTemplate)
    (counted : shape.braces? (depth + layers.weight) = some last) :
    Carries layers depth outer shape last := by
  cases shape with
  | mark kind =>
      by_cases isLeft : kind = .leftBrace
      · subst isLeft
        cases counted
        exact carries_leftBrace inCode
      by_cases isRight : kind = .rightBrace
      · subst isRight
        exact carries_rightBrace inCode counted
      by_cases isDollar : kind = .dollarBrace
      · subst isDollar
        cases counted
        exact ⟨depth, rfl, by simp only [Nesting.after, Nesting.weight]; omega⟩
      have stays : kind.braces? (depth + layers.weight) = some (depth + layers.weight) := by
        unfold Kind.braces?
        split <;> simp_all
      have isSame : last = depth + layers.weight :=
        Option.some.inj (counted.symm.trans stays)
      subst isSame
      by_cases isTick : kind = .backtick
      · subst isTick
        rcases layers with _ | ⟨_ | opened, behind⟩
        · exact ⟨depth, rfl, rfl⟩
        · exact absurd rfl inCode
        · exact ⟨depth, rfl, rfl⟩
      · exact carries_unchanged (after_plain isTick isDollar isLeft isRight)
  | _ =>
      cases counted
      exact carries_unchanged fun _ => rfl

/-- One piece, on top of an interpolation. -/
theorem firstPiece_carries {c : Char} {rest : List Char}
    (counted : (firstPiece layers c rest).1.shape.braces? (depth + layers.weight) = some last) :
    Carries layers depth outer (firstPiece layers c rest).1.shape last := by
  rcases layers with _ | ⟨_ | opened, behind⟩
  · exact carries_code not_inTemplate_nil counted
  · change (templatePiece c rest).1.shape.braces? _ = _ at counted
    change Carries _ _ _ (templatePiece c rest).1.shape _
    unfold templatePiece at counted ⊢
    split at counted <;> cases counted
    · exact ⟨depth, rfl, rfl⟩
    · exact ⟨depth, rfl, by simp only [Nesting.after, Nesting.weight]; omega⟩
    · exact ⟨depth, rfl, rfl⟩
    · exact ⟨depth, rfl, rfl⟩
  · exact carries_code (not_inTemplate_interpolation opened behind) counted

theorem firstPiece_within (layers : Nesting) (depth : Nat) (outer : Nesting) (c : Char)
    (rest : List Char) :
    firstPiece (layers ++ .interpolation depth :: outer) c rest = firstPiece layers c rest := by
  rcases layers with _ | ⟨_ | opened, behind⟩ <;> rfl

/-- **Code is cut in an interpolation as it is alone**, up to the end of its line, if it is
complete and its braces close only what they open. -/
theorem cut_within (more : List Char) (outer layers : Nesting) (source : List Char)
    (complete : Complete layers source) {depth last : Nat}
    (counted : bracesCut (cut layers source).pieces (depth + layers.weight) = some last) :
    cut (layers ++ .interpolation depth :: outer) (source ++ '\n' :: more) =
      ⟨(cut layers source).pieces ++
          newlinePiece :: (cut (.interpolation last :: outer) more).pieces,
        (cut (.interpolation last :: outer) more).nesting⟩ := by
  induction layers, source using cut_induction generalizing depth with
  | nil layers =>
      obtain rfl : layers = [] := complete.level
      cases counted
      exact cut_cons (.interpolation depth :: outer) '\n' more
  | cons layers c rest inductionHypothesis =>
      obtain ⟨closed, later⟩ := complete_cons_iff.mp complete
      have same := firstPiece_append c rest more layers (fun isOpen => closed isOpen.1) (by
        rintro rfl
        have nothing : (firstPiece layers c []).2 = [] :=
          List.eq_nil_of_length_eq_zero (Nat.le_zero.mp (firstPiece_rest_length_le layers c []))
        have level := later.level
        rwa [nothing, cut_nil] at level)
      rw [cut_cons] at counted
      obtain ⟨between, first, others⟩ := Option.bind_eq_some_iff.mp counted
      obtain ⟨inner, carried, total⟩ := firstPiece_carries first
      rw [total] at others
      rw [List.cons_append, cut_cons, firstPiece_within, same, cut_cons layers c rest]
      simp only [extended]
      rw [carried, inductionHypothesis later others]
      rfl

end Within

/-! ## Between backticks -/

/-- A character of a template's text as it is written: with a backslash, if it would end
the text otherwise, or escape what follows. -/
def escaped (c : Char) : List Char :=
  if c = '\x60' ∨ c = '\\' ∨ c = '$' then ['\\', c] else [c]

def textPiece (c : Char) : Piece :=
  ⟨.templateText c, escaped c⟩

/-- The beginning and the end of an interpolation, as pieces. -/
def dollarPiece : Piece := ⟨.mark .dollarBrace, ['$', '\x7b']⟩

def bracePiece : Piece := ⟨.mark .rightBrace, ['\x7d']⟩

section Between

variable (outer : Nesting) (more : List Char)

theorem cut_escaped_char (c : Char) :
    cut (.template :: outer) (escaped c ++ more) =
      ⟨textPiece c :: (cut (.template :: outer) more).pieces,
        (cut (.template :: outer) more).nesting⟩ := by
  unfold textPiece escaped
  split
  next special => exact cut_cons (.template :: outer) '\\' (c :: more)
  next plain =>
    obtain ⟨noTick, noBackslash, noDollar⟩ : c ≠ '\x60' ∧ c ≠ '\\' ∧ c ≠ '$' := by
      simpa using plain
    have first : firstPiece (.template :: outer) c more = (⟨.templateText c, [c]⟩, more) := by
      show templatePiece c more = _
      unfold templatePiece
      split <;> simp_all
    rw [List.singleton_append, cut_cons, first]
    rfl

/-- Text is read back character by character. -/
theorem cut_escaped (text : List Char) :
    cut (.template :: outer) (text.flatMap escaped ++ more) =
      ⟨text.map textPiece ++ (cut (.template :: outer) more).pieces,
        (cut (.template :: outer) more).nesting⟩ := by
  induction text with
  | nil => rfl
  | cons c text inductionHypothesis =>
      rw [List.flatMap_cons, List.append_assoc, cut_escaped_char, inductionHypothesis]
      rfl

/-- Code is cut as it is alone, and the brace on the line behind it ends the
interpolation. -/
theorem cut_interpolation {source : List Char} (complete : Complete [] source)
    (balanced : bracesCut (cut [] source).pieces 0 = some 0) :
    cut (.template :: outer) ('$' :: '\x7b' :: (source ++ '\n' :: '\x7d' :: more)) =
      ⟨dollarPiece :: ((cut [] source).pieces ++
          newlinePiece :: bracePiece :: (cut (.template :: outer) more).pieces),
        (cut (.template :: outer) more).nesting⟩ := by
  have opening : cut (.template :: outer) ('$' :: '\x7b' :: (source ++ '\n' :: '\x7d' :: more)) =
      ⟨dollarPiece :: (cut (.interpolation 0 :: .template :: outer)
          (source ++ '\n' :: '\x7d' :: more)).pieces,
        (cut (.interpolation 0 :: .template :: outer)
          (source ++ '\n' :: '\x7d' :: more)).nesting⟩ :=
    cut_cons (.template :: outer) '$' _
  have closing : cut (.interpolation 0 :: .template :: outer) ('\x7d' :: more) =
      ⟨bracePiece :: (cut (.template :: outer) more).pieces,
        (cut (.template :: outer) more).nesting⟩ :=
    cut_cons (.interpolation 0 :: .template :: outer) '\x7d' more
  have inside := cut_within ('\x7d' :: more) (.template :: outer) [] source complete balanced
  rw [List.nil_append, closing] at inside
  rw [opening, inside]

end Between

end Scriptlet
