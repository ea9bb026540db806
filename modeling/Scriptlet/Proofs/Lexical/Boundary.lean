import Scriptlet.Lexical.Split

/-!
Contract: a source text cut at the end of a line.

Owns: `cut`, which cuts a text into its pieces inside given layers; its equation
(`cut_cons`), which takes off the first piece; and the law of boundaries
(`cut_append_newline`): a text that leaves nothing open is cut as if it stood
alone, and so is what follows on the next line.

Does not own: lines, symbols and tokens (`Scriptlet.Proofs.Lexical.Lines`).

## What a newline stops

Every piece ends where it ended before, since no word, number, operator or
comment goes on over a newline, and a string in double quotes ends with its line
even if nothing closes it. Two pieces could go on: a string in single quotes that
is not closed (`Piece.Unclosed`), which is excluded by its error, and a backslash
at the end of a template, which is excluded by the layer that it leaves open.
-/

set_option autoImplicit false

namespace Scriptlet

/-! ## Longest runs of characters -/

section Runs

variable {inside : Char → Bool} (more : List Char)

theorem takeWhile_append_stop (rest : List Char) (outside : inside '\n' = false) :
    (rest ++ '\n' :: more).takeWhile inside = rest.takeWhile inside := by
  induction rest with
  | nil => simp [outside]
  | cons d rest inductionHypothesis => simp [List.takeWhile_cons, inductionHypothesis]

theorem dropWhile_append_stop (rest : List Char) (outside : inside '\n' = false) :
    (rest ++ '\n' :: more).dropWhile inside = rest.dropWhile inside ++ '\n' :: more := by
  rw [List.dropWhile_append]
  split <;> simp_all

theorem takeWhile_append_closed {rest after : List Char} {c : Char}
    (closed : rest.dropWhile inside = c :: after) (tail : List Char) :
    (rest ++ tail).takeWhile inside = rest.takeWhile inside := by
  induction rest with
  | nil => cases closed
  | cons d rest inductionHypothesis =>
      rw [List.dropWhile_cons] at closed
      by_cases within : inside d
      · rw [if_pos within] at closed
        simp [within, inductionHypothesis closed]
      · simp [within]

theorem dropWhile_append_closed {rest after : List Char} {c : Char}
    (closed : rest.dropWhile inside = c :: after) (tail : List Char) :
    (rest ++ tail).dropWhile inside = c :: after ++ tail := by
  simp [List.dropWhile_append, closed]

end Runs

/-! ## One piece before a newline -/

/-- A piece and what follows it, when more follows. -/
def extended (cut : Piece × List Char) (tail : List Char) : Piece × List Char :=
  (cut.1, cut.2 ++ tail)

section Pieces

variable (c : Char) (rest more : List Char)

theorem operatorPiece_append (joined alone : Kind) :
    operatorPiece joined alone c (rest ++ '\n' :: more) =
      extended (operatorPiece joined alone c rest) ('\n' :: more) := by
  cases rest with
  | nil => rfl
  | cons d rest =>
      by_cases equals : d = '='
      · subst equals
        rfl
      · simp [operatorPiece, extended, equals]

theorem slashPiece_append :
    slashPiece (rest ++ '\n' :: more) = extended (slashPiece rest) ('\n' :: more) := by
  cases rest with
  | nil => rfl
  | cons d rest =>
      by_cases slash : d = '/'
      · subst slash
        simp [slashPiece, extended, takeWhile_append_stop, dropWhile_append_stop]
      · simpa [slashPiece, slash] using operatorPiece_append '/' (d :: rest) more _ _

theorem wordPiece_append :
    wordPiece c (rest ++ '\n' :: more) = extended (wordPiece c rest) ('\n' :: more) := by
  have outside : continuesWord '\n' = false := by decide
  simp [wordPiece, extended, takeWhile_append_stop more rest outside,
    dropWhile_append_stop more rest outside]

theorem numberPiece_append :
    numberPiece c (rest ++ '\n' :: more) = extended (numberPiece c rest) ('\n' :: more) := by
  have outside : Char.isDigit '\n' = false := by decide
  simp only [numberPiece, takeWhile_append_stop more rest outside,
    dropWhile_append_stop more rest outside]
  -- What follows the digits: nothing, a point at the end, a point and a character, or other text.
  rcases rest.dropWhile Char.isDigit with _ | ⟨d, _ | ⟨e, after⟩⟩
  · rfl
  · by_cases point : d = '.'
    · subst point
      simp [outside, extended]
    · simp [point, extended]
  · by_cases point : d = '.'
    · subst point
      by_cases digit : e.isDigit
      · simp [digit, extended, takeWhile_append_stop more after outside,
          dropWhile_append_stop more after outside]
      · simp [digit, extended]
    · simp [point, extended]

/-- A string that is closed. -/
theorem stringPiece_append (quote : Char) (inside : Char → Bool) (tail : List Char)
    (closed : (stringPiece quote inside rest).1.shape ≠ .wrong .unterminatedString) :
    stringPiece quote inside (rest ++ tail) = extended (stringPiece quote inside rest) tail := by
  cases left : rest.dropWhile inside with
  | nil => simp [stringPiece, left] at closed
  | cons d after =>
      simp only [stringPiece, left, takeWhile_append_closed left, dropWhile_append_closed left,
        List.cons_append] at closed ⊢
      by_cases isQuote : d = quote
      · simp [isQuote, extended]
      · simp [isQuote] at closed

/-- A string that ends with its line, closed or not. -/
theorem stringPiece_append_stop {quote : Char} {inside : Char → Bool}
    (outside : inside '\n' = false) (noNewline : quote ≠ '\n') :
    stringPiece quote inside (rest ++ '\n' :: more) =
      extended (stringPiece quote inside rest) ('\n' :: more) := by
  simp only [stringPiece, takeWhile_append_stop more rest outside,
    dropWhile_append_stop more rest outside]
  cases rest.dropWhile inside with
  | nil => simp [extended, noNewline.symm]
  | cons d after =>
      by_cases isQuote : d = quote
      · simp [extended, isQuote]
      · simp [extended, isQuote]

/-- A string in single quotes that nothing closes. It takes all text there is. -/
def Piece.Unclosed (piece : Piece) : Prop :=
  piece.shape = .wrong .unterminatedString ∧ piece.text.head? = some '\x27'

instance (piece : Piece) : Decidable piece.Unclosed :=
  inferInstanceAs (Decidable (_ ∧ _))

theorem stringPiece_head (quote : Char) (inside : Char → Bool) :
    (stringPiece quote inside rest).1.text.head? = some quote := by
  unfold stringPiece
  split
  · rfl
  · split <;> rfl

theorem codePiece_append (closed : ¬ (codePiece c rest).1.Unclosed) :
    codePiece c (rest ++ '\n' :: more) = extended (codePiece c rest) ('\n' :: more) := by
  unfold codePiece at closed ⊢
  split
  case h_13 | h_14 | h_15 | h_16 | h_17 | h_18 | h_19 => exact operatorPiece_append ..
  case h_20 => exact slashPiece_append ..
  case h_25 => exact stringPiece_append_stop rest more (by decide) (by decide)
  case h_26 =>
    refine stringPiece_append rest _ _ _ fun isOpen => closed ⟨isOpen, ?_⟩
    exact stringPiece_head rest _ _
  case h_27 =>
    split
    · exact numberPiece_append ..
    · split
      · exact wordPiece_append ..
      · rfl
  all_goals rfl

theorem templatePiece_append (goesOn : c = '\\' → rest ≠ []) :
    templatePiece c (rest ++ '\n' :: more) = extended (templatePiece c rest) ('\n' :: more) := by
  cases rest with
  | nil =>
      have noBackslash : c ≠ '\\' := fun isBackslash => goesOn isBackslash rfl
      by_cases tick : c = '\x60' <;> simp [templatePiece, extended, tick, noBackslash]
  | cons d rest =>
      unfold templatePiece
      split <;> simp_all [extended]

/-- A piece that is closed and leaves no template open at the end of the text is the
same before a newline. -/
theorem firstPiece_append (nesting : Nesting)
    (closed : ¬ (firstPiece nesting c rest).1.Unclosed)
    (goesOn : rest = [] → nesting.after (firstPiece nesting c rest).1.shape = []) :
    firstPiece nesting c (rest ++ '\n' :: more) =
      extended (firstPiece nesting c rest) ('\n' :: more) := by
  rcases nesting with _ | ⟨_ | depth, outer⟩
  case cons.template =>
    refine templatePiece_append c rest more ?_
    rintro rfl rfl
    cases goesOn rfl
  all_goals exact codePiece_append c rest more closed

end Pieces

/-! ## All pieces -/

/-- The pieces of a text inside the given layers. -/
def cut (nesting : Nesting) (source : List Char) : Split :=
  splitLoop source.length nesting source []

theorem split_eq_cut (source : List Char) : split source = cut [] source := rfl

theorem cut_nil (nesting : Nesting) : cut nesting [] = ⟨[], nesting⟩ := rfl

theorem splitLoop_succ (fuel : Nat) (nesting : Nesting) (c : Char) (rest : List Char)
    (done : List Piece) :
    splitLoop (fuel + 1) nesting (c :: rest) done =
      splitLoop fuel (nesting.after (firstPiece nesting c rest).1.shape)
        (firstPiece nesting c rest).2 ((firstPiece nesting c rest).1 :: done) := rfl

/-- Pieces cut before come first, and fuel does not matter once it is enough. -/
theorem splitLoop_eq (size : Nat) :
    ∀ {fuel : Nat} (nesting : Nesting) (source : List Char) (done : List Piece),
      source.length ≤ size → source.length ≤ fuel →
        splitLoop fuel nesting source done =
          ⟨done.reverse ++ (cut nesting source).pieces, (cut nesting source).nesting⟩ := by
  induction size with
  | zero =>
      intro fuel nesting source done short enough
      rw [List.eq_nil_of_length_eq_zero (Nat.le_zero.mp short)]
      simp [cut, splitLoop]
  | succ size inductionHypothesis =>
      intro fuel nesting source done short enough
      cases source with
      | nil => simp [cut, splitLoop]
      | cons c rest =>
          have shorter := firstPiece_rest_length_le nesting c rest
          simp only [List.length_cons] at short enough
          obtain ⟨fuel, rfl⟩ : ∃ less, fuel = less + 1 := ⟨fuel - 1, by omega⟩
          rw [cut, List.length_cons, splitLoop_succ, splitLoop_succ,
            inductionHypothesis _ _ _ (by omega) (by omega),
            inductionHypothesis _ _ _ (by omega) shorter]
          simp

/-- The pieces of a text are its first piece and the pieces of what is left. -/
theorem cut_cons (nesting : Nesting) (c : Char) (rest : List Char) :
    cut nesting (c :: rest) =
      ⟨(firstPiece nesting c rest).1 ::
          (cut (nesting.after (firstPiece nesting c rest).1.shape)
            (firstPiece nesting c rest).2).pieces,
        (cut (nesting.after (firstPiece nesting c rest).1.shape)
          (firstPiece nesting c rest).2).nesting⟩ := by
  rw [cut, List.length_cons, splitLoop_succ,
    splitLoop_eq _ _ _ _ (Nat.le_refl _) (firstPiece_rest_length_le nesting c rest)]
  rfl

/-- Induction along the pieces of a text. -/
theorem cut_induction {motive : Nesting → List Char → Prop}
    (nil : ∀ nesting, motive nesting [])
    (cons : ∀ nesting c rest,
      motive (nesting.after (firstPiece nesting c rest).1.shape) (firstPiece nesting c rest).2 →
        motive nesting (c :: rest))
    (nesting : Nesting) (source : List Char) : motive nesting source := by
  suffices bounded : ∀ size nesting (source : List Char), source.length ≤ size →
      motive nesting source from bounded source.length nesting source (Nat.le_refl _)
  intro size
  induction size with
  | zero =>
      intro nesting source short
      rw [List.eq_nil_of_length_eq_zero (Nat.le_zero.mp short)]
      exact nil nesting
  | succ size inductionHypothesis =>
      intro nesting source short
      cases source with
      | nil => exact nil nesting
      | cons c rest =>
          have shorter := firstPiece_rest_length_le nesting c rest
          simp only [List.length_cons] at short
          exact cons nesting c rest (inductionHypothesis _ _ (by omega))

/-- The end of a line, as a piece. -/
def newlinePiece : Piece := ⟨.blank, ['\n']⟩

/-- A newline after text that leaves nothing open. -/
theorem cut_newline (more : List Char) :
    cut [] ('\n' :: more) = ⟨newlinePiece :: (cut [] more).pieces, (cut [] more).nesting⟩ :=
  cut_cons [] '\n' more

/-- **The pieces on both sides of a newline.** A text that closes its templates and its
strings in single quotes is cut as if it stood alone, and so is what follows. -/
theorem cut_append_newline (more : List Char) (nesting : Nesting) (source : List Char)
    (closed : ∀ piece ∈ (cut nesting source).pieces, ¬ piece.Unclosed)
    (level : (cut nesting source).nesting = []) :
    cut nesting (source ++ '\n' :: more) =
      ⟨(cut nesting source).pieces ++ newlinePiece :: (cut [] more).pieces,
        (cut [] more).nesting⟩ := by
  induction nesting, source using cut_induction with
  | nil nesting =>
      cases level
      exact cut_newline more
  | cons nesting c rest inductionHypothesis =>
      rw [cut_cons] at closed level
      have same := firstPiece_append c rest more nesting (closed _ (by simp)) (by
        rintro rfl
        have nothing : (firstPiece nesting c []).2 = [] :=
          List.eq_nil_of_length_eq_zero (Nat.le_zero.mp (firstPiece_rest_length_le nesting c []))
        rw [nothing] at level
        exact level)
      rw [List.cons_append, cut_cons, cut_cons nesting c rest, same]
      simp only [extended]
      rw [inductionHypothesis (fun piece inside => closed piece (by simp [inside])) level]
      rfl

end Scriptlet
