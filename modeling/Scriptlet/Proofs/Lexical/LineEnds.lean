import Mathlib.Algebra.GroupWithZero.Nat
import Scriptlet.Lexical.Scan
import Scriptlet.Proofs.Lexical.Boundary

/-!
Contract: where line ends are counted.

Line ends are counted where they are met: between tokens, inside single quotes, and
among the characters of a template. Owns: that these are all the line ends of a piece
(`firstPiece_lineEnds`), and in sum all those of a text (`cut_lineEnds`).

Does not own: the line of a token (`Scriptlet.Proofs.Lexical.Lines`).
-/

set_option autoImplicit false

namespace Scriptlet

/-! ## Texts without a line end -/

theorem newlines_append (first second : List Char) :
    newlines (first ++ second) = newlines first + newlines second :=
  List.count_append

theorem newlines_cons_of_ne {c : Char} (differs : c ≠ '\n') (rest : List Char) :
    newlines (c :: rest) = newlines rest :=
  List.count_cons_of_ne differs

theorem newlines_takeWhile {inside : Char → Bool} (outside : inside '\n' = false)
    (text : List Char) : newlines (text.takeWhile inside) = 0 := by
  refine List.count_eq_zero.mpr fun member => ?_
  have isInside : inside '\n' = true := List.all_eq_true.mp List.all_takeWhile '\n' member
  rw [outside] at isInside
  cases isInside

/-! ## One piece -/

section Pieces

variable {c : Char} (rest : List Char)

theorem operatorPiece_lineEnds (noNewline : c ≠ '\n') (joined alone : Kind) :
    (operatorPiece joined alone c rest).1.lineEnds =
      newlines (operatorPiece joined alone c rest).1.text := by
  have none : newlines [c, '='] = 0 ∧ newlines [c] = 0 := by simp [newlines, noNewline]
  unfold operatorPiece
  split
  · exact none.1.symm
  · exact none.2.symm

/-- A comment ends before its line does. -/
theorem slashPiece_lineEnds :
    (slashPiece rest).1.lineEnds = newlines (slashPiece rest).1.text := by
  unfold slashPiece
  split
  · rw [newlines_cons_of_ne (by decide), newlines_cons_of_ne (by decide),
      newlines_takeWhile (by decide)]
    rfl
  · exact operatorPiece_lineEnds _ (by decide) _ _

theorem numberPiece_lineEnds (noNewline : c ≠ '\n') :
    (numberPiece c rest).1.lineEnds = newlines (numberPiece c rest).1.text := by
  have outside : Char.isDigit '\n' = false := by decide
  have whole : newlines (c :: rest.takeWhile Char.isDigit) = 0 := by
    rw [newlines_cons_of_ne noNewline, newlines_takeWhile outside]
  unfold numberPiece
  split
  next d after tail =>
    split
    next digit =>
      have noNewlineAfter : d ≠ '\n' := by
        rintro rfl
        cases outside.symm.trans digit
      rw [newlines_append, whole, newlines_cons_of_ne (by decide),
        newlines_cons_of_ne noNewlineAfter, newlines_takeWhile outside]
      rfl
    next => exact whole.symm
  next => exact whole.symm

theorem wordPiece_lineEnds (noNewline : c ≠ '\n') :
    (wordPiece c rest).1.lineEnds = newlines (wordPiece c rest).1.text := by
  unfold wordPiece
  rw [newlines_cons_of_ne noNewline, newlines_takeWhile (by decide)]
  rfl

/-- A string in double quotes has no line end inside, so that none is counted. -/
theorem stringPiece_lineEnds_double :
    (stringPiece '\x22' (fun x => x != '\x22' && x != '\n') rest).1.lineEnds =
      newlines (stringPiece '\x22' (fun x => x != '\x22' && x != '\n') rest).1.text := by
  have content : newlines (rest.takeWhile fun x => x != '\x22' && x != '\n') = 0 :=
    newlines_takeWhile (by decide) rest
  have opened : newlines ('\x22' :: rest.takeWhile fun x => x != '\x22' && x != '\n') = 0 := by
    rw [newlines_cons_of_ne (by decide), content]
  unfold stringPiece
  split
  · exact opened.symm
  · split
    · rw [newlines_append, opened]
      rfl
    · exact opened.symm

/-- Inside single quotes they are counted, whether or not the string is closed. -/
theorem stringPiece_lineEnds_single :
    (stringPiece '\x27' (· != '\x27') rest).1.lineEnds =
      newlines (stringPiece '\x27' (· != '\x27') rest).1.text := by
  have opened : newlines ('\x27' :: rest.takeWhile (· != '\x27')) =
      newlines (rest.takeWhile (· != '\x27')) :=
    newlines_cons_of_ne (by decide) _
  unfold stringPiece
  split
  · exact opened.symm
  · split
    · rw [newlines_append, opened]
      rfl
    · exact opened.symm

theorem codePiece_lineEnds (c : Char) :
    (codePiece c rest).1.lineEnds = newlines (codePiece c rest).1.text := by
  unfold codePiece
  split
  case h_13 | h_14 | h_15 | h_16 | h_17 | h_18 | h_19 =>
    exact operatorPiece_lineEnds _ (by decide) _ _
  case h_20 => exact slashPiece_lineEnds _
  case h_25 => exact stringPiece_lineEnds_double _
  case h_26 => exact stringPiece_lineEnds_single _
  case h_27 noNewline _ _ =>
    split
    · exact numberPiece_lineEnds _ noNewline
    · split
      · exact wordPiece_lineEnds _ noNewline
      · exact (newlines_cons_of_ne noNewline []).symm
  all_goals rfl

/-- A character of a template is counted where it is a line end, escaped or not. -/
theorem templateText_lineEnds (c : Char) (text : List Char) :
    (⟨.templateText c, text⟩ : Piece).lineEnds = newlines [c] := by
  by_cases isNewline : c = '\n'
  · subst isNewline
    rfl
  · rw [newlines_cons_of_ne isNewline]
    unfold Piece.lineEnds
    split <;> first | rfl | simp_all

theorem templatePiece_lineEnds (c : Char) :
    (templatePiece c rest).1.lineEnds = newlines (templatePiece c rest).1.text := by
  unfold templatePiece
  split
  · rfl
  · rfl
  · rw [templateText_lineEnds]
    exact (newlines_cons_of_ne (by decide) _).symm
  · exact templateText_lineEnds _ _

theorem firstPiece_lineEnds (nesting : Nesting) (c : Char) :
    (firstPiece nesting c rest).1.lineEnds = newlines (firstPiece nesting c rest).1.text := by
  unfold firstPiece
  split
  · exact templatePiece_lineEnds rest c
  · exact codePiece_lineEnds rest c

end Pieces

/-! ## All pieces -/

/-- The line ends counted in the pieces of a text are those of the text. -/
theorem cut_lineEnds (nesting : Nesting) (source : List Char) :
    ((cut nesting source).pieces.map Piece.lineEnds).sum = newlines source := by
  induction nesting, source using cut_induction with
  | nil nesting => rw [cut_nil]; rfl
  | cons nesting c rest inductionHypothesis =>
      rw [cut_cons, List.map_cons, List.sum_cons, inductionHypothesis, firstPiece_lineEnds,
        ← newlines_append, firstPiece_text]

end Scriptlet
