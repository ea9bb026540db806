import Scriptlet.Lexical.Piece

/-!
Contract: a source text cut into all its pieces.

Owns: `Split` and `split`. Every piece has at least one character, so that the
length of the text bounds the number of cuts. Main statement: `split_text`, by
which the pieces in order are the text.
-/

set_option autoImplicit false

namespace Scriptlet

/-- The pieces of a text, and the layers open at its end. -/
structure Split where
  pieces : List Piece
  nesting : Nesting
deriving DecidableEq, Repr

/-- Cuts at most `fuel` pieces, after those in `done`, the last of which comes
first. -/
def splitLoop : Nat → Nesting → List Char → List Piece → Split
  | _, nesting, [], done => ⟨done.reverse, nesting⟩
  | 0, nesting, _ :: _, done => ⟨done.reverse, nesting⟩
  | fuel + 1, nesting, c :: rest, done =>
      let (piece, after) := firstPiece nesting c rest
      splitLoop fuel (nesting.after piece.shape) after (piece :: done)

def split (source : List Char) : Split :=
  splitLoop source.length [] source []

theorem splitLoop_text (fuel : Nat) :
    ∀ (nesting : Nesting) (source : List Char) (done : List Piece),
      source.length ≤ fuel →
        (splitLoop fuel nesting source done).pieces.flatMap Piece.text =
          done.reverse.flatMap Piece.text ++ source := by
  induction fuel with
  | zero =>
      intro nesting source done enough
      cases source with
      | nil => simp [splitLoop]
      | cons c rest => simp at enough
  | succ fuel inductionHypothesis =>
      intro nesting source done enough
      cases source with
      | nil => simp [splitLoop]
      | cons c rest =>
          have shorter := firstPiece_rest_length_le nesting c rest
          simp only [List.length_cons] at enough
          rw [splitLoop, inductionHypothesis _ _ _ (by omega)]
          simp [firstPiece_text]

/-- The pieces of a text, one after the other, are the text. -/
theorem split_text (source : List Char) :
    (split source).pieces.flatMap Piece.text = source := by
  simp [split, splitLoop_text]

end Scriptlet
