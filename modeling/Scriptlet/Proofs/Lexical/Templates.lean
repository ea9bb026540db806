import Scriptlet.Proofs.Lexical.Spans

/-!
Contract: templates, and code inside them, are properly nested.

A grammar of kinds says what nested templates are: `Code` is tokens with templates
between them, and `Inside` is what stands between two backticks. The scanner does
not use it; it keeps layers. `Unfinished layers kinds` says that the kinds read so
far are such code, cut off inside the given layers.

Owns: the grammar, `Scanned`, the states that a scan goes through, and the main
statement `templates_nest`: at each of these states the kinds read are unfinished in
just the layers that are open, and an open template is reported exactly where the
kinds of all tokens are no code.

Does not own: the texts of tokens and what stands between them
(`Scriptlet.Proofs.Lexical.Spans`).
-/

set_option autoImplicit false

namespace Scriptlet

/-! ## The grammar -/

/-- Kinds that stand in code by themselves: all but those of templates and the end
of input. -/
def Kind.isCode : Kind → Bool
  | .backtick | .templateText | .dollarBrace | .endOfInput => false
  | _ => true

/-- No brace closes one that was not opened before. -/
def Closable (direct : List Kind) : Prop :=
  ∀ front, front <+: direct → front.count .rightBrace ≤ front.count .leftBrace

/-- Every brace is closed, and none but those. -/
structure Balanced (direct : List Kind) : Prop where
  closable : Closable direct
  closed : direct.count .rightBrace = direct.count .leftBrace

mutual

/-- Code with the tokens `direct` in it, and templates between them. -/
inductive Code : List Kind → List Kind → Prop where
  | nil : Code [] []
  | token {direct word : List Kind} {kind : Kind} (before : Code direct word)
      (plain : kind.isCode = true) : Code (direct ++ [kind]) (word ++ [kind])
  | template {direct word inside : List Kind} (before : Code direct word)
      (text : Inside inside) :
      Code direct (word ++ .backtick :: (inside ++ [.backtick]))

/-- What stands between the backticks of a template: its own text, and code whose
braces are balanced. -/
inductive Inside : List Kind → Prop where
  | nil : Inside []
  | text {inside : List Kind} (before : Inside inside) : Inside (inside ++ [.templateText])
  | interpolation {inside direct word : List Kind} (before : Inside inside)
      (code : Code direct word) (balanced : Balanced direct) :
      Inside (inside ++ .dollarBrace :: (word ++ [.rightBrace]))

end

/-- Words of the grammar. -/
def IsCode (word : List Kind) : Prop :=
  ∃ direct, Code direct word

/-! ## Layers -/

/-- Templates are opened in code, and code in templates. In plain code there is no
layer. -/
def Nesting.Alternates : Nesting → Prop
  | [] => True
  | .template :: outer => ¬ Nesting.InTemplate outer ∧ Nesting.Alternates outer
  | .interpolation _ :: outer => Nesting.InTemplate outer ∧ Nesting.Alternates outer

/-- The kinds are code that is cut off inside the given layers. The depth of an
interpolation is the number of braces that are open directly in it. -/
inductive Unfinished : Nesting → List Kind → Prop where
  | code {direct word : List Kind} (all : Code direct word) : Unfinished [] word
  | template {outer : Nesting} {before inside : List Kind} (inCode : ¬ outer.InTemplate)
      (around : Unfinished outer before) (text : Inside inside) :
      Unfinished (.template :: outer) (before ++ .backtick :: inside)
  | interpolation {outer : Nesting} {before direct word : List Kind} {depth : Nat}
      (inTemplate : outer.InTemplate) (around : Unfinished outer before)
      (code : Code direct word) (closable : Closable direct)
      (opened : direct.count .leftBrace = direct.count .rightBrace + depth) :
      Unfinished (.interpolation depth :: outer) (before ++ .dollarBrace :: word)

section Layers

variable {layers outer : Nesting} {kinds before : List Kind}

theorem inTemplate_cons (outer : Nesting) : Nesting.InTemplate (.template :: outer) := rfl

theorem not_inTemplate_nil : ¬ Nesting.InTemplate [] := by
  intro inTemplate
  cases inTemplate

theorem not_inTemplate_interpolation (depth : Nat) (outer : Nesting) :
    ¬ Nesting.InTemplate (.interpolation depth :: outer) := by
  intro inTemplate
  cases inTemplate

theorem Unfinished.alternates (unfinished : Unfinished layers kinds) : layers.Alternates := by
  induction unfinished with
  | code all => trivial
  | template inCode around text inductionHypothesis => exact ⟨inCode, inductionHypothesis⟩
  | interpolation inTemplate around code closable opened inductionHypothesis =>
      exact ⟨inTemplate, inductionHypothesis⟩

theorem Code.count_le (kind : Kind) :
    ∀ {direct word : List Kind}, Code direct word → direct.count kind ≤ word.count kind
  | _, _, .nil => Nat.le_refl _
  | _, _, .token before _ => by
      rw [List.count_append, List.count_append]
      exact Nat.add_le_add_right (before.count_le kind) _
  | _, _, .template before _ => by
      rw [List.count_append]
      exact Nat.le_add_right_of_le (before.count_le kind)

/-- There are no deeper interpolations than braces. -/
theorem Unfinished.depth_le (unfinished : Unfinished layers kinds) {depth : Nat}
    (inside : .interpolation depth ∈ layers) : depth ≤ kinds.count .leftBrace := by
  induction unfinished with
  | code all => cases inside
  | template inCode around text inductionHypothesis =>
      have earlier := inductionHypothesis (by simpa using inside)
      rw [List.count_append]
      exact Nat.le_add_right_of_le earlier
  | interpolation inTemplate around code closable opened inductionHypothesis =>
      rw [List.count_append, List.count_cons]
      rcases List.mem_cons.mp inside with here | further
      · cases here
        have direct := Code.count_le .leftBrace code
        omega
      · have earlier := inductionHypothesis further
        omega

/-! ## One more token -/

/-- A whole template in code. -/
theorem Unfinished.addTemplate (unfinished : Unfinished layers before)
    (inCode : ¬ layers.InTemplate) {inside : List Kind} (text : Inside inside) :
    Unfinished layers (before ++ .backtick :: (inside ++ [.backtick])) := by
  cases unfinished with
  | code all => exact .code (.template all text)
  | template outerCode around earlier => exact absurd (inTemplate_cons _) inCode
  | interpolation inTemplate around code closable opened =>
      have whole := Unfinished.interpolation inTemplate around (.template code text) closable opened
      simpa using whole

theorem closable_concat {direct : List Kind} {kind : Kind} (closable : Closable direct)
    (more : (direct ++ [kind]).count .rightBrace ≤ (direct ++ [kind]).count .leftBrace) :
    Closable (direct ++ [kind]) := by
  intro front begins
  rcases List.prefix_concat_iff.mp begins with rfl | earlier
  · exact more
  · exact closable front earlier

/-- A token directly in an interpolation, which stays open at the given depth. -/
theorem Unfinished.addDirect {inner : List Kind} {direct : List Kind} {kind : Kind} {depth : Nat}
    (inTemplate : outer.InTemplate) (around : Unfinished outer before) (code : Code direct inner)
    (closable : Closable direct) (plain : kind.isCode = true)
    (opened : (direct ++ [kind]).count .leftBrace =
      (direct ++ [kind]).count .rightBrace + depth) :
    Unfinished (.interpolation depth :: outer) (before ++ .dollarBrace :: inner ++ [kind]) := by
  have further : Closable (direct ++ [kind]) := closable_concat closable (by omega)
  have whole := Unfinished.interpolation inTemplate around (.token code plain) further opened
  simpa using whole

/-- The brace that closes an interpolation. -/
theorem Unfinished.closeInterpolation {inner direct : List Kind} (inTemplate : outer.InTemplate)
    (around : Unfinished outer before) (code : Code direct inner) (balanced : Balanced direct) :
    Unfinished outer (before ++ .dollarBrace :: inner ++ [.rightBrace]) := by
  cases around with
  | code all => exact absurd inTemplate not_inTemplate_nil
  | interpolation _ _ _ _ _ => exact absurd inTemplate (not_inTemplate_interpolation _ _)
  | template inCode around text =>
      have whole := Unfinished.template inCode around (.interpolation text code balanced)
      simpa using whole

/-- A token of plain code opens and closes no layer. -/
theorem after_nil {kind : Kind} (plain : kind.isCode = true) :
    Nesting.after [] (.mark kind) = [] := by
  unfold Nesting.after
  split <;> simp_all [Kind.isCode]

/-- Nor does one that is no brace, in an interpolation. -/
theorem after_interpolation {kind : Kind} (plain : kind.isCode = true)
    (noLeft : kind ≠ .leftBrace) (noRight : kind ≠ .rightBrace) (depth : Nat) (outer : Nesting) :
    Nesting.after (.interpolation depth :: outer) (.mark kind) = .interpolation depth :: outer := by
  unfold Nesting.after
  split <;> simp_all [Kind.isCode]

/-- A token in code. -/
theorem Unfinished.addCode {kind : Kind} (unfinished : Unfinished layers kinds)
    (inCode : ¬ layers.InTemplate) (plain : kind.isCode = true) :
    Unfinished (layers.after (.mark kind)) (kinds ++ [kind]) := by
  cases unfinished with
  | template outerCode around earlier => exact absurd (inTemplate_cons _) inCode
  | code all =>
      rw [after_nil plain]
      exact .code (.token all plain)
  | @interpolation outer before direct word depth inTemplate around code closable opened =>
      by_cases isLeft : kind = .leftBrace
      · subst isLeft
        exact .addDirect inTemplate around code closable plain (by simp [List.count_append]; omega)
      · by_cases isRight : kind = .rightBrace
        · subst isRight
          cases depth with
          | zero =>
              exact .closeInterpolation inTemplate around code ⟨closable, opened.symm⟩
          | succ depth =>
              exact .addDirect inTemplate around code closable plain
                (by simp [List.count_append]; omega)
        · rw [after_interpolation plain isLeft isRight]
          refine .addDirect inTemplate around code closable plain ?_
          rw [List.count_append, List.count_append, List.count_singleton, List.count_singleton]
          simpa [isLeft, isRight] using opened

end Layers

/-! ## One more piece -/

/-- Whether a piece of this shape is read as a token of the given kind. -/
def Shape.Emits : Shape → Kind → Prop
  | .mark read, kind => kind = read
  | .word, kind => kind = .identifier ∨ ∃ word, (word, kind) ∈ Kind.reservedWords
  | .number _ _, kind => kind = .number
  | .string _, kind => kind = .string
  | .templateText _, kind => kind = .templateText
  | .blank, _ | .comment, _ | .wrong _, _ => False

/-- A piece is read as no token, and then it opens and closes nothing; or as one of a
kind that opens and closes what the piece does. -/
theorem Reading.add_emits (reading : Reading) (piece : Piece) :
    ((reading.add piece).tokens = reading.tokens ∧ ∀ layers, Nesting.after layers piece.shape = layers) ∨
      ∃ token, (reading.add piece).tokens = token :: reading.tokens ∧
        piece.shape.Emits token.kind ∧
        ∀ layers, Nesting.after layers (.mark token.kind) = Nesting.after layers piece.shape := by
  unfold Reading.add
  cases shape : piece.shape with
  | blank | comment | wrong problem => exact Or.inl ⟨rfl, fun layers => rfl⟩
  | mark kind => exact Or.inr ⟨_, rfl, rfl, fun layers => rfl⟩
  | number whole fraction => exact Or.inr ⟨_, rfl, rfl, fun layers => rfl⟩
  | string content => exact Or.inr ⟨_, rfl, rfl, fun layers => rfl⟩
  | templateText content => exact Or.inr ⟨_, rfl, rfl, fun layers => rfl⟩
  | word =>
      unfold Reading.word
      dsimp only
      split
      next kind reserved =>
        have isWord : kind = .identifier ∨ ∃ word, (word, kind) ∈ Kind.reservedWords :=
          Or.inr (SymbolTable.reserved?_word reserved)
        exact Or.inr ⟨_, rfl, isWord, after_mark_of_word isWord⟩
      next =>
        exact Or.inr ⟨_, rfl, Or.inl rfl, after_mark_of_word (Or.inl rfl)⟩

theorem operatorPiece_emits {joined alone kind : Kind} {c : Char} {rest : List Char}
    (plain : joined.isCode = true ∧ alone.isCode = true)
    (emits : (operatorPiece joined alone c rest).1.shape.Emits kind) : kind.isCode = true := by
  unfold operatorPiece at emits
  split at emits
  · cases emits
    exact plain.1
  · cases emits
    exact plain.2

theorem stringPiece_emits {quote : Char} {inside : Char → Bool} {rest : List Char} {kind : Kind}
    (emits : (stringPiece quote inside rest).1.shape.Emits kind) : kind.isCode = true := by
  unfold stringPiece at emits
  dsimp only at emits
  split at emits
  · cases emits
  · split at emits
    · cases emits
      rfl
    · cases emits

/-- In code, a token is one of code, or it opens a template. -/
theorem codePiece_emits {c : Char} {rest : List Char} {kind : Kind}
    (emits : (codePiece c rest).1.shape.Emits kind) : kind.isCode = true ∨ kind = .backtick := by
  unfold codePiece at emits
  split at emits
  case h_12 =>
    cases emits
    exact Or.inr rfl
  case h_13 | h_14 | h_15 | h_16 | h_17 | h_18 | h_19 =>
    exact Or.inl (operatorPiece_emits ⟨rfl, rfl⟩ emits)
  case h_20 =>
    unfold slashPiece at emits
    split at emits
    · cases emits
    · exact Or.inl (operatorPiece_emits ⟨rfl, rfl⟩ emits)
  case h_21 | h_22 | h_23 | h_24 => cases emits
  case h_25 | h_26 => exact Or.inl (stringPiece_emits emits)
  case h_27 =>
    split at emits
    next =>
      obtain ⟨whole, fraction, shape⟩ := numberPiece_shape c rest
      rw [shape] at emits
      cases emits
      exact Or.inl rfl
    next =>
      split at emits
      next =>
        rcases emits with rfl | ⟨word, known⟩
        · exact Or.inl rfl
        · have reserved : ∀ pair ∈ Kind.reservedWords, pair.2.isCode = true := by decide
          exact Or.inl (reserved _ known)
      next => cases emits
  all_goals
    cases emits
    exact Or.inl rfl

/-- In a template, a token is a part of its text, or ends or interrupts it. -/
theorem templatePiece_emits {c : Char} {rest : List Char} {kind : Kind}
    (emits : (templatePiece c rest).1.shape.Emits kind) :
    kind = .backtick ∨ kind = .dollarBrace ∨ kind = .templateText := by
  unfold templatePiece at emits
  split at emits
  · exact Or.inl emits
  · exact Or.inr (Or.inl emits)
  · exact Or.inr (Or.inr emits)
  · exact Or.inr (Or.inr emits)

/-- The token of the next piece goes on with what is unfinished. -/
theorem Unfinished.addToken {layers : Nesting} {kinds : List Kind} {kind : Kind} {c : Char}
    {rest : List Char} (unfinished : Unfinished layers kinds)
    (emits : (firstPiece layers c rest).1.shape.Emits kind) :
    Unfinished (layers.after (.mark kind)) (kinds ++ [kind]) := by
  unfold firstPiece at emits
  split at emits
  next outer =>
    cases unfinished with
    | @template _ before inside inCode around text =>
        rcases templatePiece_emits emits with rfl | rfl | rfl
        · have closed := around.addTemplate inCode text
          simpa [Nesting.after] using closed
        · exact .interpolation (inTemplate_cons outer) (.template inCode around text) .nil
            (fun front begins => by rw [List.prefix_nil.mp begins]; exact Nat.le_refl _) rfl
        · have longer := Unfinished.template inCode around (.text text)
          simpa [Nesting.after] using longer
  next noTemplate =>
    have inCode : ¬ layers.InTemplate := by
      intro inTemplate
      obtain ⟨outer, rfl⟩ := List.head?_eq_some_iff.mp inTemplate
      exact noTemplate outer rfl
    rcases codePiece_emits emits with plain | rfl
    · exact unfinished.addCode inCode plain
    · have opens : layers.after (.mark .backtick) = .template :: layers := by
        unfold Nesting.after
        split <;> simp_all
      rw [opens]
      exact .template inCode unfinished .nil

/-! ## Runs of the scanner -/

/-- The states that a scan of the source goes through: the pieces read, the layers
open behind them, and the text that is left. -/
inductive Scanned (source : List Char) : List Piece → Nesting → List Char → Prop where
  | start : Scanned source [] [] source
  | step {pieces : List Piece} {layers : Nesting} {c : Char} {rest : List Char}
      (before : Scanned source pieces layers (c :: rest)) :
      Scanned source (pieces ++ [(firstPiece layers c rest).1])
        (layers.after (firstPiece layers c rest).1.shape) (firstPiece layers c rest).2

/-- The kinds of the tokens that pieces are read as. -/
def kindsRead (symbols : SymbolTable) (pieces : List Piece) : List Kind :=
  (pieces.foldl Reading.add ⟨symbols, 1, [], []⟩).tokens.reverse.map Token.kind

/-- From each state, the scan goes on to its end. -/
theorem Scanned.goesOn {source rest : List Char} {pieces : List Piece} {layers : Nesting}
    (scanned : Scanned source pieces layers rest) :
    Scanned source (pieces ++ (cut layers rest).pieces) (cut layers rest).nesting [] := by
  induction layers, rest using cut_induction generalizing pieces with
  | nil layers => simpa [cut_nil] using scanned
  | cons layers c rest inductionHypothesis =>
      rw [cut_cons]
      simpa using inductionHypothesis scanned.step

/-- A state has read the first pieces of the source. -/
theorem Scanned.pieces_eq {source rest : List Char} {pieces : List Piece} {layers : Nesting}
    (scanned : Scanned source pieces layers rest) :
    (split source).pieces = pieces ++ (cut layers rest).pieces := by
  induction scanned with
  | start => rw [split_eq_cut, List.nil_append]
  | step before inductionHypothesis =>
      rw [inductionHypothesis, cut_cons, List.append_assoc, List.singleton_append]

/-- The scan ends with all pieces of the source. -/
theorem scanned_split (source : List Char) :
    Scanned source (split source).pieces (split source).nesting [] := by
  have begins : Scanned source [] [] source := .start
  simpa [split_eq_cut] using begins.goesOn

/-- The kinds of all pieces are those of the tokens of the source. -/
theorem kindsRead_split (symbols : SymbolTable) (source : String) :
    kindsRead symbols (split source.toList).pieces =
      (Grammar.bodyTokens (scan symbols source).tokens).map Token.kind := by
  rw [bodyTokens_scan]
  rfl

/-- The kinds that are read after one more piece. -/
theorem kindsRead_concat (symbols : SymbolTable) (pieces : List Piece) (piece : Piece) :
    (kindsRead symbols (pieces ++ [piece]) = kindsRead symbols pieces ∧
        ∀ layers, Nesting.after layers piece.shape = layers) ∨
      ∃ kind, kindsRead symbols (pieces ++ [piece]) = kindsRead symbols pieces ++ [kind] ∧
        piece.shape.Emits kind ∧
        ∀ layers, Nesting.after layers (.mark kind) = Nesting.after layers piece.shape := by
  unfold kindsRead
  rw [List.foldl_append, List.foldl_cons, List.foldl_nil]
  rcases (pieces.foldl Reading.add ⟨symbols, 1, [], []⟩).add_emits piece with
    ⟨same, unchanged⟩ | ⟨token, more, emits, alike⟩
  · exact Or.inl ⟨by rw [same], unchanged⟩
  · exact Or.inr ⟨token.kind, by rw [more]; simp, emits, alike⟩

/-- At each state of a scan, what has been read is unfinished in the layers that are
open. -/
theorem Scanned.unfinished (symbols : SymbolTable) {source rest : List Char}
    {pieces : List Piece} {layers : Nesting} (scanned : Scanned source pieces layers rest) :
    Unfinished layers (kindsRead symbols pieces) := by
  induction scanned with
  | start => exact .code .nil
  | @step pieces layers c rest before inductionHypothesis =>
      rcases kindsRead_concat symbols pieces (firstPiece layers c rest).1 with
        ⟨same, unchanged⟩ | ⟨kind, more, emits, alike⟩
      · rw [same, unchanged]
        exact inductionHypothesis
      · rw [more, ← alike]
        exact inductionHypothesis.addToken emits

/-! ## Words -/

theorem closes_of_concat {kinds : List Kind} {kind : Kind}
    (closes : ∃ more, IsCode (kinds ++ [kind] ++ more)) : ∃ more, IsCode (kinds ++ more) := by
  obtain ⟨more, isCode⟩ := closes
  exact ⟨kind :: more, by simpa using isCode⟩

/-- Closing what is open, layer by layer and brace by brace, makes a word. -/
theorem Unfinished.closes {layers : Nesting} {kinds : List Kind}
    (unfinished : Unfinished layers kinds) : ∃ more, IsCode (kinds ++ more) := by
  induction layers generalizing kinds with
  | nil =>
      cases unfinished with
      | code all => exact ⟨[], _, by simpa using all⟩
  | cons layer outer inductionHypothesis =>
      cases layer with
      | template =>
          cases unfinished with
          | template inCode around text =>
              refine @closes_of_concat _ .backtick (inductionHypothesis ?_)
              simpa using around.addTemplate inCode text
      | interpolation depth =>
          induction depth generalizing kinds with
          | zero =>
              have plain : Kind.isCode .rightBrace = true := rfl
              have closed := unfinished.addCode (not_inTemplate_interpolation 0 outer) plain
              exact closes_of_concat (inductionHypothesis closed)
          | succ depth closesLess =>
              have plain : Kind.isCode .rightBrace = true := rfl
              have closed := unfinished.addCode (not_inTemplate_interpolation (depth + 1) outer) plain
              exact closes_of_concat (closesLess closed)

/-- The layers open behind tokens of these kinds. -/
def Nesting.through (layers : Nesting) (kinds : List Kind) : Nesting :=
  kinds.foldl (fun layers kind => layers.after (.mark kind)) layers

theorem Nesting.through_append (layers : Nesting) (first second : List Kind) :
    layers.through (first ++ second) = (layers.through first).through second :=
  List.foldl_append

/-- A token directly in an interpolation changes its depth by what it opens or
closes, as long as there is something to close. -/
theorem after_direct {kind : Kind} (plain : kind.isCode = true) {direct : List Kind} {start : Nat}
    (earlier : direct.count .rightBrace ≤ start + direct.count .leftBrace)
    (closable : (direct ++ [kind]).count .rightBrace ≤ start + (direct ++ [kind]).count .leftBrace)
    (outer : Nesting) :
    Nesting.after
        (.interpolation (start + direct.count .leftBrace - direct.count .rightBrace) :: outer)
        (.mark kind) =
      .interpolation (start + (direct ++ [kind]).count .leftBrace -
        (direct ++ [kind]).count .rightBrace) :: outer := by
  by_cases isLeft : kind = .leftBrace
  · subst isLeft
    have counts : (direct ++ [Kind.leftBrace]).count .leftBrace = direct.count .leftBrace + 1 ∧
        (direct ++ [Kind.leftBrace]).count .rightBrace = direct.count .rightBrace := by
      simp [List.count_append]
    rw [counts.1, counts.2]
    show _ :: outer = _ :: outer
    congr 2
    omega
  · by_cases isRight : kind = .rightBrace
    · subst isRight
      have counts : (direct ++ [Kind.rightBrace]).count .leftBrace = direct.count .leftBrace ∧
          (direct ++ [Kind.rightBrace]).count .rightBrace = direct.count .rightBrace + 1 := by
        simp [List.count_append]
      rw [counts.1, counts.2] at closable ⊢
      obtain ⟨depth, opened⟩ : ∃ depth,
          start + direct.count .leftBrace - direct.count .rightBrace = depth + 1 :=
        ⟨start + direct.count .leftBrace - direct.count .rightBrace - 1, by omega⟩
      rw [opened]
      show _ :: outer = _ :: outer
      congr 2
      omega
    · rw [after_interpolation plain isLeft isRight]
      simp [List.count_append, isLeft, isRight]

mutual

/-- Code leaves plain code as it was, and changes an interpolation by the braces
directly in it. -/
theorem Code.through : ∀ {direct word : List Kind}, Code direct word →
    Nesting.through [] word = [] ∧
      ∀ start outer,
        (∀ front, front <+: direct → front.count .rightBrace ≤ start + front.count .leftBrace) →
        Nesting.through (.interpolation start :: outer) word =
          .interpolation (start + direct.count .leftBrace - direct.count .rightBrace) :: outer
  | _, _, .nil => ⟨rfl, fun _ _ _ => rfl⟩
  | _, _, .token before plain => by
      refine ⟨?_, fun start outer closable => ?_⟩
      · rw [Nesting.through_append, before.through.1]
        exact after_nil plain
      · rw [Nesting.through_append, before.through.2 start outer fun front begins =>
          closable front (begins.trans (List.prefix_append _ _))]
        exact after_direct plain (closable _ (List.prefix_append _ _))
          (closable _ (List.prefix_refl _)) outer
  | _, _, .template before text => by
      refine ⟨?_, fun start outer closable => ?_⟩
      · rw [Nesting.through_append, before.through.1]
        show Nesting.through [.template] _ = []
        rw [Nesting.through_append, text.through []]
        rfl
      · rw [Nesting.through_append, before.through.2 start outer closable]
        show Nesting.through (.template :: .interpolation _ :: outer) _ = _
        rw [Nesting.through_append, text.through]
        rfl

/-- What is inside a template leaves it open. -/
theorem Inside.through : ∀ {inside : List Kind}, Inside inside → ∀ outer,
    Nesting.through (.template :: outer) inside = .template :: outer
  | _, .nil, _ => rfl
  | _, .text before, outer => by
      rw [Nesting.through_append, before.through outer]
      rfl
  | _, .interpolation before code balanced, outer => by
      rw [Nesting.through_append, before.through outer]
      show Nesting.through (.interpolation 0 :: .template :: outer) _ = _
      rw [Nesting.through_append, code.through.2 0 _ fun front begins => by
        simpa using balanced.closable front begins]
      rw [balanced.closed]
      simp [Nesting.through, Nesting.after]

end

/-- The layers open at a state are those that the kinds read lead to. -/
theorem Scanned.through (symbols : SymbolTable) {source rest : List Char} {pieces : List Piece}
    {layers : Nesting} (scanned : Scanned source pieces layers rest) :
    Nesting.through [] (kindsRead symbols pieces) = layers := by
  induction scanned with
  | start => rfl
  | @step pieces layers c rest before inductionHypothesis =>
      rcases kindsRead_concat symbols pieces (firstPiece layers c rest).1 with
        ⟨same, unchanged⟩ | ⟨kind, more, emits, alike⟩
      · rw [same, unchanged]
        exact inductionHypothesis
      · rw [more, Nesting.through_append, inductionHypothesis, ← alike]
        rfl

/-- The kinds read are a word exactly where no layer is open. -/
theorem Scanned.isCode_iff (symbols : SymbolTable) {source rest : List Char} {pieces : List Piece}
    {layers : Nesting} (scanned : Scanned source pieces layers rest) :
    IsCode (kindsRead symbols pieces) ↔ layers = [] := by
  constructor
  · rintro ⟨direct, code⟩
    rw [← scanned.through symbols]
    exact code.through.1
  · rintro rfl
    cases scanned.unfinished symbols with
    | code all => exact ⟨_, all⟩

/-! ## What is reported -/

theorem Gap.problem_ne {text rest : List Char} {problem : Problem}
    (gap : Gap text rest (some problem)) : problem ≠ .unterminatedTemplate := by
  cases gap with
  | unexpected isUnexpected => simp
  | openLine noQuote oneLine ends => simp
  | openText noQuote => simp

/-- No part of a source is reported as an open template. -/
theorem Layout.report_ne {before ahead : List Char} {layers final : Nesting} {parts : List Part}
    (layout : Layout before layers ahead parts final) :
    ∀ report ∈ parts.filterMap Part.report?, report.problem ≠ .unterminatedTemplate := by
  induction layout with
  | done => simp
  | token lexeme line later inductionHypothesis => simpa [Part.report?] using inductionHypothesis
  | @gap before text rest layers final problem parts inCode gap later inductionHypothesis =>
      cases problem with
      | none => simpa [Part.report?] using inductionHypothesis
      | some problem =>
          exact List.forall_mem_cons.mpr ⟨gap.problem_ne, inductionHypothesis⟩

theorem readAll_report_ne (symbols : SymbolTable) (source : String) :
    ∀ report ∈ (readAll symbols source).diagnostics,
      report.problem ≠ .unterminatedTemplate := by
  obtain ⟨parts, -, reports, layout⟩ :=
    cut_layout [] source.toList [] ⟨symbols, 1, [], []⟩ rfl
  intro report reported
  rw [readAll, split_eq_cut, reports] at reported
  exact layout.report_ne report (by simpa using reported)

/-- An open template is reported exactly where a layer is open at the end. -/
theorem reports_template_iff (symbols : SymbolTable) (source : String) :
    (∃ report ∈ (scan symbols source).diagnostics, report.problem = .unterminatedTemplate) ↔
      (split source.toList).nesting ≠ [] := by
  have none := readAll_report_ne symbols source
  rw [scan_eq_finish, Reading.finish]
  simp only [List.isEmpty_iff, List.mem_reverse]
  split
  next level =>
    constructor
    · rintro ⟨report, reported, isTemplate⟩
      exact absurd isTemplate (none report reported)
    · intro opened
      exact absurd level opened
  next opened => exact ⟨fun _ => opened, fun _ => ⟨_, List.mem_cons_self, rfl⟩⟩

/-- **Templates are properly nested.** At each state of a scan the first pieces of the
source have been read. The layers alternate between templates and code; what has been read
is unfinished in them, so that an interpolation's depth is the number of braces open
directly in it, which are no more than there are; and what has been read begins a word of
the grammar. The last state has all pieces and the kinds of all tokens. That a template is
open is reported exactly where these are no word. -/
theorem templates_nest (symbols : SymbolTable) (source : String) :
    (∀ pieces layers rest, Scanned source.toList pieces layers rest →
      pieces <+: (split source.toList).pieces ∧
        layers.Alternates ∧ Unfinished layers (kindsRead symbols pieces) ∧
        (∀ depth, .interpolation depth ∈ layers →
          depth ≤ (kindsRead symbols pieces).count .leftBrace) ∧
        ∃ more, IsCode (kindsRead symbols pieces ++ more)) ∧
    Scanned source.toList (split source.toList).pieces (split source.toList).nesting [] ∧
    kindsRead symbols (split source.toList).pieces =
      (Grammar.bodyTokens (scan symbols source).tokens).map Token.kind ∧
    ((∃ report ∈ (scan symbols source).diagnostics, report.problem = .unterminatedTemplate) ↔
      ¬ IsCode ((Grammar.bodyTokens (scan symbols source).tokens).map Token.kind)) := by
  refine ⟨fun pieces layers rest scanned => ?_, scanned_split _, kindsRead_split _ _, ?_⟩
  · have unfinished := scanned.unfinished symbols
    have first : pieces <+: (split source.toList).pieces := ⟨_, scanned.pieces_eq.symm⟩
    exact ⟨first, unfinished.alternates, unfinished, fun depth => unfinished.depth_le,
      unfinished.closes⟩
  · rw [reports_template_iff, ← kindsRead_split]
    exact not_congr ((scanned_split source.toList).isCode_iff symbols).symm

/-- A template in an interpolation in which a brace is open. -/
theorem templates_nest_twice :
    ∃ pieces,
      Scanned "\x60$\x7b\x7b\x60".toList pieces [.template, .interpolation 1, .template] [] ∧
      kindsRead .initial pieces = [.backtick, .dollarBrace, .leftBrace, .backtick] ∧
      Unfinished [.template, .interpolation 1, .template]
        [.backtick, .dollarBrace, .leftBrace, .backtick] := by
  have scanned : Scanned "\x60$\x7b\x7b\x60".toList
      [⟨.mark .backtick, ['\x60']⟩, ⟨.mark .dollarBrace, ['$', '\x7b']⟩,
        ⟨.mark .leftBrace, ['\x7b']⟩, ⟨.mark .backtick, ['\x60']⟩]
      [.template, .interpolation 1, .template] [] := scanned_split _
  have nested := (templates_nest .initial "\x60$\x7b\x7b\x60").1 _ _ _ scanned
  exact ⟨_, scanned, rfl, nested.2.2.1⟩

end Scriptlet
