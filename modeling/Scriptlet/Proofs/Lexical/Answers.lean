import Scriptlet.Proofs.Lexical.Symbols

/-!
Contract: what a symbol table answers.

A symbol is requested by name, and compared by number. The log of a table lists the
requests that it has answered, each with the symbol that was returned.

Owns: `Answer` and `SymbolTable.answers`; `SymbolTable.Answered`, by which a table holds
just what its log says; `SymbolTable.Faithful`, by which symbols stand for names, and that
they do in every table that numbers names one to one (`SymbolTable.Lawful.faithful`); and
what the scanner requests, and makes of the answers (`scan_requests`, `scan_identifiers`).

Does not own: which tables number names one to one (`Scriptlet.Proofs.Lexical.Symbols`),
and who requests symbols beside the scanner (`Scriptlet.Proofs.Session.Names`).
-/

set_option autoImplicit false

namespace Scriptlet

/-- A request that was answered: the name, and the symbol that was returned for it. -/
structure Answer where
  name : String
  symbol : Symbol
deriving DecidableEq, Repr

/-- The symbol was returned for some request. -/
def Returned (log : List Answer) (symbol : Symbol) : Prop :=
  ∃ answer ∈ log, answer.symbol = symbol

namespace SymbolTable

/-- The answers to requests that are made one after the other. -/
def answers (table : SymbolTable) : List String → List Answer
  | [] => []
  | name :: names => ⟨name, (table.intern name).1⟩ :: (table.intern name).2.answers names

/-- The name behind a number, if a symbol with this number is held. -/
def nameOf? (table : SymbolTable) (id : Nat) : Option String :=
  (table.held.find? fun symbol => symbol.id == id).map (·.name)

/-- What was answered is what the table holds, each symbol under its own name. -/
def Answered (table : SymbolTable) (log : List Answer) : Prop :=
  ∀ answer : Answer, answer ∈ log ↔
    answer.symbol.name = answer.name ∧ answer.symbol ∈ table.held

/-- Symbols stand for the names that they were requested for. Two symbols are the same if
they have the same number. -/
structure Faithful (table : SymbolTable) (log : List Answer) : Prop where
  same_iff : ∀ first ∈ log, ∀ second ∈ log,
    first.symbol.id = second.symbol.id ↔ first.name = second.name
  name : ∀ answer ∈ log, answer.symbol.name = answer.name
  /-- Reserved words have their kind, and other names have none. -/
  reserved : ∀ answer ∈ log, table.reserved? answer.symbol = Kind.reservedWords.lookup answer.name
  /-- A name that was requested is answered as before. -/
  again : ∀ answer ∈ log, table.intern answer.name = (answer.symbol, table)
  /-- The symbols that are held are those that were returned. -/
  held : ∀ symbol, symbol ∈ table.held ↔ Returned log symbol
  /-- No two of them have the same name, nor the same number. -/
  once : table.held.Pairwise fun first second => first.name ≠ second.name ∧ first.id ≠ second.id

variable {table : SymbolTable} {log : List Answer}

/-! ## What is held -/

theorem OneToOne.nameOf?_eq_some (oneToOne : table.OneToOne) {id : Nat} {name : String} :
    table.nameOf? id = some name ↔ ⟨id, name⟩ ∈ table.held := by
  unfold nameOf?
  constructor
  · intro named
    obtain ⟨symbol, found, rfl⟩ := Option.map_eq_some_iff.mp named
    have isNumber : symbol.id = id := by simpa using List.find?_some found
    rw [← isNumber]
    exact List.mem_of_find?_eq_some found
  · intro inside
    cases found : table.held.find? fun symbol => symbol.id == id with
    | none =>
        have apart := List.find?_eq_none.mp found _ inside
        simp at apart
    | some symbol =>
        have isNumber : symbol.id = id := by simpa using List.find?_some found
        have isHeld := List.mem_of_find?_eq_some found
        rw [oneToOne.eq_of_id isHeld inside isNumber]
        rfl

/-! ## One request after the other -/

theorem empty_answered : SymbolTable.empty.Answered [] := by
  intro answer
  simp [SymbolTable.empty]

/-- What is returned is held from then on, beside what was held before. -/
theorem mem_held_intern (name : String) (symbol : Symbol) :
    symbol ∈ (table.intern name).2.held ↔
      symbol ∈ table.held ∨ symbol = (table.intern name).1 := by
  unfold intern
  split
  next old found =>
    constructor
    · exact .inl
    · rintro (inside | rfl)
      · exact inside
      · exact find?_mem found
  next => exact List.mem_cons.trans or_comm

/-- One more request. -/
theorem Answered.intern (answered : table.Answered log) (name : String) :
    (table.intern name).2.Answered (log ++ [⟨name, (table.intern name).1⟩]) := by
  rintro ⟨other, symbol⟩
  rw [List.mem_append, List.mem_singleton, answered, mem_held_intern]
  constructor
  · rintro (⟨named, inside⟩ | new)
    · exact ⟨named, .inl inside⟩
    · cases new
      exact ⟨intern_name table name, .inr rfl⟩
  · dsimp only
    rintro ⟨rfl, inside | rfl⟩
    · exact .inl ⟨rfl, inside⟩
    · exact .inr (by rw [intern_name])

/-- Any number of requests. -/
theorem Answered.internAll (answered : table.Answered log) (names : List String) :
    (table.internAll names).Answered (log ++ table.answers names) := by
  induction names generalizing table log with
  | nil =>
      rw [answers, List.append_nil]
      exact answered
  | cons name names inductionHypothesis =>
      have later := inductionHypothesis (answered.intern name)
      rw [List.append_assoc] at later
      exact later

/-! ## Symbols that stand for names -/

theorem Answered.held (answered : table.Answered log) {symbol : Symbol} :
    symbol ∈ table.held ↔ Returned log symbol := by
  constructor
  · intro inside
    exact ⟨⟨symbol.name, symbol⟩, (answered _).mpr ⟨rfl, inside⟩, rfl⟩
  · rintro ⟨answer, inside, rfl⟩
    exact ((answered answer).mp inside).2

/-- **Symbols stand for names**, in every table that numbers names one to one and has the
reserved words. -/
theorem Lawful.faithful (lawful : table.Lawful) (answered : table.Answered log) :
    table.Faithful log where
  same_iff first isFirst second isSecond := by
    obtain ⟨nameFirst, heldFirst⟩ := (answered first).mp isFirst
    obtain ⟨nameSecond, heldSecond⟩ := (answered second).mp isSecond
    rw [← nameFirst, ← nameSecond]
    constructor
    · intro same
      rw [lawful.oneToOne.eq_of_id heldFirst heldSecond same]
    · intro same
      rw [lawful.oneToOne.eq_of_name heldFirst heldSecond same]
  name answer inside := ((answered answer).mp inside).1
  reserved answer inside := by
    obtain ⟨isName, isHeld⟩ := (answered answer).mp inside
    rw [← isName]
    exact lawful.kind _ isHeld
  again answer inside := by
    obtain ⟨isName, isHeld⟩ := (answered answer).mp inside
    rw [SymbolTable.intern]
    cases found : table.find? answer.name with
    | none => exact absurd isName (find?_eq_none.mp found _ isHeld)
    | some symbol =>
        have sameName := (find?_name found).trans isName.symm
        rw [lawful.oneToOne.eq_of_name (find?_mem found) isHeld sameName]
  held _ := answered.held
  once := lawful.oneToOne.once

/-- A new table holds the answers for the reserved words. -/
theorem initial_answered :
    SymbolTable.initial.Answered (SymbolTable.empty.answers (Kind.reservedWords.map (·.1))) := by
  intro answer
  rw [initial_held.1]
  exact empty_answered.internAll (Kind.reservedWords.map (·.1)) answer

end SymbolTable

/-! ## What is requested of a source -/

/-- The symbol that a token carries. -/
def Token.symbol? (token : Token) : Option Symbol :=
  match token.literal with
  | some (.identifier symbol) => some symbol
  | _ => none

/-- The symbols for those names that are not reserved. -/
def SymbolTable.identifiers (table : SymbolTable) (names : List String) : List Symbol :=
  ((table.answers names).map (·.symbol)).filter (table.reserved? · |>.isNone)

namespace Reading

theorem foldl_add_symbols (pieces : List Piece) (reading : Reading) :
    (pieces.foldl add reading).symbols =
      reading.symbols.internAll (pieces.filterMap Piece.word?) := by
  induction pieces generalizing reading with
  | nil => rfl
  | cons piece pieces inductionHypothesis =>
      rw [List.foldl_cons, inductionHypothesis, add_symbols, List.filterMap_cons]
      cases piece.word? <;> rfl

/-- The symbols that the tokens carry, in the order of the text. -/
def carried (reading : Reading) : List Symbol :=
  reading.tokens.reverse.filterMap Token.symbol?

theorem carried_token (reading : Reading) (kind : Kind) (text : List Char)
    (literal : Option Literal) :
    (reading.token kind text literal).carried = reading.carried ++
      (Token.symbol? ⟨kind, String.ofList text, literal, reading.line⟩).toList := by
  unfold carried token
  rw [List.reverse_cons, List.filterMap_append, List.filterMap_cons, List.filterMap_nil]
  cases Token.symbol? ⟨kind, String.ofList text, literal, reading.line⟩ <;> rfl

theorem carried_word (reading : Reading) (text : List Char) :
    (reading.word text).carried =
      reading.carried ++ reading.symbols.identifiers [String.ofList text] := by
  unfold word SymbolTable.identifiers
  dsimp only [SymbolTable.answers, List.map]
  rw [SymbolTable.reserved?_intern]
  cases reserved : reading.symbols.reserved? (reading.symbols.intern (String.ofList text)).1 with
  | some kind =>
      rw [carried_token]
      simp [reserved, Token.symbol?, carried]
  | none =>
      rw [carried_token]
      simp [reserved, Token.symbol?, carried]

/-- A word carries its answer, unless it is reserved, and nothing else carries a symbol. -/
theorem carried_add (reading : Reading) (piece : Piece) :
    (reading.add piece).carried =
      reading.carried ++ reading.symbols.identifiers piece.word?.toList := by
  unfold add Piece.word?
  cases piece.shape with
  | word => exact carried_word ..
  | blank | comment | wrong => exact (List.append_nil _).symm
  | mark | number | string | templateText => exact carried_token ..

theorem carried_foldl (pieces : List Piece) (reading : Reading) :
    (pieces.foldl add reading).carried =
      reading.carried ++ reading.symbols.identifiers (pieces.filterMap Piece.word?) := by
  induction pieces generalizing reading with
  | nil => exact (List.append_nil _).symm
  | cons piece pieces inductionHypothesis =>
      rw [List.foldl_cons, inductionHypothesis, carried_add, add_symbols, List.append_assoc,
        List.filterMap_cons]
      congr 1
      unfold SymbolTable.identifiers
      cases piece.word? with
      | none => rfl
      | some name =>
          simp only [SymbolTable.reserved?_intern]
          rw [← List.filter_append, ← List.map_append]
          rfl

end Reading

/-- The scanner requests the words of a source, in order, and nothing else. -/
theorem scan_requests (table : SymbolTable) (source : String) :
    (scan table source).symbols = table.internAll (words source) := by
  rw [scan_symbols]
  exact Reading.foldl_add_symbols _ _

/-- The tokens of a source carry the answers for its words, those for reserved words
excepted. -/
theorem scan_identifiers (table : SymbolTable) (source : String) :
    (scan table source).tokens.filterMap Token.symbol? = table.identifiers (words source) := by
  have carried := Reading.carried_foldl (split source.toList).pieces ⟨table, 1, [], []⟩
  rw [scan_tokens, List.filterMap_append]
  exact (List.append_nil _).trans carried

end Scriptlet
