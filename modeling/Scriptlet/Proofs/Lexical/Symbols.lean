import Mathlib.Data.List.Pairwise
import Scriptlet.Proofs.Grammar.Parallel
import Scriptlet.Proofs.Lexical.Lines
import Std.Data.TreeMap.Lemmas

/-!
Contract: one source scanned with two symbol tables.

Owns: `SymbolTable.Lawful`, by which a table numbers names one to one, the
reserved words first; that scanning keeps to it and only adds names; and
`scan_alike`, by which the tokens of a source differ only in the numbers of
their symbols, whatever names the tables held before.

Does not own: what becomes of tokens that are alike
(`Scriptlet.Proofs.Grammar.ParallelRules`).
-/

set_option autoImplicit false

namespace Scriptlet

namespace SymbolTable

/-! ## Tables that grow -/

/-- The number of a name, if the name is held. -/
def number? (table : SymbolTable) (name : String) : Option Nat :=
  (table.find? name).map (·.id)

/-- The first table has its numbers in the second one, and the same ones are reserved. -/
structure Extends (before after : SymbolTable) : Prop where
  number : ∀ (name : String) (id : Nat), before.number? name = some id →
    after.number? name = some id
  reserved : after.reserved = before.reserved

theorem Extends.refl (table : SymbolTable) : table.Extends table :=
  ⟨fun _ _ found => found, rfl⟩

theorem Extends.trans {first second third : SymbolTable} (earlier : first.Extends second)
    (later : second.Extends third) : first.Extends third :=
  ⟨fun name id found => later.number name id (earlier.number name id found),
    later.reserved.trans earlier.reserved⟩

theorem find?_name {table : SymbolTable} {name : String} {symbol : Symbol}
    (found : table.find? name = some symbol) : symbol.name = name := by
  simpa using List.find?_some found

theorem find?_mem {table : SymbolTable} {name : String} {symbol : Symbol}
    (found : table.find? name = some symbol) : symbol ∈ table.held :=
  List.mem_of_find?_eq_some found

theorem find?_eq_none {table : SymbolTable} {name : String} :
    table.find? name = none ↔ ∀ symbol ∈ table.held, symbol.name ≠ name := by
  simp [find?]

theorem intern_name (table : SymbolTable) (name : String) : (table.intern name).1.name = name := by
  unfold intern
  split
  next symbol found => exact find?_name found
  next => rfl

theorem intern_reserved (table : SymbolTable) (name : String) :
    (table.intern name).2.reserved = table.reserved := by
  unfold intern
  split <;> rfl

theorem reserved?_intern (table : SymbolTable) (name : String) (symbol : Symbol) :
    (table.intern name).2.reserved? symbol = table.reserved? symbol := by
  rw [reserved?, intern_reserved, reserved?]

/-- A new name gets the next number; the others keep theirs. -/
theorem intern_number (table : SymbolTable) (name other : String) :
    (table.intern name).2.number? other =
      if name = other then some ((table.number? name).getD table.next)
      else table.number? other := by
  unfold intern number?
  split
  next symbol found =>
    dsimp only
    split
    next same => rw [← same, found, Option.map_some, Option.getD_some]
    next => rfl
  next missing =>
    rw [missing]
    dsimp only [find?]
    rw [List.find?_cons]
    by_cases same : name = other
    · simp [same]
    · simp [beq_eq_false_iff_ne.mpr same, same]

theorem intern_id (table : SymbolTable) (name : String) :
    (table.intern name).1.id = (table.number? name).getD table.next := by
  unfold intern number?
  split
  next symbol found => rw [found, Option.map_some, Option.getD_some]
  next missing => rw [missing, Option.map_none, Option.getD_none]

theorem intern_found (table : SymbolTable) (name : String) :
    (table.intern name).2.number? name = some (table.intern name).1.id := by
  rw [intern_number, if_pos rfl, intern_id]

theorem intern_extends (table : SymbolTable) (name : String) :
    table.Extends (table.intern name).2 where
  number other id found := by
    rw [intern_number]
    split
    next same => rw [same, found, Option.getD_some]
    next => exact found
  reserved := intern_reserved table name

/-! ## Tables that number names one to one -/

/-- The next number is above all that are held, and no two symbols have the same name or
the same number. -/
structure OneToOne (table : SymbolTable) : Prop where
  below : ∀ symbol ∈ table.held, symbol.id < table.next
  once : table.held.Pairwise fun first second => first.name ≠ second.name ∧ first.id ≠ second.id

section OneToOne

variable {table : SymbolTable}

theorem empty_oneToOne : SymbolTable.empty.OneToOne where
  below _ inside := absurd inside List.not_mem_nil
  once := .nil

/-- A symbol is only made for a name that none has, and with a number that none has. -/
theorem OneToOne.intern (oneToOne : table.OneToOne) (name : String) :
    (table.intern name).2.OneToOne := by
  unfold SymbolTable.intern
  split
  next => exact oneToOne
  next missing =>
    refine ⟨List.forall_mem_cons.mpr ⟨Nat.lt_succ_self _, ?_⟩, .cons ?_ oneToOne.once⟩
    · intro symbol inside
      exact Nat.lt_succ_of_lt (oneToOne.below symbol inside)
    · intro symbol inside
      exact ⟨(find?_eq_none.mp missing symbol inside).symm, Nat.ne_of_gt (oneToOne.below symbol inside)⟩

theorem OneToOne.internAll (oneToOne : table.OneToOne) (names : List String) :
    (table.internAll names).OneToOne := by
  induction names generalizing table with
  | nil => exact oneToOne
  | cons name names inductionHypothesis => exact inductionHypothesis (oneToOne.intern name)

instance : Std.Symm fun first second : Symbol =>
    first.name ≠ second.name ∧ first.id ≠ second.id :=
  ⟨fun _ _ apart => ⟨apart.1.symm, apart.2.symm⟩⟩

theorem OneToOne.eq_of_name (oneToOne : table.OneToOne) {first second : Symbol}
    (isFirst : first ∈ table.held) (isSecond : second ∈ table.held)
    (same : first.name = second.name) : first = second := by
  by_contra differ
  exact (oneToOne.once.forall isFirst isSecond differ).1 same

theorem OneToOne.eq_of_id (oneToOne : table.OneToOne) {first second : Symbol}
    (isFirst : first ∈ table.held) (isSecond : second ∈ table.held)
    (same : first.id = second.id) : first = second := by
  by_contra differ
  exact (oneToOne.once.forall isFirst isSecond differ).2 same

/-- What is held is what is found by its name. -/
theorem OneToOne.mem_held (oneToOne : table.OneToOne) {symbol : Symbol} :
    symbol ∈ table.held ↔ table.number? symbol.name = some symbol.id := by
  unfold number?
  constructor
  · intro inside
    cases found : table.find? symbol.name with
    | none => exact absurd rfl (find?_eq_none.mp found symbol inside)
    | some other =>
        rw [oneToOne.eq_of_name (find?_mem found) inside (find?_name found)]
        rfl
  · intro found
    obtain ⟨other, isOther, sameId⟩ := Option.map_eq_some_iff.mp found
    have sameName := find?_name isOther
    have inside := find?_mem isOther
    cases other
    cases sameName
    cases sameId
    exact inside

/-- No two names have the same number. -/
theorem OneToOne.injective (oneToOne : table.OneToOne) {name other : String} {id : Nat}
    (found : table.number? name = some id) (found' : table.number? other = some id) :
    name = other := by
  have one : ⟨id, name⟩ ∈ table.held := oneToOne.mem_held.mpr found
  have another : ⟨id, other⟩ ∈ table.held := oneToOne.mem_held.mpr found'
  exact congrArg Symbol.name (oneToOne.eq_of_id one another rfl)

end OneToOne

/-- Moreover, the reserved words are held, and they and no others have kinds. -/
structure Lawful (table : SymbolTable) : Prop where
  oneToOne : table.OneToOne
  words : ∀ entry ∈ Kind.reservedWords, ∃ symbol ∈ table.held, symbol.name = entry.1
  kind : ∀ symbol ∈ table.held, table.reserved? symbol = Kind.reservedWords.lookup symbol.name
  bounded : ∀ id ∈ table.reserved, id < table.next

/-- A new name is not reserved, and its number has not been. -/
theorem Lawful.intern {table : SymbolTable} (lawful : table.Lawful) (name : String) :
    (table.intern name).2.Lawful := by
  have oneToOne := lawful.oneToOne.intern name
  unfold SymbolTable.intern at oneToOne ⊢
  split at oneToOne
  next => exact lawful
  next missing =>
    refine ⟨oneToOne, fun entry isWord => ?_, List.forall_mem_cons.mpr ⟨?_, lawful.kind⟩,
      fun id isKey => Nat.lt_succ_of_lt (lawful.bounded id isKey)⟩
    · obtain ⟨symbol, inside, isName⟩ := lawful.words entry isWord
      exact ⟨symbol, List.mem_cons_of_mem _ inside, isName⟩
    · have noWord : Kind.reservedWords.lookup name = none := by
        refine List.lookup_eq_none_iff.mpr fun entry isWord => bne_iff_ne.mpr fun same => ?_
        obtain ⟨symbol, inside, isName⟩ := lawful.words entry isWord
        exact find?_eq_none.mp missing symbol inside (isName.trans same.symm)
      have noKey : table.next ∉ table.reserved := fun isKey =>
        Nat.lt_irrefl _ (lawful.bounded _ isKey)
      dsimp only [reserved?]
      rw [noWord, Std.TreeMap.getElem?_eq_none noKey, Option.map_none]

theorem Lawful.internAll {table : SymbolTable} (lawful : table.Lawful) (names : List String) :
    (table.internAll names).Lawful := by
  induction names generalizing table with
  | nil => exact lawful
  | cons name names inductionHypothesis => exact inductionHypothesis (lawful.intern name)

/-- The reserved words are held as if they had only been requested. -/
theorem initial_held :
    SymbolTable.initial.held =
        (SymbolTable.empty.internAll (Kind.reservedWords.map (·.1))).held ∧
      SymbolTable.initial.next =
        (SymbolTable.empty.internAll (Kind.reservedWords.map (·.1))).next := by
  decide +kernel

/-- The table of a new session. -/
theorem initial_lawful : SymbolTable.initial.Lawful where
  oneToOne := by
    have requested := empty_oneToOne.internAll (Kind.reservedWords.map (·.1))
    obtain ⟨held, next⟩ := initial_held
    exact ⟨by rw [held, next]; exact requested.below, by rw [held]; exact requested.once⟩
  words := by decide +kernel
  kind := by decide +kernel
  bounded id isKey := by
    have keys : ∀ id ∈ SymbolTable.initial.reserved.keys, id < SymbolTable.initial.next := by
      decide +kernel
    exact keys id (Std.TreeMap.mem_keys.mpr isKey)

/-- The kind of a symbol is that of its name. -/
theorem Lawful.reserved?_eq {table : SymbolTable} (lawful : table.Lawful) {symbol : Symbol}
    (found : table.number? symbol.name = some symbol.id) :
    table.reserved? symbol = Kind.reservedWords.lookup symbol.name :=
  lawful.kind symbol (lawful.oneToOne.mem_held.mpr found)

/-- Only one word is reserved for `maybe`. -/
theorem lookup_maybe {name : String}
    (found : Kind.reservedWords.lookup name = some .maybeWord) : name = "maybe" := by
  have only : ∀ entry ∈ Kind.reservedWords, entry.2 = .maybeWord → entry.1 = "maybe" := by decide
  obtain ⟨before, after, isWord, -⟩ := List.lookup_eq_some_iff.mp found
  exact only ⟨name, .maybeWord⟩ (by simp [isWord]) rfl

/-- Whether a name is reserved, and for what, is the same for all tables. -/
theorem Lawful.intern_reserved? {table : SymbolTable} (lawful : table.Lawful) (name : String) :
    (table.intern name).2.reserved? (table.intern name).1 = Kind.reservedWords.lookup name := by
  have found := table.intern_found name
  have isName := table.intern_name name
  rw [← isName] at found
  rw [(lawful.intern name).reserved?_eq (by rwa [isName] at found ⊢), isName]

end SymbolTable

/-! ## Words -/

/-- The word that a piece is. -/
def Piece.word? (piece : Piece) : Option String :=
  match piece.shape with
  | .word => some (String.ofList piece.text)
  | _ => none

/-- The words of a source, reserved ones among them. What stands in strings and
comments is no word. -/
def words (source : String) : List String :=
  (split source.toList).pieces.filterMap Piece.word?

namespace Reading

theorem word_symbols (reading : Reading) (text : List Char) :
    (reading.word text).symbols = (reading.symbols.intern (String.ofList text)).2 := by
  unfold word
  dsimp only
  split <;> rfl

theorem add_symbols (reading : Reading) (piece : Piece) :
    (reading.add piece).symbols =
      match piece.word? with
      | some name => (reading.symbols.intern name).2
      | none => reading.symbols := by
  unfold add Piece.word?
  cases piece.shape with
  | word => exact word_symbols ..
  | _ => rfl

theorem add_extends (reading : Reading) (piece : Piece) :
    reading.symbols.Extends (reading.add piece).symbols := by
  rw [add_symbols]
  split
  · exact SymbolTable.intern_extends _ _
  · exact .refl _

theorem foldl_add_extends (pieces : List Piece) (reading : Reading) :
    reading.symbols.Extends (pieces.foldl add reading).symbols := by
  induction pieces generalizing reading with
  | nil => exact .refl _
  | cons piece pieces inductionHypothesis =>
      exact (reading.add_extends piece).trans (inductionHypothesis _)

theorem add_lawful {reading : Reading} (lawful : reading.symbols.Lawful) (piece : Piece) :
    (reading.add piece).symbols.Lawful := by
  rw [add_symbols]
  split
  · exact lawful.intern _
  · exact lawful

theorem foldl_add_lawful (pieces : List Piece) {reading : Reading}
    (lawful : reading.symbols.Lawful) : (pieces.foldl add reading).symbols.Lawful := by
  induction pieces generalizing reading with
  | nil => exact lawful
  | cons piece pieces inductionHypothesis => exact inductionHypothesis (add_lawful lawful piece)

end Reading

theorem scan_extends (table : SymbolTable) (source : String) :
    table.Extends (scan table source).symbols := by
  rw [scan_symbols]
  exact Reading.foldl_add_extends _ ⟨table, 1, [], []⟩

theorem scan_lawful {table : SymbolTable} (lawful : table.Lawful) (source : String) :
    (scan table source).symbols.Lawful := by
  rw [scan_symbols]
  exact Reading.foldl_add_lawful _ lawful

/-! ## Two tables -/

/-- How symbols of two tables are related: they have the same name, which is one of
`names`, and the numbers that the tables give it. -/
structure SymbolTable.Shares (left right : SymbolTable) (names : String → Prop)
    (symbol symbol' : Symbol) : Prop where
  name : symbol.name = symbol'.name
  named : names symbol.name
  found : left.number? symbol.name = some symbol.id
  found' : right.number? symbol.name = some symbol'.id

/-- Tokens that differ in the numbers of symbols, and of which none is `maybe`. -/
def SymbolTable.likeness (left right : SymbolTable) (names : String → Prop) : Likeness :=
  ⟨left.Shares right names, False⟩

namespace Reading

/-- What has been read of a source with two tables. -/
structure Alike (like : Likeness) (left right : Reading) : Prop where
  line : left.line = right.line
  tokens : TokensAlike like left.tokens right.tokens
  diagnostics : left.diagnostics = right.diagnostics

section Two

variable {final final' : SymbolTable} {names : String → Prop} {left right : Reading}

theorem Alike.token (alike : left.Alike (final.likeness final' names) right) {kind : Kind}
    (sure : kind ≠ .maybeWord) (text : List Char) {literal literal' : Option Literal}
    (same : Option.Rel (Literal.Alike (final.Shares final' names)) literal literal') :
    (left.token kind text literal).Alike (final.likeness final' names)
      (right.token kind text literal') :=
  ⟨alike.line, .cons ⟨rfl, rfl, alike.line, same, fun isMaybe => sure isMaybe⟩ alike.tokens,
    alike.diagnostics⟩

theorem Alike.word (alike : left.Alike (final.likeness final' names) right)
    (lawful : left.symbols.Lawful) (lawful' : right.symbols.Lawful) {text : List Char}
    (named : names (String.ofList text)) (sure : String.ofList text ≠ "maybe")
    (known : (left.symbols.intern (String.ofList text)).2.Extends final)
    (known' : (right.symbols.intern (String.ofList text)).2.Extends final') :
    (left.word text).Alike (final.likeness final' names) (right.word text) := by
  have found := left.symbols.intern_found (String.ofList text)
  have found' := right.symbols.intern_found (String.ofList text)
  have isName := left.symbols.intern_name (String.ofList text)
  have isName' := right.symbols.intern_name (String.ofList text)
  have entered : Alike (final.likeness final' names)
      { left with symbols := (left.symbols.intern (String.ofList text)).2 }
      { right with symbols := (right.symbols.intern (String.ofList text)).2 } :=
    ⟨alike.line, alike.tokens, alike.diagnostics⟩
  unfold Reading.word
  dsimp only
  rw [lawful.intern_reserved?, lawful'.intern_reserved?]
  cases isWord : Kind.reservedWords.lookup (String.ofList text) with
  | some kind =>
      refine entered.token (fun isMaybe => sure ?_) text .none
      rw [isMaybe] at isWord
      exact SymbolTable.lookup_maybe isWord
  | none =>
      have noMaybe : Kind.identifier ≠ .maybeWord := by decide
      refine entered.token noMaybe text (.some (.identifier ⟨?_, ?_, ?_, ?_⟩))
      · rw [isName, isName']
      · rw [isName]
        exact named
      · rw [isName]
        exact known.number _ _ found
      · rw [isName]
        exact known'.number _ _ found'

/-- One more piece. Marks are no reserved words. -/
theorem Alike.add (alike : left.Alike (final.likeness final' names) right)
    (lawful : left.symbols.Lawful) (lawful' : right.symbols.Lawful) {piece : Piece}
    (plain : ∀ word, piece.word? = some word → names word ∧ word ≠ "maybe")
    (noMaybe : piece.shape ≠ .mark .maybeWord)
    (known : (left.add piece).symbols.Extends final)
    (known' : (right.add piece).symbols.Extends final') :
    (left.add piece).Alike (final.likeness final' names) (right.add piece) := by
  have entered : Alike (final.likeness final' names)
      { left with line := left.line + piece.lineEnds }
      { right with line := right.line + piece.lineEnds } :=
    ⟨by rw [alike.line], alike.tokens, alike.diagnostics⟩
  rw [add_symbols] at known known'
  unfold Piece.word? at plain known known'
  unfold Reading.add
  cases shape : piece.shape with
  | blank | comment => exact entered
  | wrong problem =>
      refine ⟨entered.line, entered.tokens, ?_⟩
      dsimp only [report]
      rw [alike.line, alike.diagnostics]
  | mark kind =>
      refine entered.token (fun isMaybe => noMaybe ?_) piece.text .none
      rw [shape, isMaybe]
  | word =>
      rw [shape] at plain known known'
      obtain ⟨named, sure⟩ := plain _ rfl
      exact entered.word lawful lawful' named sure known known'
  | number whole fraction =>
      have isNumber : Kind.number ≠ .maybeWord := by decide
      exact entered.token isNumber piece.text (.some (.number _))
  | string content =>
      have isString : Kind.string ≠ .maybeWord := by decide
      exact entered.token isString piece.text (.some (.text _))
  | templateText content =>
      have isText : Kind.templateText ≠ .maybeWord := by decide
      exact entered.token isText piece.text (.some (.text _))

theorem Alike.foldl (alike : left.Alike (final.likeness final' names) right)
    (lawful : left.symbols.Lawful) (lawful' : right.symbols.Lawful) {pieces : List Piece}
    (plain : ∀ piece ∈ pieces, ∀ word, piece.word? = some word → names word ∧ word ≠ "maybe")
    (noMaybe : ∀ piece ∈ pieces, piece.shape ≠ .mark .maybeWord)
    (known : (pieces.foldl Reading.add left).symbols.Extends final)
    (known' : (pieces.foldl Reading.add right).symbols.Extends final') :
    (pieces.foldl Reading.add left).Alike (final.likeness final' names)
      (pieces.foldl Reading.add right) := by
  induction pieces generalizing left right with
  | nil => exact alike
  | cons piece pieces inductionHypothesis =>
      have first := alike.add lawful lawful' (plain piece (by simp)) (noMaybe piece (by simp))
        ((foldl_add_extends pieces _).trans known) ((foldl_add_extends pieces _).trans known')
      exact inductionHypothesis first (add_lawful lawful piece) (add_lawful lawful' piece)
        (fun other inside => plain other (by simp [inside]))
        (fun other inside => noMaybe other (by simp [inside])) known known'

end Two

end Reading

/-- **A source scanned with two tables.** If all its words are among `names`, and
none is `maybe`, its tokens differ only in the numbers of symbols, and the same
errors are reported. -/
theorem scan_alike {table table' final final' : SymbolTable} {names : String → Prop}
    (lawful : table.Lawful) (lawful' : table'.Lawful) {source : String}
    (plain : ∀ word ∈ words source, names word ∧ word ≠ "maybe")
    (known : (scan table source).symbols.Extends final)
    (known' : (scan table' source).symbols.Extends final') :
    TokensAlike (final.likeness final' names) (scan table source).tokens
        (scan table' source).tokens ∧
      (scan table source).diagnostics = (scan table' source).diagnostics := by
  rw [scan_symbols] at known known'
  have alike : (readAll table source).Alike (final.likeness final' names)
      (readAll table' source) := by
    have begins : Reading.Alike (final.likeness final' names) ⟨table, 1, [], []⟩
        ⟨table', 1, [], []⟩ := ⟨rfl, .nil, rfl⟩
    refine begins.foldl lawful lawful' ?_ ?_ known known'
    · intro piece inside word isWord
      exact plain word (List.mem_filterMap.mpr ⟨piece, inside, isWord⟩)
    · intro piece inside isMaybe
      exact cut_mark [] source.toList piece inside _ isMaybe rfl
  constructor
  · rw [scan_tokens, scan_tokens]
    have stop : (Token.endOfInput (newlines source.toList + 1)).Alike (final.likeness final' names)
        (Token.endOfInput (newlines source.toList + 1)) :=
      ⟨rfl, rfl, rfl, .none, fun isMaybe => by cases isMaybe⟩
    exact List.rel_append (List.rel_reverse alike.tokens) (.cons stop .nil)
  · rw [scan_eq_finish, scan_eq_finish, Reading.finish, Reading.finish]
    dsimp only
    split
    · rw [alike.diagnostics]
    · dsimp only [Reading.report]
      rw [alike.diagnostics, alike.line]

end Scriptlet
