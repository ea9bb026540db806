import Scriptlet.Proofs.Lexical.Symbols
import Scriptlet.Proofs.Run.Moved
import Scriptlet.Proofs.Session.Reachable

/-!
Contract: a session after a reset and a new one.

Owns: `Session.transcript?`, all that a sequence of sources shows; and
`reset_transcript?`, by which a session that was reset shows what a new one shows.

Does not own: why runs cannot tell the two apart (`Scriptlet.Proofs.Run.Moved`),
and the prompt (`Scriptlet.Proofs.Shell.Renewed`).

## Which symbols are compared

A reset keeps the symbol table, so the numbers of symbols differ. They are
compared by the tables that the two sessions have in the end, when all sources
have been read: until then both only grow, and one relation serves all runs. The
clock is left out, whose function both sessions have and whose readings differ. So
is `maybe`, for which coins fall differently.
-/

set_option autoImplicit false

namespace Scriptlet

/-- Neither the clock nor `maybe` is a word of the source. -/
def Plain (source : String) : Prop :=
  ∀ word ∈ words source, word ≠ Session.clockName ∧ word ≠ "maybe"

instance (source : String) : Decidable (Plain source) :=
  inferInstanceAs (Decidable (∀ word ∈ words source, word ≠ Session.clockName ∧ word ≠ "maybe"))

/-! ## What a session shows -/

/-- What an evaluation adds to what was shown before. -/
structure Observation where
  printed : List UInt8
  result : Except Abort (List String)
  reported : List Diagnostic

namespace Session

def observe (session : Session) (evaluation : Evaluation) : Observation :=
  let machine := evaluation.session.machine
  { printed := machine.output.written.data.toList.drop session.machine.output.written.size
    result := evaluation.result.map (List.map machine.heap.display)
    reported := evaluation.session.pending.drop session.pending.length }

/-- What the sources show, evaluated in turn, if the fuel is enough for each. Each source
has the coins for as many sources as there are behind it. -/
def transcript? (fuel : Nat) (coins : Nat → Nat → Bool) :
    Session → List String → Option (List Observation)
  | _, [] => some []
  | session, source :: rest => do
      let evaluation ← session.eval? fuel (coins rest.length) source
      let later ← evaluation.session.transcript? fuel coins rest
      some (session.observe evaluation :: later)

end Session

/-! ## Symbols in the end -/

/-- The table when the sources have been read. -/
def SymbolTable.after (table : SymbolTable) (sources : List String) : SymbolTable :=
  sources.foldl (fun table source => (scan table source).symbols) table

theorem SymbolTable.after_extends (table : SymbolTable) (sources : List String) :
    table.Extends (table.after sources) := by
  induction sources generalizing table with
  | nil => exact .refl table
  | cons source sources inductionHypothesis =>
      exact (scan_extends table source).trans (inductionHypothesis _)

theorem SymbolTable.Lawful.after {table : SymbolTable} (lawful : table.Lawful)
    (sources : List String) : (table.after sources).Lawful := by
  induction sources generalizing table with
  | nil => exact lawful
  | cons source sources inductionHypothesis => exact inductionHypothesis (scan_lawful lawful source)

/-- Symbols of all names but that of the clock, with their numbers in the end. -/
abbrev SymbolTable.Ordinary (final final' : SymbolTable) : Symbol → Symbol → Prop :=
  final.Shares final' (· ≠ Session.clockName)

theorem SymbolTable.Lawful.relocation {final final' : SymbolTable} (lawful : final.Lawful)
    (lawful' : final'.Lawful) {move : Relocation}
    (isShared : move.symbols = final.Ordinary final') :
    move.Lawful where
  name := by
    rw [isShared]
    exact fun shared => shared.name
  number := by
    rw [isShared]
    intro symbol symbol' other other' shared sharedOther
    constructor
    · intro same
      have names := lawful.oneToOne.injective shared.found (same ▸ sharedOther.found)
      have found := shared.found'
      rw [names, sharedOther.found'] at found
      exact (Option.some.inj found).symm
    · intro same
      have names := lawful'.oneToOne.injective shared.found' (same ▸ sharedOther.found')
      have found := shared.found
      rw [names, sharedOther.found] at found
      exact (Option.some.inj found).symm

/-! ## Two sessions -/

/-- The second session has the machine of the first one behind other objects. -/
structure Session.MovedTo (move : Relocation) (left right : Session) : Prop where
  machine : left.machine.MovedTo move right.machine
  symbols : left.symbols.Lawful
  symbols' : right.symbols.Lawful

/-- Values that are the same but for where objects are, or the same abort. -/
inductive ResultAlike (move : Relocation) :
    Except Abort (List Value) → Except Abort (List Value) → Prop where
  | ok {values values' : List Value} (all : List.Forall₂ (Value.MovedTo move) values values') :
      ResultAlike move (.ok values) (.ok values')
  | error (cause : Abort) : ResultAlike move (.error cause) (.error cause)

/-- Both evaluations of a source have the same result and report the same. -/
structure EvaluationAlike (move : Relocation) (left right : Session) (source : String)
    (evaluation evaluation' : Evaluation) : Prop where
  sessions : evaluation.session.MovedTo move evaluation'.session
  result : ResultAlike move evaluation.result evaluation'.result
  symbols : evaluation.session.symbols = (scan left.symbols source).symbols
  symbols' : evaluation'.session.symbols = (scan right.symbols source).symbols
  reported : ∃ reported, evaluation.session.pending = left.pending ++ reported ∧
    evaluation'.session.pending = right.pending ++ reported

section Two

variable {final final' : SymbolTable} {move : Relocation} {left right : Session}

theorem read_alike (coin coin' : Nat → Bool) (isShared : move.symbols = final.Ordinary final')
    (moved : left.MovedTo move right) {source : String} (plain : Plain source)
    (known : (scan left.symbols source).symbols.Extends final)
    (known' : (scan right.symbols source).symbols.Extends final') :
    List.Forall₂ (Stmt.Alike move.symbols) (left.read coin source).program
        (right.read coin' source).program ∧
      (left.read coin source).diagnostics = (right.read coin' source).diagnostics := by
  obtain ⟨tokens, reports⟩ := scan_alike moved.symbols moved.symbols' plain known known'
  have parsed : Grammar.ParseAlike (final.likeness final' (· ≠ Session.clockName))
      (parse coin (scan left.symbols source).tokens)
      (parse coin' (scan right.symbols source).tokens) :=
    Grammar.parse_alike (final.likeness final' (· ≠ Session.clockName)) False.elim tokens
  rw [isShared]
  refine ⟨parsed.program, ?_⟩
  unfold Session.read
  dsimp only
  rw [reports, parsed.diagnostics]

theorem eval?_moved (lawful : final.Lawful) (lawful' : final'.Lawful)
    (isShared : move.symbols = final.Ordinary final') (moved : left.MovedTo move right) (fuel : Nat)
    (coin coin' : Nat → Bool) {source : String} (plain : Plain source)
    (known : (scan left.symbols source).symbols.Extends final)
    (known' : (scan right.symbols source).symbols.Extends final') :
    Option.Rel (EvaluationAlike move left right source) (left.eval? fuel coin source)
      (right.eval? fuel coin' source) := by
  obtain ⟨programs, reports⟩ := read_alike coin coin' isShared moved plain known known'
  have entered : Machine.MovedTo move { left.machine with current := left.machine.globals }
      { right.machine with current := right.machine.globals } :=
    { moved.machine with
      current := moved.machine.globals
      inside := moved.machine.globalsInside }
  have ran := interpretAll_inStep (relocating_lawful (lawful.relocation lawful' isShared)) fuel
    programs .nil _ _ entered
  rw [Session.eval?_eq, Session.eval?_eq]
  unfold interpret
  generalize interpretAll fuel (left.read coin source).program [] _ = outcome at ran
  generalize interpretAll fuel (right.read coin' source).program [] _ = outcome' at ran
  have alike : ∀ {result result' : Except Abort (List Value)} {machine machine' : Machine},
      ResultAlike move result result' → machine.MovedTo move machine' →
      EvaluationAlike move left right source
        ⟨result, left.after (left.read coin source) machine⟩
        ⟨result', right.after (right.read coin' source) machine'⟩ := by
    intro result result' machine machine' same machines
    refine ⟨⟨machines, scan_lawful moved.symbols source, scan_lawful moved.symbols' source⟩, same,
      rfl, rfl, (right.read coin' source).diagnostics, ?_, rfl⟩
    rw [← reports]
    rfl
  cases ran with
  | done related machines stepped => exact .some (alike (.ok related) machines)
  | aborted machines stepped => exact .some (alike (.error _) machines)
  | exhausted => exact .none

/-- The bytes behind those that were written before. -/
theorem drop_written (written before after : ByteArray) :
    (written ++ after).data.toList.drop (written ++ before).size =
      after.data.toList.drop before.size := by
  rw [ByteArray.data_append, ByteArray.size_append, Array.toList_append]
  exact List.drop_length_add_append before.size

theorem result_eq (lawful : move.Lawful) {heap heap' : Heap} (heaps : heap.MovedTo move heap')
    {result result' : Except Abort (List Value)} (same : ResultAlike move result result') :
    result.map (List.map heap.display) = result'.map (List.map heap'.display) := by
  cases same with
  | error cause => rfl
  | ok all =>
      have texts : ∀ {values values'}, List.Forall₂ (Value.MovedTo move) values values' →
          values.map heap.display = values'.map heap'.display := by
        intro values values' all
        rw [← List.forall₂_eq_eq_eq, List.forall₂_map_left_iff, List.forall₂_map_right_iff]
        exact all.imp fun _ _ moved => Heap.display_moved lawful heaps moved
      exact congrArg Except.ok (texts all)

theorem observe_eq (lawful : move.Lawful) (moved : left.MovedTo move right) {source : String}
    {evaluation evaluation' : Evaluation}
    (alike : EvaluationAlike move left right source evaluation evaluation') :
    left.observe evaluation = right.observe evaluation' := by
  obtain ⟨reported, isReported, isReported'⟩ := alike.reported
  unfold Session.observe
  dsimp only
  rw [result_eq lawful alike.sessions.machine.heap alike.result, isReported, isReported',
    List.drop_left, List.drop_left, alike.sessions.machine.written, moved.machine.written,
    drop_written]

/-- Sessions that differ by a relocation show the same. -/
theorem transcript?_moved (lawful : final.Lawful) (lawful' : final'.Lawful)
    (isShared : move.symbols = final.Ordinary final') (moved : left.MovedTo move right) (fuel : Nat)
    (coins coins' : Nat → Nat → Bool) {sources : List String}
    (plain : ∀ source ∈ sources, Plain source)
    (known : (left.symbols.after sources).Extends final)
    (known' : (right.symbols.after sources).Extends final') :
    left.transcript? fuel coins sources = right.transcript? fuel coins' sources := by
  induction sources generalizing left right with
  | nil => rfl
  | cons source rest inductionHypothesis =>
      have ran := eval?_moved lawful lawful' isShared moved fuel (coins rest.length)
        (coins' rest.length) (plain source (by simp))
        ((SymbolTable.after_extends _ rest).trans known)
        ((SymbolTable.after_extends _ rest).trans known')
      rw [Session.transcript?, Session.transcript?]
      generalize left.eval? fuel (coins rest.length) source = evaluation at ran
      generalize right.eval? fuel (coins' rest.length) source = evaluation' at ran
      cases ran with
      | none => rfl
      | @some evaluation evaluation' alike =>
          have later := inductionHypothesis alike.sessions
            (fun other inside => plain other (by simp [inside]))
            (by rw [alike.symbols]; exact known) (by rw [alike.symbols']; exact known')
          have shown := observe_eq (lawful.relocation lawful' isShared) moved alike
          show (evaluation.session.transcript? fuel coins rest).bind _ =
            (evaluation'.session.transcript? fuel coins' rest).bind _
          rw [later, shown]

end Two

/-! ## A reset and a new session -/

/-- All that the session has made and written so far is not looked at. -/
def Session.renewal (session : Session) (final final' : SymbolTable) : Relocation where
  symbols := final.Ordinary final'
  scopes := session.machine.heap.scopes.size
  collections := session.machine.heap.collections.size
  functions := session.machine.heap.functions.size
  written := session.machine.output.written

/-- A scope in which only the clock is bound. No other name has its number. -/
theorem clockScope_moved {move : Relocation} {clock clock' : Symbol}
    (apart : ∀ symbol symbol', move.symbols symbol symbol' →
      clock.id ≠ symbol.id ∧ clock'.id ≠ symbol'.id) (binding binding' : Binding) :
    ((Scope.empty none).bind clock binding).MovedTo move
      ((Scope.empty none).bind clock' binding') := by
  refine ⟨rfl, fun symbol symbol' shared => ?_⟩
  obtain ⟨other, other'⟩ := apart symbol symbol' shared
  unfold Scope.find?
  rw [Scope.bind_getElem?, Scope.bind_getElem?, if_neg other, if_neg other']
  exact (Scope.MovedTo.empty none).bindings symbol symbol' shared

/-- New globals, in a heap with nothing else and behind all that a heap holds. -/
theorem renewedHeap_moved {move : Relocation} {heap : Heap} {scope scope' : Scope}
    (scopes : move.scopes = heap.scopes.size)
    (collections : move.collections = heap.collections.size)
    (functions : move.functions = heap.functions.size) (globals : scope.MovedTo move scope')
    (outermost : scope.parent = none) :
    ((Heap.empty.addFunction .clock).addScope scope).MovedTo move
      ((heap.addFunction .clock).addScope scope') := by
  refine ⟨?_, ?_, ?_, ⟨?_, ?_, ?_, Nat.zero_lt_one⟩⟩
  · rw [scopes]
    exact (MovedArray.empty heap.scopes).push globals
  · rw [collections]
    exact MovedArray.empty heap.collections
  · rw [functions]
    exact (MovedArray.empty heap.functions).push .clock
  · intro id only found parent isParent
    obtain rfl : only = scope := by
      rw [Heap.addScope_getElem?] at found
      split at found
      · exact (Option.some.inj found).symm
      · simp [Heap.addFunction, Heap.empty] at found
    rw [outermost] at isParent
    cases isParent
  · intro id name parameters body closed found
    have found : #[Function.clock][id]? = some (.closure name parameters body closed) := found
    rw [Array.getElem?_singleton] at found
    split at found <;> cases found
  · intro id found
    have found : #[Function.clock][id]? = some .clock := found
    rw [Array.getElem?_singleton] at found
    split at found
    next isFirst => exact isFirst
    next => cases found

theorem start_lawful (clock : Clock) : (Session.start clock).symbols.Lawful :=
  SymbolTable.initial_lawful.intern Session.clockName

theorem reset_lawful {session : Session} (symbols : session.symbols.Lawful) :
    session.reset.symbols.Lawful :=
  symbols.intern Session.clockName

/-- **A reset leaves nothing but numbers.** A session after a reset is a new one
behind what it made before. -/
theorem reset_moved {session : Session} (symbols : session.symbols.Lawful) (clock : Clock)
    {final final' : SymbolTable} (lawful : final.Lawful) (lawful' : final'.Lawful)
    (known : (Session.start clock).symbols.Extends final)
    (known' : session.reset.symbols.Extends final') :
    Session.MovedTo (session.renewal final final')
      ((Session.start clock).limitOutput session.machine.output.room) session.reset := by
  have number := known.number _ _ (SymbolTable.intern_found SymbolTable.initial Session.clockName)
  have number' := known'.number _ _ (SymbolTable.intern_found session.symbols Session.clockName)
  have apart : ∀ symbol symbol', (session.renewal final final').symbols symbol symbol' →
      (SymbolTable.initial.intern Session.clockName).1.id ≠ symbol.id ∧
        (session.symbols.intern Session.clockName).1.id ≠ symbol'.id := by
    intro symbol symbol' shared
    have shared : final.Ordinary final' symbol symbol' := shared
    constructor
    · intro same
      exact shared.named (lawful.oneToOne.injective shared.found (same ▸ number))
    · intro same
      exact shared.named (lawful'.oneToOne.injective shared.found' (same ▸ number'))
  have scope : session.machine.heap.scopes.size = 0 + session.machine.heap.scopes.size :=
    (Nat.zero_add _).symm
  refine ⟨⟨?_, scope, Nat.zero_lt_one, scope, Nat.zero_lt_one, rfl, ?_⟩,
    start_lawful clock, reset_lawful symbols⟩
  · exact renewedHeap_moved rfl rfl rfl (clockScope_moved apart _ _) rfl
  · exact ByteArray.append_empty.symm

/-- The symbol table of a session is lawful. -/
theorem Session.Reachable.symbols {session : Session} (reachable : session.Reachable) :
    session.symbols.Lawful := by
  induction reachable with
  | start clock => exact start_lawful clock
  | eval before ends inductionHypothesis =>
      rw [Session.eval?_eq] at ends
      rw [(record?_eq_some.mp ends).1.symbols]
      exact scan_lawful inductionHypothesis _
  | reset before inductionHypothesis => exact reset_lawful inductionHypothesis
  | takeDiagnostics before inductionHypothesis => exact inductionHypothesis
  | takeOutput before inductionHypothesis => exact inductionHypothesis
  | limitOutput before room inductionHypothesis => exact inductionHypothesis
  | setClock before clock inductionHypothesis => exact inductionHypothesis

/-- A session that was reset shows what a new one shows. -/
theorem reset_transcript? {session : Session} (symbols : session.symbols.Lawful) (clock : Clock)
    (fuel : Nat) (coins coins' : Nat → Nat → Bool) {sources : List String}
    (plain : ∀ source ∈ sources, Plain source) :
    session.reset.transcript? fuel coins sources =
      ((Session.start clock).limitOutput session.machine.output.room).transcript? fuel coins'
        sources := by
  have final := (start_lawful clock).after sources
  have final' := (reset_lawful symbols).after sources
  have moved := reset_moved symbols clock final final' (SymbolTable.after_extends _ _)
    (SymbolTable.after_extends _ _)
  exact (transcript?_moved final final' rfl moved fuel coins' coins plain (.refl _)
    (.refl _)).symm

end Scriptlet
