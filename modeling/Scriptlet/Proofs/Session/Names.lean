import Scriptlet.Proofs.Run.Named
import Scriptlet.Proofs.Session.Sound
import Scriptlet.Proofs.Store.Spacers

/-!
Contract: symbols and names over a whole session.

Symbols are requested by the scanner, for the words of a source; for the clock, whenever
globals are made; and by anyone else who has the table, at any time between evaluations.

Owns: `Session.Asked`, the sessions that operations and requests lead to, each with the log
of all requests; `Session.Interning`, the invariant of such a session; and the main
statement `symbols_stand_for_names`.

Does not own: what one table answers (`Scriptlet.Proofs.Lexical.Answers`), and lookups in
scopes (`Scriptlet.Proofs.Run.Named`).

## Why the invariant is about heaps as well

That symbols stand for names is a matter of the table alone. But a name is looked up in a
scope that an earlier source has filled, so that all numbers in scopes, and all symbols in
the code of functions, have to come from the same table.
-/

set_option autoImplicit false

namespace Scriptlet

/-- The session after a symbol has been requested. -/
def Session.request (session : Session) (name : String) : Session :=
  { session with symbols := (session.symbols.intern name).2 }

/-- Where the evaluation of a source begins. -/
def Session.beginning (coin : Nat → Bool) (session : Session) (source : String) : Point :=
  ⟨.program (session.read coin source).program,
    { session.machine with current := session.machine.globals }⟩

/-- The log after a source has been scanned. -/
def Session.logWith (session : Session) (log : List Answer) (source : String) : List Answer :=
  log ++ session.symbols.answers (words source)

/-- The sessions that operations and requests lead to, from a new one, with all requests
made so far. The coins for a source fall as they may. -/
inductive Session.Asked : List Answer → Session → Prop where
  | start (clock : Clock) :
      Session.Asked (SymbolTable.empty.answers (Kind.reservedWords.map (·.1)) ++
        SymbolTable.initial.answers [clockName]) (.start clock)
  | request {log : List Answer} {session : Session} (before : session.Asked log) (name : String) :
      Session.Asked (log ++ session.symbols.answers [name]) (session.request name)
  | eval {log : List Answer} {session : Session} {fuel : Nat} {coin : Nat → Bool}
      {source : String} {evaluation : Evaluation} (before : session.Asked log)
      (ends : session.eval? fuel coin source = some evaluation) :
      Session.Asked (session.logWith log source) evaluation.session
  | reset {log : List Answer} {session : Session} (before : session.Asked log) :
      Session.Asked (log ++ session.symbols.answers [clockName]) session.reset
  | takeDiagnostics {log : List Answer} {session : Session} (before : session.Asked log) :
      Session.Asked log session.takeDiagnostics.2
  | takeOutput {log : List Answer} {session : Session} (before : session.Asked log) :
      Session.Asked log session.takeOutput.2
  | limitOutput {log : List Answer} {session : Session} (before : session.Asked log)
      (room : Option Nat) : Session.Asked log (session.limitOutput room)
  | setClock {log : List Answer} {session : Session} (before : session.Asked log)
      (clock : Clock) : Session.Asked log (session.setClock clock)

/-- All symbols there are come from the table of the session. -/
structure Session.Interning (log : List Answer) (session : Session) : Prop where
  lawful : session.symbols.Lawful
  answered : session.symbols.Answered log
  sound : session.machine.Sound
  heap : session.machine.heap.Interned (Returned log)

/-! ## Symbols of a source -/

section Sources

variable {log more : List Answer}

theorem Returned.append_left {symbol : Symbol} (returned : Returned log symbol)
    (more : List Answer) : Returned (log ++ more) symbol := by
  obtain ⟨answer, inside, isAnswer⟩ := returned
  exact ⟨answer, List.mem_append_left more inside, isAnswer⟩

theorem Returned.append_right {symbol : Symbol} (returned : Returned more symbol)
    (log : List Answer) : Returned (log ++ more) symbol := by
  obtain ⟨answer, inside, isAnswer⟩ := returned
  exact ⟨answer, List.mem_append_right log inside, isAnswer⟩

theorem SymbolTable.identifiers_returned (table : SymbolTable) (names : List String) :
    ∀ symbol ∈ table.identifiers names, Returned (table.answers names) symbol := by
  intro symbol inside
  exact List.mem_map.mp (List.mem_filter.mp inside).1

/-- A token is like itself, if it carries a known symbol or none. -/
theorem Token.alike_within {known : Symbol → Prop} {token : Token}
    (carries : ∀ symbol, token.symbol? = some symbol → known symbol) :
    token.Alike ⟨Symbol.Within known, True⟩ token := by
  refine ⟨rfl, rfl, rfl, ?_, fun _ => trivial⟩
  unfold Token.symbol? at carries
  generalize token.literal = literal at carries
  rcases literal with _ | ⟨value | value | symbol⟩
  · exact .none
  · exact .some (.number value)
  · exact .some (.text value)
  · exact .some (.identifier ⟨rfl, carries symbol rfl⟩)

/-- What is read from a source uses the symbols that the scanner has requested for it. -/
theorem read_within (coin : Nat → Bool) (session : Session) (source : String)
    (log : List Answer) : ∀ s ∈ (session.read coin source).program,
      s.Alike (Symbol.Within (Returned (session.logWith log source))) s := by
  have tokens : TokensAlike ⟨Symbol.Within (Returned (session.logWith log source)), True⟩
      (scan session.symbols source).tokens (scan session.symbols source).tokens := by
    refine List.forall₂_same.mpr fun token inside => Token.alike_within fun symbol carried => ?_
    have isIdentifier : symbol ∈ session.symbols.identifiers (words source) := by
      rw [← scan_identifiers]
      exact List.mem_filterMap.mpr ⟨token, inside, carried⟩
    have returned := SymbolTable.identifiers_returned _ _ symbol isIdentifier
    exact returned.append_right log
  exact List.forall₂_same.mp (Grammar.parse_alike _ (fun _ => rfl) tokens).program

end Sources

/-! ## Sessions -/

namespace Session.Interning

/-- New globals, with a symbol for the clock. -/
theorem renew {log : List Answer} {table : SymbolTable} (lawful : table.Lawful)
    (answered : table.Answered log) {machine : Machine} (sound : machine.heap.Sound)
    (interned : machine.heap.Interned (Returned log)) (name : String)
    (pending : List Diagnostic) :
    Session.Interning (log ++ table.answers [name])
      ⟨(table.intern name).2, pending, machine.renewGlobals (table.intern name).1⟩ where
  lawful := lawful.intern name
  answered := answered.internAll [name]
  sound := Machine.renewGlobals_sound sound _
  heap := by
    have isKnown : Returned (log ++ table.answers [name]) (table.intern name).1 :=
      ⟨_, List.mem_append_right log List.mem_cons_self, rfl⟩
    have clock : Function.clock.Interned (Returned (log ++ table.answers [name])) := trivial
    have earlier := interned.mono fun _ returned => returned.append_left (table.answers [name])
    exact (earlier.addFunction clock).addScope ((Scope.Interned.empty none).bind isKnown _)

variable {log : List Answer} {session : Session} (interning : session.Interning log)
include interning

/-- The table after a source has been scanned. -/
theorem scanned (source : String) :
    (scan session.symbols source).symbols.Lawful ∧
      (scan session.symbols source).symbols.Answered (session.logWith log source) := by
  refine ⟨scan_lawful interning.lawful source, ?_⟩
  rw [scan_requests]
  exact interning.answered.internAll _

theorem request (name : String) :
    (session.request name).Interning (log ++ session.symbols.answers [name]) where
  lawful := interning.lawful.intern name
  answered := interning.answered.internAll [name]
  sound := interning.sound
  heap := interning.heap.mono fun _ returned => returned.append_left _

/-- The machine and what runs on it, at all points of an evaluation. -/
theorem during {coin : Nat → Bool} {source : String} {point : Point}
    (comes : (session.beginning coin source).ComesTo point) :
    point.Alone (Symbol.Within (Returned (session.logWith log source)))
        (fun machine => machine.heap.Interned (Returned (session.logWith log source))) ∧
      point.machine.Sound := by
  have entered : (session.beginning coin source).machine.Sound :=
    (Machine.Step.leave interning.sound.globals).sound interning.sound
  refine ⟨comes.alone interned_keeps ⟨read_within coin session source log, ?_⟩, ?_⟩
  · exact interning.heap.mono fun _ returned => returned.append_left _
  · exact (comes.reaches entered).sound entered

theorem eval {fuel : Nat} {coin : Nat → Bool} {source : String} {evaluation : Evaluation}
    (ends : session.eval? fuel coin source = some evaluation) :
    evaluation.session.Interning (session.logWith log source) := by
  have scanned := interning.scanned source
  have reaches := Outcome.Leaves.evaluation (eval?_stepped interning.sound ends).leaves
  have leaves := interpret_alone interned_keeps fuel (read_within coin session source log)
    (interning.heap.mono fun _ returned => returned.append_left _)
  rw [Session.eval?_eq] at ends
  obtain ⟨follows, outcome⟩ := record?_eq_some.mp ends
  have symbols : evaluation.session.symbols = (scan session.symbols source).symbols :=
    follows.symbols
  rw [← symbols] at scanned
  rw [outcome] at leaves
  exact ⟨scanned.1, scanned.2, reaches.sound interning.sound, leaves.evaluation.1⟩

/-- A change of the machine that leaves the heap as it is. -/
theorem of_step {after : Session} (symbols : after.symbols = session.symbols)
    (step : session.machine.Step after.machine) (heap : after.machine.heap = session.machine.heap) :
    after.Interning log where
  lawful := symbols ▸ interning.lawful
  answered := symbols ▸ interning.answered
  sound := step.sound interning.sound
  heap := heap ▸ interning.heap

end Session.Interning

/-- All symbols come from the table, whatever has been done. -/
theorem Session.Asked.interning {log : List Answer} {session : Session}
    (asked : session.Asked log) : session.Interning log := by
  induction asked with
  | start clock =>
      have nothing : (Machine.unstarted clock).heap.Interned
          (Returned (SymbolTable.empty.answers (Kind.reservedWords.map (·.1)))) :=
        ⟨fun id scope found => by simp [Machine.unstarted, Heap.empty] at found,
          fun id function found => by simp [Machine.unstarted, Heap.empty] at found⟩
      exact .renew SymbolTable.initial_lawful SymbolTable.initial_answered Heap.Sound.empty nothing
        clockName []
  | request before name inductionHypothesis => exact inductionHypothesis.request name
  | eval before ends inductionHypothesis => exact inductionHypothesis.eval ends
  | reset before inductionHypothesis =>
      exact .renew inductionHypothesis.lawful inductionHypothesis.answered
        inductionHypothesis.sound.heap inductionHypothesis.heap clockName _
  | takeDiagnostics before inductionHypothesis =>
      obtain ⟨lawful, answered, sound, heap⟩ := inductionHypothesis
      exact ⟨lawful, answered, sound, heap⟩
  | takeOutput before inductionHypothesis => exact inductionHypothesis.of_step rfl (.output _) rfl
  | limitOutput before room inductionHypothesis =>
      exact inductionHypothesis.of_step rfl (.output _) rfl
  | setClock before clock inductionHypothesis =>
      exact inductionHypothesis.of_step rfl (.clock _) rfl

/-- **Symbols stand for names.** Whatever is requested of a table that has only the reserved
words, its symbols stand for the names they were requested for. So they do in every session,
however requests, scans, evaluations and resets take turns. Each source is read with the
symbols for its words; and wherever its evaluation comes to, however the coins for it fall,
no other symbols are in scopes or in what is run, and each finds what its name would. -/
theorem symbols_stand_for_names :
    (∀ names : List String, (SymbolTable.initial.internAll names).Faithful
      (SymbolTable.empty.answers (Kind.reservedWords.map (·.1)) ++
        SymbolTable.initial.answers names)) ∧
    ∀ (log : List Answer) (session : Session), session.Asked log →
      session.symbols.Faithful log ∧ session.machine.FindsNames session.symbols log ∧
      ∀ source : String,
        (scan session.symbols source).symbols.Faithful (session.logWith log source) ∧
        (scan session.symbols source).tokens.filterMap Token.symbol? =
          session.symbols.identifiers (words source) ∧
        ∀ (coin : Nat → Bool) (point : Point), (session.beginning coin source).ComesTo point →
          point.phrase.Allowed (Symbol.Within (Returned (session.logWith log source))) ∧
          point.machine.FindsNames (scan session.symbols source).symbols
            (session.logWith log source) := by
  constructor
  · intro names
    have answered := SymbolTable.initial_answered.internAll names
    exact (SymbolTable.initial_lawful.internAll names).faithful answered
  · intro log session asked
    have interning := asked.interning
    refine ⟨interning.lawful.faithful interning.answered, ?_, fun source => ?_⟩
    · exact interning.heap.findsNames interning.lawful interning.answered
        interning.sound.heap.chained
    · obtain ⟨lawful, answered⟩ := interning.scanned source
      refine ⟨lawful.faithful answered, scan_identifiers _ _, fun coin point comes => ?_⟩
      obtain ⟨alone, sound⟩ := interning.during comes
      exact ⟨alone.phrase, alone.machine.findsNames lawful answered sound.heap.chained⟩

/-- `x` is bound, forgotten, and bound again, under the symbol that was requested for it in
between. In the new global scope it is found by this symbol, and by its name. -/
theorem rebound_stands_for_name :
    ∃ first, Session.blank.eval? 9 heads "var x = false;" = some first ∧
      ∃ second, (first.session.request "x").reset.eval? 9 heads "var x = true; var y = x;" =
          some second ∧
        (first.session.symbols.intern "x").1 = (second.session.symbols.intern "x").1 ∧
        (first.session.symbols.intern "x").1.id ≠ (second.session.symbols.intern "y").1.id ∧
        second.session.symbols.reserved? (first.session.symbols.intern "x").1 = none ∧
        ∃ scope binding, second.session.machine.heap.scopes[1]? = some scope ∧
          scope.findNamed? second.session.symbols "x" = some binding ∧
          binding.value.any (·.same (.bool true)) = true := by
  have shape : (Session.blank.eval? 9 heads "var x = false;").any (fun first : Evaluation =>
      ((first.session.request "x").reset.eval? 9 heads "var x = true; var y = x;").any
        (fun second : Evaluation => second.session.machine.heap.scopes[1]?.any (fun scope =>
          (scope.find? (first.session.symbols.intern "x").1).any
            (·.value.any (·.same (.bool true)))))) = true := by
    decide +kernel
  obtain ⟨first, begins, shape⟩ := (Option.any_eq_true _ _).mp shape
  obtain ⟨second, ends, shape⟩ := (Option.any_eq_true _ _).mp shape
  obtain ⟨scope, isScope, shape⟩ := (Option.any_eq_true _ _).mp shape
  obtain ⟨binding, bound, isTrue⟩ := (Option.any_eq_true _ _).mp shape
  let x : Answer := ⟨"x", (first.session.symbols.intern "x").1⟩
  let y : Answer := ⟨"y", (second.session.symbols.intern "y").1⟩
  obtain ⟨log, asked, isX⟩ : ∃ log, second.session.Asked log ∧ x ∈ log :=
    ⟨_, .eval (.reset (.request (.eval (.start _) begins) "x")) ends,
      by simp [x, Session.logWith, SymbolTable.answers]⟩
  obtain ⟨faithful, finds, -⟩ := symbols_stand_for_names.2 log second.session asked
  obtain ⟨later, -⟩ := symbols_stand_for_names.2 _ _ (asked.request "y")
  refine ⟨first, begins, second, ends, ?_, ?_, faithful.reserved x isX, scope, binding, isScope,
    ?_, isTrue⟩
  · exact (congrArg Prod.fst (faithful.again x isX)).symm
  · have apart := later.same_iff x (List.mem_append_left _ isX) y
      (List.mem_append_right _ List.mem_cons_self)
    have differ : x.name ≠ y.name := by simp [x, y]
    exact fun same => differ (apart.mp same)
  · rw [← bound]
    exact (finds.inScope x isX 1 scope isScope).symm

end Scriptlet
