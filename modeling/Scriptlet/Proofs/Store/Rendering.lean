import Scriptlet.Proofs.Store.Written
import Scriptlet.Run.Machine

/-!
Contract: a value written piece by piece, with a stack of the collections that are being
written.

What is written to may refuse a piece, and then nothing more is written. A collection is
on the stack while its entries are written, and is taken from it again whatever came of
them. The collections on the stack are written as dots.

Owns: `writeAll`; `Heap.render`; that the stack is afterwards what it was, and that the
pieces make up the text that is displayed (`Heap.render_emits`); that a print does with an
output what its pieces do (`Run.print_eq_pieces`); and the main statement
`display_elides_circles`.

Does not own: what the text of a value is (`Scriptlet.Proofs.Store.Written`).

## Why pieces are kept as a list

Where an output refuses depends on where a text is cut. The pieces do not depend on the
output, so one list of them serves for all outputs.
-/

set_option autoImplicit false

namespace Scriptlet

/-! ## Pieces -/

/-- Writes texts in order until one is refused: whether all were taken, and what has become
of what is written to. -/
def writeAll {σ : Type} (write : σ → String → Bool × σ) : List String → σ → Bool × σ
  | [], sink => (true, sink)
  | text :: rest, sink =>
      match write sink text with
      | (true, sink) => writeAll write rest sink
      | (false, sink) => (false, sink)

/-- Where a value is being written to, and the collections that are being written, the
innermost first. -/
structure Rendering (σ : Type) where
  opened : List CollectionId
  sink : σ

/-- A part of the writing of a value: whether all of it was taken, and what it leaves. There
is no outcome without fuel. -/
def Render (σ : Type) : Type :=
  Rendering σ → Option (Bool × Rendering σ)

section Parts

variable {σ : Type} (write : σ → String → Bool × σ)

namespace Render

def put (text : String) : Render σ :=
  fun before =>
    let (taken, sink) := write before.sink text
    some (taken, { before with sink })

/-- The second part is written only if all of the first was taken. -/
def andThen (first second : Render σ) : Render σ :=
  fun before =>
    match first before with
    | some (true, between) => second between
    | outcome => outcome

/-- Writes the inside of a collection. -/
def inside (id : CollectionId) (inner : Render σ) : Render σ :=
  fun before =>
    (inner { before with opened := id :: before.opened }).map fun (taken, after) =>
      (taken, { after with opened := after.opened.tail })

def entry (value : Value → Render σ) (numbered : Nat × Value) : Render σ :=
  (put write numbered.1.repr).andThen
    ((put write ": ").andThen ((value numbered.2).andThen (put write ",")))

/-- Entries with a blank before all but the first. -/
def further (value : Value → Render σ) : List (Nat × Value) → Render σ
  | [] => fun before => some (true, before)
  | first :: rest =>
      ((put write " ").andThen (entry write value first)).andThen (further value rest)

def entries (value : Value → Render σ) : List (Nat × Value) → Render σ
  | [] => fun before => some (true, before)
  | first :: rest => (entry write value first).andThen (further write value rest)

/-- A collection in its brackets. -/
def bracketed (c : Collection) (inner : Render σ) : Render σ :=
  (put write (if c.mutable then "[" else "(")).andThen
    (inner.andThen (put write (if c.mutable then "]" else ")")))

/-- A collection, with dots for what is in it if it is being written already. -/
def collection (id : CollectionId) (c : Collection) (value : Value → Render σ) : Render σ :=
  fun before =>
    if id ∈ before.opened then bracketed write c (put write "...") before
    else inside id (bracketed write c (entries write value c.entries.toList)) before

end Render

/-- Writes a value. -/
def Heap.render (heap : Heap) : Nat → Value → Render σ
  | 0, _ => fun _ => none
  | fuel + 1, value =>
      match value, heap.collection? value with
      | .collection id, some c => Render.collection write id c (heap.render fuel)
      | _, _ => Render.put write (heap.plainText value)

theorem Heap.render_plain {heap : Heap} {value : Value}
    (noCollection : heap.collection? value = none) (fuel : Nat) :
    heap.render write (fuel + 1) value = .put write (heap.plainText value) := by
  unfold Heap.render
  simp only [noCollection]

theorem Heap.render_collection {heap : Heap} {id : CollectionId} {c : Collection}
    (found : heap.collections[id]? = some c) (fuel : Nat) :
    heap.render write (fuel + 1) (.collection id) =
      .collection write id c (heap.render write fuel) := by
  have isCollection : heap.collection? (.collection id) = some c := found
  rw [Heap.render]
  exact isCollection

/-! ## What is written -/

/-- With these collections opened, the part writes the text in pieces as far as they are
taken, and leaves the same collections opened. -/
def Render.Emits (part : Render σ) (opened : List CollectionId) (text : String) : Prop :=
  ∃ pieces, String.join pieces = text ∧ ∀ sink, part ⟨opened, sink⟩ =
    some ((writeAll write pieces sink).1, ⟨opened, (writeAll write pieces sink).2⟩)

theorem writeAll_append (first second : List String) (sink : σ) :
    writeAll write (first ++ second) sink =
      match writeAll write first sink with
      | (true, sink) => writeAll write second sink
      | (false, sink) => (false, sink) := by
  induction first generalizing sink with
  | nil => rfl
  | cons text rest inductionHypothesis =>
      rw [List.cons_append, writeAll, writeAll]
      rcases write sink text with ⟨_ | _, sink⟩
      · rfl
      · exact inductionHypothesis sink

namespace Render.Emits

variable {write} {opened : List CollectionId}

/-- It is enough to do the same where these collections are opened. -/
theorem congr {part same : Render σ} {text : String} (emits : Emits write same opened text)
    (agrees : ∀ sink, part ⟨opened, sink⟩ = same ⟨opened, sink⟩) :
    Emits write part opened text := by
  obtain ⟨pieces, isText, wrote⟩ := emits
  exact ⟨pieces, isText, fun sink => (agrees sink).trans (wrote sink)⟩

theorem nothing : Emits write (fun before => some (true, before)) opened "" :=
  ⟨[], rfl, fun _ => rfl⟩

theorem put (text : String) : Emits write (.put write text) opened text := by
  refine ⟨[text], by simp [String.join_cons], fun sink => ?_⟩
  unfold Render.put writeAll
  dsimp only
  rcases write sink text with ⟨_ | _, sink⟩ <;> rfl

theorem andThen {first second : Render σ} {text more : String} (one : Emits write first opened text)
    (other : Emits write second opened more) :
    Emits write (first.andThen second) opened (text ++ more) := by
  obtain ⟨pieces, rfl, wrote⟩ := one
  obtain ⟨others, rfl, wroteMore⟩ := other
  refine ⟨pieces ++ others, String.join_append, fun sink => ?_⟩
  unfold Render.andThen
  rw [wrote, writeAll_append]
  rcases writeAll write pieces sink with ⟨_ | _, between⟩
  · rfl
  · exact wroteMore between

/-- Closing a collection leaves opened what was opened before it. -/
theorem inside {id : CollectionId} {inner : Render σ} {text : String}
    (emits : Emits write inner (id :: opened) text) :
    Emits write (.inside id inner) opened text := by
  obtain ⟨pieces, isText, wrote⟩ := emits
  refine ⟨pieces, isText, fun sink => ?_⟩
  unfold Render.inside
  rw [wrote]
  rfl

theorem bracketed {inner : Render σ} {text : String} (inside : Emits write inner opened text)
    (c : Collection) :
    Emits write (.bracketed write c inner) opened (c.bracketed text) := by
  have brackets : c.bracketed text =
      (if c.mutable then "[" else "(") ++ (text ++ (if c.mutable then "]" else ")")) := by
    unfold Collection.bracketed
    cases c.mutable <;> simp [String.append_assoc]
  rw [brackets]
  exact (put _).andThen (inside.andThen (put _))

section Entries

variable {value : Value → Render σ} {valueText : Value → String}

/-- The text of an entry. -/
def entryText (valueText : Value → String) (numbered : Nat × Value) : String :=
  numbered.1.repr ++ ": " ++ valueText numbered.2 ++ ","

theorem entry (one : ∀ v, Emits write (value v) opened (valueText v)) (numbered : Nat × Value) :
    Emits write (.entry write value numbered) opened (entryText valueText numbered) := by
  unfold entryText
  rw [String.append_assoc, String.append_assoc]
  exact (put _).andThen ((put _).andThen ((one _).andThen (put _)))

theorem further (one : ∀ v, Emits write (value v) opened (valueText v))
    (list : List (Nat × Value)) :
    Emits write (.further write value list) opened
      (String.join (list.map fun numbered => " " ++ entryText valueText numbered)) := by
  induction list with
  | nil => exact nothing
  | cons first rest inductionHypothesis =>
      rw [List.map_cons, String.join_cons]
      exact ((put _).andThen (entry one first)).andThen inductionHypothesis

theorem intercalate_eq (first : String) (rest : List String) :
    " ".intercalate (first :: rest) = first ++ String.join (rest.map (" " ++ ·)) := by
  induction rest generalizing first with
  | nil => simp
  | cons second rest inductionHypothesis =>
      rw [String.intercalate_cons_cons, inductionHypothesis, List.map_cons, String.join_cons]
      simp [String.append_assoc]

theorem entries (one : ∀ v, Emits write (value v) opened (valueText v))
    (list : List (Nat × Value)) :
    Emits write (.entries write value list) opened
      (" ".intercalate (list.map (entryText valueText))) := by
  cases list with
  | nil => exact nothing
  | cons first rest =>
      rw [List.map_cons, intercalate_eq, List.map_map]
      exact (entry one first).andThen (further one rest)

end Entries

section Collections

variable {id : CollectionId} {value : Value → Render σ}

theorem dots (inside : id ∈ opened) (c : Collection) :
    Emits write (.collection write id c value) opened (c.bracketed "...") :=
  (put "...").bracketed c |>.congr fun _ => if_pos inside

theorem full {valueText : Value → String} (outside : id ∉ opened) (c : Collection)
    (one : ∀ v, Emits write (value v) (id :: opened) (valueText v)) :
    Emits write (.collection write id c value) opened (c.text valueText) :=
  ((entries one c.entries.toList).bracketed c).inside.congr fun _ => if_neg outside

end Collections

end Render.Emits

/-- **Writing a value comes to an end.** The stack is then what it was, whatever was refused,
and the pieces make up the text of the value inside the collections on the stack. -/
theorem Heap.render_emits (heap : Heap) {fuel : Nat} {opened : List CollectionId}
    (deep : heap.unopened opened < fuel) (value : Value) :
    Render.Emits write (heap.render write fuel value) opened
      (heap.displayIn fuel opened value) := by
  induction fuel generalizing opened value with
  | zero => omega
  | succ fuel inductionHypothesis =>
      cases collection : heap.collection? value with
      | none =>
          rw [render_plain write collection, displayIn_plain collection]
          exact Render.Emits.put (heap.plainText value)
      | some c =>
          obtain ⟨id, rfl, found⟩ := collection?_eq_some.mp collection
          rw [render_collection write found]
          by_cases inside : id ∈ opened
          · rw [displayIn_inside found inside]
            exact .dots inside c
          · rw [displayIn_outside found inside]
            have fewer := unopened_cons found inside
            exact .full inside c fun entry => inductionHypothesis (by omega) entry

end Parts

/-! ## Prints -/

namespace Output

/-- Takes a text as far as there is room. -/
def take (output : Output) (text : String) : Bool × Output :=
  (output.fits text, output.write text)

theorem take_empty (output : Output) : output.take "" = (true, output) := by
  obtain ⟨written, room⟩ := output
  have nothing : ∀ room, ByteArray.empty.extract 0 room = ByteArray.empty := fun room => by
    rw [ByteArray.extract_eq_empty_iff, ByteArray.size_empty, Nat.min_zero]
  cases room <;> simp [take, fits, write, nothing]

/-- What is behind a text that fits is taken as if it came with it. -/
theorem take_append {output : Output} {text : String} (fits : output.fits text = true)
    (more : String) : (output.write text).take more = output.take (text ++ more) := by
  obtain ⟨written, room⟩ := output
  cases room with
  | none => simp [take, Output.fits, write, ByteArray.append_assoc]
  | some room =>
      have within : text.utf8ByteSize ≤ room := by simpa [Output.fits] using fits
      have all : text.toByteArray.extract 0 room = text.toByteArray := by
        rw [← Nat.max_eq_left within]
        exact ByteArray.extract_zero_max_size
      have fitsMore : decide (more.utf8ByteSize ≤ room - text.utf8ByteSize) =
          decide (text.utf8ByteSize + more.utf8ByteSize ≤ room) :=
        decide_eq_decide.mpr (by omega)
      simp [take, Output.fits, write, all, fitsMore, ByteArray.extract_append,
        ByteArray.append_assoc, Nat.sub_add_eq]

theorem take_append_of_not_fits {output : Output} {text : String}
    (overflows : output.fits text = false) (more : String) :
    output.take (text ++ more) = output.take text := by
  obtain ⟨written, room⟩ := output
  cases room with
  | none => cases overflows
  | some room =>
      have beyond : room < text.utf8ByteSize := by simpa [Output.fits] using overflows
      have fitsNot : ¬ text.utf8ByteSize + more.utf8ByteSize ≤ room := by omega
      have noRoom : room - text.utf8ByteSize = 0 := by omega
      simp [take, Output.fits, write, beyond, fitsNot, noRoom, ByteArray.extract_append,
        Nat.sub_add_eq]

/-- An output takes pieces as it takes all of them at once. -/
theorem writeAll_take (pieces : List String) (output : Output) :
    writeAll take pieces output = output.take (String.join pieces) := by
  induction pieces generalizing output with
  | nil => exact output.take_empty.symm
  | cons text rest inductionHypothesis =>
      rw [String.join_cons]
      cases fits : output.fits text with
      | true =>
          have taken : output.take text = (true, output.write text) := by rw [take, fits]
          rw [writeAll, taken]
          exact (inductionHypothesis (output.write text)).trans (take_append fits _)
      | false =>
          have refused : output.take text = (false, output.write text) := by rw [take, fits]
          rw [writeAll, refused, take_append_of_not_fits fits, refused]

end Output

/-- Prints a value piece by piece, and then ends the line. -/
def Run.printPieces (value : Value) : Run Unit :=
  fun machine =>
    let fuel := machine.heap.collections.size + 1
    let line := (machine.heap.render Output.take fuel value).andThen (.put Output.take "\n")
    match line ⟨[], machine.output⟩ with
    | some (true, after) => .done () { machine with output := after.sink }
    | some (false, after) => .aborted .outputFull { machine with output := after.sink }
    | none => .exhausted

/-- A print writes the pieces of the value, as far as there is room. -/
theorem Run.print_eq_pieces (value : Value) : Run.print value = Run.printPieces value := by
  funext machine
  have written := machine.heap.render_emits Output.take
    (Nat.lt_succ_of_le (machine.heap.unopened_le [])) value
  have ended : Render.Emits Output.take (.put Output.take "\n") [] "\n" := .put "\n"
  obtain ⟨pieces, isLine, wrote⟩ := written.andThen ended
  have isText : String.join pieces = machine.heap.display value ++ "\n" := isLine
  unfold Run.print Run.printPieces
  dsimp only
  rw [wrote, Output.writeAll_take, isText]
  unfold Output.take
  cases machine.output.fits (machine.heap.display value ++ "\n") <;> rfl

/-! ## Main result -/

/-- However deep a text may be, it is the same, if it may be as deep as there are
collections. -/
theorem Heap.displayIn_eq_display (heap : Heap) {depth : Nat}
    (deep : heap.collections.size < depth) (value : Value) :
    heap.displayIn depth [] value = heap.display value := by
  refine (heap.writes_iff value _).mp (displayIn_writes rfl (fun id => ?_) ?_)
  · exact iff_of_false List.not_mem_nil not_earlier_nil
  · exact Nat.lt_of_le_of_lt (heap.unopened_le []) deep

/-- **Displaying a value leaves out exactly what is in circles.** The text of a value is the
one in which an occurrence of a collection is dots if the collection occurs earlier on its
path, and in full otherwise; without circles nothing is dots. It is written piece by piece,
and this ends with the stack as it was, whatever is opened already and whatever is refused.
A print does the same with what is left of its output. -/
theorem display_elides_circles (heap : Heap) (value : Value) :
    (∀ text, heap.Writes value [] text ↔ text = heap.display value) ∧
      (heap.Acyclic value → ∀ text, heap.Spells value text ↔ text = heap.display value) ∧
      (∀ {σ : Type} (write : σ → String → Bool × σ) (fuel : Nat), heap.collections.size < fuel →
        (∀ opened sink, ∃ taken after,
          heap.render write fuel value ⟨opened, sink⟩ = some (taken, ⟨opened, after⟩)) ∧
        ∃ pieces, String.join pieces = heap.display value ∧ ∀ sink,
          heap.render write fuel value ⟨[], sink⟩ =
            some ((writeAll write pieces sink).1, ⟨[], (writeAll write pieces sink).2⟩)) ∧
      Run.print value = Run.printPieces value := by
  refine ⟨heap.writes_iff value, Heap.spells_iff, fun write fuel enough => ⟨?_, ?_⟩,
    Run.print_eq_pieces value⟩
  · intro opened sink
    have deep := Nat.lt_of_le_of_lt (heap.unopened_le opened) enough
    obtain ⟨pieces, -, wrote⟩ := heap.render_emits write deep value
    exact ⟨_, _, wrote sink⟩
  · have deep := Nat.lt_of_le_of_lt (heap.unopened_le []) enough
    obtain ⟨pieces, isText, wrote⟩ := heap.render_emits write deep value
    exact ⟨pieces, isText.trans (heap.displayIn_eq_display enough value), wrote⟩

/-- A tuple that holds an array twice. -/
def sharing : Heap :=
  { Heap.empty with
    collections := #[.ofList [.nil] true, .ofList [.collection 0, .collection 0] false] }

/-- An array inside a tuple that is inside the array. -/
def knotted : Heap :=
  { Heap.empty with
    collections := #[.ofList [.nil, .collection 1] true, .ofList [.collection 0] false] }

theorem sharing_holdsOlder : sharing.HoldsOlder := by
  intro id c index other found entry
  match id with
  | 0 =>
      cases found
      have listed := (Collection.get?_ofList [.nil] true index).symm.trans entry
      match index with
      | 0 => cases listed
      | index + 1 => cases listed
  | 1 =>
      cases found
      have listed :=
        (Collection.get?_ofList [.collection 0, .collection 0] false index).symm.trans entry
      match index with
      | 0 | 1 =>
          cases listed
          exact Nat.one_pos
      | index + 2 => cases listed
  | id + 2 => cases found

/-- What is only shared is written out. What is inside itself is dots there, and with nothing
more taken than its bracket, nothing stays opened. -/
theorem sharing_and_knotted_displayed :
    (∀ text, sharing.Spells (.collection 1) text ↔
        text = "(0: [0: nil,], 1: [0: nil,],)") ∧
      (∀ text, knotted.Writes (.collection 0) [] text ↔ text = "[0: nil, 1: (0: [...],),]") ∧
      ∃ taken after, knotted.render (fun written text => (written == "", written ++ text)) 3
        (.collection 0) ⟨[], ""⟩ = some (taken, ⟨[], after⟩) := by
  have shared : sharing.display (.collection 1) = "(0: [0: nil,], 1: [0: nil,],)" := by
    decide +kernel
  have inCircle : knotted.display (.collection 0) = "[0: nil, 1: (0: [...],),]" := by
    decide +kernel
  obtain ⟨-, spelled, -⟩ := display_elides_circles sharing (.collection 1)
  obtain ⟨written, -, rendered, -⟩ := display_elides_circles knotted (.collection 0)
  rw [shared] at spelled
  rw [inCircle] at written
  refine ⟨spelled (sharing_holdsOlder.acyclic _), written, ?_⟩
  exact (rendered _ 3 (by decide)).1 [] ""

end Scriptlet
