import Scriptlet.Proofs.Run.Course
import Scriptlet.Proofs.Store.Written
import Scriptlet.Shell.Prompt

/-!
Contract: the text of strings and numbers, wherever a program makes a text of them.

A value is shown by templates, by prints, as an entry of a collection and at the prompt. An
operator joins strings and numbers to a text. Both write the same digits of a number. Only
infinite numbers are not spelled the same: they are shown as `Infinity` and joined as `inf`.

Owns: `Value.shownText` and `Value.joinedText`; that these are the texts in all those places;
and the main statement `texts_agree_iff_finite`.

Does not own: the digits of a number (`Scriptlet.Number.Text`).
-/

set_option autoImplicit false

namespace Scriptlet

/-! ## Numbers -/

namespace Number

def IsInfinite (x : Float) : Prop :=
  ∃ negative, parts x = .infinite negative

/-- The word for infinity is for infinite numbers only. -/
theorem text_eq_iff {word other : String} (differ : word ≠ other) (x : Float) :
    text word x = text other x ↔ ¬ IsInfinite x := by
  unfold text IsInfinite
  cases parts x with
  | undefined | finite negative mantissa exponent => simp
  | infinite negative => cases negative <;> simp [differ]

theorem bareText_eq_iff (x : Float) : bareText x = displayText x ↔ ¬ IsInfinite x :=
  text_eq_iff (by decide) x

end Number

/-! ## Strings and numbers -/

namespace Value

/-- Two values of which an operator makes a text: two strings, or a string and a number. -/
inductive Joins : Value → Value → Prop where
  | strings (left right : String) : Joins (.string left) (.string right)
  | stringNumber (left : String) (right : Float) : Joins (.string left) (.number right)
  | numberString (left : Float) (right : String) : Joins (.number left) (.string right)

def IsInfinite : Value → Prop
  | .number x => Number.IsInfinite x
  | _ => False

/-- The text of a string or a number where it is joined to another one. -/
def joinedText : Value → String
  | .number x => Number.bareText x
  | .string text => text
  | _ => ""

/-- The text of a string or a number where it is shown. -/
def shownText : Value → String
  | .number x => Number.displayText x
  | .string text => text
  | _ => ""

variable {left right : Value}

theorem Joins.add (joins : left.Joins right) :
    Operator.add left right = pure (.string (left.joinedText ++ right.joinedText)) := by
  cases joins <;> rfl

theorem Joins.display (joins : left.Joins right) (heap : Heap) :
    heap.display left = left.shownText ∧ heap.display right = right.shownText := by
  cases joins <;> exact ⟨rfl, rfl⟩

/-- What is joined is what is shown, but for infinite numbers. -/
theorem Joins.joinedText_eq_iff (joins : left.Joins right) :
    left.joinedText ++ right.joinedText = left.shownText ++ right.shownText ↔
      ¬ left.IsInfinite ∧ ¬ right.IsInfinite := by
  cases joins with
  | strings left right => simp [joinedText, shownText, IsInfinite]
  | stringNumber left right =>
      simp [joinedText, shownText, IsInfinite, Number.bareText_eq_iff]
  | numberString left right =>
      simp [joinedText, shownText, IsInfinite, Number.bareText_eq_iff]

end Value

/-! ## Places -/

open Run

section Places

variable {left right : Value} {fuel : Nat} {l r : Expr} {before middle last : Machine}

theorem sum_of_joins (first : evaluate fuel l before = .done left middle)
    (second : evaluate fuel r middle = .done right last) (joins : left.Joins right) (site : Site) :
    evaluate (fuel + 1) (.binary l .add r site) before =
      .done (.string (left.joinedText ++ right.joinedText)) last := by
  rw [evaluate, bind_of_done first, bind_of_done second]
  rw [Operator.binary, joins.add]
  rfl

theorem template_of_joins (first : evaluate fuel l before = .done left middle)
    (second : evaluate fuel r middle = .done right last) (joins : left.Joins right) :
    evaluate (fuel + 1) (.template [.shown l, .shown r]) before =
      .done (.string (left.shownText ++ right.shownText)) last := by
  have shown : templateText (evaluate fuel) [.shown l, .shown r] "" before =
      .done ("" ++ middle.heap.display left ++ last.heap.display right) last := by
    rw [templateText, bind_of_done first]
    show (templateText (evaluate fuel) [.shown r] _) middle = _
    rw [templateText, bind_of_done second]
    rfl
  rw [evaluate, bind_of_done shown, (joins.display _).1, (joins.display _).2, String.empty_append]
  rfl

/-- Where there is room, a print writes the text that the machine displays. -/
theorem print_of_display {e : Expr} {value : Value} {text : String}
    (ran : evaluate fuel e before = .done value last) (unlimited : last.output.room = none)
    (displayed : last.heap.display value = text) :
    execute (fuel + 1) (.print e) before =
      .done .normal { last with output := last.output.write (text ++ "\n") } := by
  have fits : last.output.fits (last.heap.display value ++ "\n") = true := by
    rw [Output.fits, unlimited]
  have printed : Run.print value last =
      .done () { last with output := last.output.write (last.heap.display value ++ "\n") } :=
    if_pos fits
  rw [execute, bind_of_done ran, bind_of_done printed, displayed]
  rfl

/-- In the text of a collection the entries are shown. -/
theorem Value.Joins.entries (joins : left.Joins right) {heap : Heap} {id : CollectionId}
    {c : Collection} (found : heap.collections[id]? = some c)
    (only : ∀ index value, c.get? index = some value → value = left ∨ value = right) :
    heap.display (.collection id) = c.text Value.shownText := by
  have texts : c.entries.toList.map (fun entry => entry.1.repr ++ ": " ++
        heap.displayIn heap.collections.size [id] entry.2 ++ ",") =
      c.entries.toList.map fun entry => entry.1.repr ++ ": " ++ entry.2.shownText ++ "," := by
    refine List.map_congr_left fun entry member => ?_
    have shown : heap.displayIn heap.collections.size [id] entry.2 = entry.2.shownText := by
      have there := Std.TreeMap.mem_toList_iff_getElem?_eq_some.mp member
      rcases only entry.1 entry.2 there with same | same <;> rw [same] <;> cases joins <;>
        cases heap.collections.size <;> rfl
    rw [shown]
  rw [Heap.display, Heap.displayIn_outside found List.not_mem_nil]
  exact congrArg (fun list => c.bracketed (" ".intercalate list)) texts

/-- The prompt shows the values of a line. -/
theorem Value.Joins.echo (joins : left.Joins right) {coin : Nat → Bool} {session : Session}
    {line : ByteArray} {source : String} {evaluated : Shell.Evaluated}
    (isText : String.fromUTF8? line = some source)
    (goesOn : (source.isEmpty || Text.trimmed source = "exit") = false)
    (ran : Shell.evaluate? fuel coin session source = some evaluated)
    (values : evaluated.result = .ok [left, right]) :
    (Shell.answer? fuel coin session line).map (·.stdout) =
      some (evaluated.printed ++ (left.shownText ++ "\n" ++ (right.shownText ++ "\n"))) := by
  obtain ⟨first, second⟩ := joins.display evaluated.session.machine.heap
  unfold Shell.answer?
  simp [isText, goesOn, ran, values, Shell.lines, first, second, String.join_cons]

/-- **A text is the same however it is made, unless a number is infinite.** What an operator
makes of a string and a string or a number is what a template makes of them, what prints of
them write on their lines, what they are as entries and what the prompt shows, if and only
if neither is an infinite number. -/
theorem texts_agree_iff_finite (first : evaluate fuel l before = .done left middle)
    (second : evaluate fuel r middle = .done right last) (joins : left.Joins right) (site : Site) :
    evaluate (fuel + 1) (.binary l .add r site) before =
        .done (.string (left.joinedText ++ right.joinedText)) last ∧
      evaluate (fuel + 1) (.template [.shown l, .shown r]) before =
        .done (.string (left.shownText ++ right.shownText)) last ∧
      (left.joinedText ++ right.joinedText = left.shownText ++ right.shownText ↔
        ¬ left.IsInfinite ∧ ¬ right.IsInfinite) ∧
      (middle.output.room = none → execute (fuel + 1) (.print l) before =
        .done .normal { middle with output := middle.output.write (left.shownText ++ "\n") }) ∧
      (∀ here after, evaluate fuel r here = .done right after → after.output.room = none →
        execute (fuel + 1) (.print r) here =
          .done .normal { after with output := after.output.write (right.shownText ++ "\n") }) ∧
      (∀ (heap : Heap) (id : CollectionId) (c : Collection), heap.collections[id]? = some c →
        (∀ index value, c.get? index = some value → value = left ∨ value = right) →
          heap.display (.collection id) = c.text Value.shownText) ∧
      ∀ (limit : Nat) (coin : Nat → Bool) (session : Session) (line : ByteArray)
        (source : String) (evaluated : Shell.Evaluated), String.fromUTF8? line = some source →
        (source.isEmpty || Text.trimmed source = "exit") = false →
        Shell.evaluate? limit coin session source = some evaluated →
        evaluated.result = .ok [left, right] →
          (Shell.answer? limit coin session line).map (·.stdout) =
            some (evaluated.printed ++ (left.shownText ++ "\n" ++ (right.shownText ++ "\n"))) := by
  refine ⟨sum_of_joins first second joins site, template_of_joins first second joins,
    joins.joinedText_eq_iff, ?_, ?_, ?_, ?_⟩
  · exact fun unlimited => print_of_display first unlimited (joins.display _).1
  · exact fun here after ran unlimited => print_of_display ran unlimited (joins.display _).2
  · exact fun heap id c found only => joins.entries found only
  · exact fun limit coin session line source evaluated isText goesOn ran values =>
      joins.echo isText goesOn ran values

end Places

/-- The number that one and 309 zeros stand for. -/
def beyondDoubles : Float :=
  Number.ofDigits ('1' :: List.replicate 309 '0') []

theorem beyondDoubles_isInfinite : Number.IsInfinite beyondDoubles :=
  ⟨false, by decide +kernel⟩

/-- An array of an empty string and an infinite number. -/
def infiniteEntry : Heap :=
  { Heap.empty with collections := #[.ofList [.string "", .number beyondDoubles] true] }

/-- Behind an empty string, an infinite number is joined as `inf`. A template shows it, a print
writes it and an array has it as `Infinity`. -/
theorem infinite_number_joined_differently :
    evaluate 2 (.binary (.constant (.string "")) .add (.constant (.number beyondDoubles))
        ⟨1, .unknown⟩) .blank = .done (.string "inf") .blank ∧
      evaluate 2 (.template [.shown (.constant (.string "")),
        .shown (.constant (.number beyondDoubles))]) .blank = .done (.string "Infinity") .blank ∧
      ¬ "inf" = "Infinity" ∧
      (∃ after, execute 2 (.print (.constant (.number beyondDoubles))) .blank =
        .done .normal after ∧ after.output.written = "Infinity\n".toUTF8) ∧
      infiniteEntry.display (.collection 0) = "[0: , 1: Infinity,]" := by
  let infinite : Value := .number beyondDoubles
  have joined : infinite.joinedText = "inf" := by decide +kernel
  have shown : infinite.shownText = "Infinity" := by decide +kernel
  have first : evaluate 1 (.constant (.string "")) .blank = .done (.string "") .blank := rfl
  have second : evaluate 1 (.constant (.number beyondDoubles)) .blank = .done infinite .blank := rfl
  obtain ⟨sum, template, agree, -, prints, entries, -⟩ :=
    texts_agree_iff_finite first second (.stringNumber "" beyondDoubles) ⟨1, .unknown⟩
  have differ := agree.not.mpr fun finite => finite.2 beyondDoubles_isInfinite
  have printed := prints .blank .blank second rfl
  rw [joined] at sum differ
  rw [shown] at template differ printed
  refine ⟨sum, template, differ, ⟨_, printed, rfl⟩, ?_⟩
  have only : ∀ index value,
      (Collection.ofList [.string "", infinite] true).get? index = some value →
        value = .string "" ∨ value = infinite := by
    intro index value found
    rw [Collection.get?_ofList] at found
    simpa using List.mem_of_getElem? found
  rw [entries infiniteEntry 0 _ rfl only]
  decide +kernel

end Scriptlet
