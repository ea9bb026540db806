import Scriptlet.Proofs.Store.Changes
import Scriptlet.Run.Operator

/-!
Contract: operations that look before they change anything.

A computation that fails halfway leaves what it has changed until then. Every operation
on collections makes its checks first, and what comes behind them cannot fail. So an
operation that fails leaves what was there before.

Owns: `Guarded`, with the rules by which a computation is (`Guarded.after`,
`Guarded.before`); that every operation on a collection is (`Collection.set_guarded`,
`Collection.push_guarded`, `Collection.unshift_guarded`, `Collection.concat_guarded`,
`Collection.removeFromStart_guarded`, `Collection.removeFromEnd_guarded`); and so every
operator (`Operator.binary_guarded`, `Operator.setEntry_guarded`).

Does not own: what a run does where an operation fails (`Scriptlet.Proofs.Run.Unchanged`).
-/

set_option autoImplicit false

namespace Scriptlet

section Rules

variable {σ α β : Type}

/-- Where the computation fails, it leaves the state it began with. -/
def Guarded (computation : EStateM Fault σ α) : Prop :=
  ∀ (before : σ) (cause : Fault) (left : σ),
    computation before = .error cause left → left = before

/-- The computation may fail, but it changes nothing. -/
def Looks (computation : EStateM Fault σ α) : Prop :=
  ∀ before : σ, (∃ value, computation before = .ok value before) ∨
    ∃ cause, computation before = .error cause before

/-- The computation may change something, but it does not fail. -/
def Succeeds (computation : EStateM Fault σ α) : Prop :=
  ∀ before : σ, ∃ value left, computation before = .ok value left

theorem looks_pure (value : α) : Looks (pure value : EStateM Fault σ α) :=
  fun _ => Or.inl ⟨value, rfl⟩

theorem looks_throw (cause : Fault) : Looks (throw cause : EStateM Fault σ α) :=
  fun _ => Or.inr ⟨cause, rfl⟩

theorem looks_get : Looks (get : EStateM Fault σ σ) :=
  fun before => Or.inl ⟨before, rfl⟩

theorem succeeds_modifyGet (change : σ → α × σ) : Succeeds (modifyGet change : EStateM Fault σ α) :=
  fun before => ⟨(change before).1, (change before).2, rfl⟩

theorem succeeds_modify (change : σ → σ) : Succeeds (modify change : EStateM Fault σ Unit) :=
  fun before => ⟨(), change before, rfl⟩

variable {first : EStateM Fault σ α} {next : α → EStateM Fault σ β}

theorem Succeeds.bind (succeeds : Succeeds first) (later : ∀ value, Succeeds (next value)) :
    Succeeds (first >>= next) := by
  intro before
  obtain ⟨value, middle, done⟩ := succeeds before
  obtain ⟨result, left, doneLater⟩ := later value middle
  refine ⟨result, left, ?_⟩
  show EStateM.bind first next before = _
  unfold EStateM.bind
  rw [done]
  exact doneLater

theorem succeeds_forM {step : α → EStateM Fault σ PUnit} (items : List α)
    (each : ∀ item, Succeeds (step item)) : Succeeds (items.forM step) := by
  induction items with
  | nil => exact fun before => ⟨(), before, rfl⟩
  | cons item rest inductionHypothesis => exact (each item).bind fun _ => inductionHypothesis

theorem Looks.guarded (looks : Looks first) : Guarded first := by
  intro before cause left failed
  obtain ⟨value, done⟩ | ⟨_, stopped⟩ := looks before
  · rw [done] at failed
    cases failed
  · rw [stopped] at failed
    cases failed
    rfl

theorem Succeeds.guarded (succeeds : Succeeds first) : Guarded first := by
  intro before cause left failed
  obtain ⟨value, middle, done⟩ := succeeds before
  rw [done] at failed
  cases failed

/-- A look may stand in front. -/
theorem Guarded.after (looks : Looks first) (later : ∀ value, Guarded (next value)) :
    Guarded (first >>= next) := by
  intro before cause left failed
  replace failed : EStateM.bind first next before = .error cause left := failed
  unfold EStateM.bind at failed
  obtain ⟨value, done⟩ | ⟨stop, stopped⟩ := looks before
  · rw [done] at failed
    exact later value before cause left failed
  · rw [stopped] at failed
    cases failed
    rfl

/-- What cannot fail may stand behind. -/
theorem Guarded.before (guarded : Guarded first) (later : ∀ value, Succeeds (next value)) :
    Guarded (first >>= next) := by
  intro before cause left failed
  replace failed : EStateM.bind first next before = .error cause left := failed
  unfold EStateM.bind at failed
  cases ended : first before with
  | ok value middle =>
      obtain ⟨result, last, done⟩ := later value middle
      rw [ended] at failed
      dsimp only at failed
      rw [done] at failed
      cases failed
  | error stop middle =>
      rw [ended] at failed
      cases failed
      exact guarded before cause left ended

end Rules

/-! ## Collections -/

namespace Collection

theorem looks_checkShift (entries : Std.TreeMap Nat Value) (offset : Nat) :
    Looks (checkShift entries offset) := by
  unfold checkShift
  split
  · split
    · exact looks_pure ()
    · exact looks_throw _
  · exact looks_pure ()

theorem looks_checkCount (count : Nat) : Looks (checkCount count) := by
  intro c
  rw [checkCount_eq]
  split
  · exact Or.inl ⟨(), rfl⟩
  · exact Or.inr ⟨_, rfl⟩

theorem set_guarded (index : Nat) (value : Value) : Guarded (set index value) := by
  refine Guarded.after looks_get fun c => ?_
  split
  · exact Guarded.after (looks_throw _) fun _ => (succeeds_modify _).guarded
  · exact (succeeds_modify _).guarded

theorem push_guarded (value : Value) : Guarded (push value) :=
  (succeeds_modify _).guarded

/-- The entries are taken out and others are put in. -/
theorem succeeds_replace (change : Std.TreeMap Nat Value → Std.TreeMap Nat Value) :
    Succeeds (takeEntries >>= fun rest => putEntries (change rest)) :=
  (succeeds_modifyGet _).bind fun _ => succeeds_modify _

theorem unshift_guarded (value : Value) : Guarded (unshift value) :=
  Guarded.after looks_get fun _ => Guarded.after (looks_checkShift _ 1) fun _ =>
    (succeeds_replace _).guarded

theorem concat_guarded (other : Collection) : Guarded (concat other) :=
  Guarded.after looks_get fun _ => Guarded.after (looks_checkShift _ _) fun _ =>
    (succeeds_forM _ fun _ => succeeds_modify _).guarded

theorem removeFromStart_guarded (count : Nat) : Guarded (removeFromStart count) :=
  Guarded.after (looks_checkCount count) fun _ =>
    (succeeds_replace fun rest => dense (rest.values.drop count)).guarded

theorem removeFromEnd_guarded (count : Nat) : Guarded (removeFromEnd count) :=
  Guarded.after (looks_checkCount count) fun _ => Guarded.after looks_get fun c =>
    (succeeds_replace fun rest => dense (rest.values.take (c.size - count))).guarded

end Collection

/-! ## Operators -/

namespace Operator

theorem looks_ofExcept {α : Type} (result : Except Fault α) :
    Looks (Operation.ofExcept result) := by
  cases result with
  | ok value => exact looks_pure value
  | error cause => exact looks_throw cause

theorem content_eq (id : CollectionId) (collections : Array Collection) :
    content id collections =
      match collections[id]? with
      | some c => .ok c collections
      | none => .error .notCollection collections := by
  have looked : content id collections =
      (match collections[id]? with
        | some c => (pure c : Operation Collection)
        | none => throw Fault.notCollection) collections := rfl
  rw [looked]
  cases collections[id]? <;> rfl

theorem looks_content (id : CollectionId) : Looks (content id) := by
  intro collections
  rw [content_eq]
  cases collections[id]? with
  | some c => exact Or.inl ⟨c, rfl⟩
  | none => exact Or.inr ⟨_, rfl⟩

variable {collections : Array Collection} {id : CollectionId} {c : Collection}
  {change : Collection.Change Unit}

theorem changing_eq (found : collections[id]? = some c) :
    changing id change collections =
      match change c with
      | .ok () left => .ok (.collection id) (collections.setIfInBounds id left)
      | .error cause left => .error cause (collections.setIfInBounds id left) := by
  unfold changing
  generalize collections[id]? = entry at found ⊢
  cases found
  rfl

/-- A collection that is put back as it was makes no difference. -/
theorem changing_failed {cause : Fault} {left : Collection} (found : collections[id]? = some c)
    (guarded : Guarded change) (failed : change c = .error cause left) :
    changing id change collections = .error cause collections := by
  have same : collections.setIfInBounds id c = collections := by
    obtain ⟨there, rfl⟩ := Array.getElem?_eq_some_iff.mp found
    rw [Array.setIfInBounds_def, dif_pos there, Array.set_getElem_self]
  rw [changing_eq found, failed, guarded c cause left failed]
  exact congrArg _ same

theorem changing_guarded (id : CollectionId) (guarded : Guarded change) :
    Guarded (changing id change) := by
  intro collections cause left failed
  cases found : collections[id]? with
  | none =>
      unfold changing at failed
      rw [found] at failed
      cases failed
      rfl
  | some c =>
      cases ended : change c with
      | ok _ changed =>
          rw [changing_eq found, ended] at failed
          cases failed
      | error stop changed =>
          rw [changing_failed found guarded ended] at failed
          cases failed
          rfl

theorem add_guarded (left right : Value) : Guarded (add left right) := by
  unfold add
  split
  case h_1 | h_2 | h_3 | h_4 => exact (looks_pure _).guarded
  case h_5 =>
    exact Guarded.after (looks_content _) fun other =>
      changing_guarded _ (Collection.concat_guarded other)
  case h_6 => exact changing_guarded _ (Collection.push_guarded _)
  case h_7 => exact changing_guarded _ (Collection.unshift_guarded _)
  case h_8 => exact (looks_throw _).guarded

theorem subtract_guarded (left right : Value) : Guarded (subtract left right) := by
  unfold subtract
  split
  case h_1 => exact (looks_pure _).guarded
  case h_2 =>
    exact Guarded.after (looks_ofExcept _) fun count =>
      changing_guarded _ (Collection.removeFromEnd_guarded count)
  case h_3 =>
    exact Guarded.after (looks_ofExcept _) fun count =>
      changing_guarded _ (Collection.removeFromStart_guarded count)
  case h_4 => exact (looks_throw _).guarded

theorem onNumbers_guarded {operation : Float → Float → Operation Value}
    (guarded : ∀ left right, Guarded (operation left right)) (left right : Value) :
    Guarded (onNumbers operation left right) := by
  unfold onNumbers
  split
  · exact guarded _ _
  · exact (looks_throw _).guarded

theorem divide_guarded (left right : Float) : Guarded (divide left right) := by
  unfold divide
  split
  · exact (looks_throw _).guarded
  · exact (looks_pure _).guarded

theorem binary_guarded (op : BinaryOp) (left right : Value) : Guarded (binary op left right) := by
  cases op with
  | add => exact add_guarded left right
  | sub => exact subtract_guarded left right
  | div => exact onNumbers_guarded divide_guarded left right
  | equal | notEqual => exact (looks_pure _).guarded
  | mul | rem | less | lessEqual | greater | greaterEqual =>
      exact onNumbers_guarded (fun _ _ => (looks_pure _).guarded) left right

theorem setEntry_guarded (target index value : Value) :
    Guarded (setEntry target index value) := by
  unfold setEntry
  split
  · exact Guarded.after (looks_ofExcept _) fun place =>
      (changing_guarded _ (Collection.set_guarded place value)).before fun _ before =>
        ⟨value, before, rfl⟩
  · exact (looks_throw _).guarded

end Operator

end Scriptlet
