import Scriptlet.Grammar.Parser
import Scriptlet.Tree

/-!
Contract: lines changed throughout what was read from a source.

Owns: `Lined`, by which everything that mentions lines has them changed by one
function, and its instances for tokens, reports and syntax trees; and
`LawfulLined`, its laws: changing no line changes nothing (`relabel_id`), and
two changes are one (`relabel_relabel`).

Does not own: how reading and running deal with changed lines
(`Scriptlet.Proofs.Grammar.Stable`, `Scriptlet.Proofs.Run.Follows`).
-/

set_option autoImplicit false

namespace Scriptlet

/-- What may mention lines of a source. -/
class Lined (α : Type) where
  relabel : (Nat → Nat) → α → α

export Lined (relabel)

/-! ## Sites, names and tokens -/

instance : Lined Site :=
  ⟨fun line site => ⟨line site.line, site.place⟩⟩

instance : Lined Name :=
  ⟨fun line name => ⟨name.symbol, line name.line⟩⟩

instance : Lined Token :=
  ⟨fun line token => ⟨token.kind, token.lexeme, token.literal, line token.line⟩⟩

instance : Lined Diagnostic :=
  ⟨fun line diagnostic => ⟨relabel line diagnostic.site, diagnostic.problem⟩⟩

@[simp] theorem relabel_token_kind (line : Nat → Nat) (token : Token) :
    (relabel line token).kind = token.kind := rfl

@[simp] theorem relabel_token_literal (line : Nat → Nat) (token : Token) :
    (relabel line token).literal = token.literal := rfl

@[simp] theorem relabel_token_site (line : Nat → Nat) (token : Token) :
    (relabel line token).site = relabel line token.site := rfl

@[simp] theorem relabel_name_symbol (line : Nat → Nat) (name : Name) :
    (relabel line name).symbol = name.symbol := rfl

@[simp] theorem relabel_name_site (line : Nat → Nat) (name : Name) :
    (relabel line name).site = relabel line name.site := rfl

/-! ## What mentions no line, and what is made of parts -/

instance : Lined Unit := ⟨fun _ => id⟩
instance : Lined String := ⟨fun _ => id⟩

instance {α : Type} [Lined α] : Lined (List α) :=
  ⟨fun line => List.map (relabel line)⟩

instance {α : Type} [Lined α] : Lined (Option α) :=
  ⟨fun line => Option.map (relabel line)⟩

instance {α β : Type} [Lined α] [Lined β] : Lined (α × β) :=
  ⟨fun line pair => (relabel line pair.1, relabel line pair.2)⟩

section Parts

variable {α : Type} [Lined α] (line : Nat → Nat)

@[simp] theorem relabel_nil : relabel line ([] : List α) = [] := rfl

@[simp] theorem relabel_cons (first : α) (rest : List α) :
    relabel line (first :: rest) = relabel line first :: relabel line rest := rfl

@[simp] theorem relabel_append (left right : List α) :
    relabel line (left ++ right) = relabel line left ++ relabel line right :=
  List.map_append

@[simp] theorem length_relabel (list : List α) : (relabel line list).length = list.length :=
  List.length_map _

@[simp] theorem relabel_eq_nil {list : List α} : relabel line list = [] ↔ list = [] :=
  List.map_eq_nil_iff

@[simp] theorem relabel_none : relabel line (none : Option α) = none := rfl

@[simp] theorem relabel_some (value : α) :
    relabel line (some value) = some (relabel line value) := rfl

theorem relabel_toList (option : Option α) :
    relabel line option.toList = (relabel line option).toList := by
  cases option <;> rfl

end Parts

/-! ## Syntax trees -/

mutual

def Expr.relabel (line : Nat → Nat) : Expr → Expr
  | .constant value => .constant value
  | .grouping inner => .grouping (inner.relabel line)
  | .unary op operand site => .unary op (operand.relabel line) (Lined.relabel line site)
  | .binary left op right site =>
      .binary (left.relabel line) op (right.relabel line) (Lined.relabel line site)
  | .logical left op right => .logical (left.relabel line) op (right.relabel line)
  | .assign name value => .assign (Lined.relabel line name) (value.relabel line)
  | .variable name => .variable (Lined.relabel line name)
  | .call callee arguments site =>
      .call (callee.relabel line) (Expr.relabelAll line arguments) (Lined.relabel line site)
  | .lambda parameters body =>
      .lambda (Lined.relabel line parameters) (Stmt.relabelAll line body)
  | .array elements => .array (Expr.relabelAll line elements)
  | .tuple elements => .tuple (Expr.relabelAll line elements)
  | .index target index site =>
      .index (target.relabel line) (index.relabel line) (Lined.relabel line site)
  | .indexAssign target index value site =>
      .indexAssign (target.relabel line) (index.relabel line) (value.relabel line)
        (Lined.relabel line site)
  | .template parts => .template (TemplatePart.relabelAll line parts)

def Expr.relabelAll (line : Nat → Nat) : List Expr → List Expr
  | [] => []
  | first :: rest => first.relabel line :: Expr.relabelAll line rest

def TemplatePart.relabel (line : Nat → Nat) : TemplatePart → TemplatePart
  | .text value => .text value
  | .shown value => .shown (value.relabel line)

def TemplatePart.relabelAll (line : Nat → Nat) : List TemplatePart → List TemplatePart
  | [] => []
  | first :: rest => first.relabel line :: TemplatePart.relabelAll line rest

def Stmt.relabel (line : Nat → Nat) : Stmt → Stmt
  | .expression value => .expression (value.relabel line)
  | .print value => .print (value.relabel line)
  | .var name none => .var (Lined.relabel line name) none
  | .var name (some initial) =>
      .var (Lined.relabel line name) (some (initial.relabel line))
  | .const name initial => .const (Lined.relabel line name) (initial.relabel line)
  | .function name parameters body =>
      .function (Lined.relabel line name) (Lined.relabel line parameters)
        (Stmt.relabelAll line body)
  | .block body => .block (Stmt.relabelAll line body)
  | .branch condition consequent none =>
      .branch (condition.relabel line) (consequent.relabel line) none
  | .branch condition consequent (some alternative) =>
      .branch (condition.relabel line) (consequent.relabel line)
        (some (alternative.relabel line))
  | .loop condition body => .loop (condition.relabel line) (body.relabel line)
  | .leave => .leave
  | .next => .next
  | .result none => .result none
  | .result (some value) => .result (some (value.relabel line))
  | .switch rule cases => .switch (rule.relabel line) (Case.relabelAll line cases)

def Stmt.relabelAll (line : Nat → Nat) : List Stmt → List Stmt
  | [] => []
  | first :: rest => first.relabel line :: Stmt.relabelAll line rest

def Case.relabel (line : Nat → Nat) : Case → Case
  | .labelled label body => .labelled (label.relabel line) (Stmt.relabelAll line body)
  | .fallback body => .fallback (Stmt.relabelAll line body)

def Case.relabelAll (line : Nat → Nat) : List Case → List Case
  | [] => []
  | first :: rest => first.relabel line :: Case.relabelAll line rest

end

instance : Lined Expr := ⟨Expr.relabel⟩
instance : Lined TemplatePart := ⟨TemplatePart.relabel⟩
instance : Lined Stmt := ⟨Stmt.relabel⟩
instance : Lined Case := ⟨Case.relabel⟩

section Lists

variable (line : Nat → Nat)

theorem Expr.relabelAll_eq : ∀ list : List Expr, Expr.relabelAll line list = Lined.relabel line list
  | [] => rfl
  | first :: rest => congrArg (first.relabel line :: ·) (Expr.relabelAll_eq rest)

theorem TemplatePart.relabelAll_eq :
    ∀ list : List TemplatePart, TemplatePart.relabelAll line list = Lined.relabel line list
  | [] => rfl
  | first :: rest => congrArg (first.relabel line :: ·) (TemplatePart.relabelAll_eq rest)

theorem Stmt.relabelAll_eq : ∀ list : List Stmt, Stmt.relabelAll line list = Lined.relabel line list
  | [] => rfl
  | first :: rest => congrArg (first.relabel line :: ·) (Stmt.relabelAll_eq rest)

theorem Case.relabelAll_eq : ∀ list : List Case, Case.relabelAll line list = Lined.relabel line list
  | [] => rfl
  | first :: rest => congrArg (first.relabel line :: ·) (Case.relabelAll_eq rest)

@[simp] theorem relabel_call (callee : Expr) (arguments : List Expr) (site : Site) :
    relabel line (Expr.call callee arguments site) =
      .call (relabel line callee) (relabel line arguments) (relabel line site) := by
  show Expr.relabel line _ = _
  rw [Expr.relabel, Expr.relabelAll_eq]
  rfl

@[simp] theorem relabel_lambda (parameters : List Name) (body : List Stmt) :
    relabel line (Expr.lambda parameters body) =
      .lambda (relabel line parameters) (relabel line body) := by
  show Expr.relabel line _ = _
  rw [Expr.relabel, Stmt.relabelAll_eq]

@[simp] theorem relabel_array (elements : List Expr) :
    relabel line (Expr.array elements) = .array (relabel line elements) := by
  show Expr.relabel line _ = _
  rw [Expr.relabel, Expr.relabelAll_eq]

@[simp] theorem relabel_tuple (elements : List Expr) :
    relabel line (Expr.tuple elements) = .tuple (relabel line elements) := by
  show Expr.relabel line _ = _
  rw [Expr.relabel, Expr.relabelAll_eq]

@[simp] theorem relabel_template (parts : List TemplatePart) :
    relabel line (Expr.template parts) = .template (relabel line parts) := by
  show Expr.relabel line _ = _
  rw [Expr.relabel, TemplatePart.relabelAll_eq]

@[simp] theorem relabel_var (name : Name) (initial : Option Expr) :
    relabel line (Stmt.var name initial) = .var (relabel line name) (relabel line initial) := by
  cases initial <;> rfl

@[simp] theorem relabel_function (name : Name) (parameters : List Name) (body : List Stmt) :
    relabel line (Stmt.function name parameters body) =
      .function (relabel line name) (relabel line parameters) (relabel line body) := by
  show Stmt.relabel line _ = _
  rw [Stmt.relabel, Stmt.relabelAll_eq]

@[simp] theorem relabel_block (body : List Stmt) :
    relabel line (Stmt.block body) = .block (relabel line body) := by
  show Stmt.relabel line _ = _
  rw [Stmt.relabel, Stmt.relabelAll_eq]

@[simp] theorem relabel_branch (condition : Expr) (consequent : Stmt) (alternative : Option Stmt) :
    relabel line (Stmt.branch condition consequent alternative) =
      .branch (relabel line condition) (relabel line consequent) (relabel line alternative) := by
  cases alternative <;> rfl

@[simp] theorem relabel_result (value : Option Expr) :
    relabel line (Stmt.result value) = .result (relabel line value) := by
  cases value <;> rfl

@[simp] theorem relabel_switch (rule : Expr) (cases : List Case) :
    relabel line (Stmt.switch rule cases) = .switch (relabel line rule) (relabel line cases) := by
  show Stmt.relabel line _ = _
  rw [Stmt.relabel, Case.relabelAll_eq]
  rfl

@[simp] theorem relabel_labelled (label : Expr) (body : List Stmt) :
    relabel line (Case.labelled label body) =
      .labelled (relabel line label) (relabel line body) := by
  show Case.relabel line _ = _
  rw [Case.relabel, Stmt.relabelAll_eq]
  rfl

@[simp] theorem relabel_fallback (body : List Stmt) :
    relabel line (Case.fallback body) = .fallback (relabel line body) := by
  show Case.relabel line _ = _
  rw [Case.relabel, Stmt.relabelAll_eq]

/-- The loop of relabelled parts. -/
theorem relabel_forLoop (initial : Option Stmt) (condition increment : Option Expr) (body : Stmt) :
    relabel line (Stmt.forLoop initial condition increment body) =
      .forLoop (relabel line initial) (relabel line condition) (relabel line increment)
        (relabel line body) := by
  cases initial <;> cases condition <;> cases increment <;> rfl

end Lists

/-! ## Changing no line, and changing lines twice

Both laws go through the trees constructor by constructor; the lists inside
a tree have a law of their own. -/

/-- Changing no line changes nothing, and two changes are one. -/
class LawfulLined (α : Type) [Lined α] : Prop where
  relabel_id : ∀ value : α, relabel id value = value
  relabel_relabel : ∀ (f g : Nat → Nat) (value : α),
    relabel g (relabel f value) = relabel (g ∘ f) value

export LawfulLined (relabel_id relabel_relabel)

instance : LawfulLined Site := ⟨fun _ => rfl, fun _ _ _ => rfl⟩
instance : LawfulLined Name := ⟨fun _ => rfl, fun _ _ _ => rfl⟩
instance : LawfulLined Token := ⟨fun _ => rfl, fun _ _ _ => rfl⟩
instance : LawfulLined Diagnostic := ⟨fun _ => rfl, fun _ _ _ => rfl⟩

instance {α : Type} [Lined α] [LawfulLined α] : LawfulLined (List α) where
  relabel_id list := by
    have identity : (relabel id : α → α) = id := funext relabel_id
    show list.map (relabel id) = list
    rw [identity, List.map_id]
  relabel_relabel f g list := by
    show (list.map (relabel f)).map (relabel g) = list.map (relabel (g ∘ f))
    rw [List.map_map]
    exact List.map_congr_left fun value _ => relabel_relabel f g value

instance {α : Type} [Lined α] [LawfulLined α] : LawfulLined (Option α) where
  relabel_id option := by
    cases option with
    | none => rfl
    | some value => exact congrArg some (relabel_id value)
  relabel_relabel f g option := by
    cases option with
    | none => rfl
    | some value => exact congrArg some (relabel_relabel f g value)

mutual

theorem Expr.relabel_id : ∀ e : Expr, e.relabel id = e
  | .constant _ => rfl
  | .grouping inner => by rw [Expr.relabel, Expr.relabel_id inner]
  | .unary _ operand _ => by rw [Expr.relabel, Expr.relabel_id operand]; rfl
  | .binary left _ right _ => by
      rw [Expr.relabel, Expr.relabel_id left, Expr.relabel_id right]; rfl
  | .logical left _ right => by rw [Expr.relabel, Expr.relabel_id left, Expr.relabel_id right]
  | .assign _ value => by rw [Expr.relabel, Expr.relabel_id value]; rfl
  | .variable _ => rfl
  | .call callee arguments _ => by
      rw [Expr.relabel, Expr.relabel_id callee, Expr.relabelAll_id arguments]; rfl
  | .lambda parameters body => by
      rw [Expr.relabel, Stmt.relabelAll_id body, LawfulLined.relabel_id parameters]
  | .array elements => by rw [Expr.relabel, Expr.relabelAll_id elements]
  | .tuple elements => by rw [Expr.relabel, Expr.relabelAll_id elements]
  | .index target index _ => by
      rw [Expr.relabel, Expr.relabel_id target, Expr.relabel_id index]; rfl
  | .indexAssign target index value _ => by
      rw [Expr.relabel, Expr.relabel_id target, Expr.relabel_id index, Expr.relabel_id value]; rfl
  | .template parts => by rw [Expr.relabel, TemplatePart.relabelAll_id parts]

theorem Expr.relabelAll_id : ∀ list : List Expr, Expr.relabelAll id list = list
  | [] => rfl
  | first :: rest => by rw [Expr.relabelAll, Expr.relabel_id first, Expr.relabelAll_id rest]

theorem TemplatePart.relabel_id : ∀ part : TemplatePart, part.relabel id = part
  | .text _ => rfl
  | .shown value => by rw [TemplatePart.relabel, Expr.relabel_id value]

theorem TemplatePart.relabelAll_id :
    ∀ list : List TemplatePart, TemplatePart.relabelAll id list = list
  | [] => rfl
  | first :: rest => by
      rw [TemplatePart.relabelAll, TemplatePart.relabel_id first, TemplatePart.relabelAll_id rest]

theorem Stmt.relabel_id : ∀ statement : Stmt, statement.relabel id = statement
  | .expression value => by rw [Stmt.relabel, Expr.relabel_id value]
  | .print value => by rw [Stmt.relabel, Expr.relabel_id value]
  | .var _ none => rfl
  | .var _ (some initial) => by rw [Stmt.relabel, Expr.relabel_id initial]; rfl
  | .const _ initial => by rw [Stmt.relabel, Expr.relabel_id initial]; rfl
  | .function _ parameters body => by
      rw [Stmt.relabel, Stmt.relabelAll_id body, LawfulLined.relabel_id parameters]; rfl
  | .block body => by rw [Stmt.relabel, Stmt.relabelAll_id body]
  | .branch condition consequent none => by
      rw [Stmt.relabel, Expr.relabel_id condition, Stmt.relabel_id consequent]
  | .branch condition consequent (some alternative) => by
      rw [Stmt.relabel, Expr.relabel_id condition, Stmt.relabel_id consequent,
        Stmt.relabel_id alternative]
  | .loop condition body => by rw [Stmt.relabel, Expr.relabel_id condition, Stmt.relabel_id body]
  | .leave => rfl
  | .next => rfl
  | .result none => rfl
  | .result (some value) => by rw [Stmt.relabel, Expr.relabel_id value]
  | .switch rule cases => by rw [Stmt.relabel, Expr.relabel_id rule, Case.relabelAll_id cases]

theorem Stmt.relabelAll_id : ∀ list : List Stmt, Stmt.relabelAll id list = list
  | [] => rfl
  | first :: rest => by rw [Stmt.relabelAll, Stmt.relabel_id first, Stmt.relabelAll_id rest]

theorem Case.relabel_id : ∀ branch : Case, branch.relabel id = branch
  | .labelled label body => by rw [Case.relabel, Expr.relabel_id label, Stmt.relabelAll_id body]
  | .fallback body => by rw [Case.relabel, Stmt.relabelAll_id body]

theorem Case.relabelAll_id : ∀ list : List Case, Case.relabelAll id list = list
  | [] => rfl
  | first :: rest => by rw [Case.relabelAll, Case.relabel_id first, Case.relabelAll_id rest]

end

section Twice

variable (f g : Nat → Nat)

mutual

theorem Expr.relabel_relabel : ∀ e : Expr, (e.relabel f).relabel g = e.relabel (g ∘ f)
  | .constant _ => rfl
  | .grouping inner => by simp only [Expr.relabel, Expr.relabel_relabel inner]
  | .unary _ operand _ => by simp only [Expr.relabel, Expr.relabel_relabel operand]; rfl
  | .binary left _ right _ => by
      simp only [Expr.relabel, Expr.relabel_relabel left, Expr.relabel_relabel right]; rfl
  | .logical left _ right => by
      simp only [Expr.relabel, Expr.relabel_relabel left, Expr.relabel_relabel right]
  | .assign _ value => by simp only [Expr.relabel, Expr.relabel_relabel value]; rfl
  | .variable _ => rfl
  | .call callee arguments _ => by
      simp only [Expr.relabel, Expr.relabel_relabel callee, Expr.relabelAll_relabelAll arguments]
      rfl
  | .lambda parameters body => by
      simp only [Expr.relabel, Stmt.relabelAll_relabelAll body,
        LawfulLined.relabel_relabel f g parameters]
  | .array elements => by simp only [Expr.relabel, Expr.relabelAll_relabelAll elements]
  | .tuple elements => by simp only [Expr.relabel, Expr.relabelAll_relabelAll elements]
  | .index target index _ => by
      simp only [Expr.relabel, Expr.relabel_relabel target, Expr.relabel_relabel index]; rfl
  | .indexAssign target index value _ => by
      simp only [Expr.relabel, Expr.relabel_relabel target, Expr.relabel_relabel index,
        Expr.relabel_relabel value]
      rfl
  | .template parts => by simp only [Expr.relabel, TemplatePart.relabelAll_relabelAll parts]

theorem Expr.relabelAll_relabelAll :
    ∀ list : List Expr, Expr.relabelAll g (Expr.relabelAll f list) = Expr.relabelAll (g ∘ f) list
  | [] => rfl
  | first :: rest => by
      simp only [Expr.relabelAll, Expr.relabel_relabel first, Expr.relabelAll_relabelAll rest]

theorem TemplatePart.relabel_relabel :
    ∀ part : TemplatePart, (part.relabel f).relabel g = part.relabel (g ∘ f)
  | .text _ => rfl
  | .shown value => by simp only [TemplatePart.relabel, Expr.relabel_relabel value]

theorem TemplatePart.relabelAll_relabelAll :
    ∀ list : List TemplatePart,
      TemplatePart.relabelAll g (TemplatePart.relabelAll f list) =
        TemplatePart.relabelAll (g ∘ f) list
  | [] => rfl
  | first :: rest => by
      simp only [TemplatePart.relabelAll, TemplatePart.relabel_relabel first,
        TemplatePart.relabelAll_relabelAll rest]

theorem Stmt.relabel_relabel :
    ∀ statement : Stmt, (statement.relabel f).relabel g = statement.relabel (g ∘ f)
  | .expression value => by simp only [Stmt.relabel, Expr.relabel_relabel value]
  | .print value => by simp only [Stmt.relabel, Expr.relabel_relabel value]
  | .var _ none => rfl
  | .var _ (some initial) => by simp only [Stmt.relabel, Expr.relabel_relabel initial]; rfl
  | .const _ initial => by simp only [Stmt.relabel, Expr.relabel_relabel initial]; rfl
  | .function _ parameters body => by
      simp only [Stmt.relabel, Stmt.relabelAll_relabelAll body,
        LawfulLined.relabel_relabel f g parameters]
      rfl
  | .block body => by simp only [Stmt.relabel, Stmt.relabelAll_relabelAll body]
  | .branch condition consequent none => by
      simp only [Stmt.relabel, Expr.relabel_relabel condition, Stmt.relabel_relabel consequent]
  | .branch condition consequent (some alternative) => by
      simp only [Stmt.relabel, Expr.relabel_relabel condition, Stmt.relabel_relabel consequent,
        Stmt.relabel_relabel alternative]
  | .loop condition body => by
      simp only [Stmt.relabel, Expr.relabel_relabel condition, Stmt.relabel_relabel body]
  | .leave => rfl
  | .next => rfl
  | .result none => rfl
  | .result (some value) => by simp only [Stmt.relabel, Expr.relabel_relabel value]
  | .switch rule cases => by
      simp only [Stmt.relabel, Expr.relabel_relabel rule, Case.relabelAll_relabelAll cases]

theorem Stmt.relabelAll_relabelAll :
    ∀ list : List Stmt, Stmt.relabelAll g (Stmt.relabelAll f list) = Stmt.relabelAll (g ∘ f) list
  | [] => rfl
  | first :: rest => by
      simp only [Stmt.relabelAll, Stmt.relabel_relabel first, Stmt.relabelAll_relabelAll rest]

theorem Case.relabel_relabel : ∀ branch : Case, (branch.relabel f).relabel g = branch.relabel (g ∘ f)
  | .labelled label body => by
      simp only [Case.relabel, Expr.relabel_relabel label, Stmt.relabelAll_relabelAll body]
  | .fallback body => by simp only [Case.relabel, Stmt.relabelAll_relabelAll body]

theorem Case.relabelAll_relabelAll :
    ∀ list : List Case, Case.relabelAll g (Case.relabelAll f list) = Case.relabelAll (g ∘ f) list
  | [] => rfl
  | first :: rest => by
      simp only [Case.relabelAll, Case.relabel_relabel first, Case.relabelAll_relabelAll rest]

end

end Twice

instance : LawfulLined Expr := ⟨Expr.relabel_id, fun f g => Expr.relabel_relabel f g⟩
instance : LawfulLined Stmt := ⟨Stmt.relabel_id, fun f g => Stmt.relabel_relabel f g⟩

/-- A change that undoes another. -/
theorem relabel_cancel {α : Type} [Lined α] [LawfulLined α] {f g : Nat → Nat}
    (undone : ∀ line, g (f line) = line) (value : α) : relabel g (relabel f value) = value := by
  have identity : g ∘ f = id := funext undone
  rw [relabel_relabel, identity, relabel_id]

end Scriptlet
