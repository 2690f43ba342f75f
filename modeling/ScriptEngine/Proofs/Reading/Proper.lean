import Mathlib.Data.Nat.Basic
import Mathlib.Order.Lattice
import ScriptEngine.Proofs.Reading.Grammar

/-!
Trees that may stand at some depth: they are nested within the limit that is left there, and no list
of parameters or fields in them has a name twice. What is asked of a tree is asked of its parts.
-/
namespace ScriptEngine

namespace Expr

variable {n : Nat} {span : Span}

attribute [local simp] all allItems allFields hasDistinctFields

/-- Read at such a depth, the expression is nested within the limit, and no struct in it has a field
twice. -/
def Proper (depth : Nat) (e : Expr) : Prop :=
  e.nesting ≤ maxNesting - depth ∧ e.all hasDistinctFields

def ProperItems (depth : Nat) (items : List Expr) : Prop :=
  itemNesting items ≤ maxNesting - depth ∧ allItems hasDistinctFields items

def ProperFields (depth : Nat) (fields : List (Name × Expr)) : Prop :=
  fieldNesting fields ≤ maxNesting - depth ∧ allFields hasDistinctFields fields

@[simp] theorem proper_literal (value : Literal) : (literal value span).Proper n := by
  simp [Proper]

@[simp] theorem proper_variable (name : Name) : (Expr.variable name).Proper n := by
  simp [Proper]

@[simp] theorem proper_adjust (target : Name) (step : Step) :
    (adjust target step span).Proper n := by
  simp [Proper]

@[simp] theorem proper_assign {target : Name} {value : Expr} :
    (assign target value span).Proper n ↔ value.Proper n := by
  simp [Proper]

@[simp] theorem proper_array {items : List Expr} :
    (array items span).Proper n ↔ ProperItems n items := by
  simp [Proper, ProperItems]

@[simp] theorem proper_arrayOfSize {size : Expr} :
    (arrayOfSize size span).Proper n ↔ size.Proper n := by
  simp [Proper]

@[simp] theorem proper_struct {fields : List (Name × Expr)} :
    (struct fields span).Proper n ↔
      ProperFields n fields ∧ (fields.map fun field => field.1.text).Nodup := by
  simp [Proper, ProperFields, and_assoc, and_left_comm, and_comm]

@[simp] theorem proper_index {target place : Expr} :
    (index target place span).Proper n ↔ target.Proper n ∧ place.Proper n := by
  simp [Proper, and_assoc, and_left_comm, and_comm]

@[simp] theorem proper_assignIndex {target place value : Expr} :
    (assignIndex target place value span).Proper n ↔
      target.Proper n ∧ place.Proper n ∧ value.Proper n := by
  simp [Proper, and_assoc, and_left_comm, and_comm]

@[simp] theorem proper_member {target : Expr} {name : Name} :
    (member target name span).Proper n ↔ target.Proper n := by
  simp [Proper]

@[simp] theorem proper_assignMember {target value : Expr} {name : Name} :
    (assignMember target name value span).Proper n ↔ target.Proper n ∧ value.Proper n := by
  simp [Proper, and_assoc, and_left_comm, and_comm]

@[simp] theorem proper_binary {op : BinaryOp} {left right : Expr} :
    (binary op left right span).Proper n ↔ left.Proper n ∧ right.Proper n := by
  simp [Proper, and_assoc, and_left_comm, and_comm]

@[simp] theorem proper_call {callee : Name} {arguments : List Expr} :
    (call callee arguments span).Proper n ↔ ProperItems n arguments := by
  simp [Proper, ProperItems]

/-- What is one level deeper may be nested one level less. -/
theorem proper_unary {op : UnaryOp} {operand : Expr} (hn : n < maxNesting)
    (h : operand.Proper (n + 1)) : (unary op operand span).Proper n := by
  obtain ⟨hnesting, hall⟩ := h
  refine ⟨?_, by simpa using hall⟩
  simp only [nesting]
  omega

theorem proper_paren {inner : Expr} (hn : n < maxNesting) (h : inner.Proper (n + 1)) :
    (paren inner span).Proper n := by
  obtain ⟨hnesting, hall⟩ := h
  refine ⟨?_, by simpa using hall⟩
  simp only [nesting]
  omega

@[simp] theorem properItems_nil : ProperItems n [] := by
  simp [ProperItems]

@[simp] theorem properItems_cons {e : Expr} {rest : List Expr} :
    ProperItems n (e :: rest) ↔ e.Proper n ∧ ProperItems n rest := by
  simp [Proper, ProperItems, and_assoc, and_left_comm, and_comm]

@[simp] theorem properFields_nil : ProperFields n [] := by
  simp [ProperFields]

@[simp] theorem properFields_cons {field : Name × Expr} {rest : List (Name × Expr)} :
    ProperFields n (field :: rest) ↔ field.2.Proper n ∧ ProperFields n rest := by
  simp [Proper, ProperFields, and_assoc, and_left_comm, and_comm]

end Expr

namespace Stmt

variable {n : Nat} {span : Span}

attribute [local simp] nesting bodyNesting elseNesting optionNesting all allBody allElse
  hasDistinctParams

/-- What is written at such a depth is nested within the limit, and no list of parameters or fields
in it has a name twice. -/
def ProperBody (depth : Nat) (body : List Stmt) : Prop :=
  bodyNesting body ≤ maxNesting - depth ∧
    allBody Expr.hasDistinctFields hasDistinctParams body

def Proper (depth : Nat) (s : Stmt) : Prop :=
  s.nesting ≤ maxNesting - depth ∧ s.all Expr.hasDistinctFields hasDistinctParams

/-- An expression that need not be there. -/
def ProperOption (depth : Nat) (value : Option Expr) : Prop := ∀ e, value = some e → e.Proper depth

/-- The statement is proper when its parts are read at this depth, one more than its own. -/
def ProperWithin (depth : Nat) (s : Stmt) : Prop :=
  s.nesting ≤ maxNesting - depth + 1 ∧ s.all Expr.hasDistinctFields hasDistinctParams

theorem ProperWithin.proper {s : Stmt} (hn : n < maxNesting) (h : s.ProperWithin (n + 1)) :
    s.Proper n :=
  ⟨by have := h.1; omega, h.2⟩

theorem properOption_iff {value : Option Expr} :
    ProperOption n value ↔
      optionNesting value ≤ maxNesting - n ∧ value.all (Expr.all Expr.hasDistinctFields) := by
  cases value <;> simp [ProperOption, Expr.Proper]

@[simp] theorem properWithin_declare {name : Name} {init : Option Expr} :
    (declare name init span).ProperWithin n ↔ ProperOption n init := by
  simp [ProperWithin, properOption_iff]

@[simp] theorem properWithin_function {name : Name} {params : List Name} {body : List Stmt} :
    (function name params body span).ProperWithin n ↔
      (params.map Name.text).Nodup ∧ ProperBody n body := by
  simp [ProperWithin, ProperBody, and_assoc, and_left_comm, and_comm]

@[simp] theorem properWithin_block {body : List Stmt} :
    (block body span).ProperWithin n ↔ ProperBody n body := by
  simp [ProperWithin, ProperBody]

@[simp] theorem properWithin_branch {condition : Expr} {thenBranch : Stmt}
    {elseBranch : Option Stmt} :
    (branch condition thenBranch elseBranch span).ProperWithin n ↔
      condition.Proper n ∧ thenBranch.Proper n ∧ ∀ s, elseBranch = some s → s.Proper n := by
  cases elseBranch <;>
    simp [ProperWithin, Proper, Expr.Proper, and_assoc, and_left_comm, and_comm]

@[simp] theorem properWithin_loop {condition : Expr} {body : Stmt} :
    (loop condition body span).ProperWithin n ↔ condition.Proper n ∧ body.Proper n := by
  simp [Proper, ProperWithin, Expr.Proper, and_assoc, and_left_comm, and_comm]

@[simp] theorem properWithin_jump (kind : LoopJump) : (jump kind span).ProperWithin n := by
  simp [ProperWithin]

@[simp] theorem properWithin_transfer {kind : Transfer} {value : Option Expr} :
    (transfer kind value span).ProperWithin n ↔ ProperOption n value := by
  simp [ProperWithin, properOption_iff]

@[simp] theorem properWithin_attempt {body handler : List Stmt} {bodySpan handlerSpan : Span}
    {param : Option Name} :
    (attempt body bodySpan param handler handlerSpan span).ProperWithin n ↔
      ProperBody n body ∧ ProperBody n handler := by
  simp [ProperWithin, ProperBody, and_assoc, and_left_comm, and_comm]

@[simp] theorem properWithin_expression {value : Expr} :
    (expression value span).ProperWithin n ↔ value.Proper n := by
  simp [ProperWithin, Expr.Proper]

@[simp] theorem properWithin_empty : (empty span).ProperWithin n := by
  simp [ProperWithin]

@[simp] theorem properBody_nil : ProperBody n [] := by
  simp [ProperBody]

@[simp] theorem properBody_cons {s : Stmt} {rest : List Stmt} :
    ProperBody n (s :: rest) ↔ s.Proper n ∧ ProperBody n rest := by
  simp [Proper, ProperBody, and_assoc, and_left_comm, and_comm]

@[simp] theorem properBody_append {left right : List Stmt} :
    ProperBody n (left ++ right) ↔ ProperBody n left ∧ ProperBody n right := by
  induction left with
  | nil => simp
  | cons s rest ih => simp [ih, and_assoc]

end Stmt

end ScriptEngine
