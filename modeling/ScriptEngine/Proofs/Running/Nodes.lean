import ScriptEngine.Proofs.Reading.Outline
import ScriptEngine.Proofs.Running.Code
import ScriptEngine.Proofs.Running.Moments

/-!
The nodes of code. Every expression and every statement is a node, and so is every name where it
stands. The nodes of a part of code are nodes of the whole.
-/
namespace ScriptEngine

/-- Somewhere in the outline there is a node with this span. -/
inductive Outline.HasNode : Outline → Span → Prop where
  | whole {span : Span} {parts : List Outline} : HasNode (.node span parts) span
  | part {span inner : Span} {parts : List Outline} {piece : Outline} (hpiece : piece ∈ parts)
    (h : piece.HasNode inner) : HasNode (.node span parts) inner

theorem Outline.hasNode_of_mem {span : Span} {parts : List Outline} {name : Name}
    (h : name.outline ∈ parts) : (Outline.node span parts).HasNode name.span :=
  .part h .whole

namespace Expr

/-- The names that stand in an expression itself, not in its operands. -/
def names : Expr → List Name
  | .variable name => [name]
  | assign target _ _ => [target]
  | adjust target _ _ => [target]
  | member _ name _ => [name]
  | assignMember _ name _ _ => [name]
  | call callee _ _ => [callee]
  | _ => []

theorem hasNode_of_mem_names {e : Expr} {name : Name} (hname : name ∈ e.names) :
    e.outline.HasNode name.span := by
  cases e with
  | «variable» n =>
    obtain rfl := List.mem_singleton.1 hname
    exact .whole
  | _ =>
    simp only [names, List.mem_singleton, List.not_mem_nil] at hname
    all_goals
      subst hname
      exact Outline.hasNode_of_mem (by simp [parts])

theorem mem_itemParts {x : Expr} : ∀ {items : List Expr}, x ∈ items → x.outline ∈ itemParts items
  | [_], hx => List.mem_singleton.1 hx ▸ List.mem_singleton_self _
  | _ :: next :: rest, hx => by
    rcases List.mem_cons.1 hx with rfl | hx
    · exact List.mem_cons_self
    · exact List.mem_cons_of_mem _ (List.mem_cons_of_mem _ (mem_itemParts hx))

theorem mem_fieldParts {x : Expr} {fields : List (Name × Expr)} (hx : x ∈ fields.map Prod.snd) :
    x.outline ∈ fieldParts fields := by
  induction fields with
  | nil => cases hx
  | cons field rest ih =>
    obtain ⟨name, e⟩ := field
    rw [List.map_cons] at hx
    rw [fieldParts]
    rcases List.mem_cons.1 hx with rfl | hx
    · simp [outline]
    · simp [ih hx]

theorem outline_mem_parts {e x : Expr} (hx : x ∈ e.operands) : x.outline ∈ e.parts := by
  cases e with
  | array items =>
    have hmem : x.outline ∈ itemParts items := mem_itemParts hx
    simp [parts, hmem]
  | struct fields =>
    have hmem : x.outline ∈ fieldParts fields := mem_fieldParts hx
    simp [parts, hmem]
  | call callee arguments =>
    have hmem : x.outline ∈ itemParts arguments := mem_itemParts hx
    simp [parts, hmem]
  | _ =>
    simp only [operands, List.mem_cons, List.not_mem_nil, or_false] at hx
    all_goals
      simp only [parts, outline]
      grind

end Expr

namespace Stmt

/-- The names that stand in a statement itself and that it may bind. -/
def names : Stmt → List Name
  | declare name _ _ => [name]
  | function name _ _ _ => [name]
  | attempt _ _ param _ _ _ => param.toList
  | _ => []

theorem outline_mem_bodyParts {s : Stmt} {body : List Stmt} (hs : s ∈ body) :
    s.outline ∈ bodyParts body := by
  induction body with
  | nil => cases hs
  | cons first rest ih =>
    rw [bodyParts]
    rcases List.mem_cons.1 hs with rfl | hs
    · exact List.mem_cons_self
    · exact List.mem_cons_of_mem _ (ih hs)

theorem hasNode_of_mem_names {s : Stmt} {name : Name} (hname : name ∈ s.names) :
    s.outline.HasNode name.span := by
  cases s with
  | declare n init =>
    obtain rfl := List.mem_singleton.1 hname
    exact Outline.hasNode_of_mem (by simp [parts])
  | function n params body =>
    obtain rfl := List.mem_singleton.1 hname
    exact Outline.hasNode_of_mem (by simp [parts])
  | attempt body bodySpan param handler handlerSpan =>
    obtain rfl := Option.mem_toList.1 hname
    refine .part (List.mem_cons_of_mem _ (List.mem_cons_of_mem _ List.mem_cons_self)) ?_
    exact Outline.hasNode_of_mem (by simp [handlerParts])
  | _ => cases hname

end Stmt

namespace Code

/-- The span is that of a node of the code. -/
def HasNode (span : Span) : Code → Prop
  | expr e => e.outline.HasNode span
  | stmt s => s.outline.HasNode span
  | stmts body => ∃ s ∈ body, s.outline.HasNode span

variable {c part : Code} {body : List Stmt} {span : Span}

theorem Part.hasNode (h : c.Part part) (hnode : part.HasNode span) : c.HasNode span := by
  cases h with
  | operand hx => exact .part (Expr.outline_mem_parts hx) hnode
  | @evaluated s e he =>
    refine .part ?_ hnode
    cases s with
    | declare name init =>
      obtain rfl : init = some e := he
      simp [Stmt.parts, Stmt.initParts]
    | transfer kind value =>
      obtain rfl : value = some e := he
      simp [Stmt.parts, Stmt.valueParts]
    | branch condition =>
      obtain rfl := Option.some.inj he
      simp [Stmt.parts]
    | loop condition =>
      obtain rfl := Option.some.inj he
      simp [Stmt.parts]
    | expression value =>
      obtain rfl := Option.some.inj he
      simp [Stmt.parts]
    | _ => cases he
  | thenBranch =>
    refine .part ?_ hnode
    simp [Stmt.parts, Stmt.outline]
  | elseBranch =>
    refine .part ?_ hnode
    simp [Stmt.parts, Stmt.elseParts, Stmt.outline]
  | pass =>
    refine .part ?_ hnode
    simp [Stmt.parts, Stmt.outline]
  | first => exact ⟨_, List.mem_cons_self, hnode⟩
  | rest =>
    obtain ⟨s, hs, hnode⟩ := hnode
    exact ⟨s, List.mem_cons_of_mem _ hs, hnode⟩

theorem Opens.hasNode (h : c.Opens body) (hnode : (stmts body).HasNode span) : c.HasNode span := by
  obtain ⟨s, hs, hnode⟩ := hnode
  have hmem := Stmt.outline_mem_bodyParts hs
  cases h with
  | block => exact .part (by simp [Stmt.parts, Stmt.bracedParts, hmem]) hnode
  | attempt =>
    refine .part (List.mem_cons_of_mem _ List.mem_cons_self) ?_
    exact .part (by simp [Stmt.bracedParts, hmem]) hnode
  | handler =>
    refine .part (List.mem_cons_of_mem _ (List.mem_cons_of_mem _ List.mem_cons_self)) ?_
    exact .part (by simp [Stmt.bracedParts, hmem]) hnode
  | function => exact .part (by simp [Stmt.parts, Stmt.bracedParts, hmem]) hnode

end Code

/-- The span is that of a node of the function's declaration. -/
def FunctionDef.HasNode (definition : FunctionDef) (span : Span) : Prop :=
  definition.declaration.outline.HasNode span

/-- Where a task itself can fail: at its node and the names in it; calls are where they are called. -/
def Task.spans : Task → List Span
  | expr _ e => e.span :: e.names.map Name.span
  | call _ _ place => [place]
  | native _ _ place => [place]
  | stmt _ s => s.names.map Name.span
  | stmts _ _ => []

end ScriptEngine
