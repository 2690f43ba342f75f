import ScriptEngine.Value.Basic

/-!
The same code at other places. A map of spans changes the places of all nodes of a tree and nothing
else: what names are called, what is evaluated and in which order stays the same.
-/
namespace ScriptEngine

def Name.mapSpan (f : Span → Span) (name : Name) : Name := ⟨name.text, f name.span⟩

@[simp] theorem Name.text_mapSpan (f : Span → Span) (name : Name) :
    (name.mapSpan f).text = name.text := rfl

@[simp] theorem Name.span_mapSpan (f : Span → Span) (name : Name) :
    (name.mapSpan f).span = f name.span := rfl

namespace Expr

mutual

/-- The expression with all its places changed. -/
def mapSpans (f : Span → Span) : Expr → Expr
  | literal value span => literal value (f span)
  | .variable name => .variable (name.mapSpan f)
  | assign target value span => assign (target.mapSpan f) (value.mapSpans f) (f span)
  | adjust target step span => adjust (target.mapSpan f) step (f span)
  | array items span => array (mapItems f items) (f span)
  | arrayOfSize size span => arrayOfSize (size.mapSpans f) (f span)
  | struct fields span => struct (mapFields f fields) (f span)
  | index target place span => index (target.mapSpans f) (place.mapSpans f) (f span)
  | assignIndex target place value span =>
    assignIndex (target.mapSpans f) (place.mapSpans f) (value.mapSpans f) (f span)
  | member target name span => member (target.mapSpans f) (name.mapSpan f) (f span)
  | assignMember target name value span =>
    assignMember (target.mapSpans f) (name.mapSpan f) (value.mapSpans f) (f span)
  | binary op left right span => binary op (left.mapSpans f) (right.mapSpans f) (f span)
  | unary op operand span => unary op (operand.mapSpans f) (f span)
  | call callee arguments span => call (callee.mapSpan f) (mapItems f arguments) (f span)
  | paren inner span => paren (inner.mapSpans f) (f span)

def mapItems (f : Span → Span) : List Expr → List Expr
  | [] => []
  | e :: rest => e.mapSpans f :: mapItems f rest

def mapFields (f : Span → Span) : List (Name × Expr) → List (Name × Expr)
  | [] => []
  | (name, e) :: rest => (name.mapSpan f, e.mapSpans f) :: mapFields f rest

end

mutual

theorem mapSpans_id : ∀ e : Expr, e.mapSpans id = e
  | literal _ _ => rfl
  | .variable _ => rfl
  | assign _ value _ => by simp [mapSpans, Name.mapSpan, mapSpans_id value]
  | adjust _ _ _ => rfl
  | array items _ => by simp [mapSpans, mapItems_id items]
  | arrayOfSize size _ => by simp [mapSpans, mapSpans_id size]
  | struct fields _ => by simp [mapSpans, mapFields_id fields]
  | index target place _ => by simp [mapSpans, mapSpans_id target, mapSpans_id place]
  | assignIndex target place value _ => by
    simp [mapSpans, mapSpans_id target, mapSpans_id place, mapSpans_id value]
  | member target _ _ => by simp [mapSpans, Name.mapSpan, mapSpans_id target]
  | assignMember target _ value _ => by
    simp [mapSpans, Name.mapSpan, mapSpans_id target, mapSpans_id value]
  | binary _ left right _ => by simp [mapSpans, mapSpans_id left, mapSpans_id right]
  | unary _ operand _ => by simp [mapSpans, mapSpans_id operand]
  | call _ arguments _ => by simp [mapSpans, Name.mapSpan, mapItems_id arguments]
  | paren inner _ => by simp [mapSpans, mapSpans_id inner]

theorem mapItems_id : ∀ items : List Expr, mapItems id items = items
  | [] => rfl
  | e :: rest => by simp [mapItems, mapSpans_id e, mapItems_id rest]

theorem mapFields_id : ∀ fields : List (Name × Expr), mapFields id fields = fields
  | [] => rfl
  | (_, e) :: rest => by simp [mapFields, Name.mapSpan, mapSpans_id e, mapFields_id rest]

end

end Expr

namespace Stmt

mutual

/-- The statement with all its places changed. -/
def mapSpans (f : Span → Span) : Stmt → Stmt
  | declare name init span => declare (name.mapSpan f) (init.map (Expr.mapSpans f)) (f span)
  | function name params body span =>
    function (name.mapSpan f) (params.map (Name.mapSpan f)) (mapBody f body) (f span)
  | block body span => block (mapBody f body) (f span)
  | branch condition thenBranch elseBranch span =>
    branch (condition.mapSpans f) (thenBranch.mapSpans f) (mapElse f elseBranch) (f span)
  | loop condition body span => loop (condition.mapSpans f) (body.mapSpans f) (f span)
  | jump kind span => jump kind (f span)
  | transfer kind value span => transfer kind (value.map (Expr.mapSpans f)) (f span)
  | attempt body bodySpan param handler handlerSpan span =>
    attempt (mapBody f body) (f bodySpan) (param.map (Name.mapSpan f)) (mapBody f handler)
      (f handlerSpan) (f span)
  | expression value span => expression (value.mapSpans f) (f span)
  | empty span => empty (f span)

def mapBody (f : Span → Span) : List Stmt → List Stmt
  | [] => []
  | s :: rest => s.mapSpans f :: mapBody f rest

def mapElse (f : Span → Span) : Option Stmt → Option Stmt
  | some s => some (s.mapSpans f)
  | none => none

end

theorem map_mapSpans_id (value : Option Expr) : value.map (Expr.mapSpans id) = value := by
  cases value with
  | none => rfl
  | some e => exact congrArg some e.mapSpans_id

theorem map_mapSpan_id (names : List Name) : names.map (Name.mapSpan id) = names :=
  List.map_id names

mutual

theorem mapSpans_id : ∀ s : Stmt, s.mapSpans id = s
  | declare _ init _ => by simp [mapSpans, Name.mapSpan, map_mapSpans_id init]
  | function _ params body _ => by
    simp [mapSpans, map_mapSpan_id params, mapBody_id body, Name.mapSpan]
  | block body _ => by simp [mapSpans, mapBody_id body]
  | branch condition thenBranch elseBranch _ => by
    simp [mapSpans, condition.mapSpans_id, mapSpans_id thenBranch, mapElse_id elseBranch]
  | loop condition body _ => by simp [mapSpans, condition.mapSpans_id, mapSpans_id body]
  | jump _ _ => rfl
  | transfer _ value _ => by simp [mapSpans, map_mapSpans_id value]
  | attempt body _ param handler _ _ => by
    cases param <;> simp [mapSpans, Name.mapSpan, mapBody_id body, mapBody_id handler]
  | expression value _ => by simp [mapSpans, value.mapSpans_id]
  | empty _ => rfl

theorem mapBody_id : ∀ body : List Stmt, mapBody id body = body
  | [] => rfl
  | s :: rest => by simp [mapBody, mapSpans_id s, mapBody_id rest]

theorem mapElse_id : ∀ other : Option Stmt, mapElse id other = other
  | none => rfl
  | some s => congrArg some (mapSpans_id s)

end

end Stmt

namespace FunctionDef

def mapSpans (f : Span → Span) (definition : FunctionDef) : FunctionDef :=
  ⟨definition.name.mapSpan f, definition.params.map (Name.mapSpan f),
    Stmt.mapBody f definition.body, f definition.span⟩

theorem mapSpans_id (definition : FunctionDef) : definition.mapSpans id = definition := by
  unfold mapSpans
  rw [Stmt.map_mapSpan_id, Stmt.mapBody_id]
  rfl

end FunctionDef

end ScriptEngine
