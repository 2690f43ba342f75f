import ScriptEngine.Tree.Basic

/-!
The parts of code. Code is made of expressions, statements and bodies. Some parts run in the frame of
the whole; the bodies of blocks, handlers and functions get a frame of their own.
-/
namespace ScriptEngine

/-- The expressions in an expression, in the order in which they are evaluated. -/
def Expr.operands : Expr → List Expr
  | literal _ _ => []
  | .variable _ => []
  | assign _ value _ => [value]
  | adjust _ _ _ => []
  | array items _ => items
  | arrayOfSize size _ => [size]
  | struct fields _ => fields.map Prod.snd
  | index target place _ => [target, place]
  | assignIndex target place value _ => [target, place, value]
  | member target _ _ => [target]
  | assignMember target _ value _ => [target, value]
  | binary _ left right _ => [left, right]
  | unary _ operand _ => [operand]
  | call _ arguments _ => arguments
  | paren inner _ => [inner]

/-- The name that is looked up before the operands are evaluated. -/
def Expr.subject? : Expr → Option Name
  | assign target _ _ => some target
  | call callee _ _ => some callee
  | _ => none

/-- The expression that a statement evaluates first. -/
def Stmt.operand? : Stmt → Option Expr
  | declare _ init _ => init
  | branch condition _ _ _ => some condition
  | loop condition _ _ => some condition
  | transfer _ value _ => value
  | expression value _ => some value
  | _ => none

/-- The statement that declares the function. -/
def FunctionDef.declaration (definition : FunctionDef) : Stmt :=
  .function definition.name definition.params definition.body definition.span

inductive Code where
  | expr (e : Expr)
  | stmt (s : Stmt)
  | stmts (body : List Stmt)

namespace Code

/-- The second is a part of the first that runs in the same frame. -/
inductive Part : Code → Code → Prop where
  | operand {e x} (h : x ∈ e.operands) : Part (.expr e) (.expr x)
  | evaluated {s e} (h : s.operand? = some e) : Part (.stmt s) (.expr e)
  | thenBranch {condition s other span} : Part (.stmt (.branch condition s other span)) (.stmt s)
  | elseBranch {condition s other span} :
      Part (.stmt (.branch condition s (some other) span)) (.stmt other)
  | pass {condition body span} : Part (.stmt (.loop condition body span)) (.stmt body)
  | first {s rest} : Part (.stmts (s :: rest)) (.stmt s)
  | rest {s rest} : Part (.stmts (s :: rest)) (.stmts rest)

/-- The body is a part that runs in a frame of its own. -/
inductive Opens : Code → List Stmt → Prop where
  | block {body span} : Opens (.stmt (.block body span)) body
  | attempt {body bodySpan param handler handlerSpan span} :
      Opens (.stmt (.attempt body bodySpan param handler handlerSpan span)) body
  | handler {body bodySpan param handler handlerSpan span} :
      Opens (.stmt (.attempt body bodySpan param handler handlerSpan span)) handler
  | function {name params body span} : Opens (.stmt (.function name params body span)) body

end Code

end ScriptEngine
