import ScriptEngine.Source.Span
import ScriptEngine.Numeric.Single

/-!
The tree of a script. Every node carries the span of the text it was read from. Functions are
statements, so expressions contain no statements.
-/
namespace ScriptEngine

/-- A name where it stands in the text. -/
structure Name where
  text : String
  span : Span
  deriving DecidableEq

inductive Literal where
  | integer (value : Int32)
  | float (value : Single)
  | string (text : String)
  | boolean (value : Bool)
  | null
  deriving DecidableEq

inductive BinaryOp where
  | add | sub | mul | div | mod | equal | notEqual | less | greater | lessEqual | greaterEqual
  | and | or
  deriving DecidableEq

namespace BinaryOp

def text : BinaryOp → String
  | add => "+"
  | sub => "-"
  | mul => "*"
  | div => "/"
  | mod => "%"
  | equal => "=="
  | notEqual => "!="
  | less => "<"
  | greater => ">"
  | lessEqual => "<="
  | greaterEqual => ">="
  | and => "&&"
  | or => "||"

/-- How tightly an operator binds; a higher one binds its operands first. -/
def strength : BinaryOp → Nat
  | or => 1
  | and => 2
  | equal | notEqual => 3
  | less | greater | lessEqual | greaterEqual => 4
  | add | sub => 5
  | mul | div | mod => 6

end BinaryOp

inductive UnaryOp where
  | negate | not
  deriving DecidableEq

/-- The step by which a variable is changed in place. -/
inductive Step where
  | increment | decrement
  deriving DecidableEq

inductive Expr where
  | literal (value : Literal) (span : Span)
  | variable (name : Name)
  /-- The variable takes the value; the value is the result. -/
  | assign (target : Name) (value : Expr) (span : Span)
  /-- The variable is changed; the value before is the result. -/
  | adjust (target : Name) (step : Step) (span : Span)
  | array (items : List Expr) (span : Span)
  | arrayOfSize (size : Expr) (span : Span)
  | struct (fields : List (Name × Expr)) (span : Span)
  | index (target index : Expr) (span : Span)
  | assignIndex (target index value : Expr) (span : Span)
  | member (target : Expr) (member : Name) (span : Span)
  | assignMember (target : Expr) (member : Name) (value : Expr) (span : Span)
  | binary (op : BinaryOp) (left right : Expr) (span : Span)
  | unary (op : UnaryOp) (operand : Expr) (span : Span)
  | call (callee : Name) (arguments : List Expr) (span : Span)
  | paren (inner : Expr) (span : Span)

namespace Expr

def span : Expr → Span
  | literal _ span => span
  | .variable name => name.span
  | assign _ _ span => span
  | adjust _ _ span => span
  | array _ span => span
  | arrayOfSize _ span => span
  | struct _ span => span
  | index _ _ span => span
  | assignIndex _ _ _ span => span
  | member _ _ span => span
  | assignMember _ _ _ span => span
  | binary _ _ _ span => span
  | unary _ _ span => span
  | call _ _ span => span
  | paren _ span => span

end Expr

/-- Statements that leave the pass through a loop. -/
inductive LoopJump where
  | break | continue
  deriving DecidableEq

/-- Statements that hand a value out: to the caller, to the host, to the nearest handler. -/
inductive Transfer where
  | return | exit | throw
  deriving DecidableEq

inductive Stmt where
  | declare (name : Name) (init : Option Expr) (span : Span)
  | function (name : Name) (params : List Name) (body : List Stmt) (span : Span)
  | block (body : List Stmt) (span : Span)
  | branch (condition : Expr) (thenBranch : Stmt) (elseBranch : Option Stmt) (span : Span)
  | loop (condition : Expr) (body : Stmt) (span : Span)
  | jump (jump : LoopJump) (span : Span)
  | transfer (kind : Transfer) (value : Option Expr) (span : Span)
  /-- The handler runs when the body throws; `param` names the value thrown. -/
  | attempt (body : List Stmt) (bodySpan : Span) (param : Option Name) (handler : List Stmt)
      (handlerSpan : Span) (span : Span)
  | expression (value : Expr) (span : Span)
  | empty (span : Span)

namespace Stmt

def span : Stmt → Span
  | declare _ _ span => span
  | function _ _ _ span => span
  | block _ span => span
  | branch _ _ _ span => span
  | loop _ _ span => span
  | jump _ span => span
  | transfer _ _ span => span
  | attempt _ _ _ _ _ span => span
  | expression _ span => span
  | empty span => span

end Stmt

/-- What a function is, apart from where it was declared. -/
structure FunctionDef where
  name : Name
  params : List Name
  body : List Stmt
  span : Span

structure Program where
  body : List Stmt
  span : Span

end ScriptEngine
