import ScriptEngine.Tree.Cursor

/-!
Reading expressions. A chain of binary operators is read by strength: the operand on the right of an
operator takes only stronger operators, so that operators of one strength group to the left. An
assignment reaches as far right as it can.
-/
namespace ScriptEngine

namespace Symbol

def binaryOp? : Symbol → Option BinaryOp
  | plus => some .add
  | minus => some .sub
  | star => some .mul
  | slash => some .div
  | percent => some .mod
  | equal => some .equal
  | notEqual => some .notEqual
  | less => some .less
  | greater => some .greater
  | lessEqual => some .lessEqual
  | greaterEqual => some .greaterEqual
  | and => some .and
  | or => some .or
  | _ => none

def unaryOp? : Symbol → Option UnaryOp
  | minus => some .negate
  | not => some .not
  | _ => none

end Symbol

namespace TokenKind

def binaryOp? : TokenKind → Option BinaryOp
  | symbol s => s.binaryOp?
  | _ => none

def unaryOp? : TokenKind → Option UnaryOp
  | symbol s => s.unaryOp?
  | _ => none

/-- The value of a token that is a literal by itself. -/
def literal? : TokenKind → Option Literal
  | integer value => some (.integer value)
  | float value => some (.float value)
  | string text => some (.string text)
  | keyword .true => some (.boolean true)
  | keyword .false => some (.boolean false)
  | keyword .null => some .null
  | _ => none

end TokenKind

namespace Reader

mutual

def expression : Nat → Reader Expr
  | 0 => exhausted
  | fuel + 1 => chain fuel 1

/-- Operands joined by operators of at least the given strength. -/
def chain : Nat → Nat → Reader Expr
  | 0, _ => exhausted
  | fuel + 1, least => do
    let left ← unary fuel
    operators fuel least left

/-- The operators that follow an operand, with their right operands. -/
def operators : Nat → Nat → Expr → Reader Expr
  | 0, _, _ => exhausted
  | fuel + 1, least, left => do
    match (← kind).binaryOp? with
    | none => pure left
    | some op =>
      if op.strength < least then pure left
      else
        let _ ← next
        let right ← chain fuel (op.strength + 1)
        operators fuel least (.binary op left right (left.span.merge right.span))

def unary : Nat → Reader Expr
  | 0 => exhausted
  | fuel + 1 => do
    match (← kind).unaryOp? with
    | none => postfixed fuel
    | some op =>
      let start ← next
      let operand ← nested (unary fuel)
      pure (.unary op operand (start.merge operand.span))

def postfixed : Nat → Reader Expr
  | 0 => exhausted
  | fuel + 1 => do
    let target ← primary fuel
    suffixes fuel target

/-- Indices and members that follow an expression; an assignment to one of them ends the row. -/
def suffixes : Nat → Expr → Reader Expr
  | 0, _ => exhausted
  | fuel + 1, target => do
    match ← kind with
    | .symbol .leftBracket =>
      let _ ← next
      let index ← expression fuel
      let _ ← expect (.symbol .rightBracket)
      if ← accept (.symbol .assign) then
        let value ← expression fuel
        pure (.assignIndex target index value (target.span.merge value.span))
      else
        suffixes fuel (.index target index (← spanFrom target.span))
    | .symbol .dot =>
      let _ ← next
      let member ← name
      if ← accept (.symbol .assign) then
        let value ← expression fuel
        pure (.assignMember target member value (target.span.merge value.span))
      else suffixes fuel (.member target member (target.span.merge member.span))
    | _ => pure target

def primary : Nat → Reader Expr
  | 0 => exhausted
  | fuel + 1 => do
    match ← kind with
    | .keyword .array => arrayLiteral fuel
    | .keyword .struct => structLiteral fuel
    | .symbol .leftParen =>
      let start ← next
      let inner ← nested (expression fuel)
      let _ ← expect (.symbol .rightParen)
      pure (.paren inner (← spanFrom start))
    | .name _ => named fuel
    | other =>
      match other.literal? with
      | some value => pure (.literal value (← next))
      | none => fail .expectedExpression

/-- What begins with a name: an assignment, a step, a call, or the variable itself. -/
def named : Nat → Reader Expr
  | 0 => exhausted
  | fuel + 1 => do
    let target ← name
    match ← kind with
    | .symbol .assign =>
      let _ ← next
      let value ← expression fuel
      pure (.assign target value (target.span.merge value.span))
    | .symbol .plusPlus => pure (.adjust target .increment (target.span.merge (← next)))
    | .symbol .minusMinus => pure (.adjust target .decrement (target.span.merge (← next)))
    | .symbol .leftParen =>
      let _ ← next
      let arguments ← expressions fuel .rightParen
      pure (.call target arguments (← spanFrom target.span))
    | _ => pure (.variable target)

/-- Expressions with commas between them, and the symbol that closes the list. -/
def expressions : Nat → Symbol → Reader (List Expr)
  | 0, _ => exhausted
  | fuel + 1, close => do
    if (← kind) = .symbol close then
      let _ ← next
      pure []
    else
      let items ← someExpressions fuel
      let _ ← expect (.symbol close)
      pure items

def someExpressions : Nat → Reader (List Expr)
  | 0 => exhausted
  | fuel + 1 => do
    let item ← expression fuel
    if ← accept (.symbol .comma) then
      let items ← someExpressions fuel
      pure (item :: items)
    else pure [item]

def arrayLiteral : Nat → Reader Expr
  | 0 => exhausted
  | fuel + 1 => do
    let start ← next
    match ← kind with
    | .symbol .leftBrace =>
      let _ ← next
      let items ← expressions fuel .rightBrace
      pure (.array items (← spanFrom start))
    | .symbol .leftBracket =>
      let _ ← next
      let size ← expression fuel
      let _ ← expect (.symbol .rightBracket)
      pure (.arrayOfSize size (← spanFrom start))
    | _ => fail .expectedAggregate

def structLiteral : Nat → Reader Expr
  | 0 => exhausted
  | fuel + 1 => do
    let start ← next
    let _ ← expect (.symbol .leftBrace)
    let fields ← structFields fuel []
    let _ ← expect (.symbol .rightBrace)
    pure (.struct fields (← spanFrom start))

/-- The fields up to a closing brace; `seen` are the names of those before. -/
def structFields : Nat → List String → Reader (List (Name × Expr))
  | 0, _ => exhausted
  | fuel + 1, seen => do
    let ahead ← kind
    if ahead = .symbol .rightBrace ∨ ahead = .endOfFile then pure []
    else
      let field ← name
      let _ ← expect (.symbol .assign)
      let value ← expression fuel
      let _ ← expect (.symbol .semicolon)
      complainIf (field.text ∈ seen) (.duplicateField field.text) field.span
      let fields ← structFields fuel (field.text :: seen)
      pure ((field, value) :: fields)

end

end Reader

end ScriptEngine
