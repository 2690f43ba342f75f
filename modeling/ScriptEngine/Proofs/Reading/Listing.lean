import ScriptEngine.Tree.StmtReader

/-!
A tree written back as tokens, and a tree without the places of its parts. The listing writes each
node the way the grammar does and adds nothing of its own: an operand gets no parentheses unless the
tree has a node for them.
-/
namespace ScriptEngine

namespace Literal

def kind : Literal → TokenKind
  | integer value => .integer value
  | float value => .float value
  | string text => .string text
  | boolean true => .keyword .true
  | boolean false => .keyword .false
  | null => .keyword .null

theorem kind_of_literal? {k : TokenKind} {l : Literal} (h : k.literal? = some l) : l.kind = k := by
  cases k with
  | integer value | float value | string text =>
    cases h
    rfl
  | keyword w => cases w <;> cases h <;> rfl
  | _ => cases h

end Literal

namespace BinaryOp

def symbol : BinaryOp → Symbol
  | add => .plus
  | sub => .minus
  | mul => .star
  | div => .slash
  | mod => .percent
  | equal => .equal
  | notEqual => .notEqual
  | less => .less
  | greater => .greater
  | lessEqual => .lessEqual
  | greaterEqual => .greaterEqual
  | and => .and
  | or => .or

theorem binaryOp?_symbol (op : BinaryOp) : (TokenKind.symbol op.symbol).binaryOp? = some op := by
  cases op <;> rfl

theorem symbol_of_binaryOp? {k : TokenKind} {op : BinaryOp} (h : k.binaryOp? = some op) :
    k = .symbol op.symbol := by
  cases k with
  | symbol s =>
    cases s <;> simp only [TokenKind.binaryOp?, Symbol.binaryOp?, Option.some.injEq, reduceCtorEq] at h
      <;> subst h <;> rfl
  | _ => simp [TokenKind.binaryOp?] at h

/-- Every operator on two operands binds less tightly than those on one. -/
theorem strength_le (op : BinaryOp) : op.strength ≤ 6 := by
  cases op <;> decide

theorem strength_pos (op : BinaryOp) : 1 ≤ op.strength := by
  cases op <;> decide

end BinaryOp

namespace UnaryOp

def symbol : UnaryOp → Symbol
  | negate => .minus
  | not => .not

theorem unaryOp?_symbol (op : UnaryOp) : (TokenKind.symbol op.symbol).unaryOp? = some op := by
  cases op <;> rfl

theorem symbol_of_unaryOp? {k : TokenKind} {op : UnaryOp} (h : k.unaryOp? = some op) :
    k = .symbol op.symbol := by
  cases k with
  | symbol s =>
    cases s <;> simp only [TokenKind.unaryOp?, Symbol.unaryOp?, Option.some.injEq, reduceCtorEq] at h
      <;> subst h <;> rfl
  | _ => simp [TokenKind.unaryOp?] at h

end UnaryOp

def Step.symbol : Step → Symbol
  | increment => .plusPlus
  | decrement => .minusMinus

namespace LoopJump

def word : LoopJump → Keyword
  | .break => .break
  | .continue => .continue

theorem word_of_loopJump? {w : Keyword} {j : LoopJump} (h : w.loopJump? = some j) : j.word = w := by
  unfold Keyword.loopJump? at h
  split at h <;> simp only [Option.some.injEq, reduceCtorEq] at h <;> subst h <;> rfl

end LoopJump

namespace Transfer

def word : Transfer → Keyword
  | .return => .return
  | exit => .exit
  | throw => .throw

theorem word_of_transfer? {w : Keyword} {kind : Transfer} (h : w.transfer? = some kind) :
    kind.word = w := by
  unfold Keyword.transfer? at h
  split at h <;> simp only [Option.some.injEq, reduceCtorEq] at h <;> subst h <;> rfl

end Transfer

/-! Tokens -/

namespace Expr

mutual

/-- The tokens of an expression, in reading order. -/
def tokens : Expr → List TokenKind
  | literal value _ => [value.kind]
  | .variable name => [.name name.text]
  | assign target value _ => .name target.text :: .symbol .assign :: value.tokens
  | adjust target step _ => [.name target.text, .symbol step.symbol]
  | array items _ =>
    .keyword .array :: .symbol .leftBrace :: (itemTokens items ++ [.symbol .rightBrace])
  | arrayOfSize size _ =>
    .keyword .array :: .symbol .leftBracket :: (size.tokens ++ [.symbol .rightBracket])
  | struct fields _ =>
    .keyword .struct :: .symbol .leftBrace :: (fieldTokens fields ++ [.symbol .rightBrace])
  | index target place _ =>
    target.tokens ++ .symbol .leftBracket :: (place.tokens ++ [.symbol .rightBracket])
  | assignIndex target place value _ =>
    target.tokens ++ .symbol .leftBracket ::
      (place.tokens ++ .symbol .rightBracket :: .symbol .assign :: value.tokens)
  | member target name _ => target.tokens ++ [.symbol .dot, .name name.text]
  | assignMember target name value _ =>
    target.tokens ++ .symbol .dot :: .name name.text :: .symbol .assign :: value.tokens
  | binary op left right _ => left.tokens ++ .symbol op.symbol :: right.tokens
  | unary op operand _ => .symbol op.symbol :: operand.tokens
  | call callee arguments _ =>
    .name callee.text :: .symbol .leftParen :: (itemTokens arguments ++ [.symbol .rightParen])
  | paren inner _ => .symbol .leftParen :: (inner.tokens ++ [.symbol .rightParen])

/-- Expressions with commas between them. -/
def itemTokens : List Expr → List TokenKind
  | [] => []
  | [e] => e.tokens
  | e :: next :: rest => e.tokens ++ .symbol .comma :: itemTokens (next :: rest)

/-- The fields of a struct, each with a semicolon behind it. -/
def fieldTokens : List (Name × Expr) → List TokenKind
  | [] => []
  | (name, e) :: rest =>
    .name name.text :: .symbol .assign :: (e.tokens ++ .symbol .semicolon :: fieldTokens rest)

end

end Expr

namespace Stmt

/-- Names with commas between them. -/
def nameTokens : List Name → List TokenKind
  | [] => []
  | [name] => [.name name.text]
  | name :: next :: rest => .name name.text :: .symbol .comma :: nameTokens (next :: rest)

def initTokens (init : Option Expr) : List TokenKind :=
  init.elim [] fun e => .symbol .assign :: e.tokens

def valueTokens (value : Option Expr) : List TokenKind := value.elim [] Expr.tokens

def handlerTokens (param : Option Name) : List TokenKind :=
  param.elim [] fun name => [.symbol .leftParen, .name name.text, .symbol .rightParen]

def braced (body : List TokenKind) : List TokenKind :=
  .symbol .leftBrace :: (body ++ [.symbol .rightBrace])

mutual

/-- The tokens of a statement, in reading order. -/
def tokens : Stmt → List TokenKind
  | declare name init _ =>
    .keyword .var :: .name name.text :: (initTokens init ++ [.symbol .semicolon])
  | function name params body _ =>
    .keyword .function :: .name name.text :: .symbol .leftParen ::
      (nameTokens params ++ .symbol .rightParen :: braced (bodyTokens body))
  | block body _ => braced (bodyTokens body)
  | branch condition thenBranch elseBranch _ =>
    .keyword .if :: .symbol .leftParen ::
      (condition.tokens ++ .symbol .rightParen :: (thenBranch.tokens ++ elseTokens elseBranch))
  | loop condition body _ =>
    .keyword .while :: .symbol .leftParen ::
      (condition.tokens ++ .symbol .rightParen :: body.tokens)
  | jump kind _ => [.keyword kind.word, .symbol .semicolon]
  | transfer kind value _ => .keyword kind.word :: (valueTokens value ++ [.symbol .semicolon])
  | attempt body _ param handler _ _ =>
    .keyword .try :: (braced (bodyTokens body) ++
      .keyword .catch :: (handlerTokens param ++ braced (bodyTokens handler)))
  | expression value _ => value.tokens ++ [.symbol .semicolon]
  | empty _ => [.symbol .semicolon]

def bodyTokens : List Stmt → List TokenKind
  | [] => []
  | s :: rest => s.tokens ++ bodyTokens rest

def elseTokens : Option Stmt → List TokenKind
  | some s => .keyword .else :: s.tokens
  | none => []

end

end Stmt

def Program.tokens (program : Program) : List TokenKind := Stmt.bodyTokens program.body

/-! Trees without places -/

def Name.bare (name : Name) : Name := ⟨name.text, default⟩

namespace Expr

mutual

def bare : Expr → Expr
  | literal value _ => literal value default
  | .variable name => .variable name.bare
  | assign target value _ => assign target.bare value.bare default
  | adjust target step _ => adjust target.bare step default
  | array items _ => array (bareItems items) default
  | arrayOfSize size _ => arrayOfSize size.bare default
  | struct fields _ => struct (bareFields fields) default
  | index target place _ => index target.bare place.bare default
  | assignIndex target place value _ => assignIndex target.bare place.bare value.bare default
  | member target name _ => member target.bare name.bare default
  | assignMember target name value _ => assignMember target.bare name.bare value.bare default
  | binary op left right _ => binary op left.bare right.bare default
  | unary op operand _ => unary op operand.bare default
  | call callee arguments _ => call callee.bare (bareItems arguments) default
  | paren inner _ => paren inner.bare default

def bareItems : List Expr → List Expr
  | [] => []
  | e :: rest => e.bare :: bareItems rest

def bareFields : List (Name × Expr) → List (Name × Expr)
  | [] => []
  | (name, e) :: rest => (name.bare, e.bare) :: bareFields rest

end

end Expr

namespace Stmt

mutual

def bare : Stmt → Stmt
  | declare name init _ => declare name.bare (init.map Expr.bare) default
  | function name params body _ =>
    function name.bare (params.map Name.bare) (bareBody body) default
  | block body _ => block (bareBody body) default
  | branch condition thenBranch elseBranch _ =>
    branch condition.bare thenBranch.bare (bareElse elseBranch) default
  | loop condition body _ => loop condition.bare body.bare default
  | jump kind _ => jump kind default
  | transfer kind value _ => transfer kind (value.map Expr.bare) default
  | attempt body _ param handler _ _ =>
    attempt (bareBody body) default (param.map Name.bare) (bareBody handler) default default
  | expression value _ => expression value.bare default
  | empty _ => empty default

def bareBody : List Stmt → List Stmt
  | [] => []
  | s :: rest => s.bare :: bareBody rest

def bareElse : Option Stmt → Option Stmt
  | some s => some s.bare
  | none => none

end

end Stmt

/-- The program without the places of its parts. -/
def Program.bare (program : Program) : Program := ⟨Stmt.bareBody program.body, default⟩

namespace Expr

mutual

/-- Places are not part of the listing. -/
theorem tokens_bare : ∀ e : Expr, e.bare.tokens = e.tokens
  | literal _ _ => rfl
  | .variable _ => rfl
  | assign _ value _ => by simp [bare, tokens, Name.bare, tokens_bare value]
  | adjust _ _ _ => rfl
  | array items _ => by simp [bare, tokens, itemTokens_bare items]
  | arrayOfSize size _ => by simp [bare, tokens, tokens_bare size]
  | struct fields _ => by simp [bare, tokens, fieldTokens_bare fields]
  | index target place _ => by simp [bare, tokens, tokens_bare target, tokens_bare place]
  | assignIndex target place value _ => by
    simp [bare, tokens, tokens_bare target, tokens_bare place, tokens_bare value]
  | member target _ _ => by simp [bare, tokens, Name.bare, tokens_bare target]
  | assignMember target _ value _ => by
    simp [bare, tokens, Name.bare, tokens_bare target, tokens_bare value]
  | binary _ left right _ => by simp [bare, tokens, tokens_bare left, tokens_bare right]
  | unary _ operand _ => by simp [bare, tokens, tokens_bare operand]
  | call _ arguments _ => by simp [bare, tokens, Name.bare, itemTokens_bare arguments]
  | paren inner _ => by simp [bare, tokens, tokens_bare inner]

theorem itemTokens_bare : ∀ items : List Expr, itemTokens (bareItems items) = itemTokens items
  | [] => rfl
  | [e] => by simp [bareItems, itemTokens, tokens_bare e]
  | e :: next :: rest => by
    have h := itemTokens_bare (next :: rest)
    simp only [bareItems] at h
    simp [bareItems, itemTokens, tokens_bare e, h]

theorem fieldTokens_bare : ∀ fields : List (Name × Expr),
    fieldTokens (bareFields fields) = fieldTokens fields
  | [] => rfl
  | (_, e) :: rest => by
    simp [bareFields, fieldTokens, Name.bare, tokens_bare e, fieldTokens_bare rest]

end

end Expr

namespace Stmt

theorem nameTokens_bare (names : List Name) : nameTokens (names.map Name.bare) = nameTokens names := by
  induction names with
  | nil => rfl
  | cons name rest ih =>
    cases rest with
    | nil => rfl
    | cons next rest =>
      simp only [List.map_cons] at ih ⊢
      rw [nameTokens, ih]
      rfl

theorem initTokens_bare (init : Option Expr) : initTokens (init.map Expr.bare) = initTokens init := by
  cases init <;> simp [initTokens, Expr.tokens_bare]

theorem valueTokens_bare (value : Option Expr) :
    valueTokens (value.map Expr.bare) = valueTokens value := by
  cases value <;> simp [valueTokens, Expr.tokens_bare]

theorem handlerTokens_bare (param : Option Name) :
    handlerTokens (param.map Name.bare) = handlerTokens param := by
  cases param <;> rfl

mutual

theorem tokens_bare : ∀ s : Stmt, s.bare.tokens = s.tokens
  | declare _ init _ => by simp [bare, tokens, Name.bare, initTokens_bare init]
  | function _ params body _ => by
    simp [bare, tokens, Name.bare, nameTokens_bare params, bodyTokens_bare body]
  | block body _ => by simp [bare, tokens, bodyTokens_bare body]
  | branch condition thenBranch elseBranch _ => by
    simp [bare, tokens, Expr.tokens_bare, tokens_bare thenBranch, elseTokens_bare elseBranch]
  | loop condition body _ => by simp [bare, tokens, Expr.tokens_bare, tokens_bare body]
  | jump _ _ => rfl
  | transfer _ value _ => by simp [bare, tokens, valueTokens_bare value]
  | attempt body _ param handler _ _ => by
    simp [bare, tokens, bodyTokens_bare body, handlerTokens_bare param, bodyTokens_bare handler]
  | expression value _ => by simp [bare, tokens, Expr.tokens_bare]
  | empty _ => rfl

theorem bodyTokens_bare : ∀ body : List Stmt, bodyTokens (bareBody body) = bodyTokens body
  | [] => rfl
  | s :: rest => by simp [bareBody, bodyTokens, tokens_bare s, bodyTokens_bare rest]

theorem elseTokens_bare : ∀ other : Option Stmt, elseTokens (bareElse other) = elseTokens other
  | none => rfl
  | some s => by simp [bareElse, elseTokens, tokens_bare s]

end

end Stmt

theorem Program.tokens_bare (program : Program) : program.bare.tokens = program.tokens :=
  Stmt.bodyTokens_bare program.body

end ScriptEngine
