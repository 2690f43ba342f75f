import ScriptEngine.Tree.ExprReader

/-!
Reading statements. A statement that cannot be read is skipped up to the next boundary, so that one
reading can complain about several statements.
-/
namespace ScriptEngine

namespace Keyword

def loopJump? : Keyword → Option LoopJump
  | .break => some .break
  | .continue => some .continue
  | _ => none

def transfer? : Keyword → Option Transfer
  | .return => some .return
  | exit => some .exit
  | throw => some .throw
  | _ => none

end Keyword

namespace Reader

/-- An expression in parentheses. -/
def condition (fuel : Nat) : Reader Expr := do
  let _ ← expect (.symbol .leftParen)
  let test ← expression fuel
  let _ ← expect (.symbol .rightParen)
  pure test

def declaration (fuel : Nat) : Reader Stmt := do
  let start ← next
  let target ← name
  let init ← after (.symbol .assign) (expression fuel)
  let _ ← expect (.symbol .semicolon)
  pure (.declare target init (← spanFrom start))

def loopJump (jump : LoopJump) : Reader Stmt := do
  let start ← next
  let _ ← expect (.symbol .semicolon)
  pure (.jump jump (← spanFrom start))

def transfer (fuel : Nat) (kind : Transfer) : Reader Stmt := do
  let start ← next
  let value ← unlessAhead (.symbol .semicolon) (expression fuel)
  let _ ← expect (.symbol .semicolon)
  pure (.transfer kind value (← spanFrom start))

def expressionStatement (fuel : Nat) : Reader Stmt := do
  let value ← expression fuel
  let _ ← expect (.symbol .semicolon)
  pure (.expression value (← spanFrom value.span))

/-- Parameters with commas between them; `seen` are the names of those before. -/
def parameters : Nat → List String → Reader (List Name)
  | 0, _ => exhausted
  | fuel + 1, seen => do
    let param ← name
    complainIf (param.text ∈ seen) (.duplicateParameter param.text) param.span
    if ← accept (.symbol .comma) then
      let params ← parameters fuel (param.text :: seen)
      pure (param :: params)
    else pure [param]

def parameterList (fuel : Nat) : Reader (List Name) := do
  let _ ← expect (.symbol .leftParen)
  let params ← unlessAhead (.symbol .rightParen) (parameters fuel [])
  let _ ← expect (.symbol .rightParen)
  pure (params.getD [])

/-- The parameter of a handler, when it has one. -/
def handlerParameter : Reader (Option Name) :=
  after (.symbol .leftParen) do
    let param ← name
    let _ ← expect (.symbol .rightParen)
    pure param

/-- Reads a statement if it can; otherwise goes on after it. -/
def orRecover (statement : Reader Stmt) : Reader (Option Stmt) := fun c =>
  match statement c with
  | .done s c => .done (some s) c
  | .failed c' => .done none (c.recover c')
  | .exhausted => .exhausted

/-- No more complaints would be taken. -/
def isFull : Reader Bool := fun c => .done c.isFull c

mutual

def statement : Nat → Reader Stmt
  | 0 => exhausted
  | fuel + 1 => nested (statementKind fuel)

def statementKind : Nat → Reader Stmt
  | 0 => exhausted
  | fuel + 1 => do
    match ← kind with
    | .symbol .leftBrace =>
      let (body, span) ← block fuel
      pure (.block body span)
    | .symbol .semicolon => Stmt.empty <$> next
    | .keyword .var => declaration fuel
    | .keyword .function => function fuel
    | .keyword .if => branch fuel
    | .keyword .while => loop fuel
    | .keyword .try => attempt fuel
    | .keyword word =>
      match word.loopJump?, word.transfer? with
      | some jump, _ => loopJump jump
      | none, some kind => transfer fuel kind
      | none, none => expressionStatement fuel
    | _ => expressionStatement fuel

/-- The statements up to a closing brace. -/
def statements : Nat → Reader (List Stmt)
  | 0 => exhausted
  | fuel + 1 => do
    let ahead ← kind
    if ahead = .symbol .rightBrace ∨ ahead = .endOfFile then pure []
    else if ← isFull then pure []
    else
      let first ← orRecover (statement fuel)
      let others ← statements fuel
      pure (first.toList ++ others)

def block : Nat → Reader (List Stmt × Span)
  | 0 => exhausted
  | fuel + 1 => do
    let start ← expect (.symbol .leftBrace)
    let body ← statements fuel
    let _ ← expect (.symbol .rightBrace)
    pure (body, ← spanFrom start)

def function : Nat → Reader Stmt
  | 0 => exhausted
  | fuel + 1 => do
    let start ← next
    let target ← name
    let params ← parameterList fuel
    let (body, _) ← block fuel
    pure (.function target params body (← spanFrom start))

def branch : Nat → Reader Stmt
  | 0 => exhausted
  | fuel + 1 => do
    let start ← next
    let test ← condition fuel
    let thenBranch ← statement fuel
    let elseBranch ← after (.keyword .else) (statement fuel)
    pure (.branch test thenBranch elseBranch (← spanFrom start))

def loop : Nat → Reader Stmt
  | 0 => exhausted
  | fuel + 1 => do
    let start ← next
    let test ← condition fuel
    let body ← statement fuel
    pure (.loop test body (← spanFrom start))

def attempt : Nat → Reader Stmt
  | 0 => exhausted
  | fuel + 1 => do
    let start ← next
    let (body, bodySpan) ← block fuel
    let handlerStart ← expect (.keyword .catch)
    let param ← handlerParameter
    let (handler, _) ← block fuel
    let handlerSpan ← spanFrom handlerStart
    pure (.attempt body bodySpan param handler handlerSpan (← spanFrom start))

end

/-- The statements of a whole script. A closing brace without an opening one is skipped. -/
def script : Nat → Reader (List Stmt)
  | 0 => exhausted
  | fuel + 1 => do
    let ahead ← kind
    if ahead = .endOfFile then pure []
    else if ← isFull then pure []
    else if ahead = .symbol .rightBrace then
      complain .strayBrace (← here)
      let _ ← next
      script fuel
    else
      let first ← orRecover (statement fuel)
      let others ← script fuel
      pure (first.toList ++ others)

end Reader

end ScriptEngine
