import ScriptEngine.Run.Native
import ScriptEngine.Text.Character

/-!
Running statements and evaluating expressions. Statements run in a frame; blocks, handlers and calls
get a frame of their own, which is gone when they end, however they end. The frame of a call is below
the frame in which the function was declared, so a function sees the names around its declaration.
Fuel bounds the recursion; the limit bounds the depth of calls.
-/
namespace ScriptEngine

namespace Eval

/-- Runs something in a new frame below `parent`. -/
@[inline] def inChild {α : Type} (parent : FrameId) (body : FrameId → Eval α) : Eval α := fun m =>
  let (frame, store) := m.store.newChild parent
  (body frame { m with store := store }).mapMachine
    fun m => { m with store := m.store.dropFrame frame }

def setLocal (frame : FrameId) (name : Name) (v : Value) : Eval Unit :=
  change (·.setLocal frame name.text v)

def declare (frame : FrameId) (name : Name) (v : Value) : Eval Unit := do
  if ← ask (·.hasLocal frame name.text) then
    fail (.scope (.alreadyDeclared name.text)) name.span
  else setLocal frame name v

/-- The innermost frame that has the name. -/
def resolve (scope : FrameId) (name : Name) : Eval FrameId := fun m =>
  match m.store.resolve scope name.text with
  | some frame => .done frame m
  | none => .failed (.scope (.notDeclared name.text)) name.span m

/-- The value of a variable; callables can be called but are no values. -/
def readVariable (scope : FrameId) (name : Name) : Eval Value := fun m =>
  match m.store.read scope name.text with
  | .error fault => .failed (.scope fault) name.span m
  | .ok v => if v.isCallable then .failed .functionAsValue name.span m else .done v m

def writeVariable (scope : FrameId) (name : Name) (v : Value) : Eval Unit := do
  let frame ← resolve scope name
  setLocal frame name v

/-- Changes a variable, as an integer, by one; the result is the value before. -/
def adjust (scope : FrameId) (name : Name) (step : Step) : Eval Value := do
  let old ← readVariable scope name
  let n := old.toInt32
  let new :=
    match step with
    | .increment => n + 1
    | .decrement => n - 1
  writeVariable scope name (.integer new)
  pure old

def newArray (items : Array Value) : Eval Value := add (·.newArray items)

def newStruct (fields : Entries Value) : Eval Value := add (·.newStruct fields)

def newArrayOfSize (size : Int32) (place : Span) : Eval Value :=
  if size < 0 then fail (.negativeSize size) place
  else newArray (Array.replicate size.toInt.toNat .null)

/-- The position that an index stands for. -/
def position (index : Int32) (length : Nat) (place : Span) : Eval Nat :=
  if 0 ≤ index ∧ index.toInt.toNat < length then pure index.toInt.toNat
  else fail (.indexOutOfBounds index length) place

def readIndex (target : Value) (index : Int32) (place : Span) : Eval Value :=
  match target with
  | .array cell => do
    let items ← ask (·.items cell)
    let i ← position index items.size place
    pure (items.getD i .null)
  | .string text => do
    let i ← position index text.length place
    pure (match Text.charAt? text i with
      | some c => .string c.toString
      | none => .null)
  | other => fail (.mismatch .arrayOrString other.typeName) place

def writeIndex (target : Value) (index : Int32) (v : Value) (place : Span) : Eval Value :=
  match target with
  | .array cell => do
    let size ← ask fun σ => (σ.items cell).size
    let i ← position index size place
    change (·.setItem cell i v)
    pure v
  | other => fail (.mismatch .array other.typeName) place

def readMember (target : Value) (member : Name) (place : Span) : Eval Value :=
  match target with
  | .struct cell => do
    match ← ask fun σ => (σ.fields cell).get? member.text with
    | some v => pure v
    | none => fail (.memberNotFound member.text) member.span
  | other => fail (.mismatch .struct other.typeName) place

def writeMember (target : Value) (member : Name) (v : Value) (place : Span) : Eval Value :=
  match target with
  | .struct cell => do
    if ← ask fun σ => (σ.fields cell).has member.text then
      change (·.setField cell member.text v)
      pure v
    else fail (.memberNotFound member.text) member.span
  | other => fail (.mismatch .struct other.typeName) place

def applyBinary (op : BinaryOp) (a b : Value) (place : Span) : Eval Value := fun m =>
  match op.apply m.store a b with
  | .ok v => .done v m
  | .error fault => .failed (.arithmetic fault) place m

def callNative (f : Native) (arguments : List Value) (place : Span) : Eval Value := fun m =>
  match f.call arguments m with
  | (.ok v, m) => .done v m
  | (.error fault, m) => .failed (.host fault) place m

/-- Binds the parameters to the arguments; a parameter without argument is null. -/
def bindParameters (frame : FrameId) : List Name → List Value → Eval Unit
  | [], _ => pure ()
  | param :: params, arguments => do
    setLocal frame param (arguments.headD .null)
    bindParameters frame params arguments.tail

/-- Declares what a handler calls the value that was thrown. -/
def declareThrown (frame : FrameId) (param : Option Name) (payload : Value) : Eval Unit :=
  match param with
  | some name => declare frame name payload
  | none => pure ()

def declareFunction (scope : FrameId) (definition : FunctionDef) : Eval Unit := do
  let identity ← add (·.newIdentity)
  declare scope definition.name (.function ⟨identity, definition, scope⟩)

/-- Runs the body of a call one call deeper; what it signals becomes the result of the call. A throw
or an exit goes on through the call, a loop jump cannot leave it. -/
@[inline] def asCall (place : Span) (body : Eval Unit) : Eval Value := fun m =>
  match body { m with depth := m.depth + 1 } with
  | .done _ m => .done .null { m with depth := m.depth - 1 }
  | .signalled s m =>
    let m := { m with depth := m.depth - 1 }
    match s with
    | .transfer .return v _ => .done v m
    | .transfer _ _ _ => .signalled s m
    | .jump j _ => .failed (.misplaced j.keyword) place m
  | .failed fault place m => .failed fault place { m with depth := m.depth - 1 }
  | .exhausted m => .exhausted { m with depth := m.depth - 1 }

/-- Runs a body; a throw that comes out of it is handed to the handler. Nothing else is caught. -/
@[inline] def catching (body : Eval Unit) (handler : Value → Eval Unit) : Eval Unit := fun m =>
  match body m with
  | .signalled (.transfer .throw payload _) m => handler payload m
  | other => other

/-- Runs the body of a loop, then `again`, unless the loop is left. -/
@[inline] def repeating (body again : Eval Unit) : Eval Unit := fun m =>
  match body m with
  | .done _ m => again m
  | .signalled (.jump .continue _) m => again m
  | .signalled (.jump .break _) m => .done () m
  | other => other

/-- Checks that a function can be called. -/
def checkCall (limit : Nat) (f : Closure) (place : Span) : Eval Unit := fun m =>
  if limit ≤ m.depth then .failed (.tooManyCalls limit) place m
  else if m.store.isAlive f.home then .done () m
  else .failed (.homeGone f.name) place m

mutual

def expr (limit : Nat) : Nat → FrameId → Expr → Eval Value
  | 0, _, _ => exhausted
  | fuel + 1, scope, e =>
    match e with
    | .literal value _ => pure value.toValue
    | .variable name => readVariable scope name
    | .assign target value _ => do
      let frame ← resolve scope target
      let v ← expr limit fuel scope value
      setLocal frame target v
      pure v
    | .adjust target step _ => adjust scope target step
    | .array items _ => do
      let vs ← exprs limit fuel scope items
      newArray vs.toArray
    | .arrayOfSize size place => do
      let v ← expr limit fuel scope size
      newArrayOfSize v.toInt32 place
    | .struct fields _ => do
      let entries ← fieldValues limit fuel scope [] fields
      newStruct entries
    | .index target index place => do
      let t ← expr limit fuel scope target
      let i ← expr limit fuel scope index
      readIndex t i.toInt32 place
    | .assignIndex target index value place => do
      let t ← expr limit fuel scope target
      let i ← expr limit fuel scope index
      let v ← expr limit fuel scope value
      writeIndex t i.toInt32 v place
    | .member target member place => do
      let t ← expr limit fuel scope target
      readMember t member place
    | .assignMember target member value place => do
      let t ← expr limit fuel scope target
      let v ← expr limit fuel scope value
      writeMember t member v place
    | .binary op left right place => do
      let a ← expr limit fuel scope left
      let b ← expr limit fuel scope right
      applyBinary op a b place
    | .unary op operand _ => do
      let v ← expr limit fuel scope operand
      pure (op.apply v)
    | .call callee arguments place => do
      let frame ← resolve scope callee
      let vs ← exprs limit fuel scope arguments
      match ← ask fun σ => (σ.getLocal? frame callee.text).getD .null with
      | .function f => call limit fuel f vs place
      | .native f => callNative f vs place
      | other => fail (.mismatch .function other.typeName) callee.span
    | .paren inner _ => expr limit fuel scope inner
termination_by structural fuel => fuel

def exprs (limit : Nat) : Nat → FrameId → List Expr → Eval (List Value)
  | 0, _, _ => exhausted
  | _ + 1, _, [] => pure []
  | fuel + 1, scope, e :: rest => do
    let v ← expr limit fuel scope e
    let vs ← exprs limit fuel scope rest
    pure (v :: vs)
termination_by structural fuel => fuel

/-- The fields of a struct, put to those that were evaluated before. -/
def fieldValues (limit : Nat) : Nat → FrameId → Entries Value → List (Name × Expr) →
    Eval (Entries Value)
  | 0, _, _, _ => exhausted
  | _ + 1, _, entries, [] => pure entries
  | fuel + 1, scope, entries, (name, e) :: rest => do
    let v ← expr limit fuel scope e
    fieldValues limit fuel scope (entries.put name.text v) rest
termination_by structural fuel => fuel

/-- Calls a script function. -/
def call (limit : Nat) : Nat → Closure → List Value → Span → Eval Value
  | 0, _, _, _ => exhausted
  | fuel + 1, f, arguments, place => do
    checkCall limit f place
    inChild f.home fun frame => do
      bindParameters frame f.definition.params arguments
      asCall place (stmts limit fuel frame f.definition.body)
termination_by structural fuel => fuel

def stmt (limit : Nat) : Nat → FrameId → Stmt → Eval Unit
  | 0, _, _ => exhausted
  | fuel + 1, scope, s =>
    match s with
    | .declare name init _ => do
      let v ← optional limit fuel scope init
      declare scope name v
    | .function name params body span => declareFunction scope ⟨name, params, body, span⟩
    | .block body _ => inChild scope fun frame => stmts limit fuel frame body
    | .branch condition thenBranch elseBranch _ => do
      let v ← expr limit fuel scope condition
      if v.truth then stmt limit fuel scope thenBranch
      else
        match elseBranch with
        | some other => stmt limit fuel scope other
        | none => pure ()
    | .loop condition body _ => loop limit fuel scope condition body
    | .jump j place => signal (.jump j place)
    | .transfer kind value place => do
      let v ← optional limit fuel scope value
      signal (.transfer kind v place)
    | .attempt body _ param handler _ _ =>
      catching (inChild scope fun frame => stmts limit fuel frame body) fun payload =>
        inChild scope fun frame => do
          declareThrown frame param payload
          stmts limit fuel frame handler
    | .expression e _ => do
      let _ ← expr limit fuel scope e
      pure ()
    | .empty _ => pure ()
termination_by structural fuel => fuel

def optional (limit : Nat) : Nat → FrameId → Option Expr → Eval Value
  | 0, _, _ => exhausted
  | _ + 1, _, none => pure .null
  | fuel + 1, scope, some e => expr limit fuel scope e
termination_by structural fuel => fuel

/-- Runs statements in turn, up to the first that does not simply end. -/
def stmts (limit : Nat) : Nat → FrameId → List Stmt → Eval Unit
  | 0, _, _ => exhausted
  | _ + 1, _, [] => pure ()
  | fuel + 1, scope, s :: rest => do
    stmt limit fuel scope s
    stmts limit fuel scope rest
termination_by structural fuel => fuel

def loop (limit : Nat) : Nat → FrameId → Expr → Stmt → Eval Unit
  | 0, _, _, _ => exhausted
  | fuel + 1, scope, condition, body => do
    let v ← expr limit fuel scope condition
    if v.truth then
      repeating (stmt limit fuel scope body) (loop limit fuel scope condition body)
    else pure ()
termination_by structural fuel => fuel

end

/-- Runs the statements of a script. The result is the value of the last statement when that is an
expression. -/
def script (limit fuel : Nat) (scope : FrameId) : Value → List Stmt → Eval Value
  | last, [] => pure last
  | _, .expression e _ :: rest => do
    let v ← expr limit fuel scope e
    script limit fuel scope v rest
  | _, s :: rest => do
    stmt limit fuel scope s
    script limit fuel scope .null rest

end Eval

end ScriptEngine
