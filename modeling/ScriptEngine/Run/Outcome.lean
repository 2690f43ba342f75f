import ScriptEngine.Diagnostic
import ScriptEngine.Host.Console
import ScriptEngine.Host.Files
import ScriptEngine.Store.Scope
import ScriptEngine.Value.Operators

/-!
What the evaluation of a part of a script comes to: it is done, it hands a signal to the constructs
around it, it fails for good, or it runs out of the fuel that bounds the recursion. In every case the
machine is left in some state.
-/
namespace ScriptEngine

/-- All that a running script can change. -/
structure Machine where
  store : Store
  console : Console
  files : Files
  /-- The number of script functions that are being called. -/
  depth : Nat

namespace Machine

def start : Machine := ⟨Store.empty, Console.silent, [], 0⟩

end Machine

/-- What a construct around a jump or transfer has to deal with. -/
inductive Signal where
  | jump (jump : LoopJump) (place : Span)
  | transfer (kind : Transfer) (value : Value) (place : Span)

namespace LoopJump

def keyword : LoopJump → String
  | .break => "break"
  | .continue => "continue"

end LoopJump

namespace Transfer

def keyword : Transfer → String
  | .return => "return"
  | exit => "exit"
  | throw => "throw"

end Transfer

namespace Signal

def keyword : Signal → String
  | jump j _ => j.keyword
  | transfer kind _ _ => kind.keyword

def place : Signal → Span
  | jump _ place => place
  | transfer _ _ place => place

def value? : Signal → Option Value
  | jump _ _ => none
  | transfer _ value _ => some value

end Signal

/-- What an operation needed. -/
inductive Need where
  | function | array | struct | arrayOrString
  deriving DecidableEq

namespace Need

def text : Need → String
  | function => "function"
  | array => "array"
  | struct => "struct"
  | arrayOrString => "array or string"

end Need

/-- Why a running script fails. -/
inductive RuntimeFault where
  | scope (fault : ScopeFault)
  | arithmetic (fault : ArithmeticFault)
  | host (fault : HostFault)
  | mismatch (need : Need) (found : TypeName)
  | functionAsValue
  | indexOutOfBounds (index : Int32) (length : Nat)
  | memberNotFound (name : String)
  | negativeSize (size : Int32)
  | uncaughtThrow (payload : String)
  | misplaced (keyword : String)
  | tooManyCalls (limit : Nat)
  | homeGone (function : String)
  deriving DecidableEq

namespace RuntimeFault

def kind : RuntimeFault → ErrorKind
  | scope _ => .declaration
  | arithmetic _ => .runtime
  | host _ => .hostIo
  | mismatch _ _ => .typeMismatch
  | functionAsValue => .functionReference
  | indexOutOfBounds _ _ => .indexOutOfBounds
  | memberNotFound _ => .memberNotFound
  | negativeSize _ => .runtime
  | uncaughtThrow _ => .userThrow
  | misplaced _ => .illegalSignal
  | tooManyCalls _ => .runtime
  | homeGone _ => .runtime

def message : RuntimeFault → String
  | scope fault => fault.message
  | arithmetic fault => fault.message
  | host fault => fault.message
  | mismatch need found => "Expected " ++ need.text ++ " but was " ++ found.text
  | functionAsValue => "Function reference cannot be used in expression"
  | indexOutOfBounds index length =>
    "Index " ++ toString index.toInt ++ " out of bounds for length " ++ toString length
  | memberNotFound name => "Member " ++ name ++ " not found"
  | negativeSize size => "Negative array size " ++ toString size.toInt
  | uncaughtThrow payload => payload
  | misplaced keyword => "Token '" ++ keyword ++ "' in illegal position"
  | tooManyCalls limit => "Stack overflow: call depth exceeds " ++ toString limit
  | homeGone function => "Scope of function " ++ function ++ " no longer exists"

def toError (fault : RuntimeFault) (place : Span) : ScriptError :=
  .located fault.kind fault.message place

end RuntimeFault

inductive Outcome (α : Type) where
  | done (result : α) (m : Machine)
  | signalled (signal : Signal) (m : Machine)
  | failed (fault : RuntimeFault) (place : Span) (m : Machine)
  | exhausted (m : Machine)

namespace Outcome

/-- Changes the state that is left, whatever the outcome is. -/
@[inline] def mapMachine {α : Type} (f : Machine → Machine) : Outcome α → Outcome α
  | done a m => done a (f m)
  | signalled s m => signalled s (f m)
  | failed fault place m => failed fault place (f m)
  | exhausted m => exhausted (f m)

end Outcome

/-- The evaluation of a part of a script. -/
def Eval (α : Type) := Machine → Outcome α

namespace Eval

@[inline] def pure {α : Type} (a : α) : Eval α := fun m => .done a m

@[inline] def bind {α β : Type} (x : Eval α) (f : α → Eval β) : Eval β := fun m =>
  match x m with
  | .done a m => f a m
  | .signalled s m => .signalled s m
  | .failed fault place m => .failed fault place m
  | .exhausted m => .exhausted m

instance : Monad Eval where
  pure := Eval.pure
  bind := Eval.bind

theorem bind_apply {α β : Type} (x : Eval α) (f : α → Eval β) (m : Machine) :
    (x >>= f) m =
      match x m with
      | .done a m => f a m
      | .signalled s m => .signalled s m
      | .failed fault place m => .failed fault place m
      | .exhausted m => .exhausted m := rfl

theorem bind_eq_done_iff {α β : Type} {x : Eval α} {f : α → Eval β} {m n : Machine} {b : β} :
    (x >>= f) m = .done b n ↔ ∃ a k, x m = .done a k ∧ f a k = .done b n := by
  rw [bind_apply]
  cases x m <;> simp [and_assoc]

instance : LawfulMonad Eval :=
  LawfulMonad.mk' Eval
    (fun x => by funext m; change (x >>= Eval.pure) m = x m; rw [bind_apply]; cases x m <;> rfl)
    (fun _ _ => rfl)
    (fun x f g => by funext m; simp only [bind_apply]; cases x m <;> rfl)

@[inline] def exhausted {α : Type} : Eval α := fun m => .exhausted m

@[inline] def fail {α : Type} (fault : RuntimeFault) (place : Span) : Eval α := fun m =>
  .failed fault place m

@[inline] def signal {α : Type} (s : Signal) : Eval α := fun m => .signalled s m

/-- Asks a question of the store. -/
@[inline] def ask {α : Type} (f : Store → α) : Eval α := fun m => .done (f m.store) m

/-- Changes the store. -/
@[inline] def change (f : Store → Store) : Eval Unit := fun m =>
  .done () { m with store := f m.store }

/-- Adds something to the store. -/
@[inline] def add {α : Type} (f : Store → α × Store) : Eval α := fun m =>
  let (a, store) := f m.store
  .done a { m with store := store }

end Eval

end ScriptEngine
