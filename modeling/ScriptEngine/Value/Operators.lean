import ScriptEngine.Numeric.Rounding
import ScriptEngine.Text.Blank
import ScriptEngine.Value.Text

/-!
Casts and operators. Every value counts as a number and as a truth value. Two integers give an
integer, which wraps at 32 bits; a float on either side makes both sides floats; a string on either
side makes a sum the joined texts.
-/
namespace ScriptEngine

inductive Number where
  | integer (n : Int32)
  | float (x : Single)
  deriving DecidableEq

namespace Number

def toSingle : Number → Single
  | integer n => Single.ofInt n.toInt
  | float x => x

def toInt32 : Number → Int32
  | integer n => n
  | float x => x.truncate

def toValue : Number → Value
  | integer n => .integer n
  | float x => .float x

def less : Number → Number → Bool
  | integer a, integer b => a < b
  | a, b => a.toSingle.less b.toSingle

def equal : Number → Number → Bool
  | integer a, integer b => a == b
  | a, b => a.toSingle.equal b.toSingle

end Number

inductive ArithmeticFault where
  | divisionByZero
  | moduloByZero
  deriving DecidableEq

namespace ArithmeticFault

def message : ArithmeticFault → String
  | divisionByZero => "Division by zero"
  | moduloByZero => "Modulo by zero"

end ArithmeticFault

namespace Value

/-- Null and blank strings count as 0, strings with content, arrays, structs and callables as 1. -/
def number : Value → Number
  | null => .integer 0
  | boolean b => .integer (if b then 1 else 0)
  | integer n => .integer n
  | float x => .float x
  | string text => .integer (if Text.isBlank text then 0 else 1)
  | _ => .integer 1

def toInt32 (v : Value) : Int32 := v.number.toInt32

/-- Null, zero and blank strings count as false; the float that is not a number counts as true. -/
def truth : Value → Bool
  | null => false
  | boolean b => b
  | integer n => n != 0
  | float x => !x.isZero
  | string text => !Text.isBlank text
  | _ => true

def isString : Value → Bool
  | string _ => true
  | _ => false

def arithmetic (onIntegers : Int32 → Int32 → Int32) (onFloats : Single → Single → Single)
    (a b : Value) : Value :=
  match a.number, b.number with
  | .integer m, .integer n => .integer (onIntegers m n)
  | m, n => .float (onFloats m.toSingle n.toSingle)

def add (σ : Store) (a b : Value) : Value :=
  if a.isString || b.isString then .string (a.text σ ++ b.text σ)
  else arithmetic (· + ·) Single.add a b

/-- Integers are divided toward zero. -/
def divide (a b : Value) : Except ArithmeticFault Value :=
  match a.number, b.number with
  | .integer m, .integer n => if n = 0 then .error .divisionByZero else .ok (.integer (m / n))
  | m, n => .ok (.float (m.toSingle.div n.toSingle))

/-- The remainder of the two values as integers; it has the sign of the first. -/
def modulo (a b : Value) : Except ArithmeticFault Value :=
  if b.toInt32 = 0 then .error .moduloByZero else .ok (.integer (a.toInt32 % b.toInt32))

def less (a b : Value) : Bool := a.number.less b.number

def isNumeric : Value → Bool
  | boolean _ | integer _ | float _ => true
  | _ => false

/-- Strings are equal by content, arrays, structs and callables by identity, null only to null;
truth values and numbers are equal as numbers. -/
def looselyEqual : Value → Value → Bool
  | null, null => true
  | string a, string b => a == b
  | array a, array b => a == b
  | struct a, struct b => a == b
  | function a, function b => a.identity == b.identity
  | native a, native b => a.identity == b.identity
  | a, b => a.isNumeric && b.isNumeric && a.number.equal b.number

end Value

namespace BinaryOp

/-- Applies an operator to operands that have both been evaluated. -/
def apply (σ : Store) (op : BinaryOp) (a b : Value) : Except ArithmeticFault Value :=
  match op with
  | add => .ok (a.add σ b)
  | sub => .ok (a.arithmetic (· - ·) Single.sub b)
  | mul => .ok (a.arithmetic (· * ·) Single.mul b)
  | div => a.divide b
  | mod => a.modulo b
  | equal => .ok (.boolean (a.looselyEqual b))
  | notEqual => .ok (.boolean (!a.looselyEqual b))
  | less => .ok (.boolean (a.less b))
  | greater => .ok (.boolean (b.less a))
  | lessEqual => .ok (.boolean (!b.less a))
  | greaterEqual => .ok (.boolean (!a.less b))
  | and => .ok (.boolean (a.truth && b.truth))
  | or => .ok (.boolean (a.truth || b.truth))

end BinaryOp

namespace UnaryOp

def apply (op : UnaryOp) (v : Value) : Value :=
  match op with
  | negate =>
    match v.number with
    | .integer n => .integer (-n)
    | .float x => .float x.neg
  | not => .boolean (!v.truth)

end UnaryOp

end ScriptEngine
