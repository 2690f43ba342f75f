import ScriptEngine.Numeric.Rounding

/-!
Number literals. A literal begins with digits; a point counts only when a digit follows it, an
exponent mark only when digits (or a sign and digits) follow it. A literal with neither is whole.
-/
namespace ScriptEngine

/-- The digits of a number literal: before the point, after it, and the exponent if there is one. -/
structure NumberLiteral where
  whole : List Char
  fraction : List Char
  exponent : Option Int
  /-- The number of characters of the literal. -/
  length : Nat

namespace NumberLiteral

def leadingDigits (text : List Char) : List Char := text.takeWhile Char.isDigit

/-- The number that a row of decimal digits stands for. -/
def value (digits : List Char) : Nat :=
  digits.foldl (fun n d => 10 * n + (d.toNat - '0'.toNat)) 0

/-- The digits after a point, none when the point is not part of the literal. -/
def fractionOf : List Char → List Char
  | '.' :: rest => leadingDigits rest
  | _ => []

/-- The exponent at the front of a text and its length with the mark. -/
def exponentOf : List Char → Option (Int × Nat)
  | mark :: rest =>
    if mark = 'e' ∨ mark = 'E' then
      let (negative, signLength) :=
        match rest with
        | '-' :: _ => (true, 1)
        | '+' :: _ => (false, 1)
        | _ => (false, 0)
      match leadingDigits (rest.drop signLength) with
      | [] => none
      | digits =>
        let n : Int := value digits
        some (if negative then -n else n, 1 + signLength + digits.length)
    else none
  | [] => none

/-- The literal at the front of a text that begins with a digit. -/
def scan (text : List Char) : NumberLiteral :=
  let whole := leadingDigits text
  let rest := text.drop whole.length
  let fraction := fractionOf rest
  let pointed := if fraction.isEmpty then 0 else fraction.length + 1
  match exponentOf (rest.drop pointed) with
  | some (exponent, length) => ⟨whole, fraction, some exponent, whole.length + pointed + length⟩
  | none => ⟨whole, fraction, none, whole.length + pointed⟩

def isWhole (literal : NumberLiteral) : Bool :=
  literal.fraction.isEmpty && literal.exponent.isNone

/-- The value of a whole literal, when it is in range. -/
def integer? (literal : NumberLiteral) : Option Int32 :=
  let n := value literal.whole
  if n < 0x80000000 then some (Int32.ofNat n) else none

/-- The value of a literal with a fraction or an exponent. -/
def single (literal : NumberLiteral) : Single :=
  Single.ofDecimal
    ⟨value (literal.whole ++ literal.fraction),
      literal.exponent.getD 0 - literal.fraction.length⟩

end NumberLiteral

end ScriptEngine
