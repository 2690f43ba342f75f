import ScriptEngine.Numeric.Rounding

/-!
The shortest decimal number that reads back. For one, two, … nine digits the two neighbours of the
exact value on that decimal grid are tried, the nearer one first and of two equally near the upper
one; nine digits always suffice.
-/
namespace ScriptEngine

namespace Decimal

/-- The number of places before the decimal point of a finite magnitude above zero; zero or less
when the first digit comes that many places after it. Every such magnitude exceeds `10 ^ -60`. -/
def places (code : Nat) : Int :=
  digitCount ((Magnitude.units code * Nat.pow 10 60) >>> Magnitude.unitBits) - 60

/-- The neighbours of a magnitude among the multiples of `10 ^ exponent`, the nearer one first. -/
def neighbours (code : Nat) (exponent : Int) : List Decimal :=
  let (num, den) :=
    if 0 ≤ exponent then
      (Magnitude.units code, Nat.pow 10 exponent.toNat <<< Magnitude.unitBits)
    else (Magnitude.units code * Nat.pow 10 (-exponent).toNat, 1 <<< Magnitude.unitBits)
  let below := num / den
  if 2 * (num % den) < den then [⟨below, exponent⟩, ⟨below + 1, exponent⟩]
  else [⟨below + 1, exponent⟩, ⟨below, exponent⟩]

/-- A decimal number with `count` digits that is nearest to a magnitude and reads back as it. -/
def ofCode? (code count : Nat) : Option Decimal :=
  (neighbours code (places code - count)).find? (·.code = code)

/-- Ten to a power is written with the digit 1. -/
def trimPower (count : Nat) (d : Decimal) : Decimal :=
  if d.digits = Nat.pow 10 count then ⟨1, d.exponent + count⟩ else d

/-- What reads back with the first number of digits that allows it. -/
def search (code : Nat) (counts : List Nat) : Option Decimal :=
  counts.findSome? fun count => (ofCode? code count).map (trimPower count)

/-- The shortest decimal number that reads back as a finite magnitude above zero. -/
def shortest (code : Nat) : Decimal := (search code [1, 2, 3, 4, 5, 6, 7, 8, 9]).getD ⟨0, 0⟩

end Decimal

end ScriptEngine
