import ScriptEngine.Numeric.Single

/-!
Rounding to single precision. An exact result is a quotient of natural numbers, counted in units of
the smallest magnitude; it is rounded once to the nearest magnitude, a tie to the even code. The
magnitude after the last finite one is infinity. All arithmetic on single-precision numbers, and the
reading of decimal numbers, is exact up to this one step.
-/
namespace ScriptEngine

namespace Magnitude

/-- The largest code whose units do not exceed `units`, with the number of units that separates it
from the next code. -/
def floorCode (units : Nat) : Nat × Nat :=
  let shift := units.log2 - fractionBits
  (shift <<< fractionBits + units >>> shift, 1 <<< shift)

/-- The code nearest to `num / den` units, of two equally near the even one. -/
def round (num den : Nat) : Nat :=
  let (code, gap) := floorCode (num / den)
  let above := 2 * (num - Magnitude.units code * den)
  let width := gap * den
  let rounded := if width < above ∨ (width = above ∧ code % 2 = 1) then code + 1 else code
  min rounded infinity

theorem round_le (num den : Nat) : round num den ≤ infinity := Nat.min_le_right _ _

end Magnitude

/-- The number `digits * 10 ^ exponent`. -/
structure Decimal where
  digits : Nat
  exponent : Int
  deriving DecidableEq

namespace Decimal

def digitCount (n : Nat) : Nat := (Nat.toDigits 10 n).length

/-- The code of the magnitude nearest to a decimal number. -/
def code (d : Decimal) : Nat :=
  if 0 ≤ d.exponent then
    Magnitude.round ((d.digits * Nat.pow 10 d.exponent.toNat) <<< Magnitude.unitBits) 1
  else Magnitude.round (d.digits <<< Magnitude.unitBits) (Nat.pow 10 (-d.exponent).toNat)

theorem code_le (d : Decimal) : d.code ≤ Magnitude.infinity := by
  unfold code
  split <;> exact Magnitude.round_le _ _

end Decimal

namespace Single

open Magnitude

/-- The number nearest to `num / den` units, with the given sign. -/
def ofUnits (negative : Bool) (num den : Nat) : Single :=
  signed negative (Magnitude.round num den) (round_le num den)

def ofInt (n : Int) : Single := ofUnits (n < 0) (n.natAbs <<< unitBits) 1

/-- The finite value in units, as a signed number. -/
def signedUnits (negative : Bool) (code : Nat) : Int :=
  if negative then -(units code : Int) else units code

/-- A sum of zeros is negative only when both are; any other sum that is zero is positive. -/
def add : Single → Single → Single
  | nan, _ => nan
  | _, nan => nan
  | signed s a ha, signed t b hb =>
    if a = infinity then if b = infinity ∧ s ≠ t then nan else signed s a ha
    else if b = infinity then signed t b hb
    else
      let sum := signedUnits s a + signedUnits t b
      if sum = 0 then ofCode (s && t && a == 0 && b == 0) 0
      else ofUnits (sum < 0) sum.natAbs 1

def sub (x y : Single) : Single := x.add y.neg

def mul : Single → Single → Single
  | nan, _ => nan
  | _, nan => nan
  | signed s a _, signed t b _ =>
    if a = infinity then if b = 0 then nan else infinite (s != t)
    else if b = infinity then if a = 0 then nan else infinite (s != t)
    else ofUnits (s != t) (units a * units b) (1 <<< unitBits)

def div : Single → Single → Single
  | nan, _ => nan
  | _, nan => nan
  | signed s a _, signed t b _ =>
    if a = infinity then if b = infinity then nan else infinite (s != t)
    else if b = infinity then ofCode (s != t) 0
    else if b = 0 then if a = 0 then nan else infinite (s != t)
    else ofUnits (s != t) (units a <<< unitBits) (units b)

/-- The number nearest to a decimal number. Outside of 60 places above or below the point the result
is infinity or zero whatever the digits, and no power has to be computed. -/
def ofDecimal (d : Decimal) : Single :=
  let places : Int := Decimal.digitCount d.digits + d.exponent
  if d.digits = 0 ∨ places < -60 then zero
  else if 60 < places then infinite false
  else signed false d.code (Decimal.code_le d)

/-- The fraction is dropped; a value outside of the 32-bit range becomes the nearest bound, and the
number that is not a number becomes zero. -/
def truncate : Single → Int32
  | nan => 0
  | signed negative code _ =>
    let whole := units code >>> unitBits
    if negative then Int32.ofInt (max (-(whole : Int)) Int32.minValue.toInt)
    else Int32.ofInt (min (whole : Int) Int32.maxValue.toInt)

end Single

end ScriptEngine
