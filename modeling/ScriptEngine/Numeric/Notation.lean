import ScriptEngine.Numeric.Shortest

/-!
How single-precision numbers are written. Positional notation shows all places up to the decimal
point; scientific notation has one digit before the point and an exponent. The text of a value
always has a fractional part; the text of a literal in a report has one only when it is needed.
-/
namespace ScriptEngine

namespace Decimal

/-- The digits with the decimal point in its place; no fractional part when there is none. -/
def positional (d : Decimal) : String :=
  let digits := Nat.toDigits 10 d.digits
  if 0 ≤ d.exponent then String.ofList (digits ++ List.replicate d.exponent.toNat '0')
  else
    let fraction := (-d.exponent).toNat
    if fraction < digits.length then
      let whole := digits.length - fraction
      String.ofList (digits.take whole ++ '.' :: digits.drop whole)
    else String.ofList ('0' :: '.' :: List.replicate (fraction - digits.length) '0' ++ digits)

/-- The first digit, the others as a fractional part (a zero when there are none), the exponent. -/
def scientific (d : Decimal) : String :=
  let digits := Nat.toDigits 10 d.digits
  let exponent : Int := d.exponent + digits.length - 1
  let fraction := if digits.length ≤ 1 then ['0'] else digits.drop 1
  String.ofList (digits.take 1 ++ '.' :: fraction ++ 'E' :: (toString exponent).toList)

end Decimal

namespace Single

def sign (negative : Bool) : String := if negative then "-" else ""

def positional (code : Nat) : String :=
  if code = 0 then "0" else (Decimal.shortest code).positional

/-- The magnitudes written positionally: zero, and from a thousandth up to below ten million. -/
def writtenPositionally (code : Nat) : Bool :=
  code == 0 || (Decimal.code ⟨1, -3⟩ ≤ code && code < Decimal.code ⟨1, 7⟩)

/-- The text of a number as a value. -/
def text : Single → String
  | nan => "NaN"
  | signed negative code _ =>
    if code = Magnitude.infinity then sign negative ++ "Infinity"
    else if writtenPositionally code then
      let digits := positional code
      sign negative ++ (if digits.contains '.' then digits else digits ++ ".0")
    else sign negative ++ (Decimal.shortest code).scientific

/-- The text of a number as a literal: never an exponent. -/
def literalText : Single → String
  | nan => "NaN"
  | signed negative code _ =>
    if code = Magnitude.infinity then sign negative ++ "inf" else sign negative ++ positional code

end Single

end ScriptEngine
