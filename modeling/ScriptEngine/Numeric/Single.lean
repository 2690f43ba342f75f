/-!
Single-precision numbers. The magnitudes are numbered in increasing order, 0 for zero and the last
for infinity, so that comparing magnitudes is comparing their codes. There is one not-a-number.

Every finite magnitude is a whole number of units, the unit being the smallest magnitude above zero
(2 to the power -149). Up to code 2 ^ 24 the code is the number of units; from there on each block of
2 ^ 23 codes covers one power of two, with units of twice the size in each next block.
-/
namespace ScriptEngine

namespace Magnitude

/-- The width of the fraction: a block of codes has `2 ^ fractionBits` members. -/
def fractionBits : Nat := 23

/-- The number of units in 1 is `2 ^ unitBits`. -/
def unitBits : Nat := 149

/-- The code of infinity. -/
def infinity : Nat := 255 <<< fractionBits

/-- The number of units that a finite code stands for. -/
def units (code : Nat) : Nat :=
  let block := code >>> fractionBits
  if block = 0 then code
  else (1 <<< fractionBits + code % (1 <<< fractionBits)) <<< (block - 1)

end Magnitude

inductive Single where
  | nan
  | signed (negative : Bool) (code : Nat) (code_le : code ≤ Magnitude.infinity)
  deriving DecidableEq

namespace Single

open Magnitude

def zero : Single := signed false 0 (Nat.zero_le _)

instance : Inhabited Single := ⟨zero⟩

/-- The number with this sign and the given code, at most infinity. -/
def ofCode (negative : Bool) (code : Nat) : Single :=
  signed negative (min code infinity) (Nat.min_le_right _ _)

def infinite (negative : Bool) : Single := signed negative infinity (Nat.le_refl _)

/-- Reads the 32 bits of the interchange format: sign, exponent and fraction. -/
def ofBits (bits : UInt32) : Single :=
  let code := bits.toNat % 0x80000000
  if h : code ≤ infinity then signed (0x80000000 ≤ bits.toNat) code h else nan

/-- The 32 bits of the interchange format; none for the number that is not a number. -/
def bits? : Single → Option UInt32
  | nan => none
  | signed negative code _ => some (UInt32.ofNat ((if negative then 0x80000000 else 0) + code))

def isNaN : Single → Bool
  | nan => true
  | signed .. => false

def neg : Single → Single
  | nan => nan
  | signed negative code h => signed (!negative) code h

/-- The place in the order of the numbers; both zeros have place 0. -/
def rank? : Single → Option Int
  | nan => none
  | signed negative code _ => some (if negative then -code else code)

/-- Below in the numeric order. Nothing is below or above the number that is not a number. -/
def less (x y : Single) : Bool :=
  match x.rank?, y.rank? with
  | some a, some b => a < b
  | _, _ => false

/-- Numerically equal: the two zeros are, the number that is not a number is equal to nothing. -/
def equal (x y : Single) : Bool :=
  match x.rank?, y.rank? with
  | some a, some b => a == b
  | _, _ => false

/-- Zero of either sign. -/
def isZero (x : Single) : Bool := x.rank? == some 0

theorem less_irrefl (x : Single) : x.less x = false := by
  cases x <;> simp [less, rank?]

theorem equal_comm (x y : Single) : x.equal y = y.equal x := by
  cases x <;> cases y <;> simp [equal, rank?, Bool.beq_comm]

theorem neg_neg (x : Single) : x.neg.neg = x := by
  cases x <;> simp [neg]

end Single

end ScriptEngine
