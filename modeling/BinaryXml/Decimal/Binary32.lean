/-!
# Binary floating point numbers of 32 bits

A finite number is a sign and a value `significand * 2 ^ exponent`, kept in the one form that the
format gives it: the significand has 24 bits, or fewer when the exponent is the least there is.
Numbers are made from their bits, or by rounding an exact value to the nearest number, where a tie
goes to the even significand.
-/

namespace BinaryXml

inductive Binary32 where
  /-- The number `significand * 2 ^ exponent`, or its negative. -/
  | finite (negative : Bool) (significand : Nat) (exponent : Int)
  | infinite (negative : Bool)
  | nan
  deriving DecidableEq, Repr

namespace Binary32

/-- The exponent of the least positive number. -/
def leastExponent : Int := -149

def ofBits (bits : UInt32) : Binary32 :=
  let n := bits.toNat
  let negative : Bool := Nat.pow 2 31 ≤ n
  let biased : Nat := n / Nat.pow 2 23 % Nat.pow 2 8
  let fraction : Nat := n % Nat.pow 2 23
  if biased = 255 then
    if fraction = 0 then infinite negative else nan
  else if biased = 0 then finite negative fraction leastExponent
  else finite negative (Nat.pow 2 23 + fraction) ((biased : Int) - 150)

/-- A quotient rounded to the nearest whole number, ties to the even one. -/
def roundToEven (dividend divisor : Nat) : Nat :=
  let quotient := dividend / divisor
  let twice := 2 * (dividend % divisor)
  if divisor < twice ∨ (divisor = twice ∧ quotient % 2 = 1) then quotient + 1 else quotient

/-- The number nearest to `value * 2 ^ exponent`, or to its negative, where the exponents of the
numbers have no upper end. -/
def round (negative : Bool) (value : Nat) (exponent : Int) : Binary32 :=
  if value = 0 then finite negative 0 leastExponent
  else
    let length : Int := value.log2 + 1
    let target := max (exponent + length - 24) leastExponent
    if target ≤ exponent then
      finite negative (value * Nat.pow 2 (exponent - target).toNat) target
    else
      let significand := roundToEven value (Nat.pow 2 (target - exponent).toNat)
      if significand = Nat.pow 2 24 then finite negative (Nat.pow 2 23) (target + 1)
      else finite negative significand target

def scale (factor : Nat) : Binary32 → Binary32
  | finite negative significand exponent => round negative (significand * factor) exponent
  | other => other

end Binary32

end BinaryXml
