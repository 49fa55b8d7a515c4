import BinaryXml.Decimal.Binary32
import BinaryXml.Text.Numeral

/-!
# The shortest decimal text of a number

Of all decimals that read back as a number the text shows the one with the fewest digits, and of
these the nearest to the number; of two that are equally near it shows the greater. The digits are
always written out in full, without an exponent, and a whole number has no decimal point.
-/

namespace BinaryXml.Binary32

/-- The values that read back as `significand * 2 ^ exponent`, and that value itself, as multiples
of `unit / part`, which is a quarter of `2 ^ exponent`. The ends read back if the significand is
even. Below a power of two the numbers lie twice as close. -/
structure Interval where
  low : Nat
  value : Nat
  high : Nat
  /-- The dividend of the unit. -/
  unit : Nat
  /-- The divisor of the unit. -/
  part : Nat
  /-- Whether the ends belong to the interval. -/
  closed : Bool

def interval (significand : Nat) (exponent : Int) : Interval where
  low :=
    if significand = Nat.pow 2 23 ∧ leastExponent < exponent then 4 * significand - 1
    else 4 * significand - 2
  value := 4 * significand
  high := 4 * significand + 2
  unit := Nat.pow 2 (exponent - 2).toNat
  part := Nat.pow 2 (2 - exponent).toNat
  closed := significand % 2 = 0

/-- Whether `multiple * 10 ^ power` lies in an interval. -/
def Interval.contains (i : Interval) (power : Int) (multiple : Nat) : Bool :=
  let left := multiple * Nat.pow 10 power.toNat * i.part
  let step := i.unit * Nat.pow 10 (-power).toNat
  if i.closed then i.low * step ≤ left && left ≤ i.high * step
  else i.low * step < left && left < i.high * step

/-- The multiple of `10 ^ power` in an interval that is nearest to its value, the greater of two
equally near ones, if there is one at all. -/
def Interval.nearest? (i : Interval) (power : Int) : Option Nat :=
  let dividend := i.value * i.unit * Nat.pow 10 (-power).toNat
  let divisor := i.part * Nat.pow 10 power.toNat
  let below := dividend / divisor
  let above := below + 1
  let nearer := if 2 * (dividend % divisor) < divisor then [below, above] else [above, below]
  nearer.find? (i.contains power)

/-- The greatest power of ten that can have a multiple in an interval. -/
def greatestPower : Int := 39

/-- The number of powers of ten that are tried: below the least of them every interval is wider than
the power. -/
def powerCount : Nat := 100

/-- The shortest decimal of an interval: its digits as a number, and the power of ten of the last
digit. -/
def Interval.shortest (i : Interval) : Nat × Int :=
  let found := (List.range powerCount).findSome? fun (k : Nat) =>
    let power := greatestPower - k
    (i.nearest? power).map fun multiple => (multiple, power)
  found.getD (0, 0)

/-- The decimal `digits * 10 ^ power` written out in full. -/
def positional (digits : Nat) (power : Int) : String :=
  if 0 ≤ power then
    toString (digits * Nat.pow 10 power.toNat)
  else
    let places := (-power).toNat
    let all := (Numeral.padLeft (places + 1) '0' (toString digits)).toList
    let whole := all.length - places
    String.ofList (all.take whole ++ '.' :: all.drop whole)

def text : Binary32 → String
  | nan => "NaN"
  | infinite negative => if negative then "-inf" else "inf"
  | finite negative significand exponent =>
    let magnitude :=
      if significand = 0 then "0"
      else
        let (digits, power) := (interval significand exponent).shortest
        positional digits power
    if negative then "-" ++ magnitude else magnitude

end BinaryXml.Binary32
