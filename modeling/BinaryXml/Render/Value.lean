import BinaryXml.Chunk.Basic
import BinaryXml.Decimal.Shortest

/-!
# Typed values as text

Each type of value has its own text: references and attributes in hexadecimal behind a sign, numbers
in decimal or hexadecimal, truth values by name, colors behind `#`. Dimensions and fractions are
complex numbers: a mantissa in the upper 24 bits, two bits for the place of the binary point, and
four bits for the unit.
-/

namespace BinaryXml.Value

/-- The power of two that a complex number's mantissa is multiplied with; the mantissa's own last
bit is the ninth of the data. -/
def complexExponent (data : UInt32) : Int :=
  match data.toNat / 16 % 4 with
  | 0 => -8
  | 1 => -15
  | 2 => -23
  | _ => -31

/-- The number that the data of a complex value stands for. -/
def complexNumber (data : UInt32) : Binary32 :=
  let mantissa : Int := (data &&& 0xFFFFFF00).toInt32.toInt
  .round (mantissa < 0) mantissa.natAbs (complexExponent data)

/-- The unit of a complex value, out of a list; a number past its end means none. -/
def complexUnit (units : List String) (data : UInt32) : String :=
  units[data.toNat % 16]?.getD ""

def dimensionUnits : List String :=
  ["px", "dip", "sp", "pt", "in", "mm"]

def fractionUnits : List String :=
  ["%", "%p"]

open Numeral in
/-- The text of a value that refers to no string. -/
def text (value : Value) : String :=
  let data := value.data
  match value.kind with
  | 0x00 => ""
  | 0x01 => "@0x" ++ hexPadded 8 data.toNat
  | 0x02 => "?0x" ++ hexPadded 8 data.toNat
  | 0x04 => (Binary32.ofBits data).text
  | 0x05 => (complexNumber data).text ++ complexUnit dimensionUnits data
  | 0x06 => ((complexNumber data).scale 100).text ++ complexUnit fractionUnits data
  | 0x10 => toString data.toInt32.toInt
  | 0x11 => "0x" ++ hex data.toNat
  | 0x12 => if data = 0 then "false" else "true"
  | 0x1c | 0x1d | 0x1e | 0x1f => "#" ++ hexPadded 8 data.toNat
  | kind => "0x" ++ hexPadded 8 data.toNat ++ " (type 0x" ++ hexPadded 2 kind.toNat ++ ")"

end BinaryXml.Value
