/-!
# UTF-16 code units

The code units of a text and the strict way back: characters beyond the basic plane are written
as a surrogate pair, and a surrogate outside a pair is refused.
-/

namespace BinaryXml.Utf16

def unitsOf (c : Char) : List UInt16 :=
  if c.toNat < 0x10000 then [UInt16.ofNat c.toNat]
  else [UInt16.ofNat (0xD800 + (c.toNat - 0x10000) / 0x400),
    UInt16.ofNat (0xDC00 + (c.toNat - 0x10000) % 0x400)]

def encode (text : List Char) : List UInt16 :=
  text.flatMap unitsOf

def length (text : String) : Nat :=
  (encode text.toList).length

/-- A unit that starts a surrogate pair. -/
def isHigh (unit : UInt16) : Bool :=
  0xD800 ≤ unit && unit < 0xDC00

/-- A unit that ends a surrogate pair. -/
def isLow (unit : UInt16) : Bool :=
  0xDC00 ≤ unit && unit < 0xE000

/-- Decode the units after those that gave `done`, the latest character first. -/
def decodeOnto (done : List Char) : List UInt16 → Option (List Char)
  | [] => some done.reverse
  | unit :: units =>
    if isHigh unit then
      match units with
      | [] => none
      | second :: rest =>
        if isLow second then
          let code := 0x10000 + (unit.toNat - 0xD800) * 0x400 + (second.toNat - 0xDC00)
          decodeOnto (Char.ofNat code :: done) rest
        else none
    else if isLow unit then none
    else decodeOnto (Char.ofNat unit.toNat :: done) units

/-- The text of some code units, or nothing when a surrogate stands outside a pair. -/
def decode (units : List UInt16) : Option (List Char) :=
  decodeOnto [] units

end BinaryXml.Utf16
