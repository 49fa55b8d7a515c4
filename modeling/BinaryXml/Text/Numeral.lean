/-!
# Numerals

Hexadecimal numerals, and text filled up to a width.
-/

namespace BinaryXml.Numeral

/-- Fill a text up on the left to at least `width` characters. -/
def padLeft (width : Nat) (fill : Char) (text : String) : String :=
  String.ofList (text.toList.leftpad width fill)

/-- Fill a text up with blanks on the right to at least `width` characters. -/
def padRight (width : Nat) (text : String) : String :=
  String.ofList (text.toList.rightpad width ' ')

/-- The shortest lower-case hexadecimal numeral. -/
def hex (n : Nat) : String :=
  String.ofList (Nat.toDigits 16 n)

/-- The lower-case hexadecimal numeral with at least `width` digits. -/
def hexPadded (width n : Nat) : String :=
  padLeft width '0' (hex n)

/-- A chunk's type tag as messages and listings show it: `0x` and at least four digits. -/
def typeTag (tag : UInt16) : String :=
  "0x" ++ hexPadded 4 tag.toNat

end BinaryXml.Numeral
