/-!
# White space

Two classes of characters: the four that XML markup is laid out with, and those that Unicode calls
`White_Space`, which decide whether a text says anything at all.
-/

namespace BinaryXml.Text

/-- The white space of XML markup. -/
def isMarkupSpace (c : Char) : Bool :=
  c = ' ' || c = '\t' || c = '\r' || c = '\n'

/-- The white space of Unicode. -/
def isWhiteSpace (c : Char) : Bool :=
  let code := c.toNat
  (0x9 ≤ code && code ≤ 0xD) || code = 0x20 || code = 0x85 || code = 0xA0 || code = 0x1680
    || (0x2000 ≤ code && code ≤ 0x200A) || code = 0x2028 || code = 0x2029 || code = 0x202F
    || code = 0x205F || code = 0x3000

/-- Whether a text consists of Unicode white space alone. -/
def isBlank (text : List Char) : Bool :=
  text.all isWhiteSpace

end BinaryXml.Text
