import BinaryXml.Text.GraphemeExtend
import BinaryXml.Text.Numeral
import BinaryXml.Text.Unprintable

/-!
# Quoted text

A text between double quotes, in which every character can be seen: quotes, backslashes and the
usual control characters stand behind a backslash, and characters that cannot be told by their looks
are written by their numbers. Those are the marks that are drawn with the character before them and
all that has no picture. A letter is taken for what it shows: the few that extend a grapheme have a
cell of their own, and the few that fill a place in a syllable show nothing.
-/

namespace BinaryXml.Text

/-- Whether a number lies in one of some ranges. -/
def memRanges (ranges : Array (Nat × Nat)) (n : Nat) : Bool :=
  ranges.any fun (first, last) => first ≤ n && n ≤ last

/-- Whether a character is drawn with the character before it. -/
def isGraphemeExtend (c : Char) : Bool :=
  memRanges graphemeExtendRanges c.toNat

/-- Whether a character is of a category that has pictures, or is the blank. -/
def isPrintable (c : Char) : Bool :=
  !memRanges unprintableRanges c.toNat

/-- Whether a character is a letter that extends a grapheme: one of the halfwidth sound marks of
kana, each of which has a cell of its own. -/
def isSoundMark (c : Char) : Bool :=
  c = '\uFF9E' || c = '\uFF9F'

/-- Whether a character is a letter without a picture: one of the Hangul fillers, which Unicode lets
displays ignore. -/
def isFiller (c : Char) : Bool :=
  c = '\u115F' || c = '\u1160' || c = '\u3164' || c = '\uFFA0'

/-- Whether a character can be told by its looks. -/
def isDistinct (c : Char) : Bool :=
  isSoundMark c || (isPrintable c && !isGraphemeExtend c && !isFiller c)

/-- A character as it stands between quotes. -/
def quoteCharacter (c : Char) : List Char :=
  match c with
  | '"' => ['\\', '"']
  | '\\' => ['\\', '\\']
  | '\n' => ['\\', 'n']
  | '\r' => ['\\', 'r']
  | '\t' => ['\\', 't']
  | '\x00' => ['\\', '0']
  | _ =>
    if isDistinct c then [c]
    else '\\' :: 'u' :: '\x7b' :: (Numeral.hex c.toNat).toList ++ ['\x7d']

def quoted (text : String) : String :=
  String.ofList ('"' :: text.toList.flatMap quoteCharacter ++ ['"'])

end BinaryXml.Text
